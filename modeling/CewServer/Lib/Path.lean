import CewServer.Lib.Bytes
import Mathlib.Data.List.Basic

/-!
# Lexical normalisation of absolute paths

A path is a walk in a tree of directories: an empty component and `.` stay, `..` goes up, and any
other component goes down. A directory is the list of the names that lead to it, innermost first, so
that going up takes the head off, and going up from the root stays there. What a walk does, wherever
it starts, is told by two things: how many levels of the start it leaves, and the names it goes down
after that.
-/

namespace Path

/-! ### Walks -/

inductive Step (ν : Type) where
  | stay
  | up
  | down (name : ν)

section Walk

variable {ν : Type}

def walk : List ν → List (Step ν) → List ν
  | dir, [] => dir
  | dir, .stay :: steps => walk dir steps
  | dir, .up :: steps => walk dir.tail steps
  | dir, .down name :: steps => walk (name :: dir) steps

/-- A walk told without its start: the levels of the start it has left, and the names it is below
them. -/
structure Climb (ν : Type) where
  levels : Nat
  names : List ν

def Climb.step (c : Climb ν) : Step ν → Climb ν
  | .stay => c
  | .up =>
      match c.names with
      | [] => ⟨c.levels + 1, []⟩
      | _ :: names => ⟨c.levels, names⟩
  | .down name => ⟨c.levels, name :: c.names⟩

def climb (steps : List (Step ν)) : Climb ν := steps.foldl Climb.step ⟨0, []⟩

def Climb.reach (c : Climb ν) (dir : List ν) : List ν := c.names ++ dir.drop c.levels

theorem walk_append (dir : List ν) (steps more : List (Step ν)) :
    walk dir (steps ++ more) = walk (walk dir steps) more := by
  induction steps generalizing dir with
  | nil => rfl
  | cons step steps ih => cases step <;> exact ih _

theorem walk_reach (dir : List ν) (c : Climb ν) (steps : List (Step ν)) :
    walk (c.reach dir) steps = (steps.foldl Climb.step c).reach dir := by
  induction steps generalizing c with
  | nil => rfl
  | cons step steps ih =>
      rw [List.foldl_cons, ← ih (c.step step)]
      cases step with
      | stay => rfl
      | down name => rfl
      | up =>
          obtain ⟨levels, names⟩ := c
          cases names with
          | nil => simp only [walk, Climb.reach, Climb.step, List.nil_append, List.tail_drop]
          | cons name names => rfl

theorem walk_eq_climb (dir : List ν) (steps : List (Step ν)) :
    walk dir steps = (climb steps).reach dir := by
  have hstart : (⟨0, []⟩ : Climb ν).reach dir = dir := by
    simp only [Climb.reach, List.nil_append, List.drop_zero]
  rw [climb, ← walk_reach, hstart]

/-- A directory lies in a tree when the names of the tree are its outermost ones. -/
def Inside (root dir : List ν) : Prop := root <:+ dir

/-- A walk that goes back down through the levels it has left. -/
def Climb.Returns (c : Climb ν) (root : List ν) : Prop := root.take c.levels <:+ c.names

instance [DecidableEq ν] (root dir : List ν) : Decidable (Inside root dir) :=
  inferInstanceAs (Decidable (root <:+ dir))

instance [DecidableEq ν] (c : Climb ν) (root : List ν) : Decidable (c.Returns root) :=
  inferInstanceAs (Decidable (root.take c.levels <:+ c.names))

/-- A walk from the top of a tree ends in it exactly when it goes back down through the levels of the
tree it has left. -/
theorem inside_walk_iff (root : List ν) (steps : List (Step ν)) :
    Inside root (walk root steps) ↔ (climb steps).Returns root := by
  rw [walk_eq_climb]
  simp only [Inside, Climb.reach, Climb.Returns]
  constructor
  · rintro ⟨before, hbefore⟩
    refine ⟨before, (List.append_left_inj (root.drop (climb steps).levels)).mp ?_⟩
    rw [List.append_assoc, List.take_append_drop]
    exact hbefore
  · rintro ⟨before, hbefore⟩
    refine ⟨before, ?_⟩
    rw [← hbefore, List.append_assoc, List.take_append_drop]

end Walk

/-! ### Paths of bytes -/

def components {α : Type} [DecidableEq α] (sep : α) : List α → List (List α)
  | [] => [[]]
  | a :: text =>
      if a = sep then [] :: components sep text
      else
        match components sep text with
        | [] => [[a]]
        | part :: parts => (a :: part) :: parts

theorem components_ne_nil {α : Type} [DecidableEq α] (sep : α) (text : List α) :
    components sep text ≠ [] := by
  cases text with
  | nil => exact List.cons_ne_nil _ _
  | cons a text =>
      simp only [components]
      split
      · exact List.cons_ne_nil _ _
      · split <;> exact List.cons_ne_nil _ _

theorem components_append {α : Type} [DecidableEq α] (sep : α) (text more : List α) :
    components sep (text ++ sep :: more) = components sep text ++ components sep more := by
  induction text with
  | nil => simp only [List.nil_append, components, if_true, List.singleton_append]
  | cons a text ih =>
      simp only [List.cons_append, components, ih]
      by_cases hsep : a = sep
      · simp only [hsep, if_true, List.cons_append]
      · simp only [hsep, if_false]
        cases hparts : components sep text with
        | nil => exact absurd hparts (components_ne_nil sep text)
        | cons part parts => simp only [List.cons_append]

theorem components_of_not_mem {α : Type} [DecidableEq α] {sep : α} {text : List α}
    (htext : sep ∉ text) : components sep text = [text] := by
  induction text with
  | nil => rfl
  | cons a text ih =>
      obtain ⟨ha, htext⟩ := not_or.mp (mt List.mem_cons.mpr htext)
      rw [components, if_neg (Ne.symm ha), ih htext]

def lastComponent {α : Type} [DecidableEq α] (sep : α) (text : List α) : List α :=
  (components sep text).getLast (components_ne_nil sep text)

/-- A suffix without a separator is one of the last component. -/
theorem suffix_lastComponent_iff {α : Type} [DecidableEq α] {sep : α} {ext : List α}
    (hext : sep ∉ ext) (text : List α) : ext <:+ lastComponent sep text ↔ ext <:+ text := by
  by_cases hmem : sep ∈ text
  · obtain ⟨rlast, rdir, hrev, hlast⟩ := List.eq_append_cons_of_mem (List.mem_reverse.mpr hmem)
    obtain ⟨dir, last, rfl, hlast⟩ : ∃ dir last, text = dir ++ sep :: last ∧ sep ∉ last :=
      ⟨rdir.reverse, rlast.reverse, by simpa using congrArg List.reverse hrev, by simpa using hlast⟩
    have hcomponent : lastComponent sep (dir ++ sep :: last) = last := by
      simp only [lastComponent, components_append, components_of_not_mem hlast,
        List.getLast_append_singleton]
    rw [hcomponent]
    constructor
    · intro hsuffix
      exact hsuffix.trans ((List.suffix_cons sep last).trans (List.suffix_append dir _))
    · intro hsuffix
      -- the separator is in the longer of two suffixes, and not in `ext`
      rcases List.suffix_or_suffix_of_suffix hsuffix (List.suffix_append dir (sep :: last)) with h | h
      · rcases List.suffix_cons_iff.mp h with heq | h
        · exact absurd (heq ▸ List.mem_cons_self) hext
        · exact h
      · exact absurd (h.mem List.mem_cons_self) hext
  · simp only [lastComponent, components_of_not_mem hmem, List.getLast_singleton]

def step (component : Bytes) : Step Bytes :=
  if component = [] ∨ component = Bytes.ascii "." then .stay
  else if component = Bytes.ascii ".." then .up
  else .down component

def steps (path : Bytes) : List (Step Bytes) := (components 47 path).map step

/-- The directory or file an absolute path names, innermost name first. -/
def normalise (path : Bytes) : List Bytes := walk [] (steps path)

theorem normalise_below (dir name : Bytes) :
    normalise (dir ++ 47 :: name) = walk (normalise dir) (steps name) := by
  rw [normalise, steps, components_append, List.map_append, walk_append]
  rfl

end Path
