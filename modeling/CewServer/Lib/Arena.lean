import Mathlib.Data.List.Perm.Basic
import Mathlib.Data.Fintype.EquivFin

/-!
# Blocks that are allocated and freed

A program that keeps its data in blocks: `malloc` gives an address that is not in use, and may give one
again that was freed before; what it gives may depend on everything that went before, so it is a function
of the memory and of the number of calls. An access to a block that is not allocated makes the memory
wild, and wild it stays.

`realloc` makes a block larger, where it is or somewhere else, and the caller has to go on with the pointer
it returns: the old one is that of a freed block if the block has moved.

`Holds` says what is allocated: exactly the blocks of a list. Each operation has one rule, and since the
order of the list does not matter a caller can bring to the front what it works on and leave the rest.
-/

namespace Blocks

variable {α : Type}

structure Allocator (α : Type) where
  malloc : Nat → (Nat → Option α) → Nat
  fresh : ∀ (count : Nat) (cells : Nat → Option α), (∃ a, cells a = none) → cells (malloc count cells) = none

/-- An allocator that gives some free address. -/
noncomputable def Allocator.anywhere : Allocator α where
  malloc _ cells := Classical.epsilon fun a => cells a = none
  fresh _ _ hfree := Classical.epsilon_spec hfree

/-- Whether `realloc` finds the room behind a block depends on everything that went before, too. -/
structure Reallocator (α : Type) extends Allocator α where
  stays : Nat → (Nat → Option α) → Nat → Bool

structure Arena (α : Type) where
  cells : Nat → Option α
  count : Nat
  wild : Bool

namespace Arena

def alloc (allocator : Allocator α) (m : Arena α) (x : α) : Nat × Arena α :=
  let a := allocator.malloc m.count m.cells
  (a, { m with cells := Function.update m.cells a (some x), count := m.count + 1 })

def free (m : Arena α) (a : Nat) : Arena α :=
  match m.cells a with
  | none => { m with wild := true }
  | some _ => { m with cells := Function.update m.cells a none }

/-- What a block holds, read through a pointer. -/
def read [Inhabited α] (m : Arena α) (a : Nat) : α × Arena α :=
  match m.cells a with
  | none => (default, { m with wild := true })
  | some x => (x, m)

/-- A pointer is handed to a function that at most reads behind it. -/
def touch [Inhabited α] (m : Arena α) (a : Nat) : Arena α := (m.read a).2

/-- A change in place. -/
def modify (m : Arena α) (a : Nat) (f : α → α) : Arena α :=
  match m.cells a with
  | none => { m with wild := true }
  | some x => { m with cells := Function.update m.cells a (some (f x)) }

/-- A block is made larger: the pointer to go on with, and the memory. -/
def grow (r : Reallocator α) (m : Arena α) (a : Nat) (f : α → α) : Nat × Arena α :=
  match m.cells a with
  | none => (a, { m with wild := true })
  | some x =>
      if r.stays m.count m.cells a then (a, { m.modify a f with count := m.count + 1 })
      else ((m.alloc r.toAllocator (f x)).1, (m.alloc r.toAllocator (f x)).2.free a)

/-! ### What is wild stays wild -/

variable {m : Arena α} {a : Nat}

theorem alloc_wild (allocator : Allocator α) (x : α) (hwild : m.wild = true) :
    (m.alloc allocator x).2.wild = true := hwild

theorem free_of_none (hcell : m.cells a = none) : (m.free a).wild = true := by
  rw [free, hcell]

theorem free_wild (hwild : m.wild = true) : (m.free a).wild = true := by
  rw [free]
  cases m.cells a with
  | none => rfl
  | some x => exact hwild

theorem read_wild [Inhabited α] (hwild : m.wild = true) : (m.read a).2.wild = true := by
  rw [read]
  cases m.cells a with
  | none => rfl
  | some x => exact hwild

theorem touch_wild [Inhabited α] (hwild : m.wild = true) : (m.touch a).wild = true := read_wild hwild

theorem modify_wild (f : α → α) (hwild : m.wild = true) : (m.modify a f).wild = true := by
  rw [modify]
  cases m.cells a with
  | none => rfl
  | some x => exact hwild

theorem grow_wild (r : Reallocator α) (f : α → α) (hwild : m.wild = true) :
    (m.grow r a f).2.wild = true := by
  rw [grow]
  cases m.cells a with
  | none => rfl
  | some x =>
      dsimp only
      split
      · exact modify_wild f hwild
      · exact free_wild (alloc_wild r.toAllocator (f x) hwild)

theorem grow_fst_of_stays {r : Reallocator α} {x : α} (f : α → α) (hcell : m.cells a = some x)
    (hstays : r.stays m.count m.cells a = true) : (m.grow r a f).1 = a := by
  rw [grow, hcell]
  dsimp only
  rw [if_pos hstays]

end Arena

/-- The allocated blocks are those of the list. -/
structure Holds (m : Arena α) (live : List (Nat × α)) : Prop where
  tame : m.wild = false
  nodup : (live.map Prod.fst).Nodup
  cells : ∀ a x, m.cells a = some x ↔ (a, x) ∈ live

variable {m : Arena α} {live other : List (Nat × α)} {a : Nat} {x : α}

namespace Holds

theorem perm (h : Holds m live) (hperm : live.Perm other) : Holds m other where
  tame := h.tame
  nodup := (hperm.map _).nodup_iff.mp h.nodup
  cells := fun a x => (h.cells a x).trans hperm.mem_iff

theorem cell_of_mem (h : Holds m live) (hmem : (a, x) ∈ live) : m.cells a = some x :=
  (h.cells a x).mpr hmem

theorem isNone_iff (h : Holds m live) : m.cells a = none ↔ a ∉ live.map Prod.fst := by
  constructor
  · intro hnone hmem
    obtain ⟨⟨b, y⟩, hy, rfl⟩ := List.mem_map.mp hmem
    rw [h.cell_of_mem hy] at hnone
    cases hnone
  · intro hnot
    cases hcell : m.cells a with
    | none => rfl
    | some y => exact absurd (List.mem_map_of_mem ((h.cells a y).mp hcell)) hnot

theorem exists_free (h : Holds m live) : ∃ a, m.cells a = none := by
  obtain ⟨a, ha⟩ := Infinite.exists_notMem_finset (live.map Prod.fst).toFinset
  exact ⟨a, h.isNone_iff.mpr fun hmem => ha (List.mem_toFinset.mpr hmem)⟩

theorem alloc (h : Holds m live) (allocator : Allocator α) (x : α) :
    Holds (m.alloc allocator x).2 (((m.alloc allocator x).1, x) :: live) := by
  have hfree := allocator.fresh m.count m.cells h.exists_free
  have hnot : (m.alloc allocator x).1 ∉ live.map Prod.fst := h.isNone_iff.mp hfree
  refine ⟨h.tame, List.nodup_cons.mpr ⟨hnot, h.nodup⟩, fun b y => ?_⟩
  show Function.update m.cells (m.alloc allocator x).1 (some x) b = some y ↔ _
  rw [List.mem_cons]
  by_cases hb : b = (m.alloc allocator x).1
  · rw [hb, Function.update_self, Option.some.injEq]
    constructor
    · rintro rfl
      exact .inl rfl
    · rintro (heq | hmem)
      · exact (Prod.mk.inj heq).2.symm
      · exact absurd (List.mem_map_of_mem hmem) hnot
  · rw [Function.update_of_ne hb, h.cells b y]
    refine ⟨.inr, fun hmem => hmem.resolve_left fun heq => hb (Prod.mk.inj heq).1⟩

theorem free (h : Holds m ((a, x) :: live)) : Holds (m.free a) live := by
  obtain ⟨hnot, hnodup⟩ := List.nodup_cons.mp h.nodup
  have hcell := h.cell_of_mem List.mem_cons_self
  rw [Arena.free, hcell]
  refine ⟨h.tame, hnodup, fun b y => ?_⟩
  show Function.update m.cells a none b = some y ↔ _
  by_cases hb : b = a
  · rw [hb, Function.update_self]
    exact ⟨fun heq => (by cases heq), fun hmem => absurd (List.mem_map_of_mem hmem) hnot⟩
  · rw [Function.update_of_ne hb, h.cells b y, List.mem_cons]
    exact or_iff_right fun heq => hb (Prod.mk.inj heq).1

theorem read [Inhabited α] (h : Holds m live) (hmem : (a, x) ∈ live) : m.read a = (x, m) := by
  rw [Arena.read, h.cell_of_mem hmem]

theorem modify (h : Holds m ((a, x) :: live)) (f : α → α) : Holds (m.modify a f) ((a, f x) :: live) := by
  obtain ⟨hnot, hnodup⟩ := List.nodup_cons.mp h.nodup
  rw [Arena.modify, h.cell_of_mem List.mem_cons_self]
  refine ⟨h.tame, h.nodup, fun b y => ?_⟩
  show Function.update m.cells a (some (f x)) b = some y ↔ _
  rw [List.mem_cons]
  by_cases hb : b = a
  · subst hb
    rw [Function.update_self, Option.some.injEq]
    constructor
    · rintro rfl
      exact .inl rfl
    · rintro (heq | hmem)
      · exact (Prod.mk.inj heq).2.symm
      · exact absurd (List.mem_map_of_mem hmem) hnot
  · rw [Function.update_of_ne hb, h.cells b y, List.mem_cons]
    have hne : ∀ z, (b, y) ≠ (a, z) := fun z heq => hb (Prod.mk.inj heq).1
    simp only [hne, false_or]

theorem grow (h : Holds m ((a, x) :: live)) (r : Reallocator α) (f : α → α) :
    Holds (m.grow r a f).2 (((m.grow r a f).1, f x) :: live) := by
  rw [Arena.grow, h.cell_of_mem List.mem_cons_self]
  dsimp only
  split
  · have hmodified := h.modify f
    exact ⟨hmodified.tame, hmodified.nodup, hmodified.cells⟩
  · exact ((h.alloc r.toAllocator (f x)).perm (List.Perm.swap _ _ _)).free

theorem grow_fst_of_moves (h : Holds m ((a, x) :: live)) {r : Reallocator α} (f : α → α)
    (hmoves : r.stays m.count m.cells a = false) : (m.grow r a f).1 ≠ a := by
  have hnew := h.alloc r.toAllocator (f x)
  rw [Arena.grow, h.cell_of_mem List.mem_cons_self]
  dsimp only
  rw [hmoves, if_neg Bool.false_ne_true]
  intro heq
  exact (List.nodup_cons.mp hnew.nodup).1 (List.mem_map.mpr ⟨(a, x), List.mem_cons_self, heq.symm⟩)

/-- What was freed was allocated, and is not any more. -/
theorem of_free (h : Holds (m.free a) live) : (∃ x, m.cells a = some x) ∧ a ∉ live.map Prod.fst := by
  cases hcell : m.cells a with
  | none => exact absurd h.tame (by simp [Arena.free_of_none hcell])
  | some x =>
      refine ⟨⟨x, rfl⟩, h.isNone_iff.mp ?_⟩
      rw [Arena.free, hcell]
      exact Function.update_self ..

/-- A pointer to no allocated block, as that of one that was freed or has moved. -/
theorem touch_of_not_mem [Inhabited α] (h : Holds m live) (hnot : a ∉ live.map Prod.fst) :
    (m.touch a).wild = true := by
  rw [Arena.touch, Arena.read, h.isNone_iff.mpr hnot]

end Holds

end Blocks
