import Mathlib.Data.List.TakeWhile

/-!
# Matching a pattern without alternatives

The patterns that are a plain sequence: the anchor `^`, one character of a class, any number of
characters of a class, and the two ends of the one group. `results` is every way a pattern can be
matched from a place of the text, and `regexec` picks among them as POSIX says: the leftmost place at
which there is one, and from there the one that reaches farthest.

A match is computed from the left, so a pattern is read off by peeling its items: a literal is tested
at the front of the rest, and a repetition whose continuation cannot start inside the run takes the
whole run.
-/

namespace Regex

variable {α : Type}

inductive Item (α : Type) where
  | bol
  | one (accepts : α → Bool)
  | many (accepts : α → Bool)
  | groupOpen
  | groupClose

/-- Where a match has got to, with the offsets of the group; `-1` is an offset not yet set. -/
structure Cursor (α : Type) where
  pos : Nat
  rest : List α
  rmSo : Int
  rmEo : Int

namespace Cursor

def start (pos : Nat) (rest : List α) : Cursor α := ⟨pos, rest, -1, -1⟩

def advance (c : Cursor α) (n : Nat) : Cursor α :=
  { c with pos := c.pos + n, rest := c.rest.drop n }

theorem advance_zero (c : Cursor α) : c.advance 0 = c := by
  simp only [advance, Nat.add_zero, List.drop_zero]

theorem advance_advance (c : Cursor α) (m n : Nat) :
    (c.advance m).advance n = c.advance (m + n) := by
  simp only [advance, Nat.add_assoc, List.drop_drop]

end Cursor

def Item.results : Item α → Cursor α → List (Cursor α)
  | .bol, c => if c.pos = 0 then [c] else []
  | .one accepts, c =>
      match c.rest with
      | [] => []
      | a :: _ => if accepts a then [c.advance 1] else []
  | .many accepts, c =>
      (List.range ((c.rest.takeWhile accepts).length + 1)).map c.advance
  | .groupOpen, c => [{ c with rmSo := c.pos }]
  | .groupClose, c => [{ c with rmEo := c.pos }]

def results : List (Item α) → Cursor α → List (Cursor α)
  | [], c => [c]
  | item :: items, c => (item.results c).flatMap (results items)

/-- The first of the matches that reach farthest. -/
def longest : List (Cursor α) → Option (Cursor α)
  | [] => none
  | c :: cs =>
      match longest cs with
      | none => some c
      | some d => if c.pos < d.pos then some d else some c

/-- Try the places of the text from one on, from the left. -/
def search (items : List (Item α)) : Nat → List α → Option (Cursor α)
  | pos, [] => longest (results items (.start pos []))
  | pos, a :: rest =>
      match longest (results items (.start pos (a :: rest))) with
      | some c => some c
      | none => search items (pos + 1) rest

def regexec (items : List (Item α)) (text : List α) : Option (Cursor α) := search items 0 text

/-- A text that has to be found character by character, up to `same`. -/
def literal (same : α → α → Bool) (word : List α) : List (Item α) :=
  word.map fun a => .one (same a)

def startsWith (same : α → α → Bool) : List α → List α → Bool
  | [], _ => true
  | _ :: _, [] => false
  | a :: word, b :: text => same a b && startsWith same word text

/-! ### Matching as a relation -/

/-- `Matches items c d`: the items can be matched one after the other from `c` to `d`. -/
inductive Matches : List (Item α) → Cursor α → Cursor α → Prop
  | nil (c : Cursor α) : Matches [] c c
  | bol {items : List (Item α)} {c d : Cursor α} (hpos : c.pos = 0) (h : Matches items c d) :
      Matches (.bol :: items) c d
  | one {accepts : α → Bool} {items : List (Item α)} {c d : Cursor α} {a : α} {text : List α}
      (hrest : c.rest = a :: text) (ha : accepts a = true) (h : Matches items (c.advance 1) d) :
      Matches (.one accepts :: items) c d
  | many {accepts : α → Bool} {items : List (Item α)} {c d : Cursor α} (n : Nat)
      (hn : n ≤ c.rest.length) (hall : ∀ a ∈ c.rest.take n, accepts a = true)
      (h : Matches items (c.advance n) d) : Matches (.many accepts :: items) c d
  | groupOpen {items : List (Item α)} {c d : Cursor α} (h : Matches items { c with rmSo := c.pos } d) :
      Matches (.groupOpen :: items) c d
  | groupClose {items : List (Item α)} {c d : Cursor α}
      (h : Matches items { c with rmEo := c.pos } d) : Matches (.groupClose :: items) c d

theorem le_takeWhile_length_iff {accepts : α → Bool} {s : List α} {n : Nat} :
    n ≤ (s.takeWhile accepts).length ↔ n ≤ s.length ∧ ∀ a ∈ s.take n, accepts a = true := by
  induction s generalizing n with
  | nil => simp
  | cons a s ih =>
      cases n with
      | zero => simp
      | succ n =>
          rw [List.takeWhile_cons]
          cases ha : accepts a with
          | false => simp [ha]
          | true =>
              simp only [if_true, List.length_cons, Nat.add_le_add_iff_right, ih, List.take_succ_cons,
                List.forall_mem_cons, ha, true_and]

/-- `results` lists the matches there are. -/
theorem mem_results_iff {items : List (Item α)} {c d : Cursor α} :
    d ∈ results items c ↔ Matches items c d := by
  induction items generalizing c with
  | nil =>
      rw [results, List.mem_singleton]
      constructor
      · rintro rfl
        exact .nil d
      · rintro ⟨⟩
        rfl
  | cons item items ih =>
      rw [results, List.mem_flatMap]
      simp only [ih]
      cases item with
      | bol =>
          simp only [Item.results]
          constructor
          · rintro ⟨e, he, h⟩
            split at he
            · obtain rfl := List.mem_singleton.mp he
              exact .bol ‹_› h
            · cases he
          · rintro (_ | ⟨hpos, h⟩)
            exact ⟨c, by rw [if_pos hpos]; exact List.mem_singleton_self c, h⟩
      | one accepts =>
          simp only [Item.results]
          constructor
          · rintro ⟨e, he, h⟩
            split at he
            · cases he
            · rename_i a text hrest
              split at he
              · obtain rfl := List.mem_singleton.mp he
                exact .one hrest ‹_› h
              · cases he
          · rintro (_ | _ | ⟨hrest, ha, h⟩)
            refine ⟨c.advance 1, ?_, h⟩
            simp only [hrest, ha, if_true, List.mem_singleton]
      | many accepts =>
          simp only [Item.results, List.mem_map, List.mem_range, Nat.lt_succ_iff,
            le_takeWhile_length_iff]
          constructor
          · rintro ⟨e, ⟨n, ⟨hn, hall⟩, rfl⟩, h⟩
            exact .many n hn hall h
          · rintro (_ | _ | _ | ⟨n, hn, hall, h⟩)
            exact ⟨c.advance n, ⟨n, ⟨hn, hall⟩, rfl⟩, h⟩
      | groupOpen =>
          simp only [Item.results, List.mem_singleton, exists_eq_left]
          exact ⟨.groupOpen, fun h => by cases h; assumption⟩
      | groupClose =>
          simp only [Item.results, List.mem_singleton, exists_eq_left]
          exact ⟨.groupClose, fun h => by cases h; assumption⟩

/-- The match POSIX asks for: none starts further to the left, and none from the same place reaches
farther. -/
def Posix (items : List (Item α)) (text : List α) (d : Cursor α) : Prop :=
  ∃ pos ≤ text.length, Matches items (.start pos (text.drop pos)) d ∧
    (∀ earlier < pos, ∀ e, ¬ Matches items (.start earlier (text.drop earlier)) e) ∧
    ∀ e, Matches items (.start pos (text.drop pos)) e → e.pos ≤ d.pos

theorem longest_eq_none_iff {cs : List (Cursor α)} : longest cs = none ↔ cs = [] := by
  cases cs with
  | nil => simp only [longest]
  | cons c cs =>
      simp only [reduceCtorEq, iff_false, longest]
      split
      · exact Option.some_ne_none c
      · split <;> exact Option.some_ne_none _

theorem longest_eq_some {cs : List (Cursor α)} {d : Cursor α} (h : longest cs = some d) :
    d ∈ cs ∧ ∀ e ∈ cs, e.pos ≤ d.pos := by
  induction cs generalizing d with
  | nil => cases h
  | cons c cs ih =>
      simp only [longest] at h
      split at h
      · rename_i hnone
        obtain rfl := Option.some.inj h
        rw [longest_eq_none_iff.mp hnone]
        simp
      · rename_i d' hlongest
        obtain ⟨hmem, hfar⟩ := ih hlongest
        split at h
        · rename_i hlt
          obtain rfl := Option.some.inj h
          exact ⟨List.mem_cons_of_mem c hmem, List.forall_mem_cons.mpr ⟨Nat.le_of_lt hlt, hfar⟩⟩
        · rename_i hge
          obtain rfl := Option.some.inj h
          refine ⟨List.mem_cons_self, List.forall_mem_cons.mpr ⟨Nat.le_refl _, fun e he => ?_⟩⟩
          exact Nat.le_trans (hfar e he) (Nat.not_lt.mp hge)

/-- From a place on, `search` finds the longest match of the first place that has one. -/
theorem search_spec (items : List (Item α)) (pos : Nat) (rest : List α) :
    (∀ d, search items pos rest = some d → ∃ n ≤ rest.length,
      longest (results items (.start (pos + n) (rest.drop n))) = some d ∧
        ∀ m < n, results items (.start (pos + m) (rest.drop m)) = []) ∧
    (search items pos rest = none →
      ∀ n ≤ rest.length, results items (.start (pos + n) (rest.drop n)) = []) := by
  induction rest generalizing pos with
  | nil =>
      simp only [search, List.length_nil, Nat.le_zero_eq, List.drop_nil]
      refine ⟨fun d hd => ⟨0, rfl, hd, fun m hm => absurd hm (Nat.not_lt_zero m)⟩, ?_⟩
      rintro hnone n rfl
      exact longest_eq_none_iff.mp hnone
  | cons a rest ih =>
      rw [search]
      split
      · rename_i c hc
        refine ⟨?_, fun h => by cases h⟩
        rintro d ⟨⟩
        exact ⟨0, Nat.zero_le _, hc, fun m hm => absurd hm (Nat.not_lt_zero m)⟩
      · rename_i hnone
        have hhere := longest_eq_none_iff.mp hnone
        have hshift : ∀ n, pos + 1 + n = pos + (n + 1) := fun n => by omega
        obtain ⟨hsome, hall⟩ := ih (pos + 1)
        refine ⟨?_, ?_⟩
        · intro d hd
          obtain ⟨n, hn, hlongest, hbefore⟩ := hsome d hd
          rw [hshift] at hlongest
          refine ⟨n + 1, Nat.succ_le_succ hn, hlongest, fun m hm => ?_⟩
          cases m with
          | zero => exact hhere
          | succ m =>
              have hearlier := hbefore m (Nat.lt_of_succ_lt_succ hm)
              rw [hshift] at hearlier
              exact hearlier
        · intro hend n hn
          cases n with
          | zero => exact hhere
          | succ n =>
              have hlater := hall hend n (Nat.le_of_succ_le_succ hn)
              rw [hshift] at hlater
              exact hlater

theorem results_eq_nil_iff {items : List (Item α)} {c : Cursor α} :
    results items c = [] ↔ ∀ d, ¬ Matches items c d := by
  simp only [List.eq_nil_iff_forall_not_mem, mem_results_iff]

/-- `regexec` gives a match as POSIX asks for it. -/
theorem regexec_posix {items : List (Item α)} {text : List α} {d : Cursor α}
    (h : regexec items text = some d) : Posix items text d := by
  obtain ⟨pos, hpos, hlongest, hbefore⟩ := (search_spec items 0 text).1 d h
  simp only [Nat.zero_add, results_eq_nil_iff] at hlongest hbefore
  obtain ⟨hmem, hfar⟩ := longest_eq_some hlongest
  exact ⟨pos, hpos, mem_results_iff.mp hmem, hbefore, fun e he => hfar e (mem_results_iff.mpr he)⟩

/-- If there is a match, `regexec` finds one. -/
theorem Posix.isSome {items : List (Item α)} {text : List α} {d : Cursor α}
    (h : Posix items text d) : (regexec items text).isSome = true := by
  obtain ⟨pos, hpos, hmatch, -, -⟩ := h
  cases hfound : regexec items text with
  | some c => rfl
  | none =>
      have hnothing := (search_spec items 0 text).2 hfound pos hpos
      rw [Nat.zero_add, results_eq_nil_iff] at hnothing
      exact absurd hmatch (hnothing d)

/-! ### Peeling items -/

theorem startsWith_append {same : α → α → Bool} {word text : List α}
    (h : startsWith same word text = true) (more : List α) :
    startsWith same word (text ++ more) = true := by
  induction word generalizing text with
  | nil => rfl
  | cons a word ih =>
      cases text with
      | nil => cases h
      | cons b text =>
          obtain ⟨hsame, hrest⟩ := Bool.and_eq_true_iff.mp h
          exact Bool.and_eq_true_iff.mpr ⟨hsame, ih hrest⟩

theorem length_le_of_startsWith {same : α → α → Bool} {word text : List α}
    (h : startsWith same word text = true) : word.length ≤ text.length := by
  induction word generalizing text with
  | nil => exact Nat.zero_le _
  | cons a word ih =>
      cases text with
      | nil => cases h
      | cons b text => exact Nat.succ_le_succ (ih (Bool.and_eq_true_iff.mp h).2)

theorem results_literal (same : α → α → Bool) (word : List α) (items : List (Item α))
    (c : Cursor α) :
    results (literal same word ++ items) c
      = if startsWith same word c.rest then results items (c.advance word.length) else [] := by
  induction word generalizing c with
  | nil => simp only [literal, List.map_nil, List.nil_append, startsWith, if_true,
      List.length_nil, Cursor.advance_zero]
  | cons a word ih =>
      have hpeel : results (literal same (a :: word) ++ items) c
          = ((Item.one (same a)).results c).flatMap (results (literal same word ++ items)) := rfl
      rw [hpeel]
      cases hrest : c.rest with
      | nil => simp only [Item.results, hrest, startsWith, List.flatMap_nil, Bool.false_eq_true,
          if_false]
      | cons b text =>
          have htail : (c.advance 1).rest = text := by simp only [Cursor.advance, hrest,
            List.drop_succ_cons, List.drop_zero]
          cases hsame : same a b with
          | false => simp only [Item.results, hrest, hsame, startsWith, Bool.false_and,
              Bool.false_eq_true, if_false, List.flatMap_nil]
          | true =>
              simp only [Item.results, hrest, hsame, if_true, List.flatMap_singleton, ih,
                Cursor.advance_advance, startsWith, Bool.true_and, htail, List.length_cons,
                Nat.add_comm]

/-- A repetition takes the whole run when what follows cannot start with an accepted character. -/
theorem results_many_of_stop {accepts : α → Bool} {items : List (Item α)}
    (hstop : ∀ (c : Cursor α) (a : α) (text : List α), c.rest = a :: text → accepts a = true →
      results items c = []) (c : Cursor α) :
    results (.many accepts :: items) c
      = results items (c.advance (c.rest.takeWhile accepts).length) := by
  have hshort : ∀ n ∈ List.range (c.rest.takeWhile accepts).length,
      results items (c.advance n) = [] := by
    intro n hn
    have hlt : n < (c.rest.takeWhile accepts).length := List.mem_range.mp hn
    have hlen : n < c.rest.length := Nat.lt_of_lt_of_le hlt (List.takeWhile_prefix accepts).length_le
    apply hstop (c.advance n) c.rest[n] (c.rest.drop (n + 1)) (List.drop_eq_getElem_cons hlen)
    have hmem : (c.rest.takeWhile accepts)[n] ∈ c.rest.takeWhile accepts := List.getElem_mem hlt
    rw [(List.takeWhile_prefix accepts).getElem hlt] at hmem
    exact List.mem_takeWhile_imp hmem
  simp only [results, Item.results, List.range_succ, List.map_append, List.flatMap_append,
    List.map_cons, List.map_nil, List.flatMap_singleton, List.flatMap_map]
  rw [List.flatMap_eq_nil_iff.mpr hshort, List.nil_append]

theorem results_bol (items : List (Item α)) (text : List α) :
    results (.bol :: items) (.start 0 text) = results items (.start 0 text) := by
  simp only [results, Item.results, Cursor.start, if_true, List.flatMap_singleton]

/-- An anchored pattern matches at the beginning of the text or not at all. -/
theorem regexec_bol (items : List (Item α)) (text : List α) :
    regexec (.bol :: items) text = longest (results items (.start 0 text)) := by
  have hlater : ∀ (rest : List α) (pos : Nat), 0 < pos → search (.bol :: items) pos rest = none := by
    intro rest
    induction rest with
    | nil =>
        intro pos hpos
        simp only [search, results, Item.results, Cursor.start, Nat.ne_of_gt hpos, if_false,
          List.flatMap_nil, longest]
    | cons a rest ih =>
        intro pos hpos
        simp only [search, results, Item.results, Cursor.start, Nat.ne_of_gt hpos, if_false,
          List.flatMap_nil, longest]
        exact ih (pos + 1) (Nat.succ_pos pos)
  cases text with
  | nil => simp only [regexec, search, results_bol]
  | cons a rest =>
      simp only [regexec, search, results_bol, hlater rest (0 + 1) Nat.one_pos]
      cases longest (results items (.start 0 (a :: rest))) <;> rfl

end Regex
