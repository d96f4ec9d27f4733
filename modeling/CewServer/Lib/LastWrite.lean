import Mathlib.Data.List.Induction

/-!
# The last write wins

A state with slots that are read one by one, and writes that each set some of them. `get_put` says
what one write does: it sets the slots it hits to values of its own and leaves the others. Over a list
of writes, a slot then holds the value of the last write that hits it, whatever the other writes are
and in whatever order they stand between.
-/

structure LastWrite (State Slot Value Write : Type) where
  get : Slot → State → Value
  put : State → Write → State
  hits : Slot → Write → Bool
  value : Slot → Write → Value
  get_put : ∀ slot state write,
    get slot (put state write) = if hits slot write then value slot write else get slot state

namespace LastWrite

variable {State Slot Value Write : Type} (w : LastWrite State Slot Value Write)

def putAll (state : State) (writes : List Write) : State := writes.foldl w.put state

def last (slot : Slot) (writes : List Write) : Option Write := (writes.filter (w.hits slot)).getLast?

theorem putAll_append (state : State) (before after : List Write) :
    w.putAll state (before ++ after) = w.putAll (w.putAll state before) after := List.foldl_append

/-- A slot holds the value of the last write that hits it, or what it held before. -/
theorem get_putAll (slot : Slot) (state : State) (writes : List Write) :
    w.get slot (w.putAll state writes)
      = match w.last slot writes with
        | some write => w.value slot write
        | none => w.get slot state := by
  induction writes using List.reverseRecOn with
  | nil => rfl
  | append_singleton writes write ih =>
      rw [putAll_append]
      show w.get slot (w.put (w.putAll state writes) write) = _
      rw [w.get_put, last, List.filter_append, List.filter_cons, List.filter_nil]
      cases w.hits slot write with
      | true => simp only [if_true, List.getLast?_append, List.getLast?_singleton, Option.some_or]
      | false =>
          simp only [Bool.false_eq_true, if_false, List.append_nil]
          exact ih

/-- Two writes of which no slot is hit by both can change places. -/
theorem get_putAll_swap {a b : Write} (hapart : ∀ slot, w.hits slot a = true → w.hits slot b = false)
    (slot : Slot) (state : State) (before after : List Write) :
    w.get slot (w.putAll state (before ++ a :: b :: after))
      = w.get slot (w.putAll state (before ++ b :: a :: after)) := by
  have hsame : w.last slot (before ++ a :: b :: after) = w.last slot (before ++ b :: a :: after) := by
    simp only [last, List.filter_append, List.filter_cons]
    cases ha : w.hits slot a with
    | true => simp only [hapart slot ha, Bool.false_eq_true, if_false]
    | false => simp only [Bool.false_eq_true, if_false]
  rw [get_putAll, get_putAll, hsame]

/-- Only what the writes hit and the values they bring matter. -/
theorem get_putAll_congr {Name : Type} (name : Write → Name)
    (hhits : ∀ slot a b, name a = name b → w.hits slot a = w.hits slot b)
    (hvalue : ∀ slot a b, name a = name b → w.value slot a = w.value slot b)
    {writes others : List Write} (hnames : writes.map name = others.map name) (slot : Slot)
    (state : State) :
    w.get slot (w.putAll state writes) = w.get slot (w.putAll state others) := by
  induction writes using List.reverseRecOn generalizing others with
  | nil =>
      obtain rfl : others = [] := List.map_eq_nil_iff.mp hnames.symm
      rfl
  | append_singleton writes a ih =>
      rw [List.map_append, List.map_singleton] at hnames
      obtain ⟨others, rest, rfl, hothers, hrest⟩ := List.map_eq_append_iff.mp hnames.symm
      obtain ⟨b, rfl, hb⟩ := List.map_eq_singleton_iff.mp hrest
      rw [putAll_append, putAll_append]
      show w.get slot (w.put (w.putAll state writes) a) = w.get slot (w.put (w.putAll state others) b)
      rw [w.get_put, w.get_put, hhits slot a b hb.symm, hvalue slot a b hb.symm, ih hothers.symm]

end LastWrite
