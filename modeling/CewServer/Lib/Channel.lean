import CewServer.Lib.Transition
import Mathlib.Data.List.Basic

/-!
# First-in first-out channels with their history

What a queue between two parties is for: everything taken out was put in, in the order it was put in,
once. A `Channel` keeps both histories beside the content, and carries the conservation law as a
field, so a state of a channel that has lost, repeated or reordered an element cannot be written down.
An implementation is compared with it by a simulation: each of its steps is a `send`, a `deliver` or
no step of the channel at all.
-/

/-- Looking into a list that has grown by one element at its end. -/
theorem List.getElem?_concat_cases {α : Type} {l : List α} {a b : α} {k : Nat}
    (h : (l ++ [a])[k]? = some b) : l[k]? = some b ∨ k = l.length ∧ b = a := by
  rcases Nat.lt_trichotomy k l.length with hlt | rfl | hgt
  · rw [List.getElem?_append_left hlt] at h
    exact .inl h
  · rw [List.getElem?_concat_length] at h
    exact .inr ⟨rfl, (Option.some.inj h).symm⟩
  · rw [List.getElem?_eq_none] at h
    · cases h
    · rw [List.length_append, List.length_singleton]
      exact hgt

/-- A channel: what was taken out, what is inside, what was put in. -/
structure Channel (α : Type) where
  received : List α
  inFlight : List α
  sent : List α
  conserved : received ++ inFlight = sent

namespace Channel

variable {α : Type}

inductive Op (α : Type) where
  | send (a : α)
  | deliver

def empty : Channel α := ⟨[], [], [], rfl⟩

def send (c : Channel α) (a : α) : Channel α where
  received := c.received
  inFlight := c.inFlight ++ [a]
  sent := c.sent ++ [a]
  conserved := by rw [← List.append_assoc, c.conserved]

def deliver (c : Channel α) (a : α) (rest : List α) (h : c.inFlight = a :: rest) : Channel α where
  received := c.received ++ [a]
  inFlight := rest
  sent := c.sent
  conserved := by rw [List.append_assoc, List.singleton_append, ← h, c.conserved]

def step (c : Channel α) : Op α → Option (Channel α)
  | .send a => some (c.send a)
  | .deliver =>
      match h : c.inFlight with
      | [] => none
      | a :: rest => some (c.deliver a rest h)

theorem step_deliver (c : Channel α) {a : α} {rest : List α} (h : c.inFlight = a :: rest) :
    c.step .deliver = some (c.deliver a rest h) := by
  simp only [step]
  split
  · rename_i hnil
    rw [h] at hnil
    cases hnil
  · rename_i b rest' hcons
    rw [h] at hcons
    cases hcons
    rfl

def system (α : Type) : Transition.System (Channel α) (Op α) where
  Init c := c = empty
  step := step

theorem received_isPrefix_sent (c : Channel α) : c.received <+: c.sent := ⟨c.inFlight, c.conserved⟩

end Channel
