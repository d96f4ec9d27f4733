import CewServer.Lib.Channel
import Mathlib.Data.Int.CardIntervalMod

/-!
# Taking turns

A list of choices that goes round `n` slots, one after the other, from wherever it starts. However long
it is, two slots have been chosen equally often or one of them once more.
-/

namespace RoundRobin

variable {n start : Nat} {choices : List Nat}

def GoesRound (n start : Nat) (choices : List Nat) : Prop :=
  ∀ k w, choices[k]? = some w → w = (start + k) % n

theorem GoesRound.nil (n start : Nat) : GoesRound n start [] := by
  intro k w hk
  cases hk

theorem GoesRound.concat (h : GoesRound n start choices) :
    GoesRound n start (choices ++ [(start + choices.length) % n]) := by
  intro k w hk
  rcases List.getElem?_concat_cases hk with hold | ⟨rfl, rfl⟩
  · exact h k w hold
  · rfl

/-- How often a slot was chosen is how many of the numbers so far are its turn. -/
theorem GoesRound.count_eq (h : GoesRound n start choices) (w : Nat) :
    choices.count w = Nat.count (fun k => (start + k) % n = w) choices.length := by
  induction choices using List.reverseRecOn with
  | nil => rfl
  | append_singleton choices last ih =>
      have hbefore : GoesRound n start choices := by
        intro k v hk
        apply h k v
        rw [List.getElem?_append_left (List.getElem?_eq_some_iff.mp hk).1]
        exact hk
      have hlast : last = (start + choices.length) % n := h _ _ List.getElem?_concat_length
      rw [List.count_append, ih hbefore, List.length_append, List.length_singleton, Nat.count_succ,
        List.count_singleton, hlast]
      simp only [beq_iff_eq]

/-- A slot's turns are one residue class. -/
theorem turn_iff (hn : 0 < n) {w : Nat} (hw : w < n) (k : Nat) :
    (start + k) % n = w ↔ k ≡ w + (n - start % n) [MOD n] := by
  have hstart : start % n < n := Nat.mod_lt _ hn
  have hback : start + (w + (n - start % n)) ≡ w [MOD n] := by
    have hsplit : start + (w + (n - start % n)) = w + n * (start / n + 1) := by
      have := Nat.div_add_mod start n
      rw [Nat.mul_add, Nat.mul_one]
      omega
    rw [hsplit]
    exact Nat.add_modulus_mul_modEq_iff.mpr rfl
  constructor
  · intro hk
    have hturn : start + k ≡ w [MOD n] := by
      rw [Nat.ModEq, hk, Nat.mod_eq_of_lt hw]
    exact Nat.ModEq.add_left_cancel' start (hturn.trans hback.symm)
  · intro hk
    have hturn : start + k ≡ w [MOD n] := (hk.add_left start).trans hback
    rw [Nat.ModEq, Nat.mod_eq_of_lt hw] at hturn
    exact hturn

theorem GoesRound.count_bounds (h : GoesRound n start choices) (hn : 0 < n) {w : Nat} (hw : w < n) :
    choices.length / n ≤ choices.count w ∧ choices.count w ≤ choices.length / n + 1 := by
  have hturns : choices.count w = choices.length / n
      + if (w + (n - start % n)) % n < choices.length % n then 1 else 0 := by
    rw [h.count_eq w, ← Nat.count_modEq_card _ hn]
    simp only [turn_iff hn hw]
  rw [hturns]
  split <;> omega

theorem GoesRound.count_le_succ (h : GoesRound n start choices) (hn : 0 < n) {v w : Nat} (hv : v < n)
    (hw : w < n) : choices.count v ≤ choices.count w + 1 := by
  have hupper := (h.count_bounds hn hv).2
  have hlower := (h.count_bounds hn hw).1
  omega

end RoundRobin
