import Mathlib.Data.Finset.Card
import Mathlib.Data.Finset.Range
import Mathlib.Logic.Function.Basic

/-!
# Descriptor tables

The open descriptors of a process. A call that opens one gets the lowest number that is not in use,
and one that closes a number that is not open changes nothing.
-/

namespace Descriptors

def lowestFree (fds : Finset Nat) : Nat := ((List.range (fds.card + 1)).find? (· ∉ fds)).getD 0

/-- Of one number more than there are descriptors, one is free. -/
theorem find_free (fds : Finset Nat) :
    ∃ fd, (List.range (fds.card + 1)).find? (· ∉ fds) = some fd := by
  apply Option.isSome_iff_exists.mp
  rw [List.find?_isSome]
  by_contra hnone
  have hsub : Finset.range (fds.card + 1) ⊆ fds := by
    intro fd hfd
    by_contra hfree
    exact hnone ⟨fd, List.mem_range.mpr (Finset.mem_range.mp hfd), decide_eq_true hfree⟩
  have hcard := Finset.card_le_card hsub
  rw [Finset.card_range] at hcard
  omega

theorem lowestFree_not_mem (fds : Finset Nat) : lowestFree fds ∉ fds := by
  obtain ⟨fd, hfd⟩ := find_free fds
  have hfree : fd ∉ fds := by simpa using List.find?_some hfd
  rw [lowestFree, hfd]
  exact hfree

theorem mem_of_lt_lowestFree {fds : Finset Nat} {fd : Nat} (h : fd < lowestFree fds) : fd ∈ fds := by
  obtain ⟨free, hfree⟩ := find_free fds
  rw [lowestFree, hfree, Option.getD_some] at h
  obtain ⟨-, -, hbelow⟩ := List.find?_range_eq_some.mp hfree
  simpa using hbelow fd h

theorem lowestFree_eq_iff {fds : Finset Nat} {fd : Nat} :
    lowestFree fds = fd ↔ fd ∉ fds ∧ ∀ below < fd, below ∈ fds := by
  constructor
  · rintro rfl
    exact ⟨lowestFree_not_mem fds, fun _ => mem_of_lt_lowestFree⟩
  · rintro ⟨hfree, hbelow⟩
    apply Nat.le_antisymm
    · by_contra hlt
      exact hfree (mem_of_lt_lowestFree (Nat.lt_of_not_le hlt))
    · by_contra hlt
      exact lowestFree_not_mem fds (hbelow _ (Nat.lt_of_not_le hlt))

def opened (fds : Finset Nat) : Finset Nat := insert (lowestFree fds) fds

theorem opened_ne (fds : Finset Nat) : opened fds ≠ fds := by
  intro hsame
  have hmem : lowestFree fds ∈ opened fds := Finset.mem_insert_self _ _
  rw [hsame] at hmem
  exact lowestFree_not_mem fds hmem

theorem card_opened (fds : Finset Nat) : (opened fds).card = fds.card + 1 :=
  Finset.card_insert_of_notMem (lowestFree_not_mem fds)

/-! ### What is behind a descriptor -/

/-- The open descriptors, and what each was opened for. -/
structure Table (Kind : Type) where
  fds : Finset Nat
  kind : Nat → Kind

namespace Table

variable {Kind : Type}

/-- The descriptor a call gets that opens something of this kind. -/
def next (t : Table Kind) : Nat := lowestFree t.fds

def openNext (t : Table Kind) (k : Kind) : Table Kind where
  fds := opened t.fds
  kind := Function.update t.kind t.next k

def close (t : Table Kind) (fd : Nat) : Table Kind := { t with fds := t.fds.erase fd }

/-- `fd` is open, and is a `k`. -/
def Holds (t : Table Kind) (fd : Nat) (k : Kind) : Prop := fd ∈ t.fds ∧ t.kind fd = k

/-- While a number is in use no call gets it. -/
theorem next_ne_of_holds {t : Table Kind} {fd : Nat} {k : Kind} (h : t.Holds fd k) : t.next ≠ fd := by
  intro heq
  rw [← heq] at h
  exact lowestFree_not_mem t.fds h.1

theorem Holds.openNext {t : Table Kind} {fd : Nat} {k : Kind} (h : t.Holds fd k) (k' : Kind) :
    (t.openNext k').Holds fd k := by
  refine ⟨Finset.mem_insert_of_mem h.1, ?_⟩
  show Function.update t.kind t.next k' fd = k
  rw [Function.update_of_ne (next_ne_of_holds h).symm]
  exact h.2

theorem Holds.close {t : Table Kind} {fd : Nat} {k : Kind} (h : t.Holds fd k) {fd' : Nat}
    (hne : fd' ≠ fd) : (t.close fd').Holds fd k :=
  ⟨Finset.mem_erase.mpr ⟨hne.symm, h.1⟩, h.2⟩

end Table

end Descriptors
