import Mathlib.Algebra.Group.Int.Defs
import Mathlib.Algebra.Group.Nat.Defs
import Mathlib.Data.List.Basic
import Mathlib.Data.List.TakeWhile

/-!
# Bytes, C strings and machine integers

What the C library and the C types compute on the data a program passes around. A string function
sees the bytes at an address up to the first NUL; the program never calls `setlocale`, so character
functions are those of the C locale, where a character is a byte and only the ASCII letters have
case. A 32-bit signed counter wraps.
-/

abbrev Bytes := List UInt8

namespace Bytes

def ascii (s : String) : Bytes := s.toList.map fun c => UInt8.ofNat c.toNat

/-- The string a C function reads at the start of a piece of memory. -/
def cstr (memory : Bytes) : Bytes := memory.takeWhile (· ≠ 0)

def toLower (a : UInt8) : UInt8 := if 65 ≤ a ∧ a ≤ 90 then a + 32 else a

/-- `strstr`: the string from the first occurrence of the needle on. -/
def strstr (needle : Bytes) : Bytes → Option Bytes
  | [] => if needle = [] then some [] else none
  | a :: haystack =>
      if needle <+: a :: haystack then some (a :: haystack) else strstr needle haystack

/-- The digits `%d` and `%ld` print for a number that is not negative. -/
def digits (n : Nat) : Bytes := (Nat.toDigits 10 n).map fun c => UInt8.ofNat c.toNat

def decimal : Int → Bytes
  | .ofNat n => digits n
  | .negSucc n => 45 :: digits (n + 1)

/-- The number a row of decimal digits stands for. -/
def number (s : Bytes) : Nat := s.foldl (fun sofar a => 10 * sofar + (a.toNat - 48)) 0

def isDigit (a : UInt8) : Bool := 48 ≤ a && a ≤ 57

/-- `isspace` of the C locale. -/
def isSpace (a : UInt8) : Bool := a == 32 || (9 ≤ a && a ≤ 13)

/-- `strtol` in base 10 with 64-bit `long`: white space, a sign, and the digits that follow. Without a
digit the result is zero, and a number that does not fit gives the nearest one that does. -/
def strtol (memory : Bytes) : Int :=
  match (cstr memory).dropWhile isSpace with
  | 45 :: rest => max (-2 ^ 63) (-(number (rest.takeWhile isDigit)))
  | 43 :: rest => min (2 ^ 63 - 1) (number (rest.takeWhile isDigit))
  | rest => min (2 ^ 63 - 1) (number (rest.takeWhile isDigit))

/-- `strncmp(s, t, n) == 0`. -/
def strncmpEq (s t : Bytes) (n : Nat) : Bool := (cstr s).take n = (cstr t).take n

/-- `for (i = 0; s[i]; i++) s[i] = tolower(s[i]);` on a string that carries its length. -/
def lowerString (s : Bytes) : Bytes := (cstr s).map toLower ++ s.drop (cstr s).length

/-- A check of every byte of a literal, by evaluation. -/
theorem forall_of_all {p : UInt8 → Prop} [DecidablePred p] {s : Bytes}
    (h : s.all (fun a => decide (p a)) = true) : ∀ a ∈ s, p a :=
  fun a ha => of_decide_eq_true (List.all_eq_true.mp h a ha)

/-- A character below the lower-case letters is in lower case only as itself. -/
theorem eq_of_toLower_eq {a b : UInt8} (hb : b.toNat < 97) (h : toLower a = b) : a = b := by
  unfold toLower at h
  split at h
  · rename_i hletter
    have hlow := UInt8.le_iff_toNat_le.mp hletter.1
    have hhigh := UInt8.le_iff_toNat_le.mp hletter.2
    have hsum := congrArg UInt8.toNat h
    simp only [UInt8.toNat_add, UInt8.reduceToNat] at hlow hhigh hsum
    omega
  · exact h

/-! ### C strings in memory -/

theorem cstr_isPrefix (memory : Bytes) : cstr memory <+: memory := List.takeWhile_prefix _

theorem ne_zero_of_mem_cstr {memory : Bytes} {a : UInt8} (ha : a ∈ cstr memory) : a ≠ 0 := by
  simpa using List.mem_takeWhile_imp ha

/-- A string ends at its NUL, whatever lies behind. -/
theorem cstr_append_zero (s beyond : Bytes) : cstr (s ++ 0 :: beyond) = cstr s := by
  induction s with
  | nil => rfl
  | cons a s ih =>
      simp only [cstr] at ih
      simp only [cstr, List.cons_append, List.takeWhile_cons, ih]

theorem cstr_isPrefix_append (s more : Bytes) : cstr s <+: cstr (s ++ more) := by
  rw [cstr, cstr, List.takeWhile_append]
  split
  · exact (List.takeWhile_prefix _).trans (List.prefix_append _ _)
  · exact List.prefix_refl _

theorem cstr_eq_self {s : Bytes} (hs : 0 ∉ s) : cstr s = s :=
  List.takeWhile_eq_self_iff.mpr fun _ ha => decide_eq_true fun h => hs (h ▸ ha)

theorem cstr_append {s : Bytes} (hs : 0 ∉ s) (more : Bytes) : cstr (s ++ more) = s ++ cstr more :=
  List.takeWhile_append_of_pos fun _ ha => decide_eq_true fun h => hs (h ▸ ha)

theorem strncmpEq_iff {known : Bytes} (hknown : 0 ∉ known) (s : Bytes) :
    strncmpEq known s known.length = true ↔ known <+: cstr s := by
  rw [strncmpEq, decide_eq_true_iff, cstr_eq_self hknown, List.take_length]
  exact List.prefix_iff_eq_take.symm

/-! ### Printed numbers -/

theorem toNat_ofNat_of_isDigit {c : Char} (hc : c.isDigit) :
    (UInt8.ofNat c.toNat).toNat = c.toNat := by
  obtain ⟨hlow, hhigh⟩ := Char.isDigit_iff_toNat.mp hc
  have hnine : '9'.toNat = 57 := rfl
  exact UInt8.toNat_ofNat_of_lt' (show c.toNat < 256 by omega)

/-- What is printed for a number is read as that number. -/
theorem number_digits (n : Nat) : number (digits n) = n := by
  have hdigits : ∀ c ∈ Nat.toDigits 10 n, (UInt8.ofNat c.toNat).toNat = c.toNat := fun c hc =>
    toNat_ofNat_of_isDigit (Nat.isDigit_of_mem_toDigits (by decide) (by decide) hc)
  calc number (digits n)
      = (Nat.toDigits 10 n).foldl
          (fun sofar c => 10 * sofar + ((UInt8.ofNat c.toNat).toNat - 48)) 0 := List.foldl_map
    _ = (Nat.toDigits 10 n).foldl (fun sofar c => 10 * sofar + (c.toNat - '0'.toNat)) 0 := by
        apply List.foldl_ext
        intro sofar c hc
        rw [hdigits c hc]
        rfl
    _ = n := Nat.ofDigitChars_ten_toDigits

theorem mem_digits {n : Nat} {a : UInt8} (ha : a ∈ digits n) : 48 ≤ a.toNat ∧ a.toNat ≤ 57 := by
  obtain ⟨c, hc, rfl⟩ := List.mem_map.mp ha
  have hdigit := Nat.isDigit_of_mem_toDigits (by decide) (by decide) hc
  rw [toNat_ofNat_of_isDigit hdigit]
  exact Char.isDigit_iff_toNat.mp hdigit

theorem mem_decimal {x : Int} {a : UInt8} (ha : a ∈ decimal x) :
    a = 45 ∨ 48 ≤ a.toNat ∧ a.toNat ≤ 57 := by
  cases x with
  | ofNat n => exact .inr (mem_digits ha)
  | negSucc n =>
      rcases List.mem_cons.mp ha with hsign | hdigit
      · exact .inl hsign
      · exact .inr (mem_digits hdigit)

theorem zero_not_mem_decimal (x : Int) : 0 ∉ decimal x := by
  intro hmem
  rcases mem_decimal hmem with hsign | hdigit
  · cases hsign
  · exact absurd hdigit.1 (by decide)

theorem digits_length_le {n k : Nat} (hk : 0 < k) (hn : n < 10 ^ k) : (digits n).length ≤ k := by
  rw [digits, List.length_map, Nat.length_toDigits_le_iff (by decide) hk]
  exact hn

end Bytes

/-- The value a 32-bit signed variable holds after an assignment. -/
def int32 (x : Int) : Int := (x + 2 ^ 31) % 2 ^ 32 - 2 ^ 31

theorem int32_of_mem_range {x : Int} (hlow : -2 ^ 31 ≤ x) (hhigh : x < 2 ^ 31) : int32 x = x := by
  unfold int32
  omega
