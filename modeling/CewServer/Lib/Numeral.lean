import CewServer.Lib.Bytes

/-!
# Numbers in a string

When a string is a number, and what `strtol` makes of a string whether it is one or not. A string is
split into white space, a sign, digits and what follows; it is a number when there are digits and only
white space follows them. `strtol` takes the longest split and looks no further, so it gives a number
for every string: zero where there are no digits, and the nearest `long` where there are too many.
-/

namespace Bytes

/-- A place for a number in a string. -/
structure Split (text : Bytes) where
  space : Bytes
  sign : Bytes
  digits : Bytes
  rest : Bytes
  text_eq : text = space ++ (sign ++ (digits ++ rest))
  isSpace_space : ∀ a ∈ space, isSpace a = true
  sign_mem : sign ∈ [[], [43], [45]]
  isDigit_digits : ∀ a ∈ digits, isDigit a = true

def Split.value {text : Bytes} (p : Split text) : Int :=
  if p.sign = [45] then -(number p.digits) else number p.digits

/-- The string is a base-10 integer with white space around it. -/
def Denotes (text : Bytes) (x : Int) : Prop :=
  ∃ p : Split text, p.digits ≠ [] ∧ (∀ a ∈ p.rest, isSpace a = true) ∧ p.value = x

/-- Nothing of what follows a part could be taken into it. -/
structure Split.Longest {text : Bytes} (p : Split text) : Prop where
  space : ∀ a ∈ (p.sign ++ (p.digits ++ p.rest)).head?, isSpace a = false
  sign : p.sign = [] → ∀ a ∈ (p.digits ++ p.rest).head?, a ≠ 43 ∧ a ≠ 45
  digits : ∀ a ∈ p.rest.head?, isDigit a = false

/-- The number at the beginning of a string, zero if there is none. -/
def Begins (text : Bytes) (x : Int) : Prop := ∃ p : Split text, p.Longest ∧ p.value = x

/-- The values of a 64-bit `long`. -/
def FitsLong (x : Int) : Prop := -2 ^ 63 ≤ x ∧ x < 2 ^ 63

def nearestLong (x : Int) : Int := max (-2 ^ 63) (min (2 ^ 63 - 1) x)

/-- A `long` is printed in at most a sign and nineteen digits. -/
theorem FitsLong.decimal_length_le {x : Int} (hx : FitsLong x) : (decimal x).length ≤ 20 := by
  obtain ⟨hlow, hhigh⟩ := hx
  cases x with
  | ofNat n => exact digits_length_le (by decide) (by simp only [Int.ofNat_eq_natCast] at hhigh; omega)
  | negSucc n =>
      have hdigits : (digits (n + 1)).length ≤ 19 := digits_length_le (by decide) (by omega)
      exact Nat.succ_le_succ hdigits

theorem nearestLong_of_fits {x : Int} (hx : FitsLong x) : nearestLong x = x := by
  obtain ⟨hlow, hhigh⟩ := hx
  unfold nearestLong
  omega

/-! ### What `strtol` reads -/

theorem head?_cstr {s : Bytes} {a : UInt8} (ha : a ∈ (cstr s).head?) : a ∈ s.head? := by
  cases s with
  | nil => exact ha
  | cons b s =>
      rw [cstr, List.takeWhile_cons] at ha
      split at ha
      · exact ha
      · cases ha

theorem dropWhile_of_head {p : UInt8 → Bool} {s : Bytes} (hs : ∀ a ∈ s.head?, p a = false) :
    s.dropWhile p = s := by
  cases s with
  | nil => rfl
  | cons a s => rw [List.dropWhile_cons_of_neg (Bool.eq_false_iff.mp (hs a rfl))]

theorem takeWhile_of_head {p : UInt8 → Bool} {s : Bytes} (hs : ∀ a ∈ s.head?, p a = false) :
    s.takeWhile p = [] := by
  cases s with
  | nil => rfl
  | cons a s => rw [List.takeWhile_cons_of_neg (Bool.eq_false_iff.mp (hs a rfl))]

namespace Split

variable {text : Bytes} (p : Split text)

theorem zero_not_mem : 0 ∉ p.space ++ (p.sign ++ p.digits) := by
  have hsign : ∀ sign ∈ [[], [43], [(45 : UInt8)]], 0 ∉ sign := by decide
  simp only [List.mem_append, not_or]
  refine ⟨?_, hsign p.sign p.sign_mem, ?_⟩
  · intro hzero
    exact absurd (p.isSpace_space 0 hzero) (by decide)
  · intro hzero
    exact absurd (p.isDigit_digits 0 hzero) (by decide)

/-- The digits are what is left of the string when it is read by its longest split. -/
theorem takeWhile_digits (hdigits : ∀ a ∈ p.rest.head?, isDigit a = false) :
    (p.digits ++ cstr p.rest).takeWhile isDigit = p.digits := by
  have hrest : (cstr p.rest).takeWhile isDigit = [] :=
    takeWhile_of_head fun a ha => hdigits a (head?_cstr ha)
  rw [List.takeWhile_append_of_pos p.isDigit_digits, hrest, List.append_nil]

theorem head?_append_cstr {s : Bytes} {a : UInt8} (ha : a ∈ (s ++ cstr p.rest).head?) :
    a ∈ (s ++ p.rest).head? := by
  cases s with
  | nil => exact head?_cstr ha
  | cons b s => exact ha

theorem Longest.dropWhile_cstr (hlongest : p.Longest) :
    (cstr text).dropWhile isSpace = p.sign ++ (p.digits ++ cstr p.rest) := by
  have hcstr : cstr text = p.space ++ (p.sign ++ (p.digits ++ cstr p.rest)) := by
    calc cstr text = cstr ((p.space ++ (p.sign ++ p.digits)) ++ p.rest) := by
          rw [List.append_assoc, List.append_assoc, ← p.text_eq]
      _ = (p.space ++ (p.sign ++ p.digits)) ++ cstr p.rest :=
          cstr_append p.zero_not_mem p.rest
      _ = p.space ++ (p.sign ++ (p.digits ++ cstr p.rest)) := by
          rw [List.append_assoc, List.append_assoc]
  rw [hcstr, List.dropWhile_append_of_pos p.isSpace_space]
  apply dropWhile_of_head
  intro a ha
  rw [← List.append_assoc] at ha
  apply hlongest.space a
  rw [← List.append_assoc]
  exact p.head?_append_cstr ha

end Split

theorem strtol_of_begins {text : Bytes} {x : Int} (h : Begins text x) :
    strtol text = nearestLong x := by
  obtain ⟨p, hlongest, rfl⟩ := h
  have hdigits := p.takeWhile_digits hlongest.digits
  have hsign := p.sign_mem
  simp only [List.mem_cons, List.not_mem_nil, or_false] at hsign
  rw [strtol, hlongest.dropWhile_cstr]
  rcases hsign with hnone | hplus | hminus
  · have hhead : ∀ a ∈ (p.digits ++ cstr p.rest).head?, a ≠ 43 ∧ a ≠ 45 := fun a ha =>
      hlongest.sign hnone a (p.head?_append_cstr ha)
    rw [hnone, List.nil_append]
    split
    · rename_i rest heq
      exact absurd rfl (hhead 45 (by rw [heq]; rfl)).2
    · rename_i rest heq
      exact absurd rfl (hhead 43 (by rw [heq]; rfl)).1
    · rw [hdigits, Split.value, hnone, if_neg (by decide), nearestLong]
      omega
  · rw [hplus, Split.value, hplus, if_neg (by decide), nearestLong]
    simp only [List.cons_append, List.nil_append, hdigits]
    omega
  · rw [hminus, Split.value, hminus, if_pos rfl, nearestLong]
    simp only [List.cons_append, List.nil_append, hdigits]
    omega

theorem head?_dropWhile {p : UInt8 → Bool} {s : Bytes} {a : UInt8}
    (ha : a ∈ (s.dropWhile p).head?) : p a = false := by
  have hnot := List.head?_dropWhile_not p s
  rw [Option.mem_def.mp ha] at hnot
  exact hnot

/-- A sign is taken from the beginning of a string if there is one. -/
theorem exists_sign (s : Bytes) : ∃ sign tail, s = sign ++ tail ∧ sign ∈ [[], [43], [45]] ∧
    (sign = [] → ∀ a ∈ tail.head?, a ≠ 43 ∧ a ≠ 45) := by
  by_cases hsign : ∃ a tail, s = a :: tail ∧ (a = 43 ∨ a = 45)
  · obtain ⟨a, tail, rfl, ha⟩ := hsign
    refine ⟨[a], tail, rfl, ?_, fun hnil => absurd hnil (List.cons_ne_nil a [])⟩
    rcases ha with rfl | rfl <;> decide
  · refine ⟨[], s, rfl, List.mem_cons_self, ?_⟩
    intro _ a ha
    obtain ⟨tail, rfl⟩ := List.head?_eq_some_iff.mp ha
    exact ⟨fun hplus => hsign ⟨a, tail, rfl, .inl hplus⟩, fun hminus => hsign ⟨a, tail, rfl, .inr hminus⟩⟩

/-- Every string has a longest split, so `strtol` gives a number for each. -/
theorem exists_begins (text : Bytes) : ∃ x, Begins text x := by
  obtain ⟨sign, tail, hword, hsign, hlongest⟩ := exists_sign (text.dropWhile isSpace)
  let p : Split text := {
    space := text.takeWhile isSpace
    sign := sign
    digits := tail.takeWhile isDigit
    rest := tail.dropWhile isDigit
    text_eq := by
      rw [List.takeWhile_append_dropWhile, ← hword, List.takeWhile_append_dropWhile]
    isSpace_space := fun a ha => List.mem_takeWhile_imp ha
    sign_mem := hsign
    isDigit_digits := fun a ha => List.mem_takeWhile_imp ha }
  have htail : p.digits ++ p.rest = tail := List.takeWhile_append_dropWhile
  refine ⟨p.value, p, ⟨?_, ?_, ?_⟩, rfl⟩
  · intro a ha
    rw [htail] at ha
    exact head?_dropWhile (hword ▸ ha)
  · intro hnone a ha
    rw [htail] at ha
    exact hlongest hnone a ha
  · intro a ha
    exact head?_dropWhile ha

theorem not_space_of_isDigit {a : UInt8} (ha : isDigit a = true) :
    isSpace a = false ∧ a ≠ 43 ∧ a ≠ 45 := by
  simp only [isDigit, isSpace, Bool.and_eq_true, decide_eq_true_eq, UInt8.le_iff_toNat_le,
    Bool.or_eq_false_iff, Bool.and_eq_false_iff, decide_eq_false_iff_not, beq_eq_false_iff_ne, ne_eq,
    ← UInt8.toNat_inj, UInt8.reduceToNat] at ha ⊢
  omega

/-- A split with digits and nothing but white space behind them is the longest. -/
theorem Denotes.begins {text : Bytes} {x : Int} (h : Denotes text x) : Begins text x := by
  obtain ⟨p, hdigits, hrest, hvalue⟩ := h
  obtain ⟨digit, digits, hcons⟩ := List.exists_cons_of_ne_nil hdigits
  have hfirst : digit ∈ p.digits := by
    rw [hcons]
    exact List.mem_cons_self
  have hdigit := not_space_of_isDigit (p.isDigit_digits digit hfirst)
  refine ⟨p, ⟨?_, ?_, ?_⟩, hvalue⟩
  · intro a ha
    have hsign := p.sign_mem
    simp only [List.mem_cons, List.not_mem_nil, or_false] at hsign
    rcases hsign with hsign | hsign | hsign <;>
      rw [hsign] at ha <;>
      simp only [List.nil_append, List.cons_append, hcons, List.head?_cons, Option.mem_def,
        Option.some.injEq] at ha <;>
      subst ha
    · exact hdigit.1
    · decide
    · decide
  · intro _ a ha
    rw [hcons] at ha
    obtain rfl : digit = a := Option.some.inj ha
    exact hdigit.2
  · intro a ha
    apply Bool.eq_false_iff.mpr
    intro hdigit
    have hspace := hrest a (List.mem_of_mem_head? ha)
    rw [(not_space_of_isDigit hdigit).1] at hspace
    cases hspace

/-- A number that fits is read as it stands. -/
theorem strtol_of_denotes {text : Bytes} {x : Int} (h : Denotes text x) (hx : FitsLong x) :
    strtol text = x := by
  rw [strtol_of_begins h.begins, nearestLong_of_fits hx]

theorem not_denotes_of_no_digit {text : Bytes} (hnone : ∀ a ∈ text, isDigit a = false) (x : Int) :
    ¬ Denotes text x := by
  rintro ⟨p, hdigits, -, -⟩
  obtain ⟨digit, hdigit⟩ := List.exists_mem_of_ne_nil p.digits hdigits
  have hmem : digit ∈ text := by
    rw [p.text_eq]
    simp only [List.mem_append, hdigit, true_or, or_true]
  exact Bool.eq_false_iff.mp (hnone digit hmem) (p.isDigit_digits digit hdigit)

/-- Text that does not go on like a number begins with none. -/
theorem begins_zero {a : UInt8} {rest : Bytes} (hspace : isSpace a = false) (hsign : a ≠ 43 ∧ a ≠ 45)
    (hdigit : isDigit a = false) : Begins (a :: rest) 0 := by
  have hhead : ∀ b ∈ (a :: rest).head?, b = a := fun b hb => (Option.some.inj hb).symm
  refine ⟨⟨[], [], [], a :: rest, rfl, List.forall_mem_nil _, List.mem_cons_self,
    List.forall_mem_nil _⟩, ⟨?_, ?_, ?_⟩, rfl⟩
  · intro b hb
    rw [hhead b hb]
    exact hspace
  · intro _ b hb
    rw [hhead b hb]
    exact hsign
  · intro b hb
    rw [hhead b hb]
    exact hdigit

/-! ### Printed numbers are numbers -/

theorem isDigit_of_mem_digits {n : Nat} {a : UInt8} (ha : a ∈ digits n) : isDigit a = true := by
  obtain ⟨hlow, hhigh⟩ := mem_digits ha
  simp only [isDigit, Bool.and_eq_true, decide_eq_true_eq, UInt8.le_iff_toNat_le]
  exact ⟨hlow, hhigh⟩

theorem digits_ne_nil (n : Nat) : digits n ≠ [] := by
  intro hnil
  exact Nat.toDigits_ne_nil (List.map_eq_nil_iff.mp hnil)

theorem denotes_decimal (x : Int) : Denotes (decimal x) x := by
  cases x with
  | ofNat n =>
      refine ⟨⟨[], [], digits n, [], ?_, ?_, ?_, fun a ha => isDigit_of_mem_digits ha⟩,
        digits_ne_nil n, ?_, ?_⟩
      · simp [decimal]
      · simp
      · decide
      · simp
      · simp [Split.value, number_digits]
  | negSucc n =>
      refine ⟨⟨[], [45], digits (n + 1), [], ?_, ?_, ?_, fun a ha => isDigit_of_mem_digits ha⟩,
        digits_ne_nil (n + 1), ?_, ?_⟩
      · simp [decimal]
      · simp
      · decide
      · simp
      · simp [Split.value, number_digits]
        omega

end Bytes
