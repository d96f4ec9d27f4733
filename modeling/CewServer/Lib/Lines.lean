import CewServer.Lib.Bytes

/-!
# Text in lines

Texts that each end in a separator can be told apart exactly if none of them holds it. With CRLF as
the separator a `Line` is a text that is not empty and holds neither a carriage return nor a line
feed, so where lines are written one after the other each CRLF ends one of them. A block of lines is
closed by an empty line, and the four bytes CRLF CRLF that show it occur in no part of the block that
stops before its last byte.
-/

/-! ### Pieces between separators -/

theorem List.not_mem_of_mem_splitOn {α : Type} [DecidableEq α] {sep : α} (xs : List α) :
    ∀ piece ∈ xs.splitOn sep, sep ∉ piece := by
  induction xs with
  | nil =>
      intro piece hpiece
      rw [List.splitOn_nil, List.mem_singleton] at hpiece
      rw [hpiece]
      exact List.not_mem_nil
  | cons x xs ih =>
      rw [List.splitOn_cons_eq_if_modifyHead]
      obtain ⟨first, rest, hsplit⟩ := List.exists_cons_of_ne_nil (List.splitOn_ne_nil sep xs)
      rw [hsplit] at ih ⊢
      have hfirst := ih first List.mem_cons_self
      split
      · intro piece hpiece
        rcases List.mem_cons.mp hpiece with rfl | hpiece
        · exact List.not_mem_nil
        · exact ih piece hpiece
      · rename_i hx
        intro piece hpiece
        rcases List.mem_cons.mp hpiece with rfl | hpiece
        · rw [List.mem_cons]
          rintro (rfl | hmem)
          · exact hx (beq_self_eq_true _)
          · exact hfirst hmem
        · exact ih piece (List.mem_cons_of_mem first hpiece)

/-- Lines that each end in a separator are the pieces between the separators exactly if none of them
holds one. Behind the last separator is an empty piece. -/
theorem List.splitOn_terminated_iff {α : Type} [DecidableEq α] {sep : α} (lines : List (List α)) :
    (lines.flatMap (· ++ [sep])).splitOn sep = lines ++ [[]] ↔ ∀ line ∈ lines, sep ∉ line := by
  constructor
  · intro hsplit line hline
    apply List.not_mem_of_mem_splitOn (lines.flatMap (· ++ [sep]))
    rw [hsplit]
    exact List.mem_append_left _ hline
  · intro hlines
    induction lines with
    | nil => exact List.splitOn_nil sep
    | cons line lines ih =>
        rw [List.flatMap_cons, List.append_assoc, List.singleton_append,
          List.splitOn_append_cons_self_of_not_mem (hlines line List.mem_cons_self),
          ih fun other hother => hlines other (List.mem_cons_of_mem line hother), List.cons_append]

/-! ### Lines that end in CRLF -/

structure Line where
  text : Bytes
  nonempty : text ≠ []
  plain : ∀ a ∈ text, a ≠ 13 ∧ a ≠ 10

namespace Line

def crlf : Bytes := [13, 10]

def block (lines : List Line) : Bytes := lines.flatMap fun line => line.text ++ crlf

/-- The end of a line and an empty line. -/
def blank : Bytes := [13, 10, 13, 10]

theorem block_cons (line : Line) (lines : List Line) :
    block (line :: lines) = line.text ++ crlf ++ block lines := List.flatMap_cons

/-- A block of at least one line and the empty line that closes it contain the blank. -/
theorem blank_infix_closed (line : Line) (lines : List Line) :
    blank <:+: block (line :: lines) ++ crlf := by
  induction lines generalizing line with
  | nil => exact ⟨line.text, [], by simp only [block, List.flatMap_cons, List.flatMap_nil,
      List.append_nil, List.append_assoc]; rfl⟩
  | cons next lines ih =>
      rw [block_cons, List.append_assoc]
      exact (ih next).trans (List.suffix_append _ _).isInfix

theorem blank_infix_append {s : Bytes} (hs : 13 ∉ s) (rest : Bytes) :
    blank <:+: s ++ rest ↔ blank <:+: rest := by
  induction s with
  | nil => rw [List.nil_append]
  | cons a s ih =>
      have ha : ¬ blank <+: a :: (s ++ rest) := by
        rw [blank, List.cons_prefix_cons]
        exact fun h => hs (h.1 ▸ List.mem_cons_self)
      rw [List.cons_append, List.infix_cons_iff, ih fun h => hs (List.mem_cons_of_mem a h)]
      exact or_iff_right ha

/-- The first line of a block does not begin with a carriage return. -/
theorem not_crlf_prefix_block (lines : List Line) : ¬ crlf <+: block lines ++ [13] := by
  cases lines with
  | nil => decide
  | cons line lines =>
      rw [block_cons]
      obtain ⟨text, hne, hplain⟩ := line
      cases text with
      | nil => exact absurd rfl hne
      | cons a text =>
          simp only [List.cons_append, crlf, List.cons_prefix_cons]
          exact fun h => (hplain a List.mem_cons_self).1 h.1.symm

/-- Up to the last byte of the empty line no blank is seen. -/
theorem not_blank_infix_block (lines : List Line) : ¬ blank <:+: block lines ++ [13] := by
  induction lines with
  | nil => decide
  | cons line lines ih =>
      have hplain : 13 ∉ line.text := fun h => (line.plain 13 h).1 rfl
      have hsplit : block (line :: lines) ++ [13]
          = line.text ++ 13 :: 10 :: (block lines ++ [13]) := by
        rw [block_cons, List.append_assoc, List.append_assoc]
        rfl
      rw [hsplit, blank_infix_append hplain, List.infix_cons_iff, List.infix_cons_iff]
      rintro (hhere | hnext | hlater)
      · simp only [blank, List.cons_prefix_cons, true_and] at hhere
        exact not_crlf_prefix_block lines hhere
      · simp only [blank, List.cons_prefix_cons] at hnext
        exact absurd hnext.1 (by decide)
      · exact ih hlater

/-- A part of a closed block that stops before its end shows no blank. -/
theorem not_blank_infix_take (lines : List Line) {n : Nat} (hn : n < (block lines ++ crlf).length) :
    ¬ blank <:+: (block lines ++ crlf).take n := by
  intro hblank
  apply not_blank_infix_block lines
  have hlast : (block lines ++ crlf).dropLast = block lines ++ [13] := by
    rw [List.dropLast_append_of_ne_nil (by decide)]
    rfl
  rw [← hlast, List.dropLast_eq_take]
  refine hblank.trans (List.IsPrefix.isInfix ?_)
  exact List.take_prefix_take_left (by omega)

/-! ### Reading a block back -/

/-- The part of a text before its first blank, and the part behind. -/
def splitBlank : Bytes → Option (Bytes × Bytes)
  | [] => none
  | a :: s =>
      if blank <+: a :: s then some ([], (a :: s).drop 4)
      else (splitBlank s).map fun parts => (a :: parts.1, parts.2)

/-- The pieces of a text between its CRLFs. -/
def split : Bytes → List Bytes
  | 13 :: 10 :: s => [] :: split s
  | [] => [[]]
  | a :: s =>
      match split s with
      | [] => [[a]]
      | piece :: pieces => (a :: piece) :: pieces

/-- The lines of a block with nothing behind the last. -/
def joined (line : Line) (lines : List Line) : Bytes :=
  line.text ++ lines.flatMap fun line => crlf ++ line.text

theorem block_eq_joined (line : Line) (lines : List Line) :
    block (line :: lines) = joined line lines ++ crlf := by
  induction lines generalizing line with
  | nil => simp only [block, joined, List.flatMap_cons, List.flatMap_nil, List.append_nil]
  | cons next lines ih =>
      rw [block_cons, ih next]
      simp only [joined, List.flatMap_cons, List.append_assoc]

/-- A blank is found where it first stands. -/
theorem splitBlank_append {s : Bytes} (hs : ¬ blank <:+: s ++ [13, 10, 13]) (rest : Bytes) :
    splitBlank (s ++ blank ++ rest) = some (s, rest) := by
  induction s with
  | nil => rfl
  | cons a s ih =>
      have hhere : ¬ blank <+: a :: (s ++ blank ++ rest) := by
        intro hprefix
        apply hs
        -- the first four bytes are those of what stands before the last byte of the blank
        have hpart : a :: s ++ [13, 10, 13] <+: a :: (s ++ blank ++ rest) := ⟨10 :: rest, by
          simp only [blank, List.cons_append, List.append_assoc, List.nil_append]⟩
        exact (List.prefix_of_prefix_length_le hprefix hpart (by simp [blank])).isInfix
      rw [List.cons_append, List.cons_append, splitBlank, if_neg hhere, ih]
      · rfl
      · intro hlater
        exact hs (hlater.trans (List.suffix_cons a _).isInfix)

theorem splitBlank_closed (line : Line) (lines : List Line) (body : Bytes) :
    splitBlank (block (line :: lines) ++ crlf ++ body) = some (joined line lines, body) := by
  have hearly : ¬ blank <:+: joined line lines ++ [13, 10, 13] := by
    have hblock := not_blank_infix_block (line :: lines)
    rw [block_eq_joined, List.append_assoc] at hblock
    exact hblock
  have hblank : block (line :: lines) ++ crlf = joined line lines ++ blank := by
    rw [block_eq_joined, List.append_assoc]
    rfl
  rw [hblank]
  exact splitBlank_append hearly body

theorem split_cons {a : UInt8} (ha : a ≠ 13) (s : Bytes) :
    split (a :: s) = match split s with
      | [] => [[a]]
      | piece :: pieces => (a :: piece) :: pieces := by
  rw [split]
  intro s' h
  exact absurd h ha

theorem split_plain {s : Bytes} (hs : 13 ∉ s) : split s = [s] := by
  induction s with
  | nil => rfl
  | cons a s ih =>
      obtain ⟨ha, hs⟩ := not_or.mp (mt List.mem_cons.mpr hs)
      rw [split_cons (Ne.symm ha), ih hs]

theorem split_append_crlf {s : Bytes} (hs : 13 ∉ s) (rest : Bytes) :
    split (s ++ crlf ++ rest) = s :: split rest := by
  induction s with
  | nil => rfl
  | cons a s ih =>
      obtain ⟨ha, hs⟩ := not_or.mp (mt List.mem_cons.mpr hs)
      rw [List.cons_append, List.cons_append, split_cons (Ne.symm ha), ih hs]

theorem cr_not_mem (line : Line) : 13 ∉ line.text := fun h => (line.plain 13 h).1 rfl

/-- The pieces of a block are its lines. -/
theorem split_joined (line : Line) (lines : List Line) :
    split (joined line lines) = line.text :: lines.map Line.text := by
  induction lines generalizing line with
  | nil =>
      rw [joined, List.flatMap_nil, List.append_nil, split_plain line.cr_not_mem]
      rfl
  | cons next lines ih =>
      have hrest : joined line (next :: lines) = line.text ++ crlf ++ joined next lines := by
        simp only [joined, List.flatMap_cons, List.append_assoc]
      rw [hrest, split_append_crlf line.cr_not_mem, ih next]
      rfl

end Line
