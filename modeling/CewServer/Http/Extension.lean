import CewServer.Http.Published

/-!
# Which names have a type

The loop of `http_determine_mime` goes from dot to dot over the whole path, directories included, and
compares what follows the last one. No extension holds a dot or a slash, so this is the same as to
ask how the last component of the path ends.
-/

namespace CewServer.Http

/-- The loop of `http_determine_mime` given so many tests of its condition: `none` if it still runs. -/
def searchRounds : Nat → Bytes → Option Bytes → Option (Option Bytes)
  | 0, _, _ => none
  | rounds + 1, cSearch, cExt =>
      match Bytes.strstr (Bytes.ascii ".") cSearch with
      | none => some cExt
      | some found => searchRounds rounds found.tail (some found)

/-- Every round leaves less to search, so the loop ends. -/
theorem searchRounds_eq {rounds : Nat} {cSearch : Bytes} (hrounds : cSearch.length < rounds)
    (cExt : Option Bytes) : searchRounds rounds cSearch cExt = some (searchExt cSearch cExt) := by
  induction rounds generalizing cSearch cExt with
  | zero => exact absurd hrounds (Nat.not_lt_zero _)
  | succ rounds ih =>
      rw [searchRounds]
      cases hfound : Bytes.strstr (Bytes.ascii ".") cSearch with
      | none => rw [searchExt_of_none cExt hfound]
      | some found =>
          have hshorter := strstr_length (by decide) hfound
          rw [searchExt_of_found cExt hfound]
          exact ih (by omega) (some found)

theorem lastDot_suffix {s found : Bytes} (h : lastDot s = some found) :
    found <:+ s ∧ found = 46 :: found.tail := by
  induction s with
  | nil => cases h
  | cons a s ih =>
      rw [lastDot] at h
      cases hrest : lastDot s with
      | some rest =>
          rw [hrest, Option.some_or] at h
          obtain ⟨hsuffix, hdot⟩ := ih (hrest.trans h)
          exact ⟨hsuffix.trans (List.suffix_cons a s), hdot⟩
      | none =>
          rw [hrest, Option.none_or] at h
          by_cases ha : a = 46
          · rw [if_pos ha] at h
            cases h
            exact ⟨List.suffix_refl _, by rw [List.tail_cons, ha]⟩
          · rw [if_neg ha] at h
            cases h

theorem mem_extensions_of_mime {name : Bytes} (h : (mimeOfExt name).isSome = true) :
    46 :: name ∈ extensions := by
  have hnames : ∀ name ∈ [Bytes.ascii "html", Bytes.ascii "txt", Bytes.ascii "css", Bytes.ascii "jpg",
      Bytes.ascii "png"], 46 :: name ∈ extensions := by decide
  apply hnames
  by_contra hnone
  simp only [List.mem_cons, List.not_mem_nil, or_false, not_or] at hnone
  obtain ⟨hhtml, htxt, hcss, hjpg, hpng⟩ := hnone
  rw [mimeOfExt, if_neg hhtml, if_neg htxt, if_neg hcss, if_neg hjpg, if_neg hpng] at h
  cases h

theorem mimeOfName_isSome_iff (f : Bytes) :
    (mimeOfName f).isSome = true ↔ ∃ ext ∈ extensions, ext <:+ f := by
  constructor
  · intro hsome
    cases hdot : lastDot f with
    | none =>
        rw [mimeOfName, hdot] at hsome
        cases hsome
    | some found =>
        rw [mimeOfName, hdot, Option.bind_some] at hsome
        obtain ⟨hsuffix, hfound⟩ := lastDot_suffix hdot
        refine ⟨found, ?_, hsuffix⟩
        rw [hfound]
        exact mem_extensions_of_mime hsome
  · rintro ⟨ext, hext, s, rfl⟩
    obtain ⟨name, rfl, hname, hmime⟩ := mime_of_extension ext hext
    rw [mimeOfName, lastDot_append hname]
    exact hmime

theorem httpDetermineMime_isSome {f : Bytes} (hf : 0 ∉ f) (sMime : Bytes) :
    (httpDetermineMime f sMime).isSome = (mimeOfName f).isSome := by
  rw [httpDetermineMime, Bytes.cstr_eq_self hf, searchExt_eq, Option.or_none, mimeOfName]
  cases lastDot f with
  | none => rfl
  | some found => simp only [Option.isSome_map, Option.bind_some]

/-- The loop ends, and the type is found exactly for the names that end with an extension, which is
to say, whose last component does. -/
theorem httpDetermineMime_success_iff {f : Bytes} (hf : 0 ∉ f) (sMime : Bytes) :
    searchRounds (f.length + 1) f none = some (searchExt (Bytes.cstr f) none) ∧
    ((httpDetermineMime f sMime).isSome = true ↔ ∃ ext ∈ extensions, ext <:+ f) ∧
    ((httpDetermineMime f sMime).isSome = true
      ↔ ∃ ext ∈ extensions, ext <:+ Path.lastComponent 47 f) := by
  have hslash : ∀ ext ∈ extensions, 47 ∉ ext := by decide
  have hlast : (∃ ext ∈ extensions, ext <:+ Path.lastComponent 47 f)
      ↔ ∃ ext ∈ extensions, ext <:+ f :=
    exists_congr fun ext => and_congr_right fun hext => Path.suffix_lastComponent_iff (hslash ext hext) f
  rw [hlast, httpDetermineMime_isSome hf, mimeOfName_isSome_iff, Bytes.cstr_eq_self hf]
  exact ⟨searchRounds_eq (Nat.lt_succ_self _) none, Iff.rfl, Iff.rfl⟩

theorem httpDetermineMime_license :
    (httpDetermineMime licensePath []).isSome = true :=
  (httpDetermineMime_success_iff (f := licensePath) (by decide) []).2.1.mpr
    ⟨Bytes.ascii ".txt", by decide, by decide⟩

end CewServer.Http
