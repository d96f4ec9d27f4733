import CewServer.Lib.Bytes
import CewServer.Lib.Regex
import Mathlib.Data.List.Infix

/-!
# The request line

`http_parse_request` of `cew_http.c`. The pattern is the one handed to `regcomp`, item by item, and
the match is the one `regexec` makes in the C string at the receive buffer. `requestTarget` says what
that comes to: the bytes between `GET /` and the first space after it, provided ` HTTP/1` follows, the
letters of both in either case.
-/

namespace CewServer.Http

open Regex

def sameLetter (a b : UInt8) : Bool := Bytes.toLower a == Bytes.toLower b

def notSpace (a : UInt8) : Bool := a ≠ 32

/-- `^GET /([^ ]*) HTTP/1`, compiled with `REG_EXTENDED | REG_ICASE`. -/
def requestRegex : List (Item UInt8) :=
  .bol :: (literal sameLetter (Bytes.ascii "GET /")
    ++ .groupOpen :: .many notSpace :: .groupClose
    :: literal sameLetter (Bytes.ascii " HTTP/1"))

/-- `http_parse_request`: the file name with the requested one appended, in lower case, or `none` for
`EXIT_FAILURE`, which leaves the file name as it was. -/
def httpParseRequest (acRecvBuff sFileName : Bytes) : Option Bytes :=
  match regexec requestRegex (Bytes.cstr acRecvBuff) with
  | some groups =>
      let off := groups.rmSo.toNat
      let len := (groups.rmEo - groups.rmSo).toNat
      some ((sFileName ++ (acRecvBuff.drop off).take len).map Bytes.toLower)
  | none => none

def requestTarget (request : Bytes) : Option Bytes :=
  if startsWith sameLetter (Bytes.ascii "GET /") request then
    if startsWith sameLetter (Bytes.ascii " HTTP/1") ((request.drop 5).dropWhile notSpace) then
      some ((request.drop 5).takeWhile notSpace)
    else none
  else none

/-! ### What the pattern matches -/

theorem sameLetter_space {a : UInt8} (ha : sameLetter 32 a = true) : a = 32 := by
  have hlower : (32 : UInt8) = Bytes.toLower a := eq_of_beq ha
  exact Bytes.eq_of_toLower_eq (by decide) hlower.symm

/-- The version can only begin at a space, so the group cannot end before the first one. -/
theorem version_needs_space (c : Cursor UInt8) (a : UInt8) (text : Bytes) (hrest : c.rest = a :: text)
    (ha : notSpace a = true) :
    results (.groupClose :: literal sameLetter (Bytes.ascii " HTTP/1")) c = [] := by
  have hlit := results_literal sameLetter (Bytes.ascii " HTTP/1") [] { c with rmEo := c.pos }
  rw [List.append_nil] at hlit
  have hspace : sameLetter 32 a = false :=
    Bool.eq_false_iff.mpr fun h => of_decide_eq_true ha (sameLetter_space h)
  have hstart : startsWith sameLetter (Bytes.ascii " HTTP/1") c.rest = false := by
    rw [hrest]
    exact Bool.and_eq_false_imp.mpr fun h => absurd h (Bool.eq_false_iff.mp hspace)
  calc results (.groupClose :: literal sameLetter (Bytes.ascii " HTTP/1")) c
      = results (literal sameLetter (Bytes.ascii " HTTP/1")) { c with rmEo := c.pos } := by
        simp only [results, Item.results, List.flatMap_singleton]
    _ = [] := by rw [hlit, hstart, if_neg Bool.false_ne_true]

theorem drop_takeWhile_length (p : UInt8 → Bool) (s : Bytes) :
    s.drop (s.takeWhile p).length = s.dropWhile p := by
  calc s.drop (s.takeWhile p).length
      = (s.takeWhile p ++ s.dropWhile p).drop (s.takeWhile p).length := by
        rw [List.takeWhile_append_dropWhile]
    _ = s.dropWhile p := List.drop_left

def offsets (groups : Cursor UInt8) : Int × Int := (groups.rmSo, groups.rmEo)

/-- From the beginning of a text there is one match or none. -/
theorem results_requestRegex (text : Bytes) :
    (results requestRegex (.start 0 text)).map offsets
      = (requestTarget text).toList.map fun target => (5, 5 + (target.length : Int)) := by
  have hversion := results_literal sameLetter (Bytes.ascii " HTTP/1") []
  simp only [List.append_nil] at hversion
  have hrest : (Cursor.start 0 text).rest = text := rfl
  rw [requestRegex, results_bol, results_literal, hrest]
  by_cases hget : startsWith sameLetter (Bytes.ascii "GET /") text = true
  · have hopen : (Cursor.start 0 text).advance (Bytes.ascii "GET /").length
        = ⟨5, text.drop 5, -1, -1⟩ := rfl
    rw [if_pos hget, hopen, results, Item.results, List.flatMap_singleton,
      results_many_of_stop version_needs_space, results, Item.results, List.flatMap_singleton,
      hversion]
    simp only [Cursor.advance, drop_takeWhile_length, requestTarget, hget, if_true]
    split
    · simp only [results, List.map_cons, List.map_nil, Option.toList_some, offsets, Int.natCast_add]
      rfl
    · rfl
  · rw [if_neg hget, requestTarget, if_neg hget]
    rfl

/-- The offsets of the group in the match that is found. -/
theorem regexec_requestRegex (text : Bytes) :
    (regexec requestRegex text).map offsets
      = (requestTarget text).map fun target => (5, 5 + (target.length : Int)) := by
  have hresults := results_requestRegex text
  rw [requestRegex, results_bol] at hresults
  rw [requestRegex, regexec_bol]
  cases htarget : requestTarget text with
  | none =>
      rw [htarget, Option.toList_none, List.map_nil, List.map_eq_nil_iff] at hresults
      rw [hresults]
      rfl
  | some target =>
      rw [htarget, Option.toList_some, List.map_singleton, List.map_eq_singleton_iff] at hresults
      obtain ⟨groups, hgroups, hoffsets⟩ := hresults
      rw [hgroups]
      exact congrArg some hoffsets

theorem requestTarget_eq_some {request target : Bytes} (h : requestTarget request = some target) :
    target = (request.drop 5).takeWhile notSpace := by
  unfold requestTarget at h
  split at h
  · split at h
    · exact (Option.some.inj h).symm
    · cases h
  · cases h

/-- The target is settled once the version has been seen: what follows does not change it. -/
theorem requestTarget_append {request target : Bytes} (h : requestTarget request = some target)
    (more : Bytes) : requestTarget (request ++ more) = some target := by
  unfold requestTarget at h ⊢
  split at h
  · rename_i hget
    split at h
    · rename_i hversion
      have hdrop : (request ++ more).drop 5 = request.drop 5 ++ more :=
        List.drop_append_of_le_length (length_le_of_startsWith hget)
      have hrest : (request.drop 5).dropWhile notSpace ≠ [] := fun hnil => by
        rw [hnil] at hversion
        cases hversion
      have hdropWhile : (request.drop 5 ++ more).dropWhile notSpace
          = (request.drop 5).dropWhile notSpace ++ more := by
        rw [List.dropWhile_append, if_neg (mt List.isEmpty_iff.mp hrest)]
      have htakeWhile : (request.drop 5 ++ more).takeWhile notSpace
          = (request.drop 5).takeWhile notSpace := by
        rw [List.takeWhile_append, if_neg]
        intro hlength
        apply hrest
        rw [← drop_takeWhile_length, hlength, List.drop_length]
      rw [hdrop, hdropWhile, htakeWhile, if_pos (startsWith_append hget more),
        if_pos (startsWith_append hversion more)]
      exact h
    · cases h
  · cases h

/-- `http_parse_request` appends the target of the request and puts the whole in lower case. -/
theorem httpParseRequest_eq (acRecvBuff sFileName : Bytes) :
    httpParseRequest acRecvBuff sFileName
      = (requestTarget (Bytes.cstr acRecvBuff)).map
          fun target => (sFileName ++ target).map Bytes.toLower := by
  have hgroups := regexec_requestRegex (Bytes.cstr acRecvBuff)
  unfold httpParseRequest
  cases htarget : requestTarget (Bytes.cstr acRecvBuff) with
  | none =>
      rw [htarget, Option.map_none, Option.map_eq_none_iff] at hgroups
      rw [hgroups]
      rfl
  | some target =>
      rw [htarget, Option.map_some, Option.map_eq_some_iff] at hgroups
      obtain ⟨groups, hgroups, hoffsets⟩ := hgroups
      obtain ⟨hso, heo⟩ := Prod.mk.inj hoffsets
      -- the group lies inside the string, so the copy from the buffer is a copy from the string
      have hslice : (acRecvBuff.drop 5).take target.length = target := by
        have hinside : target <+: (Bytes.cstr acRecvBuff).drop 5 := by
          rw [requestTarget_eq_some htarget]
          exact List.takeWhile_prefix notSpace
        have hbuffer := hinside.trans ((Bytes.cstr_isPrefix acRecvBuff).drop 5)
        exact (List.prefix_iff_eq_take.mp hbuffer).symm
      have hoff : groups.rmSo.toNat = 5 := by rw [hso]; rfl
      have hlen : (groups.rmEo - groups.rmSo).toNat = target.length := by
        rw [hso, heo]
        omega
      rw [hgroups]
      simp only [hoff, hlen, hslice, Option.map_some]

/-! ### The language of request lines -/

def SameLetters (s word : Bytes) : Prop := s.map Bytes.toLower = word.map Bytes.toLower

instance (s word : Bytes) : Decidable (SameLetters s word) :=
  inferInstanceAs (Decidable (_ = _))

theorem SameLetters.length_eq {s word : Bytes} (h : SameLetters s word) : s.length = word.length := by
  simpa using congrArg List.length h

theorem startsWith_sameLetter_iff {word text : Bytes} :
    startsWith sameLetter word text = true ↔ ∃ s rest, text = s ++ rest ∧ SameLetters s word := by
  induction word generalizing text with
  | nil =>
      refine ⟨fun _ => ⟨[], text, rfl, rfl⟩, fun _ => rfl⟩
  | cons a word ih =>
      cases text with
      | nil =>
          constructor
          · intro h
            cases h
          · rintro ⟨s, rest, hnil, hsame⟩
            obtain ⟨rfl, -⟩ := List.append_eq_nil_iff.mp hnil.symm
            cases hsame
      | cons b text =>
          rw [startsWith, Bool.and_eq_true_iff, ih]
          constructor
          · rintro ⟨hletter, s, rest, rfl, hsame⟩
            refine ⟨b :: s, rest, rfl, ?_⟩
            rw [SameLetters, List.map_cons, List.map_cons, hsame, eq_of_beq hletter]
          · rintro ⟨s, rest, hsplit, hsame⟩
            cases s with
            | nil => cases hsame
            | cons c s =>
                obtain ⟨rfl, rfl⟩ := List.cons.inj hsplit
                obtain ⟨hletter, hsame⟩ := List.cons.inj hsame
                exact ⟨beq_iff_eq.mpr hletter.symm, s, rest, rfl, hsame⟩

/-- `GET /`, a target without spaces and ` HTTP/1`, the letters in either case, and anything behind. -/
def RequestLine (request target : Bytes) : Prop :=
  ∃ G V rest, request = G ++ target ++ V ++ rest ∧ SameLetters G (Bytes.ascii "GET /") ∧
    SameLetters V (Bytes.ascii " HTTP/1") ∧ 32 ∉ target

theorem RequestLine.requestTarget_eq {request target : Bytes} (h : RequestLine request target) :
    requestTarget request = some target := by
  obtain ⟨G, V, rest, rfl, hG, hV, hspace⟩ := h
  have hlength : G.length = 5 := hG.length_eq
  have hdrop : (G ++ target ++ V ++ rest).drop 5 = target ++ (V ++ rest) := by
    rw [List.append_assoc, List.append_assoc, ← hlength]
    exact List.drop_left
  have htarget : ∀ a ∈ target, notSpace a = true := fun a ha =>
    decide_eq_true fun h => hspace (h ▸ ha)
  -- the version begins with a space, so the run of other characters ends with the target
  cases V with
  | nil => cases hV
  | cons a V =>
      obtain ⟨ha, -⟩ := List.cons.inj hV
      obtain rfl : a = 32 := Bytes.eq_of_toLower_eq (by decide) ha
      have hrun : (target ++ (32 :: V ++ rest)).takeWhile notSpace = target := by
        rw [List.takeWhile_append_of_pos htarget]
        exact List.append_nil target
      have hbehind : (target ++ (32 :: V ++ rest)).dropWhile notSpace = 32 :: V ++ rest := by
        rw [List.dropWhile_append_of_pos htarget]
        rfl
      rw [requestTarget, hdrop, hrun, hbehind, if_pos, if_pos]
      · exact startsWith_sameLetter_iff.mpr ⟨32 :: V, rest, rfl, hV⟩
      · refine startsWith_sameLetter_iff.mpr ⟨G, target ++ (32 :: V ++ rest), ?_, hG⟩
        simp only [List.append_assoc]

theorem requestTarget_eq_some_iff {request target : Bytes} :
    requestTarget request = some target ↔ RequestLine request target := by
  refine ⟨fun h => ?_, RequestLine.requestTarget_eq⟩
  have htarget := requestTarget_eq_some h
  unfold requestTarget at h
  split at h
  · rename_i hget
    split at h
    · rename_i hversion
      obtain ⟨G, behind, hsplit, hG⟩ := startsWith_sameLetter_iff.mp hget
      obtain ⟨V, rest, hV, hsame⟩ := startsWith_sameLetter_iff.mp hversion
      have hlength : G.length = 5 := hG.length_eq
      have hdrop : request.drop 5 = behind := by
        rw [hsplit, ← hlength]
        exact List.drop_left
      refine ⟨G, V, rest, ?_, hG, hsame, ?_⟩
      · rw [List.append_assoc, List.append_assoc, ← hV, htarget,
          List.takeWhile_append_dropWhile, hdrop]
        exact hsplit
      · rw [htarget]
        intro hmem
        exact absurd (List.mem_takeWhile_imp hmem) (by decide)
    · cases h
  · cases h

theorem posix_requestRegex {text : Bytes} {d : Cursor UInt8} (h : Posix requestRegex text d) :
    ∃ target, requestTarget text = some target ∧ offsets d = (5, 5 + (target.length : Int)) := by
  obtain ⟨pos, -, hmatch, -, -⟩ := h
  -- the pattern is anchored, so the match is one from the beginning
  obtain rfl : pos = 0 := by
    cases hmatch with
    | bol hpos _ => exact hpos
  rw [List.drop_zero, ← mem_results_iff] at hmatch
  have hmem := List.mem_map_of_mem (f := offsets) hmatch
  rw [results_requestRegex] at hmem
  obtain ⟨target, htarget, hoffsets⟩ := List.mem_map.mp hmem
  exact ⟨target, Option.mem_toList.mp htarget, hoffsets.symm⟩

/-- What the caller finds in `sFileName` afterwards. -/
def fileNameAfter (acRecvBuff sFileName : Bytes) : Bytes :=
  (httpParseRequest acRecvBuff sFileName).getD sFileName

/-- `http_parse_request` takes exactly the request lines. The target is all there is up to the first
space, every match POSIX allows has it in the group, and the file name gets it in lower case. -/
theorem httpParseRequest_language {b : Bytes} (hb : 0 ∉ b) (beyond sFileName : Bytes) :
    ((∃ d, Posix requestRegex b d) ↔ ∃ target, RequestLine b target) ∧
    ((httpParseRequest (b ++ 0 :: beyond) sFileName).isSome = true ↔ ∃ target, RequestLine b target) ∧
    (∀ target, RequestLine b target →
      target = (b.drop 5).takeWhile notSpace ∧
      (∀ d, Posix requestRegex b d → offsets d = (5, 5 + (target.length : Int))) ∧
      httpParseRequest (b ++ 0 :: beyond) sFileName
        = some ((sFileName ++ target).map Bytes.toLower)) ∧
    ((httpParseRequest (b ++ 0 :: beyond) sFileName).isSome = false →
      fileNameAfter (b ++ 0 :: beyond) sFileName = sFileName) := by
  have hstring : Bytes.cstr (b ++ 0 :: beyond) = b := by
    rw [Bytes.cstr_append_zero, Bytes.cstr_eq_self hb]
  have hparse : httpParseRequest (b ++ 0 :: beyond) sFileName
      = (requestTarget b).map fun target => (sFileName ++ target).map Bytes.toLower := by
    rw [httpParseRequest_eq, hstring]
  have hlines : (requestTarget b).isSome = true ↔ ∃ target, RequestLine b target := by
    rw [Option.isSome_iff_exists]
    simp only [requestTarget_eq_some_iff]
  refine ⟨?_, ?_, ?_, ?_⟩
  · rw [← hlines]
    constructor
    · rintro ⟨d, hd⟩
      obtain ⟨target, htarget, -⟩ := posix_requestRegex hd
      rw [htarget]
      rfl
    · intro htarget
      have hfound : ((regexec requestRegex b).map offsets).isSome = true := by
        rw [regexec_requestRegex, Option.isSome_map]
        exact htarget
      rw [Option.isSome_map] at hfound
      obtain ⟨d, hd⟩ := Option.isSome_iff_exists.mp hfound
      exact ⟨d, regexec_posix hd⟩
  · rw [hparse, Option.isSome_map]
    exact hlines
  · intro target hline
    have htarget := hline.requestTarget_eq
    refine ⟨requestTarget_eq_some htarget, ?_, ?_⟩
    · intro d hd
      obtain ⟨target', htarget', hoffsets⟩ := posix_requestRegex hd
      obtain rfl := Option.some.inj (htarget.symm.trans htarget')
      exact hoffsets
    · rw [hparse, htarget]
      rfl
  · intro hnone
    rw [Option.isSome_eq_false_iff, Option.isNone_iff_eq_none] at hnone
    rw [fileNameAfter, hnone]
    rfl

theorem httpParseRequest_language_page :
    httpParseRequest (Bytes.ascii "get /A/b.HTML http/1.1" ++ [0]) [] = some (Bytes.ascii "a/b.html") :=
  ((httpParseRequest_language (by decide) [] []).2.2.1 (Bytes.ascii "A/b.HTML")
    ⟨Bytes.ascii "get /", Bytes.ascii " http/1", Bytes.ascii ".1", by decide⟩).2.2

end CewServer.Http
