import CewServer.Http.Response
import CewServer.Lib.Lines

/-!
# Which answers are complete

A `Head` is the head of an HTTP message: a status line, header lines, and for a `200` the length of
the body among them. The answer is written piece by piece, and only two of the ways through
`http_handle_client_request` write a whole one: the answer to a file that is not there, and the answer
with a file whose size is known and which the send buffer has room for. Each other way ends before the
send or stops before the empty line, so what is sent shows no blank and cannot begin with a head.
-/

namespace CewServer.Http

open Line

structure Head where
  code : Bytes
  reason : Bytes
  headers : List Line
  codeDigits : code.length = 3 ∧ ∀ a ∈ code, 48 ≤ a ∧ a ≤ 57
  reasonPlain : ∀ a ∈ reason, a ≠ 13 ∧ a ≠ 10
  lengthGiven : code = Bytes.ascii "200" →
    ∃ line ∈ headers, ∃ n : Nat, line.text = Bytes.ascii "Content-Length: " ++ Bytes.digits n

theorem digit_plain {a : UInt8} (ha : 48 ≤ a ∧ a ≤ 57) : a ≠ 13 ∧ a ≠ 10 := by
  constructor
  · rintro rfl
    exact absurd ha.1 (by decide)
  · rintro rfl
    exact absurd ha.1 (by decide)

def Head.statusLine (head : Head) : Line where
  text := Bytes.ascii "HTTP/1.1 " ++ head.code ++ Bytes.ascii " " ++ head.reason
  nonempty := by
    simp only [ne_eq, List.append_eq_nil_iff, not_and]
    intro h
    exact absurd h.1.1 (by decide)
  plain := by
    have hversion : ∀ a ∈ Bytes.ascii "HTTP/1.1 ", a ≠ 13 ∧ a ≠ 10 := Bytes.forall_of_all (by decide)
    have hspace : ∀ a ∈ Bytes.ascii " ", a ≠ 13 ∧ a ≠ 10 := Bytes.forall_of_all (by decide)
    intro a ha
    simp only [List.mem_append] at ha
    rcases ha with ((h | h) | h) | h
    · exact hversion a h
    · exact digit_plain (head.codeDigits.2 a h)
    · exact hspace a h
    · exact head.reasonPlain a h

def Head.bytes (head : Head) : Bytes := block (head.statusLine :: head.headers) ++ crlf

def Complete (message : Bytes) : Prop := ∃ (head : Head) (body : Bytes), message = head.bytes ++ body

theorem Complete.blank_infix {message : Bytes} (h : Complete message) : blank <:+: message := by
  obtain ⟨head, body, rfl⟩ := h
  exact (blank_infix_closed head.statusLine head.headers).trans (List.prefix_append _ _).isInfix

/-! ### The lines the server writes -/

theorem mimeOfExt_plain {cExt sMime : Bytes} (h : mimeOfExt cExt = some sMime) :
    ∀ a ∈ sMime, a ≠ 0 ∧ a ≠ 13 ∧ a ≠ 10 := by
  unfold mimeOfExt at h
  split_ifs at h <;> cases h <;> exact Bytes.forall_of_all (by decide)

theorem mimeOfName_plain {sFileName sMime : Bytes} (h : mimeOfName sFileName = some sMime) :
    ∀ a ∈ sMime, a ≠ 0 ∧ a ≠ 13 ∧ a ≠ 10 := by
  obtain ⟨ext, _, hext⟩ := Option.bind_eq_some_iff.mp h
  exact mimeOfExt_plain hext

def okLine : Line := ⟨Bytes.ascii "HTTP/1.1 200 OK", by decide, Bytes.forall_of_all (by decide)⟩

def headerLine (name value : Bytes) (hne : name ≠ []) (hname : ∀ a ∈ name, a ≠ 13 ∧ a ≠ 10)
    (hvalue : ∀ a ∈ value, a ≠ 13 ∧ a ≠ 10) : Line where
  text := name ++ value
  nonempty := fun h => hne (List.append_eq_nil_iff.mp h).1
  plain := fun a ha => (List.mem_append.mp ha).elim (hname a) (hvalue a)

def typeLine (sMime : Bytes) (hplain : ∀ a ∈ sMime, a ≠ 0 ∧ a ≠ 13 ∧ a ≠ 10) : Line :=
  headerLine (Bytes.ascii "Content-Type: ") sMime (by decide) (Bytes.forall_of_all (by decide))
    fun a ha => (hplain a ha).2

def closedLine : Line :=
  ⟨Bytes.ascii "Connection: Closed", by decide, Bytes.forall_of_all (by decide)⟩

theorem decimal_plain (x : Int) : ∀ a ∈ Bytes.decimal x, a ≠ 13 ∧ a ≠ 10 := by
  intro a ha
  constructor
  · rintro rfl
    exact absurd (Bytes.mem_decimal ha) (by decide)
  · rintro rfl
    exact absurd (Bytes.mem_decimal ha) (by decide)

def lengthLine (stSize : Int) : Line :=
  headerLine (Bytes.ascii "Content-Length: ") (Bytes.decimal stSize) (by decide)
    (Bytes.forall_of_all (by decide)) (decimal_plain stSize)

def okLines (sMime : Bytes) (hplain : ∀ a ∈ sMime, a ≠ 0 ∧ a ≠ 13 ∧ a ≠ 10) : List Line :=
  [okLine, typeLine sMime hplain, closedLine]

theorem headOk_eq_block (sMime : Bytes) (hplain : ∀ a ∈ sMime, a ≠ 0 ∧ a ≠ 13 ∧ a ≠ 10) :
    headOk [] sMime = block (okLines sMime hplain) := by
  have hstring : Bytes.cstr sMime = sMime := Bytes.cstr_eq_self fun h => (hplain 0 h).1 rfl
  have hok : Bytes.ascii "HTTP/1.1 200 OK\r\n" = okLine.text ++ crlf := by decide
  have hclosed : Bytes.ascii "Connection: Closed\r\n" = closedLine.text ++ crlf := by decide
  have hcrlf : Bytes.ascii "\r\n" = crlf := by decide
  simp only [headOk, hstring, hok, hclosed, hcrlf, okLines, block, typeLine, headerLine,
    List.flatMap_cons, List.flatMap_nil, List.nil_append, List.append_nil, List.append_assoc]

theorem headLength_eq_block (sMime : Bytes) (hplain : ∀ a ∈ sMime, a ≠ 0 ∧ a ≠ 13 ∧ a ≠ 10)
    (stSize : Int) :
    headLength (headOk [] sMime) stSize
      = block (okLines sMime hplain ++ [lengthLine stSize]) ++ crlf := by
  have hcrlf : Bytes.ascii "\r\n" = crlf := by decide
  rw [headLength, headOk_eq_block sMime hplain, hcrlf, block, block, List.flatMap_append]
  simp only [lengthLine, headerLine, List.flatMap_cons, List.flatMap_nil, List.append_nil,
    List.append_assoc]

/-! ### The complete answers -/

theorem http404_complete : Complete (http404 []) := by
  refine ⟨⟨Bytes.ascii "404", Bytes.ascii "Not Found",
    [headerLine (Bytes.ascii "Content-Type: ") (Bytes.ascii "text/plain") (by decide)
      (Bytes.forall_of_all (by decide)) (Bytes.forall_of_all (by decide))],
    ⟨rfl, Bytes.forall_of_all (by decide)⟩, Bytes.forall_of_all (by decide),
    fun h => absurd h (by decide)⟩, Bytes.ascii "404 Not Found", ?_⟩
  decide

theorem headLength_complete {sMime : Bytes} (hplain : ∀ a ∈ sMime, a ≠ 0 ∧ a ≠ 13 ∧ a ≠ 10)
    (n : Nat) (body : Bytes) : Complete (headLength (headOk [] sMime) n ++ body) := by
  rw [headLength_eq_block sMime hplain]
  refine ⟨⟨Bytes.ascii "200", Bytes.ascii "OK", [typeLine sMime hplain, closedLine, lengthLine n],
    ⟨rfl, Bytes.forall_of_all (by decide)⟩, Bytes.forall_of_all (by decide),
    fun _ => ⟨lengthLine n, ?_, n, rfl⟩⟩, body, ?_⟩
  · simp only [List.mem_cons, true_or, or_true]
  · rfl

theorem not_complete_nil : ¬ Complete [] := fun h => absurd h.blank_infix (by decide)

theorem headOk_not_complete {sMime : Bytes} (hplain : ∀ a ∈ sMime, a ≠ 0 ∧ a ≠ 13 ∧ a ≠ 10) :
    ¬ Complete (headOk [] sMime) := by
  intro hcomplete
  rw [headOk_eq_block sMime hplain] at hcomplete
  exact not_blank_infix_block _ (hcomplete.blank_infix.trans (List.prefix_append _ _).isInfix)

theorem negative_not_complete {sMime : Bytes} (hplain : ∀ a ∈ sMime, a ≠ 0 ∧ a ≠ 13 ∧ a ≠ 10)
    (sds : Sds) {stSize : Int} (hneg : stSize < 0) (room : Nat → UInt8) {message : Bytes}
    (hsent : sds.sdsIncrLen (headLength (headOk [] sMime) stSize) room stSize = some message) :
    ¬ Complete message := by
  intro hcomplete
  cases stSize with
  | ofNat n => exact absurd hneg (by simp)
  | negSucc n =>
      by_cases hlength : n < (headLength (headOk [] sMime) (.negSucc n)).length
      · rw [sds.trims _ _ _ hlength] at hsent
        cases hsent
        rw [headLength_eq_block sMime hplain] at hcomplete hlength
        exact not_blank_infix_take _ (by omega) hcomplete.blank_infix
      · rw [sds.asserts _ _ _ (Nat.le_of_not_lt hlength)] at hsent
        cases hsent

/-- A request the server has a whole answer for: it parses, and the file is not there, or it has a
known extension, can be opened, is given a size and finds room. -/
def Answerable (fs : FileSystem) (acRecvBuff : Bytes) : Prop :=
  ∃ sFileName, requestedName acRecvBuff = some sFileName ∧
    (fs.access (servedPath sFileName) = false ∨
      (mimeOfName sFileName).isSome ∧
        ∃ file, fs.openRdonly (servedPath sFileName) = some file ∧ 0 ≤ file.stSize ∧
          file.roomFound = true)

/-- The answer is complete exactly when the request is answerable: each of the other ways through
`http_handle_client_request` sends nothing or part of a head. -/
theorem sent_complete_iff (fs : FileSystem) (acRecvBuff : Bytes) :
    (∃ message, (httpHandleClientRequest fs acRecvBuff).sent = some message ∧ Complete message)
      ↔ Answerable fs acRecvBuff := by
  rw [httpHandleClientRequest_eq, Answerable]
  cases requestedName acRecvBuff with
  | none => simp only [Option.some.injEq, exists_eq_left', not_complete_nil, reduceCtorEq, false_and,
      exists_false]
  | some sFileName =>
      simp only [Option.some.injEq, exists_eq_left']
      cases fs.access (servedPath sFileName) with
      | false => simp only [Bool.false_eq_true, if_false, Option.some.injEq, exists_eq_left',
          http404_complete, true_or]
      | true =>
          simp only [if_true, Bool.true_eq_false, false_or]
          cases hmime : mimeOfName sFileName with
          | none => simp only [Option.some.injEq, exists_eq_left', not_complete_nil,
              Option.isSome_none, Bool.false_eq_true, false_and]
          | some sMime =>
              have hplain := mimeOfName_plain hmime
              simp only [Option.isSome_some, true_and]
              cases fs.openRdonly (servedPath sFileName) with
              | none => simp only [Option.some.injEq, exists_eq_left', headOk_not_complete hplain,
                  reduceCtorEq, false_and, exists_false]
              | some file =>
                  simp only [Option.some.injEq, exists_eq_left']
                  constructor
                  · rintro ⟨message, hsent, hcomplete⟩
                    cases hroom : file.roomFound with
                    | false =>
                        rw [addContent, hroom, if_neg Bool.false_ne_true] at hsent
                        cases hsent
                    | true =>
                        rw [addContent, hroom, if_pos rfl] at hsent
                        refine ⟨Int.not_lt.mp fun hneg => ?_, rfl⟩
                        exact negative_not_complete hplain fs.sds hneg file.filled hsent hcomplete
                  · rintro ⟨hsize, hroom⟩
                    obtain ⟨n, hn⟩ := Int.eq_ofNat_of_zero_le hsize
                    rw [addContent_of_room fs.sds _ hroom hn, hn]
                    exact ⟨_, rfl, headLength_complete hplain n _⟩

def nothingThere : FileSystem where
  access _ := false
  openRdonly _ := none
  sds := .plain

theorem sent_not_complete :
    ¬ ∀ (fs : FileSystem) (acRecvBuff : Bytes), acRecvBuff ≠ [] →
      ∃ message, (httpHandleClientRequest fs acRecvBuff).sent = some message ∧ Complete message := by
  intro hcomplete
  obtain ⟨message, hsent, hmessage⟩ :=
    hcomplete nothingThere (Bytes.ascii "POST / HTTP/1.1\r\n\r\n" ++ [0]) (by decide)
  rw [httpHandleClientRequest_eq] at hsent
  obtain rfl : [] = message := Option.some.inj hsent
  exact not_complete_nil hmessage

end CewServer.Http
