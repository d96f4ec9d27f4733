import CewServer.Http.Head

/-!
# The body of an answer

A client finds the body behind the first blank of what it receives and takes as many bytes as the
`Content-Length` line of the head says. The server writes the size `fstat` gives into the head and
takes that many bytes of the send buffer for the body, whatever `read` has put there. So the client
gets the file back when one `read` delivers all of it, and else memory of the server that no file holds.
That the send buffer finds room for the file is a hypothesis of these results: nothing is sent else.
-/

namespace CewServer.Http

open Line

/-! ### The client's side -/

/-- The decimal number a text is, if it is one. -/
def readDecimal (s : Bytes) : Option Nat :=
  if !s.isEmpty && s.all Bytes.isDigit then some (Bytes.number s) else none

/-- The value of a header line, if it is a `Content-Length`. -/
def lengthOfLine (line : Bytes) : Option Nat :=
  if Bytes.ascii "Content-Length: " <+: line then readDecimal (line.drop 16) else none

def contentLength (head : Bytes) : Option Nat := (split head).findSome? lengthOfLine

/-- What a client makes of a message: the body, and what is left behind it. -/
def decode (message : Bytes) : Option (Bytes × Bytes) :=
  (splitBlank message).bind fun parts =>
    (contentLength parts.1).map fun n => (parts.2.take n, parts.2.drop n)

theorem readDecimal_digits (n : Nat) : readDecimal (Bytes.digits n) = some n := by
  have hne : Bytes.digits n ≠ [] := mt List.map_eq_nil_iff.mp Nat.toDigits_ne_nil
  have hdigits : (Bytes.digits n).all Bytes.isDigit = true := by
    apply List.all_eq_true.mpr
    intro a ha
    obtain ⟨hlow, hhigh⟩ := Bytes.mem_digits ha
    exact Bool.and_eq_true_iff.mpr ⟨decide_eq_true (UInt8.le_iff_toNat_le.mpr hlow),
      decide_eq_true (UInt8.le_iff_toNat_le.mpr hhigh)⟩
  rw [readDecimal, List.isEmpty_eq_false_iff.mpr hne, hdigits, Bytes.number_digits]
  rfl

theorem lengthOfLine_lengthLine (n : Nat) : lengthOfLine (lengthLine n).text = some n := by
  have htext : (lengthLine n).text = Bytes.ascii "Content-Length: " ++ Bytes.digits n := rfl
  have hdrop : (Bytes.ascii "Content-Length: " ++ Bytes.digits n).drop 16 = Bytes.digits n := rfl
  rw [lengthOfLine, htext, if_pos (List.prefix_append _ _), hdrop]
  exact readDecimal_digits n

/-- The lines before it begin otherwise. -/
theorem lengthOfLine_typeLine (sMime : Bytes) (hplain : ∀ a ∈ sMime, a ≠ 0 ∧ a ≠ 13 ∧ a ≠ 10) :
    lengthOfLine (typeLine sMime hplain).text = none := by
  have htext : (typeLine sMime hplain).text = Bytes.ascii "Content-Type: " ++ sMime := rfl
  rw [lengthOfLine, htext, if_neg]
  intro hprefix
  have hstart := hprefix.take 9
  rw [List.take_append_of_le_length (by decide)] at hstart
  exact absurd hstart (by decide)

theorem contentLength_head (sMime : Bytes) (hplain : ∀ a ∈ sMime, a ≠ 0 ∧ a ≠ 13 ∧ a ≠ 10) (n : Nat) :
    contentLength (joined okLine [typeLine sMime hplain, closedLine, lengthLine n]) = some n := by
  have hok : lengthOfLine okLine.text = none := by decide
  have hclosed : lengthOfLine closedLine.text = none := by decide
  rw [contentLength, split_joined]
  simp only [List.map_cons, List.map_nil, List.findSome?_cons, hok, hclosed,
    lengthOfLine_typeLine sMime hplain, lengthOfLine_lengthLine]

/-- A client finds the head of a `200`, and in it the length. -/
theorem splitBlank_headLength {sMime : Bytes} (hplain : ∀ a ∈ sMime, a ≠ 0 ∧ a ≠ 13 ∧ a ≠ 10)
    (n : Nat) (body : Bytes) :
    ∃ head, splitBlank (headLength (headOk [] sMime) n ++ body) = some (head, body) ∧
      contentLength head = some n := by
  rw [headLength_eq_block sMime hplain]
  exact ⟨_, splitBlank_closed okLine [typeLine sMime hplain, closedLine, lengthLine n] body,
    contentLength_head sMime hplain n⟩

theorem decode_headLength {sMime : Bytes} (hplain : ∀ a ∈ sMime, a ≠ 0 ∧ a ≠ 13 ∧ a ≠ 10)
    (n : Nat) (body : Bytes) :
    decode (headLength (headOk [] sMime) n ++ body) = some (body.take n, body.drop n) := by
  obtain ⟨head, hsplit, hlength⟩ := splitBlank_headLength hplain n body
  rw [decode, hsplit, Option.bind_some, hlength]
  rfl

/-! ### What the server sends -/

/-- The bytes `read` put in the room behind the send buffer. -/
def OpenedFile.delivered (file : OpenedFile) : Bytes := file.content.getD []

/-- The bytes the server takes for the body. -/
def OpenedFile.body (file : OpenedFile) (size : Nat) : Bytes := (List.range size).map file.filled

/-- The body is what was read, and after it what the memory held before. -/
theorem body_eq {file : OpenedFile} {size : Nat} (hread : file.delivered.length ≤ size) :
    file.body size
      = file.delivered ++ ((List.range size).drop file.delivered.length).map file.room := by
  have hfilled : ((List.range size).take file.delivered.length).map file.filled = file.delivered := by
    rw [List.take_range, Nat.min_eq_left hread]
    apply List.ext_getElem
    · rw [List.length_map, List.length_range]
    · intro i hi hi'
      rw [List.getElem_map, List.getElem_range, OpenedFile.filled]
      change file.delivered[i]?.getD _ = _
      rw [List.getElem?_eq_getElem hi', Option.getD_some]
  have hstale : ((List.range size).drop file.delivered.length).map file.filled
      = ((List.range size).drop file.delivered.length).map file.room := by
    apply List.map_congr_left
    intro i hi
    obtain ⟨j, hj, rfl⟩ := List.getElem_of_mem hi
    rw [List.getElem_drop, List.getElem_range, OpenedFile.filled]
    change file.delivered[_]?.getD _ = _
    rw [List.getElem?_eq_none (Nat.le_add_right _ _), Option.getD_none]
  calc file.body size
      = ((List.range size).take file.delivered.length
          ++ (List.range size).drop file.delivered.length).map file.filled := by
        rw [List.take_append_drop]
        rfl
    _ = _ := by rw [List.map_append, hfilled, hstale]

theorem body_eq_delivered {file : OpenedFile} {size : Nat} (hall : file.delivered.length = size) :
    file.body size = file.delivered := by
  rw [body_eq (Nat.le_of_eq hall), hall, List.drop_of_length_le (by rw [List.length_range]),
    List.map_nil, List.append_nil]

theorem sent_of_opened {fs : FileSystem} {acRecvBuff path : Bytes} {file : OpenedFile} {size : Nat}
    (hopened : (httpHandleClientRequest fs acRecvBuff).opened = some (path, file))
    (hsize : file.fstat = some size) (hroom : file.roomFound = true) :
    ∃ sMime, (∀ a ∈ sMime, a ≠ 0 ∧ a ≠ 13 ∧ a ≠ 10) ∧
      (httpHandleClientRequest fs acRecvBuff).sent
        = some (headLength (headOk [] sMime) size ++ file.body size) := by
  have hstSize : file.stSize = (size : Int) := by
    rw [OpenedFile.stSize, hsize]
  obtain ⟨sFileName, sMime, hname, haccess, hmime, hopen, -⟩ := open_of_opened hopened
  refine ⟨sMime, mimeOfName_plain hmime, ?_⟩
  rw [httpHandleClientRequest_of_open hname haccess hmime hopen, hstSize]
  exact addContent_of_room fs.sds _ hroom hstSize

/-- The body a client finds in a message is what `read` delivered, and the head says how long it is. -/
def BodyRead (message : Bytes) (file : OpenedFile) : Prop :=
  ∃ head, splitBlank message = some (head, file.delivered) ∧
    contentLength head = some file.delivered.length

theorem bodyRead_headLength_iff {sMime : Bytes} (hplain : ∀ a ∈ sMime, a ≠ 0 ∧ a ≠ 13 ∧ a ≠ 10)
    (file : OpenedFile) (size : Nat) :
    BodyRead (headLength (headOk [] sMime) size ++ file.body size) file
      ↔ file.delivered.length = size := by
  obtain ⟨head, hsplit, hlength⟩ := splitBlank_headLength hplain size (file.body size)
  constructor
  · rintro ⟨head', hsplit', hlength'⟩
    obtain ⟨rfl, -⟩ := Prod.mk.inj (Option.some.inj (hsplit.symm.trans hsplit'))
    exact (Option.some.inj (hlength.symm.trans hlength')).symm
  · intro hall
    rw [body_eq_delivered hall] at hsplit ⊢
    exact ⟨head, hsplit, by rw [hlength, hall]⟩

/-- What the memory behind the send buffer held where `read` has put nothing. -/
def OpenedFile.stale (file : OpenedFile) (size : Nat) : Bytes :=
  ((List.range size).drop file.delivered.length).map file.room

/-- If there is room for the file, the body that is sent is what `read` delivered, and `Content-Length`
its length, exactly when one `read` delivers as much as `fstat` has announced. What is missing is made
up with old memory. -/
theorem sent_bodyRead_iff {fs : FileSystem} {acRecvBuff path : Bytes} {file : OpenedFile} {size : Nat}
    (hopened : (httpHandleClientRequest fs acRecvBuff).opened = some (path, file))
    (hsize : file.fstat = some size) (hroom : file.roomFound = true)
    (hread : file.delivered.length ≤ size) :
    ((∃ message, (httpHandleClientRequest fs acRecvBuff).sent = some message ∧ BodyRead message file)
      ↔ file.delivered.length = size) ∧
    ∃ message head, (httpHandleClientRequest fs acRecvBuff).sent = some message ∧
      splitBlank message = some (head, file.delivered ++ file.stale size) ∧
      contentLength head = some size := by
  obtain ⟨sMime, hplain, hsent⟩ := sent_of_opened hopened hsize hroom
  refine ⟨?_, ?_⟩
  · rw [hsent]
    simp only [Option.some.injEq, exists_eq_left']
    exact bodyRead_headLength_iff hplain file size
  · obtain ⟨head, hsplit, hlength⟩ := splitBlank_headLength hplain size (file.body size)
    refine ⟨_, head, hsent, ?_, hlength⟩
    rw [hsplit, body_eq hread]
    rfl

/-- Every path names one file, with what `fstat` and `read` say of it, and old data behind the send
buffer. -/
def oneFile (size : Nat) (content : Bytes) : FileSystem where
  access _ := true
  openRdonly _ := some
    { fd := 7, fstat := some size, staleSize := 0, roomFound := true, content := some content,
      room := fun _ => 83 }
  sds := .plain

def indexRequest : Bytes := Bytes.ascii "GET / HTTP/1.1\r\n\r\n" ++ [0]

theorem indexRequest_opens (size : Nat) (content : Bytes) :
    (httpHandleClientRequest (oneFile size content) indexRequest).opened
      = some (Bytes.ascii "/opt/www/index.html",
          { fd := 7, fstat := some size, staleSize := 0, roomFound := true, content := some content,
            room := fun _ => 83 }) := by
  rw [httpHandleClientRequest_eq]
  rfl

theorem sent_bodyRead_page :
    ∃ message, (httpHandleClientRequest (oneFile 4 (Bytes.ascii "page")) indexRequest).sent
        = some message ∧
      BodyRead message ⟨7, some 4, 0, true, some (Bytes.ascii "page"), fun _ => 83⟩ :=
  (sent_bodyRead_iff (indexRequest_opens 4 (Bytes.ascii "page")) rfl rfl (by decide)).1.mpr rfl

/-- The file has shrunk after `fstat`: half of the body is memory of the server. -/
theorem sent_not_bodyRead :
    ¬ ∀ (fs : FileSystem) (acRecvBuff path : Bytes) (file : OpenedFile) (size : Nat),
      (httpHandleClientRequest fs acRecvBuff).opened = some (path, file) → file.fstat = some size →
        file.roomFound = true → file.delivered.length ≤ size →
        ∃ message, (httpHandleClientRequest fs acRecvBuff).sent = some message ∧
          BodyRead message file := by
  intro hall
  have hopened := indexRequest_opens 4 (Bytes.ascii "pa")
  obtain ⟨message, hmessage, hbody⟩ := hall _ _ _ _ 4 hopened rfl rfl (by decide)
  obtain ⟨sMime, hplain, hsent⟩ := sent_of_opened hopened rfl rfl
  obtain rfl := Option.some.inj (hsent.symm.trans hmessage)
  exact absurd ((bodyRead_headLength_iff hplain _ _).mp hbody) (by decide)

/-- A client gets back the file a request is for, whatever bytes it holds, when the file is there, there
is room for it and one `read` delivers all of it. -/
theorem sent_roundTrip {fs : FileSystem} {acRecvBuff sFileName content : Bytes} {file : OpenedFile}
    (hname : requestedName acRecvBuff = some sFileName) (hmime : (mimeOfName sFileName).isSome = true)
    (haccess : fs.access (servedPath sFileName) = true)
    (hopen : fs.openRdonly (servedPath sFileName) = some file)
    (hsize : file.fstat = some content.length) (hroom : file.roomFound = true)
    (hread : file.content = some content) :
    ∃ message, (httpHandleClientRequest fs acRecvBuff).sent = some message ∧
      decode message = some (content, []) := by
  obtain ⟨sMime, hmime⟩ := Option.isSome_iff_exists.mp hmime
  have hopened : (httpHandleClientRequest fs acRecvBuff).opened = some (servedPath sFileName, file) := by
    rw [httpHandleClientRequest_of_open hname haccess hmime hopen]
  obtain ⟨sMime, hplain, hsent⟩ := sent_of_opened hopened hsize hroom
  have hdelivered : file.delivered = content := by rw [OpenedFile.delivered, hread, Option.getD_some]
  have hbody : file.body content.length = content := by
    rw [body_eq_delivered (by rw [hdelivered]), hdelivered]
  refine ⟨_, hsent, ?_⟩
  rw [decode_headLength hplain, hbody, List.take_length, List.drop_length]

theorem sent_roundTrip_blanks :
    ∃ message, (httpHandleClientRequest (oneFile 8 [13, 10, 13, 10, 0, 13, 10, 255]) indexRequest).sent
        = some message ∧ decode message = some ([13, 10, 13, 10, 0, 13, 10, 255], []) := by
  have hname : requestedName indexRequest = some (Bytes.ascii "index.html") := by decide
  exact sent_roundTrip hname (by decide) rfl rfl rfl rfl rfl

end CewServer.Http
