import CewServer.Http.Request

/-!
# Answering a request

The rest of `cew_http.c`: the file name becomes a path below the search path, its extension a mime
type, and the file the body of the answer. What the operating system does is a `FileSystem`: whether
`access` finds a path, and what `open`, `fstat` and `read` give for it. The send buffer is an sds, a
string that carries its length. Whether there is room for the file behind it is left open; sds is taken
to find the memory for the head, the name, the path and the type.
-/

namespace CewServer.Http

/-- A file as one request finds it. `fstat` is `none` when the call fails, and then the size the code
goes on with is what the stack held; `roomFound` is false when `sdsMakeRoomFor` finds no memory for that
size; `content` is `none` when `read` fails; `room` is what the memory behind the send buffer held before
the read. -/
structure OpenedFile where
  fd : Int
  fstat : Option Nat
  staleSize : Int
  roomFound : Bool
  content : Option Bytes
  room : Nat → UInt8

/-- What sds says of `sdsIncrLen`, which is called on a string, the memory behind it and a number. -/
structure Sds where
  sdsIncrLen : Bytes → (Nat → UInt8) → Int → Option Bytes
  /-- As many bytes of the room behind the string become part of it. -/
  grows : ∀ s room n, sdsIncrLen s room (.ofNat n) = some (s ++ (List.range n).map room)
  /-- A negative number trims the string from the right. -/
  trims : ∀ s room n, n < s.length →
    sdsIncrLen s room (.negSucc n) = some (s.take (s.length - (n + 1)))
  /-- More than there is fails an assertion. -/
  asserts : ∀ s room n, s.length ≤ n → sdsIncrLen s room (.negSucc n) = none

/-- What a request finds: the files, and the library its send buffer is built with. -/
structure FileSystem where
  access : Bytes → Bool
  openRdonly : Bytes → Option OpenedFile
  sds : Sds

def OpenedFile.stSize (file : OpenedFile) : Int :=
  match file.fstat with
  | some size => size
  | none => file.staleSize

def OpenedFile.filled (file : OpenedFile) (i : Nat) : UInt8 :=
  (file.content.getD [])[i]?.getD (file.room i)

/-- An sds that does what it says and no more. -/
def Sds.plain : Sds where
  sdsIncrLen s room
    | .ofNat n => some (s ++ (List.range n).map room)
    | .negSucc n => if n < s.length then some (s.take (s.length - (n + 1))) else none
  grows _ _ _ := rfl
  trims _ _ _ h := if_pos h
  asserts _ _ _ h := if_neg (Nat.not_lt.mpr h)

def http404 (sResponse : Bytes) : Bytes :=
  sResponse ++ Bytes.ascii "HTTP/1.1 404 Not Found\r\nContent-Type: text/plain\r\n\r\n404 Not Found"

def cSearchPath : Bytes := Bytes.ascii "/opt/www"

/-- What `http_check_access_file` leaves in its arguments and returns. -/
structure AccessCheck where
  sFileName : Bytes
  sPath : Bytes
  found : Bool

def httpCheckAccessFile (fs : FileSystem) (sFileName sPath : Bytes) : AccessCheck :=
  let sFileName :=
    if Bytes.cstr sFileName = [] then sFileName ++ Bytes.ascii "index.html" else sFileName
  let sPath := sPath ++ (cSearchPath ++ Bytes.ascii "/" ++ Bytes.cstr sFileName)
  { sFileName, sPath, found := fs.access (Bytes.cstr sPath) }

theorem strstr_length {needle haystack found : Bytes} (hneedle : needle ≠ [])
    (h : Bytes.strstr needle haystack = some found) : found.tail.length < haystack.length := by
  induction haystack with
  | nil =>
      rw [Bytes.strstr, if_neg hneedle] at h
      cases h
  | cons a haystack ih =>
      rw [Bytes.strstr] at h
      split at h
      · cases h
        exact Nat.lt_succ_self _
      · exact Nat.lt_succ_of_lt (ih h)

/-- The `while` loop of `http_determine_mime`: `cExt` follows `cSearch` from dot to dot. -/
def searchExt (cSearch : Bytes) (cExt : Option Bytes) : Option Bytes :=
  match _h : Bytes.strstr (Bytes.ascii ".") cSearch with
  | none => cExt
  | some found => searchExt found.tail (some found)
termination_by cSearch.length
decreasing_by exact strstr_length (by decide) _h

def mimeOfExt (cExt : Bytes) : Option Bytes :=
  if cExt = Bytes.ascii "html" then some (Bytes.ascii "text/html")
  else if cExt = Bytes.ascii "txt" then some (Bytes.ascii "image/txt")
  else if cExt = Bytes.ascii "css" then some (Bytes.ascii "text/css")
  else if cExt = Bytes.ascii "jpg" then some (Bytes.ascii "image/jpeg")
  else if cExt = Bytes.ascii "png" then some (Bytes.ascii "image/png")
  else none

/-- `http_determine_mime`: `none` is `EXIT_FAILURE`. The result of `sdscat` is not stored, so the type
reaches the caller only as the string grows in place. -/
def httpDetermineMime (sFileName sMime : Bytes) : Option Bytes :=
  match searchExt (Bytes.cstr sFileName) none with
  | some cExt => (mimeOfExt cExt.tail).map (sMime ++ ·)
  | none => none

/-- What a request did: the file it opened, whose descriptor stays open, and the bytes given to
`send`, or `none` when the process did not get there. -/
structure Handled where
  opened : Option (Bytes × OpenedFile)
  sent : Option Bytes

/-- The part of the head written before the file is opened. -/
def headOk (acSendBuff sMime : Bytes) : Bytes :=
  acSendBuff ++ Bytes.ascii "HTTP/1.1 200 OK\r\n"
    ++ (Bytes.ascii "Content-Type: " ++ Bytes.cstr sMime ++ Bytes.ascii "\r\n")
    ++ Bytes.ascii "Connection: Closed\r\n"

/-- The part of the head written once the file is open. -/
def headLength (acSendBuff : Bytes) (stSize : Int) : Bytes :=
  acSendBuff ++ (Bytes.ascii "Content-Length: " ++ Bytes.decimal stSize ++ Bytes.ascii "\r\n")
    ++ Bytes.ascii "\r\n"

/-- `sdsMakeRoomFor`, `read` and `sdsIncrLen`. Where no room is found the send buffer is NULL, and
`sdsIncrLen` reads in front of it. -/
def addContent (sds : Sds) (acSendBuff : Bytes) (file : OpenedFile) : Option Bytes :=
  if file.roomFound then sds.sdsIncrLen acSendBuff file.filled file.stSize else none

def httpHandleClientRequest (fs : FileSystem) (acRecvBuff : Bytes) : Handled :=
  match httpParseRequest acRecvBuff [] with
  | none => ⟨none, some []⟩
  | some sFileName =>
      let check := httpCheckAccessFile fs sFileName []
      if check.found then
        match httpDetermineMime check.sFileName [] with
        | none => ⟨none, some []⟩
        | some sMime =>
            let acSendBuff := headOk [] sMime
            match fs.openRdonly (Bytes.cstr check.sPath) with
            | none => ⟨none, some acSendBuff⟩
            | some file =>
                let acSendBuff := headLength acSendBuff file.stSize
                ⟨some (Bytes.cstr check.sPath, file), addContent fs.sds acSendBuff file⟩
      else ⟨none, some (http404 [])⟩

/-! ### The extension -/

def lastDot : Bytes → Option Bytes
  | [] => none
  | a :: s => (lastDot s).or (if a = 46 then some (a :: s) else none)

theorem strstr_dot (a : UInt8) (s : Bytes) :
    Bytes.strstr (Bytes.ascii ".") (a :: s)
      = if a = 46 then some (a :: s) else Bytes.strstr (Bytes.ascii ".") s := by
  have hdot : Bytes.ascii "." <+: a :: s ↔ a = 46 := by
    rw [show Bytes.ascii "." = [46] from rfl, List.cons_prefix_cons, eq_comm]
    exact and_iff_left List.nil_prefix
  rw [Bytes.strstr]
  by_cases ha : a = 46
  · rw [if_pos ha, if_pos (hdot.mpr ha)]
  · rw [if_neg ha, if_neg (mt hdot.mp ha)]

theorem searchExt_of_found {cSearch found : Bytes} (cExt : Option Bytes)
    (h : Bytes.strstr (Bytes.ascii ".") cSearch = some found) :
    searchExt cSearch cExt = searchExt found.tail (some found) := by
  rw [searchExt]
  split
  · rename_i hnone
    cases h.symm.trans hnone
  · rename_i found' hfound
    cases h.symm.trans hfound
    rfl

theorem searchExt_of_none {cSearch : Bytes} (cExt : Option Bytes)
    (h : Bytes.strstr (Bytes.ascii ".") cSearch = none) : searchExt cSearch cExt = cExt := by
  rw [searchExt]
  split
  · rfl
  · rename_i found hfound
    cases h.symm.trans hfound

theorem searchExt_cons (a : UInt8) (s : Bytes) (cExt : Option Bytes) :
    searchExt (a :: s) cExt = searchExt s (if a = 46 then some (a :: s) else cExt) := by
  have hdot := strstr_dot a s
  by_cases ha : a = 46
  · rw [if_pos ha] at hdot ⊢
    exact searchExt_of_found cExt hdot
  · rw [if_neg ha] at hdot ⊢
    cases hrest : Bytes.strstr (Bytes.ascii ".") s with
    | none => rw [searchExt_of_none cExt hrest, searchExt_of_none cExt (hdot.trans hrest)]
    | some found => rw [searchExt_of_found cExt hrest, searchExt_of_found cExt (hdot.trans hrest)]

theorem searchExt_eq (cSearch : Bytes) (cExt : Option Bytes) :
    searchExt cSearch cExt = (lastDot cSearch).or cExt := by
  induction cSearch generalizing cExt with
  | nil => exact searchExt_of_none cExt rfl
  | cons a s ih =>
      rw [searchExt_cons, ih, lastDot, Option.or_assoc]
      by_cases ha : a = 46
      · simp only [if_pos ha, Option.some_or]
      · simp only [if_neg ha, Option.none_or]

def mimeOfName (sFileName : Bytes) : Option Bytes := (lastDot sFileName).bind fun ext => mimeOfExt ext.tail

theorem httpDetermineMime_eq {sFileName : Bytes} (hname : 0 ∉ sFileName) :
    httpDetermineMime sFileName [] = mimeOfName sFileName := by
  rw [httpDetermineMime, Bytes.cstr_eq_self hname, searchExt_eq, Option.or_none, mimeOfName]
  cases lastDot sFileName with
  | none => rfl
  | some ext => simp only [List.nil_append, Option.map_id_fun', id_eq, Option.bind_some]

/-! ### The whole answer -/

/-- With room for it, the file is behind the head. -/
theorem addContent_of_room (sds : Sds) (acSendBuff : Bytes) {file : OpenedFile} {size : Nat}
    (hroom : file.roomFound = true) (hsize : file.stSize = size) :
    addContent sds acSendBuff file = some (acSendBuff ++ (List.range size).map file.filled) := by
  rw [addContent, if_pos hroom, hsize]
  exact sds.grows acSendBuff file.filled size

def defaultName (sFileName : Bytes) : Bytes :=
  if sFileName = [] then Bytes.ascii "index.html" else sFileName

def requestedName (acRecvBuff : Bytes) : Option Bytes :=
  (requestTarget (Bytes.cstr acRecvBuff)).map fun target => defaultName (target.map Bytes.toLower)

def servedPath (sFileName : Bytes) : Bytes := cSearchPath ++ 47 :: sFileName

/-- The name is cut out of a C string. -/
theorem zero_not_mem_target {acRecvBuff target : Bytes}
    (h : requestTarget (Bytes.cstr acRecvBuff) = some target) : 0 ∉ target.map Bytes.toLower := by
  intro hzero
  obtain ⟨a, ha, hlower⟩ := List.mem_map.mp hzero
  rw [requestTarget_eq_some h] at ha
  have hstring : a ∈ Bytes.cstr acRecvBuff :=
    List.mem_of_mem_drop ((List.takeWhile_prefix notSpace).mem ha)
  exact Bytes.ne_zero_of_mem_cstr hstring (Bytes.eq_of_toLower_eq (by decide) hlower)

theorem zero_not_mem_defaultName {sFileName : Bytes} (hname : 0 ∉ sFileName) :
    0 ∉ defaultName sFileName := by
  unfold defaultName
  split
  · decide
  · exact hname

theorem cstr_servedPath {sFileName : Bytes} (hname : 0 ∉ sFileName) :
    Bytes.cstr (servedPath sFileName) = servedPath sFileName := by
  apply Bytes.cstr_eq_self
  intro hzero
  rcases List.mem_append.mp hzero with hroot | hrest
  · exact absurd hroot (by decide)
  · rcases List.mem_cons.mp hrest with hslash | hmem
    · exact absurd hslash (by decide)
    · exact hname hmem

theorem httpCheckAccessFile_eq (fs : FileSystem) {sFileName : Bytes} (hname : 0 ∉ sFileName) :
    httpCheckAccessFile fs sFileName []
      = ⟨defaultName sFileName, servedPath (defaultName sFileName),
          fs.access (servedPath (defaultName sFileName))⟩ := by
  have hdefault : (if Bytes.cstr sFileName = [] then sFileName ++ Bytes.ascii "index.html"
      else sFileName) = defaultName sFileName := by
    rw [Bytes.cstr_eq_self hname, defaultName]
    split
    · rename_i hempty
      rw [hempty, List.nil_append]
    · rfl
  have hpath : [] ++ (cSearchPath ++ Bytes.ascii "/" ++ Bytes.cstr (defaultName sFileName))
      = servedPath (defaultName sFileName) := by
    rw [Bytes.cstr_eq_self (zero_not_mem_defaultName hname), List.nil_append, List.append_assoc]
    rfl
  simp only [httpCheckAccessFile, hdefault, hpath, cstr_servedPath (zero_not_mem_defaultName hname)]

/-- The four conditions of `http_handle_client_request`, on the name the request is for. -/
theorem httpHandleClientRequest_eq (fs : FileSystem) (acRecvBuff : Bytes) :
    httpHandleClientRequest fs acRecvBuff
      = match requestedName acRecvBuff with
        | none => ⟨none, some []⟩
        | some sFileName =>
            if fs.access (servedPath sFileName) then
              match mimeOfName sFileName with
              | none => ⟨none, some []⟩
              | some sMime =>
                  match fs.openRdonly (servedPath sFileName) with
                  | none => ⟨none, some (headOk [] sMime)⟩
                  | some file =>
                      ⟨some (servedPath sFileName, file),
                        addContent fs.sds (headLength (headOk [] sMime) file.stSize) file⟩
            else ⟨none, some (http404 [])⟩ := by
  rw [httpHandleClientRequest, httpParseRequest_eq, requestedName]
  cases htarget : requestTarget (Bytes.cstr acRecvBuff) with
  | none => rfl
  | some target =>
      have hname := zero_not_mem_target htarget
      have hdefault := zero_not_mem_defaultName hname
      simp only [Option.map_some, List.nil_append, httpCheckAccessFile_eq fs hname,
        httpDetermineMime_eq hdefault, cstr_servedPath hdefault]

/-- A request whose file is there, has a known extension and opens is answered with it. -/
theorem httpHandleClientRequest_of_open {fs : FileSystem} {acRecvBuff sFileName sMime : Bytes}
    {file : OpenedFile} (hname : requestedName acRecvBuff = some sFileName)
    (haccess : fs.access (servedPath sFileName) = true) (hmime : mimeOfName sFileName = some sMime)
    (hopen : fs.openRdonly (servedPath sFileName) = some file) :
    httpHandleClientRequest fs acRecvBuff
      = ⟨some (servedPath sFileName, file),
          addContent fs.sds (headLength (headOk [] sMime) file.stSize) file⟩ := by
  rw [httpHandleClientRequest_eq]
  simp only [hname, haccess, hmime, hopen, if_true]

/-- No other request gets as far as opening a file. -/
theorem open_of_opened {fs : FileSystem} {acRecvBuff path : Bytes} {file : OpenedFile}
    (hopened : (httpHandleClientRequest fs acRecvBuff).opened = some (path, file)) :
    ∃ sFileName sMime, requestedName acRecvBuff = some sFileName ∧
      fs.access (servedPath sFileName) = true ∧ mimeOfName sFileName = some sMime ∧
      fs.openRdonly (servedPath sFileName) = some file ∧ path = servedPath sFileName := by
  rw [httpHandleClientRequest_eq] at hopened
  split at hopened
  · cases hopened
  · rename_i sFileName hname
    split at hopened
    · rename_i haccess
      split at hopened
      · cases hopened
      · rename_i sMime hmime
        split at hopened
        · cases hopened
        · rename_i file' hopen
          cases hopened
          exact ⟨sFileName, sMime, hname, haccess, hmime, hopen, rfl⟩
    · cases hopened

end CewServer.Http
