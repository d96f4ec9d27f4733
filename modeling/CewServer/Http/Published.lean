import CewServer.Http.Response
import CewServer.Lib.Path

/-!
# Which files of the document root can be fetched

The name in a request is put in lower case before it is looked for, so on a file system that tells
upper from lower case the files that can be fetched are those without an upper-case letter in their
path. Nothing else stands between a path and its file: the target of the request line is the path, the
extension is what follows its last dot.
-/

namespace CewServer.Http

def extensions : List Bytes :=
  [Bytes.ascii ".html", Bytes.ascii ".txt", Bytes.ascii ".css", Bytes.ascii ".jpg", Bytes.ascii ".png"]

/-- A path the server has an extension for, and that a request line can carry. -/
structure Fetchable (path : Bytes) : Prop where
  nonempty : path ≠ []
  noSpace : 32 ∉ path
  noZero : 0 ∉ path
  typed : ∃ ext ∈ extensions, ext <:+ path

def isUpper (a : UInt8) : Prop := 65 ≤ a ∧ a ≤ 90

instance (a : UInt8) : Decidable (isUpper a) := inferInstanceAs (Decidable (_ ∧ _))

theorem toLower_eq_self_iff (a : UInt8) : Bytes.toLower a = a ↔ ¬ isUpper a := by
  unfold Bytes.toLower isUpper
  split
  · rename_i hletter
    refine ⟨fun hsame => ?_, fun hnot => absurd hletter hnot⟩
    have hsum := congrArg UInt8.toNat hsame
    have hlow := UInt8.le_iff_toNat_le.mp hletter.1
    have hhigh := UInt8.le_iff_toNat_le.mp hletter.2
    simp only [UInt8.toNat_add, UInt8.reduceToNat] at hsum hlow hhigh
    omega
  · rename_i hother
    exact ⟨fun _ => hother, fun _ => rfl⟩

theorem map_toLower_eq_self_iff (path : Bytes) :
    path.map Bytes.toLower = path ↔ ∀ a ∈ path, ¬ isUpper a := by
  induction path with
  | nil => simp
  | cons a path ih =>
      rw [List.map_cons, List.cons.injEq, ih, toLower_eq_self_iff, List.forall_mem_cons]

/-! ### The extension of a path -/

theorem lastDot_of_not_mem {s : Bytes} (hs : 46 ∉ s) : lastDot s = none := by
  induction s with
  | nil => rfl
  | cons a s ih =>
      obtain ⟨ha, hs⟩ := not_or.mp (mt List.mem_cons.mpr hs)
      rw [lastDot, ih hs, if_neg (Ne.symm ha)]
      rfl

theorem lastDot_append {ext : Bytes} (hext : 46 ∉ ext) (s : Bytes) :
    lastDot (s ++ 46 :: ext) = some (46 :: ext) := by
  induction s with
  | nil =>
      rw [List.nil_append, lastDot, lastDot_of_not_mem hext, if_pos rfl]
      rfl
  | cons a s ih =>
      rw [List.cons_append, lastDot, ih]
      rfl

theorem mime_of_extension : ∀ ext ∈ extensions,
    ∃ name, ext = 46 :: name ∧ 46 ∉ name ∧ (mimeOfExt name).isSome = true := by
  intro ext hext
  have hall : ∀ ext ∈ extensions,
      ext = 46 :: ext.tail ∧ 46 ∉ ext.tail ∧ (mimeOfExt ext.tail).isSome = true := by decide
  exact ⟨ext.tail, hall ext hext⟩

theorem Fetchable.mime {path : Bytes} (h : Fetchable path) : (mimeOfName path).isSome = true := by
  obtain ⟨ext, hext, s, rfl⟩ := h.typed
  obtain ⟨name, rfl, hname, hmime⟩ := mime_of_extension ext hext
  rw [mimeOfName, lastDot_append hname]
  exact hmime

/-! ### The request for a path -/

/-- The bytes of a request for a path, with anything behind the version. -/
def requestFor (path more : Bytes) : Bytes :=
  Bytes.ascii "GET /" ++ path ++ Bytes.ascii " HTTP/1.1" ++ more

theorem requestedName_requestFor {path : Bytes} (h : Fetchable path) (more : Bytes) :
    requestedName (requestFor path more) = some (path.map Bytes.toLower) := by
  have hget : 0 ∉ Bytes.ascii "GET /" := by decide
  have hversion : 0 ∉ Bytes.ascii " HTTP/1" := by decide
  have hsplit : Bytes.ascii " HTTP/1.1" = Bytes.ascii " HTTP/1" ++ Bytes.ascii ".1" := by decide
  have hstring : Bytes.cstr (requestFor path more)
      = Bytes.ascii "GET /" ++ path ++ Bytes.ascii " HTTP/1"
          ++ Bytes.cstr (Bytes.ascii ".1" ++ more) := by
    rw [requestFor, hsplit]
    simp only [List.append_assoc]
    rw [Bytes.cstr_append hget, Bytes.cstr_append h.noZero, Bytes.cstr_append hversion]
  have hline : RequestLine (Bytes.cstr (requestFor path more)) path :=
    ⟨_, _, _, hstring, rfl, rfl, h.noSpace⟩
  have hname : path.map Bytes.toLower ≠ [] := mt List.map_eq_nil_iff.mp h.nonempty
  rw [requestedName, hline.requestTarget_eq, Option.map_some, defaultName, if_neg hname]

/-- The file at the path is opened and sent in a `200`. -/
def Served (fs : FileSystem) (acRecvBuff path : Bytes) (file : OpenedFile) : Prop :=
  (httpHandleClientRequest fs acRecvBuff).opened = some (path, file) ∧
    ∃ message, (httpHandleClientRequest fs acRecvBuff).sent = some message ∧
      Bytes.ascii "HTTP/1.1 200 OK\r\n" <+: message

theorem headOk_isPrefix (sMime more : Bytes) :
    Bytes.ascii "HTTP/1.1 200 OK\r\n" <+: headOk [] sMime ++ more := by
  simp only [headOk, List.nil_append, List.append_assoc]
  exact List.prefix_append _ _

theorem served_of_lower {fs : FileSystem} {acRecvBuff path : Bytes} {file : OpenedFile} {size : Nat}
    (hpath : Fetchable path) (hname : requestedName acRecvBuff = some path)
    (haccess : fs.access (servedPath path) = true)
    (hopen : fs.openRdonly (servedPath path) = some file) (hsize : file.fstat = some size)
    (hroom : file.roomFound = true) :
    Served fs acRecvBuff (servedPath path) file := by
  obtain ⟨sMime, hmime⟩ := Option.isSome_iff_exists.mp hpath.mime
  have hstSize : file.stSize = (size : Int) := by rw [OpenedFile.stSize, hsize]
  rw [Served, httpHandleClientRequest_of_open hname haccess hmime hopen, hstSize]
  refine ⟨rfl, _, addContent_of_room fs.sds _ hroom hstSize, ?_⟩
  rw [headLength, List.append_assoc, List.append_assoc]
  exact headOk_isPrefix sMime _

/-- What is opened for a request is the path with the requested name. -/
theorem path_of_opened {fs : FileSystem} {acRecvBuff sFileName path : Bytes} {file : OpenedFile}
    (hname : requestedName acRecvBuff = some sFileName)
    (hopened : (httpHandleClientRequest fs acRecvBuff).opened = some (path, file)) :
    path = servedPath sFileName := by
  obtain ⟨other, sMime, hother, -, -, -, hpath⟩ := open_of_opened hopened
  rw [hname, Option.some.injEq] at hother
  rw [hother]
  exact hpath

theorem servedPath_injective {path other : Bytes} (h : servedPath path = servedPath other) :
    path = other :=
  (List.cons.inj (List.append_cancel_left h)).2

/-- A readable file with a known extension is sent to whoever asks for its path, exactly when the path
has no upper-case letter. Where it has one, the file is not opened: it is the path in lower case that is
looked for. -/
theorem published_served_iff {fs : FileSystem} {path : Bytes} {file : OpenedFile} {size : Nat}
    (hpath : Fetchable path) (haccess : fs.access (servedPath path) = true)
    (hopen : fs.openRdonly (servedPath path) = some file) (hsize : file.fstat = some size)
    (hroom : file.roomFound = true) (more : Bytes) :
    (Served fs (requestFor path more) (servedPath path) file ↔ ∀ a ∈ path, ¬ isUpper a) ∧
    ∀ opened, (httpHandleClientRequest fs (requestFor path more)).opened = some opened →
      opened.1 = servedPath (path.map Bytes.toLower) ∧
        ((∃ a ∈ path, isUpper a) → opened.1 ≠ servedPath path) := by
  have hname := requestedName_requestFor hpath more
  have hlower := map_toLower_eq_self_iff path
  refine ⟨⟨fun hserved => ?_, fun hnone => ?_⟩, fun opened hopened => ?_⟩
  · exact hlower.mp (servedPath_injective (path_of_opened hname hserved.1)).symm
  · rw [hlower.mpr hnone] at hname
    exact served_of_lower hpath hname haccess hopen hsize hroom
  · have hother : opened.1 = servedPath (path.map Bytes.toLower) :=
      path_of_opened hname (hopened.trans rfl)
    refine ⟨hother, fun ⟨a, ha, hupper⟩ hsame => ?_⟩
    exact hlower.mp (servedPath_injective (hother.symm.trans hsame)) a ha hupper

/-- A file system with one file, that tells upper from lower case. -/
def onlyFile (path : Bytes) (file : OpenedFile) : FileSystem where
  access other := other = servedPath path
  openRdonly other := if other = servedPath path then some file else none
  sds := .plain

theorem onlyFile_open (path : Bytes) (file : OpenedFile) :
    (onlyFile path file).openRdonly (servedPath path) = some file := by
  simp only [onlyFile, if_true]

def smallFile : OpenedFile where
  fd := 7
  fstat := some 4
  staleSize := 0
  roomFound := true
  content := some (Bytes.ascii "page")
  room _ := 0

def licensePath : Bytes := Bytes.ascii "licenses/gpl.txt"

theorem licensePath_fetchable : Fetchable licensePath where
  nonempty := by decide
  noSpace := by decide
  noZero := by decide
  typed := ⟨Bytes.ascii ".txt", by decide, by decide⟩

theorem published_served_license :
    Served (onlyFile licensePath smallFile) (requestFor licensePath (Bytes.ascii "\r\n\r\n" ++ [0]))
      (servedPath licensePath) smallFile :=
  (published_served_iff licensePath_fetchable (by decide) (onlyFile_open _ _)
    (show smallFile.fstat = some 4 from rfl) rfl _).1.mpr (Bytes.forall_of_all (by decide))

def readmePath : Bytes := Bytes.ascii "server/standards/README.translations.html"

theorem readmePath_fetchable : Fetchable readmePath where
  nonempty := by decide
  noSpace := by decide
  noZero := by decide
  typed := ⟨Bytes.ascii ".html", by decide, by decide⟩

/-- A file the repository publishes and the server does not find. -/
theorem published_not_served :
    ¬ ∀ (fs : FileSystem) (path more : Bytes) (file : OpenedFile) (size : Nat), Fetchable path →
      path.head? ≠ some 47 → Bytes.ascii ".." ∉ Path.components 47 path →
      (requestFor path more).length < 4096 → fs.access (servedPath path) = true →
      (∀ other, fs.access other = true → other = servedPath path) →
      fs.openRdonly (servedPath path) = some file → file.fstat = some size →
      file.roomFound = true →
        Served fs (requestFor path more) (servedPath path) file := by
  intro hall
  have hserved := hall (onlyFile readmePath smallFile) readmePath (Bytes.ascii "\r\n\r\n" ++ [0])
    smallFile 4 readmePath_fetchable (by decide) (by decide) (by decide) (by decide)
    (fun other h => of_decide_eq_true h) (onlyFile_open _ _) rfl rfl
  have hname := requestedName_requestFor readmePath_fetchable (Bytes.ascii "\r\n\r\n" ++ [0])
  have hsame := servedPath_injective (path_of_opened hname hserved.1)
  exact absurd hsame (by decide)

end CewServer.Http
