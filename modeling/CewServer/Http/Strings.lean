import CewServer.Http.Body
import CewServer.Lib.Arena

/-!
# The strings of an answer

An sds is a pointer, and a function that appends to one may have to move it: the pointer it returns is the
one to go on with. `http_handle_client_request` is here once more with its four strings as blocks, the send
buffer, the file name, the path and the type. The first three are stored again after each change. The type
is not: `http_determine_mime` drops what `sdscat` returns, and the caller goes on with the pointer it had.

So the answers are those of the functions on texts, and every string is freed once and not used after it, as
long as each type that is found can be appended where the empty string is; and if one of them moves, the
memory is wild. A log line uses the pointers it is given whether or not its level is logged.

sds itself is a parameter: functions on blocks that do what sds says of them, if they find the memory they
ask for. Where a file is too large for that, the process ends on the NULL that it gets.
-/

namespace CewServer.Http.Strings

open Blocks

/-- What sds says of the functions that make a string, append to one and make room behind one, if they
find the memory they ask for: the string holds what it should, the others are left alone, and nothing
comes right that has gone wrong before. -/
structure SdsStrings where
  new : Arena Bytes → Nat × Arena Bytes
  append : Arena Bytes → Nat → Bytes → Nat × Arena Bytes
  reserve : Arena Bytes → Nat → Int → Nat × Arena Bytes
  empty : ∀ {m live}, Holds m live → Holds (new m).2 (((new m).1, []) :: live)
  cat : ∀ {m s text live}, Holds m ((s, text) :: live) → ∀ t,
    Holds (append m s t).2 (((append m s t).1, text ++ t) :: live)
  makeRoom : ∀ {m s text live}, Holds m ((s, text) :: live) → ∀ size,
    Holds (reserve m s size).2 (((reserve m s size).1, text) :: live)
  empty_wild : ∀ {m}, m.wild = true → (new m).2.wild = true
  cat_wild : ∀ {m s} (t : Bytes), m.wild = true → (append m s t).2.wild = true
  makeRoom_wild : ∀ {m s} (size : Int), m.wild = true → (reserve m s size).2.wild = true

variable (sds : SdsStrings)

def sdsempty (m : Arena Bytes) : Nat × Arena Bytes := sds.new m

/-- Also `sdscatlen` and `sdscatprintf`. -/
def sdscat (m : Arena Bytes) (s : Nat) (t : Bytes) : Nat × Arena Bytes := sds.append m s t

def sdsMakeRoomFor (m : Arena Bytes) (s : Nat) (size : Int) : Nat × Arena Bytes := sds.reserve m s size

/-- Whether there is a name, where it is now, and the memory. -/
def httpParseRequest (acRecvBuff : Bytes) (m : Arena Bytes) (sFileName : Nat) : Bool × Nat × Arena Bytes :=
  match Regex.regexec requestRegex (Bytes.cstr acRecvBuff) with
  | some groups =>
      let off := groups.rmSo.toNat
      let len := (groups.rmEo - groups.rmSo).toNat
      let (sFileName, m) := sdscat sds m sFileName ((acRecvBuff.drop off).take len)
      (true, sFileName, (m.modify sFileName (·.map Bytes.toLower)).touch sFileName)
  | none => (false, sFileName, m)

/-- Whether the file is there, where the name and the path are now, and the memory. -/
def httpCheckAccessFile (fs : FileSystem) (m : Arena Bytes) (sFileName sPath : Nat) :
    Bool × Nat × Nat × Arena Bytes :=
  let m := m.touch sFileName
  let name := m.read sFileName
  let (sFileName, m) :=
    if Bytes.cstr name.1 = [] then sdscat sds name.2 sFileName (Bytes.ascii "index.html")
    else (sFileName, name.2)
  let name := m.read sFileName
  let (sPath, m) := sdscat sds name.2 sPath (cSearchPath ++ Bytes.ascii "/" ++ Bytes.cstr name.1)
  let path := (m.touch sPath).read sPath
  if fs.access (Bytes.cstr path.1) then (true, sFileName, sPath, path.2)
  else (false, sFileName, sPath, path.2.touch sPath)

/-- The pointer to the type is the caller's: what `sdscat` returns is lost. -/
def httpDetermineMime (m : Arena Bytes) (sFileName sMime : Nat) : Bool × Arena Bytes :=
  let name := m.read sFileName
  match searchExt (Bytes.cstr name.1) none with
  | none => (false, name.2)
  | some cExt =>
      match mimeOfExt cExt.tail with
      | none => (false, name.2.touch sFileName)
      | some mime => (true, (sdscat sds name.2 sMime mime).2.touch sMime)

/-- The block for a file whose type is known: the send buffer, or `none` when there is no room for the file
and the process ends on the NULL, or when an assertion of sds fails. -/
def addContent (fs : FileSystem) (m : Arena Bytes) (acSendBuff sFileName sPath sMime : Nat) :
    Option Nat × Arena Bytes :=
  let m := m.touch sFileName
  let (acSendBuff, m) := sdscat sds m acSendBuff (Bytes.ascii "HTTP/1.1 200 OK\r\n")
  let mime := m.read sMime
  let (acSendBuff, m) := sdscat sds mime.2 acSendBuff
    (Bytes.ascii "Content-Type: " ++ Bytes.cstr mime.1 ++ Bytes.ascii "\r\n")
  let (acSendBuff, m) := sdscat sds m acSendBuff (Bytes.ascii "Connection: Closed\r\n")
  let path := m.read sPath
  match fs.openRdonly (Bytes.cstr path.1) with
  | none => (some acSendBuff, path.2)
  | some file =>
      let (acSendBuff, m) := sdscat sds path.2 acSendBuff
        (Bytes.ascii "Content-Length: " ++ Bytes.decimal file.stSize ++ Bytes.ascii "\r\n")
      let (acSendBuff, m) := sdscat sds m acSendBuff (Bytes.ascii "\r\n")
      if file.roomFound then
        let (acSendBuff, m) := sdsMakeRoomFor sds m acSendBuff file.stSize
        let head := m.read acSendBuff
        match fs.sds.sdsIncrLen head.1 file.filled file.stSize with
        | none => (none, head.2)
        | some answer => (some acSendBuff, (head.2.modify acSendBuff fun _ => answer).touch acSendBuff)
      else (none, m)

/-- The end of the function: the send buffer is sent and freed. -/
def sendAnswer (m : Arena Bytes) (acSendBuff : Nat) : Bytes × Arena Bytes :=
  let message := m.read acSendBuff
  (message.1, message.2.free acSendBuff)

/-- A request before its type is asked for: answered already, or a file that is there. -/
inductive Prepared where
  | answered (message : Bytes) (m : Arena Bytes)
  | found (acSendBuff sFileName sPath sMime : Nat) (m : Arena Bytes)

/-- The branch for a file that is not there. -/
def answerMissing (m : Arena Bytes) (acSendBuff sFileName sPath : Nat) : Prepared :=
  let (acSendBuff, m) := sdscat sds m acSendBuff (http404 [])
  let (message, m) := sendAnswer ((m.free sPath).free sFileName) acSendBuff
  .answered message m

/-- `http_handle_client_request` up to the call of `http_determine_mime`. -/
def prepare (fs : FileSystem) (acRecvBuff : Bytes) (m : Arena Bytes) : Prepared :=
  let (acSendBuff, m) := sdsempty sds m
  let (sFileName, m) := sdsempty sds m
  match httpParseRequest sds acRecvBuff m sFileName with
  | (false, sFileName, m) =>
      let (message, m) := sendAnswer (m.free sFileName) acSendBuff
      .answered message m
  | (true, sFileName, m) =>
      let (sPath, m) := sdsempty sds m
      match httpCheckAccessFile sds fs m sFileName sPath with
      | (true, sFileName, sPath, m) =>
          let (sMime, m) := sdsempty sds m
          .found acSendBuff sFileName sPath sMime m
      | (false, sFileName, sPath, m) => answerMissing sds m acSendBuff sFileName sPath

/-- The rest: what is sent, unless an assertion ends the process, and the memory. -/
def answerFound (fs : FileSystem) (m : Arena Bytes) (acSendBuff sFileName sPath sMime : Nat) :
    Option Bytes × Arena Bytes :=
  let (content, m) :=
    match httpDetermineMime sds m sFileName sMime with
    | (true, m) => addContent sds fs m acSendBuff sFileName sPath sMime
    | (false, m) => (some acSendBuff, m)
  match content with
  | none => (none, m)
  | some acSendBuff =>
      let (message, m) := sendAnswer (((m.free sMime).free sPath).free sFileName) acSendBuff
      (some message, m)

def httpHandleClientRequest (fs : FileSystem) (acRecvBuff : Bytes) (m : Arena Bytes) :
    Option Bytes × Arena Bytes :=
  match prepare sds fs acRecvBuff m with
  | .answered message m => (some message, m)
  | .found acSendBuff sFileName sPath sMime m => answerFound sds fs m acSendBuff sFileName sPath sMime

/-- The requests a process answers one after another, until an assertion ends it: what it sent. -/
def serve : List (FileSystem × Bytes) → Arena Bytes → List Bytes × Arena Bytes
  | [], m => ([], m)
  | (fs, acRecvBuff) :: requests, m =>
      match httpHandleClientRequest sds fs acRecvBuff m with
      | (none, m) => ([], m)
      | (some message, m) =>
          let (messages, m) := serve requests m
          (message :: messages, m)

/-! ### What each function does with the strings it is given -/

variable {m : Arena Bytes} {live others : List (Nat × Bytes)}
  {acRecvBuff : Bytes} {acSendBuff sFileName sPath sMime s : Nat} {name path text : Bytes}

theorem held_sdsempty (h : Holds m live) : Holds (sdsempty sds m).2 (((sdsempty sds m).1, []) :: live) :=
  sds.empty h

theorem held_sdscat (h : Holds m ((s, text) :: live)) (t : Bytes) :
    Holds (sdscat sds m s t).2 (((sdscat sds m s t).1, text ++ t) :: live) := sds.cat h t

theorem held_sdsMakeRoomFor (h : Holds m ((s, text) :: live)) (size : Int) :
    Holds (sdsMakeRoomFor sds m s size).2 (((sdsMakeRoomFor sds m s size).1, text) :: live) :=
  sds.makeRoom h size

theorem touch_of_mem (h : Holds m live) (hmem : (s, text) ∈ live) : m.touch s = m := by
  rw [Arena.touch, h.read hmem]

theorem httpParseRequest_none (hnone : Http.httpParseRequest acRecvBuff [] = none) (m : Arena Bytes)
    (sFileName : Nat) : httpParseRequest sds acRecvBuff m sFileName = (false, sFileName, m) := by
  rw [Http.httpParseRequest] at hnone
  rw [httpParseRequest]
  cases hgroups : Regex.regexec requestRegex (Bytes.cstr acRecvBuff) with
  | none => rfl
  | some groups =>
      rw [hgroups] at hnone
      cases hnone

theorem httpParseRequest_some (hsome : Http.httpParseRequest acRecvBuff [] = some name)
    (h : Holds m ((sFileName, []) :: live)) :
    ∃ s m', httpParseRequest sds acRecvBuff m sFileName = (true, s, m') ∧ Holds m' ((s, name) :: live) := by
  rw [Http.httpParseRequest] at hsome
  rw [httpParseRequest]
  cases hgroups : Regex.regexec requestRegex (Bytes.cstr acRecvBuff) with
  | none =>
      rw [hgroups] at hsome
      cases hsome
  | some groups =>
      rw [hgroups] at hsome
      obtain rfl := Option.some.inj hsome
      have hcat := held_sdscat sds h
        ((acRecvBuff.drop groups.rmSo.toNat).take (groups.rmEo - groups.rmSo).toNat)
      dsimp only
      generalize sdscat sds m sFileName _ = cat at hcat ⊢
      have hlower := hcat.modify (·.map Bytes.toLower)
      rw [touch_of_mem hlower List.mem_cons_self]
      exact ⟨_, _, rfl, hlower⟩

theorem httpCheckAccessFile_held (fs : FileSystem) (h : Holds m ((sPath, []) :: (sFileName, name) :: live)) :
    ∃ sFileName' sPath' m',
      httpCheckAccessFile sds fs m sFileName sPath
        = ((Http.httpCheckAccessFile fs name []).found, sFileName', sPath', m') ∧
      Holds m' ((sPath', (Http.httpCheckAccessFile fs name []).sPath)
        :: (sFileName', (Http.httpCheckAccessFile fs name []).sFileName) :: live) := by
  have hname : (sFileName, name) ∈ (sPath, []) :: (sFileName, name) :: live :=
    List.mem_cons_of_mem _ List.mem_cons_self
  rw [httpCheckAccessFile, Http.httpCheckAccessFile]
  dsimp only
  rw [touch_of_mem h hname, h.read hname]
  dsimp only
  -- the name may move, the path does not matter to it
  have hdefault : Holds (if Bytes.cstr name = [] then sdscat sds m sFileName (Bytes.ascii "index.html")
        else (sFileName, m)).2
      ((sPath, []) :: ((if Bytes.cstr name = [] then sdscat sds m sFileName (Bytes.ascii "index.html")
        else (sFileName, m)).1,
        if Bytes.cstr name = [] then name ++ Bytes.ascii "index.html" else name) :: live) := by
    split
    · exact (held_sdscat sds (h.perm (List.Perm.swap _ _ _)) _).perm (List.Perm.swap _ _ _)
    · exact h
  revert hdefault
  generalize (if Bytes.cstr name = [] then sdscat sds m sFileName (Bytes.ascii "index.html")
    else (sFileName, m)) = named
  generalize (if Bytes.cstr name = [] then name ++ Bytes.ascii "index.html" else name) = text
  intro hdefault
  rw [hdefault.read (List.mem_cons_of_mem _ List.mem_cons_self)]
  have hpath := held_sdscat sds hdefault (cSearchPath ++ Bytes.ascii "/" ++ Bytes.cstr text)
  dsimp only
  rw [touch_of_mem hpath List.mem_cons_self, hpath.read List.mem_cons_self]
  dsimp only
  cases hfound : fs.access (Bytes.cstr ([] ++ (cSearchPath ++ Bytes.ascii "/" ++ Bytes.cstr text))) with
  | true =>
      rw [if_pos rfl]
      exact ⟨_, _, _, rfl, hpath⟩
  | false =>
      rw [if_neg Bool.false_ne_true, touch_of_mem hpath List.mem_cons_self]
      exact ⟨_, _, _, rfl, hpath⟩

theorem sendAnswer_held (h : Holds m ((acSendBuff, text) :: others)) :
    (sendAnswer m acSendBuff).1 = text ∧ Holds (sendAnswer m acSendBuff).2 others := by
  rw [sendAnswer, h.read List.mem_cons_self]
  exact ⟨rfl, h.free⟩

/-- The answer with a file, on texts. -/
def contentOf (fs : FileSystem) (mime path : Bytes) : Option Bytes :=
  match fs.openRdonly (Bytes.cstr path) with
  | none => some (headOk [] mime)
  | some file => Http.addContent fs.sds (headLength (headOk [] mime) file.stSize) file

theorem addContent_held (fs : FileSystem) {mime : Bytes} (h : Holds m ((acSendBuff, []) :: live))
    (hname : (sFileName, name) ∈ live) (hpath : (sPath, path) ∈ live) (hmime : (sMime, mime) ∈ live) :
    ∃ s text m', addContent sds fs m acSendBuff sFileName sPath sMime
        = ((contentOf fs mime path).map fun _ => s, m') ∧
      Holds m' ((s, text) :: live) ∧ ∀ answer, contentOf fs mime path = some answer → text = answer := by
  have hstatus := held_sdscat sds h (Bytes.ascii "HTTP/1.1 200 OK\r\n")
  rw [addContent]
  dsimp only
  rw [touch_of_mem h (List.mem_cons_of_mem _ hname)]
  generalize sdscat sds m acSendBuff _ = status at hstatus ⊢
  have htype := held_sdscat sds hstatus
    (Bytes.ascii "Content-Type: " ++ Bytes.cstr mime ++ Bytes.ascii "\r\n")
  rw [hstatus.read (List.mem_cons_of_mem _ hmime)]
  dsimp only
  generalize sdscat sds status.2 status.1 _ = type at htype ⊢
  have hok : Holds (sdscat sds type.2 type.1 (Bytes.ascii "Connection: Closed\r\n")).2
      (((sdscat sds type.2 type.1 (Bytes.ascii "Connection: Closed\r\n")).1, headOk [] mime) :: live) :=
    held_sdscat sds htype _
  generalize sdscat sds type.2 type.1 _ = ok at hok ⊢
  rw [hok.read (List.mem_cons_of_mem _ hpath), contentOf]
  dsimp only
  cases fs.openRdonly (Bytes.cstr path) with
  | none => exact ⟨_, _, _, rfl, hok, fun answer heq => Option.some.inj heq⟩
  | some file =>
      have hlength := held_sdscat sds hok
        (Bytes.ascii "Content-Length: " ++ Bytes.decimal file.stSize ++ Bytes.ascii "\r\n")
      dsimp only
      generalize sdscat sds ok.2 ok.1 _ = length at hlength ⊢
      have hhead : Holds (sdscat sds length.2 length.1 (Bytes.ascii "\r\n")).2
          (((sdscat sds length.2 length.1 (Bytes.ascii "\r\n")).1, headLength (headOk [] mime) file.stSize)
            :: live) := held_sdscat sds hlength _
      generalize sdscat sds length.2 length.1 _ = head at hhead ⊢
      rw [Http.addContent]
      cases file.roomFound with
      | false =>
          rw [if_neg Bool.false_ne_true, if_neg Bool.false_ne_true]
          exact ⟨head.1, _, head.2, rfl, hhead, fun answer heq => by cases heq⟩
      | true =>
          have hroom := held_sdsMakeRoomFor sds hhead file.stSize
          rw [if_pos rfl, if_pos rfl]
          generalize sdsMakeRoomFor sds head.2 head.1 file.stSize = room at hroom ⊢
          rw [hroom.read List.mem_cons_self]
          dsimp only
          cases fs.sds.sdsIncrLen (headLength (headOk [] mime) file.stSize) file.filled file.stSize with
          | none => exact ⟨room.1, _, room.2, rfl, hroom, fun answer heq => by cases heq⟩
          | some answer =>
              have hanswer := hroom.modify fun _ => answer
              dsimp only
              rw [touch_of_mem hanswer List.mem_cons_self]
              exact ⟨_, _, _, rfl, hanswer, fun answer heq => Option.some.inj heq⟩

/-- The type a name has. -/
def typeOf (name : Bytes) : Option Bytes :=
  (searchExt (Bytes.cstr name) none).bind fun cExt => mimeOfExt cExt.tail

theorem httpDetermineMime_typeOf (name : Bytes) : Http.httpDetermineMime name [] = typeOf name := by
  rw [Http.httpDetermineMime, typeOf]
  cases searchExt (Bytes.cstr name) none with
  | none => rfl
  | some cExt => simp only [List.nil_append, Option.map_id_fun', id_eq, Option.bind_some]

/-- The type of a name is appended where the string for it is. -/
def TypeStays (m : Arena Bytes) (name : Bytes) (sMime : Nat) : Prop :=
  ∀ mime, typeOf name = some mime → (sdscat sds m sMime mime).1 = sMime

/-! ### A request before its type is asked for -/

/-- A request that is no request is answered with nothing. -/
theorem prepare_of_unparsed (fs : FileSystem) (h : Holds m others)
    (hparse : Http.httpParseRequest acRecvBuff [] = none) :
    ∃ m', prepare sds fs acRecvBuff m = .answered [] m' ∧ Holds m' others := by
  have hbuff := held_sdsempty sds h
  rw [prepare]
  dsimp only
  generalize sdsempty sds m = buff at hbuff ⊢
  have hname := held_sdsempty sds hbuff
  generalize sdsempty sds buff.2 = named at hname ⊢
  rw [httpParseRequest_none sds hparse]
  obtain ⟨hmessage, hend⟩ := sendAnswer_held hname.free
  dsimp only
  rw [hmessage]
  exact ⟨_, rfl, hend⟩

theorem prepare_of_parsed (fs : FileSystem) (h : Holds m others)
    (hparse : Http.httpParseRequest acRecvBuff [] = some name) :
    ∃ acSendBuff sFileName sPath m',
      Holds m' ((sPath, (Http.httpCheckAccessFile fs name []).sPath)
        :: (sFileName, (Http.httpCheckAccessFile fs name []).sFileName) :: (acSendBuff, []) :: others) ∧
      prepare sds fs acRecvBuff m
        = if (Http.httpCheckAccessFile fs name []).found then
            .found acSendBuff sFileName sPath (sdsempty sds m').1 (sdsempty sds m').2
          else answerMissing sds m' acSendBuff sFileName sPath := by
  have hbuff := held_sdsempty sds h
  rw [prepare]
  dsimp only
  generalize sdsempty sds m = buff at hbuff ⊢
  have hempty := held_sdsempty sds hbuff
  generalize sdsempty sds buff.2 = named at hempty ⊢
  obtain ⟨sFileName, m₁, hparsed, hname⟩ := httpParseRequest_some sds hparse hempty
  have hnew := held_sdsempty sds hname
  rw [hparsed]
  dsimp only
  generalize sdsempty sds m₁ = room at hnew ⊢
  obtain ⟨sFileName', sPath', m₂, hchecked, hpath⟩ := httpCheckAccessFile_held sds fs hnew
  refine ⟨_, _, _, _, hpath, ?_⟩
  rw [hchecked]
  cases (Http.httpCheckAccessFile fs name []).found <;> rfl

/-- A request for a file that is not there is answered with `http_404`. -/
theorem prepare_of_missing {fs : FileSystem} (h : Holds m others)
    (hparse : Http.httpParseRequest acRecvBuff [] = some name)
    (hmissing : (Http.httpCheckAccessFile fs name []).found = false) :
    ∃ m', prepare sds fs acRecvBuff m = .answered (http404 []) m' ∧ Holds m' others := by
  obtain ⟨acSendBuff, sFileName, sPath, m₁, hheld, hprepare⟩ := prepare_of_parsed sds fs h hparse
  rw [hprepare, hmissing, if_neg Bool.false_ne_true, answerMissing]
  have hanswer := held_sdscat sds (hheld.perm
    (((List.Perm.swap _ _ _).cons _).trans (List.Perm.swap _ _ _))) (http404 [])
  dsimp only
  generalize sdscat sds m₁ acSendBuff _ = answer at hanswer ⊢
  obtain ⟨hmessage, hend⟩ := sendAnswer_held
    ((hanswer.perm ((List.Perm.swap _ _ _).trans ((List.Perm.swap _ _ _).cons _))).free.free)
  rw [hmessage]
  exact ⟨_, rfl, hend⟩

theorem prepare_of_found {fs : FileSystem} (h : Holds m others)
    (hparse : Http.httpParseRequest acRecvBuff [] = some name)
    (hfound : (Http.httpCheckAccessFile fs name []).found = true) :
    ∃ acSendBuff sFileName sPath sMime m',
      prepare sds fs acRecvBuff m = .found acSendBuff sFileName sPath sMime m' ∧
      Holds m' ((sMime, []) :: (sPath, (Http.httpCheckAccessFile fs name []).sPath)
        :: (sFileName, (Http.httpCheckAccessFile fs name []).sFileName) :: (acSendBuff, []) :: others) := by
  obtain ⟨acSendBuff, sFileName, sPath, m₁, hheld, hprepare⟩ := prepare_of_parsed sds fs h hparse
  rw [hprepare, hfound, if_pos rfl]
  exact ⟨_, _, _, _, _, rfl, held_sdsempty sds hheld⟩

/-! ### The rest of a request -/

theorem httpDetermineMime_of_none (h : Holds m live) (hname : (sFileName, name) ∈ live)
    (htype : typeOf name = none) : httpDetermineMime sds m sFileName sMime = (false, m) := by
  rw [typeOf] at htype
  rw [httpDetermineMime, h.read hname]
  dsimp only
  cases hext : searchExt (Bytes.cstr name) none with
  | none => rfl
  | some cExt =>
      rw [hext, Option.bind_some] at htype
      dsimp only
      rw [htype, touch_of_mem h hname]

theorem httpDetermineMime_of_some {mime : Bytes} (h : Holds m live) (hname : (sFileName, name) ∈ live)
    (htype : typeOf name = some mime) :
    httpDetermineMime sds m sFileName sMime = (true, (sdscat sds m sMime mime).2.touch sMime) := by
  rw [typeOf] at htype
  rw [httpDetermineMime, h.read hname]
  dsimp only
  cases hext : searchExt (Bytes.cstr name) none with
  | none =>
      rw [hext] at htype
      cases htype
  | some cExt =>
      rw [hext, Option.bind_some] at htype
      dsimp only
      rw [htype]

theorem answerFound_inPlace (fs : FileSystem)
    (h : Holds m ((sMime, []) :: (sPath, path) :: (sFileName, name) :: (acSendBuff, []) :: others))
    (hplace : TypeStays sds m name sMime) :
    (answerFound sds fs m acSendBuff sFileName sPath sMime).1
        = (typeOf name).elim (some []) (contentOf fs · path) ∧
    ∃ leaked, Holds (answerFound sds fs m acSendBuff sFileName sPath sMime).2 (leaked ++ others) ∧
      ((answerFound sds fs m acSendBuff sFileName sPath sMime).1.isSome → leaked = []) := by
  have hname : (sFileName, name) ∈ (sMime, []) :: (sPath, path) :: (sFileName, name) :: (acSendBuff, [])
      :: others := by simp
  rw [answerFound]
  cases htype : typeOf name with
  | none =>
      rw [httpDetermineMime_of_none sds h hname htype]
      obtain ⟨hmessage, hend⟩ := sendAnswer_held h.free.free.free
      dsimp only
      rw [hmessage]
      exact ⟨rfl, [], hend, fun _ => rfl⟩
  | some mime =>
      have htyped : Holds (sdscat sds m sMime mime).2 ((sMime, mime) :: (sPath, path) :: (sFileName, name)
          :: (acSendBuff, []) :: others) := by
        have hcat := held_sdscat sds h mime
        rwa [hplace mime htype] at hcat
      rw [httpDetermineMime_of_some sds h hname htype, touch_of_mem htyped List.mem_cons_self]
      have hfront :
          ([(sMime, mime), (sPath, path), (sFileName, name)] ++ (acSendBuff, ([] : Bytes)) :: others).Perm
            ((acSendBuff, []) :: ([(sMime, mime), (sPath, path), (sFileName, name)] ++ others)) :=
        List.perm_middle
      obtain ⟨s, text, m', hcontent, hheld, htext⟩ := addContent_held sds fs (htyped.perm hfront)
        (List.mem_cons_of_mem _ (List.mem_cons_of_mem _ List.mem_cons_self))
        (List.mem_cons_of_mem _ List.mem_cons_self) List.mem_cons_self
      dsimp only
      rw [hcontent, Option.elim_some]
      cases hanswer : contentOf fs mime path with
      | none =>
          exact ⟨rfl, (s, text) :: [(sMime, mime), (sPath, path), (sFileName, name)], hheld,
            fun hsome => by cases hsome⟩
      | some answer =>
          rw [htext answer hanswer] at hheld
          obtain ⟨hmessage, hend⟩ := sendAnswer_held (hheld.perm List.perm_middle.symm).free.free.free
          dsimp only [Option.map_some]
          rw [hmessage]
          exact ⟨rfl, [], hend, fun _ => rfl⟩

/-! ### What is wild stays wild -/

theorem sdsempty_wild (hwild : m.wild = true) : (sdsempty sds m).2.wild = true := sds.empty_wild hwild

theorem sdscat_wild (t : Bytes) (hwild : m.wild = true) : (sdscat sds m s t).2.wild = true :=
  sds.cat_wild t hwild

theorem sdsMakeRoomFor_wild (size : Int) (hwild : m.wild = true) :
    (sdsMakeRoomFor sds m s size).2.wild = true := sds.makeRoom_wild size hwild

theorem addContent_wild (fs : FileSystem) (hwild : m.wild = true) :
    (addContent sds fs m acSendBuff sFileName sPath sMime).2.wild = true := by
  have hstatus :
      (sdscat sds (m.touch sFileName) acSendBuff (Bytes.ascii "HTTP/1.1 200 OK\r\n")).2.wild = true :=
    sdscat_wild sds _ (Arena.touch_wild hwild)
  rw [addContent]
  dsimp only
  generalize sdscat sds (m.touch sFileName) acSendBuff _ = status at hstatus ⊢
  have htype := Arena.read_wild (a := sMime) hstatus
  generalize status.2.read sMime = type at htype ⊢
  have hok : (sdscat sds (sdscat sds type.2 status.1
      (Bytes.ascii "Content-Type: " ++ Bytes.cstr type.1 ++ Bytes.ascii "\r\n")).2
      (sdscat sds type.2 status.1
        (Bytes.ascii "Content-Type: " ++ Bytes.cstr type.1 ++ Bytes.ascii "\r\n")).1
      (Bytes.ascii "Connection: Closed\r\n")).2.wild = true := sdscat_wild sds _ (sdscat_wild sds _ htype)
  generalize sdscat sds (sdscat sds type.2 status.1 _).2 _ _ = ok at hok ⊢
  have hpath := Arena.read_wild (a := sPath) hok
  generalize ok.2.read sPath = path at hpath ⊢
  cases fs.openRdonly (Bytes.cstr path.1) with
  | none => exact hpath
  | some file =>
      dsimp only
      have hhead := sdscat_wild sds (s := (sdscat sds path.2 ok.1 (Bytes.ascii "Content-Length: "
        ++ Bytes.decimal file.stSize ++ Bytes.ascii "\r\n")).1) (Bytes.ascii "\r\n")
        (sdscat_wild sds (s := ok.1) (Bytes.ascii "Content-Length: " ++ Bytes.decimal file.stSize
          ++ Bytes.ascii "\r\n") hpath)
      generalize sdscat sds (sdscat sds path.2 ok.1 _).2 _ _ = head at hhead ⊢
      cases file.roomFound with
      | false => exact hhead
      | true =>
          have hroom := Arena.read_wild (a := (sdsMakeRoomFor sds head.2 head.1 file.stSize).1)
            (sdsMakeRoomFor_wild sds (s := head.1) file.stSize hhead)
          rw [if_pos rfl]
          cases fs.sds.sdsIncrLen _ file.filled file.stSize with
          | none => exact hroom
          | some answer => exact Arena.touch_wild (Arena.modify_wild _ hroom)

theorem sendAnswer_wild (hwild : m.wild = true) : (sendAnswer m acSendBuff).2.wild = true :=
  Arena.free_wild (Arena.read_wild hwild)

theorem httpParseRequest_wild (acRecvBuff : Bytes) (hwild : m.wild = true) :
    (httpParseRequest sds acRecvBuff m sFileName).2.2.wild = true := by
  rw [httpParseRequest]
  cases Regex.regexec requestRegex (Bytes.cstr acRecvBuff) with
  | none => exact hwild
  | some groups => exact Arena.touch_wild (Arena.modify_wild _ (sdscat_wild sds _ hwild))

theorem httpCheckAccessFile_wild (fs : FileSystem) (hwild : m.wild = true) :
    (httpCheckAccessFile sds fs m sFileName sPath).2.2.2.wild = true := by
  have hread := Arena.read_wild (a := sFileName) (Arena.touch_wild (a := sFileName) hwild)
  rw [httpCheckAccessFile]
  dsimp only
  generalize (m.touch sFileName).read sFileName = read at hread ⊢
  have hnamed : (if Bytes.cstr read.1 = [] then sdscat sds read.2 sFileName (Bytes.ascii "index.html")
      else (sFileName, read.2)).2.wild = true := by
    split
    · exact sdscat_wild sds _ hread
    · exact hread
  generalize (if Bytes.cstr read.1 = [] then sdscat sds read.2 sFileName (Bytes.ascii "index.html")
    else (sFileName, read.2)) = named at hnamed ⊢
  split
  · exact Arena.read_wild (Arena.touch_wild (sdscat_wild sds _ (Arena.read_wild hnamed)))
  · exact Arena.touch_wild (Arena.read_wild (Arena.touch_wild (sdscat_wild sds _ (Arena.read_wild hnamed))))

theorem httpDetermineMime_wild (hwild : m.wild = true) :
    (httpDetermineMime sds m sFileName sMime).2.wild = true := by
  rw [httpDetermineMime]
  cases searchExt (Bytes.cstr (m.read sFileName).1) none with
  | none => exact Arena.read_wild hwild
  | some cExt =>
      dsimp only
      cases mimeOfExt cExt.tail with
      | none => exact Arena.touch_wild (Arena.read_wild hwild)
      | some mime => exact Arena.touch_wild (sdscat_wild sds _ (Arena.read_wild hwild))

def Prepared.memory : Prepared → Arena Bytes
  | .answered _ m => m
  | .found _ _ _ _ m => m

theorem prepare_wild (fs : FileSystem) (acRecvBuff : Bytes) (hwild : m.wild = true) :
    (prepare sds fs acRecvBuff m).memory.wild = true := by
  rw [prepare]
  dsimp only
  have hnamed : (sdsempty sds (sdsempty sds m).2).2.wild = true :=
    sdsempty_wild sds (sdsempty_wild sds hwild)
  generalize sdsempty sds (sdsempty sds m).2 = named at hnamed ⊢
  have hparsed : (httpParseRequest sds acRecvBuff named.2 named.1).2.2.wild = true :=
    httpParseRequest_wild sds acRecvBuff hnamed
  cases hparse : httpParseRequest sds acRecvBuff named.2 named.1 with
  | mk parsed rest =>
      rw [hparse] at hparsed
      cases parsed with
      | false => exact sendAnswer_wild (Arena.free_wild hparsed)
      | true =>
          dsimp only at hparsed ⊢
          have hpath : (sdsempty sds rest.2).2.wild = true := sdsempty_wild sds hparsed
          generalize sdsempty sds rest.2 = room at hpath ⊢
          have hchecked : (httpCheckAccessFile sds fs room.2 rest.1 room.1).2.2.2.wild = true :=
            httpCheckAccessFile_wild sds fs hpath
          cases hcheck : httpCheckAccessFile sds fs room.2 rest.1 room.1 with
          | mk found checked =>
              rw [hcheck] at hchecked
              cases found with
              | true => exact sdsempty_wild sds hchecked
              | false => exact sendAnswer_wild (Arena.free_wild (Arena.free_wild (sdscat_wild sds _ hchecked)))

theorem answerFound_wild (fs : FileSystem)
    (hwild : (httpDetermineMime sds m sFileName sMime).2.wild = true) :
    (answerFound sds fs m acSendBuff sFileName sPath sMime).2.wild = true := by
  rw [answerFound]
  cases hmime : httpDetermineMime sds m sFileName sMime with
  | mk known typed =>
      rw [hmime] at hwild
      cases known with
      | false => exact sendAnswer_wild (Arena.free_wild (Arena.free_wild (Arena.free_wild hwild)))
      | true =>
          have hcontent : (addContent sds fs typed acSendBuff sFileName sPath sMime).2.wild = true :=
            addContent_wild sds fs hwild
          dsimp only
          cases hanswer : addContent sds fs typed acSendBuff sFileName sPath sMime with
          | mk answer content =>
              rw [hanswer] at hcontent
              cases answer with
              | none => exact hcontent
              | some s => exact sendAnswer_wild (Arena.free_wild (Arena.free_wild (Arena.free_wild hcontent)))

theorem httpHandleClientRequest_wild (fs : FileSystem) (acRecvBuff : Bytes) (hwild : m.wild = true) :
    (httpHandleClientRequest sds fs acRecvBuff m).2.wild = true := by
  have hprepared := prepare_wild sds fs acRecvBuff hwild
  rw [httpHandleClientRequest]
  cases hprepare : prepare sds fs acRecvBuff m with
  | answered message m' =>
      rw [hprepare] at hprepared
      exact hprepared
  | found acSendBuff sFileName sPath sMime m' =>
      rw [hprepare] at hprepared
      exact answerFound_wild sds fs (httpDetermineMime_wild sds hprepared)

theorem serve_wild (requests : List (FileSystem × Bytes)) (hwild : m.wild = true) :
    (serve sds requests m).2.wild = true := by
  induction requests generalizing m with
  | nil => exact hwild
  | cons request requests ih =>
      have hhandled := httpHandleClientRequest_wild sds request.1 request.2 hwild
      rw [serve]
      cases hanswer : httpHandleClientRequest sds request.1 request.2 m with
      | mk sent m' =>
          rw [hanswer] at hhandled
          cases sent with
          | none => exact hhandled
          | some message => exact ih hhandled

/-! ### Whether a type is appended in place -/

/-- If the file is there and its type is known, `realloc` finds the room for the type behind the empty
string. -/
def InPlace (fs : FileSystem) (acRecvBuff : Bytes) (m : Arena Bytes) : Prop :=
  match prepare sds fs acRecvBuff m with
  | .answered _ _ => True
  | .found _ sFileName _ sMime m =>
      TypeStays sds m (m.read sFileName).1 sMime

theorem answerFound_moves (fs : FileSystem)
    (h : Holds m ((sMime, []) :: (sPath, path) :: (sFileName, name) :: (acSendBuff, []) :: others))
    (hmoves : ¬ TypeStays sds m name sMime) :
    (answerFound sds fs m acSendBuff sFileName sPath sMime).2.wild = true := by
  obtain ⟨mime, hmoves⟩ := not_forall.mp hmoves
  obtain ⟨htype, hmoved⟩ := Classical.not_imp.mp hmoves
  have hname : (sFileName, name) ∈ (sMime, []) :: (sPath, path) :: (sFileName, name) :: (acSendBuff, [])
      :: others := by simp
  apply answerFound_wild sds fs
  rw [httpDetermineMime_of_some sds h hname htype]
  -- the caller's pointer is none of those there are
  apply (held_sdscat sds h mime).touch_of_not_mem
  rw [List.map_cons, List.mem_cons, not_or]
  exact ⟨Ne.symm hmoved, (List.nodup_cons.mp h.nodup).1⟩

/-- One request: the answer on texts, and all strings freed, if the type is appended in place; and wild
memory if it is not. -/
theorem httpHandleClientRequest_strings (fs : FileSystem) (acRecvBuff : Bytes) (h : Holds m others) :
    (InPlace sds fs acRecvBuff m →
      (httpHandleClientRequest sds fs acRecvBuff m).1 = (Http.httpHandleClientRequest fs acRecvBuff).sent ∧
      ∃ leaked, Holds (httpHandleClientRequest sds fs acRecvBuff m).2 (leaked ++ others) ∧
        ((httpHandleClientRequest sds fs acRecvBuff m).1.isSome → leaked = [])) ∧
    (¬ InPlace sds fs acRecvBuff m → (httpHandleClientRequest sds fs acRecvBuff m).2.wild = true) := by
  rw [InPlace, httpHandleClientRequest, Http.httpHandleClientRequest]
  cases hparse : Http.httpParseRequest acRecvBuff [] with
  | none =>
      obtain ⟨m', hprepare, hend⟩ := prepare_of_unparsed sds fs h hparse
      rw [hprepare]
      exact ⟨fun _ => ⟨rfl, [], hend, fun _ => rfl⟩, fun hnot => absurd trivial hnot⟩
  | some name =>
      dsimp only
      cases hfound : (Http.httpCheckAccessFile fs name []).found with
      | false =>
          obtain ⟨m', hprepare, hend⟩ := prepare_of_missing sds h hparse hfound
          rw [hprepare]
          exact ⟨fun _ => ⟨rfl, [], hend, fun _ => rfl⟩, fun hnot => absurd trivial hnot⟩
      | true =>
          obtain ⟨acSendBuff, sFileName, sPath, sMime, m', hprepare, hheld⟩ :=
            prepare_of_found sds h hparse hfound
          have hread := hheld.read (List.mem_cons_of_mem _ (List.mem_cons_of_mem _ List.mem_cons_self))
          rw [hprepare, if_pos rfl, httpDetermineMime_typeOf]
          dsimp only
          rw [hread]
          refine ⟨fun hplace => ?_, fun hnot => ?_⟩
          · obtain ⟨hsent, hleaked⟩ := answerFound_inPlace sds fs hheld hplace
            refine ⟨hsent.trans ?_, hleaked⟩
            cases typeOf (Http.httpCheckAccessFile fs name []).sFileName with
            | none => rfl
            | some mime =>
                rw [Option.elim_some, contentOf]
                dsimp only
                cases fs.openRdonly (Bytes.cstr (Http.httpCheckAccessFile fs name []).sPath) <;> rfl
          · exact answerFound_moves sds fs hheld hnot

/-! ### The requests of a process -/

/-- Every type that is found along the requests is appended in place. -/
def AllInPlace : List (FileSystem × Bytes) → Arena Bytes → Prop
  | [], _ => True
  | (fs, acRecvBuff) :: requests, m =>
      InPlace sds fs acRecvBuff m ∧
        ((httpHandleClientRequest sds fs acRecvBuff m).1.isSome →
          AllInPlace requests (httpHandleClientRequest sds fs acRecvBuff m).2)

/-- The answers on texts, until an assertion ends the process. -/
def answers : List (FileSystem × Bytes) → List Bytes
  | [] => []
  | (fs, acRecvBuff) :: requests =>
      (Http.httpHandleClientRequest fs acRecvBuff).sent.elim [] fun message => message :: answers requests

theorem serve_inPlace (h : Holds m others) (requests : List (FileSystem × Bytes))
    (hplace : AllInPlace sds requests m) :
    (serve sds requests m).1 = answers requests ∧
    ∃ leaked, Holds (serve sds requests m).2 (leaked ++ others) ∧
      ((∀ request ∈ requests, (Http.httpHandleClientRequest request.1 request.2).sent.isSome) →
        leaked = []) := by
  induction requests generalizing m with
  | nil => exact ⟨rfl, [], h, fun _ => rfl⟩
  | cons request requests ih =>
      obtain ⟨fs, acRecvBuff⟩ := request
      obtain ⟨hfirst, hrest⟩ := hplace
      obtain ⟨hsent, leaked, hheld, hleaked⟩ := (httpHandleClientRequest_strings sds fs acRecvBuff h).1 hfirst
      rw [serve, answers, ← hsent]
      cases hanswer : httpHandleClientRequest sds fs acRecvBuff m with
      | mk sent m' =>
          rw [hanswer] at hsent hheld hleaked hrest
          cases sent with
          | none =>
              refine ⟨rfl, leaked, hheld, fun hall => ?_⟩
              have hsome := hall _ List.mem_cons_self
              rw [← hsent] at hsome
              cases hsome
          | some message =>
              obtain rfl := hleaked rfl
              obtain ⟨hanswers, leaked', hheld', hleaked'⟩ := ih hheld (hrest rfl)
              refine ⟨congrArg (message :: ·) hanswers, leaked', hheld', fun hall => ?_⟩
              exact hleaked' fun request hmem => hall request (List.mem_cons_of_mem _ hmem)

theorem serve_moves (h : Holds m others) (requests : List (FileSystem × Bytes))
    (hmoves : ¬ AllInPlace sds requests m) : (serve sds requests m).2.wild = true := by
  induction requests generalizing m with
  | nil => exact absurd trivial hmoves
  | cons request requests ih =>
      obtain ⟨fs, acRecvBuff⟩ := request
      obtain ⟨hkept, hlost⟩ := httpHandleClientRequest_strings sds fs acRecvBuff h
      rw [AllInPlace] at hmoves
      rw [serve]
      by_cases hfirst : InPlace sds fs acRecvBuff m
      · obtain ⟨-, leaked, hheld, hleaked⟩ := hkept hfirst
        obtain ⟨hsome, hrest⟩ := Classical.not_imp.mp (not_and.mp hmoves hfirst)
        obtain rfl := hleaked hsome
        cases hanswer : httpHandleClientRequest sds fs acRecvBuff m with
        | mk sent m' =>
            rw [hanswer] at hsome hrest hheld
            cases sent with
            | none => cases hsome
            | some message => exact ih hheld hrest
      · have hwild := hlost hfirst
        cases hanswer : httpHandleClientRequest sds fs acRecvBuff m with
        | mk sent m' =>
            rw [hanswer] at hwild
            cases sent with
            | none => exact hwild
            | some message => exact serve_wild sds requests hwild

/-- Over any requests and with any files, however sds places its strings, as long as it finds the memory
for them: no string is used after it was freed or freed twice exactly if every type that is found is
appended in place. Then what is sent is what the functions on texts say, and every string is freed, but for
those of a process that ends in a request. -/
theorem requests_strings (h : Holds m others) (requests : List (FileSystem × Bytes)) :
    ((serve sds requests m).2.wild = false ↔ AllInPlace sds requests m) ∧
    (AllInPlace sds requests m →
      (serve sds requests m).1 = answers requests ∧
      ∃ leaked, Holds (serve sds requests m).2 (leaked ++ others) ∧
        ((∀ request ∈ requests, (Http.httpHandleClientRequest request.1 request.2).sent.isSome) →
          leaked = [])) := by
  refine ⟨⟨fun htame => ?_, fun hplace => ?_⟩, serve_inPlace sds h requests⟩
  · by_contra hmoves
    exact Bool.false_ne_true (htame.symm.trans (serve_moves sds h requests hmoves))
  · obtain ⟨-, leaked, hheld, -⟩ := serve_inPlace sds h requests hplace
    exact hheld.tame

/-- When a type is asked for, its string is empty. -/
theorem inPlace_iff_of_found {fs : FileSystem} (h : Holds m others)
    (hparse : Http.httpParseRequest acRecvBuff [] = some name)
    (hfound : (Http.httpCheckAccessFile fs name []).found = true) :
    ∃ (m' : Arena Bytes) (sMime : Nat) (live : List (Nat × Bytes)), Holds m' ((sMime, []) :: live) ∧
      (InPlace sds fs acRecvBuff m
        ↔ TypeStays sds m' (Http.httpCheckAccessFile fs name []).sFileName sMime) := by
  obtain ⟨acSendBuff, sFileName, sPath, sMime, m', hprepare, hheld⟩ := prepare_of_found sds h hparse hfound
  refine ⟨m', sMime, _, hheld, ?_⟩
  rw [InPlace, hprepare]
  dsimp only
  rw [hheld.read (List.mem_cons_of_mem _ (List.mem_cons_of_mem _ List.mem_cons_self))]

/-- An sds that has room for a type behind an empty string. -/
theorem allInPlace_of_roomy
    (hroomy : ∀ (m : Arena Bytes) (s : Nat) (t : Bytes), m.cells s = some [] → (sdscat sds m s t).1 = s)
    (h : Holds m others) (requests : List (FileSystem × Bytes)) : AllInPlace sds requests m := by
  induction requests generalizing m with
  | nil => trivial
  | cons request requests ih =>
      obtain ⟨fs, acRecvBuff⟩ := request
      have hfirst : InPlace sds fs acRecvBuff m := by
        cases hparse : Http.httpParseRequest acRecvBuff [] with
        | none =>
            obtain ⟨m', hprepare, -⟩ := prepare_of_unparsed sds fs h hparse
            rw [InPlace, hprepare]
            trivial
        | some name =>
            cases hfound : (Http.httpCheckAccessFile fs name []).found with
            | false =>
                obtain ⟨m', hprepare, -⟩ := prepare_of_missing sds h hparse hfound
                rw [InPlace, hprepare]
                trivial
            | true =>
                obtain ⟨m', sMime, live, hheld, hiff⟩ := inPlace_iff_of_found sds h hparse hfound
                exact hiff.mpr fun _ _ => hroomy _ _ _ (hheld.cell_of_mem List.mem_cons_self)
      obtain ⟨-, leaked, hheld, hleaked⟩ := (httpHandleClientRequest_strings sds fs acRecvBuff h).1 hfirst
      refine ⟨hfirst, fun hsome => ?_⟩
      obtain rfl := hleaked hsome
      exact ih hheld

/-- An sds on `malloc` and `realloc`. -/
def SdsStrings.onHeap (r : Reallocator Bytes) : SdsStrings where
  new m := m.alloc r.toAllocator []
  append m s t := m.grow r s (· ++ t)
  reserve m s _ := m.grow r s id
  empty h := h.alloc r.toAllocator []
  cat h t := h.grow r (· ++ t)
  makeRoom h _ := h.grow r id
  empty_wild hwild := Arena.alloc_wild r.toAllocator [] hwild
  cat_wild _ hwild := Arena.grow_wild r _ hwild
  makeRoom_wild _ hwild := Arena.grow_wild r id hwild

/-- The room behind a string is always found, or never. -/
noncomputable def someSds (stays : Bool) : SdsStrings :=
  .onHeap { toAllocator := .anywhere, stays := fun _ _ _ => stays }

/-- Two requests for a page, with either kind. -/
theorem requests_strings_page :
    (serve (someSds true) (List.replicate 2 (oneFile 4 (Bytes.ascii "page"), indexRequest))
        ⟨fun _ => none, 0, false⟩).1
      = answers (List.replicate 2 (oneFile 4 (Bytes.ascii "page"), indexRequest)) ∧
    (serve (someSds false) (List.replicate 2 (oneFile 4 (Bytes.ascii "page"), indexRequest))
        ⟨fun _ => none, 0, false⟩).2.wild = true := by
  have hempty : Holds (⟨fun _ => none, 0, false⟩ : Arena Bytes) [] :=
    ⟨rfl, List.nodup_nil, fun a text => by simp⟩
  have hroomy : ∀ (m : Arena Bytes) (s : Nat) (t : Bytes), m.cells s = some [] →
      (sdscat (someSds true) m s t).1 = s := fun m s t hcell => Arena.grow_fst_of_stays _ hcell rfl
  refine ⟨((requests_strings _ hempty _).2 (allInPlace_of_roomy _ hroomy hempty _)).1, ?_⟩
  apply Bool.eq_true_of_not_eq_false
  intro htame
  have hplace := ((requests_strings _ hempty _).1.mp htame).1
  have hparse : Http.httpParseRequest indexRequest [] = some [] := by decide
  have hfound : (Http.httpCheckAccessFile (oneFile 4 (Bytes.ascii "page")) [] []).found = true := rfl
  obtain ⟨m', sMime, live, hheld, hiff⟩ := inPlace_iff_of_found (someSds false) hempty hparse hfound
  have htype : typeOf (Bytes.ascii "index.html") = some (Bytes.ascii "text/html") := by
    rw [typeOf, searchExt_eq]
    rfl
  exact hheld.grow_fst_of_moves (· ++ Bytes.ascii "text/html") rfl (hiff.mp hplace _ htype)

end CewServer.Http.Strings
