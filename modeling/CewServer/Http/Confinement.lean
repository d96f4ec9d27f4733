import CewServer.Http.Response
import CewServer.Lib.Path

/-!
# Which files a request can reach

The path that is opened is the search path, a slash and the requested name, and the name is any text
without a space. Normalised, the path goes on from the document root with the components of the name,
so whether it ends inside is a question about the name alone: the `..` components may climb out of the
document root, and nothing in `http_check_access_file` or in the test for the extension stops them.
-/

namespace CewServer.Http

open Path

def documentRoot : List Bytes := normalise cSearchPath

def Confined (path : Bytes) : Prop := Inside documentRoot (normalise path)

instance (path : Bytes) : Decidable (Confined path) :=
  inferInstanceAs (Decidable (Inside documentRoot (normalise path)))

/-- A name whose components, taken from the document root, lead out of it by no more levels than they
come back in by. -/
def StaysInRoot (sFileName : Bytes) : Prop := (climb (steps sFileName)).Returns documentRoot

theorem confined_servedPath_iff (sFileName : Bytes) :
    Confined (servedPath sFileName) ↔ StaysInRoot sFileName := by
  rw [Confined, servedPath, normalise_below]
  exact inside_walk_iff documentRoot (steps sFileName)

/-- A request whose file is opened: each of the four conditions holds. -/
structure Opens (fs : FileSystem) (acRecvBuff sFileName : Bytes) : Prop where
  requested : requestedName acRecvBuff = some sFileName
  found : fs.access (servedPath sFileName) = true
  typed : (mimeOfName sFileName).isSome
  opened : (fs.openRdonly (servedPath sFileName)).isSome

theorem opened_iff (fs : FileSystem) (acRecvBuff path : Bytes) :
    (∃ file, (httpHandleClientRequest fs acRecvBuff).opened = some (path, file))
      ↔ ∃ sFileName, Opens fs acRecvBuff sFileName ∧ path = servedPath sFileName := by
  constructor
  · rintro ⟨file, hopened⟩
    obtain ⟨sFileName, sMime, hname, hfound, hmime, hfile, hpath⟩ := open_of_opened hopened
    refine ⟨sFileName, ⟨hname, hfound, ?_, ?_⟩, hpath⟩
    · rw [hmime]; rfl
    · rw [hfile]; rfl
  · rintro ⟨sFileName, ⟨hname, hfound, hmime, hfile⟩, rfl⟩
    obtain ⟨sMime, hmime⟩ := Option.isSome_iff_exists.mp hmime
    obtain ⟨file, hfile⟩ := Option.isSome_iff_exists.mp hfile
    refine ⟨file, ?_⟩
    rw [httpHandleClientRequest_of_open hname hfound hmime hfile]

/-- The file a request opens lies inside the document root exactly when the requested name stays
there. -/
theorem opened_confined_iff (fs : FileSystem) (acRecvBuff : Bytes) :
    (∀ path file, (httpHandleClientRequest fs acRecvBuff).opened = some (path, file) →
        Confined path)
      ↔ ∀ sFileName, Opens fs acRecvBuff sFileName → StaysInRoot sFileName := by
  constructor
  · intro hconfined sFileName hopens
    obtain ⟨file, hopened⟩ := (opened_iff fs acRecvBuff _).mpr ⟨sFileName, hopens, rfl⟩
    exact (confined_servedPath_iff sFileName).mp (hconfined _ file hopened)
  · intro hstays path file hopened
    obtain ⟨sFileName, hopens, rfl⟩ := (opened_iff fs acRecvBuff path).mp ⟨file, hopened⟩
    exact (confined_servedPath_iff sFileName).mpr (hstays sFileName hopens)

def everythingReadable : FileSystem where
  access _ := true
  openRdonly _ := some
    { fd := 7, fstat := some 4, staleSize := 0, roomFound := true,
      content := some (Bytes.ascii "page"), room := fun _ => 0 }
  sds := .plain

theorem opened_not_confined :
    ¬ ∀ (fs : FileSystem) (acRecvBuff path : Bytes) (file : OpenedFile), 0 ∈ acRecvBuff.take 4096 →
      (httpHandleClientRequest fs acRecvBuff).opened = some (path, file) → Confined path := by
  intro hconfined
  have hescapes := hconfined everythingReadable
    (Bytes.ascii "GET /../../etc/x.html HTTP/1.1\r\n\r\n" ++ [0])
    (Bytes.ascii "/opt/www/../../etc/x.html") _ (by decide) (by rw [httpHandleClientRequest_eq]; rfl)
  exact absurd hescapes (by decide)

end CewServer.Http
