import CewServer.Logger.Fork
import CewServer.Logger.Flush
import Mathlib.Data.List.Perm.Subperm

/-!
# Log output after a fork

The buffer of the open stream is copied by `fork` and both copies are written out: the master's by
its `logger_thread`, the child's by the `fclose` in `logger_destroy`. A step of the child never
changes the messages it holds on disk or in the buffer together, so these are the ones it was forked
with. If the buffer is empty at each fork, nothing is written twice; and a child that inherited
messages has written them a second time once it has closed the stream and the master has caught up.

`logger_flush` makes the buffer empty when it sees the count at zero. It also returns after twenty
polls, with `logger_thread` anywhere in its batch.
-/

namespace CewServer.Logger

open Transition

variable {s : Forks} {c d : Child}

/-- What a process has brought to the file. `exit` writes out the buffers of the open streams. -/
def Session.onDisk {p : Nat} (s : Session p) : List Bytes :=
  if s.exited then s.written else s.logfile

/-- The file after the messages of the master and of the children, in any order. -/
def Forks.file (s : Forks) : List Bytes :=
  s.master.session.onDisk ++ s.children.flatMap fun c => c.copy.session.onDisk

/-- No message is in the file more often than it was accepted in the master. -/
def NoDuplicates (s : Forks) : Prop := s.file.Subperm s.master.session.inserted

/-- At each fork, nothing that was written is still in the buffer of the stream. -/
def BufferEmptyAtFork (s : Forks) : ForkLabel → Prop
  | .fork _ => s.master.session.LogfileFd.getD [] = []
  | l => ForkKept s l

theorem BufferEmptyAtFork.forkKept {l : ForkLabel} (h : BufferEmptyAtFork s l) : ForkKept s l := by
  cases l with
  | master l => exact h
  | fork pid => trivial
  | child k acTime o => trivial

/-! ### The messages of a process -/

section Session

variable {p : Nat} {i : Fin p} {s t : Session p}

theorem onDisk_sublist_written (s : Session p) : s.onDisk.Sublist s.written := by
  unfold Session.onDisk
  split
  · exact List.Sublist.refl _
  · exact List.sublist_append_left _ _

theorem onDisk_eq_written (hclosed : s.LogfileFd = none) : s.onDisk = s.written := by
  unfold Session.onDisk
  split
  · rfl
  · simp only [Session.written, hclosed, Option.getD_none, List.append_nil]

theorem written_of_threadMove (hmove : ThreadMove s i t) : t.written = s.written := by
  cases hmove with
  | closeStream hpc => simp [Session.written, Session.closeFile]
  | _ => rfl

theorem written_sublist_inserted (hs : Reachable (session p) SettingsKept s) :
    s.written.Sublist s.inserted := by
  obtain ⟨c, -, hcarries⟩ := session_refines_channel hs
  rw [← hcarries.received, ← hcarries.sent]
  exact c.received_isPrefix_sent.sublist

end Session

/-- A child has on disk or in its buffer what it inherited, and nothing else. -/
def Child.Holds (c : Child) : Prop := c.copy.session.written = c.inherited

theorem Child.Holds.of_move (h : c.Holds) (hmove : ChildMove c d) : d.Holds := by
  cases hmove with
  | announce iRet hpc hnext => exact h
  | destroy iRet hpc hnext => exact h
  | inside x hmove =>
      cases hmove with
      | lock hpc hfree => exact h
      | leave m t hpc hheld hm hmove => exact (written_of_threadMove hmove).trans h
      | unlock t hpc hmove => exact (written_of_threadMove hmove).trans h
      | apart t hpc hmove => exact (written_of_threadMove hmove).trans h

theorem child_holds {promise : Forks → ForkLabel → Prop} (hs : Reachable forks promise s) :
    ∀ c ∈ s.children, c.Holds := by
  refine children_invariant ?_ (fun c d h hmove => h.of_move hmove) hs
  intro s pid _ _ _
  exact List.nil_append _

theorem inherited_nil (hs : Reachable forks BufferEmptyAtFork s) :
    ∀ c ∈ s.children, c.inherited = [] := by
  refine children_invariant (fun s pid _ hempty _ => hempty) ?_ hs
  intro c d h hmove
  cases hmove <;> exact h

/-! ### Twice in the file, or not -/

theorem file_of_inherited_nil (hholds : ∀ c ∈ s.children, c.Holds)
    (hnil : ∀ c ∈ s.children, c.inherited = []) : s.file = s.master.session.onDisk := by
  have hchildren : (s.children.flatMap fun c => c.copy.session.onDisk) = [] := by
    rw [List.flatMap_eq_nil_iff]
    intro c hc
    have hwritten : c.copy.session.written = [] := (hholds c hc).trans (hnil c hc)
    exact List.sublist_nil.mp (hwritten ▸ onDisk_sublist_written c.copy.session)
  rw [Forks.file, hchildren, List.append_nil]

/-- Once the master has caught up, a child that has closed the stream must have found it empty. -/
theorem inherited_nil_of_noDuplicates (hs : Reachable forks ForkKept s)
    (hopen : s.master.session.iIsInitDone = true) (hstands : s.master.session.CountStands)
    (hzero : s.master.session.iDataInQueueCount = 0) (hone : NoDuplicates s) (hc : c ∈ s.children)
    (hclosed : c.copy.session.LogfileFd = none) : c.inherited = [] := by
  obtain ⟨-, -, hnone, hall⟩ := drained_of_count_zero (master_reachable hs) hopen hstands hzero
  have hmaster : s.master.session.onDisk = s.master.session.inserted := by
    rw [onDisk_eq_written hnone, Session.written, hnone, hall]
    exact List.append_nil _
  have hchild : c.copy.session.onDisk = c.inherited :=
    (onDisk_eq_written hclosed).trans (child_holds hs c hc)
  have hlength := hone.length_le
  rw [Forks.file, List.length_append, hmaster] at hlength
  have hmem : c.inherited.length ≤ (s.children.flatMap fun c => c.copy.session.onDisk).length := by
    have hin : c.copy.session.onDisk ∈ s.children.map fun c => c.copy.session.onDisk :=
      List.mem_map.mpr ⟨c, hc, rfl⟩
    rw [← hchild, List.flatMap_def]
    exact (List.sublist_flatten_of_mem hin).length_le
  exact List.length_eq_zero_iff.mp (by omega)

/-- Nothing is in the file twice if the buffer is empty at each fork. In any run, a child that has
closed the stream it inherited with messages in it has put them there a second time, as is seen when
the master has written all it accepted. -/
theorem forks_noDuplicates (s : Forks) :
    (Reachable forks BufferEmptyAtFork s → NoDuplicates s) ∧
      (Reachable forks ForkKept s → s.master.session.iIsInitDone = true →
        s.master.session.CountStands → s.master.session.iDataInQueueCount = 0 →
        ∀ c ∈ s.children, c.copy.session.LogfileFd = none → c.inherited ≠ [] →
          ¬ NoDuplicates s) := by
  constructor
  · intro hs
    have hmaster := master_reachable (hs.mono fun _ _ => BufferEmptyAtFork.forkKept)
    unfold NoDuplicates
    rw [file_of_inherited_nil (child_holds hs) (inherited_nil hs)]
    exact ((onDisk_sublist_written _).trans (written_sublist_inserted hmaster)).subperm
  · intro hs hopen hstands hzero c hc hclosed hinherited hone
    exact hinherited (inherited_nil_of_noDuplicates hs hopen hstands hzero hone hc hclosed)

/-! ### A master with one child -/

instance (s : Forks) : (l : ForkLabel) → Decidable (BufferEmptyAtFork s l)
  | .fork _ => inferInstanceAs (Decidable (s.master.session.LogfileFd.getD [] = []))
  | .child _ _ _ => inferInstanceAs (Decidable True)
  | .master (.call _ (.loggerSet settings)) =>
      inferInstanceAs (Decidable (0 ≤ settings.iBulkWrite ∧
        settings.iLoggerQueueSize + (1 : Nat) < 2 ^ 31 - 1))
  | .master (.call _ (.logMsg _ _)) | .master (.call _ .loggerFlush)
  | .master (.call _ .loggerDestroy) | .master (.writer _) | .master .cancel
  | .master (.thread _ _ _) => inferInstanceAs (Decidable True)

/-- `logger_flush` sees the queue drained; the child runs `logger_destroy` to its end. -/
def forkAfterDrain : List ForkLabel :=
  addingWorker ++ masterWriter 16 ++ masterFlush 2 ++ .fork 2 :: firstChild 42

theorem forks_noDuplicates_afterDrain :
    ∃ s, Reachable forks BufferEmptyAtFork s ∧ s.children.map Child.next = [.reopen] ∧
      s.file = [Bytes.ascii "now : Debug : Adding worker 0 to system.\n",
        Bytes.ascii "now : Debug : psWorker 0 @ 0x5C0\n"] ∧ NoDuplicates s := by
  have hinit : Reachable forks BufferEmptyAtFork debugMaster := .init debugMaster_init
  obtain ⟨s, hrun, hchildren, hfile⟩ : ∃ s, forks.runKeeping BufferEmptyAtFork debugMaster
      forkAfterDrain = some s ∧ s.children.map Child.next = [.reopen] ∧
      s.file = [Bytes.ascii "now : Debug : Adding worker 0 to system.\n",
        Bytes.ascii "now : Debug : psWorker 0 @ 0x5C0\n"] :=
    ⟨_, rfl, by decide, by decide⟩
  have hs := hinit.runKeeping hrun
  exact ⟨s, hs, hchildren, hfile, (forks_noDuplicates s).1 hs⟩

/-- `logger_flush` gives up while `logger_thread` is at `fflush`, which it calls after the child's
`logger_destroy`. -/
def forkInBatch : List ForkLabel :=
  addingWorker ++ masterWriter 12 ++ masterFlush 22 ++ .fork 2 :: firstChild 42 ++ masterWriter 4

theorem forks_duplicate : ¬ ∀ s, Reachable forks ForkKept s → NoDuplicates s := by
  intro hone
  have hinit : Reachable forks ForkKept debugMaster := .init debugMaster_init
  obtain ⟨s, hrun, hfile, hinserted⟩ : ∃ s, forks.run debugMaster forkInBatch = some s ∧
      s.file.length = 4 ∧ s.master.session.inserted.length = 2 := ⟨_, rfl, by decide, by decide⟩
  have hkept : ∀ l ∈ forkInBatch, ∀ s, ForkKept s l := by
    simp [forkInBatch, addingWorker, masterDebug, masterFlush, masterThread, masterWriter, firstChild,
      ForkKept, SettingsKept]
  have hlength := (hone s (hinit.run hkept hrun)).length_le
  omega

end CewServer.Logger
