import CewServer.Logger.Moves
import Mathlib.Data.Fintype.Card

/-!
# The count of the queue

`iDataInQueueCount` runs ahead of the queue while a batch is written: each entry is removed at once
and the count is lowered at the end. What ties the two together is how many entries the batch has
removed, and what keeps the head that `logger_thread` reads without the mutex from being NULL is that
a batch never asks for more entries than are still queued. `Accounted` states both, with the bound
that keeps the 32-bit count from wrapping: each thread past the size check adds one entry.
-/

namespace CewServer.Logger

variable {p : Nat} {s t : Session p} {i : Fin p}

/-- The entries removed from the queue in the writer's current batch. -/
def WriterPc.popped : WriterPc → Nat
  | .openFile b | .bodyTop b | .removeHead b _ | .writeEntry b _ | .flushFile b | .closeFile b
  | .updateCount b => b.popped
  | .poll | .tryLock | .cancelled => 0

/-- Past the size check and before the insertion. -/
def ThreadPc.inserting : ThreadPc → Bool
  | .insertTail _ _ => true
  | _ => false

/-- In `logger_destroy`, after `pthread_join`. -/
def ThreadPc.hasJoined : ThreadPc → Bool
  | .closeStream | .freeQueue _ | .resetCount | .finish => true
  | _ => false

@[simp] theorem afterLog_inserting (caller : Caller) (iRet : LogRet) :
    (caller.afterLog iRet).inserting = false := by cases caller <;> rfl

@[simp] theorem afterLog_hasJoined (caller : Caller) (iRet : LogRet) :
    (caller.afterLog iRet).hasJoined = false := by cases caller <;> rfl

@[simp] theorem afterFlush_inserting (caller : Caller) : caller.afterFlush.inserting = false := by
  cases caller <;> rfl

@[simp] theorem afterFlush_hasJoined (caller : Caller) : caller.afterFlush.hasJoined = false := by
  cases caller <;> rfl

def inserters (threads : Fin p → ThreadPc) : Nat :=
  (Finset.univ.filter fun i => (threads i).inserting = true).card

theorem inserters_le (threads : Fin p → ThreadPc) : inserters threads ≤ p := by
  have h := Finset.card_filter_le (Finset.univ : Finset (Fin p)) fun i => (threads i).inserting = true
  simpa [inserters] using h

theorem inserters_update_le (threads : Fin p → ThreadPc) (i : Fin p) {pc : ThreadPc}
    (hpc : pc.inserting = false) : inserters (Function.update threads i pc) ≤ inserters threads := by
  apply Finset.card_le_card
  intro j hj
  simp only [Finset.mem_filter, Finset.mem_univ, true_and] at hj ⊢
  by_cases hji : j = i
  · subst hji
    simp [hpc] at hj
  · simpa [hji] using hj

theorem inserters_update_lt (threads : Fin p → ThreadPc) (i : Fin p) {pc : ThreadPc}
    (hpc : pc.inserting = false) (hi : (threads i).inserting = true) :
    inserters (Function.update threads i pc) + 1 ≤ inserters threads := by
  have hmem : i ∈ Finset.univ.filter fun j => (threads j).inserting = true := by simp [hi]
  have hsub : (Finset.univ.filter fun j => (Function.update threads i pc j).inserting = true) ⊆
      (Finset.univ.filter fun j => (threads j).inserting = true).erase i := by
    intro j hj
    simp only [Finset.mem_filter, Finset.mem_univ, true_and, Finset.mem_erase] at hj ⊢
    by_cases hji : j = i
    · subst hji
      simp [hpc] at hj
    · exact ⟨hji, by simpa [hji] using hj⟩
  have hcard := Finset.card_le_card hsub
  have hpos := Finset.card_pos.mpr ⟨i, hmem⟩
  rw [Finset.card_erase_of_mem hmem] at hcard
  unfold inserters
  omega

/-- A batch between two entries: what is still to write is still queued, and what has been written
is what was removed. -/
structure Batch.Between (b : Batch) (queue : List Bytes) : Prop where
  positive : 1 ≤ b.iDataToWrite
  queued : b.iDataToWrite ≤ queue.length
  popped : b.iDataWritten = b.popped
  total : b.iDataToWrite + b.iDataWritten = b.snapshot

structure Batch.Done (b : Batch) : Prop where
  positive : 1 ≤ b.snapshot
  popped : b.iDataWritten = b.popped
  total : b.iDataWritten = b.snapshot

/-- The locals of `logger_thread` agree with the queue. -/
def BatchOk (queue : List Bytes) : WriterPc → Prop
  | .poll | .tryLock | .cancelled => True
  | .openFile b | .bodyTop b => b.Between queue
  | .removeHead b msg => b.Between queue ∧ queue.head? = some msg
  | .writeEntry b _ => 1 ≤ b.iDataToWrite ∧ b.iDataToWrite ≤ queue.length + 1 ∧ 1 ≤ b.popped ∧
      b.iDataWritten + 1 = b.popped ∧ b.iDataToWrite + b.iDataWritten = b.snapshot
  | .flushFile b | .closeFile b | .updateCount b => b.Done

/-- Nobody is between the last two stores of `logger_destroy`, where the count of the queue is reset
and the session still open. -/
def Session.CountStands (s : Session p) : Prop := ∀ i, s.threads i ≠ .finish

instance (s : Session p) : Decidable s.CountStands :=
  inferInstanceAs (Decidable (∀ i, s.threads i ≠ .finish))

theorem Session.CountStands.of_goto {pc : ThreadPc} (h : (s.goto i pc).CountStands)
    (hi : s.threads i ≠ .finish) : s.CountStands := by
  intro j hj
  by_cases hji : j = i
  · subst hji
    exact hi hj
  · exact h j (by simpa [hji] using hj)

/-- The accounting invariant of a session. -/
structure Accounted (s : Session p) : Prop where
  settings : s.sCurrLogSettings.Admissible p
  counted : s.iIsInitDone = true → s.CountStands →
    s.iDataInQueueCount = s.queue.length + s.writer.popped
  nonneg : 0 ≤ s.iDataInQueueCount
  bounded : s.iDataInQueueCount + inserters s.threads ≤ 2 ^ 31 - 2
  batch : BatchOk s.queue s.writer
  closed : s.iIsInitDone = false → s.writer = .cancelled
  joined : ∀ i, (s.threads i).hasJoined = true → s.writer = .cancelled
  noFault : s.fault = false

namespace Accounted

theorem loggerInit {settings : LogSettings} (hsettings : settings.Admissible p) (Loglevel : UInt32)
    (bTerminateProg : Bool) (pid : Nat) :
    Accounted (loggerInit settings Loglevel bTerminateProg pid : Session p) where
  settings := hsettings
  counted _ _ := rfl
  nonneg := le_refl 0
  bounded := by
    have hnone : inserters (fun _ : Fin p => ThreadPc.ready .exitSuccess) = 0 := by
      simp [inserters, ThreadPc.inserting]
    change (0 : Int) + (inserters (fun _ : Fin p => ThreadPc.ready .exitSuccess) : Nat) ≤ _
    rw [hnone]
    decide
  batch := trivial
  closed h := by cases h
  joined i h := by cases h
  noFault := rfl

/-! ### Moves of the writer -/

theorem isOpen (h : Accounted s) (hwriter : s.writer ≠ .cancelled) : s.iIsInitDone = true := by
  by_contra hclosed
  exact hwriter (h.closed (by simpa using hclosed))

theorem not_hasJoined (h : Accounted s) (hwriter : s.writer ≠ .cancelled) (i : Fin p) :
    (s.threads i).hasJoined = false := by
  by_contra hjoined
  exact hwriter (h.joined i (by simpa using hjoined))

theorem countStands (h : Accounted s) (hwriter : s.writer ≠ .cancelled) : s.CountStands := by
  intro i hpc
  have hnot := h.not_hasJoined hwriter i
  rw [hpc] at hnot
  cases hnot

theorem count (h : Accounted s) (hwriter : s.writer ≠ .cancelled) :
    s.iDataInQueueCount = s.queue.length + s.writer.popped :=
  h.counted (h.isOpen hwriter) (h.countStands hwriter)

/-- A running writer keeps the invariant if it keeps the count and the batch. -/
theorem of_writer {u : Session p} (h : Accounted s) (hwriter : s.writer ≠ .cancelled)
    (hsettings : u.sCurrLogSettings = s.sCurrLogSettings) (hinit : u.iIsInitDone = s.iIsInitDone)
    (hthreads : u.threads = s.threads) (hcount : u.iDataInQueueCount ≤ s.iDataInQueueCount)
    (hcounted : u.iDataInQueueCount = u.queue.length + u.writer.popped)
    (hbatch : BatchOk u.queue u.writer) (hfault : u.fault = false) : Accounted u where
  settings := hsettings ▸ h.settings
  counted _ _ := hcounted
  nonneg := by omega
  bounded := by
    rw [hthreads]
    have := h.bounded
    omega
  batch := hbatch
  closed hclosed := by
    rw [hinit, h.isOpen hwriter] at hclosed
    cases hclosed
  joined i hjoined := by
    rw [hthreads, h.not_hasJoined hwriter i] at hjoined
    cases hjoined
  noFault := hfault

/-- What holds while the writer stands at `w`. -/
theorem at_writer (h : Accounted s) {w : WriterPc} (hpc : s.writer = w)
    (hwriter : s.writer ≠ .cancelled) :
    s.iDataInQueueCount = s.queue.length + w.popped ∧ BatchOk s.queue w := by
  subst hpc
  exact ⟨h.count hwriter, h.batch⟩

theorem snapshotCount (h : Accounted s) (hpc : s.writer = .tryLock) : Accounted s.snapshotCount := by
  have hwriter : s.writer ≠ .cancelled := by simp [hpc]
  obtain ⟨hcounted, -⟩ := h.at_writer hpc hwriter
  simp only [WriterPc.popped] at hcounted
  have hbulk := h.settings.1
  have hnonneg := h.nonneg
  unfold Session.snapshotCount
  split
  case isTrue hgo =>
    refine h.of_writer hwriter rfl rfl rfl (le_refl _) hcounted ⟨?_, ?_, ?_, ?_⟩ h.noFault
    · show 1 ≤ s.iDataInQueueCount
      omega
    · show s.iDataInQueueCount ≤ s.queue.length
      omega
    · rfl
    · exact Int.add_zero _
  case isFalse =>
    exact h.of_writer hwriter rfl rfl rfl (le_refl _) hcounted trivial h.noFault

theorem peekHead (h : Accounted s) {b : Batch} (hpc : s.writer = .bodyTop b) :
    Accounted (s.peekHead b) := by
  have hwriter : s.writer ≠ .cancelled := by simp [hpc]
  obtain ⟨hcounted, hbatch⟩ := h.at_writer hpc hwriter
  have hpositive := hbatch.positive
  have hqueued := hbatch.queued
  unfold Session.peekHead
  split
  case h_1 hqueue =>
    -- `STAILQ_FIRST` of an empty queue: the batch asks for an entry that is not there
    have hlength : s.queue.length = 0 := by rw [hqueue]; rfl
    omega
  case h_2 msg rest hqueue =>
    exact h.of_writer hwriter rfl rfl rfl (le_refl _) hcounted ⟨hbatch, by rw [hqueue]; rfl⟩
      h.noFault

theorem removeHead (h : Accounted s) {b : Batch} {msg : Bytes}
    (hpc : s.writer = .removeHead b msg) : Accounted (s.removeHead b msg) := by
  have hwriter : s.writer ≠ .cancelled := by simp [hpc]
  obtain ⟨hcounted, hbatch⟩ := h.at_writer hpc hwriter
  obtain ⟨⟨hpositive, hqueued, hpopped, htotal⟩, -⟩ := hbatch
  simp only [WriterPc.popped] at hcounted
  have htail : (s.queue.tail.length : Int) = s.queue.length - 1 := by
    rw [List.length_tail]
    omega
  refine h.of_writer hwriter rfl rfl rfl (le_refl _) ?_
    ⟨hpositive, ?_, Nat.succ_pos _, ?_, htotal⟩ h.noFault
  · show s.iDataInQueueCount = (s.queue.tail.length : Int) + ((b.popped + 1 : Nat) : Int)
    omega
  · show b.iDataToWrite ≤ (s.queue.tail.length : Int) + 1
    omega
  · show b.iDataWritten + 1 = ((b.popped + 1 : Nat) : Int)
    omega

theorem writeEntry (h : Accounted s) {b : Batch} {msg : Bytes}
    (hpc : s.writer = .writeEntry b msg) : Accounted (s.writeEntry b msg) := by
  have hwriter : s.writer ≠ .cancelled := by simp [hpc]
  obtain ⟨hcounted, hbatch⟩ := h.at_writer hpc hwriter
  have hbounded := h.bounded
  obtain ⟨hpositive, hqueued, hsome, hpopped, htotal⟩ := hbatch
  simp only [WriterPc.popped] at hcounted
  -- neither local leaves the range of the count
  have hwritten : int32 (b.iDataWritten + 1) = b.iDataWritten + 1 :=
    int32_of_mem_range (by omega) (by omega)
  have htoWrite : int32 (b.iDataToWrite - 1) = b.iDataToWrite - 1 :=
    int32_of_mem_range (by omega) (by omega)
  unfold Session.writeEntry
  simp only [hwritten, htoWrite]
  by_cases hlast : b.iDataToWrite - 1 = 0
  · simp only [hlast, ne_eq, not_true_eq_false, if_false]
    refine h.of_writer hwriter rfl rfl rfl (le_refl _) hcounted ⟨?_, hpopped, ?_⟩ h.noFault
    · show 1 ≤ b.snapshot
      omega
    · show b.iDataWritten + 1 = b.snapshot
      omega
  · simp only [ne_eq, hlast, not_false_eq_true, if_true]
    refine h.of_writer hwriter rfl rfl rfl (le_refl _) hcounted ⟨?_, ?_, hpopped, ?_⟩ h.noFault
    · show 1 ≤ b.iDataToWrite - 1
      omega
    · show b.iDataToWrite - 1 ≤ s.queue.length
      omega
    · show b.iDataToWrite - 1 + (b.iDataWritten + 1) = b.snapshot
      omega

theorem updateCount (h : Accounted s) {b : Batch} (hpc : s.writer = .updateCount b) :
    Accounted (s.updateCount b) := by
  have hwriter : s.writer ≠ .cancelled := by simp [hpc]
  obtain ⟨hcounted, hbatch⟩ := h.at_writer hpc hwriter
  have hbounded := h.bounded
  have hpopped := hbatch.popped
  simp only [WriterPc.popped] at hcounted
  have hcount : int32 (s.iDataInQueueCount - b.iDataWritten) = s.iDataInQueueCount - b.iDataWritten :=
    int32_of_mem_range (by omega) (by omega)
  refine h.of_writer hwriter rfl rfl rfl ?_ ?_ trivial h.noFault
  · show int32 (s.iDataInQueueCount - b.iDataWritten) ≤ s.iDataInQueueCount
    omega
  · show int32 (s.iDataInQueueCount - b.iDataWritten) = (s.queue.length : Int) + ((0 : Nat) : Int)
    omega

/-- A step that only touches the file and the writer's own place. -/
theorem move_writer (h : Accounted s) (hwriter : s.writer ≠ .cancelled)
    (LogfileFd : Option (List Bytes)) (logfile : List Bytes) {w : WriterPc}
    (hpopped : w.popped = s.writer.popped) (hbatch : BatchOk s.queue w) :
    Accounted { s with LogfileFd := LogfileFd, logfile := logfile, writer := w } :=
  h.of_writer hwriter rfl rfl rfl (le_refl _)
    (by rw [h.count hwriter, ← hpopped]) hbatch h.noFault

theorem of_writerMove (h : Accounted s) (hmove : WriterMove s t) : Accounted t := by
  have hbatch := h.batch
  cases hmove with
  | idle w hidle hw =>
      have hwriter : s.writer ≠ .cancelled := by rcases hidle with hpc | hpc <;> simp [hpc]
      refine h.move_writer hwriter s.LogfileFd s.logfile ?_ ?_
      · rcases hidle with hpc | hpc <;> rcases hw with rfl | rfl <;> rw [hpc] <;> rfl
      · rcases hw with rfl | rfl <;> trivial
  | snapshotCount hpc => exact h.snapshotCount hpc
  | openFile b hpc =>
      rw [hpc] at hbatch
      exact h.move_writer (by simp [hpc]) (some []) s.logfile (by rw [hpc]; rfl) hbatch
  | peekHead b hpc => exact h.peekHead hpc
  | removeHead b msg hpc => exact h.removeHead hpc
  | writeEntry b msg hpc => exact h.writeEntry hpc
  | flushFile b hpc =>
      rw [hpc] at hbatch
      exact h.move_writer (by simp [hpc]) _ _ (by rw [hpc]; rfl) hbatch
  | closeFile b hpc =>
      rw [hpc] at hbatch
      exact h.move_writer (by simp [hpc]) _ _ (by rw [hpc]; rfl) hbatch
  | updateCount b hpc => exact h.updateCount hpc

/-! ### Moves of the other threads -/

/-- A thread goes somewhere that is not the insertion. -/
theorem goto (h : Accounted s) (i : Fin p) {pc : ThreadPc} (hi : s.threads i ≠ .finish)
    (hinsert : pc.inserting = false) (hjoined : pc.hasJoined = true → s.writer = .cancelled) :
    Accounted (s.goto i pc) where
  settings := h.settings
  counted hopen hstands := h.counted hopen (hstands.of_goto hi)
  nonneg := h.nonneg
  bounded := by
    have hle := inserters_update_le s.threads i hinsert
    have := h.bounded
    show s.iDataInQueueCount + (inserters (Function.update s.threads i pc) : Nat) ≤ _
    omega
  batch := h.batch
  closed := h.closed
  joined j hj := by
    by_cases hji : j = i
    · subst hji
      exact hjoined (by simpa using hj)
    · exact h.joined j (by simpa [hji] using hj)
  noFault := h.noFault

theorem formatted (h : Accounted s) (i : Fin p) (caller : Caller) (msg : Bytes)
    (hi : s.threads i ≠ .finish)
    (hroom : s.iDataInQueueCount ≤ s.sCurrLogSettings.iLoggerQueueSize) :
    Accounted (s.goto i (.insertTail caller msg)) where
  settings := h.settings
  counted hopen hstands := h.counted hopen (hstands.of_goto hi)
  nonneg := h.nonneg
  bounded := by
    have hle := inserters_le (Function.update s.threads i (.insertTail caller msg))
    have hsettings := h.settings.2
    show s.iDataInQueueCount + (inserters (Function.update s.threads i _) : Nat) ≤ _
    omega
  batch := h.batch
  closed := h.closed
  joined j hj := by
    by_cases hji : j = i
    · subst hji
      simp [ThreadPc.hasJoined] at hj
    · exact h.joined j (by simpa [hji] using hj)
  noFault := h.noFault

theorem batchOk_append {queue : List Bytes} {w : WriterPc} (h : BatchOk queue w) (msg : Bytes) :
    BatchOk (queue ++ [msg]) w := by
  have hbetween : ∀ {b : Batch}, b.Between queue → b.Between (queue ++ [msg]) := by
    intro b hb
    have := hb.queued
    exact ⟨hb.positive, by rw [List.length_append]; push_cast; omega, hb.popped, hb.total⟩
  cases w with
  | openFile b => exact hbetween h
  | bodyTop b => exact hbetween h
  | removeHead b head =>
      refine ⟨hbetween h.1, ?_⟩
      rw [List.head?_append, h.2]
      rfl
  | writeEntry b head =>
      obtain ⟨hpositive, hqueued, hrest⟩ := h
      exact ⟨hpositive, by rw [List.length_append]; push_cast; omega, hrest⟩
  | poll => trivial
  | tryLock => trivial
  | flushFile b => exact h
  | closeFile b => exact h
  | updateCount b => exact h
  | cancelled => trivial

/-- A thread inserts its entry: one more in the queue, one more in the count, one thread fewer past
the size check. -/
theorem insert (h : Accounted s) (hpc : (s.threads i).inserting = true) (msg : Bytes)
    {pc : ThreadPc} (hinsert : pc.inserting = false) (hjoined : pc.hasJoined = false) :
    Accounted ((s.insert msg).goto i pc) := by
  have hlt := inserters_update_lt s.threads i hinsert hpc
  have hbounded := h.bounded
  have hnonneg := h.nonneg
  have hcount : int32 (s.iDataInQueueCount + 1) = s.iDataInQueueCount + 1 :=
    int32_of_mem_range (by omega) (by omega)
  constructor
  · exact h.settings
  · intro hopen hstands
    have hi : s.threads i ≠ .finish := by
      intro hfinish
      rw [hfinish] at hpc
      cases hpc
    have hcounted := h.counted hopen (hstands.of_goto hi)
    show int32 (s.iDataInQueueCount + 1) = ((s.queue ++ [msg]).length : Int) + (s.writer.popped : Int)
    rw [hcount, List.length_append, hcounted]
    push_cast
    simp only [List.length_cons, List.length_nil]
    omega
  · show 0 ≤ int32 (s.iDataInQueueCount + 1)
    omega
  · show int32 (s.iDataInQueueCount + 1) + (inserters (Function.update s.threads i pc) : Nat) ≤ _
    omega
  · exact batchOk_append h.batch msg
  · exact h.closed
  · intro j hj
    by_cases hji : j = i
    · subst hji
      simp [hjoined] at hj
    · exact h.joined j (by simpa [hji, Session.insert] using hj)
  · exact h.noFault

/-- The end of `logger_destroy`: `logger_thread` is gone, and the count may be any that is in range. -/
theorem leave (h : Accounted s) (hi : (s.threads i).hasJoined = true) {pc : ThreadPc}
    (hinsert : pc.inserting = false) {count : Int} {opened : Bool} (hnonneg : 0 ≤ count)
    (hcount : count ≤ s.iDataInQueueCount) (hends : pc = .finish ∨ opened = false) :
    Accounted ({ s with iDataInQueueCount := count, iIsInitDone := opened }.goto i pc) := by
  have hcancelled : s.writer = .cancelled := h.joined i hi
  have hle := inserters_update_le s.threads i hinsert
  have hbounded := h.bounded
  refine ⟨h.settings, ?_, hnonneg, ?_, h.batch, fun _ => hcancelled, fun _ _ => hcancelled, h.noFault⟩
  · intro hopen hstands
    rcases hends with rfl | rfl
    · exact absurd (Function.update_self ..) (hstands i)
    · cases hopen
  · show count + (inserters (Function.update s.threads i pc) : Nat) ≤ _
    omega

theorem of_threadMove (h : Accounted s) (hmove : ThreadMove s i t) : Accounted t := by
  -- stores to the flags and to the file are not seen by the invariant
  have hflags : ∀ (flush shut cancel : Bool) (stream : Option (List Bytes))
      (file freed : List Bytes), Accounted { s with
        iDoForceFlush := flush, iShuttingDown := shut, cancelRequested := cancel
        LogfileFd := stream, logfile := file, discarded := freed } :=
    fun _ _ _ _ _ _ => ⟨h.settings, h.counted, h.nonneg, h.bounded, h.batch, h.closed, h.joined,
      h.noFault⟩
  cases hmove with
  | refused caller eType text hpc hno => exact h.goto i (by simp [hpc]) (by simp) (by simp)
  | allowed caller eType text hpc hyes => exact h.goto i (by simp [hpc]) rfl (by simp [ThreadPc.hasJoined])
  | full caller eType text hpc hfull => exact h.goto i (by simp [hpc]) (by simp) (by simp)
  | formatted caller eType text msg hpc hroom => exact h.formatted i caller msg (by simp [hpc]) hroom
  | lockFailed caller msg hpc => exact h.goto i (by simp [hpc]) (by simp) (by simp)
  | insert caller msg iRet hpc => exact h.insert (by rw [hpc]; rfl) msg (by simp) (by simp)
  | flushSet caller hpc =>
      exact (hflags true _ _ _ _ _).goto i (by simp [hpc]) rfl (by simp [ThreadPc.hasJoined])
  | flushed caller MaxLoops polls hpc hleave => exact h.goto i (by simp [hpc]) (by simp) (by simp)
  | polled caller MaxLoops polls hpc hcount => exact h.goto i (by simp [hpc]) rfl (by simp [ThreadPc.hasJoined])
  | destroying text hpc hopen => exact h.goto i (by simp [hpc]) rfl (by simp [ThreadPc.hasJoined])
  | noInit hpc hclosed => exact h.goto i (by simp [hpc]) rfl (by simp [ThreadPc.hasJoined])
  | shutDown hpc => exact (hflags _ true _ _ _ _).goto i (by simp [hpc]) rfl (by simp [ThreadPc.hasJoined])
  | cancelThread hpc => exact (hflags _ _ true _ _ _).goto i (by simp [hpc]) rfl (by simp [ThreadPc.hasJoined])
  | joined hpc hwriter => exact h.goto i (by simp [hpc]) rfl fun _ => hwriter
  | closeStream hpc =>
      exact (hflags _ _ _ none _ _).goto i (by simp [hpc]) rfl fun _ => h.joined i (by rw [hpc]; rfl)
  | freeEntry freed msg hpc hmsg =>
      exact (hflags _ _ _ _ _ _).goto i (by simp [hpc]) rfl fun _ => h.joined i (by rw [hpc]; rfl)
  | freedAll freed hpc hend => exact h.goto i (by simp [hpc]) rfl fun _ => h.joined i (by rw [hpc]; rfl)
  | resetCount hpc =>
      exact h.leave (by rw [hpc]; rfl) rfl (le_refl 0) h.nonneg (.inl rfl)
  | finish hpc =>
      exact h.leave (by rw [hpc]; rfl) rfl h.nonneg (le_refl _) (.inr rfl)

theorem of_callMove (h : Accounted s) {op : Call} (hkept : SettingsKept s (.call i op))
    (hmove : CallMove s i op t) : Accounted t := by
  cases hmove with
  | logMsg iRet eType text hpc => exact h.goto i (by simp [hpc]) rfl (by simp [ThreadPc.hasJoined])
  | loggerFlush iRet hpc => exact h.goto i (by simp [hpc]) rfl (by simp [ThreadPc.hasJoined])
  | loggerSet iRet settings hpc =>
      have hset : Accounted { s with sCurrLogSettings := settings } :=
        ⟨hkept, h.counted, h.nonneg, h.bounded, h.batch, h.closed, h.joined, h.noFault⟩
      exact hset.goto i (by simp [hpc]) rfl (by simp [ThreadPc.hasJoined])
  | loggerDestroy iRet hpc => exact h.goto i (by simp [hpc]) rfl (by simp [ThreadPc.hasJoined])

theorem cancel (h : Accounted s) (hpc : s.writer = .poll) :
    Accounted { s with writer := .cancelled } := by
  have hcounted := h.count (by simp [hpc])
  rw [hpc] at hcounted
  exact ⟨h.settings, fun _ _ => hcounted, h.nonneg, h.bounded, trivial, fun _ => rfl, fun _ _ => rfl,
    h.noFault⟩

theorem exit (h : Accounted s) : Accounted s.exit :=
  ⟨h.settings, h.counted, h.nonneg, h.bounded, h.batch, h.closed, h.joined, h.noFault⟩

theorem of_step (h : Accounted s) {l : Label p} (hkept : SettingsKept s l)
    (hstep : (session p).step s l = some t) : Accounted t := by
  cases sessionStep_cases hstep with
  | exit o => exact h.exit
  | writer o u hmove => exact h.of_writerMove hmove
  | writerExit o u hmove => exact (h.of_writerMove hmove).exit
  | cancel hrequest hpc => exact h.cancel hpc
  | call i op t hmove => exact h.of_callMove hkept hmove
  | thread i acTime o t hmove => exact h.of_threadMove hmove

end Accounted

theorem accounted_of_reachable (hs : Transition.Reachable (session p) SettingsKept s) :
    Accounted s := by
  refine hs.invariant ?_ fun _ _ _ h hkept hstep => h.of_step hkept hstep
  rintro s ⟨settings, Loglevel, bTerminateProg, pid, hsettings, rfl⟩
  exact Accounted.loggerInit hsettings Loglevel bTerminateProg pid

/-! ### The loop of a batch -/

def WriterPc.inLoop : WriterPc → Bool
  | .bodyTop _ | .removeHead _ _ | .writeEntry _ _ => true
  | _ => false

/-- The steps `logger_thread` still takes in the loop: three for each entry. -/
def WriterPc.loopSteps : WriterPc → Nat
  | .bodyTop b => 3 * b.iDataToWrite.toNat
  | .removeHead b _ => 3 * b.iDataToWrite.toNat - 1
  | .writeEntry b _ => 3 * b.iDataToWrite.toNat - 2
  | _ => 0

theorem writer_eq_of_step {l : Label p} (hloop : s.writer.inLoop = true)
    (hstep : (session p).step s l = some t) (hl : ∀ o, l ≠ .writer o) : t.writer = s.writer := by
  cases sessionStep_cases hstep with
  | exit o => exact absurd rfl (hl o)
  | writer o u hmove => exact absurd rfl (hl o)
  | writerExit o u hmove => exact absurd rfl (hl o)
  | cancel hrequest hpc =>
      rw [hpc] at hloop
      cases hloop
  | call i op t hmove => cases hmove <;> rfl
  | thread i acTime o t hmove => cases hmove <;> rfl

theorem loopSteps_of_writerMove (h : Accounted s) (hloop : s.writer.inLoop = true)
    (hmove : WriterMove s t) : t.writer.loopSteps + 1 = s.writer.loopSteps := by
  have hbatch := h.batch
  cases hmove with
  | idle w hidle hw => rcases hidle with hpc | hpc <;> rw [hpc] at hloop <;> cases hloop
  | snapshotCount hpc => rw [hpc] at hloop; cases hloop
  | openFile b hpc => rw [hpc] at hloop; cases hloop
  | flushFile b hpc => rw [hpc] at hloop; cases hloop
  | closeFile b hpc => rw [hpc] at hloop; cases hloop
  | updateCount b hpc => rw [hpc] at hloop; cases hloop
  | peekHead b hpc =>
      rw [hpc] at hbatch ⊢
      have hpositive := hbatch.positive
      have hqueued := hbatch.queued
      obtain ⟨msg, rest, hqueue⟩ : ∃ msg rest, s.queue = msg :: rest := by
        cases hq : s.queue with
        | nil => rw [hq] at hqueued; simp only [List.length_nil] at hqueued; omega
        | cons msg rest => exact ⟨msg, rest, rfl⟩
      simp only [Session.peekHead, hqueue, WriterPc.loopSteps]
      omega
  | removeHead b msg hpc =>
      rw [hpc] at hbatch ⊢
      have hpositive := hbatch.1.positive
      simp only [Session.removeHead, WriterPc.loopSteps]
      omega
  | writeEntry b msg hpc =>
      have hbounded := h.bounded
      have hcounted := h.count (by simp [hpc])
      rw [hpc] at hbatch hcounted ⊢
      obtain ⟨hpositive, hqueued, -, hpopped, htotal⟩ := hbatch
      simp only [WriterPc.popped] at hcounted
      have htoWrite : int32 (b.iDataToWrite - 1) = b.iDataToWrite - 1 :=
        int32_of_mem_range (by omega) (by omega)
      simp only [Session.writeEntry, htoWrite]
      split <;> simp only [WriterPc.loopSteps] <;> omega

/-- The count of the queue is exact in every open session, the last moment of `logger_destroy` apart,
and the batch loop never runs dry: it finds an entry each time, and ends after as many iterations as
the batch was sized for, each of them three steps of `logger_thread` whatever the other threads do in
between. -/
theorem queueCount_exact (hs : Transition.Reachable (session p) SettingsKept s)
    (hopen : s.iIsInitDone = true) :
    (s.CountStands → s.iDataInQueueCount = s.queue.length + s.writer.popped) ∧
      0 ≤ s.iDataInQueueCount ∧
      s.fault = false ∧
      (∀ b, s.writer = .bodyTop b → 1 ≤ b.iDataToWrite ∧ b.iDataToWrite ≤ s.queue.length ∧
        s.queue ≠ [] ∧ b.iDataWritten + b.iDataToWrite = b.snapshot) ∧
      (∀ b, s.writer = .flushFile b → b.iDataWritten = b.snapshot ∧ b.popped = b.snapshot) ∧
      (s.writer.inLoop = true → ∀ l t, (session p).step s l = some t →
        ((∃ o, l = .writer o) ∧ (t.exited = false → t.writer.loopSteps + 1 = s.writer.loopSteps)) ∨
        ((∀ o, l ≠ .writer o) ∧ t.writer = s.writer)) := by
  have h := accounted_of_reachable hs
  refine ⟨h.counted hopen, h.nonneg, h.noFault, ?_, ?_, ?_⟩
  · intro b hpc
    have hbatch := h.batch
    rw [hpc] at hbatch
    obtain ⟨hpositive, hqueued, hpopped, htotal⟩ := hbatch
    refine ⟨hpositive, hqueued, ?_, by omega⟩
    intro hnil
    rw [hnil] at hqueued
    simp only [List.length_nil] at hqueued
    omega
  · intro b hpc
    have hbatch := h.batch
    rw [hpc] at hbatch
    exact ⟨hbatch.total, hbatch.popped ▸ hbatch.total⟩
  · intro hloop l t hstep
    by_cases hl : ∃ o, l = .writer o
    · obtain ⟨o, rfl⟩ := hl
      refine .inl ⟨⟨o, rfl⟩, fun hrunning => ?_⟩
      cases sessionStep_cases hstep with
      | exit o => cases hrunning
      | writer o u hmove => exact loopSteps_of_writerMove h hloop hmove
      | writerExit o u hmove => cases hrunning
    · have hother : ∀ o, l ≠ .writer o := fun o ho => hl ⟨o, ho⟩
      exact .inr ⟨hother, writer_eq_of_step hloop hstep hother⟩

/-! ### A session with one thread besides `logger_thread` -/

def onlyThread : Fin 1 := 0

def threadMoves (n : Nat) : List (Label 1) := List.replicate n (.thread onlyThread (Bytes.ascii "now") .ok)

def writerMoves (n : Nat) : List (Label 1) := List.replicate n (.writer .ok)

/-- An error logged from the call of `log_msg` to its return. -/
def logsError (text : Bytes) : List (Label 1) := .call onlyThread (.logMsg .eERROR text) :: threadMoves 3

/-- One error is logged, and `logger_thread` sizes its batch and opens the file. -/
def oneMessage : List (Label 1) := logsError (Bytes.ascii "boot") ++ writerMoves 3

theorem queueCount_exact_oneMessage :
    ∃ s : Session 1, Transition.Reachable (session 1) SettingsKept s ∧ s.iIsInitDone = true ∧
      s.writer = .bodyTop ⟨1, 0, 1, 0⟩ ∧ s.iDataInQueueCount = s.queue.length + s.writer.popped ∧
      s.queue ≠ [] := by
  have hinit : Transition.Reachable (session 1) SettingsKept
      (loggerInit LogSettings.default LoggerType.eDEBUG.value false 1) :=
    .init ⟨LogSettings.default, _, _, _, ⟨by decide, by decide⟩, rfl⟩
  obtain ⟨s, hrun, hwriter, hopen, hstands⟩ : ∃ s : Session 1, (session 1).run
      (loggerInit LogSettings.default LoggerType.eDEBUG.value false 1) oneMessage = some s ∧
      s.writer = .bodyTop ⟨1, 0, 1, 0⟩ ∧ s.iIsInitDone = true ∧ s.CountStands :=
    ⟨_, rfl, by decide, by decide, by decide⟩
  have hs := hinit.run (by simp [oneMessage, logsError, threadMoves, writerMoves, SettingsKept]) hrun
  obtain ⟨hcount, -, -, hbody, -⟩ := queueCount_exact hs hopen
  exact ⟨s, hs, hopen, hwriter, hcount hstands, (hbody _ hwriter).2.2.1⟩

end CewServer.Logger
