import CewServer.Logger.Capacity
import CewServer.Logger.Mutex
import CewServer.Lib.Progress

/-!
# How long a message waits

Nothing a thread does keeps `logger_thread` from writing. A batch is sized once and does not grow, and
what it holds is at most what the queue can hold; behind the batch that is under way when a message is
inserted comes one that takes the whole queue, or the queue is no longer than the bulk that is left
waiting by design. So after a number of steps of `logger_thread` that depends on the limits alone, and
not on how many messages the threads go on inserting, all but a bulk of what was inserted is in the
file. A lock that is busy costs one step more.
-/

namespace CewServer.Logger

open Transition

variable {p : Nat} {limits : Limits p} {s t : Session p} {i : Fin p}

/-- `logger_thread` is neither cancelled nor fails, and the settings keep to the limits. -/
def Timely (limits : Limits p) : Label p → Prop
  | .writer o => o = .ok ∨ o = .busy
  | .cancel => False
  | .call _ (.loggerSet sNewSettings) => sNewSettings.Within limits
  | .call _ _ | .thread _ _ _ => True

/-- A step of `logger_thread` whose call succeeds. -/
def Label.gain : Label p → Nat
  | .writer .ok => 1
  | _ => 0

/-- The lock was busy. -/
def Label.cost : Label p → Nat
  | .writer .busy => 1
  | _ => 0

theorem Timely.limitsKept {l : Label p} (h : Timely limits l) : LimitsKept limits s l := by
  cases l with
  | writer | cancel | thread => trivial
  | call i op =>
      cases op with
      | logMsg | loggerFlush | loggerDestroy => trivial
      | loggerSet sNewSettings => exact h

/-! ### What only grows -/

theorem WriterMove.logfile_le (hmove : WriterMove s t) : s.logfile.length ≤ t.logfile.length := by
  cases hmove with
  | snapshotCount hpc =>
      unfold Session.snapshotCount
      split <;> exact Nat.le_refl _
  | peekHead b hpc =>
      unfold Session.peekHead
      split <;> exact Nat.le_refl _
  | flushFile b hpc | closeFile b hpc =>
      exact (List.prefix_append _ _).length_le
  | _ => exact Nat.le_refl _

theorem logfile_le_of_step {l : Label p} (hstep : (session p).step s l = some t) :
    s.logfile.length ≤ t.logfile.length := by
  cases sessionStep_cases hstep with
  | exit o => exact Nat.le_refl _
  | writer o u hmove => exact hmove.logfile_le
  | writerExit o u hmove =>
      have hle := hmove.logfile_le
      exact hle
  | cancel hrequest hpc => exact Nat.le_refl _
  | call i op t hmove => cases hmove <;> exact Nat.le_refl _
  | thread i acTime o t hmove =>
      cases hmove with
      | closeStream hpc => exact (List.prefix_append _ _).length_le
      | _ => exact Nat.le_refl _

theorem inserted_of_step {l : Label p} (hstep : (session p).step s l = some t) :
    s.inserted <+: t.inserted := by
  cases sessionStep_cases hstep with
  | exit o => exact List.prefix_refl _
  | writer o u hmove =>
      rw [hmove.frame.inserted]
  | writerExit o u hmove =>
      have hsame : u.exit.inserted = s.inserted := hmove.frame.inserted
      rw [hsame]
  | cancel hrequest hpc => exact List.prefix_refl _
  | call i op t hmove => cases hmove <;> exact List.prefix_refl _
  | thread i acTime o t hmove =>
      cases hmove with
      | insert caller msg iRet hpc => exact List.prefix_append _ _
      | _ => exact List.prefix_refl _

theorem WriterMove.not_cancelled_after (hmove : WriterMove s t) : t.writer ≠ .cancelled := by
  cases hmove with
  | idle w hidle hw => rcases hw with rfl | rfl <;> simp
  | snapshotCount hpc =>
      unfold Session.snapshotCount
      split <;> simp
  | peekHead b hpc =>
      unfold Session.peekHead
      split
      · simp [hpc]
      · simp
  | writeEntry b msg hpc =>
      unfold Session.writeEntry
      simp only
      split <;> simp
  | _ => simp [Session.removeHead, Session.flushFile, Session.closeFile, Session.updateCount]

/-! ### The way to the file -/

/-- The steps of a batch of the whole queue, from `fopen` to `fflush`. -/
def Limits.wholeBatch (limits : Limits p) : Nat := 3 * (limits.size + p) + 2

/-- What comes behind a batch that brings the file to `reached` messages only. -/
def Limits.again (limits : Limits p) (target reached : Nat) : Nat :=
  if target ≤ reached then 0 else 4 + limits.wholeBatch

/-- The steps `logger_thread` takes at most until `target` messages are in the file, with `written`
of them passed to `fwrite`. -/
def Limits.stepsTo (limits : Limits p) (target written : Nat) : WriterPc → Nat
  | .poll => 2 + limits.wholeBatch
  | .tryLock => 1 + limits.wholeBatch
  | .openFile b =>
      3 * b.iDataToWrite.toNat + 2 + limits.again target (written + b.iDataToWrite.toNat)
  | .bodyTop b =>
      3 * b.iDataToWrite.toNat + 1 + limits.again target (written + b.iDataToWrite.toNat)
  | .removeHead b _ =>
      3 * b.iDataToWrite.toNat + limits.again target (written + b.iDataToWrite.toNat)
  | .writeEntry b _ =>
      3 * b.iDataToWrite.toNat - 1 + limits.again target (written + b.iDataToWrite.toNat)
  | .flushFile _ => 1 + limits.again target written
  | .closeFile _ => 4 + limits.wholeBatch
  | .updateCount _ => 3 + limits.wholeBatch
  | .cancelled => 0

def Limits.distance (limits : Limits p) (target : Nat) (s : Session p) : Nat :=
  limits.stepsTo target s.written.length s.writer

/-- A session some time after `start` messages were inserted. -/
structure Under (limits : Limits p) (start : List Bytes) (s : Session p) : Prop where
  reachable : Reachable (limitedSession limits) (LimitsKept limits) s
  running : s.writer ≠ .cancelled
  later : start <+: s.inserted

namespace Under

variable {start : List Bytes}

theorem accounted (h : Under limits start s) : Accounted s :=
  accounted_of_reachable (reachable_of_limited h.reachable)

theorem stream (h : Under limits start s) : StreamOk s :=
  streamOk_of_reachable (reachable_of_limited h.reachable)

theorem sized (h : Under limits start s) : Sized limits s := sized_of_reachable h.reachable

theorem conserved (h : Under limits start s) :
    s.written ++ (s.writer.inHand ++ s.queue) = s.inserted := by
  obtain ⟨c, -, hc⟩ := session_refines_channel (reachable_of_limited h.reachable)
  rw [← hc.received, ← hc.inFlight, ← hc.sent]
  exact c.conserved

theorem queue_le (h : Under limits start s) : s.queue.length ≤ limits.size + p :=
  h.sized.queue_length_le h.accounted (h.accounted.isOpen h.running) (h.accounted.countStands h.running)

/-- A step of another thread leaves the writer and the file as they are. -/
theorem other (h : Under limits start s) {l : Label p} (hl : Timely limits l)
    (hother : ∀ o, l ≠ .writer o) (hstep : (session p).step s l = some t) :
    t.writer = s.writer ∧ t.logfile = s.logfile ∧ t.written = s.written := by
  cases sessionStep_cases hstep with
  | exit o => exact absurd rfl (hother o)
  | writer o u hmove => exact absurd rfl (hother o)
  | writerExit o u hmove => exact absurd rfl (hother o)
  | cancel hrequest hpc => exact hl.elim
  | call i op t hmove => cases hmove <;> exact ⟨rfl, rfl, rfl⟩
  | thread i acTime o t hmove =>
      cases hmove with
      | closeStream hpc =>
          -- the writer has been joined, and it is not running then
          exact absurd (h.accounted.joined i (by rw [hpc]; rfl)) h.running
      | _ => exact ⟨rfl, rfl, rfl⟩

/-! Each step of `logger_thread` brings the file nearer. -/

variable {target : Nat} {b : Batch}

theorem logfile_eq_written (h : Under limits start s) (hpc : s.writer.hasStream = false) :
    s.logfile = s.written := by
  have hnone : s.LogfileFd = none := by
    have hstream := h.stream
    rw [StreamOk, hpc] at hstream
    exact Option.isNone_iff_eq_none.mp (by simpa using hstream)
  rw [Session.written, hnone, Option.getD_none, List.append_nil]

/-- A batch takes everything, and without one no more than a bulk is waiting. -/
theorem snapshotCount (h : Under limits start s) (htarget : target + limits.bulk ≤ start.length)
    (hpc : s.writer = .tryLock) :
    target ≤ s.snapshotCount.logfile.length ∨
      limits.distance target s.snapshotCount + 1 ≤ limits.distance target s := by
  have hcounted := h.accounted.count h.running
  have hconserved := congrArg List.length h.conserved
  have hlater := h.later.length_le
  have hqueue := h.queue_le
  simp only [hpc, WriterPc.inHand, WriterPc.popped, List.nil_append, List.length_append] at hcounted hconserved
  rw [Session.snapshotCount]
  split
  · right
    have hcovers : target ≤ s.written.length + s.iDataInQueueCount.toNat := by omega
    show limits.stepsTo target s.written.length (.openFile _) + 1 ≤ limits.stepsTo _ _ s.writer
    rw [hpc, Limits.stepsTo, Limits.stepsTo, Limits.again, if_pos hcovers, Limits.wholeBatch]
    dsimp only
    omega
  · rename_i hwaits
    left
    have hbulk := h.sized.settings.bulk
    have hfew : s.iDataInQueueCount ≤ s.sCurrLogSettings.iBulkWrite := by
      by_contra hmany
      exact hwaits (.inl (by omega))
    show target ≤ s.logfile.length
    rw [h.logfile_eq_written (by rw [hpc]; rfl)]
    omega

theorem writeEntry (h : Under limits start s) {msg : Bytes} (hpc : s.writer = .writeEntry b msg) :
    limits.distance target (s.writeEntry b msg) + 1 ≤ limits.distance target s := by
  have hbatch := h.accounted.batch
  have hqueue := h.queue_le
  have hfits := limits.fits
  have hstream := h.stream
  rw [hpc] at hbatch
  rw [StreamOk, hpc] at hstream
  obtain ⟨hpositive, hqueued, -⟩ := hbatch
  obtain ⟨buffer, hbuffer⟩ := Option.isSome_iff_exists.mp hstream
  have htoWrite : int32 (b.iDataToWrite - 1) = b.iDataToWrite - 1 :=
    int32_of_mem_range (by omega) (by omega)
  have hwritten : (s.writeEntry b msg).written.length = s.written.length + 1 := by
    simp only [Session.written, Session.writeEntry, hbuffer, Option.map_some, Option.getD_some,
      List.length_append, List.length_singleton]
    omega
  rw [Limits.distance, Limits.distance, hwritten, hpc]
  simp only [Session.writeEntry, htoWrite]
  split
  · have hsame : s.written.length + 1 + (b.iDataToWrite - 1).toNat
        = s.written.length + b.iDataToWrite.toNat := by omega
    simp only [Limits.stepsTo, hsame]
    omega
  · have hsame : s.written.length + 1 = s.written.length + b.iDataToWrite.toNat := by omega
    simp only [Limits.stepsTo, hsame]
    omega

theorem flushFile (hpc : s.writer = .flushFile b) :
    target ≤ (s.flushFile b).logfile.length ∨
      limits.distance target (s.flushFile b) + 1 ≤ limits.distance target s := by
  by_cases hcovers : target ≤ s.written.length
  · exact .inl hcovers
  · right
    show limits.stepsTo target _ (.closeFile b) + 1 ≤ limits.stepsTo target _ s.writer
    rw [hpc, Limits.stepsTo, Limits.stepsTo, Limits.again, if_neg hcovers]
    omega

theorem peekHead (h : Under limits start s) (hpc : s.writer = .bodyTop b) :
    limits.distance target (s.peekHead b) + 1 ≤ limits.distance target s := by
  have hbatch := h.accounted.batch
  rw [hpc] at hbatch
  have hpositive := hbatch.positive
  have hqueued := hbatch.queued
  cases hqueue : s.queue with
  | nil =>
      rw [hqueue, List.length_nil] at hqueued
      omega
  | cons msg rest =>
      rw [Session.peekHead, hqueue]
      show limits.stepsTo target _ (.removeHead b msg) + 1 ≤ limits.stepsTo target _ s.writer
      rw [hpc, Limits.stepsTo, Limits.stepsTo]
      exact Nat.le_of_eq (Nat.add_right_comm _ _ _)

theorem nearer_of_ok (h : Under limits start s) (htarget : target + limits.bulk ≤ start.length)
    (hstep : loggerThread s .ok = some t) :
    target ≤ t.logfile.length ∨ limits.distance target t + 1 ≤ limits.distance target s := by
  unfold loggerThread at hstep
  cases hpc : s.writer with
  | poll =>
      rw [hpc] at hstep
      obtain rfl := Option.some.inj hstep
      right
      show limits.stepsTo target _ .tryLock + 1 ≤ limits.stepsTo target _ s.writer
      rw [hpc, Limits.stepsTo, Limits.stepsTo]
      omega
  | tryLock =>
      rw [hpc] at hstep
      obtain rfl := Option.some.inj hstep
      exact h.snapshotCount htarget hpc
  | openFile b =>
      rw [hpc] at hstep
      obtain rfl := Option.some.inj hstep
      right
      have hwritten := h.logfile_eq_written (by rw [hpc]; rfl)
      show limits.stepsTo target (s.logfile ++ []).length (.bodyTop b) + 1
        ≤ limits.stepsTo target _ s.writer
      rw [hpc, List.append_nil, hwritten, Limits.stepsTo, Limits.stepsTo]
      omega
  | bodyTop b =>
      rw [hpc] at hstep
      obtain rfl := Option.some.inj hstep
      exact .inr (h.peekHead hpc)
  | removeHead b msg =>
      rw [hpc] at hstep
      obtain rfl := Option.some.inj hstep
      right
      have hbatch := h.accounted.batch
      rw [hpc] at hbatch
      have hpositive := hbatch.1.positive
      show limits.stepsTo target s.written.length (.writeEntry _ msg) + 1
        ≤ limits.stepsTo target _ s.writer
      rw [hpc, Limits.stepsTo, Limits.stepsTo]
      dsimp only
      omega
  | writeEntry b msg =>
      rw [hpc] at hstep
      obtain rfl := Option.some.inj hstep
      exact .inr (h.writeEntry hpc)
  | flushFile b =>
      rw [hpc] at hstep
      obtain rfl := Option.some.inj hstep
      exact flushFile hpc
  | closeFile b =>
      rw [hpc] at hstep
      obtain rfl := Option.some.inj hstep
      right
      show limits.stepsTo target _ (.updateCount b) + 1 ≤ limits.stepsTo target _ s.writer
      rw [hpc, Limits.stepsTo, Limits.stepsTo]
      omega
  | updateCount b =>
      rw [hpc] at hstep
      obtain rfl := Option.some.inj hstep
      right
      show limits.stepsTo target _ .poll + 1 ≤ limits.stepsTo target _ s.writer
      rw [hpc, Limits.stepsTo, Limits.stepsTo]
      omega
  | cancelled => exact absurd hpc h.running

/-- A step whose lock is busy goes back to the cancellation block, and elsewhere there is no lock to be
busy. -/
theorem loggerThread_busy (hstep : loggerThread s .busy = some t) :
    (s.writer = .tryLock ∧ t = { s with writer := .poll }) ∨ loggerThread s .ok = some t := by
  unfold loggerThread at hstep ⊢
  cases hpc : s.writer with
  | tryLock =>
      rw [hpc] at hstep
      exact .inl ⟨rfl, (Option.some.inj hstep).symm⟩
  | poll | bodyTop =>
      rw [hpc] at hstep
      exact .inr hstep
  | openFile | removeHead | writeEntry | flushFile | closeFile | updateCount | cancelled =>
      rw [hpc] at hstep
      cases hstep

/-- What one step of `logger_thread` brings and costs. -/
theorem nearer_of_writer (h : Under limits start s) (htarget : target + limits.bulk ≤ start.length)
    {o : Outcome} (ho : o = .ok ∨ o = .busy) (hstep : loggerThread s o = some t) :
    target ≤ t.logfile.length ∨
      limits.distance target t + Label.gain (.writer o : Label p)
        ≤ limits.distance target s + Label.cost (.writer o : Label p) := by
  rcases ho with rfl | rfl
  · exact h.nearer_of_ok htarget hstep
  · rcases loggerThread_busy hstep with ⟨hpc, rfl⟩ | hok
    · right
      show limits.stepsTo target _ .poll + 0 ≤ limits.stepsTo target _ s.writer + 1
      rw [hpc, Limits.stepsTo, Limits.stepsTo]
      omega
    · refine (h.nearer_of_ok htarget hok).imp_right fun hnearer => ?_
      show limits.distance target t + 0 ≤ limits.distance target s + 1
      omega

theorem nearer (h : Under limits start s) (htarget : target + limits.bulk ≤ start.length)
    {l : Label p} (hl : Timely limits l) (hstep : (session p).step s l = some t) :
    target ≤ t.logfile.length ∨
      limits.distance target t + l.gain ≤ limits.distance target s + l.cost := by
  by_cases hwriter : ∃ o, l = .writer o
  · obtain ⟨o, rfl⟩ := hwriter
    exact h.nearer_of_writer htarget hl (loggerThread_of_step hstep)
  · have hother : ∀ o, l ≠ .writer o := fun o ho => hwriter ⟨o, ho⟩
    obtain ⟨hpc, -, hwritten⟩ := h.other hl hother hstep
    have hnone : l.gain = 0 := by
      cases l with
      | writer o => exact absurd rfl (hother o)
      | cancel | call | thread => rfl
    right
    rw [Limits.distance, Limits.distance, hpc, hwritten, hnone]
    omega

theorem keeps (h : Under limits start s) {l : Label p} (hl : Timely limits l)
    (hstep : (session p).step s l = some t) : Under limits start t := by
  refine ⟨h.reachable.step hl.limitsKept hstep, ?_, h.later.trans (inserted_of_step hstep)⟩
  intro hcancelled
  cases sessionStep_cases hstep with
  | exit o => exact h.running hcancelled
  | writer o u hmove => exact hmove.not_cancelled_after hcancelled
  | writerExit o u hmove => exact hmove.not_cancelled_after hcancelled
  | cancel hrequest hpc => exact hl
  | call i op t hmove =>
      cases hmove <;> exact h.running hcancelled
  | thread i acTime o t hmove =>
      rw [writer_of_threadMove hmove] at hcancelled
      exact h.running hcancelled

end Under

/-- The steps of `logger_thread` after which a message is in the file. -/
def Limits.latency (limits : Limits p) : Nat := 6 * (limits.size + p) + 8

theorem distance_le_latency {start : List Bytes} (h : Under limits start s) (target : Nat) :
    limits.distance target s ≤ limits.latency := by
  have hqueue := h.queue_le
  have hbatch := h.accounted.batch
  have hagain : ∀ reached, limits.again target reached ≤ 4 + limits.wholeBatch := by
    intro reached
    rw [Limits.again]
    split
    · exact Nat.zero_le _
    · exact Nat.le_refl _
  rw [Limits.distance]
  cases hpc : s.writer with
  | openFile b | bodyTop b =>
      rw [hpc] at hbatch
      have hqueued := hbatch.queued
      have hmore := hagain (s.written.length + b.iDataToWrite.toNat)
      rw [Limits.wholeBatch] at hmore
      rw [Limits.stepsTo, Limits.latency]
      omega
  | removeHead b msg =>
      rw [hpc] at hbatch
      have hqueued := hbatch.1.queued
      have hmore := hagain (s.written.length + b.iDataToWrite.toNat)
      rw [Limits.wholeBatch] at hmore
      rw [Limits.stepsTo, Limits.latency]
      omega
  | writeEntry b msg =>
      rw [hpc] at hbatch
      have hqueued := hbatch.2.1
      have hmore := hagain (s.written.length + b.iDataToWrite.toNat)
      rw [Limits.wholeBatch] at hmore
      rw [Limits.stepsTo, Limits.latency]
      omega
  | flushFile b =>
      have hmore := hagain s.written.length
      rw [Limits.wholeBatch] at hmore
      rw [Limits.stepsTo, Limits.latency]
      omega
  | poll | tryLock | closeFile | updateCount =>
      rw [Limits.stepsTo, Limits.latency, Limits.wholeBatch]
      omega
  | cancelled => exact absurd hpc h.running

theorem approaches {start : List Bytes} {target : Nat} (htarget : target + limits.bulk ≤ start.length) :
    Approaches (limitedSession limits) (Timely limits) (Under limits start)
      (fun s => target ≤ s.logfile.length) (limits.distance target) Label.gain Label.cost where
  keeps := fun _ _ _ h hl hstep => h.keeps hl hstep
  stays := fun _ _ _ _ _ hstep hgoal => Nat.le_trans hgoal (logfile_le_of_step hstep)
  nearer := fun _ _ _ h hl hstep => h.nearer htarget hl hstep

theorem Under.run {start : List Bytes} (h : Under limits start s) {ls : List (Label p)}
    (hls : ∀ l ∈ ls, Timely limits l) (hrun : (limitedSession limits).run s ls = some t) :
    Under limits start t := by
  induction ls generalizing s with
  | nil =>
      obtain rfl := Option.some.inj hrun
      exact h
  | cons l ls ih =>
      obtain ⟨u, hu, hrest⟩ := Option.bind_eq_some_iff.mp hrun
      exact ih (h.keeps (hls l List.mem_cons_self) hu) (fun m hm => hls m (List.mem_cons_of_mem _ hm)) hrest

/-- All that was inserted, less a bulk, is in the file after `latency` steps of `logger_thread`, with
one more for each time the lock was busy, whatever the other threads do meanwhile. With the bulk of
zero the logger starts with, nothing is left out. -/
theorem messages_reach_file (hs : Reachable (limitedSession limits) (LimitsKept limits) s)
    (hrunning : s.writer ≠ .cancelled) {ls : List (Label p)} (hls : ∀ l ∈ ls, Timely limits l)
    (hrun : (limitedSession limits).run s ls = some t)
    (henough : limits.latency + (ls.map Label.cost).sum < (ls.map Label.gain).sum) :
    s.inserted.take (s.inserted.length - limits.bulk) <+: t.logfile := by
  have hstart : Under limits s.inserted s := ⟨hs, hrunning, List.prefix_refl _⟩
  have hend := hstart.run hls hrun
  have hfile : t.logfile <+: t.inserted := by
    rw [← hend.conserved, Session.written, List.append_assoc]
    exact List.prefix_append _ _
  by_cases hbulk : limits.bulk ≤ s.inserted.length
  · have htarget : s.inserted.length - limits.bulk + limits.bulk ≤ s.inserted.length := by omega
    have hdistance := distance_le_latency hstart (s.inserted.length - limits.bulk)
    have hreached := (approaches htarget).run_reaches hstart hls hrun (by omega)
    apply List.prefix_of_prefix_length_le ((List.take_prefix _ _).trans hend.later) hfile
    rw [List.length_take]
    exact Nat.le_trans (Nat.min_le_left _ _) hreached
  · rw [Nat.sub_eq_zero_of_le (Nat.le_of_not_le hbulk), List.take_zero]
    exact List.nil_prefix

/-- One thread, and a queue that takes a message only while it is empty. -/
def tightLimits : Limits 1 := ⟨0, 0, by decide⟩

def tightSession : Session 1 := loggerInit ⟨1000, 0, 0, 0⟩ LoggerType.eERROR.value false 1

theorem messages_reach_file_boot :
    ∃ s t, (limitedSession tightLimits).run tightSession (logsError (Bytes.ascii "boot")) = some s ∧
      s.inserted.length = 1 ∧ s.logfile = [] ∧
      (limitedSession tightLimits).run s (writerMoves 15) = some t ∧
      s.inserted.take (s.inserted.length - tightLimits.bulk) <+: t.logfile := by
  obtain ⟨s, t, hboot, hinserted, hlogfile, hwriter, hrun⟩ : ∃ s t,
      (limitedSession tightLimits).run tightSession (logsError (Bytes.ascii "boot")) = some s ∧
      s.inserted.length = 1 ∧ s.logfile = [] ∧ s.writer = .poll ∧
      (limitedSession tightLimits).run s (writerMoves 15) = some t :=
    ⟨_, _, rfl, rfl, rfl, rfl, rfl⟩
  have hinit : (limitedSession tightLimits).Init tightSession :=
    ⟨⟨1000, 0, 0, 0⟩, _, _, _, ⟨by decide, by decide, by decide⟩, rfl⟩
  have hs : Reachable (limitedSession tightLimits) (LimitsKept tightLimits) s :=
    (Reachable.init hinit).run
      (by simp [logsError, threadMoves, LimitsKept]) hboot
  refine ⟨s, t, hboot, hinserted, hlogfile, hrun, ?_⟩
  apply messages_reach_file hs (by rw [hwriter]; simp) _ hrun (by decide)
  intro l hl
  rw [List.eq_of_mem_replicate hl]
  exact .inl rfl

end CewServer.Logger
