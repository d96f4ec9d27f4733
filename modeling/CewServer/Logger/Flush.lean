import CewServer.Logger.Fifo

/-!
# What `logger_flush` waits for

`logger_flush` polls the count of the queue without the mutex. A batch lowers the count only after
the file was flushed and closed, and raises nothing in between, so a count of zero means that no
batch is under way, that nothing is queued and that everything inserted is in the file. The other way
out of its loop is to give up after twenty polls. Only the reset at the end of `logger_destroy` makes
the count zero without any of this.
-/

namespace CewServer.Logger

variable {p : Nat} {s t : Session p} {i : Fin p}

/-- From the sizing of a batch to the update of the count. -/
def WriterPc.inBatch : WriterPc → Bool
  | .poll | .tryLock | .cancelled => false
  | _ => true

theorem Accounted.count_pos (h : Accounted s) (hbatch : s.writer.inBatch = true) :
    1 ≤ s.iDataInQueueCount := by
  have hcounted := h.count (by intro hpc; rw [hpc] at hbatch; cases hbatch)
  have hok := h.batch
  cases hpc : s.writer <;> rw [hpc] at hbatch hcounted hok
  case poll => cases hbatch
  case tryLock => cases hbatch
  case cancelled => cases hbatch
  all_goals simp only [WriterPc.popped] at hcounted
  case openFile b =>
    obtain ⟨hpositive, hqueued, -, -⟩ := hok
    omega
  case bodyTop b =>
    obtain ⟨hpositive, hqueued, -, -⟩ := hok
    omega
  case removeHead b msg =>
    obtain ⟨⟨hpositive, hqueued, -, -⟩, -⟩ := hok
    omega
  case writeEntry b msg =>
    obtain ⟨-, -, hsome, -, -⟩ := hok
    omega
  case flushFile b =>
    obtain ⟨hpositive, hpopped, htotal⟩ := hok
    omega
  case closeFile b =>
    obtain ⟨hpositive, hpopped, htotal⟩ := hok
    omega
  case updateCount b =>
    obtain ⟨hpositive, hpopped, htotal⟩ := hok
    omega

/-- A count of zero that stands in an open session: all that was inserted is in the file. -/
theorem drained_of_count_zero (hs : Transition.Reachable (session p) SettingsKept s)
    (hopen : s.iIsInitDone = true) (hstands : s.CountStands) (hzero : s.iDataInQueueCount = 0) :
    s.writer.inBatch = false ∧ s.queue = [] ∧ s.LogfileFd = none ∧ s.logfile = s.inserted := by
  have hacc := accounted_of_reachable hs
  have hcounted := hacc.counted hopen hstands
  have hbatch : s.writer.inBatch = false := by
    by_contra hbatch
    have := hacc.count_pos (by simpa using hbatch)
    omega
  have hqueue : s.queue = [] := List.length_eq_zero_iff.mp (by omega)
  have hnone : s.LogfileFd = none := by
    have hstream := streamOk_of_reachable hs
    unfold StreamOk at hstream
    cases hpc : s.writer <;> rw [hpc] at hbatch hstream <;>
      first | simpa [WriterPc.hasStream] using hstream | cases hbatch
  have hhand : s.writer.inHand = [] := by
    cases hpc : s.writer <;> rw [hpc] at hbatch <;> first | rfl | cases hbatch
  obtain ⟨c, -, hcarries⟩ := session_refines_channel hs
  have hall := c.conserved
  rw [hcarries.received, hcarries.inFlight, hcarries.sent, hhand, hqueue, Session.written, hnone] at hall
  exact ⟨hbatch, hqueue, hnone, by simpa using hall⟩

/-! ### The polls of one call -/

/-- The loop counter and the polls made add up to the number of polls allowed. -/
def PollsOk (s : Session p) : Prop :=
  ∀ i caller MaxLoops polls, s.threads i = .flushPoll caller MaxLoops polls →
    MaxLoops + polls = maxLoops

theorem PollsOk.goto (h : PollsOk s) (i : Fin p) {pc : ThreadPc}
    (hpc : ∀ caller MaxLoops polls, pc = .flushPoll caller MaxLoops polls →
      MaxLoops + polls = maxLoops) : PollsOk (s.goto i pc) := by
  intro j caller MaxLoops polls hj
  by_cases hji : j = i
  · subst hji
    exact hpc caller MaxLoops polls (by simpa using hj)
  · exact h j caller MaxLoops polls (by simpa [hji] using hj)

theorem PollsOk.of_threadMove (h : PollsOk s) (hmove : ThreadMove s i t) : PollsOk t := by
  have hlog : ∀ (caller : Caller) (iRet : LogRet) (c : Caller) (n k : Nat),
      caller.afterLog iRet = .flushPoll c n k → n + k = maxLoops := by
    intro caller iRet c n k heq
    cases caller <;> cases heq
  cases hmove with
  | refused caller eType text hpc hno => exact h.goto i (hlog caller _)
  | full caller eType text hpc hfull => exact h.goto i (hlog caller _)
  | lockFailed caller msg hpc => exact h.goto i (hlog caller _)
  | insert caller msg iRet hpc => exact h.goto i (hlog caller iRet)
  | flushSet caller hpc =>
      refine h.goto i ?_
      rintro c n k heq
      cases heq
      rfl
  | flushed caller MaxLoops polls hpc hleave =>
      refine h.goto i ?_
      rintro c n k heq
      cases caller <;> cases heq
  | polled caller MaxLoops polls hpc hcount =>
      have hsum := h i _ _ _ hpc
      refine h.goto i ?_
      rintro c n k heq
      cases heq
      omega
  | _ =>
      refine h.goto i ?_
      rintro c n k heq
      cases heq

theorem PollsOk.of_step (h : PollsOk s) {l : Label p} (hstep : (session p).step s l = some t) :
    PollsOk t := by
  cases sessionStep_cases hstep with
  | exit o => exact h
  | writer o u hmove =>
      unfold PollsOk
      rw [hmove.frame.threads]
      exact h
  | writerExit o u hmove =>
      have hthreads : u.exit.threads = s.threads := hmove.frame.threads
      unfold PollsOk
      rw [hthreads]
      exact h
  | cancel hrequest hpc => exact h
  | call i op t hmove =>
      cases hmove <;>
      · refine h.goto i ?_
        rintro c n k heq
        cases heq
  | thread i acTime o t hmove => exact h.of_threadMove hmove

theorem pollsOk_of_reachable (hs : Transition.Reachable (session p) SettingsKept s) : PollsOk s := by
  refine hs.invariant ?_ fun _ _ _ h _ hstep => h.of_step hstep
  rintro s ⟨settings, Loglevel, bTerminateProg, pid, hsettings, rfl⟩ i caller MaxLoops polls hpc
  cases hpc

/-- The polls `logger_flush` may make are twenty, and it leaves them early only when everything
inserted is in the file, flushed and closed, with nothing queued and no batch under way, unless
`logger_destroy` is about to end and has reset the count. -/
theorem loggerFlush_sound (hs : Transition.Reachable (session p) SettingsKept s)
    (hopen : s.iIsInitDone = true) (hstands : s.CountStands) :
    (∀ i caller MaxLoops polls, s.threads i = .flushPoll caller (MaxLoops + 1) polls →
      s.iDataInQueueCount = 0 →
      s.logfile = s.inserted ∧ s.LogfileFd = none ∧ s.writer.inBatch = false ∧ s.queue = []) ∧
    (∀ i caller MaxLoops polls acTime o t, s.threads i = .flushPoll caller MaxLoops polls →
      (session p).step s (.thread i acTime o) = some t → t.threads i = caller.afterFlush →
      s.logfile ≠ s.inserted → MaxLoops = 0 ∧ polls = 20) := by
  refine ⟨fun i caller MaxLoops polls _ hzero => ?_,
    fun i caller MaxLoops polls acTime o t hpc hstep hreturn hbehind => ?_⟩
  · obtain ⟨hbatch, hqueue, hnone, hall⟩ := drained_of_count_zero hs hopen hstands hzero
    exact ⟨hall, hnone, hbatch, hqueue⟩
  · have hsum : MaxLoops + polls = 20 := pollsOk_of_reachable hs i caller MaxLoops polls hpc
    have hcount : s.iDataInQueueCount ≠ 0 := fun hzero =>
      hbehind (drained_of_count_zero hs hopen hstands hzero).2.2.2
    cases MaxLoops with
    | zero => exact ⟨rfl, by omega⟩
    | succ n =>
        -- a poll that reads a positive count goes round again
        cases sessionStep_cases hstep with
        | thread i acTime o t hmove =>
            cases hmove with
            | flushed caller' n' k' hpc' hleave =>
                rw [hpc] at hpc'
                cases hpc'
                exact absurd hleave (by simp [hcount])
            | polled caller' n' k' hpc' hcount' =>
                simp only [Session.goto_threads, Function.update_self] at hreturn
                cases caller <;> cases hreturn
            | _ => simp_all

/-- One error is logged, `logger_thread` writes it, and the thread calls `logger_flush`. -/
def flushAfterWrite : List (Label 1) :=
  logsError (Bytes.ascii "boot") ++ writerMoves 9 ++ .call onlyThread .loggerFlush :: threadMoves 1

theorem loggerFlush_sound_afterWrite :
    ∃ s : Session 1, Transition.Reachable (session 1) SettingsKept s ∧ s.iIsInitDone = true ∧
      s.threads 0 = .flushPoll .program 20 0 ∧ s.iDataInQueueCount = 0 ∧
      s.inserted = [Bytes.ascii "now : Error : boot\n"] ∧ s.logfile = s.inserted ∧
      s.LogfileFd = none ∧ s.queue = [] := by
  have hinit : Transition.Reachable (session 1) SettingsKept
      (loggerInit LogSettings.default LoggerType.eERROR.value false 1) :=
    .init ⟨LogSettings.default, _, _, _, ⟨by decide, by decide⟩, rfl⟩
  obtain ⟨s, hrun, hopen, hstands, hpc, hzero, hinserted⟩ : ∃ s : Session 1, (session 1).run
      (loggerInit LogSettings.default LoggerType.eERROR.value false 1) flushAfterWrite = some s ∧
      s.iIsInitDone = true ∧ s.CountStands ∧ s.threads 0 = .flushPoll .program 20 0 ∧
      s.iDataInQueueCount = 0 ∧ s.inserted = [Bytes.ascii "now : Error : boot\n"] :=
    ⟨_, rfl, by decide, by decide, by decide, by decide, by decide⟩
  have hs := hinit.run (by simp [flushAfterWrite, logsError, threadMoves, writerMoves, SettingsKept]) hrun
  obtain ⟨hall, hnone, -, hqueue⟩ :=
    (loggerFlush_sound hs hopen hstands).1 0 .program 19 0 hpc hzero
  exact ⟨s, hs, hopen, hpc, hzero, hinserted, hall, hnone, hqueue⟩

end CewServer.Logger
