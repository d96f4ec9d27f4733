import CewServer.Logger.Session

/-!
# What each step of a session can do

One inversion per step function, guards included. The invariants of a session are proved from these
and never unfold the step functions again, so a change to one branch of `cew_logger.c` changes one
constructor here and the cases that name it.
-/

namespace CewServer.Logger

variable {p : Nat} {s t : Session p} {i : Fin p}

/-! ### The state after a move of a thread -/

namespace Session

@[simp] theorem goto_threads (s : Session p) (i : Fin p) (pc : ThreadPc) :
    (s.goto i pc).threads = Function.update s.threads i pc := rfl

@[simp] theorem goto_queue (s : Session p) (i : Fin p) (pc : ThreadPc) :
    (s.goto i pc).queue = s.queue := rfl

@[simp] theorem goto_writer (s : Session p) (i : Fin p) (pc : ThreadPc) :
    (s.goto i pc).writer = s.writer := rfl

@[simp] theorem goto_iDataInQueueCount (s : Session p) (i : Fin p) (pc : ThreadPc) :
    (s.goto i pc).iDataInQueueCount = s.iDataInQueueCount := rfl

@[simp] theorem goto_iIsInitDone (s : Session p) (i : Fin p) (pc : ThreadPc) :
    (s.goto i pc).iIsInitDone = s.iIsInitDone := rfl

@[simp] theorem goto_iShuttingDown (s : Session p) (i : Fin p) (pc : ThreadPc) :
    (s.goto i pc).iShuttingDown = s.iShuttingDown := rfl

@[simp] theorem goto_sCurrLogSettings (s : Session p) (i : Fin p) (pc : ThreadPc) :
    (s.goto i pc).sCurrLogSettings = s.sCurrLogSettings := rfl

@[simp] theorem goto_LogfileFd (s : Session p) (i : Fin p) (pc : ThreadPc) :
    (s.goto i pc).LogfileFd = s.LogfileFd := rfl

@[simp] theorem goto_logfile (s : Session p) (i : Fin p) (pc : ThreadPc) :
    (s.goto i pc).logfile = s.logfile := rfl

@[simp] theorem goto_inserted (s : Session p) (i : Fin p) (pc : ThreadPc) :
    (s.goto i pc).inserted = s.inserted := rfl

@[simp] theorem goto_discarded (s : Session p) (i : Fin p) (pc : ThreadPc) :
    (s.goto i pc).discarded = s.discarded := rfl

@[simp] theorem goto_fault (s : Session p) (i : Fin p) (pc : ThreadPc) :
    (s.goto i pc).fault = s.fault := rfl

end Session

/-! ### The writer -/

/-- What a step of `logger_thread` that does not leave the process does. -/
inductive WriterMove (s : Session p) : Session p → Prop
  | idle (w : WriterPc) (hidle : s.writer = .poll ∨ s.writer = .tryLock)
      (hw : w = .poll ∨ w = .tryLock) : WriterMove s { s with writer := w }
  | snapshotCount (hpc : s.writer = .tryLock) : WriterMove s s.snapshotCount
  | openFile (b : Batch) (hpc : s.writer = .openFile b) :
      WriterMove s { s with LogfileFd := some [], writer := .bodyTop b }
  | peekHead (b : Batch) (hpc : s.writer = .bodyTop b) : WriterMove s (s.peekHead b)
  | removeHead (b : Batch) (msg : Bytes) (hpc : s.writer = .removeHead b msg) :
      WriterMove s (s.removeHead b msg)
  | writeEntry (b : Batch) (msg : Bytes) (hpc : s.writer = .writeEntry b msg) :
      WriterMove s (s.writeEntry b msg)
  | flushFile (b : Batch) (hpc : s.writer = .flushFile b) : WriterMove s (s.flushFile b)
  | closeFile (b : Batch) (hpc : s.writer = .closeFile b) :
      WriterMove s (s.closeFile (.updateCount b))
  | updateCount (b : Batch) (hpc : s.writer = .updateCount b) : WriterMove s (s.updateCount b)

/-- What `logger_thread` leaves alone. -/
structure WriterFrame (s t : Session p) : Prop where
  threads : t.threads = s.threads
  inserted : t.inserted = s.inserted
  discarded : t.discarded = s.discarded
  iIsInitDone : t.iIsInitDone = s.iIsInitDone
  iShuttingDown : t.iShuttingDown = s.iShuttingDown

theorem WriterMove.frame (hmove : WriterMove s t) : WriterFrame s t := by
  cases hmove with
  | snapshotCount hpc =>
      unfold Session.snapshotCount
      split <;> exact ⟨rfl, rfl, rfl, rfl, rfl⟩
  | peekHead b hpc =>
      unfold Session.peekHead
      split <;> exact ⟨rfl, rfl, rfl, rfl, rfl⟩
  | _ => exact ⟨rfl, rfl, rfl, rfl, rfl⟩

theorem WriterMove.not_cancelled (hmove : WriterMove s t) : s.writer ≠ .cancelled := by
  cases hmove with
  | idle w hidle hw => rcases hidle with hpc | hpc <;> simp [hpc]
  | _ => simp [*]

theorem lockedStep_cases {u : Session p} {o : Outcome} (h : lockedStep s u o = some t) :
    t = s.exit ∨ t = u ∨ t = u.exit := by
  cases o <;> simp only [lockedStep, Option.some.injEq, reduceCtorEq] at h
  · exact .inr (.inl h.symm)
  · exact .inl h.symm
  · exact .inr (.inr h.symm)

theorem checkedStep_cases {u : Session p} {o : Outcome} (h : checkedStep s u o = some t) :
    t = s.exit ∨ t = u ∨ t = u.exit := by
  cases o <;> simp only [checkedStep, Option.some.injEq, reduceCtorEq] at h
  · exact .inr (.inl h.symm)
  · exact .inl h.symm

/-- A step of `logger_thread` moves the writer, leaves the process, or both. -/
theorem loggerThread_cases {o : Outcome} (h : loggerThread s o = some t) :
    t = s.exit ∨ ∃ u, WriterMove s u ∧ (t = u ∨ t = u.exit) := by
  have hmove : ∀ {u : Session p}, WriterMove s u → t = s.exit ∨ t = u ∨ t = u.exit →
      t = s.exit ∨ ∃ u, WriterMove s u ∧ (t = u ∨ t = u.exit) :=
    fun hu ht => ht.imp_right fun ht => ⟨_, hu, ht⟩
  unfold loggerThread at h
  split at h
  case h_1 hpc =>
    obtain rfl := Option.some.inj h
    exact hmove (.idle .tryLock (.inl hpc) (.inr rfl)) (.inr (.inl rfl))
  case h_2 hpc =>
    split at h
    · obtain rfl := Option.some.inj h
      exact hmove (.idle .poll (.inr hpc) (.inl rfl)) (.inr (.inl rfl))
    · exact hmove (.snapshotCount hpc) (lockedStep_cases h)
  case h_3 b hpc => exact hmove (.openFile b hpc) (checkedStep_cases h)
  case h_4 b hpc =>
    obtain rfl := Option.some.inj h
    exact hmove (.peekHead b hpc) (.inr (.inl rfl))
  case h_5 b msg hpc => exact hmove (.removeHead b msg hpc) (lockedStep_cases h)
  case h_6 b msg hpc => exact hmove (.writeEntry b msg hpc) (checkedStep_cases h)
  case h_7 b hpc => exact hmove (.flushFile b hpc) (checkedStep_cases h)
  case h_8 b hpc => exact hmove (.closeFile b hpc) (checkedStep_cases h)
  case h_9 b hpc => exact hmove (.updateCount b hpc) (lockedStep_cases h)
  case h_10 => cases h

/-! ### The other threads -/

/-- What a step of a thread inside the logger does. -/
inductive ThreadMove (s : Session p) (i : Fin p) : Session p → Prop
  | refused (caller : Caller) (eType : LoggerType) (text : Bytes)
      (hpc : s.threads i = .msgAllowed caller eType text)
      (hno : s.isMsgAllowed eType ≠ .exitSuccess) :
      ThreadMove s i (s.goto i (caller.afterLog .exitFailure))
  | allowed (caller : Caller) (eType : LoggerType) (text : Bytes)
      (hpc : s.threads i = .msgAllowed caller eType text)
      (hyes : s.isMsgAllowed eType = .exitSuccess) :
      ThreadMove s i (s.goto i (.sizeCheck caller eType text))
  | full (caller : Caller) (eType : LoggerType) (text : Bytes)
      (hpc : s.threads i = .sizeCheck caller eType text)
      (hfull : s.sCurrLogSettings.iLoggerQueueSize < s.iDataInQueueCount) :
      ThreadMove s i (s.goto i (caller.afterLog .exitFailure))
  | formatted (caller : Caller) (eType : LoggerType) (text msg : Bytes)
      (hpc : s.threads i = .sizeCheck caller eType text)
      (hroom : s.iDataInQueueCount ≤ s.sCurrLogSettings.iLoggerQueueSize) :
      ThreadMove s i (s.goto i (.insertTail caller msg))
  | lockFailed (caller : Caller) (msg : Bytes) (hpc : s.threads i = .insertTail caller msg) :
      ThreadMove s i (s.goto i (caller.afterLog .exitFailure))
  | insert (caller : Caller) (msg : Bytes) (iRet : LogRet)
      (hpc : s.threads i = .insertTail caller msg) :
      ThreadMove s i ((s.insert msg).goto i (caller.afterLog iRet))
  | flushSet (caller : Caller) (hpc : s.threads i = .flushSet caller) :
      ThreadMove s i ({ s with iDoForceFlush := true }.goto i (.flushPoll caller maxLoops 0))
  | flushed (caller : Caller) (MaxLoops polls : Nat)
      (hpc : s.threads i = .flushPoll caller MaxLoops polls)
      (hleave : MaxLoops = 0 ∨ s.iDataInQueueCount = 0) :
      ThreadMove s i (s.goto i caller.afterFlush)
  | polled (caller : Caller) (MaxLoops polls : Nat)
      (hpc : s.threads i = .flushPoll caller (MaxLoops + 1) polls)
      (hcount : s.iDataInQueueCount ≠ 0) :
      ThreadMove s i (s.goto i (.flushPoll caller MaxLoops (polls + 1)))
  | destroying (text : Bytes) (hpc : s.threads i = .destroyEntry) (hopen : s.iIsInitDone = true) :
      ThreadMove s i (s.goto i (.msgAllowed .destroy .eDEBUG text))
  | noInit (hpc : s.threads i = .destroyEntry) (hclosed : s.iIsInitDone = false) :
      ThreadMove s i (s.goto i (.ready .noInit))
  | shutDown (hpc : s.threads i = .shutDown) :
      ThreadMove s i ({ s with iShuttingDown := true }.goto i (.flushSet .destroy))
  | cancelThread (hpc : s.threads i = .cancelThread) :
      ThreadMove s i ({ s with cancelRequested := true }.goto i .joinThread)
  | joined (hpc : s.threads i = .joinThread) (hwriter : s.writer = .cancelled) :
      ThreadMove s i (s.goto i .closeStream)
  | closeStream (hpc : s.threads i = .closeStream) :
      ThreadMove s i ((s.closeFile s.writer).goto i (.freeQueue 0))
  | freeEntry (freed : Nat) (msg : Bytes) (hpc : s.threads i = .freeQueue freed)
      (hmsg : s.queue[freed]? = some msg) :
      ThreadMove s i ({ s with discarded := s.discarded ++ [msg] }.goto i (.freeQueue (freed + 1)))
  | freedAll (freed : Nat) (hpc : s.threads i = .freeQueue freed) (hend : s.queue[freed]? = none) :
      ThreadMove s i (s.goto i .resetCount)
  | resetCount (hpc : s.threads i = .resetCount) :
      ThreadMove s i ({ s with iDataInQueueCount := 0 }.goto i .finish)
  | finish (hpc : s.threads i = .finish) :
      ThreadMove s i ({ s with iIsInitDone := false }.goto i (.ready .exitSuccess))

theorem threadStep_cases {acTime : Bytes} {o : Outcome} (h : threadStep s i acTime o = some t) :
    ThreadMove s i t := by
  unfold threadStep at h
  split at h
  case h_1 => cases h
  case h_2 caller eType text hpc =>
    split at h <;> obtain rfl := Option.some.inj h
    · exact .allowed caller eType text hpc ‹_›
    · exact .refused caller eType text hpc ‹_›
  case h_3 caller eType text hpc =>
    split at h <;> obtain rfl := Option.some.inj h
    · exact .full caller eType text hpc ‹_›
    · exact .formatted caller eType text _ hpc (by omega)
  case h_4 caller msg hpc =>
    cases o <;> simp only [Option.some.injEq, reduceCtorEq] at h <;> subst h
    · exact .insert caller msg _ hpc
    · exact .lockFailed caller msg hpc
    · exact .insert caller msg _ hpc
  case h_5 caller hpc =>
    obtain rfl := Option.some.inj h
    exact .flushSet caller hpc
  case h_6 caller MaxLoops polls hpc =>
    split at h
    · obtain rfl := Option.some.inj h
      exact .flushed caller MaxLoops polls hpc (.inl ‹_›)
    · split at h <;> obtain rfl := Option.some.inj h
      · exact .flushed caller MaxLoops polls hpc (.inr ‹_›)
      · obtain ⟨n, rfl⟩ := Nat.exists_eq_succ_of_ne_zero (by assumption : MaxLoops ≠ 0)
        exact .polled caller n polls hpc ‹_›
  case h_7 hpc =>
    split at h <;> obtain rfl := Option.some.inj h
    · exact .destroying _ hpc ‹_›
    · exact .noInit hpc (by simpa using ‹¬ s.iIsInitDone = true›)
  case h_8 hpc =>
    obtain rfl := Option.some.inj h
    exact .shutDown hpc
  case h_9 hpc =>
    obtain rfl := Option.some.inj h
    exact .cancelThread hpc
  case h_10 hpc =>
    split at h
    · obtain rfl := Option.some.inj h
      exact .joined hpc ‹_›
    · cases h
  case h_11 hpc =>
    obtain rfl := Option.some.inj h
    exact .closeStream hpc
  case h_12 freed hpc =>
    split at h <;> obtain rfl := Option.some.inj h
    · exact .freeEntry freed _ hpc ‹_›
    · exact .freedAll freed hpc ‹_›
  case h_13 hpc =>
    obtain rfl := Option.some.inj h
    exact .resetCount hpc
  case h_14 hpc =>
    obtain rfl := Option.some.inj h
    exact .finish hpc

/-- What a call does: the thread enters the function, and `logger_set` is over at once. -/
inductive CallMove (s : Session p) (i : Fin p) : Call → Session p → Prop
  | logMsg (iRet : LogRet) (eType : LoggerType) (text : Bytes) (hpc : s.threads i = .ready iRet) :
      CallMove s i (.logMsg eType text) (s.goto i (.msgAllowed .program eType text))
  | loggerFlush (iRet : LogRet) (hpc : s.threads i = .ready iRet) :
      CallMove s i .loggerFlush (s.goto i (.flushSet .program))
  | loggerSet (iRet : LogRet) (settings : LogSettings) (hpc : s.threads i = .ready iRet) :
      CallMove s i (.loggerSet settings)
        ({ s with sCurrLogSettings := settings }.goto i (.ready .exitSuccess))
  | loggerDestroy (iRet : LogRet) (hpc : s.threads i = .ready iRet) :
      CallMove s i .loggerDestroy (s.goto i .destroyEntry)

theorem callStep_cases {op : Call} (h : callStep s i op = some t) : CallMove s i op t := by
  unfold callStep at h
  split at h
  case h_1 iRet hpc =>
    cases op <;> obtain rfl := Option.some.inj h
    · exact .logMsg iRet _ _ hpc
    · exact .loggerFlush iRet hpc
    · exact .loggerSet iRet _ hpc
    · exact .loggerDestroy iRet hpc
  case h_2 => cases h

/-! ### The session -/

inductive SessionMove (s : Session p) : Label p → Session p → Prop
  | exit (o : Outcome) : SessionMove s (.writer o) s.exit
  | writer (o : Outcome) (u : Session p) (hmove : WriterMove s u) : SessionMove s (.writer o) u
  | writerExit (o : Outcome) (u : Session p) (hmove : WriterMove s u) :
      SessionMove s (.writer o) u.exit
  | cancel (hrequest : s.cancelRequested = true) (hpc : s.writer = .poll) :
      SessionMove s .cancel { s with writer := .cancelled }
  | call (i : Fin p) (op : Call) (t : Session p) (hmove : CallMove s i op t) :
      SessionMove s (.call i op) t
  | thread (i : Fin p) (acTime : Bytes) (o : Outcome) (t : Session p) (hmove : ThreadMove s i t) :
      SessionMove s (.thread i acTime o) t

theorem sessionStep_cases {l : Label p} (h : (session p).step s l = some t) : SessionMove s l t := by
  change sessionStep s l = some t at h
  unfold sessionStep at h
  split at h
  · cases h
  cases l with
  | writer o =>
      rcases loggerThread_cases h with rfl | ⟨u, hmove, rfl | rfl⟩
      · exact .exit o
      · exact .writer o _ hmove
      · exact .writerExit o _ hmove
  | cancel =>
      simp only [cancelStep] at h
      split at h
      · rename_i hguard
        obtain rfl := Option.some.inj h
        exact .cancel hguard.1 hguard.2
      · cases h
  | call i op => exact .call i op t (callStep_cases h)
  | thread i acTime o => exact .thread i acTime o t (threadStep_cases h)

/-! A process that runs on takes the step of whoever moves. -/

theorem step_writer (hrunning : s.exited = false) (hfault : s.fault = false) (o : Outcome) :
    (session p).step s (.writer o) = loggerThread s o := by
  change sessionStep s (.writer o) = _
  simp only [sessionStep, hrunning, hfault, Bool.or_self, Bool.false_eq_true, if_false]

theorem step_thread (hrunning : s.exited = false) (hfault : s.fault = false) (i : Fin p)
    (acTime : Bytes) (o : Outcome) :
    (session p).step s (.thread i acTime o) = threadStep s i acTime o := by
  change sessionStep s (.thread i acTime o) = _
  simp only [sessionStep, hrunning, hfault, Bool.or_self, Bool.false_eq_true, if_false]

theorem running_of_step {l : Label p} (h : (session p).step s l = some t) :
    s.exited = false ∧ s.fault = false := by
  change sessionStep s l = some t at h
  unfold sessionStep at h
  split at h
  · cases h
  · rename_i hrunning
    simpa only [Bool.or_eq_true, not_or, Bool.not_eq_true] using hrunning

theorem loggerThread_of_step {o : Outcome} (h : (session p).step s (.writer o) = some t) :
    loggerThread s o = some t := by
  obtain ⟨hrunning, hfault⟩ := running_of_step h
  rw [step_writer hrunning hfault] at h
  exact h

theorem threadStep_of_step {acTime : Bytes} {o : Outcome}
    (h : (session p).step s (.thread i acTime o) = some t) : threadStep s i acTime o = some t := by
  obtain ⟨hrunning, hfault⟩ := running_of_step h
  rw [step_thread hrunning hfault] at h
  exact h

end CewServer.Logger
