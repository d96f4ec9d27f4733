import CewServer.Logger.Destroy

/-!
# One logger session after the other

The static variables of `cew_logger.c` outlive a session. `logger_destroy` leaves the head of the
queue on freed entries and `iShuttingDown` raised; a `logger_init` that fails leaves `gpcLogfile` on a
freed string and the new level in place. `Process` is the process in which one thread calls the
logger, from the values the variables have at the start of the program: the `Session` they make up,
the path in `gpcLogfile`, the file the stream is open on, and the log files.

What the sessions are for is in the history: a `Tenure` is one of them, with the log file it was
opened on, the messages that were accepted in it and those of them that came to the file, and an
`Event` is a call that has returned.
-/

namespace CewServer.Logger

open Transition

/-- The string `gpcLogfile` points to. -/
inductive Logfile where
  | null
  | path (pcLogfilePath : Bytes)
  | freed
  deriving DecidableEq

inductive Event where
  | init (pcLogfilePath : Bytes) (iRet : LogRet)
  | destroy (iRet : LogRet)
  | logMsg (iRet : LogRet)

/-- One session: from a successful `logger_init` to the return of `logger_destroy`. -/
structure Tenure where
  pcLogfilePath : Bytes
  accepted : List Bytes
  written : List Bytes

/-- What has come to the file: when the process exits, also what is in the buffer of the stream. -/
def Session.onFile {p : Nat} (s : Session p) : List Bytes :=
  s.logfile ++ if s.exited then s.LogfileFd.getD [] else []

structure Process where
  logger : Session 1
  gpcLogfile : Logfile
  /-- The path that `LogfileFd` was opened with. -/
  stream : Option Bytes
  /-- What the logger has added to each file. -/
  files : Bytes → List Bytes
  /-- `gpcLogfile` was used when it pointed to no string. -/
  staleUse : Bool
  /-- The log file of the session that is open. -/
  current : Option Bytes
  past : List Tenure
  events : List Event

namespace Process

/-- The sessions so far, the open one last. -/
def tenures (x : Process) : List Tenure :=
  x.past ++ (x.current.map fun q => ⟨q, x.logger.inserted, x.logger.onFile⟩).toList

/-- The program calls `logger_init` and is back with its result. -/
def returnInit (x : Process) (pcLogfilePath : Bytes) (iRet : LogRet) : Process :=
  { x with
    logger := x.logger.goto onlyThread (.ready iRet)
    events := x.events ++ [.init pcLogfilePath iRet] }

def setLevel (s : Session 1) (Loglevel : UInt32) : Session 1 :=
  { s with sCurrLogSettings := { s.sCurrLogSettings with iCurrLogLevel := Loglevel } }

def setupQueue (s : Session 1) : Session 1 :=
  { s with queue := [], iDataInQueueCount := 0, iDoForceFlush := false, iShuttingDown := false }

/-- A new `logger_thread`; the history of the session starts with it. -/
def spinUp (s : Session 1) : Session 1 :=
  { s with
    writer := .poll, cancelRequested := false, iIsInitDone := true
    logfile := [], inserted := [], discarded := [] }

/-- `logger_init`; the last two arguments are that the test `fopen` and `pthread_create` succeed. -/
def loggerInit (x : Process) (pcLogfilePath : Bytes) (Loglevel : UInt32)
    (fopen pthreadCreate : Bool) : Process :=
  if x.logger.iIsInitDone then x.returnInit pcLogfilePath .noInit
  else
    let logger := setLevel x.logger Loglevel
    if !fopen then
      { x with logger := logger, gpcLogfile := .freed }.returnInit pcLogfilePath .exitFailure
    else if !pthreadCreate then
      { x with logger := setupQueue logger, gpcLogfile := .freed }.returnInit pcLogfilePath
        .exitFailure
    else
      { x with
        logger := spinUp (setupQueue logger)
        gpcLogfile := .path pcLogfilePath
        current := some pcLogfilePath }.returnInit pcLogfilePath .exitSuccess

/-- What a thread reports when it returns to the program from this place. -/
def returning : ThreadPc → Option (LogRet → Event)
  | .msgAllowed .program _ _ | .sizeCheck .program _ _ | .insertTail .program _ => some .logMsg
  | .destroyEntry | .finish => some .destroy
  | _ => none

def returned (s t : Session 1) : List Event :=
  match t.threads onlyThread with
  | .ready iRet => ((returning (s.threads onlyThread)).map fun event => event iRet).toList
  | _ => []

/-- The stream brings its messages to the file it was opened on. -/
def addToFile (x : Process) (t : Session 1) : Bytes → List Bytes :=
  match x.stream with
  | some q => Function.update x.files q (x.files q ++ t.onFile.drop x.logger.onFile.length)
  | none => x.files

def advance (x : Process) (t : Session 1) : Process :=
  { x with logger := t, files := x.addToFile t, events := x.events ++ returned x.logger t }

/-- The process after a step that takes the session to `t`. The path is read where the stream is
opened and freed where `logger_destroy` closes it, and a session is over when `logger_destroy` is. -/
def follow (x : Process) (l : Label 1) (t : Session 1) : Process :=
  match x.logger.writer, x.logger.threads onlyThread, l with
  | .openFile _, _, .writer o =>
      match x.gpcLogfile with
      | .path q => if o = .ok then { x.advance t with stream := some q } else x.advance t
      | _ => { x.advance t with staleUse := true }
  | _, .closeStream, .thread _ _ _ =>
      if x.gpcLogfile = .freed then { x.advance t with staleUse := true }
      else { x.advance t with gpcLogfile := .null }
  | _, .finish, .thread _ _ _ => { x.advance t with past := x.tenures, current := none }
  | _, _, _ => x.advance t

inductive Move where
  | loggerInit (pcLogfilePath : Bytes) (Loglevel : UInt32) (fopen pthreadCreate : Bool)
  | session (l : Label 1)

def step (x : Process) : Move → Option Process
  | .loggerInit pcLogfilePath Loglevel fopen pthreadCreate =>
      if x.logger.exited || x.logger.fault then none
      else match x.logger.threads onlyThread with
        | .ready _ => some (x.loggerInit pcLogfilePath Loglevel fopen pthreadCreate)
        | _ => none
  | .session l => ((Logger.session 1).step x.logger l).map fun t => x.follow l t

/-- The static variables at the start of the program. There is no `logger_thread`. -/
def start (bTerminateProg : Bool) (pid : Nat) : Process where
  logger :=
    { (Logger.loggerInit LogSettings.default LoggerType.eWARNING.value bTerminateProg pid) with
      iIsInitDone := false, writer := .cancelled }
  gpcLogfile := .null
  stream := none
  files := fun _ => []
  staleUse := false
  current := none
  past := []
  events := []

def system : System Process Move where
  Init x := ∃ bTerminateProg pid, x = start bTerminateProg pid
  step := step

/-- A call of `logger_set` keeps the settings admissible. -/
def Kept (x : Process) : Move → Prop
  | .session l => SettingsKept x.logger l
  | .loggerInit _ _ _ _ => True

end Process

/-- The sessions as the callers are to see them: which log file is open after an event, if the event
may happen then. -/
def Event.next : Option Bytes → Event → Option (Option Bytes)
  | none, .init q .exitSuccess => some (some q)
  | none, .init _ .exitFailure => some none
  | some q, .init _ .noInit => some (some q)
  | some _, .destroy .exitSuccess => some none
  | none, .destroy .noInit => some none
  | some q, .logMsg .exitSuccess => some (some q)
  | file, .logMsg .exitFailure => some file
  | _, _ => none

/-! ### What the process sees of a step of the session -/

section SessionSteps

variable {s t : Session 1} {l : Label 1}

theorem eq_onlyThread (i : Fin 1) : i = onlyThread := Subsingleton.elim i onlyThread

/-- The step that ends `logger_destroy`. -/
def Finishes (s : Session 1) (l : Label 1) : Prop :=
  s.threads onlyThread = .finish ∧ ∃ i acTime o, l = .thread i acTime o

theorem finish_of_step (hends : Finishes s l) (hstep : (session 1).step s l = some t) :
    t = { s with iIsInitDone := false }.goto onlyThread (.ready .exitSuccess) := by
  obtain ⟨hpc, i, acTime, o, rfl⟩ := hends
  have hthread := threadStep_of_step hstep
  rw [eq_onlyThread i] at hthread
  simp only [threadStep, hpc, Option.some.injEq] at hthread
  exact hthread.symm

theorem closeStream_of_step {i : Fin 1} {acTime : Bytes} {o : Outcome}
    (hpc : s.threads onlyThread = .closeStream)
    (hstep : (session 1).step s (.thread i acTime o) = some t) :
    t = (s.closeFile s.writer).goto onlyThread (.freeQueue 0) := by
  have hthread := threadStep_of_step hstep
  rw [eq_onlyThread i] at hthread
  simp only [threadStep, hpc, Option.some.injEq] at hthread
  exact hthread.symm

/-- Places a thread comes to only in an open session. -/
def ThreadPc.inSession : ThreadPc → Bool
  | .ready _ | .msgAllowed .program _ _ | .flushSet .program | .flushPoll .program _ _
  | .destroyEntry => false
  | _ => true

/-- A step is one of `logger_thread`, which leaves the caller where it is, or a step of the caller. -/
theorem caller_of_step (hstep : (session 1).step s l = some t) :
    (t.threads = s.threads ∧ t.iIsInitDone = s.iIsInitDone) ∨ (∃ op, CallMove s onlyThread op t) ∨
      ∃ acTime o, l = .thread onlyThread acTime o ∧ ThreadMove s onlyThread t := by
  cases sessionStep_cases hstep with
  | exit o => exact .inl ⟨rfl, rfl⟩
  | writer o u hmove => exact .inl ⟨hmove.frame.threads, hmove.frame.iIsInitDone⟩
  | writerExit o u hmove => exact .inl ⟨hmove.frame.threads, hmove.frame.iIsInitDone⟩
  | cancel hrequest hpc => exact .inl ⟨rfl, rfl⟩
  | call i op t hmove =>
      obtain rfl := eq_onlyThread i
      exact .inr (.inl ⟨op, hmove⟩)
  | thread i acTime o t hmove =>
      obtain rfl := eq_onlyThread i
      exact .inr (.inr ⟨acTime, o, rfl, hmove⟩)

/-- Only the end of `logger_destroy` closes the session. -/
theorem isInitDone_of_step (hstep : (session 1).step s l = some t) :
    t.iIsInitDone = s.iIsInitDone ∨ Finishes s l := by
  rcases caller_of_step hstep with ⟨-, hsame⟩ | ⟨op, hmove⟩ | ⟨acTime, o, rfl, hmove⟩
  · exact .inl hsame
  · cases hmove <;> exact .inl rfl
  · cases hmove with
    | finish hpc => exact .inr ⟨hpc, _, acTime, o, rfl⟩
    | _ => exact .inl rfl

theorem iIsInitDone_of_msgAllowed {eType : LoggerType} (h : s.isMsgAllowed eType = .exitSuccess) :
    s.iIsInitDone = true := by
  unfold Session.isMsgAllowed at h
  split at h
  · cases h
  · rename_i hopen
    simpa using hopen

/-- A thread stays inside an open session, and comes to be inside one only where one is open. -/
theorem inSession_of_step (hinside : (s.threads onlyThread).inSession = true → s.iIsInitDone = true)
    (hstep : (session 1).step s l = some t) (ht : (t.threads onlyThread).inSession = true) :
    t.iIsInitDone = true := by
  rcases caller_of_step hstep with ⟨hthreads, hsame⟩ | ⟨op, hmove⟩ | ⟨acTime, o, rfl, hmove⟩
  · rw [hthreads] at ht
    rw [hsame]
    exact hinside ht
  · cases hmove <;> simp [ThreadPc.inSession] at ht
  · cases hmove with
    | allowed caller eType text hpc hyes => exact iIsInitDone_of_msgAllowed hyes
    | destroying text hpc hopen => exact hopen
    | refused caller eType text hpc hno =>
        cases caller
        · simp [Caller.afterLog, ThreadPc.inSession] at ht
        · exact hinside (by rw [hpc]; rfl)
    | flushSet caller hpc =>
        cases caller
        · simp [ThreadPc.inSession] at ht
        · exact hinside (by rw [hpc]; rfl)
    | flushed caller MaxLoops polls hpc hleave =>
        cases caller
        · simp [Caller.afterFlush, ThreadPc.inSession] at ht
        · exact hinside (by rw [hpc]; rfl)
    | polled caller MaxLoops polls hpc hcount =>
        cases caller
        · simp [ThreadPc.inSession] at ht
        · exact hinside (by rw [hpc]; rfl)
    | noInit hpc hclosed => simp [ThreadPc.inSession] at ht
    | finish hpc => simp [ThreadPc.inSession] at ht
    | full caller eType text hpc hfull => exact hinside (by rw [hpc]; rfl)
    | formatted caller eType text msg hpc hroom => exact hinside (by rw [hpc]; rfl)
    | lockFailed caller msg hpc => exact hinside (by rw [hpc]; rfl)
    | insert caller msg iRet hpc => exact hinside (by rw [hpc]; rfl)
    | shutDown hpc => exact hinside (by rw [hpc]; rfl)
    | cancelThread hpc => exact hinside (by rw [hpc]; rfl)
    | joined hpc hwriter => exact hinside (by rw [hpc]; rfl)
    | closeStream hpc => exact hinside (by rw [hpc]; rfl)
    | freeEntry freed msg hpc hmsg => exact hinside (by rw [hpc]; rfl)
    | freedAll freed hpc hend => exact hinside (by rw [hpc]; rfl)
    | resetCount hpc => exact hinside (by rw [hpc]; rfl)

/-- Once `logger_destroy` has freed the path, it goes on to its end. -/
theorem freeing_of_step (hstep : (session 1).step s l = some t)
    (hs : (s.threads onlyThread).freeing = true) :
    (t.threads onlyThread).freeing = true ∨ Finishes s l := by
  rcases caller_of_step hstep with ⟨hthreads, -⟩ | ⟨op, hmove⟩ | ⟨acTime, o, rfl, -⟩
  · rw [hthreads]
    exact .inl hs
  · cases hmove <;> rename_i hpc <;> rw [hpc] at hs <;> cases hs
  · cases hpc : s.threads onlyThread with
    | finish => exact .inr ⟨hpc, _, acTime, o, rfl⟩
    | freeQueue freed =>
        have hthread := threadStep_of_step hstep
        simp only [threadStep, hpc] at hthread
        split at hthread <;> obtain rfl := Option.some.inj hthread
        · exact .inl (by simp [ThreadPc.freeing])
        · exact .inl (by simp [ThreadPc.freeing])
    | resetCount =>
        have hthread := threadStep_of_step hstep
        simp only [threadStep, hpc, Option.some.injEq] at hthread
        subst hthread
        exact .inl (by simp [ThreadPc.freeing])
    | _ =>
        rw [hpc] at hs
        cases hs

/-! The stream and the file. -/

theorem openFile_of_step {b : Batch} {o : Outcome} (hpc : s.writer = .openFile b)
    (hstep : (session 1).step s (.writer o) = some t) : o = .ok ∨ t = s.exit := by
  have hwriter := loggerThread_of_step hstep
  simp only [loggerThread, hpc] at hwriter
  cases o <;> simp only [checkedStep, Option.some.injEq, reduceCtorEq] at hwriter
  · exact .inl rfl
  · exact .inr hwriter.symm

/-- What a step of `logger_thread` does to the stream and to the file. -/
theorem WriterMove.stream (hmove : WriterMove s t) :
    (t.LogfileFd.isSome = true → s.LogfileFd.isSome = true ∨ ∃ b, s.writer = .openFile b) ∧
      (t.logfile = s.logfile ∨ t.logfile = s.logfile ++ s.LogfileFd.getD []) ∧
      (s.LogfileFd = none → t.LogfileFd.getD [] = []) := by
  cases hmove with
  | idle w hidle hw => exact ⟨.inl, .inl rfl, fun h => by simp [h]⟩
  | snapshotCount hpc =>
      unfold Session.snapshotCount
      split <;> exact ⟨.inl, .inl rfl, fun h => by simp [h]⟩
  | openFile b hpc => exact ⟨fun _ => .inr ⟨b, hpc⟩, .inl rfl, fun _ => rfl⟩
  | peekHead b hpc =>
      unfold Session.peekHead
      split <;> exact ⟨.inl, .inl rfl, fun h => by simp [h]⟩
  | removeHead b msg hpc => exact ⟨.inl, .inl rfl, fun h => by simp [Session.removeHead, h]⟩
  | writeEntry b msg hpc =>
      exact ⟨fun h => .inl (by simpa [Session.writeEntry] using h), .inl rfl,
        fun h => by simp [Session.writeEntry, h]⟩
  | flushFile b hpc =>
      exact ⟨fun h => .inl (by simpa [Session.flushFile] using h), .inr rfl,
        fun h => by simp [Session.flushFile, h]⟩
  | closeFile b hpc => exact ⟨fun h => by simp [Session.closeFile] at h, .inr rfl, fun _ => rfl⟩
  | updateCount b hpc => exact ⟨.inl, .inl rfl, fun h => by simp [Session.updateCount, h]⟩

/-- Only a successful `fopen` of `logger_thread` opens the stream. -/
theorem stream_of_step (hstep : (session 1).step s l = some t) (ht : t.LogfileFd.isSome = true) :
    s.LogfileFd.isSome = true ∨ ∃ b, s.writer = .openFile b ∧ l = .writer .ok := by
  have hopen : ∀ b o, s.writer = .openFile b → l = .writer o →
      s.LogfileFd.isSome = true ∨ ∃ b, s.writer = .openFile b ∧ l = .writer .ok := by
    rintro b o hpc rfl
    rcases openFile_of_step hpc hstep with rfl | rfl
    · exact .inr ⟨b, hpc, rfl⟩
    · exact .inl ht
  cases sessionStep_cases hstep with
  | exit o => exact .inl ht
  | writer o u hmove =>
      rcases hmove.stream.1 ht with hs | ⟨b, hpc⟩
      · exact .inl hs
      · exact hopen b o hpc rfl
  | writerExit o u hmove =>
      rcases hmove.stream.1 ht with hs | ⟨b, hpc⟩
      · exact .inl hs
      · exact hopen b o hpc rfl
  | cancel hrequest hpc => exact .inl ht
  | call i op t hmove => cases hmove <;> exact .inl ht
  | thread i acTime o t hmove =>
      cases hmove with
      | closeStream hpc => cases ht
      | _ => exact .inl ht

theorem logfile_of_step (hstep : (session 1).step s l = some t) :
    (t.logfile = s.logfile ∨ t.logfile = s.logfile ++ s.LogfileFd.getD []) ∧
      (s.LogfileFd = none → t.LogfileFd.getD [] = []) := by
  cases sessionStep_cases hstep with
  | exit o => exact ⟨.inl rfl, fun h => by simp [Session.exit, h]⟩
  | writer o u hmove => exact hmove.stream.2
  | writerExit o u hmove => exact hmove.stream.2
  | cancel hrequest hpc => exact ⟨.inl rfl, fun h => by simp [h]⟩
  | call i op t hmove => cases hmove <;> exact ⟨.inl rfl, fun h => by simp [h]⟩
  | thread i acTime o t hmove =>
      cases hmove with
      | closeStream hpc => exact ⟨.inr rfl, fun _ => rfl⟩
      | _ => exact ⟨.inl rfl, fun h => by simp [Session.insert, h]⟩

/-- The file only grows, and by nothing if no stream is open. -/
theorem onFile_of_step (hstep : (session 1).step s l = some t) :
    ∃ added, t.onFile = s.onFile ++ added ∧ (s.LogfileFd = none → added = []) := by
  have hs : s.onFile = s.logfile := by simp [Session.onFile, (running_of_step hstep).1]
  obtain ⟨hlogfile, hbuffer⟩ := logfile_of_step hstep
  -- what `exit` writes out comes after what the step has flushed
  obtain ⟨rest, ht, hrest⟩ : ∃ rest, t.onFile = t.logfile ++ rest ∧
      (s.LogfileFd = none → rest = []) := by
    refine ⟨_, rfl, fun hnone => ?_⟩
    split
    · exact hbuffer hnone
    · rfl
  rcases hlogfile with hsame | hflushed
  · exact ⟨rest, by rw [ht, hsame, hs], hrest⟩
  · refine ⟨s.LogfileFd.getD [] ++ rest, by rw [ht, hflushed, hs, List.append_assoc], ?_⟩
    intro hnone
    rw [hrest hnone, hnone]
    rfl

end SessionSteps

/-! ### What a step of the process can do -/

namespace Process

variable {x y : Process} {l : Label 1} {t : Session 1}

/-- What `logger_init` does in a process that has a `logger_thread`, and in one that has none. -/
inductive InitMove (x : Process) (q : Bytes) (Loglevel : UInt32) : Process → Prop
  | refused (hopen : x.logger.iIsInitDone = true) :
      InitMove x q Loglevel (x.returnInit q .noInit)
  | noFile (hclosed : x.logger.iIsInitDone = false) :
      InitMove x q Loglevel ({ x with
        logger := setLevel x.logger Loglevel, gpcLogfile := .freed }.returnInit q .exitFailure)
  | noThread (hclosed : x.logger.iIsInitDone = false) :
      InitMove x q Loglevel ({ x with
        logger := setupQueue (setLevel x.logger Loglevel)
        gpcLogfile := .freed }.returnInit q .exitFailure)
  | opened (hclosed : x.logger.iIsInitDone = false) :
      InitMove x q Loglevel ({ x with
        logger := spinUp (setupQueue (setLevel x.logger Loglevel))
        gpcLogfile := .path q
        current := some q }.returnInit q .exitSuccess)

theorem loggerInit_cases (x : Process) (q : Bytes) (Loglevel : UInt32) (fopen pthreadCreate : Bool) :
    InitMove x q Loglevel (x.loggerInit q Loglevel fopen pthreadCreate) := by
  unfold loggerInit
  cases hinit : x.logger.iIsInitDone
  · cases fopen
    · exact .noFile hinit
    · cases pthreadCreate
      · exact .noThread hinit
      · exact .opened hinit
  · exact .refused hinit

/-- What a step of the session does to the rest of the process. -/
inductive FollowMove (x : Process) (l : Label 1) (t : Session 1) : Process → Prop
  | opened (b : Batch) (q : Bytes) (hwriter : x.logger.writer = .openFile b)
      (hpath : x.gpcLogfile = .path q) : FollowMove x l t { x.advance t with stream := some q }
  | staleOpen (b : Batch) (hwriter : x.logger.writer = .openFile b)
      (hpath : ∀ q, x.gpcLogfile ≠ .path q) : FollowMove x l t { x.advance t with staleUse := true }
  | staleFree (hpc : x.logger.threads onlyThread = .closeStream) (hpath : x.gpcLogfile = .freed) :
      FollowMove x l t { x.advance t with staleUse := true }
  | freed (hpc : x.logger.threads onlyThread = .closeStream) (i : Fin 1) (acTime : Bytes)
      (o : Outcome) (hl : l = .thread i acTime o) :
      FollowMove x l t { x.advance t with gpcLogfile := .null }
  | finished (hends : Finishes x.logger l) :
      FollowMove x l t { x.advance t with past := x.tenures, current := none }
  | other (hopen : ∀ b, x.logger.writer = .openFile b → l ≠ .writer .ok)
      (hgoes : ¬ Finishes x.logger l) : FollowMove x l t (x.advance t)

theorem follow_cases (x : Process) (l : Label 1) (t : Session 1) :
    FollowMove x l t (x.follow l t) := by
  unfold follow
  split
  · rename_i b o hwriter
    split
    · rename_i q hpath
      split
      · exact .opened b q hwriter hpath
      · rename_i ho
        exact .other (fun _ _ h => ho (by injection h)) (by simp [Finishes])
    · rename_i hpath
      exact .staleOpen b hwriter hpath
  · rename_i i acTime o hpc
    split
    · exact .staleFree hpc ‹_›
    · exact .freed hpc i acTime o rfl
  · rename_i i acTime o hpc
    exact .finished ⟨hpc, i, acTime, o, rfl⟩
  · rename_i hopen _ hfinish
    exact .other (fun b hwriter hl => hopen b .ok hwriter hl)
      fun ⟨hpc, i, acTime, o, hl⟩ => hfinish i acTime o hpc hl

theorem step_cases {m : Move} (h : system.step x m = some y) :
    (∃ q Loglevel iRet, x.logger.exited = false ∧ x.logger.fault = false ∧
      x.logger.threads onlyThread = .ready iRet ∧ InitMove x q Loglevel y) ∨
    ∃ l t, m = .session l ∧ (Logger.session 1).step x.logger l = some t ∧ FollowMove x l t y := by
  change step x m = some y at h
  cases m with
  | loggerInit q Loglevel fopen pthreadCreate =>
      simp only [step] at h
      split at h
      · cases h
      · rename_i hrunning
        simp only [Bool.or_eq_true, not_or, Bool.not_eq_true] at hrunning
        split at h
        · rename_i iRet hpc
          obtain rfl := Option.some.inj h
          exact .inl ⟨q, Loglevel, iRet, hrunning.1, hrunning.2, hpc,
            loggerInit_cases x q Loglevel fopen pthreadCreate⟩
        · cases h
  | session l =>
      obtain ⟨t, ht, rfl⟩ := Option.map_eq_some_iff.mp h
      exact .inr ⟨l, t, rfl, ht, follow_cases x l t⟩

/-! ### The variables between the sessions -/

/-- What holds between any two steps, in a session and between two sessions: an open session is a
channel to its own file, whatever the sessions before it left behind. -/
structure Tidy (x : Process) : Prop where
  accounted : Accounted x.logger
  streamOk : StreamOk x.logger
  carried : x.logger.iIsInitDone = true → ∃ c, Carries x.logger c
  isOpen : x.logger.iIsInitDone = x.current.isSome
  inside : (x.logger.threads onlyThread).inSession = true → x.logger.iIsInitDone = true
  path : ∀ q, x.current = some q → (x.logger.threads onlyThread).freeing = false →
    x.gpcLogfile = .path q
  opened : x.logger.LogfileFd.isSome = true → x.stream = x.current
  noStale : x.staleUse = false

/-- A successful `logger_init` starts a session like any other. -/
theorem spinUp_eq {s : Session 1} (hrunning : s.exited = false) (hfault : s.fault = false)
    (hstream : s.LogfileFd = none) (Loglevel : UInt32) :
    (spinUp (setupQueue (setLevel s Loglevel))).goto onlyThread (.ready .exitSuccess)
      = Logger.loggerInit s.sCurrLogSettings Loglevel s.bTerminateProg s.pid := by
  have hthreads : Function.update s.threads onlyThread (.ready .exitSuccess)
      = fun _ => .ready .exitSuccess := by
    funext i
    rw [eq_onlyThread i, Function.update_self]
  simp only [Session.goto, spinUp, setupQueue, setLevel, Logger.loggerInit, hrunning, hfault, hstream,
    hthreads]

namespace Tidy

theorem start (bTerminateProg : Bool) (pid : Nat) : Tidy (start bTerminateProg pid) where
  accounted := by
    have hdefault : LogSettings.default.Admissible 1 := ⟨by decide, by decide⟩
    have hinit := Accounted.loggerInit hdefault LoggerType.eWARNING.value bTerminateProg pid
    exact ⟨hinit.settings, (fun h => by cases h), hinit.nonneg, hinit.bounded, trivial, fun _ => rfl,
      fun _ _ => rfl, hinit.noFault⟩
  streamOk := rfl
  carried h := by cases h
  isOpen := rfl
  inside h := by cases h
  path q h := by cases h
  opened h := by cases h
  noStale := rfl

theorem writer_cancelled (h : Tidy x) (hclosed : x.logger.iIsInitDone = false) :
    x.logger.writer = .cancelled := h.accounted.closed hclosed

theorem stream_none (h : Tidy x) (hwriter : x.logger.writer = .cancelled) :
    x.logger.LogfileFd = none := by
  have hstream := h.streamOk
  unfold StreamOk at hstream
  rw [hwriter] at hstream
  exact Option.isSome_eq_false_iff.mp hstream |> Option.isNone_iff_eq_none.mp

theorem current_none (h : Tidy x) (hclosed : x.logger.iIsInitDone = false) : x.current = none := by
  have hopen := h.isOpen
  rw [hclosed] at hopen
  simpa using hopen.symm

/-- The calling thread comes back to the program, in the same session or outside any. -/
theorem returnInit (h : Tidy x) {iRet : LogRet} (hpc : x.logger.threads onlyThread = .ready iRet)
    (q : Bytes) (iRet' : LogRet) : Tidy (x.returnInit q iRet') where
  accounted := h.accounted.goto onlyThread (by simp [hpc]) rfl (by simp [ThreadPc.hasJoined])
  streamOk := h.streamOk
  carried hopen := by
    obtain ⟨c, hc⟩ := h.carried hopen
    exact ⟨c, hc.stutter rfl rfl rfl⟩
  isOpen := h.isOpen
  inside hinside := by simp [Process.returnInit, ThreadPc.inSession] at hinside
  path q' hq' _ := h.path q' hq' (by rw [hpc]; rfl)
  opened := h.opened
  noStale := h.noStale

/-- A `logger_init` that fails finds no session and leaves none. -/
theorem failInit (h : Tidy x) (hclosed : x.logger.iIsInitDone = false) {s : Session 1}
    (haccounted : Accounted s) (hinit : s.iIsInitDone = false) (hthreads : s.threads = x.logger.threads)
    (hwriter : s.writer = x.logger.writer) (hstream : s.LogfileFd = x.logger.LogfileFd) :
    Tidy { x with logger := s, gpcLogfile := .freed } where
  accounted := haccounted
  streamOk := by
    show s.LogfileFd.isSome = s.writer.hasStream
    rw [hstream, hwriter]
    exact h.streamOk
  carried hopen := by
    rw [show s.iIsInitDone = true from hopen] at hinit
    cases hinit
  isOpen := by
    show s.iIsInitDone = x.current.isSome
    rw [hinit, h.current_none hclosed]
    rfl
  inside hinside := by
    rw [show s.threads = _ from hthreads] at hinside
    rw [h.inside hinside] at hclosed
    cases hclosed
  path q hq := by
    change x.current = some q at hq
    rw [h.current_none hclosed] at hq
    cases hq
  opened hopened := by
    rw [show s.LogfileFd = _ from hstream] at hopened
    exact h.opened hopened
  noStale := h.noStale

theorem accounted_setLevel {s : Session 1} (h : Accounted s) (Loglevel : UInt32) :
    Accounted (setLevel s Loglevel) :=
  ⟨h.settings, h.counted, h.nonneg, h.bounded, h.batch, h.closed, h.joined, h.noFault⟩

theorem accounted_setupQueue {s : Session 1} (h : Accounted s) (hclosed : s.iIsInitDone = false) :
    Accounted (setupQueue s) := by
  have hcancelled := h.closed hclosed
  have hbounded := h.bounded
  have hnonneg := h.nonneg
  refine ⟨h.settings, ?_, le_refl 0, ?_, ?_, h.closed, h.joined, h.noFault⟩
  · intro hopen
    rw [show s.iIsInitDone = true from hopen] at hclosed
    cases hclosed
  · show (0 : Int) + (inserters s.threads : Nat) ≤ _
    omega
  · show BatchOk [] s.writer
    rw [hcancelled]
    trivial

theorem of_initMove (h : Tidy x) {q : Bytes} {Loglevel : UInt32} {iRet : LogRet}
    (hrunning : x.logger.exited = false) (hpc : x.logger.threads onlyThread = .ready iRet)
    (hmove : InitMove x q Loglevel y) : Tidy y := by
  cases hmove with
  | refused hopen => exact h.returnInit hpc q .noInit
  | noFile hclosed =>
      have hfailed := h.failInit hclosed (accounted_setLevel h.accounted Loglevel) hclosed rfl rfl rfl
      exact hfailed.returnInit hpc q .exitFailure
  | noThread hclosed =>
      have hfailed := h.failInit hclosed
        (accounted_setupQueue (accounted_setLevel h.accounted Loglevel) hclosed) hclosed rfl rfl rfl
      exact hfailed.returnInit hpc q .exitFailure
  | opened hclosed =>
      have hnone := h.stream_none (h.writer_cancelled hclosed)
      have hlogger := spinUp_eq hrunning h.accounted.noFault hnone Loglevel
      have hreachable : Reachable (Logger.session 1) SettingsKept
          ((spinUp (setupQueue (setLevel x.logger Loglevel))).goto onlyThread (.ready .exitSuccess)) :=
        .init ⟨_, _, _, _, h.accounted.settings, hlogger⟩
      obtain ⟨c, -, hc⟩ := session_refines_channel hreachable
      refine ⟨accounted_of_reachable hreachable, streamOk_of_reachable hreachable, fun _ => ⟨c, hc⟩,
        rfl, fun _ => rfl, fun q' hq' _ => ?_, fun hopened => ?_, h.noStale⟩
      · obtain rfl := Option.some.inj hq'
        rfl
      · change x.logger.LogfileFd.isSome = true at hopened
        rw [hnone] at hopened
        cases hopened

/-- What a step of the session keeps whatever else it does to the process. -/
theorem advance (h : Tidy x) (hkept : SettingsKept x.logger l)
    (hstep : (session 1).step x.logger l = some t) :
    Accounted t ∧ StreamOk t ∧ (t.iIsInitDone = true → ∃ c, Carries t c) ∧
      ((t.threads onlyThread).inSession = true → t.iIsInitDone = true) := by
  refine ⟨h.accounted.of_step hkept hstep, h.streamOk.of_step h.accounted hstep, ?_,
    inSession_of_step h.inside hstep⟩
  intro hopen
  have hbefore : x.logger.iIsInitDone = true := by
    rcases isInitDone_of_step hstep with hsame | hends
    · rw [← hsame]
      exact hopen
    · exact h.inside (by rw [hends.1]; rfl)
  obtain ⟨c, hc⟩ := h.carried hbefore
  rcases hc.of_step h.accounted h.streamOk hstep with hsame | ⟨m, d, -, hd⟩
  · exact ⟨c, hsame⟩
  · exact ⟨d, hd⟩

theorem exists_current (h : Tidy x) (hopen : x.logger.iIsInitDone = true) : ∃ q, x.current = some q :=
  Option.isSome_iff_exists.mp (h.isOpen.symm.trans hopen)

/-- In an open session `gpcLogfile` is the path it was opened with, until `logger_destroy` frees it. -/
theorem exists_path (h : Tidy x) (hopen : x.logger.iIsInitDone = true)
    (hfreeing : (x.logger.threads onlyThread).freeing = false) :
    ∃ q, x.current = some q ∧ x.gpcLogfile = .path q := by
  obtain ⟨q, hq⟩ := h.exists_current hopen
  exact ⟨q, hq, h.path q hq hfreeing⟩

/-- While `logger_thread` runs, the path is there for it to open. -/
theorem exists_path_of_writer (h : Tidy x) (hwriter : x.logger.writer ≠ .cancelled) :
    ∃ q, x.current = some q ∧ x.gpcLogfile = .path q := by
  apply h.exists_path (h.accounted.isOpen hwriter)
  by_contra hfreeing
  apply hwriter
  apply h.accounted.joined onlyThread
  cases hpc : x.logger.threads onlyThread with
  | freeQueue | resetCount | finish => rfl
  | _ => simp [hpc, ThreadPc.freeing] at hfreeing

theorem cancelled_of_finishes (h : Tidy x) (hends : Finishes x.logger l) :
    x.logger.writer = .cancelled := h.accounted.joined onlyThread (by rw [hends.1]; rfl)

/-- A step that does not end `logger_destroy` leaves the session open on the path it has, or closed. -/
theorem keeps (h : Tidy x) (hstep : (session 1).step x.logger l = some t)
    (hgoes : ¬ Finishes x.logger l) :
    t.iIsInitDone = x.current.isSome ∧
      ∀ q, x.current = some q → (t.threads onlyThread).freeing = false → x.gpcLogfile = .path q := by
  constructor
  · rcases isInitDone_of_step hstep with hsame | hends
    · rw [hsame]
      exact h.isOpen
    · exact absurd hends hgoes
  · intro q hq hfreeing
    apply h.path q hq
    by_contra hfreed
    rcases freeing_of_step hstep (by simpa using hfreed) with hafter | hends
    · rw [hafter] at hfreeing
      cases hfreeing
    · exact absurd hends hgoes

theorem of_followMove (h : Tidy x) (hkept : SettingsKept x.logger l)
    (hstep : (session 1).step x.logger l = some t) (hmove : FollowMove x l t y) : Tidy y := by
  obtain ⟨haccounted, hstream, hcarried, hinside⟩ := h.advance hkept hstep
  cases hmove with
  | opened b q hwriter hpath =>
      have hrunning : x.logger.writer ≠ .cancelled := by simp [hwriter]
      obtain ⟨q', hcurrent, hq'⟩ := h.exists_path_of_writer hrunning
      obtain ⟨hopen, hkeeps⟩ := h.keeps hstep fun hends => hrunning (h.cancelled_of_finishes hends)
      refine ⟨haccounted, hstream, hcarried, hopen, hinside, hkeeps, fun _ => ?_, h.noStale⟩
      rw [hpath] at hq'
      injection hq' with hq'
      show some q = x.current
      rw [hcurrent, hq']
  | staleOpen b hwriter hpath =>
      obtain ⟨q, -, hq⟩ := h.exists_path_of_writer (by simp [hwriter])
      exact absurd hq (hpath q)
  | staleFree hpc hpath =>
      obtain ⟨q, -, hq⟩ := h.exists_path (h.inside (by rw [hpc]; rfl)) (by rw [hpc]; rfl)
      rw [hpath] at hq
      cases hq
  | freed hpc i acTime o hl =>
      obtain ⟨hopen, -⟩ := h.keeps hstep (by simp [Finishes, hpc])
      rw [hl] at hstep
      have ht := closeStream_of_step hpc hstep
      refine ⟨haccounted, hstream, hcarried, hopen, hinside, fun q _ hfreeing => ?_,
        fun hopened => ?_, h.noStale⟩
      · simp [Process.advance, ht, ThreadPc.freeing] at hfreeing
      · simp [Process.advance, ht, Session.closeFile] at hopened
  | finished hends =>
      have ht := finish_of_step hends hstep
      refine ⟨haccounted, hstream, hcarried, ?_, hinside, (fun q hq => by cases hq),
        fun hopened => ?_, h.noStale⟩
      · show t.iIsInitDone = false
        rw [ht]
        rfl
      · have hnone := h.stream_none (h.cancelled_of_finishes hends)
        simp [Process.advance, ht, hnone] at hopened
  | other hopens hgoes =>
      obtain ⟨hopen, hkeeps⟩ := h.keeps hstep hgoes
      refine ⟨haccounted, hstream, hcarried, hopen, hinside, hkeeps, fun hopened => ?_, h.noStale⟩
      rcases stream_of_step hstep hopened with hbefore | ⟨b, hwriter, hl⟩
      · exact h.opened hbefore
      · exact absurd hl (hopens b hwriter)

end Tidy

theorem tidy_of_reachable (hx : Reachable system Kept x) : Tidy x := by
  refine hx.invariant ?_ ?_
  · rintro x ⟨bTerminateProg, pid, rfl⟩
    exact Tidy.start bTerminateProg pid
  · intro x m y h hkept hstep
    rcases step_cases hstep with ⟨q, Loglevel, iRet, hrunning, -, hpc, hmove⟩ | ⟨l, t, rfl, ht, hmove⟩
    · exact h.of_initMove hrunning hpc hmove
    · exact h.of_followMove hkept ht hmove

/-! ### The log files -/

/-- What the sessions opened on a file have brought to it, in their order. -/
def writtenTo (q : Bytes) (sessions : List Tenure) : List Bytes :=
  (sessions.filter fun session => session.pcLogfilePath = q).flatMap Tenure.written

theorem writtenTo_tenures (x : Process) (q : Bytes) :
    writtenTo q x.tenures
      = writtenTo q x.past ++ if x.current = some q then x.logger.onFile else [] := by
  unfold writtenTo tenures
  rw [List.filter_append, List.flatMap_append]
  congr 1
  cases x.current with
  | none => rfl
  | some q' =>
      by_cases hq : q' = q
      · simp [hq]
      · simp [hq]

/-- In an open session the file has the beginning of what was accepted. -/
theorem Tidy.onFile_isPrefix (h : Tidy x) (hopen : x.logger.iIsInitDone = true) :
    x.logger.onFile <+: x.logger.inserted := by
  obtain ⟨c, hc⟩ := h.carried hopen
  have hwritten : x.logger.written <+: x.logger.inserted := by
    rw [← hc.received, ← hc.sent]
    exact c.received_isPrefix_sent
  refine List.IsPrefix.trans ?_ hwritten
  unfold Session.onFile Session.written
  split
  · exact List.prefix_refl _
  · rw [List.append_nil]
    exact List.prefix_append _ _

/-- A step of the session adds to the file of the session that is open, and to no other. -/
theorem Tidy.addToFile_eq (h : Tidy x) (hstep : (session 1).step x.logger l = some t) (q : Bytes) :
    x.addToFile t q = x.files q
      ++ if x.current = some q then t.onFile.drop x.logger.onFile.length else [] := by
  obtain ⟨added, hadded, hnone⟩ := onFile_of_step hstep
  rw [hadded, List.drop_left]
  cases hstream : x.logger.LogfileFd with
  | none =>
      rw [hnone hstream]
      unfold addToFile
      rw [hadded, hnone hstream]
      cases x.stream <;> simp
  | some buffer =>
      unfold addToFile
      rw [h.opened (by rw [hstream]; rfl), hadded, List.drop_left]
      cases x.current with
      | none => simp
      | some q' =>
          by_cases hq : q = q'
          · simp [hq]
          · simp [hq, Ne.symm hq]

structure Filed (x : Process) : Prop where
  files : ∀ q, x.files q = writtenTo q x.tenures
  past : ∀ session ∈ x.past, session.written <+: session.accepted

namespace Filed

/-- A step that ends no session. -/
theorem advance (h : Filed x) (htidy : Tidy x) (hstep : (session 1).step x.logger l = some t)
    (hlogger : y.logger = t) (hfiles : y.files = x.addToFile t) (hcurrent : y.current = x.current)
    (hpast : y.past = x.past) : Filed y where
  files q := by
    obtain ⟨added, hadded, -⟩ := onFile_of_step hstep
    rw [hfiles, htidy.addToFile_eq hstep, h.files, writtenTo_tenures, writtenTo_tenures, hlogger,
      hcurrent, hpast, hadded, List.drop_left, List.append_assoc]
    split <;> simp
  past := by
    rw [hpast]
    exact h.past

theorem of_followMove (h : Filed x) (htidy : Tidy x)
    (hstep : (session 1).step x.logger l = some t) (hmove : FollowMove x l t y) : Filed y := by
  cases hmove with
  | finished hends =>
      have hcancelled := htidy.cancelled_of_finishes hends
      have hopen := htidy.inside (by rw [hends.1]; rfl)
      obtain ⟨added, hadded, hnone⟩ := onFile_of_step hstep
      constructor
      · intro q
        show x.addToFile t q = writtenTo q (x.tenures ++ [])
        rw [List.append_nil, htidy.addToFile_eq hstep, hadded, List.drop_left,
          hnone (htidy.stream_none hcancelled), ite_self, List.append_nil, h.files]
      · intro session hsession
        rcases List.mem_append.mp hsession with hpast | hlast
        · exact h.past session hpast
        · obtain ⟨q, -, rfl⟩ := Option.map_eq_some_iff.mp (Option.mem_toList.mp hlast)
          exact htidy.onFile_isPrefix hopen
  | _ => exact h.advance htidy hstep rfl rfl rfl rfl

theorem of_initMove (h : Filed x) (htidy : Tidy x) {q : Bytes} {Loglevel : UInt32}
    (hrunning : x.logger.exited = false) (hmove : InitMove x q Loglevel y) : Filed y := by
  refine ⟨fun q' => ?_, ?_⟩
  · have hfiles := h.files q'
    rw [writtenTo_tenures] at hfiles ⊢
    cases hmove with
    | refused hopen => exact hfiles
    | noFile hclosed => exact hfiles
    | noThread hclosed => exact hfiles
    | opened hclosed =>
        -- the new session has brought nothing to its file yet
        have hempty : ((spinUp (setupQueue (setLevel x.logger Loglevel))).goto onlyThread
            (.ready .exitSuccess)).onFile = [] := by
          simp [Session.onFile, Session.goto, spinUp, setupQueue, setLevel, hrunning]
        rw [htidy.current_none hclosed] at hfiles
        simp only [Process.returnInit, hempty, ite_self]
        exact hfiles
  · cases hmove <;> exact h.past

end Filed

theorem filed_of_reachable (hx : Reachable system Kept x) : Filed x := by
  refine hx.invariant_over (fun _ => tidy_of_reachable) ?_ ?_
  · rintro x ⟨bTerminateProg, pid, rfl⟩
    exact ⟨fun q => rfl, by simp [start]⟩
  · intro x m y htidy h hkept hstep
    rcases step_cases hstep with ⟨q, Loglevel, iRet, hrunning, -, hpc, hmove⟩ | ⟨l, t, rfl, ht, hmove⟩
    · exact h.of_initMove htidy hrunning hmove
    · exact h.of_followMove htidy ht hmove

/-! ### The order of the calls -/

theorem returned_same {s t : Session 1} (h : t.threads = s.threads) : returned s t = [] := by
  unfold returned
  split
  · rename_i iRet hpc
    rw [← h, hpc]
    rfl
  · rfl

theorem returned_ready {s : Session 1} {iRet : LogRet} (hpc : s.threads onlyThread = .ready iRet)
    (t : Session 1) : returned s t = [] := by
  unfold returned
  rw [hpc]
  split <;> rfl

/-- `log_msg` gives up, in the program or in `logger_destroy`. -/
theorem returned_afterLog {s : Session 1} (caller : Caller)
    (hpc : caller = .program → returning (s.threads onlyThread) = some .logMsg) :
    returned s (s.goto onlyThread (caller.afterLog .exitFailure)) = [] ∨
      returned s (s.goto onlyThread (caller.afterLog .exitFailure)) = [.logMsg .exitFailure] := by
  cases caller with
  | program => exact .inr (by simp [returned, Caller.afterLog, hpc rfl])
  | destroy => exact .inl (by simp [returned, Caller.afterLog])

theorem returned_insert {s : Session 1} {i : Fin 1} {acTime : Bytes} {o : Outcome} {LogMsg : Bytes}
    (hpc : s.threads onlyThread = .insertTail .program LogMsg)
    (hstep : (session 1).step s (.thread i acTime o) = some t) :
    returned s t = [.logMsg .exitSuccess] ∨ returned s t = [.logMsg .exitFailure] := by
  have hthread := threadStep_of_step hstep
  rw [eq_onlyThread i] at hthread
  simp only [threadStep, hpc] at hthread
  cases o <;> simp only [Option.some.injEq, reduceCtorEq] at hthread <;> subst hthread
  · exact .inl (by simp [returned, returning, Caller.afterLog, hpc])
  · exact .inr (by simp [returned, returning, Caller.afterLog, hpc])
  · exact .inr (by simp [returned, returning, Caller.afterLog, hpc])

/-- What a step of the session reports to the program, unless it ends `logger_destroy`. -/
theorem returned_of_step {s t : Session 1} (hstep : (session 1).step s l = some t)
    (hgoes : ¬ Finishes s l) :
    returned s t = [] ∨ returned s t = [.logMsg .exitFailure] ∨
      (returned s t = [.logMsg .exitSuccess] ∧ (s.threads onlyThread).inSession = true) ∨
      (returned s t = [.destroy .noInit] ∧ s.iIsInitDone = false) := by
  rcases caller_of_step hstep with ⟨hthreads, -⟩ | ⟨op, hmove⟩ | ⟨acTime, o, rfl, hmove⟩
  · exact .inl (returned_same hthreads)
  · cases hmove <;> exact .inl (returned_ready (by assumption) _)
  · cases hmove with
    | refused caller eType text hpc hno =>
        exact (returned_afterLog caller (by rintro rfl; rw [hpc]; rfl)).imp_right .inl
    | full caller eType text hpc hfull =>
        exact (returned_afterLog caller (by rintro rfl; rw [hpc]; rfl)).imp_right .inl
    | lockFailed caller msg hpc =>
        exact (returned_afterLog caller (by rintro rfl; rw [hpc]; rfl)).imp_right .inl
    | insert caller msg iRet hpc =>
        cases caller
        · rcases returned_insert hpc hstep with hok | hfailed
          · exact .inr (.inr (.inl ⟨hok, by rw [hpc]; rfl⟩))
          · exact .inr (.inl hfailed)
        · exact .inl (by simp [returned, Caller.afterLog])
    | flushed caller MaxLoops polls hpc hleave =>
        cases caller
        · exact .inl (by simp [returned, returning, Caller.afterFlush, hpc])
        · exact .inl (by simp [returned, Caller.afterFlush])
    | noInit hpc hclosed =>
        exact .inr (.inr (.inr ⟨by simp [returned, returning, hpc], hclosed⟩))
    | finish hpc => exact absurd ⟨hpc, _, acTime, o, rfl⟩ hgoes
    | _ => exact .inl (by simp [returned])

/-- The calls that have returned take the callers' view of the logger to the session it has open. -/
def Ordered (x : Process) : Prop := x.events.foldlM Event.next none = some x.current

theorem Ordered.append (h : Ordered x) (events : List Event) (hy : y.events = x.events ++ events)
    (hnext : events.foldlM Event.next x.current = some y.current) : Ordered y := by
  unfold Ordered at *
  rw [hy, List.foldlM_append, h]
  exact hnext

/-- A step that does not end `logger_destroy` reports only what fits the session there is. -/
theorem Ordered.goes (h : Ordered x) (htidy : Tidy x) (hstep : (session 1).step x.logger l = some t)
    (hgoes : ¬ Finishes x.logger l) (hy : y.events = x.events ++ returned x.logger t)
    (hcurrent : y.current = x.current) : Ordered y := by
  refine h.append _ hy ?_
  rw [hcurrent]
  rcases returned_of_step hstep hgoes with hnone | hfailed | ⟨hlogged, hinside⟩ | ⟨hnoInit, hclosed⟩
  · rw [hnone]
    rfl
  · rw [hfailed]
    cases x.current <;> rfl
  · rw [hlogged]
    obtain ⟨q, hq⟩ := htidy.exists_current (htidy.inside hinside)
    rw [hq]
    rfl
  · rw [hnoInit, htidy.current_none hclosed]
    rfl

theorem Ordered.of_followMove (h : Ordered x) (htidy : Tidy x)
    (hstep : (session 1).step x.logger l = some t) (hmove : FollowMove x l t y) : Ordered y := by
  have hwriter : ∀ b, x.logger.writer = .openFile b → ¬ Finishes x.logger l := by
    intro b hopen hends
    have hcancelled := htidy.cancelled_of_finishes hends
    rw [hopen] at hcancelled
    cases hcancelled
  cases hmove with
  | opened b q hopen hpath => exact h.goes htidy hstep (hwriter b hopen) rfl rfl
  | staleOpen b hopen hpath => exact h.goes htidy hstep (hwriter b hopen) rfl rfl
  | staleFree hpc hpath => exact h.goes htidy hstep (by simp [Finishes, hpc]) rfl rfl
  | freed hpc i acTime o hl => exact h.goes htidy hstep (by simp [Finishes, hpc]) rfl rfl
  | other hopens hgoes => exact h.goes htidy hstep hgoes rfl rfl
  | finished hends =>
      have hreturned : returned x.logger t = [.destroy .exitSuccess] := by
        rw [finish_of_step hends hstep]
        simp [returned, returning, hends.1]
      obtain ⟨q, hq⟩ := htidy.exists_current (htidy.inside (by rw [hends.1]; rfl))
      refine h.append _ rfl ?_
      rw [hreturned, hq]
      rfl

theorem Ordered.of_initMove (h : Ordered x) (htidy : Tidy x) {q : Bytes} {Loglevel : UInt32}
    (hmove : InitMove x q Loglevel y) : Ordered y := by
  cases hmove with
  | refused hopen =>
      obtain ⟨q', hq'⟩ := htidy.exists_current hopen
      refine h.append [.init q .noInit] rfl ?_
      show List.foldlM Event.next x.current _ = some x.current
      rw [hq']
      rfl
  | noFile hclosed =>
      refine h.append [.init q .exitFailure] rfl ?_
      show List.foldlM Event.next x.current _ = some x.current
      rw [htidy.current_none hclosed]
      rfl
  | noThread hclosed =>
      refine h.append [.init q .exitFailure] rfl ?_
      show List.foldlM Event.next x.current _ = some x.current
      rw [htidy.current_none hclosed]
      rfl
  | opened hclosed =>
      refine h.append [.init q .exitSuccess] rfl ?_
      rw [htidy.current_none hclosed]
      rfl

theorem ordered_of_reachable (hx : Reachable system Kept x) : Ordered x := by
  refine hx.invariant_over (fun _ => tidy_of_reachable) ?_ ?_
  · rintro x ⟨bTerminateProg, pid, rfl⟩
    rfl
  · intro x m y htidy h hkept hstep
    rcases step_cases hstep with ⟨q, Loglevel, iRet, hrunning, -, hpc, hmove⟩ | ⟨l, t, rfl, ht, hmove⟩
    · exact h.of_initMove htidy hmove
    · exact h.of_followMove htidy ht hmove

/-- A `logger_init` that finds a session open changes nothing but the value its caller gets. -/
theorem step_loggerInit_of_open {q : Bytes} {Loglevel : UInt32} {fopen pthreadCreate : Bool}
    (hopen : x.logger.iIsInitDone = true)
    (hstep : system.step x (.loggerInit q Loglevel fopen pthreadCreate) = some y) :
    y = x.returnInit q .noInit := by
  change step x (.loggerInit q Loglevel fopen pthreadCreate) = some y at hstep
  simp only [step] at hstep
  split at hstep
  · cases hstep
  · split at hstep
    · obtain rfl := Option.some.inj hstep
      simp only [loggerInit, hopen, if_true]
    · cases hstep

/-- The sessions of a process are isolated, for any calls of one thread and any steps of its
`logger_thread`. The calls return as `Event.next` has it: sessions alternate with their ends, and a
message is accepted only while one is open. A `logger_init` in an open session changes no variable,
file or queue. And a log file has, in the order of the sessions that were opened on it, the beginning
of what was accepted in each of them, and nothing else. -/
theorem sessions_isolated (hx : Reachable system Kept x) :
    x.events.foldlM Event.next none = some x.current ∧
      (∀ q Loglevel fopen pthreadCreate y, x.current.isSome = true →
        system.step x (.loggerInit q Loglevel fopen pthreadCreate) = some y →
        y = x.returnInit q .noInit) ∧
      (∀ caller LogMsg, x.logger.threads onlyThread = .insertTail caller LogMsg →
        x.current.isSome = true) ∧
      (∀ session ∈ x.tenures, session.written <+: session.accepted) ∧
      (∀ q, x.files q = writtenTo q x.tenures) ∧
      x.staleUse = false ∧ x.logger.fault = false := by
  have htidy := tidy_of_reachable hx
  have hfiled := filed_of_reachable hx
  refine ⟨ordered_of_reachable hx, ?_, ?_, ?_, hfiled.files, htidy.noStale, htidy.accounted.noFault⟩
  · intro q Loglevel fopen pthreadCreate y hcurrent hstep
    exact step_loggerInit_of_open (htidy.isOpen.trans hcurrent) hstep
  · intro caller LogMsg hpc
    rw [← htidy.isOpen]
    exact htidy.inside (by rw [hpc]; rfl)
  · intro session hsession
    rcases List.mem_append.mp hsession with hpast | hlast
    · exact hfiled.past session hpast
    · obtain ⟨q, hq, rfl⟩ := Option.map_eq_some_iff.mp (Option.mem_toList.mp hlast)
      exact htidy.onFile_isPrefix (htidy.isOpen.trans (by rw [hq]; rfl))

/-- A session that logs one error, writes it and is destroyed. -/
def oneErrorSession (q text : Bytes) : List Move :=
  .loggerInit q LoggerType.eERROR.value true true ::
    (logsError text ++ writerMoves 9 ++ Label.call onlyThread .loggerDestroy
      :: (threadMoves 6 ++ Label.cancel :: threadMoves 5)).map .session

/-- After it the second log file cannot be opened at first, and then has an error of its own. -/
def twoSessions : List Move :=
  oneErrorSession (Bytes.ascii "a") (Bytes.ascii "one")
    ++ [.loggerInit (Bytes.ascii "b") LoggerType.eDEBUG.value false true,
      .loggerInit (Bytes.ascii "b") LoggerType.eERROR.value true true]
    ++ (logsError (Bytes.ascii "two") ++ writerMoves 9).map .session

theorem sessions_isolated_twoSessions :
    ∃ x, Reachable system Kept x ∧ x.current = some (Bytes.ascii "b") ∧
      x.files (Bytes.ascii "a") = [formatLogMsg (Bytes.ascii "now") .eERROR (Bytes.ascii "one")] ∧
      x.files (Bytes.ascii "b") = [formatLogMsg (Bytes.ascii "now") .eERROR (Bytes.ascii "two")] := by
  have hinit : Reachable system Kept (start false 1) := .init ⟨_, _, rfl⟩
  obtain ⟨x, hrun, hcurrent, hfirst, hsecond⟩ : ∃ x, system.run (start false 1) twoSessions = some x ∧
      x.current = some (Bytes.ascii "b") ∧
      writtenTo (Bytes.ascii "a") x.tenures
        = [formatLogMsg (Bytes.ascii "now") .eERROR (Bytes.ascii "one")] ∧
      writtenTo (Bytes.ascii "b") x.tenures
        = [formatLogMsg (Bytes.ascii "now") .eERROR (Bytes.ascii "two")] :=
    ⟨_, rfl, rfl, rfl, rfl⟩
  have hx : Reachable system Kept x := by
    refine hinit.run ?_ hrun
    simp [twoSessions, oneErrorSession, logsError, threadMoves, writerMoves, Kept, SettingsKept]
  obtain ⟨-, -, -, -, hfiles, -⟩ := sessions_isolated hx
  exact ⟨x, hx, hcurrent, (hfiles _).trans hfirst, (hfiles _).trans hsecond⟩

end Process

end CewServer.Logger
