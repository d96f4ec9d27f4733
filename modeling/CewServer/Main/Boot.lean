import CewServer.Lib.Transition
import CewServer.Logger.Fork

/-!
# The processes of the server and their log writers

`main` and what it forks, from the start to `ev_run`: the two forks of `daemonize`, the fork of each
round of `worker_init`, and `workerp_entry` in the child. A process has its copy of the logger's
static variables, and it has a `logger_thread` only if it started one itself: `fork` copies the
variables and only the calling thread. Each call that can fail is one step, so a run is any
interleaving of the processes with any outcome of their calls.

A process that serves with an open logger and no `logger_thread` takes messages that nothing writes.
`workerp_entry` opens a logger of its own before it serves. `daemonize` does not.
-/

namespace CewServer.Main

/-- What the logger of a process amounts to: `iIsInitDone`, and whether its `logger_thread` lives. -/
structure LoggerState where
  iIsInitDone : Bool
  threadRuns : Bool
  deriving DecidableEq

namespace LoggerState

def unused : LoggerState := ⟨false, false⟩

/-- The end of `logger_init`, after `pthread_create`. -/
def created : LoggerState := ⟨true, true⟩

/-- `logger_destroy` joins the thread, if there is one. -/
def loggerDestroy (l : LoggerState) : LoggerState := if l.iIsInitDone then ⟨false, false⟩ else l

def forked (l : LoggerState) : LoggerState := { l with threadRuns := false }

end LoggerState

/-- The next call of a process that can fail or that changes its logger. -/
inductive Pc where
  | settingsInit
  | settingsLoad
  /-- `fopen` in `logger_init`. -/
  | loggerFile
  /-- `pthread_create` in `logger_init`. -/
  | loggerThread
  | getrlimit
  | sessionFork
  | sigaction
  | realFork
  | chdir
  | attach
  /-- The top of round `i` of `worker_init`. -/
  | allocate (i : Nat)
  | workerFork (i : Nat)
  | createIpc (i : Nat)
  | socketSetup
  | evRun
  /-- `workerp_entry`, from its call of `logger_destroy`. -/
  | workerDestroy
  | workerFile
  | workerThread
  | workerChdir
  | workerConnect
  | workerEvRun
  | exited
  deriving DecidableEq

structure Process where
  pc : Pc
  logger : LoggerState
  deriving DecidableEq

namespace Process

def goto (x : Process) (pc : Pc) : Process := { x with pc := pc }

/-- The copy that `fork` makes, with what it does next. -/
def forked (x : Process) (pc : Pc) : Process := { x with pc := pc, logger := x.logger.forked }

def withLogger (x : Process) (logger : LoggerState) : Process := { x with logger := logger }

/-- The next call succeeds, or else the process exits. -/
def orExit (x : Process) (ok : Bool) (pc : Pc) : Process := x.goto (if ok then pc else .exited)

end Process

def wantedWorkers : Nat := 4

/-- One step of a process: the process afterwards, and the child if it forked. `ok` is how the call
turns out; in `ev_run`, that the loop is left. The local variable `bDeamonize` of `main` keeps its
value. -/
def processStep (bDeamonize : Bool) (x : Process) (ok : Bool) : Option (Process × Option Process) :=
  match x.pc with
  | .settingsInit => some (x.orExit ok .settingsLoad, none)
  | .settingsLoad => some (x.orExit ok .loggerFile, none)
  | .loggerFile => some (x.orExit (!x.logger.iIsInitDone && ok) .loggerThread, none)
  | .loggerThread =>
      if ok then
        some ((x.withLogger .created).goto (if bDeamonize then .getrlimit else .allocate 0), none)
      else some (x.goto .exited, none)
  | .getrlimit => some (x.orExit ok .sessionFork, none)
  | .sessionFork => some (x.goto .exited, if ok then some (x.forked .sigaction) else none)
  | .sigaction => some (x.orExit ok .realFork, none)
  | .realFork => some (x.goto .exited, if ok then some (x.forked .chdir) else none)
  | .chdir => some (x.orExit ok .attach, none)
  | .attach => some (x.orExit ok (.allocate 0), none)
  | .allocate i =>
      if i < wantedWorkers then some (x.orExit ok (.workerFork i), none)
      else some (x.goto .socketSetup, none)
  | .workerFork i =>
      some (x.orExit ok (.createIpc i), if ok then some (x.forked .workerDestroy) else none)
  | .createIpc i => some (x.orExit ok (.allocate (i + 1)), none)
  | .socketSetup => some (x.orExit ok .evRun, none)
  | .evRun => if ok then some (x.goto .exited, none) else none
  | .workerDestroy => some ((x.withLogger x.logger.loggerDestroy).goto .workerFile, none)
  -- the result of `logger_init` is not looked at
  | .workerFile =>
      some (x.goto (if !x.logger.iIsInitDone && ok then .workerThread else .workerChdir), none)
  | .workerThread =>
      some ((if ok then x.withLogger .created else x).goto .workerChdir, none)
  | .workerChdir => some (x.orExit ok .workerConnect, none)
  | .workerConnect => some (x.orExit ok .workerEvRun, none)
  | .workerEvRun => if ok then some (x.goto .exited, none) else none
  | .exited => none

inductive Label where
  | run (k : Nat) (ok : Bool)
  /-- A signal ends the process. -/
  | kill (k : Nat)

def bootStep (bDeamonize : Bool) (s : List Process) : Label → Option (List Process)
  | .run k ok => s[k]?.bind fun x =>
      (processStep bDeamonize x ok).map fun y => s.set k y.1 ++ y.2.toList
  | .kill k => s[k]?.map fun x => s.set k (x.goto .exited)

/-- `(argc > 1) && strcmp(argv[0], "-d")`, as `main` tests it. -/
def deamonizes (argc : Int) (argv0 : Bytes) : Bool :=
  decide (1 < argc) && decide (Bytes.cstr argv0 ≠ Bytes.ascii "-d")

def processes (bDeamonize : Bool) : Transition.System (List Process) Label where
  Init s := s = [⟨.settingsInit, .unused⟩]
  step := bootStep bDeamonize

/-- The processes of the program started with these arguments. -/
def boot (argc : Int) (argv0 : Bytes) : Transition.System (List Process) Label :=
  processes (deamonizes argc argv0)

/-- A process in its event loop with an open logger has the thread that writes the log. -/
def Process.LogsWhatItTakes (x : Process) : Prop :=
  x.pc = .evRun ∨ x.pc = .workerEvRun → x.logger.iIsInitDone = true → x.logger.threadRuns = true

/-! ### The logger along the way -/

section Known

variable {bDeamonize : Bool}

/-- What is known of the logger at each call: open with its thread, open without it since a fork, or
not open. -/
def Process.Known (bDeamonize : Bool) (x : Process) : Prop :=
  match x.pc with
  | .settingsInit | .settingsLoad | .loggerFile | .loggerThread => x.logger = .unused
  | .getrlimit | .sessionFork => bDeamonize = true ∧ x.logger = .created
  | .sigaction | .realFork | .chdir | .attach =>
      bDeamonize = true ∧ x.logger = LoggerState.created.forked
  | .allocate _ | .workerFork _ | .createIpc _ | .socketSetup | .evRun =>
      x.logger = if bDeamonize then LoggerState.created.forked else .created
  | .workerDestroy => x.logger = LoggerState.created.forked
  | .workerFile | .workerThread => x.logger = .unused
  | .workerChdir | .workerConnect | .workerEvRun => x.logger.iIsInitDone = x.logger.threadRuns
  | .exited => True

theorem known_exited (x : Process) : (x.goto .exited).Known bDeamonize := trivial

theorem known_orExit {x : Process} {ok : Bool} {pc : Pc} (h : (x.goto pc).Known bDeamonize) :
    (x.orExit ok pc).Known bDeamonize := by
  cases ok
  · exact known_exited x
  · exact h

theorem known_of_processStep {x y : Process} {ok : Bool} {child : Option Process}
    (h : x.Known bDeamonize) (hstep : processStep bDeamonize x ok = some (y, child)) :
    y.Known bDeamonize ∧ ∀ c ∈ child, c.Known bDeamonize := by
  obtain ⟨pc, logger⟩ := x
  have hnoChild : ∀ c ∈ (none : Option Process), c.Known bDeamonize := by simp
  cases pc <;> simp only [processStep, Option.some.injEq, Prod.mk.injEq] at hstep
  -- calls after which the process knows what it knew, or exits
  case settingsInit | settingsLoad | loggerFile | getrlimit | sigaction | chdir | createIpc
    | socketSetup | workerChdir | workerConnect =>
    obtain ⟨rfl, rfl⟩ := hstep
    exact ⟨known_orExit h, hnoChild⟩
  case loggerThread =>
    cases ok <;> simp only [Bool.false_eq_true, if_true, if_false, Option.some.injEq,
      Prod.mk.injEq] at hstep <;> obtain ⟨rfl, rfl⟩ := hstep
    · exact ⟨trivial, hnoChild⟩
    · cases bDeamonize
      · exact ⟨rfl, hnoChild⟩
      · exact ⟨⟨rfl, rfl⟩, hnoChild⟩
  case sessionFork | realFork =>
    obtain ⟨hdaemon, rfl⟩ := h
    obtain ⟨rfl, rfl⟩ := hstep
    refine ⟨trivial, ?_⟩
    cases ok
    · exact hnoChild
    · rintro c ⟨⟩
      exact ⟨hdaemon, rfl⟩
  case attach =>
    obtain ⟨hdaemon, hlogger⟩ := h
    obtain ⟨rfl, rfl⟩ := hstep
    refine ⟨known_orExit ?_, hnoChild⟩
    show logger = if bDeamonize then LoggerState.created.forked else .created
    rw [hdaemon]
    exact hlogger
  case allocate i =>
    split at hstep <;> simp only [Option.some.injEq, Prod.mk.injEq] at hstep <;>
      obtain ⟨rfl, rfl⟩ := hstep
    · exact ⟨known_orExit h, hnoChild⟩
    · exact ⟨h, hnoChild⟩
  case workerFork i =>
    obtain ⟨rfl, rfl⟩ := hstep
    refine ⟨known_orExit h, ?_⟩
    cases ok
    · exact hnoChild
    · rintro c ⟨⟩
      have hlogger : logger = if bDeamonize then LoggerState.created.forked else .created := h
      show logger.forked = LoggerState.created.forked
      rw [hlogger]
      cases bDeamonize <;> rfl
  case evRun | workerEvRun =>
    cases ok <;> simp only [Bool.false_eq_true, if_true, if_false, Option.some.injEq, Prod.mk.injEq,
      reduceCtorEq] at hstep
    obtain ⟨rfl, rfl⟩ := hstep
    exact ⟨trivial, hnoChild⟩
  case workerDestroy =>
    obtain ⟨rfl, rfl⟩ := hstep
    obtain rfl : logger = LoggerState.created.forked := h
    exact ⟨rfl, hnoChild⟩
  case workerFile =>
    obtain ⟨rfl, rfl⟩ := hstep
    obtain rfl : logger = .unused := h
    cases ok <;> exact ⟨rfl, hnoChild⟩
  case workerThread =>
    obtain ⟨rfl, rfl⟩ := hstep
    obtain rfl : logger = .unused := h
    cases ok <;> exact ⟨rfl, hnoChild⟩
  case exited => cases hstep

theorem known_of_bootStep {s t : List Process} {l : Label} (h : ∀ x ∈ s, x.Known bDeamonize)
    (hstep : (processes bDeamonize).step s l = some t) : ∀ x ∈ t, x.Known bDeamonize := by
  cases l with
  | run k ok =>
      obtain ⟨x, hx, hmap⟩ := Option.bind_eq_some_iff.mp hstep
      obtain ⟨⟨y, child⟩, hy, rfl⟩ := Option.map_eq_some_iff.mp hmap
      obtain ⟨hknown, hchild⟩ := known_of_processStep (h x (List.mem_of_getElem? hx)) hy
      intro z hz
      rcases List.mem_append.mp hz with hz | hz
      · rcases List.mem_or_eq_of_mem_set hz with hz | rfl
        · exact h z hz
        · exact hknown
      · exact hchild z (by simpa using hz)
  | kill k =>
      obtain ⟨x, hx, rfl⟩ := Option.map_eq_some_iff.mp hstep
      intro z hz
      rcases List.mem_or_eq_of_mem_set hz with hz | rfl
      · exact h z hz
      · exact known_exited x

theorem known_of_reachable {promise : List Process → Label → Prop} {s : List Process}
    (hs : Transition.Reachable (processes bDeamonize) promise s) : ∀ x ∈ s, x.Known bDeamonize := by
  refine hs.invariant ?_ fun _ _ _ h _ hstep => known_of_bootStep h hstep
  rintro s rfl x hx
  obtain rfl := List.mem_singleton.mp hx
  rfl

/-- In its event loop a worker has a writer if its logger is open, and the master if it was not
daemonized. -/
theorem Process.Known.logs {x : Process} (h : x.Known bDeamonize)
    (hserves : bDeamonize = true → x.pc ≠ .evRun) : x.LogsWhatItTakes := by
  obtain ⟨pc, logger⟩ := x
  rintro (hpc | hpc) hopen
  · obtain rfl : pc = .evRun := hpc
    have hlogger : logger = if bDeamonize then LoggerState.created.forked else .created := h
    cases bDeamonize
    · rw [hlogger]
      rfl
    · exact absurd rfl (hserves rfl)
  · obtain rfl : pc = .workerEvRun := hpc
    have hboth : logger.iIsInitDone = logger.threadRuns := h
    exact hboth.symm.trans hopen

/-- A daemonized master in its event loop has none. -/
theorem Process.Known.not_logs {x : Process} (h : x.Known true) (hpc : x.pc = .evRun) :
    ¬ x.LogsWhatItTakes := by
  obtain ⟨pc, logger⟩ := x
  obtain rfl : pc = .evRun := hpc
  obtain rfl : logger = LoggerState.created.forked := h
  intro hlogs
  cases hlogs (.inl rfl) rfl

end Known

/-- Process 2 is the daemon: `main` forks twice, brings up its four workers and serves. -/
def daemonServes : List Label :=
  List.replicate 6 (.run 0 true) ++ List.replicate 2 (.run 1 true) ++ List.replicate 16 (.run 2 true)

theorem daemon_serves : ∃ s x, Transition.Reachable (processes true) (fun _ _ => True) s ∧ x ∈ s ∧
    x.pc = .evRun := by
  obtain ⟨s, x, hrun, hx, hpc⟩ : ∃ s x, (processes true).run [⟨.settingsInit, .unused⟩] daemonServes
      = some s ∧ s[2]? = some x ∧ x.pc = .evRun := ⟨_, _, rfl, rfl, rfl⟩
  have hinit : Transition.Reachable (processes true) (fun _ _ => True) [⟨.settingsInit, .unused⟩] :=
    .init rfl
  exact ⟨s, x, hinit.run (fun _ _ _ => trivial) hrun, List.mem_of_getElem? hx, hpc⟩

/-- Every process that serves has a log writer in every run exactly if the program is not
daemonized. In a run of a daemonized program it is the master that has none, from the moment it
serves, and every worker has one. -/
theorem serving_logs_iff (argc : Int) (argv0 : Bytes) :
    ((∀ s, Transition.Reachable (boot argc argv0) (fun _ _ => True) s →
        ∀ x ∈ s, x.LogsWhatItTakes) ↔
      ¬ (1 < argc ∧ Bytes.cstr argv0 ≠ Bytes.ascii "-d")) ∧
    ∀ s, Transition.Reachable (boot argc argv0) (fun _ _ => True) s → ∀ x ∈ s,
      (x.LogsWhatItTakes ↔ ¬ (x.pc = .evRun ∧ 1 < argc ∧ Bytes.cstr argv0 ≠ Bytes.ascii "-d")) := by
  have hdaemon : deamonizes argc argv0 = true ↔
      1 < argc ∧ Bytes.cstr argv0 ≠ Bytes.ascii "-d" := by
    simp only [deamonizes, Bool.and_eq_true, decide_eq_true_eq]
  unfold boot
  rw [← hdaemon]
  generalize deamonizes argc argv0 = bDeamonize
  have heach : ∀ s, Transition.Reachable (processes bDeamonize) (fun _ _ => True) s → ∀ x ∈ s,
      (x.LogsWhatItTakes ↔ ¬ (x.pc = .evRun ∧ bDeamonize = true)) := by
    intro s hs x hx
    have hknown := known_of_reachable hs x hx
    constructor
    · rintro hlogs ⟨hpc, rfl⟩
      exact hknown.not_logs hpc hlogs
    · intro hnot
      exact hknown.logs fun hd hpc => hnot ⟨hpc, hd⟩
  refine ⟨⟨?_, ?_⟩, heach⟩
  · rintro hall rfl
    obtain ⟨s, x, hs, hx, hpc⟩ := daemon_serves
    exact (heach s hs x hx).mp (hall s hs x hx) ⟨hpc, rfl⟩
  · intro hnot s hs x hx
    exact (heach s hs x hx).mpr fun h => hnot h.2

theorem daemon_doesNotLog :
    ¬ ∀ (argc : Int) (argv0 : Bytes) (s : List Process),
      Transition.Reachable (boot argc argv0) (fun _ _ => True) s → ∀ x ∈ s, x.LogsWhatItTakes := by
  intro hall
  have hboot : boot 2 (Bytes.ascii "cewserver") = processes true := congrArg processes (by decide)
  obtain ⟨s, x, hs, hx, hpc⟩ := daemon_serves
  rw [← hboot] at hs
  have hlogs := hall 2 _ s hs x hx
  rw [hboot] at hs
  exact (known_of_reachable hs x hx).not_logs hpc hlogs

/-! ### The logger of a session

`LoggerState` says of a session what matters here: `logger_init` makes it `created`, a closed session
is `unused`, and the copy that `fork` makes has lost its thread. -/

open Logger

def LoggerState.ofSession {p : Nat} (s : Session p) : LoggerState :=
  ⟨s.iIsInitDone, decide (s.writer ≠ .cancelled)⟩

theorem ofSession_loggerInit {p : Nat} (settings : LogSettings) (Loglevel : UInt32)
    (bTerminateProg : Bool) (pid : Nat) :
    LoggerState.ofSession (loggerInit settings Loglevel bTerminateProg pid : Session p) = .created :=
  rfl

theorem ofSession_closed {p : Nat} {s : Session p}
    (hs : Transition.Reachable (session p) SettingsKept s) (hclosed : s.iIsInitDone = false) :
    LoggerState.ofSession s = .unused := by
  have hcancelled := (accounted_of_reachable hs).closed hclosed
  simp only [LoggerState.ofSession, LoggerState.unused, hclosed, hcancelled, ne_eq, not_true_eq_false,
    decide_false]

theorem ofSession_forked (x : LockedSession 1) (pid : Nat) :
    LoggerState.ofSession (x.forked pid).copy.session = (LoggerState.ofSession x.session).forked :=
  rfl

end CewServer.Main
