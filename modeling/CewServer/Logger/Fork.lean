import CewServer.Logger.Mutex

/-!
# The logger across `fork`

`worker_init` calls `logger_flush` and forks. The child is a copy of the master: of the static
variables, of the mutex and of the buffer of the open stream. Of the threads it has the one that
called `fork`, so the copy of `logger_thread` is as if it had ended, and joining it does not block. On
its way to a logger of its own the child logs the debug message of `worker_init` and then runs
`logger_destroy` on what it inherited, whose `fclose` writes out the copied buffer.

The state is the master, whose main thread uses the logger as it likes and forks only right after
`logger_flush` has returned, and the children it has forked so far. All of them write to one file.
-/

namespace CewServer.Logger

/-- What the child does next outside the logger. `reopen` is the call of `logger_init` that ends this
part of its life. -/
inductive ChildPc where
  | announce
  | destroy
  | reopen
  deriving DecidableEq

/-- A forked child. `inherited` is history: the messages in the buffer it was forked with. -/
structure Child where
  copy : LockedSession 1
  next : ChildPc
  inherited : List Bytes

structure Forks where
  master : LockedSession 1
  /-- The last call of the main thread was `logger_flush`. -/
  flushed : Bool
  children : List Child

inductive ForkLabel where
  | master (l : Label 1)
  | fork (pid : Nat)
  | child (k : Nat) (acTime : Bytes) (o : Outcome)

/-- What `fork` makes of the process. The log file is the master's to count. -/
def LockedSession.forked (x : LockedSession 1) (pid : Nat) : Child where
  copy := { x with session := { x.session with writer := .cancelled, pid := pid, logfile := [] } }
  next := .announce
  inherited := x.session.LogfileFd.getD []

def forkMsg (pid : Nat) : Bytes := Bytes.ascii "fork: I am PID " ++ Bytes.decimal pid

/-- One step of the child, from `fork` to the return of `logger_destroy`. -/
def childStep (c : Child) (acTime : Bytes) (o : Outcome) : Option Child :=
  match c.copy.session.threads onlyThread with
  | .ready _ =>
      match c.next with
      | .announce =>
          (lockedSessionStep c.copy
            (.call onlyThread (.logMsg .eDEBUG (forkMsg c.copy.session.pid)))).map
            fun x => { c with copy := x, next := .destroy }
      | .destroy =>
          (lockedSessionStep c.copy (.call onlyThread .loggerDestroy)).map
            fun x => { c with copy := x, next := .reopen }
      | .reopen => none
  | _ => (lockedSessionStep c.copy (.thread onlyThread acTime o)).map fun x => { c with copy := x }

/-- Whether the last call is `logger_flush`, after the step `l`. -/
def lastIsFlush (flushed : Bool) : Label 1 → Bool
  | .call _ .loggerFlush => true
  | .call _ _ => false
  | _ => flushed

def ThreadPc.isReady : ThreadPc → Bool
  | .ready _ => true
  | _ => false

/-- The main thread is at the `fork` of `worker_init`. -/
def Forks.atFork (s : Forks) : Bool :=
  s.flushed && (s.master.session.threads onlyThread).isReady &&
    !(s.master.session.exited || s.master.session.fault)

def forkStep (s : Forks) : ForkLabel → Option Forks
  | .master l => (lockedSessionStep s.master l).map fun x =>
      { s with master := x, flushed := lastIsFlush s.flushed l }
  | .fork pid =>
      if s.atFork then
        some { s with flushed := false, children := s.children ++ [s.master.forked pid] }
      else none
  | .child k acTime o => s.children[k]?.bind fun c => (childStep c acTime o).map fun d =>
      { s with children := s.children.set k d }

def forks : Transition.System Forks ForkLabel where
  Init s := (session 1).Init s.master.session ∧ s.master.pLogMutex = .free ∧ s.flushed = false ∧
    s.children = []
  step := forkStep

/-- The settings stay admissible in the master. -/
def ForkKept (s : Forks) : ForkLabel → Prop
  | .master l => SettingsKept s.master.session l
  | .fork _ | .child _ _ _ => True

/-! ### What a step can do -/

variable {s t : Forks} {c d : Child}

/-- The child with its thread at `pc` in the logger. -/
def Child.goto (c : Child) (pc : ThreadPc) (next : ChildPc) : Child where
  copy := ⟨c.copy.session.goto onlyThread pc, c.copy.pLogMutex⟩
  next := next
  inherited := c.inherited

@[simp] theorem Child.goto_thread (c : Child) (pc : ThreadPc) (next : ChildPc) :
    (c.goto pc next).copy.session.threads onlyThread = pc := by
  simp [Child.goto]

/-- A step of the child calls the next function of its program or goes on inside the logger. -/
inductive ChildMove (c : Child) : Child → Prop
  | announce (iRet : LogRet) (hpc : c.copy.session.threads onlyThread = .ready iRet)
      (hnext : c.next = .announce) :
      ChildMove c (c.goto (.msgAllowed .program .eDEBUG (forkMsg c.copy.session.pid)) .destroy)
  | destroy (iRet : LogRet) (hpc : c.copy.session.threads onlyThread = .ready iRet)
      (hnext : c.next = .destroy) :
      ChildMove c (c.goto .destroyEntry .reopen)
  | inside (x : LockedSession 1) (hmove : LockedMove c.copy onlyThread x) :
      ChildMove c { c with copy := x }

theorem childStep_cases {acTime : Bytes} {o : Outcome} (h : childStep c acTime o = some d) :
    ChildMove c d := by
  unfold childStep at h
  split at h
  · rename_i iRet hpc
    split at h
    · rename_i hnext
      obtain ⟨x, hx, rfl⟩ := Option.map_eq_some_iff.mp h
      obtain ⟨t, hmove, rfl⟩ := lockedSessionStep_call hx
      cases hmove with
      | logMsg iRet' eType text hpc' => exact .announce iRet hpc hnext
    · rename_i hnext
      obtain ⟨x, hx, rfl⟩ := Option.map_eq_some_iff.mp h
      obtain ⟨t, hmove, rfl⟩ := lockedSessionStep_call hx
      cases hmove with
      | loggerDestroy iRet' hpc' => exact .destroy iRet hpc hnext
    · cases h
  · obtain ⟨x, hx, rfl⟩ := Option.map_eq_some_iff.mp h
    exact .inside x (lockedSessionStep_thread hx)

inductive ForkMove (s : Forks) : ForkLabel → Forks → Prop
  | master (l : Label 1) (x : LockedSession 1) (hstep : lockedSessionStep s.master l = some x) :
      ForkMove s (.master l) { s with master := x, flushed := lastIsFlush s.flushed l }
  | fork (pid : Nat) (hready : s.atFork = true) :
      ForkMove s (.fork pid)
        { s with flushed := false, children := s.children ++ [s.master.forked pid] }
  | child (k : Nat) (acTime : Bytes) (o : Outcome) (c d : Child) (hc : s.children[k]? = some c)
      (hmove : ChildMove c d) :
      ForkMove s (.child k acTime o) { s with children := s.children.set k d }

theorem forkStep_cases {l : ForkLabel} (h : forks.step s l = some t) : ForkMove s l t := by
  change forkStep s l = some t at h
  cases l with
  | master l =>
      obtain ⟨x, hx, rfl⟩ := Option.map_eq_some_iff.mp h
      exact .master l x hx
  | fork pid =>
      simp only [forkStep] at h
      split at h
      · obtain rfl := Option.some.inj h
        exact .fork pid ‹_›
      · cases h
  | child k acTime o =>
      obtain ⟨c, hc, hset⟩ := Option.bind_eq_some_iff.mp h
      obtain ⟨d, hd, rfl⟩ := Option.map_eq_some_iff.mp hset
      exact .child k acTime o c d hc (childStep_cases hd)

theorem Forks.atFork_iff : s.atFork = true ↔ s.flushed = true ∧
    (∃ iRet, s.master.session.threads onlyThread = .ready iRet) ∧
    s.master.session.exited = false ∧ s.master.session.fault = false := by
  have hready : (s.master.session.threads onlyThread).isReady = true ↔
      ∃ iRet, s.master.session.threads onlyThread = .ready iRet := by
    cases s.master.session.threads onlyThread <;> simp [ThreadPc.isReady]
  simp only [Forks.atFork, Bool.and_eq_true, hready, Bool.not_eq_true', Bool.or_eq_false_iff]
  tauto

/-- An invariant of the children alone: a fork establishes it and a step of the child keeps it. -/
theorem children_invariant {promise : Forks → ForkLabel → Prop} {Inv : Child → Prop}
    (hfork : ∀ s pid, Transition.Reachable forks promise s → promise s (.fork pid) →
      s.atFork = true → Inv (s.master.forked pid))
    (hmove : ∀ c d, Inv c → ChildMove c d → Inv d)
    (hs : Transition.Reachable forks promise s) : ∀ c ∈ s.children, Inv c := by
  induction hs with
  | init hinit =>
      intro c hc
      rw [hinit.2.2.2] at hc
      cases hc
  | step hs hpromise hstep ih =>
      cases forkStep_cases hstep with
      | master l x hx => exact ih
      | fork pid hready =>
          intro c hc
          rcases List.mem_append.mp hc with hc | hc
          · exact ih c hc
          · obtain rfl := List.mem_singleton.mp hc
            exact hfork _ pid hs hpromise hready
      | child k acTime o c d hk hchild =>
          intro e he
          rcases List.mem_or_eq_of_mem_set he with he | rfl
          · exact ih e he
          · exact hmove c _ (ih c (List.mem_of_getElem? hk)) hchild

/-- The master of a run with forks runs a session. -/
theorem master_reachable (hs : Transition.Reachable forks ForkKept s) :
    Transition.Reachable (session 1) SettingsKept s.master.session := by
  induction hs with
  | init hinit => exact .init hinit.1
  | step hs hpromise hstep ih =>
      cases forkStep_cases hstep with
      | master l x hx =>
          rcases lockedSessionStep_session hx with heq | hsession
          · rw [heq]
            exact ih
          · exact .step ih hpromise hsession
      | fork pid hready => exact ih
      | child k acTime o c d hk hchild => exact ih

/-! ### A master with one child -/

def debugMaster : Forks where
  master := ⟨loggerInit LogSettings.default LoggerType.eDEBUG.value false 1, .free⟩
  flushed := false
  children := []

theorem debugMaster_init : forks.Init debugMaster :=
  ⟨⟨LogSettings.default, _, _, _, ⟨by decide, by decide⟩, rfl⟩, rfl, rfl, rfl⟩

def masterThread (n : Nat) : List ForkLabel :=
  List.replicate n (.master (.thread onlyThread (Bytes.ascii "now") .ok))

def masterWriter (n : Nat) : List ForkLabel := List.replicate n (.master (.writer .ok))

def firstChild (n : Nat) : List ForkLabel := List.replicate n (.child 0 (Bytes.ascii "now") .ok)

/-- A debug message of the master, from the call of `log_msg` to its return. -/
def masterDebug (text : Bytes) : List ForkLabel :=
  .master (.call onlyThread (.logMsg .eDEBUG text)) :: masterThread 4

/-- What `worker_init` logs before it calls `logger_flush`. -/
def addingWorker : List ForkLabel :=
  masterDebug (Bytes.ascii "Adding worker 0 to system.")
    ++ masterDebug (Bytes.ascii "psWorker 0 @ 0x5C0")

def masterFlush (n : Nat) : List ForkLabel := .master (.call onlyThread .loggerFlush) :: masterThread n

end CewServer.Logger
