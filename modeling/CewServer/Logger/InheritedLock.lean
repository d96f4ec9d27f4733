import CewServer.Logger.Fork

/-!
# The mutex a child inherits

`logger_thread` takes `pLogMutex` on every poll, so `fork` may copy it locked by a thread that the
child does not have. The child meets the mutex in the debug messages of `worker_init` and of
`logger_destroy`, and gets rid of it in the unlock of `logger_destroy`, which comes after both. So it
hangs exactly when the mutex is held at the fork and the first of the two messages gets as far as the
lock: the level lets debug messages through and the queue has room. If the first message is turned
away, so is the second.
-/

namespace CewServer.Logger

open Transition

variable {s t : Forks} {c d : Child}

/-- The child is at `pthread_mutex_lock`, and the holder is a thread it does not have. -/
def Child.Blocked (c : Child) : Prop :=
  (c.copy.session.threads onlyThread).inserting = true ∧ c.copy.pLogMutex.holder = some .writer

/-- A debug message would be turned away before the lock. -/
def Session.Refuses {p : Nat} (s : Session p) : Prop :=
  s.isMsgAllowed .eDEBUG ≠ .exitSuccess ∨ s.sCurrLogSettings.iLoggerQueueSize < s.iDataInQueueCount

/-- At each fork `logger_thread` does not hold the mutex, or a debug message would be turned away. -/
def LockFreeAtFork (s : Forks) : ForkLabel → Prop
  | .fork _ => s.master.pLogMutex.holder = some .writer → s.master.session.Refuses
  | .master _ | .child _ _ _ => True

/-! ### The way to the lock -/

/-- A thread that logs nothing but debug messages, in a session that turns them away, is not on the
way to the lock, nor has it got past the unlock of `logger_destroy`. -/
def KeepsClear (s : Session 1) : ThreadPc → Prop
  | .msgAllowed _ eType _ => eType = .eDEBUG
  | .sizeCheck _ _ _ => s.sCurrLogSettings.iLoggerQueueSize < s.iDataInQueueCount
  | .insertTail _ _ | .freeQueue _ | .resetCount | .finish => False
  | _ => True

/-- What a child does while its mutex is held by a thread it does not have. -/
inductive HeldMove (c : Child) : Child → Prop
  | announce :
      HeldMove c (c.goto (.msgAllowed .program .eDEBUG (forkMsg c.copy.session.pid)) .destroy)
  | destroy : HeldMove c (c.goto .destroyEntry .reopen)
  | inside (t : Session 1) (hpc : c.copy.session.threads onlyThread ≠ .closeStream)
      (hmove : ThreadMove c.copy.session onlyThread t) :
      HeldMove c { c with copy := { c.copy with session := t } }

/-- No step of the child makes that thread the holder, and the mutex is left alone while it is. -/
theorem ChildMove.of_held (hmove : ChildMove c d)
    (hholder : d.copy.pLogMutex.holder = some .writer) :
    c.copy.pLogMutex.holder = some .writer ∧ HeldMove c d := by
  cases hmove with
  | announce iRet hpc hnext => exact ⟨hholder, .announce⟩
  | destroy iRet hpc hnext => exact ⟨hholder, .destroy⟩
  | inside x hmove =>
      cases hmove with
      | lock hpc hfree => cases hholder
      | leave m t hpc hheld hm hmove => rcases hm with rfl | rfl <;> cases hholder
      | unlock t hpc hmove => cases hholder
      | apart t hpc hmove => exact ⟨hholder, .inside t hpc hmove⟩

/-- While its mutex is held by the thread it does not have, the child keeps clear of it. -/
def Child.Evades (c : Child) : Prop :=
  c.copy.pLogMutex.holder = some .writer →
    c.copy.session.Refuses ∧ KeepsClear c.copy.session (c.copy.session.threads onlyThread)

theorem Child.Evades.not_blocked (h : c.Evades) : ¬ c.Blocked := by
  rintro ⟨hpc, hholder⟩
  obtain ⟨-, hclear⟩ := h hholder
  cases hthread : c.copy.session.threads onlyThread <;> rw [hthread] at hpc hclear
  case insertTail => exact hclear
  all_goals cases hpc

theorem refuses_of_shutDown {p : Nat} (s : Session p) : { s with iShuttingDown := true }.Refuses := by
  left
  unfold Session.isMsgAllowed
  cases s.iIsInitDone <;> cases s.bTerminateProg <;> simp

theorem keepsClear_of_threadMove {s t : Session 1} (hrefuses : s.Refuses)
    (hclear : KeepsClear s (s.threads onlyThread)) (hnot : s.threads onlyThread ≠ .closeStream)
    (hmove : ThreadMove s onlyThread t) :
    t.Refuses ∧ KeepsClear t (t.threads onlyThread) := by
  -- where the thread goes, in a session that refuses what this one does
  have hgoto : ∀ (u : Session 1) (pc : ThreadPc), u.Refuses → KeepsClear u pc →
      (u.goto onlyThread pc).Refuses ∧
        KeepsClear (u.goto onlyThread pc) ((u.goto onlyThread pc).threads onlyThread) := by
    intro u pc hu hpc
    refine ⟨hu, ?_⟩
    rw [Session.goto_threads, Function.update_self]
    exact hpc
  have hlog : ∀ (u : Session 1) (caller : Caller) (iRet : LogRet),
      KeepsClear u (caller.afterLog iRet) := by
    intro u caller iRet
    cases caller <;> trivial
  cases hmove with
  | refused caller eType text hpc hno => exact hgoto s _ hrefuses (hlog s caller _)
  | allowed caller eType text hpc hyes =>
      rw [hpc] at hclear
      obtain rfl : eType = .eDEBUG := hclear
      exact hgoto s _ hrefuses (hrefuses.resolve_left (not_not.mpr hyes))
  | full caller eType text hpc hfull => exact hgoto s _ hrefuses (hlog s caller _)
  | formatted caller eType text msg hpc hroom =>
      rw [hpc] at hclear
      have hfull : s.sCurrLogSettings.iLoggerQueueSize < s.iDataInQueueCount := hclear
      omega
  | lockFailed caller msg hpc =>
      rw [hpc] at hclear
      exact hclear.elim
  | insert caller msg iRet hpc =>
      rw [hpc] at hclear
      exact hclear.elim
  | flushSet caller hpc => exact hgoto { s with iDoForceFlush := true } _ hrefuses trivial
  | flushed caller MaxLoops polls hpc hleave =>
      refine hgoto s _ hrefuses ?_
      cases caller <;> trivial
  | destroying text hpc hopen => exact hgoto s _ hrefuses rfl
  | shutDown hpc => exact hgoto { s with iShuttingDown := true } _ (refuses_of_shutDown s) trivial
  | cancelThread hpc => exact hgoto { s with cancelRequested := true } _ hrefuses trivial
  | closeStream hpc => exact absurd hpc hnot
  | freeEntry freed msg hpc | freedAll freed hpc | resetCount hpc | finish hpc =>
      rw [hpc] at hclear
      exact hclear.elim
  | _ => exact hgoto s _ hrefuses trivial

theorem Child.Evades.of_move (h : c.Evades) (hmove : ChildMove c d) : d.Evades := by
  intro hholder
  obtain ⟨hheld, hkept⟩ := hmove.of_held hholder
  obtain ⟨hrefuses, hclear⟩ := h hheld
  cases hkept with
  | announce =>
      refine ⟨hrefuses, ?_⟩
      rw [Child.goto_thread]
      rfl
  | destroy =>
      refine ⟨hrefuses, ?_⟩
      rw [Child.goto_thread]
      trivial
  | inside t hpc hthread => exact keepsClear_of_threadMove hrefuses hclear hpc hthread

theorem child_evades (hs : Reachable forks LockFreeAtFork s) : ∀ c ∈ s.children, c.Evades := by
  refine children_invariant ?_ (fun c d h hmove => h.of_move hmove) hs
  intro s pid _ hfree hready hholder
  refine ⟨hfree hholder, ?_⟩
  obtain ⟨-, ⟨iRet, hpc⟩, -, -⟩ := Forks.atFork_iff.mp hready
  show KeepsClear _ (s.master.session.threads onlyThread)
  rw [hpc]
  trivial

/-! ### The way to the unlock -/

/-- In `logger_destroy`, up to its unlock. -/
def ThreadPc.destroying : ThreadPc → Bool
  | .msgAllowed .destroy _ _ | .sizeCheck .destroy _ _ | .insertTail .destroy _ | .flushSet .destroy
  | .flushPoll .destroy _ _ | .destroyEntry | .shutDown | .cancelThread | .joinThread
  | .closeStream => true
  | _ => false

/-- Outside the logger or in a message of the program. -/
def ThreadPc.logging : ThreadPc → Bool
  | .ready _ | .msgAllowed .program _ _ | .sizeCheck .program _ _ | .insertTail .program _ => true
  | _ => false

theorem destroying_of_threadMove {s t : Session 1} (hopen : s.iIsInitDone = true)
    (hnot : s.threads onlyThread ≠ .closeStream)
    (h : (s.threads onlyThread).destroying = true) (hmove : ThreadMove s onlyThread t) :
    (t.threads onlyThread).destroying = true ∧ t.iIsInitDone = true := by
  cases hmove <;> rw [‹s.threads onlyThread = _›] at h hnot
  case noInit hpc hclosed =>
    rw [hopen] at hclosed
    cases hclosed
  case closeStream => exact absurd rfl hnot
  case freeEntry | freedAll | resetCount | finish => cases h
  case destroying | shutDown | cancelThread | joined => exact ⟨rfl, hopen⟩
  -- in the rest, the message or the flush is that of `logger_destroy`
  all_goals
    rename Caller => caller
    cases caller <;> first | exact ⟨rfl, hopen⟩ | cases h

theorem logging_of_threadMove {s t : Session 1} (h : (s.threads onlyThread).logging = true)
    (hmove : ThreadMove s onlyThread t) :
    (t.threads onlyThread).logging = true ∧ t.iIsInitDone = s.iIsInitDone := by
  cases hmove <;> rw [‹s.threads onlyThread = _›] at h
  case refused caller _ _ _ _ | allowed caller _ _ _ _ | full caller _ _ _ _
    | formatted caller _ _ _ _ _ | lockFailed caller _ _ | insert caller _ _ _ =>
    cases caller <;> first | exact ⟨rfl, rfl⟩ | cases h
  all_goals cases h

/-- Until the unlock of `logger_destroy` the child has an open logger, and it is in the function its
program has called. -/
def Child.BeforeUnlock (c : Child) : Prop :=
  c.copy.pLogMutex.holder = some .writer → c.copy.session.iIsInitDone = true ∧
    if c.next = .reopen then (c.copy.session.threads onlyThread).destroying = true
    else (c.copy.session.threads onlyThread).logging = true

theorem Child.BeforeUnlock.of_move (h : c.BeforeUnlock) (hmove : ChildMove c d) :
    d.BeforeUnlock := by
  intro hholder
  obtain ⟨hheld, hkept⟩ := hmove.of_held hholder
  obtain ⟨hopen, hwhere⟩ := h hheld
  cases hkept with
  | announce => exact ⟨hopen, rfl⟩
  | destroy => exact ⟨hopen, rfl⟩
  | inside t hpc hthread =>
      split at hwhere
      · rename_i hnext
        obtain ⟨hafter, hstill⟩ := destroying_of_threadMove hopen hpc hwhere hthread
        exact ⟨hstill, by rw [if_pos hnext]; exact hafter⟩
      · rename_i hnext
        obtain ⟨hafter, hstill⟩ := logging_of_threadMove hwhere hthread
        exact ⟨hstill.trans hopen, by rw [if_neg hnext]; exact hafter⟩

theorem master_holderOk {promise : Forks → ForkLabel → Prop} (hs : Reachable forks promise s) :
    HolderOk s.master := by
  induction hs with
  | init hinit =>
      obtain ⟨-, hfree, -, -⟩ := hinit
      constructor <;> intro hm <;> rw [hfree] at hm <;> cases hm
  | step hs hpromise hstep ih =>
      cases forkStep_cases hstep with
      | master l x hx => exact ih.of_step hx
      | fork pid hready => exact ih
      | child k acTime o c d hk hchild => exact ih

theorem child_beforeUnlock (hs : Reachable forks ForkKept s) :
    ∀ c ∈ s.children, c.BeforeUnlock := by
  refine children_invariant ?_ (fun c d h hmove => h.of_move hmove) hs
  intro s pid hs _ hready hholder
  obtain ⟨-, ⟨iRet, hpc⟩, hrunning, -⟩ := Forks.atFork_iff.mp hready
  have hok := master_holderOk hs
  have hacc := accounted_of_reachable (master_reachable hs)
  have hheld : s.master.pLogMutex.holder = some .writer := hholder
  refine ⟨hacc.isOpen fun hcancelled => ?_, ?_⟩
  · cases hm : s.master.pLogMutex <;> rw [hm] at hheld
    case free => cases hheld
    case held party =>
      obtain rfl : party = .writer := Option.some.inj hheld
      have hlocks := hok.held hm
      rw [hcancelled] at hlocks
      cases hlocks
    case stuck party =>
      obtain rfl : party = .writer := Option.some.inj hheld
      rw [hok.stuck hm] at hrunning
      cases hrunning
  · show (s.master.session.threads onlyThread).logging = true
    rw [hpc]
    rfl

/-! ### The child that hangs -/

theorem childStep_announce {iRet : LogRet}
    (hpc : c.copy.session.threads onlyThread = .ready iRet) (hnext : c.next = .announce)
    (hrunning : c.copy.session.exited = false) (hfault : c.copy.session.fault = false)
    (acTime : Bytes) :
    childStep c acTime .ok
      = some (c.goto (.msgAllowed .program .eDEBUG (forkMsg c.copy.session.pid)) .destroy) := by
  simp [childStep, hpc, hnext, lockedSessionStep, hrunning, hfault, LockedSession.mapSession,
    sessionStep, callStep, Child.goto]

theorem childStep_message {caller : Caller} {eType : LoggerType} {text : Bytes}
    (hpc : c.copy.session.threads onlyThread = .msgAllowed caller eType text)
    (hrunning : c.copy.session.exited = false) (hfault : c.copy.session.fault = false)
    (hallowed : c.copy.session.isMsgAllowed eType = .exitSuccess) (acTime : Bytes) :
    childStep c acTime .ok = some (c.goto (.sizeCheck caller eType text) c.next) := by
  simp [childStep, hpc, lockedSessionStep, hrunning, hfault, LockedSession.mapSession, sessionStep,
    threadStep, ThreadPc.inserting, hallowed, Child.goto]

theorem childStep_format {caller : Caller} {eType : LoggerType} {text : Bytes}
    (hpc : c.copy.session.threads onlyThread = .sizeCheck caller eType text)
    (hrunning : c.copy.session.exited = false) (hfault : c.copy.session.fault = false)
    (hroom : c.copy.session.iDataInQueueCount ≤ c.copy.session.sCurrLogSettings.iLoggerQueueSize)
    (acTime : Bytes) :
    childStep c acTime .ok
      = some (c.goto (.insertTail caller (formatLogMsg acTime eType text)) c.next) := by
  simp [childStep, hpc, lockedSessionStep, hrunning, hfault, LockedSession.mapSession, sessionStep,
    threadStep, ThreadPc.inserting, hroom, Child.goto]

theorem Child.Blocked.no_step (h : c.Blocked) (acTime : Bytes) : childStep c acTime .ok = none := by
  obtain ⟨hpc, hholder⟩ := h
  have hheld : c.copy.pLogMutex ≠ .held (.thread onlyThread) := by
    intro hm
    rw [hm] at hholder
    cases hholder
  have hfree : c.copy.pLogMutex ≠ .free := by
    intro hm
    rw [hm] at hholder
    cases hholder
  cases hthread : c.copy.session.threads onlyThread <;> rw [hthread] at hpc
  case insertTail =>
    simp [childStep, hthread, lockedSessionStep, ThreadPc.inserting, LockedSession.critical, hheld,
      hfree]
  all_goals cases hpc

theorem step_lastChild {master : LockedSession 1} {flushed : Bool} {rest : List Child}
    {acTime : Bytes} {o : Outcome} (h : childStep c acTime o = some d) :
    forks.step ⟨master, flushed, rest ++ [c]⟩ (.child rest.length acTime o)
      = some ⟨master, flushed, rest ++ [d]⟩ := by
  simp [forks, forkStep, h]

/-- A fork that copies the mutex held, when debug messages are let through, is three steps of the
child from a lock that is never released. -/
theorem blocked_of_fork {pid : Nat} (hstep : forks.step s (.fork pid) = some t)
    (hheld : ¬ LockFreeAtFork s (.fork pid)) (acTime : Bytes) :
    ∃ u c, forks.run t (List.replicate 3 (.child s.children.length acTime .ok)) = some u ∧
      u.children[s.children.length]? = some c ∧ c.Blocked := by
  simp only [LockFreeAtFork, Session.Refuses, Classical.not_imp, not_or, not_not, not_lt] at hheld
  obtain ⟨hholder, hallowed, hroom⟩ := hheld
  cases forkStep_cases hstep with
  | fork pid hready =>
      obtain ⟨-, ⟨iRet, hpc⟩, hrunning, hfault⟩ := Forks.atFork_iff.mp hready
      let c₁ := (s.master.forked pid).goto (.msgAllowed .program .eDEBUG (forkMsg pid)) .destroy
      let c₂ := c₁.goto (.sizeCheck .program .eDEBUG (forkMsg pid)) .destroy
      let c₃ := c₂.goto (.insertTail .program (formatLogMsg acTime .eDEBUG (forkMsg pid))) .destroy
      have hcall : childStep (s.master.forked pid) acTime .ok = some c₁ :=
        childStep_announce hpc rfl hrunning hfault acTime
      have hthrough : childStep c₁ acTime .ok = some c₂ :=
        childStep_message (c := c₁) (Child.goto_thread _ _ _) hrunning hfault hallowed acTime
      have hformat : childStep c₂ acTime .ok = some c₃ :=
        childStep_format (c := c₂) (Child.goto_thread _ _ _) hrunning hfault hroom acTime
      refine ⟨⟨s.master, false, s.children ++ [c₃]⟩, c₃, ?_, List.getElem?_concat_length, ?_, hholder⟩
      · simp only [List.replicate, System.run, step_lastChild hcall, step_lastChild hthrough,
          step_lastChild hformat, Option.bind_some]
      · rw [Child.goto_thread]
        rfl

/-- No child waits for a thread it does not have, if at each fork the mutex is not held by
`logger_thread` or debug messages are turned away. A fork that does not meet this is followed by a
child that hangs in its first message. A child that gets to `logger_init` has the mutex for itself. -/
theorem child_neverBlocked (s : Forks) :
    (Reachable forks LockFreeAtFork s → ∀ c ∈ s.children, ¬ c.Blocked) ∧
      (∀ t pid, forks.step s (.fork pid) = some t → ¬ LockFreeAtFork s (.fork pid) →
        ∀ acTime, ∃ u c,
          forks.run t (List.replicate 3 (.child s.children.length acTime .ok)) = some u ∧
          u.children[s.children.length]? = some c ∧ c.Blocked ∧ ∀ now, childStep c now .ok = none) ∧
      (Reachable forks ForkKept s → ∀ c ∈ s.children, c.next = .reopen →
        (c.copy.session.threads onlyThread).isReady = true →
        c.copy.pLogMutex.holder ≠ some .writer) := by
  refine ⟨fun hs c hc => (child_evades hs c hc).not_blocked, ?_, ?_⟩
  · intro t pid hstep hheld acTime
    obtain ⟨u, c, hrun, hlast, hblocked⟩ := blocked_of_fork hstep hheld acTime
    exact ⟨u, c, hrun, hlast, hblocked, hblocked.no_step⟩
  · intro hs c hc hnext hready hholder
    obtain ⟨-, hwhere⟩ := child_beforeUnlock hs c hc hholder
    rw [if_pos hnext] at hwhere
    cases hthread : c.copy.session.threads onlyThread <;> rw [hthread] at hready hwhere
    case ready => cases hwhere
    all_goals cases hready

instance (s : Forks) : (l : ForkLabel) → Decidable (LockFreeAtFork s l)
  | .fork _ => inferInstanceAs (Decidable (s.master.pLogMutex.holder = some .writer →
      s.master.session.isMsgAllowed .eDEBUG ≠ .exitSuccess ∨
        s.master.session.sCurrLogSettings.iLoggerQueueSize < s.master.session.iDataInQueueCount))
  | .master _ | .child _ _ _ => inferInstanceAs (Decidable True)

/-- `logger_thread` is past its poll of the mutex when the master forks; the child logs its message. -/
def forkBetweenPolls : List ForkLabel :=
  addingWorker ++ masterWriter 16 ++ masterFlush 2 ++ .fork 2 :: firstChild 3

theorem child_neverBlocked_betweenPolls :
    ∃ s c, Reachable forks LockFreeAtFork s ∧ c ∈ s.children ∧
      (c.copy.session.threads onlyThread).inserting = true ∧ ¬ c.Blocked := by
  have hinit : Reachable forks LockFreeAtFork debugMaster := .init debugMaster_init
  obtain ⟨s, c, hrun, hchild, hpc⟩ : ∃ s c, forks.runKeeping LockFreeAtFork debugMaster
      forkBetweenPolls = some s ∧ s.children[0]? = some c ∧
      (c.copy.session.threads onlyThread).inserting = true := ⟨_, _, rfl, rfl, by decide⟩
  have hs := hinit.runKeeping hrun
  have hc : c ∈ s.children := List.mem_of_getElem? hchild
  exact ⟨s, c, hs, hc, hpc, (child_neverBlocked s).1 hs c hc⟩

/-- The queue is drained and `logger_flush` has returned; `logger_thread` polls the mutex once more
and the master forks. -/
def forkInPoll : List ForkLabel :=
  addingWorker ++ masterWriter 16 ++ masterFlush 2 ++ masterWriter 2 ++ .fork 2 :: firstChild 3

theorem child_blocked :
    ¬ ∀ s, Reachable forks (fun _ _ => True) s → ∀ c ∈ s.children, ¬ c.Blocked := by
  intro hnever
  have hinit : Reachable forks (fun _ _ => True) debugMaster := .init debugMaster_init
  obtain ⟨s, c, hrun, hchild, hpc, hholder⟩ : ∃ s c, forks.run debugMaster forkInPoll = some s ∧
      s.children[0]? = some c ∧ (c.copy.session.threads onlyThread).inserting = true ∧
      c.copy.pLogMutex.holder = some .writer := ⟨_, _, rfl, rfl, by decide, by decide⟩
  exact hnever s (hinit.run (fun _ _ _ => trivial) hrun) c (List.mem_of_getElem? hchild)
    ⟨hpc, hholder⟩

end CewServer.Logger
