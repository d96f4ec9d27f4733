import CewServer.Logger.Destroy
import CewServer.Logger.Mutex
import Mathlib.Logic.Relation

/-!
# Every call returns

Threads that log, flush and destroy share one mutex with `logger_thread`, and `logger_destroy` waits for
that thread to end. Nobody is ever blocked for good: from every state a call can be brought to its return,
and the steps that takes are its own, the one step of whoever holds the mutex, and those of `logger_thread`.
No other call has to be begun or to go on.

An unlock that fails leaves the mutex locked for ever, and is the one thing left out.
-/

namespace CewServer.Logger

open Transition

variable {p : Nat}

def lockedSession (p : Nat) : System (LockedSession p) (Label p) where
  Init x := (session p).Init x.session ∧ x.pLogMutex = .free
  step := lockedSessionStep

def Label.unlocks : Label p → Prop
  | .writer o | .thread _ _ o => o ≠ .unlockFailed
  | .cancel | .call _ _ => True

/-- The session is used as promised, and no unlock fails. -/
def Orderly (x : LockedSession p) (l : Label p) : Prop := WellUsed x.session l ∧ l.unlocks

/-! ### Who holds the mutex -/

/-- Whoever holds the mutex is in front of the body of a section. -/
def InSection (s : Session p) : LogMutex p → Prop
  | .free => True
  | .held .writer => s.writer.locks = true
  | .held (.thread i) => (s.threads i).inserting = true
  | .stuck _ => False

variable {x y : LockedSession p} {i : Fin p}

theorem threads_of_threadMove {s t : Session p} (hmove : ThreadMove s i t) {j : Fin p} (hji : j ≠ i) :
    t.threads j = s.threads j := by
  cases hmove <;> exact Function.update_of_ne hji _ _

/-- The holder is where it was. -/
theorem InSection.congr {s t : Session p} {m : LogMutex p} (h : InSection s m)
    (hwriter : m = .held .writer → t.writer = s.writer)
    (hthreads : ∀ j, m = .held (.thread j) → t.threads j = s.threads j) : InSection t m := by
  cases m with
  | free => trivial
  | stuck party => exact h
  | held party =>
      cases party with
      | writer =>
          show t.writer.locks = true
          rw [hwriter rfl]
          exact h
      | thread j =>
          show (t.threads j).inserting = true
          rw [hthreads j rfl]
          exact h

theorem InSection.of_threadMove {s t : Session p} {m : LogMutex p} (h : InSection s m)
    (hmove : ThreadMove s i t) (hnot : m ≠ .held (.thread i)) : InSection t m := by
  refine h.congr (fun _ => writer_of_threadMove hmove) fun j hj => ?_
  apply threads_of_threadMove hmove
  rintro rfl
  exact hnot hj

theorem inSection_of_thread {acTime : Bytes} {o : Outcome} (h : InSection x.session x.pLogMutex)
    (ho : o ≠ .unlockFailed) (hstep : lockedSessionStep x (.thread i acTime o) = some y) :
    InSection y.session y.pLogMutex := by
  unfold lockedSessionStep at hstep
  split at hstep
  · cases hstep
  dsimp only at hstep
  split at hstep
  · rename_i hpc
    cases LockedSession.critical_cases hstep with
    | lock hfree => exact hpc
    | leave t hheld hbody => trivial
    | stay t hheld hfailed hbody => exact absurd hfailed ho
    | without t hnot hbody => exact h.of_threadMove (threadMove_of_step hbody) hnot
  · rename_i hpc
    split at hstep
    · obtain ⟨t, hbody, rfl⟩ := Option.map_eq_some_iff.mp hstep
      trivial
    · obtain ⟨t, hbody, rfl⟩ := mapSession_eq_some hstep
      refine h.of_threadMove (threadMove_of_step hbody) fun hheld => hpc ?_
      rw [hheld] at h
      exact h

theorem inSection_of_writer {o : Outcome} (h : InSection x.session x.pLogMutex)
    (ho : o ≠ .unlockFailed) (hstep : lockedSessionStep x (.writer o) = some y) :
    InSection y.session y.pLogMutex := by
  -- `logger_thread` moves no other thread
  have hother : ∀ {t : Session p}, sessionStep x.session (.writer o) = some t →
      x.pLogMutex ≠ .held .writer → InSection t x.pLogMutex := by
    intro t hbody hnot
    have hthreads : t.threads = x.session.threads := by
      have hstep : (session p).step x.session (.writer o) = some t := hbody
      cases sessionStep_cases hstep with
      | exit => rfl
      | writer u t hmove => exact hmove.frame.threads
      | writerExit u t hmove => exact hmove.frame.threads
    exact h.congr (fun hheld => absurd hheld hnot) fun j _ => by rw [hthreads]
  unfold lockedSessionStep at hstep
  split at hstep
  · cases hstep
  dsimp only at hstep
  split at hstep
  · rename_i hlocks
    cases LockedSession.critical_cases hstep with
    | lock hfree => exact hlocks
    | leave t hheld hbody => trivial
    | stay t hheld hfailed hbody => exact absurd hfailed ho
    | without t hnot hbody => exact hother hbody hnot
  · rename_i hlocks
    obtain ⟨t, hbody, rfl⟩ := mapSession_eq_some hstep
    refine hother hbody fun hheld => hlocks ?_
    rw [hheld] at h
    exact h

theorem inSection_of_step {l : Label p} (h : InSection x.session x.pLogMutex) (hl : l.unlocks)
    (hstep : lockedSessionStep x l = some y) : InSection y.session y.pLogMutex := by
  cases l with
  | writer o => exact inSection_of_writer h hl hstep
  | thread i acTime o => exact inSection_of_thread h hl hstep
  | call i op =>
      obtain ⟨t, hmove, rfl⟩ := lockedSessionStep_call hstep
      -- a thread that begins a call was in no section
      have hready : ∀ j, x.pLogMutex = .held (.thread j) → j ≠ i := by
        rintro j hheld rfl
        rw [hheld] at h
        change (x.session.threads j).inserting = true at h
        cases hmove with
        | logMsg _ _ _ hpc | loggerFlush _ hpc | loggerSet _ _ hpc | loggerDestroy _ hpc =>
            rw [hpc] at h
            cases h
      apply h.congr
      · cases hmove <;> exact fun _ => rfl
      · intro j hj
        cases hmove <;> exact Function.update_of_ne (hready j hj) _ _
  | cancel =>
      unfold lockedSessionStep at hstep
      split at hstep
      · cases hstep
      obtain ⟨t, hbody, rfl⟩ := mapSession_eq_some hstep
      have hcancel : (session p).step x.session .cancel = some t := hbody
      cases sessionStep_cases hcancel with
      | cancel hrequest hpc =>
          refine h.congr (fun hheld => ?_) fun _ _ => rfl
          rw [hheld] at h
          change x.session.writer.locks = true at h
          rw [hpc] at h
          cases h

/-- What is known of a session in every state: as without its mutex, and who holds that. -/
structure Sound (x : LockedSession p) : Prop where
  reachable : Reachable (session p) WellUsed x.session
  inSection : InSection x.session x.pLogMutex

theorem Sound.step (h : Sound x) {l : Label p} (hl : Orderly x l) (hstep : lockedSessionStep x l = some y) :
    Sound y := by
  refine ⟨?_, inSection_of_step h.inSection hl.2 hstep⟩
  rcases lockedSessionStep_session hstep with hsame | hsession
  · rw [hsame]
    exact h.reachable
  · exact .step h.reachable hl.1 hsession

theorem sound_of_reachable (hx : Reachable (lockedSession p) Orderly x) : Sound x := by
  refine hx.invariant ?_ fun _ _ _ h hl hstep => h.step hl hstep
  rintro x ⟨hinit, hfree⟩
  refine ⟨.init hinit, ?_⟩
  rw [hfree]
  trivial

/-! ### Steps that help a call -/

/-- The steps taken to bring a call of thread `i` to its return. -/
inductive Helps (i : Fin p) (x : LockedSession p) : Label p → Prop
  | own (acTime : Bytes) : Helps i x (.thread i acTime .ok)
  | holder (j : Fin p) (acTime : Bytes) (hheld : x.pLogMutex = .held (.thread j)) :
      Helps i x (.thread j acTime .ok)
  | writer : Helps i x (.writer .ok)
  | cancel : Helps i x .cancel

def Helping (i : Fin p) (x y : LockedSession p) : Prop :=
  ∃ l, Helps i x l ∧ lockedSessionStep x l = some y

structure Running (x : LockedSession p) : Prop extends Sound x where
  notExited : x.session.exited = false

theorem exited_of_loggerThread {s t : Session p} (h : loggerThread s .ok = some t) :
    t.exited = s.exited := by
  unfold loggerThread at h
  cases hpc : s.writer with
  | cancelled =>
      rw [hpc] at h
      cases h
  | tryLock =>
      rw [hpc] at h
      obtain rfl := Option.some.inj h
      rw [Session.snapshotCount]
      split <;> rfl
  | bodyTop b =>
      rw [hpc] at h
      obtain rfl := Option.some.inj h
      rw [Session.peekHead]
      split <;> rfl
  | _ =>
      rw [hpc] at h
      obtain rfl := Option.some.inj h
      rfl

theorem threads_of_loggerThread {s t : Session p} {o : Outcome} (h : loggerThread s o = some t) :
    t.threads = s.threads := by
  rcases loggerThread_cases h with rfl | ⟨u, hmove, rfl | rfl⟩
  · rfl
  · exact hmove.frame.threads
  · exact hmove.frame.threads

theorem Helps.orderly {l : Label p} (h : Helps i x l) : Orderly x l := by
  cases h with
  | own | holder | writer => exact ⟨⟨trivial, trivial⟩, Outcome.noConfusion⟩
  | cancel => exact ⟨⟨trivial, trivial⟩, trivial⟩

theorem Running.helping (h : Running x) (hstep : Helping i x y) : Running y := by
  obtain ⟨l, hl, hy⟩ := hstep
  refine ⟨h.toSound.step hl.orderly hy, ?_⟩
  have hthread : ∀ j acTime, lockedSessionStep x (.thread j acTime .ok) = some y →
      y.session.exited = x.session.exited := by
    intro j acTime hy
    rcases lockedSessionStep_session hy with hsame | hsession
    · rw [hsame]
    · exact exited_of_threadMove (threadMove_of_step hsession)
  rw [← h.notExited]
  cases hl with
  | own acTime => exact hthread i acTime hy
  | holder j acTime hheld => exact hthread j acTime hy
  | writer =>
      rcases lockedSessionStep_session hy with hsame | hsession
      · rw [hsame]
      · exact exited_of_loggerThread (loggerThread_of_step hsession)
  | cancel =>
      rcases lockedSessionStep_session hy with hsame | hsession
      · rw [hsame]
      · generalize y.session = t at hsession
        cases sessionStep_cases hsession with
        | cancel => rfl

/-- With steps that help thread `i`, a state that is wanted is reached. -/
def Leads (i : Fin p) (x : LockedSession p) (Wanted : LockedSession p → Prop) : Prop :=
  ∃ y, Relation.ReflTransGen (Helping i) x y ∧ Running y ∧ Wanted y

namespace Leads

variable {Wanted Then : LockedSession p → Prop}

theorem here (h : Running x) (hx : Wanted x) : Leads i x Wanted := ⟨x, .refl, h, hx⟩

theorem step (h : Running x) (hstep : Helping i x y) (hrest : Running y → Leads i y Wanted) :
    Leads i x Wanted := by
  obtain ⟨z, hz, hrunning, hwanted⟩ := hrest (h.helping hstep)
  exact ⟨z, .head hstep hz, hrunning, hwanted⟩

theorem andThen (h : Leads i x Wanted) (hrest : ∀ y, Running y → Wanted y → Leads i y Then) :
    Leads i x Then := by
  obtain ⟨y, hy, hrunning, hwanted⟩ := h
  obtain ⟨z, hz, hrunning', hthen⟩ := hrest y hrunning hwanted
  exact ⟨z, hy.trans hz, hrunning', hthen⟩

end Leads

namespace Running

variable {Wanted : LockedSession p → Prop}

theorem accounted (h : Running x) : Accounted x.session :=
  accounted_of_reachable (h.reachable.mono fun _ _ hl => hl.1)

theorem alive (h : Running x) : (x.session.exited || x.session.fault) = false := by
  rw [h.notExited, h.accounted.noFault]
  rfl

theorem sessionStep_thread (h : Running x) (j : Fin p) (acTime : Bytes) :
    sessionStep x.session (.thread j acTime .ok) = threadStep x.session j acTime .ok := by
  unfold sessionStep
  rw [h.alive]
  rfl

theorem sessionStep_writer (h : Running x) :
    sessionStep x.session (.writer .ok) = loggerThread x.session .ok := by
  unfold sessionStep
  rw [h.alive]
  rfl

/-- A step of the thread itself, away from the mutex. -/
theorem own (h : Running x) (acTime : Bytes) {t : Session p}
    (hpc : (x.session.threads i).inserting = false) (hclose : x.session.threads i ≠ .closeStream)
    (ht : threadStep x.session i acTime .ok = some t)
    (hrest : Running { x with session := t } → Leads i { x with session := t } Wanted) :
    Leads i x Wanted := by
  apply Leads.step h ⟨_, .own acTime, ?_⟩ hrest
  simp only [lockedSessionStep, h.alive, hpc, hclose, Bool.false_eq_true, if_false, h.sessionStep_thread, ht,
    LockedSession.mapSession, Option.map_some]

/-- Whoever holds the mutex can leave its section. -/
theorem holderLeaves (h : Running x) {j : Fin p} (hheld : x.pLogMutex = .held (.thread j)) :
    ∃ t, threadStep x.session j [] .ok = some t ∧ Helping i x ⟨t, .free⟩ := by
  have hpc : (x.session.threads j).inserting = true := by
    have hsection := h.inSection
    rw [hheld] at hsection
    exact hsection
  obtain ⟨t, ht⟩ : ∃ t, threadStep x.session j [] .ok = some t := by
    unfold threadStep
    cases hthread : x.session.threads j with
    | insertTail caller msg => exact ⟨_, rfl⟩
    | _ =>
        rw [hthread] at hpc
        cases hpc
  refine ⟨t, ht, _, .holder j [] hheld, ?_⟩
  simp only [lockedSessionStep, h.alive, hpc, Bool.false_eq_true, if_false, if_true, LockedSession.critical,
    hheld, h.sessionStep_thread, ht, Option.map_some]

theorem writerLeaves (h : Running x) (hheld : x.pLogMutex = .held .writer) {t : Session p}
    (ht : loggerThread x.session .ok = some t) : Helping i x ⟨t, .free⟩ := by
  have hpc : x.session.writer.locks = true := by
    have hsection := h.inSection
    rw [hheld] at hsection
    exact hsection
  refine ⟨_, .writer, ?_⟩
  simp only [lockedSessionStep, h.alive, hpc, Bool.false_eq_true, if_false, if_true, LockedSession.critical,
    hheld, h.sessionStep_writer, ht, Option.map_some]

/-! ### A message is logged -/

variable {caller : Caller} {msg : Bytes}

def HasLogged (i : Fin p) (caller : Caller) (x : LockedSession p) : Prop :=
  ∃ iRet, x.session.threads i = caller.afterLog iRet

theorem insertHeld (h : Running x) (hpc : x.session.threads i = .insertTail caller msg)
    (hheld : x.pLogMutex = .held (.thread i)) : Leads i x (HasLogged i caller) := by
  obtain ⟨t, ht, hstep⟩ := h.holderLeaves (i := i) hheld
  refine .step h hstep fun hrunning => .here hrunning ⟨.exitSuccess, ?_⟩
  rw [threadStep, hpc] at ht
  rw [← Option.some.inj ht]
  exact Function.update_self ..

theorem insertFree (h : Running x) (hpc : x.session.threads i = .insertTail caller msg)
    (hfree : x.pLogMutex = .free) : Leads i x (HasLogged i caller) := by
  have hlock : Helping i x { x with pLogMutex := .held (.thread i) } := by
    refine ⟨_, .own [], ?_⟩
    have hinserting : (x.session.threads i).inserting = true := by rw [hpc]; rfl
    simp only [lockedSessionStep, h.alive, hinserting, Bool.false_eq_true, if_false, if_true,
      LockedSession.critical, hfree, reduceCtorEq]
  exact .step h hlock fun hrunning => hrunning.insertHeld hpc rfl

theorem insert (h : Running x) (hpc : x.session.threads i = .insertTail caller msg) :
    Leads i x (HasLogged i caller) := by
  have hsection := h.inSection
  cases hm : x.pLogMutex with
  | free => exact h.insertFree hpc hm
  | stuck party =>
      rw [hm] at hsection
      exact hsection.elim
  | held party =>
      cases party with
      | writer =>
          rw [hm] at hsection
          obtain ⟨t, ht⟩ : ∃ t, loggerThread x.session .ok = some t := by
            change x.session.writer.locks = true at hsection
            unfold loggerThread
            cases hwriter : x.session.writer with
            | tryLock | removeHead | updateCount => exact ⟨_, rfl⟩
            | _ =>
                rw [hwriter] at hsection
                cases hsection
          have hstill : t.threads i = .insertTail caller msg :=
            (congrFun (threads_of_loggerThread ht) i).trans hpc
          exact .step h (h.writerLeaves hm ht) fun hrunning => hrunning.insertFree hstill rfl
      | thread j =>
          by_cases hji : j = i
          · subst hji
            exact h.insertHeld hpc hm
          · obtain ⟨t, ht, hstep⟩ := h.holderLeaves (i := i) hm
            have hstill : t.threads i = .insertTail caller msg :=
              (threads_of_threadMove (threadStep_cases ht) (Ne.symm hji)).trans hpc
            exact .step h hstep fun hrunning => hrunning.insertFree hstill rfl

theorem sizeCheck (h : Running x) {eType : LoggerType} {text : Bytes}
    (hpc : x.session.threads i = .sizeCheck caller eType text) : Leads i x (HasLogged i caller) := by
  have hnot : (x.session.threads i).inserting = false := by rw [hpc]; rfl
  have hclose : x.session.threads i ≠ .closeStream := by rw [hpc]; exact ThreadPc.noConfusion
  by_cases hfull : x.session.sCurrLogSettings.iLoggerQueueSize < x.session.iDataInQueueCount
  · apply h.own [] hnot hclose (t := x.session.goto i (caller.afterLog .exitFailure))
    · rw [threadStep, hpc]
      exact if_pos hfull
    · exact fun hrunning => .here hrunning ⟨.exitFailure, Function.update_self ..⟩
  · apply h.own [] hnot hclose (t := x.session.goto i (.insertTail caller (formatLogMsg [] eType text)))
    · rw [threadStep, hpc]
      exact if_neg hfull
    · exact fun hrunning => hrunning.insert (Function.update_self ..)

theorem log (h : Running x) {eType : LoggerType} {text : Bytes}
    (hpc : x.session.threads i = .msgAllowed caller eType text) : Leads i x (HasLogged i caller) := by
  have hnot : (x.session.threads i).inserting = false := by rw [hpc]; rfl
  have hclose : x.session.threads i ≠ .closeStream := by rw [hpc]; exact ThreadPc.noConfusion
  by_cases hallowed : x.session.isMsgAllowed eType = .exitSuccess
  · apply h.own [] hnot hclose (t := x.session.goto i (.sizeCheck caller eType text))
    · rw [threadStep, hpc]
      exact if_pos hallowed
    · exact fun hrunning => hrunning.sizeCheck (Function.update_self ..)
  · apply h.own [] hnot hclose (t := x.session.goto i (caller.afterLog .exitFailure))
    · rw [threadStep, hpc]
      exact if_neg hallowed
    · exact fun hrunning => .here hrunning ⟨.exitFailure, Function.update_self ..⟩

/-! ### The queue is flushed -/

def HasFlushed (i : Fin p) (caller : Caller) (x : LockedSession p) : Prop :=
  x.session.threads i = caller.afterFlush

/-- The polls of `logger_flush` come to an end by themselves. -/
theorem poll (h : Running x) {MaxLoops polls : Nat}
    (hpc : x.session.threads i = .flushPoll caller MaxLoops polls) : Leads i x (HasFlushed i caller) := by
  induction MaxLoops generalizing x polls with
  | zero =>
      apply h.own [] (by rw [hpc]; rfl) (by rw [hpc]; exact ThreadPc.noConfusion)
        (t := x.session.goto i caller.afterFlush)
      · rw [threadStep, hpc]
        exact if_pos rfl
      · exact fun hrunning => .here hrunning (Function.update_self ..)
  | succ MaxLoops ih =>
      have hnot : (x.session.threads i).inserting = false := by rw [hpc]; rfl
      have hclose : x.session.threads i ≠ .closeStream := by rw [hpc]; exact ThreadPc.noConfusion
      by_cases hempty : x.session.iDataInQueueCount = 0
      · apply h.own [] hnot hclose (t := x.session.goto i caller.afterFlush)
        · rw [threadStep, hpc]
          dsimp only
          rw [if_neg (Nat.succ_ne_zero _), if_pos hempty]
        · exact fun hrunning => .here hrunning (Function.update_self ..)
      · apply h.own [] hnot hclose (t := x.session.goto i (.flushPoll caller MaxLoops (polls + 1)))
        · rw [threadStep, hpc]
          dsimp only
          rw [if_neg (Nat.succ_ne_zero _), if_neg hempty]
          rfl
        · exact fun hrunning => ih hrunning (Function.update_self ..)

theorem flush (h : Running x) (hpc : x.session.threads i = .flushSet caller) :
    Leads i x (HasFlushed i caller) := by
  apply h.own [] (by rw [hpc]; rfl) (by rw [hpc]; exact ThreadPc.noConfusion)
    (t := { x.session with iDoForceFlush := true }.goto i (.flushPoll caller maxLoops 0))
  · rw [threadStep, hpc]
  · exact fun hrunning => hrunning.poll (Function.update_self ..)

end Running

/-! ### `logger_destroy` -/

/-- Who waits for `logger_thread` has asked it to end. -/
def Requested (s : Session p) : Prop := ∀ i, s.threads i = .joinThread → s.cancelRequested = true

theorem Requested.of_threadMove {s t : Session p} (h : Requested s) (hmove : ThreadMove s i t) :
    Requested t := by
  have hkept : s.cancelRequested = true → t.cancelRequested = true := by
    cases hmove with
    | cancelThread => exact fun _ => rfl
    | _ => exact id
  have hown : t.threads i = .joinThread → t.cancelRequested = true := by
    have hself : ∀ (u : Session p) (pc : ThreadPc), (u.goto i pc).threads i = pc :=
      fun u pc => Function.update_self ..
    intro hpc
    cases hmove with
    | cancelThread => rfl
    | refused caller | full caller | lockFailed caller | insert caller =>
        rw [hself] at hpc
        cases caller <;> cases hpc
    | flushed caller =>
        rw [hself] at hpc
        cases caller <;> cases hpc
    | _ =>
        rw [hself] at hpc
        cases hpc
  intro j hj
  by_cases hji : j = i
  · subst hji
    exact hown hj
  · rw [threads_of_threadMove hmove hji] at hj
    exact hkept (h j hj)

theorem cancelRequested_of_writerMove {s t : Session p} (hmove : WriterMove s t) :
    t.cancelRequested = s.cancelRequested := by
  cases hmove with
  | snapshotCount =>
      rw [Session.snapshotCount]
      split <;> rfl
  | peekHead =>
      rw [Session.peekHead]
      split <;> rfl
  | _ => rfl

theorem requested_of_reachable {s : Session p} (hs : Reachable (session p) WellUsed s) : Requested s := by
  refine hs.invariant ?_ fun s l t h hl hstep => ?_
  · rintro s ⟨settings, Loglevel, bTerminateProg, pid, -, rfl⟩ i hi
    cases hi
  · have hwriter : ∀ {u : Session p}, WriterMove s u → Requested u := by
      intro u hmove j hj
      rw [cancelRequested_of_writerMove hmove]
      rw [hmove.frame.threads] at hj
      exact h j hj
    cases sessionStep_cases hstep with
    | exit => exact h
    | writer o u hmove => exact hwriter hmove
    | writerExit o u hmove =>
        have hu : Requested u := hwriter hmove
        exact hu
    | cancel => exact h
    | thread i acTime o t hmove => exact h.of_threadMove hmove
    | call i op t hmove =>
        intro j hj
        have hne : j ≠ i := by
          rintro rfl
          cases hmove <;> simp [Session.goto] at hj
        cases hmove with
        | logMsg | loggerFlush | loggerSet | loggerDestroy =>
            rw [Session.goto_threads, Function.update_of_ne hne] at hj
            exact h j hj

namespace Running

/-- While the logger is being destroyed only `logger_thread` can hold the mutex. -/
theorem mutex_of_closing (h : Running x) (hi : (x.session.threads i).closing = true) :
    x.pLogMutex = .free ∨ x.pLogMutex = .held .writer := by
  have hsection := h.inSection
  have hquieted := quieted_of_reachable h.reachable
  cases hm : x.pLogMutex with
  | free => exact .inl rfl
  | stuck party =>
      rw [hm] at hsection
      exact hsection.elim
  | held party =>
      cases party with
      | writer => exact .inr rfl
      | thread j =>
          rw [hm] at hsection
          have hnot := hquieted.shut (hquieted.closing i hi) j
          change (x.session.threads j).inserting = true at hsection
          cases hj : x.session.threads j with
          | insertTail =>
              rw [hj] at hnot
              cases hnot
          | _ =>
              rw [hj] at hsection
              cases hsection

/-- A step of `logger_thread`, with the mutex taken first where it needs it. -/
theorem writerStep (h : Running x) (hi : (x.session.threads i).closing = true) {t : Session p}
    (ht : loggerThread x.session .ok = some t) : Leads i x fun y => y.session = t := by
  cases hlocks : x.session.writer.locks with
  | false =>
      refine .step h ⟨_, .writer, ?_⟩ fun hrunning => .here hrunning (x := { x with session := t }) rfl
      simp only [lockedSessionStep, h.alive, hlocks, Bool.false_eq_true, if_false, h.sessionStep_writer, ht,
        LockedSession.mapSession, Option.map_some]
  | true =>
      rcases h.mutex_of_closing hi with hfree | hheld
      · have hlock : Helping i x { x with pLogMutex := .held .writer } := by
          refine ⟨_, .writer, ?_⟩
          simp only [lockedSessionStep, h.alive, hlocks, Bool.false_eq_true, if_false, if_true,
            LockedSession.critical, hfree, reduceCtorEq]
        exact .step h hlock fun hrunning =>
          .step hrunning (hrunning.writerLeaves rfl ht) fun hrunning => .here hrunning rfl
      · exact .step h (h.writerLeaves hheld ht) fun hrunning => .here hrunning rfl

/-- The steps `logger_thread` has before it is back in its cancellation block. -/
def stepsLeft (s : Session p) : Nat :=
  match s.writer with
  | .poll | .cancelled => 0
  | .updateCount _ => 1
  | .closeFile _ => 2
  | .flushFile _ => 3
  | .writeEntry b _ => 3 * b.iDataToWrite.toNat + 1
  | .removeHead b _ => 3 * b.iDataToWrite.toNat + 2
  | .bodyTop b => 3 * b.iDataToWrite.toNat + 3
  | .openFile b => 3 * b.iDataToWrite.toNat + 4
  | .tryLock => 3 * s.iDataInQueueCount.toNat + 5

/-- The number of entries left to write goes down by one. -/
theorem int32_pred {s : Session p} (h : Accounted s) {b : Batch} {msg : Bytes}
    (hpc : s.writer = .writeEntry b msg) :
    1 ≤ b.iDataToWrite ∧ int32 (b.iDataToWrite - 1) = b.iDataToWrite - 1 := by
  have hbatch := h.batch
  rw [hpc] at hbatch
  obtain ⟨hpositive, hqueued, -⟩ := hbatch
  have hcounted := h.count (by rw [hpc]; exact WriterPc.noConfusion)
  have hbounded := h.bounded
  refine ⟨hpositive, int32_of_mem_range ?_ ?_⟩
  · omega
  · omega

theorem loggerThread_nearer {s : Session p} (h : Accounted s) (hpoll : s.writer ≠ .poll)
    (hcancelled : s.writer ≠ .cancelled) :
    ∃ t, loggerThread s .ok = some t ∧ t.writer ≠ .cancelled ∧ stepsLeft t < stepsLeft s := by
  unfold loggerThread
  cases hpc : s.writer with
  | poll => exact absurd hpc hpoll
  | cancelled => exact absurd hpc hcancelled
  | tryLock =>
      refine ⟨s.snapshotCount, rfl, ?_⟩
      rw [Session.snapshotCount]
      split
      · simp [stepsLeft, hpc]
      · simp [stepsLeft, hpc]
  | bodyTop b =>
      have hbatch := h.batch
      rw [hpc] at hbatch
      have hpositive := hbatch.positive
      have hqueued := hbatch.queued
      refine ⟨s.peekHead b, rfl, ?_⟩
      cases hqueue : s.queue with
      | nil =>
          rw [hqueue, List.length_nil] at hqueued
          omega
      | cons msg rest => simp [Session.peekHead, hqueue, stepsLeft, hpc]
  | writeEntry b msg =>
      obtain ⟨hpositive, hpred⟩ := int32_pred h hpc
      refine ⟨s.writeEntry b msg, rfl, ?_⟩
      simp only [Session.writeEntry, hpred]
      split
      · simp only [stepsLeft, hpc]
        exact ⟨WriterPc.noConfusion, by omega⟩
      · simp only [stepsLeft, hpc]
        exact ⟨WriterPc.noConfusion, by omega⟩
  | openFile b | removeHead b msg | flushFile b | closeFile b | updateCount b =>
      exact ⟨_, rfl, WriterPc.noConfusion, by simp [stepsLeft, hpc, Session.removeHead, Session.flushFile,
        Session.closeFile, Session.updateCount]⟩

/-- `logger_thread` goes on to its cancellation block, and ends there. -/
theorem cancel (h : Running x) (hpc : x.session.threads i = .joinThread) :
    Leads i x fun y => y.session.threads i = .joinThread ∧ y.session.writer = .cancelled := by
  have hi : (x.session.threads i).closing = true := by rw [hpc]; rfl
  induction hleft : stepsLeft x.session using Nat.strongRecOn generalizing x with
  | ind left ih =>
      by_cases hcancelled : x.session.writer = .cancelled
      · exact .here h ⟨hpc, hcancelled⟩
      by_cases hpoll : x.session.writer = .poll
      · have hrequested := requested_of_reachable h.reachable i hpc
        refine .step h ⟨_, .cancel, ?_⟩ fun hrunning => .here hrunning
          (x := { x with session := { x.session with writer := .cancelled } }) ⟨hpc, rfl⟩
        simp only [lockedSessionStep, h.alive, Bool.false_eq_true, if_false, sessionStep, cancelStep,
          hrequested, hpoll, and_self, if_true, LockedSession.mapSession, Option.map_some]
      · obtain ⟨t, ht, -, hnearer⟩ := loggerThread_nearer h.accounted hpoll hcancelled
        refine (h.writerStep hi ht).andThen fun y hrunning hy => ?_
        have hstill : y.session.threads i = .joinThread := by
          rw [hy, threads_of_loggerThread ht]
          exact hpc
        refine ih (stepsLeft y.session) ?_ hrunning hstill (by rw [hstill]; rfl) rfl
        rw [hy, ← hleft]
        exact hnearer

def HasReturned (i : Fin p) (x : LockedSession p) : Prop := ∃ iRet, x.session.threads i = .ready iRet

theorem finish (h : Running x) (hpc : x.session.threads i = .finish) : Leads i x (HasReturned i) := by
  apply h.own [] (by rw [hpc]; rfl) (by rw [hpc]; exact ThreadPc.noConfusion)
    (t := { x.session with iIsInitDone := false }.goto i (.ready .exitSuccess))
  · rw [threadStep, hpc]
  · exact fun hrunning => .here hrunning ⟨.exitSuccess, Function.update_self ..⟩

theorem resetCount (h : Running x) (hpc : x.session.threads i = .resetCount) :
    Leads i x (HasReturned i) := by
  apply h.own [] (by rw [hpc]; rfl) (by rw [hpc]; exact ThreadPc.noConfusion)
    (t := { x.session with iDataInQueueCount := 0 }.goto i .finish)
  · rw [threadStep, hpc]
  · exact fun hrunning => hrunning.finish (Function.update_self ..)

/-- The entries left in the queue are freed one by one. -/
theorem freeQueue (h : Running x) {freed : Nat} (hpc : x.session.threads i = .freeQueue freed) :
    Leads i x (HasReturned i) := by
  induction hleft : x.session.queue.length - freed generalizing x freed with
  | zero =>
      apply h.own [] (by rw [hpc]; rfl) (by rw [hpc]; exact ThreadPc.noConfusion)
        (t := x.session.goto i .resetCount)
      · rw [threadStep, hpc]
        dsimp only
        rw [List.getElem?_eq_none (by omega)]
      · exact fun hrunning => hrunning.resetCount (Function.update_self ..)
  | succ left ih =>
      have hlt : freed < x.session.queue.length := by omega
      apply h.own [] (by rw [hpc]; rfl) (by rw [hpc]; exact ThreadPc.noConfusion)
        (t := { x.session with
          discarded := x.session.discarded ++ [x.session.queue[freed]] }.goto i (.freeQueue (freed + 1)))
      · rw [threadStep, hpc]
        dsimp only
        rw [List.getElem?_eq_getElem hlt]
      · intro hrunning
        refine ih hrunning (Function.update_self ..) ?_
        show x.session.queue.length - (freed + 1) = left
        omega

theorem closeStream (h : Running x) (hpc : x.session.threads i = .closeStream) :
    Leads i x (HasReturned i) := by
  refine .step h ⟨_, .own [], ?_⟩ fun hrunning => hrunning.freeQueue
    (x := ⟨(x.session.closeFile x.session.writer).goto i (.freeQueue 0), .free⟩) (Function.update_self ..)
  have hnot : (x.session.threads i).inserting = false := by rw [hpc]; rfl
  have ht : threadStep x.session i [] .ok
      = some ((x.session.closeFile x.session.writer).goto i (.freeQueue 0)) := by
    rw [threadStep, hpc]
  simp only [lockedSessionStep, h.alive, hnot, Bool.false_eq_true, if_false, if_pos hpc,
    h.sessionStep_thread, ht, Option.map_some]

theorem join (h : Running x) (hpc : x.session.threads i = .joinThread) : Leads i x (HasReturned i) := by
  refine (h.cancel hpc).andThen fun y hrunning hy => ?_
  apply hrunning.own [] (by rw [hy.1]; rfl) (by rw [hy.1]; exact ThreadPc.noConfusion)
    (t := y.session.goto i .closeStream)
  · rw [threadStep, hy.1]
    exact if_pos hy.2
  · exact fun hrunning => hrunning.closeStream (Function.update_self ..)

theorem cancelThread (h : Running x) (hpc : x.session.threads i = .cancelThread) :
    Leads i x (HasReturned i) := by
  apply h.own [] (by rw [hpc]; rfl) (by rw [hpc]; exact ThreadPc.noConfusion)
    (t := { x.session with cancelRequested := true }.goto i .joinThread)
  · rw [threadStep, hpc]
  · exact fun hrunning => hrunning.join (Function.update_self ..)

/-- What comes after the flush: the program, or the end of the thread. -/
theorem afterFlush (h : Running x) {caller : Caller} (hx : HasFlushed i caller x) :
    Leads i x (HasReturned i) := by
  cases caller with
  | program => exact .here h ⟨.exitSuccess, hx⟩
  | destroy => exact h.cancelThread hx

theorem shutDown (h : Running x) (hpc : x.session.threads i = .shutDown) :
    Leads i x (HasReturned i) := by
  apply h.own [] (by rw [hpc]; rfl) (by rw [hpc]; exact ThreadPc.noConfusion)
    (t := { x.session with iShuttingDown := true }.goto i (.flushSet .destroy))
  · rw [threadStep, hpc]
  · intro hrunning
    refine (hrunning.flush (Function.update_self ..)).andThen ?_
    exact fun _ hrunning hy => hrunning.afterFlush hy

theorem afterLog (h : Running x) {caller : Caller} (hx : HasLogged i caller x) :
    Leads i x (HasReturned i) := by
  obtain ⟨iRet, hpc⟩ := hx
  cases caller with
  | program => exact .here h ⟨iRet, hpc⟩
  | destroy => exact h.shutDown hpc

/-- `logger_destroy`, whether there is something to destroy or not. -/
theorem destroyEntry (h : Running x) (hpc : x.session.threads i = .destroyEntry) :
    Leads i x (HasReturned i) := by
  have hnot : (x.session.threads i).inserting = false := by rw [hpc]; rfl
  have hclose : x.session.threads i ≠ .closeStream := by rw [hpc]; exact ThreadPc.noConfusion
  cases hopen : x.session.iIsInitDone with
  | true =>
      apply h.own [] hnot hclose
        (t := x.session.goto i (.msgAllowed .destroy .eDEBUG (destroyingMsg x.session.pid)))
      · rw [threadStep, hpc]
        exact if_pos hopen
      · intro hrunning
        refine (hrunning.log (Function.update_self ..)).andThen ?_
        exact fun _ hrunning hy => hrunning.afterLog hy
  | false =>
      apply h.own [] hnot hclose (t := x.session.goto i (.ready .noInit))
      · rw [threadStep, hpc]
        exact if_neg (by simp [hopen])
      · exact fun hrunning => .here hrunning ⟨.noInit, Function.update_self ..⟩

theorem returns (h : Running x) (i : Fin p) : Leads i x (HasReturned i) := by
  cases hpc : x.session.threads i with
  | ready iRet => exact .here h ⟨iRet, hpc⟩
  | msgAllowed caller eType text =>
      exact (h.log hpc).andThen fun _ hrunning hy => hrunning.afterLog hy
  | sizeCheck caller eType text =>
      exact (h.sizeCheck hpc).andThen fun _ hrunning hy => hrunning.afterLog hy
  | insertTail caller msg => exact (h.insert hpc).andThen fun _ hrunning hy => hrunning.afterLog hy
  | flushSet caller => exact (h.flush hpc).andThen fun _ hrunning hy => hrunning.afterFlush hy
  | flushPoll caller MaxLoops polls =>
      exact (h.poll hpc).andThen fun _ hrunning hy => hrunning.afterFlush hy
  | destroyEntry => exact h.destroyEntry hpc
  | shutDown => exact h.shutDown hpc
  | cancelThread => exact h.cancelThread hpc
  | joinThread => exact h.join hpc
  | closeStream => exact h.closeStream hpc
  | freeQueue freed => exact h.freeQueue hpc
  | resetCount => exact h.resetCount hpc
  | finish => exact h.finish hpc

end Running

/-- No call is ever blocked for good. From every state of every run, the call of each thread can be
brought to its return by steps of that thread, of the one that holds the mutex and of `logger_thread`. -/
theorem calls_return (hx : Reachable (lockedSession p) Orderly x) (hrunning : x.session.exited = false)
    (i : Fin p) :
    ∃ y, Relation.ReflTransGen (Helping i) x y ∧ y.session.exited = false ∧
      ∃ iRet, y.session.threads i = .ready iRet := by
  have hrun : Running x := ⟨sound_of_reachable hx, hrunning⟩
  obtain ⟨y, hleads, hy, hreturned⟩ := hrun.returns i
  exact ⟨y, hleads, hy.notExited, hreturned⟩

/-- A thread has a message to insert, and `logger_thread` has taken the mutex to look at the count. -/
def mutexTaken : List (Label 1) :=
  .call onlyThread (.logMsg .eERROR (Bytes.ascii "first")) :: threadMoves 2 ++ writerMoves 2

theorem calls_return_mutexTaken :
    ∃ x : LockedSession 1, Reachable (lockedSession 1) Orderly x ∧ x.pLogMutex = .held .writer ∧
      lockedSessionStep x (.thread onlyThread [] .ok) = none ∧
      ∃ y, Relation.ReflTransGen (Helping onlyThread) x y ∧
        ∃ iRet, y.session.threads onlyThread = .ready iRet := by
  have hinit : Reachable (lockedSession 1) Orderly
      ⟨loggerInit LogSettings.default LoggerType.eERROR.value false 1, .free⟩ :=
    .init ⟨⟨LogSettings.default, _, _, _, ⟨by decide, by decide⟩, rfl⟩, rfl⟩
  obtain ⟨x, hrun, hheld, hblocked, hrunning⟩ : ∃ x, (lockedSession 1).run
      ⟨loggerInit LogSettings.default LoggerType.eERROR.value false 1, .free⟩ mutexTaken = some x ∧
      x.pLogMutex = .held .writer ∧ lockedSessionStep x (.thread onlyThread [] .ok) = none ∧
      x.session.exited = false :=
    ⟨_, rfl, rfl, rfl, rfl⟩
  have hpromise : ∀ l ∈ mutexTaken, ∀ x, Orderly x l := by
    have halone : ∀ j : Fin 1, j = 0 := fun j => Subsingleton.elim j 0
    simp [mutexTaken, threadMoves, writerMoves, Orderly, WellUsed, SettingsKept, QuietDestroy, halone,
      Label.unlocks]
  have hx := hinit.run hpromise hrun
  obtain ⟨y, hleads, -, hreturned⟩ := calls_return hx hrunning onlyThread
  exact ⟨x, hx, hheld, hblocked, y, hleads, hreturned⟩

end CewServer.Logger
