import CewServer.Logger.Fifo

/-!
# The logger with its mutex

A `Session` takes each critical section in one step. Where it matters who holds `pLogMutex` in the
middle of a section, as it does to a process that is copied there, the section is two steps: the lock,
and the body with the unlock. Every step is then a step of the session or a lock that leaves the
session as it is, so what was proved of sessions holds here as well.
-/

namespace CewServer.Logger

inductive Party (p : Nat) where
  | writer
  | thread (i : Fin p)
  deriving DecidableEq

/-- `pLogMutex`. A party whose unlock failed holds it for ever without being in a section. -/
inductive LogMutex (p : Nat) where
  | free
  | held (party : Party p)
  | stuck (party : Party p)
  deriving DecidableEq

def LogMutex.holder {p : Nat} : LogMutex p → Option (Party p)
  | .free => none
  | .held party | .stuck party => some party

structure LockedSession (p : Nat) where
  session : Session p
  pLogMutex : LogMutex p

variable {p : Nat}

/-- The next call of `logger_thread` locks the mutex, or it has just locked it. -/
def WriterPc.locks : WriterPc → Bool
  | .tryLock | .removeHead _ _ | .updateCount _ => true
  | _ => false

namespace LockedSession

def mapSession (x : LockedSession p) (t : Option (Session p)) : Option (LockedSession p) :=
  t.map fun t => { x with session := t }

/-- A critical section of `party`, whose body as a step of the session is `body`. A lock that is not
to be had blocks, and `pthread_mutex_trylock` says `busy`. -/
def critical (x : LockedSession p) (party : Party p) (body : Outcome → Option (Session p))
    (o : Outcome) : Option (LockedSession p) :=
  if x.pLogMutex = .held party then
    match o with
    | .ok => (body .ok).map fun t => ⟨t, .free⟩
    | .unlockFailed => (body .unlockFailed).map fun t => ⟨t, .stuck party⟩
    | .busy | .failed => none
  else
    match o with
    | .ok => if x.pLogMutex = .free then some { x with pLogMutex := .held party } else none
    | .busy => if x.pLogMutex = .free then none else x.mapSession (body .busy)
    | .failed => x.mapSession (body .failed)
    | .unlockFailed => none

end LockedSession

def lockedSessionStep (x : LockedSession p) (l : Label p) : Option (LockedSession p) :=
  if x.session.exited || x.session.fault then none
  else match l with
    | .writer o =>
        if x.session.writer.locks then
          x.critical .writer (fun o => sessionStep x.session (.writer o)) o
        else x.mapSession (sessionStep x.session l)
    | .thread i acTime o =>
        if (x.session.threads i).inserting then
          x.critical (.thread i) (fun o => sessionStep x.session (.thread i acTime o)) o
        else if x.session.threads i = .closeStream then
          -- the unlock of `logger_destroy`, whoever holds the mutex
          (sessionStep x.session l).map fun t => ⟨t, .free⟩
        else x.mapSession (sessionStep x.session l)
    | .cancel | .call _ _ => x.mapSession (sessionStep x.session l)

/-! ### What a step can do -/

namespace LockedSession

variable {x y : LockedSession p}

/-- What `party` does in or in front of a critical section. -/
inductive CriticalMove (x : LockedSession p) (party : Party p)
    (body : Outcome → Option (Session p)) (o : Outcome) : LockedSession p → Prop
  | lock (hfree : x.pLogMutex = .free) :
      CriticalMove x party body o { x with pLogMutex := .held party }
  | leave (t : Session p) (hheld : x.pLogMutex = .held party) (hbody : body o = some t) :
      CriticalMove x party body o ⟨t, .free⟩
  | stay (t : Session p) (hheld : x.pLogMutex = .held party) (ho : o = .unlockFailed)
      (hbody : body o = some t) : CriticalMove x party body o ⟨t, .stuck party⟩
  | without (t : Session p) (hnot : x.pLogMutex ≠ .held party) (hbody : body o = some t) :
      CriticalMove x party body o { x with session := t }

theorem critical_cases {party : Party p} {body : Outcome → Option (Session p)} {o : Outcome}
    (h : x.critical party body o = some y) : CriticalMove x party body o y := by
  unfold critical mapSession at h
  split at h
  · rename_i hheld
    cases o with
    | ok =>
        obtain ⟨t, hbody, rfl⟩ := Option.map_eq_some_iff.mp h
        exact .leave t hheld hbody
    | unlockFailed =>
        obtain ⟨t, hbody, rfl⟩ := Option.map_eq_some_iff.mp h
        exact .stay t hheld rfl hbody
    | busy => cases h
    | failed => cases h
  · rename_i hnot
    cases o with
    | ok =>
        simp only at h
        split at h
        · obtain rfl := Option.some.inj h
          exact .lock ‹_›
        · cases h
    | busy =>
        simp only at h
        split at h
        · cases h
        · obtain ⟨t, hbody, rfl⟩ := Option.map_eq_some_iff.mp h
          exact .without t hnot hbody
    | failed =>
        obtain ⟨t, hbody, rfl⟩ := Option.map_eq_some_iff.mp h
        exact .without t hnot hbody
    | unlockFailed => cases h

end LockedSession

variable {x y : LockedSession p} {i : Fin p}

theorem mapSession_eq_some {t : Option (Session p)} (h : x.mapSession t = some y) :
    ∃ u, t = some u ∧ y = { x with session := u } := by
  obtain ⟨u, hu, rfl⟩ := Option.map_eq_some_iff.mp h
  exact ⟨u, hu, rfl⟩

/-- A step of the locked session is a lock, or the step of the session. -/
theorem lockedSessionStep_session {l : Label p} (h : lockedSessionStep x l = some y) :
    y.session = x.session ∨ (session p).step x.session l = some y.session := by
  have hcritical : ∀ {party : Party p} {body : Outcome → Option (Session p)} {o : Outcome},
      x.critical party body o = some y → y.session = x.session ∨ body o = some y.session := by
    intro party body o hy
    cases LockedSession.critical_cases hy with
    | lock hfree => exact .inl rfl
    | leave t hheld hbody => exact .inr hbody
    | stay t hheld ho hbody => exact .inr hbody
    | without t hnot hbody => exact .inr hbody
  have hmap : ∀ {t : Option (Session p)}, x.mapSession t = some y → t = some y.session := by
    intro t ht
    obtain ⟨u, rfl, rfl⟩ := mapSession_eq_some ht
    rfl
  unfold lockedSessionStep at h
  split at h
  · cases h
  cases l with
  | writer o =>
      simp only at h
      split at h
      · exact hcritical h
      · exact .inr (hmap h)
  | cancel => exact .inr (hmap h)
  | call i op => exact .inr (hmap h)
  | thread i acTime o =>
      simp only at h
      split at h
      · exact hcritical h
      · split at h
        · obtain ⟨t, hbody, rfl⟩ := Option.map_eq_some_iff.mp h
          exact .inr hbody
        · exact .inr (hmap h)

/-- What a step of a thread inside the logger does to the session and to the mutex. -/
inductive LockedMove (x : LockedSession p) (i : Fin p) : LockedSession p → Prop
  | lock (hpc : (x.session.threads i).inserting = true) (hfree : x.pLogMutex = .free) :
      LockedMove x i { x with pLogMutex := .held (.thread i) }
  | leave (m : LogMutex p) (t : Session p) (hpc : (x.session.threads i).inserting = true)
      (hheld : x.pLogMutex = .held (.thread i)) (hm : m = .free ∨ m = .stuck (.thread i))
      (hmove : ThreadMove x.session i t) : LockedMove x i ⟨t, m⟩
  | unlock (t : Session p) (hpc : x.session.threads i = .closeStream)
      (hmove : ThreadMove x.session i t) : LockedMove x i ⟨t, .free⟩
  | apart (t : Session p) (hpc : x.session.threads i ≠ .closeStream)
      (hmove : ThreadMove x.session i t) : LockedMove x i { x with session := t }

theorem threadMove_of_step {s t : Session p} {acTime : Bytes} {o : Outcome}
    (h : (session p).step s (.thread i acTime o) = some t) : ThreadMove s i t :=
  threadStep_cases (threadStep_of_step h)

theorem lockedSessionStep_thread {acTime : Bytes} {o : Outcome}
    (h : lockedSessionStep x (.thread i acTime o) = some y) : LockedMove x i y := by
  unfold lockedSessionStep at h
  split at h
  · cases h
  simp only at h
  split at h
  · rename_i hpc
    cases LockedSession.critical_cases h with
    | lock hfree => exact .lock hpc hfree
    | leave t hheld hbody => exact .leave _ t hpc hheld (.inl rfl) (threadMove_of_step hbody)
    | stay t hheld ho hbody => exact .leave _ t hpc hheld (.inr rfl) (threadMove_of_step hbody)
    | without t hnot hbody =>
        refine .apart t ?_ (threadMove_of_step hbody)
        intro hclose
        rw [hclose] at hpc
        cases hpc
  · split at h
    · rename_i hpc
      obtain ⟨t, hbody, rfl⟩ := Option.map_eq_some_iff.mp h
      exact .unlock t hpc (threadMove_of_step hbody)
    · rename_i hpc
      obtain ⟨t, hbody, rfl⟩ := mapSession_eq_some h
      exact .apart t hpc (threadMove_of_step hbody)

theorem lockedSessionStep_call {op : Call} (h : lockedSessionStep x (.call i op) = some y) :
    ∃ t, CallMove x.session i op t ∧ y = { x with session := t } := by
  unfold lockedSessionStep at h
  split at h
  · cases h
  obtain ⟨t, hbody, rfl⟩ := mapSession_eq_some h
  have hstep : (session p).step x.session (.call i op) = some t := hbody
  cases sessionStep_cases hstep with
  | call i op t hmove => exact ⟨t, hmove, rfl⟩

/-! ### Where the holder is -/

/-- `logger_thread` holds the mutex only inside its sections, and is stuck with it only when the
process exits. -/
structure HolderOk (x : LockedSession p) : Prop where
  held : x.pLogMutex = .held .writer → x.session.writer.locks = true
  stuck : x.pLogMutex = .stuck .writer → x.session.exited = true

theorem HolderOk.of_other (h : x.pLogMutex.holder ≠ some .writer) : HolderOk x := by
  constructor <;> intro hm <;> rw [hm] at h <;> exact absurd rfl h

/-- A section of `logger_thread` whose unlock fails ends the process. -/
theorem exited_of_unlockFailed {s t : Session p} (hlocks : s.writer.locks = true)
    (hstep : sessionStep s (.writer .unlockFailed) = some t) : t.exited = true := by
  have hwriter := loggerThread_of_step hstep
  cases hpc : s.writer
  case tryLock | removeHead | updateCount =>
    simp only [loggerThread, hpc, lockedStep, reduceCtorEq, if_false, Option.some.injEq] at hwriter
    subst hwriter
    rfl
  all_goals
    rw [hpc] at hlocks
    cases hlocks

theorem HolderOk.of_writer {o : Outcome} (h : HolderOk x) (hrunning : x.session.exited = false)
    (hstep : lockedSessionStep x (.writer o) = some y) : HolderOk y := by
  have hstuck : x.pLogMutex ≠ .stuck .writer := by
    intro hm
    rw [h.stuck hm] at hrunning
    cases hrunning
  unfold lockedSessionStep at hstep
  split at hstep
  · cases hstep
  simp only at hstep
  split at hstep
  · rename_i hlocks
    cases LockedSession.critical_cases hstep with
    | lock hfree => exact ⟨fun _ => hlocks, fun hm => by cases hm⟩
    | leave t hheld hbody => exact .of_other (by simp [LogMutex.holder])
    | stay t hheld ho hbody =>
        refine ⟨fun hm => (by cases hm), fun _ => ?_⟩
        subst ho
        exact exited_of_unlockFailed hlocks hbody
    | without t hnot hbody =>
        exact ⟨fun hm => absurd hm hnot, fun hm => absurd hm hstuck⟩
  · rename_i hlocks
    obtain ⟨t, hbody, rfl⟩ := mapSession_eq_some hstep
    exact ⟨fun hm => absurd (h.held hm) hlocks, fun hm => absurd hm hstuck⟩

theorem writer_of_threadMove {s t : Session p} (hmove : ThreadMove s i t) : t.writer = s.writer := by
  cases hmove <;> rfl

theorem exited_of_threadMove {s t : Session p} (hmove : ThreadMove s i t) : t.exited = s.exited := by
  cases hmove <;> rfl

theorem HolderOk.of_thread (h : HolderOk x) (hmove : LockedMove x i y) : HolderOk y := by
  cases hmove with
  | lock hpc hfree => exact .of_other (by simp [LogMutex.holder])
  | leave m t hpc hheld hm hmove =>
      refine .of_other ?_
      rcases hm with rfl | rfl <;> simp [LogMutex.holder]
  | unlock t hpc hmove => exact .of_other (by simp [LogMutex.holder])
  | apart t hpc hmove =>
      refine ⟨fun hm => ?_, fun hm => ?_⟩
      · rw [writer_of_threadMove hmove]
        exact h.held hm
      · rw [exited_of_threadMove hmove]
        exact h.stuck hm

theorem HolderOk.of_step {l : Label p} (h : HolderOk x)
    (hstep : lockedSessionStep x l = some y) : HolderOk y := by
  cases l with
  | writer o =>
      refine h.of_writer ?_ hstep
      by_contra hexited
      simp [lockedSessionStep, hexited] at hstep
  | thread i acTime o => exact h.of_thread (lockedSessionStep_thread hstep)
  | call i op =>
      obtain ⟨t, hmove, rfl⟩ := lockedSessionStep_call hstep
      cases hmove <;> exact ⟨h.held, h.stuck⟩
  | cancel =>
      unfold lockedSessionStep at hstep
      split at hstep
      · cases hstep
      obtain ⟨t, hbody, rfl⟩ := mapSession_eq_some hstep
      have hcancel : (session p).step x.session .cancel = some t := hbody
      cases sessionStep_cases hcancel with
      | cancel hrequest hpc =>
          refine ⟨fun hm => ?_, h.stuck⟩
          have hlocks := h.held hm
          rw [hpc] at hlocks
          cases hlocks

end CewServer.Logger
