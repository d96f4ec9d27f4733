import CewServer.Logger.Bound
import Mathlib.Algebra.GroupWithZero.Nat

/-!
# What the queue has to hold

The size check and the insertion are two steps, so the maximum of the settings is not what the queue
has to hold at most. That is one entry more for each thread: a thread passes the check only while the
count is within the maximum, and each of the others can have passed before it and be on its way to the
mutex. No run leads above it, whatever `logger_set` does within the limits, and with `p` threads there
is a run that fills it.
-/

namespace CewServer.Logger

open Transition

/-- Limits the settings keep to, the largest maximum and the largest bulk, with room for one more entry
of each thread in a 32-bit count. -/
structure Limits (p : Nat) where
  bulk : Nat
  size : Nat
  fits : size + p < 2 ^ 31 - 1

structure LogSettings.Within {p : Nat} (settings : LogSettings) (limits : Limits p) : Prop where
  nonneg : 0 ≤ settings.iBulkWrite
  bulk : settings.iBulkWrite ≤ limits.bulk
  size : settings.iLoggerQueueSize ≤ limits.size

theorem LogSettings.Within.admissible {p : Nat} {settings : LogSettings} {limits : Limits p}
    (h : settings.Within limits) : settings.Admissible p := by
  refine ⟨h.nonneg, ?_⟩
  have hsize := h.size
  have hfits := limits.fits
  omega

/-- The sessions whose settings keep to the limits. -/
def limitedSession {p : Nat} (limits : Limits p) : System (Session p) (Label p) where
  Init s := ∃ settings Loglevel bTerminateProg pid, settings.Within limits ∧
    s = loggerInit settings Loglevel bTerminateProg pid
  step := sessionStep

def LimitsKept {p : Nat} (limits : Limits p) (_ : Session p) : Label p → Prop
  | .call _ (.loggerSet sNewSettings) => sNewSettings.Within limits
  | _ => True

variable {p : Nat} {limits : Limits p} {s t : Session p} {i : Fin p}

theorem LimitsKept.settingsKept {l : Label p} (h : LimitsKept limits s l) : SettingsKept s l := by
  cases l with
  | writer | cancel | thread => trivial
  | call i op =>
      cases op with
      | logMsg | loggerFlush | loggerDestroy => trivial
      | loggerSet sNewSettings => exact LogSettings.Within.admissible h

theorem reachable_of_limited (hs : Reachable (limitedSession limits) (LimitsKept limits) s) :
    Reachable (session p) SettingsKept s := by
  induction hs with
  | init hinit =>
      obtain ⟨settings, Loglevel, bTerminateProg, pid, hwithin, rfl⟩ := hinit
      exact .init ⟨settings, Loglevel, bTerminateProg, pid, hwithin.admissible, rfl⟩
  | step _ hkept hstep ih => exact .step ih hkept.settingsKept hstep

/-! ### No run leads above it -/

structure Sized (limits : Limits p) (s : Session p) : Prop where
  settings : s.sCurrLogSettings.Within limits
  count : s.iDataInQueueCount + inserters s.threads ≤ limits.size + p

theorem WriterMove.count_le (h : Accounted s) (hmove : WriterMove s t) :
    t.iDataInQueueCount ≤ s.iDataInQueueCount := by
  cases hmove with
  | snapshotCount hpc =>
      unfold Session.snapshotCount
      split <;> exact Int.le_refl _
  | peekHead b hpc =>
      unfold Session.peekHead
      split <;> exact Int.le_refl _
  | updateCount b hpc =>
      obtain ⟨hcounted, hbatch⟩ := h.at_writer hpc (by simp [hpc])
      have hbounded := h.bounded
      have hpopped := hbatch.popped
      simp only [WriterPc.popped] at hcounted
      have hcount : int32 (s.iDataInQueueCount - b.iDataWritten)
          = s.iDataInQueueCount - b.iDataWritten := int32_of_mem_range (by omega) (by omega)
      show int32 (s.iDataInQueueCount - b.iDataWritten) ≤ s.iDataInQueueCount
      omega
  | _ => exact Int.le_refl _

namespace Sized

/-- A thread goes somewhere that is not the insertion, and leaves the settings and the count. -/
theorem goto (h : Sized limits s) {pc : ThreadPc} (hthreads : t.threads = Function.update s.threads i pc)
    (hsettings : t.sCurrLogSettings = s.sCurrLogSettings)
    (hcount : t.iDataInQueueCount = s.iDataInQueueCount) (hpc : pc.inserting = false) :
    Sized limits t := by
  have hle := inserters_update_le s.threads i hpc
  have hbefore := h.count
  refine ⟨hsettings ▸ h.settings, ?_⟩
  rw [hthreads, hcount]
  omega

theorem writer (h : Sized limits s) (hacc : Accounted s) (hmove : WriterMove s t) :
    Sized limits t := by
  have hle := hmove.count_le hacc
  have hcount := h.count
  refine ⟨?_, ?_⟩
  · rw [sCurrLogSettings_of_writerMove hmove]
    exact h.settings
  · rw [hmove.frame.threads]
    omega

theorem thread (h : Sized limits s) (hacc : Accounted s) (hmove : ThreadMove s i t) :
    Sized limits t := by
  have hcount := h.count
  cases hmove with
  | formatted caller eType text msg hpc hroom =>
      refine ⟨h.settings, ?_⟩
      have hall := inserters_le (Function.update s.threads i (.insertTail caller msg))
      have hsize := h.settings.size
      show s.iDataInQueueCount + (inserters (Function.update s.threads i _) : Nat) ≤ _
      omega
  | insert caller msg iRet hpc =>
      refine ⟨h.settings, ?_⟩
      have hinserting : (s.threads i).inserting = true := by rw [hpc]; rfl
      have hless := inserters_update_lt s.threads i (afterLog_inserting caller iRet) hinserting
      have hnonneg := hacc.nonneg
      have hbounded := hacc.bounded
      have hnext : int32 (s.iDataInQueueCount + 1) = s.iDataInQueueCount + 1 :=
        int32_of_mem_range (by omega) (by omega)
      show int32 (s.iDataInQueueCount + 1)
        + (inserters (Function.update s.threads i (caller.afterLog iRet)) : Nat) ≤ _
      omega
  | resetCount hpc =>
      refine ⟨h.settings, ?_⟩
      have hless := inserters_update_le s.threads i (show ThreadPc.finish.inserting = false from rfl)
      have hnonneg := hacc.nonneg
      show (0 : Int) + (inserters (Function.update s.threads i .finish) : Nat) ≤ _
      omega
  | refused caller | full caller | lockFailed caller =>
      exact h.goto rfl rfl rfl (afterLog_inserting caller _)
  | flushed caller => exact h.goto rfl rfl rfl (afterFlush_inserting caller)
  | _ => exact h.goto rfl rfl rfl rfl

theorem call (h : Sized limits s) {op : Call} (hkept : LimitsKept limits s (.call i op))
    (hmove : CallMove s i op t) : Sized limits t := by
  cases hmove with
  | loggerSet iRet settings hpc =>
      have hset : Sized limits { s with sCurrLogSettings := settings } := ⟨hkept, h.count⟩
      exact hset.goto rfl rfl rfl rfl
  | _ => exact h.goto rfl rfl rfl rfl

theorem step (h : Sized limits s) (hacc : Accounted s) {l : Label p} (hkept : LimitsKept limits s l)
    (hstep : (session p).step s l = some t) : Sized limits t := by
  cases sessionStep_cases hstep with
  | exit o => exact ⟨h.settings, h.count⟩
  | writer o u hmove => exact h.writer hacc hmove
  | writerExit o u hmove =>
      obtain ⟨hsettings, hcount⟩ := h.writer hacc hmove
      exact ⟨hsettings, hcount⟩
  | cancel hrequest hpc => exact ⟨h.settings, h.count⟩
  | call i op t hmove => exact h.call hkept hmove
  | thread i acTime o t hmove => exact h.thread hacc hmove

end Sized

theorem sized_of_reachable (hs : Reachable (limitedSession limits) (LimitsKept limits) s) :
    Sized limits s := by
  apply hs.invariant_over (fun s hs => accounted_of_reachable (reachable_of_limited hs))
  · rintro s ⟨settings, Loglevel, bTerminateProg, pid, hwithin, rfl⟩
    have hnone : inserters (fun _ : Fin p => ThreadPc.ready .exitSuccess) = 0 := by
      simp [inserters, ThreadPc.inserting]
    refine ⟨⟨hwithin.nonneg, hwithin.bulk, hwithin.size⟩, ?_⟩
    show (0 : Int) + (inserters (fun _ : Fin p => ThreadPc.ready .exitSuccess) : Nat) ≤ _
    rw [hnone]
    omega
  · intro s l t hacc h hkept hstep
    exact h.step hacc hkept hstep

theorem Sized.queue_length_le (h : Sized limits s) (hacc : Accounted s)
    (hopen : s.iIsInitDone = true) (hstands : s.CountStands) :
    s.queue.length ≤ limits.size + p := by
  have hcounted := hacc.counted hopen hstands
  have hcount := h.count
  omega

/-! ### A run that fills it -/

def emptyMsg : Bytes := formatLogMsg [] .eERROR []

/-- The settings at the limit, and a session with nothing but errors in its queue, in which
`logger_thread` has not moved yet. -/
def Limits.crowd (limits : Limits p) (entries : Nat) (threads : Fin p → ThreadPc) : Session p :=
  { (loggerInit ⟨1000, limits.size, 0, 0⟩ 0 false 1 : Session p) with
    queue := List.replicate entries emptyMsg
    iDataInQueueCount := entries
    inserted := List.replicate entries emptyMsg
    threads }

namespace Limits

variable {threads : Fin p → ThreadPc} {entries : Nat}

theorem crowd_step (limits : Limits p) (l : Label p) :
    (limitedSession limits).step (limits.crowd entries threads) l
      = match l with
        | .writer o => loggerThread (limits.crowd entries threads) o
        | .cancel => cancelStep (limits.crowd entries threads)
        | .call i op => callStep (limits.crowd entries threads) i op
        | .thread i acTime o => threadStep (limits.crowd entries threads) i acTime o := rfl

@[simp] theorem crowd_threads (limits : Limits p) : (limits.crowd entries threads).threads = threads := rfl

@[simp] theorem crowd_goto (limits : Limits p) (pc : ThreadPc) :
    (limits.crowd entries threads).goto i pc = limits.crowd entries (Function.update threads i pc) := rfl

/-- A thread calls `log_msg` and passes the size check. -/
def enters (i : Fin p) : List (Label p) :=
  [.call i (.logMsg .eERROR []), .thread i [] .ok, .thread i [] .ok]

theorem run_enters (limits : Limits p) {iRet : LogRet} (hpc : threads i = .ready iRet)
    (hroom : entries ≤ limits.size) :
    (limitedSession limits).run (limits.crowd entries threads) (enters i)
      = some (limits.crowd entries (Function.update threads i (.insertTail .program emptyMsg))) := by
  have hcall : callStep (limits.crowd entries threads) i (.logMsg .eERROR [])
      = some (limits.crowd entries (Function.update threads i (.msgAllowed .program .eERROR []))) := by
    rw [callStep, crowd_threads, hpc]
    rfl
  have hallowed : threadStep (limits.crowd entries
        (Function.update threads i (.msgAllowed .program .eERROR []))) i [] .ok
      = some (limits.crowd entries (Function.update threads i (.sizeCheck .program .eERROR []))) := by
    rw [threadStep, crowd_threads, Function.update_self]
    show some (Session.goto _ i _) = _
    rw [crowd_goto, Function.update_idem]
  have hchecked : threadStep (limits.crowd entries
        (Function.update threads i (.sizeCheck .program .eERROR []))) i [] .ok
      = some (limits.crowd entries (Function.update threads i (.insertTail .program emptyMsg))) := by
    have hnot : ¬ ((limits.size : Int) < (entries : Int)) := by omega
    rw [threadStep, crowd_threads, Function.update_self]
    show (if (limits.size : Int) < (entries : Int) then _ else some (Session.goto _ i _)) = _
    rw [if_neg hnot, crowd_goto, Function.update_idem]
    rfl
  simp only [enters, System.run, crowd_step, hcall, hallowed, hchecked, Option.bind_some]

/-- A thread that has passed the size check inserts its entry. -/
theorem run_inserts (limits : Limits p) (hpc : threads i = .insertTail .program emptyMsg)
    (hfits : entries < limits.size + p) :
    (limitedSession limits).run (limits.crowd entries threads) [.thread i [] .ok]
      = some (limits.crowd (entries + 1) (Function.update threads i (.ready .exitSuccess))) := by
  have hlimit := limits.fits
  have hcount : int32 ((entries : Int) + 1) = ((entries + 1 : Nat) : Int) := by
    rw [int32_of_mem_range (by omega) (by omega)]
    rfl
  have hentry : List.replicate entries emptyMsg ++ [emptyMsg]
      = List.replicate (entries + 1) emptyMsg := List.replicate_succ'.symm
  have hinserts : (limits.crowd entries threads).insert emptyMsg = limits.crowd (entries + 1) threads := by
    simp only [Session.insert, crowd, hcount, hentry]
  have hstep : threadStep (limits.crowd entries threads) i [] .ok
      = some (limits.crowd (entries + 1) (Function.update threads i (.ready .exitSuccess))) := by
    rw [threadStep, crowd_threads, hpc]
    show some (Session.goto (Session.insert _ _) i _) = _
    rw [hinserts, crowd_goto]
    rfl
  simp only [System.run, crowd_step, hstep, Option.bind_some]

/-- The state occurs in a run within the limits. -/
def Occurs (limits : Limits p) (entries : Nat) (threads : Fin p → ThreadPc) : Prop :=
  Reachable (limitedSession limits) (LimitsKept limits) (limits.crowd entries threads)

theorem occurs_start (limits : Limits p) : limits.Occurs 0 fun _ => .ready .exitSuccess :=
  .init ⟨⟨1000, limits.size, 0, 0⟩, 0, false, 1, ⟨Int.le_refl 0, Int.natCast_nonneg _, Int.le_refl _⟩, rfl⟩

theorem Occurs.enters (h : limits.Occurs entries threads) {iRet : LogRet}
    (hpc : threads i = .ready iRet) (hroom : entries ≤ limits.size) :
    limits.Occurs entries (Function.update threads i (.insertTail .program emptyMsg)) := by
  apply h.run _ (limits.run_enters hpc hroom)
  intro l hl s
  simp only [Limits.enters, List.mem_cons, List.not_mem_nil, or_false] at hl
  rcases hl with rfl | rfl | rfl <;> trivial

theorem Occurs.inserts (h : limits.Occurs entries threads)
    (hpc : threads i = .insertTail .program emptyMsg) (hfits : entries < limits.size + p) :
    limits.Occurs (entries + 1) (Function.update threads i (.ready .exitSuccess)) := by
  apply h.run _ (limits.run_inserts hpc hfits)
  intro l hl s
  rw [List.mem_singleton.mp hl]
  trivial

/-- One thread alone fills the queue up to its maximum. -/
theorem occurs_filled (limits : Limits p) (i : Fin p) {k : Nat} (hk : k ≤ limits.size) :
    limits.Occurs k fun _ => .ready .exitSuccess := by
  induction k with
  | zero => exact limits.occurs_start
  | succ k ih =>
      have hroom : k ≤ limits.size := Nat.le_of_succ_le hk
      have hnext := ((ih hroom).enters (i := i) rfl hroom).inserts (Function.update_self ..)
        (Nat.lt_add_right p hk)
      rwa [Function.update_idem, Function.update_eq_self] at hnext

/-- The first `m` threads are at one place and the others at another. -/
def parted (m : Nat) (first others : ThreadPc) (j : Fin p) : ThreadPc :=
  if j.val < m then first else others

theorem update_parted {m : Nat} (hm : m < p) (first others : ThreadPc) :
    Function.update (parted m first others) ⟨m, hm⟩ first = parted (m + 1) first others := by
  funext j
  by_cases hj : j = ⟨m, hm⟩
  · subst hj
    rw [Function.update_self, parted, if_pos (Nat.lt_succ_self m)]
  · rw [Function.update_of_ne hj]
    have hne : j.val ≠ m := fun heq => hj (Fin.ext heq)
    simp only [parted, Nat.lt_succ_iff_lt_or_eq, hne, or_false]

theorem parted_at {m : Nat} (hm : m < p) (first others : ThreadPc) :
    parted m first others (⟨m, hm⟩ : Fin p) = others := if_neg (Nat.lt_irrefl m)

theorem parted_zero (first others : ThreadPc) : (parted 0 first others : Fin p → ThreadPc) = fun _ => others :=
  funext fun j => if_neg (Nat.not_lt_zero j.val)

theorem parted_all (first others : ThreadPc) : (parted p first others : Fin p → ThreadPc) = fun _ => first :=
  funext fun j => if_pos j.isLt

/-- With the queue at its maximum every thread still passes the size check. -/
theorem Occurs.all_enter (h : limits.Occurs limits.size fun _ => .ready .exitSuccess) {m : Nat}
    (hm : m ≤ p) :
    limits.Occurs limits.size (parted m (.insertTail .program emptyMsg) (.ready .exitSuccess)) := by
  induction m with
  | zero => exact (parted_zero _ _).symm ▸ h
  | succ m ih =>
      have hnext := (ih (Nat.le_of_succ_le hm)).enters (parted_at hm _ _) (Nat.le_refl _)
      rwa [update_parted] at hnext

theorem Occurs.all_insert (h : limits.Occurs limits.size fun _ => .insertTail .program emptyMsg)
    {m : Nat} (hm : m ≤ p) :
    limits.Occurs (limits.size + m) (parted m (.ready .exitSuccess) (.insertTail .program emptyMsg)) := by
  induction m with
  | zero => exact (parted_zero _ _).symm ▸ h
  | succ m ih =>
      have hnext := (ih (Nat.le_of_succ_le hm)).inserts (parted_at hm _ _) (Nat.add_lt_add_left hm _)
      rwa [update_parted] at hnext

theorem occurs_full (limits : Limits p) (i : Fin p) :
    limits.Occurs (limits.size + p) fun _ => .ready .exitSuccess := by
  have hfilled := limits.occurs_filled i (Nat.le_refl _)
  have hentered := hfilled.all_enter (Nat.le_refl p)
  rw [parted_all] at hentered
  have hinserted := hentered.all_insert (Nat.le_refl p)
  rwa [parted_all] at hinserted

end Limits

/-- What the queue has to hold is the maximum and one entry for each thread: no run of an open session
goes above it before `logger_destroy` has freed the queue and reset its count, and if there is a thread
at all some run reaches it. -/
theorem queue_capacity (limits : Limits p) :
    (∀ s, Reachable (limitedSession limits) (LimitsKept limits) s → s.iIsInitDone = true →
      s.CountStands → s.queue.length ≤ limits.size + p) ∧
    (0 < p → ∃ s, Reachable (limitedSession limits) (LimitsKept limits) s ∧ s.iIsInitDone = true ∧
      s.queue.length = limits.size + p) := by
  refine ⟨fun s hs hopen hstands => ?_, fun hp => ?_⟩
  · exact (sized_of_reachable hs).queue_length_le
      (accounted_of_reachable (reachable_of_limited hs)) hopen hstands
  · refine ⟨_, limits.occurs_full ⟨0, hp⟩, rfl, ?_⟩
    exact List.length_replicate

/-- A process with one thread, and the settings it starts with. -/
def defaultLimits : Limits 1 := ⟨0, 50, by decide⟩

theorem queue_capacity_default :
    ∃ s, Reachable (limitedSession defaultLimits) (LimitsKept defaultLimits) s ∧
      s.iIsInitDone = true ∧ s.queue.length = 51 := (queue_capacity defaultLimits).2 (by decide)

end CewServer.Logger
