import CewServer.Logger.Accounting

/-!
# How long the queue gets

`iLoggerQueueSize` is the maximum number of entries. `log_add_to_queue` looks at the count before it
takes the mutex and inserts after, and it turns a message away only when the count is above the
maximum. So a thread passes with the queue full, and while it formats its message others pass too.

What bounds the queue is the sum of its entries and of the threads that have passed the check and not
yet inserted: only passing the check raises it. As long as no thread passes when the sum has reached
the maximum the queue keeps to it, and once one has, the insertions alone lead above it.
-/

namespace CewServer.Logger

open Transition

variable {p : Nat} {s t : Session p} {i : Fin p}

/-- At the size check. -/
def ThreadPc.checking : ThreadPc → Bool
  | .sizeCheck _ _ _ => true
  | _ => false

/-- The sessions of a process with `p` threads and any settings with a maximum of at least one. -/
def sizedSession (p : Nat) : System (Session p) (Label p) where
  Init s := ∃ settings Loglevel bTerminateProg pid, 1 ≤ settings.iLoggerQueueSize ∧
    s = loggerInit settings Loglevel bTerminateProg pid
  step := sessionStep

/-- `logger_set` leaves the maximum as it is. -/
def SizeKept (s : Session p) : Label p → Prop
  | .call _ (.loggerSet sNewSettings) =>
      sNewSettings.iLoggerQueueSize = s.sCurrLogSettings.iLoggerQueueSize
  | _ => True

/-- The entries of the queue and the threads that have passed the size check and not yet inserted. -/
def Session.claimed (s : Session p) : Nat := s.queue.length + inserters s.threads

/-- A thread that passes the size check has room, also for those that passed before it. -/
def RoomLeft (s : Session p) : Label p → Prop
  | .thread i _ _ => (s.threads i).checking = true →
      s.iDataInQueueCount ≤ s.sCurrLogSettings.iLoggerQueueSize →
      (s.claimed : Int) < s.sCurrLogSettings.iLoggerQueueSize
  | _ => True

instance (s : Session p) (l : Label p) : Decidable (SizeKept s l) :=
  match l with
  | .call _ (.loggerSet _) => inferInstanceAs (Decidable (_ = _))
  | .call _ (.logMsg _ _) | .call _ .loggerFlush | .call _ .loggerDestroy | .writer _ | .cancel
  | .thread _ _ _ => inferInstanceAs (Decidable True)

instance (s : Session p) (l : Label p) : Decidable (RoomLeft s l) :=
  match l with
  | .thread _ _ _ => inferInstanceAs (Decidable (_ → _ → _))
  | .call _ _ | .writer _ | .cancel => inferInstanceAs (Decidable True)

/-! ### What raises the sum -/

theorem inserters_le_update (threads : Fin p → ThreadPc) (i : Fin p) (pc : ThreadPc) :
    inserters threads ≤ inserters (Function.update threads i pc) + 1 := by
  have hsub : (Finset.univ.filter fun j => (threads j).inserting = true) ⊆
      insert i (Finset.univ.filter fun j => (Function.update threads i pc j).inserting = true) := by
    intro j hj
    simp only [Finset.mem_filter, Finset.mem_univ, true_and, Finset.mem_insert] at hj ⊢
    by_cases hji : j = i
    · exact .inl hji
    · exact .inr (by simpa [hji] using hj)
  exact (Finset.card_le_card hsub).trans (Finset.card_insert_le _ _)

theorem inserters_update_le_succ (threads : Fin p → ThreadPc) (i : Fin p) (pc : ThreadPc) :
    inserters (Function.update threads i pc) ≤ inserters threads + 1 := by
  have hback := inserters_le_update (Function.update threads i pc) i (threads i)
  rwa [Function.update_idem, Function.update_eq_self] at hback

/-- `logger_thread` only takes entries away. -/
theorem WriterMove.queue_length_le (hmove : WriterMove s t) : t.queue.length ≤ s.queue.length := by
  cases hmove with
  | snapshotCount hpc =>
      unfold Session.snapshotCount
      split <;> exact Nat.le_refl _
  | peekHead b hpc =>
      unfold Session.peekHead
      split <;> exact Nat.le_refl _
  | removeHead b msg hpc =>
      show s.queue.tail.length ≤ s.queue.length
      rw [List.length_tail]
      exact Nat.sub_le _ _
  | _ => exact Nat.le_refl _

theorem claimed_goto_le (s : Session p) (i : Fin p) {pc : ThreadPc} (hpc : pc.inserting = false) :
    (s.goto i pc).claimed ≤ s.claimed :=
  Nat.add_le_add_left (inserters_update_le s.threads i hpc) _

/-- A thread raises the sum by passing the size check, and by nothing else. -/
theorem ThreadMove.claimed_le (hmove : ThreadMove s i t) :
    t.claimed ≤ s.claimed ∨
      (s.threads i).checking = true ∧ s.iDataInQueueCount ≤ s.sCurrLogSettings.iLoggerQueueSize ∧
        t.claimed ≤ s.claimed + 1 := by
  cases hmove with
  | formatted caller eType text msg hpc hroom =>
      refine .inr ⟨by rw [hpc]; rfl, hroom, ?_⟩
      exact Nat.add_le_add_left (inserters_update_le_succ s.threads i _) _
  | insert caller msg iRet hpc =>
      left
      have hinsert : (s.threads i).inserting = true := by rw [hpc]; rfl
      have hless := inserters_update_lt s.threads i (afterLog_inserting caller iRet) hinsert
      show (s.queue ++ [msg]).length + inserters (Function.update s.threads i (caller.afterLog iRet))
        ≤ s.queue.length + inserters s.threads
      rw [List.length_append, List.length_singleton]
      omega
  | refused caller | full caller | lockFailed caller =>
      exact .inl (claimed_goto_le _ i (afterLog_inserting caller _))
  | flushed caller => exact .inl (claimed_goto_le _ i (afterFlush_inserting caller))
  | _ => exact .inl (claimed_goto_le _ i rfl)

/-- The sum is within the maximum, which stays what it was. -/
def WithinSize (s : Session p) : Prop := (s.claimed : Int) ≤ s.sCurrLogSettings.iLoggerQueueSize

theorem sCurrLogSettings_of_writerMove (hmove : WriterMove s t) :
    t.sCurrLogSettings = s.sCurrLogSettings := by
  cases hmove with
  | snapshotCount hpc =>
      unfold Session.snapshotCount
      split <;> rfl
  | peekHead b hpc =>
      unfold Session.peekHead
      split <;> rfl
  | _ => rfl

theorem sCurrLogSettings_of_threadMove (hmove : ThreadMove s i t) :
    t.sCurrLogSettings = s.sCurrLogSettings := by
  cases hmove <;> rfl

theorem WithinSize.writer (h : WithinSize s) (hmove : WriterMove s t) : WithinSize t := by
  have hqueue := hmove.queue_length_le
  have hthreads := hmove.frame.threads
  rw [WithinSize, Session.claimed] at h ⊢
  rw [sCurrLogSettings_of_writerMove hmove, hthreads]
  omega

theorem WithinSize.thread (h : WithinSize s) {acTime : Bytes} {o : Outcome}
    (hroom : RoomLeft s (.thread i acTime o)) (hmove : ThreadMove s i t) : WithinSize t := by
  rw [WithinSize, sCurrLogSettings_of_threadMove hmove]
  rw [WithinSize] at h
  rcases hmove.claimed_le with hle | ⟨hcheck, hpassed, hle⟩
  · omega
  · have hbelow := hroom hcheck hpassed
    omega

theorem WithinSize.call (h : WithinSize s) {op : Call} (hkept : SizeKept s (.call i op))
    (hmove : CallMove s i op t) : WithinSize t := by
  rw [WithinSize] at h
  cases hmove with
  | loggerSet iRet settings hpc =>
      have hle : (s.goto i (.ready .exitSuccess)).claimed ≤ s.claimed := claimed_goto_le s i rfl
      have hsize : settings.iLoggerQueueSize = s.sCurrLogSettings.iLoggerQueueSize := hkept
      show ((s.goto i (.ready .exitSuccess)).claimed : Int) ≤ settings.iLoggerQueueSize
      omega
  | _ =>
      refine Int.le_trans (Int.ofNat_le.mpr ?_) h
      exact claimed_goto_le s i rfl

theorem withinSize_of_step {l : Label p} (h : WithinSize s) (hkept : SizeKept s l) (hroom : RoomLeft s l)
    (hstep : (session p).step s l = some t) : WithinSize t := by
  cases sessionStep_cases hstep with
  | exit o => exact h
  | writer o u hmove => exact h.writer hmove
  | writerExit o u hmove =>
      have hu := h.writer hmove
      exact hu
  | cancel hrequest hpc => exact h
  | call i op t hmove => exact h.call hkept hmove
  | thread i acTime o t hmove => exact h.thread hroom hmove

theorem withinSize_of_reachable
    (hs : Reachable (sizedSession p) (fun s l => SizeKept s l ∧ RoomLeft s l) s) : WithinSize s := by
  apply hs.invariant
  · rintro s ⟨settings, Loglevel, bTerminateProg, pid, hsize, rfl⟩
    have hnone : inserters (fun _ : Fin p => ThreadPc.ready .exitSuccess) = 0 := by
      simp [inserters, ThreadPc.inserting]
    show ((0 + inserters (fun _ : Fin p => ThreadPc.ready .exitSuccess) : Nat) : Int)
      ≤ settings.iLoggerQueueSize
    rw [hnone]
    omega
  · intro s l t h hpromise hstep
    exact withinSize_of_step h hpromise.1 hpromise.2 hstep

/-! ### Where the sum leads -/

theorem exists_inserting {threads : Fin p → ThreadPc} (hpos : 0 < inserters threads) :
    ∃ i caller msg, threads i = .insertTail caller msg := by
  obtain ⟨i, hi⟩ := Finset.card_pos.mp hpos
  have hinserting : (threads i).inserting = true := by simpa using hi
  cases hpc : threads i with
  | insertTail caller msg => exact ⟨i, caller, msg, hpc⟩
  | _ =>
      rw [hpc] at hinserting
      cases hinserting

/-- Nobody can keep a thread from its insertion, which leaves the sum as it was. -/
theorem exists_insertion (hpos : 0 < inserters s.threads) (hrunning : s.exited = false)
    (hfault : s.fault = false) :
    ∃ l u, (sizedSession p).step s l = some u ∧ u.sCurrLogSettings = s.sCurrLogSettings ∧
      u.claimed = s.claimed ∧ inserters u.threads < inserters s.threads ∧ u.exited = false ∧
      u.fault = false := by
  obtain ⟨i, caller, msg, hpc⟩ := exists_inserting hpos
  have hinserting : (s.threads i).inserting = true := by rw [hpc]; rfl
  have hless := inserters_update_lt s.threads i (afterLog_inserting caller .exitSuccess) hinserting
  have hmost := inserters_le_update s.threads i (caller.afterLog .exitSuccess)
  refine ⟨.thread i [] .ok, (s.insert msg).goto i (caller.afterLog .exitSuccess), ?_, rfl, ?_, hless,
    hrunning, hfault⟩
  · have hthread := step_thread hrunning hfault i [] .ok
    rw [threadStep, hpc] at hthread
    exact hthread
  · show (s.queue ++ [msg]).length + inserters (Function.update s.threads i (caller.afterLog .exitSuccess))
      = s.queue.length + inserters s.threads
    rw [List.length_append, List.length_singleton]
    omega

/-- The threads about to insert can all do so before anyone else moves. -/
theorem exists_run_insertions (n : Nat) (hn : inserters s.threads ≤ n) (hrunning : s.exited = false)
    (hfault : s.fault = false) :
    ∃ ls u, (sizedSession p).run s ls = some u ∧ u.sCurrLogSettings = s.sCurrLogSettings ∧
      s.claimed ≤ u.queue.length := by
  induction n generalizing s with
  | zero => exact ⟨[], s, rfl, rfl, Nat.add_le_add_left hn _⟩
  | succ n ih =>
      by_cases hpos : 0 < inserters s.threads
      · obtain ⟨l, u, hstep, hsettings, hclaimed, hless, hrunning, hfault⟩ :=
          exists_insertion hpos hrunning hfault
        obtain ⟨ls, v, hrun, hsame, hlength⟩ := ih (by omega) hrunning hfault
        refine ⟨l :: ls, v, ?_, hsame.trans hsettings, hclaimed ▸ hlength⟩
        rw [System.run, hstep, Option.bind_some, hrun]
      · exact ih (by omega) hrunning hfault

/-- A thread that passes without room raises the sum above the maximum. -/
theorem claimed_of_not_roomLeft {l : Label p} (hroom : ¬ RoomLeft s l)
    (hstep : (session p).step s l = some t) :
    t.sCurrLogSettings = s.sCurrLogSettings ∧ t.exited = false ∧ t.fault = false ∧
      s.sCurrLogSettings.iLoggerQueueSize < t.claimed := by
  obtain ⟨hrunning, hfault⟩ := running_of_step hstep
  cases l with
  | writer | cancel | call => exact absurd trivial hroom
  | thread i acTime o =>
      simp only [RoomLeft, Classical.not_imp, Int.not_lt] at hroom
      obtain ⟨hcheck, hpassed, hfull⟩ := hroom
      cases hpc : s.threads i with
      | sizeCheck caller eType text =>
          have hthread := threadStep_of_step hstep
          rw [threadStep, hpc] at hthread
          simp only [Int.not_lt.mpr hpassed, if_false, Option.some.injEq] at hthread
          subst hthread
          refine ⟨rfl, hrunning, hfault, ?_⟩
          have hbefore : (s.threads i).inserting = false := by rw [hpc]; rfl
          have hback := inserters_update_lt (Function.update s.threads i
            (.insertTail caller (formatLogMsg acTime eType text))) i hbefore
            (by rw [Function.update_self]; rfl)
          rw [Function.update_idem, Function.update_eq_self] at hback
          show _ < ((s.queue.length + inserters (Function.update s.threads i _) : Nat) : Int)
          rw [Session.claimed] at hfull
          omega
      | _ =>
          rw [hpc] at hcheck
          cases hcheck

/-- The queue keeps to its maximum in every run in which a thread passes the size check only with
room for itself and for those before it. From the first step without room, insertions alone lead
above the maximum. -/
theorem queue_within_size (p : Nat) :
    (∀ s : Session p, Reachable (sizedSession p) (fun s l => SizeKept s l ∧ RoomLeft s l) s →
      (s.queue.length : Int) ≤ s.sCurrLogSettings.iLoggerQueueSize) ∧
    ∀ (s t : Session p) (l : Label p), (sizedSession p).step s l = some t → ¬ RoomLeft s l →
      ∃ ls u, (sizedSession p).run t ls = some u ∧
        u.sCurrLogSettings.iLoggerQueueSize < u.queue.length := by
  refine ⟨fun s hs => ?_, fun s t l hstep hroom => ?_⟩
  · have hwithin := withinSize_of_reachable hs
    rw [WithinSize, Session.claimed] at hwithin
    omega
  · obtain ⟨hsettings, hrunning, hfault, habove⟩ := claimed_of_not_roomLeft hroom hstep
    obtain ⟨ls, u, hrun, hsame, hlength⟩ :=
      exists_run_insertions (inserters t.threads) (Nat.le_refl _) hrunning hfault
    refine ⟨ls, u, hrun, ?_⟩
    rw [hsame, hsettings]
    omega

def oneEntry : LogSettings := { LogSettings.default with iLoggerQueueSize := 1 }

def oneEntrySession : Session 1 := loggerInit oneEntry LoggerType.eERROR.value false 1

theorem oneEntrySession_init : (sizedSession 1).Init oneEntrySession :=
  ⟨oneEntry, _, _, _, by decide, rfl⟩

theorem queue_within_size_oneEntry :
    ∃ s : Session 1, s.queue.length = 1 ∧ (s.queue.length : Int) ≤ s.sCurrLogSettings.iLoggerQueueSize := by
  have hinit : Reachable (sizedSession 1) (fun s l => SizeKept s l ∧ RoomLeft s l) oneEntrySession :=
    .init oneEntrySession_init
  obtain ⟨s, hrun, hlength⟩ : ∃ s : Session 1, (sizedSession 1).runKeeping
      (fun s l => SizeKept s l ∧ RoomLeft s l) oneEntrySession (logsError (Bytes.ascii "boot"))
        = some s ∧ s.queue.length = 1 := ⟨_, rfl, by decide⟩
  exact ⟨s, hlength, (queue_within_size 1).1 s (hinit.runKeeping hrun)⟩

/-- A queue of one entry takes a second. -/
theorem queue_above_size :
    ¬ ∀ (p : Nat) (s : Session p), Reachable (sizedSession p) SizeKept s →
      (s.queue.length : Int) ≤ s.sCurrLogSettings.iLoggerQueueSize := by
  intro hbound
  obtain ⟨s, hrun, hlength, hsize⟩ : ∃ s : Session 1, (sizedSession 1).runKeeping SizeKept
      oneEntrySession (logsError (Bytes.ascii "boot") ++ logsError (Bytes.ascii "boot")) = some s ∧
      s.queue.length = 2 ∧ s.sCurrLogSettings.iLoggerQueueSize = 1 := ⟨_, rfl, by decide, by decide⟩
  have hs := (Reachable.init oneEntrySession_init).runKeeping hrun
  have hle := hbound 1 s hs
  omega

end CewServer.Logger
