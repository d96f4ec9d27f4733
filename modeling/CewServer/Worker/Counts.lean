import CewServer.Worker.Table

/-!
# How many workers can be asked for

`worker_init` takes any number of workers. Its table has places for 64 and its loop does not look at
that, and without a worker there is a table all the same, which `worker_route_client` divides by the
length of. So a number is safe if it is at least one, and at most 64 unless something fails in one of
the first 64 rounds, which keeps the loop from running out of the table.
-/

namespace CewServer.Worker

open Transition

/-- A master with a table, and `NextWorker` as any earlier table has left it. -/
def routing (gWorkerAdmin : WorkerAdmin) : System Handover Move where
  Init s := s.gWorkerAdmin = gWorkerAdmin ∧ s.crashed = false
  step := Handover.step

/-- `worker_init` stays inside its table, and if it succeeds, so does every `worker_route_client`, with
a number of workers to divide by and a worker behind the index. -/
def CountSafe (calls : Nat → InitCalls) (iWantedWorkers : Int) : Prop :=
  (workerInit calls iWantedWorkers).1 ≠ .outOfBounds ∧
    ∀ m, workerInit calls iWantedWorkers = (.exitSuccess, m) → ∀ s,
      Reachable (routing m.gWorkerAdmin) (fun _ _ => True) s → s.crashed = false

/-! ### The bounds of the table -/

/-- A round that stops has not left an entry, and is not the one that leaves the table. -/
theorem RoundMove.stops {calls : InitCalls} {i : Fin workerMaxWorkers} {m : Master}
    {result : InitRet × Master} (h : RoundMove calls i m (.error result)) :
    result.1 ≠ .outOfBounds ∧ calls.recorded i = none := by
  rw [Option.eq_none_iff_forall_ne_some]
  cases h with
  | noChild hcall =>
      refine ⟨InitRet.noConfusion, fun psWorker hentry => ?_⟩
      obtain ⟨pid, socket, accept, hfork, -, -, hmalloc, -⟩ := InitCalls.recorded_cases hentry
      rcases hcall with hfail | hfail
      · exact Bool.false_ne_true (hfail.symm.trans hmalloc)
      · cases hfail.symm.trans hfork
  | abandoned pid hleft image =>
      refine ⟨InitRet.noConfusion, fun psWorker hentry => ?_⟩
      obtain ⟨pid, socket, accept, -, -, -, -, hready, -⟩ := InitCalls.recorded_cases hentry
      exact hleft.ipc hready
  | exited hready haccept m' =>
      refine ⟨InitRet.noConfusion, fun psWorker hentry => ?_⟩
      obtain ⟨pid, socket, accept, -, -, hsome, -⟩ := InitCalls.recorded_cases hentry
      cases haccept.symm.trans hsome

theorem workerInitLoop_outOfBounds_iff {calls : Nat → InitCalls} {rounds i : Nat} {m : Master}
    (hm : Built calls i m) (hi : i ≤ workerMaxWorkers) :
    (workerInitLoop calls rounds i m).1 = .outOfBounds
      ↔ workerMaxWorkers < i + rounds ∧
        ∀ j, i ≤ j → j < workerMaxWorkers → ((calls j).recorded j).isSome = true := by
  induction rounds generalizing i m with
  | zero => exact iff_of_false InitRet.noConfusion fun h => absurd h.1 (Nat.not_lt_of_le hi)
  | succ rounds ih =>
      rw [workerInitLoop]
      rcases Nat.lt_or_eq_of_le hi with hlt | rfl
      · have hround : RoundMove (calls i) ⟨i, hlt⟩ m (workerInitRound (calls i) i m) :=
          workerInitRound_cases (calls i) ⟨i, hlt⟩ m
        cases hresult : workerInitRound (calls i) i m with
        | error result =>
            rw [hresult] at hround
            obtain ⟨hbounds, hnone⟩ := hround.stops
            refine iff_of_false hbounds fun h => ?_
            have hsome := h.2 i (Nat.le_refl i) hlt
            rw [hnone] at hsome
            cases hsome
        | ok m' =>
            rw [hresult] at hround
            cases hround with
            | recorded psWorker pid hfork hentry image =>
                have hnext := Built.next (i := ⟨i, hlt⟩) hm hfork hentry image
                dsimp only
                rw [ih hnext hlt, Nat.add_right_comm, Nat.add_assoc]
                refine and_congr_right fun _ => ⟨fun hlater j hij hj => ?_, fun hall j hij hj => ?_⟩
                · rcases Nat.lt_or_eq_of_le hij with hij | rfl
                  · exact hlater j hij hj
                  · exact hentry ▸ rfl
                · exact hall j (Nat.le_of_succ_le hij) hj
      · have hround : workerInitRound (calls workerMaxWorkers) workerMaxWorkers m
            = .error (.outOfBounds, m) := dif_neg (Nat.lt_irrefl _)
        rw [hround]
        refine iff_of_true rfl ⟨by omega, fun j hij hj => absurd hj (Nat.not_lt_of_le hij)⟩

theorem workerInit_outOfBounds_iff (calls : Nat → InitCalls) (iWantedWorkers : Int) :
    (workerInit calls iWantedWorkers).1 = .outOfBounds
      ↔ 64 < iWantedWorkers ∧ ∀ i < workerMaxWorkers, ((calls i).recorded i).isSome = true := by
  rw [workerInit, workerInitLoop_outOfBounds_iff (built_zero calls) (Nat.zero_le _), Nat.zero_add]
  have hcount : workerMaxWorkers < iWantedWorkers.toNat ↔ 64 < iWantedWorkers := Int.lt_toNat
  rw [hcount]
  exact and_congr_right fun _ => ⟨fun h i hi => h i (Nat.zero_le i) hi, fun h i _ hi => h i hi⟩

/-! ### Routing with a table -/

/-- A master that can route: workers at the beginning of its table, and at least one. -/
structure Routable (s : Handover) : Prop where
  table : Prefilled s.gWorkerAdmin
  nonempty : 0 < s.gWorkerAdmin.uiCurrWorkers
  running : s.crashed = false

theorem Routable.step {s t : Handover} {move : Move} (h : Routable s) (hstep : s.step move = some t) :
    Routable t := by
  cases move with
  | acceptClient accept sendmsg =>
      rw [Handover.step, h.running] at hstep
      obtain rfl := Option.some.inj hstep
      cases accept with
      | false => exact h
      | true =>
          obtain ⟨w, -, hroute⟩ := h.table.socketAcceptClient_eq h.nonempty sendmsg
          rw [hroute]
          refine ⟨?_, ?_, ?_⟩
          · rw [Handover.routed_gWorkerAdmin]
            exact h.table
          · rw [Handover.routed_gWorkerAdmin]
            exact h.nonempty
          · rw [Handover.routed_crashed]
            exact h.running
  | ipcCallback w receive =>
      cases Handover.receiveMove hstep with
      | failed => exact h
      | emptied | taken => exact ⟨h.table, h.nonempty, h.running⟩

theorem routable_of_reachable {gWorkerAdmin : WorkerAdmin} (htable : Prefilled gWorkerAdmin)
    (hsome : 0 < gWorkerAdmin.uiCurrWorkers) {s : Handover}
    (hs : Reachable (routing gWorkerAdmin) (fun _ _ => True) s) : Routable s := by
  refine hs.invariant ?_ fun _ _ _ h _ hstep => h.step hstep
  rintro s ⟨rfl, hrunning⟩
  exact ⟨htable, hsome, hrunning⟩

/-- Without workers the first client is a division by zero. -/
theorem crash_of_no_worker : ∃ s, Reachable (routing .zero) (fun _ _ => True) s ∧ s.crashed = true :=
  ⟨_, .step (l := .acceptClient true true) (.init (s := .start .zero) ⟨rfl, rfl⟩) trivial rfl, rfl⟩

theorem workerInit_of_nonpos (calls : Nat → InitCalls) {iWantedWorkers : Int} (hn : iWantedWorkers ≤ 0) :
    workerInit calls iWantedWorkers = (.exitSuccess, ⟨.zero, []⟩) := by
  rw [workerInit, Int.toNat_eq_zero.mpr hn]
  rfl

/-- A success leaves as many workers as were asked for. -/
theorem workerInit_success_routable {calls : Nat → InitCalls} {iWantedWorkers : Int}
    (hpos : 1 ≤ iWantedWorkers) {m : Master} (h : workerInit calls iWantedWorkers = (.exitSuccess, m)) :
    Prefilled m.gWorkerAdmin ∧ 0 < m.gWorkerAdmin.uiCurrWorkers := by
  obtain ⟨n, rfl⟩ : ∃ n : Nat, iWantedWorkers = n := ⟨iWantedWorkers.toNat, by omega⟩
  obtain ⟨hmax, -, hcount⟩ := workerInit_success h
  have htable : Prefilled (workerInit calls n).2.gWorkerAdmin :=
    workerInit_prefilled (by omega) (by rw [h]; exact InitRet.noConfusion)
  rw [h] at htable
  refine ⟨htable, ?_⟩
  rw [hcount, UInt32.lt_iff_toNat_lt, toNat_ofNat_workers hmax]
  exact Int.ofNat_le.mp hpos

/-- A number of workers is safe exactly if there is one, and at most as many as the table has places
for or a failure in a round before the table ends. -/
theorem countSafe_iff (calls : Nat → InitCalls) (iWantedWorkers : Int) :
    CountSafe calls iWantedWorkers
      ↔ 1 ≤ iWantedWorkers ∧
        (iWantedWorkers ≤ 64 ∨ ∃ i < workerMaxWorkers, (calls i).recorded i = none) := by
  have hbounds : (workerInit calls iWantedWorkers).1 ≠ .outOfBounds
      ↔ iWantedWorkers ≤ 64 ∨ ∃ i < workerMaxWorkers, (calls i).recorded i = none := by
    rw [Ne, workerInit_outOfBounds_iff, not_and_or, Int.not_lt]
    simp only [not_forall, Option.not_isSome_iff_eq_none, exists_prop]
  rw [CountSafe, hbounds, and_comm]
  refine and_congr_left fun _ => ⟨fun hroutes => ?_, fun hpos m hm s hs => ?_⟩
  · by_contra hnone
    have hzero := workerInit_of_nonpos calls (Int.not_lt.mp hnone)
    obtain ⟨s, hs, hcrashed⟩ := crash_of_no_worker
    exact Bool.false_ne_true ((hroutes _ hzero s hs).symm.trans hcrashed)
  · obtain ⟨htable, hsome⟩ := workerInit_success_routable hpos hm
    exact (routable_of_reachable htable hsome hs).running

theorem countSafe_not_always :
    ¬ ∀ (calls : Nat → InitCalls) (iWantedWorkers : Int), -2 ^ 31 ≤ iWantedWorkers →
      iWantedWorkers < 2 ^ 31 → CountSafe calls iWantedWorkers := by
  intro hsafe
  have hzero := hsafe allSucceed 0 (by decide) (by decide)
  obtain ⟨s, hs, hcrashed⟩ := crash_of_no_worker
  exact Bool.false_ne_true ((hzero.2 _ rfl s hs).symm.trans hcrashed)

end CewServer.Worker
