import CewServer.Worker.Shutdown
import CewServer.Worker.Handover
import CewServer.Lib.RoundRobin

/-!
# The worker table over many sessions

Any sequence of `worker_init`, `worker_destroy` and `worker_route_client` in the master. The table is
made anew by each `worker_init`, fails at any point or not, and is emptied by `worker_destroy`;
`NextWorker` is set once in the life of the program and keeps its value from one table to the next.
The first client after a table change may go to any worker. From there on the clients go round.
-/

namespace CewServer.Worker

open Transition RoundRobin

/-- A call in the master, with what the calls inside it return. -/
inductive TableCall where
  | workerInit (iWantedWorkers : Int) (calls : Nat → InitCalls)
  | workerDestroy (killed : Fin workerMaxWorkers → Bool)
  | routeClient (sendmsg : Bool)

/-- The table is replaced: the workers are other processes and nothing was routed to them yet. -/
def Handover.restart (s : Handover) (gWorkerAdmin : WorkerAdmin) : Handover :=
  { Handover.start gWorkerAdmin with NextWorker := s.NextWorker }

/-- One call. A `worker_init` that leaves the process is the end of the run, and so is a crash. -/
def tableStep (s : Handover) (call : TableCall) : Option Handover :=
  if s.crashed then none
  else match call with
    | .workerInit iWantedWorkers calls =>
        match (workerInit calls iWantedWorkers).1 with
        | .exitSuccess | .exitFailure =>
            some (s.restart (workerInit calls iWantedWorkers).2.gWorkerAdmin)
        | .exited | .outOfBounds => none
    | .workerDestroy killed =>
        some (s.restart (workerDestroy killed (masterTeardown s.gWorkerAdmin 0)).process.gWorkerAdmin)
    | .routeClient sendmsg => some (s.socketAcceptClient true sendmsg)

def tables : System Handover TableCall where
  Init s := s = .start .zero
  step := tableStep

/-- `worker_init` is called for at least one worker and for no more than the table holds. -/
def WantsSome (_ : Handover) : TableCall → Prop
  | .workerInit iWantedWorkers _ => 1 ≤ iWantedWorkers ∧ iWantedWorkers ≤ workerMaxWorkers
  | .workerDestroy _ | .routeClient _ => True

/-! ### The invariant -/

/-- The workers are the first entries of the table, and none of them is the master itself. -/
structure Prefilled (admin : WorkerAdmin) : Prop where
  filled : ∀ i : Fin workerMaxWorkers, (admin.psWorker i).isSome = true ↔
    i.val < admin.uiCurrWorkers.toNat
  bounded : admin.uiCurrWorkers.toNat ≤ workerMaxWorkers
  others : NoneMarked admin

/-- The routes since the table changed go round its workers, and `NextWorker` is where they stand. -/
structure InTurn (s : Handover) (start : Nat) : Prop where
  cursor : (s.NextWorker + 1).toNat % s.gWorkerAdmin.uiCurrWorkers.toNat
    = (start + s.routes.length) % s.gWorkerAdmin.uiCurrWorkers.toNat
  routes : GoesRound s.gWorkerAdmin.uiCurrWorkers.toNat start
    (s.routes.map fun route => route.worker.val)

structure TableOk (s : Handover) : Prop where
  table : Prefilled s.gWorkerAdmin
  turn : ∃ start, InTurn s start

theorem prefilled_zero : Prefilled .zero where
  filled i := by simp [WorkerAdmin.zero]
  bounded := Nat.zero_le _
  others := by
    intro i psWorker h
    cases h

theorem Built.prefilled {calls : Nat → InitCalls} {k : Nat} {m : Master} (hm : Built calls k m)
    (hk : k ≤ workerMaxWorkers) : Prefilled m.gWorkerAdmin := by
  have hcount : m.gWorkerAdmin.uiCurrWorkers.toNat = k := by
    have hk64 : k ≤ 64 := hk
    rw [hm.count, UInt32.toNat_ofNat']
    omega
  refine ⟨fun i => ?_, hcount ▸ hk, hm.noneMarked⟩
  rw [hm.entries, hcount]
  by_cases hi : i.val < k
  · rw [if_pos hi]
    exact ⟨fun _ => hi, fun _ => hm.succeeded i hi⟩
  · rw [if_neg hi]
    simp only [Option.isSome_none, Bool.false_eq_true, false_iff]
    exact hi

/-- Whatever fails, the table `worker_init` leaves when it returns is filled from its start. -/
theorem workerInit_prefilled {calls : Nat → InitCalls} {iWantedWorkers : Int}
    (hfits : iWantedWorkers ≤ workerMaxWorkers)
    (hreturns : (workerInit calls iWantedWorkers).1 ≠ .exited) :
    Prefilled (workerInit calls iWantedWorkers).2.gWorkerAdmin := by
  have hrounds : iWantedWorkers.toNat ≤ workerMaxWorkers := Int.toNat_le.mpr hfits
  have hend := workerInit_ends calls hfits
  generalize (workerInit calls iWantedWorkers).1 = iRet at hend hreturns
  generalize (workerInit calls iWantedWorkers).2 = m at hend ⊢
  cases hend with
  | success hm => exact hm.prefilled hrounds
  | noChild hk hm hnone => exact hm.prefilled (by omega)
  | abandoned hk hm hi hleft => exact hm.prefilled (by omega)
  | exited hk hm hready haccept => exact absurd rfl hreturns

theorem tableOk_restart (s : Handover) {admin : WorkerAdmin} (h : Prefilled admin) :
    TableOk (s.restart admin) where
  table := h
  turn := ⟨(s.NextWorker + 1).toNat, rfl, GoesRound.nil _ _⟩

/-! ### One client -/

/-- With workers in the table a client is routed to one of them: there is an entry behind the index. -/
theorem Prefilled.socketAcceptClient_eq {s : Handover} (h : Prefilled s.gWorkerAdmin)
    (hpos : 0 < s.gWorkerAdmin.uiCurrWorkers) (sendmsg : Bool) :
    ∃ w : Fin workerMaxWorkers,
      w.val = (s.NextWorker + 1).toNat % s.gWorkerAdmin.uiCurrWorkers.toNat ∧
      s.socketAcceptClient true sendmsg = s.routed w sendmsg := by
  have hnonzero : s.gWorkerAdmin.uiCurrWorkers ≠ 0 := UInt32.pos_iff_ne_zero.mp hpos
  have hnext : ((s.NextWorker + 1) % s.gWorkerAdmin.uiCurrWorkers).toNat
      = (s.NextWorker + 1).toNat % s.gWorkerAdmin.uiCurrWorkers.toNat := UInt32.toNat_mod ..
  have hbelow := Nat.mod_lt (s.NextWorker + 1).toNat (UInt32.lt_iff_toNat_lt.mp hpos)
  rw [← hnext] at hbelow
  have hindex := Nat.lt_of_lt_of_le hbelow h.bounded
  obtain ⟨psWorker, hentry⟩ := Option.isSome_iff_exists.mp ((h.filled ⟨_, hindex⟩).mpr hbelow)
  exact ⟨⟨_, hindex⟩, hnext, s.socketAcceptClient_routed hnonzero hindex hentry sendmsg⟩

/-- The next client's turn comes right after the last one's. -/
theorem TableOk.routed {s : Handover} {w : Fin workerMaxWorkers} (h : TableOk s)
    (hpos : 0 < s.gWorkerAdmin.uiCurrWorkers)
    (hw : w.val = (s.NextWorker + 1).toNat % s.gWorkerAdmin.uiCurrWorkers.toNat) (sendmsg : Bool) :
    TableOk (s.routed w sendmsg) := by
  obtain ⟨start, hturn⟩ := h.turn
  have hbelow := Nat.mod_lt (s.NextWorker + 1).toNat (UInt32.lt_iff_toNat_lt.mp hpos)
  have hmax : s.gWorkerAdmin.uiCurrWorkers.toNat ≤ 64 := h.table.bounded
  refine ⟨by rw [Handover.routed_gWorkerAdmin]; exact h.table, start, ?_, ?_⟩
  · -- the index is below the number of workers, so counting it up does not wrap
    have hcursor : ((s.routed w sendmsg).NextWorker + 1).toNat
        = (s.NextWorker + 1).toNat % s.gWorkerAdmin.uiCurrWorkers.toNat + 1 := by
      simp only [Handover.routed]
      rw [UInt32.toNat_add, UInt32.toNat_mod, UInt32.toNat_one]
      apply Nat.mod_eq_of_lt
      omega
    rw [hcursor, Handover.routed_gWorkerAdmin, hturn.cursor, Nat.mod_add_mod]
    simp only [Handover.routed, List.length_append, List.length_singleton, Nat.add_assoc]
  · have hnext := hturn.routes.concat
    rw [List.length_map, ← hturn.cursor, ← hw] at hnext
    rw [Handover.routed_gWorkerAdmin]
    simpa only [Handover.routed, List.map_append, List.map_singleton] using hnext

/-! ### Every sequence of calls -/

theorem TableOk.of_step {s t : Handover} {call : TableCall} (h : TableOk s) (hwants : WantsSome s call)
    (hstep : tables.step s call = some t) : TableOk t := by
  change tableStep s call = some t at hstep
  unfold tableStep at hstep
  split at hstep
  · cases hstep
  cases call with
  | workerInit iWantedWorkers calls =>
      have hreturned : (workerInit calls iWantedWorkers).1 ≠ .exited ∧
          t = s.restart (workerInit calls iWantedWorkers).2.gWorkerAdmin := by
        dsimp only at hstep
        generalize (workerInit calls iWantedWorkers).1 = iRet at hstep ⊢
        cases iRet <;> simp only [Option.some.injEq, reduceCtorEq] at hstep
        · exact ⟨InitRet.noConfusion, hstep.symm⟩
        · exact ⟨InitRet.noConfusion, hstep.symm⟩
      rw [hreturned.2]
      exact tableOk_restart s (workerInit_prefilled hwants.2 hreturned.1)
  | workerDestroy killed =>
      obtain rfl := Option.some.inj hstep
      rw [workerDestroy_masterTeardown h.table.others]
      exact tableOk_restart s prefilled_zero
  | routeClient sendmsg =>
      obtain rfl := Option.some.inj hstep
      by_cases hpos : 0 < s.gWorkerAdmin.uiCurrWorkers
      · obtain ⟨w, hw, hroute⟩ := h.table.socketAcceptClient_eq hpos sendmsg
        rw [hroute]
        exact h.routed hpos hw sendmsg
      · -- the division by zero ends the run, with the table as it was
        have hzero : s.gWorkerAdmin.uiCurrWorkers = 0 := by
          by_contra hne
          exact hpos (UInt32.pos_iff_ne_zero.mpr hne)
        simp only [Handover.socketAcceptClient, if_true, Handover.workerRouteClient, hzero]
        obtain ⟨start, hturn⟩ := h.turn
        exact ⟨h.table, start, hturn.cursor, hturn.routes⟩

theorem tableOk_of_reachable {s : Handover} (hs : Reachable tables WantsSome s) : TableOk s := by
  refine hs.invariant ?_ fun _ _ _ h hwants hstep => h.of_step hwants hstep
  rintro s rfl
  exact tableOk_restart (.start .zero) prefilled_zero

/-- How many clients were routed to a worker since the table changed. -/
def Handover.load (s : Handover) (w : Fin workerMaxWorkers) : Nat := (s.routes.map Route.worker).count w

theorem TableOk.load_le_succ {s : Handover} (h : TableOk s) {v w : Fin workerMaxWorkers}
    (hv : v.val < s.gWorkerAdmin.uiCurrWorkers.toNat)
    (hw : w.val < s.gWorkerAdmin.uiCurrWorkers.toNat) : s.load v ≤ s.load w + 1 := by
  obtain ⟨start, hturn⟩ := h.turn
  have hload : ∀ u : Fin workerMaxWorkers,
      s.load u = (s.routes.map fun route => route.worker.val).count u.val := by
    intro u
    have hmap : (s.routes.map fun route => route.worker.val) = (s.routes.map Route.worker).map Fin.val := by
      rw [List.map_map]
      rfl
    rw [hmap, List.count_map_of_injective _ _ Fin.val_injective]
    rfl
  rw [hload, hload]
  exact hturn.routes.count_le_succ (by omega) hv hw

/-- After every call the workers are the first entries of the table; a client that comes while there
are workers is routed to one of them; and since the last change of the table no worker got more than
one client more than another. -/
theorem table_invariant {s : Handover} (hs : Reachable tables WantsSome s) :
    (∀ i : Fin workerMaxWorkers, s.gWorkerAdmin.psWorker i ≠ none ↔
      i.val < s.gWorkerAdmin.uiCurrWorkers.toNat) ∧
    (0 < s.gWorkerAdmin.uiCurrWorkers → ∀ sendmsg, ∃ w : Fin workerMaxWorkers,
      w.val < s.gWorkerAdmin.uiCurrWorkers.toNat ∧ s.gWorkerAdmin.psWorker w ≠ none ∧
      (s.socketAcceptClient true sendmsg).routes = s.routes ++ [⟨s.accepted, w, sendmsg⟩] ∧
      (s.socketAcceptClient true sendmsg).crashed = s.crashed) ∧
    ∀ v w : Fin workerMaxWorkers, v.val < s.gWorkerAdmin.uiCurrWorkers.toNat →
      w.val < s.gWorkerAdmin.uiCurrWorkers.toNat → s.load v ≤ s.load w + 1 := by
  have hok := tableOk_of_reachable hs
  have hfilled : ∀ i : Fin workerMaxWorkers, s.gWorkerAdmin.psWorker i ≠ none ↔
      i.val < s.gWorkerAdmin.uiCurrWorkers.toNat := by
    intro i
    rw [← hok.table.filled i, ← Option.isSome_iff_ne_none]
  refine ⟨hfilled, ?_, fun v w hv hw => hok.load_le_succ hv hw⟩
  intro hpos sendmsg
  obtain ⟨w, hw, hroute⟩ := hok.table.socketAcceptClient_eq hpos sendmsg
  have hbelow : w.val < s.gWorkerAdmin.uiCurrWorkers.toNat := by
    rw [hw]
    exact Nat.mod_lt _ (UInt32.lt_iff_toNat_lt.mp hpos)
  rw [hroute]
  exact ⟨w, hbelow, (hfilled w).mpr hbelow, rfl, s.routed_crashed w sendmsg⟩

/-- Three workers take two clients, and the two workers of the next session take three. -/
def twoSessions : List TableCall :=
  [.workerInit 3 allSucceed, .routeClient true, .routeClient true, .workerDestroy fun _ => true,
    .workerInit 2 allSucceed, .routeClient true, .routeClient false, .routeClient true]

instance (s : Handover) : (call : TableCall) → Decidable (WantsSome s call)
  | .workerInit iWantedWorkers _ =>
      inferInstanceAs (Decidable (1 ≤ iWantedWorkers ∧ iWantedWorkers ≤ workerMaxWorkers))
  | .workerDestroy _ | .routeClient _ => inferInstanceAs (Decidable True)

theorem table_invariant_twoSessions :
    ∃ s, Reachable tables WantsSome s ∧ s.gWorkerAdmin.uiCurrWorkers = 2 ∧
      s.routes.map (fun route => route.worker.val) = [0, 1, 0] ∧
      (∃ w : Fin workerMaxWorkers, w.val < 2 ∧ s.gWorkerAdmin.psWorker w ≠ none ∧
        (s.socketAcceptClient true true).routes = s.routes ++ [⟨s.accepted, w, true⟩]) ∧
      ∀ v w : Fin workerMaxWorkers, v.val < 2 → w.val < 2 → s.load v ≤ s.load w + 1 := by
  have hinit : Reachable tables WantsSome (.start .zero) := .init rfl
  obtain ⟨s, hrun, hcount, hroutes⟩ : ∃ s, tables.runKeeping WantsSome (.start .zero) twoSessions
      = some s ∧ s.gWorkerAdmin.uiCurrWorkers = 2 ∧
      s.routes.map (fun route => route.worker.val) = [0, 1, 0] := ⟨_, rfl, by decide, by decide⟩
  have hs := hinit.runKeeping hrun
  obtain ⟨-, hroute, hload⟩ := table_invariant hs
  have hcount' : s.gWorkerAdmin.uiCurrWorkers.toNat = 2 := by
    rw [hcount]
    rfl
  rw [hcount'] at hroute hload
  obtain ⟨w, hw, hentry, hnext, -⟩ := hroute (by rw [hcount]; decide) true
  exact ⟨s, hs, hcount, hroutes, ⟨w, hw, hentry, hnext⟩, hload⟩

end CewServer.Worker
