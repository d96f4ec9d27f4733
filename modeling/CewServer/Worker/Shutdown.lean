import CewServer.Worker.Startup
import CewServer.Worker.Teardown

/-!
# Tearing down the workers from the master

In the master no entry is marked, so `worker_destroy` treats each of them alike: it signals the worker
and waits for it, closes the two sockets, removes the file and clears the entry.
-/

namespace CewServer.Worker

/-- The calls made for an entry of the master's table. -/
def entryCalls (killed : Bool) : Option WorkerStruct → List Call
  | none => []
  | some psWorker => stopWorker psWorker killed ++ closeUnlessZero psWorker.iWorkerIPCfd

/-- A table whose entries are all other processes. -/
def NoneMarked (admin : WorkerAdmin) : Prop :=
  ∀ i psWorker, admin.psWorker i = some psWorker → psWorker.iMe = 0

theorem NoneMarked.clear {admin : WorkerAdmin} (h : NoneMarked admin) (i : Fin workerMaxWorkers) :
    NoneMarked (admin.set i none) := by
  intro j psWorker hj
  obtain ⟨-, hentry⟩ := WorkerAdmin.of_set_none hj
  exact h j psWorker hentry

/-- An entry that is not marked is taken for another process. -/
theorem workerDestroyEntry_other {t : Teardown} (hrunning : t.crashed = false) {i : Fin workerMaxWorkers}
    (hother : ∀ psWorker, t.process.gWorkerAdmin.psWorker i = some psWorker → psWorker.iMe = 0)
    (killed : Fin workerMaxWorkers → Bool) :
    workerDestroyEntry killed t i
      = t.freeEntry i (entryCalls (killed i) (t.process.gWorkerAdmin.psWorker i)) := by
  unfold workerDestroyEntry
  rw [hrunning, if_neg Bool.false_ne_true]
  cases hentry : t.process.gWorkerAdmin.psWorker i with
  | none =>
      have hset : t.process.gWorkerAdmin.set i none = t.process.gWorkerAdmin := by
        rw [WorkerAdmin.set, Function.update_eq_self_iff.mpr hentry.symm]
      simp only [Teardown.freeEntry, entryCalls, hset, List.append_nil]
  | some psWorker =>
      have hme := hother psWorker hentry
      simp only [hme, ne_eq, not_true_eq_false, if_false, entryCalls]

/-- The table after a number of entries were cleared. -/
def WorkerAdmin.without (admin : WorkerAdmin) (cleared : List (Fin workerMaxWorkers)) : WorkerAdmin :=
  { admin with psWorker := fun j => if j ∈ cleared then none else admin.psWorker j }

theorem WorkerAdmin.without_nil (admin : WorkerAdmin) : admin.without [] = admin := by
  simp only [without, List.not_mem_nil, if_false]

theorem WorkerAdmin.without_cons (admin : WorkerAdmin) (i : Fin workerMaxWorkers)
    (cleared : List (Fin workerMaxWorkers)) :
    (admin.set i none).without cleared = admin.without (i :: cleared) := by
  have hentries : (fun j => if j ∈ cleared then none else (admin.set i none).psWorker j)
      = fun j => if j ∈ i :: cleared then none else admin.psWorker j := by
    funext j
    by_cases hji : j = i
    · rw [hji, WorkerAdmin.set_self, if_pos List.mem_cons_self]
      split <;> rfl
    · rw [WorkerAdmin.set_of_ne _ hji]
      simp only [List.mem_cons, hji, false_or]
  rw [without, hentries]
  rfl

theorem foldl_workerDestroyEntry {t : Teardown} (hrunning : t.crashed = false)
    (hothers : NoneMarked t.process.gWorkerAdmin) (killed : Fin workerMaxWorkers → Bool)
    {entries : List (Fin workerMaxWorkers)} (hnodup : entries.Nodup) :
    entries.foldl (workerDestroyEntry killed) t
      = { t with
          process.gWorkerAdmin := t.process.gWorkerAdmin.without entries
          calls := t.calls
            ++ entries.flatMap fun i => entryCalls (killed i) (t.process.gWorkerAdmin.psWorker i) } := by
  induction entries generalizing t with
  | nil => simp only [List.foldl_nil, WorkerAdmin.without_nil, List.flatMap_nil, List.append_nil]
  | cons i entries ih =>
      obtain ⟨hfresh, hnodup⟩ := List.nodup_cons.mp hnodup
      rw [List.foldl_cons, workerDestroyEntry_other hrunning (hothers i),
        ih (t := t.freeEntry i _) hrunning (hothers.clear i) hnodup]
      -- the entries still to come are as they were
      have hrest : (entries.flatMap fun j => entryCalls (killed j)
          ((t.process.gWorkerAdmin.set i none).psWorker j))
          = entries.flatMap fun j => entryCalls (killed j) (t.process.gWorkerAdmin.psWorker j) := by
        apply List.flatMap_congr
        intro j hj
        have hji : j ≠ i := fun h => hfresh (h ▸ hj)
        rw [WorkerAdmin.set_of_ne _ hji]
      simp only [Teardown.freeEntry, WorkerAdmin.without_cons, hrest, List.append_assoc,
        List.flatMap_cons]

/-- `worker_destroy` in the master: the calls for each entry in turn, and an empty table. -/
theorem workerDestroy_master {t : Teardown} (hrunning : t.crashed = false)
    (hothers : NoneMarked t.process.gWorkerAdmin) (killed : Fin workerMaxWorkers → Bool) :
    workerDestroy killed t
      = { t with
          process.gWorkerAdmin := .zero
          calls := t.calls ++ (List.finRange workerMaxWorkers).flatMap fun i =>
            entryCalls (killed i) (t.process.gWorkerAdmin.psWorker i) } := by
  unfold workerDestroy
  rw [foldl_workerDestroyEntry hrunning hothers killed (List.nodup_finRange _)]
  simp only [hrunning, Bool.false_eq_true, if_false, WorkerAdmin.without, List.mem_finRange, if_true]
  rfl

/-- The master as it calls `worker_destroy`: it has no event loop of a worker. -/
def masterTeardown (gWorkerAdmin : WorkerAdmin) (iFd : Int) : Teardown :=
  ⟨⟨gWorkerAdmin, false, iFd⟩, [], false⟩

theorem workerDestroy_masterTeardown {admin : WorkerAdmin} (h : NoneMarked admin)
    (killed : Fin workerMaxWorkers → Bool) (iFd : Int) :
    workerDestroy killed (masterTeardown admin iFd)
      = ⟨⟨.zero, false, iFd⟩, (List.finRange workerMaxWorkers).flatMap fun i =>
          entryCalls (killed i) (admin.psWorker i), false⟩ := by
  have hothers : NoneMarked (masterTeardown admin iFd).process.gWorkerAdmin := h
  rw [workerDestroy_master rfl hothers]
  rfl

theorem Built.noneMarked {calls : Nat → InitCalls} {k : Nat} {m : Master} (hm : Built calls k m) :
    NoneMarked m.gWorkerAdmin := by
  intro i psWorker hentry
  rw [hm.entries] at hentry
  split at hentry
  · obtain ⟨pid, socket, accept, -, -, -, -, -, rfl⟩ := InitCalls.recorded_cases hentry
    rfl
  · cases hentry

end CewServer.Worker
