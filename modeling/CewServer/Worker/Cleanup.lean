import CewServer.Worker.Shutdown
import CewServer.Main.Boot
import CewServer.Settings.Options

/-!
# The way out of a worker

`do_exit` runs `exit_cleanup` wherever it is called from: the socket, the workers, the settings and the
logger, in this order and once each. A worker calls it in three places, and in two of them it has not
made its event loop yet. `worker_destroy` does not look: at the worker's own entry it passes the loop to
libev, and what comes after it is not reached.

libev takes a loop apart with all its memory in `ev_loop_destroy`. `worker_destroy` frees the loop once
more, and whether `free` returns from that is left open here.
-/

namespace CewServer.Worker

open Main (LoggerState)
open Settings (SSettings nothingSet)

/-- What `exit_cleanup` meets: whether the first `kill` of each entry succeeds, and whether `free`
returns for a loop that libev has destroyed. -/
structure CleanupCalls where
  killed : Fin workerMaxWorkers → Bool
  free : Bool

/-- The static variables of a process that leaves. -/
structure Leaving where
  process : Process
  sCurrSSettings : SSettings
  logger : LoggerState

def settingsDestroy (_ : SSettings) : SSettings := nothingSet

/-- `exit_cleanup`, if it gets to its end. -/
def exitCleanup (calls : CleanupCalls) (x : Leaving) : Option Leaving :=
  let t := workerDestroy calls.killed (socketClose ⟨x.process, [], false⟩)
  if t.crashed then none
  else if .evLoopDestroy ∈ t.calls ∧ calls.free = false then none
  else some
    { process := t.process
      sCurrSSettings := settingsDestroy x.sCurrSSettings
      logger := x.logger.loggerDestroy }

/-- The steps of `workerp_connect_ipc_socket` succeed in a child. -/
def EntryCalls.Connects (calls : EntryCalls) (c : Child) : Prop :=
  calls.socket.isSome = true ∧
    (((c.image.psWorker c.i).bind WorkerStruct.IPCFile).getD []).length < sunPathSize ∧
    calls.connect = true ∧ calls.fcntl = true

/-! ### The worker's own entry -/

/-- A teardown that has not come to the one entry that is marked. -/
structure OwnAhead (i : Fin workerMaxWorkers) (loop : Bool) (t : Teardown) : Prop where
  running : t.crashed = false
  loop : t.process.psWorkerEVLoop = loop
  own : ∃ psWorker, t.process.gWorkerAdmin.psWorker i = some psWorker ∧ psWorker.iMe ≠ 0
  others : ∀ j, j ≠ i → ∀ psWorker, t.process.gWorkerAdmin.psWorker j = some psWorker → psWorker.iMe = 0

variable {i : Fin workerMaxWorkers} {loop : Bool} {t : Teardown}

theorem OwnAhead.entry (h : OwnAhead i loop t) {j : Fin workerMaxWorkers} (hji : j ≠ i)
    (killed : Fin workerMaxWorkers → Bool) : OwnAhead i loop (workerDestroyEntry killed t j) := by
  rw [workerDestroyEntry_other h.running (h.others j hji)]
  refine ⟨h.running, h.loop, ?_, ?_⟩
  · obtain ⟨psWorker, hentry, hme⟩ := h.own
    exact ⟨psWorker, (t.process.gWorkerAdmin.set_of_ne hji.symm none).trans hentry, hme⟩
  · intro k hki psWorker hentry
    obtain ⟨-, hbefore⟩ := WorkerAdmin.of_set_none hentry
    exact h.others k hki psWorker hbefore

theorem OwnAhead.entries (h : OwnAhead i loop t) {entries : List (Fin workerMaxWorkers)}
    (hi : i ∉ entries) (killed : Fin workerMaxWorkers → Bool) :
    OwnAhead i loop (entries.foldl (workerDestroyEntry killed) t) := by
  induction entries generalizing t with
  | nil => exact h
  | cons j entries ih =>
      obtain ⟨hij, hi⟩ := not_or.mp (mt List.mem_cons.mpr hi)
      exact ih (h.entry (Ne.symm hij) killed) hi

theorem foldl_of_crashed (hcrashed : t.crashed = true) (killed : Fin workerMaxWorkers → Bool)
    (entries : List (Fin workerMaxWorkers)) : entries.foldl (workerDestroyEntry killed) t = t := by
  induction entries with
  | nil => rfl
  | cons j entries ih =>
      have hstop : workerDestroyEntry killed t j = t := if_pos hcrashed
      rw [List.foldl_cons, hstop, ih]

/-- With a loop, the worker's own entry is cleared like the others. -/
theorem OwnAhead.own_of_loop (h : OwnAhead i true t) (killed : Fin workerMaxWorkers → Bool) :
    (workerDestroyEntry killed t i).crashed = false ∧
      NoneMarked (workerDestroyEntry killed t i).process.gWorkerAdmin ∧
      .evLoopDestroy ∈ (workerDestroyEntry killed t i).calls := by
  obtain ⟨psWorker, hentry, hme⟩ := h.own
  have hown : workerDestroyEntry killed t i
      = ({ t with process.psWorkerEVLoop := false } : Teardown).freeEntry i
          ([.evSuspend, .evLoopDestroy] ++ closeUnlessZero psWorker.iWorkerIPCfd) := by
    simp only [workerDestroyEntry, h.running, Bool.false_eq_true, if_false, hentry, if_pos hme, h.loop,
      if_true]
  rw [hown]
  refine ⟨h.running, ?_, ?_⟩
  · intro j psWorker' hj
    obtain ⟨hji, hbefore⟩ := WorkerAdmin.of_set_none hj
    exact h.others j hji psWorker' hbefore
  · exact List.mem_append_right _ (List.mem_append_left _ (List.mem_cons_of_mem _ List.mem_cons_self))

/-- Without one, the process ends in `ev_suspend`. -/
theorem OwnAhead.own_of_no_loop (h : OwnAhead i false t) (killed : Fin workerMaxWorkers → Bool) :
    (workerDestroyEntry killed t i).crashed = true := by
  obtain ⟨psWorker, hentry, hme⟩ := h.own
  simp only [workerDestroyEntry, h.running, Bool.false_eq_true, if_false, hentry, if_pos hme, h.loop]

theorem crashed_workerDestroy (killed : Fin workerMaxWorkers → Bool) (t : Teardown) :
    (workerDestroy killed t).crashed
      = ((List.finRange workerMaxWorkers).foldl (workerDestroyEntry killed) t).crashed := by
  unfold workerDestroy
  generalize (List.finRange workerMaxWorkers).foldl (workerDestroyEntry killed) t = t'
  dsimp only
  split <;> rfl

/-- `worker_destroy` in a worker gets through the table exactly if the worker has its loop. -/
theorem OwnAhead.workerDestroy (h : OwnAhead i loop t) (killed : Fin workerMaxWorkers → Bool) :
    (Worker.workerDestroy killed t).crashed = !loop ∧
      (loop = true → .evLoopDestroy ∈ (Worker.workerDestroy killed t).calls) := by
  obtain ⟨before, after, hentries⟩ := List.append_of_mem (List.mem_finRange i)
  have hnodup := List.nodup_finRange workerMaxWorkers
  rw [hentries, List.nodup_middle, List.nodup_cons, List.mem_append, not_or] at hnodup
  obtain ⟨⟨hbefore, -⟩, hnodup⟩ := hnodup
  have hown := h.entries hbefore killed
  rw [crashed_workerDestroy, calls_workerDestroy, hentries, List.foldl_append, List.foldl_cons]
  cases loop with
  | false =>
      have hcrashed := hown.own_of_no_loop killed
      rw [foldl_of_crashed hcrashed]
      exact ⟨hcrashed, fun hloop => absurd hloop Bool.false_ne_true⟩
  | true =>
      obtain ⟨hrunning, hothers, hdestroyed⟩ := hown.own_of_loop killed
      refine ⟨?_, fun _ => mem_calls_foldl hdestroyed killed after⟩
      rw [foldl_workerDestroyEntry hrunning hothers killed (List.nodup_append.mp hnodup).2.1]
      exact hrunning

theorem exitCleanup_of_no_loop {x : Leaving} (h : OwnAhead i false (socketClose ⟨x.process, [], false⟩))
    (cleanup : CleanupCalls) : exitCleanup cleanup x = none := by
  obtain ⟨hcrashed, -⟩ := h.workerDestroy cleanup.killed
  simp only [exitCleanup, hcrashed, Bool.not_false, if_true]

theorem exitCleanup_of_loop {x : Leaving} (h : OwnAhead i true (socketClose ⟨x.process, [], false⟩))
    (cleanup : CleanupCalls) : (exitCleanup cleanup x).isSome = cleanup.free := by
  obtain ⟨hcrashed, hdestroyed⟩ := h.workerDestroy cleanup.killed
  simp only [exitCleanup, hcrashed, hdestroyed rfl, Bool.not_true, Bool.false_eq_true, if_false, true_and]
  cases cleanup.free with
  | false => rfl
  | true => rfl

/-! ### Every way out -/

theorem connects_iff {calls : EntryCalls} {c : Child} {psWorker : WorkerStruct}
    (hown : c.image.psWorker c.i = some psWorker) :
    (workerpConnectIpcSocket (ownEntry psWorker calls) calls).2 = true ↔ calls.Connects c := by
  rw [EntryCalls.Connects, hown, Option.bind_some, workerpConnectIpcSocket]
  cases calls.socket with
  | none => simp only [Bool.false_eq_true, Option.isSome_none, false_and]
  | some fd =>
      simp only [Option.isSome_some, true_and, ownEntry]
      exact decide_eq_true_iff

/-- The loop is there exactly at the last of the three ways out. -/
theorem workerpEntry_loop {calls : EntryCalls} {c : Child} {iFd : Int} {p : Process}
    (h : workerpEntry calls c iFd = some p) :
    p.psWorkerEVLoop = true ↔ calls.chdir = true ∧ calls.Connects c := by
  cases workerpEntry_cases h with
  | noDirectory psWorker hown hchdir =>
      rw [hchdir]
      simp only [Bool.false_eq_true, false_and]
  | notConnected psWorker hown hchdir hfails =>
      rw [← connects_iff hown, hfails]
      simp only [Bool.false_eq_true, and_false]
  | loopEnded psWorker hown hchdir hconnected =>
      rw [← connects_iff hown]
      exact iff_of_true rfl ⟨hchdir, hconnected⟩

theorem socketClose_loop (p : Process) :
    (socketClose ⟨p, [], false⟩).process.psWorkerEVLoop = p.psWorkerEVLoop := by
  unfold socketClose
  split <;> rfl

theorem ownAhead_of_entry {c : Child} (hinherits : Inherits c) {entry : EntryCalls} {iFd : Int}
    {p : Process} (hp : workerpEntry entry c iFd = some p) :
    OwnAhead c.i p.psWorkerEVLoop (socketClose ⟨p, [], false⟩) := by
  obtain ⟨psWorker, htable, hme⟩ := workerpEntry_table hp
  obtain ⟨hrunning, hsame⟩ := socketClose_running p
  refine ⟨hrunning, socketClose_loop p, ?_, ?_⟩
  · refine ⟨psWorker, ?_, by rw [hme]; decide⟩
    rw [hsame, htable, c.image.set_self]
  · intro j hj psWorker' hentry
    rw [hsame, htable, c.image.set_of_ne hj] at hentry
    rcases Fin.lt_or_lt_of_ne hj with hbelow | habove
    · obtain ⟨other, hother, hnotMe, -⟩ := hinherits.below j hbelow
      cases hother.symm.trans hentry
      exact hnotMe
    · cases (hinherits.above j habove).symm.trans hentry

/-- A worker that calls `do_exit` gets to the end of `exit_cleanup` exactly if it does so after its
event loop, and `free` returns for the loop. It calls libev without a loop exactly if it calls
`do_exit` before. -/
theorem exitCleanup_ends_iff (calls : Nat → InitCalls) (iWantedWorkers : Int) {c : Child}
    (hc : c ∈ (workerInit calls iWantedWorkers).2.children) (entry : EntryCalls) (iFd : Int)
    {p : Process} (hp : workerpEntry entry c iFd = some p) (cleanup : CleanupCalls)
    (sCurrSSettings : SSettings) (logger : LoggerState) :
    ((exitCleanup cleanup ⟨p, sCurrSSettings, logger⟩).isSome = true
      ↔ (entry.chdir = true ∧ entry.Connects c) ∧ cleanup.free = true) ∧
    ((workerDestroy cleanup.killed (socketClose ⟨p, [], false⟩)).crashed = false
      ↔ entry.chdir = true ∧ entry.Connects c) := by
  have hahead := ownAhead_of_entry (workerInit_inherits hc) hp
  rw [(hahead.workerDestroy cleanup.killed).1, Bool.not_eq_false', ← workerpEntry_loop hp]
  refine ⟨?_, Iff.rfl⟩
  cases hloop : p.psWorkerEVLoop with
  | false =>
      rw [hloop] at hahead
      rw [exitCleanup_of_no_loop hahead]
      simp only [Option.isSome_none, Bool.false_eq_true, false_and]
  | true =>
      rw [hloop] at hahead
      rw [exitCleanup_of_loop hahead]
      exact (and_iff_right rfl).symm

def cleanupSucceeds : CleanupCalls := ⟨fun _ => true, true⟩

theorem exitCleanup_firstWorker : ∃ p, workerpEntry entrySucceeds firstWorker 0 = some p ∧
    (exitCleanup cleanupSucceeds ⟨p, nothingSet, .created⟩).isSome = true := by
  refine ⟨_, rfl, (exitCleanup_ends_iff allSucceed 2 (c := firstWorker) ?_ entrySucceeds 0 rfl
    cleanupSucceeds nothingSet .created).1.mpr ⟨⟨rfl, ?_⟩, rfl⟩⟩
  · exact List.mem_cons_self
  · exact ⟨rfl, by decide, rfl, rfl⟩

/-- The first worker cannot change its directory. -/
theorem exitCleanup_stops :
    ¬ ∀ (calls : Nat → InitCalls) (iWantedWorkers : Int),
      ∀ c ∈ (workerInit calls iWantedWorkers).2.children, ∀ (entry : EntryCalls) (iFd : Int) (p : Process),
      workerpEntry entry c iFd = some p → ∀ (cleanup : CleanupCalls) (sCurrSSettings : SSettings)
        (logger : LoggerState), cleanup.free = true →
        (exitCleanup cleanup ⟨p, sCurrSSettings, logger⟩).isSome = true := by
  intro hends
  have hfirst : firstWorker ∈ (workerInit allSucceed 2).2.children := List.mem_cons_self
  have hsome := hends allSucceed 2 firstWorker hfirst { entrySucceeds with chdir := false } 0 _ rfl
    cleanupSucceeds nothingSet .created rfl
  have hentry : workerpEntry { entrySucceeds with chdir := false } firstWorker 0 = some _ := rfl
  have hahead := ownAhead_of_entry (workerInit_inherits hfirst) hentry
  rw [exitCleanup_of_no_loop (i := firstWorker.i) hahead] at hsome
  cases hsome

end CewServer.Worker
