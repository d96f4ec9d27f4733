import CewServer.Worker.Admin
import Mathlib.Data.List.FinRange

/-!
# Leaving a worker

From the fork to `do_exit`: `workerp_entry` marks the worker's own entry, and every way out of it ends
in `do_exit`, whose `worker_destroy` walks over the whole table. An entry that is not marked is taken
for a worker of this process and killed, also when the process is a worker and the entry one it
inherited. The calls a teardown makes are listed in order; what is freed shows in the table.
-/

namespace CewServer.Worker

structure EntryCalls where
  getpid : Int
  chdir : Bool
  socket : Option Int
  connect : Bool
  fcntl : Bool
  /-- `ev_default_loop` makes a loop. -/
  evDefaultLoop : Bool

/-- A process with its copy of the static variables; `psWorkerEVLoop` is whether it is not NULL, and
`iFd` is the listening socket of `cew_socket.c`. -/
structure Process where
  gWorkerAdmin : WorkerAdmin
  psWorkerEVLoop : Bool
  iFd : Int

/-- `workerp_connect_ipc_socket` after the wait for the file: the entry, and whether it succeeds. -/
def workerpConnectIpcSocket (psWorker : WorkerStruct) (calls : EntryCalls) : WorkerStruct × Bool :=
  match calls.socket with
  | none => ({ psWorker with iWorkerIPCfd := -1 }, false)
  | some fd =>
      ({ psWorker with iWorkerIPCfd := fd },
        (psWorker.IPCFile.getD []).length < sunPathSize ∧ calls.connect ∧ calls.fcntl)

/-- The entry as `workerp_entry` sets it up for its own process. -/
def ownEntry (psWorker : WorkerStruct) (calls : EntryCalls) : WorkerStruct :=
  { psWorker with iMe := 1, iMasterIPCAccept := 0, iMasterIPCfd := 0, Pid := calls.getpid }

/-- `workerp_entry` in a child: the process as it calls `do_exit`. Without a loop it does not get
there: the watchers are started on NULL. -/
def workerpEntry (calls : EntryCalls) (c : Child) (iFd : Int) : Option Process :=
  match c.image.psWorker c.i with
  | none => none
  | some psWorker =>
      let psWorker := ownEntry psWorker calls
      if calls.chdir then
        let (psWorker, connected) := workerpConnectIpcSocket psWorker calls
        let gWorkerAdmin := c.image.set c.i (some psWorker)
        if connected then
          if calls.evDefaultLoop then some ⟨gWorkerAdmin, true, iFd⟩ else none
        else some ⟨gWorkerAdmin, false, iFd⟩
      else some ⟨c.image.set c.i (some psWorker), false, iFd⟩

inductive Signal where
  | sigterm
  | sigkill
  deriving DecidableEq

/-- A call that reaches outside the process, or into libev. -/
inductive Call where
  | kill (Pid : Int) (signal : Signal)
  | waitpid (Pid : Int)
  | close (fd : Int)
  | unlink (file : Option Bytes)
  | evSuspend
  | evLoopDestroy
  deriving DecidableEq

/-- A teardown under way: the calls made so far, and whether one of them crashed the process. -/
structure Teardown where
  process : Process
  calls : List Call
  crashed : Bool

def closeUnlessZero (fd : Int) : List Call := if fd = 0 then [] else [.close fd]

def stopWorker (psWorker : WorkerStruct) (killed : Bool) : List Call :=
  [.kill psWorker.Pid .sigterm] ++ (if killed then [] else [.kill psWorker.Pid .sigkill])
    ++ [.waitpid psWorker.Pid] ++ closeUnlessZero psWorker.iMasterIPCfd
    ++ closeUnlessZero psWorker.iMasterIPCAccept ++ [.unlink psWorker.IPCFile]

def Teardown.freeEntry (t : Teardown) (i : Fin workerMaxWorkers) (calls : List Call) : Teardown :=
  { t with
    process.gWorkerAdmin := t.process.gWorkerAdmin.set i none
    calls := t.calls ++ calls }

/-- The body of the loop in `worker_destroy`. `killed` is whether the first `kill` of each entry
succeeds. The worker's own entry needs its loop: libev is called with it, NULL or not. -/
def workerDestroyEntry (killed : Fin workerMaxWorkers → Bool) (t : Teardown)
    (i : Fin workerMaxWorkers) : Teardown :=
  if t.crashed then t
  else
    match t.process.gWorkerAdmin.psWorker i with
    | none => t
    | some psWorker =>
        if psWorker.iMe ≠ 0 then
          if t.process.psWorkerEVLoop then
            let t := { t with process.psWorkerEVLoop := false }
            t.freeEntry i ([.evSuspend, .evLoopDestroy] ++ closeUnlessZero psWorker.iWorkerIPCfd)
          else { t with calls := t.calls ++ [.evSuspend], crashed := true }
        else t.freeEntry i (stopWorker psWorker (killed i) ++ closeUnlessZero psWorker.iWorkerIPCfd)

def workerDestroy (killed : Fin workerMaxWorkers → Bool) (t : Teardown) : Teardown :=
  let t := (List.finRange workerMaxWorkers).foldl (workerDestroyEntry killed) t
  if t.crashed then t else { t with process.gWorkerAdmin.uiCurrWorkers := 0 }

def socketClose (t : Teardown) : Teardown :=
  if t.process.iFd > 0 then
    { t with process.iFd := 0, calls := t.calls ++ [.close t.process.iFd] }
  else t

/-- `do_exit` up to `worker_destroy`. `settings_destroy` and `logger_destroy` come after it, and neither
signals a process nor unlinks a file. -/
def doExit (killed : Fin workerMaxWorkers → Bool) (p : Process) : List Call :=
  (workerDestroy killed (socketClose ⟨p, [], false⟩)).calls

/-! ### The table a worker leaves with -/

/-- The three places where `workerp_entry` calls `do_exit`, and the process there. -/
inductive EntryExit (calls : EntryCalls) (c : Child) (iFd : Int) : Process → Prop
  | noDirectory (psWorker : WorkerStruct) (hown : c.image.psWorker c.i = some psWorker)
      (hchdir : calls.chdir = false) :
      EntryExit calls c iFd ⟨c.image.set c.i (some (ownEntry psWorker calls)), false, iFd⟩
  | notConnected (psWorker : WorkerStruct) (hown : c.image.psWorker c.i = some psWorker)
      (hchdir : calls.chdir = true)
      (hfails : (workerpConnectIpcSocket (ownEntry psWorker calls) calls).2 = false) :
      EntryExit calls c iFd
        ⟨c.image.set c.i (some (workerpConnectIpcSocket (ownEntry psWorker calls) calls).1), false, iFd⟩
  | loopEnded (psWorker : WorkerStruct) (hown : c.image.psWorker c.i = some psWorker)
      (hchdir : calls.chdir = true)
      (hconnected : (workerpConnectIpcSocket (ownEntry psWorker calls) calls).2 = true) :
      EntryExit calls c iFd
        ⟨c.image.set c.i (some (workerpConnectIpcSocket (ownEntry psWorker calls) calls).1), true, iFd⟩

theorem workerpEntry_cases {calls : EntryCalls} {c : Child} {iFd : Int} {p : Process}
    (h : workerpEntry calls c iFd = some p) : EntryExit calls c iFd p := by
  unfold workerpEntry at h
  cases hown : c.image.psWorker c.i with
  | none =>
      rw [hown] at h
      cases h
  | some psWorker =>
      simp only [hown] at h
      cases hchdir : calls.chdir with
      | false =>
          rw [hchdir, if_neg Bool.false_ne_true] at h
          obtain rfl := Option.some.inj h
          exact .noDirectory psWorker hown hchdir
      | true =>
          rw [hchdir, if_pos rfl] at h
          cases hconnected : (workerpConnectIpcSocket (ownEntry psWorker calls) calls).2 with
          | false =>
              rw [hconnected, if_neg Bool.false_ne_true] at h
              obtain rfl := Option.some.inj h
              exact .notConnected psWorker hown hchdir hconnected
          | true =>
              rw [hconnected, if_pos rfl] at h
              cases hloop : calls.evDefaultLoop with
              | false =>
                  rw [hloop, if_neg Bool.false_ne_true] at h
                  cases h
              | true =>
                  rw [hloop, if_pos rfl] at h
                  obtain rfl := Option.some.inj h
                  exact .loopEnded psWorker hown hchdir hconnected

theorem workerpConnectIpcSocket_iMe (psWorker : WorkerStruct) (calls : EntryCalls) :
    (workerpConnectIpcSocket psWorker calls).1.iMe = psWorker.iMe := by
  unfold workerpConnectIpcSocket
  split <;> rfl

/-- A worker calls `do_exit` with its own entry marked and the others as inherited. -/
theorem workerpEntry_table {calls : EntryCalls} {c : Child} {iFd : Int} {p : Process}
    (h : workerpEntry calls c iFd = some p) :
    ∃ psWorker, p.gWorkerAdmin = c.image.set c.i (some psWorker) ∧ psWorker.iMe = 1 := by
  cases workerpEntry_cases h with
  | noDirectory psWorker => exact ⟨_, rfl, rfl⟩
  | notConnected psWorker => exact ⟨_, rfl, workerpConnectIpcSocket_iMe _ calls⟩
  | loopEnded psWorker => exact ⟨_, rfl, workerpConnectIpcSocket_iMe _ calls⟩

/-! ### What a teardown calls -/

theorem mem_calls_workerDestroyEntry {t : Teardown} {call : Call} (hcall : call ∈ t.calls)
    (killed : Fin workerMaxWorkers → Bool) (i : Fin workerMaxWorkers) :
    call ∈ (workerDestroyEntry killed t i).calls := by
  unfold workerDestroyEntry
  split
  · exact hcall
  · split
    · exact hcall
    · split
      · split
        · exact List.mem_append_left _ hcall
        · exact List.mem_append_left _ hcall
      · exact List.mem_append_left _ hcall

theorem mem_calls_foldl {t : Teardown} {call : Call} (hcall : call ∈ t.calls)
    (killed : Fin workerMaxWorkers → Bool) (entries : List (Fin workerMaxWorkers)) :
    call ∈ (entries.foldl (workerDestroyEntry killed) t).calls := by
  induction entries generalizing t with
  | nil => exact hcall
  | cons i entries ih => exact ih (mem_calls_workerDestroyEntry hcall killed i)

theorem calls_workerDestroy (killed : Fin workerMaxWorkers → Bool) (t : Teardown) :
    (workerDestroy killed t).calls
      = ((List.finRange workerMaxWorkers).foldl (workerDestroyEntry killed) t).calls := by
  unfold workerDestroy
  generalize (List.finRange workerMaxWorkers).foldl (workerDestroyEntry killed) t = t'
  dsimp only
  split <;> rfl

/-- The first entry, if it is another process, is killed by whoever tears down. -/
theorem kill_first {t : Teardown} (hrunning : t.crashed = false) {psWorker : WorkerStruct}
    (hfirst : t.process.gWorkerAdmin.psWorker firstEntry = some psWorker) (hother : psWorker.iMe = 0)
    (killed : Fin workerMaxWorkers → Bool) :
    .kill psWorker.Pid .sigterm ∈ (workerDestroy killed t).calls := by
  obtain ⟨rest, hentries⟩ : ∃ rest : List (Fin workerMaxWorkers),
      List.finRange workerMaxWorkers = firstEntry :: rest := ⟨_, List.finRange_succ⟩
  rw [calls_workerDestroy, hentries, List.foldl_cons]
  have hfirstStep : .kill psWorker.Pid .sigterm
      ∈ (workerDestroyEntry killed t firstEntry).calls := by
    simp only [workerDestroyEntry, hrunning, Bool.false_eq_true, if_false, hfirst, hother, ne_eq,
      not_true_eq_false, Teardown.freeEntry, stopWorker, List.mem_append, List.mem_singleton,
      true_or, or_true]
  exact mem_calls_foldl hfirstStep killed _

/-- A call that touches another process or its file. -/
def Call.harms : Call → Bool
  | .kill _ _ | .unlink _ => true
  | _ => false

/-- A teardown of a table with only the worker's own entry in it. -/
structure Harmless (t : Teardown) : Prop where
  own : ∀ i psWorker, t.process.gWorkerAdmin.psWorker i = some psWorker → psWorker.iMe ≠ 0
  quiet : t.calls.any Call.harms = false

theorem closeUnlessZero_quiet (fd : Int) : (closeUnlessZero fd).any Call.harms = false := by
  unfold closeUnlessZero
  split <;> rfl

theorem quiet_append {calls more : List Call} (hcalls : calls.any Call.harms = false)
    (hmore : more.any Call.harms = false) : (calls ++ more).any Call.harms = false := by
  rw [List.any_append, hcalls, hmore, Bool.or_false]

theorem Harmless.entry {t : Teardown} (ht : Harmless t) (killed : Fin workerMaxWorkers → Bool)
    (i : Fin workerMaxWorkers) : Harmless (workerDestroyEntry killed t i) := by
  unfold workerDestroyEntry
  split
  · exact ht
  · split
    · exact ht
    · rename_i psWorker hentry
      have hown := ht.own i psWorker hentry
      rw [if_pos hown]
      split
      · refine ⟨?_, quiet_append ht.quiet (quiet_append rfl (closeUnlessZero_quiet _))⟩
        intro j psWorker' hj
        obtain ⟨-, hbefore⟩ := WorkerAdmin.of_set_none hj
        exact ht.own j psWorker' hbefore
      · exact ⟨ht.own, quiet_append ht.quiet rfl⟩

theorem Harmless.entries {t : Teardown} (ht : Harmless t) (killed : Fin workerMaxWorkers → Bool)
    (entries : List (Fin workerMaxWorkers)) :
    Harmless (entries.foldl (workerDestroyEntry killed) t) := by
  induction entries generalizing t with
  | nil => exact ht
  | cons i entries ih => exact ih (ht.entry killed i)

/-- What a worker must leave alone when it leaves: every other process, and every IPC file but its
own. -/
def SparesOthers (c : Child) (calls : List Call) : Prop :=
  (∀ Pid signal, Call.kill Pid signal ∉ calls) ∧
    ∀ file, Call.unlink file ∈ calls →
      ∃ psWorker, c.image.psWorker c.i = some psWorker ∧ psWorker.IPCFile = file

theorem socketClose_harmless {p : Process}
    (hown : ∀ i psWorker, p.gWorkerAdmin.psWorker i = some psWorker → psWorker.iMe ≠ 0) :
    Harmless (socketClose ⟨p, [], false⟩) := by
  unfold socketClose
  split
  · exact ⟨hown, rfl⟩
  · exact ⟨hown, rfl⟩

theorem socketClose_running (p : Process) :
    (socketClose ⟨p, [], false⟩).crashed = false ∧
      (socketClose ⟨p, [], false⟩).process.gWorkerAdmin = p.gWorkerAdmin := by
  unfold socketClose
  split <;> exact ⟨rfl, rfl⟩

/-- Only the first worker leaves the others alone: it is the one that inherits nobody. -/
theorem doExit_sparesOthers_iff (calls : Nat → InitCalls) (iWantedWorkers : Int) {c : Child}
    (hc : c ∈ (workerInit calls iWantedWorkers).2.children) (entry : EntryCalls) (iFd : Int)
    {p : Process} (hp : workerpEntry entry c iFd = some p) (killed : Fin workerMaxWorkers → Bool) :
    SparesOthers c (doExit killed p) ↔ c.i.val = 0 := by
  have hinherits := workerInit_inherits hc
  obtain ⟨psWorker, htable, hme⟩ := workerpEntry_table hp
  obtain ⟨hrunning, hsame⟩ := socketClose_running p
  constructor
  · intro hspares
    by_contra hfirst
    have hbefore : firstEntry < c.i := Nat.pos_of_ne_zero hfirst
    obtain ⟨other, hother, hnotMe, -⟩ := hinherits.below _ hbefore
    have hentry : (socketClose ⟨p, [], false⟩).process.gWorkerAdmin.psWorker firstEntry
        = some other := by
      rw [hsame, htable, c.image.set_of_ne (Fin.ne_of_lt hbefore)]
      exact hother
    exact hspares.1 _ _ (kill_first hrunning hentry hnotMe killed)
  · intro hfirst
    have hown : ∀ i psWorker, p.gWorkerAdmin.psWorker i = some psWorker → psWorker.iMe ≠ 0 := by
      intro i psWorker' hi
      rw [htable] at hi
      by_cases hic : i = c.i
      · subst hic
        rw [c.image.set_self] at hi
        cases hi
        rw [hme]
        decide
      · have habove : c.i < i := by
          have hne := Fin.val_ne_of_ne hic
          exact Fin.lt_def.mpr (by omega)
        rw [c.image.set_of_ne hic, hinherits.above i habove] at hi
        cases hi
    have hquiet := ((socketClose_harmless hown).entries killed (List.finRange workerMaxWorkers)).quiet
    rw [← calls_workerDestroy, List.any_eq_false] at hquiet
    refine ⟨fun Pid signal hkill => hquiet _ hkill rfl, fun file hunlink => ?_⟩
    exact absurd rfl (hquiet _ hunlink)

def entrySucceeds : EntryCalls where
  getpid := 100
  chdir := true
  socket := some 5
  connect := true
  fcntl := true
  evDefaultLoop := true

def firstWorker : Child := ⟨firstEntry, 100, WorkerAdmin.zero.set firstEntry (some (newWorker 0 0))⟩

theorem doExit_sparesOthers_firstWorker :
    ∃ p, workerpEntry entrySucceeds firstWorker 0 = some p ∧
      SparesOthers firstWorker (doExit (fun _ => true) p) := by
  refine ⟨_, rfl, (doExit_sparesOthers_iff allSucceed 2 (c := firstWorker) ?_ entrySucceeds 0 rfl
    (fun _ => true)).mpr rfl⟩
  exact List.mem_cons_self

def firstStarted : WorkerStruct :=
  { newWorker 0 0 with Pid := 100, iMasterIPCAccept := 10, iMasterIPCfd := 11 }

/-- The child of the second round, which inherits the first worker. -/
def secondWorker : Child where
  i := ⟨1, by decide⟩
  pid := 101
  image := WorkerAdmin.set ⟨1, (WorkerAdmin.zero.set firstEntry (some firstStarted)).psWorker⟩
    ⟨1, by decide⟩ (some (newWorker 1 1))

theorem doExit_kills_sibling :
    ¬ ∀ (calls : Nat → InitCalls) (iWantedWorkers : Int), 1 ≤ iWantedWorkers → iWantedWorkers ≤ 64 →
      ∀ c ∈ (workerInit calls iWantedWorkers).2.children, ∀ (entry : EntryCalls) (iFd : Int) (p : Process),
      workerpEntry entry c iFd = some p → ∀ killed, SparesOthers c (doExit killed p) := by
  intro hspares
  have hsecond : secondWorker ∈ (workerInit allSucceed 2).2.children :=
    List.mem_cons_of_mem _ List.mem_cons_self
  obtain ⟨hkill, -⟩ := hspares allSucceed 2 (by decide) (by decide) secondWorker hsecond
    { entrySucceeds with getpid := 101 } 0 _ rfl (fun _ => true)
  apply hkill firstStarted.Pid .sigterm
  exact kill_first rfl rfl rfl _

end CewServer.Worker
