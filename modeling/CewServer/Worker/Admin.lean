import CewServer.Lib.Bytes
import Mathlib.Logic.Function.Basic

/-!
# The worker table

`gWorkerAdmin` of `cew_worker.c` and `worker_init`, which fills it. Each round of the loop allocates an
entry, forks, and connects the entry to the child; what the calls of a round return is an `InitCalls`.
The child starts with the table as it is at its fork: the entries of the workers before it are filled
in, its own has no pid yet, and there are none after it. `children` keeps, for each fork, the table the
child was given.
-/

namespace CewServer.Worker

def workerMaxWorkers : Nat := 64

def firstEntry : Fin workerMaxWorkers := ⟨0, by decide⟩

structure WorkerStruct where
  uiId : Nat
  Pid : Int
  iMasterIPCAccept : Int
  iMasterIPCfd : Int
  iWorkerIPCfd : Int
  iMe : Int
  IPCFile : Option Bytes
  deriving DecidableEq

structure WorkerAdmin where
  uiCurrWorkers : UInt32
  psWorker : Fin workerMaxWorkers → Option WorkerStruct

def WorkerAdmin.zero : WorkerAdmin := ⟨0, fun _ => none⟩

def WorkerAdmin.set (admin : WorkerAdmin) (i : Fin workerMaxWorkers) (entry : Option WorkerStruct) :
    WorkerAdmin :=
  { admin with psWorker := Function.update admin.psWorker i entry }

theorem WorkerAdmin.set_self (admin : WorkerAdmin) (i : Fin workerMaxWorkers)
    (entry : Option WorkerStruct) : (admin.set i entry).psWorker i = entry := Function.update_self ..

theorem WorkerAdmin.set_of_ne (admin : WorkerAdmin) {i j : Fin workerMaxWorkers} (h : j ≠ i)
    (entry : Option WorkerStruct) : (admin.set i entry).psWorker j = admin.psWorker j :=
  Function.update_of_ne h ..

/-- What is in the table after an entry was cleared was there before, elsewhere. -/
theorem WorkerAdmin.of_set_none {admin : WorkerAdmin} {i j : Fin workerMaxWorkers}
    {psWorker : WorkerStruct} (h : (admin.set i none).psWorker j = some psWorker) :
    j ≠ i ∧ admin.psWorker j = some psWorker := by
  by_cases hji : j = i
  · rw [hji, set_self] at h
    cases h
  · rw [set_of_ne _ hji] at h
    exact ⟨hji, h⟩

/-- What the calls in one round of `worker_init` return; a descriptor or a pid is `none` for `-1`. -/
structure InitCalls where
  malloc : Bool
  random : Nat
  fork : Option Int
  socket : Option Int
  /-- The folder of the IPC files is there or could be made. -/
  ipcFolder : Bool
  bind : Bool
  chmod : Bool
  listen : Bool
  accept : Option Int

def workerIpcFolder : Bytes := Bytes.ascii "/run/cewserver"

def workerIpcFile : Bytes := Bytes.ascii "cew_worker"

def ipcFileName (random : Nat) : Bytes :=
  workerIpcFolder ++ Bytes.ascii "/" ++ workerIpcFile ++ Bytes.ascii "_" ++ Bytes.decimal random

def sunPathSize : Nat := 108

/-- What comes of `worker_create_ipc_socket`: its entry, or the end of the process. -/
inductive IpcSocket where
  | created (psWorker : WorkerStruct)
  | failed (psWorker : WorkerStruct)
  | exited

def workerCreateIpcSocket (psWorker : WorkerStruct) (calls : InitCalls) : IpcSocket :=
  match calls.socket with
  | none => .failed { psWorker with iMasterIPCAccept := -1 }
  | some fd =>
      let psWorker := { psWorker with iMasterIPCAccept := fd }
      if (psWorker.IPCFile.getD []).length < sunPathSize ∧ calls.ipcFolder ∧ calls.bind ∧ calls.chmod
          ∧ calls.listen then
        match calls.accept with
        | none => .exited
        | some fd => .created { psWorker with iMasterIPCfd := fd }
      else .failed psWorker

/-- A forked worker: its place in the table, its pid, and the table it inherited. -/
structure Child where
  i : Fin workerMaxWorkers
  pid : Int
  image : WorkerAdmin

structure Master where
  gWorkerAdmin : WorkerAdmin
  children : List Child

inductive InitRet where
  | exitSuccess
  | exitFailure
  | exited
  /-- The table was indexed outside its bounds. -/
  | outOfBounds
  deriving DecidableEq

def newWorker (i random : Nat) : WorkerStruct where
  uiId := i
  Pid := 0
  iMasterIPCAccept := 0
  iMasterIPCfd := 0
  iWorkerIPCfd := 0
  iMe := 0
  IPCFile := some (ipcFileName random)

/-- One round of the loop in `worker_init`: the master goes on to the next round, or returns. -/
def workerInitRound (calls : InitCalls) (i : Nat) (m : Master) : Except (InitRet × Master) Master :=
  if h : i < workerMaxWorkers then
    let i : Fin workerMaxWorkers := ⟨i, h⟩
    if calls.malloc then
      let psWorker := newWorker i calls.random
      match calls.fork with
      | none => .error (.exitFailure, { m with gWorkerAdmin := m.gWorkerAdmin.set i none })
      | some pid =>
          let children := m.children ++ [⟨i, pid, m.gWorkerAdmin.set i (some psWorker)⟩]
          let psWorker := { psWorker with Pid := pid }
          match workerCreateIpcSocket psWorker calls with
          | .created psWorker =>
              let gWorkerAdmin := m.gWorkerAdmin.set i (some psWorker)
              .ok ⟨{ gWorkerAdmin with uiCurrWorkers := gWorkerAdmin.uiCurrWorkers + 1 }, children⟩
          | .failed _ => .error (.exitFailure, ⟨m.gWorkerAdmin.set i none, children⟩)
          | .exited => .error (.exited, ⟨m.gWorkerAdmin.set i (some psWorker), children⟩)
    else .error (.exitFailure, { m with gWorkerAdmin := m.gWorkerAdmin.set i none })
  else .error (.outOfBounds, m)

/-- The loop of `worker_init`, from one round on with a number of rounds to go. -/
def workerInitLoop (calls : Nat → InitCalls) : Nat → Nat → Master → InitRet × Master
  | 0, _, m => (.exitSuccess, m)
  | rounds + 1, i, m =>
      match workerInitRound (calls i) i m with
      | .error result => result
      | .ok m => workerInitLoop calls rounds (i + 1) m

/-- `worker_init`, from the program's start. -/
def workerInit (calls : Nat → InitCalls) (iWantedWorkers : Int) : InitRet × Master :=
  workerInitLoop calls iWantedWorkers.toNat 0 ⟨.zero, []⟩

/-! ### The table after a number of rounds -/

def IsOther (j : Fin workerMaxWorkers) (entry : Option WorkerStruct) : Prop :=
  ∃ psWorker, entry = some psWorker ∧ psWorker.iMe = 0 ∧ psWorker.uiId = j

/-- A table whose workers are the first so many, all of them other processes. -/
structure Filled (count : Nat) (admin : WorkerAdmin) : Prop where
  below : ∀ j : Fin workerMaxWorkers, j.val < count → IsOther j (admin.psWorker j)
  above : ∀ j : Fin workerMaxWorkers, count ≤ j.val → admin.psWorker j = none

/-- A worker inherits the workers before it and its own fresh entry. -/
structure Inherits (c : Child) : Prop where
  below : ∀ j : Fin workerMaxWorkers, j < c.i → IsOther j (c.image.psWorker j)
  own : ∃ random, c.image.psWorker c.i = some (newWorker c.i random)
  above : ∀ j : Fin workerMaxWorkers, c.i < j → c.image.psWorker j = none

structure RoundOk (i : Nat) (m : Master) : Prop where
  filled : Filled i m.gWorkerAdmin
  count : m.gWorkerAdmin.uiCurrWorkers = UInt32.ofNat i
  inherits : ∀ c ∈ m.children, Inherits c

theorem Filled.inherits {i : Fin workerMaxWorkers} {admin : WorkerAdmin} (h : Filled i.val admin)
    (pid : Int) (random : Nat) :
    Inherits ⟨i, pid, admin.set i (some (newWorker i random))⟩ where
  below := by
    intro j hj
    rw [admin.set_of_ne (Fin.ne_of_lt hj)]
    exact h.below j hj
  own := ⟨random, admin.set_self i _⟩
  above := by
    intro j hj
    rw [admin.set_of_ne (Fin.ne_of_gt hj)]
    exact h.above j (Nat.le_of_lt hj)

theorem Filled.push {i : Fin workerMaxWorkers} {admin : WorkerAdmin} (h : Filled i.val admin)
    {psWorker : WorkerStruct} (hother : IsOther i (some psWorker)) (uiCurrWorkers : UInt32) :
    Filled (i.val + 1) { admin.set i (some psWorker) with uiCurrWorkers := uiCurrWorkers } where
  below := by
    intro j hj
    by_cases hji : j = i
    · subst hji
      rw [admin.set_self]
      exact hother
    · rw [admin.set_of_ne hji]
      exact h.below j (Nat.lt_of_le_of_ne (Nat.le_of_lt_succ hj) (Fin.val_ne_of_ne hji))
  above := by
    intro j hj
    rw [admin.set_of_ne (Fin.ne_of_gt hj)]
    exact h.above j (Nat.le_of_succ_le hj)

theorem workerCreateIpcSocket_created {psWorker psWorker' : WorkerStruct} {calls : InitCalls}
    (h : workerCreateIpcSocket psWorker calls = .created psWorker') :
    psWorker'.iMe = psWorker.iMe ∧ psWorker'.uiId = psWorker.uiId := by
  unfold workerCreateIpcSocket at h
  split at h
  · cases h
  · dsimp only at h
    split at h
    · split at h
      · cases h
      · cases h
        exact ⟨rfl, rfl⟩
    · cases h

theorem uint32_ofNat_succ (i : Nat) : UInt32.ofNat i + 1 = UInt32.ofNat (i + 1) := by
  rw [UInt32.ofNat_add]
  rfl

/-- The child a round forks, and those before it. -/
theorem RoundOk.forked {i : Fin workerMaxWorkers} {m : Master} (hm : RoundOk i.val m) (pid : Int)
    (random : Nat) :
    ∀ c ∈ m.children ++ [⟨i, pid, m.gWorkerAdmin.set i (some (newWorker i random))⟩], Inherits c := by
  intro c hc
  rcases List.mem_append.mp hc with hold | hnew
  · exact hm.inherits c hold
  · rw [List.mem_singleton.mp hnew]
    exact hm.filled.inherits pid random

/-- A round that is followed by another has filled one more entry. -/
theorem RoundOk.next {calls : InitCalls} {i : Nat} {m m' : Master} (hm : RoundOk i m)
    (h : workerInitRound calls i m = .ok m') : i < workerMaxWorkers ∧ RoundOk (i + 1) m' := by
  unfold workerInitRound at h
  split at h
  · rename_i hi
    refine ⟨hi, ?_⟩
    dsimp only at h
    split at h
    · split at h
      · cases h
      · rename_i pid hfork
        split at h
        · rename_i psWorker hcreated
          cases h
          obtain ⟨hme, hid⟩ := workerCreateIpcSocket_created hcreated
          refine ⟨Filled.push (i := ⟨i, hi⟩) hm.filled ⟨psWorker, rfl, hme, hid⟩ _, ?_,
            RoundOk.forked (i := ⟨i, hi⟩) hm pid calls.random⟩
          show m.gWorkerAdmin.uiCurrWorkers + 1 = _
          rw [hm.count, uint32_ofNat_succ]
        · cases h
        · cases h
    · cases h
  · cases h

/-- A round that returns does not return success, and its child too inherits the workers before it. -/
theorem RoundOk.stop {calls : InitCalls} {i : Nat} {m : Master} {result : InitRet × Master}
    (hm : RoundOk i m) (h : workerInitRound calls i m = .error result) :
    result.1 ≠ .exitSuccess ∧ ∀ c ∈ result.2.children, Inherits c := by
  unfold workerInitRound at h
  split at h
  · rename_i hi
    have hforked := RoundOk.forked (i := ⟨i, hi⟩) hm
    dsimp only at h
    split at h
    · split at h
      · cases h
        exact ⟨InitRet.noConfusion, hm.inherits⟩
      · split at h
        · cases h
        · cases h
          exact ⟨InitRet.noConfusion, hforked _ _⟩
        · cases h
          exact ⟨InitRet.noConfusion, hforked _ _⟩
    · cases h
      exact ⟨InitRet.noConfusion, hm.inherits⟩
  · cases h
    exact ⟨InitRet.noConfusion, hm.inherits⟩

theorem workerInitLoop_inherits {calls : Nat → InitCalls} {rounds i : Nat} {m : Master}
    (hm : RoundOk i m) : ∀ c ∈ (workerInitLoop calls rounds i m).2.children, Inherits c := by
  induction rounds generalizing i m with
  | zero => exact hm.inherits
  | succ rounds ih =>
      rw [workerInitLoop]
      split
      · rename_i result hround
        exact (hm.stop hround).2
      · rename_i m' hround
        exact ih (hm.next hround).2

theorem workerInitLoop_success {calls : Nat → InitCalls} {rounds i : Nat} {m m' : Master}
    (hm : RoundOk i m) (hi : i ≤ workerMaxWorkers)
    (h : workerInitLoop calls rounds i m = (.exitSuccess, m')) :
    i + rounds ≤ workerMaxWorkers ∧ RoundOk (i + rounds) m' := by
  induction rounds generalizing i m with
  | zero =>
      cases h
      exact ⟨hi, hm⟩
  | succ rounds ih =>
      rw [workerInitLoop] at h
      split at h
      · rename_i result hround
        exact absurd (congrArg Prod.fst h) (hm.stop hround).1
      · rename_i m'' hround
        obtain ⟨hlt, hnext⟩ := hm.next hround
        have hrest := ih hnext hlt h
        rw [Nat.add_assoc, Nat.add_comm 1] at hrest
        exact hrest

theorem roundOk_zero : RoundOk 0 ⟨.zero, []⟩ where
  filled := ⟨fun _ hj => absurd hj (Nat.not_lt_zero _), fun _ _ => rfl⟩
  count := rfl
  inherits := fun _ hc => absurd hc List.not_mem_nil

theorem workerInit_inherits {calls : Nat → InitCalls} {iWantedWorkers : Int} {c : Child}
    (hc : c ∈ (workerInit calls iWantedWorkers).2.children) : Inherits c :=
  workerInitLoop_inherits roundOk_zero c hc

theorem workerInit_success {calls : Nat → InitCalls} {n : Nat} {m : Master}
    (h : workerInit calls n = (.exitSuccess, m)) :
    n ≤ workerMaxWorkers ∧ Filled n m.gWorkerAdmin ∧
      m.gWorkerAdmin.uiCurrWorkers = UInt32.ofNat n := by
  have hloop := workerInitLoop_success roundOk_zero (Nat.zero_le _) h
  rw [Nat.zero_add] at hloop
  exact ⟨hloop.1, hloop.2.filled, hloop.2.count⟩

/-- Calls that all succeed: pids from 100 on, descriptors from 10 on. -/
def allSucceed (i : Nat) : InitCalls where
  malloc := true
  random := i
  fork := some (100 + i)
  socket := some (10 + 2 * i)
  ipcFolder := true
  bind := true
  chmod := true
  listen := true
  accept := some (11 + 2 * i)

example : (workerInit allSucceed 3).1 = .exitSuccess ∧
    (workerInit allSucceed 3).2.gWorkerAdmin.uiCurrWorkers = 3 := by decide

end CewServer.Worker
