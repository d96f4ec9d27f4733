import CewServer.Worker.Admin

/-!
# What `worker_init` leaves behind

`worker_init` returns after its last round, or in the first round that fails. The rounds before that
have each left a full entry and a running child. The round that fails leaves no entry; but when it
fails in `worker_create_ipc_socket` it has forked, and its child is left as well.
-/

namespace CewServer.Worker

/-- The calls of `worker_create_ipc_socket` before `accept` succeed. -/
def InitCalls.IpcReady (calls : InitCalls) : Prop :=
  calls.socket.isSome = true ∧ (ipcFileName calls.random).length < sunPathSize ∧
    calls.ipcFolder = true ∧ calls.bind = true ∧ calls.chmod = true ∧ calls.listen = true

instance (calls : InitCalls) : Decidable calls.IpcReady :=
  inferInstanceAs (Decidable (_ ∧ _ ∧ _ ∧ _ ∧ _ ∧ _))

/-- The entry of a round in which every call succeeds. -/
def InitCalls.recorded (calls : InitCalls) (i : Nat) : Option WorkerStruct :=
  match calls.fork, calls.socket, calls.accept with
  | some pid, some socket, some accept =>
      if calls.malloc = true ∧ calls.IpcReady then
        some { newWorker i calls.random with
          Pid := pid, iMasterIPCAccept := socket, iMasterIPCfd := accept }
      else none
  | _, _, _ => none

theorem InitCalls.recorded_cases {calls : InitCalls} {i : Nat} {psWorker : WorkerStruct}
    (h : calls.recorded i = some psWorker) :
    ∃ pid socket accept, calls.fork = some pid ∧ calls.socket = some socket ∧
      calls.accept = some accept ∧ calls.malloc = true ∧ calls.IpcReady ∧
      psWorker = { newWorker i calls.random with
        Pid := pid, iMasterIPCAccept := socket, iMasterIPCfd := accept } := by
  unfold InitCalls.recorded at h
  split at h
  · rename_i pid socket accept hfork hsocket haccept
    split at h
    · rename_i hready
      cases h
      exact ⟨pid, socket, accept, hfork, hsocket, haccept, hready.1, hready.2, rfl⟩
    · cases h
  · cases h

/-- A round that forks a child and then cannot make its socket. -/
structure InitCalls.Abandons (calls : InitCalls) (pid : Int) : Prop where
  malloc : calls.malloc = true
  fork : calls.fork = some pid
  ipc : ¬ calls.IpcReady

theorem workerCreateIpcSocket_eq (calls : InitCalls) (i : Nat) (pid : Int) :
    workerCreateIpcSocket { newWorker i calls.random with Pid := pid } calls
        = match calls.socket, calls.accept with
          | none, _ => .failed { newWorker i calls.random with Pid := pid, iMasterIPCAccept := -1 }
          | some socket, accept =>
              if calls.IpcReady then
                match accept with
                | none => .exited
                | some accept => .created { newWorker i calls.random with
                    Pid := pid, iMasterIPCAccept := socket, iMasterIPCfd := accept }
              else .failed { newWorker i calls.random with Pid := pid, iMasterIPCAccept := socket } := by
  unfold workerCreateIpcSocket
  cases hsocket : calls.socket with
  | none => rfl
  | some socket =>
      simp only [InitCalls.IpcReady, hsocket, Option.isSome_some, true_and]
      rfl

/-- What a round of `worker_init` can do. -/
inductive RoundMove (calls : InitCalls) (i : Fin workerMaxWorkers) (m : Master) :
    Except (InitRet × Master) Master → Prop
  | recorded (psWorker : WorkerStruct) (pid : Int) (hfork : calls.fork = some pid)
      (hentry : calls.recorded i = some psWorker) (image : WorkerAdmin) :
      RoundMove calls i m (.ok
        ⟨{ m.gWorkerAdmin.set i (some psWorker) with
            uiCurrWorkers := m.gWorkerAdmin.uiCurrWorkers + 1 }, m.children ++ [⟨i, pid, image⟩]⟩)
  | noChild (hnone : calls.malloc = false ∨ calls.fork = none) :
      RoundMove calls i m
        (.error (.exitFailure, { m with gWorkerAdmin := m.gWorkerAdmin.set i none }))
  | abandoned (pid : Int) (hleft : calls.Abandons pid) (image : WorkerAdmin) :
      RoundMove calls i m
        (.error (.exitFailure, ⟨m.gWorkerAdmin.set i none, m.children ++ [⟨i, pid, image⟩]⟩))
  | exited (hready : calls.IpcReady) (haccept : calls.accept = none) (m' : Master) :
      RoundMove calls i m (.error (.exited, m'))

theorem workerInitRound_cases (calls : InitCalls) (i : Fin workerMaxWorkers) (m : Master) :
    RoundMove calls i m (workerInitRound calls i m) := by
  unfold workerInitRound
  rw [dif_pos i.isLt]
  dsimp only
  by_cases hmalloc : calls.malloc = true
  · rw [if_pos hmalloc]
    cases hfork : calls.fork with
    | none => exact .noChild (.inr hfork)
    | some pid =>
        dsimp only
        rw [workerCreateIpcSocket_eq]
        cases hsocket : calls.socket with
        | none =>
            refine .abandoned pid ⟨hmalloc, hfork, fun hready => ?_⟩ _
            have hsome := hready.1
            rw [hsocket] at hsome
            cases hsome
        | some socket =>
            by_cases hready : calls.IpcReady
            · cases haccept : calls.accept with
              | none =>
                  simp only [if_pos hready]
                  exact .exited hready haccept _
              | some accept =>
                  simp only [if_pos hready]
                  refine .recorded _ pid hfork ?_ _
                  simp only [InitCalls.recorded, hfork, hsocket, haccept, hmalloc, hready, and_self,
                    if_true]
            · simp only [if_neg hready]
              exact .abandoned pid ⟨hmalloc, hfork, hready⟩ _
  · rw [if_neg hmalloc]
    exact .noChild (.inl (Bool.eq_false_iff.mpr hmalloc))

/-- The master after a number of rounds that all succeeded. -/
structure Built (calls : Nat → InitCalls) (k : Nat) (m : Master) : Prop where
  succeeded : ∀ j < k, ((calls j).recorded j).isSome = true
  entries : ∀ j : Fin workerMaxWorkers,
    m.gWorkerAdmin.psWorker j = if j.val < k then (calls j).recorded j else none
  count : m.gWorkerAdmin.uiCurrWorkers = UInt32.ofNat k
  children : ∀ c ∈ m.children, c.i.val < k ∧ (calls c.i).fork = some c.pid

/-- How `worker_init` ends: the master it leaves, and the round in which it fails if it does. -/
inductive InitEnd (calls : Nat → InitCalls) (n : Nat) : InitRet → Master → Prop
  | success {m : Master} (hm : Built calls n m) : InitEnd calls n .exitSuccess m
  | noChild {k : Nat} {m : Master} (hk : k < n) (hm : Built calls k m)
      (hnone : (calls k).malloc = false ∨ (calls k).fork = none) : InitEnd calls n .exitFailure m
  | abandoned {k : Nat} {m : Master} {c : Child} (hk : k < n) (hm : Built calls k m)
      (hi : c.i.val = k) (hleft : (calls k).Abandons c.pid) :
      InitEnd calls n .exitFailure ⟨m.gWorkerAdmin, m.children ++ [c]⟩
  | exited {k : Nat} {m m' : Master} (hk : k < n) (hm : Built calls k m) (hready : (calls k).IpcReady)
      (haccept : (calls k).accept = none) : InitEnd calls n .exited m'

theorem Built.next {calls : Nat → InitCalls} {i : Fin workerMaxWorkers} {m : Master}
    (hm : Built calls i m) {psWorker : WorkerStruct} {pid : Int} (hfork : (calls i).fork = some pid)
    (hentry : (calls i).recorded i = some psWorker) (image : WorkerAdmin) :
    Built calls (i.val + 1) ⟨{ m.gWorkerAdmin.set i (some psWorker) with
      uiCurrWorkers := m.gWorkerAdmin.uiCurrWorkers + 1 }, m.children ++ [⟨i, pid, image⟩]⟩ where
  succeeded := by
    intro j hj
    rcases Nat.lt_succ_iff_lt_or_eq.mp hj with hlt | rfl
    · exact hm.succeeded j hlt
    · rw [hentry]
      rfl
  entries := by
    intro j
    show (m.gWorkerAdmin.set i (some psWorker)).psWorker j = _
    by_cases hji : j = i
    · subst hji
      rw [WorkerAdmin.set_self, if_pos (Nat.lt_succ_self _), hentry]
    · have hne := Fin.val_ne_of_ne hji
      have hlt : j.val < i.val ↔ j.val < i.val + 1 := by omega
      rw [WorkerAdmin.set_of_ne _ hji, hm.entries]
      simp only [hlt]
  count := by
    show m.gWorkerAdmin.uiCurrWorkers + 1 = _
    rw [hm.count, uint32_ofNat_succ]
  children := by
    intro c hc
    rcases List.mem_append.mp hc with hold | hnew
    · obtain ⟨hlt, hpid⟩ := hm.children c hold
      exact ⟨Nat.lt_succ_of_lt hlt, hpid⟩
    · rw [List.mem_singleton.mp hnew]
      exact ⟨Nat.lt_succ_self _, hfork⟩

/-- Clearing the entry of the round that fails changes nothing: it was not filled yet. -/
theorem Built.clear {calls : Nat → InitCalls} {i : Fin workerMaxWorkers} {m : Master}
    (hm : Built calls i m) : m.gWorkerAdmin.set i none = m.gWorkerAdmin := by
  have hnone := hm.entries i
  rw [if_neg (Nat.lt_irrefl _)] at hnone
  have hupdate : Function.update m.gWorkerAdmin.psWorker i none = m.gWorkerAdmin.psWorker :=
    Function.update_eq_self_iff.mpr hnone.symm
  rw [WorkerAdmin.set, hupdate]

theorem workerInitLoop_ends {calls : Nat → InitCalls} {rounds i : Nat} {m : Master}
    (hm : Built calls i m) (hrounds : i + rounds ≤ workerMaxWorkers) :
    InitEnd calls (i + rounds) (workerInitLoop calls rounds i m).1
      (workerInitLoop calls rounds i m).2 := by
  induction rounds generalizing i m with
  | zero => exact .success hm
  | succ rounds ih =>
      have hi : i < workerMaxWorkers := by omega
      have hk : i < i + (rounds + 1) := by omega
      have hround : RoundMove (calls i) ⟨i, hi⟩ m (workerInitRound (calls i) i m) :=
        workerInitRound_cases (calls i) ⟨i, hi⟩ m
      have hclear := Built.clear (i := ⟨i, hi⟩) hm
      rw [workerInitLoop]
      generalize workerInitRound (calls i) i m = result at hround ⊢
      cases hround with
      | recorded psWorker pid hfork hentry image =>
          have hnext : Built calls (i + 1) _ := Built.next (i := ⟨i, hi⟩) hm hfork hentry image
          have hrest := ih hnext (by omega)
          rw [Nat.add_right_comm, Nat.add_assoc] at hrest
          exact hrest
      | noChild hnone =>
          dsimp only
          rw [hclear]
          exact .noChild hk hm hnone
      | abandoned pid hleft image =>
          dsimp only
          rw [hclear]
          exact .abandoned hk hm rfl hleft
      | exited hready haccept m' => exact .exited hk hm hready haccept

theorem built_zero (calls : Nat → InitCalls) : Built calls 0 ⟨.zero, []⟩ where
  succeeded := fun _ hj => absurd hj (Nat.not_lt_zero _)
  entries := fun _ => rfl
  count := rfl
  children := fun _ hc => absurd hc List.not_mem_nil

theorem workerInit_ends (calls : Nat → InitCalls) {iWantedWorkers : Int}
    (hfits : iWantedWorkers ≤ 64) :
    InitEnd calls iWantedWorkers.toNat (workerInit calls iWantedWorkers).1
      (workerInit calls iWantedWorkers).2 := by
  have hrounds : 0 + iWantedWorkers.toNat ≤ workerMaxWorkers := by
    rw [Nat.zero_add]
    exact Int.toNat_le.mpr hfits
  have hloop := workerInitLoop_ends (built_zero calls) hrounds
  rw [Nat.zero_add] at hloop
  exact hloop

end CewServer.Worker
