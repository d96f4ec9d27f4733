import CewServer.Worker.Shutdown

/-!
# Children without an entry

When a round of `worker_init` fails after its fork, the entry is freed like that of a round that fails
before it, and with it goes the only record of the child. `worker_destroy` goes by the table, so this
child is neither signalled nor waited for.
-/

namespace CewServer.Worker

def InitRet.returns : InitRet → Bool
  | .exitSuccess | .exitFailure => true
  | .exited | .outOfBounds => false

def Recorded (admin : WorkerAdmin) (pid : Int) : Prop :=
  ∃ i psWorker, admin.psWorker i = some psWorker ∧ psWorker.Pid = pid

/-- The child is signalled and waited for when the master leaves. -/
def LookedAfter (admin : WorkerAdmin) (pid : Int) : Prop :=
  ∀ killed iFd, .kill pid .sigterm ∈ doExit killed ⟨admin, false, iFd⟩ ∧
    .waitpid pid ∈ doExit killed ⟨admin, false, iFd⟩

/-- Every child that still runs has its pid in the table, and is looked after. -/
def NoOrphan (running : Int → Bool) (m : Master) : Prop :=
  ∀ c ∈ m.children, running c.pid = true →
    Recorded m.gWorkerAdmin c.pid ∧ LookedAfter m.gWorkerAdmin c.pid

theorem Recorded.lookedAfter {admin : WorkerAdmin} (hothers : NoneMarked admin) {pid : Int}
    (h : Recorded admin pid) : LookedAfter admin pid := by
  obtain ⟨i, psWorker, hentry, rfl⟩ := h
  intro killed iFd
  obtain ⟨hrunning, hsame⟩ := socketClose_running ⟨admin, false, iFd⟩
  have hothers' : NoneMarked (socketClose ⟨⟨admin, false, iFd⟩, [], false⟩).process.gWorkerAdmin := by
    rw [hsame]
    exact hothers
  have hmem : ∀ call ∈ stopWorker psWorker (killed i), call ∈ doExit killed ⟨admin, false, iFd⟩ := by
    intro call hcall
    rw [doExit, workerDestroy_master hrunning hothers', hsame]
    refine List.mem_append_right _ (List.mem_flatMap.mpr ⟨i, List.mem_finRange i, ?_⟩)
    rw [hentry]
    exact List.mem_append_left _ hcall
  constructor
  · apply hmem
    simp only [stopWorker, List.mem_append, List.mem_singleton, true_or]
  · apply hmem
    simp only [stopWorker, List.mem_append, List.mem_singleton, true_or, or_true]

theorem Built.recorded {calls : Nat → InitCalls} {k : Nat} {m : Master} (hm : Built calls k m)
    {c : Child} (hc : c ∈ m.children) : Recorded m.gWorkerAdmin c.pid := by
  obtain ⟨hlt, hfork⟩ := hm.children c hc
  obtain ⟨psWorker, hentry⟩ := Option.isSome_iff_exists.mp (hm.succeeded _ hlt)
  refine ⟨c.i, psWorker, ?_, ?_⟩
  · rw [hm.entries, if_pos hlt, hentry]
  · obtain ⟨pid, socket, accept, hpid, -, -, -, -, rfl⟩ := InitCalls.recorded_cases hentry
    exact Option.some.inj (hpid.symm.trans hfork)

/-- The pid of a round that has no entry is in no entry. -/
theorem Built.not_recorded {calls : Nat → InitCalls} {k : Nat} {m : Master} (hm : Built calls k m)
    (hpids : ∀ i j pid, (calls i).fork = some pid → (calls j).fork = some pid → i = j) {pid : Int}
    (hfork : (calls k).fork = some pid) : ¬ Recorded m.gWorkerAdmin pid := by
  rintro ⟨i, psWorker, hentry, rfl⟩
  rw [hm.entries] at hentry
  split at hentry
  · rename_i hlt
    obtain ⟨pid, socket, accept, hpid, -, -, -, -, rfl⟩ := InitCalls.recorded_cases hentry
    exact absurd (hpids _ _ _ hpid hfork) (Nat.ne_of_lt hlt)
  · cases hentry

theorem InitCalls.Abandons.not_recorded {calls : InitCalls} {pid : Int} (h : calls.Abandons pid)
    (i : Nat) : (calls.recorded i).isSome ≠ true := by
  intro hsome
  obtain ⟨psWorker, hentry⟩ := Option.isSome_iff_exists.mp hsome
  obtain ⟨_, _, _, -, -, -, -, hready, -⟩ := InitCalls.recorded_cases hentry
  exact h.ipc hready

/-- The round that abandons a child, with every round before it a success, is the one in which
`worker_init` ends. -/
theorem InitEnd.of_abandons {calls : Nat → InitCalls} {n k : Nat} {ret : InitRet} {m : Master}
    (hend : InitEnd calls n ret m) (hk : k < n)
    (hbefore : ∀ j < k, ((calls j).recorded j).isSome = true) {pid : Int}
    (hleft : (calls k).Abandons pid) :
    ret = .exitFailure ∧ ∃ c ∈ m.children, c.pid = pid ∧ ∃ m', Built calls k m' ∧
      m.gWorkerAdmin = m'.gWorkerAdmin := by
  -- two rounds that end `worker_init` are the same
  have hlast : ∀ {k' m'}, Built calls k' m' → ((calls k').recorded k').isSome ≠ true → k' = k := by
    intro k' m' hm' hfails
    rcases Nat.lt_trichotomy k' k with hlt | heq | hgt
    · exact absurd (hbefore k' hlt) hfails
    · exact heq
    · exact absurd (hm'.succeeded k hgt) (hleft.not_recorded k)
  cases hend with
  | success hm => exact absurd (hm.succeeded k hk) (hleft.not_recorded k)
  | @noChild k' m hk' hm hnone =>
      have hfails : ((calls k').recorded k').isSome ≠ true := by
        intro hsome
        obtain ⟨psWorker, hentry⟩ := Option.isSome_iff_exists.mp hsome
        obtain ⟨_, _, _, hfork, -, -, hmalloc, -, -⟩ := InitCalls.recorded_cases hentry
        rcases hnone with hno | hno
        · exact Bool.false_ne_true (hno.symm.trans hmalloc)
        · cases hno.symm.trans hfork
      obtain rfl := hlast hm hfails
      rcases hnone with hno | hno
      · exact absurd (hno.symm.trans hleft.malloc) Bool.false_ne_true
      · cases hno.symm.trans hleft.fork
  | @abandoned k' m c hk' hm hi hleft' =>
      obtain rfl := hlast hm (hleft'.not_recorded k')
      refine ⟨rfl, c, List.mem_append_right _ (List.mem_singleton_self c), ?_, m, hm, rfl⟩
      exact Option.some.inj (hleft'.fork.symm.trans hleft.fork)
  | @exited k' m m' hk' hm hready haccept =>
      have hfails : ((calls k').recorded k').isSome ≠ true := by
        intro hsome
        obtain ⟨psWorker, hentry⟩ := Option.isSome_iff_exists.mp hsome
        obtain ⟨_, _, _, -, -, hsome', -, -, -⟩ := InitCalls.recorded_cases hentry
        cases haccept.symm.trans hsome'
      obtain rfl := hlast hm hfails
      exact absurd hready hleft.ipc

/-- `worker_init` returns without an orphan exactly when a child it abandons no longer runs. Children
that have not been waited for have different pids. -/
theorem workerInit_noOrphan_iff (calls : Nat → InitCalls) {iWantedWorkers : Int}
    (hfits : iWantedWorkers ≤ 64)
    (hpids : ∀ i j pid, (calls i).fork = some pid → (calls j).fork = some pid → i = j)
    (running : Int → Bool) :
    ((workerInit calls iWantedWorkers).1.returns = true →
        NoOrphan running (workerInit calls iWantedWorkers).2)
      ↔ ∀ k < iWantedWorkers.toNat, (∀ j < k, ((calls j).recorded j).isSome = true) →
          ∀ pid, (calls k).Abandons pid → running pid = false := by
  have hend := workerInit_ends calls hfits
  constructor
  · intro hnone k hk hbefore pid hleft
    obtain ⟨hret, c, hc, rfl, m', hm', htable⟩ := hend.of_abandons hk hbefore hleft
    rw [← Bool.not_eq_true]
    intro hrunning
    have hrecorded := (hnone (by rw [hret]; rfl) c hc hrunning).1
    rw [htable] at hrecorded
    exact hm'.not_recorded hpids hleft.fork hrecorded
  · intro hgone hreturns c hc hrunning
    have hlooked : ∀ k m, Built calls k m → c ∈ m.children →
        Recorded m.gWorkerAdmin c.pid ∧ LookedAfter m.gWorkerAdmin c.pid := fun k m hm hc =>
      ⟨hm.recorded hc, (hm.recorded hc).lookedAfter hm.noneMarked⟩
    generalize workerInit calls iWantedWorkers = result at hend hreturns hc ⊢
    obtain ⟨ret, m⟩ := result
    cases hend with
    | success hm => exact hlooked _ _ hm hc
    | noChild hk hm hnone => exact hlooked _ _ hm hc
    | @abandoned k m child hk hm hi hleft =>
        rcases List.mem_append.mp hc with hold | hnew
        · exact hlooked k m hm hold
        · rw [List.mem_singleton.mp hnew] at hrunning
          exact absurd hrunning (Bool.eq_false_iff.mp (hgone _ hk hm.succeeded _ hleft))
    | exited hk hm hready haccept => cases hreturns

theorem allSucceed_pids : ∀ i j pid, (allSucceed i).fork = some pid → (allSucceed j).fork = some pid →
    i = j := by
  intro i j pid hi hj
  have heq : (100 + i : Int) = 100 + j := Option.some.inj (hi.trans hj.symm)
  omega

theorem workerInit_noOrphan_twoWorkers :
    (workerInit allSucceed 2).1 = .exitSuccess ∧ NoOrphan (fun _ => true) (workerInit allSucceed 2).2 := by
  refine ⟨by decide, (workerInit_noOrphan_iff allSucceed (by decide) allSucceed_pids _).mpr ?_ rfl⟩
  intro k hk hbefore pid hleft
  refine absurd ?_ hleft.ipc
  have hk : k = 0 ∨ k = 1 := by
    have hlt : k < 2 := hk
    omega
  rcases hk with rfl | rfl
  · decide
  · decide

/-- There is no descriptor left for the socket of the first worker. -/
def noSocket (i : Nat) : InitCalls := { allSucceed i with socket := none }

theorem workerInit_orphan :
    ¬ ∀ (calls : Nat → InitCalls) (iWantedWorkers : Int) (running : Int → Bool), 1 ≤ iWantedWorkers →
      iWantedWorkers ≤ 64 →
      (∀ i j pid, (calls i).fork = some pid → (calls j).fork = some pid → i = j) →
      (workerInit calls iWantedWorkers).1.returns = true →
      NoOrphan running (workerInit calls iWantedWorkers).2 := by
  intro hnone
  have horphan := hnone noSocket 1 (fun _ => true) (by decide) (by decide) allSucceed_pids rfl
  obtain ⟨⟨i, psWorker, hentry, -⟩, -⟩ := horphan _ List.mem_cons_self rfl
  have hempty : ∀ i, (workerInit noSocket 1).2.gWorkerAdmin.psWorker i = none := by decide
  cases (hempty i).symm.trans hentry

end CewServer.Worker
