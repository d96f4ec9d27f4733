import CewServer.Worker.Orphans

/-!
# What a shutdown brings about

The calls `worker_destroy` makes in the master, carried out. A child is alive, running or stopped, or
it is dead and waits to be reaped. `SIGTERM` ends a child that is not stopped; a stopped one keeps it
until it is continued. `SIGKILL` ends any child. `waitpid` reaps a dead child and waits for a live one,
but with `WUNTRACED | WCONTINUED` it also returns for a child that was stopped or continued since it
was last asked about, and such a child is not reaped. `worker_destroy` asks once.

What the kernel decides is a `Kernel`: how `kill` turns out, whether a child that was sent its death is
dead by the time `waitpid` looks at it, and what happens first to a child that `waitpid` waits for.
-/

namespace CewServer.Worker

/-- A live child may be stopped, may have a stop or a continuation to report, and may have been sent a
signal that ends it. -/
inductive ChildState where
  | alive (stopped report dying : Bool)
  | dead
  | reaped
  deriving DecidableEq

namespace ChildState

def running : ChildState := .alive false false false

def justStopped : ChildState := .alive true true false

end ChildState

/-- What ends a wait for a live child. -/
inductive Change where
  | stopsOrContinues
  | dies
  deriving DecidableEq

structure Kernel where
  kill : Int → Signal → Bool
  prompt : Int → Bool
  next : Int → Option Change

namespace ChildState

def signal (sig : Signal) : ChildState → ChildState
  | .alive stopped report dying =>
      .alive stopped report (dying || decide (sig = .sigkill) || !stopped)
  | c => c

/-- The child when `waitpid` returns, if it does. -/
def awaited (k : Kernel) (Pid : Int) : ChildState → Option ChildState
  | .alive stopped report dying =>
      if dying then
        some (if report && !k.prompt Pid then .alive stopped false true else .reaped)
      else if report then some (.alive stopped false false)
      else (k.next Pid).map fun
        | .stopsOrContinues => .alive (!stopped) false false
        | .dies => .reaped
  | .dead | .reaped => some .reaped

end ChildState

/-- The children of the master, its open descriptors, and the files. -/
structure World where
  child : Int → ChildState
  isOpen : Int → Bool
  hasFile : Bytes → Bool

namespace World

def setChild (w : World) (Pid : Int) (c : ChildState) : World :=
  { w with child := Function.update w.child Pid c }

def close (w : World) (fd : Int) : World := { w with isOpen := Function.update w.isOpen fd false }

def unlink (w : World) : Option Bytes → World
  | some file => { w with hasFile := Function.update w.hasFile file false }
  | none => w

def call (k : Kernel) (w : World) : Call → Option World
  | .kill Pid sig =>
      some (if k.kill Pid sig then w.setChild Pid ((w.child Pid).signal sig) else w)
  | .waitpid Pid => ((w.child Pid).awaited k Pid).map fun c => w.setChild Pid c
  | .close fd => some (w.close fd)
  | .unlink file => some (w.unlink file)
  | .evSuspend | .evLoopDestroy => some w

def calls (k : Kernel) (w : World) (cs : List Call) : Option World := cs.foldlM (World.call k) w

end World

/-- Whether the first `kill` of each entry succeeds. -/
def Kernel.killed (k : Kernel) (admin : WorkerAdmin) (i : Fin workerMaxWorkers) : Bool :=
  match admin.psWorker i with
  | some psWorker => k.kill psWorker.Pid .sigterm
  | none => true

/-- The shutdown is complete: `t` is `worker_destroy` when it has returned, and `w` the world then. -/
structure ShutDown (admin : WorkerAdmin) (t : Teardown) (w : World) : Prop where
  reaped : ∀ i psWorker, admin.psWorker i = some psWorker → w.child psWorker.Pid = .reaped
  closed : ∀ i psWorker, admin.psWorker i = some psWorker →
    w.isOpen psWorker.iMasterIPCfd = false ∧ w.isOpen psWorker.iMasterIPCAccept = false
  unlinked : ∀ i psWorker file, admin.psWorker i = some psWorker → psWorker.IPCFile = some file →
    w.hasFile file = false
  empty : t.process.gWorkerAdmin = .zero
  again : ∀ killed, (workerDestroy killed { t with calls := [] }).calls = []

/-! ### One child -/

namespace Kernel

/-- One of the signals `worker_destroy` sends ends the child: `SIGKILL` is sent only if `SIGTERM` could
not be. -/
def terminates (k : Kernel) (Pid : Int) (stopped : Bool) : Bool :=
  if k.kill Pid .sigterm then !stopped else k.kill Pid .sigkill

/-- The child is dead already; or it is to die, with nothing to report or before it is asked; or it has
nothing to report and dies of its own while it is waited for. -/
def Reaps (k : Kernel) (Pid : Int) : ChildState → Prop
  | .alive stopped report dying =>
      if dying || k.terminates Pid stopped then report = false ∨ k.prompt Pid = true
      else report = false ∧ k.next Pid = some .dies
  | .dead | .reaped => True

/-- The child after the signals of `worker_destroy`. -/
def signalled (k : Kernel) (Pid : Int) (c : ChildState) : ChildState :=
  if k.kill Pid .sigterm then c.signal .sigterm
  else if k.kill Pid .sigkill then c.signal .sigkill
  else c

theorem signalled_alive (k : Kernel) (Pid : Int) (stopped report dying : Bool) :
    k.signalled Pid (.alive stopped report dying)
      = .alive stopped report (dying || k.terminates Pid stopped) := by
  unfold signalled terminates
  cases k.kill Pid .sigterm <;> cases k.kill Pid .sigkill <;> cases stopped <;> cases dying <;> rfl

/-- Signals do nothing to a child that is not alive. -/
theorem signalled_ended (k : Kernel) (Pid : Int) {c : ChildState} (h : ∀ sig, c.signal sig = c) :
    k.signalled Pid c = c := by
  unfold signalled
  split
  · exact h .sigterm
  · split
    · exact h .sigkill
    · rfl

theorem reaped_iff {k : Kernel} {Pid : Int} {c c' : ChildState}
    (h : (k.signalled Pid c).awaited k Pid = some c') : c' = .reaped ↔ k.Reaps Pid c := by
  cases c with
  | dead =>
      rw [signalled_ended k Pid fun _ => rfl] at h
      obtain rfl := Option.some.inj h
      exact ⟨fun _ => trivial, fun _ => rfl⟩
  | reaped =>
      rw [signalled_ended k Pid fun _ => rfl] at h
      obtain rfl := Option.some.inj h
      exact ⟨fun _ => trivial, fun _ => rfl⟩
  | alive stopped report dying =>
      rw [signalled_alive] at h
      simp only [Reaps]
      generalize (dying || k.terminates Pid stopped) = dies at h ⊢
      cases dies with
      | true =>
          simp only [ChildState.awaited, if_true, Option.some.injEq] at h
          subst h
          cases report <;> cases k.prompt Pid <;> simp
      | false =>
          cases report with
          | true =>
              simp only [ChildState.awaited, Bool.false_eq_true, if_false, if_true,
                Option.some.injEq] at h
              subst h
              simp
          | false =>
              simp only [ChildState.awaited, Bool.false_eq_true, if_false] at h
              obtain ⟨change, hchange, rfl⟩ := Option.map_eq_some_iff.mp h
              cases change <;> simp [hchange]

end Kernel

/-! ### The calls for one entry -/

namespace World

variable {k : Kernel} {w w' : World}

theorem calls_append (cs cs' : List Call) :
    w.calls k (cs ++ cs') = (w.calls k cs).bind fun v => v.calls k cs' :=
  List.foldlM_append

theorem calls_one (c : Call) : w.calls k [c] = w.call k c := by
  unfold calls
  rw [List.foldlM_cons]
  exact Option.bind_fun_some _

def closeIfSet (w : World) (fd : Int) : World := if fd = 0 then w else w.close fd

theorem calls_closeUnlessZero (fd : Int) :
    w.calls k (closeUnlessZero fd) = some (w.closeIfSet fd) := by
  unfold closeUnlessZero closeIfSet
  split
  · rfl
  · exact calls_one _

theorem setChild_self (Pid : Int) : w.setChild Pid (w.child Pid) = w := by
  rw [setChild, Function.update_eq_self]

theorem setChild_setChild (Pid : Int) (c c' : ChildState) :
    (w.setChild Pid c).setChild Pid c' = w.setChild Pid c' := by
  simp only [setChild, Function.update_idem]

theorem calls_kill (Pid : Int) :
    w.calls k ([.kill Pid .sigterm] ++ if k.kill Pid .sigterm then [] else [.kill Pid .sigkill])
      = some (w.setChild Pid (k.signalled Pid (w.child Pid))) := by
  rw [calls_append, calls_one]
  unfold Kernel.signalled
  cases hterm : k.kill Pid .sigterm with
  | true => simp only [call, hterm, if_true, Option.bind_some, calls, List.foldlM_nil]; rfl
  | false =>
      simp only [call, hterm, Bool.false_eq_true, if_false, Option.bind_some, calls_one]
      cases k.kill Pid .sigkill with
      | true => simp only [if_true]
      | false => simp only [Bool.false_eq_true, if_false, setChild_self]

theorem calls_waitpid (Pid : Int) (c : ChildState) :
    (w.setChild Pid c).calls k [.waitpid Pid]
      = (c.awaited k Pid).map fun c' => w.setChild Pid c' := by
  rw [calls_one]
  simp only [call, setChild_setChild]
  simp only [setChild, Function.update_self]

/-- What the calls for an entry of the master's table come to. -/
theorem calls_entry (psWorker : WorkerStruct) :
    w.calls k (entryCalls (k.kill psWorker.Pid .sigterm) (some psWorker))
      = ((k.signalled psWorker.Pid (w.child psWorker.Pid)).awaited k psWorker.Pid).map fun c =>
        ((((w.setChild psWorker.Pid c).closeIfSet psWorker.iMasterIPCfd).closeIfSet
          psWorker.iMasterIPCAccept).unlink psWorker.IPCFile).closeIfSet psWorker.iWorkerIPCfd := by
  unfold entryCalls stopWorker
  rw [calls_append, calls_append, calls_append, calls_append, calls_append, calls_kill,
    Option.bind_some, calls_waitpid]
  cases (k.signalled psWorker.Pid (w.child psWorker.Pid)).awaited k psWorker.Pid with
  | none => rfl
  | some c =>
      simp only [Option.map_some, Option.bind_some, calls_closeUnlessZero, calls_one, call]

/-- The world after the calls for an entry. -/
structure Stopped (k : Kernel) (w : World) (psWorker : WorkerStruct) (w' : World) : Prop where
  own : (k.signalled psWorker.Pid (w.child psWorker.Pid)).awaited k psWorker.Pid
    = some (w'.child psWorker.Pid)
  others : ∀ Pid, Pid ≠ psWorker.Pid → w'.child Pid = w.child Pid
  fds : ∀ fd, w'.isOpen fd = true ↔ w.isOpen fd = true ∧ (fd ≠ 0 →
    fd ≠ psWorker.iMasterIPCfd ∧ fd ≠ psWorker.iMasterIPCAccept ∧ fd ≠ psWorker.iWorkerIPCfd)
  files : ∀ file, w'.hasFile file = true ↔ w.hasFile file = true ∧ psWorker.IPCFile ≠ some file

@[simp] theorem closeIfSet_child (fd : Int) : (w.closeIfSet fd).child = w.child := by
  unfold closeIfSet
  split <;> rfl

@[simp] theorem closeIfSet_hasFile (fd : Int) : (w.closeIfSet fd).hasFile = w.hasFile := by
  unfold closeIfSet
  split <;> rfl

@[simp] theorem unlink_child (file : Option Bytes) : (w.unlink file).child = w.child := by
  cases file <;> rfl

@[simp] theorem unlink_isOpen (file : Option Bytes) : (w.unlink file).isOpen = w.isOpen := by
  cases file <;> rfl

theorem closeIfSet_isOpen (fd fd' : Int) :
    (w.closeIfSet fd).isOpen fd' = true ↔ w.isOpen fd' = true ∧ (fd' ≠ 0 → fd' ≠ fd) := by
  unfold closeIfSet
  split
  · rename_i hzero
    subst hzero
    exact ⟨fun h => ⟨h, id⟩, fun h => h.1⟩
  · rename_i hset
    by_cases heq : fd' = fd
    · subst heq
      simp [close, hset]
    · simp [close, heq]

theorem unlink_hasFile (file : Option Bytes) (f : Bytes) :
    (w.unlink file).hasFile f = true ↔ w.hasFile f = true ∧ file ≠ some f := by
  cases file with
  | none => simp [unlink]
  | some g =>
      by_cases heq : f = g
      · subst heq
        simp [unlink]
      · simp [unlink, heq, Ne.symm heq]

theorem stopped_of_calls {psWorker : WorkerStruct}
    (h : w.calls k (entryCalls (k.kill psWorker.Pid .sigterm) (some psWorker)) = some w') :
    Stopped k w psWorker w' := by
  rw [calls_entry] at h
  obtain ⟨c, hc, rfl⟩ := Option.map_eq_some_iff.mp h
  refine ⟨?_, ?_, ?_, ?_⟩
  · simp only [closeIfSet_child, unlink_child, setChild, Function.update_self]
    exact hc
  · intro Pid hne
    simp only [closeIfSet_child, unlink_child, setChild, Function.update_of_ne hne]
  · intro fd
    simp only [closeIfSet_isOpen, unlink_isOpen, setChild]
    tauto
  · intro file
    simp only [closeIfSet_hasFile, unlink_hasFile, setChild]

/-! ### All entries -/

/-- The world after the calls for a list of entries. -/
structure AllStopped (k : Kernel) (w : World) (entries : List WorkerStruct) (w' : World) : Prop where
  own : ∀ psWorker ∈ entries,
    (k.signalled psWorker.Pid (w.child psWorker.Pid)).awaited k psWorker.Pid
      = some (w'.child psWorker.Pid)
  others : ∀ Pid, Pid ∉ entries.map WorkerStruct.Pid → w'.child Pid = w.child Pid
  fds : ∀ fd, w'.isOpen fd = true ↔ w.isOpen fd = true ∧ (fd ≠ 0 → ∀ psWorker ∈ entries,
    fd ≠ psWorker.iMasterIPCfd ∧ fd ≠ psWorker.iMasterIPCAccept ∧ fd ≠ psWorker.iWorkerIPCfd)
  files : ∀ file, w'.hasFile file = true ↔
    w.hasFile file = true ∧ ∀ psWorker ∈ entries, psWorker.IPCFile ≠ some file

theorem allStopped_of_calls {entries : List WorkerStruct} (hpids : (entries.map WorkerStruct.Pid).Nodup)
    (h : w.calls k (entries.flatMap fun psWorker =>
      entryCalls (k.kill psWorker.Pid .sigterm) (some psWorker)) = some w') :
    AllStopped k w entries w' := by
  induction entries generalizing w with
  | nil =>
      obtain rfl := Option.some.inj h
      exact ⟨by simp, fun _ _ => rfl, by simp, by simp⟩
  | cons psWorker entries ih =>
      obtain ⟨hfresh, hrestPids⟩ := List.nodup_cons.mp hpids
      rw [List.flatMap_cons, calls_append] at h
      obtain ⟨v, hv, hrest⟩ := Option.bind_eq_some_iff.mp h
      have hfirst := stopped_of_calls hv
      have hothers := ih hrestPids hrest
      refine ⟨?_, ?_, ?_, ?_⟩
      · intro e he
        rcases List.mem_cons.mp he with rfl | he
        · -- the later entries are other children
          rw [hothers.others _ hfresh]
          exact hfirst.own
        · have hne : e.Pid ≠ psWorker.Pid := by
            intro heq
            exact hfresh (heq ▸ List.mem_map_of_mem he)
          have hown := hothers.own e he
          rw [hfirst.others _ hne] at hown
          exact hown
      · intro Pid hPid
        rw [List.map_cons, List.mem_cons, not_or] at hPid
        rw [hothers.others _ hPid.2, hfirst.others _ hPid.1]
      · intro fd
        rw [hothers.fds, hfirst.fds]
        constructor
        · rintro ⟨⟨hopen, hself⟩, hrest⟩
          exact ⟨hopen, fun hne => List.forall_mem_cons.mpr ⟨hself hne, hrest hne⟩⟩
        · rintro ⟨hopen, hall⟩
          exact ⟨⟨hopen, fun hne => (List.forall_mem_cons.mp (hall hne)).1⟩,
            fun hne => (List.forall_mem_cons.mp (hall hne)).2⟩
      · intro file
        rw [hothers.files, hfirst.files, List.forall_mem_cons, and_assoc]

end World

/-! ### The shutdown -/

/-- The entries of the table that are filled. -/
def WorkerAdmin.entries (admin : WorkerAdmin) : List WorkerStruct :=
  (List.finRange workerMaxWorkers).filterMap admin.psWorker

theorem WorkerAdmin.mem_entries {admin : WorkerAdmin} {psWorker : WorkerStruct} :
    psWorker ∈ admin.entries ↔ ∃ i, admin.psWorker i = some psWorker := by
  simp only [entries, List.mem_filterMap, List.mem_finRange, true_and]

/-- `worker_destroy` makes the calls for the filled entries in turn. -/
theorem calls_of_entries (k : Kernel) (admin : WorkerAdmin) (indices : List (Fin workerMaxWorkers)) :
    (indices.flatMap fun i => entryCalls (k.killed admin i) (admin.psWorker i))
      = (indices.filterMap admin.psWorker).flatMap fun psWorker =>
        entryCalls (k.kill psWorker.Pid .sigterm) (some psWorker) := by
  induction indices with
  | nil => rfl
  | cons i indices ih =>
      rw [List.flatMap_cons, ih]
      cases hentry : admin.psWorker i with
      | none =>
          rw [List.filterMap_cons_none hentry]
          rfl
      | some psWorker =>
          rw [List.filterMap_cons_some hentry, List.flatMap_cons]
          simp only [Kernel.killed, hentry]

/-- The workers are different processes. -/
theorem Built.pids_nodup {calls : Nat → InitCalls} {n : Nat} {m : Master} (hm : Built calls n m)
    (hpids : ∀ i j pid, (calls i).fork = some pid → (calls j).fork = some pid → i = j) :
    (m.gWorkerAdmin.entries.map WorkerStruct.Pid).Nodup := by
  have hpid : ∀ (i : Fin workerMaxWorkers) pid,
      pid ∈ (m.gWorkerAdmin.psWorker i).map WorkerStruct.Pid → (calls i).fork = some pid := by
    intro i pid hmem
    obtain ⟨psWorker, hentry, rfl⟩ := Option.map_eq_some_iff.mp hmem
    rw [hm.entries] at hentry
    split at hentry
    · obtain ⟨pid, socket, accept, hfork, -, -, -, -, rfl⟩ := InitCalls.recorded_cases hentry
      exact hfork
    · cases hentry
  rw [WorkerAdmin.entries, List.map_filterMap]
  refine List.Nodup.filterMap ?_ (List.nodup_finRange _)
  intro i j pid hi hj
  exact Fin.ext (hpids _ _ _ (hpid i pid hi) (hpid j pid hj))

theorem workerDestroy_again (killed : Fin workerMaxWorkers → Bool) (iFd : Int) :
    (workerDestroy killed (masterTeardown .zero iFd)).calls = [] := by
  rw [workerDestroy_masterTeardown (by intro i psWorker h; cases h)]
  exact List.flatMap_eq_nil_iff.mpr fun i _ => rfl

theorem Built.shutDown_iff {calls : Nat → InitCalls} {n : Nat} {m : Master} (hm : Built calls n m)
    (hpids : ∀ i j pid, (calls i).fork = some pid → (calls j).fork = some pid → i = j)
    (k : Kernel) (iFd : Int) {w w' : World}
    (hopen : ∀ i psWorker, m.gWorkerAdmin.psWorker i = some psWorker →
      w.isOpen psWorker.iMasterIPCfd = true ∧ w.isOpen psWorker.iMasterIPCAccept = true)
    (hcalls : w.calls k (workerDestroy (k.killed m.gWorkerAdmin)
      (masterTeardown m.gWorkerAdmin iFd)).calls = some w') :
    ShutDown m.gWorkerAdmin (workerDestroy (k.killed m.gWorkerAdmin)
        (masterTeardown m.gWorkerAdmin iFd)) w' ↔
      ∀ i psWorker, m.gWorkerAdmin.psWorker i = some psWorker →
        k.Reaps psWorker.Pid (w.child psWorker.Pid) ∧ psWorker.iMasterIPCfd ≠ 0 ∧
        psWorker.iMasterIPCAccept ≠ 0 := by
  rw [workerDestroy_masterTeardown hm.noneMarked] at hcalls ⊢
  rw [calls_of_entries] at hcalls
  have hall : World.AllStopped k w m.gWorkerAdmin.entries w' :=
    World.allStopped_of_calls (hm.pids_nodup hpids) hcalls
  have hmem : ∀ {i psWorker}, m.gWorkerAdmin.psWorker i = some psWorker →
      psWorker ∈ m.gWorkerAdmin.entries := fun h => WorkerAdmin.mem_entries.mpr ⟨_, h⟩
  constructor
  · intro hdown i psWorker hentry
    obtain ⟨hfd, haccept⟩ := hdown.closed i psWorker hentry
    obtain ⟨hfdOpen, hacceptOpen⟩ := hopen i psWorker hentry
    refine ⟨?_, ?_, ?_⟩
    · exact (Kernel.reaped_iff (hall.own _ (hmem hentry))).mp (hdown.reaped i psWorker hentry)
    · -- a zero would have been left open
      intro hzero
      have hstill := (hall.fds psWorker.iMasterIPCfd).mpr ⟨hfdOpen, fun hne => absurd hzero hne⟩
      exact Bool.false_ne_true (hfd.symm.trans hstill)
    · intro hzero
      have hstill := (hall.fds psWorker.iMasterIPCAccept).mpr
        ⟨hacceptOpen, fun hne => absurd hzero hne⟩
      exact Bool.false_ne_true (haccept.symm.trans hstill)
  · intro hreaps
    refine ⟨?_, ?_, ?_, rfl, fun killed => workerDestroy_again killed iFd⟩
    · intro i psWorker hentry
      exact (Kernel.reaped_iff (hall.own _ (hmem hentry))).mpr (hreaps i psWorker hentry).1
    · intro i psWorker hentry
      obtain ⟨-, hfd, haccept⟩ := hreaps i psWorker hentry
      constructor
      · apply Bool.eq_false_iff.mpr
        intro hstill
        exact (((hall.fds _).mp hstill).2 hfd psWorker (hmem hentry)).1 rfl
      · apply Bool.eq_false_iff.mpr
        intro hstill
        exact (((hall.fds _).mp hstill).2 haccept psWorker (hmem hentry)).2.1 rfl
    · intro i psWorker file hentry hfile
      apply Bool.eq_false_iff.mpr
      intro hstill
      exact ((hall.files file).mp hstill).2 psWorker (hmem hentry) hfile

/-- For every table `worker_init` leaves when it returns and every state of the children: when
`worker_destroy` returns, the shutdown is complete exactly if each recorded child is one that its wait
reaps, and no socket of a worker has the number zero. -/
theorem workerDestroy_shutDown_iff {calls : Nat → InitCalls} {iWantedWorkers : Int}
    (hfits : iWantedWorkers ≤ workerMaxWorkers)
    (hreturns : (workerInit calls iWantedWorkers).1.returns = true)
    (hpids : ∀ i j pid, (calls i).fork = some pid → (calls j).fork = some pid → i = j)
    (k : Kernel) (iFd : Int) {w w' : World} {admin : WorkerAdmin}
    (hadmin : admin = (workerInit calls iWantedWorkers).2.gWorkerAdmin)
    (hopen : ∀ i psWorker, admin.psWorker i = some psWorker →
      w.isOpen psWorker.iMasterIPCfd = true ∧ w.isOpen psWorker.iMasterIPCAccept = true)
    (hcalls : w.calls k (workerDestroy (k.killed admin) (masterTeardown admin iFd)).calls = some w') :
    ShutDown admin (workerDestroy (k.killed admin) (masterTeardown admin iFd)) w' ↔
      ∀ i psWorker, admin.psWorker i = some psWorker →
        k.Reaps psWorker.Pid (w.child psWorker.Pid) ∧ psWorker.iMasterIPCfd ≠ 0 ∧
        psWorker.iMasterIPCAccept ≠ 0 := by
  subst hadmin
  have hend := workerInit_ends calls hfits
  generalize (workerInit calls iWantedWorkers).1 = iRet at hend hreturns
  generalize (workerInit calls iWantedWorkers).2 = m at hend hopen hcalls ⊢
  cases hend with
  | success hm => exact hm.shutDown_iff hpids k iFd hopen hcalls
  | noChild hk hm hnone => exact hm.shutDown_iff hpids k iFd hopen hcalls
  | abandoned hk hm hi hleft => exact hm.shutDown_iff hpids k iFd hopen hcalls
  | exited hk hm hready haccept => cases hreturns

/-- Both signals can be sent, children die at their leisure, and none changes while it is waited for. -/
def obliging : Kernel := ⟨fun _ _ => true, fun _ => false, fun _ => none⟩

/-- Everything is open and every file is there; child 100 is in one state and all others are dead. -/
def worldWith (c : ChildState) : World where
  child Pid := if Pid = 100 then c else .dead
  isOpen _ := true
  hasFile _ := true

def oneEntry : WorkerStruct :=
  { newWorker 0 0 with Pid := 100, iMasterIPCAccept := 10, iMasterIPCfd := 11 }

/-- The table of a master with one worker. -/
def oneWorker : WorkerAdmin := (workerInit allSucceed 1).2.gWorkerAdmin

theorem oneWorker_entry {i : Fin workerMaxWorkers} {psWorker : WorkerStruct}
    (h : oneWorker.psWorker i = some psWorker) : psWorker = oneEntry := by
  have hall : ∀ j, oneWorker.psWorker j = none ∨ oneWorker.psWorker j = some oneEntry := by decide
  rcases hall i with hnone | hsome
  · cases hnone.symm.trans h
  · exact Option.some.inj (h.symm.trans hsome)

theorem oneWorker_calls {c c' : ChildState}
    (hc : (obliging.signalled 100 c).awaited obliging 100 = some c') :
    ∃ w', (worldWith c).calls obliging (workerDestroy (obliging.killed oneWorker)
      (masterTeardown oneWorker 5)).calls = some w' ∧ w'.child 100 = c' := by
  have hothers : NoneMarked oneWorker := by
    intro i psWorker h
    rw [oneWorker_entry h]
    rfl
  have hentries : oneWorker.entries = [oneEntry] := by decide +kernel
  have hcalls : (workerDestroy (obliging.killed oneWorker) (masterTeardown oneWorker 5)).calls
      = entryCalls (obliging.kill oneEntry.Pid .sigterm) (some oneEntry) := by
    rw [workerDestroy_masterTeardown hothers, calls_of_entries, ← WorkerAdmin.entries, hentries]
    exact List.append_nil _
  obtain ⟨w', hw'⟩ : ∃ w', (worldWith c).calls obliging
      (entryCalls (obliging.kill oneEntry.Pid .sigterm) (some oneEntry)) = some w' := by
    rw [World.calls_entry]
    exact ⟨_, Option.map_eq_some_iff.mpr ⟨c', hc, rfl⟩⟩
  have hown := (World.stopped_of_calls hw').own
  rw [hcalls]
  exact ⟨w', hw', Option.some.inj (hown.symm.trans hc)⟩

theorem workerDestroy_shutDown_running :
    ∃ w', (worldWith .running).calls obliging (workerDestroy (obliging.killed oneWorker)
        (masterTeardown oneWorker 5)).calls = some w' ∧
      ShutDown oneWorker (workerDestroy (obliging.killed oneWorker) (masterTeardown oneWorker 5)) w' := by
  obtain ⟨w', hw', -⟩ := oneWorker_calls (c := .running) rfl
  refine ⟨w', hw', (workerDestroy_shutDown_iff (by decide) (by decide) allSucceed_pids obliging 5 rfl
    (fun _ _ _ => ⟨rfl, rfl⟩) hw').mpr ?_⟩
  intro i psWorker hentry
  rw [oneWorker_entry hentry]
  exact ⟨.inl rfl, by decide, by decide⟩

/-- A stopped worker takes `SIGTERM` and stays stopped, and `waitpid` returns because of the stop. -/
theorem workerDestroy_leavesStopped :
    ¬ ∀ (calls : Nat → InitCalls) (iWantedWorkers : Int) (k : Kernel) (iFd : Int) (w w' : World)
      (admin : WorkerAdmin), iWantedWorkers ≤ workerMaxWorkers →
      (workerInit calls iWantedWorkers).1.returns = true →
      (∀ i j pid, (calls i).fork = some pid → (calls j).fork = some pid → i = j) →
      admin = (workerInit calls iWantedWorkers).2.gWorkerAdmin →
      (∀ i psWorker, admin.psWorker i = some psWorker →
        w.isOpen psWorker.iMasterIPCfd = true ∧ w.isOpen psWorker.iMasterIPCAccept = true) →
      w.calls k (workerDestroy (k.killed admin) (masterTeardown admin iFd)).calls = some w' →
      ShutDown admin (workerDestroy (k.killed admin) (masterTeardown admin iFd)) w' := by
  intro hall
  obtain ⟨w', hw', hchild⟩ := oneWorker_calls (c := .justStopped) rfl
  have hdown := hall allSucceed 1 obliging 5 (worldWith .justStopped) w' oneWorker (by decide)
    (by decide) allSucceed_pids rfl (fun _ _ _ => ⟨rfl, rfl⟩) hw'
  have hfirst : oneWorker.psWorker firstEntry = some oneEntry := by decide
  have hreaped := hdown.reaped firstEntry oneEntry hfirst
  cases hchild.symm.trans hreaped

end CewServer.Worker
