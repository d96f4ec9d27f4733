import CewServer.Lib.Progress
import CewServer.Worker.Orphans
import Mathlib.Algebra.Order.BigOperators.Group.List
import Mathlib.Algebra.Order.Group.Nat

/-!
# Signals to the master and its workers

The master leaves its loop at `SIGINT` and `SIGTERM` and calls `do_exit`, and `worker_destroy` ends the
workers in its table. A worker has a handler for `SIGINT` only. It calls `do_exit` too, and takes the entries
it inherited for workers of its own: it sends each of them `SIGTERM`, which no worker handles, and unlinks its
file. So the master, which comes after its workers here, is to all of them what a worker is to those before
it. They make their calls beside each other: any of them may get its signal, and any that is leaving may be
ended by another, at any moment. At a terminal they all get `SIGINT` at once.
-/

namespace CewServer.Worker

open Transition

/-! ### The processes beside each other -/

/-- A process is in its loop, or in `do_exit` with these calls to make, or it has ended. -/
inductive ExitPhase where
  | serving
  | leaving (rest : List Call)
  | gone

def ExitPhase.isLeaving : ExitPhase → Bool
  | .leaving _ => true
  | .serving | .gone => false

/-- A process: its number, and the calls of its `do_exit`. They depend on what `kill` says of each entry,
which may still find a process that has ended. -/
structure Peer where
  pid : Int
  exits : (Fin workerMaxWorkers → Bool) → List Call

/-- `interrupted` and `made` are history: who got the signal, and the calls made since by any of them. -/
structure Fleet where
  phase : Nat → ExitPhase
  interrupted : List Nat
  made : List Call

inductive FleetLabel where
  | interrupt (k : Nat) (killed : Fin workerMaxWorkers → Bool)
  /-- The next call of process `k`. -/
  | call (k : Nat)

/-- Process `k` has made a call, and has these still to make. -/
def Fleet.makes (s : Fleet) (k : Nat) (call : Call) (rest : List Call) : Fleet :=
  { s with phase := Function.update s.phase k (.leaving rest), made := s.made ++ [call] }

section Fleet

variable (peers : List Peer)

/-- What a call does to the others. They run for the same user, so a signal arrives; it is `SIGTERM` or
`SIGKILL`, and a worker has a handler for neither. -/
def Fleet.carryOut (s : Fleet) : Call → Fleet
  | .kill Pid _ =>
      { s with phase := fun j => if peers[j]?.map Peer.pid = some Pid then .gone else s.phase j }
  | _ => s

def fleetStep (s : Fleet) : FleetLabel → Option Fleet
  | .interrupt k killed =>
      match peers[k]?, s.phase k with
      | some peer, .serving => some { s with
          phase := Function.update s.phase k (.leaving (peer.exits killed))
          interrupted := s.interrupted ++ [k] }
      | _, _ => none
  | .call k =>
      match s.phase k with
      | .leaving [] => some { s with phase := Function.update s.phase k .gone }
      | .leaving (call :: rest) => some (Fleet.carryOut peers (s.makes k call rest) call)
      | .serving | .gone => none

def fleet : System Fleet FleetLabel where
  Init s := (∀ k, s.phase k = .serving) ∧ s.interrupted = [] ∧ s.made = []
  step := fleetStep peers

end Fleet

/-- The calls of `do_exit` in a worker. The listening socket was not there yet when it was forked. -/
def exitCalls (entry : EntryCalls) (c : Child) (killed : Fin workerMaxWorkers → Bool) : List Call :=
  ((workerpEntry entry c 0).map (doExit killed)).getD []

/-- The workers in the order of their rounds, and the master. -/
def masterAndWorkers (m : Master) (entry : Nat → EntryCalls) (getpid iFd : Int) : List Peer :=
  m.children.map (fun c => ⟨c.pid, exitCalls (entry c.i) c⟩)
    ++ [⟨getpid, fun killed => doExit killed ⟨m.gWorkerAdmin, false, iFd⟩⟩]

/-- The calls a process has to make before it ends, and its end. -/
def ExitPhase.left : ExitPhase → Nat
  | .leaving rest => rest.length + 1
  | .serving | .gone => 0

def Fleet.callsLeft (n : Nat) (s : Fleet) : Nat := ((List.range n).map fun k => (s.phase k).left).sum

/-- No process is on its way out. -/
def Fleet.Quiet (s : Fleet) : Prop := ∀ k, (s.phase k).isLeaving = false

/-! ### The workers of a program that serves -/

/-- The children after a number of rounds that succeeded: one of each round, with the entries of the rounds
before it. -/
structure Crew (calls : Nat → InitCalls) (k : Nat) (m : Master) : Prop where
  length : m.children.length = k
  child : ∀ j c, m.children[j]? = some c → c.i.val = j ∧ (calls j).fork = some c.pid ∧
    ∀ i : Fin workerMaxWorkers, i < c.i → c.image.psWorker i = (calls i).recorded i

theorem workerInitRound_children {calls : InitCalls} {i : Nat} {m m' : Master}
    (h : workerInitRound calls i m = .ok m') (hi : i < workerMaxWorkers) :
    ∃ pid, calls.fork = some pid ∧ m'.children
      = m.children ++ [⟨⟨i, hi⟩, pid, m.gWorkerAdmin.set ⟨i, hi⟩ (some (newWorker i calls.random))⟩] := by
  unfold workerInitRound at h
  rw [dif_pos hi] at h
  dsimp only at h
  cases hmalloc : calls.malloc with
  | false =>
      rw [hmalloc, if_neg Bool.false_ne_true] at h
      cases h
  | true =>
      rw [hmalloc, if_pos rfl] at h
      cases hfork : calls.fork with
      | none =>
          rw [hfork] at h
          cases h
      | some pid =>
          rw [hfork] at h
          dsimp only at h
          refine ⟨pid, rfl, ?_⟩
          split at h
          · obtain rfl := Except.ok.inj h
            rfl
          · cases h
          · cases h

theorem Crew.next {calls : Nat → InitCalls} {i : Nat} {m m' : Master} (hcrew : Crew calls i m)
    (hm : Built calls i m) (h : workerInitRound (calls i) i m = .ok m') (hi : i < workerMaxWorkers) :
    Crew calls (i + 1) m' := by
  obtain ⟨pid, hfork, hchildren⟩ := workerInitRound_children h hi
  refine ⟨?_, fun j c hj => ?_⟩
  · rw [hchildren, List.length_append, hcrew.length]
    rfl
  · rw [hchildren] at hj
    rcases Nat.lt_or_ge j i with hlt | hge
    · rw [List.getElem?_append_left (by rw [hcrew.length]; exact hlt)] at hj
      exact hcrew.child j c hj
    · rw [List.getElem?_append_right (by rw [hcrew.length]; exact hge), hcrew.length] at hj
      rw [List.getElem?_singleton] at hj
      split at hj
      · obtain rfl : j = i := by omega
        obtain rfl := Option.some.inj hj
        refine ⟨rfl, hfork, fun i hi => ?_⟩
        rw [WorkerAdmin.set_of_ne _ (Fin.ne_of_lt hi), hm.entries]
        exact if_pos hi
      · cases hj

theorem workerInitLoop_crew {calls : Nat → InitCalls} {rounds i : Nat} {m m' : Master} (hok : RoundOk i m)
    (hm : Built calls i m) (hcrew : Crew calls i m)
    (h : workerInitLoop calls rounds i m = (.exitSuccess, m')) :
    Built calls (i + rounds) m' ∧ Crew calls (i + rounds) m' := by
  induction rounds generalizing i m with
  | zero =>
      obtain rfl : m = m' := congrArg Prod.snd h
      exact ⟨hm, hcrew⟩
  | succ rounds ih =>
      rw [workerInitLoop] at h
      cases hround : workerInitRound (calls i) i m with
      | error result =>
          rw [hround] at h
          exact absurd (congrArg Prod.fst h) (hok.stop hround).1
      | ok m'' =>
          rw [hround] at h
          obtain ⟨hi, hok'⟩ := hok.next hround
          have hcrew' := hcrew.next hm hround hi
          have hcases := workerInitRound_cases (calls i) ⟨i, hi⟩ m
          rw [hround] at hcases
          cases hcases with
          | recorded psWorker pid hfork hentry image =>
              have hrest := ih hok' (Built.next (i := ⟨i, hi⟩) hm hfork hentry image) hcrew' h
              rwa [Nat.add_right_comm, Nat.add_assoc] at hrest

theorem workerInit_crew {calls : Nat → InitCalls} {n : Nat} {m : Master}
    (h : workerInit calls n = (.exitSuccess, m)) : Built calls n m ∧ Crew calls n m := by
  have hstart : Crew calls 0 ⟨.zero, []⟩ := ⟨rfl, fun _ _ hnone => by cases hnone⟩
  have hloop := workerInitLoop_crew roundOk_zero (built_zero calls) hstart h
  rwa [Nat.zero_add] at hloop

/-! ### The calls of a process that leaves -/

/-- An entry that comes up behind entries that are not marked is stopped. -/
theorem foldl_unmarked {t : Teardown} (hrunning : t.crashed = false) {before : List (Fin workerMaxWorkers)}
    (hothers : ∀ j ∈ before, ∀ psWorker, t.process.gWorkerAdmin.psWorker j = some psWorker → psWorker.iMe = 0)
    {i : Fin workerMaxWorkers} (hi : i ∉ before) (killed : Fin workerMaxWorkers → Bool) :
    (before.foldl (workerDestroyEntry killed) t).crashed = false ∧
      (before.foldl (workerDestroyEntry killed) t).process.gWorkerAdmin.psWorker i
        = t.process.gWorkerAdmin.psWorker i := by
  induction before generalizing t with
  | nil => exact ⟨hrunning, rfl⟩
  | cons j before ih =>
      rw [List.mem_cons, not_or] at hi
      rw [List.foldl_cons, workerDestroyEntry_other hrunning (hothers j List.mem_cons_self)]
      have hothers' : ∀ k ∈ before, ∀ psWorker,
          (t.process.gWorkerAdmin.set j none).psWorker k = some psWorker → psWorker.iMe = 0 := by
        intro k hk psWorker hentry
        obtain ⟨-, hbefore⟩ := WorkerAdmin.of_set_none hentry
        exact hothers k (List.mem_cons_of_mem _ hk) psWorker hbefore
      generalize entryCalls (killed j) (t.process.gWorkerAdmin.psWorker j) = calls
      obtain ⟨hcrashed, hentry⟩ := ih (t := t.freeEntry j calls) hrunning hothers' hi.2
      exact ⟨hcrashed, hentry.trans (WorkerAdmin.set_of_ne _ hi.1 none)⟩

/-- An entry is stopped if those before it are not marked, nor it. -/
theorem stopWorker_mem {t : Teardown} (hrunning : t.crashed = false) {i : Fin workerMaxWorkers}
    (hothers : ∀ j ≤ i, ∀ psWorker, t.process.gWorkerAdmin.psWorker j = some psWorker → psWorker.iMe = 0)
    {psWorker : WorkerStruct} (hentry : t.process.gWorkerAdmin.psWorker i = some psWorker)
    (killed : Fin workerMaxWorkers → Bool) {call : Call} (hcall : call ∈ stopWorker psWorker (killed i)) :
    call ∈ (workerDestroy killed t).calls := by
  obtain ⟨before, behind, hsplit⟩ := List.append_of_mem (List.mem_finRange i)
  have hbefore : ∀ j ∈ before, j < i := by
    have hsorted := List.pairwise_lt_finRange workerMaxWorkers
    rw [hsplit, List.pairwise_append] at hsorted
    exact fun j hj => hsorted.2.2 j hj i List.mem_cons_self
  obtain ⟨hrunning', hentry'⟩ := foldl_unmarked hrunning (fun j hj => hothers j (Nat.le_of_lt (hbefore j hj)))
    (fun hmem => Nat.lt_irrefl _ (hbefore i hmem)) killed
  rw [calls_workerDestroy, hsplit, List.foldl_append, List.foldl_cons]
  apply mem_calls_foldl
  rw [workerDestroyEntry_other hrunning' (by rw [hentry']; exact hothers i (Nat.le_refl _)), hentry', hentry]
  exact List.mem_append_right _ (List.mem_append_left _ hcall)

theorem not_mem_closeUnlessZero {call : Call} (hharms : call.harms = true) (fd : Int) :
    call ∉ closeUnlessZero fd := by
  intro hmem
  exact List.any_eq_false.mp (closeUnlessZero_quiet fd) call hmem hharms

theorem kill_mem_stopWorker {psWorker : WorkerStruct} {killed : Bool} {Pid : Int} {signal : Signal}
    (h : .kill Pid signal ∈ stopWorker psWorker killed) : psWorker.Pid = Pid := by
  have hclose : ∀ fd, Call.kill Pid signal ∉ closeUnlessZero fd := not_mem_closeUnlessZero rfl
  simp only [stopWorker, List.mem_append, List.mem_singleton, hclose, reduceCtorEq, or_false,
    Call.kill.injEq] at h
  rcases h with h | h
  · exact h.1.symm
  · cases killed
    · simp only [Bool.false_eq_true, if_false, List.mem_singleton, Call.kill.injEq] at h
      exact h.1.symm
    · cases h

/-- A call that reaches another process is made for its entry, and an entry stays as it is until then. -/
theorem stopped_of_mem_entry {t : Teardown} {killed : Fin workerMaxWorkers → Bool}
    {i : Fin workerMaxWorkers} :
    (∀ {Pid signal}, .kill Pid signal ∈ (workerDestroyEntry killed t i).calls →
      .kill Pid signal ∈ t.calls ∨ ∃ psWorker, t.process.gWorkerAdmin.psWorker i = some psWorker ∧
        psWorker.iMe = 0 ∧ psWorker.Pid = Pid) ∧
    ∀ {j psWorker}, (workerDestroyEntry killed t i).process.gWorkerAdmin.psWorker j = some psWorker →
      t.process.gWorkerAdmin.psWorker j = some psWorker := by
  unfold workerDestroyEntry
  split
  · exact ⟨.inl, id⟩
  · cases hentry : t.process.gWorkerAdmin.psWorker i with
    | none => exact ⟨.inl, id⟩
    | some psWorker =>
        dsimp only
        split
        · split
          · refine ⟨fun {Pid signal} hkill => ?_, fun hj => (WorkerAdmin.of_set_none hj).2⟩
            rcases List.mem_append.mp hkill with hkill | hkill
            · exact .inl hkill
            · simp only [List.cons_append, List.nil_append, List.mem_cons, reduceCtorEq, false_or] at hkill
              exact absurd hkill (not_mem_closeUnlessZero rfl _)
          · refine ⟨fun {Pid signal} hkill => ?_, id⟩
            rcases List.mem_append.mp hkill with hkill | hkill
            · exact .inl hkill
            · cases List.mem_singleton.mp hkill
        · rename_i hme
          refine ⟨fun {Pid signal} hkill => ?_, fun hj => (WorkerAdmin.of_set_none hj).2⟩
          rcases List.mem_append.mp hkill with hkill | hkill
          · exact .inl hkill
          · rcases List.mem_append.mp hkill with hkill | hkill
            · exact .inr ⟨psWorker, rfl, not_not.mp hme, kill_mem_stopWorker hkill⟩
            · exact absurd hkill (not_mem_closeUnlessZero rfl _)

theorem stopped_of_mem_foldl {t : Teardown} {killed : Fin workerMaxWorkers → Bool}
    {entries : List (Fin workerMaxWorkers)} {Pid : Int} {signal : Signal}
    (h : .kill Pid signal ∈ (entries.foldl (workerDestroyEntry killed) t).calls) :
    .kill Pid signal ∈ t.calls ∨ ∃ i psWorker, t.process.gWorkerAdmin.psWorker i = some psWorker ∧
      psWorker.iMe = 0 ∧ psWorker.Pid = Pid := by
  induction entries generalizing t with
  | nil => exact .inl h
  | cons i entries ih =>
      rcases ih h with hcall | ⟨j, psWorker, hj, hme, hPid⟩
      · rcases stopped_of_mem_entry.1 hcall with hbefore | ⟨psWorker, hi, hme, hPid⟩
        · exact .inl hbefore
        · exact .inr ⟨i, psWorker, hi, hme, hPid⟩
      · exact .inr ⟨j, psWorker, stopped_of_mem_entry.2 hj, hme, hPid⟩

/-- The table of process `k`: the entries of the rounds before its own, and its own, if it is a worker. -/
structure Precedes (calls : Nat → InitCalls) (k : Nat) (p : Process) : Prop where
  below : ∀ i : Fin workerMaxWorkers, i.val < k → p.gWorkerAdmin.psWorker i = (calls i).recorded i
  own : ∀ (i : Fin workerMaxWorkers) psWorker, k ≤ i.val → p.gWorkerAdmin.psWorker i = some psWorker →
    psWorker.iMe ≠ 0

theorem Crew.precedes {calls : Nat → InitCalls} {n : Nat} {m : Master} (hcrew : Crew calls n m) {k : Nat}
    {c : Child} (hc : m.children[k]? = some c) (hinherits : Inherits c) {entry : EntryCalls} {iFd : Int}
    {p : Process} (hp : workerpEntry entry c iFd = some p) : Precedes calls k p := by
  obtain ⟨hk, -, himage⟩ := hcrew.child k c hc
  obtain ⟨own, htable, hme⟩ := workerpEntry_table hp
  refine ⟨fun i hi => ?_, fun i psWorker hi hentry => ?_⟩
  · have hlt : i < c.i := by
      rw [Fin.lt_def, hk]
      exact hi
    rw [htable, WorkerAdmin.set_of_ne _ (Fin.ne_of_lt hlt), himage i hlt]
  · rw [htable] at hentry
    by_cases hself : i = c.i
    · rw [hself, WorkerAdmin.set_self] at hentry
      obtain rfl := Option.some.inj hentry
      rw [hme]
      decide
    · have hgt : c.i < i := by
        have hne := Fin.val_ne_of_ne hself
        rw [Fin.lt_def]
        omega
      rw [WorkerAdmin.set_of_ne _ hself, hinherits.above i hgt] at hentry
      cases hentry

theorem Built.precedes {calls : Nat → InitCalls} {n : Nat} {m : Master} (hm : Built calls n m) (iFd : Int) :
    Precedes calls n ⟨m.gWorkerAdmin, false, iFd⟩ := by
  refine ⟨fun i hi => ?_, fun i psWorker hi hentry => ?_⟩
  · rw [hm.entries, if_pos hi]
  · rw [hm.entries, if_neg (Nat.not_lt.mpr hi)] at hentry
    cases hentry

section Exit

variable {calls : Nat → InitCalls} {k : Nat} {p : Process} {killed : Fin workerMaxWorkers → Bool}

/-- A process signals nobody but the workers before it. -/
theorem Precedes.kill_mem (hp : Precedes calls k p) {Pid : Int} {signal : Signal}
    (h : .kill Pid signal ∈ doExit killed p) : ∃ j < k, (calls j).fork = some Pid := by
  obtain ⟨-, hsame⟩ := socketClose_running p
  rw [doExit, calls_workerDestroy] at h
  rcases stopped_of_mem_foldl h with hbefore | ⟨j, psWorker, hj, hother, rfl⟩
  · unfold socketClose at hbefore
    split at hbefore
    · cases List.mem_singleton.mp hbefore
    · cases hbefore
  · rw [hsame] at hj
    rcases Nat.lt_or_ge j.val k with hlt | hge
    · rw [hp.below j hlt] at hj
      obtain ⟨pid, socket, accept, hfork, -, -, -, -, rfl⟩ := InitCalls.recorded_cases hj
      exact ⟨j, hlt, hfork⟩
    · exact absurd hother (hp.own j psWorker hge hj)

/-- And it signals each of them and cleans up after it. -/
theorem Precedes.stopWorker_mem (hp : Precedes calls k p) {j : Fin workerMaxWorkers} (hj : j.val < k)
    {psWorker : WorkerStruct} (hentry : (calls j).recorded j = some psWorker) {call : Call}
    (hcall : call ∈ stopWorker psWorker (killed j)) : call ∈ doExit killed p := by
  obtain ⟨hrunning, hsame⟩ := socketClose_running p
  have hbelow : ∀ i : Fin workerMaxWorkers, i.val < k →
      (socketClose ⟨p, [], false⟩).process.gWorkerAdmin.psWorker i = (calls i).recorded i := by
    intro i hi
    rw [hsame, hp.below i hi]
  refine Worker.stopWorker_mem hrunning (fun i hi psWorker' hi' => ?_) ((hbelow j hj).trans hentry) killed hcall
  rw [hbelow i (Nat.lt_of_le_of_lt hi hj)] at hi'
  obtain ⟨pid, socket, accept, -, -, -, -, -, rfl⟩ := InitCalls.recorded_cases hi'
  rfl

end Exit

/-! ### Who is ended -/

/-- What is known of the processes: their numbers differ, and each stops all those before it and no other. -/
structure Staffed (peers : List Peer) (file : Nat → Option Bytes) : Prop where
  pids : ∀ {i j : Nat} {c d : Peer}, peers[i]? = some c → peers[j]? = some d → c.pid = d.pid → i = j
  only : ∀ {k : Nat} {c : Peer} {killed Pid signal}, peers[k]? = some c →
    .kill Pid signal ∈ c.exits killed → ∃ j < k, ∃ d, peers[j]? = some d ∧ d.pid = Pid
  all : ∀ {k j : Nat} {c d : Peer} (killed), peers[k]? = some c → j < k → peers[j]? = some d →
    .kill d.pid .sigterm ∈ c.exits killed ∧ .unlink (file j) ∈ c.exits killed

/-- The name of the file of a round that succeeded. -/
def recordedFile (calls : Nat → InitCalls) (j : Nat) : Option Bytes :=
  ((calls j).recorded j).bind WorkerStruct.IPCFile

section Staffed

variable {calls : Nat → InitCalls} {n : Nat} {m : Master} {entry : Nat → EntryCalls} {getpid iFd : Int}

theorem length_masterAndWorkers (hcrew : Crew calls n m) :
    (masterAndWorkers m entry getpid iFd).length = n + 1 := by
  rw [masterAndWorkers, List.length_append, List.length_map, hcrew.length]
  rfl

/-- A process is a worker, or the master behind them all. -/
theorem masterAndWorkers_cases (hcrew : Crew calls n m) {k : Nat} {peer : Peer}
    (h : (masterAndWorkers m entry getpid iFd)[k]? = some peer) :
    (k < n ∧ ∃ c, m.children[k]? = some c ∧ peer = ⟨c.pid, exitCalls (entry c.i) c⟩) ∨
      k = n ∧ peer = ⟨getpid, fun killed => doExit killed ⟨m.gWorkerAdmin, false, iFd⟩⟩ := by
  have hlength : (m.children.map fun c => (⟨c.pid, exitCalls (entry c.i) c⟩ : Peer)).length = n := by
    rw [List.length_map, hcrew.length]
  rw [masterAndWorkers] at h
  rcases Nat.lt_or_ge k n with hlt | hge
  · rw [List.getElem?_append_left (by rw [hlength]; exact hlt), List.getElem?_map] at h
    obtain ⟨c, hc, rfl⟩ := Option.map_eq_some_iff.mp h
    exact .inl ⟨hlt, c, hc, rfl⟩
  · rw [List.getElem?_append_right (by rw [hlength]; exact hge), hlength, List.getElem?_singleton] at h
    split at h
    · exact .inr ⟨by omega, (Option.some.inj h).symm⟩
    · cases h

/-- Worker or master, a process leaves with a table of the workers before it. -/
theorem masterAndWorkers_precedes (hinit : workerInit calls n = (.exitSuccess, m))
    (hserving : ∀ c ∈ m.children, ∃ p, workerpEntry (entry c.i) c 0 = some p) {k : Nat} {peer : Peer}
    (h : (masterAndWorkers m entry getpid iFd)[k]? = some peer) :
    k ≤ n ∧ ∃ p, Precedes calls k p ∧ ∀ killed, peer.exits killed = doExit killed p := by
  obtain ⟨hbuilt, hcrew⟩ := workerInit_crew hinit
  rcases masterAndWorkers_cases hcrew h with ⟨hlt, c, hc, rfl⟩ | ⟨rfl, rfl⟩
  · have hmem : c ∈ (workerInit calls n).2.children := by
      rw [hinit]
      exact List.mem_of_getElem? hc
    obtain ⟨p, hp⟩ := hserving c (List.mem_of_getElem? hc)
    refine ⟨Nat.le_of_lt hlt, p, hcrew.precedes hc (workerInit_inherits hmem) hp, fun killed => ?_⟩
    show exitCalls (entry c.i) c killed = doExit killed p
    rw [exitCalls, hp]
    rfl
  · refine ⟨Nat.le_refl k, ⟨m.gWorkerAdmin, false, iFd⟩, hbuilt.precedes iFd, fun killed => ?_⟩
    dsimp only

theorem fork_of_masterAndWorkers (hcrew : Crew calls n m) {j : Nat} {peer : Peer}
    (h : (masterAndWorkers m entry getpid iFd)[j]? = some peer) (hj : j < n) :
    (calls j).fork = some peer.pid := by
  rcases masterAndWorkers_cases hcrew h with ⟨-, c, hc, rfl⟩ | ⟨rfl, -⟩
  · exact (hcrew.child j c hc).2.1
  · exact absurd hj (Nat.lt_irrefl j)

theorem staffed_masterAndWorkers (hinit : workerInit calls n = (.exitSuccess, m))
    (hpids : ∀ i j pid, (calls i).fork = some pid → (calls j).fork = some pid → i = j)
    (hmaster : ∀ i, (calls i).fork ≠ some getpid)
    (hserving : ∀ c ∈ m.children, ∃ p, workerpEntry (entry c.i) c 0 = some p) :
    Staffed (masterAndWorkers m entry getpid iFd) (recordedFile calls) := by
  obtain ⟨hbuilt, hcrew⟩ := workerInit_crew hinit
  refine ⟨fun {i j c d} hc hd hpid => ?_, fun {k c killed Pid signal} hc hkill => ?_,
    fun {k j c d} killed hc hlt hd => ?_⟩
  · rcases masterAndWorkers_cases hcrew hc with ⟨hi, -⟩ | ⟨rfl, rfl⟩
    · have hfork := fork_of_masterAndWorkers hcrew hc hi
      rcases masterAndWorkers_cases hcrew hd with ⟨hj, -⟩ | ⟨rfl, rfl⟩
      · rw [hpid] at hfork
        exact hpids i j _ hfork (fork_of_masterAndWorkers hcrew hd hj)
      · rw [hpid] at hfork
        exact absurd hfork (hmaster i)
    · rcases masterAndWorkers_cases hcrew hd with ⟨hj, -⟩ | ⟨rfl, -⟩
      · have hfork := fork_of_masterAndWorkers hcrew hd hj
        rw [← hpid] at hfork
        exact absurd hfork (hmaster j)
      · rfl
  · obtain ⟨hk, p, hp, hexits⟩ := masterAndWorkers_precedes hinit hserving hc
    rw [hexits] at hkill
    obtain ⟨j, hlt, hfork⟩ := hp.kill_mem hkill
    have hj : j < (masterAndWorkers m entry getpid iFd).length := by
      rw [length_masterAndWorkers hcrew]
      omega
    have hd := List.getElem?_eq_getElem hj
    refine ⟨j, hlt, _, hd, ?_⟩
    exact Option.some.inj ((fork_of_masterAndWorkers hcrew hd (by omega)).symm.trans hfork)
  · obtain ⟨hk, p, hp, hexits⟩ := masterAndWorkers_precedes hinit hserving hc
    have hj : j < n := by omega
    obtain ⟨psWorker, hrecorded⟩ := Option.isSome_iff_exists.mp (hbuilt.succeeded j hj)
    have hPid : psWorker.Pid = d.pid := by
      obtain ⟨pid, socket, accept, hfork, -, -, -, -, rfl⟩ := InitCalls.recorded_cases hrecorded
      exact Option.some.inj (hfork.symm.trans (fork_of_masterAndWorkers hcrew hd hj))
    have hfile : recordedFile calls j = psWorker.IPCFile := by
      rw [recordedFile, hrecorded]
      rfl
    have hmax : j < workerMaxWorkers := Nat.lt_of_lt_of_le hj (workerInit_success hinit).1
    have hstop : ∀ call ∈ stopWorker psWorker (killed ⟨j, hmax⟩), call ∈ c.exits killed := by
      intro call hcall
      rw [hexits]
      exact hp.stopWorker_mem (j := ⟨j, hmax⟩) hlt hrecorded hcall
    rw [← hPid, hfile]
    constructor
    · apply hstop
      simp only [stopWorker, List.mem_append, List.mem_singleton, true_or]
    · apply hstop
      simp only [stopWorker, List.mem_append, List.mem_singleton, or_true]

end Staffed

section Felled

variable {peers : List Peer} {file : Nat → Option Bytes} {s s' : Fleet}

/-- The calls a worker owes each of those before it are made, or there is one at work that is to make them:
the worker itself, or one behind it that has ended it. -/
structure Felled (peers : List Peer) (file : Nat → Option Bytes) (s : Fleet) : Prop where
  notServing : ∀ e ∈ s.interrupted, s.phase e ≠ .serving
  leaving : ∀ {k rest}, s.phase k = .leaving rest → k ∈ s.interrupted ∧ ∀ {Pid signal},
    .kill Pid signal ∈ rest → ∃ j < k, ∃ d, peers[j]? = some d ∧ d.pid = Pid
  gone : ∀ {j}, s.phase j = .gone → ∃ e ∈ s.interrupted, j ≤ e
  owed : ∀ {e j : Nat} {d : Peer}, e ∈ s.interrupted → j < e → peers[j]? = some d →
    ∀ call ∈ [Call.kill d.pid .sigterm, .unlink (file j)],
      call ∈ s.made ∨ ∃ holder ≥ e, ∃ rest, s.phase holder = .leaving rest ∧ call ∈ rest
  ended : ∀ {j : Nat} {d : Peer}, peers[j]? = some d → .kill d.pid .sigterm ∈ s.made →
    s.phase j = .gone

/-- What a step can do. -/
inductive FleetMove (peers : List Peer) (s : Fleet) : Fleet → Prop
  | interrupt (k : Nat) (c : Peer) (killed : Fin workerMaxWorkers → Bool) (hc : peers[k]? = some c)
      (hk : s.phase k = .serving) :
      FleetMove peers s { s with
        phase := Function.update s.phase k (.leaving (c.exits killed))
        interrupted := s.interrupted ++ [k] }
  | exit (k : Nat) (hk : s.phase k = .leaving []) :
      FleetMove peers s { s with phase := Function.update s.phase k .gone }
  | call (k : Nat) (call : Call) (rest : List Call) (hk : s.phase k = .leaving (call :: rest)) :
      FleetMove peers s ((s.makes k call rest).carryOut peers call)

theorem fleetStep_cases {l : FleetLabel} (h : fleetStep peers s l = some s') :
    FleetMove peers s s' := by
  cases l with
  | interrupt k killed =>
      rw [fleetStep] at h
      cases hc : peers[k]? with
      | none =>
          rw [hc] at h
          cases h
      | some c =>
          cases hk : s.phase k with
          | serving =>
              rw [hc, hk] at h
              obtain rfl := Option.some.inj h
              exact .interrupt k c killed hc hk
          | leaving rest =>
              rw [hc, hk] at h
              cases h
          | gone =>
              rw [hc, hk] at h
              cases h
  | call k =>
      rw [fleetStep] at h
      cases hk : s.phase k with
      | serving =>
          rw [hk] at h
          cases h
      | gone =>
          rw [hk] at h
          cases h
      | leaving rest =>
          rw [hk] at h
          cases rest with
          | nil =>
              obtain rfl := Option.some.inj h
              exact .exit k hk
          | cons call rest =>
              obtain rfl := Option.some.inj h
              exact .call k call rest hk

theorem carryOut_interrupted (s : Fleet) (call : Call) :
    (s.carryOut peers call).interrupted = s.interrupted := by
  cases call <;> rfl

theorem carryOut_made (s : Fleet) (call : Call) : (s.carryOut peers call).made = s.made := by
  cases call <;> rfl

/-- A process stays as it is unless the call is a signal to it. -/
theorem carryOut_phase (peers : List Peer) (s : Fleet) (call : Call) (j : Nat) :
    (s.carryOut peers call).phase j = s.phase j ∨ (s.carryOut peers call).phase j = .gone ∧
      ∃ Pid signal, call = .kill Pid signal ∧ peers[j]?.map Peer.pid = some Pid := by
  cases call with
  | kill Pid signal =>
      by_cases hpid : peers[j]?.map Peer.pid = some Pid
      · exact .inr ⟨if_pos hpid, Pid, signal, rfl, hpid⟩
      · exact .inl (if_neg hpid)
  | waitpid | close | unlink | evSuspend | evLoopDestroy => exact .inl rfl

/-- After a change at `k`, the phase of a process is the new one or what it was. -/
theorem of_update {phases : Nat → ExitPhase} {k j : Nat} {new phase : ExitPhase}
    (h : Function.update phases k new j = phase) : j = k ∧ new = phase ∨ phases j = phase := by
  by_cases hjk : j = k
  · subst hjk
    rw [Function.update_self] at h
    exact .inl ⟨rfl, h⟩
  · rw [Function.update_of_ne hjk] at h
    exact .inr h

theorem update_of_phase_ne {phases : Nat → ExitPhase} {k j : Nat} {old new phase : ExitPhase}
    (hk : phases k = old) (hj : phases j = phase) (hne : phase ≠ old) :
    Function.update phases k new j = phase := by
  rw [Function.update_of_ne]
  · exact hj
  · rintro rfl
    exact hne (hj.symm.trans hk)

theorem Felled.interrupt (hstaff : Staffed peers file) (h : Felled peers file s) {k : Nat}
    {c : Peer} (killed : Fin workerMaxWorkers → Bool) (hc : peers[k]? = some c)
    (hk : s.phase k = .serving) :
    Felled peers file { s with
      phase := Function.update s.phase k (.leaving (c.exits killed))
      interrupted := s.interrupted ++ [k] } := by
  refine ⟨fun e he hserving => ?_, fun {j rest} hj => ?_, fun {j} hj => ?_,
    fun {e j d} he hlt hd call hcall => ?_, fun {j d} hd hmade => ?_⟩
  · rcases List.mem_append.mp he with hold | hnew
    · rcases of_update hserving with ⟨-, hphase⟩ | hbefore
      · cases hphase
      · exact h.notServing e hold hbefore
    · obtain rfl := List.mem_singleton.mp hnew
      dsimp only at hserving
      rw [Function.update_self] at hserving
      cases hserving
  · rcases of_update hj with ⟨rfl, hphase⟩ | hbefore
    · obtain rfl := ExitPhase.leaving.inj hphase
      exact ⟨List.mem_append_right _ (List.mem_singleton_self j), hstaff.only hc⟩
    · obtain ⟨hold, hkills⟩ := h.leaving hbefore
      exact ⟨List.mem_append_left _ hold, hkills⟩
  · rcases of_update hj with ⟨-, hphase⟩ | hbefore
    · cases hphase
    · obtain ⟨e, he, hle⟩ := h.gone hbefore
      exact ⟨e, List.mem_append_left _ he, hle⟩
  · rcases List.mem_append.mp he with hold | hnew
    · rcases h.owed hold hlt hd call hcall with hmade | ⟨holder, hle, rest, hholder, hmem⟩
      · exact .inl hmade
      · exact .inr ⟨holder, hle, rest, update_of_phase_ne hk hholder (by simp), hmem⟩
    · obtain rfl := List.mem_singleton.mp hnew
      obtain ⟨hkill, hunlink⟩ := hstaff.all killed hc hlt hd
      refine .inr ⟨e, Nat.le_refl e, _, Function.update_self .., ?_⟩
      rcases List.mem_cons.mp hcall with rfl | hcall
      · exact hkill
      · obtain rfl := List.mem_singleton.mp hcall
        exact hunlink
  · exact update_of_phase_ne hk (h.ended hd hmade) (by simp)

theorem Felled.exit (h : Felled peers file s) {k : Nat} (hk : s.phase k = .leaving []) :
    Felled peers file { s with phase := Function.update s.phase k .gone } := by
  refine ⟨fun e he hserving => ?_, fun {j rest} hj => ?_, fun {j} hj => ?_,
    fun {e j d} he hlt hd call hcall => ?_, fun {j d} hd hmade => ?_⟩
  · rcases of_update hserving with ⟨-, hphase⟩ | hbefore
    · cases hphase
    · exact h.notServing e he hbefore
  · rcases of_update hj with ⟨-, hphase⟩ | hbefore
    · cases hphase
    · exact h.leaving hbefore
  · rcases of_update hj with ⟨hjk, -⟩ | hbefore
    · exact ⟨k, (h.leaving hk).1, Nat.le_of_eq hjk⟩
    · exact h.gone hbefore
  · rcases h.owed he hlt hd call hcall with hmade | ⟨holder, hle, rest, hholder, hmem⟩
    · exact .inl hmade
    · refine .inr ⟨holder, hle, rest, update_of_phase_ne hk hholder ?_, hmem⟩
      intro hnil
      obtain rfl := ExitPhase.leaving.inj hnil
      cases hmem
  · exact update_of_phase_ne hk (h.ended hd hmade) (by simp)

/-- A call ends no process but one before the one that makes it. -/
theorem Felled.carryOut_cases (hstaff : Staffed peers file) (h : Felled peers file s) {k : Nat}
    {call : Call} {rest : List Call} (hk : s.phase k = .leaving (call :: rest)) (t : Fleet) (j : Nat) :
    (t.carryOut peers call).phase j = t.phase j ∨ (t.carryOut peers call).phase j = .gone ∧ j < k := by
  rcases carryOut_phase peers t call j with hsame | ⟨hgone, Pid, signal, rfl, hpid⟩
  · exact .inl hsame
  · obtain ⟨i, hlt, d, hd, rfl⟩ := (h.leaving hk).2 List.mem_cons_self
    obtain ⟨c, hc, hcd⟩ := Option.map_eq_some_iff.mp hpid
    obtain rfl := hstaff.pids hc hd hcd
    exact .inr ⟨hgone, hlt⟩

/-- The holder of what is owed may be ended by the call. Then the caller owes it as well, and so there is
one that is to make the call from the caller on. -/
theorem Felled.holder (h : Felled peers file s) {k : Nat} {rest' : List Call}
    (hk : s.phase k = .leaving rest') {e j : Nat} {d : Peer} (he : e ∈ s.interrupted) (hlt : j < e)
    (hd : peers[j]? = some d) {call : Call} (hcall : call ∈ [Call.kill d.pid .sigterm, .unlink (file j)]) :
    call ∈ s.made ∨ ∃ holder, e ≤ holder ∧ k ≤ holder ∧ ∃ rest, s.phase holder = .leaving rest ∧
      call ∈ rest := by
  rcases h.owed he hlt hd call hcall with hmade | ⟨holder, hle, rest, hholder, hmem⟩
  · exact .inl hmade
  · rcases Nat.lt_or_ge holder k with hbefore | hbehind
    · have hjk : j < k := by omega
      rcases h.owed (h.leaving hk).1 hjk hd call hcall with hmade | ⟨holder', hle', rest, hholder', hmem⟩
      · exact .inl hmade
      · exact .inr ⟨holder', by omega, hle', rest, hholder', hmem⟩
    · exact .inr ⟨holder, hle, hbehind, rest, hholder, hmem⟩

theorem Felled.call (hstaff : Staffed peers file) (h : Felled peers file s) {k : Nat} {call : Call}
    {rest : List Call} (hk : s.phase k = .leaving (call :: rest)) :
    Felled peers file ((s.makes k call rest).carryOut peers call) := by
  obtain ⟨hmine, hbelow⟩ := h.leaving hk
  have hcases := h.carryOut_cases hstaff hk (s.makes k call rest)
  -- a phase other than the end is one from before the signal
  have hback : ∀ {j phase}, ((s.makes k call rest).carryOut peers call).phase j = phase → phase ≠ .gone →
      j = k ∧ .leaving rest = phase ∨ s.phase j = phase := by
    intro j phase hj hne
    rcases hcases j with hsame | ⟨hgone, -⟩
    · exact of_update (hsame.symm.trans hj)
    · exact absurd (hj.symm.trans hgone) hne
  refine ⟨?_, ?_, ?_, ?_, ?_⟩
  · rw [carryOut_interrupted]
    intro e he hserving
    rcases hback hserving (by simp) with ⟨-, hphase⟩ | hbefore
    · cases hphase
    · exact h.notServing e he hbefore
  · rw [carryOut_interrupted]
    intro j rest' hj
    rcases hback hj (by simp) with ⟨rfl, hphase⟩ | hbefore
    · obtain rfl := ExitPhase.leaving.inj hphase
      exact ⟨hmine, fun hkill => hbelow (List.mem_cons_of_mem _ hkill)⟩
    · exact h.leaving hbefore
  · rw [carryOut_interrupted]
    intro j hj
    rcases hcases j with hsame | ⟨-, hlt⟩
    · rcases of_update (hsame.symm.trans hj) with ⟨-, hphase⟩ | hbefore
      · cases hphase
      · exact h.gone hbefore
    · exact ⟨k, hmine, Nat.le_of_lt hlt⟩
  · rw [carryOut_interrupted, carryOut_made]
    intro e j d he hlt hd owed howed
    rcases h.holder hk he hlt hd howed with hmade | ⟨holder, hle, hbehind, rest', hholder, hmem⟩
    · exact .inl (List.mem_append_left _ hmade)
    · have hstays : ((s.makes k call rest).carryOut peers call).phase holder
          = Function.update s.phase k (.leaving rest) holder := by
        rcases hcases holder with hsame | ⟨-, hlt⟩
        · exact hsame
        · omega
      by_cases hself : holder = k
      · subst hself
        rw [hk] at hholder
        obtain rfl := ExitPhase.leaving.inj hholder
        rcases List.mem_cons.mp hmem with rfl | hmem
        · exact .inl (List.mem_append_right _ (List.mem_singleton_self _))
        · exact .inr ⟨holder, hle, rest, hstays.trans (Function.update_self ..), hmem⟩
      · exact .inr ⟨holder, hle, rest', hstays.trans ((Function.update_of_ne hself ..).trans hholder), hmem⟩
  · rw [carryOut_made]
    intro j d hd hmade
    rcases List.mem_append.mp hmade with hold | hnew
    · rcases hcases j with hsame | ⟨hended, -⟩
      · exact hsame.trans (update_of_phase_ne hk (h.ended hd hold) (by simp))
      · exact hended
    · obtain rfl := List.mem_singleton.mp hnew
      have hpid : peers[j]?.map Peer.pid = some d.pid := by
        rw [hd]
        rfl
      exact if_pos hpid

theorem felled_of_reachable (hstaff : Staffed peers file)
    (hs : Reachable (fleet peers) (fun _ _ => True) s) : Felled peers file s := by
  refine hs.invariant (fun s hinit => ?_) fun s l t h _ hstep => ?_
  · obtain ⟨hserving, hnobody, hnothing⟩ := hinit
    refine ⟨fun e he => ?_, fun {k rest} hk => ?_, fun {j} hj => ?_, fun {e j d} he => ?_, fun {j d} _ hmade => ?_⟩
    · rw [hnobody] at he
      cases he
    · cases (hserving k).symm.trans hk
    · cases (hserving j).symm.trans hj
    · rw [hnobody] at he
      cases he
    · rw [hnothing] at hmade
      cases hmade
  · cases fleetStep_cases hstep with
    | interrupt k c killed hc hk => exact h.interrupt hstaff killed hc hk
    | exit k hk => exact h.exit hk
    | call k call rest hk => exact h.call hstaff hk

/-! ### How long it takes -/

/-- Only the processes there are leave. -/
def Fleet.Within (peers : List Peer) (s : Fleet) : Prop :=
  ∀ k rest, s.phase k = .leaving rest → k < peers.length

theorem within_step {l : FleetLabel} (h : s.Within peers) (hstep : fleetStep peers s l = some s') :
    s'.Within peers := by
  intro j rest' hj
  cases fleetStep_cases hstep with
  | interrupt k c killed hc hk =>
      rcases of_update hj with ⟨rfl, -⟩ | hbefore
      · exact (List.getElem?_eq_some_iff.mp hc).1
      · exact h j rest' hbefore
  | exit k hk =>
      rcases of_update hj with ⟨-, hphase⟩ | hbefore
      · cases hphase
      · exact h j rest' hbefore
  | call k call rest hk =>
      rcases carryOut_phase peers (s.makes k call rest) call j with hsame | ⟨hgone, -⟩
      · rcases of_update (hsame.symm.trans hj) with ⟨rfl, -⟩ | hbefore
        · exact h j _ hk
        · exact h j rest' hbefore
      · cases hj.symm.trans hgone

theorem within_of_reachable (hs : Reachable (fleet peers) (fun _ _ => True) s) : s.Within peers := by
  refine hs.invariant (fun s hinit k rest hk => ?_) fun s l t h _ hstep => ?_
  · cases (hinit.1 k).symm.trans hk
  · exact within_step h hstep

theorem left_update_le {phases : Nat → ExitPhase} {k : Nat} {new : ExitPhase}
    (hnew : new.left ≤ (phases k).left) (j : Nat) : (Function.update phases k new j).left ≤ (phases j).left := by
  by_cases hjk : j = k
  · rw [hjk, Function.update_self]
    exact hnew
  · rw [Function.update_of_ne hjk]

/-- A call is one less to make for the process that makes it, and none more for another. -/
theorem left_call {k : Nat} (hstep : fleetStep peers s (.call k) = some s') :
    (∃ rest, s.phase k = .leaving rest) ∧ (∀ j, (s'.phase j).left ≤ (s.phase j).left) ∧
      (s'.phase k).left < (s.phase k).left := by
  rw [fleetStep] at hstep
  cases hk : s.phase k with
  | serving =>
      rw [hk] at hstep
      cases hstep
  | gone =>
      rw [hk] at hstep
      cases hstep
  | leaving rest =>
      rw [hk] at hstep
      cases rest with
      | nil =>
          obtain rfl := Option.some.inj hstep
          refine ⟨⟨[], rfl⟩, left_update_le (Nat.zero_le _), ?_⟩
          dsimp only
          rw [Function.update_self]
          exact Nat.one_pos
      | cons call rest =>
          obtain rfl := Option.some.inj hstep
          have hfewer : ∀ j, (((s.makes k call rest).carryOut peers call).phase j).left
              ≤ (Function.update s.phase k (.leaving rest) j).left := by
            intro j
            rcases carryOut_phase peers (s.makes k call rest) call j with hsame | ⟨hgone, -⟩
            · exact Nat.le_of_eq (congrArg ExitPhase.left hsame)
            · rw [hgone]
              exact Nat.zero_le _
          have hless : (ExitPhase.leaving rest).left < (s.phase k).left := by
            rw [hk]
            exact Nat.lt_succ_self _
          refine ⟨⟨_, rfl⟩, fun j => (hfewer j).trans (left_update_le (Nat.le_of_lt hless) j), ?_⟩
          have hmine := hfewer k
          rw [Function.update_self] at hmine
          rw [← hk]
          omega

/-- The calls made count towards the end in whatever order they are made. -/
theorem call_approaches :
    Approaches (fleet peers) (fun l => ∃ k, l = .call k) (Fleet.Within peers) (fun _ => False)
      (Fleet.callsLeft peers.length) (fun _ => 1) (fun _ => 0) where
  keeps _ _ _ h _ hstep := within_step h hstep
  stays _ _ _ _ _ _ hgoal := hgoal
  nearer := by
    rintro s _ t h ⟨k, rfl⟩ hstep
    have hcall : fleetStep peers s (.call k) = some t := hstep
    obtain ⟨⟨rest, hleaving⟩, hfewer, hless⟩ := left_call hcall
    refine .inr (List.sum_lt_sum _ _ (fun j _ => hfewer j) ⟨k, ?_, hless⟩)
    exact List.mem_range.mpr (h k rest hleaving)

theorem quiet_or_call (s : Fleet) : s.Quiet ∨ ∃ k, (fleetStep peers s (.call k)).isSome = true := by
  by_cases hquiet : s.Quiet
  · exact .inl hquiet
  · obtain ⟨k, hk⟩ := not_forall.mp hquiet
    refine .inr ⟨k, ?_⟩
    rw [fleetStep]
    cases hphase : s.phase k with
    | serving =>
        rw [hphase] at hk
        exact absurd rfl hk
    | gone =>
        rw [hphase] at hk
        exact absurd rfl hk
    | leaving rest => cases rest <;> rfl

end Felled

/-- A signal to some of the workers and the master ends all that come before one of them and no other,
whatever the order in which they make their calls, and takes no more steps than they have calls to make. The
files of those that come before one of them are gone too. -/
theorem interrupt_ends {calls : Nat → InitCalls} {n : Nat} {m : Master}
    (hinit : workerInit calls n = (.exitSuccess, m))
    (hpids : ∀ i j pid, (calls i).fork = some pid → (calls j).fork = some pid → i = j)
    {getpid : Int} (hmaster : ∀ i, (calls i).fork ≠ some getpid) {entry : Nat → EntryCalls}
    (hserving : ∀ c ∈ m.children, ∃ p, workerpEntry (entry c.i) c 0 = some p) {iFd : Int}
    {s : Fleet} (hs : Reachable (fleet (masterAndWorkers m entry getpid iFd)) (fun _ _ => True) s) :
    (∀ j, s.phase j = .gone → ∃ e ∈ s.interrupted, j ≤ e) ∧
    (s.Quiet →
      (∀ j ≤ n, s.phase j = .gone ↔ ∃ e ∈ s.interrupted, j ≤ e) ∧
      ∀ (j : Fin workerMaxWorkers) psWorker, m.gWorkerAdmin.psWorker j = some psWorker →
        (∃ e ∈ s.interrupted, j.val < e) → .unlink psWorker.IPCFile ∈ s.made) ∧
    ∀ ls t, (∀ l ∈ ls, ∃ k, l = FleetLabel.call k) →
      (fleet (masterAndWorkers m entry getpid iFd)).run s ls = some t →
      ls.length ≤ s.callsLeft (n + 1) ∧
        (t.Quiet ∨ ∃ k, (fleetStep (masterAndWorkers m entry getpid iFd) t (.call k)).isSome = true) := by
  have hfelled := felled_of_reachable (staffed_masterAndWorkers hinit hpids hmaster hserving) hs
  obtain ⟨hbuilt, hcrew⟩ := workerInit_crew hinit
  have hlength : (masterAndWorkers m entry getpid iFd).length = n + 1 := length_masterAndWorkers hcrew
  have hthere : ∀ j ≤ n, j < (masterAndWorkers m entry getpid iFd).length := by
    intro j hj
    rw [hlength]
    omega
  -- with nobody at work, what is owed is made
  have howed : s.Quiet → ∀ {e j : Nat} {d}, e ∈ s.interrupted → j < e →
      (masterAndWorkers m entry getpid iFd)[j]? = some d →
      ∀ call ∈ [Call.kill d.pid .sigterm, .unlink (recordedFile calls j)], call ∈ s.made := by
    intro hquiet e j d he hlt hd call hcall
    rcases hfelled.owed he hlt hd call hcall with hmade | ⟨holder, -, rest, hholder, -⟩
    · exact hmade
    · have hnot := hquiet holder
      rw [hholder] at hnot
      cases hnot
  refine ⟨fun j => hfelled.gone, fun hquiet => ⟨fun j hj => ⟨hfelled.gone, fun ⟨e, he, hle⟩ => ?_⟩,
    fun j psWorker hentry ⟨e, he, hlt⟩ => ?_⟩, fun ls t hcalls hrun => ⟨?_, quiet_or_call t⟩⟩
  · rcases Nat.lt_or_eq_of_le hle with hlt | heq
    · have hd := List.getElem?_eq_getElem (hthere j hj)
      exact hfelled.ended hd (howed hquiet he hlt hd _ List.mem_cons_self)
    · rw [heq]
      have hnot := hquiet e
      cases hphase : s.phase e with
      | serving => exact absurd hphase (hfelled.notServing e he)
      | leaving rest =>
          rw [hphase] at hnot
          cases hnot
      | gone => rfl
  · rw [hbuilt.entries] at hentry
    by_cases hj : j.val < n
    · rw [if_pos hj] at hentry
      have hd := List.getElem?_eq_getElem (hthere j (Nat.le_of_lt hj))
      have hfile : recordedFile calls j = psWorker.IPCFile := by
        rw [recordedFile, hentry]
        rfl
      rw [← hfile]
      exact howed hquiet he hlt hd _ (List.mem_cons_of_mem _ (List.mem_singleton_self _))
    · rw [if_neg hj] at hentry
      cases hentry
  · rcases call_approaches.run_nearer (within_of_reachable hs) hcalls hrun with hfalse | hcount
    · exact hfalse.elim
    · rw [List.map_const', List.map_const', List.sum_replicate_nat, List.sum_replicate_nat, hlength] at hcount
      omega

def allServing : Fleet := ⟨fun _ => .serving, [], []⟩

/-- The second of three workers gets the signal and makes its calls. -/
def secondLeaves : List FleetLabel := .interrupt 1 (fun _ => true) :: List.replicate 9 (.call 1)

theorem interrupt_ends_secondOfThree :
    ∃ s, (fleet (masterAndWorkers (workerInit allSucceed 3).2 (fun _ => entrySucceeds) 1 3)).run allServing
        secondLeaves = some s ∧
      s.Quiet ∧ s.phase 0 = .gone ∧ s.phase 1 = .gone ∧ s.phase 2 ≠ .gone ∧ s.phase 3 ≠ .gone := by
  have hinit : workerInit allSucceed (3 : Nat) = (.exitSuccess, (workerInit allSucceed 3).2) :=
    Prod.ext (by decide) rfl
  have hmaster : ∀ i, (allSucceed i).fork ≠ some 1 := by
    intro i hpid
    have heq : (100 + i : Int) = 1 := Option.some.inj hpid
    omega
  have hserving : ∀ c ∈ (workerInit allSucceed 3).2.children,
      (workerpEntry entrySucceeds c 0).isSome = true := by decide
  have hend : ((fleet (masterAndWorkers (workerInit allSucceed 3).2 (fun _ => entrySucceeds) 1 3)).run
      allServing secondLeaves).map
        (fun s => (s.interrupted, (List.range 4).map fun k => (s.phase k).isLeaving))
      = some ([1], [false, false, false, false]) := by decide +kernel
  obtain ⟨s, hrun, hs⟩ := Option.map_eq_some_iff.mp hend
  obtain ⟨hinterrupted, hphases⟩ := Prod.mk.inj hs
  have hstart : (fleet (masterAndWorkers (workerInit allSucceed 3).2 (fun _ => entrySucceeds) 1 3)).Init
      allServing := ⟨fun _ => rfl, rfl, rfl⟩
  have hreach : Reachable (fleet (masterAndWorkers (workerInit allSucceed 3).2 (fun _ => entrySucceeds) 1 3))
      (fun _ _ => True) s := Reachable.run (.init hstart) (fun _ _ _ => trivial) hrun
  have hquiet : s.Quiet := by
    intro k
    cases hk : s.phase k with
    | serving | gone => rfl
    | leaving rest =>
        have hlt := within_of_reachable hreach k rest hk
        rw [length_masterAndWorkers (workerInit_crew hinit).2] at hlt
        have hphase := congrArg (fun phases => phases[k]?) hphases
        simp only [List.getElem?_map, List.getElem?_range hlt, Option.map_some, hk] at hphase
        obtain rfl | rfl | rfl | rfl : k = 0 ∨ k = 1 ∨ k = 2 ∨ k = 3 := by omega
        all_goals exact Option.some.inj hphase
  obtain ⟨-, hended, -⟩ := interrupt_ends hinit allSucceed_pids hmaster
    (fun c hc => Option.isSome_iff_exists.mp (hserving c hc)) hreach
  have hgone : ∀ j ≤ 3, s.phase j = .gone ↔ j ≤ 1 := by
    intro j hj
    rw [(hended hquiet).1 j hj, hinterrupted]
    simp only [List.mem_singleton, exists_eq_left]
  refine ⟨s, hrun, hquiet, (hgone 0 (by decide)).mpr (by decide), (hgone 1 (by decide)).mpr (by decide),
    fun h2 => ?_, fun h3 => ?_⟩
  · exact absurd ((hgone 2 (by decide)).mp h2) (by decide)
  · exact absurd ((hgone 3 (by decide)).mp h3) (by decide)

end CewServer.Worker
