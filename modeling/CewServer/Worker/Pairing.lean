import CewServer.Worker.Handshake
import Mathlib.Logic.Function.Basic

/-!
# Connecting all the workers

`worker_init` goes through the handshake once for each worker, and the workers of earlier rounds are
running meanwhile. What they share is the folder of the IPC files. The name of a file is made from
`random`, so nothing keeps two workers from having the same one, and a file may be left over from another
start. A worker that leaves has the workers before it in its table, and removes their files one by one.

Here are all the rounds at once, each call of either side a step that may fail, and workers that are
killed at any time, by a worker that leaves or by somebody else. In every interleaving the descriptor the
master keeps for a worker is the other end of that worker's descriptor and of no other's. But the rounds
need not come to an end: `accept` waits for one worker, and once that worker can no longer reach the socket
of its round nobody else will.
-/

namespace CewServer.Worker

open Transition

/-- What stands at a path: a file from another start, or the socket of a round. -/
inductive PathEntry where
  | stale
  | socket (round : Nat)
  deriving DecidableEq

/-- The next call of `worker_init`. -/
inductive InitPc where
  | fork
  | socket
  | ipcFolder
  | unlink
  | bind
  | chmod
  | listen
  | accept
  /-- It has returned a failure, or left the process. -/
  | failed
  deriving DecidableEq

/-- The next call of `workerp_entry`. -/
inductive ChildPc where
  | unborn
  | chdir
  | access
  | socket
  | connect
  | fcntl
  | evRun
  /-- In `do_exit`, at this entry of its table. -/
  | leaving (j : Nat)
  | gone
  deriving DecidableEq

/-- The master, its children and the sockets. Files go by the number in their name, sockets by the round
that makes them, descriptors by what is at their other end. -/
structure StartUp where
  round : Nat
  master : InitPc
  child : Nat → ChildPc
  files : Nat → Option PathEntry
  listening : Nat → Bool
  backlog : Nat → List Nat
  iWorkerIPCfd : Nat → Option Nat
  iMasterIPCfd : Nat → Option Nat

inductive StartUpLabel where
  | master (ok : Bool)
  | child (k : Nat) (ok : Bool)
  | killed (k : Nat)
  deriving DecidableEq

namespace StartUp

variable (names : Nat → Nat) (n : Nat)

/-- A round of `worker_init`: `malloc` and `fork`, then `worker_create_ipc_socket`. -/
def workerInitStep (s : StartUp) (ok : Bool) : Option StartUp :=
  let failed := some { s with master := .failed }
  match s.master with
  | .fork =>
      if n ≤ s.round then none
      else if ok then
        some { s with master := .socket, child := Function.update s.child s.round .chdir }
      else failed
  | .socket => if ok then some { s with master := .ipcFolder } else failed
  | .ipcFolder => if ok then some { s with master := .unlink } else failed
  | .unlink =>
      some { s with
        master := .bind
        files := if ok then Function.update s.files (names s.round) none else s.files }
  | .bind =>
      if ok ∧ s.files (names s.round) = none then
        some { s with
          master := .chmod, files := Function.update s.files (names s.round) (some (.socket s.round)) }
      else failed
  | .chmod => if ok ∧ s.files (names s.round) ≠ none then some { s with master := .listen } else failed
  | .listen =>
      if ok then
        some { s with master := .accept, listening := Function.update s.listening s.round true }
      else failed
  | .accept =>
      if ok then
        match s.backlog s.round with
        | [] => none
        | k :: rest =>
            some { s with
              round := s.round + 1
              master := .fork
              backlog := Function.update s.backlog s.round rest
              iMasterIPCfd := Function.update s.iMasterIPCfd s.round (some k) }
      else failed
  | .failed => none

/-- `workerp_entry`, in which `workerp_connect_ipc_socket` waits for the file. What follows a failure, or
the end of the loop, is `do_exit`: it removes the files of the workers before this one. -/
def workerpEntryStep (s : StartUp) (k : Nat) (ok : Bool) : Option StartUp :=
  let goto pc := { s with child := Function.update s.child k pc }
  match s.child k with
  | .chdir => some (goto (if ok then .access else .leaving 0))
  | .access => some (if s.files (names k) = none then s else goto .socket)
  | .socket => some (goto (if ok then .connect else .leaving 0))
  | .connect =>
      match s.files (names k) with
      | some (.socket round) =>
          some (if ok ∧ s.listening round = true then
            { s with
              child := Function.update s.child k .fcntl
              iWorkerIPCfd := Function.update s.iWorkerIPCfd k (some round)
              backlog := Function.update s.backlog round (s.backlog round ++ [k]) }
          else goto (.leaving 0))
      | _ => some (goto (.leaving 0))
  | .fcntl => some (goto (if ok then .evRun else .leaving 0))
  | .evRun => some (goto (.leaving 0))
  | .leaving j =>
      if j < k then
        some { goto (.leaving (j + 1)) with
          files := if ok then Function.update s.files (names j) none else s.files }
      else some (goto .gone)
  | .unborn | .gone => none

def step (s : StartUp) : StartUpLabel → Option StartUp
  | .master ok => s.workerInitStep names n ok
  | .child k ok => s.workerpEntryStep names k ok
  | .killed k =>
      if s.child k = .unborn ∨ s.child k = .gone then none
      else some { s with child := Function.update s.child k .gone }

end StartUp

/-- `worker_init(n)` with the numbers `random` gives, over whatever files are there. -/
def startUp (names : Nat → Nat) (n : Nat) : System StartUp StartUpLabel where
  Init s := s.round = 0 ∧ s.master = .fork ∧ (∀ k, s.child k = .unborn) ∧
    (∀ name round, s.files name ≠ some (.socket round)) ∧ (∀ round, s.listening round = false) ∧
    (∀ round, s.backlog round = []) ∧ (∀ k, s.iWorkerIPCfd k = none) ∧ ∀ j, s.iMasterIPCfd j = none
  step := StartUp.step names n

/-- The worker has its `connect` before it. -/
def ChildPc.connecting : ChildPc → Bool
  | .chdir | .access | .socket | .connect => true
  | _ => false

/-- The first entry whose file the worker can still remove. -/
def ChildPc.firstEntry : ChildPc → Option Nat
  | .unborn | .gone => none
  | .leaving j => some j
  | _ => some 0

variable {names : Nat → Nat} {n : Nat} {s t : StartUp}

/-- What a step can do. -/
inductive StartUpMove (names : Nat → Nat) (n : Nat) (s : StartUp) : StartUp → Prop
  | failed : StartUpMove names n s { s with master := .failed }
  | forked (hpc : s.master = .fork) (hround : s.round < n) :
      StartUpMove names n s
        { s with master := .socket, child := Function.update s.child s.round .chdir }
  | called (pc : InitPc) (hpc : s.master = .socket ∧ pc = .ipcFolder ∨
        s.master = .ipcFolder ∧ pc = .unlink ∨
        s.master = .unlink ∧ pc = .bind ∨
        s.master = .chmod ∧ s.files (names s.round) ≠ none ∧ pc = .listen) :
      StartUpMove names n s { s with master := pc }
  | unlinked (hpc : s.master = .unlink) :
      StartUpMove names n s
        { s with master := .bind, files := Function.update s.files (names s.round) none }
  | bound (hpc : s.master = .bind) (hclear : s.files (names s.round) = none) :
      StartUpMove names n s
        { s with
          master := .chmod, files := Function.update s.files (names s.round) (some (.socket s.round)) }
  | listened (hpc : s.master = .listen) :
      StartUpMove names n s
        { s with master := .accept, listening := Function.update s.listening s.round true }
  | accepted (k : Nat) (rest : List Nat) (hpc : s.master = .accept)
      (hbacklog : s.backlog s.round = k :: rest) :
      StartUpMove names n s
        { s with
          round := s.round + 1
          master := .fork
          backlog := Function.update s.backlog s.round rest
          iMasterIPCfd := Function.update s.iMasterIPCfd s.round (some k) }
  | went (k : Nat) (pc : ChildPc) (hborn : s.child k ≠ .unborn) (hpc : pc ≠ .unborn)
      (hconnecting : pc.connecting = true → (s.child k).connecting = true)
      (hentry : ∀ j, pc.firstEntry = some j → ∃ i, (s.child k).firstEntry = some i ∧ i ≤ j) :
      StartUpMove names n s { s with child := Function.update s.child k pc }
  | connected (k round : Nat) (hpc : s.child k = .connect)
      (hfile : s.files (names k) = some (.socket round)) (hlistening : s.listening round = true) :
      StartUpMove names n s
        { s with
          child := Function.update s.child k .fcntl
          iWorkerIPCfd := Function.update s.iWorkerIPCfd k (some round)
          backlog := Function.update s.backlog round (s.backlog round ++ [k]) }
  | cleaned (k j : Nat) (hpc : s.child k = .leaving j) (hj : j < k) :
      StartUpMove names n s
        { s with
          child := Function.update s.child k (.leaving (j + 1))
          files := Function.update s.files (names j) none }
  | waited : StartUpMove names n s s

namespace StartUpMove

/-- A worker that is not leaving yet goes on, or leaves. -/
theorem of_running (k : Nat) {pc : ChildPc} (hfirst : (s.child k).firstEntry = some 0)
    (hpc : pc ≠ .unborn) (hconnecting : pc.connecting = true → (s.child k).connecting = true) :
    StartUpMove names n s { s with child := Function.update s.child k pc } := by
  refine .went k pc (fun hunborn => ?_) hpc hconnecting fun j _ => ⟨0, hfirst, Nat.zero_le j⟩
  rw [hunborn] at hfirst
  cases hfirst

theorem of_workerInitStep {ok : Bool} (h : s.workerInitStep names n ok = some t) :
    StartUpMove names n s t := by
  unfold StartUp.workerInitStep at h
  dsimp only at h
  cases hpc : s.master with
  | fork =>
      rw [hpc] at h
      dsimp only at h
      split at h
      · cases h
      · rename_i hround
        split at h <;> obtain rfl := Option.some.inj h
        · exact .forked hpc (Nat.lt_of_not_le hround)
        · exact .failed
  | socket =>
      rw [hpc] at h
      dsimp only at h
      split at h <;> obtain rfl := Option.some.inj h
      · exact .called .ipcFolder (.inl ⟨hpc, rfl⟩)
      · exact .failed
  | ipcFolder =>
      rw [hpc] at h
      dsimp only at h
      split at h <;> obtain rfl := Option.some.inj h
      · exact .called .unlink (.inr (.inl ⟨hpc, rfl⟩))
      · exact .failed
  | unlink =>
      rw [hpc] at h
      obtain rfl := Option.some.inj h
      cases ok with
      | true => exact .unlinked hpc
      | false => exact .called .bind (.inr (.inr (.inl ⟨hpc, rfl⟩)))
  | bind =>
      rw [hpc] at h
      dsimp only at h
      split at h <;> obtain rfl := Option.some.inj h
      · rename_i hok
        exact .bound hpc hok.2
      · exact .failed
  | chmod =>
      rw [hpc] at h
      dsimp only at h
      split at h <;> obtain rfl := Option.some.inj h
      · rename_i hok
        exact .called .listen (.inr (.inr (.inr ⟨hpc, hok.2, rfl⟩)))
      · exact .failed
  | listen =>
      rw [hpc] at h
      dsimp only at h
      split at h <;> obtain rfl := Option.some.inj h
      · exact .listened hpc
      · exact .failed
  | accept =>
      rw [hpc] at h
      dsimp only at h
      split at h
      · cases hbacklog : s.backlog s.round with
        | nil =>
            rw [hbacklog] at h
            cases h
        | cons k rest =>
            rw [hbacklog] at h
            obtain rfl := Option.some.inj h
            exact .accepted k rest hpc hbacklog
      · obtain rfl := Option.some.inj h
        exact .failed
  | failed =>
      rw [hpc] at h
      cases h

theorem of_workerpEntryStep {k : Nat} {ok : Bool} (h : s.workerpEntryStep names k ok = some t) :
    StartUpMove names n s t := by
  unfold StartUp.workerpEntryStep at h
  dsimp only at h
  cases hpc : s.child k with
  | unborn | gone =>
      rw [hpc] at h
      cases h
  | chdir | socket | fcntl =>
      rw [hpc] at h
      obtain rfl := Option.some.inj h
      refine of_running k (by rw [hpc]; rfl) ?_ ?_
      all_goals cases ok <;> simp [hpc, ChildPc.connecting]
  | evRun =>
      rw [hpc] at h
      obtain rfl := Option.some.inj h
      exact of_running k (by rw [hpc]; rfl) ChildPc.noConfusion fun hc => by cases hc
  | access =>
      rw [hpc] at h
      obtain rfl := Option.some.inj h
      split
      · exact .waited
      · exact of_running k (by rw [hpc]; rfl) ChildPc.noConfusion fun _ => by rw [hpc]; rfl
  | connect =>
      have hleave : StartUpMove names n s { s with child := Function.update s.child k (.leaving 0) } :=
        of_running k (by rw [hpc]; rfl) ChildPc.noConfusion fun hc => by cases hc
      rw [hpc] at h
      dsimp only at h
      split at h <;> obtain rfl := Option.some.inj h
      · rename_i round hfile
        split
        · rename_i hok
          exact .connected k round hpc hfile hok.2
        · exact hleave
      · exact hleave
  | leaving j =>
      have hborn : s.child k ≠ .unborn := by rw [hpc]; exact ChildPc.noConfusion
      rw [hpc] at h
      dsimp only at h
      split at h <;> obtain rfl := Option.some.inj h
      · rename_i hj
        cases ok with
        | true => exact .cleaned k j hpc hj
        | false =>
            refine .went k (.leaving (j + 1)) hborn ChildPc.noConfusion (fun hc => by cases hc) ?_
            intro i hi
            refine ⟨j, by rw [hpc]; rfl, ?_⟩
            rw [← Option.some.inj hi]
            exact Nat.le_succ j
      · exact .went k .gone hborn ChildPc.noConfusion (fun hc => by cases hc) fun i hi => by cases hi

end StartUpMove

theorem startUpMove_of_step {l : StartUpLabel} (h : (startUp names n).step s l = some t) :
    StartUpMove names n s t := by
  cases l with
  | master ok => exact .of_workerInitStep h
  | child k ok => exact .of_workerpEntryStep h
  | killed k =>
      change (if _ then _ else _) = _ at h
      split at h
      · cases h
      · rename_i hborn
        obtain rfl := Option.some.inj h
        exact .went k .gone (fun hunborn => hborn (.inl hunborn)) ChildPc.noConfusion
          (fun hc => by cases hc) fun j hj => by cases hj

/-! ### Whose connection it is -/

/-- What holds in every state: only the worker of the round has its `connect` before it, so nobody else
can be at the socket of the round. -/
structure Paired (s : StartUp) : Prop where
  unborn : ∀ k, s.round < k ∨ k = s.round ∧ s.master = .fork → s.child k = .unborn
  forked : s.master ≠ .fork → s.master ≠ .failed → s.child s.round ≠ .unborn
  paired : ∀ j < s.round, s.iMasterIPCfd j = some j ∧ s.iWorkerIPCfd j = some j
  notYet : ∀ j, s.round ≤ j → s.iMasterIPCfd j = none
  unconnected : ∀ k, s.child k = .unborn ∨ (s.child k).connecting = true → s.iWorkerIPCfd k = none
  waiting : ∀ k, k ∈ s.backlog s.round ↔ k = s.round ∧ s.iWorkerIPCfd k = some s.round
  later : ∀ j, s.round < j → s.backlog j = []
  reached : ∀ k j, s.iWorkerIPCfd k = some j → s.listening j = true
  listened : ∀ j, s.listening j = true →
    j < s.round ∨ j = s.round ∧ (s.master = .accept ∨ s.master = .failed)
  listens : s.master = .accept → s.listening s.round = true

namespace Paired

theorem init (h : (startUp names n).Init s) : Paired s := by
  obtain ⟨hround, hmaster, hchild, -, hlistening, hbacklog, hworker, hfds⟩ := h
  exact
    { unborn := fun k _ => hchild k
      forked := fun hnot => absurd hmaster hnot
      paired := fun j hj => by
        rw [hround] at hj
        exact absurd hj (Nat.not_lt_zero j)
      notYet := fun j _ => hfds j
      unconnected := fun k _ => hworker k
      waiting := fun k => by simp [hbacklog, hworker]
      later := fun j _ => hbacklog j
      reached := fun k j hk => by
        rw [hworker k] at hk
        cases hk
      listened := fun j hj => by
        rw [hlistening j] at hj
        cases hj
      listens := fun haccept => by
        rw [hmaster] at haccept
        cases haccept }

/-- A worker that has not connected is the worker of the round. -/
theorem eq_round (h : Paired s) {k : Nat} (hpc : (s.child k).connecting = true) : k = s.round := by
  have hnone := h.unconnected k (.inr hpc)
  by_contra hne
  rcases Nat.lt_or_gt_of_ne hne with hlt | hgt
  · rw [(h.paired k hlt).2] at hnone
    cases hnone
  · rw [h.unborn k (.inl hgt)] at hpc
    cases hpc

/-- A step of `worker_init` within a round. -/
theorem call (h : Paired s) {pc : InitPc} (hpc : pc ≠ .fork)
    (hforked : pc ≠ .failed → s.master ≠ .fork ∧ s.master ≠ .failed)
    {files : Nat → Option PathEntry}
    {listening : Nat → Bool} (haccept : pc = .accept → listening s.round = true)
    (hlistened : listening s.round = true → pc = .accept ∨ pc = .failed)
    (hlistening : ∀ j, j ≠ s.round → listening j = s.listening j)
    (hmore : s.listening s.round = true → listening s.round = true) :
    Paired { s with master := pc, files, listening } where
  unborn := fun k hk => h.unborn k (hk.imp_right fun hk => absurd hk.2 hpc)
  forked := fun _ hrunning => h.forked (hforked hrunning).1 (hforked hrunning).2
  paired := h.paired
  notYet := h.notYet
  unconnected := h.unconnected
  waiting := h.waiting
  later := h.later
  reached := fun k j hk => by
    have hj := h.reached k j hk
    by_cases hjr : j = s.round
    · subst hjr
      exact hmore hj
    · exact (hlistening j hjr).trans hj
  listened := fun j hj => by
    by_cases hjr : j = s.round
    · subst hjr
      exact .inr ⟨rfl, hlistened hj⟩
    · exact (h.listened j ((hlistening j hjr).symm.trans hj)).imp_right fun hj => absurd hj.1 hjr
  listens := haccept

theorem fork (h : Paired s) (hpc : s.master = .fork) :
    Paired { s with master := .socket, child := Function.update s.child s.round .chdir } where
  unborn := fun k hk => by
    have hgt : s.round < k := hk.resolve_right fun hk => by cases hk.2
    show Function.update s.child s.round .chdir k = _
    rw [Function.update_of_ne (Nat.ne_of_gt hgt)]
    exact h.unborn k (.inl hgt)
  forked := fun _ _ => by
    show Function.update s.child s.round .chdir s.round ≠ _
    rw [Function.update_self]
    exact ChildPc.noConfusion
  paired := h.paired
  notYet := h.notYet
  unconnected := fun k hk => by
    by_cases hkr : k = s.round
    · exact h.unconnected k (.inl (h.unborn k (.inr ⟨hkr, hpc⟩)))
    · dsimp only at hk
      rw [Function.update_of_ne hkr] at hk
      exact h.unconnected k hk
  waiting := h.waiting
  later := h.later
  reached := h.reached
  listened := fun j hj => (h.listened j hj).imp_right fun hj => by simp [hpc] at hj
  listens := fun hpc => by cases hpc

/-- The connection that is accepted is that of the worker of the round. -/
theorem accept (h : Paired s) {k : Nat} {rest : List Nat}
    (hbacklog : s.backlog s.round = k :: rest) :
    Paired { s with
      round := s.round + 1
      master := .fork
      backlog := Function.update s.backlog s.round rest
      iMasterIPCfd := Function.update s.iMasterIPCfd s.round (some k) } := by
  obtain ⟨rfl, hworker⟩ := (h.waiting k).mp (by rw [hbacklog]; exact List.mem_cons_self)
  have hnext : s.child (s.round + 1) = .unborn := h.unborn _ (.inl (Nat.lt_succ_self _))
  have hempty : Function.update s.backlog s.round rest (s.round + 1) = [] := by
    rw [Function.update_of_ne (Nat.succ_ne_self _)]
    exact h.later _ (Nat.lt_succ_self _)
  exact
    { unborn := fun k hk => by
        rcases hk with hk | ⟨rfl, -⟩
        · exact h.unborn k (.inl (Nat.lt_of_succ_lt hk))
        · exact hnext
      forked := fun hnot => absurd rfl hnot
      paired := fun j hj => by
        by_cases hjr : j = s.round
        · subst hjr
          exact ⟨Function.update_self .., hworker⟩
        · show Function.update s.iMasterIPCfd s.round (some s.round) j = _ ∧ _
          rw [Function.update_of_ne hjr]
          exact h.paired j (Nat.lt_of_le_of_ne (Nat.le_of_lt_succ hj) hjr)
      notYet := fun j hj => by
        show Function.update s.iMasterIPCfd s.round (some s.round) j = none
        rw [Function.update_of_ne (Nat.ne_of_gt hj)]
        exact h.notYet j (Nat.le_of_succ_le hj)
      unconnected := h.unconnected
      waiting := fun k => by
        show k ∈ Function.update s.backlog s.round rest (s.round + 1) ↔ _
        rw [hempty]
        refine ⟨fun hk => (by cases hk), fun hk => ?_⟩
        have hnone := h.unconnected k (.inl (hk.1 ▸ hnext))
        rw [hk.2] at hnone
        cases hnone
      later := fun j hj => by
        show Function.update s.backlog s.round rest j = []
        rw [Function.update_of_ne (Nat.ne_of_gt (Nat.lt_of_succ_lt hj))]
        exact h.later j (Nat.lt_of_succ_lt hj)
      reached := h.reached
      listened := fun j hj => .inl (by
        rcases h.listened j hj with hlt | ⟨rfl, -⟩
        · exact Nat.lt_succ_of_lt hlt
        · exact Nat.lt_succ_self _)
      listens := fun hpc => by cases hpc }

/-- A worker goes on without connecting, whatever it does to the files. -/
theorem child (h : Paired s) {k : Nat} {pc : ChildPc} (hborn : s.child k ≠ .unborn)
    (hpc : pc ≠ .unborn) (hsame : pc.connecting = true → (s.child k).connecting = true)
    {files : Nat → Option PathEntry} :
    Paired { s with child := Function.update s.child k pc, files } where
  unborn := fun j hj => by
    have hunborn := h.unborn j hj
    show Function.update s.child k pc j = _
    rw [Function.update_of_ne]
    · exact hunborn
    · rintro rfl
      exact hborn hunborn
  forked := fun hnot hrunning => by
    show Function.update s.child k pc s.round ≠ _
    by_cases hkr : s.round = k
    · rw [hkr, Function.update_self]
      exact hpc
    · rw [Function.update_of_ne hkr]
      exact h.forked hnot hrunning
  paired := h.paired
  notYet := h.notYet
  unconnected := fun j hj => by
    by_cases hjk : j = k
    · subst hjk
      dsimp only at hj
      rw [Function.update_self] at hj
      exact h.unconnected j (.inr (hsame (hj.resolve_left hpc)))
    · dsimp only at hj
      rw [Function.update_of_ne hjk] at hj
      exact h.unconnected j hj
  waiting := h.waiting
  later := h.later
  reached := h.reached
  listened := h.listened
  listens := h.listens

/-- A worker connects: it is the worker of the round, to whichever socket its file leads it. -/
theorem connect (h : Paired s) {k round : Nat} (hpc : s.child k = .connect)
    (hlistening : s.listening round = true) :
    Paired { s with
      child := Function.update s.child k .fcntl
      iWorkerIPCfd := Function.update s.iWorkerIPCfd k (some round)
      backlog := Function.update s.backlog round (s.backlog round ++ [k]) } := by
  have hconnecting : (s.child k).connecting = true := by rw [hpc]; rfl
  obtain rfl := h.eq_round hconnecting
  have hnone := h.unconnected s.round (.inr hconnecting)
  have hle : round ≤ s.round := by
    rcases h.listened round hlistening with hlt | ⟨rfl, -⟩
    · exact Nat.le_of_lt hlt
    · exact Nat.le_refl _
  have hborn : s.child s.round ≠ .unborn := by simp [hpc]
  exact
    { unborn := fun j hj => by
        have hunborn := h.unborn j hj
        show Function.update s.child s.round .fcntl j = _
        rw [Function.update_of_ne]
        · exact hunborn
        · rintro rfl
          exact hborn hunborn
      forked := fun _ _ => by
        show Function.update s.child s.round .fcntl s.round ≠ _
        rw [Function.update_self]
        exact ChildPc.noConfusion
      paired := fun j hj => by
        show _ ∧ Function.update s.iWorkerIPCfd s.round (some round) j = _
        rw [Function.update_of_ne (Nat.ne_of_lt hj)]
        exact h.paired j hj
      notYet := h.notYet
      unconnected := fun j hj => by
        by_cases hjr : j = s.round
        · dsimp only at hj
          rw [hjr, Function.update_self] at hj
          rcases hj with hj | hj <;> cases hj
        · dsimp only at hj
          rw [Function.update_of_ne hjr] at hj
          show Function.update s.iWorkerIPCfd s.round (some round) j = none
          rw [Function.update_of_ne hjr]
          exact h.unconnected j hj
      waiting := fun j => by
        have hold : j ∉ s.backlog s.round := fun hj => by
          obtain ⟨rfl, hfd⟩ := (h.waiting j).mp hj
          rw [hnone] at hfd
          cases hfd
        show j ∈ Function.update s.backlog round (s.backlog round ++ [s.round]) s.round ↔
          j = s.round ∧ Function.update s.iWorkerIPCfd s.round (some round) j = some s.round
        by_cases hround : round = s.round
        · subst hround
          rw [Function.update_self, List.mem_append, List.mem_singleton]
          refine ⟨fun hj => ?_, fun hj => .inr hj.1⟩
          obtain rfl := hj.resolve_left hold
          exact ⟨rfl, Function.update_self ..⟩
        · rw [Function.update_of_ne (Ne.symm hround)]
          refine ⟨fun hj => absurd hj hold, fun hj => ?_⟩
          rw [hj.1, Function.update_self] at hj
          exact absurd (Option.some.inj hj.2) hround
      later := fun j hj => by
        show Function.update s.backlog round (s.backlog round ++ [s.round]) j = []
        rw [Function.update_of_ne (Nat.ne_of_gt (Nat.lt_of_le_of_lt hle hj))]
        exact h.later j hj
      reached := fun k j hk => by
        dsimp only at hk
        by_cases hkr : k = s.round
        · rw [hkr, Function.update_self] at hk
          rw [← Option.some.inj hk]
          exact hlistening
        · rw [Function.update_of_ne hkr] at hk
          exact h.reached k j hk
      listened := h.listened
      listens := h.listens }

/-- Before `accept` nobody listens at the socket of the round. -/
theorem not_listening (h : Paired s) (hpc : s.master ≠ .accept) (hpc' : s.master ≠ .failed) :
    s.listening s.round ≠ true := by
  intro hlistening
  rcases h.listened s.round hlistening with hlt | ⟨-, haccept | hfailed⟩
  · exact absurd hlt (Nat.lt_irrefl _)
  · exact hpc haccept
  · exact hpc' hfailed

theorem move (h : Paired s) (hmove : StartUpMove names n s t) : Paired t := by
  cases hmove with
  | failed =>
      exact h.call InitPc.noConfusion (fun hnot => absurd rfl hnot) (fun hpc => by cases hpc)
        (fun _ => .inr rfl) (fun _ _ => rfl) id
  | forked hpc => exact h.fork hpc
  | called pc hpc =>
      rcases hpc with ⟨hpc, rfl⟩ | ⟨hpc, rfl⟩ | ⟨hpc, rfl⟩ | ⟨hpc, -, rfl⟩
      all_goals
        have hsilent := h.not_listening (by simp [hpc]) (by simp [hpc])
        exact h.call InitPc.noConfusion (fun _ => by simp [hpc]) (fun hpc => by cases hpc)
          (fun hl => absurd hl hsilent) (fun _ _ => rfl) id
  | unlinked hpc | bound hpc =>
      have hsilent := h.not_listening (by simp [hpc]) (by simp [hpc])
      exact h.call InitPc.noConfusion (fun _ => by simp [hpc]) (fun hpc => by cases hpc)
        (fun hl => absurd hl hsilent) (fun _ _ => rfl) id
  | listened hpc =>
      exact h.call InitPc.noConfusion (fun _ => by simp [hpc]) (fun _ => Function.update_self ..)
        (fun _ => .inl rfl) (fun j hj => Function.update_of_ne hj ..) fun _ => Function.update_self ..
  | accepted k rest hpc hbacklog => exact h.accept hbacklog
  | went k pc hborn hpc hconnecting => exact h.child hborn hpc hconnecting
  | connected k round hpc _ hlistening => exact h.connect hpc hlistening
  | cleaned k j hpc =>
      have hborn : s.child k ≠ .unborn := by
        rw [hpc]
        exact ChildPc.noConfusion
      exact h.child hborn ChildPc.noConfusion fun hc => by cases hc
  | waited => exact h

end Paired

theorem paired_of_reachable (hs : Reachable (startUp names n) (fun _ _ => True) s) : Paired s :=
  hs.invariant (fun _ h => .init h) fun _ _ _ h _ hstep => h.move (startUpMove_of_step hstep)

/-- Each worker the master has accepted is at the other end of the descriptor in its own entry, and no
descriptor leads to another worker: whatever the names of the files, the failures and the interleaving. -/
theorem startUp_pairs (hs : Reachable (startUp names n) (fun _ _ => True) s) :
    (∀ j < s.round, s.iMasterIPCfd j = some j ∧ s.iWorkerIPCfd j = some j) ∧
      ∀ j k, s.iMasterIPCfd j = some k → k = j ∧ j < s.round := by
  have hpaired := paired_of_reachable hs
  refine ⟨hpaired.paired, fun j k hfd => ?_⟩
  rcases Nat.lt_or_ge j s.round with hlt | hge
  · rw [(hpaired.paired j hlt).1] at hfd
    exact ⟨(Option.some.inj hfd).symm, hlt⟩
  · rw [hpaired.notYet j hge] at hfd
    cases hfd

/-! ### Whether a round comes to its end -/

/-- The worker will come to an entry with the name of the round, if it leaves. -/
def StartUp.Clears (names : Nat → Nat) (s : StartUp) (k : Nat) : Prop :=
  ∃ i, (s.child k).firstEntry = some i ∧ ∃ j, i ≤ j ∧ j < k ∧ names j = names s.round

/-- Nothing is in the way of `bind`, or an earlier worker can remove it. -/
def StartUp.Bindable (names : Nat → Nat) (s : StartUp) : Prop :=
  s.files (names s.round) = none ∨ ∃ k < s.round, s.Clears names k

/-- The name leads to the socket of the round, or can still be made to. -/
def InitPc.Leads (names : Nat → Nat) (s : StartUp) : InitPc → Prop
  | .bind => s.Bindable names
  | .chmod | .listen | .accept => s.files (names s.round) = some (.socket s.round)
  | _ => True

/-- The worker of the round has its `connect` before it, and the name leads to its socket by then. -/
def StartUp.Coming (names : Nat → Nat) (s : StartUp) : Prop :=
  (s.child s.round).connecting = true ∧ s.master.Leads names s

/-- The worker of the round has reached its socket, or still can. -/
def Promising (names : Nat → Nat) (n : Nat) (s : StartUp) : Prop :=
  match s.master with
  | .failed => False
  | .fork => s.round < n
  | _ => s.iWorkerIPCfd s.round = some s.round ∨ s.Coming names

/-- The worker of the round will not be at its socket. -/
structure Astray (names : Nat → Nat) (s : StartUp) : Prop where
  unconnected : s.iWorkerIPCfd s.round ≠ some s.round
  unable : ¬ s.Coming names

theorem not_promising_iff :
    ¬ Promising names n s ↔ s.master = .failed ∨ s.master = .fork ∧ n ≤ s.round ∨
      s.master ≠ .fork ∧ Astray names s := by
  unfold Promising
  cases hpc : s.master with
  | failed => simp
  | fork => simp
  | _ =>
      dsimp only
      rw [not_or]
      refine ⟨fun h => .inr (.inr ⟨InitPc.noConfusion, h.1, h.2⟩), fun h => ?_⟩
      rcases h with h | ⟨h, -⟩ | ⟨-, hunconnected, hunable⟩
      · cases h
      · cases h
      · exact ⟨hunconnected, hunable⟩

/-- What the worker of the round can do after a step of another worker it could do before. -/
theorem StartUp.Coming.of_child {k : Nat} {pc : ChildPc} {files : Nat → Option PathEntry}
    (hcoming : StartUp.Coming names { s with child := Function.update s.child k pc, files })
    (hconnecting : pc.connecting = true → (s.child k).connecting = true)
    (hclears : ∀ k' < s.round, StartUp.Clears names
      { s with child := Function.update s.child k pc, files } k' → s.Clears names k')
    (hclear : files (names s.round) = none → s.Bindable names)
    (hfile : files (names s.round) = some (.socket s.round) →
      s.files (names s.round) = some (.socket s.round)) : s.Coming names := by
  obtain ⟨hround, hleads⟩ := hcoming
  refine ⟨?_, ?_⟩
  · dsimp only at hround
    by_cases hkr : s.round = k
    · rw [hkr, Function.update_self] at hround
      rw [hkr]
      exact hconnecting hround
    · rwa [Function.update_of_ne hkr] at hround
  · dsimp only at hleads
    cases hpc : s.master with
    | bind =>
        rw [hpc] at hleads
        rcases hleads with hnone | ⟨k', hk', hk'clears⟩
        · exact hclear hnone
        · exact .inr ⟨k', hk', hclears k' hk' hk'clears⟩
    | chmod | listen | accept =>
        rw [hpc] at hleads
        exact hfile hleads
    | _ => trivial

/-- A worker that goes on has no more entries before it than it had. -/
theorem StartUp.Clears.of_child {k k' : Nat} {pc : ChildPc} {files : Nat → Option PathEntry}
    (hclears : StartUp.Clears names { s with child := Function.update s.child k pc, files } k')
    (hentry : ∀ j, pc.firstEntry = some j → ∃ i, (s.child k).firstEntry = some i ∧ i ≤ j) :
    s.Clears names k' := by
  obtain ⟨i, hi, j, hij, hjk, hname⟩ := hclears
  dsimp only at hi
  by_cases hk : k' = k
  · subst hk
    rw [Function.update_self] at hi
    obtain ⟨i', hi', hle⟩ := hentry i hi
    exact ⟨i', hi', j, Nat.le_trans hle hij, hjk, hname⟩
  · rw [Function.update_of_ne hk] at hi
    exact ⟨i, hi, j, hij, hjk, hname⟩

/-- A call of the master leaves the worker of the round where it is. -/
theorem Astray.call (h : Astray names s) (hround : t.round = s.round) (hchild : t.child = s.child)
    (hfds : t.iWorkerIPCfd = s.iWorkerIPCfd) (hleads : t.master.Leads names t → s.master.Leads names s) :
    Astray names t := by
  refine ⟨?_, fun hcoming => h.unable ⟨?_, hleads hcoming.2⟩⟩
  · rw [hround, hfds]
    exact h.unconnected
  · rw [← hround, ← hchild]
    exact hcoming.1

/-- A worker that has gone another way does not come back. -/
theorem Astray.move (h : Astray names s) (hpaired : Paired s) (hmaster : s.master ≠ .fork)
    (hmove : StartUpMove names n s t) :
    t.round = s.round ∧ (t.master = .failed ∨ t.master ≠ .fork ∧ Astray names t) := by
  cases hmove with
  | failed => exact ⟨rfl, .inl rfl⟩
  | forked hpc => exact absurd hpc hmaster
  | called pc hpc =>
      refine ⟨rfl, .inr ?_⟩
      rcases hpc with ⟨hpc, rfl⟩ | ⟨hpc, rfl⟩ | ⟨hpc, rfl⟩ | ⟨hpc, -, rfl⟩
      all_goals
        refine ⟨InitPc.noConfusion, h.call rfl rfl rfl fun hleads => ?_⟩
        rw [hpc]
      · trivial
      · trivial
      · trivial
      · exact hleads
  | unlinked hpc =>
      refine ⟨rfl, .inr ⟨InitPc.noConfusion, h.call rfl rfl rfl fun _ => ?_⟩⟩
      rw [hpc]
      trivial
  | bound hpc hclear =>
      refine ⟨rfl, .inr ⟨InitPc.noConfusion, h.call rfl rfl rfl fun _ => ?_⟩⟩
      rw [hpc]
      exact .inl hclear
  | listened hpc =>
      refine ⟨rfl, .inr ⟨InitPc.noConfusion, h.call rfl rfl rfl fun hleads => ?_⟩⟩
      rw [hpc]
      exact hleads
  | accepted k rest hpc hbacklog =>
      obtain ⟨rfl, hfd⟩ := (hpaired.waiting k).mp (by rw [hbacklog]; exact List.mem_cons_self)
      exact absurd hfd h.unconnected
  | went k pc hborn hpc hconnecting hentry =>
      refine ⟨rfl, .inr ⟨hmaster, h.unconnected, fun hc => h.unable ?_⟩⟩
      exact hc.of_child hconnecting (fun _ _ hclears => hclears.of_child hentry) .inl id
  | connected k round hpc hfile hlistening =>
      have hconnecting : (s.child k).connecting = true := by rw [hpc]; rfl
      obtain rfl := hpaired.eq_round hconnecting
      have helsewhere : some round ≠ some s.round := fun heq => by
        rw [Option.some.inj heq] at hfile
        have hleads : s.master.Leads names s := by
          rcases hpaired.listened s.round (Option.some.inj heq ▸ hlistening) with hlt | ⟨-, hpc | hpc⟩
          · exact absurd hlt (Nat.lt_irrefl _)
          · rw [hpc]
            exact hfile
          · rw [hpc]
            trivial
        exact h.unable ⟨hconnecting, hleads⟩
      refine ⟨rfl, .inr ⟨hmaster, ?_, fun hc => ?_⟩⟩
      · dsimp only
        rw [Function.update_self]
        exact helsewhere
      · have hround := hc.1
        dsimp only at hround
        rw [Function.update_self] at hround
        cases hround
  | cleaned k j hpc hj =>
      refine ⟨rfl, .inr ⟨hmaster, h.unconnected, fun hc => h.unable ?_⟩⟩
      have hentry : ∀ i, (ChildPc.leaving (j + 1)).firstEntry = some i →
          ∃ i', (s.child k).firstEntry = some i' ∧ i' ≤ i := fun i hi =>
        ⟨j, by rw [hpc]; rfl, by rw [← Option.some.inj hi]; exact Nat.le_succ j⟩
      have hround : (s.child s.round).connecting = true := by
        have hround := hc.1
        dsimp only at hround
        by_cases hkr : s.round = k
        · rw [hkr, Function.update_self] at hround
          cases hround
        · rwa [Function.update_of_ne hkr] at hround
      refine hc.of_child (fun hc => by cases hc) (fun _ _ hclears => hclears.of_child hentry) ?_ ?_
      · intro hnone
        by_cases hname : names s.round = names j
        · -- the worker is an earlier one, and was at an entry with the name of the round
          refine .inr ⟨k, ?_, j, by rw [hpc]; rfl, j, Nat.le_refl j, hj, hname.symm⟩
          rcases Nat.lt_trichotomy k s.round with hlt | rfl | hgt
          · exact hlt
          · rw [hpc] at hround
            cases hround
          · rw [hpaired.unborn k (.inl hgt)] at hpc
            cases hpc
        · rw [Function.update_of_ne hname] at hnone
          exact .inl hnone
      · intro hsocket
        by_cases hname : names s.round = names j
        · rw [hname, Function.update_self] at hsocket
          cases hsocket
        · rwa [Function.update_of_ne hname] at hsocket
  | waited => exact ⟨rfl, .inr ⟨hmaster, h⟩⟩

theorem not_promising_move (h : Paired s) (hnot : ¬ Promising names n s)
    (hmove : StartUpMove names n s t) : t.round = s.round ∧ ¬ Promising names n t := by
  rw [not_promising_iff] at hnot ⊢
  rcases hnot with hfailed | hreturned | ⟨hmaster, hastray⟩
  · -- a process that has failed does not call `worker_init` again
    cases hmove with
    | failed => exact ⟨rfl, .inl rfl⟩
    | called pc hpc => simp [hfailed] at hpc
    | forked hpc | unlinked hpc | bound hpc | listened hpc | accepted _ _ hpc =>
        rw [hfailed] at hpc
        cases hpc
    | went | connected | cleaned | waited => exact ⟨rfl, .inl hfailed⟩
  · cases hmove with
    | failed => exact ⟨rfl, .inl rfl⟩
    | forked hpc hround => exact absurd hround (Nat.not_lt.mpr hreturned.2)
    | called pc hpc => simp [hreturned.1] at hpc
    | unlinked hpc | bound hpc | listened hpc | accepted _ _ hpc =>
        rw [hreturned.1] at hpc
        cases hpc
    | went | connected | cleaned | waited => exact ⟨rfl, .inr (.inl hreturned)⟩
  · obtain ⟨hround, hnext⟩ := hastray.move h hmaster hmove
    exact ⟨hround, hnext.imp_right .inr⟩

theorem not_promising_run (hs : Reachable (startUp names n) (fun _ _ => True) s)
    (hnot : ¬ Promising names n s) {ls : List StartUpLabel} (hrun : (startUp names n).run s ls = some t) :
    t.round = s.round := by
  induction ls generalizing s with
  | nil =>
      obtain rfl := Option.some.inj hrun
      rfl
  | cons l ls ih =>
      obtain ⟨u, hu, hrest⟩ := Option.bind_eq_some_iff.mp hrun
      obtain ⟨hround, hnext⟩ :=
        not_promising_move (paired_of_reachable hs) hnot (startUpMove_of_step hu)
      exact (ih (.step hs trivial hu) hnext hrest).trans hround

/-! A round that can end is brought to its end by the master and the worker of the round. -/

/-- The calls the master has before `accept`. -/
def InitPc.left : InitPc → Nat
  | .fork => 7
  | .socket => 6
  | .ipcFolder => 5
  | .unlink => 4
  | .bind => 3
  | .chmod => 2
  | .listen => 1
  | .accept | .failed => 0

def ChildPc.left : ChildPc → Nat
  | .chdir => 4
  | .access => 3
  | .socket => 2
  | .connect => 1
  | _ => 0

/-- The steps to go in a round. -/
def StartUp.left (s : StartUp) : Nat := 5 * s.master.left + (s.child s.round).left

/-- Inside a round. -/
theorem promising_iff (hnot : s.master ≠ .failed) (hnot' : s.master ≠ .fork) :
    Promising names n s ↔ s.iWorkerIPCfd s.round = some s.round ∨ s.Coming names := by
  unfold Promising
  split
  · exact absurd ‹_› hnot
  · exact absurd ‹_› hnot'
  · exact Iff.rfl

/-- Before `accept` the worker of the round has not connected to its socket. -/
theorem Promising.coming (h : Promising names n s) (hpaired : Paired s)
    (hnot : s.master ≠ .failed) (hnot' : s.master ≠ .fork) (hpc : s.master ≠ .accept) :
    s.Coming names := by
  apply ((promising_iff hnot hnot').mp h).resolve_left
  intro hfd
  exact hpaired.not_listening hpc hnot (hpaired.reached _ _ hfd)

/-- The round can end, and no other worker is needed for it. -/
structure Unhindered (names : Nat → Nat) (n : Nat) (s : StartUp) : Prop where
  promising : Promising names n s
  clear : s.master = .bind → s.files (names s.round) = none

/-- Inside a round, with the worker of the round on its way. -/
theorem Unhindered.of_coming (hnot : s.master ≠ .failed) (hnot' : s.master ≠ .fork)
    (hcoming : s.Coming names) (hclear : s.master = .bind → s.files (names s.round) = none) :
    Unhindered names n s :=
  ⟨(promising_iff hnot hnot').mpr (.inr hcoming), hclear⟩

/-- The master takes its step while it has one before `accept`. -/
theorem Unhindered.masterStep (h : Unhindered names n s) (hpaired : Paired s)
    (hpc : s.master ≠ .accept) :
    ∃ t, (startUp names n).step s (.master true) = some t ∧ t.round = s.round ∧
      Unhindered names n t ∧ t.left < s.left := by
  have hcoming := h.promising.coming hpaired
  show ∃ t, s.workerInitStep names n true = some t ∧ _
  unfold StartUp.workerInitStep
  cases hmaster : s.master with
  | failed =>
      have hpromising := h.promising
      rw [Promising, hmaster] at hpromising
      exact hpromising.elim
  | accept => exact absurd hmaster hpc
  | fork =>
      have hround := h.promising
      rw [Promising, hmaster] at hround
      dsimp only
      rw [if_neg (Nat.not_le.mpr hround)]
      refine ⟨_, rfl, rfl, .of_coming InitPc.noConfusion InitPc.noConfusion ⟨?_, trivial⟩
        InitPc.noConfusion, ?_⟩
      · dsimp only
        rw [Function.update_self]
        rfl
      · simp only [StartUp.left, hmaster, Function.update_self, InitPc.left, ChildPc.left]
        omega
  | socket | ipcFolder =>
      rw [hmaster] at hcoming
      have hconnecting := (hcoming InitPc.noConfusion InitPc.noConfusion InitPc.noConfusion).1
      refine ⟨_, rfl, rfl, .of_coming InitPc.noConfusion InitPc.noConfusion ⟨hconnecting, trivial⟩
        InitPc.noConfusion, ?_⟩
      simp only [StartUp.left, hmaster, InitPc.left]
      omega
  | unlink =>
      rw [hmaster] at hcoming
      have hconnecting := (hcoming InitPc.noConfusion InitPc.noConfusion InitPc.noConfusion).1
      have hclear : Function.update s.files (names s.round) none (names s.round) = none :=
        Function.update_self ..
      refine ⟨_, rfl, rfl, .of_coming InitPc.noConfusion InitPc.noConfusion
        ⟨hconnecting, .inl hclear⟩ fun _ => hclear, ?_⟩
      simp only [StartUp.left, hmaster, InitPc.left]
      omega
  | bind =>
      rw [hmaster] at hcoming
      have hconnecting := (hcoming InitPc.noConfusion InitPc.noConfusion InitPc.noConfusion).1
      dsimp only
      rw [if_pos ⟨rfl, h.clear hmaster⟩]
      refine ⟨_, rfl, rfl, .of_coming InitPc.noConfusion InitPc.noConfusion
        ⟨hconnecting, Function.update_self ..⟩ InitPc.noConfusion, ?_⟩
      simp only [StartUp.left, hmaster, InitPc.left]
      omega
  | chmod | listen =>
      obtain ⟨hconnecting, hleads⟩ := hcoming (by simp [hmaster]) (by simp [hmaster]) (by simp [hmaster])
      rw [hmaster] at hleads
      have hsocket : s.files (names s.round) = some (.socket s.round) := hleads
      dsimp only
      rw [if_pos (by simp [hsocket])]
      refine ⟨_, rfl, rfl, .of_coming InitPc.noConfusion InitPc.noConfusion ⟨hconnecting, hsocket⟩
        InitPc.noConfusion, ?_⟩
      simp only [StartUp.left, hmaster, InitPc.left]
      omega

/-- At `accept` the worker of the round goes on to its `connect`. -/
theorem Unhindered.childStep (h : Unhindered names n s) (hpaired : Paired s)
    (hpc : s.master = .accept) (hnot : s.iWorkerIPCfd s.round ≠ some s.round) :
    ∃ t, (startUp names n).step s (.child s.round true) = some t ∧ t.round = s.round ∧
      Unhindered names n t ∧ t.left < s.left := by
  obtain ⟨hconnecting, hleads⟩ :=
    ((promising_iff (by simp [hpc]) (by simp [hpc])).mp h.promising).resolve_left hnot
  rw [hpc] at hleads
  have hsocket : s.files (names s.round) = some (.socket s.round) := hleads
  have hlistening := hpaired.listens hpc
  have hgo : ∀ pc : ChildPc, pc.connecting = true →
      Unhindered names n { s with child := Function.update s.child s.round pc } := by
    intro pc hconnecting
    refine .of_coming (by simp [hpc]) (by simp [hpc]) ⟨?_, ?_⟩ fun hbind => ?_
    · dsimp only
      rw [Function.update_self]
      exact hconnecting
    · dsimp only
      rw [hpc]
      exact hsocket
    · dsimp only at hbind
      rw [hpc] at hbind
      cases hbind
  show ∃ t, s.workerpEntryStep names s.round true = some t ∧ _
  unfold StartUp.workerpEntryStep
  cases hchild : s.child s.round with
  | unborn | fcntl | evRun | gone | leaving =>
      rw [hchild] at hconnecting
      cases hconnecting
  | chdir =>
      refine ⟨_, rfl, rfl, hgo .access rfl, ?_⟩
      simp [StartUp.left, hchild, ChildPc.left]
  | access =>
      dsimp only
      rw [hsocket, if_neg (Option.some_ne_none _)]
      refine ⟨_, rfl, rfl, hgo .socket rfl, ?_⟩
      simp [StartUp.left, hchild, ChildPc.left]
  | socket =>
      refine ⟨_, rfl, rfl, hgo .connect rfl, ?_⟩
      simp [StartUp.left, hchild, ChildPc.left]
  | connect =>
      dsimp only
      rw [hsocket]
      dsimp only
      rw [if_pos ⟨rfl, hlistening⟩]
      refine ⟨_, rfl, rfl, ⟨(promising_iff (by simp [hpc]) (by simp [hpc])).mpr
        (.inl (Function.update_self ..)), fun hbind => ?_⟩, ?_⟩
      · dsimp only at hbind
        rw [hpc] at hbind
        cases hbind
      · simp [StartUp.left, hchild, ChildPc.left]

theorem Paired.acceptStep (hpaired : Paired s) (hpc : s.master = .accept)
    (hfd : s.iWorkerIPCfd s.round = some s.round) :
    ∃ t, (startUp names n).step s (.master true) = some t ∧ t.round = s.round + 1 := by
  obtain ⟨k, rest, hbacklog⟩ := List.exists_cons_of_ne_nil
    (List.ne_nil_of_mem ((hpaired.waiting s.round).mpr ⟨rfl, hfd⟩))
  show ∃ t, s.workerInitStep names n true = some t ∧ _
  unfold StartUp.workerInitStep
  rw [hpc]
  dsimp only
  rw [if_pos rfl, hbacklog]
  exact ⟨_, rfl, rfl⟩

theorem Unhindered.finishes (hs : Reachable (startUp names n) (fun _ _ => True) s)
    (h : Unhindered names n s) :
    ∃ ls t, (startUp names n).run s ls = some t ∧ s.round < t.round := by
  induction hleft : s.left using Nat.strongRecOn generalizing s with
  | ind left ih =>
      have hpaired := paired_of_reachable hs
      -- one step nearer to `accept`, and the rest of the round from there
      have hnearer : (∃ l u, (startUp names n).step s l = some u ∧ u.round = s.round ∧
          Unhindered names n u ∧ u.left < s.left) →
          ∃ ls t, (startUp names n).run s ls = some t ∧ s.round < t.round := by
        rintro ⟨l, u, hu, hround, hunhindered, hlt⟩
        obtain ⟨ls, t, hrun, hend⟩ := ih u.left (hleft ▸ hlt) (.step hs trivial hu) hunhindered rfl
        rw [hround] at hend
        refine ⟨l :: ls, t, ?_, hend⟩
        rw [System.run, hu]
        exact hrun
      by_cases hpc : s.master = .accept
      · by_cases hfd : s.iWorkerIPCfd s.round = some s.round
        · obtain ⟨t, ht, hround⟩ := hpaired.acceptStep (n := n) hpc hfd
          refine ⟨[.master true], t, ?_, by omega⟩
          rw [System.run, ht]
          rfl
        · exact hnearer ⟨_, h.childStep hpaired hpc hfd⟩
      · exact hnearer ⟨_, h.masterStep hpaired hpc⟩

/-! What is in the way of `bind` is removed by an earlier worker that leaves. -/

/-- The steps of another worker that leave nothing at the name of the round. -/
def ClearedBy (names : Nat → Nat) (n : Nat) (s : StartUp) : Prop :=
  ∃ ls t, (startUp names n).run s ls = some t ∧ t.round = s.round ∧ t.master = s.master ∧
    t.child s.round = s.child s.round ∧ t.files (names s.round) = none

theorem ClearedBy.step {l : StartUpLabel} {k : Nat} {pc : ChildPc}
    {files : Nat → Option PathEntry} (hk : s.round ≠ k)
    (hstep : (startUp names n).step s l
      = some { s with child := Function.update s.child k pc, files })
    (h : ClearedBy names n { s with child := Function.update s.child k pc, files }) :
    ClearedBy names n s := by
  obtain ⟨ls, t, hrun, hround, hmaster, hchild, hclear⟩ := h
  refine ⟨l :: ls, t, ?_, hround, hmaster, ?_, hclear⟩
  · rw [System.run, hstep]
    exact hrun
  · rw [hchild]
    exact Function.update_of_ne hk ..

theorem clearedBy_of_leaving {k i j : Nat} (hk : s.round ≠ k) (hpc : s.child k = .leaving i)
    (hij : i ≤ j) (hjk : j < k) (hname : names j = names s.round) : ClearedBy names n s := by
  induction hsteps : j - i generalizing s i with
  | zero =>
      obtain rfl : i = j := by omega
      refine ⟨[.child k true], { s with
        child := Function.update s.child k (.leaving (i + 1))
        files := Function.update s.files (names i) none }, ?_, rfl, rfl, Function.update_of_ne hk .., ?_⟩
      · simp only [System.run, startUp, StartUp.step, StartUp.workerpEntryStep, hpc, if_pos hjk, if_true,
          Option.bind_some]
      · dsimp only
        rw [hname, Function.update_self]
  | succ steps ih =>
      have hik : i < k := by omega
      have hstep : (startUp names n).step s (.child k true) = some { s with
          child := Function.update s.child k (.leaving (i + 1))
          files := Function.update s.files (names i) none } := by
        simp only [startUp, StartUp.step, StartUp.workerpEntryStep, hpc, if_pos hik, if_true]
      exact ClearedBy.step hk hstep (ih hk (Function.update_self ..) (by omega) hname (by omega))

theorem StartUp.Clears.clearedBy {k : Nat} (hclears : s.Clears names k) (hpaired : Paired s)
    (hk : k < s.round) : ClearedBy names n s := by
  obtain ⟨i, hi, j, hij, hjk, hname⟩ := hclears
  have hne : s.round ≠ k := Nat.ne_of_gt hk
  have hleave : (startUp names n).step s (.child k false)
      = some { s with child := Function.update s.child k (.leaving 0), files := s.files } →
      ClearedBy names n s := fun hstep =>
    .step hne hstep (clearedBy_of_leaving hne (Function.update_self ..) (Nat.zero_le j) hjk hname)
  cases hpc : s.child k with
  | unborn | gone =>
      rw [hpc] at hi
      cases hi
  | chdir | access | socket | connect =>
      exact absurd (hpaired.eq_round (by rw [hpc]; rfl)) (Nat.ne_of_lt hk)
  | fcntl | evRun =>
      apply hleave
      simp only [startUp, StartUp.step, StartUp.workerpEntryStep, hpc, Bool.false_eq_true, if_false]
  | leaving i' =>
      rw [hpc] at hi
      obtain rfl := Option.some.inj hi
      exact clearedBy_of_leaving hne hpc hij hjk hname

theorem Promising.finishes (hs : Reachable (startUp names n) (fun _ _ => True) s)
    (h : Promising names n s) :
    ∃ ls t, (startUp names n).run s ls = some t ∧ s.round < t.round := by
  have hpaired := paired_of_reachable hs
  by_cases hclear : s.master = .bind → s.files (names s.round) = none
  · exact Unhindered.finishes hs ⟨h, hclear⟩
  · -- `bind` would fail, and an earlier worker has to leave first
    obtain ⟨hbind, hfile⟩ := Classical.not_imp.mp hclear
    obtain ⟨hconnecting, hleads⟩ :=
      h.coming hpaired (by simp [hbind]) (by simp [hbind]) (by simp [hbind])
    rw [hbind] at hleads
    obtain ⟨k, hk, hclears⟩ := Or.resolve_left hleads hfile
    obtain ⟨ls, t, hrun, hround, hmaster, hchild, hnone⟩ := hclears.clearedBy (n := n) hpaired hk
    rw [← hround] at hchild hnone
    have hunhindered : Unhindered names n t := by
      rw [hbind] at hmaster
      refine .of_coming (by simp [hmaster]) (by simp [hmaster]) ⟨?_, ?_⟩ fun _ => hnone
      · rw [hchild, hround]
        exact hconnecting
      · rw [hmaster]
        exact .inl hnone
    obtain ⟨more, u, hmore, hend⟩ := hunhindered.finishes (hs.run (fun _ _ _ => trivial) hrun)
    exact ⟨ls ++ more, u, System.run_append hrun hmore, hround ▸ hend⟩

/-- A round comes to its end in some run exactly if its worker has reached the socket of the round or still
can. Otherwise it does not in any: `worker_init` has returned, or can only wait in the round, or return a
failure after a call that fails. -/
theorem round_finishes_iff (hs : Reachable (startUp names n) (fun _ _ => True) s) :
    (∃ ls t, (startUp names n).run s ls = some t ∧ s.round < t.round) ↔ Promising names n s := by
  refine ⟨fun ⟨ls, t, hrun, hlt⟩ => ?_, Promising.finishes hs⟩
  by_contra hnot
  exact absurd (not_promising_run hs hnot hrun) (Nat.ne_of_gt hlt)

/-- Two workers whose files have the same name, over a file left from another start. -/
def sameName : StartUp where
  round := 0
  master := .fork
  child := fun _ => .unborn
  files := fun _ => some .stale
  listening := fun _ => false
  backlog := fun _ => []
  iWorkerIPCfd := fun _ => none
  iMasterIPCfd := fun _ => none

theorem sameName_init (names : Nat → Nat) (n : Nat) : (startUp names n).Init sameName := by
  simp [startUp, sameName]

def masterCalls (count : Nat) : List StartUpLabel := List.replicate count (.master true)

def childCalls (k count : Nat) : List StartUpLabel := List.replicate count (.child k true)

/-- In both rounds the worker waits for the master to listen. -/
def inTurn : List StartUpLabel :=
  masterCalls 7 ++ childCalls 0 5 ++ masterCalls 8 ++ childCalls 1 4 ++ masterCalls 1

theorem startUp_pairs_sameName :
    ∃ s, (startUp (fun _ => 7) 2).run sameName inTurn = some s ∧ s.round = 2 ∧
      (∀ j < 2, s.iMasterIPCfd j = some j ∧ s.iWorkerIPCfd j = some j) := by
  obtain ⟨s, hrun, hround⟩ :
      ∃ s, (startUp (fun _ => 7) 2).run sameName inTurn = some s ∧ s.round = 2 := ⟨_, rfl, rfl⟩
  have hinit : Reachable (startUp (fun _ => 7) 2) (fun _ _ => True) sameName :=
    .init (sameName_init _ _)
  refine ⟨s, hrun, hround, ?_⟩
  have hpairs := (startUp_pairs (hinit.run (fun _ _ _ => trivial) hrun)).1
  rwa [hround] at hpairs

/-- The second worker finds the socket of the first round under its own name. -/
def inFirstSocket : List StartUpLabel :=
  masterCalls 7 ++ childCalls 0 5 ++ masterCalls 2 ++ childCalls 1 4

theorem round_finishes_iff_sameName :
    ∃ s, (startUp (fun _ => 7) 2).run sameName inFirstSocket = some s ∧ s.round = 1 ∧
      s.child 1 = .fcntl ∧
      ¬ ∃ ls t, (startUp (fun _ => 7) 2).run s ls = some t ∧ 1 < t.round := by
  obtain ⟨s, hrun, hround, hmaster, hchild, hfd⟩ :
      ∃ s, (startUp (fun _ => 7) 2).run sameName inFirstSocket = some s ∧ s.round = 1 ∧
        s.master = .socket ∧ s.child 1 = .fcntl ∧ s.iWorkerIPCfd 1 = some 0 :=
    ⟨_, rfl, rfl, rfl, rfl, rfl⟩
  have hinit : Reachable (startUp (fun _ => 7) 2) (fun _ _ => True) sameName :=
    .init (sameName_init _ _)
  refine ⟨s, hrun, hround, hchild, ?_⟩
  rw [← hround, round_finishes_iff (hinit.run (fun _ _ _ => trivial) hrun)]
  rw [Promising, hmaster]
  simp [StartUp.Coming, hround, hchild, hfd, ChildPc.connecting]

end CewServer.Worker
