import CewServer.Lib.Transition

/-!
# Connecting a worker to the master

After the fork the master goes through `worker_create_ipc_socket` and the worker through
`workerp_connect_ipc_socket`, and the only thing they share is the file at `IPCFile`. Each system call
is one step, and they interleave in any order. No call fails but `connect`, which fails when the file
is not that of a listening socket, and then the worker leaves; `accept` waits for the worker.

The worker takes the file for a sign that the master is ready. But the file may be left over from an
earlier start until the master has unlinked it, and it is there from `bind` on, two calls before
`listen`.
-/

namespace CewServer.Worker

open Transition

inductive IpcFile where
  | absent
  /-- Left over from another start: nobody listens. -/
  | stale
  | bound
  | listening
  deriving DecidableEq

/-- The next call of `worker_create_ipc_socket`. -/
inductive MasterPc where
  | socket
  | ipcFolder
  | unlink
  | bind
  | chmod
  | listen
  | accept
  | done
  deriving DecidableEq

/-- The next call of `workerp_connect_ipc_socket`. -/
inductive WorkerPc where
  | access
  | socket
  | connect
  | connected
  | exited
  deriving DecidableEq

def MasterPc.listens : MasterPc → Bool
  | .accept | .done => true
  | _ => false

/-- The two parties and the file. `earlyConnect` is history: the worker's `connect` was issued before
the master's `listen`. -/
structure Handshake where
  file : IpcFile
  master : MasterPc
  worker : WorkerPc
  earlyConnect : Bool
  deriving DecidableEq

inductive Party where
  | master
  | worker
  deriving DecidableEq

def Handshake.workerCreateIpcSocket (s : Handshake) : Option Handshake :=
  match s.master with
  | .socket => some { s with master := .ipcFolder }
  | .ipcFolder => some { s with master := .unlink }
  | .unlink => some { s with file := .absent, master := .bind }
  | .bind => some { s with file := .bound, master := .chmod }
  | .chmod => some { s with master := .listen }
  | .listen => some { s with file := .listening, master := .accept }
  | .accept => if s.worker = .connected then some { s with master := .done } else none
  | .done => none

def Handshake.workerpConnectIpcSocket (s : Handshake) : Option Handshake :=
  match s.worker with
  | .access => if s.file = .absent then some s else some { s with worker := .socket }
  | .socket => some { s with worker := .connect }
  | .connect =>
      some { s with
        worker := if s.file = .listening then .connected else .exited
        earlyConnect := s.earlyConnect || !s.master.listens }
  | .connected | .exited => none

def Handshake.step (s : Handshake) : Party → Option Handshake
  | .master => s.workerCreateIpcSocket
  | .worker => s.workerpConnectIpcSocket

def Handshake.start (file : IpcFile) : Handshake := ⟨file, .socket, .access, false⟩

def handshake : System Handshake Party where
  Init s := s = .start .absent ∨ s = .start .stale
  step := Handshake.step

/-- The master has listened before the worker's `connect`, and is not waiting for a worker that has
left. -/
def Handshake.Safe (s : Handshake) : Prop :=
  s.earlyConnect = false ∧ ¬ (s.worker = .exited ∧ s.master = .accept)

instance (s : Handshake) : Decidable s.Safe :=
  inferInstanceAs (Decidable (s.earlyConnect = false ∧ ¬ (s.worker = .exited ∧ s.master = .accept)))

/-- The worker's `access` finds the file only when it is that of a listening socket. -/
def FoundListening (s : Handshake) (l : Party) : Prop :=
  l = .worker → s.worker = .access → s.file ≠ .absent → s.file = .listening

/-- What holds while the worker is not led on by a file that is not yet, or no longer, listened on. -/
structure HandshakeOk (s : Handshake) : Prop where
  file : s.file = .listening ↔ s.master.listens = true
  found : s.worker ≠ .access → s.file = .listening
  stays : s.worker ≠ .exited
  early : s.earlyConnect = false

/-- Before the `listen` the socket does not listen, and the worker has not found the file. -/
theorem HandshakeOk.before_listen {s : Handshake} (hs : HandshakeOk s)
    (hbefore : s.master.listens = false) : s.file ≠ .listening ∧ s.worker = .access := by
  have hfile : s.file ≠ .listening := fun hlistening =>
    Bool.false_ne_true (hbefore.symm.trans (hs.file.mp hlistening))
  exact ⟨hfile, Decidable.byContradiction fun hfound => hfile (hs.found hfound)⟩

theorem HandshakeOk.master {s t : Handshake} (hs : HandshakeOk s)
    (hstep : s.workerCreateIpcSocket = some t) : HandshakeOk t := by
  have hbefore := hs.before_listen
  unfold Handshake.workerCreateIpcSocket at hstep
  split at hstep
  all_goals rename_i hpc
  all_goals rw [hpc] at hbefore
  · cases hstep
    exact ⟨⟨fun h => absurd h (hbefore rfl).1, Bool.noConfusion⟩, hs.found, hs.stays, hs.early⟩
  · cases hstep
    exact ⟨⟨fun h => absurd h (hbefore rfl).1, Bool.noConfusion⟩, hs.found, hs.stays, hs.early⟩
  · cases hstep
    exact ⟨⟨IpcFile.noConfusion, Bool.noConfusion⟩, fun h => absurd (hbefore rfl).2 h, hs.stays, hs.early⟩
  · cases hstep
    exact ⟨⟨IpcFile.noConfusion, Bool.noConfusion⟩, fun h => absurd (hbefore rfl).2 h, hs.stays, hs.early⟩
  · cases hstep
    exact ⟨⟨fun h => absurd h (hbefore rfl).1, Bool.noConfusion⟩, hs.found, hs.stays, hs.early⟩
  · cases hstep
    exact ⟨⟨fun _ => rfl, fun _ => rfl⟩, fun _ => rfl, hs.stays, hs.early⟩
  · split at hstep
    · cases hstep
      have hlistening := hs.file.mpr (by rw [hpc]; rfl)
      exact ⟨⟨fun _ => rfl, fun _ => hlistening⟩, hs.found, hs.stays, hs.early⟩
    · cases hstep
  · cases hstep

theorem HandshakeOk.worker {s t : Handshake} (hs : HandshakeOk s)
    (hpromise : FoundListening s .worker) (hstep : s.workerpConnectIpcSocket = some t) :
    HandshakeOk t := by
  unfold Handshake.workerpConnectIpcSocket at hstep
  split at hstep
  · rename_i hpc
    split at hstep
    · cases hstep
      exact hs
    · rename_i hthere
      cases hstep
      exact ⟨hs.file, fun _ => hpromise rfl hpc hthere, WorkerPc.noConfusion, hs.early⟩
  · rename_i hpc
    cases hstep
    have hlistening := hs.found (by rw [hpc]; exact WorkerPc.noConfusion)
    exact ⟨hs.file, fun _ => hlistening, WorkerPc.noConfusion, hs.early⟩
  · rename_i hpc
    cases hstep
    have hlistening := hs.found (by rw [hpc]; exact WorkerPc.noConfusion)
    refine ⟨hs.file, fun _ => hlistening, ?_, ?_⟩
    · rw [if_pos hlistening]
      exact WorkerPc.noConfusion
    · rw [hs.early, hs.file.mp hlistening]
      rfl
  · cases hstep
  · cases hstep

theorem handshakeOk_of_reachable {s : Handshake} (hs : Reachable handshake FoundListening s) :
    HandshakeOk s := by
  apply Reachable.invariant _ _ hs
  · rintro s (rfl | rfl)
    · exact ⟨by decide, fun h => absurd rfl h, by decide, rfl⟩
    · exact ⟨by decide, fun h => absurd rfl h, by decide, rfl⟩
  · intro s l t hok hpromise hstep
    cases l with
    | master => exact hok.master hstep
    | worker => exact hok.worker hpromise hstep

/-- In a run in which the worker finds the file only once the master listens, the start-up is safe; and
where it would find the file earlier, going on with the worker alone makes it unsafe. -/
theorem handshake_safe {s : Handshake} (hs : Reachable handshake FoundListening s) :
    s.Safe ∧ (s.worker = .access → s.file ≠ .absent → s.file ≠ .listening →
      ∃ t, handshake.run s [.worker, .worker, .worker] = some t ∧ ¬ t.Safe) := by
  have hok := handshakeOk_of_reachable hs
  refine ⟨⟨hok.early, fun h => hok.stays h.1⟩, ?_⟩
  intro hpc hthere hnot
  have hbefore : s.master.listens = false := by
    cases hlistens : s.master.listens with
    | false => rfl
    | true => exact absurd (hok.file.mpr hlistens) hnot
  refine ⟨{ s with worker := .exited, earlyConnect := true }, ?_, fun h => Bool.noConfusion h.1⟩
  simp only [System.run, handshake, Handshake.step, Handshake.workerpConnectIpcSocket, hpc,
    if_neg hthere, if_neg hnot, hbefore, Option.bind_some, Bool.not_false, Bool.or_true]

/-- The master goes first, over a file left from another start; then the worker finds the file. -/
theorem handshake_safe_masterFirst :
    handshake.run (.start .stale)
        [.master, .master, .master, .master, .master, .master, .worker, .worker, .worker]
      = some ⟨.listening, .accept, .connected, false⟩ ∧
      Handshake.Safe ⟨.listening, .accept, .connected, false⟩ := by
  refine ⟨rfl, (handshake_safe ?_).1⟩
  have hinit : Reachable handshake FoundListening (.start .stale) := .init (Or.inr rfl)
  have hmaster : ∀ l ∈ List.replicate 6 Party.master, ∀ s, FoundListening s l := by
    intro l hl s hworker
    rw [List.eq_of_mem_replicate hl] at hworker
    cases hworker
  have hlistening : Reachable handshake FoundListening ⟨.listening, .accept, .access, false⟩ :=
    hinit.run hmaster rfl
  have hfound : Reachable handshake FoundListening ⟨.listening, .accept, .socket, false⟩ :=
    .step (l := .worker) hlistening (fun _ _ _ => rfl) rfl
  have hsocket : Reachable handshake FoundListening ⟨.listening, .accept, .connect, false⟩ :=
    .step (l := .worker) hfound (fun _ _ _ => rfl) rfl
  exact .step (l := .worker) hsocket (fun _ _ _ => rfl) rfl

/-- The worker finds the file after `bind` and connects before `listen`: it leaves, and the master
waits for it. -/
theorem handshake_unsafe : ¬ ∀ s, Reachable handshake (fun _ _ => True) s → s.Safe := by
  intro hsafe
  have hinit : Reachable handshake (fun _ _ => True) (.start .absent) := .init (Or.inl rfl)
  have hrun : handshake.run (.start .absent)
      [.master, .master, .master, .master, .worker, .worker, .worker, .master, .master]
      = some ⟨.listening, .accept, .exited, true⟩ := rfl
  have hblocked := hsafe _ (hinit.run (fun _ _ _ => trivial) hrun)
  exact absurd hblocked (by decide)

end CewServer.Worker
