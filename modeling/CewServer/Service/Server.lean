import CewServer.Service.Connections
import CewServer.Worker.Handover
import CewServer.Client.Terminated

/-!
# The master and its workers together

The master of `Worker.Handover`, and for each of its channels the worker of `Client.Session` that reads
from it. The two meet in `workerp_ipc_callback`: what it takes from the channel is what it passes to
`client_register_ev`, so the records of a worker and the clients it was sent are in the same order, and
the record of a connection is found by its place. A worker may be killed between any two of its
callbacks. Nobody tells the master.

What the server does is a run of the `service`: connection by connection, what the master's channels
and the workers' records say is a phase, and every step moves at most one connection to its next one.
-/

namespace CewServer.Service

open Transition Worker Http

structure Server where
  master : Handover
  workers : Fin workerMaxWorkers → Client.Worker
  /-- The process of the worker has not been killed by a signal. -/
  alive : Fin workerMaxWorkers → Bool

/-- Who moves, and what the calls in the move return. -/
inductive Act where
  | acceptClient (accept sendmsg : Bool)
  | ipcCallback (w : Fin workerMaxWorkers) (receive : Receive) (iFd iId : Int)
      (getpeername inetNtop : Bool)
  | readable (w : Fin workerMaxWorkers) (i : Nat) (fs : FileSystem) (recv : Option Bytes)
      (behind : Bytes) (reads : List Int)
  | timeout (w : Fin workerMaxWorkers) (i : Nat) (reads : List Int)
  | killed (w : Fin workerMaxWorkers)

namespace Server

def workerStep (s : Server) (w : Fin workerMaxWorkers) (event : Client.Event) : Option Server :=
  if s.alive w then
    ((s.workers w).step event).map fun t => { s with workers := Function.update s.workers w t }
  else none

def step (s : Server) : Act → Option Server
  | .acceptClient accept sendmsg =>
      (s.master.step (.acceptClient accept sendmsg)).map fun m => { s with master := m }
  | .ipcCallback w receive iFd iId getpeername inetNtop =>
      (s.master.step (.ipcCallback w receive)).bind fun m =>
        { s with master := m }.workerStep w
          (.ipcCallback (if receive = Receive.descriptor then some iFd else none) iId getpeername inetNtop)
  | .readable w i fs recv behind reads => s.workerStep w (.readable i fs recv behind reads)
  | .timeout w i reads => s.workerStep w (.timeout i reads)
  | .killed w => some { s with alive := Function.update s.alive w false }

def start (gWorkerAdmin : WorkerAdmin) : Server where
  master := .start gWorkerAdmin
  workers := fun _ => ⟨[], false⟩
  alive := fun _ => true

end Server

/-- The server a successful `worker_init` for `n` workers starts. -/
def server (n : Nat) : System Server Act where
  Init s := ∃ calls m, workerInit calls n = (.exitSuccess, m) ∧ s = .start m.gWorkerAdmin
  step := Server.step

variable {n : Nat} {s t : Server}

/-! ### What a step can do -/

/-- What `client_callback_serve` does with what `recv` gives. -/
inductive ServeMove (fs : FileSystem) (behind : Bytes) (r : Client.Record) :
    Option Bytes → Client.Record → Bool → Prop
  | kept : ServeMove fs behind r none r.enter false
  | disconnected : ServeMove fs behind r (some []) r.enter.release false
  | answered (a : UInt8) (bytes : Bytes) (response : Bytes)
      (hsent : (httpHandleClientRequest fs (r.received (a :: bytes) ++ behind)).sent = some response) :
      ServeMove fs behind r (some (a :: bytes))
        ((r.enter.receive (a :: bytes)).timerAgain.answer
          (httpHandleClientRequest fs (r.received (a :: bytes) ++ behind))).release false
  | killed (a : UInt8) (bytes : Bytes)
      (hsent : (httpHandleClientRequest fs (r.received (a :: bytes) ++ behind)).sent = none) :
      ServeMove fs behind r (some (a :: bytes))
        ((r.enter.receive (a :: bytes)).timerAgain.answer
          (httpHandleClientRequest fs (r.received (a :: bytes) ++ behind))) true

theorem serveMove_of_serve {fs : FileSystem} {r r' : Client.Record} {recv : Option Bytes}
    {behind : Bytes} {reads : List Int} {aborted : Bool}
    (h : Client.clientCallbackServe fs r recv behind reads = some (r', aborted)) :
    ServeMove fs behind r recv r' aborted := by
  cases recv with
  | none =>
      obtain ⟨rfl, rfl⟩ := Prod.mk.inj (Option.some.inj h)
      exact .kept
  | some bytes =>
      cases bytes with
      | nil =>
          obtain ⟨released, hderegister, hpair⟩ := Option.map_eq_some_iff.mp h
          obtain ⟨rfl, rfl⟩ := Prod.mk.inj hpair
          rw [Client.clientDeregister_eq hderegister]
          exact .disconnected
      | cons a bytes =>
          by_cases hlen : (a :: bytes).length ≤ Client.recvBuffSize
          · rw [Client.clientCallbackServe_received fs r hlen] at h
            cases hsent : (httpHandleClientRequest fs (r.received (a :: bytes) ++ behind)).sent with
            | none =>
                simp only [hsent] at h
                obtain ⟨rfl, rfl⟩ := Prod.mk.inj (Option.some.inj h)
                exact .killed a bytes hsent
            | some response =>
                simp only [hsent] at h
                obtain ⟨released, hderegister, hpair⟩ := Option.map_eq_some_iff.mp h
                obtain ⟨rfl, rfl⟩ := Prod.mk.inj hpair
                rw [Client.clientDeregister_eq hderegister]
                exact .answered a bytes response hsent
          · rw [Client.clientCallbackServe, if_neg hlen] at h
            cases h

/-- The server with one worker changed. -/
def Server.withWorker (s : Server) (w : Fin workerMaxWorkers) (t : Client.Worker) : Server :=
  { s with workers := Function.update s.workers w t }

/-- A step of the server. The worker that moves has not been killed in the middle of a callback. -/
inductive ServerMove (s : Server) : Act → Server → Prop
  | master (accept sendmsg : Bool) {m : Handover}
      (hstep : s.master.step (.acceptClient accept sendmsg) = some m) :
      ServerMove s (.acceptClient accept sendmsg) { s with master := m }
  | nothingTaken (w : Fin workerMaxWorkers) (iFd iId : Int) (getpeername inetNtop : Bool) :
      ServerMove s (.ipcCallback w .failed iFd iId getpeername inetNtop) s
  | emptied (w : Fin workerMaxWorkers) {client : Nat} {rest : List Nat}
      (hchannel : s.master.channels w = client :: rest) (iFd iId : Int)
      (getpeername inetNtop : Bool) :
      ServerMove s (.ipcCallback w .emptied iFd iId getpeername inetNtop)
        { s with master := s.master.emptied w client rest }
  | taken (w : Fin workerMaxWorkers) {client : Nat} {rest : List Nat}
      (halive : (s.workers w).aborted = false) (hchannel : s.master.channels w = client :: rest)
      (iFd iId : Int) (getpeername inetNtop : Bool) :
      ServerMove s (.ipcCallback w .descriptor iFd iId getpeername inetNtop)
        (Server.withWorker { s with master := s.master.taken w client rest } w
          { s.workers w with
            records := (s.workers w).records
              ++ [Client.clientRegisterEv iFd iId getpeername inetNtop] })
  | served (w : Fin workerMaxWorkers) (i : Nat) (fs : FileSystem) (recv : Option Bytes) (behind : Bytes)
      (reads : List Int) {r r' : Client.Record} {aborted : Bool}
      (halive : (s.workers w).aborted = false) (hr : (s.workers w).records[i]? = some r)
      (hio : r.psClientEv.io = true) (hmove : ServeMove fs behind r recv r' aborted) :
      ServerMove s (.readable w i fs recv behind reads)
        (s.withWorker w { records := (s.workers w).records.set i r', aborted })
  | timedOut (w : Fin workerMaxWorkers) (i : Nat) (reads : List Int) {r : Client.Record}
      (halive : (s.workers w).aborted = false) (hr : (s.workers w).records[i]? = some r)
      (htimer : r.psClientEv.timer = true) :
      ServerMove s (.timeout w i reads)
        (s.withWorker w { records := (s.workers w).records.set i r.enter.release, aborted := false })
  | killed (w : Fin workerMaxWorkers) :
      ServerMove s (.killed w) { s with alive := Function.update s.alive w false }

theorem workerStep_eq_some {w : Fin workerMaxWorkers} {event : Client.Event}
    (h : s.workerStep w event = some t) :
    ∃ u, (s.workers w).step event = some u ∧ t = s.withWorker w u := by
  unfold Server.workerStep at h
  split at h
  · obtain ⟨u, hu, rfl⟩ := Option.map_eq_some_iff.mp h
    exact ⟨u, hu, rfl⟩
  · cases h

theorem running_of_event {w u : Client.Worker} {event : Client.Event} (h : w.step event = some u) :
    w.aborted = false := (Client.step_event h).1

theorem step_registered {w : Client.Worker} (halive : w.aborted = false) (iFd iId : Int)
    (getpeername inetNtop : Bool) :
    w.step (.ipcCallback (some iFd) iId getpeername inetNtop)
      = some { w with records := w.records
          ++ [Client.clientRegisterEv iFd iId getpeername inetNtop] } := by
  rw [Client.Worker.step, halive, if_neg Bool.false_ne_true]

/-- A worker that registers nobody stays as it is. -/
theorem step_unregistered {w : Client.Worker} (halive : w.aborted = false) (iId : Int)
    (getpeername inetNtop : Bool) : w.step (.ipcCallback none iId getpeername inetNtop) = some w := by
  rw [Client.Worker.step, halive, if_neg Bool.false_ne_true]

theorem serverMove_of_step {act : Act} (h : (server n).step s act = some t) :
    ServerMove s act t := by
  change s.step act = some t at h
  cases act with
  | acceptClient accept sendmsg =>
      obtain ⟨m, hm, rfl⟩ := Option.map_eq_some_iff.mp h
      exact .master accept sendmsg hm
  | ipcCallback w receive iFd iId getpeername inetNtop =>
      obtain ⟨m, hm, h⟩ := Option.bind_eq_some_iff.mp h
      obtain ⟨u, hu, rfl⟩ := workerStep_eq_some h
      have halive : (s.workers w).aborted = false := running_of_event hu
      cases Handover.receiveMove hm with
      | failed =>
          rw [if_neg Receive.noConfusion] at hu
          obtain rfl := Option.some.inj ((step_unregistered halive _ _ _).symm.trans hu)
          rw [Server.withWorker, Function.update_eq_self]
          exact .nothingTaken w iFd iId getpeername inetNtop
      | emptied hchannel =>
          rw [if_neg Receive.noConfusion] at hu
          obtain rfl := Option.some.inj ((step_unregistered halive _ _ _).symm.trans hu)
          rw [Server.withWorker, Function.update_eq_self]
          exact .emptied w hchannel iFd iId getpeername inetNtop
      | taken hchannel =>
          rw [if_pos rfl] at hu
          obtain rfl := Option.some.inj ((step_registered halive _ _ _ _).symm.trans hu)
          exact .taken w halive hchannel iFd iId getpeername inetNtop
  | readable w i fs recv behind reads =>
      obtain ⟨u, hu, rfl⟩ := workerStep_eq_some h
      have halive := running_of_event hu
      simp only [Client.Worker.step, halive, Bool.false_eq_true, if_false] at hu
      obtain ⟨r, r', aborted, hr, hio, hbody, rfl⟩ := Client.callback_eq_some hu
      exact .served w i fs recv behind reads halive hr hio (serveMove_of_serve hbody)
  | timeout w i reads =>
      obtain ⟨u, hu, rfl⟩ := workerStep_eq_some h
      have halive := running_of_event hu
      simp only [Client.Worker.step, halive, Bool.false_eq_true, if_false] at hu
      obtain ⟨r, r', aborted, hr, htimer, hbody, rfl⟩ := Client.callback_eq_some hu
      obtain ⟨released, hderegister, hpair⟩ := Option.map_eq_some_iff.mp hbody
      obtain ⟨rfl, rfl⟩ := Prod.mk.inj hpair
      rw [Client.clientDeregister_eq hderegister]
      exact .timedOut w i reads halive hr htimer
  | killed w =>
      obtain rfl := Option.some.inj h
      exact .killed w

/-! ### The parts of the server -/

theorem master_reachable (hs : Reachable (server n) (fun _ _ => True) s) :
    Reachable (handover n) (fun _ _ => True) s.master := by
  induction hs with
  | init hinit =>
      obtain ⟨calls, m, hworkers, rfl⟩ := hinit
      exact .init ⟨calls, m, hworkers, rfl⟩
  | step _ _ hstep ih =>
      cases serverMove_of_step hstep with
      | nothingTaken => exact ih
      | master accept sendmsg hm => exact .step (l := .acceptClient accept sendmsg) ih trivial hm
      | emptied w hchannel =>
          have hreceive := Handover.workerpIpcCallback_emptied hchannel
          exact .step (l := .ipcCallback w .emptied) ih trivial hreceive
      | taken w halive hchannel =>
          have hreceive := Handover.workerpIpcCallback_descriptor hchannel
          exact .step (l := .ipcCallback w .descriptor) ih trivial hreceive
      | served | timedOut | killed => exact ih

theorem worker_reachable (hs : Reachable (server n) (fun _ _ => True) s) (w : Fin workerMaxWorkers) :
    Reachable Client.system (fun _ _ => True) (s.workers w) := by
  induction hs with
  | init hinit =>
      obtain ⟨calls, m, -, rfl⟩ := hinit
      exact .init rfl
  | @step s t act _ _ hstep ih =>
      have hother : ∀ (m : Handover) (w' : Fin workerMaxWorkers) (event : Client.Event) (t : Server),
          Server.workerStep { s with master := m } w' event = some t →
          Reachable Client.system (fun _ _ => True) (t.workers w) := by
        intro m w' event t ht
        obtain ⟨u, hu, rfl⟩ := workerStep_eq_some ht
        by_cases hw : w = w'
        · subst hw
          simp only [Server.withWorker, Function.update_self]
          exact .step ih trivial hu
        · simp only [Server.withWorker, Function.update_of_ne hw]
          exact ih
      change s.step act = some t at hstep
      cases act with
      | acceptClient accept sendmsg =>
          obtain ⟨m, hm, rfl⟩ := Option.map_eq_some_iff.mp hstep
          exact ih
      | ipcCallback w' receive iFd iId getpeername inetNtop =>
          obtain ⟨m, hm, hworker⟩ := Option.bind_eq_some_iff.mp hstep
          exact hother m w' _ t hworker
      | readable w' i fs recv behind reads => exact hother s.master w' _ t hstep
      | timeout w' i reads => exact hother s.master w' _ t hstep
      | killed w' =>
          obtain rfl := Option.some.inj hstep
          exact ih

theorem registered_workerRouteClient (m : Handover) (client : Nat) (sendmsg : Bool) :
    (m.workerRouteClient client sendmsg).registered = m.registered := by
  unfold Handover.workerRouteClient
  split
  · rfl
  · dsimp only
    split
    · split
      · rfl
      · exact Handover.sendFdToWorker_registered _ _ _ _
    · rfl

theorem registered_of_accept {m m' : Handover} {accept sendmsg : Bool}
    (h : m.step (.acceptClient accept sendmsg) = some m') : m'.registered = m.registered := by
  simp only [Handover.step, Handover.socketAcceptClient] at h
  split at h
  · cases h
  · obtain rfl := Option.some.inj h
    split
    · exact registered_workerRouteClient _ _ _
    · rfl

/-- A worker has one record for each connection it has taken. -/
theorem records_length (hs : Reachable (server n) (fun _ _ => True) s) (w : Fin workerMaxWorkers) :
    (s.workers w).records.length = (s.master.registered w).length := by
  induction hs with
  | init hinit =>
      obtain ⟨calls, m, -, rfl⟩ := hinit
      rfl
  | step _ _ hstep ih =>
      cases serverMove_of_step hstep with
      | nothingTaken | emptied | killed => exact ih
      | master accept sendmsg hm =>
          rw [registered_of_accept hm]
          exact ih
      | taken w' =>
          by_cases hw : w = w'
          · subst hw
            simp only [Server.withWorker, Handover.taken_registered, Function.update_self,
              List.length_append, List.length_singleton, ih]
          · simp only [Server.withWorker, Handover.taken_registered, Function.update_of_ne hw]
            exact ih
      | served w' | timedOut w' =>
          by_cases hw : w = w'
          · subst hw
            simp only [Server.withWorker, Function.update_self, List.length_set]
            exact ih
          · simp only [Server.withWorker, Function.update_of_ne hw]
            exact ih

end CewServer.Service
