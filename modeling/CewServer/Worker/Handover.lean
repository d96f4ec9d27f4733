import CewServer.Worker.Admin
import CewServer.Lib.Channel
import Mathlib.Data.List.Induction

/-!
# Handing clients over to the workers

The master accepts clients and sends each to a worker, and each worker takes what was sent to it and
registers it: `socket_accept_client`, `worker_route_client` and `send_fd_to_worker` on one side,
`workerp_ipc_callback` and `receive_fd_from_worker` on the other. The table is the one a successful
`worker_init` leaves, and `NextWorker` has its value from the program's start.

Between the master and a worker is a `SOCK_SEQPACKET` socket, which keeps messages whole and in order;
a send that fails leaves nothing in it. A message that is received is gone from it also when its
descriptor did not come along: a channel that is reliable does not do that. A client is known by its
place in the order of the accepts: a descriptor has another number in each process it is passed to.
-/

namespace CewServer.Worker

open Transition

/-- A call of `worker_route_client`: the client, the worker it was addressed to, and whether the send
succeeded. -/
structure Route where
  client : Nat
  worker : Fin workerMaxWorkers
  sent : Bool

/-- What `receive_fd_from_worker` comes to. -/
inductive Receive where
  /-- `recvmsg` fails. -/
  | failed
  /-- There is a message and no header in it, for want of a free descriptor. -/
  | emptied
  | descriptor
  deriving DecidableEq

/-- The master and its workers. `channels` is what is under way to each worker, `received` the messages
it has taken, and `registered` what it has passed to `client_register_ev`. -/
structure Handover where
  gWorkerAdmin : WorkerAdmin
  NextWorker : UInt32
  channels : Fin workerMaxWorkers → List Nat
  received : Fin workerMaxWorkers → List Nat
  registered : Fin workerMaxWorkers → List Nat
  accepted : Nat
  routes : List Route
  /-- The master has divided by zero, or followed a NULL pointer. -/
  crashed : Bool

inductive Move where
  /-- The callback of the listening socket, with what `accept` and `sendmsg` return. -/
  | acceptClient (accept sendmsg : Bool)
  /-- The callback of a worker's IPC socket. -/
  | ipcCallback (w : Fin workerMaxWorkers) (receive : Receive)

def Handover.sendFdToWorker (s : Handover) (w : Fin workerMaxWorkers) (client : Nat) (sendmsg : Bool) :
    Handover :=
  if sendmsg then
    { s with channels := Function.update s.channels w (s.channels w ++ [client]) }
  else s

def Handover.workerRouteClient (s : Handover) (client : Nat) (sendmsg : Bool) : Handover :=
  if s.gWorkerAdmin.uiCurrWorkers = 0 then { s with crashed := true }
  else
    let NextWorker := (s.NextWorker + 1) % s.gWorkerAdmin.uiCurrWorkers
    let s := { s with NextWorker }
    if h : NextWorker.toNat < workerMaxWorkers then
      match s.gWorkerAdmin.psWorker ⟨NextWorker.toNat, h⟩ with
      | none => { s with crashed := true }
      | some _ =>
          { s.sendFdToWorker ⟨NextWorker.toNat, h⟩ client sendmsg with
            routes := s.routes ++ [⟨client, ⟨NextWorker.toNat, h⟩, sendmsg⟩] }
    else { s with crashed := true }

def Handover.socketAcceptClient (s : Handover) (accept sendmsg : Bool) : Handover :=
  if accept then { s with accepted := s.accepted + 1 }.workerRouteClient s.accepted sendmsg else s

/-- The worker has taken the first message of its channel. -/
def Handover.emptied (s : Handover) (w : Fin workerMaxWorkers) (client : Nat) (rest : List Nat) :
    Handover :=
  { s with
    channels := Function.update s.channels w rest
    received := Function.update s.received w (s.received w ++ [client]) }

/-- The worker has taken the first message of its channel, and registers the client. -/
def Handover.taken (s : Handover) (w : Fin workerMaxWorkers) (client : Nat) (rest : List Nat) :
    Handover :=
  { s.emptied w client rest with
    registered := Function.update s.registered w (s.registered w ++ [client]) }

/-- `workerp_ipc_callback`: there is a message only if something is under way. -/
def Handover.workerpIpcCallback (s : Handover) (w : Fin workerMaxWorkers) (receive : Receive) :
    Option Handover :=
  match receive, s.channels w with
  | .failed, _ => some s
  | .emptied, client :: rest => some (s.emptied w client rest)
  | .descriptor, client :: rest => some (s.taken w client rest)
  | _, [] => none

def Handover.step (s : Handover) : Move → Option Handover
  | .acceptClient accept sendmsg =>
      if s.crashed then none else some (s.socketAcceptClient accept sendmsg)
  | .ipcCallback w receive => s.workerpIpcCallback w receive

def Handover.start (gWorkerAdmin : WorkerAdmin) : Handover where
  gWorkerAdmin
  NextWorker := -1
  channels := fun _ => []
  received := fun _ => []
  registered := fun _ => []
  accepted := 0
  routes := []
  crashed := false

def handover (n : Nat) : System Handover Move where
  Init s := ∃ calls m, workerInit calls n = (.exitSuccess, m) ∧ s = .start m.gWorkerAdmin
  step := Handover.step

/-- No message loses its descriptor. -/
def Reliable (_ : Handover) : Move → Prop
  | .ipcCallback _ receive => receive ≠ .emptied
  | .acceptClient _ _ => True

/-- The clients successfully sent in the calls of `worker_route_client` whose number is `w` modulo
`n`. -/
def sentTo (n : Nat) (routes : List Route) (w : Fin workerMaxWorkers) : List Nat :=
  routes.zipIdx.filterMap fun (route, k) =>
    if route.sent ∧ k % n = w.val then some route.client else none

theorem sentTo_append (n : Nat) (routes : List Route) (route : Route) (w : Fin workerMaxWorkers) :
    sentTo n (routes ++ [route]) w
      = sentTo n routes w
        ++ if route.sent ∧ routes.length % n = w.val then [route.client] else [] := by
  simp only [sentTo, List.zipIdx_append, List.zipIdx_cons, List.zipIdx_nil, List.filterMap_append,
    List.filterMap_cons, List.filterMap_nil, Nat.zero_add]
  split <;> rename_i h
  · split at h
    · cases h
    · rename_i hno
      rw [if_neg hno]
  · split at h
    · rename_i hyes
      rw [if_pos hyes]
      cases h
      rfl
    · cases h

/-- With clients numbered by the calls that route them, a client sent to a worker has the number of a
call for that worker. -/
theorem mem_sentTo {n : Nat} {routes : List Route}
    (hclient : ∀ (k : Nat) (route : Route), routes[k]? = some route → route.client = k)
    {w : Fin workerMaxWorkers} {client : Nat} (h : client ∈ sentTo n routes w) :
    client < routes.length ∧ client % n = w.val := by
  obtain ⟨⟨route, k⟩, hmem, hroute⟩ := List.mem_filterMap.mp h
  have hk : routes[k]? = some route := List.mem_zipIdx_iff_getElem?.mp hmem
  dsimp only at hroute
  split at hroute
  · rename_i hsent
    obtain rfl : route.client = client := Option.some.inj hroute
    rw [hclient k route hk]
    exact ⟨(List.getElem?_eq_some_iff.mp hk).1, hsent.2⟩
  · cases hroute

theorem sentTo_ordered {n : Nat} {routes : List Route}
    (hclient : ∀ (k : Nat) (route : Route), routes[k]? = some route → route.client = k)
    (w : Fin workerMaxWorkers) : (sentTo n routes w).Pairwise (· < ·) := by
  induction routes using List.reverseRecOn with
  | nil => exact List.Pairwise.nil
  | append_singleton routes route ih =>
      have hbefore : ∀ (k : Nat) (route : Route), routes[k]? = some route → route.client = k := by
        intro k route' hk
        apply hclient k route'
        rw [List.getElem?_append_left (List.getElem?_eq_some_iff.mp hk).1]
        exact hk
      have hlast : route.client = routes.length := hclient _ _ List.getElem?_concat_length
      rw [sentTo_append, List.pairwise_append]
      refine ⟨ih hbefore, ?_, ?_⟩
      · split
        · exact List.pairwise_singleton _ _
        · exact List.Pairwise.nil
      · intro a ha b hb
        split at hb
        · rw [List.mem_singleton.mp hb, hlast]
          exact (mem_sentTo hbefore ha).1
        · cases hb

/-! ### The master -/

/-- What holds of the master: the table stays, the next call goes to the worker its number says, and
the calls made so far went where theirs said. -/
structure HandoverOk (n : Nat) (s : Handover) : Prop where
  filled : Filled n s.gWorkerAdmin
  count : s.gWorkerAdmin.uiCurrWorkers = UInt32.ofNat n
  next : ((s.NextWorker + 1) % UInt32.ofNat n).toNat = s.routes.length % n
  running : s.crashed = false
  accepted : s.accepted = s.routes.length
  addressed : ∀ k route, s.routes[k]? = some route → route.worker.val = k % n ∧ route.client = k

variable {n : Nat} {s t : Handover}

theorem toNat_ofNat_workers (hn : n ≤ workerMaxWorkers) : (UInt32.ofNat n).toNat = n :=
  UInt32.toNat_ofNat_of_lt' (Nat.lt_of_le_of_lt hn (by decide))

def Handover.routed (s : Handover) (w : Fin workerMaxWorkers) (sendmsg : Bool) : Handover :=
  { s.sendFdToWorker w s.accepted sendmsg with
    NextWorker := (s.NextWorker + 1) % s.gWorkerAdmin.uiCurrWorkers
    accepted := s.accepted + 1
    routes := s.routes ++ [⟨s.accepted, w, sendmsg⟩] }

@[simp] theorem Handover.routed_gWorkerAdmin (s : Handover) (w : Fin workerMaxWorkers) (sendmsg : Bool) :
    (s.routed w sendmsg).gWorkerAdmin = s.gWorkerAdmin := by
  unfold Handover.routed Handover.sendFdToWorker
  split <;> rfl

@[simp] theorem Handover.routed_crashed (s : Handover) (w : Fin workerMaxWorkers) (sendmsg : Bool) :
    (s.routed w sendmsg).crashed = s.crashed := by
  unfold Handover.routed Handover.sendFdToWorker
  split <;> rfl

/-- A client is routed if there is an entry behind the next index. -/
theorem Handover.socketAcceptClient_routed {psWorker : WorkerStruct}
    (hnonzero : s.gWorkerAdmin.uiCurrWorkers ≠ 0)
    (hindex : ((s.NextWorker + 1) % s.gWorkerAdmin.uiCurrWorkers).toNat < workerMaxWorkers)
    (hentry : s.gWorkerAdmin.psWorker ⟨_, hindex⟩ = some psWorker) (sendmsg : Bool) :
    s.socketAcceptClient true sendmsg = s.routed ⟨_, hindex⟩ sendmsg := by
  simp only [Handover.socketAcceptClient, if_true, Handover.workerRouteClient, if_neg hnonzero,
    dif_pos hindex, hentry]
  unfold Handover.routed Handover.sendFdToWorker
  split <;> rfl

theorem HandoverOk.socketAcceptClient_eq (hs : HandoverOk n s) (hpos : 1 ≤ n)
    (hn : n ≤ workerMaxWorkers) (sendmsg : Bool) :
    ∃ w : Fin workerMaxWorkers, w.val = s.routes.length % n ∧
      s.socketAcceptClient true sendmsg = s.routed w sendmsg := by
  have hnext := hs.next
  rw [← hs.count] at hnext
  have hlt : ((s.NextWorker + 1) % s.gWorkerAdmin.uiCurrWorkers).toNat < n := by
    rw [hnext]
    exact Nat.mod_lt _ hpos
  have hindex := Nat.lt_of_lt_of_le hlt hn
  obtain ⟨psWorker, hentry, -⟩ := hs.filled.below ⟨_, hindex⟩ hlt
  have hnonzero : s.gWorkerAdmin.uiCurrWorkers ≠ 0 := by
    intro hzero
    have hnat := congrArg UInt32.toNat (hs.count.symm.trans hzero)
    rw [toNat_ofNat_workers hn] at hnat
    rw [hnat] at hpos
    exact absurd hpos (by decide)
  exact ⟨⟨_, hindex⟩, hnext, s.socketAcceptClient_routed hnonzero hindex hentry sendmsg⟩

theorem HandoverOk.routed (hs : HandoverOk n s) (hpos : 1 ≤ n) (hn : n ≤ workerMaxWorkers)
    {w : Fin workerMaxWorkers} (hw : w.val = s.routes.length % n) (sendmsg : Bool) :
    HandoverOk n (s.routed w sendmsg) := by
  have hnext : ((s.NextWorker + 1) % s.gWorkerAdmin.uiCurrWorkers).toNat = s.routes.length % n := by
    rw [hs.count]
    exact hs.next
  refine ⟨?_, ?_, ?_, ?_, ?_, ?_⟩
  · rw [Handover.routed_gWorkerAdmin]
    exact hs.filled
  · rw [Handover.routed_gWorkerAdmin]
    exact hs.count
  · have hlt := Nat.mod_lt s.routes.length hpos
    have hsmall : s.routes.length % n + 1 < 2 ^ 32 :=
      Nat.lt_of_le_of_lt (Nat.le_trans hlt hn) (by decide)
    simp only [Handover.routed, List.length_append, List.length_singleton]
    rw [UInt32.toNat_mod, UInt32.toNat_add, hnext, toNat_ofNat_workers hn, UInt32.toNat_one,
      Nat.mod_eq_of_lt hsmall, Nat.mod_add_mod]
  · rw [Handover.routed_crashed]
    exact hs.running
  · simp only [Handover.routed, List.length_append, List.length_singleton, hs.accepted]
  · intro k route hk
    simp only [Handover.routed] at hk
    rcases List.getElem?_concat_cases hk with hold | ⟨rfl, rfl⟩
    · exact hs.addressed k route hold
    · exact ⟨hw, hs.accepted⟩

/-- What a call of `workerp_ipc_callback` can do. -/
inductive ReceiveMove (s : Handover) (w : Fin workerMaxWorkers) : Receive → Handover → Prop
  | failed : ReceiveMove s w .failed s
  | emptied {client : Nat} {rest : List Nat} (hchannel : s.channels w = client :: rest) :
      ReceiveMove s w .emptied (s.emptied w client rest)
  | taken {client : Nat} {rest : List Nat} (hchannel : s.channels w = client :: rest) :
      ReceiveMove s w .descriptor (s.taken w client rest)

theorem Handover.workerpIpcCallback_emptied {w : Fin workerMaxWorkers} {client : Nat}
    {rest : List Nat} (hchannel : s.channels w = client :: rest) :
    s.workerpIpcCallback w .emptied = some (s.emptied w client rest) := by
  simp only [Handover.workerpIpcCallback, hchannel]

theorem Handover.workerpIpcCallback_descriptor {w : Fin workerMaxWorkers} {client : Nat}
    {rest : List Nat} (hchannel : s.channels w = client :: rest) :
    s.workerpIpcCallback w .descriptor = some (s.taken w client rest) := by
  simp only [Handover.workerpIpcCallback, hchannel]

theorem Handover.receiveMove {w : Fin workerMaxWorkers} {receive : Receive}
    (h : s.workerpIpcCallback w receive = some t) : ReceiveMove s w receive t := by
  unfold Handover.workerpIpcCallback at h
  split at h
  · obtain rfl := Option.some.inj h
    exact .failed
  · rename_i client rest hchannel
    obtain rfl := Option.some.inj h
    exact .emptied hchannel
  · rename_i client rest hchannel
    obtain rfl := Option.some.inj h
    exact .taken hchannel
  · cases h

inductive HandoverMove (n : Nat) (s : Handover) : Move → Handover → Prop
  | idle (sendmsg : Bool) : HandoverMove n s (.acceptClient false sendmsg) s
  | routed (w : Fin workerMaxWorkers) (hw : w.val = s.routes.length % n) (sendmsg : Bool) :
      HandoverMove n s (.acceptClient true sendmsg) (s.routed w sendmsg)
  | received (w : Fin workerMaxWorkers) (receive : Receive) {t : Handover}
      (hmove : ReceiveMove s w receive t) : HandoverMove n s (.ipcCallback w receive) t

theorem HandoverOk.step_cases (hs : HandoverOk n s) (hpos : 1 ≤ n) (hn : n ≤ workerMaxWorkers)
    {l : Move} (hstep : s.step l = some t) : HandoverMove n s l t := by
  cases l with
  | acceptClient accept sendmsg =>
      simp only [Handover.step, hs.running, Bool.false_eq_true, if_false, Option.some.injEq] at hstep
      subst hstep
      cases accept with
      | false => exact .idle sendmsg
      | true =>
          obtain ⟨w, hw, hrouted⟩ := hs.socketAcceptClient_eq hpos hn sendmsg
          rw [hrouted]
          exact .routed w hw sendmsg
  | ipcCallback w receive => exact .received w receive (Handover.receiveMove hstep)

theorem HandoverOk.move (hs : HandoverOk n s) (hpos : 1 ≤ n) (hn : n ≤ workerMaxWorkers) {l : Move}
    (hmove : HandoverMove n s l t) : HandoverOk n t := by
  cases hmove with
  | idle => exact hs
  | routed w hw sendmsg => exact hs.routed hpos hn hw sendmsg
  | received w receive hreceive =>
      cases hreceive with
      | failed => exact hs
      | emptied | taken =>
          exact ⟨hs.filled, hs.count, hs.next, hs.running, hs.accepted, hs.addressed⟩

theorem handover_count_le (hinit : (handover n).Init s) : n ≤ workerMaxWorkers := by
  obtain ⟨calls, m, hworkers, -⟩ := hinit
  exact (workerInit_success hworkers).1

theorem HandoverOk.init (hinit : (handover n).Init s) : HandoverOk n s := by
  obtain ⟨calls, m, hworkers, rfl⟩ := hinit
  obtain ⟨hn, hfilled, hcount⟩ := workerInit_success hworkers
  refine ⟨hfilled, hcount, ?_, rfl, rfl, ?_⟩
  · -- the first increment wraps around to zero
    have hwrap : (-1 : UInt32) + 1 = 0 := by decide
    rw [show (Handover.start m.gWorkerAdmin).NextWorker = -1 from rfl, hwrap, UInt32.toNat_mod,
      UInt32.toNat_zero, Nat.zero_mod]
    exact (Nat.zero_mod n).symm
  · intro k route hk
    cases hk

/-- The number of workers fits the table, and the master is well. -/
theorem handoverOk_of_reachable (hpos : 1 ≤ n) (hs : Reachable (handover n) (fun _ _ => True) s) :
    n ≤ workerMaxWorkers ∧ HandoverOk n s := by
  induction hs with
  | init hinit => exact ⟨handover_count_le hinit, .init hinit⟩
  | step _ _ hstep ih => exact ⟨ih.1, ih.2.move hpos ih.1 (ih.2.step_cases hpos ih.1 hstep)⟩

/-! ### The channel to a worker -/

structure Feeds (n : Nat) (w : Fin workerMaxWorkers) (s : Handover) (c : Channel Nat) : Prop where
  received : c.received = s.received w
  inFlight : c.inFlight = s.channels w
  sent : c.sent = sentTo n s.routes w

/-- Taking a message is a `deliver`, whether its descriptor came along or not. -/
theorem Feeds.emptied {w : Fin workerMaxWorkers} {c : Channel Nat} (hc : Feeds n w s c)
    (w' : Fin workerMaxWorkers) {client : Nat} {rest : List Nat}
    (hchannel : s.channels w' = client :: rest) :
    Feeds n w (s.emptied w' client rest) c
      ∨ ∃ op d, c.step op = some d ∧ Feeds n w (s.emptied w' client rest) d := by
  by_cases hww : w = w'
  · subst hww
    right
    have hinFlight := hc.inFlight.trans hchannel
    refine ⟨.deliver, _, c.step_deliver hinFlight, ⟨?_, ?_, hc.sent⟩⟩
    · simp only [Channel.deliver, hc.received, Handover.emptied, Function.update_self]
    · simp only [Channel.deliver, Handover.emptied, Function.update_self]
  · left
    refine ⟨?_, ?_, hc.sent⟩
    · simp only [hc.received, Handover.emptied, Function.update_of_ne hww]
    · simp only [hc.inFlight, Handover.emptied, Function.update_of_ne hww]

/-- A successful send to the worker is a `send`. -/
theorem Feeds.move {w : Fin workerMaxWorkers} {c : Channel Nat} {l : Move}
    (hc : Feeds n w s c) (hmove : HandoverMove n s l t) :
    Feeds n w t c ∨ ∃ op d, c.step op = some d ∧ Feeds n w t d := by
  cases hmove with
  | idle => exact .inl hc
  | routed w' hw sendmsg =>
      have hsent := sentTo_append n s.routes ⟨s.accepted, w', sendmsg⟩ w
      cases sendmsg with
      | false =>
          left
          rw [if_neg (fun h => Bool.false_ne_true h.1), List.append_nil] at hsent
          exact ⟨hc.received, hc.inFlight, hc.sent.trans hsent.symm⟩
      | true =>
          by_cases hww : w = w'
          · subst hww
            right
            rw [if_pos ⟨rfl, hw.symm⟩] at hsent
            refine ⟨.send s.accepted, c.send s.accepted, rfl, ⟨hc.received, ?_, ?_⟩⟩
            · simp only [Channel.send, hc.inFlight, Handover.routed, Handover.sendFdToWorker, if_true,
                Function.update_self]
            · simp only [Channel.send, hc.sent, Handover.routed, hsent]
          · left
            have hother : ¬ (true = true ∧ s.routes.length % n = w.val) := by
              rintro ⟨-, hlen⟩
              exact hww (Fin.ext (hlen.symm.trans hw.symm))
            rw [if_neg hother, List.append_nil] at hsent
            refine ⟨hc.received, ?_, hc.sent.trans hsent.symm⟩
            simp only [hc.inFlight, Handover.routed, Handover.sendFdToWorker, if_true,
              Function.update_of_ne hww]
  | received w' receive hreceive =>
      cases hreceive with
      | failed => exact .inl hc
      | emptied hchannel => exact hc.emptied w' hchannel
      | taken hchannel =>
          rcases hc.emptied w' hchannel with hother | ⟨op, d, hd, hfeeds⟩
          · exact .inl ⟨hother.received, hother.inFlight, hother.sent⟩
          · exact .inr ⟨op, d, hd, ⟨hfeeds.received, hfeeds.inFlight, hfeeds.sent⟩⟩

theorem handover_feeds (hpos : 1 ≤ n) (hs : Reachable (handover n) (fun _ _ => True) s)
    (w : Fin workerMaxWorkers) :
    ∃ c, Reachable (Channel.system Nat) (fun _ _ => True) c ∧ Feeds n w s c := by
  apply hs.simulates
  · rintro s ⟨calls, m, -, rfl⟩
    exact ⟨.empty, rfl, ⟨rfl, rfl, rfl⟩⟩
  · intro s l t c hs hc _ hstep
    obtain ⟨hn, hok⟩ := handoverOk_of_reachable hpos hs
    rcases hc.move (hok.step_cases hpos hn hstep) with hstutter | ⟨op, d, hd, hfeeds⟩
    · exact .inl hstutter
    · exact .inr ⟨op, d, trivial, hd, hfeeds⟩

/-- What is taken from the channel and what is still in it is what was sent. -/
theorem received_append_channels (hpos : 1 ≤ n) (hs : Reachable (handover n) (fun _ _ => True) s)
    (w : Fin workerMaxWorkers) : s.received w ++ s.channels w = sentTo n s.routes w := by
  obtain ⟨c, -, hc⟩ := handover_feeds hpos hs w
  rw [← hc.received, ← hc.inFlight, ← hc.sent]
  exact c.conserved

/-! ### What is registered -/

theorem Handover.taken_registered (s : Handover) (w : Fin workerMaxWorkers) (client : Nat)
    (rest : List Nat) :
    (s.taken w client rest).registered
      = Function.update s.registered w (s.registered w ++ [client]) := rfl

theorem Handover.sendFdToWorker_registered (s : Handover) (w : Fin workerMaxWorkers) (client : Nat)
    (sendmsg : Bool) : (s.sendFdToWorker w client sendmsg).registered = s.registered := by
  unfold Handover.sendFdToWorker
  split <;> rfl

theorem Handover.routed_registered (s : Handover) (w : Fin workerMaxWorkers) (sendmsg : Bool) :
    (s.routed w sendmsg).registered = s.registered := s.sendFdToWorker_registered w s.accepted sendmsg

theorem Handover.routed_received (s : Handover) (w : Fin workerMaxWorkers) (sendmsg : Bool) :
    (s.routed w sendmsg).received = s.received := by
  unfold Handover.routed Handover.sendFdToWorker
  split <;> rfl

/-- What a step adds to what a worker has received, it adds to what the worker has registered, unless
the message has lost its descriptor. -/
theorem HandoverMove.registers {l : Move} (hmove : HandoverMove n s l t) (w : Fin workerMaxWorkers) :
    ∃ clients, t.received w = s.received w ++ clients ∧
      (t.registered w = s.registered w ++ clients
        ∨ t.registered w = s.registered w ∧ ¬ Reliable s l) := by
  cases hmove with
  | idle => exact ⟨[], (List.append_nil _).symm, .inl (List.append_nil _).symm⟩
  | routed w' _ sendmsg =>
      refine ⟨[], ?_, .inl ?_⟩
      · rw [Handover.routed_received, List.append_nil]
      · rw [Handover.routed_registered, List.append_nil]
  | received w' receive hreceive =>
      cases hreceive with
      | failed => exact ⟨[], (List.append_nil _).symm, .inl (List.append_nil _).symm⟩
      | @emptied client rest hchannel =>
          by_cases hww : w = w'
          · subst hww
            exact ⟨[client], Function.update_self .., .inr ⟨rfl, fun hreliable => hreliable rfl⟩⟩
          · refine ⟨[], ?_, .inl (List.append_nil _).symm⟩
            rw [List.append_nil]
            exact Function.update_of_ne hww _ _
      | @taken client rest hchannel =>
          by_cases hww : w = w'
          · subst hww
            exact ⟨[client], Function.update_self .., .inl (Function.update_self ..)⟩
          · refine ⟨[], ?_, .inl ?_⟩
            · rw [List.append_nil]
              exact Function.update_of_ne hww _ _
            · rw [List.append_nil]
              exact Function.update_of_ne hww _ _

/-- A worker registers clients it has received, in the order in which it received them. -/
theorem registered_sublist_received (hpos : 1 ≤ n)
    (hs : Reachable (handover n) (fun _ _ => True) s) (w : Fin workerMaxWorkers) :
    (s.registered w).Sublist (s.received w) := by
  induction hs with
  | init hinit =>
      obtain ⟨calls, m, -, rfl⟩ := hinit
      exact List.Sublist.refl _
  | step hs _ hstep ih =>
      obtain ⟨hn, hok⟩ := handoverOk_of_reachable hpos hs
      obtain ⟨clients, hreceived, hregistered⟩ := (hok.step_cases hpos hn hstep).registers w
      rw [hreceived]
      rcases hregistered with hregistered | ⟨hregistered, -⟩
      · rw [hregistered]
        exact ih.append (List.Sublist.refl _)
      · rw [hregistered]
        exact ih.trans (List.sublist_append_left _ _)

/-- Over a reliable channel a worker registers whatever it receives. -/
theorem registered_eq_received (hpos : 1 ≤ n) (hs : Reachable (handover n) Reliable s)
    (w : Fin workerMaxWorkers) : s.registered w = s.received w := by
  induction hs with
  | init hinit =>
      obtain ⟨calls, m, -, rfl⟩ := hinit
      rfl
  | step hs hreliable hstep ih =>
      obtain ⟨hn, hok⟩ := handoverOk_of_reachable hpos (hs.mono fun _ _ _ => trivial)
      obtain ⟨clients, hreceived, hregistered⟩ := (hok.step_cases hpos hn hstep).registers w
      rcases hregistered with hregistered | ⟨-, hlost⟩
      · rw [hregistered, hreceived, ih]
      · exact absurd hreliable hlost

/-- In every interleaving the calls of `worker_route_client` go round the workers, whatever the sends
return; each worker registers clients that were successfully sent to it, in the order of the accepts,
and no client is registered twice. Over a reliable channel those are all it was sent, from the first
on. -/
theorem handover_roundRobin (hpos : 1 ≤ n) (hs : Reachable (handover n) (fun _ _ => True) s) :
    s.crashed = false ∧
    (∀ k route, s.routes[k]? = some route → route.worker.val = k % n ∧ route.client = k) ∧
    (∀ w, (s.registered w).Sublist (sentTo n s.routes w) ∧
      (sentTo n s.routes w).Pairwise (· < ·)) ∧
    (∀ w, (s.registered w).Nodup) ∧
    (∀ w w' client, client ∈ s.registered w → client ∈ s.registered w' → w = w') ∧
    (Reachable (handover n) Reliable s → ∀ w, s.registered w <+: sentTo n s.routes w) := by
  obtain ⟨hn, hok⟩ := handoverOk_of_reachable hpos hs
  have hclient : ∀ (k : Nat) (route : Route), s.routes[k]? = some route → route.client = k :=
    fun k route hk => (hok.addressed k route hk).2
  have hreceived : ∀ w, s.received w <+: sentTo n s.routes w :=
    fun w => ⟨_, received_append_channels hpos hs w⟩
  have hregistered : ∀ w, (s.registered w).Sublist (sentTo n s.routes w) :=
    fun w => (registered_sublist_received hpos hs w).trans (hreceived w).sublist
  have hordered := sentTo_ordered (n := n) hclient
  refine ⟨hok.running, hok.addressed, fun w => ⟨hregistered w, hordered w⟩, ?_, ?_, ?_⟩
  · intro w
    have hsublist := (hordered w).sublist (hregistered w)
    exact hsublist.imp Nat.ne_of_lt
  · intro w w' client hw hw'
    have hmod := (mem_sentTo hclient ((hregistered w).mem hw)).2
    have hmod' := (mem_sentTo hclient ((hregistered w').mem hw')).2
    exact Fin.ext (hmod.symm.trans hmod')
  · intro hreliable w
    rw [registered_eq_received hpos hreliable w]
    exact hreceived w

/-- Three clients for two workers; the second is lost in its send, and the first worker has registered
its first client. -/
def threeClients : List Move :=
  [.acceptClient true true, .acceptClient true false, .acceptClient false true,
    .ipcCallback firstEntry .descriptor, .acceptClient true true]

theorem threeClients_reliable (s : Handover) : ∀ move ∈ threeClients, Reliable s move := by
  simp [threeClients, Reliable]

theorem handover_roundRobin_threeClients :
    ∃ s, (handover 2).run (.start (workerInit allSucceed 2).2.gWorkerAdmin) threeClients = some s ∧
      s.routes.map (fun route => (route.worker.val, route.sent)) = [(0, true), (1, false), (0, true)] ∧
      s.crashed = false ∧
      (∀ k route, s.routes[k]? = some route → route.worker.val = k % 2 ∧ route.client = k) ∧
      (∀ w, s.registered w <+: sentTo 2 s.routes w ∧ (sentTo 2 s.routes w).Pairwise (· < ·)) ∧
      (∀ w, (s.registered w).Nodup) ∧
      ∀ w w' client, client ∈ s.registered w → client ∈ s.registered w' → w = w' := by
  obtain ⟨s, hrun, hroutes⟩ : ∃ s,
      (handover 2).run (.start (workerInit allSucceed 2).2.gWorkerAdmin) threeClients = some s ∧
      s.routes.map (fun route => (route.worker.val, route.sent)) = [(0, true), (1, false), (0, true)] :=
    ⟨_, rfl, rfl⟩
  have hinit : (handover 2).Init (.start (workerInit allSucceed 2).2.gWorkerAdmin) :=
    ⟨allSucceed, _, rfl, rfl⟩
  have hreliable : Reachable (handover 2) Reliable s :=
    (Reachable.init hinit).run (fun move hmove s => threeClients_reliable s move hmove) hrun
  obtain ⟨hrunning, haddressed, hordered, hnodup, hone, hreceived⟩ :=
    handover_roundRobin (by decide) (hreliable.mono fun _ _ _ => trivial)
  exact ⟨s, hrun, hroutes, hrunning, haddressed, fun w => ⟨hreceived hreliable w, (hordered w).2⟩,
    hnodup, hone⟩

end CewServer.Worker
