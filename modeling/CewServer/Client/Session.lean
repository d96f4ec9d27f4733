import CewServer.Http.Response
import CewServer.Lib.Transition

/-!
# The clients of a worker

`cew_client.c`, and the part of `workerp_ipc_callback` that registers a client. A worker is one thread
in an event loop, so a callback is one step, from its call to its return. What the calls it makes
return is in the label of the step: the answers of `getpeername` and `inet_ntop`, what `recv` gives,
the file system a request meets, and the results of the reads that drain the socket. A step in which
the drain does not end is no step: the callback has not returned.

libev runs the callback of a watcher only while it is started, and stopping a watcher takes its
pending event away. A record is kept after it was freed, with the callbacks that still ran on it
counted. The last fields of a `Record` are history, and no step reads them.
-/

namespace CewServer.Client

open Http

def recvBuffSize : Nat := 4096

/-- `tsClientStruct`, without the peer address, which only the log sees. -/
structure ClientStruct where
  iId : Int
  iSockfd : Int
  acSendBuff : Option Bytes
  acRecvBuff : Bytes

/-- `tsClientEv`. A watcher is whether it is started. -/
structure ClientEv where
  sClient : ClientStruct
  io : Bool
  timer : Bool

/-- A `tsClientEv` on the heap. `registered` is that `client_register_ev` returned `EXIT_SUCCESS`,
`descriptor` the socket it was given, and `sent` what was passed to `send` on it. -/
structure Record where
  psClientEv : ClientEv
  freed : Bool
  registered : Bool
  descriptor : Int
  closed : Bool
  deregistrations : Nat
  requests : Nat
  staleCallbacks : Nat
  sent : Bytes

/-- The state of a worker between two callbacks: the records in the order they were allocated. -/
structure Worker where
  records : List Record
  /-- The process was killed in a callback. -/
  aborted : Bool

inductive Event where
  /-- The master has sent something: `iFd` is `none` when receiving it fails. -/
  | ipcCallback (iFd : Option Int) (iId : Int) (getpeername inetNtop : Bool)
  /-- Data, the end of the stream or an error at a client; `recv` is `none` for an error, and `behind`
  is the memory that follows the receive buffer. -/
  | readable (i : Nat) (fs : FileSystem) (recv : Option Bytes) (behind : Bytes) (reads : List Int)
  | timeout (i : Nat) (reads : List Int)

/-- `client_register_ev`: a record whose watchers are started, unless one of the calls fails. -/
def clientRegisterEv (iSockfd iId : Int) (getpeername inetNtop : Bool) : Record where
  psClientEv :=
    { sClient :=
        { iId, iSockfd, acSendBuff := none, acRecvBuff := List.replicate recvBuffSize 0 }
      io := getpeername && inetNtop
      timer := getpeername && inetNtop }
  freed := false
  registered := getpeername && inetNtop
  descriptor := iSockfd
  closed := false
  deregistrations := 0
  requests := 0
  staleCallbacks := 0
  sent := []

/-- The results of the reads with which `while (read(...));` ends: the last is the first zero. -/
def drains : List Int → Bool
  | [] => false
  | [result] => result == 0
  | result :: results => result != 0 && drains results

/-- Whether `client_deregister` gets past the socket: it is drained and closed only if there is one. -/
def Record.drained (r : Record) (reads : List Int) : Bool :=
  if r.psClientEv.sClient.iSockfd = 0 then reads.isEmpty else drains reads

/-- The record as `client_deregister` leaves it: watchers stopped, socket closed, memory freed. -/
def Record.release (r : Record) : Record :=
  { r with
    psClientEv :=
      { sClient := { r.psClientEv.sClient with iSockfd := 0, acSendBuff := none }
        io := false
        timer := false }
    freed := true
    closed := r.closed || r.psClientEv.sClient.iSockfd != 0
    deregistrations := r.deregistrations + 1 }

/-- `client_deregister`, if it returns. -/
def clientDeregister (r : Record) (reads : List Int) : Option Record :=
  if r.drained reads then some r.release else none

def Record.enter (r : Record) : Record :=
  { r with staleCallbacks := r.staleCallbacks + if r.freed then 1 else 0 }

/-- The bytes `recv` puts at the start of the receive buffer. -/
def Record.receive (r : Record) (bytes : Bytes) : Record :=
  { r with
    psClientEv.sClient.acRecvBuff := bytes ++ r.psClientEv.sClient.acRecvBuff.drop bytes.length }

/-- `ev_timer_again` on a timer that repeats leaves it started. -/
def Record.timerAgain (r : Record) : Record := { r with psClientEv.timer := true }

/-- The effect of `http_handle_client_request` on the record. -/
def Record.answer (r : Record) (handled : Handled) : Record :=
  { r with
    psClientEv.sClient.acSendBuff := none
    requests := r.requests + 1
    sent := r.sent ++ handled.sent.getD [] }

def clientCallbackTimeout (r : Record) (reads : List Int) : Option (Record × Bool) :=
  (clientDeregister r.enter reads).map fun r => (r, false)

/-- `client_callback_serve`: the record after it, and whether the process was killed in it. -/
def clientCallbackServe (fs : FileSystem) (r : Record) (recv : Option Bytes) (behind : Bytes)
    (reads : List Int) : Option (Record × Bool) :=
  match recv with
  | none => some (r.enter, false)
  | some [] => (clientDeregister r.enter reads).map fun r => (r, false)
  | some (a :: bytes) =>
      if (a :: bytes).length ≤ recvBuffSize then
        let r := (r.enter.receive (a :: bytes)).timerAgain
        let handled := httpHandleClientRequest fs (r.psClientEv.sClient.acRecvBuff ++ behind)
        let r := r.answer handled
        match handled.sent with
        | none => some (r, true)
        | some _ => (clientDeregister r reads).map fun r => (r, false)
      else none

/-- libev calls back at a record if the watcher is started. -/
def Worker.callback (w : Worker) (i : Nat) (started : ClientEv → Bool)
    (body : Record → Option (Record × Bool)) : Option Worker :=
  match w.records[i]? with
  | none => none
  | some r =>
      if started r.psClientEv then
        (body r).map fun result => { records := w.records.set i result.1, aborted := result.2 }
      else none

def Worker.step (w : Worker) (event : Event) : Option Worker :=
  if w.aborted then none
  else
    match event with
    | .ipcCallback none _ _ _ => some w
    | .ipcCallback (some iFd) iId getpeername inetNtop =>
        some { w with records := w.records ++ [clientRegisterEv iFd iId getpeername inetNtop] }
    | .readable i fs recv behind reads =>
        w.callback i ClientEv.io fun r => clientCallbackServe fs r recv behind reads
    | .timeout i reads => w.callback i ClientEv.timer fun r => clientCallbackTimeout r reads

def system : Transition.System Worker Event where
  Init w := w = ⟨[], false⟩
  step := Worker.step

/-! ### What a step can do -/

theorem clientDeregister_eq {r r' : Record} {reads : List Int}
    (h : clientDeregister r reads = some r') : r' = r.release := by
  unfold clientDeregister at h
  split at h
  · exact (Option.some.inj h).symm
  · cases h

/-- What a callback can do to the record it is called on, and whether it kills the process. -/
inductive RecordMove (r : Record) : Record → Bool → Prop
  | kept (hio : r.psClientEv.io = true) : RecordMove r r.enter false
  | disconnected (hio : r.psClientEv.io = true) : RecordMove r r.enter.release false
  | timedOut (htimer : r.psClientEv.timer = true) : RecordMove r r.enter.release false
  | answered (hio : r.psClientEv.io = true) (bytes : Bytes) (handled : Handled) :
      RecordMove r ((r.enter.receive bytes).timerAgain.answer handled).release false
  | killed (hio : r.psClientEv.io = true) (bytes : Bytes) (handled : Handled) :
      RecordMove r ((r.enter.receive bytes).timerAgain.answer handled) true

theorem clientCallbackServe_cases {fs : FileSystem} {r r' : Record} {recv : Option Bytes}
    {behind : Bytes} {reads : List Int} {aborted : Bool} (hio : r.psClientEv.io = true)
    (h : clientCallbackServe fs r recv behind reads = some (r', aborted)) :
    RecordMove r r' aborted := by
  unfold clientCallbackServe at h
  split at h
  · cases h
    exact .kept hio
  · obtain ⟨r'', hderegister, hpair⟩ := Option.map_eq_some_iff.mp h
    cases hpair
    rw [clientDeregister_eq hderegister]
    exact .disconnected hio
  · split at h
    · dsimp only at h
      split at h
      · cases h
        exact .killed hio _ _
      · obtain ⟨r'', hderegister, hpair⟩ := Option.map_eq_some_iff.mp h
        cases hpair
        rw [clientDeregister_eq hderegister]
        exact .answered hio _ _
    · cases h

/-- A step registers a client, or does nothing, or is a move of one record. -/
inductive WorkerMove (w : Worker) : Worker → Prop
  | ignored : WorkerMove w w
  | registered (iFd iId : Int) (getpeername inetNtop : Bool) :
      WorkerMove w { w with records := w.records ++ [clientRegisterEv iFd iId getpeername inetNtop] }
  | called (i : Nat) {r r' : Record} {aborted : Bool} (hr : w.records[i]? = some r)
      (hmove : RecordMove r r' aborted) :
      WorkerMove w { records := w.records.set i r', aborted }

theorem callback_eq_some {w t : Worker} {i : Nat} {started : ClientEv → Bool}
    {body : Record → Option (Record × Bool)} (h : w.callback i started body = some t) :
    ∃ r r' aborted, w.records[i]? = some r ∧ started r.psClientEv = true ∧
      body r = some (r', aborted) ∧ t = { records := w.records.set i r', aborted } := by
  unfold Worker.callback at h
  split at h
  · cases h
  · rename_i r hr
    split at h
    · rename_i hstarted
      obtain ⟨⟨r', aborted⟩, hresult, rfl⟩ := Option.map_eq_some_iff.mp h
      exact ⟨r, r', aborted, hr, hstarted, hresult, rfl⟩
    · cases h

theorem clientCallbackTimeout_cases {r r' : Record} {reads : List Int} {aborted : Bool}
    (htimer : r.psClientEv.timer = true) (h : clientCallbackTimeout r reads = some (r', aborted)) :
    RecordMove r r' aborted := by
  obtain ⟨r'', hderegister, hpair⟩ := Option.map_eq_some_iff.mp h
  cases hpair
  rw [clientDeregister_eq hderegister]
  exact .timedOut htimer

/-- A step takes a client in, or moves one record, or does nothing. -/
inductive EventMove (w : Worker) : Event → Worker → Prop
  | ignored (iId : Int) (getpeername inetNtop : Bool) :
      EventMove w (.ipcCallback none iId getpeername inetNtop) w
  | registered (iFd iId : Int) (getpeername inetNtop : Bool) :
      EventMove w (.ipcCallback (some iFd) iId getpeername inetNtop)
        { w with records := w.records ++ [clientRegisterEv iFd iId getpeername inetNtop] }
  | served (i : Nat) (fs : FileSystem) (recv : Option Bytes) (behind : Bytes) (reads : List Int)
      {r r' : Record} {aborted : Bool} (hr : w.records[i]? = some r) (hmove : RecordMove r r' aborted) :
      EventMove w (.readable i fs recv behind reads) { records := w.records.set i r', aborted }
  | timedOut (i : Nat) (reads : List Int) {r r' : Record} {aborted : Bool}
      (hr : w.records[i]? = some r) (hmove : RecordMove r r' aborted) :
      EventMove w (.timeout i reads) { records := w.records.set i r', aborted }

theorem step_event {w t : Worker} {event : Event} (h : w.step event = some t) :
    w.aborted = false ∧ EventMove w event t := by
  unfold Worker.step at h
  split at h
  · cases h
  · rename_i halive
    refine ⟨Bool.eq_false_iff.mpr halive, ?_⟩
    split at h
    · cases h
      exact .ignored _ _ _
    · cases h
      exact .registered _ _ _ _
    · obtain ⟨r, r', aborted, hr, hio, hbody, rfl⟩ := callback_eq_some h
      exact .served _ _ _ _ _ hr (clientCallbackServe_cases hio hbody)
    · obtain ⟨r, r', aborted, hr, htimer, hbody, rfl⟩ := callback_eq_some h
      exact .timedOut _ _ hr (clientCallbackTimeout_cases htimer hbody)

theorem step_cases {w t : Worker} {event : Event} (h : w.step event = some t) :
    w.aborted = false ∧ WorkerMove w t := by
  obtain ⟨halive, hmove⟩ := step_event h
  refine ⟨halive, ?_⟩
  cases hmove with
  | ignored => exact .ignored
  | registered iFd iId getpeername inetNtop => exact .registered iFd iId getpeername inetNtop
  | served i _ _ _ _ hr hmove => exact .called i hr hmove
  | timedOut i _ hr hmove => exact .called i hr hmove

end CewServer.Client
