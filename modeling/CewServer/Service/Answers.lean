import CewServer.Service.Refinement

/-!
# Whose answer it is

The refinement says that an answer is the answer to some request. Which one it was is history: here the
server is run with a record of the requests its workers have handled and of the connections they came
from. What a connection is sent is then a function of the requests under its own number, whatever the
other connections of the same worker, or of the other workers, did in between.
-/

namespace CewServer.Service

open Transition Worker Http

/-- The request a step hands to `http_handle_client_request`, under the connection it came from. -/
def Server.requestOf (s : Server) : Act → Option (Nat × Request)
  | .readable w i fs (some (a :: bytes)) behind _ =>
      (s.master.registered w)[i]?.map fun k => (k, ⟨fs, a :: bytes, behind⟩)
  | _ => none

/-- The server and the requests handled so far. -/
def recorded (n : Nat) : System (Server × List (Nat × Request)) Act :=
  (server n).recording [] fun requests s act => requests ++ (s.requestOf act).toList

def requestsOf (k : Nat) (requests : List (Nat × Request)) : List Request :=
  requests.filterMap fun entry => if entry.1 = k then some entry.2 else none

def answers (requests : List Request) : Bytes :=
  requests.flatMap fun request => (respond request).getD []

@[simp] theorem requestsOf_nil (k : Nat) : requestsOf k [] = [] := rfl

theorem requestsOf_append (k : Nat) (requests more : List (Nat × Request)) :
    requestsOf k (requests ++ more) = requestsOf k requests ++ requestsOf k more :=
  List.filterMap_append

@[simp] theorem requestsOf_self (k : Nat) (request : Request) :
    requestsOf k [(k, request)] = [request] := by
  simp only [requestsOf, List.filterMap_cons, if_true, List.filterMap_nil]

theorem requestsOf_eq_nil {k : Nat} {requests : List (Nat × Request)}
    (h : ∀ entry ∈ requests, entry.1 ≠ k) : requestsOf k requests = [] := by
  rw [requestsOf, List.filterMap_eq_nil_iff]
  intro entry hentry
  exact if_neg (h entry hentry)

/-- Each record shows the answers to the requests of its own connection. -/
structure Answered (s : Server) (requests : List (Nat × Request)) : Prop where
  known : ∀ entry ∈ requests, ∃ w, entry.1 ∈ s.master.registered w
  shown : ∀ (w : Fin workerMaxWorkers) (j k : Nat) (r : Client.Record),
    (s.master.registered w)[j]? = some k → (s.workers w).records[j]? = some r →
    r.requests = (requestsOf k requests).length ∧ r.sent = answers (requestsOf k requests)

variable {n : Nat} {s t : Server} {requests : List (Nat × Request)}

namespace Answered

theorem start (gWorkerAdmin : WorkerAdmin) : Answered (.start gWorkerAdmin) [] where
  known := fun _ hentry => nomatch hentry
  shown := fun _ _ _ _ hj => nomatch hj

theorem routed (h : Answered s requests) (w : Fin workerMaxWorkers) (sendmsg : Bool) :
    Answered { s with master := s.master.routed w sendmsg } requests := by
  have hregistered : (s.master.routed w sendmsg).registered = s.master.registered :=
    s.master.routed_registered w sendmsg
  refine ⟨fun entry hentry => ?_, fun w' j k r hj hr => ?_⟩
  · rw [hregistered]
    exact h.known entry hentry
  · rw [hregistered] at hj
    exact h.shown w' j k r hj hr

/-- A connection that is taken has made no request yet. -/
theorem taken (h : Answered s requests) (hsound : Sound n s) {w : Fin workerMaxWorkers}
    {client : Nat} {rest : List Nat} (hchannel : s.master.channels w = client :: rest)
    (iFd iId : Int) (getpeername inetNtop : Bool) :
    Answered (Server.withWorker { s with master := s.master.taken w client rest } w
      { s.workers w with
        records := (s.workers w).records
          ++ [Client.clientRegisterEv iFd iId getpeername inetNtop] }) requests := by
  have hclient : client ∈ s.master.channels w := by
    rw [hchannel]
    exact List.mem_cons_self
  have hnew : requestsOf client requests = [] := by
    apply requestsOf_eq_nil
    rintro entry hentry rfl
    obtain ⟨w', hw'⟩ := h.known entry hentry
    exact hsound.placed.not_registered hclient hw'
  refine ⟨fun entry hentry => ?_, fun w' j k r hj hr => ?_⟩
  · obtain ⟨w', hw'⟩ := h.known entry hentry
    refine ⟨w', ?_⟩
    by_cases hw : w' = w
    · subst hw
      simp only [Server.withWorker, Handover.taken, Function.update_self]
      exact List.mem_append_left _ hw'
    · simp only [Server.withWorker, Handover.taken, Function.update_of_ne hw]
      exact hw'
  · by_cases hw : w' = w
    · subst hw
      simp only [Server.withWorker, Handover.taken, Function.update_self] at hj hr
      rcases List.getElem?_concat_cases hj with hold | ⟨rfl, rfl⟩
      · have hindex := (List.getElem?_eq_some_iff.mp hold).1
        rw [← hsound.lengths w'] at hindex
        rw [List.getElem?_append_left hindex] at hr
        exact h.shown w' j k r hold hr
      · rw [← hsound.lengths w', List.getElem?_concat_length] at hr
        obtain rfl := Option.some.inj hr
        rw [hnew]
        exact ⟨rfl, rfl⟩
    · simp only [Server.withWorker, Handover.taken, Function.update_of_ne hw] at hj hr
      exact h.shown w' j k r hj hr

/-- A callback at one record, which may have handled requests of its connection. -/
theorem called (h : Answered s requests) (hplaced : Placed n s.master) {w : Fin workerMaxWorkers}
    {i k : Nat} (hk : (s.master.registered w)[i]? = some k) {more : List (Nat × Request)}
    (hmore : ∀ entry ∈ more, entry.1 = k) {r' : Client.Record} (aborted : Bool)
    (hrequests : r'.requests = (requestsOf k (requests ++ more)).length)
    (hsent : r'.sent = answers (requestsOf k (requests ++ more))) :
    Answered (s.withWorker w { records := (s.workers w).records.set i r', aborted })
      (requests ++ more) := by
  refine ⟨fun entry hentry => ?_, fun w' j k' r hj hr => ?_⟩
  · rcases List.mem_append.mp hentry with hold | hnew
    · exact h.known entry hold
    · rw [hmore entry hnew]
      exact ⟨w, List.mem_of_getElem? hk⟩
  · by_cases hsame : k' = k
    · subst hsame
      obtain ⟨rfl, rfl⟩ := hplaced.same_record hj hk
      simp only [Server.withWorker, Function.update_self] at hr
      rcases getElem?_set_cases hr with ⟨-, rfl⟩ | ⟨hne, -⟩
      · exact ⟨hrequests, hsent⟩
      · exact absurd rfl hne
    · have hother : requestsOf k' more = [] :=
        requestsOf_eq_nil fun entry hentry heq => hsame (heq.symm.trans (hmore entry hentry))
      rw [requestsOf_append, hother, List.append_nil]
      by_cases hw : w' = w
      · subst hw
        simp only [Server.withWorker, Function.update_self] at hr
        rcases getElem?_set_cases hr with ⟨rfl, -⟩ | ⟨-, hr⟩
        · exact absurd (Option.some.inj (hj.symm.trans hk)) hsame
        · exact h.shown w' j k' r hj hr
      · simp only [Server.withWorker, Function.update_of_ne hw] at hr
        exact h.shown w' j k' r hj hr

/-- A callback that handles no request leaves its record with what it had. -/
theorem unrequested (h : Answered s requests) (hplaced : Placed n s.master) {w : Fin workerMaxWorkers}
    {i k : Nat} (hk : (s.master.registered w)[i]? = some k) {r r' : Client.Record}
    (hr : (s.workers w).records[i]? = some r) (hrequests : r'.requests = r.requests)
    (hsent : r'.sent = r.sent) (aborted : Bool) :
    Answered (s.withWorker w { records := (s.workers w).records.set i r', aborted }) requests := by
  obtain ⟨hbefore, hshown⟩ := h.shown w i k r hk hr
  rw [← List.append_nil requests]
  apply h.called hplaced hk
  · intro entry hentry
    cases hentry
  · rw [List.append_nil, hrequests, hbefore]
  · rw [List.append_nil, hsent, hshown]

theorem unrecorded (h : Answered t requests) {act : Act} (hact : s.requestOf act = none) :
    Answered t (requests ++ (s.requestOf act).toList) := by
  rw [hact, Option.toList_none, List.append_nil]
  exact h

/-- A callback that handles a request adds its answer. -/
theorem requested (h : Answered s requests) (hsound : Sound n s) {w : Fin workerMaxWorkers}
    {i k : Nat} (hk : (s.master.registered w)[i]? = some k) {r r' : Client.Record}
    (halive : (s.workers w).aborted = false) (hr : (s.workers w).records[i]? = some r)
    (hio : r.psClientEv.io = true) (fs : FileSystem) (bytes behind : Bytes)
    (hrequests : r'.requests = r.requests + 1)
    (hsent : r'.sent
      = r.sent ++ (httpHandleClientRequest fs (r.received bytes ++ behind)).sent.getD [])
    (aborted : Bool) :
    Answered (s.withWorker w { records := (s.workers w).records.set i r', aborted })
      (requests ++ [(k, ⟨fs, bytes, behind⟩)]) := by
  obtain ⟨hbefore, hshown⟩ := h.shown w i k r hk hr
  apply h.called hsound.placed hk (fun entry hentry => by rw [List.mem_singleton.mp hentry])
  · rw [requestsOf_append, requestsOf_self, List.length_append, List.length_singleton, hrequests,
      hbefore]
  · rw [requestsOf_append, requestsOf_self, answers, List.flatMap_append, hsent, hshown,
      hsound.respond_eq halive hr hio fs bytes behind]
    simp only [answers, List.flatMap_cons, List.flatMap_nil, List.append_nil]

theorem move (h : Answered s requests) (hpos : 1 ≤ n) (hsound : Sound n s) {act : Act}
    (hmove : ServerMove s act t) : Answered t (requests ++ (s.requestOf act).toList) := by
  cases hmove with
  | nothingTaken => exact h.unrecorded rfl
  | emptied | killed =>
      apply unrecorded _ rfl
      exact ⟨h.known, h.shown⟩
  | master accept sendmsg hm =>
      apply unrecorded _ rfl
      simp only [Handover.step, hsound.master.running, Bool.false_eq_true, if_false,
        Option.some.injEq] at hm
      subst hm
      cases accept with
      | false => exact h
      | true =>
          obtain ⟨w, -, hrouted⟩ := hsound.master.socketAcceptClient_eq hpos hsound.count sendmsg
          rw [hrouted]
          exact h.routed w sendmsg
  | taken w halive hchannel iFd iId getpeername inetNtop =>
      exact (h.taken hsound hchannel iFd iId getpeername inetNtop).unrecorded rfl
  | timedOut w i reads halive hr htimer =>
      obtain ⟨k, hk⟩ := hsound.exists_place hr
      apply unrecorded _ rfl
      apply h.unrequested hsound.placed hk hr
      · rfl
      · rfl
  | served w i fs recv behind reads halive hr hio hserve =>
      obtain ⟨k, hk⟩ := hsound.exists_place hr
      cases hserve with
      | kept | disconnected =>
          apply unrecorded _ rfl
          apply h.unrequested hsound.placed hk hr
          · rfl
          · rfl
      | answered a bytes response _ =>
          rw [Server.requestOf, hk, Option.map_some, Option.toList_some]
          apply h.requested hsound hk halive hr hio
          · rfl
          · rfl
      | killed a bytes _ =>
          rw [Server.requestOf, hk, Option.map_some, Option.toList_some]
          apply h.requested hsound hk halive hr hio
          · rfl
          · rfl

end Answered

end CewServer.Service
