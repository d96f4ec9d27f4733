import CewServer.Worker.Handover
import CewServer.Lib.Descriptors

/-!
# The descriptors of the master

`accept` opens a descriptor in the master, and sending it to a worker makes a copy of it there. Neither
`socket_accept_client` nor what it calls closes the master's own, whether the send succeeds or not: each
client that is accepted takes one descriptor of the master away for good.
-/

namespace CewServer.Worker

open Descriptors Transition

/-- The master with its open descriptors. -/
structure Listener where
  handover : Handover
  fds : Finset Nat

/-- What `accept` and `sendmsg` return when the listening socket is readable. -/
structure Arrival where
  accept : Bool
  sendmsg : Bool

/-- `socket_accept_client` with `worker_route_client` and `send_fd_to_worker`. The client's descriptor
is the lowest free one, and none of the three functions closes it. -/
def Listener.socketAcceptClient (s : Listener) (arrival : Arrival) : Listener where
  handover := s.handover.socketAcceptClient arrival.accept arrival.sendmsg
  fds := if arrival.accept then opened s.fds else s.fds

def Listener.run (s : Listener) (arrivals : List Arrival) : Listener :=
  arrivals.foldl Listener.socketAcceptClient s

/-- After each call of a run the descriptors are those from before the call. -/
def Balanced (s : Listener) (arrivals : List Arrival) : Prop :=
  ∀ before arrival after, arrivals = before ++ arrival :: after →
    (s.run (before ++ [arrival])).fds = (s.run before).fds

theorem Listener.run_append (s : Listener) (before after : List Arrival) :
    s.run (before ++ after) = (s.run before).run after := List.foldl_append

/-- One call leaves the descriptors alone exactly when it accepts nobody. -/
theorem Listener.fds_socketAcceptClient_iff (s : Listener) (arrival : Arrival) :
    (s.socketAcceptClient arrival).fds = s.fds ↔ arrival.accept = false := by
  cases haccept : arrival.accept with
  | true =>
      simp only [Listener.socketAcceptClient, haccept, if_true, Bool.true_eq_false, iff_false]
      exact opened_ne s.fds
  | false => simp only [Listener.socketAcceptClient, haccept, Bool.false_eq_true, if_false]

theorem balanced_iff (s : Listener) (arrivals : List Arrival) :
    Balanced s arrivals ↔ ∀ arrival ∈ arrivals, arrival.accept = false := by
  constructor
  · intro hbalanced arrival hmem
    obtain ⟨before, after, hsplit⟩ := List.append_of_mem hmem
    have hsame := hbalanced before arrival after hsplit
    rw [Listener.run_append] at hsame
    exact (Listener.fds_socketAcceptClient_iff _ arrival).mp hsame
  · intro hnone before arrival after hsplit
    have hmem : arrival ∈ arrivals := by
      rw [hsplit]
      exact List.mem_append_right _ List.mem_cons_self
    rw [Listener.run_append]
    exact (Listener.fds_socketAcceptClient_iff _ arrival).mpr (hnone arrival hmem)

/-- What a run leaves open for good: one descriptor for each client. -/
theorem card_run (s : Listener) (arrivals : List Arrival) :
    (s.run arrivals).fds.card = s.fds.card + arrivals.countP fun arrival => arrival.accept := by
  induction arrivals generalizing s with
  | nil => rfl
  | cons arrival arrivals ih =>
      have hrest := ih (s.socketAcceptClient arrival)
      rw [List.countP_cons, Listener.run, List.foldl_cons]
      rw [Listener.run] at hrest
      rw [hrest]
      cases haccept : arrival.accept with
      | true =>
          simp only [Listener.socketAcceptClient, haccept, if_true, card_opened]
          omega
      | false => simp only [Listener.socketAcceptClient, haccept, Bool.false_eq_true, if_false,
          Nat.add_zero]

/-- The master runs on whatever happens to the calls it makes. -/
theorem run_reachable {n : Nat} {s : Listener} (hpos : 1 ≤ n)
    (hs : Reachable (handover n) (fun _ _ => True) s.handover) (arrivals : List Arrival) :
    Reachable (handover n) (fun _ _ => True) (s.run arrivals).handover := by
  induction arrivals generalizing s with
  | nil => exact hs
  | cons arrival arrivals ih =>
      have hrunning := (handoverOk_of_reachable hpos hs).2.running
      have hstep : (handover n).step s.handover (.acceptClient arrival.accept arrival.sendmsg)
          = some (s.socketAcceptClient arrival).handover := by
        simp only [handover, Handover.step, hrunning, Bool.false_eq_true, if_false]
        rfl
      exact ih (.step hs trivial hstep)

/-- Over any sequence of arrivals, from any state of a master with workers, every call returns, and each
leaves the descriptors of the master as they were exactly when no client is accepted. -/
theorem listener_balanced_iff {n : Nat} {s : Listener} (hpos : 1 ≤ n)
    (hs : Reachable (handover n) (fun _ _ => True) s.handover) (arrivals : List Arrival) :
    (∀ before, before <+: arrivals → (s.run before).handover.crashed = false) ∧
      (Balanced s arrivals ↔ ∀ arrival ∈ arrivals, arrival.accept = false) := by
  refine ⟨fun before _ => ?_, balanced_iff s arrivals⟩
  exact (handoverOk_of_reachable hpos (run_reachable hpos hs before)).2.running

def twoWorkers : Listener where
  handover := .start (workerInit allSucceed 2).2.gWorkerAdmin
  fds := {0, 1, 2, 10, 11, 12, 13}

theorem twoWorkers_reachable :
    Reachable (handover 2) (fun _ _ => True) twoWorkers.handover :=
  .init ⟨allSucceed, _, rfl, rfl⟩

theorem listener_balanced_noClient :
    Balanced twoWorkers [⟨false, true⟩, ⟨false, false⟩] :=
  (listener_balanced_iff (by decide) twoWorkers_reachable _).2.mpr (by decide)

theorem listener_not_balanced :
    ¬ ∀ (n : Nat) (s : Listener) (arrivals : List Arrival), 1 ≤ n →
      Reachable (handover n) (fun _ _ => True) s.handover → Balanced s arrivals := by
  intro hbalanced
  have hone := hbalanced 2 twoWorkers [⟨true, true⟩] (by decide) twoWorkers_reachable [] ⟨true, true⟩ []
    rfl
  exact opened_ne twoWorkers.fds hone

end CewServer.Worker
