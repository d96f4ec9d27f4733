import CewServer.Lib.Transition
import Mathlib.Data.List.Basic

/-!
# What the server is for

A service takes connections and answers each of them once. Connections are known by the order in which
they were accepted and are dealt out to `n` workers in turn, so connection `k` belongs to worker
`k % n`, and each worker takes its connections in their order. What a connection is answered is decided
by the request it made itself. Nothing is said here about processes, descriptors or buffers: those are
the means, and what they have to bring about is a run of this system.
-/

namespace CewServer.Service

open Transition

/-- What has become of a connection. -/
inductive Phase (Request Response : Type) where
  /-- It could not be handed to its worker. -/
  | lost
  /-- It is on its way to its worker. -/
  | underway
  /-- Its worker has taken it and cannot serve it. -/
  | stranded
  /-- Its worker has it and waits for a request. -/
  | waiting
  | answered (request : Request) (response : Response)
  /-- It was closed before it had made a request. -/
  | left
  /-- There was no answer to its request, and its worker is gone. -/
  | cut (request : Request)

inductive Op (Request : Type) where
  | accept (sent : Bool)
  | take (k : Nat) (registered : Bool)
  | receive (k : Nat) (request : Request)
  | leave (k : Nat)

variable {Request Response : Type}

def Phase.isUnderway : Phase Request Response → Bool
  | .underway => true
  | _ => false

/-- The phases of the connections accepted so far. -/
structure Connections (Request Response : Type) where
  phases : List (Phase Request Response)

namespace Connections

variable (s : Connections Request Response)

def goto (k : Nat) (phase : Phase Request Response) : Connections Request Response :=
  ⟨s.phases.set k phase⟩

/-- No connection of the same worker was accepted before `k` and is still on its way. -/
def first (n k : Nat) : Bool :=
  (List.range k).all fun j => !(j % n == k % n && (s.phases[j]?.elim false Phase.isUnderway))

def step (n : Nat) (respond : Request → Option Response) (s : Connections Request Response) :
    Op Request → Option (Connections Request Response)
  | .accept sent => some ⟨s.phases ++ [if sent then .underway else .lost]⟩
  | .take k registered =>
      match s.phases[k]? with
      | some .underway =>
          if s.first n k then some (s.goto k (if registered then .waiting else .stranded)) else none
      | _ => none
  | .receive k request =>
      match s.phases[k]? with
      | some .waiting =>
          match respond request with
          | some response => some (s.goto k (.answered request response))
          | none => some (s.goto k (.cut request))
      | _ => none
  | .leave k =>
      match s.phases[k]? with
      | some .waiting => some (s.goto k .left)
      | _ => none

end Connections

/-- The service with `n` workers whose answers are `respond`. -/
def service (n : Nat) (respond : Request → Option Response) :
    System (Connections Request Response) (Op Request) where
  Init s := s = ⟨[]⟩
  step := Connections.step n respond

namespace Connections

variable {n : Nat} {respond : Request → Option Response} {s t : Connections Request Response} {k : Nat}

theorem first_iff : s.first n k = true
    ↔ ∀ j < k, j % n = k % n → s.phases[j]? ≠ some .underway := by
  simp only [first, List.all_eq_true, List.mem_range, Bool.not_eq_true', Bool.and_eq_false_iff,
    beq_eq_false_iff_ne]
  refine forall₂_congr fun j _ => ?_
  cases hphase : s.phases[j]? with
  | none => simp
  | some phase =>
      cases phase with
      | underway => simp [Phase.isUnderway]
      | _ => simp [Phase.isUnderway]

theorem step_take (hphase : s.phases[k]? = some .underway) (hfirst : s.first n k = true)
    (registered : Bool) :
    (service n respond).step s (.take k registered)
      = some (s.goto k (if registered then .waiting else .stranded)) := by
  simp only [service, step, hphase, hfirst, if_true]

theorem step_receive_some {request : Request} {response : Response}
    (hphase : s.phases[k]? = some .waiting) (hrespond : respond request = some response) :
    (service n respond).step s (.receive k request)
      = some (s.goto k (.answered request response)) := by
  simp only [service, step, hphase, hrespond]

theorem step_receive_none {request : Request} (hphase : s.phases[k]? = some .waiting)
    (hrespond : respond request = none) :
    (service n respond).step s (.receive k request) = some (s.goto k (.cut request)) := by
  simp only [service, step, hphase, hrespond]

theorem step_leave (hphase : s.phases[k]? = some .waiting) :
    (service n respond).step s (.leave k) = some (s.goto k .left) := by
  simp only [service, step, hphase]

/-- An answer is the answer to the request it goes with. -/
def Honest (respond : Request → Option Response) (s : Connections Request Response) : Prop :=
  ∀ request response, .answered request response ∈ s.phases → respond request = some response

theorem Honest.goto (h : Honest respond s) {phase : Phase Request Response}
    (hphase : ∀ request response, phase = .answered request response →
      respond request = some response) : Honest respond (s.goto k phase) := by
  intro request response hmem
  rcases List.mem_or_eq_of_mem_set hmem with hold | hnew
  · exact h request response hold
  · exact hphase request response hnew.symm

theorem Honest.step (h : Honest respond s) {op : Op Request}
    (hstep : (service n respond).step s op = some t) : Honest respond t := by
  change s.step n respond op = some t at hstep
  cases op with
  | accept sent =>
      obtain rfl := Option.some.inj hstep
      intro request response hmem
      rcases List.mem_append.mp hmem with hold | hnew
      · exact h request response hold
      · cases sent <;> cases List.mem_singleton.mp hnew
  | take k registered =>
      simp only [Connections.step] at hstep
      split at hstep
      · split at hstep
        · obtain rfl := Option.some.inj hstep
          refine h.goto fun request response heq => ?_
          cases registered <;> cases heq
        · cases hstep
      · cases hstep
  | receive k request =>
      simp only [Connections.step] at hstep
      split at hstep
      · split at hstep
        · rename_i response hrespond
          obtain rfl := Option.some.inj hstep
          refine h.goto fun request' response' heq => ?_
          obtain ⟨rfl, rfl⟩ := Phase.answered.inj heq
          exact hrespond
        · obtain rfl := Option.some.inj hstep
          exact h.goto fun request response heq => nomatch heq
      · cases hstep
  | leave k =>
      simp only [Connections.step] at hstep
      split at hstep
      · obtain rfl := Option.some.inj hstep
        exact h.goto fun request response heq => nomatch heq
      · cases hstep

end Connections

end CewServer.Service
