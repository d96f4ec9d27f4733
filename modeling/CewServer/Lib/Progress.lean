import CewServer.Lib.Transition
import Mathlib.Algebra.BigOperators.Group.List.Basic
import Mathlib.Algebra.GroupWithZero.Nat

/-!
# Progress by a measure

Safety is what every step keeps. Progress needs someone to move: some labels bring a run nearer to its
goal, others may set it back, and a run in which the first outweigh the second by the distance it
started with has reached the goal. The distance is a measure on states, what a label brings and costs
is on the labels, and whatever moves in between with neither gain nor cost makes no difference.
-/

namespace Transition

variable {State Label : Type} {sys : System State Label} {Inv Goal : State → Prop}
  {distance : State → Nat} {gain cost : Label → Nat} {allowed : Label → Prop} {s t : State}

/-- What the rule asks of a step. The goal is kept once it is reached. -/
structure Approaches (sys : System State Label) (allowed : Label → Prop) (Inv Goal : State → Prop)
    (distance : State → Nat) (gain cost : Label → Nat) : Prop where
  keeps : ∀ s l t, Inv s → allowed l → sys.step s l = some t → Inv t
  stays : ∀ s l t, Inv s → allowed l → sys.step s l = some t → Goal s → Goal t
  nearer : ∀ s l t, Inv s → allowed l → sys.step s l = some t →
    Goal t ∨ distance t + gain l ≤ distance s + cost l

namespace Approaches

theorem run_stays (h : Approaches sys allowed Inv Goal distance gain cost) {ls : List Label}
    (hs : Inv s) (hls : ∀ l ∈ ls, allowed l) (hrun : sys.run s ls = some t) (hgoal : Goal s) :
    Goal t := by
  induction ls generalizing s with
  | nil =>
      obtain rfl := Option.some.inj hrun
      exact hgoal
  | cons l ls ih =>
      obtain ⟨u, hu, hrest⟩ := Option.bind_eq_some_iff.mp hrun
      have hl := hls l List.mem_cons_self
      exact ih (h.keeps s l u hs hl hu) (fun m hm => hls m (List.mem_cons_of_mem _ hm)) hrest
        (h.stays s l u hs hl hu hgoal)

theorem run_nearer (h : Approaches sys allowed Inv Goal distance gain cost) {ls : List Label}
    (hs : Inv s) (hls : ∀ l ∈ ls, allowed l) (hrun : sys.run s ls = some t) :
    Goal t ∨ distance t + (ls.map gain).sum ≤ distance s + (ls.map cost).sum := by
  induction ls generalizing s with
  | nil =>
      obtain rfl := Option.some.inj hrun
      exact .inr (Nat.le_refl _)
  | cons l ls ih =>
      obtain ⟨u, hu, hrest⟩ := Option.bind_eq_some_iff.mp hrun
      have hl := hls l List.mem_cons_self
      have hlater : ∀ m ∈ ls, allowed m := fun m hm => hls m (List.mem_cons_of_mem _ hm)
      have hkept := h.keeps s l u hs hl hu
      rcases h.nearer s l u hs hl hu with hgoal | hstep
      · exact .inl (h.run_stays hkept hlater hrest hgoal)
      · rcases ih hkept hlater hrest with hgoal | hrun
        · exact .inl hgoal
        · refine .inr ?_
          simp only [List.map_cons, List.sum_cons]
          omega

/-- The progress rule: a run that gains more than it had to go and lost on the way is there. -/
theorem run_reaches (h : Approaches sys allowed Inv Goal distance gain cost) {ls : List Label}
    (hs : Inv s) (hls : ∀ l ∈ ls, allowed l) (hrun : sys.run s ls = some t)
    (henough : distance s + (ls.map cost).sum < (ls.map gain).sum) : Goal t := by
  rcases h.run_nearer hs hls hrun with hgoal | hshort
  · exact hgoal
  · omega

end Approaches

end Transition
