import Mathlib.Logic.Basic

/-!
# Labelled transition systems

A program of several parties is one state and one partial step function. A label names who moves and
how the calls made in the move turn out; a label that is not enabled leads nowhere. What a caller or
the environment promises is a predicate on the label and the state it is taken in, so the same system
can be run under different promises and a property is proved for every run that keeps them.
-/

namespace Transition

structure System (State Label : Type) where
  Init : State → Prop
  step : State → Label → Option State

variable {State Label : Type}

/-- The states of the runs whose every step keeps the promise. -/
inductive Reachable (sys : System State Label) (promise : State → Label → Prop) : State → Prop
  | init {s : State} (hinit : sys.Init s) : Reachable sys promise s
  | step {s t : State} {l : Label} (hs : Reachable sys promise s) (hpromise : promise s l)
      (hstep : sys.step s l = some t) : Reachable sys promise t

namespace Reachable

variable {sys : System State Label} {promise : State → Label → Prop}

/-- The invariant rule: what holds at the start and is kept by each step holds throughout. -/
theorem invariant {Inv : State → Prop} (hinit : ∀ s, sys.Init s → Inv s)
    (hkeep : ∀ s l t, Inv s → promise s l → sys.step s l = some t → Inv t)
    {s : State} (hs : Reachable sys promise s) : Inv s := by
  induction hs with
  | init h => exact hinit _ h
  | step _ hpromise hstep ih => exact hkeep _ _ _ ih hpromise hstep

/-- The invariant rule over an invariant already known. -/
theorem invariant_over {Known Inv : State → Prop}
    (hknown : ∀ s, Reachable sys promise s → Known s) (hinit : ∀ s, sys.Init s → Inv s)
    (hkeep : ∀ s l t, Known s → Inv s → promise s l → sys.step s l = some t → Inv t)
    {s : State} (hs : Reachable sys promise s) : Inv s := by
  induction hs with
  | init h => exact hinit _ h
  | step hs hpromise hstep ih => exact hkeep _ _ _ (hknown _ hs) ih hpromise hstep

theorem mono {weaker : State → Label → Prop} (hweaker : ∀ s l, promise s l → weaker s l)
    {s : State} (hs : Reachable sys promise s) : Reachable sys weaker s := by
  induction hs with
  | init h => exact .init h
  | step _ hpromise hstep ih => exact .step ih (hweaker _ _ hpromise) hstep

/-- Forward simulation: a relation that starts related and follows each step with a step of the
upper system, or with none, relates each reachable state below to a reachable state above. -/
theorem simulates {Upper UpperLabel : Type} {upper : System Upper UpperLabel}
    {upperPromise : Upper → UpperLabel → Prop} {Rel : State → Upper → Prop}
    (hinit : ∀ s, sys.Init s → ∃ u, upper.Init u ∧ Rel s u)
    (hfollow : ∀ s l t u, Reachable sys promise s → Rel s u → promise s l →
      sys.step s l = some t →
      Rel t u ∨ ∃ m v, upperPromise u m ∧ upper.step u m = some v ∧ Rel t v)
    {s : State} (hs : Reachable sys promise s) :
    ∃ u, Reachable upper upperPromise u ∧ Rel s u := by
  induction hs with
  | init h =>
      obtain ⟨u, hu, hrel⟩ := hinit _ h
      exact ⟨u, .init hu, hrel⟩
  | step hs hpromise hstep ih =>
      obtain ⟨u, hu, hrel⟩ := ih
      rcases hfollow _ _ _ u hs hrel hpromise hstep with hstutter | ⟨m, v, hm, hv, hrel'⟩
      · exact ⟨u, hu, hstutter⟩
      · exact ⟨v, .step hu hm hv, hrel'⟩

end Reachable

def System.run (sys : System State Label) : State → List Label → Option State
  | s, [] => some s
  | s, l :: ls => (sys.step s l).bind fun t => sys.run t ls

theorem System.run_append {sys : System State Label} {s t u : State} {ls more : List Label}
    (hrun : sys.run s ls = some t) (hmore : sys.run t more = some u) :
    sys.run s (ls ++ more) = some u := by
  induction ls generalizing s with
  | nil =>
      obtain rfl := Option.some.inj hrun
      exact hmore
  | cons l ls ih =>
      obtain ⟨v, hv, hrest⟩ := Option.bind_eq_some_iff.mp hrun
      rw [List.cons_append, System.run, hv]
      exact ih hrest

/-- A run whose labels keep a promise of their own stays reachable. -/
theorem Reachable.run {sys : System State Label} {promise : State → Label → Prop}
    {s : State} (hs : Reachable sys promise s) {ls : List Label}
    (hpromise : ∀ l ∈ ls, ∀ s, promise s l) {t : State} (hrun : sys.run s ls = some t) :
    Reachable sys promise t := by
  induction ls generalizing s with
  | nil =>
      obtain rfl : s = t := by simpa only [System.run, Option.some.injEq] using hrun
      exact hs
  | cons l ls ih =>
      obtain ⟨u, hu, hrest⟩ := Option.bind_eq_some_iff.mp hrun
      exact ih (.step hs (hpromise l (by simp) s) hu)
        (fun m hm => hpromise m (List.mem_cons_of_mem _ hm)) hrest

/-- The run of a list of labels, if each step keeps the promise. -/
def System.runKeeping (sys : System State Label) (promise : State → Label → Prop)
    [∀ s l, Decidable (promise s l)] : State → List Label → Option State
  | s, [] => some s
  | s, l :: ls => if promise s l then (sys.step s l).bind fun t => sys.runKeeping promise t ls else none

theorem Reachable.runKeeping {sys : System State Label} {promise : State → Label → Prop}
    [∀ s l, Decidable (promise s l)] {s : State} (hs : Reachable sys promise s) {ls : List Label}
    {t : State} (hrun : sys.runKeeping promise s ls = some t) : Reachable sys promise t := by
  induction ls generalizing s with
  | nil =>
      obtain rfl : s = t := by simpa only [System.runKeeping, Option.some.injEq] using hrun
      exact hs
  | cons l ls ih =>
      rw [System.runKeeping] at hrun
      split at hrun
      · rename_i hpromise
        obtain ⟨u, hu, hrest⟩ := Option.bind_eq_some_iff.mp hrun
        exact ih (.step hs hpromise hu) hrest
      · cases hrun

/-! ### History -/

/-- A system that carries a history along: each step is recorded, and none reads the record. -/
def System.recording {History : Type} (sys : System State Label) (start : History)
    (record : History → State → Label → History) : System (State × History) Label where
  Init x := sys.Init x.1 ∧ x.2 = start
  step x l := (sys.step x.1 l).map fun t => (t, record x.2 x.1 l)

section Recording

variable {History : Type} {sys : System State Label} {start : History}
  {record : History → State → Label → History}

theorem System.recording_step {x y : State × History} {l : Label}
    (h : (sys.recording start record).step x l = some y) :
    sys.step x.1 l = some y.1 ∧ y.2 = record x.2 x.1 l := by
  obtain ⟨t, ht, rfl⟩ := Option.map_eq_some_iff.mp h
  exact ⟨ht, rfl⟩

/-- Without its history a recorded run is a run. -/
theorem Reachable.forget {promise : State → Label → Prop} {x : State × History}
    (hx : Reachable (sys.recording start record) (fun x l => promise x.1 l) x) :
    Reachable sys promise x.1 := by
  induction hx with
  | init hinit => exact .init hinit.1
  | step _ hpromise hstep ih => exact .step ih hpromise (System.recording_step hstep).1

end Recording

end Transition
