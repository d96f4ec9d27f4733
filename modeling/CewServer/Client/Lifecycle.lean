import CewServer.Client.Session

/-!
# The life of a client record

Both callbacks of a record free it and each can come first, but freeing stops both watchers, so a
callback can only be called on a record that is registered and not freed. From that one fact follow
the others: a record is freed once, and since a request ends in freeing the record, answered once.
-/

namespace CewServer.Client

open Transition

/-- What holds of each record between two callbacks, and when the process was killed in one. -/
structure RecordOk (aborted : Bool) (r : Record) : Prop where
  started : r.registered = true → r.freed = false →
    r.psClientEv.io = true ∧ r.psClientEv.timer = true
  stopped : r.freed = true ∨ r.registered = false →
    r.psClientEv.io = false ∧ r.psClientEv.timer = false
  freedOnce : r.deregistrations = if r.freed then 1 else 0
  unanswered : aborted = false → r.psClientEv.io = true → r.requests = 0
  answeredOnce : r.requests ≤ 1
  noStaleCallback : r.staleCallbacks = 0

/-- A record a callback can be called on is registered and not freed. -/
theorem RecordOk.live {aborted : Bool} {r : Record} (hr : RecordOk aborted r)
    (hwatcher : r.psClientEv.io = true ∨ r.psClientEv.timer = true) :
    r.registered = true ∧ r.freed = false := by
  by_contra hdead
  have hstopped : r.freed = true ∨ r.registered = false := by
    cases hfreed : r.freed with
    | true => exact .inl rfl
    | false => exact .inr (Bool.eq_false_iff.mpr fun hreg => hdead ⟨hreg, hfreed⟩)
  obtain ⟨hio, htimer⟩ := hr.stopped hstopped
  rcases hwatcher with h | h
  · exact Bool.false_ne_true (hio.symm.trans h)
  · exact Bool.false_ne_true (htimer.symm.trans h)

theorem RecordOk.register (iFd iId : Int) (getpeername inetNtop : Bool) :
    RecordOk false (clientRegisterEv iFd iId getpeername inetNtop) where
  started := fun hregistered _ => ⟨hregistered, hregistered⟩
  stopped := by
    rintro (hfreed | hfailed)
    · cases hfreed
    · exact ⟨hfailed, hfailed⟩
  freedOnce := rfl
  unanswered := fun _ _ => rfl
  answeredOnce := Nat.zero_le 1
  noStaleCallback := rfl

theorem RecordOk.of_false {r : Record} (hr : RecordOk false r) (aborted : Bool) : RecordOk aborted r where
  started := hr.started
  stopped := hr.stopped
  freedOnce := hr.freedOnce
  unanswered := fun _ => hr.unanswered rfl
  answeredOnce := hr.answeredOnce
  noStaleCallback := hr.noStaleCallback

theorem enter_eq_self {r : Record} (hlive : r.freed = false) : r.enter = r := by
  have hcount : (if r.freed = true then 1 else 0) = 0 := if_neg (Bool.eq_false_iff.mp hlive)
  rw [Record.enter, hcount, Nat.add_zero]

theorem RecordOk.release {r : Record} (honce : r.deregistrations = 0) (hanswered : r.requests ≤ 1)
    (hstale : r.staleCallbacks = 0) : RecordOk false r.release where
  started := fun _ hfreed => absurd hfreed.symm Bool.false_ne_true
  stopped := fun _ => ⟨rfl, rfl⟩
  freedOnce := by simp only [Record.release, honce, if_true]
  unanswered := fun _ hio => absurd hio Bool.false_ne_true
  answeredOnce := hanswered
  noStaleCallback := hstale

theorem RecordOk.live_of_move {r r' : Record} {aborted : Bool} (hr : RecordOk false r)
    (hmove : RecordMove r r' aborted) : r.registered = true ∧ r.freed = false := by
  apply hr.live
  cases hmove with
  | timedOut htimer => exact .inr htimer
  | kept hio | disconnected hio | answered hio | killed hio => exact .inl hio

theorem RecordOk.move {r r' : Record} {aborted : Bool} (hr : RecordOk false r)
    (hmove : RecordMove r r' aborted) : RecordOk aborted r' := by
  have hlive := hr.live_of_move hmove
  have henter := enter_eq_self hlive.2
  have honce : r.deregistrations = 0 := by
    rw [hr.freedOnce, hlive.2]
    rfl
  have hunanswered := hr.unanswered rfl (hr.started hlive.1 hlive.2).1
  cases hmove with
  | kept hio =>
      rw [henter]
      exact hr
  | disconnected hio =>
      rw [henter]
      exact .release honce hr.answeredOnce hr.noStaleCallback
  | timedOut htimer =>
      rw [henter]
      exact .release honce hr.answeredOnce hr.noStaleCallback
  | answered hio bytes handled =>
      rw [henter]
      apply RecordOk.release
      · exact honce
      · show r.requests + 1 ≤ 1
        omega
      · exact hr.noStaleCallback
  | killed hio bytes handled =>
      rw [henter]
      exact
        { started := fun _ _ => ⟨hio, rfl⟩
          stopped := fun hdead => by
            rcases hdead with hfreed | hfailed
            · exact absurd (hlive.2.symm.trans hfreed) Bool.false_ne_true
            · exact absurd (hlive.1.symm.trans hfailed) Bool.true_eq_false.mp
          freedOnce := hr.freedOnce
          unanswered := fun habort => absurd habort Bool.true_eq_false.mp
          answeredOnce := by
            show r.requests + 1 ≤ 1
            omega
          noStaleCallback := hr.noStaleCallback }

def RecordsOk (w : Worker) : Prop := ∀ r ∈ w.records, RecordOk w.aborted r

theorem RecordsOk.step {w t : Worker} {event : Event} (hw : RecordsOk w)
    (hstep : w.step event = some t) : RecordsOk t := by
  obtain ⟨halive, hmove⟩ := step_cases hstep
  rw [RecordsOk, halive] at hw
  cases hmove with
  | ignored =>
      rw [RecordsOk, halive]
      exact hw
  | registered iFd iId getpeername inetNtop =>
      intro r hr
      rw [halive]
      rcases List.mem_append.mp hr with hold | hnew
      · exact hw r hold
      · rw [List.mem_singleton.mp hnew]
        exact .register iFd iId getpeername inetNtop
  | called i hr hmove =>
      intro q hq
      rcases List.mem_or_eq_of_mem_set hq with hold | rfl
      · exact (hw q hold).of_false _
      · exact (hw _ (List.mem_of_getElem? hr)).move hmove

theorem recordsOk_of_reachable {promise : Worker → Event → Prop} {w : Worker}
    (hw : Reachable system promise w) : RecordsOk w := by
  apply Reachable.invariant _ _ hw
  · rintro s rfl r hr
    cases hr
  · intro s event t hs _ hstep
    exact hs.step hstep

/-- In every run of a worker no callback runs on a freed record, a record is deregistered at most once
and answered at most once, and between callbacks a registered record is not freed exactly while both
its watchers are started. -/
theorem client_lifecycle {w : Worker} (hw : Reachable system (fun _ _ => True) w) :
    ∀ r ∈ w.records, r.staleCallbacks = 0 ∧ r.deregistrations ≤ 1 ∧ r.requests ≤ 1 ∧
      (r.registered = true →
        (r.freed = false ↔ r.psClientEv.io = true ∧ r.psClientEv.timer = true)) := by
  have hrecords := recordsOk_of_reachable hw
  intro r hr
  have hok := hrecords r hr
  refine ⟨hok.noStaleCallback, ?_, hok.answeredOnce, fun hregistered => ⟨hok.started hregistered, ?_⟩⟩
  · rw [hok.freedOnce]
    split <;> omega
  · intro hstarted
    exact (hok.live (.inl hstarted.1)).2

/-- A run with two clients: the first is slow and then gone, the second sends its request. -/
def twoClients : List Event :=
  [.ipcCallback (some 9) 1 true true, .ipcCallback (some 10) 2 true true, .ipcCallback none 0 true true,
    .readable 0 ⟨fun _ => false, fun _ => none, .plain⟩ none [] [],
    .readable 1 ⟨fun _ => false, fun _ => none, .plain⟩ (some (Bytes.ascii "GET /a.html HTTP/1.1\r\n\r\n")) []
      [3, 0],
    .timeout 0 [0]]

theorem client_lifecycle_twoClients :
    ∃ w, system.run ⟨[], false⟩ twoClients = some w ∧ w.records.map Record.requests = [0, 1] ∧
      ∀ r ∈ w.records, r.staleCallbacks = 0 ∧ r.deregistrations ≤ 1 ∧ r.requests ≤ 1 ∧
        (r.registered = true →
          (r.freed = false ↔ r.psClientEv.io = true ∧ r.psClientEv.timer = true)) := by
  obtain ⟨w, hrun, hrequests⟩ : ∃ w, system.run ⟨[], false⟩ twoClients = some w ∧
      w.records.map Record.requests = [0, 1] := ⟨_, rfl, rfl⟩
  have hw : Reachable system (fun _ _ => True) w :=
    (Reachable.init rfl).run (fun _ _ _ => trivial) hrun
  exact ⟨w, hrun, hrequests, client_lifecycle hw⟩

end CewServer.Client
