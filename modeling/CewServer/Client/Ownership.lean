import CewServer.Client.Lifecycle
import CewServer.Lib.Channel

/-!
# Who closes a client's socket

A worker owns the descriptors it receives from the master, and only `client_deregister` closes one. It
is called from the callbacks of a record, so a descriptor is safe with a record whose watchers are
started. `client_register_ev` allocates the record first and starts the watchers last; when
`getpeername` or `inet_ntop` fails in between it returns, and neither the record nor the descriptor has
anybody left to release it.
-/

namespace CewServer.Client

open Transition

/-- The descriptor was received and has not been closed. -/
def Worker.Holds (w : Worker) (fd : Int) : Prop :=
  ∃ r ∈ w.records, r.descriptor = fd ∧ r.closed = false

/-- The record at this place is live, has the descriptor, and can be called back. -/
def Worker.OwnsAt (w : Worker) (fd : Int) (i : Nat) : Prop :=
  ∃ r, w.records[i]? = some r ∧ r.freed = false ∧ r.psClientEv.sClient.iSockfd = fd ∧
    r.psClientEv.io = true ∧ r.psClientEv.timer = true

def Worker.Owned (w : Worker) : Prop := ∀ fd, w.Holds fd → ∃! i, w.OwnsAt fd i

/-- A descriptor the kernel hands to the worker is not zero, and not one that it has open. -/
def FreshDescriptor (w : Worker) : Event → Prop
  | .ipcCallback (some iFd) _ _ _ => iFd ≠ 0 ∧ ¬ w.Holds iFd
  | _ => True

/-- `getpeername` and `inet_ntop` succeed. -/
def Registers : Event → Prop
  | .ipcCallback (some _) _ getpeername inetNtop => (getpeername && inetNtop) = true
  | _ => True

/-! ### The socket of a record -/

/-- The socket is open until the record is freed. -/
structure SocketOk (r : Record) : Prop where
  nonzero : r.descriptor ≠ 0
  held : r.freed = false → r.closed = false ∧ r.psClientEv.sClient.iSockfd = r.descriptor
  closed : r.freed = true → r.closed = true

theorem SocketOk.register {iFd : Int} (hfd : iFd ≠ 0) (iId : Int) (getpeername inetNtop : Bool) :
    SocketOk (clientRegisterEv iFd iId getpeername inetNtop) where
  nonzero := hfd
  held := fun _ => ⟨rfl, rfl⟩
  closed := fun hfreed => absurd hfreed Bool.false_ne_true

theorem SocketOk.release {r : Record} (hr : SocketOk r) (hlive : r.freed = false) :
    SocketOk r.release where
  nonzero := hr.nonzero
  held := fun hfreed => absurd hfreed.symm Bool.false_ne_true
  closed := by
    intro _
    have hsocket : r.psClientEv.sClient.iSockfd ≠ 0 := by
      rw [(hr.held hlive).2]
      exact hr.nonzero
    simp only [Record.release, bne_iff_ne.mpr hsocket, Bool.or_true]

theorem SocketOk.move {r r' : Record} {aborted : Bool} (hr : SocketOk r) (hlive : r.freed = false)
    (hmove : RecordMove r r' aborted) : SocketOk r' := by
  have henter := enter_eq_self hlive
  have hanswered : ∀ bytes handled, SocketOk ((r.receive bytes).timerAgain.answer handled) :=
    fun _ _ => ⟨hr.nonzero, hr.held, hr.closed⟩
  cases hmove with
  | kept hio =>
      rw [henter]
      exact hr
  | disconnected hio | timedOut htimer =>
      rw [henter]
      exact hr.release hlive
  | answered hio bytes handled =>
      rw [henter]
      exact (hanswered bytes handled).release hlive
  | killed hio bytes handled =>
      rw [henter]
      exact hanswered bytes handled

/-! ### The descriptors of a worker -/

structure DescriptorsOk (w : Worker) : Prop where
  sockets : ∀ r ∈ w.records, SocketOk r
  /-- No two records have the same open descriptor. -/
  unique : ∀ (i j : Nat) (r q : Record), w.records[i]? = some r → w.records[j]? = some q →
    r.closed = false → q.closed = false → r.descriptor = q.descriptor → i = j

theorem RecordMove.descriptor_eq {r r' : Record} {aborted : Bool} (hmove : RecordMove r r' aborted) :
    r'.descriptor = r.descriptor := by
  cases hmove <;> rfl

theorem RecordMove.closed_of {r r' : Record} {aborted : Bool} (hmove : RecordMove r r' aborted)
    (hopen : r'.closed = false) : r.closed = false := by
  cases hmove with
  | kept hio | killed hio bytes handled => exact hopen
  | disconnected hio | timedOut htimer | answered hio bytes handled =>
      exact (Bool.or_eq_false_iff.mp hopen).1

theorem DescriptorsOk.called {w : Worker} (hw : DescriptorsOk w) (hrecords : RecordsOk w)
    (halive : w.aborted = false) {i : Nat} {r r' : Record} {aborted : Bool}
    (hr : w.records[i]? = some r) (hmove : RecordMove r r' aborted) :
    DescriptorsOk { records := w.records.set i r', aborted } where
  sockets := by
    intro q hq
    rcases List.mem_or_eq_of_mem_set hq with hold | rfl
    · exact hw.sockets q hold
    · have hmem := List.mem_of_getElem? hr
      have hok := hrecords r hmem
      rw [halive] at hok
      exact (hw.sockets r hmem).move (hok.live_of_move hmove).2 hmove
  unique := by
    -- a record that was moved had its descriptor open before, if it has it open now
    have hbefore : ∀ (j : Nat) (q : Record), (w.records.set i r')[j]? = some q → q.closed = false →
        ∃ q', w.records[j]? = some q' ∧ q'.closed = false ∧ q'.descriptor = q.descriptor := by
      intro j q hj hopen
      by_cases hij : i = j
      · subst hij
        have hindex := (List.getElem?_eq_some_iff.mp hr).1
        rw [List.getElem?_set_self hindex] at hj
        obtain rfl := Option.some.inj hj
        exact ⟨r, hr, hmove.closed_of hopen, hmove.descriptor_eq.symm⟩
      · rw [List.getElem?_set_ne hij] at hj
        exact ⟨q, hj, hopen, rfl⟩
    intro j k q u hq hu hqopen huopen hsame
    obtain ⟨q', hq', hqopen', hqsame⟩ := hbefore j q hq hqopen
    obtain ⟨u', hu', huopen', husame⟩ := hbefore k u hu huopen
    exact hw.unique j k q' u' hq' hu' hqopen' huopen' (hqsame.trans (hsame.trans husame.symm))

theorem DescriptorsOk.registered {w : Worker} (hw : DescriptorsOk w) {iFd : Int} (hfd : iFd ≠ 0)
    (hfresh : ¬ w.Holds iFd) (iId : Int) (getpeername inetNtop : Bool) :
    DescriptorsOk { w with records := w.records ++ [clientRegisterEv iFd iId getpeername inetNtop] } where
  sockets := by
    intro r hr
    rcases List.mem_append.mp hr with hold | hnew
    · exact hw.sockets r hold
    · rw [List.mem_singleton.mp hnew]
      exact .register hfd iId getpeername inetNtop
  unique := by
    -- the new record is the last, and no older one has its descriptor open
    have hplace : ∀ (j : Nat) (q : Record),
        (w.records ++ [clientRegisterEv iFd iId getpeername inetNtop])[j]? = some q →
        w.records[j]? = some q ∨ j = w.records.length ∧ q.descriptor = iFd := by
      intro j q hj
      rcases List.getElem?_concat_cases hj with hold | ⟨hlast, rfl⟩
      · exact .inl hold
      · exact .inr ⟨hlast, rfl⟩
    intro j k q u hq hu hqopen huopen hsame
    rcases hplace j q hq with hq | ⟨hj, hqfd⟩
    · rcases hplace k u hu with hu | ⟨hk, hufd⟩
      · exact hw.unique j k q u hq hu hqopen huopen hsame
      · exact absurd ⟨q, List.mem_of_getElem? hq, hsame.trans hufd, hqopen⟩ hfresh
    · rcases hplace k u hu with hu | ⟨hk, hufd⟩
      · exact absurd ⟨u, List.mem_of_getElem? hu, hsame.symm.trans hqfd, huopen⟩ hfresh
      · rw [hj, hk]

theorem DescriptorsOk.step {w t : Worker} {event : Event} (hrecords : RecordsOk w)
    (hw : DescriptorsOk w) (hfresh : FreshDescriptor w event) (hstep : w.step event = some t) :
    DescriptorsOk t := by
  obtain ⟨halive, hmove⟩ := step_event hstep
  cases hmove with
  | ignored => exact hw
  | registered iFd iId getpeername inetNtop => exact hw.registered hfresh.1 hfresh.2 iId _ _
  | served i _ _ _ _ hr hmove => exact hw.called hrecords halive hr hmove
  | timedOut i _ hr hmove => exact hw.called hrecords halive hr hmove

theorem descriptorsOk_of_reachable {w : Worker} (hw : Reachable system FreshDescriptor w) :
    DescriptorsOk w := by
  apply Reachable.invariant_over (fun _ => recordsOk_of_reachable) _ _ hw
  · rintro s rfl
    exact ⟨fun r hr => absurd hr List.not_mem_nil, fun i j r q hr => by cases hr⟩
  · intro s event t hrecords hs hfresh hstep
    exact hs.step hrecords hfresh hstep

theorem RecordMove.registered_eq {r r' : Record} {aborted : Bool} (hmove : RecordMove r r' aborted) :
    r'.registered = r.registered := by
  cases hmove <;> rfl

def AllRegistered (w : Worker) : Prop := ∀ r ∈ w.records, r.registered = true

/-- Where every registration succeeds, every record is registered. -/
theorem allRegistered_of_reachable {w : Worker}
    (hw : Reachable system (fun _ event => Registers event) w) : AllRegistered w := by
  apply Reachable.invariant _ _ hw
  · rintro s rfl r hr
    cases hr
  · intro s event t hs hpromise hstep
    have hset : ∀ {i : Nat} {r r' : Record} {aborted : Bool}, s.records[i]? = some r →
        RecordMove r r' aborted → ∀ q ∈ s.records.set i r', q.registered = true := by
      intro i r r' aborted hr hmove q hq
      rcases List.mem_or_eq_of_mem_set hq with hold | rfl
      · exact hs q hold
      · rw [hmove.registered_eq]
        exact hs r (List.mem_of_getElem? hr)
    cases (step_event hstep).2 with
    | ignored => exact hs
    | registered iFd iId getpeername inetNtop =>
        intro r hr
        rcases List.mem_append.mp hr with hold | hnew
        · exact hs r hold
        · rw [List.mem_singleton.mp hnew]
          exact hpromise
    | served i _ _ _ _ hr hmove => exact hset hr hmove
    | timedOut i _ hr hmove => exact hset hr hmove

/-- The socket of a record is closed when the record is freed, and not before. -/
theorem SocketOk.closed_eq {r : Record} (hr : SocketOk r) : r.closed = r.freed := by
  cases hfreed : r.freed with
  | false => exact (hr.held hfreed).1
  | true => exact hr.closed hfreed

/-- A record that has its descriptor open is live and has it in `iSockfd`. -/
theorem DescriptorsOk.live {w : Worker} (hw : DescriptorsOk w) {r : Record} (hr : r ∈ w.records)
    (hopen : r.closed = false) :
    r.freed = false ∧ r.psClientEv.sClient.iSockfd = r.descriptor := by
  have hsocket := hw.sockets r hr
  have hlive : r.freed = false := hsocket.closed_eq.symm.trans hopen
  exact ⟨hlive, (hsocket.held hlive).2⟩

theorem Worker.owned_of_registered {w : Worker} (hw : DescriptorsOk w) (hrecords : RecordsOk w)
    (hregistered : AllRegistered w) : w.Owned := by
  rintro fd ⟨r, hr, rfl, hopen⟩
  obtain ⟨hlive, hsocket⟩ := hw.live hr hopen
  obtain ⟨i, hi⟩ := List.getElem?_of_mem hr
  refine ⟨i, ⟨r, hi, hlive, hsocket, (hrecords r hr).started (hregistered r hr) hlive⟩, ?_⟩
  rintro j ⟨q, hj, hqlive, hqsocket, -⟩
  obtain ⟨hqopen, hqdescriptor⟩ := (hw.sockets q (List.mem_of_getElem? hj)).held hqlive
  exact hw.unique j i q r hj hi hqopen hopen (hqdescriptor.symm.trans hqsocket)

/-- A client whose registration fails leaves its descriptor without an owner. -/
theorem Worker.not_owned_of_failed {w : Worker} (hw : DescriptorsOk w) {iFd : Int}
    (hfresh : ¬ w.Holds iFd) (iId : Int) {getpeername inetNtop : Bool}
    (hfailed : (getpeername && inetNtop) = false) :
    ¬ { w with
        records := w.records ++ [clientRegisterEv iFd iId getpeername inetNtop] : Worker }.Owned := by
  intro howned
  have hlast : clientRegisterEv iFd iId getpeername inetNtop
      ∈ w.records ++ [clientRegisterEv iFd iId getpeername inetNtop] :=
    List.mem_append_right _ (List.mem_singleton_self _)
  obtain ⟨i, ⟨r, hi, hlive, hsocket, hio, -⟩, -⟩ := howned iFd ⟨_, hlast, rfl, rfl⟩
  rcases List.mem_append.mp (List.mem_of_getElem? hi) with hold | hnew
  · obtain ⟨hopen, hdescriptor⟩ := (hw.sockets r hold).held hlive
    exact hfresh ⟨r, hold, hdescriptor.symm.trans hsocket, hopen⟩
  · rw [List.mem_singleton.mp hnew] at hio
    exact Bool.false_ne_true (hfailed.symm.trans hio)

/-- As long as every registration succeeds, each descriptor a worker has received and not closed belongs
to exactly one live record with both watchers started; the first that fails leaves one without. -/
theorem received_owned {w : Worker}
    (hw : Reachable system (fun w event => FreshDescriptor w event ∧ Registers event) w) :
    w.Owned ∧ ∀ iFd iId getpeername inetNtop t,
      FreshDescriptor w (.ipcCallback (some iFd) iId getpeername inetNtop) →
      (getpeername && inetNtop) = false →
      w.step (.ipcCallback (some iFd) iId getpeername inetNtop) = some t → ¬ t.Owned := by
  have hdescriptors := descriptorsOk_of_reachable (hw.mono fun _ _ hpromise => hpromise.1)
  refine ⟨Worker.owned_of_registered hdescriptors (recordsOk_of_reachable hw)
    (allRegistered_of_reachable (hw.mono fun _ _ hpromise => hpromise.2)), ?_⟩
  intro iFd iId getpeername inetNtop t hfresh hfailed hstep
  cases (step_event hstep).2 with
  | registered => exact Worker.not_owned_of_failed hdescriptors hfresh.2 iId hfailed

theorem freshDescriptor_first {iFd : Int} (hfd : iFd ≠ 0) (iId : Int) (getpeername inetNtop : Bool) :
    FreshDescriptor ⟨[], false⟩ (.ipcCallback (some iFd) iId getpeername inetNtop) :=
  ⟨hfd, fun ⟨_, hr, _⟩ => absurd hr List.not_mem_nil⟩

/-- Two clients are taken in, and the first has timed out. -/
theorem received_owned_twoClients :
    ∃ w, Reachable system (fun w event => FreshDescriptor w event ∧ Registers event) w ∧
      w.records.map Record.closed = [true, false] ∧ w.Owned := by
  have hempty : Reachable system (fun w event => FreshDescriptor w event ∧ Registers event) ⟨[], false⟩ :=
    .init rfl
  have hone : Reachable system (fun w event => FreshDescriptor w event ∧ Registers event)
      ⟨[clientRegisterEv 9 1 true true], false⟩ :=
    hempty.step ⟨freshDescriptor_first (by decide) 1 true true, rfl⟩ rfl
  have hsecond : FreshDescriptor ⟨[clientRegisterEv 9 1 true true], false⟩
      (.ipcCallback (some 10) 2 true true) := by
    refine ⟨by decide, ?_⟩
    rintro ⟨r, hr, hfd, -⟩
    rw [List.mem_singleton.mp hr] at hfd
    exact absurd hfd (by decide)
  have htwo : Reachable system (fun w event => FreshDescriptor w event ∧ Registers event)
      ⟨[clientRegisterEv 9 1 true true, clientRegisterEv 10 2 true true], false⟩ :=
    hone.step ⟨hsecond, rfl⟩ rfl
  have hgone : Reachable system (fun w event => FreshDescriptor w event ∧ Registers event)
      ⟨[(clientRegisterEv 9 1 true true).enter.release, clientRegisterEv 10 2 true true], false⟩ :=
    .step (l := .timeout 0 [0]) htwo ⟨trivial, trivial⟩ rfl
  exact ⟨_, hgone, rfl, (received_owned hgone).1⟩

theorem received_not_owned : ¬ ∀ w, Reachable system FreshDescriptor w → w.Owned := by
  intro howned
  have hempty : Reachable system FreshDescriptor ⟨[], false⟩ := .init rfl
  have hreset : Reachable system FreshDescriptor ⟨[clientRegisterEv 9 1 false true], false⟩ :=
    hempty.step (freshDescriptor_first (by decide) 1 false true) rfl
  obtain ⟨i, ⟨r, hi, -, -, hio, -⟩, -⟩ := howned _ hreset 9 ⟨_, List.mem_cons_self, rfl, rfl⟩
  rw [List.mem_singleton.mp (List.mem_of_getElem? hi)] at hio
  cases hio

end CewServer.Client
