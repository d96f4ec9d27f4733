import CewServer.Client.Ownership
import CewServer.Http.Confinement
import CewServer.Lib.Descriptors

/-!
# The descriptors a worker uses up

`http_handle_client_request` opens the file it sends and does not close it, so a call leaves the
descriptors of the worker alone exactly when it does not get as far as opening a file. Over a run the
worker has open what it started with, the sockets of its clients, and every file it has ever sent.
-/

namespace CewServer.Client

open Http Descriptors Transition

/-- The open descriptors after `http_handle_client_request`. `access`, `fstat`, `read` and `send` open
none, and nothing in the function closes one. -/
def descriptorsAfter (fs : FileSystem) (acRecvBuff : Bytes) (fds : Finset Nat) : Finset Nat :=
  if (httpHandleClientRequest fs acRecvBuff).opened.isSome then opened fds else fds

/-- The open descriptors, and how many of them are files that were sent. -/
structure Usage where
  fds : Finset Nat
  files : Nat

namespace Usage

def handle (u : Usage) (fs : FileSystem) (acRecvBuff : Bytes) : Usage where
  fds := descriptorsAfter fs acRecvBuff u.fds
  files := u.files + if (httpHandleClientRequest fs acRecvBuff).opened.isSome then 1 else 0

/-- The `close` of `client_deregister`. -/
def close (u : Usage) (r : Record) : Usage :=
  if r.psClientEv.sClient.iSockfd = 0 then u
  else { u with fds := u.fds.erase r.psClientEv.sClient.iSockfd.toNat }

end Usage

/-- The receive buffer a request is read from, and the memory behind it. -/
def Record.request (r : Record) (bytes behind : Bytes) : Bytes :=
  (r.enter.receive bytes).timerAgain.psClientEv.sClient.acRecvBuff ++ behind

/-- What the callback at a record does to the descriptors. -/
def Usage.serve (u : Usage) (r : Record) (fs : FileSystem) (recv : Option Bytes) (behind : Bytes) :
    Usage :=
  match recv with
  | none => u
  | some [] => u.close r
  | some (a :: bytes) =>
      let request := r.request (a :: bytes) behind
      match (httpHandleClientRequest fs request).sent with
      | none => u.handle fs request
      | some _ => (u.handle fs request).close r

/-- What an event does to the descriptors: receiving one opens it in the worker. -/
def Usage.after (u : Usage) (w : Worker) : Event → Usage
  | .ipcCallback none _ _ _ => u
  | .ipcCallback (some _) _ _ _ => { u with fds := opened u.fds }
  | .readable i fs recv behind _ =>
      match w.records[i]? with
      | none => u
      | some r => u.serve r fs recv behind
  | .timeout i _ =>
      match w.records[i]? with
      | none => u
      | some r => u.close r

/-- The runs of a worker that has `base` open when its loop begins. -/
def usage (base : Finset Nat) : System (Worker × Usage) Event := system.recording ⟨base, 0⟩ Usage.after

/-- The kernel gives the worker the lowest number that is free. -/
def ReceivesFree (x : Worker × Usage) : Event → Prop
  | .ipcCallback (some iFd) _ _ _ => iFd = lowestFree x.2.fds
  | _ => True

/-- The sockets the worker has received and not closed. -/
def Worker.openSockets (w : Worker) : Nat := w.records.countP fun r => !r.closed

/-! ### Counting -/

structure Counted (base : Finset Nat) (w : Worker) (u : Usage) : Prop where
  zero : 0 ∈ u.fds
  sockets : ∀ r ∈ w.records, r.closed = false → ∃ fd : Nat, r.descriptor = fd ∧ fd ∈ u.fds
  count : u.fds.card = base.card + w.openSockets + u.files

variable {base : Finset Nat} {w : Worker} {u : Usage}

theorem Counted.handle (h : Counted base w u) (fs : FileSystem) (acRecvBuff : Bytes) :
    Counted base w (u.handle fs acRecvBuff) := by
  unfold Usage.handle descriptorsAfter
  have hcount := h.count
  split
  · refine ⟨Finset.mem_insert_of_mem h.zero, fun r hr hopen => ?_, ?_⟩
    · obtain ⟨fd, hfd, hmem⟩ := h.sockets r hr hopen
      exact ⟨fd, hfd, Finset.mem_insert_of_mem hmem⟩
    · simp only [card_opened]
      omega
  · exact ⟨h.zero, h.sockets, hcount⟩

theorem Counted.registered (h : Counted base w u) (iId : Int) (getpeername inetNtop : Bool) :
    Counted base
      { w with records := w.records ++ [clientRegisterEv (lowestFree u.fds) iId getpeername inetNtop] }
      { u with fds := opened u.fds } where
  zero := Finset.mem_insert_of_mem h.zero
  sockets := by
    intro r hr hopen
    rcases List.mem_append.mp hr with hold | hnew
    · obtain ⟨fd, hfd, hmem⟩ := h.sockets r hold hopen
      exact ⟨fd, hfd, Finset.mem_insert_of_mem hmem⟩
    · rw [List.mem_singleton.mp hnew]
      exact ⟨lowestFree u.fds, rfl, Finset.mem_insert_self _ _⟩
  count := by
    have hcount := h.count
    have hone : [clientRegisterEv (lowestFree u.fds) iId getpeername inetNtop].countP
        (fun r => !r.closed) = 1 := rfl
    simp only [Worker.openSockets, card_opened, List.countP_append, hone] at hcount ⊢
    omega

/-- A descriptor the kernel gives is one the worker does not hold, and not zero. -/
theorem Counted.fresh (h : Counted base w u) {event : Event} (hfree : ReceivesFree (w, u) event) :
    FreshDescriptor w event := by
  unfold ReceivesFree at hfree
  unfold FreshDescriptor
  split
  · subst hfree
    refine ⟨?_, ?_⟩
    · intro hzero
      have hlowest : lowestFree u.fds = 0 := by exact_mod_cast hzero
      have hnot := lowestFree_not_mem u.fds
      rw [hlowest] at hnot
      exact hnot h.zero
    · rintro ⟨r, hr, hfd, hopen⟩
      obtain ⟨fd, hdescriptor, hmem⟩ := h.sockets r hr hopen
      have hsame : fd = lowestFree u.fds := by exact_mod_cast hdescriptor.symm.trans hfd
      rw [hsame] at hmem
      exact lowestFree_not_mem u.fds hmem
  · trivial

/-- A record that keeps its socket. -/
theorem Counted.kept (h : Counted base w u) {i : Nat} {r r' : Record} (hr : w.records[i]? = some r)
    (hclosed : r'.closed = r.closed) (hdescriptor : r'.descriptor = r.descriptor) (aborted : Bool) :
    Counted base { records := w.records.set i r', aborted } u where
  zero := h.zero
  sockets := by
    intro q hq hopen
    rcases List.mem_or_eq_of_mem_set hq with hold | rfl
    · exact h.sockets q hold hopen
    · rw [hdescriptor]
      exact h.sockets r (List.mem_of_getElem? hr) (hclosed ▸ hopen)
  count := by
    obtain ⟨hi, hget⟩ := List.getElem?_eq_some_iff.mp hr
    have hpos : (if !r.closed then 1 else 0) ≤ w.records.countP (fun r => !r.closed) := by
      split
      · rename_i hopen
        exact List.countP_pos_iff.mpr ⟨r, List.mem_of_getElem? hr, hopen⟩
      · exact Nat.zero_le _
    have hcount := h.count
    simp only [Worker.openSockets, List.countP_set hi, hget, hclosed] at hcount ⊢
    omega

/-- A record whose socket is closed. -/
theorem Counted.closed (h : Counted base w u) (hw : DescriptorsOk w) {i : Nat} {r r' : Record}
    (hr : w.records[i]? = some r) (hlive : r.freed = false) (hclosed : r'.closed = true)
    (aborted : Bool) : Counted base { records := w.records.set i r', aborted } (u.close r) := by
  have hsocket := hw.sockets r (List.mem_of_getElem? hr)
  obtain ⟨hopen, hsockfd⟩ := hsocket.held hlive
  obtain ⟨fd, hfd, hmem⟩ := h.sockets r (List.mem_of_getElem? hr) hopen
  have hne : r.psClientEv.sClient.iSockfd ≠ 0 := hsockfd ▸ hsocket.nonzero
  have hfd' : r.psClientEv.sClient.iSockfd.toNat = fd := by
    rw [hsockfd, hfd, Int.toNat_natCast]
  obtain ⟨hi, hget⟩ := List.getElem?_eq_some_iff.mp hr
  rw [Usage.close, if_neg hne, hfd']
  refine ⟨?_, ?_, ?_⟩
  · refine Finset.mem_erase.mpr ⟨?_, h.zero⟩
    rintro rfl
    exact hsocket.nonzero hfd
  · intro q hq hqopen
    obtain ⟨j, hj⟩ := List.getElem?_of_mem hq
    by_cases hij : i = j
    · subst hij
      rw [List.getElem?_set_self hi] at hj
      obtain rfl := Option.some.inj hj
      rw [hclosed] at hqopen
      cases hqopen
    · rw [List.getElem?_set_ne hij] at hj
      obtain ⟨fdq, hfdq, hmemq⟩ := h.sockets q (List.mem_of_getElem? hj) hqopen
      refine ⟨fdq, hfdq, Finset.mem_erase.mpr ⟨?_, hmemq⟩⟩
      -- no other record has this descriptor open
      rintro rfl
      exact hij (hw.unique i j r q hr hj hopen hqopen (hfd.trans hfdq.symm))
  · have hpos : 1 ≤ w.records.countP (fun r => !r.closed) :=
      List.countP_pos_iff.mpr ⟨r, List.mem_of_getElem? hr, by rw [hopen]; rfl⟩
    have hcount := h.count
    have hcard := Finset.card_erase_add_one hmem
    simp only [Worker.openSockets, List.countP_set hi, hget, hclosed, hopen] at hcount ⊢
    simp only [Bool.not_false, if_true, Bool.not_true, Bool.false_eq_true, if_false] at hcount ⊢
    omega

/-! ### The runs of a worker -/

theorem release_closed {r : Record} (hsocket : r.psClientEv.sClient.iSockfd ≠ 0) :
    r.release.closed = true := by
  simp only [Record.release, bne_iff_ne.mpr hsocket, Bool.or_true]

/-- The callback that reads from a client. -/
theorem Counted.serve (h : Counted base w u) (hw : DescriptorsOk w) {i : Nat} {r r' : Record}
    (hr : w.records[i]? = some r) (hlive : r.freed = false) {fs : FileSystem} {recv : Option Bytes}
    {behind : Bytes} {reads : List Int} {aborted : Bool}
    (hbody : clientCallbackServe fs r recv behind reads = some (r', aborted)) :
    Counted base { records := w.records.set i r', aborted } (u.serve r fs recv behind) := by
  have henter := enter_eq_self hlive
  have hsocket : r.psClientEv.sClient.iSockfd ≠ 0 := by
    rw [((hw.sockets r (List.mem_of_getElem? hr)).held hlive).2]
    exact (hw.sockets r (List.mem_of_getElem? hr)).nonzero
  unfold clientCallbackServe at hbody
  split at hbody
  · obtain ⟨rfl, rfl⟩ := Prod.mk.inj (Option.some.inj hbody)
    rw [henter]
    exact h.kept hr rfl rfl false
  · obtain ⟨r'', hderegister, hpair⟩ := Option.map_eq_some_iff.mp hbody
    obtain ⟨rfl, rfl⟩ := Prod.mk.inj hpair
    rw [clientDeregister_eq hderegister, henter]
    exact h.closed hw hr hlive (release_closed hsocket) false
  · rename_i a bytes
    split at hbody
    · dsimp only at hbody
      have hrequest : (r.enter.receive (a :: bytes)).timerAgain.psClientEv.sClient.acRecvBuff ++ behind
          = r.request (a :: bytes) behind := rfl
      rw [hrequest] at hbody
      have hhandled := h.handle fs (r.request (a :: bytes) behind)
      cases hsent : (httpHandleClientRequest fs (r.request (a :: bytes) behind)).sent with
      | none =>
          have hserve : u.serve r fs (some (a :: bytes)) behind
              = u.handle fs (r.request (a :: bytes) behind) := by
            simp only [Usage.serve, hsent]
          simp only [hsent, Option.some.injEq, Prod.mk.injEq] at hbody
          obtain ⟨rfl, rfl⟩ := hbody
          rw [hserve, henter]
          refine hhandled.kept hr ?_ ?_ true <;> rfl
      | some message =>
          have hserve : u.serve r fs (some (a :: bytes)) behind
              = (u.handle fs (r.request (a :: bytes) behind)).close r := by
            simp only [Usage.serve, hsent]
          simp only [hsent] at hbody
          obtain ⟨r'', hderegister, hpair⟩ := Option.map_eq_some_iff.mp hbody
          obtain ⟨rfl, rfl⟩ := Prod.mk.inj hpair
          rw [hserve, clientDeregister_eq hderegister, henter]
          refine hhandled.closed hw hr hlive ?_ false
          exact release_closed hsocket
    · cases hbody

/-- What holds in every state of a run. -/
structure UsageOk (base : Finset Nat) (x : Worker × Usage) : Prop where
  records : RecordsOk x.1
  descriptors : DescriptorsOk x.1
  counted : Counted base x.1 x.2

theorem UsageOk.step {x y : Worker × Usage} {event : Event} (h : UsageOk base x)
    (hfree : ReceivesFree x event) (hstep : (usage base).step x event = some y) : UsageOk base y := by
  obtain ⟨hworker, husage⟩ := System.recording_step hstep
  have hfresh := h.counted.fresh hfree
  refine ⟨h.records.step hworker, h.descriptors.step h.records hfresh hworker, ?_⟩
  rw [husage]
  have halive := (step_event hworker).1
  have hlive : ∀ {i : Nat} {r r' : Record} {aborted : Bool}, x.1.records[i]? = some r →
      RecordMove r r' aborted → r.freed = false := by
    intro i r r' aborted hr hmove
    have hok := h.records r (List.mem_of_getElem? hr)
    rw [halive] at hok
    exact (hok.live_of_move hmove).2
  change x.1.step event = some y.1 at hworker
  unfold Worker.step at hworker
  rw [if_neg (Bool.eq_false_iff.mp halive)] at hworker
  split at hworker
  · rw [← Option.some.inj hworker]
    exact h.counted
  · rw [← Option.some.inj hworker, hfree]
    exact h.counted.registered _ _ _
  · obtain ⟨r, r', aborted, hr, hio, hbody, ht⟩ := callback_eq_some hworker
    rw [ht]
    simp only [Usage.after, hr]
    exact h.counted.serve h.descriptors hr (hlive hr (clientCallbackServe_cases hio hbody)) hbody
  · obtain ⟨r, r', aborted, hr, htimer, hbody, ht⟩ := callback_eq_some hworker
    have hmove := clientCallbackTimeout_cases htimer hbody
    have hrlive := hlive hr hmove
    obtain ⟨r'', hderegister, hpair⟩ := Option.map_eq_some_iff.mp hbody
    obtain ⟨rfl, rfl⟩ := Prod.mk.inj hpair
    have hsocket := h.descriptors.sockets r (List.mem_of_getElem? hr)
    have hne : r.psClientEv.sClient.iSockfd ≠ 0 := (hsocket.held hrlive).2 ▸ hsocket.nonzero
    rw [ht, clientDeregister_eq hderegister, enter_eq_self hrlive]
    simp only [Usage.after, hr]
    exact h.counted.closed h.descriptors hr hrlive (release_closed hne) false

end CewServer.Client
