import CewServer.Service.Server

/-!
# The server is the service

Each accepted connection is in one place: lost, in the channel to its worker, or in a record of its
worker. Where it is, and what its record says, is its phase. The master's routing keeps the places
apart and in order, a record is answered from its own buffer, which nobody has written to before, and
every step of the server is then a step of the service or none.
-/

namespace CewServer.Service

open Transition Worker Http
open Client (recvBuffSize)

/-- What a connection sends, and what its worker finds in the file system and behind the buffer. -/
structure Request where
  fs : FileSystem
  bytes : Bytes
  behind : Bytes

/-- The answer of a worker that has received nothing before. -/
def respond (request : Request) : Option Bytes :=
  (httpHandleClientRequest request.fs
    (request.bytes ++ List.replicate (recvBuffSize - request.bytes.length) 0 ++ request.behind)).sent

variable {n : Nat} {s t : Server} {u : Connections Request Bytes}

/-! ### Where a connection is -/

/-- The connections sent to a worker are its own, in order. -/
structure Placed (n : Nat) (m : Handover) : Prop where
  ordered : ∀ w, (m.registered w ++ m.channels w).Pairwise (· < ·)
  own : ∀ w, ∀ k ∈ m.registered w ++ m.channels w, k % n = w.val ∧ k < m.accepted

theorem placed_of_reachable (hpos : 1 ≤ n) {m : Handover}
    (hm : Reachable (handover n) (fun _ _ => True) m) : Placed n m := by
  obtain ⟨-, hok⟩ := handoverOk_of_reachable hpos hm
  have hclient : ∀ (k : Nat) (route : Route), m.routes[k]? = some route → route.client = k :=
    fun k route hk => (hok.addressed k route hk).2
  have hsent : ∀ w, (m.registered w ++ m.channels w).Sublist (sentTo n m.routes w) := by
    intro w
    rw [← received_append_channels hpos hm w]
    exact (registered_sublist_received hpos hm w).append (List.Sublist.refl _)
  refine ⟨fun w => (sentTo_ordered hclient w).sublist (hsent w), fun w k hk => ?_⟩
  obtain ⟨hlt, hown⟩ := mem_sentTo hclient ((hsent w).mem hk)
  exact ⟨hown, by rw [hok.accepted]; exact hlt⟩

theorem mem_of_channel {m : Handover} {w : Fin workerMaxWorkers} {client : Nat} {rest : List Nat}
    (hchannel : m.channels w = client :: rest) : client ∈ m.channels w := by
  rw [hchannel]
  exact List.mem_cons_self

namespace Placed

variable {m : Handover} {w w' : Fin workerMaxWorkers} {j j' k : Nat}

theorem same_worker (h : Placed n m) (hk : k ∈ m.registered w ++ m.channels w)
    (hk' : k ∈ m.registered w' ++ m.channels w') : w = w' :=
  Fin.ext ((h.own w k hk).1.symm.trans (h.own w' k hk').1)

theorem nodup (h : Placed n m) (w : Fin workerMaxWorkers) : (m.registered w ++ m.channels w).Nodup :=
  (h.ordered w).imp Nat.ne_of_lt

theorem same_record (h : Placed n m) (hj : (m.registered w)[j]? = some k)
    (hj' : (m.registered w')[j']? = some k) : w = w' ∧ j = j' := by
  obtain rfl := h.same_worker (List.mem_append_left _ (List.mem_of_getElem? hj))
    (List.mem_append_left _ (List.mem_of_getElem? hj'))
  have hnodup := (List.nodup_append.mp (h.nodup w)).1
  refine ⟨rfl, ?_⟩
  exact (List.getElem?_inj (List.getElem?_eq_some_iff.mp hj).1 hnodup).mp (hj.trans hj'.symm)

theorem not_registered (h : Placed n m) (hk : k ∈ m.channels w) : k ∉ m.registered w' := by
  intro hk'
  obtain rfl := h.same_worker (List.mem_append_right _ hk) (List.mem_append_left _ hk')
  exact (List.nodup_append.mp (h.nodup w)).2.2 k hk' k hk rfl

/-- The first connection of a channel is taken, and is in no channel any more. -/
theorem mem_emptied (h : Placed n m) {client : Nat} {rest : List Nat}
    (hchannel : m.channels w = client :: rest) (w' : Fin workerMaxWorkers) (j : Nat) :
    j ∈ (m.emptied w client rest).channels w' ↔ j ∈ m.channels w' ∧ j ≠ client := by
  have hclient := mem_of_channel hchannel
  by_cases hw : w' = w
  · subst hw
    have hnodup := (List.nodup_append.mp (h.nodup w')).2.1
    rw [hchannel, List.nodup_cons] at hnodup
    simp only [Handover.emptied, Function.update_self, hchannel, List.mem_cons]
    constructor
    · intro hj
      refine ⟨.inr hj, ?_⟩
      rintro rfl
      exact hnodup.1 hj
    · rintro ⟨hj, hne⟩
      exact hj.resolve_left hne
  · simp only [Handover.emptied, Function.update_of_ne hw]
    refine ⟨fun hj => ⟨hj, ?_⟩, And.left⟩
    rintro rfl
    exact hw (h.same_worker (List.mem_append_right _ hj) (List.mem_append_right _ hclient))

theorem lt_accepted (h : Placed n m) (hk : k ∈ m.registered w ++ m.channels w) : k < m.accepted :=
  (h.own w k hk).2

end Placed

/-! ### What a record says -/

def Phase.Shows : Phase Request Bytes → Client.Record → Prop
  | .stranded, r => r.registered = false ∧ r.sent = []
  | .waiting, r => r.registered = true ∧ r.freed = false ∧ r.requests = 0 ∧ r.sent = []
  | .answered _ response, r => r.freed = true ∧ r.requests = 1 ∧ r.sent = response
  | .left, r => r.freed = true ∧ r.requests = 0 ∧ r.sent = []
  | .cut _, r => r.freed = false ∧ r.requests = 1 ∧ r.sent = []
  | .lost, _ | .underway, _ => False

theorem Phase.Shows.ne_underway {phase : Phase Request Bytes} {r : Client.Record}
    (h : phase.Shows r) : phase ≠ .underway := by
  rintro rfl
  exact h

/-- The phases say where the connections are and what their records show. -/
structure Realises (s : Server) (u : Connections Request Bytes) : Prop where
  accepted : u.phases.length = s.master.accepted
  underway : ∀ w, ∀ k ∈ s.master.channels w, u.phases[k]? = some .underway
  inChannel : ∀ k : Nat, u.phases[k]? = some .underway → ∃ w, k ∈ s.master.channels w
  shown : ∀ (w : Fin workerMaxWorkers) (j k : Nat) (r : Client.Record),
    (s.master.registered w)[j]? = some k → (s.workers w).records[j]? = some r →
    ∃ phase : Phase Request Bytes, u.phases[k]? = some phase ∧ phase.Shows r

theorem getElem?_set_cases {α : Type} {l : List α} {k i : Nat} {a b : α}
    (h : (l.set k a)[i]? = some b) : (i = k ∧ b = a) ∨ (i ≠ k ∧ l[i]? = some b) := by
  by_cases hik : i = k
  · subst hik
    have hlt : i < l.length := by
      have := (List.getElem?_eq_some_iff.mp h).1
      rwa [List.length_set] at this
    rw [List.getElem?_set_self hlt] at h
    exact .inl ⟨rfl, (Option.some.inj h).symm⟩
  · rw [List.getElem?_set_ne (Ne.symm hik)] at h
    exact .inr ⟨hik, h⟩

namespace Realises

theorem start (gWorkerAdmin : WorkerAdmin) : Realises (.start gWorkerAdmin) ⟨[]⟩ where
  accepted := rfl
  underway := fun _ _ hk => nomatch hk
  inChannel := fun _ hk => nomatch hk
  shown := fun _ _ _ _ hj => nomatch hj

/-- One connection goes on to another phase, and all others stay where they are. -/
theorem goto (h : Realises s u) {k : Nat} (hk : k < s.master.accepted)
    (haccepted : t.master.accepted = s.master.accepted) {phase : Phase Request Bytes}
    (hphase : phase ≠ .underway)
    (hchannels : ∀ w j, j ∈ t.master.channels w ↔ j ∈ s.master.channels w ∧ j ≠ k)
    (hshown : ∀ (w : Fin workerMaxWorkers) (i j : Nat) (r : Client.Record),
      (t.master.registered w)[i]? = some j → (t.workers w).records[i]? = some r →
      j = k ∧ phase.Shows r
        ∨ j ≠ k ∧ (s.master.registered w)[i]? = some j ∧ (s.workers w).records[i]? = some r) :
    Realises t (u.goto k phase) where
  accepted := by
    rw [Connections.goto, List.length_set, h.accepted, haccepted]
  underway := by
    intro w j hj
    obtain ⟨hold, hne⟩ := (hchannels w j).mp hj
    rw [Connections.goto, List.getElem?_set_ne (Ne.symm hne)]
    exact h.underway w j hold
  inChannel := by
    intro j hj
    rcases getElem?_set_cases hj with ⟨-, hnew⟩ | ⟨hne, hold⟩
    · exact absurd hnew.symm hphase
    · obtain ⟨w, hw⟩ := h.inChannel j hold
      exact ⟨w, (hchannels w j).mpr ⟨hw, hne⟩⟩
  shown := by
    intro w i j r hj hr
    rcases hshown w i j r hj hr with ⟨rfl, hshows⟩ | ⟨hne, hj, hr⟩
    · have hlt : j < u.phases.length := by
        rw [h.accepted]
        exact hk
      exact ⟨phase, List.getElem?_set_self hlt, hshows⟩
    · rw [Connections.goto, List.getElem?_set_ne (Ne.symm hne)]
      exact h.shown w i j r hj hr

/-! The master accepts. -/

theorem routed (h : Realises s u) (w : Fin workerMaxWorkers) (sendmsg : Bool) :
    Realises { s with master := s.master.routed w sendmsg }
      ⟨u.phases ++ [if sendmsg then .underway else .lost]⟩ := by
  have hregistered : (s.master.routed w sendmsg).registered = s.master.registered :=
    s.master.routed_registered w sendmsg
  have hold : ∀ (k : Nat) (phase : Phase Request Bytes), u.phases[k]? = some phase →
      (u.phases ++ [if sendmsg then .underway else .lost])[k]? = some phase := fun k phase hk => by
    rw [List.getElem?_append_left (List.getElem?_eq_some_iff.mp hk).1]
    exact hk
  refine ⟨?_, ?_, ?_, ?_⟩
  · rw [List.length_append, List.length_singleton, h.accepted]
    rfl
  · intro w' k hk
    simp only [Handover.routed, Handover.sendFdToWorker] at hk
    split at hk
    · rename_i hsend
      by_cases hw : w' = w
      · subst hw
        simp only [Function.update_self, List.mem_append, List.mem_singleton] at hk
        rcases hk with hk | rfl
        · exact hold k _ (h.underway w' k hk)
        · rw [← h.accepted, List.getElem?_concat_length, if_pos hsend]
      · simp only [Function.update_of_ne hw] at hk
        exact hold k _ (h.underway w' k hk)
    · exact hold k _ (h.underway w' k hk)
  · intro k hk
    rcases List.getElem?_concat_cases hk with hk | ⟨rfl, hphase⟩
    · obtain ⟨w', hw'⟩ := h.inChannel k hk
      refine ⟨w', ?_⟩
      simp only [Handover.routed, Handover.sendFdToWorker]
      split
      · by_cases hw : w' = w
        · subst hw
          simp only [Function.update_self]
          exact List.mem_append_left _ hw'
        · simp only [Function.update_of_ne hw]
          exact hw'
      · exact hw'
    · cases sendmsg with
      | false => cases hphase
      | true =>
          refine ⟨w, ?_⟩
          simp only [Handover.routed, Handover.sendFdToWorker, if_true, Function.update_self, h.accepted]
          exact List.mem_append_right _ List.mem_cons_self
  · intro w' j k r hj hr
    rw [hregistered] at hj
    obtain ⟨phase, hphase, hshows⟩ := h.shown w' j k r hj hr
    exact ⟨phase, hold k phase hphase, hshows⟩

/-! A worker takes a connection from its channel. -/

theorem first_of_channel (h : Realises s u) (hplaced : Placed n s.master) {w : Fin workerMaxWorkers}
    {k : Nat} {rest : List Nat} (hchannel : s.master.channels w = k :: rest) :
    u.first n k = true := by
  rw [Connections.first_iff]
  intro j hj hmod hunderway
  obtain ⟨w', hw'⟩ := h.inChannel j hunderway
  have hk := mem_of_channel hchannel
  have hsame : w' = w := by
    apply Fin.ext
    rw [← (hplaced.own w' j (List.mem_append_right _ hw')).1, hmod,
      (hplaced.own w k (List.mem_append_right _ hk)).1]
  subst hsame
  have hordered := (List.pairwise_append.mp (hplaced.ordered w')).2.1
  rw [hchannel] at hw' hordered
  rcases List.mem_cons.mp hw' with rfl | hrest
  · exact Nat.lt_irrefl _ hj
  · exact Nat.lt_asymm hj ((List.pairwise_cons.mp hordered).1 j hrest)

theorem step_take (h : Realises s u) (hplaced : Placed n s.master) {w : Fin workerMaxWorkers}
    {k : Nat} {rest : List Nat} (hchannel : s.master.channels w = k :: rest) (registered : Bool) :
    (service n respond).step u (.take k registered)
      = some (u.goto k (if registered then .waiting else .stranded)) :=
  Connections.step_take (h.underway w k (mem_of_channel hchannel))
    (h.first_of_channel hplaced hchannel) registered

theorem shows_register (iFd iId : Int) (getpeername inetNtop : Bool) :
    (if (getpeername && inetNtop) = true then Phase.waiting else Phase.stranded :
      Phase Request Bytes).Shows (Client.clientRegisterEv iFd iId getpeername inetNtop) := by
  by_cases hregistered : (getpeername && inetNtop) = true
  · rw [if_pos hregistered]
    exact ⟨hregistered, rfl, rfl, rfl⟩
  · rw [if_neg hregistered]
    exact ⟨Bool.eq_false_iff.mpr hregistered, rfl⟩

theorem taken (h : Realises s u) (hplaced : Placed n s.master)
    (hlengths : ∀ w, (s.workers w).records.length = (s.master.registered w).length)
    {w : Fin workerMaxWorkers} {client : Nat}
    {rest : List Nat} (hchannel : s.master.channels w = client :: rest) (r : Client.Record)
    {phase : Phase Request Bytes} (hshows : phase.Shows r) :
    Realises (Server.withWorker { s with master := s.master.taken w client rest } w
      { s.workers w with records := (s.workers w).records ++ [r] }) (u.goto client phase) := by
  have hclient := mem_of_channel hchannel
  have hfresh : ∀ w' (k : Nat), k ∈ s.master.registered w' → k ≠ client := by
    intro w' k hk heq
    subst heq
    exact hplaced.not_registered hclient hk
  apply h.goto (hplaced.lt_accepted (List.mem_append_right _ hclient)) _ hshows.ne_underway
    (hplaced.mem_emptied hchannel)
  · intro w' j k q hj hq
    by_cases hw : w' = w
    · subst hw
      simp only [Server.withWorker, Handover.taken_registered, Function.update_self] at hj hq
      rcases List.getElem?_concat_cases hj with hold | ⟨rfl, rfl⟩
      · have hindex := (List.getElem?_eq_some_iff.mp hold).1
        rw [← hlengths w'] at hindex
        rw [List.getElem?_append_left hindex] at hq
        exact .inr ⟨hfresh w' k (List.mem_of_getElem? hold), hold, hq⟩
      · rw [← hlengths w', List.getElem?_concat_length] at hq
        obtain rfl := Option.some.inj hq
        exact .inl ⟨rfl, hshows⟩
    · simp only [Server.withWorker, Handover.taken_registered, Function.update_of_ne hw] at hj hq
      exact .inr ⟨hfresh w' k (List.mem_of_getElem? hj), hj, hq⟩
  · rfl

/-- The message is taken and nobody is registered. -/
theorem emptied (h : Realises s u) (hplaced : Placed n s.master) {w : Fin workerMaxWorkers}
    {client : Nat} {rest : List Nat} (hchannel : s.master.channels w = client :: rest) :
    Realises { s with master := s.master.emptied w client rest } (u.goto client .stranded) := by
  have hclient := mem_of_channel hchannel
  apply h.goto (hplaced.lt_accepted (List.mem_append_right _ hclient)) _ (by rintro ⟨⟩)
    (hplaced.mem_emptied hchannel)
  · intro w' j k q hj hq
    refine .inr ⟨fun heq => ?_, hj, hq⟩
    subst heq
    exact hplaced.not_registered hclient (List.mem_of_getElem? hj)
  · rfl

/-! A callback at a record. -/

theorem called (h : Realises s u) (hplaced : Placed n s.master) {w : Fin workerMaxWorkers} {i k : Nat}
    (hk : (s.master.registered w)[i]? = some k) {r' : Client.Record} {phase : Phase Request Bytes}
    (hshows : phase.Shows r') (aborted : Bool) :
    Realises (s.withWorker w { records := (s.workers w).records.set i r', aborted })
      (u.goto k phase) := by
  have hmem := List.mem_of_getElem? hk
  refine goto (t := s.withWorker w _) h (hplaced.lt_accepted (List.mem_append_left _ hmem)) rfl
    hshows.ne_underway ?_ ?_
  · intro w' j
    refine ⟨fun hj => ⟨hj, fun heq => ?_⟩, And.left⟩
    subst heq
    exact hplaced.not_registered hj hmem
  · intro w' j k' q hj hq
    by_cases hsame : k' = k
    · subst hsame
      obtain ⟨rfl, rfl⟩ := hplaced.same_record hj hk
      simp only [Server.withWorker, Function.update_self] at hq
      rcases getElem?_set_cases hq with ⟨-, rfl⟩ | ⟨hne, -⟩
      · exact .inl ⟨rfl, hshows⟩
      · exact absurd rfl hne
    · refine .inr ⟨hsame, hj, ?_⟩
      by_cases hw : w' = w
      · subst hw
        simp only [Server.withWorker, Function.update_self] at hq
        rcases getElem?_set_cases hq with ⟨rfl, -⟩ | ⟨-, hq⟩
        · exact absurd (Option.some.inj (hj.symm.trans hk)) hsame
        · exact hq
      · simp only [Server.withWorker, Function.update_of_ne hw] at hq
        exact hq

end Realises

/-! ### Every step -/

theorem withWorker_same {w : Fin workerMaxWorkers} {i : Nat} {r : Client.Record}
    (hr : (s.workers w).records[i]? = some r) (halive : (s.workers w).aborted = false) :
    s.withWorker w { records := (s.workers w).records.set i r, aborted := false } = s := by
  have hset : (s.workers w).records.set i r = (s.workers w).records := by
    obtain ⟨hlt, hget⟩ := List.getElem?_eq_some_iff.mp hr
    rw [← hget, List.set_getElem_self]
  rw [hset, Server.withWorker, ← halive, Function.update_eq_self]

/-- A record that can be called back is one whose connection waits. -/
theorem waiting_of_live {r : Client.Record} (hr : Client.RecordOk false r)
    (hwatcher : r.psClientEv.io = true ∨ r.psClientEv.timer = true) {phase : Phase Request Bytes}
    (hshows : phase.Shows r) : phase = .waiting ∧ r.freed = false ∧ r.requests = 0 ∧ r.sent = [] := by
  obtain ⟨hregistered, hlive⟩ := hr.live hwatcher
  have hunanswered := hr.unanswered rfl (hr.started hregistered hlive).1
  cases phase with
  | waiting => exact ⟨rfl, hshows.2⟩
  | stranded => exact absurd (hregistered.symm.trans hshows.1) Bool.true_eq_false.mp
  | answered | left => exact absurd (hlive.symm.trans hshows.1) Bool.false_ne_true
  | cut => exact absurd (hunanswered.symm.trans hshows.2.1) Nat.zero_ne_one
  | lost | underway => exact hshows.elim

/-- What a step needs to know of the server besides the phases. -/
structure Sound (n : Nat) (s : Server) : Prop where
  master : HandoverOk n s.master
  count : n ≤ workerMaxWorkers
  placed : Placed n s.master
  lengths : ∀ w, (s.workers w).records.length = (s.master.registered w).length
  records : ∀ w, Client.RecordsOk (s.workers w)
  zeroed : ∀ w, Client.Zeroed (s.workers w)

theorem sound_of_reachable (hpos : 1 ≤ n) (hs : Reachable (server n) (fun _ _ => True) s) :
    Sound n s := by
  have hmaster := master_reachable hs
  obtain ⟨hcount, hok⟩ := handoverOk_of_reachable hpos hmaster
  refine ⟨hok, hcount, placed_of_reachable hpos hmaster, records_length hs, fun w => ?_, fun w => ?_⟩
  · exact Client.recordsOk_of_reachable (worker_reachable hs w)
  · exact Client.zeroed_of_reachable (worker_reachable hs w)

theorem Sound.exists_place (h : Sound n s) {w : Fin workerMaxWorkers} {i : Nat} {r : Client.Record}
    (hr : (s.workers w).records[i]? = some r) : ∃ k, (s.master.registered w)[i]? = some k := by
  have hlt := (List.getElem?_eq_some_iff.mp hr).1
  rw [h.lengths w] at hlt
  exact ⟨_, List.getElem?_eq_getElem hlt⟩

theorem Sound.waiting (h : Sound n s) (hu : Realises s u) {w : Fin workerMaxWorkers} {i : Nat}
    {r : Client.Record} (halive : (s.workers w).aborted = false)
    (hr : (s.workers w).records[i]? = some r)
    (hwatcher : r.psClientEv.io = true ∨ r.psClientEv.timer = true) :
    ∃ k, (s.master.registered w)[i]? = some k ∧ u.phases[k]? = some .waiting ∧ r.freed = false ∧
      r.requests = 0 ∧ r.sent = [] := by
  obtain ⟨k, hk⟩ := h.exists_place hr
  obtain ⟨phase, hphase, hshows⟩ := hu.shown w i k r hk hr
  have hok := h.records w r (List.mem_of_getElem? hr)
  rw [halive] at hok
  obtain ⟨rfl, hrecord⟩ := waiting_of_live hok hwatcher hshows
  exact ⟨k, hk, hphase, hrecord⟩

/-- What `http_handle_client_request` finds in the buffer is the request and nothing else. -/
theorem Sound.respond_eq (h : Sound n s) {w : Fin workerMaxWorkers} {i : Nat} {r : Client.Record}
    (halive : (s.workers w).aborted = false) (hr : (s.workers w).records[i]? = some r)
    (hio : r.psClientEv.io = true) (fs : FileSystem) (bytes behind : Bytes) :
    (httpHandleClientRequest fs (r.received bytes ++ behind)).sent = respond ⟨fs, bytes, behind⟩ := by
  have hbuffer := h.zeroed w halive r (List.mem_of_getElem? hr) hio
  have hreceived : r.received bytes
      = bytes ++ List.replicate (recvBuffSize - bytes.length) 0 := by
    show bytes ++ r.psClientEv.sClient.acRecvBuff.drop bytes.length = _
    rw [hbuffer, List.drop_replicate]
  rw [hreceived, respond]

theorem follow (hpos : 1 ≤ n) (hsound : Sound n s) (hu : Realises s u) {act : Act}
    (hmove : ServerMove s act t) :
    Realises t u ∨ ∃ op v, (service n respond).step u op = some v ∧ Realises t v := by
  cases hmove with
  | nothingTaken => exact .inl hu
  | killed w => exact .inl ⟨hu.accepted, hu.underway, hu.inChannel, hu.shown⟩
  | master accept sendmsg hm =>
      simp only [Handover.step, hsound.master.running, Bool.false_eq_true, if_false,
        Option.some.injEq] at hm
      subst hm
      cases accept with
      | false => exact .inl hu
      | true =>
          obtain ⟨w, -, hrouted⟩ := hsound.master.socketAcceptClient_eq hpos hsound.count sendmsg
          rw [hrouted]
          exact .inr ⟨.accept sendmsg, _, rfl, hu.routed w sendmsg⟩
  | @emptied w client rest hchannel iFd iId getpeername inetNtop =>
      have htake := hu.step_take hsound.placed hchannel false
      exact .inr ⟨.take client false, _, htake, hu.emptied hsound.placed hchannel⟩
  | @taken w client rest halive hchannel iFd iId getpeername inetNtop =>
      have htake := hu.step_take hsound.placed hchannel (getpeername && inetNtop)
      have hshows := Realises.shows_register iFd iId getpeername inetNtop
      exact .inr ⟨.take client (getpeername && inetNtop), _, htake,
        hu.taken hsound.placed hsound.lengths hchannel _ hshows⟩
  | @timedOut w i reads r halive hr htimer =>
      obtain ⟨k, hk, hwaiting, hlive, hrequests, hsent⟩ :=
        hsound.waiting hu halive hr (.inr htimer)
      have hleft : Phase.left.Shows r.enter.release := ⟨rfl, hrequests, hsent⟩
      exact .inr ⟨.leave k, _, Connections.step_leave hwaiting, hu.called hsound.placed hk hleft false⟩
  | @served w i fs recv behind reads r r' aborted halive hr hio hserve =>
      obtain ⟨k, hk, hwaiting, hlive, hrequests, hsent⟩ := hsound.waiting hu halive hr (.inl hio)
      cases hserve with
      | kept =>
          rw [Client.enter_eq_self hlive, withWorker_same hr halive]
          exact .inl hu
      | disconnected =>
          have hleft : Phase.left.Shows r.enter.release := ⟨rfl, hrequests, hsent⟩
          exact .inr ⟨.leave k, _, Connections.step_leave hwaiting, hu.called hsound.placed hk hleft false⟩
      | answered a bytes response hresponse =>
          have hrespond := (hsound.respond_eq halive hr hio fs (a :: bytes) behind).symm.trans hresponse
          refine .inr ⟨.receive k ⟨fs, a :: bytes, behind⟩, _,
            Connections.step_receive_some hwaiting hrespond, ?_⟩
          apply hu.called hsound.placed hk
          refine ⟨rfl, ?_, ?_⟩
          · show r.requests + 1 = 1
            rw [hrequests]
          · show r.sent ++ _ = response
            rw [hsent, List.nil_append, hresponse, Option.getD_some]
      | killed a bytes hnone =>
          have hrespond := (hsound.respond_eq halive hr hio fs (a :: bytes) behind).symm.trans hnone
          refine .inr ⟨.receive k ⟨fs, a :: bytes, behind⟩, _,
            Connections.step_receive_none hwaiting hrespond, ?_⟩
          apply hu.called hsound.placed hk
          refine ⟨hlive, ?_, ?_⟩
          · show r.requests + 1 = 1
            rw [hrequests]
          · show r.sent ++ _ = []
            rw [hsent, List.nil_append, hnone, Option.getD_none]

theorem one_lt_workerMaxWorkers : 1 < workerMaxWorkers := by decide

/-- The place of the second worker. -/
def secondEntry : Fin workerMaxWorkers := ⟨1, one_lt_workerMaxWorkers⟩

/-- Three connections for two workers. The first is answered, the second worker is killed before it has
taken the second, and the third is still on its way. -/
def threeConnections : List Act :=
  [.acceptClient true true, .acceptClient true true, .ipcCallback firstEntry .descriptor 9 1 true true,
    .killed secondEntry, .acceptClient true true,
    .readable firstEntry 0 ⟨fun _ => false, fun _ => none, .plain⟩
      (some (Bytes.ascii "GET /a.html HTTP/1.1\r\n\r\n")) [] [0]]

def twoWorkers : Server := .start (workerInit allSucceed 2).2.gWorkerAdmin

theorem twoWorkers_init : (server 2).Init twoWorkers := ⟨allSucceed, _, rfl, rfl⟩

end CewServer.Service
