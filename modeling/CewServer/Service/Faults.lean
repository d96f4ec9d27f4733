import CewServer.Service.Refinement

/-!
# Living and dead workers

A worker that lives needs nobody else: what is on its way to it can be taken and answered by its own
callbacks, in as many of them as there are connections before it. A worker that is dead stays dead. The
master is not told, goes on dealing out connections in turn, and every connection dealt to the dead
worker is lost, while those of the living workers are not touched.
-/

namespace CewServer.Service

open Transition Worker Http
open Client (recvBuffSize)

/-- The worker a step is a callback of. -/
def Act.worker : Act → Option (Fin workerMaxWorkers)
  | .ipcCallback w _ _ _ _ _ | .readable w _ _ _ _ _ | .timeout w _ _ => some w
  | .acceptClient _ _ | .killed _ => none

/-- The process of the worker is there, and can call back. -/
structure Server.Living (s : Server) (w : Fin workerMaxWorkers) : Prop where
  alive : s.alive w = true
  running : (s.workers w).aborted = false

/-- The connection has been sent this answer, and closed. -/
def Server.HasAnswered (s : Server) (w : Fin workerMaxWorkers) (k : Nat) (response : Bytes) : Prop :=
  ∃ (j : Nat) (r : Client.Record), (s.master.registered w)[j]? = some k ∧
    (s.workers w).records[j]? = some r ∧ r.freed = true ∧ r.sent = response

variable {n : Nat} {s t : Server} {w : Fin workerMaxWorkers}

/-! ### What a living worker can do -/

/-- The server after the worker has taken the first connection that is on its way to it. -/
def Server.takes (s : Server) (w : Fin workerMaxWorkers) (client : Nat) (rest : List Nat) : Server :=
  Server.withWorker { s with master := s.master.taken w client rest } w
    { s.workers w with records := (s.workers w).records ++ [Client.clientRegisterEv 9 1 true true] }

theorem Server.Living.takes (hliving : s.Living w) {client : Nat} {rest : List Nat}
    (hchannel : s.master.channels w = client :: rest) :
    (server n).step s (.ipcCallback w .descriptor 9 1 true true) = some (s.takes w client rest) := by
  have hmaster : s.master.step (.ipcCallback w .descriptor) = some (s.master.taken w client rest) :=
    Handover.workerpIpcCallback_descriptor hchannel
  show (s.master.step (.ipcCallback w .descriptor)).bind _ = _
  rw [hmaster, Option.bind_some, if_pos rfl, Server.workerStep, if_pos hliving.alive,
    step_registered hliving.running, Option.map_some]
  rfl

theorem Server.Living.living_takes (hliving : s.Living w) (client : Nat) (rest : List Nat) :
    (s.takes w client rest).Living w := by
  refine ⟨hliving.alive, ?_⟩
  simp only [Server.takes, Server.withWorker, Function.update_self]
  exact hliving.running

/-- The reads after which `client_deregister` gets past the socket of a record. -/
def readsOf (r : Client.Record) : List Int := if r.psClientEv.sClient.iSockfd = 0 then [] else [0]

theorem clientDeregister_readsOf (r : Client.Record) :
    Client.clientDeregister r (readsOf r) = some r.release := by
  rw [Client.clientDeregister, if_pos]
  rw [Client.Record.drained, readsOf]
  split <;> rfl

/-- The record after a request that was answered. -/
def afterRequest (r : Client.Record) (fs : FileSystem) (bytes behind : Bytes) : Client.Record :=
  ((r.enter.receive bytes).timerAgain.answer
    (httpHandleClientRequest fs (r.received bytes ++ behind))).release

theorem clientCallbackServe_answers {r : Client.Record} {fs : FileSystem} {a : UInt8}
    {bytes behind response : Bytes} (hlen : (a :: bytes).length ≤ recvBuffSize)
    (hhandled : (httpHandleClientRequest fs (r.received (a :: bytes) ++ behind)).sent = some response) :
    Client.clientCallbackServe fs r (some (a :: bytes)) behind (readsOf r)
      = some (afterRequest r fs (a :: bytes) behind, false) := by
  rw [Client.clientCallbackServe_received fs r hlen]
  dsimp only
  rw [hhandled]
  exact congrArg (Option.map _) (clientDeregister_readsOf _)

theorem Server.Living.serves (hliving : s.Living w) {i : Nat} {r r' : Client.Record}
    (hr : (s.workers w).records[i]? = some r) (hio : r.psClientEv.io = true) {fs : FileSystem}
    {recv : Option Bytes} {behind : Bytes} {reads : List Int} {aborted : Bool}
    (hserve : Client.clientCallbackServe fs r recv behind reads = some (r', aborted)) :
    (server n).step s (.readable w i fs recv behind reads)
      = some (s.withWorker w { records := (s.workers w).records.set i r', aborted }) := by
  show s.workerStep w _ = _
  rw [Server.workerStep, if_pos hliving.alive, Client.Worker.step, hliving.running,
    if_neg Bool.false_ne_true, Client.Worker.callback, hr]
  dsimp only
  rw [if_pos hio, hserve, Option.map_some, Option.map_some]
  rfl

/-- A request that reaches a living worker on a connection it waits for is answered in one callback. -/
theorem Sound.answers (h : Sound n s) (hliving : s.Living w) {j k : Nat} {r : Client.Record}
    (hj : (s.master.registered w)[j]? = some k) (hr : (s.workers w).records[j]? = some r)
    (hregistered : r.registered = true) (hfreed : r.freed = false) (hsent : r.sent = [])
    {request : Request} {response : Bytes} (hbytes : request.bytes ≠ [])
    (hlen : request.bytes.length ≤ recvBuffSize) (hrespond : respond request = some response) :
    ∃ act t, act.worker = some w ∧ (server n).step s act = some t ∧
      t.HasAnswered w k response := by
  obtain ⟨fs, bytes, behind⟩ := request
  cases bytes with
  | nil => exact absurd rfl hbytes
  | cons a bytes =>
      have hio := ((h.records w r (List.mem_of_getElem? hr)).started hregistered hfreed).1
      have hhandled := (h.respond_eq hliving.running hr hio fs (a :: bytes) behind).trans hrespond
      refine ⟨_, _, rfl, hliving.serves hr hio (clientCallbackServe_answers hlen hhandled), j,
        afterRequest r fs (a :: bytes) behind, hj, ?_, rfl, ?_⟩
      · simp only [Server.withWorker, Function.update_self]
        exact List.getElem?_set_self (List.getElem?_eq_some_iff.mp hr).1
      · show r.sent ++ _ = response
        rw [hsent, List.nil_append, hhandled, Option.getD_some]

/-- A connection on its way to a living worker can be answered, by callbacks of that worker alone, and
after it has taken the connections that are before it. Nothing another worker or the master does or
fails to do is needed. -/
theorem underway_answerable (hpos : 1 ≤ n) (hs : Reachable (server n) (fun _ _ => True) s)
    (hliving : s.Living w) {k : Nat} (hk : k ∈ s.master.channels w) {request : Request}
    {response : Bytes} (hbytes : request.bytes ≠ []) (hlen : request.bytes.length ≤ recvBuffSize)
    (hrespond : respond request = some response) :
    ∃ acts t, acts.length ≤ (s.master.channels w).length + 1 ∧
      (∀ act ∈ acts, act.worker = some w) ∧ (server n).run s acts = some t ∧
      t.HasAnswered w k response := by
  -- the connections before it are taken first
  generalize hchannel : s.master.channels w = channel at hk ⊢
  induction channel generalizing s with
  | nil => cases hk
  | cons client rest ih =>
      have hstep := hliving.takes (n := n) hchannel
      have hnext : Reachable (server n) (fun _ _ => True) (s.takes w client rest) :=
        hs.step trivial hstep
      have hliving' := hliving.living_takes client rest
      have hworker : (Act.ipcCallback w .descriptor 9 1 true true).worker = some w := rfl
      rcases List.mem_cons.mp hk with rfl | hrest
      · have hj : ((s.takes w k rest).master.registered w)[(s.workers w).records.length]?
            = some k := by
          simp only [Server.takes, Server.withWorker, Handover.taken_registered, Function.update_self]
          rw [records_length hs w, List.getElem?_concat_length]
        have hr : ((s.takes w k rest).workers w).records[(s.workers w).records.length]?
            = some (Client.clientRegisterEv 9 1 true true) := by
          simp only [Server.takes, Server.withWorker, Function.update_self,
            List.getElem?_concat_length]
        have hsound := sound_of_reachable hpos hnext
        obtain ⟨act, t, hact, ht, hanswered⟩ :=
          hsound.answers hliving' hj hr rfl rfl rfl hbytes hlen hrespond
        refine ⟨[.ipcCallback w .descriptor 9 1 true true, act], t, ?_, ?_, ?_, hanswered⟩
        · simp only [List.length_cons, List.length_nil]
          omega
        · intro act' hact'
          rcases List.mem_pair.mp hact' with rfl | rfl
          · exact hworker
          · exact hact
        · rw [System.run, hstep, Option.bind_some, System.run, ht]
          rfl
      · have hchannel' : (s.takes w client rest).master.channels w = rest := by
          simp only [Server.takes, Server.withWorker, Handover.taken, Handover.emptied,
            Function.update_self]
        obtain ⟨acts, t, hlength, hacts, hrun, hanswered⟩ := ih hnext hliving' hchannel' hrest
        refine ⟨.ipcCallback w .descriptor 9 1 true true :: acts, t, ?_, ?_, ?_, hanswered⟩
        · simp only [List.length_cons]
          omega
        · intro act hact
          rcases List.mem_cons.mp hact with rfl | hact
          · exact hworker
          · exact hacts act hact
        · rw [System.run, hstep, Option.bind_some, hrun]

/-- A request for a page there is not. -/
def missingPage : Request :=
  ⟨⟨fun _ => false, fun _ => none, .plain⟩, Bytes.ascii "GET /b.html HTTP/1.1\r\n\r\n", []⟩

theorem underway_answerable_missingPage :
    ∃ s response, (server 2).run twoWorkers threeConnections = some s ∧
      s.Living firstEntry ∧ 2 ∈ s.master.channels firstEntry ∧ respond missingPage = some response ∧
      ∃ acts t, acts.length ≤ (s.master.channels firstEntry).length + 1 ∧
        (∀ act ∈ acts, act.worker = some firstEntry) ∧ (server 2).run s acts = some t ∧
        t.HasAnswered firstEntry 2 response := by
  obtain ⟨s, hrun, halive, hrunning, hchannel⟩ : ∃ s,
      (server 2).run twoWorkers threeConnections = some s ∧ s.alive firstEntry = true ∧
      (s.workers firstEntry).aborted = false ∧ s.master.channels firstEntry = [2] :=
    ⟨_, rfl, rfl, rfl, rfl⟩
  obtain ⟨response, hrespond⟩ : ∃ response, respond missingPage = some response := ⟨_, rfl⟩
  have hs : Reachable (server 2) (fun _ _ => True) s :=
    (Reachable.init twoWorkers_init).run (fun _ _ _ => trivial) hrun
  have hmem : 2 ∈ s.master.channels firstEntry := by
    rw [hchannel]
    exact List.mem_singleton_self 2
  exact ⟨s, response, hrun, ⟨halive, hrunning⟩, hmem, hrespond,
    underway_answerable (by decide) hs ⟨halive, hrunning⟩ hmem (by decide) (by decide) hrespond⟩

/-! ### What a dead worker does not do -/

theorem living_of_workerStep {event : Client.Event} (h : s.workerStep w event = some t) : s.Living w := by
  refine ⟨?_, ?_⟩
  · by_contra hdead
    rw [Server.workerStep, if_neg hdead] at h
    cases h
  · obtain ⟨u, hu, -⟩ := workerStep_eq_some h
    exact running_of_event hu

theorem living_of_step {act : Act} (h : (server n).step s act = some t) (hw : act.worker = some w) :
    s.Living w := by
  change s.step act = some t at h
  cases act with
  | acceptClient | killed => cases hw
  | ipcCallback w' receive iFd iId getpeername inetNtop =>
      obtain rfl := Option.some.inj hw
      obtain ⟨m, -, hworker⟩ := Option.bind_eq_some_iff.mp h
      obtain ⟨halive, hrunning⟩ := living_of_workerStep hworker
      exact ⟨halive, hrunning⟩
  | readable w' | timeout w' =>
      obtain rfl := Option.some.inj hw
      exact living_of_workerStep h

/-- What is left of a dead worker: what it had taken, and its records as they were. -/
structure Frozen (w : Fin workerMaxWorkers) (s t : Server) : Prop where
  dead : ¬ t.Living w
  worker : t.workers w = s.workers w
  registered : t.master.registered w = s.master.registered w

theorem Frozen.withWorker (hdead : ¬ s.Living w) {w' : Fin workerMaxWorkers} (hne : w ≠ w')
    {m : Handover} (hregistered : m.registered w = s.master.registered w) (u : Client.Worker) :
    Frozen w s (Server.withWorker { s with master := m } w' u) := by
  have hworker : (Server.withWorker { s with master := m } w' u).workers w = s.workers w :=
    Function.update_of_ne hne _ _
  refine ⟨fun ht => hdead ⟨ht.alive, ?_⟩, hworker, hregistered⟩
  rw [← hworker]
  exact ht.running

theorem Frozen.step (hdead : ¬ s.Living w) {act : Act} (h : (server n).step s act = some t) :
    Frozen w s t := by
  have hother : act.worker ≠ some w := fun hw => hdead (living_of_step h hw)
  have hsame : ∀ w', act.worker = some w' → w ≠ w' := by
    rintro w' hw' rfl
    exact hother hw'
  cases serverMove_of_step h with
  | nothingTaken => exact ⟨hdead, rfl, rfl⟩
  | emptied => exact ⟨fun ht => hdead ⟨ht.alive, ht.running⟩, rfl, rfl⟩
  | master accept sendmsg hm =>
      exact ⟨fun ht => hdead ⟨ht.alive, ht.running⟩, rfl, by rw [registered_of_accept hm]⟩
  | killed w' =>
      refine ⟨fun ht => hdead ⟨?_, ht.running⟩, rfl, rfl⟩
      have halive := ht.alive
      dsimp only at halive
      by_cases hw : w = w'
      · rw [hw, Function.update_self] at halive
        cases halive
      · rwa [Function.update_of_ne hw] at halive
  | taken w' => exact Frozen.withWorker hdead (hsame w' rfl) (Function.update_of_ne (hsame w' rfl) _ _) _
  | served w' | timedOut w' => exact Frozen.withWorker hdead (hsame w' rfl) rfl _

theorem Frozen.run (hdead : ¬ s.Living w) {acts : List Act} (h : (server n).run s acts = some t) :
    Frozen w s t := by
  induction acts generalizing s with
  | nil =>
      obtain rfl := Option.some.inj h
      exact ⟨hdead, rfl, rfl⟩
  | cons act acts ih =>
      obtain ⟨u, hu, hrest⟩ := Option.bind_eq_some_iff.mp h
      have hstep := Frozen.step hdead hu
      have hrun := ih hstep.dead hrest
      exact ⟨hrun.dead, hrun.worker.trans hstep.worker, hrun.registered.trans hstep.registered⟩

/-- Once a worker is dead its clients get nothing more, whatever happens afterwards: its records stay
as they are, and what was on its way to it, or is dealt to it from then on, is never taken by any
worker. The master deals it one connection in every `n` for as long as it runs. -/
theorem dead_worker_share (hpos : 1 ≤ n) (hs : Reachable (server n) (fun _ _ => True) s)
    (hw : w.val < n) (hdead : ¬ s.Living w) {acts : List Act}
    (hrun : (server n).run s acts = some t) :
    t.workers w = s.workers w ∧
      (∀ k, k % n = w.val → k ∈ s.master.channels w ∨ s.master.accepted ≤ k →
        ∀ w', k ∉ t.master.registered w') ∧
      ∀ first, s.master.accepted ≤ first →
        ∃ k, first ≤ k ∧ k < first + n ∧ ∀ w', k ∉ t.master.registered w' := by
  have hplaced := placed_of_reachable hpos (master_reachable hs)
  have hplaced' := placed_of_reachable hpos
    (master_reachable (hs.run (fun _ _ _ => trivial) hrun))
  have hfrozen := Frozen.run hdead hrun
  have hnever : ∀ k, k % n = w.val → k ∈ s.master.channels w ∨ s.master.accepted ≤ k →
      ∀ w', k ∉ t.master.registered w' := by
    intro k hmod hk w' hmem
    obtain rfl : w' = w :=
      Fin.ext ((hplaced'.own w' k (List.mem_append_left _ hmem)).1.symm.trans hmod)
    rw [hfrozen.registered] at hmem
    rcases hk with hk | hk
    · exact hplaced.not_registered hk hmem
    · exact absurd (hplaced.lt_accepted (List.mem_append_left _ hmem)) (Nat.not_lt.mpr hk)
  refine ⟨hfrozen.worker, hnever, fun first hfirst => ?_⟩
  -- one of `n` numbers in a row has the remainder of the worker
  obtain ⟨k, hle, hlt, hmod⟩ : ∃ k, first ≤ k ∧ k < first + n ∧ k % n = w.val := by
    refine ⟨first + (w.val + n - first % n) % n, Nat.le_add_right _ _,
      Nat.add_lt_add_left (Nat.mod_lt _ hpos) _, ?_⟩
    have hrem := Nat.mod_lt first hpos
    rw [Nat.add_mod, Nat.mod_mod, ← Nat.add_mod,
      show first + (w.val + n - first % n) = w.val + n * (first / n + 1) by
        have hsplit := Nat.div_add_mod first n
        rw [Nat.mul_add, Nat.mul_one]
        omega,
      Nat.add_mul_mod_self_left, Nat.mod_eq_of_lt hw]
  exact ⟨k, hle, hlt, hnever k hmod (.inr (Nat.le_trans hfirst hle))⟩

/-- The second of two workers is dead: the connection on its way to it, and the fourth, are lost. -/
theorem dead_worker_share_second :
    ∃ s t, (server 2).run twoWorkers threeConnections = some s ∧ ¬ s.Living secondEntry ∧
      (server 2).run s [.acceptClient true true] = some t ∧
      t.workers secondEntry = s.workers secondEntry ∧
      (∀ k, k % 2 = 1 → k ∈ s.master.channels secondEntry ∨ s.master.accepted ≤ k →
        ∀ w', k ∉ t.master.registered w') ∧
      ∀ first, s.master.accepted ≤ first →
        ∃ k, first ≤ k ∧ k < first + 2 ∧ ∀ w', k ∉ t.master.registered w' := by
  obtain ⟨s, t, hrun, halive, hmore⟩ : ∃ s t,
      (server 2).run twoWorkers threeConnections = some s ∧ s.alive secondEntry = false ∧
      (server 2).run s [.acceptClient true true] = some t := ⟨_, _, rfl, rfl, rfl⟩
  have hs : Reachable (server 2) (fun _ _ => True) s :=
    (Reachable.init twoWorkers_init).run (fun _ _ _ => trivial) hrun
  have hdead : ¬ s.Living secondEntry := fun hliving =>
    Bool.false_ne_true (halive.symm.trans hliving.alive)
  exact ⟨s, t, hrun, hdead, hmore, dead_worker_share (by decide) hs (by decide) hdead hmore⟩

end CewServer.Service
