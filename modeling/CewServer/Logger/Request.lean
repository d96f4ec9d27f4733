import CewServer.Logger.Flush

/-!
# What becomes of a request to flush

`logger_flush` raises `iDoForceFlush` without the mutex, and `logger_thread` clears it at the end of
each batch. A request raised before a batch is sized is served by that batch, which takes everything
that is counted. One raised while a batch is under way is cleared with the others at its end, though
the batch takes nothing that was inserted after it was sized: with bulk writing on, such a message
stays queued and nobody asks for it any more.

The history of a run keeps how many messages had been inserted when the flag was last raised.
-/

namespace CewServer.Logger

open Transition

variable {p : Nat} {s t : Session p} {i : Fin p}

/-- The count that the batch under way was sized with. -/
def WriterPc.sizedFor : WriterPc → Option Int
  | .openFile b | .bodyTop b | .removeHead b _ | .writeEntry b _ | .flushFile b | .closeFile b
  | .updateCount b => some b.snapshot
  | .poll | .tryLock | .cancelled => none

/-- About to raise `iDoForceFlush`. -/
def ThreadPc.raises : ThreadPc → Bool
  | .flushSet _ => true
  | _ => false

def recordRequest (requested : Nat) (s : Session p) : Label p → Nat
  | .thread i _ _ => if (s.threads i).raises then s.inserted.length else requested
  | _ => requested

def requests (p : Nat) : System (Session p × Nat) (Label p) := (session p).recording 0 recordRequest

/-- A step that clears `iDoForceFlush`. -/
def ClearsRequest (s t : Session p) : Prop :=
  ∃ b, s.writer = .updateCount b ∧ (t = s.updateCount b ∨ t = (s.updateCount b).exit)

/-- What was inserted when the flag was last raised is in the file. -/
def Served (x : Session p × Nat) : Prop := x.1.inserted.take x.2 <+: x.1.logfile

/-- The flag is raised while no batch is under way, or nothing was inserted since it was sized. -/
def RaisedInTime (s : Session p) : Label p → Prop
  | .thread i _ _ => (s.threads i).raises = true → ∀ n ∈ s.writer.sizedFor, s.iDataInQueueCount = n
  | _ => True

/-- The entries the batch under way has still to remove. -/
def WriterPc.left : WriterPc → Option Int
  | .openFile b | .bodyTop b | .removeHead b _ | .writeEntry b _ | .flushFile b | .closeFile b
  | .updateCount b => some (b.snapshot - b.popped)
  | .poll | .tryLock | .cancelled => none

/-- The batch under way covers the request: all it was made for is out of the queue, or in the part of
it that the batch takes. -/
structure RequestOk (x : Session p × Nat) : Prop where
  inserted : x.2 ≤ x.1.inserted.length
  covered : ∀ n ∈ x.1.writer.left, (x.2 : Int) + x.1.queue.length ≤ x.1.inserted.length + n

namespace RequestOk

variable {requested : Nat}

theorem frame (h : RequestOk (s, requested)) (hinserted : t.inserted = s.inserted)
    (hqueue : t.queue = s.queue) (hleft : t.writer.left = s.writer.left) : RequestOk (t, requested) := by
  constructor
  · show requested ≤ t.inserted.length
    rw [hinserted]
    exact h.inserted
  · show ∀ n ∈ t.writer.left, (requested : Int) + t.queue.length ≤ t.inserted.length + n
    rw [hinserted, hqueue, hleft]
    exact h.covered

/-- A state without a batch has no more to show than that the request is not from the future. -/
theorem of_idle (h : RequestOk (s, requested)) (hinserted : t.inserted = s.inserted)
    (hleft : t.writer.left = none) : RequestOk (t, requested) := by
  constructor
  · show requested ≤ t.inserted.length
    rw [hinserted]
    exact h.inserted
  · show ∀ n ∈ t.writer.left, _
    rw [hleft]
    intro n hn
    cases hn

theorem snapshotCount (hacc : Accounted s) (h : RequestOk (s, requested)) (hpc : s.writer = .tryLock) :
    RequestOk (s.snapshotCount, requested) := by
  have hcounted := hacc.count (by rw [hpc]; exact WriterPc.noConfusion)
  have hinserted : requested ≤ s.inserted.length := h.inserted
  rw [hpc] at hcounted
  unfold Session.snapshotCount
  split
  · refine ⟨hinserted, fun n hn => ?_⟩
    obtain rfl := Option.some.inj hn
    simp only [WriterPc.popped] at hcounted ⊢
    omega
  · exact h.of_idle rfl rfl

theorem removeHead (hacc : Accounted s) (h : RequestOk (s, requested)) {b : Batch} {msg : Bytes}
    (hpc : s.writer = .removeHead b msg) : RequestOk (s.removeHead b msg, requested) := by
  have hbatch := hacc.batch
  have hcovered := h.covered
  rw [hpc] at hbatch hcovered
  obtain ⟨rest, hqueue⟩ := List.head?_eq_some_iff.mp hbatch.2
  refine ⟨h.inserted, fun n hn => ?_⟩
  obtain rfl := Option.some.inj hn
  have hbefore := hcovered _ rfl
  simp only [Session.removeHead, hqueue, List.tail_cons, List.length_cons] at hbefore ⊢
  omega

theorem of_writerMove (hacc : Accounted s) (h : RequestOk (s, requested)) (hmove : WriterMove s t) :
    RequestOk (t, requested) := by
  cases hmove with
  | idle w hidle hw => exact h.of_idle rfl (by rcases hw with rfl | rfl <;> rfl)
  | snapshotCount hpc => exact h.snapshotCount hacc hpc
  | openFile b hpc => exact h.frame rfl rfl (by rw [hpc]; rfl)
  | peekHead b hpc =>
      unfold Session.peekHead
      split
      · exact h.frame rfl rfl rfl
      · exact h.frame rfl rfl (by rw [hpc]; rfl)
  | removeHead b msg hpc => exact h.removeHead hacc hpc
  | writeEntry b msg hpc =>
      refine h.frame rfl rfl ?_
      rw [hpc]
      unfold Session.writeEntry
      dsimp only
      split <;> rfl
  | flushFile b hpc => exact h.frame rfl rfl (by rw [hpc]; rfl)
  | closeFile b hpc => exact h.frame rfl rfl (by rw [hpc]; rfl)
  | updateCount b hpc => exact h.of_idle rfl rfl

theorem insert (h : RequestOk (s, requested)) (msg : Bytes) (i : Fin p) (pc : ThreadPc) :
    RequestOk ((s.insert msg).goto i pc, requested) := by
  have hinserted := h.inserted
  constructor
  · show requested ≤ (s.inserted ++ [msg]).length
    rw [List.length_append, List.length_singleton]
    exact Nat.le_succ_of_le hinserted
  · intro n hn
    have hcovered := h.covered n hn
    show (requested : Int) + ((s.queue ++ [msg]).length : Nat) ≤ ((s.inserted ++ [msg]).length : Nat) + n
    rw [List.length_append, List.length_append, List.length_singleton]
    dsimp only at hcovered
    omega

/-- Raised in time, a request is covered: the batch takes all there is. -/
theorem raise (hacc : Accounted s) (hintime : ∀ n ∈ s.writer.sizedFor, s.iDataInQueueCount = n)
    (i : Fin p) (pc : ThreadPc) :
    RequestOk ({ s with iDoForceFlush := true }.goto i pc, s.inserted.length) := by
  refine ⟨Nat.le_refl _, ?_⟩
  show ∀ n ∈ s.writer.left, (s.inserted.length : Int) + s.queue.length ≤ s.inserted.length + n
  intro n hn
  have hcancelled : s.writer ≠ .cancelled := by
    intro hpc
    rw [hpc] at hn
    cases hn
  have hcounted := hacc.count hcancelled
  cases hpc : s.writer <;> rw [hpc] at hn hintime hcounted
  case poll => cases hn
  case tryLock => cases hn
  case cancelled => cases hn
  all_goals
    obtain rfl := Option.some.inj hn
    have hsized := hintime _ rfl
    simp only [WriterPc.popped] at hcounted
    omega

end RequestOk

/-- The promise of the runs in which no request comes too late. -/
def FlushedInTime (x : Session p × Nat) (l : Label p) : Prop :=
  SettingsKept x.1 l ∧ RaisedInTime x.1 l

theorem RequestOk.of_step {x y : Session p × Nat} (hacc : Accounted x.1) (h : RequestOk x)
    {l : Label p} (hintime : RaisedInTime x.1 l) (hstep : (requests p).step x l = some y) :
    RequestOk y := by
  obtain ⟨s, requested⟩ := x
  obtain ⟨t, requested'⟩ := y
  obtain ⟨hsession, hrecord⟩ := System.recording_step hstep
  dsimp only at hsession hrecord hacc hintime
  subst hrecord
  cases sessionStep_cases hsession with
  | exit o => exact h.frame rfl rfl rfl
  | writer o u hmove => exact h.of_writerMove hacc hmove
  | writerExit o u hmove => exact (h.of_writerMove hacc hmove).frame rfl rfl rfl
  | cancel hrequest hpc => exact h.of_idle rfl rfl
  | call i op t hmove => cases hmove <;> exact h.frame rfl rfl rfl
  | thread i acTime o t hmove =>
      rw [recordRequest]
      split
      · rename_i hraises
        cases hmove with
        | flushSet caller hpc => exact .raise hacc (hintime hraises) i _
        | _ => simp_all [ThreadPc.raises]
      · rename_i hquiet
        cases hmove with
        | insert caller msg iRet hpc => exact h.insert msg i _
        | flushSet caller hpc => exact absurd (by rw [hpc]; rfl) hquiet
        | _ => exact h.frame rfl rfl rfl

theorem requestOk_of_reachable {x : Session p × Nat} (hx : Reachable (requests p) FlushedInTime x) :
    RequestOk x := by
  have hknown : ∀ x : Session p × Nat, Reachable (requests p) FlushedInTime x → Accounted x.1 :=
    fun x hx => accounted_of_reachable (hx.mono fun _ _ hpromise => hpromise.1).forget
  refine hx.invariant_over hknown ?_ ?_
  · rintro x ⟨⟨settings, Loglevel, bTerminateProg, pid, hsettings, hs⟩, hrequested⟩
    refine ⟨?_, ?_⟩
    · rw [hrequested]
      exact Nat.zero_le _
    · rw [hs]
      intro n hn
      cases hn
  · intro x l y hacc h hpromise hstep
    exact h.of_step hacc hpromise.2 hstep

/-! ### The rest of a batch -/

/-- The steps `logger_thread` takes to the end of its batch. -/
def WriterPc.batchSteps : WriterPc → Nat
  | .openFile b => 3 * b.iDataToWrite.toNat + 3
  | .bodyTop b => 3 * b.iDataToWrite.toNat + 2
  | .removeHead b _ => 3 * b.iDataToWrite.toNat + 1
  | .writeEntry b _ => 3 * b.iDataToWrite.toNat
  | .flushFile _ => 2
  | .closeFile _ => 1
  | .poll | .tryLock | .updateCount _ | .cancelled => 0

/-- What a batch leaves alone. -/
structure SameBatch (s t : Session p) : Prop where
  exited : t.exited = s.exited
  inserted : t.inserted = s.inserted
  count : t.iDataInQueueCount = s.iDataInQueueCount
  sizedFor : t.writer.sizedFor = s.writer.sizedFor

theorem SameBatch.trans {u : Session p} (hst : SameBatch s t) (htu : SameBatch t u) : SameBatch s u :=
  ⟨htu.exited.trans hst.exited, htu.inserted.trans hst.inserted, htu.count.trans hst.count,
    htu.sizedFor.trans hst.sizedFor⟩

/-- `logger_thread` gets on with its batch whenever its calls succeed. -/
theorem batch_advances (hacc : Accounted s) (hrunning : s.exited = false)
    (hbatch : s.writer.inBatch = true) (hend : ∀ b, s.writer ≠ .updateCount b) :
    ∃ t, (session p).step s (.writer .ok) = some t ∧ SameBatch s t ∧ t.writer.inBatch = true ∧
      t.writer.batchSteps < s.writer.batchSteps := by
  have hok := hacc.batch
  rw [step_writer hrunning hacc.noFault]
  cases hpc : s.writer with
  | poll => rw [hpc] at hbatch; cases hbatch
  | tryLock => rw [hpc] at hbatch; cases hbatch
  | cancelled => rw [hpc] at hbatch; cases hbatch
  | updateCount b => exact absurd hpc (hend b)
  | openFile b =>
      simp only [loggerThread, hpc, checkedStep]
      refine ⟨_, rfl, ⟨rfl, rfl, rfl, by rw [hpc]; rfl⟩, rfl, Nat.lt_succ_self _⟩
  | bodyTop b =>
      rw [hpc] at hok
      obtain ⟨msg, rest, hqueue⟩ : ∃ msg rest, s.queue = msg :: rest := by
        apply List.exists_cons_of_ne_nil
        intro hnil
        have hqueued := hok.queued
        have hpositive := hok.positive
        rw [hnil, List.length_nil] at hqueued
        omega
      simp only [loggerThread, hpc, Session.peekHead, hqueue]
      exact ⟨_, rfl, ⟨rfl, rfl, rfl, by rw [hpc]; rfl⟩, rfl, Nat.lt_succ_self _⟩
  | removeHead b msg =>
      simp only [loggerThread, hpc, lockedStep]
      exact ⟨_, rfl, ⟨rfl, rfl, rfl, by rw [hpc]; rfl⟩, rfl, Nat.lt_succ_self _⟩
  | writeEntry b msg =>
      rw [hpc] at hok
      obtain ⟨hpositive, hqueued, -, hpopped, htotal⟩ := hok
      have hbounded := hacc.bounded
      have hcounted := hacc.count (by rw [hpc]; exact WriterPc.noConfusion)
      rw [hpc] at hcounted
      simp only [WriterPc.popped] at hcounted
      have htoWrite : int32 (b.iDataToWrite - 1) = b.iDataToWrite - 1 :=
        int32_of_mem_range (by omega) (by omega)
      simp only [loggerThread, hpc, checkedStep, Session.writeEntry, htoWrite]
      refine ⟨_, rfl, ⟨rfl, rfl, rfl, ?_⟩, ?_, ?_⟩
      · rw [hpc]
        dsimp only
        split <;> rfl
      · split <;> rfl
      · split <;> simp only [WriterPc.batchSteps] <;> omega
  | flushFile b =>
      simp only [loggerThread, hpc, checkedStep]
      exact ⟨_, rfl, ⟨rfl, rfl, rfl, by rw [hpc]; rfl⟩, rfl, Nat.lt_succ_self _⟩
  | closeFile b =>
      simp only [loggerThread, hpc, checkedStep]
      exact ⟨_, rfl, ⟨rfl, rfl, rfl, by rw [hpc]; rfl⟩, rfl, Nat.lt_succ_self _⟩

/-- With nobody else moving, a batch gets to its end. -/
theorem batch_ends (requested : Nat) (hs : Reachable (session p) SettingsKept s)
    (hrunning : s.exited = false) (hbatch : s.writer.inBatch = true) :
    ∃ n t b, (requests p).run (s, requested) (List.replicate n (.writer .ok)) = some (t, requested) ∧
      Reachable (session p) SettingsKept t ∧ t.writer = .updateCount b ∧ SameBatch s t := by
  induction hsteps : s.writer.batchSteps using Nat.strong_induction_on generalizing s with
  | _ steps ih =>
      by_cases hend : ∃ b, s.writer = .updateCount b
      · obtain ⟨b, hpc⟩ := hend
        exact ⟨0, s, b, rfl, hs, hpc, rfl, rfl, rfl, rfl⟩
      · obtain ⟨t, hstep, hsame, hbatch', hless⟩ :=
          batch_advances (accounted_of_reachable hs) hrunning hbatch fun b hpc => hend ⟨b, hpc⟩
        have ht : Reachable (session p) SettingsKept t := .step (l := .writer .ok) hs trivial hstep
        obtain ⟨n, u, b, hrun, hu, hpc, hrest⟩ :=
          ih _ (hsteps ▸ hless) ht (hsame.exited.trans hrunning) hbatch' rfl
        refine ⟨n + 1, u, b, ?_, hu, hpc, hsame.trans hrest⟩
        have hrecorded : (requests p).step (s, requested) (.writer .ok) = some (t, requested) := by
          show ((session p).step s (.writer .ok)).map _ = _
          rw [hstep]
          rfl
        rw [List.replicate_succ, System.run, hrecorded]
        exact hrun

/-- At the end of a batch, what is not in the file is in the queue. -/
theorem logfile_append_queue (hs : Reachable (session p) SettingsKept s) {b : Batch}
    (hpc : s.writer = .updateCount b) : s.logfile ++ s.queue = s.inserted := by
  have hnone : s.LogfileFd = none := by
    have hstream := streamOk_of_reachable hs
    unfold StreamOk at hstream
    rw [hpc] at hstream
    simpa [WriterPc.hasStream] using hstream
  obtain ⟨c, -, hcarries⟩ := session_refines_channel hs
  have hall := c.conserved
  rw [hcarries.received, hcarries.inFlight, hcarries.sent, hpc, Session.written, hnone] at hall
  simpa [WriterPc.inHand] using hall

theorem served_iff {x : Session p × Nat} (hall : x.1.logfile ++ x.1.queue = x.1.inserted)
    (hrequested : x.2 ≤ x.1.inserted.length) : Served x ↔ x.2 ≤ x.1.logfile.length := by
  have hlength : (x.1.inserted.take x.2).length = x.2 := List.length_take_of_le hrequested
  constructor
  · intro hserved
    exact hlength ▸ hserved.length_le
  · intro hle
    have hboth : x.1.inserted.take x.2 <+: x.1.inserted := List.take_prefix _ _
    exact List.prefix_of_prefix_length_le hboth ⟨_, hall⟩ (by rw [hlength]; exact hle)

/-- A request made after entries were added to the batch under way is cleared unserved. -/
theorem late_request_lost {x : Session p × Nat} (hs : Reachable (session p) SettingsKept x.1)
    {caller : Caller} (hpc : x.1.threads i = .flushSet caller) (hrunning : x.1.exited = false) {n : Int}
    (hn : n ∈ x.1.writer.sizedFor) (hlate : x.1.iDataInQueueCount ≠ n) :
    ∃ k y t, (requests p).run x (.thread i [] .ok :: List.replicate k (.writer .ok)) = some y ∧
      (session p).step y.1 (.writer .ok) = some t ∧ ClearsRequest y.1 t ∧ ¬ Served y := by
  obtain ⟨s, requested⟩ := x
  dsimp only at hs hpc hrunning hn hlate
  have hacc := accounted_of_reachable hs
  let raised := { s with iDoForceFlush := true }.goto i (.flushPoll caller maxLoops 0)
  have hraise : (session p).step s (.thread i [] .ok) = some raised := by
    rw [step_thread hrunning hacc.noFault]
    simp only [threadStep, hpc, raised]
  have hrecorded : (requests p).step (s, requested) (.thread i [] .ok)
      = some (raised, s.inserted.length) := by
    change ((session p).step s (.thread i [] .ok)).map _ = _
    rw [hraise]
    simp only [recordRequest, hpc, ThreadPc.raises, if_true, Option.map_some]
  have hraised : Reachable (session p) SettingsKept raised :=
    .step (l := .thread i [] .ok) hs trivial hraise
  have hbatch : raised.writer.inBatch = true := by
    show s.writer.inBatch = true
    cases hw : s.writer <;> rw [hw] at hn <;> first | rfl | cases hn
  obtain ⟨k, t, b, hrun, ht, hend, hsame⟩ :=
    batch_ends s.inserted.length hraised hrunning hbatch
  have hacc' := accounted_of_reachable ht
  have hsized : b.snapshot = n := by
    have hsizedFor := hsame.sizedFor
    rw [hend] at hsizedFor
    exact Option.some.inj (hsizedFor.trans hn)
  have hcount : t.iDataInQueueCount = t.queue.length + b.popped := by
    have hcounted := hacc'.count (by rw [hend]; exact WriterPc.noConfusion)
    rw [hend] at hcounted
    exact hcounted
  have hdone : b.Done := by
    have hok := hacc'.batch
    rw [hend] at hok
    exact hok
  have hall := logfile_append_queue ht hend
  refine ⟨k, (t, s.inserted.length), t.updateCount b, ?_, ?_, ⟨b, hend, .inl rfl⟩, ?_⟩
  · rw [System.run, hrecorded]
    exact hrun
  · rw [step_writer (hsame.exited.trans hrunning) hacc'.noFault]
    simp only [loggerThread, hend, lockedStep]
  · have hinserted : t.inserted = s.inserted := hsame.inserted
    rw [served_iff hall (Nat.le_of_eq (congrArg List.length hinserted.symm))]
    have hlength := congrArg List.length hall
    rw [List.length_append, hinserted] at hlength
    have hsame' : t.iDataInQueueCount = s.iDataInQueueCount := hsame.count
    have hpopped := hdone.popped
    have htotal := hdone.total
    dsimp only
    omega

/-- When the flag is raised only in time, `logger_thread` never clears it before what it was raised for
is in the file; and once it could be raised too late, the batch under way clears it unserved. -/
theorem request_served {x : Session p × Nat} (hx : Reachable (requests p) FlushedInTime x) :
    (∀ l t, (session p).step x.1 l = some t → ClearsRequest x.1 t → Served x) ∧
    (∀ i caller n, x.1.threads i = .flushSet caller → x.1.exited = false → n ∈ x.1.writer.sizedFor →
      x.1.iDataInQueueCount ≠ n →
      ∃ k y t, (requests p).run x (.thread i [] .ok :: List.replicate k (.writer .ok)) = some y ∧
        (session p).step y.1 (.writer .ok) = some t ∧ ClearsRequest y.1 t ∧ ¬ Served y) := by
  have hs : Reachable (session p) SettingsKept x.1 :=
    (hx.mono fun _ _ hpromise => hpromise.1).forget
  refine ⟨?_, fun i caller n hpc hrunning hn hlate => late_request_lost hs hpc hrunning hn hlate⟩
  rintro l t hstep ⟨b, hpc, -⟩
  have hok := requestOk_of_reachable hx
  have hall := logfile_append_queue hs hpc
  rw [served_iff hall hok.inserted]
  have hdone : b.Done := by
    have hbatch := (accounted_of_reachable hs).batch
    rw [hpc] at hbatch
    exact hbatch
  have hcovered := hok.covered (b.snapshot - b.popped) (by rw [hpc]; rfl)
  have hlength := congrArg List.length hall
  rw [List.length_append] at hlength
  have hpopped := hdone.popped
  have htotal := hdone.total
  omega

/-! ### Two sessions with bulk writing on -/

instance (x : Session p × Nat) (l : Label p) : Decidable (FlushedInTime x l) :=
  match l with
  | .writer _ | .cancel => inferInstanceAs (Decidable (True ∧ True))
  | .call _ (.loggerSet settings) =>
      inferInstanceAs (Decidable ((0 ≤ settings.iBulkWrite ∧
        settings.iLoggerQueueSize + p < 2 ^ 31 - 1) ∧ True))
  | .call _ (.logMsg _ _) | .call _ .loggerFlush | .call _ .loggerDestroy =>
      inferInstanceAs (Decidable (True ∧ True))
  | .thread i _ _ => inferInstanceAs (Decidable (True ∧ ((x.1.threads i).raises = true →
      ∀ n ∈ x.1.writer.sizedFor, x.1.iDataInQueueCount = n)))

def bulkOfOne : LogSettings := { LogSettings.default with iBulkWrite := 1 }

def bulkSession : Session 1 := loggerInit bulkOfOne LoggerType.eERROR.value false 1

/-- One message is queued and asked for, and `logger_thread` writes it. -/
def askedBefore : List (Label 1) :=
  logsError (Bytes.ascii "boot") ++ .call onlyThread .loggerFlush :: threadMoves 1 ++ writerMoves 8

theorem request_served_askedBefore :
    ∃ x t, Reachable (requests 1) FlushedInTime x ∧
      (session 1).step x.1 (.writer .ok) = some t ∧ x.1.sCurrLogSettings.iBulkWrite = 1 ∧ x.2 = 1 ∧
      ClearsRequest x.1 t ∧ Served x := by
  have hinit : Reachable (requests 1) FlushedInTime (bulkSession, 0) :=
    .init ⟨⟨bulkOfOne, _, _, _, ⟨by decide, by decide⟩, rfl⟩, rfl⟩
  obtain ⟨x, t, b, hrun, hstep, hbulk, hrequested, hend, hclears⟩ : ∃ x t b,
      (requests 1).runKeeping FlushedInTime (bulkSession, 0) askedBefore = some x ∧
      (session 1).step x.1 (.writer .ok) = some t ∧ x.1.sCurrLogSettings.iBulkWrite = 1 ∧ x.2 = 1 ∧
      x.1.writer = .updateCount b ∧ t = x.1.updateCount b :=
    ⟨_, _, _, rfl, rfl, rfl, rfl, rfl, rfl⟩
  have hx := hinit.runKeeping hrun
  have hcleared : ClearsRequest x.1 t := ⟨b, hend, .inl hclears⟩
  exact ⟨x, t, hx, hstep, hbulk, hrequested, hcleared, (request_served hx).1 _ t hstep hcleared⟩

/-- Two messages are being written in bulk when a third is logged and asked for. -/
def askedDuring : List (Label 1) :=
  logsError (Bytes.ascii "first") ++ logsError (Bytes.ascii "second") ++ writerMoves 3
    ++ logsError (Bytes.ascii "third") ++ .call onlyThread .loggerFlush :: threadMoves 1 ++ writerMoves 8

theorem request_lost :
    ¬ ∀ (p : Nat) (x : Session p × Nat), Reachable (requests p) (fun x l => SettingsKept x.1 l) x →
      1 ≤ x.1.sCurrLogSettings.iBulkWrite →
      ∀ l t, (session p).step x.1 l = some t → ClearsRequest x.1 t → Served x := by
  intro hserved
  have hinit : Reachable (requests 1) (fun x l => SettingsKept x.1 l) (bulkSession, 0) :=
    .init ⟨⟨bulkOfOne, _, _, _, ⟨by decide, by decide⟩, rfl⟩, rfl⟩
  obtain ⟨x, t, b, hrun, hstep, hbulk, hend, hclears, hlate⟩ : ∃ x t b,
      (requests 1).run (bulkSession, 0) askedDuring = some x ∧
      (session 1).step x.1 (.writer .ok) = some t ∧ 1 ≤ x.1.sCurrLogSettings.iBulkWrite ∧
      x.1.writer = .updateCount b ∧ t = x.1.updateCount b ∧
      ¬ x.1.inserted.take x.2 <+: x.1.logfile :=
    ⟨_, _, _, rfl, rfl, by decide, rfl, rfl, by decide⟩
  have hkept : ∀ l ∈ askedDuring, ∀ x : Session 1 × Nat, SettingsKept x.1 l := by
    simp [askedDuring, logsError, threadMoves, writerMoves, SettingsKept]
  exact hlate (hserved 1 x (hinit.run hkept hrun) hbulk _ t hstep ⟨b, hend, .inl hclears⟩)

end CewServer.Logger
