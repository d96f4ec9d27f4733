import Mathlib.Data.Fintype.EquivFin
import CewServer.Logger.Linked

/-!
# The links spell the queue

`Spells` says which entries the blocks make up: those of the queue in order, those on their way into
it, one for each thread past the size check, and no others. It is kept by every step of a run in which
`logger_destroy` is called when no other thread is inside `log_msg`. From it follow that no step runs
wild, that the head which `logger_thread` reads without the mutex is the entry it unlinks and frees
later, and that nothing is left allocated behind `logger_destroy`.
-/

namespace CewServer.Logger

open Transition TailQueue

variable {p : Nat}

/-! ### Steps that do not see the queue -/

/-- A function that both branches have been taken through. -/
theorem ite_through {α β : Type} (f : α → β) {c c' : Prop} [Decidable c] [Decidable c'] (hc : c ↔ c')
    {a b : β} {a' b' : α} (ha : a = f a') (hb : b = f b') :
    (if c then a else b) = f (if c' then a' else b') := by
  by_cases h : c
  · rw [if_pos h, if_pos (hc.mp h), ha]
  · rw [if_neg h, if_neg (mt hc.mpr h), hb]

def Session.withQueue (s : Session p) (queue : List Bytes) : Session p := { s with queue }

@[simp] theorem withQueue_threads (s : Session p) (queue : List Bytes) :
    (s.withQueue queue).threads = s.threads := rfl

@[simp] theorem withQueue_writer (s : Session p) (queue : List Bytes) :
    (s.withQueue queue).writer = s.writer := rfl

theorem lockedStep_withQueue (s t : Session p) (queue : List Bytes) (o : Outcome) :
    lockedStep (s.withQueue queue) (t.withQueue queue) o
      = (lockedStep s t o).map fun t => t.withQueue queue := by
  cases o <;> rfl

theorem checkedStep_withQueue (s t : Session p) (queue : List Bytes) (o : Outcome) :
    checkedStep (s.withQueue queue) (t.withQueue queue) o
      = (checkedStep s t o).map fun t => t.withQueue queue := by
  cases o <;> rfl

theorem snapshotCount_withQueue (s : Session p) (queue : List Bytes) :
    (s.withQueue queue).snapshotCount = s.snapshotCount.withQueue queue := by
  unfold Session.snapshotCount
  exact ite_through (fun t => Session.withQueue t queue) Iff.rfl rfl rfl

/-- At the head of the queue. -/
def WriterPc.atHead : WriterPc → Bool
  | .bodyTop _ | .removeHead _ _ => true
  | _ => false

theorem loggerThread_withQueue {s : Session p} (hpc : s.writer.atHead = false) (queue : List Bytes)
    (o : Outcome) :
    loggerThread (s.withQueue queue) o = (loggerThread s o).map fun t => t.withQueue queue := by
  unfold loggerThread
  rw [withQueue_writer]
  cases hw : s.writer with
  | bodyTop | removeHead =>
      rw [hw] at hpc
      cases hpc
  | poll | cancelled => rfl
  | tryLock =>
      dsimp only
      split
      · rfl
      · rw [← lockedStep_withQueue]
        rw [snapshotCount_withQueue]
  | openFile b | writeEntry b msg | flushFile b | closeFile b =>
      dsimp only
      rw [← checkedStep_withQueue]
      rfl
  | updateCount b =>
      dsimp only
      rw [← lockedStep_withQueue]
      rfl

/-- At the tail of the queue, or in the loop that frees it. -/
def ThreadPc.atQueue : ThreadPc → Bool
  | .insertTail _ _ | .freeQueue _ => true
  | _ => false

theorem threadStep_withQueue {s : Session p} {i : Fin p} (hpc : (s.threads i).atQueue = false)
    (queue : List Bytes) (acTime : Bytes) (o : Outcome) :
    threadStep (s.withQueue queue) i acTime o
      = (threadStep s i acTime o).map fun t => t.withQueue queue := by
  unfold threadStep
  rw [withQueue_threads]
  cases hw : s.threads i with
  | insertTail | freeQueue =>
      rw [hw] at hpc
      cases hpc
  | msgAllowed caller eType text =>
      exact ite_through (Option.map fun t => Session.withQueue t queue) Iff.rfl rfl rfl
  | sizeCheck caller eType text =>
      exact ite_through (Option.map fun t => Session.withQueue t queue) Iff.rfl rfl rfl
  | flushPoll caller MaxLoops polls =>
      exact ite_through (Option.map fun t => Session.withQueue t queue) Iff.rfl rfl
        (ite_through (Option.map fun t => Session.withQueue t queue) Iff.rfl rfl rfl)
  | destroyEntry =>
      exact ite_through (Option.map fun t => Session.withQueue t queue) Iff.rfl rfl rfl
  | joinThread =>
      exact ite_through (Option.map fun t => Session.withQueue t queue) Iff.rfl rfl rfl
  | ready | flushSet | shutDown | cancelThread | closeStream | resetCount | finish => rfl

theorem callStep_withQueue (s : Session p) (queue : List Bytes) (i : Fin p) (op : Call) :
    callStep (s.withQueue queue) i op = (callStep s i op).map fun t => t.withQueue queue := by
  unfold callStep
  rw [withQueue_threads]
  cases s.threads i with
  | ready => cases op <;> rfl
  | _ => rfl

theorem cancelStep_withQueue (s : Session p) (queue : List Bytes) :
    cancelStep (s.withQueue queue) = (cancelStep s).map fun t => t.withQueue queue := by
  unfold cancelStep
  exact ite_through (Option.map fun t => Session.withQueue t queue) Iff.rfl rfl rfl

/-! ### The entries of a session -/

/-- The messages the entries carry. -/
def texts (entries : List (Nat × Bytes)) : List Bytes := entries.map Prod.snd

/-- The blocks are the entries of the queue that have not been freed, and those a thread is about to
insert. -/
structure Spells (x : LinkedSession p) (entries : List (Nat × Bytes)) : Prop where
  tame : x.wild = false
  held : x.session.iIsInitDone = true → (∀ i, (x.session.threads i).freeing = false) →
    Holds x.memory entries
  left : ∀ i freed, x.session.threads i = .freeQueue freed →
    Chain x.memory.heap x.n1 (entries.drop freed)
  nodup : (addresses entries).Nodup
  live : ∀ a, (x.memory.heap a).isSome = true ↔
    a ∈ addresses (entries.drop x.session.discarded.length) ∨
      ∃ i, (x.session.threads i).inserting = true ∧ x.NewEntry i = a
  fresh : ∀ i caller msg, x.session.threads i = .insertTail caller msg →
    (∃ junk, x.memory.heap (x.NewEntry i) = some ⟨msg, junk⟩) ∧ x.NewEntry i ∉ addresses entries
  distinct : ∀ i j, i ≠ j → (x.session.threads i).inserting = true →
    (x.session.threads j).inserting = true → x.NewEntry i ≠ x.NewEntry j
  peeked : ∀ b msg, x.session.writer = .removeHead b msg → entries.head? = some (x.Entry, msg)

/-- The session whose queue is what the links spell. -/
def LinkedSession.spelled (x : LinkedSession p) (entries : List (Nat × Bytes)) : Session p :=
  x.session.withQueue (texts entries)

variable {x y : LinkedSession p} {entries : List (Nat × Bytes)} {i : Fin p}

/-- Open, and nobody is freeing the queue. -/
structure Working (s : Session p) : Prop where
  isOpen : s.iIsInitDone = true
  notFreeing : ∀ i, (s.threads i).freeing = false

theorem working_of_admitted {s : Session p} (h : Quieted s) (hi : (s.threads i).admitted = true) :
    Working s := by
  have hnot := h.not_shut hi
  refine ⟨?_, fun j => ?_⟩
  · by_contra hclosed
    rw [(h.closed (Bool.eq_false_iff.mpr hclosed)).2.1] at hnot
    cases hnot
  · by_contra hfreeing
    rw [h.closing j (ThreadPc.closing_of_freeing (Bool.not_eq_false _ ▸ hfreeing))] at hnot
    cases hnot

theorem working_of_writer {s : Session p} (h : Accounted s) (hwriter : s.writer ≠ .cancelled) :
    Working s := by
  refine ⟨h.isOpen hwriter, fun j => ?_⟩
  have hjoined := h.not_hasJoined hwriter j
  cases hpc : s.threads j with
  | freeQueue | resetCount | finish =>
      rw [hpc] at hjoined
      cases hjoined
  | _ => rfl

namespace Spells

theorem working_of_spelled {entries : List (Nat × Bytes)} (hq : Quieted (x.spelled entries))
    (hi : (x.session.threads i).admitted = true) : Working x.session := by
  have hadmitted : ((x.spelled entries).threads i).admitted = true := by
    rw [LinkedSession.spelled, withQueue_threads]
    exact hi
  obtain ⟨hinit, hfreeing⟩ := working_of_admitted hq hadmitted
  exact ⟨hinit, hfreeing⟩

/-- While nobody frees, all entries are there. -/
theorem live_of_working (h : Spells x entries) (hq : Quieted (x.spelled entries))
    (hworking : Working x.session) (a : Nat) :
    (x.memory.heap a).isSome = true ↔ a ∈ addresses entries ∨
      ∃ i, (x.session.threads i).inserting = true ∧ x.NewEntry i = a := by
  have hnone : x.session.discarded = [] := hq.kept hworking.isOpen hworking.notFreeing
  rw [h.live a, hnone, List.length_nil, List.drop_zero]

/-- A step that leaves the memory alone, and takes nobody into or out of the queue. -/
theorem session (h : Spells x entries) {t : Session p}
    (hdiscarded : t.discarded = x.session.discarded)
    (hinserting : ∀ i, (t.threads i).inserting = true → t.threads i = x.session.threads i)
    (hinserting' : ∀ i, (x.session.threads i).inserting = true → t.threads i = x.session.threads i)
    (hfree : ∀ i freed, t.threads i = .freeQueue freed → x.session.threads i = .freeQueue freed)
    (hopen : Working t → Working x.session)
    (hwriter : ∀ b msg, t.writer = .removeHead b msg → x.session.writer = .removeHead b msg) :
    Spells { x with session := t } entries where
  tame := h.tame
  held := fun hinit hnot => by
    obtain ⟨hinit, hnot⟩ := hopen ⟨hinit, hnot⟩
    exact h.held hinit hnot
  left := fun i freed hpc => h.left i freed (hfree i freed hpc)
  nodup := h.nodup
  live := fun a => by
    have hsame : (∃ i, (t.threads i).inserting = true ∧ x.NewEntry i = a) ↔
        ∃ i, (x.session.threads i).inserting = true ∧ x.NewEntry i = a := by
      apply exists_congr
      intro i
      refine and_congr_left fun _ => ⟨fun hi => ?_, fun hi => ?_⟩
      · rw [← hinserting i hi]
        exact hi
      · rw [hinserting' i hi]
        exact hi
    show _ ↔ a ∈ addresses (entries.drop t.discarded.length) ∨ _
    rw [hdiscarded, hsame]
    exact h.live a
  fresh := fun i caller msg hpc => by
    have hi : (t.threads i).inserting = true := by rw [hpc]; rfl
    exact h.fresh i caller msg ((hinserting i hi).symm.trans hpc)
  distinct := fun i j hij hi hj => by
    apply h.distinct i j hij
    · rw [← hinserting i hi]
      exact hi
    · rw [← hinserting j hj]
      exact hj
  peeked := fun b msg hpc => h.peeked b msg (hwriter b msg hpc)

/-- A thread goes from a place that is not at the queue to another. -/
theorem goto (h : Spells x entries) {t : Session p} {pc : ThreadPc}
    (hthreads : t.threads = Function.update x.session.threads i pc)
    (hdiscarded : t.discarded = x.session.discarded) (hwriter : t.writer = x.session.writer)
    (hi : (x.session.threads i).atQueue = false) (hpc : pc.atQueue = false)
    (hopen : t.iIsInitDone = true → pc.freeing = false →
      x.session.iIsInitDone = true ∧ (x.session.threads i).freeing = false) :
    Spells { x with session := t } entries := by
  have hother : ∀ j, j ≠ i → t.threads j = x.session.threads j := by
    intro j hj
    rw [hthreads, Function.update_of_ne hj]
  have hself : t.threads i = pc := by rw [hthreads, Function.update_self]
  have hnot : ∀ {pc : ThreadPc}, pc.atQueue = false → pc.inserting = false := by
    intro pc hpc
    cases pc <;> first | rfl | cases hpc
  apply h.session hdiscarded
  · intro j hj
    by_cases hji : j = i
    · rw [hji, hself, hnot hpc] at hj
      cases hj
    · exact hother j hji
  · intro j hj
    by_cases hji : j = i
    · rw [hji, hnot hi] at hj
      cases hj
    · exact hother j hji
  · intro j freed hj
    by_cases hji : j = i
    · rw [hji, hself] at hj
      rw [hj] at hpc
      cases hpc
    · rw [← hother j hji]
      exact hj
  · rintro ⟨hinit, hfreeing⟩
    obtain ⟨hinit, hi⟩ := hopen hinit (hself ▸ hfreeing i)
    refine ⟨hinit, fun j => ?_⟩
    by_cases hji : j = i
    · rw [hji]
      exact hi
    · rw [← hother j hji]
      exact hfreeing j
  · intro b msg hw
    exact hwriter.symm.trans hw

/-! `logger_thread` at the head of the queue. -/

theorem peekHead (h : Spells x entries) (hacc : Accounted (x.spelled entries)) {b : Batch}
    (hpc : x.session.writer = .bodyTop b) :
    (x.peekHead b).spelled entries = (x.spelled entries).peekHead b ∧ Spells (x.peekHead b) entries := by
  have hworking : Working x.session := by
    obtain ⟨hinit, hnot⟩ := working_of_writer hacc (show x.session.writer ≠ _ by rw [hpc]; simp)
    exact ⟨hinit, hnot⟩
  have hbatch : b.Between (texts entries) := by
    have hok := hacc.batch
    rw [LinkedSession.spelled, withQueue_writer, hpc] at hok
    exact hok
  have hheld := h.held hworking.isOpen hworking.notFreeing
  cases entries with
  | nil =>
      have hpositive := hbatch.positive
      have hqueued := hbatch.queued
      rw [show (texts []).length = 0 from rfl] at hqueued
      omega
  | cons e rest =>
      obtain ⟨Entry, msg⟩ := e
      obtain ⟨hfirst, next, hnode, -⟩ := hheld.chain
      have hpeek : x.peekHead b
          = { x with session := { x.session with writer := .removeHead b msg }, Entry } := by
        rw [LinkedSession.peekHead, hfirst]
        dsimp only
        rw [hnode]
      rw [hpeek]
      refine ⟨rfl, ?_⟩
      exact
        { tame := h.tame
          held := h.held
          left := h.left
          nodup := h.nodup
          live := h.live
          fresh := h.fresh
          distinct := h.distinct
          peeked := fun b' msg' hw => by
            obtain ⟨-, rfl⟩ := WriterPc.removeHead.inj hw
            rfl }

theorem removeHead (h : Spells x entries) (hacc : Accounted (x.spelled entries))
    (hq : Quieted (x.spelled entries)) {b : Batch} {msg : Bytes}
    (hpc : x.session.writer = .removeHead b msg) :
    ∃ rest, (x.removeHead b msg).spelled rest = (x.spelled entries).removeHead b msg ∧
      Spells (x.removeHead b msg) rest := by
  have hworking : Working x.session := by
    obtain ⟨hinit, hnot⟩ := working_of_writer hacc (show x.session.writer ≠ _ by rw [hpc]; simp)
    exact ⟨hinit, hnot⟩
  have hlive := h.live_of_working hq hworking
  have hnone : x.session.discarded = [] := hq.kept hworking.isOpen hworking.notFreeing
  have hheld := h.held hworking.isOpen hworking.notFreeing
  obtain ⟨rest, rfl⟩ := List.head?_eq_some_iff.mp (h.peeked b msg hpc)
  obtain ⟨hnot, hnodup⟩ := List.nodup_cons.mp h.nodup
  obtain ⟨m, hremove, hheap, hrest⟩ := hheld.removeHead
  have hsome : (m.heap x.Entry).isSome = true := by
    rw [hheap]
    exact hheld.chain.allocated List.mem_cons_self
  obtain ⟨hfree, hkept⟩ := hrest.free hsome hnot
  have hstep : x.removeHead b msg = { x with
      memory := { m with heap := Function.update m.heap x.Entry none }
      session := { x.session with
        writer := .writeEntry { b with popped := b.popped + 1 } msg } } := by
    rw [LinkedSession.removeHead, hremove, Option.bind_some, hfree]
    rfl
  have hfresh : ∀ i, (x.session.threads i).inserting = true → x.NewEntry i ≠ x.Entry := by
    intro i hi heq
    cases hthread : x.session.threads i with
    | insertTail caller msg' =>
        apply (h.fresh i caller msg' hthread).2
        rw [heq]
        exact List.mem_cons_self
    | _ =>
        rw [hthread] at hi
        cases hi
  refine ⟨rest, by rw [hstep]; rfl, ?_⟩
  rw [hstep]
  exact
    { tame := h.tame
      held := fun _ _ => hkept
      left := fun i freed hthread => by
        have hfreeing := hworking.notFreeing i
        rw [show x.session.threads i = .freeQueue freed from hthread] at hfreeing
        cases hfreeing
      nodup := hnodup
      live := fun a => by
        show (Function.update m.heap x.Entry none a).isSome = true ↔
          a ∈ addresses (rest.drop x.session.discarded.length) ∨ _
        rw [hnone, List.length_nil, List.drop_zero, hheap]
        by_cases ha : a = x.Entry
        · subst ha
          rw [Function.update_self]
          refine ⟨fun hsome => (nomatch hsome), fun hin => ?_⟩
          rcases hin with hin | ⟨i, hi, heq⟩
          · exact absurd hin hnot
          · exact absurd heq (hfresh i hi)
        · rw [Function.update_of_ne ha, hlive a, addresses_cons, List.mem_cons]
          simp only [ha, false_or]
      fresh := fun i caller msg' hthread => by
        obtain ⟨⟨junk, hnode⟩, hnew⟩ := h.fresh i caller msg' hthread
        have hi : (x.session.threads i).inserting = true := by
          rw [show x.session.threads i = .insertTail caller msg' from hthread]
          rfl
        refine ⟨⟨junk, ?_⟩, fun hmem => hnew (List.mem_cons_of_mem _ hmem)⟩
        show Function.update m.heap x.Entry none (x.NewEntry i) = _
        rw [Function.update_of_ne (hfresh i hi), hheap, hnode]
      distinct := h.distinct
      peeked := fun b' msg' hw => nomatch hw }

/-! A thread at the tail of the queue. -/

theorem inserting_update {threads : Fin p → ThreadPc} {pc : ThreadPc} (hpc : pc.inserting = false)
    (j : Fin p) :
    (Function.update threads i pc j).inserting = true ↔ j ≠ i ∧ (threads j).inserting = true := by
  by_cases hji : j = i
  · subst hji
    rw [Function.update_self, hpc]
    simp
  · rw [Function.update_of_ne hji]
    simp [hji]

/-- Threads that are about to insert have entries of their own. -/
theorem newEntry_ne (h : Spells x entries) {a : Nat} (ha : x.memory.heap a = none) {j : Fin p}
    (hj : (x.session.threads j).inserting = true) : x.NewEntry j ≠ a := by
  rintro rfl
  have hsome := (h.live (x.NewEntry j)).mpr (.inr ⟨j, hj, rfl⟩)
  rw [ha] at hsome
  cases hsome

theorem malloc (h : Spells x entries) (hq : Quieted (x.spelled entries))
    (hi : (x.session.threads i).admitted = true) (hnot : (x.session.threads i).inserting = false)
    {a : Nat} (ha : x.memory.heap a = none) (junk : Option Nat) (caller : Caller) (msg : Bytes) :
    Spells { x with
      session := x.session.goto i (.insertTail caller msg)
      memory := { x.memory with heap := Function.update x.memory.heap a (some ⟨msg, junk⟩) }
      NewEntry := Function.update x.NewEntry i a } entries := by
  have hworking := working_of_spelled hq hi
  have hlive := h.live_of_working hq hworking
  have hnone : x.session.discarded = [] := hq.kept hworking.isOpen hworking.notFreeing
  have hnew : a ∉ addresses entries := by
    intro hmem
    have hsome := (hlive a).mpr (.inl hmem)
    rw [ha] at hsome
    cases hsome
  have hother : ∀ j, (Function.update x.session.threads i (.insertTail caller msg) j).inserting = true →
      j ≠ i → (x.session.threads j).inserting = true := by
    intro j hj hji
    rwa [Function.update_of_ne hji] at hj
  exact
    { tame := h.tame
      held := fun _ _ => ((h.held hworking.isOpen hworking.notFreeing).malloc ha _).2
      left := fun j freed hthread => by
        have hfreeing := hworking.notFreeing j
        by_cases hji : j = i
        · subst hji
          rw [show (x.session.goto j _).threads j = _ from Function.update_self ..] at hthread
          cases hthread
        · rw [show (x.session.goto i _).threads j = _ from Function.update_of_ne hji ..] at hthread
          rw [hthread] at hfreeing
          cases hfreeing
      nodup := h.nodup
      live := fun c => by
        show (Function.update x.memory.heap a _ c).isSome = true ↔
          c ∈ addresses (entries.drop x.session.discarded.length) ∨ ∃ j, _ ∧ _
        rw [hnone, List.length_nil, List.drop_zero]
        by_cases hca : c = a
        · subst hca
          rw [Function.update_self]
          refine ⟨fun _ => .inr ⟨i, ?_, Function.update_self ..⟩, fun _ => rfl⟩
          rw [Session.goto_threads, Function.update_self]
          rfl
        · rw [Function.update_of_ne hca, hlive c]
          refine or_congr_right (exists_congr fun j => ?_)
          dsimp only
          by_cases hji : j = i
          · subst hji
            rw [Session.goto_threads, Function.update_self, Function.update_self]
            refine ⟨fun hj => ?_, fun hj => absurd hj.2.symm hca⟩
            rw [hnot] at hj
            exact absurd hj.1 Bool.false_ne_true
          · rw [Session.goto_threads, Function.update_of_ne hji, Function.update_of_ne hji]
      fresh := fun j caller' msg' hthread => by
        by_cases hji : j = i
        · subst hji
          rw [show (x.session.goto j _).threads j = _ from Function.update_self ..] at hthread
          obtain ⟨rfl, rfl⟩ := ThreadPc.insertTail.inj hthread
          refine ⟨⟨junk, ?_⟩, ?_⟩
          · show Function.update x.memory.heap a _ (Function.update x.NewEntry j a j) = _
            rw [Function.update_self, Function.update_self]
          · show Function.update x.NewEntry j a j ∉ _
            rw [Function.update_self]
            exact hnew
        · rw [show (x.session.goto i _).threads j = _ from Function.update_of_ne hji ..] at hthread
          obtain ⟨⟨junk', hnode⟩, hmem⟩ := h.fresh j caller' msg' hthread
          have hne := h.newEntry_ne ha (by rw [hthread]; rfl : (x.session.threads j).inserting = true)
          refine ⟨⟨junk', ?_⟩, ?_⟩
          · show Function.update x.memory.heap a _ (Function.update x.NewEntry i a j) = _
            rw [Function.update_of_ne hji, Function.update_of_ne hne, hnode]
          · show Function.update x.NewEntry i a j ∉ _
            rw [Function.update_of_ne hji]
            exact hmem
      distinct := fun j k hjk hj hk => by
        show Function.update x.NewEntry i a j ≠ Function.update x.NewEntry i a k
        by_cases hji : j = i
        · subst hji
          rw [Function.update_self, Function.update_of_ne hjk.symm]
          exact (h.newEntry_ne ha (hother k hk hjk.symm)).symm
        · by_cases hki : k = i
          · subst hki
            rw [Function.update_self, Function.update_of_ne hji]
            exact h.newEntry_ne ha (hother j hj hji)
          · rw [Function.update_of_ne hji, Function.update_of_ne hki]
            exact h.distinct j k hjk (hother j hj hji) (hother k hk hki)
      peeked := h.peeked }

/-- An insertion takes the thread's entry into the queue. -/
theorem insertTail (h : Spells x entries) (hq : Quieted (x.spelled entries)) {caller : Caller}
    {msg : Bytes} (hpc : x.session.threads i = .insertTail caller msg) {pc : ThreadPc}
    (hout : pc.inserting = false) (hnot : pc.freeing = false) :
    ∃ more, (x.insertTail i msg pc).spelled more = ((x.spelled entries).insert msg).goto i pc ∧
      Spells (x.insertTail i msg pc) more := by
  have hi : (x.session.threads i).inserting = true := by rw [hpc]; rfl
  have hworking := working_of_spelled hq (i := i) (by rw [hpc]; rfl)
  have hlive := h.live_of_working hq hworking
  have hnone : x.session.discarded = [] := hq.kept hworking.isOpen hworking.notFreeing
  obtain ⟨⟨junk, hnode⟩, hnew⟩ := h.fresh i caller msg hpc
  have hheld := h.held hworking.isOpen hworking.notFreeing
  obtain ⟨m, hinsert, hmore, hframe⟩ := hheld.insertTail hnode hnew
  have hstep : x.insertTail i msg pc = { x with
      memory := m, session := (LinkedSession.counted x.session msg).goto i pc } := by
    rw [LinkedSession.insertTail, hinsert]
    rfl
  have houtside : ∀ j, j ≠ i → (x.session.threads j).inserting = true →
      x.NewEntry j ∉ addresses (entries ++ [(x.NewEntry i, msg)]) := by
    intro j hji hj hmem
    rw [addresses_append, List.mem_append] at hmem
    rcases hmem with hmem | hmem
    · cases hthread : x.session.threads j with
      | insertTail caller' msg' => exact (h.fresh j caller' msg' hthread).2 hmem
      | _ =>
          rw [hthread] at hj
          cases hj
    · exact h.distinct j i hji hj hi (List.mem_singleton.mp hmem)
  refine ⟨entries ++ [(x.NewEntry i, msg)], ?_, ?_⟩
  · rw [hstep]
    simp only [LinkedSession.spelled, LinkedSession.counted, Session.withQueue, Session.insert,
      Session.goto, texts, List.map_append, List.map_cons, List.map_nil]
  · rw [hstep]
    exact
      { tame := h.tame
        held := fun _ _ => hmore
        left := fun j freed hthread => by
          have hfreeing := hworking.notFreeing j
          by_cases hji : j = i
          · subst hji
            rw [Session.goto_threads, Function.update_self] at hthread
            rw [hthread] at hnot
            cases hnot
          · rw [Session.goto_threads, Function.update_of_ne hji] at hthread
            rw [show x.session.threads j = _ from hthread] at hfreeing
            cases hfreeing
        nodup := hmore.nodup
        live := fun c => by
          show (m.heap c).isSome = true ↔
            c ∈ addresses ((entries ++ [(x.NewEntry i, msg)]).drop x.session.discarded.length) ∨ ∃ j,
              (Function.update x.session.threads i pc j).inserting = true ∧ x.NewEntry j = c
          rw [hnone, List.length_nil, List.drop_zero, hframe.allocated, hlive c, addresses_append,
            List.mem_append, addresses_cons, addresses_nil, List.mem_singleton, or_assoc]
          refine or_congr_right ⟨?_, ?_⟩
          · rintro ⟨j, hj, rfl⟩
            by_cases hji : j = i
            · exact .inl (by rw [hji])
            · exact .inr ⟨j, (inserting_update hout j).mpr ⟨hji, hj⟩, rfl⟩
          · rintro (rfl | ⟨j, hj, rfl⟩)
            · exact ⟨i, hi, rfl⟩
            · exact ⟨j, ((inserting_update hout j).mp hj).2, rfl⟩
        fresh := fun j caller' msg' hthread => by
          have hj : j ≠ i ∧ (x.session.threads j).inserting = true := by
            apply (inserting_update hout j).mp
            rw [show Function.update x.session.threads i pc j = _ from hthread]
            rfl
          rw [Session.goto_threads, Function.update_of_ne hj.1] at hthread
          obtain ⟨⟨junk', hnode'⟩, -⟩ := h.fresh j caller' msg' hthread
          have hout' := houtside j hj.1 hj.2
          exact ⟨⟨junk', (hframe.same _ hout').trans hnode'⟩, hout'⟩
        distinct := fun j k hjk hj hk =>
          h.distinct j k hjk ((inserting_update hout j).mp hj).2 ((inserting_update hout k).mp hk).2
        peeked := fun b msg' hw => by
          rw [List.head?_append, h.peeked b msg' hw]
          rfl }

/-- Without the lock the entry is freed again. -/
theorem lockFailed (h : Spells x entries) (hq : Quieted (x.spelled entries)) {caller : Caller}
    {msg : Bytes} (hpc : x.session.threads i = .insertTail caller msg) {pc : ThreadPc}
    (hout : pc.inserting = false) (hnot : pc.freeing = false) :
    ∃ m, x.memory.free (x.NewEntry i) = some m ∧
      Spells { x with memory := m, session := x.session.goto i pc } entries := by
  have hi : (x.session.threads i).inserting = true := by rw [hpc]; rfl
  have hworking := working_of_spelled hq (i := i) (by rw [hpc]; rfl)
  have hlive := h.live_of_working hq hworking
  have hnone : x.session.discarded = [] := hq.kept hworking.isOpen hworking.notFreeing
  obtain ⟨⟨junk, hnode⟩, hnew⟩ := h.fresh i caller msg hpc
  have hheld := h.held hworking.isOpen hworking.notFreeing
  obtain ⟨hfree, hkept⟩ := hheld.free (by rw [hnode]; rfl) hnew
  refine ⟨_, hfree, ?_⟩
  exact
    { tame := h.tame
      held := fun _ _ => hkept
      left := fun j freed hthread => by
        have hfreeing := hworking.notFreeing j
        by_cases hji : j = i
        · subst hji
          rw [Session.goto_threads, Function.update_self] at hthread
          rw [hthread] at hnot
          cases hnot
        · rw [Session.goto_threads, Function.update_of_ne hji] at hthread
          rw [hthread] at hfreeing
          cases hfreeing
      nodup := h.nodup
      live := fun c => by
        show (Function.update x.memory.heap (x.NewEntry i) none c).isSome = true ↔
          c ∈ addresses (entries.drop x.session.discarded.length) ∨ ∃ j,
            (Function.update x.session.threads i pc j).inserting = true ∧ x.NewEntry j = c
        rw [hnone, List.length_nil, List.drop_zero]
        by_cases hc : c = x.NewEntry i
        · subst hc
          rw [Function.update_self]
          refine ⟨fun hsome => (nomatch hsome), fun hin => ?_⟩
          rcases hin with hin | ⟨j, hj, heq⟩
          · exact absurd hin hnew
          · obtain ⟨hji, hj⟩ := (inserting_update hout j).mp hj
            exact absurd heq (h.distinct j i hji hj hi)
        · rw [Function.update_of_ne hc, hlive c]
          refine or_congr_right (exists_congr fun j => ?_)
          rw [inserting_update hout j]
          refine ⟨fun hj => ⟨⟨?_, hj.1⟩, hj.2⟩, fun hj => ⟨hj.1.2, hj.2⟩⟩
          rintro rfl
          exact hc hj.2.symm
      fresh := fun j caller' msg' hthread => by
        have hj : j ≠ i ∧ (x.session.threads j).inserting = true := by
          apply (inserting_update hout j).mp
          rw [show Function.update x.session.threads i pc j = _ from hthread]
          rfl
        rw [Session.goto_threads, Function.update_of_ne hj.1] at hthread
        obtain ⟨⟨junk', hnode'⟩, hnew'⟩ := h.fresh j caller' msg' hthread
        refine ⟨⟨junk', ?_⟩, hnew'⟩
        show Function.update x.memory.heap (x.NewEntry i) none (x.NewEntry j) = _
        rw [Function.update_of_ne (h.distinct j i hj.1 hj.2 hi), hnode']
      distinct := fun j k hjk hj hk =>
        h.distinct j k hjk ((inserting_update hout j).mp hj).2 ((inserting_update hout k).mp hk).2
      peeked := h.peeked }

/-! `logger_destroy` frees what is left. -/

/-- The other threads keep away from a queue that is being freed. -/
theorem not_freeQueue_of_closing (hq : Quieted (x.spelled entries))
    (hi : (x.session.threads i).closing = true) {j : Fin p} (hji : j ≠ i) (freed : Nat) :
    x.session.threads j ≠ .freeQueue freed := by
  intro hj
  have halone := (hq.alone i j (Ne.symm hji) (.inr hi)).2
  rw [LinkedSession.spelled, withQueue_threads, hj] at halone
  cases halone

theorem not_inserting_of_closing (hq : Quieted (x.spelled entries))
    (hi : (x.session.threads i).closing = true) (j : Fin p) :
    (x.session.threads j).inserting = false := by
  have hshut := hq.shut (hq.closing i hi) j
  rw [LinkedSession.spelled, withQueue_threads] at hshut
  cases hj : x.session.threads j with
  | insertTail =>
      rw [hj] at hshut
      cases hshut
  | _ => rfl

/-- A thread of `logger_destroy` goes on to free the queue, with what is left of it. -/
theorem destroying (h : Spells x entries) (hq : Quieted (x.spelled entries))
    (hi : (x.session.threads i).closing = true) {t : Session p} {pc : ThreadPc}
    (hthreads : t.threads = Function.update x.session.threads i pc)
    (hwriter : t.writer = x.session.writer) (hpc : pc.freeing = true) {m : Memory Bytes}
    {n1 : Option Nat}
    (hleft : ∀ freed, pc = .freeQueue freed → Chain m.heap n1 (entries.drop freed))
    (hlive : ∀ a, (m.heap a).isSome = true ↔ a ∈ addresses (entries.drop t.discarded.length)) :
    Spells { x with session := t, memory := m, n1 } entries := by
  have hself : t.threads i = pc := by rw [hthreads, Function.update_self]
  have hnone : ∀ j, (t.threads j).inserting = false := by
    intro j
    by_cases hji : j = i
    · subst hji
      rw [hself]
      cases pc <;> first | rfl | cases hpc
    · rw [hthreads, Function.update_of_ne hji]
      exact not_inserting_of_closing hq hi j
  exact
    { tame := h.tame
      held := fun _ hnot => by
        have hfreeing := hnot i
        rw [hself, hpc] at hfreeing
        cases hfreeing
      left := fun j freed hj => by
        by_cases hji : j = i
        · subst hji
          exact hleft freed (hself.symm.trans hj)
        · rw [hthreads, Function.update_of_ne hji] at hj
          exact absurd hj (not_freeQueue_of_closing hq hi hji freed)
      nodup := h.nodup
      live := fun a => by
        refine (hlive a).trans ⟨.inl, fun hin => ?_⟩
        rcases hin with hin | ⟨j, hj, -⟩
        · exact hin
        · rw [hnone j] at hj
          cases hj
      fresh := fun j caller msg hj => by
        have hinserting := hnone j
        rw [hj] at hinserting
        cases hinserting
      distinct := fun j _ _ hj => by
        rw [hnone j] at hj
        cases hj
      peeked := fun b msg hw => h.peeked b msg (hwriter.symm.trans hw) }

theorem live_of_closing (h : Spells x entries) (hq : Quieted (x.spelled entries))
    (hi : (x.session.threads i).closing = true) (a : Nat) :
    (x.memory.heap a).isSome = true ↔ a ∈ addresses (entries.drop x.session.discarded.length) := by
  rw [h.live a, or_iff_left_iff_imp]
  rintro ⟨j, hj, -⟩
  rw [not_inserting_of_closing hq hi j] at hj
  cases hj

theorem closeStream (h : Spells x entries) (hq : Quieted (x.spelled entries))
    (hpc : x.session.threads i = .closeStream) :
    Spells { x with
      session := (x.session.closeFile x.session.writer).goto i (.freeQueue 0)
      n1 := x.memory.stqhFirst } entries := by
  have hi : (x.session.threads i).closing = true := by rw [hpc]; rfl
  have hinit : x.session.iIsInitDone = true := hq.isOpen_of_closing hi
  have hnot : ∀ j, (x.session.threads j).freeing = false := by
    intro j
    by_cases hji : j = i
    · rw [hji, hpc]
      rfl
    · by_contra hfreeing
      have halone := (hq.alone i j (Ne.symm hji) (.inr hi)).2
      have hclosing := ThreadPc.closing_of_freeing ((Bool.not_eq_false _).mp hfreeing)
      rw [LinkedSession.spelled, withQueue_threads, hclosing] at halone
      cases halone
  have hheld := h.held hinit hnot
  have hthreads : ((x.session.closeFile x.session.writer).goto i (.freeQueue 0)).threads
      = Function.update x.session.threads i (.freeQueue 0) := rfl
  refine h.destroying hq hi hthreads rfl rfl ?_ (h.live_of_closing hq hi)
  intro freed hfreed
  obtain rfl := ThreadPc.freeQueue.inj hfreed
  exact hheld.chain

theorem freeQueue (h : Spells x entries) (hq : Quieted (x.spelled entries)) {freed : Nat}
    (hpc : x.session.threads i = .freeQueue freed) (acTime : Bytes) (o : Outcome) :
    threadStep (x.spelled entries) i acTime o = some ((x.freeQueue i freed).spelled entries) ∧
      Spells (x.freeQueue i freed) entries := by
  have hi : (x.session.threads i).closing = true := by rw [hpc]; rfl
  have hchain := h.left i freed hpc
  have hdiscarded : x.session.discarded = (texts entries).take freed := by
    have hfreed := hq.freed i
    rw [LinkedSession.spelled, withQueue_threads, hpc] at hfreed
    exact hfreed
  have hlive := h.live_of_closing hq hi
  have hstep : threadStep (x.spelled entries) i acTime o
      = some ((texts entries)[freed]?.elim ((x.spelled entries).goto i .resetCount) fun msg =>
          { x.spelled entries with
            discarded := x.session.discarded ++ [msg] }.goto i (.freeQueue (freed + 1))) := by
    rw [threadStep, show (x.spelled entries).threads i = .freeQueue freed from hpc]
    change _ = some ((x.spelled entries).queue[freed]?.elim _ _)
    dsimp only
    cases (x.spelled entries).queue[freed]? <;> rfl
  have hentry : (texts entries)[freed]? = (texts (entries.drop freed)).head? := by
    rw [texts, texts, List.map_drop, List.head?_drop]
  rw [hstep, hentry]
  cases hdrop : entries.drop freed with
  | nil =>
      rw [hdrop] at hchain
      have hend : x.freeQueue i freed = { x with session := x.session.goto i .resetCount } := by
        rw [LinkedSession.freeQueue, show x.n1 = none from hchain]
      rw [hend]
      refine ⟨rfl, ?_⟩
      exact h.destroying hq hi (x.session.goto_threads i .resetCount) rfl rfl
        (fun _ hfreed => by cases hfreed) hlive
  | cons e rest =>
      obtain ⟨n1, msg⟩ := e
      rw [hdrop] at hchain
      obtain ⟨hn1, next, hnode, hrest⟩ := hchain
      have hfree : x.memory.free n1
          = some { x.memory with heap := Function.update x.memory.heap n1 none } := by
        rw [Memory.free, hnode]
        rfl
      have hgo : x.freeQueue i freed = { x with
          memory := { x.memory with heap := Function.update x.memory.heap n1 none }
          n1 := next
          session := { x.session with discarded := x.session.discarded ++ [msg] }.goto i
            (.freeQueue (freed + 1)) } := by
        rw [LinkedSession.freeQueue, hn1]
        dsimp only
        rw [hnode]
        dsimp only
        rw [hfree]
        rfl
      have hlt : freed < entries.length := by
        by_contra hle
        rw [List.drop_eq_nil_of_le (Nat.le_of_not_lt hle)] at hdrop
        cases hdrop
      have hlength : x.session.discarded.length = freed := by
        rw [hdiscarded, List.length_take, texts, List.length_map]
        omega
      have hnext : entries.drop (freed + 1) = rest := by
        rw [← List.drop_drop, hdrop]
        rfl
      have hnot : n1 ∉ addresses rest := by
        have hnodup : (addresses (entries.drop freed)).Nodup := by
          rw [addresses, List.map_drop]
          exact h.nodup.sublist (List.drop_sublist _ _)
        rw [hdrop] at hnodup
        exact (List.nodup_cons.mp hnodup).1
      rw [hgo]
      refine ⟨rfl, ?_⟩
      refine h.destroying hq hi (Session.goto_threads
        { x.session with discarded := x.session.discarded ++ [msg] } i (.freeQueue (freed + 1))) rfl rfl
        ?_ ?_
      · intro freed' hfreed'
        obtain rfl := ThreadPc.freeQueue.inj hfreed'
        rw [hnext]
        apply hrest.congr
        intro a ha
        apply Function.update_of_ne
        rintro rfl
        exact hnot ha
      · intro a
        show (Function.update x.memory.heap n1 none a).isSome = true ↔
          a ∈ addresses (entries.drop (x.session.discarded ++ [msg]).length)
        rw [List.length_append, List.length_singleton, hlength, hnext]
        by_cases ha : a = n1
        · subst ha
          rw [Function.update_self]
          exact ⟨fun hsome => (by cases hsome), fun hin => absurd hin hnot⟩
        · rw [Function.update_of_ne ha, hlive a, hlength, hdrop, addresses_cons, List.mem_cons]
          simp only [ha, false_or]

/-! ### Every step -/

theorem exit (h : Spells x entries) : Spells { x with session := x.session.exit } entries :=
  ⟨h.tame, h.held, h.left, h.nodup, h.live, h.fresh, h.distinct, h.peeked⟩

theorem writerMove (h : Spells x entries) (hpc : x.session.writer.atHead = false) {t : Session p}
    (hmove : WriterMove x.session t) : Spells { x with session := t } entries := by
  have hframe := hmove.frame
  apply h.session hframe.discarded
  · intro j _
    rw [hframe.threads]
  · intro j _
    rw [hframe.threads]
  · intro j freed hj
    rwa [hframe.threads] at hj
  · rintro ⟨hinit, hnot⟩
    rw [hframe.iIsInitDone] at hinit
    rw [hframe.threads] at hnot
    exact ⟨hinit, hnot⟩
  · intro b msg hw
    exfalso
    cases hmove with
    | idle w hidle hw' => rcases hw' with rfl | rfl <;> cases hw
    | snapshotCount =>
        rw [Session.snapshotCount] at hw
        split at hw <;> cases hw
    | peekHead b' hpc' | removeHead b' msg' hpc' =>
        rw [hpc'] at hpc
        cases hpc
    | writeEntry b' msg' =>
        simp only [Session.writeEntry] at hw
        split at hw <;> cases hw
    | openFile | flushFile | closeFile | updateCount => cases hw

/-- The steps of `logger_thread` away from the queue. -/
theorem writerStep (h : Spells x entries) (hpc : x.session.writer.atHead = false) {o : Outcome}
    {t : Session p} (ht : loggerThread x.session o = some t) :
    Spells { x with session := t } entries := by
  rcases loggerThread_cases ht with rfl | ⟨u, hmove, rfl | rfl⟩
  · exact h.exit
  · exact h.writerMove hpc hmove
  · exact (h.writerMove hpc hmove).exit

theorem atQueue_afterLog (caller : Caller) (iRet : LogRet) : (caller.afterLog iRet).atQueue = false := by
  cases caller <;> rfl

theorem freeing_afterLog (caller : Caller) (iRet : LogRet) : (caller.afterLog iRet).freeing = false := by
  cases caller <;> rfl

theorem atQueue_afterFlush (caller : Caller) : caller.afterFlush.atQueue = false := by
  cases caller <;> rfl

/-- The steps of the other threads away from the queue and its entries. -/
theorem threadMove (h : Spells x entries) {t : Session p} (hmove : ThreadMove x.session i t)
    (hpc : (x.session.threads i).atQueue = false)
    (hcheck : ∀ caller eType text, x.session.threads i ≠ .sizeCheck caller eType text)
    (hclose : x.session.threads i ≠ .closeStream) : Spells { x with session := t } entries := by
  cases hmove with
  | formatted caller eType text msg hthread => exact absurd hthread (hcheck caller eType text)
  | lockFailed caller msg hthread | insert caller msg iRet hthread =>
      rw [hthread] at hpc
      cases hpc
  | freeEntry freed msg hthread | freedAll freed hthread =>
      rw [hthread] at hpc
      cases hpc
  | closeStream hthread => exact absurd hthread hclose
  | resetCount hthread =>
      exact h.goto (Session.goto_threads _ i _) rfl rfl hpc rfl fun _ hnot => nomatch hnot
  | finish hthread =>
      exact h.goto (Session.goto_threads _ i _) rfl rfl hpc rfl fun hopen _ => nomatch hopen
  | refused caller eType text hthread | full caller eType text hthread =>
      exact h.goto (Session.goto_threads _ i _) rfl rfl hpc (atQueue_afterLog caller _)
        fun hopen _ => ⟨hopen, by rw [hthread]; rfl⟩
  | flushed caller MaxLoops polls hthread =>
      exact h.goto (Session.goto_threads _ i _) rfl rfl hpc (atQueue_afterFlush caller)
        fun hopen _ => ⟨hopen, by rw [hthread]; rfl⟩
  | allowed caller eType text hthread | flushSet caller hthread | polled caller MaxLoops polls hthread
  | destroying text hthread | noInit hthread | shutDown hthread | cancelThread hthread
  | joined hthread =>
      exact h.goto (Session.goto_threads _ i _) rfl rfl hpc rfl
        fun hopen _ => ⟨hopen, by rw [hthread]; rfl⟩

/-- A thread inside the logger takes the same step in the session. -/
theorem follow_thread (h : Spells x entries) (hq : Quieted (x.spelled entries)) {acTime : Bytes}
    {o : Outcome} {malloc : Nat} {junk : Option Nat}
    (hstep : x.threadStep i acTime o malloc junk = some y) :
    ∃ more, threadStep (x.spelled entries) i acTime o = some (y.spelled more) ∧ Spells y more := by
  have hsame : ∀ {t : Session p}, (x.session.threads i).atQueue = false →
      threadStep x.session i acTime o = some t →
      threadStep (x.spelled entries) i acTime o = some (t.withQueue (texts entries)) := by
    intro t hpc ht
    rw [LinkedSession.spelled, threadStep_withQueue hpc, ht]
    rfl
  unfold LinkedSession.threadStep at hstep
  cases hpc : x.session.threads i with
  | sizeCheck caller eType text =>
      rw [hpc] at hstep
      obtain ⟨t, ht, hy⟩ := Option.bind_eq_some_iff.mp hstep
      have hup := hsame (by rw [hpc]; rfl) ht
      rw [threadStep, hpc] at ht
      dsimp only at ht
      split at ht <;> obtain rfl := Option.some.inj ht
      · have hret : (x.session.goto i (caller.afterLog .exitFailure)).threads i
            = caller.afterLog .exitFailure := Function.update_self ..
        have hkept : y = { x with session := x.session.goto i (caller.afterLog .exitFailure) } := by
          rw [LinkedSession.sizeCheck, hret] at hy
          cases caller <;> exact (Option.some.inj hy).symm
        rw [hkept]
        refine ⟨entries, hup, ?_⟩
        exact h.goto (Session.goto_threads _ i _) rfl rfl (by rw [hpc]; rfl) (atQueue_afterLog caller _)
          fun hopen _ => ⟨hopen, by rw [hpc]; rfl⟩
      · rw [LinkedSession.sizeCheck, Session.goto_threads, Function.update_self] at hy
        obtain ⟨m, hm, rfl⟩ := Option.map_eq_some_iff.mp hy
        rw [Memory.malloc] at hm
        split at hm
        · cases hm
        · rename_i hfree
          obtain rfl := Option.some.inj hm
          refine ⟨entries, hup, ?_⟩
          exact h.malloc hq (by rw [hpc]; rfl) (by rw [hpc]; rfl)
            (Option.not_isSome_iff_eq_none.mp hfree) junk caller _
  | insertTail caller msg =>
      rw [hpc] at hstep
      rw [threadStep, show (x.spelled entries).threads i = .insertTail caller msg from hpc]
      cases o with
      | busy => cases hstep
      | ok =>
          obtain rfl := Option.some.inj hstep
          obtain ⟨more, hmore, hspells⟩ := h.insertTail hq hpc
            (afterLog_inserting caller .exitSuccess) (freeing_afterLog caller _)
          exact ⟨more, by rw [hmore], hspells⟩
      | unlockFailed =>
          obtain rfl := Option.some.inj hstep
          obtain ⟨more, hmore, hspells⟩ := h.insertTail hq hpc
            (afterLog_inserting caller .exitFailure) (freeing_afterLog caller _)
          exact ⟨more, by rw [hmore], hspells⟩
      | failed =>
          obtain ⟨m, hfree, hspells⟩ := h.lockFailed hq hpc
            (afterLog_inserting caller .exitFailure) (freeing_afterLog caller _)
          obtain rfl : { x with
              memory := m
              session := x.session.goto i (caller.afterLog .exitFailure) } = y := by
            rw [← Option.some.inj hstep, hfree]
            rfl
          exact ⟨entries, rfl, hspells⟩
  | closeStream =>
      rw [hpc] at hstep
      obtain ⟨t, ht, rfl⟩ := Option.map_eq_some_iff.mp hstep
      refine ⟨entries, hsame (by rw [hpc]; rfl) ht, ?_⟩
      rw [threadStep, hpc] at ht
      obtain rfl := Option.some.inj ht
      exact h.closeStream hq hpc
  | freeQueue freed =>
      rw [hpc] at hstep
      obtain rfl := Option.some.inj hstep
      exact ⟨entries, h.freeQueue hq hpc acTime o⟩
  | _ =>
      rw [hpc] at hstep
      obtain ⟨t, ht, rfl⟩ := Option.map_eq_some_iff.mp hstep
      refine ⟨entries, hsame (by rw [hpc]; rfl) ht, ?_⟩
      apply h.threadMove (threadStep_cases ht)
      all_goals simp [hpc, ThreadPc.atQueue]

/-- `logger_thread` takes the same step in the session. -/
theorem follow_writer (h : Spells x entries) (hacc : Accounted (x.spelled entries))
    (hq : Quieted (x.spelled entries)) {o : Outcome} {malloc : Nat} {junk : Option Nat}
    (hlive : (x.session.exited || x.session.fault || x.wild) = false)
    (hstep : x.step ⟨.writer o, malloc, junk⟩ = some y) :
    ∃ more, loggerThread (x.spelled entries) o = some (y.spelled more) ∧ Spells y more := by
  rw [LinkedSession.step, hlive] at hstep
  dsimp only [Bool.false_eq_true, ↓reduceIte] at hstep
  cases hpc : x.session.writer with
  | bodyTop b =>
      rw [hpc] at hstep
      obtain rfl := Option.some.inj hstep
      obtain ⟨hsame, hspells⟩ := h.peekHead hacc hpc
      refine ⟨entries, ?_, hspells⟩
      rw [loggerThread, show (x.spelled entries).writer = .bodyTop b from hpc, hsame]
  | removeHead b msg =>
      rw [hpc] at hstep
      obtain ⟨rest, hsame, hspells⟩ := h.removeHead hacc hq hpc
      rw [loggerThread, show (x.spelled entries).writer = .removeHead b msg from hpc]
      cases o with
      | busy => cases hstep
      | ok =>
          obtain rfl := Option.some.inj hstep
          exact ⟨rest, by rw [hsame]; rfl, hspells⟩
      | failed =>
          obtain rfl := Option.some.inj hstep
          exact ⟨entries, rfl, h.exit⟩
      | unlockFailed =>
          obtain rfl := Option.some.inj hstep
          refine ⟨rest, ?_, hspells.exit⟩
          show some ((x.spelled entries).removeHead b msg).exit = _
          rw [← hsame]
          rfl
  | _ =>
      rw [hpc] at hstep
      obtain ⟨t, ht, rfl⟩ := Option.map_eq_some_iff.mp hstep
      have hhead : x.session.writer.atHead = false := by rw [hpc]; rfl
      refine ⟨entries, ?_, h.writerStep hhead ht⟩
      rw [LinkedSession.spelled, loggerThread_withQueue hhead, ht]
      rfl

theorem cancel (h : Spells x entries) {t : Session p} (ht : cancelStep x.session = some t) :
    Spells { x with session := t } entries := by
  rw [cancelStep] at ht
  split at ht
  · obtain rfl := Option.some.inj ht
    exact h.session rfl (fun _ _ => rfl) (fun _ _ => rfl) (fun _ _ hi => hi) (fun hw => ⟨hw.1, hw.2⟩)
      (fun _ _ hw => by cases hw)
  · cases ht

theorem call (h : Spells x entries) {op : Call} {t : Session p}
    (ht : callStep x.session i op = some t) : Spells { x with session := t } entries := by
  unfold callStep at ht
  cases hpc : x.session.threads i with
  | ready iRet =>
      rw [hpc] at ht
      have hfreeing : (x.session.threads i).freeing = false := by rw [hpc]; rfl
      cases op with
      | logMsg eType text | loggerFlush | loggerSet settings | loggerDestroy =>
          obtain rfl := Option.some.inj ht
          exact h.goto (Session.goto_threads _ i _) rfl rfl (by rw [hpc]; rfl) rfl
            fun hopen _ => ⟨hopen, hfreeing⟩
  | _ =>
      rw [hpc] at ht
      cases ht

/-- Each step of the linked session is the session's step. -/
theorem follow (h : Spells x entries) (hacc : Accounted (x.spelled entries))
    (hq : Quieted (x.spelled entries)) {l : LinkedLabel p} (hstep : x.step l = some y) :
    ∃ more, (Logger.session p).step (x.spelled entries) l.label = some (y.spelled more) ∧
      Spells y more := by
  have hlive : (x.session.exited || x.session.fault || x.wild) = false := by
    cases hstop : x.session.exited || x.session.fault || x.wild with
    | false => rfl
    | true =>
        rw [LinkedSession.step, hstop] at hstep
        cases hstep
  have hup : (x.session.exited || x.session.fault) = false := (Bool.or_eq_false_iff.mp hlive).1
  show ∃ more, sessionStep (x.spelled entries) l.label = _ ∧ _
  unfold sessionStep
  rw [show ((x.spelled entries).exited || (x.spelled entries).fault) = false from hup]
  obtain ⟨label, malloc, junk⟩ := l
  cases label with
  | writer o => exact h.follow_writer hacc hq hlive hstep
  | thread i acTime o =>
      rw [LinkedSession.step, hlive] at hstep
      exact h.follow_thread hq hstep
  | cancel =>
      rw [LinkedSession.step, hlive] at hstep
      obtain ⟨t, ht, rfl⟩ := Option.map_eq_some_iff.mp hstep
      refine ⟨entries, ?_, h.cancel ht⟩
      show cancelStep (x.session.withQueue _) = _
      rw [cancelStep_withQueue, ht]
      rfl
  | call i op =>
      rw [LinkedSession.step, hlive] at hstep
      obtain ⟨t, ht, rfl⟩ := Option.map_eq_some_iff.mp hstep
      refine ⟨entries, ?_, h.call ht⟩
      show callStep (x.session.withQueue _) i op = _
      rw [callStep_withQueue, ht]
      rfl

/-- There is always an address left for `malloc`. -/
theorem exists_free (h : Spells x entries) : ∃ a, x.memory.heap a = none := by
  obtain ⟨a, ha⟩ := Infinite.exists_notMem_finset
    ((addresses (entries.drop x.session.discarded.length)).toFinset ∪ Finset.univ.image x.NewEntry)
  rw [Finset.notMem_union, List.mem_toFinset] at ha
  refine ⟨a, Option.not_isSome_iff_eq_none.mp fun hsome => ?_⟩
  rcases (h.live a).mp hsome with hmem | ⟨i, -, rfl⟩
  · exact ha.1 hmem
  · exact ha.2 (Finset.mem_image_of_mem _ (Finset.mem_univ i))

theorem enabled_thread (h : Spells x entries) {acTime : Bytes} {o : Outcome} {t : Session p}
    (hup : threadStep (x.spelled entries) i acTime o = some t) :
    ∃ malloc junk y, x.threadStep i acTime o malloc junk = some y := by
  have hsame : (x.session.threads i).atQueue = false → ∃ u, threadStep x.session i acTime o = some u := by
    intro hpc
    rw [LinkedSession.spelled, threadStep_withQueue hpc] at hup
    obtain ⟨u, hu, -⟩ := Option.map_eq_some_iff.mp hup
    exact ⟨u, hu⟩
  obtain ⟨a, ha⟩ := h.exists_free
  refine ⟨a, none, ?_⟩
  unfold LinkedSession.threadStep
  cases hpc : x.session.threads i with
  | sizeCheck caller eType text =>
      obtain ⟨u, hu⟩ := hsame (by rw [hpc]; rfl)
      dsimp only
      rw [hu, Option.bind_some]
      unfold LinkedSession.sizeCheck
      split
      · rw [Memory.malloc, ha]
        exact ⟨_, rfl⟩
      · exact ⟨_, rfl⟩
  | insertTail caller msg =>
      rw [threadStep, show (x.spelled entries).threads i = .insertTail caller msg from hpc] at hup
      cases o with
      | busy => cases hup
      | ok | failed | unlockFailed => exact ⟨_, rfl⟩
  | freeQueue freed => exact ⟨_, rfl⟩
  | _ =>
      obtain ⟨u, hu⟩ := hsame (by rw [hpc]; rfl)
      dsimp only
      rw [hu]
      exact ⟨_, rfl⟩

/-- What the session can do, the linked session can do too: links and blocks hold nobody up. -/
theorem enabled (h : Spells x entries) {l : Label p} {t : Session p}
    (hup : (Logger.session p).step (x.spelled entries) l = some t) :
    ∃ malloc junk y, x.step ⟨l, malloc, junk⟩ = some y := by
  have hlive : (x.session.exited || x.session.fault) = false := by
    cases hstop : x.session.exited || x.session.fault with
    | false => rfl
    | true =>
        change sessionStep (x.spelled entries) l = some t at hup
        unfold sessionStep at hup
        rw [show ((x.spelled entries).exited || (x.spelled entries).fault) = true from hstop] at hup
        cases hup
  change sessionStep (x.spelled entries) l = some t at hup
  unfold sessionStep at hup
  rw [show ((x.spelled entries).exited || (x.spelled entries).fault) = false from hlive] at hup
  unfold LinkedSession.step
  rw [hlive, h.tame]
  cases l with
  | thread i acTime o => exact h.enabled_thread hup
  | cancel =>
      change cancelStep (x.session.withQueue _) = some t at hup
      rw [cancelStep_withQueue] at hup
      obtain ⟨u, hu, -⟩ := Option.map_eq_some_iff.mp hup
      exact ⟨0, none, _, congrArg x.mapSession hu⟩
  | call i op =>
      change callStep (x.session.withQueue _) i op = some t at hup
      rw [callStep_withQueue] at hup
      obtain ⟨u, hu, -⟩ := Option.map_eq_some_iff.mp hup
      exact ⟨0, none, _, congrArg x.mapSession hu⟩
  | writer o =>
      refine ⟨0, none, ?_⟩
      change loggerThread (x.session.withQueue _) o = some t at hup
      dsimp only [Bool.or_self, Bool.false_eq_true, ↓reduceIte]
      cases hpc : x.session.writer with
      | bodyTop b => exact ⟨_, rfl⟩
      | removeHead b msg =>
          rw [loggerThread, withQueue_writer, hpc] at hup
          cases o with
          | busy => cases hup
          | ok | failed | unlockFailed => exact ⟨_, rfl⟩
      | _ =>
          rw [loggerThread_withQueue (by rw [hpc]; rfl)] at hup
          obtain ⟨u, hu, -⟩ := Option.map_eq_some_iff.mp hup
          exact ⟨_, congrArg x.mapSession hu⟩

/-- Behind `logger_destroy` nothing is allocated. -/
theorem heap_of_closed (h : Spells x entries) (hq : Quieted (x.spelled entries))
    (hclosed : x.session.iIsInitDone = false) (a : Nat) : x.memory.heap a = none := by
  obtain ⟨hfreed, hshut, -⟩ := hq.closed hclosed
  have hall : x.session.discarded.length = entries.length := by
    rw [show x.session.discarded = texts entries from hfreed, texts, List.length_map]
  refine Option.not_isSome_iff_eq_none.mp fun hsome => ?_
  rcases (h.live a).mp hsome with hmem | ⟨i, hi, -⟩
  · rw [hall, List.drop_length] at hmem
    cases hmem
  · have hnot := hq.shut hshut i
    rw [LinkedSession.spelled, withQueue_threads] at hnot
    cases hpc : x.session.threads i with
    | insertTail =>
        rw [hpc] at hnot
        cases hnot
    | _ =>
        rw [hpc] at hi
        cases hi

end Spells

/-- The promises of a session's threads, made of the linked one. -/
def LinkedWellUsed (x : LinkedSession p) (l : LinkedLabel p) : Prop := WellUsed x.session l.label

/-- The links spell the queue of a run of the session. -/
def Refines (x : LinkedSession p) : Prop :=
  ∃ entries, Reachable (session p) WellUsed (x.spelled entries) ∧ Spells x entries

theorem refines_of_reachable (hx : Reachable (linkedSession p) LinkedWellUsed x) : Refines x := by
  refine hx.invariant ?_ ?_
  · rintro x ⟨⟨settings, Loglevel, bTerminateProg, pid, hsettings, hsession⟩, htame, memory, hnone, hmemory⟩
    refine ⟨[], .init ⟨settings, Loglevel, bTerminateProg, pid, hsettings, ?_⟩, ?_⟩
    · rw [LinkedSession.spelled, hsession]
      rfl
    · have hready : ∀ i, x.session.threads i = .ready .exitSuccess := by
        rw [hsession]
        exact fun _ => rfl
      exact
        { tame := htame
          held := fun _ _ => by
            rw [hmemory]
            exact Holds.init memory
          left := fun i freed hi => by
            rw [hready i] at hi
            cases hi
          nodup := List.nodup_nil
          live := fun a => by
            rw [hmemory, show memory.init.heap a = none from hnone a]
            simp [hready, ThreadPc.inserting, addresses]
          fresh := fun i caller msg hi => by
            rw [hready i] at hi
            cases hi
          distinct := fun i j _ hi => by
            rw [hready i] at hi
            cases hi
          peeked := fun b msg hw => by
            rw [hsession] at hw
            cases hw }
  · rintro x l y ⟨entries, hs, hspells⟩ hpromise hstep
    have hacc := accounted_of_reachable (hs.mono fun _ _ hl => hl.1)
    obtain ⟨more, hup, hmore⟩ := hspells.follow hacc (quieted_of_reachable hs) hstep
    exact ⟨more, .step hs hpromise hup, hmore⟩

/-- The queue in memory is the queue of the session: no step of a run touches a block that is not
allocated, the blocks are at each moment the entries of the queue and those on their way into it, each
step of the session can be taken with some address from `malloc` and leads to the same session, and
after `logger_destroy` no block is left. -/
theorem linked_refines {x : LinkedSession p} (hx : Reachable (linkedSession p) LinkedWellUsed x) :
    x.wild = false ∧
    (∃ entries, Reachable (session p) WellUsed (x.spelled entries) ∧
      (∀ a, (x.memory.heap a).isSome = true ↔
        a ∈ addresses (entries.drop x.session.discarded.length) ∨
          ∃ i, (x.session.threads i).inserting = true ∧ x.NewEntry i = a) ∧
      ∀ l t, (session p).step (x.spelled entries) l = some t →
        ∃ malloc junk y more, x.step ⟨l, malloc, junk⟩ = some y ∧ y.spelled more = t) ∧
    (x.session.iIsInitDone = false → ∀ a, x.memory.heap a = none) := by
  obtain ⟨entries, hs, hspells⟩ := refines_of_reachable hx
  have hacc := accounted_of_reachable (hs.mono fun _ _ hl => hl.1)
  have hquieted := quieted_of_reachable hs
  refine ⟨hspells.tame, ⟨entries, hs, hspells.live, fun l t hup => ?_⟩, hspells.heap_of_closed hquieted⟩
  obtain ⟨malloc, junk, y, hstep⟩ := hspells.enabled hup
  obtain ⟨more, hsame, -⟩ := hspells.follow hacc hquieted hstep
  exact ⟨malloc, junk, y, more, hstep, Option.some.inj (hsame.symm.trans hup)⟩

/-- A process that has just called `logger_init`. -/
def justOpened : LinkedSession 1 where
  session := loggerInit LogSettings.default LoggerType.eERROR.value false 1
  memory := Memory.init ⟨fun _ => none, none, .first⟩
  Entry := 0
  NewEntry := fun _ => 0
  n1 := none
  wild := false

/-- `malloc` gives the second entry the block of the first. -/
def destroyReused : List (LinkedLabel 1) := destroyWithBacklog.map fun l => ⟨l, 7, some 7⟩

theorem linked_refines_reused :
    ∃ x : LinkedSession 1, Reachable (linkedSession 1) LinkedWellUsed x ∧
      x.session.discarded = [Bytes.ascii "now : Error : second\n"] ∧ x.wild = false ∧
      ∀ a, x.memory.heap a = none := by
  have hinit : Reachable (linkedSession 1) LinkedWellUsed justOpened :=
    .init ⟨⟨LogSettings.default, _, _, _, ⟨by decide, by decide⟩, rfl⟩, rfl, _, fun _ => rfl, rfl⟩
  obtain ⟨x, hrun, hclosed, hdiscarded⟩ : ∃ x, (linkedSession 1).run justOpened destroyReused = some x ∧
      x.session.iIsInitDone = false ∧
      x.session.discarded = [Bytes.ascii "now : Error : second\n"] :=
    ⟨_, rfl, by decide, by decide⟩
  have hpromise : ∀ l ∈ destroyReused, ∀ x, LinkedWellUsed x l := by
    have halone : ∀ j : Fin 1, j = 0 := fun j => Subsingleton.elim j 0
    simp [destroyReused, destroyWithBacklog, logsError, threadMoves, writerMoves, LinkedWellUsed, WellUsed,
      SettingsKept, QuietDestroy, halone]
  have hx := hinit.run hpromise hrun
  obtain ⟨htame, -, hgone⟩ := linked_refines hx
  exact ⟨x, hx, hdiscarded, htame, hgone hclosed⟩

end CewServer.Logger
