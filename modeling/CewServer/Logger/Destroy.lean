import CewServer.Logger.Fifo

/-!
# What `logger_destroy` throws away

`logger_destroy` frees the queue without the mutex, so it relies on its callers: all of them call it
when no other thread is inside `log_msg`. By itself this is not enough, as a thread may enter `log_msg`
behind the call and before `iShuttingDown` is raised, and insert its entry into a queue that has been
freed. The promise made here covers the opening of the call too. A thread that calls `log_msg` later is
turned away by `is_msg_allowed`, and nothing can be inserted while the queue is freed.
-/

namespace CewServer.Logger

variable {p : Nat} {s t : Session p} {i : Fin p}

namespace ThreadPc

def inLogMsg : ThreadPc → Bool
  | .msgAllowed _ _ _ | .sizeCheck _ _ _ | .insertTail _ _ => true
  | _ => false

/-- Inside `log_msg`, past `is_msg_allowed`. -/
def admitted : ThreadPc → Bool
  | .sizeCheck _ _ _ | .insertTail _ _ => true
  | _ => false

/-- In `logger_destroy`, before `iShuttingDown` is raised. -/
def opening : ThreadPc → Bool
  | .destroyEntry | .msgAllowed .destroy _ _ | .sizeCheck .destroy _ _ | .insertTail .destroy _
  | .shutDown => true
  | _ => false

/-- In `logger_destroy`, after `iShuttingDown` was raised. -/
def closing : ThreadPc → Bool
  | .flushSet .destroy | .flushPoll .destroy _ _ | .cancelThread | .joinThread | .closeStream
  | .freeQueue _ | .resetCount | .finish => true
  | _ => false

/-- In the loop of `logger_destroy` that frees the queue, or past it. -/
def freeing : ThreadPc → Bool
  | .freeQueue _ | .resetCount | .finish => true
  | _ => false

/-- Outside the logger, or in a `logger_flush` of the program. -/
def outside : ThreadPc → Bool
  | .ready _ | .flushSet .program | .flushPoll .program _ _ => true
  | _ => false

/-! Where a thread is in one of these places, it is not in another. -/

variable {pc : ThreadPc}

theorem of_opening (hpc : pc.opening = true) : pc.freeing = false ∧ pc.closing = false := by
  cases pc <;> first | exact ⟨rfl, rfl⟩ | cases hpc

theorem of_closing (hpc : pc.closing = true) :
    pc.opening = false ∧ pc.inLogMsg = false ∧ pc.admitted = false := by
  cases pc <;> first | exact ⟨rfl, rfl, rfl⟩ | cases hpc

theorem of_admitted (hpc : pc.admitted = true) : pc.freeing = false ∧ pc.closing = false := by
  cases pc <;> first | exact ⟨rfl, rfl⟩ | cases hpc

theorem of_inLogMsg (hpc : pc.inLogMsg = true) : pc.freeing = false ∧ pc ≠ .destroyEntry := by
  cases pc <;> first | exact ⟨rfl, ThreadPc.noConfusion⟩ | cases hpc

theorem closing_of_freeing (hpc : pc.freeing = true) : pc.closing = true := by
  cases pc <;> first | rfl | cases hpc

theorem of_outside (hpc : pc.outside = true) :
    pc.freeing = false ∧ pc.opening = false ∧ pc.closing = false ∧ pc.inLogMsg = false ∧
      pc.admitted = false := by
  unfold outside at hpc
  split at hpc
  · exact ⟨rfl, rfl, rfl, rfl, rfl⟩
  · exact ⟨rfl, rfl, rfl, rfl, rfl⟩
  · exact ⟨rfl, rfl, rfl, rfl, rfl⟩
  · cases hpc

end ThreadPc

/-- How `logger_destroy` is called: no other thread is inside `log_msg` or `logger_destroy`, and none
enters `log_msg` before `iShuttingDown` is raised. -/
def QuietDestroy (s : Session p) : Label p → Prop
  | .call i .loggerDestroy => ∀ j, j ≠ i → (s.threads j).inLogMsg = false ∧
      (s.threads j).opening = false ∧ (s.threads j).closing = false
  | .call i (.logMsg _ _) => ∀ j, j ≠ i → (s.threads j).opening = false
  | _ => True

/-- The part of the queue a thread has freed is what was discarded. -/
def FreedOk (queue discarded : List Bytes) : ThreadPc → Prop
  | .freeQueue freed => discarded = queue.take freed
  | .resetCount | .finish => discarded = queue
  | _ => True

/-- What holds while `logger_destroy` is called as promised. -/
structure Quieted (s : Session p) : Prop where
  alone : ∀ i j, i ≠ j → (s.threads i).opening = true ∨ (s.threads i).closing = true →
    (s.threads j).opening = false ∧ (s.threads j).closing = false
  opened : ∀ i j, i ≠ j → (s.threads i).opening = true → (s.threads j).inLogMsg = false
  closing : ∀ i, (s.threads i).closing = true → s.iShuttingDown = true
  shut : s.iShuttingDown = true → ∀ j, (s.threads j).admitted = false
  freed : ∀ i, FreedOk s.queue s.discarded (s.threads i)
  kept : s.iIsInitDone = true → (∀ i, (s.threads i).freeing = false) → s.discarded = []
  closed : s.iIsInitDone = false → s.discarded = s.queue ∧ s.iShuttingDown = true ∧
    ∀ i, (s.threads i).closing = false ∧ ((s.threads i).opening = true → s.threads i = .destroyEntry)

namespace Quieted

theorem loggerInit (settings : LogSettings) (Loglevel : UInt32) (bTerminateProg : Bool) (pid : Nat) :
    Quieted (loggerInit settings Loglevel bTerminateProg pid : Session p) where
  alone i j _ h := by rcases h with h | h <;> cases h
  opened i j _ h := by cases h
  closing i h := by cases h
  shut h := by cases h
  freed i := trivial
  kept _ _ := rfl
  closed h := by cases h

/-- A thread outside the freeing loop goes somewhere outside it: nothing it does may clash with what
another thread is doing. -/
theorem goto (h : Quieted s) (i : Fin p) {pc : ThreadPc} (hi : (s.threads i).freeing = false)
    (hpc : pc.freeing = false)
    (halone : pc.opening = true ∨ pc.closing = true →
      ∀ j, j ≠ i → (s.threads j).opening = false ∧ (s.threads j).closing = false)
    (hopened : pc.opening = true → ∀ j, j ≠ i → (s.threads j).inLogMsg = false)
    (hlogging : pc.inLogMsg = true → ∀ j, j ≠ i → (s.threads j).opening = false)
    (hclosing : pc.closing = true → s.iShuttingDown = true)
    (hadmitted : pc.admitted = true → s.iShuttingDown = false)
    (hclosed : s.iIsInitDone = false → pc.closing = false ∧ (pc.opening = true → pc = .destroyEntry)) :
    Quieted (s.goto i pc) where
  alone j k hjk hj := by
    by_cases hji : j = i
    · subst hji
      simpa [hjk.symm] using halone (by simpa using hj) k hjk.symm
    · have hj' : (s.threads j).opening = true ∨ (s.threads j).closing = true := by
        simpa [hji] using hj
      by_cases hki : k = i
      · subst hki
        simp only [Session.goto_threads, Function.update_self]
        by_contra hclash
        have hk : pc.opening = true ∨ pc.closing = true := by
          simpa only [not_and_or, Bool.not_eq_false] using hclash
        obtain ⟨hno, hno'⟩ := halone hk j hji
        rcases hj' with hj' | hj'
        · exact Bool.false_ne_true (hno.symm.trans hj')
        · exact Bool.false_ne_true (hno'.symm.trans hj')
      · simpa [hki] using h.alone j k hjk hj'
  opened j k hjk hj := by
    by_cases hji : j = i
    · subst hji
      simpa [hjk.symm] using hopened (by simpa using hj) k hjk.symm
    · have hj' : (s.threads j).opening = true := by simpa [hji] using hj
      by_cases hki : k = i
      · subst hki
        simp only [Session.goto_threads, Function.update_self]
        by_contra hclash
        have hno := hlogging (by simpa using hclash) j hji
        exact Bool.false_ne_true (hno.symm.trans hj')
      · simpa [hki] using h.opened j k hjk hj'
  closing j hj := by
    by_cases hji : j = i
    · subst hji
      exact hclosing (by simpa using hj)
    · exact h.closing j (by simpa [hji] using hj)
  shut hshut j := by
    by_cases hji : j = i
    · subst hji
      simp only [Session.goto_threads, Function.update_self]
      by_contra hclash
      have hno := hadmitted (by simpa using hclash)
      exact absurd (show s.iShuttingDown = true from hshut) (by simp [hno])
    · simpa [hji] using h.shut hshut j
  freed j := by
    by_cases hji : j = i
    · subst hji
      simp only [Session.goto_threads, Function.update_self]
      cases pc <;> trivial
    · simpa [hji] using h.freed j
  kept hopen hfree := by
    refine h.kept hopen fun j => ?_
    by_cases hji : j = i
    · subst hji
      exact hi
    · simpa [hji] using hfree j
  closed hclosed' := by
    obtain ⟨hdiscarded, hshut, hothers⟩ := h.closed hclosed'
    refine ⟨hdiscarded, hshut, fun j => ?_⟩
    by_cases hji : j = i
    · subst hji
      simpa using hclosed hclosed'
    · simpa [hji] using hothers j

/-- A thread outside `log_msg` and `logger_destroy` clashes with nobody. -/
theorem goOutside (h : Quieted s) (i : Fin p) {pc : ThreadPc} (hi : (s.threads i).freeing = false)
    (hpc : pc.outside = true) : Quieted (s.goto i pc) := by
  obtain ⟨hfreeing, hopening, hclosing, hlogging, hadmitted⟩ := ThreadPc.of_outside hpc
  apply h.goto i hi hfreeing
  · simp [hopening, hclosing]
  · simp [hopening]
  · simp [hlogging]
  · simp [hclosing]
  · simp [hadmitted]
  · simp [hopening, hclosing]

/-- The thread in `logger_destroy` goes on before `iShuttingDown` is raised. -/
theorem stayOpening (h : Quieted s) (i : Fin p) {pc : ThreadPc}
    (hi : (s.threads i).opening = true) (hpc : pc.opening = true)
    (hadmitted : pc.admitted = true → s.iShuttingDown = false) (hopen : s.iIsInitDone = true) :
    Quieted (s.goto i pc) := by
  have hnotFreeing := (ThreadPc.of_opening hi).1
  obtain ⟨hpcFreeing, hpcClosing⟩ := ThreadPc.of_opening hpc
  have halone : ∀ j, j ≠ i → (s.threads j).opening = false ∧ (s.threads j).closing = false :=
    fun j hji => h.alone i j hji.symm (.inl hi)
  refine h.goto i hnotFreeing hpcFreeing (fun _ => halone) (fun _ j hji => h.opened i j hji.symm hi)
    (fun _ j hji => (halone j hji).1) ?_ hadmitted ?_
  · simp [hpcClosing]
  · simp [hopen]

/-- Inside `logger_destroy` the session is open, its first test apart. -/
theorem isOpen (h : Quieted s) (hi : (s.threads i).opening = true)
    (hentry : s.threads i ≠ .destroyEntry) : s.iIsInitDone = true := by
  by_contra hclosed
  exact hentry (((h.closed (by simpa using hclosed)).2.2 i).2 hi)

theorem isOpen_of_closing (h : Quieted s) (hi : (s.threads i).closing = true) :
    s.iIsInitDone = true := by
  by_contra hclosed
  have hno := ((h.closed (by simpa using hclosed)).2.2 i).1
  exact Bool.false_ne_true (hno.symm.trans hi)

/-- The thread in `logger_destroy` goes on between raising `iShuttingDown` and freeing the queue. -/
theorem stayClosing (h : Quieted s) (i : Fin p) {pc : ThreadPc}
    (hi : (s.threads i).closing = true) (hfree : (s.threads i).freeing = false)
    (hpc : pc.closing = true) (hpcFree : pc.freeing = false) : Quieted (s.goto i pc) := by
  obtain ⟨hopening, hlogging, hadmitted⟩ := ThreadPc.of_closing hpc
  refine h.goto i hfree hpcFree (fun _ j hji => h.alone i j hji.symm (.inr hi)) ?_ ?_
    (fun _ => h.closing i hi) ?_ ?_
  · simp [hopening]
  · simp [hlogging]
  · simp [hadmitted]
  · simp [h.isOpen_of_closing hi]

theorem returnLog (h : Quieted s) (i : Fin p) (caller : Caller) (iRet : LogRet)
    (hfree : (s.threads i).freeing = false)
    (hdestroy : caller = .destroy →
      (s.threads i).opening = true ∧ s.threads i ≠ .destroyEntry) :
    Quieted (s.goto i (caller.afterLog iRet)) := by
  cases caller with
  | program => exact h.goOutside i hfree rfl
  | destroy =>
      obtain ⟨hopening, hentry⟩ := hdestroy rfl
      exact h.stayOpening i hopening rfl (by simp [Caller.afterLog, ThreadPc.admitted])
        (h.isOpen hopening hentry)

/-- `log_msg` goes on behind `is_msg_allowed`. -/
theorem goBehindCheck (h : Quieted s) (i : Fin p) {pc : ThreadPc} (hi : (s.threads i).inLogMsg = true)
    (hpc : pc.admitted = true) (hopening : pc.opening = (s.threads i).opening)
    (hshut : s.iShuttingDown = false) : Quieted (s.goto i pc) := by
  obtain ⟨hfree, hentry⟩ := ThreadPc.of_inLogMsg hi
  obtain ⟨hpcFree, hpcClosing⟩ := ThreadPc.of_admitted hpc
  have hothers : ∀ j, j ≠ i → (s.threads j).opening = false := by
    intro j hji
    by_contra hj
    have hno := h.opened j i hji (by simpa using hj)
    exact Bool.false_ne_true (hno.symm.trans hi)
  refine h.goto i hfree hpcFree ?_ ?_ (fun _ => hothers) (by simp [hpcClosing]) (fun _ => hshut) ?_
  · rintro (hopen | hclosing)
    · exact fun j hji => h.alone i j hji.symm (.inl (hopening ▸ hopen))
    · exact absurd (hpcClosing.symm.trans hclosing) Bool.false_ne_true
  · exact fun hopen j hji => h.opened i j hji.symm (hopening ▸ hopen)
  · intro hclosed
    refine ⟨hpcClosing, fun hopen => ?_⟩
    have hisOpen := h.isOpen (hopening ▸ hopen) hentry
    exact absurd (hclosed.symm.trans hisOpen) Bool.false_ne_true

/-- While a thread is past `is_msg_allowed` nothing is being freed. -/
theorem not_shut (h : Quieted s) (hi : (s.threads i).admitted = true) : s.iShuttingDown = false := by
  by_contra hshut
  have hno := h.shut (by simpa using hshut) i
  exact Bool.false_ne_true (hno.symm.trans hi)

/-- The entry a thread inserts does not disturb what is freed: nothing is. -/
theorem insert (h : Quieted s) (hi : (s.threads i).admitted = true) (msg : Bytes) :
    Quieted (s.insert msg) := by
  have hshut := h.not_shut hi
  have hfree : ∀ j, (s.threads j).freeing = false := by
    intro j
    by_contra hj
    have hyes := h.closing j (ThreadPc.closing_of_freeing (by simpa using hj))
    exact Bool.false_ne_true (hshut.symm.trans hyes)
  refine ⟨h.alone, h.opened, h.closing, h.shut, fun j => ?_, h.kept, fun hclosed => ?_⟩
  · show FreedOk _ _ (s.threads j)
    cases hj : s.threads j <;> first | trivial | (have hno := hfree j; rw [hj] at hno; cases hno)
  · have hyes := (h.closed hclosed).2.1
    exact absurd (hshut.symm.trans hyes) Bool.false_ne_true

theorem shutDown (h : Quieted s) (hpc : s.threads i = .shutDown) :
    Quieted ({ s with iShuttingDown := true }.goto i (.flushSet .destroy)) := by
  have hopening : (s.threads i).opening = true := by rw [hpc]; rfl
  have hopen := h.isOpen hopening (by rw [hpc]; simp)
  have hshut : Quieted { s with iShuttingDown := true } := by
    refine ⟨h.alone, h.opened, fun _ _ => rfl, fun _ j => ?_, h.freed, h.kept, fun hclosed => ?_⟩
    · by_cases hji : j = i
      · subst hji
        show (s.threads j).admitted = false
        rw [hpc]
        rfl
      · have hno : (s.threads j).inLogMsg = false := h.opened i j (Ne.symm hji) hopening
        show (s.threads j).admitted = false
        cases hj : s.threads j <;> rw [hj] at hno <;> first | rfl | cases hno
    · rw [show s.iIsInitDone = false from hclosed] at hopen
      cases hopen
  refine hshut.goto i (show (s.threads i).freeing = false by rw [hpc]; rfl) rfl
    (fun _ j hji => h.alone i j hji.symm (.inl hopening)) (by simp [ThreadPc.opening])
    (by simp [ThreadPc.inLogMsg]) (fun _ => rfl) (by simp [ThreadPc.admitted]) ?_
  simp [hopen]

theorem free (h : Quieted s) (hi : (s.threads i).closing = true) (pc : ThreadPc)
    (hpc : pc.freeing = true) (discarded : List Bytes) (hfreed : FreedOk s.queue discarded pc) :
    Quieted ({ s with discarded := discarded }.goto i pc) := by
  have hopen := h.isOpen_of_closing hi
  obtain ⟨hopening, -, hadmitted⟩ := ThreadPc.of_closing (ThreadPc.closing_of_freeing hpc)
  have halone : ∀ j, j ≠ i → (s.threads j).opening = false ∧ (s.threads j).closing = false :=
    fun j hji => h.alone i j hji.symm (.inr hi)
  constructor
  · intro j k hjk hj
    by_cases hji : j = i
    · subst hji
      simpa [hjk.symm] using halone k hjk.symm
    · obtain ⟨hno, hno'⟩ := halone j hji
      simp [hji, hno, hno'] at hj
  · intro j k hjk hj
    by_cases hji : j = i
    · subst hji
      simp [hopening] at hj
    · simp [hji, (halone j hji).1] at hj
  · intro j _
    exact h.closing i hi
  · intro hshut j
    by_cases hji : j = i
    · subst hji
      simpa using hadmitted
    · simpa [hji] using h.shut hshut j
  · intro j
    by_cases hji : j = i
    · subst hji
      simpa using hfreed
    · have hno := (halone j hji).2
      simp only [Session.goto_threads, ne_eq, hji, not_false_eq_true, Function.update_of_ne]
      cases hj : s.threads j <;> first | trivial | (rw [hj] at hno; cases hno)
  · intro _ hfree
    have hno := hfree i
    simp [hpc] at hno
  · intro hclosed
    rw [show s.iIsInitDone = false from hclosed] at hopen
    cases hopen

theorem finish (h : Quieted s) (hpc : s.threads i = .finish) :
    Quieted ({ s with iIsInitDone := false }.goto i (.ready .exitSuccess)) := by
  have hclosing : (s.threads i).closing = true := by rw [hpc]; rfl
  have halone : ∀ j, j ≠ i → (s.threads j).opening = false ∧ (s.threads j).closing = false :=
    fun j hji => h.alone i j hji.symm (.inr hclosing)
  have hdiscarded := h.freed i
  rw [hpc] at hdiscarded
  have hquiet : ∀ j, (Function.update s.threads i (.ready .exitSuccess) j).opening = false ∧
      (Function.update s.threads i (.ready .exitSuccess) j).closing = false := by
    intro j
    by_cases hji : j = i
    · subst hji
      simp [ThreadPc.opening, ThreadPc.closing]
    · simpa [hji] using halone j hji
  constructor
  · intro j k _ _
    exact hquiet k
  · intro j k _ hj
    exact absurd ((hquiet j).1.symm.trans hj) Bool.false_ne_true
  · intro j hj
    exact absurd ((hquiet j).2.symm.trans hj) Bool.false_ne_true
  · intro hshut j
    by_cases hji : j = i
    · subst hji
      simp [ThreadPc.admitted]
    · simpa [hji] using h.shut hshut j
  · intro j
    by_cases hji : j = i
    · subst hji
      simp [FreedOk]
    · simpa [hji] using h.freed j
  · intro hopen
    cases hopen
  · intro _
    refine ⟨hdiscarded, h.closing i hclosing, fun j => ⟨(hquiet j).2, fun hj => ?_⟩⟩
    exact absurd ((hquiet j).1.symm.trans hj) Bool.false_ne_true

/-! ### The steps of a session -/

theorem of_threadMove (h : Quieted s) (hmove : ThreadMove s i t) : Quieted t := by
  cases hmove with
  | refused caller eType text hpc hno =>
      refine h.returnLog i caller _ (by rw [hpc]; rfl) ?_
      rintro rfl
      exact ⟨by rw [hpc]; rfl, by rw [hpc]; simp⟩
  | allowed caller eType text hpc hyes =>
      have hshut : s.iShuttingDown = false := by
        by_contra hshut
        simp only [Session.isMsgAllowed] at hyes
        split_ifs at hyes
        simp_all
      exact h.goBehindCheck i (by rw [hpc]; rfl) rfl (by rw [hpc]; cases caller <;> rfl) hshut
  | full caller eType text hpc hfull =>
      refine h.returnLog i caller _ (by rw [hpc]; rfl) ?_
      rintro rfl
      exact ⟨by rw [hpc]; rfl, by rw [hpc]; simp⟩
  | formatted caller eType text msg hpc hroom =>
      have hshut : s.iShuttingDown = false := h.not_shut (i := i) (by rw [hpc]; rfl)
      exact h.goBehindCheck i (by rw [hpc]; rfl) rfl (by rw [hpc]; cases caller <;> rfl) hshut
  | lockFailed caller msg hpc =>
      refine h.returnLog i caller _ (by rw [hpc]; rfl) ?_
      rintro rfl
      exact ⟨by rw [hpc]; rfl, by rw [hpc]; simp⟩
  | insert caller msg iRet hpc =>
      have hinserted : Quieted (s.insert msg) := h.insert (i := i) (by rw [hpc]; rfl) msg
      refine hinserted.returnLog i caller _ (show (s.threads i).freeing = false by rw [hpc]; rfl) ?_
      rintro rfl
      exact ⟨show (s.threads i).opening = true by rw [hpc]; rfl,
        show s.threads i ≠ .destroyEntry by rw [hpc]; simp⟩
  | flushSet caller hpc =>
      have hflag : Quieted { s with iDoForceFlush := true } :=
        ⟨h.alone, h.opened, h.closing, h.shut, h.freed, h.kept, h.closed⟩
      have hfree : (s.threads i).freeing = false := by rw [hpc]; rfl
      cases caller with
      | program => exact hflag.goOutside i hfree rfl
      | destroy =>
          exact hflag.stayClosing i (show (s.threads i).closing = true by rw [hpc]; rfl) hfree rfl rfl
  | flushed caller MaxLoops polls hpc hleave =>
      have hfree : (s.threads i).freeing = false := by rw [hpc]; rfl
      cases caller with
      | program => exact h.goOutside i hfree rfl
      | destroy => exact h.stayClosing i (by rw [hpc]; rfl) hfree rfl rfl
  | polled caller MaxLoops polls hpc hcount =>
      have hfree : (s.threads i).freeing = false := by rw [hpc]; rfl
      cases caller with
      | program => exact h.goOutside i hfree rfl
      | destroy => exact h.stayClosing i (by rw [hpc]; rfl) hfree rfl rfl
  | destroying text hpc hopen =>
      exact h.stayOpening i (by rw [hpc]; rfl) rfl (by simp [ThreadPc.admitted]) hopen
  | noInit hpc hclosed => exact h.goOutside i (by rw [hpc]; rfl) rfl
  | shutDown hpc => exact h.shutDown hpc
  | cancelThread hpc =>
      have hflag : Quieted { s with cancelRequested := true } :=
        ⟨h.alone, h.opened, h.closing, h.shut, h.freed, h.kept, h.closed⟩
      exact hflag.stayClosing i (show (s.threads i).closing = true by rw [hpc]; rfl)
        (show (s.threads i).freeing = false by rw [hpc]; rfl) rfl rfl
  | joined hpc hwriter => exact h.stayClosing i (by rw [hpc]; rfl) (by rw [hpc]; rfl) rfl rfl
  | closeStream hpc =>
      have hclosing : (s.threads i).closing = true := by rw [hpc]; rfl
      have hnone : s.discarded = [] := by
        refine h.kept (h.isOpen_of_closing hclosing) fun j => ?_
        by_cases hji : j = i
        · subst hji
          rw [hpc]
          rfl
        · have hno := (h.alone i j (Ne.symm hji) (.inr hclosing)).2
          by_contra hj
          exact absurd (hno.symm.trans (ThreadPc.closing_of_freeing (by simpa using hj))) Bool.false_ne_true
      have hfile : Quieted (s.closeFile s.writer) :=
        ⟨h.alone, h.opened, h.closing, h.shut, h.freed, h.kept, h.closed⟩
      exact hfile.free hclosing (.freeQueue 0) rfl s.discarded (by simp [FreedOk, hnone])
  | freeEntry freed msg hpc hmsg =>
      have hdiscarded := h.freed i
      rw [hpc] at hdiscarded
      refine h.free (by rw [hpc]; rfl) _ rfl _ ?_
      show s.discarded ++ [msg] = s.queue.take (freed + 1)
      rw [List.take_add_one, hmsg, show s.discarded = s.queue.take freed from hdiscarded]
      rfl
  | freedAll freed hpc hend =>
      have hdiscarded := h.freed i
      rw [hpc] at hdiscarded
      refine h.free (by rw [hpc]; rfl) .resetCount rfl s.discarded ?_
      show s.discarded = s.queue
      rw [show s.discarded = s.queue.take freed from hdiscarded,
        List.take_of_length_le (List.getElem?_eq_none_iff.mp hend)]
  | resetCount hpc =>
      have hcount : Quieted { s with iDataInQueueCount := 0 } :=
        ⟨h.alone, h.opened, h.closing, h.shut, h.freed, h.kept, h.closed⟩
      have hdiscarded := h.freed i
      rw [hpc] at hdiscarded
      exact hcount.free (show (s.threads i).closing = true by rw [hpc]; rfl) .finish rfl s.discarded
        hdiscarded
  | finish hpc => exact h.finish hpc

theorem of_callMove (h : Quieted s) {op : Call} (hquiet : QuietDestroy s (.call i op))
    (hmove : CallMove s i op t) : Quieted t := by
  cases hmove with
  | logMsg iRet eType text hpc =>
      exact h.goto i (by rw [hpc]; rfl) rfl (by simp [ThreadPc.opening, ThreadPc.closing])
        (by simp [ThreadPc.opening]) (fun _ => hquiet) (by simp [ThreadPc.closing])
        (by simp [ThreadPc.admitted]) (by simp [ThreadPc.opening, ThreadPc.closing])
  | loggerFlush iRet hpc => exact h.goOutside i (by rw [hpc]; rfl) rfl
  | loggerSet iRet settings hpc =>
      have hset : Quieted { s with sCurrLogSettings := settings } :=
        ⟨h.alone, h.opened, h.closing, h.shut, h.freed, h.kept, h.closed⟩
      exact hset.goOutside i (show (s.threads i).freeing = false by rw [hpc]; rfl) rfl
  | loggerDestroy iRet hpc =>
      exact h.goto i (by rw [hpc]; rfl) rfl (fun _ j hji => (hquiet j hji).2)
        (fun _ j hji => (hquiet j hji).1) (by simp [ThreadPc.inLogMsg]) (by simp [ThreadPc.closing])
        (by simp [ThreadPc.admitted]) (by simp [ThreadPc.closing])

/-- The writer only runs while nothing is being freed. -/
theorem of_writerMove (h : Quieted s) (hacc : Accounted s) (hmove : WriterMove s t) : Quieted t := by
  have hframe := hmove.frame
  have hfreed : ∀ j, FreedOk t.queue t.discarded (s.threads j) := by
    intro j
    have hno := hacc.not_hasJoined hmove.not_cancelled j
    cases hj : s.threads j <;> first | trivial | (rw [hj] at hno; cases hno)
  have hopen := hacc.isOpen hmove.not_cancelled
  constructor
  · rw [hframe.threads]; exact h.alone
  · rw [hframe.threads]; exact h.opened
  · rw [hframe.threads, hframe.iShuttingDown]; exact h.closing
  · rw [hframe.threads, hframe.iShuttingDown]; exact h.shut
  · rw [hframe.threads]; exact hfreed
  · rw [hframe.threads, hframe.iIsInitDone, hframe.discarded]; exact h.kept
  · rw [hframe.iIsInitDone, hopen]
    intro hclosed
    cases hclosed

theorem of_step (h : Quieted s) (hacc : Accounted s) {l : Label p} (hquiet : QuietDestroy s l)
    (hstep : (session p).step s l = some t) : Quieted t := by
  have hsame : ∀ {u : Session p}, Quieted u → ∀ w x, Quieted { u with writer := w, exited := x } :=
    fun hu _ _ => ⟨hu.alone, hu.opened, hu.closing, hu.shut, hu.freed, hu.kept, hu.closed⟩
  cases sessionStep_cases hstep with
  | exit o => exact hsame h s.writer true
  | writer o u hmove => exact h.of_writerMove hacc hmove
  | writerExit o u hmove => exact hsame (h.of_writerMove hacc hmove) u.writer true
  | cancel hrequest hpc => exact hsame h .cancelled s.exited
  | call i op t hmove => exact h.of_callMove hquiet hmove
  | thread i acTime o t hmove => exact h.of_threadMove hmove

end Quieted

def WellUsed (s : Session p) (l : Label p) : Prop := SettingsKept s l ∧ QuietDestroy s l

theorem quieted_of_reachable (hs : Transition.Reachable (session p) WellUsed s) : Quieted s := by
  refine hs.invariant_over (fun _ h => accounted_of_reachable (h.mono fun _ _ hl => hl.1)) ?_
    fun _ _ _ hacc h hl hstep => h.of_step hacc hl.2 hstep
  rintro s ⟨settings, Loglevel, bTerminateProg, pid, hsettings, rfl⟩
  exact Quieted.loggerInit settings Loglevel bTerminateProg pid

/-- What has been written, what is in the writer's hand and what is queued is what was inserted, in
order, in every state of every session; and once `logger_destroy` has returned, the file holds the
first part of what was inserted and what was freed is exactly the rest. -/
theorem log_fifo (p : Nat) :
    (∀ s : Session p, Transition.Reachable (session p) SettingsKept s →
      s.written ++ s.writer.inHand ++ s.queue = s.inserted) ∧
    (∀ s : Session p, Transition.Reachable (session p) WellUsed s → s.iIsInitDone = false →
      s.logfile <+: s.inserted ∧ s.logfile ++ s.discarded = s.inserted) := by
  have hconserved : ∀ s : Session p, Transition.Reachable (session p) SettingsKept s →
      s.written ++ s.writer.inHand ++ s.queue = s.inserted := by
    intro s hs
    obtain ⟨c, -, hcarries⟩ := session_refines_channel hs
    rw [List.append_assoc, ← hcarries.received, ← hcarries.inFlight, ← hcarries.sent, c.conserved]
  refine ⟨hconserved, fun s hs hclosed => ?_⟩
  have hs' : Transition.Reachable (session p) SettingsKept s := hs.mono fun _ _ hl => hl.1
  have hwriter := (accounted_of_reachable hs').closed hclosed
  have hstream := streamOk_of_reachable hs'
  have hfreed := ((quieted_of_reachable hs).closed hclosed).1
  have hall := hconserved s hs'
  have hnone : s.LogfileFd = none := by
    rw [StreamOk, hwriter] at hstream
    simpa [WriterPc.hasStream] using hstream
  rw [Session.written, hnone, hwriter] at hall
  simp only [Option.getD_none, List.append_nil, WriterPc.inHand] at hall
  rw [hfreed]
  exact ⟨⟨s.queue, hall⟩, hall⟩

/-- One message is logged and written, a second is logged, and `logger_destroy` gives up waiting for
`logger_thread` after its polls. -/
def destroyWithBacklog : List (Label 1) :=
  logsError (Bytes.ascii "first") ++ writerMoves 9 ++ logsError (Bytes.ascii "second")
    ++ .call onlyThread .loggerDestroy :: threadMoves 26 ++ .cancel :: threadMoves 6

theorem log_fifo_backlog :
    ∃ s : Session 1, Transition.Reachable (session 1) WellUsed s ∧ s.iIsInitDone = false ∧
      s.logfile = [Bytes.ascii "now : Error : first\n"] ∧
      s.discarded = [Bytes.ascii "now : Error : second\n"] ∧
      s.logfile <+: s.inserted ∧ s.logfile ++ s.discarded = s.inserted ∧
      s.written ++ s.writer.inHand ++ s.queue = s.inserted := by
  have hinit : Transition.Reachable (session 1) WellUsed
      (loggerInit LogSettings.default LoggerType.eERROR.value false 1) :=
    .init ⟨LogSettings.default, _, _, _, ⟨by decide, by decide⟩, rfl⟩
  obtain ⟨s, hrun, hclosed, hfile, hdiscarded⟩ : ∃ s : Session 1, (session 1).run
      (loggerInit LogSettings.default LoggerType.eERROR.value false 1) destroyWithBacklog = some s ∧
      s.iIsInitDone = false ∧ s.logfile = [Bytes.ascii "now : Error : first\n"] ∧
      s.discarded = [Bytes.ascii "now : Error : second\n"] :=
    ⟨_, rfl, by decide, by decide, by decide⟩
  have hpromise : ∀ l ∈ destroyWithBacklog, ∀ s, WellUsed s l := by
    have halone : ∀ j : Fin 1, j = 0 := fun j => Subsingleton.elim j 0
    simp [destroyWithBacklog, logsError, threadMoves, writerMoves, WellUsed, SettingsKept, QuietDestroy,
      halone]
  have hs := hinit.run hpromise hrun
  obtain ⟨hprefixed, hall⟩ := (log_fifo 1).2 s hs hclosed
  exact ⟨s, hs, hclosed, hfile, hdiscarded, hprefixed, hall,
    (log_fifo 1).1 s (hs.mono fun _ _ hl => hl.1)⟩

/-! ### A message that comes too late -/

def Label.succeeds : Label p → Prop
  | .writer o | .thread _ _ o => o = .ok
  | .cancel | .call _ _ => True

/-- No other thread is inside `log_msg` when `logger_destroy` is called. What they call afterwards is
left open. -/
def AloneAtCall (s : Session p) : Label p → Prop
  | .call i .loggerDestroy => ∀ j, j ≠ i → (s.threads j).inLogMsg = false
  | _ => True

/-- Nothing fails, and `logger_destroy` is called when nobody else is inside `log_msg`. -/
def CalledAlone (s : Session p) (l : Label p) : Prop :=
  SettingsKept s l ∧ l.succeeds ∧ AloneAtCall s l

/-- From the call of `logger_destroy`: the second thread calls `log_msg` when the first has not raised
`iShuttingDown` yet, and inserts its entry when the queue has been freed. -/
def lateInsertion : List (Label 2) :=
  let destroys := Label.thread (0 : Fin 2) (Bytes.ascii "now") .ok
  let logs := Label.thread (1 : Fin 2) (Bytes.ascii "now") .ok
  [destroys, .call 1 (.logMsg .eERROR (Bytes.ascii "late")), logs, logs]
    ++ List.replicate 5 destroys ++ [.cancel] ++ List.replicate 3 destroys ++ [logs]
    ++ List.replicate 2 destroys

theorem log_fifo_late :
    ¬ ∀ (p : Nat) (s : Session p),
      Transition.Reachable (session p) CalledAlone s →
      s.iIsInitDone = false → s.logfile <+: s.inserted ∧ s.logfile ++ s.discarded = s.inserted := by
  intro hclaim
  have hinit : Transition.Reachable (session 2) CalledAlone
      (loggerInit LogSettings.default LoggerType.eERROR.value false 1) :=
    .init ⟨LogSettings.default, _, _, _, ⟨by decide, by decide⟩, rfl⟩
  obtain ⟨called, s, hcall, hrun, hclosed, hfile, hdiscarded, hinserted⟩ : ∃ called s : Session 2,
      (session 2).step (loggerInit LogSettings.default LoggerType.eERROR.value false 1)
        (.call 0 .loggerDestroy) = some called ∧
      (session 2).run called lateInsertion = some s ∧
      s.iIsInitDone = false ∧ s.logfile = [] ∧ s.discarded = [] ∧
      s.inserted = [Bytes.ascii "now : Error : late\n"] :=
    ⟨_, _, rfl, rfl, by decide, by decide, by decide, by decide⟩
  have hquiet : AloneAtCall (loggerInit LogSettings.default LoggerType.eERROR.value false 1 : Session 2)
      (.call 0 .loggerDestroy) := fun _ _ => rfl
  have hpromise : ∀ l ∈ lateInsertion, ∀ s, CalledAlone s l := by
    simp [lateInsertion, CalledAlone, SettingsKept, Label.succeeds, AloneAtCall]
  have hcalled : Transition.Reachable (session 2) CalledAlone called :=
    .step (l := .call 0 .loggerDestroy) hinit ⟨trivial, trivial, hquiet⟩ hcall
  have hs := hcalled.run hpromise hrun
  have hall := (hclaim 2 s hs hclosed).2
  rw [hfile, hdiscarded, hinserted] at hall
  cases hall

end CewServer.Logger
