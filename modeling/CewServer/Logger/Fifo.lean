import CewServer.Logger.Accounting
import CewServer.Lib.Channel

/-!
# The log file receives what was inserted, in order

A session is a first-in first-out channel from the callers of `log_msg` to the log file. An insertion
is a `send` and an `fwrite` a `deliver`; every other step, the removal of the head included, leaves
the channel as it is. That needs the two invariants a batch lives by: the message read from the head
without the mutex is still the head when it is removed, and the stream is open whenever `fwrite` is
called.

`logger_destroy` cuts the channel off. No other thread is to be inside `log_msg` when it is called,
nor to enter it before `iShuttingDown` is raised: then what it frees is what had not been written.
-/

namespace CewServer.Logger

variable {p : Nat} {s t : Session p} {i : Fin p}

/-- The messages passed to `fwrite`, on disk or in the buffer of the stream. -/
def Session.written (s : Session p) : List Bytes := s.logfile ++ s.LogfileFd.getD []

/-- The message removed from the queue and not yet written. -/
def WriterPc.inHand : WriterPc → List Bytes
  | .writeEntry _ LogMessage => [LogMessage]
  | _ => []

/-! ### The stream -/

/-- Between `fopen` and `fclose`. -/
def WriterPc.hasStream : WriterPc → Bool
  | .bodyTop _ | .removeHead _ _ | .writeEntry _ _ | .flushFile _ | .closeFile _ => true
  | _ => false

/-- `LogfileFd` is set exactly while a batch has the file open. -/
def StreamOk (s : Session p) : Prop := s.LogfileFd.isSome = s.writer.hasStream

theorem StreamOk.of_writerMove (h : StreamOk s) (hmove : WriterMove s t) : StreamOk t := by
  unfold StreamOk at *
  cases hmove with
  | idle w hidle hw =>
      rcases hidle with hpc | hpc <;> rcases hw with rfl | rfl <;> rw [hpc] at h <;> exact h
  | snapshotCount hpc =>
      rw [hpc] at h
      unfold Session.snapshotCount
      split <;> exact h
  | openFile b hpc => rfl
  | peekHead b hpc =>
      rw [hpc] at h
      unfold Session.peekHead
      split
      · rw [hpc]
        exact h
      · exact h
  | removeHead b msg hpc =>
      rw [hpc] at h
      exact h
  | writeEntry b msg hpc =>
      rw [hpc] at h
      unfold Session.writeEntry
      simp only [Option.isSome_map, h]
      split <;> rfl
  | flushFile b hpc =>
      rw [hpc] at h
      simp only [Session.flushFile, Option.isSome_map]
      exact h
  | closeFile b hpc => rfl
  | updateCount b hpc =>
      rw [hpc] at h
      exact h

theorem StreamOk.of_step (hs : Accounted s) (h : StreamOk s) {l : Label p}
    (hstep : (session p).step s l = some t) : StreamOk t := by
  cases sessionStep_cases hstep with
  | exit o => exact h
  | writer o u hmove => exact h.of_writerMove hmove
  | writerExit o u hmove =>
      have hu := h.of_writerMove hmove
      exact hu
  | cancel hrequest hpc =>
      unfold StreamOk at *
      rw [hpc] at h
      exact h
  | call i op t hmove => cases hmove <;> exact h
  | thread i acTime o t hmove =>
      cases hmove with
      | closeStream hpc =>
          have hwriter := hs.joined i (by rw [hpc]; rfl)
          unfold StreamOk
          simp only [Session.goto_LogfileFd, Session.goto_writer, Session.closeFile, hwriter]
          rfl
      | _ => exact h

theorem streamOk_of_reachable (hs : Transition.Reachable (session p) SettingsKept s) :
    StreamOk s := by
  refine hs.invariant_over (fun _ => accounted_of_reachable) ?_
    fun _ _ _ hacc h _ hstep => h.of_step hacc hstep
  rintro s ⟨settings, Loglevel, bTerminateProg, pid, hsettings, rfl⟩
  rfl

/-! ### The session as a channel -/

structure Carries (s : Session p) (c : Channel Bytes) : Prop where
  received : c.received = s.written
  inFlight : c.inFlight = s.writer.inHand ++ s.queue
  sent : c.sent = s.inserted

theorem Carries.stutter {c : Channel Bytes} (h : Carries s c) (hwritten : t.written = s.written)
    (hqueued : t.writer.inHand ++ t.queue = s.writer.inHand ++ s.queue)
    (hinserted : t.inserted = s.inserted) : Carries t c :=
  ⟨by rw [h.received, hwritten], by rw [h.inFlight, hqueued], by rw [h.sent, hinserted]⟩

/-- Each step of the writer is a `deliver` or no step of the channel. -/
theorem Carries.of_writerMove {c : Channel Bytes} (hacc : Accounted s) (hstream : StreamOk s)
    (h : Carries s c) (hmove : WriterMove s t) :
    Carries t c ∨ ∃ d, c.step .deliver = some d ∧ Carries t d := by
  unfold StreamOk at hstream
  cases hmove with
  | idle w hidle hw =>
      refine .inl (h.stutter rfl ?_ rfl)
      rcases hidle with hpc | hpc <;> rcases hw with rfl | rfl <;> rw [hpc] <;> rfl
  | snapshotCount hpc =>
      refine .inl ?_
      unfold Session.snapshotCount
      split <;> exact h.stutter rfl (by rw [hpc]; rfl) rfl
  | openFile b hpc =>
      have hnone : s.LogfileFd = none := by simpa [hpc, WriterPc.hasStream] using hstream
      exact .inl (h.stutter (by simp [Session.written, hnone]) (by rw [hpc]; rfl) rfl)
  | peekHead b hpc =>
      refine .inl ?_
      unfold Session.peekHead
      split
      · exact h.stutter rfl rfl rfl
      · exact h.stutter rfl (by rw [hpc]; rfl) rfl
  | removeHead b msg hpc =>
      -- the entry removed is the one whose message was read before the lock was taken
      have hbatch := hacc.batch
      rw [hpc] at hbatch
      obtain ⟨rest, hqueue⟩ := List.head?_eq_some_iff.mp hbatch.2
      refine .inl (h.stutter rfl ?_ rfl)
      rw [hpc]
      simp only [Session.removeHead, WriterPc.inHand, hqueue, List.tail_cons, List.nil_append,
        List.singleton_append]
  | writeEntry b msg hpc =>
      rw [hpc] at hstream
      obtain ⟨buffer, hbuffer⟩ := Option.isSome_iff_exists.mp hstream
      have hflight : c.inFlight = msg :: s.queue := by
        rw [h.inFlight, hpc]
        rfl
      refine .inr ⟨_, c.step_deliver hflight, ?_, ?_, h.sent⟩
      · show c.received ++ [msg] = _
        rw [h.received]
        simp only [Session.written, Session.writeEntry, hbuffer, Option.map_some, Option.getD_some,
          List.append_assoc]
      · unfold Session.writeEntry
        simp only
        split <;> rfl
  | flushFile b hpc =>
      refine .inl (h.stutter ?_ (by rw [hpc]; rfl) rfl)
      cases hfd : s.LogfileFd <;> simp [Session.written, Session.flushFile, hfd]
  | closeFile b hpc =>
      exact .inl (h.stutter (by simp [Session.written, Session.closeFile]) (by rw [hpc]; rfl) rfl)
  | updateCount b hpc => exact .inl (h.stutter rfl (by rw [hpc]; rfl) rfl)

/-- Each step of another thread is a `send` or no step of the channel. -/
theorem Carries.of_threadMove {c : Channel Bytes} (h : Carries s c) (hmove : ThreadMove s i t) :
    Carries t c ∨ ∃ msg d, c.step (.send msg) = some d ∧ Carries t d := by
  cases hmove with
  | insert caller msg iRet hpc =>
      refine .inr ⟨msg, c.send msg, rfl, h.received, ?_, ?_⟩
      · show c.inFlight ++ [msg] = s.writer.inHand ++ (s.queue ++ [msg])
        rw [h.inFlight, List.append_assoc]
      · show c.sent ++ [msg] = s.inserted ++ [msg]
        rw [h.sent]
  | closeStream hpc =>
      exact .inl (h.stutter (by simp [Session.written, Session.closeFile]) rfl rfl)
  | _ => exact .inl (h.stutter rfl rfl rfl)

/-- Each step of the session is a step of the channel or none. -/
theorem Carries.of_step {c : Channel Bytes} (hacc : Accounted s) (hstream : StreamOk s)
    (h : Carries s c) {l : Label p} (hstep : (session p).step s l = some t) :
    Carries t c ∨ ∃ m d, (Channel.system Bytes).step c m = some d ∧ Carries t d := by
  have hwriter : ∀ u, WriterMove s u → Carries u c ∨
      ∃ m d, (Channel.system Bytes).step c m = some d ∧ Carries u d := fun u hmove =>
    (h.of_writerMove hacc hstream hmove).imp_right fun ⟨d, hd, hcarries⟩ =>
      ⟨.deliver, d, hd, hcarries⟩
  cases sessionStep_cases hstep with
  | exit o => exact .inl (h.stutter rfl rfl rfl)
  | writer o u hmove => exact hwriter _ hmove
  | writerExit o u hmove =>
      exact (hwriter u hmove).imp (fun hu => hu.stutter rfl rfl rfl)
        fun ⟨m, d, hd, hu⟩ => ⟨m, d, hd, hu.stutter rfl rfl rfl⟩
  | cancel hrequest hpc => exact .inl (h.stutter rfl (by rw [hpc]; rfl) rfl)
  | call i op t hmove => cases hmove <;> exact .inl (h.stutter rfl rfl rfl)
  | thread i acTime o t hmove =>
      exact (h.of_threadMove hmove).imp_right fun ⟨msg, d, hd, hcarries⟩ =>
        ⟨.send msg, d, hd, hcarries⟩

theorem session_refines_channel (hs : Transition.Reachable (session p) SettingsKept s) :
    ∃ c, Transition.Reachable (Channel.system Bytes) (fun _ _ => True) c ∧ Carries s c := by
  refine hs.simulates ?_ ?_
  · rintro s ⟨settings, Loglevel, bTerminateProg, pid, hsettings, rfl⟩
    exact ⟨Channel.empty, rfl, rfl, rfl, rfl⟩
  · intro s l t c hs h hkept hstep
    exact (h.of_step (accounted_of_reachable hs) (streamOk_of_reachable hs) hstep).imp_right
      fun ⟨m, d, hd, hcarries⟩ => ⟨m, d, trivial, hd, hcarries⟩

end CewServer.Logger
