import CewServer.Logger.Fifo
import CewServer.Lib.Lines

/-!
# The records of the log file

`log_add_to_queue` makes one record of each message: the time, the level, the text cut to its buffer,
and a newline. Nothing in the text is escaped, and the program itself logs texts of several lines, so
the newlines of the file end the records exactly as long as no text that was written holds one.

Which call a record comes from is not in the session. `Calls` is the history that says it: the call a
thread is in once it has formatted its message, and the calls whose records were queued, in order.
-/

namespace CewServer.Logger

open Transition

variable {p : Nat} {s t : Session p} {i : Fin p}

def newline : UInt8 := 10

/-! ### The time stamp -/

/-- The fields of `struct tm` that the format reads, as `localtime_r` fills them. -/
structure Tm where
  tm_sec : Fin 61
  tm_min : Fin 60
  tm_hour : Fin 24
  tm_mday : Fin 32
  tm_mon : Fin 12
  tm_year : Int
  tm_wday : Fin 7
  tm_gmtoff : Int

namespace Tm

def weekday : Fin 7 → Bytes
  | 0 => Bytes.ascii "Sun"
  | 1 => Bytes.ascii "Mon"
  | 2 => Bytes.ascii "Tue"
  | 3 => Bytes.ascii "Wed"
  | 4 => Bytes.ascii "Thu"
  | 5 => Bytes.ascii "Fri"
  | 6 => Bytes.ascii "Sat"

def month : Fin 12 → Bytes
  | 0 => Bytes.ascii "Jan"
  | 1 => Bytes.ascii "Feb"
  | 2 => Bytes.ascii "Mar"
  | 3 => Bytes.ascii "Apr"
  | 4 => Bytes.ascii "May"
  | 5 => Bytes.ascii "Jun"
  | 6 => Bytes.ascii "Jul"
  | 7 => Bytes.ascii "Aug"
  | 8 => Bytes.ascii "Sep"
  | 9 => Bytes.ascii "Oct"
  | 10 => Bytes.ascii "Nov"
  | 11 => Bytes.ascii "Dec"

def twoDigits (n : Nat) : Bytes := if n < 10 then 48 :: Bytes.digits n else Bytes.digits n

/-- `%z`: the sign, the hours and the minutes east of Greenwich. -/
def zone (tm_gmtoff : Int) : Bytes :=
  (if tm_gmtoff < 0 then 45 else 43)
    :: (twoDigits (tm_gmtoff.natAbs / 3600) ++ twoDigits (tm_gmtoff.natAbs / 60 % 60))

/-- `strftime` with the format `"%a, %d %b %Y %T %z"` in the C locale. -/
def strftime (tz : Tm) : Bytes :=
  weekday tz.tm_wday ++ Bytes.ascii ", " ++ twoDigits tz.tm_mday ++ Bytes.ascii " "
    ++ month tz.tm_mon ++ Bytes.ascii " " ++ Bytes.decimal (tz.tm_year + 1900) ++ Bytes.ascii " "
    ++ twoDigits tz.tm_hour ++ Bytes.ascii ":" ++ twoDigits tz.tm_min ++ Bytes.ascii ":"
    ++ twoDigits tz.tm_sec ++ Bytes.ascii " " ++ zone tz.tm_gmtoff

theorem newline_not_mem_digits (n : Nat) : newline ∉ Bytes.digits n := by
  intro hmem
  exact absurd (Bytes.mem_digits hmem).1 (by decide)

theorem newline_not_mem_decimal (x : Int) : newline ∉ Bytes.decimal x := by
  intro hmem
  rcases Bytes.mem_decimal hmem with hsign | hdigit
  · exact absurd hsign (by decide)
  · exact absurd hdigit.1 (by decide)

theorem newline_not_mem_twoDigits (n : Nat) : newline ∉ twoDigits n := by
  unfold twoDigits
  split
  · rw [List.mem_cons, not_or]
    exact ⟨by decide, newline_not_mem_digits n⟩
  · exact newline_not_mem_digits n

theorem newline_not_mem_zone (tm_gmtoff : Int) : newline ∉ zone tm_gmtoff := by
  unfold zone
  rw [List.mem_cons, List.mem_append, not_or, not_or]
  refine ⟨?_, newline_not_mem_twoDigits _, newline_not_mem_twoDigits _⟩
  split <;> decide

/-- The time stamp is one piece of a line. -/
theorem newline_not_mem_strftime (tz : Tm) : newline ∉ strftime tz := by
  have hweekday : ∀ day, newline ∉ weekday day := by decide
  have hmonth : ∀ mon, newline ∉ month mon := by decide
  have hcomma : newline ∉ Bytes.ascii ", " := by decide
  have hspace : newline ∉ Bytes.ascii " " := by decide
  have hcolon : newline ∉ Bytes.ascii ":" := by decide
  simp only [strftime, List.mem_append, hweekday, hmonth, hcomma, hspace, hcolon,
    newline_not_mem_twoDigits, newline_not_mem_decimal, newline_not_mem_zone, or_self,
    not_false_eq_true]

end Tm

/-! ### Calls and their records -/

/-- A call of `log_msg` that has formatted its message. -/
structure LogCall where
  acTime : Bytes
  eType : LoggerType
  text : Bytes

namespace LogCall

/-- The user's text as the record has it. -/
def cUserMsg (e : LogCall) : Bytes := Logger.cUserMsg e.text

def line (e : LogCall) : Bytes :=
  e.acTime ++ Bytes.ascii " : " ++ pcLogTypeMsg e.eType ++ Bytes.ascii " : " ++ e.cUserMsg

def record (e : LogCall) : Bytes := formatLogMsg e.acTime e.eType e.text

/-- The time stamp is what `strftime` printed. -/
def Timed (e : LogCall) : Prop := ∃ tz : Tm, e.acTime = tz.strftime

theorem record_eq (e : LogCall) : e.record = e.line ++ [newline] := rfl

/-- Of what `log_add_to_queue` prints, only the user's text can hold a newline. -/
theorem newline_mem_line_iff {e : LogCall} (htimed : e.Timed) :
    newline ∈ e.line ↔ newline ∈ e.cUserMsg := by
  obtain ⟨tz, htime⟩ := htimed
  have hstamp : newline ∉ e.acTime := by
    rw [htime]
    exact tz.newline_not_mem_strftime
  have hlevel : newline ∉ pcLogTypeMsg e.eType := by
    cases e.eType <;> decide
  have hcolon : newline ∉ Bytes.ascii " : " := by decide
  simp only [line, List.mem_append, hstamp, hlevel, hcolon, false_or]

end LogCall

/-- The call each thread formatted last, and the calls whose records were queued. -/
structure Calls (p : Nat) where
  formatted : Fin p → Option LogCall
  queued : List LogCall

/-- What a step adds to the history, from the state it is taken in. -/
def Calls.after (c : Calls p) (s : Session p) : Label p → Calls p
  | .thread i acTime o =>
      match s.threads i, o with
      | .sizeCheck _ eType text, _ =>
          { c with formatted := Function.update c.formatted i (some ⟨acTime, eType, text⟩) }
      | .insertTail _ _, .ok | .insertTail _ _, .unlockFailed =>
          { c with queued := c.queued ++ (c.formatted i).toList }
      | _, _ => c
  | _ => c

def calls (p : Nat) : System (Session p × Calls p) (Label p) :=
  (session p).recording ⟨fun _ => none, []⟩ Calls.after

/-- The time a thread reads is one that `strftime` printed. -/
def TimePrinted : Label p → Prop
  | .thread _ acTime _ => ∃ tz : Tm, acTime = tz.strftime
  | _ => True

def Recorded (s : Session p) (l : Label p) : Prop := SettingsKept s l ∧ TimePrinted l

/-- The records of a session come from the calls of its history. -/
structure Traced (s : Session p) (c : Calls p) : Prop where
  inserted : s.inserted = c.queued.map LogCall.record
  timed : ∀ e ∈ c.queued, e.Timed
  formatted : ∀ i caller LogMsg, s.threads i = .insertTail caller LogMsg →
    ∃ e, c.formatted i = some e ∧ e.record = LogMsg ∧ e.Timed

namespace Traced

variable {c : Calls p}

theorem of_same (h : Traced s c) (hinserted : t.inserted = s.inserted)
    (hthreads : t.threads = s.threads) : Traced t c where
  inserted := by rw [hinserted, h.inserted]
  timed := h.timed
  formatted j caller LogMsg hj := h.formatted j caller LogMsg (hthreads ▸ hj)

/-- A thread goes somewhere that is not the insertion. -/
theorem moved (h : Traced s c) (hinserted : t.inserted = s.inserted) {pc : ThreadPc}
    (hthreads : t.threads = Function.update s.threads i pc) (hpc : pc.inserting = false) :
    Traced t c where
  inserted := by rw [hinserted, h.inserted]
  timed := h.timed
  formatted j caller LogMsg hj := by
    rw [hthreads] at hj
    by_cases hji : j = i
    · rw [hji, Function.update_self] at hj
      rw [hj] at hpc
      cases hpc
    · rw [Function.update_of_ne hji] at hj
      exact h.formatted j caller LogMsg hj

/-- Noting the call of a thread that is not at the insertion. -/
theorem noted (h : Traced s c) (hpc : (s.threads i).inserting = false) (e : LogCall) :
    Traced s { c with formatted := Function.update c.formatted i (some e) } where
  inserted := h.inserted
  timed := h.timed
  formatted j caller LogMsg hj := by
    have hji : j ≠ i := by
      rintro rfl
      rw [hj] at hpc
      cases hpc
    simp only [Function.update_of_ne hji]
    exact h.formatted j caller LogMsg hj

/-- A thread with its record formatted goes to the insertion. -/
theorem toInsert (h : Traced s c) {e : LogCall} (he : c.formatted i = some e) (htimed : e.Timed)
    (caller : Caller) : Traced (s.goto i (.insertTail caller e.record)) c where
  inserted := h.inserted
  timed := h.timed
  formatted j caller' LogMsg hj := by
    rw [Session.goto_threads] at hj
    by_cases hji : j = i
    · rw [hji, Function.update_self] at hj
      injection hj with _ hmsg
      rw [hji]
      exact ⟨e, he, hmsg, htimed⟩
    · rw [Function.update_of_ne hji] at hj
      exact h.formatted j caller' LogMsg hj

/-- The record of the call is queued. -/
theorem insert (h : Traced s c) {caller : Caller} {LogMsg : Bytes}
    (hpc : s.threads i = .insertTail caller LogMsg) :
    Traced (s.insert LogMsg) { c with queued := c.queued ++ (c.formatted i).toList } := by
  obtain ⟨e, he, hrecord, htimed⟩ := h.formatted i caller LogMsg hpc
  constructor
  · show s.inserted ++ [LogMsg] = (c.queued ++ (c.formatted i).toList).map LogCall.record
    rw [he, Option.toList_some, List.map_append, List.map_singleton, hrecord, h.inserted]
  · intro other hother
    rw [he, Option.toList_some] at hother
    rcases List.mem_append.mp hother with hbefore | hnew
    · exact h.timed other hbefore
    · rw [List.mem_singleton.mp hnew]
      exact htimed
  · exact h.formatted

/-- No other step of a thread inserts, formats or goes to the insertion. -/
theorem of_otherMove (h : Traced s c) (hmove : ThreadMove s i t)
    (hsize : ∀ caller eType text, s.threads i ≠ .sizeCheck caller eType text)
    (htail : ∀ caller LogMsg, s.threads i ≠ .insertTail caller LogMsg) : Traced t c := by
  cases hmove with
  | refused caller eType text hpc hno => exact h.moved rfl rfl (by simp)
  | full caller eType text hpc hfull => exact absurd hpc (hsize _ _ _)
  | formatted caller eType text msg hpc hroom => exact absurd hpc (hsize _ _ _)
  | lockFailed caller msg hpc => exact absurd hpc (htail _ _)
  | insert caller msg iRet hpc => exact absurd hpc (htail _ _)
  | flushed caller MaxLoops polls hpc hleave => exact h.moved rfl rfl (by simp)
  | _ => exact h.moved rfl rfl rfl

theorem of_threadStep (h : Traced s c) {acTime : Bytes} {o : Outcome}
    (hprinted : ∃ tz : Tm, acTime = tz.strftime) (hstep : threadStep s i acTime o = some t) :
    Traced t (c.after s (.thread i acTime o)) := by
  cases hpc : s.threads i with
  | sizeCheck caller eType text =>
      have hnoted := h.noted (i := i) (by rw [hpc]; rfl) ⟨acTime, eType, text⟩
      simp only [threadStep, hpc] at hstep
      simp only [Calls.after, hpc]
      split at hstep <;> obtain rfl := Option.some.inj hstep
      · exact hnoted.moved rfl rfl (by simp)
      · exact hnoted.toInsert (e := ⟨acTime, eType, text⟩) (by simp) hprinted caller
  | insertTail caller LogMsg =>
      have hinsert := h.insert hpc
      simp only [threadStep, hpc] at hstep
      cases o <;> simp only [Option.some.injEq, reduceCtorEq] at hstep <;> subst hstep
        <;> simp only [Calls.after, hpc]
      · exact hinsert.moved rfl rfl (by simp)
      · exact h.moved rfl rfl (by simp)
      · exact hinsert.moved rfl rfl (by simp)
  | _ =>
      simp only [Calls.after, hpc]
      exact h.of_otherMove (threadStep_cases hstep) (by simp [hpc]) (by simp [hpc])

theorem of_step (h : Traced s c) {l : Label p} (hprinted : TimePrinted l)
    (hstep : (session p).step s l = some t) : Traced t (c.after s l) := by
  have hwriter : ∀ {u : Session p}, WriterMove s u → Traced u c := fun hmove =>
    h.of_same hmove.frame.inserted hmove.frame.threads
  cases l with
  | thread i acTime o => exact h.of_threadStep hprinted (threadStep_of_step hstep)
  | writer o =>
      cases sessionStep_cases hstep with
      | exit o => exact h.of_same rfl rfl
      | writer o u hmove => exact hwriter hmove
      | writerExit o u hmove => exact (hwriter hmove).of_same rfl rfl
  | cancel =>
      cases sessionStep_cases hstep with
      | cancel hrequest hpc => exact h.of_same rfl rfl
  | call i op =>
      cases sessionStep_cases hstep with
      | call i op t hmove => cases hmove <;> exact h.moved rfl rfl rfl

end Traced

theorem traced_of_reachable {x : Session p × Calls p}
    (hx : Reachable (calls p) (fun x l => Recorded x.1 l) x) : Traced x.1 x.2 := by
  induction hx with
  | init hinit =>
      obtain ⟨⟨settings, Loglevel, bTerminateProg, pid, hsettings, hsession⟩, hcalls⟩ := hinit
      rw [hsession, hcalls]
      exact ⟨rfl, by simp, by simp [loggerInit]⟩
  | step _ hpromise hstep ih =>
      obtain ⟨hsession, hcalls⟩ := System.recording_step hstep
      rw [hcalls]
      exact ih.of_step hpromise.2 hsession

/-! ### Reading the file back -/

/-- The messages written so far are the records of the first calls, and the others wait. -/
theorem written_of_reachable {x : Session p × Calls p}
    (hx : Reachable (calls p) (fun x l => Recorded x.1 l) x) :
    ∃ done waiting, x.2.queued = done ++ waiting ∧ x.1.written = done.map LogCall.record ∧
      x.1.writer.inHand ++ x.1.queue = waiting.map LogCall.record := by
  have hsession : Reachable (session p) SettingsKept x.1 := hx.forget.mono fun _ _ h => h.1
  obtain ⟨channel, -, hcarries⟩ := session_refines_channel hsession
  have hconserved := channel.conserved
  rw [hcarries.received, hcarries.inFlight, hcarries.sent, (traced_of_reachable hx).inserted]
    at hconserved
  obtain ⟨done, waiting, hqueued, hdone, hwaiting⟩ := List.map_eq_append_iff.mp hconserved.symm
  exact ⟨done, waiting, hqueued, hdone.symm, hwaiting.symm⟩

/-- The bytes written are the records of the calls queued first, in their order, and the others wait
for the writer. Split at the newlines, they give one line for each of these calls, time, level and
cut text, exactly if no text among them holds a newline where it was not cut off. -/
theorem written_lines_iff {x : Session p × Calls p}
    (hx : Reachable (calls p) (fun x l => Recorded x.1 l) x) :
    ∃ done waiting, x.2.queued = done ++ waiting ∧
      x.1.writer.inHand ++ x.1.queue = waiting.map LogCall.record ∧
      x.1.written = done.map LogCall.record ∧
      (x.1.written.flatten.splitOn newline = done.map LogCall.line ++ [[]] ↔
        ∀ e ∈ done, newline ∉ e.cUserMsg) := by
  obtain ⟨done, waiting, hqueued, hdone, hwaiting⟩ := written_of_reachable hx
  refine ⟨done, waiting, hqueued, hwaiting, hdone, ?_⟩
  have hbytes : x.1.written.flatten = (done.map LogCall.line).flatMap (· ++ [newline]) := by
    rw [hdone, List.flatMap_map, List.flatMap_def]
    exact congrArg List.flatten (List.map_congr_left fun e _ => e.record_eq)
  have htimed : ∀ e ∈ done, e.Timed := fun e he =>
    (traced_of_reachable hx).timed e (hqueued ▸ List.mem_append_left _ he)
  rw [hbytes, List.splitOn_terminated_iff, List.forall_mem_map]
  exact forall₂_congr fun e he => not_congr (LogCall.newline_mem_line_iff (htimed e he))

/-! ### One message in the file -/

def epoch : Tm where
  tm_sec := 0
  tm_min := 0
  tm_hour := 0
  tm_mday := 1
  tm_mon := 0
  tm_year := 70
  tm_wday := 4
  tm_gmtoff := 0

/-- A text is logged for debugging and `logger_thread` writes it. -/
def logsAndWrites (text : Bytes) : List (Label 1) :=
  .call onlyThread (.logMsg .eDEBUG text)
    :: (List.replicate 3 (.thread onlyThread epoch.strftime .ok) ++ writerMoves 6)

theorem reachable_logsAndWrites (text : Bytes) :
    ∃ x, Reachable (calls 1) (fun x l => Recorded x.1 l) x ∧
      x.2.queued = [⟨epoch.strftime, .eDEBUG, text⟩] ∧ x.1.writer.inHand ++ x.1.queue = [] ∧
      x.1.written = [LogCall.record ⟨epoch.strftime, .eDEBUG, text⟩] := by
  have hinit : Reachable (calls 1) (fun x l => Recorded x.1 l)
      (loggerInit LogSettings.default LoggerType.eDEBUG.value false 1, ⟨fun _ => none, []⟩) :=
    .init ⟨⟨LogSettings.default, _, _, _, ⟨by decide, by decide⟩, rfl⟩, rfl⟩
  obtain ⟨x, hrun, hqueued, hwaiting, hwritten⟩ : ∃ x, (calls 1).run
      (loggerInit LogSettings.default LoggerType.eDEBUG.value false 1, ⟨fun _ => none, []⟩)
      (logsAndWrites text) = some x ∧ x.2.queued = [⟨epoch.strftime, .eDEBUG, text⟩] ∧
      x.1.writer.inHand ++ x.1.queue = [] ∧
      x.1.written = [LogCall.record ⟨epoch.strftime, .eDEBUG, text⟩] :=
    ⟨_, rfl, rfl, rfl, rfl⟩
  refine ⟨x, hinit.run ?_ hrun, hqueued, hwaiting, hwritten⟩
  intro l hl s
  simp only [logsAndWrites, writerMoves, List.mem_cons, List.mem_append, List.mem_replicate] at hl
  rcases hl with rfl | ⟨-, rfl⟩ | ⟨-, rfl⟩
  · exact ⟨trivial, trivial⟩
  · exact ⟨trivial, epoch, rfl⟩
  · exact ⟨trivial, trivial⟩

theorem written_lines_page :
    ∃ x, Reachable (calls 1) (fun x l => Recorded x.1 l) x ∧
      x.1.written.flatten.splitOn newline =
        [Bytes.ascii "Thu, 01 Jan 1970 00:00:00 +0000 : Debug : Requested file:page.html", []] := by
  obtain ⟨x, hx, hqueued, hwaiting, hwritten⟩ :=
    reachable_logsAndWrites (Bytes.ascii "Requested file:page.html")
  refine ⟨x, hx, ?_⟩
  obtain ⟨done, waiting, hsplit, -, hdone, hlines⟩ := written_lines_iff hx
  obtain ⟨e, rfl⟩ : ∃ e, done = [e] := by
    apply List.length_eq_one_iff.mp
    rw [← List.length_map (f := LogCall.record), ← hdone, hwritten]
    rfl
  rw [hqueued, List.singleton_append] at hsplit
  injection hsplit with he
  rw [hlines.mpr, ← he]
  · decide +kernel
  · intro other hother
    rw [List.mem_singleton.mp hother, ← he]
    decide

/-- What `client_callback_serve` logs of its receive buffer. -/
def receivedData (acRecvBuff : Bytes) : Bytes := Bytes.ascii "Received data " ++ Bytes.cstr acRecvBuff

/-- The line of an error that nobody logged. -/
def forgedLine : Bytes := LogCall.line ⟨epoch.strftime, .eERROR, Bytes.ascii "disk full"⟩

/-- A client that sends a newline and a line of its own has it in the file as a record. -/
theorem written_lines_forged :
    ∃ x, Reachable (calls 1) (fun x l => Recorded x.1 l) x ∧
      x.2.queued = [⟨epoch.strftime, .eDEBUG, receivedData (newline :: forgedLine)⟩] ∧
      x.1.writer.inHand ++ x.1.queue = [] ∧
      x.1.written.flatten.splitOn newline ≠ x.2.queued.map LogCall.line ++ [[]] ∧
      forgedLine ∈ x.1.written.flatten.splitOn newline ∧
      forgedLine ∉ x.2.queued.map LogCall.line := by
  obtain ⟨x, hx, hqueued, hwaiting, hwritten⟩ :=
    reachable_logsAndWrites (receivedData (newline :: forgedLine))
  have hforged : forgedLine ∉ x.2.queued.map LogCall.line := by
    rw [hqueued]
    decide +kernel
  have hmem : forgedLine ∈ x.1.written.flatten.splitOn newline := by
    have hbytes : x.1.written.flatten
        = LogCall.line ⟨epoch.strftime, .eDEBUG, receivedData []⟩
          ++ newline :: (forgedLine ++ newline :: []) := by
      rw [hwritten]
      decide +kernel
    rw [hbytes, List.splitOn_append_cons_self, List.splitOn_append_cons_self_of_not_mem]
    · simp
    · decide +kernel
  refine ⟨x, hx, hqueued, hwaiting, ?_, hmem, hforged⟩
  intro hlines
  rw [hlines, List.mem_append, List.mem_singleton] at hmem
  rcases hmem with hlogged | hempty
  · exact hforged hlogged
  · exact absurd hempty (by decide +kernel)

end CewServer.Logger
