import CewServer.Lib.Transition
import CewServer.Lib.Bytes
import Mathlib.Logic.Function.Basic

/-!
# One session of the logger

`cew_logger.c` from a successful `logger_init` to the return of `logger_destroy`: the static
variables, the log file, `logger_thread`, and `p` further threads that call `log_msg`,
`logger_flush`, `logger_set` and `logger_destroy`. Each critical section of `pLogMutex` is one step,
and so is each access to a shared variable outside it: the size check, the peek at the queue head,
the write, the polls of `logger_flush`. Between any two of them any other thread may move.

A `Session` is the state of the process. Its last two fields are history: they record what was
inserted and what `logger_destroy` freed, and no step reads them.
-/

namespace CewServer.Logger

inductive LoggerType where
  | eERROR
  | eWARNING
  | eINFO
  | eDEBUG
  deriving DecidableEq

/-- The enumerator as the unsigned value the compiler gives it. -/
def LoggerType.value : LoggerType → UInt32
  | .eERROR => 0
  | .eWARNING => 1
  | .eINFO => 2
  | .eDEBUG => 3

def pcLogTypeMsg : LoggerType → Bytes
  | .eERROR => Bytes.ascii "Error"
  | .eWARNING => Bytes.ascii "Warning"
  | .eINFO => Bytes.ascii "Info"
  | .eDEBUG => Bytes.ascii "Debug"

/-- `tsLogSettings`. The level is whatever value was stored in the enumeration variable. -/
structure LogSettings where
  iPollingInterval : Int
  iLoggerQueueSize : Int
  iBulkWrite : Int
  iCurrLogLevel : UInt32
  deriving DecidableEq

def LogSettings.default : LogSettings where
  iPollingInterval := 1000
  iLoggerQueueSize := 50
  iBulkWrite := 0
  iCurrLogLevel := LoggerType.eWARNING.value

inductive LogRet where
  | exitSuccess
  | exitFailure
  | noInit
  | noLvl
  | shuttingDown
  deriving DecidableEq

def loggerMaxUserMsgLen : Nat := 1024

/-- The user's text as `log_add_to_queue` has it: `vsnprintf` cuts it to the buffer, and the `%s` that
copies it from there stops at a NUL. -/
def cUserMsg (text : Bytes) : Bytes := Bytes.cstr (text.take (loggerMaxUserMsgLen - 1))

/-- The entry `log_add_to_queue` makes. -/
def formatLogMsg (acTime : Bytes) (eType : LoggerType) (text : Bytes) : Bytes :=
  acTime ++ Bytes.ascii " : " ++ pcLogTypeMsg eType ++ Bytes.ascii " : "
    ++ cUserMsg text ++ Bytes.ascii "\n"

/-- The locals of `logger_thread` while it writes a batch. `snapshot` and `popped` are history: the
count the batch was sized with, and the entries removed from the queue since. -/
structure Batch where
  iDataToWrite : Int
  iDataWritten : Int
  snapshot : Int
  popped : Nat
  deriving DecidableEq

/-- The next thing `logger_thread` does. -/
inductive WriterPc where
  /-- The cancellation block at the top of the loop. -/
  | poll
  | tryLock
  | openFile (b : Batch)
  /-- The top of the `do`-`while` body, at `STAILQ_FIRST`. -/
  | bodyTop (b : Batch)
  | removeHead (b : Batch) (LogMessage : Bytes)
  | writeEntry (b : Batch) (LogMessage : Bytes)
  | flushFile (b : Batch)
  | closeFile (b : Batch)
  | updateCount (b : Batch)
  | cancelled
  deriving DecidableEq

/-- Whom `log_msg` and `logger_flush` return to: the program, or `logger_destroy`. -/
inductive Caller where
  | program
  | destroy
  deriving DecidableEq

/-- The next thing one of the other threads does. In `flushPoll` the number of polls made is history. -/
inductive ThreadPc where
  /-- Outside the logger; the value is what its last call returned. -/
  | ready (iRet : LogRet)
  | msgAllowed (caller : Caller) (eType : LoggerType) (text : Bytes)
  | sizeCheck (caller : Caller) (eType : LoggerType) (text : Bytes)
  | insertTail (caller : Caller) (LogMsg : Bytes)
  | flushSet (caller : Caller)
  | flushPoll (caller : Caller) (MaxLoops polls : Nat)
  | destroyEntry
  | shutDown
  | cancelThread
  | joinThread
  | closeStream
  | freeQueue (freed : Nat)
  | resetCount
  | finish
  deriving DecidableEq

/-- The process. The open stream `LogfileFd` is the list of messages in its buffer, `queue` is the
tail queue from its head, and `logfile` is what this session has brought to the file. -/
structure Session (p : Nat) where
  sCurrLogSettings : LogSettings
  queue : List Bytes
  LogfileFd : Option (List Bytes)
  iDataInQueueCount : Int
  iIsInitDone : Bool
  iDoForceFlush : Bool
  iShuttingDown : Bool
  bTerminateProg : Bool
  pid : Nat
  logfile : List Bytes
  writer : WriterPc
  cancelRequested : Bool
  threads : Fin p → ThreadPc
  exited : Bool
  /-- A NULL entry was dereferenced. -/
  fault : Bool
  inserted : List Bytes
  discarded : List Bytes

namespace Session

variable {p : Nat}

def goto (s : Session p) (i : Fin p) (pc : ThreadPc) : Session p :=
  { s with threads := Function.update s.threads i pc }

def exit (s : Session p) : Session p := { s with exited := true }

/-- `is_msg_allowed`. Its four reads are one step, that of the third. `iIsInitDone` falls only after
`iShuttingDown` has risen, neither of the two comes back within a session, and nothing stores to
`bTerminateProg`, so the third read decides the first three. The level is stored by `logger_set` alone,
which only a test of the program calls: unless it is called between the third read and the fourth, the
level that is read is that of the third. -/
def isMsgAllowed (s : Session p) (eType : LoggerType) : LogRet :=
  if !s.iIsInitDone then .noLvl
  else if s.bTerminateProg then .shuttingDown
  else if s.iShuttingDown then .shuttingDown
  else if s.sCurrLogSettings.iCurrLogLevel < eType.value then .noInit
  else .exitSuccess

/-- The critical section of `log_add_to_queue`. -/
def insert (s : Session p) (LogMsg : Bytes) : Session p :=
  { s with
    queue := s.queue ++ [LogMsg]
    iDataInQueueCount := int32 (s.iDataInQueueCount + 1)
    inserted := s.inserted ++ [LogMsg] }

/-- The critical section that sizes a batch: everything counted is to be written. -/
def snapshotCount (s : Session p) : Session p :=
  if s.sCurrLogSettings.iBulkWrite < s.iDataInQueueCount ∨
      (s.iDoForceFlush = true ∧ s.iDataInQueueCount ≠ 0) then
    { s with writer := .openFile ⟨s.iDataInQueueCount, 0, s.iDataInQueueCount, 0⟩ }
  else { s with writer := .poll }

/-- `STAILQ_FIRST` and the read of its message, outside the mutex. -/
def peekHead (s : Session p) (b : Batch) : Session p :=
  match s.queue with
  | [] => { s with fault := true }
  | LogMessage :: _ => { s with writer := .removeHead b LogMessage }

def removeHead (s : Session p) (b : Batch) (LogMessage : Bytes) : Session p :=
  { s with
    queue := s.queue.tail
    writer := .writeEntry { b with popped := b.popped + 1 } LogMessage }

/-- `fwrite`, the count of written entries and the test of the `do`-`while` loop. -/
def writeEntry (s : Session p) (b : Batch) (LogMessage : Bytes) : Session p :=
  let next := { b with
    iDataWritten := int32 (b.iDataWritten + 1)
    iDataToWrite := int32 (b.iDataToWrite - 1) }
  { s with
    LogfileFd := s.LogfileFd.map (· ++ [LogMessage])
    writer := if next.iDataToWrite ≠ 0 then .bodyTop next else .flushFile next }

def flushFile (s : Session p) (b : Batch) : Session p :=
  { s with
    logfile := s.logfile ++ s.LogfileFd.getD []
    LogfileFd := s.LogfileFd.map fun _ => []
    writer := .closeFile b }

/-- `fclose`, which writes out what is still in the buffer. -/
def closeFile (s : Session p) (next : WriterPc) : Session p :=
  { s with
    logfile := s.logfile ++ s.LogfileFd.getD []
    LogfileFd := none
    writer := next }

def updateCount (s : Session p) (b : Batch) : Session p :=
  { s with
    iDoForceFlush := false
    iDataInQueueCount := int32 (s.iDataInQueueCount - b.iDataWritten)
    writer := .poll }

end Session

/-- How the library call of a step turns out. `unlockFailed` is an error of `pthread_mutex_unlock`
after the section was executed; every other error is `failed`, and `busy` is `EBUSY`. -/
inductive Outcome where
  | ok
  | busy
  | failed
  | unlockFailed
  deriving DecidableEq

variable {p : Nat}

/-- A step of `logger_thread` that holds the mutex: without the lock, or without the unlock, the
process exits. -/
def lockedStep (s t : Session p) : Outcome → Option (Session p)
  | .ok => some t
  | .busy => none
  | .failed => some s.exit
  | .unlockFailed => some t.exit

/-- A step of `logger_thread` whose call must succeed. -/
def checkedStep (s t : Session p) : Outcome → Option (Session p)
  | .ok => some t
  | .failed => some s.exit
  | .busy | .unlockFailed => none

def loggerThread (s : Session p) (o : Outcome) : Option (Session p) :=
  match s.writer with
  | .poll => some { s with writer := .tryLock }
  | .tryLock => if o = .busy then some { s with writer := .poll } else lockedStep s s.snapshotCount o
  | .openFile b => checkedStep s { s with LogfileFd := some [], writer := .bodyTop b } o
  | .bodyTop b => some (s.peekHead b)
  | .removeHead b LogMessage => lockedStep s (s.removeHead b LogMessage) o
  | .writeEntry b LogMessage => checkedStep s (s.writeEntry b LogMessage) o
  | .flushFile b => checkedStep s (s.flushFile b) o
  | .closeFile b => checkedStep s (s.closeFile (.updateCount b)) o
  | .updateCount b => lockedStep s (s.updateCount b) o
  | .cancelled => none

def Caller.afterLog : Caller → LogRet → ThreadPc
  | .program, iRet => .ready iRet
  | .destroy, _ => .shutDown

def Caller.afterFlush : Caller → ThreadPc
  | .program => .ready .exitSuccess
  | .destroy => .cancelThread

def destroyingMsg (pid : Nat) : Bytes :=
  Bytes.ascii "Destroying the logger from pid " ++ Bytes.decimal pid ++ Bytes.ascii "."

def maxLoops : Nat := 20

/-- One step of a thread inside the logger. A step that formats a message reads the time `acTime`. -/
def threadStep (s : Session p) (i : Fin p) (acTime : Bytes) (o : Outcome) : Option (Session p) :=
  match s.threads i with
  | .ready _ => none
  | .msgAllowed caller eType text =>
      if s.isMsgAllowed eType = .exitSuccess then some (s.goto i (.sizeCheck caller eType text))
      else some (s.goto i (caller.afterLog .exitFailure))
  | .sizeCheck caller eType text =>
      if s.sCurrLogSettings.iLoggerQueueSize < s.iDataInQueueCount then
        some (s.goto i (caller.afterLog .exitFailure))
      else some (s.goto i (.insertTail caller (formatLogMsg acTime eType text)))
  | .insertTail caller LogMsg =>
      match o with
      | .ok => some ((s.insert LogMsg).goto i (caller.afterLog .exitSuccess))
      | .failed => some (s.goto i (caller.afterLog .exitFailure))
      | .unlockFailed => some ((s.insert LogMsg).goto i (caller.afterLog .exitFailure))
      | .busy => none
  | .flushSet caller => some ({ s with iDoForceFlush := true }.goto i (.flushPoll caller maxLoops 0))
  | .flushPoll caller MaxLoops polls =>
      if MaxLoops = 0 then some (s.goto i caller.afterFlush)
      else if s.iDataInQueueCount = 0 then some (s.goto i caller.afterFlush)
      else some (s.goto i (.flushPoll caller (MaxLoops - 1) (polls + 1)))
  | .destroyEntry =>
      if s.iIsInitDone then some (s.goto i (.msgAllowed .destroy .eDEBUG (destroyingMsg s.pid)))
      else some (s.goto i (.ready .noInit))
  | .shutDown => some ({ s with iShuttingDown := true }.goto i (.flushSet .destroy))
  | .cancelThread => some ({ s with cancelRequested := true }.goto i .joinThread)
  | .joinThread => if s.writer = .cancelled then some (s.goto i .closeStream) else none
  | .closeStream => some ((s.closeFile s.writer).goto i (.freeQueue 0))
  | .freeQueue freed =>
      match s.queue[freed]? with
      | some msg => some ({ s with discarded := s.discarded ++ [msg] }.goto i (.freeQueue (freed + 1)))
      | none => some (s.goto i .resetCount)
  | .resetCount => some ({ s with iDataInQueueCount := 0 }.goto i .finish)
  | .finish => some ({ s with iIsInitDone := false }.goto i (.ready .exitSuccess))

inductive Call where
  | logMsg (eType : LoggerType) (text : Bytes)
  | loggerFlush
  | loggerSet (sNewSettings : LogSettings)
  | loggerDestroy

def callStep (s : Session p) (i : Fin p) (op : Call) : Option (Session p) :=
  match s.threads i with
  | .ready _ =>
      match op with
      | .logMsg eType text => some (s.goto i (.msgAllowed .program eType text))
      | .loggerFlush => some (s.goto i (.flushSet .program))
      | .loggerSet sNewSettings =>
          some ({ s with sCurrLogSettings := sNewSettings }.goto i (.ready .exitSuccess))
      | .loggerDestroy => some (s.goto i .destroyEntry)
  | _ => none

/-- Who moves. `cancel` is the request of `pthread_cancel` taking effect. -/
inductive Label (p : Nat) where
  | writer (o : Outcome)
  | cancel
  | call (i : Fin p) (op : Call)
  | thread (i : Fin p) (acTime : Bytes) (o : Outcome)

/-- The cancellation block is the only place where `logger_thread` can be cancelled. -/
def cancelStep (s : Session p) : Option (Session p) :=
  if s.cancelRequested = true ∧ s.writer = .poll then some { s with writer := .cancelled } else none

def sessionStep (s : Session p) (l : Label p) : Option (Session p) :=
  if s.exited || s.fault then none
  else match l with
    | .writer o => loggerThread s o
    | .cancel => cancelStep s
    | .call i op => callStep s i op
    | .thread i acTime o => threadStep s i acTime o

def loggerInit (settings : LogSettings) (Loglevel : UInt32) (bTerminateProg : Bool) (pid : Nat) :
    Session p where
  sCurrLogSettings := { settings with iCurrLogLevel := Loglevel }
  queue := []
  LogfileFd := none
  iDataInQueueCount := 0
  iIsInitDone := true
  iDoForceFlush := false
  iShuttingDown := false
  bTerminateProg := bTerminateProg
  pid := pid
  logfile := []
  writer := .poll
  cancelRequested := false
  threads := fun _ => .ready .exitSuccess
  exited := false
  fault := false
  inserted := []
  discarded := []

/-- The settings the logger is used with: `iBulkWrite` in its documented range, and a queue size that
leaves room for one more entry of each thread in a 32-bit count. -/
def LogSettings.Admissible (p : Nat) (settings : LogSettings) : Prop :=
  0 ≤ settings.iBulkWrite ∧ settings.iLoggerQueueSize + p < 2 ^ 31 - 1

/-- The sessions of a process with `p` threads besides `logger_thread`. -/
def session (p : Nat) : Transition.System (Session p) (Label p) where
  Init s := ∃ settings Loglevel bTerminateProg pid, settings.Admissible p ∧
    s = loggerInit settings Loglevel bTerminateProg pid
  step := sessionStep

def SettingsKept (_ : Session p) : Label p → Prop
  | .call _ (.loggerSet sNewSettings) => sNewSettings.Admissible p
  | _ => True

end CewServer.Logger
