import CewServer.Logger.Destroy
import CewServer.Lib.TailQueue

/-!
# The queue in memory

In a `Session` the queue is a list. In the source it is a tail queue of entries that `log_add_to_queue`
allocates, links and never looks at again, that `logger_thread` reads without the mutex, unlinks and
frees, and whose rest `logger_destroy` walks and frees at the end. Here the entries are blocks with
links: `malloc` gives any address that is not in use and leaves what was there, and an access to a block
that is not allocated, a second `free` included, makes the process run wild.

The session's own `queue` is not used and stays empty. What takes its place is the list the links spell,
and with that list a run of the linked session is a run of the session.
-/

namespace CewServer.Logger

open Transition TailQueue

structure LinkedSession (p : Nat) where
  session : Session p
  memory : Memory Bytes
  /-- The entry `logger_thread` has read the head from. -/
  Entry : Nat
  /-- The entry a thread has allocated and not yet inserted. -/
  NewEntry : Fin p → Nat
  /-- Where `logger_destroy` is in the queue it frees. -/
  n1 : Option Nat
  /-- A block was accessed that is not allocated. -/
  wild : Bool

/-- A step, with what `malloc` returns in it and what it finds there. -/
structure LinkedLabel (p : Nat) where
  label : Label p
  malloc : Nat
  junk : Option Nat

variable {p : Nat}

namespace LinkedSession

def mapSession (x : LinkedSession p) (t : Option (Session p)) : Option (LinkedSession p) :=
  t.map fun t => { x with session := t }

/-- Go on with the memory an operation leaves. -/
def access (x : LinkedSession p) (memory : Option (Memory Bytes))
    (next : Memory Bytes → LinkedSession p) : LinkedSession p :=
  memory.elim { x with wild := true } next

/-- `STAILQ_FIRST` and the read of its message. -/
def peekHead (x : LinkedSession p) (b : Batch) : LinkedSession p :=
  match x.memory.stqhFirst with
  | none => { x with session := { x.session with fault := true } }
  | some Entry =>
      match x.memory.heap Entry with
      | none => { x with wild := true }
      | some node =>
          { x with session := { x.session with writer := .removeHead b node.elm }, Entry }

/-- `STAILQ_REMOVE_HEAD` and the `free` of the entry that was read. -/
def removeHead (x : LinkedSession p) (b : Batch) (LogMessage : Bytes) : LinkedSession p :=
  x.access (x.memory.removeHead.bind fun memory => memory.free x.Entry) fun memory =>
    { x with
      memory
      session :=
        { x.session with writer := .writeEntry { b with popped := b.popped + 1 } LogMessage } }

def lockedStep (x y : LinkedSession p) : Outcome → Option (LinkedSession p)
  | .ok => some y
  | .busy => none
  | .failed => some { x with session := x.session.exit }
  | .unlockFailed => some { y with session := y.session.exit }

/-- `log_add_to_queue` up to the lock: a message that passes the check gets an entry. -/
def sizeCheck (x : LinkedSession p) (i : Fin p) (t : Session p) (malloc : Nat) (junk : Option Nat) :
    Option (LinkedSession p) :=
  match t.threads i with
  | .insertTail _ LogMsg =>
      (x.memory.malloc malloc ⟨LogMsg, junk⟩).map fun memory =>
        { x with session := t, memory, NewEntry := Function.update x.NewEntry i malloc }
  | _ => some { x with session := t }

/-- The count and the history of an insertion. -/
def counted (s : Session p) (LogMsg : Bytes) : Session p := { s.insert LogMsg with queue := s.queue }

def insertTail (x : LinkedSession p) (i : Fin p) (LogMsg : Bytes) (pc : ThreadPc) : LinkedSession p :=
  x.access (x.memory.insertTail (x.NewEntry i)) fun memory =>
    { x with memory, session := (counted x.session LogMsg).goto i pc }

/-- The loop of `logger_destroy`. -/
def freeQueue (x : LinkedSession p) (i : Fin p) (freed : Nat) : LinkedSession p :=
  match x.n1 with
  | none => { x with session := x.session.goto i .resetCount }
  | some n1 =>
      match x.memory.heap n1 with
      | none => { x with wild := true }
      | some node =>
          x.access (x.memory.free n1) fun memory =>
            { x with
              memory
              n1 := node.stqeNext
              session := { x.session with discarded := x.session.discarded ++ [node.elm] }.goto i
                (.freeQueue (freed + 1)) }

def threadStep (x : LinkedSession p) (i : Fin p) (acTime : Bytes) (o : Outcome) (malloc : Nat)
    (junk : Option Nat) : Option (LinkedSession p) :=
  match x.session.threads i with
  | .sizeCheck _ _ _ => (Logger.threadStep x.session i acTime o).bind fun t => x.sizeCheck i t malloc junk
  | .insertTail caller LogMsg =>
      match o with
      | .ok => some (x.insertTail i LogMsg (caller.afterLog .exitSuccess))
      | .failed => some (x.access (x.memory.free (x.NewEntry i)) fun memory =>
          { x with memory, session := x.session.goto i (caller.afterLog .exitFailure) })
      | .unlockFailed => some (x.insertTail i LogMsg (caller.afterLog .exitFailure))
      | .busy => none
  | .closeStream => (Logger.threadStep x.session i acTime o).map fun t =>
      { x with session := t, n1 := x.memory.stqhFirst }
  | .freeQueue freed => some (x.freeQueue i freed)
  | _ => x.mapSession (Logger.threadStep x.session i acTime o)

def step (x : LinkedSession p) (l : LinkedLabel p) : Option (LinkedSession p) :=
  if x.session.exited || x.session.fault || x.wild then none
  else match l.label with
    | .writer o =>
        match x.session.writer with
        | .bodyTop b => some (x.peekHead b)
        | .removeHead b LogMessage => x.lockedStep (x.removeHead b LogMessage) o
        | _ => x.mapSession (loggerThread x.session o)
    | .cancel => x.mapSession (cancelStep x.session)
    | .call i op => x.mapSession (callStep x.session i op)
    | .thread i acTime o => x.threadStep i acTime o l.malloc l.junk

end LinkedSession

/-- The sessions of a process whose logger has no entries yet. `STAILQ_INIT` sets up the head. -/
def linkedSession (p : Nat) : System (LinkedSession p) (LinkedLabel p) where
  Init x := (session p).Init x.session ∧ x.wild = false ∧
    ∃ memory : Memory Bytes, (∀ a, memory.heap a = none) ∧ x.memory = memory.init
  step := LinkedSession.step

end CewServer.Logger
