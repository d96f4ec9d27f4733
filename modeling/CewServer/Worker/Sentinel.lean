import CewServer.Lib.Descriptors
import CewServer.Lib.Transition

/-!
# Zero for no descriptor

The fields of `tsWorkerStruct` and of a client record hold a descriptor or zero, and the teardown
functions take zero for none. That is sound in the master, whose descriptor 0 is never closed, so that
no call can get it. A worker starts with a copy of the master's table and of its own entry, which is
still all zero: the IPC sockets are made after the fork. `workerp_entry` closes the two fields without
a test, so it closes descriptor 0, and the next call that opens something gets it.

The state has the descriptor table of the master and of each worker. In each of them the main thread,
`logger_thread` with its log file and the other code that opens descriptors (the event loop, the
listening socket, served files) interleave in any order.
-/

namespace CewServer.Worker.Sentinel

open Descriptors

/-- What a descriptor was opened for. `ipcAccept i` and `ipcConnection i` are the sockets the master
opens for worker `i`. -/
inductive Kind where
  | stdio
  | logFile
  | ipcAccept (i : Nat)
  | ipcConnection (i : Nat)
  | workerIpc
  | client
  | other
  deriving DecidableEq

/-- The descriptors in `tsWorkerStruct`. -/
structure Entry where
  iMasterIPCAccept : Nat
  iMasterIPCfd : Nat
  iWorkerIPCfd : Nat
  deriving DecidableEq

/-- `memset(psWorker, 0, ..)`. -/
def Entry.zero : Entry := ⟨0, 0, 0⟩

/-- What master and workers have alike. `LogfileFd` is the descriptor of the stream. -/
structure Process where
  table : Table Kind
  LogfileFd : Option Nat
  threadRuns : Bool
  psWorker : List Entry

/-- The next call of `workerp_entry`. -/
inductive WorkerPc where
  | loggerDestroy
  | loggerInit
  | closeAccept
  | closeIpcFd
  | chdir
  | socket
  | connect
  | evRun
  | exited
  deriving DecidableEq

/-- A worker. `clients` are the fields `iSockfd` of its client records; `closed` is history: what the
two `close` calls of `workerp_entry` have closed. -/
structure WorkerProcess where
  process : Process
  me : Nat
  pc : WorkerPc
  clients : List Nat
  closed : List Kind

/-- Where the master is in `worker_init` and after. -/
inductive MasterPc where
  | round
  | socket
  | accept
  | evRun
  | leaving
  | exited
  deriving DecidableEq

structure State where
  master : Process
  pc : MasterPc
  workers : List WorkerProcess

/-! ### The steps -/

namespace Process

def openFor (x : Process) (k : Kind) : Process := { x with table := x.table.openNext k }

def close (x : Process) (fd : Nat) : Process := { x with table := x.table.close fd }

def closeUnlessZero (x : Process) (fd : Nat) : Process := if fd ≠ 0 then x.close fd else x

/-- The descriptors `worker_destroy` closes for an entry. -/
def destroyEntry (iMe : Bool) (x : Process) (e : Entry) : Process :=
  let x := if iMe then x else (x.closeUnlessZero e.iMasterIPCfd).closeUnlessZero e.iMasterIPCAccept
  x.closeUnlessZero e.iWorkerIPCfd

/-- `worker_destroy`, in the worker `me` or in the master. -/
def workerDestroy (x : Process) (me : Option Nat) : Process :=
  { x.psWorker.zipIdx.foldl (fun x e => x.destroyEntry (decide (me = some e.2)) e.1) x with
    psWorker := [] }

end Process

/-- Who opens and closes descriptors besides the main thread. -/
inductive Background where
  | logOpen
  | logClose
  | openOther
  | closeOther (fd : Nat)

/-- `fopen` and `fclose` of `logger_thread`, and the descriptors of other code. -/
def backgroundStep (x : Process) : Background → Option Process
  | .logOpen =>
      if x.threadRuns ∧ x.LogfileFd = none then
        some { x.openFor .logFile with LogfileFd := some x.table.next }
      else none
  | .logClose =>
      if x.threadRuns then x.LogfileFd.map fun fd => { x.close fd with LogfileFd := none } else none
  | .openOther => some (x.openFor .other)
  | .closeOther fd => if fd ∈ x.table.fds ∧ x.table.kind fd = .other then some (x.close fd) else none

/-- The copy made by `fork`, about to run `workerp_entry` for the last entry. -/
def Process.forked (x : Process) : WorkerProcess where
  process := { x with threadRuns := false }
  me := x.psWorker.length - 1
  pc := .loggerDestroy
  clients := []
  closed := []

namespace WorkerProcess

def field (w : WorkerProcess) (f : Entry → Nat) : Nat := (w.process.psWorker[w.me]?.map f).getD 0

def setField (w : WorkerProcess) (f : Entry → Entry) : WorkerProcess :=
  { w with process.psWorker := w.process.psWorker.modify w.me f }

/-- `close` on a field in `workerp_entry`. -/
def closeField (w : WorkerProcess) (fd : Nat) : WorkerProcess :=
  { w with
    process := w.process.close fd
    closed := w.closed ++ if fd ∈ w.process.table.fds then [w.process.table.kind fd] else [] }

/-- `do_exit`, which calls `worker_destroy`. -/
def doExit (w : WorkerProcess) : WorkerProcess :=
  { w with process := w.process.workerDestroy (some w.me), pc := .exited }

def goto (w : WorkerProcess) (pc : WorkerPc) : WorkerProcess := { w with pc := pc }

end WorkerProcess

/-- One step of the main thread of a worker, from `workerp_entry` to `ev_run`. -/
def workerpEntry (w : WorkerProcess) (ok : Bool) : Option WorkerProcess :=
  match w.pc with
  | .loggerDestroy =>
      some ({ w with process := (match w.process.LogfileFd with
        | some fd => { w.process.close fd with LogfileFd := none }
        | none => w.process) }.goto .loggerInit)
  -- the file `logger_init` opens to test its access is closed again at once
  | .loggerInit => some ({ w with process.threadRuns := ok }.goto .closeAccept)
  | .closeAccept =>
      some (((w.closeField (w.field Entry.iMasterIPCAccept)).setField
        fun e => { e with iMasterIPCAccept := 0 }).goto .closeIpcFd)
  | .closeIpcFd =>
      some (((w.closeField (w.field Entry.iMasterIPCfd)).setField
        fun e => { e with iMasterIPCfd := 0 }).goto .chdir)
  | .chdir => if ok then some (w.goto .socket) else some w.doExit
  | .socket =>
      if ok then
        some (({ w with process := w.process.openFor .workerIpc }.setField
          fun e => { e with iWorkerIPCfd := w.process.table.next }).goto .connect)
      else some w.doExit
  | .connect => if ok then some (w.goto .evRun) else some w.doExit
  | .evRun => if ok then some w.doExit else none
  | .exited => none

/-- Clients of a worker that serves: `recvmsg` opens the descriptor of one, and `client_deregister`
closes that of another. -/
inductive ClientEvent where
  | register
  | deregister (j : Nat)

def clientStep (w : WorkerProcess) (e : ClientEvent) : Option WorkerProcess :=
  if w.pc = .evRun then
    match e with
    | .register =>
        some { w with process := w.process.openFor .client
                      clients := w.clients ++ [w.process.table.next] }
    | .deregister j => w.clients[j]?.map fun iSockfd =>
        { w with process := w.process.closeUnlessZero iSockfd, clients := w.clients.eraseIdx j }
  else none

/-- How `worker_create_ipc_socket` gets on before `accept`. -/
inductive SocketOutcome where
  | ok
  | noSocket
  | notListening
  deriving DecidableEq

inductive Label where
  | masterFork (ok : Bool)
  | masterReady
  | masterSocket (o : SocketOutcome)
  | masterAccept (ok : Bool)
  | masterExit
  | master (b : Background)
  | worker (k : Nat) (ok : Bool)
  | client (k : Nat) (e : ClientEvent)
  | background (k : Nat) (b : Background)

namespace State

def goto (s : State) (pc : MasterPc) : State := { s with pc := pc }

/-- The index of the entry of the round. -/
def last (s : State) : Nat := s.master.psWorker.length - 1

def setLast (s : State) (f : Entry → Entry) : State :=
  { s with master.psWorker := s.master.psWorker.modify s.last f }

def dropLast (s : State) : State := { s with master.psWorker := s.master.psWorker.dropLast }

def openFor (s : State) (k : Kind) : State := { s with master := s.master.openFor k }

def onWorker (s : State) (k : Nat) (f : WorkerProcess → Option WorkerProcess) : Option State :=
  s.workers[k]?.bind fun w => (f w).map fun w' => { s with workers := s.workers.set k w' }

end State

/-- The rounds of `worker_init` in the master, and what it does afterwards. -/
def masterStep (s : State) : Label → Option State
  | .masterFork ok =>
      if s.pc = .round then
        if ok then
          let master := { s.master with psWorker := s.master.psWorker ++ [Entry.zero] }
          some ⟨master, .socket, s.workers ++ [master.forked]⟩
        else some (s.goto .leaving)
      else none
  | .masterReady => if s.pc = .round then some (s.goto .evRun) else none
  | .masterSocket o =>
      if s.pc = .socket then
        match o with
        | .ok => some (((s.openFor (.ipcAccept s.last)).setLast
            fun e => { e with iMasterIPCAccept := s.master.table.next }).goto .accept)
        -- the entry is freed; a socket that was opened stays open
        | .noSocket => some (s.dropLast.goto .leaving)
        | .notListening => some ((s.openFor (.ipcAccept s.last)).dropLast.goto .leaving)
      else none
  | .masterAccept ok =>
      if s.pc = .accept then
        if ok then
          some (((s.openFor (.ipcConnection s.last)).setLast
            fun e => { e with iMasterIPCfd := s.master.table.next }).goto .round)
        else some (s.goto .exited)
      else none
  | .masterExit =>
      if s.pc = .evRun ∨ s.pc = .leaving then
        some ({ s with master := s.master.workerDestroy none }.goto .exited)
      else none
  | .master b => (backgroundStep s.master b).map fun x => { s with master := x }
  | .worker k ok => s.onWorker k fun w => workerpEntry w ok
  | .client k e => s.onWorker k fun w => clientStep w e
  | .background k b => s.onWorker k fun w =>
      (backgroundStep w.process b).map fun x => { w with process := x }

/-- The master when it calls `worker_init`. -/
def start (threadRuns : Bool) : State where
  master := ⟨⟨{0, 1, 2}, fun _ => .stdio⟩, none, threadRuns, []⟩
  pc := .round
  workers := []

def system : Transition.System State Label where
  Init s := ∃ threadRuns, s = start threadRuns
  step := masterStep

/-! ### The property -/

/-- The fields of the worker table, and what each is for. -/
def Process.fields (x : Process) : List (Nat × Kind) :=
  x.psWorker.zipIdx.flatMap fun e => [(e.1.iMasterIPCAccept, .ipcAccept e.2),
    (e.1.iMasterIPCfd, .ipcConnection e.2), (e.1.iWorkerIPCfd, .workerIpc)]

/-- No field that holds what it is for is zero. -/
def ZeroIsNone (x : Process) (fields : List (Nat × Kind)) : Prop :=
  ∀ f ∈ fields, x.table.Holds f.1 f.2 → f.1 ≠ 0

structure WorkerProcess.Sound (w : WorkerProcess) : Prop where
  fields : ZeroIsNone w.process (w.process.fields ++ w.clients.map fun iSockfd => (iSockfd, .client))
  closed : ∀ k ∈ w.closed, k = .ipcAccept w.me ∨ k = .ipcConnection w.me

structure Sound (s : State) : Prop where
  master : ZeroIsNone s.master s.master.fields
  workers : ∀ w ∈ s.workers, w.Sound

/-- Before the first `close` of `workerp_entry`. -/
def WorkerPc.beforeClose : WorkerPc → Bool
  | .loggerDestroy | .loggerInit | .closeAccept => true
  | _ => false

/-! ### While descriptor 0 is open -/

/-- Descriptor 0 is what the process was started with, and the log file is not on it. -/
structure ZeroTaken (x : Process) : Prop where
  stdin : x.table.Holds 0 .stdio
  logFile : x.LogfileFd ≠ some 0

namespace ZeroTaken

variable {x y : Process}

theorem openFor (h : ZeroTaken x) (k : Kind) : ZeroTaken (x.openFor k) :=
  ⟨h.stdin.openNext k, h.logFile⟩

theorem close (h : ZeroTaken x) {fd : Nat} (hfd : fd ≠ 0) : ZeroTaken (x.close fd) :=
  ⟨h.stdin.close hfd, h.logFile⟩

theorem closeUnlessZero (h : ZeroTaken x) (fd : Nat) : ZeroTaken (x.closeUnlessZero fd) := by
  unfold Process.closeUnlessZero
  split
  · exact h.close ‹_›
  · exact h

theorem destroyEntry (h : ZeroTaken x) (iMe : Bool) (e : Entry) : ZeroTaken (x.destroyEntry iMe e) := by
  unfold Process.destroyEntry
  apply closeUnlessZero
  split
  · exact h
  · exact (h.closeUnlessZero _).closeUnlessZero _

theorem foldl_destroyEntry (h : ZeroTaken x) (me : Option Nat) (entries : List (Entry × Nat)) :
    ZeroTaken (entries.foldl (fun x e => x.destroyEntry (decide (me = some e.2)) e.1) x) := by
  induction entries generalizing x with
  | nil => exact h
  | cons e entries ih => exact ih (h.destroyEntry _ e.1)

theorem workerDestroy (h : ZeroTaken x) (me : Option Nat) : ZeroTaken (x.workerDestroy me) := by
  have hall := h.foldl_destroyEntry me x.psWorker.zipIdx
  exact ⟨hall.stdin, hall.logFile⟩

theorem of_background (h : ZeroTaken x) {b : Background} (hstep : backgroundStep x b = some y) :
    ZeroTaken y ∧ y.psWorker = x.psWorker := by
  cases b with
  | logOpen =>
      simp only [backgroundStep] at hstep
      split at hstep
      · obtain rfl := Option.some.inj hstep
        refine ⟨⟨h.stdin.openNext .logFile, ?_⟩, rfl⟩
        intro hzero
        exact Table.next_ne_of_holds h.stdin (Option.some.inj hzero)
      · cases hstep
  | logClose =>
      simp only [backgroundStep] at hstep
      split at hstep
      · obtain ⟨fd, hfd, rfl⟩ := Option.map_eq_some_iff.mp hstep
        have hne : fd ≠ 0 := fun hzero => h.logFile (hzero ▸ hfd)
        exact ⟨⟨(h.close hne).stdin, fun hsome => by cases hsome⟩, rfl⟩
      · cases hstep
  | openOther =>
      obtain rfl := Option.some.inj hstep
      exact ⟨h.openFor .other, rfl⟩
  | closeOther fd =>
      simp only [backgroundStep] at hstep
      split at hstep
      · rename_i hother
        obtain rfl := Option.some.inj hstep
        refine ⟨h.close ?_, rfl⟩
        rintro rfl
        have hkind := h.stdin.2.symm.trans hother.2
        cases hkind
      · cases hstep

/-- What is behind descriptor 0 is what no field is for. -/
theorem zeroIsNone (h : ZeroTaken x) {fields : List (Nat × Kind)} (hfor : ∀ f ∈ fields, f.2 ≠ .stdio) :
    ZeroIsNone x fields := by
  rintro ⟨fd, k⟩ hf ⟨-, hkind⟩ rfl
  exact hfor _ hf (hkind.symm.trans h.stdin.2)

end ZeroTaken

theorem Process.fields_ne_stdio (x : Process) : ∀ f ∈ x.fields, f.2 ≠ .stdio := by
  intro f hf
  obtain ⟨e, -, he⟩ := List.mem_flatMap.mp hf
  simp only [List.mem_cons, List.not_mem_nil, or_false] at he
  rcases he with rfl | rfl | rfl <;> exact Kind.noConfusion

/-! ### The workers -/

/-- A worker that has not come to its first `close` still has descriptor 0 and an entry of zeros; one
that has come to it has closed descriptor 0. -/
structure WorkerOk (w : WorkerProcess) : Prop where
  before : w.pc.beforeClose = true → ZeroTaken w.process ∧ w.closed = [] ∧ w.clients = [] ∧
    w.process.psWorker[w.me]? = some Entry.zero
  after : w.pc.beforeClose = false → Kind.stdio ∈ w.closed

theorem WorkerOk.sound_iff {w : WorkerProcess} (h : WorkerOk w) :
    w.Sound ↔ w.pc.beforeClose = true := by
  constructor
  · intro hsound
    by_contra hpast
    rcases hsound.closed _ (h.after (by simpa using hpast)) with hkind | hkind <;> cases hkind
  · intro hbefore
    obtain ⟨htaken, hclosed, hclients, -⟩ := h.before hbefore
    constructor
    · rw [hclients]
      exact htaken.zeroIsNone (by simpa using w.process.fields_ne_stdio)
    · intro k hk
      rw [hclosed] at hk
      cases hk

theorem WorkerOk.past {w : WorkerProcess} (hpc : w.pc.beforeClose = false)
    (hclosed : Kind.stdio ∈ w.closed) : WorkerOk w := by
  refine ⟨fun hbefore => ?_, fun _ => hclosed⟩
  rw [hpc] at hbefore
  cases hbefore

theorem WorkerOk.of_entry {w w' : WorkerProcess} {ok : Bool} (h : WorkerOk w)
    (hstep : workerpEntry w ok = some w') : WorkerOk w' := by
  -- past the first `close`, nothing is taken off the record
  have hpast : ∀ pc, w.pc = pc → pc.beforeClose = false → Kind.stdio ∈ w.closed :=
    fun pc hpc hb => h.after (hpc ▸ hb)
  have hexit : Kind.stdio ∈ w.closed → WorkerOk w.doExit := fun hclosed => .past rfl hclosed
  unfold workerpEntry at hstep
  split at hstep
  case h_1 hpc =>
    obtain ⟨htaken, hclosed, hclients, hentry⟩ := h.before (by rw [hpc]; rfl)
    obtain rfl := Option.some.inj hstep
    refine ⟨fun _ => ?_, fun hb => by cases hb⟩
    cases hlog : w.process.LogfileFd with
    | none => exact ⟨htaken, hclosed, hclients, hentry⟩
    | some fd =>
        have hne : fd ≠ 0 := fun hzero => htaken.logFile (hzero ▸ hlog)
        exact ⟨⟨(htaken.close hne).stdin, fun hsome => by cases hsome⟩, hclosed, hclients, hentry⟩
  case h_2 hpc =>
    obtain ⟨htaken, hclosed, hclients, hentry⟩ := h.before (by rw [hpc]; rfl)
    obtain rfl := Option.some.inj hstep
    exact ⟨fun _ => ⟨⟨htaken.stdin, htaken.logFile⟩, hclosed, hclients, hentry⟩, fun hb => by cases hb⟩
  case h_3 hpc =>
    -- the entry is all zero, so this closes descriptor 0
    obtain ⟨htaken, -, -, hentry⟩ := h.before (by rw [hpc]; rfl)
    obtain rfl := Option.some.inj hstep
    refine .past rfl ?_
    have hfield : w.field Entry.iMasterIPCAccept = 0 := by
      simp only [WorkerProcess.field, hentry, Option.map_some, Option.getD_some, Entry.zero]
    show Kind.stdio ∈ w.closed ++ _
    rw [hfield, if_pos htaken.stdin.1, htaken.stdin.2]
    exact List.mem_append_right _ List.mem_cons_self
  case h_4 hpc =>
    obtain rfl := Option.some.inj hstep
    exact .past rfl (List.mem_append_left _ (hpast _ hpc rfl))
  case h_5 hpc | h_6 hpc | h_7 hpc =>
    split at hstep <;> obtain rfl := Option.some.inj hstep
    · exact .past rfl (hpast _ hpc rfl)
    · exact hexit (hpast _ hpc rfl)
  case h_8 hpc =>
    split at hstep
    · obtain rfl := Option.some.inj hstep
      exact hexit (hpast _ hpc rfl)
    · cases hstep
  case h_9 => cases hstep

theorem WorkerOk.of_client {w w' : WorkerProcess} {e : ClientEvent} (h : WorkerOk w)
    (hstep : clientStep w e = some w') : WorkerOk w' := by
  unfold clientStep at hstep
  split at hstep
  · rename_i hpc
    have hpast : w.pc.beforeClose = false := by rw [hpc]; rfl
    have hclosed := h.after hpast
    cases e with
    | register =>
        obtain rfl := Option.some.inj hstep
        exact .past hpast hclosed
    | deregister j =>
        obtain ⟨iSockfd, -, rfl⟩ := Option.map_eq_some_iff.mp hstep
        exact .past hpast hclosed
  · cases hstep

theorem WorkerOk.of_background {w : WorkerProcess} {x : Process} {b : Background} (h : WorkerOk w)
    (hstep : backgroundStep w.process b = some x) : WorkerOk { w with process := x } := by
  refine ⟨fun hbefore => ?_, h.after⟩
  obtain ⟨htaken, hclosed, hclients, hentry⟩ := h.before hbefore
  obtain ⟨htaken', hsame⟩ := htaken.of_background hstep
  exact ⟨htaken', hclosed, hclients, by rw [← hentry]; exact congrArg (·[w.me]?) hsame⟩

theorem WorkerOk.forked {x : Process} (h : ZeroTaken x) (rest : List Entry)
    (hlast : x.psWorker = rest ++ [Entry.zero]) : WorkerOk x.forked := by
  refine ⟨fun _ => ⟨⟨h.stdin, h.logFile⟩, rfl, rfl, ?_⟩, fun hb => by cases hb⟩
  simp [Process.forked, hlast]

/-! ### The whole -/

structure StateOk (s : State) : Prop where
  master : ZeroTaken s.master
  workers : ∀ w ∈ s.workers, WorkerOk w

theorem StateOk.onWorker {s t : State} {k : Nat} {f : WorkerProcess → Option WorkerProcess}
    (h : StateOk s) (hf : ∀ w w', WorkerOk w → f w = some w' → WorkerOk w')
    (hstep : s.onWorker k f = some t) : StateOk t := by
  obtain ⟨w, hw, hmap⟩ := Option.bind_eq_some_iff.mp hstep
  obtain ⟨w', hw', rfl⟩ := Option.map_eq_some_iff.mp hmap
  refine ⟨h.master, fun v hv => ?_⟩
  rcases List.mem_or_eq_of_mem_set hv with hv | rfl
  · exact h.workers v hv
  · exact hf w _ (h.workers w (List.mem_of_getElem? hw)) hw'

theorem StateOk.of_step {s t : State} {l : Label} (h : StateOk s) (hstep : system.step s l = some t) :
    StateOk t := by
  have hmaster : ∀ {x : Process} (pc : MasterPc), ZeroTaken x → StateOk ⟨x, pc, s.workers⟩ :=
    fun pc hx => ⟨hx, h.workers⟩
  change masterStep s l = some t at hstep
  cases l with
  | masterFork ok =>
      simp only [masterStep] at hstep
      split at hstep
      · split at hstep <;> obtain rfl := Option.some.inj hstep
        · have hforked : ZeroTaken { s.master with psWorker := s.master.psWorker ++ [Entry.zero] } :=
            ⟨h.master.stdin, h.master.logFile⟩
          refine ⟨hforked, fun w hw => ?_⟩
          rcases List.mem_append.mp hw with hw | hw
          · exact h.workers w hw
          · obtain rfl := List.mem_singleton.mp hw
            exact .forked hforked s.master.psWorker rfl
        · exact hmaster .leaving h.master
      · cases hstep
  | masterReady =>
      simp only [masterStep] at hstep
      split at hstep
      · obtain rfl := Option.some.inj hstep
        exact hmaster .evRun h.master
      · cases hstep
  | masterSocket o =>
      simp only [masterStep] at hstep
      split at hstep
      · have hopen := h.master.openFor (.ipcAccept s.last)
        cases o <;> obtain rfl := Option.some.inj hstep
        · exact hmaster .accept ⟨hopen.stdin, hopen.logFile⟩
        · exact hmaster .leaving ⟨h.master.stdin, h.master.logFile⟩
        · exact hmaster .leaving ⟨hopen.stdin, hopen.logFile⟩
      · cases hstep
  | masterAccept ok =>
      simp only [masterStep] at hstep
      split at hstep
      · have hopen := h.master.openFor (.ipcConnection s.last)
        split at hstep <;> obtain rfl := Option.some.inj hstep
        · exact hmaster .round ⟨hopen.stdin, hopen.logFile⟩
        · exact hmaster .exited h.master
      · cases hstep
  | masterExit =>
      simp only [masterStep] at hstep
      split at hstep
      · obtain rfl := Option.some.inj hstep
        exact hmaster .exited (h.master.workerDestroy none)
      · cases hstep
  | master b =>
      obtain ⟨x, hx, rfl⟩ := Option.map_eq_some_iff.mp hstep
      exact hmaster s.pc (h.master.of_background hx).1
  | worker k ok => exact h.onWorker (fun w w' hw hstep => hw.of_entry hstep) hstep
  | client k e => exact h.onWorker (fun w w' hw hstep => hw.of_client hstep) hstep
  | background k b =>
      refine h.onWorker (fun w w' hw hstep => ?_) hstep
      obtain ⟨x, hx, rfl⟩ := Option.map_eq_some_iff.mp hstep
      exact hw.of_background hx

theorem stateOk_of_reachable {promise : State → Label → Prop} {s : State}
    (hs : Transition.Reachable system promise s) : StateOk s := by
  refine hs.invariant ?_ fun _ _ _ h _ hstep => h.of_step hstep
  rintro s ⟨threadRuns, rfl⟩
  refine ⟨⟨⟨by simp [start], rfl⟩, by simp [start]⟩, fun w hw => ?_⟩
  cases hw

/-- Zero is no descriptor in the master in every run. In the workers it is as long as none of them has
come to the first `close` of `workerp_entry`, and no longer: whatever the log threads do in between,
that call closes the descriptor 0 the worker was started with. -/
theorem sentinel_sound_iff {s : State} (hs : Transition.Reachable system (fun _ _ => True) s) :
    ZeroIsNone s.master s.master.fields ∧
      (Sound s ↔ ∀ w ∈ s.workers, w.pc.beforeClose = true) := by
  have hok := stateOk_of_reachable hs
  have hmaster := hok.master.zeroIsNone s.master.fields_ne_stdio
  refine ⟨hmaster, ?_, ?_⟩
  · intro hsound w hw
    exact (hok.workers w hw).sound_iff.mp (hsound.workers w hw)
  · intro hbefore
    exact ⟨hmaster, fun w hw => (hok.workers w hw).sound_iff.mpr (hbefore w hw)⟩

/-- The master forks a worker and makes its sockets; the worker's `logger_thread` runs and nobody has
closed anything yet. -/
def oneWorkerForked : List Label :=
  [.masterFork true, .masterSocket .ok, .worker 0 true, .worker 0 true, .background 0 .logOpen]

theorem sentinel_sound_forked :
    ∃ s, Transition.Reachable system (fun _ _ => True) s ∧ s.workers.length = 1 ∧
      s.master.psWorker = [⟨3, 0, 0⟩] ∧ Sound s := by
  have hinit : Transition.Reachable system (fun _ _ => True) (start true) := .init ⟨true, rfl⟩
  obtain ⟨s, hrun, hone, hentry, hbefore⟩ : ∃ s, system.run (start true) oneWorkerForked = some s ∧
      s.workers.length = 1 ∧ s.master.psWorker = [⟨3, 0, 0⟩] ∧
      ∀ w ∈ s.workers, w.pc.beforeClose = true := ⟨_, rfl, by decide, by decide, by decide⟩
  have hs := hinit.run (fun _ _ _ => trivial) hrun
  exact ⟨s, hs, hone, hentry, (sentinel_sound_iff hs).2.mpr hbefore⟩

/-- The worker closes its two zeros and opens the socket to the master. -/
def oneWorkerConnects : List Label :=
  [.masterFork true, .masterSocket .ok] ++ List.replicate 6 (.worker 0 true)

theorem workerIPCfd_zero :
    ¬ ∀ s, Transition.Reachable system (fun _ _ => True) s → Sound s := by
  intro hsound
  have hinit : Transition.Reachable system (fun _ _ => True) (start true) := .init ⟨true, rfl⟩
  obtain ⟨s, w, hrun, hw, hfield, hopen, hkind⟩ : ∃ s w, system.run (start true) oneWorkerConnects
      = some s ∧ s.workers[0]? = some w ∧ (0, Kind.workerIpc) ∈ w.process.fields ∧
      0 ∈ w.process.table.fds ∧ w.process.table.kind 0 = .workerIpc :=
    ⟨_, _, rfl, rfl, by decide, by decide, by decide⟩
  have hs := hinit.run (fun _ _ _ => trivial) hrun
  have hworker := (hsound s hs).workers w (List.mem_of_getElem? hw)
  exact hworker.fields _ (List.mem_append_left _ hfield) ⟨hopen, hkind⟩ rfl

end CewServer.Worker.Sentinel
