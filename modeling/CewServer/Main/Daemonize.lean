import CewServer.Lib.Descriptors
import CewServer.Main.Boot
import Mathlib.Algebra.GroupWithZero.Nat

/-!
# Becoming a daemon

`daemonize` of `cew_main.c`, with all it changes of a process: session and terminal, the mask, the
directory, what it does about `SIGHUP`, and the descriptor table. It forks twice, so it has an ending in
each of up to three processes. The loop that closes the descriptors counts in 64 bits and hands `close` an
`int`, and it ends at the hard limit, which the process may have been over before the limit was set.
-/

namespace CewServer.Main

open Descriptors

/-- `errno` after a call that has failed. -/
abbrev Errno : Type := { errno : Int // errno ≠ 0 }

/-- A process, as far as `daemonize` changes it. `tty`: its session has a controlling terminal. -/
structure Task (Kind : Type) where
  pid : Nat
  pgid : Nat
  sid : Nat
  tty : Bool
  umask : Nat
  ignoresHangup : Bool
  cwd : Bytes
  table : Table Kind

/-- How the calls turn out. `getrlimit` gives `rlim_max`, a fork the number of the child; `fd0` to `fd2`
say whether `open` and the two `dup` find room. -/
structure DaemonCalls where
  getrlimit : Option Nat
  sessionFork : Except Errno Nat
  sigaction : Except Errno Unit
  realFork : Except Errno Nat
  chdir : Except Errno Unit
  fd0 : Bool
  fd1 : Bool
  fd2 : Bool

/-- How `daemonize` ends in a process. -/
inductive Ending (Kind : Type) where
  | exits (status : Int)
  | doExit (message : Bytes) (status : Int)
  | returns (iRet : Int) (x : Task Kind)

/-- The `exit` of a parent. -/
def Ending.isExit {Kind : Type} : Ending Kind → Bool
  | .exits _ => true
  | .doExit _ _ | .returns _ _ => false

def retOk : Int := 0

def exitSuccess : Int := 0

def rlimInfinity : Nat := 2 ^ 64 - 1

def fileLimit (rlim_max : Nat) : Nat := if rlim_max = rlimInfinity then 1024 else rlim_max

section Daemonize

variable {Kind : Type}

namespace Task

/-- The child: a copy, but for its number. -/
def forked (x : Task Kind) (pid : Nat) : Task Kind := { x with pid := pid }

/-- The leader of a process group gets an error, which `daemonize` does not look at. -/
def setsid (x : Task Kind) : Task Kind :=
  if x.pgid = x.pid then x else { x with pgid := x.pid, sid := x.pid, tty := false }

end Task

/-- A `uint64_t` as the `int` it becomes. -/
def intArgument (i : Nat) : Int := (i : Int).bmod (2 ^ 32)

/-- `close(i)`. No descriptor is negative. -/
def closeNumber (t : Table Kind) (i : Nat) : Table Kind :=
  if 0 ≤ intArgument i then t.close (intArgument i).toNat else t

def closeAll (t : Table Kind) (rlim_max : Nat) : Table Kind := (List.range rlim_max).foldl closeNumber t

def openFor (t : Table Kind) (ok : Bool) (k : Kind) : Int × Table Kind :=
  if ok then (t.next, t.openNext k) else (-1, t)

def dup (t : Table Kind) (ok : Bool) (fd : Nat) : Int × Table Kind :=
  if ok ∧ fd ∈ t.fds then (t.next, t.openNext (t.kind fd)) else (-1, t)

/-- `fd0`, `fd1` and `fd2`, and the table afterwards. -/
def attachDevNull (devNull : Kind) (calls : DaemonCalls) (t : Table Kind) : (Int × Int × Int) × Table Kind :=
  let fd0 := openFor t calls.fd0 devNull
  let fd1 := dup fd0.2 calls.fd1 0
  let fd2 := dup fd1.2 calls.fd2 0
  ((fd0.1, fd1.1, fd2.1), fd2.2)

/-- `daemonize` after the second fork, in the child. -/
def attach (devNull : Kind) (calls : DaemonCalls) (rlim_max : Nat) (x : Task Kind) : Ending Kind :=
  match calls.chdir with
  | .error errno => .returns errno.1 x
  | .ok () =>
      let attached := attachDevNull devNull calls (closeAll x.table (fileLimit rlim_max))
      if attached.1.1 ≠ 0 ∨ attached.1.2.1 ≠ 1 ∨ attached.1.2.2 ≠ 2 then
        .doExit (Bytes.ascii "Error setting up file descriptors.") 1
      else .returns retOk { x with cwd := Bytes.ascii "/", table := attached.2 }

/-- `daemonize` after the first fork, in the child and, if it comes to that, in the child of the child. -/
def leadSession (devNull : Kind) (calls : DaemonCalls) (rlim_max : Nat) (x : Task Kind) :
    List (Ending Kind) :=
  let x := x.setsid
  match calls.sigaction with
  | .error errno => [.returns errno.1 x]
  | .ok () =>
      let x := { x with ignoresHangup := true }
      match calls.realFork with
      | .error errno => [.returns errno.1 x]
      | .ok pid => [.exits exitSuccess, attach devNull calls rlim_max (x.forked pid)]

/-- The endings in the process that calls `daemonize` and in those it forks, in the order of the forks. -/
def daemonize (devNull : Kind) (calls : DaemonCalls) (x : Task Kind) : List (Ending Kind) :=
  let x := { x with umask := 0 }
  match calls.getrlimit with
  | none => [.doExit (Bytes.ascii "Can't get file limit. Line %d.") 1]
  | some rlim_max =>
      match calls.sessionFork with
      | .error errno => [.returns errno.1 x]
      | .ok pid => .exits exitSuccess :: leadSession devNull calls rlim_max (x.forked pid)

/-! ### The descriptors -/

variable {t : Table Kind} {fd : Nat}

theorem mem_closeNumber {i : Nat} :
    fd ∈ (closeNumber t i).fds ↔ fd ∈ t.fds ∧ intArgument i ≠ fd := by
  rw [closeNumber]
  by_cases hfd : 0 ≤ intArgument i
  · rw [if_pos hfd, Table.close, Finset.mem_erase, and_comm]
    apply and_congr_right
    intro
    omega
  · rw [if_neg hfd]
    refine ⟨fun hmem => ⟨hmem, fun heq => hfd (heq ▸ Int.natCast_nonneg fd)⟩, And.left⟩

theorem closeAll_succ (t : Table Kind) (n : Nat) :
    closeAll t (n + 1) = closeNumber (closeAll t n) n := by
  rw [closeAll, List.range_succ, List.foldl_append, List.foldl_cons, List.foldl_nil, closeAll]

theorem mem_closeAll {n : Nat} :
    fd ∈ (closeAll t n).fds ↔ fd ∈ t.fds ∧ ∀ i < n, intArgument i ≠ fd := by
  induction n with
  | zero => simp [closeAll]
  | succ n ih => rw [closeAll_succ, mem_closeNumber, ih, and_assoc, Nat.forall_lt_succ_right]

theorem kind_closeAll (t : Table Kind) (n : Nat) : (closeAll t n).kind = t.kind := by
  induction n with
  | zero => rfl
  | succ n ih =>
      rw [closeAll_succ, closeNumber]
      split <;> exact ih

theorem intArgument_eq_iff {i : Nat} (hint : fd < 2 ^ 31) :
    intArgument i = fd ↔ i % 2 ^ 32 = fd := by
  have hbalanced := Int.bmod_eq_emod (i : Int) (2 ^ 32)
  unfold intArgument
  rw [hbalanced]
  split <;> omega

/-- The loop may count beyond the range of `int`, but it starts with the descriptors themselves. -/
theorem intArgument_ne_iff {n : Nat} (hint : fd < 2 ^ 31) :
    (∀ i < n, intArgument i ≠ fd) ↔ n ≤ fd := by
  constructor
  · intro hnever
    by_contra hlt
    apply hnever fd (Nat.lt_of_not_le hlt)
    rw [intArgument_eq_iff hint]
    omega
  · intro hle i hi heq
    rw [intArgument_eq_iff hint] at heq
    omega

theorem fds_closeAll (hints : ∀ fd ∈ t.fds, fd < 2 ^ 31) (n : Nat) :
    (closeAll t n).fds = t.fds.filter (n ≤ ·) := by
  ext fd
  rw [mem_closeAll, Finset.mem_filter]
  exact and_congr_right fun hfd => intArgument_ne_iff (hints fd hfd)

/-- Of `t`, the first `n` numbers have been opened for `/dev/null`. -/
structure OnDevNull (devNull : Kind) (t : Table Kind) (n : Nat) (t' : Table Kind) : Prop where
  fds : t'.fds = t.fds ∪ Finset.range n
  devNull : ∀ fd < n, t'.kind fd = devNull
  others : ∀ fd, n ≤ fd → t'.kind fd = t.kind fd

namespace OnDevNull

variable {devNull : Kind} {t' : Table Kind} {n : Nat}

theorem start (devNull : Kind) (t : Table Kind) : OnDevNull devNull t 0 t where
  fds := by rw [Finset.range_zero, Finset.union_empty]
  devNull fd hfd := absurd hfd (Nat.not_lt_zero fd)
  others _ _ := rfl

theorem next_eq_iff (h : OnDevNull devNull t n t') : t'.next = n ↔ n ∉ t.fds := by
  rw [Table.next, lowestFree_eq_iff, h.fds]
  constructor
  · intro hnext hmem
    exact hnext.1 (Finset.mem_union_left _ hmem)
  · intro hfree
    refine ⟨?_, fun below hbelow => Finset.mem_union_right _ (Finset.mem_range.mpr hbelow)⟩
    rw [Finset.mem_union, Finset.mem_range]
    exact fun hmem => hmem.elim hfree (Nat.lt_irrefl n)

theorem openNext (h : OnDevNull devNull t n t') (hfree : n ∉ t.fds) :
    OnDevNull devNull t (n + 1) (t'.openNext devNull) := by
  have hnext := h.next_eq_iff.mpr hfree
  have hkind : (t'.openNext devNull).kind = Function.update t'.kind n devNull := by
    rw [Table.openNext, hnext]
  refine ⟨?_, fun fd hfd => ?_, fun fd hfd => ?_⟩
  · show insert t'.next t'.fds = t.fds ∪ Finset.range (n + 1)
    rw [hnext, h.fds, Finset.range_add_one, Finset.union_insert]
  · rw [hkind]
    by_cases hlast : fd = n
    · rw [hlast, Function.update_self]
    · rw [Function.update_of_ne hlast]
      exact h.devNull fd (by omega)
  · rw [hkind, Function.update_of_ne (by omega)]
    exact h.others fd (by omega)

theorem open_iff (devNull : Kind) (t : Table Kind) (ok : Bool) :
    (openFor t ok devNull).1 = 0 ↔ ok = true ∧ 0 ∉ t.fds := by
  rw [← (start devNull t).next_eq_iff, openFor]
  cases ok
  · simp
  · simp only [if_true, true_and]
    omega

theorem open_table {ok : Bool} (hopen : (openFor t ok devNull).1 = 0) :
    OnDevNull devNull t 1 (openFor t ok devNull).2 := by
  obtain ⟨rfl, hfree⟩ := (open_iff devNull t ok).mp hopen
  exact (start devNull t).openNext hfree

/-- `dup(0)`, once zero is `/dev/null`. -/
theorem dup_iff (h : OnDevNull devNull t n t') (hpos : 0 < n) (ok : Bool) :
    (dup t' ok 0).1 = n ↔ ok = true ∧ n ∉ t.fds := by
  have hzero : 0 ∈ t'.fds := by
    rw [h.fds]
    exact Finset.mem_union_right _ (Finset.mem_range.mpr hpos)
  rw [← h.next_eq_iff, dup]
  cases ok
  · rw [if_neg (by simp)]
    simp only [Bool.false_eq_true, false_and, iff_false]
    omega
  · rw [if_pos ⟨rfl, hzero⟩]
    simp only [true_and]
    omega

theorem dup_table (h : OnDevNull devNull t n t') (hpos : 0 < n) {ok : Bool} (hdup : (dup t' ok 0).1 = n) :
    OnDevNull devNull t (n + 1) (dup t' ok 0).2 := by
  obtain ⟨rfl, hfree⟩ := (h.dup_iff hpos ok).mp hdup
  have hzero : 0 ∈ t'.fds := by
    rw [h.fds]
    exact Finset.mem_union_right _ (Finset.mem_range.mpr hpos)
  rw [dup, if_pos ⟨rfl, hzero⟩, h.devNull 0 hpos]
  exact h.openNext hfree

end OnDevNull

/-- The three numbers come out as wanted exactly if the calls succeed and none of the three is in use. -/
theorem attachDevNull_iff (devNull : Kind) (calls : DaemonCalls) (t : Table Kind) :
    (attachDevNull devNull calls t).1 = (0, 1, 2)
      ↔ (calls.fd0 = true ∧ calls.fd1 = true ∧ calls.fd2 = true) ∧ ∀ fd < 3, fd ∉ t.fds := by
  simp only [attachDevNull, Prod.mk.injEq]
  constructor
  · rintro ⟨h0, h1, h2⟩
    have ht0 := OnDevNull.open_table h0
    have ht1 := ht0.dup_table Nat.one_pos h1
    obtain ⟨hok0, hfree0⟩ := (OnDevNull.open_iff devNull t calls.fd0).mp h0
    obtain ⟨hok1, hfree1⟩ := (ht0.dup_iff Nat.one_pos calls.fd1).mp h1
    obtain ⟨hok2, hfree2⟩ := (ht1.dup_iff Nat.two_pos calls.fd2).mp h2
    refine ⟨⟨hok0, hok1, hok2⟩, fun fd hfd => ?_⟩
    obtain rfl | rfl | rfl : fd = 0 ∨ fd = 1 ∨ fd = 2 := by omega
    · exact hfree0
    · exact hfree1
    · exact hfree2
  · rintro ⟨⟨hok0, hok1, hok2⟩, hfree⟩
    have h0 := (OnDevNull.open_iff devNull t calls.fd0).mpr ⟨hok0, hfree 0 (by omega)⟩
    have ht0 := OnDevNull.open_table h0
    have h1 := (ht0.dup_iff Nat.one_pos calls.fd1).mpr ⟨hok1, hfree 1 (by omega)⟩
    have ht1 := ht0.dup_table Nat.one_pos h1
    exact ⟨h0, h1, (ht1.dup_iff Nat.two_pos calls.fd2).mpr ⟨hok2, hfree 2 (by omega)⟩⟩

theorem attachDevNull_table {devNull : Kind} {calls : DaemonCalls}
    (h : (attachDevNull devNull calls t).1 = (0, 1, 2)) :
    OnDevNull devNull t 3 (attachDevNull devNull calls t).2 := by
  simp only [attachDevNull, Prod.mk.injEq] at h
  obtain ⟨h0, h1, h2⟩ := h
  exact ((OnDevNull.open_table h0).dup_table Nat.one_pos h1).dup_table Nat.two_pos h2

/-! ### The endings -/

/-- A number `fork` gives is neither that of a process group there is nor that of a process. -/
structure DaemonCalls.Fresh (calls : DaemonCalls) (x : Task Kind) : Prop where
  session : ∀ pid, calls.sessionFork = .ok pid → pid ≠ x.pgid
  real : ∀ pid child, calls.sessionFork = .ok pid → calls.realFork = .ok child → child ≠ pid

/-- Every call succeeds, with this hard limit. -/
structure DaemonCalls.Succeed (calls : DaemonCalls) (rlim_max : Nat) : Prop where
  getrlimit : calls.getrlimit = some rlim_max
  sessionFork : ∃ pid, calls.sessionFork = .ok pid
  sigaction : calls.sigaction = .ok ()
  realFork : ∃ pid, calls.realFork = .ok pid
  chdir : calls.chdir = .ok ()
  descriptors : calls.fd0 = true ∧ calls.fd1 = true ∧ calls.fd2 = true

/-- A daemon: no terminal, and no way to one, since opening a terminal makes it that of the session only
in the leader of the session. Of the descriptors of `x`, those from the limit on are left. -/
structure Daemon (devNull : Kind) (x : Task Kind) (limit : Nat) (y : Task Kind) : Prop where
  noTerminal : y.tty = false
  notLeader : y.sid ≠ y.pid
  ignoresHangup : y.ignoresHangup = true
  umask : y.umask = 0
  cwd : y.cwd = Bytes.ascii "/"
  fds : y.table.fds = x.table.fds.filter (limit ≤ ·) ∪ Finset.range 3
  devNull : ∀ fd < 3, y.table.kind fd = devNull
  others : ∀ fd, 3 ≤ fd → y.table.kind fd = x.table.kind fd

variable {devNull : Kind} {calls : DaemonCalls} {x y : Task Kind} {rlim_max : Nat}

theorem attach_returns_iff (devNull : Kind) (hints : ∀ fd ∈ x.table.fds, fd < 2 ^ 31) :
    attach devNull calls rlim_max x = .returns retOk y
      ↔ calls.chdir = .ok () ∧ (calls.fd0 = true ∧ calls.fd1 = true ∧ calls.fd2 = true) ∧
        (∀ fd ∈ x.table.fds, fd < 3 → fd < fileLimit rlim_max) ∧
        y = { x with
          cwd := Bytes.ascii "/"
          table := (attachDevNull devNull calls (closeAll x.table (fileLimit rlim_max))).2 } := by
  have hlow : (∀ fd < 3, fd ∉ (closeAll x.table (fileLimit rlim_max)).fds)
      ↔ ∀ fd ∈ x.table.fds, fd < 3 → fd < fileLimit rlim_max := by
    rw [fds_closeAll hints]
    simp only [Finset.mem_filter, not_and, Nat.not_le]
    exact ⟨fun h fd hfd hlt => h fd hlt hfd, fun h fd hlt hfd => h fd hfd hlt⟩
  have hthree := attachDevNull_iff devNull calls (closeAll x.table (fileLimit rlim_max))
  rw [hlow, Prod.ext_iff, Prod.ext_iff] at hthree
  rw [attach]
  cases hchdir : calls.chdir with
  | error errno =>
      simp only [Ending.returns.injEq, reduceCtorEq, false_and, iff_false, not_and]
      exact fun hzero => absurd hzero errno.2
  | ok u =>
      rw [← and_assoc (b := ∀ fd ∈ x.table.fds, _), ← hthree]
      dsimp only
      split
      · rename_i hwrong
        simp only [reduceCtorEq, false_iff, not_and]
        omega
      · rename_i hright
        simp only [Ending.returns.injEq, true_and]
        constructor
        · rintro rfl
          refine ⟨⟨?_, ?_, ?_⟩, rfl⟩ <;> omega
        · rintro ⟨-, rfl⟩
          rfl

/-- The process that is left to run `attach`. -/
def grandchild (x : Task Kind) (pid child : Nat) : Task Kind :=
  { ({ x with umask := 0 }.forked pid).setsid with ignoresHangup := true }.forked child

/-- Only the last process can return success, and only if it has come to `attach`. -/
theorem returns_mem_daemonize :
    .returns retOk y ∈ daemonize devNull calls x
      ↔ ∃ rlim_max pid child, calls.getrlimit = some rlim_max ∧ calls.sessionFork = .ok pid ∧
        calls.sigaction = .ok () ∧ calls.realFork = .ok child ∧
        attach devNull calls rlim_max (grandchild x pid child) = .returns retOk y := by
  have hfailed : ∀ (errno : Errno) (z : Task Kind), ¬ .returns retOk y ∈ [Ending.returns errno.1 z] := by
    intro errno z hmem
    obtain ⟨hzero, -⟩ := Ending.returns.inj (List.mem_singleton.mp hmem)
    exact errno.2 hzero.symm
  rw [daemonize]
  cases hlimit : calls.getrlimit with
  | none => simp
  | some rlim_max =>
      cases hsession : calls.sessionFork with
      | error errno => simpa using hfailed errno _
      | ok pid =>
          dsimp only
          rw [List.mem_cons, leadSession]
          cases hsig : calls.sigaction with
          | error errno => simpa using hfailed errno _
          | ok u =>
              cases hreal : calls.realFork with
              | error errno => simpa using hfailed errno _
              | ok child =>
                  simp only [List.mem_cons, List.not_mem_nil, reduceCtorEq, false_or, or_false,
                    Option.some.injEq, Except.ok.injEq, exists_and_left, exists_eq_left', true_and]
                  exact eq_comm

theorem grandchild_tty {pid : Nat} (hpid : pid ≠ x.pgid) (child : Nat) :
    (grandchild x pid child).tty = false := by
  simp [grandchild, Task.setsid, Task.forked, hpid.symm]

theorem grandchild_sid {pid : Nat} (hpid : pid ≠ x.pgid) (child : Nat) :
    (grandchild x pid child).sid = pid := by
  simp [grandchild, Task.setsid, Task.forked, hpid.symm]

theorem grandchild_table (x : Task Kind) (pid child : Nat) : (grandchild x pid child).table = x.table := by
  rw [grandchild, Task.setsid]
  split <;> rfl

theorem grandchild_umask (x : Task Kind) (pid child : Nat) : (grandchild x pid child).umask = 0 := by
  rw [grandchild, Task.setsid]
  split <;> rfl

/-- All processes but one exit. -/
theorem daemonize_shape (devNull : Kind) (calls : DaemonCalls) (x : Task Kind) :
    ∃ parents e, daemonize devNull calls x = List.replicate parents (.exits exitSuccess) ++ [e] ∧
      e.isExit = false := by
  have hattach : ∀ rlim_max z, (attach devNull calls rlim_max z).isExit = false := by
    intro rlim_max z
    rw [attach]
    cases calls.chdir with
    | error errno => rfl
    | ok u =>
        dsimp only
        split <;> rfl
  rw [daemonize]
  cases calls.getrlimit with
  | none => exact ⟨0, _, rfl, rfl⟩
  | some rlim_max =>
      cases calls.sessionFork with
      | error errno => exact ⟨0, _, rfl, rfl⟩
      | ok pid =>
          dsimp only
          rw [leadSession]
          cases calls.sigaction with
          | error errno => exact ⟨1, _, rfl, rfl⟩
          | ok u =>
              cases calls.realFork with
              | error errno => exact ⟨1, _, rfl, rfl⟩
              | ok child => exact ⟨2, _, rfl, hattach _ _⟩

/-- What `main` does next in the process. -/
def Ending.pc : Ending Kind → Pc
  | .returns iRet _ => if iRet = retOk then .allocate 0 else .exited
  | .exits _ | .doExit _ _ => .exited

/-- The endings are what the processes come to in a run of `main`. -/
theorem daemonize_boot (devNull : Kind) (calls : DaemonCalls) (x : Task Kind) (logger : LoggerState) :
    ∃ ls s, (processes true).run [⟨.getrlimit, logger⟩] ls = some s ∧
      s.map Process.pc = (daemonize devNull calls x).map Ending.pc := by
  have hfailed : ∀ (errno : Errno) (z : Task Kind), Pc.exited = (Ending.returns errno.1 z).pc := by
    intro errno z
    exact (if_neg errno.2).symm
  rw [daemonize]
  cases calls.getrlimit with
  | none => exact ⟨[.run 0 false], _, rfl, rfl⟩
  | some rlim_max =>
      cases calls.sessionFork with
      | error errno =>
          refine ⟨[.run 0 true, .run 0 false], _, rfl, ?_⟩
          exact congrArg (· :: []) (hfailed errno _)
      | ok pid =>
          dsimp only
          rw [leadSession]
          cases calls.sigaction with
          | error errno =>
              refine ⟨[.run 0 true, .run 0 true, .run 1 false], _, rfl, ?_⟩
              exact congrArg (Pc.exited :: · :: []) (hfailed errno _)
          | ok u =>
              cases calls.realFork with
              | error errno =>
                  refine ⟨[.run 0 true, .run 0 true, .run 1 true, .run 1 false], _, rfl, ?_⟩
                  exact congrArg (Pc.exited :: · :: []) (hfailed errno _)
              | ok child =>
                  dsimp only
                  rw [attach]
                  cases calls.chdir with
                  | error errno =>
                      refine ⟨[.run 0 true, .run 0 true, .run 1 true, .run 1 true, .run 2 false], _, rfl, ?_⟩
                      exact congrArg (Pc.exited :: Pc.exited :: · :: []) (hfailed errno _)
                  | ok u =>
                      dsimp only
                      split
                      · exact ⟨[.run 0 true, .run 0 true, .run 1 true, .run 1 true, .run 2 true,
                          .run 2 false], _, rfl, rfl⟩
                      · exact ⟨[.run 0 true, .run 0 true, .run 1 true, .run 1 true, .run 2 true,
                          .run 2 true], _, rfl, rfl⟩

/-- `daemonize` leaves one process. It returns success there exactly if every call succeeds and no
descriptor below three has been over the limit, and then the process is a daemon. -/
theorem daemonize_detaches (devNull : Kind) {calls : DaemonCalls} {x : Task Kind}
    (hfresh : calls.Fresh x) (hints : ∀ fd ∈ x.table.fds, fd < 2 ^ 31) :
    (∃ parents e, daemonize devNull calls x = List.replicate parents (.exits exitSuccess) ++ [e] ∧
      e.isExit = false) ∧
    ((∃ y, .returns retOk y ∈ daemonize devNull calls x)
      ↔ ∃ rlim_max, calls.Succeed rlim_max ∧
        ∀ fd ∈ x.table.fds, fd < 3 → fd < fileLimit rlim_max) ∧
    ∀ y, .returns retOk y ∈ daemonize devNull calls x →
      ∃ rlim_max, calls.getrlimit = some rlim_max ∧ Daemon devNull x (fileLimit rlim_max) y := by
  refine ⟨daemonize_shape devNull calls x, ⟨?_, ?_⟩, ?_⟩
  · rintro ⟨y, hy⟩
    obtain ⟨rlim_max, pid, child, hlimit, hsession, hsig, hreal, hattach⟩ := returns_mem_daemonize.mp hy
    rw [attach_returns_iff devNull (by rwa [grandchild_table]), grandchild_table] at hattach
    obtain ⟨hchdir, hok, hlow, -⟩ := hattach
    exact ⟨rlim_max, ⟨hlimit, ⟨pid, hsession⟩, hsig, ⟨child, hreal⟩, hchdir, hok⟩, hlow⟩
  · rintro ⟨rlim_max, hsucceed, hlow⟩
    obtain ⟨pid, hsession⟩ := hsucceed.sessionFork
    obtain ⟨child, hreal⟩ := hsucceed.realFork
    rw [← grandchild_table x pid child] at hints hlow
    have hattach := (attach_returns_iff devNull hints).mpr ⟨hsucceed.chdir, hsucceed.descriptors, hlow, rfl⟩
    exact ⟨_, returns_mem_daemonize.mpr ⟨rlim_max, pid, child, hsucceed.getrlimit, hsession,
      hsucceed.sigaction, hreal, hattach⟩⟩
  · intro y hy
    obtain ⟨rlim_max, pid, child, hlimit, hsession, hsig, hreal, hattach⟩ := returns_mem_daemonize.mp hy
    rw [attach_returns_iff devNull (by rwa [grandchild_table]), grandchild_table] at hattach
    obtain ⟨hchdir, hok, hlow, rfl⟩ := hattach
    have htable : OnDevNull devNull (closeAll x.table (fileLimit rlim_max)) 3
        (attachDevNull devNull calls (closeAll x.table (fileLimit rlim_max))).2 := by
      apply attachDevNull_table
      rw [attachDevNull_iff, fds_closeAll hints]
      refine ⟨hok, fun fd hlt hfd => ?_⟩
      obtain ⟨hfd, hle⟩ := Finset.mem_filter.mp hfd
      exact absurd (hlow fd hfd hlt) (Nat.not_lt.mpr hle)
    have hpid := hfresh.session pid hsession
    refine ⟨rlim_max, hlimit, grandchild_tty hpid child, ?_, rfl, grandchild_umask x pid child, rfl, ?_,
      htable.devNull, ?_⟩
    · show (grandchild x pid child).sid ≠ child
      rw [grandchild_sid hpid]
      exact (hfresh.real pid child hsession hreal).symm
    · show (attachDevNull devNull calls (closeAll x.table (fileLimit rlim_max))).2.fds = _
      rw [htable.fds, fds_closeAll hints]
    · intro fd hfd
      rw [htable.others fd hfd, kind_closeAll]

end Daemonize

/-- Started at a terminal, with its log file open as descriptor 3 and no limit set. -/
def atTerminal : Task Bool where
  pid := 100
  pgid := 100
  sid := 50
  tty := true
  umask := 18
  ignoresHangup := false
  cwd := Bytes.ascii "/work"
  table := ⟨{0, 1, 2, 3}, fun _ => false⟩

def allSucceed : DaemonCalls where
  getrlimit := some rlimInfinity
  sessionFork := .ok 101
  sigaction := .ok ()
  realFork := .ok 102
  chdir := .ok ()
  fd0 := true
  fd1 := true
  fd2 := true

theorem daemonize_detaches_atTerminal :
    ∃ y, .returns retOk y ∈ daemonize true allSucceed atTerminal ∧ y.tty = false ∧ y.sid ≠ y.pid ∧
      y.table.fds = {0, 1, 2} := by
  have hfresh : allSucceed.Fresh atTerminal := by
    refine ⟨fun pid hpid => ?_, fun pid child hpid hchild => ?_⟩
    · obtain rfl := Except.ok.inj hpid
      decide
    · obtain rfl := Except.ok.inj hpid
      obtain rfl := Except.ok.inj hchild
      decide
  have hfds : ∀ fd ∈ atTerminal.table.fds, fd < 4 := by decide
  have hints : ∀ fd ∈ atTerminal.table.fds, fd < 2 ^ 31 := fun fd hfd => by
    have := hfds fd hfd
    omega
  obtain ⟨-, hreturns, hdaemon⟩ := daemonize_detaches true hfresh hints
  have hsucceed : allSucceed.Succeed rlimInfinity :=
    ⟨rfl, ⟨101, rfl⟩, rfl, ⟨102, rfl⟩, rfl, rfl, rfl, rfl⟩
  obtain ⟨y, hy⟩ := hreturns.mpr ⟨rlimInfinity, hsucceed, fun fd hfd _ => by
    have := hfds fd hfd
    rw [fileLimit, if_pos rfl]
    omega⟩
  obtain ⟨rlim_max, hlimit, hy'⟩ := hdaemon y hy
  obtain rfl := Option.some.inj hlimit
  refine ⟨y, hy, hy'.noTerminal, hy'.notLeader, ?_⟩
  rw [hy'.fds, fileLimit, if_pos rfl]
  decide

end CewServer.Main
