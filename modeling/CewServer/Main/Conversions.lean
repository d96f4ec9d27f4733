import CewServer.Main.Boot
import CewServer.Settings.Outcome

/-!
# The port and the log level on their way

`main` hands two settings on, each through conversions that no check goes with. The port is cast to
`int16_t` for a parameter of type `uint16_t`, and printed into a buffer of six bytes for `getaddrinfo`.
The two casts together keep the port modulo `2 ^ 16`, so every port that exists arrives, and a number
that is no port arrives as one. The level is cast to an enumeration, which is an unsigned number of 32
bits, and is compared as such.
-/

namespace CewServer.Main

open Settings Logger

/-! ### `socket_setup` -/

/-- What the calls of `socket_setup` return, and `errno` when one has failed. -/
structure SocketCalls where
  getaddrinfo : Bytes → Int
  socket : Int
  setsockopt : Int
  bind : Int
  listen : Int
  fcntl : Int
  errno : Int

/-- The static `iFd` of `cew_socket.c`, and the `iFd` of `main` it is copied to. -/
structure Listener where
  iFd : Int
  iRetFd : Int

def sockExitSuccess : Int := 0

def cPortSize : Nat := 6

/-- `cPort` after `snprintf`: what is printed, cut to the buffer, with zeroes behind it. -/
def cPort (iPort : UInt16) : Bytes :=
  let printed := (Bytes.decimal iPort.toNat).take (cPortSize - 1)
  printed ++ List.replicate (cPortSize - printed.length) 0

def socketSetup (calls : SocketCalls) (iPort : UInt16) (s : Listener) : Int × Listener :=
  if calls.getaddrinfo (cPort iPort) ≠ 0 then (calls.errno, s)
  else
    let s := { s with iFd := calls.socket }
    if s.iFd < 0 then (calls.errno, s)
    else if calls.setsockopt = -1 then (calls.errno, s)
    else if calls.bind < 0 then (calls.errno, s)
    else if calls.listen < 0 then (calls.errno, s)
    else if calls.fcntl = -1 then (calls.errno, s)
    else (sockExitSuccess, { s with iRetFd := s.iFd })

/-- The argument `main` calls `socket_setup` with. -/
def portArgument (lPort : Int) : UInt16 := (Int16.ofInt lPort).toUInt16

/-- Whatever the calls return, `main` exits where it sets up its socket. -/
def StartupFails (lPort : Int) : Prop :=
  ∀ (calls : SocketCalls) (s : Listener) (bDeamonize : Bool) (logger : LoggerState),
    processStep bDeamonize ⟨.socketSetup, logger⟩
        (decide ((socketSetup calls (portArgument lPort) s).1 = sockExitSuccess))
      = some (⟨.exited, logger⟩, none)

/-- The port `n` arrives as it is, and what is no port does not get through. -/
def PortKept (n lPort : Int) : Prop :=
  (0 ≤ n ∧ n ≤ 65535 → Bytes.Denotes (Bytes.cstr (cPort (portArgument lPort))) n) ∧
    (¬ (0 ≤ n ∧ n ≤ 65535) → StartupFails lPort)

theorem toNat_portArgument (lPort : Int) : ((portArgument lPort).toNat : Int) = lPort % 2 ^ 16 := by
  have hnat : (portArgument lPort).toNat = (lPort % 2 ^ 16).toNat := BitVec.toNat_ofInt lPort
  omega

/-- The buffer holds every number of 16 bits. -/
theorem cstr_cPort (iPort : UInt16) : Bytes.cstr (cPort iPort) = Bytes.decimal iPort.toNat := by
  have hsize : (Bytes.decimal iPort.toNat).length ≤ 5 := by
    have hlt := iPort.toNat_lt
    exact Bytes.digits_length_le (by decide) (by omega)
  obtain ⟨zeroes, hzeroes⟩ : ∃ zeroes, cPort iPort = Bytes.decimal iPort.toNat ++ 0 :: zeroes := by
    refine ⟨List.replicate (5 - (Bytes.decimal iPort.toNat).length) 0, ?_⟩
    have hroom : cPortSize - (Bytes.decimal iPort.toNat).length
        = 5 - (Bytes.decimal iPort.toNat).length + 1 := Nat.succ_sub hsize
    simp only [cPort, List.take_of_length_le (show _ ≤ cPortSize - 1 from hsize), hroom,
      List.replicate_succ]
  rw [hzeroes, Bytes.cstr_append_zero, Bytes.cstr_eq_self (Bytes.zero_not_mem_decimal _)]

/-- What `getaddrinfo` is given stands for the port modulo `2 ^ 16`. -/
theorem denotes_cPort (lPort : Int) :
    Bytes.Denotes (Bytes.cstr (cPort (portArgument lPort))) (lPort % 2 ^ 16) := by
  rw [cstr_cPort, ← toNat_portArgument]
  exact Bytes.denotes_decimal _

def callsSucceed : SocketCalls where
  getaddrinfo _ := 0
  socket := 3
  setsockopt := 0
  bind := 0
  listen := 0
  fcntl := 0
  errno := 0

theorem not_startupFails (lPort : Int) : ¬ StartupFails lPort := by
  intro hfails
  have hexit := hfails callsSucceed ⟨0, 0⟩ false .created
  have hpc := congrArg (fun next => next.map fun x => x.1.pc) hexit
  cases hpc

theorem portKept_iff (n : Int) : PortKept n n ↔ 0 ≤ n ∧ n ≤ 65535 := by
  constructor
  · intro hkept
    by_contra hport
    exact not_startupFails n (hkept.2 hport)
  · intro hport
    refine ⟨fun _ => ?_, fun hnot => absurd hport hnot⟩
    have hdenotes := denotes_cPort n
    rwa [Int.emod_eq_of_lt hport.1 (by omega)] at hdenotes

/-! ### The level -/

/-- The argument `main` and `workerp_entry` call `logger_init` with. -/
def levelArgument (lLogLevel : Int) : UInt32 := UInt32.ofInt lLogLevel

/-- In a session with this level that takes messages at all, a message passes if its type is at most
`n`. -/
def LevelKept (n lLogLevel : Int) : Prop :=
  ∀ (p : Nat) (s : Session p), s.sCurrLogSettings.iCurrLogLevel = levelArgument lLogLevel →
    s.iIsInitDone = true → s.bTerminateProg = false → s.iShuttingDown = false →
    ∀ eType : LoggerType, s.isMsgAllowed eType = .exitSuccess ↔ (eType.value.toNat : Int) ≤ n

theorem toNat_levelArgument (lLogLevel : Int) :
    ((levelArgument lLogLevel).toNat : Int) = lLogLevel % 2 ^ 32 := by
  have hnat : (levelArgument lLogLevel).toNat = (lLogLevel % 2 ^ 32).toNat :=
    UInt32.toNat_ofNat_of_lt' (show (lLogLevel % 2 ^ 32).toNat < 2 ^ 32 by omega)
  omega

theorem isMsgAllowed_iff {p : Nat} {s : Session p} (hinit : s.iIsInitDone = true)
    (hprog : s.bTerminateProg = false) (hopen : s.iShuttingDown = false) (eType : LoggerType) :
    s.isMsgAllowed eType = .exitSuccess ↔ eType.value.toNat ≤ s.sCurrLogSettings.iCurrLogLevel.toNat := by
  simp only [Session.isMsgAllowed, hinit, hprog, hopen, Bool.not_true, Bool.false_eq_true, if_false]
  split
  · rename_i hlevel
    have hlt := UInt32.lt_iff_toNat_lt.mp hlevel
    exact iff_of_false LogRet.noConfusion (by omega)
  · rename_i hlevel
    exact iff_of_true rfl (Nat.le_of_not_lt fun hlt => hlevel (UInt32.lt_iff_toNat_lt.mpr hlt))

/-- A level does what it says as long as it compares with the four types as its 32-bit image does. -/
theorem levelKept_iff (n : Int) : LevelKept n n ↔ 0 ≤ n ∧ (n < 2 ^ 32 ∨ 3 ≤ n % 2 ^ 32) := by
  constructor
  · intro hkept
    have hsession : ∀ eType : LoggerType,
        (eType.value.toNat : Int) ≤ n % 2 ^ 32 ↔ (eType.value.toNat : Int) ≤ n := by
      intro eType
      have hlevel := hkept 0 (loggerInit LogSettings.default (levelArgument n) false 1) rfl rfl rfl rfl
        eType
      rw [isMsgAllowed_iff rfl rfl rfl] at hlevel
      rw [← hlevel, ← toNat_levelArgument]
      exact Int.ofNat_le
    have herror : (0 : Int) ≤ n % 2 ^ 32 ↔ 0 ≤ n := hsession .eERROR
    have hdebug : (3 : Int) ≤ n % 2 ^ 32 ↔ 3 ≤ n := hsession .eDEBUG
    omega
  · rintro ⟨hpos, hlarge⟩ p s hlevel hinit hprog hopen eType
    rw [isMsgAllowed_iff hinit hprog hopen, hlevel, ← Int.ofNat_le, toNat_levelArgument]
    have htype : eType.value.toNat ≤ 3 := by cases eType <;> decide
    omega

/-! ### From the settings file -/

def levelRow : OptionMapping := ⟨Bytes.ascii "logging", Bytes.ascii "level", .typeLong .lLogLevel⟩

theorem levelRow_mem : levelRow ∈ sKnownOptions := by decide

/-- A number in the settings file is the number in the settings. -/
theorem getLong_of_denotes {row : OptionMapping} (hrow : row ∈ sKnownOptions) {pvDst : LongSetting}
    (hlong : row.pvDst = .typeLong pvDst) {pair : Pair} (htakes : row.takes pair = true) {n : Int}
    (hn : Bytes.FitsLong n) (hdenotes : Bytes.Denotes pair.Value n) (l : Load) :
    (readPair pair.Section l (pair.Key, pair.Value)).sCurrSSettings.getLong pvDst = n := by
  rw [getLong_readPair hrow hlong htakes, Bytes.strtol_of_denotes hdenotes hn]

/-- A number configured as port or as level reaches the place where it is used exactly if it is a port,
and exactly if it compares with the message types as its 32-bit image does. -/
theorem configured_kept_iff {n : Int} (hn : Bytes.FitsLong n) {pair : Pair}
    (hdenotes : Bytes.Denotes pair.Value n) (l : Load) :
    (portRow.takes pair = true →
      (PortKept n (readPair pair.Section l (pair.Key, pair.Value)).sCurrSSettings.lPort
        ↔ 0 ≤ n ∧ n ≤ 65535)) ∧
    (levelRow.takes pair = true →
      (LevelKept n (readPair pair.Section l (pair.Key, pair.Value)).sCurrSSettings.lLogLevel
        ↔ 0 ≤ n ∧ (n < 2 ^ 32 ∨ 3 ≤ n % 2 ^ 32))) := by
  refine ⟨fun htakes => ?_, fun htakes => ?_⟩
  · have hport : _ = n := getLong_of_denotes portRow_mem rfl htakes hn hdenotes l
    rw [show (readPair _ _ _).sCurrSSettings.lPort = n from hport]
    exact portKept_iff n
  · have hlevel : _ = n := getLong_of_denotes levelRow_mem rfl htakes hn hdenotes l
    rw [show (readPair _ _ _).sCurrSSettings.lLogLevel = n from hlevel]
    exact levelKept_iff n

/-- The setting is written as `n`. -/
def portPair (n : Int) : Pair := ⟨Bytes.ascii "General", Bytes.ascii "port", Bytes.decimal n⟩

theorem portPair_kept :
    PortKept 40000 (readPair (portPair 40000).Section ⟨nothingSet, []⟩
      ((portPair 40000).Key, (portPair 40000).Value)).sCurrSSettings.lPort :=
  ((configured_kept_iff (n := 40000) ⟨by decide, by decide⟩ (Bytes.denotes_decimal 40000) _).1
    (by decide)).mpr ⟨by decide, by decide⟩

/-- Port 70000 is served as port 4464. -/
theorem configured_not_kept :
    ¬ ∀ n, Bytes.FitsLong n → ∀ pair, Bytes.Denotes pair.Value n → ∀ l,
      (portRow.takes pair = true →
        PortKept n (readPair pair.Section l (pair.Key, pair.Value)).sCurrSSettings.lPort) ∧
      (levelRow.takes pair = true →
        LevelKept n (readPair pair.Section l (pair.Key, pair.Value)).sCurrSSettings.lLogLevel) := by
  intro hkept
  have hport := (hkept 70000 ⟨by decide, by decide⟩ (portPair 70000) (Bytes.denotes_decimal 70000)
    ⟨nothingSet, []⟩).1 (by decide)
  exact not_startupFails _ (hport.2 (by decide))

end CewServer.Main
