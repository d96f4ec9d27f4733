import CewServer.Logger.Session

/-!
# The settings and the options that set them

The table of `cew_settings.c` and the functions that use it. An option of the settings file is a
section, a key and a value; `parse_option` goes through the table, and a row is taken for the option
when the row's names are at the beginning of the names given. What the loop of `settings_load` reads
comes from libini: a file is its sections and their pairs, and in each of the two loops the code the
library may end with instead of zero.
-/

namespace CewServer.Settings

open Logger (LoggerType)

inductive LongSetting where
  | lMaxClientsPerThread
  | lWorkerThreads
  | lLogLevel
  | lPort
  deriving DecidableEq

inductive StringSetting where
  | pcLogfile
  deriving DecidableEq

/-- `tsSSettings`. A string that was never set is NULL. -/
structure SSettings where
  lMaxClientsPerThread : Int
  lWorkerThreads : Int
  lLogLevel : Int
  lPort : Int
  pcLogfile : Option Bytes
  deriving DecidableEq

namespace SSettings

def getLong (s : SSettings) : LongSetting → Int
  | .lMaxClientsPerThread => s.lMaxClientsPerThread
  | .lWorkerThreads => s.lWorkerThreads
  | .lLogLevel => s.lLogLevel
  | .lPort => s.lPort

def setLong (s : SSettings) (lVal : Int) : LongSetting → SSettings
  | .lMaxClientsPerThread => { s with lMaxClientsPerThread := lVal }
  | .lWorkerThreads => { s with lWorkerThreads := lVal }
  | .lLogLevel => { s with lLogLevel := lVal }
  | .lPort => { s with lPort := lVal }

def getString (s : SSettings) : StringSetting → Option Bytes
  | .pcLogfile => s.pcLogfile

def setString (s : SSettings) (value : Bytes) : StringSetting → SSettings
  | .pcLogfile => { s with pcLogfile := some value }

end SSettings

/-- `eType` and `pvDst` of a row: the type says what the destination points to. -/
inductive Destination where
  | typeNone
  | typeLong (pvDst : LongSetting)
  | typeString (pvDst : StringSetting)
  deriving DecidableEq

structure OptionMapping where
  pSection : Bytes
  pKey : Bytes
  pvDst : Destination
  deriving DecidableEq

/-- The rows the loops go through; the one with NULL names behind them is never reached. -/
def sKnownOptions : List OptionMapping :=
  [⟨Bytes.ascii "general", Bytes.ascii "workers", .typeLong .lWorkerThreads⟩,
    ⟨Bytes.ascii "general", Bytes.ascii "clients", .typeLong .lMaxClientsPerThread⟩,
    ⟨Bytes.ascii "general", Bytes.ascii "port", .typeLong .lPort⟩,
    ⟨Bytes.ascii "logging", Bytes.ascii "logfile", .typeString .pcLogfile⟩,
    ⟨Bytes.ascii "logging", Bytes.ascii "level", .typeLong .lLogLevel⟩]

inductive SettingsRet where
  | exitSuccess
  | exitFailure
  | noType
  | noMap
  | noFile
  deriving DecidableEq

/-- The comparison of `parse_option`, as long as the names of the row are. -/
def OptionMapping.accepts (psSetting : OptionMapping) (cpcSection cpcKey : Bytes) : Bool :=
  Bytes.strncmpEq psSetting.pSection cpcSection psSetting.pSection.length &&
    Bytes.strncmpEq psSetting.pKey cpcKey psSetting.pKey.length

/-- The loop of `parse_option` over the rows that are left. A string leaves the `switch` and not the
function: the scan goes on with the string stored. -/
def parseRows (cpcSection cpcKey cpcValue : Bytes) :
    List OptionMapping → SSettings → SettingsRet × SSettings
  | [], s => (.noMap, s)
  | psSetting :: rows, s =>
      if psSetting.accepts cpcSection cpcKey then
        match psSetting.pvDst with
        | .typeLong pvDst => (.exitSuccess, s.setLong (Bytes.strtol cpcValue) pvDst)
        | .typeString pvDst => parseRows cpcSection cpcKey cpcValue rows (s.setString cpcValue pvDst)
        | .typeNone => (.noType, s)
      else parseRows cpcSection cpcKey cpcValue rows s

def parseOption (cpcSection cpcKey cpcValue : Bytes) (sCurrSSettings : SSettings) :
    SettingsRet × SSettings :=
  parseRows cpcSection cpcKey cpcValue sKnownOptions sCurrSSettings

/-! ### The settings file -/

/-- A code below zero. -/
abbrev IniError := { iRet : Int // iRet < 0 }

/-- A section as libini reads it: its pairs, and the code `ini_read_pair` returns after them if it is
not zero. -/
structure IniSection where
  name : Bytes
  pairs : List (Bytes × Bytes)
  error : Option IniError

/-- A file as libini reads it: its sections, and the code `ini_next_section` returns after them if it
is not zero. -/
structure IniFile where
  sections : List IniSection
  error : Option IniError

/-- The settings, and the messages logged so far as `log_msg` has them: cut to its buffer. -/
structure Load where
  sCurrSSettings : SSettings
  log : List (LoggerType × Bytes)

def Load.logMsg (l : Load) (eType : LoggerType) (text : Bytes) : Load :=
  { l with log := l.log ++ [(eType, Logger.cUserMsg text)] }

def readingMsg (Key Value : Bytes) : Bytes :=
  Bytes.ascii "Reading Key: '" ++ Bytes.cstr Key ++ Bytes.ascii "' Value: '" ++ Bytes.cstr Value
    ++ Bytes.ascii "'"

def errorMsg (iRet : Int) : Bytes := Bytes.ascii "ERROR: code " ++ Bytes.decimal iRet

/-- The body of the inner loop of `settings_load`, for a pair that was read. The section is put in
lower case again with every pair, which changes it once. -/
def readPair (Section : Bytes) (l : Load) (pair : Bytes × Bytes) : Load :=
  let (Key, Value) := pair
  let l := l.logMsg .eINFO (readingMsg Key Value)
  let (iRet, s) := parseOption (Bytes.lowerString Section) (Bytes.lowerString Key) Value
    l.sCurrSSettings
  let l := { l with sCurrSSettings := s }
  if iRet = .exitSuccess then l else l.logMsg .eERROR (Bytes.ascii "Error parsing option")

def readPairs (Section : Bytes) (l : Load) (pairs : List (Bytes × Bytes)) : Load :=
  pairs.foldl (readPair Section) l

def openingMsg (Section : Bytes) : Bytes :=
  Bytes.ascii "Opening section: '" ++ Bytes.cstr Section ++ Bytes.ascii "'"

/-- The outer loop of `settings_load`: `false` is the jump to `error`. -/
def readSections (error : Option IniError) : List IniSection → Load → Bool × Load
  | [], l =>
      match error with
      | none => (true, l.logMsg .eDEBUG (Bytes.ascii "End of file."))
      | some iRet => (false, l.logMsg .eDEBUG (errorMsg iRet))
  | ini :: sections, l =>
      let l := readPairs ini.name (l.logMsg .eDEBUG (openingMsg ini.name)) ini.pairs
      match ini.error with
      | none => readSections error sections (l.logMsg .eDEBUG (Bytes.ascii "No more data."))
      | some iRet => (false, l.logMsg .eERROR (errorMsg iRet))

/-- What `%s` prints for a string, NULL included. -/
def printed : Option Bytes → Bytes
  | some s => Bytes.cstr s
  | none => Bytes.ascii "(null)"

def settingMsg (psSetting : OptionMapping) (value : Bytes) : Bytes :=
  Bytes.ascii "Setting " ++ psSetting.pSection ++ Bytes.ascii ":" ++ psSetting.pKey
    ++ Bytes.ascii " = " ++ value

def settingToLog (l : Load) (psSetting : OptionMapping) : Load :=
  match psSetting.pvDst with
  | .typeLong pvDst =>
      l.logMsg .eINFO (settingMsg psSetting (Bytes.decimal (l.sCurrSSettings.getLong pvDst)))
  | .typeString pvDst =>
      l.logMsg .eINFO (settingMsg psSetting (printed (l.sCurrSSettings.getString pvDst)))
  | .typeNone => l

def settingsToLog (l : Load) : Load := sKnownOptions.foldl settingToLog l

/-- `settings_load`, with what `ini_open` gives for the file: `none` if it cannot be opened. -/
def settingsLoad (cpcSettingsFile : Bytes) (sIni : Option IniFile) (l : Load) : SettingsRet × Load :=
  match sIni with
  | none => (.noFile, l)
  | some ini =>
      let l := l.logMsg .eDEBUG
        (Bytes.ascii "INI file " ++ Bytes.cstr cpcSettingsFile ++ Bytes.ascii " opened.")
      match readSections ini.error ini.sections l with
      | (true, l) => (.exitSuccess, settingsToLog l)
      | (false, l) => (.exitFailure, l)

/-! ### What an option does -/

variable {cpcSection cpcKey : Bytes}

theorem names_not_zero : ∀ row ∈ sKnownOptions, 0 ∉ row.pSection ∧ 0 ∉ row.pKey := by decide

/-- A row is taken for a pair when its names are at the beginning of the names of the pair. -/
theorem accepts_iff {row : OptionMapping} (hrow : row ∈ sKnownOptions) (cpcSection cpcKey : Bytes) :
    row.accepts cpcSection cpcKey = true
      ↔ row.pSection <+: Bytes.cstr cpcSection ∧ row.pKey <+: Bytes.cstr cpcKey := by
  obtain ⟨hsection, hkey⟩ := names_not_zero row hrow
  rw [OptionMapping.accepts, Bool.and_eq_true_iff, Bytes.strncmpEq_iff hsection,
    Bytes.strncmpEq_iff hkey]

/-- No two rows have names of which one begins with the other. -/
theorem eq_of_prefix_names : ∀ a ∈ sKnownOptions, ∀ b ∈ sKnownOptions,
    (a.pSection <+: b.pSection ∨ b.pSection <+: a.pSection) →
      (a.pKey <+: b.pKey ∨ b.pKey <+: a.pKey) → a = b := by decide

/-- No pair is taken for two options. -/
theorem accepts_unique {a b : OptionMapping} (ha : a ∈ sKnownOptions) (hb : b ∈ sKnownOptions)
    (haccepts : a.accepts cpcSection cpcKey = true) (hboth : b.accepts cpcSection cpcKey = true) :
    a = b := by
  rw [accepts_iff ha] at haccepts
  rw [accepts_iff hb] at hboth
  exact eq_of_prefix_names a ha b hb (List.prefix_or_prefix_of_prefix haccepts.1 hboth.1)
    (List.prefix_or_prefix_of_prefix haccepts.2 hboth.2)

theorem rows_nodup : sKnownOptions.Nodup := by decide

theorem rows_apart (cpcSection cpcKey : Bytes) : sKnownOptions.Pairwise fun a b =>
    a.accepts cpcSection cpcKey = true → b.accepts cpcSection cpcKey = false := by
  refine List.Pairwise.imp_of_mem ?_ rows_nodup
  intro a b ha hb hne haccepts
  exact Bool.eq_false_iff.mpr fun hboth => hne (accepts_unique ha hb haccepts hboth)

/-- The effect of a row on the settings. -/
def OptionMapping.store (row : OptionMapping) (cpcValue : Bytes) (s : SSettings) : SSettings :=
  match row.pvDst with
  | .typeLong pvDst => s.setLong (Bytes.strtol cpcValue) pvDst
  | .typeString pvDst => s.setString cpcValue pvDst
  | .typeNone => s

/-- What `parse_option` returns for a row: the scan has found nothing more after a string. -/
def OptionMapping.iRet (row : OptionMapping) : SettingsRet :=
  match row.pvDst with
  | .typeLong _ => .exitSuccess
  | .typeString _ => .noMap
  | .typeNone => .noType

theorem parseRows_eq (cpcValue : Bytes) {rows : List OptionMapping}
    (hapart : rows.Pairwise fun a b =>
      a.accepts cpcSection cpcKey = true → b.accepts cpcSection cpcKey = false) (s : SSettings) :
    parseRows cpcSection cpcKey cpcValue rows s
      = match rows.find? fun row => row.accepts cpcSection cpcKey with
        | some row => (row.iRet, row.store cpcValue s)
        | none => (.noMap, s) := by
  induction rows generalizing s with
  | nil => rfl
  | cons row rows ih =>
      obtain ⟨hrow, hrows⟩ := List.pairwise_cons.mp hapart
      rw [parseRows, List.find?_cons]
      cases haccepts : row.accepts cpcSection cpcKey with
      | false =>
          simp only [Bool.false_eq_true, if_false]
          exact ih hrows s
      | true =>
          -- after a string, the rest of the table has no row for the pair
          have hnone : rows.find? (fun row => row.accepts cpcSection cpcKey) = none :=
            List.find?_eq_none.mpr fun other hother =>
              Bool.eq_false_iff.mp (hrow other hother haccepts)
          simp only [if_true, OptionMapping.iRet, OptionMapping.store]
          cases row.pvDst with
          | typeLong pvDst => rfl
          | typeString pvDst => simp only [ih hrows, hnone]
          | typeNone => rfl

/-- `parse_option` applies the one row that accepts the pair, if there is one. -/
theorem parseOption_eq (cpcSection cpcKey cpcValue : Bytes) (s : SSettings) :
    parseOption cpcSection cpcKey cpcValue s
      = match sKnownOptions.find? fun row => row.accepts cpcSection cpcKey with
        | some row => (row.iRet, row.store cpcValue s)
        | none => (.noMap, s) :=
  parseRows_eq cpcValue (rows_apart cpcSection cpcKey) s

theorem parseOption_of_accepts {row : OptionMapping} (hrow : row ∈ sKnownOptions)
    (haccepts : row.accepts cpcSection cpcKey = true) (cpcValue : Bytes) (s : SSettings) :
    parseOption cpcSection cpcKey cpcValue s = (row.iRet, row.store cpcValue s) := by
  have hsome : (sKnownOptions.find? fun row => row.accepts cpcSection cpcKey).isSome :=
    List.find?_isSome.mpr ⟨row, hrow, haccepts⟩
  obtain ⟨found, hfound⟩ := Option.isSome_iff_exists.mp hsome
  have hfoundAccepts : found.accepts cpcSection cpcKey = true := by
    simpa using List.find?_some hfound
  have hsame : found = row :=
    accepts_unique (List.mem_of_find?_eq_some hfound) hrow hfoundAccepts haccepts
  rw [parseOption_eq, hfound, hsame]

theorem parseOption_of_not_accepts
    (hnone : ∀ row ∈ sKnownOptions, row.accepts cpcSection cpcKey = false) (cpcValue : Bytes)
    (s : SSettings) : parseOption cpcSection cpcKey cpcValue s = (.noMap, s) := by
  have hfind : sKnownOptions.find? (fun row => row.accepts cpcSection cpcKey) = none :=
    List.find?_eq_none.mpr fun row hrow => Bool.eq_false_iff.mp (hnone row hrow)
  rw [parseOption_eq, hfind]

/-! ### Reading a setting -/

inductive Value where
  | none
  | long (lVal : Int)
  | string (sVal : Option Bytes)
  deriving DecidableEq

/-- What the destination of a row holds. -/
def OptionMapping.held (row : OptionMapping) (s : SSettings) : Value :=
  match row.pvDst with
  | .typeLong pvDst => .long (s.getLong pvDst)
  | .typeString pvDst => .string (s.getString pvDst)
  | .typeNone => .none

/-- The value of a pair as the type of a row takes it: a number by `strtol`, or a copy. -/
def OptionMapping.converted (row : OptionMapping) (cpcValue : Bytes) : Value :=
  match row.pvDst with
  | .typeLong _ => .long (Bytes.strtol cpcValue)
  | .typeString _ => .string (some cpcValue)
  | .typeNone => .none

theorem held_store (row : OptionMapping) (cpcValue : Bytes) (s : SSettings) :
    row.held (row.store cpcValue s) = row.converted cpcValue := by
  unfold OptionMapping.held OptionMapping.store OptionMapping.converted
  cases row.pvDst with
  | typeNone => rfl
  | typeLong pvDst => cases pvDst <;> rfl
  | typeString pvDst => cases pvDst; rfl

/-- A row changes nothing but its own destination. -/
theorem held_store_of_ne {row other : OptionMapping} (hne : row.pvDst ≠ other.pvDst)
    (cpcValue : Bytes) (s : SSettings) : row.held (other.store cpcValue s) = row.held s := by
  unfold OptionMapping.held OptionMapping.store
  cases hother : other.pvDst with
  | typeNone => rfl
  | typeLong pvDst =>
      cases hrow : row.pvDst with
      | typeNone => rfl
      | typeLong pvDst' =>
          have hdst : pvDst' ≠ pvDst := fun h => hne (by rw [hrow, hother, h])
          cases pvDst <;> cases pvDst' <;> first | rfl | exact absurd rfl hdst
      | typeString pvDst' => cases pvDst <;> cases pvDst' <;> rfl
  | typeString pvDst =>
      cases hrow : row.pvDst with
      | typeNone => rfl
      | typeLong pvDst' => cases pvDst; cases pvDst' <;> rfl
      | typeString pvDst' =>
          cases pvDst
          cases pvDst'
          exact absurd (hrow.trans hother.symm) hne

theorem rows_store_apart : ∀ a ∈ sKnownOptions, ∀ b ∈ sKnownOptions, a ≠ b → a.pvDst ≠ b.pvDst := by
  decide

/-- The rows of the table reach every setting. -/
theorem eq_of_held_eq {s t : SSettings} (h : ∀ row ∈ sKnownOptions, row.held s = row.held t) :
    s = t := by
  have hrows := List.forall_mem_cons.mp h
  obtain ⟨hworkers, hrows⟩ := hrows
  obtain ⟨hclients, hrows⟩ := List.forall_mem_cons.mp hrows
  obtain ⟨hport, hrows⟩ := List.forall_mem_cons.mp hrows
  obtain ⟨hlogfile, hrows⟩ := List.forall_mem_cons.mp hrows
  obtain ⟨hlevel, -⟩ := List.forall_mem_cons.mp hrows
  obtain ⟨sClients, sWorkers, sLevel, sPort, sLogfile⟩ := s
  obtain ⟨tClients, tWorkers, tLevel, tPort, tLogfile⟩ := t
  obtain rfl : sWorkers = tWorkers := Value.long.inj hworkers
  obtain rfl : sClients = tClients := Value.long.inj hclients
  obtain rfl : sPort = tPort := Value.long.inj hport
  obtain rfl : sLogfile = tLogfile := Value.string.inj hlogfile
  obtain rfl : sLevel = tLevel := Value.long.inj hlevel
  rfl

/-- What a pair leaves in the destination of a row. -/
theorem held_parseOption {row : OptionMapping} (hrow : row ∈ sKnownOptions)
    (cpcSection cpcKey cpcValue : Bytes) (s : SSettings) :
    row.held (parseOption cpcSection cpcKey cpcValue s).2
      = if row.accepts cpcSection cpcKey then row.converted cpcValue else row.held s := by
  cases haccepts : row.accepts cpcSection cpcKey with
  | true =>
      rw [parseOption_of_accepts hrow haccepts]
      exact held_store row cpcValue s
  | false =>
      simp only [Bool.false_eq_true, if_false]
      by_cases hother : ∃ other ∈ sKnownOptions, other.accepts cpcSection cpcKey = true
      · obtain ⟨other, hmem, hother⟩ := hother
        have hne : row ≠ other := by
          rintro rfl
          rw [haccepts] at hother
          cases hother
        rw [parseOption_of_accepts hmem hother]
        exact held_store_of_ne (rows_store_apart row hrow other hmem hne) cpcValue s
      · have hnone : ∀ other ∈ sKnownOptions, other.accepts cpcSection cpcKey = false :=
          fun other hmem => Bool.eq_false_iff.mpr fun h => hother ⟨other, hmem, h⟩
        rw [parseOption_of_not_accepts hnone]

/-! ### Names that only begin like those of an option -/

/-- The pair has the names of the row. -/
def OptionMapping.Named (row : OptionMapping) (cpcSection cpcKey : Bytes) : Prop :=
  Bytes.cstr cpcSection = row.pSection ∧ Bytes.cstr cpcKey = row.pKey

instance (row : OptionMapping) (cpcSection cpcKey : Bytes) :
    Decidable (row.Named cpcSection cpcKey) :=
  inferInstanceAs (Decidable (_ ∧ _))

theorem OptionMapping.Named.accepts {row : OptionMapping} (h : row.Named cpcSection cpcKey)
    (hrow : row ∈ sKnownOptions) : row.accepts cpcSection cpcKey = true := by
  rw [accepts_iff hrow, h.1, h.2]
  exact ⟨List.prefix_refl _, List.prefix_refl _⟩

/-- Whatever the value and the settings: only the option a pair names is changed, and a pair that
names none is turned away. -/
def UnknownIgnored (cpcSection cpcKey : Bytes) : Prop :=
  ∀ cpcValue s,
    (∀ row ∈ sKnownOptions, row.held (parseOption cpcSection cpcKey cpcValue s).2 ≠ row.held s →
      row.Named cpcSection cpcKey) ∧
    ((∀ row ∈ sKnownOptions, ¬ row.Named cpcSection cpcKey) →
      parseOption cpcSection cpcKey cpcValue s = (.noMap, s))

def nothingSet : SSettings := ⟨0, 0, 0, 0, none⟩

/-- A row that accepts a pair does not turn it away. -/
theorem store_not_ignored {row : OptionMapping} (hrow : row ∈ sKnownOptions) :
    (row.iRet, row.store (Bytes.ascii "x") nothingSet) ≠ (.noMap, nothingSet) := by
  have hrows : ∀ row ∈ sKnownOptions,
      (row.iRet, row.store (Bytes.ascii "x") nothingSet) ≠ (.noMap, nothingSet) := by decide
  exact hrows row hrow

theorem UnknownIgnored.named (h : UnknownIgnored cpcSection cpcKey) {row : OptionMapping}
    (hrow : row ∈ sKnownOptions) (hsection : row.pSection <+: Bytes.cstr cpcSection)
    (hkey : row.pKey <+: Bytes.cstr cpcKey) : row.Named cpcSection cpcKey := by
  have haccepts := (accepts_iff hrow cpcSection cpcKey).mpr ⟨hsection, hkey⟩
  by_contra hname
  -- a row the pair does name would accept it too, and only one row does
  have hnone : ∀ other ∈ sKnownOptions, ¬ other.Named cpcSection cpcKey := by
    intro other hother hnamed
    have hsame := accepts_unique hother hrow (hnamed.accepts hother) haccepts
    rw [hsame] at hnamed
    exact hname hnamed
  have hturned := (h (Bytes.ascii "x") nothingSet).2 hnone
  rw [parseOption_of_accepts hrow haccepts] at hturned
  exact store_not_ignored hrow hturned

/-- Unknown options are ignored exactly as far as no option's names are at the beginning of other
names. -/
theorem unknownIgnored_iff (cpcSection cpcKey : Bytes) :
    UnknownIgnored cpcSection cpcKey
      ↔ ∀ row ∈ sKnownOptions, row.pSection <+: Bytes.cstr cpcSection →
          row.pKey <+: Bytes.cstr cpcKey → row.Named cpcSection cpcKey := by
  constructor
  · intro hignored row hrow hsection hkey
    exact hignored.named hrow hsection hkey
  · intro hexact cpcValue s
    have hnamed : ∀ row ∈ sKnownOptions, row.accepts cpcSection cpcKey = true →
        row.Named cpcSection cpcKey := by
      intro row hrow haccepts
      obtain ⟨hsection, hkey⟩ := (accepts_iff hrow cpcSection cpcKey).mp haccepts
      exact hexact row hrow hsection hkey
    refine ⟨?_, ?_⟩
    · intro row hrow hchanged
      apply hnamed row hrow
      by_contra haccepts
      rw [held_parseOption hrow, if_neg haccepts] at hchanged
      exact hchanged rfl
    · intro hnone
      apply parseOption_of_not_accepts
      intro row hrow
      exact Bool.eq_false_iff.mpr fun haccepts => hnone row hrow (hnamed row hrow haccepts)

def portRow : OptionMapping := ⟨Bytes.ascii "general", Bytes.ascii "port", .typeLong .lPort⟩

theorem unknown_not_ignored :
    ¬ ∀ Section Key : Bytes, UnknownIgnored (Bytes.lowerString Section) (Bytes.lowerString Key) := by
  intro hignored
  have hportable := hignored (Bytes.ascii "General") (Bytes.ascii "portable")
  have hnamed : portRow.Named _ _ := hportable.named (by decide) (by decide) (by decide)
  exact absurd hnamed (by decide)

end CewServer.Settings
