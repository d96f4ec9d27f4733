import CewServer.Settings.Options
import CewServer.Lib.LastWrite

/-!
# Loading a settings file

A load goes through the pairs of the file in order and applies each to the settings as it is read. A
pair sets at most one setting, so after a load each setting holds the value of the last pair that is
taken for its option, and what stands between does not matter. The same holds of a load that libini
breaks off: the pairs read until then are applied, and nothing takes them back.
-/

namespace CewServer.Settings

/-- A pair with the section it stands in. -/
structure Pair where
  Section : Bytes
  Key : Bytes
  Value : Bytes

/-- The call of `parse_option` in `settings_load`. -/
def applyPair (s : SSettings) (pair : Pair) : SSettings :=
  (parseOption (Bytes.lowerString pair.Section) (Bytes.lowerString pair.Key) pair.Value s).2

def OptionMapping.takes (row : OptionMapping) (pair : Pair) : Bool :=
  row.accepts (Bytes.lowerString pair.Section) (Bytes.lowerString pair.Key)

def IniSection.options (ini : IniSection) : List Pair :=
  ini.pairs.map fun pair => ⟨ini.name, pair.1, pair.2⟩

/-- The pairs of a file in their order. -/
def IniFile.options (ini : IniFile) : List Pair := ini.sections.flatMap IniSection.options

/-- The pairs that are read: nothing after a section in which libini fails. -/
def optionsRead : List IniSection → List Pair
  | [] => []
  | ini :: sections => ini.options ++ if ini.error.isNone then optionsRead sections else []

def IniFile.read (ini : IniFile) : List Pair := optionsRead ini.sections

def IniFile.fails (ini : IniFile) : Bool :=
  ini.error.isSome || ini.sections.any fun ini => ini.error.isSome

/-! ### The two loops -/

@[simp] theorem logMsg_sCurrSSettings (l : Load) (eType : Logger.LoggerType) (text : Bytes) :
    (l.logMsg eType text).sCurrSSettings = l.sCurrSSettings := rfl

theorem readPair_sCurrSSettings (Section : Bytes) (l : Load) (pair : Bytes × Bytes) :
    (readPair Section l pair).sCurrSSettings
      = applyPair l.sCurrSSettings ⟨Section, pair.1, pair.2⟩ := by
  unfold readPair
  dsimp only
  split <;> rfl

theorem readPairs_sCurrSSettings (Section : Bytes) (l : Load) (pairs : List (Bytes × Bytes)) :
    (readPairs Section l pairs).sCurrSSettings
      = (pairs.map fun pair => (⟨Section, pair.1, pair.2⟩ : Pair)).foldl applyPair
          l.sCurrSSettings := by
  induction pairs generalizing l with
  | nil => rfl
  | cons pair pairs ih =>
      rw [readPairs, List.foldl_cons, List.map_cons, List.foldl_cons, ← readPair_sCurrSSettings]
      exact ih (readPair Section l pair)

/-- The outer loop applies the pairs it reads, and gets to the end of the file unless libini fails. -/
theorem readSections_spec (error : Option IniError) (sections : List IniSection) (l : Load) :
    (readSections error sections l).1
        = !(error.isSome || sections.any fun ini => ini.error.isSome) ∧
      (readSections error sections l).2.sCurrSSettings
        = (optionsRead sections).foldl applyPair l.sCurrSSettings := by
  induction sections generalizing l with
  | nil =>
      cases error with
      | none => exact ⟨rfl, rfl⟩
      | some iRet => exact ⟨rfl, rfl⟩
  | cons ini sections ih =>
      rw [readSections, optionsRead, List.any_cons, List.foldl_append]
      have hpairs := readPairs_sCurrSSettings ini.name (l.logMsg .eDEBUG (openingMsg ini.name))
        ini.pairs
      cases herror : ini.error with
      | none =>
          simp only [Option.isSome_none, Bool.false_or, Option.isNone_none, if_true]
          obtain ⟨hend, hsettings⟩ := ih ((readPairs ini.name
            (l.logMsg .eDEBUG (openingMsg ini.name)) ini.pairs).logMsg .eDEBUG
              (Bytes.ascii "No more data."))
          refine ⟨hend, ?_⟩
          rw [hsettings, logMsg_sCurrSSettings, hpairs]
          rfl
      | some iRet =>
          refine ⟨by simp, ?_⟩
          rw [logMsg_sCurrSSettings, hpairs]
          rfl

theorem settingsToLog_sCurrSSettings (l : Load) :
    (settingsToLog l).sCurrSSettings = l.sCurrSSettings := by
  have hrow : ∀ (l : Load) (row : OptionMapping),
      (settingToLog l row).sCurrSSettings = l.sCurrSSettings := by
    intro l row
    unfold settingToLog
    split <;> rfl
  unfold settingsToLog
  induction sKnownOptions generalizing l with
  | nil => rfl
  | cons row rows ih => rw [List.foldl_cons, ih, hrow]

theorem settingsLoad_iRet (cpcSettingsFile : Bytes) (ini : IniFile) (l : Load) :
    (settingsLoad cpcSettingsFile (some ini) l).1
      = if ini.fails then .exitFailure else .exitSuccess := by
  have hend := (readSections_spec ini.error ini.sections (l.logMsg .eDEBUG
    (Bytes.ascii "INI file " ++ Bytes.cstr cpcSettingsFile ++ Bytes.ascii " opened."))).1
  rw [settingsLoad]
  split
  · rename_i l' heq
    rw [heq] at hend
    have hclean : ini.fails = false := (Bool.not_eq_true' _).mp hend.symm
    rw [hclean]
    rfl
  · rename_i l' heq
    rw [heq] at hend
    have hfails : ini.fails = true := (Bool.not_eq_false' _).mp hend.symm
    rw [hfails]
    rfl

/-- A load leaves the settings with the pairs that were read applied to them in order. -/
theorem settingsLoad_sCurrSSettings (cpcSettingsFile : Bytes) (ini : IniFile) (l : Load) :
    (settingsLoad cpcSettingsFile (some ini) l).2.sCurrSSettings
      = ini.read.foldl applyPair l.sCurrSSettings := by
  have hread := (readSections_spec ini.error ini.sections (l.logMsg .eDEBUG
    (Bytes.ascii "INI file " ++ Bytes.cstr cpcSettingsFile ++ Bytes.ascii " opened."))).2
  rw [settingsLoad]
  split
  · rename_i l' heq
    rw [heq] at hread
    rw [settingsToLog_sCurrSSettings]
    exact hread
  · rename_i l' heq
    rw [heq] at hread
    exact hread

theorem optionsRead_eq {sections : List IniSection}
    (hclean : sections.any (fun ini => ini.error.isSome) = false) :
    optionsRead sections = sections.flatMap IniSection.options := by
  induction sections with
  | nil => rfl
  | cons ini sections ih =>
      rw [List.any_cons, Bool.or_eq_false_iff] at hclean
      have hnone : ini.error.isNone = true := by simpa using hclean.1
      rw [optionsRead, List.flatMap_cons, if_pos hnone, ih hclean.2]

theorem fails_of_iRet {cpcSettingsFile : Bytes} {ini : IniFile} {l : Load}
    (hok : (settingsLoad cpcSettingsFile (some ini) l).1 = .exitSuccess) : ini.fails = false := by
  rw [settingsLoad_iRet] at hok
  split at hok
  · cases hok
  · rename_i hfails
    exact Bool.eq_false_iff.mpr hfails

theorem read_eq_options {ini : IniFile} (hclean : ini.fails = false) : ini.read = ini.options :=
  optionsRead_eq (Bool.or_eq_false_iff.mp hclean).2

/-! ### What a setting holds after a load -/

abbrev KnownOption := { row : OptionMapping // row ∈ sKnownOptions }

/-- The settings as slots, one for each row of the table, and the pairs as writes. -/
def known : LastWrite SSettings KnownOption Value Pair where
  get row s := row.1.held s
  put := applyPair
  hits row pair := row.1.takes pair
  value row pair := row.1.converted pair.Value
  get_put row s pair := held_parseOption row.2 _ _ pair.Value s

/-- The last of some pairs that is taken for the option of a row. -/
def OptionMapping.last (row : OptionMapping) (pairs : List Pair) : Option Pair :=
  (pairs.filter row.takes).getLast?

theorem held_foldl {row : OptionMapping} (hrow : row ∈ sKnownOptions) (s : SSettings)
    (pairs : List Pair) :
    row.held (pairs.foldl applyPair s)
      = match row.last pairs with
        | some pair => row.converted pair.Value
        | none => row.held s := by
  have hslot := known.get_putAll ⟨row, hrow⟩ s pairs
  have hlast : known.last ⟨row, hrow⟩ pairs = row.last pairs := rfl
  rw [hlast] at hslot
  cases h : row.last pairs with
  | none =>
      rw [h] at hslot
      exact hslot
  | some pair =>
      rw [h] at hslot
      exact hslot

theorem foldl_swap {a b : Pair} {rowA rowB : OptionMapping} (hrowA : rowA ∈ sKnownOptions)
    (hrowB : rowB ∈ sKnownOptions) (hne : rowA ≠ rowB) (ha : rowA.takes a = true)
    (hb : rowB.takes b = true) (s : SSettings) (before after : List Pair) :
    (before ++ a :: b :: after).foldl applyPair s = (before ++ b :: a :: after).foldl applyPair s := by
  apply eq_of_held_eq
  intro row hrow
  refine known.get_putAll_swap (fun slot hslot => ?_) ⟨row, hrow⟩ s before after
  apply Bool.eq_false_iff.mpr
  intro hboth
  have hslotA : slot.1 = rowA := accepts_unique slot.2 hrowA hslot ha
  have hslotB : slot.1 = rowB := accepts_unique slot.2 hrowB hboth hb
  exact hne (hslotA.symm.trans hslotB)

/-- A pair with its names in lower case. -/
def Pair.lowered (pair : Pair) : Pair :=
  { pair with Section := Bytes.lowerString pair.Section, Key := Bytes.lowerString pair.Key }

theorem foldl_of_lowered {pairs others : List Pair}
    (hsame : pairs.map Pair.lowered = others.map Pair.lowered) (s : SSettings) :
    pairs.foldl applyPair s = others.foldl applyPair s := by
  apply eq_of_held_eq
  intro row hrow
  refine known.get_putAll_congr Pair.lowered ?_ ?_ hsame ⟨row, hrow⟩ s
  · intro slot a b hab
    obtain ⟨hsection, hkey, -⟩ := Pair.mk.inj hab
    show slot.1.takes a = slot.1.takes b
    rw [OptionMapping.takes, OptionMapping.takes, hsection, hkey]
  · intro slot a b hab
    obtain ⟨-, -, hvalue⟩ := Pair.mk.inj hab
    show slot.1.converted a.Value = slot.1.converted b.Value
    rw [hvalue]

/-- The files are the same but for two adjacent pairs, taken for different options, that have changed
places. -/
def IniFile.Swapped (ini other : IniFile) : Prop :=
  ∃ before a b after, ∃ rowA ∈ sKnownOptions, ∃ rowB ∈ sKnownOptions, rowA ≠ rowB ∧
    rowA.takes a = true ∧ rowB.takes b = true ∧
    ini.options = before ++ a :: b :: after ∧ other.options = before ++ b :: a :: after

/-- The files are the same but for the letter case of section and key names. -/
def IniFile.SameButCase (ini other : IniFile) : Prop :=
  ini.options.map Pair.lowered = other.options.map Pair.lowered

/-- After a load each setting holds what the last pair for its option says, or what it held before; no
pair is for two options; and neither the order of pairs for different options nor the case of names
matters. -/
theorem settingsLoad_lastWins {cpcSettingsFile : Bytes} {ini : IniFile} {l : Load}
    (hok : (settingsLoad cpcSettingsFile (some ini) l).1 = .exitSuccess) :
    (∀ row ∈ sKnownOptions,
      row.held (settingsLoad cpcSettingsFile (some ini) l).2.sCurrSSettings
        = match row.last ini.options with
          | some pair => row.converted pair.Value
          | none => row.held l.sCurrSSettings) ∧
    (∀ pair, ∀ a ∈ sKnownOptions, ∀ b ∈ sKnownOptions,
      a.takes pair = true → b.takes pair = true → a = b) ∧
    ∀ other, (settingsLoad cpcSettingsFile (some other) l).1 = .exitSuccess →
      ini.Swapped other ∨ ini.SameButCase other →
      (settingsLoad cpcSettingsFile (some other) l).2.sCurrSSettings
        = (settingsLoad cpcSettingsFile (some ini) l).2.sCurrSSettings := by
  have hread := read_eq_options (fails_of_iRet hok)
  refine ⟨?_, ?_, ?_⟩
  · intro row hrow
    rw [settingsLoad_sCurrSSettings, hread]
    exact held_foldl hrow l.sCurrSSettings ini.options
  · intro pair a ha b hb hpair hboth
    exact accepts_unique ha hb hpair hboth
  · intro other hother hchange
    rw [settingsLoad_sCurrSSettings, settingsLoad_sCurrSSettings, hread,
      read_eq_options (fails_of_iRet hother)]
    rcases hchange with hswapped | hcase
    · obtain ⟨before, a, b, after, rowA, hrowA, rowB, hrowB, hne, ha, hb, hini, hswap⟩ := hswapped
      rw [hini, hswap]
      exact (foldl_swap hrowA hrowB hne ha hb l.sCurrSSettings before after).symm
    · exact (foldl_of_lowered hcase l.sCurrSSettings).symm

/-- Two values for one key in either type, and a key in other letters. -/
def dualSettings : IniFile where
  sections :=
    [⟨Bytes.ascii "General", [(Bytes.ascii "workers", Bytes.ascii "4"),
        (Bytes.ascii "clients", Bytes.ascii "50"), (Bytes.ascii "Clients", Bytes.ascii "51")], none⟩,
      ⟨Bytes.ascii "Logging", [(Bytes.ascii "logfile", Bytes.ascii "/var/log/cewserver.log"),
        (Bytes.ascii "logfile", Bytes.ascii "/var/log/cewserver2.log")], none⟩]
  error := none

def clientsRow : OptionMapping :=
  ⟨Bytes.ascii "general", Bytes.ascii "clients", .typeLong .lMaxClientsPerThread⟩

theorem settingsLoad_lastWins_dualSettings :
    clientsRow.held (settingsLoad (Bytes.ascii "settings.ini") (some dualSettings)
      ⟨nothingSet, []⟩).2.sCurrSSettings = .long 51 :=
  (settingsLoad_lastWins (settingsLoad_iRet _ _ _)).1 clientsRow (by decide)

/-! ### A load that is broken off -/

theorem foldl_eq_self_iff (s : SSettings) (pairs : List Pair) :
    pairs.foldl applyPair s = s
      ↔ ∀ row ∈ sKnownOptions, ∀ pair, row.last pairs = some pair →
          row.converted pair.Value = row.held s := by
  constructor
  · intro hsame row hrow pair hlast
    have hheld := held_foldl hrow s pairs
    rw [hsame, hlast] at hheld
    exact hheld.symm
  · intro hsays
    apply eq_of_held_eq
    intro row hrow
    rw [held_foldl hrow]
    cases hlast : row.last pairs with
    | none => rfl
    | some pair => exact hsays row hrow pair hlast

def SettingsRet.failed (iRet : SettingsRet) : Prop := iRet = .noFile ∨ iRet = .exitFailure

/-- A load that fails leaves the settings alone exactly when each last pair it has read for an option
says what the setting held already. -/
theorem settingsLoad_failed_unchanged_iff (cpcSettingsFile : Bytes) (sIni : Option IniFile) (l : Load) :
    ((settingsLoad cpcSettingsFile sIni l).1.failed →
        (settingsLoad cpcSettingsFile sIni l).2.sCurrSSettings = l.sCurrSSettings)
      ↔ ∀ ini, sIni = some ini → ini.fails = true → ∀ row ∈ sKnownOptions, ∀ pair,
          row.last ini.read = some pair → row.converted pair.Value = row.held l.sCurrSSettings := by
  cases sIni with
  | none => simp only [settingsLoad, reduceCtorEq, false_implies, implies_true]
  | some ini =>
      have hfailed : (settingsLoad cpcSettingsFile (some ini) l).1.failed ↔ ini.fails = true := by
        rw [settingsLoad_iRet, SettingsRet.failed]
        cases ini.fails <;> simp
      simp only [Option.some.injEq, forall_eq']
      rw [hfailed, settingsLoad_sCurrSSettings, foldl_eq_self_iff]

/-- A port is read, and then libini reports an error. -/
def brokenOff : IniFile where
  sections :=
    [⟨Bytes.ascii "General", [(Bytes.ascii "port", Bytes.ascii "80")], some ⟨-5, by decide⟩⟩]
  error := none

theorem settingsLoad_failed_changed :
    ¬ ∀ (cpcSettingsFile : Bytes) (sIni : Option IniFile) (l : Load),
      (settingsLoad cpcSettingsFile sIni l).1.failed →
        (settingsLoad cpcSettingsFile sIni l).2.sCurrSSettings = l.sCurrSSettings := by
  intro hunchanged
  have hsame := hunchanged (Bytes.ascii "settings.ini") (some brokenOff) ⟨nothingSet, []⟩
    (.inr (settingsLoad_iRet _ _ _))
  rw [settingsLoad_sCurrSSettings] at hsame
  exact absurd (congrArg SSettings.lPort hsame) (by decide)

end CewServer.Settings
