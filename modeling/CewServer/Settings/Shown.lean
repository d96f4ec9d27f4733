import CewServer.Settings.Outcome

/-!
# What the log shows of the settings

`settings_to_log` prints a line for each row of the table, and what it prints for a value is what a settings
file may hold: a number with `%ld` that `strtol` reads, or the string itself. A file whose last pair for each
option says what was shown gives the settings back, whatever else is in it and whatever the settings were.
The one exception is the logfile: NULL is shown as text, and a string is shown up to its NUL and no further
than the line goes, which `log_msg` cuts to its buffer.
-/

namespace CewServer.Settings

/-- What `settings_to_log` prints for the value of a row. -/
def OptionMapping.printed (row : OptionMapping) (s : SSettings) : Bytes :=
  match row.pvDst with
  | .typeLong pvDst => Bytes.decimal (s.getLong pvDst)
  | .typeString pvDst => Settings.printed (s.getString pvDst)
  | .typeNone => []

/-- The bytes of a value that have a place in the line of the row. -/
def OptionMapping.room (row : OptionMapping) : Nat :=
  Logger.loggerMaxUserMsgLen - 1 - (settingMsg row []).length

example : logfileRow.room = 997 := by decide

/-- What the line of the row has of its value. -/
def OptionMapping.shown (row : OptionMapping) (s : SSettings) : Bytes := (row.printed s).take row.room

theorem rows_typed : ∀ row ∈ sKnownOptions, row.pvDst ≠ .typeNone := by decide

theorem rows_begin : ∀ row ∈ sKnownOptions, 0 ∉ settingMsg row [] ∧
    (settingMsg row []).length + 20 ≤ Logger.loggerMaxUserMsgLen - 1 := by decide

theorem zero_not_mem_printed (row : OptionMapping) (s : SSettings) : 0 ∉ row.printed s := by
  unfold OptionMapping.printed
  cases row.pvDst with
  | typeNone => exact List.not_mem_nil
  | typeLong pvDst => exact Bytes.zero_not_mem_decimal _
  | typeString pvDst =>
      dsimp only
      cases s.getString pvDst with
      | none => decide
      | some text => exact fun hzero => Bytes.ne_zero_of_mem_cstr hzero rfl

/-- `log_msg` cuts the value, and nothing before it. -/
theorem cUserMsg_settingMsg {row : OptionMapping} (hrow : row ∈ sKnownOptions) (s : SSettings) :
    Logger.cUserMsg (settingMsg row (row.printed s)) = settingMsg row (row.shown s) := by
  obtain ⟨hbegin, hlength⟩ := rows_begin row hrow
  have hmsg : ∀ value, settingMsg row value = settingMsg row [] ++ value := fun value => by
    simp only [settingMsg, List.append_nil]
  have hvalue : 0 ∉ row.shown s := fun hzero =>
    zero_not_mem_printed row s (List.mem_of_mem_take hzero)
  rw [hmsg, hmsg (row.shown s), Logger.cUserMsg, List.take_append,
    List.take_of_length_le (Nat.le_trans (Nat.le_add_right _ _) hlength)]
  exact Bytes.cstr_eq_self fun hzero => (List.mem_append.mp hzero).elim hbegin hvalue

theorem settingToLog_eq {row : OptionMapping} (hrow : row ∈ sKnownOptions) (l : Load) :
    settingToLog l row
      = { l with log := l.log ++ [(.eINFO, settingMsg row (row.shown l.sCurrSSettings))] } := by
  rw [← cUserMsg_settingMsg hrow]
  unfold settingToLog OptionMapping.printed
  cases hpv : row.pvDst with
  | typeNone => exact absurd hpv (rows_typed row hrow)
  | typeLong pvDst => rfl
  | typeString pvDst => rfl

/-- The lines of `settings_to_log`. -/
theorem settingsToLog_log (l : Load) :
    (settingsToLog l).log = l.log ++ sKnownOptions.map fun row =>
      (.eINFO, settingMsg row (row.shown l.sCurrSSettings)) := by
  have hrows : ∀ (rows : List OptionMapping), (∀ row ∈ rows, row ∈ sKnownOptions) → ∀ l : Load,
      (rows.foldl settingToLog l).log = l.log ++ rows.map fun row =>
        (.eINFO, settingMsg row (row.shown l.sCurrSSettings)) := by
    intro rows
    induction rows with
    | nil =>
        intro _ l
        exact (List.append_nil _).symm
    | cons row rows ih =>
        intro hknown l
        obtain ⟨hrow, hrest⟩ := List.forall_mem_cons.mp hknown
        rw [List.foldl_cons, settingToLog_eq hrow, ih hrest, List.map_cons]
        simp only [List.append_assoc, List.cons_append, List.nil_append]
  exact hrows sKnownOptions (fun _ hrow => hrow) l

/-- The file says of each option, in the last pair for it, what was shown. -/
def IniFile.Shows (ini : IniFile) (s : SSettings) : Prop :=
  ∀ row ∈ sKnownOptions, ∃ pair, row.last ini.options = some pair ∧ pair.Value = row.shown s

/-- The numbers are values of a `long`. -/
def SSettings.Fits (s : SSettings) : Prop := ∀ pvDst, Bytes.FitsLong (s.getLong pvDst)

/-- A string of which the line has every byte. -/
def ShownWhole (room : Nat) (sVal : Option Bytes) : Prop :=
  ∃ text, sVal = some text ∧ 0 ∉ text ∧ text.length ≤ room

theorem some_take_printed_iff (room : Nat) (sVal : Option Bytes) :
    some ((printed sVal).take room) = sVal ↔ ShownWhole room sVal := by
  cases sVal with
  | none => simp [ShownWhole]
  | some text =>
      rw [printed, Option.some.injEq]
      constructor
      · intro hwhole
        refine ⟨text, rfl, fun hzero => ?_, ?_⟩
        · rw [← hwhole] at hzero
          exact Bytes.ne_zero_of_mem_cstr (List.mem_of_mem_take hzero) rfl
        · rw [← hwhole]
          exact List.length_take_le _ _
      · rintro ⟨text', heq, hzero, hlength⟩
        obtain rfl := Option.some.inj heq
        rw [Bytes.cstr_eq_self hzero, List.take_of_length_le hlength]

/-- There is room for every number. -/
theorem shown_long {row : OptionMapping} (hrow : row ∈ sKnownOptions) {pvDst : LongSetting}
    (hpv : row.pvDst = .typeLong pvDst) {s : SSettings} (hfits : s.Fits) :
    row.shown s = Bytes.decimal (s.getLong pvDst) := by
  have hroom : 20 ≤ row.room := Nat.le_sub_of_add_le (Nat.add_comm _ _ ▸ (rows_begin row hrow).2)
  rw [OptionMapping.shown, OptionMapping.printed, hpv]
  exact List.take_of_length_le (Nat.le_trans (hfits pvDst).decimal_length_le hroom)

/-- The logfile is the one string of the table. -/
theorem eq_logfileRow_of_string : ∀ row ∈ sKnownOptions, ∀ pvDst, row.pvDst = .typeString pvDst →
    row = logfileRow := by
  rintro row hrow ⟨⟩
  revert row
  decide

/-- What is shown is converted back, but for a logfile that is not shown whole. -/
theorem converted_shown_iff {row : OptionMapping} (hrow : row ∈ sKnownOptions) {s : SSettings}
    (hfits : s.Fits) :
    row.converted (row.shown s) = row.held s ↔
      (row = logfileRow → ShownWhole logfileRow.room s.pcLogfile) := by
  cases hpv : row.pvDst with
  | typeNone => exact absurd hpv (rows_typed row hrow)
  | typeLong pvDst =>
      refine iff_of_true ?_ ?_
      · rw [shown_long hrow hpv hfits, OptionMapping.converted, OptionMapping.held, hpv]
        dsimp only
        rw [Bytes.strtol_of_denotes (Bytes.denotes_decimal _) (hfits pvDst)]
      · rintro rfl
        cases hpv
  | typeString pvDst =>
      obtain rfl := eq_logfileRow_of_string row hrow pvDst hpv
      have hstring : logfileRow.converted (logfileRow.shown s) = logfileRow.held s
          ↔ ShownWhole logfileRow.room s.pcLogfile := by
        rw [← some_take_printed_iff]
        exact iff_of_eq (Value.string.injEq _ _)
      exact hstring.trans ⟨fun hwhole _ => hwhole, fun hwhole => hwhole rfl⟩

/-- A load that gets to the end shows the settings it leaves. -/
theorem settingsLoad_shows {ini : IniFile} (hclean : ini.fails = false) (cpcSettingsFile : Bytes)
    (l : Load) :
    (sKnownOptions.map fun row => (Logger.LoggerType.eINFO, settingMsg row
        (row.shown (settingsLoad cpcSettingsFile (some ini) l).2.sCurrSSettings)))
      <:+ (settingsLoad cpcSettingsFile (some ini) l).2.log := by
  obtain ⟨hend, -⟩ := readSections_spec ini.error ini.sections (l.logMsg .eDEBUG
    (Bytes.ascii "INI file " ++ Bytes.cstr cpcSettingsFile ++ Bytes.ascii " opened."))
  rw [show (ini.error.isSome || _) = false from hclean] at hend
  rw [settingsLoad]
  split
  · rename_i l' heq
    dsimp only
    rw [settingsToLog_sCurrSSettings, settingsToLog_log]
    exact List.suffix_append _ _
  · rename_i l' heq
    rw [heq] at hend
    cases hend

/-- What is shown and stored is shown again as it was. -/
theorem shown_of_held {row : OptionMapping} (hrow : row ∈ sKnownOptions) {s t : SSettings}
    (hfits : s.Fits) (hheld : row.held t = row.converted (row.shown s)) : row.shown t = row.shown s := by
  cases hpv : row.pvDst with
  | typeNone => exact absurd hpv (rows_typed row hrow)
  | typeLong pvDst =>
      rw [shown_long hrow hpv hfits, OptionMapping.converted, OptionMapping.held, hpv] at hheld
      have hsame : t.getLong pvDst = s.getLong pvDst :=
        (Value.long.inj hheld).trans (Bytes.strtol_of_denotes (Bytes.denotes_decimal _) (hfits pvDst))
      simp only [OptionMapping.shown, OptionMapping.printed, hpv, hsame]
  | typeString pvDst =>
      have hstored : t.getString pvDst = some (row.shown s) := by
        rw [OptionMapping.converted, OptionMapping.held, hpv] at hheld
        exact Value.string.inj hheld
      have hzero : 0 ∉ row.shown s := fun hmem => zero_not_mem_printed row s (List.mem_of_mem_take hmem)
      rw [OptionMapping.shown, OptionMapping.printed, hpv]
      dsimp only
      rw [hstored, printed, Bytes.cstr_eq_self hzero]
      exact List.take_of_length_le (List.length_take_le _ _)

/-- A file that says what was shown gives the settings back exactly if the logfile is a string that is
shown whole. They are shown with the same lines again in any case. -/
theorem settings_roundtrip {s : SSettings} (hfits : s.Fits) {ini : IniFile} (hclean : ini.fails = false)
    (hshows : ini.Shows s) (cpcSettingsFile : Bytes) (l : Load) :
    ((settingsLoad cpcSettingsFile (some ini) l).2.sCurrSSettings = s
        ↔ ShownWhole logfileRow.room s.pcLogfile) ∧
      (sKnownOptions.map fun row => (Logger.LoggerType.eINFO, settingMsg row (row.shown s)))
        <:+ (settingsLoad cpcSettingsFile (some ini) l).2.log := by
  have hheld : ∀ row ∈ sKnownOptions,
      row.held (settingsLoad cpcSettingsFile (some ini) l).2.sCurrSSettings
        = row.converted (row.shown s) := by
    intro row hrow
    obtain ⟨pair, hlast, hvalue⟩ := hshows row hrow
    rw [settingsLoad_sCurrSSettings, read_eq_options hclean, held_foldl hrow, hlast, ← hvalue]
  refine ⟨⟨fun hsame => ?_, fun hwhole => ?_⟩, ?_⟩
  · have hlogfile := hheld logfileRow logfileRow_mem
    rw [hsame] at hlogfile
    exact (converted_shown_iff logfileRow_mem hfits).mp hlogfile.symm rfl
  · apply eq_of_held_eq
    intro row hrow
    rw [hheld row hrow, converted_shown_iff hrow hfits]
    exact fun _ => hwhole
  · have hlog := settingsLoad_shows hclean cpcSettingsFile l
    have hlines := List.map_congr_left fun row hrow =>
      congrArg (fun value => (Logger.LoggerType.eINFO, settingMsg row value))
        (shown_of_held hrow hfits (hheld row hrow))
    rwa [hlines] at hlog

/-- The lines of the log as a file, one section for each row. -/
def shownFile (s : SSettings) : IniFile where
  sections := sKnownOptions.map fun row => ⟨row.pSection, [(row.pKey, row.shown s)], none⟩
  error := none

theorem shownFile_shows (s : SSettings) : (shownFile s).Shows s := by
  intro row hrow
  simp only [sKnownOptions, List.mem_cons, List.not_mem_nil, or_false] at hrow
  rcases hrow with rfl | rfl | rfl | rfl | rfl
  all_goals exact ⟨_, rfl, rfl⟩

def shippedSettings : SSettings := ⟨50, 4, 3, 9000, some (Bytes.ascii "/var/log/cewserver.log")⟩

theorem settings_roundtrip_shipped :
    (settingsLoad (Bytes.ascii "settings.ini") (some (shownFile shippedSettings))
      ⟨nothingSet, []⟩).2.sCurrSSettings = shippedSettings := by
  have hfits : shippedSettings.Fits := by
    intro pvDst
    cases pvDst <;> exact ⟨by decide, by decide⟩
  refine ((settings_roundtrip hfits rfl (shownFile_shows _) _ _).1).mpr ⟨_, rfl, ?_⟩
  decide

end CewServer.Settings
