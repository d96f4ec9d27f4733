import CewServer.Settings.Load
import CewServer.Lib.Numeral

/-!
# What becomes of a pair

What `parse_option` returns against what it has done, and what a value that is no number does to a
number. A string leaves the `switch` of the scan with `break`, so the pair for the log file is stored
and then reported as unknown. A number goes through `strtol`, whose end pointer and `errno` nobody
looks at, so every value is a number.
-/

namespace CewServer.Settings

variable {cpcSection cpcKey : Bytes}

/-- An option is taken for the pair and holds the value of the pair. -/
def Stored (cpcSection cpcKey cpcValue : Bytes) (s : SSettings) : Prop :=
  ∃ row ∈ sKnownOptions, row.accepts cpcSection cpcKey = true ∧ row.held s = row.converted cpcValue

/-- What `parse_option` returns says what it has done. -/
def ResultAgrees (cpcSection cpcKey cpcValue : Bytes) (s : SSettings) : Prop :=
  ((parseOption cpcSection cpcKey cpcValue s).1 = .exitSuccess
    ↔ Stored cpcSection cpcKey cpcValue (parseOption cpcSection cpcKey cpcValue s).2) ∧
  ((parseOption cpcSection cpcKey cpcValue s).1 = .noMap
    ↔ (∀ row ∈ sKnownOptions, row.accepts cpcSection cpcKey = false) ∧
      (parseOption cpcSection cpcKey cpcValue s).2 = s)

def parsingMsg : Logger.LoggerType × Bytes := (.eERROR, Bytes.ascii "Error parsing option")

/-- The error is short enough for the buffer of `log_msg`. -/
theorem cUserMsg_parsingMsg : Logger.cUserMsg (Bytes.ascii "Error parsing option") = parsingMsg.2 := by
  decide

/-- The error is logged with a pair only if the pair was not stored. -/
def ErrorAgrees (Section : Bytes) (pair : Bytes × Bytes) (l : Load) : Prop :=
  parsingMsg ∈ (readPair Section l pair).log.drop l.log.length →
    ¬ Stored (Bytes.lowerString Section) (Bytes.lowerString pair.1) pair.2
      (readPair Section l pair).sCurrSSettings

/-- The names begin like those of the option for the log file. -/
def NamesLogfile (cpcSection cpcKey : Bytes) : Prop :=
  Bytes.ascii "logging" <+: Bytes.cstr cpcSection ∧ Bytes.ascii "logfile" <+: Bytes.cstr cpcKey

instance (cpcSection cpcKey : Bytes) : Decidable (NamesLogfile cpcSection cpcKey) :=
  inferInstanceAs (Decidable (_ ∧ _))

def logfileRow : OptionMapping :=
  ⟨Bytes.ascii "logging", Bytes.ascii "logfile", .typeString .pcLogfile⟩

theorem logfileRow_mem : logfileRow ∈ sKnownOptions := by decide

theorem portRow_mem : portRow ∈ sKnownOptions := by decide

theorem namesLogfile_iff : NamesLogfile cpcSection cpcKey
    ↔ logfileRow.accepts cpcSection cpcKey = true :=
  (accepts_iff logfileRow_mem cpcSection cpcKey).symm

/-- The log file is the one option of the table that is a string. -/
theorem iRet_eq_exitSuccess_iff : ∀ row ∈ sKnownOptions, row.iRet = .exitSuccess ↔ row ≠ logfileRow := by
  decide

theorem stored_of_accepts {row : OptionMapping} (hrow : row ∈ sKnownOptions)
    (haccepts : row.accepts cpcSection cpcKey = true) (cpcValue : Bytes) (s : SSettings) :
    Stored cpcSection cpcKey cpcValue (parseOption cpcSection cpcKey cpcValue s).2 := by
  refine ⟨row, hrow, haccepts, ?_⟩
  rw [parseOption_of_accepts hrow haccepts]
  exact held_store row cpcValue s

/-- A pair that some option is taken for is reported as stored unless it is the log file's. -/
theorem iRet_of_accepts {row : OptionMapping} (hrow : row ∈ sKnownOptions)
    (haccepts : row.accepts cpcSection cpcKey = true) (cpcValue : Bytes) (s : SSettings) :
    (parseOption cpcSection cpcKey cpcValue s).1 = .exitSuccess ↔ ¬ NamesLogfile cpcSection cpcKey := by
  rw [parseOption_of_accepts hrow haccepts, iRet_eq_exitSuccess_iff row hrow, namesLogfile_iff]
  constructor
  · intro hne hboth
    exact hne (accepts_unique hrow logfileRow_mem haccepts hboth)
  · rintro hnot rfl
    exact hnot haccepts

theorem not_namesLogfile_of_not_accepts
    (hnone : ∀ row ∈ sKnownOptions, row.accepts cpcSection cpcKey = false) :
    ¬ NamesLogfile cpcSection cpcKey := by
  rw [namesLogfile_iff]
  exact Bool.eq_false_iff.mp (hnone logfileRow logfileRow_mem)

theorem resultAgrees_iff (cpcSection cpcKey cpcValue : Bytes) (s : SSettings) :
    ResultAgrees cpcSection cpcKey cpcValue s ↔ ¬ NamesLogfile cpcSection cpcKey := by
  by_cases hrow : ∃ row ∈ sKnownOptions, row.accepts cpcSection cpcKey = true
  · obtain ⟨row, hrow, haccepts⟩ := hrow
    have hstored := stored_of_accepts hrow haccepts cpcValue s
    have hiRet := iRet_of_accepts hrow haccepts cpcValue s
    have hsome : ¬ ∀ row ∈ sKnownOptions, row.accepts cpcSection cpcKey = false := fun hnone =>
      Bool.eq_false_iff.mp (hnone row hrow) haccepts
    constructor
    · intro hagrees
      exact hiRet.mp (hagrees.1.mpr hstored)
    · intro hnot
      have hsuccess := hiRet.mpr hnot
      refine ⟨iff_of_true hsuccess hstored, iff_of_false ?_ fun h => hsome h.1⟩
      rw [hsuccess]
      exact SettingsRet.noConfusion
  · have hnone : ∀ row ∈ sKnownOptions, row.accepts cpcSection cpcKey = false := fun row hmem =>
      Bool.eq_false_iff.mpr fun haccepts => hrow ⟨row, hmem, haccepts⟩
    refine iff_of_true ?_ (not_namesLogfile_of_not_accepts hnone)
    rw [ResultAgrees, parseOption_of_not_accepts hnone]
    refine ⟨iff_of_false SettingsRet.noConfusion ?_, iff_of_true rfl ⟨hnone, rfl⟩⟩
    rintro ⟨row, hmem, haccepts, -⟩
    exact hrow ⟨row, hmem, haccepts⟩

/-! ### The error of the loop -/

theorem readPair_log (Section : Bytes) (pair : Bytes × Bytes) (l : Load) :
    (readPair Section l pair).log.drop l.log.length
      = (.eINFO, Logger.cUserMsg (readingMsg pair.1 pair.2)) ::
        if (parseOption (Bytes.lowerString Section) (Bytes.lowerString pair.1) pair.2
          l.sCurrSSettings).1 = .exitSuccess then [] else [parsingMsg] := by
  unfold readPair
  simp only [logMsg_sCurrSSettings]
  split
  · rename_i hsuccess
    simp [Load.logMsg, hsuccess]
  · rename_i hfailure
    simp [Load.logMsg, cUserMsg_parsingMsg, parsingMsg, hfailure]

theorem parsingMsg_mem_iff (Section : Bytes) (pair : Bytes × Bytes) (l : Load) :
    parsingMsg ∈ (readPair Section l pair).log.drop l.log.length
      ↔ (parseOption (Bytes.lowerString Section) (Bytes.lowerString pair.1) pair.2
          l.sCurrSSettings).1 ≠ .exitSuccess := by
  have hother : parsingMsg ≠ (.eINFO, Logger.cUserMsg (readingMsg pair.1 pair.2)) := by
    intro heq
    cases congrArg Prod.fst heq
  rw [readPair_log]
  split
  · rename_i hsuccess
    simp [hother, hsuccess]
  · rename_i hfailure
    simp [hfailure]

theorem errorAgrees_iff (Section : Bytes) (pair : Bytes × Bytes) (l : Load) :
    ErrorAgrees Section pair l
      ↔ ¬ NamesLogfile (Bytes.lowerString Section) (Bytes.lowerString pair.1) := by
  rw [ErrorAgrees, parsingMsg_mem_iff, readPair_sCurrSSettings]
  constructor
  · intro hagrees hnames
    have haccepts := namesLogfile_iff.mp hnames
    have hstored := stored_of_accepts logfileRow_mem haccepts pair.2 l.sCurrSSettings
    have hiRet := iRet_of_accepts logfileRow_mem haccepts pair.2 l.sCurrSSettings
    exact hagrees (fun hsuccess => hiRet.mp hsuccess hnames) hstored
  · rintro hnot hfailure ⟨row, hrow, haccepts, -⟩
    exact hfailure ((iRet_of_accepts hrow haccepts pair.2 l.sCurrSSettings).mpr hnot)

/-- The result of `parse_option`, and the error `settings_load` logs for it, say what was done exactly
for the pairs that are not for the log file. -/
theorem parseOption_reports_iff (cpcSection cpcKey cpcValue : Bytes) (s : SSettings) (Section : Bytes)
    (pair : Bytes × Bytes) (l : Load) :
    (ResultAgrees cpcSection cpcKey cpcValue s ↔ ¬ NamesLogfile cpcSection cpcKey) ∧
    (ErrorAgrees Section pair l
      ↔ ¬ NamesLogfile (Bytes.lowerString Section) (Bytes.lowerString pair.1)) :=
  ⟨resultAgrees_iff cpcSection cpcKey cpcValue s, errorAgrees_iff Section pair l⟩

theorem parseOption_logfile_misreported :
    ¬ ∀ cpcSection cpcKey cpcValue s, ResultAgrees cpcSection cpcKey cpcValue s := by
  intro hagrees
  have hlogfile := hagrees (Bytes.ascii "logging") (Bytes.ascii "logfile")
    (Bytes.ascii "/var/log/cewserver.log") nothingSet
  exact (resultAgrees_iff _ _ _ _).mp hlogfile (by decide)

/-! ### Values that are no number -/

/-- The value is not a base-10 integer that fits in a `long`. -/
def Malformed (Value : Bytes) : Prop := ∀ x, Bytes.Denotes Value x → ¬ Bytes.FitsLong x

/-- A value that is no number leaves the number it is given for as it was. -/
def MalformedIgnored (pvDst : LongSetting) (pair : Pair) (l : Load) : Prop :=
  Malformed pair.Value →
    (readPair pair.Section l (pair.Key, pair.Value)).sCurrSSettings.getLong pvDst
      = l.sCurrSSettings.getLong pvDst

/-- What a pair leaves in the number it is taken for. -/
theorem getLong_readPair {row : OptionMapping} (hrow : row ∈ sKnownOptions) {pvDst : LongSetting}
    (hlong : row.pvDst = .typeLong pvDst) {pair : Pair} (htakes : row.takes pair = true) (l : Load) :
    (readPair pair.Section l (pair.Key, pair.Value)).sCurrSSettings.getLong pvDst
      = Bytes.strtol pair.Value := by
  have hheld := held_parseOption hrow (Bytes.lowerString pair.Section) (Bytes.lowerString pair.Key)
    pair.Value l.sCurrSSettings
  rw [OptionMapping.takes] at htakes
  rw [htakes, if_pos rfl, OptionMapping.held, OptionMapping.converted, hlong] at hheld
  rw [readPair_sCurrSSettings]
  exact Value.long.inj hheld

/-- A value that is no number is ignored exactly when the number held already is the one at the
beginning of the value: zero where there is none, the nearest one where it is too large. -/
theorem malformedIgnored_iff {row : OptionMapping} (hrow : row ∈ sKnownOptions) {pvDst : LongSetting}
    (hlong : row.pvDst = .typeLong pvDst) {pair : Pair} (htakes : row.takes pair = true) (l : Load) :
    MalformedIgnored pvDst pair l
      ↔ (Malformed pair.Value → ∃ x, Bytes.Begins pair.Value x ∧
          l.sCurrSSettings.getLong pvDst = Bytes.nearestLong x) := by
  rw [MalformedIgnored, getLong_readPair hrow hlong htakes]
  apply imp_congr_right
  intro _
  constructor
  · intro hheld
    obtain ⟨x, hx⟩ := Bytes.exists_begins pair.Value
    exact ⟨x, hx, hheld.symm.trans (Bytes.strtol_of_begins hx)⟩
  · rintro ⟨x, hx, hheld⟩
    exact (Bytes.strtol_of_begins hx).trans hheld.symm

/-- A port that is no number. -/
def wordPort : Pair := ⟨Bytes.ascii "General", Bytes.ascii "port", Bytes.ascii "http"⟩

theorem malformed_wordPort : Malformed wordPort.Value := fun x hx _ =>
  Bytes.not_denotes_of_no_digit (Bytes.forall_of_all (by decide)) x hx

theorem begins_wordPort : Bytes.Begins wordPort.Value 0 :=
  Bytes.begins_zero (by decide) (by decide) (by decide)

theorem malformedIgnored_wordPort : MalformedIgnored .lPort wordPort ⟨nothingSet, []⟩ :=
  (malformedIgnored_iff portRow_mem rfl (by decide) _).mpr fun _ =>
    ⟨0, begins_wordPort, by decide⟩

theorem malformed_not_ignored :
    ¬ ∀ row ∈ sKnownOptions, ∀ pvDst, row.pvDst = .typeLong pvDst → ∀ pair, row.takes pair = true →
      ∀ l, MalformedIgnored pvDst pair l := by
  intro hignored
  have hport := hignored portRow portRow_mem .lPort rfl wordPort (by decide)
    ⟨{ nothingSet with lPort := 80 }, []⟩ malformed_wordPort
  rw [getLong_readPair portRow_mem rfl (by decide),
    Bytes.strtol_of_begins begins_wordPort] at hport
  exact absurd hport (by decide)

end CewServer.Settings
