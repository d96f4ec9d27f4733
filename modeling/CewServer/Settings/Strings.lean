import CewServer.Settings.Load
import CewServer.Lib.Arena

/-!
# The strings of the settings

The logfile of the settings is a pointer. `parse_option` frees the string it points to and points it to a
copy of the value, `settings_destroy` frees it for good, and the names and values `settings_load` works
with are strings of their own that it makes and frees as it goes. The functions are here once more with
the strings as blocks, of which there is always another one.

Whatever the calls, in whatever order and whatever the files, no string is used after it was freed or freed
twice, the settings hold what they hold without pointers, and of all strings only that of the logfile stays:
but for a section in which libini fails, whose name nobody frees. What `settings_get` returns and
`settings_set` takes is a copy of the struct with the pointer in it, so a caller of `settings_set` has to
give back the pointer that the settings have: with another one a string is lost, or freed twice.
-/

namespace CewServer.Settings

open Blocks

/-- `tsSSettings` in memory. -/
structure StoredSettings where
  long : LongSetting → Int
  pcLogfile : Option Nat

structure SettingsMemory where
  sCurrSSettings : StoredSettings
  strings : Arena Bytes

namespace SettingsMemory

variable (allocator : Allocator Bytes)

/-- A string is given to a function that only reads it. -/
def touch (s : SettingsMemory) (string : Nat) : SettingsMemory :=
  { s with strings := (s.strings.read string).2 }

def freeString (s : SettingsMemory) (string : Nat) : SettingsMemory :=
  { s with strings := s.strings.free string }

def lowerString (s : SettingsMemory) (string : Nat) : SettingsMemory :=
  { s with strings := s.strings.modify string Bytes.lowerString }

/-- `sdsnewlen`. -/
def newString (s : SettingsMemory) (text : Bytes) : Nat × SettingsMemory :=
  ((s.strings.alloc allocator text).1, { s with strings := (s.strings.alloc allocator text).2 })

/-- The string of an option is freed if there is one, and becomes a copy of the value. -/
def storeString (s : SettingsMemory) (cpcValue : Nat) : SettingsMemory :=
  let s := s.sCurrSSettings.pcLogfile.elim s s.freeString
  let value := s.strings.read cpcValue
  let (copy, s) := { s with strings := value.2 }.newString allocator value.1
  { s with sCurrSSettings.pcLogfile := some copy }

def storeLong (s : SettingsMemory) (pvDst : LongSetting) (cpcValue : Nat) : SettingsMemory :=
  let value := s.strings.read cpcValue
  { s with
    strings := value.2
    sCurrSSettings.long := Function.update s.sCurrSSettings.long pvDst (Bytes.strtol value.1) }

/-- `parse_option` with the three strings it is given. -/
def parseRows (cpcSection cpcKey cpcValue : Nat) :
    List OptionMapping → SettingsMemory → SettingsRet × SettingsMemory
  | [], s => (.noMap, s)
  | psSetting :: rows, s =>
      let Section := s.strings.read cpcSection
      let Key := Section.2.read cpcKey
      let s := { s with strings := Key.2 }
      if psSetting.accepts Section.1 Key.1 then
        match psSetting.pvDst with
        | .typeLong pvDst => (.exitSuccess, s.storeLong pvDst cpcValue)
        | .typeString .pcLogfile => parseRows cpcSection cpcKey cpcValue rows (s.storeString allocator cpcValue)
        | .typeNone => (.noType, s)
      else parseRows cpcSection cpcKey cpcValue rows s

/-- The body of the inner loop of `settings_load`. -/
def readPair (Section : Nat) (s : SettingsMemory) (pair : Bytes × Bytes) : SettingsMemory :=
  let (Key, s) := s.newString allocator pair.1
  let (Value, s) := s.newString allocator pair.2
  let s := (s.touch Key).touch Value
  let s := (s.lowerString Section).lowerString Key
  let s := (s.parseRows allocator Section Key Value sKnownOptions).2
  (s.freeString Key).freeString Value

/-- The outer loop: at the jump to `error` the section is not freed. -/
def readSections (error : Option IniError) : List IniSection → SettingsMemory → Bool × SettingsMemory
  | [], s => (error.isNone, s)
  | ini :: sections, s =>
      let (Section, s) := s.newString allocator ini.name
      let s := ini.pairs.foldl (readPair allocator Section) (s.touch Section)
      match ini.error with
      | none => readSections error sections (s.freeString Section)
      | some _ => (false, s)

def settingsToLog (s : SettingsMemory) : SettingsMemory := s.sCurrSSettings.pcLogfile.elim s s.touch

def settingsLoad (sIni : Option IniFile) (s : SettingsMemory) : SettingsRet × SettingsMemory :=
  match sIni with
  | none => (.noFile, s)
  | some ini =>
      match s.readSections allocator ini.error ini.sections with
      | (true, s) => (.exitSuccess, s.settingsToLog)
      | (false, s) => (.exitFailure, s)

def settingsDestroy (s : SettingsMemory) : SettingsMemory :=
  { s.sCurrSSettings.pcLogfile.elim s s.freeString with sCurrSSettings := ⟨fun _ => 0, none⟩ }

/-- The struct as it is, with the pointer and not the string. -/
def settingsGet (s : SettingsMemory) : StoredSettings := s.sCurrSSettings

def settingsSet (s : SettingsMemory) (sNewSettings : StoredSettings) : SettingsMemory :=
  { s with sCurrSSettings := sNewSettings }

end SettingsMemory

/-! ### Letters in lower case stay as they are -/

theorem toLower_toLower (a : UInt8) : Bytes.toLower (Bytes.toLower a) = Bytes.toLower a := by
  unfold Bytes.toLower
  split
  · rename_i hletter
    have hlow := UInt8.le_iff_toNat_le.mp hletter.1
    have hhigh := UInt8.le_iff_toNat_le.mp hletter.2
    rw [if_neg]
    rintro ⟨-, hsmall⟩
    have hsum := UInt8.le_iff_toNat_le.mp hsmall
    simp only [UInt8.toNat_add, UInt8.reduceToNat] at hlow hhigh hsum
    omega
  · rfl

/-- Behind a string there is its NUL, or nothing. -/
theorem cstr_drop_cstr (text : Bytes) : Bytes.cstr (text.drop (Bytes.cstr text).length) = [] := by
  induction text with
  | nil => rfl
  | cons a text ih =>
      by_cases ha : a = 0
      · subst ha
        rfl
      · have hcons : Bytes.cstr (a :: text) = a :: Bytes.cstr text := by simp [Bytes.cstr, ha]
        rw [hcons, List.length_cons, List.drop_succ_cons]
        exact ih

theorem cstr_lowerString (text : Bytes) :
    Bytes.cstr (Bytes.lowerString text) = (Bytes.cstr text).map Bytes.toLower := by
  have hzero : (0 : UInt8) ∉ (Bytes.cstr text).map Bytes.toLower := by
    intro hmem
    obtain ⟨a, ha, hlower⟩ := List.mem_map.mp hmem
    exact Bytes.ne_zero_of_mem_cstr ha (Bytes.eq_of_toLower_eq (by decide) hlower)
  rw [Bytes.lowerString, Bytes.cstr_append hzero, cstr_drop_cstr, List.append_nil]

theorem lowerString_lowerString (text : Bytes) :
    Bytes.lowerString (Bytes.lowerString text) = Bytes.lowerString text := by
  have hlength : (Bytes.cstr (Bytes.lowerString text)).length
      = ((Bytes.cstr text).map Bytes.toLower).length := congrArg List.length (cstr_lowerString text)
  rw [Bytes.lowerString, hlength, cstr_lowerString, List.map_map]
  rw [Bytes.lowerString, List.drop_left]
  congr 1
  exact List.map_congr_left fun a _ => toLower_toLower a

/-! ### The settings without pointers -/

/-- The block of the logfile, if there is one. -/
def ownString : Option Nat → Option Bytes → List (Nat × Bytes)
  | some string, some text => [(string, text)]
  | _, _ => []

/-- The settings in memory are these, and besides their string just the others are allocated. -/
structure Represents (s : SettingsMemory) (v : SSettings) (others : List (Nat × Bytes)) : Prop where
  long : ∀ pvDst, s.sCurrSSettings.long pvDst = v.getLong pvDst
  string : s.sCurrSSettings.pcLogfile.isSome = v.pcLogfile.isSome
  held : Holds s.strings (ownString s.sCurrSSettings.pcLogfile v.pcLogfile ++ others)

variable {s : SettingsMemory} {v : SSettings} {others : List (Nat × Bytes)}
  {string : Nat} {text : Bytes}

namespace Represents

theorem perm (h : Represents s v others) {more : List (Nat × Bytes)} (hperm : others.Perm more) :
    Represents s v more :=
  ⟨h.long, h.string, h.held.perm (hperm.append_left _)⟩

theorem read (h : Represents s v others) (hmem : (string, text) ∈ others) :
    s.strings.read string = (text, s.strings) :=
  h.held.read (List.mem_append_right _ hmem)

theorem touch (h : Represents s v others) (hmem : (string, text) ∈ others) : s.touch string = s := by
  rw [SettingsMemory.touch, h.read hmem]

theorem newString (h : Represents s v others) (allocator : Allocator Bytes) (text : Bytes) :
    Represents (s.newString allocator text).2 v
      (((s.newString allocator text).1, text) :: others) :=
  ⟨h.long, h.string, (h.held.alloc allocator text).perm List.perm_middle.symm⟩

theorem freeString (h : Represents s v ((string, text) :: others)) :
    Represents (s.freeString string) v others :=
  ⟨h.long, h.string, (h.held.perm List.perm_middle).free⟩

theorem lowerString (h : Represents s v ((string, text) :: others)) :
    Represents (s.lowerString string) v ((string, Bytes.lowerString text) :: others) :=
  ⟨h.long, h.string, ((h.held.perm List.perm_middle).modify Bytes.lowerString).perm List.perm_middle.symm⟩

/-- The string of the logfile is freed, and the settings are without it for a moment. -/
theorem dropOwn (h : Represents s v others) :
    Holds (s.sCurrSSettings.pcLogfile.elim s s.freeString).strings others := by
  have hheld := h.held
  have hstring := h.string
  cases hpc : s.sCurrSSettings.pcLogfile with
  | none =>
      rw [hpc] at hheld
      exact hheld
  | some old =>
      rw [hpc] at hheld hstring
      obtain ⟨text, htext⟩ := Option.isSome_iff_exists.mp hstring.symm
      rw [htext] at hheld
      exact hheld.free

theorem dropOwn_sCurrSSettings (s : SettingsMemory) :
    (s.sCurrSSettings.pcLogfile.elim s s.freeString).sCurrSSettings = s.sCurrSSettings := by
  cases s.sCurrSSettings.pcLogfile <;> rfl

theorem storeString (h : Represents s v others) (allocator : Allocator Bytes)
    (hmem : (string, text) ∈ others) :
    Represents (s.storeString allocator string) (v.setString text .pcLogfile) others := by
  have hdropped := h.dropOwn
  have hread := hdropped.read hmem
  have hnew := hdropped.alloc allocator text
  have hsame := dropOwn_sCurrSSettings s
  have hlong := h.long
  rw [← hsame] at hlong
  revert hdropped hread hnew hlong
  rw [SettingsMemory.storeString]
  generalize s.sCurrSSettings.pcLogfile.elim s s.freeString = dropped
  intro hdropped hread hnew hlong
  refine ⟨fun pvDst => ?_, rfl, ?_⟩
  · dsimp only [SettingsMemory.newString]
    rw [hlong pvDst]
    cases pvDst <;> rfl
  · dsimp only [SettingsMemory.newString]
    rw [hread]
    exact hnew

theorem storeLong (h : Represents s v others) (hmem : (string, text) ∈ others) (pvDst : LongSetting) :
    Represents (s.storeLong pvDst string) (v.setLong (Bytes.strtol text) pvDst) others := by
  rw [SettingsMemory.storeLong, h.read hmem]
  refine ⟨fun other => ?_, ?_, ?_⟩
  · dsimp only
    by_cases hother : other = pvDst
    · subst hother
      rw [Function.update_self]
      cases other <;> rfl
    · rw [Function.update_of_ne hother, h.long other]
      cases other <;> cases pvDst <;> first | rfl | exact absurd rfl hother
  · have hstring := h.string
    cases pvDst <;> exact hstring
  · have hheld := h.held
    cases pvDst <;> exact hheld

/-- `parse_option` does with the strings what it does with their texts. -/
theorem parseRows (h : Represents s v others) (allocator : Allocator Bytes) {cpcSection cpcKey cpcValue : Nat}
    {Section Key Value : Bytes} (hsection : (cpcSection, Section) ∈ others)
    (hkey : (cpcKey, Key) ∈ others) (hvalue : (cpcValue, Value) ∈ others) (rows : List OptionMapping) :
    Represents (s.parseRows allocator cpcSection cpcKey cpcValue rows).2
      (Settings.parseRows Section Key Value rows v).2 others := by
  induction rows generalizing s v with
  | nil => exact h
  | cons psSetting rows ih =>
      rw [SettingsMemory.parseRows, Settings.parseRows]
      rw [h.read hsection]
      dsimp only
      rw [h.read hkey]
      split
      · cases psSetting.pvDst with
        | typeNone => exact h
        | typeLong pvDst => exact h.storeLong hvalue pvDst
        | typeString pvDst =>
            cases pvDst
            exact ih (h.storeString allocator hvalue)
      · exact ih h

/-- A pair leaves the names and values as they were, but for the section in lower case. -/
theorem readPair {Section : Nat} {name : Bytes} (h : Represents s v ((Section, name) :: others))
    (allocator : Allocator Bytes) (pair : Bytes × Bytes) :
    Represents (s.readPair allocator Section pair) (applyPair v ⟨name, pair.1, pair.2⟩)
      ((Section, Bytes.lowerString name) :: others) := by
  have hkey := h.newString allocator pair.1
  rw [SettingsMemory.readPair]
  dsimp only
  generalize s.newString allocator pair.1 = key at hkey
  obtain ⟨Key, s₁⟩ := key
  have hvalue := hkey.newString allocator pair.2
  generalize s₁.newString allocator pair.2 = value at hvalue
  obtain ⟨Value, s₂⟩ := value
  dsimp only at hvalue ⊢
  have hkeyMem : (Key, pair.1) ∈ (Value, pair.2) :: (Key, pair.1) :: (Section, name) :: others := by simp
  rw [hvalue.touch hkeyMem, hvalue.touch List.mem_cons_self]
  -- the section to the front, then the key, and the three of them before `parse_option`
  have hsection : Represents (s₂.lowerString Section) v
      ((Section, Bytes.lowerString name) :: (Value, pair.2) :: (Key, pair.1) :: others) :=
    (hvalue.perm (by
      exact ((List.Perm.swap _ _ _).cons _).trans (List.Perm.swap _ _ _))).lowerString
  have hlowered : Represents ((s₂.lowerString Section).lowerString Key) v
      ((Key, Bytes.lowerString pair.1) :: (Value, pair.2) :: (Section, Bytes.lowerString name) :: others) :=
    (hsection.perm (by
      exact (List.Perm.swap _ _ _).trans
        (((List.Perm.swap _ _ _).cons _).trans (List.Perm.swap _ _ _)))).lowerString
  have hparsed : Represents
      ((s₂.lowerString Section).lowerString Key |>.parseRows allocator Section Key Value sKnownOptions).2
      (applyPair v ⟨name, pair.1, pair.2⟩)
      ((Key, Bytes.lowerString pair.1) :: (Value, pair.2) :: (Section, Bytes.lowerString name)
        :: others) := by
    apply hlowered.parseRows allocator
    · exact List.mem_cons_of_mem _ (List.mem_cons_of_mem _ List.mem_cons_self)
    · exact List.mem_cons_self
    · exact List.mem_cons_of_mem _ List.mem_cons_self
  exact hparsed.freeString.freeString

/-- The pairs of a section. Its name is in lower case from the first of them on. -/
theorem readPairs {Section : Nat} {name : Bytes} (h : Represents s v ((Section, name) :: others))
    (allocator : Allocator Bytes) (pairs : List (Bytes × Bytes)) :
    ∃ name', Represents (pairs.foldl (SettingsMemory.readPair allocator Section) s)
      ((pairs.map fun pair => (⟨name, pair.1, pair.2⟩ : Pair)).foldl applyPair v)
      ((Section, name') :: others) := by
  induction pairs generalizing s v name with
  | nil => exact ⟨name, h⟩
  | cons pair pairs ih =>
      obtain ⟨name', hrest⟩ := ih (h.readPair allocator pair)
      refine ⟨name', ?_⟩
      have hlowered : ∀ other : Bytes × Bytes, ∀ v : SSettings,
          applyPair v ⟨Bytes.lowerString name, other.1, other.2⟩ = applyPair v ⟨name, other.1, other.2⟩ := by
        intro other v
        rw [applyPair, applyPair, lowerString_lowerString]
      have hsame : ∀ (v : SSettings) (pairs : List (Bytes × Bytes)),
          (pairs.map fun pair => (⟨Bytes.lowerString name, pair.1, pair.2⟩ : Pair)).foldl applyPair v
            = (pairs.map fun pair => (⟨name, pair.1, pair.2⟩ : Pair)).foldl applyPair v := by
        intro v pairs
        rw [List.foldl_map, List.foldl_map]
        exact congrArg (fun f => pairs.foldl f v) (funext fun v => funext fun other => hlowered other v)
      rw [hsame] at hrest
      exact hrest

theorem settingsToLog (h : Represents s v others) : s.settingsToLog = s := by
  rw [SettingsMemory.settingsToLog]
  have hheld := h.held
  have hstring := h.string
  cases hpc : s.sCurrSSettings.pcLogfile with
  | none => rfl
  | some string =>
      rw [hpc] at hheld hstring
      obtain ⟨text, htext⟩ := Option.isSome_iff_exists.mp hstring.symm
      rw [htext] at hheld
      show s.touch string = s
      rw [SettingsMemory.touch, hheld.read List.mem_cons_self]

/-- Only the section in which libini fails stays behind. -/
theorem readSections (h : Represents s v others) (allocator : Allocator Bytes) (error : Option IniError)
    (sections : List IniSection) :
    ∃ leaked : List (Nat × Bytes),
      leaked.length = (if sections.any fun ini => ini.error.isSome then 1 else 0) ∧
      (s.readSections allocator error sections).1
        = !(error.isSome || sections.any fun ini => ini.error.isSome) ∧
      Represents (s.readSections allocator error sections).2 ((optionsRead sections).foldl applyPair v)
        (leaked ++ others) := by
  induction sections generalizing s v with
  | nil =>
      refine ⟨[], rfl, ?_, h⟩
      cases error <;> rfl
  | cons ini sections ih =>
      have hnew := h.newString allocator ini.name
      rw [SettingsMemory.readSections, optionsRead, List.foldl_append, List.any_cons]
      dsimp only
      generalize s.newString allocator ini.name = new at hnew
      obtain ⟨Section, s₁⟩ := new
      dsimp only at hnew ⊢
      rw [hnew.touch List.mem_cons_self]
      obtain ⟨name', hpairs⟩ := hnew.readPairs allocator ini.pairs
      cases herror : ini.error with
      | none =>
          obtain ⟨leaked, hlength, hend, hrest⟩ := ih hpairs.freeString
          exact ⟨leaked, hlength, hend, hrest⟩
      | some iRet =>
          refine ⟨[(Section, name')], by simp, by simp, ?_⟩
          exact hpairs

end Represents

/-! ### The calls of a program -/

inductive SettingsCall where
  | load (sIni : Option IniFile)
  | set (sNewSettings : StoredSettings)
  | destroy

def SettingsMemory.call (allocator : Allocator Bytes) (s : SettingsMemory) : SettingsCall → SettingsMemory
  | .load sIni => (s.settingsLoad allocator sIni).2
  | .set sNewSettings => s.settingsSet sNewSettings
  | .destroy => s.settingsDestroy

/-- `settings_set` is given the pointer that `settings_get` returns at that moment. -/
def SettingsCall.Keeps (s : SettingsMemory) : SettingsCall → Prop
  | .set sNewSettings => sNewSettings.pcLogfile = s.settingsGet.pcLogfile
  | .load _ | .destroy => True

def SettingsMemory.KeepsAll (allocator : Allocator Bytes) : SettingsMemory → List SettingsCall → Prop
  | _, [] => True
  | s, call :: calls => call.Keeps s ∧ KeepsAll allocator (s.call allocator call) calls

/-- The same calls on the settings without pointers. -/
def SSettings.call (v : SSettings) : SettingsCall → SSettings
  | .load sIni => (settingsLoad [] sIni ⟨v, []⟩).2.sCurrSSettings
  | .set sNewSettings =>
      ⟨sNewSettings.long .lMaxClientsPerThread, sNewSettings.long .lWorkerThreads,
        sNewSettings.long .lLogLevel, sNewSettings.long .lPort, v.pcLogfile⟩
  | .destroy => nothingSet

/-- libini fails inside a section. -/
def SettingsCall.breaksOff : SettingsCall → Bool
  | .load (some ini) => ini.sections.any fun ini => ini.error.isSome
  | _ => false

theorem Represents.set (h : Represents s v others) {sNewSettings : StoredSettings}
    (hsame : sNewSettings.pcLogfile = s.settingsGet.pcLogfile) :
    Represents (s.settingsSet sNewSettings) (v.call (.set sNewSettings)) others := by
  refine ⟨fun pvDst => ?_, ?_, ?_⟩
  · cases pvDst <;> rfl
  · exact (congrArg Option.isSome hsame).trans h.string
  · show Holds s.strings (ownString sNewSettings.pcLogfile v.pcLogfile ++ others)
    rw [hsame]
    exact h.held

/-- `settings_destroy` frees the string of the logfile and no other exactly if `settings_set` was given
the pointer to it. -/
theorem Represents.set_iff (h : Represents s v others) (sNewSettings : StoredSettings) :
    Holds (s.settingsSet sNewSettings).settingsDestroy.strings others
      ↔ sNewSettings.pcLogfile = s.settingsGet.pcLogfile := by
  refine ⟨fun hdestroyed => ?_, fun hsame => (h.set hsame).dropOwn⟩
  have hheld := h.held
  have hstring := h.string
  rw [SettingsMemory.settingsDestroy, SettingsMemory.settingsSet] at hdestroyed
  cases hnew : sNewSettings.pcLogfile with
  | none =>
      rw [hnew] at hdestroyed
      cases hold : s.sCurrSSettings.pcLogfile with
      | none => exact hold.symm
      | some string =>
          rw [hold] at hheld hstring
          obtain ⟨text, htext⟩ := Option.isSome_iff_exists.mp hstring.symm
          rw [htext] at hheld
          -- the string is still there, and should not be
          have hmem := (hdestroyed.cells string text).mp (hheld.cell_of_mem List.mem_cons_self)
          exact absurd (List.mem_map_of_mem hmem) (List.nodup_cons.mp hheld.nodup).1
  | some string =>
      rw [hnew] at hdestroyed
      obtain ⟨⟨text, hcell⟩, hnot⟩ := Holds.of_free (m := s.strings) (a := string) hdestroyed
      have hown := (List.mem_append.mp ((hheld.cells string text).mp hcell)).resolve_right fun hmem =>
        hnot (List.mem_map_of_mem hmem)
      show some string = s.sCurrSSettings.pcLogfile
      revert hown
      cases s.sCurrSSettings.pcLogfile <;> cases v.pcLogfile <;> intro hown
      any_goals exact absurd hown List.not_mem_nil
      rw [(Prod.mk.inj (List.mem_singleton.mp hown)).1]

/-- A copy of the struct outlives the string: it is freed again. -/
theorem Represents.destroy_twice_wild (h : Represents s v others)
    (hset : s.settingsGet.pcLogfile.isSome = true) :
    (s.settingsDestroy.settingsSet s.settingsGet).settingsDestroy.strings.wild = true := by
  have hheld := h.held
  obtain ⟨string, hstring⟩ := Option.isSome_iff_exists.mp hset
  obtain ⟨text, htext⟩ := Option.isSome_iff_exists.mp (h.string.symm.trans hset)
  change s.sCurrSSettings.pcLogfile = some string at hstring
  rw [hstring, htext] at hheld
  have hfreed : s.settingsDestroy.strings.cells string = none :=
    h.dropOwn.isNone_iff.mpr (List.nodup_cons.mp hheld.nodup).1
  show (s.sCurrSSettings.pcLogfile.elim _ _ : SettingsMemory).strings.wild = true
  rw [hstring]
  exact Arena.free_of_none hfreed

theorem Represents.call (h : Represents s v others) (allocator : Allocator Bytes) {call : SettingsCall}
    (hkeeps : call.Keeps s) :
    ∃ leaked : List (Nat × Bytes), leaked.length = (if call.breaksOff then 1 else 0) ∧
      Represents (s.call allocator call) (v.call call) (leaked ++ others) := by
  cases call with
  | set sNewSettings => exact ⟨[], rfl, h.set hkeeps⟩
  | destroy =>
      refine ⟨[], rfl, fun pvDst => ?_, rfl, h.dropOwn⟩
      cases pvDst <;> rfl
  | load sIni =>
      cases sIni with
      | none => exact ⟨[], rfl, h⟩
      | some ini =>
          obtain ⟨leaked, hlength, -, hload⟩ := h.readSections allocator ini.error ini.sections
          refine ⟨leaked, hlength, ?_⟩
          rw [SSettings.call, settingsLoad_sCurrSSettings]
          rw [SettingsMemory.call, SettingsMemory.settingsLoad]
          cases hread : s.readSections allocator ini.error ini.sections with
          | mk ended t =>
              rw [hread] at hload
              cases ended with
              | false => exact hload
              | true =>
                  dsimp only at hload ⊢
                  rw [hload.settingsToLog]
                  exact hload

theorem Represents.calls (h : Represents s v others) (allocator : Allocator Bytes)
    {calls : List SettingsCall} (hkeeps : s.KeepsAll allocator calls) :
    ∃ leaked : List (Nat × Bytes), leaked.length = calls.countP SettingsCall.breaksOff ∧
      Represents (calls.foldl (SettingsMemory.call allocator) s) (calls.foldl SSettings.call v)
        (leaked ++ others) := by
  induction calls generalizing s v others with
  | nil => exact ⟨[], rfl, h⟩
  | cons call calls ih =>
      obtain ⟨first, hfirst, hcall⟩ := h.call allocator hkeeps.1
      obtain ⟨rest, hrest, hcalls⟩ := ih hcall hkeeps.2
      refine ⟨rest ++ first, ?_, ?_⟩
      · rw [List.length_append, hrest, hfirst, List.countP_cons]
      · rw [List.append_assoc]
        exact hcalls

/-- Over any calls, with any files, from the settings a program starts with, and with the pointer of the
settings in each call of `settings_set`: the settings in memory are those without pointers, no string is
used or freed that is not there, and the strings there are are the one of the logfile, one for each load
that libini broke off in a section, and those of the rest of the program. `settings_destroy` frees the
first; after one more `settings_set`, exactly if that is given the pointer as well. -/
theorem settings_strings (allocator : Allocator Bytes)
    (hzero : s.sCurrSSettings = ⟨fun _ => 0, none⟩) (hheld : Holds s.strings others)
    {calls : List SettingsCall} (hkeeps : s.KeepsAll allocator calls) :
    ∃ leaked : List (Nat × Bytes), leaked.length = calls.countP SettingsCall.breaksOff ∧
      Represents (calls.foldl (SettingsMemory.call allocator) s) (calls.foldl SSettings.call nothingSet)
        (leaked ++ others) ∧
      Holds (calls.foldl (SettingsMemory.call allocator) s).settingsDestroy.strings
        (leaked ++ others) ∧
      ∀ sNewSettings,
        Holds ((calls.foldl (SettingsMemory.call allocator) s).settingsSet
            sNewSettings).settingsDestroy.strings (leaked ++ others)
          ↔ sNewSettings.pcLogfile
            = (calls.foldl (SettingsMemory.call allocator) s).settingsGet.pcLogfile := by
  have hstart : Represents s nothingSet others := by
    refine ⟨fun pvDst => ?_, ?_, ?_⟩
    · rw [hzero]
      cases pvDst <;> rfl
    · rw [hzero]
      rfl
    · rw [hzero]
      exact hheld
  obtain ⟨leaked, hlength, hcalls⟩ := hstart.calls allocator hkeeps
  exact ⟨leaked, hlength, hcalls, hcalls.dropOwn, hcalls.set_iff⟩

/-- A file that is read to its end, with two logfiles in it, and one in which libini fails. -/
theorem settings_strings_brokenOff :
    ∃ leaked : List (Nat × Bytes), leaked.length = 1 ∧
      Holds ([.load (some dualSettings), .load (some brokenOff)].foldl
        (SettingsMemory.call .anywhere) ⟨⟨fun _ => 0, none⟩, ⟨fun _ => none, 0, false⟩⟩
        ).settingsDestroy.strings leaked := by
  have hempty : Holds (⟨fun _ => none, 0, false⟩ : Arena Bytes) [] :=
    ⟨rfl, List.nodup_nil, fun a text => by simp⟩
  have hkeeps : SettingsMemory.KeepsAll .anywhere ⟨⟨fun _ => 0, none⟩, ⟨fun _ => none, 0, false⟩⟩
      [.load (some dualSettings), .load (some brokenOff)] := ⟨trivial, trivial, trivial⟩
  obtain ⟨leaked, hlength, -, hheld, -⟩ := settings_strings .anywhere rfl hempty hkeeps
  rw [List.append_nil] at hheld
  exact ⟨leaked, hlength.trans (by decide), hheld⟩

end CewServer.Settings
