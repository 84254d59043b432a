import Esound.Library.CString
import Esound.Library.Lines
import Esound.Library.Strtol
import Esound.ByteOrder
import Mathlib.Data.List.DropRight

/-!
# The configuration file

`esd_config_read_file` reads `key=value` lines into four settings. What the file is meant to say is
stated on its own: every line that sets something is a setting, and the file is what its settings
do, one after the other.
-/

open Library.CString Library.Lines Library.Strtol

namespace Esound

def linebufSize : ℕ := 1024

structure EsdConfig where
  noSpawn : ℤ
  spawnWaitMs : ℤ
  spawnOptions : List Octet
  defaultOptions : List Octet
  deriving DecidableEq

/-- The settings before a file is read. -/
def EsdConfig.init : EsdConfig := ⟨0, 100, ascii "-terminate -nobeeps -as 2", []⟩

def newline : Octet := 10#8
def equals : Octet := 61#8
def commentMark : Octet := 35#8
def sectionMark : Octet := 91#8

def lower (c : Octet) : Octet := if 65 ≤ c.toNat ∧ c.toNat ≤ 90 then c + 32#8 else c

/-- `!strcasecmp (s, t)`. -/
def sameLetters (s : List Octet) (t : String) : Bool := s.map lower = ascii t

/-! ## The parser -/

/-- What is left of a line without the white space at both ends. A line of nothing else is not
moved, and emptied from its end. -/
def chomp (aline : List Octet) : List Octet :=
  let start := aline.dropWhile isSpace
  (if start ≠ [] then start else aline).rdropWhile isSpace

def autoSpawn (value : List Octet) (cfg : EsdConfig) : EsdConfig :=
  if sameLetters value "true" || sameLetters value "yes" || sameLetters value "1" then
    { cfg with noSpawn := 0 }
  else if sameLetters value "false" || sameLetters value "no" || sameLetters value "0" then
    { cfg with noSpawn := 1 }
  else cfg

/-- The test that the value is not empty compares its address, which is never null. -/
def waitMs (value : List Octet) (cfg : EsdConfig) : EsdConfig :=
  let (val, endptr) := strtol value 0
  if endptr = [] then { cfg with spawnWaitMs := int32 val } else cfg

def setOption (key value : List Octet) (cfg : EsdConfig) : EsdConfig :=
  if sameLetters key "auto_spawn" then autoSpawn value cfg
  else if sameLetters key "spawn_options" then { cfg with spawnOptions := value }
  else if sameLetters key "default_options" then { cfg with defaultOptions := value }
  else if sameLetters key "spawn_wait_ms" then waitMs value cfg
  else cfg

/-- The key and the value of a line, as tokens between `=`. -/
def tokens (aline : List Octet) : Option (List Octet × List Octet) :=
  (strtok equals aline).map fun key => (key.1, ((strtok equals key.2).map Prod.fst).getD [])

/-- A turn of the loop; the buffer is a string, and ends at the first 0 of the line. -/
def readConfigLine (cfg : EsdConfig) (line : List Octet) : EsdConfig :=
  let aline := chomp (line.takeWhile (· ≠ 0))
  if aline.head? = some commentMark ∨ aline.head? = some sectionMark ∨ aline = [] then cfg
  else
    match tokens aline with
    | none => cfg
    | some (key, value) => setOption key value cfg

def esdConfigReadFile (file : List Octet) (cfg : EsdConfig) : EsdConfig :=
  (readLines newline (linebufSize - 1) file.length file).foldl readConfigLine cfg

/-! ## What a file says -/

inductive Setting
  | noSpawn (n : ℤ)
  | spawnWaitMs (n : ℤ)
  | spawnOptions (value : List Octet)
  | defaultOptions (value : List Octet)
  deriving DecidableEq

def Setting.apply : Setting → EsdConfig → EsdConfig
  | noSpawn n, cfg => { cfg with noSpawn := n }
  | spawnWaitMs n, cfg => { cfg with spawnWaitMs := n }
  | spawnOptions value, cfg => { cfg with spawnOptions := value }
  | defaultOptions value, cfg => { cfg with defaultOptions := value }

/-- What a key with a value sets, if the key is known and the value is one for it. -/
def Setting.of (key value : List Octet) : Option Setting :=
  if sameLetters key "auto_spawn" then
    if ["true", "yes", "1"].any (sameLetters value) then some (noSpawn 0)
    else if ["false", "no", "0"].any (sameLetters value) then some (noSpawn 1)
    else none
  else if sameLetters key "spawn_options" then some (spawnOptions value)
  else if sameLetters key "default_options" then some (defaultOptions value)
  else if sameLetters key "spawn_wait_ms" then (literal value).map fun n => spawnWaitMs (int32 (clamp n))
  else none

/-- The text of a line, without the white space around it. -/
def lineText (line : List Octet) : List Octet :=
  ((line.takeWhile (· ≠ 0)).dropWhile isSpace).rdropWhile isSpace

/-- A comment, the name of a section, or nothing. -/
def Blank (text : List Octet) : Prop :=
  text = [] ∨ text.head? = some commentMark ∨ text.head? = some sectionMark

instance (text : List Octet) : Decidable (Blank text) := inferInstanceAs (Decidable (_ ∨ _ ∨ _))

/-- What a line sets. -/
def lineSetting (line : List Octet) : Option Setting :=
  let text := lineText line
  if Blank text then none else Setting.of (cut equals text).1 (cut equals text).2

def EsdConfig.set (cfg : EsdConfig) (setting : Option Setting) : EsdConfig :=
  setting.elim cfg (·.apply cfg)

def meantBy (lines : List (List Octet)) (cfg : EsdConfig) : EsdConfig :=
  lines.foldl (fun cfg line => cfg.set (lineSetting line)) cfg

/-! ## Where the parser reads something else -/

/-- A value that is missing where a number should be. -/
def EmptyWait (key value : List Octet) : Prop := sameLetters key "spawn_wait_ms" = true ∧ value = []

/-- One `=` behind a key, or none, and no wait without a number. -/
def Plain (text : List Octet) : Prop :=
  text.head? ≠ some equals ∧ equals ∉ (cut equals text).2 ∧
    ¬ EmptyWait (cut equals text).1 (cut equals text).2

/-- The key is not known or the value is not one for it. -/
def SetsNothing (key value : List Octet) : Prop := Setting.of key value = none ∧ ¬ EmptyWait key value

/-- The line is plain, or it says nothing: neither around its first `=`, nor in its tokens. -/
def WellSaid (line : List Octet) : Prop :=
  Blank (lineText line) ∨ Plain (lineText line) ∨
    (∀ t ∈ tokens (lineText line), SetsNothing t.1 t.2) ∧
      SetsNothing (cut equals (lineText line)).1 (cut equals (lineText line)).2

instance (key value : List Octet) : Decidable (EmptyWait key value) := inferInstanceAs (Decidable (_ ∧ _))

instance (key value : List Octet) : Decidable (SetsNothing key value) := inferInstanceAs (Decidable (_ ∧ _))

instance (text : List Octet) : Decidable (Plain text) := inferInstanceAs (Decidable (_ ∧ _ ∧ _))

instance (line : List Octet) : Decidable (WellSaid line) := inferInstanceAs (Decidable (_ ∨ _ ∨ _ ∧ _))

/-- What the parser takes from a key and a value. -/
def settingTaken (key value : List Octet) : Option Setting :=
  if EmptyWait key value then some (.spawnWaitMs 0) else Setting.of key value

def takenFrom (line : List Octet) : Option Setting :=
  if Blank (lineText line) then none else (tokens (lineText line)).bind fun t => settingTaken t.1 t.2

section Lines

variable {key value text line : List Octet} {cfg : EsdConfig}

theorem chomp_eq (aline : List Octet) : chomp aline = (aline.dropWhile isSpace).rdropWhile isSpace := by
  simp only [chomp]
  by_cases hspaces : aline.dropWhile isSpace = []
  · rw [if_neg (not_not.mpr hspaces), hspaces,
      List.rdropWhile_eq_nil_iff.mpr (List.dropWhile_eq_nil_iff.mp hspaces)]
    rfl
  · rw [if_pos hspaces]

theorem settingTaken_eq_none_iff : settingTaken key value = none ↔ SetsNothing key value := by
  rw [settingTaken, SetsNothing]
  split_ifs with hwait <;> simp [hwait]

theorem waitMs_eq (value : List Octet) (cfg : EsdConfig) : waitMs value cfg =
    cfg.set (if value = [] then some (.spawnWaitMs 0)
      else (literal value).map fun n => .spawnWaitMs (int32 (clamp n))) := by
  by_cases hempty : value = []
  · subst hempty
    rfl
  · rw [if_neg hempty]
    cases hliteral : literal value with
    | some n =>
      simp only [waitMs, strtol_literal hliteral, if_true]
      rfl
    | none =>
      have hrest : (strtol value 0).2 ≠ [] := fun h => by
        have hsome := (strtol_complete_iff hempty).mp h
        simp [hliteral] at hsome
      simp only [waitMs]
      rw [if_neg hrest]
      rfl

theorem autoSpawn_eq (value : List Octet) (cfg : EsdConfig) : autoSpawn value cfg =
    cfg.set (if ["true", "yes", "1"].any (sameLetters value) then some (.noSpawn 0)
      else if ["false", "no", "0"].any (sameLetters value) then some (.noSpawn 1) else none) := by
  simp only [autoSpawn, List.any_cons, List.any_nil, Bool.or_false, Bool.or_assoc]
  split_ifs <;> rfl

theorem sameLetters_unique {s t : String} (h : sameLetters key s = true) (hne : ascii s ≠ ascii t) :
    ¬ sameLetters key t = true := by
  simp only [sameLetters, decide_eq_true_eq] at h ⊢
  exact fun ht => hne (h.symm.trans ht)

theorem setOption_eq (key value : List Octet) (cfg : EsdConfig) :
    setOption key value cfg = cfg.set (settingTaken key value) := by
  by_cases hwait : sameLetters key "spawn_wait_ms" = true
  · have hauto := sameLetters_unique (t := "auto_spawn") hwait (by decide)
    have hspawn := sameLetters_unique (t := "spawn_options") hwait (by decide)
    have hdefault := sameLetters_unique (t := "default_options") hwait (by decide)
    rw [setOption, if_neg hauto, if_neg hspawn, if_neg hdefault, if_pos hwait, waitMs_eq, settingTaken,
      Setting.of, if_neg hauto, if_neg hspawn, if_neg hdefault, if_pos hwait]
    congr 1
    by_cases hempty : value = []
    · rw [if_pos hempty, if_pos ⟨hwait, hempty⟩]
    · rw [if_neg hempty, if_neg fun h => hempty h.2]
  · have hempty : ¬ EmptyWait key value := fun h => hwait h.1
    rw [settingTaken, if_neg hempty, setOption, Setting.of, autoSpawn_eq]
    split_ifs <;> rfl

theorem readConfigLine_eq (cfg : EsdConfig) (line : List Octet) :
    readConfigLine cfg line = cfg.set (takenFrom line) := by
  have htext : chomp (line.takeWhile (· ≠ 0)) = lineText line := chomp_eq _
  simp only [readConfigLine, htext, takenFrom]
  have hblank : Blank (lineText line) ↔ (lineText line).head? = some commentMark ∨
      (lineText line).head? = some sectionMark ∨ lineText line = [] := by
    rw [Blank]
    tauto
  by_cases h : Blank (lineText line)
  · rw [if_pos h, if_pos (hblank.mp h)]
    rfl
  · rw [if_neg h, if_neg fun h' => h (hblank.mpr h')]
    cases tokens (lineText line) with
    | none => rfl
    | some t => exact setOption_eq t.1 t.2 cfg

theorem set_injective {a b : Option Setting} (h : ∀ cfg : EsdConfig, cfg.set a = cfg.set b) : a = b := by
  have hzero := h ⟨0, 0, [], []⟩
  have hone := h ⟨1, 1, [1], [1]⟩
  rcases a with _ | (n | n | v | v) <;> rcases b with _ | (m | m | w | w) <;>
    simp only [EsdConfig.set, Option.elim_none, Option.elim_some, Setting.apply, EsdConfig.mk.injEq]
      at hzero hone <;>
    grind

theorem sameLetters_equals {t : String} (h : sameLetters value t = true) (ht : equals ∉ ascii t) :
    equals ∉ value := fun hmem => by
  have hlower : equals ∈ value.map lower := List.mem_map.mpr ⟨equals, hmem, by decide⟩
  simp only [sameLetters, decide_eq_true_eq] at h
  exact ht (h ▸ hlower)

theorem any_sameLetters_equals {words : List String} (h : words.any (sameLetters value) = true)
    (hwords : ∀ t ∈ words, equals ∉ ascii t) : equals ∉ value := by
  obtain ⟨t, ht, hsame⟩ := List.any_eq_true.mp h
  exact sameLetters_equals hsame (hwords t ht)

theorem literal_equals {n : ℤ} (h : literal value = some n) : equals ∉ value := fun hmem => by
  have hoctets := literal_mem h hmem
  revert hoctets
  decide

/-- Of the options only the two that take any text have a value with `=` in it, and they take each
text for itself. -/
theorem settingTaken_of_equals {value' : List Octet} (hvalue : equals ∈ value) (hvalue' : equals ∉ value')
    (h : settingTaken key value' = Setting.of key value) :
    settingTaken key value' = none ∧ Setting.of key value = none := by
  have hne : value' ≠ value := fun he => hvalue' (he ▸ hvalue)
  rw [h, and_self]
  by_cases hauto : sameLetters key "auto_spawn" = true
  · have htrue : ¬ ["true", "yes", "1"].any (sameLetters value) = true := fun hany =>
      any_sameLetters_equals hany (by decide) hvalue
    have hfalse : ¬ ["false", "no", "0"].any (sameLetters value) = true := fun hany =>
      any_sameLetters_equals hany (by decide) hvalue
    rw [Setting.of, if_pos hauto, if_neg htrue, if_neg hfalse]
  · rw [Setting.of, if_neg hauto]
    by_cases hspawn : sameLetters key "spawn_options" = true
    · have hwait : ¬ EmptyWait key value' := fun he => sameLetters_unique hspawn (by decide) he.1
      simp only [settingTaken, if_neg hwait, Setting.of, if_neg hauto, if_pos hspawn, Option.some.injEq,
        Setting.spawnOptions.injEq] at h
      exact absurd h hne
    · rw [if_neg hspawn]
      by_cases hdefault : sameLetters key "default_options" = true
      · have hwait : ¬ EmptyWait key value' := fun he => sameLetters_unique hdefault (by decide) he.1
        simp only [settingTaken, if_neg hwait, Setting.of, if_neg hauto, if_neg hspawn, if_pos hdefault,
          Option.some.injEq, Setting.defaultOptions.injEq] at h
        exact absurd h hne
      · rw [if_neg hdefault]
        cases hliteral : literal value with
        | none => simp
        | some n => exact absurd hvalue (literal_equals hliteral)

theorem of_emptyWait (h : EmptyWait key value) : Setting.of key value = none := by
  have hauto := sameLetters_unique (t := "auto_spawn") h.1 (by decide)
  have hspawn := sameLetters_unique (t := "spawn_options") h.1 (by decide)
  have hdefault := sameLetters_unique (t := "default_options") h.1 (by decide)
  rw [Setting.of, if_neg hauto, if_neg hspawn, if_neg hdefault, if_pos h.1, h.2]
  rfl

theorem tokens_key (hne : text ≠ []) (hhead : text.head? ≠ some equals) :
    ∃ value', tokens text = some ((cut equals text).1, value') ∧ equals ∉ value' ∧
      (equals ∉ (cut equals text).2 → value' = (cut equals text).2) := by
  have hkey := strtok_eq_cut hne hhead
  refine ⟨_, by rw [tokens, hkey]; rfl, ?_, fun hvalue => ?_⟩
  · cases htoken : strtok equals (cut equals text).2 with
    | none => simp
    | some t => exact strtok_token htoken
  · cases hempty : (cut equals text).2 with
    | nil => rfl
    | cons c rest =>
      rw [hempty] at hvalue
      have hstart : (c :: rest).head? ≠ some equals := fun h => by
        rw [List.head?_cons, Option.some.injEq] at h
        exact hvalue (h ▸ List.mem_cons_self)
      rw [strtok_eq_cut (by simp) hstart, cut_whole hvalue]
      rfl

/-- A text that begins with `=` has an empty key and says nothing; its tokens may. -/
theorem takenTokens_eq_iff_of_head (hhead : text.head? = some equals) :
    (tokens text).bind (fun t => settingTaken t.1 t.2) =
        Setting.of (cut equals text).1 (cut equals text).2 ↔
      Plain text ∨ (∀ t ∈ tokens text, SetsNothing t.1 t.2) ∧
        SetsNothing (cut equals text).1 (cut equals text).2 := by
  have hkey : (cut equals text).1 = [] := by
    cases text with
    | nil => rfl
    | cons c rest =>
      rw [List.head?_cons, Option.some.injEq] at hhead
      simp [cut, hhead]
  have hnothing : Setting.of (cut equals text).1 (cut equals text).2 = none ∧
      SetsNothing (cut equals text).1 (cut equals text).2 := by
    rw [hkey]
    exact ⟨rfl, rfl, fun hwait => absurd hwait.1 (by decide)⟩
  have hplain : ¬ Plain text := fun h => h.1 hhead
  rw [hnothing.1, Option.bind_eq_none_iff]
  simp only [hplain, hnothing.2, and_true, false_or]
  exact forall₂_congr fun t _ => settingTaken_eq_none_iff

/-- A text that begins with its key. -/
theorem takenTokens_eq_iff_of_key (hne : text ≠ []) (hhead : text.head? ≠ some equals) :
    (tokens text).bind (fun t => settingTaken t.1 t.2) =
        Setting.of (cut equals text).1 (cut equals text).2 ↔
      Plain text ∨ (∀ t ∈ tokens text, SetsNothing t.1 t.2) ∧
        SetsNothing (cut equals text).1 (cut equals text).2 := by
  obtain ⟨value', htokens, hvalue', hsame⟩ := tokens_key hne hhead
  simp only [htokens, Option.bind_some, Option.mem_def, Option.some.injEq, forall_eq']
  by_cases hequals : equals ∈ (cut equals text).2
  · -- the token ends before the value does
    have hplain : ¬ Plain text := fun h => h.2.1 hequals
    have hwait : ¬ EmptyWait (cut equals text).1 (cut equals text).2 := fun h => by
      rw [h.2] at hequals
      simp at hequals
    simp only [hplain, false_or]
    constructor
    · intro h
      obtain ⟨hcode, hmeant⟩ := settingTaken_of_equals hequals hvalue' h
      exact ⟨settingTaken_eq_none_iff.mp hcode, hmeant, hwait⟩
    · rintro ⟨hcode, hmeant, -⟩
      rw [settingTaken_eq_none_iff.mpr hcode, hmeant]
  · rw [hsame hequals]
    by_cases hwait : EmptyWait (cut equals text).1 (cut equals text).2
    · refine iff_of_false ?_ ?_
      · rw [of_emptyWait hwait, settingTaken, if_pos hwait]
        simp
      · rintro (hplain | hnothing)
        · exact hplain.2.2 hwait
        · exact hnothing.1.2 hwait
    · exact iff_of_true (if_neg hwait) (.inl ⟨hhead, hequals, hwait⟩)

theorem takenFrom_eq_iff : takenFrom line = lineSetting line ↔ WellSaid line := by
  by_cases hblank : Blank (lineText line)
  · rw [takenFrom, lineSetting, if_pos hblank]
    simp [WellSaid, hblank]
  · have hne : lineText line ≠ [] := fun h => hblank (.inl h)
    rw [takenFrom, if_neg hblank, WellSaid]
    simp only [lineSetting, hblank, if_false, false_or]
    by_cases hhead : (lineText line).head? = some equals
    · exact takenTokens_eq_iff_of_head hhead
    · exact takenTokens_eq_iff_of_key hne hhead

theorem meantBy_eq_of_wellSaid {part : List (List Octet)} (h : ∀ line ∈ part, WellSaid line)
    (cfg : EsdConfig) :
    part.foldl (fun cfg line => cfg.set (takenFrom line)) cfg = meantBy part cfg := by
  induction part generalizing cfg with
  | nil => rfl
  | cons line part ih =>
    rw [meantBy, List.foldl_cons, List.foldl_cons, takenFrom_eq_iff.mpr (h line List.mem_cons_self)]
    exact ih (fun l hl => h l (List.mem_cons_of_mem _ hl)) _

theorem read_part_eq {file : List Octet} {part : List (List Octet)}
    (hfits : ∀ line ∈ lines newline file, line.length < linebufSize)
    (hpart : part.Sublist (lines newline file)) (cfg : EsdConfig) :
    esdConfigReadFile part.flatten cfg =
      part.foldl (fun cfg line => cfg.set (takenFrom line)) cfg := by
  have hlines := lines_flatten ((areLines_lines newline file).sublist hpart)
  have hall : ∀ line ∈ lines newline part.flatten, line.length ≤ linebufSize - 1 := by
    rw [hlines]
    intro line hline
    have hlt := hfits line (hpart.subset hline)
    omega
  rw [esdConfigReadFile, readLines_eq_lines le_rfl hall, hlines]
  exact congrArg (fun f => part.foldl f cfg) (funext₂ readConfigLine_eq)

theorem file_as_meant {file : List Octet}
    (hfits : ∀ line ∈ lines newline file, line.length < linebufSize)
    (hsaid : ∀ line ∈ lines newline file, WellSaid line) (cfg : EsdConfig) :
    esdConfigReadFile file cfg = meantBy (lines newline file) cfg := by
  have hread := read_part_eq hfits (List.Sublist.refl _) cfg
  rw [flatten_lines] at hread
  rw [hread, meantBy_eq_of_wellSaid hsaid]

/-- The file is read as it is meant, and so is every file of some of its lines, exactly if each of
its lines is well said. -/
theorem config_file_iff {file : List Octet}
    (hfits : ∀ line ∈ lines newline file, line.length < linebufSize) :
    (∀ part : List (List Octet), part.Sublist (lines newline file) → ∀ cfg : EsdConfig,
      esdConfigReadFile part.flatten cfg = meantBy part cfg) ↔
        ∀ line ∈ lines newline file, WellSaid line := by
  constructor
  · intro h line hline
    -- the file of this line alone
    have hpart : [line].Sublist (lines newline file) := List.singleton_sublist.mpr hline
    rw [← takenFrom_eq_iff]
    refine set_injective fun cfg => ?_
    have hone := h [line] hpart cfg
    rw [read_part_eq hfits hpart] at hone
    exact hone
  · intro h part hpart cfg
    rw [read_part_eq hfits hpart]
    exact meantBy_eq_of_wellSaid (fun line hline => h line (hpart.subset hline)) cfg

theorem config_file_iff_two_lines :
    esdConfigReadFile (ascii "Auto_Spawn=no\n spawn_wait_ms=0x20\n") .init =
      ⟨1, 32, EsdConfig.init.spawnOptions, []⟩ := by
  have hmeant := (@config_file_iff (ascii "Auto_Spawn=no\n spawn_wait_ms=0x20\n") (by decide)).mpr
    (by decide) _ (List.Sublist.refl _) .init
  rw [flatten_lines] at hmeant
  exact hmeant.trans (by decide)

/-- A value with `=` in it is cut short, and a missing number is 0. -/
theorem config_file_misread :
    (∀ line ∈ lines newline (ascii "spawn_options=-as=2\nspawn_wait_ms=\n"),
        line.length < linebufSize) ∧
      esdConfigReadFile (ascii "spawn_options=-as=2\nspawn_wait_ms=\n") .init =
        ⟨0, 0, ascii "-as", []⟩ ∧
      meantBy (lines newline (ascii "spawn_options=-as=2\nspawn_wait_ms=\n")) .init =
        ⟨0, 100, ascii "-as=2", []⟩ := by
  decide

end Lines

end Esound
