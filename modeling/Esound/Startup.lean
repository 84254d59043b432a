import Esound.Config
import Esound.DeviceFrames
import Esound.HostString
import Esound.Library.Override
import Esound.MainLoop

/-!
# Starting the daemon

What `main` does before it enters its loop: the options of the configuration and of the command
line are parsed one after the other, and the device is opened with the first of a list of formats
and rates that it takes.
-/

open Library.Buffer Library.CString Library.Override Library.Strtol Library.Transition

namespace Esound

/-! ## The configuration -/

/-- What `esd_config_read` finds: the files that can be opened, and the environment. -/
structure ConfigEnv where
  system : Option (List Octet)
  home : Option (List Octet)
  noSpawn : Bool
  spawnOptions : Option (List Octet)
  defaultOptions : Option (List Octet)

/-- A value from the environment, where it fits. -/
def fromEnv (value : Option (List Octet)) (options : List Octet) : List Octet :=
  match value with
  | some v => if v.length < linebufSize - 1 then v else options
  | none => options

def esdConfigRead (env : ConfigEnv) : EsdConfig :=
  let cfg := env.system.elim .init fun file => esdConfigReadFile file .init
  let cfg := env.home.elim cfg fun file => esdConfigReadFile file cfg
  let cfg := if env.noSpawn then { cfg with noSpawn := 1 } else cfg
  { cfg with
    spawnOptions := fromEnv env.spawnOptions cfg.spawnOptions
    defaultOptions := fromEnv env.defaultOptions cfg.defaultOptions }

/-! ## Options -/

def maxOpts : ℕ := 128
def esdDefaultRate : ℤ := 44100
def esdDefaultAutostandbySecs : ℤ := 5
def space : Octet := 32#8

/-- What the options set: globals, and locals of `main`. -/
structure Settings where
  esdAudioDevice : Option (List Octet)
  esdPort : ℤ
  hostname : Option (List Octet)
  defaultFormat : Word
  defaultRate : ℤ
  esdAutostandbySecs : ℤ
  esdBeeps : Bool
  esdUseTcpip : Bool
  esdPublic : Bool
  esdIsOwned : Bool
  esdIsLocked : Bool
  esdTerminate : Bool
  esdSpawnpid : ℤ
  esdSpawnfd : ℤ
  esdTrustval : ℤ
  deriving DecidableEq

def Settings.init : Settings where
  esdAudioDevice := none
  esdPort := esdDefaultPort
  hostname := none
  defaultFormat := esdBits16 ||| esdStereo
  defaultRate := esdDefaultRate
  esdAutostandbySecs := -1
  esdBeeps := true
  esdUseTcpip := false
  esdPublic := false
  esdIsOwned := false
  esdIsLocked := true
  esdTerminate := false
  esdSpawnpid := 0
  esdSpawnfd := -1
  esdTrustval := -1

/-- What an option sets. -/
inductive Choice
  | device (name : List Octet)
  | port (n : ℤ)
  | bind (name : List Octet)
  | bits8
  | rate (n : ℤ)
  | autostandby (secs : ℤ)
  | beeps (b : Bool)
  | tcpip (b : Bool)
  | forPublic
  | promiscuous
  | terminate (b : Bool)
  | spawnpid (n : ℤ)
  | spawnfd (n : ℤ)
  | trust
  deriving DecidableEq

def Choice.apply : Choice → Settings → Settings
  | device name, m => { m with esdAudioDevice := some name }
  | port n, m => { m with esdPort := n }
  | bind name, m => { m with hostname := some name }
  | bits8, m => { m with defaultFormat := m.defaultFormat &&& ~~~esdMaskBits ||| esdBits8 }
  | rate n, m => { m with defaultRate := n }
  | autostandby secs, m => { m with esdAutostandbySecs := secs }
  | beeps b, m => { m with esdBeeps := b }
  | tcpip b, m => { m with esdUseTcpip := b }
  | forPublic, m => { m with esdPublic := true }
  | promiscuous, m => { m with esdIsOwned := true, esdIsLocked := false }
  | terminate b, m => { m with esdTerminate := b }
  | spawnpid n, m => { m with esdSpawnpid := n }
  | spawnfd n, m => { m with esdSpawnfd := n }
  | trust, m => { m with esdTrustval := 0 }

/-- An option ends the program, or sets something, by itself or with the word behind it. -/
inductive OptionKind
  | exits
  | flag (choice : Choice)
  | argument (choice : List Octet → Option Choice)
  | unknown

def orDefault (n default : ℤ) : ℤ := if n = 0 then default else n

/-- The argument of `-as`. -/
def autostandbyArg (arg : List Octet) : ℤ :=
  let (n, endptr) := strtol arg 10
  let secs := int32 n
  if secs = 0 ∧ endptr = [] then esdDefaultAutostandbySecs else secs

/-- `sscanf ( arg, "%i", .. )`, which leaves the variable alone where there is no number. -/
def scanInt (arg : List Octet) : Option ℤ :=
  let (n, endptr) := strtol arg 0
  if endptr = arg then none else some (int32 n)

/-- An option that is not known is reported, and passed over. -/
def optionKind (opt : List Octet) : OptionKind :=
  if opt = ascii "-d" then .argument fun arg => some (.device arg)
  else if opt = ascii "-port" then .argument fun arg => some (.port (orDefault (atoi arg) esdDefaultPort))
  else if opt = ascii "-bind" then .argument fun arg => some (.bind arg)
  else if opt = ascii "-b" then .flag .bits8
  else if opt = ascii "-r" then .argument fun arg => some (.rate (orDefault (atoi arg) esdDefaultRate))
  else if opt = ascii "-as" then .argument fun arg => some (.autostandby (autostandbyArg arg))
  else if opt = ascii "-nobeeps" then .flag (.beeps false)
  else if opt = ascii "-beeps" then .flag (.beeps true)
  else if opt = ascii "-unix" then .flag (.tcpip false)
  else if opt = ascii "-tcp" then .flag (.tcpip true)
  else if opt = ascii "-public" then .flag .forPublic
  else if opt = ascii "-promiscuous" then .flag .promiscuous
  else if opt = ascii "-terminate" then .flag (.terminate true)
  else if opt = ascii "-noterminate" then .flag (.terminate false)
  else if opt = ascii "-spawnpid" then .argument fun arg => some (.spawnpid (atoi arg))
  else if opt = ascii "-spawnfd" then .argument fun arg => (scanInt arg).map .spawnfd
  else if opt = ascii "-trust" then .flag .trust
  else if opt = ascii "-v" ∨ opt = ascii "--version" then .exits
  else if opt = ascii "-h" ∨ opt = ascii "--help" then .exits
  else .unknown

/-- The loop over the options; `none` where it ends the program. -/
def parseOpts : List (List Octet) → Settings → Option Settings
  | [], m => some m
  | opt :: rest, m =>
    match optionKind opt with
    | .exits => none
    | .unknown => parseOpts rest m
    | .flag choice => parseOpts rest (choice.apply m)
    | .argument choice =>
      match rest with
      | [] => some m
      | arg :: rest => parseOpts rest ((choice arg).elim m fun choice => choice.apply m)

/-- The words of the options in the configuration, as many as there is room for. -/
def optWords : ℕ → List Octet → List (List Octet)
  | 0, _ => []
  | n + 1, text =>
    match strtok space text with
    | none => []
    | some (tok, text) => tok :: optWords n text

/-- A program has started the daemon, and may do so. -/
def Spawning (cfg : EsdConfig) (args : List (List Octet)) : Prop :=
  cfg.noSpawn = 0 ∧ ascii "-spawnfd" ∈ args.dropLast

instance (cfg : EsdConfig) (args : List (List Octet)) : Decidable (Spawning cfg args) :=
  inferInstanceAs (Decidable (_ ∧ _))

def confOpts (cfg : EsdConfig) (args : List (List Octet)) : List (List Octet) :=
  optWords maxOpts (if Spawning cfg args then cfg.spawnOptions else cfg.defaultOptions)

/-- `opts`: the options of the configuration before those of the command line. -/
def mainOpts (cfg : EsdConfig) (args : List (List Octet)) : List (List Octet) :=
  (confOpts cfg args ++ args).take maxOpts

/-! ## The device -/

/-- What `esd_audio_open` answers: a block size, that there is no device (-2), or -1. -/
inductive AudioAnswer
  | opened (blksize : ℤ)
  | missing
  | failed

/-- The formats and rates that are tried after those asked for. -/
def fallbacks : List (Word × ℤ) :=
  [(esdBits8 ||| esdStereo, 44100), (esdBits16 ||| esdStereo, 48000), (esdBits8 ||| esdStereo, 22050),
    (esdBits16, 44100), (esdBits8, 22050), (esdBits8 ||| esdStereo, 11025), (esdBits8, 11025),
    (esdBits8, 8192), (esdBits8, 8000)]

/-- The first that the device takes, from the attempt with the given number on. -/
def openAudio (answer : ℕ → AudioAnswer) : ℕ → List (Word × ℤ) → Option ((Word × ℤ) × ℤ)
  | _, [] => none
  | k, sound :: rest =>
    match answer k with
    | .opened blksize => some (sound, blksize)
    | .missing | .failed => openAudio answer (k + 1) rest

/-! ## All of it -/

/-- The daemon at the entry of its loop. -/
structure Started where
  settings : Settings
  esdAudioFormat : Word
  esdAudioRate : ℤ
  blksize : ℤ

inductive MainResult
  | exits (status : ℤ)
  | serves (d : Started)

/-- Without a socket to listen on, or without a device, the daemon does not start. -/
def main (env : ConfigEnv) (args : List (List Octet)) (listens : Bool) (answer : ℕ → AudioAnswer) :
    MainResult :=
  match parseOpts (mainOpts (esdConfigRead env) args) .init with
  | none => .exits 0
  | some m =>
    if listens = false then .exits 1
    else
      match answer 0 with
      | .missing => .exits 2
      | _ =>
        match openAudio answer 0 ((m.defaultFormat, m.defaultRate) :: fallbacks) with
        | none => .exits 1
        | some ((format, rate), blksize) => .serves ⟨m, format, rate, blksize⟩

namespace Started

def config (d : Started) (hrate : 0 < d.esdAudioRate) (hblksize : 0 < d.blksize) : Config where
  esdBufSizeOctets := d.blksize.toNat
  esdBufSizeSamples := d.blksize.toNat / esdSampleSize d.esdAudioFormat
  esdAudioRate := d.esdAudioRate.toNat
  nextId n := int32 (n + 1)
  bufSize_pos := by omega
  audioRate_pos := by omega

def loopConfig (d : Started) (hrate : 0 < d.esdAudioRate) (hblksize : 0 < d.blksize) : LoopConfig :=
  ⟨d.config hrate hblksize, d.settings.esdTerminate, d.settings.esdAutostandbySecs⟩

/-- The globals; `memory` stands for what is not in use yet, and for the peers. -/
def server (d : Started) (memory : Server) : Server :=
  { memory with
    esdIsOwned := d.settings.esdIsOwned
    esdIsLocked := d.settings.esdIsLocked
    esdOnStandby := false
    esdOnAutostandby := false
    esdForcedStandby := false
    esdAudioFormat := d.esdAudioFormat
    esdWriteSize := d.blksize
    audioFd := some d.esdAudioFormat
    esdClientsList := []
    esdPlayersList := []
    esdRecorderList := []
    esdMonitorList := []
    esdFilterList := []
    esdFirstFilterFunc := none
    esdSamplesList := []
    esdPlayingSamples := 0
    esdNextSampleId := 1
    outputBuffer := fun i => if i < d.blksize.toNat then 0 else memory.outputBuffer i
    events := []
    calls := [] }

end Started

/-! ## Options that override each other -/

/-- A setting by itself. Of the format only the width is an option. -/
inductive Field
  | device | port | host | width | channels | rate | autostandby | beeps | tcpip | forPublic | owned
  | locked | terminate | spawnpid | spawnfd | trust
  deriving DecidableEq

namespace Field

def Value : Field → Type
  | device | host => Option (List Octet)
  | width | channels => Word
  | beeps | tcpip | forPublic | owned | locked | terminate => Bool
  | port | rate | autostandby | spawnpid | spawnfd | trust => ℤ

def get : (i : Field) → Settings → i.Value
  | device, m => m.esdAudioDevice
  | port, m => m.esdPort
  | host, m => m.hostname
  | width, m => m.defaultFormat &&& esdMaskBits
  | channels, m => m.defaultFormat &&& ~~~esdMaskBits
  | rate, m => m.defaultRate
  | autostandby, m => m.esdAutostandbySecs
  | beeps, m => m.esdBeeps
  | tcpip, m => m.esdUseTcpip
  | forPublic, m => m.esdPublic
  | owned, m => m.esdIsOwned
  | locked, m => m.esdIsLocked
  | terminate, m => m.esdTerminate
  | spawnpid, m => m.esdSpawnpid
  | spawnfd, m => m.esdSpawnfd
  | trust, m => m.esdTrustval

/-- What a choice is about. -/
def setBy (i : Field) : Choice → Bool
  | .device _ => i = device
  | .port _ => i = port
  | .bind _ => i = host
  | .bits8 => i = width
  | .rate _ => i = rate
  | .autostandby _ => i = autostandby
  | .beeps _ => i = beeps
  | .tcpip _ => i = tcpip
  | .forPublic => i = forPublic
  | .promiscuous => i = owned || i = locked
  | .terminate _ => i = terminate
  | .spawnpid _ => i = spawnpid
  | .spawnfd _ => i = spawnfd
  | .trust => i = trust

end Field

/-- The choices that the options make, in their order. -/
def choices : List (List Octet) → List Choice
  | [] => []
  | opt :: rest =>
    match optionKind opt with
    | .exits => []
    | .unknown => choices rest
    | .flag choice => choice :: choices rest
    | .argument choice =>
      match rest with
      | [] => []
      | arg :: rest => (choice arg).toList ++ choices rest

/-- No option at the end is without the word it takes, and none ends the program. -/
def Complete : List (List Octet) → Prop
  | [] => True
  | opt :: rest =>
    match optionKind opt with
    | .exits => False
    | .unknown | .flag _ => Complete rest
    | .argument _ =>
      match rest with
      | [] => False
      | _ :: rest => Complete rest

section Options

variable {words before after : List (List Octet)} {m m' : Settings}

theorem parseOpts_eq (h : parseOpts words m = some m') :
    m' = (choices words).foldl (fun m choice => choice.apply m) m := by
  induction words, m using parseOpts.induct with
  | case1 m =>
    cases h
    rfl
  | case2 opt rest m hkind =>
    simp only [parseOpts, hkind] at h
    cases h
  | case3 opt rest m hkind ih =>
    simp only [parseOpts, hkind] at h
    simp only [choices, hkind]
    exact ih h
  | case4 opt rest m choice hkind ih =>
    simp only [parseOpts, hkind] at h
    simp only [choices, hkind]
    exact ih h
  | case5 opt m choice hkind =>
    simp only [parseOpts, hkind] at h
    simp only [choices, hkind]
    cases h
    rfl
  | case6 opt m choice hkind arg rest ih =>
    simp only [parseOpts, hkind] at h
    simp only [choices, hkind]
    rw [List.foldl_append, ih h]
    cases choice arg <;> rfl

theorem choices_append (h : Complete before) :
    choices (before ++ after) = choices before ++ choices after := by
  induction before using choices.induct with
  | case1 => rfl
  | case2 opt rest hkind =>
    unfold Complete at h
    simp only [hkind] at h
  | case3 opt rest hkind ih =>
    unfold Complete at h
    simp only [hkind] at h
    simp only [List.cons_append, choices, hkind]
    exact ih h
  | case4 opt rest choice hkind ih =>
    unfold Complete at h
    simp only [hkind] at h
    simp only [List.cons_append, choices, hkind, ih h]
  | case5 opt choice hkind =>
    unfold Complete at h
    simp only [hkind] at h
  | case6 opt choice hkind arg rest ih =>
    unfold Complete at h
    simp only [hkind] at h
    simp only [List.cons_append, choices, hkind, ih h, List.append_assoc]

theorem Choice.lawful : Lawful Choice.apply Field.get Field.setBy where
  overrides {i c} h s s' := by
    cases c with
    | promiscuous =>
      simp only [Field.setBy, Bool.or_eq_true, decide_eq_true_eq] at h
      rcases h with rfl | rfl <;> rfl
    | bits8 =>
      simp only [Field.setBy, decide_eq_true_eq] at h
      subst h
      have hnone : ∀ format : Word, (format &&& ~~~esdMaskBits ||| esdBits8) &&& esdMaskBits = esdBits8 := by
        intro format
        have hmask : ~~~esdMaskBits &&& esdMaskBits = 0#32 ∧ esdBits8 = 0#32 := by decide
        rw [hmask.2, BitVec.or_zero, BitVec.and_assoc, hmask.1, BitVec.and_zero]
      exact (hnone _).trans (hnone _).symm
    | _ =>
      simp only [Field.setBy, decide_eq_true_eq] at h
      subst h
      rfl
  passes {i c} h s := by
    cases c with
    | bits8 =>
      cases i with
      | width => cases h
      | channels =>
        have hmask : ~~~esdMaskBits &&& ~~~esdMaskBits = ~~~esdMaskBits ∧ esdBits8 = 0#32 := by decide
        change (s.defaultFormat &&& ~~~esdMaskBits ||| esdBits8) &&& ~~~esdMaskBits = _
        rw [hmask.2, BitVec.or_zero, BitVec.and_assoc, hmask.1]
        rfl
      | _ => rfl
    | _ => cases i <;> first | rfl | cases h

end Options

section Start

variable {env : ConfigEnv} {args : List (List Octet)} {listens : Bool} {answer : ℕ → AudioAnswer}
  {d : Started}

theorem openAudio_eq_some {sounds : List (Word × ℤ)} {k : ℕ} {r : (Word × ℤ) × ℤ} :
    openAudio answer k sounds = some r ↔
      ∃ j, sounds[j]? = some r.1 ∧ answer (k + j) = .opened r.2 ∧
        ∀ j' < j, ∀ blksize, answer (k + j') ≠ .opened blksize := by
  induction sounds generalizing k with
  | nil => simp [openAudio]
  | cons sound rest ih =>
    cases hanswer : answer k with
    | opened blksize =>
      simp only [openAudio, hanswer, Option.some.injEq]
      constructor
      · rintro rfl
        exact ⟨0, rfl, hanswer, fun j hj => absurd hj (Nat.not_lt_zero j)⟩
      · rintro ⟨j, hsound, hj, hbefore⟩
        obtain rfl : j = 0 := by
          by_contra hne
          exact hbefore 0 (Nat.pos_of_ne_zero hne) blksize hanswer
        rw [Nat.add_zero, hanswer] at hj
        cases hj
        cases hsound
        rfl
    | missing | failed =>
      simp only [openAudio, hanswer]
      rw [ih]
      constructor
      · rintro ⟨j, hsound, hj, hbefore⟩
        refine ⟨j + 1, hsound, ?_, fun j' hj' blksize => ?_⟩
        · rw [← hj]
          congr 1
          omega
        · cases j' with
          | zero => simp [hanswer]
          | succ j' =>
            have h := hbefore j' (by omega) blksize
            rwa [show k + (j' + 1) = k + 1 + j' by omega]
      · rintro ⟨j, hsound, hj, hbefore⟩
        cases j with
        | zero => simp [hanswer] at hj
        | succ j =>
          refine ⟨j, hsound, ?_, fun j' hj' blksize => ?_⟩
          · rw [← hj]
            congr 1
            omega
          · have h := hbefore (j' + 1) (by omega) blksize
            rwa [show k + (j' + 1) = k + 1 + j' by omega] at h

theorem main_eq_serves : main env args listens answer = .serves d ↔
    parseOpts (mainOpts (esdConfigRead env) args) .init = some d.settings ∧ listens = true ∧
      answer 0 ≠ .missing ∧
      openAudio answer 0 ((d.settings.defaultFormat, d.settings.defaultRate) :: fallbacks) =
        some ((d.esdAudioFormat, d.esdAudioRate), d.blksize) := by
  have hopens : ∀ m, (match openAudio answer 0 ((m.defaultFormat, m.defaultRate) :: fallbacks) with
      | none => MainResult.exits 1
      | some ((format, rate), blksize) => .serves ⟨m, format, rate, blksize⟩) = .serves d ↔
        m = d.settings ∧ openAudio answer 0 ((m.defaultFormat, m.defaultRate) :: fallbacks) =
          some ((d.esdAudioFormat, d.esdAudioRate), d.blksize) := by
    intro m
    split
    · rename_i hnone
      simp [hnone]
    · rename_i format rate blksize hsome
      rw [hsome]
      obtain ⟨settings, format', rate', blksize'⟩ := d
      simp only [MainResult.serves.injEq, Started.mk.injEq, Option.some.injEq, Prod.mk.injEq]
      tauto
  simp only [main]
  cases parseOpts (mainOpts (esdConfigRead env) args) .init with
  | none => simp
  | some m =>
    cases listens with
    | false => simp
    | true =>
      cases hfirst : answer 0 with
      | missing => simp
      | opened blksize | failed =>
        simp only [Bool.true_eq_false, if_false, hopens, Option.some.injEq, ne_eq, reduceCtorEq,
          not_false_eq_true, true_and]
        constructor
        · rintro ⟨rfl, hopen⟩
          exact ⟨rfl, hopen⟩
        · rintro ⟨rfl, hopen⟩
          exact ⟨rfl, hopen⟩

theorem settings_eq (h : main env args listens answer = .serves d) :
    d.settings = (choices (mainOpts (esdConfigRead env) args)).foldl (fun m choice => choice.apply m)
      .init :=
  parseOpts_eq (main_eq_serves.mp h).1

/-- What the command line says comes after what the configuration says: each setting is that of the
last option for it on the command line, without one there that of the last in the configuration,
and else the default. -/
theorem options_override (h : main env args listens answer = .serves d)
    (hroom : (confOpts (esdConfigRead env) args ++ args).length ≤ maxOpts)
    (hcomplete : Complete (confOpts (esdConfigRead env) args)) (i : Field) :
    i.get d.settings =
      ((lastFor Field.setBy i (choices args)).or
        (lastFor Field.setBy i (choices (confOpts (esdConfigRead env) args)))).elim (i.get .init)
          fun choice => i.get (choice.apply .init) := by
  have hall : mainOpts (esdConfigRead env) args = confOpts (esdConfigRead env) args ++ args :=
    List.take_of_length_le hroom
  rw [settings_eq h, hall, choices_append hcomplete, Choice.lawful.get_foldl .init, lastFor_append]

/-! ### The daemon that starts -/

theorem get_settings (h : main env args listens answer = .serves d) (i : Field) :
    i.get d.settings = (lastFor Field.setBy i (choices (mainOpts (esdConfigRead env) args))).elim
      (i.get .init) fun choice => i.get (choice.apply .init) := by
  rw [settings_eq h, Choice.lawful.get_foldl .init]

theorem setBy_of_lastFor {i : Field} {cs : List Choice} {choice : Choice}
    (h : lastFor Field.setBy i cs = some choice) : choice ∈ cs ∧ i.setBy choice = true :=
  ⟨List.mem_reverse.mp (List.mem_of_find?_eq_some h), List.find?_some h⟩

theorem defaultFormat_cases (h : main env args listens answer = .serves d) :
    d.settings.defaultFormat = esdBits16 ||| esdStereo ∨
      d.settings.defaultFormat = esdBits8 ||| esdStereo := by
  have hchannels : d.settings.defaultFormat &&& ~~~esdMaskBits = esdStereo := by
    have hget := get_settings h .channels
    cases hlast : lastFor Field.setBy .channels (choices (mainOpts (esdConfigRead env) args)) with
    | none =>
      rw [hlast] at hget
      exact hget.trans (by decide : (esdBits16 ||| esdStereo) &&& ~~~esdMaskBits = esdStereo)
    | some choice =>
      obtain ⟨-, hset⟩ := setBy_of_lastFor hlast
      cases choice <;> cases hset
  have hwidth : d.settings.defaultFormat &&& esdMaskBits = esdBits16 ∨
      d.settings.defaultFormat &&& esdMaskBits = esdBits8 := by
    have hget := get_settings h .width
    cases hlast : lastFor Field.setBy .width (choices (mainOpts (esdConfigRead env) args)) with
    | none =>
      rw [hlast] at hget
      exact .inl (hget.trans (by decide : (esdBits16 ||| esdStereo) &&& esdMaskBits = esdBits16))
    | some choice =>
      obtain ⟨-, hset⟩ := setBy_of_lastFor hlast
      rw [hlast] at hget
      cases choice with
      | bits8 =>
        exact .inr (hget.trans (by decide :
          ((esdBits16 ||| esdStereo) &&& ~~~esdMaskBits ||| esdBits8) &&& esdMaskBits = esdBits8))
      | _ => cases hset
  have hparts : d.settings.defaultFormat =
      d.settings.defaultFormat &&& esdMaskBits ||| d.settings.defaultFormat &&& ~~~esdMaskBits := by
    have hmask : esdMaskBits ||| ~~~esdMaskBits = BitVec.allOnes 32 := by decide
    rw [← BitVec.and_or_distrib_left, hmask, BitVec.and_allOnes]
  rw [hparts, hchannels]
  exact hwidth.imp (fun hw => by rw [hw]) fun hw => by rw [hw]

theorem owned_iff (h : main env args listens answer = .serves d) :
    (d.settings.esdIsOwned = true ↔ .promiscuous ∈ choices (mainOpts (esdConfigRead env) args)) ∧
      d.settings.esdIsLocked = !d.settings.esdIsOwned := by
  have howned := get_settings h .owned
  have hlocked := get_settings h .locked
  have hsame : lastFor Field.setBy .locked = lastFor Field.setBy .owned := by
    funext cs
    have hset : Field.locked.setBy = Field.owned.setBy := by
      funext choice
      cases choice <;> rfl
    simp only [lastFor, hset]
  rw [hsame] at hlocked
  change d.settings.esdIsOwned = _ at howned
  change d.settings.esdIsLocked = _ at hlocked
  rw [howned, hlocked]
  cases hlast : lastFor Field.setBy .owned (choices (mainOpts (esdConfigRead env) args)) with
  | none =>
    refine ⟨⟨fun howns => Bool.noConfusion howns, fun hmem => ?_⟩, rfl⟩
    have hnone := List.find?_eq_none.mp hlast _ (List.mem_reverse.mpr hmem)
    exact absurd rfl hnone
  | some choice =>
    obtain ⟨hmem, hset⟩ := setBy_of_lastFor hlast
    cases choice with
    | promiscuous => exact ⟨⟨fun _ => hmem, fun _ => rfl⟩, rfl⟩
    | _ => cases hset

theorem Started.server_initial {memory : Server} (howned : d.settings.esdIsOwned = false)
    (hlocked : d.settings.esdIsLocked = true) : (d.server memory).Initial := by
  constructor <;> first | exact howned | exact hlocked | rfl

theorem Started.server_wellFormed (memory : Server) : (d.server memory).objects.WellFormed :=
  (Started.server_initial (d := { d with
    settings := { d.settings with esdIsOwned := false, esdIsLocked := true } }) rfl rfl).wellFormed

/-- The daemon that `main` starts is one as the loop expects it: nobody owns it, or with
`-promiscuous` everybody; the device has the first format and rate that it took; and for a block of
whole frames the mixer has its ints. -/
theorem main_starts (memory : Server) (h : main env args listens answer = .serves d) :
    (d.server memory).objects.WellFormed ∧
    (if .promiscuous ∈ choices (mainOpts (esdConfigRead env) args) then
      (d.server memory).esdIsOwned = true ∧ (d.server memory).esdIsLocked = false
    else (d.server memory).Initial) ∧
    d.esdAudioFormat ∈ mainFormats ∧
    (∃ k, ((d.settings.defaultFormat, d.settings.defaultRate) :: fallbacks)[k]? =
        some (d.esdAudioFormat, d.esdAudioRate) ∧ answer k = .opened d.blksize ∧
      answer 0 ≠ .missing ∧ ∀ j < k, ∀ blksize, answer j ≠ .opened blksize) ∧
    ∀ hrate hblksize, 4 ∣ (d.config hrate hblksize).esdBufSizeOctets →
      (d.config hrate hblksize).esdBufSizeOctets ≤ 2 * (d.config hrate hblksize).esdBufSizeSamples := by
  obtain ⟨hiff, hlocked⟩ := owned_iff h
  obtain ⟨-, -, hmissing, hopen⟩ := main_eq_serves.mp h
  obtain ⟨k, hsound, hanswer, hbefore⟩ := openAudio_eq_some.mp hopen
  rw [Nat.zero_add] at hanswer
  refine ⟨d.server_wellFormed memory, ?_, ?_, ⟨k, hsound, hanswer, hmissing, fun j hj blksize => ?_⟩, ?_⟩
  · split_ifs with hpromiscuous
    · have howned := hiff.mpr hpromiscuous
      exact ⟨howned, hlocked.trans (by rw [howned]; rfl)⟩
    · have howned : d.settings.esdIsOwned = false :=
        Bool.eq_false_of_not_eq_true fun ho => hpromiscuous (hiff.mp ho)
      exact d.server_initial howned (hlocked.trans (by rw [howned]; rfl))
  · have hmem := List.mem_of_getElem? hsound
    rcases List.mem_cons.mp hmem with hfirst | hfallback
    · have hformat : d.esdAudioFormat = d.settings.defaultFormat := congrArg Prod.fst hfirst
      rw [hformat]
      rcases defaultFormat_cases h with hcase | hcase <;> rw [hcase] <;> decide
    · have hall : ∀ sound ∈ fallbacks, sound.1 ∈ mainFormats := by decide
      exact hall _ hfallback
  · have hj' := hbefore j hj blksize
    rwa [Nat.zero_add] at hj'
  · intro hrate hblksize hwhole
    change 4 ∣ d.blksize.toNat at hwhole
    change d.blksize.toNat ≤ 2 * (d.blksize.toNat / esdSampleSize d.esdAudioFormat)
    simp only [esdSampleSize]
    split_ifs <;> omega

end Start

/-- Options in the home directory, and a program that starts the daemon. -/
def spawningEnv : ConfigEnv where
  system := some (ascii "default_options=-nobeeps\n")
  home := some (ascii "spawn_options=-terminate -as 2 -port 5001\n")
  noSpawn := false
  spawnOptions := none
  defaultOptions := none

def spawningArgs : List (List Octet) :=
  [ascii "-b", ascii "-port", ascii "5002", ascii "-spawnfd", ascii "4"]

/-- A device for 16 bits only. -/
def wideDevice : ℕ → AudioAnswer
  | 2 => .opened 4096
  | _ => .failed

def spawned : Started where
  settings :=
    { Settings.init with
      esdPort := 5002
      defaultFormat := esdBits8 ||| esdStereo
      esdAutostandbySecs := 2
      esdTerminate := true
      esdSpawnfd := 4 }
  esdAudioFormat := esdBits16 ||| esdStereo
  esdAudioRate := 48000
  blksize := 4096

theorem spawned_main : main spawningEnv spawningArgs true wideDevice = .serves spawned :=
  main_eq_serves.mpr ⟨by decide +kernel, rfl, by simp [wideDevice], by decide +kernel⟩

theorem options_override_spawned : spawned.settings.esdPort = 5002 ∧
    spawned.settings.esdAutostandbySecs = 2 := by
  have hroom : (confOpts (esdConfigRead spawningEnv) spawningArgs ++ spawningArgs).length ≤ maxOpts := by
    decide +kernel
  have hconf : confOpts (esdConfigRead spawningEnv) spawningArgs =
      [ascii "-terminate", ascii "-as", ascii "2", ascii "-port", ascii "5001"] := by decide +kernel
  have hcomplete : Complete (confOpts (esdConfigRead spawningEnv) spawningArgs) := by
    rw [hconf]
    trivial
  have hlast : (lastFor Field.setBy .port (choices spawningArgs)).or
      (lastFor Field.setBy .port (choices (confOpts (esdConfigRead spawningEnv) spawningArgs))) =
        some (.port 5002) := by decide +kernel
  have hlast' : (lastFor Field.setBy .autostandby (choices spawningArgs)).or
      (lastFor Field.setBy .autostandby
        (choices (confOpts (esdConfigRead spawningEnv) spawningArgs))) = some (.autostandby 2) := by
    decide +kernel
  have hport := options_override spawned_main hroom hcomplete .port
  have hsecs := options_override spawned_main hroom hcomplete .autostandby
  rw [hlast] at hport
  rw [hlast'] at hsecs
  exact ⟨hport, hsecs⟩

theorem main_starts_spawned : (spawned.server .blank).Initial ∧
    ∃ k, ((spawned.settings.defaultFormat, spawned.settings.defaultRate) :: fallbacks)[k]? =
      some (esdBits16 ||| esdStereo, 48000) ∧ wideDevice k = .opened 4096 := by
  obtain ⟨-, hinitial, -, ⟨k, hsound, hanswer, -⟩, -⟩ := main_starts .blank spawned_main
  have hnot : Choice.promiscuous ∉ choices (mainOpts (esdConfigRead spawningEnv) spawningArgs) := by
    decide +kernel
  rw [if_neg hnot] at hinitial
  exact ⟨hinitial, k, hsound, hanswer⟩

end Esound
