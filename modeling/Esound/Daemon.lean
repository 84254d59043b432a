import Esound.Library.Transition
import Esound.Proto

/-!
# The daemon

The main loop of `clients.c` and the signal handler of `esd.c`, cut into the actions
between which nothing else runs. A pass of the loop takes the actions in a fixed
order, and which of them it takes depends on `select` and on the clock; here they
come in any order in which the guards of the loop let them. What an action needs
from outside (the kernel's answers, the addresses of the allocator) it carries.
-/

open Library.Buffer Library.Loop Library.Transition

namespace Esound

/-! ## The reset -/

def closeHead (s : Server) : Option Server :=
  match s.esdClientsList with
  | [] => none
  | c :: _ => some (eraseClient s c)

def freeHead (s : Server) : Option Server :=
  match s.esdSamplesList with
  | [] => none
  | q :: _ => some (eraseSample s (s.sample q).sampleId true)

def closeClients (s : Server) : Server := whileFuel closeHead s.esdClientsList.length s
def freeSamples (s : Server) : Server := whileFuel freeHead s.esdSamplesList.length s

/-- `scrambled` is what `rand` puts into the key. The library call on a descriptor with
the number of the sample goes to no client, as all are closed by then. -/
def resetDaemon (s : Server) (scrambled : List Octet) : Server :=
  let s := { s with esdIsOwned := false, esdIsLocked := true, esdOwnerKey := scrambled }
  { freeSamples (closeClients s) with esdNextSampleId := 1 }

/-! ## Actions -/

inductive Action
  /-- a connection: its address, its descriptor and the kernel's side of it -/
  | accept (c : Ptr) (fd : ℤ) (socket : Socket)
  | poll (c : Ptr) (env : PollEnv)
  | refresh
  | mix (canRead : Ptr → Bool)
  | wake (reopen : Option ℤ)
  | filter (canRead : Ptr → Bool) (size : ℤ)
  | monitor (canWrite : Ptr → Bool) (length : ℤ)
  /-- `block` is what the device delivered, `length` what reading it returned -/
  | recorder (ready : Ptr → RecorderPoll) (reopen : Option ℤ) (block : List Octet) (length : ℤ)
  | autostandby
  | reconnect (reopen : Option ℤ)
  | reset (scrambled : List Octet)

namespace Action

/-- An allocation returns `NULL` or an address that nothing live has. -/
def Fresh (s : Server) (p : Ptr) : Prop := p ∉ s.allPlayers ∧ p ∉ s.esdSamplesList

instance (s : Server) (p : Ptr) : Decidable (Fresh s p) := inferInstanceAs (Decidable (_ ∧ _))

/-- The guards of the main loop, and what `accept` and `malloc` promise. -/
def Enabled (s : Server) : Action → Prop
  | accept c fd _ =>
    c ≠ 0 ∧ c ∉ s.esdClientsList ∧ 0 < fd ∧ ∀ d ∈ s.esdClientsList, (s.client d).fd ≠ fd
  | poll c env => c ∈ s.esdClientsList ∧ Fresh s env.malloc
  | wake _ => s.esdOnAutostandby ∧ s.esdForcedStandby = false
  | filter _ _ => s.esdFilterList ≠ [] ∧ s.esdOnStandby = false
  | monitor _ length => s.esdMonitorList ≠ [] ∧ s.esdOnStandby = false ∧ 0 < length
  | recorder _ _ _ length => s.esdRecorderList ≠ [] ∧ s.esdOnStandby = false ∧ length ≠ 0
  | reset scrambled => scrambled.length = esdKeyLen
  | refresh | mix _ | autostandby | reconnect _ => True

instance (s : Server) (a : Action) : Decidable (Enabled s a) :=
  match a with
  | accept .. => inferInstanceAs (Decidable (_ ∧ _))
  | poll .. => inferInstanceAs (Decidable (_ ∧ _))
  | wake _ => inferInstanceAs (Decidable (_ ∧ _))
  | filter .. => inferInstanceAs (Decidable (_ ∧ _))
  | monitor .. => inferInstanceAs (Decidable (_ ∧ _))
  | recorder .. => inferInstanceAs (Decidable (_ ∧ _))
  | reset scrambled => inferInstanceAs (Decidable (scrambled.length = esdKeyLen))
  | refresh | mix _ | autostandby | reconnect _ => .isTrue trivial

/-- `none` where the daemon does not come back. -/
def apply (cfg : Config) (s : Server) : Action → Option Server
  | accept c fd socket => some (getNewClient s c fd socket)
  | poll c env => pollClient cfg env s c
  | refresh => some (refreshMixFuncs s)
  | mix canRead => some (mixPlayers cfg canRead s).1
  | wake reopen => some (esdServerResume s reopen).1
  | filter canRead size => some (filterWrite cfg canRead s size).1
  | monitor canWrite length => some (monitorWrite cfg canWrite s length)
  | recorder ready reopen block length =>
    some (recorderWrite cfg ready reopen { s with outputBuffer := store s.outputBuffer 0 block }
      length).1
  | autostandby => some { (esdServerStandby s).1 with esdOnAutostandby := true }
  | reconnect reopen => some (esdAudioOpen (esdAudioClose s) reopen).1
  | reset scrambled => some (resetDaemon s scrambled)

end Action

def step (cfg : Config) (s : Server) (a : Action) : Option Server :=
  if a.Enabled s then a.apply cfg s else none

theorem step_eq_some {cfg : Config} {s t : Server} {a : Action} (h : step cfg s a = some t) :
    a.Enabled s ∧ a.apply cfg s = some t := by
  unfold step at h
  split_ifs at h with hen
  exact ⟨hen, h⟩

theorem step_of_enabled {cfg : Config} {s t : Server} {a : Action} (hen : a.Enabled s)
    (h : a.apply cfg s = some t) : step cfg s a = some t := by
  simp only [step, hen, if_true, h]

/-- `main` before its loop, without `-promiscuous`. -/
structure Server.Initial (s : Server) : Prop where
  owned : s.esdIsOwned = false
  locked : s.esdIsLocked = true
  standby : s.esdOnStandby = false
  autostandby : s.esdOnAutostandby = false
  forced : s.esdForcedStandby = false
  clients : s.esdClientsList = []
  players : s.allPlayers = []
  samples : s.esdSamplesList = []
  playing : s.esdPlayingSamples = 0
  nextId : s.esdNextSampleId = 1
  events : s.events = []
  calls : s.calls = []

/-- The runs of the daemon in which every action meets `ok`. -/
abbrev Runs (cfg : Config) (ok : Server → Action → Prop) : Server → List Action → Server → Prop :=
  Run (step cfg) ok

def Action.IsReset : Action → Prop
  | reset _ => True
  | _ => False

/-- No `SIGHUP`. -/
def NoReset (_ : Server) (a : Action) : Prop := ¬ a.IsReset

instance (a : Action) : Decidable a.IsReset :=
  match a with
  | .reset _ => .isTrue trivial
  | .accept .. | .poll .. | .refresh | .mix _ | .wake _ | .filter .. | .monitor ..
  | .recorder .. | .autostandby | .reconnect _ => .isFalse id

instance (s : Server) (a : Action) : Decidable (NoReset s a) :=
  inferInstanceAs (Decidable (¬ _))

/-- A daemon that has served nobody yet; `client`, `player` and `sample` stand for the
contents of memory that is not in use. -/
def Server.blank : Server where
  esdIsOwned := false
  esdIsLocked := true
  esdOwnerKey := List.replicate esdKeyLen 0
  esdOnStandby := false
  esdOnAutostandby := false
  esdForcedStandby := false
  esdAudioFormat := esdBits16 ||| esdStereo
  esdWriteSize := 4096
  audioFd := some (esdBits16 ||| esdStereo)
  esdClientsList := []
  client := fun _ => ⟨.needsReqdata, 0, 0, false, fun _ => 0, 0⟩
  esdPlayersList := []
  esdRecorderList := []
  esdMonitorList := []
  esdFilterList := []
  player := fun _ => ⟨0, 0, 0, 0, 0, 0, 0, 0, 0, [], none, none⟩
  playerData := fun _ _ => 0
  esdFirstFilterFunc := none
  esdSamplesList := []
  sample := fun _ => ⟨0, 0, 0, 0, 0, 0, 0, 0, 0, false, []⟩
  sampleData := fun _ _ => 0
  esdPlayingSamples := 0
  esdNextSampleId := 1
  mixedBuffer := fun _ => 0
  outputBuffer := fun _ => 0
  sockets := fun _ => ⟨[], []⟩
  events := []
  calls := []

theorem Server.blank_initial : Server.blank.Initial := by
  constructor <;> rfl

/-! Parts of concrete runs: a device with blocks of 16 octets, a peer that sends its bytes
in the given pieces, and the 20 octets of a connection request. -/

def Config.smallBlocks : Config := ⟨16, 8, 44100, (· + 1), by decide, by decide⟩

def Socket.sending (pieces : List (List Octet)) : Socket := ⟨pieces.map .data, []⟩

def PollEnv.allocating (p : Ptr) : PollEnv := ⟨true, p, true, fun _ => none, (0, 0)⟩

def handshake (key : Octet) : List Octet :=
  List.replicate esdKeyLen key ++ Word.octets esdEndianKey

def streamParams (format rate : Word) : List Octet :=
  Word.octets format ++ Word.octets rate ++ nameArray []

end Esound
