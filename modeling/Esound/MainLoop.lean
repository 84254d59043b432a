import Esound.Library.Simulation
import Esound.Library.Walk
import Esound.Standby
import Esound.Streams

/-!
# The main loop

`esd_comm_loop` and `get_new_clients` as they stand in `clients.c`: one step leads from one
place of the loop to the next, and carries what the loop hears there from the kernel, the
drivers and the clock. Signals come between two steps. The actions of the daemon are what such
a step does to the daemon.
-/

open Library.Buffer Library.Transition Library.Walk

namespace Esound

/-- What the loop is started with. -/
structure LoopConfig where
  cfg : Config
  esdTerminate : Bool
  esdAutostandbySecs : ℤ

/-- Where the loop stands. `select` has its timeout, in microseconds, and `poll` the client whose
turn it is. -/
inductive Place
  | top
  | select (timeout : Option ℤ)
  | accept
  | poll (client : Ptr)
  | refresh
  | mix
  | wake
  | filter
  | write
  | monitor
  | record
  | exited (status : ℕ)
  deriving DecidableEq

/-- The sound that went to the device and came from it, with the time the loop noted. -/
inductive DeviceUse
  | wrote (time : ℤ) (octets : List Octet)
  | read (time : ℤ) (octets : List Octet)
  deriving DecidableEq

def DeviceUse.time : DeviceUse → ℤ
  | wrote t _ | read t _ => t

/-- `clock` is the last answer of `time`, and `uses` is what the device was used for. -/
structure CommLoop where
  server : Server
  place : Place
  first : Bool
  isPausedHere : Bool
  length : ℤ
  esdPendingDriverReconnect : Bool
  esdLastActivity : ℤ
  clock : ℤ
  uses : List DeviceUse

inductive SelectAnswer
  | ready (listening : Bool)
  | timedOut
  | interrupted
  | again
  | failed
  deriving DecidableEq

/-- What comes of one `accept` of `get_new_clients`: no connection, one that the wrappers refuse,
one that `malloc` or `ioctl` has no room for, or a client. -/
inductive AcceptAnswer
  | none
  | refused
  | noRoom
  | client (c : Ptr) (fd : ℤ) (socket : Socket)

inductive LoopInput
  | top (reopen : Option ℤ) (now : ℤ)
  | select (answer : SelectAnswer) (now later : ℤ)
  | accept (answer : AcceptAnswer)
  | poll (env : PollEnv)
  | refresh
  | mix (canRead : Ptr → Bool)
  | wake (reopen : Option ℤ)
  | filter (canRead : Ptr → Bool)
  | write (now : ℤ)
  | monitor (canWrite : Ptr → Bool)
  /-- `block` is what reading the device gave, nothing if that failed -/
  | record (ready : Ptr → RecorderPoll) (reopen : Option ℤ) (block : Option (List Octet)) (now : ℤ)
  | usr1
  | term
  | hup (scrambled : List Octet)

namespace CommLoop

/-- `esd_comm_loop` is entered. -/
def start (s : Server) (now : ℤ) : CommLoop where
  server := s
  place := .top
  first := true
  isPausedHere := false
  length := 0
  esdPendingDriverReconnect := false
  esdLastActivity := 0
  clock := now
  uses := []

/-- `clean_exit`, as far as the daemon can tell. -/
def cleanExit (l : CommLoop) : CommLoop :=
  { l with
    place := .exited 0
    server := (l.server.esdClientsList.map fun c => (l.server.client c).fd).foldl
      (fun s fd => s.emit (.closed fd)) (esdAudioClose l.server) }

/-! ## Before `select` -/

def reconnect (reopen : Option ℤ) (l : CommLoop) : CommLoop :=
  if l.esdPendingDriverReconnect then
    { l with
      esdPendingDriverReconnect := false
      server := (esdAudioOpen (esdAudioClose l.server) reopen).1 }
  else l

/-- The condition under which the loop ends by itself. -/
def Done (L : LoopConfig) (l : CommLoop) : Prop :=
  l.server.esdClientsList = [] ∧ l.first = false ∧ L.esdTerminate = true ∧
    (L.esdAutostandbySecs < 0 ∨ l.server.esdOnAutostandby = true)

instance (L : LoopConfig) (l : CommLoop) : Decidable (l.Done L) :=
  inferInstanceAs (Decidable (_ ∧ _))

/-- There is something to record, or a sample to play. -/
def Busy (s : Server) : Prop := s.esdRecorderList ≠ [] ∨ s.esdPlayingSamples ≠ 0

instance (s : Server) : Decidable (Busy s) := inferInstanceAs (Decidable (_ ∨ _))

/-- The seconds until the daemon has been idle for long enough. -/
def untilBored (L : LoopConfig) (l : CommLoop) (now : ℤ) : ℤ :=
  let sec := l.esdLastActivity + L.esdAutostandbySecs + 1 - now
  if sec < 0 ∨ sec > L.esdAutostandbySecs + 1 then 0 else sec

def timeout (L : LoopConfig) (l : CommLoop) (now : ℤ) : Option ℤ :=
  if Busy l.server then some 0
  else if l.isPausedHere ∧ (L.esdAutostandbySecs < 0 ∨ l.server.esdOnStandby) then none
  else if l.isPausedHere ∧ L.esdAutostandbySecs ≥ 0 then some (1000000 * l.untilBored L now)
  else
    let samples := if l.server.esdAudioFormat &&& esdMaskChan = esdStereo then 2 else 1
    some ((samples * 1000 / L.cfg.esdAudioRate + 1) * 1000)

def beforeSelect (L : LoopConfig) (reopen : Option ℤ) (now : ℤ) (l : CommLoop) : CommLoop :=
  let l := l.reconnect reopen
  if l.Done L then l.cleanExit
  else { l with place := .select (l.timeout L now), clock := now }

/-! ## `select` -/

/-- The place of the loop over the clients whose next client is given. -/
def turnOf : Option Ptr → Place
  | none => .refresh
  | some c => .poll c

def firstTurn (l : CommLoop) : Place := turnOf l.server.esdClientsList.head?

/-- Nothing to do: the device is left alone, and the time is noted. -/
def pause (now : ℤ) (l : CommLoop) : CommLoop :=
  if l.isPausedHere = false ∧ ¬ Busy l.server then
    { l with esdLastActivity := now, isPausedHere := true }
  else l

def Bored (L : LoopConfig) (later : ℤ) (l : CommLoop) : Prop :=
  l.isPausedHere = true ∧ 0 ≤ L.esdAutostandbySecs ∧
    later > l.esdLastActivity + L.esdAutostandbySecs

instance (L : LoopConfig) (later : ℤ) (l : CommLoop) : Decidable (l.Bored L later) :=
  inferInstanceAs (Decidable (_ ∧ _))

def autostandby (L : LoopConfig) (later : ℤ) (l : CommLoop) : CommLoop :=
  if l.Bored L later then
    { l with server := { (esdServerStandby l.server).1 with esdOnAutostandby := true } }
  else l

/-- `select` returned 0. The read set is empty, so that nobody is let in. -/
def timedOut (L : LoopConfig) (now later : ℤ) (l : CommLoop) : CommLoop :=
  let l := (l.pause now).autostandby L later
  if l.server.esdRecorderList = [] ∧ l.isPausedHere = true then { l with place := .top }
  else
    { l with
      isPausedHere := false
      place := if l.server.esdPlayingSamples ≠ 0 then l.firstTurn else .record }

/-- A `select` without a timeout that a signal ends counts as ready, with its read set as it was;
any other interruption starts the loop over. -/
def afterSelect (L : LoopConfig) (timeout : Option ℤ) (answer : SelectAnswer) (now later : ℤ)
    (l : CommLoop) : CommLoop :=
  match answer with
  | .ready listening =>
    { l with
      isPausedHere := false
      place := if listening then .accept else l.firstTurn }
  | .timedOut => { l.timedOut L now later with clock := later }
  | .interrupted =>
    if timeout = none then { l with isPausedHere := false, place := .accept }
    else { l with place := .top }
  | .again => { l with place := .top }
  | .failed => { l with place := .exited 1 }

/-! ## Clients -/

/-- One round of `get_new_clients`. -/
def acceptRound (answer : AcceptAnswer) (l : CommLoop) : CommLoop :=
  match answer with
  | .none | .noRoom => { l with place := l.firstTurn }
  | .refused => l
  | .client c fd socket => { l with server := getNewClient l.server c fd socket }

/-- One round of `poll_client_requests`: the next client is looked up after the turn, and before
the client may be erased. -/
def pollRound (L : LoopConfig) (c : Ptr) (env : PollEnv) (l : CommLoop) : Option CommLoop :=
  (pollTurn L.cfg env l.server c).map fun r =>
    { l with
      server := if r.2 then r.1 else eraseClient r.1 c
      place := turnOf (after r.1.esdClientsList c) }

/-! ## Sound -/

def mixRound (L : LoopConfig) (canRead : Ptr → Bool) (l : CommLoop) : CommLoop :=
  let r := mixPlayers L.cfg canRead l.server
  { l with server := r.1, length := r.2, place := .wake }

def wakeRound (reopen : Option ℤ) (l : CommLoop) : CommLoop :=
  let l := { l with place := .filter }
  if l.server.esdOnAutostandby ∧ l.length ≠ 0 ∧ l.server.esdForcedStandby = false then
    { l with server := (esdServerResume l.server reopen).1 }
  else l

def filterRound (L : LoopConfig) (canRead : Ptr → Bool) (l : CommLoop) : CommLoop :=
  let l := { l with place := .write }
  if l.server.esdFilterList ≠ [] ∧ l.server.esdOnStandby = false then
    let r := filterWrite L.cfg canRead l.server l.length
    { l with server := r.1, length := r.2 }
  else l

/-- On standby the block is thrown away. -/
def writeRound (now : ℤ) (l : CommLoop) : CommLoop :=
  if l.length > 0 then
    let l := { l with place := .monitor }
    if l.server.esdOnStandby then l
    else
      { l with
        uses := l.uses ++ [.wrote now (load l.server.outputBuffer 0 l.length.toNat)]
        esdLastActivity := now
        clock := now }
  else { l with place := .record }

def monitorRound (L : LoopConfig) (canWrite : Ptr → Bool) (l : CommLoop) : CommLoop :=
  let l := { l with place := .record }
  if l.server.esdMonitorList ≠ [] ∧ l.server.esdOnStandby = false then
    { l with server := monitorWrite L.cfg canWrite l.server l.length }
  else l

/-- What `esd_audio_read` returns. -/
def readLength : Option (List Octet) → ℤ
  | none => -1
  | some octets => octets.length

def recordRound (L : LoopConfig) (ready : Ptr → RecorderPoll) (reopen : Option ℤ)
    (block : Option (List Octet)) (now : ℤ) (l : CommLoop) : CommLoop :=
  let l := { l with place := .top }
  if l.server.esdRecorderList ≠ [] ∧ l.server.esdOnStandby = false then
    if readLength block ≠ 0 then
      let octets := block.getD []
      let s := { l.server with outputBuffer := store l.server.outputBuffer 0 octets }
      let r := recorderWrite L.cfg ready reopen s (readLength block)
      { l with
        server := r.1
        length := r.2
        uses := l.uses ++ [.read now octets]
        esdLastActivity := now
        clock := now }
    else { l with length := 0 }
  else l

/-! ## Steps -/

/-- A step of the loop; `none` where the turn of a client does not end, and for what cannot be
heard at that place. `SIGHUP` is taken while the loop waits. -/
def advance (L : LoopConfig) (l : CommLoop) (i : LoopInput) : Option CommLoop :=
  match l.place, i with
  | .exited _, _ => none
  | _, .usr1 => some { l with esdPendingDriverReconnect := true }
  | _, .term => some l.cleanExit
  | .select _, .hup scrambled => some { l with server := resetDaemon l.server scrambled }
  | .top, .top reopen now => some (l.beforeSelect L reopen now)
  | .select timeout, .select answer now later => some (l.afterSelect L timeout answer now later)
  | .accept, .accept answer => some (l.acceptRound answer)
  | .poll c, .poll env => l.pollRound L c env
  | .refresh, .refresh =>
    some { l with first := false, server := refreshMixFuncs l.server, place := .mix }
  | .mix, .mix canRead => some (l.mixRound L canRead)
  | .wake, .wake reopen => some (l.wakeRound reopen)
  | .filter, .filter canRead => some (l.filterRound L canRead)
  | .write, .write now => some (l.writeRound now)
  | .monitor, .monitor canWrite => some (l.monitorRound L canWrite)
  | .record, .record ready reopen block now => some (l.recordRound L ready reopen block now)
  | _, _ => none

/-- What the kernel, the allocator and the device promise. -/
def Promised (L : LoopConfig) (l : CommLoop) : LoopInput → Prop
  | .select answer _ _ => l.place = .select none → answer ≠ .timedOut
  | .accept (.client c fd _) =>
    c ≠ 0 ∧ c ∉ l.server.esdClientsList ∧ 0 < fd ∧
      ∀ d ∈ l.server.esdClientsList, (l.server.client d).fd ≠ fd
  | .poll env => Action.Fresh l.server env.malloc
  | .record _ _ block _ => (block.getD []).length ≤ L.cfg.esdBufSizeOctets
  | .hup scrambled => scrambled.length = esdKeyLen
  | _ => True

instance (L : LoopConfig) (l : CommLoop) (i : LoopInput) : Decidable (l.Promised L i) :=
  match i with
  | .select .. => inferInstanceAs (Decidable (_ → _))
  | .accept (.client ..) => inferInstanceAs (Decidable (_ ∧ _))
  | .poll .. => inferInstanceAs (Decidable (Action.Fresh _ _))
  | .record .. => inferInstanceAs (Decidable (_ ≤ _))
  | .hup .. => inferInstanceAs (Decidable (_ = _))
  | .accept .none | .accept .refused | .accept .noRoom => .isTrue trivial
  | .top .. | .refresh | .mix .. | .wake .. | .filter .. | .write .. | .monitor .. => .isTrue trivial
  | .usr1 | .term => .isTrue trivial

/-- The inputs of the loop that come at its places. -/
inductive Advances (L : LoopConfig) (l : CommLoop) : LoopInput → CommLoop → Prop
  | top {reopen now} (place : l.place = .top) :
      Advances L l (.top reopen now) (l.beforeSelect L reopen now)
  | select {timeout answer now later} (place : l.place = .select timeout) :
      Advances L l (.select answer now later) (l.afterSelect L timeout answer now later)
  | accept {answer} (place : l.place = .accept) : Advances L l (.accept answer) (l.acceptRound answer)
  | poll {c env l'} (place : l.place = .poll c) (taken : l.pollRound L c env = some l') :
      Advances L l (.poll env) l'
  | refresh (place : l.place = .refresh) :
      Advances L l .refresh
        { l with first := false, server := refreshMixFuncs l.server, place := .mix }
  | mix {canRead} (place : l.place = .mix) : Advances L l (.mix canRead) (l.mixRound L canRead)
  | wake {reopen} (place : l.place = .wake) : Advances L l (.wake reopen) (l.wakeRound reopen)
  | filter {canRead} (place : l.place = .filter) :
      Advances L l (.filter canRead) (l.filterRound L canRead)
  | write {now} (place : l.place = .write) : Advances L l (.write now) (l.writeRound now)
  | monitor {canWrite} (place : l.place = .monitor) :
      Advances L l (.monitor canWrite) (l.monitorRound L canWrite)
  | record {ready reopen block now} (place : l.place = .record) :
      Advances L l (.record ready reopen block now) (l.recordRound L ready reopen block now)
  | usr1 (running : ∀ status, l.place ≠ .exited status) :
      Advances L l .usr1 { l with esdPendingDriverReconnect := true }
  | term (running : ∀ status, l.place ≠ .exited status) : Advances L l .term l.cleanExit
  | hup {timeout scrambled} (place : l.place = .select timeout) :
      Advances L l (.hup scrambled) { l with server := resetDaemon l.server scrambled }

/-- What a step of the loop is for the daemon. -/
def moves (L : LoopConfig) (l : CommLoop) (i : LoopInput) : List Action :=
  match l.place, i with
  | .top, .top reopen _ => if l.esdPendingDriverReconnect then [.reconnect reopen] else []
  | .select _, .select .timedOut now later =>
    if (l.pause now).Bored L later then [.autostandby] else []
  | .select _, .hup scrambled => [.reset scrambled]
  | .accept, .accept (.client c fd socket) => [.accept c fd socket]
  | .poll c, .poll env => [.poll c env]
  | .refresh, .refresh => [.refresh]
  | .mix, .mix canRead => [.mix canRead]
  | .wake, .wake reopen =>
    if l.server.esdOnAutostandby ∧ l.length ≠ 0 ∧ l.server.esdForcedStandby = false then
      [.wake reopen]
    else []
  | .filter, .filter canRead =>
    if l.server.esdFilterList ≠ [] ∧ l.server.esdOnStandby = false then
      [.filter canRead l.length]
    else []
  | .monitor, .monitor canWrite =>
    if l.server.esdMonitorList ≠ [] ∧ l.server.esdOnStandby = false then
      [.monitor canWrite l.length]
    else []
  | .record, .record ready reopen block _ =>
    if (l.server.esdRecorderList ≠ [] ∧ l.server.esdOnStandby = false) ∧ readLength block ≠ 0 then
      [.recorder ready reopen (block.getD []) (readLength block)]
    else []
  | _, _ => []

/-- The loop has not been left. -/
def Running (l : CommLoop) : Prop := ∀ status, l.place ≠ .exited status

section Steps

variable {L : LoopConfig} {l l' : CommLoop} {i : LoopInput}

theorem advance_cases (h : l.advance L i = some l') : Advances L l i l' := by
  have hrunning : ∀ status, l.place ≠ .exited status := by
    intro status hp
    simp only [advance, hp, reduceCtorEq] at h
  cases i with
  | usr1 =>
    cases hp : l.place <;> simp only [advance, hp, reduceCtorEq, Option.some.injEq] at h <;>
      rw [← hp] at h <;> exact h ▸ .usr1 hrunning
  | term =>
    cases hp : l.place <;> simp only [advance, hp, reduceCtorEq, Option.some.injEq] at h <;>
      exact h ▸ .term hrunning
  | poll env =>
    cases hp : l.place <;> simp only [advance, hp, reduceCtorEq] at h
    exact .poll hp h
  | top reopen now =>
    cases hp : l.place <;> simp only [advance, hp, reduceCtorEq, Option.some.injEq] at h
    exact h ▸ .top hp
  | select answer now later =>
    cases hp : l.place <;> simp only [advance, hp, reduceCtorEq, Option.some.injEq] at h
    exact h ▸ .select hp
  | accept answer =>
    cases hp : l.place <;> simp only [advance, hp, reduceCtorEq, Option.some.injEq] at h
    exact h ▸ .accept hp
  | refresh =>
    cases hp : l.place <;> simp only [advance, hp, reduceCtorEq, Option.some.injEq] at h
    exact h ▸ .refresh hp
  | mix canRead =>
    cases hp : l.place <;> simp only [advance, hp, reduceCtorEq, Option.some.injEq] at h
    exact h ▸ .mix hp
  | wake reopen =>
    cases hp : l.place <;> simp only [advance, hp, reduceCtorEq, Option.some.injEq] at h
    exact h ▸ .wake hp
  | filter canRead =>
    cases hp : l.place <;> simp only [advance, hp, reduceCtorEq, Option.some.injEq] at h
    exact h ▸ .filter hp
  | write now =>
    cases hp : l.place <;> simp only [advance, hp, reduceCtorEq, Option.some.injEq] at h
    exact h ▸ .write hp
  | monitor canWrite =>
    cases hp : l.place <;> simp only [advance, hp, reduceCtorEq, Option.some.injEq] at h
    exact h ▸ .monitor hp
  | record ready reopen block now =>
    cases hp : l.place <;> simp only [advance, hp, reduceCtorEq, Option.some.injEq] at h
    exact h ▸ .record hp
  | hup scrambled =>
    cases hp : l.place <;> simp only [advance, hp, reduceCtorEq, Option.some.injEq] at h
    rw [← hp] at h
    exact h ▸ .hup hp

/-! ## The loop does what the daemon may do -/

/-- What the guards of the actions ask for and the place of the loop tells. -/
structure InPlace (l : CommLoop) : Prop where
  wellFormed : l.server.objects.WellFormed
  listed : ∀ c, l.place = .poll c → c ∈ l.server.esdClientsList
  sounds : l.place = .monitor → 0 < l.length

theorem poll_of_turnOf {o : Option Ptr} {c : Ptr} (h : turnOf o = .poll c) : o = some c := by
  cases o with
  | none => cases h
  | some d =>
    cases h
    rfl

theorem InPlace.elsewhere (hw : l.server.objects.WellFormed) (hpoll : ∀ c, l.place ≠ .poll c)
    (hmonitor : l.place ≠ .monitor) : l.InPlace :=
  ⟨hw, fun c hc => absurd hc (hpoll c), fun hm => absurd hm hmonitor⟩

theorem listed_of_firstTurn {c : Ptr} (h : l.firstTurn = .poll c) : c ∈ l.server.esdClientsList :=
  List.mem_of_mem_head? (poll_of_turnOf h)

theorem firstTurn_ne_monitor : l.firstTurn ≠ .monitor := by
  unfold firstTurn
  cases l.server.esdClientsList.head? <;> exact fun h => by cases h

theorem InPlace.atFirstTurn (hw : l.server.objects.WellFormed) (hplace : l.place = l.firstTurn) :
    l.InPlace :=
  ⟨hw, fun _ hc => listed_of_firstTurn (hplace.symm.trans hc),
    fun hm => absurd (hplace.symm.trans hm) firstTurn_ne_monitor⟩

theorem run_if {cfg : Config} {s t : Server} {a : Action} {p : Prop} [Decidable p]
    (taken : p → step cfg s a = some t) (skipped : ¬ p → t = s) :
    Run (step cfg) (fun _ _ => True) s (if p then [a] else []) t := by
  split_ifs with hp
  · exact .cons trivial (taken hp) (.nil t)
  · rw [skipped hp]
    exact .nil s

theorem reconnect_run (reopen : Option ℤ) :
    Run (step L.cfg) (fun _ _ => True) l.server
      (if l.esdPendingDriverReconnect then [.reconnect reopen] else []) (l.reconnect reopen).server := by
  refine run_if (fun hp => ?_) (fun hp => ?_)
  · simp only [reconnect, if_pos hp]
    exact step_of_enabled trivial rfl
  · simp only [reconnect, if_neg hp]

theorem pause_server (now : ℤ) : (l.pause now).server = l.server := by
  simp only [pause]
  split_ifs <;> rfl

theorem autostandby_run (later : ℤ) :
    Run (step L.cfg) (fun _ _ => True) l.server (if l.Bored L later then [.autostandby] else [])
      (l.autostandby L later).server := by
  refine run_if (fun hp => ?_) (fun hp => ?_)
  · simp only [autostandby, if_pos hp]
    exact step_of_enabled trivial rfl
  · simp only [autostandby, if_neg hp]

theorem timedOut_server (now later : ℤ) :
    (l.timedOut L now later).server = ((l.pause now).autostandby L later).server := by
  simp only [timedOut]
  split_ifs <;> rfl

theorem pollRound_step {c : Ptr} {env : PollEnv} (hc : c ∈ l.server.esdClientsList)
    (fresh : Action.Fresh l.server env.malloc) (h : l.pollRound L c env = some l') :
    step L.cfg l.server (.poll c env) = some l'.server := by
  obtain ⟨r, hr, rfl⟩ := Option.map_eq_some_iff.mp h
  exact step_of_enabled ⟨hc, fresh⟩ (Option.map_eq_some_iff.mpr ⟨r, hr, rfl⟩)

theorem moves_run (h : Advances L l i l') (hl : l.InPlace) (hi : l.Promised L i) :
    ∃ s, Run (step L.cfg) (fun _ _ => True) l.server (l.moves L i) s ∧ (l'.Running → l'.server = s) := by
  cases h with
  | @top reopen now hp =>
    refine ⟨(l.reconnect reopen).server, ?_, fun hrunning => ?_⟩
    · simp only [moves, hp]
      exact reconnect_run reopen
    · simp only [beforeSelect] at hrunning ⊢
      split_ifs at hrunning ⊢
      · exact absurd rfl (hrunning 0)
      · rfl
  | term running =>
    refine ⟨l.server, ?_, fun hrunning => absurd rfl (hrunning 0)⟩
    cases hp : l.place <;> simp only [moves, hp] <;> exact .nil _
  | @select timeout answer now later hp =>
    refine ⟨_, ?_, fun _ => rfl⟩
    simp only [moves, hp]
    cases answer with
    | timedOut =>
      change Run _ _ _ _ (l.timedOut L now later).server
      rw [timedOut_server, ← pause_server now]
      exact autostandby_run later
    | interrupted =>
      simp only [afterSelect]
      split_ifs <;> exact .nil _
    | ready | again | failed => exact .nil _
  | @accept answer hp =>
    refine ⟨_, ?_, fun _ => rfl⟩
    simp only [moves, hp]
    cases answer with
    | client c fd socket => exact .cons trivial (step_of_enabled hi rfl) (.nil _)
    | none | refused | noRoom => exact .nil _
  | @poll c env l' hp hpoll =>
    refine ⟨_, ?_, fun _ => rfl⟩
    simp only [moves, hp]
    exact .cons trivial (pollRound_step (hl.listed c hp) hi hpoll) (.nil _)
  | refresh hp =>
    refine ⟨_, ?_, fun _ => rfl⟩
    simp only [moves, hp]
    exact .cons trivial (step_of_enabled trivial rfl) (.nil _)
  | mix hp =>
    refine ⟨_, ?_, fun _ => rfl⟩
    simp only [moves, hp]
    exact .cons trivial (step_of_enabled trivial rfl) (.nil _)
  | @wake reopen hp =>
    refine ⟨_, ?_, fun _ => rfl⟩
    simp only [moves, hp, wakeRound]
    refine run_if (fun hwake => ?_) (fun hwake => ?_)
    · rw [if_pos hwake]
      exact step_of_enabled ⟨hwake.1, hwake.2.2⟩ rfl
    · rw [if_neg hwake]
  | @filter canRead hp =>
    refine ⟨_, ?_, fun _ => rfl⟩
    simp only [moves, hp, filterRound]
    refine run_if (fun hfilter => ?_) (fun hfilter => ?_)
    · rw [if_pos hfilter]
      exact step_of_enabled hfilter rfl
    · rw [if_neg hfilter]
  | @write now hp =>
    refine ⟨_, ?_, fun _ => rfl⟩
    simp only [moves, hp, writeRound]
    split_ifs <;> exact .nil _
  | @monitor canWrite hp =>
    refine ⟨_, ?_, fun _ => rfl⟩
    simp only [moves, hp, monitorRound]
    refine run_if (fun hmonitor => ?_) (fun hmonitor => ?_)
    · rw [if_pos hmonitor]
      exact step_of_enabled ⟨hmonitor.1, hmonitor.2, hl.sounds hp⟩ rfl
    · rw [if_neg hmonitor]
  | @record ready reopen block now hp =>
    refine ⟨_, ?_, fun _ => rfl⟩
    simp only [moves, hp, recordRound]
    refine run_if (fun hrecord => ?_) (fun hrecord => ?_)
    · rw [if_pos hrecord.1, if_pos hrecord.2]
      exact step_of_enabled ⟨hrecord.1.1, hrecord.1.2, hrecord.2⟩ rfl
    · split_ifs with hopen hlength
      · exact absurd ⟨hopen, hlength⟩ hrecord
      · rfl
      · rfl
  | usr1 running =>
    refine ⟨_, ?_, fun _ => rfl⟩
    cases hp : l.place <;> simp only [moves, hp] <;> exact .nil _
  | @hup timeout scrambled hp =>
    refine ⟨_, ?_, fun _ => rfl⟩
    simp only [moves, hp]
    exact .cons trivial (step_of_enabled hi rfl) (.nil _)

theorem pollRound_listed {c : Ptr} {env : PollEnv} (hl : l.InPlace)
    (hc : c ∈ l.server.esdClientsList) (fresh : Action.Fresh l.server env.malloc)
    (h : l.pollRound L c env = some l') {d : Ptr} (hd : l'.place = .poll d) :
    d ∈ l'.server.esdClientsList := by
  obtain ⟨r, hr, rfl⟩ := Option.map_eq_some_iff.mp h
  have hturn := pollTurn_turn hl.wellFormed hc fresh.1 fresh.2 hr
  have hnodup : r.1.esdClientsList.Nodup := (hturn.effects.wellFormed hl.wellFormed).clients_nodup
  have hnext := poll_of_turnOf hd
  change d ∈ (if r.2 then r.1 else eraseClient r.1 c).esdClientsList
  split_ifs
  · exact mem_of_after hnext
  · have hclients : (eraseClient r.1 c).esdClientsList = r.1.esdClientsList.erase c :=
      congrArg Objects.clients (objects_eraseClient r.1 c)
    rw [hclients]
    exact (List.mem_erase_of_ne (after_ne hnodup hnext)).mpr (mem_of_after hnext)

theorem timedOut_place (now later : ℤ) :
    (l.timedOut L now later).place = .top ∨ (l.timedOut L now later).place = .record ∨
      (l.timedOut L now later).place = (l.timedOut L now later).firstTurn := by
  simp only [timedOut]
  split_ifs
  · exact .inl rfl
  · exact .inr (.inr rfl)
  · exact .inr (.inl rfl)

theorem InPlace.step (hl : l.InPlace) (hi : l.Promised L i) (h : Advances L l i l')
    (hrunning : l'.Running) : l'.InPlace := by
  obtain ⟨s, hrun, hserver⟩ := moves_run h hl hi
  have hw : l'.server.objects.WellFormed := by
    rw [hserver hrunning]
    exact Run.wellFormed hrun hl.wellFormed
  cases h with
  | @top reopen now hp =>
    have hplace : ∃ timeout, (l.beforeSelect L reopen now).place = .select timeout := by
      simp only [beforeSelect] at hrunning ⊢
      split_ifs at hrunning ⊢
      · exact absurd rfl (hrunning 0)
      · exact ⟨_, rfl⟩
    obtain ⟨timeout, hplace⟩ := hplace
    exact .elsewhere hw (by simp [hplace]) (by simp [hplace])
  | @select timeout answer now later hp =>
    cases answer with
    | ready listening =>
      cases listening with
      | true => exact .elsewhere hw nofun nofun
      | false => exact .atFirstTurn hw rfl
    | timedOut =>
      rcases timedOut_place (L := L) (l := l) now later with hplace | hplace | hplace
      · exact .elsewhere hw (fun c hc => by cases hplace.symm.trans hc)
          fun hm => by cases hplace.symm.trans hm
      · exact .elsewhere hw (fun c hc => by cases hplace.symm.trans hc)
          fun hm => by cases hplace.symm.trans hm
      · exact .atFirstTurn hw hplace
    | interrupted =>
      simp only [afterSelect] at hw ⊢
      split_ifs at hw ⊢ <;> exact .elsewhere hw nofun nofun
    | again => exact .elsewhere hw nofun nofun
    | failed => exact absurd rfl (hrunning 1)
  | @accept answer hp =>
    cases answer with
    | none | noRoom => exact .atFirstTurn hw rfl
    | refused | client =>
      exact .elsewhere hw (fun c hc => by cases hp.symm.trans hc) fun hm => by cases hp.symm.trans hm
  | @poll c env l' hp hpoll =>
    refine ⟨hw, fun d hd => pollRound_listed hl (hl.listed c hp) hi hpoll hd, fun hm => ?_⟩
    obtain ⟨r, -, rfl⟩ := Option.map_eq_some_iff.mp hpoll
    change turnOf (after r.1.esdClientsList c) = .monitor at hm
    cases hnext : after r.1.esdClientsList c <;> simp [hnext, turnOf] at hm
  | refresh | mix => exact .elsewhere hw nofun nofun
  | @wake reopen hp =>
    have hplace : (l.wakeRound reopen).place = .filter := by
      simp only [wakeRound]
      split_ifs <;> rfl
    exact .elsewhere hw (by simp [hplace]) (by simp [hplace])
  | @filter canRead hp =>
    have hplace : (l.filterRound L canRead).place = .write := by
      simp only [filterRound]
      split_ifs <;> rfl
    exact .elsewhere hw (by simp [hplace]) (by simp [hplace])
  | @write now hp =>
    simp only [writeRound] at hw ⊢
    split_ifs at hw ⊢ with hlength
    · exact ⟨hw, nofun, fun _ => hlength⟩
    · exact ⟨hw, nofun, fun _ => hlength⟩
    · exact .elsewhere hw nofun nofun
  | @monitor canWrite hp =>
    have hplace : (l.monitorRound L canWrite).place = .record := by
      simp only [monitorRound]
      split_ifs <;> rfl
    exact .elsewhere hw (by simp [hplace]) (by simp [hplace])
  | @record ready reopen block now hp =>
    have hplace : (l.recordRound L ready reopen block now).place = .top := by
      simp only [recordRound]
      split_ifs <;> rfl
    exact .elsewhere hw (by simp [hplace]) (by simp [hplace])
  | usr1 => exact ⟨hw, hl.listed, hl.sounds⟩
  | term => exact absurd rfl (hrunning 0)
  | @hup timeout scrambled hp =>
    exact .elsewhere hw (fun c hc => by cases hp.symm.trans hc) fun hm => by cases hp.symm.trans hm

theorem Advances.running (h : Advances L l i l') : l.Running := by
  intro status hexited
  cases h with
  | usr1 hrunning | term hrunning => exact hrunning status hexited
  | top hp | select hp | accept hp | refresh hp | mix hp | wake hp | filter hp | write hp
  | monitor hp | record hp | hup hp => cases hp.symm.trans hexited
  | poll hp => cases hp.symm.trans hexited

theorem simulates (L : LoopConfig) :
    Simulates (advance L) (Promised L) (step L.cfg) (fun _ _ => True)
      (fun l => l.Running → l.InPlace) (fun l s => l.Running → l.server = s) (moves L) where
  preserved l i l' hl hi h hrunning :=
    (hl (advance_cases h).running).step hi (advance_cases h) hrunning
  simulated l i l' s hl hs hi h := by
    have hsource := (advance_cases h).running
    cases hs hsource
    exact moves_run (advance_cases h) (hl hsource) hi

theorem hup_of_moves {scrambled : List Octet} (h : .reset scrambled ∈ l.moves L i) :
    i = .hup scrambled := by
  unfold moves at h
  split at h <;> (try split_ifs at h) <;>
    simp only [List.mem_singleton, List.not_mem_nil, reduceCtorEq, Action.reset.injEq] at h
  rw [h]

end Steps

end CommLoop

/-- Whatever the kernel, the drivers and the clock answer, and whenever signals come: the main
loop does nothing to the daemon but the actions of its steps, each of them where its guard holds,
and only `SIGHUP` resets it. -/
theorem commLoop_refines {L : LoopConfig} {s : Server} {now : ℤ} {is : List LoopInput}
    {l : CommLoop} (hs : s.objects.WellFormed)
    (h : Run (CommLoop.advance L) (CommLoop.Promised L) (.start s now) is l) (hrunning : l.Running) :
    ∃ as, Run.Moves (CommLoop.advance L) (CommLoop.moves L) (.start s now) is as ∧
      Runs L.cfg (fun _ a => ∀ scrambled, a = .reset scrambled → .hup scrambled ∈ is) s as l.server := by
  have hstart : (CommLoop.start s now).InPlace := .elsewhere hs nofun nofun
  obtain ⟨as, t, hmoves, hrun, ht⟩ :=
    h.simulate (CommLoop.simulates L) (fun _ => hstart) (fun _ => rfl)
  refine ⟨as, hmoves, ?_⟩
  rw [ht hrunning]
  refine hrun.restrict fun a ha scrambled hreset => ?_
  obtain ⟨u, i, hi, hu⟩ := hmoves.mem (hreset ▸ ha)
  exact CommLoop.hup_of_moves hu ▸ hi

/-- A daemon that ends after its last client, and leaves the device after two seconds. -/
def LoopConfig.spawned : LoopConfig := ⟨.smallBlocks, true, 2⟩

/-- The rest of a pass in which nothing is heard. -/
def quietRound (now : ℤ) : List LoopInput :=
  [.refresh, .mix fun _ => false, .wake none, .filter fun _ => false, .write now,
    .record (fun _ => ⟨0, false⟩) none none now]

/-- A client connects, and its key comes in the same pass. -/
def connectingPass (now : ℤ) : List LoopInput :=
  [.top none now, .select (.ready true) now now, .accept (.client 1 5 (.sending [handshake 7])),
    .accept .none, .poll (.allocating 0)] ++ quietRound now

theorem connectingPass_ends : (exec (CommLoop.advance .spawned) (CommLoop.Promised .spawned)
    (.start .blank 100) (connectingPass 100)).isSome := by
  decide +kernel

def afterConnecting : CommLoop :=
  (exec (CommLoop.advance .spawned) (CommLoop.Promised .spawned) (.start .blank 100)
    (connectingPass 100)).get connectingPass_ends

theorem afterConnecting_place : afterConnecting.place = .top := by
  decide +kernel

theorem commLoop_refines_connecting :
    afterConnecting.server.esdClientsList = [1] ∧ afterConnecting.server.esdIsOwned = true ∧
      ∃ as, Runs .smallBlocks
        (fun _ a => ∀ scrambled, a = .reset scrambled → .hup scrambled ∈ connectingPass 100)
        .blank as afterConnecting.server := by
  have hrunning : afterConnecting.Running := fun _ h => by cases afterConnecting_place.symm.trans h
  obtain ⟨as, -, has⟩ := commLoop_refines Server.blank_initial.wellFormed
    (Run.of_isSome connectingPass_ends) hrunning
  exact ⟨by decide +kernel, by decide +kernel, as, has⟩

end Esound
