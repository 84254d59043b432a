import Esound.MainLoop

/-!
# An idle daemon

When the loop leaves the device to others, how long it sleeps before that, and when it ends by
itself.
-/

open Library.Buffer Library.Transition

namespace Esound

namespace CommLoop

/-- The promises, and a clock that does not go back. -/
def Steady (L : LoopConfig) (l : CommLoop) (i : LoopInput) : Prop :=
  l.Promised L i ∧
    match i with
    | .top _ now | .write now | .record _ _ _ now => l.clock ≤ now
    | .select _ now later => l.clock ≤ now ∧ now ≤ later
    | _ => True

instance (L : LoopConfig) (l : CommLoop) (i : LoopInput) : Decidable (l.Steady L i) :=
  match i with
  | .top .. | .write .. | .record .. => inferInstanceAs (Decidable (_ ∧ _ ≤ _))
  | .select .. => inferInstanceAs (Decidable (_ ∧ _ ∧ _))
  | .accept .. | .poll .. | .refresh | .mix .. | .wake .. | .filter .. | .monitor .. | .usr1
  | .term | .hup .. => inferInstanceAs (Decidable (_ ∧ True))

/-- The loop is about to look what there is to do, or waits for it. -/
def Waiting (l : CommLoop) : Prop := l.place = .top ∨ ∃ timeout, l.place = .select timeout

/-- The device was not used after the time noted last, and where the loop has paused there was
nothing to do since. -/
structure Rested (l : CommLoop) : Prop where
  uses : ∀ u ∈ l.uses, u.time ≤ l.esdLastActivity
  past : l.esdLastActivity ≤ l.clock
  paused : l.isPausedHere = true → l.Waiting ∧ ¬ Busy l.server

section Steps

variable {L : LoopConfig} {l l' : CommLoop} {i : LoopInput}

theorem busy_resetDaemon (s : Server) (scrambled : List Octet) :
    Busy (resetDaemon s scrambled) ↔ Busy s := by
  have hobj := resetDaemon_objects s scrambled
  have hlist : (resetDaemon s scrambled).list .recorders = s.list .recorders :=
    congrFun (congrArg Objects.lists hobj) .recorders
  have hplaying : (resetDaemon s scrambled).esdPlayingSamples = s.esdPlayingSamples :=
    congrArg Objects.playing hobj
  have hrecorders : (resetDaemon s scrambled).esdRecorderList = s.esdRecorderList := hlist
  rw [Busy, Busy, hrecorders, hplaying]

theorem busy_reconnect (reopen : Option ℤ) : Busy (l.reconnect reopen).server ↔ Busy l.server := by
  simp only [reconnect]
  split_ifs
  · cases reopen <;> rfl
  · rfl

theorem busy_autostandby (later : ℤ) : Busy (l.autostandby L later).server ↔ Busy l.server := by
  simp only [autostandby, esdServerStandby]
  split_ifs <;> rfl

theorem Rested.awake (hl : l.Rested) (hawake : ¬ l.Waiting) : l.isPausedHere = false :=
  Bool.eq_false_of_not_eq_true fun hpaused => hawake (hl.paused hpaused).1

/-- What does not use the device, does not pause and does not look at the clock. -/
theorem Rested.unpaused (hl : l.Rested) (huses : l'.uses = l.uses)
    (hlast : l'.esdLastActivity = l.esdLastActivity) (hclock : l'.clock = l.clock)
    (hpaused : l'.isPausedHere = false) : l'.Rested where
  uses := by
    rw [huses, hlast]
    exact hl.uses
  past := by
    rw [hlast, hclock]
    exact hl.past
  paused h := by
    rw [hpaused] at h
    cases h

theorem Rested.used (hl : l.Rested) {now : ℤ} {u : DeviceUse} (hnow : l.clock ≤ now)
    (hu : u.time = now) (huses : l'.uses = l.uses ++ [u]) (hlast : l'.esdLastActivity = now)
    (hclock : l'.clock = now) (hpaused : l'.isPausedHere = false) : l'.Rested where
  uses v hv := by
    rw [huses] at hv
    rw [hlast]
    rcases List.mem_append.mp hv with hv | hv
    · exact (hl.uses v hv).trans (hl.past.trans hnow)
    · rw [List.mem_singleton.mp hv, hu]
  past := by rw [hlast, hclock]
  paused h := by
    rw [hpaused] at h
    cases h

theorem Rested.timedOut (hl : l.Rested) {now later : ℤ} (hnow : l.clock ≤ now) (hlater : now ≤ later) :
    ({ l.timedOut L now later with clock := later } : CommLoop).Rested := by
  have hpause : (∀ u ∈ (l.pause now).uses, u.time ≤ (l.pause now).esdLastActivity) ∧
      (l.pause now).esdLastActivity ≤ later ∧
      ((l.pause now).isPausedHere = true → ¬ Busy (l.pause now).server) := by
    simp only [pause]
    split_ifs with hp
    · exact ⟨fun u hu => (hl.uses u hu).trans (hl.past.trans hnow), hlater, fun _ => hp.2⟩
    · exact ⟨hl.uses, hl.past.trans (hnow.trans hlater), fun h => (hl.paused h).2⟩
  obtain ⟨huses, hpast, hidle⟩ := hpause
  have hsame : ((l.pause now).autostandby L later).uses = (l.pause now).uses ∧
      ((l.pause now).autostandby L later).esdLastActivity = (l.pause now).esdLastActivity ∧
      ((l.pause now).autostandby L later).isPausedHere = (l.pause now).isPausedHere := by
    simp only [autostandby]
    split_ifs <;> exact ⟨rfl, rfl, rfl⟩
  have hbusy := busy_autostandby (L := L) (l := l.pause now) later
  simp only [CommLoop.timedOut]
  generalize (l.pause now).autostandby L later = m at hsame hbusy ⊢
  obtain ⟨hmuses, hmlast, hmpaused⟩ := hsame
  have hu : ∀ u ∈ m.uses, u.time ≤ m.esdLastActivity := by rwa [hmuses, hmlast]
  have hp : m.esdLastActivity ≤ later := by rwa [hmlast]
  split_ifs with hstays
  · refine ⟨hu, hp, fun h => ⟨.inl rfl, ?_⟩⟩
    exact fun hb => hidle (hmpaused ▸ hstays.2) (hbusy.mp hb)
  · exact ⟨hu, hp, fun h => by cases h⟩
  · exact ⟨hu, hp, fun h => by cases h⟩

theorem Rested.step (hl : l.Rested) (hi : l.Steady L i) (h : Advances L l i l')
    (hrunning : l'.Running) : l'.Rested := by
  cases h with
  | @top reopen now hp =>
    simp only [beforeSelect] at hrunning ⊢
    split_ifs at hrunning ⊢
    · exact absurd rfl (hrunning 0)
    · have hsame : (l.reconnect reopen).uses = l.uses ∧
          (l.reconnect reopen).esdLastActivity = l.esdLastActivity ∧
          (l.reconnect reopen).isPausedHere = l.isPausedHere := by
        simp only [reconnect]
        split_ifs <;> exact ⟨rfl, rfl, rfl⟩
      have hbusy := busy_reconnect (l := l) reopen
      generalize l.reconnect reopen = m at hsame hbusy ⊢
      obtain ⟨huses, hlast, hpaused⟩ := hsame
      refine ⟨?_, ?_, fun h => ⟨.inr ⟨_, rfl⟩, fun hb => ?_⟩⟩
      · change ∀ u ∈ m.uses, u.time ≤ m.esdLastActivity
        rw [huses, hlast]
        exact hl.uses
      · change m.esdLastActivity ≤ now
        rw [hlast]
        exact hl.past.trans hi.2
      · have hpause : m.isPausedHere = true := h
        exact (hl.paused (hpaused ▸ hpause)).2 (hbusy.mp hb)
  | @select timeout answer now later hp =>
    cases answer with
    | ready listening => exact hl.unpaused rfl rfl rfl rfl
    | timedOut => exact hl.timedOut hi.2.1 hi.2.2
    | interrupted =>
      simp only [afterSelect]
      split_ifs
      · exact hl.unpaused rfl rfl rfl rfl
      · exact ⟨hl.uses, hl.past, fun h => ⟨.inl rfl, (hl.paused h).2⟩⟩
    | again => exact ⟨hl.uses, hl.past, fun h => ⟨.inl rfl, (hl.paused h).2⟩⟩
    | failed => exact absurd rfl (hrunning 1)
  | @accept answer hp =>
    have hawake := hl.awake (by simp [Waiting, hp])
    cases answer <;> exact hl.unpaused rfl rfl rfl hawake
  | @poll c env l' hp hpoll =>
    obtain ⟨r, -, rfl⟩ := Option.map_eq_some_iff.mp hpoll
    exact hl.unpaused rfl rfl rfl (hl.awake (by simp [Waiting, hp]))
  | refresh hp | mix hp => exact hl.unpaused rfl rfl rfl (hl.awake (by simp [Waiting, hp]))
  | @wake reopen hp =>
    have hawake := hl.awake (by simp [Waiting, hp])
    simp only [wakeRound]
    split_ifs <;> exact hl.unpaused rfl rfl rfl hawake
  | @filter canRead hp =>
    have hawake := hl.awake (by simp [Waiting, hp])
    simp only [filterRound]
    split_ifs <;> exact hl.unpaused rfl rfl rfl hawake
  | @write now hp =>
    have hawake := hl.awake (by simp [Waiting, hp])
    simp only [writeRound]
    split_ifs
    · exact hl.unpaused rfl rfl rfl hawake
    · exact hl.used hi.2 rfl rfl rfl rfl hawake
    · exact hl.unpaused rfl rfl rfl hawake
  | @monitor canWrite hp =>
    have hawake := hl.awake (by simp [Waiting, hp])
    simp only [monitorRound]
    split_ifs <;> exact hl.unpaused rfl rfl rfl hawake
  | @record ready reopen block now hp =>
    have hawake := hl.awake (by simp [Waiting, hp])
    simp only [recordRound]
    split_ifs
    · exact hl.used hi.2 rfl rfl rfl rfl hawake
    · exact hl.unpaused rfl rfl rfl hawake
    · exact hl.unpaused rfl rfl rfl hawake
  | usr1 => exact ⟨hl.uses, hl.past, hl.paused⟩
  | term => exact absurd rfl (hrunning 0)
  | @hup timeout scrambled hp =>
    refine ⟨hl.uses, hl.past, fun h => ⟨(hl.paused h).1, fun hb => ?_⟩⟩
    exact (hl.paused h).2 ((busy_resetDaemon _ _).mp hb)

theorem Run.rested {s : Server} {now : ℤ} {is : List LoopInput} (hnow : 0 ≤ now)
    (h : Run (advance L) (Steady L) (start s now) is l) (hrunning : l.Running) : l.Rested :=
  h.invariant (fun l => l.Running → l.Rested)
    (fun _ _ _ hl hi hstep hrunning =>
      (hl (advance_cases hstep).running).step hi (advance_cases hstep) hrunning)
    (fun _ => ⟨nofun, hnow, nofun⟩) hrunning

end Steps

/-! ## Leaving the device -/

section Standby

variable {L : LoopConfig} {l l' : CommLoop} {i : LoopInput}

theorem step_onStandby {cfg : Config} {s t : Server} {a : Action} (h : step cfg s a = some t)
    (hpoll : ∀ c env, a ≠ .poll c env) (hauto : a ≠ .autostandby) (asleep : t.esdOnStandby = true) :
    s.esdOnStandby = true := by
  have hstill : t.device = s.device → s.esdOnStandby = true := fun hdevice =>
    (congrArg Device.onStandby hdevice).symm.trans asleep
  obtain ⟨hen, h⟩ := step_eq_some h
  cases a with
  | poll c env => exact absurd rfl (hpoll c env)
  | autostandby => exact absurd rfl hauto
  | accept c fd socket =>
    cases h
    exact asleep
  | refresh =>
    cases h
    exact hstill (refreshMixFuncs_keeps (D := ∅)).device
  | mix canRead =>
    cases h
    exact hstill (mixPlayers_keeps (Set.mem_univ _) canRead).device
  | wake reopen =>
    cases h
    by_contra hawake
    simp only [esdServerResume, if_neg hawake] at asleep
    exact hawake asleep
  | filter canRead size =>
    cases h
    exact hstill (filterWrite_keeps (Set.mem_univ _) canRead size).device
  | monitor canWrite length =>
    cases h
    exact hstill (monitorWrite_keeps (Set.mem_univ _) canWrite length).device
  | recorder ready reopen block length =>
    cases h
    obtain ⟨ps, hleft⟩ := recorderWrite_device cfg
      (s := { s with outputBuffer := store s.outputBuffer 0 block }) ready reopen length
    have hsame : (s.device.left ps reopen).onStandby = s.esdOnStandby := by
      simp only [Device.left, Device.playing, Device.opened]
      split_ifs <;> rfl
    exact hsame.symm.trans ((congrArg Device.onStandby hleft).symm.trans asleep)
  | reconnect reopen =>
    cases h
    cases reopen <;> exact asleep
  | reset scrambled =>
    cases h
    exact hstill (resetDaemon_device scrambled)

theorem run_onStandby {cfg : Config} {ok : Server → Action → Prop} {s t : Server} {as : List Action}
    (h : Run (step cfg) ok s as t) (hpoll : ∀ c env, .poll c env ∉ as) (hauto : .autostandby ∉ as)
    (asleep : t.esdOnStandby = true) : s.esdOnStandby = true := by
  induction h with
  | nil s => exact asleep
  | @cons s u t a as _ hstep _ ih =>
    refine step_onStandby hstep (fun c env ha => hpoll c env ?_) (fun ha => hauto ?_)
      (ih (fun c env hmem => hpoll c env (List.mem_cons_of_mem _ hmem))
        (fun hmem => hauto (List.mem_cons_of_mem _ hmem)) asleep)
    · exact ha ▸ List.mem_cons_self
    · exact ha ▸ List.mem_cons_self

theorem poll_of_moves {c : Ptr} {env : PollEnv} (h : .poll c env ∈ l.moves L i) : i = .poll env := by
  unfold moves at h
  split at h <;> (try split_ifs at h) <;>
    simp only [List.mem_singleton, List.not_mem_nil, reduceCtorEq, Action.poll.injEq] at h
  rw [h.2]

theorem autostandby_of_moves (h : .autostandby ∈ l.moves L i) :
    ∃ timeout now later, l.place = .select timeout ∧ i = .select .timedOut now later ∧
      (l.pause now).Bored L later := by
  unfold moves at h
  split at h <;> (try split_ifs at h) <;>
    simp only [List.mem_singleton, List.not_mem_nil, reduceCtorEq] at h
  exact ⟨_, _, _, by assumption, rfl, by assumption⟩

/-- Apart from the requests of clients, it is `select` running out that begins a standby. -/
theorem Advances.falls_asleep (h : Advances L l i l') (hrunning : l'.Running)
    (hpoll : ∀ env, i ≠ .poll env) (hl : l.InPlace) (hi : l.Promised L i)
    (awake : l.server.esdOnStandby = false) (asleep : l'.server.esdOnStandby = true) :
    ∃ timeout now later, l.place = .select timeout ∧ i = .select .timedOut now later ∧
      (l.pause now).Bored L later := by
  obtain ⟨s, hrun, hserver⟩ := moves_run h hl hi
  rw [hserver hrunning] at asleep
  refine autostandby_of_moves ?_
  by_contra hauto
  have hbefore := run_onStandby hrun (fun c env hmem => hpoll env (poll_of_moves hmem)) hauto asleep
  exact absurd (awake.symm.trans hbefore) (by decide)

theorem Run.inPlace {s : Server} {now : ℤ} {is : List LoopInput} (hs : s.objects.WellFormed)
    (h : Run (advance L) (Promised L) (start s now) is l) (hrunning : l.Running) : l.InPlace :=
  h.invariant (fun l => l.Running → l.InPlace)
    (fun _ _ _ hl hi hstep hrunning =>
      (hl (advance_cases hstep).running).step hi (advance_cases hstep) hrunning)
    (fun _ => .elsewhere hs nofun nofun) hrunning

/-- Where the loop would pause, the device was not used later than what is noted then. -/
theorem Rested.pause (hl : l.Rested) {now : ℤ} (hnow : l.clock ≤ now)
    (hpaused : (l.pause now).isPausedHere = true) :
    ¬ Busy l.server ∧ ∀ u ∈ l.uses, u.time ≤ (l.pause now).esdLastActivity := by
  simp only [CommLoop.pause] at hpaused ⊢
  split_ifs at hpaused ⊢ with hp
  · exact ⟨hp.2, fun u hu => (hl.uses u hu).trans (hl.past.trans hnow)⟩
  · exact ⟨(hl.paused hpaused).2, hl.uses⟩

theorem timedOut_frame (now later : ℤ) : (l.timedOut L now later).uses = l.uses := by
  simp only [timedOut, autostandby, CommLoop.pause]
  split_ifs <;> rfl

end Standby

end CommLoop

/-- Apart from the requests of clients, the daemon leaves the device only when nobody records, no
sample plays, and no sound has gone to the device or come from it for more than the seconds that
were asked for. -/
theorem autostandby_idle {L : LoopConfig} {s : Server} {now : ℤ} {is : List LoopInput}
    {l l' : CommLoop} {i : LoopInput} (hs : s.objects.WellFormed) (hnow : 0 ≤ now)
    (h : Run (CommLoop.advance L) (CommLoop.Steady L) (.start s now) is l) (hi : l.Steady L i)
    (hstep : l.advance L i = some l') (hrunning : l'.Running) (hpoll : ∀ env, i ≠ .poll env)
    (awake : l.server.esdOnStandby = false) (asleep : l'.server.esdOnStandby = true) :
    0 ≤ L.esdAutostandbySecs ∧ l.server.esdRecorderList = [] ∧ l.server.esdPlayingSamples = 0 ∧
      ∀ u ∈ l'.uses, u.time + L.esdAutostandbySecs < l'.clock := by
  have hadvances := CommLoop.advance_cases hstep
  have hplaced := CommLoop.Run.inPlace hs (h.mono fun _ _ hi => hi.1) hadvances.running
  have hrested := CommLoop.Run.rested hnow h hadvances.running
  obtain ⟨timeout, noted, later, hplace, rfl, hbored⟩ :=
    hadvances.falls_asleep hrunning hpoll hplaced hi.1 awake asleep
  obtain ⟨hpaused, hsecs, hlater⟩ := hbored
  obtain ⟨hidle, huses⟩ := hrested.pause hi.2.1 hpaused
  simp only [CommLoop.Busy, not_or, not_not] at hidle
  refine ⟨hsecs, hidle.1, hidle.2, fun u hu => ?_⟩
  have hl' : l' = { l.timedOut L noted later with clock := later } := by
    simp only [CommLoop.advance, hplace, Option.some.injEq] at hstep
    exact hstep.symm
  rw [hl'] at hu ⊢
  have hmem : u ∈ l.uses := CommLoop.timedOut_frame (L := L) noted later ▸ hu
  have hlast := huses u hmem
  change u.time + L.esdAutostandbySecs < later
  omega

/-- A pass that the listed clients wake, with sound to play or without. -/
def wokenPass (now : ℤ) (malloc : Ptr) : List LoopInput :=
  [.top none now, .select (.ready false) now now, .poll (.allocating malloc)]

/-- A client plays four frames and hangs up; after that nothing happens. -/
def playedOnce : List LoopInput :=
  [.top none 100, .select (.ready true) 100 100,
      .accept (.client 1 5 (.sending [handshake 7, Word.octets 3#32,
        streamParams (esdBits16 ||| esdStereo) 44100#32, List.replicate 16 1])),
      .accept .none, .poll (.allocating 0)] ++ quietRound 100 ++
    wokenPass 100 0 ++ quietRound 100 ++
    wokenPass 101 2 ++ [.refresh, .mix fun _ => true, .wake none, .filter fun _ => false, .write 101,
      .monitor fun _ => false, .record (fun _ => ⟨0, false⟩) none none 101] ++
    [.top none 101, .select (.ready false) 101 101, .poll (.allocating 0), .refresh,
      .mix fun _ => true, .wake none, .filter fun _ => false, .write 101,
      .record (fun _ => ⟨0, false⟩) none none 101] ++
    [.top none 101, .select .timedOut 101 101]

theorem playedOnce_ends : (exec (CommLoop.advance .spawned) (CommLoop.Steady .spawned)
    (.start .blank 100) playedOnce).isSome := by
  decide +kernel

def afterPlaying : CommLoop :=
  (exec (CommLoop.advance .spawned) (CommLoop.Steady .spawned) (.start .blank 100) playedOnce).get
    playedOnce_ends

example : afterPlaying.uses = [.wrote 101 (List.replicate 16 1)] := by decide +kernel

theorem afterPlaying_run : Run (CommLoop.advance .spawned) (CommLoop.Steady .spawned)
    (.start .blank 100) playedOnce afterPlaying :=
  Run.of_isSome playedOnce_ends

theorem afterPlaying_place : afterPlaying.place = .top := by decide +kernel

/-- The loop at its second sleep, after the four frames. -/
def asleepAfterPlaying : CommLoop := afterPlaying.beforeSelect .spawned none 102

theorem asleepAfterPlaying_place : asleepAfterPlaying.place = .select (some 2000000) := by
  decide +kernel

theorem afterPlaying_step :
    afterPlaying.advance .spawned (.top none 102) = some asleepAfterPlaying := by
  simp only [CommLoop.advance, afterPlaying_place, asleepAfterPlaying]

def onStandbyAfterPlaying : CommLoop :=
  asleepAfterPlaying.afterSelect .spawned (some 2000000) .timedOut 104 104

theorem asleepAfterPlaying_step :
    asleepAfterPlaying.advance .spawned (.select .timedOut 104 104) = some onStandbyAfterPlaying := by
  simp only [CommLoop.advance, asleepAfterPlaying_place, onStandbyAfterPlaying]

theorem onStandbyAfterPlaying_place : onStandbyAfterPlaying.place = .top := by decide +kernel

theorem autostandby_idle_played :
    onStandbyAfterPlaying.server.esdOnStandby = true ∧
      onStandbyAfterPlaying.uses = [.wrote 101 (List.replicate 16 1)] ∧
      ∀ u ∈ onStandbyAfterPlaying.uses, u.time + 2 < onStandbyAfterPlaying.clock := by
  have hrun : Run (CommLoop.advance .spawned) (CommLoop.Steady .spawned) (.start .blank 100)
      (playedOnce ++ [.top none 102]) asleepAfterPlaying :=
    afterPlaying_run.snoc (by decide +kernel) afterPlaying_step
  have hrunning : onStandbyAfterPlaying.Running := fun _ h => by
    cases onStandbyAfterPlaying_place.symm.trans h
  have hidle := autostandby_idle Server.blank_initial.wellFormed (by decide) hrun
    (by decide +kernel) asleepAfterPlaying_step hrunning nofun (by decide +kernel)
    (by decide +kernel)
  exact ⟨by decide +kernel, by decide +kernel, hidle.2.2.2⟩

end Esound
