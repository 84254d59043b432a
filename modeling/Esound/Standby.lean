import Esound.Device

/-!
# Standby and recording

Three rules for the device: a standby that was asked for lasts until its end is asked for;
on standby the device is closed; and it is open to record just when there are recorders.
-/

open Library.Buffer Library.Transition

namespace Esound

/-! ## Standby persists -/

/-- The step grants a request to resume. -/
def Resumes (cfg : Config) (s : Server) (a : Action) : Prop :=
  ∃ t c protoData, step cfg s a = some t ∧ t.calls = s.calls ++ [.handled c .resume protoData true]

namespace Device

variable {d : Device} {r : Option ℤ}

/-- Standby was asked for. -/
structure Held (d : Device) : Prop where
  onStandby : d.onStandby = true
  forcedStandby : d.forcedStandby = true

theorem standby_onStandby : d.standby.onStandby = true := by
  simp only [standby]
  split_ifs with h
  · exact h
  · rfl

theorem standby_of_onStandby (h : d.onStandby = true) : d.standby = d := if_pos h

theorem standby_onAutostandby : d.standby.onAutostandby = d.onAutostandby := by
  simp only [standby]
  split_ifs <;> rfl

theorem standby_forcedStandby : d.standby.forcedStandby = d.forcedStandby := by
  simp only [standby]
  split_ifs <;> rfl

theorem forced_onAutostandby : d.forced.onAutostandby = d.onAutostandby := by
  simp only [Device.forced]
  split_ifs <;> rfl

theorem woken_of_forced (h : d.forcedStandby = true) : d.woken r = d :=
  if_neg fun hwake => by simp [h] at hwake

theorem Held.forced (h : d.Held) : d.forced.Held := by
  simp only [Device.forced]
  split_ifs
  · exact ⟨h.onStandby, rfl⟩
  · exact h

theorem held_standby_iff : d.standby.forced.Held ↔ d.onAutostandby = false ∨ d.forcedStandby = true := by
  constructor
  · intro h
    by_cases hauto : d.onAutostandby = false
    · exact .inl hauto
    · have hforced := h.forcedStandby
      rw [Device.forced, if_neg (by rwa [standby_onAutostandby]), standby_forcedStandby] at hforced
      exact .inr hforced
  · rintro (hauto | hforced)
    · rw [Device.forced, if_pos (by rwa [standby_onAutostandby])]
      exact ⟨standby_onStandby, rfl⟩
    · have hheld : d.standby.Held := ⟨standby_onStandby, by rwa [standby_forcedStandby]⟩
      exact hheld.forced

end Device

section Persistence

variable {cfg : Config} {s t : Server} {a : Action}

theorem step_held (hheld : s.device.Held) (hresumes : ¬ Resumes cfg s a)
    (h : step cfg s a = some t) : t.device.Held := by
  have hwoken : ∀ r, s.device.woken r = s.device :=
    fun r => Device.woken_of_forced hheld.forcedStandby
  have hstandby := Device.standby_of_onStandby hheld.onStandby
  cases step_device h with
  | still device => rwa [device]
  | standby ok device =>
    rw [device, hstandby]
    split_ifs <;> exact hheld.forced
  | resume c protoData ok r calls device =>
    cases ok with
    | true => exact absurd ⟨t, c, protoData, h, calls⟩ hresumes
    | false =>
      rw [device]
      exact hheld
  | wake r device => rwa [device, hwoken]
  | record p r r' r'' awake =>
    rw [hwoken, hheld.onStandby] at awake
    cases awake
  | autostandby device =>
    rw [device, hstandby]
    exact ⟨hheld.onStandby, hheld.forcedStandby⟩
  | leave ps r recording awake =>
    rw [hheld.onStandby] at awake
    cases awake
  | reconnect r taken device =>
    rw [device]
    cases r <;> exact ⟨hheld.onStandby, hheld.forcedStandby⟩

theorem wake_not_resumes (reopen : Option ℤ) : ¬ Resumes cfg s (.wake reopen) := by
  rintro ⟨t, c, protoData, h, hcalls⟩
  obtain ⟨-, h⟩ := step_eq_some h
  cases h
  simp [(esdServerResume_gate (s := s) reopen).2] at hcalls

end Persistence

/-- A request for standby that was granted keeps the daemon on standby until a request to
resume is granted, unless it came during an automatic standby that was not forced before. -/
theorem standby_persists_iff {cfg : Config} {ok : Server → Action → Prop} {s t u : Server}
    {as : List Action} {a : Action} {c : Ptr} {protoData : List Octet} (hs : s.Initial)
    (h : Runs cfg ok s as t) (hstep : step cfg t a = some u)
    (hcalls : u.calls = t.calls ++ [.handled c .standby protoData true]) :
    (∀ bs v, Runs cfg (fun s a => ¬ Resumes cfg s a) u bs v → v.esdOnStandby = true) ↔
      t.esdOnAutostandby = false ∨ t.esdForcedStandby = true := by
  have hdevice : u.device = t.device.standby.forced :=
    step_standby (Run.wellFormed h hs.wellFormed) hstep hcalls
  have hheld : u.device.Held ↔ t.esdOnAutostandby = false ∨ t.esdForcedStandby = true := by
    rw [hdevice]
    exact Device.held_standby_iff
  rw [← hheld]
  constructor
  · intro hpersists
    have hon : u.device.onStandby = true := hpersists [] u (.nil u)
    by_contra hlost
    have hforced : u.esdForcedStandby = false :=
      Bool.eq_false_of_not_eq_true fun hforced => hlost ⟨hon, hforced⟩
    have hauto : u.device.onAutostandby = true := by
      rw [hdevice, Device.forced_onAutostandby, Device.standby_onAutostandby]
      exact Bool.eq_true_of_not_eq_false fun hauto => hlost (hheld.mpr (.inl hauto))
    have hwakes : Runs cfg (fun s a => ¬ Resumes cfg s a) u [.wake (some 0)]
        (esdServerResume u (some 0)).1 :=
      .cons (wake_not_resumes _) (if_pos ⟨hauto, hforced⟩) (.nil _)
    have hoff : (esdServerResume u (some 0)).1.device.onStandby = false := by
      rw [(esdServerResume_device _).1, Device.resumed, if_pos ⟨hon, rfl⟩]
    have hstill : (esdServerResume u (some 0)).1.device.onStandby = true := hpersists _ _ hwakes
    exact Bool.noConfusion (hstill.symm.trans hoff)
  · intro hheld bs v hrun
    exact (hrun.invariant (fun s : Server => s.device.Held)
      (fun _ _ _ hI hok hstep => step_held hI hok hstep) hheld).onStandby

/-- A client connects, standby begins by itself if it is to, and the client asks for standby. -/
def standbyRun (auto : List Action) : List Action :=
  [.accept 1 5 (.sending [handshake 7, Word.octets 12#32, handshake 7]), .poll 1 (.allocating 0)] ++
    auto ++ [.poll 1 (.allocating 0)]

theorem standbyRun_ends : (exec (step .smallBlocks) NoReset .blank (standbyRun [])).isSome := by
  decide +kernel

theorem standbyRun_auto_ends :
    (exec (step .smallBlocks) NoReset .blank (standbyRun [.autostandby])).isSome := by
  decide +kernel

def beforeStandby : Server :=
  (exec (step .smallBlocks) NoReset .blank (standbyRun [])).get standbyRun_ends

def beforeLostStandby : Server :=
  (exec (step .smallBlocks) NoReset .blank (standbyRun [.autostandby])).get standbyRun_auto_ends

theorem beforeStandby_step : (step .smallBlocks beforeStandby (.poll 1 (.allocating 0))).isSome := by
  decide +kernel

theorem beforeLostStandby_step :
    (step .smallBlocks beforeLostStandby (.poll 1 (.allocating 0))).isSome := by
  decide +kernel

theorem standby_persists_iff_requested :
    ∃ u, step .smallBlocks beforeStandby (.poll 1 (.allocating 0)) = some u ∧
      u.calls = beforeStandby.calls ++ [.handled 1 .standby (handshake 7) true] ∧
      ∀ bs v, Runs .smallBlocks (fun s a => ¬ Resumes .smallBlocks s a) u bs v →
        v.esdOnStandby = true := by
  have hrun : Runs .smallBlocks NoReset .blank (standbyRun []) beforeStandby :=
    Run.of_isSome standbyRun_ends
  have hcalls : ((step .smallBlocks beforeStandby (.poll 1 (.allocating 0))).get
      beforeStandby_step).calls = beforeStandby.calls ++ [.handled 1 .standby (handshake 7) true] := by
    decide +kernel
  refine ⟨_, (Option.some_get beforeStandby_step).symm, hcalls, ?_⟩
  exact (standby_persists_iff Server.blank_initial hrun (Option.some_get beforeStandby_step).symm
    hcalls).mpr (.inl (by decide +kernel))

def afterLostStandby : Server :=
  (step .smallBlocks beforeLostStandby (.poll 1 (.allocating 0))).get beforeLostStandby_step

theorem afterLostStandby_wakes :
    (step .smallBlocks afterLostStandby (.wake (some 4096))).isSome := by
  decide +kernel

/-- On an automatic standby the request is answered with ok, and the next sound ends it. -/
theorem standby_lost_on_autostandby :
    ∃ v, Runs .smallBlocks NoReset .blank (standbyRun [.autostandby]) beforeLostStandby ∧
      step .smallBlocks beforeLostStandby (.poll 1 (.allocating 0)) = some afterLostStandby ∧
      afterLostStandby.calls =
        beforeLostStandby.calls ++ [.handled 1 .standby (handshake 7) true] ∧
      step .smallBlocks afterLostStandby (.wake (some 4096)) = some v ∧
      ¬ Resumes .smallBlocks afterLostStandby (.wake (some 4096)) ∧ v.esdOnStandby = false :=
  ⟨_, Run.of_isSome standbyRun_auto_ends, (Option.some_get beforeLostStandby_step).symm,
    by decide +kernel, (Option.some_get afterLostStandby_wakes).symm, wake_not_resumes _,
    by decide +kernel⟩

/-! ## Standby releases the device -/

def Released (s : Server) : Prop := s.esdOnStandby = true → s.audioFd = none

instance (s : Server) : Decidable (Released s) := inferInstanceAs (Decidable (_ → _))

/-- The driver is not connected again, with success, on standby. -/
def KeepsReleased (s : Server) : Action → Prop
  | .reconnect reopen => s.esdOnStandby = false ∨ reopen = none
  | _ => True

instance (s : Server) (a : Action) : Decidable (KeepsReleased s a) :=
  match a with
  | .reconnect _ => inferInstanceAs (Decidable (_ ∨ _))
  | .accept .. | .poll .. | .refresh | .mix _ | .wake _ | .filter .. | .monitor ..
  | .recorder .. | .autostandby | .reset _ => .isTrue trivial

namespace Device

variable {d : Device} {r : Option ℤ}

/-- On standby the device is closed. -/
def Released (d : Device) : Prop := d.onStandby = true → d.audioFd = none

theorem Released.standby (h : d.Released) : d.standby.Released := by
  simp only [Device.standby]
  split_ifs
  · exact h
  · exact fun _ => rfl

theorem Released.forced (h : d.Released) : d.forced.Released := by
  simp only [Device.forced]
  split_ifs <;> exact h

theorem Released.resumed (h : d.Released) : (d.resumed r).Released := by
  simp only [Device.resumed]
  split_ifs
  · exact fun hon => Bool.noConfusion hon
  · exact h

theorem Released.woken (h : d.Released) : (d.woken r).Released := by
  simp only [Device.woken]
  split_ifs
  · exact h.resumed
  · exact h

theorem Released.of_awake (h : d.onStandby = false) : d.Released := fun hon =>
  Bool.noConfusion (hon.symm.trans h)

theorem opened_onStandby : (d.opened r).onStandby = d.onStandby := by cases r <;> rfl

theorem playing_onStandby : (d.playing r).onStandby = d.onStandby := opened_onStandby

theorem recording_onStandby (p : Ptr) (r r' : Option ℤ) :
    (d.recording p r r').onStandby = d.onStandby := by
  simp only [recording]
  split_ifs
  · exact opened_onStandby
  · exact playing_onStandby
  · rfl

theorem left_onStandby (ps : List Ptr) : (d.left ps r).onStandby = d.onStandby := by
  simp only [left]
  split_ifs
  · exact playing_onStandby
  · rfl

theorem released_reconnect_iff :
    (d.closed.opened r).Released ↔ d.onStandby = false ∨ r = none := by
  cases r with
  | none => exact ⟨fun _ => .inr rfl, fun _ _ => rfl⟩
  | some size =>
    cases hon : d.onStandby <;> simp [Released, opened, closed, hon]

end Device

section Release

variable {cfg : Config} {s t : Server} {a : Action}

theorem step_released (hreleased : Released s) (hother : ∀ r, a ≠ .reconnect r)
    (h : step cfg s a = some t) : Released t := by
  have hd : s.device.Released := hreleased
  change t.device.Released
  cases step_device h with
  | still device => rwa [device]
  | standby ok device =>
    rw [device]
    split_ifs
    · exact hd.standby.forced
    · exact hd.forced
  | resume c protoData ok r calls device =>
    rw [device]
    split_ifs
    · exact hd.resumed
    · exact hd
  | wake r device =>
    rw [device]
    exact hd.woken
  | record p r r' r'' awake device =>
    rw [device]
    exact .of_awake ((Device.recording_onStandby _ _ _).trans awake)
  | autostandby device =>
    rw [device]
    exact hd.standby
  | leave ps r recording awake device =>
    rw [device]
    exact .of_awake ((Device.left_onStandby _).trans awake)
  | reconnect r taken => exact absurd taken (hother r)

theorem step_released_iff (hreleased : Released s) (h : step cfg s a = some t) :
    Released t ↔ KeepsReleased s a := by
  cases a with
  | reconnect reopen =>
    obtain ⟨-, h⟩ := step_eq_some h
    cases h
    have hdevice := (esdAudioOpen_device (s := esdAudioClose s) reopen).1
    change (esdAudioOpen (esdAudioClose s) reopen).1.device.Released ↔ _
    rw [hdevice]
    exact Device.released_reconnect_iff (d := s.device)
  | _ => exact ⟨fun _ => trivial, fun _ => step_released hreleased (by simp) h⟩

end Release

/-- On standby the device is closed, all along a run, exactly when in the run the driver is not
connected again on standby. -/
theorem standby_releases_device_iff {cfg : Config} {ok : Server → Action → Prop} {s t : Server}
    {as : List Action} (hs : s.Initial) (h : Runs cfg ok s as t) :
    (∀ bs u, bs <+: as → Runs cfg ok s bs u → Released u) ↔ Runs cfg KeepsReleased s as t := by
  refine h.visits_iff (fun _ _ _ hI _ hstep => step_released_iff hI hstep) fun hon => ?_
  exact Bool.noConfusion (hon.symm.trans hs.standby)

theorem idleRun_ends : (exec (step .smallBlocks) KeepsReleased .blank
    [.autostandby, .wake none, .reconnect none]).isSome := by
  decide +kernel

theorem standby_releases_device_iff_idle :
    ∃ t, Runs .smallBlocks KeepsReleased .blank [.autostandby, .wake none, .reconnect none] t ∧
      t.esdOnStandby = true ∧
      ∀ bs u, bs <+: [.autostandby, .wake none, .reconnect none] →
        Runs .smallBlocks KeepsReleased .blank bs u → Released u := by
  refine ⟨_, Run.of_isSome idleRun_ends, by decide +kernel, ?_⟩
  exact (standby_releases_device_iff Server.blank_initial (Run.of_isSome idleRun_ends)).mpr
    (Run.of_isSome idleRun_ends)

theorem reconnectRun_ends : (exec (step .smallBlocks) NoReset .blank
    [.autostandby, .reconnect (some 4096)]).isSome := by
  decide +kernel

/-- The sound card has changed while the daemon stands by. -/
theorem reconnect_opens_on_standby :
    ∃ t, Runs .smallBlocks NoReset .blank [.autostandby, .reconnect (some 4096)] t ∧
      t.esdOnStandby = true ∧ t.audioFd ≠ none ∧ ¬ Released t :=
  ⟨_, Run.of_isSome reconnectRun_ends, by decide +kernel, by decide +kernel, by decide +kernel⟩

/-! ## Recording -/

namespace Device

variable {d : Device} {r : Option ℤ}

/-- There are recorders just when the format says so, and the device was opened as it says. -/
structure Coherent (d : Device) : Prop where
  recorders : d.format &&& esdRecord ≠ 0#32 ↔ d.recorders ≠ []
  opened : ∀ f ∈ d.audioFd, f &&& esdRecord = d.format &&& esdRecord

theorem or_record (f : Word) : (f ||| esdRecord) &&& esdRecord = esdRecord := by
  ext i hi
  simp
  tauto

theorem and_not_record (f : Word) : f &&& ~~~esdRecord &&& esdRecord = 0#32 := by
  rw [BitVec.and_assoc, show ~~~esdRecord &&& esdRecord = 0#32 by decide, BitVec.and_zero]

theorem Coherent.reopened (h : d.Coherent) : (d.opened r).Coherent := by
  cases r with
  | none => exact h
  | some size =>
    refine ⟨h.recorders, fun f hf => ?_⟩
    cases hf
    rfl

theorem Coherent.of_closed (h : d.format &&& esdRecord ≠ 0#32 ↔ d.recorders ≠ []) :
    d.closed.Coherent :=
  ⟨h, fun f hf => by simp [closed] at hf⟩

theorem Coherent.closed (h : d.Coherent) : d.closed.Coherent := .of_closed h.recorders

theorem Coherent.standby (h : d.Coherent) : d.standby.Coherent := by
  simp only [Device.standby]
  split_ifs
  · exact h
  · exact ⟨h.recorders, h.closed.opened⟩

theorem Coherent.forced (h : d.Coherent) : d.forced.Coherent := by
  simp only [Device.forced]
  split_ifs
  · exact ⟨h.recorders, h.opened⟩
  · exact h

theorem Coherent.resumed (h : d.Coherent) : (d.resumed r).Coherent := by
  have hopened : (d.opened r).Coherent := h.reopened
  simp only [Device.resumed]
  split_ifs
  · exact ⟨hopened.recorders, hopened.opened⟩
  · exact h

theorem Coherent.woken (h : d.Coherent) : (d.woken r).Coherent := by
  simp only [Device.woken]
  split_ifs
  · exact h.resumed
  · exact h

theorem Coherent.playing (h : d.recorders = []) : (d.playing r).Coherent := by
  have hclosed : { d with format := d.format &&& ~~~esdRecord }.closed.Coherent :=
    .of_closed (by simp [and_not_record, h])
  exact hclosed.reopened

theorem Coherent.recording (h : d.Coherent) (p : Ptr) (r r' : Option ℤ) :
    (d.recording p r r').Coherent := by
  simp only [Device.recording]
  split_ifs with hformat hopen
  · obtain ⟨size, rfl⟩ := Option.isSome_iff_exists.mp hopen
    refine ⟨iff_of_true ?_ (List.cons_ne_nil _ _), fun f hf => ?_⟩
    · change (d.format ||| esdRecord) &&& esdRecord ≠ 0#32
      rw [or_record]
      decide
    cases hf
    rfl
  · have hnone : d.recorders = [] := by
      by_contra hsome
      exact h.recorders.mpr hsome hformat
    exact .playing hnone
  · exact ⟨by simp [hformat], h.opened⟩

theorem Coherent.left (h : d.Coherent) (hrecording : d.recorders ≠ []) (ps : List Ptr) :
    (d.left ps r).Coherent := by
  simp only [Device.left]
  split_ifs with hnone
  · exact .playing rfl
  · refine ⟨?_, h.opened⟩
    exact iff_of_true (h.recorders.mpr hrecording) hnone

end Device

section Recording

variable {cfg : Config} {s t : Server} {a : Action}

theorem step_coherent (hcoherent : s.device.Coherent) (h : step cfg s a = some t) :
    t.device.Coherent := by
  cases step_device h with
  | still device => rwa [device]
  | standby ok device =>
    rw [device]
    split_ifs
    · exact hcoherent.standby.forced
    · exact hcoherent.forced
  | resume c protoData ok r calls device =>
    rw [device]
    split_ifs
    · exact ⟨hcoherent.resumed.recorders, hcoherent.resumed.opened⟩
    · exact hcoherent
  | wake r device =>
    rw [device]
    exact hcoherent.woken
  | record p r r' r'' awake device =>
    rw [device]
    exact hcoherent.woken.recording p r' r''
  | autostandby device =>
    rw [device]
    exact ⟨hcoherent.standby.recorders, hcoherent.standby.opened⟩
  | leave ps r recording awake device =>
    rw [device]
    exact hcoherent.left recording ps
  | reconnect r taken device =>
    rw [device]
    exact hcoherent.closed.reopened

end Recording

/-- `main` before its loop, with the device open to play. -/
structure Server.Started (s : Server) : Prop extends s.Initial where
  format : s.esdAudioFormat &&& esdRecord = 0#32
  audioFd : s.audioFd = some s.esdAudioFormat

/-- In every state a daemon reaches the format asks for recording just when there are
recorders, and a device that is open was opened with that. -/
theorem recording_coherent {cfg : Config} {ok : Server → Action → Prop} {s t : Server}
    {as : List Action} (hs : s.Started) (h : Runs cfg ok s as t) :
    (t.esdAudioFormat &&& esdRecord ≠ 0#32 ↔ t.esdRecorderList ≠ []) ∧
      ∀ f ∈ t.audioFd, f &&& esdRecord = t.esdAudioFormat &&& esdRecord := by
  have hrecorders : s.esdRecorderList = [] := by
    have hall := hs.players
    simp only [Server.allPlayers, List.append_eq_nil_iff] at hall
    exact hall.1.1.2
  have hstart : s.device.Coherent := by
    refine ⟨by simp [Server.device, hs.format, hrecorders], fun f hf => ?_⟩
    have hopen : s.device.audioFd = some s.esdAudioFormat := hs.audioFd
    rw [hopen] at hf
    cases hf
    rfl
  have hend := h.invariant (fun s : Server => s.device.Coherent)
    (fun _ _ _ hI _ hstep => step_coherent hI hstep) hstart
  exact ⟨hend.recorders, hend.opened⟩

theorem Server.blank_started : Server.blank.Started := ⟨Server.blank_initial, by decide, rfl⟩

/-- A client connects and asks for a recorder, for which the device opens again. -/
def recordingRun : List Action :=
  [.accept 1 5 (.sending [handshake 7, Word.octets 4#32,
      streamParams (esdBits16 ||| esdStereo) 44100#32]),
    .poll 1 (.allocating 0), .poll 1 (.allocating 0),
    .poll 1 { PollEnv.allocating 2 with audioOpen := fun _ => some 4096 }]

theorem recordingRun_ends : (exec (step .smallBlocks) NoReset .blank recordingRun).isSome := by
  decide +kernel

theorem recording_coherent_recorder :
    ∃ t, Runs .smallBlocks NoReset .blank recordingRun t ∧ t.esdRecorderList = [2] ∧
      t.audioFd.isSome ∧ ∀ f ∈ t.audioFd, f &&& esdRecord = t.esdAudioFormat &&& esdRecord := by
  refine ⟨_, Run.of_isSome recordingRun_ends, by decide +kernel, by decide +kernel, ?_⟩
  exact (recording_coherent Server.blank_started (Run.of_isSome recordingRun_ends)).2

end Esound
