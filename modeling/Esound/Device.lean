import Esound.Admission
import Esound.Keeps

/-!
# The audio device

The few things the daemon does to the device are operations on what it knows of it. Each
of its steps is one of them, or leaves the device alone.
-/

open Library.Buffer Library.Loop Library.Transition

namespace Esound

namespace Device

/-- `r` is the driver's answer, here and below. -/
def opened (d : Device) (r : Option ℤ) : Device :=
  if r.isSome then { d with audioFd := some d.format } else d

def closed (d : Device) : Device := { d with audioFd := none }

def standby (d : Device) : Device :=
  if d.onStandby then d else { d.closed with onStandby := true }

def resumed (d : Device) (r : Option ℤ) : Device :=
  if d.onStandby ∧ r.isSome then
    { d.opened r with onStandby := false, onAutostandby := false, forcedStandby := false }
  else d

def woken (d : Device) (r : Option ℤ) : Device :=
  if d.onAutostandby ∧ d.forcedStandby = false then d.resumed r else d

def forced (d : Device) : Device :=
  if d.onAutostandby = false then { d with forcedStandby := true } else d

/-- Open for playing only, or closed. -/
def playing (d : Device) (r : Option ℤ) : Device :=
  { d.closed with format := d.format &&& ~~~esdRecord }.opened r

/-- Another recorder; `r` and `r'` answer the open for the first one, and the one after a failure. -/
def recording (d : Device) (p : Ptr) (r r' : Option ℤ) : Device :=
  if d.format &&& esdRecord = 0#32 then
    let d := { d.closed with format := d.format ||| esdRecord }
    if r.isSome then { d.opened r with recorders := p :: d.recorders } else d.playing r'
  else { d with recorders := p :: d.recorders }

/-- All but the recorders. -/
def apart (d : Device) : Device := { d with recorders := [] }

/-- The recorders that are left. -/
def left (d : Device) (ps : List Ptr) (r : Option ℤ) : Device :=
  if ps = [] then d.apart.playing r else { d with recorders := ps }

end Device

/-! ## What leaves the device alone -/

section Frames

variable {cfg : Config} {env : PollEnv} {c p : Ptr} {s t : Server}

@[simp] theorem device_record (call : Call) : (s.record call).device = s.device := rfl

@[simp] theorem device_reply (x : ℤ) : (reply s c x).1.device = s.device := rfl

theorem eraseClient_device (s : Server) (c : Ptr) : (eraseClient s c).device = s.device :=
  (eraseClient_keeps (D := ∅) c).device

theorem esdValidateSource_device (key : List Octet) (ownerOnly : Bool) :
    (esdValidateSource s c key ownerOnly).1.device = s.device :=
  (esdValidateSource_keeps (D := ∅) key ownerOnly).device

variable (cfg) in
theorem readSample_device (q : Ptr) : (readSample cfg s q).1.device = s.device := by
  have hloop : ∀ n r, r.srv.device = s.device →
      (whileFuel (readSampleRound cfg q) n r).srv.device = s.device := by
    intro n r hr
    refine whileFuel_invariant (fun r : ReadSample => r.srv.device = s.device) (fun r r' hr h => ?_) n hr
    simp only [readSampleRound] at h
    split_ifs at h
    split at h
    · cases h
      exact hr
    · cases h
      exact hr
    · split_ifs at h <;> cases h <;> exact hr
  simp only [readSample]
  split_ifs
  · exact hloop _ _ rfl
  · exact hloop _ _ rfl

theorem cacheInto_device (q : Ptr) : (cacheInto cfg s c q).1.device = s.device := by
  have hread := readSample_device cfg
    (s := s.setSample q { s.sample q with parent := c }) q
  simp only [cacheInto]
  generalize readSample cfg (s.setSample q { s.sample q with parent := c }) q = r at hread ⊢
  obtain ⟨t, ok⟩ := r
  cases ok with
  | false => exact hread
  | true =>
    simp only
    split_ifs <;> exact hread

variable (cfg env s c) in
theorem newSample_device : (newSample cfg env s c).1.device = s.device := by
  simp only [newSample]
  split_ifs <;> rfl

theorem esdProtoSampleCache_device {r : Server × Bool}
    (h : esdProtoSampleCache cfg env s c = some r) : r.1.device = s.device := by
  have hnew := newSample_device cfg env c s
  simp only [esdProtoSampleCache] at h
  split_ifs at h
  · split at h
    · cases h
    · split_ifs at h <;> cases h
      · rfl
      · exact cacheInto_device _
  · cases h
    exact hnew
  · cases h
    exact (cacheInto_device _).trans hnew

theorem resetDaemon_device (scrambled : List Octet) : (resetDaemon s scrambled).device = s.device :=
  (resetDaemon_keeps (Set.mem_univ _) scrambled).device

theorem freePlayer_device (p : Ptr) : (freePlayer s p).device = s.device :=
  (freePlayer_keeps (Set.mem_univ _) p).device

end Frames

/-! ## What is done to the device -/

section Operations

variable {cfg : Config} {env : PollEnv} {c : Ptr} {s t : Server}

theorem esdAudioOpen_device (r : Option ℤ) :
    (esdAudioOpen s r).1.device = s.device.opened r ∧ (esdAudioOpen s r).2 = r.isSome := by
  cases r <;> exact ⟨rfl, rfl⟩

theorem esdServerStandby_device : (esdServerStandby s).1.device = s.device.standby := by
  cases hstandby : s.esdOnStandby <;>
    simp [esdServerStandby, esdAudioClose, Device.standby, Device.closed, Server.device, hstandby]

theorem esdServerResume_device (r : Option ℤ) :
    (esdServerResume s r).1.device = s.device.resumed r ∧
      (esdServerResume s r).2 = decide (s.esdOnStandby = true → r.isSome = true) := by
  cases hstandby : s.esdOnStandby <;> cases r <;>
    simp [esdServerResume, esdAudioOpen, Device.resumed, Device.opened, Server.device, hstandby]

theorem forced_device (s : Server) : Server.device
    (if s.esdOnAutostandby = false then { s with esdForcedStandby := true } else s) =
      s.device.forced := by
  cases hauto : s.esdOnAutostandby <;> simp [Device.forced, Server.device, hauto]

theorem esdProtoStandby_device : (esdProtoStandby s c).1.device =
    if (esdProtoStandby s c).2 then s.device.standby.forced else s.device.forced := by
  have hsource := esdValidateSource_device (s := s) (c := c) (s.client c).key true
  obtain ⟨⟨t, ok⟩, hv⟩ : ∃ v, esdValidateSource s c (s.client c).key true = v := ⟨_, rfl⟩
  simp only [hv] at hsource
  cases ok with
  | false =>
    simp only [esdProtoStandby, hv, Bool.false_eq_true, if_false, device_reply, forced_device,
      hsource]
  | true =>
    have hok : (esdServerStandby t).2 = true := by
      simp only [esdServerStandby]
      split_ifs <;> rfl
    simp only [esdProtoStandby, hv, if_true, hok, device_reply, forced_device,
      esdServerStandby_device, hsource]

variable (env) in
theorem esdProtoResume_device : (esdProtoResume env s c).1.device =
    if (esdProtoResume env s c).2 then
      { s.device.resumed (env.audioOpen 0) with forcedStandby := false }
    else s.device := by
  have hsource := esdValidateSource_device (s := s) (c := c) (s.client c).key true
  obtain ⟨⟨t, ok⟩, hv⟩ : ∃ v, esdValidateSource s c (s.client c).key true = v := ⟨_, rfl⟩
  simp only [hv] at hsource
  cases ok with
  | false => simp [esdProtoResume, hv, device_reply, hsource]
  | true =>
    obtain ⟨hresume, hok⟩ := esdServerResume_device (s := t) (env.audioOpen 0)
    rw [hsource] at hresume
    cases hverdict : (esdServerResume t (env.audioOpen 0)).2 with
    | true =>
      simp only [esdProtoResume, hv, if_true, hverdict, device_reply]
      rw [← hresume]
      rfl
    | false =>
      -- A failed open leaves the device as it was.
      have hnone : ¬ (env.audioOpen 0).isSome = true := by
        rw [hverdict] at hok
        exact fun hsome => of_decide_eq_false hok.symm fun _ => hsome
      simp only [esdProtoResume, hv, if_true, hverdict, device_reply, Bool.false_eq_true, if_false]
      rw [hresume, Device.resumed, if_neg fun h => hnone h.2]

theorem giveUpRecorder_device (p : Ptr) : (giveUpRecorder env s p).device =
    { s.device with format := s.device.format &&& ~~~esdRecord }.opened (env.audioOpen 2) := by
  have hfree : (freePlayer s p).device = s.device := freePlayer_device p
  simp only [giveUpRecorder]
  rw [(esdAudioOpen_device _).1, ← hfree]
  rfl

theorem joinRecorders_device (s : Server) (c p : Ptr) : (joinRecorders s c p).1.device =
    { s.device with recorders := p :: s.device.recorders } := rfl

theorem reopenToRecord_device (p : Ptr) (hformat : s.device.format &&& esdRecord = 0#32) :
    (reopenToRecord env s c p).1.device =
      s.device.recording p (env.audioOpen 1) (env.audioOpen 2) := by
  simp only [reopenToRecord, Device.recording, if_pos hformat]
  cases env.audioOpen 1 with
  | some size => rfl
  | none => exact giveUpRecorder_device p

theorem startRecorder_device :
    (startRecorder cfg env s c).1.device = s.device ∨
      s.device.onStandby = false ∧ (startRecorder cfg env s c).1.device =
        s.device.recording env.malloc (env.audioOpen 1) (env.audioOpen 2) := by
  simp only [startRecorder]
  split_ifs with hstandby hnull hformat
  · exact .inl rfl
  · exact .inl (newStreamPlayer_keeps (D := ∅)).device
  all_goals
    refine .inr ⟨Bool.eq_false_of_not_eq_true hstandby, ?_⟩
    rcases newStreamPlayer_cases cfg env s c with h | ⟨v, h, -⟩
    · exact absurd (congrArg Prod.snd h) hnull
    rw [h] at hformat ⊢
  · exact reopenToRecord_device _ hformat
  · have hrecord : ¬ s.device.format &&& esdRecord = 0#32 := hformat
    rw [Device.recording, if_neg hrecord]
    exact joinRecorders_device _ _ _

variable (cfg env) in
theorem esdProtoStreamRecorder_device :
    (esdProtoStreamRecorder cfg env s c).1.device = s.device.woken (env.audioOpen 0) ∨
      (s.device.woken (env.audioOpen 0)).onStandby = false ∧
        (esdProtoStreamRecorder cfg env s c).1.device =
          (s.device.woken (env.audioOpen 0)).recording env.malloc (env.audioOpen 1)
            (env.audioOpen 2) := by
  have hresume := (esdServerResume_device (s := s) (env.audioOpen 0)).1
  simp only [esdProtoStreamRecorder]
  split_ifs with hwake
  · have hwoken : s.device.woken (env.audioOpen 0) =
        (esdServerResume s (env.audioOpen 0)).1.device := by
      rw [hresume]
      exact if_pos hwake
    rw [hwoken]
    exact startRecorder_device
  · have hwoken : s.device.woken (env.audioOpen 0) = s.device := if_neg hwake
    rw [hwoken]
    exact startRecorder_device

theorem eraseFrom_apart (l : PlayerList) (p : Ptr) :
    (eraseFrom s l p).device.apart = s.device.apart := by
  simp only [eraseFrom]
  split_ifs
  · rw [freePlayer_device]
    cases l <;> rfl
  · rfl

theorem recorderOne_apart (poll : Ptr → RecorderPoll) (length : ℤ) (acc : Server × ℤ) (p : Ptr) :
    (recorderOne cfg poll length acc p).1.device.apart = acc.1.device.apart := by
  have hwrite : (writePlayer cfg (poll p) acc.1 p length).1.device = acc.1.device :=
    (writePlayer_idle _ p length).device
  simp only [recorderOne]
  split_ifs
  · simp only [eraseRecorder, eraseFrom_apart, eraseClient_device, hwrite]
  · simp only [hwrite]

variable (cfg) in
theorem foldl_recorderOne_apart (poll : Ptr → RecorderPoll) (length : ℤ) (ps : List Ptr)
    (acc : Server × ℤ) :
    (ps.foldl (recorderOne cfg poll length) acc).1.device.apart = acc.1.device.apart := by
  induction ps generalizing acc with
  | nil => rfl
  | cons p ps ih => exact (ih _).trans (recorderOne_apart poll length acc p)

variable (cfg) in
/-- Recorders may leave, and the rest of the device waits for the last of them. -/
theorem recorderWrite_device (poll : Ptr → RecorderPoll) (reopen : Option ℤ) (length : ℤ) :
    ∃ ps, (recorderWrite cfg poll reopen s length).1.device = s.device.left ps reopen := by
  have hapart := foldl_recorderOne_apart cfg poll length s.esdRecorderList (s, 0)
  simp only [recorderWrite]
  generalize s.esdRecorderList.foldl (recorderOne cfg poll length) (s, 0) = r at hapart ⊢
  refine ⟨r.1.esdRecorderList, ?_⟩
  change r.1.device.apart = s.device.apart at hapart
  split_ifs with hnone
  · rw [Device.left, if_pos hnone, (esdAudioOpen_device reopen).1]
    have hclosed : r.1.device = s.device.apart := by
      rw [← hapart]
      simp only [Device.apart, Server.device, hnone]
    change Device.opened { r.1.device.closed with format := r.1.device.format &&& ~~~esdRecord } reopen = _
    rw [hclosed]
    rfl
  · rw [Device.left, if_neg hnone]
    have hrest : { r.1.device.apart with recorders := r.1.esdRecorderList } =
        { s.device.apart with recorders := r.1.esdRecorderList } := by rw [hapart]
    exact hrest

end Operations

/-! ## Steps -/

/-- What a step of the daemon does to the device. -/
inductive DeviceStep (s : Server) (a : Action) (t : Server) : Prop
  | still (device : t.device = s.device)
  | standby (ok : Bool)
      (device : t.device = if ok then s.device.standby.forced else s.device.forced)
  | resume (c : Ptr) (protoData : List Octet) (ok : Bool) (r : Option ℤ)
      (calls : t.calls = s.calls ++ [.handled c .resume protoData ok])
      (device : t.device =
        if ok then { s.device.resumed r with forcedStandby := false } else s.device)
  | wake (r : Option ℤ) (device : t.device = s.device.woken r)
  | record (p : Ptr) (r r' r'' : Option ℤ) (awake : (s.device.woken r).onStandby = false)
      (device : t.device = (s.device.woken r).recording p r' r'')
  | autostandby (device : t.device = { s.device.standby with onAutostandby := true })
  | leave (ps : List Ptr) (r : Option ℤ) (recording : s.device.recorders ≠ [])
      (awake : s.device.onStandby = false)
      (device : t.device = s.device.left ps r)
  | reconnect (r : Option ℤ) (taken : a = .reconnect r)
      (device : t.device = s.device.closed.opened r)

section Steps

variable {cfg : Config} {env : PollEnv} {c : Ptr} {s t : Server} {a : Action}

theorem device_afterTurn (c : Ptr) (r : Server × Bool) :
    (if r.2 then r.1 else eraseClient r.1 c).device = r.1.device := by
  split_ifs
  · rfl
  · exact eraseClient_device r.1 c

theorem pollClient_device (h : pollClient cfg env s c = some t) :
    DeviceStep s (.poll c env) t := by
  obtain ⟨r, hr, rfl⟩ := Option.map_eq_some_iff.mp h
  have hafter := device_afterTurn c r
  have hcalls := calls_of_ledger (ledger_afterTurn c r)
  cases pollTurn_ends hr with
  | heard _ hheard => exact .still (hafter.trans (hheard.keeps (D := ∅)).device)
  | resumed _ r' hcache =>
    rw [device_record] at hafter
    exact .still (hafter.trans (esdProtoSampleCache_device hcache))
  | handled request u hheard _ _ r' hhandler =>
    have hsame := (hheard.keeps (D := ∅)).device
    rw [device_record] at hafter
    cases request with
    | standby =>
      cases hhandler
      have hstandby := esdProtoStandby_device (s := u) (c := c)
      rw [hsame] at hstandby
      exact .standby _ (hafter.trans hstandby)
    | resume =>
      cases hhandler
      have hresume := esdProtoResume_device env (s := u) (c := c)
      rw [hsame] at hresume
      have hlog : (esdProtoResume env u c).1.calls = s.calls :=
        esdProtoResume_obeys.calls.trans (calls_of_ledger hheard.ledger)
      refine .resume c (load (u.client c).protoData 0 Proto.resume.dataLength.toNat) _
        (env.audioOpen 0) ?_ (hafter.trans hresume)
      rw [hcalls, ← hlog]
      rfl
    | streamRec =>
      cases hhandler
      have hrecorder := esdProtoStreamRecorder_device cfg env (s := u) (c := c)
      rw [hsame] at hrecorder
      rcases hrecorder with hrecorder | ⟨hawake, hrecorder⟩
      · exact .wake _ (hafter.trans hrecorder)
      · exact .record _ _ _ _ hawake (hafter.trans hrecorder)
    | sampleCache =>
      exact .still (hafter.trans ((esdProtoSampleCache_device hhandler).trans hsame))
    | _ =>
      have hother := (handler_keeps id hhandler).device
      exact .still (hafter.trans (hother.trans hsame))

theorem step_device (h : step cfg s a = some t) : DeviceStep s a t := by
  obtain ⟨hen, h⟩ := step_eq_some h
  cases a with
  | accept c fd socket => cases h; exact .still rfl
  | poll c env => exact pollClient_device h
  | refresh => cases h; exact .still (refreshMixFuncs_keeps (D := ∅)).device
  | mix canRead => cases h; exact .still (mixPlayers_keeps (Set.mem_univ _) canRead).device
  | wake reopen =>
    cases h
    refine .wake reopen ?_
    rw [(esdServerResume_device reopen).1]
    exact (if_pos hen).symm
  | filter canRead size => cases h; exact .still (filterWrite_keeps (Set.mem_univ _) canRead size).device
  | monitor canWrite length => cases h; exact .still (monitorWrite_keeps (Set.mem_univ _) canWrite length).device
  | recorder ready reopen block length =>
    cases h
    obtain ⟨ps, hleft⟩ := recorderWrite_device cfg
      (s := { s with outputBuffer := store s.outputBuffer 0 block }) ready reopen length
    exact .leave ps reopen hen.1 hen.2.1 hleft
  | autostandby =>
    cases h
    refine .autostandby ?_
    rw [← esdServerStandby_device]
    rfl
  | reconnect reopen => cases h; exact .reconnect reopen rfl (esdAudioOpen_device reopen).1
  | reset scrambled => cases h; exact .still (resetDaemon_device scrambled)

theorem step_standby (hw : s.objects.WellFormed) (h : step cfg s a = some t) {c : Ptr}
    {protoData : List Octet} {ok : Bool} (hcalls : t.calls = s.calls ++ [.handled c .standby protoData ok]) :
    t.device = if ok then s.device.standby.forced else s.device.forced := by
  by_cases hquiet : a.Quiet
  · have hsame := calls_of_ledger (step_does hw h hquiet).ledger
    simp [hsame] at hcalls
  obtain ⟨hen, h⟩ := step_eq_some h
  cases a with
  | accept c fd socket =>
    cases h
    simp [getNewClient, addNewClient, Server.record, Server.setClient] at hcalls
  | poll d env =>
    obtain ⟨hd, fresh, samples⟩ := hen
    obtain ⟨r, hr, rfl⟩ := Option.map_eq_some_iff.mp h
    have hafter := device_afterTurn d r
    rw [calls_of_ledger (ledger_afterTurn d r)] at hcalls
    cases pollTurn_ends hr with
    | heard _ hheard =>
      rw [hheard.rest] at hcalls
      simp at hcalls
    | resumed hcaching r' hcache =>
      have hserves : Serves cfg d True s r' :=
        esdProtoSampleCache_serves (by simp [hcaching]) samples hcache
      simp [Server.record, calls_of_ledger (hserves.ledger trivial)] at hcalls
    | handled request u hheard active hstate r' hhandler =>
      have state : (u.client d).state ≠ .streamingData := by simp [hstate]
      have heffects : Effects cfg (.turn d) s.objects u.objects := hheard.effects active state
      obtain ⟨hclients, hplayers, hsamples⟩ := hheard.lists
      have hlog := calls_of_ledger hheard.ledger
      have hobeys := handler_obeys (heffects.wellFormed hw) (by rwa [hclients])
        (by rwa [hplayers]) (by rwa [hsamples]) state hhandler
      have hsame : u.device = s.device := (hheard.keeps (D := ∅)).device
      simp only [Server.record, hobeys.calls, hlog, List.append_cancel_left_eq, List.cons.injEq,
        Call.handled.injEq, and_true] at hcalls
      obtain ⟨-, rfl, -, rfl⟩ := hcalls
      cases hhandler
      rw [device_record, esdProtoStandby_device, hsame] at hafter
      exact hafter
  | reset scrambled =>
    cases h
    have hsame : (resetDaemon s scrambled).calls = s.calls :=
      congrArg Ledger.calls (resetDaemon_ledger s scrambled)
    simp [hsame] at hcalls
  | _ => exact absurd trivial hquiet

end Steps

end Esound
