import Esound.Refinement

/-!
# The handlers do effects

The protocol, seen from the objects. A handler may touch the protocol state of its own
client and the object it allocates, nothing else. It is entered with its client
listed and not streaming; a handler that turns the client into a streaming one does
not fail afterwards, so that a client whose turn went wrong can be erased without
leaving a player behind.
-/

open Library.Buffer Library.Loop Library.Transition Relation

namespace Esound

/-! ## Samples -/

section Samples

variable {cfg : Config} {F : Footprint} {env : PollEnv} {s : Server} {q : Ptr}

theorem readSampleRound_srv {r r' : ReadSample} (h : readSampleRound cfg q r = some r') :
    Does cfg F r.srv r'.srv ∧ r'.srv.client = r.srv.client := by
  unfold readSampleRound at h
  simp only at h
  split_ifs at h
  split at h
  · cases h
    exact ⟨sysRead_does _ _ _, rfl⟩
  · cases h
    exact ⟨sysRead_does _ _ _, rfl⟩
  · split_ifs at h <;> cases h
    · exact ⟨sysRead_does _ _ _, rfl⟩
    · exact ⟨(sysRead_does _ _ _).trans (setSampleData_does _ _ _), rfl⟩

theorem readSample_loop (n : ℕ) (total : ℤ) (s : Server) :
    Does cfg F s (whileFuel (readSampleRound cfg q) n ⟨s, total, true, false⟩).srv ∧
      (whileFuel (readSampleRound cfg q) n ⟨s, total, true, false⟩).srv.client = s.client :=
  whileFuel_related
    (fun r r' : ReadSample => Does cfg F r.srv r'.srv ∧ r'.srv.client = r.srv.client)
    (fun r => ⟨.refl r.srv, rfl⟩)
    (fun _ _ _ h h' => ⟨h.1.trans h'.1, h'.2.trans h.2⟩)
    (fun _ _ h => readSampleRound_srv h) n
    ⟨s, total, true, false⟩

theorem readSample_does : Does cfg F s (readSample cfg s q).1 := by
  unfold readSample
  simp only
  split_ifs
  · exact (readSample_loop _ _ s).1
  · exact (readSample_loop _ _ s).1.trans (setSample_does _ rfl rfl rfl)

variable (cfg) in
theorem readSample_client : (readSample cfg s q).1.client = s.client := by
  unfold readSample
  simp only
  split_ifs
  · exact (readSample_loop (F := .empty) _ _ s).2
  · exact (readSample_loop (F := .empty) _ _ s).2

theorem objects_addSample :
    (addSample s q).objects = { s.objects with samples := q :: s.objects.samples } :=
  rfl

/-- A sample that is made is not listed yet; one that is not made may cost an id. -/
theorem newSample_cases {c : Ptr} (fresh : env.malloc ∉ s.esdSamplesList) :
    ((newSample cfg env s c).2 = 0 ∧ Does cfg F s (newSample cfg env s c).1 ∨
      (newSample cfg env s c).2 ≠ 0 ∧
        Does cfg F s (addSample (newSample cfg env s c).1 (newSample cfg env s c).2)) ∧
      (newSample cfg env s c).1.client = s.client := by
  unfold newSample
  simp only
  split_ifs with hnull hroom
  · exact ⟨.inl ⟨rfl, .refl s⟩, rfl⟩
  · refine ⟨.inr ⟨hnull, ?_, rfl⟩, rfl⟩
    rw [objects_addSample, Server.writeInt, objects_sysWrite]
    exact .single (.newSample env.malloc _ fresh rfl rfl rfl)
  · exact ⟨.inl ⟨rfl, .single .skipId rfl⟩, rfl⟩

end Samples

/-! ## Players -/

section Players

variable {cfg : Config} {F : Footprint} {env : PollEnv} {s : Server} {c p : Ptr}

theorem isStream_and_not (x : Word) : x &&& ~~~esdMaskMode &&& esdMaskMode = esdStream := by
  have hzero : ~~~esdMaskMode &&& esdMaskMode = 0#32 := by decide
  rw [BitVec.and_assoc, hzero, BitVec.and_zero]
  rfl

theorem newStreamPlayer_cases (cfg : Config) (env : PollEnv) (s : Server) (c : Ptr) :
    newStreamPlayer cfg env s c = (s, 0) ∨
      ∃ v : EsdPlayer, newStreamPlayer cfg env s c = (s.setPlayer env.malloc v, env.malloc) ∧
        env.malloc ≠ 0 ∧ v.IsStream ∧ v.parent = 0 ∧ v.sourceId = (s.client c).fd ∧
          v.actualLength = 0 ∧ 0 ≤ v.bufferLength := by
  unfold newStreamPlayer
  simp only
  split_ifs with hnull hroom
  · exact .inl rfl
  · split
    · exact .inl rfl
    · exact .inr ⟨_, rfl, hnull, isStream_and_not _, rfl, rfl, rfl, hroom.2⟩
  · split <;> exact .inl rfl

theorem setPlayer_setPlayer (v w : EsdPlayer) :
    (s.setPlayer p v).setPlayer p w = s.setPlayer p w := by
  simp [Server.setPlayer]

theorem setPlayer_self (v : EsdPlayer) : (s.setPlayer p v).player p = v := by
  simp [Server.setPlayer]

theorem setPlayer_pushTo (l : PlayerList) (v : EsdPlayer) :
    (pushTo s l p).setPlayer p v = pushTo (s.setPlayer p v) l p := by
  cases l <;> rfl

theorem pushTo_client (l : PlayerList) : (pushTo s l p).client = s.client := by
  cases l <;> rfl

theorem pushTo_player (l : PlayerList) : (pushTo s l p).player = s.player := by
  cases l <;> rfl

theorem objects_setClient (s : Server) (c : Ptr) (v : EsdClient) :
    (s.setClient c v).objects = s.objects.setClient c v := rfl

theorem objects_setPlayer (s : Server) (p : Ptr) (v : EsdPlayer) :
    (s.setPlayer p v).objects = s.objects.setPlayer p v := rfl

theorem openStream_does {l : PlayerList} {v : EsdPlayer} (touched : c ∈ F.clients)
    (listed : c ∈ s.esdClientsList) (state : (s.client c).state ≠ .streamingData)
    (fresh : p ∉ s.allPlayers) (mode : v.IsStream) (parent : v.parent = c)
    (sourceId : v.sourceId = (s.client c).fd) (empty : v.actualLength = 0)
    (room : 0 ≤ v.bufferLength) :
    Does cfg F s (setStreaming (pushTo (s.setPlayer p v) l p) c) := by
  have hmove : Effect cfg F s.objects _ := .openStream l c p v touched listed state
    (unlisted_of_notMem fresh) mode parent sourceId empty room
  have hobj : (setStreaming (pushTo (s.setPlayer p v) l p) c).objects =
      ((s.objects.setPlayer p v).setList l (p :: s.objects.lists l)).setClient c
        { s.objects.client c with state := .streamingData } := by
    rw [setStreaming, pushTo_client, objects_setClient, pushTo, objects_setList, objects_setPlayer]
    rfl
  refine ⟨?_, ?_⟩
  · rw [hobj]
    exact .single hmove
  · cases l <;> rfl

theorem setParent_setPlayer (v : EsdPlayer) :
    setParent (s.setPlayer p v) p c = s.setPlayer p { v with parent := c } := by
  unfold setParent
  rw [setPlayer_self, setPlayer_setPlayer]

theorem setParent_pushTo (l : PlayerList) :
    setParent (pushTo s l p) p c = pushTo (s.setPlayer p { s.player p with parent := c }) l p := by
  unfold setParent
  rw [setPlayer_pushTo, pushTo_player]

theorem setTranslateFunc_pushTo (l : PlayerList) (v : EsdPlayer) :
    setTranslateFunc (pushTo (s.setPlayer p v) l p) p =
      pushTo (s.setPlayer p
        { v with translateFunc := some (getTranslateFunc s.esdAudioFormat) }) l p := by
  unfold setTranslateFunc
  rw [setPlayer_pushTo, pushTo_player, setPlayer_self, setPlayer_setPlayer]
  cases l <;> rfl

theorem samplePlayerFormat_mode (format : Word) (loop : Bool) :
    samplePlayerFormat format loop &&& esdMaskMode = esdSample := by
  have hsample : ((format &&& ~~~esdMaskMode) ||| esdSample) &&& esdMaskMode = esdSample := by
    rw [BitVec.and_or_distrib_right, isStream_and_not]
    decide
  cases loop with
  | false => exact hsample
  | true =>
    have hmask : ~~~esdMaskFunc &&& esdMaskMode = esdMaskMode := by decide
    have hzero : esdLoop &&& esdMaskMode = 0#32 := by decide
    simp only [samplePlayerFormat, if_true]
    rw [BitVec.and_or_distrib_right, BitVec.and_assoc, hmask, hzero, BitVec.or_zero]
    exact hsample

variable (cfg) in
theorem newSamplePlayer_cases (id : ℤ) (loop : Bool) (fresh : env.malloc ∉ s.allPlayers) :
    newSamplePlayer cfg env s id loop = (s, 0) ∨
      (newSamplePlayer cfg env s id loop).2 ≠ 0 ∧
        Does cfg F s (addPlayer (newSamplePlayer cfg env s id loop).1
          (newSamplePlayer cfg env s id loop).2) ∧
        (newSamplePlayer cfg env s id loop).1.client = s.client := by
  unfold newSamplePlayer
  split
  · exact .inl rfl
  · rename_i q hfind
    have hlisted : q ∈ s.esdSamplesList := List.mem_of_find?_eq_some hfind
    simp only
    split_ifs with hnull hroom
    · exact .inl rfl
    · split
      · exact .inl rfl
      · refine .inr ⟨hnull, ?_, rfl⟩
        refine ⟨?_, rfl⟩
        unfold addPlayer pushTo
        rw [objects_setList]
        exact .single (.startSample q env.malloc _ hlisted (unlisted_of_notMem fresh)
          (samplePlayerFormat_mode _ _) rfl rfl hroom.2)
    · split <;> exact .inl rfl

theorem playSample_does (id : ℤ) (loop : Bool) (fresh : env.malloc ∉ s.allPlayers) :
    Does cfg F s (playSample cfg env s id loop).1 ∧
      (playSample cfg env s id loop).1.client = s.client := by
  unfold playSample
  rcases newSamplePlayer_cases cfg (F := F) id loop fresh with h | ⟨hne, hdoes, hclient⟩
  · simp only [h]
    exact ⟨.refl s, rfl⟩
  · simp only [hne, if_false]
    exact ⟨hdoes, hclient⟩

variable (cfg) in
theorem stopSample_does (id : ℤ) :
    Does cfg F s (stopSample s id).1 ∧ (stopSample s id).1.client = s.client := by
  unfold stopSample
  split
  · exact ⟨.refl s, rfl⟩
  · refine ⟨setPlayer_does s ⟨rfl, rfl, rfl, rfl, ?_⟩ (.inl rfl), rfl⟩
    have hstop : esdStop &&& 0xFFF#32 = 0#32 := by decide
    have hmask : ~~~esdMaskFunc &&& 0xFFF#32 = 0xFFF#32 := by decide
    rw [BitVec.and_or_distrib_right, hstop, BitVec.or_zero, BitVec.and_assoc, hmask]

end Players

/-! ## Handlers -/

/-- The requests that are about the key, and may change what the daemon knows of it. -/
def Proto.Authorizes : Proto → Prop
  | connect | lock | unlock | standby | resume => True
  | _ => False

instance (r : Proto) : Decidable r.Authorizes := by
  cases r <;> unfold Proto.Authorizes <;> infer_instance

/-- What the handlers have in common. -/
structure Serves (cfg : Config) (c : Ptr) (quiet : Prop) (s : Server)
    (r : Server × Bool) : Prop where
  effects : Effects cfg (.turn c) s.objects r.1.objects
  ledger : quiet → r.1.ledger = s.ledger
  record : ∃ state swap,
    r.1.client c = { s.client c with state := state, swapByteOrder := swap }
  state : r.2 = false → (r.1.client c).state ≠ .streamingData

section Serves

variable {cfg : Config} {env : PollEnv} {c : Ptr} {quiet : Prop} {s : Server} {r : Server × Bool}

theorem Serves.of_does (h : Does cfg (.turn c) s r.1) (hclient : r.1.client = s.client)
    (state : (s.client c).state ≠ .streamingData) : Serves cfg c quiet s r where
  effects := h.effects
  ledger _ := h.ledger
  record := ⟨_, _, congrFun hclient c⟩
  state _ := by rwa [hclient]

theorem Serves.mono {quiet' : Prop} (h : Serves cfg c quiet s r) (hq : quiet' → quiet) :
    Serves cfg c quiet' s r :=
  ⟨h.effects, fun h' => h.ledger (hq h'), h.record, h.state⟩

/-- What comes before a handler's own work leaves the clients alone. -/
theorem Serves.after {t : Server} (h : Does cfg (.turn c) s t)
    (hclient : t.client = s.client) (h' : Serves cfg c quiet t r) :
    Serves cfg c quiet s r where
  effects := h.effects.trans h'.effects
  ledger hq := (h'.ledger hq).trans h.ledger
  record := hclient ▸ h'.record
  state := h'.state

theorem reply_does {F : Footprint} (x : ℤ) : Does cfg F s (reply s c x).1 := sysWrite_does s _ _

theorem esdValidateSource_frame (key : List Octet) (ownerOnly : Bool) :
    (esdValidateSource s c key ownerOnly).1.objects = s.objects ∧
      (esdValidateSource s c key ownerOnly).1.client = s.client := by
  unfold esdValidateSource
  simp only
  split_ifs <;> exact ⟨objects_sysWrite _ _ _, rfl⟩

theorem objects_lock (b : Bool) : ({ s with esdIsLocked := b } : Server).objects = s.objects :=
  rfl

theorem objects_force (b : Bool) :
    ({ s with esdForcedStandby := b } : Server).objects = s.objects :=
  rfl

variable (state : (s.client c).state ≠ .streamingData)

include state

theorem Serves.of_objects (hobj : r.1.objects = s.objects) : Serves cfg c False s r where
  effects := hobj ▸ .refl
  ledger h := h.elim
  record := ⟨_, _, congrFun (congrArg Objects.client hobj) c⟩
  state _ := by
    have hclient : r.1.client = s.client := congrArg Objects.client hobj
    rwa [hclient]

theorem esdProtoUnimplemented_serves :
    Serves cfg c quiet s (esdProtoUnimplemented s c) :=
  .of_does (.refl s) rfl state

/-! ### Authorization -/

theorem esdProtoConnect_serves : Serves cfg c False s (esdProtoConnect s c) := by
  obtain ⟨hobj, hclient⟩ := esdValidateSource_frame (s := s) (c := c) (s.client c).key false
  unfold esdProtoConnect
  simp only
  split
  · rename_i t heq
    have ht : t = (esdValidateSource s c (s.client c).key false).1 := by rw [heq]
    rw [← ht] at hobj hclient
    have hendian : ∀ b, Serves cfg c False s
        (t.setClient c { t.client c with swapByteOrder := b }, true) := by
      intro b
      refine ⟨?_, False.elim, ⟨(s.client c).state, b, ?_⟩, ?_⟩
      · rw [← hobj]
        have hswap := setClient_does cfg (F := .turn c) t
          (v := { t.client c with swapByteOrder := b }) (Set.mem_singleton c) Iff.rfl rfl
        exact hswap.effects
      · simp [Server.setClient, hclient]
      · exact fun h => Bool.noConfusion h
    unfold esdCheckEndian
    split_ifs
    · exact hendian false
    · exact hendian true
    · exact .of_objects state hobj
  · rename_i t heq
    have ht : t = (esdValidateSource s c (s.client c).key false).1 := by rw [heq]
    exact .of_objects state (ht ▸ hobj)

omit state in
theorem objects_esdProtoLock : (esdProtoLock s c).1.objects = s.objects := by
  have hobj := (esdValidateSource_frame (s := s) (c := c) (s.client c).key true).1
  unfold esdProtoLock
  generalize esdValidateSource s c (s.client c).key true = v at hobj ⊢
  simp only [reply, Server.writeInt, objects_sysWrite]
  split_ifs
  · rw [objects_lock, hobj]
  · exact hobj

omit state in
theorem objects_esdProtoUnlock : (esdProtoUnlock s c).1.objects = s.objects := by
  have hobj := (esdValidateSource_frame (s := s) (c := c) (s.client c).key true).1
  unfold esdProtoUnlock
  generalize esdValidateSource s c (s.client c).key true = v at hobj ⊢
  simp only [reply, Server.writeInt, objects_sysWrite]
  split_ifs
  · rw [objects_lock, hobj]
  · exact hobj

omit state in
theorem objects_esdServerStandby : (esdServerStandby s).1.objects = s.objects := by
  unfold esdServerStandby
  split_ifs <;> rfl

omit state in
theorem objects_esdServerResume (r : Option ℤ) : (esdServerResume s r).1.objects = s.objects := by
  unfold esdServerResume
  split_ifs
  · cases r <;> rfl
  · rfl

omit state in
theorem objects_esdProtoStandby : (esdProtoStandby s c).1.objects = s.objects := by
  have hobj := (esdValidateSource_frame (s := s) (c := c) (s.client c).key true).1
  unfold esdProtoStandby
  generalize esdValidateSource s c (s.client c).key true = v at hobj ⊢
  obtain ⟨t, ok⟩ := v
  cases ok with
  | false =>
    simp only [reply, Server.writeInt, objects_sysWrite, Bool.false_eq_true, if_false]
    split_ifs
    · rw [objects_force, hobj]
    · exact hobj
  | true =>
    simp only [reply, Server.writeInt, objects_sysWrite, if_true]
    split_ifs
    · rw [objects_force, objects_esdServerStandby, hobj]
    · rw [objects_esdServerStandby, hobj]

omit state in
theorem objects_esdProtoResume : (esdProtoResume env s c).1.objects = s.objects := by
  have hobj := (esdValidateSource_frame (s := s) (c := c) (s.client c).key true).1
  unfold esdProtoResume
  generalize esdValidateSource s c (s.client c).key true = v at hobj ⊢
  obtain ⟨t, ok⟩ := v
  cases ok with
  | false =>
    simp only [reply, Server.writeInt, objects_sysWrite, Bool.false_eq_true, if_false]
    exact hobj
  | true =>
    simp only [reply, Server.writeInt, objects_sysWrite, if_true]
    split_ifs
    · rw [objects_force, objects_esdServerResume, hobj]
    · rw [objects_esdServerResume, hobj]

theorem esdProtoLock_serves : Serves cfg c False s (esdProtoLock s c) :=
  .of_objects state objects_esdProtoLock

theorem esdProtoUnlock_serves : Serves cfg c False s (esdProtoUnlock s c) :=
  .of_objects state objects_esdProtoUnlock

theorem esdProtoStandby_serves : Serves cfg c False s (esdProtoStandby s c) :=
  .of_objects state objects_esdProtoStandby

theorem esdProtoResume_serves : Serves cfg c False s (esdProtoResume env s c) :=
  .of_objects state objects_esdProtoResume

/-! ### Streams -/

variable (hc : c ∈ s.esdClientsList) (fresh : env.malloc ∉ s.allPlayers)

include hc fresh

theorem openStream_serves {l : PlayerList} {v : EsdPlayer} (mode : v.IsStream)
    (parent : v.parent = c) (sourceId : v.sourceId = (s.client c).fd) (empty : v.actualLength = 0)
    (room : 0 ≤ v.bufferLength) :
    Serves cfg c quiet s
      (setStreaming (pushTo (s.setPlayer env.malloc v) l env.malloc) c, true) := by
  have hopen : Does cfg (.turn c) s
      (setStreaming (pushTo (s.setPlayer env.malloc v) l env.malloc) c) :=
    openStream_does (Set.mem_singleton c) hc state fresh mode parent sourceId empty room
  refine ⟨hopen.effects, fun _ => hopen.ledger, ⟨.streamingData, (s.client c).swapByteOrder, ?_⟩,
    fun h => Bool.noConfusion h⟩
  have hclient : (pushTo (s.setPlayer env.malloc v) l env.malloc).client = s.client :=
    pushTo_client l
  simp [setStreaming, Server.setClient, hclient]

theorem esdProtoStreamPlay_serves :
    Serves cfg c quiet s (esdProtoStreamPlay cfg env s c) := by
  unfold esdProtoStreamPlay
  rcases newStreamPlayer_cases cfg env s c with h | ⟨v, h, hnull, mode, -, fd, empty, room⟩
  · simp only [h, if_true]
    exact .of_does (.refl s) rfl state
  · simp only [h, hnull, if_false, setParent_setPlayer]
    exact openStream_serves (l := .players) state hc fresh mode rfl fd empty room

theorem esdProtoStreamMonitor_serves :
    Serves cfg c quiet s (esdProtoStreamMonitor cfg env s c) := by
  unfold esdProtoStreamMonitor
  rcases newStreamPlayer_cases cfg env s c with h | ⟨v, h, hnull, mode, -, fd, empty, room⟩
  · simp only [h, if_true]
    exact .of_does (.refl s) rfl state
  · simp only [h, hnull, if_false, setParent_setPlayer, setTranslateFunc_pushTo]
    exact openStream_serves state hc fresh mode rfl fd empty room

theorem esdProtoStreamFilter_serves :
    Serves cfg c quiet s (esdProtoStreamFilter cfg env s c) := by
  unfold esdProtoStreamFilter
  rcases newStreamPlayer_cases cfg env s c with h | ⟨v, h, hnull, mode, -, fd, empty, room⟩
  · simp only [h, if_true]
    exact .of_does (.refl s) rfl state
  · simp only [h, hnull, if_false, setParent_setPlayer]
    exact openStream_serves state hc fresh mode rfl fd empty room

theorem joinRecorders_serves (mode : (s.player env.malloc).IsStream)
    (sourceId : (s.player env.malloc).sourceId = (s.client c).fd)
    (empty : (s.player env.malloc).actualLength = 0)
    (room : 0 ≤ (s.player env.malloc).bufferLength) :
    Serves cfg c quiet s (joinRecorders s c env.malloc) := by
  unfold joinRecorders addRecorder
  rw [setParent_pushTo, setTranslateFunc_pushTo]
  exact openStream_serves state hc fresh mode rfl sourceId empty room

omit state hc fresh in
/-- The recorder that is given up has no client yet, so that no client is erased. -/
theorem freePlayer_orphan_does {F : Footprint} {t : Server} {p : Ptr}
    (hw : t.objects.WellFormed) (mode : (t.player p).IsStream) (parent : (t.player p).parent = 0)
    (unlisted : t.objects.Unlisted p) : Does cfg F t (freePlayer t p) ∧ (freePlayer t p).client = t.client := by
  have hobj := objects_freePlayer_stream t mode
  have herase : t.esdClientsList.erase 0 = t.esdClientsList :=
    List.erase_of_not_mem hw.client_ne_null
  rw [parent, herase] at hobj
  refine ⟨⟨?_, ledger_freePlayer t p⟩, congrArg Objects.client hobj⟩
  rw [hobj]
  refine .single (.account (droppedOf t p) ?_)
  intro p' hp'
  rw [← Option.mem_some_iff.mp hp']
  exact .inr unlisted

omit state hc fresh in
theorem giveUpRecorder_does {F : Footprint} {t : Server} {p : Ptr}
    (hw : t.objects.WellFormed) (mode : (t.player p).IsStream) (parent : (t.player p).parent = 0)
    (unlisted : t.objects.Unlisted p) :
    Does cfg F t (giveUpRecorder env t p) ∧ (giveUpRecorder env t p).client = t.client := by
  obtain ⟨hfree, hclient⟩ := freePlayer_orphan_does hw mode parent unlisted
  refine ⟨(hfree.trans (esdAudioFormat_does _)).trans (esdAudioOpen_does _), ?_⟩
  unfold giveUpRecorder
  cases env.audioOpen 2 <;> exact hclient

theorem reopenToRecord_serves (hw : s.objects.WellFormed)
    (mode : (s.player env.malloc).IsStream) (parent : (s.player env.malloc).parent = 0)
    (sourceId : (s.player env.malloc).sourceId = (s.client c).fd)
    (empty : (s.player env.malloc).actualLength = 0)
    (room : 0 ≤ (s.player env.malloc).bufferLength) :
    Serves cfg c quiet s (reopenToRecord env s c env.malloc) := by
  let t : Server :=
    { esdAudioClose s with esdAudioFormat := (esdAudioClose s).esdAudioFormat ||| esdRecord }
  have ht : Does cfg (.turn c) s t := .same rfl rfl
  unfold reopenToRecord
  simp only
  cases env.audioOpen 1 with
  | some size =>
    let u : Server := { t with audioFd := some t.esdAudioFormat, esdWriteSize := size }
    have hu : Does cfg (.turn c) s u := .same rfl rfl
    exact .after hu rfl (joinRecorders_serves (s := u) state hc fresh mode sourceId empty room)
  | none =>
    obtain ⟨hdoes, hclient⟩ := giveUpRecorder_does (F := .turn c)
      (t := t) hw mode parent (unlisted_of_notMem fresh)
    exact .of_does (ht.trans hdoes) hclient state

theorem startRecorder_serves (hw : s.objects.WellFormed) :
    Serves cfg c quiet s (startRecorder cfg env s c) := by
  unfold startRecorder
  rcases newStreamPlayer_cases cfg env s c with h | ⟨v, h, hnull, mode, parent, fd, empty, room⟩
  · simp only [h, if_true]
    split_ifs <;> exact .of_does (.refl s) rfl state
  · let t : Server := s.setPlayer env.malloc v
    have ht : Does cfg (.turn c) s t :=
      .single (.scribble env.malloc v (unlisted_of_notMem fresh)) rfl
    have hv : t.player env.malloc = v := setPlayer_self v
    rw [← hv] at mode parent fd empty room
    simp only [h, hnull, if_false]
    split_ifs
    · exact .of_does (.refl s) rfl state
    · exact .after ht rfl (reopenToRecord_serves (s := t) state hc fresh (ht.wellFormed hw) mode
        parent fd empty room)
    · exact .after ht rfl (joinRecorders_serves (s := t) state hc fresh mode fd empty room)

theorem esdProtoStreamRecorder_serves (hw : s.objects.WellFormed) :
    Serves cfg c quiet s (esdProtoStreamRecorder cfg env s c) := by
  unfold esdProtoStreamRecorder
  split_ifs
  · have hwake := esdServerResume_does cfg (F := .turn c) (s := s)
      (env.audioOpen 0)
    have hobj := objects_esdServerResume (s := s) (env.audioOpen 0)
    have hclient : (esdServerResume s (env.audioOpen 0)).1.client = s.client :=
      congrArg Objects.client hobj
    have hlist : (esdServerResume s (env.audioOpen 0)).1.esdClientsList = s.esdClientsList :=
      congrArg Objects.clients hobj
    refine .after hwake hclient (startRecorder_serves ?_ ?_ ?_ (hobj ▸ hw))
    · rwa [hclient]
    · rwa [hlist]
    · have hlists : (esdServerResume s (env.audioOpen 0)).1.list = s.list :=
        congrArg Objects.lists hobj
      simpa only [mem_allPlayers, hlists] using fresh
  · exact startRecorder_serves state hc fresh hw

/-! ### Samples -/

omit hc fresh state in
theorem replyId_serves {t : Server} (h : Does cfg (.turn c) s t)
    (hclient : t.client = s.client) (state : (s.client c).state ≠ .streamingData) :
    Serves cfg c quiet s (replyId t c) :=
  .of_does (h.trans (sysWrite_does t _ _)) hclient state

omit hc fresh in
theorem esdProtoSampleFree_serves : Serves cfg c quiet s (esdProtoSampleFree s c) := by
  refine replyId_serves (eraseSample_does s _) ?_ state
  have hclient := congrArg Objects.client (objects_eraseSample s ((s.client c).param 0))
  obtain ⟨qs, f, he⟩ := s.objects.eraseSample_frame ((s.client c).param 0)
  rw [he] at hclient
  exact hclient

omit hc in
theorem esdProtoSamplePlay_serves : Serves cfg c quiet s (esdProtoSamplePlay cfg env s c) :=
  replyId_serves (playSample_does _ _ fresh).1
    (playSample_does (F := .empty) _ _ fresh).2 state

omit hc in
theorem esdProtoSampleLoop_serves : Serves cfg c quiet s (esdProtoSampleLoop cfg env s c) :=
  replyId_serves (playSample_does _ _ fresh).1
    (playSample_does (F := .empty) _ _ fresh).2 state

omit hc fresh in
theorem esdProtoSampleStop_serves : Serves cfg c quiet s (esdProtoSampleStop s c) :=
  replyId_serves (stopSample_does cfg _).1 (stopSample_does cfg (F := .empty) _).2 state

omit hc fresh in
theorem esdProtoSampleGetid_serves : Serves cfg c quiet s (esdProtoSampleGetid s c) := by
  unfold esdProtoSampleGetid
  simp only
  split
  · exact .of_does (reply_does _) rfl state
  · exact .of_does (reply_does _) rfl state

omit hc fresh in
variable (cfg) in
theorem setState_serves {v : ClientState} (hv : v ≠ .streamingData) {ok : Bool} :
    Serves cfg c quiet s (s.setClient c { s.client c with state := v }, ok) where
  effects := (setClient_does cfg (F := .turn c) s
    (v := { s.client c with state := v }) (Set.mem_singleton c) (by simp [hv, state]) rfl).effects
  ledger _ := rfl
  record := ⟨v, (s.client c).swapByteOrder, by simp [Server.setClient]⟩
  state _ := by simpa [Server.setClient] using hv

omit hc fresh state in
theorem Serves.reply {x : ℤ} {t : Server} {ok : Bool} (h : Serves cfg c quiet s (t, ok)) :
    Serves cfg c quiet s ((reply t c x).1, ok) where
  effects := h.effects.trans (reply_does x).effects
  ledger := h.ledger
  record := h.record
  state := h.state

omit hc fresh in
theorem cacheInto_serves (q : Ptr) : Serves cfg c quiet s (cacheInto cfg s c q) := by
  have hparent : Does cfg (.turn c) s
      (s.setSample q { s.sample q with parent := c }) := setSample_does s rfl rfl rfl
  have hread := hparent.trans (readSample_does (q := q))
  have hclient := readSample_client cfg (q := q)
    (s := s.setSample q { s.sample q with parent := c })
  unfold cacheInto
  simp only
  split
  · rename_i t heq
    rw [heq] at hread hclient
    exact .of_does hread hclient state
  · rename_i t heq
    rw [heq] at hread hclient
    have state' : (t.client c).state ≠ .streamingData := by rwa [hclient]
    split_ifs
    · exact .after hread hclient (setState_serves cfg state' (by decide))
    · exact .after hread hclient (setState_serves cfg state' (by decide)).reply

omit hc fresh in
theorem esdProtoSampleCache_serves (samples : env.malloc ∉ s.esdSamplesList)
    (h : esdProtoSampleCache cfg env s c = some r) : Serves cfg c quiet s r := by
  unfold esdProtoSampleCache at h
  split_ifs at h
  · split at h
    · cases h
    · split_ifs at h <;> cases h
      · exact .of_does (.refl s) rfl state
      · exact cacheInto_serves state _
  · obtain ⟨hcases, hclient⟩ := newSample_cases (F := .turn c) (c := c)
      samples
    simp only at h
    rcases hcases with ⟨hnull, hdoes⟩ | ⟨hnull, hdoes⟩
    · rw [if_pos hnull] at h
      cases h
      exact .of_does hdoes hclient state
    · rw [if_neg hnull] at h
      cases h
      refine .after hdoes hclient (cacheInto_serves ?_ _)
      change ((newSample cfg env s c).1.client c).state ≠ .streamingData
      rwa [hclient]

/-! ### Information and panning -/

omit hc fresh state in
theorem writeAll_client (fd : ℤ) (rows : List (List Octet)) :
    (writeAll s fd rows).1.client = s.client := by
  induction rows generalizing s with
  | nil => rfl
  | cons bs rest ih =>
    cases rest with
    | nil => rfl
    | cons bs' rest => exact ih (s := (s.sysWrite fd bs).1)

omit hc fresh state in
variable (cfg) in
theorem writeAll_does {F : Footprint} (fd : ℤ) (rows : List (List Octet)) :
    Does cfg F s (writeAll s fd rows).1 := by
  induction rows generalizing s with
  | nil => exact .refl s
  | cons bs rest ih =>
    cases rest with
    | nil => exact sysWrite_does s fd bs
    | cons bs' rest => exact (sysWrite_does s fd bs).trans (ih (s := (s.sysWrite fd bs).1))

omit hc fresh state in
theorem writePlayers_client (cl : EsdClient) (ps : List Ptr) (scales : Word × Word) :
    (writePlayers cl ps scales s).1.client = s.client := by
  induction ps generalizing s scales with
  | nil =>
    simp only [writePlayers]
    exact writeAll_client _ _
  | cons p ps ih =>
    simp only [writePlayers]
    split_ifs
    · exact (ih _).trans (writeAll_client cl.fd _)
    · exact writeAll_client _ _

omit hc fresh state in
theorem writePlayers_does {F : Footprint} (cl : EsdClient) (ps : List Ptr) (scales : Word × Word) :
    Does cfg F s (writePlayers cl ps scales s).1 := by
  induction ps generalizing s scales with
  | nil =>
    simp only [writePlayers]
    exact writeAll_does cfg _ _
  | cons p ps ih =>
    simp only [writePlayers]
    split_ifs
    · exact (writeAll_does cfg cl.fd _).trans (ih _)
    · exact writeAll_does cfg _ _

omit hc fresh state in
theorem writeSamples_client (cl : EsdClient) (qs : List Ptr) (scales : Word × Word) :
    (writeSamples cl qs scales s).1.client = s.client := by
  induction qs generalizing s scales with
  | nil =>
    simp only [writeSamples]
    exact writeAll_client _ _
  | cons q qs ih =>
    simp only [writeSamples]
    split_ifs
    · exact (ih _).trans (writeAll_client cl.fd _)
    · exact writeAll_client _ _

omit hc fresh state in
theorem writeSamples_does {F : Footprint} (cl : EsdClient) (qs : List Ptr) (scales : Word × Word) :
    Does cfg F s (writeSamples cl qs scales s).1 := by
  induction qs generalizing s scales with
  | nil =>
    simp only [writeSamples]
    exact writeAll_does cfg _ _
  | cons q qs ih =>
    simp only [writeSamples]
    split_ifs
    · exact (writeAll_does cfg cl.fd _).trans (ih _)
    · exact writeAll_does cfg _ _

omit hc fresh state in
theorem esdProtoServerInfo_client : (esdProtoServerInfo s cfg c).1.client = s.client := by
  simp only [esdProtoServerInfo]
  exact writeAll_client _ _

omit hc fresh state in
theorem esdProtoServerInfo_does {F : Footprint} : Does cfg F s (esdProtoServerInfo s cfg c).1 := by
  simp only [esdProtoServerInfo]
  exact writeAll_does cfg _ _

omit hc fresh in
theorem esdProtoServerInfo_serves : Serves cfg c quiet s (esdProtoServerInfo s cfg c) :=
  .of_does esdProtoServerInfo_does esdProtoServerInfo_client state

omit hc fresh state in
theorem esdProtoAllInfo_client : (esdProtoAllInfo cfg env s c).1.client = s.client := by
  have hinfo : (esdProtoServerInfo s cfg c).1.client = s.client := esdProtoServerInfo_client
  simp only [esdProtoAllInfo]
  split
  · rename_i t heq
    rw [← hinfo, heq]
  · rename_i t heq
    rw [heq] at hinfo
    have hplayers := writePlayers_client (s := t) (s.client c) t.esdPlayersList env.stackInts
    split
    · rename_i u heq'
      rw [heq'] at hplayers
      exact hplayers.trans hinfo
    · rename_i u heq'
      rw [heq'] at hplayers
      exact (writeSamples_client _ _ _).trans (hplayers.trans hinfo)

omit hc fresh in
theorem esdProtoAllInfo_serves : Serves cfg c quiet s (esdProtoAllInfo cfg env s c) := by
  have hinfo : Does cfg (.turn c) s (esdProtoServerInfo s cfg c).1 := esdProtoServerInfo_does
  refine .of_does ?_ esdProtoAllInfo_client state
  simp only [esdProtoAllInfo]
  split
  · rename_i t heq
    rwa [heq] at hinfo
  · rename_i t heq
    rw [heq] at hinfo
    have hplayers : Does cfg (.turn c) t
        (writePlayers (s.client c) t.esdPlayersList env.stackInts t).1 := writePlayers_does _ _ _
    split
    · rename_i u heq'
      rw [heq'] at hplayers
      exact hinfo.trans hplayers
    · rename_i u heq'
      rw [heq'] at hplayers
      exact (hinfo.trans hplayers).trans (writeSamples_does _ _ _)

omit hc fresh state in
theorem checkedReply_serves {t : Server} {x : ℤ} (h : Does cfg (.turn c) s t)
    (hclient : t.client = s.client) (state : (s.client c).state ≠ .streamingData) :
    Serves cfg c quiet s (checkedReply t c x) :=
  .of_does (h.trans (reply_does x)) hclient state

omit hc fresh in
theorem esdProtoStreamPan_serves : Serves cfg c quiet s (esdProtoStreamPan s c) := by
  unfold esdProtoStreamPan
  simp only
  split
  · exact checkedReply_serves (setPlayer_does s ⟨rfl, rfl, rfl, rfl, rfl⟩ (.inl rfl)) rfl state
  · exact checkedReply_serves (.refl s) rfl state

omit hc fresh in
theorem esdProtoSamplePan_serves : Serves cfg c quiet s (esdProtoSamplePan s c) := by
  unfold esdProtoSamplePan
  simp only
  split
  · exact checkedReply_serves (setSample_does s rfl rfl rfl) rfl state
  · exact checkedReply_serves (.refl s) rfl state

omit hc fresh in
theorem esdProtoStandbyMode_serves : Serves cfg c quiet s (esdProtoStandbyMode s c) :=
  checkedReply_serves (.refl s) rfl state

omit hc fresh in
theorem esdProtoGetLatency_serves : Serves cfg c quiet s (esdProtoGetLatency cfg s c) :=
  checkedReply_serves (.refl s) rfl state

/-! ### All of them -/

theorem handler_serves (hw : s.objects.WellFormed) (samples : env.malloc ∉ s.esdSamplesList)
    {request : Proto} (h : handler cfg env request s c = some r) :
    Serves cfg c (¬ request.Authorizes) s r := by
  cases request with
  | connect => cases h; exact (esdProtoConnect_serves state).mono fun h => h trivial
  | lock => cases h; exact (esdProtoLock_serves state).mono fun h => h trivial
  | unlock => cases h; exact (esdProtoUnlock_serves state).mono fun h => h trivial
  | standby => cases h; exact (esdProtoStandby_serves state).mono fun h => h trivial
  | resume => cases h; exact (esdProtoResume_serves state).mono fun h => h trivial
  | streamPlay => cases h; exact esdProtoStreamPlay_serves state hc fresh
  | streamRec => cases h; exact esdProtoStreamRecorder_serves state hc fresh hw
  | streamMon => cases h; exact esdProtoStreamMonitor_serves state hc fresh
  | sampleCache => exact esdProtoSampleCache_serves state samples h
  | sampleFree => cases h; exact esdProtoSampleFree_serves state
  | samplePlay => cases h; exact esdProtoSamplePlay_serves state fresh
  | sampleLoop => cases h; exact esdProtoSampleLoop_serves state fresh
  | sampleStop => cases h; exact esdProtoSampleStop_serves state
  | sampleKill | subscribe | unsubscribe => cases h; exact esdProtoUnimplemented_serves state
  | sampleGetid => cases h; exact esdProtoSampleGetid_serves state
  | streamFilt => cases h; exact esdProtoStreamFilter_serves state hc fresh
  | serverInfo => cases h; exact esdProtoServerInfo_serves state
  | allInfo => cases h; exact esdProtoAllInfo_serves state
  | streamPan => cases h; exact esdProtoStreamPan_serves state
  | samplePan => cases h; exact esdProtoSamplePan_serves state
  | standbyMode => cases h; exact esdProtoStandbyMode_serves state
  | latency => cases h; exact esdProtoGetLatency_serves state

end Serves

/-! ## The turn of a client -/

/-- A turn, before its client is erased if it went wrong. -/
structure Turn (cfg : Config) (c : Ptr) (s : Server) (r : Server × Bool) :
    Prop where
  effects : Effects cfg (.turn c) s.objects r.1.objects
  state : r.2 = false → (r.1.client c).state ≠ .streamingData

section Turn

variable {cfg : Config} {env : PollEnv} {c : Ptr} {s t : Server} {r : Server × Bool}

theorem Serves.turn {quiet : Prop} (h : Serves cfg c quiet t r)
    (ht : Effects cfg (.turn c) s.objects t.objects) : Turn cfg c s r :=
  ⟨ht.trans h.effects, h.state⟩

theorem Turn.idle (ht : Effects cfg (.turn c) s.objects t.objects) {ok : Bool}
    (state : (t.client c).state ≠ .streamingData) : Turn cfg c s (t, ok) :=
  ⟨ht, fun _ => state⟩

variable (cfg) in
/-- A client's record may change in whatever the protocol keeps there. -/
theorem setClient_effects {v : EsdClient} (state : (s.client c).state ≠ .streamingData)
    (hv : v.state ≠ .streamingData) (fd : v.fd = (s.client c).fd) :
    Effects cfg (.turn c) s.objects (s.setClient c v).objects :=
  (setClient_does cfg s (F := .turn c) (Set.mem_singleton c) (by simp [hv, state]) fd).effects

variable (hw : s.objects.WellFormed) (hc : c ∈ s.esdClientsList) (fresh : env.malloc ∉ s.allPlayers)
  (samples : env.malloc ∉ s.esdSamplesList) (state : (s.client c).state ≠ .streamingData)

include hw hc fresh samples state

theorem handle_serves {request : Proto} (h : handle cfg env request s c = some r) :
    Serves cfg c False s r := by
  unfold handle at h
  obtain ⟨⟨t, ok⟩, ht, rfl⟩ := Option.map_eq_some_iff.mp h
  let s' : Server := s.setClient c { s.client c with state := .nextRequest }
  have hnext : Serves cfg c False s (s', ok) := setState_serves cfg state (by decide)
  have hserves := handler_serves (s := s') (by simp [s', Server.setClient]) hc fresh
    (hnext.effects.wellFormed hw) samples ht
  obtain ⟨state', swap, hrecord⟩ := hserves.record
  refine ⟨hnext.effects.trans hserves.effects, False.elim, ⟨state', swap, ?_⟩, hserves.state⟩
  change t.client c = _
  rw [hrecord]
  simp [s', Server.setClient]

omit hw hc fresh samples in
variable (cfg) in
theorem readReqdata_effects (request : Proto) :
    Effects cfg (.turn c) s.objects (readReqdata request s c).1.objects ∧
      ((readReqdata request s c).1.client c).state ≠ .streamingData := by
  refine ⟨?_, by simpa [readReqdata, Server.setClient] using state⟩
  exact setClient_effects cfg state state rfl
    (s := (s.sysRead (s.client c).fd (request.dataLength - (s.client c).protoDataLength)).1)

omit hw hc fresh samples in
variable (cfg) in
theorem readRequestWord_effects :
    Effects cfg (.turn c) s.objects (readRequestWord s c).1.objects ∧
      ((readRequestWord s c).1.client c).state ≠ .streamingData := by
  refine ⟨?_, by simpa [readRequestWord, Server.setClient] using state⟩
  exact setClient_effects cfg (s := (s.sysRead (s.client c).fd 4).1) state state rfl

theorem pollNeedsReqdata_turn (h : pollNeedsReqdata cfg env s c = some r) :
    Turn cfg c s r := by
  unfold pollNeedsReqdata at h
  split at h
  · cases h
    exact .idle .refl state
  · rename_i request hrequest
    obtain ⟨hread, state'⟩ := readReqdata_effects cfg state request
    simp only at h
    split_ifs at h
    · cases h
      exact .idle .refl state
    · cases h
      exact .idle hread state'
    · exact (handle_serves (hread.wellFormed hw) hc fresh samples state' h).turn hread
    · cases h
      exact .idle hread state'

theorem beginRequest_turn {request : Proto} (h : beginRequest cfg env request s c = some r) :
    Turn cfg c s r := by
  have hwait := setClient_effects cfg
    (v := { s.client c with state := .needsReqdata, protoDataLength := 0 }) state
    (by simp) rfl
  unfold beginRequest at h
  simp only at h
  split_ifs at h
  · exact (handle_serves (hwait.wellFormed hw) hc fresh samples (by simp [Server.setClient])
      h).turn hwait
  · cases h
    exact .idle hwait (by simp [Server.setClient])

theorem pollNextRequest_turn (h : pollNextRequest cfg env s c = some r) : Turn cfg c s r := by
  obtain ⟨hread, state'⟩ := readRequestWord_effects cfg state
  unfold pollNextRequest at h
  simp only at h
  split_ifs at h
  · cases h
    exact .idle hread state'
  · split at h
    · cases h
      exact .idle hread state'
    · cases h
      exact .idle hread state'
    · have hturn := beginRequest_turn (hread.wellFormed hw) hc fresh samples state' h
      exact ⟨hread.trans hturn.effects, hturn.state⟩

omit hw hc fresh in
theorem pollCachingSample_turn (h : pollCachingSample cfg env s c = some r) :
    Turn cfg c s r := by
  unfold pollCachingSample at h
  obtain ⟨⟨t, ok⟩, ht, rfl⟩ := Option.map_eq_some_iff.mp h
  have hserves : Serves cfg c True s (t, ok) := esdProtoSampleCache_serves state samples ht
  exact ⟨hserves.effects, hserves.state⟩

omit hw hc fresh samples state in
theorem Turn.unmoved (s : Server) : Turn cfg c s (s, true) := ⟨.refl, fun h => Bool.noConfusion h⟩

omit state in
theorem pollTurn_turn (h : pollTurn cfg env s c = some r) : Turn cfg c s r := by
  unfold pollTurn at h
  split_ifs at h
  · cases h
    exact .unmoved s
  · split at h
    · cases h
      exact .unmoved s
    · rename_i hstate
      exact pollNeedsReqdata_turn hw hc fresh samples (by simp [hstate]) h
    · rename_i hstate
      exact pollCachingSample_turn samples (by simp [hstate]) h
    · rename_i hstate
      exact pollNextRequest_turn hw hc fresh samples (by simp [hstate]) h

omit state in
theorem pollClient_effects (h : pollClient cfg env s c = some t) :
    Effects cfg (.turn c) s.objects t.objects := by
  unfold pollClient at h
  obtain ⟨r, hr, rfl⟩ := Option.map_eq_some_iff.mp h
  have hturn := pollTurn_turn hw hc fresh samples hr
  cases hok : r.2 with
  | true => exact hturn.effects
  | false =>
    refine hturn.effects.tail ?_
    simp only [Bool.false_eq_true, if_false, objects_eraseClient]
    exact .disconnect c (hturn.state hok)

end Turn

end Esound
