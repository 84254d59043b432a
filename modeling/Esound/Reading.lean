import Esound.FilterChain
import Esound.Routine

/-!
# Who reads what

Of the handlers only the one of uploads reads, and the routine of the daemon reads for streams
alone. What a client has sent that is not a stream waits for the client's own turns.
-/

open Library.Buffer Library.Loop Library.Transition

namespace Esound

/-- Nothing was written to the descriptor or read from it. -/
structure Still (fd : ℤ) (s t : Server) : Prop where
  socket : t.sockets fd = s.sockets fd
  events : ∃ es, t.events = s.events ++ es ∧ writtenTo fd es = []

/-- Every socket has the same to deliver as before, nobody was disconnected, and at most the
descriptor was written to. -/
structure Unread (fd : ℤ) (s t : Server) : Prop where
  input : ∀ fd', (t.sockets fd').input = (s.sockets fd').input
  still : ∀ fd' ≠ fd, Still fd' s t
  clients : ∀ c ≠ 0, c ∈ s.esdClientsList → c ∈ t.esdClientsList

section Still

variable {s t u : Server} {fd fd' : ℤ} {bs : List Octet}

theorem Still.refl (fd : ℤ) (s : Server) : Still fd s s := ⟨rfl, [], by simp [writtenTo]⟩

theorem Still.trans (h : Still fd s t) (h' : Still fd t u) : Still fd s u := by
  obtain ⟨es, hes, hnone⟩ := h.events
  obtain ⟨es', hes', hnone'⟩ := h'.events
  refine ⟨h'.socket.trans h.socket, es ++ es', ?_, ?_⟩
  · rw [hes', hes, List.append_assoc]
  · rw [writtenTo, List.flatMap_append, ← writtenTo, ← writtenTo, hnone, hnone', List.append_nil]

theorem Still.of_eq (h : t.sockets = s.sockets) (hevents : t.events = s.events) : Still fd s t :=
  ⟨by rw [h], [], by simp [hevents, writtenTo]⟩

theorem Still.of_emit {e : Event} (h : t.sockets fd = s.sockets fd) (hevents : t.events = s.events ++ [e])
    (he : e.octetsTo fd = []) : Still fd s t :=
  ⟨h, [e], hevents, by simp [writtenTo, he]⟩

theorem Idles.still (h : Idles s t) (fd : ℤ) : Still fd s t := by
  obtain ⟨es, hes, hnone⟩ := h.events
  exact ⟨by rw [h.silent.sockets], es, hes, hnone fd⟩

theorem sysWrite_still (hfd : fd ≠ fd') (octets : List Octet) : Still fd s (s.sysWrite fd' octets).1 := by
  refine ⟨Function.update_of_ne hfd _ _, _, rfl, ?_⟩
  simp [writtenTo, Event.octetsTo, hfd.symm]

end Still

/-! ## The handlers -/

section Handlers

variable {cfg : Config} {env : PollEnv} {s t u : Server} {c p : Ptr} {fd : ℤ} {r : Server × Bool}

theorem Unread.of_eq (h : t.sockets = s.sockets) (hevents : t.events = s.events)
    (hclients : t.esdClientsList = s.esdClientsList) : Unread fd s t :=
  ⟨fun fd => by rw [h], fun _ _ => .of_eq h hevents, fun _ _ hc => by rwa [hclients]⟩

theorem Unread.trans (h : Unread fd s t) (h' : Unread fd t u) : Unread fd s u :=
  ⟨fun fd => (h'.input fd).trans (h.input fd), fun fd hfd => (h.still fd hfd).trans (h'.still fd hfd),
    fun d hd hc => h'.clients d hd (h.clients d hd hc)⟩

theorem sysWrite_unread (fd : ℤ) (octets : List Octet) : Unread fd s (s.sysWrite fd octets).1 :=
  ⟨fun _ => sysWrite_input _ _ _, fun _ hfd => sysWrite_still hfd octets, fun _ _ hc => hc⟩

theorem reply_unread (x : ℤ) : Unread (s.client c).fd s (reply s c x).1 := sysWrite_unread _ _

theorem reply_after {x : ℤ} (h : Unread (s.client c).fd s t) (hclient : t.client c = s.client c) :
    Unread (s.client c).fd s (reply t c x).1 :=
  h.trans (hclient ▸ reply_unread x)

theorem replyId_unread : Unread (s.client c).fd s (replyId s c).1 := sysWrite_unread _ _

theorem replyId_after (h : Unread (s.client c).fd s t) (hclient : t.client c = s.client c) :
    Unread (s.client c).fd s (replyId t c).1 :=
  h.trans (hclient ▸ replyId_unread)

theorem esdValidateSource_unread (key : List Octet) (ownerOnly : Bool) :
    Unread (s.client c).fd s (esdValidateSource s c key ownerOnly).1 := by
  have hwrite : ∀ (u : Server) w, u.sockets = s.sockets → u.events = s.events →
      u.esdClientsList = s.esdClientsList →
      Unread (s.client c).fd s (u.writeInt (s.client c).fd w).1 := fun u w h hevents hclients =>
    (Unread.of_eq h hevents hclients).trans (sysWrite_unread _ _)
  simp only [esdValidateSource]
  split_ifs <;> exact hwrite _ _ rfl rfl rfl

theorem esdServerStandby_unread : Unread fd s (esdServerStandby s).1 := by
  simp only [esdServerStandby]
  split_ifs <;> exact .of_eq rfl rfl rfl

theorem esdAudioOpen_unread (reopen : Option ℤ) : Unread fd s (esdAudioOpen s reopen).1 := by
  cases reopen <;> exact .of_eq rfl rfl rfl

theorem esdServerResume_unread (reopen : Option ℤ) : Unread fd s (esdServerResume s reopen).1 := by
  simp only [esdServerResume]
  split_ifs <;> cases reopen <;> exact .of_eq rfl rfl rfl

theorem esdProtoConnect_unread : Unread (s.client c).fd s (esdProtoConnect s c).1 := by
  have hsource := esdValidateSource_unread (s := s) (c := c) (s.client c).key false
  simp only [esdProtoConnect]
  generalize esdValidateSource s c (s.client c).key false = v at hsource ⊢
  obtain ⟨t, ok⟩ := v
  cases ok with
  | false => exact hsource
  | true =>
    simp only [esdCheckEndian]
    split_ifs
    · exact hsource.trans (.of_eq rfl rfl rfl)
    · exact hsource.trans (.of_eq rfl rfl rfl)
    · exact hsource

theorem newStreamPlayer_unread : Unread fd s (newStreamPlayer cfg env s c).1 := by
  rcases newStreamPlayer_cases cfg env s c with h | ⟨v, h, -⟩ <;> rw [h] <;> exact .of_eq rfl rfl rfl

theorem pushTo_unread (l : PlayerList) (p : Ptr) : Unread fd s (pushTo s l p) := by
  cases l <;> exact .of_eq rfl rfl rfl

theorem setParent_unread (p : Ptr) : Unread fd s (setParent s p c) := .of_eq rfl rfl rfl

theorem setTranslateFunc_unread (p : Ptr) : Unread fd s (setTranslateFunc s p) := .of_eq rfl rfl rfl

theorem setStreaming_unread (h : Unread fd s t) : Unread fd s (setStreaming t c) :=
  h.trans (.of_eq rfl rfl rfl)

theorem eraseSample_unread (id : ℤ) : Unread fd s (eraseSample s id false) := by
  simp only [eraseSample]
  split
  · exact .of_eq rfl rfl rfl
  · split_ifs <;> exact .of_eq rfl rfl rfl

theorem freePlayer_unread (h : (s.player p).parent = 0) : Unread fd s (freePlayer s p) := by
  refine ⟨fun fd => by rw [(freePlayer_silent p).sockets], fun fd _ => freePlayer_idles.still fd,
    fun d hd hc => ?_⟩
  have hclient : d ∈ (eraseClient s 0).esdClientsList := by
    simp only [eraseClient]
    split_ifs
    · exact (List.mem_erase_of_ne hd).mpr hc
    · exact hc
  have hsample : ∀ u id, u.esdClientsList = s.esdClientsList →
      d ∈ (eraseSample u id false).esdClientsList := by
    intro u id hu
    have herase : Unread fd u (eraseSample u id false) := eraseSample_unread id
    exact herase.clients d hd (by rwa [hu])
  simp only [freePlayer, h]
  split_ifs
  · exact hclient
  · exact hsample _ _ rfl
  · exact hc
  · exact hc

theorem joinRecorders_unread (p : Ptr) : Unread fd s (joinRecorders s c p).1 :=
  setStreaming_unread (((pushTo_unread .recorders p).trans (setParent_unread p)).trans
    (setTranslateFunc_unread p))

theorem giveUpRecorder_unread (h : (s.player p).parent = 0) : Unread fd s (giveUpRecorder env s p) := by
  obtain ⟨u, hu⟩ : ∃ u, u = { freePlayer s p with
      esdAudioFormat := (freePlayer s p).esdAudioFormat &&& ~~~esdRecord } := ⟨_, rfl⟩
  have hformat : Unread fd (freePlayer s p) u := .of_eq (by rw [hu]) (by rw [hu]) (by rw [hu])
  simp only [giveUpRecorder, ← hu]
  exact ((freePlayer_unread h).trans hformat).trans (esdAudioOpen_unread _)

theorem reopenToRecord_unread (h : (s.player p).parent = 0) :
    Unread fd s (reopenToRecord env s c p).1 := by
  obtain ⟨u, hu⟩ : ∃ u, u = { esdAudioClose s with
      esdAudioFormat := (esdAudioClose s).esdAudioFormat ||| esdRecord } := ⟨_, rfl⟩
  have hclose : Unread fd s u := .of_eq (by rw [hu]; rfl) (by rw [hu]; rfl) (by rw [hu]; rfl)
  have hopen : Unread fd u (esdAudioOpen u (env.audioOpen 1)).1 := esdAudioOpen_unread _
  have hplayer : (esdAudioOpen u (env.audioOpen 1)).1.player = s.player := by
    rw [hu]
    cases env.audioOpen 1 <;> rfl
  simp only [reopenToRecord, ← hu]
  generalize esdAudioOpen u (env.audioOpen 1) = w at hopen hplayer ⊢
  obtain ⟨v, ok⟩ := w
  cases ok with
  | true => exact (hclose.trans hopen).trans (joinRecorders_unread p)
  | false =>
    refine (hclose.trans hopen).trans (giveUpRecorder_unread ?_)
    rwa [hplayer]

theorem startRecorder_unread : Unread fd s (startRecorder cfg env s c).1 := by
  have hnew : Unread fd s (newStreamPlayer cfg env s c).1 := newStreamPlayer_unread
  have hparent : (newStreamPlayer cfg env s c).2 ≠ 0 →
      ((newStreamPlayer cfg env s c).1.player (newStreamPlayer cfg env s c).2).parent = 0 := by
    rcases newStreamPlayer_cases cfg env s c with h | ⟨v, h, -, -, hparent, -⟩
    · exact fun hne => absurd (congrArg Prod.snd h) hne
    · rw [h]
      exact fun _ => by simpa [Server.setPlayer] using hparent
  simp only [startRecorder]
  generalize newStreamPlayer cfg env s c = a at hnew hparent ⊢
  split_ifs with hstandby hnull
  · exact .of_eq rfl rfl rfl
  · exact hnew
  · exact hnew.trans (reopenToRecord_unread (hparent hnull))
  · exact hnew.trans (joinRecorders_unread _)

theorem newSamplePlayer_unread (id : ℤ) (loop : Bool) :
    Unread fd s (newSamplePlayer cfg env s id loop).1 := by
  simp only [newSamplePlayer]
  split
  · exact .of_eq rfl rfl rfl
  · split_ifs
    · exact .of_eq rfl rfl rfl
    · split <;> exact .of_eq rfl rfl rfl
    · split <;> exact .of_eq rfl rfl rfl

theorem playSample_unread (id : ℤ) (loop : Bool) : Unread fd s (playSample cfg env s id loop).1 := by
  have hnew : Unread fd s (newSamplePlayer cfg env s id loop).1 := newSamplePlayer_unread id loop
  simp only [playSample]
  split_ifs
  · exact hnew
  · exact hnew.trans (pushTo_unread .players _)

theorem writeAll_unread (fd : ℤ) (rows : List (List Octet)) : Unread fd s (writeAll s fd rows).1 := by
  induction rows generalizing s with
  | nil => exact .of_eq rfl rfl rfl
  | cons bs rest ih =>
    have hone : Unread fd s (s.sysWrite fd bs).1 := sysWrite_unread fd bs
    cases rest with
    | nil => exact hone
    | cons bs' rest' => exact hone.trans ih

theorem writePlayers_unread (cl : EsdClient) (ps : List Ptr) (scales : Word × Word) :
    Unread cl.fd s (writePlayers cl ps scales s).1 := by
  induction ps generalizing s scales with
  | nil =>
    simp only [writePlayers]
    exact writeAll_unread _ _
  | cons p ps ih =>
    simp only [writePlayers]
    split_ifs
    · exact (writeAll_unread _ _).trans (ih _)
    · exact writeAll_unread _ _

theorem writeSamples_unread (cl : EsdClient) (qs : List Ptr) (scales : Word × Word) :
    Unread cl.fd s (writeSamples cl qs scales s).1 := by
  induction qs generalizing s scales with
  | nil =>
    simp only [writeSamples]
    exact writeAll_unread _ _
  | cons q qs ih =>
    simp only [writeSamples]
    split_ifs
    · exact (writeAll_unread _ _).trans (ih _)
    · exact writeAll_unread _ _

theorem esdProtoServerInfo_unread :
    Unread (s.client c).fd s (esdProtoServerInfo s cfg c).1 := by
  simp only [esdProtoServerInfo]
  exact writeAll_unread _ _

theorem esdProtoAllInfo_unread :
    Unread (s.client c).fd s (esdProtoAllInfo cfg env s c).1 := by
  have hinfo : Unread (s.client c).fd s (esdProtoServerInfo s cfg c).1 := esdProtoServerInfo_unread
  simp only [esdProtoAllInfo]
  split
  · rename_i t heq
    rwa [heq] at hinfo
  · rename_i t heq
    rw [heq] at hinfo
    have hplayers := writePlayers_unread (s := t) (s.client c) t.esdPlayersList env.stackInts
    split
    · rename_i u heq'
      rw [heq'] at hplayers
      exact hinfo.trans hplayers
    · rename_i u heq'
      rw [heq'] at hplayers
      exact (hinfo.trans hplayers).trans (writeSamples_unread _ _ _)

theorem handler_unread {request : Proto} (hcache : request ≠ .sampleCache)
    (h : handler cfg env request s c = some r) : Unread (s.client c).fd s r.1 := by
  have hnew : Unread (s.client c).fd s (newStreamPlayer cfg env s c).1 := newStreamPlayer_unread
  have hsource := esdValidateSource_unread (s := s) (c := c) (s.client c).key true
  have hclient : (esdValidateSource s c (s.client c).key true).1.client = s.client :=
    (esdValidateSource_frame _ _).2
  cases request with
  | sampleCache => exact absurd rfl hcache
  | connect =>
    cases h
    exact esdProtoConnect_unread
  | lock =>
    cases h
    simp only [esdProtoLock]
    generalize esdValidateSource s c (s.client c).key true = v at hsource hclient ⊢
    split_ifs <;> exact reply_after (hsource.trans (.of_eq rfl rfl rfl)) (congrFun hclient c)
  | unlock =>
    cases h
    simp only [esdProtoUnlock]
    generalize esdValidateSource s c (s.client c).key true = v at hsource hclient ⊢
    split_ifs <;> exact reply_after (hsource.trans (.of_eq rfl rfl rfl)) (congrFun hclient c)
  | standby =>
    cases h
    simp only [esdProtoStandby]
    generalize esdValidateSource s c (s.client c).key true = v at hsource hclient ⊢
    have hstandby := hsource.trans (esdServerStandby_unread (s := v.1))
    have hsame : (esdServerStandby v.1).1.client = s.client :=
      (congrArg Objects.client objects_esdServerStandby).trans hclient
    split_ifs
    all_goals first
      | exact reply_after (hstandby.trans (.of_eq rfl rfl rfl)) (congrFun hsame c)
      | exact reply_after (hsource.trans (.of_eq rfl rfl rfl)) (congrFun hclient c)
  | resume =>
    cases h
    simp only [esdProtoResume]
    generalize esdValidateSource s c (s.client c).key true = v at hsource hclient ⊢
    have hresume := hsource.trans (esdServerResume_unread (s := v.1) (env.audioOpen 0))
    have hsame : (esdServerResume v.1 (env.audioOpen 0)).1.client = s.client :=
      (congrArg Objects.client (objects_esdServerResume _)).trans hclient
    split_ifs
    all_goals first
      | exact reply_after (hresume.trans (.of_eq rfl rfl rfl)) (congrFun hsame c)
      | exact reply_after (hsource.trans (.of_eq rfl rfl rfl)) (congrFun hclient c)
  | streamPlay =>
    cases h
    simp only [esdProtoStreamPlay]
    generalize newStreamPlayer cfg env s c = a at hnew ⊢
    split_ifs
    · exact hnew
    · exact setStreaming_unread ((hnew.trans (setParent_unread _)).trans (pushTo_unread .players _))
  | streamMon =>
    cases h
    simp only [esdProtoStreamMonitor]
    generalize newStreamPlayer cfg env s c = a at hnew ⊢
    split_ifs
    · exact hnew
    · exact setStreaming_unread (((hnew.trans (setParent_unread _)).trans (pushTo_unread .monitors _)).trans
        (setTranslateFunc_unread _))
  | streamFilt =>
    cases h
    simp only [esdProtoStreamFilter]
    generalize newStreamPlayer cfg env s c = a at hnew ⊢
    split_ifs
    · exact hnew
    · exact setStreaming_unread ((hnew.trans (setParent_unread _)).trans (pushTo_unread .filters _))
  | streamRec =>
    cases h
    simp only [esdProtoStreamRecorder]
    split_ifs
    · exact (esdServerResume_unread _).trans startRecorder_unread
    · exact startRecorder_unread
  | sampleFree =>
    cases h
    have herase : Unread (s.client c).fd s (eraseSample s ((s.client c).param 0) false) :=
      eraseSample_unread _
    exact replyId_after herase (congrFun eraseSample_idles.client c)
  | samplePlay | sampleLoop =>
    cases h
    exact replyId_after (playSample_unread _ _) (congrFun (playSample_client _ _) c)
  | sampleStop =>
    cases h
    have hstop : Unread (s.client c).fd s (stopSample s ((s.client c).param 0)).1 := by
      simp only [stopSample]
      split <;> exact .of_eq rfl rfl rfl
    exact replyId_after hstop (congrFun (stopSample_does cfg (F := .empty) _).2 c)
  | sampleKill | subscribe | unsubscribe =>
    cases h
    exact .of_eq rfl rfl rfl
  | sampleGetid =>
    cases h
    simp only [esdProtoSampleGetid]
    split <;> exact reply_unread _
  | serverInfo =>
    cases h
    exact esdProtoServerInfo_unread
  | allInfo =>
    cases h
    exact esdProtoAllInfo_unread
  | streamPan =>
    cases h
    simp only [esdProtoStreamPan]
    split <;> exact reply_after (.of_eq rfl rfl rfl) rfl
  | samplePan =>
    cases h
    simp only [esdProtoSamplePan]
    split <;> exact reply_after (.of_eq rfl rfl rfl) rfl
  | standbyMode | latency =>
    cases h
    exact reply_unread _

end Handlers

/-! ## The routine -/

section Routine

variable {cfg : Config} {s t u : Server} {c p : Ptr} {fd : ℤ} {a : Action}

/-- Nothing was done to the descriptor, the client was not disconnected, and every player was at
most worked on. -/
structure Untouched (c : Ptr) (fd : ℤ) (s t : Server) : Prop where
  still : Still fd s t
  clients : c ∈ s.esdClientsList → c ∈ t.esdClientsList
  worked : ∀ p, (s.player p).Worked (t.player p)

/-- The player is of another client and reads from another descriptor. -/
def EsdPlayer.Foreign (c : Ptr) (fd : ℤ) (pl : EsdPlayer) : Prop :=
  pl.IsStream → pl.sourceId ≠ fd ∧ pl.parent ≠ c

theorem EsdPlayer.Foreign.worked {u v : EsdPlayer} (h : u.Foreign c fd) (hworked : u.Worked v) :
    v.Foreign c fd := by
  intro hmode
  have hkind := hworked.sameKind
  rw [hkind.sourceId, hkind.parent]
  exact h (hkind.isStream_iff.mp hmode)

namespace Untouched

theorem refl (c : Ptr) (fd : ℤ) (s : Server) : Untouched c fd s s :=
  ⟨.refl fd s, id, fun _ => .refl _⟩

theorem trans (h : Untouched c fd s t) (h' : Untouched c fd t u) : Untouched c fd s u :=
  ⟨h.still.trans h'.still, h'.clients ∘ h.clients, fun p => (h.worked p).trans (h'.worked p)⟩

theorem of_eq (h : t.sockets = s.sockets) (hevents : t.events = s.events)
    (hclients : t.esdClientsList = s.esdClientsList) (hplayer : t.player = s.player) :
    Untouched c fd s t where
  still := .of_eq h hevents
  clients hc := by rwa [hclients]
  worked p := by
    rw [hplayer]
    exact .refl _

theorem foreign (h : Untouched c fd s t) (hp : (s.player p).Foreign c fd) :
    (t.player p).Foreign c fd := hp.worked (h.worked p)

/-- What is done to one player after the other, when working on players keeps what it asks of
them. -/
theorem foldl (P : EsdPlayer → Prop) (hP : ∀ u v, P u → u.Worked v → P v)
    (f : Server × ℤ → Ptr → Server × ℤ) {ps : List Ptr} (acc : Server × ℤ)
    (hone : ∀ acc p, P (acc.1.player p) → Untouched c fd acc.1 (f acc p).1)
    (h : ∀ p ∈ ps, P (acc.1.player p)) : Untouched c fd acc.1 (ps.foldl f acc).1 := by
  induction ps generalizing acc with
  | nil => exact .refl c fd _
  | cons p ps ih =>
    have hfirst := hone acc p (h p List.mem_cons_self)
    refine hfirst.trans (ih _ fun q hq => ?_)
    exact hP _ _ (h q (List.mem_cons_of_mem p hq)) (hfirst.worked q)

theorem sysWrite {fd' : ℤ} (hfd : fd' ≠ fd) (octets : List Octet) :
    Untouched c fd s (s.sysWrite fd' octets).1 :=
  ⟨sysWrite_still hfd.symm octets, id, fun _ => .refl _⟩

end Untouched

theorem eraseClient_untouched (hc : p ≠ c) : Untouched c fd s (eraseClient s p) := by
  refine ⟨eraseClient_idles.still fd, ?_, fun q => ?_⟩
  · simp only [eraseClient]
    split_ifs
    · exact (List.mem_erase_of_ne hc.symm).mpr
    · exact id
  · rw [eraseClient_player]
    exact .refl _

theorem eraseFrom_untouched (l : PlayerList) (h : (s.player p).Foreign c fd) : Untouched c fd s (eraseFrom s l p) := by
  refine ⟨eraseFrom_idles.still fd, fun hc => ?_, fun q => ?_⟩
  · simp only [eraseFrom]
    split_ifs
    · have hlist : ∀ ps, (s.setList l ps).esdClientsList = s.esdClientsList ∧
          (s.setList l ps).player = s.player := fun ps => by cases l <;> exact ⟨rfl, rfl⟩
      obtain ⟨u, hu⟩ : ∃ u, u = s.setList l ((s.list l).erase p) := ⟨_, rfl⟩
      have hcu : c ∈ u.esdClientsList := by rwa [hu, (hlist _).1]
      have hsame : u.player p = s.player p := by rw [hu, (hlist _).2]
      have hsample : ∀ (v : Server) id, v.esdClientsList = u.esdClientsList →
          c ∈ (eraseSample v id false).esdClientsList := by
        intro v id hv
        simp only [eraseSample]
        split
        · rwa [hv]
        · split_ifs <;> exact hv ▸ hcu
      rw [← hu]
      simp only [freePlayer]
      split_ifs with hmode
      · rw [hsame] at hmode ⊢
        have hclient : Untouched c fd u (eraseClient u (s.player p).parent) :=
          eraseClient_untouched (h hmode).2
        exact hclient.clients hcu
      · exact hsample _ _ rfl
      · exact hcu
      · exact hcu
    · exact hc
  · rw [eraseFrom_player]
    exact .refl _

theorem worked_carried : Carried fun s t => ∀ p, (s.player p).Worked (t.player p) where
  behind s t h p := by
    rw [h.rest]
    exact .refl _
  players s f h := h
  client s c p := by
    rw [eraseClient_player]
    exact .refl _
  trans s t u h h' p := (h p).trans (h' p)

theorem readPlayer_untouched (canRead : Bool) (h : (s.player p).Foreign c fd) :
    Untouched c fd s (readPlayer canRead s p).1 := by
  have hsockets := readPlayer_sockets (s := s) canRead fd fun hmode => (h hmode).1
  have hhear : (hearStream s p).1.esdClientsList = s.esdClientsList := rfl
  have hset : ∀ (u : Server) m v, ((u.setPlayerData p m).setPlayer p v).esdClientsList =
      u.esdClientsList := fun _ _ _ => rfl
  have hclients : (readPlayer canRead s p).1.esdClientsList = s.esdClientsList := by
    simp only [readPlayer, readStream, readSamplePlayer]
    split_ifs
    · exact hhear
    · exact hhear
    · exact (hset _ _ _).trans hhear
    all_goals rfl
  have hevents : ∃ es, (readPlayer canRead s p).1.events = s.events ++ es ∧ writtenTo fd es = [] := by
    simp only [readPlayer, readStream, readSamplePlayer]
    split_ifs <;> first | exact ⟨_, rfl, rfl⟩ | exact ⟨[], (List.append_nil _).symm, rfl⟩
  exact ⟨⟨hsockets, hevents⟩, fun hc => by rwa [hclients], worked_carried.readPlayer canRead p⟩

theorem mixReadOne_untouched {canRead : Ptr → Bool} {acc : Server × ℤ} (length : ℤ)
    (h : (acc.1.player p).Foreign c fd) : Untouched c fd acc.1 (mixReadOne cfg canRead length acc p).1 := by
  have hread : Untouched c fd acc.1 (readPlayer (canRead p) acc.1 p).1 := readPlayer_untouched _ h
  simp only [mixReadOne]
  split_ifs
  · exact hread
  · exact hread.trans (eraseFrom_untouched .players (hread.foreign h))
  · exact hread
  · exact hread
  · exact hread

theorem consume_untouched (p : Ptr) (used : ℤ) : Untouched c fd s (consume s p used) := by
  refine ⟨?_, fun hc => ?_, worked_carried.consume p used⟩
  · simp only [consume]
    split_ifs <;> exact .of_emit rfl rfl rfl
  · simp only [consume]
    split_ifs <;> exact hc

theorem mixOne_untouched (length : ℤ) (acc : Server × ℤ) (p : Ptr) :
    Untouched c fd acc.1 (mixOne cfg length acc p).1 := by
  simp only [mixOne]
  split
  · exact .refl c fd _
  · split_ifs
    · refine Untouched.trans ?_ (consume_untouched p _)
      exact .of_eq rfl rfl rfl rfl
    · exact .refl c fd _

variable (cfg) in
theorem mixPlayers_untouched (canRead : Ptr → Bool) (h : ∀ p ∈ s.esdPlayersList, (s.player p).Foreign c fd) :
    Untouched c fd s (mixPlayers cfg canRead s).1 := by
  have hread : Untouched c fd (clearMix cfg s) (mixRead cfg canRead s).1 :=
    Untouched.foldl (·.Foreign c fd) (fun _ _ hu hworked => hu.worked hworked)
      (mixReadOne cfg canRead cfg.esdBufSizeOctets) (clearMix cfg s, 0)
      (fun acc p hp => mixReadOne_untouched _ hp) h
  have hmixed : ∀ least u, Untouched c fd u (mixAll cfg least u).1 := fun least u =>
    foldl_related (fun a b : Server × ℤ => Untouched c fd a.1 b.1) (fun _ => .refl c fd _)
      (fun _ _ _ hab hbc => hab.trans hbc) (mixOne cfg least) u.esdPlayersList
      (fun acc p _ => mixOne_untouched least acc p) (u, 0)
  have hclip : ∀ u most, Untouched c fd u (clipMix u most).1 := by
    intro u most
    simp only [clipMix]
    split_ifs <;> exact .of_eq rfl rfl rfl rfl
  have hclear : Untouched c fd s (clearMix cfg s) := .of_eq rfl rfl rfl rfl
  simp only [mixPlayers]
  split_ifs
  · exact hclear.trans (hread.trans ((hmixed _ _).trans (hclip _ _)))
  · exact hclear.trans hread

/-- A stream of another client, with another descriptor. -/
def EsdPlayer.StreamsElsewhere (c : Ptr) (fd : ℤ) (pl : EsdPlayer) : Prop :=
  pl.IsStream ∧ pl.Foreign c fd

theorem EsdPlayer.StreamsElsewhere.worked {u v : EsdPlayer} (h : u.StreamsElsewhere c fd)
    (hworked : u.Worked v) : v.StreamsElsewhere c fd :=
  ⟨hworked.sameKind.isStream_iff.mpr h.1, h.2.worked hworked⟩

theorem EsdPlayer.StreamsElsewhere.sourceId {u : EsdPlayer} (h : u.StreamsElsewhere c fd) :
    u.sourceId ≠ fd := (h.2 h.1).1

theorem Untouched.elsewhere (h : Untouched c fd s t) (hp : (s.player p).StreamsElsewhere c fd) :
    (t.player p).StreamsElsewhere c fd := hp.worked (h.worked p)

/-! Filters are read from like players, and written to before. -/

theorem filterSend_untouched (dataSize : ℤ) (h : (s.player p).StreamsElsewhere c fd) :
    Untouched c fd s (filterSend s p dataSize).srv := by
  refine whileFuel_invariant (fun r : FilterWrite => Untouched c fd s r.srv) (fun r r' hr h' => ?_) _
    (.refl c fd s)
  have hfd : (r.srv.player p).sourceId ≠ fd := (hr.elsewhere h).sourceId
  simp only [filterWriteRound] at h'
  split_ifs at h' <;> cases h' <;> exact hr.trans (.sysWrite hfd _)

theorem filterExchange_untouched (canRead : Bool) (dataSize : ℤ)
    (h : (s.player p).StreamsElsewhere c fd) :
    Untouched c fd s (filterExchange canRead s p dataSize).1 := by
  have hsend : Untouched c fd s (filterSend s p dataSize).srv := filterSend_untouched dataSize h
  have hread := hsend.trans (readPlayer_untouched canRead (hsend.foreign h.2))
  have hworked := worked_carried.filterExchange (s := s) canRead p dataSize
  refine ⟨?_, fun hc => ?_, hworked⟩
  · simp only [filterExchange]
    split_ifs
    · exact hsend.still
    · exact hread.still.trans (.of_eq rfl rfl)
    · exact hread.still
  · simp only [filterExchange]
    split_ifs
    · exact hsend.clients hc
    · exact hread.clients hc
    · exact hread.clients hc

variable (cfg) in
theorem filterOne_untouched (canRead : Bool) (size : ℤ) (next : Option Ptr) (dataSize : ℤ)
    (h : (s.player p).StreamsElsewhere c fd) :
    Untouched c fd s (filterOne cfg canRead size s p next dataSize).1 := by
  have hexchange : Untouched c fd s (filterExchange canRead s p dataSize).1 :=
    filterExchange_untouched canRead dataSize h
  have htranslate : ∀ u, Untouched c fd u (filterTranslate cfg size u p next).1 := by
    intro u
    simp only [filterTranslate]
    split
    · exact .refl c fd u
    · cases next <;> exact .of_eq rfl rfl rfl rfl
  have hboth := hexchange.trans (htranslate _)
  simp only [filterOne]
  split_ifs
  · exact hboth.trans (eraseFrom_untouched .filters (hboth.foreign h.2))
  · exact hboth

theorem filterLoop_untouched (canRead : Ptr → Bool) (size : ℤ) {ps : List Ptr}
    (h : ∀ p ∈ ps, (s.player p).StreamsElsewhere c fd) (dataSize : ℤ) :
    Untouched c fd s (filterLoop cfg canRead size ps s dataSize).1 := by
  induction ps generalizing s dataSize with
  | nil => exact .refl c fd s
  | cons p ps ih =>
    have hone := filterOne_untouched cfg (canRead p) size ps.head? dataSize (h p List.mem_cons_self)
    exact hone.trans (ih (fun q hq => hone.elsewhere (h q (List.mem_cons_of_mem p hq))) _)

theorem filterWrite_untouched (canRead : Ptr → Bool) (size : ℤ)
    (h : ∀ p ∈ s.esdFilterList, (s.player p).StreamsElsewhere c fd) :
    Untouched c fd s (filterWrite cfg canRead s size).1 := by
  simp only [filterWrite, filterFirst]
  split
  · exact .refl c fd s
  · rename_i hfirst
    split at hfirst
    · cases hfirst
      have hfirst : ∀ p m, Untouched c fd s (s.setPlayerData p m) := fun _ _ => .of_eq rfl rfl rfl rfl
      exact (hfirst _ _).trans (filterLoop_untouched (s := s.setPlayerData _ _) canRead size h _)
    · cases hfirst

/-! Monitors and recorders are only written to, and disconnected when that fails. -/

theorem translateInto_untouched (length : ℤ) (p : Ptr) : Untouched c fd s (translateInto cfg s p length).1 := by
  simp only [translateInto]
  split
  · exact .refl c fd s
  · exact .of_eq rfl rfl rfl rfl

theorem writeBuffer_untouched (h : (s.player p).StreamsElsewhere c fd) :
    Untouched c fd s (writeBuffer s p).1 :=
  .sysWrite h.sourceId _

theorem disconnect_untouched (l : PlayerList) (h : (s.player p).StreamsElsewhere c fd) :
    Untouched c fd s (eraseFrom (eraseClient s (s.player p).parent) l p) := by
  have hclient : Untouched c fd s (eraseClient s (s.player p).parent) :=
    eraseClient_untouched (h.2 h.1).2
  exact hclient.trans (eraseFrom_untouched l (hclient.foreign h.2))

theorem monitorOne_untouched (canWrite : Ptr → Bool) (acc : Server × ℤ)
    (h : (acc.1.player p).StreamsElsewhere c fd) :
    Untouched c fd acc.1 (monitorOne cfg canWrite acc p).1 := by
  have hinto : Untouched c fd acc.1 (translateInto cfg acc.1 p acc.2).1 := translateInto_untouched acc.2 p
  have hwrite : Untouched c fd acc.1 (writeBuffer (translateInto cfg acc.1 p acc.2).1 p).1 :=
    hinto.trans (writeBuffer_untouched (hinto.elsewhere h))
  simp only [monitorOne]
  split_ifs
  · exact hwrite.trans (disconnect_untouched .monitors (hwrite.elsewhere h))
  · exact hwrite
  · exact .refl c fd _

theorem writePlayer_untouched (poll : RecorderPoll) (length : ℤ)
    (h : (s.player p).StreamsElsewhere c fd) :
    Untouched c fd s (writePlayer cfg poll s p length).1 := by
  have hinto : Untouched c fd s (translateInto cfg s p length).1 := translateInto_untouched length p
  have hwrite : ∀ m, Untouched c fd s
      (writeBuffer ((translateInto cfg s p length).1.setPlayerData p m) p).1 := by
    intro m
    have hdata : Untouched c fd s ((translateInto cfg s p length).1.setPlayerData p m) :=
      hinto.trans (.of_eq rfl rfl rfl rfl)
    exact hdata.trans (writeBuffer_untouched (hdata.elsewhere h))
  simp only [writePlayer]
  split_ifs
  · exact .refl c fd s
  · exact hwrite _
  · exact hwrite _
  · exact hwrite _
  · exact hwrite _
  · exact .refl c fd s
  · exact .refl c fd s

theorem recorderOne_untouched (poll : Ptr → RecorderPoll) (length : ℤ) (acc : Server × ℤ)
    (h : (acc.1.player p).StreamsElsewhere c fd) :
    Untouched c fd acc.1 (recorderOne cfg poll length acc p).1 := by
  have hwrite : Untouched c fd acc.1 (writePlayer cfg (poll p) acc.1 p length).1 :=
    writePlayer_untouched (poll p) length h
  simp only [recorderOne]
  split_ifs
  · exact hwrite.trans (disconnect_untouched .recorders (hwrite.elsewhere h))
  · exact hwrite

theorem monitorWrite_untouched (canWrite : Ptr → Bool) (length : ℤ)
    (h : ∀ p ∈ s.esdMonitorList, (s.player p).StreamsElsewhere c fd) :
    Untouched c fd s (monitorWrite cfg canWrite s length) :=
  Untouched.foldl (·.StreamsElsewhere c fd) (fun _ _ hu hworked => hu.worked hworked)
    (monitorOne cfg canWrite) (s, length)
    (fun acc _ hp => monitorOne_untouched canWrite acc hp) h

theorem esdAudioOpen_untouched (reopen : Option ℤ) : Untouched c fd s (esdAudioOpen s reopen).1 := by
  cases reopen <;> exact .of_eq rfl rfl rfl rfl

theorem recorderWrite_untouched (poll : Ptr → RecorderPoll) (reopen : Option ℤ) (length : ℤ)
    (h : ∀ p ∈ s.esdRecorderList, (s.player p).StreamsElsewhere c fd) :
    Untouched c fd s (recorderWrite cfg poll reopen s length).1 := by
  have hrows : Untouched c fd s (s.esdRecorderList.foldl (recorderOne cfg poll length) (s, 0)).1 :=
    Untouched.foldl (·.StreamsElsewhere c fd) (fun _ _ hu hworked => hu.worked hworked)
      (recorderOne cfg poll length) (s, 0)
      (fun acc _ hp => recorderOne_untouched poll length acc hp) h
  simp only [recorderWrite]
  split_ifs
  · refine hrows.trans (Untouched.trans ?_ (esdAudioOpen_untouched reopen))
    exact .of_eq rfl rfl rfl rfl
  · exact hrows

/-- The routine of the daemon leaves a client alone that no stream belongs to or reads from. -/
theorem step_untouched (hw : s.objects.WellFormed) (h : step cfg s a = some t)
    (hpoll : ∀ d env, a ≠ .poll d env) (hreset : ¬ a.IsReset)
    (hfd : ∀ d socket, a ≠ .accept d fd socket)
    (hforeign : ∀ l, ∀ p ∈ s.list l, (s.player p).Foreign c fd) :
    Still fd s t ∧ (c ∈ s.esdClientsList → c ∈ t.esdClientsList) := by
  have hstreams : ∀ l, l ≠ .players → ∀ p ∈ s.list l, (s.player p).StreamsElsewhere c fd :=
    fun l hl p hp => ⟨hw.streams hl hp, hforeign l p hp⟩
  have hall : ∀ u, Untouched c fd s u → Still fd s u ∧ (c ∈ s.esdClientsList → c ∈ u.esdClientsList) :=
    fun u hu => ⟨hu.still, hu.clients⟩
  have hsame : ∀ u : Server, u.sockets = s.sockets → u.events = s.events →
      u.esdClientsList = s.esdClientsList →
      Still fd s u ∧ (c ∈ s.esdClientsList → c ∈ u.esdClientsList) := fun u h hevents hclients =>
    ⟨.of_eq h hevents, fun hc => by rwa [hclients]⟩
  obtain ⟨-, h⟩ := step_eq_some h
  cases a with
  | poll d env => exact absurd rfl (hpoll d env)
  | reset => exact absurd trivial hreset
  | accept d fd' socket =>
    cases h
    have hne : fd ≠ fd' := fun he => hfd d socket (by rw [he])
    exact ⟨⟨Function.update_of_ne hne _ _, [], (List.append_nil _).symm, rfl⟩, List.mem_cons_of_mem d⟩
  | refresh =>
    cases h
    simp only [refreshMixFuncs]
    split_ifs <;> exact hsame _ rfl rfl rfl
  | mix canRead =>
    cases h
    exact hall _ (mixPlayers_untouched cfg canRead (hforeign .players))
  | wake reopen =>
    cases h
    simp only [esdServerResume]
    split_ifs <;> cases reopen <;> exact hsame _ rfl rfl rfl
  | filter canRead size =>
    cases h
    exact hall _ (filterWrite_untouched canRead size (hstreams .filters (by decide)))
  | monitor canWrite length =>
    cases h
    exact hall _ (monitorWrite_untouched canWrite length (hstreams .monitors (by decide)))
  | recorder ready reopen block length =>
    cases h
    obtain ⟨u, hu⟩ : ∃ u, u = { s with outputBuffer := store s.outputBuffer 0 block } := ⟨_, rfl⟩
    have hblock : Untouched c fd s u := .of_eq (by rw [hu]) (by rw [hu]) (by rw [hu]) (by rw [hu])
    have hrows : Untouched c fd u (recorderWrite cfg ready reopen u length).1 := by
      refine recorderWrite_untouched ready reopen length ?_
      rw [hu]
      exact hstreams .recorders (by decide)
    rw [← hu]
    exact hall _ (hblock.trans hrows)
  | autostandby =>
    cases h
    simp only [esdServerStandby]
    split_ifs <;> exact hsame _ rfl rfl rfl
  | reconnect reopen =>
    cases h
    have hopen : Untouched c fd (esdAudioClose s) (esdAudioOpen (esdAudioClose s) reopen).1 :=
      esdAudioOpen_untouched reopen
    have hclose : Still fd s (esdAudioClose s) := .of_eq rfl rfl
    exact ⟨hclose.trans hopen.still, hopen.clients⟩

end Routine

/-! ## The turns of the clients -/

section Turns

variable {cfg : Config} {env : PollEnv} {s t : Server} {c q : Ptr} {fd : ℤ} {r : Server × Bool}

theorem readSampleRound_others {r r' : ReadSample} (h : readSampleRound cfg q r = some r')
    (hfd : (r.srv.client (r.srv.sample q).parent).fd ≠ fd) :
    r'.srv.sockets fd = r.srv.sockets fd := by
  have hread : ∀ n, (r.srv.sysRead (r.srv.client (r.srv.sample q).parent).fd n).1.sockets fd =
      r.srv.sockets fd := fun n => Function.update_of_ne hfd.symm _ _
  simp only [readSampleRound] at h
  split_ifs at h
  split at h
  · cases h
    exact hread _
  · cases h
    exact hread _
  · split_ifs at h <;> cases h <;> exact hread _

theorem readSample_others (hfd : (s.client (s.sample q).parent).fd ≠ fd) :
    Still fd s (readSample cfg s q).1 := by
  have hloop : ∀ n r, r.srv = s →
      let r' := whileFuel (readSampleRound cfg q) n r
      (r'.srv.client = s.client ∧ r'.srv.sample = s.sample) ∧ r'.srv.sockets fd = s.sockets fd := by
    rintro n r rfl
    refine whileFuel_invariant (fun r' : ReadSample => (r'.srv.client = r.srv.client ∧
      r'.srv.sample = r.srv.sample) ∧ r'.srv.sockets fd = r.srv.sockets fd)
      (fun u v hu h => ?_) _ ⟨⟨rfl, rfl⟩, rfl⟩
    obtain ⟨⟨hclient, hsample⟩, hsocket⟩ := hu
    have hrest := (readSampleRound_stored h).rest
    have hother := readSampleRound_others h (by rwa [hclient, hsample])
    refine ⟨⟨?_, ?_⟩, hother.trans hsocket⟩
    · rw [hrest]
      exact hclient
    · rw [hrest]
      exact hsample
  have hevents : (readSample cfg s q).1.events = s.events := by
    rw [(readSample_reads cfg s q).rest]
  refine ⟨?_, [], by rw [hevents, List.append_nil], rfl⟩
  simp only [readSample]
  split_ifs
  · exact (hloop _ _ rfl).2
  · exact (hloop _ _ rfl).2

theorem cacheInto_others (hfd : (s.client c).fd ≠ fd) : Still fd s (cacheInto cfg s c q).1 := by
  have hparent : Still fd s (s.setSample q { s.sample q with parent := c }) := .of_eq rfl rfl
  have hread : Still fd s (readSample cfg (s.setSample q { s.sample q with parent := c }) q).1 :=
    hparent.trans (readSample_others (by simpa [Server.setSample] using hfd))
  have hclient : (readSample cfg (s.setSample q { s.sample q with parent := c }) q).1.client =
      s.client := readSample_client cfg
  simp only [cacheInto]
  generalize readSample cfg (s.setSample q { s.sample q with parent := c }) q = v at hread hclient ⊢
  obtain ⟨u, ok⟩ := v
  cases ok with
  | false => exact hread
  | true =>
    dsimp only at hread hclient ⊢
    split_ifs
    · exact hread.trans (.of_eq rfl rfl)
    · obtain ⟨w, hw⟩ : ∃ w, w = u.setClient c { u.client c with state := .nextRequest } := ⟨_, rfl⟩
      have hsame : Still fd u w := .of_eq (by rw [hw]; rfl) (by rw [hw]; rfl)
      have hdescriptor : (w.client c).fd = (s.client c).fd := by
        simp [hw, Server.setClient, hclient]
      rw [← hw]
      exact (hread.trans hsame).trans ((reply_unread _).still fd (by rwa [hdescriptor, ne_comm]))

variable (cfg) in
theorem newSample_others (hfd : (s.client c).fd ≠ fd) : Still fd s (newSample cfg env s c).1 := by
  have hwrite : ∀ (u : Server) w, u.sockets = s.sockets → u.events = s.events →
      Still fd s (u.writeInt (s.client c).fd w).1 := fun u w h hevents =>
    (Still.of_eq h hevents).trans (sysWrite_still hfd.symm _)
  simp only [newSample]
  split_ifs
  · exact .refl fd s
  · exact hwrite _ _ rfl rfl
  · exact .of_eq rfl rfl

theorem esdProtoSampleCache_others (hfd : (s.client c).fd ≠ fd)
    (h : esdProtoSampleCache cfg env s c = some r) : Still fd s r.1 := by
  obtain ⟨hsame, -⟩ := newSample_cached cfg env s c
  have hnew : Still fd s (newSample cfg env s c).1 := newSample_others cfg hfd
  simp only [esdProtoSampleCache] at h
  split_ifs at h with hcaching hnull
  · split at h
    · cases h
    · split_ifs at h <;> cases h
      · exact .refl fd s
      · exact cacheInto_others hfd
  · cases h
    exact hnew
  · cases h
    have hclient : ((addSample (newSample cfg env s c).1 (newSample cfg env s c).2).client c).fd ≠ fd := by
      change ((newSample cfg env s c).1.client c).fd ≠ fd
      rwa [hsame.client]
    have hadd : Still fd s (addSample (newSample cfg env s c).1 (newSample cfg env s c).2) :=
      hnew.trans (.of_eq rfl rfl)
    exact hadd.trans (cacheInto_others hclient)

/-- What the turn reads before any handler is called comes from the client's own socket. -/
def Opening.Elsewhere (fd : ℤ) (s : Server) : Opening → Prop
  | done t _ | handles _ t => Still fd s t
  | resumes => True

theorem opening_elsewhere (hfd : (s.client c).fd ≠ fd) : (opening env s c).Elsewhere fd s := by
  have hread : ∀ t : Server, t.sockets fd = s.sockets fd → t.events = s.events → Still fd s t :=
    fun t h hevents => ⟨h, [], by rw [hevents, List.append_nil], rfl⟩
  have hdata : ∀ request, (readReqdata request s c).1.sockets fd = s.sockets fd :=
    fun _ => Function.update_of_ne hfd.symm _ _
  have hword : (readRequestWord s c).1.sockets fd = s.sockets fd := Function.update_of_ne hfd.symm _ _
  simp only [opening]
  split_ifs
  · exact .refl fd s
  · cases (s.client c).state with
    | streamingData => exact .refl fd s
    | cachingSample => trivial
    | needsReqdata =>
      simp only [openReqdata]
      split
      · exact .refl fd s
      · split_ifs
        · exact .refl fd s
        · exact hread _ (hdata _) rfl
        · exact hread _ (hdata _) rfl
        · exact hread _ (hdata _) rfl
    | nextRequest =>
      simp only [openRequest]
      split_ifs
      · exact hread _ hword rfl
      · split
        · exact hread _ hword rfl
        · exact hread _ hword rfl
        · simp only [openBegun]
          split_ifs <;> exact hread _ hword rfl

/-- The turn of a client takes nothing from the sockets of others and writes nothing to them. -/
theorem pollClient_still (hfd : (s.client c).fd ≠ fd) (h : pollClient cfg env s c = some t) :
    Still fd s t := by
  obtain ⟨r, hr, rfl⟩ := Option.map_eq_some_iff.mp h
  have hturn : Still fd s r.1 := by
    have helse : (opening env s c).Elsewhere fd s := opening_elsewhere hfd
    have hfits := opening_fits env c s
    rw [pollTurn_eq] at hr
    cases hopen : opening env s c with
    | done u ok =>
      rw [hopen] at hr helse
      cases hr
      exact helse
    | handles request u =>
      rw [hopen] at hr helse hfits
      obtain ⟨r', hr', rfl⟩ := Option.map_eq_some_iff.mp hr
      have hfd' : (u.client c).fd ≠ fd := by rwa [hfits.1.fd]
      have hhandled : Still fd u r'.1 := by
        by_cases hcache : request = .sampleCache
        · subst hcache
          exact esdProtoSampleCache_others hfd' hr'
        · exact (handler_unread hcache hr').still fd hfd'.symm
      exact (helse.trans hhandled).trans (.of_eq rfl rfl)
    | resumes =>
      rw [hopen] at hr
      simp only [Opening.finish, pollCachingSample] at hr
      obtain ⟨r', hr', rfl⟩ := Option.map_eq_some_iff.mp hr
      exact (esdProtoSampleCache_others hfd hr').trans (.of_eq rfl rfl)
  split_ifs
  · exact hturn
  · exact hturn.trans (eraseClient_idles.still fd)

theorem pollClient_listed {d : Ptr} (hd : d ≠ c) (hnull : d ≠ 0)
    (h : pollClient cfg env s c = some t) (hlisted : d ∈ s.esdClientsList) : d ∈ t.esdClientsList := by
  obtain ⟨r, hr, rfl⟩ := Option.map_eq_some_iff.mp h
  have hcached : ∀ u r', esdProtoSampleCache cfg env u c = some r' →
      r'.1.esdClientsList = u.esdClientsList := by
    intro u r' hr'
    cases esdProtoSampleCache_uploads hr' with
    | none v shelf same => exact same.clients
    | start v isNew w same shelf notNull r' caches => exact caches.clients.trans same.clients
    | resume caching q found notNull r' caches => exact caches.clients
  have hturn : d ∈ r.1.esdClientsList := by
    cases pollTurn_ends hr with
    | heard r hheard => rwa [hheard.lists.1]
    | handled request u hheard active state r' hr' =>
      have hu : d ∈ u.esdClientsList := by rwa [hheard.lists.1]
      by_cases hcache : request = .sampleCache
      · subst hcache
        change d ∈ r'.1.esdClientsList
        rwa [hcached u r' hr']
      · exact (handler_unread hcache hr').clients d hnull hu
    | resumed caching r' hr' =>
      change d ∈ r'.1.esdClientsList
      rwa [hcached s r' hr']
  split_ifs
  · exact hturn
  · have herased : Untouched d 0 r.1 (eraseClient r.1 c) := eraseClient_untouched hd.symm
    exact herased.clients hturn

end Turns

end Esound
