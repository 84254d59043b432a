import Esound.MainLoop
import Esound.Reading

/-!
# A pass over the clients

`poll_client_requests` follows the list of clients from its head, and looks up the next client
when a turn is over. A turn may list a stream, and it may end with the client going; whoever is
still ahead stays where he is.
-/

open Library.Buffer Library.Loop Library.Transition Library.Walk

namespace Esound

/-- The list that a request adds a player to. -/
def Proto.listed : Proto → Option PlayerList
  | streamPlay | samplePlay | sampleLoop => some .players
  | streamRec => some .recorders
  | streamMon => some .monitors
  | streamFilt => some .filters
  | _ => none

/-- No client came or went, and a player was listed only where the request says. -/
structure Enlists (request : Proto) (s t : Server) : Prop where
  clients : t.esdClientsList = s.esdClientsList
  lists : ∀ l p, p ∈ t.list l → p ∈ s.list l ∨ request.listed = some l

section Handlers

variable {cfg : Config} {env : PollEnv} {s t u : Server} {c p : Ptr} {request : Proto}
  {r : Server × Bool}

theorem Enlists.same (hclients : t.esdClientsList = s.esdClientsList) (hlists : t.list = s.list) :
    Enlists request s t :=
  ⟨hclients, fun l _ hp => .inl (congrFun hlists l ▸ hp)⟩

theorem Enlists.refl (s : Server) : Enlists request s s := .same rfl rfl

theorem Enlists.of_objects (h : t.objects = s.objects) : Enlists request s t :=
  .same (congrArg Objects.clients h) (congrArg Objects.lists h)

theorem Enlists.trans (h : Enlists request s t) (h' : Enlists request t u) : Enlists request s u :=
  ⟨h'.clients.trans h.clients, fun l p hp => (h'.lists l p hp).elim (h.lists l p) .inr⟩

theorem pushTo_enlists {l : PlayerList} (p : Ptr) (h : request.listed = some l) :
    Enlists request s (pushTo s l p) := by
  refine ⟨by cases l <;> rfl, fun l' q hq => ?_⟩
  rcases eq_or_ne l' l with rfl | hne
  · exact .inr h
  · refine .inl ?_
    cases l <;> cases l' <;> first | exact hq | exact absurd rfl hne

theorem writeAll_clients (fd : ℤ) (rows : List (List Octet)) :
    (writeAll s fd rows).1.esdClientsList = s.esdClientsList := by
  induction rows generalizing s with
  | nil => rfl
  | cons bs rest ih =>
    cases rest with
    | nil => rfl
    | cons bs' rest' => exact ih

theorem writePlayers_clients (cl : EsdClient) (ps : List Ptr) (scales : Word × Word) :
    (writePlayers cl ps scales s).1.esdClientsList = s.esdClientsList := by
  induction ps generalizing s scales with
  | nil =>
    simp only [writePlayers]
    exact writeAll_clients _ _
  | cons p ps ih =>
    simp only [writePlayers]
    split_ifs
    · exact (ih _).trans (writeAll_clients _ _)
    · exact writeAll_clients _ _

theorem writeSamples_clients (cl : EsdClient) (qs : List Ptr) (scales : Word × Word) :
    (writeSamples cl qs scales s).1.esdClientsList = s.esdClientsList := by
  induction qs generalizing s scales with
  | nil =>
    simp only [writeSamples]
    exact writeAll_clients _ _
  | cons q qs ih =>
    simp only [writeSamples]
    split_ifs
    · exact (ih _).trans (writeAll_clients _ _)
    · exact writeAll_clients _ _

theorem esdProtoServerInfo_clients :
    (esdProtoServerInfo s cfg c).1.esdClientsList = s.esdClientsList := by
  simp only [esdProtoServerInfo]
  exact writeAll_clients _ _

theorem esdProtoAllInfo_clients :
    (esdProtoAllInfo cfg env s c).1.esdClientsList = s.esdClientsList := by
  have hinfo : (esdProtoServerInfo s cfg c).1.esdClientsList = s.esdClientsList :=
    esdProtoServerInfo_clients
  simp only [esdProtoAllInfo]
  split
  · rename_i t heq
    rwa [heq] at hinfo
  · rename_i t heq
    rw [heq] at hinfo
    have hplayers := writePlayers_clients (s := t) (s.client c) t.esdPlayersList env.stackInts
    split
    · rename_i u heq'
      rw [heq'] at hplayers
      exact hplayers.trans hinfo
    · rename_i u heq'
      rw [heq'] at hplayers
      exact (writeSamples_clients _ _ _).trans (hplayers.trans hinfo)

theorem esdProtoConnect_clients : (esdProtoConnect s c).1.esdClientsList = s.esdClientsList := by
  have hsource := congrArg Objects.clients
    (esdValidateSource_frame (s := s) (c := c) (s.client c).key false).1
  simp only [esdProtoConnect]
  generalize esdValidateSource s c (s.client c).key false = v at hsource ⊢
  obtain ⟨t, ok⟩ := v
  cases ok with
  | false => exact hsource
  | true =>
    simp only [esdCheckEndian]
    split_ifs <;> exact hsource

/-- A player that has no parent yet takes no client with it. -/
theorem freePlayer_clients (hnull : 0 ∉ s.esdClientsList) (h : (s.player p).parent = 0)
    (mode : (s.player p).IsStream) : (freePlayer s p).esdClientsList = s.esdClientsList := by
  have hobj := congrArg Objects.clients (objects_freePlayer_stream s mode)
  rw [h] at hobj
  exact hobj.trans (List.erase_of_not_mem hnull)

theorem setParent_enlists (h : Enlists request s t) : Enlists request s (setParent t p c) :=
  h.trans (.same rfl rfl)

theorem setTranslateFunc_enlists (h : Enlists request s t) :
    Enlists request s (setTranslateFunc t p) :=
  h.trans (.same rfl rfl)

theorem setStreaming_enlists (h : Enlists request s t) : Enlists request s (setStreaming t c) :=
  h.trans (.same rfl rfl)

theorem newStreamPlayer_enlists : Enlists request s (newStreamPlayer cfg env s c).1 := by
  rcases newStreamPlayer_cases cfg env s c with h | ⟨v, h, -⟩ <;> rw [h] <;> exact .same rfl rfl

theorem joinRecorders_enlists (p : Ptr) : Enlists .streamRec s (joinRecorders s c p).1 := by
  have hpush : Enlists .streamRec s (pushTo s .recorders p) := pushTo_enlists p rfl
  exact setStreaming_enlists (setTranslateFunc_enlists (setParent_enlists hpush))

theorem giveUpRecorder_enlists (hnull : 0 ∉ s.esdClientsList) (h : (s.player p).parent = 0)
    (mode : (s.player p).IsStream) : Enlists .streamRec s (giveUpRecorder env s p) := by
  have hlists : (freePlayer s p).list = s.list :=
    congrArg Objects.lists (objects_freePlayer_stream s mode)
  have hfree : Enlists .streamRec s (freePlayer s p) :=
    .same (freePlayer_clients hnull h mode) hlists
  refine hfree.trans ?_
  simp only [giveUpRecorder]
  cases env.audioOpen 2 <;> exact .same rfl rfl

theorem reopenToRecord_enlists (hnull : 0 ∉ s.esdClientsList) (h : (s.player p).parent = 0)
    (mode : (s.player p).IsStream) : Enlists .streamRec s (reopenToRecord env s c p).1 := by
  obtain ⟨u, hu⟩ : ∃ u, u = { esdAudioClose s with
      esdAudioFormat := (esdAudioClose s).esdAudioFormat ||| esdRecord } := ⟨_, rfl⟩
  have hclose : Enlists .streamRec s u := .of_objects (by rw [hu]; rfl)
  have hopen : (esdAudioOpen u (env.audioOpen 1)).1.objects = s.objects := by
    rw [hu]
    cases env.audioOpen 1 <;> rfl
  simp only [reopenToRecord, ← hu]
  generalize esdAudioOpen u (env.audioOpen 1) = w at hopen ⊢
  obtain ⟨v, ok⟩ := w
  have hv : Enlists .streamRec s v := .of_objects hopen
  have hplayer : v.player = s.player := congrArg Objects.player hopen
  cases ok with
  | true => exact hv.trans (joinRecorders_enlists p)
  | false =>
    refine hv.trans (giveUpRecorder_enlists ?_ ?_ ?_)
    · rwa [hv.clients]
    · rwa [hplayer]
    · rwa [hplayer]

theorem startRecorder_enlists (hnull : 0 ∉ s.esdClientsList) :
    Enlists .streamRec s (startRecorder cfg env s c).1 := by
  have hnew : Enlists .streamRec s (newStreamPlayer cfg env s c).1 := newStreamPlayer_enlists
  have hstream : (newStreamPlayer cfg env s c).2 ≠ 0 →
      ((newStreamPlayer cfg env s c).1.player (newStreamPlayer cfg env s c).2).parent = 0 ∧
        ((newStreamPlayer cfg env s c).1.player (newStreamPlayer cfg env s c).2).IsStream := by
    rcases newStreamPlayer_cases cfg env s c with h | ⟨v, h, -, mode, hparent, -⟩
    · exact fun hne => absurd (congrArg Prod.snd h) hne
    · rw [h]
      exact fun _ => by simpa [Server.setPlayer] using ⟨hparent, mode⟩
  simp only [startRecorder]
  generalize newStreamPlayer cfg env s c = a at hnew hstream ⊢
  split_ifs with hstandby hnone
  · exact .refl s
  · exact hnew
  · refine hnew.trans (reopenToRecord_enlists ?_ (hstream hnone).1 (hstream hnone).2)
    rwa [hnew.clients]
  · exact hnew.trans (joinRecorders_enlists _)

theorem playSample_enlists (hlisted : request.listed = some .players) (id : ℤ) (loop : Bool) :
    Enlists request s (playSample cfg env s id loop).1 := by
  have hnew : Enlists request s (newSamplePlayer cfg env s id loop).1 := by
    simp only [newSamplePlayer]
    split
    · exact .refl s
    · split_ifs
      · exact .refl s
      · split <;> exact .same rfl rfl
      · split <;> exact .same rfl rfl
  simp only [playSample]
  split_ifs
  · exact hnew
  · exact hnew.trans (pushTo_enlists _ hlisted)

theorem cacheInto_enlists (q : Ptr) : Enlists request s (cacheInto cfg s c q).1 := by
  have hread : ∀ u : Server, Enlists request u (readSample cfg u q).1 := by
    intro u
    have hloop : Enlists request u (whileFuel (readSampleRound cfg q)
        (((u.sample q).sampleLength - (u.sample q).cachedLength).toNat + 1)
        ⟨u, (u.sample q).cachedLength, true, false⟩).srv := by
      refine whileFuel_invariant (fun r : ReadSample => Enlists request u r.srv)
        (fun r r' hr h => hr.trans ?_) _ (.refl u)
      simp only [readSampleRound] at h
      split_ifs at h
      split at h
      · cases h
        exact .same rfl rfl
      · cases h
        exact .same rfl rfl
      · split_ifs at h <;> cases h <;> exact .same rfl rfl
    simp only [readSample]
    split_ifs
    · exact hloop
    · exact hloop.trans (.same rfl rfl)
  have hparent : Enlists request s (s.setSample q { s.sample q with parent := c }) := .same rfl rfl
  have hall := hparent.trans (hread _)
  simp only [cacheInto]
  generalize readSample cfg (s.setSample q { s.sample q with parent := c }) q = a at hall ⊢
  obtain ⟨t, ok⟩ := a
  cases ok with
  | false => exact hall
  | true =>
    simp only
    split_ifs <;> exact hall.trans (.same rfl rfl)

theorem esdProtoSampleCache_enlists (h : esdProtoSampleCache cfg env s c = some r) :
    Enlists request s r.1 := by
  have hnew : Enlists request s (newSample cfg env s c).1 := by
    simp only [newSample]
    split_ifs <;> exact .same rfl rfl
  simp only [esdProtoSampleCache] at h
  split_ifs at h with hstate
  · split at h
    · cases h
    · split_ifs at h <;> cases h
      · exact .refl s
      · exact cacheInto_enlists _
  · cases h
    exact hnew
  · cases h
    have hadd : Enlists request (newSample cfg env s c).1
        (addSample (newSample cfg env s c).1 (newSample cfg env s c).2) := .same rfl rfl
    exact (hnew.trans hadd).trans (cacheInto_enlists _)

theorem esdProtoAuthorized_enlists (hauth : request.Authorizes) (hconnect : request ≠ .connect)
    (h : handler cfg env request s c = some r) : Enlists request s r.1 := by
  cases request with
  | connect => exact absurd rfl hconnect
  | lock =>
    cases h
    exact .of_objects objects_esdProtoLock
  | unlock =>
    cases h
    exact .of_objects objects_esdProtoUnlock
  | standby =>
    cases h
    exact .of_objects objects_esdProtoStandby
  | resume =>
    cases h
    exact .of_objects objects_esdProtoResume
  | _ => exact hauth.elim

/-- What a handler does to the lists. -/
theorem handler_enlists (hnull : 0 ∉ s.esdClientsList) (h : handler cfg env request s c = some r) :
    Enlists request s r.1 := by
  have hnew : Enlists request s (newStreamPlayer cfg env s c).1 := newStreamPlayer_enlists
  cases request with
  | lock | unlock | standby | resume => exact esdProtoAuthorized_enlists trivial (by decide) h
  | connect =>
    cases h
    exact .same esdProtoConnect_clients esdProtoConnect_besides.lists
  | streamPlay =>
    cases h
    simp only [esdProtoStreamPlay]
    generalize newStreamPlayer cfg env s c = a at hnew ⊢
    split_ifs
    · exact hnew
    · exact setStreaming_enlists ((setParent_enlists hnew).trans (pushTo_enlists _ rfl))
  | streamMon =>
    cases h
    simp only [esdProtoStreamMonitor]
    generalize newStreamPlayer cfg env s c = a at hnew ⊢
    split_ifs
    · exact hnew
    · exact setStreaming_enlists (setTranslateFunc_enlists ((setParent_enlists hnew).trans (pushTo_enlists _ rfl)))
  | streamFilt =>
    cases h
    simp only [esdProtoStreamFilter]
    generalize newStreamPlayer cfg env s c = a at hnew ⊢
    split_ifs
    · exact hnew
    · exact setStreaming_enlists ((setParent_enlists hnew).trans (pushTo_enlists _ rfl))
  | streamRec =>
    cases h
    simp only [esdProtoStreamRecorder]
    split_ifs
    · have hresume : Enlists .streamRec s (esdServerResume s (env.audioOpen 0)).1 :=
        .of_objects (objects_esdServerResume _)
      refine hresume.trans (startRecorder_enlists ?_)
      rwa [hresume.clients]
    · exact startRecorder_enlists hnull
  | sampleCache => exact esdProtoSampleCache_enlists h
  | sampleFree =>
    cases h
    have herase : Enlists .sampleFree s (eraseSample s ((s.client c).param 0) false) := by
      simp only [eraseSample]
      split
      · exact .refl s
      · split_ifs <;> exact .same rfl rfl
    exact herase.trans (.same rfl rfl)
  | samplePlay | sampleLoop =>
    cases h
    exact (playSample_enlists rfl _ _).trans (.same rfl rfl)
  | sampleStop =>
    cases h
    have hstop : Enlists .sampleStop s (stopSample s ((s.client c).param 0)).1 := by
      simp only [stopSample]
      split <;> exact .same rfl rfl
    exact hstop.trans (.same rfl rfl)
  | sampleKill | subscribe | unsubscribe =>
    cases h
    exact .refl s
  | sampleGetid =>
    cases h
    simp only [esdProtoSampleGetid]
    split <;> exact .same rfl rfl
  | serverInfo =>
    cases h
    exact .same esdProtoServerInfo_clients esdProtoServerInfo_besides.lists
  | allInfo =>
    cases h
    exact .same esdProtoAllInfo_clients esdProtoAllInfo_besides.lists
  | streamPan =>
    cases h
    simp only [esdProtoStreamPan]
    split <;> exact .same rfl rfl
  | samplePan =>
    cases h
    simp only [esdProtoSamplePan]
    split <;> exact .same rfl rfl
  | standbyMode | latency =>
    cases h
    exact .same rfl rfl

/-- A turn leaves the list of clients alone, even where its client is about to go. -/
theorem pollTurn_clients (hnull : 0 ∉ s.esdClientsList) (h : pollTurn cfg env s c = some r) :
    r.1.esdClientsList = s.esdClientsList := by
  cases pollTurn_ends h with
  | heard _ hheard => exact hheard.lists.1
  | handled request u hheard _ _ r' hr' =>
    have hu : 0 ∉ u.esdClientsList := by rwa [hheard.lists.1]
    exact (handler_enlists hu hr').clients.trans hheard.lists.1
  | resumed _ r' hr' =>
    have hcache : Enlists .sampleCache s r'.1 := esdProtoSampleCache_enlists hr'
    exact hcache.clients

end Handlers

/-! ## Following the pointers -/

section Walks

variable {cfg : Config} {s : Server}

/-- The loop of `poll_client_requests`, along the pointers. -/
def pollWalk (cfg : Config) (env : Ptr → PollEnv) (s : Server) : Option Server :=
  walk (fun s c => pollTurn cfg (env c) s c) (fun r c => after r.1.esdClientsList c)
    (fun r c => if r.2 then r.1 else eraseClient r.1 c) s.esdClientsList.length
    s.esdClientsList.head? s

/-- These clients have still to be visited. -/
structure Ahead (s : Server) (rest : List Ptr) : Prop where
  nodup : s.esdClientsList.Nodup
  notNull : 0 ∉ s.esdClientsList
  split : ∃ before, s.esdClientsList = before ++ rest

theorem Ahead.passed {env : PollEnv} {c : Ptr} {rest : List Ptr} {r : Server × Bool}
    (h : Ahead s (c :: rest)) (hr : pollTurn cfg env s c = some r) :
    after r.1.esdClientsList c = rest.head? ∧
      Ahead (if r.2 then r.1 else eraseClient r.1 c) rest := by
  obtain ⟨hnodup, hnull, before, hlist⟩ := h
  have hclients := pollTurn_clients hnull hr
  have hc : c ∉ before := by
    rw [hlist] at hnodup
    exact fun hmem => (List.nodup_append.mp hnodup).2.2 c hmem c List.mem_cons_self rfl
  refine ⟨?_, ?_⟩
  · rw [hclients, hlist]
    exact after_append_cons hc
  · split_ifs
    · exact ⟨hclients ▸ hnodup, hclients ▸ hnull, before ++ [c], by simp [hclients, hlist]⟩
    · have herase : (eraseClient r.1 c).esdClientsList = s.esdClientsList.erase c := by
        rw [← hclients]
        exact congrArg Objects.clients (objects_eraseClient r.1 c)
      refine ⟨herase ▸ hnodup.erase c, fun h0 => hnull (List.mem_of_mem_erase (herase ▸ h0)), before, ?_⟩
      rw [herase, hlist, List.erase_append_right _ hc, List.erase_cons_head]

/-- Along the pointers, each client that is listed when `poll_client_requests` begins has one
turn, in the order of the list, whoever is erased on the way. -/
theorem pollWalk_eq (hw : s.objects.WellFormed) (env : Ptr → PollEnv) :
    pollWalk cfg env s = pollClientRequests cfg env s :=
  walk_eq_foldlM Ahead (fun _ _ _ _ h hr => h.passed hr) s.esdClientsList
    ⟨hw.clients_nodup, hw.client_ne_null, [], rfl⟩

/-! ### In the loop -/

/-- Between two turns comes nothing but, maybe, `SIGUSR1`. -/
def LoopInput.Polls : LoopInput → Prop
  | .poll _ | .usr1 => True
  | _ => False

instance : DecidablePred LoopInput.Polls := fun i => by cases i <;> unfold LoopInput.Polls <;> infer_instance

/-- A loop over one of the lists of players, along the pointers: `turn` says whether the player
is to be taken off, which `leave` does. -/
def playerWalk (l : PlayerList) (turn : Server × ℤ → Ptr → (Server × ℤ) × Bool)
    (leave : Server → Ptr → Server) (s : Server) (n : ℤ) : Option (Server × ℤ) :=
  walk (fun a p => some (turn a p)) (fun r p => after (r.1.1.list l) p)
    (fun r p => if r.2 then (leave r.1.1 p, r.1.2) else r.1) (s.list l).length (s.list l).head? (s, n)

theorem playerWalk_eq {l : PlayerList} {turn : Server × ℤ → Ptr → (Server × ℤ) × Bool}
    {leave : Server → Ptr → Server} (hturn : ∀ a p, (turn a p).1.1.list l = a.1.list l)
    (hleave : ∀ t p, (leave t p).list l = (t.list l).erase p) (hnodup : (s.list l).Nodup) (n : ℤ) :
    playerWalk l turn leave s n = some ((s.list l).foldl
      (fun a p => if (turn a p).2 then (leave (turn a p).1.1 p, (turn a p).1.2) else (turn a p).1)
      (s, n)) := by
  have hwalk : playerWalk l turn leave s n = (s.list l).foldlM (fun a p => (some (turn a p)).map
      fun r => if r.2 then (leave r.1.1 p, r.1.2) else r.1) (s, n) :=
    walk_eq_foldlM (fun a rest => (a.1.list l).Nodup ∧ ∃ before, a.1.list l = before ++ rest) ?_
      (s.list l) ⟨hnodup, [], rfl⟩
  · refine hwalk.trans ?_
    simp only [Option.map_some]
    exact List.foldlM_pure
  · rintro a p r rest ⟨hnodup, before, hlist⟩ hr
    cases hr
    have hp : p ∉ before := by
      rw [hlist] at hnodup
      exact fun hmem => (List.nodup_append.mp hnodup).2.2 p hmem p List.mem_cons_self rfl
    refine ⟨?_, ?_⟩
    · simp only [hturn, hlist]
      exact after_append_cons hp
    · split_ifs
      · simp only [hleave, hturn]
        refine ⟨hnodup.erase p, before, ?_⟩
        rw [hlist, List.erase_append_right _ hp, List.erase_cons_head]
      · simp only [hturn]
        exact ⟨hnodup, before ++ [p], by simp [hlist]⟩

/-! ### The three lists that are walked for sound -/

/-- Working on a player leaves the lists alone. -/
theorem carriedLists : Carried fun s t => t.list = s.list where
  behind s t h := by
    rw [h.rest]
    rfl
  players _ _ _ := rfl
  client s c := eraseClient_list s c
  trans _ _ _ h h' := h'.trans h

/-- `read_player` and what it gives for the mix. -/
def mixReadTurn (cfg : Config) (canRead : Ptr → Bool) (length : ℤ) (a : Server × ℤ) (p : Ptr) :
    (Server × ℤ) × Bool :=
  let (s, actual) := readPlayer (canRead p) a.1 p
  if actual = 0 ∧ (s.player p).actualLength = 0 then ((s, a.2), false)
  else if actual < 0 then ((s, a.2), true)
  else
    let t := translated cfg (s.player p) length
    ((s, if a.2 = 0 then t else if a.2 > t then t else a.2), false)

def monitorTurn (cfg : Config) (canWrite : Ptr → Bool) (a : Server × ℤ) (p : Ptr) :
    (Server × ℤ) × Bool :=
  if canWrite p then
    let (s, _) := translateInto cfg a.1 p a.2
    let (s, length) := writeBuffer s p
    ((s, length), decide (length < 0))
  else (a, false)

def recorderTurn (cfg : Config) (poll : Ptr → RecorderPoll) (length : ℤ) (a : Server × ℤ)
    (p : Ptr) : (Server × ℤ) × Bool :=
  let (s, wroteLen) := writePlayer cfg (poll p) a.1 p length
  ((s, wroteLen), decide (wroteLen < 0))

/-- `erase_client( remove->parent )`, and then the player itself. -/
def leaveWithClient (l : PlayerList) (s : Server) (p : Ptr) : Server :=
  eraseFrom (eraseClient s (s.player p).parent) l p

theorem leaveWithClient_list (l : PlayerList) (s : Server) (p : Ptr) :
    (leaveWithClient l s p).list l = (s.list l).erase p := by
  rw [leaveWithClient, eraseFrom_list, eraseClient_list]

theorem mixReadTurn_list (canRead : Ptr → Bool) (length : ℤ) (a : Server × ℤ) (p : Ptr) :
    (mixReadTurn cfg canRead length a p).1.1.list = a.1.list := by
  have hread : (readPlayer (canRead p) a.1 p).1.list = a.1.list := carriedLists.readPlayer _ _
  simp only [mixReadTurn]
  split_ifs <;> exact hread

theorem monitorTurn_list (canWrite : Ptr → Bool) (a : Server × ℤ) (p : Ptr) :
    (monitorTurn cfg canWrite a p).1.1.list = a.1.list := by
  have hinto : (translateInto cfg a.1 p a.2).1.list = a.1.list := carriedLists.translateInto _ _
  simp only [monitorTurn]
  split_ifs
  · exact (carriedLists.writeBuffer p).trans hinto
  · rfl

theorem recorderTurn_list (poll : Ptr → RecorderPoll) (length : ℤ) (a : Server × ℤ) (p : Ptr) :
    (recorderTurn cfg poll length a p).1.1.list = a.1.list :=
  carriedLists.writePlayer (poll p) p length

theorem mixReadTurn_leave (canRead : Ptr → Bool) (length : ℤ) (a : Server × ℤ) (p : Ptr) :
    (if (mixReadTurn cfg canRead length a p).2 then
        (erasePlayer (mixReadTurn cfg canRead length a p).1.1 p,
          (mixReadTurn cfg canRead length a p).1.2)
      else (mixReadTurn cfg canRead length a p).1) = mixReadOne cfg canRead length a p := by
  by_cases hnothing : (readPlayer (canRead p) a.1 p).2 = 0 ∧
      ((readPlayer (canRead p) a.1 p).1.player p).actualLength = 0
  · simp only [mixReadTurn, mixReadOne, if_pos hnothing]
    rfl
  · by_cases hends : (readPlayer (canRead p) a.1 p).2 < 0
    · simp only [mixReadTurn, mixReadOne, if_neg hnothing, if_pos hends, if_true]
    · simp only [mixReadTurn, mixReadOne, if_neg hnothing, if_neg hends]
      rfl

theorem monitorTurn_leave (canWrite : Ptr → Bool) (a : Server × ℤ) (p : Ptr) :
    (if (monitorTurn cfg canWrite a p).2 then
        (leaveWithClient .monitors (monitorTurn cfg canWrite a p).1.1 p,
          (monitorTurn cfg canWrite a p).1.2)
      else (monitorTurn cfg canWrite a p).1) = monitorOne cfg canWrite a p := by
  by_cases hcan : canWrite p
  · by_cases hfails : (writeBuffer (translateInto cfg a.1 p a.2).1 p).2 < 0
    · simp only [monitorTurn, monitorOne, if_pos hcan, hfails, decide_true, if_true]
      rfl
    · simp only [monitorTurn, monitorOne, if_pos hcan, hfails, decide_false, if_false]
      rfl
  · simp only [monitorTurn, monitorOne, if_neg hcan]
    rfl

theorem recorderTurn_leave (poll : Ptr → RecorderPoll) (length : ℤ) (a : Server × ℤ) (p : Ptr) :
    (if (recorderTurn cfg poll length a p).2 then
        (leaveWithClient .recorders (recorderTurn cfg poll length a p).1.1 p,
          (recorderTurn cfg poll length a p).1.2)
      else (recorderTurn cfg poll length a p).1) = recorderOne cfg poll length a p := by
  by_cases hfails : (writePlayer cfg (poll p) a.1 p length).2 < 0
  · simp only [recorderTurn, recorderOne, hfails, decide_true, if_true]
    rfl
  · simp only [recorderTurn, recorderOne, hfails, decide_false, if_false]
    rfl

/-- Along the pointers, a mixing cycle reads every listed player once, and a block goes to every
listed monitor and recorder once, whoever is erased on the way. -/
theorem soundWalks_eq (hw : s.objects.WellFormed) (canRead canWrite : Ptr → Bool)
    (poll : Ptr → RecorderPoll) (length : ℤ) :
    playerWalk .players (mixReadTurn cfg canRead cfg.esdBufSizeOctets) erasePlayer (clearMix cfg s) 0 =
        some (mixRead cfg canRead s) ∧
      (playerWalk .monitors (monitorTurn cfg canWrite) (leaveWithClient .monitors) s length).map Prod.fst =
        some (monitorWrite cfg canWrite s length) ∧
      playerWalk .recorders (recorderTurn cfg poll length) (leaveWithClient .recorders) s 0 =
        some (s.esdRecorderList.foldl (recorderOne cfg poll length) (s, 0)) := by
  refine ⟨?_, ?_, ?_⟩
  · have hwalk := @playerWalk_eq (clearMix cfg s) .players _ erasePlayer
      (fun a p => congrFun (@mixReadTurn_list cfg canRead cfg.esdBufSizeOctets a p) .players)
      (fun t p => eraseFrom_list .players p) (hw.lists_nodup .players) 0
    simp only [mixReadTurn_leave] at hwalk
    exact hwalk
  · have hwalk := playerWalk_eq (s := s)
      (fun a p => congrFun (@monitorTurn_list cfg canWrite a p) .monitors)
      (leaveWithClient_list .monitors) (hw.lists_nodup .monitors) length
    simp only [monitorTurn_leave] at hwalk
    rw [hwalk]
    rfl
  · have hwalk := playerWalk_eq (s := s)
      (fun a p => congrFun (@recorderTurn_list cfg poll length a p) .recorders)
      (leaveWithClient_list .recorders) (hw.lists_nodup .recorders) 0
    simp only [recorderTurn_leave] at hwalk
    exact hwalk

end Walks

/-- Of two clients the one at the head of the list hangs up. -/
def hangupRun : List Action :=
  [.accept 1 5 (.sending [handshake 7]), .accept 2 6 (.sending [])]

theorem hangupRun_ends : (exec (step .smallBlocks) NoReset .blank hangupRun).isSome := by
  decide +kernel

def beforeHangup : Server := (exec (step .smallBlocks) NoReset .blank hangupRun).get hangupRun_ends

theorem pollWalk_eq_hangup :
    beforeHangup.esdClientsList = [2, 1] ∧
      (pollWalk .smallBlocks (fun _ => .allocating 0) beforeHangup).map Server.esdClientsList =
        some [1] := by
  have hrun : Runs .smallBlocks NoReset .blank hangupRun beforeHangup := Run.of_isSome hangupRun_ends
  refine ⟨by decide +kernel, ?_⟩
  rw [pollWalk_eq (Run.wellFormed hrun Server.blank_initial.wellFormed)]
  decide +kernel

def streamingState : Server :=
  (exec (step .smallBlocks) NoReset .blank (streamingRun [])).get streamingRun_ends

/-- The stream ends, and its player leaves the list that is walked. -/
theorem soundWalks_eq_ending :
    streamingState.esdPlayersList = [2] ∧
      (playerWalk .players (mixReadTurn .smallBlocks (fun _ => true) 16) erasePlayer
        (clearMix .smallBlocks streamingState) 0).map (fun a => a.1.esdPlayersList) = some [] := by
  have hrun : Runs .smallBlocks NoReset .blank (streamingRun []) streamingState :=
    Run.of_isSome streamingRun_ends
  have hw := Run.wellFormed hrun Server.blank_initial.wellFormed
  have hwalk := (@soundWalks_eq .smallBlocks _ hw (fun _ => true) (fun _ => true)
    (fun _ => ⟨0, false⟩) 0).1
  refine ⟨by decide +kernel, ?_⟩
  change (playerWalk .players (mixReadTurn .smallBlocks (fun _ => true)
    (Config.smallBlocks.esdBufSizeOctets : ℤ)) erasePlayer _ 0).map _ = _
  rw [hwalk]
  decide +kernel

end Esound
