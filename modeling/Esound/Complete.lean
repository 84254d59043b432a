import Esound.SampleRefs
import Esound.Uploads

/-!
# Complete samples

A sample is listed before any of it has arrived, and nothing takes it off the list when its
upload is suspended or fails. What is played, and what is left after a failure, is said here
by what the turns of the clients come to.
-/

open Library.Buffer Library.Transition

namespace Esound

def EsdSample.Complete (v : EsdSample) : Prop := v.cachedLength = v.sampleLength

instance (v : EsdSample) : Decidable v.Complete := inferInstanceAs (Decidable (_ = _))

/-- `read_sample` failed in this step for the sample at `q`. -/
inductive UploadFailed (s t : Server) : Action → Ptr → Prop
  | begun (c : Ptr) (env : PollEnv) (protoData : List Octet)
      (calls : t.calls = s.calls ++ [.handled c .sampleCache protoData false]) :
      UploadFailed s t (.poll c env) env.malloc
  | resumed (c q : Ptr) (env : PollEnv) (calls : t.calls = s.calls ++ [.resumed c false])
      (found : findCachingSample s c = some q) (notNull : q ≠ 0) :
      UploadFailed s t (.poll c env) q

/-- The sample players that were not there before play complete samples. -/
def StartsComplete (s t : Server) : Prop :=
  ∀ p ∈ t.esdPlayersList, p ∉ s.esdPlayersList → (t.player p).IsSample →
    (t.sample (t.player p).parent).Complete

instance (s t : Server) : Decidable (StartsComplete s t) :=
  inferInstanceAs (Decidable (∀ p ∈ t.esdPlayersList, _))

structure OnlyComplete (s : Server) (a : Action) (t : Server) : Prop where
  started : StartsComplete s t
  dropped : ∀ q, UploadFailed s t a q → q ∉ t.esdSamplesList

/-! ## What decides it -/

/-- A format there are functions to mix for. -/
def Mixable (format : Word) : Prop :=
  (format &&& esdMaskBits = esdBits8 ∨ format &&& esdMaskBits = esdBits16) ∧
    (format &&& esdMaskChan = esdMono ∨ format &&& esdMaskChan = esdStereo)

instance (format : Word) : Decidable (Mixable format) := inferInstanceAs (Decidable (_ ∧ _))

/-- Nothing keeps `new_sample_player` from making a player. -/
def PlayerRoom (cfg : Config) (env : PollEnv) (v : EsdSample) (loop : Bool) : Prop :=
  env.malloc ≠ 0 ∧ Mixable (samplePlayerFormat v.format loop) ∧ env.mallocData = true ∧
    0 ≤ bufferLength cfg (samplePlayerFormat v.format loop) v.rate

instance (cfg : Config) (env : PollEnv) (v : EsdSample) (loop : Bool) :
    Decidable (PlayerRoom cfg env v loop) := inferInstanceAs (Decidable (_ ∧ _))

/-- Nothing keeps `new_sample` from making a sample. -/
def SampleRoom (env : PollEnv) (s : Server) (c : Ptr) : Prop :=
  env.malloc ≠ 0 ∧ env.mallocData = true ∧ 0 ≤ (s.client c).param 8

instance (env : PollEnv) (s : Server) (c : Ptr) : Decidable (SampleRoom env s c) :=
  inferInstanceAs (Decidable (_ ∧ _))

/-- The octets of a sample of this length end before it does. -/
def EndsEarly (s : Server) (c : Ptr) (length : ℤ) : Prop :=
  (s.sockets (s.client c).fd).ready.length < length ∧ ¬ (s.sockets (s.client c).fd).Pauses

instance (s : Server) (c : Ptr) (length : ℤ) : Decidable (EndsEarly s c length) :=
  inferInstanceAs (Decidable (_ ∧ _))

def PlaysComplete (cfg : Config) (env : PollEnv) (loop : Bool) (s : Server) (c : Ptr) : Prop :=
  ∀ q ∈ findSample s ((s.client c).param 0),
    PlayerRoom cfg env (s.sample q) loop → (s.sample q).Complete

instance (cfg : Config) (env : PollEnv) (loop : Bool) (s : Server) (c : Ptr) :
    Decidable (PlaysComplete cfg env loop s c) :=
  inferInstanceAs (Decidable (∀ q ∈ findSample s ((s.client c).param 0), _))

/-- A request finds no sample incomplete that it has played, and does not begin an upload
that fails. -/
def Proto.Harmless (cfg : Config) (env : PollEnv) (s : Server) (c : Ptr) : Proto → Prop
  | sampleCache => SampleRoom env s c → ¬ EndsEarly s c ((s.client c).param 8)
  | samplePlay => PlaysComplete cfg env false s c
  | sampleLoop => PlaysComplete cfg env true s c
  | _ => True

instance (cfg : Config) (env : PollEnv) (s : Server) (c : Ptr) (request : Proto) :
    Decidable (request.Harmless cfg env s c) :=
  match request with
  | .sampleCache => inferInstanceAs (Decidable (SampleRoom env s c → _))
  | .samplePlay => inferInstanceAs (Decidable (PlaysComplete cfg env false s c))
  | .sampleLoop => inferInstanceAs (Decidable (PlaysComplete cfg env true s c))
  | .connect | .lock | .unlock | .streamPlay | .streamRec | .streamMon | .sampleFree | .sampleStop
  | .sampleKill | .standby | .resume | .sampleGetid | .streamFilt | .serverInfo | .allInfo
  | .subscribe | .unsubscribe | .streamPan | .samplePan | .standbyMode | .latency => .isTrue trivial

/-- Nor is an upload resumed to fail. -/
def Opening.Harmless (cfg : Config) (env : PollEnv) (s : Server) (c : Ptr) : Opening → Prop
  | done _ _ => True
  | handles request t => request.Harmless cfg env t c
  | resumes => ∀ q ∈ findCachingSample s c, q ≠ 0 → ¬ s.UploadFails c q

instance (cfg : Config) (env : PollEnv) (s : Server) (c : Ptr) (o : Opening) :
    Decidable (o.Harmless cfg env s c) :=
  match o with
  | .done _ _ => .isTrue trivial
  | .handles request t => inferInstanceAs (Decidable (request.Harmless cfg env t c))
  | .resumes => inferInstanceAs (Decidable (∀ q ∈ findCachingSample s c, _))

def UploadsSound (cfg : Config) (s : Server) : Action → Prop
  | .poll c env => (opening env s c).Harmless cfg env s c
  | _ => True

instance (cfg : Config) (s : Server) (a : Action) : Decidable (UploadsSound cfg s a) :=
  match a with
  | .poll c env => inferInstanceAs (Decidable ((opening env s c).Harmless cfg env s c))
  | .accept .. | .refresh | .mix _ | .wake _ | .filter .. | .monitor .. | .recorder ..
  | .autostandby | .reconnect _ | .reset _ => .isTrue trivial

/-! ## Starting a player -/

section Starting

variable {cfg : Config} {env : PollEnv} {s t u v : Server} {c : Ptr} {id : ℤ} {loop : Bool}

theorem StartsComplete.congr_iff (hbefore : u.esdPlayersList = s.esdPlayersList)
    (hlist : v.esdPlayersList = t.esdPlayersList) (hplayer : v.player = t.player)
    (hsample : v.sample = t.sample) : StartsComplete u v ↔ StartsComplete s t := by
  simp only [StartsComplete, hbefore, hlist, hplayer, hsample]

theorem StartsComplete.of_subset (h : t.esdPlayersList ⊆ s.esdPlayersList) : StartsComplete s t :=
  fun _ hp hnew => absurd (h hp) hnew

theorem getMixFunc_isSome_iff (pl : EsdPlayer) : (getMixFunc pl).isSome ↔ Mixable pl.format := by
  simp only [getMixFunc, Mixable]
  split_ifs <;> simp [*]

theorem newSamplePlayer_noRoom
    (h : ∀ q ∈ findSample s id, ¬ PlayerRoom cfg env (s.sample q) loop) :
    newSamplePlayer cfg env s id loop = (s, 0) := by
  simp only [newSamplePlayer]
  cases hfind : findSample s id with
  | none => rfl
  | some q =>
    dsimp only
    split_ifs with hnull hroom
    · rfl
    · split
      · rfl
      · rename_i f hmix
        have hsome := congrArg Option.isSome hmix
        exact absurd ⟨hnull, (getMixFunc_isSome_iff _).mp hsome, hroom⟩ (h q hfind)
    · split <;> rfl

variable (cfg) in
theorem newSamplePlayer_room {q : Ptr} (hfind : findSample s id = some q)
    (hroom : PlayerRoom cfg env (s.sample q) loop) :
    (newSamplePlayer cfg env s id loop).2 = env.malloc ∧
      (newSamplePlayer cfg env s id loop).1.esdPlayersList = s.esdPlayersList ∧
      ((newSamplePlayer cfg env s id loop).1.player env.malloc).IsSample ∧
      ((newSamplePlayer cfg env s id loop).1.player env.malloc).parent = q := by
  obtain ⟨hnull, hmix, hplace⟩ := hroom
  simp only [newSamplePlayer, hfind, hnull, if_false, hplace, and_self, if_true]
  split
  · rename_i hnone
    have hsome := congrArg Option.isSome hnone
    rw [Option.isSome_none, Bool.eq_false_iff] at hsome
    exact absurd ((getMixFunc_isSome_iff _).mpr hmix) hsome
  · refine ⟨rfl, rfl, ?_, ?_⟩
    · simpa [Server.setSample, EsdPlayer.IsSample] using samplePlayerFormat_mode _ _
    · simp [Server.setSample]

theorem playSample_startsComplete_iff (fresh : env.malloc ∉ s.esdPlayersList) :
    StartsComplete s (playSample cfg env s id loop).1 ↔
      ∀ q ∈ findSample s id, PlayerRoom cfg env (s.sample q) loop → (s.sample q).Complete := by
  by_cases hroom : ∃ q ∈ findSample s id, PlayerRoom cfg env (s.sample q) loop
  · obtain ⟨q, hfind, hroom⟩ := hroom
    obtain ⟨hp, hlist, hmode, hparent⟩ := newSamplePlayer_room cfg hfind hroom
    have hsame : ∀ q', ((playSample cfg env s id loop).1.sample q').Complete ↔ (s.sample q').Complete := by
      intro q'
      have hkeeps : Keeps {.starts} s (playSample cfg env s id loop).1 :=
        playSample_keeps (Set.mem_singleton _) id loop
      have hkeep := hkeeps.sample q'
      simp only [EsdSample.Complete, hkeep.cachedLength, hkeep.sampleLength]
    have hplay : (playSample cfg env s id loop).1 =
        addPlayer (newSamplePlayer cfg env s id loop).1 env.malloc := by
      simp only [playSample, hp, hroom.1, if_false]
    have hpush : (addPlayer (newSamplePlayer cfg env s id loop).1 env.malloc).esdPlayersList =
        env.malloc :: s.esdPlayersList := by
      rw [← hlist]
      rfl
    have hplayer : (addPlayer (newSamplePlayer cfg env s id loop).1 env.malloc).player =
        (newSamplePlayer cfg env s id loop).1.player := pushTo_player .players
    rw [hplay] at hsame ⊢
    constructor
    · intro h q' hq' _
      cases Option.some.inj (hfind.symm.trans hq')
      have hone := h env.malloc (by rw [hpush]; exact List.mem_cons_self) fresh
        (by rw [hplayer]; exact hmode)
      rw [hplayer, hparent] at hone
      exact (hsame q).mp hone
    · intro h p hp hnew _
      rw [hpush] at hp
      obtain rfl := (List.mem_cons.mp hp).resolve_right hnew
      rw [hplayer, hparent]
      exact (hsame q).mpr (h q hfind hroom)
  · have hnone : ∀ q ∈ findSample s id, ¬ PlayerRoom cfg env (s.sample q) loop :=
      fun q hq hone => hroom ⟨q, hq, hone⟩
    have hsame : (playSample cfg env s id loop).1 = s := by
      simp only [playSample, newSamplePlayer_noRoom hnone, if_true]
    rw [hsame]
    exact iff_of_true (.of_subset (List.Subset.refl _)) fun q hq hone => absurd hone (hnone q hq)

theorem esdProtoStreamPlay_startsComplete :
    StartsComplete s (esdProtoStreamPlay cfg env s c).1 := by
  rcases newStreamPlayer_cases cfg env s c with hnone | ⟨w, hnew, hnull, mode, -⟩
  · simp only [esdProtoStreamPlay, hnone, if_true]
    exact .of_subset (List.Subset.refl _)
  · intro p hp hold hsample
    simp only [esdProtoStreamPlay, hnew, hnull, if_false] at hp hsample
    obtain rfl := (List.mem_cons.mp hp).resolve_right hold
    have hstream : (((esdProtoStreamPlay cfg env s c).1).player env.malloc).IsStream := by
      simp only [esdProtoStreamPlay, hnew, hnull, if_false]
      simpa [setStreaming, addPlayer, pushTo, Server.setList, setParent, Server.setClient,
        EsdPlayer.IsStream] using mode
    simp only [esdProtoStreamPlay, hnew, hnull, if_false] at hstream
    exact absurd hsample hstream.not_isSample

end Starting

/-! ## Beginning an upload -/

section Beginning

variable {cfg : Config} {env : PollEnv} {s : Server} {c : Ptr}

theorem newSample_noRoom (h : ¬ SampleRoom env s c) : (newSample cfg env s c).2 = 0 := by
  simp only [newSample]
  split_ifs with hnull hroom
  · rfl
  · exact absurd ⟨hnull, hroom⟩ h
  · rfl

variable (cfg) in
theorem newSample_room (h : SampleRoom env s c) :
    (newSample cfg env s c).2 = env.malloc ∧
      ((newSample cfg env s c).1.sample env.malloc).sampleLength = (s.client c).param 8 ∧
      ((newSample cfg env s c).1.sample env.malloc).cachedLength = 0 := by
  obtain ⟨hnull, hdata, hlength⟩ := h
  have hplace : env.mallocData = true ∧
      0 ≤ (maybeSwap32 (s.client c).swapByteOrder ((s.client c).protoData.int 8)).toInt :=
    ⟨hdata, hlength⟩
  simp only [newSample, hnull, if_false, hplace, and_self, if_true]
  refine ⟨trivial, ?_, ?_⟩ <;> simp [Server.writeInt, Server.sysWrite, Server.setSample, EsdClient.param]

theorem esdProtoSampleCache_begins {r : Server × Bool} (state : (s.client c).state ≠ .cachingSample)
    (fresh : env.malloc ∉ s.esdSamplesList) (h : esdProtoSampleCache cfg env s c = some r) :
    r.1.esdPlayersList = s.esdPlayersList ∧
      ((r.2 = false → env.malloc ∉ r.1.esdSamplesList) ↔
        (SampleRoom env s c → ¬ EndsEarly s c ((s.client c).param 8))) := by
  obtain ⟨hsame, hcases⟩ := newSample_cached cfg env s c
  simp only [esdProtoSampleCache, state, if_false] at h
  by_cases hroom : SampleRoom env s c
  · obtain ⟨hp, hlength, hcached⟩ := newSample_room cfg hroom
    rw [hp, if_neg hroom.1] at h
    cases h
    obtain ⟨u, hu⟩ : ∃ u, addSample (newSample cfg env s c).1 env.malloc = u := ⟨_, rfl⟩
    have hlists : u.esdPlayersList = s.esdPlayersList ∧ env.malloc ∈ u.esdSamplesList := by
      obtain ⟨hzero, -⟩ | ⟨-, -, v, -, hshelf⟩ := hcases
      · exact absurd (hp.symm.trans hzero) hroom.1
      · rw [← hu]
        exact ⟨congrArg Shelf.players hshelf, List.mem_cons_self⟩
    have hsample : (u.sample env.malloc).cachedLength = 0 ∧
        (u.sample env.malloc).sampleLength = (s.client c).param 8 := by
      rw [← hu]
      exact ⟨hcached, hlength⟩
    have hready : (u.sockets (u.client c).fd).input = (s.sockets (s.client c).fd).input := by
      rw [← hu]
      exact (hsame.input _).trans (by rw [← hsame.client]; rfl)
    have hfails : u.UploadFails c env.malloc ↔ EndsEarly s c ((s.client c).param 8) := by
      simp only [Server.UploadFails, EndsEarly, Socket.ready, Socket.Pauses, hready, hsample, zero_add]
    have hcaches : Caches c env.malloc u (cacheInto cfg u c env.malloc) := cacheInto_caches
    have hfailed := (hcaches.ends (by rw [hsample.1, hsample.2]; exact hroom.2.2)).failed
    rw [hu]
    refine ⟨(congrArg Shelf.players hcaches.shelf).trans hlists.1, ?_⟩
    rw [hfailed, hfails, hcaches.samples]
    exact ⟨fun h _ hearly => h hearly hlists.2, fun h hearly => absurd hearly (h hroom)⟩
  · rw [newSample_noRoom hroom, if_pos rfl] at h
    cases h
    obtain ⟨-, hshelf⟩ | ⟨hmalloc, hnull, -⟩ := hcases
    · have hsamples : (newSample cfg env s c).1.esdSamplesList = s.esdSamplesList :=
        congrArg Shelf.samples hshelf
      refine ⟨congrArg Shelf.players hshelf, ?_⟩
      rw [hsamples]
      exact iff_of_true (fun _ => fresh) fun h => absurd h hroom
    · exact absurd (hmalloc.symm.trans (newSample_noRoom hroom)) hnull

theorem esdProtoSampleCache_resumes {r : Server × Bool} (caching : (s.client c).state = .cachingSample)
    (hs : s.Cached) (h : esdProtoSampleCache cfg env s c = some r) :
    r.1.esdPlayersList = s.esdPlayersList ∧
      ((r.2 = false → ∀ q ∈ findCachingSample s c, q ≠ 0 → q ∉ r.1.esdSamplesList) ↔
        ∀ q ∈ findCachingSample s c, q ≠ 0 → ¬ s.UploadFails c q) := by
  simp only [esdProtoSampleCache, caching, if_true] at h
  cases hfound : findCachingSample s c with
  | none =>
    rw [hfound] at h
    cases h
  | some q =>
    simp only [hfound] at h
    simp only [Option.mem_some_iff, forall_eq']
    split_ifs at h with hnull
    · cases h
      exact ⟨rfl, iff_of_true (fun _ hq => absurd hnull hq) fun hq => absurd hnull hq⟩
    · cases h
      have hlisted : q ∈ s.esdSamplesList := List.mem_of_mem_head? (findCachingSample_mem hfound hnull).1
      have hcaches : Caches c q s (cacheInto cfg s c q) := cacheInto_caches
      refine ⟨congrArg Shelf.players hcaches.shelf, ?_⟩
      rw [(hcaches.ends (hs q hlisted)).failed, hcaches.samples]
      exact ⟨fun h hq hfails => h hfails hq hlisted, fun h hfails hq => absurd hfails (h hq)⟩

end Beginning

/-! ## Steps and runs -/

section Steps

variable {cfg : Config} {env : PollEnv} {s t u : Server} {c : Ptr} {a : Action} {r : Server × Bool}

theorem handler_onlyComplete_iff {request : Proto} (state : (s.client c).state = .nextRequest)
    (fresh : Action.Fresh s env.malloc) (h : handler cfg env request s c = some r) :
    (StartsComplete s r.1 ∧ (request = .sampleCache → r.2 = false → env.malloc ∉ r.1.esdSamplesList)) ↔
      request.Harmless cfg env s c := by
  have hplayers : env.malloc ∉ s.esdPlayersList := by
    intro hmem
    exact fresh.1 (by simp [Server.allPlayers, hmem])
  cases request with
  | sampleCache =>
    obtain ⟨hlist, hiff⟩ := esdProtoSampleCache_begins (by simp [state]) fresh.2 h
    have hstarts : StartsComplete s r.1 := .of_subset (by rw [hlist]; exact List.Subset.refl _)
    simp only [hstarts, true_and, forall_const, Proto.Harmless]
    exact hiff
  | samplePlay =>
    cases h
    have hreply : StartsComplete s (esdProtoSamplePlay cfg env s c).1 ↔
        StartsComplete s (playSample cfg env s ((s.client c).param 0) false).1 :=
      StartsComplete.congr_iff rfl rfl rfl rfl
    simp only [hreply, reduceCtorEq, false_implies, and_true]
    exact playSample_startsComplete_iff hplayers
  | sampleLoop =>
    cases h
    have hreply : StartsComplete s (esdProtoSampleLoop cfg env s c).1 ↔
        StartsComplete s (playSample cfg env s ((s.client c).param 0) true).1 :=
      StartsComplete.congr_iff rfl rfl rfl rfl
    simp only [hreply, reduceCtorEq, false_implies, and_true]
    exact playSample_startsComplete_iff hplayers
  | streamPlay =>
    cases h
    exact iff_of_true ⟨esdProtoStreamPlay_startsComplete, by simp⟩ trivial
  | _ =>
    have hkeeps := (handler_shelved (by simp) h).players (by simp [starts_mem_deeds])
    exact iff_of_true ⟨.of_subset hkeeps, by simp⟩ trivial

theorem afterTurn_kept (c : Ptr) (r : Server × Bool) :
    (if r.2 then r.1 else eraseClient r.1 c).shelf = r.1.shelf ∧
      (if r.2 then r.1 else eraseClient r.1 c).player = r.1.player ∧
      (if r.2 then r.1 else eraseClient r.1 c).calls = r.1.calls := by
  simp only [eraseClient]
  split_ifs <;> exact ⟨rfl, rfl, rfl⟩

theorem UploadFailed.congr {q : Ptr} (hcalls : u.calls = t.calls) (h : UploadFailed s t a q) :
    UploadFailed s u a q := by
  cases h with
  | begun c env protoData calls => exact .begun c env protoData (hcalls.trans calls)
  | resumed c q env calls found notNull => exact .resumed c q env (hcalls.trans calls) found notNull

theorem OnlyComplete.congr_iff (hshelf : t.shelf = u.shelf) (hplayer : t.player = u.player)
    (hcalls : t.calls = u.calls) : OnlyComplete s a t ↔ OnlyComplete s a u := by
  have hstarts : StartsComplete s t ↔ StartsComplete s u :=
    StartsComplete.congr_iff rfl (congrArg Shelf.players hshelf) hplayer (congrArg Shelf.sample hshelf)
  have hsamples : t.esdSamplesList = u.esdSamplesList := congrArg Shelf.samples hshelf
  refine ⟨fun h => ⟨hstarts.mp h.started, fun q hq => ?_⟩,
    fun h => ⟨hstarts.mpr h.started, fun q hq => ?_⟩⟩
  · exact hsamples ▸ h.dropped q (hq.congr hcalls)
  · exact hsamples ▸ h.dropped q (hq.congr hcalls.symm)

theorem handled_onlyComplete_iff {request : Proto} (hheard : Heard c s t)
    (state : (t.client c).state = .nextRequest) (fresh : Action.Fresh s env.malloc)
    (h : handler cfg env request t c = some r) (protoData : List Octet) :
    OnlyComplete s (.poll c env) (r.1.record (.handled c request protoData r.2)) ↔
      request.Harmless cfg env t c := by
  have hlists : t.esdPlayersList = s.esdPlayersList ∧ t.esdSamplesList = s.esdSamplesList ∧
      t.allPlayers = s.allPlayers ∧ t.calls = s.calls := by
    rw [hheard.rest]
    exact ⟨rfl, rfl, rfl, rfl⟩
  have hfresh : Action.Fresh t env.malloc := by
    simpa only [Action.Fresh, hlists] using fresh
  have hiff := handler_onlyComplete_iff state hfresh h
  have hstarts : StartsComplete s (r.1.record (.handled c request protoData r.2)) ↔
      StartsComplete t r.1 := StartsComplete.congr_iff hlists.1.symm rfl rfl rfl
  have hcalls : request = .sampleCache → r.1.calls = s.calls := by
    rintro rfl
    have hserves : Serves cfg c True t r :=
      esdProtoSampleCache_serves (by rw [state]; decide) hfresh.2 h
    exact (congrArg Ledger.calls (hserves.ledger trivial)).trans hlists.2.2.2
  refine Iff.trans ?_ hiff
  refine ⟨fun h => ⟨hstarts.mp h.started, ?_⟩, fun h => ⟨hstarts.mpr h.1, ?_⟩⟩
  · rintro rfl hfail
    have hfailed := h.dropped env.malloc (.begun c env protoData (by
      simp only [Server.record, hcalls rfl, hfail]))
    exact hfailed
  · intro q hq
    cases hq with
    | begun c env protoData calls =>
      obtain ⟨-, hcall⟩ := List.append_inj' calls rfl
      simp only [List.cons.injEq, Call.handled.injEq, and_true, true_and] at hcall
      exact h.2 hcall.1 hcall.2.2
    | resumed c q env calls =>
      obtain ⟨-, hcall⟩ := List.append_inj' calls rfl
      simp at hcall

theorem resumed_onlyComplete_iff (hs : s.Cached) (state : (s.client c).state = .cachingSample)
    (fresh : Action.Fresh s env.malloc) (h : esdProtoSampleCache cfg env s c = some r) :
    OnlyComplete s (.poll c env) (r.1.record (.resumed c r.2)) ↔
      ∀ q ∈ findCachingSample s c, q ≠ 0 → ¬ s.UploadFails c q := by
  obtain ⟨hlist, hiff⟩ := esdProtoSampleCache_resumes state hs h
  have hserves : Serves cfg c True s r :=
    esdProtoSampleCache_serves (by rw [state]; decide) fresh.2 h
  have hcalls : r.1.calls = s.calls := congrArg Ledger.calls (hserves.ledger trivial)
  have hstarts : StartsComplete s (r.1.record (.resumed c r.2)) := by
    refine .of_subset ?_
    change r.1.esdPlayersList ⊆ s.esdPlayersList
    rw [hlist]
    exact List.Subset.refl _
  refine Iff.trans ?_ hiff
  refine ⟨fun h hfail q hfound hnull => ?_, fun h => ⟨hstarts, fun q hq => ?_⟩⟩
  · exact h.dropped q (.resumed c q env (by rw [← hfail, ← hcalls]; rfl) hfound hnull)
  · cases hq with
    | begun c env protoData calls =>
      obtain ⟨-, hcall⟩ := List.append_inj' calls rfl
      simp at hcall
    | resumed c q env calls found notNull =>
      obtain ⟨-, hcall⟩ := List.append_inj' calls rfl
      simp only [List.cons.injEq, Call.resumed.injEq, and_true, true_and] at hcall
      exact h hcall q found notNull

/-- What a turn comes to decides what becomes of the samples in it. -/
theorem pollTurn_onlyComplete_iff (hs : s.Cached) (fresh : Action.Fresh s env.malloc)
    (h : pollTurn cfg env s c = some r) :
    OnlyComplete s (.poll c env) r.1 ↔ (opening env s c).Harmless cfg env s c := by
  have hfits := opening_fits env c s
  rw [pollTurn_eq] at h
  cases hopen : opening env s c with
  | done t ok =>
    rw [hopen] at h hfits
    cases h
    have hrest : t = { s with client := Function.update s.client c (t.client c), sockets := t.sockets } :=
      hfits.rest
    have hcalls : t.calls = s.calls := by rw [hrest]
    refine iff_of_true ⟨.of_subset ?_, fun q hq => ?_⟩ trivial
    · rw [hrest]
      exact List.Subset.refl _
    · cases hq with
      | begun c env protoData calls =>
        rw [hcalls] at calls
        simp at calls
      | resumed c q env calls =>
        rw [hcalls] at calls
        simp at calls
  | handles request t =>
    rw [hopen] at h hfits
    obtain ⟨hheard, -, state⟩ := hfits
    obtain ⟨r', hr', rfl⟩ := Option.map_eq_some_iff.mp h
    exact handled_onlyComplete_iff hheard state fresh hr' _
  | resumes =>
    rw [hopen] at h hfits
    obtain ⟨r', hr', rfl⟩ := Option.map_eq_some_iff.mp h
    exact resumed_onlyComplete_iff hs hfits fresh hr'

theorem step_onlyComplete_iff (hs : s.Cached) (h : step cfg s a = some t) :
    OnlyComplete s a t ↔ UploadsSound cfg s a := by
  cases a with
  | poll c env =>
    obtain ⟨⟨-, fresh⟩, h⟩ := step_eq_some h
    obtain ⟨r, hr, rfl⟩ := Option.map_eq_some_iff.mp h
    obtain ⟨hshelf, hplayer, hcalls⟩ := afterTurn_kept c r
    rw [OnlyComplete.congr_iff hshelf hplayer hcalls]
    exact pollTurn_onlyComplete_iff hs fresh hr
  | _ =>
    have hshelved : Shelved {.frees} s t := step_shelved rfl h (by simp)
    exact iff_of_true ⟨.of_subset (hshelved.players (by simp)), by rintro q ⟨⟩⟩ trivial

variable {ok : Server → Action → Prop} {as : List Action}

/-- In all steps of a run only complete samples are played and failed ones are dropped, if and
only if no request has an incomplete sample played and no upload fails. -/
theorem only_complete_samples_iff (hs : s.Initial) (h : Runs cfg ok s as t) :
    (∀ bs a u v, bs ++ [a] <+: as → Runs cfg ok s bs u → step cfg u a = some v →
      OnlyComplete u a v) ↔ Runs cfg (UploadsSound cfg) s as t := by
  have hcached : s.Cached := by
    intro q hq
    simp [hs.samples] at hq
  exact h.steps_iff (I := Server.Cached) (P := OnlyComplete)
    (fun _ _ _ hs _ hstep => step_cached hs hstep)
    (fun _ _ _ hs _ hstep => step_onlyComplete_iff hs hstep) hcached

end Steps

theorem cachingRun_sound :
    (exec (step .smallBlocks) (UploadsSound .smallBlocks) .blank cachingRun).isSome := by
  decide +kernel

theorem only_complete_samples_iff_cached :
    ∃ t, Runs .smallBlocks (fun _ _ => True) .blank cachingRun t ∧
      ∀ bs a u v, bs ++ [a] <+: cachingRun → Runs .smallBlocks (fun _ _ => True) .blank bs u →
        step .smallBlocks u a = some v → OnlyComplete u a v :=
  ⟨_, (Run.of_isSome cachingRun_sound).mono fun _ _ _ => trivial,
    (only_complete_samples_iff Server.blank_initial
      ((Run.of_isSome cachingRun_sound).mono fun _ _ _ => trivial)).mpr (Run.of_isSome cachingRun_sound)⟩

/-- A client sends two octets of a sample of four and closes the connection. -/
def failingRun : List Action :=
  [.accept 1 5 (.sending
      [handshake 7, Word.octets 6#32,
        Word.octets (esdBits16 ||| esdMono) ++ Word.octets 44100#32 ++ Word.octets 4#32 ++
          nameArray [],
        [1, 2]]),
    .poll 1 (.allocating 0), .poll 1 (.allocating 0), .poll 1 (.allocating 2)]

/-- Another asks for the sample to be played. -/
def playingFailedRun : List Action :=
  failingRun ++
    [.accept 3 6 (.sending [handshake 7, Word.octets 8#32, Word.octets 1#32]),
      .poll 3 (.allocating 0), .poll 3 (.allocating 0)]

theorem playingFailedRun_ends :
    (exec (step .smallBlocks) NoReset .blank playingFailedRun).isSome := by
  decide +kernel

/-- The sample of a failed upload is there and is played. -/
theorem failed_upload_played :
    ∃ t u, Runs .smallBlocks NoReset .blank playingFailedRun t ∧
      (t.calls.any fun call => call matches .handled 1 .sampleCache _ false) ∧
      t.esdSamplesList = [2] ∧ step .smallBlocks t (.poll 3 (.allocating 4)) = some u ∧
      ¬ StartsComplete t u :=
  ⟨_, _, Run.of_isSome playingFailedRun_ends, by decide +kernel, by decide +kernel,
    (Option.some_get (by decide +kernel)).symm, by decide +kernel⟩

end Esound
