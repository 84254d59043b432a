import Esound.Objects

/-!
# The daemon does effects

Every function of the daemon, seen from the objects, is a sequence of effects of the
abstract model, with the footprint one expects of it. What is left over is the
ledger of ownership and of the protocol, which only the handlers of the protocol
touch.
-/

open Library.Buffer Library.Loop Library.Transition Relation

namespace Esound

structure Ledger where
  owned : Bool
  locked : Bool
  key : List Octet
  calls : List Call

namespace Server

@[simps] def objects (s : Server) : Objects where
  clients := s.esdClientsList
  client := s.client
  lists := s.list
  player := s.player
  playerData := s.playerData
  samples := s.esdSamplesList
  sample := s.sample
  playing := s.esdPlayingSamples
  nextId := s.esdNextSampleId
  stock := s.events.filter fun e => e.player.isSome

@[simps] def ledger (s : Server) : Ledger where
  owned := s.esdIsOwned
  locked := s.esdIsLocked
  key := s.esdOwnerKey
  calls := s.calls

end Server

/-- Effects, and the ledger as it was. -/
structure Does (cfg : Config) (F : Footprint) (s t : Server) : Prop where
  effects : Effects cfg F s.objects t.objects
  ledger : t.ledger = s.ledger

namespace Does

variable {cfg : Config} {F G : Footprint} {s t u : Server}

theorem refl (s : Server) : Does cfg F s s := ⟨.refl, rfl⟩

theorem trans (h : Does cfg F s t) (h' : Does cfg F t u) : Does cfg F s u :=
  ⟨h.effects.trans h'.effects, h'.ledger.trans h.ledger⟩

theorem mono (hFG : F ≤ G) (h : Does cfg F s t) : Does cfg G s t :=
  ⟨h.effects.mono hFG, h.ledger⟩

theorem single (h : Effect cfg F s.objects t.objects) (hl : t.ledger = s.ledger) :
    Does cfg F s t :=
  ⟨.single h, hl⟩

theorem same (h : t.objects = s.objects) (hl : t.ledger = s.ledger) : Does cfg F s t :=
  ⟨h ▸ .refl, hl⟩

theorem wellFormed (h : Does cfg F s t) (hw : s.objects.WellFormed) : t.objects.WellFormed :=
  h.effects.wellFormed hw

end Does

/-! ## Setting a field -/

section Setters

variable {cfg : Config} {F : Footprint} (s : Server)

theorem list_setList (l : PlayerList) (ps : List Ptr) :
    (s.setList l ps).list = Function.update s.list l ps := by
  funext l'
  cases l <;> cases l' <;> rfl

theorem mem_allPlayers {s : Server} {p : Ptr} : p ∈ s.allPlayers ↔ ∃ l, p ∈ s.list l := by
  constructor
  · intro h
    simp only [Server.allPlayers, List.mem_append] at h
    rcases h with ((h | h) | h) | h
    · exact ⟨.players, h⟩
    · exact ⟨.recorders, h⟩
    · exact ⟨.monitors, h⟩
    · exact ⟨.filters, h⟩
  · rintro ⟨l, h⟩
    cases l <;> simp_all [Server.allPlayers, Server.list]

theorem unlisted_of_notMem {s : Server} {p : Ptr} (h : p ∉ s.allPlayers) :
    s.objects.Unlisted p :=
  fun l hl => h (mem_allPlayers.mpr ⟨l, hl⟩)

theorem objects_setList (l : PlayerList) (ps : List Ptr) :
    (s.setList l ps).objects = s.objects.setList l ps := by
  have hlist := list_setList s l ps
  cases l <;> simp only [Server.objects, Objects.setList, hlist] <;> rfl

theorem ledger_setList (l : PlayerList) (ps : List Ptr) : (s.setList l ps).ledger = s.ledger := by
  cases l <;> rfl

theorem objects_emit_silent {e : Event} (he : e.player = none) :
    (s.emit e).objects = s.objects := by
  simp [Server.objects, Server.emit, he]
  rfl

theorem objects_emit {e : Event} (he : e.player.isSome) :
    (s.emit e).objects = s.objects.account e := by
  simp [Server.objects, Server.emit, he]
  rfl

theorem sysRead_does (fd n : ℤ) : Does cfg F s (s.sysRead fd n).1 := .same rfl rfl

theorem objects_sysWrite (fd : ℤ) (octets : List Octet) :
    (s.sysWrite fd octets).1.objects = s.objects := by
  simp [Server.objects, Server.sysWrite, Event.player]
  rfl

theorem sysWrite_does (fd : ℤ) (octets : List Octet) : Does cfg F s (s.sysWrite fd octets).1 :=
  .same (objects_sysWrite s fd octets) rfl

theorem setSampleData_does (q : Ptr) (m : Mem) : Does cfg F s (s.setSampleData q m) :=
  .same rfl rfl

variable (cfg) in
theorem setClient_does {c : Ptr} {v : EsdClient} (touched : c ∈ F.clients)
    (streaming : v.state = .streamingData ↔ (s.client c).state = .streamingData)
    (fd : v.fd = (s.client c).fd) : Does cfg F s (s.setClient c v) :=
  .single (.client c v touched streaming fd) rfl

theorem setPlayer_does {p : Ptr} {v : EsdPlayer} (kind : v.SameKind (s.player p))
    (touched : v.actualLength = (s.player p).actualLength ∨ p ∈ F.lengths) :
    Does cfg F s (s.setPlayer p v) := by
  refine .single (.players (Function.update s.player p v) ?_ ?_) rfl
  · intro p'
    rcases eq_or_ne p' p with rfl | hne
    · simpa using kind
    · simpa [hne] using EsdPlayer.SameKind.refl _
  · intro p'
    rcases eq_or_ne p' p with rfl | hne
    · simpa using touched
    · simp [hne, Server.objects]

theorem setPlayerData_does {p : Ptr} (m : Mem) (touched : p ∈ F.players) :
    Does cfg F s (s.setPlayerData p m) :=
  .single (.buffer p m touched) rfl

theorem emit_does {e : Event} (touched : ∀ p ∈ e.player, p ∈ F.players) :
    Does cfg F s (s.emit e) := by
  cases he : e.player with
  | none => exact .same (objects_emit_silent s he) rfl
  | some p =>
    refine ⟨?_, rfl⟩
    rw [objects_emit s (by simp [he])]
    exact .single (.account e fun p hp => .inl (touched p hp))

theorem setSample_does {q : Ptr} {v : EsdSample} (id : v.sampleId = (s.sample q).sampleId)
    (refs : v.refCount = (s.sample q).refCount)
    (flag : v.eraseWhenDone = (s.sample q).eraseWhenDone) : Does cfg F s (s.setSample q v) :=
  .single (.sample q v id refs flag) rfl

end Setters

/-! ## Objects that go -/

section Removal

variable {cfg : Config} {F : Footprint} (s : Server)

theorem objects_eraseClient (c : Ptr) :
    (eraseClient s c).objects = { s.objects with clients := s.objects.clients.erase c } := by
  unfold eraseClient
  split_ifs with hc
  · simp [Server.objects, Event.player]
    rfl
  · simp [Server.objects, List.erase_of_not_mem hc]

theorem ledger_eraseClient (c : Ptr) : (eraseClient s c).ledger = s.ledger := by
  unfold eraseClient
  split_ifs <;> rfl

theorem objects_eraseSample (id : ℤ) :
    (eraseSample s id false).objects = s.objects.eraseSample id := by
  have hfind : (s.objects.samples.find? fun q => (s.objects.sample q).sampleId = id) =
      findSample s id := rfl
  unfold eraseSample Objects.eraseSample
  rw [hfind]
  cases findSample s id with
  | none => rfl
  | some q =>
    by_cases href : (s.sample q).refCount ≠ 0
    · have href' : (s.objects.sample q).refCount ≠ 0 := href
      simp only [href, href', and_true, if_true, ne_eq, not_false_eq_true]
      rfl
    · have href' : ¬ (s.objects.sample q).refCount ≠ 0 := href
      simp only [href, href', false_and, if_false]
      rfl

theorem ledger_eraseSample (id : ℤ) (force : Bool) :
    (eraseSample s id force).ledger = s.ledger := by
  unfold eraseSample
  split
  · rfl
  · split_ifs <;> rfl

theorem eraseSample_does (id : ℤ) : Does cfg F s (eraseSample s id false) := by
  refine ⟨?_, ledger_eraseSample s id false⟩
  rw [objects_eraseSample]
  exact .single (.freeSample id)

theorem ledger_freePlayer (p : Ptr) : (freePlayer s p).ledger = s.ledger := by
  unfold freePlayer
  simp only
  split_ifs
  · exact ledger_eraseClient s _
  · exact ledger_eraseSample _ _ _
  · rfl
  · rfl

theorem setList_player (l : PlayerList) (ps : List Ptr) : (s.setList l ps).player = s.player := by
  cases l <;> rfl

theorem setList_playerData (l : PlayerList) (ps : List Ptr) :
    (s.setList l ps).playerData = s.playerData := by
  cases l <;> rfl

theorem eraseClient_player (c : Ptr) : (eraseClient s c).player = s.player := by
  unfold eraseClient
  split_ifs <;> rfl

theorem eraseClient_playerData (c : Ptr) : (eraseClient s c).playerData = s.playerData := by
  unfold eraseClient
  split_ifs <;> rfl

theorem eraseClient_list (c : Ptr) : (eraseClient s c).list = s.list := by
  unfold eraseClient
  split_ifs <;> rfl

/-- What a player held when it was freed. -/
def droppedOf (p : Ptr) : Event :=
  .dropped p (load (s.playerData p) 0 (s.player p).actualLength.toNat)

theorem objects_freePlayer_stream {p : Ptr} (mode : (s.player p).IsStream) :
    (freePlayer s p).objects =
      { s.objects with
        clients := s.esdClientsList.erase (s.player p).parent
        stock := s.objects.stock ++ [droppedOf s p] } := by
  unfold freePlayer
  simp only [mode, if_true]
  rw [objects_emit _ rfl, objects_eraseClient, eraseClient_playerData]
  rfl

theorem eraseSample_playerData (id : ℤ) (force : Bool) :
    (eraseSample s id force).playerData = s.playerData := by
  unfold eraseSample
  split
  · rfl
  · split_ifs <;> rfl

theorem objects_freePlayer_sample {p : Ptr} (mode : (s.player p).IsSample) :
    (freePlayer s p).objects =
      (s.objects.releaseSample (s.player p).parent).account (droppedOf s p) := by
  have hstream : ¬ (s.player p).IsStream := fun h => h.not_isSample mode
  unfold freePlayer Objects.releaseSample
  simp only [hstream, mode, if_false, if_true, Server.objects_sample, Server.objects_playing]
  by_cases herase : (s.sample (s.player p).parent).eraseWhenDone = true ∧
      (s.sample (s.player p).parent).refCount - 1 = 0
  · rw [if_pos herase, if_pos herase, objects_emit _ rfl, objects_eraseSample,
      eraseSample_playerData]
    rfl
  · rw [if_neg herase, if_neg herase, objects_emit _ rfl]
    rfl

theorem objects_freePlayer_other {p : Ptr} (hstream : ¬ (s.player p).IsStream)
    (hsample : ¬ (s.player p).IsSample) :
    (freePlayer s p).objects = s.objects.account (droppedOf s p) := by
  unfold freePlayer
  simp only [hstream, hsample, if_false]
  exact objects_emit _ rfl

theorem droppedOf_setList (l : PlayerList) (ps : List Ptr) (p : Ptr) :
    droppedOf (s.setList l ps) p = droppedOf s p := by
  unfold droppedOf
  rw [setList_player, setList_playerData]

theorem objects_eraseFrom_stream {l : PlayerList} {p : Ptr} (hl : p ∈ s.list l)
    (mode : (s.player p).IsStream) :
    (eraseFrom s l p).objects =
      { s.objects.unlist l p with clients := s.objects.clients.erase (s.player p).parent } := by
  have hplayer := congrFun (setList_player s l ((s.list l).erase p)) p
  have he := objects_freePlayer_stream (s.setList l ((s.list l).erase p)) (hplayer ▸ mode)
  unfold eraseFrom
  rw [if_pos hl, he, droppedOf_setList, hplayer, objects_setList]
  cases l <;> rfl

theorem objects_eraseFrom_sample {l : PlayerList} {p : Ptr} (hl : p ∈ s.list l)
    (mode : (s.player p).IsSample) :
    (eraseFrom s l p).objects = s.objects.endSample l p := by
  have hplayer := congrFun (setList_player s l ((s.list l).erase p)) p
  have he := objects_freePlayer_sample (s.setList l ((s.list l).erase p)) (hplayer ▸ mode)
  unfold eraseFrom
  rw [if_pos hl, he, droppedOf_setList, hplayer, objects_setList]
  rfl

theorem objects_eraseFrom_other {l : PlayerList} {p : Ptr} (hl : p ∈ s.list l)
    (hstream : ¬ (s.player p).IsStream) (hsample : ¬ (s.player p).IsSample) :
    (eraseFrom s l p).objects = s.objects.unlist l p := by
  have hplayer := congrFun (setList_player s l ((s.list l).erase p)) p
  have he := objects_freePlayer_other (s.setList l ((s.list l).erase p)) (hplayer ▸ hstream)
    (hplayer ▸ hsample)
  unfold eraseFrom
  rw [if_pos hl, he, droppedOf_setList, objects_setList]
  rfl

theorem ledger_eraseFrom (l : PlayerList) (p : Ptr) : (eraseFrom s l p).ledger = s.ledger := by
  unfold eraseFrom
  split_ifs
  · exact (ledger_freePlayer _ p).trans (ledger_setList s l _)
  · rfl

variable {s} in
theorem eraseFrom_does {l : PlayerList} {p : Ptr} (touched : p ∈ F.players) :
    Does cfg F s (eraseFrom s l p) := by
  by_cases hl : p ∈ s.list l
  · refine ⟨?_, ledger_eraseFrom s l p⟩
    by_cases hstream : (s.player p).IsStream
    · rw [objects_eraseFrom_stream s hl hstream]
      exact .single (.closeStream l p touched hl hstream)
    · by_cases hsample : (s.player p).IsSample
      · rw [objects_eraseFrom_sample s hl hsample]
        exact .single (.endSample l p touched hl hsample)
      · rw [objects_eraseFrom_other s hl hstream hsample]
        exact .single (.dropOther l p touched hl hstream hsample)
  · unfold eraseFrom
    rw [if_neg hl]
    exact .refl s

end Removal

/-! ## Reading -/

section Reading

variable {cfg : Config} {F : Footprint} {s : Server} {p : Ptr}

theorem hearStream_does (touched : F.Owns p) : Does cfg F s (hearStream s p).1 := by
  refine Does.trans ?_ (emit_does _ ?_)
  · exact (sysRead_does s _ _).trans (setPlayerData_does _ _ touched.player)
  · simpa [Event.player] using touched.player

theorem readStream_does (canRead : Bool) (touched : F.Owns p) :
    Does cfg F s (readStream canRead s p).1 := by
  have hhear : Does cfg F s (hearStream s p).1 := hearStream_does touched
  unfold readStream
  simp only
  split_ifs
  · exact hhear
  · exact hhear
  · exact (hhear.trans (setPlayerData_does _ _ touched.player)).trans
      (setPlayer_does _ ⟨rfl, rfl, rfl, rfl, rfl⟩ (.inr touched.length))
  · exact .refl s

theorem wrapChunk_kind (sm : EsdSample) (r : SampleRead) :
    (wrapChunk sm r).pl.SameKind r.pl := by
  unfold wrapChunk
  split_ifs
  · exact ⟨rfl, rfl, rfl, rfl, rfl⟩
  · exact .refl _

theorem loopRound_kind {sm : EsdSample} {m : Mem} {r r' : SampleRead}
    (h : loopRound sm m r = some r') : r'.pl.SameKind r.pl := by
  unfold loopRound at h
  simp only at h
  split_ifs at h
  · cases h
    have hcopy : (copyChunk m (sampleChunk sm (wrapChunk sm r).pl) (wrapChunk sm r)).pl.SameKind
        (wrapChunk sm r).pl := ⟨rfl, rfl, rfl, rfl, rfl⟩
    exact ((wrapChunk_kind sm _).trans hcopy).trans (wrapChunk_kind sm r)
  · cases h
    exact wrapChunk_kind sm r
  · cases h
    exact wrapChunk_kind sm r

theorem fillFromSample_kind (sm : EsdSample) (m : Mem) (pl : EsdPlayer) (data : Mem) :
    (fillFromSample sm m pl data).pl.SameKind pl := by
  have hcopy : (copyChunk m (sampleChunk sm pl) ⟨pl, data, 0, true⟩).pl.SameKind pl :=
    ⟨rfl, rfl, rfl, rfl, rfl⟩
  unfold fillFromSample
  simp only
  split_ifs
  · exact hcopy
  · exact whileFuel_invariant (fun r => r.pl.SameKind pl)
      (fun r r' hr h => (loopRound_kind h).trans hr) _ hcopy

theorem readSamplePlayer_does (touched : F.Owns p) :
    Does cfg F s (readSamplePlayer s p).1 := by
  unfold readSamplePlayer
  simp only
  split_ifs
  · exact .refl s
  · exact Does.trans (setPlayerData_does s _ touched.player)
      (setPlayer_does _ (fillFromSample_kind _ _ _ _) (.inr touched.length))
  · exact .refl s

variable (cfg) in
theorem readPlayer_does (canRead : Bool) (touched : F.Owns p) :
    Does cfg F s (readPlayer canRead s p).1 := by
  unfold readPlayer
  split_ifs
  · exact readStream_does canRead touched
  · exact readSamplePlayer_does touched
  · exact .refl s

end Reading

/-! ## The cycle -/

section Mixing

variable {cfg : Config} {F : Footprint} {s : Server} {p : Ptr}

variable (cfg) in
theorem mixReadOne_does (canRead : Ptr → Bool) (length least : ℤ) (touched : F.Owns p) :
    Does cfg F s (mixReadOne cfg canRead length (s, least) p).1 := by
  have hread := readPlayer_does cfg (F := F) (s := s) (canRead p) touched
  unfold mixReadOne
  simp only
  split_ifs
  · exact hread
  · exact hread.trans (eraseFrom_does touched.player)
  · exact hread
  · exact hread
  · exact hread

theorem mixedBuffer_does (s : Server) (m : ℕ → ℤ) : Does cfg F s { s with mixedBuffer := m } :=
  .same rfl rfl

theorem outputBuffer_does (s : Server) (m : Mem) : Does cfg F s { s with outputBuffer := m } :=
  .same rfl rfl

theorem consume_does (used : ℤ) (touched : F.Owns p) : Does cfg F s (consume s p used) := by
  have hused : ∀ bs : List Octet, ∀ r ∈ (Event.used p bs).player, r ∈ F.players := by
    simpa [Event.player] using touched.player
  unfold consume
  simp only
  split_ifs
  · refine Does.trans ?_ (emit_does _ (hused _))
    refine Does.trans ?_ (setPlayer_does _ ⟨rfl, rfl, rfl, rfl, rfl⟩ (.inr touched.length))
    exact setPlayerData_does s _ touched.player
  · refine Does.trans ?_ (emit_does _ (hused _))
    exact setPlayer_does s ⟨rfl, rfl, rfl, rfl, rfl⟩ (.inr touched.length)

theorem mixOne_does (length most : ℤ) (touched : F.Owns p) :
    Does cfg F s (mixOne cfg length (s, most) p).1 := by
  unfold mixOne
  simp only
  split
  · exact .refl s
  · split_ifs
    · exact (mixedBuffer_does s _).trans (consume_does _ touched)
    · exact .refl s

theorem foldl_does {f : Server × ℤ → Ptr → Server × ℤ} {ps : List Ptr}
    (taken : ∀ s n, ∀ p ∈ ps, Does cfg F s (f (s, n) p).1) (acc : Server × ℤ) :
    Does cfg F acc.1 (ps.foldl f acc).1 :=
  foldl_related (fun a b : Server × ℤ => Does cfg F a.1 b.1) (fun a => .refl a.1)
    (fun _ _ _ => .trans) f ps (fun a p hp => taken a.1 a.2 p hp) acc

variable (cfg) in
theorem mixRead_does (canRead : Ptr → Bool) (touched : ∀ p ∈ s.esdPlayersList, F.Owns p) :
    Does cfg F s (mixRead cfg canRead s).1 :=
  (mixedBuffer_does s _).trans
    (foldl_does (fun _ n p hp => mixReadOne_does cfg canRead _ n (touched p hp)) (_, 0))

theorem mixAll_does (least : ℤ) (touched : ∀ p ∈ s.esdPlayersList, F.Owns p) :
    Does cfg F s (mixAll cfg least s).1 :=
  foldl_does (fun _ n p hp => mixOne_does _ n (touched p hp)) (s, 0)

theorem clipMix_does (most : ℤ) : Does cfg F s (clipMix s most).1 := by
  unfold clipMix
  split_ifs <;> exact outputBuffer_does s _

/-- Which players are still listed for the second half does not matter here. -/
theorem mixPlayers_does (canRead : Ptr → Bool) (touched : ∀ p, F.Owns p) :
    Does cfg F s (mixPlayers cfg canRead s).1 := by
  unfold mixPlayers
  simp only
  split_ifs
  · exact ((mixRead_does cfg canRead fun p _ => touched p).trans
      (mixAll_does _ fun p _ => touched p)).trans (clipMix_does _)
  · exact mixRead_does cfg canRead fun p _ => touched p

end Mixing

section Filtering

variable {cfg : Config} {F : Footprint} {s : Server} {p : Ptr}

theorem refreshMixFuncs_does : Does cfg F s (refreshMixFuncs s) := by
  unfold refreshMixFuncs
  split_ifs
  · exact .refl s
  · refine .single (.players _ ?_ ?_) rfl
    · intro p
      dsimp only [Server.objects]
      split_ifs
      · exact ⟨rfl, rfl, rfl, rfl, rfl⟩
      · exact .refl _
    · intro p
      dsimp only [Server.objects]
      split_ifs <;> exact .inl rfl

theorem filterWriteRound_does {dataSize : ℤ} {r r' : FilterWrite}
    (h : filterWriteRound p dataSize r = some r') : Does cfg F r.srv r'.srv := by
  unfold filterWriteRound at h
  simp only at h
  split_ifs at h <;> cases h <;> exact sysWrite_does _ _ _

theorem filterSend_does (dataSize : ℤ) : Does cfg F s (filterSend s p dataSize).srv :=
  whileFuel_related (fun r r' : FilterWrite => Does cfg F r.srv r'.srv)
    (fun r => .refl r.srv) (fun _ _ _ => .trans) (fun _ _ h => filterWriteRound_does h)
    (dataSize.toNat + 1) ⟨s, 0, false⟩

variable (cfg) in
theorem filterExchange_does (canRead : Bool) (dataSize : ℤ) (touched : F.Owns p) :
    Does cfg F s (filterExchange canRead s p dataSize).1 := by
  have hwrite : Does cfg F s (filterSend s p dataSize).srv := filterSend_does dataSize
  unfold filterExchange
  simp only
  split_ifs
  · exact hwrite
  · refine Does.trans ?_ (setPlayer_does _ ⟨rfl, rfl, rfl, rfl, rfl⟩ (.inr touched.length))
    exact hwrite.trans (readPlayer_does cfg canRead touched)
  · exact hwrite.trans (readPlayer_does cfg canRead touched)

variable (cfg) in
theorem filterTranslate_does (size : ℤ) {next : Option Ptr} (touched : ∀ p' ∈ next, p' ∈ F.players) :
    Does cfg F s (filterTranslate cfg size s p next).1 := by
  unfold filterTranslate
  simp only
  split
  · exact .refl s
  · split
    · exact setPlayerData_does s _ (touched _ rfl)
    · exact outputBuffer_does s _

variable (cfg) in
theorem filterOne_does (canRead : Bool) (size dataSize : ℤ) {next : Option Ptr}
    (touched : F.Owns p) (hnext : ∀ p' ∈ next, p' ∈ F.players) :
    Does cfg F s (filterOne cfg canRead size s p next dataSize).1 := by
  have hboth := (filterExchange_does cfg (s := s) canRead dataSize touched).trans
    (filterTranslate_does cfg (p := p) size hnext)
  unfold filterOne
  simp only
  split_ifs
  · exact hboth.trans (eraseFrom_does touched.player)
  · exact hboth

theorem filterLoop_does (canRead : Ptr → Bool) (size : ℤ) (ps : List Ptr) (dataSize : ℤ)
    (touched : ∀ p ∈ ps, F.Owns p) :
    Does cfg F s (filterLoop cfg canRead size ps s dataSize).1 := by
  induction ps generalizing s dataSize with
  | nil => exact .refl s
  | cons p ps ih =>
    have hps : ∀ p' ∈ ps, F.Owns p' := fun p' hp' => touched p' (List.mem_cons_of_mem _ hp')
    have hone := filterOne_does cfg (s := s) (canRead p) size dataSize
      (touched p List.mem_cons_self) fun p' hp' => (hps p' (List.mem_of_mem_head? hp')).player
    exact hone.trans (ih _ hps)

theorem filterFirst_cases {size : ℤ} {r : Server × ℤ} (h : filterFirst cfg s size = some r) :
    ∃ p ∈ s.esdFilterList, ∃ m, r.1 = s.setPlayerData p m := by
  unfold filterFirst at h
  split at h
  · rename_i p ps f hlist hfunc
    cases h
    exact ⟨p, hlist ▸ List.mem_cons_self, _, rfl⟩
  · cases h

theorem filterWrite_does (canRead : Ptr → Bool) (size : ℤ)
    (touched : ∀ p ∈ s.esdFilterList, F.Owns p) :
    Does cfg F s (filterWrite cfg canRead s size).1 := by
  unfold filterWrite
  split
  · exact .refl s
  · rename_i r dataSize hfirst
    obtain ⟨p, hp, m, rfl : r = _⟩ := filterFirst_cases hfirst
    exact (setPlayerData_does s m (touched p hp).player).trans
      (filterLoop_does canRead size _ dataSize touched)

end Filtering

section Monitoring

variable {cfg : Config} {F : Footprint} {s : Server} {l : PlayerList} {p : Ptr}

theorem translateInto_does (length : ℤ) (touched : p ∈ F.players) :
    Does cfg F s (translateInto cfg s p length).1 := by
  unfold translateInto
  simp only
  split
  · exact .refl s
  · exact setPlayerData_does s _ touched

theorem writeBuffer_does : Does cfg F s (writeBuffer s p).1 := sysWrite_does s _ _

theorem translateInto_list (length : ℤ) : (translateInto cfg s p length).1.list = s.list := by
  unfold translateInto
  simp only
  split <;> rfl

theorem translateInto_player (length : ℤ) :
    (translateInto cfg s p length).1.player = s.player := by
  unfold translateInto
  simp only
  split <;> rfl

/-- A stream whose client is erased before it, and then once more with it. -/
theorem eraseClient_eraseFrom_does (hw : s.objects.WellFormed) (hl : l ≠ .players)
    (listed : p ∈ s.list l) (touched : p ∈ F.players) :
    Does cfg F s (eraseFrom (eraseClient s (s.player p).parent) l p) := by
  have mode : (s.player p).IsStream := hw.streams hl listed
  have hobj := objects_eraseClient s (s.player p).parent
  have hplayer := eraseClient_player s (s.player p).parent
  have listed' : p ∈ (eraseClient s (s.player p).parent).list l := by
    rw [eraseClient_list]
    exact listed
  have mode' : ((eraseClient s (s.player p).parent).player p).IsStream := by
    rw [hplayer]
    exact mode
  have hgone : (s.objects.clients.erase (s.player p).parent).erase (s.player p).parent =
      s.objects.clients.erase (s.player p).parent :=
    List.erase_of_not_mem hw.clients_nodup.not_mem_erase
  refine ⟨?_, (ledger_eraseFrom _ l p).trans (ledger_eraseClient s _)⟩
  rw [objects_eraseFrom_stream _ listed' mode', hobj, hplayer]
  simp only [hgone]
  exact .single (.closeStream l p touched listed mode)

/-- A loop over some players of a list, each of which may leave it in its own turn. -/
theorem foldl_listed_does {f : Server × ℤ → Ptr → Server × ℤ}
    (taken : ∀ s n p, s.objects.WellFormed → p ∈ s.list l →
      Does cfg (.written {p}) s (f (s, n) p).1)
    (ps : List Ptr) (acc : Server × ℤ) (hnd : ps.Nodup) (hw : acc.1.objects.WellFormed)
    (listed : ∀ p ∈ ps, p ∈ acc.1.list l) (touched : ∀ p ∈ ps, p ∈ F.players) :
    Does cfg F acc.1 (ps.foldl f acc).1 := by
  induction ps generalizing acc with
  | nil => exact .refl acc.1
  | cons p ps ih =>
    obtain ⟨hp, hnd⟩ := List.nodup_cons.mp hnd
    have hone := taken acc.1 acc.2 p hw (listed p List.mem_cons_self)
    have hle : Footprint.written {p} ≤ F :=
      ⟨Set.empty_subset _, by simpa [Footprint.written] using touched p List.mem_cons_self,
        Set.empty_subset _⟩
    refine (hone.mono hle).trans (ih _ hnd (hone.wellFormed hw) ?_ ?_)
    · intro p' hp'
      have hne : p' ∉ (Footprint.written {p}).players := fun he => hp (he ▸ hp')
      exact (hone.effects.untouched (listed p' (List.mem_cons_of_mem _ hp')) hne
        (Set.notMem_empty p')).listed
    · exact fun p' hp' => touched p' (List.mem_cons_of_mem _ hp')

theorem monitorOne_does (canWrite : Ptr → Bool) (length : ℤ) (hw : s.objects.WellFormed)
    (listed : p ∈ s.list .monitors) (touched : p ∈ F.players) :
    Does cfg F s (monitorOne cfg canWrite (s, length) p).1 := by
  have hwrite : Does cfg F s (writeBuffer (translateInto cfg s p length).1 p).1 :=
    (translateInto_does length touched).trans writeBuffer_does
  have listed' : p ∈ (writeBuffer (translateInto cfg s p length).1 p).1.list .monitors := by
    change p ∈ (translateInto cfg s p length).1.list .monitors
    rwa [translateInto_list]
  unfold monitorOne
  simp only
  split_ifs
  · exact hwrite.trans
      (eraseClient_eraseFrom_does (hwrite.wellFormed hw) (by decide) listed' touched)
  · exact hwrite
  · exact .refl s

theorem monitorWrite_does (canWrite : Ptr → Bool) (length : ℤ) (hw : s.objects.WellFormed)
    (touched : ∀ p ∈ s.esdMonitorList, p ∈ F.players) :
    Does cfg F s (monitorWrite cfg canWrite s length) :=
  foldl_listed_does (l := .monitors)
    (fun s n p hw hp => monitorOne_does canWrite n hw hp (by simp [Footprint.written]))
    s.esdMonitorList (s, length) (hw.lists_nodup .monitors) hw (fun p hp => hp) touched

variable (cfg) in
theorem writePlayer_does (poll : RecorderPoll) (length : ℤ) (touched : p ∈ F.players) :
    Does cfg F s (writePlayer cfg poll s p length).1 := by
  unfold writePlayer
  split_ifs
  · exact .refl s
  · exact ((translateInto_does length touched).trans (setPlayerData_does _ _ touched)).trans
      writeBuffer_does
  · exact .refl s
  · exact .refl s

theorem writePlayer_list (poll : RecorderPoll) (length : ℤ) :
    (writePlayer cfg poll s p length).1.list = s.list := by
  unfold writePlayer
  split_ifs
  · rfl
  · exact translateInto_list length
  · rfl
  · rfl

theorem recorderOne_does (poll : Ptr → RecorderPoll) (length n : ℤ) (hw : s.objects.WellFormed)
    (listed : p ∈ s.list .recorders) (touched : p ∈ F.players) :
    Does cfg F s (recorderOne cfg poll length (s, n) p).1 := by
  have hwrite := writePlayer_does cfg (s := s) (poll p) length touched
  have listed' : p ∈ (writePlayer cfg (poll p) s p length).1.list .recorders := by
    rwa [writePlayer_list]
  unfold recorderOne
  simp only
  split_ifs
  · exact hwrite.trans
      (eraseClient_eraseFrom_does (hwrite.wellFormed hw) (by decide) listed' touched)
  · exact hwrite

theorem esdAudioOpen_does (r : Option ℤ) : Does cfg F s (esdAudioOpen s r).1 := by
  cases r <;> exact .same rfl rfl

theorem esdAudioClose_does : Does cfg F s (esdAudioClose s) := .same rfl rfl

theorem esdServerStandby_does : Does cfg F s (esdServerStandby s).1 := by
  unfold esdServerStandby
  split_ifs <;> exact .same rfl rfl

variable (cfg) in
theorem esdServerResume_does (r : Option ℤ) : Does cfg F s (esdServerResume s r).1 := by
  unfold esdServerResume
  split_ifs
  · cases r <;> exact .same rfl rfl
  · exact .refl s

theorem esdAudioFormat_does (w : Word) : Does cfg F s { s with esdAudioFormat := w } :=
  .same rfl rfl

theorem recorderWrite_does (poll : Ptr → RecorderPoll) (reopen : Option ℤ) (length : ℤ)
    (hw : s.objects.WellFormed) (touched : ∀ p ∈ s.esdRecorderList, p ∈ F.players) :
    Does cfg F s (recorderWrite cfg poll reopen s length).1 := by
  have hloop : Does cfg F s (s.esdRecorderList.foldl (recorderOne cfg poll length) (s, 0)).1 :=
    foldl_listed_does (l := .recorders)
      (fun s n p hw hp => recorderOne_does poll length n hw hp (by simp [Footprint.written]))
      s.esdRecorderList (s, 0) (hw.lists_nodup .recorders) hw (fun p hp => hp) touched
  unfold recorderWrite
  simp only
  split_ifs
  · exact ((hloop.trans esdAudioClose_does).trans (esdAudioFormat_does _)).trans
      (esdAudioOpen_does reopen)
  · exact hloop

end Monitoring

end Esound
