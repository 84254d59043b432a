import Esound.Conservation
import Esound.Keeps

/-!
# A cycle of one player

A cycle gives a player two turns, one to be read and one to be mixed, and between them
and around them the others have theirs. A player of a sample copies the next part of
the sample behind what its buffer still holds; it leaves when there is nothing to copy,
whether the sample is at its end or the buffer is full.
-/

open Library.Buffer Library.Loop Library.Transition

namespace Esound

/-! ## The turns of a cycle -/

/-- Others had their turns. -/
structure Aside (p : Ptr) (s t : Server) : Prop where
  spares : Spares p s t
  shelved : Shelved {.starts}ᶜ s t
  listed : p ∈ s.esdPlayersList → p ∈ t.esdPlayersList

namespace Aside

variable {p : Ptr} {s t u : Server}

theorem refl (s : Server) : Aside p s s := ⟨.refl s, .refl s, id⟩

theorem trans (h : Aside p s t) (h' : Aside p t u) : Aside p s u :=
  ⟨h.spares.trans h'.spares, h.shelved.trans h'.shelved, fun hp => h'.listed (h.listed hp)⟩

theorem listed_iff (h : Aside p s t) : p ∈ t.esdPlayersList ↔ p ∈ s.esdPlayersList :=
  ⟨fun hp => h.shelved.players (by simp) hp, h.listed⟩

end Aside

section Cycle

variable {cfg : Config} {canRead : Ptr → Bool} {p q : Ptr} {s t u : Server}

variable (cfg canRead) in
theorem mixReadOne_aside (h : p ≠ q) (length : ℤ) (acc : Server × ℤ) :
    Aside p acc.1 (mixReadOne cfg canRead length acc q).1 :=
  ⟨mixReadOne_spares h canRead length acc.2,
    shelved_spanned.carried.mixReadOne (fun _ p => eraseFrom_shelved (by simp) .players p) canRead length
      acc q,
    mixReadOne_listed h canRead length acc.2⟩

theorem mixOne_aside (h : p ≠ q) (length : ℤ) (acc : Server × ℤ) :
    Aside p acc.1 (mixOne cfg length acc q).1 := by
  refine ⟨mixOne_spares h length acc.2, (mixOne_idle length acc q).keeps.toShelved, fun hp => ?_⟩
  have hlist : (mixOne cfg length acc q).1.list = acc.1.list := mixOne_list length acc.2
  exact (congrArg (p ∈ ·) (congrFun hlist .players)).mpr hp

theorem clipMix_aside (most : ℤ) : Aside p s (clipMix s most).1 := by
  refine ⟨clipMix_spares most, ?_, fun hp => ?_⟩
  · simp only [clipMix]
    split_ifs <;> exact .same rfl
  · exact (congrArg (p ∈ ·) (congrFun (clipMix_list (s := s) most) .players)).mpr hp

variable (cfg canRead) in
theorem mixRead_turn (hnd : s.esdPlayersList.Nodup) (hp : p ∈ s.esdPlayersList) :
    Aside p s (mixTurn cfg canRead s p) ∧
      ∃ least, Aside p
        (mixReadOne cfg canRead cfg.esdBufSizeOctets (mixTurn cfg canRead s p, least) p).1
        (mixRead cfg canRead s).1 := by
  obtain ⟨hbefore, hafter⟩ := foldl_turn (fun a b : Server × ℤ => Aside p a.1 b.1)
    (fun a => .refl a.1) (fun _ _ _ => .trans) (mixReadOne cfg canRead cfg.esdBufSizeOctets) hnd hp
    (fun a q hne => mixReadOne_aside cfg canRead hne _ a) (clearMix cfg s, 0)
  have hclear : Aside p s (clearMix cfg s) := ⟨⟨rfl, rfl, rfl, rfl⟩, .same rfl, id⟩
  exact ⟨hclear.trans hbefore, _, hafter⟩

/-- What the mixer takes off the player in its turn. -/
def taken (cfg : Config) (length : ℤ) (s : Server) (p : Ptr) : ℤ :=
  match (s.player p).mixFunc with
  | none => 0
  | some f =>
    usedOctets cfg (s.player p)
      (f.apply cfg (s.player p) (s.playerData p) length s.mixedBuffer).2

/-- What the mixer takes off the player in a cycle. -/
def share (cfg : Config) (canRead : Ptr → Bool) (s : Server) (p : Ptr) : ℤ :=
  let (s, least) := mixRead cfg canRead s
  if least > 0 ∧ p ∈ s.esdPlayersList then
    taken cfg least ((s.esdPlayersList.takeWhile (· ≠ p)).foldl (mixOne cfg least) (s, 0)).1 p
  else 0

theorem int32_double_dvd {x d : ℤ} (hd : d = 1 ∨ d = 2) (h : d ∣ x) : 2 * d ∣ int32 (x * 2) := by
  simp only [int32, Int.bmod_def]
  rcases hd with rfl | rfl <;> split_ifs <;> omega

theorem frameOctets_pos (pl : EsdPlayer) : 0 < frameOctets pl ∧ frameOctets pl ≤ 4 := by
  simp only [frameOctets]
  split_ifs <;> decide

theorem frameOctets_dvd_usedOctets (pl : EsdPlayer) (n : ℤ) :
    frameOctets pl ∣ usedOctets cfg pl n := by
  have htwo : ∀ x : ℤ, 2 ∣ int32 (x * 2) := fun x => int32_double_dvd (.inl rfl) (one_dvd x)
  have hfour : ∀ x : ℤ, 4 ∣ int32 (int32 (x * 2) * 2) := fun x =>
    int32_double_dvd (.inr rfl) (htwo x)
  by_cases hbits : pl.format &&& esdMaskBits = esdBits8 <;>
    by_cases hchan : pl.format &&& esdMaskChan = esdMono <;>
    simp [frameOctets, usedOctets, hbits, hchan, htwo, hfour]

/-- The mixing half, around the turn of the player. -/
inductive Mixed (p : Ptr) (s : Server) (used : ℤ) : Server → Prop
  | aside (t : Server) (h : Aside p s t) (nothing : used = 0) : Mixed p s used t
  | consumed (u t : Server) (before : Aside p s u) (frames : frameOctets (u.player p) ∣ used)
      (after : Aside p (consume u p used) t) : Mixed p s used t

theorem mixOne_mixed {length : ℤ} (acc : Server × ℤ) (hpos : 0 < (acc.1.player p).actualLength) :
    Mixed p acc.1 (taken cfg length acc.1 p) (mixOne cfg length acc p).1 := by
  cases hfunc : (acc.1.player p).mixFunc with
  | none =>
    have hone : mixOne cfg length acc p = acc := by simp only [mixOne, hfunc]
    rw [hone]
    exact .aside _ (.refl _) (by simp only [taken, hfunc])
  | some f =>
    simp only [mixOne, hfunc, taken, gt_iff_lt, hpos, if_true]
    refine .consumed { acc.1 with mixedBuffer := _ } _ ?_ ?_ (.refl _)
    · exact ⟨⟨rfl, rfl, rfl, rfl⟩, .same rfl, id⟩
    · exact frameOctets_dvd_usedOctets _ _

theorem Mixed.around {used : ℤ} {v : Server} (before : Aside p s t) (h : Mixed p t used u)
    (after : Aside p u v) : Mixed p s used v := by
  cases h with
  | aside _ h nothing => exact .aside v ((before.trans h).trans after) nothing
  | consumed w _ hbefore frames hafter =>
    exact .consumed w v (before.trans hbefore) frames (hafter.trans after)

theorem mixPlayers_aside (hp : p ∉ (mixRead cfg canRead s).1.esdPlayersList) :
    Aside p (mixRead cfg canRead s).1 (mixPlayers cfg canRead s).1 := by
  simp only [mixPlayers]
  generalize mixRead cfg canRead s = r at hp ⊢
  obtain ⟨w, least⟩ := r
  split_ifs
  · have hall := foldl_related (fun a b : Server × ℤ => Aside p a.1 b.1)
      (fun a => .refl a.1) (fun _ _ _ => .trans) (mixOne cfg least) w.esdPlayersList
      (fun a q hq => mixOne_aside (fun he : p = q => hp (he ▸ hq)) _ a) (w, 0)
    exact hall.trans (clipMix_aside _)
  · exact .refl _

theorem mixPlayers_mixed (hnd : (mixRead cfg canRead s).1.esdPlayersList.Nodup)
    (hp : p ∈ (mixRead cfg canRead s).1.esdPlayersList)
    (hpos : 0 < ((mixRead cfg canRead s).1.player p).actualLength) :
    Mixed p (mixRead cfg canRead s).1 (share cfg canRead s p) (mixPlayers cfg canRead s).1 := by
  simp only [mixPlayers, share]
  generalize mixRead cfg canRead s = r at hnd hp hpos ⊢
  obtain ⟨w, least⟩ := r
  by_cases hleast : least > 0
  · simp only [hleast, hp, and_self, if_true]
    obtain ⟨hbefore, hafter⟩ := foldl_turn (fun a b : Server × ℤ => Aside p a.1 b.1)
      (fun a => .refl a.1) (fun _ _ _ => .trans) (mixOne cfg least) hnd hp
      (fun a q hne => mixOne_aside hne _ a) (w, 0)
    refine Mixed.around hbefore (mixOne_mixed _ ?_) (hafter.trans (clipMix_aside _))
    rw [hbefore.spares.player]
    exact hpos
  · simp only [hleast, false_and, if_false]
    exact .aside _ (.refl _) rfl

theorem mixPlayers_unlisted (hp : p ∉ s.esdPlayersList) :
    Aside p s (mixPlayers cfg canRead s).1 := by
  have hclear : Aside p s (clearMix cfg s) := ⟨⟨rfl, rfl, rfl, rfl⟩, .same rfl, id⟩
  have hread : Aside p s (mixRead cfg canRead s).1 :=
    hclear.trans (foldl_related (fun a b : Server × ℤ => Aside p a.1 b.1)
      (fun a => .refl a.1) (fun _ _ _ => .trans) _ s.esdPlayersList
      (fun a q hq => mixReadOne_aside cfg canRead (fun he : p = q => hp (he ▸ hq)) _ a) (clearMix cfg s, 0))
  exact hread.trans (mixPlayers_aside fun h => hp (hread.listed_iff.mp h))

end Cycle

/-! ## The reading of a sample -/

section Reading

variable {cfg : Config} {canRead : Ptr → Bool} {p : Ptr} {s t : Server}

/-- A player of a sample that is not stopped. -/
structure Playing (s : Server) (p : Ptr) : Prop where
  mode : (s.player p).IsSample
  unstopped : (s.sample (s.player p).parent).format &&& esdMaskFunc ≠ esdStop

/-- How much of the sample is copied next. -/
def nextChunk (s : Server) (p : Ptr) : ℤ := sampleChunk (s.sample (s.player p).parent) (s.player p)

/-- The locals of `read_player` when it is done. -/
def filled (s : Server) (p : Ptr) : SampleRead :=
  fillFromSample (s.sample (s.player p).parent) (s.sampleData (s.player p).parent) (s.player p)
    (s.playerData p)

theorem fillFromSample_congr {sm sm' : EsdSample} (h : sm'.SameUpload sm) (m : Mem)
    (pl : EsdPlayer) (data : Mem) : fillFromSample sm' m pl data = fillFromSample sm m pl data := by
  have hround : loopRound sm' m = loopRound sm m := by
    funext r
    simp only [loopRound, wrapChunk, sampleChunk, h.sampleLength, h.format]
  have hchunk : sampleChunk sm' pl = sampleChunk sm pl := by
    simp only [sampleChunk, h.sampleLength]
  simp only [fillFromSample, hchunk, hround]

theorem loopRound_actual {sm : EsdSample} {m : Mem} {r r' : SampleRead}
    (h : loopRound sm m r = some r') : r.actual ≤ r'.actual := by
  have hwrap : ∀ r : SampleRead, (wrapChunk sm r).actual = r.actual := by
    intro r
    simp only [wrapChunk]
    split_ifs <;> rfl
  simp only [loopRound] at h
  split_ifs at h with _ _ hn
  · cases h
    rw [hwrap]
    dsimp only [copyChunk]
    rw [hwrap]
    omega
  · cases h
    rw [hwrap]
  · cases h
    rw [hwrap]

theorem fillFromSample_actual {sm : EsdSample} {m : Mem} {pl : EsdPlayer} {data : Mem}
    (hn : 0 < sampleChunk sm pl) : 0 < (fillFromSample sm m pl data).actual := by
  have hcopy : 0 < (copyChunk m (sampleChunk sm pl) ⟨pl, data, 0, true⟩).actual := by
    dsimp only [copyChunk]
    omega
  simp only [fillFromSample]
  split_ifs
  · exact hcopy
  · exact whileFuel_invariant (fun r : SampleRead => 0 < r.actual)
      (fun r r' hr h => hr.trans_le (loopRound_actual h)) _ hcopy

theorem mixReadOne_ends (h : Playing s p) (hn : nextChunk s p ≤ 0) (length least : ℤ) :
    (mixReadOne cfg canRead length (s, least) p).1 = erasePlayer s p := by
  have hread : readPlayer (canRead p) s p = (s, -1) := by
    simp only [readPlayer, if_neg (fun hs : (s.player p).IsStream => hs.not_isSample h.mode),
      if_pos h.mode, readSamplePlayer, h.unstopped, and_false, if_false]
    rw [if_neg (by simpa [nextChunk] using hn)]
  simp [mixReadOne, hread]

theorem mixReadOne_copies (h : Playing s p) (hn : 0 < nextChunk s p) (length least : ℤ) :
    (mixReadOne cfg canRead length (s, least) p).1 =
      (s.setPlayerData p (filled s p).data).setPlayer p (filled s p).pl := by
  have hread : readPlayer (canRead p) s p =
      ((s.setPlayerData p (filled s p).data).setPlayer p (filled s p).pl, (filled s p).actual) := by
    simp only [readPlayer, if_neg (fun hs : (s.player p).IsStream => hs.not_isSample h.mode),
      if_pos h.mode, readSamplePlayer, h.unstopped, and_false, if_false]
    rw [if_pos (by simpa [nextChunk] using hn)]
    rfl
  have hactual : 0 < (filled s p).actual := fillFromSample_actual hn
  simp only [mixReadOne, hread]
  split_ifs with hnone hneg
  · rfl
  · omega
  · rfl
  · rfl
  · rfl

end Reading

/-! ## A cycle -/

/-- What a player and its sample keep while the sample is played. -/
structure SamePlay (p : Ptr) (s t : Server) : Prop where
  kind : (t.player p).SameKind (s.player p)
  format : (t.player p).format = (s.player p).format
  sample : (t.sample (s.player p).parent).SameUpload (s.sample (s.player p).parent)
  data : t.sampleData (s.player p).parent = s.sampleData (s.player p).parent

namespace SamePlay

variable {p : Ptr} {s t u : Server}

theorem refl (p : Ptr) (s : Server) : SamePlay p s s := ⟨.refl _, rfl, .refl _, rfl⟩

theorem trans (h : SamePlay p s t) (h' : SamePlay p t u) : SamePlay p s u := by
  have hsample := h'.sample
  have hdata := h'.data
  rw [h.kind.parent] at hsample hdata
  exact ⟨h'.kind.trans h.kind, h'.format.trans h.format, h.sample.trans hsample,
    hdata.trans h.data⟩

theorem of_shelved {D : Set Deed} (h : Shelved D s t) (kind : (t.player p).SameKind (s.player p))
    (format : (t.player p).format = (s.player p).format) : SamePlay p s t :=
  ⟨kind, format, h.sample _, congrFun h.data _⟩

theorem playing (h : SamePlay p s t) (hs : Playing s p) : Playing t p := by
  refine ⟨h.kind.isSample_iff.mpr hs.mode, ?_⟩
  rw [h.kind.parent, h.sample.format]
  exact hs.unstopped

end SamePlay

theorem Aside.samePlay {p : Ptr} {s t : Server} (h : Aside p s t) : SamePlay p s t :=
  .of_shelved h.shelved (by rw [h.spares.player]; exact .refl _) (by rw [h.spares.player])

section Cycle

variable {cfg : Config} {canRead : Ptr → Bool} {p : Ptr} {s t : Server}

theorem Aside.nextChunk (h : Aside p s t) : nextChunk t p = nextChunk s p := by
  simp only [Esound.nextChunk, sampleChunk, h.spares.player, (h.shelved.sample _).sampleLength]

theorem Aside.filled (h : Aside p s t) : filled t p = filled s p := by
  simp only [Esound.filled, h.spares.player, h.spares.playerData, h.shelved.data,
    fillFromSample_congr (h.shelved.sample _)]

theorem erasePlayer_ends (hnd : s.esdPlayersList.Nodup) (hp : p ∈ s.esdPlayersList) :
    p ∉ (erasePlayer s p).esdPlayersList ∧ (erasePlayer s p).player = s.player ∧
      ∃ bs, (erasePlayer s p).story p = s.story p ++ [.dropped p bs] := by
  refine ⟨fun hmem => ?_, eraseFrom_player, ?_⟩
  · have hlist : (erasePlayer s p).esdPlayersList = s.esdPlayersList.erase p := by
      have hfree := congrFun (freePlayer_list (s := s.setList .players (s.esdPlayersList.erase p))
        (p := p)) .players
      simp only [erasePlayer, eraseFrom, Server.list, hp, if_true]
      exact hfree
    rw [hlist] at hmem
    exact hnd.not_mem_erase hmem
  · obtain ⟨t, bs, hspares, hfree⟩ :=
      freePlayer_account p (s.setList .players (s.esdPlayersList.erase p)) p
    have herase : erasePlayer s p = t.emit (.dropped p bs) := by
      simp only [erasePlayer, eraseFrom, Server.list, hp, if_true]
      exact hfree
    refine ⟨bs, ?_⟩
    rw [herase, Server.story_emit rfl, ((setList_spares _ _).trans hspares).story]

theorem foldl_mixReadOne_wellFormed (ps : List Ptr) (length least : ℤ)
    (hw : s.objects.WellFormed) :
    (ps.foldl (mixReadOne cfg canRead length) (s, least)).1.objects.WellFormed :=
  foldl_invariant (fun a : Server × ℤ => a.1.objects.WellFormed) _ ps
    (fun a q _ ha => (mixReadOne_does cfg (F := .mixed Set.univ) (s := a.1) canRead length a.2
      (Footprint.mixed_owns (Set.mem_univ q))).wellFormed ha) hw

variable (cfg canRead) in
theorem mixPlayers_ends (hw : s.objects.WellFormed) (hp : p ∈ s.esdPlayersList)
    (h : Playing s p) (hn : nextChunk s p ≤ 0) :
    p ∉ (mixPlayers cfg canRead s).1.esdPlayersList ∧
      (mixPlayers cfg canRead s).1.player p = s.player p ∧
      ∃ bs, (mixPlayers cfg canRead s).1.story p = s.story p ++ [.dropped p bs] := by
  obtain ⟨hbefore, least, hafter⟩ := mixRead_turn cfg canRead
    (hw.lists_nodup .players) hp
  have hwell : (mixTurn cfg canRead s p).objects.WellFormed :=
    foldl_mixReadOne_wellFormed (s := clearMix cfg s) _ _ _ hw
  rw [mixReadOne_ends (hbefore.samePlay.playing h) (hbefore.nextChunk.trans_le hn)] at hafter
  obtain ⟨hgone, hplayer, bs, hstory⟩ := erasePlayer_ends (hwell.lists_nodup .players)
    (hbefore.listed hp)
  have hread : p ∉ (mixRead cfg canRead s).1.esdPlayersList := fun hmem =>
    hgone (hafter.listed_iff.mp hmem)
  have hrest := hafter.trans (mixPlayers_aside hread)
  refine ⟨fun hmem => hgone (hrest.listed_iff.mp hmem), ?_, bs, ?_⟩
  · rw [hrest.spares.player, hplayer, hbefore.spares.player]
  · rw [hrest.spares.story, hstory, hbefore.spares.story]

variable (cfg canRead) in
theorem mixPlayers_copies (hw : s.objects.WellFormed) (hp : p ∈ s.esdPlayersList)
    (h : Playing s p) (hn : 0 < nextChunk s p) (hpos : 0 < (filled s p).pl.actualLength) :
    ∃ v, v.player p = (filled s p).pl ∧ v.playerData p = (filled s p).data ∧
      v.story p = s.story p ∧ SamePlay p s v ∧ p ∈ v.esdPlayersList ∧
      Mixed p v (share cfg canRead s p) (mixPlayers cfg canRead s).1 := by
  obtain ⟨hbefore, least, hafter⟩ := mixRead_turn cfg canRead
    (hw.lists_nodup .players) hp
  rw [mixReadOne_copies (hbefore.samePlay.playing h) (hbefore.nextChunk ▸ hn), hbefore.filled]
    at hafter
  obtain ⟨u, hu⟩ : ∃ u, mixTurn cfg canRead s p = u := ⟨_, rfl⟩
  rw [hu] at hbefore hafter
  have hmoved : (s.player p).Moved (filled s p).pl := fillFromSample_moved _ _ _ _
  have hkind : (filled s p).pl.SameKind (s.player p) := fillFromSample_kind _ _ _ _
  obtain ⟨v, hv⟩ : ∃ v, (u.setPlayerData p (filled s p).data).setPlayer p (filled s p).pl = v :=
    ⟨_, rfl⟩
  have hplayer : v.player p = (filled s p).pl := by simp [← hv, Server.setPlayer]
  have hdata : v.playerData p = (filled s p).data := by
    simp [← hv, Server.setPlayer, Server.setPlayerData]
  have hshelved : Shelved {.starts}ᶜ s v := by
    rw [← hv]
    exact (hbefore.shelved.trans (setPlayerData_idle _ _).keeps.toShelved).trans
      (.setPlayer (.inl (by rw [hmoved.name, ← hbefore.spares.player]; rfl)))
  have hlisted : p ∈ v.esdPlayersList := by
    rw [← hv]
    exact hbefore.listed hp
  have hstory : v.story p = s.story p := by
    rw [← hv]
    exact hbefore.spares.story
  have hsame : SamePlay p s v :=
    .of_shelved hshelved (hplayer ▸ hkind) (hplayer ▸ hmoved.format)
  rw [hv] at hafter
  have hwell : (mixRead cfg canRead s).1.objects.WellFormed :=
    foldl_mixReadOne_wellFormed (s := clearMix cfg s) _ _ _ hw
  have hmixed := mixPlayers_mixed (hwell.lists_nodup .players) (hafter.listed hlisted)
    (by rw [hafter.spares.player, hplayer]; exact hpos)
  exact ⟨v, hplayer, hdata, hstory, hsame, hlisted, Mixed.around hafter hmixed (.refl _)⟩

/-- What the mixing half made of the buffer of a player. -/
structure Accounted (p : Ptr) (s : Server) (used : ℤ) (es : List Event) (t : Server) : Prop where
  same : SamePlay p s t
  listed : p ∈ s.esdPlayersList → p ∈ t.esdPlayersList
  lastPos : (t.player p).lastPos = (s.player p).lastPos
  story : t.story p = s.story p ++ es
  nonneg : 0 ≤ (t.player p).actualLength
  queue : 0 ≤ used → usedIn es ++ t.held p = s.held p
  surplus : used < 0 → (t.player p).actualLength = (s.player p).actualLength - used ∧
    frameOctets (s.player p) ≤ -used

theorem Aside.accounted (h : Aside p s t) (hnonneg : 0 ≤ (s.player p).actualLength) :
    Accounted p s 0 [] t where
  same := h.samePlay
  listed := h.listed
  lastPos := by rw [h.spares.player]
  story := by rw [h.spares.story, List.append_nil]
  nonneg := by rwa [h.spares.player]
  queue _ := by
    rw [held_eq, h.spares.player, h.spares.playerData]
    rfl
  surplus hneg := absurd hneg (lt_irrefl 0)

theorem consume_accounted {used : ℤ} (hnonneg : 0 ≤ (s.player p).actualLength)
    (frames : frameOctets (s.player p) ∣ used) :
    ∃ bs, Accounted p s used [.used p bs] (consume s p used) := by
  have hkeeps : Shelved {.starts}ᶜ s (consume s p used) := (consume_idle p used).keeps.toShelved
  have hlist : p ∈ s.esdPlayersList → p ∈ (consume s p used).esdPlayersList := fun hp =>
    (congrArg (p ∈ ·) (congrFun (consume_list (s := s) (p := p) used) .players)).mpr hp
  by_cases hrest : (s.player p).actualLength - used > 0
  · have hplayer : (consume s p used).player p =
        { s.player p with actualLength := (s.player p).actualLength - used } := by
      simp only [consume, hrest, if_true, Server.player_emit, Server.player_setPlayer,
        Function.update_self]
    have hdata : (consume s p used).playerData p =
        moveDown (s.playerData p) used ((s.player p).actualLength - used).toNat := by
      simp only [consume, hrest, if_true, Server.emit, Server.setPlayer, Server.setPlayerData,
        Function.update_self]
    have hstory : (consume s p used).story p =
        s.story p ++ [.used p (load (s.playerData p) 0 used.toNat)] := by
      simp only [consume, hrest, if_true]
      exact Server.story_emit rfl
    refine ⟨load (s.playerData p) 0 used.toNat, ?_⟩
    refine ⟨.of_shelved hkeeps ?_ (by rw [hplayer]), hlist, by rw [hplayer], hstory,
      by rw [hplayer]; exact hrest.le, fun hused => ?_, fun hneg => ⟨by rw [hplayer], ?_⟩⟩
    · rw [hplayer]
      exact ⟨rfl, rfl, rfl, rfl, rfl⟩
    · obtain ⟨n, hn⟩ := Int.eq_ofNat_of_zero_le hused
      obtain ⟨m, hm⟩ := Int.eq_ofNat_of_zero_le hrest.le
      have hlen : (s.player p).actualLength.toNat = n + m := by omega
      rw [held_eq, held_eq, hplayer, hdata, hm, hn, hlen, Int.toNat_natCast, Int.toNat_natCast,
        load_moveDown]
      simpa [usedIn, Event.usedOctets] using (load_add (s.playerData p) 0 n m).symm
    · exact Int.le_of_dvd (by omega) ((dvd_neg).mpr frames)
  · have hplayer : (consume s p used).player p = { s.player p with actualLength := 0 } := by
      simp only [consume, hrest, if_false, Server.player_emit, Server.player_setPlayer,
        Function.update_self]
    have hstory : (consume s p used).story p =
        s.story p ++ [.used p (load (s.playerData p) 0 (s.player p).actualLength.toNat)] := by
      simp only [consume, hrest, if_false]
      exact Server.story_emit rfl
    refine ⟨load (s.playerData p) 0 (s.player p).actualLength.toNat, ?_⟩
    refine ⟨.of_shelved hkeeps ?_ (by rw [hplayer]), hlist, by rw [hplayer], hstory,
      by rw [hplayer], fun _ => ?_, fun hneg => absurd hneg (by omega)⟩
    · rw [hplayer]
      exact ⟨rfl, rfl, rfl, rfl, rfl⟩
    · rw [held_eq, held_eq, hplayer]
      simp [usedIn, Event.usedOctets]

theorem Mixed.accounted {used : ℤ} (h : Mixed p s used t)
    (hnonneg : 0 ≤ (s.player p).actualLength) : ∃ es, Accounted p s used es t := by
  cases h with
  | aside _ h nothing =>
    subst nothing
    exact ⟨[], h.accounted hnonneg⟩
  | consumed u _ before frames after =>
    have hbefore := before.accounted hnonneg
    obtain ⟨bs, hone⟩ := consume_accounted hbefore.nonneg frames
    have hafter := after.accounted hone.nonneg
    have hheld : t.held p = (consume u p used).held p := by
      simpa [usedIn] using hafter.queue le_rfl
    have hfirst : u.held p = s.held p := by simpa [usedIn] using hbefore.queue le_rfl
    refine ⟨[.used p bs], (hbefore.same.trans hone.same).trans hafter.same,
      fun hp => after.listed (hone.listed (before.listed hp)), ?_, ?_, hafter.nonneg,
      fun hused => ?_, fun hneg => ?_⟩
    · rw [hafter.lastPos, hone.lastPos, hbefore.lastPos]
    · rw [after.spares.story, hone.story, before.spares.story]
    · rw [hheld, hone.queue hused, hfirst]
    · obtain ⟨hlen, hframe⟩ := hone.surplus hneg
      rw [before.spares.player] at hlen hframe
      exact ⟨by rw [after.spares.player, hlen], hframe⟩

/-- A cycle in which the player, which does not loop, copied the next part of its sample. -/
structure Copied (p : Ptr) (s : Server) (used : ℤ) (es : List Event) (t : Server) : Prop where
  same : SamePlay p s t
  listed : p ∈ t.esdPlayersList
  lastPos : (t.player p).lastPos = (s.player p).lastPos + nextChunk s p
  story : t.story p = s.story p ++ es
  nonneg : 0 ≤ (t.player p).actualLength
  queue : 0 ≤ used → usedIn es ++ t.held p = s.held p ++
    load (s.sampleData (s.player p).parent) (s.player p).lastPos (nextChunk s p).toNat
  surplus : used < 0 →
    (t.player p).actualLength = (s.player p).actualLength + nextChunk s p - used ∧
      frameOctets (s.player p) ≤ -used

variable (cfg canRead) in
theorem mixPlayers_copied (hw : s.objects.WellFormed) (hp : p ∈ s.esdPlayersList)
    (h : Playing s p) (straight : (s.player p).format &&& esdMaskFunc ≠ esdLoop)
    (hn : 0 < nextChunk s p) (hnonneg : 0 ≤ (s.player p).actualLength) :
    ∃ es, Copied p s (share cfg canRead s p) es (mixPlayers cfg canRead s).1 := by
  have hfilled : filled s p = copyChunk (s.sampleData (s.player p).parent) (nextChunk s p)
      ⟨s.player p, s.playerData p, 0, true⟩ := by
    simp only [filled, fillFromSample, straight, ne_eq, not_false_eq_true, or_true, if_true]
    rfl
  have hlen : (filled s p).pl.actualLength = (s.player p).actualLength + nextChunk s p := by
    rw [hfilled]
    rfl
  obtain ⟨v, hplayer, hdata, hstory, hsame, hlisted, hmixed⟩ :=
    mixPlayers_copies cfg canRead hw hp h hn (by omega)
  obtain ⟨es, hacc⟩ := hmixed.accounted (by rw [hplayer]; omega)
  refine ⟨es, hsame.trans hacc.same, hacc.listed hlisted, ?_, by rw [hacc.story, hstory],
    hacc.nonneg, fun hused => ?_, fun hneg => ?_⟩
  · rw [hacc.lastPos, hplayer, hfilled]
    rfl
  · obtain ⟨n, hn'⟩ := Int.eq_ofNat_of_zero_le hnonneg
    have hsum : ((s.player p).actualLength + nextChunk s p).toNat =
        n + (load (s.sampleData (s.player p).parent) (s.player p).lastPos
          (nextChunk s p).toNat).length := by
      rw [load_length]
      omega
    rw [hacc.queue hused, held_eq, held_eq, hplayer, hdata, hlen, hsum, hfilled]
    dsimp only [copyChunk]
    rw [hn', load_store_append, Int.toNat_natCast]
  · obtain ⟨hmore, hframe⟩ := hacc.surplus hneg
    rw [hplayer, hlen] at hmore
    rw [hsame.kind.frameOctets] at hframe
    exact ⟨hmore, hframe⟩

end Cycle

end Esound
