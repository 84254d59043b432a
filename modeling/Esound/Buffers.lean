import Esound.Reachable

/-!
# The buffers of players

Three pieces of code move `actual_length`: `read_player` adds what it read, `mix_players`
takes off what was mixed, and `filter_write` takes off again what `read_player`
returned. The first and the last agree as long as the reads for filters are not cut
short, and what is mixed is not negative as long as the rate of the player fits the block.
-/

open Library.Buffer Library.Loop Library.Transition Relation

namespace Esound

structure EsdPlayer.InBounds (pl : EsdPlayer) : Prop where
  nonneg : 0 ≤ pl.actualLength
  le_bufferLength : pl.actualLength ≤ pl.bufferLength

/-- What one block and a frame take of the player fits in an int. A player without a buffer
is never mixed. -/
def EsdPlayer.RateFits (cfg : Config) (pl : EsdPlayer) : Prop :=
  pl.bufferLength = 0 ∨
    (0 ≤ pl.rate ∧ (cfg.esdBufSizeOctets + 2) * pl.rate < 2 ^ 31 * cfg.esdAudioRate)

instance (cfg : Config) (pl : EsdPlayer) : Decidable (pl.RateFits cfg) :=
  inferInstanceAs (Decidable (_ ∨ _))

theorem EsdPlayer.SameKind.rateFits {cfg : Config} {v w : EsdPlayer} (h : v.SameKind w)
    (hw : w.RateFits cfg) : v.RateFits cfg := by
  unfold RateFits at *
  rwa [h.bufferLength, h.rate]

theorem EsdPlayer.SameKind.inBounds {v w : EsdPlayer} (h : v.SameKind w)
    (hlen : v.actualLength = w.actualLength) (hw : w.InBounds) : v.InBounds :=
  ⟨hlen ▸ hw.nonneg, by rw [hlen, h.bufferLength]; exact hw.le_bufferLength⟩

/-! ## Reading -/

section Reading

variable {s : Server} {p : Ptr}

/-- The next `read` for the player brings something, but not all that is asked for. -/
def ShortRead (s : Server) (p : Ptr) : Prop :=
  0 < (hearStream s p).2.count ∧
    (hearStream s p).2.count < (s.player p).bufferLength - (s.player p).actualLength

instance (s : Server) (p : Ptr) : Decidable (ShortRead s p) := inferInstanceAs (Decidable (_ ∧ _))

theorem Socket.read_count_le (k : Socket) {n : ℤ} (hn : 0 ≤ n) : (k.read n).1.count ≤ n := by
  unfold Socket.read
  split
  · simpa [ReadResult.count] using hn
  · rename_i bs rest _
    split_ifs with hle
    · exact hle
    · simp only [ReadResult.count, List.length_take]
      omega
  · rename_i r rest hdata _
    cases r with
    | data bs => exact absurd rfl (hdata bs)
    | again | error => simp only [ReadResult.count]; omega

theorem hearStream_count_le (h : (s.player p).actualLength ≤ (s.player p).bufferLength) :
    (hearStream s p).2.count ≤ (s.player p).bufferLength - (s.player p).actualLength :=
  Socket.read_count_le _ (by omega)

@[simp] theorem hearStream_list : (hearStream s p).1.list = s.list := rfl

@[simp] theorem hearStream_player : (hearStream s p).1.player = s.player := rfl

theorem readStream_list (canRead : Bool) : (readStream canRead s p).1.list = s.list := by
  unfold readStream
  simp only
  split_ifs <;> simp

theorem readSamplePlayer_list : (readSamplePlayer s p).1.list = s.list := by
  unfold readSamplePlayer
  simp only
  split_ifs <;> simp

theorem readPlayer_list (canRead : Bool) : (readPlayer canRead s p).1.list = s.list := by
  unfold readPlayer
  split_ifs
  · exact readStream_list canRead
  · exact readSamplePlayer_list
  · rfl

/-- A read that is not cut short adds what it returns, unless it returns -1. -/
theorem readStream_whole {canRead : Bool} (h : canRead → ¬ ShortRead s p) :
    (readStream canRead s p).1.player =
      Function.update s.player p
        { s.player p with
          actualLength := (s.player p).actualLength + max (readStream canRead s p).2 0 } := by
  unfold readStream
  simp only
  split_ifs with hread hangup hshort
  · simp
  · have hcount : (hearStream s p).2.count < 0 := by
      by_contra hpos
      exact h hread.2 ⟨lt_of_le_of_ne (not_lt.mp hpos) fun h0 => hangup (.inl h0.symm), hshort⟩
    simp [max_eq_right hcount.le]
  · have hcount : 0 ≤ (hearStream s p).2.count := by omega
    simp [max_eq_left hcount]
  · simp

/-- Reading changes the record of one player, and does not overfill a buffer. -/
theorem readStream_player (canRead : Bool) :
    ∃ v, (readStream canRead s p).1.player = Function.update s.player p v ∧
      v.SameKind (s.player p) ∧ ((s.player p).InBounds → v.InBounds) := by
  have hsame : s.player = Function.update s.player p (s.player p) := by simp
  unfold readStream
  simp only
  split_ifs with hread hangup hshort
  · exact ⟨_, hsame, .refl _, id⟩
  · exact ⟨_, hsame, .refl _, id⟩
  · refine ⟨{ s.player p with
      actualLength := (s.player p).actualLength + (hearStream s p).2.count }, rfl,
      ⟨rfl, rfl, rfl, rfl, rfl⟩, fun hb => ⟨?_, ?_⟩⟩
    · have hnonneg := hb.nonneg
      dsimp only
      omega
    · have hle := hearStream_count_le hread.1.le
      dsimp only
      omega
  · exact ⟨_, hsame, .refl _, id⟩

theorem copyChunk_inBounds {sm : EsdSample} {m : Mem} {r : SampleRead}
    (hn : 0 < sampleChunk sm r.pl) (h : r.pl.InBounds) :
    (copyChunk m (sampleChunk sm r.pl) r).pl.InBounds := by
  have hnonneg := h.nonneg
  have hroom : sampleChunk sm r.pl ≤ r.pl.bufferLength - r.pl.actualLength := min_le_right _ _
  constructor <;> dsimp only [copyChunk] <;> omega

theorem wrapChunk_inBounds {sm : EsdSample} {r : SampleRead} (h : r.pl.InBounds) :
    (wrapChunk sm r).pl.InBounds := by
  unfold wrapChunk
  split_ifs
  · exact ⟨h.nonneg, h.le_bufferLength⟩
  · exact h

theorem loopRound_inBounds {sm : EsdSample} {m : Mem} {r r' : SampleRead} (h : r.pl.InBounds)
    (hround : loopRound sm m r = some r') : r'.pl.InBounds := by
  have hwrap : (wrapChunk sm r).pl.InBounds := wrapChunk_inBounds h
  unfold loopRound at hround
  simp only at hround
  split_ifs at hround with _ _ hn
  · cases hround
    exact wrapChunk_inBounds (copyChunk_inBounds hn hwrap)
  · cases hround
    exact hwrap
  · cases hround
    exact hwrap

theorem fillFromSample_inBounds {sm : EsdSample} {m : Mem} {pl : EsdPlayer} {data : Mem}
    (hn : 0 < sampleChunk sm pl) (h : pl.InBounds) : (fillFromSample sm m pl data).pl.InBounds := by
  have hcopy := copyChunk_inBounds (m := m) (r := ⟨pl, data, 0, true⟩) hn h
  unfold fillFromSample
  simp only
  split_ifs
  · exact hcopy
  · exact whileFuel_invariant (fun r : SampleRead => r.pl.InBounds) (fun _ _ => loopRound_inBounds) _ hcopy

theorem readSamplePlayer_player :
    ∃ v, (readSamplePlayer s p).1.player = Function.update s.player p v ∧
      v.SameKind (s.player p) ∧ ((s.player p).InBounds → v.InBounds) := by
  have hsame : s.player = Function.update s.player p (s.player p) := by simp
  unfold readSamplePlayer
  simp only
  split_ifs with _ hn
  · exact ⟨_, hsame, .refl _, id⟩
  · exact ⟨_, rfl, fillFromSample_kind _ _ _ _, fillFromSample_inBounds hn⟩
  · exact ⟨_, hsame, .refl _, id⟩

theorem readPlayer_player (canRead : Bool) :
    ∃ v, (readPlayer canRead s p).1.player = Function.update s.player p v ∧
      v.SameKind (s.player p) ∧ ((s.player p).InBounds → v.InBounds) := by
  unfold readPlayer
  split_ifs
  · exact readStream_player canRead
  · exact readSamplePlayer_player
  · exact ⟨s.player p, by simp, .refl _, id⟩

end Reading

/-! ## Erasing -/

section Erasing

variable {s : Server} {l : PlayerList} {p : Ptr}

theorem eraseSample_player (id : ℤ) (force : Bool) : (eraseSample s id force).player = s.player := by
  unfold eraseSample
  split
  · rfl
  · split_ifs <;> rfl

theorem eraseSample_list (id : ℤ) (force : Bool) : (eraseSample s id force).list = s.list := by
  unfold eraseSample
  split
  · rfl
  · split_ifs <;> rfl

theorem freePlayer_player : (freePlayer s p).player = s.player := by
  unfold freePlayer
  simp only
  split_ifs
  · exact eraseClient_player s _
  · exact eraseSample_player _ _
  · rfl
  · rfl

theorem freePlayer_list : (freePlayer s p).list = s.list := by
  unfold freePlayer
  simp only
  split_ifs
  · exact eraseClient_list s _
  · exact eraseSample_list _ _
  · rfl
  · rfl

theorem eraseFrom_player : (eraseFrom s l p).player = s.player := by
  unfold eraseFrom
  split_ifs
  · rw [freePlayer_player, setList_player]
  · rfl

theorem mem_of_mem_eraseFrom {l' : PlayerList} {q : Ptr} (h : q ∈ (eraseFrom s l p).list l') :
    q ∈ s.list l' := by
  unfold eraseFrom at h
  split_ifs at h
  · rw [freePlayer_list, list_setList] at h
    exact mem_of_mem_update_erase h
  · exact h

end Erasing

/-! ## Mixing -/

section Mixing

variable {cfg : Config} {s : Server} {p : Ptr}

/-- The frames taken of a player for `n` mixed octets, at most two ints wide each, are less
than an int can hold. -/
theorem usedFrames_range {rate n : ℤ} (hrate : 0 ≤ rate)
    (hfit : (cfg.esdBufSizeOctets + 2) * rate < 2 ^ 31 * cfg.esdAudioRate) (h0 : 0 ≤ n)
    (hn : n ≤ cfg.esdBufSizeOctets + 2) :
    0 ≤ n / 4 * rate % 2 ^ 64 / cfg.esdAudioRate ∧
      4 * (n / 4 * rate % 2 ^ 64 / cfg.esdAudioRate) < 2 ^ 31 := by
  have haudio : (0 : ℤ) < cfg.esdAudioRate := by exact_mod_cast cfg.audioRate_pos
  have hmod : 0 ≤ n / 4 * rate % 2 ^ 64 := Int.emod_nonneg _ (by norm_num)
  have hprod : 0 ≤ n / 4 * rate := mul_nonneg (by omega) hrate
  have hle : n / 4 * rate % 2 ^ 64 ≤ n / 4 * rate := by omega
  have hdiv := Int.ediv_mul_le (n / 4 * rate % 2 ^ 64) haudio.ne'
  have hquarter : 4 * (n / 4) * rate ≤ (cfg.esdBufSizeOctets + 2) * rate :=
    mul_le_mul_of_nonneg_right (by omega) hrate
  refine ⟨Int.ediv_nonneg hmod haudio.le, ?_⟩
  by_contra hbig
  have hmul : 2 ^ 31 * (cfg.esdAudioRate : ℤ) ≤
      4 * (n / 4 * rate % 2 ^ 64 / cfg.esdAudioRate) * cfg.esdAudioRate :=
    mul_le_mul_of_nonneg_right (not_lt.mp hbig) haudio.le
  linarith

theorem usedOctets_nonneg {pl : EsdPlayer} (hrate : pl.RateFits cfg) (hbuf : 0 < pl.bufferLength)
    {n : ℤ} (h0 : 0 ≤ n) (hn : n ≤ cfg.esdBufSizeOctets + 2) : 0 ≤ usedOctets cfg pl n := by
  obtain ⟨hpos, hfit⟩ := hrate.resolve_left hbuf.ne'
  obtain ⟨hq, hq4⟩ := usedFrames_range hpos hfit h0 hn
  have hq1 := int32_of_range hq (by omega)
  have hq2 := int32_of_range (x := n / 4 * pl.rate % 2 ^ 64 / cfg.esdAudioRate * 2) (by omega)
    (by omega)
  unfold usedOctets
  simp only [hq1]
  split_ifs
  · rw [hq2, int32_of_range (by omega) (by omega)]
    omega
  · rw [hq2]
    omega
  · rw [hq2]
    omega
  · exact hq

/-- The mix of a cycle keeps this of all players. -/
structure MixBounded (cfg : Config) (s : Server) : Prop where
  inBounds : ∀ l, ∀ p ∈ s.list l, (s.player p).InBounds
  rates : ∀ p ∈ s.esdPlayersList, (s.player p).RateFits cfg

theorem MixBounded.update {t : Server} (h : MixBounded cfg s) {v : EsdPlayer}
    (hplayer : t.player = Function.update s.player p v) (hlist : ∀ l, ∀ q ∈ t.list l, q ∈ s.list l)
    (kind : v.SameKind (s.player p)) (inBounds : (s.player p).InBounds → v.InBounds) :
    MixBounded cfg t := by
  refine ⟨fun l q hq => ?_, fun q hq => ?_⟩ <;> rw [hplayer] <;> rcases eq_or_ne q p with rfl | hne
  · rw [Function.update_self]
    exact inBounds (h.inBounds l q (hlist l q hq))
  · rw [Function.update_of_ne hne]
    exact h.inBounds l q (hlist l q hq)
  · rw [Function.update_self]
    exact kind.rateFits (h.rates q (hlist .players q hq))
  · rw [Function.update_of_ne hne]
    exact h.rates q (hlist .players q hq)

theorem mixReadOne_bounded (canRead : Ptr → Bool) (length least : ℤ) (h : MixBounded cfg s) :
    MixBounded cfg (mixReadOne cfg canRead length (s, least) p).1 := by
  obtain ⟨v, hplayer, kind, inBounds⟩ := readPlayer_player (s := s) (p := p) (canRead p)
  have hread : MixBounded cfg (readPlayer (canRead p) s p).1 :=
    h.update hplayer (fun l q hq => by rwa [readPlayer_list] at hq) kind inBounds
  have herase : MixBounded cfg (erasePlayer (readPlayer (canRead p) s p).1 p) :=
    hread.update (p := p) (v := (readPlayer (canRead p) s p).1.player p)
      (by rw [erasePlayer, eraseFrom_player, Function.update_eq_self])
      (fun l q => mem_of_mem_eraseFrom) (.refl _) id
  unfold mixReadOne
  simp only
  split_ifs
  · exact hread
  · exact herase
  · exact hread
  · exact hread
  · exact hread

theorem mixReadOne_least {canRead : Ptr → Bool} {length least : ℤ} (h : least ≤ length) :
    (mixReadOne cfg canRead length (s, least) p).2 ≤ length := by
  have htranslated : ∀ pl : EsdPlayer, translated cfg pl length ≤ length := by
    intro pl
    unfold translated
    simp only
    split_ifs <;> omega
  unfold mixReadOne
  simp only
  split_ifs
  · exact h
  · exact h
  · exact htranslated _
  · exact htranslated _
  · exact h

theorem consume_player (used : ℤ) :
    ∃ v, (consume s p used).player = Function.update s.player p v ∧ v.SameKind (s.player p) ∧
      (0 ≤ used → (s.player p).InBounds → v.InBounds) := by
  unfold consume
  simp only
  split_ifs with hrest
  · refine ⟨{ s.player p with actualLength := (s.player p).actualLength - used }, rfl,
      ⟨rfl, rfl, rfl, rfl, rfl⟩, fun hused hb => ⟨?_, ?_⟩⟩
    · exact hrest.le
    · have hle := hb.le_bufferLength
      dsimp only
      omega
  · refine ⟨{ s.player p with actualLength := 0 }, rfl, ⟨rfl, rfl, rfl, rfl, rfl⟩,
      fun _ hb => ⟨le_rfl, ?_⟩⟩
    exact hb.nonneg.trans hb.le_bufferLength

theorem consume_list (used : ℤ) : (consume s p used).list = s.list := by
  unfold consume
  simp only
  split_ifs <;> rfl

theorem mixOne_bounded {length : ℤ} (hlength : length ≤ cfg.esdBufSizeOctets) (most : ℤ)
    (hp : p ∈ s.esdPlayersList) (h : MixBounded cfg s) :
    MixBounded cfg (mixOne cfg length (s, most) p).1 ∧
      (mixOne cfg length (s, most) p).1.esdPlayersList = s.esdPlayersList := by
  unfold mixOne
  simp only
  split
  · exact ⟨h, rfl⟩
  · rename_i f _
    split_ifs with hlen
    · have hmixed := f.apply_return cfg (s.player p) (s.playerData p) length s.mixedBuffer
      generalize f.apply cfg (s.player p) (s.playerData p) length s.mixedBuffer = r at hmixed ⊢
      have hbounds := h.inBounds .players p hp
      have hused : 0 ≤ usedOctets cfg (s.player p) r.2 :=
        usedOctets_nonneg (h.rates p hp) (hlen.trans_le hbounds.le_bufferLength) hmixed.1 (by omega)
      obtain ⟨v, hplayer, kind, inBounds⟩ := consume_player (s := { s with mixedBuffer := r.1 })
        (p := p) (usedOctets cfg (s.player p) r.2)
      have hlist := consume_list (s := { s with mixedBuffer := r.1 }) (p := p)
        (usedOctets cfg (s.player p) r.2)
      exact ⟨h.update hplayer (fun l q hq => by rwa [hlist] at hq) kind (inBounds hused),
        congrFun hlist .players⟩
    · exact ⟨h, rfl⟩

theorem mixRead_least (canRead : Ptr → Bool) (s : Server) :
    (mixRead cfg canRead s).2 ≤ cfg.esdBufSizeOctets :=
  foldl_invariant (fun a : Server × ℤ => a.2 ≤ cfg.esdBufSizeOctets) _ _
    (fun _ _ _ ha => mixReadOne_least ha) (Int.natCast_nonneg _)

theorem mixRead_bounded (canRead : Ptr → Bool) (h : MixBounded cfg s) :
    MixBounded cfg (mixRead cfg canRead s).1 :=
  foldl_invariant (fun a : Server × ℤ => MixBounded cfg a.1) _ _
    (fun a _ _ ha => mixReadOne_bounded canRead _ a.2 ha) ⟨h.inBounds, h.rates⟩

theorem mixAll_bounded {least : ℤ} (hleast : least ≤ cfg.esdBufSizeOctets) (h : MixBounded cfg s) :
    MixBounded cfg (mixAll cfg least s).1 := by
  have hboth := foldl_invariant
    (fun a : Server × ℤ => MixBounded cfg a.1 ∧ a.1.esdPlayersList = s.esdPlayersList)
    (mixOne cfg least) s.esdPlayersList ?_ (s := (s, 0)) ⟨h, rfl⟩
  · exact hboth.1
  · rintro a p hp ⟨ha, hlist⟩
    obtain ⟨hone, hsame⟩ := mixOne_bounded hleast a.2 (hlist ▸ hp) ha
    exact ⟨hone, hsame.trans hlist⟩

theorem clipMix_bounded (most : ℤ) (h : MixBounded cfg s) : MixBounded cfg (clipMix s most).1 := by
  unfold clipMix
  split_ifs <;> exact ⟨h.inBounds, h.rates⟩

theorem mixPlayers_bounded (canRead : Ptr → Bool) (h : MixBounded cfg s) :
    MixBounded cfg (mixPlayers cfg canRead s).1 := by
  have hread := mixRead_bounded canRead h
  unfold mixPlayers
  simp only
  split_ifs
  · exact clipMix_bounded _ (mixAll_bounded (mixRead_least canRead s) hread)
  · exact hread

end Mixing

/-! ## Filters -/

section Filtering

variable {cfg : Config} {s : Server} {p : Ptr}

theorem filterWriteRound_frame {dataSize : ℤ} {r r' : FilterWrite}
    (h : filterWriteRound p dataSize r = some r') :
    r'.srv.player = r.srv.player ∧ r'.srv.list = r.srv.list := by
  unfold filterWriteRound at h
  simp only at h
  split_ifs at h <;> cases h <;> exact ⟨rfl, rfl⟩

theorem filterSend_frame (dataSize : ℤ) :
    (filterSend s p dataSize).srv.player = s.player ∧
      (filterSend s p dataSize).srv.list = s.list :=
  whileFuel_related
    (fun r r' : FilterWrite => r'.srv.player = r.srv.player ∧ r'.srv.list = r.srv.list)
    (fun _ => ⟨rfl, rfl⟩) (fun _ _ _ h h' => ⟨h'.1.trans h.1, h'.2.trans h.2⟩)
    (fun _ _ h => filterWriteRound_frame h) (dataSize.toNat + 1) ⟨s, 0, false⟩

/-- The reads for the filters are not cut short. -/
def FiltersWhole (cfg : Config) (canRead : Ptr → Bool) (size : ℤ) : List Ptr → Server → ℤ → Prop
  | [], _, _ => True
  | p :: ps, s, dataSize =>
    ((filterSend s p dataSize).erase = false → canRead p →
        ¬ ShortRead (filterSend s p dataSize).srv p) ∧
      FiltersWhole cfg canRead size ps (filterOne cfg (canRead p) size s p ps.head? dataSize).1
        (filterOne cfg (canRead p) size s p ps.head? dataSize).2

instance FiltersWhole.decidable (cfg : Config) (canRead : Ptr → Bool) (size : ℤ) :
    ∀ ps s n, Decidable (FiltersWhole cfg canRead size ps s n)
  | [], _, _ => inferInstanceAs (Decidable True)
  | p :: ps, s, n =>
    have := FiltersWhole.decidable cfg canRead size ps
      (filterOne cfg (canRead p) size s p ps.head? n).1
      (filterOne cfg (canRead p) size s p ps.head? n).2
    inferInstanceAs (Decidable (_ ∧ _))

theorem filterExchange_frame {canRead : Bool} {dataSize : ℤ} (mode : (s.player p).IsStream)
    (whole : (filterSend s p dataSize).erase = false → canRead →
      ¬ ShortRead (filterSend s p dataSize).srv p) :
    (filterExchange canRead s p dataSize).1.player = s.player ∧
      (filterExchange canRead s p dataSize).1.list = s.list := by
  obtain ⟨hplayer, hlist⟩ := filterSend_frame (s := s) (p := p) dataSize
  unfold filterExchange
  simp only
  generalize filterSend s p dataSize = r at *
  have hmode : (r.srv.player p).IsStream := by rwa [hplayer]
  have hread : readPlayer canRead r.srv p = readStream canRead r.srv p := by
    unfold readPlayer
    rw [if_pos hmode]
  rw [hread]
  split_ifs with herase hactual
  · exact ⟨hplayer, hlist⟩
  · have hadd := readStream_whole (whole (by simpa using herase))
    refine ⟨?_, (readStream_list canRead).trans hlist⟩
    simp [hadd, hplayer, max_eq_left hactual]
  · have hadd := readStream_whole (whole (by simpa using herase))
    refine ⟨?_, (readStream_list canRead).trans hlist⟩
    simp [hadd, hplayer, max_eq_right (not_le.mp hactual).le]

/-- What a read adds that is cut short, which is nothing, is taken off as well. -/
theorem filterExchange_short {dataSize : ℤ} (mode : (s.player p).IsStream)
    (sent : (filterSend s p dataSize).erase = false)
    (short : ShortRead (filterSend s p dataSize).srv p) :
    ((filterExchange true s p dataSize).1.player p).actualLength =
      (s.player p).actualLength - (hearStream (filterSend s p dataSize).srv p).2.count := by
  obtain ⟨hplayer, -⟩ := filterSend_frame (s := s) (p := p) dataSize
  unfold filterExchange
  simp only [sent, Bool.false_eq_true, if_false]
  generalize filterSend s p dataSize = r at *
  obtain ⟨hpos, hlt⟩ := short
  have hhangup : ¬ (hearStream r.srv p).2.Hangup := by
    rintro (hzero | herror)
    · exact hpos.ne' hzero
    · simp [herror, ReadResult.count] at hpos
  have hread : readPlayer true r.srv p = ((hearStream r.srv p).1, (hearStream r.srv p).2.count) := by
    unfold readPlayer readStream
    simp only [hplayer] at hlt ⊢
    rw [if_pos mode, if_pos ⟨by omega, trivial⟩, if_neg hhangup, if_pos hlt]
  rw [hread, if_pos hpos.le]
  simp [hplayer]

theorem filterTranslate_frame (size : ℤ) (next : Option Ptr) :
    (filterTranslate cfg size s p next).1.player = s.player ∧
      (filterTranslate cfg size s p next).1.list = s.list := by
  unfold filterTranslate
  simp only
  split
  · exact ⟨rfl, rfl⟩
  · split <;> exact ⟨rfl, rfl⟩

theorem filterOne_frame {canRead : Bool} {size dataSize : ℤ} {next : Option Ptr}
    (mode : (s.player p).IsStream)
    (whole : (filterSend s p dataSize).erase = false → canRead →
      ¬ ShortRead (filterSend s p dataSize).srv p) :
    (filterOne cfg canRead size s p next dataSize).1.player = s.player ∧
      ∀ l, ∀ q ∈ (filterOne cfg canRead size s p next dataSize).1.list l, q ∈ s.list l := by
  obtain ⟨hexchange, hexchanged⟩ := filterExchange_frame mode whole
  obtain ⟨htranslate, htranslated⟩ := filterTranslate_frame
    (s := (filterExchange canRead s p dataSize).1) (p := p) size next
  unfold filterOne
  simp only
  split_ifs
  · refine ⟨?_, fun l q hq => ?_⟩
    · rw [eraseFilter, eraseFrom_player, htranslate, hexchange]
    · have hmem := mem_of_mem_eraseFrom hq
      rwa [htranslated, hexchanged] at hmem
  · exact ⟨htranslate.trans hexchange, fun l q hq => by rwa [htranslated, hexchanged] at hq⟩

theorem filterLoop_frame {canRead : Ptr → Bool} {size : ℤ} {ps : List Ptr} {dataSize : ℤ}
    (modes : ∀ p ∈ ps, (s.player p).IsStream)
    (whole : FiltersWhole cfg canRead size ps s dataSize) :
    (filterLoop cfg canRead size ps s dataSize).1.player = s.player ∧
      ∀ l, ∀ q ∈ (filterLoop cfg canRead size ps s dataSize).1.list l, q ∈ s.list l := by
  induction ps generalizing s dataSize with
  | nil => exact ⟨rfl, fun _ _ hq => hq⟩
  | cons p ps ih =>
    obtain ⟨hplayer, hlist⟩ := filterOne_frame
      (modes p List.mem_cons_self) whole.1
    obtain ⟨hrest, hlisted⟩ := ih
      (fun q hq => by rw [hplayer]; exact modes q (List.mem_cons_of_mem _ hq)) whole.2
    exact ⟨hrest.trans hplayer, fun l q hq => hlist l q (hlisted l q hq)⟩

/-- The condition on a whole `filter_write`. -/
def FilterReadsWhole (cfg : Config) (canRead : Ptr → Bool) (size : ℤ) (s : Server) : Prop :=
  match filterFirst cfg s size with
  | none => True
  | some (s, dataSize) => FiltersWhole cfg canRead size s.esdFilterList s dataSize

instance (cfg : Config) (canRead : Ptr → Bool) (size : ℤ) (s : Server) :
    Decidable (FilterReadsWhole cfg canRead size s) := by
  unfold FilterReadsWhole
  split <;> infer_instance

theorem filterWrite_frame {canRead : Ptr → Bool} {size : ℤ} (hw : s.objects.WellFormed)
    (whole : FilterReadsWhole cfg canRead size s) :
    (filterWrite cfg canRead s size).1.player = s.player ∧
      ∀ l, ∀ q ∈ (filterWrite cfg canRead s size).1.list l, q ∈ s.list l := by
  unfold FilterReadsWhole at whole
  unfold filterWrite
  split
  · exact ⟨rfl, fun _ _ hq => hq⟩
  · rename_i r dataSize hfirst
    rw [hfirst] at whole
    obtain ⟨p, -, m, rfl : r = _⟩ := filterFirst_cases hfirst
    exact filterLoop_frame (fun q hq => hw.streams (l := .filters) (by decide) hq) whole

end Filtering

/-! ## In every run -/

section Runs

variable {cfg : Config} {s t : Server} {a : Action}

/-- All buffers are within their bounds. -/
def Objects.Bounded (o : Objects) : Prop := ∀ l, ∀ p ∈ o.lists l, (o.player p).InBounds

theorem Objects.Bounded.cons {o : Objects} {l : PlayerList} {p : Ptr} {v : EsdPlayer}
    (hb : o.Bounded) (fresh : o.Unlisted p) (empty : v.actualLength = 0)
    (room : 0 ≤ v.bufferLength) : ((o.setPlayer p v).setList l (p :: o.lists l)).Bounded := by
  intro l' q hq
  simp only [setList, setPlayer, mem_update_cons] at hq ⊢
  rcases hq with ⟨rfl, rfl⟩ | hq
  · rw [Function.update_self]
    exact ⟨empty.ge, by rw [empty]; exact room⟩
  · rw [Function.update_of_ne (fun he : q = p => fresh l' (he ▸ hq))]
    exact hb l' q hq

theorem Objects.Bounded.erase {o : Objects} {l : PlayerList} {p : Ptr} (hb : o.Bounded) :
    (o.unlist l p).Bounded :=
  fun l' q hq => hb l' q (mem_of_mem_update_erase hq)

theorem Objects.Bounded.effect {F : Footprint} {o o' : Objects} (hF : F.lengths = ∅)
    (hb : o.Bounded) (h : Effect cfg F o o') : o'.Bounded := by
  cases h with
  | client | connect | disconnect | buffer | account | sample | skipId | newSample => exact hb
  | openStream l c p v _ _ _ fresh _ _ _ empty room => exact hb.cons (l := l) fresh empty room
  | closeStream l p => exact hb.erase (l := l) (p := p)
  | players f kind touched =>
    intro l p hp
    have hlen := (touched p).resolve_right (by simp [hF])
    exact (kind p).inBounds hlen (hb l p hp)
  | scribble p v fresh =>
    intro l q hq
    have hne : q ≠ p := fun he => fresh l (he ▸ hq)
    simpa [hne] using hb l q hq
  | freeSample id =>
    obtain ⟨qs, f, he⟩ := o.eraseSample_frame id
    rw [he]
    exact hb
  | startSample q p v _ fresh _ _ empty room => exact hb.cons (l := .players) fresh empty room
  | endSample l p =>
    obtain ⟨qs, f, he⟩ := o.endSample_frame l p
    rw [he]
    exact hb.erase (l := l) (p := p)
  | dropOther l p => exact hb.erase (l := l) (p := p)

/-- Every player that is mixed has a rate that fits, and filters are read whole. -/
def KeepsBuffers (cfg : Config) (s : Server) : Action → Prop
  | .mix _ => ∀ p ∈ s.esdPlayersList, (s.player p).RateFits cfg
  | .filter canRead size => FilterReadsWhole cfg canRead size s
  | _ => True

instance (cfg : Config) (s : Server) (a : Action) : Decidable (KeepsBuffers cfg s a) :=
  match a with
  | .mix _ => inferInstanceAs (Decidable (∀ p ∈ s.esdPlayersList, _))
  | .filter canRead size => inferInstanceAs (Decidable (FilterReadsWhole cfg canRead size s))
  | .accept .. | .poll .. | .refresh | .wake _ | .monitor .. | .recorder .. | .autostandby
  | .reconnect _ | .reset _ => .isTrue trivial

theorem step_bounded (hw : s.objects.WellFormed) (hb : s.objects.Bounded)
    (hok : KeepsBuffers cfg s a) (h : step cfg s a = some t) : t.objects.Bounded := by
  have heffects : ¬ a.IsReset → (a.footprint s).lengths = ∅ → t.objects.Bounded :=
    fun hreset hF => (step_effects hw h hreset).invariant Objects.Bounded
      (fun _ _ _ hb he => hb.effect hF he) hw hb
  cases a with
  | mix canRead =>
    obtain ⟨-, h⟩ := step_eq_some h
    cases h
    exact (mixPlayers_bounded canRead ⟨hb, hok⟩).inBounds
  | filter canRead size =>
    obtain ⟨-, h⟩ := step_eq_some h
    cases h
    obtain ⟨hplayer, hlist⟩ := filterWrite_frame hw hok
    intro l p hp
    rw [Server.objects_player, hplayer]
    exact hb l p (hlist l p hp)
  | reset scrambled =>
    obtain ⟨-, h⟩ := step_eq_some h
    cases h
    rw [resetDaemon_objects]
    exact hb
  | accept | poll | refresh | wake | monitor | recorder | autostandby | reconnect =>
    exact heffects id rfl

/-- In a run whose filters are read whole, and whose players' rates fit where they are mixed,
every listed player is read into the free part of its buffer. -/
theorem player_buffers_bounded {as : List Action} (hs : s.Initial)
    (h : Runs cfg (KeepsBuffers cfg) s as t) (l : PlayerList) (p : Ptr) (hp : p ∈ t.list l) :
    0 ≤ (t.player p).actualLength ∧ (t.player p).actualLength ≤ (t.player p).bufferLength ∧
      0 ≤ (t.player p).bufferLength - (t.player p).actualLength := by
  have hboth := h.invariant (fun s => s.objects.WellFormed ∧ s.objects.Bounded)
    (fun _ _ _ hb hok hstep =>
      ⟨step_wellFormed hb.1 hstep, step_bounded hb.1 hb.2 hok hstep⟩)
    ⟨hs.wellFormed, fun l p hp => by simp [hs.list l] at hp⟩
  have hbounds := hboth.2 l p hp
  exact ⟨hbounds.nonneg, hbounds.le_bufferLength, sub_nonneg.mpr hbounds.le_bufferLength⟩

/-- A client filters; `block` is what it sends back for the first block. -/
def filteringRun (block : List Octet) : List Action :=
  [.accept 1 5 (.sending
      [handshake 7, Word.octets 15#32, streamParams (esdBits16 ||| esdStereo) 44100#32, block]),
    .poll 1 (.allocating 0), .poll 1 (.allocating 0), .poll 1 (.allocating 2), .refresh,
    .mix fun _ => true, .filter (fun _ => true) 16]

theorem filteringRun_ends : (exec (step .smallBlocks) (KeepsBuffers .smallBlocks) .blank
    (filteringRun (List.replicate 16 1))).isSome := by
  decide +kernel

theorem player_buffers_bounded_filtering :
    ∃ t, Runs .smallBlocks (KeepsBuffers .smallBlocks) .blank
        (filteringRun (List.replicate 16 1)) t ∧ 2 ∈ t.esdFilterList ∧
      0 ≤ (t.player 2).actualLength ∧ (t.player 2).actualLength ≤ (t.player 2).bufferLength := by
  refine ⟨_, Run.of_isSome filteringRun_ends, by decide +kernel, ?_⟩
  have hbounds := player_buffers_bounded Server.blank_initial (Run.of_isSome filteringRun_ends)
    .filters 2 (by decide +kernel)
  exact ⟨hbounds.1, hbounds.2.1⟩

theorem shortFilteringRun_ends :
    (exec (step .smallBlocks) NoReset .blank (filteringRun [1, 2, 3, 4])).isSome := by
  decide +kernel

/-- The filter sends back four octets of the sixteen. -/
theorem filter_short_read_underflows :
    ∃ t, Runs .smallBlocks NoReset .blank (filteringRun [1, 2, 3, 4]) t ∧ 2 ∈ t.esdFilterList ∧
      ¬ 0 ≤ (t.player 2).actualLength :=
  ⟨_, Run.of_isSome shortFilteringRun_ends, by decide +kernel, by decide +kernel⟩

end Runs

end Esound
