import Esound.Consumption
import Esound.MixedLength

/-!
# A player alone

A stereo stream with the width and the rate of the device, at full volume and alone, ought to
come out as it came in. It is widened, added to nothing and narrowed again.
-/

open Library.Buffer Library.Loop Library.Least Library.Transition

namespace Esound

/-- The only player is a stereo stream with the width and the rate of the device, at full volume. -/
structure Alone (cfg : Config) (s : Server) (p : Ptr) : Prop where
  players : s.esdPlayersList = [p]
  mode : (s.player p).IsStream
  width : s.esdAudioFormat &&& esdMaskBits = esdBits8 ∨ s.esdAudioFormat &&& esdMaskBits = esdBits16
  bits : (s.player p).format &&& esdMaskBits = s.esdAudioFormat &&& esdMaskBits
  chan : (s.player p).format &&& esdMaskChan = esdStereo
  rate : (s.player p).rate = cfg.esdAudioRate
  left : (s.player p).leftVolScale = esdVolumeBase
  right : (s.player p).rightVolScale = esdVolumeBase
  func : (s.player p).mixFunc = getMixFunc (s.player p)

theorem Alone.apart {cfg : Config} {s : Server} {p : Ptr} (h : Alone cfg s p) :
    Apart s s.esdPlayersList := by
  rw [h.players]
  intro q hq q' hq' hne
  rw [List.mem_singleton.mp hq, List.mem_singleton.mp hq'] at hne
  exact absurd rfl hne

/-- What comes out of the cycle is what the player has after it was read. -/
def BitExact (cfg : Config) (canRead : Ptr → Bool) (s : Server) (p : Ptr) : Prop :=
  (mixPlayers cfg canRead s).2 = (readTurn canRead s p).pl.actualLength ∧
    load (mixPlayers cfg canRead s).1.outputBuffer 0 (readTurn canRead s p).pl.actualLength.toNat =
      load (readTurn canRead s p).data 0 (readTurn canRead s p).pl.actualLength.toNat

section Playback

variable {cfg : Config} {canRead : Ptr → Bool} {s : Server} {p : Ptr}

variable (canRead) in
/-- Reading a stream changes how much it has and nothing else of the player. -/
theorem readTurn_stream (hmode : (s.player p).IsStream) :
    ∃ n, (readTurn canRead s p).pl = { s.player p with actualLength := n } := by
  simp only [readTurn, readPlayer, hmode, if_true, readStream]
  split_ifs
  · exact ⟨_, rfl⟩
  · exact ⟨_, rfl⟩
  · simp only [Server.player_setPlayer, Function.update_self]
    exact ⟨_, rfl⟩
  · exact ⟨_, rfl⟩

theorem mixPlayers_alone (h : Alone cfg s p) (hdata : (readTurn canRead s p).HasData) :
    ((mixPlayers cfg canRead s).1.outputBuffer, (mixPlayers cfg canRead s).2) =
      if fills cfg canRead s p > 0 then mixOf cfg canRead s (fills cfg canRead s p) [p]
      else (s.outputBuffer, 0) := by
  have hperm : [p].Perm s.esdPlayersList := by rw [h.players]
  have hcycle := mixPlayers_reordered cfg canRead hperm (by simp [h.players]) h.apart
  have hleast : leastIn cfg canRead s [p] = fills cfg canRead s p := by
    simp [leastIn, hdata.compared, leastOf]
  have hsame : s.reordered [p] = s := by
    rw [← h.players]
    rfl
  have hstays : [p].filter (fun p => decide (0 ≤ (readTurn canRead s p).actual)) = [p] := by
    simp [hdata.1]
  rwa [hleast, hsame, hstays] at hcycle

theorem Alone.frameOctets_eq (h : Alone cfg s p) :
    frameOctets (s.player p) = 2 * esdSampleSize s.esdAudioFormat := by
  have hwidth : (esdBits16 : Word) ≠ esdBits8 := by decide
  have hchan : (esdStereo : Word) ≠ esdMono := by decide
  rcases h.width with h8 | h16
  · simp [frameOctets, esdSampleSize, h.bits, h.chan, h8, hchan, hwidth.symm]
  · simp [frameOctets, esdSampleSize, h.bits, h.chan, h16, hchan, hwidth]

theorem Alone.mixFunc_eq (h : Alone cfg s p) : (s.player p).mixFunc =
    if s.esdAudioFormat &&& esdMaskBits = esdBits16 then some .stereo16sSv else some .stereo8uSv := by
  have hwidth : (esdBits16 : Word) ≠ esdBits8 := by decide
  have hchan : (esdStereo : Word) ≠ esdMono := by decide
  rcases h.width with h8 | h16
  · simp [h.func, getMixFunc, h.bits, h.chan, h8, hchan, hwidth.symm, h.left, h.right]
  · simp [h.func, getMixFunc, h.bits, h.chan, h16, hchan, hwidth, h.left, h.right]

/-- A sample of the player as it goes into the sum. -/
def soundEntry (format : Word) (data : Mem) (i : ℕ) : ℤ :=
  if format &&& esdMaskBits = esdBits16 then data.short i else short16 ((data.octetAt i - 127) * 256)

theorem Alone.mixOf_eq (h : Alone cfg s p) (hpos : 0 < (readTurn canRead s p).pl.actualLength)
    (length : ℤ) : mixOf cfg canRead s length [p] =
      let mixed := raised (length.toNat / 2)
        (soundEntry s.esdAudioFormat (readTurn canRead s p).data) (clearMix cfg s).mixedBuffer
      let r := clipMix { s with mixedBuffer := mixed } (2 * (length.toNat / 2 : ℕ))
      (r.1.outputBuffer, r.2) := by
  obtain ⟨n, hn⟩ := readTurn_stream canRead h.mode
  have hblend : blend cfg (readTurn canRead s p).pl (readTurn canRead s p).data length
      ((clearMix cfg s).mixedBuffer, 0) = (raised (length.toNat / 2)
        (soundEntry s.esdAudioFormat (readTurn canRead s p).data) (clearMix cfg s).mixedBuffer,
        2 * ((length.toNat / 2 : ℕ) : ℤ)) := by
    have hfunc : (readTurn canRead s p).pl.mixFunc = (s.player p).mixFunc := by rw [hn]
    have hrate : (readTurn canRead s p).pl.rate = cfg.esdAudioRate := by rw [hn]; exact h.rate
    have hmax : max 0 (2 * ((length.toNat / 2 : ℕ) : ℤ)) = 2 * ((length.toNat / 2 : ℕ) : ℤ) :=
      max_eq_right (by omega)
    by_cases h16 : s.esdAudioFormat &&& esdMaskBits = esdBits16
    · have hentry : soundEntry s.esdAudioFormat (readTurn canRead s p).data =
          fun i : ℕ => (readTurn canRead s p).data.short i := by
        funext i
        rw [soundEntry, if_pos h16]
      simp only [blend, hfunc, h.mixFunc_eq, h16, gt_iff_lt, hpos, if_true, MixFunc.apply,
        mixStereo16sToStereo32sSv, hrate, mixEntries_eq, hmax, hentry]
    · have hentry : soundEntry s.esdAudioFormat (readTurn canRead s p).data =
          fun i : ℕ => short16 (((readTurn canRead s p).data.octetAt i - 127) * 256) := by
        funext i
        rw [soundEntry, if_neg h16]
      simp only [blend, hfunc, h.mixFunc_eq, h16, gt_iff_lt, hpos, if_true, if_false, MixFunc.apply,
        mixStereo8uToStereo32sSv, hrate, mixEntries_eq, hmax, hentry]
  simp only [mixOf, List.foldl_cons, List.foldl_nil, hblend]

theorem clip16_raised {n : ℕ} {mixed : ℕ → ℤ} (data : Mem) (hzero : ∀ i < 2 * n, mixed i = 0)
    (out : Mem) : load (clipMixToOutput16s (raised (2 * n) (fun i => data.short i) mixed) out (4 * n)) 0
      (4 * n) = load data 0 (4 * n) := by
  apply load_congr
  intro j hj
  have hentries : (4 * (n : ℤ)).toNat / 2 = 2 * n := by omega
  have hcell : ((0 : ℤ) + j).toNat = j := by omega
  have hlt : j / 2 < 2 * n := by omega
  have hrange := short_range data (j / 2 : ℕ)
  have hsum : raised (2 * n) (fun i => data.short i) mixed (j / 2) = data.short (j / 2 : ℕ) := by
    simp only [raised, hlt, if_true, hzero _ hlt, zero_add]
    exact int32_eq_self (by omega) (by omega)
  simp only [clipMixToOutput16s, hentries, hcell, countUp_setShort, hlt, if_true, hsum]
  rw [if_neg (by omega), if_neg (by omega), ofInt_short, shortOctet_shortWord]

theorem clip8_raised {n j : ℕ} {mixed : ℕ → ℤ} (data : Mem) (hzero : ∀ i < n, mixed i = 0)
    (hj : j < n) (out : Mem) : clipMixToOutput8u
      (raised n (fun i => short16 ((data.octetAt i - 127) * 256)) mixed) out (2 * n) j = data j + 1 := by
  have hentries : (2 * (n : ℤ)).toNat / 2 = n := by omega
  have hoctet : 0 ≤ data.octetAt j ∧ data.octetAt j < 256 := by
    have hlt := (data j).isLt
    simp only [Mem.octetAt, Int.toNat_natCast]
    omega
  obtain ⟨x, hx⟩ : ∃ x, data.octetAt j = x := ⟨_, rfl⟩
  rw [hx] at hoctet
  have hsum : raised n (fun i => short16 ((data.octetAt i - 127) * 256)) mixed j =
      if x = 255 then -32768 else (x - 127) * 256 := by
    simp only [raised, hj, if_true, hzero _ hj, zero_add, hx]
    split_ifs with h255
    · rw [h255]
      decide
    · rw [short16, Int.bmod_eq_of_le (by omega) (by omega)]
      exact int32_eq_self (by omega) (by omega)
  have hcell : data j = BitVec.ofInt 8 x := by
    rw [← hx, Mem.octetAt, Int.toNat_natCast, BitVec.ofInt_natCast, BitVec.ofNat_toNat,
      BitVec.setWidth_eq]
  simp only [clipMixToOutput8u, hentries, countUp_setOctet, hj, if_true, hsum, hcell]
  rcases eq_or_ne x 255 with rfl | h255
  · decide
  · have hnext : x - 127 + 128 = x + 1 := by omega
    simp only [h255, if_false]
    rw [if_neg (by omega), if_neg (by omega), Int.mul_tdiv_cancel _ (by norm_num), hnext,
      BitVec.ofInt_add]
    rfl

theorem Alone.mixOf_length (h : Alone cfg s p) (hpos : 0 < (readTurn canRead s p).pl.actualLength)
    (length : ℤ) : (mixOf cfg canRead s length [p]).2 =
      esdSampleSize s.esdAudioFormat * (length.toNat / 2 : ℕ) := by
  rw [h.mixOf_eq hpos]
  simp only [clipMix, esdSampleSize]
  split_ifs
  · rfl
  · rw [Int.mul_tdiv_cancel_left _ (by norm_num), Nat.cast_one, one_mul]

theorem mixPlayers_idle (h : Alone cfg s p) (hnone : (readTurn canRead s p).pl.actualLength ≤ 0) :
    ((mixPlayers cfg canRead s).1.outputBuffer, (mixPlayers cfg canRead s).2) = (s.outputBuffer, 0) := by
  have hlist : s.esdPlayersList.Nodup := by simp [h.players]
  have hcycle := mixPlayers_reordered cfg canRead (s := s) (.refl _) hlist
    h.apart
  have hnothing : ∀ length, mixOf cfg canRead s length
      (s.esdPlayersList.filter fun p => 0 ≤ (readTurn canRead s p).actual) = (s.outputBuffer, 0) := by
    refine fun length => mixOf_nothing (fun q hq => ?_) length
    have hmem := List.mem_of_mem_filter hq
    rw [h.players, List.mem_singleton] at hmem
    rwa [hmem]
  rw [hnothing, ite_self] at hcycle
  exact hcycle

/-- Playback is bit exact exactly on a device of 16 bits, as long as the int that counts the frames
at the rate of the device does not wrap around; on one of 8 bits every octet comes out as the
next one. -/
theorem bit_exact_iff (h : Alone cfg s p) (haudio : cfg.esdAudioRate < 2 ^ 31)
    (hblock : cfg.esdBufSizeOctets < 2 ^ 31)
    (hsamples : cfg.esdBufSizeSamples = cfg.esdBufSizeOctets / esdSampleSize s.esdAudioFormat) {n : ℕ}
    (hstays : 0 ≤ (readTurn canRead s p).actual)
    (hframes : (readTurn canRead s p).pl.actualLength = frameOctets (s.player p) * n)
    (hroom : 4 * n ≤ cfg.esdBufSizeOctets) :
    BitExact cfg canRead s p ↔ n = 0 ∨ (s.esdAudioFormat &&& esdMaskBits = esdBits16 ∧
      n * cfg.esdAudioRate + cfg.esdAudioRate ≤ 2 ^ 31) := by
  rcases Nat.eq_zero_or_pos n with rfl | hn
  · have hzero : (readTurn canRead s p).pl.actualLength = 0 := by
      rw [hframes, Nat.cast_zero, mul_zero]
    obtain ⟨houtput, hlength⟩ := Prod.mk.inj (mixPlayers_idle h hzero.le)
    refine ⟨fun _ => .inl rfl, fun _ => ⟨hlength.trans hzero.symm, ?_⟩⟩
    rw [hzero, Int.toNat_zero, load_zero, load_zero]
  have hframe := frameOctets_pos (s.player p)
  have hpos : 0 < (readTurn canRead s p).pl.actualLength := by
    rw [hframes]
    exact mul_pos hframe.1 (Nat.cast_pos.mpr hn)
  have hcycle := mixPlayers_alone h ⟨hstays, hpos⟩
  obtain ⟨al, hal⟩ := readTurn_stream canRead h.mode
  obtain ⟨hfew, hexact⟩ : fills cfg canRead s p ≤ 4 * n ∧ (fills cfg canRead s p = 4 * n ↔ _) :=
    translated_own (by rw [hal]; exact h.rate) haudio (by rw [hframes, hal]; rfl) hn
      (by exact_mod_cast hroom) (by exact_mod_cast hblock)
  rw [← hexact, or_iff_right hn.ne']
  have hclear : ∀ i < 2 * n, (clearMix cfg s).mixedBuffer i = 0 := by
    intro i hi
    have hin : i < cfg.esdBufSizeSamples := by
      rw [hsamples, esdSampleSize]
      split_ifs <;> omega
    simp [clearMix, hin]
  rw [h.frameOctets_eq] at hframes
  constructor
  · rintro ⟨hlength, houtput⟩
    have hfills : fills cfg canRead s p = 4 * n := by
      have hsize : (esdSampleSize s.esdAudioFormat : ℤ) = 1 ∨ (esdSampleSize s.esdAudioFormat : ℤ) = 2 := by
        simp only [esdSampleSize]
        split_ifs <;> simp
      have hcount := congrArg Prod.snd hcycle
      dsimp only at hcount
      rw [hlength, hframes] at hcount
      split_ifs at hcount with hsome
      · rw [h.mixOf_length hpos] at hcount
        rcases hsize with hsize | hsize <;> rw [hsize] at hcount <;> omega
      · rcases hsize with hsize | hsize <;> rw [hsize] at hcount <;> omega
    refine ⟨h.width.resolve_left fun h8 => ?_, hfills⟩
    have h16 : s.esdAudioFormat &&& esdMaskBits ≠ esdBits16 := by rw [h8]; decide
    have hentry : soundEntry s.esdAudioFormat (readTurn canRead s p).data =
        fun i : ℕ => short16 (((readTurn canRead s p).data.octetAt i - 127) * 256) := by
      funext i
      rw [soundEntry, if_neg h16]
    have hbuffer := congrArg Prod.fst hcycle
    rw [hfills, if_pos (by omega), h.mixOf_eq hpos, length_entries, hentry] at hbuffer
    simp only [clipMix, h16, if_false] at hbuffer
    have hfirst := congrArg (fun l => l[0]?) houtput
    have hsome : 0 < (readTurn canRead s p).pl.actualLength.toNat := by omega
    simp only [load, List.getElem?_map, List.getElem?_range hsome, Option.map_some, Nat.cast_zero,
      add_zero, Int.toNat_zero, Option.some.injEq] at hfirst
    have hnext := clip8_raised (n := 2 * n) (j := 0) (readTurn canRead s p).data hclear
      (by omega) s.outputBuffer
    rw [hbuffer, hnext] at hfirst
    exact absurd hfirst (by simp)
  · rintro ⟨h16, hfills⟩
    have hentry : soundEntry s.esdAudioFormat (readTurn canRead s p).data =
        fun i : ℕ => (readTurn canRead s p).data.short i := by
      funext i
      rw [soundEntry, if_pos h16]
    rw [hfills, if_pos (by omega), h.mixOf_eq hpos, length_entries, hentry] at hcycle
    simp only [clipMix, h16, if_true] at hcycle
    obtain ⟨houtput, hlength⟩ := Prod.mk.inj hcycle
    have hal : (readTurn canRead s p).pl.actualLength = 4 * n := by
      rw [hframes, esdSampleSize, if_pos h16]
      push_cast
      ring
    have hcount : (4 * (n : ℤ)).toNat = 4 * n := by omega
    refine ⟨?_, ?_⟩
    · rw [hlength, hal]
      push_cast
      ring
    · rw [hal, hcount, houtput]
      have hexact := clip16_raised (readTurn canRead s p).data hclear s.outputBuffer
      have hdouble : 2 * ((2 * n : ℕ) : ℤ) = 4 * n := by
        push_cast
        ring
      rwa [hdouble]

end Playback

instance (cfg : Config) (canRead : Ptr → Bool) (s : Server) (p : Ptr) :
    Decidable (BitExact cfg canRead s p) := inferInstanceAs (Decidable (_ ∧ _))

/-- A client plays these octets in a format. -/
def aloneRun (format : Word) (octets : List Octet) : List Action :=
  [.accept 1 5 (.sending
      [handshake 7, Word.octets 3#32, streamParams format 44100#32, octets]),
    .poll 1 (.allocating 0), .poll 1 (.allocating 0), .poll 1 (.allocating 2)]

theorem aloneRun_shorts : (exec (step .smallBlocks) NoReset .blank
    (aloneRun (esdBits16 ||| esdStereo) ((List.range 16).map (BitVec.ofNat 8)))).isSome := by
  decide +kernel

theorem bit_exact_iff_shorts : ∃ t, Runs .smallBlocks NoReset .blank
    (aloneRun (esdBits16 ||| esdStereo) ((List.range 16).map (BitVec.ofNat 8))) t ∧
      BitExact .smallBlocks (fun _ => true) t 2 := by
  refine ⟨_, Run.of_isSome aloneRun_shorts, ?_⟩
  rw [bit_exact_iff (n := 4) ⟨by decide +kernel, by decide +kernel, by decide +kernel,
    by decide +kernel, by decide +kernel, by decide +kernel, by decide +kernel, by decide +kernel,
    by decide +kernel⟩ (by decide) (by decide) (by decide +kernel) (by decide +kernel)
    (by decide +kernel) (by decide)]
  exact .inr ⟨by decide +kernel, by decide⟩

/-- A device with samples of 8 bits, in blocks of 16 octets. -/
def Config.smallOctets : Config := { Config.smallBlocks with esdBufSizeSamples := 16 }

def Server.blankOctets : Server :=
  { Server.blank with
    esdAudioFormat := esdBits8 ||| esdStereo
    audioFd := some (esdBits8 ||| esdStereo) }

theorem aloneRun_octets : (exec (step .smallOctets) NoReset .blankOctets
    (aloneRun (esdBits8 ||| esdStereo) [0, 1, 126, 127, 128, 253, 254, 255])).isSome := by
  decide +kernel

/-- Every octet comes out as the next one, and 255 as 0. -/
theorem octets_come_out_raised : ∃ t, Runs .smallOctets NoReset .blankOctets
    (aloneRun (esdBits8 ||| esdStereo) [0, 1, 126, 127, 128, 253, 254, 255]) t ∧
      t.esdPlayersList = [2] ∧
      load (mixPlayers .smallOctets (fun _ => true) t).1.outputBuffer 0 8 =
        [1, 2, 127, 128, 129, 254, 255, 0] ∧
      ¬ BitExact .smallOctets (fun _ => true) t 2 :=
  ⟨_, Run.of_isSome aloneRun_octets, by decide +kernel, by decide +kernel, by decide +kernel⟩

end Esound
