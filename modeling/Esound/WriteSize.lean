import Esound.FreshAudio

/-!
# The size of a block in int products

A device may ask for blocks of up to `ESD_MAX_WRITE_SIZE` octets. The size is multiplied with the
rate of every new player, and with that of the daemon where its latency is asked for, both times
in an int.
-/

namespace Esound

/-- `ESD_MAX_WRITE_SIZE`. -/
def esdMaxWriteSize : ℕ := 21 * 4096

/-! ## The buffers of players -/

/-- The buffer of a player without the limits of an int. -/
def exactLength (block audioRate : ℕ) (format : Word) (rate : ℕ) : ℕ :=
  let len := block * rate / audioRate
  let len := if format &&& esdMaskBits = esdBits8 then len / 2 else len
  let len := if format &&& esdMaskChan = esdMono then len / 2 else len
  len - len % 4

/-- An int is what it stands for exactly if it is less than `2 ^ 31`. -/
theorem int32_natCast_iff (n : ℕ) : int32 n = n ↔ n < 2 ^ 31 := by
  constructor
  · intro h
    have hrange := int32_range n
    rw [h] at hrange
    exact_mod_cast hrange.2
  · intro h
    exact int32_of_range (Int.natCast_nonneg n) (by exact_mod_cast h)

section Length

variable (cfg : Config) (format : Word) {r : ℕ}

theorem bufferLength_exact (hfit : cfg.esdBufSizeOctets * r < 2 ^ 31) :
    bufferLength cfg format r = exactLength cfg.esdBufSizeOctets cfg.esdAudioRate format r := by
  have hproduct : int32 ((cfg.esdBufSizeOctets : ℤ) * r) = (cfg.esdBufSizeOctets * r : ℕ) := by
    rw [← Nat.cast_mul]
    exact (int32_natCast_iff _).mpr hfit
  have hhalf : ∀ n : ℕ, (n : ℤ).tdiv 2 = (n / 2 : ℕ) := fun n => rfl
  have hwhole : ∀ n : ℕ, (n : ℤ) - (n : ℤ).tmod 4 = (n - n % 4 : ℕ) := fun n => by
    have hmod : (n : ℤ).tmod 4 = (n % 4 : ℕ) := rfl
    rw [hmod, Nat.cast_sub (Nat.mod_le n 4)]
  simp only [bufferLength, exactLength, hproduct, ← Int.ofNat_tdiv]
  split_ifs <;> simp only [hhalf, hwhole]

theorem bufferLength_nonpos (hover : 2 ^ 31 ≤ cfg.esdBufSizeOctets * r)
    (hless : cfg.esdBufSizeOctets * r < 2 ^ 32) : bufferLength cfg format r ≤ 0 := by
  have hquot : ∀ {x c : ℤ}, 0 < c → x ≤ 0 → x.tdiv c ≤ 0 := by
    intro x c hc hx
    have hle := Int.tdiv_le_tdiv hc hx
    rwa [Int.zero_tdiv] at hle
  have hwhole : ∀ {x : ℤ}, x ≤ 0 → x - x.tmod 4 ≤ 0 := by
    intro x hx
    have hdiv := hquot (c := 4) (by norm_num) hx
    have hsum := Int.mul_tdiv_add_tmod x 4
    omega
  have hproduct : int32 ((cfg.esdBufSizeOctets : ℤ) * r) ≤ 0 := by
    rw [← Nat.cast_mul]
    generalize cfg.esdBufSizeOctets * r = product at hover hless
    have hrange := int32_range product
    have hmod := int32_emod product
    omega
  have hlen := hquot (c := cfg.esdAudioRate) (by exact_mod_cast cfg.audioRate_pos) hproduct
  have hhalf : ∀ {x : ℤ}, x ≤ 0 → x.tdiv 2 ≤ 0 := hquot (by norm_num)
  simp only [bufferLength]
  apply hwhole
  split_ifs
  · exact hhalf (hhalf hlen)
  · exact hhalf hlen
  · exact hhalf hlen
  · exact hlen

theorem exactLength_pos {block audioRate : ℕ} (hpos : 0 < audioRate) (haudio : audioRate ≤ 48000)
    (hover : 2 ^ 31 ≤ block * r) : 0 < exactLength block audioRate format r := by
  have hlen : 44739 ≤ block * r / audioRate := by
    rw [Nat.le_div_iff_mul_le hpos]
    omega
  simp only [exactLength]
  split_ifs <;> omega

variable {cfg}

/-- A player gets the buffer it should exactly if the product fits. -/
theorem bufferLength_exact_iff (hblock : cfg.esdBufSizeOctets ≤ esdMaxWriteSize)
    (haudio : cfg.esdAudioRate ≤ 48000) (hr : r ≤ 48000) :
    bufferLength cfg format r = exactLength cfg.esdBufSizeOctets cfg.esdAudioRate format r ↔
      cfg.esdBufSizeOctets * r < 2 ^ 31 := by
  refine ⟨fun hexact => ?_, bufferLength_exact cfg format⟩
  by_contra hover
  have hless : cfg.esdBufSizeOctets * r < 2 ^ 32 :=
    (Nat.mul_le_mul hblock hr).trans_lt (by decide)
  have hnonpos := bufferLength_nonpos cfg format (not_lt.mp hover) hless
  have hpos := exactLength_pos format cfg.audioRate_pos haudio (not_lt.mp hover)
  rw [hexact] at hnonpos
  omega

end Length

section New

variable {cfg : Config} {env : PollEnv} {s : Server}

variable (cfg) in
/-- A player that was made, with the length for its format and rate. -/
def HasLength (new : Server × Ptr) : Prop :=
  new.2 ≠ 0 → (new.1.player new.2).bufferLength =
    bufferLength cfg (new.1.player new.2).format (new.1.player new.2).rate

theorem newStreamPlayer_length (c : Ptr) : HasLength cfg (newStreamPlayer cfg env s c) :=
  fun h => (newStreamPlayer_sized h).length

theorem newSamplePlayer_length (id : ℤ) (loop : Bool) :
    HasLength cfg (newSamplePlayer cfg env s id loop) := by
  intro h
  simp only [newSamplePlayer] at h ⊢
  split at h
  · exact absurd rfl h
  · split_ifs at h ⊢
    · exact absurd rfl h
    · split at h
      · exact absurd rfl h
      · simp [Server.setSample]
    · split at h <;> exact absurd rfl h

end New

/-! ## The latency -/

/-- What is divided by the rate of the device for the latency. -/
def latencyProduct (format : Word) (size : ℤ) : ℤ :=
  if format &&& esdStereo ≠ 0#32 then
    if format &&& esdBits16 ≠ 0#32 then 44100 * (size + 64) else 44100 * (size + 128)
  else if format &&& esdBits16 ≠ 0#32 then 2 * 44100 * (size + 128)
  else 2 * 44100 * (size + 256)

/-- The largest block whose latency fits an int. -/
def latencyLimit (format : Word) : ℤ :=
  if format &&& esdStereo ≠ 0#32 then if format &&& esdBits16 ≠ 0#32 then 48631 else 48567
  else if format &&& esdBits16 ≠ 0#32 then 24219 else 24091

theorem esdProtoGetLatency_eq (cfg : Config) (s : Server) (c : Ptr) :
    esdProtoGetLatency cfg s c = checkedReply s c
      ((int32 (latencyProduct s.esdAudioFormat s.esdWriteSize)).tdiv cfg.esdAudioRate) := by
  simp only [esdProtoGetLatency, latencyProduct]
  split_ifs <;> rfl

theorem latencyProduct_nonneg (format : Word) {size : ℤ} (hsize : 0 ≤ size) :
    0 ≤ latencyProduct format size := by
  simp only [latencyProduct]
  split_ifs <;> omega

theorem latencyProduct_fits_iff (format : Word) {size : ℤ} (hsize : 0 ≤ size) :
    int32 (latencyProduct format size) = latencyProduct format size ↔ size ≤ latencyLimit format := by
  obtain ⟨n, hn⟩ := Int.eq_ofNat_of_zero_le (latencyProduct_nonneg format hsize)
  rw [hn, int32_natCast_iff, ← Int.ofNat_lt, ← hn]
  simp only [latencyProduct, latencyLimit]
  split_ifs <;> omega

theorem int32_tdiv_iff {x : ℤ} {a : ℕ} (hx : 0 ≤ x) (ha : 0 < a) (ha' : a ≤ 48000) :
    (int32 x).tdiv a = x.tdiv a ↔ int32 x = x := by
  refine ⟨fun hquot => ?_, fun hexact => by rw [hexact]⟩
  by_contra hne
  have hrange := int32_range x
  have hmod := int32_emod x
  have hover : 2 ^ 31 ≤ x := by
    by_contra hfit
    exact hne (int32_of_range hx (not_le.mp hfit))
  have hle : int32 x ≤ x - a := by omega
  have hquot' := Int.tdiv_le_tdiv (c := a) (by omega) hle
  have hstep : (x - a).tdiv a = x.tdiv a - 1 := by
    rw [Int.tdiv_eq_ediv_of_nonneg (by omega), Int.tdiv_eq_ediv_of_nonneg hx,
      Int.sub_ediv_of_dvd _ dvd_rfl, Int.ediv_self (by omega)]
  omega

/-- The int products are exact, and with them the length of a player's buffer and the latency,
exactly up to bounds that are below the largest block. -/
theorem products_fit_iff {cfg : Config} (hblock : cfg.esdBufSizeOctets ≤ esdMaxWriteSize)
    (haudio : cfg.esdAudioRate ≤ 48000) :
    (∀ env s c id loop, HasLength cfg (newStreamPlayer cfg env s c) ∧
      HasLength cfg (newSamplePlayer cfg env s id loop)) ∧
    (∀ (format : Word) (r : ℕ), r ≤ 48000 →
      (int32 ((cfg.esdBufSizeOctets * r : ℕ) : ℤ) = (cfg.esdBufSizeOctets * r : ℕ) ↔
          cfg.esdBufSizeOctets * r < 2 ^ 31) ∧
        (bufferLength cfg format r = exactLength cfg.esdBufSizeOctets cfg.esdAudioRate format r ↔
          cfg.esdBufSizeOctets * r < 2 ^ 31)) ∧
    ∀ (s : Server) (c : Ptr), s.esdWriteSize = cfg.esdBufSizeOctets →
      ∃ amount, esdProtoGetLatency cfg s c = checkedReply s c amount ∧
        (int32 (latencyProduct s.esdAudioFormat s.esdWriteSize) =
            latencyProduct s.esdAudioFormat s.esdWriteSize ↔
          s.esdWriteSize ≤ latencyLimit s.esdAudioFormat) ∧
        (amount = (latencyProduct s.esdAudioFormat s.esdWriteSize).tdiv cfg.esdAudioRate ↔
          s.esdWriteSize ≤ latencyLimit s.esdAudioFormat) := by
  refine ⟨fun env s c id loop => ⟨newStreamPlayer_length c, newSamplePlayer_length id loop⟩,
    fun format r hr => ⟨int32_natCast_iff _, bufferLength_exact_iff format hblock haudio hr⟩,
    fun s c hsize => ⟨_, esdProtoGetLatency_eq cfg s c, ?_, ?_⟩⟩
  · exact latencyProduct_fits_iff _ (hsize ▸ Int.natCast_nonneg _)
  · have hnonneg : 0 ≤ s.esdWriteSize := hsize ▸ Int.natCast_nonneg _
    rw [int32_tdiv_iff (latencyProduct_nonneg _ hnonneg) cfg.audioRate_pos haudio,
      latencyProduct_fits_iff _ hnonneg]

theorem products_fit_iff_small :
    bufferLength .smallBlocks (esdBits16 ||| esdStereo) 22050 =
      exactLength 16 44100 (esdBits16 ||| esdStereo) 22050 := by
  have hblock : Config.smallBlocks.esdBufSizeOctets ≤ esdMaxWriteSize := by decide
  obtain ⟨-, hlength, -⟩ := products_fit_iff hblock (by decide)
  exact ((hlength (esdBits16 ||| esdStereo) 22050 (by decide)).2).mpr (by decide)

/-- A daemon with the largest blocks. -/
def Config.largeBlocks : Config :=
  { Config.smallBlocks with
    esdBufSizeOctets := esdMaxWriteSize
    esdBufSizeSamples := esdMaxWriteSize / 2
    bufSize_pos := Nat.succ_pos _ }

/-- A stream at the rate of a device with the largest blocks gets a negative length. -/
theorem largeBlocks_overflow :
    bufferLength .largeBlocks (esdBits16 ||| esdStereo) 44100 = -11372 ∧
      exactLength esdMaxWriteSize 44100 (esdBits16 ||| esdStereo) 44100 = 86016 ∧
      int32 (latencyProduct (esdBits16 ||| esdStereo) esdMaxWriteSize) = -498839296 := by
  decide +kernel

end Esound
