import Esound.Daemon
import Esound.Entries
import Esound.Translation

/-!
# The fast paths

The mix functions are there with and without scales, and those of stereo players count through
their blocks in a simpler way where the rates agree. The translation functions copy a block that
is in the right format at the right rate. What the shorter ways come to is what the longer ones do.
-/

open Library.Buffer Library.Loop

namespace Esound

/-! ## The loops for rates that differ -/

section Loops

variable (cfg : Config) (pl : EsdPlayer) (data : Mem) (length : ℤ) (mixed : ℕ → ℤ)

/-- The `else` of a stereo function, with what it makes of a left and of a right sample. -/
def resampleStereo (left right : ℤ → ℤ) : (ℕ → ℤ) × ℤ :=
  mixFrames (fun wr =>
    let rd := evenDown (rdDat wr pl.rate cfg.esdAudioRate)
    (left rd, right (rd + 1))) length mixed

def resampleStereo8uSv : (ℕ → ℤ) × ℤ :=
  resampleStereo cfg pl length mixed (fun i => widen8 (data.octetAt i)) fun i => widen8 (data.octetAt i)

def resampleStereo16sSv : (ℕ → ℤ) × ℤ :=
  resampleStereo cfg pl length mixed (fun i => data.short i) fun i => data.short i

def resampleStereo8u : (ℕ → ℤ) × ℤ :=
  resampleStereo cfg pl length mixed
    (fun i => short16 (scaled (widen8 (data.octetAt i)) pl.leftVolScale))
    fun i => short16 (scaled (widen8 (data.octetAt i)) pl.rightVolScale)

def resampleStereo16s : (ℕ → ℤ) × ℤ :=
  resampleStereo cfg pl length mixed (fun i => short16 (scaled (data.short i) pl.leftVolScale))
    fun i => short16 (scaled (data.short i) pl.rightVolScale)

theorem resamples_of_ne (h : pl.rate ≠ cfg.esdAudioRate) :
    mixStereo8uToStereo32sSv cfg pl data length mixed = resampleStereo8uSv cfg pl data length mixed ∧
      mixStereo16sToStereo32sSv cfg pl data length mixed =
        resampleStereo16sSv cfg pl data length mixed ∧
      mixStereo8uToStereo32s cfg pl data length mixed = resampleStereo8u cfg pl data length mixed ∧
      mixStereo16sToStereo32s cfg pl data length mixed =
        resampleStereo16s cfg pl data length mixed := by
  simp only [mixStereo8uToStereo32sSv, mixStereo16sToStereo32sSv, mixStereo8uToStereo32s,
    mixStereo16sToStereo32s, h, if_false]
  exact ⟨rfl, rfl, rfl, rfl⟩

end Loops

section Copies

variable (dest : Mem) (destLen : ℕ) (destRate : ℤ) (src : Mem) (srcRate : ℤ)

/-- The loop of a translation function behind the `memcpy`. -/
def TranslateFunc.resample (f : TranslateFunc) : Mem × ℤ :=
  let rd wr := rdDat wr srcRate destRate
  match f with
  | fromStereo16s =>
    writeShortPairs (fun wr =>
      let i := evenDown (rd wr)
      (src.short i, src.short (i + 1))) destLen dest
  | fromStereo8u =>
    writeOctetPairs (fun wr =>
      let i := evenDown (rd wr)
      (src.octetAt i, src.octetAt (i + 1))) destLen dest
  | fromMono16s => writeShorts (fun wr => src.short (rd wr)) destLen dest
  | fromMono8u => writeOctets (fun wr => src.octetAt (rd wr)) destLen dest

theorem TranslateFunc.apply_own {format : Word} (bits : KnownBits format) {srcLen : ℤ}
    (hsrc : srcLen ≠ 0) :
    (getTranslateFunc format).apply dest destLen destRate format src srcLen srcRate =
      if destRate = srcRate then copyOctets src destLen dest
      else (getTranslateFunc format).resample dest destLen destRate src srcRate := by
  have hwidth : (esdBits16 : Word) ≠ esdBits8 := by decide
  rcases bits with h8 | h16 <;> by_cases hmono : format &&& esdMaskChan = esdMono
  · simp only [getTranslateFunc, apply, mixFromMono8u, resample, hsrc, h8, hmono, hwidth.symm, if_true,
      if_false]
  · simp only [getTranslateFunc, apply, mixFromStereo8u, resample, hsrc, h8, hmono, hwidth.symm,
      if_true, if_false]
  · simp only [getTranslateFunc, apply, mixFromMono16s, resample, hsrc, h16, hmono, hwidth, if_true,
      if_false]
  · simp only [getTranslateFunc, apply, mixFromStereo16s, resample, hsrc, h16, hmono, hwidth, if_true,
      if_false]

end Copies

/-! ## Equal rates -/

section Equal

variable {wr n : ℕ} {r : ℤ}

/-- At equal rates every sample is taken from where it goes, as long as the product fits. -/
theorem rdDat_self (hr : r % 2 ^ 32 ≠ 0) (hfit : wr * (r % 2 ^ 32) < 2 ^ 32) (hint : wr < 2 ^ 31) :
    rdDat wr r r = wr := by
  have hnonneg : 0 ≤ r % 2 ^ 32 := Int.emod_nonneg _ (by norm_num)
  have hprod : (wr * r) % 2 ^ 32 = wr * (r % 2 ^ 32) := by
    rw [← (Int.mod_modEq r (2 ^ 32)).mul_left (wr : ℤ)]
    exact Int.emod_eq_of_lt (mul_nonneg (Int.natCast_nonneg wr) hnonneg) hfit
  rw [rdDat, hprod, Int.mul_ediv_cancel _ hr]
  exact int32_of_range (Int.natCast_nonneg wr) (by exact_mod_cast hint)

theorem samples_fit {k : ℕ} (hle : wr ≤ k) (hfit : k * (r % 2 ^ 32) < 2 ^ 32) :
    wr * (r % 2 ^ 32) < 2 ^ 32 := by
  have hnonneg : 0 ≤ r % 2 ^ 32 := Int.emod_nonneg _ (by norm_num)
  exact (mul_le_mul_of_nonneg_right (by exact_mod_cast hle) hnonneg).trans_lt hfit

theorem leftOf_add (i : ℕ) : leftOf i + i % 2 = i := by
  simp only [leftOf]
  omega

theorem evenDown_self {i : ℕ} (hr : r % 2 ^ 32 ≠ 0) (hfit : leftOf i * (r % 2 ^ 32) < 2 ^ 32)
    (hint : leftOf i < 2 ^ 31) : evenDown (rdDat (leftOf i) r r) + (i % 2 : ℕ) = i := by
  have hleft := leftOf_add i
  have heven : (leftOf i : ℤ) % 2 = 0 := by
    simp only [leftOf]
    omega
  rw [rdDat_self hr hfit hint, evenDown, heven]
  omega

end Equal

section Mixing

variable {cfg : Config} {pl : EsdPlayer} {n : ℕ} (data : Mem) (mixed : ℕ → ℤ)

theorem scaled_base {x : ℤ} (hlow : -32768 ≤ x) (hhigh : x ≤ 32767) : scaled x esdVolumeBase = x := by
  rw [scaled, esdVolumeBase, int32_eq_self (by omega) (by omega), Int.mul_tdiv_cancel _ (by norm_num)]

theorem MixFunc.sound_range (f : MixFunc) (i : ℤ) : -32768 ≤ f.sound data i ∧ f.sound data i ≤ 32767 := by
  cases f with
  | mono8uSv | stereo8uSv | mono8u | stereo8u => exact short16_range _
  | mono16sSv | stereo16sSv | mono16s | stereo16s => exact short_range _ _

theorem MixFunc.gain_base (f : MixFunc) (left : pl.leftVolScale = esdVolumeBase)
    (right : pl.rightVolScale = esdVolumeBase) (i : ℕ) (j : ℤ) :
    f.gain pl i (f.sound data j) = f.sound data j := by
  obtain ⟨hlow, hhigh⟩ := f.sound_range data j
  have hexact := scaled_base hlow hhigh
  have hshort := short16_eq_self hlow hhigh
  have hscale : pl.scaleOf i = esdVolumeBase := by
    rw [EsdPlayer.scaleOf, left, right, ite_self]
  cases f <;> simp only [gain, left, right, hscale, hexact, hshort]

/-- Functions that take the same samples, and scale with the base if at all, add the same. -/
theorem MixFunc.entry_base {f g : MixFunc} (mono : f.IsMono ↔ g.IsMono)
    (sound : f.sound data = g.sound data) (left : pl.leftVolScale = esdVolumeBase)
    (right : pl.rightVolScale = esdVolumeBase) : f.entry cfg pl data = g.entry cfg pl data := by
  have hindex : f.sampleIndex cfg pl = g.sampleIndex cfg pl := by
    funext i
    simp only [sampleIndex, mono]
  funext i
  rw [entry, entry, gain_base data f left right, gain_base data g left right, sound, hindex]

theorem MixFunc.apply_base {f g : MixFunc} (mono : f.IsMono ↔ g.IsMono)
    (sound : f.sound data = g.sound data) (left : pl.leftVolScale = esdVolumeBase)
    (right : pl.rightVolScale = esdVolumeBase) :
    f.apply cfg pl data (4 * n) mixed = g.apply cfg pl data (4 * n) mixed := by
  rw [apply_eq, apply_eq, entries_whole, entries_whole, entry_base data mono sound left right]

theorem resampleStereo_eq (length : ℤ) {left right : ℤ → ℤ} :
    resampleStereo cfg pl length mixed left right =
      (raised (2 * pairRounds (length.toNat / 2)) (fun i =>
          (if i % 2 = 0 then left else right)
            (evenDown (rdDat (leftOf i) pl.rate cfg.esdAudioRate) + (i % 2 : ℕ))) mixed,
        4 * ((pairRounds (length.toNat / 2) : ℕ) : ℤ)) := by
  rw [resampleStereo, mixFrames_eq]
  congr 2
  apply entryOf_eq <;> intro k <;> simp

/-- At equal rates the loop for rates that differ does what the simpler one does. -/
theorem resampleStereo_self {f : MixFunc} {left right : ℤ → ℤ} (stereo : ¬ f.IsMono)
    (hadds : ∀ i j, (if i % 2 = 0 then left else right) j = f.gain pl i (f.sound data j))
    (rate : pl.rate = cfg.esdAudioRate) (hfit : 2 * n * cfg.esdAudioRate < 2 ^ 32)
    (hint : 4 * n < 2 ^ 31) :
    f.apply cfg pl data (4 * n) mixed = resampleStereo cfg pl (4 * n) mixed left right := by
  have hpos := cfg.audioRate_pos
  rw [MixFunc.apply_eq, MixFunc.entries_whole, resampleStereo_eq, length_entries, pairRounds_double]
  have hentry : ∀ i < 2 * n, f.entry cfg pl data i = (if i % 2 = 0 then left else right)
      (evenDown (rdDat (leftOf i) pl.rate cfg.esdAudioRate) + (i % 2 : ℕ)) := by
    intro i hi
    have hlarge : 1 * cfg.esdAudioRate ≤ 2 * n * cfg.esdAudioRate := Nat.mul_le_mul_right _ (by omega)
    have hleft : leftOf i ≤ 2 * n := (Nat.sub_le i (i % 2)).trans hi.le
    have hmod : (cfg.esdAudioRate : ℤ) % 2 ^ 32 = cfg.esdAudioRate := by omega
    have hprod : (leftOf i : ℤ) * (cfg.esdAudioRate % 2 ^ 32) < 2 ^ 32 := by
      rw [hmod]
      exact_mod_cast (Nat.mul_le_mul_right _ hleft).trans_lt hfit
    rw [rate, evenDown_self (by omega) hprod (by omega), hadds, MixFunc.entry, MixFunc.sampleIndex,
      if_neg stereo, if_pos rate]
  rw [raised_congr hentry]
  congr 1
  push_cast
  ring

end Mixing

section Copying

variable {entry : ℕ → ℤ} {n : ℕ} (dest src : Mem)

theorem copyOctets_at (n j : ℕ) : (copyOctets src n dest).1 j = if j < n then src j else dest j := by
  simp only [copyOctets]
  split_ifs with hj
  · have hat := store_at dest 0 (load src 0 n) (i := j) (by rwa [load_length])
    rw [Nat.cast_zero, zero_add] at hat
    rw [hat]
    simp [load]
  · exact store_after dest 0 _ (by rw [load_length]; omega)

theorem writeOctets_self (h : ∀ i < n, entry i = src.octetAt i) :
    writeOctets entry n dest = copyOctets src n dest := by
  refine Prod.ext (funext fun j => ?_) rfl
  rw [copyOctets_at, writeOctets]
  dsimp only
  rw [countUp_setOctet]
  by_cases hj : j < n
  · rw [if_pos hj, if_pos hj, h j hj, ofInt_octetAt, Int.toNat_natCast]
  · rw [if_neg hj, if_neg hj]

theorem writeShorts_self (h : ∀ i < n, entry i = src.short i) :
    writeShorts entry (2 * n) dest = copyOctets src (2 * n) dest := by
  have hrounds : 2 * n / 2 = n := by omega
  refine Prod.ext (funext fun j => ?_) ?_
  · rw [copyOctets_at, writeShorts]
    dsimp only
    rw [countUp_setShort, hrounds]
    have hlt : j / 2 < n ↔ j < 2 * n := by omega
    by_cases hj : j / 2 < n
    · rw [if_pos hj, if_pos (hlt.mp hj), h _ hj, ofInt_short, shortOctet_shortWord]
    · rw [if_neg hj, if_neg (mt hlt.mpr hj)]
  · simp only [writeShorts, copyOctets, hrounds]
    push_cast
    rfl

/-- At equal rates the pairs that are read for a stereo frame are the samples one by one. -/
theorem entryOf_self {sample : ℤ → ℤ} {r : ℤ} (hr : r % 2 ^ 32 ≠ 0)
    (hfit : n * (r % 2 ^ 32) < 2 ^ 32) (hint : n < 2 ^ 31) {i : ℕ} (hi : i < n) :
    entryOf (fun wr => (sample (evenDown (rdDat wr r r)), sample (evenDown (rdDat wr r r) + 1))) i =
      sample i := by
  have hleft : leftOf i ≤ i := Nat.sub_le i (i % 2)
  have hat := evenDown_self hr (samples_fit (hleft.trans hi.le) hfit) (by omega)
  rw [← hat]
  rcases Nat.mod_two_eq_zero_or_one i with heven | hodd
  · simp [entryOf, leftOf, heven]
  · simp [entryOf, leftOf, hodd]

theorem TranslateFunc.resample_self {format : Word} (bits : KnownBits format) {r : ℤ}
    (hr : r % 2 ^ 32 ≠ 0) (hfit : (4 * n / esdSampleSize format : ℕ) * (r % 2 ^ 32) < 2 ^ 32)
    (hint : 4 * n < 2 ^ 31) :
    (getTranslateFunc format).resample dest (4 * n) r src r = copyOctets src (4 * n) dest := by
  have hwidth : (esdBits16 : Word) ≠ esdBits8 := by decide
  have hshorts : 2 * (2 * n) = 4 * n := by ring
  rcases bits with h8 | h16 <;> by_cases hmono : format &&& esdMaskChan = esdMono
  · have hsamples : 4 * n / esdSampleSize format = 4 * n := by
      simp [esdSampleSize, h8, hwidth.symm]
    rw [hsamples] at hfit
    simp only [getTranslateFunc, h8, hmono, hwidth.symm, if_true, if_false, resample]
    apply writeOctets_self
    intro i hi
    rw [rdDat_self hr (samples_fit hi.le hfit) (by omega)]
  · have hsamples : 4 * n / esdSampleSize format = 4 * n := by
      simp [esdSampleSize, h8, hwidth.symm]
    rw [hsamples] at hfit
    simp only [getTranslateFunc, h8, hmono, hwidth.symm, if_false, resample]
    rw [← hshorts, writeOctetPairs_eq, hshorts]
    apply writeOctets_self
    intro i hi
    exact entryOf_self hr hfit hint hi
  · have hsamples : 4 * n / esdSampleSize format = 2 * n := by
      simp only [esdSampleSize, h16, if_true]
      omega
    rw [hsamples] at hfit
    simp only [getTranslateFunc, h16, hmono, if_true, resample]
    rw [← hshorts]
    apply writeShorts_self
    intro i hi
    rw [rdDat_self hr (samples_fit hi.le hfit) (by omega)]
  · have hsamples : 4 * n / esdSampleSize format = 2 * n := by
      simp only [esdSampleSize, h16, if_true]
      omega
    rw [hsamples] at hfit
    simp only [getTranslateFunc, h16, hmono, if_true, if_false, resample]
    rw [writeShortPairs_eq, ← hshorts]
    apply writeShorts_self
    intro i hi
    exact entryOf_self hr hfit (by omega) hi

end Copying

/-- The shorter ways and the longer ones come to the same: with the scales at their base, at equal
rates of a player and the device, and at equal rates of two blocks of one format. -/
theorem fast_paths_agree (cfg : Config) (pl : EsdPlayer) (data : Mem) (mixed : ℕ → ℤ) (dest src : Mem)
    {n : ℕ} (hint : 4 * n < 2 ^ 31) :
    (pl.leftVolScale = esdVolumeBase → pl.rightVolScale = esdVolumeBase →
        mixMono8uToStereo32sSv cfg pl data (4 * n) mixed =
            mixMono8uToStereo32s cfg pl data (4 * n) mixed ∧
          mixStereo8uToStereo32sSv cfg pl data (4 * n) mixed =
            mixStereo8uToStereo32s cfg pl data (4 * n) mixed ∧
          mixMono16sToStereo32sSv cfg pl data (4 * n) mixed =
            mixMono16sToStereo32s cfg pl data (4 * n) mixed ∧
          mixStereo16sToStereo32sSv cfg pl data (4 * n) mixed =
            mixStereo16sToStereo32s cfg pl data (4 * n) mixed) ∧
      (pl.rate = cfg.esdAudioRate → 2 * n * cfg.esdAudioRate < 2 ^ 32 →
        mixStereo8uToStereo32sSv cfg pl data (4 * n) mixed =
            resampleStereo8uSv cfg pl data (4 * n) mixed ∧
          mixStereo16sToStereo32sSv cfg pl data (4 * n) mixed =
            resampleStereo16sSv cfg pl data (4 * n) mixed ∧
          mixStereo8uToStereo32s cfg pl data (4 * n) mixed =
            resampleStereo8u cfg pl data (4 * n) mixed ∧
          mixStereo16sToStereo32s cfg pl data (4 * n) mixed =
            resampleStereo16s cfg pl data (4 * n) mixed) ∧
      ∀ (format : Word) (srcLen r : ℤ), KnownBits format → srcLen ≠ 0 → r % 2 ^ 32 ≠ 0 →
        (4 * n / esdSampleSize format : ℕ) * (r % 2 ^ 32) < 2 ^ 32 →
          (getTranslateFunc format).apply dest (4 * n) r format src srcLen r =
            (getTranslateFunc format).resample dest (4 * n) r src r := by
  refine ⟨fun left right => ⟨?_, ?_, ?_, ?_⟩, fun rate hfit => ⟨?_, ?_, ?_, ?_⟩, ?_⟩
  · apply MixFunc.apply_base (f := .mono8uSv) (g := .mono8u) data mixed _ rfl left right
    simp [MixFunc.IsMono]
  · apply MixFunc.apply_base (f := .stereo8uSv) (g := .stereo8u) data mixed _ rfl left right
    simp [MixFunc.IsMono]
  · apply MixFunc.apply_base (f := .mono16sSv) (g := .mono16s) data mixed _ rfl left right
    simp [MixFunc.IsMono]
  · apply MixFunc.apply_base (f := .stereo16sSv) (g := .stereo16s) data mixed _ rfl left right
    simp [MixFunc.IsMono]
  · apply resampleStereo_self data mixed (f := .stereo8uSv) id _ rate hfit hint
    intro i j
    simp [MixFunc.gain, MixFunc.sound]
  · apply resampleStereo_self data mixed (f := .stereo16sSv) id _ rate hfit hint
    intro i j
    simp [MixFunc.gain, MixFunc.sound]
  · apply resampleStereo_self data mixed (f := .stereo8u) id _ rate hfit hint
    intro i j
    simp only [MixFunc.gain, MixFunc.sound, EsdPlayer.scaleOf]
    split_ifs <;> rfl
  · apply resampleStereo_self data mixed (f := .stereo16s) id _ rate hfit hint
    intro i j
    simp only [MixFunc.gain, MixFunc.sound, EsdPlayer.scaleOf]
    split_ifs <;> rfl
  · intro format srcLen r bits hsrc hr hfit
    rw [TranslateFunc.apply_own dest (4 * n) r src r bits hsrc, if_pos rfl,
      TranslateFunc.resample_self dest src bits hr hfit hint]

theorem fast_paths_agree_frame :
    mixMono8uToStereo32sSv .smallBlocks (panned 0 44100 256 256) (fun _ => 255) (4 * 1) (fun _ => 0) =
        mixMono8uToStereo32s .smallBlocks (panned 0 44100 256 256) (fun _ => 255) (4 * 1) (fun _ => 0) ∧
      mixStereo16sToStereo32s .smallBlocks (panned 0 44100 512 256) (fun _ => 255) (4 * 1) (fun _ => 0) =
        resampleStereo16s .smallBlocks (panned 0 44100 512 256) (fun _ => 255) (4 * 1) (fun _ => 0) ∧
      (getTranslateFunc esdBits16).apply (fun _ => 0) (4 * 1) 8000 esdBits16 (fun _ => 7) 4 8000 =
        (getTranslateFunc esdBits16).resample (fun _ => 0) (4 * 1) 8000 (fun _ => 7) 8000 := by
  obtain ⟨hscales, -, hcopies⟩ := fast_paths_agree .smallBlocks (panned 0 44100 256 256) (fun _ => 255)
    (fun _ => 0) (fun _ => 0) (fun _ => 7) (n := 1) (by decide)
  obtain ⟨-, hrates, -⟩ := fast_paths_agree .smallBlocks (panned 0 44100 512 256) (fun _ => 255)
    (fun _ => 0) (fun _ => 0) (fun _ => 7) (n := 1) (by decide)
  exact ⟨(hscales rfl rfl).1, (hrates rfl (by decide)).2.2.2,
    hcopies esdBits16 4 8000 (by decide) (by decide) (by decide) (by decide)⟩

end Esound
