import Esound.Translation

/-!
# The frames that are picked

`mix_and_copy` counts through its blocks by the sample and corrects the index for the channels of
the two formats. The frames it picks are those that the rates ask for, whatever the formats, as
long as the index of a sample is an int.
-/

open Library.Buffer Library.Loop Library.Resampling

namespace Esound

def mixAndCopy (dest : Mem) (destLen : ℕ) (destRate : ℤ) (destFormat : Word) (src : Mem)
    (srcLen srcRate : ℤ) (srcFormat : Word) : Mem × ℤ :=
  if srcFormat &&& esdMaskChan = esdMono then
    if srcFormat &&& esdMaskBits = esdBits16 then
      mixFromMono16s dest destLen destRate destFormat src srcLen srcRate
    else mixFromMono8u dest destLen destRate destFormat src srcLen srcRate
  else if srcFormat &&& esdMaskBits = esdBits16 then
    mixFromStereo16s dest destLen destRate destFormat src srcLen srcRate
  else mixFromStereo8u dest destLen destRate destFormat src srcLen srcRate

theorem mixAndCopy_eq (dest : Mem) (destLen : ℕ) (destRate : ℤ) (destFormat : Word) (src : Mem)
    (srcLen srcRate : ℤ) (srcFormat : Word) :
    mixAndCopy dest destLen destRate destFormat src srcLen srcRate srcFormat =
      (getTranslateFunc srcFormat).apply dest destLen destRate destFormat src srcLen srcRate := by
  simp only [mixAndCopy, getTranslateFunc]
  split_ifs <;> rfl

/-- The samples of a frame of the format. -/
def channels (format : Word) : ℕ := if format &&& esdMaskChan = esdMono then 1 else 2

theorem getTranslateFunc_octets {format : Word} (bits : KnownBits format) :
    (getTranslateFunc format).octets = formatOctets format := by
  have hwidth : (esdBits16 : Word) ≠ esdBits8 := by decide
  rcases bits with h8 | h16 <;> by_cases hmono : format &&& esdMaskChan = esdMono
  · simp [getTranslateFunc, formatOctets, h8, hmono, hwidth.symm, TranslateFunc.octets]
  · simp [getTranslateFunc, formatOctets, h8, hmono, hwidth.symm, TranslateFunc.octets]
  · simp [getTranslateFunc, formatOctets, h16, hmono, hwidth, TranslateFunc.octets]
  · simp [getTranslateFunc, formatOctets, h16, hmono, hwidth, TranslateFunc.octets]

/-- Octets of a mono source that go to both channels. -/
def Doubles (srcFormat destFormat : Word) : Prop :=
  srcFormat &&& esdMaskBits = esdBits8 ∧ srcFormat &&& esdMaskChan = esdMono ∧
    destFormat &&& esdMaskChan ≠ esdMono

section Index

variable {srcFormat destFormat : Word} {r d k i : ℕ}

/-- The index of a sample is that of the frame, if the frame is part of a block with an int for
its length. -/
theorem reads_sourceAt (hi : sourceAt r d k = i) (bits : KnownBits srcFormat) (hd : d < 2 ^ 31)
    (hfit : k * channels destFormat * r < 2 ^ 32) (hblock : (i + 1) * formatOctets srcFormat < 2 ^ 31)
    (hdouble : Doubles srcFormat destFormat → i < 2 ^ 30) :
    (getTranslateFunc srcFormat).Reads destFormat r d k i := by
  have hmod : ((d : ℤ) % 2 ^ 32).toNat = d := by omega
  have hi' : sourceAt r ((d : ℤ) % 2 ^ 32).toNat k = i := by rw [hmod, hi]
  have hhalf : 2 * k * r / ((d : ℤ) % 2 ^ 32).toNat / 2 = i := by rw [double_div_two, hi']
  have hoctet : 1 ≤ formatOctets srcFormat := by
    simp only [formatOctets]
    split_ifs <;> norm_num
  have hint : i < 2 ^ 31 := by
    have hle := Nat.le_mul_of_pos_right (i + 1) hoctet
    omega
  have hone : srcFormat &&& esdMaskBits = esdBits8 → srcFormat &&& esdMaskChan ≠ esdMono → i < 2 ^ 30 := by
    intro h8 hstereo
    have hsize : formatOctets srcFormat = 2 := by simp [formatOctets, h8, hstereo]
    rw [hsize] at hblock
    omega
  have htwo : srcFormat &&& esdMaskBits = esdBits16 → i < 2 ^ 30 := by
    intro h16
    have hwidth : (esdBits16 : Word) ≠ esdBits8 := by decide
    have hsize : 2 ≤ formatOctets srcFormat := by
      simp only [formatOctets, h16, hwidth, if_false]
      split_ifs <;> norm_num
    have hle := Nat.mul_le_mul_left (i + 1) hsize
    omega
  by_cases hdest : destFormat &&& esdMaskChan = esdMono
  · simp only [channels, hdest, if_true, mul_one] at hfit
    by_cases hmono : srcFormat &&& esdMaskChan = esdMono
    · have honce : rdDat k r d = i := by
        rw [rdDat_once hfit (by omega), hi']
      simp only [TranslateFunc.Reads, hdest, if_true, getTranslateFunc, hmono]
      split_ifs <;> exact honce
    · have hsmall : i < 2 ^ 30 := bits.elim (fun h8 => hone h8 hmono) htwo
      have htwice : int32 (rdDat k r d * 2) = 2 * i := by
        rw [rdDat_twice hfit (by omega) (by omega), hi']
      simp only [TranslateFunc.Reads, hdest, if_true, getTranslateFunc, hmono, if_false]
      split_ifs <;> exact htwice
  · simp only [channels, hdest, if_false, mul_comm k 2] at hfit
    have hsmall : i < 2 ^ 30 := by
      rcases bits with h8 | h16
      · by_cases hmono : srcFormat &&& esdMaskChan = esdMono
        · exact hdouble ⟨h8, hmono, hdest⟩
        · exact hone h8 hmono
      · exact htwo h16
    have hquot : 2 * k * r / ((d : ℤ) % 2 ^ 32).toNat < 2 ^ 31 := by omega
    by_cases hmono : srcFormat &&& esdMaskChan = esdMono
    · have hread : (rdDat (2 * k) r d).tdiv 2 = i := by rw [rdDat_half hfit hquot, hi']
      simp only [TranslateFunc.Reads, hdest, if_false, getTranslateFunc, hmono, if_true]
      split_ifs <;> exact hread
    · have hread : evenDown (rdDat (2 * k) r d) = 2 * i := by rw [rdDat_even hfit hquot, hi']
      simp only [TranslateFunc.Reads, hdest, if_false, getTranslateFunc, hmono]
      split_ifs <;> exact hread

end Index

/-- Every frame that is written is the frame of the source that the rates put there, in the other
format; it depends on no other one. -/
theorem mixAndCopy_frames (dest src : Mem) {srcFormat destFormat : Word} {n r d : ℕ} {srcLen : ℤ}
    (srcBits : KnownBits srcFormat) (destBits : KnownBits destFormat) (hr : 0 < r) (hd : d < 2 ^ 31)
    (hfit : n * channels destFormat * r < 2 ^ 32) (hsrc : srcLen ≠ 0)
    (hblock : ∀ k < n, (sourceAt r d k + 1) * formatOctets srcFormat < 2 ^ 31)
    (hdouble : Doubles srcFormat destFormat → ∀ k < n, sourceAt r d k < 2 ^ 30) :
    (mixAndCopy dest (formatOctets destFormat * n) d destFormat src srcLen r srcFormat).2 =
        (formatOctets destFormat * n : ℕ) ∧
      ∀ k < n, (mixAndCopy dest (formatOctets destFormat * n) d destFormat src srcLen r
          srcFormat).1.frame (formatOctets destFormat) k =
        (getTranslateFunc srcFormat).convert destFormat
          (src.frame (formatOctets srcFormat) (sourceAt r d k)) := by
  simp only [mixAndCopy_eq]
  refine ⟨TranslateFunc.apply_length dest src _ destBits hsrc, fun k hk => ?_⟩
  rw [← getTranslateFunc_octets srcBits]
  apply TranslateFunc.apply_reads dest src _ destBits hsrc hk
  · apply reads_sourceAt rfl srcBits hd
    · exact (Nat.mul_le_mul_right r (Nat.mul_le_mul_right _ hk.le)).trans_lt hfit
    · exact hblock k hk
    · exact fun h => hdouble h k hk
  · intro heq
    rw [Nat.cast_inj.mp heq]
    exact Nat.mul_div_cancel k hr

theorem mixAndCopy_frames_faster :
    (mixAndCopy (fun _ => 0) 4 8000 (esdBits8 ||| esdStereo) (fun i => BitVec.ofNat 8 i) 3 11025
        (esdBits8 ||| esdMono)).1.frame 2 1 =
      (getTranslateFunc (esdBits8 ||| esdMono)).convert (esdBits8 ||| esdStereo)
        (Mem.frame (fun i => BitVec.ofNat 8 i) 1 (sourceAt 11025 8000 1)) :=
  (mixAndCopy_frames (fun _ => 0) (fun i => BitVec.ofNat 8 i) (n := 2) (.inl (by decide))
    (.inl (by decide)) (by decide) (by decide) (by decide) (by decide)
    (by decide +kernel) (fun _ => by decide +kernel)).2 1 (by decide)

/-- The index of an octet does not fit an int, although those of the frames do: the third frame is
not the one the rates ask for. -/
theorem mixAndCopy_index_wraps :
    3 * channels (esdBits8 ||| esdStereo) * 715827882 < 2 ^ 32 ∧
      (∀ k < 3, (sourceAt 715827882 1 k + 1) * formatOctets (esdBits8 ||| esdMono) < 2 ^ 31) ∧
      ∃ src : Mem, (mixAndCopy (fun _ => 0) 6 1 (esdBits8 ||| esdStereo) src 1431655765 715827882
          (esdBits8 ||| esdMono)).1.frame 2 2 ≠
        (getTranslateFunc (esdBits8 ||| esdMono)).convert (esdBits8 ||| esdStereo)
          (src.frame 1 (sourceAt 715827882 1 2)) :=
  ⟨by decide +kernel, by decide +kernel, fun i => if i = 1431655764 then 7 else 0, by decide +kernel⟩

end Esound
