import Esound.Daemon
import Esound.Entries
import Esound.Translation

/-!
# From one width to the other

An octet becomes a short by taking 127 off and multiplying by 256, a short an octet the other way
round. Both keep the order of the samples but for one: the octet 255 becomes the least short there
is, and the least short the octet 255. What is mixed or translated keeps the order as far as these
two stay away.
-/

open Library.Buffer Library.Loop

namespace Esound

/-! ## Octets and shorts in order -/

namespace Mem

/-- No octet is above the one in the same place. -/
def OctetsLe (m m' : Mem) : Prop := ∀ i, m.octetAt i ≤ m'.octetAt i

/-- No short is above the one in the same place. -/
def ShortsLe (m m' : Mem) : Prop := ∀ i, m.short i ≤ m'.short i

end Mem

/-- A block is nowhere above another one. -/
def NowhereAbove (out out' : ℕ → ℤ) : Prop := ∀ i, out i ≤ out' i

/-- What is made of the least samples is not above the middle, and of the greatest not below it. -/
def KeepsSides (n : ℕ) (least greatest : ℕ → Prop) (middle out : ℕ → ℤ) : Prop :=
  ∀ i < n, (least i → out i ≤ middle i) ∧ (greatest i → middle i ≤ out i)

/-- What a 256th of a short is to an octet that was widened. -/
def amplitude (o : ℤ) : ℤ := if o = 255 then -128 else o - 127

theorem amplitude_range {o : ℤ} (hlow : 0 ≤ o) (hhigh : o < 256) :
    -128 ≤ amplitude o ∧ amplitude o ≤ 127 := by
  rw [amplitude]
  split_ifs <;> omega

theorem amplitude_mono {o o' : ℤ} (h : o ≤ o') (hlt : o' < 255) : amplitude o ≤ amplitude o' := by
  rw [amplitude, amplitude, if_neg (by omega), if_neg (by omega)]
  omega

theorem widen8_eq {o : ℤ} (hlow : 0 ≤ o) (hhigh : o < 256) : widen8 o = 256 * amplitude o := by
  have hexact : short16 (o - 127) = o - 127 := short16_eq_self (by omega) (by omega)
  rw [widen8, hexact, amplitude]
  split_ifs with htop
  · rw [htop]
    rfl
  · rw [short16_eq_self (by omega) (by omega)]
    ring

/-! ## Mixing octets -/

namespace MixFunc

def IsNarrow : MixFunc → Prop
  | mono8uSv | stereo8uSv | mono8u | stereo8u => True
  | mono16sSv | stereo16sSv | mono16s | stereo16s => False

instance : DecidablePred IsNarrow := fun f => by cases f <;> unfold IsNarrow <;> infer_instance

/-- How loud an entry of the function gets, in parts of 65536. -/
def volume (f : MixFunc) (pl : EsdPlayer) (i : ℕ) : ℤ :=
  match f with
  | mono8uSv | stereo8uSv | mono16sSv | stereo16sSv => 65536
  | mono8u => pl.leftVolScale * pl.rightVolScale
  | stereo8u | mono16s | stereo16s => 256 * pl.scaleOf i

end MixFunc

/-- The scales are at most at their base. -/
structure EsdPlayer.NotAmplified (pl : EsdPlayer) : Prop where
  left_nonneg : 0 ≤ pl.leftVolScale
  left_le : pl.leftVolScale ≤ esdVolumeBase
  right_nonneg : 0 ≤ pl.rightVolScale
  right_le : pl.rightVolScale ≤ esdVolumeBase

/-- The sums have room for another player. -/
def Roomy (mixed : ℕ → ℤ) : Prop := ∀ i, -2147352576 ≤ mixed i ∧ mixed i < 2147352576

theorem Roomy.raised_at {mixed entry : ℕ → ℤ} (roomy : Roomy mixed) {n i : ℕ} (hi : i < n)
    (hlow : -131072 ≤ entry i) (hhigh : entry i ≤ 131072) :
    raised n entry mixed i = mixed i + entry i := by
  have hroom := roomy i
  rw [raised, if_pos hi, int32_eq_self (by omega) (by omega)]

section Mixing

variable {cfg : Config} {pl : EsdPlayer} {f : MixFunc} {data data' : Mem} {length : ℤ}
  {mixed : ℕ → ℤ}

theorem EsdPlayer.NotAmplified.scaleOf (h : pl.NotAmplified) (i : ℕ) :
    0 ≤ pl.scaleOf i ∧ pl.scaleOf i ≤ 256 := by
  obtain ⟨hl0, hl, hr0, hr⟩ := h
  rw [esdVolumeBase] at hl hr
  rw [EsdPlayer.scaleOf]
  split_ifs <;> omega

theorem EsdPlayer.NotAmplified.volume_nonneg (h : pl.NotAmplified) (i : ℕ) : 0 ≤ f.volume pl i := by
  have hscale := h.scaleOf i
  cases f with
  | mono8u => exact mul_nonneg h.left_nonneg h.right_nonneg
  | mono8uSv | stereo8uSv | mono16sSv | stereo16sSv => norm_num [MixFunc.volume]
  | stereo8u | mono16s | stereo16s =>
    simp only [MixFunc.volume]
    omega

theorem scaled_widened {a scale : ℤ} (ha : -128 ≤ a) (ha' : a ≤ 127) (hscale : 0 ≤ scale)
    (hscale' : scale ≤ 256) : short16 (scaled (256 * a) scale) = a * scale := by
  have hlow : -128 * 256 ≤ a * scale := by nlinarith
  have hhigh : a * scale ≤ 127 * 256 := by nlinarith
  rw [scaled, mul_assoc, int32_eq_self (by omega) (by omega), esdVolumeBase,
    Int.mul_tdiv_cancel_left _ (by norm_num), short16_eq_self (by omega) (by omega)]

theorem MixFunc.gain_widened (narrow : f.IsNarrow) (h : pl.NotAmplified) (i : ℕ) {a : ℤ}
    (ha : -128 ≤ a) (ha' : a ≤ 127) : f.gain pl i (256 * a) = (a * f.volume pl i).tdiv 256 := by
  have hscale := h.scaleOf i
  obtain ⟨hl0, hl, hr0, hr⟩ := h
  rw [esdVolumeBase] at hl hr
  cases f with
  | mono16sSv | stereo16sSv | mono16s | stereo16s => exact narrow.elim
  | mono8uSv | stereo8uSv =>
    have hwhole : a * 65536 = 256 * a * 256 := by ring
    rw [gain, volume, hwhole, Int.mul_tdiv_cancel _ (by norm_num)]
  | stereo8u =>
    have hwhole : a * (256 * pl.scaleOf i) = a * pl.scaleOf i * 256 := by ring
    rw [gain, volume, scaled_widened ha ha' hscale.1 hscale.2, hwhole,
      Int.mul_tdiv_cancel _ (by norm_num)]
  | mono8u =>
    have hlow : -128 * 256 ≤ a * pl.leftVolScale := by nlinarith
    have hhigh : a * pl.leftVolScale ≤ 127 * 256 := by nlinarith
    have hlow' : -32768 * 256 ≤ a * pl.leftVolScale * pl.rightVolScale := by nlinarith
    have hhigh' : a * pl.leftVolScale * pl.rightVolScale ≤ 32767 * 256 := by nlinarith
    have hquot := Int.tdiv_le_tdiv (c := 256) (by norm_num) hlow'
    have hquot' := Int.tdiv_le_tdiv (c := 256) (by norm_num) hhigh'
    rw [Int.mul_tdiv_cancel _ (by norm_num)] at hquot hquot'
    rw [gain, volume, scaled_widened ha ha' hl0 hl, scaled, esdVolumeBase,
      int32_eq_self (by omega) (by omega), short16_eq_self hquot hquot', mul_assoc]

variable (cfg pl data) in
/-- The octet an entry is made of. -/
def MixFunc.octet (f : MixFunc) (i : ℕ) : ℤ := data.octetAt (f.sampleIndex cfg pl i)

variable (cfg data) in
theorem MixFunc.entry_narrow (narrow : f.IsNarrow) (h : pl.NotAmplified) (i : ℕ) :
    f.entry cfg pl data i = (amplitude (f.octet cfg pl data i) * f.volume pl i).tdiv 256 := by
  obtain ⟨hlow, hhigh⟩ := octetAt_range data (f.sampleIndex cfg pl i)
  obtain ⟨ha, ha'⟩ := amplitude_range hlow hhigh
  have hsound : f.sound data (f.sampleIndex cfg pl i) =
      256 * amplitude (data.octetAt (f.sampleIndex cfg pl i)) := by
    cases f with
    | mono8uSv | stereo8uSv | mono8u | stereo8u => exact widen8_eq hlow hhigh
    | mono16sSv | stereo16sSv | mono16s | stereo16s => exact narrow.elim
  rw [entry, hsound, gain_widened narrow h i ha ha']
  rfl

theorem volume_le (h : pl.NotAmplified) (i : ℕ) : f.volume pl i ≤ 65536 := by
  have hscale := h.scaleOf i
  obtain ⟨hl0, hl, hr0, hr⟩ := h
  rw [esdVolumeBase] at hl hr
  cases f with
  | mono8u =>
    have hmul : pl.leftVolScale * pl.rightVolScale ≤ 256 * 256 := mul_le_mul hl hr hr0 (by norm_num)
    exact hmul
  | mono8uSv | stereo8uSv | mono16sSv | stereo16sSv => exact le_rfl
  | stereo8u | mono16s | stereo16s =>
    simp only [MixFunc.volume]
    omega

theorem part_range {a v : ℤ} (ha : -128 ≤ a) (ha' : a ≤ 127) (hv : 0 ≤ v) (hv' : v ≤ 65536) :
    -32768 ≤ (a * v).tdiv 256 ∧ (a * v).tdiv 256 ≤ 32767 := by
  have hlow : -32768 * 256 ≤ a * v := by nlinarith
  have hhigh : a * v ≤ 127 * 256 * 256 := by nlinarith
  have hquot := Int.tdiv_le_tdiv (c := 256) (by norm_num) hlow
  have hquot' := Int.tdiv_le_tdiv (c := 256) (by norm_num) hhigh
  rw [Int.mul_tdiv_cancel _ (by norm_num)] at hquot hquot'
  omega

/-- The least amplitude vanishes exactly at a volume that leaves nothing of any other one. -/
theorem least_part_nonneg {v : ℤ} (hv : 0 ≤ v) : 0 ≤ (-128 * v).tdiv 256 ↔ v < 2 := by
  have hneg : (-128 * v).tdiv 256 = -(128 * v / 256) := by
    rw [neg_mul, Int.neg_tdiv, Int.tdiv_eq_ediv_of_nonneg (by omega)]
  rw [hneg]
  omega

theorem part_eq_zero {a v : ℤ} (ha : -128 ≤ a) (ha' : a ≤ 127) (hv : 0 ≤ v) (hv' : v < 2) :
    (a * v).tdiv 256 = 0 := by
  obtain rfl | rfl : v = 0 ∨ v = 1 := by omega
  · rw [mul_zero, Int.zero_tdiv]
  · rw [mul_one]
    rcases le_total 0 a with hnonneg | hneg
    · exact Int.tdiv_eq_zero_of_lt hnonneg (by omega)
    · rw [← neg_neg a, Int.neg_tdiv, Int.tdiv_eq_zero_of_lt (by omega) (by omega), neg_zero]

variable (f) in
/-- What the function leaves of the least and the greatest octets. -/
def MixFunc.KeepsOctetSides (cfg : Config) (pl : EsdPlayer) (data : Mem) (length : ℤ)
    (mixed : ℕ → ℤ) : Prop :=
  KeepsSides (f.entries cfg pl length) (fun i => f.octet cfg pl data i = 0)
    (fun i => f.octet cfg pl data i = 255) mixed (f.apply cfg pl data length mixed).1

/-- Octets of players keep their order in the sums unless one is 255, and is heard. -/
theorem MixFunc.order_iff (narrow : f.IsNarrow) (h : pl.NotAmplified) (roomy : Roomy mixed)
    (hle : data.OctetsLe data') :
    NowhereAbove (f.apply cfg pl data length mixed).1 (f.apply cfg pl data' length mixed).1 ∧
        f.KeepsOctetSides cfg pl data length mixed ∧ f.KeepsOctetSides cfg pl data' length mixed ↔
      ∀ i < f.entries cfg pl length, f.octet cfg pl data' i = 255 → f.volume pl i < 2 := by
  have hat : ∀ m : Mem, ∀ i < f.entries cfg pl length, (f.apply cfg pl m length mixed).1 i =
      mixed i + (amplitude (f.octet cfg pl m i) * f.volume pl i).tdiv 256 := by
    intro m i hi
    obtain ⟨hlow, hhigh⟩ := octetAt_range m (f.sampleIndex cfg pl i)
    obtain ⟨ha, ha'⟩ := amplitude_range hlow hhigh
    have hpart := part_range ha ha' (h.volume_nonneg (f := f) i) (volume_le h i)
    have hentry := f.entry_narrow cfg m narrow h i
    rw [octet] at hentry ⊢
    rw [apply_eq]
    dsimp only
    rw [roomy.raised_at hi (by omega) (by omega), hentry]
  have hrange : ∀ m : Mem, ∀ i, 0 ≤ f.octet cfg pl m i ∧ f.octet cfg pl m i < 256 :=
    fun m i => octetAt_range m _
  have hle' : ∀ i, f.octet cfg pl data i ≤ f.octet cfg pl data' i := fun i => hle _
  constructor
  · rintro ⟨-, -, hsides⟩ i hi htop
    have hup := (hsides i hi).2 htop
    rw [hat data' i hi, htop] at hup
    exact (least_part_nonneg (h.volume_nonneg i)).mp (by simpa [amplitude] using hup)
  · intro hquiet
    have hvanish : ∀ i < f.entries cfg pl length, f.octet cfg pl data' i = 255 → ∀ m : Mem,
        (f.apply cfg pl m length mixed).1 i = mixed i := by
      intro i hi htop m
      obtain ⟨ha, ha'⟩ := amplitude_range (hrange m i).1 (hrange m i).2
      rw [hat m i hi, part_eq_zero ha ha' (h.volume_nonneg i) (hquiet i hi htop), add_zero]
    have hsides : ∀ m : Mem, (∀ i, f.octet cfg pl m i = 255 → f.octet cfg pl data' i = 255) →
        f.KeepsOctetSides cfg pl m length mixed := by
      intro m htop i hi
      refine ⟨fun hbottom => ?_, fun hm => (hvanish i hi (htop i hm) m).ge⟩
      rw [hat m i hi, hbottom]
      have hneg : amplitude 0 * f.volume pl i ≤ 0 * 256 := by
        have hnonneg := h.volume_nonneg (f := f) i
        have hzero : amplitude 0 = -127 := rfl
        rw [hzero]
        omega
      have hquot := Int.tdiv_le_tdiv (c := 256) (by norm_num) hneg
      rw [Int.mul_tdiv_cancel _ (by norm_num)] at hquot
      omega
    refine ⟨fun i => ?_, hsides data fun i hm => ?_, hsides data' fun i hm => hm⟩
    · by_cases hi : i < f.entries cfg pl length
      · by_cases htop : f.octet cfg pl data' i = 255
        · rw [hvanish i hi htop, hvanish i hi htop]
        · rw [hat data i hi, hat data' i hi]
          have hlt : f.octet cfg pl data' i < 255 := by
            have hr := hrange data' i
            omega
          exact Int.add_le_add_left (Int.tdiv_le_tdiv (by norm_num)
            (mul_le_mul_of_nonneg_right (amplitude_mono (hle' i) hlt) (h.volume_nonneg i))) _
      · simp only [apply_eq, raised, hi, if_false, le_refl]
    · have hr := hrange data' i
      have hle := hle' i
      omega

end Mixing

/-! ## Translating -/

/-- The samples of a block that a translation function writes. -/
def samplesWritten (format : Word) (destLen : ℕ) (srcLen : ℤ) : ℕ :=
  let samples := if format &&& esdMaskBits = esdBits8 then destLen else destLen / 2
  if srcLen = 0 then 0
  else if format &&& esdMaskChan = esdMono then samples
  else 2 * pairRounds samples

namespace TranslateFunc

/-- The two samples that one of the block is made of; where it is made of one, they are the same. -/
def origins (f : TranslateFunc) (format : Word) (srcRate destRate : ℤ) (i : ℕ) : ℤ × ℤ :=
  if format &&& esdMaskChan = esdMono then
    let rd := rdDat i srcRate destRate
    match f with
    | fromMono16s | fromMono8u => (rd, rd)
    | fromStereo16s | fromStereo8u => (int32 (rd * 2), int32 (rd * 2) + 1)
  else
    let rd := rdDat (leftOf i) srcRate destRate
    match f with
    | fromMono16s | fromMono8u => (rd.tdiv 2, rd.tdiv 2)
    | fromStereo16s | fromStereo8u => (evenDown rd + (i % 2 : ℕ), evenDown rd + (i % 2 : ℕ))

def IsWide : TranslateFunc → Prop
  | fromStereo16s | fromMono16s => True
  | fromStereo8u | fromMono8u => False

instance : DecidablePred IsWide := fun f => by cases f <;> unfold IsWide <;> infer_instance

end TranslateFunc

section Translating

variable {format : Word} {f : TranslateFunc} {dest src src' : Mem} {destLen : ℕ}
  {destRate srcLen srcRate : ℤ}

theorem mean_self (x : ℤ) : (x + x).tdiv 2 = x := by
  rw [← two_mul, Int.mul_tdiv_cancel_left _ (by norm_num)]

/-- The octet made of two shorts. -/
def narrowed (src : Mem) (origins : ℤ × ℤ) : ℤ :=
  (narrow16 (src.short origins.1) + narrow16 (src.short origins.2)).tdiv 2

/-- The short made of two octets. -/
def widened (src : Mem) (origins : ℤ × ℤ) : ℤ :=
  ((src.octetAt origins.1 - 127 + (src.octetAt origins.2 - 127)) * 256).tdiv 2

theorem widened_self (src : Mem) (i : ℤ) : widened src (i, i) = (src.octetAt i - 127) * 256 := by
  rw [widened, add_mul, mean_self]

theorem TranslateFunc.narrows (wide : f.IsWide) (h8 : format &&& esdMaskBits = esdBits8) :
    (f.apply dest destLen destRate format src srcLen srcRate).1 =
      countUp (samplesWritten format destLen srcLen) (fun i m =>
        m.setOctet i (narrowed src (f.origins format srcRate destRate i))) dest := by
  by_cases hsrc : srcLen = 0
  · cases f <;> simp [apply, mixFromStereo16s, mixFromStereo8u, mixFromMono16s, mixFromMono8u, hsrc,
      samplesWritten, countUp]
  by_cases hmono : format &&& esdMaskChan = esdMono
  · cases f with
    | fromStereo8u | fromMono8u => exact wide.elim
    | fromStereo16s =>
      simp [apply, mixFromStereo16s, hsrc, h8, hmono, samplesWritten, writeOctets, narrowed, origins]
    | fromMono16s =>
      simp [apply, mixFromMono16s, hsrc, h8, hmono, samplesWritten, writeOctets, narrowed, origins,
        mean_self]
  · cases f with
    | fromStereo8u | fromMono8u => exact wide.elim
    | fromStereo16s =>
      simp only [apply, mixFromStereo16s, hsrc, h8, hmono, samplesWritten, if_true, if_false,
        writeOctetPairs_fst]
      congr 2
      funext i m
      congr 1
      apply congrFun (entryOf_eq _ _) i <;> intro k <;> simp [narrowed, origins, hmono, mean_self]
    | fromMono16s =>
      simp only [apply, mixFromMono16s, hsrc, h8, hmono, samplesWritten, if_true, if_false,
        writeOctetPairs_fst]
      congr 2
      funext i m
      congr 1
      apply congrFun (entryOf_eq _ _) i <;> intro k <;> simp [narrowed, origins, hmono, mean_self]

theorem TranslateFunc.widens (wide : ¬ f.IsWide) (h16 : format &&& esdMaskBits = esdBits16) (k : ℕ) :
    (f.apply dest destLen destRate format src srcLen srcRate).1.short k =
      if k < samplesWritten format destLen srcLen then
        short16 (widened src (f.origins format srcRate destRate k))
      else dest.short k := by
  have hwidth : (esdBits16 : Word) ≠ esdBits8 := by decide
  have hshort : ∀ x, short16 (short16 x) = short16 x := fun x => Int.bmod_bmod
  by_cases hsrc : srcLen = 0
  · cases f <;> simp [apply, mixFromStereo16s, mixFromStereo8u, mixFromMono16s, mixFromMono8u, hsrc,
      samplesWritten]
  by_cases hmono : format &&& esdMaskChan = esdMono
  · cases f with
    | fromStereo16s | fromMono16s => exact absurd trivial wide
    | fromStereo8u =>
      simp only [apply, mixFromStereo8u, hsrc, h16, hwidth, hmono, samplesWritten, writeShorts,
        countUp_setShort_short, widened, origins, if_true, if_false]
    | fromMono8u =>
      simp only [apply, mixFromMono8u, hsrc, h16, hwidth, hmono, samplesWritten, writeShorts,
        countUp_setShort_short, widened_self, origins, hshort, if_true, if_false]
  · cases f with
    | fromStereo16s | fromMono16s => exact absurd trivial wide
    | fromStereo8u =>
      simp only [apply, mixFromStereo8u, hsrc, h16, hwidth, hmono, samplesWritten, if_true,
        if_false, writeShortPairs_fst, countUp_setShort_short]
      congr 2
      apply congrFun (entryOf_eq _ _) k <;> intro j <;> simp [widened_self, origins, hmono]
    | fromMono8u =>
      simp only [apply, mixFromMono8u, hsrc, h16, hwidth, hmono, samplesWritten, if_true,
        if_false, writeShortPairs_fst, countUp_setShort_short]
      congr 1
      rw [← hshort (widened _ _)]
      congr 1
      apply congrFun (entryOf_eq _ _) k <;> intro j <;> simp [widened_self, origins, hmono]

/-! The one sample that comes out on the other side. -/

theorem narrow16_eq {x : ℤ} (hlow : -32768 ≤ x) (hhigh : x ≤ 32767) :
    narrow16 x = x.tdiv 256 + 127 ∧ -1 ≤ narrow16 x ∧ narrow16 x ≤ 254 := by
  have hquot := Int.tdiv_le_tdiv (c := 256) (by norm_num) hlow
  have hquot' := Int.tdiv_le_tdiv (c := 256) (by norm_num) hhigh
  have hbottom : (-32768 : ℤ).tdiv 256 = -128 := rfl
  have htop : (32767 : ℤ).tdiv 256 = 127 := rfl
  have hexact : narrow16 x = x.tdiv 256 + 127 := short16_eq_self (by omega) (by omega)
  omega

theorem narrow16_nonneg {x : ℤ} (hlow : -32768 < x) (hhigh : x ≤ 32767) : 0 ≤ narrow16 x := by
  have hle : (-32767 : ℤ) ≤ x := by omega
  have hquot := Int.tdiv_le_tdiv (c := 256) (by norm_num) hle
  have hbottom : (-32767 : ℤ).tdiv 256 = -127 := rfl
  rw [(narrow16_eq hlow.le hhigh).1]
  omega

theorem narrow16_mono {x y : ℤ} (hlow : -32768 ≤ x) (hle : x ≤ y) (hhigh : y ≤ 32767) :
    narrow16 x ≤ narrow16 y := by
  rw [(narrow16_eq hlow (hle.trans hhigh)).1, (narrow16_eq (hlow.trans hle) hhigh).1]
  exact Int.add_le_add_right (Int.tdiv_le_tdiv (by norm_num) hle) _

variable (src) in
/-- All that the sample is made of are the least shorts. -/
def Mem.Lowest (origins : ℤ × ℤ) : Prop := src.short origins.1 = -32768 ∧ src.short origins.2 = -32768

instance (src : Mem) (origins : ℤ × ℤ) : Decidable (src.Lowest origins) :=
  inferInstanceAs (Decidable (_ ∧ _))

variable (src) in
/-- All that the sample is made of are the greatest octets. -/
def Mem.Highest (origins : ℤ × ℤ) : Prop := src.octetAt origins.1 = 255 ∧ src.octetAt origins.2 = 255

instance (src : Mem) (origins : ℤ × ℤ) : Decidable (src.Highest origins) :=
  inferInstanceAs (Decidable (_ ∧ _))

variable (src) in
theorem narrowed_range (o : ℤ × ℤ) :
    if src.Lowest o then narrowed src o = -1 else 0 ≤ narrowed src o ∧ narrowed src o ≤ 254 := by
  obtain ⟨hl, hl'⟩ := short_range src o.1
  obtain ⟨hr, hr'⟩ := short_range src o.2
  obtain ⟨-, hl1, hl2⟩ := narrow16_eq hl hl'
  obtain ⟨-, hr1, hr2⟩ := narrow16_eq hr hr'
  split_ifs with hlow
  · rw [narrowed, hlow.1, hlow.2]
    rfl
  · have hsum : -1 ≤ narrow16 (src.short o.1) + narrow16 (src.short o.2) := by
      rcases not_and_or.mp hlow with hne | hne
      · have hnonneg := narrow16_nonneg (lt_of_le_of_ne hl (Ne.symm hne)) hl'
        omega
      · have hnonneg := narrow16_nonneg (lt_of_le_of_ne hr (Ne.symm hne)) hr'
        omega
    have hsum' : narrow16 (src.short o.1) + narrow16 (src.short o.2) ≤ 508 := by omega
    have hquot := Int.tdiv_le_tdiv (c := 2) (by norm_num) hsum
    have hquot' := Int.tdiv_le_tdiv (c := 2) (by norm_num) hsum'
    exact ⟨hquot, hquot'⟩

theorem narrowed_mono (hle : src.ShortsLe src') (o : ℤ × ℤ) : narrowed src o ≤ narrowed src' o := by
  have hl := narrow16_mono (short_range src o.1).1 (hle o.1) (short_range src' o.1).2
  have hr := narrow16_mono (short_range src o.2).1 (hle o.2) (short_range src' o.2).2
  exact Int.tdiv_le_tdiv (by norm_num) (by omega)

theorem widened_eq (o : ℤ × ℤ) : widened src o = (src.octetAt o.1 + src.octetAt o.2 - 254) * 128 := by
  have hdouble : (src.octetAt o.1 - 127 + (src.octetAt o.2 - 127)) * 256 =
      (src.octetAt o.1 + src.octetAt o.2 - 254) * 128 * 2 := by
    ring
  rw [widened, hdouble, Int.mul_tdiv_cancel _ (by norm_num)]

variable (src) in
theorem short16_widened (o : ℤ × ℤ) : short16 (widened src o) =
    if src.Highest o then -32768 else (src.octetAt o.1 + src.octetAt o.2 - 254) * 128 := by
  obtain ⟨hl, hl'⟩ := octetAt_range src o.1
  obtain ⟨hr, hr'⟩ := octetAt_range src o.2
  rw [widened_eq]
  split_ifs with htop
  · rw [htop.1, htop.2]
    rfl
  · have hne := not_and_or.mp htop
    exact short16_eq_self (by omega) (by omega)

variable (f dest src destLen destRate format srcLen srcRate) in
/-- What the function leaves of the least and the greatest shorts. -/
def TranslateFunc.KeepsShortSides : Prop :=
  KeepsSides (samplesWritten format destLen srcLen)
    (fun i => src.Lowest (f.origins format srcRate destRate i))
    (fun i => src.short (f.origins format srcRate destRate i).1 = 32767 ∧
      src.short (f.origins format srcRate destRate i).2 = 32767)
    (fun _ => 127)
    fun i => (f.apply dest destLen destRate format src srcLen srcRate).1.octetAt i

variable (f dest src destLen destRate format srcLen srcRate) in
/-- What the function leaves of the least and the greatest octets. -/
def TranslateFunc.KeepsOctetSides : Prop :=
  KeepsSides (samplesWritten format destLen srcLen)
    (fun i => src.octetAt (f.origins format srcRate destRate i).1 = 0 ∧
      src.octetAt (f.origins format srcRate destRate i).2 = 0)
    (fun i => src.Highest (f.origins format srcRate destRate i))
    (fun _ => 0)
    fun i => (f.apply dest destLen destRate format src srcLen srcRate).1.short i

/-- Shorts keep their order as octets unless one is made of the least shorts only. -/
theorem TranslateFunc.narrow_order_iff (wide : f.IsWide) (h8 : format &&& esdMaskBits = esdBits8)
    (hle : src.ShortsLe src') :
    NowhereAbove
          (fun i => (f.apply dest destLen destRate format src srcLen srcRate).1.octetAt i)
          (fun i => (f.apply dest destLen destRate format src' srcLen srcRate).1.octetAt i) ∧
        f.KeepsShortSides format dest src destLen destRate srcLen srcRate ∧
        f.KeepsShortSides format dest src' destLen destRate srcLen srcRate ↔
      ∀ i < samplesWritten format destLen srcLen,
        ¬ src.Lowest (f.origins format srcRate destRate i) := by
  have hat : ∀ (m : Mem) (i : ℕ), i < samplesWritten format destLen srcLen →
      (f.apply dest destLen destRate format m srcLen srcRate).1.octetAt i =
        if m.Lowest (f.origins format srcRate destRate i) then 255
        else narrowed m (f.origins format srcRate destRate i) := by
    intro m i hi
    have hrange := narrowed_range m (f.origins format srcRate destRate i)
    rw [narrows wide h8, Mem.octetAt, Int.toNat_natCast, countUp_setOctet, if_pos hi]
    split_ifs at hrange ⊢
    · rw [hrange]
      rfl
    · rw [BitVec.toNat_ofInt]
      omega
  have hlower : ∀ o, src'.Lowest o → src.Lowest o := by
    intro o hlow
    have hl := (short_range src o.1).1
    have hr := (short_range src o.2).1
    exact ⟨le_antisymm ((hle o.1).trans hlow.1.le) hl, le_antisymm ((hle o.2).trans hlow.2.le) hr⟩
  constructor
  · rintro ⟨-, hsides, -⟩ i hi hlow
    have hdown := (hsides i hi).1 hlow
    dsimp only at hdown
    rw [hat src i hi, if_pos hlow] at hdown
    omega
  · intro hnone
    have hsides : ∀ m : Mem, (∀ o, m.Lowest o → src.Lowest o) →
        f.KeepsShortSides format dest m destLen destRate srcLen srcRate := by
      intro m hm i hi
      refine ⟨fun hlow => absurd (hm _ hlow) (hnone i hi), fun htop => ?_⟩
      dsimp only
      rw [hat m i hi, if_neg fun hlow => hnone i hi (hm _ hlow), narrowed, htop.1, htop.2]
      decide
    refine ⟨fun i => ?_, hsides src fun o h => h, hsides src' hlower⟩
    dsimp only
    by_cases hi : i < samplesWritten format destLen srcLen
    · rw [hat src i hi, hat src' i hi, if_neg (hnone i hi), if_neg fun h => hnone i hi (hlower _ h)]
      exact narrowed_mono hle _
    · simp only [narrows wide h8, Mem.octetAt, Int.toNat_natCast, countUp_setOctet, hi, if_false,
        le_refl]

/-- Octets keep their order as shorts unless one is made of octets of 255 only. -/
theorem TranslateFunc.widen_order_iff (wide : ¬ f.IsWide) (h16 : format &&& esdMaskBits = esdBits16)
    (hle : src.OctetsLe src') :
    NowhereAbove
          (fun i => (f.apply dest destLen destRate format src srcLen srcRate).1.short i)
          (fun i => (f.apply dest destLen destRate format src' srcLen srcRate).1.short i) ∧
        f.KeepsOctetSides format dest src destLen destRate srcLen srcRate ∧
        f.KeepsOctetSides format dest src' destLen destRate srcLen srcRate ↔
      ∀ i < samplesWritten format destLen srcLen,
        ¬ src'.Highest (f.origins format srcRate destRate i) := by
  have hat : ∀ (m : Mem) (i : ℕ), i < samplesWritten format destLen srcLen →
      (f.apply dest destLen destRate format m srcLen srcRate).1.short i =
        if m.Highest (f.origins format srcRate destRate i) then -32768
        else (m.octetAt (f.origins format srcRate destRate i).1 +
          m.octetAt (f.origins format srcRate destRate i).2 - 254) * 128 := by
    intro m i hi
    rw [widens wide h16, if_pos hi, short16_widened]
  have hhigher : ∀ o, src.Highest o → src'.Highest o := by
    intro o htop
    have hl := (octetAt_range src' o.1).2
    have hr := (octetAt_range src' o.2).2
    have hl' := hle o.1
    have hr' := hle o.2
    rw [htop.1] at hl'
    rw [htop.2] at hr'
    exact ⟨by omega, by omega⟩
  constructor
  · rintro ⟨-, -, hsides⟩ i hi htop
    have hup := (hsides i hi).2 htop
    dsimp only at hup
    rw [hat src' i hi, if_pos htop] at hup
    omega
  · intro hnone
    have hsides : ∀ m : Mem, (∀ o, m.Highest o → src'.Highest o) →
        f.KeepsOctetSides format dest m destLen destRate srcLen srcRate := by
      intro m hm i hi
      refine ⟨fun hlow => ?_, fun htop => absurd (hm _ htop) (hnone i hi)⟩
      dsimp only
      rw [hat m i hi, if_neg fun htop => hnone i hi (hm _ htop), hlow.1, hlow.2]
      norm_num
    refine ⟨fun i => ?_, hsides src hhigher, hsides src' fun o h => h⟩
    dsimp only
    by_cases hi : i < samplesWritten format destLen srcLen
    · have hl := hle (f.origins format srcRate destRate i).1
      have hr := hle (f.origins format srcRate destRate i).2
      rw [hat src i hi, hat src' i hi, if_neg (hnone i hi), if_neg fun h => hnone i hi (hhigher _ h)]
      omega
    · rw [widens wide h16, widens wide h16, if_neg hi, if_neg hi]

end Translating

/-- The order of the samples is kept, and none comes out on the other side, exactly if no entry is
made of an octet of 255 that is heard, no octet of the least shorts only, and no short of octets
of 255 only. -/
theorem width_order_iff (data data' : Mem) :
    (∀ (cfg : Config) (pl : EsdPlayer) (f : MixFunc) (length : ℤ) (mixed : ℕ → ℤ),
      f.IsNarrow → pl.NotAmplified → Roomy mixed → data.OctetsLe data' →
      (NowhereAbove (f.apply cfg pl data length mixed).1 (f.apply cfg pl data' length mixed).1 ∧
          f.KeepsOctetSides cfg pl data length mixed ∧ f.KeepsOctetSides cfg pl data' length mixed ↔
        ∀ i < f.entries cfg pl length, f.octet cfg pl data' i = 255 → f.volume pl i < 2)) ∧
    ∀ (f : TranslateFunc) (format : Word) (dest : Mem) (destLen : ℕ) (destRate srcLen srcRate : ℤ),
      (f.IsWide → format &&& esdMaskBits = esdBits8 → data.ShortsLe data' →
        (NowhereAbove
              (fun i => (f.apply dest destLen destRate format data srcLen srcRate).1.octetAt i)
              (fun i => (f.apply dest destLen destRate format data' srcLen srcRate).1.octetAt i) ∧
            f.KeepsShortSides format dest data destLen destRate srcLen srcRate ∧
            f.KeepsShortSides format dest data' destLen destRate srcLen srcRate ↔
          ∀ i < samplesWritten format destLen srcLen,
            ¬ data.Lowest (f.origins format srcRate destRate i))) ∧
      (¬ f.IsWide → format &&& esdMaskBits = esdBits16 → data.OctetsLe data' →
        (NowhereAbove
              (fun i => (f.apply dest destLen destRate format data srcLen srcRate).1.short i)
              (fun i => (f.apply dest destLen destRate format data' srcLen srcRate).1.short i) ∧
            f.KeepsOctetSides format dest data destLen destRate srcLen srcRate ∧
            f.KeepsOctetSides format dest data' destLen destRate srcLen srcRate ↔
          ∀ i < samplesWritten format destLen srcLen,
            ¬ data'.Highest (f.origins format srcRate destRate i))) := by
  refine ⟨fun cfg pl f length mixed narrow h roomy hle => ?_,
    fun f format dest destLen destRate srcLen srcRate => ⟨fun wide h8 hle => ?_,
      fun wide h16 hle => ?_⟩⟩
  · exact f.order_iff narrow h roomy hle
  · exact f.narrow_order_iff wide h8 hle
  · exact f.widen_order_iff wide h16 hle

theorem width_order_iff_middle :
    NowhereAbove
        (mixStereo8uToStereo32s .smallBlocks (panned 0 44100 256 128) (fun _ => 100) 4 fun _ => 0).1
        (mixStereo8uToStereo32s .smallBlocks (panned 0 44100 256 128) (fun _ => 254) 4 fun _ => 0).1 ∧
      NowhereAbove
        (fun i => (mixFromMono16s (fun _ => 0) 4 44100 esdMono (fun _ => 1) 4 44100).1.octetAt i)
        (fun i => (mixFromMono16s (fun _ => 0) 4 44100 esdMono (fun _ => 2) 4 44100).1.octetAt i) ∧
      NowhereAbove
        (fun i => (mixFromMono8u (fun _ => 0) 4 44100 (esdBits16 ||| esdMono) (fun _ => 1) 4
          44100).1.short i)
        (fun i => (mixFromMono8u (fun _ => 0) 4 44100 (esdBits16 ||| esdMono) (fun _ => 2) 4
          44100).1.short i) := by
  have hoctets : ∀ b b' : Octet, b.toNat ≤ b'.toNat → Mem.OctetsLe (fun _ => b) fun _ => b' :=
    fun b b' h i => Int.ofNat_le.mpr h
  have hshorts : Mem.ShortsLe (fun _ => 1) fun _ => 2 := by
    intro i
    simp only [Mem.short, Mem.shortWord]
    decide
  have hroomy : Roomy fun _ => 0 :=
    fun _ => (by decide : (-2147352576 : ℤ) ≤ 0 ∧ (0 : ℤ) < 2147352576)
  obtain ⟨hmix, -⟩ := width_order_iff (fun _ => 100) (fun _ => 254)
  obtain ⟨-, htranslate⟩ := width_order_iff (fun _ => 1) (fun _ => 2)
  have hmixed := (hmix .smallBlocks (panned 0 44100 256 128) .stereo8u 4 (fun _ => 0) trivial
    ⟨by decide, by decide, by decide, by decide⟩ hroomy (hoctets _ _ (by decide))).mpr
    (by decide +kernel)
  have hnarrow := ((htranslate .fromMono16s esdMono (fun _ => 0) 4 44100 4 44100).1 trivial
    (by decide) hshorts).mpr (by decide +kernel)
  have hwiden := ((htranslate .fromMono8u (esdBits16 ||| esdMono) (fun _ => 0) 4 44100 4 44100).2
    (fun h => h) (by decide) (hoctets _ _ (by decide))).mpr (by decide +kernel)
  exact ⟨hmixed.1, hnarrow.1, hwiden.1⟩

/-- An octet of 255 is mixed as the least short, and so is what it becomes in a wider block; the
least short becomes the greatest octet. -/
theorem extremes_wrap :
    Mem.OctetsLe (fun _ => 254) (fun _ => 255) ∧
      ¬ NowhereAbove
        (mixMono8uToStereo32sSv .smallBlocks (panned 0 44100 256 256) (fun _ => 254) 4 fun _ => 0).1
        (mixMono8uToStereo32sSv .smallBlocks (panned 0 44100 256 256) (fun _ => 255) 4 fun _ => 0).1 ∧
      (mixFromMono8u (fun _ => 0) 4 44100 (esdBits16 ||| esdMono) (fun _ => 255) 4 44100).1.short 0 =
        -32768 ∧
      (mixFromMono16s (fun _ => 0) 1 44100 esdMono (store (fun _ => 0) 0 [0, 128]) 1 44100).1.octetAt 0 =
        255 := by
  have htop : (254 : Octet).toNat ≤ (255 : Octet).toNat := by decide
  refine ⟨fun i => Int.ofNat_le.mpr htop, fun h => ?_, by decide +kernel, by decide +kernel⟩
  have hle := h 0
  revert hle
  decide +kernel

end Esound
