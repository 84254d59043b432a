import Esound.FastPaths
import Esound.Tuned
import Esound.Widths

/-!
# The scales of the two channels

The left scale is for the left channel and the right one for the right, and a scale above the
base makes a player louder than it is. How far the mix functions keep to that: one of them applies
both scales to both channels, and two of them keep what they scaled in a short.
-/

open Library.Buffer Library.Loop

namespace Esound

/-! ## The function of a format -/

namespace MixFunc

/-- The function with scales that stands beside one without. -/
def full : MixFunc → MixFunc
  | mono8uSv | mono8u => mono8u
  | stereo8uSv | stereo8u => stereo8u
  | mono16sSv | mono16s => mono16s
  | stereo16sSv | stereo16s => stereo16s

end MixFunc

/-- The function for players of the format that are not at full volume. -/
def fullFunc (format : Word) : Option MixFunc :=
  if format &&& esdMaskBits = esdBits8 then
    if format &&& esdMaskChan = esdMono then some .mono8u
    else if format &&& esdMaskChan = esdStereo then some .stereo8u
    else none
  else if format &&& esdMaskBits = esdBits16 then
    if format &&& esdMaskChan = esdMono then some .mono16s
    else if format &&& esdMaskChan = esdStereo then some .stereo16s
    else none
  else none

/-- Both channels are at their base. -/
def EsdPlayer.Unity (pl : EsdPlayer) : Prop :=
  pl.leftVolScale = esdVolumeBase ∧ pl.rightVolScale = esdVolumeBase

instance (pl : EsdPlayer) : Decidable pl.Unity := inferInstanceAs (Decidable (_ ∧ _))

section Selecting

variable {cfg : Config} {pl : EsdPlayer} {f : MixFunc}

theorem getMixFunc_full (pl : EsdPlayer) : (getMixFunc pl).map MixFunc.full = fullFunc pl.format := by
  simp only [getMixFunc, fullFunc]
  split_ifs <;> rfl

theorem MixFunc.eq_full_iff (f : MixFunc) : f = f.full ↔ ¬ f.Unity := by
  cases f <;> simp [full, Unity]

theorem eq_full_of_scaled (h : getMixFunc pl = some f) : f = f.full ↔ ¬ pl.Unity := by
  rw [f.eq_full_iff, getMixFunc_unity h, EsdPlayer.Unity]

variable (cfg) in
theorem entry_full (h : getMixFunc pl = some f) (data : Mem) :
    f.entry cfg pl data = f.full.entry cfg pl data := by
  by_cases hunity : pl.Unity
  · have hmono : f.IsMono ↔ f.full.IsMono := by cases f <;> rfl
    have hsound : f.sound data = f.full.sound data := by cases f <;> rfl
    exact MixFunc.entry_base data hmono hsound hunity.1 hunity.2
  · rw [← (eq_full_of_scaled h).mpr hunity]

end Selecting

/-! ## Louder than it is -/

section Louder

variable {cfg : Config} {pl : EsdPlayer} {f : MixFunc} {data : Mem} {length : ℤ} {mixed : ℕ → ℤ}

/-- What the mixer of `esddsp` can ask for. -/
def EsdPlayer.Amplified (pl : EsdPlayer) : Prop :=
  (0 ≤ pl.leftVolScale ∧ pl.leftVolScale ≤ 512) ∧ 0 ≤ pl.rightVolScale ∧ pl.rightVolScale ≤ 512

theorem EsdPlayer.Amplified.scaleOf (h : pl.Amplified) (i : ℕ) :
    0 ≤ pl.scaleOf i ∧ pl.scaleOf i ≤ 512 := by
  obtain ⟨hl, hr⟩ := h
  rw [EsdPlayer.scaleOf]
  split_ifs
  · exact hl
  · exact hr

variable (cfg pl data) in
/-- The product of the sample of an entry and the scale of its channel. -/
def MixFunc.product (f : MixFunc) (i : ℕ) : ℤ := data.short (f.sampleIndex cfg pl i) * pl.scaleOf i

variable (cfg f data) in
theorem MixFunc.product_range (h : pl.Amplified) (i : ℕ) :
    -16777216 ≤ f.product cfg pl data i ∧ f.product cfg pl data i ≤ 16777216 := by
  obtain ⟨hlow, hhigh⟩ := short_range data (f.sampleIndex cfg pl i)
  obtain ⟨hscale, hscale'⟩ := h.scaleOf i
  constructor <;> rw [product] <;> nlinarith

theorem tdiv_base_range {x : ℤ} (hlow : -16777216 ≤ x) (hhigh : x ≤ 16777216) :
    -65536 ≤ x.tdiv esdVolumeBase ∧ x.tdiv esdVolumeBase ≤ 65536 := by
  have hquot := Int.tdiv_le_tdiv (c := 256) (by norm_num) hlow
  have hquot' := Int.tdiv_le_tdiv (c := 256) (by norm_num) hhigh
  exact ⟨hquot, hquot'⟩

/-- A product over the base is a short exactly if it is less than one step outside of them. -/
theorem short16_tdiv_iff (x : ℤ) :
    short16 (x.tdiv esdVolumeBase) = x.tdiv esdVolumeBase ↔ -8388864 < x ∧ x < 8388608 := by
  have hbase : esdVolumeBase = 256 := rfl
  constructor
  · intro hexact
    obtain ⟨hrange, hrange'⟩ := short16_range (x.tdiv esdVolumeBase)
    rw [hexact, hbase] at hrange hrange'
    by_contra houtside
    rcases not_and_or.mp houtside with hout | hout
    · have hquot := Int.tdiv_le_tdiv (c := 256) (by norm_num) (not_lt.mp hout)
      have hbottom : (-8388864 : ℤ).tdiv 256 = -32769 := rfl
      omega
    · have hquot := Int.tdiv_le_tdiv (c := 256) (by norm_num) (not_lt.mp hout)
      have htop : (8388608 : ℤ).tdiv 256 = 32768 := rfl
      omega
  · rintro ⟨hin, hin'⟩
    have hquot := Int.tdiv_le_tdiv (c := 256) (by norm_num) (Int.add_one_le_of_lt hin)
    have hquot' := Int.tdiv_le_tdiv (c := 256) (by norm_num) (Int.le_sub_one_of_lt hin')
    have hbottom : (-8388864 + 1 : ℤ).tdiv 256 = -32768 := rfl
    have htop : (8388608 - 1 : ℤ).tdiv 256 = 32767 := rfl
    rw [hbase]
    exact short16_eq_self (by omega) (by omega)

variable (cfg data) in
theorem MixFunc.entry_wide (h : getMixFunc pl = some f) (h16 : pl.format &&& esdMaskBits = esdBits16)
    (amplified : pl.Amplified) (i : ℕ) :
    f.entry cfg pl data i =
      if f.IsMono then (f.product cfg pl data i).tdiv esdVolumeBase
      else short16 ((f.product cfg pl data i).tdiv esdVolumeBase) := by
  have hwidth : (esdBits16 : Word) ≠ esdBits8 := by decide
  obtain ⟨hlow, hhigh⟩ := product_range cfg f data amplified i
  have hproduct : int32 (f.product cfg pl data i) = f.product cfg pl data i :=
    int32_eq_self (by omega) (by omega)
  have hfull := getMixFunc_full pl
  rw [h, fullFunc, if_neg (by rw [h16]; exact hwidth), if_pos h16] at hfull
  rw [entry_full cfg h data]
  rw [product] at hproduct ⊢
  cases f with
  | mono8uSv | mono8u | stereo8uSv | stereo8u =>
    split_ifs at hfull <;> simp [full] at hfull
  | mono16sSv | mono16s =>
    simp only [IsMono]
    exact congrArg (Int.tdiv · esdVolumeBase) hproduct
  | stereo16sSv | stereo16s =>
    simp only [IsMono]
    exact congrArg (fun x => short16 (x.tdiv esdVolumeBase)) hproduct

/-- A player of 16 bits is mixed with the exact product over the base exactly if it is mono, or no
product leaves the shorts. -/
theorem amplification_exact_iff (h : getMixFunc pl = some f)
    (h16 : pl.format &&& esdMaskBits = esdBits16) (amplified : pl.Amplified) (roomy : Roomy mixed) :
    (∀ i < f.entries cfg pl length, (f.apply cfg pl data length mixed).1 i =
        mixed i + (data.short (f.sampleIndex cfg pl i) * pl.scaleOf i).tdiv esdVolumeBase) ↔
      f.IsMono ∨ ∀ i < f.entries cfg pl length,
        -8388864 < data.short (f.sampleIndex cfg pl i) * pl.scaleOf i ∧
          data.short (f.sampleIndex cfg pl i) * pl.scaleOf i < 8388608 := by
  have hat : ∀ i < f.entries cfg pl length, (f.apply cfg pl data length mixed).1 i =
      mixed i + f.entry cfg pl data i := by
    intro i hi
    obtain ⟨hlow, hhigh⟩ := f.product_range cfg data amplified i
    have hrange := tdiv_base_range hlow hhigh
    have hshort := short16_range ((f.product cfg pl data i).tdiv esdVolumeBase)
    have hentry := MixFunc.entry_wide cfg data h h16 amplified i
    rw [MixFunc.apply_eq]
    apply roomy.raised_at hi <;> rw [hentry] <;> split_ifs <;> omega
  by_cases hmono : f.IsMono
  · simp only [hmono, true_or, iff_true]
    intro i hi
    rw [hat i hi, MixFunc.entry_wide cfg data h h16 amplified, if_pos hmono]
    rfl
  · simp only [hmono, false_or]
    refine forall₂_congr fun i hi => ?_
    rw [hat i hi, MixFunc.entry_wide cfg data h h16 amplified, if_neg hmono, add_right_inj]
    exact short16_tdiv_iff _

end Louder

theorem amplification_exact_iff_soft :
    (mixStereo16sToStereo32s .smallBlocks (panned (esdBits16 ||| esdStereo) 44100 512 256) (fun _ => 1)
      4 fun _ => 0).1 0 = 514 := by
  have hfunc : getMixFunc (panned (esdBits16 ||| esdStereo) 44100 512 256) = some .stereo16s := by
    decide
  have hrange : (panned (esdBits16 ||| esdStereo) 44100 512 256).Amplified := ⟨by decide, by decide⟩
  have hroomy : Roomy fun _ => 0 :=
    fun _ => (by decide : (-2147352576 : ℤ) ≤ 0 ∧ (0 : ℤ) < 2147352576)
  have hinside : ∀ i < MixFunc.stereo16s.entries .smallBlocks
      (panned (esdBits16 ||| esdStereo) 44100 512 256) 4,
      -8388864 < Mem.short (fun _ => 1) (MixFunc.stereo16s.sampleIndex .smallBlocks
          (panned (esdBits16 ||| esdStereo) 44100 512 256) i) *
            (panned (esdBits16 ||| esdStereo) 44100 512 256).scaleOf i ∧
        Mem.short (fun _ => 1) (MixFunc.stereo16s.sampleIndex .smallBlocks
          (panned (esdBits16 ||| esdStereo) 44100 512 256) i) *
            (panned (esdBits16 ||| esdStereo) 44100 512 256).scaleOf i < 8388608 := by
    decide +kernel
  have hzero :=
    (amplification_exact_iff hfunc (by decide) hrange hroomy).mpr (.inr hinside) 0 (by decide)
  have hsample : (0 : ℤ) + (Mem.short (fun _ => 1) (MixFunc.sampleIndex .smallBlocks
      (panned (esdBits16 ||| esdStereo) 44100 512 256) .stereo16s 0) * 512).tdiv 256 = 514 := by
    decide +kernel
  exact hzero.trans hsample

/-- Twice a loud sample of a stereo player comes out with the other sign; of a mono player it does
not. -/
theorem amplified_stereo_wraps :
    (mixStereo16sToStereo32s .smallBlocks (panned (esdBits16 ||| esdStereo) 44100 512 512)
        (fun _ => 100) 4 fun _ => 0).1 0 = -14136 ∧
      (mixMono16sToStereo32s .smallBlocks (panned (esdBits16 ||| esdMono) 44100 512 512)
        (fun _ => 100) 4 fun _ => 0).1 0 = 51400 := by
  decide +kernel

/-! ## One channel and the other -/

section Apart

variable (cfg : Config) (pl : EsdPlayer) (data : Mem) (length : ℤ) (mixed : ℕ → ℤ)

/-- The player with other scales. -/
def EsdPlayer.pan (l r : ℤ) : EsdPlayer := { pl with leftVolScale := l, rightVolScale := r }

/-- The sums after the player was mixed with the function that is selected for it. -/
def mixSelected : ℕ → ℤ :=
  match getMixFunc pl with
  | none => mixed
  | some f => (f.apply cfg pl data length mixed).1

/-- What is added to a channel does not depend on the scale of the other one. -/
structure ChannelsApart : Prop where
  left : ∀ l r r' k, mixSelected cfg (pl.pan l r) data length mixed (2 * k) =
    mixSelected cfg (pl.pan l r') data length mixed (2 * k)
  right : ∀ l l' r k, mixSelected cfg (pl.pan l r) data length mixed (2 * k + 1) =
    mixSelected cfg (pl.pan l' r) data length mixed (2 * k + 1)

/-- The entries that are added to, by what decides on the function. -/
def selectedEntries (f : MixFunc) : ℕ :=
  if ¬ f.IsMono ∧ pl.Unity ∧ pl.rate = cfg.esdAudioRate then length.toNat / 2
  else 2 * pairRounds (length.toNat / 2)

variable {cfg pl length} in
theorem entries_selected {f : MixFunc} (h : getMixFunc pl = some f) :
    f.entries cfg pl length = selectedEntries cfg pl length f.full := by
  have hunity := eq_full_of_scaled h
  simp only [MixFunc.entries, selectedEntries]
  cases f <;> simp only [MixFunc.full, true_iff, reduceCtorEq, false_iff, not_not] at hunity <;>
    simp [MixFunc.full, MixFunc.IsMono, hunity]

theorem mixSelected_none (h : fullFunc pl.format = none) :
    mixSelected cfg pl data length mixed = mixed := by
  have hfull := getMixFunc_full pl
  rw [h, Option.map_eq_none_iff] at hfull
  rw [mixSelected, hfull]

theorem mixSelected_some {f : MixFunc} (h : fullFunc pl.format = some f) :
    mixSelected cfg pl data length mixed =
      raised (selectedEntries cfg pl length f) (f.entry cfg pl data) mixed := by
  have hfull := getMixFunc_full pl
  rw [h] at hfull
  obtain ⟨f', hf', rfl⟩ := Option.map_eq_some_iff.mp hfull
  rw [mixSelected, hf']
  dsimp only
  rw [MixFunc.apply_eq, entries_selected hf', entry_full cfg hf']

theorem scaled_zero (scale : ℤ) : scaled 0 scale = 0 := by
  rw [scaled, zero_mul]
  rfl

theorem MixFunc.gain_zero (f : MixFunc) (i : ℕ) : f.gain pl i 0 = 0 := by
  have hzero : short16 0 = 0 := rfl
  cases f <;> simp only [gain, scaled_zero, hzero]

/-- Two sums are the same int only if what was added is the same. -/
theorem int32_add_inj {m x y : ℤ} (hx : -65536 ≤ x ∧ x ≤ 65536) (hy : -65536 ≤ y ∧ y ≤ 65536)
    (h : int32 (m + x) = int32 (m + y)) : x = y := by
  have hmod := congrArg (· % (2 : ℤ) ^ 32) h
  simp only [int32_emod] at hmod
  omega

variable {cfg pl data length mixed}

theorem fullFunc_cases {format : Word} {f : MixFunc} (h : fullFunc format = some f) :
    f = .mono8u ∨ f = .mono16s ∨ f = .stereo8u ∨ f = .stereo16s := by
  rw [fullFunc] at h
  split_ifs at h <;> simp only [Option.some.injEq] at h <;> simp [← h]

theorem selectedEntries_mono {f : MixFunc} (mono : f.IsMono) :
    selectedEntries cfg pl length f = 2 * pairRounds (length.toNat / 2) := by
  rw [selectedEntries, if_neg fun h => h.1 mono]

theorem left_selected (f : MixFunc) (k : ℕ) :
    2 * k < selectedEntries cfg pl length f ↔ 2 * k < 2 * pairRounds (length.toNat / 2) := by
  rw [selectedEntries]
  split_ifs
  · rw [pairRounds]
    omega
  · rfl

/-- A right entry is added to whatever the scales are, or it is the one that half a frame leaves
out. -/
theorem right_selected (f : MixFunc) (k : ℕ)
    (whole : ¬ f.IsMono → pl.rate = cfg.esdAudioRate → 2 * k + 1 ≠ length.toNat / 2) :
    2 * k + 1 < selectedEntries cfg pl length f ↔ 2 * k + 1 < 2 * pairRounds (length.toNat / 2) := by
  rw [selectedEntries]
  split_ifs with hselected
  · have hne := whole hselected.1 hselected.2.2
    rw [pairRounds]
    omega
  · rfl

theorem scaled_by_zero (x : ℤ) : scaled x 0 = 0 := by
  rw [scaled, mul_zero]
  rfl

/-- With both scales applied to one sample, either of them can silence it. -/
theorem mono8u_silent (h : fullFunc pl.format = some .mono8u)
    (apart : ChannelsApart cfg pl data length mixed) {i : ℕ}
    (hi : i < 2 * pairRounds (length.toNat / 2)) :
    MixFunc.mono8u.sound data (MixFunc.mono8u.sampleIndex cfg pl i) = 0 := by
  obtain ⟨hlow, hhigh⟩ := MixFunc.mono8u.sound_range data (MixFunc.mono8u.sampleIndex cfg pl i)
  have hcount : ∀ l r, selectedEntries cfg (pl.pan l r) length .mono8u =
      2 * pairRounds (length.toNat / 2) := fun l r => selectedEntries_mono trivial
  have hat : ∀ l r, mixSelected cfg (pl.pan l r) data length mixed i =
      int32 (mixed i + MixFunc.mono8u.entry cfg (pl.pan l r) data i) := by
    intro l r
    rw [mixSelected_some cfg (pl.pan l r) data length mixed h, raised, hcount, if_pos hi]
  have hfull : MixFunc.mono8u.entry cfg (pl.pan 256 256) data i =
      MixFunc.mono8u.sound data (MixFunc.mono8u.sampleIndex cfg pl i) :=
    MixFunc.gain_base data .mono8u rfl rfl i _
  have hleft : MixFunc.mono8u.entry cfg (pl.pan 256 0) data i = 0 := by
    have hzero : short16 0 = 0 := rfl
    simp only [MixFunc.entry, MixFunc.gain, EsdPlayer.pan, scaled_by_zero, hzero]
  have hright : MixFunc.mono8u.entry cfg (pl.pan 0 256) data i = 0 := by
    have hzero : short16 0 = 0 := rfl
    simp only [MixFunc.entry, MixFunc.gain, EsdPlayer.pan, scaled_by_zero, scaled_zero, hzero]
  obtain ⟨k, rfl | rfl⟩ : ∃ k, i = 2 * k ∨ i = 2 * k + 1 := ⟨i / 2, by omega⟩
  · have hsame := apart.left 256 256 0 k
    rw [hat, hat, hfull, hleft] at hsame
    exact int32_add_inj (by omega) (by omega) hsame
  · have hsame := apart.right 256 0 256 k
    rw [hat, hat, hfull, hright] at hsame
    exact int32_add_inj (by omega) (by omega) hsame

/-- At full volume the half of a frame that the length ends in is left out. -/
theorem stereo_silent (ints : ∀ i, -2 ^ 31 ≤ mixed i ∧ mixed i < 2 ^ 31) {f : MixFunc}
    (h : fullFunc pl.format = some f) (stereo : ¬ f.IsMono) (rate : pl.rate = cfg.esdAudioRate)
    (odd : length.toNat / 2 % 2 = 1) (apart : ChannelsApart cfg pl data length mixed) :
    f.sound data (length.toNat / 2 : ℕ) = 0 := by
  obtain ⟨hlow, hhigh⟩ := f.sound_range data (length.toNat / 2 : ℕ)
  obtain ⟨k, hk⟩ : ∃ k, length.toNat / 2 = 2 * k + 1 := ⟨length.toNat / 2 / 2, by omega⟩
  have hout : ¬ 2 * k + 1 < selectedEntries cfg (pl.pan 256 256) length f := by
    rw [selectedEntries, if_pos ⟨stereo, ⟨rfl, rfl⟩, rate⟩]
    omega
  have hin : 2 * k + 1 < selectedEntries cfg (pl.pan 0 256) length f := by
    have hscaled : ¬ (pl.pan 0 256).Unity := fun h => absurd (a := (0 : ℤ) = 256) h.1 (by decide)
    rw [selectedEntries, if_neg fun h => hscaled h.2.1, pairRounds]
    omega
  have hentry : f.entry cfg (pl.pan 0 256) data (2 * k + 1) = f.sound data (2 * k + 1 : ℕ) := by
    have hindex : f.sampleIndex cfg (pl.pan 0 256) (2 * k + 1) = (2 * k + 1 : ℕ) := by
      rw [MixFunc.sampleIndex, if_neg stereo]
      exact if_pos rate
    obtain ⟨hlow, hhigh⟩ := f.sound_range data (2 * k + 1 : ℕ)
    have hbase : scaled (f.sound data (2 * k + 1 : ℕ)) 256 = f.sound data (2 * k + 1 : ℕ) :=
      scaled_base hlow hhigh
    rw [MixFunc.entry, hindex]
    rcases fullFunc_cases h with rfl | rfl | rfl | rfl
    · exact absurd trivial stereo
    · exact absurd trivial stereo
    · rw [MixFunc.gain, EsdPlayer.scaleOf_odd, EsdPlayer.pan, hbase, short16_eq_self hlow hhigh]
    · rw [MixFunc.gain, EsdPlayer.scaleOf_odd, EsdPlayer.pan, hbase, short16_eq_self hlow hhigh]
  have hsame := apart.right 256 0 256 k
  rw [mixSelected_some cfg (pl.pan 256 256) data length mixed h, raised, if_neg hout,
    mixSelected_some cfg (pl.pan 0 256) data length mixed h, raised, if_pos hin, hentry, ← hk] at hsame
  have hint : int32 (mixed (length.toNat / 2) + 0) = mixed (length.toNat / 2) := by
    have hrange := ints (length.toNat / 2)
    rw [add_zero, int32_eq_self (by omega) (by omega)]
  exact (int32_add_inj (by omega) (by omega) (hint.trans hsame)).symm

/-- Any other function takes the scale of the channel and no other. -/
theorem entry_pan {f : MixFunc} (h : fullFunc pl.format = some f) (hne : f ≠ .mono8u) (l l' r r' : ℤ)
    (k : ℕ) :
    f.entry cfg (pl.pan l r) data (2 * k) = f.entry cfg (pl.pan l r') data (2 * k) ∧
      f.entry cfg (pl.pan l r) data (2 * k + 1) = f.entry cfg (pl.pan l' r) data (2 * k + 1) := by
  rcases fullFunc_cases h with rfl | rfl | rfl | rfl
  · exact absurd rfl hne
  all_goals
    simp only [MixFunc.entry, MixFunc.gain, EsdPlayer.scaleOf_even, EsdPlayer.scaleOf_odd]
    exact ⟨rfl, rfl⟩

/-- Where nothing is heard it does not matter whether it is added. -/
theorem raised_silent (ints : ∀ i, -2 ^ 31 ≤ mixed i ∧ mixed i < 2 ^ 31) {entry : ℕ → ℤ} {n i : ℕ}
    (h : entry i = 0) : raised n entry mixed i = mixed i := by
  have hrange := ints i
  rw [raised, h, add_zero, int32_eq_self (by omega) (by omega), ite_self]

/-- The channels are apart exactly if a mono player of 8 bits is silent, and a stereo player at
the rate of the device has nothing in the half of a frame that the length ends in. -/
theorem channels_apart_iff (ints : ∀ i, -2 ^ 31 ≤ mixed i ∧ mixed i < 2 ^ 31) :
    ChannelsApart cfg pl data length mixed ↔
      (fullFunc pl.format = some .mono8u → ∀ i < 2 * pairRounds (length.toNat / 2),
        widen8 (data.octetAt ((rdDat (leftOf i) pl.rate cfg.esdAudioRate).tdiv 2)) = 0) ∧
      ∀ f, fullFunc pl.format = some f → ¬ f.IsMono → pl.rate = cfg.esdAudioRate →
        length.toNat / 2 % 2 = 1 → f.sound data (length.toNat / 2 : ℕ) = 0 := by
  constructor
  · intro apart
    exact ⟨fun h i hi => mono8u_silent h apart hi,
      fun f h stereo rate odd => stereo_silent ints h stereo rate odd apart⟩
  rintro ⟨hmono, hstereo⟩
  cases hf : fullFunc pl.format with
  | none =>
    have hnone : ∀ l r, mixSelected cfg (pl.pan l r) data length mixed = mixed :=
      fun l r => mixSelected_none cfg (pl.pan l r) data length mixed hf
    exact ⟨fun l r r' k => by rw [hnone, hnone], fun l l' r k => by rw [hnone, hnone]⟩
  | some f =>
    have hat : ∀ l r, mixSelected cfg (pl.pan l r) data length mixed =
        raised (selectedEntries cfg (pl.pan l r) length f) (f.entry cfg (pl.pan l r) data) mixed :=
      fun l r => mixSelected_some cfg (pl.pan l r) data length mixed hf
    have hsilent : ∀ l r i, f.sound data (f.sampleIndex cfg pl i) = 0 →
        mixSelected cfg (pl.pan l r) data length mixed i = mixed i := by
      intro l r i hsound
      have hentry : f.entry cfg (pl.pan l r) data i = 0 :=
        (congrArg (f.gain (pl.pan l r) i) hsound).trans (f.gain_zero _ i)
      rw [hat, raised_silent ints hentry]
    by_cases hne : f = .mono8u
    · subst hne
      have hkeep : ∀ l r i, mixSelected cfg (pl.pan l r) data length mixed i = mixed i := by
        intro l r i
        by_cases hi : i < 2 * pairRounds (length.toNat / 2)
        · exact hsilent l r i (hmono hf i hi)
        · have hcount : selectedEntries cfg (pl.pan l r) length .mono8u =
              2 * pairRounds (length.toNat / 2) := selectedEntries_mono trivial
          rw [hat, raised, hcount, if_neg hi]
      exact ⟨fun l r r' k => by rw [hkeep, hkeep], fun l l' r k => by rw [hkeep, hkeep]⟩
    · constructor
      · intro l r r' k
        simp only [hat, raised, left_selected]
        rw [(entry_pan hf hne l l r r' k).1]
      · intro l l' r k
        by_cases whole : ¬ f.IsMono → pl.rate = cfg.esdAudioRate → 2 * k + 1 ≠ length.toNat / 2
        · have hright : ∀ l, 2 * k + 1 < selectedEntries cfg (pl.pan l r) length f ↔
              2 * k + 1 < 2 * pairRounds (length.toNat / 2) := fun l => right_selected f k whole
          simp only [hat, raised, hright]
          rw [(entry_pan hf hne l l' r r k).2]
        · push Not at whole
          obtain ⟨stereo, rate, hk⟩ := whole
          have hindex : f.sampleIndex cfg pl (2 * k + 1) = (2 * k + 1 : ℕ) := by
            rw [MixFunc.sampleIndex, if_neg stereo, if_pos rate]
          have hsound := hstereo f hf stereo rate (by omega)
          rw [← hk, ← hindex] at hsound
          rw [hsilent l r _ hsound, hsilent l' r _ hsound]

/-- Half volume on the right makes a mono player of 8 bits softer on the left. -/
theorem mono8u_both_scales :
    mixSelected .smallBlocks ((panned esdMono 44100 256 256).pan 256 256) (fun _ => 255) 4 (fun _ => 0)
        0 = -32768 ∧
      mixSelected .smallBlocks ((panned esdMono 44100 256 256).pan 256 128) (fun _ => 255) 4
        (fun _ => 0) 0 = -16384 := by
  decide +kernel

theorem channels_apart_iff_wide :
    ChannelsApart .smallBlocks (panned (esdBits16 ||| esdStereo) 44100 256 256) (fun _ => 1) 4
      fun _ => 0 := by
  apply (channels_apart_iff fun _ => (by decide : (-2 ^ 31 : ℤ) ≤ 0 ∧ (0 : ℤ) < 2 ^ 31)).mpr
  refine ⟨fun h => absurd h (by decide), fun f hf hstereo hrate hodd => absurd hodd (by decide)⟩

end Apart

end Esound
