import Esound.Sums

/-!
# The mix functions entry by entry

What a mix function adds to an entry of the mixed buffer is one sample of its player, made louder
or softer for the channel of the entry. Which sample that is depends on the rates, and how loud it
gets on the scales; what is in the buffers has no part in either.
-/

open Library.Buffer Library.Loop

namespace Esound

/-- The first entry of the frame. -/
def leftOf (i : ℕ) : ℕ := i - i % 2

/-- The scale of the channel of the entry. -/
def EsdPlayer.scaleOf (pl : EsdPlayer) (i : ℕ) : ℤ :=
  if i % 2 = 0 then pl.leftVolScale else pl.rightVolScale

namespace MixFunc

def IsMono : MixFunc → Prop
  | mono8uSv | mono8u | mono16sSv | mono16s => True
  | stereo8uSv | stereo8u | stereo16sSv | stereo16s => False

instance : DecidablePred IsMono := fun f => by cases f <;> unfold IsMono <;> infer_instance

/-- A sample of the player as a signed short. -/
def sound (f : MixFunc) (data : Mem) (i : ℤ) : ℤ :=
  match f with
  | mono8uSv | mono8u | stereo8uSv | stereo8u => widen8 (data.octetAt i)
  | mono16sSv | mono16s | stereo16sSv | stereo16s => data.short i

/-- What is added of a sample. -/
def gain (f : MixFunc) (pl : EsdPlayer) (i : ℕ) (x : ℤ) : ℤ :=
  match f with
  | mono8uSv | stereo8uSv | mono16sSv | stereo16sSv => x
  | mono8u => short16 (scaled (short16 (scaled x pl.leftVolScale)) pl.rightVolScale)
  | mono16s => scaled x (pl.scaleOf i)
  | stereo8u | stereo16s => short16 (scaled x (pl.scaleOf i))

variable (cfg : Config) (pl : EsdPlayer) (data : Mem) (length : ℤ) (mixed : ℕ → ℤ)

/-- The sample the entry is made of. -/
def sampleIndex (f : MixFunc) (i : ℕ) : ℤ :=
  if f.IsMono then (rdDat (leftOf i) pl.rate cfg.esdAudioRate).tdiv 2
  else if pl.rate = cfg.esdAudioRate then i
  else evenDown (rdDat (leftOf i) pl.rate cfg.esdAudioRate) + (i % 2 : ℕ)

/-- The entries that are added to. A length that ends in half a frame is rounded up, except where
the entries are counted one by one. -/
def entries (f : MixFunc) : ℕ :=
  if (f = stereo8uSv ∨ f = stereo16sSv) ∧ pl.rate = cfg.esdAudioRate then length.toNat / 2
  else 2 * pairRounds (length.toNat / 2)

/-- What is added to the entry. -/
def entry (f : MixFunc) (i : ℕ) : ℤ := f.gain pl i (f.sound data (f.sampleIndex cfg pl i))

end MixFunc

/-- A player of a format and a rate, with its two scales. -/
def panned (format : Word) (rate left right : ℤ) : EsdPlayer :=
  ⟨0, format, rate, left, right, 0, 0, 0, 0, [], none, none⟩

section Entries

variable {n : ℕ} {entry entry' mixed : ℕ → ℤ}

theorem raised_congr (h : ∀ i < n, entry i = entry' i) : raised n entry mixed = raised n entry' mixed := by
  funext i
  by_cases hi : i < n
  · simp only [raised, hi, if_true, h i hi]
  · simp only [raised, hi, if_false]

@[simp] theorem leftOf_even (k : ℕ) : leftOf (2 * k) = 2 * k := by
  simp only [leftOf]
  omega

@[simp] theorem leftOf_odd (k : ℕ) : leftOf (2 * k + 1) = 2 * k := by
  simp only [leftOf]
  omega

@[simp] theorem EsdPlayer.scaleOf_even (pl : EsdPlayer) (k : ℕ) :
    pl.scaleOf (2 * k) = pl.leftVolScale := by
  simp [EsdPlayer.scaleOf]

@[simp] theorem EsdPlayer.scaleOf_odd (pl : EsdPlayer) (k : ℕ) :
    pl.scaleOf (2 * k + 1) = pl.rightVolScale := by
  simp [EsdPlayer.scaleOf]

end Entries

variable (cfg : Config) (pl : EsdPlayer) (data : Mem) (length : ℤ) (mixed : ℕ → ℤ)

variable {cfg pl} in
theorem MixFunc.entries_whole (f : MixFunc) {n : ℕ} : f.entries cfg pl (4 * n) = 2 * n := by
  simp only [entries, length_entries, pairRounds_double, ite_self]

theorem MixFunc.apply_eq (f : MixFunc) : f.apply cfg pl data length mixed =
    (raised (f.entries cfg pl length) (f.entry cfg pl data) mixed,
      2 * (f.entries cfg pl length : ℤ)) := by
  have htwice : (4 * (pairRounds (length.toNat / 2) : ℕ) : ℤ) =
      2 * ((2 * pairRounds (length.toNat / 2) : ℕ) : ℤ) := by
    push_cast
    ring
  have hframes : ∀ frame sample, (∀ k, (frame (2 * k)).1 = sample (2 * k)) →
      (∀ k, (frame (2 * k)).2 = sample (2 * k + 1)) → mixFrames frame length mixed =
        (raised (2 * pairRounds (length.toNat / 2)) sample mixed,
          2 * ((2 * pairRounds (length.toNat / 2) : ℕ) : ℤ)) := by
    intro frame sample heven hodd
    rw [mixFrames_eq, entryOf_eq heven hodd, htwice]
  cases f with
  | mono8uSv =>
    simp only [apply, mixMono8uToStereo32sSv, entries, reduceCtorEq, or_self, false_and, if_false]
    apply hframes <;> intro k <;> simp [entry, gain, sound, sampleIndex, IsMono]
  | stereo8uSv =>
    simp only [apply, mixStereo8uToStereo32sSv, entries, true_or, true_and]
    split_ifs with heq
    · rw [mixEntries_eq]
      congr 2
      funext i
      simp [entry, gain, sound, sampleIndex, IsMono, heq, widen8_octetAt]
    · apply hframes <;> intro k <;> simp [entry, gain, sound, sampleIndex, IsMono, heq]
  | mono16sSv =>
    simp only [apply, mixMono16sToStereo32sSv, entries, reduceCtorEq, or_self, false_and, if_false]
    apply hframes <;> intro k <;> simp [entry, gain, sound, sampleIndex, IsMono]
  | stereo16sSv =>
    simp only [apply, mixStereo16sToStereo32sSv, entries, or_true, true_and]
    split_ifs with heq
    · rw [mixEntries_eq]
      congr 2
      funext i
      simp [entry, gain, sound, sampleIndex, IsMono, heq]
    · apply hframes <;> intro k <;> simp [entry, gain, sound, sampleIndex, IsMono, heq]
  | mono8u =>
    simp only [apply, mixMono8uToStereo32s, entries, reduceCtorEq, or_self, false_and, if_false]
    apply hframes <;> intro k <;> simp [entry, gain, sound, sampleIndex, IsMono]
  | stereo8u =>
    simp only [apply, mixStereo8uToStereo32s, entries, reduceCtorEq, or_self, false_and, if_false]
    split_ifs with heq
    · apply hframes <;> intro k <;> simp [entry, gain, sound, sampleIndex, IsMono, heq, widen8_octetAt]
    · apply hframes <;> intro k <;> simp [entry, gain, sound, sampleIndex, IsMono, heq]
  | mono16s =>
    simp only [apply, mixMono16sToStereo32s, entries, reduceCtorEq, or_self, false_and, if_false]
    apply hframes <;> intro k <;> simp [entry, gain, sound, sampleIndex, IsMono]
  | stereo16s =>
    simp only [apply, mixStereo16sToStereo32s, entries, reduceCtorEq, or_self, false_and, if_false]
    split_ifs with heq
    · apply hframes <;> intro k <;> simp [entry, gain, sound, sampleIndex, IsMono, heq]
    · apply hframes <;> intro k <;> simp [entry, gain, sound, sampleIndex, IsMono, heq]

end Esound
