import Esound.BitExact
import Esound.Entries

/-!
# The frames of the device

A device is opened with as many channels as the format asks for. What is mixed has two channels
whatever the device has, and so has what comes out: a mono device is handed two frames for one.
-/

open Library.Buffer Library.Loop Library.Transition

namespace Esound

/-- The octets of a frame of the device that was opened for the format. -/
def deviceOctets (format : Word) : ℕ :=
  (if format &&& esdMaskChan = esdStereo then 2 else 1) * esdSampleSize format

/-- The player has data, and a function it is mixed with. -/
def EsdPlayer.Sounding (pl : EsdPlayer) : Prop := 0 < pl.actualLength ∧ pl.mixFunc ≠ none

instance (pl : EsdPlayer) : Decidable pl.Sounding := inferInstanceAs (Decidable (_ ∧ _))

/-- The player stays, and is mixed. -/
def ReadTurn.IsHeard (r : ReadTurn) : Prop := 0 ≤ r.actual ∧ r.pl.Sounding

instance (r : ReadTurn) : Decidable r.IsHeard := inferInstanceAs (Decidable (_ ∧ _))

theorem blend_length (cfg : Config) (pl : EsdPlayer) (data : Mem) (n : ℕ) (a : (ℕ → ℤ) × ℤ) :
    (blend cfg pl data (4 * n) a).2 = if pl.Sounding then max a.2 (4 * n) else a.2 := by
  cases hf : pl.mixFunc with
  | none => simp [blend, EsdPlayer.Sounding, hf]
  | some f =>
    have hentries : (2 * (f.entries cfg pl (4 * n) : ℤ)) = 4 * n := by
      rw [MixFunc.entries_whole]
      push_cast
      ring
    by_cases hpos : 0 < pl.actualLength
    · simp [blend, EsdPlayer.Sounding, hf, hpos, MixFunc.apply_eq, hentries]
    · simp [blend, EsdPlayer.Sounding, hf, hpos]

section Frames

variable {cfg : Config} {canRead : Ptr → Bool} {s : Server} {n : ℕ}

variable (cfg canRead s n) in
/-- The length of the mix is that of the players that are mixed, if there are any. -/
theorem foldl_blend_length (ps : List Ptr) (a : (ℕ → ℤ) × ℤ) :
    (ps.foldl (fun a p => blend cfg (readTurn canRead s p).pl (readTurn canRead s p).data (4 * n) a)
        a).2 =
      if ∃ p ∈ ps, (readTurn canRead s p).pl.Sounding then max a.2 (4 * n) else a.2 := by
  induction ps generalizing a with
  | nil => simp
  | cons p ps ih =>
    rw [List.foldl_cons, ih, blend_length]
    by_cases hp : (readTurn canRead s p).pl.Sounding
    · have hsome : ∃ q ∈ p :: ps, (readTurn canRead s q).pl.Sounding := ⟨p, List.mem_cons_self, hp⟩
      rw [if_pos hp, if_pos hsome, max_assoc, max_self, ite_self]
    · have hiff : (∃ q ∈ p :: ps, (readTurn canRead s q).pl.Sounding) ↔
          ∃ q ∈ ps, (readTurn canRead s q).pl.Sounding := by
        simp [hp]
      simp only [hiff, if_neg hp]

variable (hlist : s.esdPlayersList.Nodup) (apart : Apart s s.esdPlayersList)

include hlist apart

/-- What a cycle returns that mixes so many frames: two channels of each, if any player is mixed. -/
theorem mixPlayers_length (hmin : (mixRead cfg canRead s).2 = 4 * n) :
    (mixPlayers cfg canRead s).2 =
      if ∃ p ∈ s.esdPlayersList, (readTurn canRead s p).IsHeard then
        (n * (2 * esdSampleSize s.esdAudioFormat) : ℕ)
      else 0 := by
  have hsame : s.reordered s.esdPlayersList = s := rfl
  have hleast := (mixRead_reordered cfg canRead (.refl _) hlist apart).1
  have hcycle := congrArg Prod.snd (mixPlayers_reordered cfg canRead (.refl _) hlist apart)
  rw [hsame, hmin] at hleast
  rw [hsame, ← hleast] at hcycle
  have hheard : (∃ p ∈ s.esdPlayersList.filter fun p => decide (0 ≤ (readTurn canRead s p).actual),
      (readTurn canRead s p).pl.Sounding) ↔ ∃ p ∈ s.esdPlayersList, (readTurn canRead s p).IsHeard := by
    simp only [List.mem_filter, decide_eq_true_eq, ReadTurn.IsHeard, and_assoc]
  refine hcycle.trans ?_
  rcases Nat.eq_zero_or_pos n with rfl | hn
  · simp
  have hmax : max (0 : ℤ) (4 * n) = 4 * n := max_eq_right (by omega)
  rw [if_pos (by omega), mixOf]
  simp only [foldl_blend_length, hheard, hmax, clipMix, esdSampleSize]
  have hhalf : (4 * (n : ℤ)).tdiv 2 = n * 2 := by
    have htwice : 4 * (n : ℤ) = n * 2 * 2 := by ring
    rw [htwice, Int.mul_tdiv_cancel _ (by norm_num)]
  split_ifs <;> simp only [hhalf] <;> push_cast <;> ring

/-- The frames that are mixed are as many frames of the device exactly if there are none, or the
device is stereo and a player is mixed. -/
theorem device_frames_iff (hmin : (mixRead cfg canRead s).2 = 4 * n) :
    (mixPlayers cfg canRead s).2 = (n * deviceOctets s.esdAudioFormat : ℕ) ↔
      n = 0 ∨ s.esdAudioFormat &&& esdMaskChan = esdStereo ∧
        ∃ p ∈ s.esdPlayersList, (readTurn canRead s p).IsHeard := by
  have hsize : 1 ≤ esdSampleSize s.esdAudioFormat := by
    simp only [esdSampleSize]
    split_ifs <;> norm_num
  rw [mixPlayers_length hlist apart hmin, deviceOctets]
  rcases Nat.eq_zero_or_pos n with rfl | hn
  · simp
  simp only [hn.ne', false_or]
  by_cases hheard : ∃ p ∈ s.esdPlayersList, (readTurn canRead s p).IsHeard
  · by_cases hstereo : s.esdAudioFormat &&& esdMaskChan = esdStereo
    · simp only [hheard, hstereo, if_true, and_self]
    · simp only [hheard, hstereo, if_true, if_false, one_mul, false_and, iff_false, Nat.cast_inj]
      intro hsame
      have hdouble := Nat.eq_of_mul_eq_mul_left hn hsame
      omega
  · simp only [hheard, if_false, and_false, iff_false]
    have hpos : 0 < n * ((if s.esdAudioFormat &&& esdMaskChan = esdStereo then 2 else 1) *
        esdSampleSize s.esdAudioFormat) := by
      split_ifs <;> positivity
    omega

end Frames

/-- The formats that `main` leaves, for a device it could open at last. -/
def mainFormats : List Word :=
  [esdBits16 ||| esdStereo, esdBits8 ||| esdStereo, esdBits16, esdBits8]

example : mainFormats.map deviceOctets = [4, 2, 2, 1] := by decide

theorem device_frames_iff_stereo : ∃ t, Runs .smallBlocks NoReset .blank
    (aloneRun (esdBits16 ||| esdStereo) ((List.range 16).map (BitVec.ofNat 8))) t ∧
      (mixPlayers .smallBlocks (fun _ => true) t).2 = (4 * deviceOctets t.esdAudioFormat : ℕ) := by
  refine ⟨_, Run.of_isSome aloneRun_shorts, ?_⟩
  rw [device_frames_iff (n := 4) (by decide +kernel) (by decide +kernel) (by decide +kernel)]
  exact .inr ⟨by decide +kernel, 2, by decide +kernel, by decide +kernel⟩

/-- A daemon that was left with the first mono format. -/
def Server.blankMono : Server :=
  { Server.blank with
    esdAudioFormat := esdBits16
    audioFd := some esdBits16 }

theorem aloneRun_mono : (exec (step .smallBlocks) NoReset .blankMono
    (aloneRun (esdBits16 ||| esdStereo) ((List.range 16).map (BitVec.ofNat 8)))).isSome := by
  decide +kernel

/-- Four frames come out as eight of a mono device. -/
theorem mono_device_twice : ∃ t, Runs .smallBlocks NoReset .blankMono
    (aloneRun (esdBits16 ||| esdStereo) ((List.range 16).map (BitVec.ofNat 8))) t ∧
      t.esdAudioFormat ∈ mainFormats ∧ (mixRead .smallBlocks (fun _ => true) t).2 = 4 * 4 ∧
      (mixPlayers .smallBlocks (fun _ => true) t).2 = 16 ∧ 4 * deviceOctets t.esdAudioFormat = 8 :=
  ⟨_, Run.of_isSome aloneRun_mono, by decide +kernel, by decide +kernel, by decide +kernel,
    by decide +kernel⟩

end Esound
