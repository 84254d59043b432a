import Esound.Library.Resampling
import Esound.Mix

/-!
# Blocks as frames

The mix functions count through their blocks in entries of several kinds. Taken by the frame
they all do the same: the `k`-th frame that is mixed comes from the frame of the player that
the rates put there, and from nothing else of its buffer.
-/

open Library.Buffer Library.Loop Library.Resampling

namespace Esound

/-! ## Indices -/

/-- The index is exact as long as the product fits an unsigned, and the quotient an int. -/
theorem rdDat_exact {wr srcRate : ℕ} (dstRate : ℤ) (hfit : wr * srcRate < 2 ^ 32)
    (hint : wr * srcRate / (dstRate % 2 ^ 32).toNat < 2 ^ 31) :
    rdDat wr srcRate dstRate = (wr * srcRate / (dstRate % 2 ^ 32).toNat : ℕ) := by
  obtain ⟨d, hd⟩ : ∃ d : ℕ, dstRate % 2 ^ 32 = d := Int.eq_ofNat_of_zero_le (by omega)
  rw [hd, Int.toNat_natCast] at hint ⊢
  have hmod : ((wr : ℤ) * srcRate) % 2 ^ 32 = (wr * srcRate : ℕ) := by
    rw [← Nat.cast_mul]
    exact Int.emod_eq_of_lt (Int.natCast_nonneg _) (by exact_mod_cast hfit)
  rw [rdDat, hmod, hd, ← Int.natCast_ediv]
  exact int32_of_range (Int.natCast_nonneg _) (by exact_mod_cast hint)

section Index

variable {r k : ℕ} {a : ℤ} (hfit : 2 * k * r < 2 ^ 32)
  (hint : 2 * k * r / (a % 2 ^ 32).toNat < 2 ^ 31)

include hfit hint

theorem rdDat_half : (rdDat (2 * k) r a).tdiv 2 = sourceAt r (a % 2 ^ 32).toNat k := by
  rw [rdDat_exact a hfit hint, ← double_div_two]
  generalize 2 * k * r / (a % 2 ^ 32).toNat = rd
  rw [Int.tdiv_eq_ediv_of_nonneg (Int.natCast_nonneg rd)]
  omega

theorem rdDat_even : evenDown (rdDat (2 * k) r a) = 2 * sourceAt r (a % 2 ^ 32).toNat k := by
  rw [rdDat_exact a hfit hint, ← double_div_two, evenDown]
  generalize 2 * k * r / (a % 2 ^ 32).toNat = rd
  omega

end Index

/-! ## The frames of a block -/

def Mem.frame (m : Mem) (octets n : ℕ) : List Octet := load m (n * octets : ℕ) octets

/-- A frame by itself. -/
def ofFrame (frame : List Octet) : Mem := fun i => frame.getD i 0

section Frame

variable (m : Mem) (n : ℕ)

theorem ofFrame_frame {octets j : ℕ} (hj : j < octets) :
    ofFrame (m.frame octets n) j = m (n * octets + j) := by
  have hcell : ((n : ℤ) * octets + j).toNat = n * octets + j := by
    rw [← Nat.cast_mul, ← Nat.cast_add, Int.toNat_natCast]
  simp [ofFrame, Mem.frame, load, hj, hcell]

theorem octetAt_frame (octets : ℕ) {j : ℕ} (hj : j < octets) :
    (ofFrame (m.frame octets n)).octetAt j = m.octetAt (n * octets + j) := by
  have hcell : ((n : ℤ) * octets + j).toNat = n * octets + j := by
    rw [← Nat.cast_mul, ← Nat.cast_add, Int.toNat_natCast]
  simp only [Mem.octetAt, hcell, Int.toNat_natCast, ofFrame_frame m n hj]

theorem short_frame (shorts : ℕ) {j : ℕ} (hj : j < shorts) :
    (ofFrame (m.frame (2 * shorts) n)).short j = m.short (n * shorts + j) := by
  have hat : ∀ i : ℕ, i < 2 → ofFrame (m.frame (2 * shorts) n) (2 * (j : ℤ) + i).toNat =
      m (2 * (n * shorts + j : ℤ) + i).toNat := by
    intro i hi
    have hcell : (2 * (j : ℤ) + i).toNat = 2 * j + i := by omega
    have hcell' : (2 * (n * shorts + j : ℤ) + i).toNat = n * (2 * shorts) + (2 * j + i) := by
      have hmul : 2 * (n * shorts + j : ℤ) + i = ((n * (2 * shorts) + (2 * j + i) : ℕ) : ℤ) := by
        push_cast
        ring
      rw [hmul, Int.toNat_natCast]
    rw [hcell, hcell', ofFrame_frame m n (by omega)]
  have hlow := hat 0 (by omega)
  rw [Nat.cast_zero, add_zero, add_zero] at hlow
  simp only [Mem.short, Mem.shortWord, hlow]
  rw [← Nat.cast_one, hat 1 (by omega)]

/-! The frames there are: one or two octets, one or two shorts. -/

@[simp] theorem octetAt_mono : (ofFrame (m.frame 1 n)).octetAt 0 = m.octetAt n := by
  simpa using octetAt_frame m n 1 (j := 0) (by omega)

@[simp] theorem octetAt_left : (ofFrame (m.frame 2 n)).octetAt 0 = m.octetAt (2 * n) := by
  simpa [mul_comm] using octetAt_frame m n 2 (j := 0) (by omega)

@[simp] theorem octetAt_right : (ofFrame (m.frame 2 n)).octetAt 1 = m.octetAt (2 * n + 1) := by
  simpa [mul_comm] using octetAt_frame m n 2 (j := 1) (by omega)

@[simp] theorem short_mono : (ofFrame (m.frame 2 n)).short 0 = m.short n := by
  simpa using short_frame m n 1 (j := 0) (by omega)

@[simp] theorem short_left : (ofFrame (m.frame 4 n)).short 0 = m.short (2 * n) := by
  simpa [mul_comm] using short_frame m n 2 (j := 0) (by omega)

@[simp] theorem short_right : (ofFrame (m.frame 4 n)).short 1 = m.short (2 * n + 1) := by
  simpa [mul_comm] using short_frame m n 2 (j := 1) (by omega)

end Frame

/-! ## Blocks written in a loop -/

/-- The octets of a short, in the order they have in a block. -/
def shortOctet (w : Short) (i : ℕ) : Octet :=
  if i % 2 = 0 then w.extractLsb' 0 8 else w.extractLsb' 8 8

theorem shortOctet_shortWord (m : Mem) (j : ℕ) : shortOctet (m.shortWord (j / 2 : ℕ)) j = m j := by
  obtain ⟨hlow, hhigh⟩ := shortWord_octets m (j / 2)
  rw [shortOctet, hlow, hhigh]
  split_ifs <;> congr 1 <;> omega

theorem ofInt_short (m : Mem) (i : ℤ) : BitVec.ofInt 16 (m.short i) = m.shortWord i :=
  BitVec.ofInt_toInt

theorem countUp_setOctet (entry : ℕ → ℤ) (n : ℕ) (m : Mem) (j : ℕ) :
    countUp n (fun i (m : Mem) => m.setOctet i (entry i)) m j =
      if j < n then BitVec.ofInt 8 (entry j) else m j := by
  induction n with
  | zero => rfl
  | succ n ih =>
    simp only [countUp, Mem.setOctet, Function.update_apply] at ih ⊢
    rcases eq_or_ne j n with rfl | hne
    · simp
    · have hlt : j < n + 1 ↔ j < n := by omega
      simp only [hne, if_false, hlt, ih]

theorem countUp_setShort (entry : ℕ → ℤ) (n : ℕ) (m : Mem) (j : ℕ) :
    countUp n (fun i (m : Mem) => m.setShort i (entry i)) m j =
      if j / 2 < n then shortOctet (BitVec.ofInt 16 (entry (j / 2))) j else m j := by
  induction n with
  | zero => rfl
  | succ n ih =>
    simp only [countUp, Mem.setShort, setShortWord_at] at ih ⊢
    rcases eq_or_ne (j / 2) n with hj | hne
    · simp [hj, shortOctet]
    · have hlt : j / 2 < n + 1 ↔ j / 2 < n := by omega
      simp only [hne, if_false, hlt, ih]

theorem shortWord_of_octets {m : Mem} {k : ℕ} {w : Short} (hlow : m (2 * k) = w.extractLsb' 0 8)
    (hhigh : m (2 * k + 1) = w.extractLsb' 8 8) : m.shortWord k = w := by
  have hlow' : (2 * (k : ℤ)).toNat = 2 * k := by omega
  have hhigh' : (2 * (k : ℤ) + 1).toNat = 2 * k + 1 := by omega
  rw [Mem.shortWord, hlow', hhigh', hlow, hhigh]
  exact @BitVec.extractLsb'_append_extractLsb' 8 8 w

/-- A loop that makes every short of a part of the block another one. -/
theorem countUp_mapShorts (g : Short → Short) (m : Mem) (start n j : ℕ) :
    countUp n (fun i (m : Mem) => m.setShortWord (start + i) (g (m.shortWord (start + i : ℕ)))) m j =
      if start ≤ j / 2 ∧ j / 2 < start + n then shortOctet (g (m.shortWord (j / 2 : ℕ))) j else m j := by
  induction n generalizing j with
  | zero =>
    rw [if_neg (by omega)]
    rfl
  | succ n ih =>
    simp only [countUp, setShortWord_at]
    rcases eq_or_ne (j / 2) (start + n) with hj | hne
    · -- the rounds before have left this short alone
      have hshort : (countUp n (fun i (m : Mem) =>
          m.setShortWord (start + i) (g (m.shortWord (start + i : ℕ)))) m).shortWord (start + n : ℕ) =
            m.shortWord (start + n : ℕ) := by
        obtain ⟨hlow, hhigh⟩ := shortWord_octets m (start + n)
        apply shortWord_of_octets
        · rw [ih, if_neg (by omega), hlow]
        · rw [ih, if_neg (by omega), hhigh]
      have hin : start ≤ j / 2 ∧ j / 2 < start + (n + 1) := by omega
      rw [hshort, if_pos hj, if_pos hin, hj]
      rfl
    · have hlt : start ≤ j / 2 ∧ j / 2 < start + (n + 1) ↔ start ≤ j / 2 ∧ j / 2 < start + n := by omega
      simp only [hne, if_false, hlt]
      exact ih j

theorem countUp_setShort_short (entry : ℕ → ℤ) (n : ℕ) (m : Mem) (k : ℕ) :
    (countUp n (fun i (m : Mem) => m.setShort i (entry i)) m).short k =
      if k < n then short16 (entry k) else m.short k := by
  have hlow : 2 * k / 2 = k := by omega
  have hhigh : (2 * k + 1) / 2 = k := by omega
  split_ifs with hk
  · rw [short16, ← BitVec.toInt_ofInt, Mem.short]
    congr 1
    apply shortWord_of_octets
    · rw [countUp_setShort, hlow, if_pos hk, shortOctet, if_pos (by omega)]
    · rw [countUp_setShort, hhigh, if_pos hk, shortOctet, if_neg (by omega)]
  · rw [Mem.short, Mem.short]
    congr 1
    obtain ⟨hbelow, habove⟩ := shortWord_octets m k
    apply shortWord_of_octets
    · rw [countUp_setShort, hlow, if_neg hk, hbelow]
    · rw [countUp_setShort, hhigh, if_neg hk, habove]

/-- A frame taken by its entries. -/
def entryOf (frame : ℕ → ℤ × ℤ) (i : ℕ) : ℤ :=
  if i % 2 = 0 then (frame i).1 else (frame (i - 1)).2

theorem countUp_pairs {α : Type*} (put : ℕ → ℤ → α → α) (frame : ℕ → ℤ × ℤ) (n : ℕ) (a : α) :
    countUp n (fun i b => put (2 * i + 1) (frame (2 * i)).2 (put (2 * i) (frame (2 * i)).1 b)) a =
      countUp (2 * n) (fun i => put i (entryOf frame i)) a := by
  have hentry : ∀ i, entryOf frame (2 * i) = (frame (2 * i)).1 ∧
      entryOf frame (2 * i + 1) = (frame (2 * i)).2 := by
    intro i
    simp [entryOf]
  rw [countUp_double]
  simp only [hentry]

theorem entryOf_eq {sample : ℕ → ℤ} {frame : ℕ → ℤ × ℤ}
    (heven : ∀ k, (frame (2 * k)).1 = sample (2 * k))
    (hodd : ∀ k, (frame (2 * k)).2 = sample (2 * k + 1)) : entryOf frame = sample := by
  funext i
  obtain ⟨k, rfl | rfl⟩ : ∃ k, i = 2 * k ∨ i = 2 * k + 1 := ⟨i / 2, by omega⟩
  · simp [entryOf, heven]
  · simp [entryOf, hodd]

theorem pairRounds_double (n : ℕ) : pairRounds (2 * n) = n := by
  simp only [pairRounds]
  omega

theorem writeOctetPairs_fst (pair : ℕ → ℤ × ℤ) (destLen : ℕ) (dest : Mem) :
    (writeOctetPairs pair destLen dest).1 =
      countUp (2 * pairRounds destLen) (fun i m => m.setOctet i (entryOf pair i)) dest :=
  countUp_pairs (fun i x (m : Mem) => m.setOctet i x) pair _ dest

theorem writeShortPairs_fst (pair : ℕ → ℤ × ℤ) (destLen : ℕ) (dest : Mem) :
    (writeShortPairs pair destLen dest).1 =
      countUp (2 * pairRounds (destLen / 2)) (fun i m => m.setShort i (entryOf pair i)) dest :=
  countUp_pairs (fun i x (m : Mem) => m.setShort i x) pair _ dest

theorem writeOctetPairs_eq (pair : ℕ → ℤ × ℤ) (n : ℕ) (dest : Mem) :
    writeOctetPairs pair (2 * n) dest = writeOctets (entryOf pair) (2 * n) dest := by
  apply Prod.ext
  · rw [writeOctetPairs_fst, pairRounds_double]
    rfl
  · simp only [writeOctetPairs, writeOctets, pairRounds_double]
    push_cast
    rfl

theorem writeShortPairs_eq (pair : ℕ → ℤ × ℤ) (n : ℕ) (dest : Mem) :
    writeShortPairs pair (4 * n) dest = writeShorts (entryOf pair) (4 * n) dest := by
  have hrounds : 4 * n / 2 = 2 * n := by omega
  apply Prod.ext
  · rw [writeShortPairs_fst, hrounds, pairRounds_double, writeShorts, hrounds]
  · simp only [writeShortPairs, writeShorts, hrounds, pairRounds_double]
    push_cast
    ring

/-! ## Mixing by the frame -/

/-- The octets of a frame that the function mixes. -/
def MixFunc.octets : MixFunc → ℕ
  | mono8uSv | mono8u => 1
  | stereo8uSv | stereo8u | mono16sSv | mono16s => 2
  | stereo16sSv | stereo16s => 4

/-- What the function makes of one frame, left and right. -/
def MixFunc.voice (f : MixFunc) (pl : EsdPlayer) (frame : List Octet) : ℤ × ℤ :=
  let m := ofFrame frame
  match f with
  | mono8uSv => (widen8 (m.octetAt 0), widen8 (m.octetAt 0))
  | stereo8uSv => (widen8 (m.octetAt 0), widen8 (m.octetAt 1))
  | mono16sSv => (m.short 0, m.short 0)
  | stereo16sSv => (m.short 0, m.short 1)
  | mono8u =>
    let sample := short16 (scaled (widen8 (m.octetAt 0)) pl.leftVolScale)
    let sample := short16 (scaled sample pl.rightVolScale)
    (sample, sample)
  | stereo8u =>
    (short16 (scaled (widen8 (m.octetAt 0)) pl.leftVolScale),
      short16 (scaled (widen8 (m.octetAt 1)) pl.rightVolScale))
  | mono16s => (scaled (m.short 0) pl.leftVolScale, scaled (m.short 0) pl.rightVolScale)
  | stereo16s =>
    (short16 (scaled (m.short 0) pl.leftVolScale), short16 (scaled (m.short 1) pl.rightVolScale))

theorem short_range (m : Mem) (i : ℤ) : -32768 ≤ m.short i ∧ m.short i ≤ 32767 := by
  have hlow := BitVec.le_toInt (m.shortWord i)
  have hhigh := BitVec.toInt_lt (x := m.shortWord i)
  simp only [Mem.short]
  omega

theorem octetAt_range (m : Mem) (i : ℤ) : 0 ≤ m.octetAt i ∧ m.octetAt i < 256 := by
  have hoctet := (m i.toNat).isLt
  simp only [Mem.octetAt]
  omega

theorem short16_range (x : ℤ) : -32768 ≤ short16 x ∧ short16 x ≤ 32767 := by
  have hlow := Int.le_bmod (x := x) (m := 2 ^ 16) (by norm_num)
  have hhigh := Int.bmod_lt (x := x) (m := 2 ^ 16) (by norm_num)
  simp only [short16]
  omega

theorem short16_eq_self {x : ℤ} (hlow : -32768 ≤ x) (hhigh : x ≤ 32767) : short16 x = x := by
  rw [short16, Int.bmod_eq_of_le] <;> omega

theorem widen8_octetAt (m : Mem) (i : ℤ) :
    widen8 (m.octetAt i) = short16 ((m.octetAt i - 127) * 256) := by
  obtain ⟨hnonneg, hlt⟩ := octetAt_range m i
  have hexact : short16 (m.octetAt i - 127) = m.octetAt i - 127 :=
    short16_eq_self (by omega) (by omega)
  rw [widen8, hexact]

section Mixing

variable {frame frame' : ℕ → ℤ × ℤ} {entry : ℕ → ℤ} {mixed : ℕ → ℤ} {n : ℕ}

theorem length_entries (n : ℕ) : (4 * (n : ℤ)).toNat / 2 = 2 * n := by
  omega

theorem mixFrames_congr (h : ∀ k < n, frame (2 * k) = frame' (2 * k)) :
    mixFrames frame (4 * n) mixed = mixFrames frame' (4 * n) mixed := by
  simp only [mixFrames, length_entries, pairRounds_double]
  rw [countUp_congr n fun i hi b => by rw [h i hi]]

theorem mixEntries_eq_mixFrames :
    mixEntries entry (4 * n) mixed = mixFrames (fun wr => (entry wr, entry (wr + 1))) (4 * n) mixed := by
  simp only [mixFrames, mixEntries, length_entries, pairRounds_double, countUp_double]
  push_cast
  ring_nf

end Mixing

section Voices

variable {cfg : Config} {pl : EsdPlayer} {r : ℕ} (rate : pl.rate = r)
  (haudio : cfg.esdAudioRate < 2 ^ 31)

include rate haudio

/-- The mix functions by the frame: the `k`-th frame is made of the source frame the rates put
there. -/
theorem MixFunc.apply_frames (f : MixFunc) {n : ℕ} (hfit : 2 * n * r < 2 ^ 31) (data : Mem)
    (mixed : ℕ → ℤ) :
    f.apply cfg pl data (4 * n) mixed =
      mixFrames (fun wr => f.voice pl (data.frame f.octets (sourceAt r cfg.esdAudioRate (wr / 2))))
        (4 * n) mixed := by
  have haudio' : ((cfg.esdAudioRate : ℤ) % 2 ^ 32).toNat = cfg.esdAudioRate := by omega
  have hround : ∀ k < n, 2 * k * r < 2 ^ 31 := fun k hk =>
    (Nat.mul_le_mul_right r (by omega)).trans_lt hfit
  have hproduct : ∀ k < n, 2 * k * r < 2 ^ 32 := fun k hk => (hround k hk).trans (by norm_num)
  have hquot : ∀ k < n, 2 * k * r / ((cfg.esdAudioRate : ℤ) % 2 ^ 32).toNat < 2 ^ 31 := fun k hk =>
    (Nat.div_le_self _ _).trans_lt (hround k hk)
  have hhalf : ∀ k < n, (rdDat (2 * k) pl.rate cfg.esdAudioRate).tdiv 2 =
      sourceAt r cfg.esdAudioRate k := by
    intro k hk
    rw [rate, rdDat_half (hproduct k hk) (hquot k hk), haudio']
  have heven : ∀ k < n, evenDown (rdDat (2 * k) pl.rate cfg.esdAudioRate) =
      2 * sourceAt r cfg.esdAudioRate k := by
    intro k hk
    rw [rate, rdDat_even (hproduct k hk) (hquot k hk), haudio']
  have hequal : pl.rate = cfg.esdAudioRate → ∀ k, sourceAt r cfg.esdAudioRate k = k := by
    intro heq k
    rw [Nat.cast_inj.mp (rate.symm.trans heq)]
    exact Nat.mul_div_cancel k cfg.audioRate_pos
  have hdouble : ∀ k, 2 * k / 2 = k := fun k => by omega
  cases f with
  | mono8uSv =>
    simp only [apply, mixMono8uToStereo32sSv]
    refine mixFrames_congr fun k hk => ?_
    simp only [voice, octets, hdouble, hhalf k hk, octetAt_mono]
  | stereo8uSv =>
    simp only [apply, mixStereo8uToStereo32sSv]
    split_ifs with heq
    · rw [mixEntries_eq_mixFrames]
      refine mixFrames_congr fun k hk => ?_
      simp only [voice, octets, hdouble, hequal heq, octetAt_left, octetAt_right, widen8_octetAt,
        Nat.cast_add, Nat.cast_mul, Nat.cast_ofNat, Nat.cast_one]
    · refine mixFrames_congr fun k hk => ?_
      simp only [voice, octets, hdouble, heven k hk, octetAt_left, octetAt_right]
  | mono16sSv =>
    simp only [apply, mixMono16sToStereo32sSv]
    refine mixFrames_congr fun k hk => ?_
    simp only [voice, octets, hdouble, hhalf k hk, short_mono]
  | stereo16sSv =>
    simp only [apply, mixStereo16sToStereo32sSv]
    split_ifs with heq
    · rw [mixEntries_eq_mixFrames]
      refine mixFrames_congr fun k hk => ?_
      simp only [voice, octets, hdouble, hequal heq, short_left, short_right, Nat.cast_add,
        Nat.cast_mul, Nat.cast_ofNat, Nat.cast_one]
    · refine mixFrames_congr fun k hk => ?_
      simp only [voice, octets, hdouble, heven k hk, short_left, short_right]
  | mono8u =>
    simp only [apply, mixMono8uToStereo32s]
    refine mixFrames_congr fun k hk => ?_
    simp only [voice, octets, hdouble, hhalf k hk, octetAt_mono]
  | stereo8u =>
    simp only [apply, mixStereo8uToStereo32s]
    split_ifs with heq
    · refine mixFrames_congr fun k hk => ?_
      simp only [voice, octets, hdouble, hequal heq, octetAt_left, octetAt_right, widen8_octetAt,
        Nat.cast_mul, Nat.cast_ofNat]
    · refine mixFrames_congr fun k hk => ?_
      simp only [voice, octets, hdouble, heven k hk, octetAt_left, octetAt_right]
  | mono16s =>
    simp only [apply, mixMono16sToStereo32s]
    refine mixFrames_congr fun k hk => ?_
    simp only [voice, octets, hdouble, hhalf k hk, short_mono]
  | stereo16s =>
    simp only [apply, mixStereo16sToStereo32s]
    split_ifs with heq
    · refine mixFrames_congr fun k hk => ?_
      simp only [voice, octets, hdouble, hequal heq, short_left, short_right, Nat.cast_mul,
        Nat.cast_ofNat]
    · refine mixFrames_congr fun k hk => ?_
      simp only [voice, octets, hdouble, heven k hk, short_left, short_right]

end Voices

end Esound
