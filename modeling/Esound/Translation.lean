import Esound.Frames

/-!
# Blocks in another format

The translation functions differ in how they count through their blocks, and some copy where
the rates agree. By the frame they all do the same: the `k`-th frame that is written is the
frame of the source that the rates put there, in the other format.
-/

open Library.Buffer Library.Loop Library.Resampling

namespace Esound

/-- A width the daemon knows. -/
def KnownBits (format : Word) : Prop :=
  format &&& esdMaskBits = esdBits8 ∨ format &&& esdMaskBits = esdBits16

instance (format : Word) : Decidable (KnownBits format) := inferInstanceAs (Decidable (_ ∨ _))

/-- The octets of a frame of the format. -/
def formatOctets (format : Word) : ℕ :=
  (if format &&& esdMaskBits = esdBits8 then 1 else 2) *
    if format &&& esdMaskChan = esdMono then 1 else 2

/-- The octets of a short in a block. -/
def shortOctets (w : Short) : List Octet := [w.extractLsb' 0 8, w.extractLsb' 8 8]

namespace TranslateFunc

/-- The octets of a frame that the function translates from. -/
def octets : TranslateFunc → ℕ
  | fromStereo16s => 4
  | fromStereo8u | fromMono16s => 2
  | fromMono8u => 1

/-- The one octet, or the two, that a frame becomes. -/
def narrow (f : TranslateFunc) (mono : Bool) (m : Mem) : List ℤ :=
  match f, mono with
  | fromStereo16s, true => [(narrow16 (m.short 0) + narrow16 (m.short 1)).tdiv 2]
  | fromStereo16s, false => [narrow16 (m.short 0), narrow16 (m.short 1)]
  | fromStereo8u, true => [(m.octetAt 0 + m.octetAt 1).tdiv 2]
  | fromStereo8u, false => [m.octetAt 0, m.octetAt 1]
  | fromMono16s, true => [narrow16 (m.short 0)]
  | fromMono16s, false => [narrow16 (m.short 0), narrow16 (m.short 0)]
  | fromMono8u, true => [m.octetAt 0]
  | fromMono8u, false => [m.octetAt 0, m.octetAt 0]

/-- The one short, or the two, that a frame becomes. -/
def wide (f : TranslateFunc) (mono : Bool) (m : Mem) : List ℤ :=
  match f, mono with
  | fromStereo16s, true => [(m.short 0 + m.short 1).tdiv 2]
  | fromStereo16s, false => [m.short 0, m.short 1]
  | fromStereo8u, true => [((m.octetAt 0 - 127 + (m.octetAt 1 - 127)) * 256).tdiv 2]
  | fromStereo8u, false => [(m.octetAt 0 - 127) * 256, (m.octetAt 1 - 127) * 256]
  | fromMono16s, true => [m.short 0]
  | fromMono16s, false => [m.short 0, m.short 0]
  | fromMono8u, true => [short16 ((m.octetAt 0 - 127) * 256)]
  | fromMono8u, false => [short16 ((m.octetAt 0 - 127) * 256), short16 ((m.octetAt 0 - 127) * 256)]

/-- One frame in the other format. -/
def convert (f : TranslateFunc) (format : Word) (frame : List Octet) : List Octet :=
  let mono := decide (format &&& esdMaskChan = esdMono)
  if format &&& esdMaskBits = esdBits8 then
    (f.narrow mono (ofFrame frame)).map (BitVec.ofInt 8)
  else (f.wide mono (ofFrame frame)).flatMap fun x => shortOctets (BitVec.ofInt 16 x)

end TranslateFunc

/-! ## The loops that write a block -/

@[simp] theorem Mem.frame_length (m : Mem) (octets n : ℕ) : (m.frame octets n).length = octets :=
  load_length _ _ _

theorem Mem.frame_eq (m : Mem) (octets n : ℕ) :
    m.frame octets n = (List.range octets).map fun j => m (n * octets + j) := by
  simp only [Mem.frame, load]
  refine List.map_congr_left fun j _ => ?_
  congr 1

section Writing

variable {entry : ℕ → ℤ} {pair : ℕ → ℤ × ℤ} {n k : ℕ} (hk : k < n) (dest src : Mem)

include hk

theorem writeOctets_frame :
    (writeOctets entry n dest).1.frame 1 k = [BitVec.ofInt 8 (entry k)] := by
  simp [Mem.frame_eq, writeOctets, countUp_setOctet, hk]

theorem writeShorts_frame :
    (writeShorts entry (2 * n) dest).1.frame 2 k = shortOctets (BitVec.ofInt 16 (entry k)) := by
  have hrounds : 2 * n / 2 = n := by omega
  have hlow : k * 2 / 2 = k := by omega
  have hhigh : (k * 2 + 1) / 2 = k := by omega
  simp [Mem.frame_eq, List.range_succ, writeShorts, countUp_setShort, hrounds, hlow, hhigh, hk,
    shortOctet, shortOctets]

theorem writeOctetPairs_frame :
    (writeOctetPairs pair (2 * n) dest).1.frame 2 k =
      [BitVec.ofInt 8 (pair (2 * k)).1, BitVec.ofInt 8 (pair (2 * k)).2] := by
  have hlow : 2 * k < 2 * n := by omega
  have hhigh : 2 * k + 1 < 2 * n := by omega
  rw [writeOctetPairs_eq, Mem.frame_eq]
  simp [List.range_succ, writeOctets, countUp_setOctet, entryOf, Nat.mul_comm k 2, hlow, hhigh]

theorem writeShortPairs_frame :
    (writeShortPairs pair (4 * n) dest).1.frame 4 k =
      shortOctets (BitVec.ofInt 16 (pair (2 * k)).1) ++
        shortOctets (BitVec.ofInt 16 (pair (2 * k)).2) := by
  have hrounds : 4 * n / 2 = 2 * n := by omega
  have hquot₀ : k * 4 / 2 = 2 * k := by omega
  have hquot₁ : (k * 4 + 1) / 2 = 2 * k := by omega
  have hquot₂ : (k * 4 + 2) / 2 = 2 * k + 1 := by omega
  have hquot₃ : (k * 4 + 3) / 2 = 2 * k + 1 := by omega
  have hmod₀ : k * 4 % 2 = 0 := by omega
  have hmod₁ : (k * 4 + 1) % 2 = 1 := by omega
  have hmod₂ : (k * 4 + 2) % 2 = 0 := by omega
  have hmod₃ : (k * 4 + 3) % 2 = 1 := by omega
  have hlow : 2 * k < 2 * n := by omega
  have hhigh : 2 * k + 1 < 2 * n := by omega
  rw [writeShortPairs_eq, Mem.frame_eq]
  simp [List.range_succ, writeShorts, hrounds, countUp_setShort, entryOf, shortOctet, shortOctets,
    hquot₀, hquot₁, hquot₂, hquot₃, hmod₀, hmod₁, hmod₂, hmod₃, hlow, hhigh]

theorem copyOctets_frame (octets : ℕ) :
    (copyOctets src (octets * n) dest).1.frame octets k = src.frame octets k := by
  rw [Mem.frame_eq, Mem.frame_eq]
  refine List.map_congr_left fun j hj => ?_
  have hin : k * octets + j < octets * n := by
    have hle : (k + 1) * octets ≤ n * octets := Nat.mul_le_mul_right octets hk
    have hj' := List.mem_range.mp hj
    rw [add_mul, one_mul] at hle
    rw [Nat.mul_comm octets]
    omega
  have hat := store_at dest 0 (load src 0 (octets * n)) (i := k * octets + j) (by rwa [load_length])
  rw [Nat.cast_zero, zero_add] at hat
  simp only [copyOctets, hat]
  simp [load]

end Writing

theorem ofInt_octetAt (m : Mem) (i : ℤ) : BitVec.ofInt 8 (m.octetAt i) = m i.toNat := by
  simp only [Mem.octetAt]
  exact (BitVec.ofInt_natCast ..).trans (BitVec.ofNat_toNat ..|>.trans (BitVec.setWidth_eq _))

theorem convert_own {format : Word} (bits : KnownBits format) {frame : List Octet}
    (hlen : frame.length = (getTranslateFunc format).octets) :
    (getTranslateFunc format).convert format frame = frame := by
  have hwidth : (esdBits16 : Word) ≠ esdBits8 := by decide
  have hshort : ∀ (m : Mem) (i : ℕ), shortOctets (BitVec.ofInt 16 (m.short i)) =
      [m (2 * i), m (2 * i + 1)] := by
    intro m i
    obtain ⟨hlow, hhigh⟩ := shortWord_octets m i
    rw [ofInt_short, shortOctets, hlow, hhigh]
  have hzero := hshort (ofFrame frame) 0
  have hone := hshort (ofFrame frame) 1
  rw [Nat.cast_zero] at hzero
  rw [Nat.cast_one] at hone
  rcases bits with h8 | h16 <;> by_cases hmono : format &&& esdMaskChan = esdMono
  · obtain ⟨b₀, rfl⟩ := List.length_eq_one_iff.mp (by
      simpa [getTranslateFunc, h8, hmono, hwidth.symm, TranslateFunc.octets] using hlen)
    simp [getTranslateFunc, TranslateFunc.convert, TranslateFunc.narrow, h8, hmono, hwidth.symm,
      ofInt_octetAt, ofFrame]
  · obtain ⟨b₀, b₁, rfl⟩ := List.length_eq_two.mp (by
      simpa [getTranslateFunc, h8, hmono, hwidth.symm, TranslateFunc.octets] using hlen)
    simp [getTranslateFunc, TranslateFunc.convert, TranslateFunc.narrow, h8, hmono, hwidth.symm,
      ofInt_octetAt, ofFrame]
  · obtain ⟨b₀, b₁, rfl⟩ := List.length_eq_two.mp (by
      simpa [getTranslateFunc, h16, hmono, hwidth, TranslateFunc.octets] using hlen)
    simp [getTranslateFunc, TranslateFunc.convert, TranslateFunc.wide, h16, hmono, hwidth, hzero]
    simp [ofFrame]
  · obtain ⟨b₀, b₁, b₂, b₃, rfl⟩ := List.length_eq_four.mp (by
      simpa [getTranslateFunc, h16, hmono, hwidth, TranslateFunc.octets] using hlen)
    simp [getTranslateFunc, TranslateFunc.convert, TranslateFunc.wide, h16, hmono, hwidth, hzero,
      hone]
    simp [ofFrame]

/-! ## Translating by the frame -/

section Index

variable {r k : ℕ} {a : ℤ} (hfit : k * r < 2 ^ 32) (hint : sourceAt r (a % 2 ^ 32).toNat k < 2 ^ 31)

include hfit hint

theorem rdDat_once : rdDat k r a = sourceAt r (a % 2 ^ 32).toNat k := rdDat_exact a hfit hint

theorem rdDat_twice (hdouble : sourceAt r (a % 2 ^ 32).toNat k < 2 ^ 30) :
    int32 (rdDat k r a * 2) = 2 * sourceAt r (a % 2 ^ 32).toNat k := by
  rw [rdDat_once hfit hint, int32_of_range] <;> omega

end Index

/-- The index the loop has for a frame is that of a frame of the source. -/
def TranslateFunc.Reads (f : TranslateFunc) (format : Word) (srcRate destRate : ℤ) (k i : ℕ) : Prop :=
  if format &&& esdMaskChan = esdMono then
    match f with
    | fromMono16s | fromMono8u => rdDat k srcRate destRate = i
    | fromStereo16s | fromStereo8u => int32 (rdDat k srcRate destRate * 2) = 2 * i
  else
    match f with
    | fromMono16s | fromMono8u => (rdDat (2 * k) srcRate destRate).tdiv 2 = i
    | fromStereo16s | fromStereo8u => evenDown (rdDat (2 * k) srcRate destRate) = 2 * i

section Translating

variable {format : Word} {n r k : ℕ} {destRate srcLen : ℤ} (dest src : Mem)

theorem TranslateFunc.apply_reads (f : TranslateFunc) (bits : KnownBits format) {srcRate : ℤ} {i : ℕ}
    (hsrc : srcLen ≠ 0) (hk : k < n) (hreads : f.Reads format srcRate destRate k i)
    (hequal : destRate = srcRate → i = k) :
    (f.apply dest (formatOctets format * n) destRate format src srcLen srcRate).1.frame
        (formatOctets format) k =
      f.convert format (src.frame f.octets i) := by
  have hown : ∀ f', getTranslateFunc format = f' →
      f'.convert format (src.frame f'.octets k) = src.frame f'.octets k := by
    rintro f' rfl
    exact convert_own bits (src.frame_length _ k)
  have hwidth : (esdBits16 : Word) ≠ esdBits8 := by decide
  rcases bits with h8 | h16 <;> by_cases hmono : format &&& esdMaskChan = esdMono
  · have hsize : formatOctets format = 1 := by simp [formatOctets, h8, hmono]
    rw [hsize, one_mul]
    cases f with
    | fromStereo16s =>
      simp only [Reads, hmono, if_true] at hreads
      simp [apply, mixFromStereo16s, hsrc, h8, hmono, writeOctets_frame hk, convert, narrow, octets,
        hreads]
    | fromStereo8u =>
      simp only [Reads, hmono, if_true] at hreads
      simp [apply, mixFromStereo8u, hsrc, h8, hmono, writeOctets_frame hk, convert, narrow, octets,
        hreads]
    | fromMono16s =>
      simp only [Reads, hmono, if_true] at hreads
      simp [apply, mixFromMono16s, hsrc, h8, hmono, writeOctets_frame hk, convert, narrow, octets,
        hreads]
    | fromMono8u =>
      simp only [Reads, hmono, if_true] at hreads
      simp only [apply, mixFromMono8u, hsrc, h8, hmono, if_true, if_false]
      split_ifs with heq
      · have hcopy := copyOctets_frame hk dest src 1
        rw [one_mul] at hcopy
        rw [hcopy, hequal heq]
        exact (hown .fromMono8u (by simp [getTranslateFunc, h8, hmono, hwidth.symm])).symm
      · simp [h8, hmono, writeOctets_frame hk, convert, narrow, octets, hreads]
  · have hsize : formatOctets format = 2 := by simp [formatOctets, h8, hmono]
    rw [hsize]
    cases f with
    | fromStereo16s =>
      simp only [Reads, hmono, if_false] at hreads
      simp [apply, mixFromStereo16s, hsrc, h8, hmono, writeOctetPairs_frame hk, convert, narrow,
        octets, hreads]
    | fromStereo8u =>
      simp only [Reads, hmono, if_false] at hreads
      simp only [apply, mixFromStereo8u, hsrc, h8, hmono, if_true, if_false]
      split_ifs with heq
      · rw [copyOctets_frame hk, hequal heq]
        exact (hown .fromStereo8u (by simp [getTranslateFunc, h8, hmono, hwidth.symm])).symm
      · simp [h8, hmono, writeOctetPairs_frame hk, convert, narrow, octets, hreads]
    | fromMono16s =>
      simp only [Reads, hmono, if_false] at hreads
      simp [apply, mixFromMono16s, hsrc, h8, hmono, writeOctetPairs_frame hk, convert, narrow,
        octets, hreads]
    | fromMono8u =>
      simp only [Reads, hmono, if_false] at hreads
      simp [apply, mixFromMono8u, hsrc, h8, hmono, writeOctetPairs_frame hk, convert, narrow,
        octets, hreads]
  · have hsize : formatOctets format = 2 := by simp [formatOctets, h16, hmono, hwidth]
    rw [hsize]
    cases f with
    | fromStereo16s =>
      simp only [Reads, hmono, if_true] at hreads
      simp [apply, mixFromStereo16s, hsrc, h16, hwidth, hmono, writeShorts_frame hk, convert, wide,
        octets, hreads]
    | fromStereo8u =>
      simp only [Reads, hmono, if_true] at hreads
      simp [apply, mixFromStereo8u, hsrc, h16, hwidth, hmono, writeShorts_frame hk, convert, wide,
        octets, hreads]
    | fromMono16s =>
      simp only [Reads, hmono, if_true] at hreads
      simp only [apply, mixFromMono16s, hsrc, h16, hwidth, hmono, if_true, if_false]
      split_ifs with heq
      · rw [copyOctets_frame hk, hequal heq]
        exact (hown .fromMono16s (by simp [getTranslateFunc, h16, hmono])).symm
      · simp [h16, hwidth, hmono, writeShorts_frame hk, convert, wide, octets, hreads]
    | fromMono8u =>
      simp only [Reads, hmono, if_true] at hreads
      simp [apply, mixFromMono8u, hsrc, h16, hwidth, hmono, writeShorts_frame hk, convert, wide,
        octets, hreads]
  · have hsize : formatOctets format = 4 := by simp [formatOctets, h16, hmono, hwidth]
    rw [hsize]
    cases f with
    | fromStereo16s =>
      simp only [Reads, hmono, if_false] at hreads
      simp only [apply, mixFromStereo16s, hsrc, h16, hwidth, hmono, if_true, if_false]
      split_ifs with heq
      · rw [copyOctets_frame hk, hequal heq]
        exact (hown .fromStereo16s (by simp [getTranslateFunc, h16, hmono])).symm
      · simp [h16, hwidth, hmono, writeShortPairs_frame hk, convert, wide, octets, hreads]
    | fromStereo8u =>
      simp only [Reads, hmono, if_false] at hreads
      simp [apply, mixFromStereo8u, hsrc, h16, hwidth, hmono, writeShortPairs_frame hk, convert,
        wide, octets, hreads]
    | fromMono16s =>
      simp only [Reads, hmono, if_false] at hreads
      simp [apply, mixFromMono16s, hsrc, h16, hwidth, hmono, writeShortPairs_frame hk, convert, wide,
        octets, hreads]
    | fromMono8u =>
      simp only [Reads, hmono, if_false] at hreads
      simp [apply, mixFromMono8u, hsrc, h16, hwidth, hmono, writeShortPairs_frame hk, convert, wide,
        octets, hreads]

variable (destRate) in
theorem TranslateFunc.apply_frame (f : TranslateFunc) (bits : KnownBits format)
    (hfit : 2 * n * r < 2 ^ 31) (hr : 0 < r) (hsrc : srcLen ≠ 0) (hk : k < n) :
    (f.apply dest (formatOctets format * n) destRate format src srcLen r).1.frame
        (formatOctets format) k =
      f.convert format (src.frame f.octets (sourceAt r (destRate % 2 ^ 32).toNat k)) := by
  have hround : 2 * k * r < 2 ^ 31 := (Nat.mul_le_mul_right r (by omega)).trans_lt hfit
  have hquot : 2 * k * r / (destRate % 2 ^ 32).toNat < 2 ^ 31 := (Nat.div_le_self _ _).trans_lt hround
  have hsmall : sourceAt r (destRate % 2 ^ 32).toNat k < 2 ^ 30 := by
    rw [← double_div_two]
    omega
  have hproduct : k * r < 2 ^ 32 := by
    rw [mul_assoc] at hround
    omega
  apply f.apply_reads dest src bits hsrc hk
  · simp only [Reads]
    split_ifs
    · cases f with
      | fromMono16s | fromMono8u => exact rdDat_once hproduct (by omega)
      | fromStereo16s | fromStereo8u => exact rdDat_twice hproduct (by omega) hsmall
    · cases f with
      | fromMono16s | fromMono8u => exact rdDat_half (by omega) hquot
      | fromStereo16s | fromStereo8u => exact rdDat_even (by omega) hquot
  · intro heq
    have hmod : (destRate % 2 ^ 32).toNat = r := by
      have hle : 1 * r ≤ 2 * n * r := Nat.mul_le_mul_right r (by omega)
      omega
    rw [hmod]
    exact Nat.mul_div_cancel k hr

theorem TranslateFunc.apply_length (f : TranslateFunc) (bits : KnownBits format) (hsrc : srcLen ≠ 0) :
    (f.apply dest (formatOctets format * n) destRate format src srcLen r).2 =
      (formatOctets format * n : ℕ) := by
  have hwidth : (esdBits16 : Word) ≠ esdBits8 := by decide
  have hhalf : 2 * n / 2 = n := by omega
  have hfour : 4 * n / 2 = 2 * n := by omega
  rcases bits with h8 | h16 <;> by_cases hmono : format &&& esdMaskChan = esdMono
  · cases f <;> simp [apply, mixFromStereo16s, mixFromStereo8u, mixFromMono16s, mixFromMono8u, hsrc,
      h8, hmono, formatOctets, writeOctets, copyOctets]
    split_ifs <;> rfl
  · cases f <;> simp [apply, mixFromStereo16s, mixFromStereo8u, mixFromMono16s, mixFromMono8u, hsrc,
      h8, hmono, formatOctets, writeOctetPairs, copyOctets, pairRounds_double]
    split_ifs <;> rfl
  · cases f <;> simp [apply, mixFromStereo16s, mixFromStereo8u, mixFromMono16s, mixFromMono8u, hsrc,
      h16, hwidth, hmono, formatOctets, writeShorts, copyOctets, hhalf]
    split_ifs <;> rfl
  · cases f <;> simp [apply, mixFromStereo16s, mixFromStereo8u, mixFromMono16s, mixFromMono8u, hsrc,
      h16, hwidth, hmono, formatOctets, writeShortPairs, copyOctets, hfour, pairRounds_double]
    split_ifs <;> rfl

theorem TranslateFunc.apply_empty (f : TranslateFunc) (destLen : ℕ) (srcRate : ℤ) :
    f.apply dest destLen destRate format src 0 srcRate = (dest, 0) := by
  cases f <;> rfl

end Translating

end Esound
