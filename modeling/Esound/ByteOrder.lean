import Esound.Library.Buffer

/-!
# Machine words and the byte order macros

The words of the daemon are 32-bit two's complement ints and 16-bit shorts, kept
as bit vectors where bits are looked at and as integers elsewhere. The daemon's
own byte order is taken to be little-endian. `>>` on a negative int is the
arithmetic shift, so `swap_endian_32` drags the sign of its argument along: the
exact set of ints on which the macro is the byte reversal is computed here.
-/

open Library.Buffer

namespace Esound

abbrev Octet := BitVec 8
abbrev Short := BitVec 16
abbrev Word := BitVec 32
/-- A block of memory, by the offset of its octets. -/
abbrev Mem := ℕ → Octet

/-- What an int operation leaves of an exact result. -/
def int32 (x : ℤ) : ℤ := Int.bmod x (2 ^ 32)

theorem int32_eq_self {x : ℤ} (hlow : -2 ^ 31 ≤ x) (h : x < 2 ^ 31) : int32 x = x := by
  rw [int32, Int.bmod_eq_of_le] <;> omega

theorem int32_of_range {x : ℤ} (h0 : 0 ≤ x) (h : x < 2 ^ 31) : int32 x = x :=
  int32_eq_self (by omega) h

theorem int32_range (x : ℤ) : -2 ^ 31 ≤ int32 x ∧ int32 x < 2 ^ 31 := by
  have hlow := Int.le_bmod (x := x) (m := 2 ^ 32) (by norm_num)
  have hhigh := Int.bmod_lt (x := x) (m := 2 ^ 32) (by norm_num)
  rw [int32]
  omega

theorem int32_emod (x : ℤ) : int32 x % 2 ^ 32 = x % 2 ^ 32 := by
  exact_mod_cast Int.bmod_emod (x := x) (m := 2 ^ 32)

namespace Word

def octet (w : Word) (i : ℕ) : Octet := w.extractLsb' (8 * i) 8

def octets (w : Word) : List Octet := [octet w 0, octet w 1, octet w 2, octet w 3]

def ofOctets (b₀ b₁ b₂ b₃ : Octet) : Word :=
  b₀.setWidth 32 ||| b₁.setWidth 32 <<< 8 ||| b₂.setWidth 32 <<< 16 ||| b₃.setWidth 32 <<< 24

/-- The word with its four octets in the opposite order. -/
def reverse (w : Word) : Word := ofOctets (octet w 3) (octet w 2) (octet w 1) (octet w 0)

end Word

/-- `*(int*)(block + off)`. -/
def Mem.int (m : Mem) (off : ℕ) : Word :=
  Word.ofOctets (m off) (m (off + 1)) (m (off + 2)) (m (off + 3))

/-- The same four octets read by a machine of the opposite byte order. -/
def Mem.intOpposite (m : Mem) (off : ℕ) : Word :=
  Word.ofOctets (m (off + 3)) (m (off + 2)) (m (off + 1)) (m off)

namespace Mem

def setOctet (m : Mem) (i : ℕ) (x : ℤ) : Mem := Function.update m i (BitVec.ofInt 8 x)

def shortWord (m : Mem) (i : ℤ) : Short := m (2 * i + 1).toNat ++ m (2 * i).toNat

/-- A signed short at a short index. -/
def short (m : Mem) (i : ℤ) : ℤ := (m.shortWord i).toInt

def octetAt (m : Mem) (i : ℤ) : ℤ := (m i.toNat).toNat

def setShortWord (m : Mem) (i : ℕ) (w : Short) : Mem :=
  Function.update (Function.update m (2 * i) (w.extractLsb' 0 8)) (2 * i + 1) (w.extractLsb' 8 8)

def setShort (m : Mem) (i : ℕ) (x : ℤ) : Mem := m.setShortWord i (BitVec.ofInt 16 x)

end Mem

theorem shortWord_octets (m : Mem) (k : ℕ) :
    (m.shortWord k).extractLsb' 0 8 = m (2 * k) ∧ (m.shortWord k).extractLsb' 8 8 = m (2 * k + 1) := by
  have hlow : (2 * (k : ℤ)).toNat = 2 * k := by omega
  have hhigh : (2 * (k : ℤ) + 1).toNat = 2 * k + 1 := by omega
  constructor <;>
    · apply BitVec.eq_of_getLsbD_eq
      intro i hi
      simp only [Mem.shortWord, hlow, hhigh, BitVec.getLsbD_extractLsb', BitVec.getLsbD_append]
      interval_cases i <;> simp

theorem setShortWord_at (m : Mem) (k : ℕ) (w : Short) (j : ℕ) :
    m.setShortWord k w j =
      if j / 2 = k then (if j % 2 = 0 then w.extractLsb' 0 8 else w.extractLsb' 8 8) else m j := by
  simp only [Mem.setShortWord, Function.update_apply]
  split_ifs with h₁ h₂ h₃ h₄ h₅ h₆ h₇ <;> first | rfl | omega

/-- The argument of the macro is an int: a short is widened before it gets here. -/
def swapEndian16 (x : Word) : Word :=
  x.sshiftRight 8 ||| (x &&& 0xFF#32) <<< 8

def swapEndian32 (x : Word) : Word :=
  x.sshiftRight 24 ||| (x &&& 0xFF0000#32).sshiftRight 8 ||| (x &&& 0xFF00#32) <<< 8 |||
    (x &&& 0xFF#32) <<< 24

def maybeSwap32 (c : Bool) (x : Word) : Word := if c then swapEndian32 x else x

namespace Word

theorem reverse_getLsbD (w : Word) (i : ℕ) (hi : i < 32) :
    (reverse w).getLsbD i = w.getLsbD (8 * (3 - i / 8) + i % 8) := by
  interval_cases i <;> simp [reverse, ofOctets, octet]

@[simp] theorem reverse_reverse (w : Word) : reverse (reverse w) = w := by
  apply BitVec.eq_of_getLsbD_eq
  intro i hi
  rw [reverse_getLsbD _ _ hi, reverse_getLsbD _ _ (by omega)]
  congr 1
  omega

theorem ofOctets_octets (w : Word) :
    ofOctets (octet w 0) (octet w 1) (octet w 2) (octet w 3) = w := by
  apply BitVec.eq_of_getLsbD_eq
  intro i hi
  interval_cases i <;> simp [ofOctets, octet]

theorem intOpposite_eq_reverse (m : Mem) (off : ℕ) :
    m.intOpposite off = reverse (m.int off) := by
  apply BitVec.eq_of_getLsbD_eq
  intro i hi
  rw [reverse_getLsbD _ _ hi]
  interval_cases i <;> simp [Mem.intOpposite, Mem.int, ofOctets]

theorem int_store_octets (m : Mem) (off : ℕ) (w : Word) :
    Mem.int (store m off (octets w)) off = w := by
  have h₀ := store_at m off (octets w) (i := 0) (by simp [octets])
  have h₁ := store_at m off (octets w) (i := 1) (by simp [octets])
  have h₂ := store_at m off (octets w) (i := 2) (by simp [octets])
  have h₃ := store_at m off (octets w) (i := 3) (by simp [octets])
  simp only [add_zero] at h₀
  simp only [Mem.int, h₀, h₁, h₂, h₃]
  exact ofOctets_octets w

theorem int_store_before (m : Mem) (off stop : ℕ) (block : List Octet) (h : off + 4 ≤ stop) :
    Mem.int (store m stop block) off = m.int off := by
  have hcell : ∀ i < 4, store m stop block (off + i) = m (off + i) :=
    fun i hi => store_before m stop block (by omega)
  have h₀ := hcell 0 (by omega)
  rw [add_zero] at h₀
  simp only [Mem.int, h₀, hcell 1 (by omega), hcell 2 (by omega), hcell 3 (by omega)]

theorem int_store_within (m : Mem) (pre post : List Octet) (w : Word) :
    Mem.int (store m 0 (pre ++ octets w ++ post)) pre.length = w := by
  have hpre := store_store m 0 pre (octets w)
  have hall := store_store m 0 (pre ++ octets w) post
  rw [Nat.cast_zero] at hpre hall
  rw [← hall, ← hpre, int_store_before _ _ _ _ (by simp [octets])]
  simpa only [zero_add] using int_store_octets (store m 0 pre) pre.length w

theorem intOpposite_store_reverse (m : Mem) (off : ℕ) (w : Word) :
    Mem.intOpposite (store m off (octets w).reverse) off = w := by
  have h₀ := store_at m off (octets w).reverse (i := 0) (by simp [octets])
  have h₁ := store_at m off (octets w).reverse (i := 1) (by simp [octets])
  have h₂ := store_at m off (octets w).reverse (i := 2) (by simp [octets])
  have h₃ := store_at m off (octets w).reverse (i := 3) (by simp [octets])
  simp only [add_zero] at h₀
  simp only [Mem.intOpposite, h₀, h₁, h₂, h₃]
  exact ofOctets_octets w

theorem msb_eq_false_iff (w : Word) : w.msb = false ↔ 0 ≤ w.toInt := by
  rw [BitVec.msb_eq_toInt]
  simp

theorem low24_iff (w : Word) :
    (∀ j < 24, w.getLsbD j = true) ↔ w.toInt % 2 ^ 24 = 2 ^ 24 - 1 := by
  have hnat : (∀ j < 24, w.getLsbD j = true) ↔ w.toNat % 2 ^ 24 = 2 ^ 24 - 1 := by
    constructor
    · intro h
      apply Nat.eq_of_testBit_eq
      intro j
      rw [Nat.testBit_mod_two_pow, Nat.testBit_two_pow_sub_one]
      by_cases hj : j < 24
      · simpa [hj, BitVec.getLsbD] using h j hj
      · simp [hj]
    · intro h j hj
      have hbit := congrArg (fun n => n.testBit j) h
      simp only [Nat.testBit_mod_two_pow, Nat.testBit_two_pow_sub_one, hj, decide_true,
        Bool.true_and] at hbit
      exact hbit
  rw [hnat, BitVec.toInt_eq_toNat_cond]
  have hlt := w.isLt
  split_ifs <;> omega

theorem reverse_msb (w : Word) : (reverse w).msb = w.getLsbD 7 := by
  rw [BitVec.msb_eq_getLsbD_last, reverse_getLsbD _ _ (by omega)]

theorem getLsbD_seven_iff (w : Word) : w.getLsbD 7 = false ↔ w.toInt % 256 < 128 := by
  have hbit : w.getLsbD 7 = decide (w.toNat / 2 ^ 7 % 2 = 1) := Nat.testBit_eq_decide_div_mod_eq
  rw [hbit, BitVec.toInt_eq_toNat_cond, decide_eq_false_iff_not]
  have hlt := w.isLt
  split_ifs <;> omega

/-- The three low octets of the reversal are the sign octets of a small negative int. -/
theorem reverse_low24_iff (w : Word) :
    (∀ j < 24, (reverse w).getLsbD j = true) ↔ -256 ≤ w.toInt ∧ w.toInt < 0 := by
  have hshift : (∀ j < 24, (reverse w).getLsbD j = true) ↔
      w.sshiftRight 8 = BitVec.allOnes 32 := by
    constructor
    · intro h
      have hhigh : ∀ k < 32, 8 ≤ k → w.getLsbD k = true := by
        intro k hk hlow
        have hbit := h (8 * (3 - k / 8) + k % 8) (by omega)
        rw [reverse_getLsbD _ _ (by omega)] at hbit
        convert hbit using 2
        omega
      apply BitVec.eq_of_getLsbD_eq
      intro i hi
      rw [BitVec.getLsbD_sshiftRight, BitVec.getLsbD_allOnes]
      by_cases hin : 8 + i < 32
      · simp [hi, hin, hhigh (8 + i) hin (by omega)]
      · simp [hi, hin, BitVec.msb_eq_getLsbD_last, hhigh 31 (by omega) (by omega)]
    · intro h j hj
      have hbit := congrArg (fun x => x.getLsbD (8 * (3 - j / 8) + j % 8 - 8)) h
      have hback : 8 + (8 * (3 - j / 8) + j % 8 - 8) = 8 * (3 - j / 8) + j % 8 := by omega
      have hin : 8 * (3 - j / 8) + j % 8 < 32 := by omega
      have hidx : 8 * (3 - j / 8) + j % 8 - 8 < 32 := by omega
      simp only [BitVec.getLsbD_sshiftRight, BitVec.getLsbD_allOnes, hback, hin, hidx,
        not_le.mpr hidx, decide_false, decide_true, Bool.not_false, Bool.true_and, if_true] at hbit
      rw [reverse_getLsbD _ _ (by omega)]
      exact hbit
  have hone : (BitVec.allOnes 32).toInt = -1 := by decide
  rw [hshift, ← BitVec.toInt_inj, hone, BitVec.toInt_sshiftRight, Int.shiftRight_eq_div_pow]
  omega

end Word

theorem swapEndian32_getLsbD (w : Word) (i : ℕ) (hi : i < 32) :
    (swapEndian32 w).getLsbD i =
      ((Word.reverse w).getLsbD i || (decide (8 ≤ i) && w.msb)) := by
  have hmask : (0xFF0000#32).msb = false := by decide
  rw [Word.reverse_getLsbD w i hi]
  interval_cases i <;> simp [swapEndian32, BitVec.getElem_sshiftRight, hmask, Bool.or_comm]

theorem swapEndian32_of_nonneg {w : Word} (h : w.msb = false) :
    swapEndian32 w = Word.reverse w := by
  apply BitVec.eq_of_getLsbD_eq
  intro i hi
  rw [swapEndian32_getLsbD w i hi, h]
  simp

/-- The macro reverses the octets of an int exactly when the int is not negative or
its three low octets are all ones, where the sign bits it drags in change nothing. -/
theorem swapEndian32_eq_reverse_iff (w : Word) :
    swapEndian32 w = Word.reverse w ↔ 0 ≤ w.toInt ∨ w.toInt % 2 ^ 24 = 2 ^ 24 - 1 := by
  rw [← Word.msb_eq_false_iff, ← Word.low24_iff]
  constructor
  · intro h
    by_cases hneg : w.msb = false
    · exact Or.inl hneg
    · right
      intro j hj
      have hbit := congrArg (fun x => x.getLsbD (8 * (3 - j / 8) + j % 8)) h
      simp only [swapEndian32_getLsbD w _ (show 8 * (3 - j / 8) + j % 8 < 32 by omega),
        Word.reverse_getLsbD w _ (show 8 * (3 - j / 8) + j % 8 < 32 by omega)] at hbit
      have hback : 8 * (3 - (8 * (3 - j / 8) + j % 8) / 8) + (8 * (3 - j / 8) + j % 8) % 8 = j := by
        omega
      have hhigh : 8 ≤ 8 * (3 - j / 8) + j % 8 := by omega
      simp only [hback, hhigh, decide_true, Bool.true_and, Bool.eq_true_of_not_eq_false hneg,
        Bool.or_true] at hbit
      exact hbit.symm
  · rintro (h | h)
    · exact swapEndian32_of_nonneg h
    · apply BitVec.eq_of_getLsbD_eq
      intro i hi
      rw [swapEndian32_getLsbD w i hi, Word.reverse_getLsbD w i hi]
      by_cases hlow : 8 ≤ i
      · rw [h (8 * (3 - i / 8) + i % 8) (by omega)]
        simp
      · simp [hlow]

/-- A negative int leaves nothing but its top octet, with ones above it. -/
theorem swapEndian32_swapEndian32_of_neg {w : Word} (h : w.msb = true) :
    swapEndian32 (swapEndian32 w) = BitVec.allOnes 32 := by
  have hhigh : ∀ i < 32, 8 ≤ i → (swapEndian32 w).getLsbD i = true := by
    intro i hi hlow
    rw [swapEndian32_getLsbD w i hi, h]
    simp [hlow]
  have hneg : (swapEndian32 w).msb = true := by
    rw [BitVec.msb_eq_getLsbD_last]
    exact hhigh 31 (by omega) (by omega)
  apply BitVec.eq_of_getLsbD_eq
  intro i hi
  rw [swapEndian32_getLsbD _ i hi, hneg, BitVec.getLsbD_allOnes]
  by_cases hlow : 8 ≤ i
  · simp [hlow, hi]
  · rw [Word.reverse_getLsbD _ i hi, hhigh _ (by omega) (by omega)]
    simp [hi]

theorem swapEndian32_involutive_iff (w : Word) :
    swapEndian32 (swapEndian32 w) = w ↔ w.toInt = -1 ∨ 0 ≤ w.toInt ∧ w.toInt % 256 < 128 := by
  by_cases h : w.msb = true
  · have hneg : ¬ 0 ≤ w.toInt := by
      rw [← Word.msb_eq_false_iff, h]
      simp
    have hone : (BitVec.allOnes 32).toInt = -1 := by decide
    rw [swapEndian32_swapEndian32_of_neg h, ← BitVec.toInt_inj, hone]
    omega
  · have hpos := Bool.eq_false_of_not_eq_true h
    have hnn : 0 ≤ w.toInt := (Word.msb_eq_false_iff w).mp hpos
    rw [swapEndian32_of_nonneg hpos]
    have hrev := swapEndian32_eq_reverse_iff (Word.reverse w)
    rw [Word.reverse_reverse, ← Word.msb_eq_false_iff, ← Word.low24_iff, Word.reverse_msb,
      Word.getLsbD_seven_iff] at hrev
    rw [hrev]
    constructor
    · rintro (hlow | hones)
      · exact Or.inr ⟨hnn, hlow⟩
      · -- the low octets of the reversal hold the sign bit of `w`
        have hbit := hones 7 (by omega)
        rw [Word.reverse_getLsbD _ _ (by omega)] at hbit
        rw [BitVec.msb_eq_getLsbD_last] at hpos
        simp_all
    · rintro (hone | ⟨-, hlow⟩)
      · omega
      · exact Or.inl hlow

/-- What swapping makes of the octets of an int that arrived in the opposite order. -/
theorem swapEndian32_reverse_eq_iff (v : Word) :
    swapEndian32 (Word.reverse v) = v ↔
      v.toInt % 256 < 128 ∨ -128 ≤ v.toInt ∧ v.toInt < 0 := by
  have h := swapEndian32_eq_reverse_iff (Word.reverse v)
  rw [Word.reverse_reverse, ← Word.msb_eq_false_iff, ← Word.low24_iff, Word.reverse_msb,
    Word.getLsbD_seven_iff, Word.reverse_low24_iff] at h
  rw [h]
  omega

/-- Ints exchanged with a client of the opposite byte order. A request parameter arrives
as it was sent unless its lowest octet has its top bit set (the ints from -128 to -1
excepted); a reply is read as it was meant unless it is a negative int whose low octets
are not all ones. -/
theorem opposite_order_exact_iff (m : Mem) (off : ℕ) (v : Word) :
    (maybeSwap32 true (Mem.int (store m off (Word.octets v).reverse) off) = v ↔
      v.toInt % 256 < 128 ∨ -128 ≤ v.toInt ∧ v.toInt < 0) ∧
    (Mem.intOpposite (store m off (Word.octets (maybeSwap32 true v))) off = v ↔
      0 ≤ v.toInt ∨ v.toInt % 2 ^ 24 = 2 ^ 24 - 1) ∧
    (swapEndian32 v = Word.reverse v ↔ 0 ≤ v.toInt ∨ v.toInt % 2 ^ 24 = 2 ^ 24 - 1) ∧
    (swapEndian32 (swapEndian32 v) = v ↔
      v.toInt = -1 ∨ 0 ≤ v.toInt ∧ v.toInt % 256 < 128) := by
  have harrived : Mem.int (store m off (Word.octets v).reverse) off = Word.reverse v := by
    rw [← Word.reverse_reverse (Mem.int _ _), ← Word.intOpposite_eq_reverse,
      Word.intOpposite_store_reverse]
  refine ⟨?_, ?_, swapEndian32_eq_reverse_iff v, swapEndian32_involutive_iff v⟩
  · rw [harrived]
    exact swapEndian32_reverse_eq_iff v
  · rw [Word.intOpposite_eq_reverse, Word.int_store_octets, ← swapEndian32_eq_reverse_iff v]
    constructor
    · intro h
      rw [← Word.reverse_reverse (swapEndian32 v)]
      exact congrArg Word.reverse h
    · intro h
      change Word.reverse (swapEndian32 v) = v
      rw [h, Word.reverse_reverse]

/-- A volume of 200 sent by a client of the opposite byte order is taken for -56. -/
theorem opposite_order_volume_200 :
    maybeSwap32 true (Mem.int (store (fun _ => 0) 0 (Word.octets 200#32).reverse) 0) ≠ 200#32 ∧
      (maybeSwap32 true
        (Mem.int (store (fun _ => 0) 0 (Word.octets 200#32).reverse) 0)).toInt = -56 := by
  decide

end Esound
