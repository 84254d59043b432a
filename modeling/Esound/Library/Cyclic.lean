import Esound.Library.Buffer

/-!
# Reading round and round

The cells of an area, taken from some offset on, and from its start again whenever its
length is reached. A reader that takes the same number of cells every time comes to
the end of the area exactly after the multiples of a certain number of rounds.
-/

open Library.Buffer

namespace Library.Cyclic

variable {α : Type*}

def cyclic (m : ℕ → α) (len off n : ℕ) : List α := (List.range n).map fun i => m ((off + i) % len)

variable (m : ℕ → α) (len off : ℕ)

@[simp] theorem cyclic_length (n : ℕ) : (cyclic m len off n).length = n := by simp [cyclic]

@[simp] theorem cyclic_zero : cyclic m len off 0 = [] := rfl

theorem cyclic_add (k l : ℕ) :
    cyclic m len off (k + l) = cyclic m len off k ++ cyclic m len (off + k) l := by
  simp only [cyclic, List.range_add, List.map_append, List.map_map]
  congr 1
  apply List.map_congr_left
  intro i _
  simp only [Function.comp_apply, Nat.add_assoc]

theorem cyclic_congr {off off' : ℕ} (h : off % len = off' % len) (n : ℕ) :
    cyclic m len off n = cyclic m len off' n := by
  apply List.map_congr_left
  intro i _
  rw [Nat.add_mod, h, ← Nat.add_mod]

theorem load_eq_cyclic {n : ℕ} (h : off + n ≤ len) : load m off n = cyclic m len off n := by
  apply List.map_congr_left
  intro i hi
  have hlt := List.mem_range.mp hi
  rw [Nat.mod_eq_of_lt (by omega)]
  congr 1

section Rounds

variable {len b : ℕ}

theorem dvd_rounds_iff (hlen : 0 < len) (k : ℕ) : len ∣ k * b ↔ len / Nat.gcd len b ∣ k := by
  obtain ⟨g, hg⟩ : ∃ g, Nat.gcd len b = g := ⟨_, rfl⟩
  have hpos : 0 < g := hg ▸ Nat.gcd_pos_of_pos_left b hlen
  have hl : len = g * (len / g) := (Nat.mul_div_cancel' (hg ▸ Nat.gcd_dvd_left len b)).symm
  have hb : b = g * (b / g) := (Nat.mul_div_cancel' (hg ▸ Nat.gcd_dvd_right len b)).symm
  have hcop : Nat.Coprime (len / g) (b / g) := by
    have h := Nat.coprime_div_gcd_div_gcd (m := len) (n := b) (by rwa [hg])
    rwa [hg] at h
  rw [hg]
  calc len ∣ k * b ↔ g * (len / g) ∣ g * (k * (b / g)) := by
        rw [← hl, mul_left_comm, ← hb]
    _ ↔ len / g ∣ k * (b / g) := Nat.mul_dvd_mul_iff_left hpos
    _ ↔ len / g ∣ k := hcop.dvd_mul_right

theorem rounds_pos (hlen : 0 < len) : 0 < len / Nat.gcd len b :=
  Nat.div_pos (Nat.le_of_dvd hlen (Nat.gcd_dvd_left len b)) (Nat.gcd_pos_of_pos_left b hlen)

theorem round_ends_iff (hb : 0 < b) (hle : b ≤ len) {k : ℕ} (hk : k < len / Nat.gcd len b) :
    k * b % len + b = len ↔ k + 1 = len / Nat.gcd len b := by
  have hlen : 0 < len := hb.trans_le hle
  have hlt := Nat.mod_lt (k * b) hlen
  have hdvd : len ∣ (k + 1) * b ↔ len ∣ k * b % len + b := by
    rw [Nat.dvd_iff_mod_eq_zero, Nat.dvd_iff_mod_eq_zero, add_mul, one_mul, Nat.mod_add_mod]
  constructor
  · intro h
    have hmul : len / Nat.gcd len b ∣ k + 1 := by
      rw [← dvd_rounds_iff hlen, hdvd, h]
    have hle' := Nat.le_of_dvd (Nat.succ_pos k) hmul
    omega
  · intro h
    have hmul : len ∣ k * b % len + b := by
      rw [← hdvd, dvd_rounds_iff hlen, h]
    obtain ⟨c, hc⟩ := hmul
    have hone : c = 1 := by
      have hpos : 0 < c := by
        rcases Nat.eq_zero_or_pos c with rfl | hpos
        · rw [mul_zero] at hc
          omega
        · exact hpos
      have htwo : c < 2 := by
        by_contra hge
        have := Nat.mul_le_mul_left len (not_lt.mp hge)
        omega
      omega
    rw [hc, hone, mul_one]

end Rounds

end Library.Cyclic
