import Mathlib.Data.List.Range
import Mathlib.Tactic.Common
import Mathlib.Tactic.Linarith
import Mathlib.Tactic.Ring

/-!
# One rate from another by taking the nearest frame before

At a destination rate `a` the `k`-th frame is taken from the source frame `k * r / a`, where
`r` is the rate of the source. How many frames a source has to give, how far it has been read
after so many, and that nothing is left out if the source is not the faster one.
-/

namespace Library.Resampling

variable {r a : ℕ}

/-- The source frame behind a destination frame. -/
def sourceAt (r a k : ℕ) : ℕ := k * r / a

/-- As many destination frames as a source of so many frames can give. -/
def available (r a frames : ℕ) : ℕ := (frames * a + r - 1) / r

/-- The source frames behind the first so many destination frames. -/
def sources (r a n : ℕ) : List ℕ := (List.range n).map (sourceAt r a)

/-- From each frame to the next one, nothing is left out and nothing comes again later. -/
def Steady (ns : List ℕ) : Prop := ns.IsChain fun m n => n = m ∨ n = m + 1

theorem double_div_two (k : ℕ) : 2 * k * r / a / 2 = sourceAt r a k := by
  rw [sourceAt, Nat.div_div_eq_div_mul, Nat.mul_assoc, Nat.mul_comm a 2,
    Nat.mul_div_mul_left _ _ Nat.two_pos]

theorem sourceAt_mono {k k' : ℕ} (h : k ≤ k') : sourceAt r a k ≤ sourceAt r a k' :=
  Nat.div_le_div_right (Nat.mul_le_mul_right r h)

theorem sourceAt_lt {k frames : ℕ} (hr : 0 < r) (hk : k < available r a frames) :
    sourceAt r a k < frames := by
  rw [available, Nat.lt_iff_add_one_le, Nat.le_div_iff_mul_le hr, add_mul, one_mul] at hk
  apply Nat.div_lt_of_lt_mul
  rw [Nat.mul_comm a]
  omega

theorem sourceAt_le {n frames : ℕ} (hr : 0 < r) (hle : r ≤ a) (hn : n ≤ available r a frames) :
    sourceAt r a n ≤ frames := by
  rw [available, Nat.le_div_iff_mul_le hr] at hn
  have hlt : n * r < a * (frames + 1) := by
    rw [mul_add, mul_one, Nat.mul_comm a]
    omega
  exact Nat.lt_succ_iff.mp (Nat.div_lt_of_lt_mul hlt)

theorem sourceAt_succ (hle : r ≤ a) (k : ℕ) :
    sourceAt r a (k + 1) = sourceAt r a k ∨ sourceAt r a (k + 1) = sourceAt r a k + 1 := by
  have hlow : k * r / a ≤ (k * r + r) / a := Nat.div_le_div_right (Nat.le_add_right _ _)
  have hhigh : (k * r + r) / a ≤ k * r / a + 1 := by
    rcases Nat.eq_zero_or_pos a with rfl | ha
    · simp
    · rw [← Nat.add_div_right _ ha]
      exact Nat.div_le_div_right (by omega)
  simp only [sourceAt, add_mul, one_mul]
  omega

/-- Every source frame before the one that is next has been taken. -/
theorem exists_sourceAt {n m : ℕ} (hle : r ≤ a) (h : m < sourceAt r a n) :
    ∃ k < n, sourceAt r a k = m := by
  induction n with
  | zero => simp [sourceAt] at h
  | succ n ih =>
    rcases Nat.lt_or_ge m (sourceAt r a n) with hlt | hge
    · obtain ⟨k, hk, hm⟩ := ih hlt
      exact ⟨k, hk.trans (Nat.lt_succ_self n), hm⟩
    · have hstep := sourceAt_succ hle n
      exact ⟨n, Nat.lt_succ_self n, by omega⟩

/-- The next source frame is the last one that was taken or the one behind it. -/
theorem last_sourceAt {n : ℕ} (hle : r ≤ a) (hn : 0 < n) :
    sourceAt r a n = sourceAt r a (n - 1) ∨ sourceAt r a n = sourceAt r a (n - 1) + 1 := by
  have hstep := sourceAt_succ hle (n - 1)
  rwa [Nat.sub_add_cancel hn] at hstep

/-- The frames of one stretch, counted from where the stretch begins. -/
theorem steady_sources (hle : r ≤ a) (start n : ℕ) : Steady ((sources r a n).map (start + ·)) := by
  rw [Steady, sources, List.map_map, List.isChain_map, List.isChain_range]
  intro k _
  have hstep := sourceAt_succ hle k
  simp only [Function.comp_apply, Nat.succ_eq_add_one]
  omega

/-- A stretch that begins where the one before ended, or with the frame that one ended on. -/
theorem Steady.append_sources {ns : List ℕ} {start n : ℕ} (h : Steady ns) (hle : r ≤ a)
    (hlast : ∀ m ∈ ns.getLast?, start = m ∨ start = m + 1) :
    Steady (ns ++ (sources r a n).map (start + ·)) := by
  refine List.IsChain.append h (steady_sources hle start n) fun x hx y hy => ?_
  cases n with
  | zero => simp [sources] at hy
  | succ n =>
    have hfirst : y = start := by
      simpa [sources, List.range_succ_eq_map, sourceAt, eq_comm] using hy
    rw [hfirst]
    exact hlast x hx

end Library.Resampling
