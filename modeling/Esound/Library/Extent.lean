import Esound.Library.Buffer
import Esound.Library.Loop

/-!
# How far writing goes

Writing to an area stays within its first cells if every cell behind them is left as it was.
-/

namespace Library.Buffer

variable {α : Type*} {n k : ℕ} {m m' m'' : ℕ → α}

/-- From the one area to the other only some of the first `n` cells were written. -/
def Within (n : ℕ) (m m' : ℕ → α) : Prop := ∀ i, n ≤ i → m' i = m i

namespace Within

theorem refl (m : ℕ → α) : Within n m m := fun _ _ => rfl

theorem trans (h : Within n m m') (h' : Within n m' m'') : Within n m m'' :=
  fun i hi => (h' i hi).trans (h i hi)

theorem mono (hn : n ≤ k) (h : Within n m m') : Within k m m' := fun i hi => h i (hn.trans hi)

theorem update {i : ℕ} (hi : i < n) (m : ℕ → α) (x : α) : Within n m (Function.update m i x) := by
  intro j hj
  have hne : j ≠ i := by omega
  exact Function.update_of_ne hne x m

theorem store {block : List α} (h : block.length ≤ n) (m : ℕ → α) :
    Within n m (store m 0 block) := by
  intro i hi
  exact store_after m 0 block (by omega)

/-- A loop stays within the cells that each of its rounds stays within. -/
theorem countUp {f : ℕ → (ℕ → α) → ℕ → α} {rounds : ℕ}
    (h : ∀ i < rounds, ∀ m, Within n m (f i m)) (m : ℕ → α) :
    Within n m (Loop.countUp rounds f m) := by
  induction rounds with
  | zero => exact refl m
  | succ rounds ih =>
    have hbefore := ih fun i hi => h i (hi.trans (Nat.lt_succ_self rounds))
    exact hbefore.trans (h rounds (Nat.lt_succ_self rounds) _)

end Within

end Library.Buffer
