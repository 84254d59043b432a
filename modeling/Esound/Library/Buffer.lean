import Mathlib.Tactic

/-!
# Memory areas as functions of an offset

An area is a function from offsets to cells; how many of its cells were
allocated is for its user to know. `store` puts a block at a signed offset.
The cells of the block that fall before the start of the area are lost: they
belong to whatever lies there and the area does not change for them.
-/

namespace Library.Buffer

variable {α : Type*}

def store (m : ℕ → α) (off : ℤ) (block : List α) : ℕ → α :=
  fun i => if off ≤ (i : ℤ) then (block[((i : ℤ) - off).toNat]?).getD (m i) else m i

def load (m : ℕ → α) (off : ℤ) (len : ℕ) : List α :=
  (List.range len).map fun i : ℕ => m (off + i).toNat

/-- `memmove` of `len` cells from `off` to the start of the area. -/
def moveDown (m : ℕ → α) (off : ℤ) (len : ℕ) : ℕ → α :=
  store m 0 (load m off len)

@[simp] theorem load_length (m : ℕ → α) (off : ℤ) (len : ℕ) : (load m off len).length = len := by
  simp [load]

@[simp] theorem load_zero (m : ℕ → α) (off : ℤ) : load m off 0 = [] := rfl

@[simp] theorem store_nil (m : ℕ → α) (off : ℤ) : store m off [] = m := by
  funext i
  simp [store]

theorem store_at (m : ℕ → α) (off : ℕ) (block : List α) {i : ℕ} (hi : i < block.length) :
    store m off block (off + i) = block[i] := by
  simp [store, hi]

theorem store_before (m : ℕ → α) (off : ℤ) (block : List α) {i : ℕ} (hi : (i : ℤ) < off) :
    store m off block i = m i := by
  simp [store, not_le.mpr hi]

theorem store_after (m : ℕ → α) (off : ℤ) (block : List α) {i : ℕ}
    (hi : off + block.length ≤ i) : store m off block i = m i := by
  have hlen : block.length ≤ ((i : ℤ) - off).toNat := by omega
  simp [store, List.getElem?_eq_none hlen]

theorem load_add (m : ℕ → α) (off : ℕ) (k l : ℕ) :
    load m off (k + l) = load m off k ++ load m ((off + k : ℕ) : ℤ) l := by
  simp only [load, List.range_add, List.map_append, List.map_map]
  congr 1
  apply List.map_congr_left
  intro i _
  simp only [Function.comp_apply]
  congr 1
  omega

theorem load_take (m : ℕ → α) (off : ℤ) {k len : ℕ} (h : k ≤ len) :
    (load m off len).take k = load m off k := by
  rw [load, ← List.map_take, List.take_range, min_eq_left h, load]

theorem load_congr {m m' : ℕ → α} {off : ℤ} {len : ℕ}
    (h : ∀ i < len, m (off + i).toNat = m' (off + i).toNat) : load m off len = load m' off len := by
  apply List.map_congr_left
  intro i hi
  exact h i (List.mem_range.mp hi)

theorem load_store_self (m : ℕ → α) (off : ℕ) (block : List α) :
    load (store m off block) off block.length = block := by
  apply List.ext_getElem (by simp)
  intro i h₁ h₂
  have hcell : ((off : ℤ) + i).toNat = off + i := by omega
  simp only [load, List.getElem_map, List.getElem_range, hcell]
  exact store_at m off block h₂

theorem load_store_before (m : ℕ → α) (off len : ℕ) (block : List α) (h : len ≤ off) :
    load (store m off block) 0 len = load m 0 len := by
  apply load_congr
  intro i hi
  exact store_before m off block (by omega)

/-- A block stored right behind the first `off` cells extends them. -/
theorem load_store_append (m : ℕ → α) (off : ℕ) (block : List α) :
    load (store m off block) 0 (off + block.length) = load m 0 off ++ block := by
  have hsplit := load_add (store m off block) 0 off block.length
  rw [Nat.cast_zero, zero_add] at hsplit
  rw [hsplit, load_store_before m off off block le_rfl, load_store_self]

/-- Storing two blocks one behind the other stores their concatenation. -/
theorem store_store (m : ℕ → α) (off : ℕ) (b₁ b₂ : List α) :
    store (store m off b₁) ((off + b₁.length : ℕ) : ℤ) b₂ = store m off (b₁ ++ b₂) := by
  funext i
  by_cases h₁ : i < off
  · rw [store_before _ _ _ (by omega), store_before _ _ _ (by omega), store_before _ _ _ (by omega)]
  · obtain ⟨k, rfl⟩ := Nat.exists_eq_add_of_le (not_lt.mp h₁)
    by_cases h₂ : k < b₁.length
    · rw [store_before _ _ _ (by omega), store_at _ _ _ h₂,
        store_at m off (b₁ ++ b₂) (by rw [List.length_append]; omega), List.getElem_append_left h₂]
    · obtain ⟨l, rfl⟩ := Nat.exists_eq_add_of_le (not_lt.mp h₂)
      by_cases h₃ : l < b₂.length
      · have hcell : off + (b₁.length + l) = off + b₁.length + l := by omega
        rw [store_at m off (b₁ ++ b₂) (by rw [List.length_append]; omega), hcell,
          store_at _ (off + b₁.length) b₂ h₃]
        simp
      · rw [store_after _ _ _ (by omega), store_after _ _ _ (by omega),
          store_after _ _ _ (by rw [List.length_append]; omega)]

theorem load_moveDown (m : ℕ → α) (off len : ℕ) :
    load (moveDown m off len) 0 len = load m off len := by
  have h := load_store_self m 0 (load m off len)
  simpa only [moveDown, load_length, Nat.cast_zero] using h

end Library.Buffer
