import Mathlib.Tactic.Common

/-!
# Delivery in pieces

A buffer is handed over in pieces, each from where the one before it ended. How a loop comes to
its pieces is left to the loop.
-/

namespace Library.Delivery

variable {β : Type*}

/-- The pieces that were taken are the buffer up to a position. -/
structure Delivered (buffer : List β) (pieces : List (List β)) (pos : ℕ) : Prop where
  le : pos ≤ buffer.length
  taken : pieces.flatten = buffer.take pos

variable {buffer : List β} {pieces : List (List β)} {pos n : ℕ}

theorem Delivered.start (buffer : List β) : Delivered buffer [] 0 := ⟨Nat.zero_le _, rfl⟩

theorem Delivered.accept (h : Delivered buffer pieces pos) (hn : n ≤ buffer.length - pos) :
    Delivered buffer (pieces ++ [(buffer.drop pos).take n]) (pos + n) where
  le := by
    have hle := h.le
    omega
  taken := by
    rw [List.flatten_append, h.taken, List.flatten_singleton, List.take_add]

theorem Delivered.isPrefix (h : Delivered buffer pieces pos) : pieces.flatten <+: buffer := by
  rw [h.taken]
  exact List.take_prefix _ _

theorem Delivered.length (h : Delivered buffer pieces pos) : pieces.flatten.length = pos := by
  rw [h.taken, List.length_take, Nat.min_eq_left h.le]

theorem Delivered.whole_iff (h : Delivered buffer pieces pos) :
    pieces.flatten = buffer ↔ pos = buffer.length := by
  constructor
  · intro hall
    rw [← h.length, hall]
  · rintro rfl
    rw [h.taken, List.take_length]

end Library.Delivery
