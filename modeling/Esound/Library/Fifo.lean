import Mathlib.Tactic.Common

/-!
# First in, first out

What goes into a queue comes out in the same order: between two moments, what was in the
queue before and what came in since is what went out since and what is in it now.
-/

namespace Library.Fifo

variable {α : Type*}

def Moves (before arrived left after : List α) : Prop := before ++ arrived = left ++ after

namespace Moves

variable {a b c i i' o o' : List α}

theorem refl (a : List α) : Moves a [] [] a := by simp [Moves]

theorem trans (h : Moves a i o b) (h' : Moves b i' o' c) : Moves a (i ++ i') (o ++ o') c := by
  unfold Moves at *
  rw [← List.append_assoc, h, List.append_assoc, h', List.append_assoc]

theorem arrive (a i : List α) : Moves a i [] (a ++ i) := by simp [Moves]

theorem leave (o b : List α) : Moves (o ++ b) [] o b := by simp [Moves]

end Moves

/-! ## Queues by their logs -/

variable {σ : Type*} {arrived passed left contents contents' : σ → List α} {s t u : σ}

/-- Between the two states the contents were a queue, from what one log says to what the other
does. -/
def Conveys (arrived left contents : σ → List α) (s t : σ) : Prop :=
  ∃ i o, arrived t = arrived s ++ i ∧ left t = left s ++ o ∧ Moves (contents s) i o (contents t)

namespace Conveys

theorem still (harrived : arrived t = arrived s) (hleft : left t = left s)
    (hcontents : contents t = contents s) : Conveys arrived left contents s t := by
  refine ⟨[], [], by rw [harrived, List.append_nil], by rw [hleft, List.append_nil], ?_⟩
  rw [hcontents]
  exact .refl _

theorem refl (s : σ) : Conveys arrived left contents s s := still rfl rfl rfl

theorem trans (h : Conveys arrived left contents s t) (h' : Conveys arrived left contents t u) :
    Conveys arrived left contents s u := by
  obtain ⟨i, o, hi, ho, hmoves⟩ := h
  obtain ⟨i', o', hi', ho', hmoves'⟩ := h'
  exact ⟨i ++ i', o ++ o', by rw [hi', hi, List.append_assoc], by rw [ho', ho, List.append_assoc],
    hmoves.trans hmoves'⟩

end Conveys

end Library.Fifo
