import Mathlib.Data.List.Nodup
import Mathlib.Tactic.Common

/-!
# What is left of what was added

A history lists what was added, the latest first, under keys none of which is used twice.
Whatever has been taken away since, the rest is a sublist, and the keys that are left say
which: so that a search through the rest is a search through the history for what is left.
-/

namespace Library.History

variable {κ α : Type*} [DecidableEq κ]

/-- The latest entry of the history that is left and has the property. -/
def latest (p : α → Prop) [DecidablePred p] (left : List κ) (history : List (κ × α)) : Option (κ × α) :=
  history.find? fun e => e.1 ∈ left ∧ p e.2

theorem filter_left {rest history : List (κ × α)} (h : rest.Sublist history)
    (keys : (history.map Prod.fst).Nodup) :
    history.filter (fun e => e.1 ∈ rest.map Prod.fst) = rest := by
  induction h with
  | slnil => rfl
  | @cons l₁ l₂ e h ih =>
    rw [List.map_cons, List.nodup_cons] at keys
    have hgone : e.1 ∉ l₁.map Prod.fst := fun he => keys.1 ((h.map Prod.fst).subset he)
    rw [List.filter_cons_of_neg (by simpa using hgone)]
    exact ih keys.2
  | @cons_cons l₁ l₂ e h ih =>
    rw [List.map_cons, List.nodup_cons] at keys
    have hother : l₂.filter (fun x => x.1 ∈ (e :: l₁).map Prod.fst) =
        l₂.filter (fun x => x.1 ∈ l₁.map Prod.fst) := by
      refine List.filter_congr fun x hx => ?_
      have hne : x.1 ≠ e.1 := fun he => keys.1 (he ▸ List.mem_map_of_mem hx)
      simp [hne]
    rw [List.filter_cons_of_pos (by simp), hother, ih keys.2]

/-- The first hit among the rest is the latest addition that is left. -/
theorem latest_eq_find? (p : α → Prop) [DecidablePred p] {rest history : List (κ × α)}
    (h : rest.Sublist history) (keys : (history.map Prod.fst).Nodup) :
    latest p (rest.map Prod.fst) history = rest.find? fun e => p e.2 := by
  have hrest := congrArg (List.find? fun e => decide (p e.2)) (filter_left h keys)
  rw [← hrest, List.find?_filter]
  simp [latest]

end Library.History
