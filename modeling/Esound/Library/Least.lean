import Mathlib.Data.List.Perm.Basic
import Mathlib.Order.Bounds.Basic
import Mathlib.Tactic.Common

/-!
# A running minimum without a start

A loop that looks for the least of some values has to begin with something. Where one value
stands for *none yet*, the loop forgets what it has seen when that value comes up; whether it
still finds the least of the values, and finds the same in every order of them, depends on
what that value is among them.
-/

namespace Library.Least

variable {α : Type*} [LinearOrder α]

/-- One round, `none` standing for no value yet. -/
def leastOf (none m t : α) : α := if m = none then t else if m > t then t else m

theorem exists_least {ts : List α} (h : ts ≠ []) : ∃ v ∈ ts, ∀ t ∈ ts, v ≤ t := by
  induction ts with
  | nil => exact absurd rfl h
  | cons t ts ih =>
    rcases ts.eq_nil_or_concat with rfl | ⟨_, _, hts⟩
    · exact ⟨t, by simp, by simp⟩
    · obtain ⟨v, hv, hle⟩ := ih (by simp [hts])
      rcases le_total t v with htv | hvt
      · refine ⟨t, List.mem_cons_self, fun x hx => ?_⟩
        rcases List.mem_cons.mp hx with rfl | hx
        · exact le_rfl
        · exact htv.trans (hle x hx)
      · refine ⟨v, List.mem_cons_of_mem _ hv, fun x hx => ?_⟩
        rcases List.mem_cons.mp hx with rfl | hx
        · exact hvt
        · exact hle x hx

section Fold

variable {none v m : α} {ts : List α}

theorem leastOf_lower (hm : m = none ∨ v ≤ m) {t : α} (ht : v ≤ t) : v ≤ leastOf none m t := by
  simp only [leastOf]
  split_ifs with hnone hgt
  · exact ht
  · exact ht
  · exact hm.resolve_left hnone

theorem leastOf_self (hm : m = none ∨ v ≤ m) : leastOf none m v = v := by
  simp only [leastOf]
  split_ifs with hnone hgt
  · rfl
  · rfl
  · exact le_antisymm (not_lt.mp hgt) (hm.resolve_left hnone)

/-- A least value that is found stays, unless it is the one that stands for none. -/
theorem foldl_stays (hv : v ≠ none) (hle : ∀ t ∈ ts, v ≤ t) : ts.foldl (leastOf none) v = v := by
  induction ts with
  | nil => rfl
  | cons t ts ih =>
    have hstep : leastOf none v t = v := by
      simp [leastOf, hv, hle t List.mem_cons_self]
    rw [List.foldl_cons, hstep]
    exact ih fun x hx => hle x (List.mem_cons_of_mem _ hx)

theorem foldl_finds (hv : v ≠ none) (hmem : v ∈ ts) (hle : ∀ t ∈ ts, v ≤ t)
    (hm : m = none ∨ v ≤ m) : ts.foldl (leastOf none) m = v := by
  induction ts generalizing m with
  | nil => simp at hmem
  | cons t ts ih =>
    have hrest : ∀ x ∈ ts, v ≤ x := fun x hx => hle x (List.mem_cons_of_mem _ hx)
    rw [List.foldl_cons]
    rcases List.mem_cons.mp hmem with rfl | hlater
    · rw [leastOf_self hm]
      exact foldl_stays hv hrest
    · exact ih hlater hrest (.inr (leastOf_lower hm (hle t List.mem_cons_self)))

theorem foldl_none (h : ∀ t ∈ ts, t = none) : ts.foldl (leastOf none) none = none := by
  induction ts with
  | nil => rfl
  | cons t ts ih =>
    rw [List.foldl_cons, h t List.mem_cons_self]
    simp only [leastOf, if_true]
    exact ih fun x hx => h x (List.mem_cons_of_mem _ hx)

theorem foldl_least (hmem : v ∈ ts) (hle : ∀ t ∈ ts, v ≤ t) (hv : v ≠ none ∨ ∀ t ∈ ts, t = none) :
    ts.foldl (leastOf none) none = v := by
  by_cases hnone : v = none
  · have hall := hv.resolve_left fun h => h hnone
    rw [foldl_none hall, hnone]
  · exact foldl_finds hnone hmem hle (.inl rfl)

theorem foldl_lower (hm : m = none ∨ v ≤ m) (hne : ts ≠ []) (hle : ∀ t ∈ ts, v ≤ t) :
    v ≤ ts.foldl (leastOf none) m := by
  induction ts generalizing m with
  | nil => exact absurd rfl hne
  | cons t ts ih =>
    rw [List.foldl_cons]
    have hstep := leastOf_lower hm (hle t List.mem_cons_self)
    cases ts with
    | nil => exact hstep
    | cons x xs =>
      exact ih (.inr hstep) (List.cons_ne_nil _ _) fun y hy => hle y (List.mem_cons_of_mem _ hy)

/-- The value that stands for none, if it comes last and nothing is below it. -/
theorem foldl_none_last (hle : ∀ t ∈ ts, none ≤ t) : (ts ++ [none]).foldl (leastOf none) none = none := by
  rw [List.foldl_append, List.foldl_cons, List.foldl_nil]
  apply leastOf_self
  cases ts with
  | nil => exact .inl rfl
  | cons t ts => exact .inr (foldl_lower (.inl rfl) (List.cons_ne_nil _ _) hle)

theorem foldl_none_first {ns : List α} (hn : ∀ t ∈ ns, t = none) :
    (ns ++ ts).foldl (leastOf none) none = ts.foldl (leastOf none) none := by
  rw [List.foldl_append, foldl_none hn]

end Fold

end Library.Least
