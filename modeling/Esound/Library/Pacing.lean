import Mathlib.Algebra.Order.Group.Unbundled.Int
import Mathlib.Data.List.Chain
import Mathlib.Tactic.Linarith
import Mathlib.Tactic.Ring

/-!
# Work in whole units at the pace of a clock

Work falls due at a steady rate and is done in whole units, at irregular times. At each of them the
units that are due since a reference time are done, and if there are any, the reference time
moves up: what is due beyond the whole units is left out for good. What is left out that way adds
up, over the times, to exactly what the work done falls behind the clock.
-/

namespace Library.Pacing

/-- The reference time, and the units done. -/
structure Pace where
  since : ℤ
  units : ℤ

section Pacing

variable (rate unit : ℤ)

def Pace.due (p : Pace) (t : ℤ) : ℤ := rate * (t - p.since) / unit

def Pace.tick (p : Pace) (t : ℤ) : Pace :=
  if 0 < p.due rate unit t then ⟨t, p.units + p.due rate unit t⟩ else p

/-- What is due at the last time and never was part of a whole unit. -/
def leftover (since now : ℤ) : List ℤ → ℤ
  | [] => rate * (now - since)
  | t :: ts =>
    if unit ≤ rate * (t - since) then rate * (t - since) % unit + leftover t t ts
    else leftover since t ts

/-- No time is before the one before it, and between two of them no more than `most` falls due. -/
def Unhurried (most : ℤ) : List ℤ → Prop :=
  List.IsChain fun t u => t ≤ u ∧ rate * (u - t) ≤ most

variable {rate unit} {p : Pace} {now t most : ℤ} {ts : List ℤ}

theorem due_pos_iff (hunit : 0 < unit) : 0 < p.due rate unit t ↔ unit ≤ rate * (t - p.since) := by
  have hdue := Int.le_ediv_iff_mul_le (a := 1) (b := rate * (t - p.since)) hunit
  rw [one_mul] at hdue
  exact hdue

/-- What is due at the last time is the units that were done and what was left out. -/
theorem ticks_worth (hunit : 0 < unit) (p : Pace) (now : ℤ) (ts : List ℤ) :
    unit * ((ts.foldl (Pace.tick rate unit) p).units - p.units) + leftover rate unit p.since now ts =
      rate * (ts.getLastD now - p.since) := by
  induction ts generalizing p now with
  | nil => simp [leftover]
  | cons t ts ih =>
    have hrest := ih (p.tick rate unit t) t
    rw [List.foldl_cons, List.getLastD_cons, leftover]
    by_cases hdue : unit ≤ rate * (t - p.since)
    · have hticked : p.tick rate unit t = ⟨t, p.units + p.due rate unit t⟩ :=
        if_pos ((due_pos_iff hunit).mpr hdue)
      have hdivision := Int.mul_ediv_add_emod (rate * (t - p.since)) unit
      rw [hticked] at hrest ⊢
      rw [if_pos hdue]
      simp only [Pace.due] at hrest ⊢
      linarith
    · have hticked : p.tick rate unit t = p := if_neg fun h => hdue ((due_pos_iff hunit).mp h)
      rw [hticked] at hrest ⊢
      rw [if_neg hdue, hrest]

theorem leftover_nonneg (hrate : 0 ≤ rate) (hunit : 0 < unit) {since : ℤ} (hsince : since ≤ now)
    (hts : Unhurried rate most (now :: ts)) : 0 ≤ leftover rate unit since now ts := by
  induction ts generalizing since now with
  | nil => exact mul_nonneg hrate (by omega)
  | cons t ts ih =>
    obtain ⟨⟨hle, -⟩, hrest⟩ := List.isChain_cons_cons.mp hts
    rw [leftover]
    split_ifs
    · exact add_nonneg (Int.emod_nonneg _ hunit.ne') (ih le_rfl hrest)
    · exact ih (hsince.trans hle) hrest

/-- The work keeps to the clock within a unit exactly if less than a unit was left out. -/
theorem within_unit_iff (hrate : 0 ≤ rate) (hunit : 0 < unit) (hsince : p.since ≤ now)
    (hts : Unhurried rate most (now :: ts)) :
    |unit * ((ts.foldl (Pace.tick rate unit) p).units - p.units) - rate * (ts.getLastD now - p.since)|
        < unit ↔ leftover rate unit p.since now ts < unit := by
  have hworth := @ticks_worth rate unit hunit p now ts
  have hnonneg := leftover_nonneg hrate hunit hsince hts
  rw [abs_lt]
  constructor
  · rintro ⟨hbehind, -⟩
    linarith
  · intro hleft
    constructor <;> linarith

theorem tick_pending (hunit : 0 < unit) (ht : p.since ≤ t) :
    (p.tick rate unit t).since ≤ t ∧ rate * (t - (p.tick rate unit t).since) < unit := by
  by_cases hdue : unit ≤ rate * (t - p.since)
  · have hticked : p.tick rate unit t = ⟨t, p.units + p.due rate unit t⟩ :=
      if_pos ((due_pos_iff hunit).mpr hdue)
    rw [hticked, sub_self, mul_zero]
    exact ⟨le_rfl, hunit⟩
  · have hticked : p.tick rate unit t = p := if_neg fun h => hdue ((due_pos_iff hunit).mp h)
    rw [hticked]
    exact ⟨ht, not_le.mp hdue⟩

end Pacing

end Library.Pacing
