import Mathlib.Data.List.Count
import Mathlib.Tactic.Common

/-!
# Counted references

A list of holders, each of which may refer to one object. The reference count of an
object is the number of its holders; what a list operation does to the count is said
here once for all objects.
-/

namespace Library.References

variable {P Q : Type*} [DecidableEq P] [DecidableEq Q]

def references (target : P → Option Q) (ps : List P) (q : Q) : ℕ :=
  ps.countP fun p => target p = some q

/-- All holders, whatever they refer to. -/
def holders (target : P → Option Q) (ps : List P) : ℕ :=
  ps.countP fun p => (target p).isSome

variable {target target' : P → Option Q} {ps : List P} {p : P} {q : Q}

section Steps

variable (target) (ps)

omit [DecidableEq P] in
theorem references_cons : references target (p :: ps) q =
    references target ps q + if target p = some q then 1 else 0 := by
  unfold references
  rw [List.countP_cons]
  by_cases h : target p = some q <;> simp [h]

omit [DecidableEq P] [DecidableEq Q] in
theorem holders_cons : holders target (p :: ps) =
    holders target ps + if (target p).isSome then 1 else 0 := by
  unfold holders
  rw [List.countP_cons]

theorem countP_erase_add {ps : List P} {f : P → Bool} (h : p ∈ ps) :
    (ps.erase p).countP f + (if f p then 1 else 0) = ps.countP f := by
  rw [List.countP_erase]
  cases hf : f p with
  | false => simp
  | true =>
    have hpos : 0 < ps.countP f := List.countP_pos_iff.mpr ⟨p, h, hf⟩
    simp only [h, and_self, if_true]
    omega

variable {ps}

theorem references_erase (h : p ∈ ps) :
    references target (ps.erase p) q + (if target p = some q then 1 else 0) =
      references target ps q := by
  have hcount := countP_erase_add (f := fun p => target p = some q) h
  simpa only [references, decide_eq_true_eq] using hcount

omit [DecidableEq Q] in
theorem holders_erase (h : p ∈ ps) :
    holders target (ps.erase p) + (if (target p).isSome then 1 else 0) = holders target ps :=
  countP_erase_add h

end Steps

omit [DecidableEq P] in
theorem references_congr (h : ∀ p ∈ ps, target p = target' p) :
    references target ps q = references target' ps q :=
  List.countP_congr fun p hp => by rw [h p hp]

omit [DecidableEq P] [DecidableEq Q] in
theorem holders_congr (h : ∀ p ∈ ps, target p = target' p) :
    holders target ps = holders target' ps :=
  List.countP_congr fun p hp => by rw [h p hp]

omit [DecidableEq P] in
theorem references_eq_zero : references target ps q = 0 ↔ ∀ p ∈ ps, target p ≠ some q := by
  simp [references]

end Library.References
