import Mathlib.Data.List.Induction

/-!
# Settings that override each other

Changes are made to a record one after the other. A change sets some of the fields to values of
its own and passes the others on. A field then has the value of the last change that sets it.
-/

namespace Library.Override

variable {σ γ ι : Type*} {V : ι → Type*}

/-- `sets i c` says which fields a change sets. -/
structure Lawful (apply : γ → σ → σ) (get : ∀ i, σ → V i) (sets : ι → γ → Bool) : Prop where
  overrides : ∀ {i c}, sets i c = true → ∀ s s', get i (apply c s) = get i (apply c s')
  passes : ∀ {i c}, sets i c = false → ∀ s, get i (apply c s) = get i s

/-- The last of the changes that sets the field. -/
def lastFor (sets : ι → γ → Bool) (i : ι) (cs : List γ) : Option γ := cs.reverse.find? (sets i)

variable {apply : γ → σ → σ} {get : ∀ i, σ → V i} {sets : ι → γ → Bool} {i : ι}

theorem lastFor_append (cs cs' : List γ) :
    lastFor sets i (cs ++ cs') = (lastFor sets i cs').or (lastFor sets i cs) := by
  simp only [lastFor, List.reverse_append, List.find?_append]

/-- What the field is after all of them, whatever record `base` shows what the last one sets. -/
theorem Lawful.get_foldl (h : Lawful apply get sets) (base : σ) (cs : List γ) (s : σ) :
    get i (cs.foldl (fun s c => apply c s) s) =
      (lastFor sets i cs).elim (get i s) fun c => get i (apply c base) := by
  induction cs using List.reverseRecOn generalizing s with
  | nil => rfl
  | append_singleton cs c ih =>
    rw [List.foldl_append, List.foldl_cons, List.foldl_nil, lastFor_append]
    cases hsets : sets i c with
    | true =>
      have hlast : lastFor sets i [c] = some c := by simp [lastFor, hsets]
      rw [hlast]
      exact h.overrides hsets _ base
    | false =>
      have hlast : lastFor sets i [c] = none := by simp [lastFor, hsets]
      rw [hlast, h.passes hsets, ih]
      rfl

end Library.Override
