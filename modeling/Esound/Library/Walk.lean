import Mathlib.Data.List.Nodup
import Mathlib.Data.List.TakeWhile
import Mathlib.Tactic.Common

/-!
# Walking a linked list that changes

The loops over linked lists here look up the successor of an element after its turn and before
the element itself is taken off. Such a walk visits what was listed at the start, each element
once, if no turn touches what is still ahead.
-/

namespace Library.Walk

variable {α σ τ : Type*} [DecidableEq α]

/-- The `next` of an element. -/
def after (l : List α) (a : α) : Option α := (l.dropWhile (· ≠ a)).tail.head?

theorem after_append_cons {before rest : List α} {a : α} (h : a ∉ before) :
    after (before ++ a :: rest) a = rest.head? := by
  have hdrop : (before ++ a :: rest).dropWhile (· ≠ a) = a :: rest := by
    induction before with
    | nil => simp
    | cons b before ih =>
      have hb : b ≠ a := fun he => h (he ▸ List.mem_cons_self)
      simpa [hb] using ih fun ha => h (List.mem_cons_of_mem _ ha)
  simp only [after, hdrop, List.tail_cons]

theorem mem_of_after {l : List α} {a b : α} (h : after l a = some b) : b ∈ l :=
  (List.dropWhile_sublist _).subset (List.mem_of_mem_tail (List.mem_of_mem_head? h))

theorem after_ne {l : List α} {a b : α} (distinct : l.Nodup) (h : after l a = some b) : b ≠ a := by
  by_cases ha : a ∈ l
  · obtain ⟨before, rest, rfl⟩ := List.append_of_mem ha
    have hsplit := List.nodup_append.mp distinct
    have hbefore : a ∉ before := fun hmem =>
      hsplit.2.2 a hmem a List.mem_cons_self rfl
    rw [after_append_cons hbefore] at h
    rintro rfl
    exact (List.nodup_cons.mp hsplit.2.1).1 (List.mem_of_mem_head? h)
  · have hnil : l.dropWhile (· ≠ a) = [] :=
      List.dropWhile_eq_nil_iff.mpr fun x hx => by
        simpa using fun he : x = a => ha (he ▸ hx)
    simp only [after, hnil, List.tail_nil, List.head?_nil] at h
    cases h

/-- The walk: `turn` is what happens to an element, `next` is looked up in what its turn has
left, and `leave` takes the element off where its turn says so. -/
def walk (turn : σ → α → Option τ) (next : τ → α → Option α) (leave : τ → α → σ) :
    ℕ → Option α → σ → Option σ
  | _, none, s => some s
  | 0, some _, _ => none
  | n + 1, some a, s => (turn s a).bind fun t => walk turn next leave n (next t a) (leave t a)

variable {turn : σ → α → Option τ} {next : τ → α → Option α} {leave : τ → α → σ}

omit [DecidableEq α] in
/-- `Ahead s rest`: what is still to be visited in `s` is `rest`. -/
theorem walk_eq_foldlM (Ahead : σ → List α → Prop)
    (passed : ∀ s a t rest, Ahead s (a :: rest) → turn s a = some t →
      next t a = rest.head? ∧ Ahead (leave t a) rest)
    (as : List α) {s : σ} (h : Ahead s as) :
    walk turn next leave as.length as.head? s =
      as.foldlM (fun s a => (turn s a).map fun t => leave t a) s := by
  induction as generalizing s with
  | nil => rfl
  | cons a as ih =>
    simp only [List.length_cons, List.head?_cons, walk, List.foldlM_cons]
    cases ht : turn s a with
    | none => rfl
    | some t =>
      obtain ⟨hnext, hrest⟩ := passed s a t as h ht
      simp only [Option.bind_some, Option.map_some, Option.bind_eq_bind, hnext]
      exact ih hrest

end Library.Walk
