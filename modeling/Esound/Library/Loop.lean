import Mathlib.Tactic

/-!
# Counting loops

`countUp n f a` runs `for (i = 0; i < n; i++) a = f i a`, and `whileFuel` a loop
that is left when its body says so or when its fuel is spent.
-/

namespace Library.Loop

variable {α : Type*}

def countUp : ℕ → (ℕ → α → α) → α → α
  | 0, _, a => a
  | n + 1, f, a => f n (countUp n f a)

/-- The body returns `none` to leave the loop. -/
def whileFuel (body : α → Option α) : ℕ → α → α
  | 0, a => a
  | n + 1, a =>
    match body a with
    | none => a
    | some b => whileFuel body n b

theorem countUp_congr {f g : ℕ → α → α} (n : ℕ) (h : ∀ i < n, ∀ a, f i a = g i a) (a : α) :
    countUp n f a = countUp n g a := by
  induction n with
  | zero => rfl
  | succ n ih =>
    simp only [countUp]
    rw [ih fun i hi => h i (hi.trans (Nat.lt_succ_self n)), h n (Nat.lt_succ_self n)]

theorem countUp_double (f : ℕ → α → α) (n : ℕ) (a : α) :
    countUp (2 * n) f a = countUp n (fun i b => f (2 * i + 1) (f (2 * i) b)) a := by
  induction n with
  | zero => rfl
  | succ n ih =>
    rw [Nat.mul_succ]
    simp only [countUp, ih]

theorem whileFuel_invariant (I : α → Prop) {body : α → Option α}
    (preserved : ∀ a b, I a → body a = some b → I b) (n : ℕ) {a : α} (ha : I a) :
    I (whileFuel body n a) := by
  induction n generalizing a with
  | zero => exact ha
  | succ n ih =>
    simp only [whileFuel]
    cases hb : body a with
    | none => exact ha
    | some b => exact ih (preserved a b ha hb)

theorem whileFuel_related (R : α → α → Prop) (refl : ∀ a, R a a)
    (trans : ∀ a b c, R a b → R b c → R a c) {body : α → Option α}
    (taken : ∀ a b, body a = some b → R a b) (n : ℕ) (a : α) : R a (whileFuel body n a) := by
  induction n generalizing a with
  | zero => exact refl a
  | succ n ih =>
    simp only [whileFuel]
    cases hb : body a with
    | none => exact refl a
    | some b => exact trans _ _ _ (taken a b hb) (ih b)

/-- Fuel beyond a measure that every round makes smaller changes nothing. -/
theorem whileFuel_exits (I : α → Prop) {body : α → Option α} (measure : α → ℕ)
    (preserved : ∀ a b, I a → body a = some b → I b)
    (decreases : ∀ a b, I a → body a = some b → measure b < measure a) (n : ℕ) {a : α}
    (ha : I a) (hn : measure a ≤ n) : body (whileFuel body n a) = none := by
  induction n generalizing a with
  | zero =>
    simp only [whileFuel]
    cases hb : body a with
    | none => rfl
    | some b =>
      have hlt := decreases a b ha hb
      omega
  | succ n ih =>
    simp only [whileFuel]
    cases hb : body a with
    | none => exact hb
    | some b =>
      have hlt := decreases a b ha hb
      exact ih (preserved a b ha hb) (by omega)

theorem whileFuel_exit {body : α → Option α} (measure : α → ℕ)
    (decreases : ∀ a b, body a = some b → measure b < measure a) (n : ℕ) {a : α}
    (hn : measure a ≤ n) : body (whileFuel body n a) = none :=
  whileFuel_exits (fun _ => True) measure (fun _ _ _ _ => trivial)
    (fun a b _ h => decreases a b h) n trivial hn

/-- A loop that takes something off a list in every round, as often as the list is long. -/
theorem whileFuel_drain {β : Type*} {body : α → Option α} (list : α → List β)
    (stop : ∀ a, body a = none → list a = [])
    (decreases : ∀ a b, body a = some b → (list b).length < (list a).length) (a : α) :
    list (whileFuel body (list a).length a) = [] :=
  stop _ (whileFuel_exit (fun a => (list a).length) decreases _ le_rfl)

end Library.Loop
