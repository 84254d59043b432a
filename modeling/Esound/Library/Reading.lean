import Mathlib.Tactic.Common

/-!
# Reading from a stream

A reader takes what it needs off the front of a stream, and fails if there is not enough
of it. `Reads r bs x` says that `r` takes exactly `bs`, whatever comes behind, and makes
`x` of it; this is what composes when readers do.
-/

namespace Library.Reading

variable {β α γ : Type}

abbrev Reader (β α : Type) := StateT (List β) Option α

def take (n : ℕ) : Reader β (List β) := fun bs =>
  if n ≤ bs.length then some (bs.take n, bs.drop n) else none

/-- Rows up to the first that `more` rejects, which is read too; the last row that counts
comes first. The first argument bounds the number of rows. -/
def rows (row : Reader β α) (more : α → Bool) : ℕ → List α → Reader β (List α)
  | 0, _ => fun _ => none
  | n + 1, acc => do
    let x ← row
    if more x then rows row more n (x :: acc) else pure acc

/-- `rows` with a bound that a stream of rows that are not empty cannot exceed. -/
def allRows (row : Reader β α) (more : α → Bool) : Reader β (List α) := fun bs =>
  rows row more (bs.length + 1) [] bs

def Reads (r : Reader β α) (bs : List β) (x : α) : Prop := ∀ rest, r (bs ++ rest) = some (x, rest)

theorem reads_pure (x : α) : Reads (pure x : Reader β α) [] x := fun _ => rfl

theorem reads_take {n : ℕ} {bs : List β} (h : bs.length = n) : Reads (take n) bs bs := by
  intro rest
  simp [take, ← h]

theorem Reads.bind {r : Reader β α} {f : α → Reader β γ} {bs bs' : List β} {x : α} {y : γ}
    (h : Reads r bs x) (h' : Reads (f x) bs' y) : Reads (r >>= f) (bs ++ bs') y := by
  intro rest
  change (r (bs ++ bs' ++ rest) >>= fun p => f p.1 p.2) = some (y, rest)
  rw [List.append_assoc, h]
  exact h' rest

theorem Reads.map {r : Reader β α} {f : α → γ} {bs : List β} {x : α} (h : Reads r bs x) :
    Reads (f <$> r) bs (f x) := by
  intro rest
  change (r (bs ++ rest) >>= fun p => some (f p.1, p.2)) = some (f x, rest)
  rw [h]
  rfl

/-- The rows of `xs`, read one behind the other up to the row that ends them. -/
theorem reads_rows {row : Reader β α} {more : α → Bool} {code : γ → List β} {value : γ → α}
    {last : List β} {y : α} (hlast : Reads row last y) (hstop : more y = false) (xs : List γ)
    (hrow : ∀ x ∈ xs, Reads row (code x) (value x)) (hmore : ∀ x ∈ xs, more (value x) = true)
    {n : ℕ} (hn : xs.length < n) (acc : List α) :
    Reads (rows row more n acc) (xs.flatMap code ++ last) ((xs.map value).reverse ++ acc) := by
  induction xs generalizing n acc with
  | nil =>
    obtain ⟨k, rfl⟩ := Nat.exists_eq_add_one_of_ne_zero (Nat.ne_zero_of_lt hn)
    have hdone : Reads (if more y then rows row more k (y :: acc) else pure acc) [] acc := by
      rw [hstop, if_neg Bool.false_ne_true]
      exact reads_pure acc
    have hend := hlast.bind (f := fun x => if more x then rows row more k (x :: acc) else pure acc)
      hdone
    simpa [rows] using hend
  | cons x xs ih =>
    obtain ⟨k, rfl⟩ := Nat.exists_eq_add_one_of_ne_zero (Nat.ne_zero_of_lt hn)
    have hx := hrow x List.mem_cons_self
    have hrest := ih (fun x' hx' => hrow x' (List.mem_cons_of_mem _ hx'))
      (fun x' hx' => hmore x' (List.mem_cons_of_mem _ hx'))
      (n := k) (by simpa using hn) (value x :: acc)
    have hstep := hx.bind (f := fun x => if more x then rows row more k (x :: acc) else pure acc)
      (by simpa only [hmore x List.mem_cons_self, if_true] using hrest)
    simpa [rows, List.append_assoc] using hstep

theorem reads_allRows {row : Reader β α} {more : α → Bool} {code : γ → List β} {value : γ → α}
    {last : List β} {y : α} (hlast : Reads row last y) (hstop : more y = false) (xs : List γ)
    (hrow : ∀ x ∈ xs, Reads row (code x) (value x)) (hmore : ∀ x ∈ xs, more (value x) = true)
    (hcode : ∀ x ∈ xs, code x ≠ []) :
    Reads (allRows row more) (xs.flatMap code ++ last) (xs.map value).reverse := by
  intro rest
  have hlength : ∀ ys : List γ, (∀ y ∈ ys, code y ≠ []) → ys.length ≤ (ys.flatMap code).length := by
    intro ys
    induction ys with
    | nil => simp
    | cons y ys ih =>
      intro hys
      have hy : 0 < (code y).length := List.length_pos_iff.mpr (hys y List.mem_cons_self)
      have hrest := ih fun z hz => hys z (List.mem_cons_of_mem _ hz)
      simp only [List.flatMap_cons, List.length_append, List.length_cons]
      omega
  have henough : xs.length < (xs.flatMap code ++ last ++ rest).length + 1 := by
    have hxs := hlength xs hcode
    simp only [List.length_append]
    omega
  have hread := reads_rows hlast hstop xs hrow hmore henough [] rest
  rw [List.append_nil] at hread
  exact hread

end Library.Reading
