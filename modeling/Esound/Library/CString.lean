import Mathlib.Data.BitVec
import Mathlib.Data.List.TakeWhile
import Mathlib.Tactic.Common

/-!
# Strings in arrays

An array is the list of its cells and a string in it ends at the first 0. The functions that copy
and search strings know nothing of where an array ends: their value is `none` when they read or
write beyond it, and otherwise the array that they leave.
-/

namespace Library.CString

/-- The octets of a string constant. -/
def ascii (s : String) : List (BitVec 8) := s.toList.map fun c => BitVec.ofNat 8 c.toNat

variable {α : Type*}

/-- Cells written one after the other, from an index on. -/
def put (a : List α) (off : ℕ) (cells : List α) : Option (List α) :=
  if off + cells.length ≤ a.length then some (a.take off ++ cells ++ a.drop (off + cells.length))
  else none

section Cells

variable {a cells before mid after : List α} {off : ℕ}

theorem put_append (hoff : before.length = off) (hmid : mid.length = cells.length) :
    put (before ++ mid ++ after) off cells = some (before ++ cells ++ after) := by
  subst hoff
  rw [put, if_pos (by simp [hmid])]
  simp [← hmid]

theorem put_beyond (h : a.length < off + cells.length) : put a off cells = none := if_neg (by omega)

theorem put_whole (h : cells.length = a.length) : put a 0 cells = some cells := by
  rw [put, if_pos (by omega)]
  simp [h]

theorem put_length {b : List α} (h : put a off cells = some b) : b.length = a.length := by
  simp only [put, Option.ite_none_right_eq_some, Option.some.injEq] at h
  obtain ⟨hle, rfl⟩ := h
  simp only [List.length_append, List.length_take, List.length_drop]
  omega

end Cells

variable [Zero α]

/-- A string by itself, without the 0 behind it. -/
structure Str (α : Type*) [Zero α] where
  chars : List α
  nonzero : 0 ∉ chars

def strcpy (a : List α) (off : ℕ) (s : List α) : Option (List α) := put a off (s ++ [0])

/-- Exactly `n` cells are written: as much of the string, and 0 from its end on. -/
def strncpy (a : List α) (off : ℕ) (s : List α) (n : ℕ) : Option (List α) :=
  put a off (s.take n ++ List.replicate (n - s.length) 0)

theorem strcpy_fits {a s : List α} (h : s.length < a.length) :
    strcpy a 0 s = some (s ++ 0 :: a.drop (s.length + 1)) := by
  rw [strcpy, put, if_pos (by simp; omega)]
  simp

theorem strcpy_beyond {a s : List α} (h : a.length ≤ s.length) : strcpy a 0 s = none :=
  put_beyond (by simp; omega)

variable [DecidableEq α]

/-- The string that begins at an index. -/
def strAt (a : List α) (off : ℕ) : Option (List α) :=
  if 0 ∈ a.drop off then some ((a.drop off).takeWhile (· ≠ 0)) else none

def strlen (a : List α) : Option ℕ := (strAt a 0).map List.length

/-- How far it is to the first `reject`, or to the end of the string. -/
def strcspn (a : List α) (reject : α) : Option ℕ :=
  if reject ∈ a ∨ 0 ∈ a then some (a.takeWhile fun x => x ≠ reject ∧ x ≠ 0).length else none

def strcat (a s : List α) : Option (List α) := (strlen a).bind fun n => strcpy a n s

section Arrays

variable {a s : List α}

theorem takeWhile_string (hs : 0 ∉ s) (after : List α) :
    (s ++ 0 :: after).takeWhile (· ≠ 0) = s := by
  have hall : ∀ x ∈ s, decide (x ≠ 0) = true := fun x hx =>
    decide_eq_true fun hzero => hs (hzero ▸ hx)
  rw [List.takeWhile_append_of_pos hall, List.takeWhile_cons_of_neg (by simp), List.append_nil]

theorem takeWhile_self (hs : 0 ∉ s) : s.takeWhile (· ≠ 0) = s :=
  List.takeWhile_eq_self_iff.mpr fun _ hx => decide_eq_true fun hzero => hs (hzero ▸ hx)

theorem takeWhile_padded (hs : 0 ∉ s) (n : ℕ) :
    (s ++ List.replicate n 0).takeWhile (· ≠ 0) = s := by
  cases n with
  | zero => rw [List.replicate_zero, List.append_nil, takeWhile_self hs]
  | succ n => rw [List.replicate_succ, takeWhile_string hs]

theorem not_mem_takeWhile (a : List α) : 0 ∉ a.takeWhile (· ≠ 0) := fun h => by
  have hne := List.all_eq_true.mp List.all_takeWhile _ h
  simp at hne

theorem exists_string (h : 0 ∈ a) : ∃ after, a = a.takeWhile (· ≠ 0) ++ 0 :: after := by
  induction a with
  | nil => simp at h
  | cons x a ih =>
    by_cases hx : x = 0
    · exact ⟨a, by simp [hx]⟩
    · obtain ⟨after, hafter⟩ := ih (List.mem_of_ne_of_mem (Ne.symm hx) h)
      refine ⟨after, ?_⟩
      rw [List.takeWhile_cons_of_pos (by simpa using hx), List.cons_append, ← hafter]

theorem strAt_string (hs : 0 ∉ s) (before after : List α) :
    strAt (before ++ s ++ 0 :: after) before.length = some s := by
  have hdrop : (before ++ s ++ 0 :: after).drop before.length = s ++ 0 :: after := by simp
  rw [strAt, hdrop, if_pos (by simp), takeWhile_string hs]

theorem strAt_zero (hs : 0 ∉ s) (after : List α) : strAt (s ++ 0 :: after) 0 = some s :=
  strAt_string hs [] after

theorem strlen_string (hs : 0 ∉ s) (after : List α) : strlen (s ++ 0 :: after) = some s.length := by
  rw [strlen, strAt_zero hs, Option.map_some]

theorem strlen_unterminated (ha : 0 ∉ a) : strlen a = none := by simp [strlen, strAt, ha]

theorem strcspn_found {reject : α} (hs : 0 ∉ s) (hreject : reject ∉ s) (after : List α) :
    strcspn (s ++ reject :: after) reject = some s.length := by
  have hall : ∀ x ∈ s, decide (x ≠ reject ∧ x ≠ 0) = true := fun x hx =>
    decide_eq_true ⟨fun he => hreject (he ▸ hx), fun hzero => hs (hzero ▸ hx)⟩
  rw [strcspn, if_pos (.inl (by simp)), List.takeWhile_append_of_pos hall,
    List.takeWhile_cons_of_neg (by simp), List.append_nil]

theorem strcspn_end {reject : α} (hs : 0 ∉ s) (hreject : reject ∉ s) (after : List α) :
    strcspn (s ++ 0 :: after) reject = some s.length := by
  have hall : ∀ x ∈ s, decide (x ≠ reject ∧ x ≠ 0) = true := fun x hx =>
    decide_eq_true ⟨fun he => hreject (he ▸ hx), fun hzero => hs (hzero ▸ hx)⟩
  rw [strcspn, if_pos (.inr (by simp)), List.takeWhile_append_of_pos hall,
    List.takeWhile_cons_of_neg (by simp), List.append_nil]

theorem strcspn_unterminated {reject : α} (ha : 0 ∉ a) (hreject : reject ∉ a) :
    strcspn a reject = none := by simp [strcspn, ha, hreject]

end Arrays

/-! ## Tokens -/

section Tokens

variable {α : Type*} [DecidableEq α] (delim : α)

/-- The next token, and the string behind the delimiter at its end. Delimiters before the token are
passed over. -/
def strtok (s : List α) : Option (List α × List α) :=
  let s := s.dropWhile (· = delim)
  if s = [] then none else some (s.takeWhile (· ≠ delim), (s.dropWhile (· ≠ delim)).tail)

/-- The two parts of a string around its first delimiter. -/
def cut (s : List α) : List α × List α := (s.takeWhile (· ≠ delim), (s.dropWhile (· ≠ delim)).tail)

variable {delim} {s : List α}

theorem strtok_eq_cut (hne : s ≠ []) (hhead : s.head? ≠ some delim) :
    strtok delim s = some (cut delim s) := by
  cases s with
  | nil => exact absurd rfl hne
  | cons c s =>
    have hc : ¬ c = delim := fun h => hhead (by rw [List.head?_cons, h])
    have hstart : (c :: s).dropWhile (· = delim) = c :: s :=
      List.dropWhile_cons_of_neg (by simpa using hc)
    simp only [strtok, hstart]
    rw [if_neg hne]
    rfl

theorem cut_whole (hs : delim ∉ s) : cut delim s = (s, []) := by
  have hall : ∀ x ∈ s, decide (x ≠ delim) = true := fun x hx =>
    decide_eq_true fun h => hs (h ▸ hx)
  rw [cut, List.takeWhile_eq_self_iff.mpr hall, List.dropWhile_eq_nil_iff.mpr hall]
  rfl

theorem strtok_token {t : List α × List α} (h : strtok delim s = some t) : delim ∉ t.1 := by
  simp only [strtok, Option.ite_none_left_eq_some, Option.some.injEq] at h
  rw [← h.2]
  intro hmem
  have hne := List.all_eq_true.mp List.all_takeWhile _ hmem
  simp at hne

end Tokens

/-! ## The last of a kind -/

section Last

variable {α : Type*} [DecidableEq α] {c : α} {s a a' b b' : List α}

/-- The string from the last `c` on. -/
def strrchr (c : α) : List α → Option (List α)
  | [] => none
  | d :: s => (strrchr c s).or (if d = c then some (d :: s) else none)

end Last

end Library.CString
