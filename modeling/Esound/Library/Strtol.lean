import Mathlib.Data.List.TakeWhile
import Mathlib.Tactic

/-!
# Numbers in strings

`strtol` reads as much of a string as makes a number and says where the number ends. Whether the
whole string is a number is decided here on its own, and the two agree: for a string that is not
empty, nothing is left behind the number exactly if the string is a numeral.
-/

namespace Library.Strtol

def isSpace (c : BitVec 8) : Bool := c = 32#8 || (9 ≤ c.toNat && c.toNat ≤ 13)

/-- The digits go on with the letters, small or capital. -/
def digit (c : BitVec 8) : ℕ :=
  if 48 ≤ c.toNat ∧ c.toNat ≤ 57 then c.toNat - 48
  else if 65 ≤ c.toNat ∧ c.toNat ≤ 90 then c.toNat - 55
  else if 97 ≤ c.toNat ∧ c.toNat ≤ 122 then c.toNat - 87
  else 36

def isDigit (base : ℕ) (c : BitVec 8) : Bool := digit c < base

def value (base : ℕ) (ds : List (BitVec 8)) : ℕ := ds.foldl (fun n c => base * n + digit c) 0

/-- A long that is too great or too small is the greatest or the smallest. -/
def clamp (n : ℤ) : ℤ := max (-2 ^ 63) (min (2 ^ 63 - 1) n)

def sign : List (BitVec 8) → Bool × List (BitVec 8)
  | 45#8 :: s => (true, s)
  | 43#8 :: s => (false, s)
  | s => (false, s)

/-- The base that the digits have, for a base of 0 by how they begin, and the digits. -/
def radix (base : ℕ) (s : List (BitVec 8)) : ℕ × List (BitVec 8) :=
  if base ≠ 0 then (base, s)
  else
    match s with
    | 48#8 :: x :: d :: ds =>
      if (x = 120#8 ∨ x = 88#8) ∧ isDigit 16 d = true then (16, d :: ds) else (8, s)
    | 48#8 :: _ => (8, s)
    | _ => (10, s)

def signed (negative : Bool) (n : ℕ) : ℤ := if negative then -n else n

/-- `strtol` for the bases 0 and 10, with the string that its end pointer is left at. -/
def strtol (s : List (BitVec 8)) (base : ℕ) : ℤ × List (BitVec 8) :=
  let (negative, t) := sign (s.dropWhile isSpace)
  let (base, t) := radix base t
  let ds := t.takeWhile (isDigit base)
  if ds = [] then (0, s) else (clamp (signed negative (value base ds)), t.dropWhile (isDigit base))

/-! ## Numerals -/

/-- One digit or more, and nothing else. -/
def digits (base : ℕ) (s : List (BitVec 8)) : Option ℕ :=
  if s ≠ [] ∧ s.all (isDigit base) = true then some (value base s) else none

/-- A number in base 16 after `0x`, in base 8 after 0, and else in base 10. -/
def numeral : List (BitVec 8) → Option ℕ
  | 48#8 :: 120#8 :: ds => digits 16 ds
  | 48#8 :: 88#8 :: ds => digits 16 ds
  | 48#8 :: ds => digits 8 (48#8 :: ds)
  | ds => digits 10 ds

/-- An integer literal: white space, a sign, and a number. -/
def literal (s : List (BitVec 8)) : Option ℤ :=
  (numeral (sign (s.dropWhile isSpace)).2).map (signed (sign (s.dropWhile isSpace)).1)

section Numerals

variable {base n : ℕ} {s : List (BitVec 8)}

theorem digits_cons_none {c : BitVec 8} (hc : isDigit base c = false) (s : List (BitVec 8)) :
    digits base (c :: s) = none := by simp [digits, hc]

theorem isDigit_mono {base' : ℕ} {c : BitVec 8} (h : base ≤ base') (hc : isDigit base c = true) :
    isDigit base' c = true := by
  simp only [isDigit, decide_eq_true_eq] at hc ⊢
  omega

theorem numeral_eq_radix (s : List (BitVec 8)) : numeral s = digits (radix 0 s).1 (radix 0 s).2 := by
  have hoctal : ∀ x ds, x = 120#8 ∨ x = 88#8 → digits 8 (48#8 :: x :: ds) = none := by
    rintro x ds (rfl | rfl)
    all_goals simp [digits, isDigit, digit]
  have hhex : ∀ x ds, x = 120#8 ∨ x = 88#8 →
      digits 16 ds = digits (radix 0 (48#8 :: x :: ds)).1 (radix 0 (48#8 :: x :: ds)).2 := by
    intro x ds hx
    cases ds with
    | nil => exact (hoctal x [] hx).symm
    | cons d ds =>
      simp only [radix, ne_eq, not_true_eq_false, if_false]
      by_cases hd : isDigit 16 d = true
      · rw [if_pos ⟨hx, hd⟩]
      · rw [if_neg fun h => hd h.2, digits_cons_none (Bool.eq_false_iff.mpr hd)]
        exact (hoctal x (d :: ds) hx).symm
  fun_cases numeral s with
  | case1 ds => exact hhex _ ds (.inl rfl)
  | case2 ds => exact hhex _ ds (.inr rfl)
  | case3 ds hx hX =>
    have hradix : radix 0 (48#8 :: ds) = (8, 48#8 :: ds) := by
      rcases ds with _ | ⟨x, _ | ⟨d, ds⟩⟩
      · rfl
      · rfl
      · simp only [radix, ne_eq, not_true_eq_false, if_false]
        rw [if_neg]
        rintro ⟨rfl | rfl, -⟩
        · exact hx _ rfl
        · exact hX _ rfl
    rw [hradix]
  | case4 _ hx hX hzero =>
    have hradix : radix 0 s = (10, s) := by
      simp only [radix, ne_eq, not_true_eq_false, if_false]
      split
      · exact absurd rfl (hzero _)
      · exact absurd rfl (hzero _)
      · rfl
    rw [hradix]

theorem digits_eq_some_iff : digits base s = some n ↔
    s.takeWhile (isDigit base) ≠ [] ∧ s.dropWhile (isDigit base) = [] ∧
      value base (s.takeWhile (isDigit base)) = n := by
  constructor
  · intro h
    simp only [digits, Option.ite_none_right_eq_some, Option.some.injEq] at h
    obtain ⟨⟨hne, hall⟩, hvalue⟩ := h
    have htake : s.takeWhile (isDigit base) = s :=
      List.takeWhile_eq_self_iff.mpr (List.all_eq_true.mp hall)
    have hdrop : s.dropWhile (isDigit base) = [] :=
      List.dropWhile_eq_nil_iff.mpr (List.all_eq_true.mp hall)
    rw [htake]
    exact ⟨hne, hdrop, hvalue⟩
  · rintro ⟨hne, hdrop, hvalue⟩
    have htake : s.takeWhile (isDigit base) = s :=
      List.takeWhile_eq_self_iff.mpr (List.dropWhile_eq_nil_iff.mp hdrop)
    rw [htake] at hne hvalue
    simp only [digits, Option.ite_none_right_eq_some, Option.some.injEq]
    exact ⟨⟨hne, List.all_eq_true.mpr (List.dropWhile_eq_nil_iff.mp hdrop)⟩, hvalue⟩

theorem digits_all (h : digits base s = some n) : ∀ c ∈ s, isDigit base c = true := by
  simp only [digits, Option.ite_none_right_eq_some] at h
  exact List.all_eq_true.mp h.1.2

theorem strtol_literal {n : ℤ} (h : literal s = some n) : strtol s 0 = (clamp n, []) := by
  obtain ⟨m, hm, rfl⟩ := Option.map_eq_some_iff.mp h
  rw [numeral_eq_radix, digits_eq_some_iff] at hm
  obtain ⟨hne, hdrop, hvalue⟩ := hm
  simp only [strtol]
  rw [if_neg hne, hdrop, hvalue]

theorem numeral_mem (h : numeral s = some n) :
    ∀ c ∈ s, c = 120#8 ∨ c = 88#8 ∨ isDigit 16 c = true := by
  have hdigits : ∀ {base ds m}, base ≤ 16 → digits base ds = some m →
      ∀ c ∈ ds, c = 120#8 ∨ c = 88#8 ∨ isDigit 16 c = true := fun hbase hds c hc =>
    .inr (.inr (isDigit_mono hbase (digits_all hds c hc)))
  have hzero : isDigit 16 48#8 = true := by decide
  revert h
  fun_cases numeral s with
  | case1 ds =>
    intro h c hc
    rcases List.mem_cons.mp hc with rfl | hc
    · exact .inr (.inr hzero)
    · rcases List.mem_cons.mp hc with rfl | hc
      · exact .inl rfl
      · exact hdigits le_rfl h c hc
  | case2 ds =>
    intro h c hc
    rcases List.mem_cons.mp hc with rfl | hc
    · exact .inr (.inr hzero)
    · rcases List.mem_cons.mp hc with rfl | hc
      · exact .inr (.inl rfl)
      · exact hdigits le_rfl h c hc
  | case3 ds _ _ => exact fun h => hdigits (by omega) h
  | case4 => exact fun h => hdigits (by omega) h

theorem sign_mem {c : BitVec 8} (hc : c ∈ s) : c ∈ (sign s).2 ∨ c = 45#8 ∨ c = 43#8 := by
  fun_cases sign s with
  | case1 t => exact (List.mem_cons.mp hc).symm.imp_right .inl
  | case2 t => exact (List.mem_cons.mp hc).symm.imp_right .inr
  | case3 => exact .inl hc

theorem literal_mem {n : ℤ} (h : literal s = some n) {c : BitVec 8} (hc : c ∈ s) :
    isSpace c = true ∨ c = 45#8 ∨ c = 43#8 ∨ c = 120#8 ∨ c = 88#8 ∨ isDigit 16 c = true := by
  obtain ⟨m, hm, -⟩ := Option.map_eq_some_iff.mp h
  rw [← s.takeWhile_append_dropWhile (p := isSpace), List.mem_append] at hc
  rcases hc with hspace | hrest
  · exact .inl (List.all_eq_true.mp List.all_takeWhile c hspace)
  · rcases sign_mem hrest with hnumber | hsign
    · exact .inr (.inr (.inr (numeral_mem hm c hnumber)))
    · tauto

/-- Nothing is left behind the number exactly if the string is an integer literal. -/
theorem strtol_complete_iff (hs : s ≠ []) : (strtol s 0).2 = [] ↔ (literal s).isSome = true := by
  constructor
  · intro h
    simp only [strtol] at h
    split_ifs at h with hnone
    · exact absurd h hs
    · have hdigits := digits_eq_some_iff.mpr ⟨hnone, h, rfl⟩
      rw [← numeral_eq_radix] at hdigits
      rw [literal, hdigits]
      rfl
  · intro h
    obtain ⟨n, hn⟩ := Option.isSome_iff_exists.mp h
    rw [strtol_literal hn]

theorem isDigit_range {c : BitVec 8} (hc : isDigit 10 c = true) : 48 ≤ c.toNat ∧ c.toNat ≤ 57 := by
  have hlt : digit c < 10 := of_decide_eq_true hc
  simp only [digit] at hlt
  split_ifs at hlt <;> omega

theorem strtol_digits (h : digits 10 s = some n) : (strtol s 10).1 = clamp n := by
  have hstart : s.dropWhile isSpace = s ∧ sign s = (false, s) := by
    simp only [digits, Option.ite_none_right_eq_some] at h
    obtain ⟨⟨hne, hall⟩, -⟩ := h
    cases s with
    | nil => exact absurd rfl hne
    | cons c s =>
      have hc : isDigit 10 c = true := List.all_eq_true.mp hall c List.mem_cons_self
      have hrange := isDigit_range hc
      have hspace : ¬ isSpace c = true := by
        simp only [isSpace, Bool.or_eq_true, Bool.and_eq_true, decide_eq_true_eq, not_or]
        refine ⟨?_, by omega⟩
        rintro rfl
        exact absurd hrange (by decide)
      refine ⟨List.dropWhile_cons_of_neg hspace, ?_⟩
      unfold sign
      split
      · rename_i heq
        cases heq
        exact absurd hrange (by decide)
      · rename_i heq
        cases heq
        exact absurd hrange (by decide)
      · rfl
  obtain ⟨hne, hdrop, hvalue⟩ := digits_eq_some_iff.mp h
  have hradix : radix 10 s = (10, s) := rfl
  simp only [strtol, hstart.1, hstart.2, hradix]
  rw [if_neg hne, hvalue]
  rfl

end Numerals

/-! ## Printed numbers -/

/-- `%d`, of a number that is not negative. -/
def decimal (n : ℕ) : List (BitVec 8) := (Nat.toDigits 10 n).map fun c => BitVec.ofNat 8 c.toNat

end Library.Strtol
