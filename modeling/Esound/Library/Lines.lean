import Mathlib.Data.List.Basic
import Mathlib.Order.Basic
import Mathlib.Tactic.Common

/-!
# Files read line by line

A file is taken apart behind each of its newlines; what is behind the last one is a line too, if
there is anything. Reading with a buffer gives the same lines where all of them fit, and any of
the lines, in their order, are the lines of the file that they make.
-/

namespace Library.Lines

variable {α : Type*} [DecidableEq α] (newline : α)

/-- The next cells, at most `n` and no further than the next newline, and what is left. -/
def fgets : ℕ → List α → List α × List α
  | 0, s => ([], s)
  | _ + 1, [] => ([], [])
  | n + 1, c :: s => if c = newline then ([c], s) else (c :: (fgets n s).1, (fgets n s).2)

/-- `while (fgets (..))`; a turn takes a cell at least. -/
def readLines (n : ℕ) : ℕ → List α → List (List α)
  | 0, _ => []
  | _ + 1, [] => []
  | turns + 1, s => (fgets newline n s).1 :: readLines n turns (fgets newline n s).2

def lines : List α → List (List α)
  | [] => []
  | c :: s =>
    if c = newline then [c] :: lines s
    else
      match lines s with
      | [] => [[c]]
      | l :: ls => (c :: l) :: ls

/-- Each ends with its only newline, but for the last, which may have none. -/
inductive AreLines : List (List α) → Prop
  | nil : AreLines []
  | last {l : List α} : l ≠ [] → newline ∉ l → AreLines [l]
  | cons {l : List α} {ls : List (List α)} : newline ∉ l → AreLines ls →
      AreLines ((l ++ [newline]) :: ls)

section Reading

variable {newline} {l s : List α} {ls part : List (List α)} {n turns : ℕ}

theorem lines_append (hl : newline ∉ l) (s : List α) :
    lines newline (l ++ newline :: s) = (l ++ [newline]) :: lines newline s := by
  induction l with
  | nil => simp [lines]
  | cons c l ih =>
    rw [List.mem_cons, not_or] at hl
    rw [List.cons_append, lines, if_neg (Ne.symm hl.1), ih hl.2]
    rfl

theorem lines_single (hne : l ≠ []) (hl : newline ∉ l) : lines newline l = [l] := by
  induction l with
  | nil => exact absurd rfl hne
  | cons c l ih =>
    rw [List.mem_cons, not_or] at hl
    rw [lines, if_neg (Ne.symm hl.1)]
    cases l with
    | nil => rfl
    | cons d l => rw [ih (by simp) hl.2]

/-- A file is empty, a line without a newline, or a line before another file. -/
theorem file_induction {P : List α → Prop} (nil : P [])
    (last : ∀ l, l ≠ [] → newline ∉ l → P l)
    (line : ∀ l s, newline ∉ l → P s → P (l ++ newline :: s)) (s : List α) : P s := by
  induction hlength : s.length using Nat.strongRecOn generalizing s with
  | ind n ih =>
    by_cases hs : s = []
    · exact hs ▸ nil
    · by_cases hnewline : newline ∈ s
      · obtain ⟨l, rest, rfl, hl⟩ := List.eq_append_cons_of_mem hnewline
        refine line l rest hl (ih rest.length ?_ rest rfl)
        rw [← hlength, List.length_append, List.length_cons]
        omega
      · exact last s hs hnewline

variable (newline) in
theorem areLines_lines (s : List α) : AreLines newline (lines newline s) := by
  induction s using @file_induction _ _ newline with
  | nil => exact .nil
  | last l hne hl => rw [lines_single hne hl]; exact .last hne hl
  | line l s hl ih => rw [lines_append hl]; exact .cons hl ih

variable (newline) in
theorem flatten_lines (s : List α) : (lines newline s).flatten = s := by
  induction s using @file_induction _ _ newline with
  | nil => rfl
  | last l hne hl => rw [lines_single hne hl]; simp
  | line l s hl ih => rw [lines_append hl, List.flatten_cons, ih]; simp

theorem fgets_append (hl : newline ∉ l) (hn : l.length < n) (s : List α) :
    fgets newline n (l ++ newline :: s) = (l ++ [newline], s) := by
  induction n generalizing l with
  | zero => omega
  | succ n ih =>
    cases l with
    | nil => simp [fgets]
    | cons c l =>
      rw [List.mem_cons, not_or] at hl
      rw [List.cons_append, fgets, if_neg (Ne.symm hl.1), ih hl.2 (by simpa using hn)]
      rfl

theorem fgets_single (hl : newline ∉ l) (hn : l.length ≤ n) : fgets newline n l = (l, []) := by
  induction n generalizing l with
  | zero =>
    rw [List.length_eq_zero_iff.mp (Nat.le_zero.mp hn)]
    rfl
  | succ n ih =>
    cases l with
    | nil => rfl
    | cons c l =>
      rw [List.mem_cons, not_or] at hl
      rw [fgets, if_neg (Ne.symm hl.1), ih hl.2 (by simpa using hn)]

theorem readLines_succ (hs : s ≠ []) : readLines newline n (turns + 1) s =
    (fgets newline n s).1 :: readLines newline n turns (fgets newline n s).2 := by
  cases s with
  | nil => exact absurd rfl hs
  | cons c s => rfl

theorem readLines_eq_lines (hturns : s.length ≤ turns) (hfits : ∀ l ∈ lines newline s, l.length ≤ n) :
    readLines newline n turns s = lines newline s := by
  induction s using @file_induction _ _ newline generalizing turns with
  | nil => cases turns <;> rfl
  | last l hne hl =>
    rw [lines_single hne hl] at hfits ⊢
    have hget := fgets_single hl (hfits l List.mem_cons_self)
    have hpos := List.length_pos_iff.mpr hne
    obtain ⟨turns, rfl⟩ : ∃ k, turns = k + 1 := ⟨turns - 1, by omega⟩
    rw [readLines_succ hne, hget]
    cases turns <;> rfl
  | line l s hl ih =>
    rw [lines_append hl] at hfits ⊢
    have hfirst := hfits _ List.mem_cons_self
    rw [List.length_append, List.length_singleton] at hfirst
    have hget := fgets_append hl hfirst s
    rw [List.length_append, List.length_cons] at hturns
    have hrest : readLines newline n (turns - 1) s = lines newline s :=
      ih (by omega) fun m hm => hfits m (List.mem_cons_of_mem _ hm)
    obtain ⟨turns, rfl⟩ : ∃ k, turns = k + 1 := ⟨turns - 1, by omega⟩
    rw [readLines_succ (by simp), hget, ← hrest]
    rfl

omit [DecidableEq α] in
theorem AreLines.sublist (h : AreLines newline ls) (hpart : part.Sublist ls) : AreLines newline part := by
  induction h generalizing part with
  | nil => rw [List.sublist_nil.mp hpart]; exact .nil
  | last hne hl =>
    cases hpart with
    | cons _ h => rw [List.sublist_nil.mp h]; exact .nil
    | cons_cons _ h => rw [List.sublist_nil.mp h]; exact .last hne hl
  | cons hl _ ih =>
    cases hpart with
    | cons _ h => exact ih h
    | cons_cons _ h => exact .cons hl (ih h)

theorem lines_flatten (h : AreLines newline ls) : lines newline ls.flatten = ls := by
  induction h with
  | nil => rfl
  | last hne hl => simpa using lines_single hne hl
  | @cons l ls hl _ ih =>
    have hfirst := lines_append hl ls.flatten
    rw [ih] at hfirst
    simpa using hfirst

end Reading

end Library.Lines
