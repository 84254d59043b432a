import Mathlib.Data.List.Basic
import Mathlib.Tactic.Common

/-!
# Descriptor tables

A table of what the descriptors of a process lead to. What is opened gets the lowest descriptor
that is free.
-/

namespace Library.DescriptorTable

variable {α : Type*}

abbrev Table (α : Type*) := List (Option α)

namespace Table

def get (t : Table α) (fd : ℕ) : Option α := t[fd]?.getD none

def close (t : Table α) (fd : ℕ) : Table α := t.set fd none

def lowest : Table α → ℕ
  | [] => 0
  | none :: _ => 0
  | some _ :: t => lowest t + 1

def install (a : α) : Table α → Table α
  | [] => [some a]
  | none :: t => some a :: t
  | some b :: t => some b :: install a t

/-- The files have the lowest descriptors, in their order, and no others are open. -/
def Packed (t : Table α) (files : List α) : Prop := ∀ fd, t.get fd = files[fd]?

variable {t : Table α} {files : List α} {a : α} {n fd : ℕ}

@[simp] theorem get_nil (fd : ℕ) : get ([] : Table α) fd = none := rfl

@[simp] theorem get_cons_zero (slot : Option α) (t : Table α) : get (slot :: t) 0 = slot := rfl

@[simp] theorem get_cons_succ (slot : Option α) (t : Table α) (fd : ℕ) :
    get (slot :: t) (fd + 1) = get t fd := rfl

theorem get_close (t : Table α) (n fd : ℕ) : (t.close n).get fd = if fd = n then none else t.get fd := by
  unfold get close
  rw [List.getElem?_set]
  rcases eq_or_ne fd n with rfl | hne
  · by_cases hlt : fd < t.length <;> simp [hlt]
  · rw [if_neg hne.symm, if_neg hne]

theorem get_install (a : α) (t : Table α) (fd : ℕ) :
    (t.install a).get fd = if fd = t.lowest then some a else t.get fd := by
  induction t generalizing fd with
  | nil => cases fd <;> simp [install, lowest]
  | cons slot t ih =>
    cases slot with
    | none => cases fd <;> simp [install, lowest]
    | some b => cases fd <;> simp [install, lowest, ih]

theorem get_lowest (t : Table α) : t.get t.lowest = none := by
  induction t with
  | nil => rfl
  | cons slot t ih =>
    cases slot with
    | none => rfl
    | some b => exact ih

theorem get_close_install (a : α) (t : Table α) (fd : ℕ) :
    ((t.install a).close t.lowest).get fd = t.get fd := by
  rw [get_close, get_install]
  rcases eq_or_ne fd t.lowest with rfl | hne
  · rw [if_pos rfl, get_lowest]
  · rw [if_neg hne, if_neg hne]

theorem length_close (t : Table α) (n : ℕ) : (t.close n).length = t.length := List.length_set

theorem Packed.lowest (h : Packed t files) : t.lowest = files.length := by
  induction t generalizing files with
  | nil =>
    have hnone : none = files[0]? := h 0
    rw [List.getElem?_eq_none_iff.mp hnone.symm |> Nat.le_zero.mp]
    rfl
  | cons slot t ih =>
    cases files with
    | nil =>
      obtain rfl : slot = none := h 0
      rfl
    | cons b files =>
      obtain rfl : slot = some b := h 0
      exact congrArg (· + 1) (ih fun fd => h (fd + 1))

theorem Packed.install (a : α) (h : Packed t files) : Packed (t.install a) (files ++ [a]) := by
  intro fd
  rw [get_install, h.lowest]
  split_ifs with heq
  · rw [heq, List.getElem?_concat_length]
  · rw [h fd]
    rcases Nat.lt_or_ge fd files.length with hlt | hge
    · rw [List.getElem?_append_left hlt]
    · rw [List.getElem?_eq_none hge, List.getElem?_eq_none (by simp; omega)]

end Table

end Library.DescriptorTable
