import Esound.Library.Transition
import Mathlib.Data.Finset.Basic
import Mathlib.Data.Finset.Dedup

/-!
# A table of handles

Handles are opened, written to and closed. A use is proper if it opens a handle that is not open,
or closes one that is; whether writes have to go to open handles is a matter of the client.
-/

namespace Library.Handles

open Library.Transition

variable {α : Type*} [DecidableEq α]

inductive Use (α : Type*)
  | opens (a : α)
  | writes (a : α)
  | closes (a : α)
  deriving DecidableEq

/-- The handles that are open after a use. -/
def use (table : Finset α) : Use α → Option (Finset α)
  | .opens a => some (insert a table)
  | .writes _ => some table
  | .closes a => some (table.erase a)

def Proper (W : Prop) (table : Finset α) : Use α → Prop
  | .opens a => a ∉ table
  | .writes a => W → a ∈ table
  | .closes a => a ∈ table

/-- Writes to open handles are proper and change nothing. -/
theorem run_writes {W : Prop} {table : Finset α} {us : List (Use α)}
    (h : ∀ u ∈ us, ∃ a, u = .writes a ∧ (W → a ∈ table)) : Run use (Proper W) table us table := by
  induction us with
  | nil => exact .nil table
  | cons u us ih =>
    obtain ⟨a, rfl, ha⟩ := h u List.mem_cons_self
    exact .cons ha rfl (ih fun u hu => h u (List.mem_cons_of_mem _ hu))

/-- All that are open are closed, in the order of a list of them. -/
theorem run_closes {W : Prop} {as : List α} (hnd : as.Nodup) :
    Run use (Proper W) as.toFinset (as.map .closes) ∅ := by
  induction as with
  | nil => exact .nil ∅
  | cons a as ih =>
    obtain ⟨ha, hnd⟩ := List.nodup_cons.mp hnd
    have herase : (a :: as).toFinset.erase a = as.toFinset := by
      rw [List.toFinset_cons, Finset.erase_insert (by simpa using ha)]
    have hopen : a ∈ (a :: as).toFinset := by simp
    exact .cons hopen (by rw [use, herase]) (ih hnd)

end Library.Handles
