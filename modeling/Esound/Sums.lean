import Esound.Frames
import Esound.Cycle

/-!
# The mixed buffer as a sum

A mix function adds something to the first entries of the mixed buffer that does not depend on
what is there. Ints wrap around, and they do so in any order alike.
-/

open Library.Buffer Library.Loop

namespace Esound

/-- The buffer with something added to its first `n` entries. -/
def raised (n : ℕ) (entry mixed : ℕ → ℤ) : ℕ → ℤ :=
  fun j => if j < n then int32 (mixed j + entry j) else mixed j

theorem int32_add_int32 (x y : ℤ) : int32 (int32 x + y) = int32 (x + y) :=
  Int.bmod_add_bmod

theorem raised_comm (n k : ℕ) (entry entry' mixed : ℕ → ℤ) :
    raised n entry (raised k entry' mixed) = raised k entry' (raised n entry mixed) := by
  funext j
  simp only [raised]
  split_ifs
  · rw [int32_add_int32, int32_add_int32, add_right_comm]
  · rfl
  · rfl
  · rfl

theorem countUp_addTo (entry : ℕ → ℤ) (n : ℕ) (mixed : ℕ → ℤ) :
    countUp n (fun i b => addTo b i (entry i)) mixed = raised n entry mixed := by
  induction n with
  | zero =>
    funext j
    simp [countUp, raised]
  | succ n ih =>
    have hstep : countUp (n + 1) (fun i b => addTo b i (entry i)) mixed =
        addTo (raised n entry mixed) n (entry n) := by
      rw [← ih]
      rfl
    rw [hstep]
    funext j
    by_cases hj : j = n
    · simp [addTo, raised, hj]
    · have hlt : j < n + 1 ↔ j < n := by omega
      simp [addTo, raised, hj, hlt]

theorem mixEntries_eq (entry : ℕ → ℤ) (length : ℤ) (mixed : ℕ → ℤ) :
    mixEntries entry length mixed =
      (raised (length.toNat / 2) entry mixed, 2 * ((length.toNat / 2 : ℕ) : ℤ)) := by
  simp only [mixEntries, countUp_addTo]

theorem mixFrames_eq (frame : ℕ → ℤ × ℤ) (length : ℤ) (mixed : ℕ → ℤ) :
    mixFrames frame length mixed =
      (raised (2 * pairRounds (length.toNat / 2)) (entryOf frame) mixed,
        4 * ((pairRounds (length.toNat / 2) : ℕ) : ℤ)) := by
  have hloop := countUp_pairs (fun i x b => addTo b i x) frame (pairRounds (length.toNat / 2)) mixed
  simp only [mixFrames, hloop, countUp_addTo]

variable (cfg : Config) (pl : EsdPlayer) (data : Mem) (length : ℤ)

/-- What a mix function adds, and what it returns, has nothing to do with what is there. -/
theorem MixFunc.apply_adds (f : MixFunc) : ∃ n entry back,
    ∀ mixed, f.apply cfg pl data length mixed = (raised n entry mixed, back) := by
  have hentries : ∀ entry, ∃ n entry' back,
      ∀ mixed, mixEntries entry length mixed = (raised n entry' mixed, back) :=
    fun entry => ⟨_, _, _, mixEntries_eq entry length⟩
  have hframes : ∀ frame, ∃ n entry back,
      ∀ mixed, mixFrames frame length mixed = (raised n entry mixed, back) :=
    fun frame => ⟨_, _, _, mixFrames_eq frame length⟩
  cases f <;>
    simp only [apply, mixMono8uToStereo32sSv, mixStereo8uToStereo32sSv, mixMono16sToStereo32sSv,
      mixStereo16sToStereo32sSv, mixMono8uToStereo32s, mixStereo8uToStereo32s,
      mixMono16sToStereo32s, mixStereo16sToStereo32s] <;>
    (try split_ifs) <;> first | exact hframes _ | exact hentries _

/-- The turn of a player in the mixing half, as far as the buffer and the length go. -/
def blend (a : (ℕ → ℤ) × ℤ) : (ℕ → ℤ) × ℤ :=
  match pl.mixFunc with
  | none => a
  | some f =>
    if pl.actualLength > 0 then
      let (mixed, actual) := f.apply cfg pl data length a.1
      (mixed, max a.2 actual)
    else a

theorem blend_cases : (∀ a, blend cfg pl data length a = a) ∨
    ∃ n entry back, ∀ a, blend cfg pl data length a = (raised n entry a.1, max a.2 back) := by
  cases hf : pl.mixFunc with
  | none => exact .inl fun a => by simp only [blend, hf]
  | some f =>
    by_cases hpos : pl.actualLength > 0
    · obtain ⟨n, entry, back, happly⟩ := f.apply_adds cfg pl data length
      exact .inr ⟨n, entry, back, fun a => by simp only [blend, hf, hpos, if_true, happly]⟩
    · exact .inl fun a => by simp only [blend, hf, hpos, if_false]

theorem blend_comm (pl' : EsdPlayer) (data' : Mem) (a : (ℕ → ℤ) × ℤ) :
    blend cfg pl' data' length (blend cfg pl data length a) =
      blend cfg pl data length (blend cfg pl' data' length a) := by
  rcases blend_cases cfg pl data length with hone | ⟨n, entry, back, hone⟩
  · rw [hone, hone]
  · rcases blend_cases cfg pl' data' length with htwo | ⟨k, entry', back', htwo⟩
    · rw [htwo, htwo]
    · rw [hone, htwo, htwo, hone, raised_comm, max_right_comm]

end Esound
