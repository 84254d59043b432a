import Esound.Library.Transition

/-!
# Forward simulation

A system refines another one when each of its steps is a run of the other, of any length. The
steps carry an invariant of their own, and what is promised to them.
-/

namespace Library.Transition

variable {σ α τ β : Type*} {step : σ → α → Option σ} {ok : σ → α → Prop}
  {step' : τ → β → Option τ} {ok' : τ → β → Prop}

/-- `moves` is what the other system does at a step. -/
structure Simulates (step : σ → α → Option σ) (ok : σ → α → Prop) (step' : τ → β → Option τ)
    (ok' : τ → β → Prop) (I : σ → Prop) (R : σ → τ → Prop) (moves : σ → α → List β) : Prop where
  preserved : ∀ s a t, I s → ok s a → step s a = some t → I t
  simulated : ∀ s a t u, I s → R s u → ok s a → step s a = some t →
    ∃ v, Run step' ok' u (moves s a) v ∧ R t v

namespace Run

variable {I : σ → Prop} {R : σ → τ → Prop} {moves : σ → α → List β}

/-- The moves of a run, one step after the other. -/
inductive Moves (step : σ → α → Option σ) (moves : σ → α → List β) : σ → List α → List β → Prop
  | nil (s : σ) : Moves step moves s [] []
  | cons {s t : σ} {a : α} {as : List α} {bs : List β} :
      step s a = some t → Moves step moves t as bs → Moves step moves s (a :: as) (moves s a ++ bs)

theorem simulate (hsim : Simulates step ok step' ok' I R moves) {s t : σ} {u : τ} {as : List α}
    (h : Run step ok s as t) (hs : I s) (hR : R s u) :
    ∃ bs v, Moves step moves s as bs ∧ Run step' ok' u bs v ∧ R t v := by
  induction h generalizing u with
  | nil s => exact ⟨[], u, .nil s, .nil u, hR⟩
  | cons hok hstep _ ih =>
    obtain ⟨w, hfirst, hw⟩ := hsim.simulated _ _ _ _ hs hR hok hstep
    obtain ⟨bs, v, hmoves, hrest, hv⟩ := ih (hsim.preserved _ _ _ hs hok hstep) hw
    exact ⟨_, v, .cons hstep hmoves, hfirst.append hrest, hv⟩

/-- Every move is one of a step that the run takes. -/
theorem Moves.mem {s : σ} {as : List α} {bs : List β} (h : Moves step moves s as bs) {b : β}
    (hb : b ∈ bs) : ∃ u, ∃ a ∈ as, b ∈ moves u a := by
  induction h with
  | nil s => cases hb
  | @cons s t a as bs hstep _ ih =>
    rcases List.mem_append.mp hb with hb | hb
    · exact ⟨s, a, List.mem_cons_self, hb⟩
    · obtain ⟨u, a', ha', hb⟩ := ih hb
      exact ⟨u, a', List.mem_cons_of_mem _ ha', hb⟩

/-- A condition on the actions of a run can be added when all of them meet it. -/
theorem added {s t : σ} {as : List α} (h : Run step ok s as t) {good : α → Prop}
    (hgood : ∀ a ∈ as, good a) : Run step (fun s a => ok s a ∧ good a) s as t := by
  induction h with
  | nil s => exact .nil s
  | cons hok hstep _ ih =>
    exact .cons ⟨hok, hgood _ List.mem_cons_self⟩ hstep
      (ih fun a ha => hgood a (List.mem_cons_of_mem _ ha))

theorem restrict {s t : σ} {as : List α} (h : Run step ok s as t) {good : α → Prop}
    (hgood : ∀ a ∈ as, good a) : Run step (fun _ a => good a) s as t :=
  (h.added hgood).mono fun _ _ h => h.2

end Run

end Library.Transition
