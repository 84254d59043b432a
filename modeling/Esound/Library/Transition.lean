import Mathlib.Logic.Relation
import Mathlib.Tactic.Common

/-!
# Runs of a partial step function

A system is a step function `step : σ → α → Option σ`: `none` means that the
action cannot be taken in that state, or never finishes. A run takes a list of
actions one after the other and asks of every action it takes that it meets a
side condition in the state before it. Invariants and reflexive transitive
relations are carried from one step to a whole run here, once.
-/

namespace Library.Transition

variable {σ α : Type*}

/-- The actions of the list are all possible and all meet `ok` where they are taken. -/
inductive Run (step : σ → α → Option σ) (ok : σ → α → Prop) : σ → List α → σ → Prop
  | nil (s : σ) : Run step ok s [] s
  | cons {s t u : σ} {a : α} {as : List α} :
      ok s a → step s a = some t → Run step ok t as u → Run step ok s (a :: as) u

/-- The end of the run, if there is one. -/
def exec (step : σ → α → Option σ) (ok : σ → α → Prop) [∀ s a, Decidable (ok s a)] :
    σ → List α → Option σ
  | s, [] => some s
  | s, a :: as => if ok s a then (step s a).bind fun t => exec step ok t as else none

namespace Run

variable {step : σ → α → Option σ} {ok ok' : σ → α → Prop}

theorem invariant (I : σ → Prop)
    (preserved : ∀ s a t, I s → ok s a → step s a = some t → I t)
    {s t : σ} {as : List α} (h : Run step ok s as t) (hs : I s) : I t := by
  induction h with
  | nil s => exact hs
  | cons hok hstep _ ih => exact ih (preserved _ _ _ hs hok hstep)

theorem mono (weaker : ∀ s a, ok s a → ok' s a) {s t : σ} {as : List α}
    (h : Run step ok s as t) : Run step ok' s as t := by
  induction h with
  | nil s => exact .nil s
  | cons hok hstep _ ih => exact .cons (weaker _ _ hok) hstep ih

theorem append {s t u : σ} {as bs : List α} (h₁ : Run step ok s as t)
    (h₂ : Run step ok t bs u) : Run step ok s (as ++ bs) u := by
  induction h₁ with
  | nil s => exact h₂
  | cons hok hstep _ ih => exact .cons hok hstep (ih h₂)

theorem snoc {s t u : σ} {as : List α} {a : α} (h : Run step ok s as t) (hok : ok t a)
    (hstep : step t a = some u) : Run step ok s (as ++ [a]) u :=
  h.append (.cons hok hstep (.nil u))

/-- The last step of a run. -/
theorem unsnoc {s u : σ} {as : List α} {a : α} (h : Run step ok s (as ++ [a]) u) :
    ∃ t, Run step ok s as t ∧ ok t a ∧ step t a = some u := by
  induction as generalizing s with
  | nil =>
    cases h with
    | cons hok hstep hrest =>
      cases hrest
      exact ⟨s, .nil s, hok, hstep⟩
  | cons b bs ih =>
    cases h with
    | cons hok hstep hrest =>
      obtain ⟨t, hrun, hlast⟩ := ih hrest
      exact ⟨t, .cons hok hstep hrun, hlast⟩

/-- The actions of a run determine its end. -/
theorem unique {s t t' : σ} {as : List α} (h : Run step ok s as t) (h' : Run step ok' s as t') :
    t = t' := by
  induction h with
  | nil s =>
    cases h'
    rfl
  | cons hok hstep _ ih =>
    cases h' with
    | cons hok' hstep' hrest =>
      cases Option.some.inj (hstep.symm.trans hstep')
      exact ih hrest

/-- If it is the side condition of a step that decides whether the step keeps `I`, then `I` holds
all along a run exactly when all its steps meet the condition. -/
theorem visits_iff {I : σ → Prop} {good : σ → α → Prop}
    (taken : ∀ s a t, I s → ok s a → step s a = some t → (I t ↔ good s a))
    {s t : σ} {as : List α} (h : Run step ok s as t) (hs : I s) :
    (∀ bs u, bs <+: as → Run step ok s bs u → I u) ↔ Run step good s as t := by
  induction h with
  | nil s =>
    refine ⟨fun _ => .nil s, fun _ bs u hbs hrun => ?_⟩
    rw [List.prefix_nil.mp hbs] at hrun
    cases hrun
    exact hs
  | cons hok hstep hrest ih =>
    constructor
    · intro hall
      have hnext := hall [_] _ ⟨_, rfl⟩ (.cons hok hstep (.nil _))
      refine .cons ((taken _ _ _ hs hok hstep).mp hnext) hstep ((ih hnext).mp fun bs u hbs hrun => ?_)
      exact hall (_ :: bs) u (List.cons_prefix_cons.mpr ⟨rfl, hbs⟩) (.cons hok hstep hrun)
    · intro hgood bs u hbs hrun
      cases hgood with
      | cons hgood hstep' hrest' =>
        cases Option.some.inj (hstep.symm.trans hstep')
        have hnext := (taken _ _ _ hs hok hstep).mpr hgood
        cases hrun with
        | nil => exact hs
        | cons hok' hstep'' hrun =>
          obtain ⟨rfl, htail⟩ := List.cons_prefix_cons.mp hbs
          cases Option.some.inj (hstep.symm.trans hstep'')
          exact (ih hnext).mpr hrest' _ _ htail hrun

/-- The same for a property of the steps themselves, in runs that keep `I` whatever they do. -/
theorem steps_iff {I : σ → Prop} {P : σ → α → σ → Prop} {good : σ → α → Prop}
    (preserved : ∀ s a t, I s → ok s a → step s a = some t → I t)
    (taken : ∀ s a t, I s → ok s a → step s a = some t → (P s a t ↔ good s a))
    {s t : σ} {as : List α} (h : Run step ok s as t) (hs : I s) :
    (∀ bs a u v, bs ++ [a] <+: as → Run step ok s bs u → step u a = some v → P u a v) ↔
      Run step good s as t := by
  induction h with
  | nil s =>
    refine ⟨fun _ => .nil s, fun _ bs a u v hbs => ?_⟩
    exact absurd (List.prefix_nil.mp hbs) (by simp)
  | @cons s m t a as hok hstep hrest ih =>
    have hm := preserved _ _ _ hs hok hstep
    constructor
    · intro hall
      have hone := hall [] a s m ⟨as, rfl⟩ (.nil s) hstep
      refine .cons ((taken _ _ _ hs hok hstep).mp hone) hstep
        ((ih hm).mp fun bs b u v hbs hrun hb => ?_)
      exact hall (a :: bs) b u v (List.cons_prefix_cons.mpr ⟨rfl, hbs⟩) (.cons hok hstep hrun) hb
    · intro hgood bs b u v hbs hrun hb
      cases hgood with
      | cons hgood hstep' hrest' =>
        cases Option.some.inj (hstep.symm.trans hstep')
        cases hrun with
        | nil =>
          obtain ⟨rfl, -⟩ := List.cons_prefix_cons.mp hbs
          cases Option.some.inj (hstep.symm.trans hb)
          exact (taken _ _ _ hs hok hstep).mpr hgood
        | cons hok' hstep'' hrun =>
          obtain ⟨rfl, htail⟩ := List.cons_prefix_cons.mp hbs
          cases Option.some.inj (hstep.symm.trans hstep'')
          exact (ih hm).mpr hrest' _ _ _ _ htail hrun hb

/-- Either all steps of a run are good, or one that is not has left a mark that no step removes. -/
theorem good_or_marked (I J : σ → Prop) (good : σ → α → Prop)
    (preserved : ∀ s a t, I s → ok s a → step s a = some t → I t)
    (marks : ∀ s a t, I s → ok s a → ¬ good s a → step s a = some t → J t)
    (stays : ∀ s a t, I s → J s → ok s a → step s a = some t → J t)
    {s t : σ} {as : List α} (h : Run step ok s as t) (hs : I s) :
    Run step (fun s a => ok s a ∧ good s a) s as t ∨ J t := by
  induction h with
  | nil s => exact .inl (.nil s)
  | @cons s u t a as hok hstep hrest ih =>
    have hu := preserved _ _ _ hs hok hstep
    by_cases hgood : good s a
    · exact (ih hu).imp_left (.cons ⟨hok, hgood⟩ hstep)
    · have hboth := hrest.invariant (fun s => I s ∧ J s)
        (fun s a t hI hok hstep =>
          ⟨preserved s a t hI.1 hok hstep, stays s a t hI.1 hI.2 hok hstep⟩)
        ⟨hu, marks _ _ _ hs hok hgood hstep⟩
      exact .inr hboth.2

/-- Where the state decides the `key` of the action it allows, two runs from one state go on with
the same key after the same actions. -/
theorem key_eq {κ : Type*} {key : α → κ}
    (keyed : ∀ s a b t u, step s a = some t → step s b = some u → key a = key b)
    {s t u : σ} {as bs before : List α} {a b : α} (h : Run step ok s as t)
    (h' : Run step ok' s bs u) (ha : before ++ [a] <+: as) (hb : before ++ [b] <+: bs) :
    key a = key b := by
  induction before generalizing s as bs with
  | nil =>
    cases h with
    | nil => exact absurd (List.prefix_nil.mp ha) (by simp)
    | cons hok hstep hrest =>
      cases h' with
      | nil => exact absurd (List.prefix_nil.mp hb) (by simp)
      | cons hok' hstep' hrest' =>
        obtain ⟨rfl, -⟩ := List.cons_prefix_cons.mp ha
        obtain ⟨rfl, -⟩ := List.cons_prefix_cons.mp hb
        exact keyed _ _ _ _ _ hstep hstep'
  | cons c before ih =>
    cases h with
    | nil => exact absurd (List.prefix_nil.mp ha) (by simp)
    | cons hok hstep hrest =>
      cases h' with
      | nil => exact absurd (List.prefix_nil.mp hb) (by simp)
      | cons hok' hstep' hrest' =>
        obtain ⟨rfl, htail⟩ := List.cons_prefix_cons.mp ha
        obtain ⟨rfl, htail'⟩ := List.cons_prefix_cons.mp hb
        cases Option.some.inj (hstep.symm.trans hstep')
        exact ih hrest hrest' htail htail'

/-- Two runs that never take different actions after the same ones are equal if neither can go
on. -/
theorem eq_of_stuck {s t u : σ} {as bs : List α} (h : Run step ok s as t)
    (h' : Run step ok' s bs u) (stuck : ∀ a, step t a = none) (stuck' : ∀ a, step u a = none)
    (alike : ∀ before a b, before ++ [a] <+: as → before ++ [b] <+: bs → a = b) : as = bs := by
  induction h generalizing bs with
  | nil s =>
    cases h' with
    | nil => rfl
    | cons hok' hstep' hrest' => exact absurd ((stuck _).symm.trans hstep') (by simp)
  | @cons s m t a as hok hstep hrest ih =>
    cases h' with
    | nil => exact absurd ((stuck' _).symm.trans hstep) (by simp)
    | @cons _ m' _ b bs hok' hstep' hrest' =>
      have hab : a = b := alike [] a b ⟨as, rfl⟩ ⟨bs, rfl⟩
      subst hab
      cases Option.some.inj (hstep.symm.trans hstep')
      have htail := ih hrest' stuck fun before x y hx hy =>
        alike (a :: before) x y (List.cons_prefix_cons.mpr ⟨rfl, hx⟩)
          (List.cons_prefix_cons.mpr ⟨rfl, hy⟩)
      rw [htail]

theorem of_exec [∀ s a, Decidable (ok s a)] {s t : σ} {as : List α}
    (h : exec step ok s as = some t) : Run step ok s as t := by
  induction as generalizing s with
  | nil => cases h; exact .nil _
  | cons a as ih =>
    unfold exec at h
    split_ifs at h with hok
    obtain ⟨u, hu, ht⟩ := Option.bind_eq_some_iff.mp h
    exact .cons hok hu (ih ht)

theorem of_isSome [∀ s a, Decidable (ok s a)] {s : σ} {as : List α}
    (h : (exec step ok s as).isSome) : Run step ok s as ((exec step ok s as).get h) :=
  of_exec (Option.some_get h).symm

end Run

/-- What every element of a list leaves true is true after the whole list. -/
theorem foldl_invariant {β : Type*} (I : σ → Prop) (f : σ → β → σ) (bs : List β)
    (preserved : ∀ s, ∀ b ∈ bs, I s → I (f s b)) {s : σ} (hs : I s) : I (bs.foldl f s) := by
  induction bs generalizing s with
  | nil => exact hs
  | cons b bs ih =>
    exact ih (fun s b' hb' => preserved s b' (List.mem_cons_of_mem _ hb'))
      (preserved s b List.mem_cons_self hs)

theorem foldl_related {β : Type*} (R : σ → σ → Prop) (refl : ∀ s, R s s)
    (trans : ∀ s t u, R s t → R t u → R s u) (f : σ → β → σ) (bs : List β)
    (taken : ∀ s, ∀ b ∈ bs, R s (f s b)) (s : σ) : R s (bs.foldl f s) := by
  induction bs generalizing s with
  | nil => exact refl s
  | cons b bs ih =>
    have hrest : ∀ s, ∀ b' ∈ bs, R s (f s b') := fun s b' hb' =>
      taken s b' (List.mem_cons_of_mem _ hb')
    exact trans _ _ _ (taken s b List.mem_cons_self) (ih hrest (f s b))

/-- In a loop over different elements, one of them has its turn between two stretches of
the others. -/
theorem foldl_turn {β : Type*} [DecidableEq β] (R : σ → σ → Prop) (refl : ∀ s, R s s)
    (trans : ∀ s t u, R s t → R t u → R s u) (f : σ → β → σ) {bs : List β} (distinct : bs.Nodup)
    {b : β} (hb : b ∈ bs) (others : ∀ s b', b ≠ b' → R s (f s b')) (s : σ) :
    R s ((bs.takeWhile (· ≠ b)).foldl f s) ∧
      R (f ((bs.takeWhile (· ≠ b)).foldl f s) b) (bs.foldl f s) := by
  induction bs generalizing s with
  | nil => simp at hb
  | cons a bs ih =>
    obtain ⟨ha, hrest⟩ := List.nodup_cons.mp distinct
    rcases eq_or_ne a b with rfl | hne
    · have hnone : (a :: bs).takeWhile (· ≠ a) = [] := by simp
      rw [hnone]
      exact ⟨refl s, foldl_related R refl trans f bs
        (fun t b' hb' => others t b' fun he => ha (he ▸ hb')) (f s a)⟩
    · have hcons : (a :: bs).takeWhile (· ≠ b) = a :: bs.takeWhile (· ≠ b) := by simp [hne]
      rw [hcons]
      obtain ⟨hbefore, hafter⟩ := ih hrest (List.mem_of_ne_of_mem hne.symm hb) (f s a)
      exact ⟨trans _ _ _ (others s a hne.symm) hbefore, hafter⟩

end Library.Transition
