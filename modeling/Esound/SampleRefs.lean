import Esound.Library.References
import Esound.Reachable

/-!
# Reference counts of samples

`ref_count` of a sample is the number of the players that play it, and
`esd_playing_samples` the number of all of them, as long as the ids of the samples
are distinct: the deferred erasure looks a sample up by its id again.
-/

open Library.References Library.Transition

namespace Esound

/-- The sample a player plays. -/
def EsdPlayer.sampleRef (pl : EsdPlayer) : Option Ptr :=
  if pl.IsSample then some pl.parent else none

theorem EsdPlayer.sampleRef_eq_some {pl : EsdPlayer} {q : Ptr} :
    pl.sampleRef = some q ↔ pl.IsSample ∧ pl.parent = q := by
  unfold EsdPlayer.sampleRef
  split_ifs with h <;> simp [h]

theorem EsdPlayer.SameKind.sampleRef {v w : EsdPlayer} (h : v.SameKind w) :
    v.sampleRef = w.sampleRef := by
  unfold EsdPlayer.sampleRef
  simp only [h.isSample_iff, h.parent]

theorem EsdPlayer.IsStream.sampleRef {pl : EsdPlayer} (h : pl.IsStream) : pl.sampleRef = none := by
  simp [EsdPlayer.sampleRef, h.not_isSample]

namespace Objects

def target (o : Objects) (p : Ptr) : Option Ptr := (o.player p).sampleRef

def refs (o : Objects) (q : Ptr) : ℕ := references o.target (o.lists .players) q

/-- The number of the sample players is right. -/
def Tallied (o : Objects) : Prop := o.playing = holders o.target (o.lists .players)

/-- The counts agree with the players, and ids with samples. -/
structure Balanced (o : Objects) : Prop where
  nodup : o.samples.Nodup
  refCount : ∀ q ∈ o.samples, (o.sample q).refCount = o.refs q
  listed : ∀ p ∈ o.lists .players, ∀ q, o.target p = some q → q ∈ o.samples
  ids : ∀ q ∈ o.samples, (o.sample q).sampleId < o.nextId
  ids_inj : ∀ q ∈ o.samples, ∀ q' ∈ o.samples,
    (o.sample q).sampleId = (o.sample q').sampleId → q = q'

/-- No sample is left that waited for its last player. -/
def NoZombie (o : Objects) : Prop :=
  ∀ q ∈ o.samples, (o.sample q).eraseWhenDone = true → (o.sample q).refCount ≠ 0

theorem target_setPlayer_of_unlisted {o : Objects} {p : Ptr} (fresh : o.Unlisted p) (v : EsdPlayer)
    {l : PlayerList} : ∀ p' ∈ o.lists l, (o.setPlayer p v).target p' = o.target p' := by
  intro p' hp'
  have hne : p' ≠ p := fun he => fresh l (he ▸ hp')
  simp [target, hne]

/-! ## The number of sample players -/

namespace Tallied

variable {o o' : Objects} {p : Ptr} {l : PlayerList}

theorem congr (h : o.Tallied) (hplaying : o'.playing = o.playing)
    (hlist : o'.lists .players = o.lists .players)
    (htarget : ∀ p ∈ o.lists .players, o'.target p = o.target p) : o'.Tallied := by
  unfold Tallied
  rw [hplaying, h, hlist, holders_congr htarget]

theorem update_players (ps : List Ptr) :
    Function.update o.lists l ps .players = if l = .players then ps else o.lists .players := by
  rcases eq_or_ne l .players with rfl | hl
  · simp
  · simp [hl, Function.update_of_ne hl.symm]

/-- A player that plays no sample is listed. -/
theorem push (h : o.Tallied) (hnone : o.target p = none) : (o.setList l (p :: o.lists l)).Tallied := by
  unfold Tallied
  simp only [setList, update_players]
  refine Eq.trans h ?_
  split_ifs with hl
  · subst hl
    have hcons := holders_cons o.target (o.lists .players) (p := p)
    rw [hnone] at hcons
    exact congrArg _ hcons.symm
  · rfl

/-- A player leaves, and is one sample player less if it was one. -/
theorem unlist (h : o.Tallied) (hp : p ∈ o.lists l)
    (hl : l = .players ∨ o.target p = none)
    (hplaying : o'.playing = o.playing - if (o.target p).isSome then 1 else 0)
    (hlists : o'.lists = Function.update o.lists l ((o.lists l).erase p))
    (hplayer : o'.player = o.player) : o'.Tallied := by
  have htarget : o'.target = o.target := funext fun p' => by simp [target, hplayer]
  have hcount : o.playing = holders o.target (o.lists .players) := h
  unfold Tallied
  rw [hplaying, hlists, htarget, update_players]
  split_ifs with hsome hl' hl'
  · subst hl'
    have herase := holders_erase o.target hp
    rw [if_pos hsome] at herase
    omega
  · exact absurd (hl.resolve_left hl') (Option.isSome_iff_ne_none.mp hsome)
  · subst hl'
    have herase := holders_erase o.target hp
    rw [if_neg hsome] at herase
    omega
  · omega

end Tallied

theorem Tallied.effect {cfg : Config} {F : Footprint} {o o' : Objects} (hw : o.WellFormed)
    (h : o.Tallied) (he : Effect cfg F o o') : o'.Tallied := by
  cases he with
  | client | connect | disconnect | buffer | account | sample | skipId | newSample =>
    exact h.congr rfl rfl fun _ _ => rfl
  | openStream l c p v _ _ _ fresh mode =>
    have hplayer : (o.setPlayer p v).Tallied :=
      h.congr rfl rfl (target_setPlayer_of_unlisted fresh v)
    exact (hplayer.push (l := l) (by simp [target, mode.sampleRef])).congr rfl rfl fun _ _ => rfl
  | closeStream l p _ hp mode =>
    have hnone : o.target p = none := mode.sampleRef
    exact h.unlist hp (.inr hnone) (by simp [hnone]) rfl rfl
  | players f kind => exact h.congr rfl rfl fun p _ => (kind p).sampleRef
  | scribble p v fresh => exact h.congr rfl rfl (target_setPlayer_of_unlisted fresh v)
  | freeSample id =>
    obtain ⟨qs, f, heq⟩ := o.eraseSample_frame id
    rw [heq]
    exact h.congr rfl rfl fun _ _ => rfl
  | startSample q p v _ fresh mode =>
    have hplayer : (o.setPlayer p v).Tallied :=
      h.congr rfl rfl (target_setPlayer_of_unlisted fresh v)
    have hsome : (o.setPlayer p v).target p = some v.parent := by
      simpa [target] using EsdPlayer.sampleRef_eq_some.mpr ⟨mode, rfl⟩
    have hcons := holders_cons (o.setPlayer p v).target (o.lists .players) (p := p)
    rw [hsome] at hcons
    have hold : o.playing = holders (o.setPlayer p v).target (o.lists .players) := hplayer
    unfold Tallied
    simp only [setSample, setList, Function.update_self]
    change o.playing + 1 = (holders (o.setPlayer p v).target (p :: o.lists .players) : ℤ)
    rw [hcons, hold]
    simp
  | endSample l p _ hp mode =>
    obtain ⟨qs, f, heq⟩ := o.endSample_frame l p
    have hsome : o.target p = some (o.player p).parent :=
      EsdPlayer.sampleRef_eq_some.mpr ⟨mode, rfl⟩
    rw [heq]
    exact h.unlist hp (.inl (hw.sample_list hp mode)) (by simp [hsome]) rfl rfl
  | dropOther l p _ hp _ hsample =>
    have hnone : o.target p = none := by simp [target, EsdPlayer.sampleRef, hsample]
    exact h.unlist hp (.inr hnone) (by simp [hnone]) rfl rfl

/-! ## The counts of the samples -/

namespace Balanced

variable {o o' : Objects} {q p : Ptr}

theorem find_self (h : o.Balanced) (hq : q ∈ o.samples) :
    (o.samples.find? fun q' => (o.sample q').sampleId = (o.sample q).sampleId) = some q := by
  cases hfind : o.samples.find? fun q' => (o.sample q').sampleId = (o.sample q).sampleId with
  | none =>
    have hnone := List.find?_eq_none.mp hfind q hq
    simp at hnone
  | some q' =>
    have hmem := List.mem_of_find?_eq_some hfind
    have hid : (o.sample q').sampleId = (o.sample q).sampleId := by
      simpa using List.find?_some hfind
    rw [h.ids_inj q' hmem q hq hid]

/-- Nothing that the balance speaks of is different. -/
theorem congr (h : o.Balanced) (hsamples : o'.samples = o.samples)
    (hsample : ∀ q ∈ o.samples, (o'.sample q).refCount = (o.sample q).refCount ∧
      (o'.sample q).sampleId = (o.sample q).sampleId)
    (hlist : o'.lists .players = o.lists .players)
    (htarget : ∀ p ∈ o.lists .players, o'.target p = o.target p)
    (hnext : o.nextId ≤ o'.nextId) : o'.Balanced where
  nodup := hsamples ▸ h.nodup
  refCount q hq := by
    rw [hsamples] at hq
    rw [(hsample q hq).1, h.refCount q hq, refs, refs, hlist, references_congr htarget]
  listed p hp q hq := by
    rw [hlist] at hp
    rw [htarget p hp] at hq
    exact hsamples ▸ h.listed p hp q hq
  ids q hq := by
    rw [hsamples] at hq
    rw [(hsample q hq).2]
    exact (h.ids q hq).trans_le hnext
  ids_inj q hq q' hq' hid := by
    rw [hsamples] at hq hq'
    rw [(hsample q hq).2, (hsample q' hq').2] at hid
    exact h.ids_inj q hq q' hq' hid

/-- A sample without players may go. -/
theorem drop (h : o.Balanced) (hq : q ∈ o.samples) (hzero : (o.sample q).refCount = 0) :
    ({ o with samples := o.samples.erase q } : Objects).Balanced where
  nodup := h.nodup.erase q
  refCount q' hq' := h.refCount q' (List.mem_of_mem_erase hq')
  listed p hp q' hq' := by
    have hrefs : o.refs q = 0 := by
      have hcount := h.refCount q hq
      omega
    have hne : q' ≠ q := by
      rintro rfl
      exact references_eq_zero.mp hrefs p hp hq'
    exact (List.mem_erase_of_ne hne).mpr (h.listed p hp q' hq')
  ids q' hq' := h.ids q' (List.mem_of_mem_erase hq')
  ids_inj q₁ h₁ q₂ h₂ := h.ids_inj q₁ (List.mem_of_mem_erase h₁) q₂ (List.mem_of_mem_erase h₂)

theorem eraseSample (h : o.Balanced) (hz : o.NoZombie) (id : ℤ) :
    (o.eraseSample id).Balanced ∧ (o.eraseSample id).NoZombie := by
  unfold Objects.eraseSample
  cases hfind : o.samples.find? fun q => (o.sample q).sampleId = id with
  | none => exact ⟨h, hz⟩
  | some q =>
    have hq := List.mem_of_find?_eq_some hfind
    by_cases href : (o.sample q).refCount ≠ 0
    · simp only [href, if_true, ne_eq, not_false_eq_true]
      refine ⟨h.congr rfl ?_ rfl (fun _ _ => rfl) le_rfl, ?_⟩
      · intro q' _
        rcases eq_or_ne q' q with rfl | hne <;> simp [*]
      · intro q' hq' hflag
        rcases eq_or_ne q' q with rfl | hne
        · simpa using href
        · simp only [setSample, Function.update_of_ne hne] at hflag ⊢
          exact hz q' hq' hflag
    · simp only [href, if_false]
      exact ⟨h.drop hq (not_not.mp href),
        fun q' hq' hflag => hz q' (List.mem_of_mem_erase hq') hflag⟩

/-- The list of players changes by players that play no sample. -/
theorem relist (h : o.Balanced) (ps : List Ptr)
    (hrefs : ∀ q, references o.target ps q = o.refs q) :
    (o.setList .players ps).Balanced where
  nodup := h.nodup
  refCount q hq := by
    rw [refs]
    simp only [setList, Function.update_self]
    exact (h.refCount q hq).trans (congrArg _ (hrefs q).symm)
  listed p hp q hq := by
    simp only [setList, Function.update_self] at hp
    have hpos : references o.target ps q ≠ 0 := fun hzero =>
      references_eq_zero.mp hzero p hp hq
    rw [hrefs q, refs, Ne, references_eq_zero] at hpos
    push Not at hpos
    obtain ⟨p', hp', hq'⟩ := hpos
    exact h.listed p' hp' q hq'
  ids := h.ids
  ids_inj := h.ids_inj

theorem relist_other (h : o.Balanced) {l : PlayerList} (hl : l ≠ .players) (ps : List Ptr) :
    (o.setList l ps).Balanced :=
  h.congr rfl (fun _ _ => ⟨rfl, rfl⟩) (by simp [Function.update_of_ne (Ne.symm hl)])
    (fun _ _ => rfl) le_rfl

/-- A stream is listed. -/
theorem push (h : o.Balanced) (fresh : o.Unlisted p) (l : PlayerList) {v : EsdPlayer}
    (mode : v.IsStream) : ((o.setPlayer p v).setList l (p :: o.lists l)).Balanced := by
  have hplayer : (o.setPlayer p v).Balanced :=
    h.congr rfl (fun _ _ => ⟨rfl, rfl⟩) rfl (target_setPlayer_of_unlisted fresh v) le_rfl
  have hnone : (o.setPlayer p v).target p = none := by simp [target, mode.sampleRef]
  by_cases hl : l = .players
  · subst hl
    refine hplayer.relist _ fun q => ?_
    rw [references_cons, hnone]
    simp [refs]
  · exact hplayer.relist_other hl _

/-- A player that plays no sample is taken off a list. -/
theorem unlist (h : o.Balanced) {l : PlayerList} (hp : p ∈ o.lists l) (hnone : o.target p = none) :
    (o.setList l ((o.lists l).erase p)).Balanced := by
  by_cases hl : l = .players
  · subst hl
    refine h.relist _ fun q => ?_
    have herase := references_erase o.target (q := q) hp
    simpa only [hnone, reduceCtorEq, if_false, add_zero, refs] using herase
  · exact h.relist_other hl _

/-- The list of players changes by players of one sample, and the counts with it. -/
theorem recount (h : o.Balanced) (k playing : ℤ) (ps : List Ptr)
    (hrefs : ∀ q', (references o.target ps q' : ℤ) = o.refs q' + if q' = q then k else 0)
    (hlisted : ∀ p ∈ ps, ∀ q', o.target p = some q' → q' ∈ o.samples) :
    ({ (o.setList .players ps).setSample q
        { o.sample q with refCount := (o.sample q).refCount + k } with
      playing := playing } : Objects).Balanced := by
  have hid : ∀ q', (Function.update o.sample q
      { o.sample q with refCount := (o.sample q).refCount + k } q').sampleId =
        (o.sample q').sampleId := by
    intro q'
    rcases eq_or_ne q' q with rfl | hne <;> simp [*]
  exact
    { nodup := h.nodup
      refCount := fun q' hq' => by
        have hcount := h.refCount q' hq'
        have hnew := hrefs q'
        rw [refs]
        simp only [setSample, setList, Function.update_self]
        refine Eq.trans ?_ hnew.symm
        rcases eq_or_ne q' q with rfl | hne
        · simpa using hcount
        · simpa [hne] using hcount
      listed := fun p hp q' hq' => by
        simp only [setSample, setList, Function.update_self] at hp
        exact hlisted p hp q' hq'
      ids := fun q' hq' => (hid q').symm ▸ h.ids q' hq'
      ids_inj := fun q₁ h₁ q₂ h₂ he => by
        simp only [setSample, setList, hid] at he
        exact h.ids_inj q₁ h₁ q₂ h₂ he }

/-- A player of a sample is taken off the list, and off the counts. -/
theorem release (h : o.Balanced) (hp : p ∈ o.lists .players) (hq : o.target p = some q) :
    ({ (o.setList .players ((o.lists .players).erase p)).setSample q
        { o.sample q with refCount := (o.sample q).refCount - 1 } with
      playing := o.playing - 1 } : Objects).Balanced := by
  have hrefs : ∀ q', (references o.target ((o.lists .players).erase p) q' : ℤ) =
      o.refs q' + if q' = q then -1 else 0 := by
    intro q'
    have herase := references_erase o.target (q := q') hp
    rw [refs, ← herase, hq]
    rcases eq_or_ne q' q with rfl | hne
    · simp
    · simp [hne, hne.symm]
  simpa only [sub_eq_add_neg] using h.recount (-1) (o.playing - 1) _ hrefs
    fun p' hp' => h.listed p' (List.mem_of_mem_erase hp')

/-- A player of a sample is listed, and counted. -/
theorem start (h : o.Balanced) (fresh : o.Unlisted p) (hlisted : q ∈ o.samples) {v : EsdPlayer}
    (mode : v.IsSample) (parent : v.parent = q) :
    ({ ((o.setPlayer p v).setList .players (p :: o.lists .players)).setSample q
          { o.sample q with refCount := (o.sample q).refCount + 1 } with
        playing := o.playing + 1 } : Objects).Balanced := by
  have hplayer : (o.setPlayer p v).Balanced :=
    h.congr rfl (fun _ _ => ⟨rfl, rfl⟩) rfl (target_setPlayer_of_unlisted fresh v) le_rfl
  have hq : (o.setPlayer p v).target p = some q := by
    simpa [target] using EsdPlayer.sampleRef_eq_some.mpr ⟨mode, parent⟩
  refine hplayer.recount 1 _ (p :: o.lists .players) (fun q' => ?_) ?_
  · rw [references_cons, hq]
    rcases eq_or_ne q' q with rfl | hne
    · simp [refs]
    · simp [refs, hne, hne.symm]
  · intro p' hp' q' hq'
    rcases List.mem_cons.mp hp' with rfl | hp'
    · exact Option.some_injective _ (hq.symm.trans hq') ▸ hlisted
    · exact hplayer.listed p' hp' q' hq'

theorem account (h : o.Balanced) (e : Event) : (o.account e).Balanced :=
  h.congr rfl (fun _ _ => ⟨rfl, rfl⟩) rfl (fun _ _ => rfl) le_rfl

theorem eraseSample_unused (h : o.Balanced) (hq : q ∈ o.samples)
    (hzero : (o.sample q).refCount = 0) :
    o.eraseSample (o.sample q).sampleId = { o with samples := o.samples.erase q } := by
  unfold Objects.eraseSample
  rw [h.find_self hq]
  simp only [hzero, ne_eq, not_true_eq_false, if_false]

/-- The last player of a sample that is to go takes the sample with it. -/
theorem endSample (h : o.Balanced) (hz : o.NoZombie) (hp : p ∈ o.lists .players)
    (mode : (o.player p).IsSample) :
    (o.endSample .players p).Balanced ∧ (o.endSample .players p).NoZombie := by
  have hq : o.target p = some (o.player p).parent := EsdPlayer.sampleRef_eq_some.mpr ⟨mode, rfl⟩
  have hlisted := h.listed p hp _ hq
  have hrelease := h.release hp hq
  have hothers : ∀ q' ∈ o.samples, q' ≠ (o.player p).parent →
      (o.sample q').eraseWhenDone = true → (o.sample q').refCount ≠ 0 :=
    fun q' hq' _ => hz q' hq'
  suffices hboth : ((o.setList .players ((o.lists .players).erase p)).releaseSample
        (o.player p).parent).Balanced ∧
      ((o.setList .players ((o.lists .players).erase p)).releaseSample
        (o.player p).parent).NoZombie from
    ⟨hboth.1.account _, hboth.2⟩
  generalize (o.player p).parent = q at *
  set r : Objects := { (o.setList .players ((o.lists .players).erase p)).setSample q
      { o.sample q with refCount := (o.sample q).refCount - 1 } with
    playing := o.playing - 1 } with hr
  have hsample : ∀ q' ≠ q, r.sample q' = o.sample q' := fun q' hne => by simp [hr, hne]
  have hself : r.sample q = { o.sample q with refCount := (o.sample q).refCount - 1 } := by
    simp [hr]
  have hrest : ((o.setList .players ((o.lists .players).erase p)).releaseSample q) =
      if (r.sample q).eraseWhenDone ∧ (r.sample q).refCount = 0 then
        r.eraseSample (r.sample q).sampleId
      else r := by
    rw [hself]
    rfl
  rw [hrest]
  split_ifs with hlast
  · rw [hrelease.eraseSample_unused hlisted hlast.2]
    refine ⟨hrelease.drop hlisted hlast.2, fun q' hq' => ?_⟩
    obtain ⟨hne, hq'⟩ := h.nodup.mem_erase_iff.mp hq'
    simp only [hsample q' hne]
    exact hothers q' hq' hne
  · refine ⟨hrelease, fun q' hq' => ?_⟩
    rcases eq_or_ne q' q with rfl | hne
    · exact fun hflag hzero => hlast ⟨hflag, hzero⟩
    · rw [hsample q' hne]
      exact hothers q' hq' hne

theorem newSample (h : o.Balanced) (fresh : q ∉ o.samples) {v : EsdSample}
    (id : v.sampleId = o.nextId) (refs : v.refCount = 0) {next : ℤ} (hnext : next = o.nextId + 1) :
    ({ o.setSample q v with samples := q :: o.samples, nextId := next } : Objects).Balanced := by
  have hold : ∀ q' ∈ o.samples, Function.update o.sample q v q' = o.sample q' := fun q' hq' =>
    Function.update_of_ne (fun he : q' = q => fresh (he ▸ hq')) _ _
  have hself : Function.update o.sample q v q = v := Function.update_self _ _ _
  exact
    { nodup := List.nodup_cons.mpr ⟨fresh, h.nodup⟩
      refCount := fun q' hq' => by
        rcases List.mem_cons.mp hq' with rfl | hq'
        · have hzero : o.refs q' = 0 := references_eq_zero.mpr fun p hp htarget =>
            fresh (h.listed p hp q' htarget)
          change (Function.update o.sample q' v q').refCount = (o.refs q' : ℤ)
          rw [hself, refs, hzero]
          rfl
        · change (Function.update o.sample q v q').refCount = (o.refs q' : ℤ)
          rw [hold q' hq']
          exact h.refCount q' hq'
      listed := fun p hp q' hq' => List.mem_cons_of_mem _ (h.listed p hp q' hq')
      ids := fun q' hq' => by
        change (Function.update o.sample q v q').sampleId < next
        rcases List.mem_cons.mp hq' with rfl | hq'
        · rw [hself, id]
          omega
        · rw [hold q' hq']
          have hlt := h.ids q' hq'
          omega
      ids_inj := fun q₁ h₁ q₂ h₂ he => by
        change (Function.update o.sample q v q₁).sampleId =
          (Function.update o.sample q v q₂).sampleId at he
        rcases List.mem_cons.mp h₁ with rfl | m₁ <;> rcases List.mem_cons.mp h₂ with rfl | m₂
        · rfl
        · rw [hself, hold q₂ m₂, id] at he
          have hlt := h.ids q₂ m₂
          omega
        · rw [hself, hold q₁ m₁, id] at he
          have hlt := h.ids q₁ m₁
          omega
        · rw [hold q₁ m₁, hold q₂ m₂] at he
          exact h.ids_inj q₁ m₁ q₂ m₂ he }

end Balanced

section Preservation

variable {cfg : Config} {F : Footprint} {o o' : Objects}

theorem Balanced.effect (hid : ∀ n, cfg.nextId n = n + 1) (hw : o.WellFormed) (h : o.Balanced)
    (hz : o.NoZombie) (he : Effect cfg F o o') : o'.Balanced ∧ o'.NoZombie := by
  cases he with
  | client | connect | disconnect | buffer =>
    exact ⟨h.congr rfl (fun _ _ => ⟨rfl, rfl⟩) rfl (fun _ _ => rfl) le_rfl, hz⟩
  | account e => exact ⟨h.account e, hz⟩
  | openStream l c p v _ _ _ fresh mode =>
    exact ⟨(h.push fresh l mode).congr rfl (fun _ _ => ⟨rfl, rfl⟩) rfl (fun _ _ => rfl) le_rfl,
      hz⟩
  | closeStream l p _ hp mode =>
    have hnone : o.target p = none := mode.sampleRef
    exact ⟨(h.unlist hp hnone).congr rfl (fun _ _ => ⟨rfl, rfl⟩) rfl (fun _ _ => rfl) le_rfl,
      hz⟩
  | dropOther l p _ hp _ hsample =>
    have hnone : o.target p = none := by simp [target, EsdPlayer.sampleRef, hsample]
    exact ⟨(h.unlist hp hnone).account _, hz⟩
  | players f kind =>
    exact ⟨h.congr rfl (fun _ _ => ⟨rfl, rfl⟩) rfl (fun p _ => (kind p).sampleRef) le_rfl, hz⟩
  | scribble p v fresh =>
    exact ⟨h.congr rfl (fun _ _ => ⟨rfl, rfl⟩) rfl (target_setPlayer_of_unlisted fresh v)
      le_rfl, hz⟩
  | sample q v id refs flag =>
    have hsame : ∀ q', (Function.update o.sample q v q').refCount = (o.sample q').refCount ∧
        (Function.update o.sample q v q').sampleId = (o.sample q').sampleId ∧
        (Function.update o.sample q v q').eraseWhenDone = (o.sample q').eraseWhenDone := by
      intro q'
      rcases eq_or_ne q' q with rfl | hne <;> simp [*]
    refine ⟨h.congr rfl (fun q' _ => ⟨(hsame q').1, (hsame q').2.1⟩) rfl (fun _ _ => rfl) le_rfl,
      fun q' hq' => ?_⟩
    simp only [setSample, (hsame q').1, (hsame q').2.2]
    exact hz q' hq'
  | skipId =>
    exact ⟨h.congr rfl (fun _ _ => ⟨rfl, rfl⟩) rfl (fun _ _ => rfl) (by simp [hid]), hz⟩
  | newSample q v fresh id refs flag =>
    exact ⟨h.newSample fresh id refs (hid o.nextId), fun q' hq' => by
      rcases List.mem_cons.mp hq' with rfl | hq'
      · simp [flag]
      · have hne : q' ≠ q := fun he => fresh (he ▸ hq')
        simp only [setSample, Function.update_of_ne hne]
        exact hz q' hq'⟩
  | freeSample id => exact h.eraseSample hz id
  | startSample q p v hq fresh mode parent =>
    refine ⟨h.start fresh hq mode parent, fun q' hq' => ?_⟩
    rcases eq_or_ne q' q with rfl | hne
    · intro _
      have hcount := h.refCount q' hq'
      simp only [setSample, setList, Function.update_self]
      omega
    · simp only [setSample, setList, Function.update_of_ne hne]
      exact hz q' hq'
  | endSample l p _ hp mode =>
    obtain rfl := hw.sample_list hp mode
    exact h.endSample hz hp mode

end Preservation

end Objects

/-! ## In every run -/

/-- The players of a sample that are mixed. -/
def Server.references (s : Server) (q : Ptr) : ℕ :=
  s.esdPlayersList.countP fun p => (s.player p).IsSample ∧ (s.player p).parent = q

def Server.samplePlayers (s : Server) : ℕ :=
  s.esdPlayersList.countP fun p => (s.player p).IsSample

theorem Server.references_eq (s : Server) (q : Ptr) : s.references q = s.objects.refs q :=
  List.countP_congr fun p _ => by
    simp only [decide_eq_true_eq]
    exact EsdPlayer.sampleRef_eq_some.symm

theorem Server.samplePlayers_eq (s : Server) :
    s.samplePlayers = holders s.objects.target (s.objects.lists .players) :=
  List.countP_congr fun p _ => by
    simp only [decide_eq_true_eq, Objects.target, EsdPlayer.sampleRef]
    split_ifs with h <;> simp_all

theorem Server.Initial.balanced {s : Server} (hs : s.Initial) : s.objects.Balanced where
  nodup := by simp [hs.samples]
  refCount q hq := by simp [hs.samples] at hq
  listed p hp := by simp [hs.list .players] at hp
  ids q hq := by simp [hs.samples] at hq
  ids_inj q hq := by simp [hs.samples] at hq

theorem Server.Initial.tallied {s : Server} (hs : s.Initial) : s.objects.Tallied := by
  simp [Objects.Tallied, hs.playing, hs.list .players, holders]

/-- The number of sample players is right in every run, with or without resets. -/
theorem Run.tallied {cfg : Config} {ok : Server → Action → Prop} {s t : Server} {as : List Action}
    (hs : s.Initial) (h : Runs cfg ok s as t) : t.objects.Tallied := by
  have hboth := h.invariant (fun s => s.objects.WellFormed ∧ s.objects.Tallied) ?_
    ⟨hs.wellFormed, hs.tallied⟩
  · exact hboth.2
  · rintro s a t ⟨hw, ht⟩ - hstep
    refine ⟨step_wellFormed hw hstep, ?_⟩
    by_cases hreset : a.IsReset
    · cases a with
      | reset scrambled =>
        obtain ⟨-, h⟩ := step_eq_some hstep
        cases h
        rw [resetDaemon_objects]
        exact ht
      | _ => exact hreset.elim
    · exact (step_effects hw hstep hreset).invariant Objects.Tallied
        (fun _ _ hw ht he => ht.effect hw he) hw ht

/-- The reference counts are right in every state a daemon reaches without a reset. -/
theorem sample_references_exact {cfg : Config} (hid : ∀ n, cfg.nextId n = n + 1) {s t : Server}
    {as : List Action} (hs : s.Initial) (h : Runs cfg NoReset s as t) :
    (∀ q ∈ t.esdSamplesList, (t.sample q).refCount = t.references q) ∧
      t.esdPlayingSamples = t.samplePlayers ∧
      (∀ p ∈ t.esdPlayersList, (t.player p).IsSample →
        (t.player p).parent ∈ t.esdSamplesList) ∧
      ∀ q ∈ t.esdSamplesList, ¬ ((t.sample q).eraseWhenDone = true ∧ (t.sample q).refCount = 0) := by
  have hzombie : s.objects.NoZombie := by
    intro q hq
    simp [hs.samples] at hq
  obtain ⟨hb, hz⟩ := Run.objects_invariant (fun o => o.Balanced ∧ o.NoZombie)
    (fun _ _ _ hw ho he => ho.1.effect hid hw ho.2 he) h hs.wellFormed ⟨hs.balanced, hzombie⟩
  refine ⟨fun q hq => ?_, ?_, fun p hp mode => ?_, fun q hq hflag => ?_⟩
  · rw [t.references_eq]
    exact hb.refCount q hq
  · rw [t.samplePlayers_eq]
    exact Run.tallied hs h
  · exact hb.listed p hp _ (EsdPlayer.sampleRef_eq_some.mpr ⟨mode, rfl⟩)
  · exact hz q hq hflag.1 hflag.2

/-- A client caches a sample of four octets and has it played. -/
def cachingRun : List Action :=
  [.accept 1 5 (.sending
      [handshake 7, Word.octets 6#32,
        Word.octets (esdBits16 ||| esdMono) ++ Word.octets 44100#32 ++ Word.octets 4#32 ++
          nameArray [],
        [1, 2, 3, 4], Word.octets 8#32, Word.octets 1#32]),
    .poll 1 (.allocating 0), .poll 1 (.allocating 0), .poll 1 (.allocating 2),
    .poll 1 (.allocating 0), .poll 1 (.allocating 3)]

theorem cachingRun_ends : (exec (step .smallBlocks) NoReset .blank cachingRun).isSome := by
  decide +kernel

theorem sample_references_exact_cached :
    ∃ t, Runs .smallBlocks NoReset .blank cachingRun t ∧ t.esdSamplesList = [2] ∧
      t.esdPlayersList = [3] ∧ (t.sample 2).refCount = 1 ∧ (t.sample 2).refCount = t.references 2 := by
  refine ⟨_, Run.of_isSome cachingRun_ends, by decide +kernel, by decide +kernel, by decide +kernel, ?_⟩
  have hexact := sample_references_exact (fun _ => rfl) Server.blank_initial
    (Run.of_isSome cachingRun_ends)
  exact hexact.1 2 (by decide +kernel)

end Esound
