import Esound.Library.History
import Esound.SampleIds

/-!
# Looking samples up by name

The search for a name takes the first sample of the list, and samples are listed first, so
that it finds the one added last of those that are left. What was added in a run is a history
of its own here, kept from the requests and not from the list.
-/

open Library.Buffer Library.History Library.Transition

namespace Esound

/-- A name field as a string, cut to the length of the array it is kept in. -/
def cutName (field : List Octet) : List Octet := (field.takeWhile (· ≠ 0)).take (esdNameMax - 1)

/-- The name the last request was for, if that was to cache a sample: the 128 octets behind the
format, the rate and the length. -/
def requestedName (calls : List Call) : List Octet :=
  match calls.getLast? with
  | some (.handled _ .sampleCache protoData _) => cutName (protoData.drop 12)
  | _ => []

/-- The ids and names of the samples that a step adds to the list. -/
def newEntries (s t : Server) : List (ℤ × List Octet) :=
  (t.esdSamplesList.filter (· ∉ s.esdSamplesList)).map fun q =>
    ((t.sample q).sampleId, requestedName t.calls)

/-- What the steps of a run add, the latest first. -/
def added (cfg : Config) : Server → List Action → List (ℤ × List Octet)
  | _, [] => []
  | s, a :: as =>
    match step cfg s a with
    | none => []
    | some t => added cfg t as ++ newEntries s t

/-- The id the request for a name is answered with: of the latest addition of that name that is
left, or -1. -/
def lookupName (history : List (ℤ × List Octet)) (left : List ℤ) (name : List Octet) : ℤ :=
  match latest (· = name) left history with
  | some e => e.1
  | none => -1

section Steps

variable {cfg : Config} {env : PollEnv} {c : Ptr} {s t u : Server} {a : Action}
  {r : Server × Bool} {history : List (ℤ × List Octet)}

/-- What a step does to the list of samples: some may leave, or one is added. -/
inductive Enters (cfg : Config) (s t : Server) : Prop
  | kept (samples : t.esdSamplesList ⊆ s.esdSamplesList) (entries : t.entries.Sublist s.entries)
  | new (q : Ptr) (fresh : q ∉ s.esdSamplesList) (samples : t.esdSamplesList = q :: s.esdSamplesList)
      (entries : t.entries = (s.esdNextSampleId, requestedName t.calls) :: s.entries)

theorem Enters.newEntries (h : Enters cfg s t) :
    newEntries s t = [] ∧ t.entries.Sublist s.entries ∨
      newEntries s t = [(s.esdNextSampleId, requestedName t.calls)] ∧
        t.entries = (s.esdNextSampleId, requestedName t.calls) :: s.entries := by
  cases h with
  | kept samples entries =>
    refine .inl ⟨?_, entries⟩
    rw [Esound.newEntries, List.filter_eq_nil_iff.mpr fun q hq => by simpa using samples hq]
    rfl
  | new q fresh samples entries =>
    refine .inr ⟨?_, entries⟩
    have hrest : s.esdSamplesList.filter (· ∉ s.esdSamplesList) = [] :=
      List.filter_eq_nil_iff.mpr fun q hq => by simpa using hq
    have hfirst : (t.sample q).sampleId = s.esdNextSampleId := by
      have hhead := congrArg List.head? entries
      simp only [Server.entries, samples, List.map_cons, List.head?_cons, Option.some.injEq,
        Prod.mk.injEq] at hhead
      exact hhead.1
    rw [Esound.newEntries, samples, List.filter_cons_of_pos (by simpa using fresh), hrest]
    simp only [List.map_cons, List.map_nil, hfirst]

theorem requestedName_handled {calls : List Call} (m : Mem) (ok : Bool) :
    requestedName (calls ++ [.handled c .sampleCache (load m 0 140) ok]) = nameOf m 12 := by
  have hsplit := load_add m 0 12 128
  rw [Nat.cast_zero, zero_add] at hsplit
  simp only [requestedName, List.getLast?_concat]
  rw [show (140 : ℕ) = 12 + 128 from rfl, hsplit, List.drop_left' (by simp)]
  rfl

theorem Enters.of_shelved {D : Set Deed} (h : Shelved D s t) : Enters cfg s t :=
  .kept h.listed.subset h.entries

theorem Enters.then (h : Enters cfg s t) (shelf : u.shelf = t.shelf) (calls : u.calls = t.calls) :
    Enters cfg s u := by
  have hsamples : u.esdSamplesList = t.esdSamplesList := congrArg Shelf.samples shelf
  have hentries : u.entries = t.entries := entries_of_shelf shelf
  cases h with
  | kept samples entries => exact .kept (hsamples ▸ samples) (hentries ▸ entries)
  | new q fresh samples entries =>
    exact .new q fresh (hsamples.trans samples) (by rw [hentries, calls, entries])

theorem handler_enters {request : Proto} (state : (s.client c).state ≠ .cachingSample)
    (fresh : env.malloc ∉ s.esdSamplesList) (h : handler cfg env request s c = some r) :
    Enters cfg s (r.1.record
      (.handled c request (load (s.client c).protoData 0 request.dataLength.toNat) r.2)) := by
  by_cases hcache : request = .sampleCache
  · subst hcache
    by_cases hroom : SampleRoom env s c
    · obtain ⟨hsamples, hentries⟩ := esdProtoSampleCache_enters state hroom fresh h
      refine .new env.malloc fresh hsamples ?_
      have hname : requestedName (r.1.record (.handled c .sampleCache
          (load (s.client c).protoData 0 (Proto.dataLength .sampleCache).toNat) r.2)).calls =
            nameOf (s.client c).protoData 12 := requestedName_handled _ _
      rw [hname]
      exact hentries
    · have hshelf := esdProtoSampleCache_refuses state hroom h
      exact .of_shelved (D := ∅) (.same hshelf)
  · have hkept : Enters cfg s r.1 := .of_shelved (handler_shelved hcache h)
    cases hkept with
    | kept samples entries => exact .kept samples entries
    | new q hq samples => exact absurd (samples ▸ (handler_shelved hcache h).listed.subset) (by simp [hq])

theorem step_enters (h : step cfg s a = some t) : Enters cfg s t := by
  cases a with
  | poll c env =>
    obtain ⟨⟨-, -, fresh⟩, h⟩ := step_eq_some h
    obtain ⟨r, hr, rfl⟩ := Option.map_eq_some_iff.mp h
    have hturn : Enters cfg s r.1 := by
      cases pollTurn_ends hr with
      | heard _ hheard => exact .of_shelved (hheard.keeps (D := ∅)).toShelved
      | handled request u hheard _ state r' hhandler =>
        have hfresh : env.malloc ∉ u.esdSamplesList := by rwa [hheard.lists.2.2]
        have hone := handler_enters (by simp [state]) hfresh hhandler
        have hsamples : u.esdSamplesList = s.esdSamplesList := hheard.lists.2.2
        have hentries : u.entries = s.entries := by
          rw [hheard.rest]
          rfl
        have hnext : u.esdNextSampleId = s.esdNextSampleId := hheard.besides.nextId
        cases hone with
        | kept samples entries => exact .kept (hsamples ▸ samples) (hentries ▸ entries)
        | new q hq samples entries =>
          exact .new q (hsamples ▸ hq) (hsamples ▸ samples) (by rw [entries, hnext, hentries])
      | resumed caching r' hhandler =>
        obtain ⟨hsamples, hentries⟩ := esdProtoSampleCache_resumed caching hhandler
        have hkept : Enters cfg s r'.1 :=
          .kept (by rw [hsamples]; exact List.Subset.refl _) (by rw [hentries])
        cases hkept with
        | kept samples entries => exact .kept samples entries
        | new q hq samples => exact absurd (hsamples.symm.trans samples) (by simp)
    split_ifs
    · exact hturn
    · refine hturn.then (eraseClient_idle c).shelf ?_
      simp only [eraseClient]
      split_ifs <;> rfl
  | _ => exact .of_shelved (step_shelved (D := Set.univ) (Set.mem_univ _) h (by simp))

/-! ## Runs -/

/-- The list is what is left of the history, and the ids of the history fall. -/
structure Logged (s : Server) (history : List (ℤ × List Octet)) : Prop where
  left : s.entries.Sublist history
  falling : (history.map Prod.fst).Pairwise (· > ·)
  range : ∀ id ∈ history.map Prod.fst, 0 < id ∧ id < s.esdNextSampleId
  counter : 0 < s.esdNextSampleId

theorem step_logged (hid : ∀ n, cfg.nextId n = n + 1) (hs : Logged s history)
    (h : step cfg s a = some t) (hreset : ¬ a.IsReset) : Logged t (newEntries s t ++ history) := by
  have hdraws := step_draws h hreset
  have hle : s.esdNextSampleId ≤ t.esdNextSampleId := by
    cases hdraws with
    | none next => exact next.ge
    | one next => rw [next, hid]; omega
  rcases (step_enters h).newEntries with ⟨hnew, hkept⟩ | ⟨hnew, hentries⟩
  · rw [hnew, List.nil_append]
    exact ⟨hkept.trans hs.left, hs.falling,
      fun id hmem => ⟨(hs.range id hmem).1, (hs.range id hmem).2.trans_le hle⟩, hs.counter.trans_le hle⟩
  · have hnext : t.esdNextSampleId = s.esdNextSampleId + 1 := by
      cases hdraws with
      | none next ids =>
        have hlength := ids.length_le
        rw [t.sampleIds_eq, s.sampleIds_eq, hentries] at hlength
        simp at hlength
      | one next => rw [next, hid]
    rw [hnew, List.singleton_append]
    refine ⟨?_, ?_, ?_, hs.counter.trans_le hle⟩
    · rw [hentries]
      exact hs.left.cons_cons _
    · exact List.pairwise_cons.mpr ⟨fun id hmem => (hs.range id hmem).2, hs.falling⟩
    · rw [List.map_cons, List.forall_mem_cons, hnext]
      exact ⟨⟨hs.counter, lt_add_one _⟩,
        fun id hmem => ⟨(hs.range id hmem).1, (hs.range id hmem).2.trans (lt_add_one _)⟩⟩

theorem Run.logged (hid : ∀ n, cfg.nextId n = n + 1) {as : List Action} (hs : Logged s history)
    (h : Runs cfg NoReset s as t) : Logged t (added cfg s as ++ history) := by
  induction h generalizing history with
  | nil s => exact hs
  | cons hok hstep _ ih =>
    have hone := ih (step_logged hid hs hstep hok)
    simp only [added, hstep, List.append_assoc]
    exact hone

theorem Logged.nodup (h : Logged s history) : (history.map Prod.fst).Nodup :=
  h.falling.imp fun hlt => ne_of_gt hlt

theorem Server.Initial.logged (hs : s.Initial) : Logged s [] := by
  refine ⟨?_, .nil, by simp, ?_⟩
  · simp [Server.entries, hs.samples]
  · rw [hs.nextId]
    norm_num

/-- The search through the list finds the latest of the additions that are left. -/
theorem esdProtoSampleGetid_lookup (h : Logged s history) (c : Ptr) :
    esdProtoSampleGetid s c =
      ((reply s c (lookupName history s.sampleIds (nameOf (s.client c).protoData 0))).1, true) := by
  have hfind := latest_eq_find? (· = nameOf (s.client c).protoData 0) h.left h.nodup
  rw [← s.sampleIds_eq] at hfind
  simp only [lookupName, hfind, Server.entries, List.find?_map, Function.comp_def]
  simp only [esdProtoSampleGetid]
  cases s.esdSamplesList.find? fun q => (s.sample q).name = nameOf (s.client c).protoData 0 with
  | none => rfl
  | some q => rfl

theorem Heard.logged (hheard : Heard c t u) (h : Logged t history) :
    Logged u history ∧ u.sampleIds = t.sampleIds := by
  have hentries : u.entries = t.entries := by
    rw [hheard.rest]
    rfl
  have hnext : u.esdNextSampleId = t.esdNextSampleId := hheard.besides.nextId
  refine ⟨⟨hentries ▸ h.left, h.falling, hnext ▸ h.range, hnext ▸ h.counter⟩, ?_⟩
  rw [hheard.rest]
  rfl

theorem lookupName_range (h : Logged s history) (left : List ℤ) (name : List Octet) :
    lookupName history left name = -1 ∨
      0 < lookupName history left name ∧ lookupName history left name < s.esdNextSampleId := by
  simp only [lookupName]
  split
  · rename_i e hlatest
    exact .inr (h.range e.1 (List.mem_map_of_mem (List.mem_of_find?_eq_some hlatest)))
  · exact .inl rfl

end Steps

/-! ## Samples that are free once they are played -/

/-- The sample of the id is to go with its last player, if it is there. -/
def Objects.Freed (id : ℤ) (o : Objects) : Prop :=
  ∀ q ∈ o.samples, (o.sample q).sampleId = id → (o.sample q).eraseWhenDone = true

section Freeing

variable {cfg : Config} {F : Footprint} {o o' : Objects} {id : ℤ}

theorem Objects.Freed.of_sample (h : o.Freed id) (samples : o'.samples ⊆ o.samples)
    (sample : ∀ q, (o'.sample q).sampleId = (o.sample q).sampleId ∧
      ((o.sample q).eraseWhenDone = true → (o'.sample q).eraseWhenDone = true)) : o'.Freed id := by
  intro q hq hid
  exact (sample q).2 (h q (samples hq) ((sample q).1 ▸ hid))

theorem Objects.eraseSample_sample (id' : ℤ) :
    (o.eraseSample id').samples ⊆ o.samples ∧
      ∀ q, ((o.eraseSample id').sample q).sampleId = (o.sample q).sampleId ∧
        ((o.sample q).eraseWhenDone = true → ((o.eraseSample id').sample q).eraseWhenDone = true) := by
  simp only [Objects.eraseSample]
  split
  · exact ⟨List.Subset.refl _, fun _ => ⟨rfl, fun hflag => hflag⟩⟩
  · rename_i q₀ _
    split_ifs
    · refine ⟨List.Subset.refl _, fun q => ?_⟩
      rcases eq_or_ne q q₀ with rfl | hne
      · simp
      · simp [hne]
    · exact ⟨List.erase_subset, fun _ => ⟨rfl, fun hflag => hflag⟩⟩

theorem Objects.Freed.eraseSample (h : o.Freed id) (id' : ℤ) : (o.eraseSample id').Freed id :=
  h.of_sample (Objects.eraseSample_sample id').1 (Objects.eraseSample_sample id').2

theorem Objects.Freed.setSample (h : o.Freed id) {q : Ptr} {v : EsdSample}
    (sameId : v.sampleId = (o.sample q).sampleId) (flag : v.eraseWhenDone = (o.sample q).eraseWhenDone) :
    (o.setSample q v).Freed id := by
  refine h.of_sample (List.Subset.refl _) fun q' => ?_
  rcases eq_or_ne q' q with rfl | hne
  · simp [sameId, flag]
  · simp [hne]

theorem Objects.Freed.effect (hbelow : id < o.nextId) (h : o.Freed id) (he : Effect cfg F o o') :
    o'.Freed id := by
  cases he with
  | client | connect | disconnect | openStream | closeStream | players | scribble | buffer | account
  | skipId | dropOther => exact h
  | sample q v sameId refs flag => exact h.setSample sameId flag
  | newSample q v fresh newId =>
    intro q' hq' hid
    rcases List.mem_cons.mp hq' with rfl | hold
    · simp only [Objects.setSample, Function.update_self, newId] at hid
      omega
    · have hne : q' ≠ q := fun he => fresh (he ▸ hold)
      simp only [Objects.setSample, Function.update_of_ne hne] at hid ⊢
      exact h q' hold hid
  | freeSample id' => exact h.eraseSample id'
  | startSample q p v =>
    have hset : (o.setSample q { o.sample q with refCount := (o.sample q).refCount + 1 }).Freed id :=
      h.setSample rfl rfl
    exact hset
  | endSample l p =>
    simp only [Objects.endSample, Objects.releaseSample]
    have hset : (o.setSample (o.player p).parent { o.sample (o.player p).parent with
        refCount := (o.sample (o.player p).parent).refCount - 1 }).Freed id := h.setSample rfl rfl
    split_ifs
    · exact Objects.Freed.eraseSample (o := { (o.setList l ((o.lists l).erase p)).setSample
        (o.player p).parent { o.sample (o.player p).parent with
          refCount := (o.sample (o.player p).parent).refCount - 1 } with
        playing := o.playing - 1 }) hset _
    · exact hset

theorem Effect.nextId_le (hid : ∀ n, cfg.nextId n = n + 1) (he : Effect cfg F o o') :
    o.nextId ≤ o'.nextId := by
  cases he with
  | skipId | newSample =>
    simp only [hid]
    omega
  | freeSample id' =>
    obtain ⟨qs, f, heq⟩ := o.eraseSample_frame id'
    rw [heq]
  | endSample l p =>
    obtain ⟨qs, f, heq⟩ := o.endSample_frame l p
    rw [heq]
    exact le_rfl
  | client | connect | disconnect | openStream | closeStream | players | scribble | buffer | account
  | sample | startSample | dropOther => exact le_rfl

theorem Objects.Balanced.freed (h : o.Balanced) (id : ℤ) : (o.eraseSample id).Freed id := by
  simp only [Objects.eraseSample]
  split
  · rename_i hnone
    intro q hq hid
    exact absurd hid (by simpa using List.find?_eq_none.mp hnone q hq)
  · rename_i q₀ hfound
    have hlisted := List.mem_of_find?_eq_some hfound
    have hid₀ : (o.sample q₀).sampleId = id := by simpa using List.find?_some hfound
    split_ifs
    · intro q hq hid
      rcases eq_or_ne q q₀ with rfl | hne
      · simp
      · simp only [Objects.setSample, Function.update_of_ne hne] at hid
        exact absurd (h.ids_inj q hq q₀ hlisted (hid.trans hid₀.symm)) hne
    · intro q hq hid
      obtain ⟨hne, hold⟩ := h.nodup.mem_erase_iff.mp hq
      exact absurd (h.ids_inj q hold q₀ hlisted (hid.trans hid₀.symm)) hne

end Freeing


/-! ## What the request finds -/

/-- The int a client reads from the octets of a word, with the daemon's byte order or the other. -/
def readBack (opposite : Bool) (w : Word) : ℤ := (if opposite then Word.reverse w else w).toInt

theorem readBack_maybeSwap32 {x : ℤ} (h : x = -1 ∨ 0 < x ∧ x < 2 ^ 31) (opposite : Bool) :
    readBack opposite (maybeSwap32 opposite (BitVec.ofInt 32 x)) = x := by
  rcases h with rfl | ⟨hpos, hlt⟩
  · cases opposite <;> decide
  · have hint : (BitVec.ofInt 32 x).toInt = x := by
      rw [BitVec.toInt_ofInt]
      exact int32_of_range hpos.le hlt
    cases opposite with
    | false => exact hint
    | true =>
      have hmsb : (BitVec.ofInt 32 x).msb = false := by
        rw [Word.msb_eq_false_iff, hint]
        exact hpos.le
      simp only [readBack, maybeSwap32, if_true, swapEndian32_of_nonneg hmsb, Word.reverse_reverse, hint]

section Runs

variable {cfg : Config} {s t u v : Server} {as bs : List Action} {id : ℤ}

/-- Some player plays the sample of the id. -/
def Server.Plays (s : Server) (id : ℤ) : Prop :=
  ∃ p ∈ s.esdPlayersList, (s.player p).IsSample ∧ (s.sample (s.player p).parent).sampleId = id

/-- What is known of the samples in every state of a run without a reset. -/
structure Accounts (s : Server) : Prop where
  wellFormed : s.objects.WellFormed
  balanced : s.objects.Balanced
  noZombie : s.objects.NoZombie

theorem Server.Initial.accounts (hs : s.Initial) : Accounts s :=
  ⟨hs.wellFormed, hs.balanced, fun q hq => by simp [hs.samples] at hq⟩

theorem step_accounts (hid : ∀ n, cfg.nextId n = n + 1) {a : Action} (hs : Accounts s)
    (h : step cfg s a = some t) (hreset : ¬ a.IsReset) : Accounts t := by
  obtain ⟨hb, hz⟩ := (step_effects hs.wellFormed h hreset).invariant
    (fun o => o.Balanced ∧ o.NoZombie) (fun _ _ hw ho he => ho.1.effect hid hw ho.2 he)
    hs.wellFormed ⟨hs.balanced, hs.noZombie⟩
  exact ⟨step_wellFormed hs.wellFormed h, hb, hz⟩

theorem Run.accounts (hid : ∀ n, cfg.nextId n = n + 1) (hs : Accounts s) (h : Runs cfg NoReset s as t) :
    Accounts t :=
  h.invariant Accounts (fun _ _ _ hk hok hstep => step_accounts hid hk hstep hok) hs

/-- While a sample that is to go is there, it is being played, and what is played is there. -/
theorem Accounts.listed_iff_plays (hs : Accounts s) (hfreed : s.objects.Freed id) :
    id ∈ s.sampleIds ↔ s.Plays id := by
  constructor
  · intro hmem
    obtain ⟨q, hq, hid⟩ := List.mem_map.mp hmem
    have hrefs : s.objects.refs q ≠ 0 := by
      have hcount := hs.balanced.refCount q hq
      have hnonzero := hs.noZombie q hq (hfreed q hq hid)
      omega
    rw [← s.references_eq, Server.references, Ne, List.countP_eq_zero] at hrefs
    push Not at hrefs
    obtain ⟨p, hp, hplays⟩ := hrefs
    simp only [decide_eq_true_eq] at hplays
    exact ⟨p, hp, hplays.1, by rw [hplays.2]; exact hid⟩
  · rintro ⟨p, hp, mode, hid⟩
    have hlisted := hs.balanced.listed p hp _ (EsdPlayer.sampleRef_eq_some.mpr ⟨mode, rfl⟩)
    exact List.mem_map.mpr ⟨_, hlisted, hid⟩

theorem Run.freed (hid : ∀ n, cfg.nextId n = n + 1) (hs : Accounts s) (hbelow : id < s.esdNextSampleId)
    (hfreed : s.objects.Freed id) (h : Runs cfg NoReset s as t) : t.objects.Freed id := by
  have hboth := Run.objects_invariant (fun o => id < o.nextId ∧ o.Freed id) ?_ h hs.wellFormed
    ⟨hbelow, hfreed⟩
  · exact hboth.2
  · rintro F o o' - ⟨hlt, ho⟩ he
    exact ⟨hlt.trans_le (he.nextId_le hid), ho.effect hlt he⟩

/-- An id that was drawn and is not listed any more is never listed again. -/
theorem Run.stays_gone (hid : ∀ n, cfg.nextId n = n + 1) (h : Runs cfg NoReset s as t)
    (hbelow : id < s.esdNextSampleId) (hmem : id ∈ t.sampleIds) : id ∈ s.sampleIds := by
  induction h with
  | nil s => exact hmem
  | cons hok hstep _ ih =>
    cases step_draws hstep hok with
    | none next ids => exact ids.subset (ih (by rwa [next]) hmem)
    | one next ids =>
      rcases List.mem_cons.mp (ids.subset (ih (by rw [next, hid]; omega) hmem)) with heq | hold
      · exact absurd heq hbelow.ne
      · exact hold

theorem sampleFree_freed (hs : Accounts s) {c : Ptr} {env : PollEnv}
    (hopen : opening env s c = .handles .sampleFree u) (h : step cfg s (.poll c env) = some t) :
    t.objects.Freed ((u.client c).param 0) := by
  obtain ⟨-, h⟩ := step_eq_some h
  obtain ⟨r, hr, rfl⟩ := Option.map_eq_some_iff.mp h
  have hfits := opening_fits env c s
  rw [hopen] at hfits
  have hheard : Heard c s u := hfits.1
  rw [pollTurn_eq, hopen] at hr
  cases hr
  have hbalanced : u.objects.Balanced := by
    have hobj : u.objects = { s.objects with client := Function.update s.client c (u.client c) } :=
      congrArg Server.objects hheard.rest
    rw [hobj]
    exact hs.balanced.congr rfl (fun _ _ => ⟨rfl, rfl⟩) rfl (fun _ _ => rfl) le_rfl
  have hfreed := hbalanced.freed ((u.client c).param 0)
  rw [← objects_eraseSample] at hfreed
  split_ifs
  · exact hfreed
  · rw [objects_eraseClient]
    exact hfreed

/-- A name is looked up in the history of what the run has added; what a request frees is found
as long as it is played; and what is not found any more never is again. -/
theorem name_lookup_exact (hid : ∀ n, cfg.nextId n = n + 1) (hs : s.Initial)
    (h : Runs cfg NoReset s as t) (hbound : t.esdNextSampleId ≤ 2 ^ 31) :
    (∀ u c field, Heard c t u → load (u.client c).protoData 0 esdNameMax = field →
      ∃ x, x = lookupName (added cfg s as) t.sampleIds (cutName field) ∧
        esdProtoSampleGetid u c = ((reply u c x).1, true) ∧
        ∀ opposite, readBack opposite (maybeSwap32 opposite (BitVec.ofInt 32 x)) = x) ∧
      (∀ c env u t' bs v, opening env t c = .handles .sampleFree u →
        step cfg t (.poll c env) = some t' → Runs cfg NoReset t' bs v →
        (u.client c).param 0 ∈ t.sampleIds →
        ((u.client c).param 0 ∈ v.sampleIds ↔ v.Plays ((u.client c).param 0))) ∧
      ∀ bs v id, Runs cfg NoReset t bs v → id ∈ (added cfg s as).map Prod.fst → id ∉ t.sampleIds →
        id ∉ v.sampleIds := by
  have hlogged : Logged t (added cfg s as) := by
    have hrun := Run.logged hid hs.logged h
    rwa [List.append_nil] at hrun
  have hkept : Accounts t := Run.accounts hid hs.accounts h
  refine ⟨fun u c field hheard hfield => ?_, fun c env u t' bs v hopen hstep hrun hmem => ?_,
    fun bs v id hrun hmem hgone hback => ?_⟩
  · obtain ⟨hu, hids⟩ := hheard.logged hlogged
    have hname : nameOf (u.client c).protoData 0 = cutName field := by
      rw [← hfield]
      rfl
    refine ⟨_, rfl, ?_, fun opposite => readBack_maybeSwap32 ?_ opposite⟩
    · rw [← hids, ← hname]
      exact esdProtoSampleGetid_lookup hu c
    · exact (lookupName_range hlogged _ _).imp_right fun hx => ⟨hx.1, hx.2.trans_le hbound⟩
  · have hlt : (u.client c).param 0 < t.esdNextSampleId := by
      obtain ⟨q, hq, hid'⟩ := List.mem_map.mp hmem
      rw [← hid']
      exact hkept.balanced.ids q hq
    have hkept' : Accounts t' := step_accounts hid hkept hstep id
    have hlt' : (u.client c).param 0 < t'.esdNextSampleId := by
      cases step_draws hstep id with
      | none next => rwa [next]
      | one next => rw [next, hid]; omega
    exact (Run.accounts hid hkept' hrun).listed_iff_plays
      (Run.freed hid hkept' hlt' (sampleFree_freed hkept hopen hstep) hrun)
  · exact hgone (Run.stays_gone hid hrun (hlogged.range id hmem).2 hback)

/-- A client caches two samples of one name, and frees the second; then it asks for the name. -/
def namingRun : List Action :=
  [.accept 1 5 (.sending
      [handshake 7, Word.octets 6#32, Word.octets 0#32 ++ Word.octets 0#32 ++ Word.octets 4#32 ++
          nameArray [65], [1, 2, 3, 4],
        Word.octets 6#32, Word.octets 0#32 ++ Word.octets 0#32 ++ Word.octets 4#32 ++
          nameArray [65], [5, 6, 7, 8],
        Word.octets 7#32, Word.octets 2#32, Word.octets 14#32, nameArray [65]]),
    .poll 1 (.allocating 0), .poll 1 (.allocating 0), .poll 1 (.allocating 2),
    .poll 1 (.allocating 0), .poll 1 (.allocating 3), .poll 1 (.allocating 0),
    .poll 1 (.allocating 0), .poll 1 (.allocating 0)]

theorem namingRun_ends : (exec (step .smallBlocks) NoReset .blank namingRun).isSome := by
  decide +kernel

theorem name_lookup_exact_freed :
    ∃ t, Runs .smallBlocks NoReset .blank namingRun t ∧
      (added .smallBlocks .blank namingRun).map Prod.fst = [2, 1] ∧
      esdProtoSampleGetid (t.heardData 1 (nameArray [65]) (.sending [])) 1 =
        ((reply (t.heardData 1 (nameArray [65]) (.sending [])) 1 1).1, true) := by
  obtain ⟨t, hrun, hids, hnext⟩ : ∃ t, Runs .smallBlocks NoReset .blank namingRun t ∧
      t.sampleIds = [1] ∧ t.esdNextSampleId = 3 :=
    ⟨_, Run.of_isSome namingRun_ends, by decide +kernel, by decide +kernel⟩
  refine ⟨t, hrun, by decide +kernel, ?_⟩
  have hexact := name_lookup_exact (fun _ => rfl) Server.blank_initial hrun (by rw [hnext]; norm_num)
  obtain ⟨x, hx, hreply, -⟩ := hexact.1 _ 1 (nameArray [65])
    (heardData_heard 1 (nameArray [65]) (.sending [])) (heardData_load t 1 _ _)
  have hone : x = 1 := by
    rw [hx, hids]
    decide +kernel
  rwa [hone] at hreply

end Runs

end Esound
