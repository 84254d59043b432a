import Esound.Arriving
import Esound.Complete
import Esound.Routine

/-!
# The ids of the samples

A sample takes the number the counter shows when it is made, and the counter moves on with
every attempt. The counter is an int: it passes from its greatest value to its least, and
where it has been before the samples that are still cached have their numbers.
-/

open Library.Buffer Library.Loop Library.Transition

namespace Esound

/-- The ids and names of the listed samples, in the order of the list. -/
def Server.entries (s : Server) : List (ℤ × List Octet) :=
  s.esdSamplesList.map fun q => ((s.sample q).sampleId, (s.sample q).name)

def Server.sampleIds (s : Server) : List ℤ := s.esdSamplesList.map fun q => (s.sample q).sampleId

/-- They are positive, and no two are the same. -/
structure Server.IdsUsable (s : Server) : Prop where
  positive : ∀ id ∈ s.sampleIds, 0 < id
  distinct : s.sampleIds.Nodup

/-- The counter shows a positive number that no listed sample has. -/
def Server.NextUsable (s : Server) : Prop := 0 < s.esdNextSampleId ∧ s.esdNextSampleId ∉ s.sampleIds

instance (s : Server) : Decidable s.NextUsable := inferInstanceAs (Decidable (_ ∧ _))

/-- A request that makes a sample finds such a number. -/
def Opening.DrawsUsable (env : PollEnv) (c : Ptr) : Opening → Prop
  | .handles request u => request = .sampleCache → SampleRoom env u c → u.NextUsable
  | .done _ _ | .resumes => True

instance (env : PollEnv) (c : Ptr) (o : Opening) : Decidable (o.DrawsUsable env c) :=
  match o with
  | .handles request _ => inferInstanceAs (Decidable (request = .sampleCache → _))
  | .done _ _ | .resumes => .isTrue trivial

def DrawsUsable (s : Server) : Action → Prop
  | .poll c env => (opening env s c).DrawsUsable env c
  | _ => True

instance (s : Server) (a : Action) : Decidable (DrawsUsable s a) :=
  match a with
  | .poll c env => inferInstanceAs (Decidable ((opening env s c).DrawsUsable env c))
  | .accept .. | .refresh | .mix _ | .wake _ | .filter .. | .monitor .. | .recorder ..
  | .autostandby | .reconnect _ | .reset _ => .isTrue trivial

/-- The counter has not passed its greatest value. -/
def Unwrapped (s : Server) (_ : Action) : Prop := 0 < s.esdNextSampleId

instance (s : Server) (a : Action) : Decidable (Unwrapped s a) := inferInstanceAs (Decidable (_ < _))

section Ids

variable {cfg : Config} {env : PollEnv} {c q : Ptr} {s t : Server} {r : Server × Bool} {D : Set Deed}

/-! ## What becomes of the ids -/

theorem Server.sampleIds_eq (s : Server) : s.sampleIds = s.entries.map Prod.fst := by
  simp only [Server.sampleIds, Server.entries, List.map_map, Function.comp_def]

theorem entries_of_shelf (h : t.shelf = s.shelf) : t.entries = s.entries :=
  congrArg (fun shelf : Shelf =>
    shelf.samples.map fun q => ((shelf.sample q).sampleId, (shelf.sample q).name)) h

theorem sampleIds_of_shelf (h : t.shelf = s.shelf) : t.sampleIds = s.sampleIds :=
  congrArg (fun shelf : Shelf => shelf.samples.map fun q => (shelf.sample q).sampleId) h

theorem Shelved.entries (h : Shelved D s t) : t.entries.Sublist s.entries := by
  have hsame : t.entries = t.esdSamplesList.map fun q => ((s.sample q).sampleId, (s.sample q).name) :=
    List.map_congr_left fun q _ => by rw [(h.sample q).sampleId, (h.sample q).name]
  rw [hsame]
  exact h.listed.map _

theorem Shelved.sampleIds (h : Shelved D s t) : t.sampleIds.Sublist s.sampleIds := by
  rw [t.sampleIds_eq, s.sampleIds_eq]
  exact h.entries.map _

theorem idsUsable_congr (h : t.sampleIds = s.sampleIds) : t.IdsUsable ↔ s.IdsUsable :=
  ⟨fun ht => ⟨h ▸ ht.positive, h ▸ ht.distinct⟩, fun hs => ⟨h.symm ▸ hs.positive, h.symm ▸ hs.distinct⟩⟩

theorem idsUsable_cons (hs : s.IdsUsable) (h : t.sampleIds = s.esdNextSampleId :: s.sampleIds) :
    t.IdsUsable ↔ s.NextUsable := by
  constructor
  · intro ht
    have hpos := ht.positive
    have hnd := ht.distinct
    rw [h] at hpos hnd
    exact ⟨hpos _ List.mem_cons_self, (List.nodup_cons.mp hnd).1⟩
  · rintro ⟨hpos, hnew⟩
    refine ⟨?_, ?_⟩
    · rw [h]
      exact List.forall_mem_cons.mpr ⟨hpos, hs.positive⟩
    · rw [h]
      exact List.nodup_cons.mpr ⟨hnew, hs.distinct⟩

theorem Shelved.idsUsable (h : Shelved D s t) (hs : s.IdsUsable) : t.IdsUsable :=
  ⟨fun id hid => hs.positive id (h.sampleIds.subset hid), hs.distinct.sublist h.sampleIds⟩

theorem Caches.entries (h : Caches c q s r) : r.1.entries = s.entries := by
  rw [Server.entries, h.samples]
  refine List.map_congr_left fun q' _ => ?_
  rw [congrFun h.sample q']
  rcases eq_or_ne q' q with rfl | hne
  · rw [Function.update_self]
  · rw [Function.update_of_ne hne]

theorem newSample_counts (cfg : Config) (hroom : SampleRoom env s c) :
    ((newSample cfg env s c).1.sample env.malloc).sampleId = s.esdNextSampleId ∧
      ((newSample cfg env s c).1.sample env.malloc).name = nameOf (s.client c).protoData 12 ∧
      (newSample cfg env s c).1.esdNextSampleId = cfg.nextId s.esdNextSampleId := by
  obtain ⟨hnull, hdata, hlength⟩ := hroom
  have hplace : env.mallocData = true ∧
      0 ≤ (maybeSwap32 (s.client c).swapByteOrder ((s.client c).protoData.int 8)).toInt :=
    ⟨hdata, hlength⟩
  simp only [newSample, hnull, if_false, hplace, and_self, if_true]
  refine ⟨?_, ?_, rfl⟩ <;> simp [Server.writeInt, Server.sysWrite, Server.setSample]

/-- The call that makes a sample lists it first, if there is room for one. -/
theorem esdProtoSampleCache_enters (state : (s.client c).state ≠ .cachingSample)
    (hroom : SampleRoom env s c) (fresh : env.malloc ∉ s.esdSamplesList)
    (h : esdProtoSampleCache cfg env s c = some r) :
    r.1.esdSamplesList = env.malloc :: s.esdSamplesList ∧
      r.1.entries = (s.esdNextSampleId, nameOf (s.client c).protoData 12) :: s.entries := by
  obtain ⟨-, hcases⟩ := newSample_cached cfg env s c
  obtain ⟨hid, hname, -⟩ := newSample_counts cfg hroom
  have hp := (newSample_room cfg hroom).1
  simp only [esdProtoSampleCache, state, if_false] at h
  rw [hp, if_neg hroom.1] at h
  cases h
  obtain ⟨hzero, -⟩ | ⟨-, -, v, -, hshelf⟩ := hcases
  · exact absurd (hp.symm.trans hzero) hroom.1
  · have hsamples : (newSample cfg env s c).1.esdSamplesList = s.esdSamplesList :=
      congrArg Shelf.samples hshelf
    have hsample : (newSample cfg env s c).1.sample = Function.update s.sample env.malloc v :=
      congrArg Shelf.sample hshelf
    have hold : ∀ q ∈ s.esdSamplesList,
        (((newSample cfg env s c).1.sample q).sampleId, ((newSample cfg env s c).1.sample q).name) =
          ((s.sample q).sampleId, (s.sample q).name) := by
      intro q hq
      have hne : q ≠ env.malloc := fun he => fresh (he ▸ hq)
      simp [hsample, hne]
    have hcaches : Caches c env.malloc (addSample (newSample cfg env s c).1 env.malloc)
        (cacheInto cfg (addSample (newSample cfg env s c).1 env.malloc) c env.malloc) := cacheInto_caches
    rw [hcaches.samples, hcaches.entries]
    simp only [Server.entries, addSample, hsamples, List.map_cons, hid, hname]
    rw [List.map_congr_left hold]
    exact ⟨trivial, rfl⟩

theorem esdProtoSampleCache_refuses (state : (s.client c).state ≠ .cachingSample)
    (hroom : ¬ SampleRoom env s c) (h : esdProtoSampleCache cfg env s c = some r) :
    r.1.shelf = s.shelf := by
  obtain ⟨-, hcases⟩ := newSample_cached cfg env s c
  simp only [esdProtoSampleCache, state, if_false] at h
  rw [newSample_noRoom hroom, if_pos rfl] at h
  cases h
  obtain ⟨-, hshelf⟩ | ⟨hmalloc, hnull, -⟩ := hcases
  · exact hshelf
  · exact absurd (hmalloc.symm.trans (newSample_noRoom hroom)) hnull

theorem esdProtoSampleCache_begun (state : (s.client c).state ≠ .cachingSample)
    (fresh : env.malloc ∉ s.esdSamplesList) (h : esdProtoSampleCache cfg env s c = some r) :
    r.1.sampleIds = if SampleRoom env s c then s.esdNextSampleId :: s.sampleIds else s.sampleIds := by
  split_ifs with hroom
  · rw [r.1.sampleIds_eq, (esdProtoSampleCache_enters state hroom fresh h).2, s.sampleIds_eq, List.map_cons]
  · exact sampleIds_of_shelf (esdProtoSampleCache_refuses state hroom h)

theorem esdProtoSampleCache_resumed (caching : (s.client c).state = .cachingSample)
    (h : esdProtoSampleCache cfg env s c = some r) :
    r.1.esdSamplesList = s.esdSamplesList ∧ r.1.entries = s.entries := by
  simp only [esdProtoSampleCache, caching, if_true] at h
  split at h
  · cases h
  · split_ifs at h <;> cases h
    · exact ⟨rfl, rfl⟩
    · rename_i q _ _
      have hcaches : Caches c q s (cacheInto cfg s c q) := cacheInto_caches
      exact ⟨hcaches.samples, hcaches.entries⟩

/-! ## Steps and runs -/

/-- A turn that makes a sample leaves usable ids exactly if the counter shows one. -/
theorem pollClient_idsUsable (hs : s.IdsUsable) (fresh : env.malloc ∉ s.esdSamplesList)
    (h : pollClient cfg env s c = some t) :
    t.IdsUsable ↔ (opening env s c).DrawsUsable env c := by
  obtain ⟨r, hr, rfl⟩ := Option.map_eq_some_iff.mp h
  have hids : (if r.2 then r.1 else eraseClient r.1 c).sampleIds = r.1.sampleIds := by
    split_ifs
    · rfl
    · exact sampleIds_of_shelf (eraseClient_idle c).shelf
  have hrecord : ∀ (u : Server) call, (u.record call).IdsUsable ↔ u.IdsUsable :=
    fun _ _ => idsUsable_congr rfl
  rw [idsUsable_congr hids]
  have hfits := opening_fits env c s
  rw [pollTurn_eq] at hr
  cases hopen : opening env s c with
  | done u ok =>
    rw [hopen] at hr hfits
    cases hr
    have hheard : Heard c s u := hfits
    exact iff_of_true ((hheard.keeps (D := ∅)).toShelved.idsUsable hs) trivial
  | resumes =>
    rw [hopen] at hr hfits
    obtain ⟨r', hr', rfl⟩ := Option.map_eq_some_iff.mp hr
    have hids : r'.1.sampleIds = s.sampleIds := by
      rw [r'.1.sampleIds_eq, (esdProtoSampleCache_resumed hfits hr').2, s.sampleIds_eq]
    exact iff_of_true ((hrecord r'.1 _).mpr ((idsUsable_congr hids).mpr hs)) trivial
  | handles request u =>
    rw [hopen] at hr hfits
    obtain ⟨hheard, active, state⟩ := hfits
    obtain ⟨r', hr', rfl⟩ := Option.map_eq_some_iff.mp hr
    have hu : u.IdsUsable := (hheard.keeps (D := ∅)).toShelved.idsUsable hs
    by_cases hcache : request = .sampleCache
    · subst hcache
      have hfresh : env.malloc ∉ u.esdSamplesList := by
        rwa [hheard.lists.2.2]
      have hids := esdProtoSampleCache_begun (by simp [state]) hfresh hr'
      rw [hrecord r'.1]
      change r'.1.IdsUsable ↔ (Proto.sampleCache = .sampleCache → SampleRoom env u c → u.NextUsable)
      split_ifs at hids with hroom
      · rw [idsUsable_cons hu hids]
        exact ⟨fun h _ _ => h, fun h => h rfl hroom⟩
      · exact iff_of_true ((idsUsable_congr hids).mpr hu) fun _ h => absurd h hroom
    · have hr : r'.1.IdsUsable := (handler_shelved hcache hr').idsUsable hu
      exact iff_of_true ((hrecord r'.1 _).mpr hr) fun he => absurd he hcache

theorem step_idsUsable {a : Action} (hs : s.IdsUsable) (h : step cfg s a = some t) :
    t.IdsUsable ↔ DrawsUsable s a := by
  cases a with
  | poll c env =>
    obtain ⟨⟨-, -, fresh⟩, h⟩ := step_eq_some h
    exact pollClient_idsUsable hs fresh h
  | _ =>
    exact iff_of_true ((step_shelved (D := Set.univ) (Set.mem_univ _) h (by simp)).idsUsable hs) trivial

/-! ## The counter -/

theorem eraseSample_nextId (id : ℤ) (force : Bool) :
    (eraseSample s id force).esdNextSampleId = s.esdNextSampleId := by
  simp only [eraseSample]
  split
  · rfl
  · split_ifs <;> rfl

theorem eraseClient_nextId (c : Ptr) : (eraseClient s c).esdNextSampleId = s.esdNextSampleId := by
  simp only [eraseClient]
  split_ifs <;> rfl

theorem freePlayer_nextId (p : Ptr) : (freePlayer s p).esdNextSampleId = s.esdNextSampleId := by
  have hemit : ∀ u e, (Server.emit u e).esdNextSampleId = u.esdNextSampleId := fun _ _ => rfl
  simp only [freePlayer, hemit]
  split_ifs
  · exact eraseClient_nextId _
  · exact eraseSample_nextId _ _
  · rfl
  · rfl

theorem pushTo_nextId (l : PlayerList) (p : Ptr) : (pushTo s l p).esdNextSampleId = s.esdNextSampleId := by
  cases l <;> rfl

theorem eraseFrom_nextId (l : PlayerList) (p : Ptr) :
    (eraseFrom s l p).esdNextSampleId = s.esdNextSampleId := by
  simp only [eraseFrom]
  split_ifs
  · rw [freePlayer_nextId]
    cases l <;> rfl
  · rfl

theorem newStreamPlayer_nextId :
    (newStreamPlayer cfg env s c).1.esdNextSampleId = s.esdNextSampleId := by
  rcases newStreamPlayer_cases cfg env s c with h | ⟨v, h, -⟩
  · rw [h]
  · rw [h]
    rfl

theorem setStreaming_nextId (s : Server) (c : Ptr) :
    (setStreaming s c).esdNextSampleId = s.esdNextSampleId := rfl

theorem setTranslateFunc_nextId (s : Server) (p : Ptr) :
    (setTranslateFunc s p).esdNextSampleId = s.esdNextSampleId := rfl

theorem setParent_nextId (s : Server) (p c : Ptr) :
    (setParent s p c).esdNextSampleId = s.esdNextSampleId := rfl

theorem playSample_nextId (id : ℤ) (loop : Bool) :
    (playSample cfg env s id loop).1.esdNextSampleId = s.esdNextSampleId := by
  have hnew : (newSamplePlayer cfg env s id loop).1.esdNextSampleId = s.esdNextSampleId := by
    simp only [newSamplePlayer]
    split
    · rfl
    · split_ifs
      · rfl
      · split <;> rfl
      · split <;> rfl
  simp only [playSample]
  split_ifs
  · exact hnew
  · exact (pushTo_nextId .players _).trans hnew

theorem startRecorder_nextId : (startRecorder cfg env s c).1.esdNextSampleId = s.esdNextSampleId := by
  have hjoin : ∀ (u : Server) p, (joinRecorders u c p).1.esdNextSampleId = u.esdNextSampleId :=
    fun u p => pushTo_nextId .recorders p
  have hnew : (newStreamPlayer cfg env s c).1.esdNextSampleId = s.esdNextSampleId :=
    newStreamPlayer_nextId
  simp only [startRecorder]
  generalize newStreamPlayer cfg env s c = a at hnew ⊢
  split_ifs
  · rfl
  · exact hnew
  · simp only [reopenToRecord]
    cases env.audioOpen 1 with
    | some size => exact (hjoin _ _).trans hnew
    | none =>
      simp only [esdAudioOpen, giveUpRecorder]
      cases env.audioOpen 2 <;> exact (freePlayer_nextId _).trans hnew
  · exact (hjoin _ _).trans hnew

theorem handler_nextId {request : Proto} (hcache : request ≠ .sampleCache)
    (h : handler cfg env request s c = some r) : r.1.esdNextSampleId = s.esdNextSampleId := by
  have hnew : (newStreamPlayer cfg env s c).1.esdNextSampleId = s.esdNextSampleId :=
    newStreamPlayer_nextId
  by_cases hbusy : request.Busy
  · cases request with
    | sampleCache => exact absurd rfl hcache
    | streamPlay =>
      cases h
      simp only [esdProtoStreamPlay]
      generalize newStreamPlayer cfg env s c = a at hnew ⊢
      split_ifs
      · exact hnew
      · rw [setStreaming_nextId, addPlayer, pushTo_nextId, setParent_nextId, hnew]
    | streamMon =>
      cases h
      simp only [esdProtoStreamMonitor]
      generalize newStreamPlayer cfg env s c = a at hnew ⊢
      split_ifs
      · exact hnew
      · rw [setStreaming_nextId, setTranslateFunc_nextId, pushTo_nextId, setParent_nextId, hnew]
    | streamFilt =>
      cases h
      simp only [esdProtoStreamFilter]
      generalize newStreamPlayer cfg env s c = a at hnew ⊢
      split_ifs
      · exact hnew
      · rw [setStreaming_nextId, pushTo_nextId, setParent_nextId, hnew]
    | streamRec =>
      cases h
      have hresume : (esdServerResume s (env.audioOpen 0)).1.esdNextSampleId = s.esdNextSampleId :=
        (Besides.of_objects (objects_esdServerResume _)).nextId
      simp only [esdProtoStreamRecorder]
      split_ifs
      · exact startRecorder_nextId.trans hresume
      · exact startRecorder_nextId
    | streamPan =>
      cases h
      simp only [esdProtoStreamPan]
      split <;> rfl
    | sampleFree =>
      cases h
      exact eraseSample_nextId _ _
    | samplePlay | sampleLoop =>
      cases h
      exact playSample_nextId _ _
    | sampleStop =>
      cases h
      simp only [esdProtoSampleStop, replyId, stopSample]
      split <;> rfl
    | samplePan =>
      cases h
      simp only [esdProtoSamplePan]
      split <;> rfl
    | _ => exact hbusy.elim
  · exact (handler_besides hbusy h).nextId

theorem cacheInto_nextId : (cacheInto cfg s c q).1.esdNextSampleId = s.esdNextSampleId := by
  have hrest := (readSample_reads cfg (s.setSample q { s.sample q with parent := c }) q).rest
  have hread := congrArg Server.esdNextSampleId hrest
  simp only [cacheInto]
  split
  · rename_i t heq
    rwa [heq] at hread
  · rename_i t heq
    rw [heq] at hread
    split_ifs <;> exact hread

/-- What a step does to the counter and to the ids: an id that is added is the one the counter
showed, and the counter has moved on. -/
inductive Draws (cfg : Config) (s t : Server) : Prop
  | none (next : t.esdNextSampleId = s.esdNextSampleId) (ids : t.sampleIds.Sublist s.sampleIds)
  | one (next : t.esdNextSampleId = cfg.nextId s.esdNextSampleId)
      (ids : t.sampleIds.Sublist (s.esdNextSampleId :: s.sampleIds))

theorem Draws.congr {s' t' : Server} (h : Draws cfg s t) (before : s'.esdNextSampleId = s.esdNextSampleId)
    (ids : s'.sampleIds = s.sampleIds) (after : t'.esdNextSampleId = t.esdNextSampleId)
    (ids' : t'.sampleIds = t.sampleIds) : Draws cfg s' t' := by
  cases h with
  | none next sub => exact .none (by rw [after, next, before]) (by rwa [ids', ids])
  | one next sub => exact .one (by rw [after, next, before]) (by rwa [ids', ids, before])

theorem esdProtoSampleCache_draws (fresh : env.malloc ∉ s.esdSamplesList)
    (h : esdProtoSampleCache cfg env s c = some r) : Draws cfg s r.1 := by
  by_cases caching : (s.client c).state = .cachingSample
  · have hids : r.1.sampleIds = s.sampleIds := by
      rw [r.1.sampleIds_eq, (esdProtoSampleCache_resumed caching h).2, s.sampleIds_eq]
    simp only [esdProtoSampleCache, caching, if_true] at h
    have hnext : r.1.esdNextSampleId = s.esdNextSampleId := by
      split at h
      · cases h
      · split_ifs at h <;> cases h
        · rfl
        · exact cacheInto_nextId
    exact .none hnext (by rw [hids])
  · have hids := esdProtoSampleCache_begun caching fresh h
    simp only [esdProtoSampleCache, caching, if_false] at h
    split_ifs at hids with hroom
    · obtain ⟨-, -, hcounts⟩ := newSample_counts cfg hroom
      rw [(newSample_room cfg hroom).1, if_neg hroom.1] at h
      cases h
      refine .one (cacheInto_nextId.trans hcounts) (by rw [hids])
    · rw [newSample_noRoom hroom, if_pos rfl] at h
      cases h
      have hsub : (newSample cfg env s c).1.sampleIds.Sublist (s.esdNextSampleId :: s.sampleIds) := by
        rw [hids]
        exact List.sublist_cons_self _ _
      by_cases hnull : env.malloc = 0
      · have hsame : newSample cfg env s c = (s, 0) := by simp only [newSample, hnull, if_true]
        exact .none (by rw [hsame]) (by rw [hsame])
      · refine .one ?_ hsub
        simp only [newSample, hnull, if_false]
        split_ifs <;> rfl

theorem routine_nextId : Routine fun s t => t.esdNextSampleId = s.esdNextSampleId where
  behind s t h := by rw [h.rest]
  players _ _ _ := rfl
  client _ c := eraseClient_nextId c
  trans _ _ _ h h' := h'.trans h
  besides _ _ h := h.nextId

theorem step_draws {a : Action} (h : step cfg s a = some t) (hreset : ¬ a.IsReset) : Draws cfg s t := by
  cases a with
  | poll c env =>
    obtain ⟨⟨-, -, fresh⟩, h⟩ := step_eq_some h
    obtain ⟨r, hr, rfl⟩ := Option.map_eq_some_iff.mp h
    have hturn : Draws cfg s r.1 := by
      cases pollTurn_ends hr with
      | heard _ hheard =>
        exact .none hheard.besides.nextId (hheard.keeps (D := ∅)).toShelved.sampleIds
      | handled request u hheard _ _ r' hhandler =>
        have hids : s.sampleIds = u.sampleIds := by
          rw [hheard.rest]
          rfl
        by_cases hcache : request = .sampleCache
        · subst hcache
          have hfresh : env.malloc ∉ u.esdSamplesList := by rwa [hheard.lists.2.2]
          exact (esdProtoSampleCache_draws hfresh hhandler).congr hheard.besides.nextId.symm hids rfl rfl
        · have hnext := (handler_nextId hcache hhandler).trans hheard.besides.nextId
          have hsub : r'.1.sampleIds.Sublist s.sampleIds := by
            rw [hids]
            exact (handler_shelved hcache hhandler).sampleIds
          exact .none hnext hsub
      | resumed caching r' hhandler =>
        exact (esdProtoSampleCache_draws fresh hhandler).congr rfl rfl rfl rfl
    split_ifs
    · exact hturn
    · exact hturn.congr rfl rfl (eraseClient_nextId c) (sampleIds_of_shelf (eraseClient_idle c).shelf)
  | _ =>
    have hnext := routine_nextId.step (fun l _ p => eraseFrom_nextId l p) h (by simp) hreset
    exact .none hnext (step_shelved (D := Set.univ) (Set.mem_univ _) h (by simp)).sampleIds

/-! ## Runs -/

/-- The ids are below the counter, until that has passed its greatest value. -/
structure Server.IdsBelow (s : Server) : Prop extends Server.IdsUsable s where
  below : 0 < s.esdNextSampleId → ∀ id ∈ s.sampleIds, id < s.esdNextSampleId
  bound : s.esdNextSampleId < 2 ^ 31

theorem int32_succ {n : ℤ} (hpos : 0 < n) (h : n < 2 ^ 31) :
    int32 (n + 1) = n + 1 ∧ n + 1 < 2 ^ 31 ∨ int32 (n + 1) < 0 := by
  rcases lt_or_ge (n + 1) (2 ^ 31) with hlt | hge
  · exact .inl ⟨int32_of_range (by omega) hlt, hlt⟩
  · have heq : n + 1 = 2 ^ 31 := by omega
    rw [heq]
    exact .inr (by decide)

theorem Server.IdsBelow.drawsUsable {a : Action} (hs : s.IdsBelow) (hok : Unwrapped s a) :
    DrawsUsable s a := by
  cases a with
  | poll c env =>
    have hfits := opening_fits env c s
    simp only [DrawsUsable]
    cases hopen : opening env s c with
    | done | resumes => trivial
    | handles request u =>
      rw [hopen] at hfits
      have hheard : Heard c s u := hfits.1
      have hids : u.sampleIds = s.sampleIds := by
        rw [hheard.rest]
        rfl
      intro _ _
      rw [Server.NextUsable, hids, hheard.besides.nextId]
      exact ⟨hok, fun hmem => lt_irrefl _ (hs.below hok _ hmem)⟩
  | _ => trivial

theorem step_idsBelow {a : Action} (hid : ∀ n, cfg.nextId n = int32 (n + 1)) (hs : s.IdsBelow)
    (hok : Unwrapped s a) (h : step cfg s a = some t) : t.IdsBelow := by
  have husable : t.IdsUsable := (step_idsUsable hs.toIdsUsable h).mpr (hs.drawsUsable hok)
  have hpos : 0 < s.esdNextSampleId := hok
  by_cases hreset : a.IsReset
  · cases a with
    | reset scrambled =>
      obtain ⟨-, h⟩ := step_eq_some h
      cases h
      have hobj := resetDaemon_objects s scrambled
      have hnext : (resetDaemon s scrambled).esdNextSampleId = 1 := congrArg Objects.nextId hobj
      have hsamples : (resetDaemon s scrambled).esdSamplesList = [] := congrArg Objects.samples hobj
      refine ⟨husable, fun _ id hid => ?_, by rw [hnext]; norm_num⟩
      simp [Server.sampleIds, hsamples] at hid
    | _ => exact hreset.elim
  · cases step_draws h hreset with
    | none next ids =>
      rw [← next] at hpos
      refine ⟨husable, fun _ id hmem => ?_, by rw [next]; exact hs.bound⟩
      rw [next]
      exact hs.below hok id (ids.subset hmem)
    | one next ids =>
      rw [hid] at next
      rcases int32_succ hpos hs.bound with ⟨hsucc, hlt⟩ | hneg
      · refine ⟨husable, fun _ id hmem => ?_, by rw [next, hsucc]; exact hlt⟩
        rw [next, hsucc]
        rcases List.mem_cons.mp (ids.subset hmem) with rfl | hold
        · exact lt_add_one _
        · exact (hs.below hok id hold).trans (lt_add_one _)
      · exact ⟨husable, fun h => by omega, by omega⟩

theorem Server.Initial.idsBelow (hs : s.Initial) : s.IdsBelow := by
  have hids : s.sampleIds = [] := by simp [Server.sampleIds, hs.samples]
  refine ⟨⟨?_, ?_⟩, ?_, ?_⟩
  · simp [hids]
  · simp [hids]
  · simp [hids]
  · rw [hs.nextId]
    norm_num

/-- The ids stay usable all along a run exactly if every sample that is made finds a number that
is; and it does as long as the counter has not passed its greatest value. -/
theorem sample_ids_usable (hid : ∀ n, cfg.nextId n = int32 (n + 1)) (hs : s.Initial)
    {as : List Action} (h : Runs cfg (fun _ _ => True) s as t) :
    ((∀ bs u, bs <+: as → Runs cfg (fun _ _ => True) s bs u → u.IdsUsable) ↔
        Runs cfg DrawsUsable s as t) ∧
      (Runs cfg Unwrapped s as t → Runs cfg DrawsUsable s as t) := by
  refine ⟨h.visits_iff (fun s a t hs _ hstep => step_idsUsable hs hstep) hs.idsBelow.toIdsUsable,
    fun hrun => ?_⟩
  have hgood := hrun.good_or_marked Server.IdsBelow (fun _ => False) DrawsUsable
    (fun _ _ _ hs hok hstep => step_idsBelow hid hs hok hstep)
    (fun _ _ _ hs hok hbad _ => absurd (hs.drawsUsable hok) hbad)
    (fun _ _ _ _ hfalse _ _ => hfalse) hs.idsBelow
  exact (hgood.resolve_right id).mono fun _ _ hok => hok.2

/-- The counter of the code, an int. -/
def Config.wrapping : Config := { Config.smallBlocks with nextId := fun n => int32 (n + 1) }

theorem cachingRun_wrapping : (exec (step .wrapping) Unwrapped .blank cachingRun).isSome := by
  decide +kernel

theorem sample_ids_usable_cached :
    ∃ t, Runs .wrapping Unwrapped .blank cachingRun t ∧ t.sampleIds = [1] ∧ t.IdsUsable := by
  have hrun := Run.of_isSome cachingRun_wrapping
  obtain ⟨hiff, hgood⟩ := sample_ids_usable (fun _ => rfl) Server.blank_initial
    (hrun.mono fun _ _ _ => trivial)
  exact ⟨_, hrun, by decide +kernel,
    hiff.mpr (hgood hrun) cachingRun _ (List.prefix_refl _) (hrun.mono fun _ _ _ => trivial)⟩

end Ids

/-! ## The counter runs through -/

section Wrapping

/-- A client that asks for a sample of a length to be cached. -/
def cacheSocket (length : Word) : Socket :=
  .sending [handshake 7, Word.octets 6#32,
    Word.octets 0#32 ++ Word.octets 0#32 ++ Word.octets length ++ nameArray []]

/-- It connects, and is served. -/
def cacheTurns (length : Word) : List Action :=
  [.accept 1 5 (cacheSocket length), .poll 1 (.allocating 0), .poll 1 (.allocating 0),
    .poll 1 (.allocating 2)]

/-- Nobody is connected, nothing is played or cached, and the owner, if there is one, is known. -/
structure Server.Resting (s : Server) : Prop where
  clients : s.esdClientsList = []
  players : s.allPlayers = []
  samples : s.esdSamplesList = []
  key : s.esdIsOwned = false ∨ s.esdOwnerKey = List.replicate esdKeyLen 7

variable {s : Server} {c : Ptr}

/-- Only who is connected, what was said and who owns the daemon differ. -/
structure Met (s t : Server) : Prop where
  rest : t =
    { s with
      esdIsOwned := t.esdIsOwned
      esdIsLocked := t.esdIsLocked
      esdOwnerKey := t.esdOwnerKey
      esdClientsList := t.esdClientsList
      client := t.client
      sockets := t.sockets
      events := t.events
      calls := t.calls }

theorem Met.trans {t u : Server} (h : Met s t) (h' : Met t u) : Met s u := by
  have hrest := h'.rest
  rw [h.rest] at hrest
  exact ⟨hrest⟩

theorem Met.players {t : Server} (h : Met s t) : t.allPlayers = s.allPlayers := by
  rw [h.rest]
  rfl

theorem Met.samples {t : Server} (h : Met s t) : t.esdSamplesList = s.esdSamplesList := by rw [h.rest]

theorem Met.nextId {t : Server} (h : Met s t) : t.esdNextSampleId = s.esdNextSampleId := by rw [h.rest]

theorem esdValidateSource_grants {key : List Octet} (h : s.esdIsOwned = false ∨ s.esdOwnerKey = key) :
    ∃ t, esdValidateSource s c key false = (t, true) ∧ Met s t ∧ t.client = s.client ∧
      t.esdClientsList = s.esdClientsList ∧ t.esdOwnerKey = key ∧
      t.sockets = Function.update s.sockets (s.client c).fd
        ((s.sockets (s.client c).fd).write (Word.octets 1#32)).2 := by
  simp only [esdValidateSource]
  split_ifs with howned hlocked hkey
  · exact ⟨_, rfl, ⟨rfl⟩, rfl, rfl, rfl, rfl⟩
  · exact ⟨_, rfl, ⟨rfl⟩, rfl, rfl, h.resolve_left howned, rfl⟩
  · exact ⟨_, rfl, ⟨rfl⟩, rfl, rfl, hkey, rfl⟩
  · exact absurd (h.resolve_left howned) hkey

theorem esdProtoConnect_grants (h : s.esdIsOwned = false ∨ s.esdOwnerKey = (s.client c).key)
    (hendian : (s.client c).protoData.int esdKeyLen = esdEndianKey) :
    ∃ t, esdProtoConnect s c = (t, true) ∧ Met s t ∧
      t.client c = { s.client c with swapByteOrder := false } ∧
      t.esdClientsList = s.esdClientsList ∧ t.esdOwnerKey = (s.client c).key ∧
      t.sockets = Function.update s.sockets (s.client c).fd
        ((s.sockets (s.client c).fd).write (Word.octets 1#32)).2 := by
  obtain ⟨u, hval, hmet, hclient, hlist, hkey, hsockets⟩ := esdValidateSource_grants (c := c) h
  refine ⟨u.setClient c { u.client c with swapByteOrder := false }, ?_, hmet.trans ⟨rfl⟩, ?_, hlist,
    hkey, hsockets⟩
  · simp only [esdProtoConnect, hval, esdCheckEndian, hendian, if_true]
  · simp [Server.setClient, hclient]

theorem handshake_data (m : Mem) (b : Octet) :
    load (store m 0 (handshake b)) 0 esdKeyLen = List.replicate esdKeyLen b ∧
      Mem.int (store m 0 (handshake b)) esdKeyLen = esdEndianKey := by
  have hlength : (List.replicate esdKeyLen b).length = esdKeyLen := List.length_replicate
  refine ⟨?_, ?_⟩
  · have hblock := load_store_self m 0 (handshake b)
    have hsplit := load_add (store m 0 (handshake b)) 0 esdKeyLen 4
    have hwhole : (handshake b).length = esdKeyLen + 4 := by
      simp [handshake, Word.octets]
    rw [Nat.cast_zero] at hblock hsplit
    rw [hwhole, hsplit] at hblock
    exact (List.append_inj hblock (by simp)).1
  · have hword := Word.int_store_within m (List.replicate esdKeyLen b) [] esdEndianKey
    rwa [hlength, List.append_nil] at hword

/-- One client is there, with what it has to say. -/
structure Sole (s t : Server) (k : Socket) : Prop where
  met : Met s t
  list : t.esdClientsList = [1]
  fd : (t.client 1).fd = 5
  socket : t.sockets 5 = k

theorem Sole.enabled {t : Server} {k : Socket} (h : Sole s t k) (hs : s.Resting) (p : Ptr) :
    Action.Enabled t (.poll 1 (.allocating p)) := by
  refine ⟨by simp [h.list], ?_⟩
  rw [Action.Fresh, h.met.players, h.met.samples, hs.players, hs.samples]
  simp

theorem cacheTurns_accept (hs : s.Resting) (length : Word) :
    ∃ t, step .wrapping s (.accept 1 5 (cacheSocket length)) = some t ∧ Sole s t (cacheSocket length) ∧
      (t.client 1).state = .needsReqdata ∧ (t.client 1).request = 0#32 ∧
      (t.client 1).protoDataLength = 0 ∧
      (t.esdIsOwned = false ∨ t.esdOwnerKey = List.replicate esdKeyLen 7) := by
  have hstep : step .wrapping s (.accept 1 5 (cacheSocket length)) =
      some (getNewClient s 1 5 (cacheSocket length)) := by
    refine step_of_enabled ⟨by decide, ?_, by decide, ?_⟩ rfl
    · simp [hs.clients]
    · simp [hs.clients]
  refine ⟨_, hstep, ⟨⟨rfl⟩, ?_, ?_, ?_⟩, ?_, ?_, ?_, hs.key⟩
  all_goals simp [getNewClient, Server.setClient, Server.record, addNewClient, hs.clients]

theorem cacheTurns_connect (hs : s.Resting) {t : Server} {pieces : List (List Octet)}
    (ht : Sole s t (.sending (handshake 7 :: pieces))) (state : (t.client 1).state = .needsReqdata)
    (hrequest : (t.client 1).request = 0#32) (hstart : (t.client 1).protoDataLength = 0)
    (hkey : t.esdIsOwned = false ∨ t.esdOwnerKey = List.replicate esdKeyLen 7) :
    ∃ u, step .wrapping t (.poll 1 (.allocating 0)) = some u ∧ Sole s u (.sending pieces) ∧
      (u.client 1).state = .nextRequest ∧ (u.client 1).swapByteOrder = false ∧
      u.esdOwnerKey = List.replicate esdKeyLen 7 := by
  have hread : (t.sockets (t.client 1).fd).Delivers 20 (handshake 7) (.sending pieces) := by
    rw [ht.fd, ht.socket]
    exact Socket.sending_delivers (by decide) _
  obtain ⟨v, hv⟩ : ∃ v, t.heardData 1 (handshake 7) (.sending pieces) = v := ⟨_, rfl⟩
  have hclient : v.client 1 = { t.client 1 with
      state := .nextRequest
      protoData := store (t.client 1).protoData 0 (handshake 7)
      protoDataLength := (handshake 7).length } := by
    rw [← hv]
    simp [Server.heardData]
  have hdata := handshake_data (t.client 1).protoData 7
  have hkeyv : (v.client 1).key = List.replicate esdKeyLen 7 := by
    rw [hclient]
    exact hdata.1
  have hendian : (v.client 1).protoData.int esdKeyLen = esdEndianKey := by
    rw [hclient]
    exact hdata.2
  have hfd : (v.client 1).fd = 5 := by rw [hclient, ht.fd]
  have hsocket : v.sockets 5 = .sending pieces := by
    rw [← hv]
    simp [Server.heardData, ht.fd]
  have hmet : Met s v := by
    rw [← hv]
    exact ht.met.trans ⟨rfl⟩
  have hlist : v.esdClientsList = [1] := by
    rw [← hv]
    exact ht.list
  obtain ⟨w, hw, hmetw, hclientw, hlistw, hkeyw, hsocketsw⟩ := esdProtoConnect_grants (s := v) (c := 1)
    (by rw [hkeyv, ← hv]; exact hkey) hendian
  have hconnect : Proto.ofWord (t.client 1).request = some .connect := by
    rw [hrequest]
    rfl
  have hhandler : handler .wrapping (.allocating 0) .connect
      (t.heardData 1 (handshake 7) (.sending pieces)) 1 = some (w, true) := by
    rw [hv]
    exact congrArg some hw
  have hpoll := pollClient_handles rfl state hconnect hstart (by decide) hread hhandler
  refine ⟨w.record (.handled 1 .connect (handshake 7) true),
    step_of_enabled (ht.enabled hs 0) (hpoll.trans rfl),
    ⟨(hmet.trans hmetw).trans ⟨rfl⟩, hlistw.trans hlist, ?_, ?_⟩, ?_, ?_, hkeyw.trans hkeyv⟩
  · exact (congrArg EsdClient.fd hclientw).trans hfd
  · change w.sockets 5 = .sending pieces
    rw [hsocketsw, hfd, Function.update_self, hsocket]
    rfl
  · exact (congrArg EsdClient.state hclientw).trans (by rw [hclient])
  · exact congrArg EsdClient.swapByteOrder hclientw

theorem cacheTurns_ask (hs : s.Resting) {t : Server} {pieces : List (List Octet)}
    (ht : Sole s t (.sending (Word.octets 6#32 :: pieces))) (state : (t.client 1).state = .nextRequest)
    (horder : (t.client 1).swapByteOrder = false) :
    step .wrapping t (.poll 1 (.allocating 0)) = some (t.awaitData 1 6#32 (.sending pieces)) := by
  have hread : (t.sockets (t.client 1).fd).Delivers 4 (Word.octets 6#32) (.sending pieces) := by
    rw [ht.fd, ht.socket]
    exact Socket.sending_delivers (by decide) _
  have hcache : Proto.ofWord 6#32 = some .sampleCache := rfl
  exact step_of_enabled (ht.enabled hs 0)
    (pollClient_waits rfl state hread horder hcache (by simp) (by decide))

theorem cacheTurns_reach (hs : s.Resting) (length : Word) :
    ∃ u, Runs .wrapping (fun _ _ => True) s
        [.accept 1 5 (cacheSocket length), .poll 1 (.allocating 0), .poll 1 (.allocating 0)] u ∧
      Sole s u (.sending
        [Word.octets 0#32 ++ Word.octets 0#32 ++ Word.octets length ++ nameArray []]) ∧
      u.esdOwnerKey = List.replicate esdKeyLen 7 ∧ (u.client 1).state = .needsReqdata ∧
      (u.client 1).request = 6#32 ∧ (u.client 1).protoDataLength = 0 ∧
      (u.client 1).swapByteOrder = false := by
  obtain ⟨t, haccept, ht, state, hrequest, hstart, hkey⟩ := cacheTurns_accept hs length
  obtain ⟨u, hconnect, hu, state', horder, hkey'⟩ := cacheTurns_connect hs ht state hrequest hstart hkey
  have hask := cacheTurns_ask hs hu state' horder
  refine ⟨_, .cons trivial haccept (.cons trivial hconnect (.cons trivial hask (.nil _))),
    ⟨hu.met.trans ⟨rfl⟩, hu.list, ?_, ?_⟩, hkey', ?_, ?_, ?_, ?_⟩
  · simpa [Server.awaitData] using hu.fd
  all_goals simp [Server.awaitData, hu.fd, horder]

/-- What the four turns come to, for a handler that answers with `r`. -/
theorem cacheTurns_end (hs : s.Resting) (length : Word) :
    ∃ v : Server, Met s v ∧ v.esdClientsList = [1] ∧ (v.client 1).state = .nextRequest ∧
      (v.client 1).param 8 = length.toInt ∧ v.esdOwnerKey = List.replicate esdKeyLen 7 ∧
      ∀ r, esdProtoSampleCache .wrapping (.allocating 2) v 1 = some r →
        ∃ call, Runs .wrapping (fun _ _ => True) s (cacheTurns length)
          (if r.2 then r.1.record call else eraseClient (r.1.record call) 1) := by
  obtain ⟨u, hrun, hu, hkey, state, hword, hstart, horder⟩ := cacheTurns_reach hs length
  obtain ⟨bs, hbs⟩ : ∃ bs, bs =
    Word.octets 0#32 ++ Word.octets 0#32 ++ Word.octets length ++ nameArray [] := ⟨_, rfl⟩
  have hread : (u.sockets (u.client 1).fd).Delivers 140 bs (.sending []) := by
    rw [hu.fd, hu.socket, hbs]
    exact Socket.sending_delivers (by simp [Word.octets, nameArray, esdNameMax]) _
  have hclient : (u.heardData 1 bs (.sending [])).client 1 = { u.client 1 with
      state := .nextRequest, protoData := store (u.client 1).protoData 0 bs, protoDataLength := bs.length } := by
    simp [Server.heardData]
  have hmetv : Met s (u.heardData 1 bs (.sending [])) := hu.met.trans ⟨rfl⟩
  refine ⟨u.heardData 1 bs (.sending []), hmetv, hu.list, by rw [hclient], ?_, hkey, ?_⟩
  · have hint : Mem.int (store (u.client 1).protoData 0 bs) 8 = length := by
      rw [hbs]
      exact Word.int_store_within _ (Word.octets 0#32 ++ Word.octets 0#32) _ length
    rw [hclient]
    simp only [EsdClient.param, hint, horder, maybeSwap32, Bool.false_eq_true, if_false]
  · intro r hr
    refine ⟨.handled 1 .sampleCache bs r.2, ?_⟩
    have hrequest : Proto.ofWord (u.client 1).request = some .sampleCache := by rw [hword]; rfl
    have hpoll : pollClient .wrapping (.allocating 2) u 1 = _ :=
      pollClient_handles rfl state hrequest hstart (by decide) hread hr
    exact hrun.snoc trivial (step_of_enabled (hu.enabled hs 2) hpoll)

/-- A sample that is longer than any memory is not made, and its number is gone. -/
theorem skipId (hs : s.Resting) :
    ∃ t, Runs .wrapping (fun _ _ => True) s (cacheTurns (BitVec.ofInt 32 (-1))) t ∧ t.Resting ∧
      t.esdNextSampleId = int32 (s.esdNextSampleId + 1) := by
  obtain ⟨v, hmet, hlist, state, hlength, hkey, hends⟩ := cacheTurns_end hs (BitVec.ofInt 32 (-1))
  have hlong : ¬ ((PollEnv.allocating 2).mallocData = true ∧ 0 ≤ (v.client 1).param 8) := by
    rw [hlength]
    decide
  obtain ⟨w, hw⟩ : ∃ w : Server, w = { v with esdNextSampleId := int32 (v.esdNextSampleId + 1) } := ⟨_, rfl⟩
  have hnew : newSample .wrapping (.allocating 2) v 1 = (w, 0) := by
    have hnull : (PollEnv.allocating 2).malloc ≠ 0 := by decide
    simp only [newSample]
    rw [hw, if_neg hnull]
    exact if_neg hlong
  have hcache : esdProtoSampleCache .wrapping (.allocating 2) v 1 = some (w, false) := by
    simp only [esdProtoSampleCache, state, reduceCtorEq, if_false, hnew, if_true]
  obtain ⟨call, hrun⟩ := hends _ hcache
  have herase : eraseClient (w.record call) 1 = { w.record call with
      esdClientsList := []
      events := w.events ++ [.closed (w.client 1).fd] } := by
    have hlistw : (w.record call).esdClientsList = [1] := by
      rw [hw]
      exact hlist
    simp only [eraseClient, hlistw, List.mem_singleton, if_true, List.erase_cons_head]
    rfl
  refine ⟨_, hrun, ?_, ?_⟩
  · simp only [Bool.false_eq_true, if_false, herase]
    refine ⟨rfl, ?_, ?_, .inr ?_⟩
    · rw [hw]
      exact hmet.players.trans hs.players
    · rw [hw]
      exact hmet.samples.trans hs.samples
    · rw [hw]
      exact hkey
  · simp only [Bool.false_eq_true, if_false, herase]
    rw [hw]
    change int32 (v.esdNextSampleId + 1) = _
    rw [hmet.nextId]

/-- A sample of no octets is made. -/
theorem takeId (hs : s.Resting) :
    ∃ t, Runs .wrapping (fun _ _ => True) s (cacheTurns 0#32) t ∧ s.esdNextSampleId ∈ t.sampleIds := by
  obtain ⟨v, hmet, hlist, state, hlength, hkey, hends⟩ := cacheTurns_end hs 0#32
  have hroom : SampleRoom (.allocating 2) v 1 := by
    refine ⟨by decide, rfl, ?_⟩
    rw [hlength]
    decide
  have hsome : ∃ r, esdProtoSampleCache .wrapping (.allocating 2) v 1 = some r := by
    simp only [esdProtoSampleCache, state, reduceCtorEq, if_false]
    split_ifs
    · exact ⟨_, rfl⟩
    · exact ⟨_, rfl⟩
  obtain ⟨r, hr⟩ := hsome
  obtain ⟨call, hrun⟩ := hends r hr
  have hfresh : (PollEnv.allocating 2).malloc ∉ v.esdSamplesList := by
    rw [hmet.samples, hs.samples]
    exact List.not_mem_nil
  have hids := esdProtoSampleCache_begun (by simp [state]) hfresh hr
  rw [if_pos hroom, hmet.nextId] at hids
  refine ⟨_, hrun, ?_⟩
  have hlast : (if r.2 then r.1.record call else eraseClient (r.1.record call) 1).sampleIds = r.1.sampleIds := by
    split_ifs
    · rfl
    · exact sampleIds_of_shelf (eraseClient_idle (s := r.1.record call) 1).shelf
  rw [hlast, hids]
  exact List.mem_cons_self

theorem skipIds (hs : s.Resting) (n : ℕ) :
    ∃ as t, Runs .wrapping (fun _ _ => True) s as t ∧ t.Resting ∧
      int32 t.esdNextSampleId = int32 (s.esdNextSampleId + n) := by
  induction n with
  | zero => exact ⟨[], s, .nil s, hs, by simp⟩
  | succ n ih =>
    obtain ⟨as, t, hrun, ht, hnext⟩ := ih
    obtain ⟨u, hskip, hu, hnextu⟩ := skipId ht
    refine ⟨_, u, hrun.append hskip, hu, ?_⟩
    have hone : int32 (int32 t.esdNextSampleId + 1) = int32 (t.esdNextSampleId + 1) :=
      Int.bmod_add_bmod
    have hmore : int32 (int32 (s.esdNextSampleId + n) + 1) = int32 (s.esdNextSampleId + n + 1) :=
      Int.bmod_add_bmod
    have hagain : int32 (int32 (t.esdNextSampleId + 1)) = int32 (t.esdNextSampleId + 1) := Int.bmod_bmod
    rw [hnextu, hagain, ← hone, hnext, hmore]
    push_cast
    ring_nf

theorem blank_resting : Server.blank.Resting := ⟨rfl, rfl, rfl, .inl rfl⟩

/-- After 2147483647 attempts the next sample gets the least number there is. -/
theorem sample_ids_wrap :
    ∃ as t, Runs .wrapping (fun _ _ => True) .blank as t ∧ -2147483648 ∈ t.sampleIds ∧ ¬ t.IdsUsable := by
  obtain ⟨as, s, hrun, hs, hnext⟩ := skipIds blank_resting 2147483646
  obtain ⟨t, hskip, ht, hnextt⟩ := skipId hs
  obtain ⟨u, htake, hmem⟩ := takeId ht
  have hleast : t.esdNextSampleId = -2147483648 := by
    have hone : int32 (int32 s.esdNextSampleId + 1) = int32 (s.esdNextSampleId + 1) :=
      Int.bmod_add_bmod
    rw [hnextt, ← hone, hnext]
    decide
  rw [hleast] at hmem
  refine ⟨_, u, (hrun.append hskip).append htake, hmem, fun husable => ?_⟩
  exact absurd (husable.positive _ hmem) (by decide)

end Wrapping

end Esound
