import Esound.Admission
import Esound.Complete
import Esound.Shares

/-!
# The upload that is resumed

The search for a half-cached sample ends at the first sample of the list. A client whose
upload was suspended finds its own there as long as nobody lists another, and as long as the
sample is not freed.
-/

open Library.Buffer Library.Transition

namespace Esound

/-- The client waits for the rest of a sample. -/
structure Suspended (c : Ptr) (s : Server) : Prop where
  listed : c ∈ s.esdClientsList
  state : (s.client c).state = .cachingSample

/-- `read_player` has no more of the sample for this player. -/
def Finished (s : Server) (p : Ptr) : Prop :=
  (s.player p).lastPos = 0 ∧
      (s.sample (s.player p).parent).format &&& esdMaskFunc = esdStop ∨
    nextChunk s p ≤ 0

instance (s : Server) (p : Ptr) : Decidable (Finished s p) := inferInstanceAs (Decidable (_ ∨ _))

/-- With the player goes a sample that has the id of `q`, if it was the last one. -/
def TakesAlong (s : Server) (p q : Ptr) : Prop :=
  (s.player p).IsSample ∧ (s.sample (s.player p).parent).eraseWhenDone = true ∧
    (s.sample (s.player p).parent).sampleId = (s.sample q).sampleId

instance (s : Server) (p q : Ptr) : Decidable (TakesAlong s p q) :=
  inferInstanceAs (Decidable (_ ∧ _))

/-- No sample is listed before the first one, and no request frees it. -/
def Opening.SparesFirst (env : PollEnv) (s : Server) (d : Ptr) : Opening → Prop
  | handles .sampleCache t => ¬ SampleRoom env t d
  | handles .sampleFree t =>
    ∀ q ∈ s.esdSamplesList.head?, (t.client d).param 0 = (s.sample q).sampleId →
      (s.sample q).refCount ≠ 0
  | _ => True

/-- Nor does it go with a player. -/
def SparesFirst (s : Server) : Action → Prop
  | .poll d env => (opening env s d).SparesFirst env s d
  | .mix _ =>
    ∀ q ∈ s.esdSamplesList.head?, ∀ p ∈ s.esdPlayersList, Finished s p → ¬ TakesAlong s p q
  | _ => True

def Action.Polls (c : Ptr) : Action → Prop
  | poll d _ => d = c
  | _ => False

instance (env : PollEnv) (s : Server) (d : Ptr) (o : Opening) : Decidable (o.SparesFirst env s d) :=
  match o with
  | .handles request t =>
    match request with
    | .sampleCache => inferInstanceAs (Decidable (¬ SampleRoom env t d))
    | .sampleFree => inferInstanceAs (Decidable (∀ q ∈ s.esdSamplesList.head?, _))
    | .connect | .lock | .unlock | .streamPlay | .streamRec | .streamMon | .samplePlay | .sampleLoop
    | .sampleStop | .sampleKill | .standby | .resume | .sampleGetid | .streamFilt | .serverInfo
    | .allInfo | .subscribe | .unsubscribe | .streamPan | .samplePan | .standbyMode | .latency =>
      .isTrue trivial
  | .done _ _ | .resumes => .isTrue trivial

instance (s : Server) (a : Action) : Decidable (SparesFirst s a) :=
  match a with
  | .poll d env => inferInstanceAs (Decidable ((opening env s d).SparesFirst env s d))
  | .mix _ => inferInstanceAs (Decidable (∀ q ∈ s.esdSamplesList.head?, _))
  | .accept .. | .refresh | .wake _ | .filter .. | .monitor .. | .recorder .. | .autostandby
  | .reconnect _ | .reset _ => .isTrue trivial

instance (c : Ptr) (a : Action) : Decidable (a.Polls c) :=
  match a with
  | .poll d _ => inferInstanceAs (Decidable (d = c))
  | .accept .. | .refresh | .mix _ | .wake _ | .filter .. | .monitor .. | .recorder ..
  | .autostandby | .reconnect _ | .reset _ => .isFalse id

/-- While an upload is suspended, others spare the first sample. -/
def Unhindered (s : Server) (a : Action) : Prop :=
  ∀ c ∈ s.esdClientsList, (s.client c).state = .cachingSample → ¬ a.Polls c → SparesFirst s a

instance (s : Server) (a : Action) : Decidable (Unhindered s a) :=
  inferInstanceAs (Decidable (∀ c ∈ s.esdClientsList, _))

/-! ## The first sample -/

/-- The first sample stays the first, and what has its id is not marked to be erased. -/
structure KeepsFirst (q : Ptr) (s t : Server) : Prop where
  head : s.esdSamplesList.head? = some q → t.esdSamplesList.head? = some q
  ids : ∀ x, (t.sample x).sampleId = (s.sample x).sampleId
  marks : ∀ x, (t.sample x).eraseWhenDone = true →
    (s.sample x).eraseWhenDone = true ∨ (s.sample x).sampleId ≠ (s.sample q).sampleId

namespace KeepsFirst

variable {p q : Ptr} {s t u : Server}

theorem same (hlist : t.esdSamplesList = s.esdSamplesList) (hsample : t.sample = s.sample) :
    KeepsFirst q s t :=
  ⟨by rw [hlist]; exact id, fun x => by rw [hsample], fun x h => by rw [hsample] at h; exact .inl h⟩

theorem trans (h : KeepsFirst q s t) (h' : KeepsFirst q t u) : KeepsFirst q s u := by
  refine ⟨fun hs => h'.head (h.head hs), fun x => (h'.ids x).trans (h.ids x), fun x hx => ?_⟩
  rcases h'.marks x hx with hmark | hid
  · exact h.marks x hmark
  · rw [h.ids, h.ids] at hid
    exact .inr hid

theorem of_idle (h : Idle s t) : KeepsFirst q s t :=
  .same (congrArg Shelf.samples h.shelf) (congrArg Shelf.sample h.shelf)

end KeepsFirst

section First

variable {cfg : Config} {canRead : Ptr → Bool} {p q : Ptr} {s t : Server} {l : PlayerList}

/-- Erasing by another id, or a sample that is still played, leaves the first where it is. -/
theorem eraseSample_head {id : ℤ} (hhead : s.esdSamplesList.head? = some q)
    (h : id = (s.sample q).sampleId → (s.sample q).refCount ≠ 0) :
    (eraseSample s id false).esdSamplesList.head? = some q := by
  obtain ⟨qs, hlist⟩ := List.head?_eq_some_iff.mp hhead
  simp only [eraseSample]
  split
  · exact hhead
  · rename_i y hfind
    split_ifs with hkept
    · exact hhead
    · have hid : (s.sample y).sampleId = id := by
        have hfound := List.find?_some hfind
        simpa using hfound
      have hne : q ≠ y := by
        rintro rfl
        exact hkept ⟨h hid.symm, trivial⟩
      simp [hlist, List.erase_cons_tail, hne]

theorem eraseSample_keepsFirst {id : ℤ} (h : id ≠ (s.sample q).sampleId) :
    KeepsFirst q s (eraseSample s id false) := by
  have hhead : s.esdSamplesList.head? = some q →
      (eraseSample s id false).esdSamplesList.head? = some q :=
    fun hhead => eraseSample_head hhead fun hid => absurd hid h
  have hshelved : Shelved {.frees} s (eraseSample s id false) :=
    (eraseSample_keeps (Set.mem_singleton Deed.frees) id false).toShelved
  refine ⟨hhead, fun x => (hshelved.sample x).sampleId, fun x hx => ?_⟩
  simp only [eraseSample] at hx
  split at hx
  · exact .inl hx
  · rename_i y hfind
    have hid : (s.sample y).sampleId = id := by
      have hfound := List.find?_some hfind
      simpa using hfound
    split_ifs at hx
    · rcases eq_or_ne x y with rfl | hne
      · exact .inr (hid.trans_ne h)
      · simp only [Server.setSample, Function.update_of_ne hne] at hx
        exact .inl hx
    · exact .inl hx

theorem freePlayer_keepsFirst (h : ¬ TakesAlong s p q) : KeepsFirst q s (freePlayer s p) := by
  obtain ⟨u, hu⟩ : ∃ u, ({ s.setSample (s.player p).parent { s.sample (s.player p).parent with
      refCount := (s.sample (s.player p).parent).refCount - 1 } with
        esdPlayingSamples := s.esdPlayingSamples - 1 } : Server) = u := ⟨_, rfl⟩
  have hsame : ∀ x, (u.sample x).sampleId = (s.sample x).sampleId ∧
      (u.sample x).eraseWhenDone = (s.sample x).eraseWhenDone := by
    intro x
    rw [← hu]
    rcases eq_or_ne x (s.player p).parent with rfl | hne
    · simp [Server.setSample]
    · simp [Server.setSample, hne]
  have hrelease : KeepsFirst q s u := by
    refine ⟨fun hhead => ?_, fun x => (hsame x).1, fun x hx => .inl (by rw [← (hsame x).2]; exact hx)⟩
    rw [← hu]
    exact hhead
  have hemit : ∀ v e, KeepsFirst q v (v.emit e) := fun v e => .same rfl rfl
  simp only [freePlayer]
  refine KeepsFirst.trans ?_ (hemit _ _)
  split_ifs with hstream hsample hgone
  · exact .of_idle (eraseClient_idle _)
  · rw [hu]
    refine hrelease.trans (eraseSample_keepsFirst ?_)
    rw [(hsame q).1]
    exact fun hid => h ⟨hsample, hgone.1, hid⟩
  · rw [hu]
    exact hrelease
  · exact .same rfl rfl

theorem eraseFrom_keepsFirst (h : p ∈ s.list l → ¬ TakesAlong s p q) :
    KeepsFirst q s (eraseFrom s l p) := by
  simp only [eraseFrom]
  split_ifs with hp
  · have hlist : KeepsFirst q s (s.setList l ((s.list l).erase p)) := by
      cases l <;> exact .same rfl rfl
    refine hlist.trans (freePlayer_keepsFirst ?_)
    have htakes := h hp
    cases l <;> exact htakes
  · exact .same rfl rfl

variable (canRead) in
theorem readPlayer_unfinished (mode : (s.player p).IsSample) (h : ¬ Finished s p) :
    0 < (readPlayer (canRead p) s p).2 := by
  simp only [Finished, not_or, not_and, not_le] at h
  have hstop : ¬ ((s.player p).lastPos = 0 ∧
      (s.sample (s.player p).parent).format &&& esdMaskFunc = esdStop) := fun hboth =>
    h.1 hboth.1 hboth.2
  have hchunk : 0 < sampleChunk (s.sample (s.player p).parent) (s.player p) := h.2
  simp only [readPlayer, if_neg (fun hs : (s.player p).IsStream => hs.not_isSample mode), if_pos mode,
    readSamplePlayer, if_neg hstop, if_pos hchunk]
  exact fillFromSample_actual hchunk

variable (cfg canRead) in
/-- The turn of a player takes the first sample off the list only if the player is finished. -/
theorem mixReadOne_keepsFirst (h : Finished s p → ¬ TakesAlong s p q) (length least : ℤ) :
    KeepsFirst q s (mixReadOne cfg canRead length (s, least) p).1 := by
  have hidle : Idle s (readPlayer (canRead p) s p).1 := readPlayer_idle _ p
  have hread : KeepsFirst q s (readPlayer (canRead p) s p).1 := .of_idle hidle
  simp only [mixReadOne]
  split_ifs with hnone hneg
  · exact hread
  · refine hread.trans (eraseFrom_keepsFirst fun _ htakes => ?_)
    have hkind := hidle.kind p
    have hsample : (readPlayer (canRead p) s p).1.sample = s.sample := congrArg Shelf.sample hidle.shelf
    simp only [TakesAlong, hsample, hkind.parent, hkind.isSample_iff] at htakes
    refine h ?_ htakes
    by_contra hfinished
    have hpos := readPlayer_unfinished canRead htakes.1 hfinished
    omega
  · exact hread
  · exact hread
  · exact hread

theorem mixRead_keepsFirst (ps : List Ptr) (hnd : ps.Nodup) (length least : ℤ)
    (h : ∀ p ∈ ps, Finished s p → ¬ TakesAlong s p q) :
    KeepsFirst q s (ps.foldl (mixReadOne cfg canRead length) (s, least)).1 := by
  induction ps generalizing s least with
  | nil => exact .same rfl rfl
  | cons p ps ih =>
    obtain ⟨hp, hrest⟩ := List.nodup_cons.mp hnd
    obtain ⟨⟨t, least'⟩, ht⟩ : ∃ r, mixReadOne cfg canRead length (s, least) p = r := ⟨_, rfl⟩
    have hone : KeepsFirst q s t := by
      have hturn := mixReadOne_keepsFirst cfg canRead
        (h p List.mem_cons_self) length least
      rwa [ht] at hturn
    simp only [List.foldl_cons, ht]
    refine hone.trans (ih hrest least' fun p' hp' hfinished htakes => ?_)
    -- a player whose turn is to come is as it was, and so is its sample
    have haside : Aside p' s t := by
      have hne : p' ≠ p := fun he => hp (he ▸ hp')
      have hturn := mixReadOne_aside cfg canRead hne length (s, least)
      rwa [ht] at hturn
    have hplayer : t.player p' = s.player p' := haside.spares.player
    have hformat := (haside.shelved.sample (s.player p').parent).format
    simp only [Finished, hplayer, hformat, haside.nextChunk] at hfinished
    simp only [TakesAlong, hplayer, hone.ids] at htakes
    obtain ⟨mode, hmark, hid⟩ := htakes
    rcases hone.marks _ hmark with hmarked | hne
    · exact h p' (List.mem_cons_of_mem _ hp') hfinished ⟨mode, hmarked, hid⟩
    · exact hne hid

theorem mixPlayers_keepsFirst (hnd : s.esdPlayersList.Nodup)
    (h : ∀ p ∈ s.esdPlayersList, Finished s p → ¬ TakesAlong s p q) :
    KeepsFirst q s (mixPlayers cfg canRead s).1 := by
  have hclear : Idle s (clearMix cfg s) := .same rfl rfl rfl rfl
  have hread : KeepsFirst q s (mixRead cfg canRead s).1 :=
    (KeepsFirst.of_idle hclear).trans
      (mixRead_keepsFirst (s := clearMix cfg s) s.esdPlayersList hnd cfg.esdBufSizeOctets 0 h)
  have hall : ∀ least u, KeepsFirst q u (mixAll cfg least u).1 := fun least u =>
    foldl_related (fun a b : Server × ℤ => KeepsFirst q a.1 b.1) (fun _ => .same rfl rfl)
      (fun _ _ _ => .trans) (mixOne cfg least) u.esdPlayersList
      (fun acc p _ => .of_idle (mixOne_idle least acc p)) (u, 0)
  have hclip : ∀ u m, KeepsFirst q u { u with outputBuffer := m } := fun _ _ => .same rfl rfl
  simp only [mixPlayers, clipMix]
  split_ifs
  · exact (hread.trans (hall _ _)).trans (hclip _ _)
  · exact (hread.trans (hall _ _)).trans (hclip _ _)
  · exact hread

/-- Taking streams off their list frees no sample. -/
def OnlyStreams (l : PlayerList) (q : Ptr) (s t : Server) : Prop :=
  (∀ p ∈ s.list l, (s.player p).IsStream) →
    KeepsFirst q s t ∧ ∀ p ∈ t.list l, (t.player p).IsStream

theorem onlyStreams_spanned (l : PlayerList) (q : Ptr) : Spanned (OnlyStreams l q) where
  idle _ _ h hs := ⟨.of_idle h, fun p hp => (h.kind p).isStream_iff.mpr (hs p (h.lists ▸ hp))⟩
  trans _ _ _ h h' hs :=
    ⟨(h hs).1.trans (h' (h hs).2).1, (h' (h hs).2).2⟩

theorem eraseFrom_onlyStreams (l : PlayerList) (q : Ptr) (s : Server) (p : Ptr) :
    OnlyStreams l q s (eraseFrom s l p) := by
  intro hs
  refine ⟨eraseFrom_keepsFirst fun hp htakes => (hs p hp).not_isSample htakes.1, fun p' hp' => ?_⟩
  rw [eraseFrom_player]
  exact hs p' (mem_of_mem_eraseFrom hp')

end First

/-! ## The search -/

/-- The sample is the first, the client's, and there is more of it to come. -/
structure First (c q : Ptr) (s : Server) : Prop where
  head : s.esdSamplesList.head? = some q
  notNull : q ≠ 0
  parent : (s.sample q).parent = c
  more : (s.sample q).cachedLength < (s.sample q).sampleLength

section Search

variable {cfg : Config} {env : PollEnv} {c d q : Ptr} {s t : Server} {r : Server × Bool} {a : Action}

theorem First.found (h : First c q s) (d : Ptr) :
    findCachingSample s d = if c = d then some q else none := by
  obtain ⟨qs, hlist⟩ := List.head?_eq_some_iff.mp h.head
  simp only [findCachingSample, hlist, h.parent]

theorem First.kept (h : First c q s) (head : t.esdSamplesList.head? = some q)
    (same : (t.sample q).SameUpload (s.sample q)) : First c q t :=
  ⟨head, h.notNull, same.parent.trans h.parent,
    by rw [same.cachedLength, same.sampleLength]; exact h.more⟩

theorem First.shelf (h : First c q s) (hshelf : t.shelf = s.shelf) : First c q t := by
  have hsamples : t.esdSamplesList = s.esdSamplesList := congrArg Shelf.samples hshelf
  have hsample : t.sample = s.sample := congrArg Shelf.sample hshelf
  exact h.kept (hsamples ▸ h.head) (by rw [hsample]; exact .refl _)

theorem step_first (hw : s.objects.WellFormed) (hs : First c q s) (hspares : SparesFirst s a)
    (hreset : ¬ a.IsReset) (hpoll : ∀ d env, a ≠ .poll d env) (h : step cfg s a = some t) :
    First c q t := by
  have hshelved : Shelved {.frees} s t := step_shelved (Set.mem_singleton _) h hpoll
  have hstreams : ∀ l, l ≠ .players → ∀ p ∈ s.list l, (s.player p).IsStream :=
    fun l hl p hp => hw.streams hl hp
  have hkeeps : KeepsFirst q s t := by
    obtain ⟨-, h⟩ := step_eq_some h
    cases a with
    | poll d env => exact absurd rfl (hpoll d env)
    | reset => exact absurd trivial hreset
    | accept =>
      cases h
      exact .same rfl rfl
    | refresh =>
      cases h
      simp only [refreshMixFuncs]
      split_ifs <;> exact .same rfl rfl
    | mix canRead =>
      cases h
      exact mixPlayers_keepsFirst (hw.lists_nodup .players) (hspares q hs.head)
    | wake reopen =>
      cases h
      simp only [esdServerResume]
      split_ifs
      · cases reopen <;> exact .same rfl rfl
      · exact .same rfl rfl
    | filter canRead size =>
      cases h
      exact ((onlyStreams_spanned .filters q).carried.filterWrite (eraseFrom_onlyStreams .filters q) canRead
        size (hstreams .filters (by decide))).1
    | monitor canWrite length =>
      cases h
      exact ((onlyStreams_spanned .monitors q).carried.monitorWrite (eraseFrom_onlyStreams .monitors q)
        canWrite length (hstreams .monitors (by decide))).1
    | recorder ready reopen block length =>
      cases h
      have hblock : KeepsFirst q s { s with outputBuffer := store s.outputBuffer 0 block } := .same rfl rfl
      have hdevice : ∀ (u : Server) fd format size, OnlyStreams .recorders q u
          { u with audioFd := fd, esdAudioFormat := format, esdWriteSize := size } :=
        fun _ _ _ _ hu => ⟨.same rfl rfl, hu⟩
      have hrows : ∀ u, OnlyStreams .recorders q u (recorderWrite cfg ready reopen u length).1 := fun u =>
        (onlyStreams_spanned .recorders q).carried.recorderWrite (eraseFrom_onlyStreams .recorders q) hdevice
          ready reopen length
      exact hblock.trans (hrows { s with outputBuffer := store s.outputBuffer 0 block }
        (hstreams .recorders (by decide))).1
    | autostandby =>
      cases h
      simp only [esdServerStandby]
      split_ifs <;> exact .same rfl rfl
    | reconnect reopen =>
      cases h
      cases reopen <;> exact .same rfl rfl
  exact hs.kept (hkeeps.head hs.head) (hshelved.sample q)

theorem pollTurn_first (hs : First c q s) (hne : c ≠ d)
    (hspares : (opening env s d).SparesFirst env s d) (h : pollTurn cfg env s d = some r) :
    First c q r.1 := by
  have hfits := opening_fits env d s
  rw [pollTurn_eq] at h
  cases hopen : opening env s d with
  | done t ok =>
    rw [hopen] at h hfits
    cases h
    exact hs.shelf (by rw [Heard.rest hfits]; rfl)
  | resumes =>
    rw [hopen] at h hfits
    have hfits : (s.client d).state = .cachingSample := hfits
    simp only [Opening.finish, pollCachingSample, esdProtoSampleCache, hfits, if_true, hs.found d,
      if_neg hne] at h
    cases h
  | handles request t =>
    rw [hopen] at h hfits hspares
    obtain ⟨hheard, -, hstate⟩ := hfits
    obtain ⟨r', hr', rfl⟩ := Option.map_eq_some_iff.mp h
    have ht : First c q t := hs.shelf (by rw [hheard.rest]; rfl)
    have hsample : t.sample = s.sample := by rw [hheard.rest]
    have hdone : First c q r'.1 := by
      cases request with
      | sampleCache =>
        have hstate' : (t.client d).state ≠ .cachingSample := by simp [hstate]
        simp only [handler, esdProtoSampleCache, hstate', if_false, newSample_noRoom hspares, if_true] at hr'
        cases hr'
        obtain ⟨-, ⟨-, hshelf⟩ | ⟨hmalloc, hnull, -⟩⟩ := newSample_cached cfg env t d
        · exact ht.shelf hshelf
        · exact absurd (hmalloc.symm.trans (newSample_noRoom hspares)) hnull
      | sampleFree =>
        have hshelved := handler_shelved (by decide) hr'
        cases hr'
        refine ht.kept ?_ (hshelved.sample q)
        exact eraseSample_head ht.head (by rw [hsample]; exact hspares q hs.head)
      | _ =>
        have hshelved := handler_shelved (by simp) hr'
        refine ht.kept ?_ (hshelved.sample q)
        rw [hshelved.unfreed (by simp [frees_mem_deeds])]
        exact ht.head
    exact hdone.shelf rfl

/-- A call of the handler that leaves its client waiting leaves it its sample. -/
theorem Caches.first (h : Caches c q s r) (hhead : s.esdSamplesList.head? = some q) (hnull : q ≠ 0)
    (hle : (s.sample q).cachedLength ≤ (s.sample q).sampleLength) (hok : r.2 = true)
    (hstate : (r.1.client c).state = .cachingSample) : First c q r.1 := by
  have hends := h.ends hle
  have hq : r.1.sample q =
      { s.sample q with parent := c, cachedLength := (r.1.sample q).cachedLength } := by
    have hsample := congrFun h.sample q
    rwa [Function.update_self] at hsample
  refine ⟨by rw [h.samples]; exact hhead, hnull, by rw [hq], ?_⟩
  have hmore : s.uploadedLength c q < (s.sample q).sampleLength := by
    by_contra hdone
    have hnext := hends.state hok
    rw [if_neg hdone, hstate] at hnext
    cases hnext
  rw [hends.cached hok, hq]
  exact hmore

end Search

/-! ## Runs -/

/-- The upload of the sample at `q` was begun in the run, and is suspended ever since. -/
inductive Uploading (cfg : Config) (c q : Ptr) (s : Server) : List Action → Server → Prop
  | begun {as : List Action} {m t : Server} {env : PollEnv} {protoData : List Octet}
      (before : Runs cfg (fun _ _ => True) s as m) (taken : step cfg m (.poll c env) = some t)
      (calls : t.calls = m.calls ++ [.handled c .sampleCache protoData true]) (sample : q = env.malloc)
      (suspended : Suspended c t) : Uploading cfg c q s (as ++ [.poll c env]) t
  | still {as : List Action} {m t : Server} {a : Action} (before : Uploading cfg c q s as m)
      (taken : step cfg m a = some t) (suspended : Suspended c t) : Uploading cfg c q s (as ++ [a]) t

section Runs

variable {cfg : Config} {env : PollEnv} {c q : Ptr} {s t : Server} {a : Action} {as : List Action}

theorem Uploading.run (h : Uploading cfg c q s as t) : Runs cfg (fun _ _ => True) s as t := by
  induction h with
  | begun before taken => exact before.snoc trivial taken
  | still _ taken _ ih => exact ih.snoc trivial taken

theorem Uploading.suspended (h : Uploading cfg c q s as t) : Suspended c t := by
  cases h with
  | begun _ _ _ _ suspended => exact suspended
  | still _ _ suspended => exact suspended

theorem step_turn (hw : s.objects.WellFormed) (h : step cfg s (.poll c env) = some t)
    (hc : c ∈ t.esdClientsList) : pollTurn cfg env s c = some (t, true) := by
  obtain ⟨⟨hlisted, fresh, samples⟩, h⟩ := step_eq_some h
  obtain ⟨⟨u, ok⟩, hr, rfl⟩ := Option.map_eq_some_iff.mp h
  have hwell := (pollTurn_turn hw hlisted fresh samples hr).effects.wellFormed hw
  cases ok with
  | true => exact hr
  | false => exact absurd hc (erased_notMem (r := (u, false)) hwell rfl)

theorem ownTurn_first (hs : First c q s) (hstate : (s.client c).state = .cachingSample)
    (h : pollTurn cfg env s c = some (t, true)) (ht : (t.client c).state = .cachingSample) :
    First c q t := by
  have hopening : opening env s c = if env.canRead = false then .done s true else .resumes := by
    simp only [opening, hstate]
  rw [pollTurn_eq, hopening] at h
  split_ifs at h
  · cases h
    exact hs
  · simp only [Opening.finish, pollCachingSample, esdProtoSampleCache, hstate, if_true, hs.found c,
      hs.notNull, if_false, Option.map_some, Option.some.injEq] at h
    have hcaches : Caches c q s (cacheInto cfg s c q) := cacheInto_caches
    have ht' : t = (cacheInto cfg s c q).1.record (.resumed c (cacheInto cfg s c q).2) :=
      (congrArg Prod.fst h).symm
    have hok : (cacheInto cfg s c q).2 = true := congrArg Prod.snd h
    rw [ht'] at ht ⊢
    exact (hcaches.first hs.head hs.notNull hs.more.le hok ht).shelf rfl

theorem startTurn_first {protoData : List Octet} (h : pollTurn cfg env s c = some (t, true))
    (calls : t.calls = s.calls ++ [.handled c .sampleCache protoData true])
    (ht : (t.client c).state = .cachingSample) : First c env.malloc t := by
  have hfits := opening_fits env c s
  rw [pollTurn_eq] at h
  cases hopen : opening env s c with
  | done u ok =>
    rw [hopen] at h hfits
    cases h
    have hcalls : t.calls = s.calls := by rw [Heard.rest hfits]
    rw [hcalls] at calls
    simp at calls
  | resumes =>
    rw [hopen] at h
    obtain ⟨r', -, hr⟩ := Option.map_eq_some_iff.mp h
    have ht' : t = r'.1.record (.resumed c r'.2) := (congrArg Prod.fst hr).symm
    rw [ht'] at calls
    obtain ⟨-, hcall⟩ := List.append_inj' calls rfl
    simp at hcall
  | handles request u =>
    rw [hopen] at h hfits
    obtain ⟨-, -, hstate⟩ := hfits
    obtain ⟨r', hr', hr⟩ := Option.map_eq_some_iff.mp h
    have ht' : t = r'.1.record (.handled c request
        (load (u.client c).protoData 0 request.dataLength.toNat) r'.2) := (congrArg Prod.fst hr).symm
    have hok : r'.2 = true := congrArg Prod.snd hr
    rw [ht'] at calls ht ⊢
    obtain ⟨-, hcall⟩ := List.append_inj' calls rfl
    simp only [List.cons.injEq, Call.handled.injEq, and_true, true_and] at hcall
    obtain ⟨rfl, -⟩ := hcall
    have hdone : First c env.malloc r'.1 := by
      cases esdProtoSampleCache_uploads hr' with
      | none v => cases hok
      | start v isNew v' same shelf notNull _ caches =>
        have hsamples : v'.esdSamplesList = env.malloc :: u.esdSamplesList := congrArg Shelf.samples shelf
        have hsample : v'.sample env.malloc = v := by
          have hat := congrFun (congrArg Shelf.sample shelf) env.malloc
          simpa [Server.shelf] using hat
        exact caches.first (by rw [hsamples]; rfl) notNull
          (by rw [hsample, isNew.cached]; exact isNew.length) hok ht
      | resume caching => rw [hstate] at caching; cases caching
    exact hdone.shelf rfl

/-- Waiting for the rest of a sample is not what the reads of a turn lead to. -/
theorem opening_done_state {ok : Bool} (h : opening env s c = .done t ok)
    (ht : (t.client c).state = .cachingSample) : (s.client c).state = .cachingSample := by
  simp only [opening] at h
  split_ifs at h
  · cases h
    exact ht
  · cases hstate : (s.client c).state with
    | cachingSample => rfl
    | streamingData =>
      simp only [hstate] at h
      cases h
      exact hstate.symm.trans ht
    | needsReqdata =>
      have hread : ∀ request, ((readReqdata request s c).1.client c).state = (s.client c).state := by
        intro request
        simp [readReqdata, Server.setClient]
      simp only [hstate, openReqdata] at h
      split at h
      · cases h
        exact hstate.symm.trans ht
      · split_ifs at h
        · cases h
          exact hstate.symm.trans ht
        · cases h
          exact ((hread _).trans hstate).symm.trans ht
        · cases h
        · cases h
          exact ((hread _).trans hstate).symm.trans ht
    | nextRequest =>
      have hread : ((readRequestWord s c).1.client c).state = (s.client c).state := by
        simp [readRequestWord, Server.setClient]
      have hread' := hread.trans hstate
      simp only [hstate, openRequest] at h
      split_ifs at h
      · cases h
        exact hread'.symm.trans ht
      · split at h
        · cases h
          exact hread'.symm.trans ht
        · cases h
          exact hread'.symm.trans ht
        · simp only [openBegun] at h
          split_ifs at h
          · cases h
          · cases h
            simp [Server.setClient] at ht

theorem reset_notMem {scrambled : List Octet} (h : step cfg s (.reset scrambled) = some t) :
    c ∉ t.esdClientsList := by
  obtain ⟨-, h⟩ := step_eq_some h
  cases h
  have hnone : (resetDaemon s scrambled).esdClientsList = [] :=
    congrArg Objects.clients (resetDaemon_objects s scrambled)
  rw [hnone]
  exact List.not_mem_nil

theorem Suspended.before (hw : s.objects.WellFormed) (h : step cfg s a = some t) (ht : Suspended c t) :
    Suspended c s ∨ ∃ env protoData, a = .poll c env ∧
      t.calls = s.calls ++ [.handled c .sampleCache protoData true] := by
  by_cases hreset : a.IsReset
  · cases a with
    | reset scrambled =>
      exact absurd ht.listed (reset_notMem h)
    | _ => exact hreset.elim
  · have heffects := step_effects hw h hreset
    by_cases hc : c ∈ (a.footprint s).clients
    · cases a with
      | accept d fd socket =>
        obtain rfl : c = d := hc
        obtain ⟨-, h⟩ := step_eq_some h
        cases h
        have hstate := ht.state
        simp [getNewClient, addNewClient, Server.record, Server.setClient] at hstate
      | poll d env =>
        obtain rfl : c = d := hc
        have hr := step_turn hw h ht.listed
        obtain ⟨⟨hlisted, -, samples⟩, -⟩ := step_eq_some h
        have hfits := opening_fits env c s
        rw [pollTurn_eq] at hr
        cases hopen : opening env s c with
        | done u ok =>
          rw [hopen] at hr
          cases hr
          exact .inl ⟨hlisted, opening_done_state hopen ht.state⟩
        | resumes =>
          rw [hopen] at hfits
          exact .inl ⟨hlisted, hfits⟩
        | handles request u =>
          rw [hopen] at hr hfits
          obtain ⟨hheard, -, hstate⟩ := hfits
          obtain ⟨r', hr', hr⟩ := Option.map_eq_some_iff.mp hr
          have ht' : t = r'.1.record (.handled c request
              (load (u.client c).protoData 0 request.dataLength.toNat) r'.2) :=
            (congrArg Prod.fst hr).symm
          have hok : r'.2 = true := congrArg Prod.snd hr
          by_cases hcache : request = .sampleCache
          · subst hcache
            have hserves : Serves cfg c True u r' :=
              esdProtoSampleCache_serves (by rw [hstate]; decide)
                (by rw [hheard.lists.2.2]; exact samples) hr'
            have hcalls : r'.1.calls = s.calls := by
              refine (congrArg Ledger.calls (hserves.ledger trivial)).trans ?_
              rw [hheard.rest]
              rfl
            refine .inr ⟨env, load (u.client c).protoData 0 Proto.sampleCache.dataLength.toNat, rfl, ?_⟩
            rw [ht', ← hcalls, ← hok]
            rfl
          · have hafter : (r'.1.client c).state = .cachingSample := by
              rw [← ht.state, ht']
              rfl
            rcases handler_state hcache hr' with hsame | hstream
            · rw [hafter, hstate] at hsame
              cases hsame
            · rw [hafter] at hstream
              cases hstream
      | _ => exact absurd hc (Set.notMem_empty c)
    · have hclient : t.client c = s.client c := heffects.client_frame hc
      exact .inl ⟨heffects.clients_frame hc ht.listed, by rw [← hclient]; exact ht.state⟩

/-- What every step of a run leaves of the uploads. -/
structure Placed (cfg : Config) (s : Server) (as : List Action) (t : Server) : Prop where
  begun : ∀ c, Suspended c t → ∃ q, Uploading cfg c q s as t
  first : ∀ c q, Uploading cfg c q s as t → First c q t

theorem Uploading.ne_nil (h : Uploading cfg c q s as t) : as ≠ [] := by
  cases h <;> simp

theorem Placed.step {u : Server} (hs : Placed cfg s as u) (hrun : Runs cfg Unhindered s as u)
    (hw : u.objects.WellFormed) (hok : Unhindered u a) (hstep : Esound.step cfg u a = some t) :
    Placed cfg s (as ++ [a]) t where
  begun c ht := by
    rcases ht.before hw hstep with hu | ⟨env, protoData, rfl, hcalls⟩
    · obtain ⟨q, hup⟩ := hs.begun c hu
      exact ⟨q, hup.still hstep ht⟩
    · exact ⟨env.malloc, .begun (hrun.mono fun _ _ _ => trivial) hstep hcalls rfl ht⟩
  first c q hup := by
    obtain ⟨bs, hbs⟩ : ∃ bs, as ++ [a] = bs := ⟨_, rfl⟩
    rw [hbs] at hup
    cases hup with
    | begun before taken calls sample suspended =>
      obtain ⟨rfl, hlast⟩ := List.append_inj' hbs rfl
      cases before.unique hrun
      cases hlast
      rw [sample]
      exact startTurn_first (step_turn hw hstep suspended.listed) calls suspended.state
    | still before taken suspended =>
      obtain ⟨rfl, hlast⟩ := List.append_inj' hbs rfl
      cases before.run.unique hrun
      cases hlast
      have hfirst := hs.first c q before
      have hbefore := before.suspended
      by_cases hpolls : a.Polls c
      · cases a with
        | poll d env =>
          obtain rfl : d = c := hpolls
          exact ownTurn_first hfirst hbefore.state (step_turn hw hstep suspended.listed) suspended.state
        | _ => exact hpolls.elim
      · have hspares := hok c hbefore.listed hbefore.state hpolls
        cases a with
        | poll d env =>
          obtain ⟨-, hturn⟩ := step_eq_some hstep
          obtain ⟨r, hr, rfl⟩ := Option.map_eq_some_iff.mp hturn
          exact (pollTurn_first hfirst (Ne.symm hpolls) hspares hr).shelf (afterTurn_kept d r).1
        | reset scrambled => exact absurd suspended.listed (reset_notMem hstep)
        | _ => exact step_first hw hfirst hspares id (by simp) hstep

theorem Run.placed (hs : s.Initial) (h : Runs cfg Unhindered s as t) : Placed cfg s as t := by
  induction as using List.reverseRecOn generalizing t with
  | nil =>
    cases h
    refine ⟨fun c hc => ?_, fun c q hup => absurd rfl hup.ne_nil⟩
    have hlisted := hc.listed
    rw [hs.clients] at hlisted
    exact absurd hlisted List.not_mem_nil
  | append_singleton as a ih =>
    obtain ⟨u, hrun, hok, hstep⟩ := h.unsnoc
    exact (ih hrun).step hrun (Run.wellFormed hrun hs.wellFormed) hok hstep

/-- In a run in which suspended uploads are not hindered, every client that waits for the rest of
a sample finds the one it began to upload. -/
theorem uploads_find_own_samples (hs : s.Initial) (h : Runs cfg Unhindered s as t) :
    (∀ c, Suspended c t → ∃ q, Uploading cfg c q s as t) ∧
      ∀ c q, Uploading cfg c q s as t →
        findCachingSample t c = some q ∧ q ∈ t.esdSamplesList ∧
          (t.sample q).cachedLength < (t.sample q).sampleLength ∧
          ∀ env, esdProtoSampleCache cfg env t c = some (cacheInto cfg t c q) := by
  have hplaced := Run.placed hs h
  refine ⟨hplaced.begun, fun c q hup => ?_⟩
  have hfirst := hplaced.first c q hup
  have hfound : findCachingSample t c = some q := by
    rw [hfirst.found c, if_pos rfl]
  refine ⟨hfound, List.mem_of_mem_head? hfirst.head, hfirst.more, fun env => ?_⟩
  simp only [esdProtoSampleCache, hup.suspended.state, if_true, hfound, hfirst.notNull, if_false]

end Runs

/-- A client sends two octets of a sample of four, and more is to come. -/
def pausingSocket (key : Octet) : Socket :=
  ⟨[.data (handshake key), .data (Word.octets 6#32),
    .data (Word.octets (esdBits16 ||| esdMono) ++ Word.octets 44100#32 ++ Word.octets 4#32 ++
      nameArray []),
    .data [1, 2], .again], []⟩

/-- The upload is suspended, and another client connects. -/
def suspendedRun : List Action :=
  [.accept 1 5 (pausingSocket 7), .poll 1 (.allocating 0), .poll 1 (.allocating 0),
    .poll 1 (.allocating 2), .accept 3 6 (pausingSocket 7), .poll 3 (.allocating 0)]

theorem suspendedRun_ends :
    (exec (step .smallBlocks) Unhindered .blank suspendedRun).isSome := by
  decide +kernel

theorem uploads_find_own_samples_suspended :
    ∃ t, Runs .smallBlocks Unhindered .blank suspendedRun t ∧ t.esdClientsList = [3, 1] ∧
      t.esdSamplesList = [2] ∧ findCachingSample t 1 = some 2 := by
  have hlist : ((exec (step .smallBlocks) Unhindered .blank suspendedRun).get
      suspendedRun_ends).esdSamplesList = [2] := by
    decide +kernel
  refine ⟨_, Run.of_isSome suspendedRun_ends, by decide +kernel, hlist, ?_⟩
  obtain ⟨hbegun, hfinds⟩ := uploads_find_own_samples Server.blank_initial
    (Run.of_isSome suspendedRun_ends)
  obtain ⟨q, hup⟩ := hbegun 1 ⟨by decide +kernel, by decide +kernel⟩
  obtain ⟨hfound, hlisted, -⟩ := hfinds 1 q hup
  rw [hlist, List.mem_singleton] at hlisted
  rw [hfound, hlisted]

/-- Both clients upload a sample. -/
def twoUploadsRun : List Action :=
  suspendedRun ++ [.poll 3 (.allocating 0), .poll 3 (.allocating 4)]

theorem twoUploadsRun_ends : (exec (step .smallBlocks) NoReset .blank twoUploadsRun).isSome := by
  decide +kernel

/-- The search of the client that was first does not end. -/
theorem second_upload_hides_first :
    ∃ t, Runs .smallBlocks NoReset .blank twoUploadsRun t ∧ t.esdClientsList = [3, 1] ∧
      (t.client 1).state = .cachingSample ∧ t.esdSamplesList = [4, 2] ∧ (t.sample 2).parent = 1 ∧
      (t.sample 2).cachedLength = 2 ∧ (t.sample 2).sampleLength = 4 ∧ findCachingSample t 1 = none :=
  ⟨_, Run.of_isSome twoUploadsRun_ends, by decide +kernel, by decide +kernel, by decide +kernel,
    by decide +kernel, by decide +kernel, by decide +kernel, by decide +kernel⟩

end Esound
