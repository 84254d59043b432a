import Esound.Carried

/-!
# What most of the daemon leaves alone

Few things touch the audio device, and what a sample was made of and how much of it has
arrived are matters of its upload. Everything else is said here to leave both alone:
without an upload samples only leave, and they leave only where something is freed.
-/

open Library.Buffer Library.Loop Library.Transition

namespace Esound

/-- What the daemon knows of the device: whether it stands by, and why; the format; the
format the device was opened with, if it is open; and who records from it. -/
structure Device where
  onStandby : Bool
  onAutostandby : Bool
  forcedStandby : Bool
  format : Word
  audioFd : Option Word
  recorders : List Ptr

def Server.device (s : Server) : Device :=
  ⟨s.esdOnStandby, s.esdOnAutostandby, s.esdForcedStandby, s.esdAudioFormat, s.audioFd,
    s.esdRecorderList⟩

/-- All but the count of players, the mark and the volumes. -/
structure EsdSample.SameUpload (v w : EsdSample) : Prop where
  parent : v.parent = w.parent
  format : v.format = w.format
  rate : v.rate = w.rate
  sampleId : v.sampleId = w.sampleId
  sampleLength : v.sampleLength = w.sampleLength
  cachedLength : v.cachedLength = w.cachedLength
  name : v.name = w.name

theorem EsdSample.SameUpload.refl (v : EsdSample) : v.SameUpload v :=
  ⟨rfl, rfl, rfl, rfl, rfl, rfl, rfl⟩

theorem EsdSample.SameUpload.trans {u v w : EsdSample} (h : v.SameUpload w) (h' : u.SameUpload v) :
    u.SameUpload w :=
  ⟨h'.parent.trans h.parent, h'.format.trans h.format, h'.rate.trans h.rate,
    h'.sampleId.trans h.sampleId, h'.sampleLength.trans h.sampleLength,
    h'.cachedLength.trans h.cachedLength, h'.name.trans h.name⟩

/-- The deeds that lengthen the list of players, or take samples off theirs. -/
inductive Deed
  | starts | frees

/-- The lists of samples and of players, the samples, and the names. -/
structure Shelf where
  samples : List Ptr
  players : List Ptr
  sample : Ptr → EsdSample
  sampleData : Ptr → Mem
  name : Ptr → List Octet

def Server.shelf (s : Server) : Shelf :=
  ⟨s.esdSamplesList, s.esdPlayersList, s.sample, s.sampleData, fun p => (s.player p).name⟩

/-- From the one to the other no sample was uploaded, and only the deeds of `D` were done. -/
structure Shelved (D : Set Deed) (s t : Server) : Prop where
  sample : ∀ q, (t.sample q).SameUpload (s.sample q)
  data : t.sampleData = s.sampleData
  listed : t.esdSamplesList.Sublist s.esdSamplesList
  unfreed : .frees ∉ D → t.esdSamplesList = s.esdSamplesList
  players : .starts ∉ D → t.esdPlayersList ⊆ s.esdPlayersList
  named : ∀ p, (t.player p).name = (s.player p).name ∨ IsName (t.player p).name

namespace Shelved

variable {D : Set Deed} {s t u : Server}

theorem refl (s : Server) : Shelved D s s :=
  ⟨fun _ => .refl _, rfl, .refl _, fun _ => rfl, fun _ => List.Subset.refl _, fun _ => .inl rfl⟩

theorem trans (h : Shelved D s t) (h' : Shelved D t u) : Shelved D s u where
  sample q := (h.sample q).trans (h'.sample q)
  data := h'.data.trans h.data
  listed := h'.listed.trans h.listed
  unfreed hD := (h'.unfreed hD).trans (h.unfreed hD)
  players hD := List.Subset.trans (h'.players hD) (h.players hD)
  named p := by
    rcases h'.named p with hsame | hname
    · rw [hsame]
      exact h.named p
    · exact .inr hname

theorem mono {E : Set Deed} (hDE : D ⊆ E) (h : Shelved D s t) : Shelved E s t :=
  ⟨h.sample, h.data, h.listed, fun hE => h.unfreed fun hD => hE (hDE hD),
    fun hE => h.players fun hD => hE (hDE hD), h.named⟩

theorem same (h : t.shelf = s.shelf) : Shelved D s t := by
  have hsamples : t.esdSamplesList = s.esdSamplesList := congrArg Shelf.samples h
  have hplayers : t.esdPlayersList = s.esdPlayersList := congrArg Shelf.players h
  have hsample : t.sample = s.sample := congrArg Shelf.sample h
  refine ⟨fun q => ?_, congrArg Shelf.sampleData h, by rw [hsamples], fun _ => hsamples,
    fun _ => by rw [hplayers]; exact List.Subset.refl _, fun p => ?_⟩
  · rw [hsample]
    exact .refl _
  · exact .inl (congrFun (congrArg Shelf.name h) p)

theorem setSample {q : Ptr} {v : EsdSample} (h : v.SameUpload (s.sample q)) :
    Shelved D s (s.setSample q v) := by
  refine ⟨fun q' => ?_, rfl, .refl _, fun _ => rfl, fun _ => List.Subset.refl _, fun _ => .inl rfl⟩
  rcases eq_or_ne q' q with rfl | hne
  · simpa [Server.setSample] using h
  · simpa [Server.setSample, hne] using EsdSample.SameUpload.refl _

theorem setPlayer {p : Ptr} {v : EsdPlayer} (h : v.name = (s.player p).name ∨ IsName v.name) :
    Shelved D s (s.setPlayer p v) := by
  refine ⟨fun _ => .refl _, rfl, .refl _, fun _ => rfl, fun _ => List.Subset.refl _, fun p' => ?_⟩
  rcases eq_or_ne p' p with rfl | hne
  · simpa [Server.setPlayer] using h
  · simp [Server.setPlayer, hne]

theorem setList {l : PlayerList} {ps : List Ptr}
    (h : .starts ∉ D → l = .players → ps ⊆ s.esdPlayersList) : Shelved D s (s.setList l ps) := by
  cases l with
  | players =>
    exact ⟨fun _ => .refl _, rfl, .refl _, fun _ => rfl, fun hD => h hD rfl, fun _ => .inl rfl⟩
  | _ => exact .same rfl

theorem dropSample {qs : List Ptr} (h : qs.Sublist s.esdSamplesList) (hD : .frees ∈ D) :
    Shelved D s { s with esdSamplesList := qs } :=
  ⟨fun _ => .refl _, rfl, h, fun hfree => absurd hD hfree, fun _ => List.Subset.refl _,
    fun _ => .inl rfl⟩

end Shelved

/-- And the device is as it was. -/
structure Keeps (D : Set Deed) (s t : Server) : Prop extends Shelved D s t where
  device : t.device = s.device

namespace Keeps

variable {D : Set Deed} {s t u : Server}

theorem refl (s : Server) : Keeps D s s := ⟨.refl s, rfl⟩

theorem trans (h : Keeps D s t) (h' : Keeps D t u) : Keeps D s u :=
  ⟨h.toShelved.trans h'.toShelved, h'.device.trans h.device⟩

theorem same (h : t.shelf = s.shelf) (device : t.device = s.device) : Keeps D s t :=
  ⟨.same h, device⟩

theorem setSample {q : Ptr} {v : EsdSample} (h : v.SameUpload (s.sample q)) :
    Keeps D s (s.setSample q v) :=
  ⟨.setSample h, rfl⟩

theorem setPlayer {p : Ptr} {v : EsdPlayer} (h : v.name = (s.player p).name ∨ IsName v.name) :
    Keeps D s (s.setPlayer p v) :=
  ⟨.setPlayer h, rfl⟩

end Keeps

/-- Neither the shelf nor the device is different, nor what the players are. -/
structure Idle (s t : Server) : Prop where
  shelf : t.shelf = s.shelf
  device : t.device = s.device
  lists : t.list = s.list
  kind : ∀ p, (t.player p).SameKind (s.player p)

namespace Idle

variable {D : Set Deed} {s t u : Server} {p : Ptr}

theorem same (shelf : t.shelf = s.shelf) (device : t.device = s.device) (lists : t.list = s.list)
    (player : t.player = s.player) : Idle s t :=
  ⟨shelf, device, lists, fun p => by rw [player]; exact .refl _⟩

theorem refl (s : Server) : Idle s s := .same rfl rfl rfl rfl

theorem trans (h : Idle s t) (h' : Idle t u) : Idle s u :=
  ⟨h'.shelf.trans h.shelf, h'.device.trans h.device, h'.lists.trans h.lists,
    fun p => (h'.kind p).trans (h.kind p)⟩

theorem setPlayer {v : EsdPlayer} (name : v.name = (s.player p).name)
    (kind : v.SameKind (s.player p)) : Idle s (s.setPlayer p v) := by
  have hat : ∀ p', ((s.setPlayer p v).player p').name = (s.player p').name ∧
      ((s.setPlayer p v).player p').SameKind (s.player p') := by
    intro p'
    rcases eq_or_ne p' p with rfl | hne
    · simpa [Server.setPlayer] using ⟨name, kind⟩
    · simpa [Server.setPlayer, hne] using EsdPlayer.SameKind.refl _
  exact ⟨congrArg (fun names => { s.shelf with name := names }) (funext fun p' => (hat p').1), rfl,
    rfl, fun p' => (hat p').2⟩

theorem keeps (h : Idle s t) : Keeps D s t := .same h.shelf h.device

end Idle

section Frames

variable {D : Set Deed} {cfg : Config} {env : PollEnv} {c p : Ptr} {s t : Server}

theorem Heard.keeps (h : Heard c s t) : Keeps D s t := by
  rw [h.rest]
  exact .same rfl rfl

theorem eraseClient_idle (c : Ptr) : Idle s (eraseClient s c) := by
  simp only [eraseClient]
  split_ifs <;> exact .same rfl rfl rfl rfl

theorem eraseClient_keeps (c : Ptr) : Keeps D s (eraseClient s c) := (eraseClient_idle c).keeps

theorem eraseSample_keeps (hD : .frees ∈ D) (id : ℤ) (force : Bool) :
    Keeps D s (eraseSample s id force) := by
  simp only [eraseSample]
  split
  · exact .refl s
  · split_ifs
    · exact .setSample ⟨rfl, rfl, rfl, rfl, rfl, rfl, rfl⟩
    · exact ⟨.dropSample List.erase_sublist hD, rfl⟩

theorem freePlayer_keeps (hD : .frees ∈ D) (p : Ptr) : Keeps D s (freePlayer s p) := by
  have hrelease : Keeps D s (s.setSample (s.player p).parent
      { s.sample (s.player p).parent with
        refCount := (s.sample (s.player p).parent).refCount - 1 }) :=
    .setSample ⟨rfl, rfl, rfl, rfl, rfl, rfl, rfl⟩
  have hcount : ∀ u : Server, ∀ n, Keeps D u { u with esdPlayingSamples := n } :=
    fun u n => .same rfl rfl
  have hdrop : ∀ u : Server, ∀ e, Keeps D u (u.emit e) := fun u e => .same rfl rfl
  simp only [freePlayer]
  refine Keeps.trans ?_ (hdrop _ _)
  split_ifs
  · exact eraseClient_keeps _
  · exact (hrelease.trans (hcount _ _)).trans (eraseSample_keeps hD _ _)
  · exact hrelease.trans (hcount _ _)
  · exact .refl s

theorem setList_device {l : PlayerList} (hl : l ≠ .recorders) (ps : List Ptr) :
    (s.setList l ps).device = s.device := by
  cases l with
  | recorders => exact absurd rfl hl
  | _ => rfl

theorem eraseFrom_shelved (hD : .frees ∈ D) (l : PlayerList) (p : Ptr) :
    Shelved D s (eraseFrom s l p) := by
  simp only [eraseFrom]
  split_ifs
  · refine Shelved.trans (.setList fun _ hl => ?_) (freePlayer_keeps hD p).toShelved
    subst hl
    exact List.erase_subset
  · exact .refl s

theorem eraseFrom_keeps (hD : .frees ∈ D) {l : PlayerList} (hl : l ≠ .recorders) (p : Ptr) :
    Keeps D s (eraseFrom s l p) := by
  refine ⟨eraseFrom_shelved hD l p, ?_⟩
  simp only [eraseFrom]
  split_ifs
  · exact (freePlayer_keeps hD p).device.trans (setList_device hl _)
  · rfl

theorem Behind.idle (h : Behind s t) : Idle s t := by
  rw [h.rest]
  exact .same rfl rfl rfl rfl

theorem idle_carried : Carried Idle where
  behind _ _ h := h.idle
  players s _ h := ⟨congrArg (fun names => { s.shelf with name := names }) (funext fun p => (h p).name),
    rfl, rfl, fun p => (h p).sameKind⟩
  client _ c := eraseClient_idle c
  trans _ _ _ := .trans

theorem setPlayerData_idle (p : Ptr) (m : Mem) : Idle s (s.setPlayerData p m) :=
  idle_carried.setPlayerData p m

theorem readPlayer_idle (canRead : Bool) (p : Ptr) : Idle s (readPlayer canRead s p).1 :=
  idle_carried.readPlayer canRead p

theorem consume_idle (p : Ptr) (used : ℤ) : Idle s (consume s p used) := idle_carried.consume p used

theorem mixOne_idle (length : ℤ) (acc : Server × ℤ) (p : Ptr) :
    Idle acc.1 (mixOne cfg length acc p).1 := idle_carried.mixOne length acc p

theorem writePlayer_idle (poll : RecorderPoll) (p : Ptr) (length : ℤ) :
    Idle s (writePlayer cfg poll s p length).1 := idle_carried.writePlayer poll p length

end Frames

/-! ## The main loop -/

/-- The main loop spans a relation if its idle parts do and each player it takes off a list
does; here is what it takes for the former. -/
structure Spanned (R : Server → Server → Prop) : Prop where
  idle : ∀ s t, Idle s t → R s t
  trans : ∀ s t u, R s t → R t u → R s u

theorem Spanned.carried {R : Server → Server → Prop} (hR : Spanned R) : Carried R where
  behind s t h := hR.idle s t h.idle
  players s f h := hR.idle _ _ (idle_carried.players s f h)
  client _ c := hR.idle _ _ (eraseClient_idle c)
  trans := hR.trans

section Frames

variable {D : Set Deed} {cfg : Config} {env : PollEnv} {c p : Ptr} {s t : Server}

theorem keeps_spanned : Spanned (Keeps D) := ⟨fun _ _ h => h.keeps, fun _ _ _ => .trans⟩

theorem shelved_spanned : Spanned (Shelved D) :=
  ⟨fun _ _ h => h.keeps.toShelved, fun _ _ _ => .trans⟩

theorem mixPlayers_keeps (hD : .frees ∈ D) (canRead : Ptr → Bool) :
    Keeps D s (mixPlayers cfg canRead s).1 :=
  keeps_spanned.carried.mixPlayers (fun _ p => eraseFrom_keeps hD (by decide) p) canRead

theorem filterWrite_keeps (hD : .frees ∈ D) (canRead : Ptr → Bool) (size : ℤ) :
    Keeps D s (filterWrite cfg canRead s size).1 :=
  keeps_spanned.carried.filterWrite (fun _ p => eraseFrom_keeps hD (by decide) p) canRead size

theorem monitorWrite_keeps (hD : .frees ∈ D) (canWrite : Ptr → Bool) (length : ℤ) :
    Keeps D s (monitorWrite cfg canWrite s length) :=
  keeps_spanned.carried.monitorWrite (fun _ p => eraseFrom_keeps hD (by decide) p) canWrite length

theorem recorderWrite_shelved (hD : .frees ∈ D) (poll : Ptr → RecorderPoll) (reopen : Option ℤ)
    (length : ℤ) : Shelved D s (recorderWrite cfg poll reopen s length).1 :=
  shelved_spanned.carried.recorderWrite (fun _ p => eraseFrom_shelved hD .recorders p)
    (fun _ _ _ _ => .same rfl) poll reopen length

theorem esdAudioOpen_shelved (r : Option ℤ) : Shelved D s (esdAudioOpen s r).1 := by
  cases r <;> exact .same rfl

theorem esdServerStandby_shelved : Shelved D s (esdServerStandby s).1 := by
  simp only [esdServerStandby]
  split_ifs <;> exact .same rfl

theorem esdServerResume_shelved (r : Option ℤ) : Shelved D s (esdServerResume s r).1 := by
  simp only [esdServerResume]
  split_ifs
  · cases r <;> exact .same rfl
  · exact .refl s

theorem refreshMixFuncs_keeps : Keeps D s (refreshMixFuncs s) := by
  simp only [refreshMixFuncs]
  split_ifs
  · exact .refl s
  · refine .same ?_ rfl
    simp only [Server.shelf, Shelf.mk.injEq, true_and]
    funext p
    split_ifs <;> rfl

theorem newStreamPlayer_keeps : Keeps D s (newStreamPlayer cfg env s c).1 := by
  simp only [newStreamPlayer]
  split_ifs
  · exact .refl s
  · split
    · exact .refl s
    · exact .setPlayer (.inr (isName_nameOf _ _))
  · split <;> exact .refl s

theorem setStreaming_keeps (c : Ptr) : Keeps D s (setStreaming s c) := .same rfl rfl

theorem setParent_keeps (p c : Ptr) : Keeps D s (setParent s p c) := .setPlayer (.inl rfl)

theorem setTranslateFunc_keeps (p : Ptr) : Keeps D s (setTranslateFunc s p) := .setPlayer (.inl rfl)

theorem pushTo_shelved {l : PlayerList} (hl : .starts ∈ D ∨ l ≠ .players) (p : Ptr) :
    Shelved D s (pushTo s l p) := by
  refine .setList fun hD hplayers => ?_
  rcases hl with hstarts | hne
  · exact absurd hstarts hD
  · exact absurd hplayers hne

theorem openStream_keeps {l : PlayerList} (hl : .starts ∈ D ∨ l ≠ .players) (hr : l ≠ .recorders)
    (p : Ptr) : Keeps D s (pushTo (setParent s p c) l p) :=
  (setParent_keeps p c).trans ⟨pushTo_shelved hl p, setList_device hr _⟩

theorem newSamplePlayer_keeps (id : ℤ) (loop : Bool) :
    Keeps D s (newSamplePlayer cfg env s id loop).1 := by
  simp only [newSamplePlayer]
  split
  · exact .refl s
  · rename_i q _
    split_ifs
    · exact .refl s
    · split
      · exact .refl s
      · have hcount : ∀ u : Server, Keeps D u { u with esdPlayingSamples := u.esdPlayingSamples + 1 } :=
          fun u => .same rfl rfl
        refine Keeps.trans ?_ (.setSample ⟨rfl, rfl, rfl, rfl, rfl, rfl, rfl⟩)
        refine Keeps.trans ?_ (hcount _)
        exact .setPlayer (.inl rfl)
    · split <;> exact .refl s

theorem playSample_keeps (hD : .starts ∈ D) (id : ℤ) (loop : Bool) :
    Keeps D s (playSample cfg env s id loop).1 := by
  have hnew : Keeps D s (newSamplePlayer cfg env s id loop).1 := newSamplePlayer_keeps id loop
  simp only [playSample]
  split_ifs
  · exact hnew
  · exact hnew.trans ⟨pushTo_shelved (l := .players) (.inl hD) _, rfl⟩

theorem stopSample_keeps (id : ℤ) : Keeps D s (stopSample s id).1 := by
  simp only [stopSample]
  split
  · exact .refl s
  · exact .setPlayer (.inl rfl)

theorem reply_keeps (x : ℤ) : Keeps D s (reply s c x).1 := .same rfl rfl

theorem replyId_keeps : Keeps D s (replyId s c).1 := .same rfl rfl

theorem esdValidateSource_keeps (key : List Octet) (ownerOnly : Bool) :
    Keeps D s (esdValidateSource s c key ownerOnly).1 := by
  simp only [esdValidateSource]
  split_ifs <;> exact .same rfl rfl

theorem esdCheckEndian_keeps (endian : Word) : Keeps D s (esdCheckEndian s c endian).1 := by
  simp only [esdCheckEndian]
  split_ifs <;> exact .same rfl rfl

theorem esdProtoConnect_keeps : Keeps D s (esdProtoConnect s c).1 := by
  have hsource : Keeps D s (esdValidateSource s c (s.client c).key false).1 :=
    esdValidateSource_keeps _ _
  obtain ⟨⟨t, ok⟩, hv⟩ : ∃ v, esdValidateSource s c (s.client c).key false = v := ⟨_, rfl⟩
  rw [hv] at hsource
  cases ok with
  | false => simpa only [esdProtoConnect, hv] using hsource
  | true =>
    simp only [esdProtoConnect, hv]
    exact hsource.trans (esdCheckEndian_keeps _)

theorem esdProtoLock_keeps : Keeps D s (esdProtoLock s c).1 := by
  have hsource : Keeps D s (esdValidateSource s c (s.client c).key true).1 :=
    esdValidateSource_keeps _ _
  have hlock : ∀ u : Server, ∀ locked x, Keeps D u (reply { u with esdIsLocked := locked } c x).1 :=
    fun u locked x => .same rfl rfl
  simp only [esdProtoLock]
  split_ifs
  · exact hsource.trans (hlock _ _ _)
  · exact hsource.trans (reply_keeps _)

theorem esdProtoUnlock_keeps : Keeps D s (esdProtoUnlock s c).1 := by
  have hsource : Keeps D s (esdValidateSource s c (s.client c).key true).1 :=
    esdValidateSource_keeps _ _
  have hlock : ∀ u : Server, ∀ locked x, Keeps D u (reply { u with esdIsLocked := locked } c x).1 :=
    fun u locked x => .same rfl rfl
  simp only [esdProtoUnlock]
  split_ifs
  · exact hsource.trans (hlock _ _ _)
  · exact hsource.trans (reply_keeps _)

theorem sysWrite_keeps (fd : ℤ) (octets : List Octet) : Keeps D s (s.sysWrite fd octets).1 :=
  .same rfl rfl

theorem writeAll_keeps (fd : ℤ) (rows : List (List Octet)) : Keeps D s (writeAll s fd rows).1 := by
  induction rows generalizing s with
  | nil => exact .refl s
  | cons bs rest ih =>
    cases rest with
    | nil => exact sysWrite_keeps fd bs
    | cons bs' rest' => exact (sysWrite_keeps fd bs).trans ih

theorem writePlayers_keeps (cl : EsdClient) (ps : List Ptr) (scales : Word × Word) :
    Keeps D s (writePlayers cl ps scales s).1 := by
  induction ps generalizing s scales with
  | nil =>
    simp only [writePlayers]
    exact writeAll_keeps _ _
  | cons p ps ih =>
    simp only [writePlayers]
    split_ifs
    · exact (writeAll_keeps _ _).trans (ih _)
    · exact writeAll_keeps _ _

theorem writeSamples_keeps (cl : EsdClient) (qs : List Ptr) (scales : Word × Word) :
    Keeps D s (writeSamples cl qs scales s).1 := by
  induction qs generalizing s scales with
  | nil =>
    simp only [writeSamples]
    exact writeAll_keeps _ _
  | cons q qs ih =>
    simp only [writeSamples]
    split_ifs
    · exact (writeAll_keeps _ _).trans (ih _)
    · exact writeAll_keeps _ _

theorem esdProtoServerInfo_keeps : Keeps D s (esdProtoServerInfo s cfg c).1 := by
  simp only [esdProtoServerInfo]
  exact writeAll_keeps _ _

theorem esdProtoAllInfo_keeps : Keeps D s (esdProtoAllInfo cfg env s c).1 := by
  have hinfo : Keeps D s (esdProtoServerInfo s cfg c).1 := esdProtoServerInfo_keeps
  simp only [esdProtoAllInfo]
  generalize esdProtoServerInfo s cfg c = r at hinfo ⊢
  obtain ⟨t, ok⟩ := r
  cases ok with
  | false => exact hinfo
  | true =>
    have hplayers : Keeps D t (writePlayers (s.client c) t.esdPlayersList env.stackInts t).1 :=
      writePlayers_keeps _ _ _
    simp only
    generalize writePlayers (s.client c) t.esdPlayersList env.stackInts t = r at hplayers ⊢
    obtain ⟨u, ok⟩ := r
    cases ok with
    | false => exact hinfo.trans hplayers
    | true => exact (hinfo.trans hplayers).trans (writeSamples_keeps _ _ _)

/-- The requests that are about the device or an upload. -/
def Proto.Special : Proto → Prop
  | standby | resume | streamRec | sampleCache => True
  | _ => False

/-- What a request may do to the lists. -/
def Proto.deeds : Proto → Set Deed
  | streamPlay | samplePlay | sampleLoop => {.starts}
  | sampleFree => {.frees}
  | _ => ∅

theorem starts_mem_deeds {request : Proto} :
    .starts ∈ request.deeds ↔ request = .streamPlay ∨ request = .samplePlay ∨ request = .sampleLoop := by
  cases request <;> simp [Proto.deeds]

theorem frees_mem_deeds {request : Proto} : .frees ∈ request.deeds ↔ request = .sampleFree := by
  cases request <;> simp [Proto.deeds]

theorem handler_keeps {request : Proto} {r : Server × Bool} (hspecial : ¬ request.Special)
    (h : handler cfg env request s c = some r) : Keeps request.deeds s r.1 := by
  cases request with
  | standby | resume | streamRec | sampleCache => exact absurd trivial hspecial
  | connect => cases h; exact esdProtoConnect_keeps
  | lock => cases h; exact esdProtoLock_keeps
  | unlock => cases h; exact esdProtoUnlock_keeps
  | streamPlay =>
    cases h
    simp only [esdProtoStreamPlay]
    split_ifs
    · exact newStreamPlayer_keeps
    · have hstarts : Deed.starts ∈ Proto.streamPlay.deeds := starts_mem_deeds.mpr (.inl rfl)
      exact (newStreamPlayer_keeps.trans
        (openStream_keeps (l := .players) (.inl hstarts) (by decide) _)).trans (setStreaming_keeps _)
  | streamMon =>
    cases h
    simp only [esdProtoStreamMonitor]
    split_ifs
    · exact newStreamPlayer_keeps
    · exact ((newStreamPlayer_keeps.trans
        (openStream_keeps (.inr (by decide)) (by decide) _)).trans
          (setTranslateFunc_keeps _)).trans (setStreaming_keeps _)
  | streamFilt =>
    cases h
    simp only [esdProtoStreamFilter]
    split_ifs
    · exact newStreamPlayer_keeps
    · exact (newStreamPlayer_keeps.trans
        (openStream_keeps (.inr (by decide)) (by decide) _)).trans (setStreaming_keeps _)
  | sampleFree =>
    cases h
    simp only [esdProtoSampleFree]
    exact (eraseSample_keeps (frees_mem_deeds.mpr rfl) _ _).trans replyId_keeps
  | samplePlay =>
    cases h
    simp only [esdProtoSamplePlay]
    exact (playSample_keeps (starts_mem_deeds.mpr (by decide)) _ _).trans replyId_keeps
  | sampleLoop =>
    cases h
    simp only [esdProtoSampleLoop]
    exact (playSample_keeps (starts_mem_deeds.mpr (by decide)) _ _).trans replyId_keeps
  | sampleStop =>
    cases h
    simp only [esdProtoSampleStop]
    exact (stopSample_keeps _).trans replyId_keeps
  | sampleKill | subscribe | unsubscribe => cases h; exact .refl s
  | sampleGetid =>
    cases h
    simp only [esdProtoSampleGetid]
    split <;> exact reply_keeps _
  | serverInfo => cases h; exact esdProtoServerInfo_keeps
  | allInfo => cases h; exact esdProtoAllInfo_keeps
  | streamPan =>
    cases h
    simp only [esdProtoStreamPan]
    split
    · refine Keeps.trans ?_ (reply_keeps _)
      exact .setPlayer (.inl rfl)
    · exact reply_keeps _
  | samplePan =>
    cases h
    simp only [esdProtoSamplePan]
    split
    · refine Keeps.trans ?_ (reply_keeps _)
      exact .setSample ⟨rfl, rfl, rfl, rfl, rfl, rfl, rfl⟩
    · exact reply_keeps _
  | standbyMode => cases h; exact reply_keeps _
  | latency => cases h; exact reply_keeps _

theorem esdProtoStandby_shelved : Shelved D s (esdProtoStandby s c).1 := by
  have hforce : ∀ u : Server, ∀ x, Shelved D u (reply (if u.esdOnAutostandby = false then
      { u with esdForcedStandby := true } else u) c x).1 := by
    intro u x
    split_ifs <;> exact .same rfl
  have hsource : Shelved D s (esdValidateSource s c (s.client c).key true).1 :=
    (esdValidateSource_keeps _ _).toShelved
  obtain ⟨⟨t, ok⟩, hv⟩ : ∃ v, esdValidateSource s c (s.client c).key true = v := ⟨_, rfl⟩
  rw [hv] at hsource
  cases ok with
  | false =>
    simp only [esdProtoStandby, hv, Bool.false_eq_true, if_false]
    exact hsource.trans (hforce _ _)
  | true =>
    simp only [esdProtoStandby, hv, if_true]
    exact (hsource.trans esdServerStandby_shelved).trans (hforce _ _)

theorem esdProtoResume_shelved : Shelved D s (esdProtoResume env s c).1 := by
  have hforce : ∀ u : Server, ∀ ok : Bool, ∀ x, Shelved D u (reply (if ok then
      { u with esdForcedStandby := false } else u) c x).1 := by
    intro u ok x
    split_ifs <;> exact .same rfl
  have hsource : Shelved D s (esdValidateSource s c (s.client c).key true).1 :=
    (esdValidateSource_keeps _ _).toShelved
  obtain ⟨⟨t, ok⟩, hv⟩ : ∃ v, esdValidateSource s c (s.client c).key true = v := ⟨_, rfl⟩
  rw [hv] at hsource
  cases ok with
  | false =>
    simp only [esdProtoResume, hv, Bool.false_eq_true, if_false]
    exact hsource.trans (reply_keeps _).toShelved
  | true =>
    simp only [esdProtoResume, hv, if_true]
    exact (hsource.trans (esdServerResume_shelved _)).trans (hforce _ _ _)

theorem freePlayer_stream_shelved (mode : (s.player p).IsStream) : Shelved D s (freePlayer s p) := by
  simp only [freePlayer, mode, if_true]
  exact (eraseClient_keeps _).toShelved.trans (.same rfl)

theorem joinRecorders_shelved (c p : Ptr) : Shelved D s (joinRecorders s c p).1 := by
  have hpush : Shelved D s (addRecorder s p) := pushTo_shelved (.inr (by decide)) p
  exact ((hpush.trans (setParent_keeps p c).toShelved).trans
    (setTranslateFunc_keeps p).toShelved).trans (setStreaming_keeps c).toShelved

theorem startRecorder_shelved : Shelved D s (startRecorder cfg env s c).1 := by
  have hnew : Shelved D s (newStreamPlayer cfg env s c).1 := newStreamPlayer_keeps.toShelved
  have hformat : ∀ u : Server, ∀ w, Shelved D u { u with esdAudioFormat := w } :=
    fun u w => .same rfl
  have hclose : ∀ u : Server, Shelved D u (esdAudioClose u) := fun u => .same rfl
  rcases newStreamPlayer_cases cfg env s c with h | ⟨v, h, hnull, mode, -⟩
  · simp only [startRecorder, h]
    split_ifs <;> exact .refl s
  · rw [h] at hnew
    simp only [startRecorder, h, hnull, if_false, reopenToRecord]
    split_ifs
    · exact .refl s
    · have hopen : ∀ r, Shelved D s (esdAudioOpen { esdAudioClose (s.setPlayer env.malloc v) with
          esdAudioFormat := (esdAudioClose (s.setPlayer env.malloc v)).esdAudioFormat ||| esdRecord }
            r).1 :=
        fun r => ((hnew.trans (hclose _)).trans (hformat _ _)).trans (esdAudioOpen_shelved r)
      cases hanswer : env.audioOpen 1 with
      | none =>
        have hfree := freePlayer_stream_shelved (D := D)
          (s := { esdAudioClose (s.setPlayer env.malloc v) with
            esdAudioFormat := (esdAudioClose (s.setPlayer env.malloc v)).esdAudioFormat ||| esdRecord })
          (p := env.malloc) (by simpa [esdAudioClose, setPlayer_self] using mode)
        exact (((hopen none).trans hfree).trans (hformat _ _)).trans (esdAudioOpen_shelved _)
      | some size => exact (hopen (some size)).trans (joinRecorders_shelved _ _)
    · exact hnew.trans (joinRecorders_shelved _ _)

theorem esdProtoStreamRecorder_shelved : Shelved D s (esdProtoStreamRecorder cfg env s c).1 := by
  simp only [esdProtoStreamRecorder]
  split_ifs
  · exact (esdServerResume_shelved _).trans startRecorder_shelved
  · exact startRecorder_shelved

theorem handler_shelved {request : Proto} {r : Server × Bool} (hcache : request ≠ .sampleCache)
    (h : handler cfg env request s c = some r) : Shelved request.deeds s r.1 := by
  by_cases hspecial : request.Special
  · cases request with
    | standby => cases h; exact esdProtoStandby_shelved
    | resume => cases h; exact esdProtoResume_shelved
    | streamRec => cases h; exact esdProtoStreamRecorder_shelved
    | sampleCache => exact absurd rfl hcache
    | _ => exact hspecial.elim
  · exact (handler_keeps hspecial h).toShelved

theorem resetDaemon_keeps (hD : .frees ∈ D) (scrambled : List Octet) :
    Keeps D s (resetDaemon s scrambled) := by
  have hclients : ∀ n u, Keeps D u (whileFuel closeHead n u) := by
    refine fun n u => whileFuel_related (Keeps D) .refl (fun _ _ _ => .trans) (fun u v h => ?_) n u
    simp only [closeHead] at h
    split at h <;> cases h
    exact eraseClient_keeps _
  have hsamples : ∀ n u, Keeps D u (whileFuel freeHead n u) := by
    refine fun n u => whileFuel_related (Keeps D) .refl (fun _ _ _ => .trans) (fun u v h => ?_) n u
    simp only [freeHead] at h
    split at h <;> cases h
    exact eraseSample_keeps hD _ _
  have hkey : Keeps D s
      { s with esdIsOwned := false, esdIsLocked := true, esdOwnerKey := scrambled } := .same rfl rfl
  have hid : ∀ u : Server, Keeps D u { u with esdNextSampleId := 1 } := fun u => .same rfl rfl
  exact ((hkey.trans (hclients _ _)).trans (hsamples _ _)).trans (hid _)

/-- The main loop starts nothing on its own, and uploads nothing. -/
theorem step_shelved (hD : .frees ∈ D) {a : Action} (h : step cfg s a = some t)
    (hpoll : ∀ c env, a ≠ .poll c env) : Shelved D s t := by
  obtain ⟨-, h⟩ := step_eq_some h
  cases a with
  | poll c env => exact absurd rfl (hpoll c env)
  | accept c fd socket => cases h; exact .same rfl
  | refresh => cases h; exact refreshMixFuncs_keeps.toShelved
  | mix canRead => cases h; exact (mixPlayers_keeps hD canRead).toShelved
  | wake reopen => cases h; exact esdServerResume_shelved _
  | filter canRead size => cases h; exact (filterWrite_keeps hD canRead size).toShelved
  | monitor canWrite length => cases h; exact (monitorWrite_keeps hD canWrite length).toShelved
  | recorder ready reopen block length =>
    cases h
    have hblock : Shelved D s { s with outputBuffer := store s.outputBuffer 0 block } :=
      .same rfl
    exact hblock.trans (recorderWrite_shelved hD _ _ _)
  | autostandby =>
    cases h
    exact esdServerStandby_shelved.trans (.same rfl)
  | reconnect reopen =>
    cases h
    have hclose : Shelved D s (esdAudioClose s) := .same rfl
    exact hclose.trans (esdAudioOpen_shelved _)
  | reset scrambled => cases h; exact (resetDaemon_keeps hD scrambled).toShelved

end Frames

end Esound
