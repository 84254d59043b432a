import Esound.Handlers

/-!
# Runs of the daemon

Every action of the daemon but the reset does effects, so that what the effects preserve
holds in every state the daemon reaches. The reset empties the list of clients and
that of samples and touches none of the four lists of players.
-/

open Library.Buffer Library.Loop Library.Transition Relation

namespace Esound

/-! ## The reset -/

section Reset

variable {s t : Server}

theorem closeHead_stop (h : closeHead s = none) : s.esdClientsList = [] := by
  unfold closeHead at h
  split at h
  · assumption
  · cases h

theorem closeHead_round (h : closeHead s = some t) :
    t.objects = { s.objects with clients := t.esdClientsList } ∧ t.ledger = s.ledger ∧
      t.esdClientsList.length < s.esdClientsList.length := by
  unfold closeHead at h
  split at h
  · cases h
  · rename_i c cs hlist
    cases h
    have hobj := objects_eraseClient s c
    have hcs : (eraseClient s c).esdClientsList = cs := by
      have hclients := congrArg Objects.clients hobj
      simpa [hlist] using hclients
    refine ⟨?_, ledger_eraseClient s c, by simp [hcs, hlist]⟩
    rw [hobj, hcs]
    simp [hlist]

theorem closeClients_frame (s : Server) :
    (closeClients s).objects = { s.objects with clients := [] } ∧
      (closeClients s).ledger = s.ledger := by
  have hempty : (closeClients s).esdClientsList = [] :=
    whileFuel_drain Server.esdClientsList (fun _ => closeHead_stop)
      (fun _ _ h => (closeHead_round h).2.2) s
  have hframe := whileFuel_related
    (fun s t : Server =>
      t.objects = { s.objects with clients := t.esdClientsList } ∧ t.ledger = s.ledger)
    (fun s => ⟨rfl, rfl⟩) (fun s t u h h' => ⟨by rw [h'.1, h.1], h'.2.trans h.2⟩)
    (fun _ _ h => ⟨(closeHead_round h).1, (closeHead_round h).2.1⟩) s.esdClientsList.length s
  exact ⟨hempty ▸ hframe.1, hframe.2⟩

theorem freeHead_stop (h : freeHead s = none) : s.esdSamplesList = [] := by
  unfold freeHead at h
  split at h
  · assumption
  · cases h

theorem freeHead_round (h : freeHead s = some t) :
    t.objects = { s.objects with samples := t.esdSamplesList } ∧ t.ledger = s.ledger ∧
      t.esdSamplesList.length < s.esdSamplesList.length := by
  unfold freeHead at h
  split at h
  · cases h
  · rename_i q qs hlist
    cases h
    have hfind : findSample s (s.sample q).sampleId = some q := by
      simp [findSample, hlist]
    have herase : eraseSample s (s.sample q).sampleId true =
        { s with esdSamplesList := s.esdSamplesList.erase q } := by
      simp [eraseSample, hfind]
    rw [herase]
    exact ⟨rfl, rfl, by simp [hlist]⟩

theorem freeSamples_frame (s : Server) :
    (freeSamples s).objects = { s.objects with samples := [] } ∧
      (freeSamples s).ledger = s.ledger := by
  have hempty : (freeSamples s).esdSamplesList = [] :=
    whileFuel_drain Server.esdSamplesList (fun _ => freeHead_stop)
      (fun _ _ h => (freeHead_round h).2.2) s
  have hframe := whileFuel_related
    (fun s t : Server =>
      t.objects = { s.objects with samples := t.esdSamplesList } ∧ t.ledger = s.ledger)
    (fun s => ⟨rfl, rfl⟩) (fun s t u h h' => ⟨by rw [h'.1, h.1], h'.2.trans h.2⟩)
    (fun _ _ h => ⟨(freeHead_round h).1, (freeHead_round h).2.1⟩) s.esdSamplesList.length s
  exact ⟨hempty ▸ hframe.1, hframe.2⟩

theorem resetDaemon_objects (s : Server) (scrambled : List Octet) :
    (resetDaemon s scrambled).objects =
      { s.objects with clients := [], samples := [], nextId := 1 } := by
  have hfree := (freeSamples_frame (closeClients
    { s with esdIsOwned := false, esdIsLocked := true, esdOwnerKey := scrambled })).1
  have hclose := (closeClients_frame
    { s with esdIsOwned := false, esdIsLocked := true, esdOwnerKey := scrambled }).1
  rw [hclose] at hfree
  exact congrArg (fun o : Objects => { o with nextId := 1 }) hfree

theorem resetDaemon_ledger (s : Server) (scrambled : List Octet) :
    (resetDaemon s scrambled).ledger = ⟨false, true, scrambled, s.calls⟩ := by
  have hfree := (freeSamples_frame (closeClients
    { s with esdIsOwned := false, esdIsLocked := true, esdOwnerKey := scrambled })).2
  have hclose := (closeClients_frame
    { s with esdIsOwned := false, esdIsLocked := true, esdOwnerKey := scrambled }).2
  rw [hclose] at hfree
  exact hfree

end Reset

/-! ## Steps and runs -/

/-- What an action may touch, in the state it is taken in. -/
def Action.footprint (s : Server) : Action → Footprint
  | .accept c _ _ | .poll c _ => .turn c
  | .mix _ => .mixed Set.univ
  | .filter _ _ => .mixed {p | p ∈ s.esdFilterList}
  | .monitor _ _ => .written {p | p ∈ s.esdMonitorList}
  | .recorder _ _ _ _ => .written {p | p ∈ s.esdRecorderList}
  | .refresh | .wake _ | .autostandby | .reconnect _ | .reset _ => .empty

/-- The actions that leave the ledger alone. -/
def Action.Quiet : Action → Prop
  | .accept _ _ _ | .poll _ _ | .reset _ => False
  | _ => True

section Steps

variable {cfg : Config} {s t : Server} {a : Action}

theorem getNewClient_effects {c : Ptr} {fd : ℤ} {socket : Socket} {F : Footprint}
    (touched : c ∈ F.clients) (notNull : c ≠ 0) (fresh : c ∉ s.esdClientsList)
    (hfd : ∀ d ∈ s.esdClientsList, (s.client d).fd ≠ fd) :
    Effects cfg F s.objects (getNewClient s c fd socket).objects :=
  .single (.connect c
    { s.client c with
      state := .needsReqdata
      request := 0#32
      fd := fd
      protoDataLength := 0 } touched notNull fresh hfd (by simp))

theorem step_does (hw : s.objects.WellFormed) (h : step cfg s a = some t) (hq : a.Quiet) :
    Does cfg (a.footprint s) s t := by
  obtain ⟨-, h⟩ := step_eq_some h
  cases a with
  | accept | poll | reset => exact hq.elim
  | refresh => cases h; exact refreshMixFuncs_does
  | mix canRead => cases h; exact mixPlayers_does canRead fun p => Footprint.mixed_owns (Set.mem_univ p)
  | wake reopen => cases h; exact esdServerResume_does cfg reopen
  | filter canRead size => cases h; exact filterWrite_does canRead size fun p hp => Footprint.mixed_owns hp
  | monitor canWrite length =>
    cases h
    exact monitorWrite_does canWrite length hw fun p hp => hp
  | recorder ready reopen block length =>
    cases h
    exact (outputBuffer_does s _).trans
      (recorderWrite_does (s := { s with outputBuffer := _ }) ready reopen length hw
        fun p hp => hp)
  | autostandby => cases h; exact esdServerStandby_does.trans (.same rfl rfl)
  | reconnect reopen => cases h; exact esdAudioClose_does.trans (esdAudioOpen_does reopen)

theorem step_effects (hw : s.objects.WellFormed) (h : step cfg s a = some t)
    (hreset : ¬ a.IsReset) : Effects cfg (a.footprint s) s.objects t.objects := by
  cases a with
  | accept c fd socket =>
    obtain ⟨⟨notNull, fresh, -, hfd⟩, h⟩ := step_eq_some h
    cases h
    exact getNewClient_effects (Set.mem_singleton c) notNull fresh hfd
  | poll c env =>
    obtain ⟨⟨hc, fresh, samples⟩, h⟩ := step_eq_some h
    exact pollClient_effects hw hc fresh samples h
  | reset => exact absurd trivial hreset
  | refresh | mix | wake | filter | monitor | recorder | autostandby | reconnect =>
    exact (step_does hw h trivial).effects

theorem step_wellFormed (hw : s.objects.WellFormed) (h : step cfg s a = some t) :
    t.objects.WellFormed := by
  by_cases hreset : a.IsReset
  · cases a with
    | reset scrambled =>
      obtain ⟨-, h⟩ := step_eq_some h
      cases h
      rw [resetDaemon_objects]
      exact
        { clients_nodup := List.nodup_nil
          client_ne_null := List.not_mem_nil
          lists_nodup := hw.lists_nodup
          lists_disjoint := hw.lists_disjoint
          modes := hw.modes }
    | _ => exact hreset.elim
  · exact (step_effects hw h hreset).wellFormed hw

theorem Server.Initial.list (hs : s.Initial) (l : PlayerList) : s.list l = [] := by
  have hall := hs.players
  simp only [Server.allPlayers, List.append_eq_nil_iff] at hall
  obtain ⟨⟨⟨hplayers, hrecorders⟩, hmonitors⟩, hfilters⟩ := hall
  cases l
  exacts [hplayers, hrecorders, hmonitors, hfilters]

theorem Server.Initial.wellFormed (hs : s.Initial) : s.objects.WellFormed where
  clients_nodup := by simp [hs.clients]
  client_ne_null := by simp [hs.clients]
  lists_nodup l := by simp [hs.list l]
  lists_disjoint p l l' hp := by simp [hs.list l] at hp
  modes l p hp := by simp [hs.list l] at hp

variable {ok : Server → Action → Prop} {as : List Action}

theorem Run.wellFormed (h : Runs cfg ok s as t) (hw : s.objects.WellFormed) :
    t.objects.WellFormed :=
  h.invariant (fun s => s.objects.WellFormed) (fun _ _ _ hw _ hstep => step_wellFormed hw hstep) hw

/-- What the effects preserve holds in every state of a run without a reset. -/
theorem Run.objects_invariant (I : Objects → Prop)
    (preserved : ∀ F o o', o.WellFormed → I o → Effect cfg F o o' → I o')
    (h : Runs cfg NoReset s as t) (hw : s.objects.WellFormed) (hs : I s.objects) :
    I t.objects := by
  have hboth := h.invariant (fun s => s.objects.WellFormed ∧ I s.objects) ?_ ⟨hw, hs⟩
  · exact hboth.2
  · rintro s a t ⟨hw, hI⟩ hreset hstep
    exact ⟨step_wellFormed hw hstep,
      (step_effects hw hstep hreset).invariant I (preserved _) hw hI⟩

end Steps

end Esound
