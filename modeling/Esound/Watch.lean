import Esound.Framing
import Esound.Idle
import Esound.Rounds

/-!
# What the loop waits for

The descriptors that are put into the read set before `select`. A client that has become a monitor
is left out, by the request it made last; a stream of any other kind is read from, and is watched.
-/

open Library.Transition

namespace Esound

/-- The descriptors of the clients in the read set. -/
def watched (s : Server) : List ℤ :=
  (s.esdClientsList.filter fun c => ¬ ((s.client c).state = .streamingData ∧
    Proto.ofWord (s.client c).request = some .streamMon)).map fun c => (s.client c).fd

/-- A stream is in the list that its client asked for last. -/
def Server.Requested (s : Server) : Prop :=
  ∀ l p, s.objects.StreamAt l p → ∃ request,
    Proto.ofWord (s.client (s.player p).parent).request = some request ∧ request.listed = some l

/-! ## What a turn lists -/

section Turns

variable {cfg : Config} {env : PollEnv} {s t : Server} {c : Ptr} {request : Proto} {r : Server × Bool}

theorem openHandler_asked (h : openHandler request s c = .handles request t) :
    (t.client c).request = (s.client c).request := by
  simp only [openHandler, Opening.handles.injEq] at h
  obtain ⟨-, rfl⟩ := h
  simp [Server.setClient]

theorem openHandler_same {request' : Proto} (h : openHandler request' s c = .handles request t) :
    request' = request := by
  simp only [openHandler, Opening.handles.injEq] at h
  exact h.1

theorem openReqdata_asked (h : openReqdata s c = .handles request t) :
    Proto.ofWord (t.client c).request = some request := by
  simp only [openReqdata] at h
  split at h
  · cases h
  · rename_i request' hrequest
    split_ifs at h
    obtain rfl := openHandler_same h
    rw [openHandler_asked h]
    simpa [readReqdata, Server.setClient] using hrequest

theorem openBegun_asked {request' : Proto} (hrequest : Proto.ofWord (s.client c).request = some request')
    (h : openBegun request' s c = .handles request t) :
    Proto.ofWord (t.client c).request = some request := by
  simp only [openBegun] at h
  split_ifs at h
  obtain rfl := openHandler_same h
  rw [openHandler_asked h]
  simpa [Server.setClient] using hrequest

theorem openRequest_asked (h : openRequest s c = .handles request t) :
    Proto.ofWord (t.client c).request = some request := by
  simp only [openRequest] at h
  split_ifs at h
  split at h
  · cases h
  · cases h
  · rename_i hrequest
    exact openBegun_asked hrequest h

/-- A request is handled for a client that made it. -/
theorem opening_asked (h : opening env s c = .handles request t) :
    Proto.ofWord (t.client c).request = some request := by
  simp only [opening] at h
  split_ifs at h
  cases hstate : (s.client c).state with
  | streamingData => simp only [hstate, reduceCtorEq] at h
  | cachingSample => simp only [hstate, reduceCtorEq] at h
  | needsReqdata =>
    rw [hstate] at h
    exact openReqdata_asked h
  | nextRequest =>
    rw [hstate] at h
    exact openRequest_asked h

theorem pollTurn_streaming (hstate : (s.client c).state = .streamingData)
    (h : pollTurn cfg env s c = some r) : r = (s, true) := by
  simp only [pollTurn, hstate] at h
  split_ifs at h <;> exact (Option.some.inj h).symm

/-- A turn lists nothing, or what its request says. -/
theorem pollTurn_lists (hw : s.objects.WellFormed) (hc : c ∈ s.esdClientsList)
    (fresh : Action.Fresh s env.malloc) (h : pollTurn cfg env s c = some r) :
    (∀ l p, p ∈ r.1.list l → p ∈ s.list l) ∨ ∃ request,
      Proto.ofWord (r.1.client c).request = some request ∧
        ∀ l p, p ∈ r.1.list l → p ∈ s.list l ∨ request.listed = some l := by
  have hfits := opening_fits env c s
  have hrequest : ∀ request t, opening env s c = .handles request t →
      Proto.ofWord (t.client c).request = some request := fun _ _ => opening_asked
  rw [pollTurn_eq] at h
  generalize opening env s c = o at h hfits hrequest
  cases o with
  | done t ok =>
    cases h
    left
    have hheard : Heard c s t := hfits
    intro l p hp
    rw [hheard.rest] at hp
    exact hp
  | handles request t =>
    obtain ⟨hheard, hactive, hstate⟩ := hfits
    obtain ⟨r', hr', rfl⟩ := Option.map_eq_some_iff.mp h
    obtain ⟨hlist, hplayers, hsamples⟩ := hheard.lists
    have hserves := handler_serves (by simp [hstate]) (hlist ▸ hc) (hplayers ▸ fresh.1)
      (hheard.wellFormed hw) (hsamples ▸ fresh.2) hr'
    obtain ⟨state, swap, hrecord⟩ := hserves.record
    have hnull : 0 ∉ t.esdClientsList := (hheard.wellFormed hw).client_ne_null
    right
    refine ⟨request, ?_, fun l p hp => ?_⟩
    · change Proto.ofWord (r'.1.client c).request = some request
      rw [hrecord]
      exact hrequest request t rfl
    · have hlists : t.list = s.list := by rw [hheard.rest]; rfl
      rw [← hlists]
      exact (handler_enlists hnull hr').lists l p hp
  | resumes =>
    obtain ⟨r', hr', rfl⟩ := Option.map_eq_some_iff.mp h
    have henlists : Enlists .sampleCache s r'.1 := esdProtoSampleCache_enlists hr'
    left
    exact fun l p hp => (henlists.lists l p hp).resolve_right nofun

end Turns

/-! ## Steps -/

section Steps

variable {cfg : Config} {env : PollEnv} {F : Footprint} {o o' : Objects} {s t : Server} {c p : Ptr}
  {l : PlayerList} {a : Action}

/-- No stream comes without a client's turn. -/
theorem Effect.stream_stays (h : Effect cfg F o o') (hF : F.clients = ∅) (hp : o'.StreamAt l p) :
    o.StreamAt l p ∧ (o'.player p).parent = (o.player p).parent := by
  have hnone : ∀ c, c ∉ F.clients := fun c => by simp [hF]
  have hsame : ∀ p' v, o.Unlisted p' → p ∈ o.lists l → Function.update o.player p' v p = o.player p :=
    fun p' v fresh hmem => Function.update_of_ne (fun he : p = p' => fresh l (he ▸ hmem)) _ _
  cases h with
  | client c v touched => exact absurd touched (hnone c)
  | connect c v touched => exact absurd touched (hnone c)
  | openStream l' c p' v touched => exact absurd touched (hnone c)
  | disconnect | buffer | account | sample | skipId | newSample => exact ⟨⟨hp.listed, hp.mode⟩, rfl⟩
  | closeStream l' p' => exact ⟨⟨mem_of_mem_update_erase hp.listed, hp.mode⟩, rfl⟩
  | dropOther l' p' => exact ⟨⟨mem_of_mem_update_erase hp.listed, hp.mode⟩, rfl⟩
  | players f kind => exact ⟨⟨hp.listed, (kind p).isStream_iff.mp hp.mode⟩, (kind p).parent⟩
  | scribble p' v fresh =>
    have hold := hsame p' v fresh hp.listed
    exact ⟨⟨hp.listed, hold ▸ hp.mode⟩, congrArg EsdPlayer.parent hold⟩
  | startSample q p' v _ fresh mode =>
    rcases mem_update_cons.mp hp.listed with ⟨-, rfl⟩ | hmem
    · have hnew : (Function.update o.player p v p).IsStream := hp.mode
      rw [Function.update_self] at hnew
      exact absurd mode hnew.not_isSample
    · have hold := hsame p' v fresh hmem
      exact ⟨⟨hmem, hold ▸ hp.mode⟩, congrArg EsdPlayer.parent hold⟩
  | freeSample id =>
    obtain ⟨qs, f, he⟩ := o.eraseSample_frame id
    rw [he] at hp ⊢
    exact ⟨⟨hp.listed, hp.mode⟩, rfl⟩
  | endSample l' p' =>
    obtain ⟨qs, f, he⟩ := o.endSample_frame l' p'
    rw [he] at hp ⊢
    exact ⟨⟨mem_of_mem_update_erase hp.listed, hp.mode⟩, rfl⟩

theorem Effects.stream_stays (h : Effects cfg F o o') (hF : F.clients = ∅) (hp : o'.StreamAt l p) :
    o.StreamAt l p ∧ (o'.player p).parent = (o.player p).parent := by
  induction h with
  | refl => exact ⟨hp, rfl⟩
  | tail _ he ih =>
    obtain ⟨hmid, hparent⟩ := he.stream_stays hF hp
    obtain ⟨hold, hparent'⟩ := ih hmid
    exact ⟨hold, hparent.trans hparent'⟩

/-- A stream that the turn listed is the client's own. -/
theorem Effects.own_stream (h : Effects cfg (.turn c) o o') (hw : o.WellFormed) (hpaired : o.Paired)
    (hp : o'.StreamAt l p) (hnew : p ∉ o.lists l) : (o'.player p).parent = c := by
  have hpaired' : o'.Paired := h.invariant Objects.Paired (fun _ _ hw ho he => ho.effect hw he) hw hpaired
  by_contra hother
  have hserved := hpaired'.served l p hp
  have hclient : o'.client (o'.player p).parent = o.client (o'.player p).parent := h.client_frame hother
  obtain ⟨l', p', hp', hparent⟩ := hpaired.streams _ (h.clients_frame hother hserved.client)
    (hclient ▸ hserved.state)
  have hstill := h.untouched hp'.listed (Set.notMem_empty p') (Set.notMem_empty p')
  have hsame : o'.StreamAt l' p' := ⟨hstill.listed, hstill.kind.isStream_iff.mpr hp'.mode⟩
  obtain ⟨rfl, rfl⟩ := hpaired'.unique l p l' p' hp hsame (hstill.kind.parent.trans hparent).symm
  exact hnew hp'.listed

theorem pollTurn_requested (hw : s.objects.WellFormed) (hpaired : s.objects.Paired) (hs : s.Requested)
    (hc : c ∈ s.esdClientsList) (fresh : Action.Fresh s env.malloc) {r : Server × Bool}
    (h : pollTurn cfg env s c = some r) : r.1.Requested := by
  have heffects := (pollTurn_turn hw hc fresh.1 fresh.2 h).effects
  intro l p hp
  by_cases hold : p ∈ s.list l
  · have hstill := heffects.untouched hold (Set.notMem_empty p) (Set.notMem_empty p)
    have hstream : s.objects.StreamAt l p := ⟨hold, hstill.kind.isStream_iff.mp hp.mode⟩
    have hparent : (r.1.player p).parent = (s.player p).parent := hstill.kind.parent
    rw [hparent]
    by_cases hown : (s.player p).parent = c
    · have hstate : (s.client c).state = .streamingData := hown ▸ (hpaired.served l p hstream).state
      rw [pollTurn_streaming hstate h]
      exact hs l p hstream
    · have hclient : r.1.client (s.player p).parent = s.client (s.player p).parent :=
        heffects.client_frame hown
      rw [hclient]
      exact hs l p hstream
  · have hparent : (r.1.player p).parent = c := heffects.own_stream hw hpaired hp hold
    rw [hparent]
    rcases pollTurn_lists hw hc fresh h with hnone | ⟨request, hrequest, hlists⟩
    · exact absurd (hnone l p hp.listed) hold
    · exact ⟨request, hrequest, (hlists l p hp.listed).resolve_left hold⟩

theorem step_requested (hw : s.objects.WellFormed) (hpaired : s.objects.Paired) (hs : s.Requested)
    (h : step cfg s a = some t) (hreset : ¬ a.IsReset) : t.Requested := by
  have hquiet : (a.footprint s).clients = ∅ → t.Requested := by
    intro hF l p hp
    have heffects := step_effects hw h hreset
    obtain ⟨hold, hparent⟩ := heffects.stream_stays hF hp
    have hclient : ∀ d, t.client d = s.client d := fun d => heffects.client_frame (by simp [hF])
    have hparent' : (t.player p).parent = (s.player p).parent := hparent
    rw [hparent', hclient]
    exact hs l p hold
  cases a with
  | accept c fd socket =>
    obtain ⟨⟨-, hnew, -⟩, h⟩ := step_eq_some h
    cases h
    intro l p hp
    have hserved := hpaired.served l p ⟨hp.listed, hp.mode⟩
    have hne : (s.player p).parent ≠ c := fun he => hnew (he ▸ hserved.client)
    have hclient : (getNewClient s c fd socket).client (s.player p).parent =
        s.client (s.player p).parent := Function.update_of_ne hne _ _
    change ∃ request, Proto.ofWord ((getNewClient s c fd socket).client (s.player p).parent).request = _ ∧ _
    rw [hclient]
    exact hs l p ⟨hp.listed, hp.mode⟩
  | poll c env =>
    obtain ⟨⟨hc, fresh⟩, h⟩ := step_eq_some h
    obtain ⟨r, hr, rfl⟩ := Option.map_eq_some_iff.mp h
    have hturn := pollTurn_requested hw hpaired hs hc fresh hr
    split_ifs
    · exact hturn
    · intro l p hp
      have hobj := objects_eraseClient (s := r.1) c
      rw [hobj] at hp
      have hstream : r.1.objects.StreamAt l p := ⟨hp.listed, hp.mode⟩
      have hplayer : (eraseClient r.1 c).player = r.1.player := congrArg Objects.player hobj
      have hclient : (eraseClient r.1 c).client = r.1.client := congrArg Objects.client hobj
      rw [hplayer, hclient]
      exact hturn l p hstream
  | reset => exact absurd trivial hreset
  | refresh | mix | wake | filter | monitor | recorder | autostandby | reconnect => exact hquiet rfl

end Steps

/-! ## The read set -/

section Sets

variable {cfg : Config} {s t : Server} {c p : Ptr} {l : PlayerList} {as : List Action}

theorem Server.Initial.requested (hs : s.Initial) : s.Requested := fun l p hp => by
  have hlisted : p ∈ s.list l := hp.listed
  simp [hs.list l] at hlisted

theorem Run.requested (hs : s.Initial) (h : Runs cfg NoReset s as t) :
    t.objects.WellFormed ∧ t.objects.Paired ∧ t.Requested :=
  h.invariant (fun s => s.objects.WellFormed ∧ s.objects.Paired ∧ s.Requested)
    (fun _ _ _ hs hreset hstep =>
      ⟨step_wellFormed hs.1 hstep,
        (step_effects hs.1 hstep hreset).invariant Objects.Paired (fun _ _ hw ho he => ho.effect hw he)
          hs.1 hs.2.1,
        step_requested hs.1 hs.2.1 hs.2.2 hstep hreset⟩)
    ⟨hs.wellFormed, hs.paired, hs.requested⟩

theorem listed_monitors {request : Proto} : request.listed = some .monitors ↔ request = .streamMon := by
  cases request <;> simp [Proto.listed]

theorem mem_watched (hpaired : s.objects.Paired) (hc : c ∈ s.esdClientsList) :
    (s.client c).fd ∈ watched s ↔ ¬ ((s.client c).state = .streamingData ∧
      Proto.ofWord (s.client c).request = some .streamMon) := by
  simp only [watched, List.mem_map, List.mem_filter, decide_eq_true_eq]
  constructor
  · rintro ⟨d, ⟨hd, hwatched⟩, hfd⟩
    rwa [← hpaired.fds d hd c hc hfd]
  · exact fun hwatched => ⟨c, ⟨hc, hwatched⟩, rfl⟩

/-- The client is a monitor by its state and its request exactly if one of the monitors is its own. -/
theorem monitors_iff (hw : s.objects.WellFormed) (hpaired : s.objects.Paired) (hs : s.Requested)
    (hc : c ∈ s.esdClientsList) :
    ((s.client c).state = .streamingData ∧ Proto.ofWord (s.client c).request = some .streamMon) ↔
      ∃ p ∈ s.esdMonitorList, (s.player p).parent = c := by
  constructor
  · rintro ⟨hstate, hrequest⟩
    obtain ⟨l, p, hp, hparent⟩ := hpaired.streams c hc hstate
    obtain ⟨request, hrequest', hlisted⟩ := hs l p hp
    have hparent' : (s.player p).parent = c := hparent
    rw [hparent', hrequest] at hrequest'
    cases hrequest'
    cases hlisted
    exact ⟨p, hp.listed, hparent'⟩
  · rintro ⟨p, hp, rfl⟩
    have hstream : s.objects.StreamAt .monitors p := ⟨hp, hw.streams (l := .monitors) (by decide) hp⟩
    obtain ⟨request, hrequest, hlisted⟩ := hs _ _ hstream
    obtain rfl := listed_monitors.mp hlisted
    exact ⟨(hpaired.served _ _ hstream).state, hrequest⟩

theorem stream_watched (hw : s.objects.WellFormed) (hpaired : s.objects.Paired) (hs : s.Requested)
    (hl : l ≠ .monitors) (hp : p ∈ s.list l) (mode : (s.player p).IsStream) :
    (s.player p).sourceId ∈ watched s := by
  have hstream : s.objects.StreamAt l p := ⟨hp, mode⟩
  have hserved := hpaired.served l p hstream
  have hfd : (s.client (s.player p).parent).fd = (s.player p).sourceId := hserved.fd
  have hlisted : (s.player p).parent ∈ s.esdClientsList := hserved.client
  rw [← hfd, mem_watched hpaired hlisted, monitors_iff hw hpaired hs hlisted]
  rintro ⟨q, hq, hparent⟩
  have hmonitor : s.objects.StreamAt .monitors q := ⟨hq, hw.streams (l := .monitors) (by decide) hq⟩
  exact hl (hpaired.unique l p .monitors q hstream hmonitor hparent.symm).1

end Sets

/-! ## The loop -/

section Loop

variable {L : LoopConfig} {l l' : CommLoop} {i : LoopInput}

namespace CommLoop

theorem timeout_none {now : ℤ} (h : l.timeout L now = none) : ¬ Busy l.server := by
  intro hbusy
  rw [timeout, if_pos hbusy] at h
  cases h

theorem Advances.sleeps (h : Advances L l i l')
    (hl : l.place = .select none → ¬ Busy l.server) (hplace : l'.place = .select none) :
    ¬ Busy l'.server := by
  have hturn : ∀ o : Option Ptr, turnOf o ≠ .select none := fun o => by cases o <;> exact nofun
  cases h with
  | @top reopen now hp =>
    simp only [beforeSelect] at hplace ⊢
    split_ifs at hplace ⊢
    · cases hplace
    · exact timeout_none (Place.select.inj hplace)
  | @select timeout answer now later hp =>
    cases answer with
    | ready listening =>
      cases listening with
      | true => cases hplace
      | false => exact absurd hplace (hturn _)
    | timedOut =>
      rcases timedOut_place (L := L) (l := l) now later with htop | hrecord | hfirst
      · cases htop.symm.trans hplace
      · cases hrecord.symm.trans hplace
      · exact absurd (hfirst.symm.trans hplace) (hturn _)
    | interrupted =>
      simp only [afterSelect] at hplace
      split_ifs at hplace
    | again | failed => cases hplace
  | @accept answer hp =>
    cases answer with
    | none | noRoom => exact absurd hplace (hturn _)
    | refused | client => cases hp.symm.trans hplace
  | @poll c env l' hp hpoll =>
    obtain ⟨r, -, rfl⟩ := Option.map_eq_some_iff.mp hpoll
    exact absurd hplace (hturn _)
  | refresh | mix => cases hplace
  | wake =>
    simp only [wakeRound] at hplace
    split_ifs at hplace
  | filter =>
    simp only [filterRound] at hplace
    split_ifs at hplace
  | write =>
    simp only [writeRound] at hplace
    split_ifs at hplace
  | monitor =>
    simp only [monitorRound] at hplace
    split_ifs at hplace
  | record =>
    simp only [recordRound] at hplace
    split_ifs at hplace
  | usr1 => exact hl hplace
  | term => cases hplace
  | hup hp => exact (busy_resetDaemon _ _).not.mpr (hl hplace)

end CommLoop

/-- In every wait of the daemon, without a reset before: of the clients just the monitors are left
out, every other stream is watched, and the wait has no end only if nobody records and no sample
plays. -/
theorem select_watches {s : Server} {now : ℤ} {is : List LoopInput} {timeout : Option ℤ}
    (hs : s.Initial) (h : Run (CommLoop.advance L) (CommLoop.Promised L) (.start s now) is l)
    (noHup : ∀ scrambled, .hup scrambled ∉ is) (hplace : l.place = .select timeout) :
    (∀ c ∈ l.server.esdClientsList, (l.server.client c).fd ∈ watched l.server ↔
        ∀ p ∈ l.server.esdMonitorList, (l.server.player p).parent ≠ c) ∧
      (∀ list ≠ PlayerList.monitors, ∀ p ∈ l.server.list list, (l.server.player p).IsStream →
        (l.server.player p).sourceId ∈ watched l.server) ∧
      (timeout = none → l.server.esdRecorderList = [] ∧ l.server.esdPlayingSamples = 0) := by
  have hrunning : l.Running := fun status hexited => by cases hplace.symm.trans hexited
  obtain ⟨as, -, hruns⟩ := commLoop_refines hs.wellFormed h hrunning
  have hnoReset : Runs L.cfg NoReset s as l.server := hruns.mono fun _ a ha => by
    cases a with
    | reset scrambled => exact absurd (ha scrambled rfl) (noHup scrambled)
    | _ => exact id
  obtain ⟨hw, hpaired, hrequested⟩ := Run.requested hs hnoReset
  refine ⟨fun c hc => ?_, fun list hlist p hp mode => stream_watched hw hpaired hrequested hlist hp mode,
    fun hnone => ?_⟩
  · rw [mem_watched hpaired hc, monitors_iff hw hpaired hrequested hc]
    simp
  · have hidle := h.invariant (fun l => l.place = .select none → ¬ CommLoop.Busy l.server)
      (fun _ _ _ hl _ hstep => (CommLoop.advance_cases hstep).sleeps hl) nofun (hnone ▸ hplace)
    simpa only [CommLoop.Busy, not_or, not_not] using hidle

end Loop

/-- A client connects, and asks to monitor; then nothing happens. -/
def monitoringPasses : List LoopInput :=
  [.top none 100, .select (.ready true) 100 100,
      .accept (.client 1 5 (.sending [handshake 7, Word.octets 5#32,
        streamParams (esdBits16 ||| esdStereo) 44100#32])),
      .accept .none, .poll (.allocating 0)] ++ quietRound 100 ++
    wokenPass 100 0 ++ quietRound 100 ++ wokenPass 101 2 ++ quietRound 101 ++
    [.top none 101, .select .timedOut 101 101, .top none 102, .select .timedOut 104 104, .top none 104]

theorem monitoringPasses_end : (exec (CommLoop.advance .spawned) (CommLoop.Promised .spawned)
    (.start .blank 100) monitoringPasses).isSome := by
  decide +kernel

theorem select_watches_monitoring : ∃ l : CommLoop,
    l.place = .select none ∧ l.server.esdClientsList = [1] ∧ l.server.esdMonitorList = [2] ∧
      (l.server.client 1).fd ∉ watched l.server := by
  obtain ⟨l, hrun, hplace, hclients, hmonitors, hparent⟩ : ∃ l : CommLoop,
      Run (CommLoop.advance .spawned) (CommLoop.Promised .spawned) (.start .blank 100)
        monitoringPasses l ∧ l.place = .select none ∧ l.server.esdClientsList = [1] ∧
          l.server.esdMonitorList = [2] ∧ (l.server.player 2).parent = 1 :=
    ⟨_, Run.of_isSome monitoringPasses_end, by decide +kernel, by decide +kernel, by decide +kernel,
      by decide +kernel⟩
  obtain ⟨hwatched, -, -⟩ := select_watches Server.blank_initial hrun
    (fun _ => by simp [monitoringPasses, quietRound, wokenPass]) hplace
  refine ⟨l, hplace, hclients, hmonitors, fun hmem => ?_⟩
  exact (hwatched 1 (by simp [hclients])).mp hmem 2 (by simp [hmonitors]) hparent

end Esound
