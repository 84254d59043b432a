import Esound.Buffers
import Esound.Carried

/-!
# The routine of the daemon

Most requests concern neither players nor samples. What a relation has to bear to be carried
by every action is said here once: the routine, the busy requests, and the erasures.
-/

open Library.Buffer Library.Loop Library.Transition

namespace Esound

/-- The players, the samples and the lists of both are as they were. -/
structure Besides (s t : Server) : Prop where
  lists : t.list = s.list
  player : t.player = s.player
  samples : t.esdSamplesList = s.esdSamplesList
  sample : t.sample = s.sample
  playing : t.esdPlayingSamples = s.esdPlayingSamples
  nextId : t.esdNextSampleId = s.esdNextSampleId

/-- The requests that make, change or drop a player or a sample. -/
def Proto.Busy : Proto → Prop
  | streamPlay | streamRec | streamMon | streamFilt | streamPan => True
  | sampleCache | sampleFree | samplePlay | sampleLoop | sampleStop | samplePan => True
  | _ => False

section Routine

variable {cfg : Config} {env : PollEnv} {c : Ptr} {s t u : Server} {r : Server × Bool}

theorem Besides.refl (s : Server) : Besides s s := ⟨rfl, rfl, rfl, rfl, rfl, rfl⟩

theorem Besides.trans (h : Besides s t) (h' : Besides t u) : Besides s u :=
  ⟨h'.lists.trans h.lists, h'.player.trans h.player, h'.samples.trans h.samples,
    h'.sample.trans h.sample, h'.playing.trans h.playing, h'.nextId.trans h.nextId⟩

theorem Besides.players (h : Besides s t) : t.esdPlayersList = s.esdPlayersList :=
  congrFun h.lists .players

theorem Besides.of_objects (h : t.objects = s.objects) : Besides s t :=
  ⟨congrArg Objects.lists h, congrArg Objects.player h, congrArg Objects.samples h,
    congrArg Objects.sample h, congrArg Objects.playing h, congrArg Objects.nextId h⟩

theorem Behind.besides (h : Behind s t) : Besides s t := by
  rw [h.rest]
  exact ⟨rfl, rfl, rfl, rfl, rfl, rfl⟩

theorem Heard.besides (h : Heard c s t) : Besides s t := by
  rw [h.rest]
  exact ⟨rfl, rfl, rfl, rfl, rfl, rfl⟩

theorem esdProtoConnect_besides : Besides s (esdProtoConnect s c).1 := by
  have hsource := (esdValidateSource_frame (s := s) (c := c) (s.client c).key false).1
  obtain ⟨⟨t, ok⟩, hv⟩ : ∃ v, esdValidateSource s c (s.client c).key false = v := ⟨_, rfl⟩
  rw [hv] at hsource
  have hbefore : Besides s t := .of_objects hsource
  simp only [esdProtoConnect, hv]
  cases ok with
  | false => exact hbefore
  | true =>
    simp only [esdCheckEndian]
    split_ifs
    · exact hbefore.trans ⟨rfl, rfl, rfl, rfl, rfl, rfl⟩
    · exact hbefore.trans ⟨rfl, rfl, rfl, rfl, rfl, rfl⟩
    · exact hbefore

theorem writeAll_besides (fd : ℤ) (rows : List (List Octet)) : Besides s (writeAll s fd rows).1 := by
  induction rows generalizing s with
  | nil => exact .refl s
  | cons bs rest ih =>
    have hone : Besides s (s.sysWrite fd bs).1 := ⟨rfl, rfl, rfl, rfl, rfl, rfl⟩
    cases rest with
    | nil => exact hone
    | cons bs' rest' => exact hone.trans ih

theorem writePlayers_besides (cl : EsdClient) (ps : List Ptr) (scales : Word × Word) :
    Besides s (writePlayers cl ps scales s).1 := by
  induction ps generalizing s scales with
  | nil =>
    simp only [writePlayers]
    exact writeAll_besides _ _
  | cons p ps ih =>
    simp only [writePlayers]
    split_ifs
    · exact (writeAll_besides _ _).trans (ih _)
    · exact writeAll_besides _ _

theorem writeSamples_besides (cl : EsdClient) (qs : List Ptr) (scales : Word × Word) :
    Besides s (writeSamples cl qs scales s).1 := by
  induction qs generalizing s scales with
  | nil =>
    simp only [writeSamples]
    exact writeAll_besides _ _
  | cons q qs ih =>
    simp only [writeSamples]
    split_ifs
    · exact (writeAll_besides _ _).trans (ih _)
    · exact writeAll_besides _ _

theorem esdProtoServerInfo_besides : Besides s (esdProtoServerInfo s cfg c).1 := by
  simp only [esdProtoServerInfo]
  exact writeAll_besides _ _

theorem esdProtoAllInfo_besides : Besides s (esdProtoAllInfo cfg env s c).1 := by
  have hinfo : Besides s (esdProtoServerInfo s cfg c).1 := esdProtoServerInfo_besides
  simp only [esdProtoAllInfo]
  split
  · rename_i t heq
    rwa [heq] at hinfo
  · rename_i t heq
    rw [heq] at hinfo
    have hplayers := writePlayers_besides (s := t) (s.client c) t.esdPlayersList env.stackInts
    split
    · rename_i u heq'
      rw [heq'] at hplayers
      exact hinfo.trans hplayers
    · rename_i u heq'
      rw [heq'] at hplayers
      exact (hinfo.trans hplayers).trans (writeSamples_besides _ _ _)

theorem handler_besides {request : Proto} (hbusy : ¬ request.Busy)
    (h : handler cfg env request s c = some r) : Besides s r.1 := by
  cases request with
  | streamPlay | streamRec | streamMon | streamFilt | streamPan => exact absurd trivial hbusy
  | sampleCache | sampleFree | samplePlay | sampleLoop | sampleStop | samplePan =>
    exact absurd trivial hbusy
  | connect =>
    cases h
    exact esdProtoConnect_besides
  | lock =>
    cases h
    exact .of_objects objects_esdProtoLock
  | unlock =>
    cases h
    exact .of_objects objects_esdProtoUnlock
  | standby =>
    cases h
    exact .of_objects objects_esdProtoStandby
  | resume =>
    cases h
    exact .of_objects objects_esdProtoResume
  | sampleKill | subscribe | unsubscribe =>
    cases h
    exact .refl s
  | sampleGetid =>
    cases h
    simp only [esdProtoSampleGetid]
    split <;> exact ⟨rfl, rfl, rfl, rfl, rfl, rfl⟩
  | serverInfo =>
    cases h
    exact esdProtoServerInfo_besides
  | allInfo =>
    cases h
    exact esdProtoAllInfo_besides
  | standbyMode | latency =>
    cases h
    exact ⟨rfl, rfl, rfl, rfl, rfl, rfl⟩

end Routine

/-! ## Every action -/

structure Routine (R : Server → Server → Prop) : Prop extends Carried R where
  besides : ∀ s t, Besides s t → R s t

namespace Routine

variable {R : Server → Server → Prop} (hR : Routine R) {cfg : Config} {env : PollEnv} {c : Ptr}
  {s t : Server} {a : Action}

include hR

/-- The turn of a client, by what it asks for. -/
theorem poll (h : pollClient cfg env s c = some t)
    (hbusy : ∀ u request r, Heard c s u → request.Busy → handler cfg env request u c = some r → R u r.1)
    (hresume : ∀ r, (s.client c).state = .cachingSample → esdProtoSampleCache cfg env s c = some r →
      R s r.1) : R s t := by
  obtain ⟨r, hr, rfl⟩ := Option.map_eq_some_iff.mp h
  have hrecord : ∀ (u : Server) call, R u (u.record call) := fun u call =>
    hR.besides _ _ ⟨rfl, rfl, rfl, rfl, rfl, rfl⟩
  have hturn : R s r.1 := by
    cases pollTurn_ends hr with
    | heard _ hheard => exact hR.besides _ _ hheard.besides
    | handled request u hheard _ _ r' hhandler =>
      have hu : R s u := hR.besides _ _ hheard.besides
      refine hR.trans _ _ _ (hR.trans _ _ _ hu ?_) (hrecord r'.1 _)
      by_cases hreq : request.Busy
      · exact hbusy u request r' hheard hreq hhandler
      · exact hR.besides _ _ (handler_besides hreq hhandler)
    | resumed hstate r' hhandler =>
      exact hR.trans _ _ _ (hresume r' hstate hhandler) (hrecord r'.1 _)
  split_ifs
  · exact hturn
  · exact hR.trans _ _ _ hturn (hR.client _ _)

/-- Any other action but a reset. -/
theorem step (herase : ∀ l s p, R s (eraseFrom s l p)) (h : step cfg s a = some t)
    (hpoll : ∀ c env, a ≠ .poll c env) (hreset : ¬ a.IsReset) : R s t := by
  have hsame : ∀ {u v : Server}, v.objects = u.objects → R u v := fun h =>
    hR.besides _ _ (.of_objects h)
  have hopen : ∀ (u : Server) r, R u (esdAudioOpen u r).1 := by
    intro u r
    cases r <;> exact hsame rfl
  obtain ⟨-, h⟩ := step_eq_some h
  cases a with
  | poll c env => exact absurd rfl (hpoll c env)
  | reset => exact absurd trivial hreset
  | accept c fd socket =>
    cases h
    exact hR.besides _ _ ⟨rfl, rfl, rfl, rfl, rfl, rfl⟩
  | refresh =>
    cases h
    exact hR.refreshMixFuncs
  | mix canRead =>
    cases h
    exact hR.mixPlayers (herase .players) canRead
  | wake reopen =>
    cases h
    exact hsame (objects_esdServerResume _)
  | filter canRead size =>
    cases h
    exact hR.filterWrite (herase .filters) canRead size
  | monitor canWrite length =>
    cases h
    exact hR.monitorWrite (herase .monitors) canWrite length
  | recorder ready reopen block length =>
    cases h
    have hblock : R s { s with outputBuffer := store s.outputBuffer 0 block } := hsame rfl
    exact hR.trans _ _ _ hblock
      (hR.recorderWrite (herase .recorders) (fun _ _ _ _ => hsame rfl) ready reopen length)
  | autostandby =>
    cases h
    simp only [esdServerStandby]
    split_ifs <;> exact hsame rfl
  | reconnect reopen =>
    cases h
    have hclose : R s (esdAudioClose s) := hsame rfl
    exact hR.trans _ _ _ hclose (hopen _ reopen)

end Routine

end Esound
