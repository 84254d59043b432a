import Esound.SampleRefs
import Esound.Streams

/-!
# The reset and the players

`reset_daemon` frees every client and every sample and leaves the four lists of players
as they are. A player that survives it points to something that is gone; the number
of sample players stays right, since nothing of it is touched.
-/

open Library.Transition

namespace Esound

/-- Every player's parent is listed, a client for a stream and a sample for the others, and
the number of sample players is right. -/
structure Server.Consistent (s : Server) : Prop where
  clients : ∀ l, ∀ p ∈ s.list l, (s.player p).IsStream → (s.player p).parent ∈ s.esdClientsList
  samples : ∀ l, ∀ p ∈ s.list l, (s.player p).IsSample → (s.player p).parent ∈ s.esdSamplesList
  playing : s.esdPlayingSamples = s.samplePlayers

section Reset

variable (s : Server) (scrambled : List Octet)

theorem resetDaemon_clients : (resetDaemon s scrambled).esdClientsList = [] :=
  congrArg Objects.clients (resetDaemon_objects s scrambled)

theorem resetDaemon_samples : (resetDaemon s scrambled).esdSamplesList = [] :=
  congrArg Objects.samples (resetDaemon_objects s scrambled)

theorem resetDaemon_list : (resetDaemon s scrambled).list = s.list :=
  congrArg Objects.lists (resetDaemon_objects s scrambled)

theorem resetDaemon_player : (resetDaemon s scrambled).player = s.player :=
  congrArg Objects.player (resetDaemon_objects s scrambled)

theorem resetDaemon_playing : (resetDaemon s scrambled).esdPlayingSamples = s.esdPlayingSamples :=
  congrArg Objects.playing (resetDaemon_objects s scrambled)

theorem resetDaemon_samplePlayers : (resetDaemon s scrambled).samplePlayers = s.samplePlayers := by
  unfold Server.samplePlayers
  rw [resetDaemon_player]
  exact congrArg _ (congrFun (resetDaemon_list s scrambled) .players)

end Reset

/-- The reset leaves a consistent daemon behind exactly when there was no player. -/
theorem reset_consistent_iff {cfg : Config} {ok : Server → Action → Prop} {s t : Server}
    {as : List Action} (hs : s.Initial) (h : Runs cfg ok s as t) (scrambled : List Octet) :
    (resetDaemon t scrambled).Consistent ↔ ∀ l, t.list l = [] := by
  have hw := Run.wellFormed h hs.wellFormed
  constructor
  · intro hc l
    rw [List.eq_nil_iff_forall_not_mem]
    intro p hp
    have hlist : p ∈ (resetDaemon t scrambled).list l := by rwa [resetDaemon_list]
    rcases hw.modes l p hp with mode | ⟨-, mode⟩
    · have hparent := hc.clients l p hlist (by rw [resetDaemon_player]; exact mode)
      simp [resetDaemon_clients] at hparent
    · have hparent := hc.samples l p hlist (by rw [resetDaemon_player]; exact mode)
      simp [resetDaemon_samples] at hparent
  · intro hempty
    have htally : t.esdPlayingSamples = t.samplePlayers := by
      rw [t.samplePlayers_eq]
      exact Run.tallied hs h
    refine ⟨fun l p hp => ?_, fun l p hp => ?_, ?_⟩
    · simp [resetDaemon_list, hempty l] at hp
    · simp [resetDaemon_list, hempty l] at hp
    · rw [resetDaemon_playing, resetDaemon_samplePlayers]
      exact htally

theorem reset_consistent_iff_streaming :
    ∃ t, Runs .smallBlocks NoReset .blank (streamingRun []) t ∧
      ((resetDaemon t (List.replicate esdKeyLen 0)).Consistent ↔ ∀ l, t.list l = []) :=
  ⟨_, Run.of_isSome streamingRun_ends,
    reset_consistent_iff Server.blank_initial (Run.of_isSome streamingRun_ends) _⟩

/-- A client streams, and the daemon is reset. -/
theorem reset_orphans_stream :
    ∃ t, Runs .smallBlocks NoReset .blank (streamingRun []) t ∧
      ¬ (resetDaemon t (List.replicate esdKeyLen 0)).Consistent := by
  refine ⟨_, Run.of_isSome streamingRun_ends, fun hc => ?_⟩
  have hclients := hc.clients .players 2 (by decide +kernel) (by decide +kernel)
  exact absurd hclients (by decide +kernel)

end Esound
