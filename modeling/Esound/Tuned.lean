import Esound.Complete
import Esound.Routine

/-!
# The cached mix function

A player keeps the function it is mixed with. The choice depends on the width, the channels
and the two scales, and the daemon makes it when the player is made and when a stream is
panned; whatever else happens to a listed player leaves all four alone.
-/

open Library.Buffer Library.Loop Library.Transition

namespace Esound

/-- The function the player keeps is there, and is the one that would be chosen now. -/
structure EsdPlayer.Tuned (pl : EsdPlayer) : Prop where
  func : pl.mixFunc = getMixFunc pl
  found : pl.mixFunc ≠ none

/-- The variants without scaling. -/
def MixFunc.Unity : MixFunc → Prop
  | mono8uSv | stereo8uSv | mono16sSv | stereo16sSv => True
  | mono8u | stereo8u | mono16s | stereo16s => False

/-- What the choice depends on, without the scales. -/
structure EsdPlayer.SameShape (v w : EsdPlayer) : Prop where
  bits : v.format &&& esdMaskBits = w.format &&& esdMaskBits
  chan : v.format &&& esdMaskChan = w.format &&& esdMaskChan

section Choice

variable {v w pl : EsdPlayer} {f : MixFunc}

theorem getMixFunc_congr (shape : v.SameShape w) (left : v.leftVolScale = w.leftVolScale)
    (right : v.rightVolScale = w.rightVolScale) : getMixFunc v = getMixFunc w := by
  simp only [getMixFunc, shape.bits, shape.chan, left, right]

theorem getMixFunc_found (shape : v.SameShape w) (h : getMixFunc w ≠ none) : getMixFunc v ≠ none := by
  rw [Ne, ← Option.isNone_iff_eq_none, Bool.not_eq_true, Option.isNone_eq_false_iff,
    getMixFunc_isSome_iff, Mixable] at h ⊢
  rwa [shape.bits, shape.chan]

theorem getMixFunc_unity (h : getMixFunc pl = some f) :
    f.Unity ↔ pl.leftVolScale = esdVolumeBase ∧ pl.rightVolScale = esdVolumeBase := by
  simp only [getMixFunc] at h
  split_ifs at h with _ _ hunity _ hunity _ _ hunity _ hunity <;> cases h <;>
    simp only [MixFunc.Unity, hunity, and_self]

theorem EsdPlayer.Worked.tuned (h : v.Worked w) (ht : v.Tuned) : w.Tuned := by
  rw [h.rest]
  exact ⟨ht.func, ht.found⟩

/-- A player with another scale, and with the function chosen anew. -/
theorem EsdPlayer.Tuned.pan (ht : pl.Tuned) (left right : ℤ) : EsdPlayer.Tuned
    { pl with
      leftVolScale := left
      rightVolScale := right
      mixFunc := getMixFunc { pl with leftVolScale := left, rightVolScale := right } } := by
  have hfound : getMixFunc pl ≠ none := ht.func ▸ ht.found
  exact ⟨rfl, getMixFunc_found (w := pl) ⟨rfl, rfl⟩ hfound⟩

theorem EsdPlayer.Tuned.stop (ht : pl.Tuned) :
    EsdPlayer.Tuned { pl with format := (pl.format &&& ~~~esdMaskFunc) ||| esdStop } := by
  have hbits : ((pl.format &&& ~~~esdMaskFunc) ||| esdStop) &&& esdMaskBits =
      pl.format &&& esdMaskBits := by
    have hkeep : ~~~esdMaskFunc &&& esdMaskBits = esdMaskBits := by decide
    have hstop : esdStop &&& esdMaskBits = 0#32 := by decide
    rw [BitVec.and_or_distrib_right, hstop, BitVec.or_zero, BitVec.and_assoc, hkeep]
  have hchan : ((pl.format &&& ~~~esdMaskFunc) ||| esdStop) &&& esdMaskChan =
      pl.format &&& esdMaskChan := by
    have hkeep : ~~~esdMaskFunc &&& esdMaskChan = esdMaskChan := by decide
    have hstop : esdStop &&& esdMaskChan = 0#32 := by decide
    rw [BitVec.and_or_distrib_right, hstop, BitVec.or_zero, BitVec.and_assoc, hkeep]
  have hsame := getMixFunc_congr (v := { pl with format := (pl.format &&& ~~~esdMaskFunc) ||| esdStop })
    (w := pl) ⟨hbits, hchan⟩ rfl rfl
  exact ⟨ht.func.trans hsame.symm, ht.found⟩

end Choice

/-! ## Listed players -/

def Server.Tuned (s : Server) : Prop := ∀ p ∈ s.esdPlayersList, (s.player p).Tuned

section Handlers

variable {cfg : Config} {env : PollEnv} {s t : Server} {c p : Ptr} {r : Server × Bool}

theorem Server.Tuned.of_eq (hs : s.Tuned) (list : t.esdPlayersList = s.esdPlayersList)
    (player : t.player = s.player) : t.Tuned := by
  intro p hp
  rw [player]
  exact hs p (list ▸ hp)

theorem Server.Tuned.setPlayer (hs : s.Tuned) {v : EsdPlayer}
    (hv : p ∈ s.esdPlayersList → (s.player p).Tuned → v.Tuned) : (s.setPlayer p v).Tuned := by
  intro p' hp'
  rcases eq_or_ne p' p with rfl | hne
  · rw [setPlayer_self]
    exact hv hp' (hs p' hp')
  · simpa [Server.setPlayer, hne] using hs p' hp'

theorem Server.Tuned.pushTo {l : PlayerList} (hs : s.Tuned) (hp : (s.player p).Tuned) :
    (pushTo s l p).Tuned := by
  intro p' hp'
  rw [pushTo_player]
  cases l with
  | players =>
    rcases List.mem_cons.mp hp' with rfl | hmem
    · exact hp
    · exact hs p' hmem
  | recorders | monitors | filters => exact hs p' hp'

/-- A player that is not listed yet may be given a parent and a translation. -/
theorem Server.Tuned.setUnlisted (hs : s.Tuned) (fresh : p ∉ s.esdPlayersList) (v : EsdPlayer) :
    (s.setPlayer p v).Tuned :=
  hs.setPlayer fun hp => absurd hp fresh

/-- What is allocated is fit to be mixed; nobody lists it yet. -/
structure Allocates (env : PollEnv) (s : Server) (r : Server × Ptr) : Prop where
  player : ∀ p ≠ env.malloc, r.1.player p = s.player p
  players : r.1.esdPlayersList = s.esdPlayersList
  result : r.2 ≠ 0 → r.2 = env.malloc ∧ (r.1.player env.malloc).Tuned

theorem Allocates.tuned {a : Server × Ptr} (h : Allocates env s a) (fresh : env.malloc ∉ s.esdPlayersList)
    (hs : s.Tuned) : a.1.Tuned := by
  intro p hp
  have hmem : p ∈ s.esdPlayersList := h.players ▸ hp
  rw [h.player p fun he => fresh (he ▸ hmem)]
  exact hs p hmem

theorem newStreamPlayer_allocates : Allocates env s (newStreamPlayer cfg env s c) := by
  simp only [newStreamPlayer]
  split_ifs with hnull hroom
  · exact ⟨fun _ _ => rfl, rfl, fun h => absurd rfl h⟩
  · split
    · exact ⟨fun _ _ => rfl, rfl, fun h => absurd rfl h⟩
    · rename_i f hfunc
      refine ⟨fun p hp => ?_, rfl, fun _ => ⟨rfl, ?_⟩⟩
      · simp [Server.setPlayer, hp]
      · rw [setPlayer_self]
        exact ⟨hfunc.symm, by simp⟩
  · split <;> exact ⟨fun _ _ => rfl, rfl, fun h => absurd rfl h⟩

variable (cfg env s) in
theorem newSamplePlayer_allocates (id : ℤ) (loop : Bool) :
    Allocates env s (newSamplePlayer cfg env s id loop) := by
  simp only [newSamplePlayer]
  split
  · exact ⟨fun _ _ => rfl, rfl, fun h => absurd rfl h⟩
  · split_ifs with hnull hroom
    · exact ⟨fun _ _ => rfl, rfl, fun h => absurd rfl h⟩
    · split
      · exact ⟨fun _ _ => rfl, rfl, fun h => absurd rfl h⟩
      · rename_i f hfunc
        refine ⟨fun p hp => ?_, rfl, fun _ => ⟨rfl, ?_⟩⟩
        · simp [Server.setPlayer, Server.setSample, hp]
        · simp only [Server.setPlayer, Server.setSample, Function.update_self]
          exact ⟨hfunc.symm, by simp⟩
    · split <;> exact ⟨fun _ _ => rfl, rfl, fun h => absurd rfl h⟩

theorem playSample_tuned (fresh : env.malloc ∉ s.esdPlayersList) (hs : s.Tuned) (id : ℤ)
    (loop : Bool) : (playSample cfg env s id loop).1.Tuned := by
  have halloc := newSamplePlayer_allocates cfg env s id loop
  have hbefore := halloc.tuned fresh hs
  simp only [playSample]
  split_ifs with hnull
  · exact hbefore
  · obtain ⟨hmalloc, htuned⟩ := halloc.result hnull
    rw [hmalloc]
    exact hbefore.pushTo htuned

theorem stopSample_tuned (hs : s.Tuned) (id : ℤ) : (stopSample s id).1.Tuned := by
  simp only [stopSample]
  split
  · exact hs
  · exact hs.setPlayer fun _ ht => ht.stop

theorem joinRecorders_tuned (fresh : p ∉ s.esdPlayersList) (hs : s.Tuned) :
    (joinRecorders s c p).1.Tuned := by
  have hparent : (setParent (addRecorder s p) p c).Tuned :=
    Server.Tuned.setUnlisted (s := addRecorder s p) hs fresh _
  exact Server.Tuned.setUnlisted (s := setParent (addRecorder s p) p c) hparent fresh _

theorem freePlayer_tuned (hs : s.Tuned) (p : Ptr) : (freePlayer s p).Tuned :=
  hs.of_eq (congrFun freePlayer_list .players) freePlayer_player

theorem reopenToRecord_tuned (fresh : p ∉ s.esdPlayersList) (hs : s.Tuned) :
    (reopenToRecord env s c p).1.Tuned := by
  obtain ⟨u, hu⟩ : ∃ u : Server, u =
      { s with audioFd := none, esdAudioFormat := s.esdAudioFormat ||| esdRecord } := ⟨_, rfl⟩
  have hclosed : u.Tuned := hu ▸ hs
  have hunlisted : p ∉ u.esdPlayersList := hu ▸ fresh
  simp only [reopenToRecord, esdAudioClose, ← hu]
  cases env.audioOpen 1 with
  | some size =>
    have hopen : Server.Tuned { u with audioFd := some u.esdAudioFormat, esdWriteSize := size } := hclosed
    exact joinRecorders_tuned (s := { u with audioFd := some u.esdAudioFormat, esdWriteSize := size })
      hunlisted hopen
  | none =>
    have hfree := freePlayer_tuned hclosed p
    simp only [esdAudioOpen, giveUpRecorder]
    cases env.audioOpen 2 <;> exact hfree

theorem startRecorder_tuned (fresh : env.malloc ∉ s.esdPlayersList) (hs : s.Tuned) :
    (startRecorder cfg env s c).1.Tuned := by
  have halloc : Allocates env s (newStreamPlayer cfg env s c) := newStreamPlayer_allocates
  have hbefore := halloc.tuned fresh hs
  have hunlisted : env.malloc ∉ (newStreamPlayer cfg env s c).1.esdPlayersList := by
    rwa [halloc.players]
  simp only [startRecorder]
  split_ifs with hstandby hnull
  · exact hs
  · exact hbefore
  · obtain ⟨hmalloc, -⟩ := halloc.result hnull
    rw [hmalloc]
    exact reopenToRecord_tuned hunlisted hbefore
  · obtain ⟨hmalloc, -⟩ := halloc.result hnull
    rw [hmalloc]
    exact joinRecorders_tuned hunlisted hbefore

theorem esdProtoSampleCache_tuned (hs : s.Tuned) (h : esdProtoSampleCache cfg env s c = some r) :
    r.1.Tuned := by
  have hinto : ∀ (u : Server) q, u.Tuned → (cacheInto cfg u c q).1.Tuned := by
    intro u q hu
    have hrest := (readSample_reads cfg (u.setSample q { u.sample q with parent := c }) q).rest
    have hlist := congrArg Server.esdPlayersList hrest
    have hplayer := congrArg Server.player hrest
    have hread := hu.of_eq hlist hplayer
    simp only [cacheInto]
    split
    · rename_i t heq
      rwa [heq] at hread
    · rename_i t heq
      rw [heq] at hread
      split_ifs <;> exact hread
  have hnew : (newSample cfg env s c).1.Tuned := by
    simp only [newSample]
    split_ifs <;> exact hs
  simp only [esdProtoSampleCache] at h
  split_ifs at h with hcaching hnull
  · split at h
    · cases h
    · split_ifs at h <;> cases h
      · exact hs
      · exact hinto s _ hs
  · cases h
    exact hnew
  · cases h
    exact hinto (addSample (newSample cfg env s c).1 (newSample cfg env s c).2) _ hnew

/-- Every request keeps the players tuned, with a fresh address for what it allocates. -/
theorem handler_tuned {request : Proto} (fresh : env.malloc ∉ s.esdPlayersList) (hs : s.Tuned)
    (hbusy : request.Busy) (h : handler cfg env request s c = some r) : r.1.Tuned := by
  have halloc : Allocates env s (newStreamPlayer cfg env s c) := newStreamPlayer_allocates
  have hbefore := halloc.tuned fresh hs
  have hunlisted : env.malloc ∉ (newStreamPlayer cfg env s c).1.esdPlayersList := by
    rwa [halloc.players]
  cases request with
  | streamPlay =>
    cases h
    simp only [esdProtoStreamPlay]
    split_ifs with hnull
    · exact hbefore
    · obtain ⟨hmalloc, htuned⟩ := halloc.result hnull
      rw [hmalloc]
      have hparent : (setParent (newStreamPlayer cfg env s c).1 env.malloc c).Tuned :=
        hbefore.setUnlisted hunlisted _
      refine hparent.pushTo ?_
      rw [setParent, setPlayer_self]
      exact ⟨htuned.func, htuned.found⟩
  | streamRec =>
    cases h
    simp only [esdProtoStreamRecorder]
    split_ifs
    · have hobj := objects_esdServerResume (s := s) (env.audioOpen 0)
      have hplayers : (esdServerResume s (env.audioOpen 0)).1.esdPlayersList = s.esdPlayersList :=
        (Besides.of_objects hobj).players
      refine startRecorder_tuned ?_ (hs.of_eq hplayers (congrArg Objects.player hobj))
      rwa [hplayers]
    · exact startRecorder_tuned fresh hs
  | streamMon =>
    cases h
    simp only [esdProtoStreamMonitor]
    split_ifs with hnull
    · exact hbefore
    · rw [(halloc.result hnull).1]
      have hparent : (setParent (newStreamPlayer cfg env s c).1 env.malloc c).Tuned :=
        hbefore.setUnlisted hunlisted _
      exact Server.Tuned.setUnlisted
        (s := Esound.pushTo (setParent (newStreamPlayer cfg env s c).1 env.malloc c) .monitors env.malloc)
        hparent hunlisted _
  | streamFilt =>
    cases h
    simp only [esdProtoStreamFilter]
    split_ifs with hnull
    · exact hbefore
    · rw [(halloc.result hnull).1]
      have hparent : (setParent (newStreamPlayer cfg env s c).1 env.malloc c).Tuned :=
        hbefore.setUnlisted hunlisted _
      exact hparent.of_eq rfl rfl
  | streamPan =>
    cases h
    simp only [esdProtoStreamPan]
    split
    · exact hs.setPlayer fun _ ht => ht.pan _ _
    · exact hs
  | sampleCache => exact esdProtoSampleCache_tuned hs h
  | sampleFree =>
    cases h
    exact hs.of_eq (congrFun (eraseSample_list _ _) .players) (eraseSample_player _ _)
  | samplePlay =>
    cases h
    exact playSample_tuned fresh hs _ _
  | sampleLoop =>
    cases h
    exact playSample_tuned fresh hs _ _
  | sampleStop =>
    cases h
    exact stopSample_tuned hs _
  | samplePan =>
    cases h
    simp only [esdProtoSamplePan]
    split <;> exact hs
  | connect | lock | unlock | sampleKill | standby | resume | sampleGetid | serverInfo | allInfo
  | subscribe | unsubscribe | standbyMode | latency => exact hbusy.elim

end Handlers

/-! ## Steps and runs -/

section Steps

variable {cfg : Config} {s t : Server} {a : Action}

theorem routine_tuned : Routine fun s t => s.Tuned → t.Tuned where
  behind s t h hs := by
    rw [h.rest]
    exact hs
  players s f h hs p hp := (h p).tuned (hs p hp)
  client s c hs := hs.of_eq (congrFun (eraseClient_list s c) .players) (eraseClient_player s c)
  trans s t u h h' hs := h' (h hs)
  besides s t h hs := hs.of_eq h.players h.player

theorem eraseFrom_tuned (l : PlayerList) (p : Ptr) (hs : s.Tuned) : (eraseFrom s l p).Tuned := by
  intro p' hp'
  rw [eraseFrom_player]
  have hmem : p' ∈ s.list .players := mem_of_mem_eraseFrom hp'
  exact hs p' hmem

theorem step_tuned (hs : s.Tuned) (h : step cfg s a = some t) : t.Tuned := by
  cases a with
  | poll c env =>
    obtain ⟨⟨-, fresh, -⟩, h⟩ := step_eq_some h
    have hunlisted : env.malloc ∉ s.esdPlayersList := by
      simp only [Server.allPlayers, List.mem_append, not_or] at fresh
      exact fresh.1.1.1
    refine routine_tuned.poll h (fun u request r hheard hbusy hhandler hu => ?_)
      (fun r _ hhandler hs => esdProtoSampleCache_tuned hs hhandler) hs
    refine handler_tuned ?_ hu hbusy hhandler
    rwa [hheard.besides.players]
  | reset scrambled =>
    obtain ⟨-, h⟩ := step_eq_some h
    cases h
    have hobj := resetDaemon_objects s scrambled
    have hlists : (resetDaemon s scrambled).list = s.list := congrArg Objects.lists hobj
    exact hs.of_eq (congrFun hlists .players) (congrArg Objects.player hobj)
  | _ => exact routine_tuned.step (fun l s p => eraseFrom_tuned l p) h (by simp) (by simp [Action.IsReset]) hs

theorem Run.tuned {ok : Server → Action → Prop} {as : List Action} (hs : s.Tuned)
    (h : Runs cfg ok s as t) : t.Tuned :=
  h.invariant Server.Tuned (fun _ _ _ ht _ hstep => step_tuned ht hstep) hs

/-- In every state the daemon reaches a listed player keeps the function that would be
chosen for it now, which is a variant without scaling if both its scales are the base. -/
theorem mix_func_never_stale {ok : Server → Action → Prop} {as : List Action} (hs : s.Initial)
    (h : Runs cfg ok s as t) {p : Ptr} (hp : p ∈ t.esdPlayersList) :
    ∃ f, (t.player p).mixFunc = some f ∧ getMixFunc (t.player p) = some f ∧
      (f.Unity ↔ (t.player p).leftVolScale = esdVolumeBase ∧
        (t.player p).rightVolScale = esdVolumeBase) := by
  have hempty : s.esdPlayersList = [] := hs.list .players
  have hinitial : s.Tuned := by simp [Server.Tuned, hempty]
  have htuned := Run.tuned hinitial h p hp
  obtain ⟨f, hf⟩ := Option.ne_none_iff_exists'.mp htuned.found
  have hget : getMixFunc (t.player p) = some f := htuned.func ▸ hf
  exact ⟨f, hf, hget, getMixFunc_unity hget⟩

/-- A client plays a stream, and another one pans it. -/
def panningRun : List Action :=
  [.accept 1 5 (.sending
      [handshake 7, Word.octets 3#32, streamParams (esdBits16 ||| esdStereo) 44100#32]),
    .poll 1 (.allocating 0), .poll 1 (.allocating 0), .poll 1 (.allocating 3),
    .accept 2 6 (.sending
      [handshake 7, Word.octets 20#32,
        Word.octets 5#32 ++ Word.octets 128#32 ++ Word.octets 256#32]),
    .poll 2 (.allocating 0), .poll 2 (.allocating 0), .poll 2 (.allocating 0)]

theorem panningRun_ends : (exec (step .smallBlocks) NoReset .blank panningRun).isSome := by
  decide +kernel

theorem mix_func_never_stale_panned :
    ∃ t, Runs .smallBlocks NoReset .blank panningRun t ∧ (t.player 3).leftVolScale = 128 ∧
      (t.player 3).mixFunc = some .stereo16s ∧ ∃ f, (t.player 3).mixFunc = some f ∧ ¬ f.Unity := by
  refine ⟨_, Run.of_isSome panningRun_ends, by decide +kernel, by decide +kernel, ?_⟩
  obtain ⟨f, hf, -, hunity⟩ := mix_func_never_stale Server.blank_initial
    (Run.of_isSome panningRun_ends) (p := 3) (by decide +kernel)
  refine ⟨f, hf, fun hf' => absurd (hunity.mp hf').1 ?_⟩
  decide +kernel

end Steps

end Esound
