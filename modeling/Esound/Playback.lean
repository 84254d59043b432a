import Esound.Shares

/-!
# Samples played to their end

A sample that is not looped is to be heard whole before its player goes. The player goes
when there is nothing to copy, and that is also so while its buffer is still full of what
was copied before.
-/

open Library.Buffer Library.Loop Library.Transition

namespace Esound

/-- Nothing that concerns the player happened. -/
structure Uninvolved (p : Ptr) (s t : Server) : Prop extends SamePlay p s t where
  listed : p ∈ t.esdPlayersList ↔ p ∈ s.esdPlayersList
  lastPos : (t.player p).lastPos = (s.player p).lastPos
  actualLength : (t.player p).actualLength = (s.player p).actualLength
  playerData : t.playerData p = s.playerData p
  story : t.story p = s.story p

def Action.IsMix : Action → Prop
  | mix _ => True
  | _ => False

instance (a : Action) : Decidable a.IsMix :=
  match a with
  | .mix _ => .isTrue trivial
  | .accept .. | .poll .. | .refresh | .wake _ | .filter .. | .monitor .. | .recorder ..
  | .autostandby | .reconnect _ | .reset _ => .isFalse id

theorem step_mix {cfg : Config} (canRead : Ptr → Bool) (s : Server) :
    step cfg s (.mix canRead) = some (mixPlayers cfg canRead s).1 :=
  if_pos trivial

def onlyMixing (_ : Server) (a : Action) : Prop := a.IsMix

instance (s : Server) (a : Action) : Decidable (onlyMixing s a) :=
  inferInstanceAs (Decidable a.IsMix)

/-- Between the mixing cycles nobody touches the player, or the contents of its sample. -/
def LeftAlone (cfg : Config) (p : Ptr) (s : Server) : Action → Prop
  | .mix _ => True
  | a => ∀ t, step cfg s a = some t → Uninvolved p s t

theorem leftAlone_of_onlyMixing {cfg : Config} {p : Ptr} {s : Server} {a : Action}
    (h : onlyMixing s a) : LeftAlone cfg p s a := by
  cases a with
  | mix => trivial
  | _ => exact h.elim

theorem LeftAlone.mix_or {cfg : Config} {p : Ptr} {s t : Server} {a : Action}
    (hok : LeftAlone cfg p s a) (h : step cfg s a = some t) :
    (Uninvolved p s t ∧ ¬ a.IsMix) ∨
      ∃ canRead, a = .mix canRead ∧ t = (mixPlayers cfg canRead s).1 := by
  cases a with
  | mix canRead => exact .inr ⟨canRead, rfl, (Option.some.inj (step_eq_some h).2).symm⟩
  | _ => exact .inl ⟨hok t h, id⟩

/-- The mixer does not take less than nothing off the player. -/
def TakesWhatIsThere (cfg : Config) (p : Ptr) (s : Server) : Action → Prop
  | .mix canRead => 0 ≤ share cfg canRead s p
  | _ => True

theorem takesWhatIsThere_of_not_mix {cfg : Config} {p : Ptr} {s : Server} {a : Action}
    (h : ¬ a.IsMix) : TakesWhatIsThere cfg p s a := by
  cases a with
  | mix => exact absurd trivial h
  | _ => trivial

/-- A player of a sample that has not had its first turn. -/
structure AtStart (s : Server) (p : Ptr) : Prop extends Playing s p where
  lastPos : (s.player p).lastPos = 0
  actualLength : (s.player p).actualLength = 0
  sampleLength : 0 < (s.sample (s.player p).parent).sampleLength
  bufferLength : 0 < (s.player p).bufferLength
  frames : 4 ∣ (s.player p).bufferLength

def esdPlay : Word := 0x1000#32

theorem samplePlayerFormat_func (format : Word) (loop : Bool) :
    samplePlayerFormat format loop &&& esdMaskFunc =
      if loop then esdLoop else format &&& esdMaskFunc := by
  have hsample : esdSample &&& esdMaskFunc = 0#32 := by decide
  have hmode : ~~~esdMaskMode &&& esdMaskFunc = esdMaskFunc := by decide
  have hclear : ~~~esdMaskFunc &&& esdMaskFunc = 0#32 := by decide
  have hloop : esdLoop &&& esdMaskFunc = esdLoop := by decide
  cases loop with
  | false =>
    simp only [samplePlayerFormat, Bool.false_eq_true, if_false]
    rw [BitVec.and_or_distrib_right, hsample, BitVec.or_zero, BitVec.and_assoc, hmode]
  | true =>
    simp only [samplePlayerFormat, if_true]
    rw [BitVec.and_or_distrib_right, BitVec.and_assoc, hclear, BitVec.and_zero, BitVec.zero_or, hloop]

theorem newSamplePlayer_atStart {cfg : Config} {env : PollEnv} {s : Server} {id : ℤ} {loop : Bool}
    {q : Ptr} (hq : findSample s id = some q) (made : (newSamplePlayer cfg env s id loop).2 ≠ 0)
    (playable : (s.sample q).format &&& esdMaskFunc = esdPlay)
    (length : 0 < (s.sample q).sampleLength)
    (room : 0 < bufferLength cfg (samplePlayerFormat (s.sample q).format loop) (s.sample q).rate) :
    AtStart (newSamplePlayer cfg env s id loop).1 (newSamplePlayer cfg env s id loop).2 ∧
      (((newSamplePlayer cfg env s id loop).1.player
        (newSamplePlayer cfg env s id loop).2).format &&& esdMaskFunc = esdLoop ↔ loop) := by
  have hfunc := samplePlayerFormat_func (s.sample q).format loop
  simp only [newSamplePlayer, hq] at made ⊢
  split_ifs at made ⊢ with hnull hroom
  · exact absurd rfl made
  · split at made
    · exact absurd rfl made
    · rename_i f hmix
      simp only
      refine ⟨⟨⟨?_, ?_⟩, ?_, ?_, ?_, ?_, ?_⟩, ?_⟩ <;>
        simp only [Server.setSample, Server.setPlayer, Function.update_self]
      · exact samplePlayerFormat_mode _ _
      · rw [playable]
        decide
      · exact length
      · exact room
      · exact bufferLength_dvd cfg _ _
      · rw [hfunc, playable]
        cases loop <;> decide
  · split at made <;> exact absurd rfl made

def sampleOctets (s : Server) (p : Ptr) (n : ℤ) : List Octet :=
  load (s.sampleData (s.player p).parent) 0 n.toNat

section Runs

variable {cfg : Config} {p : Ptr} {s t u : Server}

theorem usedSince_append {es : List Event} (h : s.story p <+: t.story p)
    (h' : u.story p = t.story p ++ es) : usedSince p s u = usedSince p s t ++ usedIn es := by
  obtain ⟨ds, hds⟩ := h
  simp only [usedSince, h', ← hds, List.append_assoc, List.drop_left, usedIn_append]

theorem SamePlay.nextChunk (h : SamePlay p s t) :
    nextChunk t p = min ((s.sample (s.player p).parent).sampleLength - (t.player p).lastPos)
      ((s.player p).bufferLength - (t.player p).actualLength) := by
  simp only [Esound.nextChunk, sampleChunk, h.kind.parent, h.kind.bufferLength,
    h.sample.sampleLength]

/-- Since `s` the player has played the sample up to its position; what it has taken from there
and not used is in its buffer, perhaps with something else. -/
structure Played (p : Ptr) (s t : Server) : Prop where
  same : SamePlay p s t
  story : s.story p <+: t.story p
  lastPos_nonneg : 0 ≤ (t.player p).lastPos
  lastPos_le : (t.player p).lastPos ≤ (s.sample (s.player p).parent).sampleLength
  nonneg : 0 ≤ (t.player p).actualLength
  total : (t.player p).lastPos ≤ (usedSince p s t).length + (t.player p).actualLength

/-- With nothing else in it. -/
def Queued (p : Ptr) (s t : Server) : Prop :=
  usedSince p s t ++ t.held p = sampleOctets s p (t.player p).lastPos

/-- With a frame of something else in it. -/
def Surplus (p : Ptr) (s t : Server) : Prop :=
  (t.player p).lastPos + frameOctets (s.player p) ≤
    (usedSince p s t).length + (t.player p).actualLength

theorem Uninvolved.usedSince (h : Uninvolved p t u) (hstory : s.story p <+: t.story p) :
    usedSince p s u = usedSince p s t := by
  rw [usedSince_append hstory (h.story.trans (List.append_nil _).symm)]
  exact List.append_nil _

theorem Uninvolved.played (h : Uninvolved p t u) (hs : Played p s t) : Played p s u where
  same := hs.same.trans h.toSamePlay
  story := h.story ▸ hs.story
  lastPos_nonneg := h.lastPos ▸ hs.lastPos_nonneg
  lastPos_le := h.lastPos ▸ hs.lastPos_le
  nonneg := h.actualLength ▸ hs.nonneg
  total := by
    rw [h.lastPos, h.actualLength, h.usedSince hs.story]
    exact hs.total

theorem Uninvolved.queued (h : Uninvolved p t u) (hs : Played p s t) (hq : Queued p s t) :
    Queued p s u := by
  simp only [Queued, h.usedSince hs.story, h.lastPos, held_eq, h.actualLength, h.playerData]
  exact hq

theorem Uninvolved.surplus (h : Uninvolved p t u) (hs : Played p s t) (hm : Surplus p s t) :
    Surplus p s u := by
  simp only [Surplus, h.usedSince hs.story, h.lastPos, h.actualLength]
  exact hm

theorem Copied.played {used : ℤ} {es : List Event} (hs : Played p s t)
    (hn : 0 < nextChunk t p) (h : Copied p t used es u) :
    Played p s u ∧ (0 ≤ used → Queued p s t → Queued p s u) ∧
      (used < 0 ∨ Surplus p s t → Surplus p s u) := by
  have hused := usedSince_append hs.story h.story
  have hle : nextChunk t p ≤ (s.sample (s.player p).parent).sampleLength - (t.player p).lastPos := by
    rw [hs.same.nextChunk]
    exact min_le_left _ _
  have hnonneg := hs.nonneg
  have hlast := hs.lastPos_nonneg
  have hqueue : 0 ≤ used → ((usedSince p s u).length : ℤ) + (u.player p).actualLength =
      (usedSince p s t).length + (t.player p).actualLength + nextChunk t p := by
    intro hpos
    have hlens := congrArg List.length (h.queue hpos)
    have hnext := h.nonneg
    simp only [List.length_append, held_eq, load_length] at hlens
    rw [hused, List.length_append]
    omega
  have hmore : used < 0 → ((usedSince p s u).length : ℤ) + (u.player p).actualLength ≥
      (usedSince p s t).length + (t.player p).actualLength + nextChunk t p +
        frameOctets (s.player p) := by
    intro hneg
    obtain ⟨hlen, hframe⟩ := h.surplus hneg
    rw [hs.same.kind.frameOctets] at hframe
    rw [hused, List.length_append]
    omega
  have htotal := hs.total
  have hframe := frameOctets_pos (s.player p)
  refine ⟨⟨hs.same.trans h.same, hs.story.trans ⟨es, h.story.symm⟩, ?_, ?_, h.nonneg, ?_⟩,
    fun hpos hq => ?_, fun hm => ?_⟩
  · rw [h.lastPos]
    omega
  · rw [h.lastPos]
    omega
  · rw [h.lastPos]
    rcases lt_or_ge used 0 with hneg | hpos
    · have := hmore hneg
      omega
    · have := hqueue hpos
      omega
  · obtain ⟨n, hn'⟩ := Int.eq_ofNat_of_zero_le hlast
    obtain ⟨m, hm'⟩ := Int.eq_ofNat_of_zero_le hn.le
    have hdata := h.queue hpos
    simp only [Queued, sampleOctets] at hq ⊢
    rw [hused, List.append_assoc, hdata, ← List.append_assoc, hq, h.lastPos, hn', hm',
      hs.same.kind.parent, hs.same.data, ← Nat.cast_add, Int.toNat_natCast, Int.toNat_natCast,
      Int.toNat_natCast]
    simpa using (load_add (s.sampleData (s.player p).parent) 0 n m).symm
  · simp only [Surplus] at hm ⊢
    rw [h.lastPos]
    rcases lt_or_ge used 0 with hneg | hpos
    · have := hmore hneg
      omega
    · have := hqueue hpos
      omega

theorem AtStart.played (hs : AtStart s p) : Played p s s where
  same := .refl p s
  story := List.prefix_rfl
  lastPos_nonneg := hs.lastPos.ge
  lastPos_le := by
    rw [hs.lastPos]
    exact hs.sampleLength.le
  nonneg := hs.actualLength.ge
  total := by
    rw [hs.lastPos, hs.actualLength]
    omega

theorem AtStart.queued (hs : AtStart s p) : Queued p s s := by
  simp [Queued, sampleOctets, held_eq, usedSince, usedIn, hs.lastPos, hs.actualLength]

variable {as : List Action} (hs : AtStart s p)
  (straight : (s.player p).format &&& esdMaskFunc ≠ esdLoop)

include hs straight

theorem mixPlayers_played {canRead : Ptr → Bool} (hw : t.objects.WellFormed)
    (hplayed : p ∈ t.esdPlayersList → Played p s t)
    (hstays : p ∈ (mixPlayers cfg canRead t).1.esdPlayersList) :
    p ∈ t.esdPlayersList ∧ 0 < nextChunk t p ∧
      ∃ es, Copied p t (share cfg canRead t p) es (mixPlayers cfg canRead t).1 := by
  have hp : p ∈ t.esdPlayersList := by
    by_contra hp
    exact hp ((mixPlayers_unlisted hp).listed_iff.mp hstays)
  have hplaying := (hplayed hp).same.playing hs.toPlaying
  have hn : 0 < nextChunk t p := by
    by_contra hn
    exact (mixPlayers_ends cfg canRead hw hp hplaying (not_lt.mp hn)).1 hstays
  exact ⟨hp, hn, mixPlayers_copied cfg canRead hw hp hplaying
    (by rw [(hplayed hp).same.format]; exact straight) hn (hplayed hp).nonneg⟩

theorem step_played {a : Action} (hok : LeftAlone cfg p t a) (h : step cfg t a = some u)
    (hw : t.objects.WellFormed) (hplayed : p ∈ t.esdPlayersList → Played p s t)
    (hu : p ∈ u.esdPlayersList) :
    p ∈ t.esdPlayersList ∧ Played p s u ∧
      (TakesWhatIsThere cfg p t a → Queued p s t → Queued p s u) ∧
      (¬ TakesWhatIsThere cfg p t a ∨ Surplus p s t → Surplus p s u) := by
  rcases hok.mix_or h with ⟨hun, hother⟩ | ⟨canRead, rfl, rfl⟩
  · have hp := hun.listed.mp hu
    refine ⟨hp, hun.played (hplayed hp), fun _ => hun.queued (hplayed hp), ?_⟩
    rintro (hnot | hm)
    · exact absurd (takesWhatIsThere_of_not_mix hother) hnot
    · exact hun.surplus (hplayed hp) hm
  · obtain ⟨hp, hn, es, hcopied⟩ := mixPlayers_played hs straight hw hplayed hu
    obtain ⟨hnext, hqueue, hsurplus⟩ := hcopied.played (hplayed hp) hn
    exact ⟨hp, hnext, hqueue, fun hm => hsurplus (hm.imp_left not_le.mp)⟩

/-- In a run whose cycles all take what is there the buffer is a queue; any other leaves a frame
too many in it. -/
theorem run_played (hw : s.objects.WellFormed) (h : Runs cfg (LeftAlone cfg p) s as t)
    (ht : p ∈ t.esdPlayersList) :
    t.objects.WellFormed ∧ Played p s t ∧
      (Runs cfg (fun s a => LeftAlone cfg p s a ∧ TakesWhatIsThere cfg p s a) s as t ∨
        Surplus p s t) := by
  have hboth := h.invariant (fun u => u.objects.WellFormed ∧ (p ∈ u.esdPlayersList → Played p s u))
    (fun u a v hu hok hstep => ⟨step_wellFormed hu.1 hstep,
      fun hv => (step_played hs straight hok hstep hu.1 hu.2 hv).2.1⟩)
    ⟨hw, fun _ => hs.played⟩
  have hmarked := h.good_or_marked
    (fun u => u.objects.WellFormed ∧ (p ∈ u.esdPlayersList → Played p s u))
    (fun u => p ∈ u.esdPlayersList → Surplus p s u) (TakesWhatIsThere cfg p)
    (fun u a v hu hok hstep => ⟨step_wellFormed hu.1 hstep,
      fun hv => (step_played hs straight hok hstep hu.1 hu.2 hv).2.1⟩)
    (fun u a v hu hok hbad hstep hv =>
      (step_played hs straight hok hstep hu.1 hu.2 hv).2.2.2 (.inl hbad))
    (fun u a v hu hm hok hstep hv => by
      obtain ⟨hp, -, -, hsurplus⟩ := step_played hs straight hok hstep hu.1 hu.2 hv
      exact hsurplus (.inr (hm hp)))
    ⟨hw, fun _ => hs.played⟩
  exact ⟨hboth.1, hboth.2 ht, hmarked.imp_right fun hm => hm ht⟩

theorem run_queued (hw : s.objects.WellFormed)
    (h : Runs cfg (fun s a => LeftAlone cfg p s a ∧ TakesWhatIsThere cfg p s a) s as t)
    (ht : p ∈ t.esdPlayersList) : Queued p s t := by
  have hboth := h.invariant
    (fun u => u.objects.WellFormed ∧ (p ∈ u.esdPlayersList → Played p s u ∧ Queued p s u))
    (fun u a v hu hok hstep => ⟨step_wellFormed hu.1 hstep, fun hv => by
      obtain ⟨hp, hnext, hqueue, -⟩ :=
        step_played hs straight hok.1 hstep hu.1 (fun hp => (hu.2 hp).1) hv
      exact ⟨hnext, hqueue hok.2 (hu.2 hp).2⟩⟩)
    ⟨hw, fun _ => ⟨hs.played, hs.queued⟩⟩
  exact (hboth.2 ht).2

/-- A player that is erased for having nothing to copy has played its sample, all whole frames of
it and in order, exactly if every cycle took what was there and the player is at the end of
the sample with less than a frame, the one the sample breaks off in, in its buffer. -/
theorem sample_played_to_end_iff (hw : s.objects.WellFormed)
    (h : Runs cfg (LeftAlone cfg p) s as t) (ht : p ∈ t.esdPlayersList)
    {canRead : Ptr → Bool} (hcycle : step cfg t (.mix canRead) = some u)
    (hgone : p ∉ u.esdPlayersList) :
    (usedSince p s u <+: sampleOctets s p (s.sample (s.player p).parent).sampleLength ∧
        (s.sample (s.player p).parent).sampleLength / frameOctets (s.player p) *
          frameOctets (s.player p) ≤ (usedSince p s u).length ∧
        (u.player p).actualLength < frameOctets (s.player p)) ↔
      Runs cfg (fun s a => LeftAlone cfg p s a ∧ TakesWhatIsThere cfg p s a) s as t ∧
        (t.player p).lastPos = (s.sample (s.player p).parent).sampleLength ∧
        (t.player p).actualLength ≤
          (s.sample (s.player p).parent).sampleLength % frameOctets (s.player p) := by
  obtain ⟨hwell, hplayed, hmarked⟩ := run_played hs straight hw h ht
  obtain rfl : (mixPlayers cfg canRead t).1 = u := Option.some.inj (step_eq_some hcycle).2
  have hplaying := hplayed.same.playing hs.toPlaying
  have hn : nextChunk t p ≤ 0 := by
    by_contra hn
    obtain ⟨es, hcopied⟩ := mixPlayers_copied cfg canRead hwell ht hplaying
      (by rw [hplayed.same.format]; exact straight) (not_le.mp hn) hplayed.nonneg
    exact hgone hcopied.listed
  obtain ⟨-, hplayer, bs, hstory⟩ := mixPlayers_ends cfg canRead hwell ht
    hplaying hn
  have hused : usedSince p s (mixPlayers cfg canRead t).1 = usedSince p s t := by
    rw [usedSince_append hplayed.story hstory]
    simp [usedIn, Event.usedOctets]
  have hnonneg := hplayed.nonneg
  have hle := hplayed.lastPos_le
  have hlast := hplayed.lastPos_nonneg
  have hframe := frameOctets_pos (s.player p)
  have hdiv := Int.emod_add_mul_ediv (s.sample (s.player p).parent).sampleLength
    (frameOctets (s.player p))
  have hmod := Int.emod_lt_of_pos (s.sample (s.player p).parent).sampleLength hframe.1
  rw [mul_comm] at hdiv
  rw [hused, hplayer]
  constructor
  · rintro ⟨hpre, hwhole, hrest⟩
    have hlen := hpre.length_le
    simp only [sampleOctets, load_length] at hlen
    have hbuffer := Int.le_of_dvd hs.bufferLength hs.frames
    have hend : (t.player p).lastPos = (s.sample (s.player p).parent).sampleLength := by
      rw [hplayed.same.nextChunk] at hn
      rcases min_le_iff.mp hn with hpos | hfull
      · omega
      · omega
    have hruns := hmarked.resolve_right fun hm => by
      simp only [Surplus] at hm
      omega
    have hlens := congrArg List.length (run_queued hs straight hw hruns ht)
    simp only [sampleOctets, List.length_append, held_eq, load_length] at hlens
    refine ⟨hruns, hend, ?_⟩
    omega
  · rintro ⟨hruns, hend, hrest⟩
    have hqueue := run_queued hs straight hw hruns ht
    have hlens := congrArg List.length hqueue
    simp only [sampleOctets, List.length_append, held_eq, load_length] at hlens
    refine ⟨⟨t.held p, ?_⟩, ?_, hrest.trans_lt hmod⟩
    · rw [← hend]
      exact hqueue
    · omega

end Runs

def cachingRequest (format : Word) (bs : List Octet) : List (List Octet) :=
  [Word.octets 6#32,
    Word.octets format ++ Word.octets 44100#32 ++ Word.octets (BitVec.ofNat 32 bs.length) ++
      nameArray [],
    bs]

/-- A client caches samples, at 2 and further on, and has them played, or looped, by players at
10 and further on. -/
def playingRun (format request : Word) (samples : List (List Octet)) : List Action :=
  let ids := List.range samples.length
  let requests := ids.flatMap fun i => [Word.octets request, Word.octets (BitVec.ofNat 32 (i + 1))]
  [.accept 1 5 (.sending (handshake 7 :: samples.flatMap (cachingRequest format) ++ requests)),
      .poll 1 (.allocating 0)] ++
    (ids.flatMap fun i => [.poll 1 (.allocating 0), .poll 1 (.allocating (2 + i))]) ++
    ids.flatMap fun i => [.poll 1 (.allocating 0), .poll 1 (.allocating (10 + i))]

def playFormat : Word := esdPlay ||| esdBits16 ||| esdStereo

instance (cfg : Config) (p : Ptr) (s : Server) (a : Action) : Decidable (TakesWhatIsThere cfg p s a) :=
  match a with
  | .mix canRead => inferInstanceAs (Decidable (0 ≤ share cfg canRead s p))
  | .accept .. | .poll .. | .refresh | .wake _ | .filter .. | .monitor .. | .recorder ..
  | .autostandby | .reconnect _ | .reset _ => .isTrue trivial

def mixing : Action := .mix fun _ => true

/-- Two buffers of octets. -/
def evenSample : List (List Octet) := [(List.range 32).map (BitVec.ofNat 8)]

theorem evenSample_starts :
    (exec (step .smallBlocks) NoReset .blank (playingRun playFormat 8 evenSample)).isSome := by
  decide +kernel

def evenStart : Server :=
  (exec (step .smallBlocks) NoReset .blank (playingRun playFormat 8 evenSample)).get
    evenSample_starts

theorem evenStart_wellFormed : evenStart.objects.WellFormed :=
  Run.wellFormed (Run.of_isSome evenSample_starts) Server.blank_initial.wellFormed

theorem evenStart_atStart : AtStart evenStart 10 :=
  ⟨⟨by decide +kernel, by decide +kernel⟩, by decide +kernel, by decide +kernel, by decide +kernel,
    by decide +kernel, by decide +kernel⟩

theorem evenSample_plays :
    (exec (step .smallBlocks) (fun s a => onlyMixing s a ∧ TakesWhatIsThere .smallBlocks 10 s a)
      evenStart [mixing, mixing]).isSome := by
  decide +kernel

def evenPlayed : Server :=
  (exec (step .smallBlocks) (fun s a => onlyMixing s a ∧ TakesWhatIsThere .smallBlocks 10 s a)
    evenStart [mixing, mixing]).get evenSample_plays

/-- Each of the two cycles uses what it read, and the third finds nothing to read. -/
theorem sample_played_to_end_iff_even :
    10 ∈ evenPlayed.esdPlayersList ∧
      10 ∉ (mixPlayers .smallBlocks (fun _ => true) evenPlayed).1.esdPlayersList ∧
      usedSince 10 evenStart (mixPlayers .smallBlocks (fun _ => true) evenPlayed).1 <+:
        sampleOctets evenStart 10 (evenStart.sample (evenStart.player 10).parent).sampleLength := by
  have hruns : Runs .smallBlocks
      (fun s a => LeftAlone .smallBlocks 10 s a ∧ TakesWhatIsThere .smallBlocks 10 s a)
      evenStart [mixing, mixing] evenPlayed :=
    (Run.of_isSome evenSample_plays).mono fun s a h => ⟨leftAlone_of_onlyMixing h.1, h.2⟩
  have hlisted : 10 ∈ evenPlayed.esdPlayersList := by decide +kernel
  have hgone : 10 ∉ (mixPlayers .smallBlocks (fun _ => true) evenPlayed).1.esdPlayersList := by
    decide +kernel
  have hiff := sample_played_to_end_iff evenStart_atStart
    (by decide +kernel) evenStart_wellFormed (hruns.mono fun s a h => h.1) hlisted
    (step_mix (fun _ => true) evenPlayed) hgone
  exact ⟨hlisted, hgone, (hiff.mpr ⟨hruns, by decide +kernel, by decide +kernel⟩).1⟩

/-- One buffer of octets, and half a buffer. -/
def unevenSamples : List (List Octet) := [List.replicate 16 1, List.replicate 8 2]

theorem unevenSamples_start :
    (exec (step .smallBlocks) NoReset .blank (playingRun playFormat 8 unevenSamples)).isSome := by
  decide +kernel

def unevenStart : Server :=
  (exec (step .smallBlocks) NoReset .blank (playingRun playFormat 8 unevenSamples)).get
    unevenSamples_start

theorem unevenSamples_play :
    (exec (step .smallBlocks) onlyMixing unevenStart [mixing]).isSome := by
  decide +kernel

/-- The shorter sample decides how much is mixed; the longer one is erased with two frames still
in its buffer. -/
theorem sample_cut_short :
    AtStart unevenStart 10 ∧
      (unevenStart.sample (unevenStart.player 10).parent).format &&& esdMaskFunc = esdPlay ∧
      ∃ t u, Runs .smallBlocks onlyMixing unevenStart [mixing] t ∧ 10 ∈ t.esdPlayersList ∧
        step .smallBlocks t mixing = some u ∧ 10 ∉ u.esdPlayersList ∧
        frameOctets (unevenStart.player 10) = 4 ∧ (u.player 10).actualLength = 8 ∧
        (unevenStart.sample (unevenStart.player 10).parent).sampleLength = 16 ∧
        (usedSince 10 unevenStart u).length = 8 :=
  ⟨⟨⟨by decide +kernel, by decide +kernel⟩, by decide +kernel, by decide +kernel, by decide +kernel,
    by decide +kernel, by decide +kernel⟩, by decide +kernel, _, _,
    Run.of_isSome unevenSamples_play, by decide +kernel, step_mix (fun _ => true) _,
    by decide +kernel, by decide +kernel, by decide +kernel, by decide +kernel, by decide +kernel⟩

end Esound
