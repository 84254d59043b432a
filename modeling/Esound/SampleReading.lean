import Esound.Looping

/-!
# Filling a player from its sample

The loop of `read_player` for samples comes to its end, and every block it copies lies within the
sample and within the buffer of the player.
-/

open Library.Buffer Library.Loop

namespace Esound

/-- A `memcpy` from the octets of a sample to those of a player. -/
structure SampleCopy where
  src : ℤ
  dst : ℤ
  length : ℤ
  deriving DecidableEq

def SampleCopy.run (sampleData data : Mem) (k : SampleCopy) : Mem :=
  store data k.dst (load sampleData k.src k.length.toNat)

/-- It copies something, from the sample and into the buffer. -/
structure SampleCopy.Within (sm : EsdSample) (pl : EsdPlayer) (k : SampleCopy) : Prop where
  positive : 0 < k.length
  src : 0 ≤ k.src ∧ k.src + k.length ≤ sm.sampleLength
  dst : 0 ≤ k.dst ∧ k.dst + k.length ≤ pl.bufferLength

def nextCopy (sm : EsdSample) (pl : EsdPlayer) : SampleCopy :=
  ⟨pl.lastPos, pl.actualLength, sampleChunk sm pl⟩

/-- The state in which the loop is entered, if it is. -/
def loopEntry (s : Server) (p : Ptr) : Option SampleRead :=
  let pl := s.player p
  let sm := s.sample pl.parent
  let r := copyChunk (s.sampleData pl.parent) (sampleChunk sm pl) ⟨pl, s.playerData p, 0, true⟩
  if pl.lastPos = 0 ∧ sm.format &&& esdMaskFunc = esdStop ∨ ¬ sampleChunk sm pl > 0 ∨
      r.pl.actualLength = r.pl.bufferLength ∨ pl.format &&& esdMaskFunc ≠ esdLoop then none
  else some r

/-- What one round of the loop copies. -/
def roundCopies (sm : EsdSample) (r : SampleRead) : List SampleCopy :=
  let r := wrapChunk sm r
  if r.going ∧ sampleChunk sm r.pl > 0 then [nextCopy sm r.pl] else []

def loopCopies (sm : EsdSample) (sampleData : Mem) : ℕ → SampleRead → List SampleCopy
  | 0, _ => []
  | n + 1, r =>
    match loopRound sm sampleData r with
    | none => []
    | some r' => roundCopies sm r ++ loopCopies sm sampleData n r'

/-- The blocks that `read_player` copies, in their order. -/
def sampleCopies (s : Server) (p : Ptr) : List SampleCopy :=
  let pl := s.player p
  let sm := s.sample pl.parent
  if pl.lastPos = 0 ∧ sm.format &&& esdMaskFunc = esdStop then []
  else if sampleChunk sm pl > 0 then
    nextCopy sm pl :: match loopEntry s p with
      | none => []
      | some r => loopCopies sm (s.sampleData pl.parent)
          ((r.pl.bufferLength - r.pl.actualLength).toNat + 1) r
  else []

/-! ## Rounds -/

section Rounds

variable {sm : EsdSample} {m : Mem} {pl : EsdPlayer} {r r' : SampleRead}

/-- What holds of the player while it is filled from the sample. -/
structure Filling (sm : EsdSample) (pl : EsdPlayer) (r : SampleRead) : Prop where
  bounds : r.pl.InBounds
  position : 0 ≤ r.pl.lastPos ∧ r.pl.lastPos ≤ sm.sampleLength
  buffer : r.pl.bufferLength = pl.bufferLength
  grown : r.actual = r.pl.actualLength - pl.actualLength

theorem Filling.wrapChunk (h : Filling sm pl r) (hpos : 0 < sm.sampleLength) :
    Filling sm pl (wrapChunk sm r) ∧ (Esound.wrapChunk sm r).pl.lastPos < sm.sampleLength := by
  simp only [Esound.wrapChunk]
  split_ifs with hend
  · exact ⟨⟨⟨h.bounds.nonneg, h.bounds.le_bufferLength⟩, ⟨le_rfl, hpos.le⟩, h.buffer, h.grown⟩, hpos⟩
  · exact ⟨h, not_le.mp hend⟩

theorem Filling.nextCopy_within (h : Filling sm pl r) (hn : 0 < sampleChunk sm r.pl) :
    (nextCopy sm r.pl).Within sm pl := by
  have hsample : sampleChunk sm r.pl ≤ sm.sampleLength - r.pl.lastPos := min_le_left _ _
  have hbuffer : sampleChunk sm r.pl ≤ r.pl.bufferLength - r.pl.actualLength := min_le_right _ _
  have hsize := h.buffer
  refine ⟨hn, ⟨h.position.1, ?_⟩, h.bounds.nonneg, ?_⟩
  · simp only [nextCopy]
    omega
  · simp only [nextCopy]
    omega

theorem Filling.copyChunk (h : Filling sm pl r) (hn : 0 < sampleChunk sm r.pl) :
    Filling sm pl (copyChunk m (sampleChunk sm r.pl) r) := by
  have hwithin := (h.nextCopy_within hn).src
  have hgrown := h.grown
  refine ⟨copyChunk_inBounds hn h.bounds, ⟨?_, hwithin.2⟩, h.buffer, ?_⟩
  · exact add_nonneg h.position.1 hn.le
  · simp only [Esound.copyChunk]
    omega

/-- A round stops, or copies a block; if the sample is empty it may also do nothing. -/
inductive RoundDoes (sm : EsdSample) (m : Mem) (r : SampleRead) : SampleRead → Prop
  | stops (stop : (wrapChunk sm r).going = false) (none : roundCopies sm r = []) :
      RoundDoes sm m r (wrapChunk sm r)
  | copies (going : (wrapChunk sm r).going = true) (positive : 0 < sampleChunk sm (wrapChunk sm r).pl)
      (one : roundCopies sm r = [nextCopy sm (wrapChunk sm r).pl]) :
      RoundDoes sm m r (wrapChunk sm (copyChunk m (sampleChunk sm (wrapChunk sm r).pl) (wrapChunk sm r)))
  | idles (going : (wrapChunk sm r).going = true) (empty : ¬ 0 < sampleChunk sm (wrapChunk sm r).pl)
      (none : roundCopies sm r = []) : RoundDoes sm m r (wrapChunk sm r)

theorem loopRound_does (h : loopRound sm m r = some r') :
    RoundDoes sm m r r' ∧ r.going = true ∧ r.pl.actualLength < r.pl.bufferLength := by
  simp only [loopRound] at h
  split_ifs at h with henter hgoing hn
  · cases h
    exact ⟨.copies hgoing hn (by simp [roundCopies, hgoing, hn]), henter⟩
  · cases h
    exact ⟨.idles hgoing hn (by simp [roundCopies, hn]), henter⟩
  · cases h
    have hstop : (wrapChunk sm r).going = false := Bool.eq_false_of_not_eq_true hgoing
    exact ⟨.stops hstop (by simp [roundCopies, hstop]), henter⟩

/-- The rounds that are left, at most. -/
def SampleRead.left (r : SampleRead) : ℕ :=
  (r.pl.bufferLength - r.pl.actualLength).toNat + if r.going then 1 else 0

theorem wrapChunk_left (hgoing : r.going = true) : (wrapChunk sm r).left ≤ r.left := by
  simp only [wrapChunk]
  split_ifs
  · simp only [SampleRead.left, hgoing, if_true]
    split_ifs <;> omega
  · exact le_rfl

theorem copyChunk_left {n : ℤ} (hn : 0 < n) (hfits : n ≤ r.pl.bufferLength - r.pl.actualLength) :
    (copyChunk m n r).left < r.left := by
  have hless : (r.pl.bufferLength - (r.pl.actualLength + n)).toNat <
      (r.pl.bufferLength - r.pl.actualLength).toNat := by omega
  exact Nat.add_lt_add_right hless _

theorem Filling.round (h : Filling sm pl r) (hpos : 0 < sm.sampleLength)
    (hround : loopRound sm m r = some r') :
    Filling sm pl r' ∧ r'.left < r.left ∧ ∀ k ∈ roundCopies sm r, k.Within sm pl := by
  obtain ⟨hdoes, hgoing, hroom⟩ := loopRound_does hround
  obtain ⟨hwrap, hlt⟩ := h.wrapChunk hpos
  have hleft : (Esound.wrapChunk sm r).left ≤ r.left := wrapChunk_left hgoing
  have hsame : (Esound.wrapChunk sm r).pl.actualLength = r.pl.actualLength ∧
      (Esound.wrapChunk sm r).pl.bufferLength = r.pl.bufferLength := by
    simp only [Esound.wrapChunk]
    split_ifs <;> exact ⟨rfl, rfl⟩
  have hchunk : 0 < sampleChunk sm (Esound.wrapChunk sm r).pl := by
    simp only [sampleChunk, hsame.1, hsame.2, lt_min_iff]
    omega
  cases hdoes with
  | stops stop none =>
    refine ⟨hwrap, ?_, by simp [none]⟩
    simp only [SampleRead.left, hsame, stop, hgoing, Bool.false_eq_true, if_false, if_true]
    omega
  | copies going positive one =>
    rw [one, List.forall_mem_singleton]
    generalize Esound.wrapChunk sm r = w at hwrap hleft going positive ⊢
    have hfits : sampleChunk sm w.pl ≤ w.pl.bufferLength - w.pl.actualLength := min_le_right _ _
    have hcopy : (Esound.copyChunk m (sampleChunk sm w.pl) w).left < w.left :=
      copyChunk_left positive hfits
    have hcopied : Filling sm pl (Esound.copyChunk m (sampleChunk sm w.pl) w) := hwrap.copyChunk positive
    have hwithin : (nextCopy sm w.pl).Within sm pl := hwrap.nextCopy_within positive
    obtain ⟨v, hv⟩ : ∃ v, v = Esound.copyChunk m (sampleChunk sm w.pl) w := ⟨_, rfl⟩
    have hgoing' : v.going = true := by
      rw [hv]
      exact going
    rw [← hv] at hcopy hcopied ⊢
    have hagain : (Esound.wrapChunk sm v).left ≤ v.left := wrapChunk_left hgoing'
    exact ⟨(hcopied.wrapChunk hpos).1, by omega, hwithin⟩
  | idles going empty none => exact absurd hchunk empty

theorem loopRound_data (h : loopRound sm m r = some r') :
    r'.data = (roundCopies sm r).foldl (SampleCopy.run m) r.data := by
  have hwrap : ∀ r, (wrapChunk sm r).data = r.data := by
    intro r
    simp only [wrapChunk]
    split_ifs <;> rfl
  cases (loopRound_does h).1 with
  | stops stop none =>
    rw [none, hwrap]
    rfl
  | copies going positive one =>
    rw [one, hwrap]
    simp only [copyChunk, hwrap, List.foldl_cons, List.foldl_nil, SampleCopy.run, nextCopy]
  | idles going empty none =>
    rw [none, hwrap]
    rfl

theorem whileFuel_data (n : ℕ) (r : SampleRead) :
    (whileFuel (loopRound sm m) n r).data = (loopCopies sm m n r).foldl (SampleCopy.run m) r.data := by
  induction n generalizing r with
  | zero => rfl
  | succ n ih =>
    simp only [whileFuel, loopCopies]
    cases hround : loopRound sm m r with
    | none => rfl
    | some r' =>
      dsimp only
      rw [ih, List.foldl_append, loopRound_data hround]

theorem Filling.loop (h : Filling sm pl r) (hpos : 0 < sm.sampleLength) (n : ℕ) :
    Filling sm pl (whileFuel (loopRound sm m) n r) ∧ ∀ k ∈ loopCopies sm m n r, k.Within sm pl := by
  induction n generalizing r with
  | zero => exact ⟨h, by simp [loopCopies]⟩
  | succ n ih =>
    simp only [whileFuel, loopCopies]
    cases hround : loopRound sm m r with
    | none => exact ⟨h, by simp⟩
    | some r' =>
      obtain ⟨hone, -, hcopies⟩ := h.round hpos hround
      obtain ⟨hrest, hmore⟩ := ih hone
      exact ⟨hrest, List.forall_mem_append.mpr ⟨hcopies, hmore⟩⟩

theorem Filling.ends (h : Filling sm pl r) (hpos : 0 < sm.sampleLength) {n : ℕ} (hn : r.left ≤ n) :
    loopRound sm m (whileFuel (loopRound sm m) n r) = none :=
  whileFuel_exits (Filling sm pl) SampleRead.left (fun _ _ hr hround => (hr.round hpos hround).1)
    (fun _ _ hr hround => (hr.round hpos hround).2.1) n h hn

end Rounds

/-! ## The whole read -/

section Read

variable {s : Server} {p : Ptr}

/-- The first block, before the loop. -/
def firstRead (s : Server) (p : Ptr) : SampleRead :=
  copyChunk (s.sampleData (s.player p).parent) (sampleChunk (s.sample (s.player p).parent) (s.player p))
    ⟨s.player p, s.playerData p, 0, true⟩

/-- The loop, where it is entered. -/
def lastRead (s : Server) (p : Ptr) : SampleRead :=
  (loopEntry s p).elim (firstRead s p) fun r =>
    whileFuel (loopRound (s.sample (s.player p).parent) (s.sampleData (s.player p).parent))
      ((r.pl.bufferLength - r.pl.actualLength).toNat + 1) r

/-- There is nothing to copy, or it is to stop. -/
def NothingRead (s : Server) (p : Ptr) : Prop :=
  (s.player p).lastPos = 0 ∧ (s.sample (s.player p).parent).format &&& esdMaskFunc = esdStop ∨
    ¬ sampleChunk (s.sample (s.player p).parent) (s.player p) > 0

theorem readSamplePlayer_nothing (h : NothingRead s p) :
    readSamplePlayer s p = (s, -1) ∧ loopEntry s p = none ∧ sampleCopies s p = [] := by
  simp only [readSamplePlayer, loopEntry, sampleCopies]
  rcases h with hstop | hnone
  · simp [hstop]
  · simp [hnone]

theorem readSamplePlayer_something (h : ¬ NothingRead s p) :
    readSamplePlayer s p =
        ((s.setPlayerData p (lastRead s p).data).setPlayer p (lastRead s p).pl, (lastRead s p).actual) ∧
      (∀ r, loopEntry s p = some r → r = firstRead s p) ∧
      sampleCopies s p = nextCopy (s.sample (s.player p).parent) (s.player p) ::
        (loopEntry s p).elim [] fun r => loopCopies (s.sample (s.player p).parent)
          (s.sampleData (s.player p).parent) ((r.pl.bufferLength - r.pl.actualLength).toNat + 1) r := by
  simp only [NothingRead, not_or, not_not] at h
  obtain ⟨hgoes, hn⟩ := h
  have hentry : loopEntry s p =
      if (firstRead s p).pl.actualLength = (firstRead s p).pl.bufferLength ∨
        (s.player p).format &&& esdMaskFunc ≠ esdLoop then none else some (firstRead s p) := by
    simp only [loopEntry, hgoes, hn, not_true, false_or]
    rfl
  have hfill : fillFromSample (s.sample (s.player p).parent) (s.sampleData (s.player p).parent)
      (s.player p) (s.playerData p) = lastRead s p := by
    simp only [lastRead, hentry]
    split_ifs with hfull
    · exact if_pos hfull
    · exact if_neg hfull
  refine ⟨?_, fun r hr => ?_, ?_⟩
  · simp only [readSamplePlayer, hgoes, hn, if_false, if_true, hfill]
  · rw [hentry] at hr
    split_ifs at hr
    exact (Option.some.inj hr).symm
  · simp only [sampleCopies, hgoes, hn, if_false, if_true]
    cases loopEntry s p <;> rfl

/-- The read comes to its end, leaves what it found in bounds, copies within the sample and within
the buffer, and returns by how much it has filled the buffer. -/
theorem sample_read_bounded (canRead : Bool) (hmode : (s.player p).IsSample)
    (hbounds : (s.player p).InBounds)
    (hposition : 0 ≤ (s.player p).lastPos ∧
      (s.player p).lastPos ≤ (s.sample (s.player p).parent).sampleLength) :
    (∀ r, loopEntry s p = some r → ∃ n ≤ (r.pl.bufferLength - r.pl.actualLength).toNat + 1,
      loopRound (s.sample (s.player p).parent) (s.sampleData (s.player p).parent)
        (whileFuel (loopRound (s.sample (s.player p).parent) (s.sampleData (s.player p).parent)) n r) =
          none) ∧
      ((readPlayer canRead s p).1.player p).InBounds ∧
      (0 ≤ ((readPlayer canRead s p).1.player p).lastPos ∧
        ((readPlayer canRead s p).1.player p).lastPos ≤ (s.sample (s.player p).parent).sampleLength) ∧
      (∀ k ∈ sampleCopies s p, k.Within (s.sample (s.player p).parent) (s.player p)) ∧
      (readPlayer canRead s p).1.playerData p =
        (sampleCopies s p).foldl (SampleCopy.run (s.sampleData (s.player p).parent)) (s.playerData p) ∧
      (0 < (readPlayer canRead s p).2 → (readPlayer canRead s p).2 =
        ((readPlayer canRead s p).1.player p).actualLength - (s.player p).actualLength) := by
  have hstream : ¬ (s.player p).IsStream := by
    simp only [EsdPlayer.IsStream, EsdPlayer.IsSample] at hmode ⊢
    rw [hmode]
    decide
  have hread : readPlayer canRead s p = readSamplePlayer s p := by
    simp only [readPlayer, hstream, hmode, if_true, if_false]
  rw [hread]
  by_cases hnothing : NothingRead s p
  · obtain ⟨hsame, hentry, hcopies⟩ := readSamplePlayer_nothing hnothing
    rw [hsame, hentry, hcopies]
    exact ⟨by simp, hbounds, hposition, by simp, rfl, by norm_num⟩
  obtain ⟨hresult, hfirst, hcopies⟩ := readSamplePlayer_something hnothing
  simp only [NothingRead, not_or, not_not] at hnothing
  have hstart : Filling (s.sample (s.player p).parent) (s.player p) ⟨s.player p, s.playerData p, 0, true⟩ :=
    ⟨hbounds, hposition, rfl, (sub_self _).symm⟩
  have hone : Filling (s.sample (s.player p).parent) (s.player p) (firstRead s p) :=
    hstart.copyChunk hnothing.2
  have hpos : 0 < (s.sample (s.player p).parent).sampleLength := by
    have hle : sampleChunk (s.sample (s.player p).parent) (s.player p) ≤ _ := min_le_left _ _
    omega
  have hdata : (firstRead s p).data = SampleCopy.run (s.sampleData (s.player p).parent) (s.playerData p)
      (nextCopy (s.sample (s.player p).parent) (s.player p)) := rfl
  rw [hcopies, hresult]
  obtain ⟨hlast, hwithin, hstored⟩ : Filling (s.sample (s.player p).parent) (s.player p) (lastRead s p) ∧
      (∀ k ∈ (loopEntry s p).elim [] fun r => loopCopies (s.sample (s.player p).parent)
        (s.sampleData (s.player p).parent) ((r.pl.bufferLength - r.pl.actualLength).toNat + 1) r,
        k.Within (s.sample (s.player p).parent) (s.player p)) ∧
      (lastRead s p).data = ((loopEntry s p).elim [] fun r => loopCopies (s.sample (s.player p).parent)
        (s.sampleData (s.player p).parent) ((r.pl.bufferLength - r.pl.actualLength).toNat + 1) r).foldl
          (SampleCopy.run (s.sampleData (s.player p).parent)) (firstRead s p).data := by
    simp only [lastRead]
    cases hentry : loopEntry s p with
    | none => exact ⟨hone, by simp, rfl⟩
    | some r =>
      obtain rfl := hfirst r hentry
      obtain ⟨hloop, hall⟩ := hone.loop hpos
        (((firstRead s p).pl.bufferLength - (firstRead s p).pl.actualLength).toNat + 1)
      exact ⟨hloop, hall, whileFuel_data _ _⟩
  refine ⟨fun r hr => ⟨_, le_rfl, ?_⟩, ?_, ?_, ?_, ?_, fun _ => ?_⟩
  · obtain rfl := hfirst r hr
    exact hone.ends hpos le_rfl
  · simpa [Server.setPlayer] using hlast.bounds
  · simpa [Server.setPlayer] using hlast.position
  · exact List.forall_mem_cons.mpr ⟨hstart.nextCopy_within hnothing.2, hwithin⟩
  · rw [List.foldl_cons, ← hdata, ← hstored]
    simp [Server.setPlayer, Server.setPlayerData]
  · rw [hlast.grown]
    simp [Server.setPlayer]

/-- A sample of 12 octets goes around in a buffer of 16. -/
theorem sample_read_bounded_short :
    sampleCopies shortLoop 10 = [⟨0, 0, 12⟩, ⟨0, 12, 4⟩] ∧
      ∀ k ∈ sampleCopies shortLoop 10, k.Within (shortLoop.sample (shortLoop.player 10).parent)
        (shortLoop.player 10) :=
  ⟨by decide +kernel, (sample_read_bounded true (by decide +kernel)
    ⟨by decide +kernel, by decide +kernel⟩ ⟨by decide +kernel, by decide +kernel⟩).2.2.2.1⟩

end Read

end Esound
