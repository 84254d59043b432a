import Esound.BitExact
import Esound.Bounds
import Esound.FreshAudio
import Esound.Idle
import Esound.Interrupts

/-!
# The daemon as a pipe

One stream that sounds as a device of 16 bits does, and nothing beside it: what the stream sends
comes out of the device octet by octet, from one pass of the loop to the next.
-/

open Library.Buffer Library.Fifo Library.Least Library.Loop Library.Resampling Library.Transition

namespace Esound

/-! ## A cycle of one stream -/

section Reading

variable {s : Server} {p : Ptr}

theorem readStream_used (canRead : Bool) :
    usedIn ((readStream canRead s p).1.story p) = usedIn (s.story p) := by
  have hheard : usedIn ((hearStream s p).1.story p) = usedIn (s.story p) := by
    rw [hearStream_story, usedIn_append]
    exact List.append_nil _
  simp only [readStream]
  split_ifs
  · exact hheard
  · exact hheard
  · exact hheard
  · rfl

theorem eraseFrom_used (l : PlayerList) (p : Ptr) :
    usedIn ((eraseFrom s l p).story p) = usedIn (s.story p) := by
  unfold eraseFrom
  split_ifs
  · obtain ⟨t, bs, hspares, hfree⟩ := freePlayer_account p (s.setList l ((s.list l).erase p)) p
    have hstory := ((setList_spares l ((s.list l).erase p)).trans hspares).story
    rw [hfree, Server.story_emit rfl, usedIn_append, hstory]
    exact List.append_nil _
  · rfl

end Reading

section Mixing

variable {cfg : Config} {s : Server} {p : Ptr}

theorem consume_heard (used : ℤ) : heardIn ((consume s p used).story p) = heardIn (s.story p) := by
  simp only [consume]
  split_ifs <;>
    · rw [Server.story_emit rfl, heardIn_append]
      exact List.append_nil _

/-- The mixing half hears nothing of the player. -/
theorem mixAll_heard (hplayers : ∀ q ∈ s.esdPlayersList, q = p) (least : ℤ) :
    heardIn ((mixAll cfg least s).1.story p) = heardIn (s.story p) := by
  refine foldl_invariant (fun a : Server × ℤ => heardIn (a.1.story p) = heardIn (s.story p)) _ _
    (fun a q hq ha => ?_) rfl
  rw [hplayers q hq, ← ha]
  simp only [mixOne]
  split
  · rfl
  · split_ifs
    · exact consume_heard _
    · rfl

theorem clipMix_story (most : ℤ) : (clipMix s most).1.story p = s.story p := by
  simp only [clipMix]
  split_ifs <;> rfl

theorem mixPlayers_heard {canRead : Ptr → Bool}
    (hplayers : ∀ q ∈ (mixRead cfg canRead s).1.esdPlayersList, q = p) :
    heardIn ((mixPlayers cfg canRead s).1.story p) = heardIn ((mixRead cfg canRead s).1.story p) := by
  simp only [mixPlayers]
  split_ifs
  · rw [clipMix_story, mixAll_heard hplayers]
  · rfl

end Mixing

section Alone

variable {cfg : Config} {canRead : Ptr → Bool} {s : Server} {p : Ptr}

theorem Alone.mixRead_eq (h : Alone cfg s p) : mixRead cfg canRead s =
    mixReadOne cfg canRead cfg.esdBufSizeOctets (clearMix cfg s, 0) p := by
  rw [mixRead, h.players]
  rfl

variable (canRead) in
theorem Alone.mixRead_used (h : Alone cfg s p) :
    usedIn ((mixRead cfg canRead s).1.story p) = usedIn (s.story p) := by
  have hread : readPlayer (canRead p) (clearMix cfg s) p = readStream (canRead p) (clearMix cfg s) p :=
    if_pos h.mode
  have hused : usedIn ((readStream (canRead p) (clearMix cfg s) p).1.story p) = usedIn (s.story p) :=
    readStream_used (canRead p)
  rw [h.mixRead_eq, mixReadOne_eq]
  dsimp only
  split_ifs
  · rw [erasePlayer, eraseFrom_used, hread, hused]
  · rw [hread, hused]

variable (canRead) in
/-- What the reading half leaves of the daemon. -/
theorem Alone.mixRead_leaves (h : Alone cfg s p) :
    (mixRead cfg canRead s).1.esdPlayersList =
        (if 0 ≤ (readTurn canRead s p).actual then [p] else []) ∧
      (mixRead cfg canRead s).1.player p = (readTurn canRead s p).pl ∧
      (mixRead cfg canRead s).1.playerData p = (readTurn canRead s p).data ∧
      (mixRead cfg canRead s).2 =
        if (readTurn canRead s p).Compared then fills cfg canRead s p else 0 := by
  have hperm : [p].Perm s.esdPlayersList := by rw [h.players]
  obtain ⟨hleast, -, hlist, hturn⟩ := mixRead_reordered cfg canRead hperm (by simp [h.players]) h.apart
  have hsame : s.reordered [p] = s := by
    rw [← h.players]
    rfl
  rw [hsame] at hleast hlist hturn
  obtain ⟨hplayer, hdata⟩ := hturn p (List.mem_singleton_self p)
  refine ⟨hlist.trans ?_, hplayer, hdata, hleast.trans ?_⟩
  · split_ifs with hstays <;> simp [hstays]
  · by_cases hcompared : (readTurn canRead s p).Compared <;> simp [leastIn, leastOf, hcompared]

/-- A stream that is read whole has its buffer full after the read, or empty as before. -/
theorem readTurn_whole (hmode : (s.player p).IsStream) (empty : (s.player p).actualLength = 0)
    (whole : WholeRead (canRead p) s p) :
    (readTurn canRead s p).pl.actualLength = 0 ∨
      (readTurn canRead s p).HasData ∧
        (readTurn canRead s p).pl.actualLength = (s.player p).bufferLength := by
  simp only [readTurn, readPlayer, hmode, if_true, readStream, ReadTurn.HasData]
  split_ifs with hread hangup hshort
  · exact .inl empty
  · exact .inl empty
  · have hfull := (whole hread.1 hread.2).resolve_right (by omega)
    right
    simp only [Server.player_setPlayer, Function.update_self]
    omega
  · exact .inl empty

theorem mixAll_idle {u : Server} (hplayers : ∀ q ∈ u.esdPlayersList, q = p)
    (hempty : (u.player p).actualLength = 0) (least : ℤ) :
    (mixAll cfg least u).1.player p = u.player p := by
  refine foldl_invariant (fun a : Server × ℤ => a.1.player p = u.player p) _ _ (fun a q hq ha => ?_) rfl
  have hnone : ¬ 0 < (a.1.player p).actualLength := by rw [ha, hempty]; exact lt_irrefl 0
  rw [hplayers q hq]
  simp only [mixOne]
  split
  · exact ha
  · rw [if_neg hnone]
    exact ha

theorem clipMix_player (most : ℤ) : (clipMix s most).1.player = s.player := by
  simp only [clipMix]
  split_ifs <;> rfl

theorem Alone.mixPlayers_idles (h : Alone cfg s p)
    (hnone : (readTurn canRead s p).pl.actualLength = 0) :
    ((mixPlayers cfg canRead s).1.player p).actualLength = 0 := by
  obtain ⟨hlist, hplayer, -, -⟩ := h.mixRead_leaves canRead
  have hplayers : ∀ q ∈ (mixRead cfg canRead s).1.esdPlayersList, q = p := by
    rw [hlist]
    split_ifs <;> simp
  have hempty : ((mixRead cfg canRead s).1.player p).actualLength = 0 := by rw [hplayer, hnone]
  simp only [mixPlayers]
  split_ifs
  · rw [clipMix_player, mixAll_idle hplayers hempty, hempty]
  · exact hempty

end Alone

/-! ## A whole block -/

section Block

variable {cfg : Config} {canRead : Ptr → Bool} {s t : Server} {p : Ptr} {pl : EsdPlayer}

/-- The block of a player that sounds as the device does is no longer than the one of the daemon,
and its frames can be counted in ints. -/
theorem EsdPlayer.Sized.own (sized : pl.Sized cfg) (rate : pl.rate = cfg.esdAudioRate)
    (bits : pl.format &&& esdMaskBits = esdBits16) (chan : pl.format &&& esdMaskChan = esdStereo) :
    pl.bufferLength = 4 * pl.blockFrames ∧ 4 * pl.blockFrames ≤ cfg.esdBufSizeOctets ∧
      2 * pl.blockFrames * cfg.esdAudioRate < 2 ^ 31 := by
  have hwidth : (esdBits16 : Word) ≠ esdBits8 := by decide
  have hchan : (esdStereo : Word) ≠ esdMono := by decide
  have hbuffer : pl.bufferLength = 4 * pl.blockFrames := by
    have hframes := sized.buffer
    simp only [formatOctets, bits, chan, hwidth, hchan, if_false] at hframes
    exact_mod_cast hframes
  refine ⟨hbuffer, ?_, sized.fits⟩
  have hpos : (0 : ℤ) < cfg.esdAudioRate := Int.natCast_pos.mpr cfg.audioRate_pos
  obtain ⟨x, hx⟩ : ∃ x : ℤ, (cfg.esdBufSizeOctets : ℤ) * cfg.esdAudioRate = x := ⟨_, rfl⟩
  have hle : (int32 x).tdiv cfg.esdAudioRate ≤ cfg.esdBufSizeOctets := by
    have hnonneg : 0 ≤ x := by
      rw [← hx]
      exact mul_nonneg (Int.natCast_nonneg _) hpos.le
    have hmod := int32_emod x
    have hrange := int32_range x
    have hdiv := Int.tdiv_le_tdiv hpos (show int32 x ≤ x by omega)
    rwa [← hx, Int.mul_tdiv_cancel _ hpos.ne', hx] at hdiv
  have hlength := sized.length
  simp only [Esound.bufferLength, bits, chan, hwidth, hchan, if_false, rate, hx] at hlength
  generalize (int32 x).tdiv cfg.esdAudioRate = len at hle hlength
  have hwhole := tdiv_le_max len (show (0 : ℤ) < 4 by norm_num)
  have hsum := Int.mul_tdiv_add_tmod len 4
  omega

theorem EsdPlayer.SameKind.sized {v w : EsdPlayer} (h : v.SameKind w) (hw : w.Sized cfg) :
    v.Sized cfg := by
  have hbits : v.format &&& esdMaskBits = w.format &&& esdMaskBits := h.and_mask (by decide)
  have hchan : v.format &&& esdMaskChan = w.format &&& esdMaskChan := h.and_mask (by decide)
  refine ⟨?_, ?_, h.bufferLength ▸ hw.nonneg⟩
  · simp only [KnownBits, hbits]
    exact hw.bits
  · rw [h.bufferLength, hw.length]
    simp only [Esound.bufferLength, h.rate, hbits, hchan]

/-- The cycle plays one stream, on a device of 16 bits, and loses nothing of it. -/
structure Solo (cfg : Config) (canRead : Ptr → Bool) (s : Server) (p : Ptr) : Prop where
  alone : Alone cfg s p
  shorts : s.esdAudioFormat &&& esdMaskBits = esdBits16
  keeps : MixKeeps cfg canRead s p

theorem Solo.whole (h : Solo cfg canRead s p) : WholeRead (canRead p) s p := by
  have hwhole := h.keeps.whole
  have hfirst : mixTurn cfg canRead s p = clearMix cfg s := by
    simp [mixTurn, h.alone.players]
  rw [hfirst] at hwhole
  exact hwhole

/-- A cycle hears of the stream what the mixing half is then to mix. -/
theorem Solo.mixPlayers_heard (h : Solo cfg canRead s p) (hw : s.objects.WellFormed)
    (empty : (s.player p).actualLength = 0) :
    heardIn ((mixPlayers cfg canRead s).1.story p) = heardIn (s.story p) ++
      load (readTurn canRead s p).data 0 (readTurn canRead s p).pl.actualLength.toNat := by
  obtain ⟨hlist, hplayer, hdata, -⟩ := h.alone.mixRead_leaves canRead
  have hplayers : ∀ q ∈ (mixRead cfg canRead s).1.esdPlayersList, q = p := by
    rw [hlist]
    split_ifs <;> simp
  have hlisted : p ∈ s.esdPlayersList := by simp [h.alone.players]
  have hfilled : (s.player p).Filled := ⟨empty.ge, fun hpos => absurd empty hpos.ne'⟩
  obtain ⟨hkept, -⟩ := mixRead_kept (hw.lists_nodup .players) hlisted h.alone.mode hfilled h.keeps
  obtain ⟨es, hstory, hmoves⟩ := hkept.flows
  have hused : usedIn es = [] := by
    have hsame := h.alone.mixRead_used canRead
    rw [hstory, usedIn_append] at hsame
    exact List.append_right_eq_self.mp hsame
  have hheld : s.held p = [] := by
    rw [held_eq, empty]
    rfl
  have hheard : heardIn es = (mixRead cfg canRead s).1.held p := by
    have hall : s.held p ++ heardIn es = usedIn es ++ (mixRead cfg canRead s).1.held p := hmoves
    rwa [hheld, hused] at hall
  rw [Esound.mixPlayers_heard hplayers, hstory, heardIn_append, hheard, held_eq, hplayer, hdata]

theorem Solo.frameOctets_eq (h : Solo cfg canRead s p) : frameOctets (s.player p) = 4 := by
  rw [h.alone.frameOctets_eq, esdSampleSize, if_pos h.shorts]
  norm_num

/-- The block that was read comes out, and nothing of it stays in the buffer. -/
theorem Solo.plays {n : ℕ} (h : Solo cfg canRead s p) (hdata : (readTurn canRead s p).HasData)
    (hfull : (readTurn canRead s p).pl.actualLength = 4 * n) (hroom : 4 * n ≤ cfg.esdBufSizeOctets)
    (hfits : 2 * n * cfg.esdAudioRate < 2 ^ 31) (hblock : cfg.esdBufSizeOctets < 2 ^ 31)
    (hsamples : cfg.esdBufSizeOctets ≤ 2 * cfg.esdBufSizeSamples) :
    load (mixPlayers cfg canRead s).1.outputBuffer 0 (mixPlayers cfg canRead s).2.toNat =
        load (readTurn canRead s p).data 0 (4 * n) ∧
      (mixPlayers cfg canRead s).1.held p = [] := by
  have hn : 0 < n := by
    have hpos := hdata.2
    omega
  have hrate : cfg.esdAudioRate ≤ n * cfg.esdAudioRate := Nat.le_mul_of_pos_left _ hn
  have htwice : 2 * n * cfg.esdAudioRate = n * cfg.esdAudioRate + n * cfg.esdAudioRate := by ring
  obtain ⟨al, hpl⟩ := readTurn_stream canRead h.alone.mode
  have hframe : frameOctets (readTurn canRead s p).pl = 4 := by
    rw [hpl]
    exact h.frameOctets_eq
  have hfills : fills cfg canRead s p = 4 * n :=
    (translated_own (by rw [hpl]; exact h.alone.rate) (by omega) (by rw [hfull, hframe]) hn
      (by exact_mod_cast hroom) (by exact_mod_cast hblock)).2.mpr (by omega)
  constructor
  · have hcycle := mixPlayers_alone h.alone hdata
    have hentry : soundEntry s.esdAudioFormat (readTurn canRead s p).data =
        fun i : ℕ => (readTurn canRead s p).data.short i := by
      funext i
      rw [soundEntry, if_pos h.shorts]
    have hclear : ∀ i < 2 * n, (clearMix cfg s).mixedBuffer i = 0 := by
      intro i hi
      have hin : i < cfg.esdBufSizeSamples := by omega
      simp [clearMix, hin]
    have hdouble : 2 * ((2 * n : ℕ) : ℤ) = 4 * n := by
      push_cast
      ring
    have hcount : (4 * (n : ℤ)).toNat = 4 * n := by omega
    rw [hfills, if_pos (by omega), h.alone.mixOf_eq hdata.2, length_entries, hentry] at hcycle
    simp only [clipMix, h.shorts, if_true, hdouble] at hcycle
    obtain ⟨houtput, hlength⟩ := Prod.mk.inj hcycle
    rw [hlength, hcount, houtput]
    exact clip16_raised _ hclear _
  · obtain ⟨hlist, hplayer, -, hleast⟩ := h.alone.mixRead_leaves canRead
    rw [if_pos hdata.1] at hlist
    rw [if_pos hdata.compared, hfills] at hleast
    have hgives : Gives cfg ((mixRead cfg canRead s).1.player p) n := by
      have hfunc : (s.player p).mixFunc ≠ none := by
        rw [h.alone.mixFunc_eq, if_pos h.shorts]
        exact Option.some_ne_none _
      have hpositive : (0 : ℤ) < cfg.esdAudioRate := Int.natCast_pos.mpr cfg.audioRate_pos
      rw [hplayer]
      refine ⟨?_, ?_, by omega, ?_, ?_, ?_, hn, hfills.ge⟩
      · rw [hpl]
        exact h.alone.func
      · rw [hpl]
        exact hfunc
      · rw [hpl]
        exact hpositive.trans_eq h.alone.rate.symm
      · rw [hpl]
        exact h.alone.rate.le
      · rw [hpl, h.alone.rate]
        exact_mod_cast hfits
    have hone : mixAll cfg (4 * n) (mixRead cfg canRead s).1 =
        mixOne cfg (4 * n) ((mixRead cfg canRead s).1, 0) p := by
      rw [mixAll, hlist]
      rfl
    have hheld := (mixOne_gives (by omega) 0 hgives).2
    have hlength : ((mixRead cfg canRead s).1.held p).length = 4 * n := by
      rw [held_eq, load_length, hplayer, hfull]
      omega
    have hsource : sourceAt ((mixRead cfg canRead s).1.player p).rate.toNat cfg.esdAudioRate n *
        (frameOctets ((mixRead cfg canRead s).1.player p)).toNat = 4 * n := by
      rw [hplayer, hframe, hpl, h.alone.rate, Int.toNat_natCast, sourceAt,
        Nat.mul_div_cancel _ cfg.audioRate_pos]
      exact Nat.mul_comm n 4
    rw [hsource, List.drop_of_length_le hlength.le, ← hone] at hheld
    simp only [mixPlayers, hleast]
    rw [if_pos (by omega), held_eq, clipMix_player, (clipMix_spares (p := p) _).playerData, ← held_eq, hheld]

/-- A cycle puts out what it hears of the stream, and leaves its buffer empty. -/
theorem Solo.cycle (h : Solo cfg canRead s p) (hw : s.objects.WellFormed)
    (sized : (s.player p).Sized cfg) (empty : (s.player p).actualLength = 0)
    (hblock : cfg.esdBufSizeOctets < 2 ^ 31) (hsamples : cfg.esdBufSizeOctets ≤ 2 * cfg.esdBufSizeSamples) :
    heardIn ((mixPlayers cfg canRead s).1.story p) = heardIn (s.story p) ++
        load (mixPlayers cfg canRead s).1.outputBuffer 0 (mixPlayers cfg canRead s).2.toNat ∧
      ((mixPlayers cfg canRead s).1.player p).actualLength = 0 := by
  rw [h.mixPlayers_heard hw empty]
  rcases readTurn_whole h.alone.mode empty h.whole with hnone | ⟨hdata, hfull⟩
  · have hlength := (Prod.mk.inj (mixPlayers_idle h.alone hnone.le)).2
    refine ⟨?_, h.alone.mixPlayers_idles hnone⟩
    rw [hlength, hnone, Int.toNat_zero, load_zero, load_zero]
  · obtain ⟨hbuffer, hroom, hfits⟩ :=
      sized.own h.alone.rate (h.alone.bits.trans h.shorts) h.alone.chan
    have hcount : (4 * ((s.player p).blockFrames : ℤ)).toNat = 4 * (s.player p).blockFrames := by omega
    have hlisted : p ∈ s.esdPlayersList := by simp [h.alone.players]
    have hfilled : (s.player p).Filled := ⟨empty.ge, fun hpos => absurd empty hpos.ne'⟩
    obtain ⟨houtput, hheld⟩ := h.plays hdata (hfull.trans hbuffer) hroom hfits hblock hsamples
    refine ⟨?_, ?_⟩
    · rw [houtput, hfull, hbuffer, hcount]
    · have hnonneg := (mixPlayers_kept hw hlisted h.alone.mode hfilled h.keeps).1.filled.nonneg
      have hshort := congrArg List.length hheld
      rw [held_eq, load_length] at hshort
      exact le_antisymm (Int.toNat_eq_zero.mp hshort) hnonneg

end Block

/-! ## Between the turns of a list -/

/-- The list whose players have their turns. -/
def Action.plays : Action → Option PlayerList
  | mix _ => some .players
  | filter .. => some .filters
  | monitor .. => some .monitors
  | recorder .. => some .recorders
  | accept .. | poll .. | refresh | wake _ | autostandby | reconnect _ | reset _ => none

def LoopInput.plays : LoopInput → Option PlayerList
  | mix _ => some .players
  | filter _ => some .filters
  | monitor _ => some .monitors
  | record .. => some .recorders
  | _ => none

section Between

variable {cfg : Config} {s t : Server} {a : Action} {as : List Action} {l : PlayerList} {p : Ptr}

/-- The mixer works on the players of its list. -/
theorem mixPlayers_effects (canRead : Ptr → Bool) :
    Effects cfg (.mixed {p | p ∈ s.esdPlayersList}) s.objects (mixPlayers cfg canRead s).1.objects := by
  have hread : Does cfg (.mixed {p | p ∈ s.esdPlayersList}) s (mixRead cfg canRead s).1 :=
    mixRead_does cfg canRead fun q hq => Footprint.mixed_owns hq
  have hsub : ∀ q ∈ (mixRead cfg canRead s).1.esdPlayersList, q ∈ s.esdPlayersList :=
    foldl_invariant (fun a : Server × ℤ => ∀ q ∈ a.1.esdPlayersList, q ∈ s.esdPlayersList) _ _
      (fun a q _ ha q' hq' => ha q' (mixReadOne_mem (l := .players) hq')) fun _ => id
  have hall : ∀ least, Does cfg (.mixed {p | p ∈ s.esdPlayersList}) (mixRead cfg canRead s).1
      (mixAll cfg least (mixRead cfg canRead s).1).1 := fun least =>
    mixAll_does least fun q hq => Footprint.mixed_owns (hsub q hq)
  simp only [mixPlayers]
  split_ifs
  · exact ((hread.trans (hall _)).trans (clipMix_does _)).effects
  · exact hread.effects

/-- What is done outside the turns of its list leaves a player alone. -/
theorem step_leaves (hw : s.objects.WellFormed) (hp : p ∈ s.list l) (hplays : a.plays ≠ some l)
    (h : step cfg s a = some t) : s.objects.Untouched l p t.objects := by
  have hother : ∀ l', a.plays = some l' → p ∉ s.list l' := fun l' hl' hmem =>
    hplays (hl'.trans (congrArg some (hw.lists_disjoint p l' l hmem hp)))
  cases a with
  | mix canRead =>
    obtain ⟨-, h⟩ := step_eq_some h
    cases h
    exact (mixPlayers_effects canRead).untouched hp (hother .players rfl) (hother .players rfl)
  | reset scrambled =>
    obtain ⟨-, h⟩ := step_eq_some h
    cases h
    rw [resetDaemon_objects s scrambled]
    exact .congr hp rfl rfl rfl
  | filter =>
    exact (step_effects hw h id).untouched hp (hother .filters rfl) (hother .filters rfl)
  | monitor => exact (step_effects hw h id).untouched hp (hother .monitors rfl) id
  | recorder => exact (step_effects hw h id).untouched hp (hother .recorders rfl) id
  | accept | poll | refresh | wake | autostandby | reconnect =>
    exact (step_effects hw h id).untouched hp id id

theorem Run.leaves {ok : Server → Action → Prop} (h : Run (step cfg) ok s as t)
    (hw : s.objects.WellFormed) (hp : p ∈ s.list l) (hplays : ∀ a ∈ as, a.plays ≠ some l) :
    s.objects.Untouched l p t.objects := by
  induction h with
  | nil s => exact .refl hp
  | cons _ hstep _ ih =>
    have hone := step_leaves hw hp (hplays _ (List.mem_cons_self ..)) hstep
    exact hone.trans (ih (step_wellFormed hw hstep) hone.listed
      fun a ha => hplays a (List.mem_cons_of_mem _ ha))

end Between

/-! ## The loop -/

def DeviceUse.played : DeviceUse → List Octet
  | wrote _ octets => octets
  | read _ _ => []

def playedIn (us : List DeviceUse) : List Octet := us.flatMap DeviceUse.played

namespace CommLoop

instance (l : CommLoop) : Decidable l.Sounding := inferInstanceAs (Decidable (_ ∨ _))

/-- What the mixer has put out and the device did not get yet. -/
def inFlight (l : CommLoop) : List Octet :=
  if l.Sounding then load l.server.outputBuffer 0 l.length.toNat else []

/-- The stream is open and all there is to hear, and the device is held. -/
def Lone (L : LoopConfig) (p : Ptr) (l : CommLoop) (i : LoopInput) : Prop :=
  p ∈ l.server.esdPlayersList ∧
    match i with
    | .mix canRead => Solo L.cfg canRead l.server p
    | .filter _ => l.server.esdFilterList = []
    | .write _ => l.server.esdOnStandby = false
    | _ => True

/-- The loop was a queue from the socket of the stream to the device. -/
def Passes (p : Ptr) : CommLoop → CommLoop → Prop :=
  Conveys (fun l => heardIn (l.server.story p)) (fun l => playedIn l.uses) inFlight

section Steps

variable {L : LoopConfig} {p : Ptr} {l l' l'' : CommLoop} {i : LoopInput}

theorem inFlight_of_not_sounding (h : ¬ l.Sounding) : l.inFlight = [] := if_neg h

theorem inFlight_of_sounding (hplace : l.Sounding) :
    l.inFlight = load l.server.outputBuffer 0 l.length.toNat := if_pos hplace

theorem plays_of_moves {a : Action} (h : a ∈ l.moves L i) : a.plays = i.plays := by
  unfold moves at h
  split at h <;> (try split_ifs at h) <;>
    simp only [List.mem_singleton, List.not_mem_nil] at h <;> subst h <;> rfl

theorem Advances.leaves_player (h : Advances L l i l') (hl : l.InPlace) (hi : l.Promised L i)
    {list : PlayerList} (hp : p ∈ l.server.list list) (hplays : i.plays ≠ some list)
    (hrunning : l'.Running) : l.server.objects.Untouched list p l'.server.objects := by
  obtain ⟨s, hrun, hserver⟩ := moves_run h hl hi
  rw [hserver hrunning]
  exact Run.leaves hrun hl.wellFormed hp fun a ha => plays_of_moves ha ▸ hplays

/-- The device gets sound at one place of the loop only. -/
theorem Advances.plays_nothing (h : Advances L l i l') (hwrite : ∀ now, i ≠ .write now) :
    playedIn l'.uses = playedIn l.uses := by
  have hsame : l'.uses = l.uses → playedIn l'.uses = playedIn l.uses := congrArg playedIn
  cases h with
  | write => exact absurd rfl (hwrite _)
  | @record ready reopen block now hp =>
    simp only [recordRound]
    split_ifs
    · simp [playedIn, DeviceUse.played]
    · rfl
    · rfl
  | @top reopen now hp =>
    have hreconnect : (l.reconnect reopen).uses = l.uses := by
      simp only [reconnect]
      split_ifs <;> rfl
    refine hsame ?_
    simp only [beforeSelect]
    split_ifs <;> exact hreconnect
  | @select timeout answer now later hp =>
    refine hsame ?_
    cases answer with
    | timedOut => exact (timedOut_blocks now later).2
    | interrupted =>
      simp only [afterSelect]
      split_ifs <;> rfl
    | ready | again | failed => rfl
  | @accept answer hp => cases answer <;> rfl
  | @poll c env l' hp hpoll =>
    obtain ⟨r, -, rfl⟩ := Option.map_eq_some_iff.mp hpoll
    rfl
  | @wake reopen hp =>
    simp only [wakeRound]
    split_ifs <;> rfl
  | @filter canRead hp =>
    simp only [filterRound]
    split_ifs <;> rfl
  | @monitor canWrite hp =>
    simp only [monitorRound]
    split_ifs <;> rfl
  | refresh | mix | usr1 | term | hup => rfl

/-- Between the mixer and the device the block stays what it is, where no filter works on it. -/
theorem Advances.inFlight_eq (h : Advances L l i l') (hplays : i.plays ≠ some .players)
    (hwrite : ∀ now, i ≠ .write now) (hfilter : i.plays = some .filters → l.server.esdFilterList = [])
    (hrunning : l'.Running) : l'.inFlight = l.inFlight := by
  have haside : ¬ l.Sounding → ¬ l'.Sounding → l'.inFlight = l.inFlight := fun hbefore hafter => by
    rw [inFlight_of_not_sounding hbefore, inFlight_of_not_sounding hafter]
  cases h with
  | mix => exact absurd rfl hplays
  | write => exact absurd rfl (hwrite _)
  | @wake reopen hp =>
    have hblocks : (l.wakeRound reopen).server.blocks = l.server.blocks := by
      simp only [wakeRound]
      split_ifs
      · exact esdServerResume_blocks reopen
      · rfl
    have hafter : (l.wakeRound reopen).Sounding ∧ (l.wakeRound reopen).length = l.length := by
      simp only [wakeRound]
      split_ifs <;> exact ⟨.inr (.inl rfl), rfl⟩
    rw [inFlight_of_sounding hafter.1, inFlight_of_sounding (.inl hp), hafter.2]
    exact congrArg (fun b : (ℕ → ℤ) × Mem => load b.2 0 l.length.toNat) hblocks
  | @filter canRead hp =>
    have hnone := hfilter rfl
    have hsame : l.filterRound L canRead = { l with place := .write } := by
      simp only [filterRound, hnone, ne_eq, not_true, false_and, if_false]
    rw [hsame, inFlight_of_sounding (.inr (.inl hp)), inFlight_of_sounding (.inr (.inr rfl))]
  | usr1 => rfl
  | term => exact absurd rfl (hrunning 0)
  | @top reopen now hp =>
    refine haside (by simp [Sounding, hp]) ?_
    simp only [beforeSelect] at hrunning ⊢
    split_ifs at hrunning ⊢
    · exact absurd rfl (hrunning 0)
    · simp [Sounding]
  | @select timeout answer now later hp =>
    refine haside (by simp [Sounding, hp]) ?_
    cases answer with
    | ready listening =>
      cases listening
      · exact not_sounding_turnOf _ rfl
      · simp [Sounding, afterSelect]
    | timedOut =>
      rcases timedOut_place (L := L) (l := l) now later with hplace | hplace | hplace
      · simp [Sounding, afterSelect, hplace]
      · simp [Sounding, afterSelect, hplace]
      · exact not_sounding_turnOf _ hplace
    | interrupted =>
      simp only [afterSelect]
      split_ifs <;> simp [Sounding]
    | again | failed => simp [Sounding, afterSelect]
  | @accept answer hp =>
    refine haside (by simp [Sounding, hp]) ?_
    cases answer with
    | none | noRoom => exact not_sounding_turnOf _ rfl
    | refused | client => simp [Sounding, acceptRound, hp]
  | @poll c env l' hp hpoll =>
    obtain ⟨r, -, rfl⟩ := Option.map_eq_some_iff.mp hpoll
    exact haside (by simp [Sounding, hp]) (not_sounding_turnOf _ rfl)
  | refresh hp => exact haside (by simp [Sounding, hp]) (by simp [Sounding])
  | @monitor canWrite hp =>
    refine haside (by simp [Sounding, hp]) ?_
    simp only [monitorRound]
    split_ifs <;> simp [Sounding]
  | @record ready reopen block now hp =>
    refine haside (by simp [Sounding, hp]) ?_
    simp only [recordRound]
    split_ifs <;> simp [Sounding]
  | hup hp => exact haside (by simp [Sounding, hp]) (by simp [Sounding, hp])

/-- The device gets what was in flight, unless the daemon is on standby. -/
theorem writeRound_inFlight (now : ℤ) (hplace : l.place = .write)
    (hheld : l.server.esdOnStandby = false) : (l.writeRound now).inFlight = [] ∧
      playedIn (l.writeRound now).uses = playedIn l.uses ++ l.inFlight := by
  have hbefore : l.inFlight = load l.server.outputBuffer 0 l.length.toNat :=
    inFlight_of_sounding (.inr (.inr hplace))
  constructor
  · apply inFlight_of_not_sounding
    simp only [writeRound]
    split_ifs <;> simp [Sounding]
  · by_cases hlength : l.length > 0
    · simp [writeRound, hlength, hheld, hbefore, playedIn, DeviceUse.played]
    · have hnone : l.length.toNat = 0 := Int.toNat_eq_zero.mpr (not_lt.mp hlength)
      rw [hbefore, hnone, load_zero, List.append_nil]
      simp only [writeRound, hlength, if_false]

/-- Where the mixer has nothing to do, what is in flight goes on, or to the device. -/
theorem Passes.between (h : Advances L l i l') (hlone : l.Lone L p i) (hplays : i.plays ≠ some .players)
    (hstory : l'.server.story p = l.server.story p) (hrunning : l'.Running) : Passes p l l' := by
  by_cases hwrite : ∃ now, i = .write now
  · obtain ⟨now, rfl⟩ := hwrite
    cases h with
    | write hplace =>
      obtain ⟨hafter, hplayed⟩ := writeRound_inFlight now hplace hlone.2
      refine ⟨[], l.inFlight, (congrArg heardIn hstory).trans (List.append_nil _).symm, hplayed, ?_⟩
      rw [hafter]
      simpa using Moves.leave l.inFlight []
  · have hnot : ∀ now, i ≠ .write now := fun now hi => hwrite ⟨now, hi⟩
    refine .still (congrArg heardIn hstory) (h.plays_nothing hnot)
      (h.inFlight_eq hplays hnot (fun hfilters => ?_) hrunning)
    cases i with
    | filter => exact hlone.2
    | _ => simp [LoopInput.plays] at hfilters

/-- The stream has the buffer that `new_stream_player` gave it, and nothing in it. -/
structure Primed (cfg : Config) (p : Ptr) (l : CommLoop) : Prop where
  sized : (l.server.player p).Sized cfg
  empty : (l.server.player p).actualLength = 0

theorem Passes.mix {canRead : Ptr → Bool} (hblock : L.cfg.esdBufSizeOctets < 2 ^ 31)
    (hsamples : L.cfg.esdBufSizeOctets ≤ 2 * L.cfg.esdBufSizeSamples) (hl : l.InPlace)
    (hplace : l.place = .mix) (hsolo : Solo L.cfg canRead l.server p) (hprimed : l.Primed L.cfg p) :
    Passes p l (l.mixRound L canRead) ∧ (l.mixRound L canRead).Primed L.cfg p := by
  have hlisted : p ∈ l.server.esdPlayersList := by simp [hsolo.alone.players]
  have hfilled : (l.server.player p).Filled :=
    ⟨hprimed.empty.ge, fun hpos => absurd hprimed.empty hpos.ne'⟩
  obtain ⟨hkept, -⟩ := mixPlayers_kept hl.wellFormed hlisted hsolo.alone.mode hfilled hsolo.keeps
  obtain ⟨hheard, hempty⟩ := hsolo.cycle hl.wellFormed hprimed.sized hprimed.empty hblock hsamples
  refine ⟨⟨_, [], hheard, (List.append_nil _).symm, ?_⟩, hkept.kind.sized hprimed.sized, hempty⟩
  rw [inFlight_of_not_sounding (l := l) (by simp [Sounding, hplace])]
  exact Moves.arrive [] _

theorem Passes.step (hblock : L.cfg.esdBufSizeOctets < 2 ^ 31)
    (hsamples : L.cfg.esdBufSizeOctets ≤ 2 * L.cfg.esdBufSizeSamples) (hl : l.InPlace)
    (hi : l.Promised L i) (hlone : l.Lone L p i) (hprimed : l.Primed L.cfg p) (h : Advances L l i l')
    (hrunning : l'.Running) : Passes p l l' ∧ l'.Primed L.cfg p := by
  by_cases hmix : ∃ canRead, i = .mix canRead
  · obtain ⟨canRead, rfl⟩ := hmix
    cases h with
    | mix hplace => exact Passes.mix hblock hsamples hl hplace hlone.2 hprimed
  · have hplays : i.plays ≠ some .players := by
      cases i with
      | mix canRead => exact absurd ⟨canRead, rfl⟩ hmix
      | _ => simp [LoopInput.plays]
    have huntouched := h.leaves_player hl hi (show p ∈ l.server.list .players from hlone.1) hplays hrunning
    have hstory : l'.server.story p = l.server.story p := by
      rw [story_eq, story_eq]
      exact huntouched.stock
    exact ⟨.between h hlone hplays hstory hrunning, huntouched.kind.sized hprimed.sized,
      huntouched.actualLength.trans hprimed.empty⟩

end Steps

end CommLoop

section Runs

variable {L : LoopConfig} {s : Server} {now : ℤ} {is js : List LoopInput} {u l : CommLoop} {p : Ptr}

theorem CommLoop.run_inPlace (hs : s.objects.WellFormed)
    (h : Run (CommLoop.advance L) (CommLoop.Promised L) (.start s now) is u) (hrunning : u.Running) :
    u.InPlace :=
  h.invariant (fun l => l.Running → l.InPlace)
    (fun l i l' hl hi hstep hrunning =>
      have hadvances := CommLoop.advance_cases hstep
      (hl hadvances.running).step hi hadvances hrunning)
    (fun _ => .elsewhere hs (by simp [CommLoop.start]) (by simp [CommLoop.start])) hrunning

theorem CommLoop.Passes.run (hblock : L.cfg.esdBufSizeOctets < 2 ^ 31)
    (hsamples : L.cfg.esdBufSizeOctets ≤ 2 * L.cfg.esdBufSizeSamples) (hu : u.Running → u.InPlace)
    (hprimed : u.Primed L.cfg p)
    (h : Run (CommLoop.advance L) (fun l i => l.Promised L i ∧ l.Lone L p i) u js l)
    (hrunning : l.Running) : CommLoop.Passes p u l := by
  have hall := h.invariant (fun l => l.Running → l.InPlace ∧ l.Primed L.cfg p ∧ CommLoop.Passes p u l)
    (fun l i l' hl hi hstep hrunning => by
      have hadvances := CommLoop.advance_cases hstep
      obtain ⟨hl, hprimed, hpasses⟩ := hl hadvances.running
      obtain ⟨hone, hprimed'⟩ := CommLoop.Passes.step hblock hsamples hl hi.1 hi.2 hprimed hadvances
        hrunning
      exact ⟨hl.step hi.1 hadvances hrunning, hprimed', hpasses.trans hone⟩)
    fun hrunning => ⟨hu hrunning, hprimed, .refl u⟩
  exact (hall hrunning).2.2

/-- With blocks that are ints and have ints for their samples: in every run in which a stream of the
sound of a 16 bit device is all there is to hear, what went to the device since the stream was opened
and what is on its way there is what the stream sent since, in its order. -/
theorem stream_comes_out (hs : s.objects.WellFormed) (hblock : L.cfg.esdBufSizeOctets < 2 ^ 31)
    (hsamples : L.cfg.esdBufSizeOctets ≤ 2 * L.cfg.esdBufSizeSamples)
    (hopened : Run (CommLoop.advance L) (CommLoop.Promised L) (.start s now) is u)
    (hplace : ¬ u.Sounding) (hprimed : u.Primed L.cfg p)
    (h : Run (CommLoop.advance L) (fun l i => l.Promised L i ∧ l.Lone L p i) u js l)
    (hrunning : l.Running) :
    ∃ heard played, heardIn (l.server.story p) = heardIn (u.server.story p) ++ heard ∧
      playedIn l.uses = playedIn u.uses ++ played ∧ heard = played ++ l.inFlight := by
  obtain ⟨heard, played, hheard, hplayed, hmoves⟩ := CommLoop.Passes.run hblock hsamples
    (CommLoop.run_inPlace hs hopened) hprimed h hrunning
  rw [CommLoop.inFlight_of_not_sounding hplace] at hmoves
  exact ⟨heard, played, hheard, hplayed, hmoves⟩

end Runs

instance (cfg : Config) (s : Server) (p : Ptr) : Decidable (Alone cfg s p) :=
  decidable_of_iff
    (s.esdPlayersList = [p] ∧ (s.player p).IsStream ∧
      (s.esdAudioFormat &&& esdMaskBits = esdBits8 ∨ s.esdAudioFormat &&& esdMaskBits = esdBits16) ∧
      (s.player p).format &&& esdMaskBits = s.esdAudioFormat &&& esdMaskBits ∧
      (s.player p).format &&& esdMaskChan = esdStereo ∧ (s.player p).rate = cfg.esdAudioRate ∧
      (s.player p).leftVolScale = esdVolumeBase ∧ (s.player p).rightVolScale = esdVolumeBase ∧
      (s.player p).mixFunc = getMixFunc (s.player p))
    ⟨fun h => ⟨h.1, h.2.1, h.2.2.1, h.2.2.2.1, h.2.2.2.2.1, h.2.2.2.2.2.1, h.2.2.2.2.2.2.1,
        h.2.2.2.2.2.2.2.1, h.2.2.2.2.2.2.2.2⟩,
      fun h => ⟨h.1, h.2, h.3, h.4, h.5, h.6, h.7, h.8, h.9⟩⟩

instance (cfg : Config) (canRead : Ptr → Bool) (s : Server) (p : Ptr) :
    Decidable (Solo cfg canRead s p) :=
  decidable_of_iff (Alone cfg s p ∧ s.esdAudioFormat &&& esdMaskBits = esdBits16 ∧
      MixKeeps cfg canRead s p)
    ⟨fun h => ⟨h.1, h.2.1, h.2.2⟩, fun h => ⟨h.1, h.2, h.3⟩⟩

instance (L : LoopConfig) (p : Ptr) (l : CommLoop) (i : LoopInput) : Decidable (l.Lone L p i) :=
  match i with
  | .mix _ | .filter _ | .write _ => inferInstanceAs (Decidable (_ ∧ _))
  | .top .. | .select .. | .accept _ | .poll _ | .refresh | .wake _ | .monitor _ | .record ..
  | .usr1 | .term | .hup _ => inferInstanceAs (Decidable (_ ∧ True))

/-- A client opens a stream; the pass has come to its end of the clients. -/
def openingPasses : List LoopInput :=
  [.top none 100, .select (.ready true) 100 100,
      .accept (.client 1 5 (.sending [handshake 7, Word.octets 3#32,
        streamParams (esdBits16 ||| esdStereo) 44100#32, List.replicate 16 1, List.replicate 16 2])),
      .accept .none, .poll (.allocating 0)] ++ quietRound 100 ++
    wokenPass 100 0 ++ quietRound 100 ++ wokenPass 101 2

/-- The first block goes to the device, and the second is mixed. -/
def playingPasses : List LoopInput :=
  [.refresh, .mix fun _ => true, .wake none, .filter fun _ => false, .write 101,
      .monitor fun _ => false, .record (fun _ => ⟨0, false⟩) none none 101] ++
    wokenPass 102 0 ++ [.refresh, .mix fun _ => true, .wake none]

theorem openingPasses_end : (exec (CommLoop.advance .spawned) (CommLoop.Promised .spawned)
    (.start .blank 100) openingPasses).isSome := by
  decide +kernel

def openedLone : CommLoop :=
  (exec (CommLoop.advance .spawned) (CommLoop.Promised .spawned) (.start .blank 100)
    openingPasses).get openingPasses_end

theorem playingPasses_end : (exec (CommLoop.advance .spawned)
    (fun l i => l.Promised .spawned i ∧ l.Lone .spawned 2 i) openedLone playingPasses).isSome := by
  decide +kernel

def playingLone : CommLoop :=
  (exec (CommLoop.advance .spawned) (fun l i => l.Promised .spawned i ∧ l.Lone .spawned 2 i)
    openedLone playingPasses).get playingPasses_end

theorem openedLone_run : Run (CommLoop.advance .spawned) (CommLoop.Promised .spawned)
    (.start .blank 100) openingPasses openedLone :=
  Run.of_isSome openingPasses_end

theorem playingLone_run : Run (CommLoop.advance .spawned)
    (fun l i => l.Promised .spawned i ∧ l.Lone .spawned 2 i) openedLone playingPasses playingLone :=
  Run.of_isSome playingPasses_end

theorem stream_comes_out_twice :
    ∃ heard played, heardIn (playingLone.server.story 2) = heardIn (openedLone.server.story 2) ++ heard ∧
      playedIn playingLone.uses = playedIn openedLone.uses ++ played ∧
      heard = played ++ playingLone.inFlight ∧ playingLone.inFlight = List.replicate 16 2 ∧
      playedIn playingLone.uses = List.replicate 16 1 := by
  have hplace : playingLone.place = .filter := by decide +kernel
  obtain ⟨heard, played, hheard, hplayed, heq⟩ := stream_comes_out
    Server.blank_initial.wellFormed (by decide) (by decide) openedLone_run (by decide +kernel)
    ⟨⟨by decide +kernel, by decide +kernel, by decide +kernel⟩, by decide +kernel⟩ playingLone_run
    (fun status h => by cases hplace.symm.trans h)
  exact ⟨heard, played, hheard, hplayed, heq, by decide +kernel, by decide +kernel⟩

end Esound
