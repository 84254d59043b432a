import Esound.MixAndCopy
import Esound.Pipe

/-!
# A monitor of the pipe

What a monitor is sent is to be what the device gets. Nothing else is ever written to its socket,
so that the daemon is one more queue, from the device to the monitor, behind the one from the
stream to the device.
-/

open Library.Buffer Library.Fifo Library.Loop Library.Resampling Library.Transition

namespace Esound

/-! ## The socket of a stream -/

section Sockets

variable {cfg : Config} {s t : Server} {a : Action} {as : List Action} {l l' : PlayerList} {p q : Ptr}

/-- The streams of other lists are of other clients, and have other descriptors. -/
theorem Objects.Paired.elsewhere (h : s.objects.Paired) (hp : s.objects.StreamAt l p)
    (hq : q ∈ s.list l') (hne : l ≠ l') :
    (s.player q).Foreign (s.player p).parent (s.player p).sourceId := by
  intro hmode
  have hstream : s.objects.StreamAt l' q := ⟨hq, hmode⟩
  have hserved := h.served l p hp
  have hserved' := h.served l' q hstream
  have hparent : (s.player q).parent ≠ (s.player p).parent := fun he =>
    hne (h.unique l p l' q hp hstream he.symm).1
  refine ⟨fun hfd => hparent ?_, hparent⟩
  exact h.fds _ hserved'.client _ hserved.client (hserved'.fd.trans (hfd.trans hserved.fd.symm))

theorem Objects.Paired.socketsApart (h : s.objects.Paired) (hw : s.objects.WellFormed)
    (hl : l ≠ .players) : SocketsApart s l := by
  refine (hw.lists_nodup l).map_on fun p hp q hq hfd => ?_
  have hp' : s.objects.StreamAt l p := ⟨hp, hw.streams hl hp⟩
  have hq' : s.objects.StreamAt l q := ⟨hq, hw.streams hl hq⟩
  have hserved := h.served l p hp'
  have hserved' := h.served l q hq'
  exact (h.unique l p l q hp' hq' (h.fds _ hserved.client _ hserved'.client
    (hserved.fd.trans (hfd.trans hserved'.fd.symm)))).2

/-- A client that streams has nothing done in its turn. -/
theorem pollClient_streaming {c : Ptr} {env : PollEnv} (hstate : (s.client c).state = .streamingData)
    (h : pollClient cfg env s c = some t) : t = s := by
  obtain ⟨r, hr, rfl⟩ := Option.map_eq_some_iff.mp h
  simp only [pollTurn, hstate] at hr
  split_ifs at hr <;> cases hr <;> rfl

/-- Outside the turns of its list nothing is written to the socket of a stream or read from it. -/
theorem step_still_stream (hw : s.objects.WellFormed) (hpaired : s.objects.Paired)
    (hp : s.objects.StreamAt l p) (hreset : ¬ a.IsReset) (hplays : a.plays ≠ some l)
    (h : step cfg s a = some t) : Still (s.player p).sourceId s t := by
  have hserved := hpaired.served l p hp
  have hforeign : ∀ l', a.plays = some l' → ∀ q ∈ s.list l',
      (s.player q).Foreign (s.player p).parent (s.player p).sourceId := fun l' hl' q hq =>
    hpaired.elsewhere hp hq fun he => hplays (he ▸ hl')
  have hstreams : ∀ l', l' ≠ .players → a.plays = some l' → ∀ q ∈ s.list l',
      (s.player q).StreamsElsewhere (s.player p).parent (s.player p).sourceId := fun l' hne hl' q hq =>
    ⟨hw.streams hne hq, hforeign l' hl' q hq⟩
  obtain ⟨hen, h⟩ := step_eq_some h
  cases a with
  | accept c fd socket =>
    cases h
    have hfd : fd ≠ (s.player p).sourceId := fun he =>
      hen.2.2.2 _ hserved.client (hserved.fd.trans he.symm)
    exact ⟨Function.update_of_ne hfd.symm _ _, [], (List.append_nil _).symm, rfl⟩
  | poll c env =>
    by_cases hc : c = (s.player p).parent
    · rw [pollClient_streaming (by rw [hc]; exact hserved.state) h]
      exact .refl _ s
    · refine pollClient_still (fun he => hc ?_) h
      exact hpaired.fds c hen.1 _ hserved.client (he.trans hserved.fd.symm)
  | refresh =>
    cases h
    simp only [refreshMixFuncs]
    split_ifs <;> exact .of_eq rfl rfl
  | mix canRead =>
    cases h
    exact (mixPlayers_untouched cfg canRead (hforeign .players rfl)).still
  | wake reopen =>
    cases h
    simp only [esdServerResume]
    split_ifs <;> cases reopen <;> exact .of_eq rfl rfl
  | filter canRead size =>
    cases h
    exact (filterWrite_untouched canRead size (hstreams .filters (by decide) rfl)).still
  | monitor canWrite length =>
    cases h
    exact (monitorWrite_untouched canWrite length (hstreams .monitors (by decide) rfl)).still
  | recorder ready reopen block length =>
    cases h
    have hblock : Still (s.player p).sourceId s
        { s with outputBuffer := store s.outputBuffer 0 block } := .of_eq rfl rfl
    exact hblock.trans (recorderWrite_untouched (s := { s with
      outputBuffer := store s.outputBuffer 0 block }) ready reopen length
      (hstreams .recorders (by decide) rfl)).still
  | autostandby =>
    cases h
    simp only [esdServerStandby]
    split_ifs <;> exact .of_eq rfl rfl
  | reconnect reopen =>
    cases h
    cases reopen <;> exact .of_eq rfl rfl
  | reset => exact absurd trivial hreset

theorem Run.still_stream {ok : Server → Action → Prop} (h : Run (step cfg) ok s as t)
    (hw : s.objects.WellFormed) (hpaired : s.objects.Paired) (hp : s.objects.StreamAt l p)
    (hreset : ∀ a ∈ as, ¬ a.IsReset) (hplays : ∀ a ∈ as, a.plays ≠ some l) :
    Still (s.player p).sourceId s t := by
  induction h with
  | nil s => exact .refl _ s
  | cons _ hstep _ ih =>
    have hfirst := hreset _ (List.mem_cons_self ..)
    have hone := step_still_stream hw hpaired hp hfirst (hplays _ (List.mem_cons_self ..)) hstep
    have huntouched := step_leaves hw hp.listed (hplays _ (List.mem_cons_self ..)) hstep
    have hrest := ih (step_wellFormed hw hstep) (step_pairs hw hpaired hfirst hstep)
      ⟨huntouched.listed, huntouched.kind.isStream_iff.mpr hp.mode⟩
      (fun a ha => hreset a (List.mem_cons_of_mem _ ha)) fun a ha => hplays a (List.mem_cons_of_mem _ ha)
    have hfd := huntouched.kind.sourceId
    exact hone.trans (hfd ▸ hrest)

end Sockets

/-! ## The block of a monitor -/

section Block

variable {cfg : Config} {canWrite : Ptr → Bool} {s : Server} {m : Ptr} {length : ℤ}

/-- In its own format and at its own rate the device's sound is not translated. -/
theorem blockOf_own (sized : (s.player m).Sized cfg) (rate : (s.player m).rate = cfg.esdAudioRate)
    (func : (s.player m).translateFunc = some (getTranslateFunc (s.player m).format))
    (hlength : length ≠ 0) :
    blockOf cfg s m length = load s.outputBuffer 0 (s.player m).bufferLength.toNat := by
  have hlen : (s.player m).bufferLength.toNat =
      formatOctets (s.player m).format * (s.player m).blockFrames := by
    have hbuffer := congrArg Int.toNat sized.buffer
    rwa [Int.toNat_natCast] at hbuffer
  rw [blockOf, hlen]
  refine (load_eq_iff_frames _ _ _ _).mpr fun k hk => ?_
  have hfits := sized.fits
  have hsmall : cfg.esdAudioRate < 2 ^ 31 := by
    have hle : cfg.esdAudioRate ≤ 2 * (s.player m).blockFrames * cfg.esdAudioRate :=
      Nat.le_mul_of_pos_left _ (by omega)
    omega
  have hrate : ((s.player m).rate % 2 ^ 32).toNat = cfg.esdAudioRate := by omega
  have hsource : sourceAt cfg.esdAudioRate cfg.esdAudioRate k = k := by
    rw [sourceAt, Nat.mul_div_cancel _ cfg.audioRate_pos]
  have happly := (getTranslateFunc (s.player m).format).apply_frame (s.player m).rate
    (s.playerData m) s.outputBuffer sized.bits hfits cfg.audioRate_pos hlength hk
  rw [hrate, hsource, getTranslateFunc_octets sized.bits,
    convert_own sized.bits (by rw [Mem.frame_length, getTranslateFunc_octets sized.bits])] at happly
  rw [← happly]
  simp only [translateInto, func, hlen]
  simp [Server.setPlayerData]

/-- The monitor is of the sound of the device, and can be sent a block as long as its own: its
socket has room for it, and the monitors before it leave a length. -/
structure Audible (cfg : Config) (canWrite : Ptr → Bool) (s : Server) (length : ℤ) (m : Ptr) : Prop where
  sized : (s.player m).Sized cfg
  rate : (s.player m).rate = cfg.esdAudioRate
  func : (s.player m).translateFunc = some (getTranslateFunc (s.player m).format)
  ready : canWrite m = true
  room : takes s m = (s.player m).bufferLength
  given : lengthFor canWrite s length m ≠ 0
  whole : length = (s.player m).bufferLength

theorem Audible.sends (h : Audible cfg canWrite s length m) (apart : SocketsApart s .monitors)
    (listed : m ∈ s.esdMonitorList) :
    writtenSince (s.player m).sourceId s (monitorWrite cfg canWrite s length) =
      load s.outputBuffer 0 length.toNat := by
  rw [monitorWrite_sends cfg length apart listed h.ready, blockOf_own h.sized h.rate h.func h.given,
    h.room, List.take_of_length_le (by rw [load_length]), h.whole]

variable (cfg) in
/-- What the monitors are sent is all that is noted in their turns. -/
theorem monitorWrite_events (canWrite : Ptr → Bool) (s : Server) (length : ℤ) :
    ∃ es, (monitorWrite cfg canWrite s length).events = s.events ++ es := by
  refine foldl_related (fun a b : Server × ℤ => ∃ es, b.1.events = a.1.events ++ es)
    (fun _ => ⟨[], (List.append_nil _).symm⟩) (fun a b c hab hbc => ?_) (monitorOne cfg canWrite)
    s.esdMonitorList (fun a m _ => ?_) (s, length)
  · obtain ⟨es, hes⟩ := hab
    obtain ⟨es', hes'⟩ := hbc
    exact ⟨es ++ es', by rw [hes', hes, List.append_assoc]⟩
  · by_cases ready : canWrite m
    · obtain ⟨es, hes, -⟩ := monitorOne_sends cfg a.1 a.2 ready
      exact ⟨es, hes⟩
    · rw [monitorOne_idle (Bool.eq_false_of_not_eq_true ready)]
      exact ⟨[], (List.append_nil _).symm⟩

end Block

/-! ## The loop -/

namespace CommLoop

/-- What the device got and the monitors did not get yet. -/
def behind (l : CommLoop) : List Octet :=
  if l.place = .monitor then load l.server.outputBuffer 0 l.length.toNat else []

/-- The monitor is listed and is sent every block, the device is held, and there is no reset. -/
def Heard (L : LoopConfig) (m : Ptr) (l : CommLoop) (i : LoopInput) : Prop :=
  m ∈ l.server.esdMonitorList ∧
    match i with
    | .write _ => l.server.esdOnStandby = false
    | .monitor canWrite => l.server.esdOnStandby = false ∧ Audible L.cfg canWrite l.server l.length m
    | .hup _ => False
    | _ => True

/-- The loop was a queue from the device to a descriptor. -/
def Follows (fd : ℤ) : CommLoop → CommLoop → Prop :=
  Conveys (fun l => playedIn l.uses) (fun l => writtenTo fd l.server.events) behind

section Steps

variable {L : LoopConfig} {m : Ptr} {l l' : CommLoop} {i : LoopInput} {fd : ℤ}

theorem behind_of_ne (h : l.place ≠ .monitor) : l.behind = [] := if_neg h

theorem turnOf_ne_monitor (o : Option Ptr) : turnOf o ≠ .monitor := by
  cases o <;> simp [turnOf]

/-- The monitors have their turn after the device was written to. -/
theorem Advances.place_ne_monitor (h : Advances L l i l') (hwrite : ∀ now, i ≠ .write now)
    (husr1 : i ≠ .usr1) : l'.place ≠ .monitor := by
  cases h with
  | write => exact absurd rfl (hwrite _)
  | usr1 => exact absurd rfl husr1
  | @top reopen now hp =>
    simp only [beforeSelect]
    split_ifs <;> simp [cleanExit]
  | @select timeout answer now later hp =>
    cases answer with
    | ready listening =>
      cases listening
      · exact turnOf_ne_monitor _
      · simp [afterSelect]
    | timedOut =>
      rcases timedOut_place (L := L) (l := l) now later with hplace | hplace | hplace
      · simp [afterSelect, hplace]
      · simp [afterSelect, hplace]
      · exact fun hm => turnOf_ne_monitor _ (hplace.symm.trans hm)
    | interrupted =>
      simp only [afterSelect]
      split_ifs <;> simp
    | again | failed => simp [afterSelect]
  | @accept answer hp =>
    cases answer with
    | none | noRoom => exact turnOf_ne_monitor _
    | refused | client => simp [acceptRound, hp]
  | @poll c env l' hp hpoll =>
    obtain ⟨r, -, rfl⟩ := Option.map_eq_some_iff.mp hpoll
    exact turnOf_ne_monitor _
  | refresh => simp
  | mix => simp [mixRound]
  | @wake reopen hp =>
    simp only [wakeRound]
    split_ifs <;> simp
  | @filter canRead hp =>
    simp only [filterRound]
    split_ifs <;> simp
  | @monitor canWrite hp =>
    simp only [monitorRound]
    split_ifs <;> simp
  | @record ready reopen block now hp =>
    simp only [recordRound]
    split_ifs <;> simp
  | term => simp [cleanExit]
  | hup hp => simp [hp]

/-- Outside the turns of its list the socket of a stream is left alone. -/
theorem Advances.still_stream (h : Advances L l i l') (hl : l.Tidy True) (hi : l.Promised L i)
    {list : PlayerList} (hm : l.server.objects.StreamAt list m) (hhup : ∀ scrambled, i ≠ .hup scrambled)
    (hplays : i.plays ≠ some list) (hrunning : l'.Running) :
    Still (l.server.player m).sourceId l.server l'.server := by
  obtain ⟨s, hrun, hserver⟩ := moves_run h hl.inPlace hi
  rw [hserver hrunning]
  refine Run.still_stream hrun hl.inPlace.wellFormed (hl.paired trivial) hm (fun a ha hreset => ?_)
    fun a ha => plays_of_moves ha ▸ hplays
  cases a with
  | reset scrambled => exact hhup scrambled (hup_of_moves ha)
  | _ => exact hreset

theorem Follows.quiet (huses : playedIn l'.uses = playedIn l.uses) (hstill : Still fd l.server l'.server)
    (hbehind : l'.behind = l.behind) : Follows fd l l' := by
  obtain ⟨es, hes, hnone⟩ := hstill.events
  refine .still huses ?_ hbehind
  simp only [hes, writtenTo, List.flatMap_append]
  rw [← writtenTo, ← writtenTo, hnone, List.append_nil]

theorem Follows.write (now : ℤ) (hplace : l.place = .write) (hheld : l.server.esdOnStandby = false) :
    Follows fd l (l.writeRound now) := by
  obtain ⟨-, hplayed⟩ := writeRound_inFlight now hplace hheld
  have hbefore : l.inFlight = load l.server.outputBuffer 0 l.length.toNat :=
    inFlight_of_sounding (.inr (.inr hplace))
  have hserver : (l.writeRound now).server = l.server := by
    simp only [writeRound]
    split_ifs <;> rfl
  have hafter : (l.writeRound now).behind = l.inFlight := by
    by_cases hlength : l.length > 0
    · simp [behind, writeRound, hlength, hheld, hbefore]
    · have hnone : l.length.toNat = 0 := Int.toNat_eq_zero.mpr (not_lt.mp hlength)
      rw [hbefore, hnone, load_zero]
      simp [behind, writeRound, hlength]
  refine ⟨l.inFlight, [], hplayed, ?_, ?_⟩
  · simp only [hserver, List.append_nil]
  · rw [hafter, behind_of_ne (by simp [hplace])]
    exact .arrive [] _

theorem Follows.monitor {canWrite : Ptr → Bool} (hl : l.Tidy True) (hplace : l.place = .monitor)
    (hm : m ∈ l.server.esdMonitorList) (hheld : l.server.esdOnStandby = false)
    (haudible : Audible L.cfg canWrite l.server l.length m) :
    Follows (l.server.player m).sourceId l (l.monitorRound L canWrite) := by
  have hround : l.monitorRound L canWrite =
      { l with place := .record, server := monitorWrite L.cfg canWrite l.server l.length } := by
    have hsome : l.server.esdMonitorList ≠ [] := List.ne_nil_of_mem hm
    simp only [monitorRound, hsome, hheld, ne_eq, not_false_eq_true, and_self, if_true]
  have hsends := haudible.sends ((hl.paired trivial).socketsApart hl.inPlace.wellFormed (by decide)) hm
  obtain ⟨es, hes⟩ := monitorWrite_events L.cfg canWrite l.server l.length
  rw [writtenSince_of_events hes] at hsends
  have hafter : (l.monitorRound L canWrite).behind = [] := by
    rw [hround]
    exact behind_of_ne (by simp)
  refine ⟨[], l.behind, ?_, ?_, ?_⟩
  · rw [hround, List.append_nil]
  · have hbehind : l.behind = load l.server.outputBuffer 0 l.length.toNat := if_pos hplace
    simp only [hround, hes, writtenTo, List.flatMap_append]
    rw [← writtenTo, ← writtenTo, hsends, hbehind]
  · rw [hafter]
    simpa using Moves.leave l.behind []

theorem Follows.step (hl : l.Tidy True) (hi : l.Promised L i) (hheard : l.Heard L m i)
    (h : Advances L l i l') (hrunning : l'.Running) :
    Follows (l.server.player m).sourceId l l' ∧
      (l'.server.player m).SameKind (l.server.player m) := by
  have hmem : m ∈ l.server.objects.lists .monitors := hheard.1
  have hm : l.server.objects.StreamAt .monitors m :=
    ⟨hmem, hl.inPlace.wellFormed.streams (by decide) hmem⟩
  by_cases hmonitor : ∃ canWrite, i = .monitor canWrite
  · obtain ⟨canWrite, rfl⟩ := hmonitor
    cases h with
    | monitor hplace =>
      refine ⟨.monitor hl hplace hheard.1 hheard.2.1 hheard.2.2, ?_⟩
      have hplayer : (l.monitorRound L canWrite).server.player = l.server.player := by
        have hpass := foldl_monitorOne_pass L.cfg canWrite l.length
          ((hl.paired trivial).socketsApart hl.inPlace.wellFormed (show PlayerList.monitors ≠ .players by decide))
        simp only [monitorRound]
        split_ifs
        · exact hpass.player
        · rfl
      rw [hplayer]
      exact .refl _
  · have hplays : i.plays ≠ some .monitors := by
      cases i with
      | monitor canWrite => exact absurd ⟨canWrite, rfl⟩ hmonitor
      | _ => simp [LoopInput.plays]
    have hhup : ∀ scrambled, i ≠ .hup scrambled := by
      rintro scrambled rfl
      exact hheard.2
    refine ⟨?_, (h.leaves_player hl.inPlace hi hmem hplays hrunning).kind⟩
    have hstill := h.still_stream hl hi hm hhup hplays hrunning
    by_cases hwrite : ∃ now, i = .write now
    · obtain ⟨now, rfl⟩ := hwrite
      cases h with
      | write hplace => exact .write now hplace hheard.2
    · have hnot : ∀ now, i ≠ .write now := fun now hi => hwrite ⟨now, hi⟩
      refine .quiet (h.plays_nothing hnot) hstill ?_
      by_cases husr1 : i = .usr1
      · subst husr1
        cases h with
        | usr1 => rfl
      · have hbefore : l.place ≠ .monitor := by
          intro hplace
          cases h with
          | monitor => exact absurd rfl hplays
          | term => exact hrunning 0 rfl
          | usr1 => exact husr1 rfl
          | _ => simp_all
        rw [behind_of_ne hbefore, behind_of_ne (h.place_ne_monitor hnot husr1)]

end Steps

end CommLoop

section Runs

variable {L : LoopConfig} {s : Server} {now : ℤ} {is js : List LoopInput} {u l : CommLoop} {p m : Ptr}

theorem CommLoop.Follows.run (hu : u.Running → u.Tidy True)
    (h : Run (CommLoop.advance L) (fun l i => l.Promised L i ∧ l.Heard L m i) u js l)
    (hrunning : l.Running) : CommLoop.Follows (u.server.player m).sourceId u l := by
  have hall := h.invariant (fun l => l.Running → l.Tidy True ∧
      (l.server.player m).SameKind (u.server.player m) ∧
      CommLoop.Follows (u.server.player m).sourceId u l)
    (fun l i l' hl hi hstep hrunning => by
      have hadvances := CommLoop.advance_cases hstep
      obtain ⟨hl, hkind, hfollows⟩ := hl hadvances.running
      obtain ⟨hone, hsame⟩ := CommLoop.Follows.step hl hi.1 hi.2 hadvances hrunning
      have hhup : True → ∀ scrambled, i ≠ .hup scrambled := by
        rintro - scrambled rfl
        exact hi.2.2
      rw [hkind.sourceId] at hone
      exact ⟨(hl.step hi.1 hhup hadvances).1 hrunning, hsame.trans hkind, hfollows.trans hone⟩)
    fun hrunning => ⟨hu hrunning, .refl _, .refl u⟩
  exact (hall hrunning).2.2

end Runs

instance (cfg : Config) (pl : EsdPlayer) : Decidable (pl.Sized cfg) :=
  decidable_of_iff (KnownBits pl.format ∧
      pl.bufferLength = bufferLength cfg pl.format pl.rate ∧ 0 ≤ pl.bufferLength)
    ⟨fun h => ⟨h.1, h.2.1, h.2.2⟩, fun h => ⟨h.bits, h.length, h.nonneg⟩⟩

instance (cfg : Config) (canWrite : Ptr → Bool) (s : Server) (length : ℤ) (m : Ptr) :
    Decidable (Audible cfg canWrite s length m) :=
  decidable_of_iff ((s.player m).Sized cfg ∧ (s.player m).rate = cfg.esdAudioRate ∧
      (s.player m).translateFunc = some (getTranslateFunc (s.player m).format) ∧ canWrite m = true ∧
      takes s m = (s.player m).bufferLength ∧ lengthFor canWrite s length m ≠ 0 ∧
      length = (s.player m).bufferLength)
    ⟨fun h => ⟨h.1, h.2.1, h.2.2.1, h.2.2.2.1, h.2.2.2.2.1, h.2.2.2.2.2.1, h.2.2.2.2.2.2⟩,
      fun h => ⟨h.sized, h.rate, h.func, h.ready, h.room, h.given, h.whole⟩⟩

instance (L : LoopConfig) (m : Ptr) (l : CommLoop) (i : LoopInput) : Decidable (l.Heard L m i) :=
  match i with
  | .write _ | .monitor _ => inferInstanceAs (Decidable (_ ∧ _))
  | .hup _ => inferInstanceAs (Decidable (_ ∧ False))
  | .top .. | .select .. | .accept _ | .poll _ | .refresh | .mix _ | .wake _ | .filter _
  | .record .. | .usr1 | .term => inferInstanceAs (Decidable (_ ∧ True))

end Esound
