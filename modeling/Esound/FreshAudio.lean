import Esound.Complete
import Esound.Outgoing

/-!
# Audio that is not fresh

The translation functions look at the length of their source only to see whether there is one.
How far into it they read is decided by the size of the buffer they fill and by the two rates.
-/

open Library.Buffer Library.Loop Library.Resampling Library.Transition

namespace Esound

/-! ## The buffer of a stream -/

/-- The player has a buffer of the size `new_stream_player` gives it. -/
structure EsdPlayer.Sized (cfg : Config) (pl : EsdPlayer) : Prop where
  bits : KnownBits pl.format
  length : pl.bufferLength = Esound.bufferLength cfg pl.format pl.rate
  nonneg : 0 ≤ pl.bufferLength

/-- The frames of a whole block. -/
def EsdPlayer.blockFrames (pl : EsdPlayer) : ℕ := pl.bufferLength.toNat / formatOctets pl.format

section Sized

variable {cfg : Config} {env : PollEnv} {pl : EsdPlayer} {s : Server} {c : Ptr}

theorem newStreamPlayer_sized (h : (newStreamPlayer cfg env s c).2 ≠ 0) :
    ((newStreamPlayer cfg env s c).1.player (newStreamPlayer cfg env s c).2).Sized cfg := by
  simp only [newStreamPlayer] at h ⊢
  split_ifs at h ⊢ with hnull hroom
  · exact absurd rfl h
  · split at h
    · exact absurd rfl h
    · rename_i f hfunc
      have hmixable := (getMixFunc_isSome_iff _).mp (Option.isSome_of_eq_some hfunc)
      simp only [setPlayer_self]
      exact ⟨hmixable.1, rfl, hroom.2⟩
  · split at h <;> exact absurd rfl h

theorem formatOctets_dvd (format : Word) : formatOctets format ∣ 4 := by
  simp only [formatOctets]
  split_ifs <;> decide

theorem EsdPlayer.Sized.buffer (h : pl.Sized cfg) :
    pl.bufferLength = (formatOctets pl.format * pl.blockFrames : ℕ) := by
  have hfour : (4 : ℤ) ∣ pl.bufferLength := h.length ▸ bufferLength_dvd cfg pl.format pl.rate
  obtain ⟨n, hn⟩ : ∃ n : ℕ, pl.bufferLength = n := Int.eq_ofNat_of_zero_le h.nonneg
  have hdvd : formatOctets pl.format ∣ n := (formatOctets_dvd _).trans (by
    rw [hn] at hfour
    exact_mod_cast hfour)
  rw [EsdPlayer.blockFrames, hn, Int.toNat_natCast, Nat.mul_div_cancel' hdvd]

theorem tdiv_le_max (x : ℤ) {d : ℤ} (hd : 0 < d) : d * x.tdiv d ≤ max x 0 := by
  rcases le_or_gt 0 x with hpos | hneg
  · rw [Int.tdiv_eq_ediv_of_nonneg hpos]
    exact (Int.mul_ediv_self_le hd.ne').trans (le_max_left x 0)
  · have hquot : x.tdiv d ≤ 0 := by
      have hopposite := Int.tdiv_nonneg (a := -x) (by omega) hd.le
      rw [Int.neg_tdiv] at hopposite
      omega
    exact (mul_nonpos_of_nonneg_of_nonpos hd.le hquot).trans (le_max_right x 0)

theorem EsdPlayer.Sized.fits (h : pl.Sized cfg) : 2 * pl.blockFrames * cfg.esdAudioRate < 2 ^ 31 := by
  have hbuffer := h.buffer
  have hlength := h.length
  have hrange := int32_range (cfg.esdBufSizeOctets * pl.rate)
  have hwidth : (esdBits16 : Word) ≠ esdBits8 := by decide
  have haudio : (0 : ℤ) < cfg.esdAudioRate := Int.natCast_pos.mpr cfg.audioRate_pos
  simp only [Esound.bufferLength] at hlength
  generalize int32 (cfg.esdBufSizeOctets * pl.rate) = x at hlength hrange
  have hquot := tdiv_le_max x haudio
  obtain ⟨len, hlen⟩ : ∃ len, x.tdiv cfg.esdAudioRate = len := ⟨_, rfl⟩
  rw [hlen] at hlength hquot
  -- four octets of the device for every frame
  have hwhole : ∀ y : ℤ, y - y.tmod 4 ≤ max y 0 := fun y => by
    have hle := tdiv_le_max y (d := 4) (by norm_num)
    have hsum := Int.mul_tdiv_add_tmod y 4
    omega
  have hhalf := tdiv_le_max len (d := 2) (by norm_num)
  have hquarter := tdiv_le_max (len.tdiv 2) (d := 2) (by norm_num)
  have hfour : 4 * (pl.blockFrames : ℤ) ≤ max len 0 := by
    rcases h.bits with h8 | h16 <;> by_cases hmono : pl.format &&& esdMaskChan = esdMono
    · simp only [formatOctets, h8, hmono, if_true] at hbuffer hlength
      have hle := hwhole ((len.tdiv 2).tdiv 2)
      omega
    · simp only [formatOctets, h8, hmono, if_true, if_false] at hbuffer hlength
      have hle := hwhole (len.tdiv 2)
      omega
    · simp only [formatOctets, h16, hwidth, hmono, if_true, if_false] at hbuffer hlength
      have hle := hwhole (len.tdiv 2)
      omega
    · simp only [formatOctets, h16, hwidth, hmono, if_false] at hbuffer hlength
      have hle := hwhole len
      omega
  have hprod : 4 * (pl.blockFrames : ℤ) * cfg.esdAudioRate < 2 ^ 31 := by
    rcases le_or_gt len 0 with hneg | hpos
    · have hnone : (pl.blockFrames : ℤ) = 0 := by omega
      rw [hnone]
      norm_num
    · rw [max_eq_left hpos.le] at hfour
      have hmul := mul_le_mul_of_nonneg_right hfour haudio.le
      rw [mul_comm len] at hmul
      omega
  have hnat : 4 * pl.blockFrames * cfg.esdAudioRate < 2 ^ 31 := by exact_mod_cast hprod
  have hle : 2 * pl.blockFrames * cfg.esdAudioRate ≤ 4 * pl.blockFrames * cfg.esdAudioRate :=
    Nat.mul_le_mul_right _ (by omega)
  exact hle.trans_lt hnat

end Sized

/-! ## What a block is made of -/

theorem load_eq_iff_frames (m m' : Mem) (octets n : ℕ) :
    load m 0 (octets * n) = load m' 0 (octets * n) ↔ ∀ k < n, m.frame octets k = m'.frame octets k := by
  have hsplit : ∀ (m : Mem) n, load m 0 (octets * (n + 1)) = load m 0 (octets * n) ++ m.frame octets n := by
    intro m n
    have hload := load_add m 0 (octets * n) octets
    rw [Nat.cast_zero, zero_add, ← Nat.mul_succ] at hload
    rw [Nat.succ_eq_add_one] at hload
    rw [hload, Mem.frame, Nat.mul_comm n]
  induction n with
  | zero => simp
  | succ n ih =>
    rw [hsplit, hsplit]
    constructor
    · intro h k hk
      obtain ⟨hfirst, hlast⟩ := List.append_inj h (by simp)
      rcases Nat.lt_succ_iff_lt_or_eq.mp hk with hlt | rfl
      · exact ih.mp hfirst k hlt
      · exact hlast
    · intro h
      rw [ih.mpr fun k hk => h k (hk.trans (Nat.lt_succ_self n)), h n (Nat.lt_succ_self n)]

theorem convert_last_octet (f : TranslateFunc) {format : Word} (bits : KnownBits format) :
    f.convert format (List.replicate f.octets 0) ≠
      f.convert format (List.replicate (f.octets - 1) 0 ++ [0x40]) := by
  have hwidth : (esdBits16 : Word) ≠ esdBits8 := by decide
  rcases bits with h8 | h16 <;> by_cases hmono : format &&& esdMaskChan = esdMono
  · simp only [TranslateFunc.convert, h8, hmono, if_true, decide_true]
    cases f <;> decide
  · simp only [TranslateFunc.convert, h8, hmono, if_true, decide_false]
    cases f <;> decide
  · simp only [TranslateFunc.convert, h16, hmono, hwidth, if_false, decide_true]
    cases f <;> decide
  · simp only [TranslateFunc.convert, h16, hmono, hwidth, if_false, decide_false]
    cases f <;> decide

/-- A buffer of silence but for one octet. -/
def oneOctet (i : ℕ) : Mem := Function.update (fun _ => 0) i 0x40

theorem frame_oneOctet {octets : ℕ} (pos : 0 < octets) (n : ℕ) :
    Mem.frame (fun _ => 0) octets n = List.replicate octets 0 ∧
      (oneOctet (n * octets + (octets - 1))).frame octets n = List.replicate (octets - 1) 0 ++ [0x40] := by
  obtain ⟨o, rfl⟩ : ∃ o, octets = o + 1 := ⟨octets - 1, by omega⟩
  refine ⟨by simp [Mem.frame_eq], ?_⟩
  rw [Mem.frame_eq, List.range_succ, List.map_append, Nat.add_sub_cancel]
  congr 1
  · refine List.eq_replicate_iff.mpr ⟨by simp, fun b hb => ?_⟩
    obtain ⟨j, hj, rfl⟩ := List.mem_map.mp hb
    have hne : n * (o + 1) + j ≠ n * (o + 1) + o := by
      have hlt := List.mem_range.mp hj
      omega
    simp [oneOctet, Function.update_of_ne hne]
  · simp [oneOctet]

/-- How far into its source a block is read. -/
def reach (cfg : Config) (pl : EsdPlayer) (f : TranslateFunc) : ℕ :=
  if pl.blockFrames = 0 then 0
  else (sourceAt cfg.esdAudioRate (pl.rate % 2 ^ 32).toNat (pl.blockFrames - 1) + 1) * f.octets

section Reach

variable {cfg : Config} {s : Server} {p : Ptr} {f : TranslateFunc} {length length' : ℤ} {b b' : Mem}

/-- The daemon with other sockets, and another block in its output buffer. -/
def Server.offering (s : Server) (sockets : ℤ → Socket) (b : Mem) : Server :=
  { s with sockets := sockets, outputBuffer := b }

theorem blockOf_frames (sized : (s.player p).Sized cfg) (hfunc : (s.player p).translateFunc = some f)
    (hlength : length ≠ 0) (sockets : ℤ → Socket) (b b' : Mem) :
    blockOf cfg (s.offering sockets b) p length = blockOf cfg (s.offering sockets b') p length ↔
      ∀ k < (s.player p).blockFrames,
        f.convert (s.player p).format (b.frame f.octets
            (sourceAt cfg.esdAudioRate ((s.player p).rate % 2 ^ 32).toNat k)) =
          f.convert (s.player p).format (b'.frame f.octets
            (sourceAt cfg.esdAudioRate ((s.player p).rate % 2 ^ 32).toNat k)) := by
  have hframe : ∀ b, ∀ k < (s.player p).blockFrames,
      ((translateInto cfg (s.offering sockets b) p length).1.playerData p).frame
          (formatOctets (s.player p).format) k =
        f.convert (s.player p).format (b.frame f.octets
          (sourceAt cfg.esdAudioRate ((s.player p).rate % 2 ^ 32).toNat k)) := by
    intro b k hk
    have happly := f.apply_frame (s.player p).rate (s.playerData p) b sized.bits sized.fits
      cfg.audioRate_pos hlength hk
    have hfunc' : ((s.offering sockets b).player p).translateFunc = some f := hfunc
    rw [← happly]
    simp only [translateInto, hfunc']
    have hlen : ((s.offering sockets b).player p).bufferLength.toNat =
        formatOctets (s.player p).format * (s.player p).blockFrames := by
      have hbuffer := congrArg Int.toNat sized.buffer
      rwa [Int.toNat_natCast] at hbuffer
    rw [hlen]
    simp [Server.setPlayerData, Server.offering]
  have hlen : (s.player p).bufferLength.toNat =
      formatOctets (s.player p).format * (s.player p).blockFrames := by
    have hbuffer := congrArg Int.toNat sized.buffer
    rwa [Int.toNat_natCast] at hbuffer
  have hblocks := load_eq_iff_frames ((translateInto cfg (s.offering sockets b) p length).1.playerData p)
    ((translateInto cfg (s.offering sockets b') p length).1.playerData p)
    (formatOctets (s.player p).format) (s.player p).blockFrames
  rw [← hlen] at hblocks
  refine hblocks.trans (forall₂_congr fun k hk => ?_)
  rw [hframe b k hk, hframe b' k hk]

/-- Two buffers that cannot be told apart by their first so many octets. -/
def AgreeBelow (length : ℤ) (b b' : Mem) : Prop := ∀ i : ℕ, i < length → b i = b' i

theorem TranslateFunc.octets_pos (f : TranslateFunc) : 0 < f.octets := by
  cases f <;> decide

/-- A block is decided by the first octets of its source exactly if it does not reach beyond them. -/
theorem blockOf_reach_iff (sized : (s.player p).Sized cfg)
    (hfunc : (s.player p).translateFunc = some f) (hpos : 0 ≤ length) (hlength : length' ≠ 0)
    (sockets : ℤ → Socket) :
    (∀ b b', AgreeBelow length b b' →
        blockOf cfg (s.offering sockets b) p length' = blockOf cfg (s.offering sockets b') p length') ↔
      reach cfg (s.player p) f ≤ length := by
  have hiff := blockOf_frames sized hfunc hlength sockets
  simp only [reach]
  generalize (s.player p).blockFrames = n at hiff ⊢
  generalize ((s.player p).rate % 2 ^ 32).toNat = r at hiff ⊢
  rcases Nat.eq_zero_or_pos n with rfl | hn
  · exact iff_of_true (fun b b' _ => (hiff b b').mpr (by simp)) (by simpa using hpos)
  rw [if_neg hn.ne']
  have hoctets := f.octets_pos
  constructor
  · intro h
    by_contra hbeyond
    obtain ⟨i, hi⟩ : ∃ i, sourceAt cfg.esdAudioRate r (n - 1) = i := ⟨_, rfl⟩
    rw [hi, add_mul, one_mul, Nat.cast_add] at hbeyond
    -- the last octet of the last frame is one of those that must not matter
    have hagree : AgreeBelow length (fun _ => 0) (oneOctet (i * f.octets + (f.octets - 1))) := by
      intro j hj
      have hne : j ≠ i * f.octets + (f.octets - 1) := by omega
      simp [oneOctet, Function.update_of_ne hne]
    have hlast := (hiff _ _).mp (h _ _ hagree) (n - 1) (by omega)
    obtain ⟨hzero, hone⟩ := frame_oneOctet hoctets i
    rw [hi, hzero, hone] at hlast
    exact convert_last_octet f sized.bits hlast
  · intro h b b' hagree
    refine (hiff b b').mpr fun k hk => ?_
    have hle : sourceAt cfg.esdAudioRate r k ≤ sourceAt cfg.esdAudioRate r (n - 1) :=
      sourceAt_mono (by omega)
    have hmul : (sourceAt cfg.esdAudioRate r k + 1) * f.octets ≤
        (sourceAt cfg.esdAudioRate r (n - 1) + 1) * f.octets := Nat.mul_le_mul_right _ (by omega)
    have hframe : b.frame f.octets (sourceAt cfg.esdAudioRate r k) =
        b'.frame f.octets (sourceAt cfg.esdAudioRate r k) := by
      rw [Mem.frame_eq, Mem.frame_eq]
      refine List.map_congr_left fun j hj => hagree _ ?_
      have hj' := List.mem_range.mp hj
      rw [add_mul, one_mul] at hmul
      omega
    rw [hframe]

end Reach

/-! ## What is sent -/

section Sent

variable {cfg : Config} {canWrite : Ptr → Bool} {poll : RecorderPoll} {s : Server} {p : Ptr}
  {f : TranslateFunc} {length : ℤ} {b b' : Mem}

/-- Whatever the sockets take, what the monitor is sent is decided by the first `length` octets of the
output. -/
def FreshToMonitor (cfg : Config) (canWrite : Ptr → Bool) (s : Server) (length : ℤ) (m : Ptr) : Prop :=
  ∀ sockets b b', AgreeBelow length b b' →
    writtenSince (s.player m).sourceId s (monitorWrite cfg canWrite (s.offering sockets b) length) =
      writtenSince (s.player m).sourceId s (monitorWrite cfg canWrite (s.offering sockets b') length)

/-- The same for a recorder. -/
def FreshToRecorder (cfg : Config) (poll : RecorderPoll) (s : Server) (length : ℤ) (p : Ptr) : Prop :=
  ∀ sockets b b', AgreeBelow length b b' →
    writtenSince (s.player p).sourceId s (writePlayer cfg poll (s.offering sockets b) p length).1 =
      writtenSince (s.player p).sourceId s (writePlayer cfg poll (s.offering sockets b') p length).1

/-- The sockets of a daemon that can write to one player only. -/
def onlyTo (fd : ℤ) (fd' : ℤ) : Socket := ⟨[], if fd' = fd then [] else [-1]⟩

theorem lengthAfter_ne_zero {ps : List Ptr} (htakes : ∀ q ∈ ps, takes s q ≠ 0) (hlength : length ≠ 0) :
    lengthAfter canWrite s length ps ≠ 0 := by
  induction ps generalizing length with
  | nil => exact hlength
  | cons q ps ih =>
    simp only [lengthAfter, List.foldl_cons]
    refine ih (fun q' hq' => htakes q' (List.mem_cons_of_mem _ hq')) ?_
    split_ifs
    · exact htakes q List.mem_cons_self
    · exact hlength

variable (canWrite) in
/-- A daemon that can write to one monitor only hands no empty source on to it. -/
theorem onlyTo_length (apart : SocketsApart s .monitors) (listed : p ∈ s.esdMonitorList)
    (hlength : length ≠ 0) (b : Mem) :
    lengthFor canWrite (s.offering (onlyTo (s.player p).sourceId) b) length p ≠ 0 := by
  refine lengthAfter_ne_zero (fun q hq => ?_) hlength
  have hne : q ≠ p := by simpa using List.all_eq_true.mp List.all_takeWhile _ hq
  have hq' : q ∈ s.esdMonitorList := (List.takeWhile_sublist _).subset hq
  have hfd : (s.player q).sourceId ≠ (s.player p).sourceId :=
    fun he => hne (List.inj_on_of_nodup_map apart hq' listed he)
  simp [takes, Socket.takes, onlyTo, Server.offering, hfd]

/-- The sockets of a daemon that can write to one player only take its block whole. -/
theorem onlyTo_takes (s : Server) (p : Ptr) (b : Mem) :
    (takes (s.offering (onlyTo (s.player p).sourceId) b) p).toNat = (s.player p).bufferLength.toNat := by
  simp only [takes, Socket.takes, onlyTo, Server.offering, if_true]
  omega

theorem fresh_to_monitor_iff (sized : (s.player p).Sized cfg)
    (hfunc : (s.player p).translateFunc = some f) (hlength : 0 < length)
    (apart : SocketsApart s .monitors) (listed : p ∈ s.esdMonitorList) (ready : canWrite p) :
    FreshToMonitor cfg canWrite s length p ↔ reach cfg (s.player p) f ≤ length := by
  have hsent : ∀ sockets b, writtenSince (s.player p).sourceId s
      (monitorWrite cfg canWrite (s.offering sockets b) length) =
        (blockOf cfg (s.offering sockets b) p (lengthFor canWrite (s.offering sockets b) length p)).take
          (takes (s.offering sockets b) p).toNat :=
    fun sockets b => monitorWrite_sends cfg length (s := s.offering sockets b) apart listed ready
  constructor
  · intro h
    have hgiven := onlyTo_length canWrite apart listed hlength.ne' fun _ => 0
    refine (blockOf_reach_iff sized hfunc hlength.le hgiven (onlyTo (s.player p).sourceId)).mp
      fun b b' hagree => ?_
    have hsame := h (onlyTo (s.player p).sourceId) b b' hagree
    have hwhole : ∀ b L, (blockOf cfg (s.offering (onlyTo (s.player p).sourceId) b) p L).length =
        (s.player p).bufferLength.toNat := fun b L => load_length _ _ _
    rw [hsent, hsent, onlyTo_takes, onlyTo_takes, List.take_of_length_le (hwhole _ _).le,
      List.take_of_length_le (hwhole _ _).le] at hsame
    exact hsame
  · intro h sockets b b' hagree
    rw [hsent, hsent]
    have hgiven : lengthFor canWrite (s.offering sockets b') length p =
        lengthFor canWrite (s.offering sockets b) length p := rfl
    have htakes : takes (s.offering sockets b') p = takes (s.offering sockets b) p := rfl
    rw [hgiven, htakes]
    rcases eq_or_ne (lengthFor canWrite (s.offering sockets b) length p) 0 with hzero | hne
    · rw [hzero, blockOf_zero, blockOf_zero]
      rfl
    · rw [(blockOf_reach_iff sized hfunc hlength.le hne sockets).mpr h b b' hagree]

theorem fresh_to_recorder_iff (sized : (s.player p).Sized cfg)
    (hfunc : (s.player p).translateFunc = some f) (hlength : 0 < length) (ready : 0 < poll.ready)
    (open_ : poll.eof = false) :
    FreshToRecorder cfg poll s length p ↔ reach cfg (s.player p) f ≤ length := by
  have hsent : ∀ sockets b, writtenSince (s.player p).sourceId s
      (writePlayer cfg poll (s.offering sockets b) p length).1 =
        (inClientOrder (decide (Swaps s p)) (blockOf cfg (s.offering sockets b) p length)).take
          (takes (s.offering sockets b) p).toNat :=
    fun sockets b => writePlayer_sends (s := s.offering sockets b) ready open_ sized.bits sized.buffer
      hfunc hlength.ne'
  constructor
  · intro h
    refine (blockOf_reach_iff sized hfunc hlength.le hlength.ne' (onlyTo (s.player p).sourceId)).mp
      fun b b' hagree => ?_
    have hsame := h (onlyTo (s.player p).sourceId) b b' hagree
    have hwhole : ∀ b, (inClientOrder (decide (Swaps s p))
        (blockOf cfg (s.offering (onlyTo (s.player p).sourceId) b) p length)).length =
          (s.player p).bufferLength.toNat := fun b => (inClientOrder_length _ _).trans (load_length _ _ _)
    rw [hsent, hsent, onlyTo_takes, onlyTo_takes, List.take_of_length_le (hwhole _).le,
      List.take_of_length_le (hwhole _).le] at hsame
    exact inClientOrder_injective _ hsame
  · intro h sockets b b' hagree
    have htakes : takes (s.offering sockets b') p = takes (s.offering sockets b) p := rfl
    rw [hsent, hsent, htakes,
      (blockOf_reach_iff sized hfunc hlength.le hlength.ne' sockets).mpr h b b' hagree]

/-- What a monitor or a recorder is sent is decided by the block it is made from exactly if its buffer
does not reach beyond that block. -/
theorem fresh_audio_iff (sized : (s.player p).Sized cfg)
    (hfunc : (s.player p).translateFunc = some f) (hlength : 0 < length) :
    (∀ canWrite, SocketsApart s .monitors → p ∈ s.esdMonitorList → canWrite p = true →
      (FreshToMonitor cfg canWrite s length p ↔ reach cfg (s.player p) f ≤ length)) ∧
    ∀ poll, 0 < poll.ready → poll.eof = false →
      (FreshToRecorder cfg poll s length p ↔ reach cfg (s.player p) f ≤ length) :=
  ⟨fun _ apart listed ready => fresh_to_monitor_iff sized hfunc hlength apart listed ready,
    fun _ ready open_ => fresh_to_recorder_iff sized hfunc hlength ready open_⟩

end Sent

/-- A whole block of the output. -/
theorem fresh_audio_iff_whole : ∃ t, Runs .smallBlocks NoReset .blank (monitorsRun 44100#32) t ∧
    t.esdMonitorList = [11, 10] ∧ FreshToMonitor .smallBlocks (fun _ => true) t 16 10 := by
  obtain ⟨t, hrun, hlist, hbits, hbuffer, hnonneg, hfunc, hreach⟩ :
      ∃ t, Runs .smallBlocks NoReset .blank (monitorsRun 44100#32) t ∧ t.esdMonitorList = [11, 10] ∧
        KnownBits (t.player 10).format ∧
        (t.player 10).bufferLength = bufferLength .smallBlocks (t.player 10).format (t.player 10).rate ∧
        0 ≤ (t.player 10).bufferLength ∧ (t.player 10).translateFunc = some .fromStereo16s ∧
        reach .smallBlocks (t.player 10) .fromStereo16s = 16 :=
    ⟨_, Run.of_isSome monitorsRun_equal, by decide +kernel, by decide +kernel, by decide +kernel,
      by decide +kernel, by decide +kernel, by decide +kernel⟩
  refine ⟨t, hrun, hlist, ?_⟩
  have hiff := (fresh_audio_iff ⟨hbits, hbuffer, hnonneg⟩ hfunc (by norm_num : (0 : ℤ) < 16)).1
    (fun _ => true) (runs_socketsApart Server.blank_initial hrun (by decide)) (by simp [hlist]) rfl
  exact hiff.mpr (by simp [hreach])

/-- A block of one frame only: the other three frames a monitor is sent are made of what lies behind
it. -/
theorem short_block_shows_more : ∃ t, Runs .smallBlocks NoReset .blank (monitorsRun 44100#32) t ∧
    t.esdMonitorList = [11, 10] ∧ AgreeBelow 4 (fun _ => 0) (oneOctet 7) ∧
    writtenSince 5 t (monitorWrite .smallBlocks (fun _ => true) (t.offering t.sockets fun _ => 0) 4) =
      [127, 127, 127, 127, 127, 127, 127, 127] ∧
    writtenSince 5 t (monitorWrite .smallBlocks (fun _ => true) (t.offering t.sockets (oneOctet 7)) 4) =
      [127, 127, 127, 191, 127, 127, 127, 127] ∧
    ¬ FreshToMonitor .smallBlocks (fun _ => true) t 4 10 := by
  have hagree : AgreeBelow 4 (fun _ => 0) (oneOctet 7) := fun i hi => by
    have hne : i ≠ 7 := by omega
    simp [oneOctet, Function.update_of_ne hne]
  obtain ⟨t, hrun, hlist, hfd, hsilent, hmore⟩ :
      ∃ t, Runs .smallBlocks NoReset .blank (monitorsRun 44100#32) t ∧ t.esdMonitorList = [11, 10] ∧
        (t.player 10).sourceId = 5 ∧
        writtenSince 5 t (monitorWrite .smallBlocks (fun _ => true)
          (t.offering t.sockets fun _ => 0) 4) = [127, 127, 127, 127, 127, 127, 127, 127] ∧
        writtenSince 5 t (monitorWrite .smallBlocks (fun _ => true)
          (t.offering t.sockets (oneOctet 7)) 4) = [127, 127, 127, 191, 127, 127, 127, 127] :=
    ⟨_, Run.of_isSome monitorsRun_equal, by decide +kernel, by decide +kernel, by decide +kernel,
      by decide +kernel⟩
  refine ⟨t, hrun, hlist, hagree, hsilent, hmore, fun h => ?_⟩
  have hsame := h t.sockets _ _ hagree
  rw [hfd, hsilent, hmore] at hsame
  exact absurd hsame (by decide)

end Esound
