import Esound.Frames
import Esound.Shares
import Esound.Tuned

/-!
# What the mixer takes of a player

Three formulas have to fit together: how many frames of the mix a player can give, which of
its own frames each of them is made of, and how many of its own frames a cycle uses up.
-/

open Library.Buffer Library.Loop Library.Resampling

namespace Esound

/-! ## Whole frames -/

/-- The whole frames that a player has. -/
def EsdPlayer.frames (pl : EsdPlayer) : ℕ := (pl.actualLength / frameOctets pl).toNat

section Player

variable {cfg : Config} {pl : EsdPlayer} {f : MixFunc} {r n : ℕ}

theorem getMixFunc_octets (h : getMixFunc pl = some f) : frameOctets pl = f.octets := by
  have hbits : (esdBits16 : Word) ≠ esdBits8 := by decide
  have hchan : (esdStereo : Word) ≠ esdMono := by decide
  simp only [getMixFunc] at h
  split_ifs at h with h₁ h₂ h₃ h₂ h₃ h₁ h₂ h₃ h₂ h₃ <;> cases h <;>
    simp [frameOctets, MixFunc.octets, *]

theorem MixFunc.octets_pos (f : MixFunc) : 0 < f.octets := by
  cases f <;> decide

/-- A quotient that wraps around is one of a negative int by a small rate. -/
theorem int32_quotient {y r n : ℤ} (hr : 0 < r) (hn : 0 < n) (hy : -2 ^ 31 ≤ y)
    (h : 4 * n ≤ int32 (y.tdiv r * 4)) : n * r ≤ y ∨ y < 0 ∧ r < 4 := by
  have hmod := int32_emod (y.tdiv r * 4)
  have hbound := int32_range (y.tdiv r * 4)
  rcases le_or_gt 0 y with hpos | hneg
  · left
    have hdiv : y.tdiv r * r ≤ y := by
      rw [Int.tdiv_eq_ediv_of_nonneg hpos]
      exact Int.ediv_mul_le y hr.ne'
    have hquot : 0 ≤ y.tdiv r := Int.tdiv_nonneg hpos hr.le
    have hle : n ≤ y.tdiv r := by omega
    exact (mul_le_mul_of_nonneg_right hle hr.le).trans hdiv
  · obtain ⟨z, rfl⟩ : ∃ z, y = -z := ⟨-y, by omega⟩
    rw [Int.neg_tdiv] at h hmod hbound
    have hquot : 0 ≤ z.tdiv r := Int.tdiv_nonneg (by omega) hr.le
    have hdiv : z.tdiv r * r ≤ z := by
      rw [Int.tdiv_eq_ediv_of_nonneg (by omega)]
      exact Int.ediv_mul_le z hr.ne'
    refine .inr ⟨hneg, ?_⟩
    by_contra hge
    have hmul : z.tdiv r * 4 ≤ z.tdiv r * r := mul_le_mul_of_nonneg_left (by omega) hquot
    omega

/-- The dividend of the formula is right but for a multiple of `2 ^ 32`. -/
theorem dividend_emod (x r : ℤ) :
    int32 (int32 (int32 x + r) - 1) % 2 ^ 32 = (x + r - 1) % 2 ^ 32 := by
  have hmod₁ := int32_emod x
  have hmod₂ := int32_emod (int32 x + r)
  have hmod₃ := int32_emod (int32 (int32 x + r) - 1)
  omega

/-- Where the ints of the formula wrap around it comes to less, or to something that a rate so
small has to spare. -/
theorem ceiling_le {x r n : ℤ} (hx : 0 ≤ x) (hr : 0 < r) (hn : 0 < n)
    (h : 4 * n ≤ int32 ((int32 (int32 (int32 x + r) - 1)).tdiv r * 4)) : n * r ≤ x + r - 1 := by
  have hmod := dividend_emod x r
  have hrange := int32_range (int32 (int32 x + r) - 1)
  generalize int32 (int32 (int32 x + r) - 1) = y at h hmod hrange
  have hbound := int32_range (y.tdiv r * 4)
  rcases int32_quotient hr hn hrange.1 h with hle | ⟨hneg, hsmall⟩
  · omega
  · have hmul : n * r ≤ n * 4 := mul_le_mul_of_nonneg_left hsmall.le hn.le
    omega

/-- At the rate of the device the formula gives back the number of frames as long as it does not
wrap around. -/
theorem ceiling_eq_iff {r n : ℤ} (hr : 0 < r) (hint : r < 2 ^ 31) (hn : 0 < n) (hfit : 4 * n < 2 ^ 31) :
    int32 ((int32 (int32 (int32 (n * r) + r) - 1)).tdiv r * 4) = 4 * n ↔ n * r + r ≤ 2 ^ 31 := by
  have hmod := dividend_emod (n * r) r
  have hrange := int32_range (int32 (int32 (n * r) + r) - 1)
  have hx : 0 ≤ n * r := mul_nonneg hn.le hr.le
  generalize int32 (int32 (int32 (n * r) + r) - 1) = y at hmod hrange ⊢
  constructor
  · intro h
    rcases int32_quotient hr hn hrange.1 h.ge with hle | ⟨hneg, hsmall⟩
    · omega
    · have hmul : n * r ≤ n * 3 := mul_le_mul_of_nonneg_left (by omega) hn.le
      omega
  · intro h
    obtain rfl : y = n * r + (r - 1) := by omega
    have hquot : (n * r + (r - 1)).tdiv r = n := by
      rw [Int.tdiv_eq_ediv_of_nonneg (by omega), add_comm, Int.add_mul_ediv_right _ _ hr.ne',
        Int.ediv_eq_zero_of_lt (by omega) (by omega), zero_add]
    rw [hquot, int32_of_range (by omega) (by omega)]
    omega

theorem translated_le {length : ℤ} (rate : pl.rate = r) (hr : 0 < r)
    (hlen : 0 ≤ pl.actualLength) (hn : 0 < n) (h : 4 * n ≤ translated cfg pl length) :
    n ≤ available r cfg.esdAudioRate pl.frames := by
  obtain ⟨hframe, -⟩ := frameOctets_pos pl
  have hframes : pl.actualLength.tdiv (frameOctets pl) = pl.frames := by
    rw [Int.tdiv_eq_ediv_of_nonneg hlen, EsdPlayer.frames,
      Int.toNat_of_nonneg (Int.ediv_nonneg hlen hframe.le)]
  simp only [translated, hframes, rate] at h
  have hprod : (n * r : ℤ) ≤ pl.frames * cfg.esdAudioRate + r - 1 := by
    apply ceiling_le (mul_nonneg (Int.natCast_nonneg _) (Int.natCast_nonneg _))
      (Nat.cast_pos.mpr hr) (Nat.cast_pos.mpr hn)
    split_ifs at h with hmore
    · exact h.trans hmore.le
    · exact h
  rw [available, Nat.le_div_iff_mul_le hr]
  zify [hr.trans_le (Nat.le_add_left r (pl.frames * cfg.esdAudioRate))]
  exact hprod

/-- At the rate of the device a player is asked for what it has, or for less. -/
theorem translated_own {length : ℤ} (rate : pl.rate = cfg.esdAudioRate)
    (haudio : cfg.esdAudioRate < 2 ^ 31) (hlen : pl.actualLength = frameOctets pl * n) (hn : 0 < n)
    (hroom : 4 * n ≤ length) (hint : length < 2 ^ 31) :
    translated cfg pl length ≤ 4 * n ∧
      (translated cfg pl length = 4 * n ↔ n * cfg.esdAudioRate + cfg.esdAudioRate ≤ 2 ^ 31) := by
  obtain ⟨hframe, -⟩ := frameOctets_pos pl
  have hframes : pl.actualLength.tdiv (frameOctets pl) = n := by
    rw [hlen, Int.mul_tdiv_cancel_left _ hframe.ne']
  obtain ⟨r, hr⟩ : ∃ r : ℤ, (cfg.esdAudioRate : ℤ) = r := ⟨_, rfl⟩
  obtain ⟨m, hm⟩ : ∃ m : ℤ, (n : ℤ) = m := ⟨_, rfl⟩
  have hpos : 0 < r := by
    have haudio' := cfg.audioRate_pos
    omega
  have hfew : int32 ((int32 (int32 (int32 (m * r) + r) - 1)).tdiv r * 4) ≤ 4 * m := by
    have hmod := int32_emod ((int32 (int32 (int32 (m * r) + r) - 1)).tdiv r * 4)
    by_contra hmore
    have hle := ceiling_le (x := m * r) (r := r) (n := m + 1) (mul_nonneg (by omega) hpos.le) hpos
      (by omega) (by omega)
    rw [add_mul] at hle
    omega
  have hexact := ceiling_eq_iff (r := r) (n := m) hpos (by omega) (by omega) (by omega)
  have hcast : (n * cfg.esdAudioRate + cfg.esdAudioRate ≤ 2 ^ 31) ↔ m * r + r ≤ 2 ^ 31 := by
    rw [← hm, ← hr]
    exact_mod_cast Iff.rfl
  simp only [translated, hframes, rate, hr, hm] at hroom ⊢
  rw [if_neg (not_lt.mpr (hfew.trans hroom)), hcast]
  exact ⟨hfew, hexact⟩

theorem translated_lt (length : ℤ) : translated cfg pl length < 2 ^ 31 := by
  simp only [translated]
  split_ifs with hmore
  · exact hmore.trans (int32_range _).2
  · exact (int32_range _).2

theorem frames_octets (hlen : 0 ≤ pl.actualLength) :
    (pl.frames : ℤ) * frameOctets pl ≤ pl.actualLength := by
  obtain ⟨hframe, -⟩ := frameOctets_pos pl
  rw [EsdPlayer.frames, Int.toNat_of_nonneg (Int.ediv_nonneg hlen hframe.le)]
  exact Int.ediv_mul_le _ hframe.ne'

theorem usedOctets_frames (rate : pl.rate = r) (hle : r ≤ cfg.esdAudioRate)
    (hfit : 2 * n * r < 2 ^ 31) (hint : 4 * n < 2 ^ 31) :
    usedOctets cfg pl (4 * n) = frameOctets pl * sourceAt r cfg.esdAudioRate n := by
  have hprod : ((n : ℤ) * r) % 2 ^ 64 = (n * r : ℕ) := by
    rw [← Nat.cast_mul]
    apply Int.emod_eq_of_lt (Int.natCast_nonneg _)
    rw [Nat.mul_assoc] at hfit
    omega
  have hused : (4 * (n : ℤ)) / 4 * pl.rate % 2 ^ 64 / cfg.esdAudioRate =
      sourceAt r cfg.esdAudioRate n := by
    rw [Int.mul_ediv_cancel_left _ (by norm_num), rate, hprod, sourceAt, Int.natCast_ediv]
  have hsmall : sourceAt r cfg.esdAudioRate n ≤ n := by
    apply Nat.div_le_of_le_mul
    rw [Nat.mul_comm cfg.esdAudioRate]
    exact Nat.mul_le_mul_left n hle
  obtain ⟨x, hx⟩ : ∃ x, sourceAt r cfg.esdAudioRate n = x := ⟨_, rfl⟩
  clear hprod
  rw [hx] at hsmall hused ⊢
  have h₁ := int32_of_range (x := (x : ℤ)) (by omega) (by omega)
  have h₂ := int32_of_range (x := (x : ℤ) * 2) (by omega) (by omega)
  have h₃ := int32_of_range (x := (x : ℤ) * 2 * 2) (by omega) (by omega)
  simp only [usedOctets, frameOctets, hused, h₁]
  split_ifs <;> simp_all <;> omega

/-- The frames of the player behind `n` frames of the mix, in their order. -/
def mixedFrames (cfg : Config) (pl : EsdPlayer) (data : Mem) (n : ℕ) : List (List Octet) :=
  (sources pl.rate.toNat cfg.esdAudioRate n).map (data.frame (frameOctets pl).toNat)

/-- A cycle in which the player has its own function, a rate that is not above the one of the
device, and all that it is asked for. -/
structure Gives (cfg : Config) (pl : EsdPlayer) (n : ℕ) : Prop where
  func : pl.mixFunc = getMixFunc pl
  found : pl.mixFunc ≠ none
  nonneg : 0 ≤ pl.actualLength
  rate_pos : 0 < pl.rate
  rate_le : pl.rate ≤ cfg.esdAudioRate
  fits : 2 * n * pl.rate < 2 ^ 31
  some : 0 < n
  length : 4 * n ≤ translated cfg pl cfg.esdBufSizeOctets

/-- From `s` on the player was mixed in such cycles, with anything between them that leaves it
what it is and only adds to its buffer. `stream` is all that came into the buffer, `frames` what
was mixed of it. -/
inductive Cycles (cfg : Config) (p : Ptr) (s : Server) :
    List Octet → List (List Octet) → Server → Prop
  | start : Cycles cfg p s (s.held p) [] s
  | cycle {stream : List Octet} {frames : List (List Octet)} {t : Server} {n : ℕ} (most : ℤ)
      (h : Cycles cfg p s stream frames t) (gives : Gives cfg (t.player p) n) :
      Cycles cfg p s stream (frames ++ mixedFrames cfg (t.player p) (t.playerData p) n)
        (mixOne cfg (4 * n) (t, most) p).1
  | between {stream bs : List Octet} {frames : List (List Octet)} {t u : Server}
      (h : Cycles cfg p s stream frames t) (same : (u.player p).SameKind (t.player p))
      (held : u.held p = t.held p ++ bs) : Cycles cfg p s (stream ++ bs) frames u

end Player

/-! ## Frames of a stream -/

/-- A frame of the octets that came in. -/
def frameOf (octets : ℕ) (stream : List Octet) (k : ℕ) : List Octet :=
  (stream.drop (k * octets)).take octets

section Stream

variable {octets k : ℕ} {stream bs : List Octet}

theorem frameOf_append (h : (k + 1) * octets ≤ stream.length) :
    frameOf octets (stream ++ bs) k = frameOf octets stream k := by
  rw [Nat.succ_mul] at h
  rw [frameOf, List.drop_append_of_le_length (by omega), frameOf, List.take_append_of_le_length]
  rw [List.length_drop]
  omega

theorem frameOf_drop (start : ℕ) :
    frameOf octets (stream.drop (start * octets)) k = frameOf octets stream (start + k) := by
  rw [frameOf, frameOf, List.drop_drop, Nat.add_mul]

theorem frame_eq_frameOf (m : Mem) {length : ℕ} (h : (k + 1) * octets ≤ length) :
    m.frame octets k = frameOf octets (load m 0 length) k := by
  obtain ⟨rest, rfl⟩ := Nat.exists_eq_add_of_le h
  have hall := load_add m 0 (k * octets) (octets + rest)
  have hframe := load_add m (k * octets) octets rest
  rw [Nat.cast_zero, zero_add] at hall
  rw [Nat.succ_mul, Nat.add_assoc, frameOf, hall, hframe, Mem.frame,
    List.drop_left' (load_length _ _ _), List.take_left' (load_length _ _ _)]

end Stream

section Cycle

variable {cfg : Config} {s t : Server} {p : Ptr}

theorem consume_held {used : ℕ} (h : used ≤ (s.player p).actualLength) :
    (consume s p used).held p = (s.held p).drop used := by
  obtain ⟨rest, hrest⟩ := Int.eq_ofNat_of_zero_le (sub_nonneg.mpr h)
  have hlen : (s.player p).actualLength.toNat = used + rest := by omega
  have hall := load_add (s.playerData p) 0 used rest
  rw [Nat.cast_zero, zero_add] at hall
  simp only [consume, hrest]
  split_ifs with hpos
  · simp only [held_eq, Server.setPlayer, Server.setPlayerData, Server.emit, Function.update_self,
      Int.toNat_natCast, hlen, hall, load_moveDown, List.drop_left' (load_length _ _ _)]
  · obtain rfl : rest = 0 := by omega
    simp only [held_eq, Server.setPlayer, Server.emit, Function.update_self, hlen, hall,
      List.drop_left' (load_length _ _ _), Int.toNat_zero, load_zero]

section Gives

variable {pl : EsdPlayer} {f : MixFunc} {r n : ℕ} (rate : pl.rate = r)

theorem Gives.available_le (h : Gives cfg pl n) (rate : pl.rate = r) :
    n ≤ available r cfg.esdAudioRate pl.frames := by
  have hpos := h.rate_pos
  exact translated_le rate (by omega) h.nonneg h.some h.length

theorem Gives.sourceAt_lt (h : Gives cfg pl n) (rate : pl.rate = r) {k : ℕ} (hk : k < n) :
    sourceAt r cfg.esdAudioRate k < pl.frames := by
  have hpos := h.rate_pos
  exact Library.Resampling.sourceAt_lt (by omega) (hk.trans_le (h.available_le rate))

theorem Gives.sourceAt_le (h : Gives cfg pl n) (rate : pl.rate = r) :
    sourceAt r cfg.esdAudioRate n ≤ pl.frames := by
  have hpos := h.rate_pos
  have hle := h.rate_le
  exact Library.Resampling.sourceAt_le (by omega) (by omega) (h.available_le rate)

end Gives

theorem frames_held (hlen : 0 ≤ (t.player p).actualLength) :
    (t.player p).frames * (frameOctets (t.player p)).toNat ≤ (t.held p).length := by
  obtain ⟨hframe, -⟩ := frameOctets_pos (t.player p)
  have hroom := frames_octets hlen
  rw [held_eq, load_length]
  zify
  rw [Int.toNat_of_nonneg hframe.le, Int.toNat_of_nonneg hlen]
  exact hroom

theorem mixOne_gives {n : ℕ} (haudio : cfg.esdAudioRate < 2 ^ 31) (most : ℤ)
    (gives : Gives cfg (t.player p) n) :
    ((mixOne cfg (4 * n) (t, most) p).1.player p).SameKind (t.player p) ∧
      (mixOne cfg (4 * n) (t, most) p).1.held p = (t.held p).drop
        (sourceAt (t.player p).rate.toNat cfg.esdAudioRate n * (frameOctets (t.player p)).toNat) := by
  obtain ⟨r, hr⟩ := Int.eq_ofNat_of_zero_le gives.rate_pos.le
  obtain ⟨f, hf⟩ := Option.ne_none_iff_exists'.mp gives.found
  obtain ⟨hframe, -⟩ := frameOctets_pos (t.player p)
  obtain ⟨octets, hoctets⟩ := Int.eq_ofNat_of_zero_le hframe.le
  have hfit : 2 * n * r < 2 ^ 31 := by
    have hfits := gives.fits
    rw [hr] at hfits
    exact_mod_cast hfits
  have hle : r ≤ cfg.esdAudioRate := by
    have hrate := gives.rate_le
    omega
  have hfew := gives.sourceAt_le hr
  have hsome := gives.some
  have hint : 4 * n < 2 ^ 31 := by
    have hlength := gives.length.trans_lt (translated_lt _)
    omega
  have hpos : 0 < (t.player p).actualLength := by
    by_contra hnone
    have hframes : (t.player p).frames = 0 := by
      have hzero : (t.player p).actualLength = 0 := le_antisymm (not_lt.mp hnone) gives.nonneg
      rw [EsdPlayer.frames, hzero, Int.zero_ediv, Int.toNat_zero]
    have hlt := gives.sourceAt_lt hr hsome
    omega
  have hused : usedOctets cfg (t.player p) (4 * n) = _ := usedOctets_frames hr hle hfit hint
  have hroom := frames_octets gives.nonneg
  have hreturn : (f.apply cfg (t.player p) (t.playerData p) (4 * n) t.mixedBuffer).2 = 4 * n := by
    rw [f.apply_frames hr haudio hfit]
    simp only [mixFrames, length_entries, pairRounds_double]
  rw [hoctets] at hused hroom ⊢
  have hle' : octets * sourceAt r cfg.esdAudioRate n ≤ (t.player p).actualLength := by
    refine le_trans ?_ hroom
    rw [mul_comm]
    exact_mod_cast Nat.mul_le_mul_right octets hfew
  simp only [mixOne, hf, gt_iff_lt, hpos, if_true, hreturn, hused, hr, Int.toNat_natCast]
  generalize (f.apply cfg (t.player p) (t.playerData p) (4 * n) t.mixedBuffer).1 = mixed
  obtain ⟨v, hplayer, kind, -⟩ := consume_player (s := { t with mixedBuffer := mixed }) (p := p)
    (octets * sourceAt r cfg.esdAudioRate n)
  have hheld := consume_held (s := { t with mixedBuffer := mixed }) (p := p) hle'
  refine ⟨?_, ?_⟩
  · rw [hplayer, Function.update_self]
    exact kind
  · rw [Nat.mul_comm]
    exact hheld

end Cycle

/-! ## Cycle after cycle -/

/-- The frames are those of the stream with these numbers, from the first one on and without a
gap. -/
structure InOrder (octets : ℕ) (stream : List Octet) (ns : List ℕ) (frames : List (List Octet)) :
    Prop where
  steady : Steady ns
  first : ∀ k ∈ ns.head?, k = 0
  whole : ∀ k ∈ ns, (k + 1) * octets ≤ stream.length
  frames_eq : frames = ns.map (frameOf octets stream)

/-- Where a sequence of cycles has come to: the buffer holds the stream from the frame `start`
on. -/
structure Reached (octets : ℕ) (stream : List Octet) (ns : List ℕ) (start : ℕ)
    (held : List Octet) : Prop where
  within : start * octets ≤ stream.length
  held_eq : held = stream.drop (start * octets)
  last : ∀ k ∈ ns.getLast?, start = k ∨ start = k + 1
  begins : ns = [] → start = 0

section Sequence

variable {octets start n r a : ℕ} {stream bs held : List Octet} {ns : List ℕ}
  {frames : List (List Octet)}

theorem InOrder.append (h : InOrder octets stream ns frames) :
    InOrder octets (stream ++ bs) ns frames where
  steady := h.steady
  first := h.first
  whole k hk := by
    rw [List.length_append]
    exact (h.whole k hk).trans (Nat.le_add_right _ _)
  frames_eq := by
    rw [h.frames_eq]
    exact List.map_congr_left fun k hk => (frameOf_append (h.whole k hk)).symm

theorem Reached.append (h : Reached octets stream ns start held) :
    Reached octets (stream ++ bs) ns start (held ++ bs) where
  within := h.within.trans (by simp)
  held_eq := by rw [h.held_eq, List.drop_append_of_le_length h.within]
  last := h.last
  begins := h.begins

theorem InOrder.cycle (h : InOrder octets stream ns frames)
    (hr : Reached octets stream ns start held) (hle : r ≤ a)
    (hn : ∀ k < n, (sourceAt r a k + 1) * octets ≤ held.length) :
    InOrder octets stream (ns ++ (sources r a n).map (start + ·))
      (frames ++ (sources r a n).map (frameOf octets held)) where
  steady := h.steady.append_sources hle hr.last
  first := by
    intro k hk
    rcases ns.eq_nil_or_concat with rfl | ⟨ms, m, rfl⟩
    · rw [hr.begins rfl] at hk
      cases n with
      | zero => simp [sources] at hk
      | succ n =>
        simpa [sources, List.range_succ_eq_map, sourceAt, eq_comm] using hk
    · rw [List.head?_append_of_ne_nil _ (by simp)] at hk
      exact h.first k hk
  whole := by
    intro k hk
    rcases List.mem_append.mp hk with hold | hnew
    · exact h.whole k hold
    · obtain ⟨j, hj, rfl⟩ := List.mem_map.mp hnew
      obtain ⟨i, hi, rfl⟩ := List.mem_map.mp hj
      have hin := hn i (List.mem_range.mp hi)
      rw [hr.held_eq, List.length_drop] at hin
      have hwithin := hr.within
      rw [Nat.add_assoc, Nat.add_mul]
      omega
  frames_eq := by
    rw [h.frames_eq, List.map_append, List.map_map]
    congr 1
    apply List.map_congr_left
    intro k _
    rw [hr.held_eq]
    exact frameOf_drop start

theorem Reached.cycle (hr : Reached octets stream ns start held) (hle : r ≤ a) (hpos : 0 < n)
    (hn : sourceAt r a n * octets ≤ held.length) :
    Reached octets stream (ns ++ (sources r a n).map (start + ·)) (start + sourceAt r a n)
      (held.drop (sourceAt r a n * octets)) where
  within := by
    have hwithin := hr.within
    rw [hr.held_eq, List.length_drop] at hn
    rw [Nat.add_mul]
    omega
  held_eq := by rw [hr.held_eq, List.drop_drop, Nat.add_mul]
  last := by
    intro k hk
    obtain ⟨m, rfl⟩ : ∃ m, n = m + 1 := ⟨n - 1, by omega⟩
    have hlast := last_sourceAt hle hpos
    simp [sources, List.range_succ] at hk hlast
    omega
  begins := by
    intro hnil
    obtain ⟨m, rfl⟩ : ∃ m, n = m + 1 := ⟨n - 1, by omega⟩
    simp [sources, List.range_succ] at hnil

end Sequence

theorem Cycles.inOrder {cfg : Config} {s t : Server} {p : Ptr} {stream : List Octet}
    {frames : List (List Octet)} (haudio : cfg.esdAudioRate < 2 ^ 31)
    (h : Cycles cfg p s stream frames t) :
    (t.player p).SameKind (s.player p) ∧ ∃ ns start,
      InOrder (frameOctets (s.player p)).toNat stream ns frames ∧
        Reached (frameOctets (s.player p)).toNat stream ns start (t.held p) := by
  induction h with
  | start =>
    refine ⟨.refl _, [], 0, ⟨List.isChain_nil, by simp, by simp, rfl⟩, ⟨by simp, by simp, by simp, fun _ => rfl⟩⟩
  | between h same held ih =>
    obtain ⟨kind, ns, start, horder, hreached⟩ := ih
    rw [held]
    exact ⟨same.trans kind, ns, start, horder.append, hreached.append⟩
  | @cycle stream frames t n most h gives ih =>
    obtain ⟨kind, ns, start, horder, hreached⟩ := ih
    obtain ⟨hkind, hheld⟩ := mixOne_gives haudio most gives
    obtain ⟨r, hr⟩ := Int.eq_ofNat_of_zero_le gives.rate_pos.le
    have hle : r ≤ cfg.esdAudioRate := by
      have hrate := gives.rate_le
      omega
    have hroom : ∀ k ≤ (t.player p).frames, k * (frameOctets (s.player p)).toNat ≤ (t.held p).length :=
      fun k hk => (Nat.mul_le_mul_right _ hk).trans (kind.frameOctets ▸ frames_held gives.nonneg)
    have hframes : mixedFrames cfg (t.player p) (t.playerData p) n =
        (sources r cfg.esdAudioRate n).map (frameOf (frameOctets (s.player p)).toNat (t.held p)) := by
      rw [mixedFrames, hr, Int.toNat_natCast, kind.frameOctets]
      apply List.map_congr_left
      intro m hm
      obtain ⟨k, hk, rfl⟩ := List.mem_map.mp hm
      have hin := hroom _ (gives.sourceAt_lt hr (List.mem_range.mp hk))
      rw [held_eq, load_length] at hin
      exact frame_eq_frameOf _ hin
    rw [hheld, hframes, hr, Int.toNat_natCast, kind.frameOctets]
    exact ⟨hkind.trans kind, _, _,
      horder.cycle hreached hle fun k hk => hroom _ (gives.sourceAt_lt hr hk),
      hreached.cycle hle gives.some (hroom _ (gives.sourceAt_le hr))⟩

/-! ## In every cycle and over all of them -/

/-- A player is mixed from whole frames it has. If its rate is not above that of the device, it
gives up the frames that were mixed, but perhaps the last one of them; and over any sequence
of cycles its frames are mixed from the first one on, none left out and none after a later one. -/
theorem mixer_consumption (cfg : Config) (haudio : cfg.esdAudioRate < 2 ^ 31) :
    (∀ (pl : EsdPlayer) (f : MixFunc) (data : Mem) (mixed : ℕ → ℤ) (r n : ℕ) (length : ℤ),
      getMixFunc pl = some f → pl.rate = r → 0 < r → 0 ≤ pl.actualLength → 0 < n →
      4 * n ≤ translated cfg pl length → 2 * n * r < 2 ^ 31 →
      f.apply cfg pl data (4 * n) mixed =
        mixFrames (fun wr => f.voice pl
          (data.frame (frameOctets pl).toNat (sourceAt r cfg.esdAudioRate (wr / 2)))) (4 * n) mixed ∧
      (∀ k < n, sourceAt r cfg.esdAudioRate k < pl.frames) ∧
      (r ≤ cfg.esdAudioRate → ∃ used : ℕ,
        usedOctets cfg pl (f.apply cfg pl data (4 * n) mixed).2 = frameOctets pl * used ∧
        used ≤ pl.frames ∧
        (∀ m < used, ∃ k < n, sourceAt r cfg.esdAudioRate k = m) ∧
        (used = sourceAt r cfg.esdAudioRate (n - 1) ∨
          used = sourceAt r cfg.esdAudioRate (n - 1) + 1))) ∧
    ∀ (p : Ptr) (s t : Server) (stream : List Octet) (frames : List (List Octet)),
      Cycles cfg p s stream frames t →
      ∃ ns, InOrder (frameOctets (s.player p)).toNat stream ns frames := by
  refine ⟨fun pl f data mixed r n length hf rate hr hlen hn hL hfit => ?_,
    fun p s t stream frames h => ?_⟩
  · have hint : 4 * n < 2 ^ 31 := by
      have hlength := hL.trans_lt (translated_lt _)
      omega
    have havail := translated_le rate hr hlen hn hL
    have happly := f.apply_frames rate haudio hfit data mixed
    have hoctets : f.octets = (frameOctets pl).toNat := by
      rw [getMixFunc_octets hf, Int.toNat_natCast]
    refine ⟨hoctets ▸ happly, fun k hk => sourceAt_lt hr (hk.trans_le havail), fun hle => ?_⟩
    have hreturn : (f.apply cfg pl data (4 * n) mixed).2 = 4 * n := by
      rw [happly]
      simp only [mixFrames, length_entries, pairRounds_double]
    refine ⟨sourceAt r cfg.esdAudioRate n, ?_, sourceAt_le hr hle havail,
      fun m hm => exists_sourceAt hle hm, last_sourceAt hle hn⟩
    rw [hreturn]
    exact usedOctets_frames rate hle hfit hint
  · obtain ⟨-, ns, -, horder, -⟩ := h.inOrder haudio
    exact ⟨ns, horder⟩

/-- Two frames of a mono player at half the rate of the device. -/
def halfRate : Server :=
  { Server.blank with
    player := fun _ =>
      { Server.blank.player 0 with
        format := esdBits16 ||| esdMono
        rate := 22050
        leftVolScale := esdVolumeBase
        rightVolScale := esdVolumeBase
        bufferLength := 4
        actualLength := 4
        mixFunc := some .mono16sSv }
    playerData := fun _ => store (fun _ => 0) 0 [1, 2, 3, 4] }

theorem halfRate_gives : Gives .smallBlocks (halfRate.player 1) 4 :=
  ⟨by decide +kernel, by decide +kernel, by decide +kernel, by decide +kernel, by decide +kernel,
    by decide +kernel, by decide +kernel, by decide +kernel⟩

theorem mixer_consumption_halfRate :
    (∀ k < 4, sourceAt 22050 44100 k < 2) ∧
      ∃ ns, InOrder 2 [1, 2, 3, 4] ns [[1, 2], [1, 2], [3, 4], [3, 4]] := by
  obtain ⟨hcycle, hcycles⟩ := mixer_consumption .smallBlocks (by decide)
  have hreads := (hcycle (halfRate.player 1) .mono16sSv (halfRate.playerData 1) (fun _ => 0) 22050 4 16
    (by decide +kernel) (by decide +kernel) (by decide) (by decide +kernel) (by decide)
    (by decide +kernel) (by decide)).2.1
  have hframes : (halfRate.player 1).frames = 2 := by decide +kernel
  have horder := hcycles 1 halfRate _ _ _ (.cycle 0 .start halfRate_gives)
  have hoctets : (frameOctets (halfRate.player 1)).toNat = 2 := by decide +kernel
  have hheld : halfRate.held 1 = [1, 2, 3, 4] := by decide +kernel
  have hmixed : mixedFrames .smallBlocks (halfRate.player 1) (halfRate.playerData 1) 4 =
      [[1, 2], [1, 2], [3, 4], [3, 4]] := by decide +kernel
  rw [hoctets, hheld, hmixed] at horder
  rw [hframes] at hreads
  exact ⟨hreads, horder⟩

end Esound
