import Esound.Library.Cyclic
import Esound.Playback

/-!
# Samples that are looped

A player that loops fills its buffer from its sample, going round as often as it takes.
Where the sample ends in the middle of a buffer it starts again; where the two end
together the position is left at the end, and the next cycle finds nothing to copy.
-/

open Library.Buffer Library.Loop Library.Transition Library.Cyclic

namespace Esound

section Loops

variable {sm : EsdSample} {m : Mem} {len b x : ℕ}

/-- The loop of `read_player` has filled the buffer with `n` octets of the sample from `x` on. -/
def Around (m : Mem) (len b x n : ℕ) (r : SampleRead) : Prop :=
  ∃ y : ℕ, r.pl.lastPos = y ∧ r.pl.actualLength = n ∧ r.pl.bufferLength = b ∧ r.going = true ∧
    (y < len ∨ n < b ∧ y = len) ∧ n ≤ b ∧ y % len = (x + n) % len ∧
    load r.data 0 n = cyclic m len x n

theorem wrapChunk_around {n : ℕ} {r : SampleRead} {y : ℕ} (hlen : sm.sampleLength = len)
    (unstopped : sm.format &&& esdMaskFunc ≠ esdStop) (hpos : 0 < len)
    (hlast : r.pl.lastPos = y) (hlength : r.pl.actualLength = n) (hbuffer : r.pl.bufferLength = b)
    (hgoing : r.going = true) (hle : y ≤ len) (hn : n ≤ b) (hmod : y % len = (x + n) % len)
    (hdata : load r.data 0 n = cyclic m len x n) :
    Around m len b x n (wrapChunk sm r) ∧ (wrapChunk sm r).pl.lastPos < len := by
  simp only [wrapChunk]
  split_ifs with hend
  · have hy : y = len := by omega
    refine ⟨⟨0, rfl, hlength, hbuffer, ?_, .inl hpos, hn, ?_, hdata⟩,
      Int.natCast_pos.mpr hpos⟩
    · simpa using unstopped
    · rw [← hmod, hy, Nat.mod_self, Nat.zero_mod]
  · have hy : y < len := by omega
    exact ⟨⟨y, hlast, hlength, hbuffer, hgoing, .inl hy, hn, hmod, hdata⟩, by omega⟩

theorem copyChunk_data {n k y : ℕ} {r : SampleRead} (hlast : r.pl.lastPos = y)
    (hlength : r.pl.actualLength = n) (hmod : y % len = (x + n) % len) (hfits : y + k ≤ len)
    (hdata : load r.data 0 n = cyclic m len x n) :
    load (copyChunk m k r).data 0 (n + k) = cyclic m len x (n + k) := by
  have happend := load_store_append r.data n (load m (y : ℤ) k)
  rw [load_length] at happend
  simp only [copyChunk, hlast, hlength, Int.toNat_natCast]
  rw [happend, hdata, load_eq_cyclic m len y hfits, cyclic_congr m len hmod, ← cyclic_add]

theorem loopRound_around {r : SampleRead} {n : ℕ} (hlen : sm.sampleLength = len) (hpos : 0 < len)
    (unstopped : sm.format &&& esdMaskFunc ≠ esdStop) (h : Around m len b x n r) (hn : n < b) :
    ∃ r' k, loopRound sm m r = some r' ∧ 0 < k ∧ Around m len b x (n + k) r' := by
  obtain ⟨y, hlast, hlength, hbuffer, hgoing, hy, hnb, hmod, hdata⟩ := h
  obtain ⟨⟨y', hlast', hlength', hbuffer', hgoing', -, -, hmod', hdata'⟩, hlt⟩ :=
    wrapChunk_around hlen unstopped hpos hlast hlength hbuffer hgoing (by omega) hnb hmod hdata
  obtain ⟨k, hk⟩ : ∃ k, min (len - y') (b - n) = k := ⟨_, rfl⟩
  have hchunk : sampleChunk sm (wrapChunk sm r).pl = k := by
    simp only [sampleChunk, hlen, hlast', hlength', hbuffer']
    omega
  have hround : loopRound sm m r = some (wrapChunk sm (copyChunk m k (wrapChunk sm r))) := by
    have hroom : r.pl.actualLength < r.pl.bufferLength := by omega
    have hcopies : (k : ℤ) > 0 := by omega
    simp only [loopRound, hgoing, hroom, hgoing', hchunk, hcopies, and_self, if_true]
  have hcopied : Around m len b x (n + k) (wrapChunk sm (copyChunk m k (wrapChunk sm r))) ∧ _ :=
    wrapChunk_around (y := y' + k) hlen unstopped hpos
      (by dsimp only [copyChunk]; omega) (by dsimp only [copyChunk]; omega) hbuffer' hgoing'
      (by omega) (by omega)
      (by rw [Nat.add_mod, hmod', ← Nat.add_mod, Nat.add_assoc])
      (copyChunk_data hlast' hlength' hmod' (by omega) hdata')
  exact ⟨_, k, hround, by omega, hcopied.1⟩

theorem loopRound_around_lt {n : ℕ} {r r' : SampleRead} (h : Around m len b x n r)
    (hround : loopRound sm m r = some r') : n < b := by
  obtain ⟨-, -, hlength, hbuffer, -⟩ := h
  by_contra hge
  have hout : ¬ (r.going = true ∧ r.pl.actualLength < r.pl.bufferLength) := by omega
  simp only [loopRound, if_neg hout] at hround
  cases hround

/-- The loop is left when the buffer is full. -/
theorem whileFuel_around {n : ℕ} {r : SampleRead} (hlen : sm.sampleLength = len) (hpos : 0 < len)
    (unstopped : sm.format &&& esdMaskFunc ≠ esdStop) (h : Around m len b x n r) :
    Around m len b x b
      (whileFuel (loopRound sm m) ((r.pl.bufferLength - r.pl.actualLength).toNat + 1) r) := by
  have hpreserved : ∀ r r', (∃ n, Around m len b x n r) → loopRound sm m r = some r' →
      (∃ n, Around m len b x n r') ∧ (b - r'.pl.actualLength).toNat < (b - r.pl.actualLength).toNat := by
    rintro r r' ⟨n, h⟩ hround
    obtain ⟨r'', l, hround', hl, h'⟩ :=
      loopRound_around hlen hpos unstopped h (loopRound_around_lt h hround)
    cases Option.some.inj (hround.symm.trans hround')
    obtain ⟨-, -, hlength, -⟩ := h
    obtain ⟨-, -, hlength', -, -, -, hle, -⟩ := id h'
    exact ⟨⟨_, h'⟩, by omega⟩
  have hbuffer : r.pl.bufferLength = b := by
    obtain ⟨-, -, -, hbuffer, -⟩ := h
    exact hbuffer
  have hexit := whileFuel_exits (fun r => ∃ n, Around m len b x n r)
    (fun r : SampleRead => (b - r.pl.actualLength).toNat)
    (fun r r' h hround => (hpreserved r r' h hround).1)
    (fun r r' h hround => (hpreserved r r' h hround).2)
    ((r.pl.bufferLength - r.pl.actualLength).toNat + 1) ⟨n, h⟩ (by rw [hbuffer]; omega)
  obtain ⟨n', hend⟩ := whileFuel_invariant (fun r => ∃ n, Around m len b x n r)
    (fun r r' h hround => (hpreserved r r' h hround).1)
    ((r.pl.bufferLength - r.pl.actualLength).toNat + 1) ⟨n, h⟩
  have hn : n' = b := by
    obtain ⟨-, -, -, -, -, -, hle, -⟩ := id hend
    by_contra hne
    obtain ⟨r', l, hround, -⟩ := loopRound_around hlen hpos unstopped hend (by omega)
    rw [hexit] at hround
    cases hround
  exact hn ▸ hend

/-- A player that loops fills its buffer, going round the sample as often as it takes. Its position
is at the end of the sample only if the sample ended where the buffer did. -/
theorem fillFromSample_around (m data : Mem) {pl : EsdPlayer} (hlen : sm.sampleLength = len)
    (unstopped : sm.format &&& esdMaskFunc ≠ esdStop)
    (loops : pl.format &&& esdMaskFunc = esdLoop) (hx : x < len)
    (hlast : pl.lastPos = x) (hempty : pl.actualLength = 0) (hbuffer : pl.bufferLength = b) :
    (fillFromSample sm m pl data).pl.actualLength = b ∧
      load (fillFromSample sm m pl data).data 0 b = cyclic m len x b ∧
      (fillFromSample sm m pl data).pl.lastPos =
        if x + b ≤ len then ((x + b : ℕ) : ℤ) else ((x + b) % len : ℕ) := by
  obtain ⟨k, hk⟩ : ∃ k, min (len - x) b = k := ⟨_, rfl⟩
  obtain ⟨r, hr⟩ : ∃ r, copyChunk m k ⟨pl, data, 0, true⟩ = r := ⟨_, rfl⟩
  have hchunk : sampleChunk sm pl = k := by
    simp only [sampleChunk, hlen, hlast, hempty, hbuffer]
    omega
  have hrlast : r.pl.lastPos = (x + k : ℕ) := by
    rw [← hr]
    dsimp only [copyChunk]
    omega
  have hrlength : r.pl.actualLength = k := by
    rw [← hr]
    dsimp only [copyChunk]
    omega
  have hrbuffer : r.pl.bufferLength = b := by
    rw [← hr]
    exact hbuffer
  have hrdata : load r.data 0 k = cyclic m len x k := by
    have hcopy : load (copyChunk m k ⟨pl, data, 0, true⟩).data 0 (0 + k) = cyclic m len x (0 + k) :=
      copyChunk_data hlast hempty (by simp) (by omega) (by simp)
    rw [← hr]
    simpa using hcopy
  have hfill : fillFromSample sm m pl data =
      if r.pl.actualLength = r.pl.bufferLength ∨ pl.format &&& esdMaskFunc ≠ esdLoop then r
      else whileFuel (loopRound sm m) ((r.pl.bufferLength - r.pl.actualLength).toNat + 1) r := by
    simp only [fillFromSample, hchunk, hr]
  rw [hfill]
  by_cases hfits : x + b ≤ len
  · have hkb : k = b := by omega
    rw [if_pos (.inl (by rw [hrlength, hrbuffer, hkb])), if_pos hfits, ← hkb]
    exact ⟨hrlength, hrdata, hrlast⟩
  · have hnot : ¬ (r.pl.actualLength = r.pl.bufferLength ∨ pl.format &&& esdMaskFunc ≠ esdLoop) := by
      rintro (hfull | hloops)
      · omega
      · exact hloops loops
    rw [if_neg hnot, if_neg hfits]
    have haround : Around m len b x k r :=
      ⟨x + k, hrlast, hrlength, hrbuffer, by rw [← hr]; rfl, by omega, by omega, rfl, hrdata⟩
    have hend := whileFuel_around hlen (by omega) unstopped haround
    obtain ⟨y, hlast', hlength', -, -, hy, -, hmod, hdata'⟩ := hend
    have hlt : y < len := by omega
    refine ⟨hlength', hdata', ?_⟩
    rw [hlast', ← hmod, Nat.mod_eq_of_lt hlt]

end Loops

/-- The mixing cycles of a run. -/
def cycles (as : List Action) : ℕ := as.countP fun a => a.IsMix

theorem cycles_mix (canRead : Ptr → Bool) (as : List Action) :
    cycles (.mix canRead :: as) = cycles as + 1 :=
  List.countP_cons_of_pos (decide_eq_true trivial)

theorem cycles_of_not_mix {a : Action} (h : ¬ a.IsMix) (as : List Action) :
    cycles (a :: as) = cycles as :=
  List.countP_cons_of_neg (by simpa using h)

/-- A cycle uses all that is in the buffer of the player. -/
def UsesAll (cfg : Config) (p : Ptr) (s : Server) : Action → Prop
  | .mix canRead => ((mixPlayers cfg canRead s).1.player p).actualLength = 0
  | _ => True

section Looping

variable {cfg : Config} {p : Ptr} {s t u : Server} {len b : ℕ}

/-- A player that loops and has an empty buffer, after `n` cycles. -/
structure Looped (p : Ptr) (len b : ℕ) (s : Server) (n : ℕ) (t : Server) : Prop where
  same : SamePlay p s t
  story : s.story p <+: t.story p
  actualLength : (t.player p).actualLength = 0
  rounds : len < b ∨ n ≤ len / Nat.gcd len b
  lastPos : (t.player p).lastPos =
    if b ≤ len ∧ n = len / Nat.gcd len b then (len : ℤ) else (n * b % len : ℕ)
  used : usedSince p s t = cyclic (s.sampleData (s.player p).parent) len 0 (n * b)

theorem Uninvolved.looped {n : ℕ} (h : Uninvolved p t u) (hs : Looped p len b s n t) :
    Looped p len b s n u where
  same := hs.same.trans h.toSamePlay
  story := h.story ▸ hs.story
  actualLength := h.actualLength.trans hs.actualLength
  rounds := hs.rounds
  lastPos := h.lastPos.trans hs.lastPos
  used := (h.usedSince hs.story).trans hs.used

theorem next_position {n : ℕ} (hb : 0 < b)
    (hrounds : len < b ∨ n < len / Nat.gcd len b) :
    (if n * b % len + b ≤ len then ((n * b % len + b : ℕ) : ℤ)
      else ((n * b % len + b) % len : ℕ)) =
      if b ≤ len ∧ n + 1 = len / Nat.gcd len b then (len : ℤ) else ((n + 1) * b % len : ℕ) := by
  have hmod : (n + 1) * b % len = (n * b % len + b) % len := by
    rw [add_mul, one_mul, Nat.mod_add_mod]
  by_cases hle : b ≤ len
  · have hends := round_ends_iff hb hle (hrounds.resolve_left (by omega))
    by_cases hlast : n + 1 = len / Nat.gcd len b
    · have hfull := hends.mpr hlast
      rw [if_pos hfull.le, if_pos ⟨hle, hlast⟩, hfull]
    · have hne : n * b % len + b ≠ len := fun h => hlast (hends.mp h)
      rw [if_neg (fun h : b ≤ len ∧ n + 1 = len / Nat.gcd len b => hlast h.2), hmod]
      by_cases hfits : n * b % len + b ≤ len
      · rw [if_pos hfits, Nat.mod_eq_of_lt (lt_of_le_of_ne hfits hne)]
      · rw [if_neg hfits]
  · have hout : ¬ n * b % len + b ≤ len := by omega
    rw [if_neg hout, if_neg (fun h : b ≤ len ∧ n + 1 = len / Nat.gcd len b => hle h.1), hmod]

variable (hs : AtStart s p) (loops : (s.player p).format &&& esdMaskFunc = esdLoop)
  (hlen : (s.sample (s.player p).parent).sampleLength = len)
  (hb : (s.player p).bufferLength = b)

include hs loops hlen hb

theorem mixPlayers_looped {canRead : Ptr → Bool} {n : ℕ} (hw : t.objects.WellFormed)
    (hp : p ∈ t.esdPlayersList) (h : Looped p len b s n t)
    (hall : ((mixPlayers cfg canRead t).1.player p).actualLength = 0) :
    p ∈ (mixPlayers cfg canRead t).1.esdPlayersList ∧
        Looped p len b s (n + 1) (mixPlayers cfg canRead t).1 ∨
      p ∉ (mixPlayers cfg canRead t).1.esdPlayersList ∧ b ≤ len ∧ len / Nat.gcd len b < n + 1 := by
  have hlenpos : 0 < len := by have := hs.sampleLength; omega
  have hbpos : 0 < b := by have := hs.bufferLength; omega
  have hplaying := h.same.playing hs.toPlaying
  have hnext : nextChunk t p = min (len - (t.player p).lastPos) b := by
    rw [h.same.nextChunk, hlen, hb, h.actualLength, sub_zero]
  by_cases hend : b ≤ len ∧ n = len / Nat.gcd len b
  · right
    have hlast := h.lastPos
    rw [if_pos hend] at hlast
    have hnone : nextChunk t p ≤ 0 := by
      rw [hnext, hlast, sub_self]
      exact min_le_left _ _
    exact ⟨(mixPlayers_ends cfg canRead hw hp hplaying hnone).1, hend.1, by omega⟩
  · left
    have hlast := h.lastPos
    rw [if_neg hend] at hlast
    have hlt : n * b % len < len := Nat.mod_lt _ hlenpos
    have hsome : 0 < nextChunk t p := by
      rw [hnext, hlast]
      omega
    have hrounds : len < b ∨ n < len / Nat.gcd len b := by
      have := h.rounds
      omega
    obtain ⟨hlength, hdata, hposition⟩ := fillFromSample_around
      (t.sampleData (t.player p).parent) (t.playerData p)
      (by rw [h.same.kind.parent, h.same.sample.sampleLength, hlen]) hplaying.unstopped
      (by rw [h.same.format, loops]) hlt hlast h.actualLength
      (by rw [h.same.kind.bufferLength, hb])
    obtain ⟨v, hplayer, hplayerData, hstory, hsame, hlisted, hmixed⟩ :=
      mixPlayers_copies cfg canRead hw hp hplaying hsome
        (by rw [filled, hlength]; omega)
    have hvlength : (v.player p).actualLength = b := by rw [hplayer, filled, hlength]
    obtain ⟨es, hacc⟩ := hmixed.accounted (by omega)
    have hshare : 0 ≤ share cfg canRead t p := by
      by_contra hneg
      have hmore := (hacc.surplus (not_le.mp hneg)).1
      omega
    have hused : usedIn es = cyclic (s.sampleData (s.player p).parent) len (n * b % len) b := by
      have hqueue := hacc.queue hshare
      rw [held_eq, held_eq, hall, hvlength, hplayerData, Int.toNat_natCast] at hqueue
      simp only [Int.toNat_zero, load_zero, List.append_nil] at hqueue
      rw [hqueue, filled, hdata, h.same.kind.parent, h.same.data]
    have hgrows : (mixPlayers cfg canRead t).1.story p = t.story p ++ es := by
      rw [hacc.story, hstory]
    refine ⟨hacc.listed hlisted, (h.same.trans hsame).trans hacc.same,
      h.story.trans ⟨es, hgrows.symm⟩, hall, by omega, ?_, ?_⟩
    · rw [hacc.lastPos, hplayer, filled, hposition]
      exact next_position hbpos hrounds
    · rw [usedSince_append h.story hgrows, h.used, hused, add_mul, one_mul, cyclic_add]
      congr 1
      apply cyclic_congr
      rw [zero_add, Nat.mod_mod]

theorem run_looped {as : List Action} {n : ℕ} (hw : t.objects.WellFormed)
    (hrun : Runs cfg (fun s a => LeftAlone cfg p s a ∧ UsesAll cfg p s a) t as u)
    (h : p ∈ t.esdPlayersList ∧ Looped p len b s n t ∨
      p ∉ t.esdPlayersList ∧ b ≤ len ∧ len / Nat.gcd len b < n) :
    p ∈ u.esdPlayersList ∧ Looped p len b s (n + cycles as) u ∨
      p ∉ u.esdPlayersList ∧ b ≤ len ∧ len / Nat.gcd len b < n + cycles as := by
  induction hrun generalizing n with
  | nil => exact h
  | @cons t v u a as hok hstep _ ih =>
    have hv := step_wellFormed hw hstep
    rcases hok.1.mix_or hstep with ⟨hun, hother⟩ | ⟨canRead, rfl, rfl⟩
    · rw [cycles_of_not_mix hother]
      exact ih hv (h.imp (fun h => ⟨hun.listed.mpr h.1, hun.looped h.2⟩)
        fun h => ⟨fun hp => h.1 (hun.listed.mp hp), h.2⟩)
    · have hcount : n + cycles (.mix canRead :: as) = n + 1 + cycles as := by
        rw [cycles_mix]
        omega
      rw [hcount]
      rcases h with ⟨hp, h⟩ | ⟨hp, hle, hgone⟩
      · exact ih hv (mixPlayers_looped hs loops hlen hb hw hp h hok.2)
      · exact ih hv (.inr ⟨fun hmem => hp ((mixPlayers_unlisted hp).listed_iff.mp hmem), hle,
          by omega⟩)

end Looping

/-- In cycles that use all of its buffer, a player that loops stays, and plays its sample over and
over, exactly if the sample is shorter than the buffer or the cycles are not more than it
takes for the buffer to come to the end of the sample again. -/
theorem loop_goes_on_iff {cfg : Config} {p : Ptr} {s t : Server} {as : List Action}
    (hs : AtStart s p) (loops : (s.player p).format &&& esdMaskFunc = esdLoop)
    (hw : s.objects.WellFormed) (hp : p ∈ s.esdPlayersList)
    (h : Runs cfg (fun s a => LeftAlone cfg p s a ∧ UsesAll cfg p s a) s as t) :
    (p ∈ t.esdPlayersList ∧
        usedSince p s t = cyclic (s.sampleData (s.player p).parent)
          (s.sample (s.player p).parent).sampleLength.toNat 0 (usedSince p s t).length) ↔
      (s.sample (s.player p).parent).sampleLength < (s.player p).bufferLength ∨
        (cycles as : ℤ) ≤ (s.sample (s.player p).parent).sampleLength /
          Int.gcd (s.sample (s.player p).parent).sampleLength (s.player p).bufferLength := by
  obtain ⟨len, hlen⟩ := Int.eq_ofNat_of_zero_le hs.sampleLength.le
  obtain ⟨b, hb⟩ := Int.eq_ofNat_of_zero_le hs.bufferLength.le
  have hlenpos : 0 < len := by have := hs.sampleLength; omega
  have hstart : Looped p len b s 0 s := by
    have hrounds : 0 < len / Nat.gcd len b := rounds_pos hlenpos
    refine ⟨.refl p s, List.prefix_rfl, hs.actualLength, .inr hrounds.le, ?_, ?_⟩
    · rw [hs.lastPos, if_neg (by omega)]
      simp
    · simp [usedSince, usedIn]
  have hend := run_looped hs loops hlen hb hw h (.inl ⟨hp, hstart⟩)
  rw [zero_add] at hend
  have hcond : ((len : ℤ) < b ∨ (cycles as : ℤ) ≤ len / Int.gcd len b) ↔
      len < b ∨ cycles as ≤ len / Nat.gcd len b := by
    rw [Int.gcd_natCast_natCast]
    norm_cast
  rw [hlen, hb, Int.toNat_natCast, hcond]
  rcases hend with ⟨hlisted, hlooped⟩ | ⟨hgone, hle, hmore⟩
  · have hused := hlooped.used
    have hcount := congrArg List.length hused
    rw [cyclic_length] at hcount
    exact ⟨fun _ => hlooped.rounds, fun _ => ⟨hlisted, by rw [hcount]; exact hused⟩⟩
  · constructor
    · exact fun h => absurd h.1 hgone
    · intro h
      omega

instance (cfg : Config) (p : Ptr) (s : Server) (a : Action) : Decidable (UsesAll cfg p s a) :=
  match a with
  | .mix canRead =>
    inferInstanceAs (Decidable (((mixPlayers cfg canRead s).1.player p).actualLength = 0))
  | .accept .. | .poll .. | .refresh | .wake _ | .filter .. | .monitor .. | .recorder ..
  | .autostandby | .reconnect _ | .reset _ => .isTrue trivial

/-- A sample of so many octets is looped. -/
def loopingRun (n : ℕ) : List Action := playingRun playFormat 9 [(List.range n).map (BitVec.ofNat 8)]

theorem shortLoop_starts :
    (exec (step .smallBlocks) NoReset .blank (loopingRun 12)).isSome := by
  decide +kernel

def shortLoop : Server := (exec (step .smallBlocks) NoReset .blank (loopingRun 12)).get shortLoop_starts

theorem shortLoop_plays :
    (exec (step .smallBlocks) (fun s a => onlyMixing s a ∧ UsesAll .smallBlocks 10 s a) shortLoop
      (List.replicate 4 mixing)).isSome := by
  decide +kernel

def shortLooped : Server :=
  (exec (step .smallBlocks) (fun s a => onlyMixing s a ∧ UsesAll .smallBlocks 10 s a) shortLoop
    (List.replicate 4 mixing)).get shortLoop_plays

theorem loop_goes_on_iff_short :
    10 ∈ shortLooped.esdPlayersList ∧ (usedSince 10 shortLoop shortLooped).length = 64 ∧
      usedSince 10 shortLoop shortLooped =
        cyclic (shortLoop.sampleData (shortLoop.player 10).parent)
          (shortLoop.sample (shortLoop.player 10).parent).sampleLength.toNat 0
          (usedSince 10 shortLoop shortLooped).length := by
  have hruns : Runs .smallBlocks (fun s a => LeftAlone .smallBlocks 10 s a ∧ UsesAll .smallBlocks 10 s a)
      shortLoop (List.replicate 4 mixing) shortLooped :=
    (Run.of_isSome shortLoop_plays).mono fun s a h => ⟨leftAlone_of_onlyMixing h.1, h.2⟩
  have hstart : AtStart shortLoop 10 :=
    ⟨⟨by decide +kernel, by decide +kernel⟩, by decide +kernel, by decide +kernel,
      by decide +kernel, by decide +kernel, by decide +kernel⟩
  have hwell : shortLoop.objects.WellFormed :=
    Run.wellFormed (Run.of_isSome shortLoop_starts) Server.blank_initial.wellFormed
  have hiff := loop_goes_on_iff hstart (by decide +kernel) hwell (by decide +kernel) hruns
  have hgoes := hiff.mpr (.inl (by decide +kernel))
  exact ⟨hgoes.1, by decide +kernel, hgoes.2⟩

theorem longLoop_starts :
    (exec (step .smallBlocks) NoReset .blank (loopingRun 24)).isSome := by
  decide +kernel

def longLoop : Server := (exec (step .smallBlocks) NoReset .blank (loopingRun 24)).get longLoop_starts

theorem longLoop_plays :
    (exec (step .smallBlocks) (fun s a => onlyMixing s a ∧ UsesAll .smallBlocks 10 s a) longLoop
      (List.replicate 4 mixing)).isSome := by
  decide +kernel

/-- Three buffers of 16 octets are two samples of 24, and the fourth cycle erases the player. -/
theorem loop_erased :
    AtStart longLoop 10 ∧ (longLoop.player 10).format &&& esdMaskFunc = esdLoop ∧
      (longLoop.sample (longLoop.player 10).parent).format &&& esdMaskFunc = esdPlay ∧
      10 ∈ longLoop.esdPlayersList ∧
      ∃ t, Runs .smallBlocks (fun s a => onlyMixing s a ∧ UsesAll .smallBlocks 10 s a) longLoop
        (List.replicate 4 mixing) t ∧ 10 ∉ t.esdPlayersList :=
  ⟨⟨⟨by decide +kernel, by decide +kernel⟩, by decide +kernel, by decide +kernel,
    by decide +kernel, by decide +kernel, by decide +kernel⟩, by decide +kernel, by decide +kernel,
    by decide +kernel, _, Run.of_isSome longLoop_plays, by decide +kernel⟩

end Esound
