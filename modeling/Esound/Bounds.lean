import Esound.Descriptors
import Esound.Entries
import Esound.Idle
import Esound.Library.Extent
import Esound.MixedLength

/-!
# The blocks of sound

All sound goes through the two blocks that `main` allocates, one of ints for the mixer and one
for the device. How much is written there is counted in frames of two channels, whatever the
device plays.
-/

open Library.Buffer Library.Loop Library.Transition

namespace Esound

/-- The octets of a frame of two channels in the width of the format. -/
def stereoOctets (format : Word) : ℕ := if format &&& esdMaskBits = esdBits16 then 4 else 2

/-! ## Conversions -/

section Conversions

variable {n : ℕ} {dest : Mem}

theorem setOctet_within {i : ℕ} (hi : i < n) (m : Mem) (x : ℤ) : Within n m (m.setOctet i x) :=
  .update hi m _

theorem setShort_within {i : ℕ} (hi : 2 * i + 1 < n) (m : Mem) (x : ℤ) :
    Within n m (m.setShort i x) := by
  intro j hj
  rw [Mem.setShort, setShortWord_at, if_neg (by omega)]

/-- The block is filled, or nothing is written. -/
structure Filled (n : ℕ) (dest : Mem) (r : Mem × ℤ) : Prop where
  within : Within n dest r.1
  length : r.2 = n ∨ r.2 = 0

theorem Filled.nothing : Filled n dest (dest, 0) := ⟨.refl dest, .inr rfl⟩

theorem writeOctets_filled (entry : ℕ → ℤ) : Filled n dest (writeOctets entry n dest) :=
  ⟨.countUp (fun _ hi m => setOctet_within hi m _) dest, .inl rfl⟩

theorem writeOctetPairs_filled (pair : ℕ → ℤ × ℤ) (h : 2 ∣ n) :
    Filled n dest (writeOctetPairs pair n dest) := by
  obtain ⟨k, rfl⟩ := h
  rw [writeOctetPairs_eq]
  exact writeOctets_filled _

theorem writeShorts_filled (entry : ℕ → ℤ) (h : 2 ∣ n) :
    Filled n dest (writeShorts entry n dest) := by
  obtain ⟨k, rfl⟩ := h
  have hrounds : 2 * k / 2 = k := by omega
  refine ⟨.countUp (fun i hi m => setShort_within (by omega) m _) dest, .inl ?_⟩
  simp only [writeShorts, hrounds]
  push_cast
  rfl

theorem writeShortPairs_filled (pair : ℕ → ℤ × ℤ) (h : 4 ∣ n) :
    Filled n dest (writeShortPairs pair n dest) := by
  obtain ⟨k, rfl⟩ := h
  rw [writeShortPairs_eq]
  exact writeShorts_filled _ ⟨2 * k, by ring⟩

theorem copyOctets_filled (src : Mem) : Filled n dest (copyOctets src n dest) :=
  ⟨.store (by rw [load_length]) dest, .inl rfl⟩

theorem TranslateFunc.apply_filled (f : TranslateFunc) {destFormat : Word} {destRate : ℤ} {src : Mem}
    {srcLen srcRate : ℤ} (h : stereoOctets destFormat ∣ n) :
    Filled n dest (f.apply dest n destRate destFormat src srcLen srcRate) := by
  have htwo : 2 ∣ n := by
    refine dvd_trans ?_ h
    simp only [stereoOctets]
    split_ifs <;> decide
  have hpairs : ∀ pair, destFormat &&& esdMaskBits = esdBits16 →
      Filled n dest (writeShortPairs pair n dest) := fun pair h16 =>
    writeShortPairs_filled pair (by simpa only [stereoOctets, h16, if_true] using h)
  cases f with
  | fromStereo16s =>
    simp only [apply, mixFromStereo16s]
    split_ifs with _ _ _ h16
    · exact .nothing
    · exact writeOctets_filled _
    · exact writeOctetPairs_filled _ htwo
    · exact writeShorts_filled _ htwo
    · exact copyOctets_filled src
    · exact hpairs _ h16
    · exact .nothing
  | fromStereo8u =>
    simp only [apply, mixFromStereo8u]
    split_ifs with _ _ _ _ h16
    · exact .nothing
    · exact writeOctets_filled _
    · exact copyOctets_filled src
    · exact writeOctetPairs_filled _ htwo
    · exact writeShorts_filled _ htwo
    · exact hpairs _ h16
    · exact .nothing
  | fromMono16s =>
    simp only [apply, mixFromMono16s]
    split_ifs with _ _ _ h16
    · exact .nothing
    · exact writeOctets_filled _
    · exact writeOctetPairs_filled _ htwo
    · exact copyOctets_filled src
    · exact writeShorts_filled _ htwo
    · exact hpairs _ h16
    · exact .nothing
  | fromMono8u =>
    simp only [apply, mixFromMono8u]
    split_ifs with _ _ _ _ h16
    · exact .nothing
    · exact copyOctets_filled src
    · exact writeOctets_filled _
    · exact writeOctetPairs_filled _ htwo
    · exact writeShorts_filled _ htwo
    · exact hpairs _ h16
    · exact .nothing

end Conversions

/-! ## The daemon's blocks -/

/-- Nothing was written behind the ends of the two blocks. -/
structure Contained (cfg : Config) (s t : Server) : Prop where
  output : Within cfg.esdBufSizeOctets s.outputBuffer t.outputBuffer
  mixed : Within cfg.esdBufSizeSamples s.mixedBuffer t.mixedBuffer

/-- A length of a block: not too long, and of whole frames. -/
structure InBlock (cfg : Config) (format : Word) (length : ℤ) : Prop where
  nonneg : 0 ≤ length
  fits : length ≤ cfg.esdBufSizeOctets
  frames : (stereoOctets format : ℤ) ∣ length

section Sound

variable {cfg : Config} {s t u : Server} {p : Ptr}

theorem Contained.refl (s : Server) : Contained cfg s s := ⟨.refl _, .refl _⟩

theorem Contained.trans (h : Contained cfg s t) (h' : Contained cfg t u) : Contained cfg s u :=
  ⟨h.output.trans h'.output, h.mixed.trans h'.mixed⟩

theorem Contained.same (h : t.blocks = s.blocks) : Contained cfg s t := by
  have hmixed : t.mixedBuffer = s.mixedBuffer := congrArg Prod.fst h
  have houtput : t.outputBuffer = s.outputBuffer := congrArg Prod.snd h
  constructor
  · rw [houtput]
    exact .refl _
  · rw [hmixed]
    exact .refl _

theorem blocks_of_sound (h : t.sound = s.sound) : t.blocks = s.blocks :=
  congrArg (fun u : Sound => (u.mixedBuffer, u.outputBuffer)) h

theorem InBlock.zero {format : Word} : InBlock cfg format 0 :=
  ⟨le_rfl, Int.natCast_nonneg _, dvd_zero _⟩

/-! ### Mixing -/

theorem four_dvd_int32 (x : ℤ) : 4 ∣ int32 (x * 4) := by
  simp only [int32, Int.bmod_def]
  split_ifs <;> omega

theorem four_dvd_translated {length : ℤ} (h : 4 ∣ length) (pl : EsdPlayer) :
    4 ∣ translated cfg pl length := by
  simp only [translated]
  split_ifs
  · exact h
  · exact four_dvd_int32 _

theorem mixReadOne_frames {canRead : Ptr → Bool} {length least : ℤ} (hlength : 4 ∣ length)
    (h : 4 ∣ least) : 4 ∣ (mixReadOne cfg canRead length (s, least) p).2 := by
  have ht (pl : EsdPlayer) : 4 ∣ translated cfg pl length := four_dvd_translated hlength pl
  simp only [mixReadOne]
  split_ifs
  · exact h
  · exact h
  · exact ht _
  · exact ht _
  · exact h

/-- What the first half of a cycle leaves to the second. -/
theorem mixRead_contained (hblock : 4 ∣ cfg.esdBufSizeOctets) (canRead : Ptr → Bool) :
    Contained cfg s (mixRead cfg canRead s).1 ∧
      (mixRead cfg canRead s).1.esdAudioFormat = s.esdAudioFormat ∧ 4 ∣ (mixRead cfg canRead s).2 := by
  have hlength : (4 : ℤ) ∣ cfg.esdBufSizeOctets := Int.natCast_dvd_natCast.mpr hblock
  obtain ⟨hsound, hframes⟩ : (mixRead cfg canRead s).1.sound = (clearMix cfg s).sound ∧
      4 ∣ (mixRead cfg canRead s).2 :=
    foldl_invariant (fun a : Server × ℤ => a.1.sound = (clearMix cfg s).sound ∧ 4 ∣ a.2) _ _
      (fun a p _ ha => ⟨(mixReadOne_sound a.2).trans ha.1, mixReadOne_frames hlength ha.2⟩)
      ⟨rfl, dvd_zero 4⟩
  have hclear : Contained cfg s (clearMix cfg s) := by
    refine ⟨.refl _, fun i hi => ?_⟩
    simp only [clearMix, if_neg (not_lt.mpr hi)]
  exact ⟨hclear.trans (.same (blocks_of_sound hsound)), congrArg Sound.esdAudioFormat hsound, hframes⟩

theorem mixOne_contained {n : ℕ} (hsamples : 2 * n ≤ cfg.esdBufSizeSamples) (acc : Server × ℤ)
    (hmost : acc.2 = 0 ∨ acc.2 = 4 * n) :
    Contained cfg acc.1 (mixOne cfg (4 * n) acc p).1 ∧
      (mixOne cfg (4 * n) acc p).1.esdAudioFormat = acc.1.esdAudioFormat ∧
      ((mixOne cfg (4 * n) acc p).2 = 0 ∨ (mixOne cfg (4 * n) acc p).2 = 4 * n) := by
  obtain ⟨hblend, houtput, hformat⟩ := mixOne_blend cfg p acc.1 (4 * n) acc.2
  have hmixed := congrArg Prod.fst hblend
  have hlength := congrArg Prod.snd hblend
  simp only at hmixed hlength
  refine ⟨⟨?_, ?_⟩, hformat, ?_⟩
  · rw [houtput]
    exact .refl _
  · rw [hmixed, blend]
    cases (acc.1.player p).mixFunc with
    | none => exact .refl _
    | some f =>
      simp only
      split_ifs
      · intro i hi
        rw [f.apply_eq, f.entries_whole]
        exact if_neg (by omega)
      · exact .refl _
  · rw [hlength, blend]
    cases (acc.1.player p).mixFunc with
    | none => exact hmost
    | some f =>
      simp only
      split_ifs
      · rw [f.apply_eq, f.entries_whole]
        push_cast
        omega
      · exact hmost

theorem mixAll_contained {n : ℕ} (hsamples : 2 * n ≤ cfg.esdBufSizeSamples) (s : Server) :
    Contained cfg s (mixAll cfg (4 * n) s).1 ∧
      (mixAll cfg (4 * n) s).1.esdAudioFormat = s.esdAudioFormat ∧
      ((mixAll cfg (4 * n) s).2 = 0 ∨ (mixAll cfg (4 * n) s).2 = 4 * n) := by
  refine foldl_invariant (fun a : Server × ℤ => Contained cfg s a.1 ∧
    a.1.esdAudioFormat = s.esdAudioFormat ∧ (a.2 = 0 ∨ a.2 = 4 * n)) _ _ (fun a p _ ha => ?_)
    ⟨.refl s, rfl, .inl rfl⟩
  obtain ⟨hcontained, hformat, hmost⟩ := ha
  obtain ⟨hone, hsame, hmost'⟩ := mixOne_contained (p := p) hsamples a hmost
  exact ⟨hcontained.trans hone, hsame.trans hformat, hmost'⟩

theorem clipMix_contained {n : ℕ} (hn : 4 * n ≤ cfg.esdBufSizeOctets) (s : Server) :
    Contained cfg s (clipMix s (4 * n)).1 ∧
      (clipMix s (4 * n)).1.esdAudioFormat = s.esdAudioFormat ∧
      InBlock cfg s.esdAudioFormat (clipMix s (4 * n)).2 := by
  have hentries : (4 * (n : ℤ)).toNat / 2 = 2 * n := by omega
  by_cases h16 : s.esdAudioFormat &&& esdMaskBits = esdBits16
  · have hframe : stereoOctets s.esdAudioFormat = 4 := if_pos h16
    simp only [clipMix, if_pos h16]
    refine ⟨⟨?_, .refl _⟩, trivial, by omega, by omega, ?_⟩
    · refine (Within.countUp (fun i hi m => setShort_within ?_ m _) _).mono hn
      omega
    · rw [hframe]
      exact ⟨n, rfl⟩
  · have hframe : stereoOctets s.esdAudioFormat = 2 := if_neg h16
    have hhalf : (4 * (n : ℤ)).tdiv 2 = 2 * n := by
      rw [Int.tdiv_eq_ediv_of_nonneg (by omega)]
      omega
    simp only [clipMix, if_neg h16, hhalf]
    refine ⟨⟨?_, .refl _⟩, trivial, by omega, by omega, ?_⟩
    · exact Within.countUp (fun i hi m => setOctet_within (by omega) m _) _
    · rw [hframe]
      exact ⟨n, rfl⟩

theorem mixPlayers_contained (hblock : 4 ∣ cfg.esdBufSizeOctets)
    (hsamples : cfg.esdBufSizeOctets ≤ 2 * cfg.esdBufSizeSamples) (canRead : Ptr → Bool) :
    Contained cfg s (mixPlayers cfg canRead s).1 ∧
      InBlock cfg s.esdAudioFormat (mixPlayers cfg canRead s).2 := by
  obtain ⟨hread, hformat, hframes⟩ := mixRead_contained (s := s) hblock canRead
  have hleast : (mixRead cfg canRead s).2 ≤ cfg.esdBufSizeOctets := mixRead_least canRead s
  simp only [mixPlayers]
  generalize mixRead cfg canRead s = r at hread hformat hframes hleast ⊢
  obtain ⟨t, least⟩ := r
  simp only at hread hformat hframes hleast ⊢
  split_ifs with hpos
  · obtain ⟨n, rfl⟩ : ∃ n : ℕ, least = 4 * n := by
      obtain ⟨k, rfl⟩ := hframes
      exact ⟨k.toNat, by omega⟩
    obtain ⟨hall, hsame, hmost⟩ := @mixAll_contained cfg n (by omega) t
    obtain ⟨m, hm, hlong⟩ : ∃ m : ℕ, (mixAll cfg (4 * n) t).2 = 4 * m ∧ 4 * m ≤ cfg.esdBufSizeOctets := by
      rcases hmost with hmost | hmost
      · exact ⟨0, hmost, Nat.zero_le _⟩
      · exact ⟨n, hmost, by omega⟩
    obtain ⟨hclip, -, hlength⟩ := clipMix_contained hlong (mixAll cfg (4 * n) t).1
    rw [hm]
    rw [hsame, hformat] at hlength
    exact ⟨(hread.trans hall).trans hclip, hlength⟩
  · exact ⟨hread, .zero⟩

/-! ### Filters -/

theorem freePlayer_blocks (p : Ptr) : (freePlayer s p).blocks = s.blocks :=
  blocks_of_sound (freePlayer_silent p).sound

theorem eraseFrom_blocks (l : PlayerList) (p : Ptr) : (eraseFrom s l p).blocks = s.blocks := by
  simp only [eraseFrom]
  split_ifs
  · rw [freePlayer_blocks, setList_blocks]
  · rfl

theorem filterExchange_sound (canRead : Bool) (p : Ptr) (dataSize : ℤ) :
    (filterExchange canRead s p dataSize).1.sound = s.sound := by
  have hsend : (filterSend s p dataSize).srv.sound = s.sound := by
    refine whileFuel_invariant (fun r : FilterWrite => r.srv.sound = s.sound) (fun r r' hr h => ?_) _ rfl
    simp only [filterWriteRound] at h
    split_ifs at h <;> cases h <;> exact hr
  simp only [filterExchange]
  split_ifs
  · exact hsend
  · exact (readPlayer_sound canRead).trans hsend
  · exact (readPlayer_sound canRead).trans hsend

/-- Only the last filter writes to the block of the device, and fills it or leaves it alone. -/
theorem filterTranslate_contained {size : ℤ} (hsize : InBlock cfg s.esdAudioFormat size) (p : Ptr)
    (next : Option Ptr) : Contained cfg s (filterTranslate cfg size s p next).1 ∧
      (filterTranslate cfg size s p next).1.esdAudioFormat = s.esdAudioFormat ∧
      (next = none → InBlock cfg s.esdAudioFormat (filterTranslate cfg size s p next).2) := by
  obtain ⟨n, rfl⟩ := Int.eq_ofNat_of_zero_le hsize.nonneg
  have hfits : n ≤ cfg.esdBufSizeOctets := by
    have h := hsize.fits
    omega
  simp only [filterTranslate]
  split
  · exact ⟨.refl s, rfl, fun _ => .zero⟩
  · rename_i f _
    cases next with
    | some p' => exact ⟨.same rfl, rfl, fun hnone => absurd hnone (Option.some_ne_none p')⟩
    | none =>
      have hfilled := @TranslateFunc.apply_filled _ s.outputBuffer f _ cfg.esdAudioRate (s.playerData p)
        (s.player p).bufferLength (s.player p).rate (Int.natCast_dvd_natCast.mp hsize.frames)
      refine ⟨⟨hfilled.within.mono hfits, .refl _⟩, rfl, fun _ => ?_⟩
      rcases hfilled.length with hn | hzero
      · simp only [Int.toNat_natCast, hn]
        exact hsize
      · simp only [Int.toNat_natCast, hzero]
        exact .zero

theorem filterOne_contained {size : ℤ} (hsize : InBlock cfg s.esdAudioFormat size) (canRead : Bool)
    (p : Ptr) (next : Option Ptr) (dataSize : ℤ) :
    Contained cfg s (filterOne cfg canRead size s p next dataSize).1 ∧
      (filterOne cfg canRead size s p next dataSize).1.esdAudioFormat = s.esdAudioFormat ∧
      (next = none → InBlock cfg s.esdAudioFormat (filterOne cfg canRead size s p next dataSize).2) := by
  have hsound := filterExchange_sound (s := s) canRead p dataSize
  have hformat := congrArg Sound.esdAudioFormat hsound
  simp only [filterOne]
  generalize filterExchange canRead s p dataSize = r at hsound hformat ⊢
  obtain ⟨t, erase⟩ := r
  simp only [Server.sound] at hformat
  obtain ⟨hinto, hsame, hlast⟩ := filterTranslate_contained (s := t) (hformat ▸ hsize) p next
  have hboth : Contained cfg s (filterTranslate cfg size t p next).1 :=
    (Contained.same (blocks_of_sound hsound)).trans hinto
  rw [hformat] at hsame hlast
  refine ⟨?_, ?_, hlast⟩
  · simp only
    split_ifs
    · exact hboth.trans (.same (eraseFrom_blocks _ _))
    · exact hboth
  · simp only
    split_ifs
    · have hkeep := (eraseFrom_keeps (D := Set.univ) (s := (filterTranslate cfg size t p next).1)
        (Set.mem_univ _) (l := .filters) (by decide) p).device
      exact (congrArg Device.format hkeep).trans hsame
    · exact hsame

theorem filterLoop_contained {size : ℤ} (canRead : Ptr → Bool) (ps : List Ptr) (dataSize : ℤ)
    (hsize : InBlock cfg s.esdAudioFormat size) :
    Contained cfg s (filterLoop cfg canRead size ps s dataSize).1 ∧
      (ps ≠ [] → InBlock cfg s.esdAudioFormat (filterLoop cfg canRead size ps s dataSize).2) := by
  induction ps generalizing s dataSize with
  | nil => exact ⟨.refl s, fun h => absurd rfl h⟩
  | cons p ps ih =>
    obtain ⟨hone, hformat, hlast⟩ := filterOne_contained hsize (canRead p) p ps.head? dataSize
    obtain ⟨hrest, hlength⟩ := ih (s := (filterOne cfg (canRead p) size s p ps.head? dataSize).1)
      (filterOne cfg (canRead p) size s p ps.head? dataSize).2 (hformat.symm ▸ hsize)
    refine ⟨hone.trans hrest, fun _ => ?_⟩
    cases ps with
    | nil => exact hlast rfl
    | cons p' ps =>
      have hmore := hlength (List.cons_ne_nil _ _)
      rwa [hformat] at hmore

theorem filterWrite_contained {size : ℤ} (canRead : Ptr → Bool)
    (hsize : InBlock cfg s.esdAudioFormat size) :
    Contained cfg s (filterWrite cfg canRead s size).1 ∧
      InBlock cfg s.esdAudioFormat (filterWrite cfg canRead s size).2 := by
  simp only [filterWrite]
  split
  · exact ⟨.refl s, hsize⟩
  · rename_i r dataSize hfirst
    obtain ⟨p, hp, m, hr⟩ := filterFirst_cases hfirst
    have hr : r = s.setPlayerData p m := hr
    have hlist : r.esdFilterList ≠ [] := by
      rw [hr]
      exact List.ne_nil_of_mem hp
    have hformat : r.esdAudioFormat = s.esdAudioFormat := by rw [hr]; rfl
    have hinto : Contained cfg s r := .same (by rw [hr]; rfl)
    obtain ⟨hloop, hlength⟩ := filterLoop_contained (s := r) canRead r.esdFilterList dataSize
      (hformat.symm ▸ hsize)
    exact ⟨hinto.trans hloop, hformat ▸ hlength hlist⟩

/-! ### Monitors and recorders -/

theorem translateInto_blocks (length : ℤ) (p : Ptr) :
    (translateInto cfg s p length).1.blocks = s.blocks := by
  simp only [translateInto]
  split <;> rfl

theorem monitorWrite_blocks (canWrite : Ptr → Bool) (length : ℤ) :
    (monitorWrite cfg canWrite s length).blocks = s.blocks := by
  refine foldl_invariant (fun a : Server × ℤ => a.1.blocks = s.blocks) _ _ (fun a p _ ha => ?_) rfl
  have hinto : (translateInto cfg a.1 p a.2).1.blocks = a.1.blocks := translateInto_blocks a.2 p
  have hwrite : (writeBuffer (translateInto cfg a.1 p a.2).1 p).1.blocks = s.blocks := hinto.trans ha
  simp only [monitorOne]
  split_ifs
  · simp only [eraseMonitor, eraseFrom_blocks, eraseClient_blocks, hwrite]
  · exact hwrite
  · exact ha

theorem recorderWrite_blocks (poll : Ptr → RecorderPoll) (reopen : Option ℤ) (length : ℤ) :
    (recorderWrite cfg poll reopen s length).1.blocks = s.blocks := by
  have hone : ∀ (u : Server) p, (writePlayer cfg (poll p) u p length).1.blocks = u.blocks := by
    intro u p
    have hinto : (translateInto cfg u p length).1.blocks = u.blocks := translateInto_blocks length p
    simp only [writePlayer]
    split_ifs <;> first | rfl | exact hinto
  have hall : (s.esdRecorderList.foldl (recorderOne cfg poll length) (s, 0)).1.blocks = s.blocks := by
    refine foldl_invariant (fun a : Server × ℤ => a.1.blocks = s.blocks) _ _ (fun a p _ ha => ?_) rfl
    simp only [recorderOne]
    split_ifs
    · simp only [eraseRecorder, eraseFrom_blocks, eraseClient_blocks, hone, ha]
    · exact (hone a.1 p).trans ha
  have hopen : ∀ (u : Server) w r,
      (esdAudioOpen { esdAudioClose u with esdAudioFormat := w } r).1.blocks = u.blocks := by
    intro u w r
    cases r <;> rfl
  simp only [recorderWrite]
  split_ifs
  · exact (hopen _ _ _).trans hall
  · exact hall

theorem refreshMixFuncs_blocks : (refreshMixFuncs s).blocks = s.blocks := by
  simp only [refreshMixFuncs]
  split_ifs <;> rfl

theorem resetDaemon_blocks (scrambled : List Octet) : (resetDaemon s scrambled).blocks = s.blocks := by
  have hclose : ∀ u : Server, (closeClients u).blocks = u.blocks := fun u => by
    refine whileFuel_invariant (fun v : Server => v.blocks = u.blocks) (fun v w hv h => ?_) _ rfl
    simp only [closeHead] at h
    split at h
    · cases h
    · cases h
      exact (eraseClient_blocks _).trans hv
  have hfree : ∀ u : Server, (freeSamples u).blocks = u.blocks := fun u => by
    refine whileFuel_invariant (fun v : Server => v.blocks = u.blocks) (fun v w hv h => ?_) _ rfl
    simp only [freeHead] at h
    split at h
    · cases h
    · cases h
      exact (eraseSample_blocks _ _).trans hv
  exact (hfree _).trans (hclose _)

end Sound

/-! ## The width of the device -/

section Width

variable {cfg : Config} {s t : Server} {a : Action} {as : List Action}

def Device.width (d : Device) : Word := d.format &&& esdMaskBits

theorem width_record (format : Word) :
    (format ||| esdRecord) &&& esdMaskBits = format &&& esdMaskBits ∧
      (format &&& ~~~esdRecord) &&& esdMaskBits = format &&& esdMaskBits := by
  have hmask : esdRecord &&& esdMaskBits = 0#32 ∧ ~~~esdRecord &&& esdMaskBits = esdMaskBits := by decide
  constructor
  · rw [BitVec.and_or_distrib_right, hmask.1, BitVec.or_zero]
  · rw [BitVec.and_assoc, hmask.2]

theorem opened_width (d : Device) (r : Option ℤ) : (d.opened r).width = d.width := by
  simp only [Device.opened]
  split_ifs <;> rfl

theorem standby_width (d : Device) : d.standby.width = d.width := by
  simp only [Device.standby]
  split_ifs <;> rfl

theorem forced_width (d : Device) : d.forced.width = d.width := by
  simp only [Device.forced]
  split_ifs <;> rfl

theorem resumed_width (d : Device) (r : Option ℤ) : (d.resumed r).width = d.width := by
  simp only [Device.resumed]
  split_ifs
  · exact opened_width d r
  · rfl

theorem woken_width (d : Device) (r : Option ℤ) : (d.woken r).width = d.width := by
  simp only [Device.woken]
  split_ifs
  · exact resumed_width d r
  · rfl

theorem playing_width (d : Device) (r : Option ℤ) : (d.playing r).width = d.width :=
  (opened_width _ r).trans (width_record d.format).2

theorem recording_width (d : Device) (p : Ptr) (r r' : Option ℤ) : (d.recording p r r').width = d.width := by
  have hformat : ({ d.closed with format := d.format ||| esdRecord } : Device).width = d.width :=
    (width_record d.format).1
  simp only [Device.recording]
  split_ifs
  · exact (opened_width _ r).trans hformat
  · exact (playing_width _ r').trans hformat
  · rfl

theorem left_width (d : Device) (ps : List Ptr) (r : Option ℤ) : (d.left ps r).width = d.width := by
  simp only [Device.left]
  split_ifs
  · exact playing_width _ r
  · rfl

theorem DeviceStep.width (h : DeviceStep s a t) : t.device.width = s.device.width := by
  cases h with
  | still h => rw [h]
  | standby ok h =>
    rw [h]
    split_ifs
    · exact (forced_width _).trans (standby_width _)
    · exact forced_width _
  | resume _ _ ok r _ h =>
    rw [h]
    split_ifs
    · exact resumed_width _ r
    · rfl
  | wake r h => rw [h, woken_width]
  | record _ r _ _ _ h => rw [h, recording_width, woken_width]
  | autostandby h =>
    rw [h]
    exact standby_width _
  | leave ps r _ _ h => rw [h, left_width]
  | reconnect r _ h => rw [h]; exact opened_width _ r

theorem Run.width {ok : Server → Action → Prop} (h : Run (step cfg) ok s as t) :
    stereoOctets t.esdAudioFormat = stereoOctets s.esdAudioFormat := by
  have hwidth : t.device.width = s.device.width :=
    h.invariant (fun u => u.device.width = s.device.width)
      (fun _ _ _ hu _ hstep => (step_device hstep).width.trans hu) rfl
  exact congrArg (fun w => if w = esdBits16 then 4 else 2) hwidth

end Width

/-! ## The loop -/

def DeviceUse.InBlock (cfg : Config) (format : Word) : DeviceUse → Prop
  | wrote _ octets => octets ≠ [] ∧ Esound.InBlock cfg format octets.length
  | read _ octets => octets.length ≤ cfg.esdBufSizeOctets

namespace CommLoop

/-- The places between the mixer and the device. -/
def Sounding (l : CommLoop) : Prop := l.place = .wake ∨ l.place = .filter ∨ l.place = .write

structure Bounded (cfg : Config) (s : Server) (l : CommLoop) : Prop where
  contained : Contained cfg s l.server
  uses : ∀ u ∈ l.uses, u.InBlock cfg s.esdAudioFormat
  length : l.Sounding → InBlock cfg s.esdAudioFormat l.length

section Steps

variable {L : LoopConfig} {s : Server} {l l' : CommLoop} {i : LoopInput}

/-- Where the device is not used and no length is counted, only the blocks matter. -/
theorem Bounded.silently (hl : l.Bounded L.cfg s) (hcontained : Contained L.cfg l.server l'.server)
    (huses : l'.uses = l.uses) (hplace : ¬ l'.Sounding) : l'.Bounded L.cfg s :=
  ⟨hl.contained.trans hcontained, huses ▸ hl.uses, fun h => absurd h hplace⟩

theorem Bounded.used (hl : l.Bounded L.cfg s) {u : DeviceUse} (hu : u.InBlock L.cfg s.esdAudioFormat)
    (hcontained : Contained L.cfg l.server l'.server) (huses : l'.uses = l.uses ++ [u])
    (hplace : ¬ l'.Sounding) : l'.Bounded L.cfg s := by
  refine ⟨hl.contained.trans hcontained, fun v hv => ?_, fun h => absurd h hplace⟩
  rw [huses] at hv
  rcases List.mem_append.mp hv with hv | hv
  · exact hl.uses v hv
  · rw [List.mem_singleton.mp hv]
    exact hu

theorem not_sounding_turnOf (o : Option Ptr) (h : l.place = turnOf o) : ¬ l.Sounding := by
  cases o <;> simp [Sounding, h, turnOf]

theorem cleanExit_blocks : l.cleanExit.server.blocks = l.server.blocks :=
  foldl_invariant (fun u : Server => u.blocks = l.server.blocks)
    (fun (u : Server) fd => u.emit (.closed fd)) _ (fun _ _ _ hu => hu) rfl

theorem reconnect_blocks (reopen : Option ℤ) : (l.reconnect reopen).server.blocks = l.server.blocks := by
  simp only [reconnect]
  split_ifs
  · cases reopen <;> rfl
  · rfl

theorem timedOut_blocks (now later : ℤ) :
    (l.timedOut L now later).server.blocks = l.server.blocks ∧
      (l.timedOut L now later).uses = l.uses := by
  have hpause : (l.pause now).server = l.server ∧ (l.pause now).uses = l.uses := by
    simp only [pause]
    split_ifs <;> exact ⟨rfl, rfl⟩
  have hstandby : ∀ m : CommLoop, (m.autostandby L later).server.blocks = m.server.blocks ∧
      (m.autostandby L later).uses = m.uses := by
    intro m
    simp only [autostandby]
    split_ifs
    · exact ⟨esdServerStandby_blocks, rfl⟩
    · exact ⟨rfl, rfl⟩
  obtain ⟨hblocks, huses⟩ := hstandby (l.pause now)
  rw [hpause.1] at hblocks
  rw [hpause.2] at huses
  simp only [timedOut]
  split_ifs <;> exact ⟨hblocks, huses⟩

theorem Bounded.step (hblock : 4 ∣ L.cfg.esdBufSizeOctets)
    (hsamples : L.cfg.esdBufSizeOctets ≤ 2 * L.cfg.esdBufSizeSamples) (hplaced : l.InPlace)
    (hwidth : stereoOctets l.server.esdAudioFormat = stereoOctets s.esdAudioFormat)
    (hl : l.Bounded L.cfg s) (hi : l.Promised L i) (h : Advances L l i l') : l'.Bounded L.cfg s := by
  have hwide : ∀ n, InBlock L.cfg l.server.esdAudioFormat n ↔ InBlock L.cfg s.esdAudioFormat n :=
    fun n => ⟨fun h => ⟨h.nonneg, h.fits, hwidth ▸ h.frames⟩,
      fun h => ⟨h.nonneg, h.fits, hwidth.symm ▸ h.frames⟩⟩
  cases h with
  | @top reopen now hp =>
    have hreconnect : Contained L.cfg l.server (l.reconnect reopen).server :=
      .same (reconnect_blocks reopen)
    have huses : (l.reconnect reopen).uses = l.uses := by
      simp only [reconnect]
      split_ifs <;> rfl
    simp only [beforeSelect]
    split_ifs
    · exact hl.silently (hreconnect.trans (.same cleanExit_blocks)) huses (by simp [Sounding, cleanExit])
    · exact hl.silently hreconnect huses (by simp [Sounding])
  | @select timeout answer now later hp =>
    cases answer with
    | ready listening =>
      refine hl.silently (.refl _) rfl ?_
      cases listening
      · exact not_sounding_turnOf _ rfl
      · simp [Sounding, afterSelect]
    | timedOut =>
      obtain ⟨hblocks, huses⟩ := timedOut_blocks (L := L) (l := l) now later
      refine hl.silently (.same hblocks) huses ?_
      have hplace := timedOut_place (L := L) (l := l) now later
      rcases hplace with hplace | hplace | hplace
      · simp [Sounding, afterSelect, hplace]
      · simp [Sounding, afterSelect, hplace]
      · exact not_sounding_turnOf _ hplace
    | interrupted =>
      simp only [afterSelect]
      split_ifs <;> exact hl.silently (.refl _) rfl (by simp [Sounding])
    | again | failed => exact hl.silently (.refl _) rfl (by simp [Sounding, afterSelect])
  | @accept answer hp =>
    cases answer with
    | none | noRoom => exact hl.silently (.refl _) rfl (not_sounding_turnOf _ rfl)
    | refused => exact hl.silently (.refl _) rfl (by simp [Sounding, acceptRound, hp])
    | client c fd socket =>
      exact hl.silently (.same rfl) rfl (by simp [Sounding, acceptRound, hp])
  | @poll c env l' hp hpoll =>
    obtain ⟨r, hr, rfl⟩ := Option.map_eq_some_iff.mp hpoll
    have hturn := (pollTurn_tells hplaced.wellFormed.client_ne_null hr).blocks
    refine hl.silently (.same ?_) rfl (not_sounding_turnOf _ rfl)
    change (if r.2 then r.1 else eraseClient r.1 c).blocks = l.server.blocks
    split_ifs
    · exact hturn
    · exact (eraseClient_blocks c).trans hturn
  | refresh hp => exact hl.silently (.same refreshMixFuncs_blocks) rfl (by simp [Sounding])
  | @mix canRead hp =>
    obtain ⟨hmix, hlength⟩ := mixPlayers_contained (s := l.server) hblock hsamples canRead
    exact ⟨hl.contained.trans hmix, hl.uses, fun _ => (hwide _).mp hlength⟩
  | @wake reopen hp =>
    have hlength := hl.length (.inl hp)
    simp only [wakeRound]
    split_ifs
    · exact ⟨hl.contained.trans (.same (esdServerResume_blocks reopen)), hl.uses, fun _ => hlength⟩
    · exact ⟨hl.contained, hl.uses, fun _ => hlength⟩
  | @filter canRead hp =>
    have hlength := hl.length (.inr (.inl hp))
    simp only [filterRound]
    split_ifs
    · obtain ⟨hfilter, hfiltered⟩ := filterWrite_contained canRead ((hwide _).mpr hlength)
      exact ⟨hl.contained.trans hfilter, hl.uses, fun _ => (hwide _).mp hfiltered⟩
    · exact ⟨hl.contained, hl.uses, fun _ => hlength⟩
  | @write now hp =>
    have hlength := hl.length (.inr (.inr hp))
    simp only [writeRound]
    split_ifs with hpos
    · exact hl.silently (.refl _) rfl (by simp [Sounding])
    · have hoctets : ((load l.server.outputBuffer 0 l.length.toNat).length : ℤ) = l.length := by
        rw [load_length]
        exact Int.toNat_of_nonneg hlength.nonneg
      refine hl.used (u := .wrote now (load l.server.outputBuffer 0 l.length.toNat)) ⟨?_, ?_⟩
        (.refl _) rfl (by simp [Sounding])
      · intro hnil
        rw [hnil] at hoctets
        simp only [List.length_nil] at hoctets
        omega
      · rwa [hoctets]
    · exact hl.silently (.refl _) rfl (by simp [Sounding])
  | @monitor canWrite hp =>
    simp only [monitorRound]
    split_ifs
    · exact hl.silently (.same (monitorWrite_blocks canWrite _)) rfl (by simp [Sounding])
    · exact hl.silently (.refl _) rfl (by simp [Sounding])
  | @record ready reopen block now hp =>
    have hread : (block.getD []).length ≤ L.cfg.esdBufSizeOctets := hi
    have hstored : Contained L.cfg l.server
        { l.server with outputBuffer := store l.server.outputBuffer 0 (block.getD []) } :=
      ⟨.store hread _, .refl _⟩
    simp only [recordRound]
    split_ifs
    · exact hl.used (u := .read now (block.getD [])) hread
        (hstored.trans (.same (recorderWrite_blocks _ _ _))) rfl (by simp [Sounding])
    · exact hl.silently (.refl _) rfl (by simp [Sounding])
    · exact hl.silently (.refl _) rfl (by simp [Sounding])
  | usr1 running => exact ⟨hl.contained, hl.uses, hl.length⟩
  | term running => exact hl.silently (.same cleanExit_blocks) rfl (by simp [Sounding, cleanExit])
  | @hup timeout scrambled hp =>
    exact hl.silently (.same (resetDaemon_blocks scrambled)) rfl (by simp [Sounding, hp])

end Steps

end CommLoop

/-- With a block of whole frames and ints for all of them, the mixer, the filters and the recording
device stay within the two blocks in every run, and every piece of sound that goes to the device is
a number of whole frames that the block holds. -/
theorem blocks_bounded {L : LoopConfig} {s : Server} {now : ℤ} {is : List LoopInput} {l : CommLoop}
    (hs : s.objects.WellFormed) (hblock : 4 ∣ L.cfg.esdBufSizeOctets)
    (hsamples : L.cfg.esdBufSizeOctets ≤ 2 * L.cfg.esdBufSizeSamples)
    (h : Run (CommLoop.advance L) (CommLoop.Promised L) (.start s now) is l) :
    Contained L.cfg s l.server ∧ ∀ u ∈ l.uses, u.InBlock L.cfg s.esdAudioFormat := by
  have hstart : (CommLoop.start s now).Bounded L.cfg s :=
    ⟨.refl s, List.forall_mem_nil _, by simp [CommLoop.Sounding, CommLoop.start]⟩
  have hplaced : (CommLoop.start s now).InPlace :=
    .elsewhere hs (by simp [CommLoop.start]) (by simp [CommLoop.start])
  obtain ⟨hbounded, -⟩ := h.invariant
    (fun l => l.Bounded L.cfg s ∧ (l.Running → l.InPlace ∧
      stereoOctets l.server.esdAudioFormat = stereoOctets s.esdAudioFormat))
    (fun l i l' hl hi hstep => by
      have hadvances := CommLoop.advance_cases hstep
      obtain ⟨hinPlace, hwidth⟩ := hl.2 hadvances.running
      refine ⟨hl.1.step hblock hsamples hinPlace hwidth hi hadvances, fun hrunning => ?_⟩
      obtain ⟨t, hrun, hserver⟩ := CommLoop.moves_run hadvances hinPlace hi
      rw [hserver hrunning]
      exact ⟨hinPlace.step hi hadvances hrunning, (Run.width hrun).trans hwidth⟩)
    ⟨hstart, fun _ => ⟨hplaced, rfl⟩⟩
  exact ⟨hbounded.contained, hbounded.uses⟩

theorem blocks_bounded_played :
    afterPlaying.uses = [.wrote 101 (List.replicate 16 1)] ∧
      Contained .smallBlocks .blank afterPlaying.server ∧
      ∀ u ∈ afterPlaying.uses, u.InBlock .smallBlocks (esdBits16 ||| esdStereo) := by
  obtain ⟨hcontained, huses⟩ := blocks_bounded Server.blank_initial.wellFormed (by decide) (by decide)
    (afterPlaying_run.mono fun _ _ hi => hi.1)
  exact ⟨by decide +kernel, hcontained, huses⟩

end Esound
