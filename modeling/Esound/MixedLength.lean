import Esound.Library.Least
import Esound.Shares
import Esound.Sums

/-!
# The length of the mix

A cycle mixes as much as the player can give that has least. The players are read in the
order of their list and mixed in it; neither makes a difference to any other player, so that
the order can only come in where the least is looked for.
-/

open Library.Buffer Library.Loop Library.Least Library.Transition

namespace Esound

/-! ## Reading in any order -/

/-- Others had their turns, and none of them read from the socket of the player. -/
structure Waiting (p : Ptr) (s t : Server) : Prop where
  aside : Aside p s t
  socket : (s.player p).IsStream → t.sockets (s.player p).sourceId = s.sockets (s.player p).sourceId

/-- What the reading of a player comes to: the player, its buffer, and the result. -/
structure ReadTurn where
  pl : EsdPlayer
  data : Mem
  actual : ℤ

def readTurn (canRead : Ptr → Bool) (s : Server) (p : Ptr) : ReadTurn :=
  let (t, actual) := readPlayer (canRead p) s p
  ⟨t.player p, t.playerData p, actual⟩

section Reading

variable {cfg : Config} {canRead : Ptr → Bool} {p q : Ptr} {s t u : Server}

theorem Waiting.refl (s : Server) : Waiting p s s := ⟨.refl s, fun _ => rfl⟩

theorem Waiting.trans (h : Waiting p s t) (h' : Waiting p t u) : Waiting p s u :=
  ⟨h.aside.trans h'.aside, fun hmode => by
    have hsocket := h'.socket (by rwa [h.aside.spares.player])
    rw [h.aside.spares.player] at hsocket
    exact hsocket.trans (h.socket hmode)⟩

/-- The turns of others make no difference to what the player reads. -/
theorem Waiting.readTurn (h : Waiting p s t) : readTurn canRead t p = readTurn canRead s p := by
  have hplayer := h.aside.spares.player
  have hdata := h.aside.spares.playerData
  have hclient := h.aside.spares.client
  by_cases hmode : (s.player p).IsStream
  · have hsocket := h.socket hmode
    simp only [Esound.readTurn, readPlayer, readStream, hearStream, Server.sysRead, Server.setPlayerData,
      Server.emit, hplayer, hdata, hclient, hmode, hsocket, if_true, Function.update_self]
    split_ifs <;> simp [Server.setPlayer, hplayer, hdata]
  · have hsample := h.aside.shelved.sample (s.player p).parent
    have hchunk : sampleChunk (t.sample (s.player p).parent) (s.player p) =
        sampleChunk (s.sample (s.player p).parent) (s.player p) := by
      simp only [sampleChunk, hsample.sampleLength]
    have hfill := fillFromSample_congr hsample (s.sampleData (s.player p).parent) (s.player p)
      (s.playerData p)
    simp only [Esound.readTurn, readPlayer, readSamplePlayer, hplayer, hdata, hmode, if_false,
      hsample.format, hchunk, hfill, h.aside.shelved.data]
    split_ifs <;> simp [Server.setPlayer, Server.setPlayerData, hplayer, hdata]

/-! What a turn leaves alone for those who come later. -/

/-- What a cycle works with besides its players. -/
@[ext] structure Sound where
  mixedBuffer : ℕ → ℤ
  outputBuffer : Mem
  esdAudioFormat : Word

def Server.sound (s : Server) : Sound := ⟨s.mixedBuffer, s.outputBuffer, s.esdAudioFormat⟩

/-- Neither an erased player nor its sample leaves a trace in the sound. -/
structure Silent (s t : Server) : Prop where
  sound : t.sound = s.sound
  sockets : t.sockets = s.sockets
  playerData : t.playerData = s.playerData

theorem freePlayer_silent (p : Ptr) : Silent s (freePlayer s p) := by
  have hclient : ∀ c, Silent s (eraseClient s c) := by
    intro c
    simp only [eraseClient]
    split_ifs <;> exact ⟨rfl, rfl, rfl⟩
  have hsample : ∀ (u : Server) id, Silent u (eraseSample u id false) := by
    intro u id
    simp only [eraseSample]
    split
    · exact ⟨rfl, rfl, rfl⟩
    · split_ifs <;> exact ⟨rfl, rfl, rfl⟩
  simp only [freePlayer]
  split_ifs
  · exact ⟨(hclient _).sound, (hclient _).sockets, (hclient _).playerData⟩
  · exact ⟨(hsample _ _).sound, (hsample _ _).sockets, (hsample _ _).playerData⟩
  · exact ⟨rfl, rfl, rfl⟩
  · exact ⟨rfl, rfl, rfl⟩

theorem erasePlayer_silent (p : Ptr) : Silent s (erasePlayer s p) := by
  simp only [erasePlayer, eraseFrom]
  split_ifs
  · have hfree := freePlayer_silent (s := s.setList .players ((s.list .players).erase p)) p
    exact ⟨hfree.sound, hfree.sockets, hfree.playerData⟩
  · exact ⟨rfl, rfl, rfl⟩

theorem hearStream_sound (s : Server) (p : Ptr) : (hearStream s p).1.sound = s.sound := rfl

theorem setPlayerData_sound (s : Server) (p : Ptr) (m : Mem) : (s.setPlayerData p m).sound = s.sound :=
  rfl

theorem setPlayer_sound (s : Server) (p : Ptr) (pl : EsdPlayer) : (s.setPlayer p pl).sound = s.sound :=
  rfl

theorem readPlayer_sound (c : Bool) : (readPlayer c s p).1.sound = s.sound := by
  have hhear := hearStream_sound s p
  simp only [readPlayer, readStream, readSamplePlayer]
  split_ifs
  · exact hhear
  · exact hhear
  · rw [setPlayer_sound, setPlayerData_sound, hhear]
  all_goals rfl

theorem readPlayer_sockets (c : Bool) (fd : ℤ) (h : (s.player p).IsStream → (s.player p).sourceId ≠ fd) :
    (readPlayer c s p).1.sockets fd = s.sockets fd := by
  have hhear : (s.player p).IsStream → (hearStream s p).1.sockets fd = s.sockets fd := fun hmode =>
    Function.update_of_ne (h hmode).symm _ _
  simp only [readPlayer, readStream, readSamplePlayer]
  split_ifs with hmode
  · exact hhear hmode
  · exact hhear hmode
  · exact hhear hmode
  · rfl
  · rfl
  · rfl
  · rfl
  · rfl

theorem eraseFrom_list (l : PlayerList) (p : Ptr) : (eraseFrom s l p).list l = (s.list l).erase p := by
  have hset : ∀ ps, (s.setList l ps).list l = ps := fun ps => by cases l <;> rfl
  simp only [eraseFrom]
  split_ifs with hp
  · rw [freePlayer_list, hset]
  · rw [List.erase_of_not_mem hp]

/-! ## The turn of one player in the reading half -/

/-- The player is one of those whose lengths are compared: it has data, or something came that
was not all that was asked for. -/
def ReadTurn.Compared (r : ReadTurn) : Prop := 0 ≤ r.actual ∧ ¬ (r.actual = 0 ∧ r.pl.actualLength = 0)

/-- The player stays and has data. -/
def ReadTurn.HasData (r : ReadTurn) : Prop := 0 ≤ r.actual ∧ 0 < r.pl.actualLength

instance (r : ReadTurn) : Decidable r.Compared := inferInstanceAs (Decidable (_ ∧ _))
instance (r : ReadTurn) : Decidable r.HasData := inferInstanceAs (Decidable (_ ∧ _))

theorem ReadTurn.HasData.compared {r : ReadTurn} (h : r.HasData) : r.Compared :=
  ⟨h.1, fun hzero => h.2.ne' hzero.2⟩

/-- How much of the mix the player can fill after it was read. -/
def fills (cfg : Config) (canRead : Ptr → Bool) (s : Server) (p : Ptr) : ℤ :=
  translated cfg (readTurn canRead s p).pl cfg.esdBufSizeOctets

variable (cfg canRead) in
theorem mixReadOne_eq (least : ℤ) :
    (mixReadOne cfg canRead cfg.esdBufSizeOctets (s, least) p) =
      (if (readTurn canRead s p).actual < 0 then erasePlayer (readPlayer (canRead p) s p).1 p
        else (readPlayer (canRead p) s p).1,
      if (readTurn canRead s p).Compared then leastOf 0 least (fills cfg canRead s p) else least) := by
  simp only [mixReadOne, ReadTurn.Compared, fills, leastOf, readTurn]
  by_cases hnothing : (readPlayer (canRead p) s p).2 = 0 ∧
      ((readPlayer (canRead p) s p).1.player p).actualLength = 0
  · simp [hnothing]
  · by_cases hneg : (readPlayer (canRead p) s p).2 < 0
    · simp [hnothing, hneg, not_le.mpr hneg]
    · simp [hnothing, hneg, not_lt.mp hneg]

theorem mixReadOne_waiting (hne : q ≠ p)
    (hfd : (s.player p).IsStream → (s.player q).IsStream → (s.player p).sourceId ≠ (s.player q).sourceId)
    (least : ℤ) : Waiting q s (mixReadOne cfg canRead cfg.esdBufSizeOctets (s, least) p).1 := by
  refine ⟨mixReadOne_aside cfg canRead hne _ (s, least), fun hmode => ?_⟩
  have hread := readPlayer_sockets (s := s) (p := p) (canRead p) (s.player q).sourceId
    fun hp => hfd hp hmode
  rw [mixReadOne_eq]
  dsimp only
  split_ifs
  · rw [(erasePlayer_silent p).sockets]
    exact hread
  · exact hread

theorem mixReadOne_sound (least : ℤ) :
    (mixReadOne cfg canRead cfg.esdBufSizeOctets (s, least) p).1.sound = s.sound := by
  rw [mixReadOne_eq]
  dsimp only
  split_ifs
  · exact (erasePlayer_silent p).sound.trans (readPlayer_sound _)
  · exact readPlayer_sound _

variable (cfg canRead s p) in
theorem mixReadOne_players (least : ℤ) :
    (mixReadOne cfg canRead cfg.esdBufSizeOctets (s, least) p).1.esdPlayersList =
      if (readTurn canRead s p).actual < 0 then s.esdPlayersList.erase p else s.esdPlayersList := by
  have hlist : (readPlayer (canRead p) s p).1.esdPlayersList = s.esdPlayersList :=
    congrFun (readPlayer_list (s := s) (p := p) (canRead p)) .players
  rw [mixReadOne_eq]
  dsimp only
  split_ifs
  · rw [← hlist]
    exact eraseFrom_list .players p
  · exact hlist

variable (cfg canRead s p) in
theorem mixReadOne_turn (least : ℤ) :
    (mixReadOne cfg canRead cfg.esdBufSizeOctets (s, least) p).1.player p = (readTurn canRead s p).pl ∧
      (mixReadOne cfg canRead cfg.esdBufSizeOctets (s, least) p).1.playerData p =
        (readTurn canRead s p).data := by
  rw [mixReadOne_eq]
  dsimp only
  split_ifs
  · exact ⟨congrFun eraseFrom_player p, congrFun (erasePlayer_silent p).playerData p⟩
  · exact ⟨rfl, rfl⟩

/-! ## The reading half -/

/-- No two streams among the players have one socket. -/
def Apart (s : Server) (ps : List Ptr) : Prop :=
  ∀ p ∈ ps, ∀ q ∈ ps, p ≠ q → (s.player p).IsStream → (s.player q).IsStream →
    (s.player p).sourceId ≠ (s.player q).sourceId

instance (s : Server) (ps : List Ptr) : Decidable (Apart s ps) :=
  inferInstanceAs (Decidable (∀ p ∈ ps, ∀ q ∈ ps, _ → _ → _ → _))

/-- Whoever comes when, every player has the turn it has in `s`. -/
structure ReadPass (cfg : Config) (canRead : Ptr → Bool) (s : Server) (ps : List Ptr) (least : ℤ)
    (a : Server × ℤ) : Prop where
  least_eq : a.2 = ((ps.filter fun p => (readTurn canRead s p).Compared).map
    (fills cfg canRead s)).foldl (leastOf 0) least
  sound : a.1.sound = s.sound
  players : a.1.esdPlayersList =
    s.esdPlayersList.filter fun p => ¬ (p ∈ ps ∧ (readTurn canRead s p).actual < 0)
  turn : ∀ p ∈ ps, a.1.player p = (readTurn canRead s p).pl ∧
    a.1.playerData p = (readTurn canRead s p).data

variable (cfg canRead) in
theorem foldl_mixReadOne_pass {ps : List Ptr} (distinct : ps.Nodup) (apart : Apart s ps)
    (hlist : s.esdPlayersList.Nodup) (least : ℤ) :
    ReadPass cfg canRead s ps least
      (ps.foldl (mixReadOne cfg canRead cfg.esdBufSizeOctets) (s, least)) := by
  induction ps generalizing s least with
  | nil => exact ⟨rfl, rfl, by simp, fun p hp => absurd hp List.not_mem_nil⟩
  | cons p ps ih =>
    obtain ⟨hp, hrest⟩ := List.nodup_cons.mp distinct
    obtain ⟨s₁, hs₁⟩ : ∃ s₁, (mixReadOne cfg canRead cfg.esdBufSizeOctets (s, least) p).1 = s₁ := ⟨_, rfl⟩
    have hwait : ∀ q ∈ ps, Waiting q s s₁ := fun q hq => hs₁ ▸
      mixReadOne_waiting (ne_of_mem_of_not_mem hq hp) (apart p List.mem_cons_self q
        (List.mem_cons_of_mem _ hq) (ne_of_mem_of_not_mem hq hp).symm) least
    have hturn : ∀ q ∈ ps, readTurn canRead s₁ q = readTurn canRead s q :=
      fun q hq => (hwait q hq).readTurn
    have hplayers := hs₁ ▸ mixReadOne_players cfg canRead p s least
    have hlist₁ : s₁.esdPlayersList.Nodup := by
      rw [hplayers]
      split_ifs
      · exact hlist.erase p
      · exact hlist
    have hapart : Apart s₁ ps := by
      intro q hq q' hq' hne
      rw [(hwait q hq).aside.spares.player, (hwait q' hq').aside.spares.player]
      exact apart q (List.mem_cons_of_mem _ hq) q' (List.mem_cons_of_mem _ hq') hne
    have hafter := ih hrest hapart hlist₁
      (mixReadOne cfg canRead cfg.esdBufSizeOctets (s, least) p).2
    have hkeep : Aside p s₁ (ps.foldl (mixReadOne cfg canRead cfg.esdBufSizeOctets)
        (s₁, (mixReadOne cfg canRead cfg.esdBufSizeOctets (s, least) p).2)).1 :=
      Library.Transition.foldl_related (fun a b : Server × ℤ => Aside p a.1 b.1) (fun a => .refl a.1)
        (fun _ _ _ => .trans) (mixReadOne cfg canRead cfg.esdBufSizeOctets) ps
        (fun a q hq => mixReadOne_aside cfg canRead (ne_of_mem_of_not_mem hq hp).symm _ a) (s₁, _)
    have hcons : (p :: ps).foldl (mixReadOne cfg canRead cfg.esdBufSizeOctets) (s, least) =
        ps.foldl (mixReadOne cfg canRead cfg.esdBufSizeOctets)
          (s₁, (mixReadOne cfg canRead cfg.esdBufSizeOctets (s, least) p).2) := by
      rw [List.foldl_cons, ← hs₁]
    rw [hcons]
    refine ⟨?_, ?_, ?_, ?_⟩
    · have hfilter : ps.filter (fun q => (readTurn canRead s₁ q).Compared) =
          ps.filter fun q => (readTurn canRead s q).Compared :=
        List.filter_congr fun q hq => by rw [hturn q hq]
      have hmap : ((ps.filter fun q => (readTurn canRead s q).Compared).map (fills cfg canRead s₁)) =
          (ps.filter fun q => (readTurn canRead s q).Compared).map (fills cfg canRead s) :=
        List.map_congr_left fun q hq => by rw [fills, fills, hturn q (List.mem_of_mem_filter hq)]
      rw [hafter.least_eq, hfilter, hmap, mixReadOne_eq]
      by_cases hcompared : (readTurn canRead s p).Compared
      · simp [hcompared]
      · simp [hcompared]
    · exact hafter.sound.trans (hs₁ ▸ mixReadOne_sound least)
    · have hothers : ∀ q ≠ p, (q ∈ ps ∧ (readTurn canRead s₁ q).actual < 0) ↔
          (q ∈ p :: ps ∧ (readTurn canRead s q).actual < 0) := by
        intro q hne
        rw [List.mem_cons, or_iff_right hne]
        exact and_congr_right fun hq => by rw [hturn q hq]
      rw [hafter.players, hplayers]
      split_ifs with hneg
      · rw [hlist.erase_eq_filter, List.filter_filter]
        refine List.filter_congr fun q _ => ?_
        rcases eq_or_ne q p with rfl | hne
        · simp [hneg]
        · simp only [hothers q hne]
          simp [hne]
      · refine List.filter_congr fun q _ => ?_
        rcases eq_or_ne q p with rfl | hne
        · simp [hneg, hp]
        · simp only [hothers q hne]
    · intro q hq
      rcases List.mem_cons.mp hq with rfl | hlater
      · obtain ⟨hpl, hdata⟩ := mixReadOne_turn cfg canRead q s least
        rw [hkeep.spares.player, hkeep.spares.playerData, ← hs₁]
        exact ⟨hpl, hdata⟩
      · rw [← hturn q hlater]
        exact hafter.turn q hlater

/-! ## The mixing half -/

theorem consume_sound (used : ℤ) : (consume s p used).sound = s.sound := by
  simp only [consume]
  split_ifs <;> rfl

variable (cfg s p) in
theorem mixOne_blend (length most : ℤ) :
    ((mixOne cfg length (s, most) p).1.mixedBuffer, (mixOne cfg length (s, most) p).2) =
        blend cfg (s.player p) (s.playerData p) length (s.mixedBuffer, most) ∧
      (mixOne cfg length (s, most) p).1.outputBuffer = s.outputBuffer ∧
      (mixOne cfg length (s, most) p).1.esdAudioFormat = s.esdAudioFormat := by
  simp only [mixOne, blend]
  cases (s.player p).mixFunc with
  | none => exact ⟨rfl, rfl, rfl⟩
  | some f =>
    simp only
    split_ifs
    · have hsound := consume_sound (p := p)
        (s := { s with mixedBuffer :=
          (f.apply cfg (s.player p) (s.playerData p) length s.mixedBuffer).1 })
        (usedOctets cfg (s.player p)
          (f.apply cfg (s.player p) (s.playerData p) length s.mixedBuffer).2)
      exact ⟨Prod.ext (congrArg Sound.mixedBuffer hsound) rfl, congrArg Sound.outputBuffer hsound,
        congrArg Sound.esdAudioFormat hsound⟩
    · exact ⟨rfl, rfl, rfl⟩

variable (cfg) in
theorem foldl_mixOne_blend {ps : List Ptr} (distinct : ps.Nodup) (length most : ℤ) :
    ((ps.foldl (mixOne cfg length) (s, most)).1.mixedBuffer,
        (ps.foldl (mixOne cfg length) (s, most)).2) =
      ps.foldl (fun a p => blend cfg (s.player p) (s.playerData p) length a) (s.mixedBuffer, most) ∧
    (ps.foldl (mixOne cfg length) (s, most)).1.outputBuffer = s.outputBuffer ∧
    (ps.foldl (mixOne cfg length) (s, most)).1.esdAudioFormat = s.esdAudioFormat := by
  induction ps generalizing s most with
  | nil => exact ⟨rfl, rfl, rfl⟩
  | cons p ps ih =>
    obtain ⟨hp, hrest⟩ := List.nodup_cons.mp distinct
    obtain ⟨hblend, houtput, hformat⟩ := mixOne_blend cfg p s length most
    obtain ⟨s₁, hs₁⟩ : ∃ s₁, (mixOne cfg length (s, most) p).1 = s₁ := ⟨_, rfl⟩
    have hspares : ∀ q ∈ ps, Spares q s s₁ := fun q hq =>
      hs₁ ▸ mixOne_spares (ne_of_mem_of_not_mem hq hp) length most
    obtain ⟨hsum, houtput', hformat'⟩ := ih (s := s₁) hrest (mixOne cfg length (s, most) p).2
    have hcons : (p :: ps).foldl (mixOne cfg length) (s, most) =
        ps.foldl (mixOne cfg length) (s₁, (mixOne cfg length (s, most) p).2) := by
      rw [List.foldl_cons, ← hs₁]
    have hothers : ∀ a : (ℕ → ℤ) × ℤ,
        ps.foldl (fun a q => blend cfg (s₁.player q) (s₁.playerData q) length a) a =
          ps.foldl (fun a q => blend cfg (s.player q) (s.playerData q) length a) a := by
      intro a
      refine List.foldl_ext _ _ _ fun b q hq => ?_
      rw [(hspares q hq).player, (hspares q hq).playerData]
    rw [hs₁] at hblend houtput hformat
    rw [hcons, hsum, hothers, hblend, List.foldl_cons]
    exact ⟨rfl, houtput'.trans houtput, hformat'.trans hformat⟩

/-! ## A cycle with the players in another order -/

def Server.reordered (s : Server) (ps : List Ptr) : Server := { s with esdPlayersList := ps }

/-- The output buffer and the length that come of mixing so much of the players. -/
def mixOf (cfg : Config) (canRead : Ptr → Bool) (s : Server) (length : ℤ) (ps : List Ptr) : Mem × ℤ :=
  let a := ps.foldl
    (fun a p => blend cfg (readTurn canRead s p).pl (readTurn canRead s p).data length a)
    ((clearMix cfg s).mixedBuffer, 0)
  let r := clipMix { s with mixedBuffer := a.1 } a.2
  (r.1.outputBuffer, r.2)

/-- The least that is found when the players come in this order. -/
def leastIn (cfg : Config) (canRead : Ptr → Bool) (s : Server) (ps : List Ptr) : ℤ :=
  ((ps.filter fun p => (readTurn canRead s p).Compared).map (fills cfg canRead s)).foldl (leastOf 0) 0

theorem clipMix_congr (h : t.sound = s.sound) (most : ℤ) :
    (clipMix t most).1.outputBuffer = (clipMix s most).1.outputBuffer ∧
      (clipMix t most).2 = (clipMix s most).2 := by
  have hmixed : t.mixedBuffer = s.mixedBuffer := congrArg Sound.mixedBuffer h
  have houtput : t.outputBuffer = s.outputBuffer := congrArg Sound.outputBuffer h
  have hformat : t.esdAudioFormat = s.esdAudioFormat := congrArg Sound.esdAudioFormat h
  simp only [clipMix, hmixed, houtput, hformat]
  split_ifs <;> exact ⟨rfl, rfl⟩

variable (cfg canRead s) in
theorem mixOf_perm {ps qs : List Ptr} (h : ps.Perm qs) (length : ℤ) :
    mixOf cfg canRead s length ps = mixOf cfg canRead s length qs := by
  have : RightCommutative fun (a : (ℕ → ℤ) × ℤ) p =>
      blend cfg (readTurn canRead s p).pl (readTurn canRead s p).data length a :=
    ⟨fun a p q => blend_comm cfg _ _ length _ _ a⟩
  simp only [mixOf, h.foldl_eq]

theorem mixOf_nothing {ps : List Ptr} (h : ∀ p ∈ ps, (readTurn canRead s p).pl.actualLength ≤ 0)
    (length : ℤ) : mixOf cfg canRead s length ps = (s.outputBuffer, 0) := by
  have hnone : ∀ a, ps.foldl
      (fun a p => blend cfg (readTurn canRead s p).pl (readTurn canRead s p).data length a) a = a := by
    intro a
    induction ps with
    | nil => rfl
    | cons p ps ih =>
      have hone : blend cfg (readTurn canRead s p).pl (readTurn canRead s p).data length a = a := by
        simp only [blend, not_lt.mpr (h p List.mem_cons_self), if_false]
        split <;> rfl
      rw [List.foldl_cons, hone]
      exact ih fun q hq => h q (List.mem_cons_of_mem _ hq)
  simp only [mixOf, hnone, clipMix]
  split_ifs <;> rfl

variable {ps : List Ptr} (hperm : ps.Perm s.esdPlayersList) (hlist : s.esdPlayersList.Nodup)
  (apart : Apart s s.esdPlayersList)

include hperm hlist apart

variable (cfg canRead) in
theorem mixRead_reordered :
    (mixRead cfg canRead (s.reordered ps)).2 = leastIn cfg canRead s ps ∧
      (mixRead cfg canRead (s.reordered ps)).1.sound = (clearMix cfg s).sound ∧
      (mixRead cfg canRead (s.reordered ps)).1.esdPlayersList =
        ps.filter (fun p => 0 ≤ (readTurn canRead s p).actual) ∧
      ∀ p ∈ ps, (mixRead cfg canRead (s.reordered ps)).1.player p = (readTurn canRead s p).pl ∧
        (mixRead cfg canRead (s.reordered ps)).1.playerData p = (readTurn canRead s p).data := by
  have hwait : ∀ p, Waiting p s (clearMix cfg (s.reordered ps)) := fun p =>
    ⟨⟨⟨rfl, rfl, rfl, rfl⟩, ⟨fun _ => .refl _, rfl, .refl _, fun _ => rfl, fun _ => hperm.subset,
      fun _ => .inl rfl⟩, fun hp => hperm.mem_iff.mpr hp⟩, fun _ => rfl⟩
  have hturn : ∀ p, readTurn canRead (clearMix cfg (s.reordered ps)) p = readTurn canRead s p :=
    fun p => (hwait p).readTurn
  have hpass := foldl_mixReadOne_pass cfg canRead (s := clearMix cfg (s.reordered ps)) (hperm.nodup_iff.mpr hlist)
    (fun p hp q hq => apart p (hperm.mem_iff.mp hp) q (hperm.mem_iff.mp hq))
    (hperm.nodup_iff.mpr hlist) 0
  have hfills : fills cfg canRead (clearMix cfg (s.reordered ps)) = fills cfg canRead s := by
    funext p
    rw [fills, fills, hturn p]
  refine ⟨?_, hpass.sound, ?_, fun p hp => ?_⟩
  · have hleast := hpass.least_eq
    simp only [hturn, hfills] at hleast
    exact hleast
  · refine hpass.players.trans (List.filter_congr fun p hp => ?_)
    have hp' : p ∈ ps := hp
    simp [hturn, hp']
  · rw [← hturn p]
    exact hpass.turn p hp

variable (cfg canRead) in
theorem mixPlayers_reordered :
    ((mixPlayers cfg canRead (s.reordered ps)).1.outputBuffer,
        (mixPlayers cfg canRead (s.reordered ps)).2) =
      if leastIn cfg canRead s ps > 0 then
        mixOf cfg canRead s (leastIn cfg canRead s ps)
          (ps.filter fun p => 0 ≤ (readTurn canRead s p).actual)
      else (s.outputBuffer, 0) := by
  obtain ⟨hleast, hsound, hplayers, hturn⟩ := mixRead_reordered cfg canRead hperm hlist apart
  have hpair : mixRead cfg canRead (s.reordered ps) =
      ((mixRead cfg canRead (s.reordered ps)).1, leastIn cfg canRead s ps) := Prod.ext rfl hleast
  generalize (mixRead cfg canRead (s.reordered ps)).1 = u at hpair hsound hplayers hturn
  simp only [mixPlayers, hpair]
  split_ifs
  · have hdistinct : u.esdPlayersList.Nodup := by
      rw [hplayers]
      exact (hperm.nodup_iff.mpr hlist).filter _
    obtain ⟨hsum, houtput, hformat⟩ := foldl_mixOne_blend cfg (s := u) hdistinct
      (leastIn cfg canRead s ps) 0
    have hturns : ∀ a : (ℕ → ℤ) × ℤ, u.esdPlayersList.foldl (fun a p =>
        blend cfg (u.player p) (u.playerData p) (leastIn cfg canRead s ps) a) a =
        u.esdPlayersList.foldl (fun a p => blend cfg (readTurn canRead s p).pl
          (readTurn canRead s p).data (leastIn cfg canRead s ps) a) a := by
      intro a
      refine List.foldl_ext _ _ _ fun b p hp => ?_
      rw [hplayers] at hp
      obtain ⟨hpl, hdata⟩ := hturn p (List.mem_of_mem_filter hp)
      rw [hpl, hdata]
    have hstart : u.mixedBuffer = (clearMix cfg s).mixedBuffer := congrArg Sound.mixedBuffer hsound
    rw [hturns, hplayers, hstart] at hsum
    rw [← hplayers] at hsum
    simp only [mixOf, mixAll]
    rw [← hplayers, ← hsum]
    obtain ⟨hclip, hlength⟩ := clipMix_congr
      (s := { s with mixedBuffer :=
        (u.esdPlayersList.foldl (mixOne cfg (leastIn cfg canRead s ps)) (u, 0)).1.mixedBuffer })
      (t := (u.esdPlayersList.foldl (mixOne cfg (leastIn cfg canRead s ps)) (u, 0)).1)
      (Sound.ext rfl (houtput.trans (congrArg Sound.outputBuffer hsound))
        (hformat.trans (congrArg Sound.esdAudioFormat hsound)))
      (u.esdPlayersList.foldl (mixOne cfg (leastIn cfg canRead s ps)) (u, 0)).2
    exact Prod.ext hclip hlength
  · exact Prod.ext (congrArg Sound.outputBuffer hsound) rfl

end Reading

/-! ## The least length -/

/-- In every order of the players, the length that is mixed is the least that a player with data
can fill, and the same comes of the cycle. -/
def LengthExact (cfg : Config) (canRead : Ptr → Bool) (s : Server) : Prop :=
  ∀ ps : List Ptr, ps.Perm s.esdPlayersList →
    (∀ p ∈ (mixRead cfg canRead (s.reordered ps)).1.esdPlayersList,
      0 < ((mixRead cfg canRead (s.reordered ps)).1.player p).actualLength →
      IsLeast {t | ∃ q ∈ (mixRead cfg canRead (s.reordered ps)).1.esdPlayersList,
        0 < ((mixRead cfg canRead (s.reordered ps)).1.player q).actualLength ∧
        t = translated cfg ((mixRead cfg canRead (s.reordered ps)).1.player q) cfg.esdBufSizeOctets}
        (mixRead cfg canRead (s.reordered ps)).2) ∧
    (mixPlayers cfg canRead (s.reordered ps)).2 = (mixPlayers cfg canRead s).2 ∧
    (mixPlayers cfg canRead (s.reordered ps)).1.outputBuffer = (mixPlayers cfg canRead s).1.outputBuffer

/-- The least of what is compared is what a player with data can fill, and is not the 0 that the
loop takes for nothing yet unless there is nothing else. -/
def LeastHasData (cfg : Config) (canRead : Ptr → Bool) (s : Server) : Prop :=
  ∃ p ∈ s.esdPlayersList, (readTurn canRead s p).HasData ∧
    (∀ q ∈ s.esdPlayersList, (readTurn canRead s q).Compared →
      fills cfg canRead s p ≤ fills cfg canRead s q) ∧
    (fills cfg canRead s p ≠ 0 ∨
      ∀ q ∈ s.esdPlayersList, (readTurn canRead s q).Compared → fills cfg canRead s q = 0)

section Least

variable {cfg : Config} {canRead : Ptr → Bool} {s : Server}

theorem mem_compared {ps : List Ptr} {t : ℤ} :
    t ∈ (ps.filter fun p => (readTurn canRead s p).Compared).map (fills cfg canRead s) ↔
      ∃ p ∈ ps, (readTurn canRead s p).Compared ∧ fills cfg canRead s p = t := by
  simp only [List.mem_map, List.mem_filter, decide_eq_true_eq, and_assoc]

theorem leastIn_of_leastHasData {ps : List Ptr} {p : Ptr} (hp : p ∈ ps)
    (hdata : (readTurn canRead s p).HasData)
    (hle : ∀ q ∈ ps, (readTurn canRead s q).Compared → fills cfg canRead s p ≤ fills cfg canRead s q)
    (hzero : fills cfg canRead s p ≠ 0 ∨
      ∀ q ∈ ps, (readTurn canRead s q).Compared → fills cfg canRead s q = 0) :
    leastIn cfg canRead s ps = fills cfg canRead s p := by
  refine foldl_least (mem_compared.mpr ⟨p, hp, hdata.compared, rfl⟩) (fun t ht => ?_)
    (hzero.imp_right fun hall t ht => ?_)
  · obtain ⟨q, hq, hcompared, rfl⟩ := mem_compared.mp ht
    exact hle q hq hcompared
  · obtain ⟨q, hq, hcompared, rfl⟩ := mem_compared.mp ht
    exact hall q hq hcompared

variable (hlist : s.esdPlayersList.Nodup) (apart : Apart s s.esdPlayersList)

include hlist apart

variable (cfg canRead) in
theorem mem_mixed_iff {ps : List Ptr} (hperm : ps.Perm s.esdPlayersList) (p : Ptr) :
    (p ∈ (mixRead cfg canRead (s.reordered ps)).1.esdPlayersList ∧
        0 < ((mixRead cfg canRead (s.reordered ps)).1.player p).actualLength) ↔
      p ∈ s.esdPlayersList ∧ (readTurn canRead s p).HasData := by
  obtain ⟨-, -, hplayers, hturn⟩ := mixRead_reordered cfg canRead hperm hlist apart
  rw [hplayers, List.mem_filter, decide_eq_true_eq, ← hperm.mem_iff, ReadTurn.HasData, and_assoc]
  refine and_congr_right fun hp => ?_
  rw [(hturn p hp).1]

theorem mixed_fills {ps : List Ptr} (hperm : ps.Perm s.esdPlayersList) {p : Ptr}
    (hp : p ∈ s.esdPlayersList) :
    translated cfg ((mixRead cfg canRead (s.reordered ps)).1.player p) cfg.esdBufSizeOctets =
      fills cfg canRead s p := by
  obtain ⟨-, -, -, hturn⟩ := mixRead_reordered cfg canRead hperm hlist apart
  rw [(hturn p (hperm.mem_iff.mpr hp)).1, fills]

theorem isLeast_iff {ps : List Ptr} (hperm : ps.Perm s.esdPlayersList) :
    (∀ p ∈ (mixRead cfg canRead (s.reordered ps)).1.esdPlayersList,
      0 < ((mixRead cfg canRead (s.reordered ps)).1.player p).actualLength →
      IsLeast {t | ∃ q ∈ (mixRead cfg canRead (s.reordered ps)).1.esdPlayersList,
        0 < ((mixRead cfg canRead (s.reordered ps)).1.player q).actualLength ∧
        t = translated cfg ((mixRead cfg canRead (s.reordered ps)).1.player q) cfg.esdBufSizeOctets}
        (mixRead cfg canRead (s.reordered ps)).2) ↔
    ((∃ p ∈ s.esdPlayersList, (readTurn canRead s p).HasData) →
      IsLeast {t | ∃ q ∈ s.esdPlayersList, (readTurn canRead s q).HasData ∧ t = fills cfg canRead s q}
        (leastIn cfg canRead s ps)) := by
  have hmixed := mem_mixed_iff cfg canRead hlist apart hperm
  have hset : {t | ∃ q ∈ (mixRead cfg canRead (s.reordered ps)).1.esdPlayersList,
      0 < ((mixRead cfg canRead (s.reordered ps)).1.player q).actualLength ∧
      t = translated cfg ((mixRead cfg canRead (s.reordered ps)).1.player q) cfg.esdBufSizeOctets} =
      {t | ∃ q ∈ s.esdPlayersList, (readTurn canRead s q).HasData ∧ t = fills cfg canRead s q} := by
    ext t
    constructor
    · rintro ⟨q, hq, hpos, rfl⟩
      obtain ⟨hq', hdata⟩ := (hmixed q).mp ⟨hq, hpos⟩
      exact ⟨q, hq', hdata, mixed_fills hlist apart hperm hq'⟩
    · rintro ⟨q, hq, hdata, rfl⟩
      obtain ⟨hq', hpos⟩ := (hmixed q).mpr ⟨hq, hdata⟩
      exact ⟨q, hq', hpos, (mixed_fills hlist apart hperm hq).symm⟩
  rw [hset, (mixRead_reordered cfg canRead hperm hlist apart).1]
  constructor
  · rintro h ⟨p, hp, hdata⟩
    obtain ⟨hp', hpos⟩ := (hmixed p).mpr ⟨hp, hdata⟩
    exact h p hp' hpos
  · intro h p hp hpos
    exact h ⟨p, (hmixed p).mp ⟨hp, hpos⟩⟩

theorem lengthExact_of_noData (hnone : ∀ p ∈ s.esdPlayersList, ¬ (readTurn canRead s p).HasData) :
    LengthExact cfg canRead s := by
  have hcycle : ∀ ps : List Ptr, ps.Perm s.esdPlayersList →
      ((mixPlayers cfg canRead (s.reordered ps)).1.outputBuffer,
        (mixPlayers cfg canRead (s.reordered ps)).2) = (s.outputBuffer, 0) := by
    intro ps hperm
    rw [mixPlayers_reordered cfg canRead hperm hlist apart]
    split_ifs
    · refine mixOf_nothing (fun p hp => ?_) _
      obtain ⟨hp, hstays⟩ := List.mem_filter.mp hp
      by_contra hpos
      exact hnone p (hperm.mem_iff.mp hp) ⟨of_decide_eq_true hstays, not_le.mp hpos⟩
    · rfl
  intro ps hperm
  have hthis := hcycle ps hperm
  have hown := hcycle s.esdPlayersList (.refl _)
  obtain ⟨houtput, hlength⟩ := Prod.mk.inj (hthis.trans hown.symm)
  exact ⟨(isLeast_iff hlist apart hperm).mpr fun ⟨p, hp, hdata⟩ => absurd hdata (hnone p hp),
    hlength, houtput⟩

theorem lengthExact_of_leastHasData (h : LeastHasData cfg canRead s) : LengthExact cfg canRead s := by
  obtain ⟨p, hp, hdata, hle, hzero⟩ := h
  have hleast : ∀ ps : List Ptr, ps.Perm s.esdPlayersList →
      leastIn cfg canRead s ps = fills cfg canRead s p := fun ps hperm =>
    leastIn_of_leastHasData (hperm.mem_iff.mpr hp) hdata (fun q hq => hle q (hperm.mem_iff.mp hq))
      (hzero.imp_right fun hall q hq => hall q (hperm.mem_iff.mp hq))
  intro ps hperm
  have hthis := mixPlayers_reordered cfg canRead hperm hlist apart
  have hown := mixPlayers_reordered cfg canRead (.refl _) hlist apart
  have hsame := mixOf_perm cfg canRead s
    (hperm.filter fun p => decide (0 ≤ (readTurn canRead s p).actual)) (fills cfg canRead s p)
  rw [hleast _ hperm, hsame] at hthis
  rw [hleast _ (.refl _)] at hown
  obtain ⟨houtput, hlength⟩ := Prod.mk.inj (hthis.trans hown.symm)
  refine ⟨(isLeast_iff hlist apart hperm).mpr fun _ => ?_, hlength, houtput⟩
  rw [hleast _ hperm]
  exact ⟨⟨p, hp, hdata, rfl⟩, fun t ⟨q, hq, hdata', ht⟩ => (hle q hq hdata'.compared).trans_eq ht.symm⟩

theorem leastHasData_of_lengthExact (h : LengthExact cfg canRead s)
    (hsome : ∃ p ∈ s.esdPlayersList, (readTurn canRead s p).HasData) : LeastHasData cfg canRead s := by
  have hleast : ∀ ps : List Ptr, ps.Perm s.esdPlayersList → IsLeast
      {t | ∃ q ∈ s.esdPlayersList, (readTurn canRead s q).HasData ∧ t = fills cfg canRead s q}
      (leastIn cfg canRead s ps) := fun ps hperm =>
    (isLeast_iff hlist apart hperm).mp (h ps hperm).1 hsome
  have hown := hleast _ (.refl _)
  obtain ⟨p, hp, hdata, hpleast⟩ := hown.1
  have hsame : ∀ ps : List Ptr, ps.Perm s.esdPlayersList →
      leastIn cfg canRead s ps = fills cfg canRead s p := fun ps hperm =>
    ((hleast ps hperm).unique hown).trans hpleast
  have hne : (s.esdPlayersList.filter fun p => (readTurn canRead s p).Compared).map
      (fills cfg canRead s) ≠ [] :=
    List.ne_nil_of_mem (mem_compared.mpr ⟨p, hp, hdata.compared, rfl⟩)
  obtain ⟨v, hv, hvle⟩ := exists_least hne
  have hall : ∀ q ∈ s.esdPlayersList, (readTurn canRead s q).Compared → v ≤ fills cfg canRead s q :=
    fun q hq hcompared => hvle _ (mem_compared.mpr ⟨q, hq, hcompared, rfl⟩)
  -- the least value is found in some order, whoever has it: a 0 is if it comes last
  have hvp : fills cfg canRead s p = v := by
    by_cases hzero : v = 0
    · obtain ⟨q, hq, hcompared, hqv⟩ := mem_compared.mp hv
      have hlast : (s.esdPlayersList.erase q ++ [q]).Perm s.esdPlayersList :=
        (List.perm_append_singleton q _).trans (List.perm_cons_erase hq).symm
      have hnone : ([q].filter fun p => (readTurn canRead s p).Compared).map (fills cfg canRead s) =
          [0] := by
        simp [hcompared, hqv, hzero]
      rw [← hsame _ hlast, hzero, leastIn, List.filter_append, List.map_append, hnone]
      refine foldl_none_last fun t ht => ?_
      obtain ⟨q', hq', hcompared', rfl⟩ := mem_compared.mp ht
      exact hzero.symm.trans_le (hall q' (List.mem_of_mem_erase hq') hcompared')
    · rw [← hsame _ (.refl _)]
      exact foldl_least hv hvle (.inl hzero)
  refine ⟨p, hp, hdata, fun q hq hcompared => hvp.trans_le (hall q hq hcompared), ?_⟩
  -- a 0 that comes first is forgotten
  by_contra hmore
  push Not at hmore
  obtain ⟨hpzero, q, hq, hcompared, hqne⟩ := hmore
  have hfirst : (s.esdPlayersList.filter (fun q => decide (fills cfg canRead s q = 0)) ++
      s.esdPlayersList.filter (fun q => !decide (fills cfg canRead s q = 0))).Perm s.esdPlayersList :=
    List.filter_append_perm _ _
  have hfound := hsame _ hfirst
  rw [leastIn, List.filter_append, List.map_append, foldl_none_first, hpzero] at hfound
  · have hrest : ((s.esdPlayersList.filter fun q => !decide (fills cfg canRead s q = 0)).filter
        fun p => (readTurn canRead s p).Compared).map (fills cfg canRead s) ≠ [] :=
      List.ne_nil_of_mem (mem_compared.mpr ⟨q, by simp [hq, hqne], hcompared, rfl⟩)
    obtain ⟨w, hw, hwle⟩ := exists_least hrest
    obtain ⟨q', hq', -, hq'w⟩ := mem_compared.mp hw
    have hwne : w ≠ 0 := by
      rw [← hq'w]
      simpa using (List.mem_filter.mp hq').2
    exact hwne ((foldl_least hw hwle (.inl hwne)).symm.trans hfound)
  · intro t ht
    obtain ⟨q', hq', -, rfl⟩ := mem_compared.mp ht
    simpa using (List.mem_filter.mp hq').2

/-- The length of a cycle is the least of what the players with data can fill, and the cycle the
same in every order of them, exactly if there are none or one of them has the least of all that
is compared, and that is no 0 or all there is. -/
theorem length_exact_iff : LengthExact cfg canRead s ↔
    (∀ p ∈ s.esdPlayersList, ¬ (readTurn canRead s p).HasData) ∨ LeastHasData cfg canRead s := by
  constructor
  · intro h
    by_cases hsome : ∃ p ∈ s.esdPlayersList, (readTurn canRead s p).HasData
    · exact .inr (leastHasData_of_lengthExact hlist apart h hsome)
    · exact .inl fun p hp hdata => hsome ⟨p, hp, hdata⟩
  · rintro (hnone | hleast)
    · exact lengthExact_of_noData hlist apart hnone
    · exact lengthExact_of_leastHasData hlist apart hleast

end Least

/-- Two clients play a stream each, the later one at the head of the list. -/
def twoStreamsRun (first second : List Octet) : List Action :=
  let sending (piece : List Octet) : Socket := .sending
    [handshake 7, Word.octets 3#32, streamParams (esdBits16 ||| esdStereo) 44100#32, piece]
  [.accept 1 5 (sending first), .poll 1 (.allocating 0), .poll 1 (.allocating 0),
    .poll 1 (.allocating 10), .accept 2 6 (sending second), .poll 2 (.allocating 0),
    .poll 2 (.allocating 0), .poll 2 (.allocating 11)]

theorem twoStreams_whole : (exec (step .smallBlocks) NoReset .blank
    (twoStreamsRun (List.replicate 16 1) (List.replicate 16 2))).isSome := by
  decide +kernel

theorem length_exact_iff_whole : ∃ t, Runs .smallBlocks NoReset .blank
    (twoStreamsRun (List.replicate 16 1) (List.replicate 16 2)) t ∧
      t.esdPlayersList = [11, 10] ∧ LengthExact .smallBlocks (fun _ => true) t := by
  refine ⟨_, Run.of_isSome twoStreams_whole, by decide +kernel, ?_⟩
  rw [length_exact_iff (by decide +kernel) (by decide +kernel)]
  exact .inr ⟨10, by decide +kernel, by decide +kernel, by decide +kernel, .inl (by decide +kernel)⟩

theorem twoStreams_short : (exec (step .smallBlocks) NoReset .blank
    (twoStreamsRun (List.replicate 16 1) (List.replicate 4 2))).isSome := by
  decide +kernel

/-- A read that is cut short. In the order of the list the other player is mixed; in the opposite
order nothing is. -/
theorem length_depends_on_order : ∃ t, Runs .smallBlocks NoReset .blank
    (twoStreamsRun (List.replicate 16 1) (List.replicate 4 2)) t ∧
      t.esdPlayersList = [11, 10] ∧ (mixPlayers .smallBlocks (fun _ => true) t).2 = 16 ∧
      (mixPlayers .smallBlocks (fun _ => true) (t.reordered [10, 11])).2 = 0 ∧
      ¬ LengthExact .smallBlocks (fun _ => true) t := by
  obtain ⟨t, hrun, hlist, hlength, hlength'⟩ : ∃ t, Runs .smallBlocks NoReset .blank
      (twoStreamsRun (List.replicate 16 1) (List.replicate 4 2)) t ∧ t.esdPlayersList = [11, 10] ∧
      (mixPlayers .smallBlocks (fun _ => true) t).2 = 16 ∧
      (mixPlayers .smallBlocks (fun _ => true) (t.reordered [10, 11])).2 = 0 :=
    ⟨_, Run.of_isSome twoStreams_short, by decide +kernel, by decide +kernel, by decide +kernel⟩
  refine ⟨t, hrun, hlist, hlength, hlength', fun h => ?_⟩
  have hsame := (h [10, 11] (hlist ▸ .swap 11 10 [])).2.1
  omega

end Esound
