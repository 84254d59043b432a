import Esound.Buffers
import Esound.Library.Fifo
import Esound.Streams

/-!
# The bytes of a stream

The buffer of a stream is to be a queue between the socket and the mixer: what `read`
returns goes in, what the mixer accounts as used comes out. It is one as long as every
read fills the buffer, and the end of the stream finds the buffer empty.
-/

open Library.Buffer Library.Loop Library.Transition Library.Fifo

namespace Esound

/-! ## The story of a player -/

/-- The events about a player, in order. -/
def Server.story (s : Server) (p : Ptr) : List Event :=
  s.events.filter fun e => e.player = some p

def Server.held (s : Server) (p : Ptr) : List Octet := s.objects.held p

theorem Server.story_emit {s : Server} {p : Ptr} {e : Event} (h : e.player = some p) :
    (s.emit e).story p = s.story p ++ [e] := by
  simp [story, emit, h]

@[simp] theorem Server.held_emit (s : Server) (p : Ptr) (e : Event) :
    (s.emit e).held p = s.held p := rfl

def Event.heardOctets : Event → List Octet
  | heard _ octets => octets
  | _ => []

def Event.usedOctets : Event → List Octet
  | used _ octets => octets
  | _ => []

def heardIn (es : List Event) : List Octet := es.flatMap Event.heardOctets
def usedIn (es : List Event) : List Octet := es.flatMap Event.usedOctets

@[simp] theorem heardIn_append (es es' : List Event) :
    heardIn (es ++ es') = heardIn es ++ heardIn es' := List.flatMap_append

@[simp] theorem usedIn_append (es es' : List Event) :
    usedIn (es ++ es') = usedIn es ++ usedIn es' := List.flatMap_append

/-- Since `s`, the buffer of the player was a queue. -/
def Flows (p : Ptr) (s t : Server) : Prop :=
  ∃ es, t.story p = s.story p ++ es ∧ Moves (s.held p) (heardIn es) (usedIn es) (t.held p)

/-- Nothing was done to the player, and its client is as it was. -/
structure Spares (p : Ptr) (s t : Server) : Prop where
  player : t.player p = s.player p
  playerData : t.playerData p = s.playerData p
  client : t.client = s.client
  story : t.story p = s.story p

namespace Flows

variable {p : Ptr} {s t u : Server}

theorem refl (s : Server) : Flows p s s := ⟨[], by simp, .refl _⟩

theorem trans (h : Flows p s t) (h' : Flows p t u) : Flows p s u := by
  obtain ⟨es, hstory, hmoves⟩ := h
  obtain ⟨es', hstory', hmoves'⟩ := h'
  refine ⟨es ++ es', by rw [hstory', hstory, List.append_assoc], ?_⟩
  rw [heardIn_append, usedIn_append]
  exact hmoves.trans hmoves'

theorem of_eq (hstory : t.story p = s.story p) (hheld : t.held p = s.held p) : Flows p s t :=
  ⟨[], by simp [hstory], by rw [hheld]; exact .refl _⟩

end Flows

namespace Spares

variable {p q : Ptr} {s t u : Server}

theorem refl (s : Server) : Spares p s s := ⟨rfl, rfl, rfl, rfl⟩

theorem trans (h : Spares p s t) (h' : Spares p t u) : Spares p s u :=
  ⟨h'.player.trans h.player, h'.playerData.trans h.playerData, h'.client.trans h.client,
    h'.story.trans h.story⟩

theorem flows (h : Spares p s t) : Flows p s t := by
  refine .of_eq h.story ?_
  change load (t.playerData p) 0 (t.player p).actualLength.toNat =
    load (s.playerData p) 0 (s.player p).actualLength.toNat
  rw [h.player, h.playerData]

theorem setPlayer (h : p ≠ q) (v : EsdPlayer) : Spares p s (s.setPlayer q v) :=
  ⟨by simp [h], rfl, rfl, rfl⟩

theorem setPlayerData (h : p ≠ q) (m : Mem) : Spares p s (s.setPlayerData q m) :=
  ⟨rfl, by simp [Server.setPlayerData, h], rfl, rfl⟩

theorem emit {e : Event} (h : e.player ≠ some p) : Spares p s (s.emit e) :=
  ⟨rfl, rfl, rfl, by simp [Server.story, Server.emit, h]⟩

end Spares

/-! ## Players that have no turn -/

section Others

variable {cfg : Config} {p q : Ptr} {s : Server}

theorem eraseClient_spares (c : Ptr) : Spares p s (eraseClient s c) := by
  unfold eraseClient
  split_ifs
  · exact ⟨rfl, rfl, rfl, by simp [Server.story, Event.player]⟩
  · exact .refl s

theorem eraseSample_spares (id : ℤ) (force : Bool) : Spares p s (eraseSample s id force) := by
  unfold eraseSample
  split
  · exact .refl s
  · split_ifs <;> exact ⟨rfl, rfl, rfl, rfl⟩

theorem freePlayer_account (p : Ptr) (s : Server) (q : Ptr) :
    ∃ t bs, Spares p s t ∧ freePlayer s q = t.emit (.dropped q bs) := by
  unfold freePlayer
  simp only
  split_ifs
  · exact ⟨_, _, eraseClient_spares _, rfl⟩
  · refine ⟨_, _, ?_, rfl⟩
    refine Spares.trans ?_ (eraseSample_spares _ _)
    exact ⟨rfl, rfl, rfl, rfl⟩
  · refine ⟨_, _, ?_, rfl⟩
    exact ⟨rfl, rfl, rfl, rfl⟩
  · exact ⟨_, _, .refl s, rfl⟩

theorem freePlayer_spares (h : p ≠ q) : Spares p s (freePlayer s q) := by
  obtain ⟨t, bs, hspares, hfree⟩ := freePlayer_account p s q
  rw [hfree]
  exact hspares.trans (.emit fun he => h (Option.some.inj he).symm)

theorem setList_spares (l : PlayerList) (ps : List Ptr) : Spares p s (s.setList l ps) := by
  cases l <;> exact ⟨rfl, rfl, rfl, rfl⟩

theorem eraseFrom_spares {l : PlayerList} (h : p ≠ q) : Spares p s (eraseFrom s l q) := by
  unfold eraseFrom
  split_ifs
  · exact (setList_spares _ _).trans (freePlayer_spares h)
  · exact .refl s

theorem hearStream_spares (h : p ≠ q) : Spares p s (hearStream s q).1 := by
  have hheard : ∀ bs : List Octet, (Event.heard q bs).player ≠ some p := fun _ he =>
    h (Option.some.inj he).symm
  refine Spares.trans (t := (s.sysRead (s.player q).sourceId
    ((s.player q).bufferLength - (s.player q).actualLength)).1) ⟨rfl, rfl, rfl, rfl⟩ ?_
  exact (Spares.setPlayerData h _).trans (.emit (hheard _))

theorem readPlayer_spares (h : p ≠ q) (canRead : Bool) : Spares p s (readPlayer canRead s q).1 := by
  have hhear : Spares p s (hearStream s q).1 := hearStream_spares h
  unfold readPlayer readStream readSamplePlayer
  simp only
  split_ifs
  · exact hhear
  · exact hhear
  · exact (hhear.trans (.setPlayerData h _)).trans (.setPlayer h _)
  · exact .refl s
  · exact .refl s
  · exact (Spares.setPlayerData h _).trans (.setPlayer h _)
  · exact .refl s
  · exact .refl s

theorem mixReadOne_spares (h : p ≠ q) (canRead : Ptr → Bool) (length least : ℤ) :
    Spares p s (mixReadOne cfg canRead length (s, least) q).1 := by
  have hread : Spares p s (readPlayer (canRead q) s q).1 := readPlayer_spares h _
  unfold mixReadOne
  simp only
  split_ifs
  · exact hread
  · exact hread.trans (eraseFrom_spares h)
  · exact hread
  · exact hread
  · exact hread

theorem consume_spares (h : p ≠ q) (used : ℤ) : Spares p s (consume s q used) := by
  have hused : ∀ bs : List Octet, (Event.used q bs).player ≠ some p := fun _ he =>
    h (Option.some.inj he).symm
  unfold consume
  simp only
  split_ifs
  · exact ((Spares.setPlayerData h _).trans (.setPlayer h _)).trans (.emit (hused _))
  · exact (Spares.setPlayer h _).trans (.emit (hused _))

theorem mixOne_spares (h : p ≠ q) (length most : ℤ) :
    Spares p s (mixOne cfg length (s, most) q).1 := by
  unfold mixOne
  simp only
  split
  · exact .refl s
  · split_ifs
    · refine Spares.trans ?_ (consume_spares h _)
      exact ⟨rfl, rfl, rfl, rfl⟩
    · exact .refl s

theorem mixReadOne_listed (h : p ≠ q) (canRead : Ptr → Bool) (length least : ℤ)
    (hp : p ∈ s.esdPlayersList) :
    p ∈ (mixReadOne cfg canRead length (s, least) q).1.esdPlayersList := by
  have hdoes := mixReadOne_does cfg (F := .mixed {q}) (s := s) canRead length least
    (Footprint.mixed_owns (Set.mem_singleton q))
  exact (hdoes.effects.untouched (l := .players) hp h h).listed

theorem mixOne_list (length most : ℤ) : (mixOne cfg length (s, most) q).1.list = s.list := by
  unfold mixOne
  simp only
  split
  · rfl
  · split_ifs
    · exact consume_list _
    · rfl

end Others

/-! ## The turn of a player -/

/-- Whatever was counted lies within the buffer. -/
structure EsdPlayer.Filled (pl : EsdPlayer) : Prop where
  nonneg : 0 ≤ pl.actualLength
  room : 0 < pl.actualLength → pl.actualLength ≤ pl.bufferLength

section Turn

variable {cfg : Config} {p : Ptr} {s : Server}

theorem hearStream_story : (hearStream s p).1.story p =
    s.story p ++ [.heard p (hearStream s p).2.octets] :=
  Server.story_emit rfl

theorem hearStream_playerData : (hearStream s p).1.playerData p =
    store (s.playerData p) (s.player p).actualLength (hearStream s p).2.octets := by
  simp [hearStream, Server.setPlayerData, Server.emit]
  rfl

theorem held_eq (s : Server) (p : Ptr) :
    s.held p = load (s.playerData p) 0 (s.player p).actualLength.toNat := rfl

theorem ReadResult.octets_of_count_nonpos {r : ReadResult} (h : r.count ≤ 0) : r.octets = [] := by
  cases r with
  | data bs => simpa [count, octets] using h
  | again | error => rfl

theorem ReadResult.octets_length {r : ReadResult} (h : 0 ≤ r.count) :
    (r.octets.length : ℤ) = r.count := by
  cases r with
  | data bs => rfl
  | again | error => simp [count] at h

theorem hearStream_nothing (h : (hearStream s p).2.count ≤ 0) :
    Flows p s (hearStream s p).1 ∧ (hearStream s p).1.held p = s.held p := by
  have hnone := ReadResult.octets_of_count_nonpos h
  have hheld : (hearStream s p).1.held p = s.held p := by
    rw [held_eq, hearStream_playerData, hearStream_player, hnone, store_nil, held_eq]
  refine ⟨⟨[.heard p []], by rw [hearStream_story, hnone], ?_⟩, hheld⟩
  rw [hheld]
  exact .refl _

theorem hearStream_full {data : Mem} (hfilled : (s.player p).Filled)
    (hcount : 0 ≤ (hearStream s p).2.count) (hdata : data = (hearStream s p).1.playerData p) :
    Flows p s (((hearStream s p).1.setPlayerData p data).setPlayer p
      { s.player p with
        actualLength := (s.player p).actualLength + (hearStream s p).2.count }) := by
  obtain ⟨n, hn⟩ := Int.eq_ofNat_of_zero_le hfilled.nonneg
  have hlen := ReadResult.octets_length hcount
  refine ⟨[.heard p (hearStream s p).2.octets], hearStream_story, ?_⟩
  have hheld : (((hearStream s p).1.setPlayerData p data).setPlayer p
      { s.player p with
        actualLength := (s.player p).actualLength + (hearStream s p).2.count }).held p =
      s.held p ++ (hearStream s p).2.octets := by
    have hsum : ((s.player p).actualLength + (hearStream s p).2.count).toNat =
        n + (hearStream s p).2.octets.length := by omega
    simp only [held_eq, Server.setPlayer, Server.setPlayerData, Function.update_self, hsum]
    rw [hdata, hearStream_playerData, hn, load_store_append, Int.toNat_natCast]
  rw [hheld]
  simpa [heardIn, usedIn, Event.heardOctets, Event.usedOctets] using Moves.arrive (s.held p) _

/-- Since `u` the player was filled and emptied as a queue. -/
structure Kept (p : Ptr) (u t : Server) : Prop where
  flows : Flows p u t
  filled : (t.player p).Filled
  kind : (t.player p).SameKind (u.player p)

theorem Kept.refl (h : (s.player p).Filled) : Kept p s s := ⟨.refl s, h, .refl _⟩

theorem Kept.trans {t u : Server} (h : Kept p s t) (h' : Kept p t u) : Kept p s u :=
  ⟨h.flows.trans h'.flows, h'.filled, h'.kind.trans h.kind⟩

theorem Spares.kept {t : Server} (h : Spares p s t) (hfilled : (s.player p).Filled) : Kept p s t :=
  ⟨h.flows, by rw [h.player]; exact hfilled, by rw [h.player]; exact .refl _⟩

/-- What the read of a turn has to be for no byte to be lost: everything that is asked for,
or nothing, and then the buffer is empty. -/
def WholeRead (canRead : Bool) (s : Server) (p : Ptr) : Prop :=
  (s.player p).actualLength < (s.player p).bufferLength → canRead →
    (hearStream s p).2.count = (s.player p).bufferLength - (s.player p).actualLength ∨
      (hearStream s p).2.count ≤ 0 ∧ (s.player p).actualLength = 0

instance (canRead : Bool) (s : Server) (p : Ptr) : Decidable (WholeRead canRead s p) :=
  inferInstanceAs (Decidable (_ → _ → _))

theorem readStream_kept {canRead : Bool} (hfilled : (s.player p).Filled)
    (own : (s.client (s.player p).parent).swapByteOrder = false)
    (whole : WholeRead canRead s p) :
    Kept p s (readStream canRead s p).1 ∧
      (0 ≤ (readStream canRead s p).2 ∨ (readStream canRead s p).1.held p = []) := by
  have hnothing : (hearStream s p).2.count ≤ 0 → (s.player p).actualLength = 0 →
      Kept p s (hearStream s p).1 ∧ (hearStream s p).1.held p = [] := by
    intro hcount hempty
    obtain ⟨hflows, hheld⟩ := hearStream_nothing hcount
    refine ⟨⟨hflows, hfilled, .refl _⟩, ?_⟩
    rw [hheld, held_eq, hempty]
    rfl
  unfold readStream
  simp only
  split_ifs with hread hangup hshort
  · have hcount : (hearStream s p).2.count ≤ 0 := by
      rcases hangup with hzero | herror
      · exact hzero.le
      · simp [herror, ReadResult.count]
    rcases whole hread.1 hread.2 with hfull | ⟨-, hempty⟩
    · omega
    · obtain ⟨hkept, hheld⟩ := hnothing hcount hempty
      exact ⟨hkept, .inr hheld⟩
  · rcases whole hread.1 hread.2 with hfull | ⟨hcount, hempty⟩
    · omega
    · obtain ⟨hkept, hheld⟩ := hnothing hcount hempty
      exact ⟨hkept, .inr hheld⟩
  · have hfull := (whole hread.1 hread.2).resolve_right (by omega)
    have hdata : swapStream ((hearStream s p).1.client (s.player p).parent) (s.player p)
        ((hearStream s p).1.playerData p) (hearStream s p).2.count =
        (hearStream s p).1.playerData p := by
      have hclient : (hearStream s p).1.client = s.client := rfl
      unfold swapStream
      simp only [hclient, own, Bool.false_eq_true, false_and, if_false]
    refine ⟨⟨hearStream_full hfilled (by omega) hdata, ?_, ?_⟩, .inl (by omega)⟩
    · have hnonneg := hfilled.nonneg
      rw [Server.player_setPlayer, Function.update_self]
      exact ⟨by dsimp only; omega, fun _ => by dsimp only; omega⟩
    · rw [Server.player_setPlayer, Function.update_self]
      exact ⟨rfl, rfl, rfl, rfl, rfl⟩
  · exact ⟨.refl hfilled, .inl le_rfl⟩

/-- Erasing a player leaves its buffer, which no one will look at again. -/
theorem eraseFrom_flows (l : PlayerList) (p : Ptr) : Flows p s (eraseFrom s l p) := by
  unfold eraseFrom
  split_ifs
  · obtain ⟨t, bs, hspares, hfree⟩ := freePlayer_account p (s.setList l ((s.list l).erase p)) p
    rw [hfree]
    have hdropped : Flows p t (t.emit (.dropped p bs)) := by
      refine ⟨[.dropped p bs], Server.story_emit rfl, ?_⟩
      exact .refl (t.held p)
    exact ((setList_spares _ _).trans hspares).flows.trans hdropped
  · exact .refl s

theorem eraseFrom_held (l : PlayerList) (p : Ptr) : (eraseFrom s l p).held p = s.held p := by
  unfold eraseFrom
  split_ifs
  · obtain ⟨t, bs, hspares, hfree⟩ := freePlayer_account p (s.setList l ((s.list l).erase p)) p
    have hboth := (setList_spares l ((s.list l).erase p)).trans hspares
    rw [hfree]
    change t.held p = s.held p
    rw [held_eq, hboth.player, hboth.playerData, held_eq]
  · rfl

theorem mixReadOne_kept {canRead : Ptr → Bool} {length least : ℤ} (hp : p ∈ s.esdPlayersList)
    (mode : (s.player p).IsStream) (hfilled : (s.player p).Filled)
    (own : (s.client (s.player p).parent).swapByteOrder = false)
    (whole : WholeRead (canRead p) s p) :
    Kept p s (mixReadOne cfg canRead length (s, least) p).1 ∧
      (p ∈ (mixReadOne cfg canRead length (s, least) p).1.esdPlayersList ∨
        (mixReadOne cfg canRead length (s, least) p).1.held p = []) := by
  obtain ⟨hkept, hgoes⟩ := readStream_kept hfilled own whole
  have hlisted : p ∈ (readStream (canRead p) s p).1.esdPlayersList := by
    have hlist := congrFun (readStream_list (s := s) (p := p) (canRead p)) .players
    exact (congrArg (p ∈ ·) hlist).mpr hp
  have hread : readPlayer (canRead p) s p = readStream (canRead p) s p := by
    unfold readPlayer
    rw [if_pos mode]
  unfold mixReadOne
  simp only [hread]
  split_ifs with _ hneg
  · exact ⟨hkept, .inl hlisted⟩
  · have hempty := hgoes.resolve_left (by omega)
    refine ⟨hkept.trans ⟨eraseFrom_flows _ _, ?_, ?_⟩, .inr ?_⟩
    · rw [erasePlayer, eraseFrom_player]
      exact hkept.filled
    · rw [erasePlayer, eraseFrom_player]
      exact .refl _
    · rw [erasePlayer, eraseFrom_held, hempty]
  · exact ⟨hkept, .inl hlisted⟩
  · exact ⟨hkept, .inl hlisted⟩
  · exact ⟨hkept, .inl hlisted⟩

theorem emit_used_flows {t : Server} (bs : List Octet) (hheld : s.held p = bs ++ t.held p)
    (hstory : t.story p = s.story p) : Flows p s (t.emit (.used p bs)) := by
  refine ⟨[.used p bs], by rw [Server.story_emit rfl, hstory], ?_⟩
  rw [hheld, Server.held_emit]
  simpa [heardIn, usedIn, Event.heardOctets, Event.usedOctets] using Moves.leave bs (t.held p)

theorem consume_kept {used : ℤ} (hused : 0 ≤ used) (hfilled : (s.player p).Filled) :
    Kept p s (consume s p used) := by
  have hnonneg := hfilled.nonneg
  unfold consume
  simp only
  split_ifs with hrest
  · obtain ⟨n, hn⟩ := Int.eq_ofNat_of_zero_le hused
    obtain ⟨m, hm⟩ := Int.eq_ofNat_of_zero_le hrest.le
    have hlen : (s.player p).actualLength.toNat = n + m := by omega
    refine ⟨emit_used_flows _ ?_ rfl, ?_, ?_⟩
    · simp only [held_eq, Server.setPlayer, Server.setPlayerData, Function.update_self, hm]
      rw [hlen, hn, Int.toNat_natCast, Int.toNat_natCast, load_moveDown]
      simpa using load_add (s.playerData p) 0 n m
    · have hroom := hfilled.room
      rw [Server.player_emit, Server.player_setPlayer, Function.update_self]
      exact ⟨hrest.le, fun _ => by dsimp only; omega⟩
    · rw [Server.player_emit, Server.player_setPlayer, Function.update_self]
      exact ⟨rfl, rfl, rfl, rfl, rfl⟩
  · refine ⟨emit_used_flows _ ?_ rfl, ?_, ?_⟩
    · simp [held_eq, Server.setPlayer]
    · rw [Server.player_emit, Server.player_setPlayer, Function.update_self]
      exact ⟨le_rfl, fun h => absurd h (lt_irrefl 0)⟩
    · rw [Server.player_emit, Server.player_setPlayer, Function.update_self]
      exact ⟨rfl, rfl, rfl, rfl, rfl⟩

theorem mixOne_kept {length : ℤ} (hlength : length ≤ cfg.esdBufSizeOctets) (most : ℤ)
    (hfilled : (s.player p).Filled) (hrate : (s.player p).RateFits cfg) :
    Kept p s (mixOne cfg length (s, most) p).1 := by
  unfold mixOne
  simp only
  split
  · exact .refl hfilled
  · rename_i f _
    split_ifs with hlen
    · have hmixed := f.apply_return cfg (s.player p) (s.playerData p) length s.mixedBuffer
      generalize f.apply cfg (s.player p) (s.playerData p) length s.mixedBuffer = r at hmixed ⊢
      have hused : 0 ≤ usedOctets cfg (s.player p) r.2 :=
        usedOctets_nonneg hrate (hlen.trans_le (hfilled.room hlen)) hmixed.1 (by omega)
      refine Kept.trans (t := { s with mixedBuffer := r.1 }) ?_ (consume_kept hused hfilled)
      exact ⟨.of_eq rfl rfl, hfilled, .refl _⟩
    · exact .refl hfilled

end Turn

/-! ## A cycle -/

section Cycle

variable {cfg : Config} {canRead : Ptr → Bool} {p : Ptr} {s t u : Server}

/-- The state in which a mixing cycle comes to read the player. -/
def mixTurn (cfg : Config) (canRead : Ptr → Bool) (s : Server) (p : Ptr) : Server :=
  ((s.esdPlayersList.takeWhile (· ≠ p)).foldl (mixReadOne cfg canRead cfg.esdBufSizeOctets)
    (clearMix cfg s, 0)).1

/-- A cycle that loses no byte of the player: its client has the daemon's byte order, its rate
fits, and it is read whole. -/
structure MixKeeps (cfg : Config) (canRead : Ptr → Bool) (s : Server) (p : Ptr) : Prop where
  own : (s.client (s.player p).parent).swapByteOrder = false
  rate : (s.player p).RateFits cfg
  whole : WholeRead (canRead p) (mixTurn cfg canRead s p) p

instance (cfg : Config) (canRead : Ptr → Bool) (s : Server) (p : Ptr) :
    Decidable (MixKeeps cfg canRead s p) :=
  decidable_of_iff
    ((s.client (s.player p).parent).swapByteOrder = false ∧ (s.player p).RateFits cfg ∧
      WholeRead (canRead p) (mixTurn cfg canRead s p) p)
    ⟨fun h => ⟨h.1, h.2.1, h.2.2⟩, fun h => ⟨h.own, h.rate, h.whole⟩⟩

/-- Listed as before, or gone with an empty buffer. -/
def Stays (p : Ptr) (s : Server) : Prop := p ∈ s.esdPlayersList ∨ s.held p = []

theorem Stays.spares (h : Stays p s) (hspares : Spares p s t)
    (hlisted : p ∈ s.esdPlayersList → p ∈ t.esdPlayersList) : Stays p t := by
  refine h.imp hlisted fun hheld => ?_
  rw [held_eq, hspares.player, hspares.playerData]
  exact hheld

theorem mixRead_kept (hnd : s.esdPlayersList.Nodup) (hp : p ∈ s.esdPlayersList)
    (mode : (s.player p).IsStream) (hfilled : (s.player p).Filled)
    (hok : MixKeeps cfg canRead s p) :
    Kept p s (mixRead cfg canRead s).1 ∧ Stays p (mixRead cfg canRead s).1 := by
  have hturn := foldl_turn
    (fun a b : Server × ℤ => Spares p a.1 b.1 ∧ (p ∈ a.1.esdPlayersList → p ∈ b.1.esdPlayersList))
    (fun a => ⟨.refl a.1, id⟩) (fun _ _ _ h h' => ⟨h.1.trans h'.1, h'.2 ∘ h.2⟩)
    (mixReadOne cfg canRead cfg.esdBufSizeOctets) hnd hp
    (fun a q hne => ⟨mixReadOne_spares hne canRead _ a.2, mixReadOne_listed hne canRead _ a.2⟩)
    (clearMix cfg s, 0)
  obtain ⟨⟨hbefore, hlisted⟩, hafter, hstill⟩ := hturn
  have hwhole := hok.whole
  unfold mixTurn at hwhole
  unfold mixRead
  generalize (s.esdPlayersList.takeWhile (· ≠ p)).foldl
    (mixReadOne cfg canRead cfg.esdBufSizeOctets) (clearMix cfg s, 0) = a at *
  have hplayer : a.1.player p = s.player p := hbefore.player
  have hclear : Kept p s (clearMix cfg s) := ⟨.of_eq rfl rfl, hfilled, .refl _⟩
  obtain ⟨hkept, hstays⟩ := mixReadOne_kept (hlisted hp) (by rwa [hplayer]) (by rwa [hplayer])
    (by rw [hbefore.client, hplayer]; exact hok.own) hwhole
  refine ⟨((hclear.trans (hbefore.kept hfilled)).trans hkept).trans (hafter.kept hkept.filled), ?_⟩
  exact Stays.spares hstays hafter hstill

variable (cfg) in
theorem mixAll_list (least : ℤ) : (mixAll cfg least s).1.list = s.list :=
  foldl_invariant (fun a : Server × ℤ => a.1.list = s.list) _ _
    (fun a _ _ ha => (mixOne_list _ a.2).trans ha) rfl

theorem mixAll_kept {least : ℤ} (hleast : least ≤ cfg.esdBufSizeOctets)
    (hnd : s.esdPlayersList.Nodup) (hfilled : (s.player p).Filled)
    (hrate : (s.player p).RateFits cfg) (hstays : Stays p s) :
    Kept p s (mixAll cfg least s).1 ∧ Stays p (mixAll cfg least s).1 := by
  have hlist := congrFun (mixAll_list cfg (s := s) least) .players
  by_cases hp : p ∈ s.esdPlayersList
  · obtain ⟨hbefore, hafter⟩ := foldl_turn (fun a b : Server × ℤ => Spares p a.1 b.1)
      (fun a => .refl a.1) (fun _ _ _ => .trans) (mixOne cfg least) hnd hp
      (fun a q hne => mixOne_spares hne least a.2) (s, 0)
    refine ⟨?_, .inl ((congrArg (p ∈ ·) hlist).mpr hp)⟩
    unfold mixAll
    generalize (s.esdPlayersList.takeWhile (· ≠ p)).foldl (mixOne cfg least) (s, 0) = a at *
    have hplayer : a.1.player p = s.player p := hbefore.player
    have hone := mixOne_kept (p := p) (s := a.1) hleast a.2 (by rwa [hplayer])
      (by rwa [hplayer])
    exact ((hbefore.kept hfilled).trans hone).trans (hafter.kept hone.filled)
  · have hspares := foldl_related (fun a b : Server × ℤ => Spares p a.1 b.1)
      (fun a => .refl a.1) (fun _ _ _ => .trans) (mixOne cfg least) s.esdPlayersList
      (fun a q hq => mixOne_spares (fun he : p = q => hp (he ▸ hq)) least a.2) (s, 0)
    exact ⟨hspares.kept hfilled, hstays.spares hspares fun h => absurd h hp⟩

theorem clipMix_spares (most : ℤ) : Spares p s (clipMix s most).1 := by
  unfold clipMix
  split_ifs <;> exact ⟨rfl, rfl, rfl, rfl⟩

theorem clipMix_list (most : ℤ) : (clipMix s most).1.list = s.list := by
  unfold clipMix
  split_ifs <;> rfl

theorem mixPlayers_kept (hw : s.objects.WellFormed) (hp : p ∈ s.esdPlayersList)
    (mode : (s.player p).IsStream) (hfilled : (s.player p).Filled)
    (hok : MixKeeps cfg canRead s p) :
    Kept p s (mixPlayers cfg canRead s).1 ∧ Stays p (mixPlayers cfg canRead s).1 := by
  obtain ⟨hread, hstays⟩ := mixRead_kept (hw.lists_nodup .players) hp mode hfilled hok
  have hwell := (mixRead_does cfg (F := .mixed Set.univ) (s := s) canRead
    fun q _ => Footprint.mixed_owns (Set.mem_univ q)).wellFormed hw
  unfold mixPlayers
  simp only
  split_ifs
  · obtain ⟨hall, hstill⟩ := mixAll_kept (mixRead_least canRead s) (hwell.lists_nodup .players)
      hread.filled (hread.kind.rateFits hok.rate) hstays
    have hclip := clipMix_list (s := (mixAll cfg (mixRead cfg canRead s).2
      (mixRead cfg canRead s).1).1) (mixAll cfg (mixRead cfg canRead s).2 (mixRead cfg canRead s).1).2
    refine ⟨(hread.trans hall).trans ((clipMix_spares _).kept hall.filled),
      hstill.spares (clipMix_spares _) fun h => ?_⟩
    exact (congrArg (p ∈ ·) (congrFun hclip .players)).mpr h
  · exact ⟨hread, hstays⟩

/-! ## A run -/

/-- The stream is open, and a cycle loses no byte of it. -/
def KeepsBytes (cfg : Config) (p : Ptr) (s : Server) (a : Action) : Prop :=
  p ∈ s.esdPlayersList ∧
    match a with
    | .mix canRead => MixKeeps cfg canRead s p
    | _ => True

instance (cfg : Config) (p : Ptr) (s : Server) (a : Action) : Decidable (KeepsBytes cfg p s a) :=
  match a with
  | .mix canRead => inferInstanceAs (Decidable (p ∈ s.esdPlayersList ∧ MixKeeps cfg canRead s p))
  | .accept .. | .poll .. | .refresh | .wake _ | .filter .. | .monitor .. | .recorder ..
  | .autostandby | .reconnect _ | .reset _ => inferInstanceAs (Decidable (p ∈ s.esdPlayersList ∧ True))

theorem story_eq (s : Server) (p : Ptr) :
    s.story p = s.objects.stock.filter fun e => e.player = some p := by
  simp only [Server.story, Server.objects_stock, List.filter_filter]
  apply List.filter_congr
  intro e _
  cases e.player <;> simp

theorem untouched_kept {l : PlayerList} (h : s.objects.Untouched l p t.objects)
    (hfilled : (s.player p).Filled) : Kept p s t := by
  have hlen : (t.player p).actualLength = (s.player p).actualLength := h.actualLength
  have hdata : t.playerData p = s.playerData p := h.playerData
  refine ⟨.of_eq ?_ ?_, ⟨hlen ▸ hfilled.nonneg, ?_⟩, h.kind⟩
  · rw [story_eq, story_eq]
    exact h.stock
  · rw [held_eq, hlen, hdata, held_eq]
  · have hbuf : (t.player p).bufferLength = (s.player p).bufferLength := h.kind.bufferLength
    rw [hlen, hbuf]
    exact hfilled.room

theorem step_kept {a : Action} (hw : s.objects.WellFormed) (mode : (s.player p).IsStream)
    (hfilled : (s.player p).Filled) (hok : KeepsBytes cfg p s a) (h : step cfg s a = some t) :
    Kept p s t ∧ Stays p t := by
  obtain ⟨hp, hcycle⟩ := hok
  have hother : ∀ l, l ≠ .players → p ∉ s.list l := fun l hl hmem =>
    hl (hw.lists_disjoint p l .players hmem hp)
  have hframe : ¬ a.IsReset → p ∉ (a.footprint s).players → p ∉ (a.footprint s).lengths →
      Kept p s t ∧ Stays p t := by
    intro hreset hplayers hlengths
    have huntouched := (step_effects hw h hreset).untouched (l := .players) hp hplayers hlengths
    exact ⟨untouched_kept huntouched hfilled, .inl huntouched.listed⟩
  cases a with
  | mix canRead =>
    obtain ⟨-, h⟩ := step_eq_some h
    cases h
    exact mixPlayers_kept hw hp mode hfilled hcycle
  | reset scrambled =>
    obtain ⟨-, h⟩ := step_eq_some h
    cases h
    have hobj := resetDaemon_objects s scrambled
    have huntouched : s.objects.Untouched .players p (resetDaemon s scrambled).objects := by
      rw [hobj]
      exact .congr hp rfl rfl rfl
    exact ⟨untouched_kept huntouched hfilled, .inl huntouched.listed⟩
  | filter canRead size => exact hframe id (hother .filters (by decide)) (hother .filters (by decide))
  | monitor canWrite length => exact hframe id (hother .monitors (by decide)) id
  | recorder ready reopen block length => exact hframe id (hother .recorders (by decide)) id
  | accept | poll | refresh | wake | autostandby | reconnect => exact hframe id id id

/-- What `read` brought for the player since `u`, and what the mixer used of it since. -/
def heardSince (p : Ptr) (u t : Server) : List Octet :=
  heardIn ((t.story p).drop (u.story p).length)

def usedSince (p : Ptr) (u t : Server) : List Octet :=
  usedIn ((t.story p).drop (u.story p).length)

/-- What is in the buffer of a player that is mixed. -/
def buffered (p : Ptr) (s : Server) : List Octet := if p ∈ s.esdPlayersList then s.held p else []

theorem Flows.since (h : Flows p s t) :
    s.held p ++ heardSince p s t = usedSince p s t ++ t.held p := by
  obtain ⟨es, hstory, hmoves⟩ := h
  unfold heardSince usedSince
  rw [hstory, List.drop_left]
  exact hmoves

/-- From when its buffer is empty, as it is when the stream is opened, and as long as its
cycles meet the condition, the bytes that were read for a stream are those the mixer used
and, behind them, those in the valid region of its buffer. -/
theorem stream_bytes_conserved {ok : Server → Action → Prop} {as bs : List Action}
    (hs : s.Initial) (hopened : Runs cfg ok s as u) (hp : p ∈ u.esdPlayersList)
    (mode : (u.player p).IsStream) (hempty : (u.player p).actualLength = 0)
    (h : Runs cfg (KeepsBytes cfg p) u bs t) :
    heardSince p u t = usedSince p u t ++ buffered p t := by
  have hheld : u.held p = [] := by
    rw [held_eq, hempty]
    rfl
  have hfilled : (u.player p).Filled := ⟨hempty.ge, fun hpos => absurd hempty hpos.ne'⟩
  have hkept := h.invariant (fun t => t.objects.WellFormed ∧ Kept p u t ∧ Stays p t) ?_
    ⟨Run.wellFormed hopened hs.wellFormed, .refl hfilled, .inl hp⟩
  · obtain ⟨-, hkept, hstays⟩ := hkept
    have hsince := hkept.flows.since
    rw [hheld, List.nil_append] at hsince
    rw [hsince]
    unfold buffered
    split_ifs with hlisted
    · rfl
    · rw [hstays.resolve_left hlisted]
  · rintro s a t ⟨hw, hkept, -⟩ hok hstep
    have hmode : (s.player p).IsStream := hkept.kind.isStream_iff.mpr mode
    obtain ⟨hone, hstays⟩ := step_kept hw hmode hkept.filled hok hstep
    exact ⟨step_wellFormed hw hstep, hkept.trans hone, hstays⟩

end Cycle

def twoCycles : List Action := List.replicate 2 (.mix fun _ => true)

/-- Two blocks, in two reads of a block each. -/
def wholePieces : List (List Octet) := [List.replicate 16 1, List.replicate 16 2]

theorem wholePieces_open :
    (exec (step .smallBlocks) NoReset .blank (streamingRun wholePieces)).isSome := by
  decide +kernel

theorem wholePieces_mix :
    (exec (step .smallBlocks) (KeepsBytes .smallBlocks 2)
      ((exec (step .smallBlocks) NoReset .blank (streamingRun wholePieces)).get wholePieces_open)
      twoCycles).isSome := by
  decide +kernel

theorem stream_bytes_conserved_whole :
    ∃ u t, Runs .smallBlocks NoReset .blank (streamingRun wholePieces) u ∧
      Runs .smallBlocks (KeepsBytes .smallBlocks 2) u twoCycles t ∧
      (heardSince 2 u t).length = 32 ∧
      heardSince 2 u t = usedSince 2 u t ++ buffered 2 t := by
  refine ⟨_, _, Run.of_isSome wholePieces_open, Run.of_isSome wholePieces_mix, by decide +kernel, ?_⟩
  exact stream_bytes_conserved Server.blank_initial (Run.of_isSome wholePieces_open)
    (by decide +kernel) (by decide +kernel) (by decide +kernel) (Run.of_isSome wholePieces_mix)

/-- The first read brings a quarter of a block. -/
def cutPieces : List (List Octet) := [List.replicate 4 1, List.replicate 16 2]

theorem cutPieces_open :
    (exec (step .smallBlocks) NoReset .blank (streamingRun cutPieces)).isSome := by
  decide +kernel

theorem cutPieces_mix :
    (exec (step .smallBlocks) NoReset
      ((exec (step .smallBlocks) NoReset .blank (streamingRun cutPieces)).get cutPieces_open)
      twoCycles).isSome := by
  decide +kernel

/-- The four octets that came first are overwritten by the next sixteen. -/
theorem short_read_overwritten :
    ∃ u t, Runs .smallBlocks NoReset .blank (streamingRun cutPieces) u ∧
      Runs .smallBlocks NoReset u twoCycles t ∧ 2 ∈ u.esdPlayersList ∧
      (u.player 2).actualLength = 0 ∧ (u.client 1).swapByteOrder = false ∧
      heardSince 2 u t = List.replicate 4 1 ++ List.replicate 16 2 ∧
      usedSince 2 u t ++ buffered 2 t = List.replicate 16 2 ∧
      heardSince 2 u t ≠ usedSince 2 u t ++ buffered 2 t :=
  ⟨_, _, Run.of_isSome cutPieces_open, Run.of_isSome cutPieces_mix, by decide +kernel,
    by decide +kernel, by decide +kernel, by decide +kernel, by decide +kernel, by decide +kernel⟩

end Esound
