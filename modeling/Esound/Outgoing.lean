import Esound.AllInfo
import Esound.MixedLength
import Esound.Streams
import Esound.Swapping
import Esound.Translation

/-!
# What monitors and recorders are sent

The monitors have their turns one after the other, and each has a buffer and a socket of its
own. What one of them is sent depends on the others only through the length it is given, which
is what the monitor before it was sent. A recorder is always given the length of the block, and
its block is put in the order of its client.
-/

open Library.Buffer Library.Loop Library.Resampling Library.Transition

namespace Esound

/-! ## The turns of others -/

/-- Others had their turns: none of them used the socket of the player. -/
structure Awaits (p : Ptr) (s t : Server) : Prop where
  player : t.player p = s.player p
  client : t.client = s.client
  socket : t.sockets (s.player p).sourceId = s.sockets (s.player p).sourceId
  events : ∃ es, t.events = s.events ++ es ∧ writtenTo (s.player p).sourceId es = []

/-- Nor did they touch its buffer. -/
structure Bystander (p : Ptr) (s t : Server) : Prop extends Awaits p s t where
  data : t.playerData p = s.playerData p

/-- Nothing was written, read or translated. -/
structure Idles (s t : Server) : Prop where
  silent : Silent s t
  player : t.player = s.player
  client : t.client = s.client
  events : ∃ es, t.events = s.events ++ es ∧ ∀ fd, writtenTo fd es = []

section Turns

variable {p q c : Ptr} {s t u : Server} {fd : ℤ}

theorem Idles.refl (s : Server) : Idles s s := ⟨⟨rfl, rfl, rfl⟩, rfl, rfl, [], by simp [writtenTo]⟩

theorem Idles.trans (h : Idles s t) (h' : Idles t u) : Idles s u := by
  obtain ⟨es, hes, hnone⟩ := h.events
  obtain ⟨es', hes', hnone'⟩ := h'.events
  refine ⟨⟨h'.silent.sound.trans h.silent.sound, h'.silent.sockets.trans h.silent.sockets,
    h'.silent.playerData.trans h.silent.playerData⟩, h'.player.trans h.player,
    h'.client.trans h.client, es ++ es', ?_, fun fd => ?_⟩
  · rw [hes', hes, List.append_assoc]
  · rw [writtenTo, List.flatMap_append, ← writtenTo, ← writtenTo, hnone, hnone', List.append_nil]

theorem Awaits.refl (s : Server) : Awaits p s s := ⟨rfl, rfl, rfl, [], by simp [writtenTo]⟩

theorem Awaits.trans (h : Awaits p s t) (h' : Awaits p t u) : Awaits p s u := by
  obtain ⟨es, hes, hnone⟩ := h.events
  obtain ⟨es', hes', hnone'⟩ := h'.events
  have hsocket := h'.socket
  rw [h.player] at hsocket hnone'
  refine ⟨h'.player.trans h.player, h'.client.trans h.client, hsocket.trans h.socket, es ++ es', ?_, ?_⟩
  · rw [hes', hes, List.append_assoc]
  · rw [writtenTo, List.flatMap_append, ← writtenTo, ← writtenTo, hnone, hnone', List.append_nil]

theorem Bystander.refl (s : Server) : Bystander p s s := ⟨.refl s, rfl⟩

theorem Bystander.trans (h : Bystander p s t) (h' : Bystander p t u) : Bystander p s u :=
  ⟨h.toAwaits.trans h'.toAwaits, h'.data.trans h.data⟩

theorem Idles.bystander (h : Idles s t) (p : Ptr) : Bystander p s t := by
  obtain ⟨es, hes, hnone⟩ := h.events
  exact ⟨⟨congrFun h.player p, h.client, congrFun h.silent.sockets _, es, hes, hnone _⟩,
    congrFun h.silent.playerData p⟩

theorem eraseClient_idles : Idles s (eraseClient s c) := by
  simp only [eraseClient]
  split_ifs
  · exact ⟨⟨rfl, rfl, rfl⟩, rfl, rfl, [.closed (s.client c).fd], rfl, fun fd => rfl⟩
  · exact .refl s

theorem eraseSample_idles {id : ℤ} : Idles s (eraseSample s id false) := by
  simp only [eraseSample]
  split
  · exact .refl s
  · split_ifs <;> exact ⟨⟨rfl, rfl, rfl⟩, rfl, rfl, [], by simp [Server.setSample], fun fd => rfl⟩

theorem freePlayer_idles : Idles s (freePlayer s p) := by
  have hdropped : ∀ (t : Server) bs, Idles t (t.emit (.dropped p bs)) := fun t bs =>
    ⟨⟨rfl, rfl, rfl⟩, rfl, rfl, [.dropped p bs], rfl, fun fd => rfl⟩
  have hless : Idles s { s.setSample (s.player p).parent { s.sample (s.player p).parent with
        refCount := (s.sample (s.player p).parent).refCount - 1 } with
      esdPlayingSamples := s.esdPlayingSamples - 1 } :=
    ⟨⟨rfl, rfl, rfl⟩, rfl, rfl, [], by simp [Server.setSample], fun fd => rfl⟩
  simp only [freePlayer]
  split_ifs
  · exact eraseClient_idles.trans (hdropped _ _)
  · exact (hless.trans eraseSample_idles).trans (hdropped _ _)
  · exact hless.trans (hdropped _ _)
  · exact hdropped _ _

theorem eraseFrom_idles {l : PlayerList} : Idles s (eraseFrom s l p) := by
  have hlist : ∀ ps, Idles s (s.setList l ps) := fun ps => by
    cases l <;> exact ⟨⟨rfl, rfl, rfl⟩, rfl, rfl, [], by simp [Server.setList], fun fd => rfl⟩
  simp only [eraseFrom]
  split_ifs
  · exact (hlist _).trans freePlayer_idles
  · exact .refl s

theorem writtenSince_of_events {es : List Event} (h : t.events = s.events ++ es) :
    writtenSince fd s t = writtenTo fd es := by
  rw [writtenSince, h, List.drop_left]

end Turns

/-- No two players in the list have one socket. -/
def SocketsApart (s : Server) (l : PlayerList) : Prop :=
  ((s.list l).map fun p => (s.player p).sourceId).Nodup

instance (s : Server) (l : PlayerList) : Decidable (SocketsApart s l) :=
  inferInstanceAs (Decidable (List.Nodup _))

/-- The streams of a daemon that was not reset have sockets of their own. -/
theorem runs_socketsApart {cfg : Config} {s t : Server} {as : List Action} (hs : s.Initial)
    (h : Runs cfg NoReset s as t) {l : PlayerList} (hl : l ≠ .players) : SocketsApart t l := by
  have hw := Run.wellFormed h hs.wellFormed
  have hpaired := Run.objects_invariant Objects.Paired (fun _ _ _ hw ho he => ho.effect hw he) h
    hs.wellFormed hs.paired
  refine (hw.lists_nodup l).map_on fun p hp q hq hfd => ?_
  have hp' : t.objects.StreamAt l p := ⟨hp, hw.streams hl hp⟩
  have hq' : t.objects.StreamAt l q := ⟨hq, hw.streams hl hq⟩
  have hserved := hpaired.served l p hp'
  have hserved' := hpaired.served l q hq'
  exact (hpaired.unique l p l q hp' hq' (hpaired.fds _ hserved.client _ hserved'.client
    (hserved.fd.trans (hfd.trans hserved'.fd.symm)))).2

/-! ## The turn of one player -/

/-- The block of the player after so many octets of the output were translated into it. -/
def blockOf (cfg : Config) (s : Server) (p : Ptr) (length : ℤ) : List Octet :=
  load ((translateInto cfg s p length).1.playerData p) 0 (s.player p).bufferLength.toNat

/-- What a write of `n` octets comes to. -/
def Socket.takes (k : Socket) (n : ℕ) : ℤ :=
  match k.room with
  | [] => n
  | r :: _ => if r < 0 then -1 else min r n

/-- What a write of a whole block to the player comes to. -/
def takes (s : Server) (p : Ptr) : ℤ :=
  (s.sockets (s.player p).sourceId).takes (s.player p).bufferLength.toNat

section Turn

variable {cfg : Config} {canWrite : Ptr → Bool} {p q : Ptr} {s t : Server} {length length' : ℤ}

theorem Socket.write_takes (k : Socket) (bs : List Octet) : (k.write bs).1 = k.takes bs.length := by
  simp only [Socket.write, Socket.takes]
  cases k.room <;> rfl

/-- How long the source is makes no difference unless there is nothing. -/
theorem blockOf_congr (h : length ≠ 0) (h' : length' ≠ 0) :
    blockOf cfg s p length = blockOf cfg s p length' := by
  simp only [blockOf, translateInto]
  cases (s.player p).translateFunc with
  | none => rfl
  | some f =>
    cases f <;>
      simp only [TranslateFunc.apply, mixFromStereo16s, mixFromStereo8u, mixFromMono16s,
        mixFromMono8u, h, h', if_false]

theorem blockOf_zero : blockOf cfg s p 0 = load (s.playerData p) 0 (s.player p).bufferLength.toNat := by
  simp only [blockOf, translateInto]
  cases (s.player p).translateFunc with
  | none => rfl
  | some f =>
    simp only [TranslateFunc.apply_empty]
    simp [Server.setPlayerData]

theorem Awaits.takes (h : Awaits p s t) : takes t p = takes s p := by
  simp only [Esound.takes, h.player, h.socket]

theorem Bystander.blockOf (h : Bystander p s t) (output : t.outputBuffer = s.outputBuffer) :
    blockOf cfg t p length = blockOf cfg s p length := by
  simp only [Esound.blockOf, translateInto, h.player, output, h.data]
  cases (s.player p).translateFunc with
  | none => exact congrArg (load · 0 _) h.data
  | some f => simp [Server.setPlayerData]

variable (cfg s length) in
theorem translateInto_bystander (hne : q ≠ p) : Bystander q s (translateInto cfg s p length).1 := by
  simp only [translateInto]
  split
  · exact .refl s
  · exact ⟨⟨rfl, rfl, rfl, [], by simp [Server.setPlayerData], rfl⟩, Function.update_of_ne hne _ _⟩

theorem sysWrite_bystander {fd : ℤ} (hfd : (s.player q).sourceId ≠ fd) (bs : List Octet) :
    Bystander q s (s.sysWrite fd bs).1 := by
  refine ⟨⟨rfl, rfl, Function.update_of_ne hfd _ _, _, rfl, ?_⟩, rfl⟩
  simp [writtenTo, Event.octetsTo, hfd.symm]

theorem translateInto_events : (translateInto cfg s p length).1.events = s.events := by
  simp only [translateInto]
  split <;> rfl

theorem translateInto_sockets : (translateInto cfg s p length).1.sockets = s.sockets := by
  simp only [translateInto]
  split <;> rfl

theorem translateInto_client : (translateInto cfg s p length).1.client = s.client := by
  simp only [translateInto]
  split <;> rfl

theorem translateInto_output : (translateInto cfg s p length).1.outputBuffer = s.outputBuffer := by
  simp only [translateInto]
  split <;> rfl

/-- A block that is written to a player, and what the write comes to. -/
theorem writeBuffer_writes (s : Server) (p : Ptr) :
    (writeBuffer s p).2 = takes s p ∧
      (writeBuffer s p).1.events = s.events ++ [.wrote (s.player p).sourceId
        ((load (s.playerData p) 0 (s.player p).bufferLength.toNat).take (takes s p).toNat)] := by
  have hresult := (s.sockets (s.player p).sourceId).write_takes
    (load (s.playerData p) 0 (s.player p).bufferLength.toNat)
  rw [load_length] at hresult
  refine ⟨hresult, ?_⟩
  simp only [writeBuffer, Server.sysWrite, hresult]
  rfl

end Turn

/-! ## In the order of the client -/

/-- A block of shorts as a client of this byte order is to have it. -/
def inClientOrder (swap : Bool) (bs : List Octet) : List Octet := if swap then exchangePairs bs else bs

theorem exchangePairs_exchangePairs (bs : List Octet) : exchangePairs (exchangePairs bs) = bs := by
  fun_induction exchangePairs bs with
  | case1 lo hi rest ih => simp [exchangePairs, ih]
  | case2 bs hshort =>
    match bs with
    | [] => rfl
    | [b] => rfl
    | lo :: hi :: rest => exact absurd rfl (hshort lo hi rest)

theorem inClientOrder_injective (swap : Bool) : Function.Injective (inClientOrder swap) := by
  intro bs bs' h
  cases swap with
  | false => exact h
  | true =>
    have hboth : exchangePairs bs = exchangePairs bs' := h
    rw [← exchangePairs_exchangePairs bs, hboth, exchangePairs_exchangePairs]

theorem inClientOrder_length (swap : Bool) (bs : List Octet) :
    (inClientOrder swap bs).length = bs.length := by
  cases swap with
  | false => rfl
  | true => exact exchangePairs_length bs

theorem swapEndian16_octets (w : Short) :
    ((swapEndian16 (w.setWidth 32)).setWidth 16).extractLsb' 0 8 = w.extractLsb' 8 8 ∧
      ((swapEndian16 (w.setWidth 32)).setWidth 16).extractLsb' 8 8 = w.extractLsb' 0 8 := by
  constructor <;>
    · apply BitVec.eq_of_getLsbD_eq
      intro i hi
      interval_cases i <;> simp [swapEndian16, BitVec.getElem_sshiftRight]

theorem swapWords_at (m : Mem) (start stop j : ℕ) :
    swapShorts (fun x => x.setWidth 32) m start stop j =
      if start ≤ j / 2 ∧ j / 2 < stop then (if j % 2 = 0 then m (j + 1) else m (j - 1)) else m j := by
  have hoctet : shortOctet ((swapEndian16 ((m.shortWord (j / 2 : ℕ)).setWidth 32)).setWidth 16) j =
      if j % 2 = 0 then m (j + 1) else m (j - 1) := by
    obtain ⟨hlow, hhigh⟩ := swapEndian16_octets (m.shortWord (j / 2 : ℕ))
    obtain ⟨hlow', hhigh'⟩ := shortWord_octets m (j / 2)
    rw [shortOctet, hlow, hhigh, hlow', hhigh']
    split_ifs <;> congr 1 <;> omega
  have hstop : start ≤ j / 2 ∧ j / 2 < start + (stop - start) ↔ start ≤ j / 2 ∧ j / 2 < stop := by
    omega
  rw [← hoctet, swapShorts]
  refine (countUp_mapShorts (fun w => (swapEndian16 (w.setWidth 32)).setWidth 16) m start
    (stop - start) j).trans ?_
  simp only [hstop]

theorem load_swapWords (m : Mem) {n : ℕ} (even : 2 ∣ n) :
    load (swapShorts (fun x => x.setWidth 32) m 0 (n / 2)) 0 n = exchangePairs (load m 0 n) := by
  have hload : ∀ j < n, (load m 0 n)[j]? = some (m j) := by
    intro j hj
    simp [load, hj]
  have hiff := load_eq_exchangePairs_iff (swapShorts (fun x => x.setWidth 32) m 0 (n / 2)) (load m 0 n)
    (by rwa [load_length])
  rw [load_length] at hiff
  refine hiff.mpr fun k hk => ?_
  rw [hload _ hk, hload _ (by omega), swapWords_at, swapWords_at, if_pos (by omega), if_pos (by omega),
    if_pos (by omega), if_neg (by omega)]
  exact ⟨rfl, rfl⟩

/-! ## Recorders -/

/-- The daemon puts what it writes to the player in the order of its client. -/
def Swaps (s : Server) (p : Ptr) : Prop :=
  (s.client (s.player p).parent).swapByteOrder = true ∧
    (s.player p).format &&& esdMaskBits = esdBits16

instance (s : Server) (p : Ptr) : Decidable (Swaps s p) := inferInstanceAs (Decidable (_ ∧ _))

section Recorders

variable {cfg : Config} {poll : RecorderPoll} {p : Ptr} {s : Server} {length : ℤ} {f : TranslateFunc}
  {n : ℕ}

variable (cfg) in
theorem translateInto_length (bits : KnownBits (s.player p).format)
    (hbuffer : (s.player p).bufferLength = (formatOctets (s.player p).format * n : ℕ))
    (hfunc : (s.player p).translateFunc = some f) (hlength : length ≠ 0) :
    (translateInto cfg s p length).2 = (s.player p).bufferLength := by
  simp only [translateInto, hfunc, hbuffer, Int.toNat_natCast]
  exact f.apply_length _ _ bits hlength

/-- A recorder that can be written to and is still there is sent its block in the order of its
client, as much of it as the socket takes. -/
theorem writePlayer_sends (ready : 0 < poll.ready) (open_ : poll.eof = false)
    (bits : KnownBits (s.player p).format)
    (hbuffer : (s.player p).bufferLength = (formatOctets (s.player p).format * n : ℕ))
    (hfunc : (s.player p).translateFunc = some f) (hlength : length ≠ 0) :
    writtenSince (s.player p).sourceId s (writePlayer cfg poll s p length).1 =
      (inClientOrder (decide (Swaps s p)) (blockOf cfg s p length)).take (takes s p).toNat := by
  have hlen := translateInto_length cfg bits hbuffer hfunc hlength
  have hclient : (translateInto cfg s p length).1.client = s.client := translateInto_client
  -- the block as it is written, after the shorts were exchanged or not
  have hsent : ∀ data, writtenSince (s.player p).sourceId s
      (writeBuffer ((translateInto cfg s p length).1.setPlayerData p data) p).1 =
        (load data 0 (s.player p).bufferLength.toNat).take (takes s p).toNat := by
    intro data
    have hwrites := writeBuffer_writes ((translateInto cfg s p length).1.setPlayerData p data) p
    have htakes : takes ((translateInto cfg s p length).1.setPlayerData p data) p = takes s p := by
      simp only [takes, Server.player_setPlayerData, translateInto_player]
      exact congrArg (fun k : ℤ → Socket => (k _).takes _) translateInto_sockets
    rw [htakes, Server.player_setPlayerData, translateInto_player] at hwrites
    have hevents : ((translateInto cfg s p length).1.setPlayerData p data).events = s.events :=
      translateInto_events
    rw [hevents] at hwrites
    rw [writtenSince_of_events hwrites.2]
    simp [writtenTo, Event.octetsTo, Server.setPlayerData]
  simp only [writePlayer, ready, if_true, open_, Bool.false_eq_true, if_false, hlen, hclient]
  rw [hsent]
  congr 1
  by_cases hswaps : Swaps s p
  · have heven : 2 ∣ (s.player p).bufferLength.toNat := by
      have hwidth : (esdBits16 : Word) ≠ esdBits8 := by decide
      rw [hbuffer, Int.toNat_natCast, formatOctets, hswaps.2, if_neg hwidth, mul_assoc]
      exact Nat.dvd_mul_right _ _
    have hhalf : ((s.player p).bufferLength / 2).toNat = (s.player p).bufferLength.toNat / 2 := by
      omega
    rw [inClientOrder, decide_eq_true hswaps, if_pos rfl, blockOf, ← load_swapWords _ heven, ← hhalf]
    rw [Swaps] at hswaps
    rw [if_pos hswaps]
  · rw [inClientOrder, decide_eq_false hswaps, if_neg Bool.false_ne_true]
    rw [Swaps] at hswaps
    rw [if_neg hswaps, blockOf]

end Recorders

/-! ## The monitors -/

/-- The length a monitor is given after these monitors had their turns. -/
def lengthAfter (canWrite : Ptr → Bool) (s : Server) (length : ℤ) (ps : List Ptr) : ℤ :=
  ps.foldl (fun l p => if canWrite p then takes s p else l) length

/-- The length the monitor is given in its turn. -/
def lengthFor (canWrite : Ptr → Bool) (s : Server) (length : ℤ) (m : Ptr) : ℤ :=
  lengthAfter canWrite s length (s.esdMonitorList.takeWhile (· ≠ m))

section Monitors

variable {cfg : Config} {canWrite : Ptr → Bool} {p q : Ptr} {s t : Server} {length : ℤ}

theorem monitorOne_idle (h : canWrite p = false) :
    monitorOne cfg canWrite (s, length) p = (s, length) := by
  simp [monitorOne, h]

variable (cfg s length) in
theorem monitorOne_writes (h : canWrite p) :
    (monitorOne cfg canWrite (s, length) p).2 = takes s p ∧
      ∃ t, Idles t (monitorOne cfg canWrite (s, length) p).1 ∧
        t = (writeBuffer (translateInto cfg s p length).1 p).1 := by
  have hresult := (writeBuffer_writes (translateInto cfg s p length).1 p).1
  have htakes : takes (translateInto cfg s p length).1 p = takes s p := by
    simp only [takes, translateInto_player, translateInto_sockets]
  rw [htakes] at hresult
  simp only [monitorOne, h, if_true, hresult]
  split_ifs
  · exact ⟨rfl, _, eraseClient_idles.trans eraseFrom_idles, rfl⟩
  · exact ⟨rfl, _, .refl _, rfl⟩

variable (cfg canWrite s p length) in
theorem monitorOne_output : (monitorOne cfg canWrite (s, length) p).1.outputBuffer = s.outputBuffer := by
  by_cases h : canWrite p
  · obtain ⟨-, t, hidle, ht⟩ := monitorOne_writes cfg s length h
    have hout := congrArg Sound.outputBuffer hidle.silent.sound
    rw [ht] at hout
    exact hout.trans translateInto_output
  · rw [monitorOne_idle (Bool.eq_false_of_not_eq_true h)]

theorem monitorOne_bystander (hfd : (s.player q).sourceId ≠ (s.player p).sourceId) :
    Bystander q s (monitorOne cfg canWrite (s, length) p).1 := by
  have hne : q ≠ p := fun h => hfd (by rw [h])
  by_cases h : canWrite p
  · obtain ⟨-, t, hidle, ht⟩ := monitorOne_writes cfg s length h
    have hinto := translateInto_bystander cfg s length hne
    have hwrite : Bystander q (translateInto cfg s p length).1 t := by
      rw [ht]
      exact sysWrite_bystander (by rwa [translateInto_player]) _
    exact (hinto.trans hwrite).trans (hidle.bystander q)
  · rw [monitorOne_idle (Bool.eq_false_of_not_eq_true h)]
    exact .refl s

variable (cfg canWrite s p length) in
theorem monitorOne_player : (monitorOne cfg canWrite (s, length) p).1.player = s.player := by
  by_cases h : canWrite p
  · obtain ⟨-, t, hidle, ht⟩ := monitorOne_writes cfg s length h
    rw [hidle.player, ht]
    exact translateInto_player _
  · rw [monitorOne_idle (Bool.eq_false_of_not_eq_true h)]

variable (cfg canWrite s p length) in
theorem monitorOne_length : (monitorOne cfg canWrite (s, length) p).2 =
    if canWrite p then takes s p else length := by
  split_ifs with h
  · exact (monitorOne_writes cfg s length h).1
  · rw [monitorOne_idle (Bool.eq_false_of_not_eq_true h)]

variable (cfg s length) in
theorem monitorOne_sends (h : canWrite p) :
    ∃ es, (monitorOne cfg canWrite (s, length) p).1.events = s.events ++ es ∧
      writtenTo (s.player p).sourceId es = (blockOf cfg s p length).take (takes s p).toNat := by
  obtain ⟨-, t, hidle, ht⟩ := monitorOne_writes cfg s length h
  obtain ⟨es, hes, hnone⟩ := hidle.events
  have hevents := (writeBuffer_writes (translateInto cfg s p length).1 p).2
  rw [← ht, translateInto_events, translateInto_player] at hevents
  refine ⟨_, hes.trans (by rw [hevents, List.append_assoc]), ?_⟩
  have htakes : takes (translateInto cfg s p length).1 p = takes s p := by
    simp only [takes, translateInto_player, translateInto_sockets]
  rw [writtenTo, List.flatMap_append, ← writtenTo, ← writtenTo, hnone, htakes]
  simp [writtenTo, Event.octetsTo, blockOf]

/-- What the turns of some monitors come to for the others, and the length that is handed on. -/
structure MonitorPass (canWrite : Ptr → Bool) (s : Server) (length : ℤ) (ps : List Ptr)
    (a : Server × ℤ) : Prop where
  length_eq : a.2 = lengthAfter canWrite s length ps
  output : a.1.outputBuffer = s.outputBuffer
  player : a.1.player = s.player
  others : ∀ q, (∀ p ∈ ps, (s.player q).sourceId ≠ (s.player p).sourceId) → Bystander q s a.1

variable (cfg canWrite length) in
theorem foldl_monitorOne_pass {ps : List Ptr}
    (apart : (ps.map fun p => (s.player p).sourceId).Nodup) :
    MonitorPass canWrite s length ps (ps.foldl (monitorOne cfg canWrite) (s, length)) := by
  induction ps generalizing s length with
  | nil => exact ⟨rfl, rfl, rfl, fun _ _ => .refl s⟩
  | cons p ps ih =>
    obtain ⟨hp, hrest⟩ := List.nodup_cons.mp apart
    have hplayer := monitorOne_player cfg canWrite p s length
    have houtput := monitorOne_output cfg canWrite p s length
    have hlength := monitorOne_length cfg canWrite p s length
    have hothers : ∀ q, (s.player q).sourceId ≠ (s.player p).sourceId →
        Bystander q s (monitorOne cfg canWrite (s, length) p).1 :=
      fun q hq => monitorOne_bystander hq
    obtain ⟨⟨t, l⟩, ht⟩ : ∃ a, monitorOne cfg canWrite (s, length) p = a := ⟨_, rfl⟩
    rw [ht] at hplayer houtput hlength hothers
    dsimp only at hplayer houtput hlength hothers
    have hapart : (ps.map fun p => (t.player p).sourceId).Nodup := by rwa [hplayer]
    have hafter := ih l hapart
    have hlater : ∀ q ∈ ps, (s.player q).sourceId ≠ (s.player p).sourceId :=
      fun q hq he => hp (List.mem_map.mpr ⟨q, hq, he⟩)
    rw [List.foldl_cons, ht]
    refine ⟨?_, hafter.output.trans houtput, hafter.player.trans hplayer, fun q hq => ?_⟩
    · have htakes : ∀ q ∈ ps, takes t q = takes s q := fun q hq => (hothers q (hlater q hq)).takes
      rw [hafter.length_eq, hlength]
      simp only [lengthAfter, List.foldl_cons]
      exact (List.foldl_ext _ _ _ fun l q hq => by rw [htakes q hq])
    · have hnow := hothers q (hq p List.mem_cons_self)
      have hthen := hafter.others q (by
        rw [hplayer]
        exact fun p' hp' => hq p' (List.mem_cons_of_mem _ hp'))
      exact hnow.trans hthen

variable (cfg length) in
/-- A monitor that can be written to is sent its block as it is at its turn, as much of it as the
socket takes. -/
theorem monitorWrite_sends (apart : SocketsApart s .monitors) (listed : p ∈ s.esdMonitorList)
    (ready : canWrite p) :
    writtenSince (s.player p).sourceId s (monitorWrite cfg canWrite s length) =
      (blockOf cfg s p (lengthFor canWrite s length p)).take (takes s p).toNat := by
  obtain ⟨before, after, hsplit⟩ := List.append_of_mem listed
  have hapart := apart
  simp only [SocketsApart, Server.list] at hapart
  rw [hsplit, List.map_append, List.map_cons, List.nodup_append] at hapart
  obtain ⟨hbefore, hafter, hbetween⟩ := hapart
  obtain ⟨hother, hrest⟩ := List.nodup_cons.mp hafter
  have hearlier : ∀ q ∈ before, (s.player p).sourceId ≠ (s.player q).sourceId := fun q hq he =>
    hbetween _ (List.mem_map.mpr ⟨q, hq, rfl⟩) _ List.mem_cons_self he.symm
  have hlater : ∀ q ∈ after, (s.player p).sourceId ≠ (s.player q).sourceId := fun q hq he =>
    hother (List.mem_map.mpr ⟨q, hq, he.symm⟩)
  have hgiven : lengthFor canWrite s length p = lengthAfter canWrite s length before := by
    have hbehind : ∀ q ∈ before, decide (q ≠ p) = true := fun q hq =>
      decide_eq_true fun h => hearlier q hq (by rw [h])
    rw [lengthFor, hsplit, List.takeWhile_append_of_pos hbehind]
    simp
  -- the monitors before, the turn itself, the monitors behind
  have hpass := foldl_monitorOne_pass cfg canWrite length hbefore
  obtain ⟨⟨t, l⟩, ht⟩ : ∃ a, before.foldl (monitorOne cfg canWrite) (s, length) = a := ⟨_, rfl⟩
  rw [ht] at hpass
  obtain rfl : l = lengthFor canWrite s length p := hpass.length_eq.trans hgiven.symm
  have hby := hpass.others p hearlier
  obtain ⟨es, hes, hnone⟩ := hby.events
  obtain ⟨es', hes', hsent⟩ := monitorOne_sends cfg t (lengthFor canWrite s length p) ready
  have hplayer := monitorOne_player cfg canWrite p t (lengthFor canWrite s length p)
  obtain ⟨⟨u, l'⟩, hu⟩ : ∃ a, monitorOne cfg canWrite (t, lengthFor canWrite s length p) p = a :=
    ⟨_, rfl⟩
  rw [hu] at hes' hplayer
  dsimp only at hes' hplayer
  have hsame : u.player = s.player := hplayer.trans hpass.player
  have hpass' := foldl_monitorOne_pass cfg canWrite l' (s := u) (by rwa [hsame])
  obtain ⟨es'', hes'', hnone''⟩ := (hpass'.others p (by rwa [hsame])).events
  have hwhole : (monitorWrite cfg canWrite s length).events = s.events ++ (es ++ es' ++ es'') := by
    rw [monitorWrite, hsplit, List.foldl_append, List.foldl_cons, ht, hu, hes'', hes', hes]
    simp only [List.append_assoc]
  rw [writtenSince_of_events hwhole]
  rw [hsame] at hnone''
  rw [hby.player, hby.takes, hby.blockOf hpass.output] at hsent
  simp only [writtenTo, List.flatMap_append] at hnone hnone'' hsent ⊢
  rw [hnone, hnone'', hsent, List.nil_append, List.append_nil]

/-! ## One monitor and the others -/

/-- The daemon with no other monitor. -/
def Server.onlyMonitor (s : Server) (m : Ptr) : Server := { s with esdMonitorList := [m] }

/-- What is in the buffer of the player. -/
def staleOf (s : Server) (p : Ptr) : List Octet :=
  load (s.playerData p) 0 (s.player p).bufferLength.toNat

/-- The monitor is sent what it would be sent without the others. -/
def SentAsAlone (cfg : Config) (canWrite : Ptr → Bool) (s : Server) (length : ℤ) (m : Ptr) : Prop :=
  writtenSince (s.player m).sourceId s (monitorWrite cfg canWrite s length) =
    writtenSince (s.player m).sourceId s (monitorWrite cfg canWrite (s.onlyMonitor m) length)

/-- A monitor is sent what it would be sent alone, exactly if it is given a source where it would be
given one alone, or if its old block agrees with the new one as far as the socket takes it. -/
theorem sent_as_alone_iff (apart : SocketsApart s .monitors) (listed : p ∈ s.esdMonitorList)
    (ready : canWrite p) :
    SentAsAlone cfg canWrite s length p ↔
      (lengthFor canWrite s length p = 0 ↔ length = 0) ∨
        (staleOf s p).take (takes s p).toNat = (blockOf cfg s p 1).take (takes s p).toNat := by
  have hby : Bystander p s (s.onlyMonitor p) :=
    ⟨⟨rfl, rfl, rfl, [], by simp [Server.onlyMonitor], rfl⟩, rfl⟩
  have halone := monitorWrite_sends cfg length (s := s.onlyMonitor p) (p := p) (by simp [SocketsApart, Server.list, Server.onlyMonitor])
    (by simp [Server.onlyMonitor]) ready
  have hfirst : lengthFor canWrite (s.onlyMonitor p) length p = length := by
    simp [lengthFor, lengthAfter, Server.onlyMonitor]
  rw [hfirst, hby.takes, hby.blockOf rfl] at halone
  have halone' : writtenSince (s.player p).sourceId s (monitorWrite cfg canWrite (s.onlyMonitor p) length) =
      (blockOf cfg s p length).take (takes s p).toNat := halone
  have hstale : blockOf cfg s p 0 = staleOf s p := blockOf_zero
  rw [SentAsAlone, monitorWrite_sends cfg length apart listed ready, halone']
  generalize lengthFor canWrite s length p = given
  rcases eq_or_ne given 0 with rfl | hgiven <;> rcases eq_or_ne length 0 with rfl | hlength
  · simp
  · rw [hstale, blockOf_congr hlength one_ne_zero]
    simp [hlength]
  · rw [hstale, blockOf_congr hgiven one_ne_zero, eq_comm]
    simp [hgiven]
  · rw [blockOf_congr hgiven hlength]
    simp [hgiven, hlength]

end Monitors

/-- Two clients monitor in eight bits, the later one at the rate given and at the head of the list. -/
def monitorsRun (rate : Word) : List Action :=
  let sending (rate : Word) : Socket := .sending
    [handshake 7, Word.octets 5#32, streamParams (esdBits8 ||| esdStereo) rate]
  [.accept 1 5 (sending 44100#32), .poll 1 (.allocating 0), .poll 1 (.allocating 0),
    .poll 1 (.allocating 10), .accept 2 6 (sending rate), .poll 2 (.allocating 0),
    .poll 2 (.allocating 0), .poll 2 (.allocating 11)]

theorem monitorsRun_equal : (exec (step .smallBlocks) NoReset .blank (monitorsRun 44100#32)).isSome := by
  decide +kernel

theorem sent_as_alone_iff_equal : ∃ t, Runs .smallBlocks NoReset .blank (monitorsRun 44100#32) t ∧
    t.esdMonitorList = [11, 10] ∧ SentAsAlone .smallBlocks (fun _ => true) t 16 10 := by
  obtain ⟨t, hrun, hlist, hgiven⟩ : ∃ t, Runs .smallBlocks NoReset .blank (monitorsRun 44100#32) t ∧
      t.esdMonitorList = [11, 10] ∧ lengthFor (fun _ => true) t 16 10 = 8 :=
    ⟨_, Run.of_isSome monitorsRun_equal, by decide +kernel, by decide +kernel⟩
  refine ⟨t, hrun, hlist, ?_⟩
  rw [sent_as_alone_iff (runs_socketsApart Server.blank_initial hrun (by decide)) (by simp [hlist]) rfl]
  simp [hgiven]

theorem monitorsRun_empty : (exec (step .smallBlocks) NoReset .blank (monitorsRun 0#32)).isSome := by
  decide +kernel

/-- A monitor of rate 0 takes nothing, and the one behind it is sent what was left in its buffer. -/
theorem stale_behind_empty : ∃ t, Runs .smallBlocks NoReset .blank (monitorsRun 0#32) t ∧
    t.esdMonitorList = [11, 10] ∧
    writtenSince 5 t (monitorWrite .smallBlocks (fun _ => true) t 16) = List.replicate 8 0 ∧
    writtenSince 5 t (monitorWrite .smallBlocks (fun _ => true) (t.onlyMonitor 10) 16) =
      List.replicate 8 127 ∧
    ¬ SentAsAlone .smallBlocks (fun _ => true) t 16 10 := by
  obtain ⟨t, hrun, hlist, hfd, hsent, halone⟩ :
      ∃ t, Runs .smallBlocks NoReset .blank (monitorsRun 0#32) t ∧ t.esdMonitorList = [11, 10] ∧
      (t.player 10).sourceId = 5 ∧
      writtenSince 5 t (monitorWrite .smallBlocks (fun _ => true) t 16) = List.replicate 8 0 ∧
      writtenSince 5 t (monitorWrite .smallBlocks (fun _ => true) (t.onlyMonitor 10) 16) =
        List.replicate 8 127 :=
    ⟨_, Run.of_isSome monitorsRun_empty, by decide +kernel, by decide +kernel, by decide +kernel,
      by decide +kernel⟩
  refine ⟨t, hrun, hlist, hsent, halone, fun h => ?_⟩
  rw [SentAsAlone, hfd, hsent, halone] at h
  exact absurd h (by decide)

end Esound
