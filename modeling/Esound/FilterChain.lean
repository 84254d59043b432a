import Esound.Outgoing

/-!
# The chain of the filters

A block goes through the filters in the order of their list: each is sent what the one before it
left, and what it sends back at once takes the place of that. A filter that is slow or dies leaves
the block in its buffer as it came, so that the chain is the composition of those that answer.
-/

open Library.Buffer Library.Loop Library.Transition

namespace Esound

/-! ## Writing a block in several calls -/

/-- How many of `n` octets a socket takes that is written to until it has them all or fails. -/
def swallows : List ℤ → ℕ → ℕ
  | _, 0 => 0
  | [], n => n
  | r :: rest, n =>
    if r ≤ 0 then 0 else min r.toNat n + swallows rest (n - min r.toNat n)

/-- These octets were written to the descriptor, in however many calls. -/
structure Wrote (fd : ℤ) (octets : List Octet) (s t : Server) : Prop where
  rest : t = { s with sockets := t.sockets, events := t.events }
  input : (t.sockets fd).input = (s.sockets fd).input
  others : ∀ fd' ≠ fd, t.sockets fd' = s.sockets fd'
  events : ∃ es, t.events = s.events ++ es ∧ writtenTo fd es = octets ∧
    ∀ fd' ≠ fd, writtenTo fd' es = []

section Writing

variable {fd : ℤ} {bs bs' : List Octet} {s t u : Server} {p : Ptr} {n : ℕ}

theorem Wrote.refl (fd : ℤ) (s : Server) : Wrote fd [] s s :=
  ⟨rfl, rfl, fun _ _ => rfl, [], by simp [writtenTo]⟩

theorem Wrote.trans (h : Wrote fd bs s t) (h' : Wrote fd bs' t u) : Wrote fd (bs ++ bs') s u := by
  obtain ⟨es, hes, hto, hnone⟩ := h.events
  obtain ⟨es', hes', hto', hnone'⟩ := h'.events
  refine ⟨?_, h'.input.trans h.input, fun fd' hfd => (h'.others fd' hfd).trans (h.others fd' hfd),
    es ++ es', ?_, ?_, fun fd' hfd => ?_⟩
  · have hrest := h'.rest
    rw [h.rest] at hrest
    exact hrest
  · rw [hes', hes, List.append_assoc]
  · rw [writtenTo, List.flatMap_append, ← writtenTo, ← writtenTo, hto, hto']
  · rw [writtenTo, List.flatMap_append, ← writtenTo, ← writtenTo, hnone _ hfd, hnone' _ hfd,
      List.append_nil]

theorem sysWrite_wrote (s : Server) (fd : ℤ) (bs : List Octet) :
    Wrote fd (bs.take (s.sysWrite fd bs).2.toNat) s (s.sysWrite fd bs).1 := by
  refine ⟨rfl, sysWrite_input _ _ _, fun fd' hfd => Function.update_of_ne hfd _ _, _, rfl, ?_,
    fun fd' hfd => ?_⟩
  · simp [writtenTo, Event.octetsTo, Server.sysWrite]
  · simp [writtenTo, Event.octetsTo, hfd.symm]

/-- One call: it fails, or it takes some and the rest is left to the next ones. -/
theorem swallows_write (k : Socket) {bs : List Octet} (hne : 0 < bs.length) :
    ((k.write bs).1 ≤ 0 ∧ swallows k.room bs.length = 0) ∨
      ∃ j : ℕ, (k.write bs).1 = j ∧ 0 < j ∧ j ≤ bs.length ∧
        swallows k.room bs.length = j + swallows (k.write bs).2.room (bs.length - j) := by
  obtain ⟨n, hn⟩ : ∃ n, bs.length = n + 1 := ⟨bs.length - 1, by omega⟩
  simp only [Socket.write, hn]
  cases hroom : k.room with
  | nil =>
    refine .inr ⟨n + 1, rfl, n.succ_pos, le_rfl, ?_⟩
    simp [swallows]
  | cons r rest =>
    by_cases hr : r ≤ 0
    · refine .inl ⟨?_, by simp [swallows, hr]⟩
      dsimp only
      split_ifs <;> omega
    · refine .inr ⟨min r.toNat (n + 1), ?_, by omega, by omega, by simp [swallows, hr]⟩
      dsimp only
      split_ifs <;> omega

theorem filterWriteRound_done {fuel : ℕ} {erase : Bool} :
    whileFuel (filterWriteRound p n) fuel ⟨s, n, erase⟩ = ⟨s, n, erase⟩ := by
  cases fuel with
  | zero => rfl
  | succ fuel => simp [whileFuel, filterWriteRound]

/-- The write loop, with so many octets written and none refused yet. -/
theorem filterWriteRound_loop {total fuel : ℕ} (hle : total ≤ n) (hfuel : n - total < fuel) :
    (whileFuel (filterWriteRound p n) fuel ⟨s, total, false⟩).erase =
        decide (swallows (s.sockets (s.player p).sourceId).room (n - total) < n - total) ∧
      Wrote (s.player p).sourceId ((load (s.playerData p) total (n - total)).take
          (swallows (s.sockets (s.player p).sourceId).room (n - total))) s
        (whileFuel (filterWriteRound p n) fuel ⟨s, total, false⟩).srv := by
  induction fuel generalizing s total with
  | zero => exact absurd hfuel (Nat.not_lt_zero _)
  | succ fuel ih =>
    rcases hle.eq_or_lt with rfl | hlt
    · rw [filterWriteRound_done, Nat.sub_self, load_zero, List.take_nil]
      have hzero : swallows (s.sockets (s.player p).sourceId).room 0 = 0 := by
        cases (s.sockets (s.player p).sourceId).room <;> rfl
      exact ⟨by simp [hzero], .refl _ s⟩
    · have hrest : ((n : ℤ) - total).toNat = n - total := by omega
      have hlt' : (total : ℤ) < n := by omega
      have hwrote := sysWrite_wrote s (s.player p).sourceId (load (s.playerData p) total (n - total))
      have hsome : 0 < (load (s.playerData p) total (n - total)).length := by
        rw [load_length]
        omega
      have hcall := swallows_write (s.sockets (s.player p).sourceId) hsome
      rw [load_length] at hcall
      simp only [whileFuel, filterWriteRound, hlt', if_true, hrest]
      obtain ⟨⟨t, actual⟩, ht⟩ :
          ∃ a, s.sysWrite (s.player p).sourceId (load (s.playerData p) total (n - total)) = a := ⟨_, rfl⟩
      have hresult : ((s.sockets (s.player p).sourceId).write
          (load (s.playerData p) total (n - total))).1 = actual := congrArg Prod.snd ht
      have hroom : (t.sockets (s.player p).sourceId) = ((s.sockets (s.player p).sourceId).write
          (load (s.playerData p) total (n - total))).2 := by
        have hsockets := congrArg (fun a => a.1.sockets (s.player p).sourceId) ht
        simpa [Server.sysWrite] using hsockets.symm
      rw [hresult, ← hroom] at hcall
      rw [ht] at hwrote ⊢
      dsimp only at hwrote ⊢
      rcases hcall with ⟨hfail, hnone⟩ | ⟨j, rfl, hj, hjle, hmore⟩
      · rw [if_pos hfail]
        dsimp only
        rw [filterWriteRound_done, hnone]
        have hzero : actual.toNat = 0 := by omega
        rw [hzero] at hwrote
        exact ⟨by simp [hlt], hwrote⟩
      · have hpos : ¬ (j : ℤ) ≤ 0 := by omega
        rw [if_neg hpos, ← Nat.cast_add]
        dsimp only
        have hplayer : t.player = s.player := by rw [hwrote.rest]
        have hdata : t.playerData = s.playerData := by rw [hwrote.rest]
        have hmore' : total + j ≤ n := by omega
        have hafter := ih (s := t) hmore' (by omega)
        have hleft : n - (total + j) = n - total - j := by omega
        rw [hplayer, hdata, hleft] at hafter
        refine ⟨hafter.1.trans ?_, ?_⟩
        · rw [hmore]
          congr 1
          rw [eq_iff_iff]
          omega
        · have hall := hwrote.trans hafter.2
          have hsplit := load_add (s.playerData p) total j (n - total - j)
          rw [Nat.add_sub_cancel' hjle] at hsplit
          rw [hmore, hsplit, List.take_append, load_length, Nat.add_sub_cancel_left,
            List.take_of_length_le (by rw [load_length]; omega)]
          rw [hsplit, Int.toNat_natCast, List.take_left' (load_length _ _ _)] at hall
          exact hall

theorem filterSend_wrote (s : Server) (p : Ptr) (n : ℕ) :
    (filterSend s p n).erase = decide (swallows (s.sockets (s.player p).sourceId).room n < n) ∧
      Wrote (s.player p).sourceId ((load (s.playerData p) 0 n).take
        (swallows (s.sockets (s.player p).sourceId).room n)) s (filterSend s p n).srv := by
  have hloop := filterWriteRound_loop (s := s) (p := p) (Nat.zero_le n)
    (by omega : n - 0 < n + 1)
  simpa [filterSend] using hloop

theorem Wrote.bystander {q : Ptr} (h : Wrote fd bs s t) (hfd : (s.player q).sourceId ≠ fd) :
    Bystander q s t := by
  obtain ⟨es, hes, -, hnone⟩ := h.events
  refine ⟨⟨?_, ?_, h.others _ hfd, es, hes, hnone _ hfd⟩, ?_⟩ <;> rw [h.rest]

end Writing

/-! ## Reading the reply -/

section Reading

variable {canRead : Bool} {s : Server} {p q : Ptr} {n : ℕ}

theorem hearStream_bystander (hfd : (s.player q).sourceId ≠ (s.player p).sourceId) :
    Bystander q s (hearStream s p).1 := by
  have hne : q ≠ p := fun h => hfd (by rw [h])
  exact ⟨⟨rfl, rfl, Function.update_of_ne hfd _ _, _, rfl, rfl⟩, Function.update_of_ne hne _ _⟩

theorem setPlayer_bystander (hne : q ≠ p) (v : EsdPlayer) : Bystander q s (s.setPlayer p v) :=
  ⟨⟨Function.update_of_ne hne _ _, rfl, rfl, [], by simp [Server.setPlayer], rfl⟩, rfl⟩

theorem setPlayerData_bystander (hne : q ≠ p) (m : Mem) : Bystander q s (s.setPlayerData p m) :=
  ⟨⟨rfl, rfl, rfl, [], by simp [Server.setPlayerData], rfl⟩, Function.update_of_ne hne _ _⟩

variable (canRead) in
theorem readPlayer_bystander (mode : (s.player p).IsStream)
    (hfd : (s.player q).sourceId ≠ (s.player p).sourceId) : Bystander q s (readPlayer canRead s p).1 := by
  have hne : q ≠ p := fun h => hfd (by rw [h])
  have hhear := hearStream_bystander hfd
  simp only [readPlayer, mode, if_true, readStream]
  split_ifs
  · exact hhear
  · exact hhear
  · exact (hhear.trans (setPlayerData_bystander hne _)).trans (setPlayer_bystander hne _)
  · exact .refl s

theorem readPlayer_events (mode : (s.player p).IsStream) :
    ∃ es, (readPlayer canRead s p).1.events = s.events ++ es ∧ ∀ fd, writtenTo fd es = [] := by
  simp only [readPlayer, mode, if_true, readStream]
  split_ifs
  · exact ⟨_, rfl, fun _ => rfl⟩
  · exact ⟨_, rfl, fun _ => rfl⟩
  · exact ⟨_, rfl, fun _ => rfl⟩
  · exact ⟨[], by simp, fun _ => rfl⟩

theorem readPlayer_refills (mode : (s.player p).IsStream) :
    (readPlayer canRead s p).1.player p =
      { s.player p with actualLength := ((readPlayer canRead s p).1.player p).actualLength } := by
  simp only [readPlayer, mode, if_true, readStream]
  split_ifs
  · rfl
  · rfl
  · simp [Server.setPlayer]
  · rfl

section Whole

variable (mode : (s.player p).IsStream) (empty : (s.player p).actualLength = 0)
  (room : (s.player p).bufferLength = n) (hpos : 0 < n)

include mode empty room hpos

/-- A player with room for a whole block, whose peer has one ready. -/
theorem readPlayer_reply {y : List Octet} {later : List ReadResult}
    (hinput : (s.sockets (s.player p).sourceId).input = .data y :: later) (hlen : y.length = n)
    (even : Swaps s p → 2 ∣ n) :
    (readPlayer true s p).2 = n ∧
      load ((readPlayer true s p).1.playerData p) 0 n = inClientOrder (decide (Swaps s p)) y := by
  have hread : ((s.sockets (s.player p).sourceId).read n).1 = .data y := by
    simp only [Socket.read, hinput, hlen, le_refl, if_true]
  have hhangup : ¬ (ReadResult.data y).Hangup :=
    ReadResult.not_hangup_data (List.ne_nil_of_length_pos (hlen.symm ▸ hpos))
  have hstored : load (store (s.playerData p) 0 y) 0 n = y := by
    have hself := load_store_self (s.playerData p) 0 y
    rwa [hlen] at hself
  have hroom : (0 : ℤ) < n := by omega
  have hhear : (hearStream s p).2 = .data y := by
    simp only [hearStream, Server.sysRead, empty, room, sub_zero, hread]
  have hdata : (hearStream s p).1.playerData p = store (s.playerData p) 0 y := by
    simp [hearStream, Server.sysRead, Server.setPlayerData, Server.emit, empty, room, hread,
      ReadResult.octets]
  have hclient : (hearStream s p).1.client = s.client := rfl
  simp only [readPlayer, mode, if_true, readStream, empty, room, sub_zero, hroom, and_self, hhear,
    hhangup, if_false, ReadResult.count, hlen, lt_irrefl, hdata, hclient, true_and]
  have hkept : ∀ (u : Server) v m, ((u.setPlayerData p m).setPlayer p v).playerData p = m :=
    fun u v m => Function.update_self _ _ _
  have hhalf : 0 + ((n : ℤ) / 2).toNat = n / 2 := by omega
  rw [hkept]
  simp only [swapStream, empty, Int.toNat_zero, hhalf]
  by_cases hswaps : Swaps s p
  · have heven := even hswaps
    rw [inClientOrder, decide_eq_true hswaps, if_pos rfl]
    rw [Swaps] at hswaps
    rw [if_pos hswaps, load_swapWords _ heven, hstored]
  · rw [inClientOrder, decide_eq_false hswaps, if_neg Bool.false_ne_true]
    rw [Swaps] at hswaps
    rw [if_neg hswaps, hstored]

theorem readPlayer_hangup (gone : ((s.sockets (s.player p).sourceId).read n).1.Hangup) :
    (readPlayer true s p).2 < 0 ∧ (readPlayer true s p).1.playerData p = s.playerData p := by
  have hroom : (0 : ℤ) < n := by omega
  have hhear : (hearStream s p).2 = ((s.sockets (s.player p).sourceId).read n).1 := by
    simp only [hearStream, Server.sysRead, empty, room, sub_zero]
  have hdata : (hearStream s p).1.playerData p = s.playerData p := by
    have hnothing : ((s.sockets (s.player p).sourceId).read n).1.octets = [] := by
      generalize ((s.sockets (s.player p).sourceId).read n).1 = r at gone
      rcases gone with hcount | rfl
      · cases r with
        | data bs => simpa [ReadResult.count, ReadResult.octets] using hcount
        | again | error => rfl
      · rfl
    simp [hearStream, Server.sysRead, Server.setPlayerData, Server.emit, empty, room, hnothing]
  simp only [readPlayer, mode, if_true, readStream, empty, room, sub_zero, hroom, and_self, hhear, gone,
    hdata, and_true]
  norm_num

end Whole

theorem readPlayer_silent (mode : (s.player p).IsStream) : readPlayer false s p = (s, 0) := by
  simp [readPlayer, mode, readStream]

end Reading

/-! ## The turn of a filter -/

/-- The filter was sent its block, and may have sent something back. -/
structure Exchanged (p : Ptr) (n : ℕ) (s t : Server) : Prop where
  others : ∀ q, (s.player q).sourceId ≠ (s.player p).sourceId → Bystander q s t
  player : t.player p = { s.player p with actualLength := (t.player p).actualLength }
  sound : t.sound = s.sound
  list : t.list = s.list
  events : ∃ es, t.events = s.events ++ es ∧ writtenTo (s.player p).sourceId es =
    (load (s.playerData p) 0 n).take (swallows (s.sockets (s.player p).sourceId).room n)

section Exchange

variable {canRead : Bool} {s t : Server} {p q : Ptr} {n : ℕ}

theorem Exchanged.after {u : Server} (h : Exchanged p n s t)
    (others : ∀ q, (s.player q).sourceId ≠ (s.player p).sourceId → Bystander q t u)
    (player : u.player p = { s.player p with actualLength := (u.player p).actualLength })
    (sound : u.sound = t.sound) (list : u.list = t.list)
    (events : ∃ es, u.events = t.events ++ es ∧ ∀ fd, writtenTo fd es = []) : Exchanged p n s u := by
  obtain ⟨es, hes, hsent⟩ := h.events
  obtain ⟨es', hes', hnone⟩ := events
  refine ⟨fun q hq => (h.others q hq).trans (others q hq), player, sound.trans h.sound,
    list.trans h.list, es ++ es', ?_, ?_⟩
  · rw [hes', hes, List.append_assoc]
  · rw [writtenTo, List.flatMap_append, ← writtenTo, ← writtenTo, hsent, hnone, List.append_nil]

variable (canRead n) in
theorem filterExchange_exchanged (mode : (s.player p).IsStream) :
    Exchanged p n s (filterExchange canRead s p n).1 := by
  have hwrote := (filterSend_wrote s p n).2
  have hplayer : (filterSend s p n).srv.player = s.player := by rw [hwrote.rest]
  have hsent : Exchanged p n s (filterSend s p n).srv := by
    obtain ⟨es, hes, hto, -⟩ := hwrote.events
    refine ⟨fun q hq => hwrote.bystander hq, by rw [hplayer], ?_, ?_, es, hes, hto⟩ <;> rw [hwrote.rest] <;>
      rfl
  have hmode : ((filterSend s p n).srv.player p).IsStream := by rwa [hplayer]
  have hread := hsent.after
    (fun q hq => readPlayer_bystander canRead hmode (by rwa [hplayer]))
    (by rw [readPlayer_refills hmode, hplayer]) (readPlayer_sound _) (readPlayer_list _)
    (readPlayer_events hmode)
  simp only [filterExchange]
  split_ifs
  · exact hsent
  · refine hread.after (fun q hq => setPlayer_bystander (fun h => hq (by rw [h])) _) ?_ rfl rfl
      ⟨[], by simp [Server.setPlayer], fun _ => rfl⟩
    rw [setPlayer_self, hread.player]
  · exact hread

end Exchange

/-! ## What a filter does with its block -/

/-- A filter that answers with a block, has no answer ready, or dies. -/
inductive Outcome
  | replies (f : List Octet → List Octet)
  | silent
  | dies

namespace Outcome

/-- The block after the filter. -/
def through : Outcome → List Octet → List Octet
  | replies f, x => f x
  | silent, x | dies, x => x

def alive : Outcome → Bool
  | replies _ | silent => true
  | dies => false

end Outcome

/-- A filter that takes the block `x` does this with it: the socket takes all of it or fails, and a
read after it delivers a whole block at once, or nothing, or the end of the file. -/
def Behaves (canRead : Bool) (k : Socket) (n : ℕ) (x : List Octet) : Outcome → Prop
  | .replies f => swallows k.room n = n ∧ canRead = true ∧ (f x).length = n ∧
      ∃ later, k.input = .data (f x) :: later
  | .silent => swallows k.room n = n ∧ canRead = false
  | .dies => swallows k.room n < n ∨ canRead = true ∧ (k.read n).1.Hangup

/-- A stereo stream in the format and at the rate of the device, of a client of the daemon's own byte
order, with room for a whole block. -/
structure Fits (cfg : Config) (format : Word) (n : ℕ) (s : Server) (p : Ptr) : Prop where
  mode : (s.player p).IsStream
  rate : (s.player p).rate = cfg.esdAudioRate
  bits : (s.player p).format &&& esdMaskBits = format &&& esdMaskBits
  chan : (s.player p).format &&& esdMaskChan = esdStereo
  order : (s.client (s.player p).parent).swapByteOrder = false
  empty : (s.player p).actualLength = 0
  room : (s.player p).bufferLength = n

section Exchange

variable {cfg : Config} {format : Word} {canRead : Bool} {s t : Server} {p q : Ptr} {n : ℕ}
  {x : List Octet} {out : Outcome}

theorem Fits.refreshed {f : Option TranslateFunc} (h : Fits cfg format n s p)
    (hplayer : t.player p = { s.player p with translateFunc := f }) (hclient : t.client = s.client) :
    Fits cfg format n t p := by
  refine ⟨?_, ?_, ?_, ?_, ?_, ?_, ?_⟩ <;> simp only [hplayer, hclient]
  · exact h.mode
  · exact h.rate
  · exact h.bits
  · exact h.chan
  · exact h.order
  · exact h.empty
  · exact h.room

theorem Fits.awaits (h : Fits cfg format n s p) (hwait : Awaits p s t) : Fits cfg format n t p := by
  exact h.refreshed hwait.player hwait.client

theorem Socket.read_congr {k k' : Socket} (h : k.input = k'.input) (n : ℤ) :
    (k.read n).1 = (k'.read n).1 := by
  simp only [Socket.read, h]
  split
  · rfl
  · split_ifs <;> rfl
  · rfl

theorem filterExchange_outcome (fits : Fits cfg format n s p) (hpos : 0 < n)
    (hx : load (s.playerData p) 0 n = x)
    (h : Behaves canRead (s.sockets (s.player p).sourceId) n x out) :
    (filterExchange canRead s p n).2 = !out.alive ∧
      load ((filterExchange canRead s p n).1.playerData p) 0 n = out.through x := by
  obtain ⟨herase, hwrote⟩ := filterSend_wrote s p n
  simp only [filterExchange]
  obtain ⟨⟨t, total, erase⟩, ht⟩ : ∃ r, filterSend s p n = r := ⟨_, rfl⟩
  rw [ht] at herase hwrote ⊢
  dsimp only at herase hwrote ⊢
  have hplayer : t.player = s.player := by rw [hwrote.rest]
  have hdata : t.playerData = s.playerData := by rw [hwrote.rest]
  have hclient : t.client = s.client := by rw [hwrote.rest]
  have hinput : (t.sockets (t.player p).sourceId).input = (s.sockets (s.player p).sourceId).input := by
    rw [hplayer]
    exact hwrote.input
  have hmode : (t.player p).IsStream := by
    rw [hplayer]
    exact fits.mode
  have hempty : (t.player p).actualLength = 0 := by rw [hplayer, fits.empty]
  have hroom : (t.player p).bufferLength = n := by rw [hplayer, fits.room]
  cases out with
  | replies f =>
    obtain ⟨htaken, rfl, hlen, later, hreply⟩ := h
    have hgoes : erase = false := by rw [herase, htaken, decide_eq_false (lt_irrefl n)]
    have hown : ¬ Swaps t p := fun hswaps => by
      have hswap := hswaps.1
      rw [hclient, hplayer, fits.order] at hswap
      cases hswap
    obtain ⟨hcount, hblock⟩ := readPlayer_reply hmode hempty hroom hpos (hinput.trans hreply) hlen
      fun hswaps => absurd hswaps hown
    rw [hgoes, if_neg Bool.false_ne_true, if_pos (by rw [hcount]; exact Int.natCast_nonneg n)]
    refine ⟨rfl, ?_⟩
    rw [decide_eq_false hown] at hblock
    exact hblock
  | silent =>
    obtain ⟨htaken, rfl⟩ := h
    have hgoes : erase = false := by rw [herase, htaken, decide_eq_false (lt_irrefl n)]
    rw [hgoes, if_neg Bool.false_ne_true, readPlayer_silent hmode, if_pos le_rfl]
    refine ⟨rfl, ?_⟩
    rw [← hx, ← hdata]
    rfl
  | dies =>
    by_cases hfails : swallows (s.sockets (s.player p).sourceId).room n < n
    · rw [herase, decide_eq_true hfails, if_pos rfl, hdata, hx]
      exact ⟨rfl, rfl⟩
    · obtain ⟨rfl, hgone⟩ := h.resolve_left hfails
      rw [Socket.read_congr hinput.symm] at hgone
      obtain ⟨hcount, hkept⟩ := readPlayer_hangup hmode hempty hroom hpos hgone
      rw [herase, decide_eq_false hfails, if_neg Bool.false_ne_true, if_neg (not_le.mpr hcount)]
      refine ⟨rfl, ?_⟩
      dsimp only
      rw [hkept, hdata, hx]
      rfl

end Exchange

/-! ## Passing the block on -/

/-- Between two stereo blocks of one width and one rate the translation is a copy. -/
theorem apply_copies {format destFormat : Word} (bits : KnownBits format)
    (width : destFormat &&& esdMaskBits = format &&& esdMaskBits)
    (chan : format &&& esdMaskChan = esdStereo) (destChan : destFormat &&& esdMaskChan = esdStereo)
    {srcLen : ℤ} (hlen : srcLen ≠ 0) (rate : ℤ) (dest src : Mem) (n : ℕ) :
    (getTranslateFunc format).apply dest n rate destFormat src srcLen rate = copyOctets src n dest := by
  have hwidth : (esdBits16 : Word) ≠ esdBits8 := by decide
  have hstereo : (esdStereo : Word) ≠ esdMono := by decide
  rcases bits with h8 | h16
  · simp [getTranslateFunc, chan, hstereo, h8, hwidth.symm, TranslateFunc.apply, mixFromStereo8u, hlen,
      width, destChan]
  · simp [getTranslateFunc, chan, hstereo, h16, hwidth, TranslateFunc.apply, mixFromStereo16s, hlen,
      width, destChan]

theorem load_copyOctets (src dest : Mem) (n : ℕ) : load (copyOctets src n dest).1 0 n = load src 0 n := by
  have hself := load_store_self dest 0 (load src 0 n)
  rwa [load_length, Nat.cast_zero] at hself

/-- What the turn of a filter comes to for those behind it, `y` being the block it leaves. -/
structure FilterTurn (p : Ptr) (next : Option Ptr) (n size : ℕ) (alive : Bool) (y : List Octet)
    (s : Server) (a : Server × ℤ) : Prop where
  others : ∀ q, (s.player q).sourceId ≠ (s.player p).sourceId → Awaits q s a.1
  passed : ∀ p' ∈ next, load (a.1.playerData p') 0 n = y ∧ a.2 = n
  last : next = none → load a.1.outputBuffer 0 size = y.take size ∧ a.2 = size
  format : a.1.esdAudioFormat = s.esdAudioFormat
  list : a.1.esdFilterList = if alive then s.esdFilterList else s.esdFilterList.erase p

section Turn

variable {cfg : Config} {canRead : Bool} {s t u : Server} {p : Ptr} {next : Option Ptr} {n size : ℕ}
  {x : List Octet} {out : Outcome} {dataSize : ℤ}

theorem filterTranslate_awaits (cfg : Config) (size : ℤ) (s : Server) (p : Ptr) (next : Option Ptr)
    (q : Ptr) : Awaits q s (filterTranslate cfg size s p next).1 := by
  have hself : ∀ t : Server, t.player = s.player → t.client = s.client → t.sockets = s.sockets →
      t.events = s.events → Awaits q s t := fun t hplayer hclient hsockets hevents =>
    ⟨congrFun hplayer q, hclient, congrFun hsockets _, [], by simp [hevents], rfl⟩
  simp only [filterTranslate]
  split
  · exact .refl s
  · split <;> exact hself _ rfl rfl rfl rfl

theorem filterTranslate_list (cfg : Config) (size : ℤ) (s : Server) (p : Ptr) (next : Option Ptr) :
    (filterTranslate cfg size s p next).1.list = s.list ∧
      (filterTranslate cfg size s p next).1.esdAudioFormat = s.esdAudioFormat := by
  simp only [filterTranslate]
  split
  · exact ⟨rfl, rfl⟩
  · split <;> exact ⟨rfl, rfl⟩

/-- What is in the buffer of a filter is copied to the next one, or to the output behind the last. -/
theorem filterTranslate_copies (bits : KnownBits s.esdAudioFormat)
    (func : (s.player p).translateFunc = some (getTranslateFunc (s.player p).format))
    (server : s.esdAudioFormat &&& esdMaskChan = esdStereo) (hpos : 0 < n) (hsize : size ≤ n)
    (hrate : (s.player p).rate = cfg.esdAudioRate) (hbuffer : (s.player p).bufferLength = n)
    (hbits : (s.player p).format &&& esdMaskBits = s.esdAudioFormat &&& esdMaskBits)
    (hchan : (s.player p).format &&& esdMaskChan = esdStereo)
    (hnext : ∀ p' ∈ next, Fits cfg s.esdAudioFormat n s p') :
    (∀ p' ∈ next, load ((filterTranslate cfg size s p next).1.playerData p') 0 n =
        load (s.playerData p) 0 n ∧ (filterTranslate cfg size s p next).2 = n) ∧
      (next = none → load (filterTranslate cfg size s p next).1.outputBuffer 0 size =
        (load (s.playerData p) 0 n).take size ∧ (filterTranslate cfg size s p next).2 = size) := by
  have hlen : (n : ℤ) ≠ 0 := by omega
  have hknown : KnownBits (s.player p).format := by
    rw [KnownBits, hbits]
    exact bits
  have hcopy : ∀ dest destFormat m, destFormat &&& esdMaskBits = s.esdAudioFormat &&& esdMaskBits →
      destFormat &&& esdMaskChan = esdStereo →
      (getTranslateFunc (s.player p).format).apply dest m cfg.esdAudioRate destFormat (s.playerData p) n
        cfg.esdAudioRate = copyOctets (s.playerData p) m dest := fun dest destFormat m hdest hstereo =>
    apply_copies hknown (hdest.trans hbits.symm) hchan hstereo hlen _ dest _ m
  cases next with
  | some p' =>
    have fits' := hnext p' rfl
    have happly := hcopy (s.playerData p') (s.player p').format n fits'.bits fits'.chan
    refine ⟨fun q hq => ?_, fun hnone => by cases hnone⟩
    obtain rfl : p' = q := Option.some.inj hq
    simp only [filterTranslate, func, hrate, hbuffer, fits'.rate, fits'.room, Int.toNat_natCast, happly]
    refine ⟨?_, rfl⟩
    have hdata : ∀ m, (s.setPlayerData p' m).playerData p' = m := fun m => Function.update_self _ _ _
    rw [hdata, load_copyOctets]
  | none =>
    have happly := hcopy s.outputBuffer s.esdAudioFormat size rfl server
    refine ⟨fun q hq => absurd hq (by simp), fun _ => ?_⟩
    simp only [filterTranslate, func, hrate, hbuffer, Int.toNat_natCast, happly]
    exact ⟨by rw [load_copyOctets, load_take _ _ hsize], rfl⟩

variable (next) in
theorem filterOne_turn (fits : Fits cfg s.esdAudioFormat n s p) (bits : KnownBits s.esdAudioFormat)
    (func : (s.player p).translateFunc = some (getTranslateFunc (s.player p).format))
    (server : s.esdAudioFormat &&& esdMaskChan = esdStereo) (hpos : 0 < n)
    (hsize : size ≤ n)
    (hnext : ∀ p' ∈ next, Fits cfg s.esdAudioFormat n s p' ∧
      (s.player p').sourceId ≠ (s.player p).sourceId)
    (hx : load (s.playerData p) 0 n = x)
    (h : Behaves canRead (s.sockets (s.player p).sourceId) n x out) :
    FilterTurn p next n size out.alive (out.through x) s
      (filterOne cfg canRead size s p next n) := by
  obtain ⟨herase, hy⟩ := filterExchange_outcome fits hpos hx h
  have hdone := filterExchange_exchanged canRead n fits.mode
  simp only [filterOne]
  obtain ⟨⟨t, erase⟩, ht⟩ : ∃ a, filterExchange canRead s p n = a := ⟨_, rfl⟩
  rw [ht] at herase hy hdone ⊢
  dsimp only at herase hy hdone ⊢
  subst herase
  have hformat : t.esdAudioFormat = s.esdAudioFormat := congrArg Sound.esdAudioFormat hdone.sound
  have hawaits := filterTranslate_awaits cfg size t p next
  have hlists := filterTranslate_list cfg size t p next
  have hafter := @filterTranslate_copies cfg t p next n size (by rwa [hformat])
    (by rw [hdone.player]; exact func) (by rwa [hformat]) hpos hsize
    (by rw [hdone.player]; exact fits.rate) (by rw [hdone.player]; exact fits.room)
    (by rw [hdone.player, hformat]; exact fits.bits) (by rw [hdone.player]; exact fits.chan)
    fun p' hp' => by
      obtain ⟨fits', hfd⟩ := hnext p' hp'
      rw [hformat]
      exact fits'.awaits (hdone.others p' hfd).toAwaits
  rw [hy] at hafter
  obtain ⟨⟨u, dataSize⟩, hu⟩ : ∃ a, filterTranslate cfg size t p next = a := ⟨_, rfl⟩
  rw [hu] at hawaits hlists hafter ⊢
  dsimp only at hawaits hlists hafter ⊢
  have hlist : u.list = s.list := hlists.1.trans hdone.list
  have hidles : Idles u (if (!out.alive) = true then eraseFilter u p else u) := by
    split_ifs
    · exact eraseFrom_idles
    · exact .refl u
  refine ⟨fun q hq => ?_, fun p' hp' => ?_, fun hnone => ?_, ?_, ?_⟩
  · exact ((hdone.others q hq).toAwaits.trans (hawaits q)).trans (hidles.bystander q).toAwaits
  · rw [hidles.silent.playerData]
    exact hafter.1 p' hp'
  · have houtput := congrArg Sound.outputBuffer hidles.silent.sound
    rw [show (if (!out.alive) = true then eraseFilter u p else u).outputBuffer = u.outputBuffer from houtput]
    exact hafter.2 hnone
  · exact (congrArg Sound.esdAudioFormat hidles.silent.sound).trans (hlists.2.trans hformat)
  · have hfilters : u.esdFilterList = s.esdFilterList := congrFun hlist .filters
    cases halive : out.alive with
    | true => exact hfilters
    | false =>
      refine (eraseFrom_list .filters p).trans ?_
      exact congrArg (List.erase · p) hfilters

end Turn

/-! ## The chain -/

/-- The block after these filters. -/
def composed (out : Ptr → Outcome) (ps : List Ptr) (x : List Octet) : List Octet :=
  ps.foldl (fun x p => (out p).through x) x

/-- Each of the filters does what it is said to do with the block that reaches it. -/
def Chained (canRead : Ptr → Bool) (out : Ptr → Outcome) (n : ℕ) (s : Server) :
    List Ptr → List Octet → Prop
  | [], _ => True
  | p :: ps, x => Behaves (canRead p) (s.sockets (s.player p).sourceId) n x (out p) ∧
      Chained canRead out n s ps ((out p).through x)

/-- The daemon has the conversion of the filter. -/
def Refreshed (s : Server) (p : Ptr) : Prop :=
  (s.player p).translateFunc = some (getTranslateFunc (s.player p).format)

section Chain

variable {cfg : Config} {canRead : Ptr → Bool} {out : Ptr → Outcome} {s t : Server} {p : Ptr}
  {ps : List Ptr} {n size : ℕ} {x : List Octet}

theorem Chained.congr (h : Chained canRead out n s ps x)
    (same : ∀ q ∈ ps, t.sockets (t.player q).sourceId = s.sockets (s.player q).sourceId) :
    Chained canRead out n t ps x := by
  induction ps generalizing x with
  | nil => trivial
  | cons p ps ih =>
    refine ⟨?_, ih h.2 fun q hq => same q (List.mem_cons_of_mem _ hq)⟩
    rw [same p List.mem_cons_self]
    exact h.1

theorem erase_if_dead {l : List Ptr} (distinct : l.Nodup) (alive : Bool) :
    (if alive then l else l.erase p) = l.filter fun q => ¬ (q = p ∧ alive = false) := by
  cases alive with
  | true => simp
  | false =>
    rw [if_neg Bool.false_ne_true, distinct.erase_eq_filter]
    refine List.filter_congr fun q _ => ?_
    rcases eq_or_ne q p with rfl | hne
    · simp
    · simp [hne]

/-- The loop over the filters, with the block of the first one in its buffer. -/
theorem filterLoop_chain (fits : ∀ q ∈ p :: ps, Fits cfg s.esdAudioFormat n s q)
    (refreshed : ∀ q ∈ p :: ps, Refreshed s q) (bits : KnownBits s.esdAudioFormat)
    (server : s.esdAudioFormat &&& esdMaskChan = esdStereo)
    (apart : ((p :: ps).map fun q => (s.player q).sourceId).Nodup) (distinct : s.esdFilterList.Nodup)
    (hpos : 0 < n) (hsize : size ≤ n) (hx : load (s.playerData p) 0 n = x)
    (h : Chained canRead out n s (p :: ps) x) :
    load (filterLoop cfg canRead size (p :: ps) s n).1.outputBuffer 0 size =
        (composed out (p :: ps) x).take size ∧
      (filterLoop cfg canRead size (p :: ps) s n).2 = size ∧
      (filterLoop cfg canRead size (p :: ps) s n).1.esdFilterList =
        s.esdFilterList.filter fun q => ¬ (q ∈ p :: ps ∧ (out q).alive = false) := by
  induction ps generalizing p s x with
  | nil =>
    have hturn := filterOne_turn none (fits p List.mem_cons_self) bits
      (refreshed p List.mem_cons_self) server hpos hsize (fun p' hp' => absurd hp' (by simp)) hx h.1
    obtain ⟨hout, hlength⟩ := hturn.last rfl
    simp only [filterLoop, List.head?_nil]
    refine ⟨hout, hlength, hturn.list.trans ((erase_if_dead distinct _).trans ?_)⟩
    refine List.filter_congr fun q _ => ?_
    rcases eq_or_ne q p with rfl | hne
    · simp
    · simp [hne]
  | cons p' ps ih =>
    obtain ⟨hp, hrest⟩ := List.nodup_cons.mp apart
    have hfd : ∀ q ∈ p' :: ps, (s.player q).sourceId ≠ (s.player p).sourceId :=
      fun q hq he => hp (List.mem_map.mpr ⟨q, hq, he⟩)
    have hturn := filterOne_turn (some p') (fits p List.mem_cons_self) bits
      (refreshed p List.mem_cons_self) server hpos hsize
      (fun q hq => by
        obtain rfl : p' = q := Option.some.inj hq
        exact ⟨fits p' (by simp), hfd p' List.mem_cons_self⟩) hx h.1
    obtain ⟨hpassed, hlength⟩ := hturn.passed p' rfl
    have hlist := hturn.list.trans (erase_if_dead distinct _)
    rw [filterLoop, List.head?_cons]
    obtain ⟨⟨t, dataSize⟩, ht⟩ :
        ∃ a, filterOne cfg (canRead p) size s p (some p') n = a := ⟨_, rfl⟩
    rw [ht] at hturn hpassed hlength hlist ⊢
    dsimp only at hpassed hlength hlist ⊢
    subst hlength
    have hwait : ∀ q ∈ p' :: ps, Awaits q s t := fun q hq => hturn.others q (hfd q hq)
    have hformat : t.esdAudioFormat = s.esdAudioFormat := hturn.format
    have hsockets : (p' :: ps).map (fun q => (t.player q).sourceId) =
        (p' :: ps).map fun q => (s.player q).sourceId :=
      List.map_congr_left fun q hq => by rw [(hwait q hq).player]
    have hchained : Chained canRead out n t (p' :: ps) ((out p).through x) := h.2.congr fun q hq => by
      rw [(hwait q hq).player, (hwait q hq).socket]
    obtain ⟨hout, hresult, hleft⟩ := ih (s := t)
      (fun q hq => by
        rw [hformat]
        exact (fits q (List.mem_cons_of_mem _ hq)).awaits (hwait q hq))
      (fun q hq => by
        rw [Refreshed, (hwait q hq).player]
        exact refreshed q (List.mem_cons_of_mem _ hq))
      (by rwa [hformat]) (by rwa [hformat]) (by rwa [hsockets]) (by rw [hlist]; exact distinct.filter _)
      hpassed hchained
    refine ⟨hout, hresult, hleft.trans ?_⟩
    rw [hlist, List.filter_filter]
    refine List.filter_congr fun q _ => ?_
    rcases eq_or_ne q p with rfl | hne
    · have hlater : q ∉ p' :: ps := fun hq => hfd q hq rfl
      simp only [hlater]
      simp
    · simp [hne]

theorem refreshMixFuncs_player (hp : p ∈ s.esdFilterList) :
    (refreshMixFuncs s).player p =
      { s.player p with translateFunc := some (getTranslateFunc (s.player p).format) } := by
  have hne : s.esdFilterList ≠ [] := List.ne_nil_of_mem hp
  simp [refreshMixFuncs, hne, hp]

/-- The output after the filters is the composition of those that answered, in the order of the list,
and those that died are gone. -/
theorem filter_chain (fits : ∀ p ∈ s.esdFilterList, Fits cfg s.esdAudioFormat n s p)
    (bits : KnownBits s.esdAudioFormat) (server : s.esdAudioFormat &&& esdMaskChan = esdStereo)
    (apart : SocketsApart s .filters) (hpos : 0 < size) (hsize : size ≤ n)
    (h : Chained canRead out n s s.esdFilterList (load s.outputBuffer 0 n)) :
    load (filterWrite cfg canRead (refreshMixFuncs s) size).1.outputBuffer 0 size =
        (composed out s.esdFilterList (load s.outputBuffer 0 n)).take size ∧
      (filterWrite cfg canRead (refreshMixFuncs s) size).2 = size ∧
      (filterWrite cfg canRead (refreshMixFuncs s) size).1.esdFilterList =
        s.esdFilterList.filter fun p => (out p).alive := by
  rcases hlist : s.esdFilterList with _ | ⟨p, ps⟩
  · have hsame : refreshMixFuncs s = s := by simp [refreshMixFuncs, hlist]
    simp only [hsame, filterWrite, filterFirst, hlist, composed, List.foldl_nil]
    exact ⟨(load_take _ _ hsize).symm, trivial, rfl⟩
  · have hmem : ∀ q ∈ p :: ps, q ∈ s.esdFilterList := fun q hq => hlist ▸ hq
    have hplayer : ∀ q ∈ p :: ps, (refreshMixFuncs s).player q =
        { s.player q with translateFunc := some (getTranslateFunc (s.player q).format) } :=
      fun q hq => refreshMixFuncs_player (hmem q hq)
    have hne : s.esdFilterList ≠ [] := by simp [hlist]
    obtain ⟨hfilters, hfirst, hformat, houtput, hsockets, hclient⟩ :
        (refreshMixFuncs s).esdFilterList = p :: ps ∧
        (refreshMixFuncs s).esdFirstFilterFunc = some (getTranslateFunc s.esdAudioFormat) ∧
        (refreshMixFuncs s).esdAudioFormat = s.esdAudioFormat ∧
        (refreshMixFuncs s).outputBuffer = s.outputBuffer ∧
        (refreshMixFuncs s).sockets = s.sockets ∧ (refreshMixFuncs s).client = s.client := by
      simp [refreshMixFuncs, hlist]
    generalize refreshMixFuncs s = u at *
    have hfits := fits p (hmem p List.mem_cons_self)
    have hsize' : (size : ℤ) ≠ 0 := by omega
    -- the whole buffer is copied into the first filter, what was mixed and what is behind it
    have hinto : filterFirst cfg u size =
        some (u.setPlayerData p (copyOctets s.outputBuffer n (u.playerData p)).1, (n : ℤ)) := by
      have hcopy := apply_copies bits hfits.bits server hfits.chan hsize' cfg.esdAudioRate (u.playerData p)
        s.outputBuffer n
      simp only [filterFirst, hfilters, hfirst, hplayer p List.mem_cons_self, hfits.room, hfits.rate,
        Int.toNat_natCast, houtput, hcopy]
      rfl
    obtain ⟨v, hv⟩ : ∃ v, u.setPlayerData p (copyOctets s.outputBuffer n (u.playerData p)).1 = v := ⟨_, rfl⟩
    have hdata : load (v.playerData p) 0 n = load s.outputBuffer 0 n := by
      rw [← hv, ← load_copyOctets s.outputBuffer (u.playerData p) n]
      exact congrArg (load · 0 n) (Function.update_self _ _ _)
    have hvplayer : v.player = u.player := by rw [← hv]; rfl
    have hvclient : v.client = s.client := by rw [← hv]; exact hclient
    have hvsockets : v.sockets = s.sockets := by rw [← hv]; exact hsockets
    have hvformat : v.esdAudioFormat = s.esdAudioFormat := by rw [← hv]; exact hformat
    have hvfilters : v.esdFilterList = p :: ps := by rw [← hv]; exact hfilters
    have happly : filterWrite cfg canRead u size = filterLoop cfg canRead size (p :: ps) v n := by
      rw [filterWrite, hinto, hv]
      dsimp only
      rw [hvfilters]
    have hfd : ∀ q ∈ p :: ps, (v.player q).sourceId = (s.player q).sourceId := fun q hq => by
      rw [hvplayer, hplayer q hq]
    have hchained : Chained canRead out n v (p :: ps) (load s.outputBuffer 0 n) := by
      rw [hlist] at h
      exact h.congr fun q hq => by rw [hvsockets, hfd q hq]
    have hapart : ((p :: ps).map fun q => (s.player q).sourceId).Nodup := hlist ▸ apart
    have hvfits : ∀ q ∈ p :: ps, Fits cfg v.esdAudioFormat n v q := fun q hq => by
      rw [hvformat]
      exact (fits q (hmem q hq)).refreshed (by rw [hvplayer, hplayer q hq]) hvclient
    obtain ⟨hout, hresult, hleft⟩ := filterLoop_chain (s := v) hvfits (fun q hq => by rw [Refreshed, hvplayer, hplayer q hq]) (by rwa [hvformat]) (by rwa [hvformat])
      (by rwa [List.map_congr_left hfd]) (by rw [hvfilters]; exact hapart.of_map) (hpos.trans_le hsize)
      hsize hdata hchained
    rw [happly]
    refine ⟨hout, hresult, hleft.trans ?_⟩
    rw [hvfilters]
    refine List.filter_congr fun q hq => ?_
    simp [hq]

end Chain

/-- Three clients filter. Of the first a block is to come; of the others nothing. -/
def filtersRun (reply : List Octet) : List Action :=
  let sending (pieces : List (List Octet)) : Socket := .sending
    ([handshake 7, Word.octets 15#32, streamParams (esdBits16 ||| esdStereo) 44100#32] ++ pieces)
  [.accept 1 5 (sending [reply]), .poll 1 (.allocating 0), .poll 1 (.allocating 0),
    .poll 1 (.allocating 10), .accept 2 6 (sending []), .poll 2 (.allocating 0),
    .poll 2 (.allocating 0), .poll 2 (.allocating 11), .accept 3 7 (sending []),
    .poll 3 (.allocating 0), .poll 3 (.allocating 0), .poll 3 (.allocating 12)]

theorem filtersRun_ends :
    (exec (step .smallBlocks) NoReset .blank (filtersRun (List.replicate 16 1))).isSome := by
  decide +kernel

/-- The first of the list has no answer ready, the second dies, and the last adds one to every octet. -/
theorem filter_chain_three : ∃ t, Runs .smallBlocks NoReset .blank (filtersRun (List.replicate 16 1)) t ∧
    t.esdFilterList = [12, 11, 10] ∧
    load (filterWrite .smallBlocks (· ≠ 12) (refreshMixFuncs t) 8).1.outputBuffer 0 8 =
      List.replicate 8 1 ∧
    (filterWrite .smallBlocks (· ≠ 12) (refreshMixFuncs t) 8).2 = 8 ∧
    (filterWrite .smallBlocks (· ≠ 12) (refreshMixFuncs t) 8).1.esdFilterList = [12, 10] := by
  obtain ⟨t, hrun, hlist, hformat, hstream, hshape, hbuffer, hfds, hfirst, hsecond, hthird, hblock⟩ :
      ∃ t, Runs .smallBlocks NoReset .blank (filtersRun (List.replicate 16 1)) t ∧
        t.esdFilterList = [12, 11, 10] ∧ t.esdAudioFormat = esdBits16 ||| esdStereo ∧
        (∀ p ∈ [12, 11, 10], (t.player p).IsStream ∧ (t.player p).rate = 44100) ∧
        (∀ p ∈ [12, 11, 10], (t.player p).format &&& esdMaskBits = esdBits16 ∧
          (t.player p).format &&& esdMaskChan = esdStereo) ∧
        (∀ p ∈ [12, 11, 10], (t.client (t.player p).parent).swapByteOrder = false ∧
          (t.player p).actualLength = 0 ∧ (t.player p).bufferLength = 16) ∧
        ([12, 11, 10].map fun p => (t.player p).sourceId) = [7, 6, 5] ∧
        ((t.sockets 7).room = [] ∧ (t.sockets 7).input = []) ∧
        ((t.sockets 6).room = [] ∧ (t.sockets 6).input = []) ∧
        ((t.sockets 5).room = [] ∧ (t.sockets 5).input = [.data (List.replicate 16 1)]) ∧
        load t.outputBuffer 0 16 = List.replicate 16 0 :=
    ⟨_, Run.of_isSome filtersRun_ends, by decide +kernel, by decide +kernel, by decide +kernel,
      by decide +kernel, by decide +kernel, by decide +kernel, by decide +kernel, by decide +kernel,
      by decide +kernel, by decide +kernel⟩
  have hout : ∃ out : Ptr → Outcome, out 12 = .silent ∧ out 11 = .dies ∧ out 10 = .replies (·.map (· + 1)) :=
    ⟨fun p => if p = 12 then .silent else if p = 11 then .dies else .replies (·.map (· + 1)), rfl, rfl, rfl⟩
  obtain ⟨out, hout₁, hout₂, hout₃⟩ := hout
  simp only [List.map_cons, List.map_nil, List.cons.injEq, and_true] at hfds
  obtain ⟨hfd₁, hfd₂, hfd₃⟩ := hfds
  have apart := runs_socketsApart (l := .filters) Server.blank_initial hrun (by decide)
  have hfits : ∀ p ∈ t.esdFilterList, Fits .smallBlocks t.esdAudioFormat 16 t p := by
    intro p hp
    rw [hlist] at hp
    rw [hformat]
    exact ⟨(hstream p hp).1, (hstream p hp).2, (hshape p hp).1.trans (by decide), (hshape p hp).2,
      (hbuffer p hp).1, (hbuffer p hp).2.1, (hbuffer p hp).2.2⟩
  have hchained : Chained (· ≠ 12) out 16 t t.esdFilterList (load t.outputBuffer 0 16) := by
    rw [hlist, hblock]
    refine ⟨?_, ?_, ?_, trivial⟩
    · rw [hfd₁, hout₁, Behaves, hfirst.1]
      decide
    · rw [hfd₂, hout₂, Behaves]
      refine .inr ⟨by decide, .inl ?_⟩
      simp [Socket.read, hsecond.2, ReadResult.count]
    · rw [hfd₃, hout₁, hout₂, hout₃, Behaves, hthird.1, hthird.2]
      exact ⟨by decide, by decide, by decide, [], by decide⟩
  have hsize : 0 < 8 ∧ 8 ≤ 16 := by decide
  have hbits : KnownBits t.esdAudioFormat := by
    rw [hformat]
    decide
  have hserver : t.esdAudioFormat &&& esdMaskChan = esdStereo := by
    rw [hformat]
    decide
  obtain ⟨houtput, hreturn, hleft⟩ := filter_chain hfits hbits hserver apart hsize.1 hsize.2 hchained
  refine ⟨t, hrun, hlist, houtput.trans ?_, hreturn, hleft.trans ?_⟩
  · rw [hlist, hblock]
    simp only [composed, List.foldl_cons, List.foldl_nil, hout₁, hout₂, hout₃, Outcome.through]
    decide
  · rw [hlist]
    simp [hout₁, hout₂, hout₃, Outcome.alive]

end Esound
