import Esound.FilterChain

/-!
# Audio in the order of the client

Three paths lead from the daemon to a client. One of them exchanges the octets of the shorts for a
client of the opposite byte order, the other two do not, and what a filter sends back is exchanged
whatever it was sent.
-/

open Library.Buffer Library.Loop Library.Transition

namespace Esound

/-! ## What a filter is sent -/

/-- The loop over the filters up to the turn of `m`. -/
def filterUntil (cfg : Config) (canRead : Ptr → Bool) (size : ℤ) (m : Ptr) :
    List Ptr → Server → ℤ → Server × ℤ
  | [], s, dataSize => (s, dataSize)
  | p :: ps, s, dataSize =>
    if p = m then (s, dataSize)
    else
      let (s, dataSize) := filterOne cfg (canRead p) size s p ps.head? dataSize
      filterUntil cfg canRead size m ps s dataSize

/-- The daemon when the turn of the filter comes, and the length of the block. -/
def turnOf (cfg : Config) (canRead : Ptr → Bool) (s : Server) (size : ℤ) (m : Ptr) : Server × ℤ :=
  match filterFirst cfg s size with
  | none => (s, size)
  | some (s, dataSize) => filterUntil cfg canRead size m s.esdFilterList s dataSize

/-- The block that is in the buffer of the filter. -/
def turnBlock (m : Ptr) (turn : Server × ℤ) : List Octet := load (turn.1.playerData m) 0 turn.2.toNat

/-- How much of it the filter takes. -/
def turnTaken (m : Ptr) (turn : Server × ℤ) : ℕ :=
  swallows (turn.1.sockets (turn.1.player m).sourceId).room turn.2.toNat

section Filters

variable {cfg : Config} {canRead : Ptr → Bool} {c : Bool} {s t : Server} {p q m : Ptr} {ps : List Ptr}
  {next : Option Ptr} {size dataSize : ℤ}

theorem filterSend_toNat : filterSend s p dataSize = filterSend s p dataSize.toNat := by
  rcases le_or_gt 0 dataSize with hpos | hneg
  · rw [Int.toNat_of_nonneg hpos]
  · have hzero : dataSize.toNat = 0 := by omega
    have hnot : ¬ (0 < dataSize) := by omega
    simp [filterSend, hzero, whileFuel, filterWriteRound, hnot]

theorem filterExchange_toNat : filterExchange c s p dataSize = filterExchange c s p dataSize.toNat := by
  simp only [filterExchange, ← filterSend_toNat]

/-- The turn of a filter, whatever it does. -/
structure FilterServed (p : Ptr) (dataSize : ℤ) (s t : Server) : Prop where
  source : (t.player p).sourceId = (s.player p).sourceId
  others : ∀ q, (s.player q).sourceId ≠ (s.player p).sourceId → Awaits q s t
  events : ∃ es, t.events = s.events ++ es ∧
    writtenTo (s.player p).sourceId es = (turnBlock p (s, dataSize)).take (turnTaken p (s, dataSize))

/-- The filters that are left are as they were, and have sockets of their own. -/
theorem FilterServed.rest (h : FilterServed p dataSize s t)
    (modes : ∀ q ∈ p :: ps, (s.player q).IsStream)
    (apart : ((p :: ps).map fun q => (s.player q).sourceId).Nodup) :
    (∀ q ∈ ps, (s.player q).sourceId ≠ (s.player p).sourceId) ∧
      (∀ q ∈ ps, t.player q = s.player q) ∧ (∀ q ∈ ps, (t.player q).IsStream) ∧
        (ps.map fun q => (t.player q).sourceId).Nodup := by
  obtain ⟨hp, hrest⟩ := List.nodup_cons.mp apart
  have hapart : ∀ q ∈ ps, (s.player q).sourceId ≠ (s.player p).sourceId :=
    fun q hq he => hp (List.mem_map.mpr ⟨q, hq, he⟩)
  have hlater : ∀ q ∈ ps, t.player q = s.player q := fun q hq => (h.others q (hapart q hq)).player
  refine ⟨hapart, hlater, fun q hq => ?_, ?_⟩
  · rw [hlater q hq]
    exact modes q (List.mem_cons_of_mem _ hq)
  · rwa [List.map_congr_left fun q hq => by rw [hlater q hq]]

variable (cfg c next size dataSize) in
theorem filterOne_served (mode : (s.player p).IsStream) :
    FilterServed p dataSize s (filterOne cfg c size s p next dataSize).1 := by
  have hdone := filterExchange_exchanged c dataSize.toNat mode
  rw [← filterExchange_toNat] at hdone
  simp only [filterOne]
  obtain ⟨⟨t, erase⟩, ht⟩ : ∃ a, filterExchange c s p dataSize = a := ⟨_, rfl⟩
  rw [ht] at hdone ⊢
  dsimp only at hdone ⊢
  have hawaits := filterTranslate_awaits cfg size t p next
  have hevents : (filterTranslate cfg size t p next).1.events = t.events := by
    simp only [filterTranslate]
    split
    · rfl
    · split <;> rfl
  obtain ⟨⟨u, n⟩, hu⟩ : ∃ a, filterTranslate cfg size t p next = a := ⟨_, rfl⟩
  rw [hu] at hawaits hevents ⊢
  dsimp only at hawaits hevents ⊢
  have hidles : Idles u (if erase = true then eraseFilter u p else u) := by
    split_ifs
    · exact eraseFrom_idles
    · exact .refl u
  obtain ⟨es, hes, hsent⟩ := hdone.events
  obtain ⟨es', hes', hnone⟩ := hidles.events
  refine ⟨?_, fun q hq => ((hdone.others q hq).toAwaits.trans (hawaits q)).trans
    (hidles.bystander q).toAwaits, es ++ es', ?_, ?_⟩
  · rw [hidles.player, (hawaits p).player, hdone.player]
  · rw [hes', hevents, hes, List.append_assoc]
  · rw [writtenTo, List.flatMap_append, ← writtenTo, ← writtenTo, hsent, hnone, List.append_nil]
    rfl

variable (cfg canRead size dataSize) in
theorem filterLoop_awaits (modes : ∀ q ∈ ps, (s.player q).IsStream)
    (apart : (ps.map fun q => (s.player q).sourceId).Nodup)
    (hfd : ∀ q ∈ ps, (s.player m).sourceId ≠ (s.player q).sourceId) :
    Awaits m s (filterLoop cfg canRead size ps s dataSize).1 := by
  induction ps generalizing s dataSize with
  | nil => exact .refl s
  | cons p ps ih =>
    have hserved := filterOne_served cfg (canRead p) ps.head? size dataSize
      (modes p List.mem_cons_self)
    simp only [filterLoop]
    obtain ⟨⟨t, n⟩, ht⟩ : ∃ a, filterOne cfg (canRead p) size s p ps.head? dataSize = a := ⟨_, rfl⟩
    rw [ht] at hserved ⊢
    dsimp only at hserved ⊢
    have hm := hserved.others m (hfd p List.mem_cons_self)
    obtain ⟨-, hlater, hmodes, hapart⟩ := hserved.rest modes apart
    refine hm.trans (ih _ hmodes hapart fun q hq => ?_)
    rw [hm.player, hlater q hq]
    exact hfd q (List.mem_cons_of_mem _ hq)

variable (cfg canRead size dataSize) in
/-- A filter that has its turn in the loop is sent its block, once. -/
theorem filterLoop_sends (modes : ∀ q ∈ ps, (s.player q).IsStream)
    (apart : (ps.map fun q => (s.player q).sourceId).Nodup) (listed : m ∈ ps) :
    ∃ es, (filterLoop cfg canRead size ps s dataSize).1.events = s.events ++ es ∧
      writtenTo (s.player m).sourceId es =
        (turnBlock m (filterUntil cfg canRead size m ps s dataSize)).take
          (turnTaken m (filterUntil cfg canRead size m ps s dataSize)) := by
  induction ps generalizing s dataSize with
  | nil => exact absurd listed List.not_mem_nil
  | cons p ps ih =>
    have hserved := filterOne_served cfg (canRead p) ps.head? size dataSize
      (modes p List.mem_cons_self)
    simp only [filterLoop, filterUntil]
    obtain ⟨⟨t, n⟩, ht⟩ : ∃ a, filterOne cfg (canRead p) size s p ps.head? dataSize = a := ⟨_, rfl⟩
    rw [ht] at hserved ⊢
    dsimp only at hserved ⊢
    obtain ⟨hapart, hlater, hmodes, hapart'⟩ := hserved.rest modes apart
    obtain ⟨es, hes, hsent⟩ := hserved.events
    by_cases hpm : p = m
    · subst hpm
      rw [if_pos rfl]
      have hwait := filterLoop_awaits cfg canRead size n (m := p) hmodes hapart' fun q hq => by
        rw [hserved.source, hlater q hq]
        exact (hapart q hq).symm
      obtain ⟨es', hes', hnone⟩ := hwait.events
      rw [hserved.source] at hnone
      refine ⟨es ++ es', ?_, ?_⟩
      · rw [hes', hes, List.append_assoc]
      · rw [writtenTo, List.flatMap_append, ← writtenTo, ← writtenTo, hsent, hnone, List.append_nil]
    · rw [if_neg hpm]
      have hm : m ∈ ps := (List.mem_cons.mp listed).resolve_left (Ne.symm hpm)
      have hwait := hserved.others m (hapart m hm)
      obtain ⟨es₁, hes₁, hnone⟩ := hwait.events
      obtain ⟨es₂, hes₂, hto⟩ := ih n hmodes hapart' hm
      rw [hwait.player] at hto
      refine ⟨es₁ ++ es₂, ?_, ?_⟩
      · rw [hes₂, hes₁, List.append_assoc]
      · rw [writtenTo, List.flatMap_append, ← writtenTo, ← writtenTo, hnone, hto, List.nil_append]

theorem filterUntil_awaits (modes : ∀ q ∈ ps, (s.player q).IsStream)
    (apart : (ps.map fun q => (s.player q).sourceId).Nodup) (listed : m ∈ ps) :
    Awaits m s (filterUntil cfg canRead size m ps s dataSize).1 := by
  induction ps generalizing s dataSize with
  | nil => exact .refl s
  | cons p ps ih =>
    have hserved := filterOne_served cfg (canRead p) ps.head? size dataSize
      (modes p List.mem_cons_self)
    simp only [filterUntil]
    split_ifs with hpm
    · exact .refl s
    · have hm : m ∈ ps := (List.mem_cons.mp listed).resolve_left (Ne.symm hpm)
      obtain ⟨hapart, -, hmodes, hapart'⟩ := hserved.rest modes apart
      exact (hserved.others m (hapart m hm)).trans (ih hmodes hapart' hm)

theorem filterFirst_rest {n : ℤ} (h : filterFirst cfg s size = some (t, n)) :
    t = { s with playerData := t.playerData } := by
  simp only [filterFirst] at h
  split at h
  · cases h
    rfl
  · cases h

theorem turnOf_awaits (modes : ∀ q ∈ s.esdFilterList, (s.player q).IsStream)
    (apart : SocketsApart s .filters) (listed : m ∈ s.esdFilterList) :
    Awaits m s (turnOf cfg canRead s size m).1 := by
  simp only [turnOf]
  cases hinto : filterFirst cfg s size with
  | none => exact .refl s
  | some a =>
    obtain ⟨t, n⟩ := a
    have hrest := filterFirst_rest hinto
    have hplayer : t.player = s.player := by rw [hrest]
    have hlist : t.esdFilterList = s.esdFilterList := by rw [hrest]
    have hfirst : Awaits m s t := by
      rw [hrest]
      exact ⟨rfl, rfl, rfl, [], by simp, rfl⟩
    exact hfirst.trans (filterUntil_awaits (by rwa [hlist, hplayer]) (by rw [hlist, hplayer]; exact apart)
      (by rwa [hlist]))

theorem filterWrite_sends (modes : ∀ q ∈ s.esdFilterList, (s.player q).IsStream)
    (apart : SocketsApart s .filters) (listed : m ∈ s.esdFilterList) (first : s.esdFirstFilterFunc ≠ none) :
    writtenSince (s.player m).sourceId s (filterWrite cfg canRead s size).1 =
      (turnBlock m (turnOf cfg canRead s size m)).take (turnTaken m (turnOf cfg canRead s size m)) := by
  obtain ⟨f, hf⟩ := Option.ne_none_iff_exists'.mp first
  simp only [filterWrite, turnOf]
  cases hinto : filterFirst cfg s size with
  | none =>
    exfalso
    obtain ⟨p, ps, hlist⟩ := List.exists_cons_of_ne_nil (List.ne_nil_of_mem listed)
    simp [filterFirst, hlist, hf] at hinto
  | some a =>
    obtain ⟨t, n⟩ := a
    have hrest := filterFirst_rest hinto
    have hplayer : t.player = s.player := by rw [hrest]
    have hlist : t.esdFilterList = s.esdFilterList := by rw [hrest]
    have hevents : t.events = s.events := by rw [hrest]
    have hmodes : ∀ q ∈ t.esdFilterList, (t.player q).IsStream := by rwa [hlist, hplayer]
    have hapart : (t.esdFilterList.map fun q => (t.player q).sourceId).Nodup := by
      rw [hlist, hplayer]
      exact apart
    have hlisted : m ∈ t.esdFilterList := by rwa [hlist]
    obtain ⟨es, hes, hsent⟩ := filterLoop_sends cfg canRead size n hmodes hapart hlisted
    rw [hevents] at hes
    rw [writtenSince_of_events hes, ← hplayer]
    exact hsent

end Filters

/-! ## In the order of the client or not -/

/-- The octets taken of a block are the same in either order, or the client has the order of the
daemon. -/
def OrderMatters (swap : Bool) (bs : List Octet) (taken : ℕ) : Prop :=
  swap = true ∧ (exchangePairs bs).take taken ≠ bs.take taken

instance (swap : Bool) (bs : List Octet) (taken : ℕ) : Decidable (OrderMatters swap bs taken) :=
  inferInstanceAs (Decidable (_ ∧ _))

theorem take_inClientOrder_iff (swap : Bool) (bs : List Octet) (taken : ℕ) :
    bs.take taken = (inClientOrder swap bs).take taken ↔ ¬ OrderMatters swap bs taken := by
  cases swap with
  | false => simp [inClientOrder, OrderMatters]
  | true => simp [inClientOrder, OrderMatters, eq_comm]

def clientSwaps (s : Server) (p : Ptr) : Bool := (s.client (s.player p).parent).swapByteOrder

/-- A recorder is sent its block in the order of its client. -/
def RecorderInOrder (cfg : Config) (poll : RecorderPoll) (s : Server) (length : ℤ) (p : Ptr) : Prop :=
  writtenSince (s.player p).sourceId s (writePlayer cfg poll s p length).1 =
    (inClientOrder (clientSwaps s p) (blockOf cfg s p length)).take (takes s p).toNat

/-- A monitor is. -/
def MonitorInOrder (cfg : Config) (canWrite : Ptr → Bool) (s : Server) (length : ℤ) (p : Ptr) : Prop :=
  writtenSince (s.player p).sourceId s (monitorWrite cfg canWrite s length) =
    (inClientOrder (clientSwaps s p) (blockOf cfg s p (lengthFor canWrite s length p))).take
      (takes s p).toNat

/-- A filter is. -/
def FilterInOrder (cfg : Config) (canRead : Ptr → Bool) (s : Server) (size : ℤ) (p : Ptr) : Prop :=
  writtenSince (s.player p).sourceId s (filterWrite cfg canRead s size).1 =
    (inClientOrder (clientSwaps s p) (turnBlock p (turnOf cfg canRead s size p))).take
      (turnTaken p (turnOf cfg canRead s size p))

/-- At its turn the filter takes a block of its own size, and sends back what it was sent. -/
structure Echoes (s : Server) (turn : Server × ℤ) (p : Ptr) : Prop where
  empty : (s.player p).actualLength = 0
  room : (s.player p).bufferLength = turn.2
  pos : 0 < turn.2
  even : 2 ∣ turn.2
  taken : turnTaken p turn = turn.2.toNat
  reply : ∃ later, (turn.1.sockets (s.player p).sourceId).input = .data (turnBlock p turn) :: later

/-- The block is the same after the turn of the filter. -/
def EchoUnchanged (turn : Server × ℤ) (p : Ptr) : Prop :=
  turnBlock p ((filterExchange true turn.1 p turn.2).1, turn.2) = turnBlock p turn

section Orders

variable {cfg : Config} {s : Server} {p : Ptr}

theorem echo_unchanged_iff {turn : Server × ℤ} (bits : (s.player p).format &&& esdMaskBits = esdBits16)
    (mode : (s.player p).IsStream) (hwait : Awaits p s turn.1) (h : Echoes s turn p) :
    EchoUnchanged turn p ↔ ¬ OrderMatters (clientSwaps s p) (turnBlock p turn) turn.2.toNat := by
  obtain ⟨t, d⟩ := turn
  obtain ⟨empty, room, pos, even, taken, later, reply⟩ := h
  obtain ⟨n, rfl⟩ : ∃ n : ℕ, d = n := Int.eq_ofNat_of_zero_le pos.le
  dsimp only at hwait room pos even taken reply ⊢
  rw [Int.toNat_natCast] at taken ⊢
  obtain ⟨herase, hwrote⟩ := filterSend_wrote t p n
  simp only [EchoUnchanged, filterExchange]
  obtain ⟨⟨u, total, erase⟩, hu⟩ : ∃ r, filterSend t p n = r := ⟨_, rfl⟩
  rw [hu] at herase hwrote ⊢
  dsimp only at herase hwrote ⊢
  have hplayer : u.player p = s.player p := by
    rw [hwrote.rest]
    exact hwait.player
  have hclient : u.client = s.client := by
    rw [hwrote.rest]
    exact hwait.client
  have hinput : (u.sockets (u.player p).sourceId).input = .data (turnBlock p (t, n)) :: later := by
    rw [hplayer, ← reply, ← hwait.player]
    exact hwrote.input
  have hlen : (turnBlock p (t, n)).length = n := load_length _ _ _
  have hswaps : decide (Swaps u p) = clientSwaps s p := by
    simp [Swaps, hplayer, hclient, bits, clientSwaps]
  obtain ⟨hcount, hblock⟩ := readPlayer_reply (by rwa [hplayer]) (by rw [hplayer, empty])
    (by rw [hplayer, room]) (Int.natCast_pos.mp pos) hinput hlen fun _ => Int.natCast_dvd_natCast.mp even
  have hgoes : erase = false := by
    rw [herase]
    exact decide_eq_false (not_lt.mpr taken.ge)
  rw [hgoes, if_neg Bool.false_ne_true, if_pos (by rw [hcount]; exact Int.natCast_nonneg n)]
  have hkept : turnBlock p ((readPlayer true u p).1.setPlayer p
      { (readPlayer true u p).1.player p with actualLength :=
        ((readPlayer true u p).1.player p).actualLength - (readPlayer true u p).2 }, n) =
      inClientOrder (clientSwaps s p) (turnBlock p (t, n)) := by
    rw [← hswaps, ← hblock]
    rfl
  rw [hkept, ← take_inClientOrder_iff, List.take_of_length_le hlen.le,
    List.take_of_length_le (by rw [inClientOrder_length, hlen])]
  exact eq_comm

/-- A recorder is always sent the shorts of its block in the order of its client. A monitor and a
filter are exactly if that is the order of the daemon or the octets that are taken are the same in
either, and a filter that echoes leaves its block unchanged exactly then. -/
theorem client_order_iff (bits : (s.player p).format &&& esdMaskBits = esdBits16) :
    (∀ poll length f, ∀ n : ℕ, 0 < poll.ready → poll.eof = false →
      (s.player p).bufferLength = (formatOctets (s.player p).format * n : ℕ) →
      (s.player p).translateFunc = some f → length ≠ 0 → RecorderInOrder cfg poll s length p) ∧
    (∀ canWrite length, SocketsApart s .monitors → p ∈ s.esdMonitorList → canWrite p = true →
      (MonitorInOrder cfg canWrite s length p ↔
        ¬ OrderMatters (clientSwaps s p) (blockOf cfg s p (lengthFor canWrite s length p))
          (takes s p).toNat)) ∧
    ∀ canRead size, (∀ q ∈ s.esdFilterList, (s.player q).IsStream) → SocketsApart s .filters →
      p ∈ s.esdFilterList → s.esdFirstFilterFunc ≠ none →
      (FilterInOrder cfg canRead s size p ↔
        ¬ OrderMatters (clientSwaps s p) (turnBlock p (turnOf cfg canRead s size p))
          (turnTaken p (turnOf cfg canRead s size p))) ∧
      (Echoes s (turnOf cfg canRead s size p) p →
        (EchoUnchanged (turnOf cfg canRead s size p) p ↔
          ¬ OrderMatters (clientSwaps s p) (turnBlock p (turnOf cfg canRead s size p))
            (turnTaken p (turnOf cfg canRead s size p)))) := by
  refine ⟨fun poll length f n ready open_ hbuffer hfunc hlength => ?_,
    fun canWrite length apart listed ready => ?_, fun canRead size modes apart listed first => ⟨?_, ?_⟩⟩
  · have hswaps : decide (Swaps s p) = clientSwaps s p := by
      simp [Swaps, bits, clientSwaps]
    rw [RecorderInOrder, ← hswaps]
    exact writePlayer_sends ready open_ (.inr bits) hbuffer hfunc hlength
  · rw [MonitorInOrder, monitorWrite_sends cfg length apart listed ready]
    exact take_inClientOrder_iff _ _ _
  · rw [FilterInOrder, filterWrite_sends modes apart listed first]
    exact take_inClientOrder_iff _ _ _
  · intro h
    rw [h.taken]
    exact echo_unchanged_iff bits (modes p listed) (turnOf_awaits modes apart listed) h

end Orders

/-- A client of the opposite byte order monitors in 16 bits, and another one plays these octets. -/
def listeningRun (octets : List Octet) : List Action :=
  [.accept 1 5 (.sending
      [List.replicate esdKeyLen 7 ++ (Word.octets esdEndianKey).reverse, (Word.octets 5#32).reverse,
        (Word.octets (esdBits16 ||| esdStereo)).reverse ++ (Word.octets 44100#32).reverse ++
          nameArray []]),
    .poll 1 (.allocating 0), .poll 1 (.allocating 0), .poll 1 (.allocating 10),
    .accept 2 6 (.sending
      [handshake 7, Word.octets 3#32, streamParams (esdBits16 ||| esdStereo) 44100#32, octets]),
    .poll 2 (.allocating 0), .poll 2 (.allocating 0), .poll 2 (.allocating 11),
    .mix fun _ => true]

theorem listeningRun_same :
    (exec (step .smallBlocks) NoReset .blank (listeningRun (List.replicate 16 1))).isSome := by
  decide +kernel

/-- Shorts of two equal octets are the same in either order. -/
theorem client_order_iff_same : ∃ t,
    Runs .smallBlocks NoReset .blank (listeningRun (List.replicate 16 1)) t ∧
      t.esdMonitorList = [10] ∧ clientSwaps t 10 = true ∧
      MonitorInOrder .smallBlocks (fun _ => true) t 16 10 := by
  obtain ⟨t, hrun, hlist, hbits, hswaps, hmatters⟩ : ∃ t,
      Runs .smallBlocks NoReset .blank (listeningRun (List.replicate 16 1)) t ∧
        t.esdMonitorList = [10] ∧ (t.player 10).format &&& esdMaskBits = esdBits16 ∧
        clientSwaps t 10 = true ∧
        ¬ OrderMatters (clientSwaps t 10)
          (blockOf .smallBlocks t 10 (lengthFor (fun _ => true) t 16 10)) (takes t 10).toNat :=
    ⟨_, Run.of_isSome listeningRun_same, by decide +kernel, by decide +kernel, by decide +kernel,
      by decide +kernel⟩
  refine ⟨t, hrun, hlist, hswaps, ?_⟩
  have hiff : MonitorInOrder .smallBlocks (fun _ => true) t 16 10 ↔ _ :=
    (client_order_iff hbits).2.1 (fun _ => true) 16 (runs_socketsApart Server.blank_initial hrun (by decide))
      (by simp [hlist]) rfl
  exact hiff.mpr hmatters

theorem listeningRun_counting : (exec (step .smallBlocks) NoReset .blank
    (listeningRun ((List.range 16).map (BitVec.ofNat 8)))).isSome := by
  decide +kernel

/-- The monitor is sent the shorts in the order of the daemon. -/
theorem monitor_not_swapped : ∃ t,
    Runs .smallBlocks NoReset .blank (listeningRun ((List.range 16).map (BitVec.ofNat 8))) t ∧
      t.esdMonitorList = [10] ∧ (t.player 10).format &&& esdMaskBits = esdBits16 ∧
      clientSwaps t 10 = true ∧
      writtenSince 5 t (monitorWrite .smallBlocks (fun _ => true) t 16) =
        (List.range 16).map (BitVec.ofNat 8) ∧
      ¬ MonitorInOrder .smallBlocks (fun _ => true) t 16 10 := by
  obtain ⟨t, hrun, hlist, hbits, hswaps, hfd, hsent, horder⟩ : ∃ t,
      Runs .smallBlocks NoReset .blank (listeningRun ((List.range 16).map (BitVec.ofNat 8))) t ∧
        t.esdMonitorList = [10] ∧ (t.player 10).format &&& esdMaskBits = esdBits16 ∧
        clientSwaps t 10 = true ∧ (t.player 10).sourceId = 5 ∧
        writtenSince 5 t (monitorWrite .smallBlocks (fun _ => true) t 16) =
          (List.range 16).map (BitVec.ofNat 8) ∧
        (inClientOrder (clientSwaps t 10)
          (blockOf .smallBlocks t 10 (lengthFor (fun _ => true) t 16 10))).take (takes t 10).toNat ≠
            (List.range 16).map (BitVec.ofNat 8) :=
    ⟨_, Run.of_isSome listeningRun_counting, by decide +kernel, by decide +kernel, by decide +kernel,
      by decide +kernel, by decide +kernel, by decide +kernel⟩
  refine ⟨t, hrun, hlist, hbits, hswaps, hsent, fun h => horder ?_⟩
  rw [MonitorInOrder, hfd, hsent] at h
  exact h.symm

end Esound
