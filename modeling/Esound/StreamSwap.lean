import Esound.Outgoing

/-!
# Streams of the opposite byte order

What is read of a stream is put behind what its player has left, and the shorts that came are
exchanged. Their place is counted from the start of the buffer, once by the octet and once, for
the exchange, by the short.
-/

open Library.Buffer Library.Loop Library.Transition

namespace Esound

/-- The octets that the loop of the exchange reads and writes. -/
def swapOffsets (pl : EsdPlayer) (actual : ℤ) : List ℕ :=
  (List.range (actual / 2).toNat).flatMap fun k =>
    [2 * (pl.actualLength.toNat + k), 2 * (pl.actualLength.toNat + k) + 1]

theorem swapStream_offsets (cl : EsdClient) (pl : EsdPlayer) (data : Mem) (actual : ℤ) {i : ℕ}
    (hi : i ∉ swapOffsets pl actual) : swapStream cl pl data actual i = data i := by
  simp only [swapStream]
  split_ifs
  · rw [swapWords_at, if_neg]
    rintro ⟨hlow, hhigh⟩
    apply hi
    rw [swapOffsets, List.mem_flatMap]
    refine ⟨i / 2 - pl.actualLength.toNat, List.mem_range.mpr (by omega), ?_⟩
    simp only [List.mem_cons, List.not_mem_nil, or_false]
    omega
  · rfl

/-- The octets that came are in the buffer with the two of every short exchanged, the others are
as they were, and the exchange kept to the buffer. -/
structure ReadSwapped (s t : Server) (p : Ptr) (octets : List Octet) : Prop where
  before : ∀ i : ℕ, i < (s.player p).actualLength → t.playerData p i = s.playerData p i
  came : load (t.playerData p) (s.player p).actualLength octets.length = exchangePairs octets
  behind : ∀ i : ℕ, (s.player p).bufferLength ≤ i → t.playerData p i = s.playerData p i
  inside : ∀ i ∈ swapOffsets (s.player p) octets.length, i < (s.player p).bufferLength

section Reading

variable {s : Server} {p : Ptr} {octets : List Octet}

theorem readPlayer_full (mode : (s.player p).IsStream)
    (room : (s.player p).actualLength < (s.player p).bufferLength)
    (came : ((s.sockets (s.player p).sourceId).read
      ((s.player p).bufferLength - (s.player p).actualLength)).1 = .data octets)
    (hfull : (octets.length : ℤ) = (s.player p).bufferLength - (s.player p).actualLength) :
    (readPlayer true s p).1.playerData p =
      swapStream (s.client (s.player p).parent) (s.player p)
        (store (s.playerData p) (s.player p).actualLength octets) octets.length := by
  have hhangup : ¬ (ReadResult.data octets).Hangup :=
    ReadResult.not_hangup_data (List.ne_nil_of_length_pos (by omega))
  have hhear : (hearStream s p).2 = .data octets := came
  have hdata : (hearStream s p).1.playerData p =
      store (s.playerData p) (s.player p).actualLength octets := by
    simp [hearStream, Server.sysRead, Server.setPlayerData, Server.emit, came, ReadResult.octets]
  have hclient : (hearStream s p).1.client = s.client := rfl
  simp only [readPlayer, mode, if_true, readStream, room, and_self, hhear, hhangup, if_false,
    ReadResult.count, hfull, lt_irrefl, hdata, hclient]
  exact Function.update_self _ _ _

variable (even : 2 ∣ (s.player p).actualLength)
  (whole : 4 ∣ (s.player p).bufferLength) (nonneg : 0 ≤ (s.player p).actualLength)
  (hfull : (octets.length : ℤ) = (s.player p).bufferLength - (s.player p).actualLength)

include even whole nonneg hfull

/-- With something left and something to come, the exchange leaves the buffer. -/
theorem swapOffsets_outside (left : (s.player p).actualLength ≠ 0)
    (room : (s.player p).actualLength < (s.player p).bufferLength) :
    ∃ i ∈ swapOffsets (s.player p) octets.length, (s.player p).bufferLength ≤ i := by
  obtain ⟨a, ha⟩ : ∃ a : ℕ, (s.player p).actualLength = 2 * a :=
    ⟨((s.player p).actualLength / 2).toNat, by omega⟩
  refine ⟨2 * (2 * a + (octets.length / 2 - 1)) + 1, ?_, by omega⟩
  rw [swapOffsets, List.mem_flatMap]
  refine ⟨octets.length / 2 - 1, List.mem_range.mpr (by omega), ?_⟩
  simp only [List.mem_cons, List.not_mem_nil, or_false]
  omega

/-- A read that fills the buffer exchanges what came, and nothing else, exactly if there was
nothing left or there was nothing to come. -/
theorem stream_swap_iff (mode : (s.player p).IsStream) (swaps : Swaps s p)
    (hle : (s.player p).actualLength ≤ (s.player p).bufferLength)
    (came : (s.player p).actualLength < (s.player p).bufferLength →
      ((s.sockets (s.player p).sourceId).read
        ((s.player p).bufferLength - (s.player p).actualLength)).1 = .data octets) :
    ReadSwapped s (readPlayer true s p).1 p octets ↔
      (s.player p).actualLength = 0 ∨ (s.player p).actualLength = (s.player p).bufferLength := by
  constructor
  · intro h
    by_contra hneither
    push Not at hneither
    obtain ⟨i, hi, hout⟩ := swapOffsets_outside even whole nonneg hfull hneither.1
      (lt_of_le_of_ne hle hneither.2)
    exact absurd (h.inside i hi) (not_lt.mpr hout)
  intro h
  by_cases hroom : (s.player p).actualLength < (s.player p).bufferLength
  · have hempty : (s.player p).actualLength = 0 := h.resolve_right hroom.ne
    have hdata := readPlayer_full mode hroom (came hroom) hfull
    have heven : 2 ∣ octets.length := by omega
    have hhalf : 0 + ((octets.length : ℤ) / 2).toNat = octets.length / 2 := by omega
    have hswap : (readPlayer true s p).1.playerData p = swapShorts (fun x => x.setWidth 32)
        (store (s.playerData p) 0 octets) 0 (octets.length / 2) := by
      rw [Swaps] at swaps
      rw [hdata, swapStream, if_pos swaps, hempty, Int.toNat_zero, hhalf]
    refine ⟨fun i hi => by omega, ?_, fun i hi => ?_, fun i hi => ?_⟩
    · have hstored := load_store_self (s.playerData p) 0 octets
      rw [Nat.cast_zero] at hstored
      rw [hempty, hswap, load_swapWords _ heven, hstored]
    · rw [hswap, swapWords_at, if_neg (by omega), store_after _ _ _ (by omega)]
    · rw [swapOffsets, List.mem_flatMap] at hi
      obtain ⟨k, hk, hik⟩ := hi
      rw [List.mem_range] at hk
      simp only [List.mem_cons, List.not_mem_nil, or_false] at hik
      omega
  · have hfilled : (s.player p).actualLength = (s.player p).bufferLength := le_antisymm hle (not_lt.mp hroom)
    have hnone : octets = [] := List.length_eq_zero_iff.mp (by omega)
    have hkept : (readPlayer true s p).1 = s := by
      simp only [readPlayer, mode, if_true, readStream, hroom, false_and, if_false]
    rw [hkept, hnone]
    exact ⟨fun _ _ => rfl, rfl, fun _ _ => rfl, fun i hi => by simp [swapOffsets] at hi⟩

end Reading

/-- A client of the opposite byte order plays a stream, and another one a slower stream. -/
def oppositeStreamRun (more : List Octet) : List Action :=
  [.accept 1 5 (.sending
      [List.replicate esdKeyLen 7 ++ (Word.octets esdEndianKey).reverse,
        (Word.octets 3#32).reverse,
        (Word.octets (esdBits16 ||| esdStereo)).reverse ++ (Word.octets 44100#32).reverse ++
          nameArray [],
        (List.range 16).map (BitVec.ofNat 8), more]),
    .poll 1 (.allocating 0), .poll 1 (.allocating 0), .poll 1 (.allocating 10),
    .accept 2 6 (.sending [handshake 7, Word.octets 3#32,
      streamParams (esdBits16 ||| esdStereo) 22049#32, [1, 2, 3, 4]]),
    .poll 2 (.allocating 0), .poll 2 (.allocating 0), .poll 2 (.allocating 11)]

theorem oppositeStreamRun_starts :
    (exec (step .smallBlocks) NoReset .blank (oppositeStreamRun [])).isSome := by
  decide +kernel

theorem stream_swap_iff_first : ∃ t, Runs .smallBlocks NoReset .blank (oppositeStreamRun []) t ∧
    ReadSwapped t (readPlayer true t 10).1 10 ((List.range 16).map (BitVec.ofNat 8)) := by
  refine ⟨_, Run.of_isSome oppositeStreamRun_starts, ?_⟩
  rw [stream_swap_iff (by decide +kernel) (by decide +kernel) (by decide +kernel) (by decide +kernel)
    (by decide +kernel) (by decide +kernel) (by decide +kernel) fun _ => by decide +kernel]
  exact .inl (by decide +kernel)

theorem oppositeStreamRun_mixes : (exec (step .smallBlocks) NoReset .blank
    (oppositeStreamRun (List.range 12 |>.map (BitVec.ofNat 8)) ++ [.mix fun _ => true])).isSome := by
  decide +kernel

/-- After a cycle that left a frame, what comes next is not exchanged, and octets behind the end
of the buffer are. -/
theorem next_read_not_swapped : ∃ t, Runs .smallBlocks NoReset .blank
    (oppositeStreamRun (List.range 12 |>.map (BitVec.ofNat 8)) ++ [.mix fun _ => true]) t ∧
      (t.player 10).actualLength = 4 ∧ (t.player 10).bufferLength = 16 ∧
      load ((readPlayer true t 10).1.playerData 10) 4 4 = [0, 1, 2, 3] ∧
      (swapOffsets (t.player 10) 12).getLast? = some 19 ∧
      ¬ ReadSwapped t (readPlayer true t 10).1 10 (List.range 12 |>.map (BitVec.ofNat 8)) := by
  obtain ⟨t, hrun, hleft, hlength, hdata, hlast⟩ : ∃ t, Runs .smallBlocks NoReset .blank
      (oppositeStreamRun (List.range 12 |>.map (BitVec.ofNat 8)) ++ [.mix fun _ => true]) t ∧
      (t.player 10).actualLength = 4 ∧ (t.player 10).bufferLength = 16 ∧
      load ((readPlayer true t 10).1.playerData 10) 4 4 = [0, 1, 2, 3] ∧
      (swapOffsets (t.player 10) 12).getLast? = some 19 :=
    ⟨_, Run.of_isSome oppositeStreamRun_mixes, by decide +kernel, by decide +kernel,
      by decide +kernel, by decide +kernel⟩
  refine ⟨t, hrun, hleft, hlength, hdata, hlast, fun h => ?_⟩
  have hinside := h.inside 19 (List.mem_of_getLast? hlast)
  omega

end Esound
