import Esound.Frames
import Esound.Uploads

/-!
# Uploads of the opposite byte order

The shorts of an upload are exchanged in place, read by read. Which of them a read
exchanges is computed from where it starts and from how much it brought, and what the
macro makes of a short depends on its sign.
-/

open Library.Buffer Library.Loop Library.Transition

namespace Esound

/-! ## The macro -/

/-- The low octet of a short in the place of its high one, with the sign the shift drags in. -/
def dragged (lo hi : Octet) : Octet := if hi.msb then BitVec.allOnes 8 else lo

/-- The octets of a block after the macro was applied to all its shorts. -/
def exchanged (m : Mem) (j : ℕ) : Octet :=
  if j % 2 = 0 then m (j + 1) else dragged (m (j - 1)) (m j)

def signedSwap (w : Short) : Short := (swapEndian16 (w.signExtend 32)).setWidth 16

theorem signedSwap_low (w : Short) :
    (signedSwap w).extractLsb' 0 8 = w.extractLsb' 8 8 := by
  apply BitVec.eq_of_getLsbD_eq
  intro i hi
  interval_cases i <;>
    simp [signedSwap, swapEndian16, BitVec.getElem_sshiftRight, BitVec.getElem_signExtend]

theorem signedSwap_high (w : Short) :
    (signedSwap w).extractLsb' 8 8 = dragged (w.extractLsb' 0 8) (w.extractLsb' 8 8) := by
  have hmsb : (w.extractLsb' 8 8).msb = w.msb := by
    simp [BitVec.msb_eq_getLsbD_last]
  apply BitVec.eq_of_getLsbD_eq
  intro i hi
  cases hsign : w.msb <;>
    interval_cases i <;>
      simp [signedSwap, swapEndian16, dragged, hmsb, hsign, BitVec.getElem_sshiftRight,
        BitVec.getElem_signExtend]

theorem swapShorts_at (m : Mem) (start stop j : ℕ) :
    swapShorts (fun x => x.signExtend 32) m start stop j =
      if start ≤ j / 2 ∧ j / 2 < stop then exchanged m j else m j := by
  have hoctet : shortOctet (signedSwap (m.shortWord (j / 2 : ℕ))) j = exchanged m j := by
    obtain ⟨hlow, hhigh⟩ := shortWord_octets m (j / 2)
    rw [shortOctet, exchanged, signedSwap_low, signedSwap_high, hlow, hhigh]
    split_ifs with heven
    · congr 1
      omega
    · congr 2 <;> omega
  have hstop : start ≤ j / 2 ∧ j / 2 < start + (stop - start) ↔ start ≤ j / 2 ∧ j / 2 < stop := by
    omega
  rw [← hoctet, swapShorts]
  refine (countUp_mapShorts signedSwap m start (stop - start) j).trans ?_
  simp only [hstop]

theorem dragged_eq_iff (lo hi : Octet) : dragged lo hi = lo ↔ hi.msb = false ∨ lo = BitVec.allOnes 8 := by
  cases hsign : hi.msb <;> simp [dragged, hsign, eq_comm]

/-! ## Read by read -/

/-- The short at `k` is one of those that are exchanged after a read, the reads being these and
the first of them starting at `total`. -/
def SwapsShort : ℕ → List (List Octet) → ℕ → Prop
  | _, [], _ => False
  | total, bs :: rest, k =>
    (total / 2 ≤ k ∧ k < bs.length / 2) ∨ SwapsShort (total + bs.length) rest k

instance decidableSwapsShort : (total : ℕ) → (pieces : List (List Octet)) → (k : ℕ) →
    Decidable (SwapsShort total pieces k)
  | _, [], _ => .isFalse id
  | total, bs :: rest, k =>
    haveI := decidableSwapsShort (total + bs.length) rest k
    inferInstanceAs (Decidable (_ ∨ _))

theorem SwapsShort.le {total k : ℕ} {pieces : List (List Octet)} (h : SwapsShort total pieces k) :
    total / 2 ≤ k := by
  induction pieces generalizing total with
  | nil => exact h.elim
  | cons bs rest ih =>
    rcases h with h | h
    · exact h.1
    · have := ih h
      omega

theorem SwapsShort.append {total k : ℕ} {pieces pieces' : List (List Octet)} :
    SwapsShort total (pieces ++ pieces') k ↔
      SwapsShort total pieces k ∨ SwapsShort (total + pieces.flatten.length) pieces' k := by
  induction pieces generalizing total with
  | nil => simp [SwapsShort]
  | cons bs rest ih =>
    simp only [List.cons_append, SwapsShort, ih, List.flatten_cons, List.length_append,
      Nat.add_assoc, or_assoc]

theorem store_congr_at {m m' : Mem} {off : ℤ} {block : List Octet} {j : ℕ} (h : m j = m' j) :
    store m off block j = store m' off block j := by
  simp only [store, h]

theorem exchanged_congr {m m' : Mem} {j : ℕ} (h : ∀ i, i / 2 = j / 2 → m i = m' i) :
    exchanged m j = exchanged m' j := by
  simp only [exchanged]
  split_ifs with heven
  · exact h (j + 1) (by omega)
  · rw [h (j - 1) (by omega), h j rfl]

section Pieces

variable {cl : EsdClient} {sm : EsdSample} (swap : cl.swapByteOrder = true)
  (bits : sm.format &&& esdMaskBits = esdBits16)

include swap bits

theorem storeSample_at (data : Mem) (total : ℕ) (bs : List Octet) (j : ℕ) :
    storeSample cl sm data total bs j =
      if total / 2 ≤ j / 2 ∧ j / 2 < bs.length / 2 then exchanged (store data total bs) j
      else store data total bs j := by
  have hstart : ((total : ℤ) / 2).toNat = total / 2 := by omega
  simp only [storeSample, swap, bits, and_self, if_true, hstart]
  exact swapShorts_at _ _ _ _

/-- A short is exchanged once at most, and by then both its octets are there. -/
theorem storePieces_at (data : Mem) (total : ℕ) (pieces : List (List Octet)) (j : ℕ) :
    storePieces cl sm data total pieces j =
      if SwapsShort total pieces (j / 2) then exchanged (store data total pieces.flatten) j
      else store data total pieces.flatten j := by
  induction pieces generalizing data total with
  | nil => simp [storePieces, SwapsShort]
  | cons bs rest ih =>
    have hnext := ih (storeSample cl sm data total bs) (total + bs.length)
    have hone := storeSample_at swap bits data total bs
    rw [Nat.cast_add] at hnext
    rw [storePieces, hnext, List.flatten_cons, ← store_store, Nat.cast_add]
    obtain ⟨m, hm⟩ : ∃ m, storeSample cl sm data total bs = m := ⟨_, rfl⟩
    obtain ⟨base, hbase⟩ : ∃ base, store data (total : ℤ) bs = base := ⟨_, rfl⟩
    rw [hm] at hone ⊢
    rw [hbase] at hone ⊢
    have hkept : ∀ i, ¬ (total / 2 ≤ i / 2 ∧ i / 2 < bs.length / 2) →
        store m ((total : ℤ) + bs.length) rest.flatten i =
          store base ((total : ℤ) + bs.length) rest.flatten i := by
      intro i hi
      exact store_congr_at (by rw [hone i, if_neg hi])
    have hfirst : ∀ m' : Mem, ∀ i, i / 2 < bs.length / 2 →
        store m' ((total : ℤ) + bs.length) rest.flatten i = m' i := by
      intro m' i hi
      exact store_before _ _ _ (by omega)
    by_cases hlater : SwapsShort (total + bs.length) rest (j / 2)
    · have hle := hlater.le
      have hswaps : SwapsShort total (bs :: rest) (j / 2) := .inr hlater
      rw [if_pos hlater, if_pos hswaps]
      exact exchanged_congr fun i hi => hkept i (by omega)
    · rw [if_neg hlater]
      by_cases hnow : total / 2 ≤ j / 2 ∧ j / 2 < bs.length / 2
      · have hswaps : SwapsShort total (bs :: rest) (j / 2) := .inl hnow
        rw [if_pos hswaps, hfirst m j hnow.2, hone j, if_pos hnow]
        exact exchanged_congr fun i hi => (hfirst base i (by omega)).symm
      · have hswaps : ¬ SwapsShort total (bs :: rest) (j / 2) := fun h => h.elim hnow hlater
        rw [if_neg hswaps, hkept j hnow]

end Pieces

/-! ## An upload -/

/-- The sample and what its buffer holds are left alone. -/
structure SameBuffer (q : Ptr) (s t : Server) : Prop where
  format : (t.sample q).format = (s.sample q).format
  sampleLength : (t.sample q).sampleLength = (s.sample q).sampleLength
  cachedLength : (t.sample q).cachedLength = (s.sample q).cachedLength
  data : t.sampleData q = s.sampleData q

/-- From `s` to `t` the sample was uploaded by a client of the opposite byte order in these reads,
in as many calls as it took and with anything between them that leaves the sample alone. -/
inductive Uploaded (cfg : Config) (q : Ptr) (s : Server) : List (List Octet) → Server → Prop
  | start : Uploaded cfg q s [] s
  | call {pieces : List (List Octet)} {t : Server} (h : Uploaded cfg q s pieces t)
      (opposite : (t.client (t.sample q).parent).swapByteOrder = true)
      (ok : (readSample cfg t q).2 = true) :
      Uploaded cfg q s (pieces ++ sampleReads cfg t q) (readSample cfg t q).1
  | between {pieces : List (List Octet)} {t u : Server} (h : Uploaded cfg q s pieces t)
      (same : SameBuffer q t u) : Uploaded cfg q s pieces u

/-- The octets with every two of them exchanged. -/
def exchangePairs : List Octet → List Octet
  | lo :: hi :: rest => hi :: lo :: exchangePairs rest
  | bs => bs

theorem storePieces_append (cl : EsdClient) (sm : EsdSample) (data : Mem) (total : ℤ)
    (pieces pieces' : List (List Octet)) :
    storePieces cl sm data total (pieces ++ pieces') =
      storePieces cl sm (storePieces cl sm data total pieces) (total + pieces.flatten.length)
        pieces' := by
  induction pieces generalizing data total with
  | nil => simp [storePieces]
  | cons bs rest ih =>
    simp only [List.cons_append, storePieces, ih, List.flatten_cons, List.length_append,
      Nat.cast_add, add_assoc]

theorem storePieces_congr {cl cl' : EsdClient} {sm sm' : EsdSample}
    (swap : cl.swapByteOrder = cl'.swapByteOrder) (format : sm.format = sm'.format) (data : Mem)
    (total : ℤ) (pieces : List (List Octet)) :
    storePieces cl sm data total pieces = storePieces cl' sm' data total pieces := by
  induction pieces generalizing data total with
  | nil => rfl
  | cons bs rest ih => simp only [storePieces, storeSample, swap, format, ih]

section Upload

variable {cfg : Config} {q : Ptr} {s t : Server} {pieces : List (List Octet)}

/-- What an upload has come to. -/
structure Arrived (q : Ptr) (s : Server) (pieces : List (List Octet)) (t : Server) : Prop where
  format : (t.sample q).format = (s.sample q).format
  sampleLength : (t.sample q).sampleLength = (s.sample q).sampleLength
  cachedLength : (t.sample q).cachedLength = (s.sample q).cachedLength + pieces.flatten.length
  data : ∀ cl : EsdClient, cl.swapByteOrder = true →
    t.sampleData q = storePieces cl (s.sample q) (s.sampleData q) (s.sample q).cachedLength pieces

theorem Uploaded.arrived (h : Uploaded cfg q s pieces t) : Arrived q s pieces t := by
  induction h with
  | start => exact ⟨rfl, rfl, by simp, fun _ _ => rfl⟩
  | between h same ih =>
    exact ⟨same.format.trans ih.format, same.sampleLength.trans ih.sampleLength,
      same.cachedLength.trans ih.cachedLength, fun cl hcl => same.data.trans (ih.data cl hcl)⟩
  | @call pieces t h opposite ok ih =>
    have hreads := readSample_reads cfg t q
    have hsample := congrFun (congrArg Server.sample hreads.rest) q
    simp only [Function.update_self] at hsample
    have hdone := hreads.done ok
    refine ⟨?_, ?_, ?_, fun cl hcl => ?_⟩
    · rw [hsample]
      exact ih.format
    · rw [hsample]
      exact ih.sampleLength
    · rw [hdone, ih.cachedLength, List.flatten_append, List.length_append, Nat.cast_add, add_assoc]
    · have hdata := congrFun hreads.data q
      rw [Function.update_self] at hdata
      rw [hdata, storePieces_append, ← ih.data cl hcl, ← ih.cachedLength]
      exact storePieces_congr (opposite.trans hcl.symm) ih.format _ _ _

end Upload

theorem exchangePairs_length (bs : List Octet) : (exchangePairs bs).length = bs.length := by
  fun_induction exchangePairs bs with
  | case1 lo hi rest ih => simp [ih]
  | case2 => rfl

theorem exchangePairs_get (bs : List Octet) (k : ℕ) (hk : 2 * k + 1 < bs.length) :
    (exchangePairs bs)[2 * k]? = bs[2 * k + 1]? ∧ (exchangePairs bs)[2 * k + 1]? = bs[2 * k]? := by
  fun_induction exchangePairs bs generalizing k with
  | case1 lo hi rest ih =>
    cases k with
    | zero => simp
    | succ k =>
      have hrest := ih k (by simp only [List.length_cons] at hk; omega)
      simpa [Nat.mul_add, Nat.add_right_comm] using hrest
  | case2 bs hshort =>
    exfalso
    match bs with
    | [] => simp at hk
    | [b] => simp at hk
    | lo :: hi :: rest => exact hshort lo hi rest rfl

/-- A block holds octets with every two exchanged if each two are in the place of each other. -/
theorem load_eq_exchangePairs_iff (m : Mem) (bs : List Octet) (even : 2 ∣ bs.length) :
    load m 0 bs.length = exchangePairs bs ↔
      ∀ k, 2 * k + 1 < bs.length →
        bs[2 * k + 1]? = some (m (2 * k)) ∧ bs[2 * k]? = some (m (2 * k + 1)) := by
  have hload : ∀ j < bs.length, (load m 0 bs.length)[j]? = some (m j) := by
    intro j hj
    simp [load, hj]
  constructor
  · intro h k hk
    obtain ⟨hlow, hhigh⟩ := exchangePairs_get bs k hk
    rw [← hlow, ← hhigh, ← h]
    exact ⟨hload _ (by omega), hload _ hk⟩
  · intro h
    apply List.ext_getElem?
    intro j
    by_cases hj : j < bs.length
    · rw [hload j hj]
      obtain ⟨k, hk⟩ : ∃ k, j / 2 = k := ⟨_, rfl⟩
      have hpair : 2 * k + 1 < bs.length := by omega
      obtain ⟨hlow, hhigh⟩ := exchangePairs_get bs k hpair
      obtain ⟨hm, hm'⟩ := h k hpair
      rcases Nat.mod_two_eq_zero_or_one j with heven | hodd
      · have hjk : j = 2 * k := by omega
        rw [hjk, hlow, hm]
      · have hjk : j = 2 * k + 1 := by omega
        rw [hjk, hhigh, hm']
    · rw [List.getElem?_eq_none (by rw [load_length]; omega),
        List.getElem?_eq_none (by rw [exchangePairs_length]; omega)]

/-- An upload of shorts in the opposite order is right exactly if each short whose octets differ was
exchanged after the read that completed it, and none of those that were had its sign in the
way. -/
theorem opposite_upload_iff {cfg : Config} {q : Ptr} {s t : Server} {pieces : List (List Octet)}
    (h : Uploaded cfg q s pieces t) (hstart : (s.sample q).cachedLength = 0)
    (bits : (s.sample q).format &&& esdMaskBits = esdBits16)
    (even : 2 ∣ (s.sample q).sampleLength)
    (complete : (t.sample q).cachedLength = (t.sample q).sampleLength) :
    load (t.sampleData q) 0 (s.sample q).sampleLength.toNat = exchangePairs pieces.flatten ↔
      ∀ k, ∀ hk : 2 * k + 1 < pieces.flatten.length,
        if SwapsShort 0 pieces k then
          (pieces.flatten[2 * k + 1]).msb = false ∨ pieces.flatten[2 * k] = BitVec.allOnes 8
        else pieces.flatten[2 * k] = pieces.flatten[2 * k + 1] := by
  have harrived := h.arrived
  have hlen : (s.sample q).sampleLength = pieces.flatten.length := by
    rw [← harrived.sampleLength, ← complete, harrived.cachedLength, hstart, zero_add]
  have hlen' : (s.sample q).sampleLength.toNat = pieces.flatten.length := by omega
  have heven : 2 ∣ pieces.flatten.length := by omega
  have hdata := harrived.data { s.client 0 with swapByteOrder := true } rfl
  rw [hstart] at hdata
  have hat : ∀ j, t.sampleData q j =
      if SwapsShort 0 pieces (j / 2) then exchanged (store (s.sampleData q) 0 pieces.flatten) j
      else store (s.sampleData q) 0 pieces.flatten j := by
    intro j
    rw [hdata]
    exact storePieces_at rfl bits _ 0 pieces j
  have hup : ∀ j, ∀ hj : j < pieces.flatten.length,
      store (s.sampleData q) 0 pieces.flatten j = pieces.flatten[j] := by
    intro j hj
    have hcell := store_at (s.sampleData q) 0 pieces.flatten hj
    rwa [Nat.zero_add] at hcell
  rw [hlen', load_eq_exchangePairs_iff _ _ heven]
  refine forall_congr' fun k => forall_congr' fun hk => ?_
  have hlow := hat (2 * k)
  have hhigh := hat (2 * k + 1)
  have hk₀ : 2 * k / 2 = k := by omega
  have hk₁ : (2 * k + 1) / 2 = k := by omega
  have hodd : ¬ (2 * k + 1) % 2 = 0 := by omega
  rw [hk₀] at hlow
  rw [hk₁] at hhigh
  simp only [exchanged, Nat.mul_mod_right, if_true, hodd, if_false, Nat.add_sub_cancel,
    hup (2 * k) (by omega), hup (2 * k + 1) hk] at hlow hhigh
  rw [hlow, hhigh, List.getElem?_eq_getElem hk, List.getElem?_eq_getElem (by omega : 2 * k < _)]
  split_ifs with hswaps
  · rw [← dragged_eq_iff]
    simp [eq_comm]
  · simp only [Option.some.injEq]
    exact ⟨fun h => h.2, fun h => ⟨h.symm, h⟩⟩

/-- An upload of four octets has begun, and these reads are to come. -/
def uploading (pieces : List (List Octet)) : Server :=
  { Server.blank with
    esdClientsList := [1]
    client := fun _ => ⟨.cachingSample, 6#32, 5, true, fun _ => 0, 0⟩
    esdSamplesList := [2]
    sample := fun _ => ⟨1, esdBits16 ||| esdMono, 44100, 256, 256, 1, 4, 0, 0, false, []⟩
    sockets := fun _ => .sending pieces }

/-- Everything in one read, and no short is negative. -/
theorem opposite_upload_iff_whole :
    load ((readSample .smallBlocks (uploading [[1, 2, 3, 4]]) 2).1.sampleData 2) 0 4 = [2, 1, 4, 3] := by
  have hup : Uploaded .smallBlocks 2 (uploading [[1, 2, 3, 4]])
      (sampleReads .smallBlocks (uploading [[1, 2, 3, 4]]) 2)
      (readSample .smallBlocks (uploading [[1, 2, 3, 4]]) 2).1 :=
    .call .start (by decide) (by decide +kernel)
  have hreads : sampleReads .smallBlocks (uploading [[1, 2, 3, 4]]) 2 = [[1, 2, 3, 4]] := by
    decide +kernel
  rw [hreads] at hup
  refine (opposite_upload_iff hup (by decide) (by decide) (by decide) (by decide +kernel)).mpr ?_
  intro k hk
  have hk₂ : k < 2 := by
    simp only [List.flatten_cons, List.flatten_nil, List.append_nil, List.length_cons,
      List.length_nil] at hk
    omega
  interval_cases k <;> decide +revert

/-- A client of the opposite byte order sends a sample of eight octets in two reads. -/
def oppositeRun : List Action :=
  [.accept 1 5 (.sending
      [List.replicate esdKeyLen 7 ++ (Word.octets esdEndianKey).reverse,
        (Word.octets 6#32).reverse,
        (Word.octets (esdBits16 ||| esdMono)).reverse ++ (Word.octets 44100#32).reverse ++
          (Word.octets 8#32).reverse ++ nameArray [],
        [1, 2, 3, 4], [5, 6, 7, 8]]),
    .poll 1 (.allocating 0), .poll 1 (.allocating 0), .poll 1 (.allocating 2)]

theorem oppositeRun_ends : (exec (step .smallBlocks) NoReset .blank oppositeRun).isSome := by
  decide +kernel

/-- The shorts of the second read stay as they came. -/
theorem second_read_not_swapped :
    ∃ t, Runs .smallBlocks NoReset .blank oppositeRun t ∧ t.esdSamplesList = [2] ∧
      (t.client 1).swapByteOrder = true ∧ (t.sample 2).format &&& esdMaskBits = esdBits16 ∧
      (t.sample 2).sampleLength = 8 ∧ (t.sample 2).cachedLength = 8 ∧
      load (t.sampleData 2) 0 8 = [2, 1, 4, 3, 5, 6, 7, 8] ∧
      load (t.sampleData 2) 0 8 ≠ exchangePairs [1, 2, 3, 4, 5, 6, 7, 8] :=
  ⟨_, Run.of_isSome oppositeRun_ends, by decide +kernel, by decide +kernel, by decide +kernel,
    by decide +kernel, by decide +kernel, by decide +kernel, by decide +kernel⟩

end Esound
