import Esound.Library.Delivery
import Esound.State

/-!
# Writes that are not taken whole

`write_timeout` of the client library and the writing of a block to the device. What `poll`,
`select` and `write` come to is given, call by call; a loop that has come to the end of that has
not returned.
-/

open Library.Delivery

namespace Esound

def eintr : ℤ := 4
def eagain : ℤ := 11
def etimedout : ℤ := 110

def oNonblock : Word := 0x800#32

def pollout : Word := 0x4#32
def pollerr : Word := 0x8#32
def pollhup : Word := 0x10#32

/-- What a call of `poll` for the one descriptor comes to. -/
inductive PollResult
  | ready (revents : Word)
  | timedOut
  | failed (errno : ℤ)
  deriving DecidableEq

/-- What a call of `write` comes to; it never takes more than it was given. -/
inductive WriteResult
  | accepted (n : ℕ)
  | failed (errno : ℤ)
  deriving DecidableEq

/-- A descriptor with its status flags and the pieces that `write` has taken. -/
structure Descriptor where
  statusFlags : Word
  taken : List (List Octet)
  deriving DecidableEq

namespace Descriptor

def setfl (fd : Descriptor) (flags : Word) : Descriptor := { fd with statusFlags := flags }

def write (fd : Descriptor) (piece : List Octet) : Descriptor := { fd with taken := fd.taken ++ [piece] }

@[simp] theorem setfl_statusFlags (fd : Descriptor) (flags : Word) : (fd.setfl flags).statusFlags = flags := rfl

@[simp] theorem setfl_taken (fd : Descriptor) (flags : Word) : (fd.setfl flags).taken = fd.taken := rfl

@[simp] theorem write_taken (fd : Descriptor) (piece : List Octet) :
    (fd.write piece).taken = fd.taken ++ [piece] := rfl

end Descriptor

/-- What a function that writes returns, and leaves. -/
structure Written where
  result : ℤ
  errno : Option ℤ
  fd : Descriptor
  deriving DecidableEq

/-! ## `write_timeout` -/

/-- `do n = write (..) while (n == -1 && errno == EINTR)`. -/
def writeRetrying : List WriteResult → Option (WriteResult × List WriteResult)
  | [] => none
  | .failed errno :: writes => if errno = eintr then writeRetrying writes else some (.failed errno, writes)
  | .accepted n :: writes => some (.accepted n, writes)

/-- Both loops around `poll` in one: an interrupted call is made again. -/
def writeTimeoutLoop (flags : Word) (buf : List Octet) :
    List PollResult → List WriteResult → Descriptor → ℕ → Option Written
  | [], _, _, _ => none
  | .failed errno :: polls, writes, fd, nwritten =>
    if errno = eintr ∨ errno = eagain then writeTimeoutLoop flags buf polls writes fd nwritten
    else some ⟨-1, some etimedout, fd.setfl flags⟩
  | .timedOut :: _, _, fd, _ => some ⟨-1, some etimedout, fd.setfl flags⟩
  | .ready revents :: polls, writes, fd, nwritten =>
    if revents &&& (pollerr ||| pollhup ||| pollout) ≠ pollout then
      some ⟨-1, some etimedout, fd.setfl flags⟩
    else
      match writeRetrying writes with
      | none => none
      | some (.failed errno, _) => some ⟨-1, some errno, fd.setfl flags⟩
      | some (.accepted n, writes) =>
        let n := min n (buf.length - nwritten)
        let fd := fd.write ((buf.drop nwritten).take n)
        let nwritten := nwritten + n
        if nwritten < buf.length then writeTimeoutLoop flags buf polls writes fd nwritten
        else some ⟨nwritten, none, fd.setfl flags⟩

/-- `getfl` is what `fcntl (fd, F_GETFL)` fails with, if it does. -/
def writeTimeout (fd : Descriptor) (getfl : Option ℤ) (buf : List Octet) (polls : List PollResult)
    (writes : List WriteResult) : Option Written :=
  match getfl with
  | some errno => some ⟨-1, some errno, fd⟩
  | none =>
    let flags := fd.statusFlags
    let fd := fd.setfl (flags ||| oNonblock)
    writeTimeoutLoop flags buf polls writes fd 0

/-! ## `esd_audio_write` -/

/-- What `select` for the device comes to. -/
inductive SelectResult
  | ready
  | timedOut
  | failed
  deriving DecidableEq

/-- The local variables, and the device. -/
structure AudioWrite where
  pos : ℤ
  writeSize : ℤ
  fd : Descriptor

/-- No more than is left. -/
def AudioWrite.shrink (bufSize : ℤ) (w : AudioWrite) : AudioWrite :=
  if bufSize - w.pos < w.writeSize then { w with writeSize := bufSize - w.pos } else w

/-- The way out when `select` or `write` has failed. -/
def AudioWrite.stopped (errno : Option ℤ) (w : AudioWrite) : Written :=
  ⟨if w.pos > 0 then w.pos else -1, errno, w.fd⟩

/-- A round of the loop is given what `select` would come to, which is only called where it works,
and what `write` would. -/
def audioWriteLoop (selectWorks : Bool) (buffer : List Octet) :
    List (SelectResult × WriteResult) → AudioWrite → Option Written
  | [], w => if buffer.length - w.pos > 0 then none else some ⟨w.pos, none, w.fd⟩
  | (selected, written) :: rounds, w =>
    if buffer.length - w.pos > 0 then
      let w := w.shrink buffer.length
      if selectWorks ∧ selected = .timedOut then audioWriteLoop selectWorks buffer rounds w
      else if selectWorks ∧ selected = .failed then some (w.stopped none)
      else
        match written with
        | .failed errno =>
          if errno = eagain ∨ errno = eintr then audioWriteLoop selectWorks buffer rounds w
          else some (w.stopped (some errno))
        | .accepted n =>
          let n := min n w.writeSize.toNat
          audioWriteLoop selectWorks buffer rounds
            { w with pos := w.pos + n, fd := w.fd.write ((buffer.drop w.pos.toNat).take n) }
    else some ⟨w.pos, none, w.fd⟩

def esdAudioWrite (selectWorks : Bool) (esdWriteSize : ℤ) (fd : Descriptor) (buffer : List Octet)
    (rounds : List (SelectResult × WriteResult)) : Option Written :=
  audioWriteLoop selectWorks buffer rounds ⟨0, esdWriteSize, fd⟩

/-! ## What was delivered -/

section Loops

variable {flags : Word} {buf : List Octet} {polls : List PollResult} {writes : List WriteResult}
  {fd : Descriptor} {nwritten : ℕ} {r : Written}

/-- What a function that writes has delivered when it returns: a beginning of the buffer, and all
of it exactly if it returns the length of the buffer. -/
def Delivers (buf : List Octet) (fd : Descriptor) (r : Written) : Prop :=
  ∃ pieces pos, r.fd.taken = fd.taken ++ pieces ∧ Delivered buf pieces pos ∧
    (r.result = buf.length ↔ pos = buf.length)

theorem delivers_failed {pieces : List (List Octet)} {errno : Option ℤ} {fd' : Descriptor}
    (htaken : fd'.taken = fd.taken ++ pieces) (hdelivered : Delivered buf pieces nwritten)
    (hmore : nwritten < buf.length) : Delivers buf fd ⟨-1, errno, fd'⟩ :=
  ⟨pieces, nwritten, htaken, hdelivered, by
    dsimp only
    omega⟩

theorem writeTimeoutLoop_delivers {fd' : Descriptor} {pieces : List (List Octet)}
    (htaken : fd'.taken = fd.taken ++ pieces) (hdelivered : Delivered buf pieces nwritten)
    (hmore : nwritten < buf.length) (h : writeTimeoutLoop flags buf polls writes fd' nwritten = some r) :
    Delivers buf fd r ∧ r.fd.statusFlags = flags := by
  induction polls generalizing writes fd' nwritten pieces with
  | nil => cases h
  | cons poll polls ih =>
    have hfail : ∀ errno, Delivers buf fd ⟨-1, errno, fd'.setfl flags⟩ := fun _ =>
      delivers_failed htaken hdelivered hmore
    cases poll with
    | failed errno =>
      simp only [writeTimeoutLoop] at h
      split_ifs at h
      · exact ih htaken hdelivered hmore h
      · cases h
        exact ⟨hfail _, rfl⟩
    | timedOut =>
      cases h
      exact ⟨hfail _, rfl⟩
    | ready revents =>
      simp only [writeTimeoutLoop] at h
      split_ifs at h
      · cases h
        exact ⟨hfail _, rfl⟩
      · split at h
        · cases h
        · cases h
          exact ⟨hfail _, rfl⟩
        · rename_i n writes' _
          obtain ⟨k, hk⟩ : ∃ k, min n (buf.length - nwritten) = k := ⟨_, rfl⟩
          have hone : Delivered buf (pieces ++ [(buf.drop nwritten).take k]) (nwritten + k) :=
            hdelivered.accept (hk ▸ min_le_right _ _)
          have hnow : (fd'.write ((buf.drop nwritten).take k)).taken =
              fd.taken ++ (pieces ++ [(buf.drop nwritten).take k]) := by
            rw [Descriptor.write_taken, htaken, List.append_assoc]
          rw [hk] at h
          split_ifs at h with hrest
          · exact ih hnow hone hrest h
          · cases h
            have hle := hone.le
            refine ⟨⟨_, _, hnow, hone, ?_⟩, rfl⟩
            exact Nat.cast_inj

/-- The device was given the buffer up to the position of the loop. -/
def AudioWrite.Reached (buf : List Octet) (fd : Descriptor) (w : AudioWrite) : Prop :=
  ∃ pieces pos, w.fd.taken = fd.taken ++ pieces ∧ Delivered buf pieces pos ∧ w.pos = (pos : ℕ)

/-- The position is returned, or -1 at the very beginning. -/
def DeliversPrefix (buf : List Octet) (fd : Descriptor) (r : Written) : Prop :=
  ∃ pieces pos, r.fd.taken = fd.taken ++ pieces ∧ Delivered buf pieces pos ∧
    r.result = if pos = 0 then -1 else (pos : ℤ)

namespace AudioWrite

variable {w : AudioWrite}

theorem shrink_reached (h : w.Reached buf fd) (bufSize : ℤ) :
    (w.shrink bufSize).Reached buf fd ∧ (w.shrink bufSize).pos = w.pos ∧
      (w.shrink bufSize).writeSize ≤ bufSize - w.pos := by
  simp only [shrink]
  split_ifs with hless
  · exact ⟨h, rfl, le_rfl⟩
  · exact ⟨h, rfl, not_lt.mp hless⟩

theorem Reached.stopped (h : w.Reached buf fd) (errno : Option ℤ) :
    DeliversPrefix buf fd (w.stopped errno) := by
  obtain ⟨pieces, pos, htaken, hdelivered, hpos⟩ := h
  refine ⟨pieces, pos, htaken, hdelivered, ?_⟩
  simp only [AudioWrite.stopped, hpos]
  split_ifs <;> omega

theorem Reached.finished (h : w.Reached buf fd) (hbuf : 0 < buf.length)
    (hdone : ¬ (buf.length : ℤ) - w.pos > 0) : DeliversPrefix buf fd ⟨w.pos, none, w.fd⟩ := by
  obtain ⟨pieces, pos, htaken, hdelivered, hpos⟩ := h
  have hnot : pos ≠ 0 := by omega
  exact ⟨pieces, pos, htaken, hdelivered, by rw [if_neg hnot, hpos]⟩

theorem Reached.accept (h : w.Reached buf fd) {n : ℕ} (hn : (n : ℤ) ≤ buf.length - w.pos) :
    Reached buf fd { w with pos := w.pos + n, fd := w.fd.write ((buf.drop w.pos.toNat).take n) } := by
  obtain ⟨pieces, pos, htaken, hdelivered, hpos⟩ := h
  have hone : Delivered buf (pieces ++ [(buf.drop pos).take n]) (pos + n) :=
    hdelivered.accept (by omega)
  refine ⟨_, _, ?_, hone, ?_⟩
  · simp only [Descriptor.write_taken, htaken, hpos, Int.toNat_natCast, List.append_assoc]
  · simp only [hpos, Nat.cast_add]

end AudioWrite

theorem audioWriteLoop_delivers {selectWorks : Bool} {rounds : List (SelectResult × WriteResult)}
    {w : AudioWrite} (hbuf : 0 < buf.length) (hreached : w.Reached buf fd)
    (h : audioWriteLoop selectWorks buf rounds w = some r) : DeliversPrefix buf fd r := by
  induction rounds generalizing w with
  | nil =>
    simp only [audioWriteLoop] at h
    split_ifs at h with hmore
    cases h
    exact hreached.finished hbuf hmore
  | cons round rounds ih =>
    obtain ⟨selected, written⟩ := round
    simp only [audioWriteLoop] at h
    obtain ⟨hshrunk, hpos, hsize⟩ := AudioWrite.shrink_reached hreached buf.length
    split_ifs at h with hmore htimeout hfailed
    · exact ih hshrunk h
    · cases h
      exact hshrunk.stopped none
    · cases written with
      | failed errno =>
        dsimp only at h
        split_ifs at h
        · exact ih hshrunk h
        · cases h
          exact hshrunk.stopped _
      | accepted n =>
        refine ih (hshrunk.accept ?_) h
        omega
    · cases h
      exact hreached.finished hbuf hmore

end Loops

/-- What the two functions have handed over when they return, whatever `poll`, `select` and
`write` came to: a beginning of the buffer, each octet once. -/
theorem partial_writes_deliver_once {buf : List Octet} (hbuf : buf ≠ []) (fd : Descriptor) :
    (∀ getfl polls writes r, writeTimeout fd getfl buf polls writes = some r →
      ∃ pieces, r.fd.taken = fd.taken ++ pieces ∧ pieces.flatten <+: buf ∧
        (pieces.flatten = buf ↔ r.result = buf.length) ∧ r.fd.statusFlags = fd.statusFlags) ∧
      ∀ selectWorks esdWriteSize rounds r, esdAudioWrite selectWorks esdWriteSize fd buf rounds = some r →
        ∃ pieces, r.fd.taken = fd.taken ++ pieces ∧ pieces.flatten <+: buf ∧
          (pieces.flatten = buf ↔ r.result = buf.length) ∧
          r.result = if pieces.flatten = [] then -1 else (pieces.flatten.length : ℤ) := by
  have hlength : 0 < buf.length := List.length_pos_iff.mpr hbuf
  refine ⟨fun getfl polls writes r h => ?_, fun selectWorks esdWriteSize rounds r h => ?_⟩
  · cases getfl with
    | some errno =>
      cases h
      refine ⟨[], (List.append_nil _).symm, List.nil_prefix, ?_, rfl⟩
      have hne : (-1 : ℤ) ≠ buf.length := by omega
      simp [hne, hbuf.symm]
    | none =>
      have htaken : (fd.setfl (fd.statusFlags ||| oNonblock)).taken = fd.taken ++ [] :=
        (List.append_nil _).symm
      obtain ⟨⟨pieces, pos, hall, hdelivered, hresult⟩, hflags⟩ :=
        writeTimeoutLoop_delivers htaken (.start buf) hlength h
      exact ⟨pieces, hall, hdelivered.isPrefix, hdelivered.whole_iff.trans hresult.symm, hflags⟩
  · have hreached : AudioWrite.Reached buf fd ⟨0, esdWriteSize, fd⟩ :=
      ⟨[], 0, (List.append_nil _).symm, .start buf, rfl⟩
    obtain ⟨pieces, pos, hall, hdelivered, hresult⟩ := audioWriteLoop_delivers hlength hreached h
    have hnil : pieces.flatten = [] ↔ pos = 0 := by
      rw [← List.length_eq_zero_iff, hdelivered.length]
    refine ⟨pieces, hall, hdelivered.isPrefix, hdelivered.whole_iff.trans ?_, ?_⟩
    · by_cases hzero : pos = 0
      · rw [hresult, if_pos hzero]
        omega
      · rw [hresult, if_neg hzero]
        exact Nat.cast_inj.symm
    · simp only [hresult, hnil, hdelivered.length]

/-- A write that takes one octet of three, then two. -/
theorem partial_writes_deliver_once_three :
    ∃ r, writeTimeout ⟨2#32, []⟩ none [1, 2, 3] [.ready 4#32, .failed 4, .ready 4#32]
        [.accepted 1, .failed 4, .accepted 7] = some r ∧
      r.result = 3 ∧ r.fd.taken.flatten = [1, 2, 3] ∧ r.fd.statusFlags = 2#32 := by
  have hreturns : writeTimeout ⟨2#32, []⟩ none [1, 2, 3] [.ready 4#32, .failed 4, .ready 4#32]
      [.accepted 1, .failed 4, .accepted 7] = some ⟨3, none, ⟨2#32, [[1], [2, 3]]⟩⟩ := by decide +kernel
  obtain ⟨pieces, htaken, -, hwhole, hflags⟩ :=
    (partial_writes_deliver_once (by decide) ⟨2#32, []⟩).1 none _ _ _ hreturns
  refine ⟨_, hreturns, rfl, ?_, hflags⟩
  rw [htaken]
  exact hwhole.mpr rfl

end Esound
