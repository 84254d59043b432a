import Esound.Library.Pacing
import Esound.StreamHeader

/-!
# The clock of the mapped memory

A program that maps the device writes nothing itself: `mmapemu_flush` sends the fragments whose
time has come. Each call that sends some takes its own time for the new reference time, so that
the part of a fragment that was due beyond them is never sent.
-/

open Library.Buffer Library.Pacing

namespace Esound

/-- A microsecond and an octet, by the fragment. -/
def fragmentWorth : ℤ := 1000000 * mmapemuFragsize

/-- The memory is whole fragments, and the next one lies in it. -/
structure Esddsp.Mapped (s : Esddsp) : Prop where
  osize : 0 < s.osize ∧ s.osize < 2 ^ 31 ∧ mmapemuFragsize ∣ s.osize
  ptr : 0 ≤ s.ocount.ptr ∧ s.ocount.ptr < s.osize ∧ mmapemuFragsize ∣ s.ocount.ptr

namespace Esddsp

/-- What was given to `write`, in octets. -/
def octetsSent (s : Esddsp) : ℤ := s.sent.flatten.length

def flushes (s : Esddsp) (times : List Timeval) : Esddsp :=
  times.foldl (fun s now => s.mmapemuFlush now) s

end Esddsp

/-- The octets sent between two states are those of the time between, within a fragment. -/
def KeepsTime (rate : ℤ) (s t : Esddsp) (since now : ℤ) : Prop :=
  |1000000 * (t.octetsSent - s.octetsSent) - rate * (now - since)| < fragmentWorth

section Flush

variable {s : Esddsp} {now : Timeval}

theorem mmap_mapped (hemulates : s.mmapemu = true) {length : ℕ} (hpos : 0 < length)
    (hlt : length < 2 ^ 31) (hfragments : mmapemuFragsize ∣ length) (obuffer : Mem) :
    (s.mmap length obuffer).Mapped := by
  have hsize : int32 length = length := int32_of_range (by omega) (by omega)
  have hpos' : (0 : ℤ) < length := by omega
  have hlt' : (length : ℤ) < 2 ^ 31 := by omega
  rw [Esddsp.mmap, if_pos hemulates, hsize]
  exact ⟨⟨hpos', hlt', hfragments⟩, ⟨le_rfl, hpos', dvd_zero _⟩⟩

theorem flushFragment_mapped (h : s.Mapped) : s.flushFragment.Mapped := by
  obtain ⟨hpos, hlt, hosize⟩ := h.osize
  obtain ⟨hlow, hhigh, hptr⟩ := h.ptr
  have hsize : mmapemuFragsize = 4096 := rfl
  have hint : int32 (s.ocount.ptr + mmapemuFragsize) = s.ocount.ptr + mmapemuFragsize := by
    rw [hsize] at hosize hptr ⊢
    exact int32_of_range (by omega) (by omega)
  have hmod : s.flushFragment.ocount.ptr = (s.ocount.ptr + mmapemuFragsize) % s.osize := by
    simp only [Esddsp.flushFragment, hint]
    exact Int.tmod_eq_emod_of_nonneg (by omega)
  refine ⟨h.osize, ?_⟩
  rw [hmod]
  refine ⟨Int.emod_nonneg _ hpos.ne', Int.emod_lt_of_pos _ hpos, ?_⟩
  rw [Int.emod_def]
  exact dvd_sub (dvd_add hptr (dvd_refl _)) (dvd_mul_of_dvd_left hosize _)

theorem flushFragments_mapped (n : ℕ) (h : s.Mapped) : (s.flushFragments n).Mapped := by
  induction n generalizing s with
  | zero => exact h
  | succ n ih => exact ih (flushFragment_mapped h)

theorem flushFragments_sent (n : ℕ) (s : Esddsp) :
    (s.flushFragments n).octetsSent = s.octetsSent + mmapemuFragsize * n := by
  induction n generalizing s with
  | zero => simp [Esddsp.flushFragments]
  | succ n ih =>
    have hone : s.flushFragment.octetsSent = s.octetsSent + mmapemuFragsize := by
      have hfragment : ((mmapemuFragsize.toNat : ℕ) : ℤ) = mmapemuFragsize := rfl
      simp only [Esddsp.octetsSent, Esddsp.flushFragment, List.flatten_append, List.flatten_cons,
        List.flatten_nil, List.append_nil, List.length_append, load_length, Nat.cast_add, hfragment]
    rw [Esddsp.flushFragments, ih, hone]
    push_cast
    ring

theorem flushFragments_clock (n : ℕ) (s : Esddsp) :
    (s.flushFragments n).lastFlush = s.lastFlush ∧ (s.flushFragments n).bytesPerSec = s.bytesPerSec := by
  induction n generalizing s with
  | zero => exact ⟨rfl, rfl⟩
  | succ n ih => exact ih s.flushFragment

theorem mmapemuFlush_mapped (now : Timeval) (h : s.Mapped) : (s.mmapemuFlush now).Mapped := by
  apply flushFragments_mapped
  split_ifs
  · exact ⟨h.osize, h.ptr⟩
  · exact h

theorem flushes_mapped (h : s.Mapped) (times : List Timeval) : (s.flushes times).Mapped :=
  Library.Transition.foldl_invariant Esddsp.Mapped _ times (fun _ now _ h => mmapemuFlush_mapped now h) h

/-- Where no more than the fragments of the emulation are due, a call sends all that is due. -/
theorem fragsToFlush_due (hrate : 0 < s.bytesPerSec) (hnow : s.lastFlush.usec ≤ now.usec)
    (hfew : s.bytesPerSec * (now.usec - s.lastFlush.usec) < (mmapemuFragstotal + 1) * fragmentWorth)
    {p : Pace} (hp : p.since = s.lastFlush.usec) :
    s.fragsToFlush now = p.due s.bytesPerSec fragmentWorth now.usec := by
  have hworth : (mmapemuFragstotal + 1) * fragmentWorth = 69632000000 := rfl
  have hfragment : fragmentWorth = 1000000 * 4096 := rfl
  rw [hworth] at hfew
  obtain ⟨usec, husec⟩ : ∃ usec, now.usec - s.lastFlush.usec = usec := ⟨_, rfl⟩
  have helapsed : 1000000 * (now.tvSec - s.lastFlush.tvSec) + (now.tvUsec - s.lastFlush.tvUsec) = usec := by
    rw [← husec, Timeval.usec, Timeval.usec]
    ring
  have hnonneg : 0 ≤ usec := by omega
  have hle : usec ≤ s.bytesPerSec * usec := le_mul_of_one_le_left hnonneg hrate
  rw [husec] at hfew
  have hdue : 0 ≤ s.bytesPerSec * usec := mul_nonneg hrate.le hnonneg
  simp only [Esddsp.fragsToFlush, Pace.due, hp, helapsed, husec]
  rw [int64_of_range hnonneg (by omega), int64_of_range hdue (by omega),
    Int.tdiv_eq_ediv_of_nonneg hdue, Int.tdiv_eq_ediv_of_nonneg (by omega), hfragment,
    ← Int.ediv_ediv_of_nonneg (by omega)]
  have hsize : mmapemuFragsize = 4096 := rfl
  have htotal : mmapemuFragstotal = 16 := rfl
  rw [hsize, htotal, int32_of_range (by omega) (by omega)]
  exact if_neg (by omega)

theorem mmapemuFlush_tick (hrate : 0 < s.bytesPerSec) (hnow : s.lastFlush.usec ≤ now.usec)
    (hfew : s.bytesPerSec * (now.usec - s.lastFlush.usec) < (mmapemuFragstotal + 1) * fragmentWorth)
    {p : Pace} (hp : p.since = s.lastFlush.usec) :
    (s.mmapemuFlush now).bytesPerSec = s.bytesPerSec ∧
      (p.tick s.bytesPerSec fragmentWorth now.usec).since = (s.mmapemuFlush now).lastFlush.usec ∧
      (s.mmapemuFlush now).octetsSent = s.octetsSent +
        mmapemuFragsize * ((p.tick s.bytesPerSec fragmentWorth now.usec).units - p.units) := by
  have hfrags := fragsToFlush_due hrate hnow hfew hp
  rw [Esddsp.mmapemuFlush, Pace.tick, hfrags]
  by_cases hdue : 0 < p.due s.bytesPerSec fragmentWorth now.usec
  · obtain ⟨hlast, hsame⟩ := flushFragments_clock (p.due s.bytesPerSec fragmentWorth now.usec).toNat
      { s with lastFlush := now }
    have hsent := flushFragments_sent (p.due s.bytesPerSec fragmentWorth now.usec).toNat
      { s with lastFlush := now }
    rw [Int.toNat_of_nonneg hdue.le] at hsent
    rw [if_pos hdue, if_pos hdue]
    refine ⟨hsame, congrArg Timeval.usec hlast.symm, hsent.trans ?_⟩
    simp only [Esddsp.octetsSent, add_sub_cancel_left]
  · have hzero : (p.due s.bytesPerSec fragmentWorth now.usec).toNat = 0 := by omega
    rw [if_neg hdue, if_neg hdue, hzero]
    exact ⟨rfl, hp, by simp [Esddsp.flushFragments]⟩

theorem flushes_ticks (hrate : 0 < s.bytesPerSec) {p : Pace} (hp : p.since = s.lastFlush.usec) {last : ℤ}
    (hsince : p.since ≤ last) (hpending : s.bytesPerSec * (last - p.since) < fragmentWorth)
    {times : List Timeval}
    (htimes : Unhurried s.bytesPerSec (mmapemuFragstotal * fragmentWorth)
      (last :: times.map Timeval.usec)) :
    (s.flushes times).octetsSent = s.octetsSent + mmapemuFragsize *
      (((times.map Timeval.usec).foldl (Pace.tick s.bytesPerSec fragmentWorth) p).units - p.units) := by
  induction times generalizing s p last with
  | nil => simp [Esddsp.flushes]
  | cons now times ih =>
    obtain ⟨⟨hle, hgap⟩, hrest⟩ := List.isChain_cons_cons.mp htimes
    have hworth : 0 < fragmentWorth := by decide
    have hdue : s.bytesPerSec * (now.usec - p.since) < (mmapemuFragstotal + 1) * fragmentWorth := by
      have hsplit : s.bytesPerSec * (now.usec - p.since) =
          s.bytesPerSec * (now.usec - last) + s.bytesPerSec * (last - p.since) := by ring
      rw [hsplit, add_mul, one_mul]
      exact add_lt_add_of_le_of_lt hgap hpending
    have hnow : p.since ≤ now.usec := hsince.trans hle
    obtain ⟨hsame, hnext, hsent⟩ := mmapemuFlush_tick hrate (hp ▸ hnow) (hp ▸ hdue) hp
    obtain ⟨hsince', hpending'⟩ : _ ≤ now.usec ∧ s.bytesPerSec *
        (now.usec - (p.tick s.bytesPerSec fragmentWorth now.usec).since) < fragmentWorth :=
      tick_pending hworth hnow
    have hlater := ih (s := s.mmapemuFlush now) (hsame ▸ hrate) (by rw [hnext]) hsince'
      (hsame ▸ hpending') (hsame ▸ hrest)
    rw [hsame] at hlater
    rw [List.map_cons, List.foldl_cons]
    change (Esddsp.flushes (s.mmapemuFlush now) times).octetsSent = _
    rw [hlater, hsent]
    ring

end Flush

/-- What is sent up to the last of the times keeps to the clock within a fragment exactly if the
calls so far have left out less than a fragment. The next fragment always lies in the memory. -/
theorem mmap_keeps_time_iff {s : Esddsp} (hrate : 0 < s.bytesPerSec) (hmapped : s.Mapped)
    {times : List Timeval}
    (htimes : Unhurried s.bytesPerSec (mmapemuFragstotal * fragmentWorth)
      (s.lastFlush.usec :: times.map Timeval.usec)) :
    (s.flushes times).Mapped ∧
      (KeepsTime s.bytesPerSec s (s.flushes times) s.lastFlush.usec
          ((times.map Timeval.usec).getLastD s.lastFlush.usec) ↔
        leftover s.bytesPerSec fragmentWorth s.lastFlush.usec s.lastFlush.usec
          (times.map Timeval.usec) < fragmentWorth) := by
  have hworth : 0 < fragmentWorth := by decide
  refine ⟨flushes_mapped hmapped times, ?_⟩
  have hsent := flushes_ticks hrate (p := ⟨s.lastFlush.usec, 0⟩) rfl le_rfl (by simpa using hworth) htimes
  have hwithin := within_unit_iff (p := ⟨s.lastFlush.usec, 0⟩) hrate.le hworth le_rfl htimes
  rw [← hwithin, KeepsTime, hsent, add_sub_cancel_left, ← mul_assoc]
  rfl

/-- A program that asks for 16 bit stereo and maps 16 fragments. -/
def mappedStart : Esddsp :=
  (((Esddsp.init [] true).opened.dspCalls stereoCalls).dspctl dspEnv (.speed 44100#32)).state.mmap
    65536 fun _ => 0

theorem mappedStart_clock : mappedStart.bytesPerSec = 176400 ∧ mappedStart.lastFlush = ⟨0, 0⟩ := by
  decide +kernel

theorem mappedStart_mapped : mappedStart.Mapped :=
  mmap_mapped (by decide +kernel) (by norm_num) (by norm_num) (by decide) _

theorem mappedStart_rate : 0 < mappedStart.bytesPerSec := by
  rw [mappedStart_clock.1]
  decide

/-- One call, when more than a fragment and less than two are due. -/
theorem mmap_keeps_time_iff_once :
    KeepsTime mappedStart.bytesPerSec mappedStart (mappedStart.flushes [⟨0, 30000⟩])
      mappedStart.lastFlush.usec 30000 := by
  have hgap : mappedStart.lastFlush.usec ≤ 30000 ∧
      mappedStart.bytesPerSec * (30000 - mappedStart.lastFlush.usec) ≤
        mmapemuFragstotal * fragmentWorth := by
    rw [mappedStart_clock.1, mappedStart_clock.2]
    decide
  have hiff := @mmap_keeps_time_iff mappedStart mappedStart_rate mappedStart_mapped [⟨0, 30000⟩]
    (List.isChain_cons_cons.mpr ⟨hgap, List.isChain_singleton _⟩)
  refine hiff.2.mpr ?_
  rw [mappedStart_clock.1, mappedStart_clock.2]
  decide

/-- Two calls, each when 1.7 fragments are due: 3.4 are due in the end and two were sent. -/
theorem clock_falls_behind :
    0 < mappedStart.bytesPerSec ∧ mappedStart.Mapped ∧
      Unhurried mappedStart.bytesPerSec (mmapemuFragstotal * fragmentWorth)
        [mappedStart.lastFlush.usec, 40000, 80000] ∧
      ¬ KeepsTime mappedStart.bytesPerSec mappedStart
        (mappedStart.flushes [⟨0, 40000⟩, ⟨0, 80000⟩]) mappedStart.lastFlush.usec 80000 := by
  have hgaps : Unhurried mappedStart.bytesPerSec (mmapemuFragstotal * fragmentWorth)
      [mappedStart.lastFlush.usec, 40000, 80000] := by
    rw [mappedStart_clock.1, mappedStart_clock.2]
    exact List.isChain_cons_cons.mpr ⟨by decide,
      List.isChain_cons_cons.mpr ⟨by decide, List.isChain_singleton _⟩⟩
  refine ⟨mappedStart_rate, mappedStart_mapped, hgaps, ?_⟩
  have hsent := @flushes_ticks mappedStart mappedStart_rate ⟨mappedStart.lastFlush.usec, 0⟩ rfl _
    le_rfl (by rw [sub_self, mul_zero]; decide) [⟨0, 40000⟩, ⟨0, 80000⟩] hgaps
  rw [KeepsTime, hsent, add_sub_cancel_left, mappedStart_clock.1, mappedStart_clock.2]
  decide

end Esound
