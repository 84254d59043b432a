import Esound.Library.Transition
import Esound.Esddsp

/-!
# The stream that a program asks for

The requests on `/dev/dsp` set the format, the channels and the rate in any order, and the last of
each should count. In the header they accumulate: a width of 16 bits and two channels, once asked
for, stay.
-/

open Library.Transition

namespace Esound

namespace DspRequest

def fmtArg : DspRequest → Option Word
  | setfmt arg => some arg
  | _ => none

def speedArg : DspRequest → Option Word
  | speed arg => some arg
  | _ => none

def stereoArg : DspRequest → Option Word
  | stereo arg => some arg
  | _ => none

end DspRequest

/-- A format of 16 bits. -/
def Wide (arg : Word) : Prop := arg &&& 0x30#32 ≠ 0

instance (arg : Word) : Decidable (Wide arg) := inferInstanceAs (Decidable (_ ≠ _))

/-- The last argument is as `P` says. -/
def LastIs (P : Word → Prop) (args : List Word) : Prop := ∃ arg ∈ args.getLast?, P arg

instance (P : Word → Prop) [DecidablePred P] (args : List Word) : Decidable (LastIs P args) :=
  decidable_of_iff (args.getLast?.any (P ·) = true) (by cases h : args.getLast? <;> simp [LastIs, h])

/-- The stream that the requests ask for: the last of each kind counts, and it is mono until a
request says otherwise. -/
structure AskedFor (requests : List DspRequest) (fmt speed : Word) : Prop where
  width : fmt &&& esdMaskBits = esdBits16 ↔ LastIs Wide (requests.filterMap DspRequest.fmtArg)
  channels : fmt &&& esdMaskChan = esdStereo ∧ LastIs (· ≠ 0) (requests.filterMap DspRequest.stereoArg) ∨
    fmt &&& esdMaskChan = esdMono ∧ ¬ LastIs (· ≠ 0) (requests.filterMap DspRequest.stereoArg)
  rate : (requests.filterMap DspRequest.speedArg).getLast? = some speed

/-- What was asked for once is what the last argument asks for. -/
def NeverUndone (P : Word → Prop) (args : List Word) : Prop := (∃ arg ∈ args, P arg) → LastIs P args

/-! ## What the variables hold -/

theorem lastIs_concat {P : Word → Prop} {args : List Word} {arg : Word} :
    LastIs P (args ++ [arg]) ↔ P arg := by
  simp [LastIs]

/-- The format with the bits that are ever set in it. -/
def formatOf (wide stereo mono : Bool) : Word :=
  esdStream ||| esdPlay ||| (bif wide then esdBits16 else esdBits8) |||
    (bif stereo then esdStereo else 0) ||| (bif mono then esdMono else 0)

theorem formatOf_setfmt (wide stereo mono more : Bool) :
    formatOf wide stereo mono ||| (if more = true then esdBits16 else esdBits8) =
      formatOf (wide || more) stereo mono := by
  cases wide <;> cases stereo <;> cases mono <;> cases more <;> decide

theorem formatOf_setStereo (wide stereo mono two : Bool) :
    formatOf wide stereo mono &&& ~~~esdMono ||| (if two = true then esdStereo else esdMono) =
      formatOf wide (stereo || two) !two := by
  cases wide <;> cases stereo <;> cases mono <;> cases two <;> decide

theorem formatOf_width (wide stereo mono : Bool) :
    formatOf wide stereo mono &&& esdMaskBits = esdBits16 ↔ wide = true := by
  cases wide <;> cases stereo <;> cases mono <;> decide

theorem formatOf_channels (wide stereo mono : Bool) :
    (formatOf wide stereo mono &&& esdMaskChan = esdStereo ↔ stereo = true ∧ mono = false) ∧
      (formatOf wide stereo mono &&& esdMaskChan = esdMono ↔ stereo = false ∧ mono = true) := by
  cases wide <;> cases stereo <;> cases mono <;> decide

section Accumulation

/-- What the variables hold after requests with these arguments, as long as the header has not gone
out. -/
structure Accumulated (fmts speeds stereos : List Word) (s : Esddsp) : Prop where
  fmt : s.fmt = formatOf (fmts.any (Wide ·)) (stereos.any (· ≠ 0)) (decide ¬ LastIs (· ≠ 0) stereos)
  speed : s.speed = speeds.getLast?.getD 0
  settings : s.settings = (if fmts = [] then 0#32 else 1#32) ||| (if speeds = [] then 0#32 else 2#32)

/-- What the header is made of is the same. -/
structure SameStream (s t : Esddsp) : Prop where
  settings : t.settings = s.settings
  done : t.done = s.done
  fmt : t.fmt = s.fmt
  speed : t.speed = s.speed
  ident : t.ident = s.ident

variable {requests : List DspRequest} {fmts speeds stereos : List Word} {s t : Esddsp}

theorem SameStream.trans {u : Esddsp} (h : SameStream s t) (h' : SameStream t u) : SameStream s u :=
  ⟨h'.settings.trans h.settings, h'.done.trans h.done, h'.fmt.trans h.fmt, h'.speed.trans h.speed,
    h'.ident.trans h.ident⟩

theorem flushFragments_sameStream (n : ℕ) (s : Esddsp) : SameStream s (s.flushFragments n) := by
  induction n generalizing s with
  | zero => exact ⟨rfl, rfl, rfl, rfl, rfl⟩
  | succ n ih =>
    have hone : SameStream s s.flushFragment := ⟨rfl, rfl, rfl, rfl, rfl⟩
    exact hone.trans (ih _)

theorem mmapemuFlush_sameStream (now : Timeval) (s : Esddsp) : SameStream s (s.mmapemuFlush now) := by
  have hreference : SameStream s
      (if s.fragsToFlush now > 0 then { s with lastFlush := now } else s) := by
    split_ifs <;> exact ⟨rfl, rfl, rfl, rfl, rfl⟩
  exact hreference.trans (flushFragments_sameStream _ _)

theorem dspRequest_sameStream (now : Timeval) (s : Esddsp) {k : DspRequest} (hfmt : k.fmtArg = none)
    (hspeed : k.speedArg = none) (hstereo : k.stereoArg = none) :
    SameStream s (s.dspRequest now k).1 := by
  cases k with
  | setfmt arg => cases hfmt
  | speed arg => cases hspeed
  | stereo arg => cases hstereo
  | getoptr =>
    simp only [Esddsp.dspRequest]
    split_ifs
    · exact (mmapemuFlush_sameStream now s).trans ⟨rfl, rfl, rfl, rfl, rfl⟩
    · exact ⟨rfl, rfl, rfl, rfl, rfl⟩
  | _ => exact ⟨rfl, rfl, rfl, rfl, rfl⟩

theorem dspRequest_done (now : Timeval) (s : Esddsp) (k : DspRequest) :
    (s.dspRequest now k).1.done = s.done := by
  cases k with
  | getoptr => exact (dspRequest_sameStream now s rfl rfl rfl).done
  | _ => rfl

theorem Accumulated.setfmt (h : Accumulated fmts speeds stereos s) (arg : Word) :
    Accumulated (fmts ++ [arg]) speeds stereos (s.setfmt arg) where
  fmt := by
    have hmore := formatOf_setfmt (fmts.any (Wide ·)) (stereos.any (· ≠ 0))
      (decide ¬ LastIs (· ≠ 0) stereos) (decide (Wide arg))
    simp only [← h.fmt, decide_eq_true_eq] at hmore
    rw [List.any_append, List.any_cons, List.any_nil, Bool.or_false]
    exact hmore
  speed := h.speed
  settings := by
    simp only [Esddsp.setfmt, h.settings, List.append_eq_nil_iff]
    split_ifs <;> simp_all

theorem Accumulated.setSpeed (h : Accumulated fmts speeds stereos s) (arg : Word) :
    Accumulated fmts (speeds ++ [arg]) stereos (s.setSpeed arg) where
  fmt := h.fmt
  speed := by simp [Esddsp.setSpeed]
  settings := by
    simp only [Esddsp.setSpeed, h.settings, List.append_eq_nil_iff]
    split_ifs <;> simp_all

theorem Accumulated.setStereo (h : Accumulated fmts speeds stereos s) (arg : Word) :
    Accumulated fmts speeds (stereos ++ [arg]) (s.setStereo arg) where
  fmt := by
    have htwo := formatOf_setStereo (fmts.any (Wide ·)) (stereos.any (· ≠ 0))
      (decide ¬ LastIs (· ≠ 0) stereos) (decide (arg ≠ 0))
    simp only [← h.fmt, decide_eq_true_eq] at htwo
    simp only [List.any_append, List.any_cons, List.any_nil, Bool.or_false, lastIs_concat, decide_not,
      Esddsp.setStereo] at htwo ⊢
    exact htwo
  speed := h.speed
  settings := h.settings

theorem Accumulated.sameStream (h : Accumulated fmts speeds stereos s) (ht : SameStream s t) :
    Accumulated fmts speeds stereos t :=
  ⟨ht.fmt.trans h.fmt, ht.speed.trans h.speed, ht.settings.trans h.settings⟩

/-- The variables after the requests. -/
abbrev AccumulatedBy (requests : List DspRequest) (s : Esddsp) : Prop :=
  Accumulated (requests.filterMap DspRequest.fmtArg) (requests.filterMap DspRequest.speedArg)
    (requests.filterMap DspRequest.stereoArg) s

theorem dspRequest_accumulated (h : AccumulatedBy requests s) (now : Timeval) (k : DspRequest) :
    AccumulatedBy (requests ++ [k]) (s.dspRequest now k).1 := by
  simp only [AccumulatedBy, List.filterMap_append]
  cases k with
  | setfmt arg =>
    change Accumulated (_ ++ [arg]) (_ ++ []) (_ ++ []) (s.setfmt arg)
    simpa only [List.append_nil] using h.setfmt arg
  | speed arg =>
    change Accumulated (_ ++ []) (_ ++ [arg]) (_ ++ []) (s.setSpeed arg)
    simpa only [List.append_nil] using h.setSpeed arg
  | stereo arg =>
    change Accumulated (_ ++ []) (_ ++ []) (_ ++ [arg]) (s.setStereo arg)
    simpa only [List.append_nil] using h.setStereo arg
  | _ =>
    change Accumulated (_ ++ []) (_ ++ []) (_ ++ []) _
    simp only [List.append_nil]
    exact h.sameStream (dspRequest_sameStream now s rfl rfl rfl)

theorem dspHeader_done {env : DspEnv} (hready : s.settings = 3#32 ∧ s.done = false) :
    (s.dspHeader env).1.done = true := by
  simp only [Esddsp.dspHeader, if_pos hready]
  split_ifs <;> rfl

theorem dspHeader_waits {env : DspEnv} (h : (s.dspHeader env).1.done = false) :
    s.dspHeader env = (s, 0) := by
  by_cases hready : s.settings = 3#32 ∧ s.done = false
  · rw [dspHeader_done hready] at h
    cases h
  · exact if_neg hready

theorem dspHeader_sends {env : DspEnv} (hready : s.settings = 3#32 ∧ s.done = false)
    (hwhole : (s.dspHeader env).2 = 0) :
    (s.dspHeader env).1.sent = s.sent ++ Esddsp.streamHeader s.fmt s.speed s.ident := by
  by_cases htakes : env.takes < 4
  · simp [Esddsp.dspHeader, hready, htakes] at hwhole
  · have hlength : (Esddsp.streamHeader s.fmt s.speed s.ident).length ≤ env.takes + 1 := by
      simp only [Esddsp.streamHeader, List.length_cons, List.length_nil]
      omega
    have hsent : (s.sendHeader env.takes).sent =
        s.sent ++ Esddsp.streamHeader s.fmt s.speed s.ident := by
      rw [Esddsp.sendHeader, List.take_of_length_le hlength]
    rw [Esddsp.dspHeader, if_pos hready, if_neg htakes, ← hsent]
    split_ifs <;> rfl

/-- As long as the header has not gone out, `dspctl` has done what the request asks for. -/
theorem dspctl_waits {env : DspEnv} {k : DspRequest} (h : (s.dspctl env k).state.done = false) :
    s.done = false ∧ (s.dspctl env k).state = (s.dspRequest env.now k).1 := by
  have hwaits : (s.dspctl env k).state = (s.dspRequest env.now k).1 :=
    congrArg Prod.fst (dspHeader_waits h)
  rw [hwaits, dspRequest_done] at h
  exact ⟨h, hwaits⟩

theorem dspctl_ident (env : DspEnv) (s : Esddsp) (k : DspRequest) :
    (s.dspctl env k).state.ident = s.ident := by
  have hrequest : (s.dspRequest env.now k).1.ident = s.ident := by
    cases k with
    | getoptr => exact (dspRequest_sameStream env.now s rfl rfl rfl).ident
    | _ => rfl
  rw [← hrequest]
  simp only [Esddsp.dspctl, Esddsp.dspHeader]
  split_ifs <;> rfl

theorem dspCalls_ident (s : Esddsp) (calls : List (DspEnv × DspRequest)) :
    (s.dspCalls calls).ident = s.ident :=
  foldl_invariant (·.ident = s.ident) _ calls
    (fun t call _ ht => (dspctl_ident call.1 t call.2).trans ht) rfl

theorem accumulated_opened (ident : List Octet) (mmapemu : Bool) :
    Accumulated [] [] [] (Esddsp.init ident mmapemu).opened where
  fmt := by
    have hmono : (decide ¬ LastIs (· ≠ 0) ([] : List Word)) = true := by simp [LastIs]
    rw [hmono]
    change dspFormat = formatOf false false true
    decide
  speed := rfl
  settings := rfl

theorem dspCalls_accumulated (ident : List Octet) (mmapemu : Bool) (calls : List (DspEnv × DspRequest))
    (h : ((Esddsp.init ident mmapemu).opened.dspCalls calls).done = false) :
    AccumulatedBy (calls.map Prod.snd) ((Esddsp.init ident mmapemu).opened.dspCalls calls) := by
  induction calls using List.reverseRecOn with
  | nil => exact accumulated_opened ident mmapemu
  | append_singleton calls call ih =>
    simp only [Esddsp.dspCalls, List.foldl_append, List.foldl_cons, List.foldl_nil] at h ih ⊢
    obtain ⟨hopen, hstate⟩ := dspctl_waits h
    rw [hstate, List.map_append]
    exact dspRequest_accumulated (ih hopen) call.1.now call.2

/-! ## The header -/

theorem neverUndone_iff_any {P : Word → Prop} [DecidablePred P] {args : List Word} :
    NeverUndone P args ↔ (args.any (P ·) = true → LastIs P args) := by
  simp [NeverUndone]

theorem LastIs.any {P : Word → Prop} [DecidablePred P] {args : List Word} (h : LastIs P args) :
    args.any (P ·) = true := by
  obtain ⟨arg, hlast, hP⟩ := h
  exact List.any_eq_true.mpr ⟨arg, List.mem_of_getLast? hlast, decide_eq_true hP⟩

/-- The variables of which the header is made ask for what the requests ask for, exactly if
neither a width of 16 bits nor two channels were asked for and then something else. -/
theorem Accumulated.askedFor_iff (h : AccumulatedBy requests s) (hset : s.settings = 3#32) :
    AskedFor requests s.fmt s.speed ↔
      NeverUndone Wide (requests.filterMap DspRequest.fmtArg) ∧
        NeverUndone (· ≠ 0) (requests.filterMap DspRequest.stereoArg) := by
  have hrate : ((requests.filterMap DspRequest.speedArg).getLast? = some s.speed) := by
    have hspeeds : requests.filterMap DspRequest.speedArg ≠ [] := by
      intro hnil
      have hsettings := h.settings
      rw [hset, if_pos hnil] at hsettings
      split_ifs at hsettings <;> cases hsettings
    rw [h.speed, List.getLast?_eq_some_getLast hspeeds, Option.getD_some]
  have hwidth : s.fmt &&& esdMaskBits = esdBits16 ↔
      (requests.filterMap DspRequest.fmtArg).any (Wide ·) = true := by
    rw [h.fmt]
    exact formatOf_width _ _ _
  have hchannels := formatOf_channels ((requests.filterMap DspRequest.fmtArg).any (Wide ·))
    ((requests.filterMap DspRequest.stereoArg).any (· ≠ 0))
    (decide ¬ LastIs (· ≠ 0) (requests.filterMap DspRequest.stereoArg))
  rw [← h.fmt, decide_eq_true_eq, decide_eq_false_iff_not, not_not] at hchannels
  rw [neverUndone_iff_any, neverUndone_iff_any]
  constructor
  · intro hasked
    refine ⟨fun hany => hasked.width.mp (hwidth.mpr hany), fun hany => ?_⟩
    rcases hasked.channels with ⟨-, hlast⟩ | ⟨hmono, -⟩
    · exact hlast
    · rw [(hchannels.2.mp hmono).1] at hany
      cases hany
  · rintro ⟨hwideKept, hstereoKept⟩
    refine ⟨hwidth.trans ⟨hwideKept, fun hlast => hlast.any⟩, ?_, hrate⟩
    by_cases hlast : LastIs (· ≠ 0) (requests.filterMap DspRequest.stereoArg)
    · exact .inl ⟨hchannels.1.mpr ⟨hlast.any, hlast⟩, hlast⟩
    · have hnone : (requests.filterMap DspRequest.stereoArg).any (· ≠ 0) = false :=
        Bool.eq_false_iff.mpr fun hany => hlast (hstereoKept hany)
      exact .inr ⟨hchannels.2.mpr ⟨hnone, hlast⟩, hlast⟩

theorem dspctl_sends {env : DspEnv} {k : DspRequest} (h : AccumulatedBy requests s)
    (hopen : s.done = false) (hheader : (s.dspctl env k).state.done = true)
    (hwhole : (s.dspctl env k).result = 0) :
    ∃ before fmt speed,
      (s.dspctl env k).state.sent = before ++ Esddsp.streamHeader fmt speed s.ident ∧
      (AskedFor (requests ++ [k]) fmt speed ↔
        NeverUndone Wide ((requests ++ [k]).filterMap DspRequest.fmtArg) ∧
          NeverUndone (· ≠ 0) ((requests ++ [k]).filterMap DspRequest.stereoArg)) := by
  have hident := dspctl_ident env s k
  have hdone := dspRequest_done env.now s k
  have haccumulated := dspRequest_accumulated h env.now k
  simp only [Esddsp.dspctl] at hheader hwhole hident ⊢
  generalize s.dspRequest env.now k = asked at *
  have hready : asked.1.settings = 3#32 ∧ asked.1.done = false := by
    by_contra hnot
    have hstays : (asked.1.dspHeader env).1 = asked.1 := congrArg Prod.fst (if_neg hnot)
    rw [hstays, hdone, hopen] at hheader
    cases hheader
  refine ⟨asked.1.sent, asked.1.fmt, asked.1.speed, ?_, haccumulated.askedFor_iff hready.1⟩
  have hsame : (asked.1.dspHeader env).1.ident = asked.1.ident := by
    simp only [Esddsp.dspHeader]
    split_ifs <;> rfl
  rw [← hident, hsame]
  exact dspHeader_sends hready hwhole

end Accumulation

/-- For every sequence of requests on a device that was just opened: when the header goes out, its
format and rate are those asked for exactly if a width of 16 bits and two channels, once asked for,
are what the last request of the kind asks for. -/
theorem stream_as_asked_iff {ident : List Octet} {mmapemu : Bool} {calls : List (DspEnv × DspRequest)}
    {env : DspEnv} {k : DspRequest}
    (hopen : ((Esddsp.init ident mmapemu).opened.dspCalls calls).done = false)
    (hheader : (((Esddsp.init ident mmapemu).opened.dspCalls calls).dspctl env k).state.done = true)
    (hwhole : (((Esddsp.init ident mmapemu).opened.dspCalls calls).dspctl env k).result = 0) :
    ∃ before fmt speed,
      (((Esddsp.init ident mmapemu).opened.dspCalls calls).dspctl env k).state.sent =
        before ++ Esddsp.streamHeader fmt speed ident ∧
      (AskedFor (calls.map Prod.snd ++ [k]) fmt speed ↔
        NeverUndone Wide ((calls.map Prod.snd ++ [k]).filterMap DspRequest.fmtArg) ∧
          NeverUndone (· ≠ 0) ((calls.map Prod.snd ++ [k]).filterMap DspRequest.stereoArg)) := by
  have hident := dspCalls_ident (Esddsp.init ident mmapemu).opened calls
  have hsends := dspctl_sends (dspCalls_accumulated ident mmapemu calls hopen) hopen hheader hwhole
  rwa [hident] at hsends

/-- All that is written is taken. -/
def dspEnv : DspEnv := ⟨⟨0, 0⟩, 4⟩

/-- Two channels and 16 bits. -/
def stereoCalls : List (DspEnv × DspRequest) := [(dspEnv, .stereo 1#32), (dspEnv, .setfmt 16#32)]

theorem stream_as_asked_iff_stereo :
    ∃ before fmt speed,
      (((Esddsp.init [] false).opened.dspCalls stereoCalls).dspctl dspEnv
        (.speed 44100#32)).state.sent = before ++ Esddsp.streamHeader fmt speed [] ∧
      AskedFor (stereoCalls.map Prod.snd ++ [.speed 44100#32]) fmt speed := by
  obtain ⟨before, fmt, speed, hsent, hiff⟩ := @stream_as_asked_iff [] false stereoCalls dspEnv
    (.speed 44100#32) (by decide +kernel) (by decide +kernel) (by decide +kernel)
  refine ⟨before, fmt, speed, hsent, hiff.mpr ⟨fun _ => ?_, fun _ => ?_⟩⟩
  · decide +kernel
  · decide +kernel

/-- 16 bits, and then 8. -/
def narrowingCalls : List (DspEnv × DspRequest) := [(dspEnv, .setfmt 16#32), (dspEnv, .setfmt 8#32)]

theorem width_stays :
    (((Esddsp.init [] false).opened.dspCalls narrowingCalls).dspctl dspEnv
      (.speed 44100#32)).state.sent =
        Esddsp.streamHeader (esdStream ||| esdPlay ||| esdBits16 ||| esdMono) 44100#32 [] ∧
      ¬ AskedFor (narrowingCalls.map Prod.snd ++ [DspRequest.speed 44100#32])
        (esdStream ||| esdPlay ||| esdBits16 ||| esdMono) 44100#32 := by
  refine ⟨by decide +kernel, fun hasked => ?_⟩
  have hwide : LastIs Wide ((narrowingCalls.map Prod.snd ++ [DspRequest.speed 44100#32]).filterMap
      DspRequest.fmtArg) := hasked.width.mp (by decide +kernel)
  exact absurd hwide (by decide +kernel)

end Esound
