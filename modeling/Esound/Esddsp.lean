import Esound.Calls
import Esound.Playback

/-!
# The wrapper of `/dev/dsp`

`esddsp` takes the calls a program makes on `/dev/dsp` to a stream of the daemon. The variables of
the process that they leave are the state here: the format and the rate that the program has
asked for, whether the header of the stream has gone out, and the memory that is played from
where the program maps the device.
-/

open Library.Buffer

namespace Esound

/-- What a `long long` operation leaves of an exact result. -/
def int64 (x : ℤ) : ℤ := Int.bmod x (2 ^ 64)

theorem int64_of_range {x : ℤ} (h0 : 0 ≤ x) (h : x < 2 ^ 63) : int64 x = x := by
  rw [int64, Int.bmod_eq_of_le] <;> omega

structure Timeval where
  tvSec : ℤ
  tvUsec : ℤ
  deriving DecidableEq

def Timeval.usec (t : Timeval) : ℤ := 1000000 * t.tvSec + t.tvUsec

structure CountInfo where
  bytes : ℤ
  blocks : ℤ
  ptr : ℤ
  deriving DecidableEq

structure AudioBufInfo where
  fragments : ℤ
  fragstotal : ℤ
  fragsize : ℤ
  bytes : ℤ
  deriving DecidableEq

def mmapemuFragstotal : ℤ := 16
def mmapemuFragsize : ℤ := esdBufSize

def dspCapRealtime : Word := 0x200#32
def dspCapTrigger : Word := 0x1000#32
def dspCapMmap : Word := 0x2000#32

/-- The variables, with `sent` for what `write` was given for `sndfd` since it was opened. -/
structure Esddsp where
  settings : Word
  done : Bool
  fmt : Word
  speed : Word
  ident : List Octet
  mmapemu : Bool
  ocount : CountInfo
  obuffer : Mem
  osize : ℤ
  bytesPerSec : ℤ
  lastFlush : Timeval
  sent : List (List Octet)

/-- The format that every stream begins with. -/
def dspFormat : Word := esdStream ||| esdPlay ||| esdMono

namespace Esddsp

/-- The variables of a process that has done nothing yet but `dsp_init`. -/
def init (ident : List Octet) (mmapemu : Bool) : Esddsp :=
  ⟨0, false, dspFormat, 0, ident, mmapemu, ⟨0, 0, 0⟩, fun _ => 0, 0, 0, ⟨0, 0⟩, []⟩

/-- `open` of `/dev/dsp`; the format and the rate stay. -/
def opened (s : Esddsp) : Esddsp := { s with settings := 0, done := false, sent := [] }

/-- `mmap` of `/dev/dsp`, with what `malloc` leaves in the memory. -/
def mmap (length : ℕ) (obuffer : Mem) (s : Esddsp) : Esddsp :=
  if s.mmapemu then { s with osize := int32 length, obuffer := obuffer, ocount := ⟨0, 0, 0⟩ } else s

/-! ## `mmapemu_flush` -/

def flushFragment (s : Esddsp) : Esddsp :=
  { s with
    sent := s.sent ++ [load s.obuffer s.ocount.ptr.toNat mmapemuFragsize.toNat]
    ocount :=
      { ptr := (int32 (s.ocount.ptr + mmapemuFragsize)).tmod s.osize
        blocks := int32 (s.ocount.blocks + 1)
        bytes := int32 (s.ocount.bytes + mmapemuFragsize) } }

/-- `while (frags_to_flush-- > 0)`. -/
def flushFragments : ℕ → Esddsp → Esddsp
  | 0, s => s
  | n + 1, s => flushFragments n s.flushFragment

def fragsToFlush (now : Timeval) (s : Esddsp) : ℤ :=
  let usecSinceLastFlush :=
    int64 (1000000 * (now.tvSec - s.lastFlush.tvSec) + (now.tvUsec - s.lastFlush.tvUsec))
  let bytesToFlush := (int64 (s.bytesPerSec * usecSinceLastFlush)).tdiv 1000000
  let fragsToFlush := int32 (bytesToFlush.tdiv mmapemuFragsize)
  if fragsToFlush > mmapemuFragstotal then mmapemuFragstotal else fragsToFlush

/-- The reference time moves to `now` and what is less than a fragment is forgotten. -/
def mmapemuFlush (now : Timeval) (s : Esddsp) : Esddsp :=
  let n := s.fragsToFlush now
  flushFragments n.toNat (if n > 0 then { s with lastFlush := now } else s)

end Esddsp

/-! ## `dspctl` -/

inductive DspRequest
  | reset
  | post
  | setfmt (arg : Word)
  | speed (arg : Word)
  | stereo (arg : Word)
  | getblksize
  | getfmts
  | getcaps
  | getospace
  | getispace
  | getoptr
  | unhandled
  deriving DecidableEq

/-- What a request leaves where its argument points to. -/
inductive DspAnswer
  | nothing
  | int (arg : Word)
  | space (bufinfo : AudioBufInfo)
  | count (ocount : CountInfo)
  deriving DecidableEq

/-- The time of a call, and how many writes of the header are taken whole before one is not. -/
structure DspEnv where
  now : Timeval
  takes : ℕ

namespace Esddsp

/-- `SNDCTL_DSP_SETFMT`. The bits are only ever added to the format. -/
def setfmt (arg : Word) (s : Esddsp) : Esddsp :=
  { s with
    fmt := s.fmt ||| (if arg &&& 0x30#32 ≠ 0 then esdBits16 else esdBits8)
    settings := s.settings ||| 1#32 }

def setSpeed (arg : Word) (s : Esddsp) : Esddsp :=
  { s with speed := arg, settings := s.settings ||| 2#32 }

/-- `SNDCTL_DSP_STEREO`. Only the mono bit is taken from the format. -/
def setStereo (arg : Word) (s : Esddsp) : Esddsp :=
  { s with fmt := (s.fmt &&& ~~~esdMono) ||| (if arg ≠ 0 then esdStereo else esdMono) }

/-- What one fragment can be written at once; without a mapping it is the only one. -/
def space (s : Esddsp) : AudioBufInfo :=
  if s.mmapemu then ⟨1, mmapemuFragstotal, mmapemuFragsize, mmapemuFragsize⟩
  else ⟨1, 1, esdBufSize, esdBufSize⟩

/-- The `switch` of `dspctl`. -/
def dspRequest (now : Timeval) (s : Esddsp) : DspRequest → Esddsp × DspAnswer
  | .reset | .post | .unhandled => (s, .nothing)
  | .setfmt arg => (s.setfmt arg, .nothing)
  | .speed arg => (s.setSpeed arg, .nothing)
  | .stereo arg => (s.setStereo arg, .nothing)
  | .getblksize => (s, .int (BitVec.ofInt 32 (if s.mmapemu then mmapemuFragsize else esdBufSize)))
  | .getfmts => (s, .int 0x38#32)
  | .getcaps => (s, .int (if s.mmapemu then dspCapMmap ||| dspCapTrigger ||| dspCapRealtime else 0))
  | .getospace | .getispace => (s, .space s.space)
  | .getoptr =>
    if s.mmapemu then
      let s := s.mmapemuFlush now
      ({ s with ocount := { s.ocount with blocks := 0 } }, .count s.ocount)
    else (s, .nothing)

/-- The four writes that open a stream. -/
def streamHeader (fmt speed : Word) (ident : List Octet) : List (List Octet) :=
  [Word.octets Proto.streamPlay.word, Word.octets fmt, Word.octets speed, ident]

/-- The clock of the mapped memory starts, at the rate of the stream. -/
def startClock (now : Timeval) (s : Esddsp) : Esddsp :=
  { s with
    ocount := ⟨0, 0, 0⟩
    bytesPerSec := int32 (int32 (s.speed.toInt * (if s.fmt &&& esdBits16 ≠ 0 then 2 else 1)) *
      (if s.fmt &&& esdStereo ≠ 0 then 2 else 1))
    lastFlush := now }

/-- The writes of the header, as far as one is not taken whole. -/
def sendHeader (takes : ℕ) (s : Esddsp) : Esddsp :=
  { s with
    done := true
    sent := s.sent ++ (streamHeader s.fmt s.speed s.ident).take (takes + 1) }

def forgetStream (s : Esddsp) : Esddsp := { s with fmt := dspFormat, speed := 0 }

/-- The header, once both the format and the rate are set. The pan that a mixer then sets goes over
another connection. -/
def dspHeader (env : DspEnv) (s : Esddsp) : Esddsp × ℤ :=
  if s.settings = 3#32 ∧ s.done = false then
    let s := s.sendHeader env.takes
    if env.takes < 4 then (s, -1)
    else ((if s.mmapemu then s.startClock env.now else s).forgetStream, 0)
  else (s, 0)

structure DspReturn where
  state : Esddsp
  answer : DspAnswer
  result : ℤ

def dspctl (env : DspEnv) (s : Esddsp) (request : DspRequest) : DspReturn :=
  let requested := s.dspRequest env.now request
  let header := requested.1.dspHeader env
  ⟨header.1, requested.2, header.2⟩

/-- A program's calls on the device, one after the other. -/
def dspCalls (s : Esddsp) (calls : List (DspEnv × DspRequest)) : Esddsp :=
  calls.foldl (fun s call => (s.dspctl call.1 call.2).state) s

end Esddsp

end Esound
