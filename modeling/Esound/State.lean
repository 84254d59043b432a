import Esound.ByteOrder

/-!
# The data of the daemon

Clients, players and samples live at addresses; the lists of the daemon hold
addresses, and the objects themselves are total functions of the address. A
freed object therefore still has contents, the ones it was freed with, which is
all the model says about a dangling pointer. The blocks that players and samples
point to with `data_buffer` are separate allocations and separate maps.

The kernel's side of a descriptor is a `Socket`: the results of the coming
`read` calls and of the coming `write` calls. Whatever a peer sends, in whatever
pieces, with interruptions wherever they occur, is one such list.
-/

open Library.Buffer

namespace Esound

/-! Format bits, protocol codes and sizes of `esd.h`. -/

def esdMaskBits : Word := 0x000F#32
def esdBits8 : Word := 0x0000#32
def esdBits16 : Word := 0x0001#32
def esdMaskChan : Word := 0x00F0#32
def esdMono : Word := 0x0010#32
def esdStereo : Word := 0x0020#32
def esdMaskMode : Word := 0x0F00#32
def esdStream : Word := 0x0000#32
def esdSample : Word := 0x0100#32
def esdMaskFunc : Word := 0xF000#32
def esdRecord : Word := 0x2000#32
def esdStop : Word := 0x0000#32
def esdLoop : Word := 0x2000#32

def esdKeyLen : ℕ := 16
def esdNameMax : ℕ := 128
def esdVolumeBase : ℤ := 256

def esdEndianKey : Word := 0x454E444E#32
def esdSwapEndianKey : Word := swapEndian32 esdEndianKey

inductive Proto
  | connect | lock | unlock
  | streamPlay | streamRec | streamMon
  | sampleCache | sampleFree | samplePlay | sampleLoop | sampleStop | sampleKill
  | standby | resume
  | sampleGetid | streamFilt
  | serverInfo | allInfo | subscribe | unsubscribe
  | streamPan | samplePan
  | standbyMode | latency
  deriving DecidableEq, Repr

namespace Proto

def all : List Proto :=
  [connect, lock, unlock, streamPlay, streamRec, streamMon, sampleCache, sampleFree, samplePlay,
    sampleLoop, sampleStop, sampleKill, standby, resume, sampleGetid, streamFilt, serverInfo,
    allInfo, subscribe, unsubscribe, streamPan, samplePan, standbyMode, latency]

/-- The row of `esd_proto_map` an int selects. -/
def ofWord (w : Word) : Option Proto := all[w.toNat]?

/-- `data_length` of `esd_proto_map`; -1 marks what is not implemented. -/
def dataLength : Proto → ℤ
  | connect | lock | unlock | standby | resume => esdKeyLen + 4
  | streamPlay | streamRec | streamMon | streamFilt => esdNameMax + 2 * 4
  | sampleCache => esdNameMax + 3 * 4
  | sampleFree | samplePlay | sampleLoop | sampleStop => 4
  | sampleKill | subscribe | unsubscribe => -1
  | sampleGetid => esdNameMax
  | serverInfo | allInfo | standbyMode => 4
  | streamPan | samplePan => 3 * 4
  | latency => 0

end Proto

/-- Addresses; 0 is `NULL`. -/
abbrev Ptr := ℕ

inductive ClientState
  | streamingData | cachingSample | needsReqdata | nextRequest
  deriving DecidableEq, Repr

/-- The functions a player may be mixed with. -/
inductive MixFunc
  | mono8uSv | stereo8uSv | mono16sSv | stereo16sSv
  | mono8u | stereo8u | mono16s | stereo16s
  deriving DecidableEq, Repr

/-- The functions a block may be translated with. -/
inductive TranslateFunc
  | fromStereo16s | fromStereo8u | fromMono16s | fromMono8u
  deriving DecidableEq, Repr

structure EsdClient where
  state : ClientState
  request : Word
  fd : ℤ
  swapByteOrder : Bool
  protoData : Mem
  protoDataLength : ℤ

/-- `name` is the string in the array; the octets behind its end are all zero. -/
structure EsdPlayer where
  parent : Ptr
  format : Word
  rate : ℤ
  leftVolScale : ℤ
  rightVolScale : ℤ
  sourceId : ℤ
  bufferLength : ℤ
  actualLength : ℤ
  lastPos : ℤ
  name : List Octet
  mixFunc : Option MixFunc
  translateFunc : Option TranslateFunc

structure EsdSample where
  parent : Ptr
  format : Word
  rate : ℤ
  leftVolScale : ℤ
  rightVolScale : ℤ
  sampleId : ℤ
  sampleLength : ℤ
  cachedLength : ℤ
  refCount : ℤ
  eraseWhenDone : Bool
  name : List Octet

/-- What a `read` may come back with: some octets (none at end of file), -1 with
`EAGAIN` or `EINTR`, or -1 with another error. -/
inductive ReadResult
  | data (octets : List Octet)
  | again
  | error
  deriving DecidableEq

namespace ReadResult

/-- The value returned. -/
def count : ReadResult → ℤ
  | data octets => octets.length
  | again | error => -1

def octets : ReadResult → List Octet
  | data octets => octets
  | again | error => []

/-- The end of the file, or an error that is no interruption. -/
def Hangup (r : ReadResult) : Prop := r.count = 0 ∨ r = .error

instance (r : ReadResult) : Decidable r.Hangup := inferInstanceAs (Decidable (_ ∨ _))

theorem not_hangup_data {bs : List Octet} (h : bs ≠ []) : ¬ (data bs).Hangup := by
  rintro (hzero | herror)
  · exact h (List.eq_nil_of_length_eq_zero (by simpa [count] using hzero))
  · cases herror

end ReadResult

/-- `input` lists what the coming reads have to deliver, the end of file behind it;
`room` what the coming writes return (everything is accepted behind it). -/
structure Socket where
  input : List ReadResult
  room : List ℤ

namespace Socket

/-- `read` of at most `n` octets. A piece that is longer is delivered in parts. -/
def read (k : Socket) (n : ℤ) : ReadResult × Socket :=
  match k.input with
  | [] => (.data [], k)
  | .data bs :: rest =>
      if (bs.length : ℤ) ≤ n then (.data bs, { k with input := rest })
      else (.data (bs.take n.toNat), { k with input := .data (bs.drop n.toNat) :: rest })
  | r :: rest => (r, { k with input := rest })

/-- `write` returns the number of octets it took, or -1. -/
def write (k : Socket) (bs : List Octet) : ℤ × Socket :=
  match k.room with
  | [] => (bs.length, k)
  | r :: rest => (if r < 0 then -1 else min r bs.length, { k with room := rest })

end Socket

/-- What the daemon does to the outside, and what it hears and plays of a stream. -/
inductive Event
  | wrote (fd : ℤ) (octets : List Octet)
  | closed (fd : ℤ)
  /-- a `read` for the player returned these octets -/
  | heard (player : Ptr) (octets : List Octet)
  /-- the mixer accounted these octets of the player as used -/
  | used (player : Ptr) (octets : List Octet)
  /-- the player was freed with these octets still in its buffer -/
  | dropped (player : Ptr) (octets : List Octet)
  deriving DecidableEq

/-- The protocol history: connections and handler calls with their results. -/
inductive Call
  | connected (client : Ptr)
  | handled (client : Ptr) (request : Proto) (protoData : List Octet) (ok : Bool)
  | resumed (client : Ptr) (ok : Bool)
  deriving DecidableEq

/-- The globals `main` fixes before the daemon serves anyone. `nextId` is `++` on the
sample id counter. -/
structure Config where
  esdBufSizeOctets : ℕ
  esdBufSizeSamples : ℕ
  esdAudioRate : ℕ
  nextId : ℤ → ℤ
  bufSize_pos : 0 < esdBufSizeOctets
  audioRate_pos : 0 < esdAudioRate

/-- `audioFd` holds the format the device was opened with while it is open. -/
structure Server where
  esdIsOwned : Bool
  esdIsLocked : Bool
  esdOwnerKey : List Octet
  esdOnStandby : Bool
  esdOnAutostandby : Bool
  esdForcedStandby : Bool
  esdAudioFormat : Word
  esdWriteSize : ℤ
  audioFd : Option Word
  esdClientsList : List Ptr
  client : Ptr → EsdClient
  esdPlayersList : List Ptr
  esdRecorderList : List Ptr
  esdMonitorList : List Ptr
  esdFilterList : List Ptr
  player : Ptr → EsdPlayer
  playerData : Ptr → Mem
  esdFirstFilterFunc : Option TranslateFunc
  esdSamplesList : List Ptr
  sample : Ptr → EsdSample
  sampleData : Ptr → Mem
  esdPlayingSamples : ℤ
  esdNextSampleId : ℤ
  mixedBuffer : ℕ → ℤ
  outputBuffer : Mem
  sockets : ℤ → Socket
  events : List Event
  calls : List Call

namespace Server

def setClient (s : Server) (c : Ptr) (v : EsdClient) : Server :=
  { s with client := Function.update s.client c v }

def setPlayer (s : Server) (p : Ptr) (v : EsdPlayer) : Server :=
  { s with player := Function.update s.player p v }

def setPlayerData (s : Server) (p : Ptr) (m : Mem) : Server :=
  { s with playerData := Function.update s.playerData p m }

def setSample (s : Server) (q : Ptr) (v : EsdSample) : Server :=
  { s with sample := Function.update s.sample q v }

def setSampleData (s : Server) (q : Ptr) (m : Mem) : Server :=
  { s with sampleData := Function.update s.sampleData q m }

def emit (s : Server) (e : Event) : Server := { s with events := s.events ++ [e] }

def record (s : Server) (c : Call) : Server := { s with calls := s.calls ++ [c] }

/-- `read( fd, .., n )`. -/
def sysRead (s : Server) (fd n : ℤ) : Server × ReadResult :=
  ({ s with sockets := Function.update s.sockets fd ((s.sockets fd).read n).2 },
    ((s.sockets fd).read n).1)

/-- `write( fd, octets, .. )`. -/
def sysWrite (s : Server) (fd : ℤ) (octets : List Octet) : Server × ℤ :=
  let r := (s.sockets fd).write octets
  ({ s with
      sockets := Function.update s.sockets fd r.2
      events := s.events ++ [.wrote fd (octets.take r.1.toNat)] }, r.1)

@[simp] theorem player_setPlayer (s : Server) (p : Ptr) (v : EsdPlayer) :
    (s.setPlayer p v).player = Function.update s.player p v := rfl

@[simp] theorem player_setPlayerData (s : Server) (p : Ptr) (m : Mem) :
    (s.setPlayerData p m).player = s.player := rfl

@[simp] theorem player_emit (s : Server) (e : Event) : (s.emit e).player = s.player := rfl

@[simp] theorem player_sysRead (s : Server) (fd n : ℤ) : (s.sysRead fd n).1.player = s.player := rfl

@[simp] theorem player_sysWrite (s : Server) (fd : ℤ) (octets : List Octet) :
    (s.sysWrite fd octets).1.player = s.player := rfl

def writeInt (s : Server) (fd : ℤ) (w : Word) : Server × ℤ := s.sysWrite fd (Word.octets w)

end Server

namespace EsdPlayer

def IsStream (p : EsdPlayer) : Prop := p.format &&& esdMaskMode = esdStream
def IsSample (p : EsdPlayer) : Prop := p.format &&& esdMaskMode = esdSample

instance (p : EsdPlayer) : Decidable p.IsStream := inferInstanceAs (Decidable (_ = _))
instance (p : EsdPlayer) : Decidable p.IsSample := inferInstanceAs (Decidable (_ = _))

theorem IsStream.not_isSample {p : EsdPlayer} (h : p.IsStream) : ¬ p.IsSample := by
  intro h'
  have hmode : esdStream = esdSample := h.symm.trans h'
  exact absurd hmode (by decide)

end EsdPlayer

/-- `strncpy` into an array of `ESD_NAME_MAX` whose last octet is then cleared. -/
def nameOf (m : Mem) (off : ℕ) : List Octet :=
  ((load m off esdNameMax).takeWhile (· ≠ 0)).take (esdNameMax - 1)

/-- A string with its end in the array. -/
def IsName (name : List Octet) : Prop := name.length < esdNameMax ∧ 0 ∉ name

theorem isName_nameOf (m : Mem) (off : ℕ) : IsName (nameOf m off) := by
  refine ⟨?_, fun h => ?_⟩
  · simp only [nameOf, esdNameMax, List.length_take]
    omega
  · have hne := List.all_eq_true.mp List.all_takeWhile _ (List.mem_of_mem_take h)
    simp at hne

/-- The array a name is kept in. -/
def nameArray (name : List Octet) : List Octet :=
  name ++ List.replicate (esdNameMax - name.length) 0

end Esound
