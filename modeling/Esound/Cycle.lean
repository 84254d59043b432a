import Esound.Players

/-!
# One round of sound

What the main loop does between two looks at its clients: `mix_players`, then the
filters, the monitors and the recorders, each of which may lose a player on the
way; and the audio device with its standby state. The loops walk the list they
find at the start, since the successor of a player is taken before it is erased.
-/

open Library.Buffer Library.Loop

namespace Esound

/-! ## The device -/

/-- `esd_audio_open`; a driver that opens the device also sets the block size. -/
def esdAudioOpen (s : Server) (r : Option ℤ) : Server × Bool :=
  match r with
  | none => (s, false)
  | some size => ({ s with audioFd := some s.esdAudioFormat, esdWriteSize := size }, true)

def esdAudioClose (s : Server) : Server := { s with audioFd := none }

def esdServerStandby (s : Server) : Server × Bool :=
  if s.esdOnStandby then (s, true)
  else (esdAudioClose { s with esdOnStandby := true }, true)

def esdServerResume (s : Server) (r : Option ℤ) : Server × Bool :=
  if s.esdOnStandby then
    match esdAudioOpen s r with
    | (s, false) => (s, false)
    | (s, true) =>
      ({ s with esdOnStandby := false, esdOnAutostandby := false, esdForcedStandby := false },
        true)
  else (s, true)

/-! ## `mix_players` -/

/-- Octets of a frame of the player. -/
def frameOctets (pl : EsdPlayer) : ℤ :=
  let iBps := 4
  let iBps := if pl.format &&& esdMaskBits = esdBits8 then iBps / 2 else iBps
  if pl.format &&& esdMaskChan = esdMono then iBps / 2 else iBps

/-- How much of the mix buffer the player can fill. -/
def translated (cfg : Config) (pl : EsdPlayer) (length : ℤ) : ℤ :=
  let frames := pl.actualLength.tdiv (frameOctets pl)
  let t := (int32 (int32 (int32 (frames * cfg.esdAudioRate) + pl.rate) - 1)).tdiv pl.rate
  let t := int32 (t * 4)
  if t > length then length else t

/-- What the player gave for `actual` mixed octets. The division by a `sizeof` makes the
product and the quotient 64 bit unsigned. -/
def usedOctets (cfg : Config) (pl : EsdPlayer) (actual : ℤ) : ℤ :=
  let used := int32 (actual / 4 * pl.rate % 2 ^ 64 / cfg.esdAudioRate)
  let used := if pl.format &&& esdMaskBits ≠ esdBits8 then int32 (used * 2) else used
  if pl.format &&& esdMaskChan ≠ esdMono then int32 (used * 2) else used

/-- The reading half for one player; the second component is `min`. -/
def mixReadOne (cfg : Config) (canRead : Ptr → Bool) (length : ℤ) (acc : Server × ℤ) (p : Ptr) :
    Server × ℤ :=
  let (s, actual) := readPlayer (canRead p) acc.1 p
  if actual = 0 ∧ (s.player p).actualLength = 0 then (s, acc.2)
  else if actual < 0 then (erasePlayer s p, acc.2)
  else
    let t := translated cfg (s.player p) length
    (s, if acc.2 = 0 then t else if acc.2 > t then t else acc.2)

/-- The player moves what is left to the start of its buffer. -/
def consume (s : Server) (p : Ptr) (used : ℤ) : Server :=
  let pl := s.player p
  let data := s.playerData p
  if pl.actualLength - used > 0 then
    ((s.setPlayerData p (moveDown data used (pl.actualLength - used).toNat)).setPlayer p
      { pl with actualLength := pl.actualLength - used }).emit (.used p (load data 0 used.toNat))
  else
    (s.setPlayer p { pl with actualLength := 0 }).emit
      (.used p (load data 0 pl.actualLength.toNat))

/-- The mixing half for one player; the second component is `max`. -/
def mixOne (cfg : Config) (length : ℤ) (acc : Server × ℤ) (p : Ptr) : Server × ℤ :=
  let s := acc.1
  let pl := s.player p
  match pl.mixFunc with
  | none => acc
  | some f =>
    if pl.actualLength > 0 then
      let (mixed, actual) := f.apply cfg pl (s.playerData p) length s.mixedBuffer
      (consume { s with mixedBuffer := mixed } p (usedOctets cfg pl actual), max acc.2 actual)
    else acc

def clearMix (cfg : Config) (s : Server) : Server :=
  { s with mixedBuffer := fun i => if i < cfg.esdBufSizeSamples then 0 else s.mixedBuffer i }

/-- The first half: the players are read, and the least of what they can fill is found. -/
def mixRead (cfg : Config) (canRead : Ptr → Bool) (s : Server) : Server × ℤ :=
  s.esdPlayersList.foldl (mixReadOne cfg canRead cfg.esdBufSizeOctets) (clearMix cfg s, 0)

/-- The second half, over the players that are left. -/
def mixAll (cfg : Config) (least : ℤ) (s : Server) : Server × ℤ :=
  s.esdPlayersList.foldl (mixOne cfg least) (s, 0)

/-- The mix in the format of the device, and its length there. -/
def clipMix (s : Server) (most : ℤ) : Server × ℤ :=
  if s.esdAudioFormat &&& esdMaskBits = esdBits16 then
    ({ s with outputBuffer := clipMixToOutput16s s.mixedBuffer s.outputBuffer most }, most)
  else
    ({ s with outputBuffer := clipMixToOutput8u s.mixedBuffer s.outputBuffer most }, most.tdiv 2)

def mixPlayers (cfg : Config) (canRead : Ptr → Bool) (s : Server) : Server × ℤ :=
  let (s, least) := mixRead cfg canRead s
  if least > 0 then
    let (s, most) := mixAll cfg least s
    clipMix s most
  else (s, 0)

/-! ## Filters -/

/-- The conversion of a filter is the one from its own format, whatever comes next. -/
def refreshMixFuncs (s : Server) : Server :=
  if s.esdFilterList = [] then s
  else
    { s with
      esdFirstFilterFunc := some (getTranslateFunc s.esdAudioFormat)
      player := fun p =>
        if p ∈ s.esdFilterList then
          { s.player p with translateFunc := some (getTranslateFunc (s.player p).format) }
        else s.player p }

/-- The locals of the write loop of `filter_write`. -/
structure FilterWrite where
  srv : Server
  total : ℤ
  erase : Bool

def filterWriteRound (p : Ptr) (dataSize : ℤ) (r : FilterWrite) : Option FilterWrite :=
  if r.total < dataSize then
    let (s, actual) := r.srv.sysWrite (r.srv.player p).sourceId
      (load (r.srv.playerData p) r.total (dataSize - r.total).toNat)
    if actual ≤ 0 then some ⟨s, dataSize, true⟩ else some ⟨s, r.total + actual, r.erase⟩
  else none

/-- The whole block has to be taken; a filter that does not is to be erased. -/
def filterSend (s : Server) (p : Ptr) (dataSize : ℤ) : FilterWrite :=
  whileFuel (filterWriteRound p dataSize) (dataSize.toNat + 1) ⟨s, 0, false⟩

/-- Writing a block to a filter and reading what it has for the daemon. What was read is
taken off again at once: the block is in the buffer, and the buffer counts as empty.
The result says whether the filter is to be erased. -/
def filterExchange (canRead : Bool) (s : Server) (p : Ptr) (dataSize : ℤ) : Server × Bool :=
  let r := filterSend s p dataSize
  if r.erase then (r.srv, true)
  else
    let (s, actual) := readPlayer canRead r.srv p
    if actual ≥ 0 then
      (s.setPlayer p { s.player p with actualLength := (s.player p).actualLength - actual }, false)
    else (s, true)

/-- The translation out of a filter: into the next filter, or into the output buffer. -/
def filterTranslate (cfg : Config) (size : ℤ) (s : Server) (p : Ptr) (next : Option Ptr) :
    Server × ℤ :=
  let pl := s.player p
  match pl.translateFunc with
  | none => (s, 0)
  | some f =>
    match next with
    | some p' =>
      let pl' := s.player p'
      let (data, n) := f.apply (s.playerData p') pl'.bufferLength.toNat pl'.rate pl'.format
        (s.playerData p) pl.bufferLength pl.rate
      (s.setPlayerData p' data, n)
    | none =>
      let (data, n) := f.apply s.outputBuffer size.toNat cfg.esdAudioRate s.esdAudioFormat
        (s.playerData p) pl.bufferLength pl.rate
      ({ s with outputBuffer := data }, n)

/-- One filter, in the loop or, at its end, out of the list. -/
def filterOne (cfg : Config) (canRead : Bool) (size : ℤ) (s : Server) (p : Ptr) (next : Option Ptr)
    (dataSize : ℤ) : Server × ℤ :=
  let (s, erase) := filterExchange canRead s p dataSize
  let (s, dataSize) := filterTranslate cfg size s p next
  (if erase then eraseFilter s p else s, dataSize)

def filterLoop (cfg : Config) (canRead : Ptr → Bool) (size : ℤ) :
    List Ptr → Server → ℤ → Server × ℤ
  | [], s, dataSize => (s, dataSize)
  | p :: ps, s, dataSize =>
    let (s, dataSize) := filterOne cfg (canRead p) size s p ps.head? dataSize
    filterLoop cfg canRead size ps s dataSize

/-- The block for the first filter, in its buffer. -/
def filterFirst (cfg : Config) (s : Server) (size : ℤ) : Option (Server × ℤ) :=
  match s.esdFilterList, s.esdFirstFilterFunc with
  | p :: _, some f =>
    let pl := s.player p
    let (data, dataSize) := f.apply (s.playerData p) pl.bufferLength.toNat pl.rate pl.format
      s.outputBuffer size cfg.esdAudioRate
    some (s.setPlayerData p data, dataSize)
  | _, _ => none

def filterWrite (cfg : Config) (canRead : Ptr → Bool) (s : Server) (size : ℤ) : Server × ℤ :=
  match filterFirst cfg s size with
  | none => (s, size)
  | some (s, dataSize) => filterLoop cfg canRead size s.esdFilterList s dataSize

/-! ## Monitors and recorders -/

/-- The translation of a block into the buffer of a player. -/
def translateInto (cfg : Config) (s : Server) (p : Ptr) (length : ℤ) : Server × ℤ :=
  let pl := s.player p
  match pl.translateFunc with
  | none => (s, 0)
  | some f =>
    let (data, n) := f.apply (s.playerData p) pl.bufferLength.toNat pl.rate pl.format
      s.outputBuffer length cfg.esdAudioRate
    (s.setPlayerData p data, n)

/-- `write( source_id, data_buffer, buffer_length )`. -/
def writeBuffer (s : Server) (p : Ptr) : Server × ℤ :=
  s.sysWrite (s.player p).sourceId
    (load (s.playerData p) 0 (s.player p).bufferLength.toNat)

/-- One monitor. The second component is `length`: the result of a write to a monitor is the
length of the block for the next one. -/
def monitorOne (cfg : Config) (canWrite : Ptr → Bool) (acc : Server × ℤ) (p : Ptr) :
    Server × ℤ :=
  if canWrite p then
    let (s, _) := translateInto cfg acc.1 p acc.2
    let (s, length) := writeBuffer s p
    if length < 0 then (eraseMonitor (eraseClient s (s.player p).parent) p, length)
    else (s, length)
  else acc

def monitorWrite (cfg : Config) (canWrite : Ptr → Bool) (s : Server) (length : ℤ) : Server :=
  (s.esdMonitorList.foldl (monitorOne cfg canWrite) (s, length)).1

/-- `select` on the socket of a recorder, and whether its read set shows the end of file. -/
structure RecorderPoll where
  ready : ℤ
  eof : Bool

def writePlayer (cfg : Config) (poll : RecorderPoll) (s : Server) (p : Ptr) (srcLength : ℤ) :
    Server × ℤ :=
  if poll.ready > 0 then
    if poll.eof then (s, -1)
    else
      let pl := s.player p
      let (s, length) := translateInto cfg s p srcLength
      let data := s.playerData p
      let data :=
        if (s.client pl.parent).swapByteOrder ∧ pl.format &&& esdMaskBits = esdBits16 then
          swapShorts (fun x => x.setWidth 32) data 0 (length / 2).toNat
        else data
      let (s, length) := writeBuffer (s.setPlayerData p data) p
      (s, if length < 0 then -1 else 0)
  else if poll.ready < 0 then (s, -1)
  else (s, 0)

def recorderOne (cfg : Config) (poll : Ptr → RecorderPoll) (length : ℤ) (acc : Server × ℤ)
    (p : Ptr) : Server × ℤ :=
  let (s, wroteLen) := writePlayer cfg (poll p) acc.1 p length
  if wroteLen < 0 then (eraseRecorder (eraseClient s (s.player p).parent) p, wroteLen)
  else (s, wroteLen)

/-- When the last recorder is gone the device is opened again without recording. -/
def recorderWrite (cfg : Config) (poll : Ptr → RecorderPoll) (reopen : Option ℤ) (s : Server)
    (length : ℤ) : Server × ℤ :=
  let (s, wroteLen) := s.esdRecorderList.foldl (recorderOne cfg poll length) (s, 0)
  if s.esdRecorderList = [] then
    let s := esdAudioClose s
    let s := { s with esdAudioFormat := s.esdAudioFormat &&& ~~~esdRecord }
    ((esdAudioOpen s reopen).1, wroteLen)
  else (s, wroteLen)

end Esound
