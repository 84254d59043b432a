import Esound.Mix
import Esound.Samples

/-!
# Players

`players.c` up to the reading of data, and what `samples.c` does with players.
The four lists of players have the same functions for adding and erasing, one
copy for each list in the source.
-/

open Library.Buffer Library.Loop

namespace Esound

inductive PlayerList
  | players | recorders | monitors | filters
  deriving DecidableEq, Repr

namespace Server

def list (s : Server) : PlayerList → List Ptr
  | .players => s.esdPlayersList
  | .recorders => s.esdRecorderList
  | .monitors => s.esdMonitorList
  | .filters => s.esdFilterList

def setList (s : Server) (l : PlayerList) (ps : List Ptr) : Server :=
  match l with
  | .players => { s with esdPlayersList := ps }
  | .recorders => { s with esdRecorderList := ps }
  | .monitors => { s with esdMonitorList := ps }
  | .filters => { s with esdFilterList := ps }

@[simp] theorem list_setPlayer (s : Server) (p : Ptr) (v : EsdPlayer) :
    (s.setPlayer p v).list = s.list := rfl

@[simp] theorem list_setPlayerData (s : Server) (p : Ptr) (m : Mem) :
    (s.setPlayerData p m).list = s.list := rfl

@[simp] theorem list_emit (s : Server) (e : Event) : (s.emit e).list = s.list := rfl

@[simp] theorem list_sysRead (s : Server) (fd n : ℤ) : (s.sysRead fd n).1.list = s.list := rfl

@[simp] theorem list_sysWrite (s : Server) (fd : ℤ) (octets : List Octet) :
    (s.sysWrite fd octets).1.list = s.list := rfl

/-- Every player the daemon knows, in all four lists. -/
def allPlayers (s : Server) : List Ptr :=
  s.esdPlayersList ++ s.esdRecorderList ++ s.esdMonitorList ++ s.esdFilterList

end Server

def freePlayer (s : Server) (p : Ptr) : Server :=
  let pl := s.player p
  let s :=
    if pl.IsStream then eraseClient s pl.parent
    else if pl.IsSample then
      let sm := { s.sample pl.parent with refCount := (s.sample pl.parent).refCount - 1 }
      let s := { s.setSample pl.parent sm with esdPlayingSamples := s.esdPlayingSamples - 1 }
      if sm.eraseWhenDone ∧ sm.refCount = 0 then eraseSample s sm.sampleId false else s
    else s
  s.emit (.dropped p (load (s.playerData p) 0 pl.actualLength.toNat))

def pushTo (s : Server) (l : PlayerList) (p : Ptr) : Server := s.setList l (p :: s.list l)

def eraseFrom (s : Server) (l : PlayerList) (p : Ptr) : Server :=
  if p ∈ s.list l then freePlayer (s.setList l ((s.list l).erase p)) p else s

def addPlayer (s : Server) (p : Ptr) : Server := pushTo s .players p
def addRecorder (s : Server) (p : Ptr) : Server := pushTo s .recorders p
def erasePlayer (s : Server) (p : Ptr) : Server := eraseFrom s .players p
def eraseRecorder (s : Server) (p : Ptr) : Server := eraseFrom s .recorders p
def eraseMonitor (s : Server) (p : Ptr) : Server := eraseFrom s .monitors p
def eraseFilter (s : Server) (p : Ptr) : Server := eraseFrom s .filters p

/-! ## New players -/

/-- The buffer a player needs for one mix buffer of the daemon, a multiple of 4. -/
def bufferLength (cfg : Config) (format : Word) (rate : ℤ) : ℤ :=
  let len := (int32 (cfg.esdBufSizeOctets * rate)).tdiv cfg.esdAudioRate
  let len := if format &&& esdMaskBits = esdBits8 then len.tdiv 2 else len
  let len := if format &&& esdMaskChan = esdMono then len.tdiv 2 else len
  len - len.tmod 4

theorem bufferLength_dvd (cfg : Config) (format : Word) (rate : ℤ) :
    4 ∣ bufferLength cfg format rate := by
  simp only [bufferLength]
  exact Int.dvd_self_sub_tmod

/-- The player, or `NULL`; no list has it yet and it has no parent. Buffers of sockets
are a matter of the kernel. -/
def newStreamPlayer (cfg : Config) (env : PollEnv) (s : Server) (c : Ptr) : Server × Ptr :=
  let cl := s.client c
  if env.malloc = 0 then (s, 0)
  else
    let format := maybeSwap32 cl.swapByteOrder (cl.protoData.int 0) &&& ~~~esdMaskMode
    let rate := (maybeSwap32 cl.swapByteOrder (cl.protoData.int 4)).toInt
    let pl :=
      { s.player env.malloc with
        parent := 0
        format := format
        rate := rate
        sourceId := cl.fd
        name := nameOf cl.protoData 8
        bufferLength := bufferLength cfg format rate
        actualLength := 0
        leftVolScale := esdVolumeBase
        rightVolScale := esdVolumeBase
        translateFunc := none }
    match getMixFunc pl with
    | none => (s, 0)
    | some f =>
      if env.mallocData ∧ 0 ≤ pl.bufferLength then
        (s.setPlayer env.malloc { pl with mixFunc := some f }, env.malloc)
      else (s, 0)

/-- A player of a sample, looping or not; otherwise the bits are those of the sample. -/
def samplePlayerFormat (format : Word) (loop : Bool) : Word :=
  let format := (format &&& ~~~esdMaskMode) ||| esdSample
  if loop then (format &&& ~~~esdMaskFunc) ||| esdLoop else format

def newSamplePlayer (cfg : Config) (env : PollEnv) (s : Server) (id : ℤ) (loop : Bool) :
    Server × Ptr :=
  match findSample s id with
  | none => (s, 0)
  | some q =>
    let sm := s.sample q
    if env.malloc = 0 then (s, 0)
    else
      let format := samplePlayerFormat sm.format loop
      let pl :=
        { s.player env.malloc with
          parent := q
          format := format
          rate := sm.rate
          sourceId := sm.sampleId
          leftVolScale := sm.leftVolScale
          rightVolScale := sm.rightVolScale
          bufferLength := bufferLength cfg format sm.rate
          translateFunc := none
          lastPos := 0
          actualLength := 0 }
      match getMixFunc pl with
      | none => (s, 0)
      | some f =>
        if env.mallocData ∧ 0 ≤ pl.bufferLength then
          let s := s.setPlayer env.malloc { pl with mixFunc := some f }
          let s := { s with esdPlayingSamples := s.esdPlayingSamples + 1 }
          (s.setSample q { sm with refCount := sm.refCount + 1 }, env.malloc)
        else (s, 0)

def playSample (cfg : Config) (env : PollEnv) (s : Server) (id : ℤ) (loop : Bool) :
    Server × Bool :=
  let (s, p) := newSamplePlayer cfg env s id loop
  if p = 0 then (s, false) else (addPlayer s p, true)

def stopSample (s : Server) (id : ℤ) : Server × Bool :=
  match s.esdPlayersList.find? fun p => (s.player p).IsSample ∧ (s.player p).sourceId = id with
  | none => (s, false)
  | some p =>
    let pl := s.player p
    (s.setPlayer p { pl with format := (pl.format &&& ~~~esdMaskFunc) ||| esdStop }, true)

/-! ## Reading -/

/-- The `read` into the free part of the buffer. -/
def hearStream (s : Server) (p : Ptr) : Server × ReadResult :=
  let pl := s.player p
  let (s, r) := s.sysRead pl.sourceId (pl.bufferLength - pl.actualLength)
  ((s.setPlayerData p (store (s.playerData p) pl.actualLength r.octets)).emit (.heard p r.octets), r)

/-- The swapped shorts are counted from the `actual_length`-th short. -/
def swapStream (cl : EsdClient) (pl : EsdPlayer) (data : Mem) (actual : ℤ) : Mem :=
  let start := pl.actualLength.toNat
  if cl.swapByteOrder ∧ pl.format &&& esdMaskBits = esdBits16 then
    swapShorts (fun x => x.setWidth 32) data start (start + (actual / 2).toNat)
  else data

/-- The `ESD_STREAM` case of `read_player`. `select` can only make the condition true or
false. Whatever was read is in the buffer, but a read that is shorter than what was
asked for leaves before `actual_length` counts it. -/
def readStream (canRead : Bool) (s : Server) (p : Ptr) : Server × ℤ :=
  let pl := s.player p
  if pl.actualLength < pl.bufferLength ∧ canRead then
    let (s, r) := hearStream s p
    if r.Hangup then (s, -1)
    else if r.count < pl.bufferLength - pl.actualLength then (s, r.count)
    else
      ((s.setPlayerData p (swapStream (s.client pl.parent) pl (s.playerData p) r.count)).setPlayer p
        { pl with actualLength := pl.actualLength + r.count }, r.count)
  else (s, 0)

/-- The locals of the `ESD_SAMPLE` case. -/
structure SampleRead where
  pl : EsdPlayer
  data : Mem
  actual : ℤ
  going : Bool

/-- How much of the sample fits in the player. -/
def sampleChunk (sm : EsdSample) (pl : EsdPlayer) : ℤ :=
  min (sm.sampleLength - pl.lastPos) (pl.bufferLength - pl.actualLength)

def copyChunk (sampleData : Mem) (n : ℤ) (r : SampleRead) : SampleRead :=
  { r with
    pl := { r.pl with lastPos := r.pl.lastPos + n, actualLength := r.pl.actualLength + n }
    data := store r.data r.pl.actualLength (load sampleData r.pl.lastPos n.toNat)
    actual := r.actual + n }

/-- Back to the start at the end of the sample, out of the loop if it is to stop. -/
def wrapChunk (sm : EsdSample) (r : SampleRead) : SampleRead :=
  if r.pl.lastPos ≥ sm.sampleLength then
    { r with
      pl := { r.pl with lastPos := 0 }
      going := decide (sm.format &&& esdMaskFunc ≠ esdStop) }
  else r

def loopRound (sm : EsdSample) (sampleData : Mem) (r : SampleRead) : Option SampleRead :=
  if r.going ∧ r.pl.actualLength < r.pl.bufferLength then
    let r := wrapChunk sm r
    if r.going then
      let n := sampleChunk sm r.pl
      if n > 0 then some (wrapChunk sm (copyChunk sampleData n r)) else some r
    else some r
  else none

/-- The first chunk, and for a player that loops as many more as it takes to fill it. -/
def fillFromSample (sm : EsdSample) (sampleData : Mem) (pl : EsdPlayer) (data : Mem) :
    SampleRead :=
  let r := copyChunk sampleData (sampleChunk sm pl) ⟨pl, data, 0, true⟩
  if r.pl.actualLength = r.pl.bufferLength ∨ pl.format &&& esdMaskFunc ≠ esdLoop then r
  else whileFuel (loopRound sm sampleData) ((r.pl.bufferLength - r.pl.actualLength).toNat + 1) r

/-- The `ESD_SAMPLE` case of `read_player`. -/
def readSamplePlayer (s : Server) (p : Ptr) : Server × ℤ :=
  let pl := s.player p
  let sm := s.sample pl.parent
  if pl.lastPos = 0 ∧ sm.format &&& esdMaskFunc = esdStop then (s, -1)
  else if sampleChunk sm pl > 0 then
    let r := fillFromSample sm (s.sampleData pl.parent) pl (s.playerData p)
    ((s.setPlayerData p r.data).setPlayer p r.pl, r.actual)
  else (s, -1)

/-- A negative result has the player erased. -/
def readPlayer (canRead : Bool) (s : Server) (p : Ptr) : Server × ℤ :=
  if (s.player p).IsStream then readStream canRead s p
  else if (s.player p).IsSample then readSamplePlayer s p
  else (s, -1)

end Esound
