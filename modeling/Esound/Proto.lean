import Esound.Cycle

/-!
# The protocol

The handlers of `proto.c` and `poll_client_requests`. A handler returns the server
and whether its client may stay. Results of writes that the source does not look at
are dropped here too.
-/

open Library.Buffer Library.Loop

namespace Esound

/-- An int parameter of the request, in the daemon's byte order. -/
def EsdClient.param (cl : EsdClient) (off : ℕ) : ℤ :=
  (maybeSwap32 cl.swapByteOrder (cl.protoData.int off)).toInt

/-- The key at the start of the request data. -/
def EsdClient.key (cl : EsdClient) : List Octet := load cl.protoData 0 esdKeyLen

/-- An int reply in the client's byte order, and the result of the write. -/
def reply (s : Server) (c : Ptr) (x : ℤ) : Server × ℤ :=
  s.writeInt (s.client c).fd (maybeSwap32 (s.client c).swapByteOrder (BitVec.ofInt 32 x))

/-- A reply whose write is checked: 0 if less than an int was taken. -/
def checkedReply (s : Server) (c : Ptr) (x : ℤ) : Server × Bool :=
  let (s, actual) := reply s c x
  (s, decide (actual = 4))

/-! ## Authorization -/

def esdCheckEndian (s : Server) (c : Ptr) (endian : Word) : Server × Bool :=
  if endian = esdEndianKey then
    (s.setClient c { s.client c with swapByteOrder := false }, true)
  else if endian = esdSwapEndianKey then
    (s.setClient c { s.client c with swapByteOrder := true }, true)
  else (s, false)

/-- Writes its verdict in the daemon's own byte order. -/
def esdValidateSource (s : Server) (c : Ptr) (submittedKey : List Octet) (ownerOnly : Bool) :
    Server × Bool :=
  let fd := (s.client c).fd
  if s.esdIsOwned = false then
    let s := { s with esdIsLocked := true, esdOwnerKey := submittedKey, esdIsOwned := true }
    ((s.writeInt fd 1#32).1, true)
  else if s.esdIsLocked = false ∧ ownerOnly = false then ((s.writeInt fd 1#32).1, true)
  else if s.esdOwnerKey = submittedKey then ((s.writeInt fd 1#32).1, true)
  else ((s.writeInt fd 0#32).1, false)

def esdProtoUnimplemented (s : Server) (_c : Ptr) : Server × Bool := (s, false)

def esdProtoConnect (s : Server) (c : Ptr) : Server × Bool :=
  let cl := s.client c
  match esdValidateSource s c cl.key false with
  | (s, true) => esdCheckEndian s c (cl.protoData.int esdKeyLen)
  | (s, false) => (s, false)

def esdProtoLock (s : Server) (c : Ptr) : Server × Bool :=
  let (s, ok) := esdValidateSource s c (s.client c).key true
  let s := if ok then { s with esdIsLocked := true } else s
  ((reply s c (if ok then 1 else 0)).1, ok)

def esdProtoUnlock (s : Server) (c : Ptr) : Server × Bool :=
  let (s, ok) := esdValidateSource s c (s.client c).key true
  let s := if ok then { s with esdIsLocked := false } else s
  ((reply s c (if ok then 1 else 0)).1, ok)

/-- The forced flag does not depend on the verdict. -/
def esdProtoStandby (s : Server) (c : Ptr) : Server × Bool :=
  let (s, ok) := esdValidateSource s c (s.client c).key true
  let (s, ok) := if ok then esdServerStandby s else (s, ok)
  let s := if s.esdOnAutostandby = false then { s with esdForcedStandby := true } else s
  ((reply s c (if ok then 1 else 0)).1, ok)

def esdProtoResume (env : PollEnv) (s : Server) (c : Ptr) : Server × Bool :=
  let (s, ok) := esdValidateSource s c (s.client c).key true
  let (s, ok) := if ok then esdServerResume s (env.audioOpen 0) else (s, ok)
  let s := if ok then { s with esdForcedStandby := false } else s
  ((reply s c (if ok then 1 else 0)).1, ok)

/-! ## Streams -/

def setStreaming (s : Server) (c : Ptr) : Server :=
  s.setClient c { s.client c with state := .streamingData }

def setParent (s : Server) (p c : Ptr) : Server :=
  s.setPlayer p { s.player p with parent := c }

def setTranslateFunc (s : Server) (p : Ptr) : Server :=
  s.setPlayer p { s.player p with translateFunc := some (getTranslateFunc s.esdAudioFormat) }

def esdProtoStreamPlay (cfg : Config) (env : PollEnv) (s : Server) (c : Ptr) : Server × Bool :=
  let (s, p) := newStreamPlayer cfg env s c
  if p = 0 then (s, false)
  else (setStreaming (addPlayer (setParent s p c) p) c, true)

def joinRecorders (s : Server) (c p : Ptr) : Server × Bool :=
  (setStreaming (setTranslateFunc (setParent (addRecorder s p) p c) p) c, true)

/-- The device could not be opened to record, and is opened to play again. The recorder
has no parent yet, so that erasing its client finds none. -/
def giveUpRecorder (env : PollEnv) (s : Server) (p : Ptr) : Server :=
  let s := freePlayer s p
  let s := { s with esdAudioFormat := s.esdAudioFormat &&& ~~~esdRecord }
  (esdAudioOpen s (env.audioOpen 2)).1

def reopenToRecord (env : PollEnv) (s : Server) (c p : Ptr) : Server × Bool :=
  let s := esdAudioClose s
  let s := { s with esdAudioFormat := s.esdAudioFormat ||| esdRecord }
  match esdAudioOpen s (env.audioOpen 1) with
  | (s, true) => joinRecorders s c p
  | (s, false) => (giveUpRecorder env s p, false)

def startRecorder (cfg : Config) (env : PollEnv) (s : Server) (c : Ptr) : Server × Bool :=
  if s.esdOnStandby then (s, false)
  else
    let (s, p) := newStreamPlayer cfg env s c
    if p = 0 then (s, false)
    else if s.esdAudioFormat &&& esdRecord = 0#32 then reopenToRecord env s c p
    else joinRecorders s c p

/-- An automatic standby is ended first, whether or not the device opens. -/
def esdProtoStreamRecorder (cfg : Config) (env : PollEnv) (s : Server) (c : Ptr) :
    Server × Bool :=
  if s.esdOnAutostandby ∧ s.esdForcedStandby = false then
    startRecorder cfg env (esdServerResume s (env.audioOpen 0)).1 c
  else startRecorder cfg env s c

def esdProtoStreamMonitor (cfg : Config) (env : PollEnv) (s : Server) (c : Ptr) :
    Server × Bool :=
  let (s, p) := newStreamPlayer cfg env s c
  if p = 0 then (s, false)
  else (setStreaming (setTranslateFunc (pushTo (setParent s p c) .monitors p) p) c, true)

def esdProtoStreamFilter (cfg : Config) (env : PollEnv) (s : Server) (c : Ptr) :
    Server × Bool :=
  let (s, p) := newStreamPlayer cfg env s c
  if p = 0 then (s, false)
  else (setStreaming (pushTo (setParent s p c) .filters p) c, true)

/-! ## Samples -/

/-- The second half of `esd_proto_sample_cache`, with the sample it works on. -/
def cacheInto (cfg : Config) (s : Server) (c q : Ptr) : Server × Bool :=
  let s := s.setSample q { s.sample q with parent := c }
  match readSample cfg s q with
  | (s, false) => (s, false)
  | (s, true) =>
    if (s.sample q).cachedLength < (s.sample q).sampleLength then
      (s.setClient c { s.client c with state := .cachingSample }, true)
    else
      let s := s.setClient c { s.client c with state := .nextRequest }
      ((reply s c (s.sample q).sampleId).1, true)

/-- `none` when the search for a half-cached sample does not end. -/
def esdProtoSampleCache (cfg : Config) (env : PollEnv) (s : Server) (c : Ptr) :
    Option (Server × Bool) :=
  if (s.client c).state = .cachingSample then
    match findCachingSample s c with
    | none => none
    | some q => if q = 0 then some (s, false) else some (cacheInto cfg s c q)
  else
    let (s, q) := newSample cfg env s c
    if q = 0 then some (s, false) else some (cacheInto cfg (addSample s q) c q)

def esdProtoSampleGetid (s : Server) (c : Ptr) : Server × Bool :=
  let name := nameOf (s.client c).protoData 0
  match s.esdSamplesList.find? fun q => (s.sample q).name = name with
  | some q => ((reply s c (s.sample q).sampleId).1, true)
  | none => ((reply s c (-1)).1, true)

/-- The client's own int, sent back as it came. -/
def replyId (s : Server) (c : Ptr) : Server × Bool :=
  let (s, actual) := s.writeInt (s.client c).fd ((s.client c).protoData.int 0)
  (s, decide (actual = 4))

def esdProtoSampleFree (s : Server) (c : Ptr) : Server × Bool :=
  replyId (eraseSample s ((s.client c).param 0) false) c

/-- The reply is the id of the request, whether or not there is a player now. -/
def esdProtoSamplePlay (cfg : Config) (env : PollEnv) (s : Server) (c : Ptr) : Server × Bool :=
  replyId (playSample cfg env s ((s.client c).param 0) false).1 c

def esdProtoSampleLoop (cfg : Config) (env : PollEnv) (s : Server) (c : Ptr) : Server × Bool :=
  replyId (playSample cfg env s ((s.client c).param 0) true).1 c

def esdProtoSampleStop (s : Server) (c : Ptr) : Server × Bool :=
  replyId (stopSample s ((s.client c).param 0)).1 c

/-! ## Information and panning -/

/-- A row of writes; the result is the one of the last. -/
def writeAll (s : Server) (fd : ℤ) : List (List Octet) → Server × ℤ
  | [] => (s, 0)
  | [bs] => s.sysWrite fd bs
  | bs :: rest => writeAll (s.sysWrite fd bs).1 fd rest

def esdProtoServerInfo (s : Server) (cfg : Config) (c : Ptr) : Server × Bool :=
  let cl := s.client c
  let (s, actual) := writeAll s cl.fd
    [(maybeSwap32 cl.swapByteOrder 0#32).octets,
      (maybeSwap32 cl.swapByteOrder (BitVec.ofInt 32 cfg.esdAudioRate)).octets,
      (maybeSwap32 cl.swapByteOrder s.esdAudioFormat).octets]
  (s, decide (actual = 4))

def playerScales (cl : EsdClient) (s : Server) (p : Ptr) : Word × Word :=
  (maybeSwap32 cl.swapByteOrder (BitVec.ofInt 32 (s.player p).leftVolScale),
    maybeSwap32 cl.swapByteOrder (BitVec.ofInt 32 (s.player p).rightVolScale))

def playerRow (cl : EsdClient) (s : Server) (p : Ptr) : List (List Octet) :=
  let pl := s.player p
  let name := if pl.IsStream then pl.name else (s.sample pl.parent).name
  [(maybeSwap32 cl.swapByteOrder (BitVec.ofInt 32 pl.sourceId)).octets, nameArray name,
    (maybeSwap32 cl.swapByteOrder (BitVec.ofInt 32 pl.rate)).octets,
    (playerScales cl s p).1.octets, (playerScales cl s p).2.octets,
    (maybeSwap32 cl.swapByteOrder pl.format).octets]

/-- The player part of the reply; `scales` are the two variables that keep what the last
player put in them when the closing entry is written. -/
def writePlayers (cl : EsdClient) : List Ptr → Word × Word → Server → Server × Bool
  | [], scales, s =>
    let (s, actual) := writeAll s cl.fd
      [Word.octets 0#32, nameArray [], Word.octets 0#32, scales.1.octets, scales.2.octets,
        Word.octets 0#32]
    (s, decide (actual = 4))
  | p :: ps, _, s =>
    let scales := playerScales cl s p
    let (s, actual) := writeAll s cl.fd (playerRow cl s p)
    if actual = 4 then writePlayers cl ps scales s else (s, false)

def sampleScales (cl : EsdClient) (s : Server) (q : Ptr) : Word × Word :=
  (maybeSwap32 cl.swapByteOrder (BitVec.ofInt 32 (s.sample q).leftVolScale),
    maybeSwap32 cl.swapByteOrder (BitVec.ofInt 32 (s.sample q).rightVolScale))

def sampleRow (cl : EsdClient) (s : Server) (q : Ptr) : List (List Octet) :=
  let sm := s.sample q
  [(maybeSwap32 cl.swapByteOrder (BitVec.ofInt 32 sm.sampleId)).octets, nameArray sm.name,
    (maybeSwap32 cl.swapByteOrder (BitVec.ofInt 32 sm.rate)).octets,
    (sampleScales cl s q).1.octets, (sampleScales cl s q).2.octets,
    (maybeSwap32 cl.swapByteOrder sm.format).octets,
    (maybeSwap32 cl.swapByteOrder (BitVec.ofInt 32 sm.sampleLength)).octets]

def writeSamples (cl : EsdClient) : List Ptr → Word × Word → Server → Server × Bool
  | [], scales, s =>
    let (s, actual) := writeAll s cl.fd
      [Word.octets 0#32, nameArray [], Word.octets 0#32, scales.1.octets, scales.2.octets,
        Word.octets 0#32, Word.octets 0#32]
    (s, decide (actual = 4))
  | q :: qs, _, s =>
    let scales := sampleScales cl s q
    let (s, actual) := writeAll s cl.fd (sampleRow cl s q)
    if actual = 4 then writeSamples cl qs scales s else (s, false)

/-- The scales the player loop leaves behind are those of its last player. -/
def lastScales (cl : EsdClient) (s : Server) (scales : Word × Word) : Word × Word :=
  match s.esdPlayersList.getLast? with
  | none => scales
  | some p => playerScales cl s p

def esdProtoAllInfo (cfg : Config) (env : PollEnv) (s : Server) (c : Ptr) : Server × Bool :=
  let cl := s.client c
  match esdProtoServerInfo s cfg c with
  | (s, false) => (s, false)
  | (s, true) =>
    match writePlayers cl s.esdPlayersList env.stackInts s with
    | (s, false) => (s, false)
    | (s, true) => writeSamples cl s.esdSamplesList (lastScales cl s env.stackInts) s

def esdProtoStreamPan (s : Server) (c : Ptr) : Server × Bool :=
  let cl := s.client c
  match s.esdPlayersList.find? fun p =>
      (s.player p).sourceId = cl.param 0 ∧ (s.player p).IsStream with
  | some p =>
    let pl :=
      { s.player p with leftVolScale := cl.param 4, rightVolScale := cl.param 8 }
    checkedReply (s.setPlayer p { pl with mixFunc := getMixFunc pl }) c 1
  | none => checkedReply s c 0

def esdProtoSamplePan (s : Server) (c : Ptr) : Server × Bool :=
  let cl := s.client c
  match findSample s (cl.param 0) with
  | some q =>
    checkedReply (s.setSample q
      { s.sample q with leftVolScale := cl.param 4, rightVolScale := cl.param 8 }) c 1
  | none => checkedReply s c 0

def esmOnStandby : ℤ := 1
def esmOnAutostandby : ℤ := 2
def esmRunning : ℤ := 3

def esdProtoStandbyMode (s : Server) (c : Ptr) : Server × Bool :=
  let mode :=
    if s.esdOnAutostandby ∧ s.esdForcedStandby = false then esmOnAutostandby
    else if s.esdOnStandby then esmOnStandby
    else esmRunning
  checkedReply s c mode

def esdProtoGetLatency (cfg : Config) (s : Server) (c : Ptr) : Server × Bool :=
  let bufSize := s.esdWriteSize
  let sixteen := s.esdAudioFormat &&& esdBits16 ≠ 0#32
  let amount :=
    if s.esdAudioFormat &&& esdStereo ≠ 0#32 then
      if sixteen then (int32 (44100 * (bufSize + 64))).tdiv cfg.esdAudioRate
      else (int32 (44100 * (bufSize + 128))).tdiv cfg.esdAudioRate
    else if sixteen then (int32 (2 * 44100 * (bufSize + 128))).tdiv cfg.esdAudioRate
    else (int32 (2 * 44100 * (bufSize + 256))).tdiv cfg.esdAudioRate
  checkedReply s c amount

/-! ## Polling -/

/-- The call through `esd_proto_map`. -/
def handler (cfg : Config) (env : PollEnv) (request : Proto) (s : Server) (c : Ptr) :
    Option (Server × Bool) :=
  match request with
  | .connect => some (esdProtoConnect s c)
  | .lock => some (esdProtoLock s c)
  | .unlock => some (esdProtoUnlock s c)
  | .streamPlay => some (esdProtoStreamPlay cfg env s c)
  | .streamRec => some (esdProtoStreamRecorder cfg env s c)
  | .streamMon => some (esdProtoStreamMonitor cfg env s c)
  | .sampleCache => esdProtoSampleCache cfg env s c
  | .sampleFree => some (esdProtoSampleFree s c)
  | .samplePlay => some (esdProtoSamplePlay cfg env s c)
  | .sampleLoop => some (esdProtoSampleLoop cfg env s c)
  | .sampleStop => some (esdProtoSampleStop s c)
  | .sampleKill => some (esdProtoUnimplemented s c)
  | .standby => some (esdProtoStandby s c)
  | .resume => some (esdProtoResume env s c)
  | .sampleGetid => some (esdProtoSampleGetid s c)
  | .streamFilt => some (esdProtoStreamFilter cfg env s c)
  | .serverInfo => some (esdProtoServerInfo s cfg c)
  | .allInfo => some (esdProtoAllInfo cfg env s c)
  | .subscribe => some (esdProtoUnimplemented s c)
  | .unsubscribe => some (esdProtoUnimplemented s c)
  | .streamPan => some (esdProtoStreamPan s c)
  | .samplePan => some (esdProtoSamplePan s c)
  | .standbyMode => some (esdProtoStandbyMode s c)
  | .latency => some (esdProtoGetLatency cfg s c)

/-- `client->state = ESD_NEXT_REQUEST` and the handler, with the call written down. -/
def handle (cfg : Config) (env : PollEnv) (request : Proto) (s : Server) (c : Ptr) :
    Option (Server × Bool) :=
  let s := s.setClient c { s.client c with state := .nextRequest }
  let protoData := load (s.client c).protoData 0 request.dataLength.toNat
  (handler cfg env request s c).map fun r =>
    (r.1.record (.handled c request protoData r.2), r.2)

/-- One read of request data. An interrupted read is counted like any other, with its
result -1. -/
def readReqdata (request : Proto) (s : Server) (c : Ptr) : Server × ReadResult :=
  let cl := s.client c
  let (s, r) := s.sysRead cl.fd (request.dataLength - cl.protoDataLength)
  (s.setClient c
    { cl with
      protoData := store cl.protoData cl.protoDataLength r.octets
      protoDataLength := cl.protoDataLength + r.count }, r)

/-- State `ESD_NEEDS_REQDATA`. A request without parameters never waits here, so that the
result of a read is always there to be tested. -/
def pollNeedsReqdata (cfg : Config) (env : PollEnv) (s : Server) (c : Ptr) :
    Option (Server × Bool) :=
  match Proto.ofWord (s.client c).request with
  | none => some (s, false)
  | some request =>
    if (s.client c).protoDataLength > request.dataLength then some (s, false)
    else
      let (s, r) := readReqdata request s c
      if r.Hangup then some (s, false)
      else if (s.client c).protoDataLength = request.dataLength then handle cfg env request s c
      else some (s, true)

/-- The request word after a read into it: the octets that came replace the first ones. -/
def readRequest (request : Word) (octets : List Octet) : Word :=
  Mem.int (store (fun i => Word.octet request i) 0 octets) 0

/-- One read of a request word into the field that still holds the last one. -/
def readRequestWord (s : Server) (c : Ptr) : Server × ReadResult :=
  let cl := s.client c
  let (s, r) := s.sysRead cl.fd 4
  let request := readRequest cl.request r.octets
  (s.setClient c
    { cl with request := if cl.swapByteOrder then swapEndian32 request else request }, r)

/-- A request that is accepted waits for its parameters, or is handled at once. -/
def beginRequest (cfg : Config) (env : PollEnv) (request : Proto) (s : Server) (c : Ptr) :
    Option (Server × Bool) :=
  let s := s.setClient c { s.client c with state := .needsReqdata, protoDataLength := 0 }
  if request.dataLength = 0 then handle cfg env request s c else some (s, true)

/-- State `ESD_NEXT_REQUEST`. Neither a short nor an interrupted read is told from a whole
request word. -/
def pollNextRequest (cfg : Config) (env : PollEnv) (s : Server) (c : Ptr) :
    Option (Server × Bool) :=
  let (s, r) := readRequestWord s c
  if r.Hangup then some (s, false)
  else
    match Proto.ofWord (s.client c).request with
    | none => some (s, false)
    | some .connect => some (s, false)
    | some request => beginRequest cfg env request s c

/-- State `ESD_CACHING_SAMPLE`. -/
def pollCachingSample (cfg : Config) (env : PollEnv) (s : Server) (c : Ptr) :
    Option (Server × Bool) :=
  (esdProtoSampleCache cfg env s c).map fun r => (r.1.record (.resumed c r.2), r.2)

/-- The turn of one client, and whether it went well. -/
def pollTurn (cfg : Config) (env : PollEnv) (s : Server) (c : Ptr) : Option (Server × Bool) :=
  if env.canRead = false then some (s, true)
  else
    match (s.client c).state with
    | .streamingData => some (s, true)
    | .needsReqdata => pollNeedsReqdata cfg env s c
    | .cachingSample => pollCachingSample cfg env s c
    | .nextRequest => pollNextRequest cfg env s c

/-- A client whose turn went wrong is erased. -/
def pollClient (cfg : Config) (env : PollEnv) (s : Server) (c : Ptr) : Option Server :=
  (pollTurn cfg env s c).map fun r => if r.2 then r.1 else eraseClient r.1 c

/-- Every client of the list has its turn; `none` if one of the turns does not end. -/
def pollClientRequests (cfg : Config) (env : Ptr → PollEnv) (s : Server) : Option Server :=
  s.esdClientsList.foldlM (fun s c => pollClient cfg (env c) s c) s

end Esound
