import Esound.Library.Loop
import Esound.State

/-!
# Clients and samples

`clients.c` without its main loop, and `samples.c` without the two functions that
need a player. Removing an object takes its address out of the list it is found
in; what the address holds stays behind.
-/

open Library.Buffer Library.Loop

namespace Esound

/-- What the kernel and the allocator decide while one client has its turn.
`malloc` is the address of the object a handler allocates, `mallocData` says
whether there is room for its data, `audioOpen` answers the device opens of the
turn in order with the block size of the driver, and `stackInts` is what two
uninitialised variables of `esd_proto_all_info` hold. -/
structure PollEnv where
  canRead : Bool
  malloc : Ptr
  mallocData : Bool
  audioOpen : ℕ → Option ℤ
  stackInts : Word × Word

/-! ## Clients -/

/-- `close( client->fd )` and the removal; a client that is not listed is left alone. -/
def eraseClient (s : Server) (c : Ptr) : Server :=
  if c ∈ s.esdClientsList then
    { s with
      esdClientsList := s.esdClientsList.erase c
      events := s.events ++ [.closed (s.client c).fd] }
  else s

def addNewClient (s : Server) (c : Ptr) : Server :=
  { s with esdClientsList := c :: s.esdClientsList }

/-- One accepted connection of `get_new_clients`. The fields that are not set here
hold what the allocated memory held. -/
def getNewClient (s : Server) (c : Ptr) (fd : ℤ) (socket : Socket) : Server :=
  let s := { s with sockets := Function.update s.sockets fd socket }
  let s := s.setClient c
    { s.client c with
      state := .needsReqdata
      request := 0#32
      fd := fd
      protoDataLength := 0 }
  addNewClient (s.record (.connected c)) c

/-! ## Samples -/

def addSample (s : Server) (q : Ptr) : Server :=
  { s with esdSamplesList := q :: s.esdSamplesList }

def findSample (s : Server) (id : ℤ) : Option Ptr :=
  s.esdSamplesList.find? fun q => (s.sample q).sampleId = id

def eraseSample (s : Server) (id : ℤ) (force : Bool) : Server :=
  match findSample s id with
  | none => s
  | some q =>
    if (s.sample q).refCount ≠ 0 ∧ force = false then
      s.setSample q { s.sample q with eraseWhenDone := true }
    else { s with esdSamplesList := s.esdSamplesList.erase q }

/-- The macro applied to the shorts of a block: `widen` is the promotion to int of
the pointer's short type, and the result is cut to a short again. -/
def swapShorts (widen : Short → Word) (m : Mem) (start stop : ℕ) : Mem :=
  countUp (stop - start) (fun i (m : Mem) =>
    m.setShortWord (start + i)
      ((swapEndian16 (widen (m.shortWord (start + i : ℕ)))).setWidth 16)) m

/-- The locals of `read_sample`: how much is cached, and whether the loop goes on,
was interrupted, or gave up. -/
structure ReadSample where
  srv : Server
  total : ℤ
  going : Bool
  failed : Bool

/-- What one read leaves in the buffer. The shorts swapped after it run from the short at
`total` to the short at `actual`, counted from the start of the buffer. -/
def storeSample (cl : EsdClient) (sm : EsdSample) (data : Mem) (total : ℤ) (bs : List Octet) : Mem :=
  let data := store data total bs
  if cl.swapByteOrder ∧ sm.format &&& esdMaskBits = esdBits16 then
    swapShorts (fun x => x.signExtend 32) data (total / 2).toNat (bs.length / 2)
  else data

/-- One round of the loop of `read_sample`. -/
def readSampleRound (cfg : Config) (q : Ptr) (r : ReadSample) : Option ReadSample :=
  let sm := r.srv.sample q
  let cl := r.srv.client sm.parent
  if r.total < sm.sampleLength ∧ r.going then
    let (s, res) := r.srv.sysRead cl.fd (min cfg.esdBufSizeOctets (sm.sampleLength - r.total))
    match res with
    | .error => some { r with srv := s, going := false, failed := true }
    | .again => some { r with srv := s, going := false }
    | .data bs =>
      if bs = [] then some { r with srv := s, going := false, failed := true }
      else
        some { r with
          srv := s.setSampleData q (storeSample cl sm (s.sampleData q) r.total bs)
          total := r.total + bs.length }
  else none

/-- The server, and 0 if the read failed. A failed read leaves `cached_length` alone. -/
def readSample (cfg : Config) (s : Server) (q : Ptr) : Server × Bool :=
  let sm := s.sample q
  let r := whileFuel (readSampleRound cfg q) ((sm.sampleLength - sm.cachedLength).toNat + 1)
    ⟨s, sm.cachedLength, true, false⟩
  if r.failed then (r.srv, false)
  else (r.srv.setSample q { r.srv.sample q with cachedLength := r.total }, true)

/-- The sample, or `NULL`. The counter moves on even where the data finds no room. -/
def newSample (cfg : Config) (env : PollEnv) (s : Server) (c : Ptr) : Server × Ptr :=
  let cl := s.client c
  if env.malloc = 0 then (s, 0)
  else
    let length := (maybeSwap32 cl.swapByteOrder (cl.protoData.int 8)).toInt
    let id := s.esdNextSampleId
    let s := { s with esdNextSampleId := cfg.nextId id }
    if env.mallocData ∧ 0 ≤ length then
      let s := s.setSample env.malloc
        { parent := 0
          format := maybeSwap32 cl.swapByteOrder (cl.protoData.int 0)
          rate := (maybeSwap32 cl.swapByteOrder (cl.protoData.int 4)).toInt
          leftVolScale := esdVolumeBase
          rightVolScale := esdVolumeBase
          sampleId := id
          sampleLength := length
          cachedLength := 0
          refCount := 0
          eraseWhenDone := false
          name := nameOf cl.protoData 12 }
      ((s.writeInt cl.fd (maybeSwap32 cl.swapByteOrder (BitVec.ofInt 32 id))).1, env.malloc)
    else (s, 0)

/-- The loop never moves on from the first sample: it returns `NULL` for an empty list,
the first sample if that is the client's, and otherwise does not return. -/
def findCachingSample (s : Server) (c : Ptr) : Option Ptr :=
  match s.esdSamplesList with
  | [] => some 0
  | q :: _ => if (s.sample q).parent = c then some q else none

end Esound
