import Esound.Turns

/-!
# Requests that arrive whole

What a turn comes to when its read returns all it asked for: the word of a request has the
client wait for the parameters, and the parameters are handed to the handler.
-/

open Library.Buffer Library.Transition

namespace Esound

/-- The next read of `n` octets returns these, all of them, and leaves `k'`. -/
structure Socket.Delivers (k : Socket) (n : ℤ) (bs : List Octet) (k' : Socket) : Prop where
  read : k.read n = (.data bs, k')
  whole : bs.length = n

namespace Server

/-- A client of which the word of a request was read. -/
def heardWord (s : Server) (c : Ptr) (request : Word) (k : Socket) : Server :=
  { s with
    client := Function.update s.client c { s.client c with request := request }
    sockets := Function.update s.sockets (s.client c).fd k }

/-- A client that waits for parameters. -/
def awaitData (s : Server) (c : Ptr) (request : Word) (k : Socket) : Server :=
  { s with
    client := Function.update s.client c
      { s.client c with
        request := request
        state := .needsReqdata
        protoDataLength := 0 }
    sockets := Function.update s.sockets (s.client c).fd k }

/-- A client whose request is complete. -/
def heardData (s : Server) (c : Ptr) (bs : List Octet) (k : Socket) : Server :=
  { s with
    client := Function.update s.client c
      { s.client c with
        state := .nextRequest
        protoData := store (s.client c).protoData 0 bs
        protoDataLength := bs.length }
    sockets := Function.update s.sockets (s.client c).fd k }

/-- A client whose request has no parameters. -/
def heardBare (s : Server) (c : Ptr) (request : Word) (k : Socket) : Server :=
  { s with
    client := Function.update s.client c
      { s.client c with
        request := request
        state := .nextRequest
        protoDataLength := 0 }
    sockets := Function.update s.sockets (s.client c).fd k }

end Server

theorem Socket.sending_delivers {n : ℤ} {bs : List Octet} (h : bs.length = n) (pieces : List (List Octet)) :
    (Socket.sending (bs :: pieces)).Delivers n bs (.sending pieces) := by
  refine ⟨?_, h⟩
  have hle : (bs.length : ℤ) ≤ n := h.le
  simp [Socket.read, Socket.sending, hle]

section Arriving

variable {env : PollEnv} {s : Server} {c : Ptr} {request : Proto} {bs : List Octet} {k : Socket}

theorem heardData_heard (c : Ptr) (bs : List Octet) (k : Socket) : Heard c s (s.heardData c bs k) := by
  refine ⟨?_, ?_, ?_⟩ <;> simp [Server.heardData]

variable (s) in
theorem heardData_load (c : Ptr) (bs : List Octet) (k : Socket) :
    load ((s.heardData c bs k).client c).protoData 0 bs.length = bs := by
  have hbuffer : ((s.heardData c bs k).client c).protoData = store (s.client c).protoData 0 bs := by
    simp [Server.heardData]
  rw [hbuffer]
  exact load_store_self _ 0 bs

theorem readRequest_octets (w w' : Word) : readRequest w (Word.octets w') = w' := by
  simpa only [readRequest, Nat.cast_zero] using Word.int_store_octets (fun i => Word.octet w i) 0 w'

theorem readRequestWord_whole {w : Word} (horder : (s.client c).swapByteOrder = false)
    (hread : (s.sockets (s.client c).fd).Delivers 4 (Word.octets w) k) :
    readRequestWord s c = (s.heardWord c w k, .data (Word.octets w)) := by
  have hplain : (if (s.client c).swapByteOrder then swapEndian32 w else w) = w := by simp [horder]
  simp only [readRequestWord, Server.sysRead, hread.read, ReadResult.octets, readRequest_octets, hplain]
  rfl

theorem opening_request {w : Word} (hready : env.canRead = true)
    (state : (s.client c).state = .nextRequest)
    (hread : (s.sockets (s.client c).fd).Delivers 4 (Word.octets w) k)
    (horder : (s.client c).swapByteOrder = false) (hw : Proto.ofWord w = some request)
    (hconnect : request ≠ .connect) :
    opening env s c = openBegun request (s.heardWord c w k) c := by
  have hword := readRequestWord_whole horder hread
  have hsome : ¬ (ReadResult.data (Word.octets w)).Hangup :=
    ReadResult.not_hangup_data (by simp [Word.octets])
  have hrequest : ((s.heardWord c w k).client c).request = w := by simp [Server.heardWord]
  simp only [opening, hready, Bool.true_eq_false, if_false, state, openRequest, hword, hsome,
    hrequest, hw]

theorem openBegun_waits (hdata : request.dataLength ≠ 0) (w : Word) :
    openBegun request (s.heardWord c w k) c = .done (s.awaitData c w k) true := by
  simp only [openBegun, hdata, if_false, Server.setClient, Server.heardWord, Function.update_self,
    Function.update_idem, Server.awaitData]

theorem openBegun_bare (hdata : request.dataLength = 0) (w : Word) :
    openBegun request (s.heardWord c w k) c = .handles request (s.heardBare c w k) := by
  simp only [openBegun, hdata, if_true, openHandler, Server.setClient, Server.heardWord,
    Function.update_self, Function.update_idem, Server.heardBare]

theorem opening_data (hready : env.canRead = true) (state : (s.client c).state = .needsReqdata)
    (hw : Proto.ofWord (s.client c).request = some request)
    (hstart : (s.client c).protoDataLength = 0) (hpos : 0 < request.dataLength)
    (hread : (s.sockets (s.client c).fd).Delivers request.dataLength bs k) :
    opening env s c = .handles request (s.heardData c bs k) := by
  obtain ⟨u, hu⟩ : ∃ u : Server, u =
      { s with
        client := Function.update s.client c
          { s.client c with
            protoData := store (s.client c).protoData 0 bs
            protoDataLength := bs.length }
        sockets := Function.update s.sockets (s.client c).fd k } := ⟨_, rfl⟩
  have hreq : readReqdata request s c = (u, .data bs) := by
    simp only [readReqdata, Server.sysRead, hstart, sub_zero, hread.read, ReadResult.octets,
      ReadResult.count, zero_add, hu]
    rfl
  have hsome : ¬ (ReadResult.data bs).Hangup := by
    have hwhole := hread.whole
    exact ReadResult.not_hangup_data (List.ne_nil_of_length_pos (by omega))
  have hlength : (u.client c).protoDataLength = request.dataLength := by
    simp [hu, hread.whole]
  have hfits : ¬ (s.client c).protoDataLength > request.dataLength := by omega
  simp only [opening, hready, Bool.true_eq_false, if_false, state, openReqdata, hw, hfits, hreq,
    hsome, hlength, if_true, openHandler]
  rw [hu]
  simp only [Server.setClient, Function.update_self, Function.update_idem, Server.heardData,
    hread.whole]

theorem pollClient_waits {cfg : Config} {w : Word} (hready : env.canRead = true)
    (state : (s.client c).state = .nextRequest)
    (hread : (s.sockets (s.client c).fd).Delivers 4 (Word.octets w) k)
    (horder : (s.client c).swapByteOrder = false) (hw : Proto.ofWord w = some request)
    (hconnect : request ≠ .connect) (hdata : request.dataLength ≠ 0) :
    pollClient cfg env s c = some (s.awaitData c w k) := by
  have hopen := (opening_request hready state hread horder hw hconnect).trans (openBegun_waits hdata w)
  simp only [pollClient, pollTurn_eq, hopen, Opening.finish, Option.map_some, if_true]

theorem pollClient_handles {cfg : Config} {r : Server × Bool} (hready : env.canRead = true)
    (state : (s.client c).state = .needsReqdata)
    (hw : Proto.ofWord (s.client c).request = some request)
    (hstart : (s.client c).protoDataLength = 0) (hpos : 0 < request.dataLength)
    (hread : (s.sockets (s.client c).fd).Delivers request.dataLength bs k)
    (hhandler : handler cfg env request (s.heardData c bs k) c = some r) :
    pollClient cfg env s c = some
      (if r.2 then r.1.record (.handled c request bs r.2)
        else eraseClient (r.1.record (.handled c request bs r.2)) c) := by
  have hopen := opening_data hready state hw hstart hpos hread
  have hdata : load ((s.heardData c bs k).client c).protoData 0 request.dataLength.toNat = bs := by
    have hlength : request.dataLength.toNat = bs.length := by
      rw [← hread.whole]
      rfl
    rw [hlength]
    exact heardData_load s c bs k
  simp only [pollClient, pollTurn_eq, hopen, Opening.finish, hhandler, Option.map_some, hdata]

end Arriving

end Esound
