import Esound.Framing

/-!
# The calls of the library

What a call of the client library sends and how it reads its reply, for a client that has the
daemon's byte order. The handler of the request writes to the descriptor of the client what the
call reads, and nothing else.
-/

open Library.Buffer Library.Loop Library.Reading Library.Transition

namespace Esound

/-! ## Requests -/

/-- The contents of the authorization file. -/
structure AuthKey where
  octets : List Octet
  length_eq : octets.length = esdKeyLen
  deriving DecidableEq

/-- The octets of a sample, with a length that is an int. -/
structure SampleOctets where
  octets : List Octet
  length_lt : octets.length < 2 ^ 31
  deriving DecidableEq

/-- The array for a name: `strncpy`, or a string without characters before what the array held. -/
def nameBuf (held : Mem) : Option (List Octet) → List Octet
  | none => 0 :: load held 1 (esdNameMax - 1)
  | some name => nameArray ((name.takeWhile (· ≠ 0)).take esdNameMax)

def Proto.word (request : Proto) : Word := BitVec.ofNat 32 (Proto.all.idxOf request)

/-- What `esd_send_auth` sends, and how it goes on to read. Without a key it sends nothing. -/
def esdSendAuth : Option AuthKey → List Octet × ClientRead ℤ
  | none => ([], pure 0)
  | some key => (key.octets ++ Word.octets esdEndianKey, do
      let reply ← readInt
      return if reply = 0 then 0 else 1)

def esdBufSize : ℤ := 4 * 1024

/-- The calls, each with its arguments, the key that was found where it looks for one, and what
an array for a name held. `sampleCache` is `esd_sample_cache` with the octets of the sample sent
behind it and `esd_confirm_sample_cache`. -/
inductive LibCall
  | lock (auth : Option AuthKey)
  | unlock (auth : Option AuthKey)
  | standby (auth : Option AuthKey)
  | resume (auth : Option AuthKey)
  | sampleCache (format rate : Word) (held : Mem) (name : Option (List Octet)) (sample : SampleOctets)
  | sampleGetid (held : Mem) (name : Option (List Octet))
  | sampleFree (sample : Word)
  | samplePlay (sample : Word)
  | sampleLoop (sample : Word)
  | sampleStop (sample : Word)
  | getServerInfo
  | getAllInfo
  | setStreamPan (streamId leftScale rightScale : Word)
  | setDefaultSamplePan (sampleId leftScale rightScale : Word)
  | getStandbyMode
  | getLatency

namespace LibCall

def request : LibCall → Proto
  | lock _ => .lock
  | unlock _ => .unlock
  | standby _ => .standby
  | resume _ => .resume
  | sampleCache .. => .sampleCache
  | sampleGetid .. => .sampleGetid
  | sampleFree _ => .sampleFree
  | samplePlay _ => .samplePlay
  | sampleLoop _ => .sampleLoop
  | sampleStop _ => .sampleStop
  | getServerInfo => .serverInfo
  | getAllInfo => .allInfo
  | setStreamPan .. => .streamPan
  | setDefaultSamplePan .. => .samplePan
  | getStandbyMode => .standbyMode
  | getLatency => .latency

/-- What is sent behind the word of the request; the version of the library is 0. -/
def params : LibCall → List Octet
  | lock auth | unlock auth | standby auth | resume auth => (esdSendAuth auth).1
  | sampleCache format rate held name sample =>
    Word.octets format ++ Word.octets rate ++ Word.octets (BitVec.ofNat 32 sample.octets.length) ++
      nameBuf held name
  | sampleGetid held name => nameBuf held name
  | sampleFree sample | samplePlay sample | sampleLoop sample | sampleStop sample => Word.octets sample
  | getServerInfo | getAllInfo | getStandbyMode => Word.octets 0#32
  | setStreamPan id left right | setDefaultSamplePan id left right =>
    Word.octets id ++ Word.octets left ++ Word.octets right
  | getLatency => []

def data : LibCall → List Octet
  | sampleCache _ _ _ _ sample => sample.octets
  | _ => []

def sends (k : LibCall) : List Octet := Word.octets k.request.word ++ (k.params ++ k.data)

/-- What the call returns; an upload returns the number of the sample twice. -/
def Result : LibCall → Type
  | sampleCache .. => ℤ × ℤ
  | getServerInfo => EsdServerInfo
  | getAllInfo => EsdInfo
  | _ => ℤ

/-- The result of the authorization is not looked at. -/
def readOk (auth : Option AuthKey) : ClientRead ℤ := do
  let _ ← (esdSendAuth auth).2
  readInt

def reads : (k : LibCall) → ClientRead k.Result
  | lock auth | unlock auth | standby auth | resume auth => readOk auth
  | sampleCache .. => do
    let id ← readInt
    let confirmed ← readInt
    return (id, confirmed)
  | getServerInfo => readServerInfo
  | getAllInfo => esdGetAllInfo
  | getLatency => (· + esdBufSize * 2) <$> readInt
  | sampleGetid .. | sampleFree _ | samplePlay _ | sampleLoop _ | sampleStop _ | setStreamPan ..
  | setDefaultSamplePan .. | getStandbyMode => readInt

/-- The call finds a key where it looks for one. -/
def Keyed : LibCall → Prop
  | lock auth | unlock auth | standby auth | resume auth => auth.isSome
  | _ => True

instance (k : LibCall) : Decidable k.Keyed :=
  match k with
  | lock auth | unlock auth | standby auth | resume auth => inferInstanceAs (Decidable (auth.isSome = true))
  | sampleCache .. | sampleGetid .. | sampleFree _ | samplePlay _ | sampleLoop _ | sampleStop _
  | getServerInfo | getAllInfo | setStreamPan .. | setDefaultSamplePan .. | getStandbyMode
  | getLatency => .isTrue trivial

end LibCall

section Requests

variable {k : LibCall}

theorem Proto.ofWord_word (request : Proto) : Proto.ofWord request.word = some request := by
  cases request <;> rfl

theorem nameBuf_length (held : Mem) (name : Option (List Octet)) :
    (nameBuf held name).length = esdNameMax := by
  cases name with
  | none => simp [nameBuf, esdNameMax]
  | some name =>
    simp only [nameBuf, nameArray, List.length_append, List.length_replicate, List.length_take]
    omega

theorem esdSendAuth_length (key : AuthKey) : (esdSendAuth (some key)).1.length = esdKeyLen + 4 := by
  simp [esdSendAuth, key.length_eq, Word.octets]

/-- What is sent behind the word is as much as the daemon waits for. -/
theorem LibCall.params_length (hkey : k.Keyed) : (k.params.length : ℤ) = k.request.dataLength := by
  cases k with
  | lock auth | unlock auth | standby auth | resume auth =>
    obtain ⟨key, rfl⟩ := Option.isSome_iff_exists.mp hkey
    simp [params, request, Proto.dataLength, esdSendAuth_length]
  | sampleCache format rate held name sample =>
    simp [params, request, Proto.dataLength, nameBuf_length, Word.octets, esdNameMax]
  | sampleGetid held name => simp [params, request, Proto.dataLength, nameBuf_length]
  | _ => rfl

theorem LibCall.sends_ne_nil (k : LibCall) : k.sends ≠ [] := by simp [sends, Word.octets]

theorem LibCall.request_plain (k : LibCall) : k.request ≠ .connect ∧ ¬ k.request.Opens := by
  cases k <;> exact ⟨by simp [request], id⟩

theorem LibCall.next_sends (k : LibCall) (last : Word) :
    (Framer.reading false last k.sends).next = some (k.request.word, k.params ++ k.data) := by
  have hword : readRequest last (k.sends.take 4) = k.request.word := by
    have htake : k.sends.take 4 = Word.octets k.request.word := List.take_left' rfl
    rw [htake]
    exact Word.int_store_octets _ 0 _
  have hdrop : k.sends.drop 4 = k.params ++ k.data := List.drop_left' rfl
  simp [Framer.next, hword, hdrop, k.sends_ne_nil, Proto.ofWord_word, k.request_plain.1]

theorem LibCall.invocation_sends (hkey : k.Keyed) (last : Word) :
    (Framer.reading false last k.sends).invocation = some (k.request, k.params) := by
  have hlength := LibCall.params_length hkey
  have hcount : k.request.dataLength.toNat = k.params.length := by omega
  have henough : 0 ≤ k.request.dataLength ∧ k.request.dataLength ≤ (k.params ++ k.data).length := by
    rw [List.length_append]
    omega
  have htake : (k.params ++ k.data).take k.params.length = k.params := List.take_left' rfl
  simp only [Framer.invocation, k.next_sends, Option.bind_some, Proto.ofWord_word, henough, and_self,
    if_true, hcount, htake]

/-- The length among the parameters is that of the octets behind them. -/
theorem LibCall.sampleCache_length (format rate : Word) (held : Mem) (name : Option (List Octet))
    (sample : SampleOctets) :
    (wordIn (sampleCache format rate held name sample).params 8).toInt = sample.octets.length := by
  obtain ⟨octets, hlt⟩ := sample
  have hsize : wordIn (sampleCache format rate held name ⟨octets, hlt⟩).params 8 =
      BitVec.ofNat 32 octets.length :=
    Word.int_store_within _ (Word.octets format ++ Word.octets rate) (nameBuf held name) _
  have hmod : octets.length % 2 ^ 32 = octets.length := Nat.mod_eq_of_lt (by omega)
  rw [hsize, BitVec.toInt_eq_toNat_of_lt, BitVec.toNat_ofNat, hmod]
  rw [BitVec.toNat_ofNat, hmod]
  omega

end Requests

/-! ## Replies -/

/-- These octets were written to the descriptor, whose writes are still taken whole. -/
structure Replies (fd : ℤ) (bs : List Octet) (s t : Server) : Prop where
  events : ∃ es, t.events = s.events ++ es ∧ writtenTo fd es = bs
  whole : (t.sockets fd).TakesWhole

/-- So many ints were written to it. -/
def RepliesInts (fd : ℤ) (n : ℕ) (s t : Server) : Prop :=
  ∃ ws : List Word, ws.length = n ∧ Replies fd (ws.flatMap Word.octets) s t

section Replies

variable {fd : ℤ} {bs bs' : List Octet} {n : ℕ} {s t u : Server} {c : Ptr}

theorem Replies.trans (h : Replies fd bs s t) (h' : Replies fd bs' t u) : Replies fd (bs ++ bs') s u := by
  obtain ⟨es, hes, rfl⟩ := h.events
  obtain ⟨es', hes', rfl⟩ := h'.events
  exact ⟨⟨es ++ es', by rw [hes', hes, List.append_assoc], by simp [writtenTo]⟩, h'.whole⟩

theorem Sends.replies (h : Sends fd bs s t) : Replies fd bs s t := ⟨h.events, h.whole⟩

theorem Replies.since (h : Replies fd bs s t) : writtenSince fd s t = bs := by
  obtain ⟨es, hes, rfl⟩ := h.events
  exact writtenSince_of_events hes

theorem Replies.still (h : Replies fd bs s t) (h' : Still fd t u) : Replies fd bs s u := by
  obtain ⟨es, hes, hnone⟩ := h'.events
  have hquiet : Replies fd [] t u := ⟨⟨es, hes, hnone⟩, by rw [h'.socket]; exact h.whole⟩
  have hboth := h.trans hquiet
  rwa [List.append_nil] at hboth

theorem Replies.refl (h : (s.sockets fd).TakesWhole) : Replies fd [] s s :=
  ⟨⟨[], by simp [writtenTo]⟩, h⟩

namespace RepliesInts

theorem refl (h : (s.sockets fd).TakesWhole) : RepliesInts fd 0 s s := ⟨[], rfl, .refl h⟩

theorem still (h : RepliesInts fd n s t) (h' : Still fd t u) : RepliesInts fd n s u := by
  obtain ⟨ws, hlength, hws⟩ := h
  exact ⟨ws, hlength, hws.still h'⟩

theorem writeInt (h : RepliesInts fd n s t) (w : Word) :
    RepliesInts fd (n + 1) s (t.writeInt fd w).1 ∧ (t.writeInt fd w).2 = 4 := by
  obtain ⟨ws, hlength, hws⟩ := h
  obtain ⟨hsends, hcount⟩ := sysWrite_sends hws.whole (int_length_le w)
  have hall := hws.trans hsends.replies
  refine ⟨⟨ws ++ [w], by simp [hlength], ?_⟩, hcount⟩
  simpa [Server.writeInt] using hall

variable (h : RepliesInts (s.client c).fd n s t) (hclient : t.client c = s.client c)

include h hclient

theorem reply (x : ℤ) : RepliesInts (s.client c).fd (n + 1) s (Esound.reply t c x).1 ∧
    (Esound.reply t c x).2 = 4 := by
  rw [← hclient] at h ⊢
  exact h.writeInt _

omit hclient in
/-- A reply behind what is neither read nor written. -/
theorem replyAfter (hsockets : u.sockets = t.sockets) (hevents : u.events = t.events)
    (hclient : u.client = s.client) (x : ℤ) :
    RepliesInts (s.client c).fd (n + 1) s (Esound.reply u c x).1 ∧ (Esound.reply u c x).2 = 4 :=
  (h.still (.of_eq hsockets hevents)).reply (congrFun hclient c) x

omit hclient in
theorem checkedReply (hsockets : u.sockets = t.sockets) (hevents : u.events = t.events)
    (hclient : u.client = s.client) (x : ℤ) :
    RepliesInts (s.client c).fd (n + 1) s (Esound.checkedReply u c x).1 ∧
      (Esound.checkedReply u c x).2 = true := by
  obtain ⟨hreply, hcount⟩ := h.replyAfter hsockets hevents hclient x
  exact ⟨hreply, decide_eq_true hcount⟩

theorem replyId : RepliesInts (s.client c).fd (n + 1) s (Esound.replyId t c).1 ∧
    (Esound.replyId t c).2 = true := by
  rw [← hclient] at h ⊢
  obtain ⟨hreply, hcount⟩ := h.writeInt ((t.client c).protoData.int 0)
  exact ⟨hreply, decide_eq_true hcount⟩

end RepliesInts

theorem Unread.still_of_forall (h : ∀ fd', Unread fd' s t) : Still fd s t :=
  (h (fd + 1)).still fd (by omega)

variable (h : (s.sockets (s.client c).fd).TakesWhole)

include h

theorem esdValidateSource_replies (key : List Octet) (ownerOnly : Bool) :
    RepliesInts (s.client c).fd 1 s (esdValidateSource s c key ownerOnly).1 := by
  have hwrite : ∀ (u : Server) w, u.sockets = s.sockets → u.events = s.events →
      RepliesInts (s.client c).fd 1 s (u.writeInt (s.client c).fd w).1 := fun u w hs he =>
    (((RepliesInts.refl h).still (.of_eq hs he)).writeInt w).1
  simp only [esdValidateSource]
  split_ifs <;> exact hwrite _ _ rfl rfl

end Replies

section Uploads

variable {cfg : Config} {env : PollEnv} {fd : ℤ} {s : Server} {c q : Ptr} {r : Server × Bool}

theorem Socket.read_whole {k : Socket} (n : ℤ) (h : k.TakesWhole) : (k.read n).2.TakesWhole := by
  have hroom : (k.read n).2.room = k.room := by
    simp only [Socket.read]
    split
    · rfl
    · split_ifs <;> rfl
    · rfl
  simp only [Socket.TakesWhole, hroom]
  exact h

theorem sysRead_keeps {P : Socket → Prop} (hP : ∀ k n, P k → P (k.read n).2) (h : P (s.sockets fd))
    (fd' n : ℤ) : P ((s.sysRead fd' n).1.sockets fd) := by
  by_cases hfd : fd = fd'
  · subst hfd
    have hread : (s.sysRead fd n).1.sockets fd = ((s.sockets fd).read n).2 := Function.update_self _ _ _
    rw [hread]
    exact hP _ n h
  · have hother : (s.sysRead fd' n).1.sockets fd = s.sockets fd := Function.update_of_ne hfd _ _
    rwa [hother]

variable (cfg q) in
theorem readSample_keeps {P : Socket → Prop} (hP : ∀ k n, P k → P (k.read n).2)
    (h : P (s.sockets fd)) : P ((readSample cfg s q).1.sockets fd) := by
  have hloop : ∀ n r, r.srv = s → P ((whileFuel (readSampleRound cfg q) n r).srv.sockets fd) := by
    rintro n r rfl
    refine whileFuel_invariant (fun r' : ReadSample => P (r'.srv.sockets fd)) (fun u v hu hround => ?_) _ h
    simp only [readSampleRound] at hround
    split_ifs at hround
    split at hround
    · cases hround
      exact sysRead_keeps hP hu _ _
    · cases hround
      exact sysRead_keeps hP hu _ _
    · split_ifs at hround <;> cases hround <;> exact sysRead_keeps hP hu _ _
  simp only [readSample]
  split_ifs
  · exact hloop _ _ rfl
  · exact hloop _ _ rfl

/-- The second number is written when all octets of the sample are there. -/
theorem cacheInto_replies (h : (s.sockets (s.client c).fd).TakesWhole)
    (flows : ¬ (s.sockets (s.client c).fd).Pauses)
    (hle : (s.sample q).cachedLength ≤ (s.sample q).sampleLength)
    (henough : (s.sample q).sampleLength ≤
      (s.sample q).cachedLength + (s.sockets (s.client c).fd).ready.length) :
    RepliesInts (s.client c).fd 1 s (cacheInto cfg s c q).1 ∧ (cacheInto cfg s c q).2 = true := by
  obtain ⟨u, hu⟩ : ∃ u, u = s.setSample q { s.sample q with parent := c } := ⟨_, rfl⟩
  have hq : u.sample q = { s.sample q with parent := c } := by simp [hu, Server.setSample]
  have hclients : u.client = s.client := by rw [hu]; rfl
  have hsockets : u.sockets = s.sockets := by rw [hu]; rfl
  have hsocket : u.uploadSocket q = s.sockets (s.client c).fd := by
    simp only [Server.uploadSocket, hq, hclients, hsockets]
  have hfails : ¬ u.UploadFails (u.sample q).parent q := by
    rintro ⟨hshort, -⟩
    simp only [hq, hclients, hsockets] at hshort
    omega
  have hok : (readSample cfg u q).2 = true := by
    rw [← Bool.not_eq_false, (readSample_outcome cfg (by rw [hq]; exact hle)).1]
    exact hfails
  obtain ⟨hfull, -⟩ := readSample_took cfg (s := u) (q := q) (by rwa [hsocket]) (by rw [hq]; exact hle) hok
  have hreads := readSample_reads cfg u q
  have hroom : ((readSample cfg u q).1.sockets (s.client c).fd).TakesWhole :=
    readSample_keeps cfg q (fun _ n => Socket.read_whole n) (by rwa [hsockets])
  have hclient : (readSample cfg u q).1.client = u.client := readSample_client cfg
  have hlength := readSample_length cfg u q
  have hevents : (readSample cfg u q).1.events = s.events := by
    rw [hreads.rest, hu]
    rfl
  simp only [cacheInto, ← hu]
  generalize readSample cfg u q = v at hok hfull hroom hclient hlength hevents ⊢
  obtain ⟨v, ok⟩ := v
  dsimp only at hok hfull hroom hclient hlength hevents
  subst hok
  have hdone : ¬ (v.sample q).cachedLength < (v.sample q).sampleLength := by
    rw [hlength]
    exact not_lt.mpr hfull.ge
  have hread : RepliesInts (s.client c).fd 0 s v := by
    exact ⟨[], rfl, ⟨[], by simp [hevents], by simp [writtenTo]⟩, hroom⟩
  obtain ⟨w, hw⟩ : ∃ w, w = v.setClient c { v.client c with state := .nextRequest } := ⟨_, rfl⟩
  have hstate : Still (s.client c).fd v w := .of_eq (by rw [hw]; rfl) (by rw [hw]; rfl)
  have hfd : (w.client c).fd = (s.client c).fd := by
    simp [hw, Server.setClient, hclient, hclients]
  simp only [hdone, if_false, ← hw]
  have hreply := ((hread.still hstate).writeInt
    (maybeSwap32 (w.client c).swapByteOrder (BitVec.ofInt 32 (w.sample q).sampleId))).1
  rw [← hfd] at hreply ⊢
  exact ⟨hreply, trivial⟩

/-- The first number is written as soon as there is a place for the sample. -/
theorem newSample_replies (h : (s.sockets (s.client c).fd).TakesWhole) (hroom : SampleRoom env s c) :
    RepliesInts (s.client c).fd 1 s (newSample cfg env s c).1 := by
  obtain ⟨hnull, hdata, hlength⟩ := hroom
  have hplace : env.mallocData = true ∧
      0 ≤ (maybeSwap32 (s.client c).swapByteOrder ((s.client c).protoData.int 8)).toInt :=
    ⟨hdata, hlength⟩
  have hwrite : ∀ (u : Server) w, u.sockets = s.sockets → u.events = s.events →
      RepliesInts (s.client c).fd 1 s (u.writeInt (s.client c).fd w).1 := fun u w hs he =>
    (((RepliesInts.refl h).still (.of_eq hs he)).writeInt w).1
  simp only [newSample, hnull, if_false, hplace, and_self, if_true]
  exact hwrite _ _ rfl rfl

theorem RepliesInts.trans {m n : ℕ} {t u : Server} (h : RepliesInts fd m s t)
    (h' : RepliesInts fd n t u) : RepliesInts fd (m + n) s u := by
  obtain ⟨ws, hlength, hws⟩ := h
  obtain ⟨ws', hlength', hws'⟩ := h'
  exact ⟨ws ++ ws', by simp [hlength, hlength'], by simpa using hws.trans hws'⟩

theorem esdProtoSampleCache_replies (h : (s.sockets (s.client c).fd).TakesWhole)
    (state : (s.client c).state = .nextRequest) (flows : ¬ (s.sockets (s.client c).fd).Pauses)
    (hroom : SampleRoom env s c)
    (henough : (s.client c).param 8 ≤ (s.sockets (s.client c).fd).ready.length)
    (hcache : esdProtoSampleCache cfg env s c = some r) :
    RepliesInts (s.client c).fd 2 s r.1 ∧ r.2 = true := by
  obtain ⟨hp, hlength, hcached⟩ := newSample_room cfg hroom
  obtain ⟨hsame, -⟩ := newSample_cached cfg env s c
  have hnew : RepliesInts (s.client c).fd 1 s (newSample cfg env s c).1 := newSample_replies h hroom
  obtain ⟨u, hu⟩ : ∃ u, addSample (newSample cfg env s c).1 env.malloc = u := ⟨_, rfl⟩
  have hadd : RepliesInts (s.client c).fd 1 s u := hnew.still (.of_eq (by rw [← hu]; rfl) (by rw [← hu]; rfl))
  have hsample : (u.sample env.malloc).cachedLength = 0 ∧
      (u.sample env.malloc).sampleLength = (s.client c).param 8 := by
    rw [← hu]
    exact ⟨hcached, hlength⟩
  have hclient : u.client = s.client := by
    rw [← hu]
    exact hsame.client
  have hinput : ∀ fd, (u.sockets fd).input = (s.sockets fd).input := by
    rw [← hu]
    exact hsame.input
  have hinto : RepliesInts (s.client c).fd 1 u (cacheInto cfg u c env.malloc).1 ∧
      (cacheInto cfg u c env.malloc).2 = true := by
    rw [← hclient]
    obtain ⟨ws, -, hws⟩ := hadd
    refine cacheInto_replies (by rw [hclient]; exact hws.whole) ?_ ?_ ?_
    · simp only [Socket.Pauses, hinput, hclient]
      exact flows
    · rw [hsample.1, hsample.2]
      exact hroom.2.2
    · simp only [Socket.ready, hinput, hclient, hsample]
      rw [zero_add]
      exact henough
  have hnot : (s.client c).state ≠ .cachingSample := by simp [state]
  simp only [esdProtoSampleCache, hnot, if_false, hp, hroom.1, hu] at hcache
  cases hcache
  exact ⟨hadd.trans hinto.1, hinto.2⟩

end Uploads

/-! ## Every call reads its reply -/

/-- The numbers by which the clients know the players and the samples are positive ints. -/
def Server.IdsPositive (s : Server) : Prop :=
  (∀ p ∈ s.esdPlayersList, 0 < int32 (s.player p).sourceId) ∧
    ∀ q ∈ s.esdSamplesList, 0 < int32 (s.sample q).sampleId

instance (s : Server) : Decidable s.IdsPositive := inferInstanceAs (Decidable (_ ∧ _))

/-- How many ints the handlers reply with, but for those that tell what there is. -/
def Proto.replyInts : Proto → ℕ
  | lock | unlock | standby | resume | sampleCache => 2
  | _ => 1

section Calls

variable {cfg : Config} {env : PollEnv} {s : Server} {c : Ptr} {k : LibCall} {r : Server × Bool}

theorem reads_readOk {auth : Option AuthKey} (hkey : auth.isSome) (verdict ok : Word) :
    Reads (LibCall.readOk auth) (Word.octets verdict ++ Word.octets ok) ok.toInt := by
  obtain ⟨key, rfl⟩ := Option.isSome_iff_exists.mp hkey
  have hauth : Reads (esdSendAuth (some key)).2 (Word.octets verdict)
      (if verdict.toInt = 0 then 0 else 1) := by
    have hread := (reads_word verdict).bind (f := fun reply => pure (if reply = 0 then (0 : ℤ) else 1))
      (reads_pure _)
    rwa [List.append_nil] at hread
  exact hauth.bind (reads_word ok)

theorem LibCall.reads_ints (hkey : k.Keyed) (hserver : k ≠ .getServerInfo) (hall : k ≠ .getAllInfo)
    {ws : List Word} (hlength : ws.length = k.request.replyInts) :
    ∃ v, Reads k.reads (ws.flatMap Word.octets) v := by
  have hone : k.request.replyInts = 1 → ∃ w, ws.flatMap Word.octets = Word.octets w := by
    intro hn
    obtain ⟨w, rfl⟩ := List.length_eq_one_iff.mp (hlength.trans hn)
    exact ⟨w, by simp⟩
  have htwo : k.request.replyInts = 2 →
      ∃ w w', ws.flatMap Word.octets = Word.octets w ++ Word.octets w' := by
    intro hn
    obtain ⟨w, w', rfl⟩ := List.length_eq_two.mp (hlength.trans hn)
    exact ⟨w, w', by simp⟩
  cases k with
  | lock auth | unlock auth | standby auth | resume auth =>
    obtain ⟨verdict, ok, h⟩ := htwo rfl
    rw [h]
    exact ⟨_, reads_readOk hkey verdict ok⟩
  | sampleCache format rate held name sample =>
    obtain ⟨id, confirmed, h⟩ := htwo rfl
    rw [h]
    have hread := (reads_word confirmed).bind (f := fun y => pure (id.toInt, y)) (reads_pure _)
    rw [List.append_nil] at hread
    exact ⟨_, (reads_word id).bind (f := fun x => readInt >>= fun y => pure (x, y)) hread⟩
  | getServerInfo => exact absurd rfl hserver
  | getAllInfo => exact absurd rfl hall
  | getLatency =>
    obtain ⟨lag, h⟩ := hone rfl
    rw [h]
    exact ⟨_, (reads_word lag).map⟩
  | sampleGetid | sampleFree | samplePlay | sampleLoop | sampleStop | setStreamPan
  | setDefaultSamplePan | getStandbyMode =>
    obtain ⟨w, h⟩ := hone rfl
    rw [h]
    exact ⟨_, reads_word w⟩

/-- The requests that are about the key are answered twice, also when they are refused. -/
theorem authorize_replies {request : Proto} (hauth : request.Authorizes) (hconnect : request ≠ .connect)
    (h : (s.sockets (s.client c).fd).TakesWhole) (hhandler : handler cfg env request s c = some r) :
    RepliesInts (s.client c).fd 2 s r.1 := by
  have hsource := esdValidateSource_replies h (s.client c).key true
  have hclient : (esdValidateSource s c (s.client c).key true).1.client = s.client :=
    (esdValidateSource_frame _ _).2
  cases request with
  | connect => exact absurd rfl hconnect
  | lock =>
    cases hhandler
    simp only [esdProtoLock]
    generalize esdValidateSource s c (s.client c).key true = v at hsource hclient ⊢
    split_ifs <;> exact (hsource.replyAfter (by rfl) (by rfl) (by exact hclient) _).1
  | unlock =>
    cases hhandler
    simp only [esdProtoUnlock]
    generalize esdValidateSource s c (s.client c).key true = v at hsource hclient ⊢
    split_ifs <;> exact (hsource.replyAfter (by rfl) (by rfl) (by exact hclient) _).1
  | standby =>
    cases hhandler
    simp only [esdProtoStandby]
    generalize esdValidateSource s c (s.client c).key true = v at hsource hclient ⊢
    have hstandby := hsource.still (Unread.still_of_forall fun _ => esdServerStandby_unread)
    have hsame : (esdServerStandby v.1).1.client = s.client :=
      (congrArg Objects.client objects_esdServerStandby).trans hclient
    split_ifs
    all_goals first
      | exact (hstandby.replyAfter (by rfl) (by rfl) (by exact hsame) _).1
      | exact (hsource.replyAfter (by rfl) (by rfl) (by exact hclient) _).1
  | resume =>
    cases hhandler
    simp only [esdProtoResume]
    generalize esdValidateSource s c (s.client c).key true = v at hsource hclient ⊢
    have hresume := hsource.still
      (Unread.still_of_forall fun _ => esdServerResume_unread (s := v.1) (env.audioOpen 0))
    have hsame : (esdServerResume v.1 (env.audioOpen 0)).1.client = s.client :=
      (congrArg Objects.client (objects_esdServerResume _)).trans hclient
    split_ifs
    all_goals first
      | exact (hresume.replyAfter (by rfl) (by rfl) (by exact hsame) _).1
      | exact (hsource.replyAfter (by rfl) (by rfl) (by exact hclient) _).1
  | _ => exact hauth.elim

/-- The other requests but the upload and those that tell what there is are answered once, and
never refused. -/
theorem confirm_replies (h : (s.sockets (s.client c).fd).TakesWhole) (hints : k.request.replyInts = 1)
    (hserver : k ≠ .getServerInfo) (hall : k ≠ .getAllInfo)
    (hhandler : handler cfg env k.request s c = some r) :
    RepliesInts (s.client c).fd 1 s r.1 ∧ r.2 = true := by
  have hnone : RepliesInts (s.client c).fd 0 s s := .refl h
  have hplay : ∀ loop, RepliesInts (s.client c).fd 1 s
      (replyId (playSample cfg env s ((s.client c).param 0) loop).1 c).1 ∧
      (replyId (playSample cfg env s ((s.client c).param 0) loop).1 c).2 = true := fun loop =>
    (hnone.still (Unread.still_of_forall fun _ => playSample_unread _ loop)).replyId
      (congrFun (playSample_client _ _) c)
  cases k with
  | lock | unlock | standby | resume | sampleCache => exact absurd hints (by simp [LibCall.request, Proto.replyInts])
  | sampleGetid held name =>
    cases hhandler
    simp only [esdProtoSampleGetid]
    split <;> exact ⟨(hnone.reply rfl _).1, rfl⟩
  | sampleFree sample =>
    cases hhandler
    have herase : Still (s.client c).fd s (eraseSample s ((s.client c).param 0) false) :=
      eraseSample_idles.still _
    exact (hnone.still herase).replyId (congrFun eraseSample_idles.client c)
  | samplePlay sample =>
    cases hhandler
    exact hplay false
  | sampleLoop sample =>
    cases hhandler
    exact hplay true
  | sampleStop sample =>
    cases hhandler
    have hstop : Still (s.client c).fd s (stopSample s ((s.client c).param 0)).1 := by
      simp only [stopSample]
      split <;> exact .of_eq rfl rfl
    exact (hnone.still hstop).replyId (congrFun (stopSample_does cfg (F := .empty) _).2 c)
  | getServerInfo => exact absurd rfl hserver
  | getAllInfo => exact absurd rfl hall
  | setStreamPan id left right =>
    cases hhandler
    simp only [esdProtoStreamPan]
    split <;> exact hnone.checkedReply (by rfl) (by rfl) (by rfl) _
  | setDefaultSamplePan id left right =>
    cases hhandler
    simp only [esdProtoSamplePan]
    split <;> exact hnone.checkedReply (by rfl) (by rfl) (by rfl) _
  | getStandbyMode | getLatency =>
    cases hhandler
    exact hnone.checkedReply rfl rfl rfl _

theorem LibCall.data_eq_nil (h : k.request ≠ .sampleCache) : k.data = [] := by
  cases k with
  | sampleCache => exact absurd rfl h
  | _ => rfl

theorem LibCall.told_length (hcache : k.request = .sampleCache)
    (order : (s.client c).swapByteOrder = false)
    (hparams : load (s.client c).protoData 0 k.request.dataLength.toNat = k.params) :
    (s.client c).param 8 = k.data.length := by
  cases k with
  | sampleCache format rate held name sample =>
    have hword : wordIn (load (s.client c).protoData 0 Proto.sampleCache.dataLength.toNat) 8 =
        (s.client c).protoData.int 8 := wordIn_load (by decide)
    have hsize := LibCall.sampleCache_length format rate held name sample
    rw [← hparams] at hsize
    simp only [EsdClient.param, order, maybeSwap32, Bool.false_eq_true, if_false]
    rw [← hword]
    exact hsize
  | _ => cases hcache

/-- The handler of the request writes to its client what the call reads. -/
theorem LibCall.answered (hkey : k.Keyed) (h : (s.sockets (s.client c).fd).TakesWhole)
    (order : (s.client c).swapByteOrder = false) (state : (s.client c).state = .nextRequest)
    (flows : ¬ (s.sockets (s.client c).fd).Pauses)
    (hparams : load (s.client c).protoData 0 k.request.dataLength.toNat = k.params)
    (hdata : (s.sockets (s.client c).fd).ready = k.data)
    (hroom : k.request = .sampleCache → env.malloc ≠ 0 ∧ env.mallocData = true)
    (hinfo : k = .getAllInfo → s.Named ∧ s.IdsPositive)
    (hhandler : handler cfg env k.request s c = some r) :
    (∃ bs v, Replies (s.client c).fd bs s r.1 ∧ Reads k.reads bs v) ∧
      (r.2 = false → k.request.Authorizes) := by
  by_cases hserver : k = .getServerInfo
  · subst hserver
    cases hhandler
    obtain ⟨⟨bs, hsends, hreads⟩, hok⟩ := esdProtoServerInfo_sends cfg h order
    exact ⟨⟨bs, _, hsends.replies, hreads⟩, fun hbad => absurd (hok.symm.trans hbad) (by simp)⟩
  by_cases hall : k = .getAllInfo
  · obtain ⟨hnames, hplayers, hsamples⟩ := hinfo hall
    subst hall
    cases hhandler
    obtain ⟨⟨bs, hsends, hreads⟩, hok⟩ := esdProtoAllInfo_sends cfg env h order hnames hplayers hsamples
    exact ⟨⟨bs, _, hsends.replies, hreads⟩, fun hbad => absurd (hok.symm.trans hbad) (by simp)⟩
  have hints : RepliesInts (s.client c).fd k.request.replyInts s r.1 ∧
      (r.2 = true ∨ k.request.Authorizes) := by
    cases k with
    | lock | unlock | standby | resume =>
      exact ⟨authorize_replies (by trivial) (by simp [request]) h hhandler, .inr (by trivial)⟩
    | sampleCache format rate held name sample =>
      have hlength := LibCall.told_length rfl order hparams
      obtain ⟨hnull, hplace⟩ := hroom rfl
      have hreplies := esdProtoSampleCache_replies h state flows
        ⟨hnull, hplace, by rw [hlength]; exact Int.natCast_nonneg _⟩
        (by rw [hlength, hdata]) hhandler
      exact ⟨hreplies.1, .inl hreplies.2⟩
    | _ =>
      have hreplies := confirm_replies h rfl hserver hall hhandler
      exact ⟨hreplies.1, .inl hreplies.2⟩
  obtain ⟨⟨ws, hlength, hreplies⟩, hok⟩ := hints
  obtain ⟨v, hreads⟩ := LibCall.reads_ints hkey hserver hall hlength
  exact ⟨⟨_, v, hreplies, hreads⟩, fun hbad => hok.resolve_left (by simp [hbad])⟩

end Calls

end Esound
