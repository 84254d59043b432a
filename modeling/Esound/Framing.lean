import Esound.Admission
import Esound.Complete
import Esound.Reading

/-!
# Framing

The daemon cuts what a client sends into words of requests, parameters and the octets of
samples. Where it cuts is said here of the octets alone, without the reads that bring them, and
the turns of the client are shown to keep to it as long as no word of a request is torn.
-/

open Library.Buffer Library.Loop Library.Transition

namespace Esound

/-! ## The octets alone -/

/-- A call of a handler: the request, its parameters, and whether the client may stay. -/
structure Frame where
  request : Proto
  protoData : List Octet
  ok : Bool
  deriving DecidableEq

/-- The calls of the handlers for one client. -/
def framesOf (c : Ptr) (log : List Call) : List Frame :=
  log.filterMap fun
    | .handled d request protoData ok => if d = c then some ⟨request, protoData, ok⟩ else none
    | .connected _ | .resumed _ _ => none

instance (request : Proto) : Decidable request.Opens :=
  match request with
  | .streamPlay | .streamRec | .streamMon | .streamFilt => .isTrue trivial
  | .connect | .lock | .unlock | .sampleCache | .sampleFree | .samplePlay | .sampleLoop | .sampleStop
  | .sampleKill | .standby | .resume | .sampleGetid | .serverInfo | .allInfo | .subscribe
  | .unsubscribe | .streamPan | .samplePan | .standbyMode | .latency => .isFalse id

/-- An int among the parameters. -/
def wordIn (protoData : List Octet) (off : ℕ) : Word := Mem.int (store (fun _ => 0) 0 protoData) off

/-- What is left of the octets of a client: before its first request, behind a request with the
word `last`, and when no request follows any more. -/
inductive Framer
  | connecting (bytes : List Octet)
  | reading (swap : Bool) (last : Word) (bytes : List Octet)
  | closed

namespace Framer

def swap : Framer → Bool
  | reading swap _ _ => swap
  | connecting _ | closed => false

/-- The word of the next request and the octets behind it. Where less than a word is left, the
rest of it is that of the word before. -/
def next : Framer → Option (Word × List Octet)
  | connecting bytes => some (0#32, bytes)
  | reading swap last bytes =>
    let word := readRequest last (bytes.take 4)
    let word := if swap then swapEndian32 word else word
    if bytes = [] ∨ Proto.ofWord word = some .connect then none else some (word, bytes.drop 4)
  | closed => none

/-- The next request and its parameters, if they are all there. -/
def invocation (f : Framer) : Option (Proto × List Octet) :=
  f.next.bind fun (word, bytes) => (Proto.ofWord word).bind fun request =>
    if 0 ≤ request.dataLength ∧ request.dataLength ≤ bytes.length then
      some (request, bytes.take request.dataLength.toNat)
    else none

/-- What is left behind a call. The octets of a sample follow the request to cache it. -/
def after (f : Framer) (x : Frame) : Framer :=
  match f.next with
  | none => closed
  | some (word, bytes) =>
    let bytes := bytes.drop x.request.dataLength.toNat
    if x.ok = false ∨ x.request.Opens then closed
    else if x.request = .connect then
      reading (decide (wordIn x.protoData esdKeyLen = esdSwapEndianKey)) word bytes
    else if x.request = .sampleCache then
      reading f.swap word
        (bytes.drop (maybeSwap32 f.swap (wordIn x.protoData 8)).toInt.toNat)
    else reading f.swap word bytes

def take (f : Framer) (x : Frame) : Option Framer :=
  if f.invocation = some (x.request, x.protoData) then some (f.after x) else none

theorem take_keyed (f : Framer) (x y : Frame) (f' f'' : Framer) (h : f.take x = some f')
    (h' : f.take y = some f'') : (x.request, x.protoData) = (y.request, y.protoData) := by
  simp only [take] at h h'
  split_ifs at h h' with hx hy
  exact Option.some.inj (hx.symm.trans hy)

theorem take_none {f : Framer} (h : f.invocation = none) (x : Frame) : f.take x = none := by
  simp [take, h]

theorem invocation_of_next {f : Framer} (h : f.next = none) : f.invocation = none := by
  simp [invocation, h]

end Framer

/-! ## What is read of the octets -/

section Octets

variable {m : Mem} {word : Word}

theorem wordIn_load {off n : ℕ} (h : off + 4 ≤ n) : wordIn (load m 0 n) off = m.int off := by
  have hcell : ∀ i < n, store (fun _ => (0 : Octet)) 0 (load m 0 n) i = m i := by
    intro i hi
    have hat := store_at (fun _ => (0 : Octet)) 0 (load m 0 n) (i := i) (by simpa using hi)
    simpa [load, hi] using hat
  simp only [wordIn, Mem.int, hcell off (by omega), hcell (off + 1) (by omega),
    hcell (off + 2) (by omega), hcell (off + 3) (by omega)]

theorem drop_take_length {α : Type*} {bs rest : List α} {n : ℕ} (h : bs.length = min n (bs ++ rest).length) :
    (bs ++ rest).take n = bs ∧ (bs ++ rest).drop n = rest := by
  rw [List.length_append] at h
  have hcases : n = bs.length ∨ rest = [] ∧ bs.length ≤ n := by
    rcases Nat.le_total n (bs.length + rest.length) with hle | hle
    · exact .inl (by omega)
    · exact .inr ⟨List.eq_nil_of_length_eq_zero (by omega), by omega⟩
  rcases hcases with rfl | ⟨rfl, hle⟩
  · exact ⟨List.take_left, List.drop_left⟩
  · rw [List.append_nil]
    exact ⟨List.take_of_length_le hle, List.drop_eq_nil_of_le hle⟩

end Octets

/-! ## Where the daemon stands -/

/-- The read of the word of a request brings all of it that is still to come. -/
def Server.WholeWord (s : Server) (c : Ptr) : Prop :=
  ((s.sockets (s.client c).fd).read 4).1.octets.length = min 4 (s.sockets (s.client c).fd).ready.length

instance (s : Server) (c : Ptr) : Decidable (s.WholeWord c) := inferInstanceAs (Decidable (_ = _))

/-- No word of a request is torn. -/
def WholeWords (c : Ptr) (s : Server) : Action → Prop
  | .poll d env =>
    d = c → env.canRead = true → (s.client c).state = .nextRequest → s.WholeWord c
  | _ => True

/-- Nobody else is given the address of the client, and not everybody is disconnected. -/
def SameConnection (c : Ptr) : Action → Prop
  | .accept d _ _ => d ≠ c
  | .reset _ => False
  | _ => True

instance (c : Ptr) (s : Server) (a : Action) : Decidable (WholeWords c s a) :=
  match a with
  | .poll d env =>
    inferInstanceAs (Decidable (d = c → env.canRead = true → (s.client c).state = .nextRequest → _))
  | .accept .. | .refresh | .mix _ | .wake _ | .filter .. | .monitor .. | .recorder ..
  | .autostandby | .reconnect _ | .reset _ => .isTrue trivial

instance (c : Ptr) (a : Action) : Decidable (SameConnection c a) :=
  match a with
  | .accept d _ _ => inferInstanceAs (Decidable (d ≠ c))
  | .reset _ => .isFalse id
  | .poll .. | .refresh | .mix _ | .wake _ | .filter .. | .monitor .. | .recorder ..
  | .autostandby | .reconnect _ => .isTrue trivial

/-- The socket of the client, which is not interrupted. -/
structure Receiving (c : Ptr) (s : Server) : Prop where
  listed : c ∈ s.esdClientsList
  flows : ¬ (s.sockets (s.client c).fd).Pauses

/-- The daemon has read of the octets what it needs for the next request, or a part of that. -/
inductive Framer.Fits (c : Ptr) (s : Server) : Framer → Prop
  | ended (f : Framer) (stuck : f.invocation = none)
      (gone : c ∉ s.esdClientsList ∨ (s.client c).state = .streamingData) : Fits c s f
  | between (receiving : Receiving c s) (state : (s.client c).state = .nextRequest) :
      Fits c s (.reading (s.client c).swapByteOrder (s.client c).request
        (s.sockets (s.client c).fd).ready)
  | within (f : Framer) (receiving : Receiving c s) (state : (s.client c).state = .needsReqdata)
      (request : Proto) (word : Proto.ofWord (s.client c).request = some request) (n : ℕ)
      (length : (s.client c).protoDataLength = n)
      (more : request.dataLength < 0 ∨ n < request.dataLength)
      (next : f.next = some ((s.client c).request,
        load (s.client c).protoData 0 n ++ (s.sockets (s.client c).fd).ready))
      (swap : request ≠ .connect → f.swap = (s.client c).swapByteOrder) : Fits c s f

/-- The connection has come to its end, or all that was sent has been read. -/
def Server.Over (s : Server) (c : Ptr) : Prop :=
  c ∉ s.esdClientsList ∨ (s.client c).state = .streamingData ∨
    (s.sockets (s.client c).fd).input = []

instance (s : Server) (c : Ptr) : Decidable (s.Over c) := inferInstanceAs (Decidable (_ ∨ _))

section Standing

variable {cfg : Config} {env : PollEnv} {s t : Server} {c : Ptr} {f : Framer}

theorem invocation_within {request : Proto} {word : Word} {bytes : List Octet}
    (next : f.next = some (word, bytes)) (hword : Proto.ofWord word = some request)
    (h : request.dataLength < 0 ∨ bytes.length < request.dataLength) : f.invocation = none := by
  have hshort : ¬ (0 ≤ request.dataLength ∧ request.dataLength ≤ bytes.length) := by omega
  simp [Framer.invocation, next, hword, hshort]

theorem Framer.Fits.stuck (h : f.Fits c s) (hover : s.Over c) : f.invocation = none := by
  have hready : (s.sockets (s.client c).fd).input = [] → (s.sockets (s.client c).fd).ready = [] := by
    intro hnil
    simp [Socket.ready, hnil, readyOctets]
  cases h with
  | ended _ stuck gone => exact stuck
  | between receiving state =>
    rcases hover with hgone | hstream | hnil
    · exact absurd receiving.listed hgone
    · rw [state] at hstream
      cases hstream
    · exact Framer.invocation_of_next (by simp [Framer.next, hready hnil])
  | within _ receiving state request word n length more next swap =>
    rcases hover with hgone | hstream | hnil
    · exact absurd receiving.listed hgone
    · rw [state] at hstream
      cases hstream
    · refine invocation_within next word ?_
      rw [hready hnil, List.append_nil, load_length]
      exact more

theorem Framer.Fits.unmoved (h : f.Fits c s) (client : t.client c = s.client c)
    (input : (t.sockets (s.client c).fd).input = (s.sockets (s.client c).fd).input)
    (listed : c ∈ s.esdClientsList → (s.client c).state ≠ .streamingData → c ∈ t.esdClientsList)
    (unlisted : c ∉ s.esdClientsList → c ∉ t.esdClientsList) : f.Fits c t := by
  have hsocket : (t.sockets (t.client c).fd).input = (s.sockets (s.client c).fd).input := by
    rw [client, input]
  have hready : (t.sockets (t.client c).fd).ready = (s.sockets (s.client c).fd).ready :=
    congrArg readyOctets hsocket
  have hreceiving : Receiving c s → (s.client c).state ≠ .streamingData → Receiving c t := by
    intro hr hstate
    refine ⟨listed hr.listed hstate, ?_⟩
    simp only [Socket.Pauses, hsocket]
    exact hr.flows
  cases h with
  | ended _ stuck gone =>
    refine .ended f stuck (gone.imp unlisted fun hstream => ?_)
    rwa [client]
  | between receiving state =>
    rw [← hready, ← client]
    exact .between (hreceiving receiving (by simp [state])) (by rwa [client])
  | within _ receiving state request word n length more next swap =>
    rw [← hready, ← client] at next
    rw [← client] at state word length swap
    exact .within f (hreceiving receiving (by simp [← client, state])) state request word n length
      more next swap

end Standing

/-! ## What the handlers leave of the octets -/

section Handlers

variable {cfg : Config} {env : PollEnv} {s : Server} {c q : Ptr} {r : Server × Bool}

theorem startRecorder_streams (hok : (startRecorder cfg env s c).2 = true) :
    ((startRecorder cfg env s c).1.client c).state = .streamingData := by
  have hjoin : ∀ u p, ((joinRecorders u c p).1.client c).state = .streamingData := by
    intro u p
    simp [joinRecorders, setStreaming, Server.setClient]
  simp only [startRecorder, reopenToRecord] at hok ⊢
  split_ifs at hok ⊢
  · split at hok
    · exact hjoin _ _
    · cases hok
  · exact hjoin _ _

theorem handler_streams {request : Proto} (hopens : request.Opens)
    (h : handler cfg env request s c = some r) (hok : r.2 = true) :
    (r.1.client c).state = .streamingData := by
  have hstream : ∀ u, ((setStreaming u c).client c).state = .streamingData := by
    intro u
    simp [setStreaming, Server.setClient]
  cases request with
  | streamPlay | streamMon | streamFilt =>
    cases h
    simp only [esdProtoStreamPlay, esdProtoStreamMonitor, esdProtoStreamFilter] at hok ⊢
    split_ifs at hok ⊢
    exact hstream _
  | streamRec =>
    cases h
    simp only [esdProtoStreamRecorder] at hok ⊢
    split_ifs at hok ⊢ <;> exact startRecorder_streams hok
  | _ => exact hopens.elim

theorem esdProtoConnect_order (hok : (esdProtoConnect s c).2 = true) :
    (esdProtoConnect s c).1.client c = { s.client c with
      swapByteOrder := decide ((s.client c).protoData.int esdKeyLen = esdSwapEndianKey) } := by
  have hsource : (esdValidateSource s c (s.client c).key false).1.client = s.client :=
    (esdValidateSource_frame _ _).2
  simp only [esdProtoConnect] at hok ⊢
  generalize esdValidateSource s c (s.client c).key false = v at hsource hok ⊢
  obtain ⟨t, ok⟩ := v
  cases ok with
  | false => cases hok
  | true =>
    dsimp only at hsource hok ⊢
    simp only [esdCheckEndian] at hok ⊢
    split_ifs at hok ⊢ with hkey hswap
    · have hne : esdEndianKey ≠ esdSwapEndianKey := by decide
      simp [Server.setClient, hsource, hkey, hne]
    · simp [Server.setClient, hsource, hswap]

/-- What the loop of `read_sample` has taken of octets that are not interrupted. -/
structure Took (q : Ptr) (total : ℤ) (s : Server) (r : ReadSample) : Prop where
  ended : r.failed = true → r.going = false
  going : r.failed = false → r.going = true
  sample : r.failed = false → r.srv.sample = s.sample
  flows : r.failed = false → ¬ (r.srv.uploadSocket q).Pauses
  octets : r.failed = false → ∃ bs, (s.uploadSocket q).ready = bs ++ (r.srv.uploadSocket q).ready ∧
    r.total = total + (bs : List Octet).length

theorem readSampleRound_took {total : ℤ} {u u' : ReadSample} (hu : Took q total s u)
    (h : readSampleRound cfg q u = some u') : Took q total s u' := by
  have hmore : u.total < (u.srv.sample q).sampleLength ∧ u.going = true := by
    by_contra hnone
    simp only [readSampleRound, hnone, if_false, reduceCtorEq] at h
  have hfailed : u.failed = false := by
    by_contra hne
    have hended := hu.ended (Bool.eq_true_of_not_eq_false hne)
    rw [hmore.2] at hended
    cases hended
  obtain ⟨v, hround, hcases⟩ := readSampleRound_cases cfg hmore.1 hmore.2 hfailed
  cases Option.some.inj (h.symm.trans hround)
  rcases hcases with hadvance | hstop
  · have hstill : u'.failed = false := hadvance.failed.trans hfailed
    have hgoing : u'.going = true := hadvance.going.trans hmore.2
    refine ⟨fun hbad => absurd (hstill.symm.trans hbad) (by simp), fun _ => hgoing,
      fun _ => hadvance.sample.trans (hu.sample hfailed),
      fun _ => fun hpauses => hu.flows hfailed (hadvance.pauses.mp hpauses), fun _ => ?_⟩
    obtain ⟨bs, -, htotal, -, hready⟩ := hadvance.octets
    obtain ⟨before, hbefore, hcount⟩ := hu.octets hfailed
    refine ⟨before ++ bs, ?_, ?_⟩
    · rw [hbefore, hready, List.append_assoc]
    · rw [htotal, hcount, List.length_append, Nat.cast_add, add_assoc]
  · have hbad : u'.failed = true := hstop.failed.mpr (hu.flows hfailed)
    refine ⟨fun _ => hstop.going, ?_, ?_, ?_, ?_⟩ <;>
      exact fun hgood => absurd (hgood.symm.trans hbad) (by simp)

variable (cfg s q) in
theorem readSample_length :
    ((readSample cfg s q).1.sample q).sampleLength = (s.sample q).sampleLength := by
  have hsample := congrFun (congrArg Server.sample (readSample_reads cfg s q).rest) q
  simp only [Function.update_self] at hsample
  rw [hsample]

variable (cfg) in
theorem readSample_took (hflows : ¬ (s.uploadSocket q).Pauses)
    (hle : (s.sample q).cachedLength ≤ (s.sample q).sampleLength)
    (hok : (readSample cfg s q).2 = true) :
    ((readSample cfg s q).1.sample q).cachedLength = (s.sample q).sampleLength ∧
      ¬ ((readSample cfg s q).1.sockets (s.client (s.sample q).parent).fd).Pauses ∧
      ((readSample cfg s q).1.sockets (s.client (s.sample q).parent).fd).ready =
        (s.uploadSocket q).ready.drop
          ((s.sample q).sampleLength - (s.sample q).cachedLength).toNat := by
  obtain ⟨hfails, hcached⟩ := readSample_outcome cfg hle
  have hread := readSample_reads cfg s q
  have hnot : ¬ s.UploadFails (s.sample q).parent q := by
    rw [← hfails, hok]
    simp
  have hlength : s.uploadedLength (s.sample q).parent q = (s.sample q).sampleLength := by
    have henough : ¬ (s.sample q).cachedLength + (s.uploadSocket q).ready.length <
        (s.sample q).sampleLength := fun hlt => hnot ⟨hlt, hflows⟩
    simp only [Server.uploadedLength]
    simp only [Server.uploadSocket] at henough
    omega
  have hfull := (hcached hok).trans hlength
  have htook : Took q (s.sample q).cachedLength s (whileFuel (readSampleRound cfg q)
      (((s.sample q).sampleLength - (s.sample q).cachedLength).toNat + 1)
      ⟨s, (s.sample q).cachedLength, true, false⟩) :=
    whileFuel_invariant _ (fun u u' hu h => readSampleRound_took hu h) _
      ⟨by simp, fun _ => rfl, fun _ => rfl, fun _ => hflows, fun _ => ⟨[], by simp, by simp⟩⟩
  have hclient : (readSample cfg s q).1.client = s.client := readSample_client cfg
  refine ⟨hfull, ?_⟩
  simp only [readSample] at hok hfull hclient ⊢
  generalize whileFuel (readSampleRound cfg q)
    (((s.sample q).sampleLength - (s.sample q).cachedLength).toNat + 1)
    ⟨s, (s.sample q).cachedLength, true, false⟩ = u at htook hok hfull hclient ⊢
  split_ifs at hok hfull hclient ⊢ with hbad
  have hgood : u.failed = false := Bool.eq_false_of_not_eq_true hbad
  have hsocket : u.srv.uploadSocket q = u.srv.sockets (s.client (s.sample q).parent).fd := by
    have hsame : u.srv.client = s.client := hclient
    rw [Server.uploadSocket, htook.sample hgood, hsame]
  obtain ⟨bs, hready, htotal⟩ := htook.octets hgood
  have hbs : bs.length = ((s.sample q).sampleLength - (s.sample q).cachedLength).toNat := by
    simp only [Server.setSample, Function.update_self] at hfull
    omega
  have hflow := htook.flows hgood
  rw [hsocket] at hflow hready
  refine ⟨hflow, ?_⟩
  change (u.srv.sockets (s.client (s.sample q).parent).fd).ready = _
  rw [hready, ← hbs, List.drop_left]

/-- What a handler has left of the octets, and of the record of its client. -/
structure Leaves (c : Ptr) (s : Server) (n : ℕ) (t : Server) : Prop where
  client : t.client c = s.client c
  flows : ¬ (t.sockets (s.client c).fd).Pauses
  ready : (t.sockets (s.client c).fd).ready = (s.sockets (s.client c).fd).ready.drop n

variable (cfg) in
theorem cacheInto_leaves (state : (s.client c).state = .nextRequest)
    (flows : ¬ (s.sockets (s.client c).fd).Pauses)
    (hle : (s.sample q).cachedLength ≤ (s.sample q).sampleLength)
    (hok : (cacheInto cfg s c q).2 = true) :
    Leaves c s ((s.sample q).sampleLength - (s.sample q).cachedLength).toNat
      (cacheInto cfg s c q).1 := by
  obtain ⟨u, hu⟩ : ∃ u, u = s.setSample q { s.sample q with parent := c } := ⟨_, rfl⟩
  have hq : u.sample q = { s.sample q with parent := c } := by simp [hu, Server.setSample]
  have hsame : u.client = s.client ∧ u.sockets = s.sockets := by
    rw [hu]
    exact ⟨rfl, rfl⟩
  have hclient : (readSample cfg u q).1.client = u.client := readSample_client cfg
  have htook := readSample_took cfg (s := u) (q := q)
    (by simpa [Server.uploadSocket, hq, hsame.1, hsame.2] using flows) (by rw [hq]; exact hle)
  simp only [Server.uploadSocket, hq, hsame.1, hsame.2] at htook
  rw [hsame.1] at hclient
  simp only [cacheInto, ← hu] at hok ⊢
  obtain ⟨⟨v, ok⟩, hr⟩ : ∃ r, readSample cfg u q = r := ⟨_, rfl⟩
  rw [hr] at htook hclient
  rw [hr] at hok ⊢
  cases ok with
  | false => cases hok
  | true =>
    obtain ⟨hfull, hflows, hready⟩ := htook rfl
    have hlength : (v.sample q).sampleLength = (s.sample q).sampleLength := by
      have hsame := readSample_length cfg u q
      rw [hr, hq] at hsame
      exact hsame
    have hdone : ¬ (v.sample q).cachedLength < (v.sample q).sampleLength := by
      rw [hlength]
      exact not_lt.mpr hfull.ge
    simp only [hdone, if_false]
    obtain ⟨w, hw⟩ : ∃ w, w = v.setClient c { v.client c with state := .nextRequest } := ⟨_, rfl⟩
    have hinput : ∀ x, ((reply w c x).1.sockets (s.client c).fd).input =
        (v.sockets (s.client c).fd).input := by
      intro x
      rw [(reply_unread x).input, hw]
      rfl
    rw [← hw]
    refine ⟨?_, ?_, ?_⟩
    · have hrecord : (reply w c (w.sample q).sampleId).1.client c = w.client c := rfl
      have hsame : v.client = s.client := hclient
      rw [hrecord, hw]
      simp only [Server.setClient, Function.update_self, hsame, ← state]
    · simp only [Socket.Pauses, hinput]
      exact hflows
    · simp only [Socket.ready, hinput]
      exact hready

theorem esdProtoSampleCache_leaves (state : (s.client c).state = .nextRequest)
    (flows : ¬ (s.sockets (s.client c).fd).Pauses)
    (h : esdProtoSampleCache cfg env s c = some r) (hok : r.2 = true) :
    Leaves c s ((s.client c).param 8).toNat r.1 := by
  have hnot : (s.client c).state ≠ .cachingSample := by simp [state]
  simp only [esdProtoSampleCache, hnot, if_false] at h
  by_cases hroom : SampleRoom env s c
  · obtain ⟨hp, hlength, hcached⟩ := newSample_room cfg hroom
    obtain ⟨hsame, -⟩ := newSample_cached cfg env s c
    rw [hp, if_neg hroom.1] at h
    cases h
    obtain ⟨u, hu⟩ : ∃ u, addSample (newSample cfg env s c).1 env.malloc = u := ⟨_, rfl⟩
    have hclient : u.client = s.client := by
      rw [← hu]
      exact hsame.client
    have hsample : (u.sample env.malloc).cachedLength = 0 ∧
        (u.sample env.malloc).sampleLength = (s.client c).param 8 := by
      rw [← hu]
      exact ⟨hcached, hlength⟩
    have hinput : ∀ fd, (u.sockets fd).input = (s.sockets fd).input := by
      rw [← hu]
      exact hsame.input
    rw [hu] at hok ⊢
    have hleaves := cacheInto_leaves cfg (s := u) (c := c) (q := env.malloc)
      (by rw [hclient, state]) (by simpa only [Socket.Pauses, hinput, hclient] using flows)
      (by rw [hsample.1, hsample.2]; exact hroom.2.2) hok
    rw [hsample.1, hsample.2, sub_zero] at hleaves
    refine ⟨hleaves.client.trans (congrFun hclient c), ?_, ?_⟩
    · rw [← hclient]
      exact hleaves.flows
    · rw [← hclient, hleaves.ready]
      simp only [Socket.ready, hinput, hclient]
  · rw [newSample_noRoom hroom, if_pos rfl] at h
    cases h
    cases hok

end Handlers

/-! ## The turns of the client -/

/-- The daemon went on from `f` by the handlers it called for the client. -/
def Proceeds (c : Ptr) (f : Framer) (s t : Server) : Prop :=
  ∃ calls f', t.calls = s.calls ++ calls ∧
    Run Framer.take (fun _ _ => True) f (framesOf c calls) f' ∧ f'.Fits c t

/-- A handler is about to be called with a request that is complete. -/
structure Called (c : Ptr) (f : Framer) (request : Proto) (s : Server) : Prop where
  receiving : Receiving c s
  state : (s.client c).state = .nextRequest
  word : Proto.ofWord (s.client c).request = some request
  length : 0 ≤ request.dataLength
  next : f.next = some ((s.client c).request,
    load (s.client c).protoData 0 request.dataLength.toNat ++ (s.sockets (s.client c).fd).ready)
  swap : request ≠ .connect → f.swap = (s.client c).swapByteOrder

section Turns

variable {cfg : Config} {env : PollEnv} {s t u : Server} {c : Ptr} {f : Framer} {request : Proto}
  {r : Server × Bool}

theorem Proceeds.still (calls : t.calls = s.calls) (fits : f.Fits c t) : Proceeds c f s t :=
  ⟨[], f, by simp [calls], .nil f, fits⟩

theorem Proceeds.called {protoData : List Octet} {ok : Bool}
    (calls : t.calls = s.calls ++ [.handled c request protoData ok])
    (invocation : f.invocation = some (request, protoData))
    (fits : (f.after ⟨request, protoData, ok⟩).Fits c t) : Proceeds c f s t := by
  have htake : f.take ⟨request, protoData, ok⟩ = some (f.after ⟨request, protoData, ok⟩) := by
    simp [Framer.take, invocation]
  refine ⟨_, _, calls, ?_, fits⟩
  simp only [framesOf, List.filterMap_cons, if_true, List.filterMap_nil]
  exact .cons trivial htake (.nil _)

theorem Proceeds.trans (h : Proceeds c f s t) (h' : ∀ f' : Framer, f'.Fits c t → Proceeds c f' t u) :
    Proceeds c f s u := by
  obtain ⟨calls, f', hcalls, hrun, hfits⟩ := h
  obtain ⟨calls', f'', hcalls', hrun', hfits'⟩ := h' f' hfits
  refine ⟨calls ++ calls', f'', by rw [hcalls', hcalls, List.append_assoc], ?_, hfits'⟩
  have happend : framesOf c (calls ++ calls') = framesOf c calls ++ framesOf c calls' :=
    List.filterMap_append
  rw [happend]
  exact hrun.append hrun'

namespace Called

theorem invocation (h : Called c f request s) : f.invocation =
    some (request, load (s.client c).protoData 0 request.dataLength.toNat) := by
  have hlength := h.length
  have henough : request.dataLength ≤ (load (s.client c).protoData 0 request.dataLength.toNat ++
      (s.sockets (s.client c).fd).ready).length := by
    rw [List.length_append, load_length]
    omega
  have htake : (load (s.client c).protoData 0 request.dataLength.toNat ++
      (s.sockets (s.client c).fd).ready).take request.dataLength.toNat =
      load (s.client c).protoData 0 request.dataLength.toNat :=
    List.take_left' (load_length _ _ _)
  simp only [Framer.invocation, h.next, h.word, Option.bind_some, h.length, henough, and_self,
    if_true, htake]

/-- What the framer makes of a call that went well. -/
theorem after (h : Called c f request s) (protoData : List Octet) :
    f.after ⟨request, protoData, true⟩ =
      if request.Opens then .closed
      else if request = .connect then
        .reading (decide (wordIn protoData esdKeyLen = esdSwapEndianKey)) (s.client c).request
          (s.sockets (s.client c).fd).ready
      else if request = .sampleCache then
        .reading (s.client c).swapByteOrder (s.client c).request
          ((s.sockets (s.client c).fd).ready.drop
            (maybeSwap32 (s.client c).swapByteOrder (wordIn protoData 8)).toInt.toNat)
      else
        .reading (s.client c).swapByteOrder (s.client c).request
          (s.sockets (s.client c).fd).ready := by
  have hdrop : (load (s.client c).protoData 0 request.dataLength.toNat ++
      (s.sockets (s.client c).fd).ready).drop request.dataLength.toNat =
      (s.sockets (s.client c).fd).ready := List.drop_left' (load_length _ _ _)
  simp only [Framer.after, h.next, Bool.true_eq_false, false_or, hdrop]
  split_ifs with hopens hconnect hcache
  · rfl
  · rfl
  · rw [h.swap hconnect]
  · rw [h.swap hconnect]

variable (hcalled : Called c f request s) (hnull : c ≠ 0)
  (h : handler cfg env request s c = some r) (hok : r.2 = true)

include hcalled hnull h hok

/-- A handler that opens no stream, when its client stays. -/
theorem leaves (hopens : ¬ request.Opens) (hconnect : request ≠ .connect) :
    c ∈ r.1.esdClientsList ∧
      Leaves c s (if request = .sampleCache then ((s.client c).param 8).toNat else 0) r.1 := by
  split_ifs with hcache
  · subst hcache
    refine ⟨?_, esdProtoSampleCache_leaves hcalled.state hcalled.receiving.flows h hok⟩
    cases esdProtoSampleCache_uploads h with
    | none t shelf same => cases hok
    | start v isNew t same shelf notNull r caches =>
      rw [caches.clients, same.clients]
      exact hcalled.receiving.listed
    | resume caching q found notNull r caches =>
      rw [caches.clients]
      exact hcalled.receiving.listed
  · have hunread := handler_unread hcache h
    have hinput := hunread.input (s.client c).fd
    refine ⟨hunread.clients c hnull hcalled.receiving.listed,
      congrFun (handler_client hopens hcache hconnect h) c, ?_, ?_⟩
    · simp only [Socket.Pauses, hinput]
      exact hcalled.receiving.flows
    · exact congrArg readyOctets hinput

theorem fits : (f.after
    ⟨request, load (s.client c).protoData 0 request.dataLength.toNat, true⟩).Fits c r.1 := by
  have hbetween : ¬ request.Opens → request ≠ .connect →
      (Framer.reading (s.client c).swapByteOrder (s.client c).request
        ((s.sockets (s.client c).fd).ready.drop
          (if request = .sampleCache then ((s.client c).param 8).toNat else 0))).Fits c r.1 := by
    intro hopens hconnect
    obtain ⟨hlisted, hleaves⟩ := hcalled.leaves hnull h hok hopens hconnect
    have hbetween := Framer.Fits.between (c := c) (s := r.1)
      ⟨hlisted, by rw [hleaves.client]; exact hleaves.flows⟩ (by rw [hleaves.client, hcalled.state])
    rwa [hleaves.client, hleaves.ready] at hbetween
  rw [hcalled.after]
  split_ifs with hopens hconnect hcache
  · exact .ended _ rfl (.inr (handler_streams hopens h hok))
  · subst hconnect
    cases h
    have hclient := esdProtoConnect_order hok
    have hunread := esdProtoConnect_unread (s := s) (c := c)
    have hinput := hunread.input (s.client c).fd
    have hfd : ((esdProtoConnect s c).1.client c).fd = (s.client c).fd := by rw [hclient]
    have hword : wordIn (load (s.client c).protoData 0 Proto.connect.dataLength.toNat) esdKeyLen =
        (s.client c).protoData.int esdKeyLen := wordIn_load (by decide)
    have hreceiving : Receiving c (esdProtoConnect s c).1 := by
      refine ⟨hunread.clients c hnull hcalled.receiving.listed, ?_⟩
      simp only [Socket.Pauses, hfd, hinput]
      exact hcalled.receiving.flows
    have hend := Framer.Fits.between hreceiving (by rw [hclient, hcalled.state])
    have hready : ((esdProtoConnect s c).1.sockets (s.client c).fd).ready =
        (s.sockets (s.client c).fd).ready := congrArg readyOctets hinput
    rw [hclient, hready] at hend
    rwa [hword]
  · have hcached := hbetween hopens hconnect
    subst hcache
    have hword : wordIn (load (s.client c).protoData 0 Proto.sampleCache.dataLength.toNat) 8 =
        (s.client c).protoData.int 8 := wordIn_load (by decide)
    rw [if_pos rfl] at hcached
    rwa [hword]
  · have hend := hbetween hopens hconnect
    rwa [if_neg hcache, List.drop_zero] at hend

omit hnull hok in
/-- The call is put down. -/
theorem recorded (hw : s.objects.WellFormed) (fresh : Action.Fresh s env.malloc) (v : Server)
    (hv : v = r.1.record (.handled c request
      (load (s.client c).protoData 0 request.dataLength.toNat) r.2)) :
    v.objects.WellFormed ∧ v.calls = s.calls ++ [.handled c request
      (load (s.client c).protoData 0 request.dataLength.toNat) r.2] := by
  have active : (s.client c).state ≠ .streamingData := by simp [hcalled.state]
  have hlisted := hcalled.receiving.listed
  rw [hv]
  refine ⟨(handler_serves active hlisted fresh.1 hw fresh.2 h).effects.wellFormed hw, ?_⟩
  rw [← (handler_obeys hw hlisted fresh.1 fresh.2 active h).calls]
  rfl

omit hok in
/-- The call is the one that was to come, and the client is closed if it failed. -/
theorem proceeds (hw : s.objects.WellFormed) (fresh : Action.Fresh s env.malloc)
    (v : Server) (hv : v = r.1.record (.handled c request
      (load (s.client c).protoData 0 request.dataLength.toNat) r.2)) :
    Proceeds c f s (if r.2 then v else eraseClient v c) := by
  obtain ⟨hwell, hcalls⟩ := hcalled.recorded h hw fresh v hv
  have herased := calls_of_ledger (ledger_afterTurn c (v, r.2))
  refine .called (herased.trans hcalls) hcalled.invocation ?_
  obtain ⟨w, ok⟩ := r
  cases ok with
  | true =>
    have hfits := hcalled.fits hnull h rfl
    rw [hv]
    exact hfits.unmoved rfl rfl (fun hc _ => hc) id
  | false =>
    have hgone : c ∉ (if (v, false).2 then (v, false).1 else eraseClient (v, false).1 c).esdClientsList :=
      erased_notMem (r := (v, false)) hwell rfl
    have hclosed : f.after ⟨request, load (s.client c).protoData 0 request.dataLength.toNat, false⟩ =
        .closed := by
      simp [Framer.after, hcalled.next]
    rw [hclosed]
    exact .ended _ rfl (.inl hgone)

end Called

/-- What the reads of a turn make of a client with which the daemon stands at `f`. -/
def Opening.Follows (c : Ptr) (f : Framer) : Opening → Prop
  | done t ok => (ok = true → f.Fits c t) ∧ (ok = false → f.invocation = none)
  | handles request t => Called c f request t
  | resumes => False

theorem openBegun_follows (hlisted : c ∈ s.esdClientsList)
    (flows : ¬ (s.sockets (s.client c).fd).Pauses)
    (word : Proto.ofWord (s.client c).request = some request)
    (next : f.next = some ((s.client c).request, (s.sockets (s.client c).fd).ready))
    (swap : f.swap = (s.client c).swapByteOrder) : (openBegun request s c).Follows c f := by
  simp only [openBegun]
  split_ifs with hbare
  · refine ⟨⟨hlisted, ?_⟩, ?_, ?_, hbare.ge, ?_, fun _ => ?_⟩
    · simpa [Server.setClient] using flows
    · simp [Server.setClient]
    · simpa [Server.setClient] using word
    · simpa [Server.setClient, hbare] using next
    · simpa [Server.setClient] using swap
  · refine ⟨fun _ => ?_, fun hbad => Bool.noConfusion hbad⟩
    have hmore : request.dataLength < 0 ∨ ((0 : ℕ) : ℤ) < request.dataLength := by omega
    refine .within f ⟨hlisted, ?_⟩ ?_ request ?_ 0 ?_ hmore ?_ fun _ => ?_
    · simpa [Server.setClient] using flows
    · simp [Server.setClient]
    · simpa [Server.setClient] using word
    · simp [Server.setClient]
    · simpa [Server.setClient] using next
    · simpa [Server.setClient] using swap

theorem openRequest_follows (receiving : Receiving c s) (whole : s.WholeWord c) :
    (openRequest s c).Follows c (.reading (s.client c).swapByteOrder (s.client c).request
      (s.sockets (s.client c).fd).ready) := by
  have hread := (s.sockets (s.client c).fd).read_reads (n := 4) (by decide)
  obtain ⟨x, hx⟩ : ∃ x, (s.sockets (s.client c).fd).read 4 = x := ⟨_, rfl⟩
  have hsys : s.sysRead (s.client c).fd 4 =
      ({ s with sockets := Function.update s.sockets (s.client c).fd x.2 }, x.1) := by
    rw [← hx]
    rfl
  simp only [Server.WholeWord] at whole
  rw [hx] at hread whole
  simp only [openRequest, readRequestWord, hsys]
  cases hread with
  | some bs k' hne hle hready hpauses =>
    have hcut : bs.length = min 4 (bs ++ k'.ready).length := by
      rw [← hready]
      exact whole
    obtain ⟨htake, hdrop⟩ := drop_take_length hcut
    have hhangup : ¬ (ReadResult.data bs).Hangup := ReadResult.not_hangup_data hne
    have hsome : bs ++ k'.ready ≠ [] := by simp [hne]
    obtain ⟨word, hword⟩ : ∃ word, word = (if (s.client c).swapByteOrder = true then
        swapEndian32 (readRequest (s.client c).request bs)
      else readRequest (s.client c).request bs) := ⟨_, rfl⟩
    have hnext : (Framer.reading (s.client c).swapByteOrder (s.client c).request
        (bs ++ k'.ready)).next = if Proto.ofWord word = some .connect then none
          else some (word, k'.ready) := by
      simp only [Framer.next, htake, hdrop, hsome, false_or, ← hword]
    rw [hready]
    simp only [hhangup, if_false, ReadResult.octets, ← hword]
    obtain ⟨u, hu⟩ : ∃ u, u = Server.setClient
        { s with sockets := Function.update s.sockets (s.client c).fd k' } c
        { s.client c with request := word } := ⟨_, rfl⟩
    rw [← hu]
    have hclient : u.client c = { s.client c with request := word } := by
      simp [hu, Server.setClient]
    have hsocket : u.sockets (s.client c).fd = k' := by simp [hu, Server.setClient]
    rw [hclient]
    cases hproto : Proto.ofWord word with
    | none =>
      refine ⟨fun hbad => Bool.noConfusion hbad, fun _ => ?_⟩
      simp [Framer.invocation, hnext, hproto]
    | some request =>
      have hbegun : request ≠ .connect → (openBegun request u c).Follows c
          (.reading (s.client c).swapByteOrder (s.client c).request (bs ++ k'.ready)) := by
        intro hconnect
        refine openBegun_follows ?_ ?_ ?_ ?_ ?_
        · rw [hu]
          exact receiving.listed
        · rw [hclient, hsocket, hpauses]
          exact receiving.flows
        · rw [hclient]
          exact hproto
        · rw [hnext, hproto, hclient, hsocket, if_neg (by simpa using hconnect)]
        · rw [hclient]
          rfl
      cases request with
      | connect =>
        refine ⟨fun hbad => Bool.noConfusion hbad, fun _ => Framer.invocation_of_next ?_⟩
        simp [hnext, hproto]
      | _ => exact hbegun (by decide)
  | pause k' hready hpauses => exact absurd hpauses receiving.flows
  | finish res k' hangup hready hpauses =>
    simp only [hangup, if_true]
    refine ⟨fun hbad => Bool.noConfusion hbad, fun _ => Framer.invocation_of_next ?_⟩
    simp [Framer.next, hready]

/-- The parameters are complete. -/
theorem openHandler_follows (receiving : Receiving c s)
    (word : Proto.ofWord (s.client c).request = some request) (complete : 0 ≤ request.dataLength)
    (next : f.next = some ((s.client c).request,
      load (s.client c).protoData 0 request.dataLength.toNat ++ (s.sockets (s.client c).fd).ready))
    (swap : request ≠ .connect → f.swap = (s.client c).swapByteOrder) :
    (openHandler request s c).Follows c f := by
  obtain ⟨v, hv⟩ : ∃ v, v = s.setClient c { s.client c with state := .nextRequest } := ⟨_, rfl⟩
  have hsame : v.client c = { s.client c with state := .nextRequest } := by
    simp [hv, Server.setClient]
  have hsockets : v.sockets = s.sockets := by
    rw [hv]
    rfl
  simp only [openHandler, ← hv]
  refine ⟨⟨?_, ?_⟩, by rw [hsame], ?_, complete, ?_, fun hconnect => ?_⟩
  · rw [hv]
    exact receiving.listed
  · rw [hsame, hsockets]
    exact receiving.flows
  · rw [hsame]
    exact word
  · rw [hsame, hsockets]
    exact next
  · rw [hsame]
    exact swap hconnect

theorem openReqdata_follows (receiving : Receiving c s) (state : (s.client c).state = .needsReqdata)
    (word : Proto.ofWord (s.client c).request = some request) {n : ℕ}
    (length : (s.client c).protoDataLength = n)
    (more : request.dataLength < 0 ∨ n < request.dataLength)
    (next : f.next = some ((s.client c).request,
      load (s.client c).protoData 0 n ++ (s.sockets (s.client c).fd).ready))
    (swap : request ≠ .connect → f.swap = (s.client c).swapByteOrder) :
    (openReqdata s c).Follows c f := by
  by_cases hinsane : (n : ℤ) > request.dataLength
  · have hnegative : request.dataLength < 0 := by omega
    simp only [openReqdata, word, length, hinsane, if_true]
    exact ⟨fun hbad => Bool.noConfusion hbad, fun _ => invocation_within next word (.inl hnegative)⟩
  have hmore : (n : ℤ) < request.dataLength := by omega
  have hread := (s.sockets (s.client c).fd).read_reads (n := request.dataLength - n) (by omega)
  obtain ⟨x, hx⟩ : ∃ x, (s.sockets (s.client c).fd).read (request.dataLength - n) = x := ⟨_, rfl⟩
  have hsys : s.sysRead (s.client c).fd (request.dataLength - n) =
      ({ s with sockets := Function.update s.sockets (s.client c).fd x.2 }, x.1) := by
    rw [← hx]
    rfl
  rw [hx] at hread
  cases hread with
  | some bs k' hne hle hready hpauses =>
    have hhangup : ¬ (ReadResult.data bs).Hangup := ReadResult.not_hangup_data hne
    have hload : load (store (s.client c).protoData n bs) 0 (n + bs.length) =
        load (s.client c).protoData 0 n ++ bs := load_store_append _ _ _
    rw [hready, ← List.append_assoc, ← hload] at next
    obtain ⟨u, hu⟩ : ∃ u, u = Server.setClient
        { s with sockets := Function.update s.sockets (s.client c).fd k' } c
        { s.client c with
          protoData := store (s.client c).protoData n bs
          protoDataLength := n + bs.length } := ⟨_, rfl⟩
    have hreqdata : readReqdata request s c = (u, .data bs) := by
      simp only [readReqdata, length, hsys, hu, ReadResult.octets, ReadResult.count]
    simp only [openReqdata, word, length, hinsane, if_false, hreqdata, hhangup]
    have hclient : u.client c = { s.client c with
        protoData := store (s.client c).protoData n bs
        protoDataLength := n + bs.length } := by
      simp [hu, Server.setClient]
    have hsocket : u.sockets (s.client c).fd = k' := by simp [hu, Server.setClient]
    have hreceiving : Receiving c u := by
      refine ⟨?_, ?_⟩
      · rw [hu]
        exact receiving.listed
      · rw [hclient, hsocket, hpauses]
        exact receiving.flows
    split_ifs with hfull
    · rw [hclient] at hfull
      have hcount : request.dataLength.toNat = n + bs.length := by
        dsimp only at hfull
        omega
      refine openHandler_follows hreceiving (by rw [hclient, word]) (by omega) ?_ fun hconnect => ?_
      · rw [hcount, hclient, hsocket]
        exact next
      · rw [hclient]
        exact swap hconnect
    · rw [hclient] at hfull
      have hshort : ((n + bs.length : ℕ) : ℤ) < request.dataLength := by
        dsimp only at hfull
        push_cast
        omega
      refine ⟨fun _ => ?_, fun hbad => Bool.noConfusion hbad⟩
      refine .within f hreceiving (by rw [hclient, state]) request (by rw [hclient, word])
        (n + bs.length) (by rw [hclient, Nat.cast_add]) (.inr hshort) ?_ fun hconnect => ?_
      · rw [hclient, hsocket]
        exact next
      · rw [hclient]
        exact swap hconnect
  | pause k' hready hpauses => exact absurd hpauses receiving.flows
  | finish res k' hangup hready hpauses =>
    have hreqdata : (readReqdata request s c).2 = res := by
      simp only [readReqdata, length, hsys]
    simp only [openReqdata, word, length, hinsane, if_false, hreqdata, hangup, if_true]
    refine ⟨fun hbad => Bool.noConfusion hbad, fun _ => invocation_within next word (.inr ?_)⟩
    rw [hready, List.append_nil, load_length]
    exact hmore

theorem opening_follows (hfits : f.Fits c s) (hlisted : c ∈ s.esdClientsList)
    (whole : env.canRead = true → (s.client c).state = .nextRequest → s.WholeWord c) :
    (opening env s c).Follows c f := by
  have hdone : (Opening.done s true).Follows c f := ⟨fun _ => hfits, fun hbad => Bool.noConfusion hbad⟩
  simp only [opening]
  split_ifs with hready
  · exact hdone
  · have hcan : env.canRead = true := Bool.eq_true_of_not_eq_false hready
    cases hfits with
    | ended _ stuck gone =>
      rw [gone.resolve_left (not_not.mpr hlisted)]
      exact hdone
    | between receiving state =>
      rw [state]
      exact openRequest_follows receiving (whole hcan state)
    | within _ receiving state request word n length more next swap =>
      rw [state]
      exact openReqdata_follows receiving state word length more next swap

theorem Heard.wellFormed (h : Heard c s t) (hw : s.objects.WellFormed) : t.objects.WellFormed := by
  refine hw.congr ?_ ?_ ?_ <;> rw [h.rest] <;> rfl

theorem pollClient_proceeds (hw : s.objects.WellFormed) (hfits : f.Fits c s)
    (hlisted : c ∈ s.esdClientsList) (fresh : Action.Fresh s env.malloc)
    (whole : env.canRead = true → (s.client c).state = .nextRequest → s.WholeWord c)
    (h : pollClient cfg env s c = some t) : Proceeds c f s t := by
  have hfollows := opening_follows hfits hlisted whole
  have hopening := opening_fits env c s
  have hnull : c ≠ 0 := fun he => hw.client_ne_null (he ▸ hlisted)
  obtain ⟨r, hr, rfl⟩ := Option.map_eq_some_iff.mp h
  rw [pollTurn_eq] at hr
  cases hopen : opening env s c with
  | resumes =>
    rw [hopen] at hfollows
    exact hfollows.elim
  | done u ok =>
    rw [hopen] at hr hfollows hopening
    cases hr
    have hcalls := (calls_of_ledger (ledger_afterTurn c (u, ok))).trans
      (calls_of_ledger hopening.ledger)
    refine .still hcalls ?_
    cases ok with
    | true => exact hfollows.1 rfl
    | false =>
      exact .ended f (hfollows.2 rfl)
        (.inl (erased_notMem (r := (u, false)) (hopening.wellFormed hw) rfl))
  | handles request u =>
    rw [hopen] at hr hfollows hopening
    obtain ⟨hheard, active, -⟩ := hopening
    obtain ⟨r', hr', rfl⟩ := Option.map_eq_some_iff.mp hr
    have hcalls : u.calls = s.calls := calls_of_ledger hheard.ledger
    have hfresh : Action.Fresh u env.malloc := by
      simp only [Action.Fresh, hheard.lists.2.1, hheard.lists.2.2]
      exact fresh
    obtain ⟨calls, f', happend, hrun, hfits'⟩ :=
      hfollows.proceeds hnull hr' (hheard.wellFormed hw) hfresh _ rfl
    exact ⟨calls, f', by rw [happend, hcalls], hrun, hfits'⟩

end Turns

/-! ## The turns of others, and the routine -/

section Others

variable {cfg : Config} {s t : Server} {a : Action} {c : Ptr} {f : Framer}

theorem SameConnection.not_reset (h : SameConnection c a) : ¬ a.IsReset := by
  cases a <;> first | exact id | exact fun _ => h

theorem step_others (hw : s.objects.WellFormed) (h : step cfg s a = some t) (hreset : ¬ a.IsReset)
    (hc : c ∉ (a.footprint s).clients) : ∃ calls, t.calls = s.calls ++ calls ∧ framesOf c calls = [] := by
  by_cases hquiet : a.Quiet
  · refine ⟨[], ?_, rfl⟩
    rw [List.append_nil]
    exact calls_of_ledger (step_does hw h hquiet).ledger
  obtain ⟨hen, h⟩ := step_eq_some h
  cases a with
  | accept d fd socket =>
    cases h
    exact ⟨[.connected d], rfl, rfl⟩
  | poll d env =>
    have hne : ¬ d = c := fun he => hc he.symm
    obtain ⟨hd, fresh, samples⟩ := hen
    obtain ⟨r, hr, rfl⟩ := Option.map_eq_some_iff.mp h
    have hcalls := calls_of_ledger (ledger_afterTurn d r)
    cases pollTurn_logs hw hd fresh samples hr with
    | quiet calls gate waits => exact ⟨[], by rw [hcalls, calls, List.append_nil], rfl⟩
    | handled request protoData calls gate granted first =>
      exact ⟨_, hcalls.trans calls, by simp [framesOf, hne]⟩
    | resumed calls gate first => exact ⟨_, hcalls.trans calls, rfl⟩
  | reset => exact absurd trivial hreset
  | _ => exact absurd trivial hquiet

/-- A client that does not stream shares its descriptor and its address with no stream. -/
theorem Objects.Paired.foreign (hp : s.objects.Paired) (hlisted : c ∈ s.esdClientsList)
    (active : (s.client c).state ≠ .streamingData) (l : PlayerList) {p : Ptr} (hl : p ∈ s.list l) :
    (s.player p).Foreign c (s.client c).fd := by
  intro hmode
  have hserved := hp.served l p ⟨hl, hmode⟩
  have hparent : (s.player p).parent ≠ c := fun he => active (he ▸ hserved.state)
  refine ⟨fun hfd => hparent ?_, hparent⟩
  exact hp.fds _ hserved.client c hlisted (hserved.fd.trans hfd)

/-- Nothing is done by others to the descriptor of a client that does not stream. -/
theorem step_still (hw : s.objects.WellFormed) (hp : s.objects.Paired) (h : step cfg s a = some t)
    (hreset : ¬ a.IsReset) (hc : c ∉ (a.footprint s).clients) (hlisted : c ∈ s.esdClientsList)
    (active : (s.client c).state ≠ .streamingData) :
    Still (s.client c).fd s t ∧ c ∈ t.esdClientsList := by
  have hnull : c ≠ 0 := fun he => hw.client_ne_null (he ▸ hlisted)
  by_cases hpoll : ∃ d env, a = .poll d env
  · obtain ⟨d, env, rfl⟩ := hpoll
    have hne : c ≠ d := hc
    obtain ⟨⟨hd, -⟩, hturn⟩ := step_eq_some h
    have hfd : (s.client d).fd ≠ (s.client c).fd := fun he => hne (hp.fds d hd c hlisted he).symm
    exact ⟨pollClient_still hfd hturn, pollClient_listed hne hnull hturn hlisted⟩
  · have haccept : ∀ d socket, a ≠ .accept d (s.client c).fd socket := by
      rintro d socket rfl
      obtain ⟨⟨-, -, -, hfd⟩, -⟩ := step_eq_some h
      exact hfd c hlisted rfl
    obtain ⟨hstill, hkept⟩ := step_untouched hw h (fun d env he => hpoll ⟨d, env, he⟩) hreset haccept
      fun l p hl => hp.foreign hlisted active l hl
    exact ⟨hstill, hkept hlisted⟩

theorem step_proceeds (hw : s.objects.WellFormed) (hp : s.objects.Paired) (hfits : f.Fits c s)
    (hsame : SameConnection c a) (hwhole : WholeWords c s a) (h : step cfg s a = some t) :
    Proceeds c f s t := by
  have hreset := hsame.not_reset
  by_cases hc : c ∈ (a.footprint s).clients
  · cases a with
    | accept d fd socket =>
      obtain rfl : c = d := hc
      exact absurd rfl hsame
    | poll d env =>
      obtain rfl : c = d := hc
      obtain ⟨⟨hlisted, fresh⟩, hturn⟩ := step_eq_some h
      exact pollClient_proceeds hw hfits hlisted fresh (hwhole rfl) hturn
    | _ => exact absurd hc (Set.notMem_empty c)
  · have heffects := step_effects hw h hreset
    have hclient : t.client c = s.client c := heffects.client_frame hc
    obtain ⟨calls, hcalls, hnone⟩ := step_others hw h hreset hc
    have hstill : f.Fits c t → Proceeds c f s t := fun hfits' =>
      ⟨calls, f, hcalls, by rw [hnone]; exact .nil f, hfits'⟩
    refine hstill ?_
    by_cases hlisted : c ∈ s.esdClientsList
    · by_cases hstream : (s.client c).state = .streamingData
      · exact .ended f (hfits.stuck (.inr (.inl hstream))) (.inr (by rw [hclient]; exact hstream))
      · obtain ⟨hstill, hkept⟩ := step_still hw hp h hreset hc hlisted hstream
        exact hfits.unmoved hclient (congrArg Socket.input hstill.socket) (fun _ _ => hkept) fun hgone => absurd hlisted hgone
    · exact .ended f (hfits.stuck (.inl hlisted))
        (.inl fun hnow => hlisted (heffects.clients_frame hc hnow))

end Others

/-! ## Whole connections -/

/-- A reset finds no player. -/
def ResetsIdle (s : Server) (a : Action) : Prop := a.IsReset → ∀ l, s.list l = []

/-- In `t` these calls were made for a client that was accepted at `c` and had these octets to
send, in some pieces. -/
inductive Session (cfg : Config) (ok : Server → Action → Prop) (c : Ptr) (bytes : List Octet) :
    List Frame → Server → Prop
  | intro {s₀ s u t : Server} {as bs : List Action} {fd : ℤ} {room : List ℤ}
      (pieces : List (List Octet)) (initial : s₀.Initial) (before : Runs cfg ResetsIdle s₀ as s)
      (positive : [] ∉ pieces) (all : pieces.flatten = bytes)
      (accepted : step cfg s (.accept c fd ⟨pieces.map .data, room⟩) = some u)
      (run : Runs cfg (fun s a => SameConnection c a ∧ ok s a) u bs t) :
      Session cfg ok c bytes (framesOf c (t.calls.drop u.calls.length)) t

section Sessions

variable {cfg cfg' : Config} {ok : Server → Action → Prop} {s t u : Server} {as : List Action}
  {a : Action} {c c' : Ptr} {f : Framer} {bytes : List Octet} {xs ys : List Frame}

theorem step_paired (hw : s.objects.WellFormed) (hp : s.objects.Paired) (hok : ResetsIdle s a)
    (h : step cfg s a = some t) : t.objects.Paired := by
  by_cases hreset : a.IsReset
  · have hlists := hok hreset
    cases a with
    | reset scrambled =>
      obtain ⟨-, h⟩ := step_eq_some h
      cases h
      rw [resetDaemon_objects]
      have hnone : ∀ l p, ¬ s.objects.StreamAt l p := by
        intro l p hl
        have hmem : p ∈ s.list l := hl.listed
        rw [hlists l] at hmem
        exact absurd hmem List.not_mem_nil
      exact
        { served := fun l p hl => absurd ⟨hl.listed, hl.mode⟩ (hnone l p)
          streams := fun d hd => absurd hd List.not_mem_nil
          unique := fun l p l' p' hl => absurd ⟨hl.listed, hl.mode⟩ (hnone l p)
          fds := fun d hd => absurd hd List.not_mem_nil }
    | _ => exact hreset.elim
  · exact (step_effects hw h hreset).invariant Objects.Paired
      (fun _ _ hw ho he => ho.effect hw he) hw hp

theorem Run.proceeds (hw : s.objects.WellFormed) (hp : s.objects.Paired) (hfits : f.Fits c s)
    (h : Runs cfg (fun s a => SameConnection c a ∧ WholeWords c s a) s as t) : Proceeds c f s t := by
  induction h generalizing f with
  | nil s => exact .still rfl hfits
  | cons hok hstep _ ih =>
    refine (step_proceeds hw hp hfits hok.1 hok.2 hstep).trans fun f' hfits' => ?_
    exact ih (step_wellFormed hw hstep)
      (step_paired hw hp (fun hreset => absurd hreset hok.1.not_reset) hstep) hfits'

theorem positive_arrive {pieces : List (List Octet)} (h : [] ∉ pieces) :
    readyOctets (pieces.map .data) = pieces.flatten ∧ ¬ Pausing (pieces.map .data) := by
  induction pieces with
  | nil => exact ⟨rfl, id⟩
  | cons bs pieces ih =>
    obtain ⟨hne, hrest⟩ : [] ≠ bs ∧ [] ∉ pieces := by simpa using h
    obtain ⟨hready, hflows⟩ := ih hrest
    cases bs with
    | nil => exact absurd rfl hne
    | cons b bs =>
      simp only [List.map_cons, readyOctets, hready, List.flatten_cons]
      exact ⟨trivial, hflows⟩

theorem accept_fits {fd : ℤ} {pieces : List (List Octet)} {room : List ℤ} (positive : [] ∉ pieces)
    (h : step cfg s (.accept c fd ⟨pieces.map .data, room⟩) = some u) :
    (Framer.connecting pieces.flatten).Fits c u := by
  obtain ⟨hready, hflows⟩ := positive_arrive positive
  obtain ⟨-, h⟩ := step_eq_some h
  obtain rfl : getNewClient s c fd ⟨pieces.map .data, room⟩ = u := Option.some.inj h
  obtain ⟨u, hu⟩ : ∃ u, getNewClient s c fd ⟨pieces.map .data, room⟩ = u := ⟨_, rfl⟩
  have hclient : u.client c =
      { s.client c with state := .needsReqdata, request := 0#32, fd := fd, protoDataLength := 0 } := by
    simp [← hu, getNewClient, addNewClient, Server.record, Server.setClient]
  have hsocket : u.sockets fd = ⟨pieces.map .data, room⟩ := by
    simp [← hu, getNewClient, addNewClient, Server.record, Server.setClient]
  have hlisted : c ∈ u.esdClientsList := by
    simp [← hu, getNewClient, addNewClient]
  rw [hu]
  refine .within _ ⟨hlisted, ?_⟩ (by rw [hclient]) .connect ?_ 0 (by simp [hclient]) (by decide) ?_
    fun hne => absurd rfl hne
  · rw [hclient, hsocket]
    exact hflows
  · rw [hclient]
    rfl
  · rw [hclient, hsocket]
    simp [Framer.next, Socket.ready, hready]

/-- The calls of a connection are those that the octets alone make of them. -/
theorem Session.framed (h : Session cfg (WholeWords c) c bytes xs t) :
    ∃ f, Run Framer.take (fun _ _ => True) (.connecting bytes) xs f ∧ f.Fits c t := by
  cases h with
  | intro pieces initial before positive all accepted run =>
    rename_i s₀ s u as bs fd room
    subst all
    have hboth := before.invariant (fun s => s.objects.WellFormed ∧ s.objects.Paired)
      (fun _ _ _ hs hok hstep => ⟨step_wellFormed hs.1 hstep, step_paired hs.1 hs.2 hok hstep⟩)
      ⟨initial.wellFormed, initial.paired⟩
    obtain ⟨calls, f, hcalls, hrun, hfits⟩ := Run.proceeds (step_wellFormed hboth.1 accepted)
      (step_paired hboth.1 hboth.2 (fun hreset => absurd hreset id) accepted)
      (accept_fits positive accepted) run
    refine ⟨f, ?_, hfits⟩
    rw [hcalls, List.drop_left]
    exact hrun

/-- Two connections with the same octets to send, in whatever pieces these come: as long as no
word of a request is torn, what is called next after the same calls is the same request with the
same parameters, and once both have come to their end, the same calls were made if the handlers
came to the same results. -/
theorem framing_whole_words (h : Session cfg (WholeWords c) c bytes xs s)
    (h' : Session cfg' (WholeWords c') c' bytes ys t) :
    (∀ before x y, before ++ [x] <+: xs → before ++ [y] <+: ys →
      x.request = y.request ∧ x.protoData = y.protoData) ∧
      (s.Over c → t.Over c' →
        (∀ before x y, before ++ [x] <+: xs → before ++ [y] <+: ys → x.ok = y.ok) → xs = ys) := by
  obtain ⟨f, hrun, hfits⟩ := h.framed
  obtain ⟨f', hrun', hfits'⟩ := h'.framed
  have hkey : ∀ before x y, before ++ [x] <+: xs → before ++ [y] <+: ys →
      x.request = y.request ∧ x.protoData = y.protoData := fun before x y hx hy =>
    Prod.mk.inj (hrun.key_eq Framer.take_keyed hrun' hx hy)
  refine ⟨hkey, fun hover hover' hok => ?_⟩
  refine hrun.eq_of_stuck hrun' (Framer.take_none (hfits.stuck hover))
    (Framer.take_none (hfits'.stuck hover')) fun before x y hx hy => ?_
  obtain ⟨hrequest, hdata⟩ := hkey before x y hx hy
  obtain ⟨request, protoData, ok⟩ := x
  obtain ⟨request', protoData', ok'⟩ := y
  have hsame : ok = ok' := hok before _ _ hx hy
  dsimp only at hrequest hdata
  rw [hrequest, hdata, hsame]

end Sessions

/-! A daemon that has accepted one client, which is then given some turns. -/

def accepted (pieces : List (List Octet)) : Server := getNewClient .blank 1 5 (.sending pieces)

def turnsOf (n : ℕ) : List Action := List.replicate n (.poll 1 (.allocating 9))

theorem session_of_turns (ok : Server → Action → Prop) [∀ s a, Decidable (ok s a)]
    (pieces : List (List Octet)) (n : ℕ) (positive : [] ∉ pieces)
    (h : (exec (step .smallBlocks) (fun s a => SameConnection 1 a ∧ ok s a) (accepted pieces)
      (turnsOf n)).isSome) :
    Session .smallBlocks ok 1 pieces.flatten (framesOf 1 (((exec (step .smallBlocks)
      (fun s a => SameConnection 1 a ∧ ok s a) (accepted pieces) (turnsOf n)).get h).calls.drop 1))
      ((exec (step .smallBlocks) (fun s a => SameConnection 1 a ∧ ok s a) (accepted pieces)
        (turnsOf n)).get h) := by
  have haccept : step .smallBlocks .blank (.accept 1 5 ⟨pieces.map .data, []⟩) =
      some (accepted pieces) :=
    step_of_enabled ⟨by decide, List.not_mem_nil, by decide, by simp [Server.blank]⟩ rfl
  exact .intro pieces Server.blank_initial (.nil _) positive rfl haccept (Run.of_isSome h)

/-- A request to play the sample with the number 7, behind a request to connect. -/
def playRequest : List Octet := handshake 7 ++ Word.octets 8#32 ++ Word.octets 7#32

theorem framing_whole_words_split :
    ∃ xs ys s t, Session .smallBlocks (WholeWords 1) 1 playRequest xs s ∧
      Session .smallBlocks (WholeWords 1) 1 playRequest ys t ∧ s.Over 1 ∧ t.Over 1 ∧
        xs.length = 2 ∧ xs = ys := by
  have hsplit := session_of_turns (WholeWords 1)
    [[7, 7, 7], (handshake 7).drop 3, Word.octets 8#32, [7], [0, 0], [0]] 7 (by decide)
    (by decide +kernel)
  have hwhole := session_of_turns (WholeWords 1) [playRequest] 4 (by decide) (by decide +kernel)
  have hok : ∀ {zs : List Frame}, (∀ z ∈ zs, z.ok = true) → ∀ before x, before ++ [x] <+: zs →
      x.ok = true := fun hzs before x hx => hzs x (hx.subset (by simp))
  refine ⟨_, _, _, _, hsplit, hwhole, by decide +kernel, by decide +kernel, by decide +kernel, ?_⟩
  refine (framing_whole_words hsplit hwhole).2 (by decide +kernel) (by decide +kernel)
    fun before x y hx hy => ?_
  have hx := hok (by decide +kernel) before x hx
  have hy := hok (by decide +kernel) before y hy
  rw [hx, hy]

/-- The first octet of a word alone is taken for the whole word, and the other three for the
beginning of the parameters. -/
theorem torn_word_misread :
    ∃ xs ys s t, Session .smallBlocks (fun _ _ => True) 1 playRequest xs s ∧
      Session .smallBlocks (fun _ _ => True) 1 playRequest ys t ∧ s.Over 1 ∧ t.Over 1 ∧
        xs.map Frame.ok = ys.map Frame.ok ∧
          ys.map Frame.protoData = [handshake 7, Word.octets 7#32] ∧
            xs.map Frame.protoData = [handshake 7, [0, 0, 0, 7]] := by
  have htorn := session_of_turns (fun _ _ => True) [handshake 7, [8], [0, 0, 0], [7, 0, 0, 0]] 5
    (by decide) (by decide +kernel)
  have hwhole := session_of_turns (fun _ _ => True) [playRequest] 4 (by decide) (by decide +kernel)
  exact ⟨_, _, _, _, htorn, hwhole, by decide +kernel, by decide +kernel, by decide +kernel,
    by decide +kernel, by decide +kernel⟩

end Esound
