import Esound.Admission
import Esound.Conservation

/-!
# Interrupted reads

A `read` that a signal interrupts returns -1. Of the three places that read for a client
two count the result like any other, and the third takes the request word that is still
in its field for a new one.
-/

open Library.Buffer Library.Loop Library.Transition

namespace Esound

/-- The next `read` of the socket is interrupted. -/
def Socket.Interrupted (k : Socket) : Prop := k.input.head? = some .again

/-- A `write` of an int is taken as a whole. -/
def Socket.TakesInt (k : Socket) : Prop := (k.write (Word.octets 0#32)).1 = 4

instance (k : Socket) : Decidable k.Interrupted := inferInstanceAs (Decidable (_ = _))
instance (k : Socket) : Decidable k.TakesInt := inferInstanceAs (Decidable (_ = _))

theorem Socket.read_interrupted {k : Socket} (h : k.Interrupted) (n : ℤ) :
    k.read n = (.again, { k with input := k.input.tail }) := by
  unfold Interrupted at h
  unfold Socket.read
  cases hinput : k.input with
  | nil => simp [hinput] at h
  | cons r rest =>
    rw [hinput] at h
    cases Option.some.inj h
    rfl

theorem Socket.takesInt_iff (k : Socket) (w : Word) :
    k.TakesInt ↔ (k.write (Word.octets w)).1 = 4 := by
  unfold TakesInt Socket.write
  cases k.room <;> rfl

/-! ## In a turn -/

section Turn

variable {cfg : Config} {env : PollEnv} {c : Ptr} {s t u : Server} {r : Server × Bool}

/-- The client has its turn, and the `read` of the turn is interrupted. -/
structure InterruptedPoll (s : Server) (c : Ptr) : Prop where
  again : (s.sockets (s.client c).fd).Interrupted
  reads : (s.client c).state = .nextRequest ∨
    (s.client c).state = .needsReqdata ∧ ∃ request, Proto.ofWord (s.client c).request = some request ∧
      (s.client c).protoDataLength ≤ request.dataLength

/-- The client is still there, and where it was. -/
structure Undisturbed (c : Ptr) (s t : Server) : Prop where
  listed : c ∈ t.esdClientsList
  state : (t.client c).state = (s.client c).state
  request : (t.client c).request = (s.client c).request
  protoDataLength : (t.client c).protoDataLength = (s.client c).protoDataLength

/-- The last request was for the latency, whose handler is called once more, and its reply
is taken. -/
structure RepeatsLatency (s : Server) (c : Ptr) : Prop where
  state : (s.client c).state = .nextRequest
  own : (s.client c).swapByteOrder = false
  request : Proto.ofWord (s.client c).request = some .latency
  protoDataLength : (s.client c).protoDataLength = 0
  reply : (s.sockets (s.client c).fd).TakesInt

theorem readRequest_nil (w : Word) : readRequest w [] = w := by
  unfold readRequest
  rw [store_nil]
  exact Word.ofOctets_octets w

theorem readRequestWord_interrupted (h : (s.sockets (s.client c).fd).Interrupted) :
    (readRequestWord s c).2 = .again ∧
      (readRequestWord s c).1.client c =
        { s.client c with request := maybeSwap32 (s.client c).swapByteOrder (s.client c).request } ∧
      (readRequestWord s c).1.sockets =
        Function.update s.sockets (s.client c).fd
          { s.sockets (s.client c).fd with input := (s.sockets (s.client c).fd).input.tail } := by
  have hread := Socket.read_interrupted h 4
  refine ⟨?_, ?_, ?_⟩
  · simp [readRequestWord, Server.sysRead, hread]
  · simp [readRequestWord, Server.sysRead, Server.setClient, hread, ReadResult.octets,
      readRequest_nil, maybeSwap32]
  · simp [readRequestWord, Server.sysRead, Server.setClient, hread]

theorem readReqdata_interrupted (request : Proto)
    (h : (s.sockets (s.client c).fd).Interrupted) :
    (readReqdata request s c).2 = .again ∧
      (readReqdata request s c).1.client c =
        { s.client c with protoDataLength := (s.client c).protoDataLength - 1 } := by
  have hread := Socket.read_interrupted h (request.dataLength - (s.client c).protoDataLength)
  refine ⟨?_, ?_⟩
  · simp [readReqdata, Server.sysRead, hread]
  · simp [readReqdata, Server.sysRead, Server.setClient, hread, ReadResult.octets,
      ReadResult.count]
    rfl

theorem Proto.ofWord_latency {w : Word} : Proto.ofWord w = some .latency ↔ w = 23#32 := by
  have hall : ∀ n < 24, Proto.all[n]? = some .latency → n = 23 := by decide
  constructor
  · intro h
    have hlt : w.toNat < 24 := (List.getElem?_eq_some_iff.mp h).1
    exact BitVec.eq_of_toNat_eq (hall w.toNat hlt h)
  · rintro rfl
    rfl

theorem Proto.eq_latency {request : Proto} (h : request.dataLength = 0) : request = .latency := by
  cases request <;> first | rfl | exact absurd h (by decide)

theorem checkedReply_spec (s : Server) (c : Ptr) (x : ℤ) :
    (checkedReply s c x).1.client = s.client ∧
      (checkedReply s c x).1.esdClientsList = s.esdClientsList ∧
      ((checkedReply s c x).2 = true ↔ (s.sockets (s.client c).fd).TakesInt) := by
  refine ⟨rfl, rfl, ?_⟩
  rw [Socket.takesInt_iff]
  exact decide_eq_true_iff

theorem handle_latency (h : handle cfg env .latency s c = some r) :
    r.1.client c = { s.client c with state := .nextRequest } ∧
      r.1.esdClientsList = s.esdClientsList ∧
      (r.2 = true ↔ (s.sockets (s.client c).fd).TakesInt) := by
  unfold handle at h
  obtain ⟨r', hr', rfl⟩ := Option.map_eq_some_iff.mp h
  have hreply : ∃ x, r' = checkedReply (s.setClient c { s.client c with state := .nextRequest }) c x :=
    ⟨_, (Option.some.inj hr').symm⟩
  obtain ⟨x, rfl⟩ := hreply
  obtain ⟨hclient, hclients, htakes⟩ := checkedReply_spec
    (s.setClient c { s.client c with state := .nextRequest }) c x
  refine ⟨?_, hclients, ?_⟩
  · refine (congrFun hclient c).trans ?_
    simp [Server.setClient]
  · rw [htakes]
    simp [Server.setClient]

theorem beginRequest_latency (h : beginRequest cfg env .latency s c = some r) :
    r.1.client c = { s.client c with state := .nextRequest, protoDataLength := 0 } ∧
      r.1.esdClientsList = s.esdClientsList ∧
      (r.2 = true ↔ (s.sockets (s.client c).fd).TakesInt) := by
  unfold beginRequest at h
  simp only [Proto.dataLength, if_true] at h
  obtain ⟨hclient, hclients, htakes⟩ := handle_latency h
  refine ⟨?_, hclients, ?_⟩
  · rw [hclient]
    simp [Server.setClient]
  · rw [htakes]
    simp [Server.setClient]

theorem beginRequest_waits {request : Proto} (hne : request.dataLength ≠ 0)
    (h : beginRequest cfg env request s c = some r) :
    (r.1.client c).state = .needsReqdata := by
  unfold beginRequest at h
  simp only [hne, if_false] at h
  cases h
  simp [Server.setClient]

theorem pollTurn_interrupted_needsReqdata {request : Proto} (hcan : env.canRead = true)
    (hstate : (s.client c).state = .needsReqdata)
    (hrequest : Proto.ofWord (s.client c).request = some request)
    (hle : (s.client c).protoDataLength ≤ request.dataLength)
    (again : (s.sockets (s.client c).fd).Interrupted) (h : pollTurn cfg env s c = some r) :
    r = ((readReqdata request s c).1, true) := by
  obtain ⟨hagain, hclient⟩ := readReqdata_interrupted request again
  have hmore : ((readReqdata request s c).1.client c).protoDataLength ≠ request.dataLength := by
    rw [hclient]
    dsimp only
    omega
  unfold pollTurn at h
  rw [if_neg (by simp [hcan]), hstate] at h
  unfold pollNeedsReqdata at h
  simp only [hrequest] at h
  rw [if_neg (not_lt.mpr hle), if_neg (by rw [hagain]; decide), if_neg hmore] at h
  exact (Option.some.inj h).symm

/-- An interrupted read of a request word takes up the last request again. -/
theorem pollTurn_interrupted_nextRequest (hcan : env.canRead = true)
    (hstate : (s.client c).state = .nextRequest)
    (again : (s.sockets (s.client c).fd).Interrupted) (h : pollTurn cfg env s c = some r)
    (hok : r.2 = true) :
    ∃ request, Proto.ofWord ((readRequestWord s c).1.client c).request = some request ∧
      request ≠ .connect ∧ beginRequest cfg env request (readRequestWord s c).1 c = some r := by
  obtain ⟨hagain, hclient, -⟩ := readRequestWord_interrupted again
  unfold pollTurn at h
  rw [if_neg (by simp [hcan]), hstate] at h
  unfold pollNextRequest at h
  simp only at h
  rw [if_neg (by rw [hagain]; decide)] at h
  split at h
  · cases h
    exact Bool.noConfusion hok
  · cases h
    exact Bool.noConfusion hok
  · rename_i request hne hrequest
    exact ⟨request, hrequest, fun he => hne he, h⟩

/-- What interrupting the read of a request word leaves to write replies to. -/
theorem readRequestWord_takesInt (again : (s.sockets (s.client c).fd).Interrupted) :
    ((readRequestWord s c).1.sockets ((readRequestWord s c).1.client c).fd).TakesInt ↔
      (s.sockets (s.client c).fd).TakesInt := by
  obtain ⟨-, hclient, hsockets⟩ := readRequestWord_interrupted again
  rw [hclient, hsockets]
  simp only [Function.update_self, Socket.TakesInt, Socket.write]
  cases (s.sockets (s.client c).fd).room <;> rfl

theorem undisturbed_nextRequest_iff (hcan : env.canRead = true) (hc : c ∈ s.esdClientsList)
    (hstate : (s.client c).state = .nextRequest)
    (again : (s.sockets (s.client c).fd).Interrupted) (h : pollTurn cfg env s c = some r)
    (hstays : c ∈ (if r.2 then r.1 else eraseClient r.1 c).esdClientsList → r.2 = true) :
    Undisturbed c s (if r.2 then r.1 else eraseClient r.1 c) ↔ RepeatsLatency s c := by
  obtain ⟨hagain, hclient, -⟩ := readRequestWord_interrupted again
  constructor
  · intro hu
    have hok := hstays hu.listed
    rw [hok, if_pos rfl] at hu
    obtain ⟨request, hrequest, -, hbegin⟩ :=
      pollTurn_interrupted_nextRequest hcan hstate again h hok
    by_cases hzero : request.dataLength = 0
    · obtain rfl := Proto.eq_latency hzero
      obtain ⟨hrecord, -, htakes⟩ := beginRequest_latency hbegin
      have hword := hu.request
      have hlen := hu.protoDataLength
      simp only [hrecord, hclient] at hword hlen
      rw [hclient] at hrequest
      dsimp only at hrequest
      rw [hword] at hrequest
      refine ⟨hstate, ?_, hrequest, hlen.symm, ?_⟩
      · by_contra hswap
        rw [Proto.ofWord_latency.mp hrequest, Bool.eq_true_of_not_eq_false hswap] at hword
        exact absurd hword (by decide)
      · rw [htakes, readRequestWord_takesInt again] at hok
        exact hok
    · have hwaits := beginRequest_waits hzero hbegin
      rw [hu.state, hstate] at hwaits
      cases hwaits
  · intro hlatency
    have hrequest : Proto.ofWord ((readRequestWord s c).1.client c).request = some .latency := by
      rw [hclient, hlatency.own]
      exact hlatency.request
    unfold pollTurn at h
    rw [if_neg (by simp [hcan]), hstate] at h
    unfold pollNextRequest at h
    simp only at h
    rw [if_neg (by rw [hagain]; decide)] at h
    simp only [hrequest] at h
    obtain ⟨hrecord, hclients, htakes⟩ := beginRequest_latency h
    have hok : r.2 = true := by
      rw [htakes, readRequestWord_takesInt again]
      exact hlatency.reply
    rw [hok, if_pos rfl]
    refine ⟨?_, ?_, ?_, ?_⟩
    · rw [hclients]
      exact hc
    · rw [hrecord, hstate]
    · rw [hrecord, hclient, hlatency.own]
      rfl
    · rw [hrecord, hlatency.protoDataLength]

/-- An interrupted turn leaves a client where it was in one case only. -/
theorem undisturbed_iff (hw : s.objects.WellFormed) (hen : (Action.poll c env).Enabled s)
    (hcan : env.canRead = true) (hpoll : InterruptedPoll s c)
    (h : pollClient cfg env s c = some u) : Undisturbed c s u ↔ RepeatsLatency s c := by
  obtain ⟨hc, fresh, samples⟩ := hen
  obtain ⟨r, hr, rfl⟩ := Option.map_eq_some_iff.mp h
  have hturn := pollTurn_turn hw hc fresh samples hr
  have hstays : c ∈ (if r.2 then r.1 else eraseClient r.1 c).esdClientsList → r.2 = true :=
    fun hmem => by
      by_contra hok
      exact erased_notMem (hturn.effects.wellFormed hw) (Bool.eq_false_of_not_eq_true hok) hmem
  rcases hpoll.reads with hstate | ⟨hstate, request, hrequest, hle⟩
  · exact undisturbed_nextRequest_iff hcan hc hstate hpoll.again hr hstays
  · have hturned := pollTurn_interrupted_needsReqdata hcan hstate hrequest hle hpoll.again hr
    obtain ⟨-, hclient⟩ := readReqdata_interrupted request hpoll.again
    constructor
    · intro hu
      have hlen := hu.protoDataLength
      simp only [hturned, if_true, hclient] at hlen
      omega
    · intro hlatency
      exact ClientState.noConfusion (hstate.symm.trans hlatency.state)

end Turn

/-! ## In a cycle -/

section Cycle

variable {cfg : Config} {canRead : Ptr → Bool} {p : Ptr} {s t : Server}

/-- The cycle reads for the stream, and that `read` is interrupted. -/
structure InterruptedCycle (cfg : Config) (canRead : Ptr → Bool) (s : Server) (p : Ptr) : Prop where
  room : ((mixTurn cfg canRead s p).player p).actualLength <
    ((mixTurn cfg canRead s p).player p).bufferLength
  ready : canRead p = true
  again : (hearStream (mixTurn cfg canRead s p) p).2 = .again

theorem mixReadOne_mem {length least : ℤ} {l : PlayerList} {q : Ptr}
    (h : q ∈ (mixReadOne cfg canRead length (s, least) p).1.list l) : q ∈ s.list l := by
  have hread := readPlayer_list (s := s) (p := p) (canRead p)
  unfold mixReadOne at h
  simp only at h
  split_ifs at h
  · rwa [hread] at h
  · have hmem := mem_of_mem_eraseFrom h
    rwa [hread] at hmem
  · rwa [hread] at h
  · rwa [hread] at h
  · rwa [hread] at h

theorem eraseFrom_notMem {l : PlayerList} (hnd : (s.list l).Nodup) : p ∉ (eraseFrom s l p).list l := by
  unfold eraseFrom
  split_ifs with hp
  · rw [freePlayer_list, list_setList, Function.update_self]
    exact fun h => (hnd.mem_erase_iff.mp h).1 rfl
  · exact hp

theorem mixReadOne_interrupted {length least : ℤ} (hnd : s.esdPlayersList.Nodup)
    (mode : (s.player p).IsStream) (room : (s.player p).actualLength < (s.player p).bufferLength)
    (ready : canRead p = true) (again : (hearStream s p).2 = .again) :
    p ∉ (mixReadOne cfg canRead length (s, least) p).1.esdPlayersList := by
  have hread : readPlayer (canRead p) s p = ((hearStream s p).1, -1) := by
    unfold readPlayer readStream
    simp only
    rw [if_pos mode, if_pos ⟨room, ready⟩, again, if_neg (by decide)]
    have hshort : ReadResult.again.count < (s.player p).bufferLength - (s.player p).actualLength := by
      simp only [ReadResult.count]
      omega
    rw [if_pos hshort]
    rfl
  unfold mixReadOne
  simp only [hread]
  rw [if_neg (by omega), if_pos (by omega)]
  exact eraseFrom_notMem (l := .players) hnd

theorem mixReadOne_wellFormed (length least : ℤ) (hw : s.objects.WellFormed) :
    (mixReadOne cfg canRead length (s, least) p).1.objects.WellFormed :=
  (mixReadOne_does cfg (F := .mixed {p}) canRead length least
    (Footprint.mixed_owns (Set.mem_singleton p))).wellFormed hw

theorem mixRead_interrupted (hw : s.objects.WellFormed) (hp : p ∈ s.esdPlayersList)
    (mode : (s.player p).IsStream) (h : InterruptedCycle cfg canRead s p) :
    p ∉ (mixRead cfg canRead s).1.esdPlayersList := by
  have hdistinct : s.esdPlayersList.Nodup := hw.lists_nodup .players
  obtain ⟨⟨hspares, hwell, -⟩, -, -, hafter⟩ := foldl_turn
    (fun a b : Server × ℤ => Spares p a.1 b.1 ∧
      (a.1.objects.WellFormed → b.1.objects.WellFormed) ∧
      (p ∈ b.1.esdPlayersList → p ∈ a.1.esdPlayersList))
    (fun a => ⟨.refl a.1, id, id⟩)
    (fun _ _ _ h h' => ⟨h.1.trans h'.1, h'.2.1 ∘ h.2.1, h.2.2 ∘ h'.2.2⟩)
    (mixReadOne cfg canRead cfg.esdBufSizeOctets) hdistinct hp
    (fun a q hne => ⟨mixReadOne_spares hne canRead _ a.2, mixReadOne_wellFormed _ a.2,
      mixReadOne_mem (l := .players)⟩)
    (clearMix cfg s, 0)
  obtain ⟨room, ready, again⟩ := h
  unfold mixTurn at room again
  unfold mixRead
  generalize (s.esdPlayersList.takeWhile (· ≠ p)).foldl
    (mixReadOne cfg canRead cfg.esdBufSizeOctets) (clearMix cfg s, 0) = a at *
  have hplayer : a.1.player p = s.player p := hspares.player
  have hnd : a.1.esdPlayersList.Nodup := (hwell hw).lists_nodup .players
  exact fun hmem => mixReadOne_interrupted hnd (by rwa [hplayer]) room ready again (hafter hmem)

theorem mixPlayers_interrupted (hw : s.objects.WellFormed) (hp : p ∈ s.esdPlayersList)
    (mode : (s.player p).IsStream) (h : InterruptedCycle cfg canRead s p) :
    p ∉ (mixPlayers cfg canRead s).1.esdPlayersList := by
  have hread := mixRead_interrupted hw hp mode h
  unfold mixPlayers
  simp only
  split_ifs
  · intro hmem
    have hclip := congrFun (clipMix_list (s := (mixAll cfg (mixRead cfg canRead s).2
      (mixRead cfg canRead s).1).1) (mixAll cfg (mixRead cfg canRead s).2
      (mixRead cfg canRead s).1).2) .players
    have hall := congrFun (mixAll_list cfg (s := (mixRead cfg canRead s).1)
      (mixRead cfg canRead s).2) .players
    exact hread ((congrArg (p ∈ ·) (hclip.trans hall)).mp hmem)
  · exact hread

end Cycle

/-! ## The count of parameter octets -/

section Count

variable {cfg : Config} {env : PollEnv} {c : Ptr} {s t : Server} {r : Server × Bool} {a : Action}

/-- What was read of the parameters is not negative, and not more than there are. -/
def EsdClient.Counted (cl : EsdClient) : Prop :=
  ∃ request, Proto.ofWord cl.request = some request ∧ 0 ≤ cl.protoDataLength ∧
    cl.protoDataLength ≤ request.dataLength

/-- No read of parameters is interrupted before the first of them came, and no request that
is not implemented is read. -/
structure TurnKeepsCount (s : Server) (c : Ptr) : Prop where
  parameters : (s.client c).state = .needsReqdata →
    ¬ ((s.sockets (s.client c).fd).Interrupted ∧ (s.client c).protoDataLength = 0)
  implemented : (s.client c).state = .nextRequest →
    ∀ request ∈ Proto.ofWord ((readRequestWord s c).1.client c).request, 0 ≤ request.dataLength

instance (s : Server) (c : Ptr) : Decidable (TurnKeepsCount s c) :=
  decidable_of_iff (_ ∧ _) ⟨fun h => ⟨h.1, h.2⟩, fun h => ⟨h.1, h.2⟩⟩

def KeepsCount (s : Server) : Action → Prop
  | .poll c env => env.canRead = true → TurnKeepsCount s c
  | _ => True

instance (s : Server) (a : Action) : Decidable (KeepsCount s a) :=
  match a with
  | .poll c env => inferInstanceAs (Decidable (env.canRead = true → TurnKeepsCount s c))
  | .accept .. | .refresh | .mix _ | .wake _ | .filter .. | .monitor .. | .recorder ..
  | .autostandby | .reconnect _ | .reset _ => .isTrue trivial

theorem Socket.interrupted_of_read {k : Socket} {n : ℤ} (h : (k.read n).1 = .again) :
    k.Interrupted := by
  unfold Socket.read at h
  unfold Interrupted
  split at h
  · cases h
  · split_ifs at h
  · rename_i r rest _ hinput
    rw [hinput]
    exact congrArg some h

theorem ReadResult.count_cases (r : ReadResult) : r = .error ∨ r = .again ∨ 0 ≤ r.count := by
  cases r with
  | data bs => exact .inr (.inr (Int.natCast_nonneg _))
  | again => exact .inr (.inl rfl)
  | error => exact .inl rfl

theorem EsdClient.Counted.congr {v w : EsdClient} (h : w.Counted) (hrequest : v.request = w.request)
    (hlen : v.protoDataLength = w.protoDataLength) : v.Counted := by
  obtain ⟨request, hof, hnonneg, hle⟩ := h
  exact ⟨request, hrequest ▸ hof, hlen ▸ hnonneg, hlen ▸ hle⟩

theorem Serves.counted {quiet : Prop} (h : Serves cfg c quiet s r) (hs : (s.client c).Counted) :
    (r.1.client c).Counted := by
  obtain ⟨state, swap, hrecord⟩ := h.record
  rw [hrecord]
  exact hs.congr rfl rfl

variable (hw : s.objects.WellFormed) (hc : c ∈ s.esdClientsList) (fresh : env.malloc ∉ s.allPlayers)
  (samples : env.malloc ∉ s.esdSamplesList)

include hw hc fresh samples

theorem pollNeedsReqdata_counted (hs : (s.client c).Counted)
    (hstate : (s.client c).state = .needsReqdata) (hkeeps : TurnKeepsCount s c)
    (h : pollNeedsReqdata cfg env s c = some r) (hok : r.2 = true) : (r.1.client c).Counted := by
  obtain ⟨request, hof, hnonneg, hle⟩ := hs
  have state : (s.client c).state ≠ .streamingData := by simp [hstate]
  obtain ⟨hread, state'⟩ := readReqdata_effects cfg state request
  have hrecord : ((readReqdata request s c).1.client c).request = (s.client c).request ∧
      ((readReqdata request s c).1.client c).protoDataLength =
        (s.client c).protoDataLength + (readReqdata request s c).2.count := by
    simp [readReqdata, Server.setClient]
  have hcount : (readReqdata request s c).2.count ≤
      request.dataLength - (s.client c).protoDataLength :=
    Socket.read_count_le _ (by omega)
  unfold pollNeedsReqdata at h
  simp only [hof] at h
  rw [if_neg (not_lt.mpr hle)] at h
  by_cases hhangup : (readReqdata request s c).2.Hangup
  · rw [if_pos hhangup] at h
    rw [← Option.some.inj h] at hok
    exact Bool.noConfusion hok
  · rw [if_neg hhangup] at h
    have hcounted : ((readReqdata request s c).1.client c).Counted := by
      refine ⟨request, by rw [hrecord.1, hof], ?_, ?_⟩
      · rw [hrecord.2]
        rcases ReadResult.count_cases (readReqdata request s c).2 with herror | hagain | hpos
        · exact absurd (.inr herror) hhangup
        · have hpositive : (s.client c).protoDataLength ≠ 0 := fun hzero =>
            hkeeps.parameters hstate ⟨Socket.interrupted_of_read hagain, hzero⟩
          rw [hagain]
          simp only [ReadResult.count]
          omega
        · omega
      · rw [hrecord.2]
        omega
    split_ifs at h
    · exact (handle_serves (hread.wellFormed hw) hc fresh samples state' h).counted hcounted
    · cases h
      exact hcounted

theorem pollNextRequest_counted (hstate : (s.client c).state = .nextRequest)
    (hkeeps : TurnKeepsCount s c) (h : pollNextRequest cfg env s c = some r) (hok : r.2 = true) :
    (r.1.client c).Counted := by
  have state : (s.client c).state ≠ .streamingData := by simp [hstate]
  obtain ⟨hread, state'⟩ := readRequestWord_effects cfg state
  have himplemented := hkeeps.implemented hstate
  have hw' := hread.wellFormed hw
  have hc' : c ∈ (readRequestWord s c).1.esdClientsList := hc
  have fresh' : env.malloc ∉ (readRequestWord s c).1.allPlayers := fresh
  have samples' : env.malloc ∉ (readRequestWord s c).1.esdSamplesList := samples
  unfold pollNextRequest at h
  simp only at h
  generalize readRequestWord s c = v at *
  split_ifs at h
  · cases h
    exact Bool.noConfusion hok
  · split at h
    · cases h
      exact Bool.noConfusion hok
    · cases h
      exact Bool.noConfusion hok
    · rename_i request _ hrequest
      have hcounted : ((v.1.setClient c
          { v.1.client c with state := .needsReqdata, protoDataLength := 0 }).client c).Counted := by
        simp only [Server.setClient, Function.update_self]
        exact ⟨request, hrequest, le_rfl, himplemented request hrequest⟩
      have hwait := setClient_effects cfg
        (v := { v.1.client c with state := .needsReqdata, protoDataLength := 0 }) state' (by simp) rfl
      unfold beginRequest at h
      simp only at h
      split_ifs at h
      · exact (handle_serves (hwait.wellFormed hw') hc' fresh' samples'
          (by simp [Server.setClient]) h).counted hcounted
      · cases h
        exact hcounted

omit hw hc fresh in
theorem pollCachingSample_counted (hs : (s.client c).Counted)
    (hstate : (s.client c).state = .cachingSample)
    (h : pollCachingSample cfg env s c = some r) : (r.1.client c).Counted := by
  have state : (s.client c).state ≠ .streamingData := by simp [hstate]
  unfold pollCachingSample at h
  obtain ⟨⟨t, ok⟩, ht, rfl⟩ := Option.map_eq_some_iff.mp h
  have hserves : Serves cfg c True s (t, ok) := esdProtoSampleCache_serves state samples ht
  exact hserves.counted hs

theorem pollTurn_counted (hs : (s.client c).Counted)
    (hkeeps : env.canRead = true → TurnKeepsCount s c) (h : pollTurn cfg env s c = some r)
    (hok : r.2 = true) : (r.1.client c).Counted := by
  unfold pollTurn at h
  split_ifs at h with hcan
  · cases h
    exact hs
  · have hkeeps := hkeeps (by simpa using hcan)
    split at h
    · cases h
      exact hs
    · rename_i hstate
      exact pollNeedsReqdata_counted hw hc fresh samples hs hstate hkeeps h hok
    · rename_i hstate
      exact pollCachingSample_counted samples hs hstate h
    · rename_i hstate
      exact pollNextRequest_counted hw hc fresh samples hstate hkeeps h hok

omit hw hc fresh samples in
theorem counted_others {F : Footprint} {d : Ptr}
    (hs : ∀ c ∈ s.esdClientsList, (s.client c).Counted)
    (heffects : Effects cfg F s.objects t.objects) (hd : d ∉ F.clients)
    (hdl : d ∈ t.esdClientsList) : (t.client d).Counted := by
  have hsame : t.client d = s.client d := heffects.client_frame hd
  rw [hsame]
  exact hs d (heffects.clients_frame hd hdl)

omit hw hc fresh samples in
theorem step_counted (hw : s.objects.WellFormed)
    (hs : ∀ c ∈ s.esdClientsList, (s.client c).Counted) (hkeeps : KeepsCount s a)
    (h : step cfg s a = some t) : ∀ c ∈ t.esdClientsList, (t.client c).Counted := by
  intro d hd
  by_cases hquiet : a.Quiet
  · have hclients : d ∉ (a.footprint s).clients := by
      cases a <;> first | exact hquiet.elim | exact id
    exact counted_others hs (step_does hw h hquiet).effects hclients hd
  · obtain ⟨hen, hstep⟩ := step_eq_some h
    cases a with
    | accept c fd socket =>
      cases hstep
      rcases eq_or_ne d c with rfl | hne
      · refine ⟨.connect, ?_, ?_, ?_⟩ <;>
          simp [getNewClient, addNewClient, Server.record, Server.setClient] <;> decide
      · have hsame : (getNewClient s c fd socket).client d = s.client d := by
          simp [getNewClient, addNewClient, Server.record, Server.setClient, hne]
        rw [hsame]
        exact hs d (List.mem_of_ne_of_mem hne hd)
    | poll c env =>
      obtain ⟨hc, fresh, samples⟩ := hen
      rcases eq_or_ne d c with rfl | hne
      · obtain ⟨r, hr, rfl⟩ := Option.map_eq_some_iff.mp hstep
        have hturn := pollTurn_turn hw hc fresh samples hr
        cases hok : r.2 with
        | true =>
          exact pollTurn_counted hw hc fresh samples (hs d hc) hkeeps hr hok
        | false => exact absurd hd (erased_notMem (hturn.effects.wellFormed hw) hok)
      · exact counted_others hs (pollClient_effects hw hc fresh samples hstep) hne hd
    | reset scrambled =>
      cases hstep
      have hclients : (resetDaemon s scrambled).esdClientsList = [] :=
        congrArg Objects.clients (resetDaemon_objects s scrambled)
      simp [hclients] at hd
    | _ => exact absurd trivial hquiet

end Count

/-- In a state a daemon reaches: a client whose read the daemon finds interrupted stays as it
was exactly when its last request was for the latency, which is answered once more; a
stream whose read is interrupted is erased; and if on the way no read of parameters was
interrupted before the first of them came, and no request was read that is not
implemented, the count of every client is within its bounds. -/
theorem interrupted_reads_iff {cfg : Config} {ok : Server → Action → Prop} {s t : Server}
    {as : List Action} (hs : s.Initial) (h : Runs cfg ok s as t) :
    (∀ c env u, env.canRead = true → InterruptedPoll t c → step cfg t (.poll c env) = some u →
      (Undisturbed c t u ↔ RepeatsLatency t c)) ∧
    (∀ p ∈ t.esdPlayersList, (t.player p).IsStream → ∀ canRead u, InterruptedCycle cfg canRead t p →
      step cfg t (.mix canRead) = some u → p ∉ u.esdPlayersList) ∧
    (Runs cfg KeepsCount s as t → ∀ c ∈ t.esdClientsList, (t.client c).Counted) := by
  have hw := Run.wellFormed h hs.wellFormed
  refine ⟨fun c env u hcan hpoll hstep => ?_, fun p hp mode canRead u hcycle hstep => ?_,
    fun hrun => ?_⟩
  · obtain ⟨hen, hstep⟩ := step_eq_some hstep
    exact undisturbed_iff hw hen hcan hpoll hstep
  · obtain ⟨-, hstep⟩ := step_eq_some hstep
    cases hstep
    exact mixPlayers_interrupted hw hp mode hcycle
  · have hboth := hrun.invariant
      (fun s => s.objects.WellFormed ∧ ∀ c ∈ s.esdClientsList, (s.client c).Counted)
      (fun _ _ _ hI hkeeps hstep =>
        ⟨step_wellFormed hI.1 hstep, step_counted hI.1 hI.2 hkeeps hstep⟩)
      ⟨hs.wellFormed, fun c hc => by simp [hs.clients] at hc⟩
    exact hboth.2

/-- A client connects and asks for the latency; the read after that is interrupted. -/
def latencyRun : List Action :=
  [.accept 1 5 ⟨[.data (handshake 7), .data (Word.octets 23#32), .again], []⟩,
    .poll 1 (.allocating 0), .poll 1 (.allocating 0)]

theorem latencyRun_ends : (exec (step .smallBlocks) KeepsCount .blank latencyRun).isSome := by
  decide +kernel

def afterLatency : Server :=
  (exec (step .smallBlocks) KeepsCount .blank latencyRun).get latencyRun_ends

theorem afterLatency_interrupted : InterruptedPoll afterLatency 1 :=
  ⟨by decide +kernel, Or.inl (by decide +kernel)⟩

theorem afterLatency_repeats : RepeatsLatency afterLatency 1 :=
  ⟨by decide +kernel, by decide +kernel, by decide +kernel, by decide +kernel, by decide +kernel⟩

theorem interrupted_reads_iff_latency :
    Runs .smallBlocks KeepsCount .blank latencyRun afterLatency ∧
      (afterLatency.client 1).Counted ∧
      ∀ u, step .smallBlocks afterLatency (.poll 1 (.allocating 0)) = some u →
        Undisturbed 1 afterLatency u := by
  have hrun : Runs .smallBlocks KeepsCount .blank latencyRun afterLatency :=
    Run.of_isSome latencyRun_ends
  obtain ⟨hpolls, -, hcounted⟩ := interrupted_reads_iff Server.blank_initial hrun
  refine ⟨hrun, hcounted hrun 1 (by decide +kernel), fun u hstep => ?_⟩
  exact (hpolls 1 _ u rfl afterLatency_interrupted hstep).mpr afterLatency_repeats

/-- The first read of a client is interrupted. -/
def interruptedRun : List Action := [.accept 1 5 ⟨[.again], []⟩]

theorem interruptedRun_ends : (exec (step .smallBlocks) NoReset .blank interruptedRun).isSome := by
  decide +kernel

theorem interruptedRun_polls :
    (exec (step .smallBlocks) NoReset
      ((exec (step .smallBlocks) NoReset .blank interruptedRun).get interruptedRun_ends)
      [.poll 1 (.allocating 0)]).isSome := by
  decide +kernel

/-- The daemon waits for the parameters of the connection, and has -1 of them now. -/
theorem interrupted_read_counted :
    ∃ t u, Runs .smallBlocks NoReset .blank interruptedRun t ∧ InterruptedPoll t 1 ∧
      Runs .smallBlocks NoReset t [.poll 1 (.allocating 0)] u ∧
      ¬ Undisturbed 1 t u ∧ 1 ∈ u.esdClientsList ∧ (u.client 1).protoDataLength = -1 := by
  refine ⟨_, _, Run.of_isSome interruptedRun_ends,
    ⟨by decide +kernel, Or.inr ⟨by decide +kernel, .connect, by decide +kernel, by decide +kernel⟩⟩,
    Run.of_isSome interruptedRun_polls, fun hsame => ?_, by decide +kernel, by decide +kernel⟩
  exact absurd hsame.protoDataLength (by decide +kernel)

end Esound
