import Esound.Reachable

/-!
# The turn of a client

A turn reads from the client's socket, and it may end there, or in one handler, or in the
rest of an upload. Whatever else a turn does the handler did.
-/

open Library.Buffer Library.Transition

namespace Esound

section Turn

variable {cfg : Config} {env : PollEnv} {c : Ptr} {s t u : Server} {r : Server × Bool}

/-- The client was listened to: its own record and the sockets may have changed, but not
who it is. -/
structure Heard (c : Ptr) (s t : Server) : Prop where
  rest : t = { s with client := Function.update s.client c (t.client c), sockets := t.sockets }
  fd : (t.client c).fd = (s.client c).fd
  swapByteOrder : (t.client c).swapByteOrder = (s.client c).swapByteOrder

theorem Heard.refl (c : Ptr) (s : Server) : Heard c s s :=
  ⟨by rw [Function.update_eq_self], rfl, rfl⟩

theorem Heard.trans (h : Heard c s t) (h' : Heard c t u) : Heard c s u := by
  refine ⟨?_, h'.fd.trans h.fd, h'.swapByteOrder.trans h.swapByteOrder⟩
  have hrest := h'.rest
  rw [h.rest] at hrest
  simpa only [Function.update_idem] using hrest

theorem Heard.setClient {v : EsdClient} (fd : v.fd = (s.client c).fd)
    (swapByteOrder : v.swapByteOrder = (s.client c).swapByteOrder) :
    Heard c s (s.setClient c v) := by
  refine ⟨?_, ?_, ?_⟩ <;> simp [Server.setClient, fd, swapByteOrder]

theorem Heard.ledger (h : Heard c s t) : t.ledger = s.ledger := by
  rw [h.rest]
  rfl

theorem Heard.lists (h : Heard c s t) :
    t.esdClientsList = s.esdClientsList ∧ t.allPlayers = s.allPlayers ∧
      t.esdSamplesList = s.esdSamplesList := by
  rw [h.rest]
  exact ⟨rfl, rfl, rfl⟩

theorem Heard.effects (h : Heard c s t) (active : (s.client c).state ≠ .streamingData)
    (state : (t.client c).state ≠ .streamingData) :
    Effects cfg (.turn c) s.objects t.objects := by
  have hset := setClient_effects cfg (v := t.client c) active state h.fd
  have hobjects : t.objects = (s.setClient c (t.client c)).objects :=
    (congrArg Server.objects h.rest).trans rfl
  rw [hobjects]
  exact hset

theorem readReqdata_heard (request : Proto) : Heard c s (readReqdata request s c).1 := by
  refine ⟨?_, ?_, ?_⟩ <;> simp [readReqdata, Server.setClient, Server.sysRead]

theorem readRequestWord_heard : Heard c s (readRequestWord s c).1 := by
  refine ⟨?_, ?_, ?_⟩ <;> simp [readRequestWord, Server.setClient, Server.sysRead]

end Turn

/-! ## What the reads of a turn lead to -/

/-- What a turn comes to with its reads: it may be over, or a handler is called, or the one
that waits for the rest of a sample. -/
inductive Opening
  | done (t : Server) (ok : Bool)
  | handles (request : Proto) (t : Server)
  | resumes

def openHandler (request : Proto) (s : Server) (c : Ptr) : Opening :=
  .handles request (s.setClient c { s.client c with state := .nextRequest })

def openReqdata (s : Server) (c : Ptr) : Opening :=
  match Proto.ofWord (s.client c).request with
  | none => .done s false
  | some request =>
    if (s.client c).protoDataLength > request.dataLength then .done s false
    else
      let (s, r) := readReqdata request s c
      if r.Hangup then .done s false
      else if (s.client c).protoDataLength = request.dataLength then openHandler request s c
      else .done s true

def openBegun (request : Proto) (s : Server) (c : Ptr) : Opening :=
  let s := s.setClient c { s.client c with state := .needsReqdata, protoDataLength := 0 }
  if request.dataLength = 0 then openHandler request s c else .done s true

def openRequest (s : Server) (c : Ptr) : Opening :=
  let (s, r) := readRequestWord s c
  if r.Hangup then .done s false
  else
    match Proto.ofWord (s.client c).request with
    | none => .done s false
    | some .connect => .done s false
    | some request => openBegun request s c

def opening (env : PollEnv) (s : Server) (c : Ptr) : Opening :=
  if env.canRead = false then .done s true
  else
    match (s.client c).state with
    | .streamingData => .done s true
    | .needsReqdata => openReqdata s c
    | .cachingSample => .resumes
    | .nextRequest => openRequest s c

def Opening.finish (cfg : Config) (env : PollEnv) (s : Server) (c : Ptr) :
    Opening → Option (Server × Bool)
  | done t ok => some (t, ok)
  | handles request t =>
    (handler cfg env request t c).map fun r =>
      (r.1.record
        (.handled c request (load (t.client c).protoData 0 request.dataLength.toNat) r.2), r.2)
  | resumes => pollCachingSample cfg env s c

/-- The client was listened to, and is one that may be. -/
def Opening.Fits (s : Server) (c : Ptr) : Opening → Prop
  | done t _ => Heard c s t
  | handles _ t =>
    Heard c s t ∧ (s.client c).state ≠ .streamingData ∧ (t.client c).state = .nextRequest
  | resumes => (s.client c).state = .cachingSample

section Opens

variable {env : PollEnv} {c : Ptr} {s t : Server} {request : Proto}

variable (cfg : Config) in
theorem handle_eq :
    handle cfg env request t c = (openHandler request t c).finish cfg env s c := rfl

variable (cfg env s c) in
theorem pollTurn_eq (cfg : Config) :
    pollTurn cfg env s c = (opening env s c).finish cfg env s c := by
  simp only [pollTurn, opening]
  split_ifs
  · rfl
  · cases (s.client c).state with
    | streamingData | cachingSample => rfl
    | needsReqdata =>
      simp only [pollNeedsReqdata, openReqdata]
      cases Proto.ofWord (s.client c).request with
      | none => rfl
      | some request =>
        dsimp only
        split_ifs
        · rfl
        · rfl
        · exact handle_eq cfg
        · rfl
    | nextRequest =>
      simp only [pollNextRequest, openRequest]
      split_ifs
      · rfl
      · cases Proto.ofWord ((readRequestWord s c).1.client c).request with
        | none => rfl
        | some request =>
          have hbegin : beginRequest cfg env request (readRequestWord s c).1 c =
              (openBegun request (readRequestWord s c).1 c).finish cfg env s c := by
            simp only [beginRequest, openBegun]
            split_ifs
            · exact handle_eq cfg
            · rfl
          cases request with
          | connect => rfl
          | _ => exact hbegin

theorem openHandler_fits (active : (s.client c).state ≠ .streamingData) (h : Heard c s t) :
    (openHandler request t c).Fits s c :=
  ⟨h.trans (.setClient rfl rfl), active, by simp [Server.setClient]⟩

theorem openBegun_fits (active : (s.client c).state ≠ .streamingData) (h : Heard c s t) :
    (openBegun request t c).Fits s c := by
  have hwait : Heard c s
      (t.setClient c { t.client c with state := .needsReqdata, protoDataLength := 0 }) :=
    h.trans (.setClient rfl rfl)
  simp only [openBegun]
  split_ifs
  · exact openHandler_fits active hwait
  · exact hwait

variable (env s c) in
theorem opening_fits : (opening env s c).Fits s c := by
  simp only [opening]
  split_ifs
  · exact .refl c s
  · cases hstate : (s.client c).state with
    | streamingData => exact .refl c s
    | cachingSample => exact hstate
    | needsReqdata =>
      have active : (s.client c).state ≠ .streamingData := by simp [hstate]
      simp only [openReqdata]
      split
      · exact .refl c s
      · rename_i request _
        have hread := readReqdata_heard (s := s) (c := c) request
        split_ifs
        · exact .refl c s
        · exact hread
        · exact openHandler_fits active hread
        · exact hread
    | nextRequest =>
      have active : (s.client c).state ≠ .streamingData := by simp [hstate]
      have hread := readRequestWord_heard (s := s) (c := c)
      simp only [openRequest]
      split_ifs
      · exact hread
      · split
        · exact hread
        · exact hread
        · exact openBegun_fits active hread

end Opens

section Ends

variable {cfg : Config} {env : PollEnv} {c : Ptr} {s : Server} {r : Server × Bool}

/-- The ways a turn can end. -/
inductive TurnEnds (cfg : Config) (env : PollEnv) (c : Ptr) (s : Server) :
    Server × Bool → Prop
  | heard (r : Server × Bool) (h : Heard c s r.1) : TurnEnds cfg env c s r
  | handled (request : Proto) (t : Server) (h : Heard c s t)
      (active : (s.client c).state ≠ .streamingData)
      (state : (t.client c).state = .nextRequest) (r : Server × Bool)
      (handler : handler cfg env request t c = some r) :
      TurnEnds cfg env c s
        (r.1.record (.handled c request (load (t.client c).protoData 0 request.dataLength.toNat) r.2),
          r.2)
  | resumed (caching : (s.client c).state = .cachingSample) (r : Server × Bool)
      (handler : esdProtoSampleCache cfg env s c = some r) :
      TurnEnds cfg env c s (r.1.record (.resumed c r.2), r.2)

theorem pollTurn_ends (h : pollTurn cfg env s c = some r) : TurnEnds cfg env c s r := by
  have hfits := opening_fits env c s
  rw [pollTurn_eq] at h
  cases hopen : opening env s c with
  | done t ok =>
    rw [hopen] at h hfits
    cases h
    exact .heard _ hfits
  | handles request t =>
    rw [hopen] at h hfits
    obtain ⟨r', hr', rfl⟩ := Option.map_eq_some_iff.mp h
    exact .handled request t hfits.1 hfits.2.1 hfits.2.2 r' hr'
  | resumes =>
    rw [hopen] at h hfits
    simp only [Opening.finish, pollCachingSample] at h
    obtain ⟨r', hr', rfl⟩ := Option.map_eq_some_iff.mp h
    exact .resumed hfits r' hr'

end Ends

/-! ## What the handlers make of their client -/

/-- The requests that turn their client into a stream. -/
def Proto.Opens : Proto → Prop
  | streamPlay | streamRec | streamMon | streamFilt => True
  | _ => False

section Clients

variable {cfg : Config} {env : PollEnv} {c p : Ptr} {s t : Server} {r : Server × Bool}

theorem eraseSample_client (id : ℤ) (force : Bool) : (eraseSample s id force).client = s.client := by
  simp only [eraseSample]
  split
  · rfl
  · split_ifs <;> rfl

theorem eraseClient_client (c : Ptr) : (eraseClient s c).client = s.client := by
  simp only [eraseClient]
  split_ifs <;> rfl

theorem freePlayer_client (p : Ptr) : (freePlayer s p).client = s.client := by
  have hemit : ∀ u e, (Server.emit u e).client = u.client := fun _ _ => rfl
  simp only [freePlayer, hemit]
  split_ifs
  · exact eraseClient_client _
  · rw [eraseSample_client]
    rfl
  · rfl
  · rfl

theorem esdAudioOpen_client (r : Option ℤ) : (esdAudioOpen s r).1.client = s.client := by
  cases r <;> rfl

theorem playSample_client (id : ℤ) (loop : Bool) :
    (playSample cfg env s id loop).1.client = s.client := by
  have hnew : (newSamplePlayer cfg env s id loop).1.client = s.client := by
    simp only [newSamplePlayer]
    split
    · rfl
    · split_ifs
      · rfl
      · split <;> rfl
      · split <;> rfl
  simp only [playSample]
  split_ifs
  · exact hnew
  · exact (pushTo_client .players).trans hnew

/-- Only a request to connect, one for a stream and an upload change the record of their
client. -/
theorem handler_client {request : Proto} (hopens : ¬ request.Opens) (hcache : request ≠ .sampleCache)
    (hconnect : request ≠ .connect) (h : handler cfg env request s c = some r) :
    r.1.client = s.client := by
  have hobjects : ∀ u : Server, u.objects = s.objects → u.client = s.client :=
    fun u hu => congrArg Objects.client hu
  cases request with
  | streamPlay | streamRec | streamMon | streamFilt => exact absurd trivial hopens
  | sampleCache => exact absurd rfl hcache
  | connect => exact absurd rfl hconnect
  | lock =>
    cases h
    exact hobjects _ objects_esdProtoLock
  | unlock =>
    cases h
    exact hobjects _ objects_esdProtoUnlock
  | standby =>
    cases h
    exact hobjects _ objects_esdProtoStandby
  | resume =>
    cases h
    exact hobjects _ objects_esdProtoResume
  | sampleFree =>
    cases h
    exact eraseSample_client _ _
  | samplePlay | sampleLoop =>
    cases h
    exact playSample_client _ _
  | sampleStop =>
    cases h
    exact (stopSample_does cfg (F := .empty) _).2
  | sampleKill | subscribe | unsubscribe =>
    cases h
    rfl
  | sampleGetid =>
    cases h
    simp only [esdProtoSampleGetid]
    split <;> rfl
  | serverInfo =>
    cases h
    exact esdProtoServerInfo_client
  | allInfo =>
    cases h
    exact esdProtoAllInfo_client
  | streamPan =>
    cases h
    simp only [esdProtoStreamPan]
    split <;> rfl
  | samplePan =>
    cases h
    simp only [esdProtoSamplePan]
    split <;> rfl
  | standbyMode | latency =>
    cases h
    rfl

theorem newStreamPlayer_client : (newStreamPlayer cfg env s c).1.client = s.client := by
  rcases newStreamPlayer_cases cfg env s c with h | ⟨v, h, -⟩
  · rw [h]
  · rw [h]
    rfl

theorem startRecorder_state : ((startRecorder cfg env s c).1.client c).state = (s.client c).state ∨
    ((startRecorder cfg env s c).1.client c).state = .streamingData := by
  have hnew : (newStreamPlayer cfg env s c).1.client = s.client := newStreamPlayer_client
  have hjoin : ∀ u p, ((joinRecorders u c p).1.client c).state = .streamingData := by
    intro u p
    simp [joinRecorders, setStreaming, Server.setClient]
  simp only [startRecorder]
  split_ifs
  · exact .inl rfl
  · rw [hnew]
    exact .inl rfl
  · simp only [reopenToRecord]
    split
    · exact .inr (hjoin _ _)
    · rename_i u hopen
      have hu : u.client = s.client := by
        have hclient := congrArg (fun r : Server × Bool => r.1.client) hopen
        exact hclient.symm.trans ((esdAudioOpen_client _).trans hnew)
      have hgive : ∀ p, (giveUpRecorder env u p).client = u.client := fun p =>
        (esdAudioOpen_client _).trans (freePlayer_client p)
      left
      rw [hgive, hu]
  · exact .inr (hjoin _ _)

theorem esdProtoConnect_state :
    ((esdProtoConnect s c).1.client c).state = (s.client c).state := by
  have hsource : (esdValidateSource s c (s.client c).key false).1.client = s.client :=
    (esdValidateSource_frame _ _).2
  simp only [esdProtoConnect]
  generalize esdValidateSource s c (s.client c).key false = v at hsource ⊢
  obtain ⟨t, ok⟩ := v
  cases ok with
  | false => rw [← hsource]
  | true =>
    dsimp only at hsource
    simp only [esdCheckEndian]
    split_ifs <;> simp [Server.setClient, hsource]

/-- No handler but that of an upload waits for the rest of a sample. -/
theorem handler_state {request : Proto} (hcache : request ≠ .sampleCache)
    (h : handler cfg env request s c = some r) :
    (r.1.client c).state = (s.client c).state ∨ (r.1.client c).state = .streamingData := by
  have hnew : (newStreamPlayer cfg env s c).1.client = s.client := newStreamPlayer_client
  have hstream : ∀ u, ((setStreaming u c).client c).state = .streamingData := by
    intro u
    simp [setStreaming, Server.setClient]
  cases request with
  | sampleCache => exact absurd rfl hcache
  | connect =>
    cases h
    exact .inl esdProtoConnect_state
  | streamPlay | streamMon | streamFilt =>
    cases h
    simp only [esdProtoStreamPlay, esdProtoStreamMonitor, esdProtoStreamFilter]
    split_ifs
    · rw [hnew]
      exact .inl rfl
    · exact .inr (hstream _)
  | streamRec =>
    cases h
    simp only [esdProtoStreamRecorder]
    split_ifs
    · have hresume : (esdServerResume s (env.audioOpen 0)).1.client = s.client :=
        congrArg Objects.client (objects_esdServerResume _)
      rw [← hresume]
      exact startRecorder_state
    · exact startRecorder_state
  | _ => exact .inl (by rw [handler_client id (by simp) (by simp) h])

end Clients

end Esound
