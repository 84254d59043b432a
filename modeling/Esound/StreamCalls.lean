import Esound.FileCache
import Esound.Lockstep
import Esound.Rounds

/-!
# Streams that the library opens

`esd_play_stream` and its siblings connect, send the key, and then one request with the format, the
rate and the name of the stream. What the program writes to the socket afterwards is sound: the
daemon has to stop reading requests exactly there.
-/

open Library.Buffer Library.CString Library.Transition

namespace Esound

/-! ## What is sent -/

/-- A call that opens a stream, with what its array for the name held. -/
structure StreamCall where
  request : Proto
  opens : request.Opens
  format : Word
  rate : Word
  held : Mem
  name : Option (List Octet)

def esdPlayStream (format rate : Word) (held : Mem) (name : Option (List Octet)) : StreamCall :=
  ⟨.streamPlay, trivial, format, rate, held, name⟩

def esdMonitorStream (format rate : Word) (held : Mem) (name : Option (List Octet)) : StreamCall :=
  ⟨.streamMon, trivial, format, rate, held, name⟩

def esdFilterStream (format rate : Word) (held : Mem) (name : Option (List Octet)) : StreamCall :=
  ⟨.streamFilt, trivial, format, rate, held, name⟩

def esdRecordStream (format rate : Word) (held : Mem) (name : Option (List Octet)) : StreamCall :=
  ⟨.streamRec, trivial, format, rate, held, name⟩

namespace StreamCall

variable {k : StreamCall} {audio : List Octet}

def params (k : StreamCall) : List Octet :=
  Word.octets k.format ++ Word.octets k.rate ++ nameBuf k.held k.name

/-- What is written to the socket that `esd_open_sound` returned. -/
def sends (k : StreamCall) : List Octet := Word.octets k.request.word ++ k.params

/-- What the daemon makes of the name. -/
def label (k : StreamCall) : List Octet :=
  match k.name with
  | none => []
  | some name => (name.takeWhile (· ≠ 0)).take (esdNameMax - 1)

theorem eq_call (k : StreamCall) :
    k = esdPlayStream k.format k.rate k.held k.name ∨ k = esdMonitorStream k.format k.rate k.held k.name ∨
      k = esdFilterStream k.format k.rate k.held k.name ∨ k = esdRecordStream k.format k.rate k.held k.name := by
  obtain ⟨request, opens, format, rate, held, name⟩ := k
  cases request with
  | streamPlay => exact .inl rfl
  | streamMon => exact .inr (.inl rfl)
  | streamFilt => exact .inr (.inr (.inl rfl))
  | streamRec => exact .inr (.inr (.inr rfl))
  | _ => exact opens.elim

theorem params_length (k : StreamCall) : k.params.length = 136 := by
  simp [params, nameBuf_length, Word.octets, esdNameMax]

/-- What is sent behind the word is as much as the daemon waits for. -/
theorem dataLength_eq (k : StreamCall) : k.request.dataLength = 136 := by
  rcases k.eq_call with h | h | h | h <;> rw [h] <;> rfl

theorem request_ne_connect (k : StreamCall) : k.request ≠ .connect := by
  intro he
  have hopens := k.opens
  rw [he] at hopens
  exact hopens

theorem cutName_label (k : StreamCall) : cutName (nameBuf k.held k.name) = k.label := by
  cases hname : k.name with
  | none => simp [label, hname, cutName, nameBuf]
  | some name =>
    rw [cutName_nameBuf]
    simp [label, hname]

theorem next_sends (last : Word) :
    (Framer.reading false last (k.sends ++ audio)).next = some (k.request.word, k.params ++ audio) := by
  have hsends : k.sends ++ audio = Word.octets k.request.word ++ (k.params ++ audio) := List.append_assoc _ _ _
  have hword : readRequest last ((k.sends ++ audio).take 4) = k.request.word := by
    have htake : (k.sends ++ audio).take 4 = Word.octets k.request.word := by
      rw [hsends]
      exact List.take_left' rfl
    rw [htake]
    exact Word.int_store_octets _ 0 _
  have hdrop : (k.sends ++ audio).drop 4 = k.params ++ audio := by
    rw [hsends]
    exact List.drop_left' rfl
  have hsome : k.sends ++ audio ≠ [] := by simp [sends, Word.octets]
  simp [Framer.next, hword, hdrop, hsome, Proto.ofWord_word, k.request_ne_connect]

theorem invocation_sends (last : Word) :
    (Framer.reading false last (k.sends ++ audio)).invocation = some (k.request, k.params) := by
  have hlength := k.params_length
  have hdata := k.dataLength_eq
  have hcount : k.request.dataLength.toNat = k.params.length := by omega
  have henough : 0 ≤ k.request.dataLength ∧ k.request.dataLength ≤ (k.params ++ audio).length := by
    rw [List.length_append]
    omega
  have htake : (k.params ++ audio).take k.params.length = k.params := List.take_left' rfl
  simp only [Framer.invocation, next_sends, Option.bind_some, Proto.ofWord_word, henough, and_self,
    if_true, hcount, htake]

end StreamCall

/-! ## The octets of a connection -/

section Connection

variable {key : AuthKey} {rest audio : List Octet} {k : StreamCall} {xs : List Frame} {f : Framer}
  {request : Proto} {protoData : List Octet}

end Connection

/-! ## The player -/

/-- The player has what the client asked for. -/
structure EsdPlayer.Describes (v : EsdPlayer) (cl : EsdClient) : Prop where
  format : v.format = maybeSwap32 cl.swapByteOrder (cl.protoData.int 0) &&& ~~~esdMaskMode
  rate : v.rate = (maybeSwap32 cl.swapByteOrder (cl.protoData.int 4)).toInt
  name : v.name = nameOf cl.protoData 8
  source : v.sourceId = cl.fd
  empty : v.actualLength = 0

/-- The player is listed, and all that comes from the client is for it. -/
structure Starts (c p : Ptr) (l : PlayerList) (s t : Server) : Prop where
  client : t.client c = { s.client c with state := .streamingData }
  list : t.list l = p :: s.list l
  parent : (t.player p).parent = c
  describes : (t.player p).Describes (s.client c)

section Players

variable {cfg : Config} {env : PollEnv} {s u : Server} {c p : Ptr} {request : Proto} {r : Server × Bool}
  {v : EsdPlayer}

variable (cfg env s c) in
theorem newStreamPlayer_describes : newStreamPlayer cfg env s c = (s, 0) ∨
    ∃ v : EsdPlayer, newStreamPlayer cfg env s c = (s.setPlayer env.malloc v, env.malloc) ∧
      env.malloc ≠ 0 ∧ v.Describes (s.client c) := by
  unfold newStreamPlayer
  simp only
  split_ifs with hnull hroom
  · exact .inl rfl
  · split
    · exact .inl rfl
    · exact .inr ⟨_, rfl, hnull, rfl, rfl, rfl, rfl, rfl⟩
  · split <;> exact .inl rfl

theorem setStreaming_starts {l : PlayerList} {f : Option TranslateFunc} (client : u.client = s.client)
    (list : u.list l = p :: s.list l) (describes : v.Describes (s.client c))
    (player : u.player p = { v with parent := c, translateFunc := f }) : Starts c p l s (setStreaming u c) := by
  have hplayer : (setStreaming u c).player p = { v with parent := c, translateFunc := f } := player
  refine ⟨by simp [setStreaming, Server.setClient, client], ?_, by rw [hplayer], ?_⟩
  · rw [← list]
    cases l <;> rfl
  · rw [hplayer]
    exact ⟨describes.format, describes.rate, describes.name, describes.source, describes.empty⟩

theorem joinRecorders_starts (client : u.client = s.client) (list : u.esdRecorderList = s.esdRecorderList)
    (describes : (u.player p).Describes (s.client c)) : Starts c p .recorders s (joinRecorders u c p).1 := by
  refine setStreaming_starts (f := some (getTranslateFunc u.esdAudioFormat)) client
    (congrArg (List.cons p) list) describes ?_
  simp [setTranslateFunc, setParent, Server.setPlayer, addRecorder, pushTo, Server.setList]

theorem startRecorder_starts (client : u.client = s.client) (list : u.esdRecorderList = s.esdRecorderList)
    (hok : (startRecorder cfg env u c).2 = true) :
    env.malloc ≠ 0 ∧ Starts c env.malloc .recorders s (startRecorder cfg env u c).1 := by
  simp only [startRecorder] at hok ⊢
  split_ifs at hok ⊢ with hstandby hnull hformat
  · rcases newStreamPlayer_describes cfg env u c with hnone | ⟨v, hnew, hmalloc, hv⟩
    · rw [hnone] at hnull
      exact absurd rfl hnull
    · rw [client] at hv
      rw [hnew] at hok ⊢
      refine ⟨hmalloc, ?_⟩
      cases hopen : env.audioOpen 1 with
      | none => simp [reopenToRecord, esdAudioOpen, hopen] at hok
      | some fd =>
        simp only [reopenToRecord, esdAudioOpen, hopen]
        exact joinRecorders_starts client list (by simpa [esdAudioClose, Server.setPlayer] using hv)
  · rcases newStreamPlayer_describes cfg env u c with hnone | ⟨v, hnew, hmalloc, hv⟩
    · rw [hnone] at hnull
      exact absurd rfl hnull
    · rw [client] at hv
      rw [hnew]
      exact ⟨hmalloc, joinRecorders_starts client list (by simpa [Server.setPlayer] using hv)⟩

theorem handler_starts (hopens : request.Opens) (h : handler cfg env request s c = some r) (hok : r.2 = true) :
    ∃ l, request.listed = some l ∧ env.malloc ≠ 0 ∧ Starts c env.malloc l s r.1 := by
  cases request with
  | streamPlay =>
    cases h
    refine ⟨.players, rfl, ?_⟩
    simp only [esdProtoStreamPlay] at hok ⊢
    rcases newStreamPlayer_describes cfg env s c with hnone | ⟨v, hnew, hmalloc, hv⟩
    · simp [hnone] at hok
    · simp only [hnew, if_neg hmalloc]
      refine ⟨hmalloc, setStreaming_starts (f := v.translateFunc) rfl rfl hv ?_⟩
      simp [addPlayer, pushTo, Server.setList, setParent, Server.setPlayer]
  | streamMon =>
    cases h
    refine ⟨.monitors, rfl, ?_⟩
    simp only [esdProtoStreamMonitor] at hok ⊢
    rcases newStreamPlayer_describes cfg env s c with hnone | ⟨v, hnew, hmalloc, hv⟩
    · simp [hnone] at hok
    · simp only [hnew, if_neg hmalloc]
      refine ⟨hmalloc, setStreaming_starts (f := some (getTranslateFunc s.esdAudioFormat)) rfl rfl hv ?_⟩
      simp [setTranslateFunc, pushTo, Server.setList, setParent, Server.setPlayer]
  | streamFilt =>
    cases h
    refine ⟨.filters, rfl, ?_⟩
    simp only [esdProtoStreamFilter] at hok ⊢
    rcases newStreamPlayer_describes cfg env s c with hnone | ⟨v, hnew, hmalloc, hv⟩
    · simp [hnone] at hok
    · simp only [hnew, if_neg hmalloc]
      refine ⟨hmalloc, setStreaming_starts (f := v.translateFunc) rfl rfl hv ?_⟩
      simp [pushTo, Server.setList, setParent, Server.setPlayer]
  | streamRec =>
    cases h
    refine ⟨.recorders, rfl, ?_⟩
    simp only [esdProtoStreamRecorder] at hok ⊢
    split_ifs at hok ⊢
    · have hresumed : (esdServerResume s (env.audioOpen 0)).1.client = s.client ∧
          (esdServerResume s (env.audioOpen 0)).1.esdRecorderList = s.esdRecorderList := by
        simp only [esdServerResume]
        split_ifs
        · cases env.audioOpen 0 <;> exact ⟨rfl, rfl⟩
        · exact ⟨rfl, rfl⟩
      exact startRecorder_starts hresumed.1 hresumed.2 hok
    · exact startRecorder_starts rfl rfl hok
  | _ => exact hopens.elim

end Players

/-! ## The stream -/

/-- The player of the call: it has the format, the rate and the name that were given to it, it is
the first of its list, and the next octet of its client is the first of the sound. -/
structure StreamCall.Opened (k : StreamCall) (audio : List Octet) (c p : Ptr) (s t : Server) : Prop where
  listed : ∃ l, k.request.listed = some l ∧ t.list l = p :: s.list l
  state : (t.client c).state = .streamingData
  order : (t.client c).swapByteOrder = false
  parent : (t.player p).parent = c
  source : (t.player p).sourceId = (t.client c).fd
  format : (t.player p).format = k.format &&& ~~~esdMaskMode
  rate : (t.player p).rate = k.rate.toInt
  name : (t.player p).name = k.label
  empty : (t.player p).actualLength = 0
  sound : (t.sockets (t.client c).fd).ready = audio

section Opening

variable {cfg : Config} {env : PollEnv} {s t u v : Server} {c : Ptr} {key : AuthKey} {audio : List Octet}
  {k : StreamCall} {xs : List Frame} {f : Framer} {request : Proto} {protoData : List Octet}
  {r : Server × Bool}

/-- What a player is made of when the parameters are those of the call. -/
theorem EsdPlayer.Describes.called {w : EsdPlayer} (h : w.Describes (s.client c))
    (order : (s.client c).swapByteOrder = false) (hparams : load (s.client c).protoData 0 136 = k.params) :
    w.format = k.format &&& ~~~esdMaskMode ∧ w.rate = k.rate.toInt ∧ w.name = k.label := by
  have hformat : (s.client c).protoData.int 0 = k.format := by
    rw [← wordIn_load (n := 136) (by decide), hparams]
    exact Word.int_store_within _ [] (Word.octets k.rate ++ nameBuf k.held k.name) k.format
  have hrate : (s.client c).protoData.int 4 = k.rate := by
    rw [← wordIn_load (n := 136) (by decide), hparams]
    exact Word.int_store_within _ (Word.octets k.format) (nameBuf k.held k.name) k.rate
  have hname : nameOf (s.client c).protoData 8 = k.label := by
    have hsplit := load_add (s.client c).protoData 0 8 128
    rw [Nat.cast_zero, zero_add] at hsplit
    have hload : load (s.client c).protoData 8 esdNameMax = nameBuf k.held k.name := by
      have hdrop : k.params.drop 8 = nameBuf k.held k.name := List.drop_left' rfl
      rw [← hdrop, ← hparams, show (136 : ℕ) = 8 + 128 from rfl, hsplit, List.drop_left' (by simp)]
      rfl
    rw [← k.cutName_label, ← hload]
    rfl
  refine ⟨?_, ?_, h.name.trans hname⟩
  · rw [h.format, order, hformat]
    rfl
  · rw [h.rate, order, hrate]
    rfl

/-- The handler of the request, called with the parameters of the call. -/
theorem StreamCall.opened (hcalled : Called c (.reading false 0#32 (k.sends ++ audio)) request s)
    (hopens : request.Opens) (h : handler cfg env request s c = some r) (hok : r.2 = true) :
    request = k.request ∧ load (s.client c).protoData 0 request.dataLength.toNat = k.params ∧
      env.malloc ≠ 0 ∧ k.Opened audio c env.malloc s r.1 := by
  have hinvocation := hcalled.invocation.symm.trans (StreamCall.invocation_sends (k := k) 0#32)
  obtain ⟨rfl, hparams⟩ : request = k.request ∧ _ := Prod.mk.inj (Option.some.inj hinvocation)
  have hnext := hcalled.next.symm.trans (StreamCall.next_sends (k := k) 0#32)
  have hbytes := (Prod.mk.inj (Option.some.inj hnext)).2
  rw [hparams] at hbytes
  have hready : (s.sockets (s.client c).fd).ready = audio := List.append_cancel_left hbytes
  have horder : (s.client c).swapByteOrder = false := (hcalled.swap k.request_ne_connect).symm
  have hcache : k.request ≠ .sampleCache := by
    intro he
    rw [he] at hopens
    exact hopens
  obtain ⟨l, hlisted, hmalloc, hstarts⟩ := handler_starts hopens h hok
  have hcount : k.request.dataLength.toNat = 136 := by
    have hdata := k.dataLength_eq
    omega
  obtain ⟨hformat, hrate, hname⟩ := hstarts.describes.called horder (by rw [← hcount]; exact hparams)
  have hinput : (r.1.sockets (s.client c).fd).input = (s.sockets (s.client c).fd).input :=
    (handler_unread hcache h).input _
  refine ⟨rfl, hparams, hmalloc, ⟨l, hlisted, hstarts.list⟩, ?_, ?_, hstarts.parent, ?_, hformat, hrate, hname,
    hstarts.describes.empty, ?_⟩
  · rw [hstarts.client]
  · rw [hstarts.client]
    exact horder
  · rw [hstarts.client]
    exact hstarts.describes.source
  · rw [hstarts.client, ← hready]
    exact congrArg readyOctets hinput

theorem StreamCall.Opened.record (h : k.Opened audio c env.malloc s t) (x : Call) :
    k.Opened audio c env.malloc s (t.record x) := by
  obtain ⟨l, hlisted, hlist⟩ := h.listed
  refine ⟨⟨l, hlisted, ?_⟩, h.state, h.order, h.parent, h.source, h.format, h.rate, h.name, h.empty, h.sound⟩
  rw [← hlist]
  cases l <;> rfl

end Opening

/-! A program plays a tune; its key comes in two pieces. -/

end Esound
