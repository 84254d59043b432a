import Esound.Client
import Esound.SampleRefs
import Esound.Uploads

/-!
# All there is to know

`ALL_INFO` writes what the daemon knows as one row for the daemon itself, one for each player
and each sample, and a row of zeros behind the players and behind the samples. The client
library reads it back.
-/

open Library.Buffer Library.Reading Library.Transition

namespace Esound

/-! ## Writing to a client -/

/-- Every write is taken whole, as far as the library goes: no write is longer than a name. -/
def Socket.TakesWhole (k : Socket) : Prop := ∀ r ∈ k.room, (esdNameMax : ℤ) ≤ r

instance (k : Socket) : Decidable k.TakesWhole := inferInstanceAs (Decidable (∀ r ∈ _, _))

def Event.octetsTo (fd : ℤ) : Event → List Octet
  | wrote fd' octets => if fd' = fd then octets else []
  | _ => []

def writtenTo (fd : ℤ) (es : List Event) : List Octet := es.flatMap (Event.octetsTo fd)

/-- What was written to the descriptor since `s`. -/
def writtenSince (fd : ℤ) (s t : Server) : List Octet := writtenTo fd (t.events.drop s.events.length)

/-- `octets` were written to the descriptor, and nothing else was done. -/
structure Sends (fd : ℤ) (octets : List Octet) (s t : Server) : Prop where
  rest : t = { s with sockets := t.sockets, events := t.events }
  events : ∃ es, t.events = s.events ++ es ∧ writtenTo fd es = octets
  whole : (t.sockets fd).TakesWhole
  input : (t.sockets fd).input = (s.sockets fd).input

section Sends

variable {fd : ℤ} {bs bs' : List Octet} {s t u : Server}

theorem Sends.refl (h : (s.sockets fd).TakesWhole) : Sends fd [] s s :=
  ⟨rfl, ⟨[], by simp [writtenTo]⟩, h, rfl⟩

theorem Sends.trans (h : Sends fd bs s t) (h' : Sends fd bs' t u) : Sends fd (bs ++ bs') s u := by
  obtain ⟨es, hes, rfl⟩ := h.events
  obtain ⟨es', hes', rfl⟩ := h'.events
  refine ⟨?_, ⟨es ++ es', ?_, ?_⟩, h'.whole, h'.input.trans h.input⟩
  · have hrest := h'.rest
    rw [h.rest] at hrest
    exact hrest
  · rw [hes', hes, List.append_assoc]
  · simp [writtenTo]

theorem Sends.since (h : Sends fd bs s t) : writtenSince fd s t = bs := by
  obtain ⟨es, hes, rfl⟩ := h.events
  rw [writtenSince, hes, List.drop_left]

theorem Sends.player (h : Sends fd bs s t) : t.player = s.player := by rw [h.rest]

theorem Sends.sample (h : Sends fd bs s t) : t.sample = s.sample := by rw [h.rest]

theorem Sends.named (h : Sends fd bs s t) (hs : s.Named) : t.Named :=
  ⟨fun p => h.player ▸ hs.1 p, fun q => h.sample ▸ hs.2 q⟩

theorem Socket.write_whole {k : Socket} (h : k.TakesWhole) (hlen : bs.length ≤ esdNameMax) :
    (k.write bs).1 = bs.length ∧ (k.write bs).2.TakesWhole := by
  simp only [Socket.write]
  split
  · exact ⟨rfl, h⟩
  · rename_i r rest hroom
    have hr : (esdNameMax : ℤ) ≤ r := h r (by rw [hroom]; exact List.mem_cons_self)
    have hlen' : (bs.length : ℤ) ≤ r := by omega
    refine ⟨?_, fun r' hr' => h r' (by rw [hroom]; exact List.mem_cons_of_mem _ hr')⟩
    rw [if_neg (by omega), min_eq_right hlen']

theorem sysWrite_sends (h : (s.sockets fd).TakesWhole) (hlen : bs.length ≤ esdNameMax) :
    Sends fd bs s (s.sysWrite fd bs).1 ∧ (s.sysWrite fd bs).2 = bs.length := by
  obtain ⟨hcount, hwhole⟩ := Socket.write_whole h hlen
  refine ⟨⟨rfl, ⟨[.wrote fd bs], ?_, by simp [writtenTo, Event.octetsTo]⟩, ?_, sysWrite_input _ _ _⟩,
    hcount⟩
  · simp [Server.sysWrite, hcount]
  · simpa [Server.sysWrite] using hwhole

/-- A row that ends with an int: the result of the last write is 4. -/
theorem writeAll_sends (h : (s.sockets fd).TakesWhole) (rows : List (List Octet))
    (hrows : ∀ bs ∈ rows, bs.length ≤ esdNameMax) (w : Word) :
    Sends fd (rows ++ [Word.octets w]).flatten s (writeAll s fd (rows ++ [Word.octets w])).1 ∧
      (writeAll s fd (rows ++ [Word.octets w])).2 = 4 := by
  induction rows generalizing s with
  | nil =>
    have hlen : (Word.octets w).length ≤ esdNameMax := by simp [Word.octets, esdNameMax]
    obtain ⟨hlast, hcount⟩ := sysWrite_sends h hlen
    exact ⟨by simpa [writeAll] using hlast, hcount⟩
  | cons bs rows ih =>
    obtain ⟨hfirst, -⟩ := sysWrite_sends h (hrows bs List.mem_cons_self)
    obtain ⟨hrest, hcount⟩ := ih hfirst.whole fun bs' hbs' => hrows bs' (List.mem_cons_of_mem _ hbs')
    have hwrite : writeAll s fd (bs :: rows ++ [Word.octets w]) =
        writeAll (s.sysWrite fd bs).1 fd (rows ++ [Word.octets w]) := by
      cases rows <;> rfl
    rw [hwrite]
    exact ⟨hfirst.trans hrest, hcount⟩

end Sends

/-! ## The rows -/

namespace Server

def serverInfo (cfg : Config) (s : Server) : EsdServerInfo :=
  ⟨0, int32 cfg.esdAudioRate, s.esdAudioFormat⟩

/-- The name a player goes by. -/
def shownName (s : Server) (p : Ptr) : List Octet :=
  if (s.player p).IsStream then (s.player p).name else (s.sample (s.player p).parent).name

def playerInfo (s : Server) (p : Ptr) : EsdPlayerInfo :=
  let pl := s.player p
  ⟨int32 pl.sourceId, s.shownName p, int32 pl.rate, int32 pl.leftVolScale, int32 pl.rightVolScale,
    pl.format⟩

def sampleInfo (s : Server) (q : Ptr) : EsdSampleInfo :=
  let sm := s.sample q
  ⟨int32 sm.sampleId, sm.name, int32 sm.rate, int32 sm.leftVolScale, int32 sm.rightVolScale,
    sm.format, int32 sm.sampleLength⟩

/-- What a client is to know of the daemon. -/
def info (cfg : Config) (s : Server) : EsdInfo :=
  ⟨s.serverInfo cfg, (s.esdPlayersList.map s.playerInfo).reverse,
    (s.esdSamplesList.map s.sampleInfo).reverse⟩

end Server

theorem reads_word (w : Word) : Reads readInt (Word.octets w) w.toInt := by
  have hread := (reads_format w).map (f := BitVec.toInt)
  exact hread

theorem reads_playerInfo (id rate left right format : Word) {name : List Octet} (h : IsName name) :
    Reads readPlayerInfo [Word.octets id, nameArray name, Word.octets rate, Word.octets left,
      Word.octets right, Word.octets format].flatten
      ⟨id.toInt, name, rate.toInt, left.toInt, right.toInt, format⟩ := by
  refine (reads_word id).bind ((reads_name h).bind ((reads_word rate).bind ((reads_word left).bind
    ((reads_word right).bind ?_))))
  exact (reads_format format).bind (reads_pure _)

theorem reads_sampleInfo (id rate left right format length : Word) {name : List Octet}
    (h : IsName name) :
    Reads readSampleInfo [Word.octets id, nameArray name, Word.octets rate, Word.octets left,
      Word.octets right, Word.octets format, Word.octets length].flatten
      ⟨id.toInt, name, rate.toInt, left.toInt, right.toInt, format, length.toInt⟩ := by
  refine (reads_word id).bind ((reads_name h).bind ((reads_word rate).bind ((reads_word left).bind
    ((reads_word right).bind ?_))))
  exact (reads_format format).bind ((reads_word length).bind (reads_pure _))

theorem reads_serverInfo (version rate format : Word) :
    Reads readServerInfo [Word.octets version, Word.octets rate, Word.octets format].flatten
      ⟨version.toInt, rate.toInt, format⟩ := by
  refine (reads_word version).bind ((reads_word rate).bind ?_)
  exact (reads_format format).bind (reads_pure _)

theorem toInt_ofInt_eq (x : ℤ) : (BitVec.ofInt 32 x).toInt = int32 x := BitVec.toInt_ofInt x

theorem isName_nil : IsName [] := ⟨by decide, List.not_mem_nil⟩

section Rows

variable {cfg : Config} {env : PollEnv} {cl : EsdClient} {s t : Server} {c : Ptr}

variable (cfg) in
theorem esdProtoServerInfo_sends (h : (s.sockets (s.client c).fd).TakesWhole)
    (horder : (s.client c).swapByteOrder = false) :
    (∃ bs, Sends (s.client c).fd bs s (esdProtoServerInfo s cfg c).1 ∧
      Reads readServerInfo bs (s.serverInfo cfg)) ∧ (esdProtoServerInfo s cfg c).2 = true := by
  have hrow := writeAll_sends h
    [Word.octets 0#32, Word.octets (BitVec.ofInt 32 cfg.esdAudioRate)]
    (by simp [Word.octets, esdNameMax]) s.esdAudioFormat
  have hread := reads_serverInfo 0#32 (BitVec.ofInt 32 cfg.esdAudioRate) s.esdAudioFormat
  simp only [esdProtoServerInfo, horder, maybeSwap32, Bool.false_eq_true, if_false]
  refine ⟨⟨_, hrow.1, ?_⟩, decide_eq_true hrow.2⟩
  rwa [toInt_ofInt_eq] at hread

theorem Sends.playerRow {fd : ℤ} {bs : List Octet} (h : Sends fd bs s t) :
    playerRow cl t = playerRow cl s := by
  funext p
  simp only [Esound.playerRow, playerScales, h.player, h.sample]

theorem Sends.sampleRow {fd : ℤ} {bs : List Octet} (h : Sends fd bs s t) :
    sampleRow cl t = sampleRow cl s := by
  funext q
  simp only [Esound.sampleRow, sampleScales, h.sample]

/-- The order of a client that has the daemon's, and its row of a player. -/
theorem playerRow_eq (horder : cl.swapByteOrder = false) (s : Server) (p : Ptr) :
    playerRow cl s p =
      [Word.octets (BitVec.ofInt 32 (s.player p).sourceId), nameArray (s.shownName p),
        Word.octets (BitVec.ofInt 32 (s.player p).rate),
        Word.octets (BitVec.ofInt 32 (s.player p).leftVolScale),
        Word.octets (BitVec.ofInt 32 (s.player p).rightVolScale),
        Word.octets (s.player p).format] := by
  simp [playerRow, playerScales, Server.shownName, maybeSwap32, horder]

theorem sampleRow_eq (horder : cl.swapByteOrder = false) (s : Server) (q : Ptr) :
    sampleRow cl s q =
      [Word.octets (BitVec.ofInt 32 (s.sample q).sampleId), nameArray (s.sample q).name,
        Word.octets (BitVec.ofInt 32 (s.sample q).rate),
        Word.octets (BitVec.ofInt 32 (s.sample q).leftVolScale),
        Word.octets (BitVec.ofInt 32 (s.sample q).rightVolScale),
        Word.octets (s.sample q).format,
        Word.octets (BitVec.ofInt 32 (s.sample q).sampleLength)] := by
  simp [sampleRow, sampleScales, maybeSwap32, horder]

theorem Server.Named.shownName (h : s.Named) (p : Ptr) : IsName (s.shownName p) := by
  simp only [Server.shownName]
  split_ifs
  · exact h.1 p
  · exact h.2 _

theorem playerRow_reads (horder : cl.swapByteOrder = false) (h : s.Named) (p : Ptr) :
    Reads readPlayerInfo (playerRow cl s p).flatten (s.playerInfo p) := by
  rw [playerRow_eq horder]
  have hread := reads_playerInfo (BitVec.ofInt 32 (s.player p).sourceId)
    (BitVec.ofInt 32 (s.player p).rate) (BitVec.ofInt 32 (s.player p).leftVolScale)
    (BitVec.ofInt 32 (s.player p).rightVolScale) (s.player p).format (h.shownName p)
  simp only [toInt_ofInt_eq] at hread
  exact hread

theorem sampleRow_reads (horder : cl.swapByteOrder = false) (h : s.Named) (q : Ptr) :
    Reads readSampleInfo (sampleRow cl s q).flatten (s.sampleInfo q) := by
  rw [sampleRow_eq horder]
  have hread := reads_sampleInfo (BitVec.ofInt 32 (s.sample q).sampleId)
    (BitVec.ofInt 32 (s.sample q).rate) (BitVec.ofInt 32 (s.sample q).leftVolScale)
    (BitVec.ofInt 32 (s.sample q).rightVolScale) (s.sample q).format
    (BitVec.ofInt 32 (s.sample q).sampleLength) (h.2 q)
  simp only [toInt_ofInt_eq] at hread
  exact hread

theorem int_length_le (w : Word) : (Word.octets w).length ≤ esdNameMax := by
  simp [Word.octets, esdNameMax]

theorem writePlayers_sends (horder : cl.swapByteOrder = false) (ps : List Ptr) (scales : Word × Word)
    (h : (s.sockets cl.fd).TakesWhole) (hnames : s.Named) :
    ∃ last left right,
      Sends cl.fd (ps.flatMap (fun p => (playerRow cl s p).flatten) ++ last) s
        (writePlayers cl ps scales s).1 ∧
      Reads readPlayerInfo last ⟨0, [], 0, left, right, 0⟩ ∧
      (writePlayers cl ps scales s).2 = true := by
  induction ps generalizing s scales with
  | nil =>
    have hrow := writeAll_sends h
      [Word.octets 0#32, nameArray [], Word.octets 0#32, Word.octets scales.1, Word.octets scales.2]
      (by simp [Word.octets, nameArray, esdNameMax]) 0#32
    refine ⟨_, _, _, hrow.1, reads_playerInfo 0#32 0#32 scales.1 scales.2 0#32 isName_nil, ?_⟩
    exact decide_eq_true hrow.2
  | cons p ps ih =>
    have hname := nameArray_length (hnames.shownName p)
    have hrow := writeAll_sends h
      [Word.octets (BitVec.ofInt 32 (s.player p).sourceId), nameArray (s.shownName p),
        Word.octets (BitVec.ofInt 32 (s.player p).rate),
        Word.octets (BitVec.ofInt 32 (s.player p).leftVolScale),
        Word.octets (BitVec.ofInt 32 (s.player p).rightVolScale)]
      (by simp [int_length_le, hname]) (s.player p).format
    rw [List.cons_append, List.cons_append, List.cons_append, List.cons_append, List.cons_append,
      List.nil_append, ← playerRow_eq horder] at hrow
    obtain ⟨hsends, hcount⟩ := hrow
    obtain ⟨t, ht⟩ : ∃ t, (writeAll s cl.fd (playerRow cl s p)).1 = t := ⟨_, rfl⟩
    rw [ht] at hsends
    obtain ⟨last, left, right, hrest, hlast, hok⟩ := ih (playerScales cl s p) hsends.whole
      (hsends.named hnames)
    rw [hsends.playerRow] at hrest
    refine ⟨last, left, right, ?_, hlast, ?_⟩
    · simp only [writePlayers, hcount, if_true, ht, List.flatMap_cons, List.append_assoc]
      exact hsends.trans hrest
    · simp only [writePlayers, hcount, if_true, ht]
      exact hok

theorem writeSamples_sends (horder : cl.swapByteOrder = false) (qs : List Ptr) (scales : Word × Word)
    (h : (s.sockets cl.fd).TakesWhole) (hnames : s.Named) :
    ∃ last left right,
      Sends cl.fd (qs.flatMap (fun q => (sampleRow cl s q).flatten) ++ last) s
        (writeSamples cl qs scales s).1 ∧
      Reads readSampleInfo last ⟨0, [], 0, left, right, 0, 0⟩ ∧
      (writeSamples cl qs scales s).2 = true := by
  induction qs generalizing s scales with
  | nil =>
    have hrow := writeAll_sends h
      [Word.octets 0#32, nameArray [], Word.octets 0#32, Word.octets scales.1, Word.octets scales.2,
        Word.octets 0#32] (by simp [Word.octets, nameArray, esdNameMax]) 0#32
    refine ⟨_, _, _, hrow.1, reads_sampleInfo 0#32 0#32 scales.1 scales.2 0#32 0#32 isName_nil, ?_⟩
    exact decide_eq_true hrow.2
  | cons q qs ih =>
    have hname := nameArray_length (hnames.2 q)
    have hrow := writeAll_sends h
      [Word.octets (BitVec.ofInt 32 (s.sample q).sampleId), nameArray (s.sample q).name,
        Word.octets (BitVec.ofInt 32 (s.sample q).rate),
        Word.octets (BitVec.ofInt 32 (s.sample q).leftVolScale),
        Word.octets (BitVec.ofInt 32 (s.sample q).rightVolScale),
        Word.octets (s.sample q).format]
      (by simp [int_length_le, hname]) (BitVec.ofInt 32 (s.sample q).sampleLength)
    rw [List.cons_append, List.cons_append, List.cons_append, List.cons_append, List.cons_append,
      List.cons_append, List.nil_append, ← sampleRow_eq horder] at hrow
    obtain ⟨hsends, hcount⟩ := hrow
    obtain ⟨t, ht⟩ : ∃ t, (writeAll s cl.fd (sampleRow cl s q)).1 = t := ⟨_, rfl⟩
    rw [ht] at hsends
    obtain ⟨last, left, right, hrest, hlast, hok⟩ := ih (sampleScales cl s q) hsends.whole
      (hsends.named hnames)
    rw [hsends.sampleRow] at hrest
    refine ⟨last, left, right, ?_, hlast, ?_⟩
    · simp only [writeSamples, hcount, if_true, ht, List.flatMap_cons, List.append_assoc]
      exact hsends.trans hrest
    · simp only [writeSamples, hcount, if_true, ht]
      exact hok

variable (cfg env) in
/-- The reply for a client of the daemon's byte order, and what the library reads in it. -/
theorem esdProtoAllInfo_sends (h : (s.sockets (s.client c).fd).TakesWhole)
    (horder : (s.client c).swapByteOrder = false) (hnames : s.Named)
    (hplayers : ∀ p ∈ s.esdPlayersList, 0 < int32 (s.player p).sourceId)
    (hsamples : ∀ q ∈ s.esdSamplesList, 0 < int32 (s.sample q).sampleId) :
    (∃ bs, Sends (s.client c).fd bs s (esdProtoAllInfo cfg env s c).1 ∧
      Reads esdGetAllInfo bs (s.info cfg)) ∧ (esdProtoAllInfo cfg env s c).2 = true := by
  obtain ⟨⟨bs, hserver, hreadServer⟩, hok⟩ := esdProtoServerInfo_sends cfg h horder
  obtain ⟨⟨t, ok⟩, ht⟩ : ∃ r, esdProtoServerInfo s cfg c = r := ⟨_, rfl⟩
  rw [ht] at hserver hok
  dsimp only at hserver hok
  subst hok
  obtain ⟨last, left, right, hplayerRows, hreadLast, hok⟩ := writePlayers_sends horder
    t.esdPlayersList env.stackInts hserver.whole (hserver.named hnames)
  obtain ⟨⟨u, ok⟩, hu⟩ : ∃ r, writePlayers (s.client c) t.esdPlayersList env.stackInts t = r := ⟨_, rfl⟩
  rw [hu] at hplayerRows hok
  dsimp only at hplayerRows hok
  subst hok
  obtain ⟨last', left', right', hsampleRows, hreadLast', hok⟩ := writeSamples_sends horder
    u.esdSamplesList (lastScales (s.client c) u env.stackInts) hplayerRows.whole
    (hplayerRows.named (hserver.named hnames))
  have hps : t.esdPlayersList = s.esdPlayersList := by rw [hserver.rest]
  have hqs : u.esdSamplesList = s.esdSamplesList := by rw [hplayerRows.rest, hserver.rest]
  rw [hserver.playerRow, hps] at hplayerRows
  rw [hplayerRows.sampleRow, hserver.sampleRow, hqs] at hsampleRows
  have hreply : esdProtoAllInfo cfg env s c = writeSamples (s.client c) u.esdSamplesList
      (lastScales (s.client c) u env.stackInts) u := by
    simp only [esdProtoAllInfo, ht, hu]
  have hplayerList : Reads (allRows readPlayerInfo fun info => 0 < info.sourceId)
      (s.esdPlayersList.flatMap (fun p => (playerRow (s.client c) s p).flatten) ++ last)
      (s.esdPlayersList.map s.playerInfo).reverse :=
    reads_allRows hreadLast (by simp) _ (fun p _ => playerRow_reads horder hnames p)
      (fun p hp => decide_eq_true (hplayers p hp)) fun p _ => by simp [playerRow_eq horder, Word.octets]
  have hsampleList : Reads (allRows readSampleInfo fun info => 0 < info.sampleId)
      (s.esdSamplesList.flatMap (fun q => (sampleRow (s.client c) s q).flatten) ++ last')
      (s.esdSamplesList.map s.sampleInfo).reverse :=
    reads_allRows hreadLast' (by simp) _ (fun q _ => sampleRow_reads horder hnames q)
      (fun q hq => decide_eq_true (hsamples q hq)) fun q _ => by simp [sampleRow_eq horder, Word.octets]
  rw [hreply, hqs]
  refine ⟨⟨_, (hserver.trans hplayerRows).trans hsampleRows, ?_⟩, hqs ▸ hok⟩
  have hend := hsampleList.bind (f := fun samples => pure (EsdInfo.mk (s.serverInfo cfg)
    (s.esdPlayersList.map s.playerInfo).reverse samples)) (reads_pure _)
  rw [List.append_nil] at hend
  rw [List.append_assoc]
  exact hreadServer.bind (hplayerList.bind hend)

/-- For a client of the daemon's byte order that takes every write whole, the reply to
`ALL_INFO` is read back without a rest as what the daemon knows: in every state that a run
reaches, from a state whose names are strings in their arrays, and in which the ids of the
players and of the samples are positive ints. -/
theorem all_info_round_trip {ok : Server → Action → Prop} {s₀ : Server} {as : List Action}
    (hstart : s₀.Named) (hrun : Runs cfg ok s₀ as s)
    (horder : (s.client c).swapByteOrder = false)
    (hwhole : (s.sockets (s.client c).fd).TakesWhole)
    (hplayers : ∀ p ∈ s.esdPlayersList, 0 < int32 (s.player p).sourceId)
    (hsamples : ∀ q ∈ s.esdSamplesList, 0 < int32 (s.sample q).sampleId) :
    (esdProtoAllInfo cfg env s c).2 = true ∧
      esdGetAllInfo (writtenSince (s.client c).fd s (esdProtoAllInfo cfg env s c).1) =
        some (s.info cfg, []) := by
  have hnames : s.Named := hrun.invariant Server.Named (fun _ _ _ h _ hstep => step_named h hstep) hstart
  obtain ⟨⟨bs, hsends, hreads⟩, hok⟩ := esdProtoAllInfo_sends cfg env hwhole horder
    hnames hplayers hsamples
  refine ⟨hok, ?_⟩
  rw [hsends.since]
  have hread := hreads []
  rwa [List.append_nil] at hread

end Rows

theorem Server.blank_named : Server.blank.Named := ⟨fun _ => isName_nil, fun _ => isName_nil⟩

/-- The client that has a sample played asks who is playing. -/
theorem all_info_round_trip_playing :
    ∃ t, Runs .smallBlocks NoReset .blank cachingRun t ∧
      (t.info .smallBlocks).playerList.length = 1 ∧ (t.info .smallBlocks).sampleList.length = 1 ∧
      esdGetAllInfo (writtenSince 5 t (esdProtoAllInfo .smallBlocks (.allocating 0) t 1).1) =
        some (t.info .smallBlocks, []) := by
  refine ⟨_, Run.of_isSome cachingRun_ends, by decide +kernel, by decide +kernel, ?_⟩
  have hround : (esdProtoAllInfo .smallBlocks (.allocating 0) _ 1).2 = true ∧ _ :=
    all_info_round_trip Server.blank_named (Run.of_isSome cachingRun_ends) (by decide +kernel)
      (by decide +kernel) (by decide +kernel) (by decide +kernel)
  have hfd : (((exec (step .smallBlocks) NoReset .blank cachingRun).get cachingRun_ends).client 1).fd = 5 := by
    decide +kernel
  rw [hfd] at hround
  exact hround.2

end Esound
