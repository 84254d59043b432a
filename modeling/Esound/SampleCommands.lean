import Esound.Complete
import Esound.Interrupts
import Esound.Playback

/-!
# Playing, looping and stopping samples

The three commands answer with the id of the request. What they came to is kept in another
variable, and a stop takes the first player of the sample, whatever it is doing.
-/

open Library.Buffer Library.Loop Library.Transition

namespace Esound

/-! ## What is reported -/

inductive SampleCommand
  | play | loop | stop

namespace SampleCommand

variable (cfg : Config) (env : PollEnv) (s : Server) (c : Ptr)

/-- `play_sample` or `stop_sample`, with the id of the request. -/
def operate : SampleCommand → Server × Bool
  | play => playSample cfg env s ((s.client c).param 0) false
  | loop => playSample cfg env s ((s.client c).param 0) true
  | stop => stopSample s ((s.client c).param 0)

def handle : SampleCommand → Server × Bool
  | play => esdProtoSamplePlay cfg env s c
  | loop => esdProtoSampleLoop cfg env s c
  | stop => esdProtoSampleStop s c

/-- There is a sample to play and room for a player of it, or there is a player to stop. -/
def CanDo (id : ℤ) : SampleCommand → Prop
  | play => ∃ q ∈ findSample s id, PlayerRoom cfg env (s.sample q) false
  | loop => ∃ q ∈ findSample s id, PlayerRoom cfg env (s.sample q) true
  | stop => ∃ p ∈ s.esdPlayersList, (s.player p).IsSample ∧ (s.player p).sourceId = id

/-- A failure leaves everything as it was, and the word written is 0 exactly then; otherwise it
is the id as it was sent. -/
structure ReportsFailure (cmd : SampleCommand) : Prop where
  unchanged : (cmd.operate cfg env s c).2 = false → (cmd.operate cfg env s c).1 = s
  reply : ∀ w : Word,
    (cmd.handle cfg env s c).1.events = s.events ++ [.wrote (s.client c).fd (Word.octets w)] →
      (w = 0 ↔ (cmd.operate cfg env s c).2 = false) ∧
        ((cmd.operate cfg env s c).2 = true → w = (s.client c).protoData.int 0)

end SampleCommand

section Reports

variable {cfg : Config} {env : PollEnv} {s : Server} {c : Ptr} {id : ℤ} {loop : Bool}

theorem Word.octets_injective : Function.Injective Word.octets := by
  intro w w' h
  simp only [Word.octets, List.cons.injEq, and_true] at h
  obtain ⟨h₀, h₁, h₂, h₃⟩ := h
  rw [← Word.ofOctets_octets w, ← Word.ofOctets_octets w', h₀, h₁, h₂, h₃]

theorem newSamplePlayer_quiet : (newSamplePlayer cfg env s id loop).1.client = s.client ∧
    (newSamplePlayer cfg env s id loop).1.sockets = s.sockets ∧
    (newSamplePlayer cfg env s id loop).1.events = s.events := by
  simp only [newSamplePlayer]
  split
  · exact ⟨rfl, rfl, rfl⟩
  · split_ifs
    · exact ⟨rfl, rfl, rfl⟩
    · split <;> exact ⟨rfl, rfl, rfl⟩
    · split <;> exact ⟨rfl, rfl, rfl⟩

theorem playSample_quiet : (playSample cfg env s id loop).1.client = s.client ∧
    (playSample cfg env s id loop).1.sockets = s.sockets ∧
    (playSample cfg env s id loop).1.events = s.events := by
  have hnew : (newSamplePlayer cfg env s id loop).1.client = s.client ∧ _ := newSamplePlayer_quiet
  simp only [playSample]
  split_ifs
  · exact hnew
  · exact hnew

variable (s id) in
theorem stopSample_quiet : (stopSample s id).1.client = s.client ∧
    (stopSample s id).1.sockets = s.sockets ∧ (stopSample s id).1.events = s.events ∧
    (stopSample s id).1.esdPlayersList = s.esdPlayersList := by
  simp only [stopSample]
  split <;> exact ⟨rfl, rfl, rfl, rfl⟩

/-- Playing comes to something exactly if nothing keeps the player from being made. -/
theorem playSample_ok_iff : (playSample cfg env s id loop).2 = true ↔
    ∃ q ∈ findSample s id, PlayerRoom cfg env (s.sample q) loop := by
  by_cases hroom : ∃ q ∈ findSample s id, PlayerRoom cfg env (s.sample q) loop
  · obtain ⟨q, hfind, hq⟩ := hroom
    obtain ⟨hp, -⟩ := newSamplePlayer_room cfg hfind hq
    have hok : (playSample cfg env s id loop).2 = true := by
      simp only [playSample, hp, hq.1, if_false]
    exact iff_of_true hok ⟨q, hfind, hq⟩
  · have hnone : newSamplePlayer cfg env s id loop = (s, 0) :=
      newSamplePlayer_noRoom fun q hq hq' => hroom ⟨q, hq, hq'⟩
    have hfail : (playSample cfg env s id loop).2 ≠ true := by
      simp only [playSample, hnone, if_true]
      decide
    exact iff_of_false hfail hroom

theorem playSample_fails (h : (playSample cfg env s id loop).2 = false) :
    (playSample cfg env s id loop).1 = s := by
  have hroom : ¬ ∃ q ∈ findSample s id, PlayerRoom cfg env (s.sample q) loop := by
    rw [← playSample_ok_iff, h]
    decide
  have hnone : newSamplePlayer cfg env s id loop = (s, 0) :=
    newSamplePlayer_noRoom fun q hq hq' => hroom ⟨q, hq, hq'⟩
  simp only [playSample, hnone, if_true]

theorem stopSample_ok_iff : (stopSample s id).2 = true ↔
    ∃ p ∈ s.esdPlayersList, (s.player p).IsSample ∧ (s.player p).sourceId = id := by
  simp only [stopSample]
  split
  · rename_i hnone
    simpa using hnone
  · rename_i p hfind
    have hp := List.find?_some hfind
    exact iff_of_true rfl ⟨p, List.mem_of_find?_eq_some hfind, of_decide_eq_true hp⟩

theorem stopSample_fails (h : (stopSample s id).2 = false) : (stopSample s id).1 = s := by
  simp only [stopSample] at h ⊢
  split at h
  · rfl
  · simp at h

namespace SampleCommand

variable (cmd : SampleCommand)

variable (cfg env s c) in
theorem operate_quiet : (cmd.operate cfg env s c).1.client = s.client ∧
    (cmd.operate cfg env s c).1.sockets = s.sockets ∧ (cmd.operate cfg env s c).1.events = s.events := by
  cases cmd with
  | play | loop => exact playSample_quiet
  | stop =>
    obtain ⟨hclient, hsockets, hevents, -⟩ := stopSample_quiet s ((s.client c).param 0)
    exact ⟨hclient, hsockets, hevents⟩

theorem operate_ok_iff : (cmd.operate cfg env s c).2 = true ↔
    cmd.CanDo cfg env s ((s.client c).param 0) := by
  cases cmd with
  | play | loop => exact playSample_ok_iff
  | stop => exact stopSample_ok_iff

theorem operate_fails (h : (cmd.operate cfg env s c).2 = false) : (cmd.operate cfg env s c).1 = s := by
  cases cmd with
  | play | loop => exact playSample_fails h
  | stop => exact stopSample_fails h

/-- The handlers write the id of the request, whatever the operation came to. -/
theorem handle_events : (cmd.handle cfg env s c).1.events = s.events ++
    [.wrote (s.client c).fd ((Word.octets ((s.client c).protoData.int 0)).take
      ((s.sockets (s.client c).fd).write (Word.octets ((s.client c).protoData.int 0))).1.toNat)] := by
  obtain ⟨hclient, hsockets, hevents⟩ := cmd.operate_quiet cfg env s c
  have hreply : cmd.handle cfg env s c = replyId (cmd.operate cfg env s c).1 c := by
    cases cmd <;> rfl
  rw [hreply, replyId, Server.writeInt, Server.sysWrite, hclient, hsockets, hevents]

end SampleCommand

theorem Socket.takesInt_of_take {k : Socket} {w w' : Word}
    (h : (Word.octets w).take (k.write (Word.octets w)).1.toNat = Word.octets w') :
    k.TakesInt ∧ w = w' := by
  have hlength := congrArg List.length h
  have hfour : ∀ x, (Word.octets x).length = 4 := fun _ => rfl
  rw [List.length_take, hfour, hfour] at hlength
  have hle : (k.write (Word.octets w)).1 ≤ 4 := by
    simp only [Socket.write, hfour]
    split
    · rfl
    · dsimp only
      split_ifs <;> omega
  rw [List.take_of_length_le (by rw [hfour]; omega)] at h
  exact ⟨(k.takesInt_iff w).mpr (by omega), Word.octets_injective h⟩

variable (cfg env s c) in
/-- A command reports failure exactly if its reply is not taken, or the id sent is 0 exactly when
there is nothing it can do. -/
theorem reportsFailure_iff (cmd : SampleCommand) :
    cmd.ReportsFailure cfg env s c ↔
      ((s.sockets (s.client c).fd).TakesInt →
        ((s.client c).protoData.int 0 = 0 ↔ ¬ cmd.CanDo cfg env s ((s.client c).param 0))) := by
  have hfailed : (cmd.operate cfg env s c).2 = false ↔
      ¬ cmd.CanDo cfg env s ((s.client c).param 0) := by
    rw [← cmd.operate_ok_iff, Bool.not_eq_true]
  have hevents : (cmd.handle cfg env s c).1.events = _ := cmd.handle_events
  constructor
  · intro h htakes
    have hall := ((s.sockets (s.client c).fd).takesInt_iff ((s.client c).protoData.int 0)).mp htakes
    rw [hall] at hevents
    rw [← hfailed]
    exact (h.reply _ hevents).1
  · intro h
    refine ⟨cmd.operate_fails, fun w hw => ?_⟩
    rw [hevents] at hw
    have hwrote := List.append_cancel_left hw
    simp only [List.cons.injEq, Event.wrote.injEq, true_and, and_true] at hwrote
    obtain ⟨htakes, rfl⟩ := Socket.takesInt_of_take hwrote
    rw [hfailed]
    exact ⟨h htakes, fun _ => rfl⟩

end Reports

/-- A client that knows no sample asks for 7 to be played. -/
def unknownRun : List Action :=
  [.accept 1 5 (.sending [handshake 7, Word.octets 8#32, Word.octets 7#32]),
    .poll 1 (.allocating 0), .poll 1 (.allocating 0), .poll 1 (.allocating 2)]

theorem unknownRun_ends : (exec (step .smallBlocks) NoReset .blank unknownRun).isSome := by
  decide +kernel

/-- Where the parameters of the request have been read. -/
def unknownAsked : Server :=
  Server.blank.setClient 1 { Server.blank.client 1 with protoData := store (fun _ => 0) 0 (Word.octets 7#32) }

/-- The sample that is not there is confirmed. -/
theorem unknown_sample_confirmed :
    ¬ SampleCommand.play.ReportsFailure .smallBlocks (.allocating 2) unknownAsked 1 ∧
      ∃ t, Runs .smallBlocks NoReset .blank unknownRun t ∧ t.esdSamplesList = [] ∧
        t.events.getLast? = some (.wrote 5 (Word.octets 7#32)) := by
  refine ⟨fun h => ?_, _, Run.of_isSome unknownRun_ends, by decide +kernel, by decide +kernel⟩
  have hreply := (reportsFailure_iff .smallBlocks (.allocating 2) unknownAsked 1 .play).mp h
  have hnone : findSample unknownAsked ((unknownAsked.client 1).param 0) = none := by decide +kernel
  have hzero := (hreply (by decide +kernel)).mpr fun hcan => by
    obtain ⟨q, hq, -⟩ := hcan
    simp [hnone] at hq
  exact absurd hzero (by decide +kernel)

/-! ## Stopping loops -/

/-- A player that loops the sample with this id. -/
def EsdPlayer.Loops (pl : EsdPlayer) (id : ℤ) : Prop :=
  pl.IsSample ∧ pl.sourceId = id ∧ pl.format &&& esdMaskFunc = esdLoop

instance (pl : EsdPlayer) (id : ℤ) : Decidable (pl.Loops id) := inferInstanceAs (Decidable (_ ∧ _))

/-- The players in the list that loop the sample. -/
def loopsOf (s : Server) (id : ℤ) : Finset Ptr :=
  s.esdPlayersList.toFinset.filter fun p => (s.player p).Loops id

/-- A stop that succeeds makes one of the loops no loop, and nothing else happens to a player. -/
def StopsOne (s : Server) (id : ℤ) : Prop :=
  (stopSample s id).2 = true → ∃ p ∈ loopsOf s id,
    ((stopSample s id).1.player p).format &&& esdMaskFunc ≠ esdLoop ∧
      ∀ q ≠ p, (stopSample s id).1.player q = s.player q

/-- The clients ask for a stop one after the other. -/
def stopAll (s : Server) (cs : List Ptr) : Server := cs.foldl (fun s c => (esdProtoSampleStop s c).1) s

/-- So many requests stop as many loops. -/
def StopsAsMany (s : Server) (id : ℤ) (cs : List Ptr) : Prop :=
  (loopsOf (stopAll s cs) id).card + cs.length = (loopsOf s id).card

instance (s : Server) (id : ℤ) (cs : List Ptr) : Decidable (StopsAsMany s id cs) :=
  inferInstanceAs (Decidable (_ = _))

/-- The first player of the sample in the list. -/
def firstPlayerOf (s : Server) (id : ℤ) : Option Ptr :=
  s.esdPlayersList.find? fun p => (s.player p).IsSample ∧ (s.player p).sourceId = id

def FirstLoops (s : Server) (id : ℤ) : Prop := ∀ p ∈ firstPlayerOf s id, (s.player p).Loops id

instance (s : Server) (id : ℤ) : Decidable (FirstLoops s id) :=
  inferInstanceAs (Decidable (∀ p ∈ firstPlayerOf s id, _))

section Stopping

variable {s t : Server} {id : ℤ} {p c : Ptr} {cs : List Ptr}

/-- The player without its loop setting. -/
def EsdPlayer.stopped (pl : EsdPlayer) : EsdPlayer :=
  { pl with format := (pl.format &&& ~~~esdMaskFunc) ||| esdStop }

theorem EsdPlayer.stopped_func (pl : EsdPlayer) : pl.stopped.format &&& esdMaskFunc = 0#32 := by
  simp only [stopped, esdMaskFunc, esdStop]
  apply BitVec.eq_of_getLsbD_eq
  intro i hi
  interval_cases i <;> simp

theorem EsdPlayer.stopped_mode (pl : EsdPlayer) :
    pl.stopped.format &&& esdMaskMode = pl.format &&& esdMaskMode := by
  simp only [stopped, esdMaskFunc, esdMaskMode, esdStop]
  apply BitVec.eq_of_getLsbD_eq
  intro i hi
  interval_cases i <;> simp

theorem EsdPlayer.stopped_stopped (pl : EsdPlayer) : pl.stopped.stopped = pl.stopped := by
  simp only [stopped, esdStop, BitVec.or_zero, BitVec.and_assoc, BitVec.and_self]

theorem stopSample_some (h : firstPlayerOf s id = some p) :
    stopSample s id = (s.setPlayer p (s.player p).stopped, true) := by
  rw [stopSample]
  rw [firstPlayerOf] at h
  rw [h]
  rfl

/-- The player is stopped, and the list and the requests are as they were. -/
structure Stopped (p : Ptr) (s t : Server) : Prop where
  list : t.esdPlayersList = s.esdPlayersList
  client : t.client = s.client
  player : t.player = Function.update s.player p (s.player p).stopped

theorem Stopped.trans {u : Server} (h : Stopped p s t) (h' : Stopped p t u) : Stopped p s u := by
  refine ⟨h'.list.trans h.list, h'.client.trans h.client, ?_⟩
  rw [h'.player, h.player, Function.update_self, EsdPlayer.stopped_stopped, Function.update_idem]

theorem Stopped.first (h : Stopped p s t) : firstPlayerOf t id = firstPlayerOf s id := by
  have hsame : ∀ q, ((t.player q).IsSample ∧ (t.player q).sourceId = id) ↔
      ((s.player q).IsSample ∧ (s.player q).sourceId = id) := by
    intro q
    rw [h.player]
    rcases eq_or_ne q p with rfl | hne
    · rw [Function.update_self, EsdPlayer.IsSample, EsdPlayer.stopped_mode]
      rfl
    · rw [Function.update_of_ne hne]
  simp only [firstPlayerOf, h.list, hsame]

theorem Stopped.loopsOf (h : Stopped p s t) : loopsOf t id = (loopsOf s id).erase p := by
  ext q
  simp only [Esound.loopsOf, Finset.mem_erase, Finset.mem_filter, List.mem_toFinset, h.list, h.player]
  rcases eq_or_ne q p with rfl | hne
  · have hnot : ¬ (s.player q).stopped.Loops id := by
      rintro ⟨-, -, hfunc⟩
      rw [EsdPlayer.stopped_func] at hfunc
      exact absurd hfunc (by decide)
    simp [hnot]
  · simp [hne]

theorem esdProtoSampleStop_stopped (hfirst : firstPlayerOf s id = some p)
    (hid : (s.client c).param 0 = id) : Stopped p s (esdProtoSampleStop s c).1 := by
  rw [esdProtoSampleStop, hid, stopSample_some hfirst]
  exact ⟨rfl, rfl, rfl⟩

theorem Stopped.stopAll (h : Stopped p s t) (hfirst : firstPlayerOf s id = some p)
    (hid : ∀ c ∈ cs, (s.client c).param 0 = id) : Stopped p s (stopAll t cs) := by
  induction cs generalizing t with
  | nil => exact h
  | cons c cs ih =>
    have hc : (t.client c).param 0 = id := by
      rw [h.client]
      exact hid c List.mem_cons_self
    have hstep := esdProtoSampleStop_stopped (h.first.trans hfirst) hc
    exact ih (h.trans hstep) fun c' hc' => hid c' (List.mem_cons_of_mem c hc')

theorem exists_first (h : (loopsOf s id).Nonempty) : ∃ p, firstPlayerOf s id = some p := by
  obtain ⟨q, hq⟩ := h
  obtain ⟨hlisted, hsample, hid, -⟩ := Finset.mem_filter.mp hq
  rw [← Option.isSome_iff_exists, firstPlayerOf, List.find?_isSome]
  exact ⟨q, List.mem_toFinset.mp hlisted, decide_eq_true ⟨hsample, hid⟩⟩

theorem firstLoops_iff (hfirst : firstPlayerOf s id = some p) :
    FirstLoops s id ↔ p ∈ loopsOf s id := by
  have hlisted : p ∈ s.esdPlayersList := List.mem_of_find?_eq_some hfirst
  simp [FirstLoops, hfirst, loopsOf, hlisted]

theorem stopsOne_iff (hfirst : firstPlayerOf s id = some p) : StopsOne s id ↔ p ∈ loopsOf s id := by
  rw [StopsOne, stopSample_some hfirst]
  constructor
  · intro h
    obtain ⟨q, hq, hfunc, -⟩ := h rfl
    rcases eq_or_ne q p with rfl | hne
    · exact hq
    · rw [Server.player_setPlayer, Function.update_of_ne hne] at hfunc
      exact absurd (Finset.mem_filter.mp hq).2.2.2 hfunc
  · intro hp _
    refine ⟨p, hp, ?_, fun q hne => Function.update_of_ne hne _ _⟩
    rw [Server.player_setPlayer, Function.update_self, EsdPlayer.stopped_func]
    decide

/-- A stop stops a loop exactly if the first player of the sample loops. Whatever loops, more
than one request never stops as many of them. -/
theorem stops_loops_iff (h : (loopsOf s id).Nonempty) :
    (StopsOne s id ↔ FirstLoops s id) ∧
      ∀ cs, (∀ c ∈ cs, (s.client c).param 0 = id) →
        (StopsAsMany s id cs ↔ cs = [] ∨ cs.length = 1 ∧ FirstLoops s id) := by
  obtain ⟨p, hfirst⟩ := exists_first h
  rw [stopsOne_iff hfirst, firstLoops_iff hfirst]
  refine ⟨Iff.rfl, fun cs hid => ?_⟩
  cases cs with
  | nil => simp [StopsAsMany, stopAll]
  | cons c cs =>
    have hstep := esdProtoSampleStop_stopped hfirst (hid c List.mem_cons_self)
    have hall : Stopped p s (stopAll s (c :: cs)) :=
      hstep.stopAll hfirst fun c' hc' => hid c' (List.mem_cons_of_mem c hc')
    have hcard : 0 < (loopsOf s id).card := h.card_pos
    rw [StopsAsMany, hall.loopsOf]
    simp only [reduceCtorEq, false_or]
    by_cases hp : p ∈ loopsOf s id
    · rw [Finset.card_erase_of_mem hp]
      simp only [hp, and_true]
      omega
    · rw [Finset.erase_eq_of_notMem hp]
      simp only [hp, and_false, iff_false, List.length_cons]
      omega

end Stopping

/-- A client caches a sample and has it looped twice. -/
def twoLoopsRun : List Action :=
  [.accept 1 5 (.sending (handshake 7 :: cachingRequest playFormat [1, 2, 3, 4] ++
      [Word.octets 9#32, Word.octets 1#32, Word.octets 9#32, Word.octets 1#32])),
    .poll 1 (.allocating 0), .poll 1 (.allocating 0), .poll 1 (.allocating 2),
    .poll 1 (.allocating 0), .poll 1 (.allocating 10), .poll 1 (.allocating 0), .poll 1 (.allocating 11)]

theorem twoLoopsRun_ends : (exec (step .smallBlocks) NoReset .blank twoLoopsRun).isSome := by
  decide +kernel

def twoLoops : Server := (exec (step .smallBlocks) NoReset .blank twoLoopsRun).get twoLoopsRun_ends

theorem stops_loops_iff_first : StopsOne twoLoops 1 ∧ StopsAsMany twoLoops 1 [1] := by
  have hloops : (loopsOf twoLoops 1).Nonempty := by
    rw [← Finset.card_pos]
    decide +kernel
  have hfirst : FirstLoops twoLoops 1 := by decide +kernel
  obtain ⟨hone, hmany⟩ := stops_loops_iff hloops
  exact ⟨hone.mpr hfirst, (hmany [1] (by decide +kernel)).mpr (.inr ⟨rfl, hfirst⟩)⟩

/-- The second stop finds the player that the first one has stopped, and the other loops on. -/
theorem second_stop_idle :
    Runs .smallBlocks NoReset .blank twoLoopsRun twoLoops ∧ loopsOf twoLoops 1 = {10, 11} ∧
      ¬ StopsOne (stopAll twoLoops [1]) 1 ∧ loopsOf (stopAll twoLoops [1]) 1 = {10} ∧
      loopsOf (stopAll twoLoops [1, 1]) 1 = {10} := by
  have hfirst : firstPlayerOf (stopAll twoLoops [1]) 1 = some 11 := by decide +kernel
  have hloops : 11 ∉ loopsOf (stopAll twoLoops [1]) 1 := by decide +kernel
  exact ⟨Run.of_isSome twoLoopsRun_ends, by decide +kernel, (stopsOne_iff hfirst).not.mpr hloops,
    by decide +kernel, by decide +kernel⟩

end Esound
