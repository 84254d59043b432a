import Esound.AuthFile
import Esound.SampleIds

/-!
# One home directory

Programs that share an authorization file, at a daemon that hears no other keys.
-/

open Library.Buffer Library.Transition

namespace Esound

/-- The requests that nothing but their key decides. -/
def Proto.keyed : List Proto := [.connect, .lock, .unlock]

/-- Whatever came with a key was sent by a call with this one. -/
def AllSent (key : AuthKey) (log : List Call) : Prop :=
  ∀ c request protoData ok, .handled c request protoData ok ∈ log → request.Authorizes →
    protoData <+: key.message

/-- The key is the owner's if there is one, and was never refused. -/
structure Welcoming (key : AuthKey) (s : Server) : Prop where
  owner : s.gate.owned = true → s.gate.key = key.octets
  verdicts : ∀ c request protoData ok, .handled c request protoData ok ∈ s.calls →
    request ∈ Proto.keyed → ok = true

section Daemon

variable {cfg : Config} {env : PollEnv} {key : AuthKey} {s t : Server} {c : Ptr} {request : Proto}
  {r : Server × Bool}

theorem authorizes_of_keyed (h : request ∈ Proto.keyed) : request.Authorizes := by
  simp only [Proto.keyed, List.mem_cons, List.not_mem_nil, or_false] at h
  rcases h with rfl | rfl | rfl <;> exact trivial

theorem AuthKey.message_length (key : AuthKey) : key.message.length = esdKeyLen + 4 := by
  simp [message, esdSendAuth, key.length_eq, Word.octets]

theorem AuthKey.keyIn_message (key : AuthKey) : keyIn key.message = key.octets := by
  rw [keyIn, ← key.length_eq]
  exact List.take_left

/-- A request that is as the call sent it. -/
theorem AuthKey.received {m : Mem} (h : request.Authorizes)
    (hsent : load m 0 request.dataLength.toNat <+: key.message) :
    load m 0 esdKeyLen = key.octets ∧ m.int esdKeyLen = esdEndianKey := by
  have hlength : request.dataLength.toNat = esdKeyLen + 4 := by
    cases request <;> first | exact h.elim | rfl
  have hwhole : load m 0 request.dataLength.toNat = key.message :=
    hsent.eq_of_length (by rw [load_length, hlength, key.message_length])
  refine ⟨?_, ?_⟩
  · rw [← keyIn_load m h, hwhole, key.keyIn_message]
  · have hword := Word.int_store_within (fun _ => 0) key.octets [] esdEndianKey
    rw [key.length_eq, List.append_nil] at hword
    rw [← wordIn_load (n := request.dataLength.toNat) (by omega), hwhole]
    exact hword

theorem handler_welcomes (hkeyed : request ∈ Proto.keyed) (howner : s.gate.Owner (s.client c).key)
    (hendian : (s.client c).protoData.int esdKeyLen = esdEndianKey)
    (h : handler cfg env request s c = some r) : r.2 = true := by
  have hverdict : ∃ t, esdValidateSource s c (s.client c).key true = (t, true) := by
    rcases esdValidateSource_cases s c (s.client c).key with ⟨hnot, -⟩ | ⟨-, t, ht, -⟩
    · exact absurd howner hnot
    · exact ⟨t, ht⟩
  obtain ⟨t, ht⟩ := hverdict
  simp only [Proto.keyed, List.mem_cons, List.not_mem_nil, or_false] at hkeyed
  rcases hkeyed with rfl | rfl | rfl <;> cases h
  · obtain ⟨u, hu, -⟩ := esdProtoConnect_grants howner hendian
    rw [hu]
  · simp only [esdProtoLock, ht]
  · simp only [esdProtoUnlock, ht]

theorem Gate.after_key {g : Gate} {octets : List Octet} (h : g.owned = true → g.key = octets)
    (hafter : (g.after request octets).owned = true) : (g.after request octets).key = octets := by
  have hclaim : (g.claim octets).key = octets := by
    unfold claim
    split_ifs with howned
    · exact h howned
    · rfl
  cases request with
  | connect | standby | resume => exact hclaim
  | lock | unlock =>
    simp only [after] at hafter ⊢
    split_ifs at hafter ⊢
    · exact hclaim
    · exact h hafter
  | _ => exact h hafter

/-- The client's turn handles a request as the call sent it. -/
theorem Welcoming.handled (hw : s.objects.WellFormed) (hs : Welcoming key s) {u : Server}
    (hc : c ∈ s.esdClientsList) (fresh : Action.Fresh s env.malloc) (hheard : Heard c s u)
    (state : (u.client c).state = .nextRequest) (h : handler cfg env request u c = some r)
    (hsent : AllSent key (r.1.record
      (.handled c request (load (u.client c).protoData 0 request.dataLength.toNat) r.2)).calls) :
    Welcoming key (r.1.record
      (.handled c request (load (u.client c).protoData 0 request.dataLength.toNat) r.2)) := by
  obtain ⟨hlist, hplayers, hsamples⟩ := hheard.lists
  have hobeys := handler_obeys (hheard.wellFormed hw) (hlist ▸ hc) (hplayers ▸ fresh.1)
    (hsamples ▸ fresh.2) (by simp [state]) h
  have hgate : u.gate = s.gate := gate_of_ledger hheard.ledger
  have hcalls : r.1.calls = s.calls := hobeys.calls.trans (calls_of_ledger hheard.ledger)
  have hkey : request.Authorizes → (u.client c).key = key.octets ∧
      (u.client c).protoData.int esdKeyLen = esdEndianKey := fun hauth =>
    key.received hauth (hsent c request _ r.2 (by simp [Server.record]) hauth)
  have howner : request.Authorizes → u.gate.Owner (u.client c).key := fun hauth => by
    rw [(hkey hauth).1, hgate]
    cases howned : s.gate.owned with
    | false => exact .inl howned
    | true => exact .inr (hs.owner howned)
  refine ⟨?_, fun d request' protoData ok hmem hkeyed => ?_⟩
  · change r.1.gate.owned = true → r.1.gate.key = key.octets
    rw [hobeys.gate, hgate]
    by_cases hauth : request.Authorizes
    · rw [(hkey hauth).1]
      exact Gate.after_key hs.owner
    · rw [(Gate.after_of_quiet hauth s.gate _).1]
      exact hs.owner
  · simp only [Server.record, hcalls, List.mem_append, List.mem_singleton] at hmem
    rcases hmem with hmem | hmem
    · exact hs.verdicts d request' protoData ok hmem hkeyed
    · cases hmem
      have hauth := authorizes_of_keyed hkeyed
      exact handler_welcomes hkeyed (howner hauth) (hkey hauth).2 h

theorem Welcoming.of_ledger (hs : Welcoming key s) (h : t.ledger = s.ledger) : Welcoming key t := by
  refine ⟨?_, ?_⟩
  · rw [gate_of_ledger h]
    exact hs.owner
  · rw [calls_of_ledger h]
    exact hs.verdicts

/-- Another call was logged, and nothing was done to the gate. -/
theorem Welcoming.logged (hs : Welcoming key s) {call : Call} (hgate : t.gate = s.gate)
    (hcalls : t.calls = s.calls ++ [call]) (hother : ∀ d request protoData ok, call ≠ .handled d request protoData ok) :
    Welcoming key t := by
  refine ⟨?_, fun d request protoData ok hmem hkeyed => ?_⟩
  · rw [hgate]
    exact hs.owner
  · rw [hcalls, List.mem_append, List.mem_singleton] at hmem
    rcases hmem with hmem | hmem
    · exact hs.verdicts d request protoData ok hmem hkeyed
    · exact absurd hmem.symm (hother d request protoData ok)

theorem step_calls {a : Action} (hw : s.objects.WellFormed) (h : step cfg s a = some t) :
    s.calls <+: t.calls := by
  by_cases hreset : a.IsReset
  · cases a with
    | reset scrambled =>
      obtain ⟨-, h⟩ := step_eq_some h
      cases h
      rw [show (resetDaemon s scrambled).calls = s.calls from
        congrArg Ledger.calls (resetDaemon_ledger s scrambled)]
    | _ => exact hreset.elim
  · cases step_gate hw h hreset with
    | still calls => rw [calls]
    | connected c calls => exact ⟨_, calls.symm⟩
    | handled c request protoData ok calls => exact ⟨_, calls.symm⟩
    | resumed c ok calls => exact ⟨_, calls.symm⟩

theorem Welcoming.step {a : Action} (hw : s.objects.WellFormed) (hs : Welcoming key s)
    (h : step cfg s a = some t) (hsent : AllSent key t.calls) : Welcoming key t := by
  by_cases hquiet : a.Quiet
  · exact hs.of_ledger (step_does hw h hquiet).ledger
  obtain ⟨hen, h⟩ := step_eq_some h
  cases a with
  | accept c fd socket =>
    cases h
    exact hs.logged rfl rfl nofun
  | poll c env =>
    obtain ⟨hc, fresh⟩ := hen
    obtain ⟨r, hr, rfl⟩ := Option.map_eq_some_iff.mp h
    have hledger := ledger_afterTurn c r
    rw [calls_of_ledger hledger] at hsent
    refine Welcoming.of_ledger ?_ hledger
    cases pollTurn_ends hr with
    | heard _ hheard => exact hs.of_ledger hheard.ledger
    | handled request u hheard _ state r' hr' => exact hs.handled hw hc fresh hheard state hr' hsent
    | resumed caching r' hr' =>
      have hstill := (esdProtoSampleCache_serves (by simp [caching]) fresh.2 hr').ledger trivial
      have hgate : r'.1.gate = s.gate := gate_of_ledger hstill
      have hcalls : r'.1.calls = s.calls := calls_of_ledger hstill
      exact hs.logged hgate (congrArg (· ++ _) hcalls) nofun
  | reset scrambled =>
    cases h
    have hledger := resetDaemon_ledger s scrambled
    refine ⟨fun howned => ?_, ?_⟩
    · exact absurd ((congrArg Ledger.owned hledger).symm.trans howned) Bool.false_ne_true
    · rw [show (resetDaemon s scrambled).calls = s.calls from congrArg Ledger.calls hledger]
      exact hs.verdicts
  | _ => exact absurd trivial hquiet

/-- Where everything with a key that the daemon hears was sent with one authorization file, nobody is
refused to connect, to lock or to unlock, whoever came first and however often it is reset. -/
theorem home_never_refused {ok : Server → Action → Prop} {as : List Action} {w w' : AuthWorld}
    {is : List (ℕ × AuthInput)} (hs : s.Initial) (h : Runs cfg ok s as t)
    (hw : ∀ n, w.call n = .start) (hcalls : Run AuthWorld.step (fun _ _ => True) w is w')
    (hsent : ∀ c request protoData verdict, .handled c request protoData verdict ∈ t.calls →
      request.Authorizes → ∃ n, protoData = (w'.call n).sent) :
    ∀ c request protoData verdict, .handled c request protoData verdict ∈ t.calls →
      request ∈ Proto.keyed → verdict = true := by
  obtain ⟨key, hagree, -⟩ := auth_keys_agree hw hcalls
  have hall : AllSent key t.calls := fun c request protoData verdict hmem hauth => by
    obtain ⟨n, rfl⟩ := hsent c request protoData verdict hmem hauth
    exact hagree n
  have hkept := h.invariant
    (fun s => s.objects.WellFormed ∧ (AllSent key s.calls → Welcoming key s))
    (fun u a v hu _ hstep => ⟨step_wellFormed hu.1 hstep, fun hv => ?_⟩)
    ⟨hs.wellFormed, fun _ => ⟨fun howned => ?_, ?_⟩⟩
  · exact (hkept.2 hall).verdicts
  · have hbefore : AllSent key u.calls := fun c request protoData verdict hmem hauth =>
      hv c request protoData verdict ((step_calls hu.1 hstep).subset hmem) hauth
    exact (hu.2 hbefore).step hu.1 hstep hv
  · exact absurd (hs.owned.symm.trans howned) Bool.false_ne_true
  · rw [hs.calls]
    exact fun _ _ _ _ hmem => absurd hmem List.not_mem_nil

end Daemon

/-- Two clients connect with what the calls sent. -/
def twoConnect : List Action :=
  [.accept 1 5 (.sending [handshake 9]), .poll 1 (.allocating 0), .accept 2 6 (.sending [handshake 9]),
    .poll 2 (.allocating 0)]

theorem twoConnect_ends : (exec (step .smallBlocks) NoReset .blank twoConnect).isSome := by
  decide +kernel

theorem home_never_refused_two : ∃ t, Runs .smallBlocks NoReset .blank twoConnect t ∧
    .handled 2 .connect (handshake 9) true ∈ t.calls ∧
      ∀ c request protoData verdict, .handled c request protoData verdict ∈ t.calls →
        request ∈ Proto.keyed → verdict = true := by
  obtain ⟨t, hrun, hcalls⟩ : ∃ t, Runs .smallBlocks NoReset .blank twoConnect t ∧
      t.calls = [.connected 1, .handled 1 .connect (handshake 9) true, .connected 2,
        .handled 2 .connect (handshake 9) true] :=
    ⟨_, Run.of_isSome twoConnect_ends, by decide +kernel⟩
  have hmade : (afterSharing.call 0).sent = handshake 9 := by decide +kernel
  refine ⟨t, hrun, by simp [hcalls], ?_⟩
  refine home_never_refused Server.blank_initial hrun (fun _ => rfl) afterSharing_run ?_
  intro c request protoData verdict hmem _
  simp only [hcalls, List.mem_cons, List.not_mem_nil, reduceCtorEq, Call.handled.injEq, false_or,
    or_false] at hmem
  rcases hmem with ⟨-, -, rfl, -⟩ | ⟨-, -, rfl, -⟩ <;> exact ⟨0, hmade.symm⟩

end Esound
