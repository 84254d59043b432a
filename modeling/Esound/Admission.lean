import Esound.Gate

/-!
# Admission

A client's session begins with its connection, and nothing is handled for it before a
request to connect was accepted. The log of calls shows the sessions; what a step of the
daemon adds to it goes with what the step does to the gate.
-/

open Library.Buffer Library.Transition

namespace Esound

/-! ## The log -/

/-- In its session so far the client was accepted. -/
def Accepted (c : Ptr) (log : List Call) : Prop :=
  ∃ before protoData after,
    log = before ++ .handled c .connect protoData true :: after ∧ .connected c ∉ after

/-- The call is for the client, and not for its request to connect. -/
def Call.NeedsConnect (c : Ptr) : Call → Prop
  | connected _ => False
  | handled d request _ _ => d = c ∧ request ≠ .connect
  | resumed d _ => d = c

/-- No call was made for a client that was not accepted before. -/
def Guarded (log : List Call) : Prop :=
  ∀ c before call, before ++ [call] <+: log → call.NeedsConnect c → Accepted c before

section Log

variable {c : Ptr} {log : List Call} {call : Call}

theorem Accepted.append (h : Accepted c log) (hcall : call ≠ .connected c) :
    Accepted c (log ++ [call]) := by
  obtain ⟨before, protoData, after, rfl, hafter⟩ := h
  refine ⟨before, protoData, after ++ [call], by simp, ?_⟩
  simpa [hafter] using hcall.symm

theorem Guarded.nil : Guarded [] := by
  intro c before call hpre
  simp at hpre

theorem Guarded.append (h : Guarded log) (hcall : ∀ c, call.NeedsConnect c → Accepted c log) :
    Guarded (log ++ [call]) := by
  intro c before call' hpre hneeds
  rcases List.prefix_concat_iff.mp hpre with heq | hpre
  · obtain ⟨rfl, hsame⟩ := List.append_inj' heq rfl
    cases hsame
    exact hcall c hneeds
  · exact h c before call' hpre hneeds

end Log

/-! ## What a turn adds to the log -/

/-- The client has not been heard of yet but for, at most, a part of its first request. -/
def EsdClient.AwaitsConnect (cl : EsdClient) : Prop :=
  cl.state = .needsReqdata ∧ cl.request = 0#32

/-- The key at the start of the parameters. -/
def keyIn (protoData : List Octet) : List Octet := protoData.take esdKeyLen

/-- What a turn of the client does to the log and to the gate. -/
inductive Logs (c : Ptr) (s : Server) (r : Server × Bool) : Prop
  | quiet (calls : r.1.calls = s.calls) (gate : r.1.gate = s.gate)
      (waits : (s.client c).AwaitsConnect → (r.1.client c).AwaitsConnect)
  | handled (request : Proto) (protoData : List Octet)
      (calls : r.1.calls = s.calls ++ [.handled c request protoData r.2])
      (gate : r.1.gate = s.gate.after request (keyIn protoData))
      (granted : r.2 = true → s.gate.Grants request (keyIn protoData))
      (first : (s.client c).AwaitsConnect → request = .connect)
  | resumed (calls : r.1.calls = s.calls ++ [.resumed c r.2]) (gate : r.1.gate = s.gate)
      (first : ¬ (s.client c).AwaitsConnect)

section Turn

variable {cfg : Config} {env : PollEnv} {c : Ptr} {s t : Server} {r : Server × Bool}

theorem keyIn_load (m : Mem) {request : Proto} (h : request.Authorizes) :
    keyIn (load m 0 request.dataLength.toNat) = load m 0 esdKeyLen := by
  have hlen : request.dataLength.toNat = esdKeyLen + 4 := by
    cases request <;> first | exact h.elim | rfl
  have hsplit := load_add m 0 esdKeyLen 4
  rw [Nat.cast_zero] at hsplit
  rw [hlen, hsplit, keyIn, List.take_left' (load_length _ _ _)]

/-- Where a request is not about the gate, the key does not matter. -/
theorem Gate.after_of_quiet {request : Proto} (h : ¬ request.Authorizes) (g : Gate)
    (key : List Octet) : g.after request key = g ∧ g.Grants request key := by
  cases request <;> first | exact absurd trivial h | exact ⟨rfl, trivial⟩

variable (hw : s.objects.WellFormed) (hc : c ∈ s.esdClientsList) (fresh : env.malloc ∉ s.allPlayers)
  (samples : env.malloc ∉ s.esdSamplesList) (state : (s.client c).state ≠ .streamingData)

include hw hc fresh samples state

theorem handle_logs {request : Proto} (h : handle cfg env request s c = some r) :
    ∃ protoData, r.1.calls = s.calls ++ [.handled c request protoData r.2] ∧
      r.1.gate = s.gate.after request (keyIn protoData) ∧
      (r.2 = true → s.gate.Grants request (keyIn protoData)) := by
  unfold handle at h
  obtain ⟨⟨t, ok⟩, ht, rfl⟩ := Option.map_eq_some_iff.mp h
  have hnext : Serves cfg c False s (s.setClient c { s.client c with state := .nextRequest }, true) :=
    setState_serves cfg state (by decide)
  have hobeys := handler_obeys (hnext.effects.wellFormed hw) hc fresh samples
    (by simp [Server.setClient]) ht
  have hcalls : t.calls = s.calls := hobeys.calls
  refine ⟨_, by rw [Server.record, hcalls], ?_⟩
  by_cases hauth : request.Authorizes
  · rw [keyIn_load _ hauth]
    exact ⟨hobeys.gate, hobeys.granted⟩
  · have hquiet := Gate.after_of_quiet hauth s.gate
    refine ⟨?_, fun _ => (hquiet _).2⟩
    rw [(hquiet _).1]
    exact hobeys.gate.trans (hquiet _).1

omit hw hc fresh samples state in
theorem readReqdata_quiet (request : Proto) :
    (readReqdata request s c).1.calls = s.calls ∧ (readReqdata request s c).1.gate = s.gate ∧
      ((s.client c).AwaitsConnect → ((readReqdata request s c).1.client c).AwaitsConnect) := by
  refine ⟨rfl, rfl, fun h => ?_⟩
  simpa [readReqdata, Server.setClient, EsdClient.AwaitsConnect] using h

theorem pollNeedsReqdata_logs (h : pollNeedsReqdata cfg env s c = some r) : Logs c s r := by
  unfold pollNeedsReqdata at h
  split at h
  · cases h
    exact .quiet rfl rfl id
  · rename_i request hrequest
    obtain ⟨hcalls, hgate, hwaits⟩ := readReqdata_quiet (s := s) (c := c) request
    obtain ⟨hread, state'⟩ := readReqdata_effects cfg state request
    simp only at h
    split_ifs at h
    · cases h
      exact .quiet rfl rfl id
    · cases h
      exact .quiet hcalls hgate hwaits
    · obtain ⟨protoData, hlog, hafter, hgrants⟩ := handle_logs (hread.wellFormed hw) hc fresh
        samples state' h
      rw [hcalls] at hlog
      rw [hgate] at hafter hgrants
      refine .handled request protoData hlog hafter hgrants fun hfirst => ?_
      rw [hfirst.2] at hrequest
      exact (Option.some.inj hrequest).symm
    · cases h
      exact .quiet hcalls hgate hwaits

theorem beginRequest_logs {request : Proto} (h : beginRequest cfg env request s c = some r)
    (hfirst : ¬ (s.client c).AwaitsConnect) : Logs c s r := by
  have hwait := setClient_effects cfg
    (v := { s.client c with state := .needsReqdata, protoDataLength := 0 }) state
    (by simp) rfl
  unfold beginRequest at h
  simp only at h
  split_ifs at h
  · obtain ⟨protoData, hlog, hafter, hgrants⟩ := handle_logs (hwait.wellFormed hw) hc fresh
      samples (by simp [Server.setClient]) h
    exact .handled request protoData hlog hafter hgrants fun h => absurd h hfirst
  · cases h
    exact .quiet rfl rfl fun h => absurd h hfirst

omit hw hc fresh samples state in
/-- A client that was heard of before starts from a state that differs in its own data. -/
theorem Logs.after (hcalls : t.calls = s.calls) (hgate : t.gate = s.gate)
    (hfirst : ¬ (s.client c).AwaitsConnect) (h : Logs c t r) : Logs c s r := by
  cases h with
  | quiet calls gate _ =>
    exact .quiet (calls.trans hcalls) (gate.trans hgate) fun h => absurd h hfirst
  | handled request protoData calls gate granted _ =>
    rw [hcalls] at calls
    rw [hgate] at gate granted
    exact .handled request protoData calls gate granted fun h => absurd h hfirst
  | resumed calls gate _ =>
    rw [hcalls] at calls
    exact .resumed calls (gate.trans hgate) hfirst

theorem pollNextRequest_logs (h : pollNextRequest cfg env s c = some r)
    (hstate : (s.client c).state = .nextRequest) : Logs c s r := by
  have hfirst : ¬ (s.client c).AwaitsConnect := fun hwait => by
    simp [EsdClient.AwaitsConnect, hstate] at hwait
  have hfirst' : ¬ ((readRequestWord s c).1.client c).AwaitsConnect := fun hwait => by
    simp [EsdClient.AwaitsConnect, readRequestWord, Server.setClient] at hwait
    exact ClientState.noConfusion (hstate.symm.trans hwait.1)
  obtain ⟨hread, state'⟩ := readRequestWord_effects cfg state
  unfold pollNextRequest at h
  simp only at h
  split_ifs at h
  · cases h
    exact .quiet rfl rfl fun h => absurd h hfirst
  · split at h
    · cases h
      exact .quiet rfl rfl fun h => absurd h hfirst
    · cases h
      exact .quiet rfl rfl fun h => absurd h hfirst
    · refine Logs.after (t := (readRequestWord s c).1) rfl rfl hfirst ?_
      exact beginRequest_logs (hread.wellFormed hw) hc fresh samples state' h hfirst'

omit hw hc fresh in
theorem pollCachingSample_logs (h : pollCachingSample cfg env s c = some r)
    (hstate : (s.client c).state = .cachingSample) : Logs c s r := by
  unfold pollCachingSample at h
  obtain ⟨⟨t, ok⟩, ht, rfl⟩ := Option.map_eq_some_iff.mp h
  have hledger := (esdProtoSampleCache_serves state samples ht).ledger trivial
  have hcalls : t.calls = s.calls := congrArg Ledger.calls hledger
  refine .resumed (by rw [Server.record, hcalls]) ?_ fun hwait => ?_
  · exact congrArg (fun l : Ledger => (⟨l.owned, l.locked, l.key⟩ : Gate)) hledger
  · simp [EsdClient.AwaitsConnect, hstate] at hwait

omit state in
theorem pollTurn_logs (h : pollTurn cfg env s c = some r) : Logs c s r := by
  unfold pollTurn at h
  split_ifs at h
  · cases h
    exact .quiet rfl rfl id
  · split at h
    · cases h
      exact .quiet rfl rfl id
    · rename_i hstate
      exact pollNeedsReqdata_logs hw hc fresh samples (by simp [hstate]) h
    · rename_i hstate
      exact pollCachingSample_logs samples (by simp [hstate]) h hstate
    · rename_i hstate
      exact pollNextRequest_logs hw hc fresh samples (by simp [hstate]) h hstate

end Turn

/-! ## Steps -/

/-- Every listed client was accepted, or is still to ask for it. -/
structure Admitted (s : Server) : Prop where
  guarded : Guarded s.calls
  clients : ∀ c ∈ s.esdClientsList, Accepted c s.calls ∨ (s.client c).AwaitsConnect

/-- What a step of the daemon does to the gate and adds to the log. -/
inductive GateStep (s t : Server) : Prop
  | still (calls : t.calls = s.calls) (gate : t.gate = s.gate)
  | connected (c : Ptr) (calls : t.calls = s.calls ++ [.connected c]) (gate : t.gate = s.gate)
  | handled (c : Ptr) (request : Proto) (protoData : List Octet) (ok : Bool)
      (calls : t.calls = s.calls ++ [.handled c request protoData ok])
      (gate : t.gate = s.gate.after request (keyIn protoData))
      (granted : ok = true → s.gate.Grants request (keyIn protoData))
  | resumed (c : Ptr) (ok : Bool) (calls : t.calls = s.calls ++ [.resumed c ok])
      (gate : t.gate = s.gate)

section Steps

variable {cfg : Config} {s t : Server} {a : Action}

theorem gate_of_ledger (h : t.ledger = s.ledger) : t.gate = s.gate :=
  congrArg (fun l : Ledger => (⟨l.owned, l.locked, l.key⟩ : Gate)) h

theorem calls_of_ledger (h : t.ledger = s.ledger) : t.calls = s.calls := congrArg Ledger.calls h

/-- Whether the client is erased after its turn does not matter to the ledger. -/
theorem ledger_afterTurn (c : Ptr) (r : Server × Bool) :
    (if r.2 then r.1 else eraseClient r.1 c).ledger = r.1.ledger := by
  split_ifs
  · rfl
  · exact ledger_eraseClient r.1 c

theorem step_gate (hw : s.objects.WellFormed) (h : step cfg s a = some t) (hreset : ¬ a.IsReset) :
    GateStep s t := by
  by_cases hquiet : a.Quiet
  · have hledger := (step_does hw h hquiet).ledger
    exact .still (calls_of_ledger hledger) (gate_of_ledger hledger)
  obtain ⟨hen, h⟩ := step_eq_some h
  cases a with
  | accept c fd socket =>
    cases h
    exact .connected c rfl rfl
  | poll c env =>
    obtain ⟨hc, fresh, samples⟩ := hen
    obtain ⟨r, hr, rfl⟩ := Option.map_eq_some_iff.mp h
    have hledger := ledger_afterTurn c r
    have hcalls := calls_of_ledger hledger
    have hgate := gate_of_ledger hledger
    cases pollTurn_logs hw hc fresh samples hr with
    | quiet calls gate => exact .still (hcalls.trans calls) (hgate.trans gate)
    | handled request protoData calls gate granted =>
      exact .handled c request protoData r.2 (hcalls.trans calls) (hgate.trans gate) granted
    | resumed calls gate => exact .resumed c r.2 (hcalls.trans calls) (hgate.trans gate)
  | reset => exact absurd trivial hreset
  | _ => exact absurd trivial hquiet

theorem Admitted.others {F : Footprint} {c : Ptr} (ha : Admitted s)
    (heffects : Effects cfg F s.objects t.objects) (hc : c ∉ F.clients)
    (hcl : c ∈ t.esdClientsList) : Accepted c s.calls ∨ (t.client c).AwaitsConnect := by
  have hsame : t.client c = s.client c := heffects.client_frame hc
  rw [hsame]
  exact ha.clients c (heffects.clients_frame hc hcl)

theorem erased_notMem {c : Ptr} {r : Server × Bool} (hw : r.1.objects.WellFormed)
    (hok : r.2 = false) : c ∉ (if r.2 then r.1 else eraseClient r.1 c).esdClientsList := by
  have herase := congrArg Objects.clients (objects_eraseClient r.1 c)
  simp only [Server.objects_clients] at herase
  rw [hok, if_neg Bool.false_ne_true, herase]
  exact fun h => (hw.clients_nodup.mem_erase_iff.mp h).1 rfl

theorem GateStep.owner (h : GateStep s t) (howned : s.gate.owned = true) :
    t.gate.owned = true ∧ t.gate.key = s.gate.key := by
  cases h with
  | still calls gate => rw [gate]; exact ⟨howned, rfl⟩
  | connected c calls gate => rw [gate]; exact ⟨howned, rfl⟩
  | handled c request protoData ok calls gate =>
    rw [gate]
    exact Gate.after_owned howned request _
  | resumed c ok calls gate => rw [gate]; exact ⟨howned, rfl⟩

theorem Run.owner {as : List Action} (hw : s.objects.WellFormed) (h : Runs cfg NoReset s as t)
    (howned : s.gate.owned = true) : t.gate.owned = true ∧ t.gate.key = s.gate.key := by
  have hboth := h.invariant
    (fun t => t.objects.WellFormed ∧ t.gate.owned = true ∧ t.gate.key = s.gate.key)
    (fun u a v hu hreset hstep => by
      obtain ⟨hown, hkey⟩ := (step_gate hu.1 hstep hreset).owner hu.2.1
      exact ⟨step_wellFormed hu.1 hstep, hown, hkey.trans hu.2.2⟩)
    ⟨hw, howned, rfl⟩
  exact hboth.2

end Steps

end Esound
