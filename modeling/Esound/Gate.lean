import Esound.Reachable

/-!
# The gate

Who may use the daemon: nobody owns it at first, whoever comes first with a key does, and
from then on only that key is the owner's. The gate is this much of the daemon,
and what a request with a key does to it is said without sockets or replies.
-/

open Library.Buffer Library.Transition

namespace Esound

structure Gate where
  owned : Bool
  locked : Bool
  key : List Octet
  deriving DecidableEq

namespace Gate

/-- The key is good for what only the owner may do. -/
def Owner (g : Gate) (key : List Octet) : Prop := g.owned = false ∨ g.key = key

/-- The key is good for a connection. -/
def Admits (g : Gate) (key : List Octet) : Prop := g.Owner key ∨ g.locked = false

instance (g : Gate) (key : List Octet) : Decidable (g.Owner key) :=
  inferInstanceAs (Decidable (_ ∨ _))

instance (g : Gate) (key : List Octet) : Decidable (g.Admits key) :=
  inferInstanceAs (Decidable (_ ∨ _))

/-- The first key that is submitted is the owner's, and locks the daemon. -/
def claim (g : Gate) (key : List Octet) : Gate := if g.owned then g else ⟨true, true, key⟩

/-- What a request with a key makes of the gate. -/
def after (g : Gate) (request : Proto) (key : List Octet) : Gate :=
  match request with
  | .connect | .standby | .resume => g.claim key
  | .lock => if g.Owner key then { g.claim key with locked := true } else g
  | .unlock => if g.Owner key then { g.claim key with locked := false } else g
  | _ => g

/-- What the request with the key has to be for the verdict to be good. -/
def Grants (g : Gate) (request : Proto) (key : List Octet) : Prop :=
  match request with
  | .connect => g.Admits key
  | .lock | .unlock | .standby | .resume => g.Owner key
  | _ => True

variable {g : Gate} {request : Proto} {key : List Octet}

theorem claim_of_owned (h : g.owned = true) : g.claim key = g := if_pos h

theorem claim_of_not_owner (h : ¬ g.Owner key) : g.claim key = g :=
  claim_of_owned (by simpa [Owner] using fun h' => h (.inl h'))

theorem after_owned (h : g.owned = true) (request : Proto) (key : List Octet) :
    (g.after request key).owned = true ∧ (g.after request key).key = g.key := by
  cases request with
  | connect | standby | resume => simp [after, claim_of_owned h, h]
  | lock | unlock =>
    simp only [after, claim_of_owned h]
    split_ifs <;> simp [h]
  | _ => simp [after, h]

end Gate

def Server.gate (s : Server) : Gate := ⟨s.esdIsOwned, s.esdIsLocked, s.esdOwnerKey⟩

/-- The gate, the standby flags and the device. -/
structure Controls where
  gate : Gate
  onStandby : Bool
  onAutostandby : Bool
  forcedStandby : Bool
  audioFd : Option Word
  deriving DecidableEq

def Server.controls (s : Server) : Controls :=
  ⟨s.gate, s.esdOnStandby, s.esdOnAutostandby, s.esdForcedStandby, s.audioFd⟩

/-! ## The handlers at the gate -/

section Handlers

variable {cfg : Config} {env : PollEnv} {s : Server} {c : Ptr} {r : Server × Bool}

theorem esdValidateSource_spec (s : Server) (c : Ptr) (key : List Octet) (ownerOnly : Bool) :
    (esdValidateSource s c key ownerOnly).1.controls =
        { s.controls with gate := s.gate.claim key } ∧
      ((esdValidateSource s c key ownerOnly).2 = true ↔
        s.gate.Owner key ∨ (s.gate.locked = false ∧ ownerOnly = false)) ∧
      (esdValidateSource s c key ownerOnly).1.calls = s.calls := by
  have hclaim : s.esdIsOwned = true → s.gate.claim key = s.gate :=
    fun h => Gate.claim_of_owned (g := s.gate) h
  unfold esdValidateSource
  simp only
  split_ifs with howned hopen hkey
  · refine ⟨?_, by simp [Gate.Owner, Server.gate, howned], rfl⟩
    simp [Server.controls, Server.gate, Gate.claim, howned, Server.writeInt, Server.sysWrite]
  · refine ⟨?_, by simp [Server.gate, hopen], rfl⟩
    rw [hclaim (by simpa using howned)]
    rfl
  · refine ⟨?_, by simp [Gate.Owner, Server.gate, hkey], rfl⟩
    rw [hclaim (by simpa using howned)]
    rfl
  · refine ⟨?_, ?_, rfl⟩
    · rw [hclaim (by simpa using howned)]
      rfl
    · simp [Gate.Owner, Server.gate, howned, hkey]
      simpa using hopen

/-- A request of the owner's is refused and leaves no trace, or is granted. -/
theorem esdValidateSource_cases (s : Server) (c : Ptr) (key : List Octet) :
    (¬ s.gate.Owner key ∧ ∃ t, esdValidateSource s c key true = (t, false) ∧
      t.controls = s.controls ∧ t.calls = s.calls) ∨
    (s.gate.Owner key ∧ ∃ t, esdValidateSource s c key true = (t, true) ∧
      t.gate = s.gate.claim key ∧ t.calls = s.calls) := by
  obtain ⟨hcontrols, hverdict, hcalls⟩ := esdValidateSource_spec s c key true
  have howner : (esdValidateSource s c key true).2 = true ↔ s.gate.Owner key := by
    simpa using hverdict
  generalize esdValidateSource s c key true = v at *
  obtain ⟨t, ok⟩ := v
  cases ok with
  | false =>
    have hnot : ¬ s.gate.Owner key := fun h => Bool.noConfusion (howner.mpr h)
    refine .inl ⟨hnot, t, rfl, ?_, hcalls⟩
    rw [Gate.claim_of_not_owner hnot] at hcontrols
    exact hcontrols
  | true => exact .inr ⟨howner.mp rfl, t, rfl, congrArg Controls.gate hcontrols, hcalls⟩

/-- A handler does to the gate what the request does, and its verdict is granted. -/
structure Obeys (request : Proto) (key : List Octet) (s : Server) (r : Server × Bool) : Prop where
  gate : r.1.gate = s.gate.after request key
  granted : r.2 = true → s.gate.Grants request key
  calls : r.1.calls = s.calls

theorem esdCheckEndian_frame (endian : Word) :
    (esdCheckEndian s c endian).1.gate = s.gate ∧ (esdCheckEndian s c endian).1.calls = s.calls := by
  unfold esdCheckEndian
  split_ifs <;> exact ⟨rfl, rfl⟩

theorem esdProtoConnect_obeys :
    Obeys .connect (s.client c).key s (esdProtoConnect s c) := by
  obtain ⟨hcontrols, hverdict, hcalls⟩ := esdValidateSource_spec s c (s.client c).key false
  have hgate := congrArg Controls.gate hcontrols
  unfold esdProtoConnect
  simp only
  generalize esdValidateSource s c (s.client c).key false = v at *
  obtain ⟨t, ok⟩ := v
  cases ok with
  | false => exact ⟨hgate, fun h => Bool.noConfusion h, hcalls⟩
  | true =>
    obtain ⟨hsame, hlog⟩ := esdCheckEndian_frame (s := t) (c := c)
      ((s.client c).protoData.int esdKeyLen)
    exact ⟨hsame.trans hgate, fun _ => (hverdict.mp rfl).imp_right And.left, hlog.trans hcalls⟩

theorem esdProtoLock_obeys : Obeys .lock (s.client c).key s (esdProtoLock s c) := by
  unfold esdProtoLock
  rcases esdValidateSource_cases s c (s.client c).key with
    ⟨howner, t, hv, hcontrols, hcalls⟩ | ⟨howner, t, hv, hgate, hcalls⟩
  · have hgate : t.gate = s.gate := congrArg Controls.gate hcontrols
    simp only [hv, Bool.false_eq_true, if_false]
    refine ⟨?_, fun h => Bool.noConfusion h, hcalls⟩
    rw [Gate.after, if_neg howner]
    exact hgate
  · simp only [hv, if_true]
    refine ⟨?_, fun _ => howner, hcalls⟩
    rw [Gate.after, if_pos howner, ← hgate]
    rfl

theorem esdProtoUnlock_obeys : Obeys .unlock (s.client c).key s (esdProtoUnlock s c) := by
  unfold esdProtoUnlock
  rcases esdValidateSource_cases s c (s.client c).key with
    ⟨howner, t, hv, hcontrols, hcalls⟩ | ⟨howner, t, hv, hgate, hcalls⟩
  · have hgate : t.gate = s.gate := congrArg Controls.gate hcontrols
    simp only [hv, Bool.false_eq_true, if_false]
    refine ⟨?_, fun h => Bool.noConfusion h, hcalls⟩
    rw [Gate.after, if_neg howner]
    exact hgate
  · simp only [hv, if_true]
    refine ⟨?_, fun _ => howner, hcalls⟩
    rw [Gate.after, if_pos howner, ← hgate]
    rfl

theorem esdServerStandby_gate :
    (esdServerStandby s).1.gate = s.gate ∧ (esdServerStandby s).1.calls = s.calls := by
  unfold esdServerStandby
  split_ifs <;> exact ⟨rfl, rfl⟩

theorem esdServerResume_gate (reopen : Option ℤ) :
    (esdServerResume s reopen).1.gate = s.gate ∧ (esdServerResume s reopen).1.calls = s.calls := by
  unfold esdServerResume
  split_ifs
  · cases reopen <;> exact ⟨rfl, rfl⟩
  · exact ⟨rfl, rfl⟩

theorem esdProtoStandby_obeys : Obeys .standby (s.client c).key s (esdProtoStandby s c) := by
  unfold esdProtoStandby
  rcases esdValidateSource_cases s c (s.client c).key with
    ⟨howner, t, hv, hcontrols, hcalls⟩ | ⟨howner, t, hv, hgate, hcalls⟩
  · have hgate : t.gate = s.gate.claim (s.client c).key := by
      rw [Gate.claim_of_not_owner howner]
      exact congrArg Controls.gate hcontrols
    simp only [hv, Bool.false_eq_true, if_false]
    refine ⟨?_, fun h => Bool.noConfusion h, ?_⟩
    · split_ifs <;> exact hgate
    · split_ifs <;> exact hcalls
  · obtain ⟨hsame, hlog⟩ := esdServerStandby_gate (s := t)
    simp only [hv, if_true]
    refine ⟨?_, fun _ => howner, ?_⟩
    · split_ifs <;> exact hsame.trans hgate
    · split_ifs <;> exact hlog.trans hcalls

theorem esdProtoResume_obeys : Obeys .resume (s.client c).key s (esdProtoResume env s c) := by
  unfold esdProtoResume
  rcases esdValidateSource_cases s c (s.client c).key with
    ⟨howner, t, hv, hcontrols, hcalls⟩ | ⟨howner, t, hv, hgate, hcalls⟩
  · have hgate : t.gate = s.gate.claim (s.client c).key := by
      rw [Gate.claim_of_not_owner howner]
      exact congrArg Controls.gate hcontrols
    simp only [hv, Bool.false_eq_true, if_false]
    exact ⟨hgate, fun h => Bool.noConfusion h, hcalls⟩
  · obtain ⟨hsame, hlog⟩ := esdServerResume_gate (s := t) (env.audioOpen 0)
    simp only [hv, if_true]
    refine ⟨?_, fun _ => howner, ?_⟩
    · split_ifs <;> exact hsame.trans hgate
    · split_ifs <;> exact hlog.trans hcalls

theorem handler_obeys (hw : s.objects.WellFormed) (hc : c ∈ s.esdClientsList)
    (fresh : env.malloc ∉ s.allPlayers) (samples : env.malloc ∉ s.esdSamplesList)
    (state : (s.client c).state ≠ .streamingData) {request : Proto}
    (h : handler cfg env request s c = some r) : Obeys request (s.client c).key s r := by
  have hother : ¬ request.Authorizes → r.1.gate = s.gate ∧ r.1.calls = s.calls := by
    intro hquiet
    have hledger := (handler_serves state hc fresh hw samples h).ledger hquiet
    exact ⟨congrArg (fun l : Ledger => (⟨l.owned, l.locked, l.key⟩ : Gate)) hledger,
      congrArg Ledger.calls hledger⟩
  cases request with
  | connect => cases h; exact esdProtoConnect_obeys
  | lock => cases h; exact esdProtoLock_obeys
  | unlock => cases h; exact esdProtoUnlock_obeys
  | standby => cases h; exact esdProtoStandby_obeys
  | resume => cases h; exact esdProtoResume_obeys
  | _ => exact ⟨(hother id).1, fun _ => trivial, (hother id).2⟩

end Handlers

/-! ## Refusals -/

section Refusals

variable {cfg : Config} {env : PollEnv} {s : Server} {c : Ptr} {r : Server × Bool}

/-- The four requests that only the owner may make. -/
def Proto.ownerRequests : List Proto := [.lock, .unlock, .standby, .resume]

/-- A refused request leaves the controls alone, but for the forced flag. -/
theorem handler_refused {request : Proto} (hrequest : request ∈ Proto.ownerRequests)
    (howner : ¬ s.gate.Owner (s.client c).key) (h : handler cfg env request s c = some r) :
    r.1.controls =
      if request = .standby ∧ s.esdOnAutostandby = false then
        { s.controls with forcedStandby := true }
      else s.controls := by
  rcases esdValidateSource_cases s c (s.client c).key with ⟨-, t, hv, hcontrols, -⟩ | ⟨hgrant, -⟩
  · simp only [Proto.ownerRequests, List.mem_cons, List.not_mem_nil, or_false] at hrequest
    have hauto : t.esdOnAutostandby = s.esdOnAutostandby := congrArg Controls.onAutostandby hcontrols
    rcases hrequest with rfl | rfl | rfl | rfl <;> cases h
    · simp only [esdProtoLock, hv]
      exact hcontrols
    · simp only [esdProtoUnlock, hv]
      exact hcontrols
    · simp only [esdProtoStandby, hv, Bool.false_eq_true, if_false, true_and, ← hauto]
      split_ifs
      · rw [← hcontrols]
        rfl
      · exact hcontrols
    · simp only [esdProtoResume, hv]
      exact hcontrols
  · exact absurd hgrant howner

/-- A refused request is atomic, unless it is for standby and is the first to force it. -/
theorem refused_request_atomic_iff {request : Proto} (hrequest : request ∈ Proto.ownerRequests)
    (howned : s.esdIsOwned = true) (hkey : (s.client c).key ≠ s.esdOwnerKey)
    (h : handle cfg env request s c = some r) :
    r.1.controls = s.controls ↔
      ¬ (request = .standby ∧ s.esdOnAutostandby = false ∧ s.esdForcedStandby = false) := by
  unfold handle at h
  obtain ⟨⟨t, ok⟩, ht, rfl⟩ := Option.map_eq_some_iff.mp h
  have hclient : ((s.setClient c { s.client c with state := .nextRequest }).client c).key =
      (s.client c).key := by
    simp [Server.setClient, EsdClient.key]
  have howner : ¬ s.gate.Owner (s.client c).key := by
    rintro (hnot | hsame)
    · simp [Server.gate, howned] at hnot
    · exact hkey hsame.symm
  have hrefused := handler_refused (s := s.setClient c { s.client c with state := .nextRequest })
    hrequest (by rw [hclient]; exact howner) ht
  have hcontrols : t.controls =
      if request = .standby ∧ s.esdOnAutostandby = false then
        { s.controls with forcedStandby := true }
      else s.controls := hrefused
  change t.controls = s.controls ↔ _
  rw [hcontrols]
  split_ifs with hstandby
  · have hforced : ({ s.controls with forcedStandby := true } : Controls) = s.controls ↔
        s.esdForcedStandby = true := by
      refine ⟨fun h => (congrArg Controls.forcedStandby h).symm, fun h => ?_⟩
      unfold Server.controls
      rw [h]
    rw [hforced]
    simp [hstandby]
  · simp only [true_iff]
    exact fun hboth => hstandby ⟨hboth.1, hboth.2.1⟩

end Refusals

/-- A client connects, which makes it the owner, and sends a request with another key. -/
def strangerRun (request : Word) : List Action :=
  [.accept 1 5 (.sending [handshake 7, Word.octets request, handshake 8]),
    .poll 1 (.allocating 0), .poll 1 (.allocating 0)]

theorem strangerLock_ends :
    (exec (step .smallBlocks) NoReset .blank (strangerRun 1#32)).isSome := by
  decide +kernel

theorem strangerStandby_ends :
    (exec (step .smallBlocks) NoReset .blank (strangerRun 12#32)).isSome := by
  decide +kernel

/-- The state in which the parameters of the request have been read. -/
def withParameters (request : Proto) (s : Server) : Server := (readReqdata request s 1).1

theorem refused_request_atomic_iff_lock :
    ∃ u r, Runs .smallBlocks NoReset .blank (strangerRun 1#32) u ∧
      handle .smallBlocks (.allocating 0) .lock (withParameters .lock u) 1 = some r ∧
      (r.1.controls = (withParameters .lock u).controls ↔
        ¬ (Proto.lock = .standby ∧ (withParameters .lock u).esdOnAutostandby = false ∧
          (withParameters .lock u).esdForcedStandby = false)) := by
  refine ⟨_, _, Run.of_isSome strangerLock_ends, rfl, ?_⟩
  exact refused_request_atomic_iff (by decide) (by decide +kernel) (by decide +kernel)
    (show handle .smallBlocks (.allocating 0) .lock _ 1 = some _ from rfl)

/-- The client is refused, and standby is forced from then on. -/
theorem refused_standby_forces :
    ∃ u r, Runs .smallBlocks NoReset .blank (strangerRun 12#32) u ∧
      (withParameters .standby u).esdIsOwned = true ∧
      ((withParameters .standby u).client 1).key ≠ (withParameters .standby u).esdOwnerKey ∧
      handle .smallBlocks (.allocating 0) .standby (withParameters .standby u) 1 = some r ∧
      r.2 = false ∧ (withParameters .standby u).esdForcedStandby = false ∧
      r.1.esdForcedStandby = true ∧ r.1.controls ≠ (withParameters .standby u).controls :=
  ⟨_, _, Run.of_isSome strangerStandby_ends, by decide +kernel, by decide +kernel, rfl,
    by decide +kernel, by decide +kernel, by decide +kernel, by decide +kernel⟩

end Esound
