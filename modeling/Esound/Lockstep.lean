import Esound.Calls
import Esound.Library.Lockstep

/-!
# In lockstep

A client and the daemon, with what is under way between them. The client makes one call of the
library after the other, and in between the daemon does whatever else it has to do. No call
leaves an octet behind, on either side.
-/

open Library.Buffer Library.Lockstep Library.Loop Library.Reading Library.Transition

namespace Esound

/-! ## The connection -/

/-- A call, cut into the pieces in which it arrives. -/
structure Sending where
  call : LibCall
  pieces : List (List Octet)
  positive : [] ∉ pieces
  all : pieces.flatten = call.sends

/-- The pieces arrive behind what is there to be read already. -/
def Socket.receive (k : Socket) (pieces : List (List Octet)) : Socket :=
  { k with input := k.input ++ pieces.map .data }

def Server.receive (s : Server) (fd : ℤ) (pieces : List (List Octet)) : Server :=
  { s with sockets := Function.update s.sockets fd ((s.sockets fd).receive pieces) }

/-- The daemon as the client at `c` has to do with it. A client that is not connected sends and
receives nothing. -/
def service (cfg : Config) (c : Ptr) : Service Server Action Sending Octet where
  step := step cfg
  writes s t := if c ∈ s.esdClientsList then writtenSince (s.client c).fd s t else []
  send s k := if c ∈ s.esdClientsList then some (s.receive (s.client c).fd k.pieces) else none
  read k inbox := (k.call.reads inbox).map Prod.snd

abbrev Connection := Link Server Sending Octet

/-- The daemon waits for a request of the client, which has its byte order. -/
structure Attentive (c : Ptr) (s : Server) : Prop where
  listed : c ∈ s.esdClientsList
  state : (s.client c).state = .nextRequest
  order : (s.client c).swapByteOrder = false
  read : (s.sockets (s.client c).fd).input = []
  whole : (s.sockets (s.client c).fd).TakesWhole

/-- The client was disconnected by a request that was about the key. -/
def Refused (c : Ptr) (s : Server) : Prop :=
  c ∉ s.esdClientsList ∧
    ∃ x ∈ (framesOf c s.calls).getLast?, x.ok = false ∧ x.request.Authorizes

/-- There is something of the client that the daemon has not read yet. -/
def Occupied (c : Ptr) (s : Server) : Prop :=
  c ∈ s.esdClientsList ∧ (s.sockets (s.client c).fd).input ≠ []

/-- The turn of the client comes when there is something to read, and there is room for a sample
that it sends. -/
def Attends (c : Ptr) (l : Connection) : Action → Prop
  | .poll d env => d = c →
    (env.canRead = true → (l.server.sockets (l.server.client c).fd).input ≠ []) ∧
      ∀ k ∈ l.call, k.call.request = .sampleCache → env.malloc ≠ 0 ∧ env.mallocData = true
  | _ => True

/-- The connection lasts, and reads are complete. -/
def Uninterrupted (c : Ptr) (l : Connection) : Move Action Sending → Prop
  | .serves a => SameConnection c a ∧ WholeWords c l.server a ∧ Attends c l a
  | .calls _ | .returns => True

/-- When all there is to know is told, there are only positive numbers. -/
def TellsPositive (c : Ptr) (l : Connection) : Action → Prop
  | .poll d _ => d = c → (l.server.client c).state = .needsReqdata →
    ∀ k ∈ l.call, k.call.request = .allInfo → l.server.IdsPositive
  | _ => True

/-- Where a call looks for a key it finds one. -/
def Answerable (c : Ptr) (l : Connection) : Move Action Sending → Prop
  | .calls k => k.call.Keyed
  | .serves a => TellsPositive c l a
  | .returns => True

instance (c : Ptr) (l : Connection) (a : Action) : Decidable (Attends c l a) :=
  match a with
  | .poll d env => inferInstanceAs (Decidable (d = c →
      (env.canRead = true → (l.server.sockets (l.server.client c).fd).input ≠ []) ∧
        ∀ k ∈ l.call, k.call.request = .sampleCache → env.malloc ≠ 0 ∧ env.mallocData = true))
  | .accept .. | .refresh | .mix _ | .wake _ | .filter .. | .monitor .. | .recorder ..
  | .autostandby | .reconnect _ | .reset _ => .isTrue trivial

instance (c : Ptr) (l : Connection) (m : Move Action Sending) : Decidable (Uninterrupted c l m) :=
  match m with
  | .serves a =>
    inferInstanceAs (Decidable (SameConnection c a ∧ WholeWords c l.server a ∧ Attends c l a))
  | .calls _ | .returns => .isTrue trivial

instance (c : Ptr) (l : Connection) (a : Action) : Decidable (TellsPositive c l a) :=
  match a with
  | .poll d _ => inferInstanceAs (Decidable (d = c → (l.server.client c).state = .needsReqdata →
      ∀ k ∈ l.call, k.call.request = .allInfo → l.server.IdsPositive))
  | .accept .. | .refresh | .mix _ | .wake _ | .filter .. | .monitor .. | .recorder ..
  | .autostandby | .reconnect _ | .reset _ => .isTrue trivial

instance (c : Ptr) (l : Connection) (m : Move Action Sending) : Decidable (Answerable c l m) :=
  match m with
  | .calls k => inferInstanceAs (Decidable k.call.Keyed)
  | .serves a => inferInstanceAs (Decidable (TellsPositive c l a))
  | .returns => .isTrue trivial

/-! ## Pieces -/

/-- Every read of the socket brings something until all is read. -/
def Socket.Plain (k : Socket) : Prop := ∀ r ∈ k.input, r.octets ≠ []

section Pieces

variable {k : Socket}

theorem ReadResult.octets_cases {r : ReadResult} (h : r.octets ≠ []) : ∃ b bs, r = .data (b :: bs) := by
  match r with
  | .data [] => exact absurd rfl h
  | .data (b :: bs) => exact ⟨b, bs, rfl⟩
  | .again => exact absurd rfl h
  | .error => exact absurd rfl h

theorem Socket.Plain.flows (h : k.Plain) : ¬ k.Pauses := by
  obtain ⟨input, room⟩ := k
  induction input with
  | nil => exact id
  | cons r rest ih =>
    obtain ⟨b, bs, rfl⟩ := ReadResult.octets_cases (h r List.mem_cons_self)
    exact ih fun r' hr' => h r' (List.mem_cons_of_mem _ hr')

theorem Socket.Plain.input_eq_nil (h : k.Plain) (hready : k.ready = []) : k.input = [] := by
  obtain ⟨input, room⟩ := k
  cases input with
  | nil => rfl
  | cons r rest =>
    obtain ⟨b, bs, rfl⟩ := ReadResult.octets_cases (h r List.mem_cons_self)
    simp [Socket.ready, readyOctets] at hready

theorem Socket.read_plain (n : ℤ) (h : k.Plain) : (k.read n).2.Plain := by
  obtain ⟨input, room⟩ := k
  cases input with
  | nil => exact h
  | cons r rest =>
    obtain ⟨b, bs, rfl⟩ := ReadResult.octets_cases (h r List.mem_cons_self)
    have hrest : ∀ r' ∈ rest, r'.octets ≠ [] := fun r' hr' => h r' (List.mem_cons_of_mem _ hr')
    simp only [Socket.read]
    split_ifs with hle
    · exact hrest
    · intro r' hr'
      rcases List.mem_cons.mp hr' with rfl | hmem
      · simp only [ReadResult.octets, ne_eq, List.drop_eq_nil_iff]
        simp only [List.length_cons] at hle ⊢
        omega
      · exact hrest r' hmem

theorem Socket.Plain.of_input {k' : Socket} (h : k.Plain) (hinput : k'.input = k.input) : k'.Plain := by
  simp only [Socket.Plain, hinput]
  exact h

theorem Sending.arrives (x : Sending) {s : Server} {fd : ℤ} (h : (s.sockets fd).input = []) :
    ((s.receive fd x.pieces).sockets fd).Plain ∧
      ((s.receive fd x.pieces).sockets fd).ready = x.call.sends := by
  have hinput : ((s.receive fd x.pieces).sockets fd).input = x.pieces.map .data := by
    simp [Server.receive, Socket.receive, h]
  refine ⟨fun r hr => ?_, ?_⟩
  · rw [hinput] at hr
    obtain ⟨bs, hbs, rfl⟩ := List.mem_map.mp hr
    exact fun hnil => x.positive (hnil ▸ hbs)
  · rw [← x.all, Socket.ready, hinput]
    exact (positive_arrive x.positive).1

end Pieces

/-! ## The daemon at work -/

structure Sane (s : Server) : Prop where
  wellFormed : s.objects.WellFormed
  paired : s.objects.Paired
  named : s.Named

/-- Between two calls. -/
structure AtRest (c : Ptr) (s : Server) : Prop where
  sane : Sane s
  rests : Attentive c s ∨ Refused c s

/-- During a call. -/
structure AtWork (c : Ptr) (x : Sending) (s : Server) : Prop where
  sane : Sane s
  keyed : x.call.Keyed
  fits : ∃ last, (Framer.reading false last x.call.sends).Fits c s
  plain : (s.sockets (s.client c).fd).Plain
  whole : (s.sockets (s.client c).fd).TakesWhole

section Working

variable {cfg : Config} {env : PollEnv} {c : Ptr} {s t : Server} {a : Action} {x : Sending}

theorem Sane.step (h : Sane s) (hok : ResetsIdle s a) (hstep : step cfg s a = some t) : Sane t where
  wellFormed := step_wellFormed h.wellFormed hstep
  paired := step_paired h.wellFormed h.paired hok hstep
  named := step_named h.named hstep

theorem Sane.receive (h : Sane s) (fd : ℤ) (pieces : List (List Octet)) : Sane (s.receive fd pieces) :=
  ⟨h.wellFormed, h.paired, h.named⟩

theorem AtWork.active (h : AtWork c x s) :
    c ∈ s.esdClientsList ∧ (s.client c).state ≠ .streamingData := by
  obtain ⟨last, hfits⟩ := h.fits
  have hinvocation := LibCall.invocation_sends h.keyed last
  by_contra hnot
  have hover : s.Over c := by
    by_contra hover
    simp only [Server.Over, not_or] at hover
    exact hnot ⟨not_not.mp hover.1, hover.2.1⟩
  rw [hfits.stuck hover] at hinvocation
  cases hinvocation

/-- There are octets left: the daemon does not wait for more of the call. -/
theorem AtWork.occupied (h : AtWork c x s) : Occupied c s := by
  obtain ⟨last, hfits⟩ := h.fits
  have hinvocation := LibCall.invocation_sends h.keyed last
  refine ⟨h.active.1, fun hnil => ?_⟩
  rw [hfits.stuck (.inr (.inr hnil))] at hinvocation
  cases hinvocation

theorem Attentive.receives (h : Attentive c s) (hsane : Sane s) (hkey : x.call.Keyed) :
    AtWork c x (s.receive (s.client c).fd x.pieces) := by
  obtain ⟨hplain, hready⟩ := x.arrives h.read
  have hwhole : ((s.receive (s.client c).fd x.pieces).sockets (s.client c).fd).TakesWhole := by
    have hroom : ((s.receive (s.client c).fd x.pieces).sockets (s.client c).fd).room =
        (s.sockets (s.client c).fd).room := by
      simp [Server.receive, Socket.receive]
    simp only [Socket.TakesWhole, hroom]
    exact h.whole
  have hfits : (Framer.reading false (s.client c).request x.call.sends).Fits c
      (s.receive (s.client c).fd x.pieces) := by
    have hbetween := Framer.Fits.between (c := c) (s := s.receive (s.client c).fd x.pieces)
      ⟨h.listed, hplain.flows⟩ h.state
    change (Framer.reading (s.client c).swapByteOrder (s.client c).request
      ((s.receive (s.client c).fd x.pieces).sockets (s.client c).fd).ready).Fits c _ at hbetween
    rwa [h.order, hready] at hbetween
  exact ⟨hsane.receive _ _, hkey, ⟨_, hfits⟩, hplain, hwhole⟩

/-! ### The steps of others -/

theorem SameConnection.cases (h : SameConnection c a) :
    (∃ env, a = .poll c env) ∨ c ∉ (a.footprint s).clients := by
  by_cases hc : c ∈ (a.footprint s).clients
  · cases a with
    | accept d fd socket =>
      obtain rfl : c = d := hc
      exact absurd rfl h
    | poll d env =>
      obtain rfl : c = d := hc
      exact .inl ⟨env, rfl⟩
    | _ => exact absurd hc (Set.notMem_empty c)
  · exact .inr hc

theorem Still.since {fd : ℤ} (h : Still fd s t) : writtenSince fd s t = [] := by
  obtain ⟨es, hes, hnone⟩ := h.events
  rw [writtenSince_of_events hes, hnone]

/-- What others do to a connection. -/
structure PassesBy (c : Ptr) (s t : Server) : Prop where
  client : t.client c = s.client c
  still : Still (s.client c).fd s t
  listed : c ∈ t.esdClientsList

theorem step_passesBy (h : Sane s) (hsame : SameConnection c a) (hstep : step cfg s a = some t)
    (hlisted : c ∈ s.esdClientsList) (active : (s.client c).state ≠ .streamingData)
    (hc : c ∉ (a.footprint s).clients) : PassesBy c s t := by
  have hreset := hsame.not_reset
  obtain ⟨hstill, hkept⟩ := step_still h.wellFormed h.paired hstep hreset hc hlisted active
  exact ⟨(step_effects h.wellFormed hstep hreset).client_frame hc, hstill, hkept⟩

theorem PassesBy.attentive (h : PassesBy c s t) (ha : Attentive c s) : Attentive c t where
  listed := h.listed
  state := by rw [h.client, ha.state]
  order := by rw [h.client, ha.order]
  read := by rw [h.client, h.still.socket, ha.read]
  whole := by
    rw [h.client, h.still.socket]
    exact ha.whole

theorem PassesBy.atWork (h : PassesBy c s t) (hsane : Sane t) (hw : AtWork c x s) : AtWork c x t := by
  obtain ⟨last, hfits⟩ := hw.fits
  refine ⟨hsane, hw.keyed, ⟨last, ?_⟩, ?_, ?_⟩
  · exact hfits.unmoved h.client (congrArg Socket.input h.still.socket) (fun _ _ => h.listed)
      fun hgone => absurd hw.active.1 hgone
  · rw [h.client, h.still.socket]
    exact hw.plain
  · rw [h.client, h.still.socket]
    exact hw.whole

theorem Refused.step (h : Refused c s) (hsane : Sane s) (hsame : SameConnection c a)
    (hstep : step cfg s a = some t) : Refused c t := by
  obtain ⟨hgone, hlast⟩ := h
  have hreset := hsame.not_reset
  have hc : c ∉ (a.footprint s).clients := by
    rcases hsame.cases (s := s) with ⟨env, rfl⟩ | hc
    · exact absurd (step_eq_some hstep).1.1 hgone
    · exact hc
  obtain ⟨calls, hcalls, hnone⟩ := step_others hsane.wellFormed hstep hreset hc
  refine ⟨fun hnow => hgone ((step_effects hsane.wellFormed hstep hreset).clients_frame hc hnow), ?_⟩
  have hsame : framesOf c t.calls = framesOf c s.calls := by
    rw [hcalls, framesOf, List.filterMap_append, ← framesOf, ← framesOf, hnone, List.append_nil]
  rwa [hsame]

theorem AtRest.step {l : Connection} (h : AtRest c l.server) (hgood : Uninterrupted c l (.serves a))
    (hstep : step cfg l.server a = some t) :
    AtRest c t ∧ (service cfg c).writes l.server t = [] := by
  obtain ⟨hsame, -, hattends⟩ := hgood
  have hsane : Sane t := h.sane.step (fun hreset => absurd hreset hsame.not_reset) hstep
  rcases h.rests with hattentive | hrefused
  · rcases hsame.cases (s := l.server) with ⟨env, rfl⟩ | hc
    · have hcan : env.canRead = false := by
        rw [← Bool.not_eq_true]
        exact fun hcan => (hattends rfl).1 hcan hattentive.read
      obtain ⟨-, hpoll⟩ := step_eq_some hstep
      obtain rfl : l.server = t := by
        simpa [Action.apply, pollClient, pollTurn, hcan] using hpoll
      refine ⟨h, ?_⟩
      simp [service, writtenSince, writtenTo]
    · have hpasses := step_passesBy h.sane hsame hstep hattentive.listed (by simp [hattentive.state]) hc
      refine ⟨⟨hsane, .inl (hpasses.attentive hattentive)⟩, ?_⟩
      simp [service, hattentive.listed, hpasses.still.since]
  · refine ⟨⟨hsane, .inr (hrefused.step h.sane hsame hstep)⟩, ?_⟩
    simp [service, hrefused.1]

/-! ### The turn of the client -/

/-- What reads keep of sockets is kept by those of a turn. -/
def Opening.Keeps (P : Socket → Prop) (fd : ℤ) : Opening → Prop
  | done t _ | handles _ t => P (t.sockets fd)
  | resumes => True

theorem opening_keeps {P : Socket → Prop} {fd : ℤ} (hP : ∀ k n, P k → P (k.read n).2)
    (h : P (s.sockets fd)) : (opening env s c).Keeps P fd := by
  have hdata : ∀ request, P ((readReqdata request s c).1.sockets fd) :=
    fun _ => sysRead_keeps hP h (s.client c).fd _
  have hword : P ((readRequestWord s c).1.sockets fd) := sysRead_keeps hP h (s.client c).fd 4
  simp only [opening]
  split_ifs
  · exact h
  · cases (s.client c).state with
    | streamingData => exact h
    | cachingSample => trivial
    | needsReqdata =>
      simp only [openReqdata]
      split
      · exact h
      · split_ifs
        · exact h
        · exact hdata _
        · exact hdata _
        · exact hdata _
    | nextRequest =>
      simp only [openRequest]
      split_ifs
      · exact hword
      · split
        · exact hword
        · exact hword
        · simp only [openBegun]
          split_ifs <;> exact hword

/-- A request that has parameters is only handled after these were read. -/
theorem opening_handles {request : Proto} {u : Server} (h : opening env s c = .handles request u) :
    (s.client c).state = .needsReqdata ∨ request.dataLength = 0 := by
  simp only [opening] at h
  split_ifs at h
  cases hstate : (s.client c).state with
  | streamingData => simp [hstate] at h
  | cachingSample => simp [hstate] at h
  | needsReqdata => exact .inl rfl
  | nextRequest =>
    simp only [hstate, openRequest] at h
    split_ifs at h
    split at h
    · cases h
    · cases h
    · simp only [openBegun] at h
      split_ifs at h with hbare
      cases h
      exact .inr hbare

variable (cfg) in
theorem cacheInto_plain {q : Ptr} {fd : ℤ} (h : (s.sockets fd).Plain) :
    ((cacheInto cfg s c q).1.sockets fd).Plain := by
  have hread : ((readSample cfg (s.setSample q { s.sample q with parent := c }) q).1.sockets fd).Plain :=
    readSample_keeps cfg q (fun _ n => Socket.read_plain n) h
  simp only [cacheInto]
  generalize readSample cfg (s.setSample q { s.sample q with parent := c }) q = v at hread ⊢
  obtain ⟨u, ok⟩ := v
  cases ok with
  | false => exact hread
  | true =>
    dsimp only at hread ⊢
    split_ifs
    · exact hread
    · exact hread.of_input ((reply_unread _).input fd)

theorem handler_plain {request : Proto} {r : Server × Bool} {fd : ℤ} (h : (s.sockets fd).Plain)
    (state : (s.client c).state = .nextRequest) (hhandler : handler cfg env request s c = some r) :
    (r.1.sockets fd).Plain := by
  by_cases hcache : request = .sampleCache
  · subst hcache
    obtain ⟨hsame, -⟩ := newSample_cached cfg env s c
    have hnew : ((newSample cfg env s c).1.sockets fd).Plain := h.of_input (hsame.input fd)
    have hnot : (s.client c).state ≠ .cachingSample := by simp [state]
    simp only [handler, esdProtoSampleCache, hnot, if_false] at hhandler
    split_ifs at hhandler <;> cases hhandler
    · exact hnew
    · exact cacheInto_plain cfg hnew
  · exact h.of_input ((handler_unread hcache hhandler).input fd)

/-- The handler of the call's request is about to be called, with all that was sent for it. -/
structure Handed (c : Ptr) (k : LibCall) (s : Server) : Prop where
  called : ∃ f, Called c f k.request s
  params : load (s.client c).protoData 0 k.request.dataLength.toNat = k.params
  data : (s.sockets (s.client c).fd).ready = k.data
  order : (s.client c).swapByteOrder = false
  plain : (s.sockets (s.client c).fd).Plain
  whole : (s.sockets (s.client c).fd).TakesWhole

theorem AtWork.handed {request : Proto} {u : Server} (h : AtWork c x s)
    (whole : env.canRead = true → (s.client c).state = .nextRequest → s.WholeWord c)
    (hopen : opening env s c = .handles request u) : request = x.call.request ∧ Handed c x.call u := by
  obtain ⟨last, hfits⟩ := h.fits
  have hcalled := opening_follows hfits h.active.1 whole
  have hheard := opening_fits env c s
  have hplain : (opening env s c).Keeps Socket.Plain (s.client c).fd :=
    opening_keeps (fun _ n => Socket.read_plain n) h.plain
  have hwhole : (opening env s c).Keeps Socket.TakesWhole (s.client c).fd :=
    opening_keeps (fun _ n => Socket.read_whole n) h.whole
  rw [hopen] at hcalled hheard hplain hwhole
  change Called c _ request u at hcalled
  have hsame := hcalled.invocation.symm.trans (LibCall.invocation_sends h.keyed last)
  obtain ⟨rfl, hparams⟩ : request = x.call.request ∧ _ := Prod.mk.inj (Option.some.inj hsame)
  have hnext := hcalled.next.symm.trans (x.call.next_sends last)
  have hbytes := (Prod.mk.inj (Option.some.inj hnext)).2
  rw [hparams] at hbytes
  have hfd : (u.client c).fd = (s.client c).fd := hheard.1.fd
  refine ⟨rfl, ⟨_, hcalled⟩, hparams, List.append_cancel_left hbytes, ?_, ?_, ?_⟩
  · exact (hcalled.swap x.call.request_plain.1).symm
  · rw [hfd]
    exact hplain
  · rw [hfd]
    exact hwhole

theorem Handed.attentive {k : LibCall} {r : Server × Bool} (h : Handed c k s) (hnull : c ≠ 0)
    (hhandler : handler cfg env k.request s c = some r) (hok : r.2 = true)
    (hwhole : (r.1.sockets (s.client c).fd).TakesWhole) : Attentive c r.1 := by
  obtain ⟨f, hcalled⟩ := h.called
  obtain ⟨hconnect, hopens⟩ := k.request_plain
  obtain ⟨hlisted, hclient, -, hready⟩ := hcalled.leaves hnull hhandler hok hopens hconnect
  have hnone : (r.1.sockets (s.client c).fd).ready = [] := by
    rw [hready, h.data]
    split_ifs with hcache
    · rw [LibCall.told_length hcache h.order h.params, Int.toNat_natCast, List.drop_length]
    · rw [LibCall.data_eq_nil hcache, List.drop_nil]
  have hplain := handler_plain h.plain hcalled.state hhandler
  refine ⟨hlisted, by rw [hclient, hcalled.state], by rw [hclient, h.order], ?_, ?_⟩
  · rw [hclient]
    exact hplain.input_eq_nil hnone
  · rwa [hclient]

theorem Attentive.record (h : Attentive c s) (x : Call) : Attentive c (s.record x) :=
  ⟨h.listed, h.state, h.order, h.read, h.whole⟩

theorem Handed.refused {k : LibCall} {r : Server × Bool} (h : Handed c k s) (hw : s.objects.WellFormed)
    (fresh : Action.Fresh s env.malloc) (hhandler : handler cfg env k.request s c = some r)
    (hok : r.2 = false) (hauth : k.request.Authorizes) :
    Refused c (eraseClient (r.1.record
      (.handled c k.request (load (s.client c).protoData 0 k.request.dataLength.toNat) r.2)) c) := by
  obtain ⟨f, hcalled⟩ := h.called
  obtain ⟨v, hv⟩ : ∃ v, v = r.1.record
      (.handled c k.request (load (s.client c).protoData 0 k.request.dataLength.toNat) r.2) := ⟨_, rfl⟩
  obtain ⟨hwell, hcalls⟩ := hcalled.recorded hhandler hw fresh v hv
  have herased : (eraseClient v c).calls = v.calls := calls_of_ledger (ledger_afterTurn c (v, false))
  rw [← hv]
  refine ⟨erased_notMem (r := (v, false)) hwell rfl,
    ⟨k.request, load (s.client c).protoData 0 k.request.dataLength.toNat, false⟩, ?_, rfl, hauth⟩
  rw [herased, hcalls, hok]
  simp [framesOf]

theorem Server.IdsPositive.heard {t : Server} (h : s.IdsPositive) (hheard : Heard c s t) :
    t.IdsPositive := by
  rw [hheard.rest]
  exact h

theorem Server.Named.heard {t : Server} (h : s.Named) (hheard : Heard c s t) : t.Named := by
  rw [hheard.rest]
  exact h

theorem Heard.replies {fd : ℤ} (h : Heard c s t) (hwhole : (t.sockets fd).TakesWhole) :
    Replies fd [] s t := by
  have hevents : t.events = s.events := by rw [h.rest]
  exact ⟨⟨[], by rw [hevents, List.append_nil], rfl⟩, hwhole⟩

theorem AtWork.poll (h : AtWork c x s) (hgood : Uninterrupted c ⟨s, [], some x⟩ (.serves (.poll c env)))
    (hpositive : TellsPositive c ⟨s, [], some x⟩ (.poll c env))
    (hstep : step cfg s (.poll c env) = some t) :
    AtWork c x t ∧ (service cfg c).writes s t = [] ∨
      AtRest c t ∧ (service cfg c).read x ((service cfg c).writes s t) = some [] := by
  obtain ⟨-, hwhole, hattends⟩ := hgood
  have hsane : Sane t := h.sane.step (fun hreset => absurd hreset id) hstep
  obtain ⟨last, hfits⟩ := h.fits
  have hlisted := h.active.1
  have hnull : c ≠ 0 := fun he => h.sane.wellFormed.client_ne_null (he ▸ hlisted)
  obtain ⟨⟨-, fresh⟩, hturn⟩ := step_eq_some hstep
  have hfollows := opening_follows hfits hlisted (hwhole rfl)
  have hheard := opening_fits env c s
  have hplain : (opening env s c).Keeps Socket.Plain (s.client c).fd :=
    opening_keeps (fun _ n => Socket.read_plain n) h.plain
  have htakes : (opening env s c).Keeps Socket.TakesWhole (s.client c).fd :=
    opening_keeps (fun _ n => Socket.read_whole n) h.whole
  obtain ⟨r, hr, rfl⟩ := Option.map_eq_some_iff.mp hturn
  rw [pollTurn_eq] at hr
  cases hopen : opening env s c with
  | resumes =>
    rw [hopen] at hfollows
    exact hfollows.elim
  | done u ok =>
    rw [hopen] at hr hfollows hheard hplain htakes
    cases hr
    cases ok with
    | false =>
      -- all that the handler waits for was sent
      have hstuck := hfollows.2 rfl
      rw [LibCall.invocation_sends h.keyed last] at hstuck
      cases hstuck
    | true =>
      have hquiet : Replies (s.client c).fd [] s u := Heard.replies hheard htakes
      refine .inl ⟨⟨hsane, h.keyed, ⟨last, hfollows.1 rfl⟩, ?_, ?_⟩, ?_⟩
      · simp only [if_true, hheard.fd]
        exact hplain
      · simp only [if_true, hheard.fd]
        exact htakes
      · simp only [service, hlisted, if_true]
        exact hquiet.since
  | handles request u =>
    obtain ⟨rfl, hhanded⟩ := h.handed (hwhole rfl) hopen
    have hstate := opening_handles hopen
    rw [hopen] at hr hheard
    obtain ⟨hheard, -⟩ := hheard
    obtain ⟨r', hr', rfl⟩ := Option.map_eq_some_iff.mp hr
    obtain ⟨f, hcalled⟩ := hhanded.called
    have hinfo : x.call = .getAllInfo → u.Named ∧ u.IdsPositive := by
      intro hall
      refine ⟨h.sane.named.heard hheard, Server.IdsPositive.heard ?_ hheard⟩
      have hrequest : x.call.request = .allInfo := by rw [hall]; rfl
      refine hpositive rfl (hstate.resolve_right ?_) x rfl hrequest
      rw [hrequest]
      decide
    obtain ⟨⟨bs, v, hreplies, hreads⟩, hauth⟩ := LibCall.answered h.keyed hhanded.whole hhanded.order
      hcalled.state hcalled.receiving.flows hhanded.params hhanded.data ((hattends rfl).2 x rfl) hinfo hr'
    have hfresh : Action.Fresh u env.malloc := by
      simp only [Action.Fresh, hheard.lists.2.1, hheard.lists.2.2]
      exact fresh
    have hwell := hheard.wellFormed h.sane.wellFormed
    have hbegun : Replies (u.client c).fd [] s u := Heard.replies hheard hhanded.whole
    have hreplied := hbegun.trans hreplies
    have hread : x.call.reads bs = some (v, []) := by
      have hall := hreads []
      rwa [List.append_nil] at hall
    have hwrote : ∀ t, Still (u.client c).fd r'.1 t →
        (service cfg c).read x ((service cfg c).writes s t) = some [] := by
      intro t hstill
      have hsince := (hreplied.still hstill).since
      rw [hheard.fd, List.nil_append] at hsince
      simp only [service, hlisted, if_true, hsince, hread, Option.map_some]
    refine .inr ⟨⟨hsane, ?_⟩, ?_⟩
    · split_ifs with hok
      · exact .inl ((hhanded.attentive hnull hr' hok hreplies.whole).record _)
      · have hbad : r'.2 = false := Bool.eq_false_of_not_eq_true hok
        exact .inr (hhanded.refused hwell hfresh hr' hbad (hauth hbad))
    · split_ifs
      · exact hwrote _ (.of_eq rfl rfl)
      · refine hwrote _ (Still.trans ?_ (eraseClient_idles.still _))
        exact .of_eq rfl rfl

theorem AtWork.step (h : AtWork c x s) (hgood : Uninterrupted c ⟨s, [], some x⟩ (.serves a))
    (hpositive : TellsPositive c ⟨s, [], some x⟩ a) (hstep : step cfg s a = some t) :
    AtWork c x t ∧ (service cfg c).writes s t = [] ∨
      AtRest c t ∧ (service cfg c).read x ((service cfg c).writes s t) = some [] := by
  have hsame : SameConnection c a := hgood.1
  rcases hsame.cases (s := s) with ⟨env, rfl⟩ | hc
  · exact h.poll hgood hpositive hstep
  · have hsane : Sane t := h.sane.step (fun hreset => absurd hreset hsame.not_reset) hstep
    have hpasses := step_passesBy h.sane hsame hstep h.active.1 h.active.2 hc
    refine .inl ⟨hpasses.atWork hsane h, ?_⟩
    simp [service, h.active.1, hpasses.still.since]

theorem LibCall.reads_nil (k : LibCall) : k.reads [] = none := by
  cases k with
  | lock auth | unlock auth | standby auth | resume auth => cases auth <;> rfl
  | _ => rfl

variable (cfg c) in
theorem service_answers : Answers (service cfg c) (fun l m => Uninterrupted c l m ∧ Answerable c l m)
    (AtRest c) (AtWork c) where
  sent s x t hrest hgood hsend := by
    simp only [service] at hsend
    split_ifs at hsend with hlisted
    cases hsend
    have hattentive : Attentive c s := hrest.rests.resolve_right fun hrefused => hrefused.1 hlisted
    exact hattentive.receives hrest.sane hgood.2
  rests l a t hrest hgood hstep := AtRest.step hrest hgood.1 hstep
  serves s x a t hwork hgood hstep := hwork.step hgood.1 hgood.2 hstep
  unread x := by simp [service, LibCall.reads_nil]

end Working

/-! ## Lockstep -/

section Connections

variable {cfg : Config} {c : Ptr} {s₀ s : Server} {as : List Action} {ms : List (Move Action Sending)}
  {l : Connection}

/-- Whatever calls a connected client makes and whatever else the daemon does in between: after
every call the daemon waits for the next request of the client, or has refused it, and nothing
is left unread on either side. During a call there is something for the daemon to read, or it has
written what the call reads, and nothing else. -/
theorem client_server_lockstep (hstart : s₀.Initial) (hnames : s₀.Named)
    (hbefore : Runs cfg ResetsIdle s₀ as s) (hconnected : Attentive c s)
    (hrun : Run (service cfg c).move (fun l m => Uninterrupted c l m ∧ Answerable c l m)
      ⟨s, [], none⟩ ms l) :
    InStep (service cfg c) (fun s => Attentive c s ∨ Refused c s) (fun _ s => Occupied c s) l := by
  have hsane : Sane s := hbefore.invariant Sane (fun _ _ _ hs hok hstep => hs.step hok hstep)
    ⟨hstart.wellFormed, hstart.paired, hnames⟩
  have hbegin : InStep (service cfg c) (AtRest c) (AtWork c) ⟨s, [], none⟩ :=
    .between ⟨hsane, .inl hconnected⟩
  exact (hbegin.run (service_answers cfg c) hrun).mono (fun _ hrest => hrest.rests)
    fun _ _ hwork => hwork.occupied

end Connections

/-! A client that connects, and then has the daemon locked. -/

def connectRun : List Action :=
  [.accept 1 5 (.sending [handshake 7]), .poll 1 (.allocating 9)]

def lockCall (auth : Option AuthKey) : Sending where
  call := .lock auth
  pieces := [(LibCall.lock auth).sends]
  positive := by simpa using (LibCall.lock auth).sends_ne_nil.symm
  all := by simp

def ownKey : AuthKey := ⟨List.replicate esdKeyLen 7, List.length_replicate⟩

/-- It makes its call, and has two turns. -/
def lockMoves (auth : Option AuthKey) : List (Move Action Sending) :=
  .calls (lockCall auth) :: List.replicate 2 (.serves (.poll 1 (.allocating 9)))

theorem connectRun_ends : (exec (step .smallBlocks) NoReset .blank connectRun).isSome := by
  decide +kernel

def connected : Server := (exec (step .smallBlocks) NoReset .blank connectRun).get connectRun_ends

theorem connected_attentive :
    Runs .smallBlocks ResetsIdle .blank connectRun connected ∧ Attentive 1 connected :=
  ⟨(Run.of_isSome connectRun_ends).mono fun _ _ hno hreset => absurd hreset hno,
    by decide +kernel, by decide +kernel, by decide +kernel, by decide +kernel, by decide +kernel⟩

theorem lockMoves_end : (exec (service .smallBlocks 1).move
    (fun l m => Uninterrupted 1 l m ∧ Answerable 1 l m) ⟨connected, [], none⟩
    (lockMoves (some ownKey))).isSome := by
  decide +kernel

theorem client_server_lockstep_lock :
    ∃ l, Run (service .smallBlocks 1).move (fun l m => Uninterrupted 1 l m ∧ Answerable 1 l m)
      ⟨connected, [], none⟩ (lockMoves (some ownKey)) l ∧ l.inbox.length = 8 ∧
        InStep (service .smallBlocks 1) (fun s => Attentive 1 s ∨ Refused 1 s)
          (fun _ s => Occupied 1 s) l := by
  obtain ⟨hbefore, hconnected⟩ := connected_attentive
  exact ⟨_, Run.of_isSome lockMoves_end, by decide +kernel,
    client_server_lockstep Server.blank_initial Server.blank_named hbefore hconnected
      (Run.of_isSome lockMoves_end)⟩

theorem keyless_end : (exec (service .smallBlocks 1).move (Uninterrupted 1) ⟨connected, [], none⟩
    ((lockMoves none).take 2)).isSome := by
  decide +kernel

/-- Without a key the client waits for the daemon, and the daemon for the client. -/
theorem lock_without_key :
    ∃ l, Run (service .smallBlocks 1).move (Uninterrupted 1) ⟨connected, [], none⟩
      ((lockMoves none).take 2) l ∧
        ¬ InStep (service .smallBlocks 1) (fun s => Attentive 1 s ∨ Refused 1 s)
          (fun _ s => Occupied 1 s) l := by
  refine ⟨_, Run.of_isSome keyless_end, fun hin => ?_⟩
  have hwaits : Occupied 1 _ := hin.at_work (k := lockCall none) rfl rfl
  exact hwaits.2 (by decide +kernel)

end Esound
