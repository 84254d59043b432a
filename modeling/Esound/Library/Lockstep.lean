import Esound.Library.Transition

/-!
# Calls over a connection

A client makes calls of a server, one at a time, over a connection that keeps the order of what
is sent. A call sends its request and then reads its reply; what the server has written waits
for it. Both are in lockstep when no call leaves anything behind. Whether they are is decided by
the single steps of the server, and carried to whole runs here.
-/

namespace Library.Lockstep

open Library.Transition

variable {σ α κ β : Type*}

/-- A server as its client has to do with it: its steps, what a step from one state to another
writes to the client, what a call sends, and what a call that reads its reply leaves of what
was written. -/
structure Service (σ α κ β : Type*) where
  step : σ → α → Option σ
  writes : σ → σ → List β
  send : σ → κ → Option σ
  read : κ → List β → Option (List β)

/-- The server, what it has written that was not read yet, and the call the client is in. -/
structure Link (σ κ β : Type*) where
  server : σ
  inbox : List β
  call : Option κ

inductive Move (α κ : Type*)
  | calls (k : κ)
  | serves (a : α)
  | returns

/-- A call is only made when the one before it has returned, and returns when its reply is
there. -/
def Service.move (S : Service σ α κ β) (l : Link σ κ β) : Move α κ → Option (Link σ κ β)
  | .calls k =>
    match l.call with
    | none => (S.send l.server k).map fun s => ⟨s, l.inbox, some k⟩
    | some _ => none
  | .serves a => (S.step l.server a).map fun s => ⟨s, l.inbox ++ S.writes l.server s, l.call⟩
  | .returns => l.call.bind fun k => (S.read k l.inbox).map fun rest => ⟨l.server, rest, none⟩

/-- Nothing is left between two calls. During a call the server has written nothing and is at
work on it, or it is through and has written what the call reads. -/
inductive InStep (S : Service σ α κ β) (quiet : σ → Prop) (works : κ → σ → Prop) : Link σ κ β → Prop
  | between {s : σ} (still : quiet s) : InStep S quiet works ⟨s, [], none⟩
  | waits {s : σ} {k : κ} (busy : works k s) : InStep S quiet works ⟨s, [], some k⟩
  | answered {s : σ} {k : κ} {reply : List β} (still : quiet s) (reads : S.read k reply = some []) :
      InStep S quiet works ⟨s, reply, some k⟩

/-- What single steps have to do for that. -/
structure Answers (S : Service σ α κ β) (good : Link σ κ β → Move α κ → Prop) (quiet : σ → Prop)
    (works : κ → σ → Prop) : Prop where
  sent : ∀ s k t, quiet s → good ⟨s, [], none⟩ (.calls k) → S.send s k = some t → works k t
  rests : ∀ (l : Link σ κ β) a t, quiet l.server → good l (.serves a) →
    S.step l.server a = some t → quiet t ∧ S.writes l.server t = []
  serves : ∀ s k a t, works k s → good ⟨s, [], some k⟩ (.serves a) → S.step s a = some t →
    works k t ∧ S.writes s t = [] ∨ quiet t ∧ S.read k (S.writes s t) = some []
  unread : ∀ k, S.read k [] = none

section

variable {S : Service σ α κ β} {good : Link σ κ β → Move α κ → Prop} {quiet : σ → Prop}
  {works : κ → σ → Prop} {l l' : Link σ κ β} {m : Move α κ} {ms : List (Move α κ)}

theorem InStep.move (hS : Answers S good quiet works) (h : InStep S quiet works l) (hgood : good l m)
    (hmove : S.move l m = some l') : InStep S quiet works l' := by
  cases m with
  | calls k =>
    cases h with
    | between still =>
      obtain ⟨t, ht, rfl⟩ := Option.map_eq_some_iff.mp hmove
      exact .waits (hS.sent _ k t still hgood ht)
    | waits busy => cases hmove
    | answered still reads => cases hmove
  | serves a =>
    obtain ⟨t, ht, rfl⟩ := Option.map_eq_some_iff.mp hmove
    cases h with
    | between still =>
      obtain ⟨hstill, hnone⟩ := hS.rests _ a t still hgood ht
      dsimp only at hnone ⊢
      rw [hnone]
      exact .between hstill
    | waits busy =>
      rcases hS.serves _ _ a t busy hgood ht with ⟨hbusy, hnone⟩ | ⟨hstill, hreads⟩
      · dsimp only
        rw [hnone]
        exact .waits hbusy
      · exact .answered hstill hreads
    | answered still reads =>
      obtain ⟨hstill, hnone⟩ := hS.rests _ a t still hgood ht
      dsimp only at hnone ⊢
      rw [hnone, List.append_nil]
      exact .answered hstill reads
  | returns =>
    obtain ⟨k, hk, hrest⟩ := Option.bind_eq_some_iff.mp hmove
    obtain ⟨rest, hread, rfl⟩ := Option.map_eq_some_iff.mp hrest
    cases h with
    | between still => cases hk
    | waits busy =>
      cases hk
      exact absurd ((hS.unread k).symm.trans hread) (by simp)
    | answered still reads =>
      cases hk
      cases Option.some.inj (reads.symm.trans hread)
      exact .between still

theorem InStep.mono {quiet' : σ → Prop} {works' : κ → σ → Prop} (hquiet : ∀ s, quiet s → quiet' s)
    (hworks : ∀ k s, works k s → works' k s) (h : InStep S quiet works l) :
    InStep S quiet' works' l := by
  cases h with
  | between still => exact .between (hquiet _ still)
  | waits busy => exact .waits (hworks _ _ busy)
  | answered still reads => exact .answered (hquiet _ still) reads

theorem InStep.at_work {k : κ} (h : InStep S quiet works l) (hcall : l.call = some k)
    (hunread : S.read k l.inbox = none) : works k l.server := by
  cases h with
  | between still => cases hcall
  | waits busy =>
    cases hcall
    exact busy
  | answered still reads =>
    cases hcall
    exact absurd (hunread.symm.trans reads) (by simp)

theorem InStep.run (hS : Answers S good quiet works) (h : InStep S quiet works l)
    (hrun : Run S.move good l ms l') : InStep S quiet works l' :=
  hrun.invariant _ (fun _ _ _ hl hgood hmove => hl.move hS hgood hmove) h

end

end Library.Lockstep
