import Esound.Calls

/-!
# The authorization file

`esd_send_auth` with the file in the home directory. Any number of programs call it, at the same
time and one after the other; each may be stopped anywhere. Nobody else touches the file.
-/

open Library.Transition

namespace Esound

/-- Where a call of `esd_send_auth` stands. -/
inductive AuthPlace
  | home
  | opening
  | creating
  | choosing
  | filling (key : AuthKey) (nwritten : ℕ)
  | reading
  | sending (key : AuthKey)
  | returned (retval : ℤ)
  | stopped
  deriving DecidableEq

namespace AuthPlace

/-- The file was made by this call, and the call is not done with it. -/
def Making : AuthPlace → Prop
  | choosing | filling _ _ => True
  | _ => False

instance : DecidablePred Making := fun p => by cases p <;> unfold Making <;> infer_instance

def key : AuthPlace → Option AuthKey
  | filling key _ | sending key => some key
  | _ => none

end AuthPlace

/-- `sent` is what the server was sent. -/
structure AuthCall where
  place : AuthPlace
  sent : List Octet
  deriving DecidableEq

inductive AuthInput
  | home (found : Bool)
  | rdonly (opened : Bool)
  | create (created : Bool)
  /-- without a key, `esound_genrand` aborts -/
  | genrand (key : Option AuthKey)
  /-- a `write` to the file takes so many octets at most, or `write_timeout` gives up -/
  | write (taken : Option ℕ)
  /-- the one `read` from the file; one that fails is as one of nothing -/
  | read (actual : ℕ)
  /-- so much goes to the server at most, and this is its answer -/
  | send (taken : ℕ) (reply : Option Word)
  | killed

/-- `write` where the descriptor stands. -/
def writeAt (file : List Octet) (offset : ℕ) (piece : List Octet) : List Octet :=
  file.take offset ++ piece ++ file.drop (offset + piece.length)

/-- What the server is sent. -/
def AuthKey.message (key : AuthKey) : List Octet := (esdSendAuth (some key)).1

namespace AuthCall

def start : AuthCall := ⟨.home, []⟩

/-- What is returned when so much of the message was taken. -/
def retval (message : List Octet) (taken : ℕ) (reply : Option Word) : ℤ :=
  if taken < message.length then 0
  else
    match reply with
    | none => 0
    | some reply => if reply = 0 then 0 else 1

/-- A step of the call; `none` for what cannot come at that place. That the file could not be
written does not keep its key from the server. -/
def advance (file : Option (List Octet)) (a : AuthCall) (i : AuthInput) :
    Option (Option (List Octet) × AuthCall) :=
  match a.place, i with
  | .returned _, _ | .stopped, _ => none
  | _, .killed => some (file, { a with place := .stopped })
  | .home, .home found => some (file, { a with place := if found then .opening else .returned (-1) })
  | .opening, .rdonly opened =>
    if opened = false then some (file, { a with place := .creating })
    else if file.isSome then some (file, { a with place := .reading })
    else none
  | .creating, .create created =>
    if created = false then some (file, { a with place := .returned 0 })
    else if file = none then some (some [], { a with place := .choosing })
    else none
  | .choosing, .genrand none => some (file, { a with place := .stopped })
  | .choosing, .genrand (some key) => some (file, { a with place := .filling key 0 })
  | .filling key _, .write none => some (file, { a with place := .sending key })
  | .filling key nwritten, .write (some n) =>
    let piece := (key.octets.drop nwritten).take n
    let nwritten' := nwritten + piece.length
    some (file.map (writeAt · nwritten piece),
      { a with place := if nwritten' < esdKeyLen then .filling key nwritten' else .sending key })
  | .reading, .read actual =>
    let authKey := (file.getD []).take (min actual esdKeyLen)
    some (file,
      { a with place := if h : authKey.length = esdKeyLen then .sending ⟨authKey, h⟩ else .returned 0 })
  | .sending key, .send taken reply =>
    some (file, ⟨.returned (retval key.message taken reply), key.message.take taken⟩)
  | _, _ => none

end AuthCall

/-- The file, if it is there, and the calls. -/
structure AuthWorld where
  file : Option (List Octet)
  call : ℕ → AuthCall

def AuthWorld.step (w : AuthWorld) (i : ℕ × AuthInput) : Option AuthWorld :=
  ((w.call i.1).advance w.file i.2).map fun r => ⟨r.1, Function.update w.call i.1 r.2⟩

/-! ## What a step can do -/

/-- The steps of a call: it goes on without a key, makes the file, chooses a key, writes some of it,
writes no more, finds a key, or sends one. -/
inductive AuthAdvances (file : Option (List Octet)) (a : AuthCall) :
    Option (List Octet) → AuthCall → Prop
  | goes {place : AuthPlace} (idle : ¬ place.Making) (nothing : place.key = none)
      (refused : place ≠ .returned 1) : AuthAdvances file a file { a with place := place }
  | makes (absent : file = none) : AuthAdvances file a (some []) { a with place := .choosing }
  | chooses (key : AuthKey) (chose : a.place = .choosing) :
      AuthAdvances file a file { a with place := .filling key 0 }
  | writes (key : AuthKey) (nwritten n : ℕ) {place : AuthPlace} (fills : a.place = .filling key nwritten)
      (next : place = .filling key (nwritten + ((key.octets.drop nwritten).take n).length) ∨
        place = .sending key) :
      AuthAdvances file a (file.map (writeAt · nwritten ((key.octets.drop nwritten).take n)))
        { a with place := place }
  | leaves (key : AuthKey) (nwritten : ℕ) (fills : a.place = .filling key nwritten) :
      AuthAdvances file a file { a with place := .sending key }
  | finds (key : AuthKey) (there : ∀ f, file = some f → f.take esdKeyLen = key.octets)
      (opened : file.getD [] ≠ []) : AuthAdvances file a file { a with place := .sending key }
  | sends (key : AuthKey) (taken : ℕ) (retval : ℤ) (has : a.place = .sending key) :
      AuthAdvances file a file ⟨.returned retval, key.message.take taken⟩

section Steps

variable {file file' : Option (List Octet)} {a a' : AuthCall} {i : AuthInput}

theorem take_min_of_length {bs : List Octet} {n : ℕ} (h : (bs.take (min n esdKeyLen)).length = esdKeyLen) :
    bs.take (min n esdKeyLen) = bs.take esdKeyLen := by
  have hmin : min n esdKeyLen = esdKeyLen := by
    rw [List.length_take] at h
    omega
  rw [hmin]

theorem AuthCall.advance_cases (h : a.advance file i = some (file', a')) :
    AuthAdvances file a file' a' := by
  cases hp : a.place with
  | returned retval => simp only [advance, hp, reduceCtorEq] at h
  | stopped => simp only [advance, hp, reduceCtorEq] at h
  | home =>
    cases i <;> simp only [advance, hp, reduceCtorEq, Option.some.injEq, Prod.mk.injEq] at h
    · obtain ⟨rfl, rfl⟩ := h
      split_ifs <;> exact .goes nofun rfl nofun
    · obtain ⟨rfl, rfl⟩ := h
      exact .goes nofun rfl nofun
  | opening =>
    cases i <;> simp only [advance, hp, reduceCtorEq, Option.some.injEq, Prod.mk.injEq] at h
    · split_ifs at h <;> cases h <;> exact .goes nofun rfl nofun
    · obtain ⟨rfl, rfl⟩ := h
      exact .goes nofun rfl nofun
  | creating =>
    cases i <;> simp only [advance, hp, reduceCtorEq, Option.some.injEq, Prod.mk.injEq] at h
    · split_ifs at h with hnot habsent <;> cases h
      · exact .goes nofun rfl nofun
      · exact .makes habsent
    · obtain ⟨rfl, rfl⟩ := h
      exact .goes nofun rfl nofun
  | choosing =>
    cases i with
    | genrand key =>
      cases key with
      | none =>
        simp only [advance, hp, Option.some.injEq, Prod.mk.injEq] at h
        obtain ⟨rfl, rfl⟩ := h
        exact .goes nofun rfl nofun
      | some key =>
        simp only [advance, hp, Option.some.injEq, Prod.mk.injEq] at h
        obtain ⟨rfl, rfl⟩ := h
        exact .chooses key hp
    | killed =>
      simp only [advance, hp, Option.some.injEq, Prod.mk.injEq] at h
      obtain ⟨rfl, rfl⟩ := h
      exact .goes nofun rfl nofun
    | _ => simp only [advance, hp, reduceCtorEq] at h
  | filling key nwritten =>
    cases i with
    | write taken =>
      cases taken with
      | none =>
        simp only [advance, hp, Option.some.injEq, Prod.mk.injEq] at h
        obtain ⟨rfl, rfl⟩ := h
        exact .leaves key nwritten hp
      | some n =>
        simp only [advance, hp, Option.some.injEq, Prod.mk.injEq] at h
        obtain ⟨rfl, rfl⟩ := h
        refine .writes key nwritten n hp ?_
        split_ifs
        · exact .inl rfl
        · exact .inr rfl
    | killed =>
      simp only [advance, hp, Option.some.injEq, Prod.mk.injEq] at h
      obtain ⟨rfl, rfl⟩ := h
      exact .goes nofun rfl nofun
    | _ => simp only [advance, hp, reduceCtorEq] at h
  | reading =>
    cases i <;> simp only [advance, hp, reduceCtorEq, Option.some.injEq, Prod.mk.injEq] at h
    · obtain ⟨rfl, rfl⟩ := h
      split_ifs with hwhole
      · refine .finds _ (fun f hf => ?_) fun hempty => ?_
        · subst hf
          exact (take_min_of_length hwhole).symm
        · rw [hempty, List.take_nil] at hwhole
          exact absurd hwhole (by decide)
      · exact .goes nofun rfl nofun
    · obtain ⟨rfl, rfl⟩ := h
      exact .goes nofun rfl nofun
  | sending key =>
    cases i <;> simp only [advance, hp, reduceCtorEq, Option.some.injEq, Prod.mk.injEq] at h
    · obtain ⟨rfl, rfl⟩ := h
      exact .sends key _ _ hp
    · obtain ⟨rfl, rfl⟩ := h
      exact .goes nofun rfl nofun

theorem AuthWorld.step_cases {w w' : AuthWorld} {n : ℕ} (h : w.step (n, i) = some w') :
    ∃ file a, AuthAdvances w.file (w.call n) file a ∧ w' = ⟨file, Function.update w.call n a⟩ := by
  obtain ⟨⟨file, a⟩, hr, rfl⟩ := Option.map_eq_some_iff.mp h
  exact ⟨file, a, AuthCall.advance_cases hr, rfl⟩

end Steps

/-! ## One key for all -/

theorem AuthKey.eq_of_prefix {key key' : AuthKey} (h : key.octets <+: key'.octets) : key = key' := by
  obtain ⟨octets, hlength⟩ := key
  obtain ⟨octets', hlength'⟩ := key'
  have heq : octets = octets' := h.eq_of_length (hlength.trans hlength'.symm)
  subst heq
  rfl

namespace AuthWorld

/-- The calls and the file know of one key only, and of none before it is chosen. -/
structure Agreed (key : AuthKey) (w : AuthWorld) : Prop where
  kept : ∀ f, w.file = some f → f.take esdKeyLen <+: key.octets
  held : ∀ n k, (w.call n).place.key = some k → k = key
  chosen : ∀ n, (w.call n).place = .choosing → w.file = some []
  filled : ∀ n k m, (w.call n).place = .filling k m → w.file = some (k.octets.take m)
  alone : ∀ n m, (w.call n).place.Making → (w.call m).place.Making → n = m
  sent : ∀ n, (w.call n).sent <+: key.message
  before : (w.file = none ∨ ∃ n, (w.call n).place = .choosing) →
    ∀ n, (w.call n).sent = [] ∧ (w.call n).place.key = none

section Agreed

variable {key key' : AuthKey} {w w' : AuthWorld} {n : ℕ}

theorem making_cases {place : AuthPlace} (h : place.Making) :
    place = .choosing ∨ ∃ k m, place = .filling k m := by
  cases place with
  | choosing => exact .inl rfl
  | filling k m => exact .inr ⟨k, m, rfl⟩
  | _ => exact h.elim

/-- Whoever makes the file has it. -/
theorem Agreed.file_of_making (h : w.Agreed key) (hmaking : (w.call n).place.Making) :
    w.file ≠ none := by
  intro hnone
  rcases making_cases hmaking with hplace | ⟨k, m, hplace⟩
  · exact absurd (hnone.symm.trans (h.chosen n hplace)) (by simp)
  · exact absurd (hnone.symm.trans (h.filled n k m hplace)) (by simp)

/-- Until the key is chosen it can be any. -/
theorem Agreed.any (h : w.Agreed key) (hbefore : w.file = none ∨ ∃ n, (w.call n).place = .choosing)
    (key' : AuthKey) : w.Agreed key' where
  kept f hf := by
    rcases hbefore with hnone | ⟨n, hchoosing⟩
    · exact absurd (hnone.symm.trans hf) (by simp)
    · cases (h.chosen n hchoosing).symm.trans hf
      exact List.nil_prefix
  held n k hk := absurd ((h.before hbefore n).2.symm.trans hk) (by simp)
  chosen := h.chosen
  filled := h.filled
  alone := h.alone
  sent n := by
    rw [(h.before hbefore n).1]
    exact List.nil_prefix
  before := h.before

/-- One call has gone on, with what it did to the file. -/
theorem Agreed.set (h : w.Agreed key) {file : Option (List Octet)} {a : AuthCall}
    (kept : ∀ f, file = some f → f.take esdKeyLen <+: key.octets)
    (held : ∀ k, a.place.key = some k → k = key)
    (chosen : a.place = .choosing → file = some [])
    (filled : ∀ k m, a.place = .filling k m → file = some (k.octets.take m))
    (others : ∀ m ≠ n, (w.call m).place.Making → file = w.file ∧ ¬ a.place.Making)
    (sent : a.sent <+: key.message)
    (before : (file = none ∨ a.place = .choosing ∨ ∃ m ≠ n, (w.call m).place = .choosing) →
      (w.file = none ∨ ∃ m, (w.call m).place = .choosing) ∧ a.sent = [] ∧ a.place.key = none) :
    Agreed key ⟨file, Function.update w.call n a⟩ where
  kept := kept
  held := by
    refine (Function.forall_update_iff w.call fun _ b => ∀ k, b.place.key = some k → k = key).mpr ?_
    exact ⟨held, fun m _ => h.held m⟩
  chosen := by
    refine (Function.forall_update_iff w.call fun _ b => b.place = .choosing → file = some []).mpr ?_
    refine ⟨chosen, fun m hm hplace => ?_⟩
    rw [(others m hm (by simp [hplace, AuthPlace.Making])).1]
    exact h.chosen m hplace
  filled := by
    refine (Function.forall_update_iff w.call
      fun _ b => ∀ k m, b.place = .filling k m → file = some (k.octets.take m)).mpr ?_
    refine ⟨filled, fun m hm k i hplace => ?_⟩
    rw [(others m hm (by simp [hplace, AuthPlace.Making])).1]
    exact h.filled m k i hplace
  alone := by
    have hlast : ∀ m ≠ n, a.place.Making → ¬ (w.call m).place.Making := fun m hm ha hmaking =>
      (others m hm hmaking).2 ha
    intro i j hi hj
    rcases eq_or_ne i n with hin | hin <;> rcases eq_or_ne j n with hjn | hjn
    · exact hin.trans hjn.symm
    · simp only [hin, Function.update_self, Function.update_of_ne hjn] at hi hj
      exact absurd hj (hlast j hjn hi)
    · simp only [hjn, Function.update_self, Function.update_of_ne hin] at hi hj
      exact absurd hi (hlast i hin hj)
    · simp only [Function.update_of_ne hin, Function.update_of_ne hjn] at hi hj
      exact h.alone i j hi hj
  sent := by
    refine (Function.forall_update_iff w.call fun _ b => b.sent <+: key.message).mpr ?_
    exact ⟨sent, fun m _ => h.sent m⟩
  before := by
    intro hbefore
    have hstill : file = none ∨ a.place = .choosing ∨ ∃ m ≠ n, (w.call m).place = .choosing := by
      rcases hbefore with hnone | ⟨m, hm⟩
      · exact .inl hnone
      · rcases eq_or_ne m n with rfl | hmn
        · exact .inr (.inl (by simpa using hm))
        · exact .inr (.inr ⟨m, hmn, by simpa [Function.update_of_ne hmn] using hm⟩)
    obtain ⟨hold, hsent, hkey⟩ := before hstill
    refine (Function.forall_update_iff w.call fun _ b => b.sent = [] ∧ b.place.key = none).mpr ?_
    exact ⟨⟨hsent, hkey⟩, fun m _ => h.before hold m⟩

theorem take_writeAt (octets : List Octet) (n k : ℕ) :
    writeAt (octets.take n) n ((octets.drop n).take k) =
      octets.take (n + ((octets.drop n).take k).length) := by
  have hend : (octets.take n).drop (n + ((octets.drop n).take k).length) = [] :=
    List.drop_eq_nil_of_le ((List.length_take_le n octets).trans (Nat.le_add_right _ _))
  rw [writeAt, List.take_take, min_self, hend, List.append_nil, List.take_add]
  congr 1
  rw [List.length_take]
  rcases le_total k (octets.drop n).length with hk | hk
  · rw [min_eq_left hk]
  · rw [min_eq_right hk, List.take_of_length_le hk, List.take_length]

/-- A step keeps to the key, or chooses it. -/
theorem Agreed.step {i : AuthInput} (h : w.Agreed key) (hstep : w.step (n, i) = some w') :
    ∃ key', w'.Agreed key' := by
  obtain ⟨file, a, hadvances, rfl⟩ := step_cases hstep
  have hothers : (w.call n).place.Making → ∀ m ≠ n, ¬ (w.call m).place.Making :=
    fun hn m hm hmaking => hm (h.alone m n hmaking hn)
  cases hadvances with
  | @goes place idle nothing refused =>
    refine ⟨key, h.set h.kept (fun k hk => ?_) (fun hc => ?_) (fun k m hf => ?_)
      (fun m _ _ => ⟨rfl, idle⟩) (h.sent n) fun hbefore => ?_⟩
    · exact absurd (nothing.symm.trans hk) (by simp)
    · exact absurd (by simp [show place = .choosing from hc, AuthPlace.Making]) idle
    · exact absurd (by simp [show place = .filling k m from hf, AuthPlace.Making]) idle
    · have hold : w.file = none ∨ ∃ m, (w.call m).place = .choosing := by
        rcases hbefore with hnone | hc | ⟨m, -, hm⟩
        · exact .inl hnone
        · exact absurd (by simp [show place = .choosing from hc, AuthPlace.Making]) idle
        · exact .inr ⟨m, hm⟩
      exact ⟨hold, (h.before hold n).1, nothing⟩
  | makes absent =>
    refine ⟨key, h.set (fun f hf => ?_) nofun (fun _ => rfl) nofun (fun m _ hm => ?_) (h.sent n)
      fun _ => ⟨.inl absent, (h.before (.inl absent) n).1, rfl⟩⟩
    · cases hf
      exact List.nil_prefix
    · exact absurd absent (h.file_of_making hm)
  | chooses key' chose =>
    have hempty := h.chosen n chose
    have hmaking : (w.call n).place.Making := by simp [chose, AuthPlace.Making]
    have hany := h.any (.inr ⟨n, chose⟩) key'
    refine ⟨key', hany.set hany.kept (fun k hk => ?_) nofun (fun k m hf => ?_)
      (fun m hm hother => absurd hother (hothers hmaking m hm)) (hany.sent n) fun hbefore => ?_⟩
    · cases hk
      rfl
    · cases hf
      rw [hempty, List.take_zero]
    · rcases hbefore with hnone | hc | ⟨m, hm, hplace⟩
      · exact absurd (hnone.symm.trans hempty) (by simp)
      · cases hc
      · exact absurd (by simp [hplace, AuthPlace.Making]) (hothers hmaking m hm)
  | @writes k nwritten count place fills next =>
    have hfile := h.filled n k nwritten fills
    obtain rfl : k = key := h.held n k (by rw [fills]; rfl)
    have hmaking : (w.call n).place.Making := by simp [fills, AuthPlace.Making]
    have hwritten : w.file.map (writeAt · nwritten ((k.octets.drop nwritten).take count)) =
        some (k.octets.take (nwritten + ((k.octets.drop nwritten).take count).length)) := by
      rw [hfile, Option.map_some, take_writeAt]
    rw [hwritten]
    refine ⟨k, h.set (fun f hf => ?_) (fun k' hk => ?_) (fun hc => ?_) (fun k' m hf => ?_)
      (fun m hm hother => absurd hother (hothers hmaking m hm)) (h.sent n) fun hbefore => ?_⟩
    · cases hf
      exact (List.take_prefix _ _).trans (List.take_prefix _ _)
    · rcases next with rfl | rfl <;> exact (Option.some.inj hk).symm
    · rcases next with rfl | rfl <;> cases hc
    · rcases next with rfl | rfl <;> cases hf
      rfl
    · rcases hbefore with hnone | hc | ⟨m, hm, hplace⟩
      · cases hnone
      · rcases next with rfl | rfl <;> cases hc
      · exact absurd (by simp [hplace, AuthPlace.Making]) (hothers hmaking m hm)
  | leaves k nwritten fills =>
    have hfile := h.filled n k nwritten fills
    have hmaking : (w.call n).place.Making := by simp [fills, AuthPlace.Making]
    refine ⟨key, h.set h.kept (fun k' hk => ?_) nofun nofun
      (fun m hm hother => absurd hother (hothers hmaking m hm)) (h.sent n) fun hbefore => ?_⟩
    · cases hk
      exact h.held n k (by rw [fills]; rfl)
    · rcases hbefore with hnone | hc | ⟨m, hm, hplace⟩
      · exact absurd (hnone.symm.trans hfile) (by simp)
      · cases hc
      · exact absurd (by simp [hplace, AuthPlace.Making]) (hothers hmaking m hm)
  | finds k there opened =>
    obtain ⟨f, hf⟩ : ∃ f, w.file = some f := by
      cases hfile : w.file with
      | none => exact absurd (by rw [hfile]; rfl) opened
      | some f => exact ⟨f, rfl⟩
    refine ⟨key, h.set h.kept (fun k' hk => ?_) nofun nofun (fun m _ _ => ⟨rfl, nofun⟩) (h.sent n)
      fun hbefore => ?_⟩
    · cases hk
      exact AuthKey.eq_of_prefix (there f hf ▸ h.kept f hf)
    · rcases hbefore with hnone | hc | ⟨m, hm, hplace⟩
      · exact absurd (hnone.symm.trans hf) (by simp)
      · cases hc
      · exact absurd (by rw [h.chosen m hplace]; rfl) opened
  | sends k taken retval has =>
    obtain rfl : k = key := h.held n k (by rw [has]; rfl)
    refine ⟨k, h.set h.kept nofun nofun nofun (fun m _ _ => ⟨rfl, nofun⟩) (List.take_prefix _ _)
      fun hbefore => ?_⟩
    have hold : w.file = none ∨ ∃ m, (w.call m).place = .choosing := by
      rcases hbefore with hnone | hc | ⟨m, -, hm⟩
      · exact .inl hnone
      · cases hc
      · exact .inr ⟨m, hm⟩
    have hnothing := (h.before hold n).2
    rw [has] at hnothing
    cases hnothing

end Agreed

end AuthWorld

/-! ## A file that is made -/

/-- A call that came to a file that nobody was making. -/
structure AuthCall.Settled (f : List Octet) (a : AuthCall) : Prop where
  held : ∀ key, a.place.key = some key → key.octets = f.take esdKeyLen
  sent : a.sent <+: f.take esdKeyLen ++ Word.octets esdEndianKey
  long : a.sent ≠ [] ∨ a.place = .returned 1 → esdKeyLen ≤ f.length

namespace AuthWorld

structure Settled (f : List Octet) (w : AuthWorld) : Prop where
  file : w.file = some f
  made : ∀ n, ¬ (w.call n).place.Making

section Settled

variable {f : List Octet} {w w' : AuthWorld} {n : ℕ} {i : AuthInput}

theorem Settled.step (h : w.Settled f) (hstep : w.step (n, i) = some w') : w'.Settled f := by
  obtain ⟨file, a, hadvances, rfl⟩ := step_cases hstep
  have hset : ∀ b : AuthCall, ¬ b.place.Making →
      Settled f ⟨w.file, Function.update w.call n b⟩ := fun b hb => by
    refine ⟨h.file, ?_⟩
    exact (Function.forall_update_iff w.call fun _ b => ¬ b.place.Making).mpr ⟨hb, fun m _ => h.made m⟩
  cases hadvances with
  | goes idle => exact hset _ idle
  | makes absent => exact absurd (absent.symm.trans h.file) (by simp)
  | chooses key chose => exact absurd (by simp [chose, AuthPlace.Making]) (h.made n)
  | writes key nwritten count fills => exact absurd (by simp [fills, AuthPlace.Making]) (h.made n)
  | leaves key nwritten fills => exact absurd (by simp [fills, AuthPlace.Making]) (h.made n)
  | finds | sends => exact hset _ nofun

theorem Settled.call (h : w.Settled f) (hstep : w.step (n, i) = some w') {m : ℕ}
    (hm : (w.call m).Settled f) : (w'.call m).Settled f := by
  obtain ⟨file, a, hadvances, rfl⟩ := step_cases hstep
  change AuthCall.Settled f (Function.update w.call n a m)
  rcases eq_or_ne m n with rfl | hne
  · rw [Function.update_self]
    cases hadvances with
    | goes idle nothing refused =>
      refine ⟨fun key hkey => absurd (nothing.symm.trans hkey) (by simp), hm.sent, fun hlong => ?_⟩
      exact hm.long (.inl (hlong.resolve_right refused))
    | makes absent => exact absurd (absent.symm.trans h.file) (by simp)
    | chooses key chose => exact absurd (by simp [chose, AuthPlace.Making]) (h.made m)
    | writes key nwritten count fills => exact absurd (by simp [fills, AuthPlace.Making]) (h.made m)
    | leaves key nwritten fills => exact absurd (by simp [fills, AuthPlace.Making]) (h.made m)
    | finds key there =>
      refine ⟨fun k hk => ?_, hm.sent, fun hlong => hm.long (.inl (hlong.resolve_right nofun))⟩
      cases hk
      exact (there f h.file).symm
    | sends key taken retval has =>
      have hkey := hm.held key (by rw [has]; rfl)
      refine ⟨nofun, ?_, fun _ => ?_⟩
      · rw [← hkey]
        exact List.take_prefix _ _
      · have hlength := key.length_eq
        rw [hkey, List.length_take] at hlength
        omega
  · rwa [Function.update_of_ne hne]

end Settled

end AuthWorld

section Calls

variable {w w' : AuthWorld} {is : List (ℕ × AuthInput)}

theorem Run.agreed (hw : ∀ n, w.call n = .start)
    (h : Run AuthWorld.step (fun _ _ => True) w is w') : ∃ key, w'.Agreed key := by
  refine h.invariant (fun w => ∃ key, w.Agreed key) (fun w i w' hagreed _ hstep => ?_) ?_
  · obtain ⟨key, hkey⟩ := hagreed
    exact hkey.step (n := i.1) (i := i.2) hstep
  · have hpad : ∃ key : AuthKey, ∀ f, w.file = some f → f.take esdKeyLen <+: key.octets := by
      cases hf : w.file with
      | none => exact ⟨⟨List.replicate esdKeyLen 0, List.length_replicate⟩, nofun⟩
      | some f =>
        have hlength : (f.take esdKeyLen ++ List.replicate (esdKeyLen - f.length) 0).length =
            esdKeyLen := by
          rw [List.length_append, List.length_take, List.length_replicate]
          omega
        refine ⟨⟨_, hlength⟩, fun f' hf' => ?_⟩
        cases hf'
        exact List.prefix_append _ _
    obtain ⟨key, hkey⟩ := hpad
    refine ⟨key, hkey, ?_, ?_, ?_, ?_, ?_, ?_⟩
    · exact fun n k hk => absurd hk (by simp [hw n, AuthCall.start, AuthPlace.key])
    · exact fun n hplace => absurd hplace (by simp [hw n, AuthCall.start])
    · exact fun n k m hplace => absurd hplace (by simp [hw n, AuthCall.start])
    · exact fun n m hmaking => absurd hmaking (by simp [hw n, AuthCall.start, AuthPlace.Making])
    · exact fun n => by simp [hw n, AuthCall.start]
    · exact fun _ n => by simp [hw n, AuthCall.start, AuthPlace.key]

/-- However the calls interleave and wherever they are stopped, all the keys that are sent are one
key, and it is the one in the file as far as the file goes. -/
theorem auth_keys_agree (hw : ∀ n, w.call n = .start)
    (h : Run AuthWorld.step (fun _ _ => True) w is w') :
    ∃ key : AuthKey, (∀ n, (w'.call n).sent <+: key.message) ∧
      ∀ f, w'.file = some f → f.take esdKeyLen <+: key.octets := by
  obtain ⟨key, hkey⟩ := Run.agreed hw h
  exact ⟨key, hkey.sent, hkey.kept⟩

end Calls

def homeKey : AuthKey := ⟨List.replicate esdKeyLen 9, List.length_replicate⟩

def noFile : AuthWorld := ⟨none, fun _ => .start⟩

/-- Two calls would make the file and one of them does, in two writes; a third finds it. -/
def sharedCalls : List (ℕ × AuthInput) :=
  [(0, .home true), (1, .home true), (0, .rdonly false), (1, .rdonly false), (0, .create true),
    (1, .create false), (0, .genrand (some homeKey)), (0, .write (some 5)), (2, .home true),
    (2, .rdonly true), (0, .write (some 16)), (2, .read 16), (0, .send 20 (some 1#32)),
    (2, .send 20 (some 1#32))]

theorem sharedCalls_ends : (exec AuthWorld.step (fun _ _ => True) noFile sharedCalls).isSome := by
  decide +kernel

def afterSharing : AuthWorld :=
  (exec AuthWorld.step (fun _ _ => True) noFile sharedCalls).get sharedCalls_ends

theorem afterSharing_run : Run AuthWorld.step (fun _ _ => True) noFile sharedCalls afterSharing :=
  Run.of_isSome sharedCalls_ends

theorem auth_keys_agree_shared :
    (afterSharing.call 0).sent = handshake 9 ∧ (afterSharing.call 1).place = .returned 0 ∧
      (afterSharing.call 2).sent = handshake 9 ∧
      ∃ key : AuthKey, ∀ n, (afterSharing.call n).sent <+: key.message := by
  obtain ⟨key, hsent, -⟩ := auth_keys_agree (fun _ => rfl) afterSharing_run
  exact ⟨by decide +kernel, by decide +kernel, by decide +kernel, key, hsent⟩

section Calls

variable {w w' : AuthWorld} {is : List (ℕ × AuthInput)}

/-- Once nobody is making the file it stays as it is. Every call from then on sends what it begins
with, and if it is too short for a key, no call sends anything or succeeds any more. -/
theorem auth_file_settled {f : List Octet} (hfile : w.file = some f)
    (hmade : ∀ n, ¬ (w.call n).place.Making) (h : Run AuthWorld.step (fun _ _ => True) w is w') :
    w'.file = some f ∧ ∀ n, w.call n = .start →
      (w'.call n).sent <+: f.take esdKeyLen ++ Word.octets esdEndianKey ∧
        (f.length < esdKeyLen → (w'.call n).sent = [] ∧ (w'.call n).place ≠ .returned 1) := by
  have hsettled := h.invariant (fun w => w.Settled f) (fun _ i _ hw _ hstep => hw.step (n := i.1) (i := i.2) hstep)
    ⟨hfile, hmade⟩
  refine ⟨hsettled.file, fun n hn => ?_⟩
  have hstart : (w.call n).Settled f := by
    rw [hn]
    exact ⟨nofun, List.nil_prefix, fun hlong => hlong.elim (absurd rfl) nofun⟩
  have hcall := (h.invariant (fun w => w.Settled f ∧ (w.call n).Settled f)
    (fun _ i _ hw _ hstep => ⟨hw.1.step (n := i.1) (i := i.2) hstep, hw.1.call (n := i.1) (i := i.2) hstep hw.2⟩)
    ⟨⟨hfile, hmade⟩, hstart⟩).2
  refine ⟨hcall.sent, fun hshort => ⟨?_, fun hok => ?_⟩⟩
  · by_contra hsent
    exact absurd (hcall.long (.inl hsent)) (by omega)
  · exact absurd (hcall.long (.inr hok)) (by omega)

end Calls

/-- A call that is stopped while it writes leaves a file that is too short. -/
def stoppedCall : List (ℕ × AuthInput) :=
  [(0, .home true), (0, .rdonly false), (0, .create true), (0, .genrand (some homeKey)),
    (0, .write (some 5)), (0, .killed)]

example : (exec AuthWorld.step (fun _ _ => True) noFile stoppedCall).map AuthWorld.file =
    some (some (List.replicate 5 9)) := by
  decide +kernel

def shortFile : AuthWorld := ⟨some (List.replicate 5 9), fun _ => .start⟩

def laterCall : List (ℕ × AuthInput) := [(0, .home true), (0, .rdonly true), (0, .read 16)]

theorem laterCall_ends : (exec AuthWorld.step (fun _ _ => True) shortFile laterCall).isSome := by
  decide +kernel

theorem auth_file_settled_short : ∃ w, Run AuthWorld.step (fun _ _ => True) shortFile laterCall w ∧
    (w.call 0).place = .returned 0 ∧ (w.call 0).sent = [] ∧ w.file = some (List.replicate 5 9) := by
  have hrun := Run.of_isSome laterCall_ends
  obtain ⟨hfile, hcalls⟩ := auth_file_settled (w := shortFile) rfl (fun _ => id) hrun
  exact ⟨_, hrun, by decide +kernel, ((hcalls 0 rfl).2 (by decide)).1, hfile⟩

end Esound
