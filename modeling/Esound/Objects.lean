import Esound.Daemon

/-!
# What becomes of the objects

An abstract model of the daemon: clients, four lists of players, samples, and the
bytes of streams, without sockets, devices or the texts of replies. It changes by
effects, each of which is one thing the daemon does as far as the objects can tell:
a stream is opened together with its client turning into a streaming one, and a
sample player is counted when it is listed. What the functions of the source do
between two such points is not visible here.

An effect has a footprint: the clients and the players it may touch.
-/

open Library.Buffer Relation

namespace Esound

/-- The player an event is about, if it is about the bytes of one. -/
def Event.player : Event → Option Ptr
  | heard p _ | used p _ | dropped p _ => some p
  | wrote _ _ | closed _ => none

/-- Nothing of what the lists and the mixer depend on differs. -/
structure EsdPlayer.SameKind (v w : EsdPlayer) : Prop where
  parent : v.parent = w.parent
  sourceId : v.sourceId = w.sourceId
  rate : v.rate = w.rate
  bufferLength : v.bufferLength = w.bufferLength
  format : v.format &&& 0xFFF#32 = w.format &&& 0xFFF#32

namespace EsdPlayer.SameKind

variable {u v w : EsdPlayer}

theorem refl (v : EsdPlayer) : v.SameKind v := ⟨rfl, rfl, rfl, rfl, rfl⟩

theorem symm (h : v.SameKind w) : w.SameKind v :=
  ⟨h.parent.symm, h.sourceId.symm, h.rate.symm, h.bufferLength.symm, h.format.symm⟩

theorem trans (h : u.SameKind v) (h' : v.SameKind w) : u.SameKind w :=
  ⟨h.parent.trans h'.parent, h.sourceId.trans h'.sourceId, h.rate.trans h'.rate,
    h.bufferLength.trans h'.bufferLength, h.format.trans h'.format⟩

theorem and_mask (h : v.SameKind w) {mask : Word} (hmask : 0xFFF#32 &&& mask = mask) :
    v.format &&& mask = w.format &&& mask := by
  have hand := congrArg (· &&& mask) h.format
  simpa only [BitVec.and_assoc, hmask] using hand

theorem isStream_iff (h : v.SameKind w) : v.IsStream ↔ w.IsStream := by
  unfold IsStream
  rw [h.and_mask (by decide)]

theorem isSample_iff (h : v.SameKind w) : v.IsSample ↔ w.IsSample := by
  unfold IsSample
  rw [h.and_mask (by decide)]

theorem frameOctets (h : v.SameKind w) : frameOctets v = frameOctets w := by
  unfold Esound.frameOctets
  rw [h.and_mask (by decide), h.and_mask (by decide)]

end EsdPlayer.SameKind

structure Objects where
  clients : List Ptr
  client : Ptr → EsdClient
  lists : PlayerList → List Ptr
  player : Ptr → EsdPlayer
  playerData : Ptr → Mem
  samples : List Ptr
  sample : Ptr → EsdSample
  playing : ℤ
  nextId : ℤ
  stock : List Event

/-- `clients` may change their protocol state, `players` may be written to and may leave,
and `lengths` may hold more or fewer bytes than before. -/
structure Footprint where
  clients : Set Ptr
  players : Set Ptr
  lengths : Set Ptr

namespace Footprint

instance : LE Footprint :=
  ⟨fun F G => F.clients ⊆ G.clients ∧ F.players ⊆ G.players ∧ F.lengths ⊆ G.lengths⟩

def empty : Footprint := ⟨∅, ∅, ∅⟩
def turn (c : Ptr) : Footprint := ⟨{c}, ∅, ∅⟩
def written (ps : Set Ptr) : Footprint := ⟨∅, ps, ∅⟩
def mixed (ps : Set Ptr) : Footprint := ⟨∅, ps, ps⟩

structure Owns (F : Footprint) (p : Ptr) : Prop where
  player : p ∈ F.players
  length : p ∈ F.lengths

theorem mixed_owns {ps : Set Ptr} {p : Ptr} (h : p ∈ ps) : (mixed ps).Owns p := ⟨h, h⟩

end Footprint

namespace Objects

/-- The bytes in the buffer of a player. -/
def held (o : Objects) (p : Ptr) : List Octet :=
  load (o.playerData p) 0 (o.player p).actualLength.toNat

/-- No list has the player. -/
def Unlisted (o : Objects) (p : Ptr) : Prop := ∀ l, p ∉ o.lists l

@[simp] def setList (o : Objects) (l : PlayerList) (ps : List Ptr) : Objects :=
  { o with lists := Function.update o.lists l ps }

@[simp] def setClient (o : Objects) (c : Ptr) (v : EsdClient) : Objects :=
  { o with client := Function.update o.client c v }

@[simp] def setPlayer (o : Objects) (p : Ptr) (v : EsdPlayer) : Objects :=
  { o with player := Function.update o.player p v }

@[simp] def setSample (o : Objects) (q : Ptr) (v : EsdSample) : Objects :=
  { o with sample := Function.update o.sample q v }

@[simp] def account (o : Objects) (e : Event) : Objects := { o with stock := o.stock ++ [e] }

/-- Removal from a list, with the bytes that were still held. -/
@[simp] def unlist (o : Objects) (l : PlayerList) (p : Ptr) : Objects :=
  (o.setList l ((o.lists l).erase p)).account (.dropped p (o.held p))

def eraseSample (o : Objects) (id : ℤ) : Objects :=
  match o.samples.find? fun q => (o.sample q).sampleId = id with
  | none => o
  | some q =>
    if (o.sample q).refCount ≠ 0 then o.setSample q { o.sample q with eraseWhenDone := true }
    else { o with samples := o.samples.erase q }

/-- One player of the sample less, and with the last one a sample that is to go with it. -/
def releaseSample (o : Objects) (q : Ptr) : Objects :=
  let sm := { o.sample q with refCount := (o.sample q).refCount - 1 }
  let o := { o.setSample q sm with playing := o.playing - 1 }
  if sm.eraseWhenDone ∧ sm.refCount = 0 then o.eraseSample sm.sampleId else o

def endSample (o : Objects) (l : PlayerList) (p : Ptr) : Objects :=
  ((o.setList l ((o.lists l).erase p)).releaseSample (o.player p).parent).account
    (.dropped p (o.held p))

end Objects

inductive Effect (cfg : Config) (F : Footprint) (o : Objects) : Objects → Prop
  | client (c : Ptr) (v : EsdClient) (touched : c ∈ F.clients)
      (streaming : v.state = .streamingData ↔ (o.client c).state = .streamingData)
      (fd : v.fd = (o.client c).fd) :
      Effect cfg F o (o.setClient c v)
  | connect (c : Ptr) (v : EsdClient) (touched : c ∈ F.clients) (notNull : c ≠ 0)
      (fresh : c ∉ o.clients) (fd : ∀ d ∈ o.clients, (o.client d).fd ≠ v.fd)
      (state : v.state ≠ .streamingData) :
      Effect cfg F o { o.setClient c v with clients := c :: o.clients }
  | disconnect (c : Ptr) (state : (o.client c).state ≠ .streamingData) :
      Effect cfg F o { o with clients := o.clients.erase c }
  | openStream (l : PlayerList) (c p : Ptr) (v : EsdPlayer) (touched : c ∈ F.clients)
      (listed : c ∈ o.clients) (state : (o.client c).state ≠ .streamingData)
      (fresh : o.Unlisted p) (mode : v.IsStream) (parent : v.parent = c)
      (sourceId : v.sourceId = (o.client c).fd) (empty : v.actualLength = 0)
      (room : 0 ≤ v.bufferLength) :
      Effect cfg F o (((o.setPlayer p v).setList l (p :: o.lists l)).setClient c
        { o.client c with state := .streamingData })
  | closeStream (l : PlayerList) (p : Ptr) (touched : p ∈ F.players) (listed : p ∈ o.lists l)
      (mode : (o.player p).IsStream) :
      Effect cfg F o { o.unlist l p with clients := o.clients.erase (o.player p).parent }
  | players (f : Ptr → EsdPlayer) (kind : ∀ p, (f p).SameKind (o.player p))
      (touched : ∀ p, (f p).actualLength = (o.player p).actualLength ∨ p ∈ F.lengths) :
      Effect cfg F o { o with player := f }
  | scribble (p : Ptr) (v : EsdPlayer) (fresh : o.Unlisted p) :
      Effect cfg F o (o.setPlayer p v)
  | buffer (p : Ptr) (m : Mem) (touched : p ∈ F.players) :
      Effect cfg F o { o with playerData := Function.update o.playerData p m }
  | account (e : Event) (touched : ∀ p ∈ e.player, p ∈ F.players ∨ o.Unlisted p) :
      Effect cfg F o (o.account e)
  | sample (q : Ptr) (v : EsdSample) (id : v.sampleId = (o.sample q).sampleId)
      (refs : v.refCount = (o.sample q).refCount)
      (flag : v.eraseWhenDone = (o.sample q).eraseWhenDone) :
      Effect cfg F o (o.setSample q v)
  | skipId : Effect cfg F o { o with nextId := cfg.nextId o.nextId }
  | newSample (q : Ptr) (v : EsdSample) (fresh : q ∉ o.samples) (id : v.sampleId = o.nextId)
      (refs : v.refCount = 0) (flag : v.eraseWhenDone = false) :
      Effect cfg F o
        { o.setSample q v with samples := q :: o.samples, nextId := cfg.nextId o.nextId }
  | freeSample (id : ℤ) : Effect cfg F o (o.eraseSample id)
  | startSample (q p : Ptr) (v : EsdPlayer) (listed : q ∈ o.samples) (fresh : o.Unlisted p)
      (mode : v.IsSample) (parent : v.parent = q) (empty : v.actualLength = 0)
      (room : 0 ≤ v.bufferLength) :
      Effect cfg F o
        { ((o.setPlayer p v).setList .players (p :: o.lists .players)).setSample q
            { o.sample q with refCount := (o.sample q).refCount + 1 } with
          playing := o.playing + 1 }
  | endSample (l : PlayerList) (p : Ptr) (touched : p ∈ F.players) (listed : p ∈ o.lists l)
      (mode : (o.player p).IsSample) : Effect cfg F o (o.endSample l p)
  /-- a player that is neither is only taken off its list -/
  | dropOther (l : PlayerList) (p : Ptr) (touched : p ∈ F.players) (listed : p ∈ o.lists l)
      (notStream : ¬ (o.player p).IsStream) (notSample : ¬ (o.player p).IsSample) :
      Effect cfg F o (o.unlist l p)

abbrev Effects (cfg : Config) (F : Footprint) : Objects → Objects → Prop :=
  ReflTransGen (Effect cfg F)

/-! ## Lists -/

section Lists

variable {lists : PlayerList → List Ptr} {l l' : PlayerList} {p p' : Ptr}

theorem mem_update_cons :
    p' ∈ Function.update lists l (p :: lists l) l' ↔ (l' = l ∧ p' = p) ∨ p' ∈ lists l' := by
  by_cases hl : l' = l
  · subst hl
    simp
  · simp [hl]

theorem mem_of_mem_update_erase (h : p' ∈ Function.update lists l ((lists l).erase p) l') :
    p' ∈ lists l' := by
  by_cases hl : l' = l
  · subst hl
    rw [Function.update_self] at h
    exact List.mem_of_mem_erase h
  · rwa [Function.update_of_ne hl] at h

theorem mem_update_erase (hnd : (lists l).Nodup) :
    p' ∈ Function.update lists l ((lists l).erase p) l' ↔
      p' ∈ lists l' ∧ ¬ (l' = l ∧ p' = p) := by
  by_cases hl : l' = l
  · subst hl
    rw [Function.update_self, hnd.mem_erase_iff]
    tauto
  · simp [hl]

theorem mem_update_erase_of_ne (hp : p' ≠ p) (h : p' ∈ lists l') :
    p' ∈ Function.update lists l ((lists l).erase p) l' := by
  by_cases hl : l' = l
  · subst hl
    rw [Function.update_self]
    exact (List.mem_erase_of_ne hp).mpr h
  · rwa [Function.update_of_ne hl]

end Lists

/-! ## The invariant of the lists -/

/-- No object is listed twice, the null pointer is no client, and a player is a stream or,
in the list that is mixed, plays a sample. -/
structure Objects.WellFormed (o : Objects) : Prop where
  clients_nodup : o.clients.Nodup
  client_ne_null : 0 ∉ o.clients
  lists_nodup : ∀ l, (o.lists l).Nodup
  lists_disjoint : ∀ p l l', p ∈ o.lists l → p ∈ o.lists l' → l = l'
  modes : ∀ l, ∀ p ∈ o.lists l, (o.player p).IsStream ∨ (l = .players ∧ (o.player p).IsSample)

namespace Objects.WellFormed

variable {o : Objects} {l : PlayerList} {p : Ptr}

theorem streams (h : o.WellFormed) (hl : l ≠ .players) (hp : p ∈ o.lists l) :
    (o.player p).IsStream :=
  (h.modes l p hp).resolve_right fun hs => hl hs.1

theorem sample_list (h : o.WellFormed) (hp : p ∈ o.lists l) (mode : (o.player p).IsSample) :
    l = .players :=
  ((h.modes l p hp).resolve_left fun hs => hs.not_isSample mode).1

theorem cons (h : o.WellFormed) (fresh : o.Unlisted p) (v : EsdPlayer)
    (mode : v.IsStream ∨ (l = .players ∧ v.IsSample)) :
    ((o.setPlayer p v).setList l (p :: o.lists l)).WellFormed where
  clients_nodup := h.clients_nodup
  client_ne_null := h.client_ne_null
  lists_nodup l' := by
    by_cases hl : l' = l
    · subst hl
      simpa using ⟨fresh l', h.lists_nodup l'⟩
    · simpa [hl] using h.lists_nodup l'
  lists_disjoint p' l₁ l₂ h₁ h₂ := by
    simp only [setList, setPlayer, mem_update_cons] at h₁ h₂
    rcases h₁ with ⟨rfl, rfl⟩ | h₁ <;> rcases h₂ with ⟨rfl, h₂⟩ | h₂
    · rfl
    · exact absurd h₂ (fresh l₂)
    · exact absurd (h₂ ▸ h₁) (fresh l₁)
    · exact h.lists_disjoint p' l₁ l₂ h₁ h₂
  modes l' p' hp' := by
    simp only [setList, setPlayer, mem_update_cons] at hp' ⊢
    rcases hp' with ⟨rfl, rfl⟩ | hp'
    · simpa using mode
    · rw [Function.update_of_ne (fun he : p' = p => fresh l' (he ▸ hp'))]
      exact h.modes l' p' hp'

theorem unlist (h : o.WellFormed) (l : PlayerList) (p : Ptr) : (o.unlist l p).WellFormed where
  clients_nodup := h.clients_nodup
  client_ne_null := h.client_ne_null
  lists_nodup l' := by
    by_cases hl : l' = l
    · subst hl
      simpa using (h.lists_nodup l').erase p
    · simpa [hl] using h.lists_nodup l'
  lists_disjoint p' l₁ l₂ h₁ h₂ :=
    h.lists_disjoint p' l₁ l₂ (mem_of_mem_update_erase h₁) (mem_of_mem_update_erase h₂)
  modes l' p' hp' := h.modes l' p' (mem_of_mem_update_erase hp')

theorem erase_client (h : o.WellFormed) (c : Ptr) :
    ({ o with clients := o.clients.erase c } : Objects).WellFormed where
  clients_nodup := h.clients_nodup.erase c
  client_ne_null h0 := h.client_ne_null (List.mem_of_mem_erase h0)
  lists_nodup := h.lists_nodup
  lists_disjoint := h.lists_disjoint
  modes := h.modes

/-- Clients' and samples' own records do not matter. -/
theorem congr (h : o.WellFormed) {o' : Objects} (hc : o'.clients = o.clients)
    (hl : o'.lists = o.lists) (hp : o'.player = o.player) : o'.WellFormed where
  clients_nodup := hc ▸ h.clients_nodup
  client_ne_null := hc ▸ h.client_ne_null
  lists_nodup := hl ▸ h.lists_nodup
  lists_disjoint := hl ▸ h.lists_disjoint
  modes := hl ▸ hp ▸ h.modes

end Objects.WellFormed

section Samples

variable (o : Objects) (id : ℤ) (l : PlayerList) (p : Ptr)

theorem Objects.eraseSample_frame :
    ∃ qs f, o.eraseSample id = { o with samples := qs, sample := f } := by
  unfold Objects.eraseSample
  split
  · exact ⟨_, _, rfl⟩
  · split_ifs
    · exact ⟨_, _, rfl⟩
    · exact ⟨_, _, rfl⟩

theorem Objects.releaseSample_frame (q : Ptr) :
    ∃ qs f, o.releaseSample q = { o with samples := qs, sample := f, playing := o.playing - 1 } := by
  unfold Objects.releaseSample
  simp only
  split_ifs
  · obtain ⟨qs, f, h⟩ := Objects.eraseSample_frame
      { o.setSample q { o.sample q with refCount := (o.sample q).refCount - 1 } with
        playing := o.playing - 1 }
      (o.sample q).sampleId
    exact ⟨qs, f, h⟩
  · exact ⟨_, _, rfl⟩

theorem Objects.endSample_frame :
    ∃ qs f, o.endSample l p =
      { o.unlist l p with samples := qs, sample := f, playing := o.playing - 1 } := by
  obtain ⟨qs, f, h⟩ := (o.setList l ((o.lists l).erase p)).releaseSample_frame (o.player p).parent
  refine ⟨qs, f, ?_⟩
  unfold Objects.endSample
  rw [h]
  rfl

end Samples

section Preservation

variable {cfg : Config} {F : Footprint} {o o' : Objects}

theorem Effect.wellFormed (h : Effect cfg F o o') (hw : o.WellFormed) : o'.WellFormed := by
  cases h with
  | client c v => exact hw.congr rfl rfl rfl
  | connect c v _ notNull fresh =>
    exact
      { clients_nodup := List.nodup_cons.mpr ⟨fresh, hw.clients_nodup⟩
        client_ne_null := by simpa [notNull.symm] using hw.client_ne_null
        lists_nodup := hw.lists_nodup
        lists_disjoint := hw.lists_disjoint
        modes := hw.modes }
  | disconnect c => exact hw.erase_client c
  | openStream l c p v _ _ _ fresh mode =>
    exact (hw.cons fresh v (.inl mode)).congr rfl rfl rfl
  | closeStream l p =>
    exact ((hw.unlist l p).erase_client (o.player p).parent).congr rfl rfl rfl
  | players f kind =>
    exact
      { clients_nodup := hw.clients_nodup
        client_ne_null := hw.client_ne_null
        lists_nodup := hw.lists_nodup
        lists_disjoint := hw.lists_disjoint
        modes := fun l p hp => (hw.modes l p hp).imp (kind p).isStream_iff.mpr
          fun hs => ⟨hs.1, (kind p).isSample_iff.mpr hs.2⟩ }
  | scribble p v fresh =>
    exact
      { clients_nodup := hw.clients_nodup
        client_ne_null := hw.client_ne_null
        lists_nodup := hw.lists_nodup
        lists_disjoint := hw.lists_disjoint
        modes := fun l p' hp' => by
          have hne : p' ≠ p := fun he => fresh l (he ▸ hp')
          simpa [hne] using hw.modes l p' hp' }
  | buffer p m => exact hw.congr rfl rfl rfl
  | account e => exact hw.congr rfl rfl rfl
  | sample q v => exact hw.congr rfl rfl rfl
  | skipId => exact hw.congr rfl rfl rfl
  | newSample q v => exact hw.congr rfl rfl rfl
  | freeSample id =>
    obtain ⟨qs, f, he⟩ := o.eraseSample_frame id
    rw [he]
    exact hw.congr rfl rfl rfl
  | startSample q p v _ fresh mode =>
    exact (hw.cons fresh v (.inr ⟨rfl, mode⟩)).congr rfl rfl rfl
  | endSample l p =>
    obtain ⟨qs, f, he⟩ := o.endSample_frame l p
    rw [he]
    exact (hw.unlist l p).congr rfl rfl rfl
  | dropOther l p => exact hw.unlist l p

theorem Effects.wellFormed (h : Effects cfg F o o') (hw : o.WellFormed) : o'.WellFormed := by
  induction h with
  | refl => exact hw
  | tail _ he ih => exact he.wellFormed ih

theorem Effects.invariant (I : Objects → Prop)
    (preserved : ∀ o o', o.WellFormed → I o → Effect cfg F o o' → I o')
    (h : Effects cfg F o o') (hw : o.WellFormed) (hI : I o) : I o' := by
  have hboth : o'.WellFormed ∧ I o' := by
    induction h with
    | refl => exact ⟨hw, hI⟩
    | tail _ he ih => exact ⟨he.wellFormed ih.1, preserved _ _ ih.1 ih.2 he⟩
  exact hboth.2

theorem Effect.mono {G : Footprint} (hFG : F ≤ G) (h : Effect cfg F o o') : Effect cfg G o o' := by
  cases h with
  | client c v touched => exact .client c v (hFG.1 touched) ‹_› ‹_›
  | connect c v touched => exact .connect c v (hFG.1 touched) ‹_› ‹_› ‹_› ‹_›
  | disconnect c state => exact .disconnect c state
  | openStream l c p v touched =>
    exact .openStream l c p v (hFG.1 touched) ‹_› ‹_› ‹_› ‹_› ‹_› ‹_› ‹_› ‹_›
  | closeStream l p touched => exact .closeStream l p (hFG.2.1 touched) ‹_› ‹_›
  | players f kind touched => exact .players f kind fun p => (touched p).imp_right fun h => hFG.2.2 h
  | scribble p v fresh => exact .scribble p v fresh
  | buffer p m touched => exact .buffer p m (hFG.2.1 touched)
  | account e touched => exact .account e fun p hp => (touched p hp).imp_left fun h => hFG.2.1 h
  | sample q v => exact .sample q v ‹_› ‹_› ‹_›
  | skipId => exact .skipId
  | newSample q v => exact .newSample q v ‹_› ‹_› ‹_› ‹_›
  | freeSample id => exact .freeSample id
  | startSample q p v => exact .startSample q p v ‹_› ‹_› ‹_› ‹_› ‹_› ‹_›
  | endSample l p touched => exact .endSample l p (hFG.2.1 touched) ‹_› ‹_›
  | dropOther l p touched => exact .dropOther l p (hFG.2.1 touched) ‹_› ‹_› ‹_›

theorem Effects.mono {G : Footprint} (hFG : F ≤ G) (h : Effects cfg F o o') : Effects cfg G o o' :=
  Relation.ReflTransGen.mono (fun _ _ he => Effect.mono hFG he) _ _ h

end Preservation

/-! ## What a footprint leaves alone -/

/-- A listed player whose buffer, and whose account of bytes, is as it was. -/
structure Objects.Untouched (l : PlayerList) (p : Ptr) (o o' : Objects) : Prop where
  listed : p ∈ o'.lists l
  kind : (o'.player p).SameKind (o.player p)
  actualLength : (o'.player p).actualLength = (o.player p).actualLength
  playerData : o'.playerData p = o.playerData p
  stock : (o'.stock.filter fun e => e.player = some p) = o.stock.filter fun e => e.player = some p

namespace Objects.Untouched

variable {o o' o'' : Objects} {l : PlayerList} {p : Ptr}

theorem refl (h : p ∈ o.lists l) : Untouched l p o o :=
  ⟨h, .refl _, rfl, rfl, rfl⟩

theorem trans (h : Untouched l p o o') (h' : Untouched l p o' o'') : Untouched l p o o'' :=
  ⟨h'.listed, h'.kind.trans h.kind, h'.actualLength.trans h.actualLength,
    h'.playerData.trans h.playerData, h'.stock.trans h.stock⟩

theorem congr (h : p ∈ o'.lists l) (hp : o'.player p = o.player p)
    (hd : o'.playerData p = o.playerData p) (hs : o'.stock = o.stock) : Untouched l p o o' :=
  ⟨h, hp ▸ .refl _, by rw [hp], hd, by rw [hs]⟩

theorem of_eq (h : Untouched l p o o') (hl : o''.lists = o'.lists) (hp : o''.player = o'.player)
    (hd : o''.playerData = o'.playerData) (hs : o''.stock = o'.stock) : Untouched l p o o'' :=
  ⟨hl ▸ h.listed, hp ▸ h.kind, hp ▸ h.actualLength, hd ▸ h.playerData, hs ▸ h.stock⟩

theorem unlist {l' : PlayerList} {p' : Ptr} (h : p ∈ o.lists l) (hne : p ≠ p') :
    Untouched l p o (o.unlist l' p') where
  listed := mem_update_erase_of_ne hne h
  kind := .refl _
  actualLength := rfl
  playerData := rfl
  stock := by simp [Event.player, hne.symm]

end Objects.Untouched

section Frame

variable {cfg : Config} {F : Footprint} {o o' : Objects}

theorem Effect.client_frame (h : Effect cfg F o o') {c : Ptr} (hc : c ∉ F.clients) :
    o'.client c = o.client c := by
  have hne : ∀ d ∈ F.clients, c ≠ d := fun d hd he => hc (he ▸ hd)
  cases h with
  | client d v touched => simp [hne d touched]
  | connect d v touched => simp [hne d touched]
  | openStream l d p v touched => simp [hne d touched]
  | freeSample id =>
    obtain ⟨qs, f, he⟩ := o.eraseSample_frame id
    rw [he]
  | endSample l p =>
    obtain ⟨qs, f, he⟩ := o.endSample_frame l p
    rw [he]
    rfl
  | disconnect | closeStream | players | scribble | buffer | account | sample | skipId
  | newSample | startSample | dropOther => rfl

theorem Effects.client_frame (h : Effects cfg F o o') {c : Ptr} (hc : c ∉ F.clients) :
    o'.client c = o.client c := by
  induction h with
  | refl => rfl
  | tail _ he ih => exact (he.client_frame hc).trans ih

theorem Effect.clients_frame (h : Effect cfg F o o') {c : Ptr} (hc : c ∉ F.clients)
    (h' : c ∈ o'.clients) : c ∈ o.clients := by
  cases h with
  | connect d v touched =>
    exact (List.mem_cons.mp h').resolve_left fun he => hc (he ▸ touched)
  | disconnect | closeStream => exact List.mem_of_mem_erase h'
  | freeSample id =>
    obtain ⟨qs, f, he⟩ := o.eraseSample_frame id
    rw [he] at h'
    exact h'
  | endSample l p =>
    obtain ⟨qs, f, he⟩ := o.endSample_frame l p
    rw [he] at h'
    exact h'
  | client | openStream | players | scribble | buffer | account | sample | skipId | newSample
  | startSample | dropOther => exact h'

theorem Effects.clients_frame (h : Effects cfg F o o') {c : Ptr} (hc : c ∉ F.clients)
    (h' : c ∈ o'.clients) : c ∈ o.clients := by
  induction h with
  | refl => exact h'
  | tail _ he ih => exact ih (he.clients_frame hc h')

theorem Effect.untouched (h : Effect cfg F o o') {l : PlayerList} {p : Ptr}
    (hl : p ∈ o.lists l) (hp : p ∉ F.players) (hlen : p ∉ F.lengths) : o.Untouched l p o' := by
  have hne : ∀ p' ∈ F.players, p ≠ p' := fun p' hp' he => hp (he ▸ hp')
  have hfresh : ∀ p', o.Unlisted p' → p ≠ p' := fun p' hp' he => hp' l (he ▸ hl)
  cases h with
  | openStream l' c p' v _ _ _ fresh =>
    exact .congr (mem_update_cons.mpr (.inr hl)) (by simp [hfresh p' fresh]) rfl rfl
  | closeStream l' p' touched =>
    exact (Objects.Untouched.unlist hl (hne p' touched)).of_eq rfl rfl rfl rfl
  | players f kind touched =>
    exact ⟨hl, kind p, (touched p).resolve_right hlen, rfl, rfl⟩
  | scribble p' v fresh => exact .congr hl (by simp [hfresh p' fresh]) rfl rfl
  | buffer p' m touched => exact .congr hl rfl (by simp [hne p' touched]) rfl
  | account e touched =>
    refine ⟨hl, .refl _, rfl, rfl, ?_⟩
    have he : e.player ≠ some p := fun he =>
      (touched p he).elim hp fun hun => hun l hl
    simp [he]
  | freeSample id =>
    obtain ⟨qs, f, he⟩ := o.eraseSample_frame id
    rw [he]
    exact .congr hl rfl rfl rfl
  | startSample q p' v _ fresh =>
    exact .congr (mem_update_cons.mpr (.inr hl)) (by simp [hfresh p' fresh]) rfl rfl
  | endSample l' p' touched =>
    obtain ⟨qs, f, he⟩ := o.endSample_frame l' p'
    rw [he]
    exact (Objects.Untouched.unlist hl (hne p' touched)).of_eq rfl rfl rfl rfl
  | dropOther l' p' touched => exact .unlist hl (hne p' touched)
  | client | connect | disconnect | sample | skipId | newSample => exact .congr hl rfl rfl rfl

theorem Effects.untouched (h : Effects cfg F o o') {l : PlayerList} {p : Ptr}
    (hl : p ∈ o.lists l) (hp : p ∉ F.players) (hlen : p ∉ F.lengths) : o.Untouched l p o' := by
  induction h with
  | refl => exact .refl hl
  | tail _ he ih => exact ih.trans (he.untouched ih.listed hp hlen)

end Frame

end Esound
