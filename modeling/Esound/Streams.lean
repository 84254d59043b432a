import Esound.Reachable

/-!
# Streams and their clients

A streaming client and its player come together and go together. The kernel is assumed
to hand out no descriptor that is open; that is a guard of `accept`.
-/

open Library.Transition

namespace Esound

namespace Objects

/-- A stream in one of the four lists. -/
structure StreamAt (o : Objects) (l : PlayerList) (p : Ptr) : Prop where
  listed : p ∈ o.lists l
  mode : (o.player p).IsStream

/-- The player belongs to a client that streams, on the descriptor it reads from. -/
structure Served (o : Objects) (p : Ptr) : Prop where
  client : (o.player p).parent ∈ o.clients
  state : (o.client (o.player p).parent).state = .streamingData
  fd : (o.client (o.player p).parent).fd = (o.player p).sourceId

structure Paired (o : Objects) : Prop where
  served : ∀ l p, o.StreamAt l p → o.Served p
  streams : ∀ c ∈ o.clients, (o.client c).state = .streamingData →
    ∃ l p, o.StreamAt l p ∧ (o.player p).parent = c
  unique : ∀ l p l' p', o.StreamAt l p → o.StreamAt l' p' →
    (o.player p).parent = (o.player p').parent → l = l' ∧ p = p'
  fds : ∀ c ∈ o.clients, ∀ d ∈ o.clients, (o.client c).fd = (o.client d).fd → c = d

namespace Paired

variable {o o' : Objects} {l : PlayerList} {c p : Ptr}

/-- The same streams, for the same clients. -/
theorem congr (h : o.Paired) (hclients : o'.clients = o.clients)
    (hclient : ∀ c ∈ o.clients, (o'.client c).fd = (o.client c).fd ∧
      ((o'.client c).state = .streamingData ↔ (o.client c).state = .streamingData))
    (hstreams : ∀ l p, o'.StreamAt l p ↔ o.StreamAt l p)
    (hkind : ∀ l p, o.StreamAt l p → (o'.player p).SameKind (o.player p)) : o'.Paired where
  served l p hp := by
    have hold := (hstreams l p).mp hp
    have hserved := h.served l p hold
    have hk := hkind l p hold
    exact
      { client := by rw [hk.parent, hclients]; exact hserved.client
        state := by rw [hk.parent]; exact (hclient _ hserved.client).2.mpr hserved.state
        fd := by
          rw [hk.parent, hk.sourceId, (hclient _ hserved.client).1]
          exact hserved.fd }
  streams c hc hstate := by
    rw [hclients] at hc
    obtain ⟨l, p, hp, hparent⟩ := h.streams c hc ((hclient c hc).2.mp hstate)
    exact ⟨l, p, (hstreams l p).mpr hp, (hkind l p hp).parent.trans hparent⟩
  unique l p l' p' hp hp' hparent := by
    have hold := (hstreams l p).mp hp
    have hold' := (hstreams l' p').mp hp'
    rw [(hkind l p hold).parent, (hkind l' p' hold').parent] at hparent
    exact h.unique l p l' p' hold hold' hparent
  fds c hc d hd hfd := by
    rw [hclients] at hc hd
    rw [(hclient c hc).1, (hclient d hd).1] at hfd
    exact h.fds c hc d hd hfd

/-- A player that is no stream is listed or taken off. -/
theorem relist (h : o.Paired) {lists : PlayerList → List Ptr} {player : Ptr → EsdPlayer}
    (hstreams : ∀ l p, p ∈ lists l → (player p).IsStream → o.StreamAt l p)
    (hkept : ∀ l p, o.StreamAt l p → p ∈ lists l ∧ player p = o.player p)
    (hclients : o'.clients = o.clients) (hclient : o'.client = o.client)
    (hlists : o'.lists = lists) (hplayer : o'.player = player) : o'.Paired := by
  refine h.congr hclients (fun _ _ => by simp [hclient]) (fun l p => ⟨?_, ?_⟩) ?_
  · rintro ⟨hp, mode⟩
    exact hstreams l p (hlists ▸ hp) (hplayer ▸ mode)
  · intro hp
    obtain ⟨hp', hsame⟩ := hkept l p hp
    exact ⟨hlists ▸ hp', by rw [hplayer, hsame]; exact hp.mode⟩
  · intro l p hp
    rw [hplayer, (hkept l p hp).2]
    exact .refl _

theorem connect (h : o.Paired) {v : EsdClient} (fresh : c ∉ o.clients)
    (hfd : ∀ d ∈ o.clients, (o.client d).fd ≠ v.fd) (state : v.state ≠ .streamingData) :
    ({ o.setClient c v with clients := c :: o.clients } : Objects).Paired := by
  have hold : ∀ d ∈ o.clients, Function.update o.client c v d = o.client d := fun d hd =>
    Function.update_of_ne (fun he : d = c => fresh (he ▸ hd)) _ _
  have hself : Function.update o.client c v c = v := Function.update_self _ _ _
  refine ⟨fun l p hp => ?_, fun d hd hstate => ?_, fun l p l' p' hp hp' => ?_,
    fun d hd d' hd' he => ?_⟩
  · have hserved := h.served l p ⟨hp.listed, hp.mode⟩
    exact
      { client := List.mem_cons_of_mem _ hserved.client
        state := by
          simp only [setClient, hold _ hserved.client]
          exact hserved.state
        fd := by
          simp only [setClient, hold _ hserved.client]
          exact hserved.fd }
  · simp only [setClient] at hstate
    rcases List.mem_cons.mp hd with rfl | hd
    · rw [hself] at hstate
      exact absurd hstate state
    · rw [hold d hd] at hstate
      obtain ⟨l, p, hp, hparent⟩ := h.streams d hd hstate
      exact ⟨l, p, ⟨hp.listed, hp.mode⟩, hparent⟩
  · exact h.unique l p l' p' ⟨hp.listed, hp.mode⟩ ⟨hp'.listed, hp'.mode⟩
  · simp only [setClient] at he
    rcases List.mem_cons.mp hd with rfl | md <;> rcases List.mem_cons.mp hd' with rfl | md'
    · rfl
    · rw [hself, hold d' md'] at he
      exact absurd he.symm (hfd d' md')
    · rw [hself, hold d md] at he
      exact absurd he (hfd d md)
    · rw [hold d md, hold d' md'] at he
      exact h.fds d md d' md' he

theorem disconnect (h : o.Paired) (state : (o.client c).state ≠ .streamingData) :
    ({ o with clients := o.clients.erase c } : Objects).Paired where
  served l p hp := by
    have hserved := h.served l p ⟨hp.listed, hp.mode⟩
    have hne : (o.player p).parent ≠ c := fun he => state (he ▸ hserved.state)
    exact ⟨(List.mem_erase_of_ne hne).mpr hserved.client, hserved.state, hserved.fd⟩
  streams d hd hstate := by
    obtain ⟨l, p, hp, hparent⟩ := h.streams d (List.mem_of_mem_erase hd) hstate
    exact ⟨l, p, ⟨hp.listed, hp.mode⟩, hparent⟩
  unique l p l' p' hp hp' := h.unique l p l' p' ⟨hp.listed, hp.mode⟩ ⟨hp'.listed, hp'.mode⟩
  fds d hd d' hd' := h.fds d (List.mem_of_mem_erase hd) d' (List.mem_of_mem_erase hd')

theorem openStream (h : o.Paired) {v : EsdPlayer} (listed : c ∈ o.clients)
    (state : (o.client c).state ≠ .streamingData) (fresh : o.Unlisted p) (mode : v.IsStream)
    (parent : v.parent = c) (sourceId : v.sourceId = (o.client c).fd) :
    (((o.setPlayer p v).setList l (p :: o.lists l)).setClient c
      { o.client c with state := .streamingData }).Paired := by
  have hself : Function.update o.player p v p = v := Function.update_self _ _ _
  have hne : ∀ l' p', p' ∈ o.lists l' → p' ≠ p := fun l' p' hp' he => fresh l' (he ▸ hp')
  have hold : ∀ l' p', p' ∈ o.lists l' → Function.update o.player p v p' = o.player p' :=
    fun l' p' hp' => Function.update_of_ne (hne l' p' hp') _ _
  have hclientSelf : Function.update o.client c { o.client c with state := .streamingData } c =
      { o.client c with state := .streamingData } := Function.update_self _ _ _
  have hclientOld : ∀ d ≠ c, Function.update o.client c
      { o.client c with state := .streamingData } d = o.client d := fun d hd =>
    Function.update_of_ne hd _ _
  -- every stream is the new one, or an old one of another client
  have hcases : ∀ l' p', (((o.setPlayer p v).setList l (p :: o.lists l)).setClient c
      { o.client c with state := .streamingData }).StreamAt l' p' →
      (l' = l ∧ p' = p) ∨ (o.StreamAt l' p' ∧ (o.player p').parent ≠ c) := by
    rintro l' p' ⟨hp', hmode⟩
    rcases mem_update_cons.mp hp' with hnew | hp'
    · exact .inl hnew
    · have hstream : o.StreamAt l' p' := ⟨hp', hold l' p' hp' ▸ hmode⟩
      exact .inr ⟨hstream, fun he => state (he ▸ (h.served l' p' hstream).state)⟩
  refine ⟨fun l' p' hp' => ?_, fun d hd hstate => ?_, fun l₁ p₁ l₂ p₂ h₁ h₂ he => ?_,
    fun d hd d' hd' he => ?_⟩
  · rcases hcases l' p' hp' with ⟨rfl, rfl⟩ | ⟨hstream, hparent⟩
    · exact
        { client := by
            simp only [setClient, setList, setPlayer, hself, parent]
            exact listed
          state := by simp only [setClient, setList, setPlayer, hself, parent, hclientSelf]
          fd := by
            simp only [setClient, setList, setPlayer, hself, parent, hclientSelf]
            exact sourceId.symm }
    · have hserved := h.served l' p' hstream
      exact
        { client := by
            simp only [setClient, setList, setPlayer, hold l' p' hstream.listed]
            exact hserved.client
          state := by
            simp only [setClient, setList, setPlayer, hold l' p' hstream.listed,
              hclientOld _ hparent]
            exact hserved.state
          fd := by
            simp only [setClient, setList, setPlayer, hold l' p' hstream.listed,
              hclientOld _ hparent]
            exact hserved.fd }
  · by_cases hd' : d = c
    · subst hd'
      refine ⟨l, p, ⟨mem_update_cons.mpr (.inl ⟨rfl, rfl⟩), ?_⟩, ?_⟩
      · simpa only [setClient, setList, setPlayer, hself] using mode
      · simpa only [setClient, setList, setPlayer, hself] using parent
    · simp only [setClient, setList, setPlayer, hclientOld d hd'] at hstate
      obtain ⟨l', p', hp', hparent⟩ := h.streams d hd hstate
      refine ⟨l', p', ⟨mem_update_cons.mpr (.inr hp'.listed), ?_⟩, ?_⟩
      · simpa only [setClient, setList, setPlayer, hold l' p' hp'.listed] using hp'.mode
      · simpa only [setClient, setList, setPlayer, hold l' p' hp'.listed] using hparent
  · simp only [setClient, setList, setPlayer] at he
    rcases hcases l₁ p₁ h₁ with ⟨rfl, rfl⟩ | ⟨s₁, n₁⟩ <;>
      rcases hcases l₂ p₂ h₂ with ⟨rfl, rfl⟩ | ⟨s₂, n₂⟩
    · exact ⟨rfl, rfl⟩
    · rw [hself, hold l₂ p₂ s₂.listed, parent] at he
      exact absurd he.symm n₂
    · rw [hself, hold l₁ p₁ s₁.listed, parent] at he
      exact absurd he n₁
    · rw [hold l₁ p₁ s₁.listed, hold l₂ p₂ s₂.listed] at he
      exact h.unique l₁ p₁ l₂ p₂ s₁ s₂ he
  · have hfd : ∀ d, (Function.update o.client c
        { o.client c with state := .streamingData } d).fd = (o.client d).fd := by
      intro d
      rcases eq_or_ne d c with rfl | hne <;> simp [*]
    simp only [setClient, setList, setPlayer, hfd] at he
    exact h.fds d hd d' hd' he

/-- The client of a stream that goes has no other stream. -/
theorem closeStream (h : o.Paired) (hw : o.WellFormed) (listed : p ∈ o.lists l)
    (mode : (o.player p).IsStream) :
    ({ o.unlist l p with clients := o.clients.erase (o.player p).parent } : Objects).Paired := by
  have hcases : ∀ l' p', Objects.StreamAt
      { o.unlist l p with clients := o.clients.erase (o.player p).parent } l' p' →
      o.StreamAt l' p' ∧ (o.player p').parent ≠ (o.player p).parent := by
    rintro l' p' ⟨hp', hmode⟩
    obtain ⟨hp', hother⟩ := (mem_update_erase (hw.lists_nodup l)).mp hp'
    exact ⟨⟨hp', hmode⟩, fun he => hother (h.unique l' p' l p ⟨hp', hmode⟩ ⟨listed, mode⟩ he)⟩
  refine ⟨fun l' p' hp' => ?_, fun d hd hstate => ?_, fun l₁ p₁ l₂ p₂ h₁ h₂ => ?_,
    fun d hd d' hd' => ?_⟩
  · obtain ⟨hstream, hne⟩ := hcases l' p' hp'
    have hserved := h.served l' p' hstream
    exact ⟨(List.mem_erase_of_ne hne).mpr hserved.client, hserved.state, hserved.fd⟩
  · obtain ⟨hne, hd⟩ := hw.clients_nodup.mem_erase_iff.mp hd
    obtain ⟨l', p', hp', hparent⟩ := h.streams d hd hstate
    have hp : p' ≠ p := fun he => hne (hparent ▸ he ▸ rfl)
    exact ⟨l', p', ⟨mem_update_erase_of_ne hp hp'.listed, hp'.mode⟩, hparent⟩
  · exact h.unique l₁ p₁ l₂ p₂ (hcases l₁ p₁ h₁).1 (hcases l₂ p₂ h₂).1
  · exact h.fds d (List.mem_of_mem_erase hd) d' (List.mem_of_mem_erase hd')

/-- A player that is no stream goes, whatever becomes of samples. -/
theorem unlist (h : o.Paired) (mode : ¬ (o.player p).IsStream)
    (hclients : o'.clients = o.clients) (hclient : o'.client = o.client)
    (hlists : o'.lists = Function.update o.lists l ((o.lists l).erase p))
    (hplayer : o'.player = o.player) : o'.Paired :=
  h.relist (fun _ _ hp hm => ⟨mem_of_mem_update_erase hp, hm⟩)
    (fun _ p' hp => ⟨mem_update_erase_of_ne (fun he : p' = p => mode (he ▸ hp.mode)) hp.listed, rfl⟩)
    hclients hclient hlists hplayer

end Paired

section Preservation

variable {cfg : Config} {F : Footprint} {o o' : Objects}

theorem Paired.effect (hw : o.WellFormed) (h : o.Paired) (he : Effect cfg F o o') : o'.Paired := by
  have hsame : ∀ {o' : Objects}, o'.clients = o.clients → o'.client = o.client →
      o'.lists = o.lists → o'.player = o.player → o'.Paired := fun hc hcl hl hp =>
    h.relist (fun _ _ hm hs => ⟨hm, hs⟩) (fun _ _ hs => ⟨hs.listed, rfl⟩) hc hcl hl hp
  cases he with
  | client c v _ streaming fd =>
    refine h.congr rfl (fun d _ => ?_) (fun l p => ⟨fun hp => ⟨hp.listed, hp.mode⟩,
      fun hp => ⟨hp.listed, hp.mode⟩⟩) (fun _ _ _ => .refl _)
    rcases eq_or_ne d c with rfl | hne <;> simp [*]
  | connect c v _ _ fresh hfd state => exact h.connect fresh hfd state
  | disconnect c state => exact h.disconnect state
  | openStream l c p v _ listed state fresh mode parent sourceId =>
    exact h.openStream listed state fresh mode parent sourceId
  | closeStream l p _ listed mode => exact h.closeStream hw listed mode
  | players f kind =>
    exact h.congr rfl (fun _ _ => ⟨rfl, Iff.rfl⟩)
      (fun l p => ⟨fun hp => ⟨hp.listed, (kind p).isStream_iff.mp hp.mode⟩,
        fun hp => ⟨hp.listed, (kind p).isStream_iff.mpr hp.mode⟩⟩) (fun _ p _ => kind p)
  | scribble p v fresh =>
    have hold : ∀ l p', p' ∈ o.lists l → Function.update o.player p v p' = o.player p' :=
      fun l p' hp' => Function.update_of_ne (fun he : p' = p => fresh l (he ▸ hp')) _ _
    exact h.relist (fun l p' hp hs => ⟨hp, hold l p' hp ▸ hs⟩)
      (fun l p' hs => ⟨hs.listed, hold l p' hs.listed⟩) rfl rfl rfl rfl
  | buffer | account | sample | skipId | newSample => exact hsame rfl rfl rfl rfl
  | freeSample id =>
    obtain ⟨qs, f, heq⟩ := o.eraseSample_frame id
    rw [heq]
    exact hsame rfl rfl rfl rfl
  | startSample q p v _ fresh mode =>
    have hold : ∀ l p', p' ∈ o.lists l → Function.update o.player p v p' = o.player p' :=
      fun l p' hp' => Function.update_of_ne (fun he : p' = p => fresh l (he ▸ hp')) _ _
    refine h.relist (fun l p' hp hs => ?_)
      (fun l p' hs => ⟨mem_update_cons.mpr (.inr hs.listed), hold l p' hs.listed⟩)
      rfl rfl rfl rfl
    rcases mem_update_cons.mp hp with ⟨-, rfl⟩ | hp
    · rw [Function.update_self] at hs
      exact absurd mode hs.not_isSample
    · exact ⟨hp, hold l p' hp ▸ hs⟩
  | endSample l p _ _ mode =>
    obtain ⟨qs, f, heq⟩ := o.endSample_frame l p
    rw [heq]
    exact h.unlist (fun hs => hs.not_isSample mode) rfl rfl rfl rfl
  | dropOther l p _ _ notStream => exact h.unlist notStream rfl rfl rfl rfl

end Preservation

end Objects

/-! ## In every run -/

theorem Server.Initial.paired {s : Server} (hs : s.Initial) : s.objects.Paired where
  served l p hp := by simpa [hs.list l] using hp.listed
  streams c hc := by simp [hs.clients] at hc
  unique l p l' p' hp := by simpa [hs.list l] using hp.listed
  fds c hc := by simp [hs.clients] at hc

/-- A client connects, asks for a stream, and sends the pieces. -/
def streamingRun (pieces : List (List Octet)) : List Action :=
  [.accept 1 5 (.sending ([handshake 7, Word.octets 3#32,
      streamParams (esdBits16 ||| esdStereo) 44100#32] ++ pieces)),
    .poll 1 (.allocating 0), .poll 1 (.allocating 0), .poll 1 (.allocating 2)]

theorem streamingRun_ends : (exec (step .smallBlocks) NoReset .blank (streamingRun [])).isSome := by
  decide +kernel

end Esound
