import Esound.Resuming
import Esound.Lockstep
import Esound.Swapping
import Mathlib.Data.List.TakeWhile

/-!
# Samples as they were sent

An upload goes on over as many turns as it takes, and between them the daemon does other things.
What has arrived of the sample and what the client has yet to send make up what it sent, whatever
happens in between, until the sample is complete.
-/

open Library.Buffer Library.Loop Library.Transition

namespace Esound

/-- All octets that the socket will deliver. -/
def Socket.toCome (k : Socket) : List Octet := k.input.flatMap ReadResult.octets

/-- The octets that the client has yet to send. -/
def Server.toCome (s : Server) (c : Ptr) : List Octet := (s.sockets (s.client c).fd).toCome

/-- What has arrived of a sample. -/
def Server.arrivedOf (s : Server) (q : Ptr) : List Octet :=
  load (s.sampleData q) 0 (s.sample q).cachedLength.toNat

/-! ## One call -/

section Call

variable {cfg : Config} {c q : Ptr} {s t : Server} {r r' : ReadSample}

theorem Socket.read_toCome (k : Socket) (n : ℤ) : (k.read n).1.octets ++ (k.read n).2.toCome = k.toCome := by
  obtain ⟨input, room⟩ := k
  match input with
  | [] => rfl
  | .data bs :: rest =>
    simp only [Socket.read]
    split_ifs
    · rfl
    · simp only [Socket.toCome, ReadResult.octets, List.flatMap_cons, ← List.append_assoc,
        List.take_append_drop]
  | .again :: rest => rfl
  | .error :: rest => rfl

theorem readSampleRound_toCome (h : readSampleRound cfg q r = some r') :
    nextOctets cfg q r ++ (r'.srv.uploadSocket q).toCome = (r.srv.uploadSocket q).toCome := by
  obtain ⟨fd, hfd⟩ : ∃ fd, (r.srv.client (r.srv.sample q).parent).fd = fd := ⟨_, rfl⟩
  obtain ⟨n, hn⟩ : ∃ n, min (cfg.esdBufSizeOctets : ℤ) ((r.srv.sample q).sampleLength - r.total) = n :=
    ⟨_, rfl⟩
  have hread := (r.srv.sockets fd).read_toCome n
  have hsocket : r'.srv.uploadSocket q = ((r.srv.sockets fd).read n).2 := by
    simp only [readSampleRound, Server.sysRead, hfd, hn] at h
    split_ifs at h
    split at h
    · cases h
      simp [Server.uploadSocket, hfd]
    · cases h
      simp [Server.uploadSocket, hfd]
    · split_ifs at h
      · cases h
        simp [Server.uploadSocket, hfd]
      · cases h
        simp [Server.uploadSocket, Server.setSampleData, hfd]
  rw [hsocket, Server.uploadSocket, hfd]
  simpa [nextOctets, Server.sysRead, hfd, hn] using hread

variable (cfg q) in
theorem readsOf_toCome (n : ℕ) (r : ReadSample) :
    (readsOf cfg q n r).flatten ++ ((whileFuel (readSampleRound cfg q) n r).srv.uploadSocket q).toCome =
      (r.srv.uploadSocket q).toCome := by
  induction n generalizing r with
  | zero => rfl
  | succ n ih =>
    simp only [readsOf, whileFuel]
    cases hround : readSampleRound cfg q r with
    | none => rfl
    | some r' =>
      simp only [List.flatten_cons, List.append_assoc]
      rw [ih r', readSampleRound_toCome hround]

/-- The shorts of a sample of this format are not swapped. -/
def Unswapped (cl : EsdClient) (format : Word) : Prop :=
  cl.swapByteOrder = false ∨ format &&& esdMaskBits ≠ esdBits16

instance (cl : EsdClient) (format : Word) : Decidable (Unswapped cl format) := inferInstanceAs (Decidable (_ ∨ _))

theorem Unswapped.storePieces {cl : EsdClient} {sm : EsdSample} (h : Unswapped cl sm.format) (data : Mem)
    (total : ℕ) (pieces : List (List Octet)) : storePieces cl sm data total pieces = store data total pieces.flatten := by
  have hnot : ¬ (cl.swapByteOrder = true ∧ sm.format &&& esdMaskBits = esdBits16) := by
    rintro ⟨hswap, hbits⟩
    rcases h with hown | hbits'
    · rw [hswap] at hown
      cases hown
    · exact hbits' hbits
  induction pieces generalizing data total with
  | nil => simp [Esound.storePieces]
  | cons bs rest ih =>
    have hone : storeSample cl sm data total bs = store data total bs := by
      simp only [storeSample, if_neg hnot]
    have hnext := ih (store data total bs) (total + bs.length)
    rw [Nat.cast_add] at hnext
    rw [Esound.storePieces, hone, hnext, List.flatten_cons, ← store_store, Nat.cast_add]

variable (cfg) in
/-- A call that does not fail adds to the sample what it takes of the octets. -/
theorem readSample_adds (unswapped : Unswapped (s.client (s.sample q).parent) (s.sample q).format)
    (low : 0 ≤ (s.sample q).cachedLength) (hok : (readSample cfg s q).2 = true) :
    0 ≤ ((readSample cfg s q).1.sample q).cachedLength ∧
      (readSample cfg s q).1.arrivedOf q ++ ((readSample cfg s q).1.uploadSocket q).toCome =
        s.arrivedOf q ++ (s.uploadSocket q).toCome := by
  have hreads := readSample_reads cfg s q
  have hdone := hreads.done hok
  have htoCome : (sampleReads cfg s q).flatten ++ ((readSample cfg s q).1.uploadSocket q).toCome =
      (s.uploadSocket q).toCome := by
    have hall := readsOf_toCome cfg q (((s.sample q).sampleLength - (s.sample q).cachedLength).toNat + 1)
      ⟨s, (s.sample q).cachedLength, true, false⟩
    rw [← hall]
    simp only [readSample] at hok ⊢
    split_ifs at hok ⊢
    simp [sampleReads, Server.uploadSocket, Server.setSample]
  obtain ⟨n, hn⟩ : ∃ n : ℕ, (s.sample q).cachedLength = n := ⟨_, (Int.toNat_of_nonneg low).symm⟩
  have hdata : (readSample cfg s q).1.sampleData q = store (s.sampleData q) n (sampleReads cfg s q).flatten := by
    rw [hreads.data, Function.update_self, hn, unswapped.storePieces]
  have hload : (readSample cfg s q).1.arrivedOf q = s.arrivedOf q ++ (sampleReads cfg s q).flatten := by
    have hcount : ((readSample cfg s q).1.sample q).cachedLength.toNat =
        n + (sampleReads cfg s q).flatten.length := by omega
    rw [Server.arrivedOf, hcount, hdata, load_store_append, Server.arrivedOf, hn, Int.toNat_natCast]
  refine ⟨by omega, ?_⟩
  rw [hload, List.append_assoc, htoCome]

/-- How far the upload is: complete when the client's next request is waited for. -/
def Stage (c q : Ptr) (s : Server) : Prop :=
  (s.client c).state = .cachingSample ∧ (s.sample q).cachedLength < (s.sample q).sampleLength ∨
    (s.client c).state = .nextRequest ∧ (s.sample q).cachedLength = (s.sample q).sampleLength

/-- What the handler leaves of the sample and of its client. -/
structure Adds (c q : Ptr) (s t : Server) : Prop where
  parent : (t.sample q).parent = c
  format : (t.sample q).format = (s.sample q).format
  sampleLength : (t.sample q).sampleLength = (s.sample q).sampleLength
  low : 0 ≤ (t.sample q).cachedLength
  order : (t.client c).swapByteOrder = (s.client c).swapByteOrder
  octets : t.arrivedOf q ++ t.toCome c = s.arrivedOf q ++ s.toCome c
  stage : Stage c q t

theorem Adds.reply (h : Adds c q s t) (x : ℤ) : Adds c q s (reply t c x).1 := by
  have hinput : ((Esound.reply t c x).1.sockets (t.client c).fd).input = (t.sockets (t.client c).fd).input :=
    (reply_unread x).input _
  have htoCome : (Esound.reply t c x).1.toCome c = t.toCome c :=
    congrArg (List.flatMap ReadResult.octets) hinput
  refine ⟨h.parent, h.format, h.sampleLength, h.low, h.order, ?_, h.stage⟩
  rw [htoCome]
  exact h.octets

/-- The read of the handler, and the state it puts the client in. -/
theorem readSample_setState (unswapped : Unswapped (s.client c) (s.sample q).format)
    (low : 0 ≤ (s.sample q).cachedLength)
    (hread : readSample cfg (s.setSample q { s.sample q with parent := c }) q = (t, true)) {state : ClientState}
    (hstage : state = .cachingSample ∧ (t.sample q).cachedLength < (t.sample q).sampleLength ∨
      state = .nextRequest ∧ (t.sample q).cachedLength = (t.sample q).sampleLength) :
    Adds c q s (t.setClient c { t.client c with state := state }) := by
  obtain ⟨u, hu⟩ : ∃ u, s.setSample q { s.sample q with parent := c } = u := ⟨_, rfl⟩
  have hq : u.sample q = { s.sample q with parent := c } := by simp [← hu, Server.setSample]
  have hsame : u.client = s.client ∧ u.sockets = s.sockets ∧ u.sampleData = s.sampleData := by
    rw [← hu]
    exact ⟨rfl, rfl, rfl⟩
  have hadds := readSample_adds cfg (s := u) (q := q)
    (by rw [hq, hsame.1]; exact unswapped) (by rw [hq]; exact low)
  have hclient : (readSample cfg u q).1.client = u.client := readSample_client cfg
  have hrest := congrFun (congrArg Server.sample (readSample_reads cfg u q).rest) q
  simp only [Function.update_self, hq] at hrest
  rw [hu] at hread
  rw [hread] at hadds hclient hrest
  obtain ⟨hlow, hoctets⟩ := hadds rfl
  have hnow : t.client = s.client := hclient.trans hsame.1
  have hparent : (t.sample q).parent = c := by rw [hrest]
  have hafter : t.uploadSocket q = t.sockets (s.client c).fd := by
    rw [Server.uploadSocket, hparent, hnow]
  have hbefore : u.uploadSocket q = s.sockets (s.client c).fd := by
    simp only [Server.uploadSocket, hq, hsame.1, hsame.2.1]
  have harrived : u.arrivedOf q = s.arrivedOf q := by
    simp only [Server.arrivedOf, hq, hsame.2.2]
  rw [hafter, hbefore, harrived] at hoctets
  have hset : (t.setClient c { t.client c with state := state }).client c =
      { s.client c with state := state } := by
    simp [Server.setClient, hnow]
  refine ⟨hparent, by rw [← congrArg EsdSample.format hrest]; rfl,
    by rw [← congrArg EsdSample.sampleLength hrest]; rfl, hlow, ?_, ?_, ?_⟩
  · rw [hset]
  · rw [Server.toCome, hset]
    exact hoctets
  · simp only [Stage, hset]
    exact hstage

variable (cfg) in
theorem cacheInto_adds (unswapped : Unswapped (s.client c) (s.sample q).format)
    (low : 0 ≤ (s.sample q).cachedLength) (hle : (s.sample q).cachedLength ≤ (s.sample q).sampleLength)
    (hok : (cacheInto cfg s c q).2 = true) : Adds c q s (cacheInto cfg s c q).1 := by
  obtain ⟨u, hu⟩ : ∃ u, s.setSample q { s.sample q with parent := c } = u := ⟨_, rfl⟩
  have hq : u.sample q = { s.sample q with parent := c } := by simp [← hu, Server.setSample]
  have houtcome := (readSample_outcome cfg (s := u) (q := q) (by rw [hq]; exact hle)).2
  have hrest := congrFun (congrArg Server.sample (readSample_reads cfg u q).rest) q
  simp only [Function.update_self, hq] at hrest
  simp only [cacheInto, hu] at hok ⊢
  obtain ⟨⟨v, ok⟩, hread⟩ : ∃ r, readSample cfg u q = r := ⟨_, rfl⟩
  rw [hread] at hrest houtcome hok ⊢
  cases ok with
  | false => cases hok
  | true =>
    have hlength : (v.sample q).sampleLength = (u.sample q).sampleLength := by rw [hrest, hq]
    have hmost : (v.sample q).cachedLength ≤ (u.sample q).sampleLength := by
      rw [houtcome rfl]
      exact min_le_left _ _
    rw [← hu] at hread
    dsimp only
    split_ifs with hmore
    · exact readSample_setState unswapped low hread (.inl ⟨rfl, hmore⟩)
    · refine (readSample_setState unswapped low hread (.inr ⟨rfl, ?_⟩)).reply _
      omega

/-- The handler writes to the buffer of its own sample. -/
theorem cacheInto_data {q' : Ptr} (hne : q' ≠ q) : (cacheInto cfg s c q).1.sampleData q' = s.sampleData q' := by
  obtain ⟨u, hu⟩ : ∃ u, u = s.setSample q { s.sample q with parent := c } := ⟨_, rfl⟩
  have hdata := congrFun (readSample_reads cfg u q).data q'
  rw [Function.update_of_ne hne] at hdata
  obtain ⟨⟨v, ok⟩, hr⟩ : ∃ r, readSample cfg u q = r := ⟨_, rfl⟩
  rw [hr] at hdata
  have hsame : v.sampleData q' = s.sampleData q' := by
    rw [hdata, hu]
    rfl
  simp only [cacheInto, ← hu, hr]
  cases ok with
  | false => exact hsame
  | true =>
    dsimp only
    split_ifs <;> exact hsame

end Call

/-! ## Between the calls -/

section Between

variable {D : Set Deed} {cfg : Config} {env : PollEnv} {c d q : Ptr} {s t u : Server} {r : Server × Bool}
  {a : Action} {sent : List Octet} {length : ℤ}

/-- What is taken off the list of samples leaves none before `q` that was behind it. -/
theorem mem_takeWhile_of_sublist {l l' : List Ptr} (h : l'.Sublist l) (once : l.count q ≤ 1) (hq : q ∈ l')
    {x : Ptr} (hx : x ∈ l'.takeWhile (· ≠ q)) : x ∈ l.takeWhile (· ≠ q) := by
  induction h with
  | slnil => exact hx
  | @cons l' l y h ih =>
    have hcount : 0 < l.count q := List.count_pos_iff.mpr (h.subset hq)
    have hne : y ≠ q := by
      rintro rfl
      rw [List.count_cons_self] at once
      omega
    rw [List.count_cons_of_ne hne] at once
    rw [List.takeWhile_cons_of_pos (by simpa using hne)]
    exact List.mem_cons_of_mem _ (ih once hq hx)
  | @cons_cons l' l y h ih =>
    rcases eq_or_ne y q with rfl | hne
    · simp at hx
    · rw [List.takeWhile_cons_of_pos (by simpa using hne)] at hx ⊢
      rcases List.mem_cons.mp hx with rfl | hx
      · exact List.mem_cons_self
      · have hq' : q ∈ l' := (List.mem_cons.mp hq).resolve_left hne.symm
        rw [List.count_cons_of_ne hne] at once
        exact List.mem_cons_of_mem _ (ih once hq' hx)

/-- Others leave the sample alone, and put only their own on top of it. -/
structure Spared (c q : Ptr) (s t : Server) : Prop where
  sample : (t.sample q).SameUpload (s.sample q)
  data : t.sampleData q = s.sampleData q
  once : t.esdSamplesList.count q ≤ 1
  above : q ∈ t.esdSamplesList → ∀ q' ∈ t.esdSamplesList.takeWhile (· ≠ q), (t.sample q').parent ≠ c

theorem Spared.shelved (h : Spared c q s t) (hshelved : Shelved D t u) : Spared c q s u where
  sample := h.sample.trans (hshelved.sample q)
  data := (congrFun hshelved.data q).trans h.data
  once := (hshelved.listed.count_le q).trans h.once
  above hq q' hq' := by
    rw [(hshelved.sample q').parent]
    exact h.above (hshelved.listed.subset hq) q' (mem_takeWhile_of_sublist hshelved.listed h.once hq hq')

theorem cacheInto_spared {q₀ : Ptr} (sample : (t.sample q).SameUpload (s.sample q))
    (data : t.sampleData q = s.sampleData q) (once : t.esdSamplesList.count q ≤ 1)
    (above : ∀ q' ∈ t.esdSamplesList.takeWhile (· ≠ q), q' ≠ q₀ → (t.sample q').parent ≠ c)
    (hne : q ≠ q₀) (hd : d ≠ c) : Spared c q s (cacheInto cfg t d q₀).1 := by
  have hcaches : Caches d q₀ t (cacheInto cfg t d q₀) := cacheInto_caches
  have hsample := hcaches.sample
  refine ⟨?_, (cacheInto_data hne).trans data, by rw [hcaches.samples]; exact once, fun _ q' hq' => ?_⟩
  · rw [hsample, Function.update_of_ne hne]
    exact sample
  · rw [hcaches.samples] at hq'
    rw [hsample]
    rcases eq_or_ne q' q₀ with rfl | hother
    · rw [Function.update_self]
      exact hd
    · rw [Function.update_of_ne hother]
      exact above q' hq' hother

theorem Spared.cache (h : Spared c q s t) (parent : (s.sample q).parent = c) (hq : q ∈ t.esdSamplesList)
    (fresh : env.malloc ∉ t.esdSamplesList) (hd : d ≠ c)
    (hcache : esdProtoSampleCache cfg env t d = some r) : Spared c q s r.1 := by
  simp only [esdProtoSampleCache] at hcache
  split_ifs at hcache with hcaching hnull
  · split at hcache
    · cases hcache
    · rename_i q₀ hfound
      split_ifs at hcache with hzero
      · cases hcache
        exact h
      · cases hcache
        have hparent := (findCachingSample_mem hfound hzero).2
        have hne : q ≠ q₀ := by
          rintro rfl
          exact hd (hparent.symm.trans (h.sample.parent.trans parent))
        exact cacheInto_spared h.sample h.data h.once (fun q' hq' _ => h.above hq q' hq') hne hd
  · cases hcache
    obtain ⟨-, ⟨-, hshelf⟩ | ⟨hmalloc, hne, -⟩⟩ := newSample_cached cfg env t d
    · exact h.shelved (D := ∅) (.same hshelf)
    · exact absurd (hmalloc.symm.trans hnull) hne
  · cases hcache
    obtain ⟨-, ⟨hzero, -⟩ | ⟨hmalloc, hnot, v, -, hshelf⟩⟩ := newSample_cached cfg env t d
    · exact absurd hzero hnull
    · rw [hmalloc]
      have hne : q ≠ env.malloc := fun he => fresh (he ▸ hq)
      obtain ⟨u, hu⟩ : ∃ u, addSample (newSample cfg env t d).1 env.malloc = u := ⟨_, rfl⟩
      have hlist : u.esdSamplesList = env.malloc :: t.esdSamplesList := by
        rw [← hu]
        exact congrArg (List.cons env.malloc) (congrArg Shelf.samples hshelf)
      have hsample : u.sample = Function.update t.sample env.malloc v := by
        rw [← hu]
        exact congrArg Shelf.sample hshelf
      have hdata : u.sampleData = t.sampleData := by
        rw [← hu]
        exact congrArg Shelf.sampleData hshelf
      rw [hu]
      refine cacheInto_spared ?_ (by rw [hdata]; exact h.data)
        (by rw [hlist, List.count_cons_of_ne hne.symm]; exact h.once) (fun q' hq' hother => ?_) hne hd
      · rw [hsample, Function.update_of_ne hne]
        exact h.sample
      · rw [hlist, List.takeWhile_cons_of_pos (by simpa using hne.symm)] at hq'
        rw [hsample, Function.update_of_ne hother]
        exact h.above hq q' ((List.mem_cons.mp hq').resolve_left hother)

/-- An upload between two turns of its client: what has arrived and what is to come is what was
sent, and the search for the sample of the client comes to no other before it. -/
structure Underway (c q : Ptr) (sent : List Octet) (length : ℤ) (s : Server) : Prop where
  notNull : q ≠ 0
  once : s.esdSamplesList.count q ≤ 1
  parent : (s.sample q).parent = c
  unswapped : Unswapped (s.client c) (s.sample q).format
  low : 0 ≤ (s.sample q).cachedLength
  above : q ∈ s.esdSamplesList → ∀ q' ∈ s.esdSamplesList.takeWhile (· ≠ q), (s.sample q').parent ≠ c
  octets : s.arrivedOf q ++ s.toCome c = sent
  length : (s.sample q).sampleLength = length
  stage : Stage c q s

theorem Underway.spared (h : Underway c q sent length s) : Spared c q s s :=
  ⟨.refl _, rfl, h.once, h.above⟩

theorem Underway.step_spared (h : Underway c q sent length s) (hq : q ∈ s.esdSamplesList) (hother : ¬ a.Polls c)
    (hstep : step cfg s a = some t) : Spared c q s t := by
  by_cases hpoll : ∃ d env, a = .poll d env
  · obtain ⟨d, env, rfl⟩ := hpoll
    obtain ⟨⟨-, -, fresh⟩, hturn⟩ := step_eq_some hstep
    obtain ⟨r, hr, rfl⟩ := Option.map_eq_some_iff.mp hturn
    have hone : Spared c q s r.1 := by
      cases pollTurn_ends hr with
      | heard _ hheard => exact h.spared.shelved (D := Set.univ) hheard.keeps.toShelved
      | handled request u hheard _ _ r' hhandler =>
        have hshelved : Shelved Set.univ s u := hheard.keeps.toShelved
        have hspared := h.spared.shelved hshelved
        have hdone : Spared c q s r'.1 := by
          by_cases hcache : request = .sampleCache
          · subst hcache
            have hlist : u.esdSamplesList = s.esdSamplesList := by rw [hheard.rest]
            exact hspared.cache h.parent (by rw [hlist]; exact hq) (by rw [hlist]; exact fresh) hother hhandler
          · exact hspared.shelved (handler_shelved hcache hhandler)
        exact hdone.shelved (D := ∅) (.same rfl)
      | resumed _ r' hhandler =>
        have hdone := h.spared.cache h.parent hq fresh hother hhandler
        exact hdone.shelved (D := ∅) (.same rfl)
    split_ifs
    · exact hone
    · exact hone.shelved (D := Set.univ) (eraseClient_keeps d).toShelved
  · exact h.spared.shelved (step_shelved (Set.mem_univ _) hstep fun d env he => hpoll ⟨d, env, he⟩)

theorem Underway.others (h : Underway c q sent length s) (hspared : Spared c q s t) (hpasses : PassesBy c s t) :
    Underway c q sent length t := by
  have hsample := hspared.sample
  have harrived : t.arrivedOf q = s.arrivedOf q := by
    rw [Server.arrivedOf, Server.arrivedOf, hspared.data, hsample.cachedLength]
  have htoCome : t.toCome c = s.toCome c := by
    rw [Server.toCome, Server.toCome, hpasses.client, hpasses.still.socket]
  refine ⟨h.notNull, hspared.once, hsample.parent.trans h.parent, ?_, ?_, hspared.above, ?_,
    hsample.sampleLength.trans h.length, ?_⟩
  · rw [hpasses.client, hsample.format]
    exact h.unswapped
  · rw [hsample.cachedLength]
    exact h.low
  · rw [harrived, htoCome]
    exact h.octets
  · simp only [Stage, hpasses.client, hsample.cachedLength, hsample.sampleLength]
    exact h.stage

theorem Underway.record (h : Underway c q sent length s) (x : Call) : Underway c q sent length (s.record x) :=
  ⟨h.notNull, h.once, h.parent, h.unswapped, h.low, h.above, h.octets, h.length, h.stage⟩

theorem Stage.le (h : Stage c q s) : (s.sample q).cachedLength ≤ (s.sample q).sampleLength := by
  rcases h with ⟨-, hmore⟩ | ⟨-, hfull⟩
  · exact hmore.le
  · exact hfull.le

variable (cfg) in
/-- A turn of the client that goes on with its sample. -/
theorem cacheInto_underway (notNull : q ≠ 0) (once : s.esdSamplesList.count q ≤ 1)
    (unswapped : Unswapped (s.client c) (s.sample q).format) (low : 0 ≤ (s.sample q).cachedLength)
    (hle : (s.sample q).cachedLength ≤ (s.sample q).sampleLength)
    (above : ∀ q' ∈ s.esdSamplesList.takeWhile (· ≠ q), (s.sample q').parent ≠ c)
    (hok : (cacheInto cfg s c q).2 = true) :
    Underway c q (s.arrivedOf q ++ s.toCome c) (s.sample q).sampleLength (cacheInto cfg s c q).1 := by
  have hadds := cacheInto_adds cfg unswapped low hle hok
  have hcaches : Caches c q s (cacheInto cfg s c q) := cacheInto_caches
  refine ⟨notNull, by rw [hcaches.samples]; exact once, hadds.parent, ?_, hadds.low, fun _ q' hq' => ?_,
    hadds.octets, hadds.sampleLength, hadds.stage⟩
  · simp only [Unswapped, hadds.order, hadds.format]
    exact unswapped
  · rw [hcaches.samples] at hq'
    have hne : q' ≠ q := by
      have hwhile := List.mem_takeWhile_imp hq'
      simpa using hwhile
    rw [hcaches.sample, Function.update_of_ne hne]
    exact above q' hq'

/-- The search of the client comes to its sample, or does not end. -/
theorem Underway.found (h : Underway c q sent length s) (hq : q ∈ s.esdSamplesList) {x : Ptr}
    (hfind : findCachingSample s c = some x) : x = q := by
  have habove := h.above hq
  cases hlist : s.esdSamplesList with
  | nil =>
    rw [hlist] at hq
    cases hq
  | cons y ys =>
    rw [hlist] at habove
    simp only [findCachingSample, hlist] at hfind
    split_ifs at hfind with hparent
    cases hfind
    by_contra hne
    refine habove x ?_ hparent
    rw [List.takeWhile_cons_of_pos (by simpa using hne)]
    exact List.mem_cons_self

theorem Underway.ownTurn (h : Underway c q sent length s) (hq : q ∈ s.esdSamplesList)
    (hstate : (s.client c).state = .cachingSample) (hturn : pollTurn cfg env s c = some (t, true)) :
    Underway c q sent length t := by
  have hopening : opening env s c = if env.canRead = false then .done s true else .resumes := by
    simp only [opening, hstate]
  rw [pollTurn_eq, hopening] at hturn
  split_ifs at hturn
  · cases hturn
    exact h
  · simp only [Opening.finish, pollCachingSample, esdProtoSampleCache, hstate, if_true] at hturn
    cases hfind : findCachingSample s c with
    | none => simp [hfind] at hturn
    | some x =>
      obtain rfl := h.found hq hfind
      simp only [hfind, h.notNull, if_false, Option.map_some, Option.some.injEq] at hturn
      have ht : t = (cacheInto cfg s c x).1.record (.resumed c (cacheInto cfg s c x).2) :=
        (congrArg Prod.fst hturn).symm
      have hok : (cacheInto cfg s c x).2 = true := congrArg Prod.snd hturn
      have hnow := cacheInto_underway cfg h.notNull h.once h.unswapped h.low h.stage.le (h.above hq) hok
      rw [h.octets, h.length] at hnow
      rw [ht]
      exact hnow.record _

/-! ## From its first turn on -/

end Between

/-! ## Runs -/

/-- The client waits for the rest of the sample, and the sample is there. -/
def WaitsFor (c q : Ptr) (s : Server) (_ : Action) : Prop :=
  c ∈ s.esdClientsList ∧ (s.client c).state = .cachingSample ∧ q ∈ s.esdSamplesList

instance (c q : Ptr) (s : Server) (a : Action) : Decidable (WaitsFor c q s a) := inferInstanceAs (Decidable (_ ∧ _))

section Runs

variable {cfg : Config} {env : PollEnv} {c q : Ptr} {s t u v w : Server} {a : Action} {as bs : List Action}
  {sent : List Octet} {length : ℤ}

/-- As long as the client is there, its upload is underway. -/
structure Followed (c q : Ptr) (sent : List Octet) (length : ℤ) (s : Server) : Prop where
  wellFormed : s.objects.WellFormed
  paired : s.objects.Paired
  underway : Underway c q sent length s

theorem Followed.step (h : Followed c q sent length s) (hwaits : WaitsFor c q s a) (hstep : step cfg s a = some t)
    (ht : c ∈ t.esdClientsList) : Followed c q sent length t := by
  obtain ⟨hlisted, hstate, hq⟩ := hwaits
  have hreset : ¬ a.IsReset := by
    intro hreset
    cases a with
    | reset scrambled => exact reset_notMem hstep ht
    | _ => exact hreset
  refine ⟨step_wellFormed h.wellFormed hstep,
    step_paired h.wellFormed h.paired (fun hreset' => absurd hreset' hreset) hstep, ?_⟩
  by_cases hpolls : a.Polls c
  · cases a with
    | poll d env =>
      obtain rfl : d = c := hpolls
      exact h.underway.ownTurn hq hstate (step_turn h.wellFormed hstep ht)
    | _ => exact hpolls.elim
  · have hsame : SameConnection c a := by
      cases a with
      | accept d fd socket =>
        rintro rfl
        exact (step_eq_some hstep).1.2.1 hlisted
      | reset scrambled => exact hreset trivial
      | _ => trivial
    have hc : c ∉ (a.footprint s).clients := by
      rcases hsame.cases (s := s) with ⟨env, rfl⟩ | hc
      · exact absurd rfl hpolls
      · exact hc
    obtain ⟨hstill, -⟩ := step_still h.wellFormed h.paired hstep hreset hc hlisted (by simp [hstate])
    have hclient := (step_effects h.wellFormed hstep hreset).client_frame hc
    exact h.underway.others (h.underway.step_spared hq hpolls hstep) ⟨hclient, hstill, ht⟩

end Runs

end Esound
