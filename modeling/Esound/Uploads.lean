import Esound.Keeps

/-!
# Uploads

What `read_sample` makes of what its client sends: which octets it takes, where they end up,
and how the upload stands afterwards. It is over when the sample is complete, suspended
when a read is interrupted, and has failed when the octets end first.
-/

open Library.Buffer Library.Loop Library.Transition

namespace Esound

/-! ## What a socket has to deliver -/

/-- The octets of the coming reads, up to the first read that brings none. -/
def readyOctets : List ReadResult → List Octet
  | .data (b :: bs) :: rest => b :: bs ++ readyOctets rest
  | _ => []

/-- The first read that brings no octets is an interrupted one. -/
def Pausing : List ReadResult → Prop
  | .data (_ :: _) :: rest => Pausing rest
  | .again :: _ => True
  | _ => False

instance decidablePausing : (rs : List ReadResult) → Decidable (Pausing rs)
  | .data (_ :: _) :: rest => decidablePausing rest
  | .again :: _ => .isTrue trivial
  | [] | .data [] :: _ | .error :: _ => .isFalse id

namespace Socket

def ready (k : Socket) : List Octet := readyOctets k.input

def Pauses (k : Socket) : Prop := Pausing k.input

instance (k : Socket) : Decidable k.Pauses := inferInstanceAs (Decidable (Pausing _))

/-- What one read does to what is ready. -/
inductive Reads (k : Socket) (n : ℤ) : ReadResult × Socket → Prop
  | some (bs : List Octet) (k' : Socket) (some : bs ≠ []) (le : (bs.length : ℤ) ≤ n)
      (ready : k.ready = bs ++ k'.ready) (pauses : k'.Pauses ↔ k.Pauses) :
      Reads k n (.data bs, k')
  | pause (k' : Socket) (ready : k.ready = []) (pauses : k.Pauses) : Reads k n (.again, k')
  | finish (r : ReadResult) (k' : Socket) (hangup : r.Hangup) (ready : k.ready = [])
      (pauses : ¬ k.Pauses) : Reads k n (r, k')

theorem read_reads (k : Socket) {n : ℤ} (hn : 0 < n) : k.Reads n (k.read n) := by
  obtain ⟨input, room⟩ := k
  match input with
  | [] => exact .finish _ _ (.inl rfl) rfl id
  | .again :: rest => exact .pause _ rfl trivial
  | .error :: rest => exact .finish _ _ (.inr rfl) rfl id
  | .data [] :: rest =>
    have hle : ((([] : List Octet).length : ℕ) : ℤ) ≤ n := by simpa using hn.le
    simp only [read, hle, if_true]
    exact .finish _ _ (.inl rfl) rfl id
  | .data (b :: bs) :: rest =>
    simp only [read]
    split_ifs with hle
    · exact .some _ _ (by simp) hle rfl Iff.rfl
    · have htake : ((b :: bs).take n.toNat).length = n.toNat := by
        rw [List.length_take]
        omega
      have hdrop : (b :: bs).drop n.toNat ≠ [] := by
        intro hnil
        have hlen := congrArg List.length hnil
        simp only [List.length_drop, List.length_nil] at hlen
        omega
      have hne : (b :: bs).take n.toNat ≠ [] := by
        intro hnil
        rw [hnil, List.length_nil] at htake
        omega
      obtain ⟨b', bs', hrest⟩ := List.exists_cons_of_ne_nil hdrop
      refine .some _ _ hne (by omega) ?_ ?_
      · have hsplit := List.take_append_drop n.toNat (b :: bs)
        rw [hrest] at hsplit
        simp only [ready, readyOctets, hrest]
        rw [← List.append_assoc, hsplit]
      · simp only [Pauses, hrest]
        exact Iff.rfl

end Socket

/-! ## The loop of `read_sample` -/

/-- What the buffer holds after some reads. -/
def storePieces (cl : EsdClient) (sm : EsdSample) : Mem → ℤ → List (List Octet) → Mem
  | data, _, [] => data
  | data, total, bs :: rest => storePieces cl sm (storeSample cl sm data total bs) (total + bs.length) rest

/-- The octets the next read of the loop returns. -/
def nextOctets (cfg : Config) (q : Ptr) (r : ReadSample) : List Octet :=
  let sm := r.srv.sample q
  (r.srv.sysRead (r.srv.client sm.parent).fd
    (min cfg.esdBufSizeOctets (sm.sampleLength - r.total))).2.octets

/-- The octets of the reads of the loop, read by read. -/
def readsOf (cfg : Config) (q : Ptr) : ℕ → ReadSample → List (List Octet)
  | 0, _ => []
  | n + 1, r =>
    match readSampleRound cfg q r with
    | none => []
    | some r' => nextOctets cfg q r :: readsOf cfg q n r'

section Loop

variable {cfg : Config} {q : Ptr} {r r' : ReadSample}

theorem storeSample_nil (cl : EsdClient) (sm : EsdSample) (data : Mem) (total : ℤ) :
    storeSample cl sm data total [] = data := by
  have hnone : 0 - (total / 2).toNat = 0 := by omega
  simp only [storeSample, store_nil, swapShorts, List.length_nil, Nat.zero_div, hnone, countUp]
  split_ifs <;> rfl

/-- What the loop leaves of the server: `total` says where in the buffer of `q` the octets of
`pieces` went, and `last` where they end. -/
structure Stored (q : Ptr) (total : ℤ) (pieces : List (List Octet)) (s t : Server) (last : ℤ) :
    Prop where
  rest : t = { s with sockets := t.sockets, sampleData := t.sampleData }
  data : t.sampleData = Function.update s.sampleData q
    (storePieces (s.client (s.sample q).parent) (s.sample q) (s.sampleData q) total pieces)
  last : last = total + pieces.flatten.length

theorem Stored.nil (q : Ptr) (total : ℤ) (s : Server) : Stored q total [] s s total :=
  ⟨rfl, by simp [storePieces], by simp⟩

theorem Stored.cons {total total' last : ℤ} {bs : List Octet} {pieces : List (List Octet)}
    {s t u : Server} (h : Stored q total [bs] s t total') (h' : Stored q total' pieces t u last) :
    Stored q total (bs :: pieces) s u last := by
  have hsample : t.sample = s.sample := by rw [h.rest]
  have hclient : t.client = s.client := by rw [h.rest]
  refine ⟨?_, ?_, ?_⟩
  · have hrest := h'.rest
    rw [h.rest] at hrest
    exact hrest
  · have htotal : total' = total + bs.length := by simpa using h.last
    rw [h'.data, h.data, hsample, hclient, htotal]
    simp [storePieces]
  · rw [h'.last, h.last]
    simp
    omega

theorem readSampleRound_stored (h : readSampleRound cfg q r = some r') :
    Stored q r.total [nextOctets cfg q r] r.srv r'.srv r'.total := by
  have hnothing : ∀ res : ReadResult, res.octets = [] → nextOctets cfg q r = res.octets →
      Stored q r.total [nextOctets cfg q r] r.srv
        { r.srv with sockets := r'.srv.sockets } r.total := by
    intro res hnil hnext
    rw [hnext, hnil]
    exact ⟨rfl, by simp [storePieces, storeSample_nil], by simp⟩
  simp only [readSampleRound] at h
  split_ifs at h
  split at h
  · rename_i hres
    cases h
    exact hnothing .error rfl (congrArg ReadResult.octets hres)
  · rename_i hres
    cases h
    exact hnothing .again rfl (congrArg ReadResult.octets hres)
  · rename_i bs hres
    have hnext : nextOctets cfg q r = bs := congrArg ReadResult.octets hres
    split_ifs at h with hnil
    · cases h
      exact hnothing (.data bs) hnil hnext
    · cases h
      rw [hnext]
      exact ⟨rfl, rfl, by simp⟩

variable (cfg q) in
theorem readSample_loop_stored (n : ℕ) (r : ReadSample) :
    Stored q r.total (readsOf cfg q n r) r.srv (whileFuel (readSampleRound cfg q) n r).srv
      (whileFuel (readSampleRound cfg q) n r).total := by
  induction n generalizing r with
  | zero => exact .nil q r.total r.srv
  | succ n ih =>
    simp only [whileFuel, readsOf]
    cases hround : readSampleRound cfg q r with
    | none => exact .nil q r.total r.srv
    | some r' => exact .cons (readSampleRound_stored hround) (ih r')

/-- The socket the sample is read from. -/
def Server.uploadSocket (s : Server) (q : Ptr) : Socket :=
  s.sockets (s.client (s.sample q).parent).fd

/-- A round that took octets. -/
structure Advances (q : Ptr) (r r' : ReadSample) : Prop where
  sample : r'.srv.sample = r.srv.sample
  going : r'.going = r.going
  failed : r'.failed = r.failed
  pauses : (r'.srv.uploadSocket q).Pauses ↔ (r.srv.uploadSocket q).Pauses
  octets : ∃ bs, bs ≠ [] ∧ r'.total = r.total + (bs : List Octet).length ∧
    (bs.length : ℤ) ≤ (r.srv.sample q).sampleLength - r.total ∧
    (r.srv.uploadSocket q).ready = bs ++ (r'.srv.uploadSocket q).ready

/-- The last round. -/
structure Stops (q : Ptr) (r r' : ReadSample) : Prop where
  going : r'.going = false
  total : r'.total = r.total
  ready : (r.srv.uploadSocket q).ready = []
  failed : r'.failed = true ↔ ¬ (r.srv.uploadSocket q).Pauses

variable (cfg) in
theorem readSampleRound_cases (hmore : r.total < (r.srv.sample q).sampleLength)
    (hgoing : r.going = true) (hfailed : r.failed = false) :
    ∃ r', readSampleRound cfg q r = some r' ∧ (Advances q r r' ∨ Stops q r r') := by
  have hblock : 0 < min (cfg.esdBufSizeOctets : ℤ) ((r.srv.sample q).sampleLength - r.total) := by
    have hpos := cfg.bufSize_pos
    omega
  have hread := (r.srv.uploadSocket q).read_reads hblock
  obtain ⟨x, hx⟩ : ∃ x, (r.srv.uploadSocket q).read
      (min (cfg.esdBufSizeOctets : ℤ) ((r.srv.sample q).sampleLength - r.total)) = x := ⟨_, rfl⟩
  have hsys : r.srv.sysRead (r.srv.client (r.srv.sample q).parent).fd
      (min (cfg.esdBufSizeOctets : ℤ) ((r.srv.sample q).sampleLength - r.total)) =
      ({ r.srv with sockets :=
          Function.update r.srv.sockets (r.srv.client (r.srv.sample q).parent).fd x.2 }, x.1) := by
    rw [← hx]
    rfl
  rw [hx] at hread
  simp only [readSampleRound, hmore, hgoing, and_self, if_true, hsys]
  cases hread with
  | some bs k' hne hlen hready hpauses =>
    simp only [hne, if_false]
    refine ⟨_, rfl, .inl ⟨rfl, hgoing.symm, rfl, ?_, bs, hne, rfl, hlen.trans (min_le_right _ _), ?_⟩⟩
    · simpa [Server.uploadSocket, Server.setSampleData] using hpauses
    · simpa [Server.uploadSocket, Server.setSampleData] using hready
  | pause k' hready hpauses =>
    exact ⟨_, rfl, .inr ⟨rfl, rfl, hready, by simp [hpauses, hfailed]⟩⟩
  | finish res k' hangup hready hpauses =>
    rcases hangup with hzero | rfl
    · cases res with
      | data bs =>
        have hnil : bs = [] := List.eq_nil_of_length_eq_zero (by simpa [ReadResult.count] using hzero)
        simp only [hnil, if_true]
        exact ⟨_, rfl, .inr ⟨rfl, rfl, hready, by simp [hpauses]⟩⟩
      | again | error => simp [ReadResult.count] at hzero
    · exact ⟨_, rfl, .inr ⟨rfl, rfl, hready, by simp [hpauses]⟩⟩

variable (cfg q) in
/-- How the upload stands when the loop is left: as far as the octets that were ready took it,
and failed if these ended before the sample did. -/
theorem readSample_loop_outcome (n : ℕ) (r : ReadSample) (hgoing : r.going = true)
    (hfailed : r.failed = false) (hle : r.total ≤ (r.srv.sample q).sampleLength)
    (hn : ((r.srv.sample q).sampleLength - r.total).toNat < n) :
    (whileFuel (readSampleRound cfg q) n r).total =
        min (r.srv.sample q).sampleLength (r.total + (r.srv.uploadSocket q).ready.length) ∧
      ((whileFuel (readSampleRound cfg q) n r).failed = true ↔
        r.total + (r.srv.uploadSocket q).ready.length < (r.srv.sample q).sampleLength ∧
          ¬ (r.srv.uploadSocket q).Pauses) := by
  induction n generalizing r with
  | zero => omega
  | succ n ih =>
    simp only [whileFuel]
    by_cases hmore : r.total < (r.srv.sample q).sampleLength
    · obtain ⟨r', hround, hcases⟩ := readSampleRound_cases cfg hmore hgoing hfailed
      rw [hround]
      rcases hcases with hadvance | hstop
      · obtain ⟨bs, hne, htotal, hroom, hready⟩ := hadvance.octets
        have hpos : 0 < bs.length := List.length_pos_iff.mpr hne
        have hrest := ih r' (hadvance.going.trans hgoing) (hadvance.failed.trans hfailed)
          (by rw [hadvance.sample]; omega) (by rw [hadvance.sample]; omega)
        rw [hready, List.length_append, Nat.cast_add, ← add_assoc, ← htotal, ← hadvance.pauses,
          ← hadvance.sample]
        exact hrest
      · have hover : whileFuel (readSampleRound cfg q) n r' = r' := by
          cases n with
          | zero => rfl
          | succ n => simp [whileFuel, readSampleRound, hstop.going]
        simp only [hover, hstop.ready, hstop.total, hstop.failed, List.length_nil]
        constructor
        · omega
        · simpa using fun _ => hmore
    · have hnone : readSampleRound cfg q r = none := by
        simp [readSampleRound, hmore]
      simp only [hnone, hfailed, Bool.false_eq_true, false_iff, not_and]
      constructor <;> omega

end Loop

/-! ## One call -/

/-- The octets of the reads of one call. -/
def sampleReads (cfg : Config) (s : Server) (q : Ptr) : List (List Octet) :=
  readsOf cfg q (((s.sample q).sampleLength - (s.sample q).cachedLength).toNat + 1)
    ⟨s, (s.sample q).cachedLength, true, false⟩

/-- The octets that client `c` has to send end before the sample is complete, and not because
they are interrupted. -/
def Server.UploadFails (s : Server) (c q : Ptr) : Prop :=
  (s.sample q).cachedLength + (s.sockets (s.client c).fd).ready.length < (s.sample q).sampleLength ∧
    ¬ (s.sockets (s.client c).fd).Pauses

instance (s : Server) (c q : Ptr) : Decidable (s.UploadFails c q) :=
  inferInstanceAs (Decidable (_ ∧ _))

/-- What is cached after a call that did not fail. -/
def Server.uploadedLength (s : Server) (c q : Ptr) : ℤ :=
  min (s.sample q).sampleLength
    ((s.sample q).cachedLength + (s.sockets (s.client c).fd).ready.length)

section Call

variable {cfg : Config} {env : PollEnv} {s : Server} {c q : Ptr}

/-- What a call leaves of the server. -/
structure ReadsSample (cfg : Config) (q : Ptr) (s : Server) (r : Server × Bool) : Prop where
  rest : r.1 = { s with
    sockets := r.1.sockets
    sampleData := r.1.sampleData
    sample := Function.update s.sample q
      { s.sample q with cachedLength := (r.1.sample q).cachedLength } }
  data : r.1.sampleData = Function.update s.sampleData q
    (storePieces (s.client (s.sample q).parent) (s.sample q) (s.sampleData q)
      (s.sample q).cachedLength (sampleReads cfg s q))
  done : r.2 = true →
    (r.1.sample q).cachedLength = (s.sample q).cachedLength + (sampleReads cfg s q).flatten.length
  failed : r.2 = false → (r.1.sample q).cachedLength = (s.sample q).cachedLength

variable (cfg s q) in
theorem readSample_reads : ReadsSample cfg q s (readSample cfg s q) := by
  have hstored := readSample_loop_stored cfg q
    (((s.sample q).sampleLength - (s.sample q).cachedLength).toNat + 1)
    ⟨s, (s.sample q).cachedLength, true, false⟩
  simp only [readSample]
  split_ifs
  · have hsample := congrArg Server.sample hstored.rest
    refine ⟨?_, hstored.data, by simp, fun _ => by rw [hsample]⟩
    rw [hsample, Function.update_eq_self]
    exact hstored.rest
  · refine ⟨?_, hstored.data, fun _ => ?_, by simp⟩
    · have hrest := hstored.rest
      simp only [Server.setSample, Function.update_self]
      rw [hrest]
    · simp only [Server.setSample, Function.update_self]
      exact hstored.last

variable (cfg) in
theorem readSample_outcome (hle : (s.sample q).cachedLength ≤ (s.sample q).sampleLength) :
    ((readSample cfg s q).2 = false ↔ s.UploadFails (s.sample q).parent q) ∧
      ((readSample cfg s q).2 = true →
        ((readSample cfg s q).1.sample q).cachedLength = s.uploadedLength (s.sample q).parent q) := by
  obtain ⟨htotal, hfailed⟩ := readSample_loop_outcome cfg q
    (((s.sample q).sampleLength - (s.sample q).cachedLength).toNat + 1)
    ⟨s, (s.sample q).cachedLength, true, false⟩ rfl rfl hle (Nat.lt_succ_self _)
  simp only [readSample]
  split_ifs with h
  · exact ⟨⟨fun _ => hfailed.mp h, fun _ => rfl⟩, by simp⟩
  · refine ⟨⟨by simp, fun hfails => absurd (hfailed.mpr hfails) h⟩, fun _ => ?_⟩
    simp only [Server.setSample, Function.update_self]
    exact htotal

/-- How a call of the handler ends, if no more of the sample is cached than there is of it. -/
structure CacheEnds (c q : Ptr) (s : Server) (r : Server × Bool) : Prop where
  failed : r.2 = false ↔ s.UploadFails c q
  cached : r.2 = true → (r.1.sample q).cachedLength = s.uploadedLength c q
  state : r.2 = true → (r.1.client c).state =
    if s.uploadedLength c q < (s.sample q).sampleLength then .cachingSample else .nextRequest

/-- One call of the handler for a sample: `c` is its parent then. -/
structure Caches (c q : Ptr) (s : Server) (r : Server × Bool) : Prop where
  shelf : r.1.shelf = { s.shelf with
    sample := Function.update s.sample q
      { s.sample q with parent := c, cachedLength := (r.1.sample q).cachedLength }
    sampleData := r.1.sampleData }
  clients : r.1.esdClientsList = s.esdClientsList
  others : ∀ d ≠ c, r.1.client d = s.client d
  kept : r.2 = false → (r.1.sample q).cachedLength = (s.sample q).cachedLength
  ends : (s.sample q).cachedLength ≤ (s.sample q).sampleLength → CacheEnds c q s r

theorem cacheInto_caches : Caches c q s (cacheInto cfg s c q) := by
  obtain ⟨u, hu⟩ : ∃ u, u = s.setSample q { s.sample q with parent := c } := ⟨_, rfl⟩
  have hq : u.sample q = { s.sample q with parent := c } := by simp [hu, Server.setSample]
  have hread := readSample_reads cfg u q
  have hout := readSample_outcome cfg (s := u) (q := q)
  have hfails : u.UploadFails (u.sample q).parent q ↔ s.UploadFails c q := by
    simp only [Server.UploadFails, hu, Server.setSample, Function.update_self]
  have hlength : u.uploadedLength (u.sample q).parent q = s.uploadedLength c q := by
    simp only [Server.uploadedLength, hu, Server.setSample, Function.update_self]
  rw [hfails, hlength, hq] at hout
  obtain ⟨⟨t, ok⟩, hr⟩ : ∃ r, readSample cfg u q = r := ⟨_, rfl⟩
  rw [hr] at hread hout
  have hrest := hread.rest
  dsimp only at hrest
  have hshelf : t.shelf = { s.shelf with
      sample := Function.update s.sample q
        { s.sample q with parent := c, cachedLength := (t.sample q).cachedLength }
      sampleData := t.sampleData } := by
    rw [hrest]
    simp [Server.shelf, hu, Server.setSample]
  have hlists : t.esdClientsList = s.esdClientsList := by
    rw [hrest, hu]
    rfl
  have hclient : t.client = s.client := by
    rw [hrest, hu]
    rfl
  cases ok with
  | false =>
    simp only [cacheInto, ← hu, hr]
    exact ⟨hshelf, hlists, fun d _ => congrFun hclient d, fun _ => by rw [hread.failed rfl, hq],
      fun hle => ⟨(hout hle).1, by simp, by simp⟩⟩
  | true =>
    have hfull : (t.sample q).sampleLength = (s.sample q).sampleLength := by
      have hsample := congrFun (congrArg Shelf.sample hshelf) q
      have hsame : t.sample q = { s.sample q with
          parent := c, cachedLength := (t.sample q).cachedLength } := by
        simpa [Server.shelf] using hsample
      rw [hsame]
    simp only [cacheInto, ← hu, hr, hfull]
    have hothers : ∀ (v : EsdClient) (d : Ptr), d ≠ c → (t.setClient c v).client d = s.client d := by
      intro v d hd
      simp [Server.setClient, hd, hclient]
    split_ifs with hmore
    · refine ⟨hshelf, hlists, fun d hd => hothers _ d hd, by simp,
        fun hle => ⟨(hout hle).1, fun _ => (hout hle).2 rfl, fun _ => ?_⟩⟩
      rw [← (hout hle).2 rfl, if_pos hmore]
      simp [Server.setClient]
    · refine ⟨hshelf, hlists, fun d hd => hothers _ d hd, by simp,
        fun hle => ⟨(hout hle).1, fun _ => (hout hle).2 rfl, fun _ => ?_⟩⟩
      rw [← (hout hle).2 rfl, if_neg hmore]
      simp [Server.setClient, reply, Server.writeInt, Server.sysWrite]

structure EsdSample.IsNew (v : EsdSample) : Prop where
  cached : v.cachedLength = 0
  length : 0 ≤ v.sampleLength
  unmarked : v.eraseWhenDone = false
  name : IsName v.name

/-- Clients as they were, and with the same octets to come. -/
structure SameClients (s t : Server) : Prop where
  clients : t.esdClientsList = s.esdClientsList
  client : t.client = s.client
  input : ∀ fd, (t.sockets fd).input = (s.sockets fd).input

/-- What the handler of `SAMPLE_CACHE` does. -/
inductive Uploads (env : PollEnv) (c : Ptr) (s : Server) : Server × Bool → Prop
  | none (t : Server) (shelf : t.shelf = s.shelf) (same : SameClients s t) :
      Uploads env c s (t, false)
  | start (v : EsdSample) (isNew : v.IsNew) (t : Server) (same : SameClients s t)
      (shelf : t.shelf = { s.shelf with
        samples := env.malloc :: s.esdSamplesList
        sample := Function.update s.sample env.malloc v })
      (notNull : env.malloc ≠ 0) (r : Server × Bool) (caches : Caches c env.malloc t r) :
      Uploads env c s r
  | resume (caching : (s.client c).state = .cachingSample) (q : Ptr)
      (found : findCachingSample s c = some q) (notNull : q ≠ 0) (r : Server × Bool)
      (caches : Caches c q s r) : Uploads env c s r

theorem Socket.write_input (k : Socket) (bs : List Octet) : (k.write bs).2.input = k.input := by
  simp only [Socket.write]
  split <;> rfl

theorem sysWrite_input (fd fd' : ℤ) (octets : List Octet) :
    ((s.sysWrite fd octets).1.sockets fd').input = (s.sockets fd').input := by
  rcases eq_or_ne fd' fd with rfl | hne
  · simp [Server.sysWrite, Socket.write_input]
  · simp [Server.sysWrite, hne]

theorem newSample_cached (cfg : Config) (env : PollEnv) (s : Server) (c : Ptr) :
    SameClients s (newSample cfg env s c).1 ∧
      ((newSample cfg env s c).2 = 0 ∧ (newSample cfg env s c).1.shelf = s.shelf ∨
        (newSample cfg env s c).2 = env.malloc ∧ env.malloc ≠ 0 ∧ ∃ v : EsdSample, v.IsNew ∧
          (newSample cfg env s c).1.shelf =
            { s.shelf with sample := Function.update s.sample env.malloc v }) := by
  simp only [newSample]
  split_ifs with hnull hroom
  · exact ⟨⟨rfl, rfl, fun _ => rfl⟩, .inl ⟨rfl, rfl⟩⟩
  · refine ⟨⟨rfl, rfl, fun fd => ?_⟩, .inr ⟨rfl, hnull, _, ⟨rfl, hroom.2, rfl, isName_nameOf _ _⟩, rfl⟩⟩
    exact sysWrite_input _ _ _
  · exact ⟨⟨rfl, rfl, fun _ => rfl⟩, .inl ⟨rfl, rfl⟩⟩

theorem esdProtoSampleCache_uploads {r : Server × Bool}
    (h : esdProtoSampleCache cfg env s c = some r) : Uploads env c s r := by
  simp only [esdProtoSampleCache] at h
  split_ifs at h with hcaching hnull
  · split at h
    · cases h
    · rename_i q hfound
      split_ifs at h with hq
      · cases h
        exact .none s rfl ⟨rfl, rfl, fun _ => rfl⟩
      · cases h
        exact .resume hcaching q hfound hq _ cacheInto_caches
  · cases h
    obtain ⟨hsame, ⟨-, hshelf⟩ | ⟨hmalloc, hne, -⟩⟩ := newSample_cached cfg env s c
    · exact .none _ hshelf hsame
    · exact absurd (hmalloc.symm.trans hnull) hne
  · cases h
    obtain ⟨hsame, ⟨hzero, -⟩ | ⟨hmalloc, hne, v, hnew, hshelf⟩⟩ := newSample_cached cfg env s c
    · exact absurd hzero hnull
    · rw [hmalloc]
      have hadded : (addSample (newSample cfg env s c).1 env.malloc).shelf = { s.shelf with
          samples := env.malloc :: s.esdSamplesList
          sample := Function.update s.sample env.malloc v } := by
        have hpush := congrArg (fun shelf : Shelf => { shelf with
          samples := env.malloc :: shelf.samples }) hshelf
        exact hpush
      have hclients : SameClients s (addSample (newSample cfg env s c).1 env.malloc) :=
        ⟨hsame.clients, hsame.client, hsame.input⟩
      exact .start v hnew _ hclients hadded hne _ cacheInto_caches

end Call

/-! ## Steps and runs -/

/-- The names are strings in their arrays. -/
def Server.Named (s : Server) : Prop :=
  (∀ p, IsName (s.player p).name) ∧ ∀ q, IsName (s.sample q).name

/-- No more is cached of a sample than there is of it. -/
def Server.Cached (s : Server) : Prop :=
  ∀ q ∈ s.esdSamplesList, (s.sample q).cachedLength ≤ (s.sample q).sampleLength

section Steps

variable {D : Set Deed} {cfg : Config} {env : PollEnv} {s t : Server} {c q : Ptr} {r : Server × Bool}
  {a : Action}

theorem Shelved.named_of (h : Shelved D s t) (hs : s.Named) : t.Named := by
  refine ⟨fun p => ?_, fun q => ?_⟩
  · rcases h.named p with hsame | hname
    · rw [hsame]
      exact hs.1 p
    · exact hname
  · rw [(h.sample q).name]
    exact hs.2 q

theorem Shelved.cached_of (h : Shelved D s t) (hs : s.Cached) : t.Cached := by
  intro q hq
  rw [(h.sample q).cachedLength, (h.sample q).sampleLength]
  exact hs q (h.listed.subset hq)

theorem Caches.sample (h : Caches c q s r) : r.1.sample = Function.update s.sample q
    { s.sample q with parent := c, cachedLength := (r.1.sample q).cachedLength } :=
  congrArg Shelf.sample h.shelf

theorem Caches.samples (h : Caches c q s r) : r.1.esdSamplesList = s.esdSamplesList :=
  congrArg Shelf.samples h.shelf

theorem Caches.named_of (h : Caches c q s r) (hs : s.Named) : r.1.Named := by
  refine ⟨fun p => ?_, fun q' => ?_⟩
  · have hname : (r.1.player p).name = (s.player p).name := congrFun (congrArg Shelf.name h.shelf) p
    rw [hname]
    exact hs.1 p
  · rw [h.sample]
    rcases eq_or_ne q' q with rfl | hne
    · simpa using hs.2 q'
    · simpa [hne] using hs.2 q'

theorem Caches.cached_of (h : Caches c q s r) (hs : s.Cached) (hq : q ∈ s.esdSamplesList) :
    r.1.Cached := by
  intro q' hq'
  rw [h.samples] at hq'
  rcases eq_or_ne q' q with rfl | hne
  · have hlength : (r.1.sample q').sampleLength = (s.sample q').sampleLength := by
      rw [h.sample]
      simp
    rw [hlength]
    cases hok : r.2 with
    | false =>
      rw [h.kept hok]
      exact hs q' hq
    | true =>
      rw [(h.ends (hs q' hq)).cached hok]
      exact min_le_left _ _
  · have hsame : r.1.sample q' = s.sample q' := by
      rw [h.sample]
      simp [hne]
    rw [hsame]
    exact hs q' hq'

theorem findCachingSample_mem (h : findCachingSample s c = some q) (hq : q ≠ 0) :
    s.esdSamplesList.head? = some q ∧ (s.sample q).parent = c := by
  simp only [findCachingSample] at h
  split at h
  · exact absurd (Option.some.inj h).symm hq
  · rename_i q' qs hlist
    split_ifs at h with hparent
    cases h
    exact ⟨by rw [hlist]; rfl, hparent⟩

theorem Uploads.named_of (h : Uploads env c s r) (hs : s.Named) : r.1.Named := by
  cases h with
  | none t shelf => exact (Shelved.same (D := ∅) shelf).named_of hs
  | start v isNew t same shelf notNull r caches =>
    refine caches.named_of ⟨fun p => ?_, fun q' => ?_⟩
    · have hname : (t.player p).name = (s.player p).name := congrFun (congrArg Shelf.name shelf) p
      rw [hname]
      exact hs.1 p
    · have hsample : t.sample = Function.update s.sample env.malloc v := congrArg Shelf.sample shelf
      rw [hsample]
      rcases eq_or_ne q' env.malloc with rfl | hne
      · simpa using isNew.name
      · simpa [hne] using hs.2 q'
  | resume caching q found notNull r caches => exact caches.named_of hs

theorem Uploads.cached_of (h : Uploads env c s r) (hs : s.Cached) : r.1.Cached := by
  cases h with
  | none t shelf => exact (Shelved.same (D := ∅) shelf).cached_of hs
  | start v isNew t same shelf notNull r caches =>
    have hsample : t.sample = Function.update s.sample env.malloc v := congrArg Shelf.sample shelf
    have hsamples : t.esdSamplesList = env.malloc :: s.esdSamplesList := congrArg Shelf.samples shelf
    refine caches.cached_of (fun q' hq' => ?_) (by rw [hsamples]; exact List.mem_cons_self)
    rw [hsample]
    rcases eq_or_ne q' env.malloc with rfl | hne
    · simpa [isNew.cached] using isNew.length
    · have hq : q' ∈ s.esdSamplesList := by
        rw [hsamples] at hq'
        exact (List.mem_cons.mp hq').resolve_left hne
      simpa [hne] using hs q' hq
  | resume caching q found notNull r caches =>
    exact caches.cached_of hs (List.mem_of_head? (findCachingSample_mem found notNull).1)

/-- What the shelf keeps and an upload keeps is kept by every step. -/
theorem step_shelf {I : Server → Prop}
    (hshelf : ∀ s t, Shelved Set.univ s t → I s → I t)
    (hupload : ∀ env c s r, Uploads env c s r → I s → I r.1) (hs : I s) (h : step cfg s a = some t) : I t := by
  have hsame : ∀ u v : Server, v.shelf = u.shelf → I u → I v := fun u v huv => hshelf u v (.same huv)
  cases a with
  | poll c env =>
    obtain ⟨-, h⟩ := step_eq_some h
    obtain ⟨r, hr, rfl⟩ := Option.map_eq_some_iff.mp h
    have hturn : I r.1 := by
      cases pollTurn_ends hr with
      | heard _ hheard => exact hshelf _ _ hheard.keeps.toShelved hs
      | handled request u hheard _ _ r' hhandler =>
        have hu : Shelved Set.univ s u := hheard.keeps.toShelved
        have hone : I r'.1 := by
          by_cases hcache : request = .sampleCache
          · subst hcache
            exact hupload _ _ _ _ (esdProtoSampleCache_uploads hhandler) (hshelf _ _ hu hs)
          · have hdone := (handler_shelved hcache hhandler).mono (Set.subset_univ _)
            exact hshelf _ _ hdone (hshelf _ _ hu hs)
        exact hsame r'.1 _ rfl hone
      | resumed _ r' hhandler =>
        have hone := hupload _ _ _ _ (esdProtoSampleCache_uploads hhandler) hs
        exact hsame r'.1 _ rfl hone
    split_ifs
    · exact hturn
    · exact hshelf _ _ (eraseClient_keeps c).toShelved hturn
  | _ => exact hshelf _ _ (step_shelved (Set.mem_univ _) h (by simp)) hs

theorem step_cached (hs : s.Cached) (h : step cfg s a = some t) : t.Cached :=
  step_shelf (I := Server.Cached) (fun _ _ h => h.cached_of) (fun _ _ _ _ h => h.cached_of) hs h

theorem step_named (hs : s.Named) (h : step cfg s a = some t) : t.Named :=
  step_shelf (I := Server.Named) (fun _ _ h => h.named_of) (fun _ _ _ _ h => h.named_of) hs h

end Steps

end Esound
