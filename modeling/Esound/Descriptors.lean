import Esound.Library.Handles
import Esound.Rounds

/-!
# Descriptors

The daemon as the kernel sees it: descriptors of connections are opened by `accept`, written to,
and closed. None is closed twice or forgotten, and as long as nobody resets the daemon nothing is
written to a descriptor that is not a client's.
-/

open Library.Buffer Library.Handles Library.Loop Library.Transition

namespace Esound

def Event.use : Event → Option (Use ℤ)
  | .wrote fd _ => some (.writes fd)
  | .closed fd => some (.closes fd)
  | _ => none

namespace Server

/-- The uses of descriptors after they were accepted. -/
def uses (s : Server) : List (Use ℤ) := s.events.filterMap Event.use

/-- The descriptors of the clients. -/
def fds (s : Server) : List ℤ := s.esdClientsList.map fun c => (s.client c).fd

def table (s : Server) : Finset ℤ := s.fds.toFinset

end Server

/-- From the one to the other the descriptors of the clients were put to proper uses, if they were
different, and they still are. -/
structure Settles (W : Prop) (s t : Server) : Prop where
  uses : ∃ us, t.uses = s.uses ++ us ∧
    (s.fds.Nodup → t.fds.Nodup ∧ Run use (Proper W) s.table us t.table)

/-- Only this descriptor was written to, and nobody left. -/
structure WritesTo (fd : ℤ) (s t : Server) : Prop where
  fds : t.fds = s.fds
  uses : ∃ us, t.uses = s.uses ++ us ∧ ∀ u ∈ us, u = .writes fd

/-- No descriptor was used but to read from it. -/
structure Hushed (s t : Server) : Prop where
  fds : t.fds = s.fds
  uses : t.uses = s.uses

section Relations

variable {W : Prop} {s t u : Server} {fd : ℤ} {c p : Ptr}

theorem Hushed.same (hclients : t.esdClientsList = s.esdClientsList) (hclient : t.client = s.client)
    (hevents : t.events = s.events) : Hushed s t :=
  ⟨by rw [Server.fds, hclients, hclient, Server.fds], by rw [Server.uses, hevents, Server.uses]⟩

theorem Hushed.refl (s : Server) : Hushed s s := ⟨rfl, rfl⟩

theorem Hushed.trans (h : Hushed s t) (h' : Hushed t u) : Hushed s u :=
  ⟨h'.fds.trans h.fds, h'.uses.trans h.uses⟩

theorem Hushed.emit {e : Event} (he : e.use = none) (h : Hushed s t) : Hushed s (t.emit e) := by
  refine ⟨h.fds, ?_⟩
  rw [← h.uses, Server.uses, Server.emit, List.filterMap_append]
  simp [he, Server.uses]

theorem Hushed.setClient {v : EsdClient} (hfd : v.fd = (s.client c).fd) :
    Hushed s (s.setClient c v) := by
  refine ⟨List.map_congr_left fun d _ => ?_, rfl⟩
  rcases eq_or_ne d c with rfl | hne
  · simpa [Server.setClient] using hfd
  · simp [Server.setClient, hne]

theorem Hushed.setList {l : PlayerList} {ps : List Ptr} : Hushed s (s.setList l ps) := by
  cases l <;> exact .same rfl rfl rfl

theorem Hushed.writesTo (h : Hushed s t) : WritesTo fd s t := ⟨h.fds, [], by simp [h.uses], nofun⟩

theorem WritesTo.refl (s : Server) : WritesTo fd s s := (Hushed.refl s).writesTo

theorem WritesTo.trans (h : WritesTo fd s t) (h' : WritesTo fd t u) : WritesTo fd s u := by
  obtain ⟨us, hus, hwrites⟩ := h.uses
  obtain ⟨us', hus', hwrites'⟩ := h'.uses
  refine ⟨h'.fds.trans h.fds, us ++ us', by rw [hus', hus, List.append_assoc], fun w hw => ?_⟩
  exact (List.mem_append.mp hw).elim (hwrites w) (hwrites' w)

theorem WritesTo.table (h : WritesTo fd s t) : t.table = s.table := congrArg List.toFinset h.fds

theorem sysWrite_writesTo (s : Server) (fd : ℤ) (bs : List Octet) :
    WritesTo fd s (s.sysWrite fd bs).1 := by
  refine ⟨rfl, [.writes fd], ?_, by simp⟩
  simp only [Server.uses, Server.sysWrite, List.filterMap_append]
  rfl

theorem Settles.trans (h : Settles W s t) (h' : Settles W t u) : Settles W s u := by
  obtain ⟨us, hus, hproper⟩ := h.uses
  obtain ⟨us', hus', hproper'⟩ := h'.uses
  refine ⟨us ++ us', by rw [hus', hus, List.append_assoc], fun hnd => ?_⟩
  obtain ⟨hnd', hrun⟩ := hproper hnd
  obtain ⟨hnd'', hrun'⟩ := hproper' hnd'
  exact ⟨hnd'', hrun.append hrun'⟩

theorem WritesTo.settles (h : WritesTo fd s t) (hopen : W → fd ∈ s.table) : Settles W s t := by
  obtain ⟨us, hus, hwrites⟩ := h.uses
  refine ⟨us, hus, fun hnd => ⟨h.fds ▸ hnd, ?_⟩⟩
  rw [h.table]
  exact run_writes fun w hw => ⟨fd, hwrites w hw, hopen⟩

theorem Hushed.settles (h : Hushed s t) : Settles W s t := by
  refine ⟨[], by simp [h.uses], fun hnd => ⟨h.fds ▸ hnd, ?_⟩⟩
  rw [Server.table, Server.table, h.fds]
  exact .nil _

theorem Settles.refl (s : Server) : Settles W s s := (Hushed.refl s).settles

theorem mem_table (hc : c ∈ s.esdClientsList) : (s.client c).fd ∈ s.table :=
  List.mem_toFinset.mpr (List.mem_map_of_mem hc)

theorem eraseClient_settles (c : Ptr) : Settles W s (eraseClient s c) := by
  by_cases hc : c ∈ s.esdClientsList
  · have hperm : s.fds.Perm ((s.client c).fd :: (eraseClient s c).fds) := by
      have herase : (eraseClient s c).esdClientsList = s.esdClientsList.erase c := by
        simp [eraseClient, hc]
      rw [Server.fds, Server.fds, herase, eraseClient_client]
      exact (List.perm_cons_erase hc).map _
    refine ⟨[.closes (s.client c).fd], ?_, fun hnd => ?_⟩
    · simp only [Server.uses, eraseClient, hc, if_true, List.filterMap_append]
      rfl
    · obtain ⟨hnotMem, hnd'⟩ := List.nodup_cons.mp (hperm.nodup_iff.mp hnd)
      have htable : (eraseClient s c).table = s.table.erase (s.client c).fd := by
        rw [Server.table, Server.table, List.toFinset_eq_of_perm _ _ hperm, List.toFinset_cons,
          Finset.erase_insert (by simpa using hnotMem)]
      exact ⟨hnd', .cons (mem_table hc) (by rw [use, htable]) (.nil _)⟩
  · have hsame : eraseClient s c = s := by simp [eraseClient, hc]
    rw [hsame]
    exact .refl s

theorem eraseSample_hushed (id : ℤ) (force : Bool) : Hushed s (eraseSample s id force) := by
  simp only [eraseSample]
  split
  · exact .refl s
  · split_ifs <;> exact .same rfl rfl rfl

theorem freePlayer_settles (p : Ptr) : Settles W s (freePlayer s p) := by
  have hdrop : ∀ (u : Server) bs, Settles W u (u.emit (.dropped p bs)) := fun u bs =>
    ((Hushed.refl u).emit rfl).settles
  have hless : Hushed s { s.setSample (s.player p).parent { s.sample (s.player p).parent with
        refCount := (s.sample (s.player p).parent).refCount - 1 } with
      esdPlayingSamples := s.esdPlayingSamples - 1 } := .same rfl rfl rfl
  simp only [freePlayer]
  refine Settles.trans ?_ (hdrop _ _)
  split_ifs
  · exact eraseClient_settles _
  · exact (hless.trans (eraseSample_hushed _ _)).settles
  · exact hless.settles
  · exact .refl s

theorem eraseFrom_settles (l : PlayerList) (p : Ptr) : Settles W s (eraseFrom s l p) := by
  simp only [eraseFrom]
  split_ifs
  · exact Hushed.setList.settles.trans (freePlayer_settles p)
  · exact .refl s

end Relations

/-! ## Sound -/

section Sound

variable {W : Prop} {cfg : Config} {s t : Server} {p : Ptr}

theorem readPlayer_hushed (canRead : Bool) (p : Ptr) : Hushed s (readPlayer canRead s p).1 := by
  have hhear : Hushed s (hearStream s p).1 := Hushed.emit rfl (.same rfl rfl rfl)
  simp only [readPlayer, readStream, readSamplePlayer]
  split_ifs
  · exact hhear
  · exact hhear
  · exact hhear.trans (.same rfl rfl rfl)
  · exact .refl s
  · exact .refl s
  · exact .same rfl rfl rfl
  · exact .refl s
  · exact .refl s

theorem consume_hushed (p : Ptr) (used : ℤ) : Hushed s (consume s p used) := by
  simp only [consume]
  split_ifs <;> exact Hushed.emit rfl (.same rfl rfl rfl)

theorem mixOne_hushed (length : ℤ) (acc : Server × ℤ) (p : Ptr) :
    Hushed acc.1 (mixOne cfg length acc p).1 := by
  have hmixed : ∀ m, Hushed acc.1 { acc.1 with mixedBuffer := m } := fun m => .same rfl rfl rfl
  simp only [mixOne]
  split
  · exact .refl _
  · split_ifs
    · exact (hmixed _).trans (consume_hushed _ _)
    · exact .refl _

theorem mixReadOne_settles (canRead : Ptr → Bool) (length : ℤ) (acc : Server × ℤ) (p : Ptr) :
    Settles W acc.1 (mixReadOne cfg canRead length acc p).1 := by
  have hread : Settles W acc.1 (readPlayer (canRead p) acc.1 p).1 := (readPlayer_hushed _ p).settles
  simp only [mixReadOne]
  split_ifs
  · exact hread
  · exact hread.trans (eraseFrom_settles _ _)
  · exact hread
  · exact hread
  · exact hread

theorem foldl_settles {f : Server × ℤ → Ptr → Server × ℤ} (hone : ∀ acc p, Settles W acc.1 (f acc p).1)
    (ps : List Ptr) (acc : Server × ℤ) : Settles W acc.1 (ps.foldl f acc).1 :=
  foldl_related (fun a b : Server × ℤ => Settles W a.1 b.1) (fun a => .refl a.1)
    (fun _ _ _ h h' => h.trans h') f ps (fun acc p _ => hone acc p) acc

theorem mixPlayers_settles (canRead : Ptr → Bool) : Settles W s (mixPlayers cfg canRead s).1 := by
  have hclear : Hushed s (clearMix cfg s) := .same rfl rfl rfl
  have hread : Settles W s (mixRead cfg canRead s).1 :=
    hclear.settles.trans (foldl_settles (mixReadOne_settles canRead _) _ (clearMix cfg s, 0))
  have hall : ∀ least u, Settles W u (mixAll cfg least u).1 := fun least u =>
    foldl_settles (fun acc p => (mixOne_hushed least acc p).settles) _ (u, 0)
  have hclip : ∀ u most, Settles W u (clipMix u most).1 := fun u most => by
    simp only [clipMix]
    split_ifs <;> exact Hushed.settles (.same rfl rfl rfl)
  simp only [mixPlayers]
  split_ifs
  · exact (hread.trans (hall _ _)).trans (hclip _ _)
  · exact hread

theorem refreshMixFuncs_hushed : Hushed s (refreshMixFuncs s) := by
  simp only [refreshMixFuncs]
  split_ifs
  · exact .refl s
  · exact .same rfl rfl rfl

theorem translateInto_hushed (length : ℤ) (p : Ptr) : Hushed s (translateInto cfg s p length).1 :=
  .same (by simp only [translateInto]; split <;> rfl) translateInto_client translateInto_events

/-- A stream in a list is written to on the descriptor of a client. -/
theorem stream_open {l : PlayerList} (hw : s.objects.WellFormed) (hpaired : s.objects.Paired)
    (hl : l ≠ .players) (hp : p ∈ s.list l) : (s.player p).sourceId ∈ s.table := by
  have hserved := hpaired.served l p ⟨hp, hw.streams hl hp⟩
  have hfd : (s.client (s.player p).parent).fd = (s.player p).sourceId := hserved.fd
  exact hfd ▸ mem_table (c := (s.player p).parent) hserved.client

theorem writeBuffer_writesTo (s : Server) (p : Ptr) :
    WritesTo (s.player p).sourceId s (writeBuffer s p).1 := sysWrite_writesTo s _ _

theorem monitorOne_settles (canWrite : Ptr → Bool) (acc : Server × ℤ) (p : Ptr)
    (hopen : W → (acc.1.player p).sourceId ∈ acc.1.table) :
    Settles W acc.1 (monitorOne cfg canWrite acc p).1 := by
  have hinto : Hushed acc.1 (translateInto cfg acc.1 p acc.2).1 := translateInto_hushed _ p
  have hwrite : WritesTo (acc.1.player p).sourceId acc.1
      (writeBuffer (translateInto cfg acc.1 p acc.2).1 p).1 := by
    have hbuffer := writeBuffer_writesTo (translateInto cfg acc.1 p acc.2).1 p
    rw [translateInto_player] at hbuffer
    exact hinto.writesTo.trans hbuffer
  simp only [monitorOne]
  split_ifs
  · exact ((hwrite.settles hopen).trans (eraseClient_settles _)).trans (eraseFrom_settles _ _)
  · exact hwrite.settles hopen
  · exact .refl _

theorem writePlayer_writesTo (poll : RecorderPoll) (p : Ptr) (length : ℤ) :
    WritesTo (s.player p).sourceId s (writePlayer cfg poll s p length).1 := by
  have hinto : Hushed s (translateInto cfg s p length).1 := translateInto_hushed _ p
  have hwrite : ∀ m, WritesTo (s.player p).sourceId s
      (writeBuffer ((translateInto cfg s p length).1.setPlayerData p m) p).1 := by
    intro m
    have hdata : Hushed s ((translateInto cfg s p length).1.setPlayerData p m) :=
      hinto.trans (.same rfl rfl rfl)
    have hbuffer := writeBuffer_writesTo ((translateInto cfg s p length).1.setPlayerData p m) p
    rw [Server.player_setPlayerData, translateInto_player] at hbuffer
    exact hdata.writesTo.trans hbuffer
  simp only [writePlayer]
  split_ifs <;> first | exact hwrite _ | exact .refl s

theorem recorderOne_settles (poll : Ptr → RecorderPoll) (length : ℤ) (acc : Server × ℤ) (p : Ptr)
    (hopen : W → (acc.1.player p).sourceId ∈ acc.1.table) :
    Settles W acc.1 (recorderOne cfg poll length acc p).1 := by
  have hwrite : Settles W acc.1 (writePlayer cfg (poll p) acc.1 p length).1 :=
    (writePlayer_writesTo _ p length).settles hopen
  simp only [recorderOne]
  split_ifs
  · exact (hwrite.trans (eraseClient_settles _)).trans (eraseFrom_settles _ _)
  · exact hwrite

/-- Streams of a list that have their turns one after the other. -/
theorem foldl_streams_settles {f : Server × ℤ → Ptr → Server × ℤ} {l : PlayerList} (hl : l ≠ .players)
    (does : ∀ s n p, s.objects.WellFormed → p ∈ s.list l → Does cfg (.written {p}) s (f (s, n) p).1)
    (settles : ∀ acc p, (W → (acc.1.player p).sourceId ∈ acc.1.table) → Settles W acc.1 (f acc p).1)
    (ps : List Ptr) (acc : Server × ℤ) (hnd : ps.Nodup) (hw : acc.1.objects.WellFormed)
    (hpaired : W → acc.1.objects.Paired) (listed : ∀ p ∈ ps, p ∈ acc.1.list l) :
    Settles W acc.1 (ps.foldl f acc).1 := by
  induction ps generalizing acc with
  | nil => exact .refl acc.1
  | cons p ps ih =>
    obtain ⟨hp, hnd⟩ := List.nodup_cons.mp hnd
    have hlisted := listed p List.mem_cons_self
    have hone := does acc.1 acc.2 p hw hlisted
    refine (settles acc p fun h => stream_open hw (hpaired h) hl hlisted).trans
      (ih _ hnd (hone.wellFormed hw) (fun h => ?_) fun p' hp' => ?_)
    · exact hone.effects.invariant Objects.Paired (fun _ _ hw ho he => ho.effect hw he) hw (hpaired h)
    · have hne : p' ∉ (Footprint.written {p}).players := fun he => hp (he ▸ hp')
      exact (hone.effects.untouched (listed p' (List.mem_cons_of_mem _ hp')) hne
        (Set.notMem_empty p')).listed

theorem monitorWrite_settles (hw : s.objects.WellFormed) (hpaired : W → s.objects.Paired)
    (canWrite : Ptr → Bool) (length : ℤ) : Settles W s (monitorWrite cfg canWrite s length) :=
  @foldl_streams_settles W cfg _ .monitors (by decide)
    (fun s n p hw hp => monitorOne_does canWrite n hw hp (by simp [Footprint.written]))
    (fun acc p => monitorOne_settles canWrite acc p) s.esdMonitorList (s, length)
    (hw.lists_nodup .monitors) hw hpaired fun p hp => hp

theorem esdServerStandby_hushed : Hushed s (esdServerStandby s).1 := by
  simp only [esdServerStandby]
  split_ifs <;> exact .same rfl rfl rfl

theorem esdServerResume_hushed (reopen : Option ℤ) : Hushed s (esdServerResume s reopen).1 := by
  simp only [esdServerResume]
  split_ifs
  · cases reopen <;> exact .same rfl rfl rfl
  · exact .refl s

theorem recorderWrite_settles (hw : s.objects.WellFormed) (hpaired : W → s.objects.Paired)
    (poll : Ptr → RecorderPoll) (reopen : Option ℤ) (length : ℤ) :
    Settles W s (recorderWrite cfg poll reopen s length).1 := by
  have hrows : Settles W s (s.esdRecorderList.foldl (recorderOne cfg poll length) (s, 0)).1 :=
    @foldl_streams_settles W cfg _ .recorders (by decide)
      (fun s n p hw hp => recorderOne_does poll length n hw hp (by simp [Footprint.written]))
      (fun acc p => recorderOne_settles poll length acc p) s.esdRecorderList (s, 0)
      (hw.lists_nodup .recorders) hw hpaired fun p hp => hp
  have hopen : ∀ u : Server, ∀ w r, Hushed u (esdAudioOpen { esdAudioClose u with
      esdAudioFormat := w } r).1 := by
    intro u w r
    cases r <;> exact .same rfl rfl rfl
  simp only [recorderWrite]
  split_ifs
  · exact hrows.trans (hopen _ _ _).settles
  · exact hrows

/-! Filters. -/

theorem filterSend_writesTo (p : Ptr) (dataSize : ℤ) :
    WritesTo (s.player p).sourceId s (filterSend s p dataSize).srv := by
  have hboth : (filterSend s p dataSize).srv.player = s.player ∧
      WritesTo (s.player p).sourceId s (filterSend s p dataSize).srv := by
    refine whileFuel_invariant (fun r : FilterWrite => r.srv.player = s.player ∧
      WritesTo (s.player p).sourceId s r.srv) (fun r r' hr h => ?_) _ ⟨rfl, .refl s⟩
    obtain ⟨hplayer, hwrites⟩ := hr
    have hwrite := fun bs => sysWrite_writesTo r.srv (s.player p).sourceId bs
    simp only [filterWriteRound, hplayer] at h
    split_ifs at h <;> cases h <;> exact ⟨hplayer, hwrites.trans (hwrite _)⟩
  exact hboth.2

theorem filterExchange_writesTo (canRead : Bool) (p : Ptr) (dataSize : ℤ) :
    WritesTo (s.player p).sourceId s (filterExchange canRead s p dataSize).1 := by
  have hsend := filterSend_writesTo (s := s) p dataSize
  have hread := hsend.trans (readPlayer_hushed canRead p).writesTo
  have hset : ∀ (u : Server) v, Hushed u (u.setPlayer p v) := fun u v => .same rfl rfl rfl
  simp only [filterExchange]
  split_ifs
  · exact hsend
  · exact hread.trans (hset _ _).writesTo
  · exact hread

theorem filterTranslate_hushed (size : ℤ) (p : Ptr) (next : Option Ptr) :
    Hushed s (filterTranslate cfg size s p next).1 := by
  simp only [filterTranslate]
  split
  · exact .refl s
  · cases next <;> exact .same rfl rfl rfl

theorem filterOne_settles (canRead : Bool) (size : ℤ) (p : Ptr) (next : Option Ptr) (dataSize : ℤ)
    (hopen : W → (s.player p).sourceId ∈ s.table) :
    Settles W s (filterOne cfg canRead size s p next dataSize).1 := by
  have hexchange : Settles W s (filterExchange canRead s p dataSize).1 :=
    (filterExchange_writesTo canRead p dataSize).settles hopen
  simp only [filterOne]
  split_ifs
  · exact (hexchange.trans (filterTranslate_hushed size p next).settles).trans (eraseFrom_settles _ _)
  · exact hexchange.trans (filterTranslate_hushed size p next).settles

theorem filterOne_listed {canRead : Bool} {size dataSize : ℤ} {next : Option Ptr} {p' : Ptr}
    (hp' : p' ∈ s.list .filters) (hne : p' ≠ p) :
    p' ∈ (filterOne cfg canRead size s p next dataSize).1.list .filters := by
  have hlist : (filterTranslate cfg size (filterExchange canRead s p dataSize).1 p next).1.list =
      s.list := (carriedLists.filterTranslate size p next).trans (carriedLists.filterExchange _ p _)
  simp only [filterOne]
  split_ifs
  · rw [eraseFilter, eraseFrom_list, hlist]
    exact (List.mem_erase_of_ne hne).mpr hp'
  · rwa [hlist]

theorem filterLoop_settles (canRead : Ptr → Bool) (size : ℤ) (ps : List Ptr) (dataSize : ℤ)
    (hnd : ps.Nodup) (hw : s.objects.WellFormed) (hpaired : W → s.objects.Paired)
    (listed : ∀ p ∈ ps, p ∈ s.list .filters) :
    Settles W s (filterLoop cfg canRead size ps s dataSize).1 := by
  induction ps generalizing s dataSize with
  | nil => exact .refl s
  | cons p ps ih =>
    obtain ⟨hp, hnd⟩ := List.nodup_cons.mp hnd
    have hlisted := listed p List.mem_cons_self
    have hdoes : Does cfg (.mixed Set.univ) s
        (filterOne cfg (canRead p) size s p ps.head? dataSize).1 :=
      filterOne_does cfg (canRead p) size dataSize (Footprint.mixed_owns (Set.mem_univ p))
        fun p' _ => Set.mem_univ p'
    refine (filterOne_settles (canRead p) size p ps.head? dataSize fun h =>
      stream_open hw (hpaired h) (by decide) hlisted).trans
      (ih _ hnd (hdoes.wellFormed hw) (fun h => ?_) fun p' hp' => ?_)
    · exact hdoes.effects.invariant Objects.Paired (fun _ _ hw ho he => ho.effect hw he) hw (hpaired h)
    · exact filterOne_listed (listed p' (List.mem_cons_of_mem _ hp')) fun he => hp (he ▸ hp')

theorem filterWrite_settles (hw : s.objects.WellFormed) (hpaired : W → s.objects.Paired)
    (canRead : Ptr → Bool) (size : ℤ) : Settles W s (filterWrite cfg canRead s size).1 := by
  simp only [filterWrite]
  split
  · exact .refl s
  · rename_i r dataSize hfirst
    obtain ⟨p, hp, m, hr⟩ := filterFirst_cases hfirst
    have hr : r = s.setPlayerData p m := hr
    have hdata : Does cfg (.mixed Set.univ) s (s.setPlayerData p m) :=
      setPlayerData_does s m (Set.mem_univ p)
    have hhushed : Hushed s (s.setPlayerData p m) := .same rfl rfl rfl
    have hw' := hdata.wellFormed hw
    rw [hr]
    refine hhushed.settles.trans (filterLoop_settles canRead size _ dataSize
      (hw'.lists_nodup .filters) hw' (fun h => ?_) fun p' hp' => hp')
    exact hdata.effects.invariant Objects.Paired (fun _ _ hw ho he => ho.effect hw he) hw (hpaired h)

end Sound

/-! ## Requests -/

/-- The blocks of sound that `main` allocates. -/
def Server.blocks (s : Server) : (ℕ → ℤ) × Mem := (s.mixedBuffer, s.outputBuffer)

section Blocks

variable {s : Server}

theorem setList_blocks (l : PlayerList) (ps : List Ptr) : (s.setList l ps).blocks = s.blocks := by
  cases l <;> rfl

theorem eraseClient_blocks (c : Ptr) : (eraseClient s c).blocks = s.blocks := by
  simp only [eraseClient]
  split_ifs <;> rfl

theorem eraseSample_blocks (id : ℤ) (force : Bool) : (eraseSample s id force).blocks = s.blocks := by
  simp only [eraseSample]
  split
  · rfl
  · split_ifs <;> rfl

theorem esdServerStandby_blocks : (esdServerStandby s).1.blocks = s.blocks := by
  simp only [esdServerStandby]
  split_ifs <;> rfl

theorem esdServerResume_blocks (reopen : Option ℤ) :
    (esdServerResume s reopen).1.blocks = s.blocks := by
  simp only [esdServerResume]
  split_ifs
  · cases reopen <;> rfl
  · rfl

end Blocks

/-- Only the client was written to, nobody left, and the blocks are as they were. -/
structure Tells (c : Ptr) (s t : Server) : Prop extends WritesTo (s.client c).fd s t where
  fd : (t.client c).fd = (s.client c).fd
  blocks : t.blocks = s.blocks

section Handlers

variable {W : Prop} {cfg : Config} {env : PollEnv} {s t u : Server} {c p : Ptr} {request : Proto}
  {r : Server × Bool}

theorem Hushed.tells (h : Hushed s t) (hfd : (t.client c).fd = (s.client c).fd)
    (hblocks : t.blocks = s.blocks) : Tells c s t := ⟨h.writesTo, hfd, hblocks⟩

theorem Tells.same (hclients : t.esdClientsList = s.esdClientsList) (hclient : t.client = s.client)
    (hevents : t.events = s.events) (hblocks : t.blocks = s.blocks) : Tells c s t :=
  (Hushed.same hclients hclient hevents).tells (by rw [hclient]) hblocks

theorem Tells.refl (s : Server) : Tells c s s := .same rfl rfl rfl rfl

theorem Tells.trans (h : Tells c s t) (h' : Tells c t u) : Tells c s u := by
  have hwrites := h'.toWritesTo
  rw [h.fd] at hwrites
  exact ⟨h.toWritesTo.trans hwrites, h'.fd.trans h.fd, h'.blocks.trans h.blocks⟩

theorem Tells.setClient {v : EsdClient} (h : v.fd = (s.client c).fd) : Tells c s (s.setClient c v) :=
  (Hushed.setClient h).tells (by simpa [Server.setClient] using h) rfl

theorem Tells.record {call : Call} (h : Tells c s t) : Tells c s (t.record call) :=
  h.trans (.same rfl rfl rfl rfl)

theorem sysWrite_tells (s : Server) (c : Ptr) (bs : List Octet) :
    Tells c s (s.sysWrite (s.client c).fd bs).1 := ⟨sysWrite_writesTo s _ bs, rfl, rfl⟩

theorem reply_tells (x : ℤ) : Tells c s (reply s c x).1 := sysWrite_tells s c _

theorem Tells.reply (h : Tells c s t) (x : ℤ) : Tells c s (reply t c x).1 := h.trans (reply_tells x)

theorem replyId_tells : Tells c s (replyId s c).1 := sysWrite_tells s c _

theorem esdValidateSource_tells (key : List Octet) (ownerOnly : Bool) :
    Tells c s (esdValidateSource s c key ownerOnly).1 := by
  have hown : Tells c s { s with esdIsLocked := true, esdOwnerKey := key, esdIsOwned := true } :=
    .same rfl rfl rfl rfl
  simp only [esdValidateSource]
  split_ifs
  · exact hown.trans (sysWrite_tells _ c _)
  · exact sysWrite_tells s c _
  · exact sysWrite_tells s c _
  · exact sysWrite_tells s c _

theorem esdProtoConnect_tells : Tells c s (esdProtoConnect s c).1 := by
  have hsource : Tells c s (esdValidateSource s c (s.client c).key false).1 :=
    esdValidateSource_tells _ _
  simp only [esdProtoConnect]
  generalize esdValidateSource s c (s.client c).key false = v at hsource ⊢
  obtain ⟨t, ok⟩ := v
  cases ok with
  | false => exact hsource
  | true =>
    simp only [esdCheckEndian]
    split_ifs
    · exact hsource.trans (.setClient rfl)
    · exact hsource.trans (.setClient rfl)
    · exact hsource

theorem esdServerStandby_tells : Tells c s (esdServerStandby s).1 :=
  esdServerStandby_hushed.tells
    (congrArg (fun o : Objects => (o.client c).fd) objects_esdServerStandby) esdServerStandby_blocks

theorem esdServerResume_tells (reopen : Option ℤ) : Tells c s (esdServerResume s reopen).1 :=
  (esdServerResume_hushed reopen).tells
    (congrArg (fun o : Objects => (o.client c).fd) (objects_esdServerResume reopen))
    (esdServerResume_blocks reopen)

theorem esdProtoAuthorized_tells (h : handler cfg env request s c = some r)
    (hauth : request.Authorizes) : Tells c s r.1 := by
  have hsource : Tells c s (esdValidateSource s c (s.client c).key true).1 :=
    esdValidateSource_tells _ _
  cases request with
  | connect =>
    cases h
    exact esdProtoConnect_tells
  | lock =>
    cases h
    simp only [esdProtoLock]
    refine Tells.reply (hsource.trans ?_) _
    split_ifs
    · exact .same rfl rfl rfl rfl
    · exact .refl _
  | unlock =>
    cases h
    simp only [esdProtoUnlock]
    refine Tells.reply (hsource.trans ?_) _
    split_ifs
    · exact .same rfl rfl rfl rfl
    · exact .refl _
  | standby =>
    cases h
    simp only [esdProtoStandby]
    generalize esdValidateSource s c (s.client c).key true = v at hsource ⊢
    have hstandby : Tells c v.1 (if v.2 then esdServerStandby v.1 else (v.1, v.2)).1 := by
      split_ifs
      · exact esdServerStandby_tells
      · exact .refl _
    refine Tells.reply ((hsource.trans hstandby).trans ?_) _
    split_ifs <;> first | exact .refl _ | exact .same rfl rfl rfl rfl
  | resume =>
    cases h
    simp only [esdProtoResume]
    generalize esdValidateSource s c (s.client c).key true = v at hsource ⊢
    have hresume : Tells c v.1 (if v.2 then esdServerResume v.1 (env.audioOpen 0) else (v.1, v.2)).1 := by
      split_ifs
      · exact esdServerResume_tells _
      · exact .refl _
    refine Tells.reply ((hsource.trans hresume).trans ?_) _
    split_ifs <;> first | exact .refl _ | exact .same rfl rfl rfl rfl
  | _ => exact hauth.elim

/-! ### Streams -/

theorem pushTo_tells (l : PlayerList) (p : Ptr) : Tells c s (pushTo s l p) :=
  Hushed.setList.tells (by cases l <;> rfl) (setList_blocks l _)

theorem Tells.setStreaming (h : Tells c s t) : Tells c s (setStreaming t c) :=
  h.trans (.setClient rfl)

theorem Tells.setParent (h : Tells c s t) : Tells c s (setParent t p c) :=
  h.trans (.same rfl rfl rfl rfl)

theorem Tells.setTranslateFunc (h : Tells c s t) : Tells c s (setTranslateFunc t p) :=
  h.trans (.same rfl rfl rfl rfl)

theorem Tells.pushTo (h : Tells c s t) (l : PlayerList) : Tells c s (pushTo t l p) :=
  h.trans (pushTo_tells l p)

theorem newStreamPlayer_tells : Tells c s (newStreamPlayer cfg env s c).1 := by
  rcases newStreamPlayer_cases cfg env s c with h | ⟨v, h, -⟩ <;> rw [h] <;> exact .same rfl rfl rfl rfl

theorem joinRecorders_tells (p : Ptr) : Tells c s (joinRecorders s c p).1 :=
  (((Tells.refl s).pushTo .recorders).setParent.setTranslateFunc).setStreaming

/-- The recorder that is given up has no parent yet, so that no client goes with it. -/
theorem giveUpRecorder_tells (hnull : 0 ∉ s.esdClientsList) (h : (s.player p).parent = 0)
    (mode : (s.player p).IsStream) : Tells c s (giveUpRecorder env s p) := by
  have hfree : Tells c s (freePlayer s p) := by
    have hnobody : eraseClient s 0 = s := by simp [eraseClient, hnull]
    have hdrop : Hushed s (s.emit (.dropped p
        (load (s.playerData p) 0 (s.player p).actualLength.toNat))) := (Hushed.refl s).emit rfl
    simp only [freePlayer, if_pos mode, h, hnobody]
    exact hdrop.tells rfl rfl
  refine hfree.trans ?_
  simp only [giveUpRecorder]
  cases env.audioOpen 2 <;> exact .same rfl rfl rfl rfl

theorem reopenToRecord_tells (hnull : 0 ∉ s.esdClientsList) (h : (s.player p).parent = 0)
    (mode : (s.player p).IsStream) : Tells c s (reopenToRecord env s c p).1 := by
  have hformat : Tells c s { esdAudioClose s with
      esdAudioFormat := (esdAudioClose s).esdAudioFormat ||| esdRecord } := .same rfl rfl rfl rfl
  simp only [reopenToRecord]
  cases henv : env.audioOpen 1 with
  | some size =>
    have hopened : Tells c s (esdAudioOpen { esdAudioClose s with
        esdAudioFormat := (esdAudioClose s).esdAudioFormat ||| esdRecord } (some size)).1 :=
      hformat.trans (.same rfl rfl rfl rfl)
    exact hopened.trans (joinRecorders_tells p)
  | none => exact hformat.trans (giveUpRecorder_tells hnull h mode)

theorem startRecorder_tells (hnull : 0 ∉ s.esdClientsList) :
    Tells c s (startRecorder cfg env s c).1 := by
  have hnew : Tells c s (newStreamPlayer cfg env s c).1 := newStreamPlayer_tells
  have hstream : (newStreamPlayer cfg env s c).2 ≠ 0 →
      0 ∉ (newStreamPlayer cfg env s c).1.esdClientsList ∧
      ((newStreamPlayer cfg env s c).1.player (newStreamPlayer cfg env s c).2).parent = 0 ∧
        ((newStreamPlayer cfg env s c).1.player (newStreamPlayer cfg env s c).2).IsStream := by
    rcases newStreamPlayer_cases cfg env s c with h | ⟨v, h, -, mode, hparent, -⟩
    · exact fun hne => absurd (congrArg Prod.snd h) hne
    · rw [h]
      exact fun _ => ⟨hnull, by simpa [Server.setPlayer] using ⟨hparent, mode⟩⟩
  simp only [startRecorder]
  generalize newStreamPlayer cfg env s c = a at hnew hstream ⊢
  split_ifs with hstandby hnone
  · exact .refl s
  · exact hnew
  · obtain ⟨hnull', hparent, mode⟩ := hstream hnone
    exact hnew.trans (reopenToRecord_tells hnull' hparent mode)
  · exact hnew.trans (joinRecorders_tells _)

/-! ### Samples -/

theorem playSample_tells (id : ℤ) (loop : Bool) : Tells c s (playSample cfg env s id loop).1 := by
  have hnew : Tells c s (newSamplePlayer cfg env s id loop).1 := by
    simp only [newSamplePlayer]
    split
    · exact .refl s
    · split_ifs
      · exact .refl s
      · split <;> exact .same rfl rfl rfl rfl
      · split <;> exact .same rfl rfl rfl rfl
  simp only [playSample]
  split_ifs
  · exact hnew
  · exact hnew.pushTo .players

theorem readSample_tells (q : Ptr) : Tells c s (readSample cfg s q).1 := by
  have hloop : Tells c s (whileFuel (readSampleRound cfg q)
      (((s.sample q).sampleLength - (s.sample q).cachedLength).toNat + 1)
      ⟨s, (s.sample q).cachedLength, true, false⟩).srv := by
    refine whileFuel_invariant (fun r : ReadSample => Tells c s r.srv)
      (fun r r' hr h => hr.trans ?_) _ (.refl s)
    simp only [readSampleRound] at h
    split_ifs at h
    split at h
    · cases h
      exact .same rfl rfl rfl rfl
    · cases h
      exact .same rfl rfl rfl rfl
    · split_ifs at h <;> cases h <;> exact .same rfl rfl rfl rfl
  simp only [readSample]
  split_ifs
  · exact hloop
  · exact hloop.trans (.same rfl rfl rfl rfl)

theorem cacheInto_tells (q : Ptr) : Tells c s (cacheInto cfg s c q).1 := by
  have hparent : Tells c s (s.setSample q { s.sample q with parent := c }) := .same rfl rfl rfl rfl
  have hall : Tells c s (readSample cfg (s.setSample q { s.sample q with parent := c }) q).1 :=
    hparent.trans (readSample_tells q)
  simp only [cacheInto]
  generalize readSample cfg (s.setSample q { s.sample q with parent := c }) q = a at hall ⊢
  obtain ⟨t, ok⟩ := a
  cases ok with
  | false => exact hall
  | true =>
    simp only
    split_ifs
    · exact hall.trans (.setClient rfl)
    · have hnext : Tells c t (t.setClient c { t.client c with state := .nextRequest }) :=
        .setClient rfl
      exact (hall.trans hnext).reply _

theorem newSample_tells : Tells c s (newSample cfg env s c).1 := by
  have hwrite : ∀ u : Server, u.client = s.client → ∀ w, Tells c u (u.writeInt (s.client c).fd w).1 :=
    fun u hu w => hu ▸ sysWrite_tells u c _
  simp only [newSample]
  split_ifs
  · exact .refl s
  · refine Tells.trans ?_ (hwrite _ ?_ _)
    · exact .same rfl rfl rfl rfl
    · rfl
  · exact .same rfl rfl rfl rfl

theorem esdProtoSampleCache_tells (h : esdProtoSampleCache cfg env s c = some r) :
    Tells c s r.1 := by
  have hnew : Tells c s (newSample cfg env s c).1 := newSample_tells
  simp only [esdProtoSampleCache] at h
  split_ifs at h with hstate
  · split at h
    · cases h
    · split_ifs at h <;> cases h
      · exact .refl s
      · exact cacheInto_tells _
  · cases h
    exact hnew
  · cases h
    have hadd : Tells c (newSample cfg env s c).1
        (addSample (newSample cfg env s c).1 (newSample cfg env s c).2) := .same rfl rfl rfl rfl
    exact (hnew.trans hadd).trans (cacheInto_tells _)

/-! ### Information -/

theorem writeAll_tells (rows : List (List Octet)) :
    Tells c s (writeAll s (s.client c).fd rows).1 := by
  induction rows generalizing s with
  | nil => exact .refl s
  | cons bs rest ih =>
    cases rest with
    | nil => exact sysWrite_tells s c bs
    | cons bs' rest' => exact (sysWrite_tells s c bs).trans ih

theorem esdProtoServerInfo_tells : Tells c s (esdProtoServerInfo s cfg c).1 := by
  simp only [esdProtoServerInfo]
  exact writeAll_tells _

theorem writePlayers_tells {cl : EsdClient} (hcl : cl.fd = (s.client c).fd) (ps : List Ptr)
    (scales : Word × Word) : Tells c s (writePlayers cl ps scales s).1 := by
  induction ps generalizing s scales with
  | nil =>
    simp only [writePlayers, hcl]
    exact writeAll_tells _
  | cons p ps ih =>
    have hrow : Tells c s (writeAll s cl.fd (playerRow cl s p)).1 := hcl ▸ writeAll_tells _
    simp only [writePlayers]
    split_ifs
    · exact hrow.trans (ih (hcl.trans hrow.fd.symm) _)
    · exact hrow

theorem writeSamples_tells {cl : EsdClient} (hcl : cl.fd = (s.client c).fd) (qs : List Ptr)
    (scales : Word × Word) : Tells c s (writeSamples cl qs scales s).1 := by
  induction qs generalizing s scales with
  | nil =>
    simp only [writeSamples, hcl]
    exact writeAll_tells _
  | cons q qs ih =>
    have hrow : Tells c s (writeAll s cl.fd (sampleRow cl s q)).1 := hcl ▸ writeAll_tells _
    simp only [writeSamples]
    split_ifs
    · exact hrow.trans (ih (hcl.trans hrow.fd.symm) _)
    · exact hrow

theorem esdProtoAllInfo_tells : Tells c s (esdProtoAllInfo cfg env s c).1 := by
  have hinfo : Tells c s (esdProtoServerInfo s cfg c).1 := esdProtoServerInfo_tells
  simp only [esdProtoAllInfo]
  split
  · rename_i t heq
    rwa [heq] at hinfo
  · rename_i t heq
    rw [heq] at hinfo
    have hplayers : Tells c t (writePlayers (s.client c) t.esdPlayersList env.stackInts t).1 :=
      writePlayers_tells hinfo.fd.symm _ _
    split
    · rename_i u heq'
      rw [heq'] at hplayers
      exact hinfo.trans hplayers
    · rename_i u heq'
      rw [heq'] at hplayers
      have hboth := hinfo.trans hplayers
      exact hboth.trans (writeSamples_tells hboth.fd.symm _ _)

theorem checkedReply_tells (x : ℤ) : Tells c s (checkedReply s c x).1 := reply_tells x

/-! ### All of them -/

theorem handler_tells (hnull : 0 ∉ s.esdClientsList) (h : handler cfg env request s c = some r) :
    Tells c s r.1 := by
  have hnew : Tells c s (newStreamPlayer cfg env s c).1 := newStreamPlayer_tells
  cases request with
  | connect | lock | unlock | standby | resume => exact esdProtoAuthorized_tells h trivial
  | streamPlay =>
    cases h
    simp only [esdProtoStreamPlay]
    split_ifs
    · exact hnew
    · exact (hnew.setParent.pushTo _).setStreaming
  | streamMon =>
    cases h
    simp only [esdProtoStreamMonitor]
    split_ifs
    · exact hnew
    · exact (hnew.setParent.pushTo _).setTranslateFunc.setStreaming
  | streamFilt =>
    cases h
    simp only [esdProtoStreamFilter]
    split_ifs
    · exact hnew
    · exact (hnew.setParent.pushTo _).setStreaming
  | streamRec =>
    cases h
    simp only [esdProtoStreamRecorder]
    split_ifs
    · have hresume : Tells c s (esdServerResume s (env.audioOpen 0)).1 := esdServerResume_tells _
      have hclients : (esdServerResume s (env.audioOpen 0)).1.esdClientsList = s.esdClientsList :=
        congrArg Objects.clients (objects_esdServerResume _)
      exact hresume.trans (startRecorder_tells (hclients ▸ hnull))
    · exact startRecorder_tells hnull
  | sampleCache => exact esdProtoSampleCache_tells h
  | sampleFree =>
    cases h
    have herase : Tells c s (eraseSample s ((s.client c).param 0) false) :=
      (eraseSample_hushed _ _).tells (by rw [eraseSample_client]) (eraseSample_blocks _ _)
    exact herase.trans replyId_tells
  | samplePlay | sampleLoop =>
    cases h
    exact (playSample_tells _ _).trans replyId_tells
  | sampleStop =>
    cases h
    have hstop : Tells c s (stopSample s ((s.client c).param 0)).1 := by
      simp only [stopSample]
      split <;> exact .same rfl rfl rfl rfl
    exact hstop.trans replyId_tells
  | sampleKill | subscribe | unsubscribe =>
    cases h
    exact .refl s
  | sampleGetid =>
    cases h
    simp only [esdProtoSampleGetid]
    split <;> exact reply_tells _
  | serverInfo =>
    cases h
    exact esdProtoServerInfo_tells
  | allInfo =>
    cases h
    exact esdProtoAllInfo_tells
  | streamPan =>
    cases h
    simp only [esdProtoStreamPan]
    split
    · refine Tells.trans ?_ (checkedReply_tells _)
      exact .same rfl rfl rfl rfl
    · exact checkedReply_tells _
  | samplePan =>
    cases h
    simp only [esdProtoSamplePan]
    split
    · refine Tells.trans ?_ (checkedReply_tells _)
      exact .same rfl rfl rfl rfl
    · exact checkedReply_tells _
  | standbyMode | latency =>
    cases h
    exact checkedReply_tells _

/-- Whatever comes of the turn of a client, only the client is written to, and it is not closed. -/
theorem pollTurn_tells (hnull : 0 ∉ s.esdClientsList) (h : pollTurn cfg env s c = some r) :
    Tells c s r.1 := by
  have hheard : ∀ u, Heard c s u → Tells c s u := by
    intro u hu
    have hevents : u.events = s.events := by rw [hu.rest]
    have hfds : u.fds = s.fds := by
      rw [Server.fds, hu.lists.1]
      refine List.map_congr_left fun d _ => ?_
      rcases eq_or_ne d c with rfl | hne
      · exact hu.fd
      · rw [hu.rest]
        simp [hne]
    exact (Hushed.mk hfds (by rw [Server.uses, hevents, Server.uses])).tells hu.fd (by rw [hu.rest]; rfl)
  cases pollTurn_ends h with
  | heard _ hu => exact hheard _ hu
  | handled request u hu _ _ r' hr' =>
    have hu' : 0 ∉ u.esdClientsList := by rwa [hu.lists.1]
    exact ((hheard u hu).trans (handler_tells hu' hr')).record
  | resumed _ r' hr' => exact (esdProtoSampleCache_tells hr').record

end Handlers

/-! ## The daemon -/

section Steps

variable {W : Prop} {cfg : Config} {s t : Server} {a : Action} {as : List Action}

theorem pollClient_settles {c : Ptr} {env : PollEnv} (hc : c ∈ s.esdClientsList)
    (hnull : 0 ∉ s.esdClientsList) (h : pollClient cfg env s c = some t) : Settles W s t := by
  obtain ⟨r, hr, rfl⟩ := Option.map_eq_some_iff.mp h
  have hturn : Settles W s r.1 := (pollTurn_tells hnull hr).settles fun _ => mem_table hc
  split_ifs
  · exact hturn
  · exact hturn.trans (eraseClient_settles c)

theorem resetDaemon_settles (scrambled : List Octet) : Settles W s (resetDaemon s scrambled) := by
  have hclose : ∀ u : Server, Settles W u (closeClients u) := fun u => by
    refine whileFuel_related (Settles W) Settles.refl (fun _ _ _ h h' => h.trans h')
      (fun u v h => ?_) u.esdClientsList.length u
    simp only [closeHead] at h
    split at h
    · cases h
    · cases h
      exact eraseClient_settles _
  have hfree : ∀ u : Server, Hushed u (freeSamples u) := fun u => by
    refine whileFuel_related Hushed Hushed.refl (fun _ _ _ h h' => h.trans h')
      (fun u v h => ?_) u.esdSamplesList.length u
    simp only [freeHead] at h
    split at h
    · cases h
    · cases h
      exact eraseSample_hushed _ _
  have hkey : Hushed s { s with esdIsOwned := false, esdIsLocked := true, esdOwnerKey := scrambled } :=
    .same rfl rfl rfl
  have hid : ∀ u : Server, Hushed u { u with esdNextSampleId := 1 } := fun u => .same rfl rfl rfl
  exact ((hkey.settles.trans (hclose _)).trans (hfree _).settles).trans (hid _).settles

def Action.Accepts : Action → Prop
  | accept .. => True
  | _ => False

/-- Every action but an `accept` puts the descriptors to proper uses. -/
theorem step_settles (hw : s.objects.WellFormed) (hpaired : W → s.objects.Paired)
    (haccept : ¬ a.Accepts) (h : step cfg s a = some t) : Settles W s t := by
  obtain ⟨hen, h⟩ := step_eq_some h
  cases a with
  | accept => exact absurd trivial haccept
  | poll c env => exact pollClient_settles hen.1 hw.client_ne_null h
  | refresh =>
    cases h
    exact refreshMixFuncs_hushed.settles
  | mix canRead =>
    cases h
    exact mixPlayers_settles canRead
  | wake reopen =>
    cases h
    exact (esdServerResume_hushed reopen).settles
  | filter canRead size =>
    cases h
    exact filterWrite_settles hw hpaired canRead size
  | monitor canWrite length =>
    cases h
    exact monitorWrite_settles hw hpaired canWrite length
  | recorder ready reopen block length =>
    cases h
    have hblock : Hushed s { s with outputBuffer := store s.outputBuffer 0 block } := .same rfl rfl rfl
    exact hblock.settles.trans
      (recorderWrite_settles (s := { s with outputBuffer := store s.outputBuffer 0 block }) hw hpaired
        ready reopen length)
  | autostandby =>
    cases h
    have hflag : ∀ u : Server, Hushed u { u with esdOnAutostandby := true } := fun u => .same rfl rfl rfl
    exact (esdServerStandby_hushed.trans (hflag _)).settles
  | reconnect reopen =>
    cases h
    cases reopen <;> exact Hushed.settles (.same rfl rfl rfl)
  | reset scrambled =>
    cases h
    exact resetDaemon_settles scrambled

theorem step_pairs (hw : s.objects.WellFormed) (hpaired : s.objects.Paired) (hreset : ¬ a.IsReset)
    (h : step cfg s a = some t) : t.objects.Paired :=
  (step_effects hw h hreset).invariant Objects.Paired (fun _ _ hw ho he => ho.effect hw he) hw hpaired

theorem Run.settles (h : Run (step cfg) (fun _ a => ¬ a.Accepts) s as t)
    (hw : s.objects.WellFormed) (hpaired : W → s.objects.Paired)
    (hreset : W → ∀ a ∈ as, ¬ a.IsReset) : Settles W s t := by
  induction h with
  | nil s => exact .refl s
  | @cons s u t a as haccept hstep _ ih =>
    have hone : Settles W s u := step_settles hw hpaired haccept hstep
    refine hone.trans (ih (step_wellFormed hw hstep) (fun h => ?_) fun h a ha => ?_)
    · exact step_pairs hw (hpaired h) (hreset h _ List.mem_cons_self) hstep
    · exact hreset h a (List.mem_cons_of_mem _ ha)

theorem Run.paired (h : Run (step cfg) (fun _ a => ¬ a.IsReset) s as t)
    (hw : s.objects.WellFormed) (hpaired : s.objects.Paired) : t.objects.Paired :=
  Run.objects_invariant Objects.Paired (fun _ _ _ hw ho he => ho.effect hw he) h hw hpaired

/-- A connection has a descriptor of its own. -/
theorem getNewClient_fds {c : Ptr} {fd : ℤ} {socket : Socket} (fresh : c ∉ s.esdClientsList) :
    (getNewClient s c fd socket).fds = fd :: s.fds ∧ (getNewClient s c fd socket).uses = s.uses := by
  refine ⟨?_, rfl⟩
  have hlist : (getNewClient s c fd socket).esdClientsList = c :: s.esdClientsList := rfl
  rw [Server.fds, hlist, List.map_cons]
  congr 1
  · simp [getNewClient, addNewClient, Server.record, Server.setClient]
  · refine List.map_congr_left fun d hd => ?_
    have hne : d ≠ c := fun he => fresh (he ▸ hd)
    simp [getNewClient, addNewClient, Server.record, Server.setClient, hne]

end Steps

/-! ## The loop -/

namespace CommLoop

/-- The descriptors of connections that are open; the kernel closes what is left when the daemon
ends with an error. -/
def table (l : CommLoop) : Finset ℤ := if l.place = .exited 0 then ∅ else l.server.table

/-- What is opened at a step of the loop. -/
def opened (l : CommLoop) (i : LoopInput) : List (Use ℤ) :=
  match l.place, i with
  | .accept, .accept (.client _ fd _) => [.opens fd]
  | _, _ => []

/-- The uses of descriptors at a step of the loop. -/
def descriptors (L : LoopConfig) (l : CommLoop) (i : LoopInput) : List (Use ℤ) :=
  match l.advance L i with
  | none => []
  | some l' => l.opened i ++ l'.server.uses.drop l.server.uses.length

section Steps

variable {W : Prop} {L : LoopConfig} {l l' : CommLoop} {i : LoopInput}

theorem opened_eq_nil (h : ∀ c fd socket, i ≠ .accept (.client c fd socket)) : l.opened i = [] := by
  unfold opened
  split
  · exact absurd rfl (h _ _ _)
  · rfl

theorem accepts_of_moves {a : Action} (ha : a.Accepts) (h : a ∈ l.moves L i) :
    ∃ c fd socket, i = .accept (.client c fd socket) := by
  unfold moves at h
  split at h <;> (try split_ifs at h) <;>
    simp only [List.mem_singleton, List.not_mem_nil] at h <;> subst h <;>
    first | exact ha.elim | exact ⟨_, _, _, rfl⟩

/-- Every client has a descriptor of its own, and its stream if it has one. -/
structure Tidy (W : Prop) (l : CommLoop) : Prop where
  inPlace : l.InPlace
  nodup : l.server.fds.Nodup
  paired : W → l.server.objects.Paired

theorem table_running (h : l.Running) : l.table = l.server.table := if_neg (h 0)

theorem cleanExit_uses : l.cleanExit.server.uses = l.server.uses ++ l.server.fds.map .closes := by
  have hfold : ∀ (fds : List ℤ) (s : Server),
      (fds.foldl (fun s fd => s.emit (.closed fd)) s).uses = s.uses ++ fds.map .closes := by
    intro fds
    induction fds with
    | nil => simp
    | cons fd fds ih =>
      intro s
      have hone : (s.emit (.closed fd)).uses = s.uses ++ [.closes fd] := by
        simp only [Server.uses, Server.emit, List.filterMap_append]
        rfl
      rw [List.foldl_cons, ih, hone, List.map_cons, List.append_assoc, List.singleton_append]
  exact hfold _ _

/-- `clean_exit` closes what is open. -/
theorem cleanExit_descriptors (hnd : l.server.fds.Nodup) :
    ∃ us, l.cleanExit.server.uses = l.server.uses ++ us ∧
      Run use (Proper W) l.server.table us l.cleanExit.table :=
  ⟨_, cleanExit_uses, run_closes hnd⟩

theorem reconnect_hushed (reopen : Option ℤ) : Hushed l.server (l.reconnect reopen).server := by
  simp only [reconnect]
  split_ifs
  · cases reopen <;> exact .same rfl rfl rfl
  · exact .refl _

theorem turnOf_running (o : Option Ptr) (status : ℕ) : turnOf o ≠ .exited status := by
  cases o <;> simp [turnOf]

/-- The loop is left through `clean_exit`, or because `select` failed. -/
theorem Advances.leaves (h : Advances L l i l') (hleft : ¬ l'.Running) :
    (∀ c fd socket, i ≠ .accept (.client c fd socket)) ∧
      ((∃ m : CommLoop, Hushed l.server m.server ∧ l' = m.cleanExit) ∨
        l'.server = l.server ∧ l'.place = .exited 1) := by
  have hstays : ∀ {p : Place}, l'.place = p → (∀ status, p ≠ .exited status) → False :=
    fun hp hne => hleft fun status hplace => hne status (hp.symm.trans hplace)
  cases h with
  | @top reopen now hp =>
    refine ⟨by simp, .inl ?_⟩
    simp only [beforeSelect] at hstays ⊢
    split_ifs at hstays ⊢
    · exact ⟨_, reconnect_hushed reopen, rfl⟩
    · exact (hstays rfl (by simp)).elim
  | term => exact ⟨by simp, .inl ⟨l, .refl _, rfl⟩⟩
  | @select timeout answer now later hp =>
    cases answer with
    | failed => exact ⟨by simp, .inr ⟨rfl, rfl⟩⟩
    | ready listening =>
      cases listening with
      | true => exact (hstays (p := .accept) rfl (by simp)).elim
      | false => exact (hstays rfl (turnOf_running _)).elim
    | timedOut =>
      rcases timedOut_place (L := L) (l := l) now later with hplace | hplace | hplace
      · exact (hstays hplace (by simp)).elim
      · exact (hstays hplace (by simp)).elim
      · exact (hstays hplace (turnOf_running _)).elim
    | interrupted =>
      simp only [afterSelect] at hstays
      split_ifs at hstays <;> exact (hstays rfl (by simp)).elim
    | again => exact (hstays (p := .top) rfl (by simp)).elim
  | @accept answer hp =>
    cases answer with
    | none | noRoom => exact (hstays rfl (turnOf_running _)).elim
    | refused | client => exact (hstays hp (by simp)).elim
  | @poll c env l' hp hpoll =>
    obtain ⟨r, -, rfl⟩ := Option.map_eq_some_iff.mp hpoll
    exact (hstays rfl (turnOf_running _)).elim
  | refresh => exact (hstays (p := .mix) rfl (by simp)).elim
  | mix => exact (hstays (p := .wake) rfl (by simp)).elim
  | @wake reopen hp =>
    simp only [wakeRound] at hstays
    split_ifs at hstays <;> exact (hstays rfl (by simp)).elim
  | @filter canRead hp =>
    simp only [filterRound] at hstays
    split_ifs at hstays <;> exact (hstays rfl (by simp)).elim
  | @write now hp =>
    simp only [writeRound] at hstays
    split_ifs at hstays <;> exact (hstays rfl (by simp)).elim
  | @monitor canWrite hp =>
    simp only [monitorRound] at hstays
    split_ifs at hstays <;> exact (hstays rfl (by simp)).elim
  | @record ready reopen block now hp =>
    simp only [recordRound] at hstays
    split_ifs at hstays <;> exact (hstays rfl (by simp)).elim
  | usr1 running => exact (hleft running).elim
  | hup hp => exact (hstays hp (by simp)).elim

theorem Tidy.accepts {c : Ptr} {fd : ℤ} {socket : Socket} (hl : l.Tidy W)
    (hi : l.Promised L (.accept (.client c fd socket))) :
    (getNewClient l.server c fd socket).fds.Nodup ∧
      Run use (Proper W) l.server.table [.opens fd] (getNewClient l.server c fd socket).table := by
  obtain ⟨-, fresh, -, hfd⟩ := hi
  have hfds : (getNewClient l.server c fd socket).fds = fd :: l.server.fds :=
    (getNewClient_fds fresh).1
  have hnew : fd ∉ l.server.fds := by
    rintro hmem
    obtain ⟨d, hd, hsame⟩ := List.mem_map.mp hmem
    exact hfd d hd hsame
  refine ⟨hfds ▸ List.nodup_cons.mpr ⟨hnew, hl.nodup⟩, .cons ?_ ?_ (.nil _)⟩
  · exact fun hmem => hnew (List.mem_toFinset.mp hmem)
  · rw [use, Server.table, Server.table, hfds, List.toFinset_cons]

theorem Tidy.step (hl : l.Tidy W) (hi : l.Promised L i) (hhup : W → ∀ scrambled, i ≠ .hup scrambled)
    (h : Advances L l i l') :
    (l'.Running → l'.Tidy W) ∧ ∃ us, l'.server.uses = l.server.uses ++ us ∧
      Run use (Proper W) l.table (l.opened i ++ us) l'.table := by
  rw [table_running h.running]
  by_cases hrunning : l'.Running
  · obtain ⟨s, hrun, hserver⟩ := moves_run h hl.inPlace hi
    have hserver := hserver hrunning
    have hreset : W → ∀ a ∈ l.moves L i, ¬ a.IsReset := by
      intro hW a ha hreset
      cases a with
      | reset scrambled => exact hhup hW scrambled (hup_of_moves ha)
      | _ => exact hreset
    have hpaired : W → l'.server.objects.Paired := fun hW => by
      rw [hserver]
      exact Run.paired (hrun.restrict (hreset hW)) hl.inPlace.wellFormed (hl.paired hW)
    have hplace := hl.inPlace.step hi h hrunning
    rw [table_running hrunning]
    by_cases haccept : ∃ c fd socket, i = .accept (.client c fd socket)
    · obtain ⟨c, fd, socket, rfl⟩ := haccept
      cases h with
      | accept hp =>
        obtain ⟨hnd, huse⟩ := hl.accepts hi
        refine ⟨fun _ => ⟨hplace, hnd, hpaired⟩, [], by rw [List.append_nil]; rfl, ?_⟩
        simp only [opened, hp]
        exact huse
    · have hsettles : Settles W l.server l'.server := by
        rw [hserver]
        refine Run.settles (hrun.restrict fun a ha hacc => ?_) hl.inPlace.wellFormed hl.paired hreset
        exact haccept (accepts_of_moves hacc ha)
      obtain ⟨us, hus, hproper⟩ := hsettles.uses
      obtain ⟨hnd, huse⟩ := hproper hl.nodup
      refine ⟨fun _ => ⟨hplace, hnd, hpaired⟩, us, hus, ?_⟩
      rw [opened_eq_nil fun c fd socket hi => haccept ⟨c, fd, socket, hi⟩]
      exact huse
  · obtain ⟨hnot, hleft⟩ := h.leaves hrunning
    refine ⟨fun h => absurd h hrunning, ?_⟩
    simp only [opened_eq_nil hnot, List.nil_append]
    rcases hleft with ⟨m, hm, rfl⟩ | ⟨hserver, hplace⟩
    · have htable : m.server.table = l.server.table := congrArg List.toFinset hm.fds
      rw [← htable, ← hm.uses]
      exact cleanExit_descriptors (hm.fds ▸ hl.nodup)
    · refine ⟨[], by rw [hserver, List.append_nil], ?_⟩
      rw [table, hplace, if_neg (by simp), hserver]
      exact .nil _

theorem Tidy.simulates (W : Prop) (L : LoopConfig) :
    Simulates (advance L) (fun l i => Promised L l i ∧ (W → ∀ scrambled, i ≠ .hup scrambled)) use
      (Proper W) (fun l => l.Running → l.Tidy W) (fun l table => table = l.table) (descriptors L) where
  preserved l i l' hl hi h hrunning :=
    ((hl (advance_cases h).running).step hi.1 hi.2 (advance_cases h)).1 hrunning
  simulated l i l' table hl htable hi h := by
    obtain ⟨-, us, hus, huse⟩ := (hl (advance_cases h).running).step hi.1 hi.2 (advance_cases h)
    refine ⟨l'.table, ?_, rfl⟩
    simp only [htable, descriptors, h, hus, List.drop_left]
    exact huse

end Steps

end CommLoop

end Esound
