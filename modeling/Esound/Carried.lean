import Esound.Turns

/-!
# What the main loop works on

Reading, mixing, filtering and writing touch the contents of buffers, the kernel's side of
the sockets, and of a player how far it has been read and what its buffer holds. A relation
that carries these, and the loss of a client, is carried by the whole of the main loop once
it is carried by the players that are taken off their lists.
-/

open Library.Buffer Library.Loop

namespace Esound

/-- Only buffers, sockets and the record of what was done differ. -/
structure Behind (s t : Server) : Prop where
  rest : t =
    { s with
      playerData := t.playerData
      sockets := t.sockets
      events := t.events
      esdFirstFilterFunc := t.esdFirstFilterFunc
      mixedBuffer := t.mixedBuffer
      outputBuffer := t.outputBuffer }

/-- What working on a player may change. -/
structure EsdPlayer.Worked (u v : EsdPlayer) : Prop where
  rest : v =
    { u with
      actualLength := v.actualLength
      lastPos := v.lastPos
      translateFunc := v.translateFunc }

namespace EsdPlayer.Worked

variable {u v w : EsdPlayer}

theorem refl (u : EsdPlayer) : u.Worked u := ⟨rfl⟩

theorem trans (h : u.Worked v) (h' : v.Worked w) : u.Worked w := by
  have hrest := h'.rest
  rw [h.rest] at hrest
  exact ⟨hrest⟩

theorem sameKind (h : u.Worked v) : v.SameKind u := by
  rw [h.rest]
  exact ⟨rfl, rfl, rfl, rfl, rfl⟩

theorem name (h : u.Worked v) : v.name = u.name := by rw [h.rest]

end EsdPlayer.Worked

structure Carried (R : Server → Server → Prop) : Prop where
  behind : ∀ s t, Behind s t → R s t
  players : ∀ s f, (∀ p, (s.player p).Worked (f p)) → R s { s with player := f }
  client : ∀ s c, R s (eraseClient s c)
  trans : ∀ s t u, R s t → R t u → R s u

/-! ## Reading a sample -/

/-- Reading a sample moves the position of the player and fills its buffer. -/
structure EsdPlayer.Moved (u v : EsdPlayer) : Prop where
  rest : v = { u with lastPos := v.lastPos, actualLength := v.actualLength }

namespace EsdPlayer.Moved

variable {u v w : EsdPlayer}

theorem trans (h : u.Moved v) (h' : v.Moved w) : u.Moved w := by
  have hrest := h'.rest
  rw [h.rest] at hrest
  exact ⟨hrest⟩

theorem name (h : u.Moved v) : v.name = u.name := by rw [h.rest]

theorem format (h : u.Moved v) : v.format = u.format := by rw [h.rest]

end EsdPlayer.Moved

theorem wrapChunk_moved (sm : EsdSample) (r : SampleRead) : r.pl.Moved (wrapChunk sm r).pl := by
  simp only [wrapChunk]
  split_ifs <;> exact ⟨rfl⟩

theorem loopRound_moved {sm : EsdSample} {m : Mem} {r r' : SampleRead}
    (h : loopRound sm m r = some r') : r.pl.Moved r'.pl := by
  have hwrap : r.pl.Moved (wrapChunk sm r).pl := wrapChunk_moved sm r
  have hcopy : ∀ n, (wrapChunk sm r).pl.Moved (copyChunk m n (wrapChunk sm r)).pl :=
    fun n => ⟨rfl⟩
  simp only [loopRound] at h
  split_ifs at h
  · cases h
    exact (hwrap.trans (hcopy _)).trans (wrapChunk_moved _ _)
  · cases h
    exact hwrap
  · cases h
    exact hwrap

theorem fillFromSample_moved (sm : EsdSample) (m : Mem) (pl : EsdPlayer) (data : Mem) :
    pl.Moved (fillFromSample sm m pl data).pl := by
  have hcopy : pl.Moved (copyChunk m (sampleChunk sm pl) ⟨pl, data, 0, true⟩).pl := ⟨rfl⟩
  simp only [fillFromSample]
  split_ifs
  · exact hcopy
  · exact whileFuel_invariant (fun r : SampleRead => pl.Moved r.pl)
      (fun r r' hr h => hr.trans (loopRound_moved h)) _ hcopy

theorem EsdPlayer.Moved.worked {u v : EsdPlayer} (h : u.Moved v) : u.Worked v := by
  rw [h.rest]
  exact ⟨rfl⟩

namespace Carried

variable {R : Server → Server → Prop} (hR : Carried R) {cfg : Config} {s : Server} {p : Ptr}

include hR

theorem refl (s : Server) : R s s := hR.behind s s ⟨rfl⟩

theorem setPlayer {v : EsdPlayer} (h : (s.player p).Worked v) : R s (s.setPlayer p v) := by
  refine hR.players s _ fun p' => ?_
  rcases eq_or_ne p' p with rfl | hne
  · simpa using h
  · simpa [hne] using EsdPlayer.Worked.refl _

theorem setPlayerData (p : Ptr) (m : Mem) : R s (s.setPlayerData p m) := hR.behind _ _ ⟨rfl⟩

theorem emit (e : Event) : R s (s.emit e) := hR.behind _ _ ⟨rfl⟩

theorem sysWrite (fd : ℤ) (octets : List Octet) : R s (s.sysWrite fd octets).1 :=
  hR.behind _ _ ⟨rfl⟩

theorem foldl {f : Server × ℤ → Ptr → Server × ℤ} {ps : List Ptr} {a : Server × ℤ}
    (hone : ∀ acc p, R acc.1 (f acc p).1) : R a.1 (ps.foldl f a).1 := by
  induction ps generalizing a with
  | nil => exact hR.refl _
  | cons p ps ih => exact hR.trans _ _ _ (hone a p) ih

/-! ## Players -/

theorem hearStream : R s (hearStream s p).1 := hR.behind _ _ ⟨rfl⟩

theorem readPlayer (canRead : Bool) (p : Ptr) : R s (readPlayer canRead s p).1 := by
  have hhear : R s (Esound.hearStream s p).1 := hR.hearStream
  simp only [Esound.readPlayer, readStream, readSamplePlayer]
  split_ifs
  · exact hhear
  · exact hhear
  · exact hR.trans _ _ _ (hR.trans _ _ _ hhear (hR.setPlayerData p _)) (hR.setPlayer ⟨rfl⟩)
  · exact hR.refl s
  · exact hR.refl s
  · exact hR.trans _ _ _ (hR.setPlayerData p _) (hR.setPlayer (fillFromSample_moved _ _ _ _).worked)
  · exact hR.refl s
  · exact hR.refl s

theorem consume (p : Ptr) (used : ℤ) : R s (consume s p used) := by
  simp only [Esound.consume]
  split_ifs
  · exact hR.trans _ _ _ (hR.trans _ _ _ (hR.setPlayerData p _) (hR.setPlayer ⟨rfl⟩)) (hR.emit _)
  · exact hR.trans _ _ _ (hR.setPlayer ⟨rfl⟩) (hR.emit _)

theorem mixOne (length : ℤ) (acc : Server × ℤ) (p : Ptr) :
    R acc.1 (mixOne cfg length acc p).1 := by
  have hmixed : ∀ m, R acc.1 { acc.1 with mixedBuffer := m } := fun m => hR.behind _ _ ⟨rfl⟩
  simp only [Esound.mixOne]
  split
  · exact hR.refl _
  · split_ifs
    · exact hR.trans _ _ _ (hmixed _) (hR.consume p _)
    · exact hR.refl _

theorem mixReadOne (herase : ∀ s p, R s (erasePlayer s p)) (canRead : Ptr → Bool) (length : ℤ)
    (acc : Server × ℤ) (p : Ptr) : R acc.1 (mixReadOne cfg canRead length acc p).1 := by
  have hread : R acc.1 (Esound.readPlayer (canRead p) acc.1 p).1 := hR.readPlayer _ p
  simp only [Esound.mixReadOne]
  split_ifs
  · exact hread
  · exact hR.trans _ _ _ hread (herase _ p)
  · exact hread
  · exact hread
  · exact hread

theorem mixPlayers (herase : ∀ s p, R s (erasePlayer s p)) (canRead : Ptr → Bool) :
    R s (mixPlayers cfg canRead s).1 := by
  have hclear : R s (clearMix cfg s) := hR.behind _ _ ⟨rfl⟩
  have hread : R s (mixRead cfg canRead s).1 :=
    hR.trans _ _ _ hclear (hR.foldl (f := Esound.mixReadOne cfg canRead cfg.esdBufSizeOctets)
      (a := (clearMix cfg s, 0)) fun acc p => hR.mixReadOne herase canRead _ acc p)
  have hall : ∀ least u, R u (mixAll cfg least u).1 := fun least u =>
    hR.foldl (f := Esound.mixOne cfg least) (a := (u, 0)) fun acc p => hR.mixOne least acc p
  have hclip : ∀ u m, R u { u with outputBuffer := m } := fun u m => hR.behind _ _ ⟨rfl⟩
  simp only [Esound.mixPlayers, clipMix]
  split_ifs
  · exact hR.trans _ _ _ (hR.trans _ _ _ hread (hall _ _)) (hclip _ _)
  · exact hR.trans _ _ _ (hR.trans _ _ _ hread (hall _ _)) (hclip _ _)
  · exact hread

theorem refreshMixFuncs : R s (refreshMixFuncs s) := by
  simp only [Esound.refreshMixFuncs]
  split_ifs
  · exact hR.refl s
  · have hfirst : R s { s with esdFirstFilterFunc := some (getTranslateFunc s.esdAudioFormat) } :=
      hR.behind _ _ ⟨rfl⟩
    refine hR.trans _ _ _ hfirst (hR.players _ _ fun p => ?_)
    split_ifs <;> exact ⟨rfl⟩

/-! ## Filters -/

theorem filterSend (p : Ptr) (dataSize : ℤ) : R s (filterSend s p dataSize).srv := by
  refine whileFuel_invariant (fun r : FilterWrite => R s r.srv) (fun r r' hr h => ?_) _ (hR.refl s)
  simp only [filterWriteRound] at h
  split_ifs at h <;> cases h <;> exact hR.trans _ _ _ hr (hR.sysWrite _ _)

theorem filterExchange (canRead : Bool) (p : Ptr) (dataSize : ℤ) :
    R s (filterExchange canRead s p dataSize).1 := by
  have hsend : R s (Esound.filterSend s p dataSize).srv := hR.filterSend p dataSize
  have hread := hR.trans _ _ _ hsend (hR.readPlayer canRead p)
  simp only [Esound.filterExchange]
  split_ifs
  · exact hsend
  · exact hR.trans _ _ _ hread (hR.setPlayer ⟨rfl⟩)
  · exact hread

theorem filterTranslate (size : ℤ) (p : Ptr) (next : Option Ptr) :
    R s (filterTranslate cfg size s p next).1 := by
  simp only [Esound.filterTranslate]
  split
  · exact hR.refl s
  · cases next <;> exact hR.behind _ _ ⟨rfl⟩

theorem filterOne (herase : ∀ s p, R s (eraseFilter s p)) (canRead : Bool) (size : ℤ) (p : Ptr)
    (next : Option Ptr) (dataSize : ℤ) : R s (filterOne cfg canRead size s p next dataSize).1 := by
  have hexchange : R s (Esound.filterExchange canRead s p dataSize).1 :=
    hR.filterExchange canRead p dataSize
  have htranslate : ∀ u, R u (Esound.filterTranslate cfg size u p next).1 := fun u =>
    hR.filterTranslate size p next
  simp only [Esound.filterOne]
  split_ifs
  · exact hR.trans _ _ _ (hR.trans _ _ _ hexchange (htranslate _)) (herase _ p)
  · exact hR.trans _ _ _ hexchange (htranslate _)

theorem filterLoop (herase : ∀ s p, R s (eraseFilter s p)) (canRead : Ptr → Bool) (size : ℤ)
    (ps : List Ptr) (dataSize : ℤ) : R s (filterLoop cfg canRead size ps s dataSize).1 := by
  induction ps generalizing s dataSize with
  | nil => exact hR.refl s
  | cons p ps ih => exact hR.trans _ _ _ (hR.filterOne herase _ _ _ _ _) (ih _)

theorem filterWrite (herase : ∀ s p, R s (eraseFilter s p)) (canRead : Ptr → Bool) (size : ℤ) :
    R s (filterWrite cfg canRead s size).1 := by
  simp only [Esound.filterWrite, filterFirst]
  split
  · exact hR.refl s
  · rename_i h
    split at h
    · cases h
      exact hR.trans _ _ _ (hR.setPlayerData _ _) (hR.filterLoop herase canRead size _ _)
    · cases h

/-! ## Monitors and recorders -/

theorem translateInto (length : ℤ) (p : Ptr) : R s (translateInto cfg s p length).1 := by
  simp only [Esound.translateInto]
  split
  · exact hR.refl s
  · exact hR.setPlayerData _ _

theorem writeBuffer (p : Ptr) : R s (writeBuffer s p).1 := hR.sysWrite _ _

theorem writePlayer (poll : RecorderPoll) (p : Ptr) (length : ℤ) :
    R s (writePlayer cfg poll s p length).1 := by
  have hinto : R s (Esound.translateInto cfg s p length).1 := hR.translateInto length p
  have hwrite : ∀ m, R s (Esound.writeBuffer
      ((Esound.translateInto cfg s p length).1.setPlayerData p m) p).1 := fun m =>
    hR.trans _ _ _ (hR.trans _ _ _ hinto (hR.setPlayerData p m)) (hR.writeBuffer p)
  simp only [Esound.writePlayer]
  split_ifs
  · exact hR.refl s
  · exact hwrite _
  · exact hwrite _
  · exact hwrite _
  · exact hwrite _
  · exact hR.refl s
  · exact hR.refl s

theorem monitorOne (herase : ∀ s p, R s (eraseMonitor s p)) (canWrite : Ptr → Bool)
    (acc : Server × ℤ) (p : Ptr) : R acc.1 (monitorOne cfg canWrite acc p).1 := by
  have hwrite : R acc.1 (Esound.writeBuffer (Esound.translateInto cfg acc.1 p acc.2).1 p).1 :=
    hR.trans _ _ _ (hR.translateInto _ p) (hR.writeBuffer p)
  simp only [Esound.monitorOne]
  split_ifs
  · exact hR.trans _ _ _ (hR.trans _ _ _ hwrite (hR.client _ _)) (herase _ p)
  · exact hwrite
  · exact hR.refl _

theorem monitorWrite (herase : ∀ s p, R s (eraseMonitor s p)) (canWrite : Ptr → Bool) (length : ℤ) :
    R s (monitorWrite cfg canWrite s length) :=
  hR.foldl (f := Esound.monitorOne cfg canWrite) (a := (s, length)) fun acc p =>
    hR.monitorOne herase canWrite acc p

theorem recorderOne (herase : ∀ s p, R s (eraseRecorder s p)) (poll : Ptr → RecorderPoll)
    (length : ℤ) (acc : Server × ℤ) (p : Ptr) : R acc.1 (recorderOne cfg poll length acc p).1 := by
  have hwrite : R acc.1 (Esound.writePlayer cfg (poll p) acc.1 p length).1 :=
    hR.writePlayer (poll p) p length
  simp only [Esound.recorderOne]
  split_ifs
  · exact hR.trans _ _ _ (hR.trans _ _ _ hwrite (hR.client _ _)) (herase _ p)
  · exact hwrite

/-- When the last recorder has gone the device is opened again. -/
theorem recorderWrite (herase : ∀ s p, R s (eraseRecorder s p))
    (hdevice : ∀ (s : Server) fd format size,
      R s { s with audioFd := fd, esdAudioFormat := format, esdWriteSize := size })
    (poll : Ptr → RecorderPoll) (reopen : Option ℤ) (length : ℤ) :
    R s (recorderWrite cfg poll reopen s length).1 := by
  have hrows : R s (s.esdRecorderList.foldl (Esound.recorderOne cfg poll length) (s, 0)).1 :=
    hR.foldl (a := (s, 0)) fun acc p => hR.recorderOne herase poll length acc p
  have hopen : ∀ (u : Server) r, R u (esdAudioOpen { esdAudioClose u with
      esdAudioFormat := (esdAudioClose u).esdAudioFormat &&& ~~~esdRecord } r).1 := by
    intro u r
    cases r
    · exact hdevice u none _ u.esdWriteSize
    · exact hdevice u _ _ _
  simp only [Esound.recorderWrite]
  split_ifs
  · exact hR.trans _ _ _ hrows (hopen _ _)
  · exact hrows

end Carried

end Esound
