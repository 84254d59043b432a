import Esound.Library.Reading
import Esound.Proto

/-!
# The client library

What the calls of `esdlib.c` and `esdmgr.c` read from the connection, for a client whose
ints have the daemon's byte order and whose reads are complete. A call that finds less
than it reads for fails.
-/

open Library.Buffer Library.Reading

namespace Esound

abbrev ClientRead (α : Type) := Reader Octet α

def Word.ofList : List Octet → Word
  | [b₀, b₁, b₂, b₃] => ofOctets b₀ b₁ b₂ b₃
  | _ => 0#32

def readFormat : ClientRead Word := Word.ofList <$> take 4

def readInt : ClientRead ℤ := BitVec.toInt <$> readFormat

/-- The string in an array of `ESD_NAME_MAX` whose last octet is cleared after the read. -/
def readName : ClientRead (List Octet) :=
  (fun octets => (octets.take (esdNameMax - 1)).takeWhile (· ≠ 0)) <$> take esdNameMax

structure EsdServerInfo where
  version : ℤ
  rate : ℤ
  format : Word
  deriving DecidableEq

structure EsdPlayerInfo where
  sourceId : ℤ
  name : List Octet
  rate : ℤ
  leftVolScale : ℤ
  rightVolScale : ℤ
  format : Word
  deriving DecidableEq

structure EsdSampleInfo where
  sampleId : ℤ
  name : List Octet
  rate : ℤ
  leftVolScale : ℤ
  rightVolScale : ℤ
  format : Word
  length : ℤ
  deriving DecidableEq

structure EsdInfo where
  server : EsdServerInfo
  playerList : List EsdPlayerInfo
  sampleList : List EsdSampleInfo
  deriving DecidableEq

def readServerInfo : ClientRead EsdServerInfo := do
  let version ← readInt
  let rate ← readInt
  let format ← readFormat
  return ⟨version, rate, format⟩

def readPlayerInfo : ClientRead EsdPlayerInfo := do
  let sourceId ← readInt
  let name ← readName
  let rate ← readInt
  let left ← readInt
  let right ← readInt
  let format ← readFormat
  return ⟨sourceId, name, rate, left, right, format⟩

def readSampleInfo : ClientRead EsdSampleInfo := do
  let sampleId ← readInt
  let name ← readName
  let rate ← readInt
  let left ← readInt
  let right ← readInt
  let format ← readFormat
  let length ← readInt
  return ⟨sampleId, name, rate, left, right, format, length⟩

/-- The reading part of the call; the lists are built from the front. -/
def esdGetAllInfo : ClientRead EsdInfo := do
  let server ← readServerInfo
  let players ← allRows readPlayerInfo fun info => 0 < info.sourceId
  let samples ← allRows readSampleInfo fun info => 0 < info.sampleId
  return ⟨server, players, samples⟩

/-! ## What the readers read -/

theorem reads_format (w : Word) : Reads readFormat (Word.octets w) w := by
  have htake : Reads (take 4) (Word.octets w) (Word.octets w) := reads_take rfl
  have hword : Word.ofList (Word.octets w) = w := Word.ofOctets_octets w
  have hread := htake.map (f := Word.ofList)
  rwa [hword] at hread

theorem nameArray_length {name : List Octet} (h : IsName name) :
    (nameArray name).length = esdNameMax := by
  have hlt := h.1
  simp only [nameArray, List.length_append, List.length_replicate]
  omega

theorem reads_name {name : List Octet} (h : IsName name) : Reads readName (nameArray name) name := by
  obtain ⟨hlt, hzero⟩ := h
  have hstring : ((nameArray name).take (esdNameMax - 1)).takeWhile (· ≠ 0) = name := by
    have hfill : (nameArray name).take (esdNameMax - 1) =
        name ++ List.replicate (esdNameMax - 1 - name.length) 0 := by
      simp only [nameArray, List.take_append, List.take_replicate]
      rw [List.take_of_length_le (by omega)]
      congr 2
      omega
    rw [hfill, List.takeWhile_append_of_pos]
    · simp
    · intro b hb
      exact decide_eq_true fun he => hzero (he ▸ hb)
  have hread := (reads_take (nameArray_length ⟨hlt, hzero⟩)).map
    (f := fun octets => (octets.take (esdNameMax - 1)).takeWhile (· ≠ 0))
  rwa [hstring] at hread

end Esound
