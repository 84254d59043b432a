import Esound.Library.Loop
import Esound.State

/-!
# Mixing and format conversion

The functions of `mix.c` that work on blocks of sound. A mixed sample is an int
of `mixed_buffer`, two for every frame, left before right. The mix functions
differ in the width and the channels of the player, in whether they scale, and
in how they count through the block; the conversions differ in both widths and
channels. Each keeps its name from the source.
-/

open Library.Buffer Library.Loop

namespace Esound

/-- What assigning an int to a signed short keeps. -/
def short16 (x : ℤ) : ℤ := Int.bmod x (2 ^ 16)

/-- `wr_dat * src_rate / dst_rate`: both operands are unsigned, the result is kept in an int. -/
def rdDat (wr : ℕ) (srcRate dstRate : ℤ) : ℤ :=
  int32 (wr * srcRate % 2 ^ 32 / (dstRate % 2 ^ 32))

/-- `&= ~1`. -/
def evenDown (x : ℤ) : ℤ := x - x % 2

/-! ## Players into the mixed buffer -/

/-- A sample of an 8 bit player. -/
def widen8 (x : ℤ) : ℤ := short16 (short16 (x - 127) * 256)

/-- `sample * scale / ESD_VOLUME_BASE`, not yet assigned. -/
def scaled (x scale : ℤ) : ℤ := (int32 (x * scale)).tdiv esdVolumeBase

def addTo (mixed : ℕ → ℤ) (i : ℕ) (x : ℤ) : ℕ → ℤ :=
  Function.update mixed i (int32 (mixed i + x))

/-- The number of rounds of a loop that writes two entries a round. -/
def pairRounds (entries : ℕ) : ℕ := (entries + 1) / 2

/-- The mix loop that adds one frame a round, and its return value. -/
def mixFrames (frame : ℕ → ℤ × ℤ) (length : ℤ) (mixed : ℕ → ℤ) : (ℕ → ℤ) × ℤ :=
  let rounds := pairRounds (length.toNat / 2)
  (countUp rounds (fun i b =>
      addTo (addTo b (2 * i) (frame (2 * i)).1) (2 * i + 1) (frame (2 * i)).2) mixed,
    4 * rounds)

/-- The mix loop that adds one entry a round. -/
def mixEntries (entry : ℕ → ℤ) (length : ℤ) (mixed : ℕ → ℤ) : (ℕ → ℤ) × ℤ :=
  let rounds := length.toNat / 2
  (countUp rounds (fun i b => addTo b i (entry i)) mixed, 2 * rounds)

section players

variable (cfg : Config) (pl : EsdPlayer) (data : Mem) (length : ℤ) (mixed : ℕ → ℤ)

def mixMono8uToStereo32sSv : (ℕ → ℤ) × ℤ :=
  mixFrames (fun wr =>
    let sample := widen8 (data.octetAt ((rdDat wr pl.rate cfg.esdAudioRate).tdiv 2))
    (sample, sample)) length mixed

def mixStereo8uToStereo32sSv : (ℕ → ℤ) × ℤ :=
  if pl.rate = cfg.esdAudioRate then
    mixEntries (fun wr => short16 ((data.octetAt wr - 127) * 256)) length mixed
  else
    mixFrames (fun wr =>
      let rd := evenDown (rdDat wr pl.rate cfg.esdAudioRate)
      (widen8 (data.octetAt rd), widen8 (data.octetAt (rd + 1)))) length mixed

def mixMono16sToStereo32sSv : (ℕ → ℤ) × ℤ :=
  mixFrames (fun wr =>
    let sample := data.short ((rdDat wr pl.rate cfg.esdAudioRate).tdiv 2)
    (sample, sample)) length mixed

def mixStereo16sToStereo32sSv : (ℕ → ℤ) × ℤ :=
  if pl.rate = cfg.esdAudioRate then
    mixEntries (fun wr => data.short wr) length mixed
  else
    mixFrames (fun wr =>
      let rd := evenDown (rdDat wr pl.rate cfg.esdAudioRate)
      (data.short rd, data.short (rd + 1))) length mixed

/-- Both scales are applied to the one sample, and both channels get the result. -/
def mixMono8uToStereo32s : (ℕ → ℤ) × ℤ :=
  mixFrames (fun wr =>
    let sample := widen8 (data.octetAt ((rdDat wr pl.rate cfg.esdAudioRate).tdiv 2))
    let sample := short16 (scaled sample pl.leftVolScale)
    let sample := short16 (scaled sample pl.rightVolScale)
    (sample, sample)) length mixed

def mixStereo8uToStereo32s : (ℕ → ℤ) × ℤ :=
  if pl.rate = cfg.esdAudioRate then
    mixFrames (fun wr =>
      (short16 (scaled (short16 ((data.octetAt wr - 127) * 256)) pl.leftVolScale),
        short16 (scaled (short16 ((data.octetAt (wr + 1) - 127) * 256)) pl.rightVolScale)))
      length mixed
  else
    mixFrames (fun wr =>
      let rd := evenDown (rdDat wr pl.rate cfg.esdAudioRate)
      (short16 (scaled (widen8 (data.octetAt rd)) pl.leftVolScale),
        short16 (scaled (widen8 (data.octetAt (rd + 1))) pl.rightVolScale))) length mixed

/-- The scaled sample goes into the sum without passing through a short. -/
def mixMono16sToStereo32s : (ℕ → ℤ) × ℤ :=
  mixFrames (fun wr =>
    let sample := data.short ((rdDat wr pl.rate cfg.esdAudioRate).tdiv 2)
    (scaled sample pl.leftVolScale, scaled sample pl.rightVolScale)) length mixed

def mixStereo16sToStereo32s : (ℕ → ℤ) × ℤ :=
  if pl.rate = cfg.esdAudioRate then
    mixFrames (fun wr =>
      (short16 (scaled (data.short wr) pl.leftVolScale),
        short16 (scaled (data.short (wr + 1)) pl.rightVolScale))) length mixed
  else
    mixFrames (fun wr =>
      let rd := evenDown (rdDat wr pl.rate cfg.esdAudioRate)
      (short16 (scaled (data.short rd) pl.leftVolScale),
        short16 (scaled (data.short (rd + 1)) pl.rightVolScale))) length mixed

/-- The call through `player->mix_func`. -/
def MixFunc.apply (f : MixFunc) : (ℕ → ℤ) × ℤ :=
  match f with
  | .mono8uSv => mixMono8uToStereo32sSv cfg pl data length mixed
  | .stereo8uSv => mixStereo8uToStereo32sSv cfg pl data length mixed
  | .mono16sSv => mixMono16sToStereo32sSv cfg pl data length mixed
  | .stereo16sSv => mixStereo16sToStereo32sSv cfg pl data length mixed
  | .mono8u => mixMono8uToStereo32s cfg pl data length mixed
  | .stereo8u => mixStereo8uToStereo32s cfg pl data length mixed
  | .mono16s => mixMono16sToStereo32s cfg pl data length mixed
  | .stereo16s => mixStereo16sToStereo32s cfg pl data length mixed

end players

def getMixFunc (pl : EsdPlayer) : Option MixFunc :=
  let unity := pl.leftVolScale = esdVolumeBase ∧ pl.rightVolScale = esdVolumeBase
  if pl.format &&& esdMaskBits = esdBits8 then
    if pl.format &&& esdMaskChan = esdMono then
      if unity then some .mono8uSv else some .mono8u
    else if pl.format &&& esdMaskChan = esdStereo then
      if unity then some .stereo8uSv else some .stereo8u
    else none
  else if pl.format &&& esdMaskBits = esdBits16 then
    if pl.format &&& esdMaskChan = esdMono then
      if unity then some .mono16sSv else some .mono16s
    else if pl.format &&& esdMaskChan = esdStereo then
      if unity then some .stereo16sSv else some .stereo16s
    else none
  else none

def esdSampleSize (format : Word) : ℕ := if format &&& esdMaskBits = esdBits16 then 2 else 1

/-! ## The mixed buffer into the output -/

def clipMixToOutput16s (mixed : ℕ → ℤ) (output : Mem) (length : ℤ) : Mem :=
  countUp (length.toNat / 2) (fun i out =>
    out.setShort i
      (if mixed i < -32768 then -32768 else if mixed i > 32767 then 32767 else mixed i)) output

def clipMixToOutput8u (mixed : ℕ → ℤ) (output : Mem) (length : ℤ) : Mem :=
  countUp (length.toNat / 2) (fun i out =>
    out.setOctet i
      (if mixed i < -32768 then 0 else if mixed i > 32767 then 255
        else (mixed i).tdiv 256 + 128)) output

/-! ## From one format to another -/

def getTranslateFunc (srcFmt : Word) : TranslateFunc :=
  if srcFmt &&& esdMaskChan = esdMono then
    if srcFmt &&& esdMaskBits = esdBits16 then .fromMono16s else .fromMono8u
  else if srcFmt &&& esdMaskBits = esdBits16 then .fromStereo16s else .fromStereo8u

/-- The loops that write one or two octets, or one or two shorts, a round. -/
def writeOctets (entry : ℕ → ℤ) (destLen : ℕ) (dest : Mem) : Mem × ℤ :=
  (countUp destLen (fun i m => m.setOctet i (entry i)) dest, destLen)

def writeOctetPairs (pair : ℕ → ℤ × ℤ) (destLen : ℕ) (dest : Mem) : Mem × ℤ :=
  (countUp (pairRounds destLen) (fun i m =>
      (m.setOctet (2 * i) (pair (2 * i)).1).setOctet (2 * i + 1) (pair (2 * i)).2) dest,
    2 * pairRounds destLen)

def writeShorts (entry : ℕ → ℤ) (destLen : ℕ) (dest : Mem) : Mem × ℤ :=
  (countUp (destLen / 2) (fun i m => m.setShort i (entry i)) dest, 2 * (destLen / 2 : ℕ))

def writeShortPairs (pair : ℕ → ℤ × ℤ) (destLen : ℕ) (dest : Mem) : Mem × ℤ :=
  (countUp (pairRounds (destLen / 2)) (fun i m =>
      (m.setShort (2 * i) (pair (2 * i)).1).setShort (2 * i + 1) (pair (2 * i)).2) dest,
    4 * pairRounds (destLen / 2))

/-- `memcpy( dest, src, dest_len )`. -/
def copyOctets (src : Mem) (destLen : ℕ) (dest : Mem) : Mem × ℤ :=
  (store dest 0 (load src 0 destLen), destLen)

/-- A 16 bit sample as an 8 bit one. -/
def narrow16 (x : ℤ) : ℤ := short16 (x.tdiv 256 + 127)

section translate

variable (dest : Mem) (destLen : ℕ) (destRate : ℤ) (destFormat : Word) (src : Mem)
  (srcLen srcRate : ℤ)

def mixFromStereo16s : Mem × ℤ :=
  let rd wr := rdDat wr srcRate destRate
  if srcLen = 0 then (dest, 0)
  else if destFormat &&& esdMaskBits = esdBits8 then
    if destFormat &&& esdMaskChan = esdMono then
      writeOctets (fun wr =>
        let i := int32 (rd wr * 2)
        (narrow16 (src.short i) + narrow16 (src.short (i + 1))).tdiv 2) destLen dest
    else
      writeOctetPairs (fun wr =>
        let i := evenDown (rd wr)
        (narrow16 (src.short i), narrow16 (src.short (i + 1)))) destLen dest
  else if destFormat &&& esdMaskBits = esdBits16 then
    if destFormat &&& esdMaskChan = esdMono then
      writeShorts (fun wr =>
        let i := int32 (rd wr * 2)
        (src.short i + src.short (i + 1)).tdiv 2) destLen dest
    else if destRate = srcRate then copyOctets src destLen dest
    else
      writeShortPairs (fun wr =>
        let i := evenDown (rd wr)
        (src.short i, src.short (i + 1))) destLen dest
  else (dest, 0)

def mixFromStereo8u : Mem × ℤ :=
  let rd wr := rdDat wr srcRate destRate
  if srcLen = 0 then (dest, 0)
  else if destFormat &&& esdMaskBits = esdBits8 then
    if destFormat &&& esdMaskChan = esdMono then
      writeOctets (fun wr =>
        let i := int32 (rd wr * 2)
        (src.octetAt i + src.octetAt (i + 1)).tdiv 2) destLen dest
    else if destRate = srcRate then copyOctets src destLen dest
    else
      writeOctetPairs (fun wr =>
        let i := evenDown (rd wr)
        (src.octetAt i, src.octetAt (i + 1))) destLen dest
  else if destFormat &&& esdMaskBits = esdBits16 then
    if destFormat &&& esdMaskChan = esdMono then
      writeShorts (fun wr =>
        let i := int32 (rd wr * 2)
        ((src.octetAt i - 127 + (src.octetAt (i + 1) - 127)) * 256).tdiv 2) destLen dest
    else
      writeShortPairs (fun wr =>
        let i := evenDown (rd wr)
        ((src.octetAt i - 127) * 256, (src.octetAt (i + 1) - 127) * 256)) destLen dest
  else (dest, 0)

def mixFromMono16s : Mem × ℤ :=
  let rd wr := rdDat wr srcRate destRate
  if srcLen = 0 then (dest, 0)
  else if destFormat &&& esdMaskBits = esdBits8 then
    if destFormat &&& esdMaskChan = esdMono then
      writeOctets (fun wr => narrow16 (src.short (rd wr))) destLen dest
    else
      writeOctetPairs (fun wr =>
        let sample := narrow16 (src.short ((rd wr).tdiv 2))
        (sample, sample)) destLen dest
  else if destFormat &&& esdMaskBits = esdBits16 then
    if destFormat &&& esdMaskChan = esdMono then
      if destRate = srcRate then copyOctets src destLen dest
      else writeShorts (fun wr => src.short (rd wr)) destLen dest
    else
      writeShortPairs (fun wr =>
        let sample := src.short ((rd wr).tdiv 2)
        (sample, sample)) destLen dest
  else (dest, 0)

def mixFromMono8u : Mem × ℤ :=
  let rd wr := rdDat wr srcRate destRate
  if srcLen = 0 then (dest, 0)
  else if destFormat &&& esdMaskBits = esdBits8 then
    if destFormat &&& esdMaskChan = esdMono then
      if destRate = srcRate then copyOctets src destLen dest
      else writeOctets (fun wr => src.octetAt (rd wr)) destLen dest
    else
      writeOctetPairs (fun wr =>
        let sample := src.octetAt ((rd wr).tdiv 2)
        (sample, sample)) destLen dest
  else if destFormat &&& esdMaskBits = esdBits16 then
    if destFormat &&& esdMaskChan = esdMono then
      writeShorts (fun wr => short16 ((src.octetAt (rd wr) - 127) * 256)) destLen dest
    else
      writeShortPairs (fun wr =>
        let sample := short16 ((src.octetAt ((rd wr).tdiv 2) - 127) * 256)
        (sample, sample)) destLen dest
  else (dest, 0)

/-- The call through a `translate_func`: the block written and its length. -/
def TranslateFunc.apply (f : TranslateFunc) : Mem × ℤ :=
  match f with
  | .fromStereo16s => mixFromStereo16s dest destLen destRate destFormat src srcLen srcRate
  | .fromStereo8u => mixFromStereo8u dest destLen destRate destFormat src srcLen srcRate
  | .fromMono16s => mixFromMono16s dest destLen destRate destFormat src srcLen srcRate
  | .fromMono8u => mixFromMono8u dest destLen destRate destFormat src srcLen srcRate

end translate

/-! ## How much a mix function mixes -/

theorem mixFrames_return (frame : ℕ → ℤ × ℤ) (length : ℤ) (mixed : ℕ → ℤ) :
    0 ≤ (mixFrames frame length mixed).2 ∧ (mixFrames frame length mixed).2 ≤ length.toNat + 2 := by
  simp only [mixFrames, pairRounds]
  omega

theorem mixEntries_return (entry : ℕ → ℤ) (length : ℤ) (mixed : ℕ → ℤ) :
    0 ≤ (mixEntries entry length mixed).2 ∧
      (mixEntries entry length mixed).2 ≤ length.toNat + 2 := by
  simp only [mixEntries]
  omega

/-- A mix function mixes at most the frame that the length ends in. -/
theorem MixFunc.apply_return (cfg : Config) (pl : EsdPlayer) (data : Mem) (length : ℤ)
    (mixed : ℕ → ℤ) (f : MixFunc) :
    0 ≤ (f.apply cfg pl data length mixed).2 ∧
      (f.apply cfg pl data length mixed).2 ≤ length.toNat + 2 := by
  have hf := mixFrames_return
  have he := mixEntries_return
  cases f <;>
    simp only [apply, mixMono8uToStereo32sSv, mixStereo8uToStereo32sSv, mixMono16sToStereo32sSv,
      mixStereo16sToStereo32sSv, mixMono8uToStereo32s, mixStereo8uToStereo32s,
      mixMono16sToStereo32s, mixStereo16sToStereo32s] <;>
    (try split_ifs) <;> first | exact hf _ _ _ | exact he _ _ _

end Esound
