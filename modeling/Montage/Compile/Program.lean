import Montage.Compile.Video
import Montage.Graph.Program

/-!
# The sound, and the program of a clip

The audio graph of a clip: the source at its volume and tempo, or silence; then enhancement, music
and sound effects, each only if asked for. Its union with the video graph is the program.
-/

/-!
## Tempo

A change of tempo as a chain of factors that each stay within the limits of one filter.
-/

namespace Montage.Tempo

/-- The greatest factor of one filter. -/
def most : Binary64 := 2

/-- The least factor of one filter. -/
def least : Binary64 := 0.5

/-- Remainders closer to one than this are left out. -/
def tolerance : Binary64 := 0.000000001

/-- More steps than any finite number allows in either direction. -/
def steps : Nat := 1100

/-- Takes the factor `most` out of `rest` as long as it is greater. -/
def takeMost : Nat → Binary64 → List Binary64 × Binary64
  | 0, rest => ([], rest)
  | n + 1, rest =>
      if most < rest then
        let (factors, rest) := takeMost n (rest / most)
        (most :: factors, rest)
      else ([], rest)

/-- Takes the factor `least` out of `rest` as long as it is smaller. -/
def takeLeast : Nat → Binary64 → List Binary64 × Binary64
  | 0, rest => ([], rest)
  | n + 1, rest =>
      if rest < least then
        let (factors, rest) := takeLeast n (rest / least)
        (least :: factors, rest)
      else ([], rest)

/-- The factors of a tempo; none for what is no finite positive number. -/
def factors (speed : Binary64) : List Binary64 :=
  if speed.isFinite ∧ Binary64.lt 0 speed then
    let (most, rest) := takeMost steps speed
    let (least, rest) := takeLeast steps rest
    most ++ least ++ if tolerance.lt (rest - 1).abs then [rest] else []
  else []

end Montage.Tempo

/-! ## The graph -/

namespace Montage.Audio

open Montage.Filter (withArgs)

/-- The common form of everything that is mixed. -/
def sampleFormat : Filter := withArgs "aformat" "sample_rates=48000:channel_layouts=stereo"

/-- The level of music beside speech when neither gives way. -/
def musicWeight : Binary64 := 0.6

/-- The first node: the sound of the source, or silence as long as the clip. -/
def primary (clip : Clip) (probe : Probe) (b : Builder) : Outcome (Builder × Pad) := do
  if probe.hasAudio then
    let (b, source) ← b.take .audio 0
    let volume : Binary64 := if clip.mute then 0 else clip.volume
    return b.node .audio .primary [source]
      ([withArgs "volume" (Decimal.fixed 3 volume)] ++
        (Tempo.factors clip.speed).map (fun f => withArgs "atempo" (Decimal.fixed 6 f)) ++
        [sampleFormat])
  else
    return b.generator .audio .primary
      [withArgs "anullsrc" "r=48000:cl=stereo",
       withArgs "atrim" s!"duration={Decimal.fixed 3 clip.durationSeconds}"]

/-- Less noise and an even loudness, if asked for. -/
def enhance (clip : Clip) (b : Builder) (pad : Pad) : Builder × Pad :=
  if clip.enhanceAudio then
    b.node .audio .enhance [pad]
      [withArgs "highpass" "f=80", withArgs "afftdn" "nf=-25",
       withArgs "loudnorm" "I=-16:TP=-1.5:LRA=11"]
  else (b, pad)

/-- The filters that prepare music: cut to the clip, at its volume, with its fades. A fade takes at
most half the clip. -/
def musicFilters (clip : Clip) (music : Music) : List Filter :=
  let duration := clip.durationSeconds
  let fade := Window.seconds (min music.fadeMs (clip.durationMs / 2))
  [withArgs "atrim" s!"duration={Decimal.fixed 3 duration}",
   withArgs "asetpts" "PTS-STARTPTS",
   withArgs "volume" (Decimal.fixed 3 music.volume)] ++
    (if music.fadeIn && Binary64.lt 0 fade then
      [withArgs "afade" s!"t=in:st=0:d={Decimal.fixed 3 fade}"]
    else []) ++
    (if music.fadeOut && Binary64.lt 0 fade then
      [withArgs "afade" s!"t=out:st={Decimal.fixed 3 (duration - fade)}:d={Decimal.fixed 3 fade}"]
    else []) ++
    [sampleFormat]

/-- Prepared music under the sound so far. -/
def mixFlat (b : Builder) (pad prepared : Pad) : Builder × Pad :=
  b.node .audio .mix [pad, prepared]
    [withArgs "amix"
      s!"inputs=2:duration=first:weights='1 {Decimal.plain musicWeight}':normalize=0"]

/-- Prepared music under the sound so far, which also pushes the music down. -/
def mixDucked (b : Builder) (pad prepared : Pad) : Outcome (Builder × Pad) :=
  match b.fanOut .audio .mix [pad] [withArgs "asplit" "2"] 2 with
  | (b, main :: reference :: _) =>
      let (b, ducked) := b.node .audio .mix [prepared, reference]
        [withArgs "sidechaincompress" "threshold=0.05:ratio=8:attack=20:release=300"]
      return b.node .audio .mix [main, ducked]
        [withArgs "amix" "inputs=2:duration=first:normalize=0"]
  | _ => .fail (.graph "asplit produced fewer than two pads")

/-- The music, if there is any. -/
def addMusic (clip : Clip) (b : Builder) (pad : Pad) : Outcome (Builder × Pad) :=
  match clip.music with
  | none => return (b, pad)
  | some music => do
      let (b, input) := b.addInput (.loopedAudio music.path music.offsetMs)
      let (b, media) ← b.take .audio input
      let (b, prepared) := b.node .audio .music [media] (musicFilters clip music)
      if clip.ducking then mixDucked b pad prepared else return mixFlat b pad prepared

/-- Copies of a sound, each delayed to an onset. -/
def delays : Builder → List (Pad × Nat) → Builder × List Pad
  | b, [] => (b, [])
  | b, (copy, onset) :: rest =>
      let (b, pad) := b.node .audio .sfx [copy]
        [withArgs "adelay" s!"delays={onset}:all=1", sampleFormat]
      let (b, pads) := delays b rest
      (b, pad :: pads)

/-- As many copies of a sound as are needed; a single one needs no node. -/
def copies (b : Builder) (sound : Pad) (n : Nat) : Builder × List Pad :=
  if 1 < n then b.fanOut .audio .sfx [sound] [withArgs "asplit" (toString n)] n else (b, [sound])

/-- A sound at each caption onset, if asked for and if there is a sound. -/
def addEffects (clip : Clip) (soundPath : Option String) (b : Builder) (pad : Pad) :
    Outcome (Builder × Pad) :=
  let onsets := clip.onsets
  match clip.soundEffects, soundPath with
  | true, some path =>
      if onsets = [] then return (b, pad)
      else do
        let (b, input) := b.addInput { path }
        let (b, sound) ← b.take .audio input
        let (b, copies) := copies b sound onsets.length
        let (b, delayed) := delays b (copies.zip onsets)
        return b.node .audio .sfx (pad :: delayed)
          [withArgs "amix" s!"inputs={onsets.length + 1}:duration=first:normalize=0"]
  | _, _ => return (b, pad)

/-- The audio graph of a clip, before its wiring is checked. -/
def build (clip : Clip) (probe : Probe) (soundPath : Option String) : Outcome Graph := do
  let (b, pad) ← primary clip probe (Builder.new clip.sourceInput)
  let (b, pad) := enhance clip b pad
  let (b, pad) ← addMusic clip b pad
  let (b, pad) ← addEffects clip soundPath b pad
  return b.finish none (some pad)

/-- The audio graph of a clip. -/
def compile (clip : Clip) (probe : Probe) (soundPath : Option String) : Outcome Graph := do
  let graph ← build clip probe soundPath
  Outcome.ofExcept (graph.checked.mapError WiringFault.toFault)

end Montage.Audio

/-!
## The program

Picture and sound are compiled apart and then united. When both fail, the fault of the picture is
reported.
-/

namespace Montage.Program

/-- The encoder program of a clip. -/
def compile (clip : Clip) (probe : Probe) (subjects : List Region) (assets : Assets) :
    Outcome Program := do
  match Video.compile clip probe subjects assets with
  | .error .broken => .fail (.graph "video graph compilation panicked")
  | .error failure => .error failure
  | .ok video =>
      let audio ← Audio.compile clip probe assets.soundEffectPath
      Outcome.ofExcept ((merge video audio clip.durationMs).mapError WiringFault.toFault)

end Montage.Program
