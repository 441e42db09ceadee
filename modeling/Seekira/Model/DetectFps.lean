import Mathlib.Algebra.GroupWithZero.Nat
import Mathlib.Algebra.Ring.Int.Defs
import Seekira.Model.ParserOpening

/-!
# The measured frame rate

`detect_fps` reads packets until the rate of a video stream is certain, and overwrites
the stream's `avg_frame_rate` when it contradicts the container.  A run takes the
packets one by one; they are recorded, and no step reads the record.
-/

set_option autoImplicit false

namespace Seekira.Model

open Library

/-- The reading of packets by `detect_fps`. -/
structure DetectFps where
  probe : OpenParser.FpsProbe
  finished : Bool
  /-- the stream whose `avg_frame_rate` is overwritten, and its new numerator -/
  written : Option (Int × Int)
  /-- the packets read -/
  read : List AVPacket

namespace DetectFps

open OpenParser

variable (F : FFmpegInput)

/-- The entry of a stream once a packet with a known timestamp is counted.
SOURCE: video/ffmpeg/decoding/parser.cpp:1188-1193 -/
def counted (pts : TimestampFF) (info : CountAndPosition) : CountAndPosition :=
  if info.startPts = avNoPtsValue then { startPts := pts, count := 1 }
  else { info with count := info.count + 1 }

/-- The rate that a counted entry gives after the time `diff`. -/
def measuredFps (info : CountAndPosition) (diff : TimeFF) : Int :=
  avRescale (info.count - 1) avSecond diff

/-- The rate is that of the container, or twice that of an interlaced stream.
SOURCE: video/ffmpeg/decoding/parser.cpp:1230-1242 -/
def confirmsContainer (idx currentFps : Int) : Bool :=
  let res := avRescale (100 * currentFps) (F.availableFps idx).2 (F.availableFps idx).1
  (res > 90 ∧ res < 110) ∨ (res > 190 ∧ res < 210 ∧ F.interlaced idx)

/-- What the round of a packet writes to `avg_frame_rate.num`, with the cast to `int`.
SOURCE: video/ffmpeg/decoding/parser.cpp:1173-1255 -/
def fpsWritten (stream : AVStream) (packet : AVPacket) (probe : FpsProbe) : Option Int :=
  let pts := streamToGlobal packet.pts stream.timeBase
  let info := counted pts (probe.packets packet.streamIndex)
  let diff := pts - info.startPts
  let currentFps := measuredFps info diff
  let prevFpsCount := if currentFps = probe.prevFps then probe.prevFpsCount + 1 else 0
  if pts ≠ avNoPtsValue ∧ diff > avSecond / 2 ∧ diff ≤ 5 * avSecond ∧ stream.codecType = .video ∧
      info.count ≥ 10 ∧ currentFps ≥ 25 ∧ !confirmsContainer F packet.streamIndex currentFps ∧
      (diff > 3 * avSecond ∨ prevFpsCount > 5) then
    some (currentFps.bmod (2 ^ 32))
  else none

variable (streams : Int → AVStream)

/-- One packet is read. -/
def step (w : DetectFps) (packet : AVPacket) : Option DetectFps :=
  if w.finished then none
  else
    let stream := streams packet.streamIndex
    let round := fpsStep F stream packet w.probe
    some
      { probe := round.2
        finished := round.1
        written := (fpsWritten F stream packet w.probe).map fun n => (packet.streamIndex, n)
        read := w.read ++ [packet] }

/-- SOURCE: video/ffmpeg/decoding/parser.cpp:1159-1172 -/
def machine : Machine DetectFps AVPacket where
  init :=
    { probe :=
        { packets := fun _ => { startPts := avNoPtsValue, count := 0 }
          prevFps := avNoPtsValue, prevFpsCount := 0 }
      finished := false, written := none, read := [] }
  step := step F streams

end DetectFps

end Seekira.Model
