import Seekira.Library.CheckedInt
import Seekira.Library.Machine
import Seekira.Model.DecoderVideo

/-!
# The search for the end of a chapter

The chapters of a VOB or VRO file meet where the timestamps of a stream jump.
`find_end_of_chapter` reads packets up to such a jump; when a part of the file holds
none, `detect_vob_chapters` samples the file in larger steps, and takes the jump to be
where the ratio of time and position changes.

The packets that FFmpeg reads are parameters.
-/

set_option autoImplicit false

namespace Seekira.Model

open Library

/-- SOURCE: video/ffmpeg/decoding/parser.cpp:73-79 -/
structure PacketDesc where
  pts : TimestampFF
  pos : TimestampFF
  duration : TimeFF
  size : Nat
  deriving DecidableEq, Repr

/-- What `find_end_of_chapter` reads and writes through its references. -/
structure ChapterEnd where
  endPts : TimestampFF
  newPts : TimestampFF
  newPos : TimestampFF
  dataProcessed : Int
  deriving DecidableEq, Repr

namespace ChapterEnd

/-- `MAX_PTS_REORDER_PROBE_SIZE` -/
def maxPtsReorderProbeSize : Nat := 10

/-- A packet without a position stands behind the one before it.
SOURCE: video/ffmpeg/decoding/parser.cpp:199-200 -/
def placed (prev pkt : PacketDesc) : PacketDesc :=
  if pkt.pos < 0 then { pkt with pos := prev.pos + prev.size } else pkt

/-- One extra duration after the last packet.
SOURCE: video/ffmpeg/decoding/parser.cpp:216-217 -/
def endAfter (prev : PacketDesc) : TimestampFF := prev.pts + prev.duration * 2

/-- The loop of `find_end_of_chapter` over the packets that can still be read; `pkt` is the last
one read.
SOURCE: video/ffmpeg/decoding/parser.cpp:197-244 -/
def findLoop (startPos maxSize : Int) :
    List PacketDesc → PacketDesc → PacketDesc → ChapterEnd → Bool × ChapterEnd
  | [], prev, pkt, e =>
    (true, { e with
      endPts := endAfter prev
      newPos :=
        if pkt.pos ≥ 0 then pkt.pos
        else if prev.pos ≥ 0 then prev.pos + prev.size else e.newPos
      newPts := avNoPtsValue })
  | p :: rest, prev, _, e =>
    let pkt := placed prev p
    if pkt.pos < prev.pos then findLoop startPos maxSize rest prev pkt e
    else
      let e := { e with newPts := pkt.pts, newPos := pkt.pos, dataProcessed := pkt.pos - startPos }
      if ((pkt.pts - prev.pts).natAbs : Int) > avSecond then
        (true, { e with
          endPts := endAfter prev
          newPts :=
            (rest.take maxPtsReorderProbeSize).foldl (fun pts p => min pts p.pts) e.newPts })
      else if maxSize > 0 ∧ e.dataProcessed > maxSize then (false, e)
      else findLoop startPos maxSize rest { pkt with pts := max prev.pts pkt.pts } pkt e

/-- `find_end_of_chapter`; `first` is what `get_time_at_position` finds, and `reads` are the
packets with a known pts after it.
SOURCE: video/ffmpeg/decoding/parser.cpp:171-246 -/
def findEndOfChapter (searchPos maxSize : Int) (first : Option (TimestampFF × TimestampFF))
    (reads : List PacketDesc) (e : ChapterEnd) : Bool × ChapterEnd :=
  if searchPos ≤ 0 then
    match first with
    | none => (false, e)
    | some (pts, pos) => findLoop pos maxSize reads ⟨pts, pos, 0, 0⟩ ⟨pts, pos, 0, 0⟩ e
  else findLoop searchPos maxSize reads ⟨e.endPts, searchPos, 0, 0⟩ ⟨e.endPts, searchPos, 0, 0⟩ e

end ChapterEnd

/-! ## Sampling -/

/-- `av_rescale` of 64-bit numbers: a result that does not fit is the smallest integer as well. -/
def avRescale64 (a b c : Int) : Int :=
  if avRescale a b c > int64Max then int64Min else avRescale a b c

/-- What `get_time_at_position` finds at a sampled position. -/
structure ChapterSample where
  testPts : TimestampFF
  testPos : TimestampFF
  deriving DecidableEq, Repr

inductive SamplingPhase where
  | sampling
  /-- the sample lies behind the end of the chapter -/
  | found
  | faulted (fault : ArithFault)
  deriving DecidableEq, Repr

/-- The variables of the sampling loop.
SOURCE: video/ffmpeg/decoding/parser.cpp:1572-1579 -/
structure CoarseSearch where
  endPts : TimestampFF
  startPos : TimestampFF
  diffPts : Int
  diffPos : Int
  threshold : Int
  phase : SamplingPhase
  deriving DecidableEq, Repr

namespace CoarseSearch

/-- `AVG_CHAPTER_SIZE` -/
def avgChapterSize : Int := 20 * (1000 * 1000)

/-- The loop is entered after a search from `startPos` that found no end.
SOURCE: video/ffmpeg/decoding/parser.cpp:1572-1577 -/
def enter (startPos : TimestampFF) (e : ChapterEnd) : CoarseSearch :=
  { endPts := e.endPts, startPos := startPos, diffPts := e.newPts - e.endPts,
    diffPos := e.newPos - startPos, threshold := 5, phase := .sampling }

/-- `k`: by how many percent the ratio of time and position has changed.
SOURCE: video/ffmpeg/decoding/parser.cpp:1594-1600 -/
def deviation (diffPts diffPts2 diffPos diffPos2 : Int) : Except ArithFault Int := do
  let k1 := avRescale64 1000 diffPts diffPts2
  let k2 := avRescale64 1000 diffPos diffPos2
  let scaled ← checked (100 * k1)
  let k ← checkedDiv scaled k2
  let k ← checked (k - 100)
  checked k.natAbs

/-- SOURCE: video/ffmpeg/decoding/parser.cpp:1591-1600 -/
def compare (s : ChapterSample) (w : CoarseSearch) : Except ArithFault (Int × Int × Int) := do
  let diffPts2 ← checked (s.testPts - w.endPts)
  let diffPos2 ← checked (s.testPos - w.startPos)
  let k ← deviation w.diffPts diffPts2 w.diffPos diffPos2
  return (k, diffPts2, diffPos2)

/-- One sample.
SOURCE: video/ffmpeg/decoding/parser.cpp:1580-1612 -/
def step (w : CoarseSearch) (s : ChapterSample) : Option CoarseSearch :=
  match w.phase with
  | .sampling =>
    match w.compare s with
    | .error fault => some { w with phase := .faulted fault }
    | .ok (k, diffPts2, diffPos2) =>
      if k ≤ w.threshold then
        some { w with threshold := max k 2, diffPts := diffPts2, diffPos := diffPos2 }
      else some { w with phase := .found }
  | _ => none

/-- The sampling that starts with the variables `w`. -/
def machine (w : CoarseSearch) : Machine CoarseSearch ChapterSample where
  init := w
  step := step

end CoarseSearch

end Seekira.Model
