import Mathlib.Algebra.GroupWithZero.Nat
import Mathlib.Algebra.Ring.Int.Defs
import Seekira.Library.Loop
import Seekira.Model.ChapterTable

/-!
# The detection of chapters

`detect_vob_chapters` of a stream reads a VOB or VRO file from its first byte on.  It
looks for the end of the chapter that it is in, writes down where the next one starts
and goes on from there until the file ends.  Where no end comes up in the part of the
file that it is willing to read, it samples the file in steps of 10 MB, goes back to the
step in which the ratio of time and position has changed, and reads on from there.

All its reading goes through `get_current_packet_position`, which passes over what is not
of the stream or has no pts, so that the place in the file is the list of the packets of the
stream that are still to be read.  What FFmpeg reads behind a byte is a parameter.
-/

set_option autoImplicit false

namespace Seekira.Model

open Library

/-- A packet as `av_read_frame` returns it. -/
structure VobPacket extends PacketDesc where
  streamIndex : Int
  deriving DecidableEq, Repr

/-- The packets that `get_current_packet_position` comes to, one call after the other.
SOURCE: video/ffmpeg/decoding/parser.cpp:81-100 -/
def ofStream (stream : Int) (packets : List VobPacket) : List PacketDesc :=
  packets.filterMap fun pkt =>
    if pkt.pts ≠ avNoPtsValue ∧ pkt.streamIndex = stream then some pkt.toPacketDesc else none

/-- FFmpeg's reading of the file: its size, and what can be read behind a byte when the seek to it
succeeds. -/
structure VobInput where
  size : Int
  seekByte : Int → Option (List VobPacket)

namespace VobInput

/-- What is left to read of the stream after `av_seek_frame` to a byte. -/
def seek (F : VobInput) (stream : Int) (pos : Int) : Option (List PacketDesc) :=
  (F.seekByte pos).map (ofStream stream)

/-- The time and the position of the packet at a byte, and what is left to read after it.
SOURCE: video/ffmpeg/decoding/parser.cpp:102-121 -/
def getTimeAtPosition (F : VobInput) (stream : Int) (seekPos : TimestampFF)
    (reads : List PacketDesc) : Option (TimestampFF × TimestampFF) × List PacketDesc :=
  match F.seek stream seekPos with
  | none => (none, reads)
  | some [] => (none, [])
  | some (pkt :: reads) => (some (pkt.pts, if pkt.pos < 0 then seekPos else pkt.pos), reads)

/-- `PROBE_SIZE` -/
def probeSize : Nat := 10

/-- The loop of `get_min_time_at_position`.
SOURCE: video/ffmpeg/decoding/parser.cpp:134-158 -/
def minTime (seekPos : TimestampFF) : List PacketDesc → Option (TimestampFF × TimestampFF)
  | [] => none
  | pkt :: pkts =>
    some (pkts.foldl (fun pts p => min pts p.pts) pkt.pts, if pkt.pos < 0 then seekPos else pkt.pos)

/-- The smallest time of the first packets and the position of the first one; the file is left as
`get_time_at_position` leaves it.
SOURCE: video/ffmpeg/decoding/parser.cpp:123-169 -/
def getMinTimeAtPosition (F : VobInput) (stream : Int) (seekPos : TimestampFF)
    (reads : List PacketDesc) : Option (TimestampFF × TimestampFF) × List PacketDesc :=
  match F.seek stream seekPos with
  | none => (none, reads)
  | some reads =>
    match minTime seekPos (reads.take probeSize) with
    | none => (none, [])
    | some found => (some found, (F.getTimeAtPosition stream seekPos (reads.drop probeSize)).2)

/-- The loop of `find_end_of_chapter`, with what it leaves to read.
SOURCE: video/ffmpeg/decoding/parser.cpp:197-244 -/
def findLoop (startPos maxSize : Int) : List PacketDesc → PacketDesc → PacketDesc → ChapterEnd →
    (Bool × ChapterEnd) × List PacketDesc
  | [], prev, pkt, e => (ChapterEnd.findLoop startPos maxSize [] prev pkt e, [])
  | p :: rest, prev, last, e =>
    let pkt := ChapterEnd.placed prev p
    if pkt.pos < prev.pos then findLoop startPos maxSize rest prev pkt e
    else
      let e := { e with newPts := pkt.pts, newPos := pkt.pos, dataProcessed := pkt.pos - startPos }
      if ((pkt.pts - prev.pts).natAbs : Int) > avSecond then
        (ChapterEnd.findLoop startPos maxSize (p :: rest) prev last e,
          rest.drop ChapterEnd.maxPtsReorderProbeSize)
      else if maxSize > 0 ∧ e.dataProcessed > maxSize then ((false, e), rest)
      else findLoop startPos maxSize rest { pkt with pts := max prev.pts pkt.pts } pkt e

/-- `find_end_of_chapter`: behind its first position when that is positive, otherwise after a seek.
SOURCE: video/ffmpeg/decoding/parser.cpp:171-246 -/
def findEndOfChapter (F : VobInput) (stream : Int) (searchPos maxSize : Int) (e : ChapterEnd)
    (reads : List PacketDesc) : (Bool × ChapterEnd) × List PacketDesc :=
  if searchPos ≤ 0 then
    match F.getTimeAtPosition stream (-searchPos) reads with
    | (none, reads) => ((false, e), reads)
    | (some (pts, pos), reads) => findLoop pos maxSize reads ⟨pts, pos, 0, 0⟩ ⟨pts, pos, 0, 0⟩ e
  else
    findLoop searchPos maxSize reads ⟨e.endPts, searchPos, 0, 0⟩ ⟨e.endPts, searchPos, 0, 0⟩ e

end VobInput

/-! ## The coarse search -/

/-- `test_step` -/
def testStep : Int := CoarseSearch.avgChapterSize.tdiv 2

/-- How the sampling loop is left. -/
inductive SamplingEnd where
  /-- with the loop's counter -/
  | at (i : Int)
  | unreadable
  | faulted (fault : ArithFault)

namespace VobInput

/-- The sampling loop from its counter `i` on, with the number of rounds that are left to it.
SOURCE: video/ffmpeg/decoding/parser.cpp:1579-1613 -/
def sample (F : VobInput) (stream newPos : Int) :
    Nat → Int → CoarseSearch → List PacketDesc → SamplingEnd × List PacketDesc
  | 0, i, _, reads => (.at i, reads)
  | left + 1, i, w, reads =>
    match F.getTimeAtPosition stream (newPos + testStep * i) reads with
    | (none, reads) => (.unreadable, reads)
    | (some (testPts, testPos), reads) =>
      let w := (w.step { testPts := testPts, testPos := testPos }).getD w
      match w.phase with
      | .sampling => F.sample stream newPos left (i + 1) w reads
      | .found => (.at i, reads)
      | .faulted fault => (.faulted fault, reads)

/-- `max_count`, a quotient of 64-bit numbers that is cut to 32 bits.
SOURCE: video/ffmpeg/decoding/parser.cpp:1576 -/
def maxCount (F : VobInput) (newPos : Int) : Int := ((F.size - newPos).tdiv testStep).bmod (2 ^ 32)

/-- From the sample before the jump on, first within the size of a chapter, then to the end of the
file.
SOURCE: video/ffmpeg/decoding/parser.cpp:1614-1632 -/
def searchFrom (F : VobInput) (stream searchPos : Int) (e : ChapterEnd) (reads : List PacketDesc) :
    ChapterEnd × List PacketDesc :=
  match F.findEndOfChapter stream (-searchPos) CoarseSearch.avgChapterSize e reads with
  | ((true, e), reads) => (e, reads)
  | ((false, e), reads) =>
    match F.findEndOfChapter stream (-searchPos) 0 e reads with
    | ((true, e), reads) => (e, reads)
    | ((false, e), reads) => ({ e with newPts := avNoPtsValue, newPos := -1 }, reads)

end VobInput

/-! ## The loop over the chapters -/

/-- The variables of the loop of `detect_vob_chapters`; `answers` are the ends found so far. -/
structure VobDetection where
  reads : List PacketDesc
  newPts : TimestampFF
  newPos : TimestampFF
  dataProcessed : Int
  answers : List ChapterEnd
  deriving DecidableEq, Repr

/-- How the loop is left: with the ends of all chapters, or with `false`. -/
inductive DetectionEnd where
  | found (answers : List ChapterEnd)
  | unreadable
  | faulted (fault : ArithFault)

namespace VobDetection

/-- The end of a chapter is written down; the search goes on when another one starts there.
SOURCE: video/ffmpeg/decoding/parser.cpp:1634-1645 -/
def push (s : VobDetection) (e : ChapterEnd) (reads : List PacketDesc) :
    Round VobDetection DetectionEnd :=
  if e.newPts ≠ avNoPtsValue then
    .again
      { reads := reads, newPts := e.newPts, newPos := e.newPos, dataProcessed := e.dataProcessed,
        answers := s.answers ++ [e] }
  else .leave (.found (s.answers ++ [e]))

/-- `search_distance`
SOURCE: video/ffmpeg/decoding/parser.cpp:1563 -/
def searchDistance (s : VobDetection) : Int :=
  max CoarseSearch.avgChapterSize ((s.dataProcessed * 3).tdiv 2)

/-- What `find_end_of_chapter` is handed.
SOURCE: video/ffmpeg/decoding/parser.cpp:1547-1548 -/
def entry (s : VobDetection) : ChapterEnd :=
  { endPts := s.newPts, newPts := s.newPts, newPos := s.newPos, dataProcessed := s.dataProcessed }

/-- One round of the loop.
SOURCE: video/ffmpeg/decoding/parser.cpp:1545-1646 -/
def round (F : VobInput) (stream : Int) (s : VobDetection) : Round VobDetection DetectionEnd :=
  match F.findEndOfChapter stream s.newPos s.searchDistance s.entry s.reads with
  | ((true, e), reads) => s.push e reads
  | ((false, e), reads) =>
    match F.sample stream e.newPos (F.maxCount e.newPos - 1).toNat 1
      (CoarseSearch.enter s.newPos e) reads with
    | (.unreadable, _) => .leave .unreadable
    | (.faulted fault, _) => .leave (.faulted fault)
    | (.at i, reads) =>
      let (e, reads) := F.searchFrom stream (e.newPos + testStep * (i - 1)) e reads
      s.push e reads

/-- The loop is entered with the first packets of the stream read; `none` when it has none.
SOURCE: video/ffmpeg/decoding/parser.cpp:1530-1543 -/
def enter (F : VobInput) (stream : Int) (reads : List PacketDesc) : Option VobDetection :=
  match F.getMinTimeAtPosition stream 0 reads with
  | (none, _) => none
  | (some (pts, pos), reads) =>
    some { reads := reads, newPts := pts, newPos := pos, dataProcessed := 0, answers := [] }

/-- The first point of the table.
SOURCE: video/ffmpeg/decoding/parser.cpp:1540-1543 -/
def firstPoint (s : VobDetection) : SplitPoint := { pts := s.newPts, pos := s.newPos }

/-- The chapters of the stream, once the loop is left.
SOURCE: video/ffmpeg/decoding/parser.cpp:1649-1672 -/
def chapters (F : VobInput) (start : VobDetection) : DetectionEnd → Option (List TimedChapter)
  | .found answers => ChapterTable.detectVobChapters F.size start.firstPoint answers
  | _ => none

end VobDetection

end Seekira.Model
