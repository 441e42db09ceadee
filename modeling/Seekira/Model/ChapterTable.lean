import Seekira.Model.ChapterSearch
import Seekira.Model.Parser

/-!
# The table of chapters

`detect_vob_chapters` of a stream writes down where chapters start and end as a flat
list of points, sets the first and the last position to the ends of the file, and
takes the points two by two into chapters, each shifted so that its time goes on where
the one before ended.

The answers of the search are a list; the search is over with the first answer that
names no new chapter.
-/

set_option autoImplicit false

namespace Seekira.Model

/-- SOURCE: video/ffmpeg/decoding/parser.cpp:1428-1438 -/
structure SplitPoint where
  pos : Int
  pts : TimestampFF
  deriving DecidableEq, Repr

/-- A chapter with the times that only building the table reads.
SOURCE: video/ffmpeg/decoding/parser.hpp:83-90 -/
structure TimedChapter extends ChapterVOB where
  ptsStart : TimestampFF
  ptsEnd : TimestampFF
  deriving DecidableEq, Repr

namespace ChapterTable

/-- The points that the loop pushes from the start of a chapter on; `none` while the search is not
over.
SOURCE: video/ffmpeg/decoding/parser.cpp:1541-1546, 1629-1640 -/
def splitPoints : SplitPoint → List ChapterEnd → Option (List SplitPoint)
  | _, [] => none
  | start, e :: rest =>
    let stop : SplitPoint := { pts := e.endPts, pos := e.newPos - 1 }
    if e.newPts ≠ avNoPtsValue then
      (splitPoints { pts := e.newPts, pos := e.newPos } rest).map fun points =>
        start :: stop :: points
    else some [start, stop]

/-- SOURCE: video/ffmpeg/decoding/parser.cpp:1650-1651 -/
def patchEnds (fileSize : Int) (points : List SplitPoint) : List SplitPoint :=
  let points := points.modify 0 fun p => { p with pos := 0 }
  points.modify (points.length - 1) fun p => { p with pos := fileSize }

/-- SOURCE: video/ffmpeg/decoding/parser.cpp:1657-1664 -/
def chapterBetween (clock : TimeFF) (start stop : SplitPoint) : TimedChapter :=
  { posStart := start.pos, posEnd := stop.pos, ptsStart := start.pts, ptsEnd := stop.pts,
    timeShift := clock - start.pts }

/-- The points two by two; the clock is where the time of the chapters stands.
SOURCE: video/ffmpeg/decoding/parser.cpp:1649, 1653-1669 -/
def buildChapters (clock : TimeFF) : List SplitPoint → List TimedChapter
  | start :: stop :: points =>
    chapterBetween clock start stop :: buildChapters (clock + (stop.pts - start.pts)) points
  | _ => []

/-- The chapters of a stream, from where its first packets stand and the answers of the search.
SOURCE: video/ffmpeg/decoding/parser.cpp:1524-1675 -/
def detectVobChapters (fileSize : Int) (first : SplitPoint) (answers : List ChapterEnd) :
    Option (List TimedChapter) :=
  (splitPoints first answers).map fun points =>
    if points.length > 1 then buildChapters 0 (patchEnds fileSize points) else []

end ChapterTable

end Seekira.Model
