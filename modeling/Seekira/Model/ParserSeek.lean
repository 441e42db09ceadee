import Seekira.Library.Recorded
import Seekira.Model.Parser

/-!
# Repositioning the parser

`ParserFF::seek` and `ParserFF::read` with the part of the parser they need besides its tables of
timestamps: the number of streams of the container, which may grow while packets are read, the last
timestamp read of each stream, and the requests to FFmpeg.  The procedures record every access to a
table with one entry per stream, every request with its outcome and every packet that `read` gives
out.

The container is FFmpeg's business: what a request does to the packets ahead, which stream it finds
best and how many streams it knows are parameters.
-/

set_option autoImplicit false

namespace Seekira.Model

open Library

/-- The tables with one entry per stream. -/
inductive StreamTable where
  /-- `streams` of the container -/
  | streams
  /-- `m_time_shift` -/
  | timeShift
  /-- `m_gen_pts` -/
  | genPts
  /-- `m_first_stream_pkt_received` -/
  | firstStreamPktReceived
  /-- `m_dts_shifts` -/
  | dtsShifts
  deriving DecidableEq, Repr

/-- A request to reposition the container. -/
inductive Reposition where
  /-- `av_seek_frame` with `AVSEEK_FLAG_BYTE` -/
  | frame (stream pos : Int)
  /-- `avformat_seek_file`; `any` is `AVSEEK_FLAG_ANY` -/
  | file (stream minTs ts maxTs : Int) (any : Bool)
  deriving DecidableEq, Repr

inductive ParserEvent where
  /-- an entry of a table of the given size is read or written -/
  | access (table : StreamTable) (index size : Int)
  | reposition (request : Reposition) (succeeded : Bool)
  /-- `read` returns the packet -/
  | returned (packet : AVPacket)
  deriving DecidableEq, Repr

/-- What detecting the chapters of a VOB leaves behind. -/
structure VobChapters where
  chapters : Int → Option (List ChapterVOB)
  defaultChapterListIndex : Int
  duration : TimeFF
  ahead : List AVPacket
  newStreams : Nat

/-- A container as FFmpeg presents it. -/
structure FFmpegInput where
  /-- `name` of the format contains "apng" -/
  nameApng : Bool
  longNameMpegTs : Bool
  longNameMpegPs : Bool
  longNameQuickTime : Bool
  /-- the file starts with "CWS"; `none` when it cannot be opened -/
  compressedSwf : Option Bool
  /-- an MP4 whose AAC stream carries a DRM tag -/
  hasDrm : Bool
  /-- `name` of the format contains "mxf" -/
  nameMxf : Bool
  /-- the codec of the stream is JPEG 2000 -/
  isJpeg2000 : Int → Bool
  /-- a data stream with the codec DVD_NAV -/
  hasDvdNav : Bool
  /-- `nb_streams` before `avformat_find_stream_info` -/
  headerStreams : Nat
  /-- `avformat_find_stream_info` succeeds -/
  infoFound : Bool
  /-- `nb_streams` after it -/
  probedStreams : Nat
  attachedPic : Int → Bool
  /-- the codec is none of those used for covers -/
  countsForFps : Int → Bool
  /-- `get_available_fps`, numerator and denominator -/
  availableFps : Int → Int × Int
  /-- `field_order` says that the video is interlaced -/
  interlaced : Int → Bool
  /-- `get_size` -/
  size : Int
  /-- `duration` of the container -/
  duration : TimeFF
  /-- `av_find_best_stream` among the given number of streams -/
  findBestStream : AVMediaType → Nat → Int
  /-- the outcome of the n-th request, and the packets ahead after it -/
  request : Nat → Reposition → Bool × List AVPacket
  /-- `avformat_flush` -/
  flushed : List AVPacket → List AVPacket
  /-- the number of streams after the packet was read -/
  streamsAfter : AVPacket → Nat → Nat
  /-- opening and probing the file again, after the given number of requests -/
  reopened : Nat → Option (Nat × List AVPacket)
  /-- the chapters of a VOB; its packets are read to find them -/
  vobChapters : Except Fault VobChapters

/-- What FFmpeg documents of stream indices. -/
structure FFmpegInput.Lawful (F : FFmpegInput) : Prop where
  /-- the best stream is one of the streams -/
  findBestStream : ∀ type streams, F.findBestStream type streams < streams
  /-- streams do not go away while packets are read -/
  streamsAfter : ∀ packet streams, streams ≤ F.streamsAfter packet streams
  /-- a packet belongs to a stream of the container -/
  packetStream : ∀ packet streams, packet.streamIndex < F.streamsAfter packet streams

/-- The stream to seek by, among the given number of streams: the best video stream, else the best
audio stream, else the first; `-1` when there is none.
SOURCE: video/ffmpeg/decoding/parser.cpp:1409-1426 -/
def FFmpegInput.seekStream (F : FFmpegInput) (streams : Nat) : Int :=
  if streams = 0 then -1
  else
    let best := F.findBestStream .video streams
    if best < 0 then
      let best := F.findBestStream .audio streams
      if best < 0 then 0 else best
    else best

/-- The parser with an open file.
SOURCE: video/ffmpeg/decoding/parser.hpp:92-130 -/
structure OpenParser where
  tables : ParserFF
  nbStreams : Nat
  /-- the number of entries of the tables sized by `find_stream_info` -/
  tableSize : Nat
  lastSeekTs : Int → Option TimestampFF
  formatIMG : Bool
  formatPIX : Bool
  aviWithRepeatingPts : Bool
  /-- requests made so far -/
  requests : Nat
  duration : TimeFF

/-- A method of the parser, with its record. -/
abbrev Opening (α : Type) := Recorded Fault ParserEvent OpenParser α

namespace OpenParser

/-- The number of entries of a table. -/
def tableCount (p : OpenParser) : StreamTable → Int
  | .streams => p.nbStreams
  | .dtsShifts => if p.tables.dtsShifts.isSome then p.tableSize else 0
  | .timeShift | .genPts | .firstStreamPktReceived => p.tableSize

/-- Enter an access to a table. -/
def access (table : StreamTable) (index : Int) : Opening Unit := do
  let p ← Recorded.get
  .note (.access table index (p.tableCount table))

/-- Enter accesses to entries of some tables. -/
def accessAll (tables : List StreamTable) (indices : List Int) : Opening Unit := do
  let p ← Recorded.get
  .notes (indices.flatMap fun i => tables.map fun t => .access t i (p.tableCount t))

def modifyTables (f : ParserFF → ParserFF) : Opening Unit :=
  Recorded.modify fun p => { p with tables := f p.tables }

@[simp] theorem access_bind_apply {α : Type} (table : StreamTable) (index : Int)
    (f : Unit → Opening α) (p : OpenParser) :
    (access table index >>= f) p =
      ((f () p).1, .access table index (p.tableCount table) :: (f () p).2) := rfl

@[simp] theorem accessAll_bind_apply {α : Type} (tables : List StreamTable) (indices : List Int)
    (f : Unit → Opening α) (p : OpenParser) :
    (accessAll tables indices >>= f) p =
      ((f () p).1,
        (indices.flatMap fun i => tables.map fun t => .access t i (p.tableCount t)) ++
          (f () p).2) := rfl

@[simp] theorem modifyTables_bind_apply {α : Type} (g : ParserFF → ParserFF)
    (f : Unit → Opening α) (p : OpenParser) :
    (modifyTables g >>= f) p = f () { p with tables := g p.tables } := rfl

variable (F : FFmpegInput)

/-- A request to FFmpeg; whether it succeeds or not, it may change what is read next. -/
def reposition (request : Reposition) : Opening Bool := do
  let p ← Recorded.get
  .note (.reposition request (F.request p.requests request).1)
  .modify fun p =>
    { p with
      tables := { p.tables with ahead := (F.request p.requests request).2 }
      requests := p.requests + 1 }
  return (F.request p.requests request).1

/-- A request to FFmpeg changes the number of requests and the packets ahead. -/
theorem reposition_apply (request : Reposition) (p : OpenParser) :
    reposition F request p =
      ((.ok (F.request p.requests request).1,
        { p with
          tables := { p.tables with ahead := (F.request p.requests request).2 }
          requests := p.requests + 1 }),
        [.reposition request (F.request p.requests request).1]) := rfl

/-- The array of streams is null while there is no stream.
SOURCE: video/ffmpeg/decoding/parser.cpp:928-934 -/
def isCover (index : Int) : Opening Bool := do
  let p ← Recorded.get
  if p.nbStreams = 0 then return false
  else do
    access .streams index
    return F.attachedPic index

/-- SOURCE: video/ffmpeg/decoding/parser.cpp:936 -/
def isBinarySeek (p : OpenParser) : Bool :=
  p.tables.formatDAV || p.formatPIX || p.tables.formatVOB || p.tables.formatVRO

/-- SOURCE: video/ffmpeg/decoding/parser.cpp:1409-1426 -/
def getSeekStream (p : OpenParser) : Int := F.seekStream p.nbStreams

/-- SOURCE: video/ffmpeg/decoding/parser.cpp:905-926 -/
def isCompressedSwf : Opening Bool := do
  let p ← Recorded.get
  if !p.tables.formatSWF then return false
  else
    match F.compressedSwf with
    | some compressed => return compressed
    | none => .throw (.thrown "Can't open file: file is absent or you haven't access rights")

/-- SOURCE: video/ffmpeg/decoding/parser.cpp:462-500 -/
def reopen : Opening Unit := do
  let p ← Recorded.get
  match F.reopened p.requests with
  | none => .throw (.thrown "Can't find stream info")
  | some (streams, ahead) => do
    accessAll [.streams] ((List.range (min streams p.nbStreams)).map Int.ofNat)
    .modify fun p =>
      { p with
        tables := { p.tables with ahead := ahead, streamCount := min streams p.nbStreams }
        nbStreams := streams
        requests := p.requests + 1 }

/-! ## seek -/

/-- INT64_MIN -/
def int64Min : Int := -9223372036854775808

/-- INT64_MAX -/
def int64Max : Int := 9223372036854775807

/-- Streams without timestamps are sought from the start; the time the seek goes on with.
SOURCE: video/ffmpeg/decoding/parser.cpp:519-528 -/
def restartAll (time : TimestampFF) : Opening TimestampFF := do
  let p ← Recorded.get
  if p.aviWithRepeatingPts || p.tables.formatDAV then do
    modifyTables fun m => { m with prevPktTimes := fun _ => none }
    return 0
  else return time

/-- The same for one stream of an ASF file.
SOURCE: video/ffmpeg/decoding/parser.cpp:530-538 -/
def restartStream (index : Int) (time : TimestampFF) : Opening TimestampFF := do
  let p ← Recorded.get
  if p.tables.formatASF && (p.tables.prevPktTimes index).isSome then do
    access .firstStreamPktReceived index
    modifyTables fun m =>
      { m with
        firstStreamPktReceived := Function.update m.firstStreamPktReceived index false
        prevPktTimes := Function.update m.prevPktTimes index none }
    return 0
  else return time

/-- SOURCE: video/ffmpeg/decoding/parser.cpp:540-549 -/
def checkSeek (index : Int) (time : TimestampFF) : Opening Unit := do
  let p ← Recorded.get
  if time < 0 then .throw (.thrown "Seek error: invalid seek time position")
  else if index ≥ p.tables.streamCount then
    .throw (.thrown "Seek error: invalid seek stream index")
  else if p.formatIMG ∧ time ≠ 0 then
    .throw (.thrown "Seek error: seeking over image sources is not implemented")
  else return ()

/-- Pictures are sought by bytes first; the outcome is not looked at.
SOURCE: video/ffmpeg/decoding/parser.cpp:551-553 -/
def seekImage (index : Int) (time : TimestampFF) : Opening Unit := do
  let p ← Recorded.get
  if p.formatIMG ∧ time = 0 then do
    let _ ← reposition F (.frame index 0)
    return ()
  else return ()

/-- A transport stream is sought by its seek stream only.
SOURCE: video/ffmpeg/decoding/parser.cpp:561-567 -/
def checkMpegTs (index : Int) : Opening Unit := do
  let p ← Recorded.get
  if p.tables.formatMpegTs ∧ index ≠ p.getSeekStream F then
    .throw (.thrown "Seek @ mpegts: skipping seek with provided index")
  else return ()

/-- SOURCE: video/ffmpeg/decoding/parser.cpp:569-574 -/
def fillAllGenPts (time : TimestampFF) : Opening Unit := do
  let p ← Recorded.get
  accessAll [.streams, .genPts] ((List.range p.tables.streamCount.toNat).map Int.ofNat)
  modifyTables (ParserFF.fillGenPts time)

/-- SWF does not support repositioning: reading on or opening the file again are all it can do.
The result is the time and whether to seek by bytes, or `none` when the seek is over.
SOURCE: video/ffmpeg/decoding/parser.cpp:603-615 -/
def seekSwf (forward : Bool) (time : TimestampFF) (binary : Bool) :
    Opening (Option (TimestampFF × Bool)) := do
  let p ← Recorded.get
  if !p.tables.formatSWF then return some (time, binary)
  else if forward then return none
  else do
    let compressed ← isCompressedSwf F
    if compressed then do
      reopen F
      return none
    else return some (0, true)

/-- SOURCE: video/ffmpeg/decoding/parser.cpp:617-618 -/
def forgetFirstApng (index : Int) (time : TimestampFF) : Opening Unit := do
  let p ← Recorded.get
  if (p.tables.streams index).isApng ∧ time = 0 then do
    access .firstStreamPktReceived index
    modifyTables fun m =>
      { m with firstStreamPktReceived := Function.update m.firstStreamPktReceived index false }
  else return ()

/-- SOURCE: video/ffmpeg/decoding/parser.cpp:620-627 -/
def seekByBytes (index : Int) (time : TimestampFF) (binary : Bool) : Opening Bool := do
  let p ← Recorded.get
  if binary then reposition F (.frame index (avRescale F.size time p.duration))
  else return false

/-- SOURCE: video/ffmpeg/decoding/parser.cpp:630-635 -/
def seekQuickTime (time : TimestampFF) : Opening Bool :=
  if F.longNameQuickTime then reposition F (.file (-1) int64Min time int64Max false)
  else return false

/-- SOURCE: video/ffmpeg/decoding/parser.cpp:637-638 -/
def seekByTime (index : Int) (forward : Bool) (streamTime : TimestampFF) : Opening Bool :=
  if forward then reposition F (.file index streamTime streamTime int64Max false)
  else reposition F (.file index int64Min streamTime streamTime false)

/-- Some files are not sought to zero exactly: the right bound moves away from it.
SOURCE: video/ffmpeg/decoding/parser.cpp:643-652 -/
def seekNearZero : List Int → Opening Bool
  | [] => return false
  | pos :: rest => do
    let done ← reposition F (.file (-1) int64Min 0 pos true)
    if done then return true else seekNearZero rest

/-- The right bounds tried: every tenth of a second up to five seconds. -/
def boundsNearZero : List Int := (List.range 50).map fun i : Nat => (i : Int) * 100000

/-- The last attempt, and the exception when it fails too.
SOURCE: video/ffmpeg/decoding/parser.cpp:643-654 -/
def seekLast (time : TimestampFF) : Opening Unit :=
  if time = 0 then do
    let done ← seekNearZero F boundsNearZero
    if done then return () else .throw (.thrown "Invalid seek!")
  else .throw (.thrown "Invalid seek!")

/-- The attempts one after the other.
SOURCE: video/ffmpeg/decoding/parser.cpp:620-655 -/
def seekPosition (index : Int) (time : TimestampFF) (binary forward : Bool)
    (streamTime : TimestampFF) : Opening Unit := do
  let done ← seekByBytes F index time binary
  if done then return ()
  else do
    let done ← seekQuickTime F time
    if done then return ()
    else do
      let done ← seekByTime F index forward streamTime
      if done then return () else seekLast F time

/-- The seek from the lookup of the direction on; a stream without a last timestamp ends it.
SOURCE: video/ffmpeg/decoding/parser.cpp:576-655 -/
def seekStream (index : Int) (time : TimestampFF) (binary : Bool) : Opening Unit := do
  accessAll [.genPts, .streams] [index]
  let p ← Recorded.get
  match p.lastSeekTs index with
  | none => return ()
  | some last => do
    let genPts := p.tables.genPts index
    let forward := last ≠ avNoPtsValue && last < genPts
    let startTime := (p.tables.streams index).startTime
    let streamTime := if startTime ≠ avNoPtsValue then genPts + startTime else genPts
    let swf ← seekSwf F forward time binary
    match swf with
    | none => return ()
    | some (time, binary) => do
      forgetFirstApng index time
      seekPosition F index time binary forward streamTime

/-- SOURCE: video/ffmpeg/decoding/parser.cpp:512-655 -/
def seek (index : Int) (time : TimestampFF) : Opening Unit := do
  let cover ← isCover F index
  if cover then return ()
  else do
    modifyTables fun m => { m with currentChapter := fun _ => none }
    let time ← restartAll time
    let time ← restartStream index time
    checkSeek index time
    seekImage F index time
    checkMpegTs F index
    let p ← Recorded.get
    fillAllGenPts time
    seekStream F index time
      (p.isBinarySeek || (F.longNameMpegPs && time = 0) || p.tables.formatMpegTs)

/-! ## read -/

/-- The streams that FFmpeg knows after the packets up to `rest` were read. -/
def streamsAfterAll (ahead rest : List AVPacket) (streams : Nat) : Nat :=
  (ahead.take (ahead.length - rest.length)).foldl (fun n packet => F.streamsAfter packet n) streams

/-- SOURCE: video/ffmpeg/decoding/parser.cpp:657-680 -/
def read : Opening (Option AVPacket) := do
  let p ← Recorded.get
  let pkt := p.tables.readPacket.1
  let tables := p.tables.readPacket.2
  .modify fun p =>
    { p with
      tables := tables
      nbStreams := streamsAfterAll F p.tables.ahead tables.ahead p.nbStreams }
  match pkt with
  | none => return none
  | some packet => do
    .note (.returned packet)
    .modify fun p =>
      { p with lastSeekTs := Function.update p.lastSeekTs packet.streamIndex (some packet.dts) }
    return some packet

end OpenParser

end Seekira.Model
