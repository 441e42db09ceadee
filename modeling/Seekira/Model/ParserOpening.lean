import Seekira.Library.Machine
import Seekira.Model.ParserSeek

/-!
# Opening a file

`ParserFF::find_stream_info` sizes the tables with one entry per stream, reads the first packets to
find time shifts, measures the frame rate by reading on, and seeks to the start.  Then the parser is
used through `read` and `seek`; a session keeps what was recorded since the file was opened.

The search for the chapters of a VOB works on the container alone; what it finds is a parameter.
-/

set_option autoImplicit false

namespace Seekira.Model

open Library

namespace OpenParser

variable (F : FFmpegInput)

/-- The indices of the first streams. -/
def streamIndices (count : Nat) : List Int := (List.range count).map Int.ofNat

/-! ## The first packets -/

/-- SOURCE: video/ffmpeg/decoding/parser.cpp:1995-2011 -/
def seekToZero : Opening Unit := do
  let p ← Recorded.get
  let compressed ← isCompressedSwf F
  if compressed then seek F 0 0
  else if (p.formatIMG && p.isBinarySeek) || p.tables.formatSWF then do
    let _ ← reposition F (.frame (-1) 0)
    return ()
  else do
    let _ ← reposition F (.file (-1) 0 0 0 false)
    return ()

/-- A packet of every stream has been read. -/
def streamsReadComplete (p : OpenParser) : Bool :=
  (streamIndices p.tableSize).all p.tables.firstStreamPktReceived

/-- The packet at the front is read. -/
def takePacket (packet : AVPacket) (rest : List AVPacket) (p : OpenParser) : OpenParser :=
  { p with
    tables := { p.tables with ahead := rest }
    nbStreams := F.streamsAfter packet p.nbStreams }

/-- Whether the packet is the first one of its stream; then the stream is marked.
SOURCE: video/ffmpeg/decoding/parser.cpp:1979-1983 -/
def markFirst (packet : AVPacket) : Opening Bool := do
  access .firstStreamPktReceived packet.streamIndex
  let p ← Recorded.get
  if p.tables.firstStreamPktReceived packet.streamIndex then return false
  else do
    modifyTables fun m =>
      { m with
        firstStreamPktReceived :=
          Function.update m.firstStreamPktReceived packet.streamIndex true }
    return true

/-- SOURCE: video/ffmpeg/decoding/parser.cpp:1963-1986 -/
def firstPacketsLoop : Nat → List AVPacket → Opening (List AVPacket)
  | 0, firstPackets => return firstPackets
  | n + 1, firstPackets => do
    let p ← Recorded.get
    if p.streamsReadComplete then return firstPackets
    else
      match p.tables.ahead with
      | [] => return firstPackets
      | packet :: rest => do
        .modify (takePacket F packet rest)
        let first ← markFirst packet
        firstPacketsLoop n (if first then firstPackets ++ [packet] else firstPackets)

/-- SOURCE: video/ffmpeg/decoding/parser.cpp:1951-1992 -/
def getFirstPackets : Opening (List AVPacket) := do
  seekToZero F
  firstPacketsLoop F 50 []

/-! ## Time shifts -/

/-- The accesses of the loop that shifts all streams by the start of the container.
SOURCE: video/ffmpeg/decoding/parser.cpp:882-892, 1900-1910 -/
def containerShiftAccesses (p : OpenParser) (i : Int) : List ParserEvent :=
  if p.tables.containerStartTime ≠ avNoPtsValue ∧ p.tables.containerStartTime ≠ 0 then
    .access .streams i p.nbStreams ::
      if p.tables.calcContainerShift i ≠ 0 then [.access .timeShift i p.tableSize] else []
  else []

/-- The accesses for one of the first packets.
SOURCE: video/ffmpeg/decoding/parser.cpp:1913-1948 -/
def packetShiftAccesses (p : OpenParser) (packet : AVPacket) : List ParserEvent :=
  if packet.pts = avNoPtsValue ∨ packet.dts = avNoPtsValue then []
  else
    let idx := packet.streamIndex
    let stream := p.tables.streams idx
    (if F.longNameMpegTs then
      .access .streams idx p.nbStreams ::
        if stream.startTime ≠ avNoPtsValue ∧ stream.duration ≠ avNoPtsValue ∧
            stream.duration + stream.startTime < packet.pts then
          [.access .timeShift idx p.tableSize]
        else []
    else []) ++
      if p.tables.dtsShifts.isSome ∧ packet.pts < packet.dts then
        [.access .dtsShifts idx (p.tableCount .dtsShifts)]
      else []

def shiftByFirstPackets : List AVPacket → Opening Unit
  | [] => return ()
  | packet :: rest => do
    let p ← Recorded.get
    .notes (packetShiftAccesses F p packet)
    modifyTables fun m => m.shiftByFirstPacket F.longNameMpegTs packet
    shiftByFirstPackets rest

/-- SOURCE: video/ffmpeg/decoding/parser.cpp:1898-1949 -/
def detectTimeShift (firstPackets : List AVPacket) : Opening Unit := do
  let p ← Recorded.get
  .notes ((streamIndices p.tables.streamCount.toNat).flatMap p.containerShiftAccesses)
  modifyTables (ParserFF.detectTimeShift F.longNameMpegTs [])
  shiftByFirstPackets F firstPackets

/-- SOURCE: video/ffmpeg/decoding/parser.cpp:1441-1522 -/
def detectVobChapters : Opening Unit := do
  let p ← Recorded.get
  if p.tables.streamCount ≤ 0 then
    modifyTables fun m => { m with defaultChapterListIndex := 0 }
  else
    match F.vobChapters with
    | .error e => .throw e
    | .ok found =>
      .modify fun p =>
        { p with
          tables := { p.tables with
            chapters := found.chapters
            defaultChapterListIndex := found.defaultChapterListIndex
            ahead := found.ahead }
          duration := found.duration
          nbStreams := p.nbStreams + found.newStreams }

/-- `detect_other_info` does nothing.
SOURCE: video/ffmpeg/decoding/parser.cpp:1077-1080, 1689-1790 -/
def detectChapters : Opening Unit := do
  let p ← Recorded.get
  if p.tables.formatVRO || p.tables.formatVOB then detectVobChapters F else return ()

/-- The chapters of an APNG are looked for before its first packets are read.
SOURCE: video/ffmpeg/decoding/parser.cpp:1073-1096 -/
def detectShiftsAndChapters : Opening Unit :=
  if F.nameApng then do
    detectChapters F
    let firstPackets ← getFirstPackets F
    detectTimeShift F firstPackets
  else do
    let firstPackets ← getFirstPackets F
    detectTimeShift F firstPackets
    detectChapters F

/-! ## The frame rate -/

/-- `CountAndPosition` -/
structure CountAndPosition where
  startPts : TimestampFF
  count : Int

/-- The local variables of `detect_fps`. -/
structure FpsProbe where
  packets : Int → CountAndPosition
  prevFps : Int
  prevFpsCount : Int

/-- `stream_to_global`.
SOURCE: video/ffmpeg/utils/utils.cpp:136-142 -/
def streamToGlobal (time : TimestampFF) (timeBase : Int × Int) : TimestampFF :=
  if time = avNoPtsValue then avNoPtsValue else avRescale time (timeBase.1 * avSecond) timeBase.2

/-- One packet of the loop: whether it ends, and the variables after it.
SOURCE: video/ffmpeg/decoding/parser.cpp:1173-1256 -/
def fpsStep (stream : AVStream) (packet : AVPacket) (probe : FpsProbe) : Bool × FpsProbe :=
  let idx := packet.streamIndex
  let info := probe.packets idx
  let pts := streamToGlobal packet.pts stream.timeBase
  let put (info : CountAndPosition) (probe : FpsProbe) : FpsProbe :=
    { probe with packets := Function.update probe.packets idx info }
  if pts = avNoPtsValue then (false, put { info with count := info.count + 1 } probe)
  else
    let info : CountAndPosition :=
      if info.startPts = avNoPtsValue then { startPts := pts, count := 0 } else info
    let info := { info with count := info.count + 1 }
    let diff := pts - info.startPts
    if diff = 0 then (false, put info probe)
    else if diff > 5 * avSecond then (true, put info probe)
    else if stream.codecType ≠ .video then (false, put info probe)
    else if info.count < 10 then (false, put info probe)
    else
      let currentFps := avRescale (info.count - 1) avSecond diff
      let probe :=
        { probe with
          prevFpsCount := if currentFps = probe.prevFps then probe.prevFpsCount + 1 else 0
          prevFps := currentFps }
      if currentFps < 25 then (false, put { info with count := 0 } probe)
      else if diff > avSecond / 2 then
        let res := avRescale (100 * currentFps) (F.availableFps idx).2 (F.availableFps idx).1
        if (res > 90 ∧ res < 110) ∨ (res > 190 ∧ res < 210 ∧ F.interlaced idx) then
          (true, put info probe)
        else (decide (diff > 3 * avSecond ∨ probe.prevFpsCount > 5), put info probe)
      else (false, put info probe)

/-- Every read takes a packet from the container, so the packets ahead bound the loop. -/
def detectFpsLoop : Nat → FpsProbe → Opening Unit
  | 0, _ => return ()
  | n + 1, probe => do
    let packet ← read F
    match packet with
    | none => return ()
    | some packet => do
      let p ← Recorded.get
      let step := fpsStep F (p.tables.streams packet.streamIndex) packet probe
      if step.1 then return () else detectFpsLoop n step.2

/-- SOURCE: video/ffmpeg/decoding/parser.cpp:1127-1257 -/
def detectFps : Opening Unit := do
  let p ← Recorded.get
  let videoStreams := (streamIndices p.tables.streamCount.toNat).filter fun i =>
    (p.tables.streams i).codecType = .video && F.countsForFps i
  if p.formatIMG || videoStreams.isEmpty then return ()
  else
    detectFpsLoop F p.tables.ahead.length
      { packets := fun _ => { startPts := avNoPtsValue, count := 0 }
        prevFps := avNoPtsValue, prevFpsCount := 0 }

/-! ## find_stream_info -/

/-- The table is cleared once for every stream of the header, so only the last one stays.
SOURCE: video/ffmpeg/decoding/parser.cpp:943-947 -/
def rememberHeaderStreams : Opening Unit := do
  accessAll [.streams] (streamIndices F.headerStreams)
  .modify fun p =>
    { p with
      lastSeekTs :=
        if F.headerStreams = 0 then p.lastSeekTs
        else Function.update (fun _ => none) (F.headerStreams - 1 : Nat) (some avNoPtsValue) }

/-- SOURCE: video/ffmpeg/decoding/parser.cpp:952-963 -/
def findJpeg2000 : List Int → Opening Bool
  | [] => return false
  | i :: rest => do
    access .streams i
    if F.isJpeg2000 i then return true else findJpeg2000 rest

/-- SOURCE: video/ffmpeg/decoding/parser.cpp:980-1042 -/
def sizeTables : Opening Unit := do
  .modify fun p =>
    { p with
      tables := { p.tables with
        streamCount := F.probedStreams
        timeShift := fun _ => 0
        genPts := fun _ => 0
        dtsShifts := if F.longNameMpegTs then some fun _ => 0 else p.tables.dtsShifts }
      nbStreams := F.probedStreams
      tableSize := F.probedStreams }
  accessAll [.streams] (streamIndices F.probedStreams)

/-- SOURCE: video/ffmpeg/decoding/parser.cpp:1044-1063 -/
def detectDvdNav : Opening Unit :=
  if F.longNameMpegPs then do
    accessAll [.streams] (streamIndices F.probedStreams)
    modifyTables fun m => { m with formatVOB := m.formatVOB || F.hasDvdNav }
  else return ()

/-- SOURCE: video/ffmpeg/decoding/parser.cpp:1100-1101 -/
def flush : Opening Unit := do
  let compressed ← isCompressedSwf F
  if compressed then return ()
  else modifyTables fun m => { m with ahead := F.flushed m.ahead }

/-- SOURCE: video/ffmpeg/decoding/parser.cpp:1103-1107 -/
def seekToStart : Opening Unit := do
  let p ← Recorded.get
  if p.getSeekStream F < p.tables.streamCount then seek F (p.getSeekStream F) 0
  else .throw (.thrown "Can't provide stream info: seek stream id < stream count")

/-- What is done once FFmpeg has found the streams.
SOURCE: video/ffmpeg/decoding/parser.cpp:980-1109 -/
def useStreams : Opening Bool := do
  sizeTables F
  detectDvdNav F
  detectShiftsAndChapters F
  detectFps F
  flush F
  seekToStart F
  return true

/-- SOURCE: video/ffmpeg/decoding/parser.cpp:938-1110 -/
def findStreamInfo : Opening Bool := do
  rememberHeaderStreams F
  if F.hasDrm then .throw (.thrown "Unsupported format - DRM encrypted M4P")
  else do
    let refused ← findJpeg2000 F (if F.nameMxf then streamIndices F.headerStreams else [])
    if refused || !F.infoFound then return false else useStreams F

end OpenParser

/-! ## Sessions -/

/-- The formats that `open_file` recognises. -/
structure FileFormat where
  formatSWF : Bool
  formatVOB : Bool
  formatVRO : Bool
  formatPIX : Bool
  formatMpegTs : Bool
  formatDAV : Bool
  formatASF : Bool
  deriving DecidableEq, Repr

/-- A parser whose container has been opened and not probed yet.
SOURCE: video/ffmpeg/decoding/parser.cpp:274-331, video/ffmpeg/decoding/parser.hpp:92-130 -/
def OpenParser.created (F : FFmpegInput) (format : FileFormat) (ahead : List AVPacket)
    (streams : Int → AVStream) (containerStartTime : TimestampFF) : OpenParser :=
  { tables := { ParserFF.opened ahead streams containerStartTime 0 with
      formatSWF := format.formatSWF
      formatVOB := format.formatVOB
      formatVRO := format.formatVRO
      formatMpegTs := format.formatMpegTs
      formatDAV := format.formatDAV
      formatASF := format.formatASF }
    nbStreams := F.headerStreams, tableSize := 0, lastSeekTs := fun _ => none,
    formatIMG := false, formatPIX := format.formatPIX, aviWithRepeatingPts := false,
    requests := 0, duration := F.duration }

/-- A call of the parser after the file was opened. -/
inductive ParserCall where
  | read
  | seek (index : Int) (time : TimestampFF)
  deriving DecidableEq, Repr

/-- A parser in use. -/
structure ParserSession where
  parser : OpenParser
  /-- everything recorded since `find_stream_info` began -/
  events : List ParserEvent
  /-- the packets returned since the file was opened or the last successful seek -/
  since : List AVPacket

namespace ParserSession

variable (F : FFmpegInput)

/-- The session after `find_stream_info`. -/
def opened (p : OpenParser) : ParserSession :=
  { parser := (OpenParser.findStreamInfo F p).1.2
    events := (OpenParser.findStreamInfo F p).2
    since := [] }

/-- One call; a call that throws leaves the parser as it is then. -/
def call (s : ParserSession) : ParserCall → ParserSession
  | .read =>
    { parser := (OpenParser.read F s.parser).1.2
      events := s.events ++ (OpenParser.read F s.parser).2
      since := s.since ++ ((OpenParser.read F s.parser).1.1.toOption.bind id).toList }
  | .seek index time =>
    { parser := (OpenParser.seek F index time s.parser).1.2
      events := s.events ++ (OpenParser.seek F index time s.parser).2
      since := if (OpenParser.seek F index time s.parser).1.1.isOk then [] else s.since }

/-- A file that was opened, and the calls made since. -/
def machine (p : OpenParser) : Machine ParserSession ParserCall where
  init := opened F p
  step s c := some (s.call F c)

end ParserSession

end Seekira.Model
