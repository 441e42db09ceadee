import Mathlib.Logic.Function.Basic
import Seekira.Model.DecoderVideo

/-!
# The parser's packets

`ParserFF::read_packet` takes the next packet of the container, copies it, releases
the original and corrects the copy's timestamps with tables that hold one entry per
stream.  What the container is going to return is a list; stream ids are the
container's `int`s here, since the parser is the one to check them.
-/

set_option autoImplicit false

namespace Seekira.Model

/-- What `read_packet` reads and writes of an `AVPacket`. -/
structure AVPacket where
  streamIndex : Int
  pts : TimestampFF
  dts : TimestampFF
  duration : TimeFF
  pos : Int
  flags : Nat
  deriving DecidableEq, Repr

/-- `av_packet_unref`: the fields get their defaults. -/
def AVPacket.unref (_ : AVPacket) : AVPacket :=
  { streamIndex := 0, pts := avNoPtsValue, dts := avNoPtsValue, duration := 0, pos := -1, flags := 0 }

/-- `AV_PKT_FLAG_KEY` -/
def avPktFlagKey : Nat := 1

/-- `AVMediaType` -/
inductive AVMediaType where
  | unknown
  | video
  | audio
  | data
  | subtitle
  | attachment
  deriving DecidableEq, Repr

/-- What the parser reads of an `AVStream`. -/
structure AVStream where
  codecType : AVMediaType
  /-- `codec_id` is `AV_CODEC_ID_APNG` -/
  isApng : Bool
  startTime : TimestampFF
  duration : TimeFF
  /-- `time_base`, numerator and denominator -/
  timeBase : Int × Int
  deriving DecidableEq, Repr

/-- SOURCE: video/ffmpeg/decoding/parser.hpp:81-88 -/
structure ChapterVOB where
  timeShift : TimeFF
  posStart : Int
  posEnd : Int
  deriving DecidableEq, Repr

/-- SOURCE: video/ffmpeg/decoding/parser.hpp:92-130 -/
structure ParserFF where
  /-- the packets that `read_frame_fixed` is going to return -/
  ahead : List AVPacket
  streams : Int → AVStream
  /-- `start_time` of the container -/
  containerStartTime : TimestampFF
  streamCount : Int
  genPts : Int → TimestampFF
  timeShift : Int → TimeFF
  firstPktPos : Int
  /-- `m_dts_shifts`, which is empty outside MPEG-TS -/
  dtsShifts : Option (Int → TimestampFF)
  firstStreamPktReceived : Int → Bool
  defaultChapterListIndex : Int
  currentChapter : Int → Option Int
  chapters : Int → Option (List ChapterVOB)
  /-- pts and duration of the last packet whose pts was restored -/
  prevPktTimes : Int → Option (TimestampFF × TimeFF)
  formatSWF : Bool
  formatVOB : Bool
  formatVRO : Bool
  formatMpegTs : Bool
  formatDAV : Bool
  formatASF : Bool

namespace ParserFF

/-- The parser of a container, before anything was read.
SOURCE: video/ffmpeg/decoding/parser.cpp:980-985, 1027, 1041 -/
def opened (ahead : List AVPacket) (streams : Int → AVStream) (containerStartTime : TimestampFF)
    (streamCount : Int) : ParserFF :=
  { ahead := ahead, streams := streams, containerStartTime := containerStartTime,
    streamCount := streamCount, genPts := fun _ => 0, timeShift := fun _ => 0,
    firstPktPos := avNoPtsValue, dtsShifts := none, firstStreamPktReceived := fun _ => false,
    defaultChapterListIndex := -1, currentChapter := fun _ => none, chapters := fun _ => none,
    prevPktTimes := fun _ => none, formatSWF := false, formatVOB := false, formatVRO := false,
    formatMpegTs := false, formatDAV := false, formatASF := false }

/-- SOURCE: video/ffmpeg/decoding/parser.cpp:34-40 -/
def mpegTsTimeStampWrapAround (startTime currentTime : TimestampFF) : TimestampFF :=
  if startTime > 0x0FFFFFFFF ∧ currentTime < 0x0FFFFFFFF then currentTime + 0x1FFFFFFFF
  else currentTime

/-- SOURCE: video/ffmpeg/decoding/parser.cpp:882-892 -/
def calcContainerShift (index : Int) (m : ParserFF) : TimeFF :=
  if m.containerStartTime ≠ avNoPtsValue ∧ m.containerStartTime ≠ 0 then
    avRescale m.containerStartTime (m.streams index).timeBase.2
      (avSecond * (m.streams index).timeBase.1)
  else 0

/-- The shift of one of the first packets, by the MPEG-TS rule.
SOURCE: video/ffmpeg/decoding/parser.cpp:1913-1948 -/
def shiftByFirstPacket (isMpegTs : Bool) (m : ParserFF) (pkt : AVPacket) : ParserFF :=
  if pkt.pts = avNoPtsValue ∨ pkt.dts = avNoPtsValue then m
  else
    let idx := pkt.streamIndex
    let stream := m.streams idx
    let m :=
      if isMpegTs ∧ stream.startTime ≠ avNoPtsValue ∧ stream.duration ≠ avNoPtsValue ∧
          stream.duration + stream.startTime < pkt.pts then
        { m with
          timeShift := Function.update m.timeShift idx (m.timeShift idx + (pkt.pts - stream.startTime)) }
      else m
    match m.dtsShifts with
    | some shifts =>
      if pkt.pts < pkt.dts then
        { m with dtsShifts := some (Function.update shifts idx (pkt.dts - pkt.pts)) }
      else m
    | none => m

/-- SOURCE: video/ffmpeg/decoding/parser.cpp:1898-1949 -/
def detectTimeShift (isMpegTs : Bool) (firstPackets : List AVPacket) (m : ParserFF) : ParserFF :=
  let m :=
    { m with
      timeShift := fun i =>
        if 0 ≤ i ∧ i < m.streamCount ∧ m.calcContainerShift i ≠ 0 then m.calcContainerShift i
        else m.timeShift i }
  firstPackets.foldl (shiftByFirstPacket isMpegTs) m

/-- The timestamps that a seek leaves for packets without any.
SOURCE: video/ffmpeg/decoding/parser.cpp:569-574 -/
def fillGenPts (time : TimestampFF) (m : ParserFF) : ParserFF :=
  { m with
    genPts := fun i =>
      if 0 ≤ i ∧ i < m.streamCount then
        avRescale time (m.streams i).timeBase.2 (avSecond * (m.streams i).timeBase.1)
      else m.genPts i }

/-- The loop of `read_packet` that skips packets of streams that do not exist.
SOURCE: video/ffmpeg/decoding/parser.cpp:687-708 -/
def nextPacket : List AVPacket → ParserFF → Option AVPacket × ParserFF
  | [], m => (none, { m with ahead := [] })
  | pkt :: rest, m =>
    let m :=
      { m with
        ahead := rest
        firstPktPos := if m.firstPktPos = avNoPtsValue then pkt.pos else m.firstPktPos }
    if pkt.streamIndex ≥ 0 ∧ pkt.streamIndex < m.streamCount then (some pkt, m)
    else nextPacket rest m

/-- SOURCE: video/ffmpeg/decoding/parser.cpp:821-856 -/
def restorePacketPts (pkt : AVPacket) (m : ParserFF) : AVPacket × ParserFF :=
  if pkt.pts ≠ avNoPtsValue then
    (pkt, { m with prevPktTimes := Function.update m.prevPktTimes pkt.streamIndex none })
  else
    match m.prevPktTimes pkt.streamIndex with
    | none =>
      if !m.firstStreamPktReceived pkt.streamIndex then
        ({ pkt with pts := 0, dts := 0 },
          { m with
            prevPktTimes := Function.update m.prevPktTimes pkt.streamIndex (some (0, pkt.duration)) })
      else (pkt, m)
    | some (prevPts, prevDur) =>
      ({ pkt with pts := prevPts + prevDur, dts := prevPts + prevDur },
        { m with
          prevPktTimes :=
            Function.update m.prevPktTimes pkt.streamIndex (some (prevPts + prevDur, pkt.duration)) })

/-- SOURCE: video/ffmpeg/decoding/parser.cpp:858-880 -/
def detectRuntimeTimeshift (pkt : AVPacket) (m : ParserFF) : ParserFF :=
  let idx := pkt.streamIndex
  if m.firstStreamPktReceived idx then m
  else if !(m.streams idx).isApng then m
  else
    let startTime := (m.streams idx).startTime
    if startTime ≠ avNoPtsValue ∧ pkt.pts ≠ avNoPtsValue ∧ pkt.pts > startTime then
      { m with
        timeShift :=
          Function.update m.timeShift idx ((pkt.pts - startTime) + m.calcContainerShift idx)
        firstStreamPktReceived := Function.update m.firstStreamPktReceived idx true }
    else m

/-! ## Chapters of VOB and VRO -/

/-- The last chapter that starts at or before `pos`; `-1` when there is none.
SOURCE: video/ffmpeg/decoding/parser.cpp:740-748 -/
def beginChapter (pos : Int) (chapters : List ChapterVOB) : Int :=
  match (List.range chapters.length).reverse.find? fun i =>
      (chapters[i]?.map fun c => decide (c.posStart ≤ pos)).getD false with
  | some i => i
  | none => -1

/-- The chapter at `current`, when the index is one. -/
def chapterAt (chapters : List ChapterVOB) (current : Int) : Option ChapterVOB :=
  if current < 0 ∨ current ≥ chapters.length then none else chapters[current.toNat]?

/-- The chapter a packet belongs to, from the chapter of the packet before.
SOURCE: video/ffmpeg/decoding/parser.cpp:734-759 -/
def packetChapter (packet : AVPacket) (chapters : List ChapterVOB) (current : Int) : Int :=
  if packet.pos > 0 then
    match chapterAt chapters current with
    | none => beginChapter packet.pos chapters
    | some c =>
      if c.posStart > packet.pos ∨ c.posEnd < packet.pos then beginChapter packet.pos chapters
      else current
  else if (chapterAt chapters current).isNone then 0
  else current

/-- Find the chapter of the packet and remember it; reading the tables creates missing entries.
SOURCE: video/ffmpeg/decoding/parser.cpp:728-759 -/
def enterChapter (packet : AVPacket) (m : ParserFF) : Option ChapterVOB × ParserFF :=
  let key :=
    if (m.chapters packet.streamIndex).isSome then packet.streamIndex else m.defaultChapterListIndex
  let chapters := (m.chapters key).getD []
  let current := packetChapter packet chapters ((m.currentChapter key).getD 0)
  (chapterAt chapters current,
    { m with
      currentChapter := Function.update m.currentChapter key (some current)
      chapters := Function.update m.chapters key (some chapters) })

/-- SOURCE: video/ffmpeg/decoding/parser.cpp:728-775 -/
def correctByChapter (packet : AVPacket) (m : ParserFF) : AVPacket × ParserFF :=
  let (chapter, m) := m.enterChapter packet
  match chapter with
  | some c =>
    ({ packet with
        pts := if packet.pts ≠ avNoPtsValue then packet.pts + c.timeShift else packet.pts
        dts := if packet.dts ≠ avNoPtsValue then packet.dts + c.timeShift else packet.dts }, m)
  | none => (packet, m)

/-! ## Shifts -/

/-- SOURCE: video/ffmpeg/decoding/parser.cpp:778-806 -/
def correctByShift (streamIndex : Int) (packet : AVPacket) (m : ParserFF) : AVPacket × ParserFF :=
  let packet :=
    if m.formatMpegTs then
      { packet with
        pts := mpegTsTimeStampWrapAround (m.timeShift streamIndex) packet.pts
        dts := mpegTsTimeStampWrapAround (m.timeShift streamIndex) packet.dts }
    else packet
  if (m.streams streamIndex).startTime ≠ avNoPtsValue then
    ({ packet with
        pts := if packet.pts ≠ avNoPtsValue then packet.pts - m.timeShift streamIndex else packet.pts
        dts := if packet.dts ≠ avNoPtsValue then packet.dts - m.timeShift streamIndex else packet.dts },
      m)
  else if packet.pts = avNoPtsValue ∧ packet.dts = avNoPtsValue ∧
      m.genPts streamIndex ≠ avNoPtsValue then
    ({ packet with pts := m.genPts streamIndex },
      { m with genPts := Function.update m.genPts streamIndex avNoPtsValue })
  else (packet, m)

/-- The corrections of stream `streamIndex`, applied to a packet.
SOURCE: video/ffmpeg/decoding/parser.cpp:725-806 -/
def correct (streamIndex : Int) (packet : AVPacket) (m : ParserFF) : AVPacket × ParserFF :=
  if (m.formatVRO || m.formatVOB) && (m.streams streamIndex).codecType ≠ .data then
    m.correctByChapter packet
  else m.correctByShift streamIndex packet

/-- What happens to the copy before its stream is looked up.
SOURCE: video/ffmpeg/decoding/parser.cpp:714-720 -/
def prepare (packet : AVPacket) (m : ParserFF) : AVPacket × ParserFF :=
  let (packet, m) :=
    if m.formatDAV || m.formatASF then m.restorePacketPts packet else (packet, m)
  let m := m.detectRuntimeTimeshift packet
  match m.dtsShifts with
  | some shifts => ({ packet with dts := packet.dts - shifts packet.streamIndex }, m)
  | none => (packet, m)

/-- SWF packets carry no key flag of their own.
SOURCE: video/ffmpeg/decoding/parser.cpp:808-816 -/
def markKey (packet : AVPacket) (m : ParserFF) : AVPacket :=
  if m.formatSWF && (m.streams packet.streamIndex).codecType = .video then
    { packet with flags := packet.flags ||| avPktFlagKey }
  else packet

/-- `read_packet`.  The stream index is read from the original after its release.
SOURCE: video/ffmpeg/decoding/parser.cpp:682-819 -/
def readPacket (m : ParserFF) : Option AVPacket × ParserFF :=
  match nextPacket m.ahead m with
  | (none, m) => (none, m)
  | (some pkt, m) =>
    let packet := pkt
    let pkt := pkt.unref
    let (packet, m) := m.prepare packet
    let streamIndex := pkt.streamIndex
    let (packet, m) := m.correct streamIndex packet
    (some (m.markKey packet), m)

end ParserFF

end Seekira.Model
