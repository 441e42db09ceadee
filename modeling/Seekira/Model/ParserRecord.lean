import Seekira.Library.Recorded
import Seekira.Model.Parser

/-!
# The corrections of a packet's timestamps

`read_packet` with a record of what it does to timestamps: the values it makes up for packets
without any, and the value that each shift, wrap or correction is applied to.  `TimestampSentinel`
shows that it is `read_packet` once the record is erased.
-/

set_option autoImplicit false

namespace Seekira.Model

open Library

inductive TimestampStep where
  /-- `restore_packet_pts` fills pts and dts -/
  | restored
  /-- pts is taken from `m_gen_pts` -/
  | generated
  /-- a shift, the wrap or the dts correction is applied to the value -/
  | corrected (before : TimestampFF)
  deriving DecidableEq, Repr

namespace ParserFF

/-- Enter a correction that is made only of known values. -/
def noteKnown (t : TimestampFF) : Recorded Fault TimestampStep ParserFF Unit :=
  if t ≠ avNoPtsValue then .note (.corrected t) else pure ()

/-- `restore_packet_pts` fills the packet.
SOURCE: video/ffmpeg/decoding/parser.cpp:834-851 -/
def restores (packet : AVPacket) (m : ParserFF) : Bool :=
  packet.pts = avNoPtsValue && ((m.prevPktTimes packet.streamIndex).isSome ||
    !m.firstStreamPktReceived packet.streamIndex)

/-- Enter that `restore_packet_pts` fills the packet. -/
def noteRestored (packet : AVPacket) : Recorded Fault TimestampStep ParserFF Unit := do
  let m ← .lift Proc.get
  if m.restores packet then .note .restored else return ()

/-- The restoration for DAV and ASF, with its record.
SOURCE: video/ffmpeg/decoding/parser.cpp:714-717 -/
def recordedRestore (packet : AVPacket) : Recorded Fault TimestampStep ParserFF AVPacket := do
  let m ← .lift Proc.get
  if m.formatDAV || m.formatASF then do
    noteRestored packet
    .lift (Proc.total (restorePacketPts packet))
  else return packet

/-- The correction of dts, with its record.
SOURCE: video/ffmpeg/decoding/parser.cpp:719-720 -/
def recordedDtsShift (packet : AVPacket) : Recorded Fault TimestampStep ParserFF AVPacket := do
  let m ← .lift Proc.get
  match m.dtsShifts with
  | some shifts => do
    .note (.corrected packet.dts)
    return { packet with dts := packet.dts - shifts packet.streamIndex }
  | none => return packet

/-- `prepare` with its record. -/
def recordedPrepare (packet : AVPacket) : Recorded Fault TimestampStep ParserFF AVPacket := do
  let packet ← recordedRestore packet
  .lift (Proc.modify (detectRuntimeTimeshift packet))
  recordedDtsShift packet

/-- `correctByChapter` with its record. -/
def recordedCorrectByChapter (packet : AVPacket) :
    Recorded Fault TimestampStep ParserFF AVPacket := do
  let chapter ← .lift (Proc.total (enterChapter packet))
  match chapter with
  | some c => do
    noteKnown packet.pts
    noteKnown packet.dts
    return { packet with
      pts := if packet.pts ≠ avNoPtsValue then packet.pts + c.timeShift else packet.pts
      dts := if packet.dts ≠ avNoPtsValue then packet.dts + c.timeShift else packet.dts }
  | none => return packet

/-- The MPEG-TS wrap, with its record.
SOURCE: video/ffmpeg/decoding/parser.cpp:778-782 -/
def recordedWrap (streamIndex : Int) (packet : AVPacket) :
    Recorded Fault TimestampStep ParserFF AVPacket := do
  let m ← .lift Proc.get
  if m.formatMpegTs then do
    .note (.corrected packet.pts)
    .note (.corrected packet.dts)
    return { packet with
      pts := mpegTsTimeStampWrapAround (m.timeShift streamIndex) packet.pts
      dts := mpegTsTimeStampWrapAround (m.timeShift streamIndex) packet.dts }
  else return packet

/-- `correctByShift` with its record. -/
def recordedCorrectByShift (streamIndex : Int) (packet : AVPacket) :
    Recorded Fault TimestampStep ParserFF AVPacket := do
  let packet ← recordedWrap streamIndex packet
  let m ← .lift Proc.get
  if (m.streams streamIndex).startTime ≠ avNoPtsValue then do
    noteKnown packet.pts
    noteKnown packet.dts
    return { packet with
      pts := if packet.pts ≠ avNoPtsValue then packet.pts - m.timeShift streamIndex else packet.pts
      dts := if packet.dts ≠ avNoPtsValue then packet.dts - m.timeShift streamIndex else packet.dts }
  else if packet.pts = avNoPtsValue ∧ packet.dts = avNoPtsValue ∧
      m.genPts streamIndex ≠ avNoPtsValue then do
    .note .generated
    .lift (Proc.modify fun m =>
      { m with genPts := Function.update m.genPts streamIndex avNoPtsValue })
    return { packet with pts := m.genPts streamIndex }
  else return packet

/-- `correct` with its record. -/
def recordedCorrect (streamIndex : Int) (packet : AVPacket) :
    Recorded Fault TimestampStep ParserFF AVPacket := do
  let m ← .lift Proc.get
  if (m.formatVRO || m.formatVOB) && (m.streams streamIndex).codecType ≠ .data then
    recordedCorrectByChapter packet
  else recordedCorrectByShift streamIndex packet

/-- `readPacket` with its record.
SOURCE: video/ffmpeg/decoding/parser.cpp:682-819 -/
def recordedReadPacket : Recorded Fault TimestampStep ParserFF (Option AVPacket) := do
  let pkt ← .lift (Proc.total fun m => nextPacket m.ahead m)
  match pkt with
  | none => return none
  | some pkt => do
    let packet := pkt
    let pkt := pkt.unref
    let packet ← recordedPrepare packet
    let packet ← recordedCorrect pkt.streamIndex packet
    let m ← .lift Proc.get
    return some (m.markKey packet)

end ParserFF

end Seekira.Model
