import Seekira.Model.DemuxerQueue
import Seekira.Model.ParserOpening

/-!
# The parser as the demuxer sees it

`ParserFF::read` hands each packet on with its times in microseconds.  Where the parser
stands decides what it is going to return, so to the demuxer it is the list of these
packets, and a seek takes place at the one that the demuxer has read up to.

The size of a packet's data is a parameter: the parser does not look at it.
-/

set_option autoImplicit false

namespace Seekira.Model.OpenParser

variable (F : FFmpegInput) (sizeOf : AVPacket → Int)

/-- SOURCE: video/ffmpeg/decoding/parser.cpp:432-446 -/
def getStreamType (p : OpenParser) (index : Int) : MediaType :=
  if p.tables.streamCount ≤ index then .undefined
  else
    match (p.tables.streams index).codecType with
    | .audio => .audio
    | .video => .video
    | _ => .undefined

/-- The packet that `read` makes of one of a stream.
SOURCE: video/ffmpeg/decoding/parser.cpp:657-680, video/ffmpeg/decoding/data_packet.hpp:51-75 -/
def dataPacket (stream : AVStream) (packet : AVPacket) : DataPacket :=
  { streamIndex := packet.streamIndex.toNat
    pts := streamToGlobal packet.pts stream.timeBase
    dts := streamToGlobal packet.dts stream.timeBase
    duration := streamToGlobal packet.duration stream.timeBase
    isKeyFrame := packet.flags &&& avPktFlagKey ≠ 0
    size := sizeOf packet }

/-- What the next calls of `read` return. -/
def readAll : Nat → OpenParser → List DataPacket
  | 0, _ => []
  | n + 1, p =>
    match (read F p).1 with
    | (.ok (some packet), p') =>
      dataPacket sizeOf (p'.tables.streams packet.streamIndex) packet :: readAll n p'
    | _ => []

/-- What the parser is going to return: every call takes a packet from the container. -/
def pending (p : OpenParser) : List DataPacket := readAll F sizeOf p.tables.ahead.length p

/-- The parser after some calls of `read`. -/
def afterReads : Nat → OpenParser → OpenParser
  | 0, p => p
  | n + 1, p => afterReads n (read F p).1.2

/-- A seek when the packets `ahead` are left to the demuxer: whether it returns, and the parser
after it. -/
def seekAhead (index : Int) (time : TimestampFF) (ahead : List DataPacket) (p : OpenParser) :
    Bool × OpenParser :=
  let p := afterReads F ((pending F sizeOf p).length - ahead.length) p
  ((seek F index time p).1.1.isOk, (seek F index time p).1.2)

/-- What reading and seeking keep. -/
structure KeptInUse (I : OpenParser → Prop) : Prop where
  read : ∀ p, I p → I (read F p).1.2
  seek : ∀ index time p, I p → I (seek F index time p).1.2

variable {F} {I : OpenParser → Prop}

theorem KeptInUse.afterReads (hI : KeptInUse F I) (n : Nat) {p : OpenParser} (hp : I p) :
    I (afterReads F n p) := by
  induction n generalizing p with
  | zero => exact hp
  | succ n ih => exact ih (hI.read p hp)

theorem KeptInUse.seekAhead (hI : KeptInUse F I) (index : Int) (time : TimestampFF)
    (ahead : List DataPacket) {p : OpenParser} (hp : I p) :
    I (seekAhead F sizeOf index time ahead p).2 :=
  hI.seek index time _ (hI.afterReads _ hp)

/-- The parser of an open file with at least one stream, as the demuxer uses it.
SOURCE: video/ffmpeg/decoding/parser.cpp:428-446, 509-601, 1409-1426 -/
def parserOps (hI : KeptInUse F I) (p₀ : OpenParser) : ParserOps {p // I p} where
  streamCount := p₀.tables.streamCount.toNat
  streamType index := p₀.getStreamType index
  streamDuration _ := p₀.duration
  seekStream := (p₀.getSeekStream F).toNat
  seek index time ahead p :=
    ((seekAhead F sizeOf index time ahead p.1).1,
      pending F sizeOf (seekAhead F sizeOf index time ahead p.1).2,
      ⟨(seekAhead F sizeOf index time ahead p.1).2, hI.seekAhead sizeOf index time ahead p.2⟩)

end Seekira.Model.OpenParser
