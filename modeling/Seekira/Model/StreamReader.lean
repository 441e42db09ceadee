import Mathlib.Logic.Function.Basic
import Seekira.Model.DecoderVideo

/-!
# The stream reader

`StreamReader` joins the seeks of its streams into one search of the demuxer and
asks every stream that requested a seek whether it accepts the result.  The
streams and the reader hold pointers to each other, so their fields form one
state here.

The demuxer is the interface `IDemuxer`.  The streams use their mutexes one call
at a time, so a call is one procedure.
-/

set_option autoImplicit false

namespace Seekira.Model

open Library

/-- The demuxer as the streams use it.
SOURCE: video/ffmpeg/interfaces/demuxer.hpp:9-30 -/
structure IDemuxer (δ : Type) where
  streamType : StreamId → MediaType
  streamDuration : StreamId → TimeFF
  read : StreamId → Proc Fault δ (Option DataPacket)
  seek : TimestampFF → Proc Fault δ TimestampFF
  isEofReached : δ → Bool
  /-- a bound on the packets that reads return before the next seek -/
  remaining : δ → Nat

/-- SOURCE: video/ffmpeg/decoding/stream_reader.hpp:69-79 -/
structure StreamInfo where
  isStreamEnabled : Bool
  seekTime : TimestampFF
  seekResultCheckers : List StreamId
  seekAlreadyDone : Bool
  deriving DecidableEq, Repr

namespace StreamInfo

/-- SOURCE: video/ffmpeg/decoding/stream_reader.cpp:50-74 -/
def requestSeek (time : TimestampFF) (resultChecker : StreamId) (info : StreamInfo) : StreamInfo :=
  if !info.isStreamEnabled then info
  else
    { info with
      seekAlreadyDone := false
      seekResultCheckers :=
        if resultChecker ∈ info.seekResultCheckers then info.seekResultCheckers
        else resultChecker :: info.seekResultCheckers
      seekTime :=
        if info.seekTime > time ∨ info.seekTime = avNoPtsValue then time else info.seekTime }

/-- SOURCE: video/ffmpeg/decoding/stream_reader.cpp:113-117 -/
def resetStateAfterSeek (info : StreamInfo) : StreamInfo :=
  { info with seekTime := avNoPtsValue, seekResultCheckers := [] }

/-- SOURCE: video/ffmpeg/decoding/stream_reader.cpp:107-111 -/
def resetStateBeforeSeek (info : StreamInfo) : StreamInfo :=
  { info with seekAlreadyDone := false }.resetStateAfterSeek

end StreamInfo

/-- `decoder` is what `m_video_decoder` points to; the pointer of a stream that is not a video stream
is null, and the field then means nothing.
SOURCE: video/ffmpeg/decoding/stream_reader.hpp:42-62, video/ffmpeg/decoding/stream.cpp:18-24 -/
structure DemuxedStream (κ : Type) where
  /-- `m_reader` is not null -/
  hasReader : Bool
  position : TimestampFF
  seekPosition : TimestampFF
  bufferedPacket : Option DataPacket
  terminated : Bool
  processedPktCount : Nat
  decoder : DecoderVideo κ
  bufferedData : Option Frame
  processedFrameCount : Nat
  lastSeekResult : Bool
  lastKeyFrame : Bool

/-- A stream as its constructor leaves it.
SOURCE: video/ffmpeg/decoding/stream.cpp:7-24 -/
def DemuxedStream.create {κ : Type} (decoder : DecoderVideo κ) : DemuxedStream κ :=
  { hasReader := true, position := 0, seekPosition := 0, bufferedPacket := none,
    terminated := false, processedPktCount := 0, decoder := decoder, bufferedData := none,
    processedFrameCount := 0, lastSeekResult := false, lastKeyFrame := false }

/-- The reader, its table of streams and the streams themselves.
SOURCE: video/ffmpeg/decoding/stream_reader.hpp:94-98 -/
structure StreamReader (δ κ : Type) where
  demuxer : δ
  streamCount : Nat
  infos : StreamId → StreamInfo
  streams : StreamId → DemuxedStream κ

namespace StreamReader

variable {δ κ : Type} (D : IDemuxer δ)

def setInfo (s : StreamId) (info : StreamInfo) (r : StreamReader δ κ) : StreamReader δ κ :=
  { r with infos := Function.update r.infos s info }

def setStream (s : StreamId) (st : DemuxedStream κ) (r : StreamReader δ κ) : StreamReader δ κ :=
  { r with streams := Function.update r.streams s st }

/-- Update the fields of stream `s`. -/
def modifyStream (s : StreamId) (f : DemuxedStream κ → DemuxedStream κ) :
    Proc Fault (StreamReader δ κ) Unit :=
  Proc.modify fun r => r.setStream s (f (r.streams s))

/-- Update the entry of stream `s`. -/
def modifyInfo (s : StreamId) (f : StreamInfo → StreamInfo) :
    Proc Fault (StreamReader δ κ) Unit :=
  Proc.modify fun r => r.setInfo s (f (r.infos s))

/-- Call a method of the demuxer. -/
def onDemuxer {α : Type} (p : Proc Fault δ α) : Proc Fault (StreamReader δ κ) α :=
  Proc.zoom (fun r => r.demuxer) (fun d r => { r with demuxer := d }) p

/-- Call a method of the decoder of stream `s`. -/
def onDecoder {α : Type} (s : StreamId) (p : Proc Fault (DecoderVideo κ) α) :
    Proc Fault (StreamReader δ κ) α :=
  Proc.zoom (fun r => (r.streams s).decoder)
    (fun d r => r.setStream s { r.streams s with decoder := d }) p

/-! ## Methods of `DemuxedStream` that the reader calls -/

/-- The loop of `get_seek_result`: for a seek past zero, read up to a key packet.
SOURCE: video/ffmpeg/decoding/stream.cpp:188-203 -/
def seekResultLoop (s : StreamId) : Nat → Proc Fault (StreamReader δ κ) Unit
  | 0 => Proc.throw .diverged
  | fuel + 1 => do
    let packet ← onDemuxer (D.read s)
    modifyStream s fun st => { st with bufferedPacket := packet }
    let r ← Proc.get
    match packet with
    | none => return ()
    | some p =>
      if (r.streams s).seekPosition ≤ 0 || p.isKeyFrame then
        return ()
      seekResultLoop s fuel

/-- `DemuxedStream::get_seek_result`.
SOURCE: video/ffmpeg/decoding/stream.cpp:184-214 -/
def getSeekResult (s : StreamId) : Proc Fault (StreamReader δ κ) Bool := do
  let r ← Proc.get
  seekResultLoop D s (D.remaining r.demuxer + 1)
  let r ← Proc.get
  match (r.streams s).bufferedPacket with
  | none =>
    modifyStream s fun st => { st with position := avNoPtsValue }
    return false
  | some p =>
    modifyStream s fun st =>
      { st with
        position := p.ptsOrDts
        lastSeekResult := decide (p.ptsOrDts ≤ st.seekPosition) && p.isKeyFrame }
    return decide (p.ptsOrDts ≤ (r.streams s).seekPosition) && p.isKeyFrame

/-! ## The joint seek -/

/-- The loop of `StreamInfo::get_seek_result` over the checkers: past zero the first refusal ends
it.
SOURCE: video/ffmpeg/decoding/stream_reader.cpp:79-98 -/
def checkResults (seekTime : TimestampFF) : List StreamId → Proc Fault (StreamReader δ κ) Bool
  | [] => pure true
  | checker :: rest => do
    let checkResult ← getSeekResult D checker
    if checkResult then
      checkResults seekTime rest
    else if seekTime > 0 then
      return false
    else
      let _ ← checkResults seekTime rest
      return false

/-- `StreamInfo::get_seek_result` of stream `i`.
SOURCE: video/ffmpeg/decoding/stream_reader.cpp:76-101 -/
def infoSeekResult (seekTime : TimestampFF) (i : StreamId) : Proc Fault (StreamReader δ κ) Bool :=
  do
    modifyInfo i fun info => { info with seekAlreadyDone := true }
    let r ← Proc.get
    checkResults D seekTime (r.infos i).seekResultCheckers

/-- The results of all streams; past zero the first refusal ends the loop.
SOURCE: video/ffmpeg/decoding/stream_reader.cpp:258-277 -/
def seekResults (seekPos : TimestampFF) : List StreamId → Proc Fault (StreamReader δ κ) Bool
  | [] => pure true
  | i :: rest => do
    let result ← infoSeekResult D seekPos i
    if result then
      seekResults seekPos rest
    else if seekPos > 0 then
      return false
    else
      let _ ← seekResults seekPos rest
      return false

/-- The minimum of the requested times of the enabled streams; throws when one of them requested
none.
SOURCE: video/ffmpeg/decoding/stream_reader.cpp:212-230 -/
def minSeekPosition (infos : StreamId → StreamInfo) :
    List StreamId → TimestampFF → Except Fault TimestampFF
  | [], seekPos => .ok seekPos
  | i :: rest, seekPos =>
    if !(infos i).isStreamEnabled then minSeekPosition infos rest seekPos
    else if (infos i).seekTime = avNoPtsValue then .error (.thrown "Unexpected seek")
    else if seekPos = avNoPtsValue ∨ seekPos > (infos i).seekTime then
      minSeekPosition infos rest (infos i).seekTime
    else minSeekPosition infos rest seekPos

/-- `MAX_STEP` -/
def maxStep : TimeFF := 16 * avSecond

/-- `MAX_TIME_SHIFT` -/
def maxTimeShift : TimeFF := 60 * avSecond

/-- The retry loop: search the demuxer from `seekPos` less the current step back, and stop once
every stream accepts or zero was tried.
SOURCE: video/ffmpeg/decoding/stream_reader.cpp:237-292 -/
def seekLoop (startSeekPos : TimestampFF) :
    Nat → TimestampFF → TimeFF → Proc Fault (StreamReader δ κ) Unit
  | 0, _, _ => Proc.throw .diverged
  | fuel + 1, seekPos, seekTimeshift => do
    if seekPos < 0 then
      return ()
    let stepBack := decide (seekPos ≥ seekTimeshift) &&
      decide (startSeekPos - seekPos < maxTimeShift)
    let seekTimeshift' :=
      if stepBack && decide (seekTimeshift < maxStep) then
        (if seekTimeshift ≠ 0 then seekTimeshift * 2 else avSecond)
      else seekTimeshift
    let seekPos := if stepBack then seekPos - seekTimeshift else 0
    let demuxerPos ← onDemuxer (D.seek seekPos)
    let seekPos := if demuxerPos < seekPos then demuxerPos else seekPos
    let r ← Proc.get
    let result ← seekResults D seekPos (List.range r.streamCount)
    if result || seekPos = 0 then
      return ()
    seekLoop startSeekPos fuel seekPos seekTimeshift'

/-- `StreamReader::seek`.
SOURCE: video/ffmpeg/decoding/stream_reader.cpp:187-298 -/
def seek (s : StreamId) : Proc Fault (StreamReader δ κ) Unit := do
  let r ← Proc.get
  if s ≥ r.streamCount || !(r.infos s).isStreamEnabled then
    Proc.throw (.thrown "Unexpected seek index")
  if (r.infos s).seekAlreadyDone then
    modifyInfo s StreamInfo.resetStateBeforeSeek
  else
    match minSeekPosition r.infos (List.range r.streamCount) avNoPtsValue with
    | .error e => Proc.throw e
    | .ok seekPos =>
      -- the steps 0, 1, 2, 4, 8, 16, 16, 16 s leave the last minute, so zero is tried at the latest
      -- in the ninth round
      seekLoop D seekPos 16 seekPos 0
      Proc.modify fun r =>
        { r with
          infos := fun i => if i < r.streamCount then (r.infos i).resetStateAfterSeek else r.infos i }
      modifyInfo s StreamInfo.resetStateBeforeSeek

end StreamReader

end Seekira.Model
