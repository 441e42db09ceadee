import Seekira.Model.StreamReader

/-!
# One stream of a file

`DemuxedStream` reads the packets of its stream through the reader, decodes them
and answers for the result of its seeks.  `read_frame` repeats passes: a pass
returns the decoded frame that is ready, or feeds the decoder one packet, null at
the end of the stream.
-/

set_option autoImplicit false

namespace Seekira.Model.StreamReader

open Library

variable {δ κ : Type} (D : IDemuxer δ) (C : CodecOps κ)

/-- `DemuxedStream::read` without the reader's null check.
SOURCE: video/ffmpeg/decoding/stream.cpp:73-96 -/
def readPacket (s : StreamId) : Proc Fault (StreamReader δ κ) (Option DataPacket) := do
  let r ← Proc.get
  match (r.streams s).bufferedPacket with
  | some p =>
    modifyStream s fun st => { st with bufferedPacket := none }
    return some p
  | none => onDemuxer (D.read s)

/-- The bookkeeping of `read` for a packet it returns. -/
def countPacket (p : DataPacket) (st : DemuxedStream κ) : DemuxedStream κ :=
  { st with
    position := if p.ptsOrDts ≠ avNoPtsValue then p.ptsOrDts + p.duration else p.ptsOrDts
    processedPktCount := st.processedPktCount + 1 }

/-- `DemuxedStream::read`.
SOURCE: video/ffmpeg/decoding/stream.cpp:68-97 -/
def read (s : StreamId) : Proc Fault (StreamReader δ κ) (Option DataPacket) := do
  let r ← Proc.get
  if !(r.streams s).hasReader then
    Proc.throw (.thrown "Reader is NULL")
  if (r.streams s).terminated then
    return none
  let data ← readPacket D s
  match data with
  | some p => modifyStream s (countPacket p)
  | none => pure ()
  return data

/-- The ready frame is returned, and kept as well while it is later than the position of the
stream.
SOURCE: video/ffmpeg/decoding/stream.cpp:108-126 -/
def takeBuffered (buffered : Frame) (st : DemuxedStream κ) : DemuxedStream κ :=
  let thisPosition := if st.position = avNoPtsValue then st.seekPosition else st.position
  { st with
    bufferedData := if buffered.ts > thisPosition then some buffered else none
    position := buffered.ts + buffered.duration
    processedFrameCount := st.processedFrameCount + 1 }

/-- The part of a pass after `decode`: a null packet is dereferenced when a frame came out.
SOURCE: video/ffmpeg/decoding/stream.cpp:130-139 -/
def passResult (s : StreamId) (pkt : Option DataPacket) (frame : Option Frame) :
    Proc Fault (StreamReader δ κ) (Option (Option Frame)) := do
  modifyStream s fun st => { st with bufferedData := frame }
  match frame, pkt with
  | some _, some p =>
    modifyStream s fun st => { st with lastKeyFrame := p.isKeyFrame }
    return none
  | some _, none => Proc.throw .nullDeref
  | none, some _ => return none
  | none, none => return some none

/-- One round of the loop of `read_frame`; `none` when the loop goes on.
SOURCE: video/ffmpeg/decoding/stream.cpp:102-140 -/
def readFramePass (s : StreamId) : Proc Fault (StreamReader δ κ) (Option (Option Frame)) := do
  let r ← Proc.get
  let st := r.streams s
  if st.terminated then
    return some none
  if !st.hasReader then
    Proc.throw (.thrown "Reader is NULL")
  if st.seekPosition ≥ D.streamDuration s then
    return some none
  match st.bufferedData with
  | some buffered =>
    modifyStream s (takeBuffered buffered)
    return some (some buffered)
  | none =>
    let pkt ← read D s
    let frame ← onDecoder s (DecoderVideo.decode C pkt)
    passResult s pkt frame

/-- The loop of `read_frame`. -/
def readFrameLoop (s : StreamId) : Nat → Proc Fault (StreamReader δ κ) (Option Frame)
  | 0 => Proc.throw .diverged
  | fuel + 1 => do
    match ← readFramePass D C s with
    | some result => return result
    | none => readFrameLoop s fuel

/-- `DemuxedStream::read_frame`.  Every pass but the last takes a packet or leaves a frame ready
for the next one.
SOURCE: video/ffmpeg/decoding/stream.cpp:99-142 -/
def readFrame (s : StreamId) : Proc Fault (StreamReader δ κ) (Option Frame) := do
  let r ← Proc.get
  readFrameLoop D C s (D.remaining r.demuxer + 3)

/-- `DemuxedStream::request_seek`.
SOURCE: video/ffmpeg/decoding/stream.cpp:144-163 -/
def requestSeek (s : StreamId) (time : TimestampFF) (resultChecker : Option StreamId) :
    Proc Fault (StreamReader δ κ) Unit := do
  let r ← Proc.get
  if !(r.streams s).hasReader then
    Proc.throw (.thrown "Reader is NULL")
  modifyStream s fun st =>
    { st with
      terminated := false
      seekPosition := time
      bufferedPacket := none
      position := avNoPtsValue }
  -- without a decoder `m_video_decoder->flush` has nothing to flush
  if D.streamType s ≠ .video then
    Proc.throw .nullDecoder
  modifyStream s fun st => { st with decoder := st.decoder.flush C time }
  match resultChecker with
  | some checker => modifyInfo s (StreamInfo.requestSeek time checker)
  | none => pure ()
  modifyInfo s (StreamInfo.requestSeek time s)

/-- `DemuxedStream::do_seek`.
SOURCE: video/ffmpeg/decoding/stream.cpp:165-182 -/
def doSeek (s : StreamId) : Proc Fault (StreamReader δ κ) Unit := do
  let r ← Proc.get
  if !(r.streams s).hasReader then
    Proc.throw (.thrown "Reader is NULL")
  seek D s
  modifyStream s fun st => { st with bufferedData := none }

/-- SOURCE: video/ffmpeg/decoding/stream.cpp:52-58 -/
def getPosition (s : StreamId) : Proc Fault (StreamReader δ κ) TimestampFF := do
  let r ← Proc.get
  if !(r.streams s).hasReader then
    Proc.throw (.thrown "Reader is NULL")
  return (r.streams s).position

/-- SOURCE: video/ffmpeg/decoding/stream.cpp:44-50 -/
def getDuration (s : StreamId) : Proc Fault (StreamReader δ κ) TimeFF := do
  let r ← Proc.get
  if !(r.streams s).hasReader then
    Proc.throw (.thrown "Reader is NULL")
  return D.streamDuration s

/-- SOURCE: video/ffmpeg/decoding/stream.cpp:224-231 -/
def getPktDuration (s : StreamId) (r : StreamReader δ κ) : TimeFF :=
  match (r.streams s).bufferedPacket with
  | none => avNoPtsValue
  | some p => p.duration

/-- SOURCE: video/ffmpeg/decoding/stream.cpp:218 -/
def terminate (s : StreamId) : Proc Fault (StreamReader δ κ) Unit :=
  modifyStream s fun st => { st with terminated := true }

end Seekira.Model.StreamReader
