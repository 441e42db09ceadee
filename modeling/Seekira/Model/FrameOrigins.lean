import Seekira.Library.Recorded
import Seekira.Model.ReaderWorker

/-!
# The packets of the frames

A frame does not carry the packet that it was decoded from; only the codec knows
which packet each of its pictures belongs to.  A traced decoder takes this from the
codec and follows it through the queue of the decoder and the frame that the decoder
remembers, so that every frame returned is listed with its own packet and with the
packet that was fed when it came out.

The packets fed are the record of `read_frame`.  A frame that comes out for the null
packet is not listed: the stream dereferences the packet and nobody gets the frame.
-/

set_option autoImplicit false

namespace Seekira.Model

open Library

/-- The packets whose pictures an exchange with the codec returns, in the order of the pictures. -/
structure PictureOrigins {κ : Type} (C : CodecOps κ) where
  of : Option DataPacket → κ → List DataPacket
  length_eq : ∀ packet k, (of packet k).length = (C.send packet k).2.1.frames.length

/-- A frame that the decoder returned, its packet, and the packet fed when it came out. -/
structure DecodedFrame where
  frame : Frame
  origin : DataPacket
  fed : DataPacket
  deriving DecidableEq, Repr

/-- A decoder with the packets of the frames in its queue and of the frame it remembers, and the
frames that it has returned. -/
structure TracedDecoder (κ : Type) where
  decoder : DecoderVideo κ
  queue : List DataPacket
  prev : Option DataPacket
  decoded : List DecodedFrame

namespace TracedDecoder

variable {κ : Type} {C : CodecOps κ} (O : PictureOrigins C)

/-- A decoder that was fed nothing. -/
def create (decoder : DecoderVideo κ) : TracedDecoder κ :=
  { decoder := decoder, queue := [], prev := none, decoded := [] }

/-- The packets of the queue after the pictures of an exchange were received.
SOURCE: video/ffmpeg/decoding/decoder_video.cpp:240-349 -/
def received (data : Option DataPacket) (t : TracedDecoder κ) : List DataPacket :=
  let (packet, d) := { t.decoder with canReopenDecoder := false }.preparePacket data
  match (C.send packet d.codec).1 with
  | .again | .failed => t.queue
  | .ok | .eof => t.queue ++ O.of packet d.codec

/-- The remembered frame is returned for `data`. -/
def emit (data : Option DataPacket) (frame : Frame) (t : TracedDecoder κ) : List DecodedFrame :=
  match t.prev, data with
  | some origin, some fed => t.decoded ++ [⟨frame, origin, fed⟩]
  | _, _ => t.decoded

/-- One round of the loop of `decode`: the frame that `decode_internal` delivers is the first of its
queue.
SOURCE: video/ffmpeg/decoding/decoder_video.cpp:144-188 -/
def round (data : Option DataPacket) (t : TracedDecoder κ) : TracedDecoder κ :=
  let queue := t.received O data
  match DecoderVideo.decodeInternal C data t.decoder with
  | (.error _, d) => { t with decoder := d, queue := queue }
  | (.ok (some frame), d) =>
    match d.prevFrame with
    | none =>
      { t with
        decoder := { d with prevFrame := some frame }, queue := queue.tail, prev := queue.head? }
    | some prev =>
      let newDuration := frame.ts - prev.ts
      if newDuration ≤ 0 then { t with decoder := d, queue := queue.tail }
      else
        { decoder := { d with prevFrame := some frame }, queue := queue.tail, prev := queue.head?,
          decoded := t.emit data { prev with duration := newDuration } }
  | (.ok none, d) =>
    match d.prevFrame, data with
    | some _, none =>
      { t with decoder := { d with prevFrame := none }, queue := queue, prev := none }
    | _, _ => { t with decoder := d, queue := queue }

/-- `decode`: a round that does not end the loop is followed by another one.
SOURCE: video/ffmpeg/decoding/decoder_video.cpp:142-191 -/
def feed (data : Option DataPacket) (t : TracedDecoder κ) : TracedDecoder κ :=
  match (DecoderVideo.decodeRound C data t.decoder).1 with
  | .ok none => (t.round O data).round O data
  | _ => t.round O data

end TracedDecoder

namespace StreamReader

variable {δ κ : Type} (D : IDemuxer δ) (C : CodecOps κ)

/-- `readFramePass` with the packets fed.
SOURCE: video/ffmpeg/decoding/stream.cpp:102-140 -/
def recordedReadFramePass (s : StreamId) :
    Recorded Fault (Option DataPacket) (StreamReader δ κ) (Option (Option Frame)) := do
  let r ← .lift Proc.get
  let st := r.streams s
  if st.terminated then
    return some none
  if !st.hasReader then
    .lift (Proc.throw (.thrown "Reader is NULL"))
  if st.seekPosition ≥ D.streamDuration s then
    return some none
  match st.bufferedData with
  | some buffered =>
    .lift (modifyStream s (takeBuffered buffered))
    return some (some buffered)
  | none =>
    let pkt ← .lift (read D s)
    .note pkt
    let frame ← .lift (onDecoder s (DecoderVideo.decode C pkt))
    .lift (passResult s pkt frame)

/-- `readFrameLoop` with the packets fed. -/
def recordedReadFrameLoop (s : StreamId) :
    Nat → Recorded Fault (Option DataPacket) (StreamReader δ κ) (Option Frame)
  | 0 => .lift (Proc.throw .diverged)
  | fuel + 1 => do
    match ← recordedReadFramePass D C s with
    | some result => return result
    | none => recordedReadFrameLoop s fuel

/-- `readFrame` with the packets fed.
SOURCE: video/ffmpeg/decoding/stream.cpp:99-142 -/
def recordedReadFrame (s : StreamId) :
    Recorded Fault (Option DataPacket) (StreamReader δ κ) (Option Frame) := do
  let r ← .lift Proc.get
  recordedReadFrameLoop D C s (D.remaining r.demuxer + 3)

end StreamReader

/-- The decoder of a run with its packets, and the frames that were read, in order. -/
structure ReadTrace (κ : Type) where
  decoder : TracedDecoder κ
  read : List DecodedFrame

namespace ReadTrace

variable {δ κ : Type} (D : IDemuxer δ) {C : CodecOps κ} (O : PictureOrigins C) (s : StreamId)

/-- A read of the stream: the packets fed go to the decoder, and a frame that is returned is the one
decoded last. -/
def afterRead (run : (Except Fault (Option Frame) × StreamReader δ κ) × List (Option DataPacket))
    (t : ReadTrace κ) : ReadTrace κ :=
  let decoder := run.2.foldl (fun t pkt => t.feed O pkt) t.decoder
  match run.1.1, decoder.decoded.getLast? with
  | .ok (some _), some x => ⟨decoder, t.read ++ [x]⟩
  | _, _ => ⟨decoder, t.read⟩

/-- A step of the run; frames are read in one place of the worker's loop. -/
def step (t : ReadTrace κ) (w : ReaderWorker δ κ) (l : ReaderLabel) : ReadTrace κ :=
  if l = .work ∧ w.pc = .reading then
    t.afterRead O (StreamReader.recordedReadFrame D C s w.reader.streamReader)
  else t

/-- The trace of a run from a decoder that was fed nothing. -/
def ofRun (decoder : DecoderVideo κ) (tr : List (ReaderWorker δ κ × ReaderLabel)) : ReadTrace κ :=
  tr.foldl (fun t p => t.step D O s p.1 p.2) ⟨TracedDecoder.create decoder, []⟩

end ReadTrace

end Seekira.Model
