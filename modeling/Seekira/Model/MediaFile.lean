import Seekira.Model.DemuxerQueue
import Seekira.Model.Reader

/-!
# A file and its codec

The reader is built over `DemuxerQueue`.  The parser and the codec below it are
parameters of the model; the ones defined here are the plainest that behave as
FFmpeg does: a parser over a list of packets that seeks to the last key packet at
or before the wanted time, and a codec that returns pictures in the order of their
packets, `delay` packets late.
-/

set_option autoImplicit false

namespace Seekira.Model

open Library

variable {π : Type}

/-- The queueing demuxer as the streams use it. -/
def DemuxerQueue.toIDemuxer (P : ParserOps π) : IDemuxer (DemuxerQueue π) where
  streamType := P.streamType
  streamDuration := P.streamDuration
  read := DemuxerQueue.read P
  seek := DemuxerQueue.seek P
  isEofReached := fun d => d.eofIsReached
  remaining := DemuxerQueue.remaining P

/-- A stream reader over a fresh demuxer in which only stream `s` is enabled.
SOURCE: video/ffmpeg/decoding/stream_reader.cpp:120-150 -/
def StreamReader.opened {κ : Type} (P : ParserOps π) (ahead : List DataPacket) (internal : π)
    (s : StreamId) (codec : κ) : StreamReader (DemuxerQueue π) κ :=
  { demuxer :=
      let d := DemuxerQueue.create P ahead internal
      { d with queues := fun i => (d.queues i).setEnabled (i = s) }
    streamCount := P.streamCount
    infos := fun i => ⟨i = s, avNoPtsValue, [], false⟩
    streams := fun _ => DemuxedStream.create (DecoderVideo.create codec) }

/-- The packets from the last key packet of stream `s` at or before `time` on. -/
def keySuffix (s : StreamId) (time : TimestampFF) : List DataPacket → Option (List DataPacket)
  | [] => none
  | p :: rest =>
    match keySuffix s time rest with
    | some suffix => some suffix
    | none =>
      if p.streamIndex = s ∧ p.isKeyFrame ∧ p.pts ≤ time then some (p :: rest) else none

/-- A parser over the packets of a file with one video stream. -/
def fileParser (file : List DataPacket) (duration : TimeFF) : ParserOps Unit where
  streamCount := 1
  streamType := fun _ => .video
  streamDuration := fun _ => duration
  seekStream := 0
  seek := fun index time ahead _ =>
    if time ≤ 0 then (true, file, ())
    else
      match keySuffix index time file with
      | some suffix => (true, suffix, ())
      | none => (false, ahead, ())

/-- The picture of a packet. -/
def pictureOf (p : DataPacket) : AVFrame := ⟨p.pts, p.pts, p.duration⟩

/-- A codec that holds back the pictures of the last `delay` packets until it is drained. -/
def fifoCodec (delay : Nat) (fps : Int × Int) : CodecOps (List DataPacket) where
  send := fun packet held =>
    match packet with
    | some p =>
      (.ok, ⟨((held ++ [p]).take (held.length + 1 - delay)).map pictureOf, none⟩,
        (held ++ [p]).drop (held.length + 1 - delay))
    | none => (.ok, ⟨held.map pictureOf, none⟩, [])
  flushBuffers := fun _ => []
  fps := fps

/-- The three packets of a short file. -/
def shortFile : List DataPacket :=
  [⟨0, 0, 0, 40, true, 100⟩, ⟨0, 40, 40, 40, false, 100⟩, ⟨0, 80, 80, 40, false, 100⟩]

/-- The streams of the short file after it was opened. -/
def shortStreams : StreamReader (DemuxerQueue Unit) (List DataPacket) :=
  StreamReader.opened (fileParser shortFile 120) shortFile () 0 []

end Seekira.Model
