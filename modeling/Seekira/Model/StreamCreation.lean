import Seekira.Model.MediaFile

/-!
# The creation of streams

`get_stream` enables the queue of a stream in the demuxer, constructs the stream and
enters it in the table of the reader.  The constructor opens a decoder for a video
stream, and throws when it cannot.

What FFmpeg says of a stream's format, and whether its codec opens, are parameters.
-/

set_option autoImplicit false

namespace Seekira.Model

open Library

/-- The formats `φ` of the streams of a file and their codecs with states `κ`. -/
structure FormatCodecs (φ κ : Type) where
  /-- `ParserFF::get_format_codec` -/
  getFormatCodec : StreamId → Except Fault φ
  /-- the codec that `DecoderVideoFF::open` gets, if it opens -/
  openCodec : φ → Option κ

/-- SOURCE: video/ffmpeg/decoding/stream_reader.cpp:16-30 -/
def StreamInfo.setStream (info : StreamInfo) : Except Fault StreamInfo :=
  if info.isStreamEnabled then .error (.thrown "Previous stream was not released")
  else .ok { info with isStreamEnabled := true }

namespace StreamReader

variable {π φ κ : Type} (P : ParserOps π) (K : FormatCodecs φ κ)

/-- The decoder of a new stream; `m_video_decoder` stays null for a stream of another type.
SOURCE: video/ffmpeg/decoding/stream.cpp:18-24 -/
def createDecoder (s : StreamId) : Except Fault (Option (DecoderVideo κ)) :=
  if P.streamType s = .video then
    match K.getFormatCodec s with
    | .error e => .error e
    | .ok formatCodec =>
      match K.openCodec formatCodec with
      | none => .error (.thrown "Can't open decoder for stream")
      | some codec => .ok (some (DecoderVideo.create codec))
  else .ok none

/-- The constructed stream; without a decoder of its own it has whatever stands in its place, which
is not used.
SOURCE: video/ffmpeg/decoding/stream.cpp:7-25 -/
def createStream (s : StreamId) (r : StreamReader (DemuxerQueue π) κ) :
    Except Fault (DemuxedStream κ) :=
  match createDecoder P K s with
  | .error e => .error e
  | .ok decoder => .ok (DemuxedStream.create (decoder.getD (r.streams s).decoder))

/-- `get_stream`; a negative id is compared with the size of the table as a large unsigned number.
SOURCE: video/ffmpeg/decoding/stream_reader.cpp:126-149 -/
def getStream (streamId : Int) : Proc Fault (StreamReader (DemuxerQueue π) κ) StreamId := do
  let r ← Proc.get
  let s := streamId.toNat
  if streamId < 0 || s ≥ r.streamCount then
    Proc.throw (.thrown "Invalid stream id")
  else if (r.infos s).isStreamEnabled then
    Proc.throw
      (.thrown "The stream is already exists. It is forbidden to create a stream twice.")
  else
    onDemuxer (DemuxerQueue.enableStream P s true)
    match createStream P K s r with
    | .error e => Proc.throw e
    | .ok stream =>
      match (r.infos s).setStream with
      | .error e => Proc.throw e
      | .ok info =>
        Proc.modify fun r => (r.setStream s stream).setInfo s info
        return s

end StreamReader

end Seekira.Model
