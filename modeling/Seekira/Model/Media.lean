import Seekira.Library.Proc

/-!
# Packets, frames and faults of the video stack

Times are microseconds in 64-bit integers in the source; here they are integers,
since no result depends on their overflow.  A packet keeps the fields that the
demuxer and the decoder look at, a frame its timestamp and duration.
-/

set_option autoImplicit false

namespace Seekira.Model

/-- SOURCE: video/ffmpeg/interfaces/types.hpp:7-9 -/
abbrev TimeFF := Int

abbrev TimestampFF := Int

abbrev StreamId := Nat

/-- `AV_NOPTS_VALUE` -/
def avNoPtsValue : TimestampFF := -9223372036854775808

/-- `AV_SECOND`.
SOURCE: video/ffmpeg/interfaces/types.hpp:13-14 -/
def avSecond : TimeFF := 1000000

/-- SOURCE: video/ffmpeg/interfaces/types.hpp:20-25 -/
inductive MediaType where
  | undefined
  | video
  | audio
  deriving DecidableEq, Repr

/-- How a method of the video stack ends when it does not return. -/
inductive Fault where
  /-- `STEP_THROW_RUNTIME` and `STEP_ASSERT`, with the fixed part of the message -/
  | thrown (what : String)
  /-- a null `shared_ptr` is dereferenced -/
  | nullDeref
  /-- the null `m_video_decoder` of a stream that is not a video stream is dereferenced -/
  | nullDecoder
  /-- a loop of the model ran out of fuel -/
  | diverged
  deriving DecidableEq, Repr

/-- What `IDataPacket` reports of a packet.
SOURCE: video/ffmpeg/interfaces/data_packet.hpp:16-47 -/
structure DataPacket where
  streamIndex : StreamId
  pts : TimestampFF
  dts : TimestampFF
  duration : TimeFF
  isKeyFrame : Bool
  size : Int
  deriving DecidableEq, Repr

/-- `pts_or_dts`.
SOURCE: video/ffmpeg/decoding/data_packet.hpp:40 -/
def DataPacket.ptsOrDts (p : DataPacket) : TimestampFF :=
  if p.pts ≠ avNoPtsValue then p.pts else p.dts

/-- A decoded frame; its picture is left out.
SOURCE: video/frame/interfaces/frame.hpp:24-45 -/
structure Frame where
  ts : TimestampFF
  duration : TimeFF
  deriving DecidableEq, Repr

end Seekira.Model
