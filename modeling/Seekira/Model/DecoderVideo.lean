import Seekira.Model.Media

/-!
# The video decoder

`DecoderVideoFF` sends packets to a codec, gives the pictures it receives a
timestamp from its own clock, and returns every frame one frame late, because a
frame's duration is the distance to the next one.  `decode` with a null packet
drains the codec.

The codec is a parameter: one exchange sends a packet, or the drain request, and
receives pictures until the codec has none left or one cannot be used.
-/

set_option autoImplicit false

namespace Seekira.Model

open Library

/-- What `decode_internal` reads of a received picture. -/
structure AVFrame where
  bestEffortTimestamp : TimestampFF
  pts : TimestampFF
  pktDuration : TimeFF
  deriving DecidableEq, Repr

/-- The result of `send_packet`. -/
inductive SendResult where
  | ok
  | eof
  | again
  | failed
  deriving DecidableEq, Repr

/-- The pictures received after a packet was sent, and the picture whose conversion failed, if
that ended the receiving. -/
structure Received where
  frames : List AVFrame
  broken : Option AVFrame
  deriving DecidableEq, Repr

/-- An opened codec with internal state `κ`. -/
structure CodecOps (κ : Type) where
  send : Option DataPacket → κ → SendResult × Received × κ
  flushBuffers : κ → κ
  /-- `m_fps`, numerator and denominator -/
  fps : Int × Int

/-- `av_rescale`: `a * b / c`, rounded to nearest and away from zero; the smallest integer for
arguments it rejects. -/
def avRescale (a b c : Int) : Int :=
  if c ≤ 0 ∨ b < 0 then -9223372036854775808
  else if a < 0 then -((-a * b + c / 2) / c)
  else (a * b + c / 2) / c

/-- SOURCE: video/ffmpeg/decoding/decoder_video.hpp:34-63 -/
structure DecoderVideo (κ : Type) where
  codec : κ
  canReopenDecoder : Bool
  clockReset : Bool
  clock : TimestampFF
  firstFrameAfterSeek : Bool
  useDts : Bool
  prevDurationClock : TimeFF
  prevDurationFramePkt : TimeFF
  queue : List Frame
  prevFrame : Option Frame
  startTime : TimestampFF

namespace DecoderVideo

variable {κ : Type} (C : CodecOps κ)

/-- A decoder after `open`.
SOURCE: video/ffmpeg/decoding/decoder_video.cpp:73-106 -/
def create (codec : κ) : DecoderVideo κ :=
  { codec := codec, canReopenDecoder := false, clockReset := true, clock := avNoPtsValue,
    firstFrameAfterSeek := true, useDts := false, prevDurationClock := 0,
    prevDurationFramePkt := 0, queue := [], prevFrame := none, startTime := 0 }

/-- SOURCE: video/ffmpeg/decoding/decoder_video.cpp:108-127 -/
def flush (startTime : TimestampFF) (d : DecoderVideo κ) : DecoderVideo κ :=
  { d with
    useDts := false
    firstFrameAfterSeek := true
    prevDurationClock := 0
    prevDurationFramePkt := 0
    prevFrame := none
    startTime := startTime
    codec := C.flushBuffers d.codec
    clockReset := true
    clock := avNoPtsValue
    queue := [] }

/-- The packet handed to the codec, and the decision whether its timestamp is the dts.
SOURCE: video/ffmpeg/decoding/decoder_video.cpp:209-238 -/
def preparePacket (data : Option DataPacket) (d : DecoderVideo κ) :
    Option DataPacket × DecoderVideo κ :=
  match data with
  | none => (none, d)
  | some p =>
    let d :=
      if p.isKeyFrame && d.clockReset then
        { d with useDts := p.pts = avNoPtsValue && p.dts ≠ avNoPtsValue, clockReset := false }
      else d
    (some (if d.useDts then { p with pts := p.dts } else p), d)

/-- The duration a frame gets before its successor is known. -/
def packetDuration (f : AVFrame) : TimeFF :=
  if f.pktDuration = 0 ∨ f.pktDuration = avNoPtsValue then
    if C.fps.1 = 0 then 0 else (C.fps.2 * avSecond).tdiv C.fps.1
  else f.pktDuration

/-- The clock moves to a received picture.
SOURCE: video/ffmpeg/decoding/decoder_video.cpp:285-312 -/
def advanceClock (f : AVFrame) (d : DecoderVideo κ) : DecoderVideo κ :=
  let newClock := f.bestEffortTimestamp
  let d :=
    if newClock = avNoPtsValue ∧ d.clock = avNoPtsValue ∧ d.firstFrameAfterSeek then
      { d with clock := d.startTime, prevDurationClock := 0 }
    else if newClock ≥ d.clock ∨ d.firstFrameAfterSeek then
      { d with
        prevDurationClock := if d.firstFrameAfterSeek then 0 else newClock - d.clock
        clock := newClock }
    else
      let prevDurationClock :=
        if f.pts = avNoPtsValue ∧ d.prevDurationFramePkt > 0 then d.prevDurationFramePkt
        else d.prevDurationClock
      { d with prevDurationClock := prevDurationClock, clock := d.clock + prevDurationClock }
  { d with prevDurationFramePkt := packetDuration C f, firstFrameAfterSeek := false }

/-- A received picture becomes a queued frame.
SOURCE: video/ffmpeg/decoding/decoder_video.cpp:314-347 -/
def enqueue (f : AVFrame) (d : DecoderVideo κ) : DecoderVideo κ :=
  let d := d.advanceClock C f
  { d with queue := d.queue ++ [⟨d.clock, d.prevDurationFramePkt⟩] }

def enqueueAll (frames : List AVFrame) (d : DecoderVideo κ) : DecoderVideo κ :=
  frames.foldl (fun d f => d.enqueue C f) d

/-- SOURCE: video/ffmpeg/decoding/decoder_video.cpp:355-364 -/
def getNextQueuedFrame (d : DecoderVideo κ) : Option Frame × DecoderVideo κ :=
  match d.queue with
  | [] => (none, d)
  | frame :: rest => (some frame, { d with queue := rest })

/-- SOURCE: video/ffmpeg/decoding/decoder_video.cpp:193-351 -/
def decodeInternal (data : Option DataPacket) : Proc Fault (DecoderVideo κ) (Option Frame) :=
  fun d =>
    let d := { d with canReopenDecoder := false }
    let (packet, d) := d.preparePacket data
    match C.send packet d.codec with
    | (.again, _, codec) => (.error (.thrown "Invalid decoder logic."), { d with codec := codec })
    | (.failed, _, codec) => (.ok none, { d with codec := codec })
    | (_, received, codec) =>
      let d := { d with codec := codec }.enqueueAll C received.frames
      match received.broken with
      | some f => (.ok none, d.advanceClock C f)
      | none => (.ok d.getNextQueuedFrame.1, d.getNextQueuedFrame.2)

/-- One round of the loop of `decode`; `none` when the loop goes on.
SOURCE: video/ffmpeg/decoding/decoder_video.cpp:144-188 -/
def decodeRound (data : Option DataPacket) :
    Proc Fault (DecoderVideo κ) (Option (Option Frame)) := do
  let frame ← decodeInternal C data
  let d ← Proc.get
  match frame, d.prevFrame with
  | some frame, none =>
    Proc.modify fun d => { d with prevFrame := some frame }
    -- at the end of the stream the loop goes on with what is still buffered
    return if data.isSome then some none else none
  | some frame, some prev =>
    let newDuration := frame.ts - prev.ts
    if newDuration ≤ 0 then
      return some none
    Proc.modify fun d => { d with prevFrame := some frame }
    return some (some { prev with duration := newDuration })
  | none, none => return some none
  | none, some prev =>
    if data.isSome then
      return some none
    Proc.modify fun d => { d with prevFrame := none }
    return some (some { prev with duration := avRescale avSecond C.fps.2 C.fps.1 })

/-- `decode`.  Only the first round can leave without a result, and only with `m_prev_frame` set,
which the second round does not.
SOURCE: video/ffmpeg/decoding/decoder_video.cpp:142-191 -/
def decode (data : Option DataPacket) : Proc Fault (DecoderVideo κ) (Option Frame) := do
  match ← decodeRound C data with
  | some result => return result
  | none =>
    match ← decodeRound C data with
    | some result => return result
    | none => Proc.throw .diverged

end DecoderVideo

end Seekira.Model
