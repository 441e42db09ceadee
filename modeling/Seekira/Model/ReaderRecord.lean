import Seekira.Library.Recorded
import Seekira.Model.ReaderWorker

/-!
# The reads of the last valid frame

The methods of the reader with every read of `m_last_valid_frame` written down: the
assertion in `get_position`, the log statement at the end of `read_frame` and the
last one of `set_position_impl`.  An entry says whether the pointer was set when it
was read.  `LastValidFrame` shows that these are the reader's own methods once the
record is erased.
-/

set_option autoImplicit false

namespace Seekira.Model

open Library

namespace ReaderFF

variable {δ κ : Type} (D : IDemuxer δ) (C : CodecOps κ)

/-- Enter a read of `m_last_valid_frame`. -/
def noteLastValidFrame : Recorded Fault Bool (ReaderFF δ κ) Unit := do
  let r ← .lift Proc.get
  .note r.lastValidFrame.isSome

/-- `getPosition` with its reads.
SOURCE: video/ffmpeg/reader/reader.cpp:76-80 -/
def recordedGetPosition : Recorded Fault Bool (ReaderFF δ κ) TimestampFF := do
  noteLastValidFrame
  .lift getPosition

/-- `readFrame` with its reads.  The test before `m_prev_duration` is set is none of them: it does
not follow the pointer when it is null.
SOURCE: video/ffmpeg/reader/reader.cpp:167-195 -/
def recordedReadFrame : Recorded Fault Bool (ReaderFF δ κ) Unit := do
  let frame ← .lift (onStream (StreamReader.readFrame D C))
  let isLastKeyFrame ← .lift (onStream fun s => do
    let w ← Proc.get
    return (w.streams s).lastKeyFrame)
  .lift (Proc.modify fun r => { r with isLastKeyFrame := isLastKeyFrame })
  match frame with
  | some frame => .lift (Proc.modify (handleFrame frame))
  | none => .lift (Proc.modify fun r => { r with invalidCounter := r.invalidCounter + 1 })
  noteLastValidFrame
  let r ← .lift Proc.get
  if r.lastValidFrame.isNone then
    .lift (Proc.throw .nullDeref)

/-- `setPositionLoop` with its reads.
SOURCE: video/ffmpeg/reader/reader_impl.cpp:135-147 -/
def recordedSetPositionLoop (pos : TimestampFF) :
    Nat → TimestampFF → TimeFF → Recorded Fault Bool (ReaderFF δ κ) Unit
  | 0, _, _ => .lift (Proc.throw .diverged)
  | fuel + 1, nextFrameTs, duration => do
    let r ← .lift Proc.get
    if r.needBreakReading || isTargetFrame pos nextFrameTs (nextFrameTs + duration) then
      return ()
    recordedReadFrame D C
    let nextFrameTs ← .lift (onStream StreamReader.getPosition)
    let fromStream ← .lift (onStream fun s => do
      let w ← Proc.get
      return w.getPktDuration s)
    recordedSetPositionLoop pos fuel nextFrameTs
      (if fromStream ≠ avNoPtsValue then fromStream else duration)

/-- `readUpTo` with its reads.
SOURCE: video/ffmpeg/reader/reader_impl.cpp:119-167 -/
def recordedReadUpTo (pos : TimestampFF) (prevState : ReaderState) :
    Recorded Fault Bool (ReaderFF δ κ) Unit := do
  let nextFrameTs ← .lift (onStream StreamReader.getPosition)
  let duration ← .lift (onStream fun s => do
    let w ← Proc.get
    return w.getPktDuration s)
  .lift (Proc.modify fun r => { r with skipFrameHandle := true })
  let r ← .lift Proc.get
  recordedSetPositionLoop D C pos (2 * D.remaining r.streamReader.demuxer + 20) nextFrameTs duration
  .lift (Proc.modify enableObservers)
  let r ← .lift Proc.get
  if r.needBreakReading then
    .lift (setReaderState r.state)
  else
    let _ ← .lift (onStream StreamReader.getPosition)
    .lift (Proc.modify fun r => { r with skipFrameHandle := false })
    recordedReadFrame D C
    -- the log statement prints the timestamp of the frame just read
    noteLastValidFrame
    .lift (setReaderState prevState)

/-- `setPositionImpl` with its reads.
SOURCE: video/ffmpeg/reader/reader_impl.cpp:84-168 -/
def recordedSetPositionImpl (pos : TimestampFF) : Recorded Fault Bool (ReaderFF δ κ) Unit := do
  let pos := if pos < 0 then 0 else pos
  let duration ← .lift (getDuration D)
  if pos ≥ duration then
    return ()
  let _ ← recordedGetPosition
  .lift (Proc.modify disableObservers)
  let r ← .lift Proc.get
  let prevState := r.state
  .lift (seek D C pos)
  let r ← .lift Proc.get
  if r.state = .error then
    return ()
  recordedReadUpTo D C pos prevState

/-- `forceHandle` with the reads of the handler. -/
def recordedForceHandle (p : Recorded Fault Bool (ReaderFF δ κ) Unit) :
    Recorded Fault Bool (ReaderFF δ κ) Unit := do
  .lift (Proc.modify fun r => { r with needHandleAfterForceSetPos := true })
  p
  .lift (Proc.modify fun r => { r with needHandleAfterForceSetPos := false })

/-- SOURCE: video/ffmpeg/reader/reader_impl.cpp:41-52 -/
def recordedStepForwardImpl : Recorded Fault Bool (ReaderFF δ κ) Unit := do
  let r ← .lift Proc.get
  if r.continueReading then
    return ()
  recordedForceHandle (recordedReadFrame D C)

/-- SOURCE: video/ffmpeg/reader/reader_impl.cpp:54-65 -/
def recordedStepBackwardImpl : Recorded Fault Bool (ReaderFF δ κ) Unit := do
  let r ← .lift Proc.get
  if r.continueReading then
    return ()
  recordedForceHandle do
    let position ← recordedGetPosition
    recordedSetPositionImpl D C (position - r.prevDuration)

/-- SOURCE: video/ffmpeg/reader/reader_impl.cpp:67-72 -/
def recordedRewindForwardImpl : Recorded Fault Bool (ReaderFF δ κ) Unit :=
  recordedForceHandle do
    let position ← recordedGetPosition
    recordedSetPositionImpl D C (position + stepValue)

/-- SOURCE: video/ffmpeg/reader/reader_impl.cpp:74-79 -/
def recordedRewindBackwardImpl : Recorded Fault Bool (ReaderFF δ κ) Unit :=
  recordedForceHandle do
    let position ← recordedGetPosition
    recordedSetPositionImpl D C (position - stepValue)

/-- `handleEvent` with its reads.
SOURCE: video/ffmpeg/reader/reader.cpp:98-132 -/
def recordedHandleEvent (event : ReaderEvent) : Recorded Fault Bool (ReaderFF δ κ) Unit :=
  match event with
  | .pause => .lift pauseImpl
  | .play => .lift playImpl
  | .rewindBackward => recordedRewindBackwardImpl D C
  | .rewindForward => recordedRewindForwardImpl D C
  | .setPosition timestamp => recordedSetPositionImpl D C timestamp
  | .stepBackward => recordedStepBackwardImpl D C
  | .stepForward => recordedStepForwardImpl D C
  | .stop => .lift stopImpl

end ReaderFF

namespace ReaderWorker

variable {δ κ : Type} (D : IDemuxer δ) (C : CodecOps κ)

/-- The reads of `m_last_valid_frame` in the worker's next step. -/
def lastValidReads (w : ReaderWorker δ κ) : List Bool :=
  match w.pc with
  | .events =>
    match w.eventQueue.getLast? with
    | none => []
    | some item => (ReaderFF.recordedHandleEvent D C item.event w.reader).2
  | .reading =>
    (ReaderFF.recordedReadFrame D C (ReaderFF.setReaderState .reading w.reader).2).2
  | _ => []

end ReaderWorker

end Seekira.Model
