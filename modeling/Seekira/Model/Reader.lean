import Seekira.Model.DemuxedStream
import Seekira.Model.EventHandlerList

/-!
# The reader of a file

`ReaderFF` plays one video stream.  Its methods run on the worker thread, one at a
time, under the reader's guards, so each is a procedure over the reader and the
stream below it.

Log statements evaluate their arguments, so the one at the end of `read_frame`
dereferences the last valid frame.  The observers are called through a thread
pool; what is recorded here is the calls that were posted.
-/

set_option autoImplicit false

namespace Seekira.Model

open Library

/-- SOURCE: video/ffmpeg/interfaces/reader.hpp:13-18 -/
inductive ReaderMode where
  | undefined
  | keyFrame
  | all
  deriving DecidableEq, Repr

/-- SOURCE: video/ffmpeg/interfaces/reader.hpp:20-28 -/
inductive ReaderState where
  | undefined
  | reading
  | paused
  | stopped
  | endOfFile
  | error
  deriving DecidableEq, Repr

/-- An event with its timestamp, for the one type that has one.
SOURCE: video/ffmpeg/reader/reader_event.hpp:8-34 -/
inductive ReaderEvent where
  | play
  | pause
  | stop
  | stepForward
  | stepBackward
  | rewindForward
  | rewindBackward
  | setPosition (timestamp : TimestampFF)
  deriving DecidableEq, Repr

/-- SOURCE: video/ffmpeg/reader/reader.hpp:76-111 -/
structure ReaderFF (δ κ : Type) where
  streamReader : StreamReader δ κ
  /-- `m_stream`; null when the file has no video stream -/
  stream : Option StreamId
  lastValidFrame : Option Frame
  prevDuration : TimeFF
  invalidCounter : Nat
  mode : ReaderMode
  state : ReaderState
  continueReading : Bool
  needStop : Bool
  skipFrameHandle : Bool
  needHandleAfterForceSetPos : Bool
  isLastKeyFrame : Bool
  frameObservers : EventHandlerList Nat
  readerObservers : EventHandlerList Nat
  /-- frames posted to the frame observers, in order -/
  sentFrames : List (Nat × Frame)
  /-- states posted to the state observers, in order -/
  sentStates : List (Nat × ReaderState)

namespace ReaderFF

/-- `MAX_INVALID_THRESHOLD` -/
def maxInvalidThreshold : Nat := 10

/-- `STEP_VALUE` -/
def stepValue : TimestampFF := 10 * avSecond

/-- A reader after `open_file`.
SOURCE: video/ffmpeg/reader/reader.cpp:32-53, video/ffmpeg/reader/reader.hpp:89-111 -/
def opened {δ κ : Type} (streamReader : StreamReader δ κ) (stream : Option StreamId)
    (mode : ReaderMode) (frameObservers readerObservers : List Nat) : ReaderFF δ κ :=
  { streamReader := streamReader, stream := stream, lastValidFrame := none, prevDuration := 0,
    invalidCounter := 0, mode := mode, state := .reading, continueReading := false,
    needStop := false, skipFrameHandle := false, needHandleAfterForceSetPos := false,
    isLastKeyFrame := false, frameObservers := ⟨frameObservers, [], true⟩,
    readerObservers := ⟨readerObservers, [], true⟩, sentFrames := [], sentStates := [] }

variable {δ κ : Type} (D : IDemuxer δ) (C : CodecOps κ)

/-- Call a method of the stream. -/
def onStream {α : Type} (p : StreamId → Proc Fault (StreamReader δ κ) α) :
    Proc Fault (ReaderFF δ κ) α := do
  let r ← Proc.get
  match r.stream with
  | none => Proc.throw .nullDeref
  | some s => Proc.zoom (fun r => r.streamReader) (fun w r => { r with streamReader := w }) (p s)

/-- SOURCE: video/ffmpeg/reader/reader.cpp:146-151 -/
def setReaderState (state : ReaderState) : Proc Fault (ReaderFF δ κ) Unit :=
  Proc.modify fun r =>
    { r with
      state := state
      sentStates := r.sentStates ++ r.readerObservers.performForEach.map fun h => (h, state) }

/-- SOURCE: video/ffmpeg/reader/reader.cpp:70-74 -/
def getDuration : Proc Fault (ReaderFF δ κ) TimeFF := do
  let r ← Proc.get
  if r.stream.isNone then
    Proc.throw (.thrown "ReaderFF can't provide duration: empty stream!")
  onStream (StreamReader.getDuration D)

/-- SOURCE: video/ffmpeg/reader/reader.cpp:76-80 -/
def getPosition : Proc Fault (ReaderFF δ κ) TimestampFF := do
  let r ← Proc.get
  match r.lastValidFrame with
  | none => Proc.throw (.thrown "ReaderFF can't provide position: invalid last frame!")
  | some frame => return frame.ts

/-- `is_eof_reached` of the stream. -/
def isEofReached (r : ReaderFF δ κ) : Bool := D.isEofReached r.streamReader.demuxer

/-- SOURCE: video/ffmpeg/reader/reader.cpp:153-165 -/
def seek (pos : TimestampFF) : Proc Fault (ReaderFF δ κ) Unit := do
  onStream fun s => StreamReader.requestSeek D C s pos none
  onStream (StreamReader.doSeek D)
  let lastSeekResult ← onStream fun s => do
    let w ← Proc.get
    return (w.streams s).lastSeekResult
  if !lastSeekResult then
    setReaderState .error
  else
    let _ ← onStream StreamReader.getPosition
    pure ()

/-- SOURCE: video/ffmpeg/reader/reader.cpp:218-231 -/
def needHandleFrame (r : ReaderFF δ κ) : Bool :=
  !r.skipFrameHandle &&
    (r.mode = .all || r.isLastKeyFrame || r.needHandleAfterForceSetPos)

/-- A valid frame is remembered and, when it is to be handled, posted to the observers.
SOURCE: video/ffmpeg/reader/reader.cpp:174-186 -/
def handleFrame (frame : Frame) (r : ReaderFF δ κ) : ReaderFF δ κ :=
  { r with
    invalidCounter := 0
    prevDuration := match r.lastValidFrame with
      | some last => last.duration
      | none => 0
    lastValidFrame := some frame
    sentFrames :=
      if r.needHandleFrame then
        r.sentFrames ++ r.frameObservers.performForEach.map fun h => (h, frame)
      else r.sentFrames }

/-- SOURCE: video/ffmpeg/reader/reader.cpp:167-195 -/
def readFrame : Proc Fault (ReaderFF δ κ) Unit := do
  let frame ← onStream (StreamReader.readFrame D C)
  let isLastKeyFrame ← onStream fun s => do
    let w ← Proc.get
    return (w.streams s).lastKeyFrame
  Proc.modify fun r => { r with isLastKeyFrame := isLastKeyFrame }
  match frame with
  | some frame => Proc.modify (handleFrame frame)
  | none => Proc.modify fun r => { r with invalidCounter := r.invalidCounter + 1 }
  -- the log statement reads the last valid frame
  let r ← Proc.get
  if r.lastValidFrame.isNone then
    Proc.throw .nullDeref

/-- SOURCE: video/ffmpeg/reader/reader.cpp:197-216 -/
def needBreakReading (r : ReaderFF δ κ) : Bool :=
  r.needStop || (r.state = .error || r.state = .stopped || r.state = .undefined) ||
    decide (r.invalidCounter > maxInvalidThreshold)

/-! ## Event handlers -/

/-- SOURCE: video/ffmpeg/reader/reader_impl.cpp:23-27 -/
def playImpl : Proc Fault (ReaderFF δ κ) Unit := Proc.modify fun r => { r with continueReading := true }

/-- SOURCE: video/ffmpeg/reader/reader_impl.cpp:29-33 -/
def pauseImpl : Proc Fault (ReaderFF δ κ) Unit :=
  Proc.modify fun r => { r with continueReading := false }

/-- SOURCE: video/ffmpeg/reader/reader_impl.cpp:35-39 -/
def stopImpl : Proc Fault (ReaderFF δ κ) Unit :=
  Proc.modify fun r => { r with continueReading := false, needStop := true }

/-- Run a handler with `m_need_handle_after_force_set_pos` set; a failure leaves it set. -/
def forceHandle (p : Proc Fault (ReaderFF δ κ) Unit) : Proc Fault (ReaderFF δ κ) Unit := do
  Proc.modify fun r => { r with needHandleAfterForceSetPos := true }
  p
  Proc.modify fun r => { r with needHandleAfterForceSetPos := false }

/-- The next frame to read is the one at `pos`: negation of `check_ts`.
SOURCE: video/ffmpeg/reader/reader_impl.cpp:126-131 -/
def isTargetFrame (pos nextFrameTs afterNextFrameTs : TimestampFF) : Bool :=
  decide (nextFrameTs ≤ pos) && decide (afterNextFrameTs > pos)

/-- The reading loop of `set_position_impl`; `duration` is `after_next_frame_duration`.
SOURCE: video/ffmpeg/reader/reader_impl.cpp:135-147 -/
def setPositionLoop (pos : TimestampFF) :
    Nat → TimestampFF → TimeFF → Proc Fault (ReaderFF δ κ) Unit
  | 0, _, _ => Proc.throw .diverged
  | fuel + 1, nextFrameTs, duration => do
    let r ← Proc.get
    if r.needBreakReading || isTargetFrame pos nextFrameTs (nextFrameTs + duration) then
      return ()
    readFrame D C
    let nextFrameTs ← onStream StreamReader.getPosition
    let fromStream ← onStream fun s => do
      let w ← Proc.get
      return w.getPktDuration s
    setPositionLoop pos fuel nextFrameTs (if fromStream ≠ avNoPtsValue then fromStream else duration)

/-- `m_frame_observers.disable()` and `m_reader_observers.disable()`. -/
def disableObservers (r : ReaderFF δ κ) : ReaderFF δ κ :=
  { r with frameObservers := r.frameObservers.disable, readerObservers := r.readerObservers.disable }

def enableObservers (r : ReaderFF δ κ) : ReaderFF δ κ :=
  { r with frameObservers := r.frameObservers.enable, readerObservers := r.readerObservers.enable }

/-- The part of `set_position_impl` after a successful seek.
SOURCE: video/ffmpeg/reader/reader_impl.cpp:119-167 -/
def readUpTo (pos : TimestampFF) (prevState : ReaderState) : Proc Fault (ReaderFF δ κ) Unit := do
  let nextFrameTs ← onStream StreamReader.getPosition
  let duration ← onStream fun s => do
    let w ← Proc.get
    return w.getPktDuration s
  Proc.modify fun r => { r with skipFrameHandle := true }
  let r ← Proc.get
  -- a frame is returned at most twice, and eleven invalid reads end the loop
  setPositionLoop D C pos (2 * D.remaining r.streamReader.demuxer + 20) nextFrameTs duration
  Proc.modify enableObservers
  let r ← Proc.get
  if r.needBreakReading then
    setReaderState r.state
  else
    let _ ← onStream StreamReader.getPosition
    Proc.modify fun r => { r with skipFrameHandle := false }
    readFrame D C
    setReaderState prevState

/-- `set_position_impl`.
SOURCE: video/ffmpeg/reader/reader_impl.cpp:84-168 -/
def setPositionImpl (pos : TimestampFF) : Proc Fault (ReaderFF δ κ) Unit := do
  let pos := if pos < 0 then 0 else pos
  let duration ← getDuration D
  if pos ≥ duration then
    return ()
  let _ ← getPosition
  Proc.modify disableObservers
  let r ← Proc.get
  let prevState := r.state
  seek D C pos
  let r ← Proc.get
  if r.state = .error then
    return ()
  readUpTo D C pos prevState

/-- SOURCE: video/ffmpeg/reader/reader_impl.cpp:41-52 -/
def stepForwardImpl : Proc Fault (ReaderFF δ κ) Unit := do
  let r ← Proc.get
  if r.continueReading then
    return ()
  forceHandle (readFrame D C)

/-- SOURCE: video/ffmpeg/reader/reader_impl.cpp:54-65 -/
def stepBackwardImpl : Proc Fault (ReaderFF δ κ) Unit := do
  let r ← Proc.get
  if r.continueReading then
    return ()
  forceHandle do
    let position ← getPosition
    setPositionImpl D C (position - r.prevDuration)

/-- SOURCE: video/ffmpeg/reader/reader_impl.cpp:67-72 -/
def rewindForwardImpl : Proc Fault (ReaderFF δ κ) Unit :=
  forceHandle do
    let position ← getPosition
    setPositionImpl D C (position + stepValue)

/-- SOURCE: video/ffmpeg/reader/reader_impl.cpp:74-79 -/
def rewindBackwardImpl : Proc Fault (ReaderFF δ κ) Unit :=
  forceHandle do
    let position ← getPosition
    setPositionImpl D C (position - stepValue)

/-- SOURCE: video/ffmpeg/reader/reader.cpp:98-132 -/
def handleEvent (event : ReaderEvent) : Proc Fault (ReaderFF δ κ) Unit :=
  match event with
  | .pause => pauseImpl
  | .play => playImpl
  | .rewindBackward => rewindBackwardImpl D C
  | .rewindForward => rewindForwardImpl D C
  | .setPosition timestamp => setPositionImpl D C timestamp
  | .stepBackward => stepBackwardImpl D C
  | .stepForward => stepForwardImpl D C
  | .stop => stopImpl

end ReaderFF

end Seekira.Model
