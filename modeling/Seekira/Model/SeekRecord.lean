import Seekira.Library.Recorded
import Seekira.Model.DemuxedStream

/-!
# The record of a seek

The joint seek of the streams with its events written down: the positions passed to
the demuxer, the positions tried and the checks of the streams.  Each procedure is
the one of the reader with the events entered between its statements; `SeekRecorded`
shows that it is the reader's own procedure once the record is erased.
-/

set_option autoImplicit false

namespace Seekira.Model

open Library

inductive SeekEvent
  /-- the demuxer is asked to seek to the position -/
  | search (position : TimestampFF)
  /-- the lower of the position and the demuxer's answer -/
  | tried (position : TimestampFF)
  /-- the stream answers for the packet it stopped at -/
  | check (stream : StreamId) (packet : Option DataPacket) (result : Bool)
  deriving DecidableEq, Repr

namespace SeekEvent

/-- The positions passed to the demuxer. -/
def searches (events : List SeekEvent) : List TimestampFF :=
  events.filterMap fun
    | .search position => some position
    | _ => none

end SeekEvent

namespace StreamReader

variable {δ κ : Type} (D : IDemuxer δ)

/-- A check of one stream. -/
def recordedCheck (s : StreamId) : Recorded Fault SeekEvent (StreamReader δ κ) Bool := do
  let result ← .lift (getSeekResult D s)
  let r ← .lift Proc.get
  .note (.check s (r.streams s).bufferedPacket result)
  return result

/-- `checkResults` with its events. -/
def recordedCheckResults (seekTime : TimestampFF) :
    List StreamId → Recorded Fault SeekEvent (StreamReader δ κ) Bool
  | [] => pure true
  | checker :: rest => do
    let checkResult ← recordedCheck D checker
    if checkResult then
      recordedCheckResults seekTime rest
    else if seekTime > 0 then
      return false
    else
      let _ ← recordedCheckResults seekTime rest
      return false

/-- `infoSeekResult` with its events. -/
def recordedInfoSeekResult (seekTime : TimestampFF) (i : StreamId) :
    Recorded Fault SeekEvent (StreamReader δ κ) Bool := do
  .lift (modifyInfo i fun info => { info with seekAlreadyDone := true })
  let r ← .lift Proc.get
  recordedCheckResults D seekTime (r.infos i).seekResultCheckers

/-- `seekResults` with its events. -/
def recordedSeekResults (seekPos : TimestampFF) :
    List StreamId → Recorded Fault SeekEvent (StreamReader δ κ) Bool
  | [] => pure true
  | i :: rest => do
    let result ← recordedInfoSeekResult D seekPos i
    if result then
      recordedSeekResults seekPos rest
    else if seekPos > 0 then
      return false
    else
      let _ ← recordedSeekResults seekPos rest
      return false

/-- `seekLoop` with its events. -/
def recordedSeekLoop (startSeekPos : TimestampFF) :
    Nat → TimestampFF → TimeFF → Recorded Fault SeekEvent (StreamReader δ κ) Unit
  | 0, _, _ => .lift (Proc.throw .diverged)
  | fuel + 1, seekPos, seekTimeshift => do
    if seekPos < 0 then
      return ()
    let stepBack := decide (seekPos ≥ seekTimeshift) &&
      decide (startSeekPos - seekPos < maxTimeShift)
    let seekTimeshift' :=
      if stepBack && decide (seekTimeshift < maxStep) then
        (if seekTimeshift ≠ 0 then seekTimeshift * 2 else avSecond)
      else seekTimeshift
    let seekPos := if stepBack then seekPos - seekTimeshift else 0
    .note (.search seekPos)
    let demuxerPos ← .lift (onDemuxer (D.seek seekPos))
    let seekPos := if demuxerPos < seekPos then demuxerPos else seekPos
    .note (.tried seekPos)
    let r ← .lift Proc.get
    let result ← recordedSeekResults D seekPos (List.range r.streamCount)
    if result || seekPos = 0 then
      return ()
    recordedSeekLoop startSeekPos fuel seekPos seekTimeshift'

/-- `seek` with its events. -/
def recordedSeek (s : StreamId) : Recorded Fault SeekEvent (StreamReader δ κ) Unit := do
  let r ← .lift Proc.get
  if s ≥ r.streamCount || !(r.infos s).isStreamEnabled then
    .lift (Proc.throw (.thrown "Unexpected seek index"))
  if (r.infos s).seekAlreadyDone then
    .lift (modifyInfo s StreamInfo.resetStateBeforeSeek)
  else
    match minSeekPosition r.infos (List.range r.streamCount) avNoPtsValue with
    | .error e => .lift (Proc.throw e)
    | .ok seekPos =>
      recordedSeekLoop D seekPos 16 seekPos 0
      .lift (Proc.modify fun r =>
        { r with
          infos := fun i => if i < r.streamCount then (r.infos i).resetStateAfterSeek else r.infos i })
      .lift (modifyInfo s StreamInfo.resetStateBeforeSeek)

/-- `doSeek` with its events. -/
def recordedDoSeek (s : StreamId) : Recorded Fault SeekEvent (StreamReader δ κ) Unit := do
  let r ← .lift Proc.get
  if !(r.streams s).hasReader then
    .lift (Proc.throw (.thrown "Reader is NULL"))
  recordedSeek D s
  .lift (modifyStream s fun st => { st with bufferedData := none })

/-- The streams seek one after another. -/
def recordedDoSeeks : List StreamId → Recorded Fault SeekEvent (StreamReader δ κ) Unit
  | [] => pure ()
  | s :: rest => do
    recordedDoSeek D s
    recordedDoSeeks rest

end StreamReader

/-! ## Rounds of requests -/

/-- A call of `request_seek` of a stream. -/
structure SeekRequest where
  stream : StreamId
  time : TimestampFF
  resultChecker : Option StreamId
  deriving DecidableEq, Repr

namespace StreamReader

variable {δ κ : Type}

/-- The requests are made one after another. -/
def requestSeeks (D : IDemuxer δ) (C : CodecOps κ) :
    List SeekRequest → Proc Fault (StreamReader δ κ) Unit
  | [] => pure ()
  | q :: rest => do
    requestSeek D C q.stream q.time q.resultChecker
    requestSeeks D C rest

end StreamReader

end Seekira.Model
