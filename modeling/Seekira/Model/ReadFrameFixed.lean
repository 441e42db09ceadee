import Seekira.Library.Loop
import Seekira.Model.Media

/-!
# Reading past damaged parts of a file

`read_frame_fixed` calls `av_read_frame` until it has a packet or cannot repair the
failure.  It repeats the call while the format asks for it, and moves the file
position forward by byte seeks over a part that cannot be read.

What FFmpeg answers in each round is a parameter.  The rounds are recorded; no round
reads the record.
-/

set_option autoImplicit false

namespace Seekira.Model

open Library

namespace ReadFrameFixed

/-- `AVERROR(ENOENT)` -/
def averrorEnoent : Int := -2

/-- `AVERROR(ENXIO)` -/
def averrorEnxio : Int := -6

/-- `AVERROR(EAGAIN)` -/
def averrorEagain : Int := -11

/-- `AVERROR(ENODEV)` -/
def averrorEnodev : Int := -19

/-- `AVERROR_EOF` -/
def averrorEof : Int := -541478725

/-- What FFmpeg answers in one round, if it is asked. -/
structure Answer where
  /-- `ctx->pb->pos`, without `ctx->pb` none -/
  pos : Option TimestampFF
  /-- `av_read_frame` -/
  readFrame : Int
  /-- `avio_size` -/
  avioSize : Int
  /-- `avio_tell` -/
  avioTell : Int
  /-- `av_seek_frame` -/
  seekFrame : Int
  deriving DecidableEq, Repr

/-- What a round that was not the last one, or that sought in vain, did. -/
inductive Event where
  | retried
  | sought (pos : Int)
  | soughtInVain (pos : Int)
  deriving DecidableEq, Repr

/-- The local variables, with the number of the round and the record of the rounds, the last one
first.
SOURCE: video/ffmpeg/utils/utils.cpp:67-69 -/
structure Locals where
  readCount : Nat
  curPos : TimestampFF
  totalSize : TimestampFF
  rounds : Nat
  events : List Event
  deriving DecidableEq, Repr

def enter : Locals :=
  { readCount := 0, curPos := avNoPtsValue, totalSize := avNoPtsValue, rounds := 0, events := [] }

/-- SOURCE: video/ffmpeg/utils/utils.cpp:73-74 -/
def seenPos (answer : Answer) (curPos : TimestampFF) : TimestampFF :=
  match answer.pos with
  | some pos => if pos ≠ avNoPtsValue then pos else curPos
  | none => curPos

/-- SOURCE: video/ffmpeg/utils/utils.cpp:102-111 -/
def foundSize (answer : Answer) (totalSize : TimestampFF) : TimestampFF :=
  if totalSize = avNoPtsValue then
    if answer.avioSize < 0 then
      if answer.avioTell < 0 then avNoPtsValue else answer.avioTell
    else answer.avioSize
  else totalSize

/-- The errors that no other position would help against.
SOURCE: video/ffmpeg/utils/utils.cpp:79-87 -/
def notFixable (res : Int) : Bool :=
  res = averrorEnoent || res = averrorEnxio || res = averrorEnodev || res = averrorEof

/-- One round of the loop.
SOURCE: video/ffmpeg/utils/utils.cpp:71-133 -/
def round (answers : Nat → Answer) (w : Locals) : Round Locals (Int × Locals) :=
  let answer := answers w.rounds
  let res := answer.readFrame
  let w := { w with rounds := w.rounds + 1, curPos := seenPos answer w.curPos }
  if res < 0 then
    if notFixable res then .leave (res, w)
    else if res = averrorEagain ∧ w.readCount < 20 then
      .again { w with readCount := w.readCount + 1, events := .retried :: w.events }
    else if w.curPos ≠ avNoPtsValue ∧ w.curPos > 0 then
      let w := { w with totalSize := foundSize answer w.totalSize }
      if w.totalSize > 0 ∧ w.totalSize - w.curPos > 102400 then
        let w := { w with readCount := 0, curPos := w.curPos + 1024 }
        if answer.seekFrame < 0 then
          .leave (res, { w with events := .soughtInVain w.curPos :: w.events })
        else .again { w with events := .sought w.curPos :: w.events }
      else .leave (res, w)
    else .leave (res, w)
  else .leave (res, w)

/-! ## What the record says -/

/-- The retries since the last seek, or since the call. -/
def retriesInARow : List Event → Nat
  | .retried :: events => retriesInARow events + 1
  | _ => 0

/-- The byte seeks. -/
def seeks (events : List Event) : List Event :=
  events.filter fun e => e ≠ .retried

/-- The position of the last successful seek. -/
def lastSought : List Event → Option Int
  | [] => none
  | .sought pos :: _ => some pos
  | _ :: events => lastSought events

end ReadFrameFixed

end Seekira.Model
