import Seekira.Library.Machine
import Seekira.Model.Reader

/-!
# What a player is for

The purpose of the reader, stated without streams, packets or codecs: a player has a
row of frames, all of one duration, and shows one of them after another.  It shows
the next frame while it plays and when it is asked to step; it shows the frame
before when it is asked to step back, and the frame at a position when it is asked
for one.  The last `lag` frames cannot be shown: the decoder still needs packets
after the ones it is given back.  Frames are read ahead into a bounded memory, and
playing ends before the last frame was shown once all of them are read.
-/

set_option autoImplicit false

namespace Seekira.Model

/-- The frames that a player has. -/
structure FrameRow where
  count : Nat
  duration : TimeFF
  lag : Nat
  /-- the frames from this one on fit into the memory together -/
  fits : Nat → Bool

structure FramePlayer where
  /-- the frame shown last -/
  current : Option Nat
  playing : Bool
  /-- the frames shown so far -/
  shown : List Nat
  deriving DecidableEq, Repr

inductive FrameMove where
  | event (event : ReaderEvent)
  /-- the next frame of a playing player -/
  | read
  /-- the whole file has been read ahead, which the frames left have to fit for: playing ends -/
  | endOfFile
  deriving DecidableEq, Repr

namespace FrameMove

/-- The event that a move handles. -/
def handled : FrameMove → Option ReaderEvent
  | event e => some e
  | read | endOfFile => none

end FrameMove

namespace FramePlayer

def initial : FramePlayer := { current := none, playing := false, shown := [] }

/-- The frame after the one shown last. -/
def next (p : FramePlayer) : Nat :=
  match p.current with
  | none => 0
  | some i => i + 1

/-- Show frame `i`, if it can be shown. -/
def display (F : FrameRow) (i : Nat) (p : FramePlayer) : Option FramePlayer :=
  if i + F.lag < F.count then some { p with current := some i, shown := p.shown ++ [i] } else none

/-- The frame at a position. -/
def frameAt (F : FrameRow) (pos : TimestampFF) : Nat := (pos / F.duration).toNat

/-- Show the frame at a position; a position past the end is ignored, one before the start is
taken for the start.  A player that has shown nothing cannot be positioned. -/
def seekTo (F : FrameRow) (pos : TimestampFF) (p : FramePlayer) : Option FramePlayer :=
  if F.count * F.duration ≤ max pos 0 then some p
  else if p.current.isSome then p.display F (frameAt F (max pos 0))
  else none

def step (F : FrameRow) (p : FramePlayer) : FrameMove → Option FramePlayer
  | .read => if p.playing then p.display F p.next else none
  -- the decoder has up to `lag` of the frames left, and one more can be kept by the stream
  | .endOfFile => if F.fits (p.next + F.lag + 1) then some { p with playing := false } else none
  | .event .play => some { p with playing := true }
  | .event .pause => some { p with playing := false }
  | .event .stop => none
  | .event .stepForward => if p.playing then some p else p.display F p.next
  | .event .stepBackward =>
    if p.playing then some p else p.current.bind fun i => p.display F (i - 1)
  | .event .rewindForward =>
    p.current.bind fun i => p.seekTo F (i * F.duration + ReaderFF.stepValue)
  | .event .rewindBackward =>
    p.current.bind fun i => p.seekTo F (i * F.duration - ReaderFF.stepValue)
  | .event (.setPosition pos) => p.seekTo F pos

def machine (F : FrameRow) : Library.Machine FramePlayer FrameMove where
  init := initial
  step := step F

end FramePlayer

end Seekira.Model
