import Seekira.Model.FrameHeap

/-!
# What frames are for

The purpose of `Frame`, stated without memory: a place holds a frame with its pixels as it
holds a number.  A copy is the frame again, a move leaves the empty frame behind, and to
paint one frame changes no other.
-/

set_option autoImplicit false

namespace Seekira.Model.Video

open Library

namespace FrameShape

/-- The frame that takes its pixels from the front of a buffer. -/
def frame (shape : FrameShape) (bytes : List UInt8) (hlen : shape.bytesize ≤ bytes.length) :
    Frame where
  data := bytes.take shape.bytesize
  size := shape.size
  stride := shape.stride
  pixFmt := shape.pixFmt
  ts := shape.ts
  duration := shape.duration
  sized := by rw [List.length_take, Nat.min_eq_left hlen, bytesize]

end FrameShape

namespace Frame

def paint (f : Frame) (i : Nat) (byte : UInt8) : Frame :=
  { f with
    data := f.data.set i byte
    sized := by rw [List.length_set, f.sized] }

/-- The same picture; the times may differ.
SOURCE: video/frame/interfaces/frame.hpp:130-141 -/
def Same (f g : Frame) : Prop :=
  f.size = g.size ∧ f.pixFmt = g.pixFmt ∧ f.stride = g.stride ∧ f.data = g.data

instance (f g : Frame) : Decidable (f.Same g) := by
  unfold Same
  infer_instance

end Frame

/-- Frames by place, and the bytes of the buffers. -/
structure FrameValues (ι κ : Type) where
  frames : ι → Option Frame
  buffers : κ → Option (List UInt8)

namespace FrameValues

variable {ι κ : Type} [DecidableEq ι] [DecidableEq κ]

def initial : FrameValues ι κ := ⟨fun _ => none, fun _ => none⟩

def setFrame (x : ι) (f : Option Frame) (v : FrameValues ι κ) : FrameValues ι κ :=
  { v with frames := Function.update v.frames x f }

def setBuffer (b : κ) (bytes : Option (List UInt8)) (v : FrameValues ι κ) : FrameValues ι κ :=
  { v with buffers := Function.update v.buffers b bytes }

/-- The frame at a place that has none yet. -/
def create (x : ι) (f : Frame) (v : FrameValues ι κ) : Option (FrameValues ι κ) :=
  if (v.frames x).isSome then none else some (v.setFrame x (some f))

/-- A frame made from a buffer. -/
def fromBuffer (b : κ) (shape : FrameShape) (next : Frame → FrameValues ι κ → Option (FrameValues ι κ))
    (v : FrameValues ι κ) : Option (FrameValues ι κ) :=
  (v.buffers b).bind fun bytes =>
    if hlen : shape.bytesize ≤ bytes.length then next (shape.frame bytes hlen) v else none

def perform (v : FrameValues ι κ) : FrameOp ι κ → Option (FrameValues ι κ)
  | .declare x now => v.create x (.default now)
  | .ofSize x size fmt found now =>
    if hlen : found.length = calculateStride fmt size * size.height then
      v.create x ⟨found, size, calculateStride fmt size, fmt, now, -1, hlen⟩
    else none
  | .copy x y => (v.frames y).bind fun rhs => v.create x rhs.copy
  | .assign x y =>
    (v.frames x).bind fun _ => (v.frames y).map fun rhs => v.setFrame x (some rhs.copy)
  | .move x y now =>
    (v.frames y).bind fun rhs => (v.setFrame y (some (.default now))).create x rhs
  | .moveAssign x y now =>
    (v.frames y).bind fun rhs =>
      let v := v.setFrame y (some (.default now))
      (v.frames x).map fun _ => v.setFrame x (some rhs)
  | .swap x y =>
    (v.frames x).bind fun lhs => (v.frames y).map fun rhs =>
      (v.setFrame x (some rhs)).setFrame y (some lhs)
  | .destroy x => (v.frames x).map fun _ => v.setFrame x none
  | .adopt x b shape => v.fromBuffer b shape fun f v => (v.setBuffer b none).create x f
  | .createDeep x b shape => v.fromBuffer b shape fun f v => v.create x f
  | .cloneDeep x y => (v.frames y).bind fun rhs => v.create x rhs.cloneDeep
  | .setTimes x ts duration =>
    (v.frames x).map fun f => v.setFrame x (some { f with ts := ts, duration := duration })
  | .paint x i byte =>
    (v.frames x).bind fun f =>
      if i < f.bytesize then some (v.setFrame x (some (f.paint i byte))) else none
  | .buffer b bytes =>
    if (v.buffers b).isSome then none else some (v.setBuffer b (some bytes))
  | .dropBuffer b => (v.buffers b).map fun _ => v.setBuffer b none

def machine (ι κ : Type) [DecidableEq ι] [DecidableEq κ] :
    Machine (FrameValues ι κ) (FrameOp ι κ) where
  init := initial
  step := perform

end FrameValues

end Seekira.Model.Video
