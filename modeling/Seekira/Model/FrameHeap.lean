import Seekira.Library.BlockHeap
import Seekira.Library.Machine
import Seekira.Model.VideoFrame

/-!
# Frames and their memory

A `Frame` has a raw pointer to its pixels and a deleter: the default one frees them, the
empty one of a view does not.  Copying allocates, moving passes the pointer on and leaves
an empty frame behind, assignment goes through a temporary whose destructor frees what was
assigned to.

The machine holds the frames of a program by place (local variables, members, what shared
pointers point to) beside the buffers of others, such as `AVFrame`s and `cv::Mat`s, that
frames are made from.  A program makes a place's frame once before it uses it and does not
use it after its destruction, names buffers that exist and hold the bytes it says, and
paints within a frame.  A buffer that `adopt` names passes to the frame, whose deleter will
free it: its owner has to give it up.  `utils::from_mat` (video/frame/utils/
frame_utils_opencv.cpp:64-67) makes a frame of a `cv::Mat` that stays the owner, and is no
such program.  Nothing else is asked.
-/

set_option autoImplicit false

namespace Seekira.Model.Video

open Library

/-- `Frame::empty_deleter` and `Frame::default_deleter`.
SOURCE: video/frame/interfaces/frame.hpp:31-39 -/
inductive Deleter where
  | empty
  | default
  deriving DecidableEq, Repr

/-- A part of the program that works on memory. -/
abbrev OnHeap (α : Type) : Type := Proc HeapFault (BlockHeap UInt8) α

/-- SOURCE: video/frame/interfaces/frame.hpp:32-39 -/
def Deleter.call : Deleter → Option Nat → OnHeap Unit
  | .empty, _ => pure ()
  | .default, ptr => BlockHeap.release ptr

/-- SOURCE: video/frame/interfaces/frame.hpp:196-206 -/
structure HeapFrame where
  data : Option Nat
  deleter : Deleter
  size : FrameSize
  stride : Nat
  pixFmt : PixFmt
  ts : TimestampFF
  duration : TimeFF
  deriving DecidableEq, Repr

/-- What `create` is given besides the data. -/
structure FrameShape where
  size : FrameSize
  stride : Nat
  pixFmt : PixFmt
  ts : TimestampFF
  duration : TimeFF
  deriving DecidableEq, Repr

namespace FrameShape

def bytesize (shape : FrameShape) : Nat := shape.stride * shape.size.height

end FrameShape

/-- SOURCE: video/frame/interfaces/pixel_format.cpp:39-60 -/
def getBpp : PixFmt → Nat
  | .gray => 8
  | .bgr | .rgb => 24
  | .bgra | .rgba => 32
  | .undefined => 0

/-- SOURCE: video/frame/interfaces/frame.hpp:187 -/
def calculateStride (fmt : PixFmt) (size : FrameSize) : Nat := getBpp fmt * size.width / 8

namespace HeapFrame

/-- SOURCE: video/frame/interfaces/frame.hpp:167 -/
def bytesize (f : HeapFrame) : Nat := f.stride * f.size.height

/-- `Frame()`; `now` is the clock's reading.
SOURCE: video/frame/interfaces/frame.hpp:87, 196-206 -/
def default (now : TimestampFF) : HeapFrame where
  data := none
  deleter := .default
  size := ⟨0, 0⟩
  stride := 0
  pixFmt := .undefined
  ts := now
  duration := -1

/-- SOURCE: video/frame/interfaces/frame.hpp:41-57 -/
def create (shape : FrameShape) (data : Nat) (deleter : Deleter) : HeapFrame where
  data := some data
  deleter := deleter
  size := shape.size
  stride := shape.stride
  pixFmt := shape.pixFmt
  ts := shape.ts
  duration := shape.duration

/-- SOURCE: video/frame/interfaces/frame.hpp:189-194 -/
def reset (f : HeapFrame) : OnHeap HeapFrame := do
  f.deleter.call f.data
  return { f with data := none, deleter := .default }

/-- The bytes that `memcpy` and `memcmp` read; none are read at a null pointer.
SOURCE: video/frame/interfaces/frame.hpp:102, 138 -/
def bytes (f : HeapFrame) : OnHeap (List UInt8) :=
  match f.data with
  | none => if f.bytesize = 0 then pure [] else Proc.throw .badRead
  | some a => BlockHeap.read a f.bytesize

/-- `Frame(size, fmt)`; the new bytes are those found in the memory.
SOURCE: video/frame/interfaces/frame.hpp:89-94 -/
def ofSize (size : FrameSize) (fmt : PixFmt) (found : List UInt8) (now : TimestampFF) :
    OnHeap HeapFrame := do
  let a ← BlockHeap.alloc found
  return { default now with
    data := some a, size := size, stride := calculateStride fmt size, pixFmt := fmt }

/-- The copy constructor; what the new bytes were does not matter.
SOURCE: video/frame/interfaces/frame.hpp:96-103 -/
def copy (rhs : HeapFrame) : OnHeap HeapFrame := do
  let f ← reset { rhs with data := none, deleter := .default }
  let a ← BlockHeap.alloc (List.replicate rhs.bytesize 0)
  let bytes ← rhs.bytes
  BlockHeap.write a 0 bytes
  return { f with data := some a }

/-- SOURCE: video/frame/interfaces/frame.hpp:104-109, 143-152 -/
def assign (lhs rhs : HeapFrame) : OnHeap HeapFrame := do
  let tmp ← copy rhs
  -- after the swap the temporary is what was assigned to
  let _ ← reset lhs
  return tmp

/-- A view of a frame's pixels.
SOURCE: video/frame/interfaces/frame.hpp:59-62 -/
def clone (rhs : HeapFrame) : HeapFrame := { rhs with deleter := .empty }

/-- SOURCE: video/frame/interfaces/frame.hpp:64-74 -/
def createDeep (shape : FrameShape) (data : Nat) : OnHeap HeapFrame := do
  let frameView := create shape data .empty
  let frame ← copy frameView
  let _ ← reset frameView
  return frame

/-- SOURCE: video/frame/interfaces/frame.hpp:76-79 -/
def cloneDeep (rhs : HeapFrame) : OnHeap HeapFrame := do
  let frameView := clone rhs
  let frame ← copy frameView
  let _ ← reset frameView
  return frame

/-- SOURCE: video/frame/interfaces/frame.hpp:130-141 -/
def equals (f g : HeapFrame) : OnHeap Bool := do
  if f.bytesize = g.bytesize ∧ f.size = g.size ∧ f.pixFmt = g.pixFmt ∧ f.stride = g.stride then do
    let left ← f.bytes
    let right ← g.bytes
    return left == right
  else return false

/-- Write a byte through `data()`. -/
def paint (f : HeapFrame) (i : Nat) (byte : UInt8) : OnHeap Unit :=
  match f.data with
  | none => Proc.throw .badWrite
  | some a => BlockHeap.write a i [byte]

end HeapFrame

/-! ## The operations of a program -/

/-- What a program does with frames at places `ι` and buffers `κ`, other than to make views. -/
inductive FrameOp (ι κ : Type) where
  | declare (x : ι) (now : TimestampFF)
  | ofSize (x : ι) (size : FrameSize) (fmt : PixFmt) (found : List UInt8) (now : TimestampFF)
  | copy (x y : ι)
  /-- `x = y` -/
  | assign (x y : ι)
  | move (x y : ι) (now : TimestampFF)
  /-- `x = std::move(y)` -/
  | moveAssign (x y : ι) (now : TimestampFF)
  | swap (x y : ι)
  | destroy (x : ι)
  /-- `create` with the default deleter: the buffer becomes the frame's -/
  | adopt (x : ι) (b : κ) (shape : FrameShape)
  | createDeep (x : ι) (b : κ) (shape : FrameShape)
  | cloneDeep (x y : ι)
  | setTimes (x : ι) (ts : TimestampFF) (duration : TimeFF)
  | paint (x : ι) (i : Nat) (byte : UInt8)
  /-- someone else allocates a buffer -/
  | buffer (b : κ) (bytes : List UInt8)
  /-- and frees it -/
  | dropBuffer (b : κ)
  deriving DecidableEq, Repr

inductive FrameLabel (ι κ : Type) where
  | owning (op : FrameOp ι κ)
  /-- `clone` -/
  | clone (x y : ι)
  /-- `create` with the empty deleter -/
  | createView (x : ι) (b : κ) (shape : FrameShape)
  deriving DecidableEq, Repr

/-- The frames the pixels of which an operation reads or writes. -/
def FrameOp.accessed {ι κ : Type} : FrameOp ι κ → List ι
  | .copy _ y | .assign _ y | .cloneDeep _ y => [y]
  | .paint x _ _ => [x]
  | _ => []

def FrameLabel.accessed {ι κ : Type} : FrameLabel ι κ → List ι
  | .owning op => op.accessed
  | .clone _ _ | .createView _ _ _ => []

structure FrameMemory (ι κ : Type) where
  heap : BlockHeap UInt8
  frames : ι → Option HeapFrame
  buffers : κ → Option Nat
  fault : Option HeapFault

namespace FrameMemory

variable {ι κ : Type} [DecidableEq ι] [DecidableEq κ]

def initial : FrameMemory ι κ := ⟨BlockHeap.empty, fun _ => none, fun _ => none, none⟩

def put (x : ι) (f : HeapFrame) (w : FrameMemory ι κ) : FrameMemory ι κ :=
  { w with frames := Function.update w.frames x (some f) }

/-- Run a part of the program and go on with what it returns; nothing is done after a fault. -/
def run {α : Type} (p : OnHeap α) (next : α → FrameMemory ι κ → FrameMemory ι κ)
    (w : FrameMemory ι κ) : FrameMemory ι κ :=
  match p w.heap with
  | (.ok a, heap) => next a { w with heap := heap }
  | (.error e, heap) => { w with heap := heap, fault := some e }

/-- The frame at a place that has none yet. -/
def create (x : ι) (p : OnHeap HeapFrame) (w : FrameMemory ι κ) : Option (FrameMemory ι κ) :=
  if (w.frames x).isSome then none else some (w.run p (put x))

/-- The buffer holds the bytes that the shape covers. -/
def Covers (w : FrameMemory ι κ) (a : Nat) (shape : FrameShape) : Prop :=
  ∃ bytes, w.heap.blocks a = some bytes ∧ shape.bytesize ≤ bytes.length

instance (w : FrameMemory ι κ) (a : Nat) (shape : FrameShape) : Decidable (w.Covers a shape) :=
  decidable_of_iff ((w.heap.blocks a).any fun bytes => shape.bytesize ≤ bytes.length)
    (by unfold Covers; cases w.heap.blocks a <;> simp)

/-- A frame made from a buffer. -/
def fromBuffer (b : κ) (shape : FrameShape)
    (next : Nat → FrameMemory ι κ → Option (FrameMemory ι κ)) (w : FrameMemory ι κ) :
    Option (FrameMemory ι κ) :=
  (w.buffers b).bind fun a => if w.Covers a shape then next a w else none

/-- One operation; `none` where a program cannot do it. -/
def perform (w : FrameMemory ι κ) : FrameOp ι κ → Option (FrameMemory ι κ)
  | .declare x now => w.create x (pure (.default now))
  | .ofSize x size fmt found now =>
    if found.length = calculateStride fmt size * size.height then
      w.create x (HeapFrame.ofSize size fmt found now)
    else none
  | .copy x y => (w.frames y).bind fun rhs => w.create x rhs.copy
  | .assign x y =>
    (w.frames x).bind fun lhs => (w.frames y).map fun rhs => w.run (lhs.assign rhs) (put x)
  | .move x y now =>
    (w.frames y).bind fun rhs => (w.put y (.default now)).create x (pure rhs)
  | .moveAssign x y now =>
    (w.frames y).bind fun rhs =>
      -- a frame that is moved to itself is emptied first and gets back what it had
      let w := w.put y (.default now)
      (w.frames x).map fun lhs => w.run lhs.reset fun _ => put x rhs
  | .swap x y =>
    (w.frames x).bind fun lhs => (w.frames y).map fun rhs => (w.put x rhs).put y lhs
  | .destroy x =>
    (w.frames x).map fun f =>
      w.run f.reset fun _ w => { w with frames := Function.update w.frames x none }
  | .adopt x b shape =>
    w.fromBuffer b shape fun a w =>
      { w with buffers := Function.update w.buffers b none }.create x
        (pure (.create shape a .default))
  | .createDeep x b shape => w.fromBuffer b shape fun a w => w.create x (HeapFrame.createDeep shape a)
  | .cloneDeep x y => (w.frames y).bind fun rhs => w.create x rhs.cloneDeep
  | .setTimes x ts duration =>
    (w.frames x).map fun f => w.put x { f with ts := ts, duration := duration }
  | .paint x i byte =>
    (w.frames x).bind fun f =>
      if i < f.bytesize then some (w.run (f.paint i byte) fun _ => id) else none
  | .buffer b bytes =>
    if (w.buffers b).isSome then none
    else some (w.run (BlockHeap.alloc bytes) fun a w =>
      { w with buffers := Function.update w.buffers b (some a) })
  | .dropBuffer b =>
    (w.buffers b).map fun a =>
      w.run (BlockHeap.free a) fun _ w => { w with buffers := Function.update w.buffers b none }

def step (w : FrameMemory ι κ) (l : FrameLabel ι κ) : Option (FrameMemory ι κ) :=
  if w.fault.isSome then none
  else
    match l with
    | .owning op => w.perform op
    | .clone x y => (w.frames y).bind fun rhs => w.create x (pure rhs.clone)
    | .createView x b shape =>
      w.fromBuffer b shape fun a w => w.create x (pure (.create shape a .empty))

/-- A program with frames and its memory. -/
def machine (ι κ : Type) [DecidableEq ι] [DecidableEq κ] :
    Machine (FrameMemory ι κ) (FrameLabel ι κ) where
  init := initial
  step := step

end FrameMemory

end Seekira.Model.Video
