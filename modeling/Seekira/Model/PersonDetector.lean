import Mathlib.Data.Rat.Floor
import Seekira.Model.VideoFrame

/-!
# The detection of persons

`PersonDetector` resizes a frame for its network and maps the boxes that the network finds
back to the frame.  The network and the decoding of its output are parameters; the boxes
have rational coordinates.
-/

set_option autoImplicit false

namespace Seekira.Model.Video

/-- `cv::Rect2f` -/
structure RectF where
  x : ℚ
  y : ℚ
  width : ℚ
  height : ℚ
  deriving DecidableEq, Repr

namespace RectF

def area (r : RectF) : ℚ := r.width * r.height

/-- `operator&`, the common part of two rectangles. -/
def inter (r r' : RectF) : RectF :=
  let x := max r.x r'.x
  let y := max r.y r'.y
  let width := min (r.x + r.width) (r'.x + r'.width) - x
  let height := min (r.y + r.height) (r'.y + r'.height) - y
  if width ≤ 0 ∨ height ≤ 0 then ⟨0, 0, 0, 0⟩ else ⟨x, y, width, height⟩

/-- The rectangle in an image scaled by the two factors, its upper left corner kept. -/
def scale (xFactor yFactor : ℚ) (r : RectF) : RectF :=
  ⟨r.x * xFactor, r.y * yFactor, r.width * xFactor, r.height * yFactor⟩

end RectF

/-- SOURCE: proc/neural/yolo/yolo_object.hpp:7-12 -/
structure YoloObject where
  rect : RectF
  prob : ℚ
  label : Nat
  deriving DecidableEq, Repr

/-- The fields of `YoloxWrapper` that `process` reads; the others are those of the decoding.
SOURCE: proc/neural/yolo/yolox_wrapper.hpp:50-56 -/
structure YoloxWrapper where
  nmsThreshold : ℚ
  frameSize : FrameSize
  deriving DecidableEq, Repr

namespace YoloxWrapper

/-- An object is kept when it does not overlap too much with one kept before.
SOURCE: proc/neural/yolo/yolox_wrapper.cpp:141-174 -/
def nmsSortedBboxes (w : YoloxWrapper) (objects : List YoloObject) : List YoloObject :=
  objects.foldl (fun kept object =>
    if kept.any fun other =>
        let interArea := (object.rect.inter other.rect).area
        w.nmsThreshold < interArea / (object.rect.area + other.rect.area - interArea) then kept
    else kept ++ [object]) []

/-- The indexes of the kept objects, which `nms_sorted_bboxes` returns.
SOURCE: proc/neural/yolo/yolox_wrapper.cpp:144-178 -/
def nmsSortedIndexes (w : YoloxWrapper) (objects : List YoloObject) : List (Fin objects.length) :=
  let areas := fun i => (objects.get i).rect.area
  (List.finRange objects.length).foldl (fun result i =>
    if result.any fun j =>
        let interArea := ((objects.get i).rect.inter (objects.get j).rect).area
        let unionArea := areas i + areas j - interArea
        w.nmsThreshold < interArea / unionArea then result
    else result ++ [i]) []

/-- SOURCE: proc/neural/yolo/yolox_wrapper.cpp:34-35, 41-53 -/
def rescale (w : YoloxWrapper) (origFrameSize : FrameSize) (rect : RectF) : RectF :=
  let widthScale : ℚ := origFrameSize.width / w.frameSize.width
  let heightScale : ℚ := origFrameSize.height / w.frameSize.height
  let x0 := rect.x * widthScale
  let x1 := (rect.x + rect.width) * widthScale
  let y0 := rect.y * heightScale
  let y1 := (rect.y + rect.height) * heightScale
  ⟨x0, y0, x1 - x0, y1 - y0⟩

/-- The proposals are those of `generate_yolox_proposals`.
SOURCE: proc/neural/yolo/yolox_wrapper.cpp:23-58 -/
def process (w : YoloxWrapper) (proposals : List YoloObject) (origFrameSize : FrameSize) :
    List YoloObject :=
  let sorted := proposals.mergeSort fun first second => second.prob ≤ first.prob
  (w.nmsSortedBboxes sorted).map fun object =>
    { object with rect := w.rescale origFrameSize object.rect }

end YoloxWrapper

/-- The mapping of the pixels of a frame of the given size to those of the frame that the resizer
makes of it: an image that is resized fills the new one, and padding leaves it in the upper left
corner. -/
def EffectResizer.mapRect (settings : SettingsResizer) (size : FrameSize) (rect : RectF) : RectF :=
  if settings.frameSize = size then rect
  else
    let new := newFrameSize settings size
    rect.scale (new.width / size.width) (new.height / size.height)

/-- SOURCE: proc/detect/person_detector.cpp:62-65 -/
structure PersonDetector where
  resizer : SettingsResizer
  /-- `INeuralNet::process` with `generate_yolox_proposals` -/
  net : Frame → Except Exc (List YoloObject)

/-- `step::Rect`, by its corners.
SOURCE: core/base/types/rect.hpp:7-14 -/
structure Rect where
  x0 : Int
  y0 : Int
  x1 : Int
  y1 : Int
  deriving DecidableEq, Repr

namespace PersonDetector

/-- SOURCE: proc/detect/person_detector.cpp:33-41 -/
def yolox (d : PersonDetector) : YoloxWrapper where
  nmsThreshold := 7 / 10
  frameSize := d.resizer.frameSize

/-- `static_cast<int>` of a floating-point number. -/
def toInt (x : ℚ) : Int := if 0 ≤ x then ⌊x⌋ else ⌈x⌉

/-- SOURCE: proc/detect/person_detector.cpp:44-60 -/
def process (cv : OpenCv) (now : TimestampFF) (frame : Frame) (d : PersonDetector) :
    Except Exc (List Rect) := do
  let resized ← EffectResizer.process cv now d.resizer frame
  let output ← d.net resized
  return (d.yolox.process output frame.size).map fun item =>
    ⟨toInt item.rect.x, toInt item.rect.y, toInt (item.rect.x + item.rect.width),
      toInt (item.rect.y + item.rect.height)⟩

end PersonDetector

end Seekira.Model.Video
