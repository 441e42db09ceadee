import Seekira.Model.ForkedBranches
import Seekira.Model.Media
import Seekira.Model.Reader
import Seekira.Model.SyncPipeline

/-!
# Frames, the effects on them, and their way to the observers

`VideoProcessingManager` is a reader that sends each frame through a synchronous pipeline
before the observers get it.  The resizer and the conversion of the colour space turn the
frame into a matrix of OpenCV and make a new frame of the result.

A frame owns its pixels.  OpenCV is a parameter; a reading of the clock is an argument of
the functions that take one.  Sizes are natural numbers: the source computes the scaled
side in double precision and truncates it, which is the quotient of the integers as long as
their product is below `2 ^ 53`.
-/

set_option autoImplicit false

namespace Seekira.Model.Video

/-- SOURCE: video/frame/interfaces/frame_size.hpp:11-33 -/
structure FrameSize where
  width : Nat
  height : Nat
  deriving DecidableEq, Repr

/-- SOURCE: video/frame/interfaces/pixel_format.hpp:12-24 -/
inductive PixFmt where
  | undefined
  | gray
  | rgb
  | rgba
  | bgr
  | bgra
  deriving DecidableEq, Repr

/-- A frame with the bytes it covers; a null pointer covers none.
SOURCE: video/frame/interfaces/frame.hpp:24-45, 172-195 -/
structure Frame where
  data : List UInt8
  size : FrameSize
  stride : Nat
  pixFmt : PixFmt
  ts : TimestampFF
  duration : TimeFF
  sized : data.length = stride * size.height
  deriving DecidableEq, Repr

namespace Frame

/-- SOURCE: video/frame/interfaces/frame.hpp:164 -/
def bytesize (f : Frame) : Nat := f.stride * f.size.height

/-- `Frame()`; `now` is the clock's reading.
SOURCE: video/frame/interfaces/frame.hpp:81, 185-195 -/
def default (now : TimestampFF) : Frame where
  data := []
  size := ⟨0, 0⟩
  stride := 0
  pixFmt := .undefined
  ts := now
  duration := -1
  sized := rfl

/-- The copy constructor: `bytesize` bytes are allocated and copied.
SOURCE: video/frame/interfaces/frame.hpp:90-103 -/
def copy (f : Frame) : Frame :=
  { f with
    data := f.data.take f.bytesize
    sized := by rw [List.length_take, f.sized, bytesize, Nat.min_self] }

/-- A frame that holds a copy of the data.
SOURCE: video/frame/interfaces/frame.hpp:55-64 -/
def createDeep (size : FrameSize) (stride : Nat) (pixFmt : PixFmt) (data : List UInt8)
    (ts : TimestampFF) (duration : TimeFF) (sized : data.length = stride * size.height) : Frame :=
  copy ⟨data, size, stride, pixFmt, ts, duration, sized⟩

/-- SOURCE: video/frame/interfaces/frame.hpp:66-69 -/
def cloneDeep (f : Frame) : Frame :=
  createDeep f.size f.stride f.pixFmt f.data f.ts f.duration f.sized

@[simp] theorem copy_eq (f : Frame) : f.copy = f := by
  have hdata : f.data.take f.bytesize = f.data := List.take_of_length_le (le_of_eq f.sized)
  cases f
  simpa [copy] using hdata

@[simp] theorem cloneDeep_eq (f : Frame) : f.cloneDeep = f := copy_eq f

end Frame

/-! ## OpenCV -/

/-- SOURCE: core/base/types/interpolation.hpp:5-11 -/
inductive InterpolationType where
  | undefined
  | linear
  | cubic
  | area
  deriving DecidableEq, Repr

/-- `INTER_LINEAR`, `INTER_CUBIC` and `INTER_AREA` -/
inductive CvInterpolation where
  | linear
  | cubic
  | area
  deriving DecidableEq, Repr

/-- `CV_8UC1`, `CV_8UC3` and `CV_8UC4` -/
inductive CvType where
  | c1
  | c3
  | c4
  deriving DecidableEq, Repr

/-- `cv::Mat` -/
structure Mat where
  cols : Nat
  rows : Nat
  type : CvType
  step : Nat
  data : List UInt8
  sized : data.length = step * rows
  deriving DecidableEq, Repr

/-- The functions of OpenCV that are called. -/
structure OpenCv where
  resize : Mat → FrameSize → CvInterpolation → Except Exc Mat
  /-- a code is named by its formats: `COLOR_GRAY2BGR` is `gray` to `bgr` -/
  cvtColor : Mat → PixFmt × PixFmt → Except Exc Mat
  /-- a black image of the given size with the matrix in its upper left corner -/
  pasted : Mat → FrameSize → Mat

/-- What OpenCV documents of its functions: an image is resized to the size asked for, and none is
empty. -/
structure OpenCv.Lawful (cv : OpenCv) : Prop where
  resize_cols : ∀ {mat size interpolation out}, cv.resize mat size interpolation = .ok out →
    out.cols = size.width
  resize_rows : ∀ {mat size interpolation out}, cv.resize mat size interpolation = .ok out →
    out.rows = size.height
  resize_source : ∀ {mat size interpolation out}, cv.resize mat size interpolation = .ok out →
    0 < mat.cols ∧ 0 < mat.rows
  resize_target : ∀ {mat size interpolation out}, cv.resize mat size interpolation = .ok out →
    0 < size.width ∧ 0 < size.height

/-- SOURCE: video/frame/utils/frame_utils_opencv.cpp:45-51, 82-88 -/
def getCvDataType : PixFmt → Except Exc CvType
  | .gray => .ok .c1
  | .bgr | .rgb => .ok .c3
  | .bgra | .rgba => .ok .c4
  | .undefined => .error .std

/-- SOURCE: video/frame/utils/frame_utils_opencv.cpp:16-43, 73-80 -/
def getColorspaceConvertId (source target : PixFmt) : Except Exc (PixFmt × PixFmt) :=
  if source = target ∨ source = .undefined ∨ target = .undefined then .error .std
  else .ok (source, target)

/-- SOURCE: video/frame/utils/frame_utils_opencv.cpp:92-107 -/
def getCvInterpolation : InterpolationType → Except Exc CvInterpolation
  | .area => .ok .area
  | .cubic => .ok .cubic
  | .linear => .ok .linear
  | .undefined => .error .std

/-- SOURCE: video/frame/utils/frame_utils_opencv.cpp:56-60 -/
def toMat (frame : Frame) : Except Exc Mat := do
  let type ← getCvDataType frame.pixFmt
  return ⟨frame.size.width, frame.size.height, type, frame.stride, frame.data, frame.sized⟩

/-- The timestamp and the duration are the defaults of `create_deep`.
SOURCE: video/frame/utils/frame_utils_opencv.cpp:69-72, video/frame/interfaces/frame.hpp:57-58 -/
def fromMatDeep (now : TimestampFF) (mat : Mat) (fmt : PixFmt) : Frame :=
  Frame.createDeep ⟨mat.cols, mat.rows⟩ mat.step fmt mat.data now (-1) mat.sized

/-- SOURCE: video/frame/utils/frame_utils.cpp:10-20 -/
def convertColorspace (cv : OpenCv) (now : TimestampFF) (dstFormat : PixFmt) (frame : Frame) :
    Except Exc Frame :=
  if dstFormat = frame.pixFmt then .ok frame
  else do
    let src ← toMat frame
    let id ← getColorspaceConvertId frame.pixFmt dstFormat
    let dst ← cv.cvtColor src id
    return Frame.createDeep ⟨dst.cols, dst.rows⟩ dst.step dstFormat dst.data now (-1) dst.sized

/-! ## The resizer -/

/-- SOURCE: proc/settings/settings_resizer.hpp:13-22 -/
inductive SizeMode where
  | undefined
  | direct
  | halfDownscale
  | quaterDownscale
  | scaleByMin
  | scaleByMax
  | padding
  deriving DecidableEq, Repr

/-- SOURCE: proc/settings/settings_resizer.hpp:41-44 -/
structure SettingsResizer where
  interpolation : InterpolationType
  sizeMode : SizeMode
  frameSize : FrameSize
  deriving DecidableEq, Repr

namespace EffectResizer

/-- `1.0 * frame.size.height * new_frame_size.width / frame.size.width`, the height that keeps the
aspect ratio at the new width. -/
def fitHeight (size newSize : FrameSize) : FrameSize :=
  { newSize with height := size.height * newSize.width / size.width }

/-- `1.0 * frame.size.width * new_frame_size.height / frame.size.height` -/
def fitWidth (size newSize : FrameSize) : FrameSize :=
  { newSize with width := size.width * newSize.height / size.height }

/-- The size that a frame of the given size is resized to.
SOURCE: proc/effects/effect_resizer.cpp:27-54 -/
def newFrameSize (settings : SettingsResizer) (size : FrameSize) : FrameSize :=
  let new := settings.frameSize
  match settings.sizeMode with
  | .halfDownscale => ⟨new.width / 2, new.height / 2⟩
  | .quaterDownscale => ⟨new.width / 4, new.height / 4⟩
  | .scaleByMax => if new.height < new.width then fitHeight size new else fitWidth size new
  | .padding | .scaleByMin => if new.width < new.height then fitHeight size new else fitWidth size new
  | .undefined | .direct => new

/-- The resized image in the upper left corner of one of the configured size.  A rectangle that does
not lie in the image is refused.
SOURCE: proc/effects/effect_resizer.cpp:61-68 -/
def pad (cv : OpenCv) (settings : SettingsResizer) (newSize : FrameSize) (mat : Mat) :
    Except Exc Mat :=
  if settings.sizeMode ≠ .padding then .ok mat
  else if settings.frameSize.width < newSize.width ∨ settings.frameSize.height < newSize.height then
    .error .std
  else .ok (cv.pasted mat settings.frameSize)

/-- SOURCE: proc/effects/effect_resizer.cpp:18-71 -/
def process (cv : OpenCv) (now : TimestampFF) (settings : SettingsResizer) (input : Frame) :
    Except Exc Frame :=
  if settings.frameSize = input.size then .ok input.copy
  else do
    let frame := input.cloneDeep
    let mat ← toMat frame
    let newSize := newFrameSize settings frame.size
    let interpolation ← getCvInterpolation settings.interpolation
    let resized ← cv.resize mat newSize interpolation
    let padded ← pad cv settings newSize resized
    return fromMatDeep now padded frame.pixFmt

end EffectResizer

/-! ## From the reader to the observers -/

/-- What the nodes of a frame pipeline work on: the data, and everything else they reach.
SOURCE: proc/pipeline/pipeline_data.hpp:11-25 -/
structure VideoJob (P ρ : Type) where
  info : PipelineData Frame P
  env : ρ

section Pipeline

variable {ι P ρ : Type} [DecidableEq ι]

/-- `VideoProcessorInfo()` -/
def defaultInfo (now : TimestampFF) : PipelineData Frame P := ⟨Frame.default now, ⟨[]⟩⟩

/-- Every exception of the pipeline is logged, and the result is then the default one.
SOURCE: proc/video/video_processor_task.cpp:18-42 -/
def VideoProcessorTask.process (tasks : NodeTasks ι (VideoJob P ρ)) (p : BasePipeline ι)
    (fuel : Nat) (now : TimestampFF) (frame : Frame) (env : ρ) :
    Option (PipelineData Frame P × ρ) :=
  match SyncPipeline.process tasks p fuel ⟨⟨frame.copy, ⟨[]⟩⟩, env⟩ with
  | none => none
  | some (.ok _, s) => some (s.data.info, s.data.env)
  | some (.error _, s) => some (defaultInfo now, s.data.env)

/-- The frame that is left behind the reader's pointer.
SOURCE: proc/video/video_processing_manager.cpp:25-33 -/
def VideoProcessingManager.readerProcessFrame (tasks : NodeTasks ι (VideoJob P ρ))
    (p : BasePipeline ι) (fuel : Nat) (now : TimestampFF) (frame : Frame) (env : ρ) :
    Option (Frame × ρ) :=
  (VideoProcessorTask.process tasks p fuel now frame env).map fun r => (r.1.data.copy, r.2)

/-- The calls that a frame to be handled posts to the observers.
SOURCE: video/ffmpeg/reader/reader.cpp:180-185 -/
def VideoProcessingManager.sendFrame (tasks : NodeTasks ι (VideoJob P ρ)) (p : BasePipeline ι)
    (fuel : Nat) (now : TimestampFF) (frame : Frame) (observers : EventHandlerList Nat) (env : ρ) :
    Option (List (Nat × Frame) × ρ) :=
  (readerProcessFrame tasks p fuel now frame env).map fun r =>
    (observers.performForEach.map fun observer => (observer, r.1), r.2)

/-! ## Pipelines of resizers -/

/-- A node that resizes the frame; `clock` is what its readings are, the environment counts them.
SOURCE: proc/pipeline/nodes/resizer_node.cpp:40-43 -/
def ResizerPipelineNode.process (cv : OpenCv) (clock : Nat → TimestampFF)
    (settings : SettingsResizer) : Library.Proc Exc (VideoJob P Nat) Unit := fun job =>
  match EffectResizer.process cv (clock job.env) settings job.info.data with
  | .error e => (.error e, { job with env := job.env + 1 })
  | .ok frame => (.ok (), { info := { job.info with data := frame }, env := job.env + 1 })

/-- The tasks of a pipeline whose nodes are resizers, and input nodes that do nothing.
SOURCE: proc/pipeline/nodes/input_node.hpp:31 -/
def resizerTasks (cv : OpenCv) (clock : Nat → TimestampFF)
    (settingsOf : ι → Option SettingsResizer) : NodeTasks ι (VideoJob P Nat) := fun node =>
  match settingsOf node with
  | none => pure ()
  | some settings => ResizerPipelineNode.process cv clock settings

end Pipeline

end Seekira.Model.Video
