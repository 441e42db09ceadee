import Seekira.Model.BaseTypes
import Seekira.Model.VideoFrame

/-!
# The settings of a camera in JSON

`CameraSettings` with its parts, the comparison of two settings, and how settings are written into
an object and read from one.  Some of the parts are optional.
-/

set_option autoImplicit false

namespace Seekira.Model.Video

open Library

/-! ## Pixel formats by name -/

/-- A value of the enumeration `PixFmt`, with its last one.
SOURCE: video/frame/interfaces/pixel_format.hpp:12-24 -/
inductive PixFmtValue where
  | format (fmt : PixFmt)
  | endOf
  deriving DecidableEq, Repr

namespace PixFmtValue

/-- SOURCE: video/frame/interfaces/pixel_format.cpp:16-31 -/
def pixelFormats : List (PixFmtValue × String) :=
  [(.format .gray, "GRAY"), (.format .gray, "Grayscaled"),
    (.format .bgr, "BGR"), (.format .bgr, "BGR8Packed"),
    (.format .bgra, "BGRA"), (.format .bgra, "BGRA8Packed"),
    (.format .rgb, "RGB"), (.format .rgb, "RGB8Packed"),
    (.format .rgba, "RGBA"), (.format .rgba, "RGBA8Packed")]

/-- SOURCE: video/frame/interfaces/pixel_format.cpp:105-109; core/base/utils/find_pair.hpp:216-223 -/
def toString (pixFmt : PixFmtValue) : String :=
  ((pixelFormats.find? fun pair => pair.1 = pixFmt).map Prod.snd).getD ""

/-- SOURCE: video/frame/interfaces/pixel_format.cpp:117-121; core/base/utils/find_pair.hpp:225-232 -/
def fromString (str : String) : PixFmtValue :=
  ((pixelFormats.find? fun pair => pair.2 = str).map Prod.fst).getD (.format .undefined)

end PixFmtValue

/-! ## The parts -/

/-- SOURCE: video/camera/interfaces/types/camera_resolution.hpp:11-24 -/
structure CameraResolution where
  width : Nat := 0
  height : Nat := 0
  deriving DecidableEq, Repr

namespace CameraResolution

/-- SOURCE: video/camera/interfaces/types/camera_resolution.cpp:17-21 -/
def serialize (resolution : CameraResolution) (container : ObjectJSON) : ObjectJSON :=
  let container := Json.set .sizeT container "width" resolution.width
  Json.set .sizeT container "height" resolution.height

/-- SOURCE: video/camera/interfaces/types/camera_resolution.cpp:23-27 -/
def deserialize (poco : Poco) (container : ObjectJSON) :
    EStateM LoadError CameraResolution Unit := do
  assign (Json.get poco .sizeT container "width") fun width resolution => { resolution with width }
  assign (Json.get poco .sizeT container "height") fun height resolution =>
    { resolution with height }

end CameraResolution

/-- SOURCE: video/camera/interfaces/types/camera_intrinsics.hpp:7-22 -/
structure CameraIntrinsics where
  fx : ℚ := 0
  fy : ℚ := 0
  cx : ℚ := 0
  cy : ℚ := 0
  deriving DecidableEq, Repr

namespace CameraIntrinsics

/-- SOURCE: video/camera/interfaces/types/camera_intrinsics.cpp:8-18 -/
def equal (lhs rhs : CameraIntrinsics) : Bool :=
  Utils.compare lhs.fx rhs.fx && Utils.compare lhs.fy rhs.fy && Utils.compare lhs.cx rhs.cx &&
    Utils.compare lhs.cy rhs.cy

/-- SOURCE: video/camera/interfaces/types/camera_intrinsics.cpp:20-26 -/
def serialize (intrinsics : CameraIntrinsics) (container : ObjectJSON) : ObjectJSON :=
  let container := Json.set .double container "fx" intrinsics.fx
  let container := Json.set .double container "fy" intrinsics.fy
  let container := Json.set .double container "cx" intrinsics.cx
  Json.set .double container "cy" intrinsics.cy

/-- SOURCE: video/camera/interfaces/types/camera_intrinsics.cpp:28-34 -/
def deserialize (poco : Poco) (container : ObjectJSON) :
    EStateM LoadError CameraIntrinsics Unit := do
  assign (Json.get poco .double container "fx") fun fx intrinsics => { intrinsics with fx }
  assign (Json.get poco .double container "fy") fun fy intrinsics => { intrinsics with fy }
  assign (Json.get poco .double container "cx") fun cx intrinsics => { intrinsics with cx }
  assign (Json.get poco .double container "cy") fun cy intrinsics => { intrinsics with cy }

end CameraIntrinsics

/-- SOURCE: video/camera/interfaces/types/camera_distortion.hpp:9-23 -/
structure CameraDistortion where
  coefs : List ℚ := []
  deriving DecidableEq, Repr

namespace CameraDistortion

/-- SOURCE: video/camera/interfaces/types/camera_distortion.cpp:7-10 -/
def equal (lhs rhs : CameraDistortion) : Bool := Utils.compareAll lhs.coefs rhs.coefs

/-- SOURCE: video/camera/interfaces/types/camera_distortion.cpp:12-16 -/
def serialize (distortion : CameraDistortion) (container : ArrayJSON) : ArrayJSON :=
  distortion.coefs.foldl (Json.add .double) container

/-- SOURCE: video/camera/interfaces/types/camera_distortion.cpp:18-22 -/
def deserialize (poco : Poco) (container : ArrayJSON) : EStateM LoadError CameraDistortion Unit :=
  container.forM fun value =>
    assign (Json.item poco .double value) fun coef distortion =>
      { distortion with coefs := distortion.coefs ++ [coef] }

end CameraDistortion

/-- SOURCE: video/camera/interfaces/types/camera_extrinsics.hpp:9-22 -/
structure CameraExtrinsics where
  pose : Pose := {}
  deriving DecidableEq, Repr

namespace CameraExtrinsics

/-- SOURCE: video/camera/interfaces/types/camera_extrinsics.cpp:5 -/
def equal (lhs rhs : CameraExtrinsics) : Bool := lhs.pose.equal rhs.pose

/-- SOURCE: video/camera/interfaces/types/camera_extrinsics.cpp:7 -/
def serialize (extrinsics : CameraExtrinsics) (container : ObjectJSON) : ObjectJSON :=
  extrinsics.pose.serialize container

/-- SOURCE: video/camera/interfaces/types/camera_extrinsics.cpp:9 -/
def deserialize (poco : Poco) (container : ObjectJSON) : EStateM LoadError CameraExtrinsics Unit :=
  onPart pose (fun pose extrinsics => { extrinsics with pose }) (Pose.deserialize poco container)

end CameraExtrinsics

/-! ## The settings -/

/-- SOURCE: video/camera/interfaces/types/camera_settings.hpp:17-40 -/
structure CameraSettings where
  id : String := ""
  serialId : String := ""
  pixFmt : PixFmtValue := .format .bgr
  intrinsics : CameraIntrinsics := {}
  resolution : CameraResolution := {}
  distortion : Option CameraDistortion := none
  extrinsics : Option CameraExtrinsics := none
  exposure : Option Int := none
  frameRate : Option Int := none
  reconnectTimeout : Option Int := none
  deriving DecidableEq, Repr

/-- The comparison of two optional values. -/
def optEqual {α : Type} (equal : α → α → Bool) : Option α → Option α → Bool
  | none, none => true
  | some lhs, some rhs => equal lhs rhs
  | _, _ => false

namespace CameraSettings

/-- SOURCE: video/camera/interfaces/types/camera_settings.cpp:9-25 -/
def equal (lhs rhs : CameraSettings) : Bool :=
  decide (lhs.id = rhs.id) && decide (lhs.serialId = rhs.serialId) &&
    decide (lhs.pixFmt = rhs.pixFmt) &&
    optEqual CameraDistortion.equal lhs.distortion rhs.distortion &&
    optEqual CameraExtrinsics.equal lhs.extrinsics rhs.extrinsics &&
    lhs.intrinsics.equal rhs.intrinsics && decide (lhs.resolution = rhs.resolution) &&
    decide (lhs.exposure = rhs.exposure) && decide (lhs.frameRate = rhs.frameRate) &&
    decide (lhs.reconnectTimeout = rhs.reconnectTimeout)

/-- SOURCE: video/camera/interfaces/types/camera_settings.cpp:27-64 -/
def serialize (settings : CameraSettings) (container : ObjectJSON) : ObjectJSON :=
  let container := Json.set .string container "id" settings.id
  let container := Json.set .string container "serial_id" settings.serialId
  let container := Json.set .string container "pixel_format" settings.pixFmt.toString
  let container := Json.set .object container "resolution" (settings.resolution.serialize [])
  let container := Json.set .object container "intrinsics" (settings.intrinsics.serialize [])
  let container := Json.setOpt .array container "distortion"
    (settings.distortion.map fun distortion => distortion.serialize [])
  let container := Json.setOpt .object container "pose"
    (settings.extrinsics.map fun extrinsics => extrinsics.serialize [])
  let container := Json.setOpt .int container "exposure" settings.exposure
  let container := Json.setOpt .int container "frame_rate" settings.frameRate
  Json.setOpt .timeType container "reconnect_timeout" settings.reconnectTimeout

/-- SOURCE: video/camera/interfaces/types/camera_settings.cpp:66-105 -/
def deserialize (poco : Poco) (container : ObjectJSON) : EStateM LoadError CameraSettings Unit := do
  assign (Json.get poco .string container "id") fun id settings => { settings with id }
  assign (Json.get poco .string container "serial_id") fun serialId settings =>
    { settings with serialId }
  modify fun settings => { settings with
    pixFmt := .fromString (Json.getDefault poco .string container "pixel_format"
      (PixFmtValue.format .undefined).toString) }
  let resolutionJson ← MonadExcept.ofExcept (Json.getObject container "resolution")
  onPart resolution (fun resolution settings => { settings with resolution })
    (CameraResolution.deserialize poco resolutionJson)
  let intrinsicsJson ← MonadExcept.ofExcept (Json.getObject container "intrinsics")
  onPart intrinsics (fun intrinsics settings => { settings with intrinsics })
    (CameraIntrinsics.deserialize poco intrinsicsJson)
  (Json.optArray container "distortion").forM fun distortionJson =>
    onNew {} (fun dist settings => { settings with distortion := some dist })
      (CameraDistortion.deserialize poco distortionJson)
  (Json.optObject container "pose").forM fun extrinsicsJson =>
    onNew {} (fun extr settings => { settings with extrinsics := some extr })
      (CameraExtrinsics.deserialize poco extrinsicsJson)
  modify fun settings => { settings with exposure := Json.getOpt poco .int container "exposure" }
  modify fun settings => { settings with frameRate := Json.getOpt poco .int container "frame_rate" }
  (Json.getOpt poco .timeType container "reconnect_timeout").forM fun recTimeout =>
    modify fun settings => { settings with reconnectTimeout := some recTimeout }

end CameraSettings

end Seekira.Model.Video
