import Seekira.Model.FaceEngine
import Seekira.Model.Json
import Seekira.Model.PersonHolder
import Seekira.Model.PipelineGraph
import Seekira.Model.VideoFrame

/-!
# The settings of the processing tasks

A configuration names the class of its settings, and a factory has one creator for each
name.  Some settings contain further settings, which the same factory creates; others
keep the configuration of what they will create.  What a name is used for is nowhere
checked while settings are created.

Exceptions are told from what ends the process; an exception is not followed further.
-/

set_option autoImplicit false

namespace Seekira.Model

open Library Video

/-- What is thrown while a configuration is loaded. -/
inductive ConfigError where
  | load (e : LoadError)
  /-- "Container passed doesn't have an array for key '{}'" -/
  | missingArray (key : String)
  /-- "FACE_ENGINE_CONNECTION_ID can't be empty!" -/
  | emptyConnectionId
  /-- "Task settings creator with id {} was not registered!" -/
  | unknownSettings (id : String)
  /-- "Invalid FaceEngineType!" -/
  | invalidEngineType
  /-- "Undefined device type for onnxruntime" -/
  | undefinedDevice
  | graph (e : PipelineError String)
  /-- an exception of what is outside: a network or the images of a person cannot be loaded -/
  | outside (e : Exc)
  deriving DecidableEq, Repr

/-- The ways out of the creation of a task other than returning. -/
inductive TaskFault where
  | thrown (e : ConfigError)
  /-- a null pointer is dereferenced -/
  | nullDeref
  /-- an exception leaves a destructor -/
  | terminated
  /-- no end -/
  | diverged
  deriving DecidableEq, Repr

/-- Settings are created, and tasks from them. -/
abbrev Creation (α : Type) := Except TaskFault α

namespace Creation

variable {α : Type}

def throw (e : ConfigError) : Creation α := .error (.thrown e)

/-- What is read from a configuration. -/
def read (x : Except LoadError α) : Creation α := x.mapError fun e => .thrown (.load e)

end Creation

/-! ## Plain settings -/

/-- `find_by_str`: a text that is not in the table gives `Undefined`.
SOURCE: core/base/utils/find_pair.hpp:225-232 -/
def findByStr {α : Type} (undefined : α) (table : List (α × String)) (str : String) : α :=
  ((table.find? fun entry => entry.2 = str).map Prod.fst).getD undefined

/-- SOURCE: core/base/types/interpolation.cpp:8-13 -/
def interpolationTypes : List (InterpolationType × String) :=
  [(.linear, "linear"), (.cubic, "cubic"), (.area, "area")]

/-- SOURCE: proc/settings/settings_resizer.cpp:13-20 -/
def sizeModes : List (SizeMode × String) :=
  [(.direct, "direct"), (.halfDownscale, "half_downscale"), (.quaterDownscale, "quater_downscale"),
    (.scaleByMax, "scale_by_max"), (.scaleByMin, "scale_by_min"), (.padding, "padding")]

/-- SOURCE: proc/interfaces/device_type.cpp:8-11 -/
def deviceTypes : List (DeviceType × String) := [(.cpu, "cpu"), (.cuda, "cuda")]

/-- SOURCE: video/frame/interfaces/frame_size.cpp:7-11 -/
def Video.FrameSize.read (poco : Poco) (cfg : ObjectJSON) : Creation FrameSize := do
  let width ← Creation.read (Json.get poco .sizeT cfg "width")
  let height ← Creation.read (Json.get poco .sizeT cfg "height")
  return { width, height }

/-- SOURCE: proc/settings/settings_resizer.cpp:56-61 -/
def Video.SettingsResizer.read (poco : Poco) (cfg : ObjectJSON) : Creation SettingsResizer := do
  let interpolation ← Creation.read (Json.get poco .string cfg "interpolation")
  let sizeMode ← Creation.read (Json.get poco .string cfg "size_mode")
  let frameSize ← FrameSize.read poco (← Creation.read (Json.getObject cfg "frame_size"))
  return {
    interpolation := findByStr .undefined interpolationTypes interpolation
    sizeMode := findByStr .undefined sizeModes sizeMode
    frameSize }

/-- SOURCE: proc/settings/settings_neural_onnxruntime.hpp:32-37 -/
structure SettingsNeuralOnnxRuntime where
  modelPath : String
  deviceType : DeviceType
  means : List ℚ
  norms : List ℚ
  deriving DecidableEq, Repr

namespace SettingsNeuralOnnxRuntime

/-- An array of numbers, which may be absent. -/
def readValues (poco : Poco) (cfg : ObjectJSON) (key : String) : Creation (List ℚ) :=
  ((Json.optArray cfg key).getD []).mapM fun value => Creation.read (Json.item poco .double value)

/-- SOURCE: proc/settings/settings_neural_onnxruntime.cpp:24-45 -/
def read (poco : Poco) (cfg : ObjectJSON) : Creation SettingsNeuralOnnxRuntime := do
  let modelPath ← Creation.read (Json.get poco .string cfg "model_path")
  let device ← Creation.read (Json.get poco .string cfg "device")
  let means ← readValues poco cfg "mean_values"
  let norms ← readValues poco cfg "norm_values"
  return { modelPath, deviceType := findByStr .undefined deviceTypes device, means, norms }

end SettingsNeuralOnnxRuntime

/-- SOURCE: core/base/types/color.hpp:9-11 -/
structure ColorRGB where
  red : Int
  green : Int
  blue : Int
  deriving DecidableEq, Repr

/-- SOURCE: core/base/types/color.cpp:39-44 -/
def ColorRGB.read (poco : Poco) (cfg : ObjectJSON) : Creation ColorRGB := do
  let red ← Creation.read (Json.get poco .int cfg "red")
  let green ← Creation.read (Json.get poco .int cfg "green")
  let blue ← Creation.read (Json.get poco .int cfg "blue")
  return { red, green, blue }

/-- SOURCE: proc/drawer/settings_drawer.hpp:11-33 -/
structure SettingsDrawer where
  faceColor : ColorRGB
  validFaceColor : ColorRGB
  probFaceColor : ColorRGB
  invalidFaceColor : ColorRGB
  deriving DecidableEq, Repr

namespace SettingsDrawer

/-- SOURCE: proc/drawer/settings_drawer.cpp:7-13, core/base/types/color.cpp:48-55 -/
def default : SettingsDrawer where
  faceColor := ⟨0, 0, 255⟩
  validFaceColor := ⟨0, 255, 0⟩
  probFaceColor := ⟨255, 165, 0⟩
  invalidFaceColor := ⟨255, 0, 0⟩

/-- SOURCE: proc/drawer/settings_drawer.cpp:38-50 -/
def read (poco : Poco) (cfg : ObjectJSON) : Creation SettingsDrawer := do
  let faceColor ← ColorRGB.read poco (← Creation.read (Json.getObject cfg "face_color"))
  let validFaceColor ← ColorRGB.read poco (← Creation.read (Json.getObject cfg "valid_face_color"))
  let probFaceColor ← ColorRGB.read poco (← Creation.read (Json.getObject cfg "prob_face_color"))
  let invalidFaceColor ←
    ColorRGB.read poco (← Creation.read (Json.getObject cfg "invalid_face_color"))
  return { faceColor, validFaceColor, probFaceColor, invalidFaceColor }

end SettingsDrawer

/-- SOURCE: proc/face_engine/holder/person_holder.hpp:16-22 -/
structure PersonHolder.Initializer where
  personId : String
  path : String
  deriving DecidableEq, Repr

/-- SOURCE: proc/face_engine/holder/person_holder.cpp:19-23 -/
def PersonHolder.Initializer.read (poco : Poco) (cfg : ObjectJSON) :
    Creation PersonHolder.Initializer := do
  let personId ← Creation.read (Json.get poco .string cfg "id")
  let path ← Creation.read (Json.get poco .string cfg "path")
  return { personId, path }

/-! ## The factory -/

/-- The classes of settings that are registered. -/
inductive SettingsId where
  | inputNode
  | emptyNode
  | exceptionNode
  | faceDetectionNode
  | faceRecognitionNode
  | faceMatcherNode
  | personDetectionNode
  | resizerNode
  | drawerNode
  | faceDetector
  | personDetector
  | resizer
  | videoProcessorTask
  | neuralOnnxRuntime
  deriving DecidableEq, Repr

/-- `m_creators` of the factory.
SOURCE: application/registrator.cpp:44-76 -/
def creators : List (String × SettingsId) :=
  [("InputNodeSettings", .inputNode), ("EmptyNodeSettings", .emptyNode),
    ("ExceptionNodeSettings", .exceptionNode), ("FaceDetectionNodeSettings", .faceDetectionNode),
    ("FaceRecognitionNodeSettings", .faceRecognitionNode),
    ("FaceMatcherNodeSettings", .faceMatcherNode),
    ("PersonDetectionNodeSettings", .personDetectionNode), ("ResizerNodeSettings", .resizerNode),
    ("DrawerNodeSettings", .drawerNode), ("SettingsFaceDetector", .faceDetector),
    ("SettingsPersonDetector", .personDetector), ("SettingsResizer", .resizer),
    ("SettingsVideoProcessorTask", .videoProcessorTask),
    ("SettingsNeuralOnnxRuntime", .neuralOnnxRuntime)]

/-- `BaseSettings` and the classes derived from it. -/
inductive TaskSettings where
  | inputNode
  | emptyNode
  | exceptionNode
  | faceDetectionNode (faceDetectorSettings : TaskSettings)
  | faceRecognitionNode (skipFlag : Bool) (connId : String)
  | faceMatcherNode (skipFlag : Bool) (connId : String) (persons : List PersonHolder.Initializer)
  | personDetectionNode (personDetectorSettings : TaskSettings)
  | resizerNode (settings : TaskSettings)
  | drawerNode (settings : SettingsDrawer)
  | faceDetector (connId : String)
  | personDetector (neuralNetCfg resizerCfg : ObjectJSON)
  | resizer (settings : SettingsResizer)
  | videoProcessorTask (pipelineCfg : ObjectJSON)
  | neuralOnnxRuntime (settings : SettingsNeuralOnnxRuntime)

/-- What the configurations and the tasks rely on. -/
structure TaskWorld where
  {Image : Type}
  {Template : Type}
  poco : Poco
  /-- what Poco makes of a value that is not a `bool` where one is read -/
  toBool : VarJSON → Except String Bool
  /-- a source is registered with the connector under the id -/
  sources : String → Bool
  /-- the images of persons and the face engine -/
  faces : PersonHolder.FaceSource Image Template
  /-- the rounds of the check of a person's faces that are followed; past them it has no end -/
  rounds : Nat
  /-- a network is loaded -/
  loadNet : SettingsNeuralOnnxRuntime → Except Exc Unit

namespace TaskSettings

variable (w : TaskWorld)

/-- `get_opt<bool>` -/
def optBool (cfg : ObjectJSON) (key : String) : Option Bool :=
  match cfg.lookup key with
  | none => none
  | some (.bool value) => some value
  | some value => (w.toBool value).toOption

/-- SOURCE: proc/pipeline/nodes/face_recognition_node.cpp:21-23, face_matcher_node.cpp:23-25 -/
def skipFlag (cfg : ObjectJSON) : Bool := (optBool w cfg "skip_flag").getD false

/-- The id of the connection, which may be absent but not empty.
SOURCE: proc/settings/settings_face_detector.cpp:25-31,
proc/pipeline/nodes/face_recognition_node.cpp:25-30, face_matcher_node.cpp:27-32 -/
def connId (cfg : ObjectJSON) : Creation String :=
  match Json.getOpt w.poco .string cfg "face_engine_connection_id" with
  | none => return ""
  | some id => if id = "" then Creation.throw .emptyConnectionId else return id

/-- SOURCE: proc/pipeline/nodes/face_recognition_node.cpp:19-31 -/
def readFaceRecognitionNode (cfg : ObjectJSON) : Creation TaskSettings := do
  let connId ← connId w cfg
  return .faceRecognitionNode (skipFlag w cfg) connId

/-- SOURCE: proc/pipeline/nodes/face_matcher_node.cpp:21-43 -/
def readFaceMatcherNode (cfg : ObjectJSON) : Creation TaskSettings := do
  let connId ← connId w cfg
  let persons ← ((Json.optArray cfg "person_holders").getD []).mapM fun value => do
    PersonHolder.Initializer.read w.poco (← Creation.read (Json.item w.poco .object value))
  return .faceMatcherNode (skipFlag w cfg) connId persons

/-- SOURCE: proc/pipeline/nodes/drawer_node.cpp:20-28 -/
def readDrawerNode (cfg : ObjectJSON) : Creation TaskSettings :=
  match Json.optObject cfg "drawer_settings" with
  | none => return .drawerNode .default
  | some settings => do return .drawerNode (← SettingsDrawer.read w.poco settings)

/-- SOURCE: proc/settings/settings_person_detector.cpp:19-23 -/
def readPersonDetector (cfg : ObjectJSON) : Creation TaskSettings := do
  let neuralNetCfg ← Creation.read (Json.getObject cfg "neural_net_settings")
  let resizerCfg ← Creation.read (Json.getObject cfg "resizer_settings")
  return .personDetector neuralNetCfg resizerCfg

/-- The creators; `create` is the factory, for the settings inside others.
SOURCE: proc/pipeline/nodes/face_detection_node.cpp:18-22, person_detection_node.cpp:18-22,
resizer_node.cpp:18-22, input_node.cpp:12-15, empty_node.cpp:12-15, exception_node.cpp:12-15,
proc/settings/settings_video_processor_task.cpp:19-23 -/
def deserialize (create : ObjectJSON → Creation TaskSettings) (cfg : ObjectJSON) :
    SettingsId → Creation TaskSettings
  | .inputNode => return .inputNode
  | .emptyNode => return .emptyNode
  | .exceptionNode => return .exceptionNode
  | .faceDetectionNode => do
    return .faceDetectionNode (← create (← Creation.read (Json.getObject cfg "settings")))
  | .faceRecognitionNode => readFaceRecognitionNode w cfg
  | .faceMatcherNode => readFaceMatcherNode w cfg
  | .personDetectionNode => do
    return .personDetectionNode (← create (← Creation.read (Json.getObject cfg "settings")))
  | .resizerNode => do
    return .resizerNode (← create (← Creation.read (Json.getObject cfg "settings")))
  | .drawerNode => readDrawerNode w cfg
  | .faceDetector => do return .faceDetector (← connId w cfg)
  | .personDetector => readPersonDetector cfg
  | .resizer => do return .resizer (← SettingsResizer.read w.poco cfg)
  | .videoProcessorTask => do
    return .videoProcessorTask (← Creation.read (Json.getObject cfg "pipeline"))
  | .neuralOnnxRuntime => do
    return .neuralOnnxRuntime (← SettingsNeuralOnnxRuntime.read w.poco cfg)

/-- `TaskSettingsFactory::create`; the fuel bounds how deep settings lie in others.
SOURCE: core/task/settings_factory.hpp:34-41 -/
def create : Nat → ObjectJSON → Creation TaskSettings
  | 0, _ => .error .diverged
  | fuel + 1, cfg => do
    let id ← Creation.read (Json.get w.poco .string cfg "task_settings_id")
    match creators.lookup id with
    | none => Creation.throw (.unknownSettings id)
    | some id => deserialize w (create fuel) cfg id

end TaskSettings

end Seekira.Model
