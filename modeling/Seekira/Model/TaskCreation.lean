import Mathlib.Data.String.Basic
import Seekira.Model.AsyncPipeline
import Seekira.Model.TaskSettings

/-!
# The processing tasks

A task is created from its settings, and with it the tasks that it uses.  The factory
hands out abstract tasks; who uses one casts it to the interface it needs, and a cast to
another interface gives a null pointer.  The nodes of a pipeline are tasks, and the
processor of videos has a pipeline.

What engines and networks compute is a parameter, and so is whatever the tasks work on
besides the data of the pipeline.
-/

set_option autoImplicit false

namespace Seekira.Model

open Library Video

/-! ## Tasks by their interfaces -/

/-- SOURCE: proc/interfaces/effect_interface.hpp, proc/effects/effect_resizer.cpp:13-16 -/
inductive IEffect where
  | resizer (settings : SettingsResizer)
  deriving DecidableEq, Repr

/-- SOURCE: proc/interfaces/neural_net_interface.hpp,
proc/neural/onnxruntime/onnxruntime_neural_net.cpp:16-90 -/
inductive INeuralNet where
  | onnxRuntime (settings : SettingsNeuralOnnxRuntime)
  deriving DecidableEq, Repr

/-- SOURCE: proc/interfaces/detector_interface.hpp:30-31, proc/detect/face_detector.cpp:12-29,
person_detector.cpp:18-68 -/
inductive IDetector where
  | face (connId : String)
  | person (resizer : Option IEffect) (net : INeuralNet)
  deriving DecidableEq, Repr

/-- SOURCE: proc/pipeline/pipeline_task.hpp:9-13 -/
inductive IPipelineNodeTask where
  | input
  | empty
  | exception
  | faceDetection (faceDetector : Option IDetector)
  | faceRecognition (skipFlag : Bool) (connId : String)
  | faceMatcher (skipFlag : Bool) (connId : String) (persons : List PersonHolder.Initializer)
  | personDetection (personDetector : Option IDetector)
  | resizer (resizer : Option IEffect)
  | drawer (settings : SettingsDrawer)
  deriving DecidableEq, Repr

/-- SOURCE: proc/pipeline/pipeline_settings.hpp:19-30 -/
structure PipelineSettings where
  name : String
  /-- `none` is `Undefined` -/
  syncPolicy : Option PipelineSyncPolicy
  deriving DecidableEq, Repr

/-- A pipeline with the tasks of its nodes.
SOURCE: proc/pipeline/pipeline.hpp:112-114, pipeline_node.hpp:50-51 -/
structure FrameSyncPipeline where
  settings : PipelineSettings
  /-- the nodes in the order they were added -/
  nodes : List (String × Option IPipelineNodeTask)
  base : BasePipeline String

/-- SOURCE: core/task/base_task.hpp:9-17 -/
inductive IAbstractTask where
  | pipelineNode (task : IPipelineNodeTask)
  | detector (task : IDetector)
  | effect (task : IEffect)
  | neuralNet (task : INeuralNet)
  | videoProcessor (framePipeline : FrameSyncPipeline)

/-! `from_abstract`, a `dynamic_cast` that keeps the task or gives null.
SOURCE: core/task/base_task.hpp:29-36 -/

def IPipelineNodeTask.fromAbstract : IAbstractTask → Option IPipelineNodeTask
  | .pipelineNode task => some task
  | _ => none

def IDetector.fromAbstract : IAbstractTask → Option IDetector
  | .detector task => some task
  | _ => none

def IEffect.fromAbstract : IAbstractTask → Option IEffect
  | .effect task => some task
  | _ => none

def INeuralNet.fromAbstract : IAbstractTask → Option INeuralNet
  | .neuralNet task => some task
  | _ => none

/-! ## Creating a pipeline -/

/-- SOURCE: proc/pipeline/pipeline_settings.cpp:9-13 -/
def syncModes : List (Option PipelineSyncPolicy × String) :=
  [(some .parallelNoWait, "parallel_no_wait"), (some .parallelWait, "parallel_wait"),
    (some .sync, "sync")]

/-- SOURCE: proc/pipeline/pipeline_settings.cpp:39-43 -/
def PipelineSettings.read (poco : Poco) (cfg : ObjectJSON) : Creation PipelineSettings := do
  let name ← Creation.read (Json.get poco .string cfg "name")
  let mode ← Creation.read (Json.get poco .string cfg "sync_mode")
  return { name, syncPolicy := findByStr none syncModes mode }

namespace FrameSyncPipeline

variable (w : TaskWorld) (create : ObjectJSON → Creation IAbstractTask)

/-- SOURCE: core/base/json/json_utils.cpp:31-38 -/
def getArray (cfg : ObjectJSON) (key : String) : Creation ArrayJSON :=
  match Json.optArray cfg key with
  | none => Creation.throw (.missingArray key)
  | some array => return array

/-- An assert of the graph. -/
def assert {α : Type} (x : Except (PipelineError String) α) : Creation α :=
  x.mapError fun e => .thrown (.graph e)

/-- SOURCE: proc/pipeline/pipeline_node.hpp:41-49 -/
def readNode (cfg : ObjectJSON) : Creation (String × Option IPipelineNodeTask) := do
  let id ← Creation.read (Json.get w.poco .string cfg "node")
  let task ← create (← Creation.read (Json.getObject cfg "settings"))
  return (id, IPipelineNodeTask.fromAbstract task)

/-- SOURCE: proc/pipeline/pipeline.hpp:56-60 -/
def readNodes : ArrayJSON → List (String × Option IPipelineNodeTask) → BaseGraph String →
    Creation (List (String × Option IPipelineNodeTask) × BaseGraph String)
  | [], nodes, g => return (nodes, g)
  | value :: rest, nodes, g => do
    let node ← readNode w create (← Creation.read (Json.item w.poco .object value))
    let g ← assert (g.addNode node.1)
    readNodes rest (nodes ++ [node]) g

/-- SOURCE: proc/pipeline/pipeline.hpp:62-68 -/
def readLinks : ArrayJSON → BaseGraph String → Creation (BaseGraph String)
  | [], g => return g
  | value :: rest, g => do
    let link ← Creation.read (Json.item w.poco .array value)
    if link.length ≠ 2 then Creation.throw (.graph .invalidLink)
    else do
      let ids ← link.mapM fun id => Creation.read (Json.item w.poco .string id)
      let g ← assert (BasePipeline.addLink ids g)
      readLinks rest g

/-- The fuel bounds the walks of `init_branches`.
SOURCE: proc/pipeline/pipeline.hpp:20-27, 45-73, proc/pipeline/impl/frame_pipeline.cpp:7-12 -/
def read (fuel : Nat) (cfg : ObjectJSON) : Creation FrameSyncPipeline := do
  let settings ← PipelineSettings.read w.poco (← Creation.read (Json.getObject cfg "settings"))
  let (nodes, g) ← readNodes w create (← getArray cfg "nodes") [] .empty
  let g ← readLinks w (← getArray cfg "links") g
  let root ← assert (g.getNode "input_node")
  match BasePipeline.initBranches fuel g with
  | none => .error .diverged
  | some branches => do
    let branches ← assert branches
    return { settings, nodes, base := { graph := g, root, branches } }

end FrameSyncPipeline

/-! ## Creating a task -/

namespace IAbstractTask

variable (w : TaskWorld)

/-- `Connector::connect` in a constructor.  Without a source it throws, and so does then the
destructor of what was constructed before, which looks for the same source.
SOURCE: core/base/interfaces/connector.cpp:7, 54-74 -/
def connect (connId : String) : Creation Unit :=
  if w.sources connId then return () else .error .terminated

/-- Without a connection the detector creates an engine of its own, from an initializer that is
never read and has no type.
SOURCE: proc/detect/face_detector.cpp:15-29, proc/face_engine/face_engine_factory.cpp:9-20 -/
def createFaceDetector (connId : String) : Creation IAbstractTask :=
  if connId = "" then
    if w.sources "" then Creation.throw .invalidEngineType else .error .terminated
  else do
    connect w connId
    return .detector (.face connId)

/-- SOURCE: proc/pipeline/nodes/face_recognition_node.cpp:41-48 -/
def createFaceRecognitionNode (skipFlag : Bool) (connId : String) : Creation IAbstractTask := do
  connect w connId
  return .pipelineNode (.faceRecognition skipFlag connId)

/-- The faces of a person are loaded and compared with each other.
SOURCE: proc/face_engine/holder/person_holder.cpp:46-80 -/
def loadPerson (path : String) : Creation Unit :=
  match PersonHolder.loadFromDir w.faces path with
  | .error e => .error (.thrown (.outside e))
  | .ok faces =>
    match follow (PersonHolder.checkRound w.faces faces) w.rounds (.outer 0 []) with
    | none => .error .diverged
    | some (.finished _) => return ()
    | some (.thrown e) => .error (.thrown (.outside e))
    -- `m_faces[i]` behind the end
    | some .outOfRange => .error .nullDeref

/-- SOURCE: proc/pipeline/nodes/face_matcher_node.cpp:52-64,
proc/face_engine/holder/person_holder.cpp:37-45 -/
def createFaceMatcherNode (skipFlag : Bool) (connId : String)
    (persons : List PersonHolder.Initializer) : Creation IAbstractTask := do
  connect w connId
  persons.forM fun person => do
    connect w connId
    if person.path = "" then return ()
    else loadPerson w person.path
  return .pipelineNode (.faceMatcher skipFlag connId persons)

/-- SOURCE: proc/neural/onnxruntime/onnxruntime_neural_net.cpp:22-90 -/
def createNeuralNet (settings : SettingsNeuralOnnxRuntime) : Creation IAbstractTask :=
  if settings.deviceType = .undefined then Creation.throw .undefinedDevice
  else do
    (w.loadNet settings).mapError fun e => .thrown (.outside e)
    return .neuralNet (.onnxRuntime settings)

/-- The settings and the task of the resizer, then those of the network; both are used at once, the
network for its shape and the settings for the size of the frame.
SOURCE: proc/detect/person_detector.cpp:21-42 -/
def createPersonDetector (createSettings : ObjectJSON → Creation TaskSettings)
    (createTask : TaskSettings → Creation IAbstractTask) (neuralNetCfg resizerCfg : ObjectJSON) :
    Creation IAbstractTask := do
  let resizerSettings ← createSettings resizerCfg
  let resizer ← createTask resizerSettings
  let net ← createTask (← createSettings neuralNetCfg)
  match INeuralNet.fromAbstract net, resizerSettings with
  | some net, .resizer _ => return .detector (.person (IEffect.fromAbstract resizer) net)
  | _, _ => .error .nullDeref

/-- `TaskFactory::create_unique`; every registered class of settings has a creator of tasks.
SOURCE: core/task/task_factory.hpp:44-53, application/registrator.cpp:55-76,
proc/pipeline/nodes/face_detection_node.cpp:31-38, person_detection_node.cpp:31-38,
resizer_node.cpp:31-38, drawer_node.cpp:38-42, proc/video/video_processor_task.cpp:11-16 -/
def create : Nat → TaskSettings → Creation IAbstractTask
  | 0, _ => .error .diverged
  | fuel + 1, settings =>
    match settings with
    | .inputNode => return .pipelineNode .input
    | .emptyNode => return .pipelineNode .empty
    | .exceptionNode => return .pipelineNode .exception
    | .faceDetectionNode settings => do
      return .pipelineNode (.faceDetection (IDetector.fromAbstract (← create fuel settings)))
    | .faceRecognitionNode skipFlag connId => createFaceRecognitionNode w skipFlag connId
    | .faceMatcherNode skipFlag connId persons => createFaceMatcherNode w skipFlag connId persons
    | .personDetectionNode settings => do
      return .pipelineNode (.personDetection (IDetector.fromAbstract (← create fuel settings)))
    | .resizerNode settings => do
      return .pipelineNode (.resizer (IEffect.fromAbstract (← create fuel settings)))
    | .drawerNode settings => return .pipelineNode (.drawer settings)
    | .faceDetector connId => createFaceDetector w connId
    | .personDetector neuralNetCfg resizerCfg =>
      createPersonDetector (TaskSettings.create w fuel) (create fuel) neuralNetCfg resizerCfg
    | .resizer settings => return .effect (.resizer settings)
    | .videoProcessorTask pipelineCfg => do
      let pipeline ← FrameSyncPipeline.read w
        (fun cfg => do create fuel (← TaskSettings.create w fuel cfg)) fuel pipelineCfg
      return .videoProcessor pipeline
    | .neuralOnnxRuntime settings => createNeuralNet w settings

/-- A task as a configuration describes it.
SOURCE: proc/video/video_processing_manager.cpp:21-22 -/
def load (fuel : Nat) (cfg : ObjectJSON) : Creation IAbstractTask := do
  create w fuel (← TaskSettings.create w fuel cfg)

end IAbstractTask

/-! ## Processing -/

/-- The ways out of a node's `process` other than returning. -/
inductive NodeFault where
  | thrown (e : Exc)
  | nullDeref
  deriving DecidableEq, Repr

/-- What the tasks call, and whatever else they do to the data. -/
structure TaskCalls (P ρ : Type) where
  resize : SettingsResizer → Video.Frame → Proc Exc ρ Video.Frame
  /-- the engine of a connection finds faces -/
  detectFaces : String → Video.Frame → Proc Exc ρ (DetectionResult P)
  /-- the network finds persons in a resized frame, and scales them to a size -/
  detectPersons :
    SettingsNeuralOnnxRuntime → Video.Frame → FrameSize → Proc Exc ρ (DetectionResult P)
  recognize : Bool → String → Proc Exc (VideoJob P ρ) Unit
  matchFaces : Bool → String → List PersonHolder.Initializer → Proc Exc (VideoJob P ρ) Unit
  draw : SettingsDrawer → Proc Exc (VideoJob P ρ) Unit

section Processing

variable {P ρ : Type} (calls : TaskCalls P ρ)

def IEffect.process (frame : Video.Frame) : IEffect → Proc NodeFault ρ Video.Frame
  | .resizer settings => Proc.mapError .thrown (calls.resize settings frame)

/-- SOURCE: proc/detect/face_detector.cpp:31-47, person_detector.cpp:44-60 -/
def IDetector.process (frame : Video.Frame) :
    IDetector → Proc NodeFault ρ (DetectionResult P)
  | .face connId => Proc.mapError .thrown (calls.detectFaces connId frame)
  | .person none _ => Proc.throw .nullDeref
  | .person (some resizer) (.onnxRuntime settings) => do
    let resized ← resizer.process calls frame
    Proc.mapError .thrown (calls.detectPersons settings resized frame.size)

/-- A call that reaches the environment of the data only. -/
def onEnv {α : Type} (p : Proc NodeFault ρ α) : Proc NodeFault (VideoJob P ρ) α :=
  Proc.zoom VideoJob.env (fun env job => { job with env }) p

/-- What a detector finds is attached to the data.
SOURCE: proc/pipeline/nodes/face_detection_node.cpp:40-46, person_detection_node.cpp:40-46 -/
def attachDetected (id : String) : Option IDetector → Proc NodeFault (VideoJob P ρ) Unit
  | none => Proc.throw .nullDeref
  | some detector => do
    let job ← Proc.get
    let result ← onEnv (detector.process calls job.info.data)
    Proc.modify fun job =>
      { job with
        info := { job.info with storage := job.info.storage.setAttachment id result } }

/-- SOURCE: proc/pipeline/nodes/resizer_node.cpp:40-43 -/
def resizeData : Option IEffect → Proc NodeFault (VideoJob P ρ) Unit
  | none => Proc.throw .nullDeref
  | some effect => do
    let job ← Proc.get
    let frame ← onEnv (effect.process calls job.info.data)
    Proc.modify fun job => { job with info := { job.info with data := frame } }

/-- SOURCE: proc/pipeline/nodes/input_node.hpp:31, empty_node.hpp:31, exception_node.hpp:31,
face_recognition_node.cpp:50-67, face_matcher_node.cpp:66-94, drawer_node.cpp:44-48 -/
def IPipelineNodeTask.process : IPipelineNodeTask → Proc NodeFault (VideoJob P ρ) Unit
  | .input | .empty => pure ()
  | .exception => Proc.throw (.thrown .std)
  | .faceDetection detector => attachDetected calls "face_detection_result" detector
  | .faceRecognition skipFlag connId => Proc.mapError .thrown (calls.recognize skipFlag connId)
  | .faceMatcher skipFlag connId persons =>
    Proc.mapError .thrown (calls.matchFaces skipFlag connId persons)
  | .personDetection detector => attachDetected calls "person_detection_result" detector
  | .resizer effect => resizeData calls effect
  | .drawer settings => Proc.mapError .thrown (calls.draw settings)

/-- The task of a node is a pointer.
SOURCE: proc/pipeline/pipeline_node.hpp:34-38 -/
def FrameSyncPipeline.processNode : Option IPipelineNodeTask → Proc NodeFault (VideoJob P ρ) Unit
  | none => Proc.throw .nullDeref
  | some task => task.process calls

end Processing

end Seekira.Model
