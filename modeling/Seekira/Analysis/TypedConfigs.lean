import Seekira.Library.Outcome
import Seekira.Model.TaskCreation

/-!
# Typed configurations

Every class of settings is for tasks of one interface, and its inner settings are used
through one interface each.  A configuration is well typed when the inner settings
are of classes for the interfaces they are used through, and the connections lead to
registered sources.  Creating tasks does not check this; it is what they need.
-/

set_option autoImplicit false

namespace Seekira.Model

open Library Video

/-- The interfaces. -/
inductive TaskRole where
  | pipelineNode
  | detector
  | effect
  | neuralNet
  | videoProcessor
  deriving DecidableEq, Repr

/-- The interface of the tasks that a class of settings is for. -/
def SettingsId.role : SettingsId → TaskRole
  | .inputNode | .emptyNode | .exceptionNode | .faceDetectionNode | .faceRecognitionNode
  | .faceMatcherNode | .personDetectionNode | .resizerNode | .drawerNode => .pipelineNode
  | .faceDetector | .personDetector => .detector
  | .resizer => .effect
  | .videoProcessorTask => .videoProcessor
  | .neuralOnnxRuntime => .neuralNet

/-- The keys of the inner settings, with the interfaces they are used through. -/
def SettingsId.parts : SettingsId → List (String × TaskRole)
  | .faceDetectionNode | .personDetectionNode => [("settings", .detector)]
  | .resizerNode => [("settings", .effect)]
  | .personDetector => [("resizer_settings", .effect), ("neural_net_settings", .neuralNet)]
  | _ => []

/-- The tasks of these classes connect to a face engine. -/
def SettingsId.connects : SettingsId → Bool
  | .faceDetector | .faceRecognitionNode | .faceMatcherNode => true
  | _ => false

/-- The class of settings, by which the factory finds the creator of their tasks. -/
def TaskSettings.id : TaskSettings → SettingsId
  | .inputNode => .inputNode
  | .emptyNode => .emptyNode
  | .exceptionNode => .exceptionNode
  | .faceDetectionNode _ => .faceDetectionNode
  | .faceRecognitionNode .. => .faceRecognitionNode
  | .faceMatcherNode .. => .faceMatcherNode
  | .personDetectionNode _ => .personDetectionNode
  | .resizerNode _ => .resizerNode
  | .drawerNode _ => .drawerNode
  | .faceDetector _ => .faceDetector
  | .personDetector .. => .personDetector
  | .resizer _ => .resizer
  | .videoProcessorTask _ => .videoProcessorTask
  | .neuralOnnxRuntime _ => .neuralOnnxRuntime

/-- The interface of a task. -/
def IAbstractTask.role : IAbstractTask → TaskRole
  | .pipelineNode _ => .pipelineNode
  | .detector _ => .detector
  | .effect _ => .effect
  | .neuralNet _ => .neuralNet
  | .videoProcessor _ => .videoProcessor

variable (w : TaskWorld)

/-- The class that a configuration names. -/
def settingsId (cfg : ObjectJSON) : Option SettingsId :=
  (Json.get w.poco .string cfg "task_settings_id").toOption.bind fun name =>
    creators.lookup name

/-- The settings of a node. -/
def settingsOfNode (value : VarJSON) : Option ObjectJSON :=
  (HeldType.object.extract value).bind fun node => Json.optObject node "settings"

/-- The settings of the nodes that the configuration of a pipeline lists. -/
def nodeSettings (pipelineCfg : ObjectJSON) : List ObjectJSON :=
  ((Json.optArray pipelineCfg "nodes").getD []).filterMap settingsOfNode

/-- The configuration is one for tasks of the interface, and so are the ones in it. -/
inductive WellTyped : TaskRole → ObjectJSON → Prop
  | intro {cfg : ObjectJSON} {id : SettingsId} (named : settingsId w cfg = some id)
      (parts : ∀ part ∈ id.parts, ∀ inner, Json.optObject cfg part.1 = some inner →
        WellTyped part.2 inner)
      (nodes : id = .videoProcessorTask → ∀ pipelineCfg,
        Json.optObject cfg "pipeline" = some pipelineCfg →
        ∀ node ∈ nodeSettings pipelineCfg, WellTyped .pipelineNode node)
      (connected : id.connects = true → ∀ connId, TaskSettings.connId w cfg = .ok connId →
        w.sources connId = true) :
      WellTyped id.role cfg

/-- The same of settings that were created; the configurations that they keep are still to be
used. -/
def TaskSettings.Typed (role : TaskRole) : TaskSettings → Prop
  | .inputNode | .emptyNode | .exceptionNode | .drawerNode _ => role = .pipelineNode
  | .faceDetectionNode settings | .personDetectionNode settings =>
    role = .pipelineNode ∧ settings.Typed .detector
  | .resizerNode settings => role = .pipelineNode ∧ settings.Typed .effect
  | .faceRecognitionNode _ connId | .faceMatcherNode _ connId _ =>
    role = .pipelineNode ∧ w.sources connId = true
  | .faceDetector connId => role = .detector ∧ w.sources connId = true
  | .personDetector neuralNetCfg resizerCfg =>
    role = .detector ∧ WellTyped w .effect resizerCfg ∧ WellTyped w .neuralNet neuralNetCfg
  | .resizer _ => role = .effect
  | .videoProcessorTask pipelineCfg =>
    role = .videoProcessor ∧ ∀ node ∈ nodeSettings pipelineCfg, WellTyped w .pipelineNode node
  | .neuralOnnxRuntime _ => role = .neuralNet

/-! ## Tasks without null pointers -/

def IDetector.Complete : IDetector → Prop
  | .face _ => True
  | .person resizer _ => resizer.isSome = true

/-- The detector or the effect that the task uses is there. -/
def IPipelineNodeTask.Complete : IPipelineNodeTask → Prop
  | .faceDetection detector | .personDetection detector => ∃ task ∈ detector, task.Complete
  | .resizer effect => effect.isSome = true
  | _ => True

def FrameSyncPipeline.Complete (p : FrameSyncPipeline) : Prop :=
  ∀ node ∈ p.nodes, ∃ task ∈ node.2, task.Complete

def IAbstractTask.Complete : IAbstractTask → Prop
  | .pipelineNode task => task.Complete
  | .detector task => task.Complete
  | .effect _ | .neuralNet _ => True
  | .videoProcessor framePipeline => framePipeline.Complete

/-! ## Settings -/

variable {w} {role : TaskRole} {fuel : Nat} {cfg : ObjectJSON} {settings : TaskSettings}
  {task : IAbstractTask}

theorem read_eq_ok {α : Type} {x : Except LoadError α} {a : α} :
    Creation.read x = .ok a ↔ x = .ok a := by
  cases x <;> simp [Creation.read, Except.mapError]

theorem getObject_eq_ok {inner : ObjectJSON} {key : String} :
    Creation.read (Json.getObject cfg key) = .ok inner ↔ Json.optObject cfg key = some inner := by
  rw [read_eq_ok]
  unfold Json.getObject
  cases Json.optObject cfg key <;> simp

/-- The class that the factory creates is the one that the configuration names. -/
theorem TaskSettings.create_eq_ok (h : TaskSettings.create w fuel cfg = .ok settings) :
    ∃ n id, fuel = n + 1 ∧ settingsId w cfg = some id ∧
      TaskSettings.deserialize w (TaskSettings.create w n) cfg id = .ok settings := by
  cases fuel with
  | zero => cases h
  | succ n =>
    obtain ⟨name, hname, h⟩ := Proc.except_bind_inv h
    rw [read_eq_ok] at hname
    cases hlookup : creators.lookup name with
    | none =>
      rw [hlookup] at h
      cases h
    | some id =>
      rw [hlookup] at h
      refine ⟨n, id, rfl, ?_, h⟩
      unfold settingsId
      rw [hname]
      exact hlookup

/-- The settings are of the class that their id names. -/
theorem TaskSettings.deserialize_id {create : ObjectJSON → Creation TaskSettings} {id : SettingsId}
    (h : TaskSettings.deserialize w create cfg id = .ok settings) : settings.id = id := by
  cases id with
  | inputNode | emptyNode | exceptionNode =>
    cases h
    rfl
  | faceDetectionNode | personDetectionNode | resizerNode | personDetector | faceMatcherNode =>
    obtain ⟨_, -, h⟩ := Proc.except_bind_inv h
    obtain ⟨_, -, h⟩ := Proc.except_bind_inv h
    cases h
    rfl
  | faceRecognitionNode | faceDetector | resizer | videoProcessorTask | neuralOnnxRuntime =>
    obtain ⟨_, -, h⟩ := Proc.except_bind_inv h
    cases h
    rfl
  | drawerNode =>
    change TaskSettings.readDrawerNode w cfg = _ at h
    unfold TaskSettings.readDrawerNode at h
    split at h
    · cases h
      rfl
    · obtain ⟨_, -, h⟩ := Proc.except_bind_inv h
      cases h
      rfl

/-- A configuration is well typed by its class, its inner settings, its nodes and its connection. -/
theorem wellTyped_iff {id : SettingsId} (named : settingsId w cfg = some id) :
    WellTyped w role cfg ↔ role = id.role ∧
      (∀ part ∈ id.parts, ∀ inner, Json.optObject cfg part.1 = some inner →
        WellTyped w part.2 inner) ∧
      (id = .videoProcessorTask → ∀ pipelineCfg, Json.optObject cfg "pipeline" = some pipelineCfg →
        ∀ node ∈ nodeSettings pipelineCfg, WellTyped w .pipelineNode node) ∧
      (id.connects = true → ∀ connId, TaskSettings.connId w cfg = .ok connId →
        w.sources connId = true) := by
  constructor
  · rintro ⟨named', parts, nodes, connected⟩
    obtain rfl : _ = id := Option.some.inj (named'.symm.trans named)
    exact ⟨rfl, parts, nodes, connected⟩
  · rintro ⟨rfl, parts, nodes, connected⟩
    exact .intro named parts nodes connected

/-- Of a class with nothing inside. -/
theorem wellTyped_plain {id : SettingsId} (named : settingsId w cfg = some id)
    (hparts : id.parts = []) (hnodes : id ≠ .videoProcessorTask) (hplain : id.connects = false) :
    WellTyped w role cfg ↔ role = id.role := by
  rw [wellTyped_iff named]
  simp [hparts, hnodes, hplain]

/-- Of a class with one part. -/
theorem wellTyped_part {id : SettingsId} (named : settingsId w cfg = some id) {key : String}
    {part : TaskRole} (hparts : id.parts = [(key, part)]) (hnodes : id ≠ .videoProcessorTask)
    (hplain : id.connects = false) {inner : ObjectJSON}
    (hinner : Json.optObject cfg key = some inner) :
    WellTyped w role cfg ↔ role = id.role ∧ WellTyped w part inner := by
  rw [wellTyped_iff named]
  simp [hparts, hnodes, hplain, hinner]

/-- Of a class that connects. -/
theorem wellTyped_connects {id : SettingsId} (named : settingsId w cfg = some id)
    (hparts : id.parts = []) (hnodes : id ≠ .videoProcessorTask) (hconnects : id.connects = true)
    {connId : String} (hconn : TaskSettings.connId w cfg = .ok connId) :
    WellTyped w role cfg ↔ role = id.role ∧ w.sources connId = true := by
  rw [wellTyped_iff named]
  simp [hparts, hnodes, hconnects, hconn]

/-- Settings that were created are typed as their configuration is. -/
theorem TaskSettings.typed_iff (h : TaskSettings.create w fuel cfg = .ok settings) :
    settings.Typed w role ↔ WellTyped w role cfg := by
  induction fuel generalizing cfg settings role with
  | zero => cases h
  | succ fuel ih =>
    obtain ⟨n, id, hn, named, h⟩ := TaskSettings.create_eq_ok h
    obtain rfl : fuel = n := Nat.succ.inj hn
    cases id with
    | inputNode | emptyNode | exceptionNode =>
      cases h
      exact (wellTyped_plain named rfl nofun rfl).symm
    | faceDetectionNode | personDetectionNode | resizerNode =>
      obtain ⟨inner, hinner, h⟩ := Proc.except_bind_inv h
      obtain ⟨created, hcreated, h⟩ := Proc.except_bind_inv h
      cases h
      rw [wellTyped_part named rfl nofun rfl (getObject_eq_ok.mp hinner), ← ih hcreated]
      rfl
    | faceRecognitionNode =>
      obtain ⟨connId, hconn, h⟩ := Proc.except_bind_inv h
      cases h
      exact (wellTyped_connects named rfl nofun rfl hconn).symm
    | faceMatcherNode =>
      obtain ⟨connId, hconn, h⟩ := Proc.except_bind_inv h
      obtain ⟨persons, -, h⟩ := Proc.except_bind_inv h
      cases h
      exact (wellTyped_connects named rfl nofun rfl hconn).symm
    | drawerNode =>
      rw [wellTyped_plain named rfl nofun rfl]
      change TaskSettings.readDrawerNode w cfg = _ at h
      unfold TaskSettings.readDrawerNode at h
      split at h
      · cases h
        rfl
      · obtain ⟨drawer, -, h⟩ := Proc.except_bind_inv h
        cases h
        rfl
    | faceDetector =>
      obtain ⟨connId, hconn, h⟩ := Proc.except_bind_inv h
      cases h
      exact (wellTyped_connects named rfl nofun rfl hconn).symm
    | personDetector =>
      obtain ⟨neuralNetCfg, hnet, h⟩ := Proc.except_bind_inv h
      obtain ⟨resizerCfg, hresizer, h⟩ := Proc.except_bind_inv h
      cases h
      rw [wellTyped_iff named]
      rw [getObject_eq_ok] at hnet hresizer
      simp [TaskSettings.Typed, SettingsId.parts, SettingsId.role, SettingsId.connects, hnet,
        hresizer]
    | resizer | neuralOnnxRuntime =>
      obtain ⟨read, -, h⟩ := Proc.except_bind_inv h
      cases h
      exact (wellTyped_plain named rfl nofun rfl).symm
    | videoProcessorTask =>
      obtain ⟨pipelineCfg, hpipeline, h⟩ := Proc.except_bind_inv h
      cases h
      rw [wellTyped_iff named]
      rw [getObject_eq_ok] at hpipeline
      simp [TaskSettings.Typed, SettingsId.parts, SettingsId.role, SettingsId.connects, hpipeline]

/-! ## Tasks -/

theorem IDetector.fromAbstract_complete :
    (∃ detector ∈ IDetector.fromAbstract task, detector.Complete) ↔
      task.role = .detector ∧ task.Complete := by
  cases task <;> simp [IDetector.fromAbstract, IAbstractTask.role, IAbstractTask.Complete]

theorem IEffect.fromAbstract_isSome :
    (IEffect.fromAbstract task).isSome = true ↔ task.role = .effect ∧ task.Complete := by
  cases task <;> simp [IEffect.fromAbstract, IAbstractTask.role, IAbstractTask.Complete]

theorem INeuralNet.fromAbstract_isSome :
    (INeuralNet.fromAbstract task).isSome = true ↔ task.role = .neuralNet ∧ task.Complete := by
  cases task <;> simp [INeuralNet.fromAbstract, IAbstractTask.role, IAbstractTask.Complete]

theorem IPipelineNodeTask.fromAbstract_complete :
    (∃ node ∈ IPipelineNodeTask.fromAbstract task, node.Complete) ↔
      task.role = .pipelineNode ∧ task.Complete := by
  cases task <;> simp [IPipelineNodeTask.fromAbstract, IAbstractTask.role, IAbstractTask.Complete]

theorem item_object_eq_ok {value : VarJSON} {object : ObjectJSON} :
    Creation.read (Json.item w.poco .object value) = .ok object ↔
      HeldType.object.extract value = some object := by
  rw [read_eq_ok]
  cases value <;> simp [Json.item, HeldType.object]

theorem connect_eq_ok {connId : String} {u : Unit} :
    IAbstractTask.connect w connId = .ok u ↔ w.sources connId = true := by
  unfold IAbstractTask.connect
  split <;> simp [*, Pure.pure, Except.pure]

namespace FrameSyncPipeline

variable {create : ObjectJSON → Creation IAbstractTask}

/-- The nodes that were read are complete when their settings are well typed. -/
theorem readNodes_complete
    (hcreate : ∀ cfg task, create cfg = .ok task →
      (WellTyped w .pipelineNode cfg ↔ task.role = .pipelineNode ∧ task.Complete))
    {values : ArrayJSON} {nodes nodes' : List (String × Option IPipelineNodeTask)}
    {g g' : BaseGraph String} (h : readNodes w create values nodes g = .ok (nodes', g')) :
    ∃ added, nodes' = nodes ++ added ∧
      ((∀ node ∈ added, ∃ task ∈ node.2, task.Complete) ↔
        ∀ node ∈ values.filterMap settingsOfNode, WellTyped w .pipelineNode node) := by
  induction values generalizing nodes g with
  | nil =>
    cases h
    exact ⟨[], by simp, by simp⟩
  | cons value rest ih =>
    obtain ⟨nodeCfg, hvalue, h⟩ := Proc.except_bind_inv h
    obtain ⟨node, hnode, h⟩ := Proc.except_bind_inv h
    obtain ⟨g₁, -, h⟩ := Proc.except_bind_inv h
    obtain ⟨added, hadded, hcomplete⟩ := ih h
    obtain ⟨id, -, hnode⟩ := Proc.except_bind_inv hnode
    obtain ⟨inner, hinner, hnode⟩ := Proc.except_bind_inv hnode
    obtain ⟨task, htask, hnode⟩ := Proc.except_bind_inv hnode
    cases hnode
    refine ⟨(id, IPipelineNodeTask.fromAbstract task) :: added, by simp [hadded], ?_⟩
    have hsettings : settingsOfNode value = some inner := by
      unfold settingsOfNode
      rw [item_object_eq_ok.mp hvalue]
      exact getObject_eq_ok.mp hinner
    rw [List.filterMap_cons_some hsettings, List.forall_mem_cons, List.forall_mem_cons, hcomplete,
      hcreate inner task htask, IPipelineNodeTask.fromAbstract_complete]

theorem assert_eq_ok {α : Type} {x : Except (PipelineError String) α} {a : α}
    (h : assert x = .ok a) : x = .ok a := by
  cases x with
  | ok found => exact congrArg Except.ok (Except.ok.inj h)
  | error e => cases h

theorem getArray_eq_ok {key : String} {array : ArrayJSON} :
    getArray cfg key = .ok array ↔ Json.optArray cfg key = some array := by
  unfold getArray
  cases Json.optArray cfg key <;> simp [Creation.throw, Pure.pure, Except.pure]

/-- What a pipeline was read from. -/
theorem read_eq_ok {p : FrameSyncPipeline} (h : FrameSyncPipeline.read w create fuel cfg = .ok p) :
    ∃ values links g root branches,
      Json.optArray cfg "nodes" = some values ∧ Json.optArray cfg "links" = some links ∧
      readNodes w create values [] .empty = .ok (p.nodes, g) ∧
      readLinks w links g = .ok p.base.graph ∧
      p.base.graph.getNode "input_node" = .ok root ∧
      BasePipeline.initBranches fuel p.base.graph = some (.ok branches) ∧
      p.base.root = root ∧ p.base.branches = branches := by
  obtain ⟨_, -, h⟩ := Proc.except_bind_inv h
  obtain ⟨settings, -, h⟩ := Proc.except_bind_inv h
  obtain ⟨values, hvalues, h⟩ := Proc.except_bind_inv h
  obtain ⟨⟨nodes, g⟩, hnodes, h⟩ := Proc.except_bind_inv h
  obtain ⟨links, hlinks, h⟩ := Proc.except_bind_inv h
  obtain ⟨graph, hgraph, h⟩ := Proc.except_bind_inv h
  obtain ⟨root, hroot, h⟩ := Proc.except_bind_inv h
  cases hinit : BasePipeline.initBranches fuel graph with
  | none =>
    rw [hinit] at h
    cases h
  | some branches =>
    rw [hinit] at h
    obtain ⟨found, hfound, h⟩ := Proc.except_bind_inv h
    cases h
    refine ⟨values, links, g, root, found, getArray_eq_ok.mp hvalues, getArray_eq_ok.mp hlinks,
      hnodes, hgraph, assert_eq_ok hroot, ?_, rfl, rfl⟩
    rw [hinit, assert_eq_ok hfound]

/-- A pipeline is complete when its nodes are well typed. -/
theorem complete_iff
    (hcreate : ∀ cfg task, create cfg = .ok task →
      (WellTyped w .pipelineNode cfg ↔ task.role = .pipelineNode ∧ task.Complete))
    {p : FrameSyncPipeline} (h : FrameSyncPipeline.read w create fuel cfg = .ok p) :
    p.Complete ↔ ∀ node ∈ nodeSettings cfg, WellTyped w .pipelineNode node := by
  obtain ⟨values, links, g, root, branches, hvalues, -, hnodes, -⟩ := read_eq_ok h
  obtain ⟨added, hadded, hcomplete⟩ := readNodes_complete hcreate hnodes
  unfold FrameSyncPipeline.Complete nodeSettings
  rw [hvalues, hadded]
  exact hcomplete

end FrameSyncPipeline

namespace IAbstractTask

/-- Tasks that were created fit their interface, and have no null pointer, when their settings are
typed. -/
theorem create_iff (h : IAbstractTask.create w fuel settings = .ok task) :
    settings.Typed w role ↔ task.role = role ∧ task.Complete := by
  induction fuel generalizing settings task role with
  | zero => cases h
  | succ fuel ih =>
    have hload : ∀ cfg task, (do create w fuel (← TaskSettings.create w fuel cfg)) = .ok task →
        (WellTyped w .pipelineNode cfg ↔ task.role = .pipelineNode ∧ task.Complete) := by
      intro cfg task h
      obtain ⟨settings, hsettings, h⟩ := Proc.except_bind_inv h
      rw [← TaskSettings.typed_iff hsettings, ih h]
    cases settings with
    | inputNode | emptyNode | exceptionNode | drawerNode | resizer =>
      cases h
      simp [TaskSettings.Typed, IAbstractTask.role, Complete, IPipelineNodeTask.Complete, eq_comm]
    | faceDetectionNode inner | personDetectionNode inner =>
      obtain ⟨created, hcreated, h⟩ := Proc.except_bind_inv h
      cases h
      have hpart : _ ↔ created.role = .detector ∧ created.Complete :=
        IDetector.fromAbstract_complete
      rw [← ih hcreated] at hpart
      simp only [TaskSettings.Typed, IAbstractTask.role, Complete, IPipelineNodeTask.Complete,
        hpart, eq_comm]
    | resizerNode inner =>
      obtain ⟨created, hcreated, h⟩ := Proc.except_bind_inv h
      cases h
      have hpart : _ ↔ created.role = .effect ∧ created.Complete := IEffect.fromAbstract_isSome
      rw [← ih hcreated] at hpart
      simp only [TaskSettings.Typed, IAbstractTask.role, Complete, IPipelineNodeTask.Complete,
        hpart, eq_comm]
    | faceRecognitionNode skipFlag connId =>
      obtain ⟨_, hconnect, h⟩ := Proc.except_bind_inv h
      cases h
      simp [TaskSettings.Typed, IAbstractTask.role, Complete, IPipelineNodeTask.Complete,
        connect_eq_ok.mp hconnect, eq_comm]
    | faceMatcherNode skipFlag connId persons =>
      obtain ⟨_, hconnect, h⟩ := Proc.except_bind_inv h
      obtain ⟨_, -, h⟩ := Proc.except_bind_inv h
      cases h
      simp [TaskSettings.Typed, IAbstractTask.role, Complete, IPipelineNodeTask.Complete,
        connect_eq_ok.mp hconnect, eq_comm]
    | faceDetector connId =>
      change createFaceDetector w connId = _ at h
      unfold createFaceDetector at h
      split at h
      · split at h <;> cases h
      · obtain ⟨_, hconnect, h⟩ := Proc.except_bind_inv h
        cases h
        simp [TaskSettings.Typed, IAbstractTask.role, Complete, IDetector.Complete,
          connect_eq_ok.mp hconnect, eq_comm]
    | personDetector neuralNetCfg resizerCfg =>
      obtain ⟨resizerSettings, hresizer, h⟩ := Proc.except_bind_inv h
      obtain ⟨resizer, hcreateResizer, h⟩ := Proc.except_bind_inv h
      obtain ⟨netSettings, hnet, h⟩ := Proc.except_bind_inv h
      obtain ⟨net, hcreateNet, h⟩ := Proc.except_bind_inv h
      cases hfound : INeuralNet.fromAbstract net with
      | none =>
        rw [hfound] at h
        cases h
      | some found =>
        rw [hfound] at h
        cases resizerSettings with
        | resizer settings =>
          cases h
          have heffect : WellTyped w .effect resizerCfg :=
            (TaskSettings.typed_iff hresizer).mp rfl
          have hneural : WellTyped w .neuralNet neuralNetCfg := by
            rw [← TaskSettings.typed_iff hnet, ih hcreateNet, ← INeuralNet.fromAbstract_isSome,
              hfound]
            rfl
          have hthere : (IEffect.fromAbstract resizer).isSome = true := by
            rw [IEffect.fromAbstract_isSome, ← ih hcreateResizer]
            rfl
          simp [TaskSettings.Typed, IAbstractTask.role, Complete, IDetector.Complete, heffect,
            hneural, hthere, eq_comm]
        | _ => cases h
    | videoProcessorTask pipelineCfg =>
      obtain ⟨pipeline, hpipeline, h⟩ := Proc.except_bind_inv h
      cases h
      have hnodes := FrameSyncPipeline.complete_iff hload hpipeline
      simp only [TaskSettings.Typed, IAbstractTask.role, Complete, hnodes, eq_comm]
    | neuralOnnxRuntime settings =>
      change createNeuralNet w settings = _ at h
      unfold createNeuralNet at h
      split at h
      · cases h
      · obtain ⟨_, -, h⟩ := Proc.except_bind_inv h
        cases h
        simp [TaskSettings.Typed, IAbstractTask.role, Complete, eq_comm]

/-- What the factory creates is for the interface of the class. -/
theorem create_role (h : IAbstractTask.create w fuel settings = .ok task) :
    task.role = settings.id.role := by
  cases fuel with
  | zero => cases h
  | succ fuel =>
    cases settings with
    | inputNode | emptyNode | exceptionNode | drawerNode | resizer =>
      cases h
      rfl
    | faceDetectionNode | personDetectionNode | resizerNode | faceRecognitionNode
    | videoProcessorTask =>
      obtain ⟨_, -, h⟩ := Proc.except_bind_inv h
      cases h
      rfl
    | faceMatcherNode =>
      obtain ⟨_, -, h⟩ := Proc.except_bind_inv h
      obtain ⟨_, -, h⟩ := Proc.except_bind_inv h
      cases h
      rfl
    | faceDetector connId =>
      change createFaceDetector w connId = _ at h
      unfold createFaceDetector at h
      split at h
      · split at h <;> cases h
      · obtain ⟨_, -, h⟩ := Proc.except_bind_inv h
        cases h
        rfl
    | personDetector =>
      obtain ⟨_, -, h⟩ := Proc.except_bind_inv h
      obtain ⟨_, -, h⟩ := Proc.except_bind_inv h
      obtain ⟨_, -, h⟩ := Proc.except_bind_inv h
      obtain ⟨_, -, h⟩ := Proc.except_bind_inv h
      split at h
      · cases h
        rfl
      · cases h
    | neuralOnnxRuntime settings =>
      change createNeuralNet w settings = _ at h
      unfold createNeuralNet at h
      split at h
      · cases h
      · obtain ⟨_, -, h⟩ := Proc.except_bind_inv h
        cases h
        rfl

theorem load_iff (h : load w fuel cfg = .ok task) :
    WellTyped w role cfg ↔ task.role = role ∧ task.Complete := by
  obtain ⟨settings, hsettings, h⟩ := Proc.except_bind_inv h
  rw [← TaskSettings.typed_iff hsettings, create_iff h]

/-- A processor of videos is loaded from the configuration of its pipeline. -/
theorem load_videoProcessor {p : FrameSyncPipeline}
    (h : load w fuel cfg = .ok (.videoProcessor p)) :
    ∃ n pipelineCfg, fuel = n + 1 ∧ settingsId w cfg = some .videoProcessorTask ∧
      Json.optObject cfg "pipeline" = some pipelineCfg ∧
      FrameSyncPipeline.read w (load w n) n pipelineCfg = .ok p := by
  obtain ⟨settings, hsettings, h⟩ := Proc.except_bind_inv h
  obtain ⟨n, id, rfl, named, hread⟩ := TaskSettings.create_eq_ok hsettings
  have hrole := create_role h
  rw [TaskSettings.deserialize_id hread] at hrole
  cases id with
  | videoProcessorTask =>
    obtain ⟨pipelineCfg, hpipeline, hread⟩ := Proc.except_bind_inv hread
    cases hread
    obtain ⟨pipeline, hfound, h⟩ := Proc.except_bind_inv h
    cases h
    exact ⟨n, pipelineCfg, rfl, named, getObject_eq_ok.mp hpipeline, hfound⟩
  | _ => cases hrole

end IAbstractTask

end Seekira.Model
