import Seekira.Analysis.PipelineValidity
import Seekira.Analysis.TypedConfigs

/-!
# Pipelines that were loaded

The nodes and the links that a configuration lists are a pipeline's configuration as
`initialize` takes it, and the pipeline that is loaded is what `initialize` leaves of it.
Its tasks are the ones that the runs of pipelines are about, which return or throw,
exactly when the configuration is well typed: otherwise one of them follows a null
pointer, whatever it is called on.
-/

set_option autoImplicit false

namespace Seekira.Model

open Library Video

variable {w : TaskWorld} {fuel : Nat} {cfg : ObjectJSON}

/-! ## The configuration of the graph -/

variable (w)

/-- The id of a node. -/
def nodeIdOf (value : VarJSON) : Option String :=
  Except.toOption (do
    let node ← Creation.read (Json.item w.poco .object value)
    Creation.read (Json.get w.poco .string node "node"))

/-- The ids that a link is between. -/
def linkOf (value : VarJSON) : Option (List String) :=
  Except.toOption (do
    let link ← Creation.read (Json.item w.poco .array value)
    link.mapM fun id => Creation.read (Json.item w.poco .string id))

/-- The nodes and the links that the configuration of a pipeline lists. -/
def pipelineConfig (pipelineCfg : ObjectJSON) : PipelineConfig String where
  nodes := ((Json.optArray pipelineCfg "nodes").getD []).filterMap (nodeIdOf w)
  links := ((Json.optArray pipelineCfg "links").getD []).filterMap (linkOf w)

variable {w}

namespace FrameSyncPipeline

variable {create : ObjectJSON → Creation IAbstractTask}

/-- The nodes that are read are those that the settings list. -/
theorem readNodes_graph {values : ArrayJSON}
    {nodes nodes' : List (String × Option IPipelineNodeTask)} {g g' : BaseGraph String}
    (h : readNodes w create values nodes g = .ok (nodes', g')) :
    nodes'.map Prod.fst = nodes.map Prod.fst ++ values.filterMap (nodeIdOf w) ∧
      (values.filterMap (nodeIdOf w)).foldlM (fun g id => g.addNode id) g = .ok g' := by
  induction values generalizing nodes g with
  | nil =>
    cases h
    exact ⟨by simp, rfl⟩
  | cons value rest ih =>
    obtain ⟨nodeCfg, hvalue, h⟩ := Proc.except_bind_inv h
    obtain ⟨node, hnode, h⟩ := Proc.except_bind_inv h
    obtain ⟨g₁, hg₁, h⟩ := Proc.except_bind_inv h
    obtain ⟨hids, hgraph⟩ := ih h
    obtain ⟨id, hid, hnode⟩ := Proc.except_bind_inv hnode
    obtain ⟨inner, -, hnode⟩ := Proc.except_bind_inv hnode
    obtain ⟨task, -, hnode⟩ := Proc.except_bind_inv hnode
    cases hnode
    have hfound : nodeIdOf w value = some id := by
      unfold nodeIdOf
      rw [hvalue]
      show (Creation.read _).toOption = some id
      rw [hid]
      rfl
    rw [List.filterMap_cons_some hfound, List.foldlM_cons, assert_eq_ok hg₁]
    exact ⟨by simp [hids], hgraph⟩

/-- The links that are read are those that the settings list. -/
theorem readLinks_graph {values : ArrayJSON} {g g' : BaseGraph String}
    (h : readLinks w values g = .ok g') :
    (values.filterMap (linkOf w)).foldlM (fun g link => BasePipeline.addLink link g) g =
      .ok g' := by
  induction values generalizing g with
  | nil =>
    cases h
    rfl
  | cons value rest ih =>
    obtain ⟨link, hlink, h⟩ := Proc.except_bind_inv h
    split at h
    · cases h
    · obtain ⟨ids, hids, h⟩ := Proc.except_bind_inv h
      obtain ⟨g₁, hg₁, h⟩ := Proc.except_bind_inv h
      have hfound : linkOf w value = some ids := by
        unfold linkOf
        rw [hlink]
        show Except.toOption (link.mapM _) = some ids
        rw [hids]
        rfl
      rw [List.filterMap_cons_some hfound, List.foldlM_cons, assert_eq_ok hg₁]
      exact ih h

/-- The graph that was read is built from the nodes and the links. -/
theorem buildGraph_of_read {values links : ArrayJSON}
    (hvalues : Json.optArray cfg "nodes" = some values)
    (hlinks : Json.optArray cfg "links" = some links)
    {nodes : List (String × Option IPipelineNodeTask)} {g g' : BaseGraph String}
    (hnodes : readNodes w create values [] .empty = .ok (nodes, g))
    (hgraph : readLinks w links g = .ok g') :
    BasePipeline.buildGraph (pipelineConfig w cfg) = .ok g' := by
  unfold BasePipeline.buildGraph pipelineConfig
  rw [hvalues, hlinks]
  show (do
    let g ← (values.filterMap (nodeIdOf w)).foldlM (fun g id => BaseGraph.addNode id g) .empty
    (links.filterMap (linkOf w)).foldlM (fun g link => BasePipeline.addLink link g) g) = .ok g'
  rw [(readNodes_graph hnodes).2]
  exact readLinks_graph hgraph

/-- A pipeline that was initialized has no node twice. -/
theorem nodes_nodup_of_initialize {c : PipelineConfig String} {base : BasePipeline String}
    (h : BasePipeline.initializePipeline "input_node" fuel c = some (.ok base)) :
    c.nodes.Nodup := by
  unfold BasePipeline.initializePipeline at h
  split at h
  · cases h
  · rename_i g hbuild
    exact (BasePipeline.buildGraph_eq_ok.mp hbuild).1

/-- A pipeline that was read is what `initialize` leaves. -/
theorem read_initializes {p : FrameSyncPipeline}
    (h : FrameSyncPipeline.read w create fuel cfg = .ok p) :
    BasePipeline.initializePipeline "input_node" fuel (pipelineConfig w cfg) =
      some (.ok p.base) ∧ p.nodes.map Prod.fst = (pipelineConfig w cfg).nodes := by
  obtain ⟨values, links, g, root, branches, hvalues, hlinks, hnodes, hgraph, hroot, hbranches,
    hbaseRoot, hbaseBranches⟩ := read_eq_ok h
  constructor
  · unfold BasePipeline.initializePipeline
    rw [buildGraph_of_read hvalues hlinks hnodes hgraph]
    simp only [hroot, hbranches]
    rw [← hbaseRoot, ← hbaseBranches]
  · unfold pipelineConfig
    rw [hvalues]
    exact (readNodes_graph hnodes).1

end FrameSyncPipeline

/-! ## Calls of the nodes -/

section Processing

variable {P ρ : Type} {calls : TaskCalls P ρ}

theorem avoids_thrown {σ α : Type} (p : Proc Exc σ α) :
    Proc.Avoids NodeFault.nullDeref (Proc.mapError .thrown p) := by
  intro s
  rw [Proc.mapError_apply]
  cases (p s).1 <;> exact nofun

/-- A complete detector follows no null pointer. -/
theorem IDetector.process_avoids {frame : Video.Frame} {detector : IDetector}
    (h : detector.Complete) :
    Proc.Avoids NodeFault.nullDeref (detector.process calls frame) := by
  cases detector with
  | face connId => exact avoids_thrown _
  | person resizer net =>
    obtain ⟨effect, rfl⟩ := Option.isSome_iff_exists.mp h
    cases effect
    cases net
    exact Proc.avoids_bind (avoids_thrown _) fun resized => avoids_thrown _

/-- A detector with a missing part follows a null pointer. -/
theorem IDetector.process_incomplete {frame : Video.Frame} {detector : IDetector}
    (h : ¬detector.Complete) : detector.process calls frame = Proc.throw .nullDeref := by
  cases detector with
  | face connId => exact absurd trivial h
  | person resizer net =>
    cases resizer with
    | none => rfl
    | some effect => exact absurd rfl h

/-- With a complete detector no null pointer is followed. -/
theorem attachDetected_avoids {id : String} {detector : Option IDetector}
    (h : ∃ task ∈ detector, task.Complete) :
    Proc.Avoids NodeFault.nullDeref (attachDetected calls id detector) := by
  obtain ⟨task, rfl, hcomplete⟩ := h
  refine Proc.avoids_bind Proc.avoids_get fun job => ?_
  refine Proc.avoids_bind (Proc.avoids_zoom (IDetector.process_avoids hcomplete)) fun result => ?_
  exact Proc.avoids_modify _

/-- Without one a null pointer is followed on all data. -/
theorem attachDetected_nullDeref {id : String} {detector : Option IDetector}
    (h : ¬∃ task ∈ detector, task.Complete) (job : VideoJob P ρ) :
    (attachDetected calls id detector job).1 = .error .nullDeref := by
  cases detector with
  | none => rfl
  | some task =>
    have hincomplete : ¬task.Complete := fun hcomplete => h ⟨task, rfl, hcomplete⟩
    have hfails : onEnv (task.process calls job.info.data) job = (.error .nullDeref, job) := by
      unfold onEnv
      rw [IDetector.process_incomplete hincomplete]
      rfl
    have hrun : attachDetected calls id (some task) job = (.error .nullDeref, job) :=
      (Proc.get_bind_apply _ job).trans (Proc.bind_error hfails)
    rw [hrun]

/-- A task follows a null pointer on all data or on none. -/
theorem IPipelineNodeTask.process_avoids {task : IPipelineNodeTask} (h : task.Complete) :
    Proc.Avoids NodeFault.nullDeref (task.process calls) := by
  cases task with
  | input | empty => exact Proc.avoids_pure ()
  | exception => exact Proc.avoids_throw nofun
  | faceDetection detector | personDetection detector => exact attachDetected_avoids h
  | faceRecognition | faceMatcher | drawer => exact avoids_thrown _
  | resizer effect =>
    obtain ⟨found, rfl⟩ := Option.isSome_iff_exists.mp h
    cases found
    refine Proc.avoids_bind Proc.avoids_get fun job => ?_
    exact Proc.avoids_bind (Proc.avoids_zoom (avoids_thrown _)) fun frame => Proc.avoids_modify _

/-- A task with a missing part follows a null pointer on all data. -/
theorem IPipelineNodeTask.process_nullDeref {task : IPipelineNodeTask} (h : ¬task.Complete)
    (job : VideoJob P ρ) : (task.process calls job).1 = .error .nullDeref := by
  cases task with
  | input | empty | exception | faceRecognition | faceMatcher | drawer => exact absurd trivial h
  | faceDetection detector | personDetection detector => exact attachDetected_nullDeref h job
  | resizer effect =>
    cases effect with
    | none => rfl
    | some found => exact absurd rfl h

/-- The exceptions of a procedure that follows no null pointer. -/
def exceptionsOf {σ α : Type} (p : Proc NodeFault σ α) : Proc Exc σ α := fun s =>
  match p s with
  | (.ok a, s') => (.ok a, s')
  | (.error (.thrown e), s') => (.error e, s')
  | (.error .nullDeref, s') => (.error .other, s')

/-- A node that follows no null pointer ends with its exceptions. -/
theorem mapError_exceptionsOf {σ α : Type} {p : Proc NodeFault σ α}
    (h : Proc.Avoids NodeFault.nullDeref p) : Proc.mapError .thrown (exceptionsOf p) = p := by
  funext s
  have hs := h s
  rw [Proc.mapError_apply]
  unfold exceptionsOf
  split
  · rename_i heq
    rw [heq]
    rfl
  · rename_i heq
    rw [heq]
    rfl
  · rename_i heq
    rw [heq] at hs
    exact absurd rfl hs

namespace FrameSyncPipeline

/-- The nodes do what `tasks` do, and nothing worse than throwing. -/
def RunsAs (calls : TaskCalls P ρ) (p : FrameSyncPipeline)
    (tasks : NodeTasks String (VideoJob P ρ)) : Prop :=
  ∀ node ∈ p.nodes, processNode calls node.2 = Proc.mapError .thrown (tasks node.1)

theorem processNode_avoids {task : Option IPipelineNodeTask} (h : ∃ t ∈ task, t.Complete) :
    Proc.Avoids NodeFault.nullDeref (processNode calls task) := by
  obtain ⟨t, rfl, hcomplete⟩ := h
  exact IPipelineNodeTask.process_avoids hcomplete

theorem processNode_nullDeref {task : Option IPipelineNodeTask} (h : ¬∃ t ∈ task, t.Complete)
    (job : VideoJob P ρ) : (processNode calls task job).1 = .error .nullDeref := by
  cases task with
  | none => rfl
  | some t => exact IPipelineNodeTask.process_nullDeref (fun ht => h ⟨t, rfl, ht⟩) job

/-- The ids tell the nodes apart, so their tasks are tasks by ids. -/
theorem exists_runsAs {p : FrameSyncPipeline} (hids : (p.nodes.map Prod.fst).Nodup)
    (h : p.Complete) : ∃ tasks, p.RunsAs calls tasks := by
  refine ⟨fun id => exceptionsOf (processNode calls ((p.nodes.lookup id).getD none)), ?_⟩
  intro node hnode
  have hlookup : p.nodes.lookup node.1 = some node.2 := by
    obtain ⟨front, back, hsplit⟩ := List.append_of_mem hnode
    refine List.lookup_eq_some_iff.mpr ⟨front, back, hsplit, fun earlier hearlier => ?_⟩
    rw [hsplit, List.map_append, List.map_cons, List.nodup_append] at hids
    have hne : earlier.1 ≠ node.1 :=
      hids.2.2 _ (List.mem_map_of_mem hearlier) _ List.mem_cons_self
    simpa using hne.symm
  show _ = Proc.mapError NodeFault.thrown
    (exceptionsOf (processNode calls ((p.nodes.lookup node.1).getD none)))
  rw [hlookup]
  exact (mapError_exceptionsOf (processNode_avoids (h node hnode))).symm

/-- A loaded pipeline is the one that the listed nodes and links are initialized to.  Where the
tasks' own calls (`TaskCalls`) return or throw, its nodes do nothing worse than throwing when the
configuration is well typed, and otherwise one of them follows a null pointer on all data. -/
theorem runs_iff_wellTyped (calls : TaskCalls P ρ) {p : FrameSyncPipeline}
    (h : IAbstractTask.load w fuel cfg = .ok (.videoProcessor p)) :
    (∃ pipelineCfg, Json.optObject cfg "pipeline" = some pipelineCfg ∧
      BasePipeline.Leaves "input_node" (pipelineConfig w pipelineCfg) p.base ∧
      p.nodes.map Prod.fst = (pipelineConfig w pipelineCfg).nodes) ∧
    (WellTyped w .videoProcessor cfg → ∃ tasks, p.RunsAs calls tasks) ∧
    (¬WellTyped w .videoProcessor cfg → ∃ node ∈ p.nodes, ∀ job : VideoJob P ρ,
      (processNode calls node.2 job).1 = .error .nullDeref) := by
  have hiff : WellTyped w .videoProcessor cfg ↔ p.Complete := by
    rw [IAbstractTask.load_iff h]
    exact and_iff_right rfl
  obtain ⟨n, pipelineCfg, rfl, -, hpipeline, hread⟩ := IAbstractTask.load_videoProcessor h
  obtain ⟨hinit, hids⟩ := read_initializes hread
  refine ⟨⟨pipelineCfg, hpipeline, ⟨n, hinit⟩, hids⟩, fun htyped => ?_, fun hill => ?_⟩
  · have hnodup : (p.nodes.map Prod.fst).Nodup := by
      rw [hids]
      exact nodes_nodup_of_initialize hinit
    exact exists_runsAs hnodup (hiff.mp htyped)
  · by_contra hnone
    refine hill (hiff.mpr fun node hnode => ?_)
    by_contra hincomplete
    exact hnone ⟨node, hnode, processNode_nullDeref hincomplete⟩

end FrameSyncPipeline

end Processing

/-! ## The configuration of the person detection -/

/-- Whole numbers are parsed as `Int64`, and read as sizes. -/
def parsedPoco : Poco where
  toString _ := .error "Bad cast exception"
  toInt _ := .error "Bad cast exception"
  toInt64 _ := .error "Bad cast exception"
  toUInt64
    | .int64 n => if 0 ≤ n then .ok n.toNat else .error "Value too small."
    | _ => .error "Bad cast exception"
  toDouble _ := .error "Bad cast exception"
  invalidAccess := "Invalid access"
  badCast := "Bad cast exception"

/-- No images are there. -/
def noPictures : PersonHolder.FaceSource Unit Unit where
  directory _ := none
  openFile _ := .error .std
  detect _ := .ok []
  recognize := .ok
  compare _ _ := .ok .undefined

/-- The network is there, and no face engine. -/
def detectionWorld : TaskWorld where
  poco := parsedPoco
  toBool _ := .error "Bad cast exception"
  sources _ := false
  faces := noPictures
  rounds := 0
  loadNet _ := .ok ()

def resizerCfg : ObjectJSON :=
  [("task_settings_id", .string "SettingsResizer"), ("interpolation", .string "area"),
    ("size_mode", .string "padding"),
    ("frame_size", .object [("width", .int64 1088), ("height", .int64 608)])]

def neuralNetCfg : ObjectJSON :=
  [("task_settings_id", .string "SettingsNeuralOnnxRuntime"), ("device", .string "cuda"),
    ("model_path", .string "C:/Work/StepTech/SDK/models/bytetrack_s.onnx"),
    ("mean_values", .array [.double (485 / 1000), .double (456 / 1000), .double (406 / 1000)]),
    ("norm_values", .array [.double (229 / 1000), .double (224 / 1000), .double (225 / 1000)])]

def personDetectorCfg : ObjectJSON :=
  [("task_settings_id", .string "SettingsPersonDetector"),
    ("neural_net_settings", .object neuralNetCfg), ("resizer_settings", .object resizerCfg)]

def nodeCfg (id : String) (settings : ObjectJSON) : VarJSON :=
  .object [("node", .string id), ("settings", .object settings)]

def inputNodeCfg : ObjectJSON := [("task_settings_id", .string "InputNodeSettings")]

def personDetectionNodeCfg (detectorCfg : ObjectJSON) : ObjectJSON :=
  [("task_settings_id", .string "PersonDetectionNodeSettings"), ("settings", .object detectorCfg)]

def drawNodeCfg : ObjectJSON := [("task_settings_id", .string "DrawerNodeSettings")]

def detectionPipelineCfg (detectorCfg : ObjectJSON) : ObjectJSON :=
  [("settings", .object
      [("name", .string "face_detection_pipeline"), ("sync_mode", .string "sync")]),
    ("nodes", .array
      [nodeCfg "input_node" inputNodeCfg,
        nodeCfg "person_detection_node" (personDetectionNodeCfg detectorCfg),
        nodeCfg "draw_node" drawNodeCfg]),
    ("links", .array
      [.array [.string "input_node", .string "person_detection_node"],
        .array [.string "person_detection_node", .string "draw_node"]])]

/-- What the program ships, with the settings of the detector left open.
SOURCE: gui/resources/video_processing/video_processing_manager.json:31-92 -/
def detectionCfg (detectorCfg : ObjectJSON) : ObjectJSON :=
  [("task_settings_id", .string "SettingsVideoProcessorTask"),
    ("pipeline", .object (detectionPipelineCfg detectorCfg))]

/-- The example is well typed when its detector is. -/
theorem detectionCfg_wellTyped_iff {detectorCfg : ObjectJSON} :
    WellTyped detectionWorld .videoProcessor (detectionCfg detectorCfg) ↔
      WellTyped detectionWorld .detector detectorCfg := by
  have named : settingsId detectionWorld (detectionCfg detectorCfg) = some .videoProcessorTask :=
    rfl
  have hpipeline : Json.optObject (detectionCfg detectorCfg) "pipeline" =
      some (detectionPipelineCfg detectorCfg) := rfl
  have hnodes : nodeSettings (detectionPipelineCfg detectorCfg) =
      [inputNodeCfg, personDetectionNodeCfg detectorCfg, drawNodeCfg] := rfl
  have hinput : WellTyped detectionWorld .pipelineNode inputNodeCfg := by
    have hnode : settingsId detectionWorld inputNodeCfg = some .inputNode := rfl
    exact (wellTyped_plain hnode rfl nofun rfl).mpr rfl
  have hdraw : WellTyped detectionWorld .pipelineNode drawNodeCfg := by
    have hnode : settingsId detectionWorld drawNodeCfg = some .drawerNode := rfl
    exact (wellTyped_plain hnode rfl nofun rfl).mpr rfl
  have hdetection : WellTyped detectionWorld .pipelineNode (personDetectionNodeCfg detectorCfg) ↔
      WellTyped detectionWorld .detector detectorCfg := by
    have hnode : settingsId detectionWorld (personDetectionNodeCfg detectorCfg) =
        some .personDetectionNode := rfl
    rw [wellTyped_part hnode rfl nofun rfl rfl]
    exact and_iff_right rfl
  rw [wellTyped_iff named]
  simp [SettingsId.role, SettingsId.parts, SettingsId.connects, hpipeline, hnodes, hinput, hdraw,
    hdetection]

theorem resizerCfg_settingsId : settingsId detectionWorld resizerCfg = some .resizer := rfl

/-- The detector of persons is well typed. -/
theorem personDetectorCfg_wellTyped : WellTyped detectionWorld .detector personDetectorCfg := by
  have named : settingsId detectionWorld personDetectorCfg = some .personDetector := rfl
  have hresizer : WellTyped detectionWorld .effect resizerCfg :=
    (wellTyped_plain resizerCfg_settingsId rfl nofun rfl).mpr rfl
  have hnet : WellTyped detectionWorld .neuralNet neuralNetCfg := by
    have hsettings : settingsId detectionWorld neuralNetCfg = some .neuralOnnxRuntime := rfl
    exact (wellTyped_plain hsettings rfl nofun rfl).mpr rfl
  have hresizerCfg : Json.optObject personDetectorCfg "resizer_settings" = some resizerCfg := rfl
  have hnetCfg : Json.optObject personDetectorCfg "neural_net_settings" = some neuralNetCfg := rfl
  rw [wellTyped_iff named]
  simp [SettingsId.role, SettingsId.parts, SettingsId.connects, hresizerCfg, hnetCfg, hresizer,
    hnet]

/-- A resizer is no detector. -/
theorem resizerCfg_not_detector : ¬WellTyped detectionWorld .detector resizerCfg := by
  rw [wellTyped_plain resizerCfg_settingsId rfl nofun rfl]
  decide

/-- Calls that find nothing. -/
def idleCalls : TaskCalls Unit Unit where
  resize _ frame := pure frame
  detectFaces _ _ := pure ⟨⟨[]⟩⟩
  detectPersons _ _ _ := pure ⟨⟨[]⟩⟩
  recognize _ _ := pure ()
  matchFaces _ _ _ := pure ()
  draw _ := pure ()

def isVideoProcessor : Creation IAbstractTask → Bool
  | .ok (.videoProcessor _) => true
  | _ => false

theorem exists_videoProcessor {x : Creation IAbstractTask} (h : isVideoProcessor x = true) :
    ∃ p, x = .ok (.videoProcessor p) := by
  match x, h with
  | .ok (.videoProcessor p), _ => exact ⟨p, rfl⟩

/-- With the resizer's settings in the detector's place the pipeline loads all the same. -/
theorem FrameSyncPipeline.runs_iff_wellTyped_detection :
    (∃ p, IAbstractTask.load detectionWorld 5 (detectionCfg personDetectorCfg) =
        .ok (.videoProcessor p) ∧
      ∃ tasks, p.RunsAs idleCalls tasks) ∧
    ∃ p, IAbstractTask.load detectionWorld 5 (detectionCfg resizerCfg) =
        .ok (.videoProcessor p) ∧
      ∃ node ∈ p.nodes, ∀ job : VideoJob Unit Unit,
        (processNode idleCalls node.2 job).1 = .error .nullDeref := by
  constructor
  · obtain ⟨p, hload⟩ := exists_videoProcessor (x := IAbstractTask.load detectionWorld 5
      (detectionCfg personDetectorCfg)) (by decide +kernel)
    have htyped := detectionCfg_wellTyped_iff.mpr personDetectorCfg_wellTyped
    exact ⟨p, hload, (runs_iff_wellTyped idleCalls hload).2.1 htyped⟩
  · obtain ⟨p, hload⟩ := exists_videoProcessor (x := IAbstractTask.load detectionWorld 5
      (detectionCfg resizerCfg)) (by decide +kernel)
    have hill := fun h => resizerCfg_not_detector (detectionCfg_wellTyped_iff.mp h)
    exact ⟨p, hload, (runs_iff_wellTyped idleCalls hload).2.2 hill⟩

end Seekira.Model
