import Seekira.Analysis.LoadedFaces
import Seekira.Analysis.LoadedPipelines

/-!
# What a configuration loads

Creating tasks from a well-typed configuration throws or returns: no null pointer is
followed, and no destructor throws.  What a well-typed configuration describes lies at
most four deep in each other, so the creation ends, unless the links of a pipeline are
no tree and its branches are followed forever, or a person has no faces and their check
goes on and on.
-/

set_option autoImplicit false

namespace Seekira.Model

open Library Video

variable {w : TaskWorld} {role : TaskRole} {fuel : Nat} {cfg : ObjectJSON}
  {settings : TaskSettings} {task : IAbstractTask}

/-- The ways to fail that leave the process as it was; `D` allows for one without an end. -/
def TaskFault.Allowed (D : Prop) : TaskFault → Prop
  | .thrown _ => True
  | .diverged => D
  | .nullDeref | .terminated => False

variable {D : Prop}

/-- It returns or throws, or has no end where `D` allows for this. -/
abbrev Creation.Safe {α : Type} (D : Prop) (x : Creation α) : Prop :=
  Ends (TaskFault.Allowed D) (fun _ => True) x

namespace Creation

variable {α β : Type}

theorem safe_pure (a : α) : Safe D (pure a : Creation α) := trivial

theorem safe_throw (e : ConfigError) : Safe D (throw e : Creation α) := trivial

theorem safe_read (x : Except LoadError α) : Safe D (read x) := by
  cases x <;> exact trivial

theorem safe_thrown {ε : Type} (x : Except ε α) (f : ε → ConfigError) :
    Safe D (x.mapError fun e => .thrown (f e) : Creation α) := by
  cases x <;> exact trivial

theorem safe_bind {x : Creation α} {f : α → Creation β} (hx : Safe D x) (hf : ∀ a, Safe D (f a)) :
    Safe D (x >>= f) := Ends.bind hx fun a _ => hf a

end Creation

open Creation

/-- How deep the tasks of an interface lie in each other. -/
def TaskRole.depth : TaskRole → Nat
  | .effect | .neuralNet => 1
  | .detector => 2
  | .pipelineNode => 3
  | .videoProcessor => 4

/-- The check of the faces of any person ends within the rounds that are followed. -/
def TaskWorld.ChecksEnd (w : TaskWorld) : Prop :=
  ∀ path faces, PersonHolder.loadFromDir w.faces path = .ok faces →
    ∃ rounds result, rounds ≤ w.rounds ∧
      Leaves (PersonHolder.checkRound w.faces faces) rounds (.outer 0 []) result

/-- It does where every directory that can be loaded has an image with one face, and few enough. -/
theorem TaskWorld.checksEnd_of_faces
    (h : ∀ path faces, PersonHolder.loadFromDir w.faces path = .ok faces →
      faces ≠ [] ∧ faces.length < 2 ^ 64 ∧ faces.length * faces.length ≤ w.rounds) :
    w.ChecksEnd := by
  intro path faces hload
  obtain ⟨hne, hsize, hrounds⟩ := h path faces hload
  obtain ⟨rounds, result, hle, hleaves⟩ :=
    PersonHolder.check_leaves_within w.faces hne hsize
  exact ⟨rounds, result, hle.trans hrounds, hleaves⟩

/-- The fuel is enough, and the checks of faces and the branches of a pipeline end. -/
structure Bounded (w : TaskWorld) (role : TaskRole) (cfg : ObjectJSON) (fuel : Nat) : Prop where
  depth_le : role.depth ≤ fuel
  persons : w.ChecksEnd
  pipeline : role = .videoProcessor → ∀ pipelineCfg,
    Json.optObject cfg "pipeline" = some pipelineCfg →
      (pipelineConfig w pipelineCfg).IsTree "input_node" ∧
        (pipelineConfig w pipelineCfg).nodes.length < fuel

/-! ## Settings -/

theorem safe_readResizer (poco : Poco) (cfg : ObjectJSON) :
    Safe D (SettingsResizer.read poco cfg) := by
  refine safe_bind (safe_read _) fun interpolation => safe_bind (safe_read _) fun sizeMode => ?_
  refine safe_bind (safe_read _) fun frameSizeCfg => safe_bind ?_ fun frameSize => safe_pure _
  exact safe_bind (safe_read _) fun width => safe_bind (safe_read _) fun height => safe_pure _

theorem safe_readNeuralNet (poco : Poco) (cfg : ObjectJSON) :
    Safe D (SettingsNeuralOnnxRuntime.read poco cfg) := by
  have hvalues (key : String) : Safe D (SettingsNeuralOnnxRuntime.readValues poco cfg key) :=
    ends_mapM (fun value => safe_read _) _
  refine safe_bind (safe_read _) fun modelPath => safe_bind (safe_read _) fun device => ?_
  exact safe_bind (hvalues _) fun means => safe_bind (hvalues _) fun norms => safe_pure _

theorem safe_readDrawer (poco : Poco) (cfg : ObjectJSON) :
    Safe D (SettingsDrawer.read poco cfg) := by
  have hcolor (cfg : ObjectJSON) : Safe D (ColorRGB.read poco cfg) :=
    safe_bind (safe_read _) fun red => safe_bind (safe_read _) fun green =>
      safe_bind (safe_read _) fun blue => safe_pure _
  refine safe_bind (safe_read _) fun faceCfg => safe_bind (hcolor _) fun face => ?_
  refine safe_bind (safe_read _) fun validCfg => safe_bind (hcolor _) fun valid => ?_
  refine safe_bind (safe_read _) fun probCfg => safe_bind (hcolor _) fun prob => ?_
  exact safe_bind (safe_read _) fun invalidCfg => safe_bind (hcolor _) fun invalid => safe_pure _

namespace TaskSettings

theorem safe_connId (cfg : ObjectJSON) : Safe D (connId w cfg) := by
  unfold connId
  split
  · exact safe_pure _
  · split
    · exact safe_throw _
    · exact safe_pure _

theorem safe_readPersons (values : ArrayJSON) :
    Safe D (values.mapM fun value => do
      PersonHolder.Initializer.read w.poco (← Creation.read (Json.item w.poco .object value))) := by
  refine ends_mapM (fun value => safe_bind (safe_read _) fun cfg => ?_) values
  exact safe_bind (safe_read _) fun personId => safe_bind (safe_read _) fun path => safe_pure _

/-- Well-typed settings lie at most one deep in each other. -/
theorem safe_create (h : WellTyped w role cfg) (hfuel : fuel < role.depth → D) :
    Safe D (TaskSettings.create w fuel cfg) := by
  induction fuel generalizing cfg role with
  | zero => exact hfuel (by cases role <;> exact Nat.zero_lt_succ _)
  | succ fuel ih =>
    refine Ends.bind_of_ok (safe_read _) fun name hname => ?_
    split
    · exact safe_throw _
    · rename_i id hlookup
      have named : settingsId w cfg = some id := by
        unfold settingsId
        rw [read_eq_ok.mp hname]
        exact hlookup
      obtain ⟨rfl, parts, -⟩ := (wellTyped_iff named).mp h
      have hpart {key : String} {part : TaskRole} (wrap : TaskSettings → TaskSettings)
          (hmem : (key, part) ∈ id.parts) (hdepth : part.depth < id.role.depth) :
          Safe D (do
            return wrap (← TaskSettings.create w fuel
              (← Creation.read (Json.getObject cfg key)))) := by
        refine Ends.bind_of_ok (safe_read _) fun inner hinner => ?_
        refine safe_bind ?_ fun created => safe_pure _
        have hinnerTyped : WellTyped w part inner :=
          parts (key, part) hmem inner (getObject_eq_ok.mp hinner)
        exact ih hinnerTyped fun hlt => hfuel (by omega)
      cases id with
      | inputNode | emptyNode | exceptionNode => exact safe_pure _
      | faceDetectionNode => exact hpart .faceDetectionNode List.mem_cons_self (by decide)
      | personDetectionNode => exact hpart .personDetectionNode List.mem_cons_self (by decide)
      | resizerNode => exact hpart .resizerNode List.mem_cons_self (by decide)
      | faceRecognitionNode => exact safe_bind (safe_connId cfg) fun connId => safe_pure _
      | faceMatcherNode =>
        exact safe_bind (safe_connId cfg) fun connId =>
          safe_bind (safe_readPersons _) fun persons => safe_pure _
      | drawerNode =>
        show Safe D (readDrawerNode w cfg)
        unfold readDrawerNode
        split
        · exact safe_pure _
        · exact safe_bind (safe_readDrawer _ _) fun drawer => safe_pure _
      | faceDetector => exact safe_bind (safe_connId cfg) fun connId => safe_pure _
      | personDetector =>
        exact safe_bind (safe_read _) fun net => safe_bind (safe_read _) fun resizer => safe_pure _
      | resizer => exact safe_bind (safe_readResizer _ _) fun settings => safe_pure _
      | videoProcessorTask => exact safe_bind (safe_read _) fun pipelineCfg => safe_pure _
      | neuralOnnxRuntime => exact safe_bind (safe_readNeuralNet _ _) fun settings => safe_pure _

end TaskSettings

/-! ## Tasks -/

namespace FrameSyncPipeline

variable {create : ObjectJSON → Creation IAbstractTask}

theorem safe_readNodes
    (hcreate : ∀ cfg, WellTyped w .pipelineNode cfg → Safe D (create cfg)) {values : ArrayJSON}
    (hvalues : ∀ node ∈ values.filterMap settingsOfNode, WellTyped w .pipelineNode node)
    (nodes : List (String × Option IPipelineNodeTask)) (g : BaseGraph String) :
    Safe D (readNodes w create values nodes g) := by
  induction values generalizing nodes g with
  | nil => exact safe_pure _
  | cons value rest ih =>
    have hrest : ∀ node ∈ rest.filterMap settingsOfNode, WellTyped w .pipelineNode node := by
      intro node hnode
      obtain ⟨value', hvalue', hsettings⟩ := List.mem_filterMap.mp hnode
      exact hvalues node
        (List.mem_filterMap.mpr ⟨value', List.mem_cons_of_mem _ hvalue', hsettings⟩)
    refine Ends.bind_of_ok (safe_read _) fun nodeCfg hnodeCfg => ?_
    refine safe_bind ?_ fun node => safe_bind (safe_thrown _ _) fun g => ih hrest _ _
    refine safe_bind (safe_read _) fun id => ?_
    refine Ends.bind_of_ok (safe_read _) fun inner hinner => ?_
    have hsettings : settingsOfNode value = some inner := by
      unfold settingsOfNode
      rw [item_object_eq_ok.mp hnodeCfg]
      exact getObject_eq_ok.mp hinner
    have htyped : WellTyped w .pipelineNode inner :=
      hvalues inner (List.mem_filterMap.mpr ⟨value, List.mem_cons_self, hsettings⟩)
    exact safe_bind (hcreate inner htyped) fun task => safe_pure _

theorem safe_readLinks (values : ArrayJSON) (g : BaseGraph String) :
    Safe D (readLinks w values g) := by
  induction values generalizing g with
  | nil => exact safe_pure _
  | cons value rest ih =>
    refine safe_bind (safe_read _) fun link => ?_
    split
    · exact safe_throw _
    · refine safe_bind (ends_mapM (fun id => safe_read _) _) fun ids => ?_
      exact safe_bind (safe_thrown _ _) fun g => ih g

theorem safe_getArray (cfg : ObjectJSON) (key : String) : Safe D (getArray cfg key) := by
  unfold getArray
  split
  · exact safe_throw _
  · exact safe_pure _

/-- The branches that are followed forever are not those of a tree. -/
theorem initBranches_ne_none {graph : BaseGraph String} {root : String}
    (hbuild : BasePipeline.buildGraph (pipelineConfig w cfg) = .ok graph)
    (hroot : graph.getNode "input_node" = .ok root)
    (htree : (pipelineConfig w cfg).IsTree "input_node")
    (hnodes : (pipelineConfig w cfg).nodes.length ≤ fuel) :
    BasePipeline.initBranches fuel graph ≠ none := by
  intro hnone
  obtain ⟨branches, hinit, -⟩ := BasePipeline.leaves_of_isTree htree hnodes
  unfold BasePipeline.initializePipeline at hinit
  rw [hbuild] at hinit
  simp only [hroot, hnone] at hinit
  cases hinit

theorem safe_pipelineRead
    (hcreate : ∀ cfg, WellTyped w .pipelineNode cfg → Safe D (create cfg))
    (hnodes : ∀ node ∈ nodeSettings cfg, WellTyped w .pipelineNode node)
    (hloop : ¬((pipelineConfig w cfg).IsTree "input_node" ∧
      (pipelineConfig w cfg).nodes.length ≤ fuel) → D) :
    Safe D (FrameSyncPipeline.read w create fuel cfg) := by
  refine safe_bind (safe_read _) fun settingsCfg => safe_bind ?_ fun settings => ?_
  · exact safe_bind (safe_read _) fun name => safe_bind (safe_read _) fun mode => safe_pure _
  refine Ends.bind_of_ok (safe_getArray _ _) fun values hvalues => ?_
  rw [getArray_eq_ok] at hvalues
  have htyped : ∀ node ∈ values.filterMap settingsOfNode, WellTyped w .pipelineNode node := by
    unfold nodeSettings at hnodes
    rw [hvalues] at hnodes
    exact hnodes
  refine Ends.bind_of_ok (safe_readNodes hcreate htyped [] .empty) fun read hread => ?_
  refine Ends.bind_of_ok (safe_getArray _ _) fun links hlinks => ?_
  refine Ends.bind_of_ok (safe_readLinks links _) fun graph hgraph => ?_
  refine Ends.bind_of_ok (safe_thrown _ _) fun root hroot => ?_
  split
  · rename_i hnone
    refine hloop fun ⟨htree, hlength⟩ => ?_
    have hbuild := buildGraph_of_read hvalues (getArray_eq_ok.mp hlinks) hread hgraph
    exact initBranches_ne_none hbuild (assert_eq_ok hroot) htree hlength hnone
  · exact safe_bind (safe_thrown _ _) fun branches => safe_pure _

end FrameSyncPipeline

namespace IAbstractTask

theorem safe_connect {connId : String} (h : w.sources connId = true) :
    Safe D (connect w connId) := by
  unfold connect
  rw [if_pos h]
  exact safe_pure _

/-- Loading a person throws or returns, unless the check of the faces goes on. -/
theorem safe_loadPerson (hpersons : ¬w.ChecksEnd → D) (path : String) :
    Safe D (loadPerson w path) := by
  unfold loadPerson
  cases hload : PersonHolder.loadFromDir w.faces path with
  | error e => exact trivial
  | ok faces =>
    dsimp only
    split
    · rename_i hnone
      refine hpersons fun hends => ?_
      obtain ⟨rounds, result, hle, hleaves⟩ := hends path faces hload
      rw [follow_eq_some_iff.mpr ⟨rounds, hle, hleaves⟩] at hnone
      cases hnone
    · exact safe_pure _
    · exact trivial
    · rename_i hfollow
      obtain ⟨rounds, -, hleaves⟩ := follow_eq_some_iff.mp hfollow
      exact (PersonHolder.sound_of_leaves hleaves).elim

/-- Creating a task from typed settings throws, or returns it. -/
theorem safe_create (h : settings.Typed w role) (hfuel : fuel < role.depth → D)
    (hpersons : ¬w.ChecksEnd → D)
    (hloop : ∀ pipelineCfg, settings = .videoProcessorTask pipelineCfg →
      ¬((pipelineConfig w pipelineCfg).IsTree "input_node" ∧
        (pipelineConfig w pipelineCfg).nodes.length < fuel) → D) :
    Safe D (IAbstractTask.create w fuel settings) := by
  induction fuel generalizing settings role with
  | zero => exact hfuel (by cases role <;> exact Nat.zero_lt_succ _)
  | succ fuel ih =>
    -- only a processor of videos has a pipeline, and it lies in no other task
    have hpart {inner : TaskSettings} {part : TaskRole} (hinner : inner.Typed w part)
        (hdepth : part.depth < role.depth) : Safe D (IAbstractTask.create w fuel inner) := by
      refine ih hinner (fun hlt => hfuel (by omega)) fun pipelineCfg heq => ?_
      subst heq
      obtain ⟨rfl, -⟩ := hinner
      exact absurd hdepth (by cases role <;> decide)
    cases settings with
    | inputNode | emptyNode | exceptionNode | drawerNode | resizer => exact safe_pure _
    | faceDetectionNode inner | personDetectionNode inner | resizerNode inner =>
      obtain ⟨rfl, hinner⟩ := h
      exact safe_bind (hpart hinner (by decide)) fun created => safe_pure _
    | faceRecognitionNode skipFlag connId =>
      exact safe_bind (safe_connect h.2) fun _ => safe_pure _
    | faceMatcherNode skipFlag connId persons =>
      refine safe_bind (safe_connect h.2) fun _ => safe_bind ?_ fun _ => safe_pure _
      refine ends_forM (fun person => safe_bind (safe_connect h.2) fun _ => ?_) persons
      split
      · exact safe_pure _
      · exact safe_loadPerson hpersons _
    | faceDetector connId =>
      show Safe D (createFaceDetector w connId)
      unfold createFaceDetector
      split
      · rename_i hempty
        subst hempty
        rw [if_pos h.2]
        exact safe_throw _
      · exact safe_bind (safe_connect h.2) fun _ => safe_pure _
    | personDetector neuralNetCfg resizerCfg =>
      obtain ⟨rfl, heffect, hneural⟩ := h
      have hone : fuel < 1 → D := fun hlt => hfuel (Nat.succ_lt_succ hlt)
      refine Ends.bind_of_ok (TaskSettings.safe_create heffect hone) fun settings hresizer => ?_
      have hresizerTyped := (TaskSettings.typed_iff hresizer).mpr heffect
      refine safe_bind (hpart hresizerTyped (by decide)) fun resizer => ?_
      refine Ends.bind_of_ok (TaskSettings.safe_create hneural hone) fun netSettings hnet => ?_
      have hnetTyped := (TaskSettings.typed_iff hnet).mpr hneural
      refine Ends.bind_of_ok (hpart hnetTyped (by decide)) fun net hcreateNet => ?_
      have hthere : (INeuralNet.fromAbstract net).isSome = true := by
        rw [INeuralNet.fromAbstract_isSome, ← create_iff hcreateNet]
        exact hnetTyped
      obtain ⟨found, hfound⟩ := Option.isSome_iff_exists.mp hthere
      rw [hfound]
      cases settings with
      | resizer settings => exact safe_pure _
      | personDetector | videoProcessorTask | faceDetectionNode | personDetectionNode
      | resizerNode | faceRecognitionNode | faceMatcherNode | faceDetector => cases hresizerTyped.1
      | _ => cases hresizerTyped
    | videoProcessorTask pipelineCfg =>
      obtain ⟨rfl, hnodes⟩ := h
      have hthree : fuel < 3 → D := fun hlt => hfuel (Nat.succ_lt_succ hlt)
      refine safe_bind (FrameSyncPipeline.safe_pipelineRead (fun cfg hcfg => ?_) hnodes
        fun htree => hloop pipelineCfg rfl fun h => htree ⟨h.1, Nat.le_of_lt_succ h.2⟩) fun _ =>
          safe_pure _
      refine Ends.bind_of_ok (TaskSettings.safe_create hcfg hthree) fun inner hinner => ?_
      exact hpart ((TaskSettings.typed_iff hinner).mpr hcfg) (by decide)
    | neuralOnnxRuntime settings =>
      show Safe D (createNeuralNet w settings)
      unfold createNeuralNet
      split
      · exact safe_throw _
      · exact safe_bind (safe_thrown _ _) fun _ => safe_pure _

theorem safe_load (h : WellTyped w role cfg) :
    Safe (¬Bounded w role cfg fuel) (load w fuel cfg) := by
  have hdepth : fuel < role.depth → ¬Bounded w role cfg fuel := fun hlt hbounded =>
    Nat.not_le.mpr hlt hbounded.depth_le
  refine Ends.bind_of_ok (TaskSettings.safe_create h hdepth) fun settings hsettings => ?_
  have hpersons : ¬w.ChecksEnd → ¬Bounded w role cfg fuel := fun hnone hbounded =>
    hnone hbounded.persons
  refine safe_create ((TaskSettings.typed_iff hsettings).mpr h) hdepth hpersons ?_
  rintro pipelineCfg rfl htree hbounded
  obtain ⟨rfl, -⟩ := (TaskSettings.typed_iff hsettings).mpr h
  obtain ⟨n, id, rfl, -, hread⟩ := TaskSettings.create_eq_ok hsettings
  have hid : .videoProcessorTask = id := TaskSettings.deserialize_id hread
  subst hid
  obtain ⟨found, hfound, hread⟩ := Proc.except_bind_inv hread
  cases hread
  exact htree (hbounded.pipeline rfl _ (getObject_eq_ok.mp hfound))

/-- Loading a well-typed configuration returns a task of the interface without null pointers, or
throws, or follows branches that are no tree's for as long as the fuel lasts, or the check of a
person's faces for as long as its rounds last. -/
theorem load_ends (fuel : Nat) (h : WellTyped w role cfg) :
    (∃ task, load w fuel cfg = .ok task ∧ task.role = role ∧ task.Complete) ∨
      (∃ e, load w fuel cfg = .error (.thrown e)) ∨
        load w fuel cfg = .error .diverged ∧ ¬Bounded w role cfg fuel := by
  have hends : Safe _ (load w fuel cfg) := safe_load h
  cases hload : load w fuel cfg with
  | ok task => exact .inl ⟨task, rfl, (load_iff hload).mp h⟩
  | error e =>
    rw [hload] at hends
    cases e with
    | thrown e => exact .inr (.inl ⟨e, rfl⟩)
    | diverged => exact .inr (.inr ⟨rfl, hends⟩)
    | nullDeref | terminated => exact hends.elim

/-- The shipped configuration, with fuel to spare. -/
theorem load_ends_detection :
    ∃ task, load detectionWorld 5 (detectionCfg personDetectorCfg) = .ok task ∧
      task.role = .videoProcessor ∧ task.Complete := by
  have htyped := detectionCfg_wellTyped_iff.mpr personDetectorCfg_wellTyped
  obtain ⟨p, hloads⟩ := exists_videoProcessor (x := load detectionWorld 5
    (detectionCfg personDetectorCfg)) (by decide +kernel)
  obtain hok | ⟨e, herror⟩ | ⟨hnone, -⟩ := load_ends 5 htyped
  · exact hok
  · rw [hloads] at herror
    cases herror
  · rw [hloads] at hnone
    cases hnone

end IAbstractTask

end Seekira.Model
