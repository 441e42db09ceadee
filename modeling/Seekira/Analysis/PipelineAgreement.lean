import Seekira.Analysis.AsyncData
import Seekira.Analysis.SyncCalls
import Seekira.Analysis.SyncData

/-!
# The synchronous and the asynchronous pipeline on the same tasks

Both pipelines run the same branches of the same tree.  The asynchronous one calls every
node on the data of its own path.  The synchronous one does so exactly when each node
leaves behind what the node called next needs, which a fork with a task that changes the
data breaks.
-/

set_option autoImplicit false

namespace Seekira.Model

open Library BasePipeline

variable {ι δ : Type}

/-- The nodes in the order in which the queue of `process` comes to them. -/
def BasePipeline.callOrder (p : BasePipeline ι) : List ι :=
  ((traverse p.branchChildren (p.graph.ids.length + 1) [p.root]).getD []).flatMap p.branchNodes

/-- What the tasks of branch `b` make of the data. -/
def BasePipeline.branchWork (f : ι → δ → δ) (p : BasePipeline ι) (b : ι) (d : δ) : δ :=
  (p.branchNodes b).foldl (fun d node => f node d) d

/-- The asynchronous pipeline `T` runs the branches of `p`. -/
structure RunsBranchesOf (p : BasePipeline ι) (T : BranchTree ι) : Prop where
  root_eq : T.root = p.root
  mem_ids : ∀ b, b ∈ T.ids ↔ (p.branches b).isSome
  children_eq : T.childrenIds = p.branchChildren

/-- `process` calls every node on the data of its own path. -/
def SyncAgrees [DecidableEq ι] (inputNode : ι) (c : PipelineConfig ι) (f : ι → δ → δ)
    (p : BasePipeline ι) (d : δ) : Prop :=
  ∃ fuel r, SyncPipeline.process (functionTasks f) p fuel d = some r ∧
    ∀ call ∈ r.2.calls, PathData inputNode c f d call.1 call.2

/-- In every run of `AsyncPipeline`, every node of a branch that took an item is called on the data
of its own path, for the accepted input the item comes from. -/
def AsyncAgrees [DecidableEq ι] (inputNode : ι) (c : PipelineConfig ι) (f : ι → δ → δ)
    (p : BasePipeline ι) : Prop :=
  ∀ T, RunsBranchesOf p T → ∀ policy (tr : List (AsyncPipeline ι δ × AsyncLabel ι δ)) s,
    (AsyncPipeline.machine policy T).Run tr s →
    (∀ q ∈ tr, AsyncPipeline.Computes (p.branchWork f) q.1 q.2) →
    ∀ b, ∀ x ∈ s.taken b, ∀ front node back, p.branchNodes b = front ++ node :: back →
      ∃ d, s.accepted[x.input]? = some ⟨x.input, d⟩ ∧
        PathData inputNode c f d node (front.foldl (fun d node => f node d) x.data)

/-! ## Along a branch -/

section Path

variable {inputNode : ι} {c : PipelineConfig ι} {f : ι → δ → δ} {d x : δ}

/-- Along a branch every node turns the data of its path into that of the next one. -/
theorem PathData.along {l : List ι} (hl : l.IsChain c.Link)
    (hhead : ∀ b ∈ l.head?, PathData inputNode c f d b x) {front back : List ι} {node : ι}
    (hsplit : l = front ++ node :: back) :
    PathData inputNode c f d node (front.foldl (fun d node => f node d) x) := by
  induction front generalizing l x with
  | nil =>
    rw [hsplit] at hhead
    exact hhead node rfl
  | cons a front ih =>
    rcases hrest : front ++ node :: back with _ | ⟨y, rest⟩
    · simp at hrest
    · rw [List.cons_append, hrest] at hsplit
      rw [hsplit] at hl hhead
      have ha : PathData inputNode c f d a x := hhead a rfl
      refine ih hl.of_cons (fun b hb => ?_) hrest.symm
      cases hb
      exact ha.link (List.isChain_cons_cons.mp hl).1

/-- What a branch makes of the data of its path is the data of what leads on from it. -/
theorem PathData.across {l : List ι} (hl : l.IsChain c.Link)
    (hhead : ∀ b ∈ l.head?, PathData inputNode c f d b x) {last b : ι}
    (hlast : l.getLast? = some last) (hlink : c.Link last b) :
    PathData inputNode c f d b (l.foldl (fun d node => f node d) x) := by
  obtain ⟨front, rfl⟩ := List.getLast?_eq_some_iff.mp hlast
  have hsplit : front ++ [last] = front ++ last :: [] := rfl
  have hnode := PathData.along hl hhead hsplit
  rw [List.foldl_append]
  exact hnode.link hlink

end Path

/-! ## The two pipelines on a tree -/

section Trees

variable [LinearOrder ι] {inputNode : ι} {c : PipelineConfig ι} {p : BasePipeline ι}

/-- What `initialize` leaves on a tree. -/
theorem BasePipeline.Leaves.branches (h : c.IsTree inputNode) (hp : Leaves inputNode c p) :
    ∃ branches, p = ⟨c.graph, inputNode, branches⟩ ∧
      Branches c.graph (branchIds c.graph) (branchIds c.graph) branches := by
  obtain ⟨fuel, hrun⟩ := hp
  obtain ⟨branches, heq, hbranches⟩ := h.initializePipeline_eq_some hrun
  cases heq
  exact ⟨branches, rfl, hbranches⟩

/-- The branches of a tree can be run asynchronously, whatever the order in which the maps of
branches and of threads are walked through. -/
theorem exists_runsBranchesOf (h : c.IsTree inputNode) (hp : Leaves inputNode c p)
    {ids threadIds : List ι} (hids : ids.Perm (branchIds c.graph)) (hthreads : threadIds.Perm ids) :
    ∃ T, RunsBranchesOf p T ∧ T.ids = ids ∧ T.threadIds = threadIds := by
  obtain ⟨branches, rfl, hbranches⟩ := hp.branches h
  have htree := h.branchTree hbranches
  obtain ⟨depth, hdepth⟩ := htree.exists_depth
  have hparent : ∀ x ∈ ids, x = inputNode ∨
      ∃ b ∈ ids, x ∈ branchChildren ⟨c.graph, inputNode, branches⟩ b := by
    intro x hx
    rcases Relation.ReflTransGen.cases_tail (htree.reachable x (hids.mem_iff.mp hx)) with
      heq | ⟨b, -, hxb⟩
    · exact .inl heq
    · exact .inr ⟨b, hids.mem_iff.mpr (PipelineConfig.IsTree.mem_branchChildren hbranches hxb).1, hxb⟩
  refine ⟨⟨inputNode, ids, threadIds, branchChildren ⟨c.graph, inputNode, branches⟩,
    hids.nodup_iff.mpr (branchIds_nodup c.graph), hthreads, hids.mem_iff.mpr htree.root_mem,
    fun b x hx => hids.mem_iff.mpr (htree.mem b x hx), h.branchChildren_length_ne_one hbranches,
    htree.root_not_kid, htree.parent_unique, hparent, depth, hdepth⟩, ⟨rfl, fun b => ?_, rfl⟩, rfl, rfl⟩
  constructor
  · intro hb
    obtain ⟨l, hl, -⟩ := (hbranches b).1 (hids.mem_iff.mp hb)
    simp [hl]
  · intro hsome
    obtain ⟨l, hl⟩ := Option.isSome_iff_exists.mp hsome
    exact hids.mem_iff.mpr (hbranches.eq_some hl).1

/-- The input of a branch is the data of the path of its first node. -/
theorem pathData_of_branchInput (h : c.IsTree inputNode) (hp : Leaves inputNode c p)
    {T : BranchTree ι} (hT : RunsBranchesOf p T) {f : ι → δ → δ} {d x : δ} {b : ι}
    (hx : AsyncPipeline.BranchInput T (p.branchWork f) d b x) : PathData inputNode c f d b x := by
  obtain ⟨branches, rfl, hbranches⟩ := hp.branches h
  induction hx with
  | root =>
    rw [hT.root_eq]
    exact .input
  | @child b c' x _ hchild ih =>
    rw [hT.children_eq] at hchild
    obtain ⟨-, l, last, hl, hchain, hlast, -, hlastc⟩ :=
      PipelineConfig.IsTree.mem_branchChildren hbranches hchild
    have hnodes : branchNodes ⟨c.graph, inputNode, branches⟩ b = l := by simp [branchNodes, hl]
    obtain ⟨hhead, hlinks⟩ := h.onlyChildChain hchain
    have hfirst : ∀ a ∈ l.head?, PathData inputNode c f d a x := by
      intro a ha
      rw [hhead] at ha
      cases ha
      exact ih
    have hdone := PathData.across (hlinks.imp fun _ _ hlink => hlink.1) hfirst hlast
      (PipelineConfig.mem_children_graph.mp hlastc)
    rw [← hnodes] at hdone
    exact hdone

/-- The asynchronous pipeline calls every node on the data of its own path. -/
theorem asyncAgrees_of_isTree (h : c.IsTree inputNode) (hp : Leaves inputNode c p)
    (f : ι → δ → δ) : AsyncAgrees inputNode c f p := by
  intro T hT policy tr s hrun hcomputes b x hx front node back hsplit
  obtain ⟨d, hd, hinput⟩ := AsyncPipeline.taken_branchInput hrun hcomputes hx
  refine ⟨d, hd, ?_⟩
  have hpath := pathData_of_branchInput h hp hT hinput
  obtain ⟨branches, rfl, hbranches⟩ := hp.branches h
  rcases hl : branches b with _ | l
  · simp [branchNodes, hl] at hsplit
  · have hnodes : branchNodes ⟨c.graph, inputNode, branches⟩ b = l := by simp [branchNodes, hl]
    rw [hnodes] at hsplit
    obtain ⟨hhead, hlinks⟩ := h.onlyChildChain (hbranches.eq_some hl).2
    refine PathData.along (hlinks.imp fun _ _ hlink => hlink.1) ?_ hsplit
    intro a ha
    rw [hhead] at ha
    cases ha
    exact hpath

/-- The calls of `process` are those on one object, in the order of the queue. -/
theorem process_functionTasks (h : c.IsTree inputNode) (hp : Leaves inputNode c p)
    (f : ι → δ → δ) (d : δ) :
    ∃ fuel r, SyncPipeline.process (functionTasks f) p fuel d = some r ∧
      r.2.calls = callsOnOne f p.callOrder d ∧ ∃ rest, p.callOrder = inputNode :: rest := by
  obtain ⟨branches, rfl, hbranches⟩ := hp.branches h
  obtain ⟨visits, order, -, hvisits⟩ := h.exists_visitOrder hbranches
  have hvisits := hvisits (c.nodes.length + 1) (Nat.lt_succ_self _)
  have horder : callOrder ⟨c.graph, inputNode, branches⟩ =
      visits.flatMap (branchNodes ⟨c.graph, inputNode, branches⟩) := by
    unfold callOrder
    have hlength : c.graph.ids.length + 1 = c.nodes.length + 1 := rfl
    rw [hlength, hvisits, Option.getD_some]
  refine ⟨_, _, SyncPipeline.process_of_visits h hbranches hvisits (functionTasks f) d, ?_, ?_⟩
  · rw [SyncPipeline.runBranches_functionTasks, horder]
    rfl
  · -- the queue starts with the branch of the input node
    obtain ⟨others, -, rfl⟩ := Option.map_eq_some_iff.mp hvisits
    obtain ⟨l, hl, hchain⟩ := (hbranches inputNode).1 h.input_mem_branchIds
    obtain ⟨rest, rfl⟩ := hchain.eq_cons
    have hnodes : branchNodes ⟨c.graph, inputNode, branches⟩ inputNode = inputNode :: rest := by
      simp [branchNodes, hl]
    rw [horder, List.flatMap_cons, hnodes, List.cons_append]
    exact ⟨_, rfl⟩

/-- Every node of a tree is called on the data of its own path by `AsyncPipeline`, and by
`SyncPipeline` exactly when each node leaves its own path's data as the node called next needs
it. -/
theorem sync_agrees_iff (h : c.IsTree inputNode) (hp : Leaves inputNode c p) (f : ι → δ → δ)
    (d : δ) :
    AsyncAgrees inputNode c f p ∧
      (SyncAgrees inputNode c f p d ↔ p.callOrder.IsChain fun a b =>
        ∀ y, PathData inputNode c f d a y → PathData inputNode c f d b (f a y)) := by
  refine ⟨asyncAgrees_of_isTree h hp f, ?_⟩
  obtain ⟨fuel, r, hr, hcalls, rest, horder⟩ := process_functionTasks h hp f d
  have hinput : PathData inputNode c f d inputNode d := .input
  have hiff : (∀ call ∈ callsOnOne f (inputNode :: rest) d, PathData inputNode c f d call.1 call.2) ↔ _ :=
    callsOnOne_pathData_iff h hinput
  rw [← horder] at hiff
  rw [← hiff, ← hcalls]
  constructor
  · rintro ⟨fuel', r', hr', hall⟩
    obtain rfl := SyncPipeline.process_unique hr hr'
    exact hall
  · intro hall
    exact ⟨fuel, r, hr, hall⟩

end Trees

/-! ## A fork with a resizer -/

/-- A resizer and a detector, both below the input node. -/
def resizerPipeline : PipelineConfig String where
  nodes := ["input_node", "resizer_node_1", "face_detection_node_2"]
  links := [["input_node", "resizer_node_1"], ["input_node", "face_detection_node_2"]]

/-- The resizer halves the width of the frame; the other nodes leave it. -/
def resizerTasks (node : String) (width : Nat) : Nat :=
  if node = "resizer_node_1" then width / 2 else width

/-- The pipeline of the example is a tree. -/
theorem resizerPipeline_isTree : resizerPipeline.IsTree "input_node" where
  nodes_nodup := by simp [resizerPipeline]
  links_nodup := by simp [resizerPipeline]
  links_ok := by simp [resizerPipeline, PipelineConfig.LinkOk]
  input_mem := by simp [resizerPipeline]
  no_parent := by simp [resizerPipeline, PipelineConfig.Link]
  one_parent := by simp [resizerPipeline, PipelineConfig.Link]
  reachable := by
    have hresizer : resizerPipeline.Link "input_node" "resizer_node_1" := by
      simp [resizerPipeline, PipelineConfig.Link]
    have hdetector : resizerPipeline.Link "input_node" "face_detection_node_2" := by
      simp [resizerPipeline, PipelineConfig.Link]
    intro b hb
    have hb : b = "input_node" ∨ b = "resizer_node_1" ∨ b = "face_detection_node_2" := by
      simpa [resizerPipeline] using hb
    rcases hb with rfl | rfl | rfl
    · exact .refl
    · exact .single hresizer
    · exact .single hdetector

/-- A resizer and a detector below the input node. -/
theorem sync_agrees_resizerPipeline :
    ∃ p, Leaves "input_node" resizerPipeline p ∧
      AsyncAgrees "input_node" resizerPipeline resizerTasks p := by
  obtain ⟨branches, hrun, -⟩ := leaves_of_isTree resizerPipeline_isTree le_rfl
  exact ⟨_, ⟨_, hrun⟩, (sync_agrees_iff resizerPipeline_isTree ⟨_, hrun⟩ resizerTasks 640).1⟩

/-- Each of the three nodes is called once. -/
theorem resizerPipeline_run :
    (initializePipeline "input_node" 3 resizerPipeline).map (fun result =>
      result.toOption.map fun p =>
        (SyncPipeline.process (functionTasks resizerTasks) p 4 640).map fun r => r.2.calls) =
    some (some (some [("input_node", 640), ("resizer_node_1", 640),
      ("face_detection_node_2", 320)])) := by
  decide +kernel

/-- The detector of the synchronous pipeline is called on the resized frame. -/
theorem sync_disagrees :
    resizerPipeline.IsTree "input_node" ∧
      ∃ p, Leaves "input_node" resizerPipeline p ∧
        ¬SyncAgrees "input_node" resizerPipeline resizerTasks p 640 := by
  obtain ⟨branches, hinit, -⟩ :=
    leaves_of_isTree resizerPipeline_isTree (le_refl resizerPipeline.nodes.length)
  refine ⟨resizerPipeline_isTree, _, ⟨_, hinit⟩, ?_⟩
  rintro ⟨fuel, r, hr, hall⟩
  have hrun := resizerPipeline_run
  have hthree : resizerPipeline.nodes.length = 3 := rfl
  rw [hthree] at hinit
  simp only [hinit, Option.map_some, Except.toOption, Option.some.injEq] at hrun
  obtain ⟨r', hr', hcalls⟩ := Option.map_eq_some_iff.mp hrun
  obtain rfl := SyncPipeline.process_unique hr hr'
  have hcall : PathData "input_node" resizerPipeline resizerTasks 640 "face_detection_node_2" 320 :=
    hall ("face_detection_node_2", 320) (by simp [hcalls])
  have hlink : resizerPipeline.Link "input_node" "face_detection_node_2" := by
    simp [resizerPipeline, PipelineConfig.Link]
  have hpath : PathData "input_node" resizerPipeline resizerTasks 640 "face_detection_node_2"
      (resizerTasks "input_node" 640) := PathData.input.link hlink
  have heq := hcall.unique resizerPipeline_isTree hpath
  simp [resizerTasks] at heq

end Seekira.Model
