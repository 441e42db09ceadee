import Mathlib.Data.String.Basic
import Seekira.Analysis.PipelineTrees

/-!
# What `initialize` accepts

`initialize` asks for a graph with `one_parent` set, and then never looks at that
setting: `is_valid` has no caller.  A configuration is rejected exactly when an assert
fails, and among the others only those whose links form a tree rooted at the input node
leave a valid pipeline.
-/

set_option autoImplicit false

namespace Seekira.Model

open Library

namespace BasePipeline

section

variable {ι : Type} [LinearOrder ι] {inputNode : ι} {c : PipelineConfig ι}

/-- `initialize` throws. -/
def Throws (inputNode : ι) (c : PipelineConfig ι) : Prop :=
  ∃ fuel e, initializePipeline inputNode fuel c = some (.error e)

/-- `initialize` terminates and leaves the pipeline `p`. -/
def Leaves (inputNode : ι) (c : PipelineConfig ι) (p : BasePipeline ι) : Prop :=
  ∃ fuel, initializePipeline inputNode fuel c = some (.ok p)

/-- What a pipeline promises about the configuration it was initialized with. -/
structure Valid (inputNode : ι) (c : PipelineConfig ι) (p : BasePipeline ι) : Prop where
  one_branch : ∀ x ∈ c.nodes, ∃ b l, p.branches b = some l ∧ l.count x = 1 ∧
    ∀ b' l', p.branches b' = some l' → x ∈ l' → b' = b
  reachable : ∀ x ∈ c.nodes, Relation.ReflTransGen c.Link inputNode x
  acyclic : ∀ x, ¬Relation.TransGen c.Link x x
  one_parent : ∀ a b x, c.Link a x → c.Link b x → a = b

/-- An assert that fails makes `initialize` throw. -/
theorem throws_of_not_wellFormed (h : ¬c.WellFormed inputNode) : Throws inputNode c := by
  rcases hbuild : buildGraph c with e | g
  · exact ⟨0, e, by simp only [initializePipeline, hbuild]⟩
  · obtain ⟨hnodes, hlinks, hok, rfl⟩ := buildGraph_eq_ok.mp hbuild
    have hinput : (graphOf c.nodes c.links).getNode inputNode = .error (.noNode inputNode) :=
      if_neg fun hmem => h ⟨hnodes, hlinks, hok, hmem⟩
    exact ⟨0, .noNode inputNode, by simp only [initializePipeline, hbuild, hinput]⟩

/-- A configuration that passes the asserts never makes `initialize` throw. -/
theorem not_throws_of_wellFormed (h : c.WellFormed inputNode) : ¬Throws inputNode c := by
  rintro ⟨fuel, e, hrun⟩
  obtain ⟨branches, hok, -⟩ := h.initializePipeline_eq_some hrun
  cases hok

/-- On a tree `initialize` terminates. -/
theorem leaves_of_isTree (h : c.IsTree inputNode) {fuel : Nat} (hfuel : c.nodes.length ≤ fuel) :
    ∃ branches, initializePipeline inputNode fuel c = some (.ok ⟨c.graph, inputNode, branches⟩) ∧
      Branches c.graph (branchIds c.graph) (branchIds c.graph) branches := by
  have hchains : ∀ id ∈ branchIds c.graph, ∃ l, Chain c.graph (branchIds c.graph) id l ∧
      l.length ≤ fuel := by
    intro id hid
    obtain ⟨l, hchain, hlength⟩ := h.exists_chain (branchIds c.graph) (h.branchIds_mem id hid)
    exact ⟨l, hchain, hlength.trans hfuel⟩
  obtain ⟨r, hrun⟩ := h.initializePipeline_of_chains hchains
  obtain ⟨branches, rfl, hbranches⟩ := h.initializePipeline_eq_some hrun
  exact ⟨branches, hrun, hbranches⟩

/-- The branches are exactly the chains from the branch ids. -/
theorem Branches.eq_some {g : BaseGraph ι} {heads : List ι} {branches : ι → Option (List ι)}
    (h : Branches g heads heads branches) {b : ι} {l : List ι} (hl : branches b = some l) :
    b ∈ heads ∧ Chain g heads b l := by
  have hb : b ∈ heads := by
    by_contra hout
    rw [(h b).2 hout] at hl
    cases hl
  obtain ⟨l', hl', hchain⟩ := (h b).1 hb
  rw [hl] at hl'
  cases hl'
  exact ⟨hb, hchain⟩

/-- What `initialize` leaves on a tree is valid. -/
theorem valid_of_isTree (h : c.IsTree inputNode) {branches : ι → Option (List ι)}
    (hbranches : Branches c.graph (branchIds c.graph) (branchIds c.graph) branches) :
    Valid inputNode c ⟨c.graph, inputNode, branches⟩ where
  one_branch := by
    intro x hx
    obtain ⟨b, hb, l, hchain, hxl⟩ := h.exists_chain_mem hx
    obtain ⟨l₁, hl₁, hchain₁⟩ := (hbranches b).1 hb
    obtain rfl := hchain.unique hchain₁
    refine ⟨b, l, hl₁, List.count_eq_one_of_mem (h.chain_nodup hchain) hxl, ?_⟩
    intro b' l' hl' hxl'
    obtain ⟨hb', hchain'⟩ := hbranches.eq_some hl'
    exact h.chain_unique hb' hb hchain' hchain hx hxl' hxl
  reachable := h.reachable
  acyclic := by
    intro x hcycle
    refine h.rootedTree.acyclic x (Relation.TransGen.mono ?_ _ _ hcycle)
    intro a b hlink
    exact PipelineConfig.mem_children_graph.mpr hlink
  one_parent := fun _ _ _ ha hb => h.link_unique ha hb

/-- The links under a valid pipeline form a tree. -/
theorem Valid.isTree {p : BasePipeline ι} (h : Valid inputNode c p)
    (hwf : c.WellFormed inputNode) : c.IsTree inputNode where
  toWellFormed := hwf
  no_parent := by
    intro a ha
    exact h.acyclic inputNode (Relation.TransGen.tail' (h.reachable a (hwf.link_mem ha).1) ha)
  one_parent := by
    intro b hb hne
    rcases Relation.ReflTransGen.cases_tail (h.reachable b hb) with heq | ⟨a, -, ha⟩
    · exact absurd heq hne
    · exact ⟨a, ha, fun a' ha' => h.one_parent a' a b ha' ha⟩
  reachable := h.reachable

/-- `initialize` throws or leaves a valid pipeline exactly when an assert fails or the links form
a tree rooted at the input node. -/
theorem initialize_valid_iff (inputNode : ι) (c : PipelineConfig ι) :
    (Throws inputNode c ∨ ∃ p, Leaves inputNode c p ∧ Valid inputNode c p) ↔
      (¬c.WellFormed inputNode ∨ c.IsTree inputNode) := by
  constructor
  · rintro (hthrows | ⟨p, -, hvalid⟩)
    · exact .inl fun hwf => not_throws_of_wellFormed hwf hthrows
    · by_cases hwf : c.WellFormed inputNode
      · exact .inr (hvalid.isTree hwf)
      · exact .inl hwf
  · rintro (hwf | htree)
    · exact .inl (throws_of_not_wellFormed hwf)
    · obtain ⟨branches, hrun, hbranches⟩ := leaves_of_isTree htree le_rfl
      exact .inr ⟨_, ⟨_, hrun⟩, valid_of_isTree htree hbranches⟩

end

/-! ## A loop -/

/-- The links of `loop_pipeline.json`: two nodes below the input node lead to each other.
SOURCE: tests/proc/pipeline/invalid_frame_pipeline_tests/data/loop_pipeline.json -/
def loopPipeline : PipelineConfig String where
  nodes := ["input_node", "empty_node_1", "empty_node_2"]
  links := [["input_node", "empty_node_1"], ["empty_node_1", "empty_node_2"],
    ["empty_node_2", "empty_node_1"]]

theorem loopPipeline_wellFormed : loopPipeline.WellFormed "input_node" where
  nodes_nodup := by simp [loopPipeline]
  links_nodup := by simp [loopPipeline]
  links_ok := by simp [loopPipeline, PipelineConfig.LinkOk]
  input_mem := by simp [loopPipeline]

/-- Each node has one child: the input node leads into the loop, and the loop goes round. -/
theorem loopPipeline_children {x : String} (hx : x ∈ loopPipeline.nodes) :
    ∃ y ∈ loopPipeline.nodes, loopPipeline.graph.childrenIds x = [y] ∧ y ≠ "input_node" := by
  have hx : x = "input_node" ∨ x = "empty_node_1" ∨ x = "empty_node_2" := by
    simpa [loopPipeline] using hx
  rcases hx with rfl | rfl | rfl
  · exact ⟨"empty_node_1", by simp [loopPipeline],
      by simp [PipelineConfig.graph, graphOf, loopPipeline], by simp⟩
  · exact ⟨"empty_node_2", by simp [loopPipeline],
      by simp [PipelineConfig.graph, graphOf, loopPipeline], by simp⟩
  · exact ⟨"empty_node_1", by simp [loopPipeline],
      by simp [PipelineConfig.graph, graphOf, loopPipeline], by simp⟩

/-- Only the input node starts a branch: every other node has a parent, and no node forks. -/
theorem loopPipeline_branchIds {y : String} (hy : y ∈ branchIds loopPipeline.graph) :
    y = "input_node" := by
  rcases mem_branchIds.mp hy with ⟨hmem, hparents⟩ | ⟨a, ha, hlong, -⟩
  · have hmem : y = "input_node" ∨ y = "empty_node_1" ∨ y = "empty_node_2" := by
      simpa [PipelineConfig.graph, graphOf, loopPipeline] using hmem
    rcases hmem with rfl | rfl | rfl
    · rfl
    · simp [PipelineConfig.graph, graphOf, loopPipeline] at hparents
    · simp [PipelineConfig.graph, graphOf, loopPipeline] at hparents
  · obtain ⟨z, -, hchildren, -⟩ := loopPipeline_children ha
    rw [hchildren, List.length_singleton] at hlong
    omega

/-- `initialize` never comes to an end on the loop. -/
theorem loopPipeline_runs_forever (fuel : Nat) :
    initializePipeline "input_node" fuel loopPipeline = none := by
  rcases hrun : initializePipeline "input_node" fuel loopPipeline with _ | r
  · rfl
  · obtain ⟨branches, -, hbranches⟩ := loopPipeline_wellFormed.initializePipeline_eq_some hrun
    have hinput : "input_node" ∈ branchIds loopPipeline.graph :=
      mem_branchIds.mpr (.inl ⟨loopPipeline_wellFormed.input_mem,
        by simp [PipelineConfig.graph, graphOf, loopPipeline]⟩)
    obtain ⟨l, -, hchain⟩ := (hbranches "input_node").1 hinput
    refine absurd hchain (Chain.not_of_endless (S := fun x => x ∈ loopPipeline.nodes) ?_
      loopPipeline_wellFormed.input_mem)
    intro x hx
    obtain ⟨y, hy, hchildren, hne⟩ := loopPipeline_children hx
    exact ⟨y, [], hchildren, fun hhead => hne (loopPipeline_branchIds hhead), hy⟩

/-- On the loop `initialize` neither throws nor leaves a valid pipeline. -/
theorem initialize_loop :
    ¬(Throws "input_node" loopPipeline ∨
      ∃ p, Leaves "input_node" loopPipeline p ∧ Valid "input_node" loopPipeline p) := by
  rintro (⟨fuel, e, hrun⟩ | ⟨p, ⟨fuel, hrun⟩, -⟩)
  · rw [loopPipeline_runs_forever] at hrun
    cases hrun
  · rw [loopPipeline_runs_forever] at hrun
    cases hrun

end BasePipeline

end Seekira.Model
