import Seekira.Analysis.SyncOrder

/-!
# Every node is called once

On a tree `initialize` leaves branches that partition the nodes into chains of only
children, and `process` calls all nodes in the order in which its queue visits the
branches.  The one thing that keeps it from calling every node is a node whose task
throws: `process` lets the exception through, and the nodes behind it are not called.
-/

set_option autoImplicit false

namespace Seekira.Model

open Library BasePipeline

section

variable {ι : Type} [LinearOrder ι] {inputNode : ι} {c : PipelineConfig ι}

/-- A branch goes from its id along links to only children. -/
def OnlyChildChain (c : PipelineConfig ι) (b : ι) (l : List ι) : Prop :=
  l.head? = some b ∧ l.IsChain fun a x => c.Link a x ∧ ∀ x', c.Link a x' → x' = x

/-- A branch is a chain of only children. -/
theorem PipelineConfig.WellFormed.onlyChildChain (h : c.WellFormed inputNode) {b : ι} {l : List ι}
    (hl : Chain c.graph (branchIds c.graph) b l) : OnlyChildChain c b l := by
  constructor
  · obtain ⟨rest, rfl⟩ := hl.eq_cons
    rfl
  · apply hl.isChain.imp
    rintro a x ⟨hgo, rest, hchildren⟩
    have hax : x ∈ c.graph.childrenIds a := by simp [hchildren]
    have hlink : c.Link a x := PipelineConfig.mem_children_graph.mp hax
    have honly := only_child_of_not_head (h.link_mem hlink).1 hax hgo
    refine ⟨hlink, fun x' hlink' => ?_⟩
    have hax' : x' ∈ c.graph.childrenIds a := PipelineConfig.mem_children_graph.mpr hlink'
    rw [honly] at hax'
    exact List.mem_singleton.mp hax'

/-- A run of `process` on what `initialize` leaves on a tree. -/
theorem SyncPipeline.process_of_visits {branches : ι → Option (List ι)} (h : c.IsTree inputNode)
    (hbranches : Branches c.graph (branchIds c.graph) (branchIds c.graph) branches)
    {visits : List ι} {fuel : Nat}
    (hvisits : traverse (branchChildren ⟨c.graph, inputNode, branches⟩) fuel [inputNode] =
      some visits) {δ : Type} (tasks : NodeTasks ι δ) (data : δ) :
    process tasks ⟨c.graph, inputNode, branches⟩ fuel data =
      some (runBranches tasks (branchNodes ⟨c.graph, inputNode, branches⟩) visits
        ⟨data, [], []⟩) := by
  have htree := h.branchTree hbranches
  refine processQueue_eq tasks (branchIds c.graph) ?_ htree.mem ?_ hvisits _
  · intro b hb
    obtain ⟨l, last, hl, hchain, hlast, -, -⟩ :=
      PipelineConfig.IsTree.branch_last inputNode hbranches hb
    exact ⟨l, last, hl, hlast, h.chain_mem hb hchain (List.mem_of_getLast? hlast)⟩
  · intro x hx
    rw [List.mem_singleton.mp hx]
    exact htree.root_mem

/-- On a tree `initialize` leaves branches that partition the nodes into chains of only children,
and an order of the branches and of the nodes in which every run of `process` calls the nodes:
all of them, or up to one that throws. -/
theorem SyncPipeline.process_tree (h : c.IsTree inputNode) :
    ∃ p, Leaves inputNode c p ∧ Valid inputNode c p ∧
      (∀ b l, p.branches b = some l → OnlyChildChain c b l) ∧
      ∃ visits order, VisitOrder inputNode c p visits order ∧
        ∀ (δ : Type) (tasks : NodeTasks ι δ) (data : δ) (fuel : Nat), c.nodes.length < fuel →
          ∃ r, process tasks p fuel data = some r ∧ CallsInOrder tasks [] order r ∧
            (r.1 = .ok () → r.2.visited = visits) := by
  obtain ⟨branches, hrun, hbranches⟩ := leaves_of_isTree h le_rfl
  obtain ⟨visits, order, horder, hvisits⟩ := h.exists_visitOrder hbranches
  refine ⟨_, ⟨_, hrun⟩, valid_of_isTree h hbranches, ?_, visits, order, horder, ?_⟩
  · intro b l hl
    exact h.onlyChildChain (hbranches.eq_some hl).2
  · intro δ tasks data fuel hfuel
    refine ⟨_, process_of_visits h hbranches (hvisits fuel hfuel) tasks data, ?_, ?_⟩
    · rw [horder.order_eq]
      exact runBranches_calls tasks _ visits ⟨data, [], []⟩
    · intro hok
      simpa using runBranches_visited (Prod.ext hok rfl)

end

/-! ## A node that throws -/

/-- An exception node behind the input node, with an empty node behind it. -/
def exceptionPipeline : PipelineConfig String where
  nodes := ["input_node", "exception_node_6", "empty_node_7"]
  links := [["input_node", "exception_node_6"], ["exception_node_6", "empty_node_7"]]

/-- SOURCE: proc/pipeline/nodes/exception_node.hpp:30, proc/pipeline/nodes/empty_node.hpp:30 -/
def exceptionTasks (node : String) : Proc Exc Unit Unit :=
  if node = "exception_node_6" then Proc.throw .std else pure ()

/-- The pipeline of the example is a tree. -/
theorem exceptionPipeline_isTree : exceptionPipeline.IsTree "input_node" where
  nodes_nodup := by simp [exceptionPipeline]
  links_nodup := by simp [exceptionPipeline]
  links_ok := by simp [exceptionPipeline, PipelineConfig.LinkOk]
  input_mem := by simp [exceptionPipeline]
  no_parent := by simp [exceptionPipeline, PipelineConfig.Link]
  one_parent := by simp [exceptionPipeline, PipelineConfig.Link]
  reachable := by
    have hfirst : exceptionPipeline.Link "input_node" "exception_node_6" := by
      simp [exceptionPipeline, PipelineConfig.Link]
    have hsecond : exceptionPipeline.Link "exception_node_6" "empty_node_7" := by
      simp [exceptionPipeline, PipelineConfig.Link]
    intro b hb
    have hb : b = "input_node" ∨ b = "exception_node_6" ∨ b = "empty_node_7" := by
      simpa [exceptionPipeline] using hb
    rcases hb with rfl | rfl | rfl
    · exact .refl
    · exact .single hfirst
    · exact (Relation.ReflTransGen.single hfirst).tail hsecond

/-- A pipeline the second node of which throws. -/
theorem process_tree_exceptionPipeline :
    ∃ p, Leaves "input_node" exceptionPipeline p ∧ ∃ visits order,
      VisitOrder "input_node" exceptionPipeline p visits order ∧
        ∃ r, SyncPipeline.process exceptionTasks p 4 () = some r ∧
          CallsInOrder exceptionTasks [] order r := by
  obtain ⟨p, hleaves, -, -, visits, order, horder, hprocess⟩ :=
    SyncPipeline.process_tree exceptionPipeline_isTree
  obtain ⟨r, hr, hcalls, -⟩ := hprocess Unit exceptionTasks () 4 (by decide)
  exact ⟨p, hleaves, visits, order, horder, r, hr, hcalls⟩

/-- The nodes behind it are not called. -/
theorem exceptionPipeline_run :
    (initializePipeline "input_node" 3 exceptionPipeline).map (fun result =>
      result.toOption.map fun p => SyncPipeline.process exceptionTasks p 3 ()) =
    some (some (some (.error (.task .std), ⟨(), ["input_node"],
      [("input_node", ()), ("exception_node_6", ())]⟩))) := by
  decide +kernel

/-- The links of `exceptionPipeline` form a tree, and no run of `process` calls each of its nodes
once. -/
theorem process_exception :
    exceptionPipeline.IsTree "input_node" ∧
      ¬∀ p, Leaves "input_node" exceptionPipeline p → ∃ fuel r,
        SyncPipeline.process exceptionTasks p fuel () = some r ∧
          ∀ x ∈ exceptionPipeline.nodes, (r.2.calls.map Prod.fst).count x = 1 := by
  refine ⟨exceptionPipeline_isTree, fun hclaim => ?_⟩
  obtain ⟨branches, hinit, -⟩ :=
    leaves_of_isTree exceptionPipeline_isTree (le_refl exceptionPipeline.nodes.length)
  have hrun := exceptionPipeline_run
  have hthree : exceptionPipeline.nodes.length = 3 := rfl
  rw [hthree] at hinit
  simp only [hinit, Option.map_some, Except.toOption, Option.some.injEq] at hrun
  obtain ⟨fuel, r, hr, honce⟩ := hclaim _ ⟨_, hinit⟩
  obtain rfl := SyncPipeline.process_unique hr hrun
  have hcount := honce "empty_node_7" (by simp [exceptionPipeline])
  simp at hcount

end Seekira.Model
