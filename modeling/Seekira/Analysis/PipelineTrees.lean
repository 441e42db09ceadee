import Seekira.Analysis.PipelineBranches

/-!
# Pipelines whose links form a tree

A configuration that passes the asserts of `deserialize` makes `initialize` end with
branches or not end at all.  When its links form a tree rooted at the input node, the
branches partition the nodes.  `initialize` does not check that the links form a tree:
on any other configuration that passes the asserts it runs forever or leaves a pipeline
that breaks what a pipeline promises.
-/

set_option autoImplicit false

namespace Seekira.Model

open Library

variable {ι : Type} [LinearOrder ι] {inputNode : ι} {c : PipelineConfig ι}

namespace BasePipeline

/-! ## The starts of the branches -/

/-- Branches start at nodes without parents and at the children of nodes with several. -/
theorem mem_branchIds {g : BaseGraph ι} {x : ι} :
    x ∈ branchIds g ↔ (x ∈ g.ids ∧ g.parentsIds x = []) ∨
      ∃ a ∈ g.ids, 1 < (g.childrenIds a).length ∧ x ∈ g.childrenIds a := by
  simp only [branchIds, List.mem_insertionSort, List.mem_dedup, List.mem_append,
    BaseGraph.nodesWithoutParents, BaseGraph.nodesWithChildren, List.mem_filter, List.mem_flatMap,
    List.isEmpty_iff, decide_eq_true_eq, and_assoc]

theorem branchIds_nodup (g : BaseGraph ι) : (branchIds g).Nodup :=
  (List.perm_insertionSort _ _).nodup_iff.mpr (List.nodup_dedup _)

/-- A node that starts no branch is the only child of each of its parents. -/
theorem only_child_of_not_head {g : BaseGraph ι} {a x : ι} (ha : a ∈ g.ids)
    (hx : x ∈ g.childrenIds a) (hhead : x ∉ branchIds g) : g.childrenIds a = [x] := by
  have hshort : ¬1 < (g.childrenIds a).length := fun hlong =>
    hhead (mem_branchIds.mpr (.inr ⟨a, ha, hlong, hx⟩))
  rcases hchildren : g.childrenIds a with _ | ⟨y, rest⟩
  · rw [hchildren] at hx
    cases hx
  · rw [hchildren] at hx hshort
    rcases rest with _ | ⟨z, rest⟩
    · rw [List.mem_singleton.mp hx]
    · simp at hshort

/-- From every node there is a chain, or a list of links as long as one likes. -/
theorem chain_or_path {g : BaseGraph ι} (hmem : ∀ a b, b ∈ g.childrenIds a → b ∈ g.ids)
    (heads : List ι) (n : Nat) {x : ι} (hx : x ∈ g.ids) :
    (∃ l, Chain g heads x l ∧ l.length ≤ n) ∨
      ∃ path : List ι, path.length = n ∧ (x :: path).IsChain (fun a b => b ∈ g.childrenIds a) ∧
        ∀ y ∈ x :: path, y ∈ g.ids := by
  induction n generalizing x with
  | zero => exact .inr ⟨[], rfl, .singleton _, by simpa using hx⟩
  | succ n ih =>
    rcases hchildren : g.childrenIds x with _ | ⟨y, rest⟩
    · exact .inl ⟨[x], .leaf hchildren, by simp⟩
    · by_cases hhead : y ∈ heads
      · exact .inl ⟨[x], .stop hchildren hhead, by simp⟩
      · have hxy : y ∈ g.childrenIds x := by simp [hchildren]
        rcases ih (hmem x y hxy) with ⟨l, hchain, hlength⟩ | ⟨path, hlength, hpath, hids⟩
        · exact .inl ⟨x :: l, .next hchildren hhead hchain, by simpa using hlength⟩
        · refine .inr ⟨y :: path, by simpa using hlength, ?_, List.forall_mem_cons.mpr ⟨hx, hids⟩⟩
          exact List.isChain_cons_cons.mpr ⟨hxy, hpath⟩

end BasePipeline

open BasePipeline

namespace PipelineConfig

/-- The graph that `deserialize` builds. -/
def graph (c : PipelineConfig ι) : BaseGraph ι := graphOf c.nodes c.links

theorem mem_children_graph {a b : ι} : b ∈ c.graph.childrenIds a ↔ c.Link a b := mem_childrenIds

namespace WellFormed

theorem children_mem (h : c.WellFormed inputNode) (a b : ι) (hb : b ∈ c.graph.childrenIds a) :
    b ∈ c.graph.ids :=
  (h.link_mem (mem_children_graph.mp hb)).2

theorem branchIds_mem (h : c.WellFormed inputNode) (x : ι) (hx : x ∈ branchIds c.graph) :
    x ∈ c.graph.ids := by
  rcases mem_branchIds.mp hx with ⟨hmem, -⟩ | ⟨a, -, -, hchild⟩
  · exact hmem
  · exact h.children_mem a x hchild

/-- The nodes of a branch are configured nodes. -/
theorem chain_mem (h : c.WellFormed inputNode) {heads l : List ι} {b x : ι}
    (hb : b ∈ branchIds c.graph) (hl : Chain c.graph heads b l) (hx : x ∈ l) : x ∈ c.nodes := by
  rcases hl.parent_mem hx with rfl | ⟨-, a, -, rest, hchildren⟩
  · exact h.branchIds_mem x hb
  · exact h.children_mem a x (by simp [hchildren])

/-- When `initialize` ends on a configuration that passes the asserts, it leaves the configured
graph, rooted at the input node, with one branch for every branch id. -/
theorem initializePipeline_eq_some (h : c.WellFormed inputNode) {fuel : Nat}
    {r : Except (PipelineError ι) (BasePipeline ι)}
    (hrun : initializePipeline inputNode fuel c = some r) :
    ∃ branches, r = .ok ⟨c.graph, inputNode, branches⟩ ∧
      Branches c.graph (branchIds c.graph) (branchIds c.graph) branches := by
  have hbuild : buildGraph c = .ok c.graph :=
    buildGraph_eq_ok.mpr ⟨h.nodes_nodup, h.links_nodup, h.links_ok, rfl⟩
  have hroot : inputNode ∈ c.graph.ids := h.input_mem
  simp only [initializePipeline, hbuild, getNode_of_mem hroot] at hrun
  rcases hinit : initBranches fuel c.graph with _ | r₁
  · rw [hinit] at hrun
    cases hrun
  · obtain ⟨branches, rfl, hbranches⟩ := initEach_eq_some h.children_mem
      (by simpa using branchIds_nodup c.graph) h.branchIds_mem (Branches.nil _ _) hinit
    rw [hinit] at hrun
    cases hrun
    exact ⟨branches, rfl, by simpa using hbranches⟩

/-- `initialize` ends when the chain from every branch id does. -/
theorem initializePipeline_of_chains (h : c.WellFormed inputNode) {fuel : Nat}
    (hchains : ∀ id ∈ branchIds c.graph, ∃ l, Chain c.graph (branchIds c.graph) id l ∧
      l.length ≤ fuel) :
    ∃ r, initializePipeline inputNode fuel c = some r := by
  have hbuild : buildGraph c = .ok c.graph :=
    buildGraph_eq_ok.mpr ⟨h.nodes_nodup, h.links_nodup, h.links_ok, rfl⟩
  have hroot : inputNode ∈ c.graph.ids := h.input_mem
  obtain ⟨r, hinit⟩ := initEach_of_chains h.children_mem
    (by simpa using branchIds_nodup c.graph) h.branchIds_mem (Branches.nil _ _) hchains
  have hinit : initBranches fuel c.graph = some r := hinit
  simp only [initializePipeline, hbuild, getNode_of_mem hroot, hinit]
  rcases r with e | branches
  · exact ⟨_, rfl⟩
  · exact ⟨_, rfl⟩

end WellFormed

/-! ## Trees -/

namespace IsTree

omit [LinearOrder ι] in

/-- In a tree a node has one parent. -/
theorem link_unique (h : c.IsTree inputNode) {a b x : ι} (ha : c.Link a x) (hb : c.Link b x) :
    a = b := by
  have hx : x ≠ inputNode := by
    rintro rfl
    exact h.no_parent a ha
  exact (h.one_parent x (h.link_mem ha).2 hx).unique ha hb

/-- The links as a tree of children. -/
theorem rootedTree (h : c.IsTree inputNode) :
    RootedTree c.graph.childrenIds inputNode c.graph.ids where
  root_mem := h.input_mem
  mem := h.children_mem
  nodup := childrenIds_nodup h.links_nodup
  root_not_kid := fun a ha => h.no_parent a (mem_children_graph.mp ha)
  parent_unique := fun _ _ _ ha hb =>
    h.link_unique (mem_children_graph.mp ha) (mem_children_graph.mp hb)
  reachable := by
    intro x hx
    exact Relation.ReflTransGen.mono (fun _ _ hlink => mem_children_graph.mpr hlink) _ _
      (h.reachable x hx)

/-- The input node starts a branch. -/
theorem input_mem_branchIds (h : c.IsTree inputNode) : inputNode ∈ branchIds c.graph := by
  refine mem_branchIds.mpr (.inl ⟨h.input_mem, ?_⟩)
  refine List.eq_nil_iff_forall_not_mem.mpr fun a ha => ?_
  exact h.no_parent a (mem_parentsIds.mp ha)

/-- In a tree every chain ends: a list of links visits no node twice. -/
theorem exists_chain (h : c.IsTree inputNode) (heads : List ι) {x : ι} (hx : x ∈ c.graph.ids) :
    ∃ l, Chain c.graph heads x l ∧ l.length ≤ c.nodes.length := by
  rcases chain_or_path h.children_mem heads c.nodes.length hx with hchain | ⟨path, hlength, hpath, hmem⟩
  · exact hchain
  · have hle := (List.subperm_of_subset (h.rootedTree.nodup_of_isChain hpath) hmem).length_le
    have hcount : (x :: path).length ≤ c.nodes.length := hle
    rw [List.length_cons, hlength] at hcount
    omega

/-- A node is on the chain from one branch id at most: above it on any chain comes its only
parent, up to the start of the branch. -/
theorem chain_unique (h : c.IsTree inputNode) {b b' : ι} {l l' : List ι}
    (hb : b ∈ branchIds c.graph) (hb' : b' ∈ branchIds c.graph)
    (hl : Chain c.graph (branchIds c.graph) b l) (hl' : Chain c.graph (branchIds c.graph) b' l')
    {x : ι} (hx : x ∈ c.nodes) (hxl : x ∈ l) (hxl' : x ∈ l') : b = b' := by
  have hreach := h.reachable x hx
  induction hreach with
  | refl =>
    -- nothing is linked to the input node
    have hstart : ∀ {b : ι} {l : List ι}, Chain c.graph (branchIds c.graph) b l →
        inputNode ∈ l → inputNode = b := by
      intro b l hl hmem
      rcases hl.parent_mem hmem with heq | ⟨hhead, -⟩
      · exact heq
      · exact absurd h.input_mem_branchIds hhead
    rw [← hstart hl hxl, ← hstart hl' hxl']
  | @tail a x _ hlink ih =>
    have hparent : ∀ {l : List ι} {b : ι}, Chain c.graph (branchIds c.graph) b l → x ∈ l →
        x = b ∨ x ∉ branchIds c.graph ∧ a ∈ l := by
      intro l b hl hmem
      rcases hl.parent_mem hmem with heq | ⟨hhead, p, hp, rest, hchildren⟩
      · exact .inl heq
      · have hpx : c.Link p x := mem_children_graph.mp (by simp [hchildren])
        rw [h.link_unique hpx hlink] at hp
        exact .inr ⟨hhead, hp⟩
    rcases hparent hl hxl with rfl | ⟨hhead, ha⟩
    · rcases hparent hl' hxl' with rfl | ⟨hhead, -⟩
      · rfl
      · exact absurd hb hhead
    · rcases hparent hl' hxl' with rfl | ⟨-, ha'⟩
      · exact absurd hb' hhead
      · exact ih (h.link_mem hlink).1 ha ha'

/-- Every node is on the chain from some branch id: a node that starts no branch continues the
chain of its parent. -/
theorem exists_chain_mem (h : c.IsTree inputNode) {x : ι} (hx : x ∈ c.nodes) :
    ∃ b ∈ branchIds c.graph, ∃ l, Chain c.graph (branchIds c.graph) b l ∧ x ∈ l := by
  have hown : ∀ {x : ι}, x ∈ branchIds c.graph →
      ∃ b ∈ branchIds c.graph, ∃ l, Chain c.graph (branchIds c.graph) b l ∧ x ∈ l := by
    intro x hhead
    obtain ⟨l, hchain, -⟩ := h.exists_chain (branchIds c.graph) (h.branchIds_mem x hhead)
    exact ⟨x, hhead, l, hchain, hchain.self_mem⟩
  have hreach := h.reachable x hx
  induction hreach with
  | refl => exact hown h.input_mem_branchIds
  | @tail a x _ hlink ih =>
    by_cases hhead : x ∈ branchIds c.graph
    · exact hown hhead
    · obtain ⟨b, hb, l, hchain, ha⟩ := ih (h.link_mem hlink).1
      have honly := only_child_of_not_head (h.link_mem hlink).1 (mem_children_graph.mpr hlink) hhead
      exact ⟨b, hb, l, hchain, hchain.closed ha honly hhead⟩

theorem chain_nodup (h : c.IsTree inputNode) {heads l : List ι} {b : ι}
    (hl : Chain c.graph heads b l) : l.Nodup := by
  refine h.rootedTree.nodup_of_isChain (hl.isChain.imp fun a b hchildren => ?_)
  obtain ⟨-, rest, hrest⟩ := hchildren
  simp [hrest]

end IsTree

end PipelineConfig

end Seekira.Model
