import Mathlib.Algebra.BigOperators.Group.Finset.Basic
import Mathlib.Combinatorics.Enumerative.DoubleCounting
import Seekira.Analysis.GraphConsistency
import Seekira.Library.RootedTree

/-!
# Which graphs are valid

`is_valid` looks for nodes without edges, and rejects a node that has no parents or no children.  A
root has no parents and a leaf no children, so no tree is valid; with one parent for each node the
valid graphs are made of cycles.
-/

set_option autoImplicit false

namespace Seekira.Model.CoreGraph.BaseGraph

open Library

variable {ι : Type} [DecidableEq ι] {g : BaseGraph ι}

/-- A node has neither parents nor children. -/
def HasIsolated (g : BaseGraph ι) : Prop :=
  ∃ id node, g.nodes id = some node ∧ node.parents = [] ∧ node.children = []

/-- A node has several parents. -/
def HasJoint (g : BaseGraph ι) : Prop :=
  ∃ id node, g.nodes id = some node ∧ 1 < node.parents.length

/-- Every node has parents and children. -/
def NoEnds (g : BaseGraph ι) : Prop :=
  ∀ id node, g.nodes id = some node → node.parents ≠ [] ∧ node.children ≠ []

/-! ## Edges of existing nodes -/

/-- Whatever has an entry in the adjacency map is a node. -/
def SourcesExist (g : BaseGraph ι) : Prop := ∀ id, (g.adjMat id).isSome → (g.nodes id).isSome

/-- An edge adds an entry for its source. -/
theorem adjMat_addEdge {source target : ι} {g' : BaseGraph ι}
    (h : addEdge source target g = (.ok (), g')) (id : ι) :
    (g'.adjMat id).isSome ↔ id = source ∨ (g.adjMat id).isSome := by
  unfold addEdge at h
  rcases checkEdge_cases source target g with ⟨e, hcheck⟩ | ⟨hcheck, -⟩
  · rw [Proc.bind_error hcheck] at h
    cases h
  · rw [Proc.bind_ok hcheck] at h
    obtain rfl := (Prod.mk.inj h).2
    change (Function.update g.adjMat source _ id).isSome = true ↔ _
    by_cases hsource : id = source
    · simp [hsource]
    · simp [hsource]

/-- Which ids have a node and which have an entry in the adjacency map after a call. -/
theorem isSome_call {call : Call ι} {g' : BaseGraph ι} (h : (call.run g).2 = g') :
    g' = g ∨
      (∃ id, (∀ a, (g'.nodes a).isSome ↔ a = id ∨ (g.nodes a).isSome) ∧
        ∀ a, (g'.adjMat a).isSome ↔ (g.adjMat a).isSome) ∨
      ∃ source, (g.nodes source).isSome ∧ (∀ a, (g'.nodes a).isSome ↔ (g.nodes a).isSome) ∧
        ∀ a, (g'.adjMat a).isSome ↔ a = source ∨ (g.adjMat a).isSome := by
  cases call with
  | addNode id nodeId =>
    change (addNode id (BaseGraphNode.create nodeId) g).2 = g' at h
    unfold addNode at h
    split at h
    · exact .inl h.symm
    · subst h
      refine .inr (.inl ⟨id, ?_, fun a => Iff.rfl⟩)
      intro a
      by_cases hid : a = id
      · simp [hid]
      · simp [hid]
  | addEdge source target =>
    change (addEdge source target g).2 = g' at h
    rcases addEdge_cases source target g with ⟨e, hrun⟩ | ⟨g₁, hrun, hedge, -, hsource, -⟩
    · rw [hrun] at h
      exact .inl h.symm
    · rw [hrun] at h
      subst h
      refine .inr (.inr ⟨source, hsource, ?_, adjMat_addEdge hrun⟩)
      intro a
      rw [isSome_iff_of_map_id (hedge.nodes a)]

/-- In every graph that was built the sources of the edges exist. -/
theorem sourcesExist_of_reachable (h : (machine ι).Reachable g) : SourcesExist g := by
  have hinit : SourcesExist (machine ι).init := by
    intro id hid
    cases hid
  apply h.invariant hinit
  intro g call g' hg hstep
  rcases isSome_call (Option.some.inj hstep) with rfl | ⟨id, hnodes, hadj⟩ |
    ⟨source, hsource, hnodes, hadj⟩
  · exact hg
  · intro a ha
    exact (hnodes a).mpr (.inr (hg a ((hadj a).mp ha)))
  · intro a ha
    rw [hnodes]
    rcases (hadj a).mp ha with rfl | ha
    · exact hsource
    · exact hg a ha

/-- Any graph can be iterated over. -/
theorem exists_iteration (h : (machine ι).Reachable g) : Nonempty (Iteration g) := by
  have hinit : Nonempty (Iteration (machine ι).init) :=
    ⟨⟨[], [], fun _ => by simp [machine, empty], fun _ => by simp [machine, empty]⟩⟩
  refine h.invariant (I := fun g => Nonempty (Iteration g)) hinit ?_
  rintro g call g' ⟨it⟩ hstep
  rcases isSome_call (Option.some.inj hstep) with rfl | ⟨id, hnodes, hadj⟩ |
    ⟨source, -, hnodes, hadj⟩
  · exact ⟨it⟩
  · refine ⟨⟨id :: it.ids, it.sources, ?_, ?_⟩⟩
    · intro a
      rw [hnodes, List.mem_cons, it.mem_ids]
    · intro a
      rw [hadj, it.mem_sources]
  · refine ⟨⟨it.ids, source :: it.sources, ?_, ?_⟩⟩
    · intro a
      rw [hnodes, it.mem_ids]
    · intro a
      rw [hadj, List.mem_cons, it.mem_sources]

/-! ## The result of the check -/

omit [DecidableEq ι] in

/-- A node is valid with one parent and some child. -/
theorem nodeIsValid_iff (node : BaseGraphNode ι) :
    nodeIsValid ⟨true⟩ node = true ↔ node.parents.length = 1 ∧ node.children ≠ [] := by
  unfold nodeIsValid
  cases hparents : node.parents with
  | nil => simp
  | cons parent parents =>
    cases hchildren : node.children with
    | nil => simp
    | cons child children => simp

/-- The second loop finds nothing wrong. -/
theorem edgesAreValid_of_reachable (h : (machine ι).Reachable g) {source : ι}
    (hsource : (g.adjMat source).isSome) : edgesAreValid g source = true := by
  have hconsistent := (graph_consistent h).1
  have hnode := sourcesExist_of_reachable h source hsource
  have hfound : ¬(g.nodes source).isNone = true := by
    rw [Option.isNone_iff_eq_none]
    intro hnone
    rw [hnone] at hnode
    cases hnode
  unfold edgesAreValid
  rw [if_neg hfound, decide_eq_true_eq]
  intro target htarget
  exact hconsistent.exist source target (.inl ((hconsistent.adjacent source target).mpr htarget))

/-- A valid graph has one parent and some children for each of its nodes. -/
theorem isValid_iff (h : (machine ι).Reachable g) (it : Iteration g) :
    g.isValid ⟨true⟩ it = true ↔
      ∀ id node, g.nodes id = some node → node.parents.length = 1 ∧ node.children ≠ [] := by
  have hedges : it.sources.all (edgesAreValid g) = true := by
    rw [List.all_eq_true]
    intro source hsource
    exact edgesAreValid_of_reachable h ((it.mem_sources source).mp hsource)
  unfold isValid
  rw [hedges, Bool.and_true, List.all_eq_true]
  constructor
  · intro hall id node hnode
    have hid := hall id ((it.mem_ids id).mpr (by simp [hnode]))
    rw [hnode, Option.all_some] at hid
    exact (nodeIsValid_iff node).mp hid
  · intro hall id _
    cases hnode : g.nodes id with
    | none => rfl
    | some node =>
      rw [Option.all_some]
      exact (nodeIsValid_iff node).mpr (hall id node hnode)

/-! ## Trees -/

/-- A tree of two nodes or more has no isolated node and no node with several parents, and is not
valid. -/
theorem tree_not_valid (h : (machine ι).Reachable g) (it : Iteration g) {root other : ι}
    (htree : RootedTree g.children root it.ids) (hother : other ∈ it.ids) (hne : other ≠ root) :
    ¬HasIsolated g ∧ ¬HasJoint g ∧ g.isValid ⟨true⟩ it = false := by
  have hconsistent := (graph_consistent h).1
  refine ⟨?_, ?_, ?_⟩
  · rintro ⟨id, node, hnode, hparents, hchildren⟩
    have hnoParent : ∀ a, id ∉ g.children a := by
      intro a ha
      have hmem := (hconsistent.parents a id).mp ha
      simp [parents, hnode, hparents] at hmem
    have hnoChild : g.children id = [] := by simp [children, hnode, hchildren]
    have hroot : id = root := by
      have hreachable := htree.reachable id ((it.mem_ids id).mpr (by simp [hnode]))
      cases hreachable with
      | refl => rfl
      | tail _ hedge => exact absurd hedge (hnoParent _)
    rcases (htree.reachable other hother).cases_head with heq | ⟨child, hedge, -⟩
    · exact hne heq.symm
    · rw [← hroot, hnoChild] at hedge
      cases hedge
  · rintro ⟨id, node, hnode, hlt⟩
    have hnodup : node.parents.Nodup := by
      have hboth := (hconsistent.nodup id).2
      simpa [parents, hnode] using hboth
    have hparent (a : ι) (ha : a ∈ node.parents) : id ∈ g.children a := by
      rw [hconsistent.parents]
      simpa [parents, hnode] using ha
    have hfirst : node.parents[0] = node.parents[1] :=
      htree.parent_unique _ _ id (hparent _ (List.getElem_mem _)) (hparent _ (List.getElem_mem _))
    have hindex := (hnodup.getElem_inj_iff).mp hfirst
    omega
  · rw [Bool.eq_false_iff]
    intro hvalid
    obtain ⟨node, hnode⟩ := Option.isSome_iff_exists.mp ((it.mem_ids root).mp htree.root_mem)
    obtain ⟨hone, -⟩ := (isValid_iff h it).mp hvalid root node hnode
    obtain ⟨parent, hparent⟩ := List.length_eq_one_iff.mp hone
    have hedge : root ∈ g.children parent := by
      rw [hconsistent.parents]
      simp [parents, hnode, hparent]
    exact htree.root_not_kid parent hedge

/-! ## The expected result -/

/-- What the check is expected to accept: the graphs without isolated nodes and without nodes of
several parents, and so the trees. -/
structure AcceptsAsExpected (g : BaseGraph ι) (it : Iteration g) : Prop where
  accepts : g.isValid ⟨true⟩ it = true ↔ ¬HasIsolated g ∧ ¬HasJoint g
  trees : ∀ root other, RootedTree g.children root it.ids → other ∈ it.ids → other ≠ root →
    g.isValid ⟨true⟩ it = true

/-- The check accepts what it is expected to exactly when some node is isolated or has several
parents, or when every node has both parents and children. -/
theorem acceptsAsExpected_iff (h : (machine ι).Reachable g) (it : Iteration g) :
    AcceptsAsExpected g it ↔ HasIsolated g ∨ HasJoint g ∨ NoEnds g := by
  have hvalid := isValid_iff h it
  constructor
  · intro hexpected
    by_cases hisolated : HasIsolated g
    · exact .inl hisolated
    · by_cases hjoint : HasJoint g
      · exact .inr (.inl hjoint)
      · refine .inr (.inr ?_)
        intro id node hnode
        obtain ⟨hparents, hchildren⟩ :=
          hvalid.mp (hexpected.accepts.mpr ⟨hisolated, hjoint⟩) id node hnode
        refine ⟨?_, hchildren⟩
        intro hnone
        rw [hnone] at hparents
        cases hparents
  · intro hguard
    have haccepts : g.isValid ⟨true⟩ it = true ↔ ¬HasIsolated g ∧ ¬HasJoint g := by
      rw [hvalid]
      constructor
      · intro hall
        constructor
        · rintro ⟨id, node, hnode, hparents, -⟩
          have hone := (hall id node hnode).1
          rw [hparents] at hone
          cases hone
        · rintro ⟨id, node, hnode, hparents⟩
          have hone := (hall id node hnode).1
          omega
      · rintro ⟨hisolated, hjoint⟩ id node hnode
        rcases hguard with hbad | hbad | hends
        · exact absurd hbad hisolated
        · exact absurd hbad hjoint
        · obtain ⟨hparents, hchildren⟩ := hends id node hnode
          refine ⟨?_, hchildren⟩
          have hfew : ¬1 < node.parents.length := fun hlt => hjoint ⟨id, node, hnode, hlt⟩
          have hsome : 0 < node.parents.length := List.length_pos_iff.mpr hparents
          omega
    refine ⟨haccepts, ?_⟩
    intro root other htree hother hne
    obtain ⟨hisolated, hjoint, -⟩ := tree_not_valid h it htree hother hne
    exact haccepts.mpr ⟨hisolated, hjoint⟩

/-! ## Cycles -/

/-- The edges counted at their sources and at their targets. -/
theorem sum_children_eq_sum_parents (h : (machine ι).Reachable g) (it : Iteration g) :
    ∑ a ∈ it.ids.toFinset, (g.children a).length = ∑ a ∈ it.ids.toFinset, (g.parents a).length := by
  have hconsistent := (graph_consistent h).1
  have hids (a b : ι) (hb : b ∈ g.children a ∨ b ∈ g.parents a) : b ∈ it.ids.toFinset :=
    List.mem_toFinset.mpr ((it.mem_ids b).mpr (hconsistent.exist a b hb))
  have hchildren (a : ι) : (g.children a).length =
      (it.ids.toFinset.bipartiteAbove (fun a b => b ∈ g.children a) a).card := by
    rw [← List.toFinset_card_of_nodup (hconsistent.nodup a).1]
    congr 1
    ext b
    simp only [List.mem_toFinset, Finset.mem_bipartiteAbove]
    exact ⟨fun hb => ⟨List.mem_toFinset.mp (hids a b (.inl hb)), hb⟩, fun hb => hb.2⟩
  have hparents (b : ι) : (g.parents b).length =
      (it.ids.toFinset.bipartiteBelow (fun a b => b ∈ g.children a) b).card := by
    rw [← List.toFinset_card_of_nodup (hconsistent.nodup b).2]
    congr 1
    ext a
    simp only [List.mem_toFinset, Finset.mem_bipartiteBelow, hconsistent.parents]
    exact ⟨fun ha => ⟨List.mem_toFinset.mp (hids b a (.inr ha)), ha⟩, fun ha => ha.2⟩
  simp only [hchildren, hparents]
  exact Finset.sum_card_bipartiteAbove_eq_sum_card_bipartiteBelow _

/-- In a valid graph every node has exactly one parent and one child: it is made of cycles. -/
theorem valid_cycles (h : (machine ι).Reachable g) (it : Iteration g)
    (hvalid : g.isValid ⟨true⟩ it = true) {id : ι} (hid : id ∈ it.ids) :
    (g.parents id).length = 1 ∧ (g.children id).length = 1 := by
  have hone (a : ι) (ha : a ∈ it.ids.toFinset) :
      (g.parents a).length = 1 ∧ 1 ≤ (g.children a).length := by
    obtain ⟨node, hnode⟩ :=
      Option.isSome_iff_exists.mp ((it.mem_ids a).mp (List.mem_toFinset.mp ha))
    obtain ⟨hparents, hchildren⟩ := (isValid_iff h it).mp hvalid a node hnode
    constructor
    · simpa [parents, hnode] using hparents
    · simpa [children, hnode, Nat.one_le_iff_ne_zero] using hchildren
  have hsum : ∑ a ∈ it.ids.toFinset, 1 = ∑ a ∈ it.ids.toFinset, (g.children a).length := by
    rw [sum_children_eq_sum_parents h it]
    exact Finset.sum_congr rfl fun a ha => ((hone a ha).1).symm
  have hmem : id ∈ it.ids.toFinset := List.mem_toFinset.mpr hid
  have hall := (Finset.sum_eq_sum_iff_of_le fun a ha => (hone a ha).2).mp hsum
  exact ⟨(hone id hmem).1, (hall id hmem).symm⟩

/-! ### One edge -/

/-- A parent with one child. -/
def oneEdge : List (Call Nat) := [.addNode 0 0, .addNode 1 1, .addEdge 0 1]

/-- The smallest tree with an edge. -/
def edgeGraph : BaseGraph Nat := ((machine Nat).exec empty oneEdge).getD empty

theorem edgeGraph_reachable : (machine Nat).Reachable edgeGraph := by
  have hexec : (machine Nat).exec (machine Nat).init oneEdge = some edgeGraph := rfl
  exact ⟨_, Machine.run_of_exec hexec⟩

/-- It has the parent and the child. -/
theorem edgeGraph_cases {id : Nat} {node : BaseGraphNode Nat}
    (hnode : edgeGraph.nodes id = some node) : node = ⟨0, [], [1]⟩ ∨ node = ⟨1, [0], []⟩ := by
  rcases id with _ | _ | id
  · left
    exact (Option.some.inj hnode).symm
  · right
    exact (Option.some.inj hnode).symm
  · cases hnode

theorem edgeGraph_not_noEnds : ¬NoEnds edgeGraph := by
  intro hends
  exact (hends 0 ⟨0, [], [1]⟩ rfl).1 rfl

theorem edgeGraph_not_isolated : ¬HasIsolated edgeGraph := by
  rintro ⟨id, node, hnode, hparents, hchildren⟩
  rcases edgeGraph_cases hnode with rfl | rfl
  · cases hchildren
  · cases hparents

theorem edgeGraph_not_joint : ¬HasJoint edgeGraph := by
  rintro ⟨id, node, hnode, hlt⟩
  rcases edgeGraph_cases hnode with rfl | rfl
  · simp at hlt
  · simp at hlt

/-- No node of it is isolated or has several parents, and it is not valid. -/
theorem edge_not_valid :
    ¬∀ (g : BaseGraph Nat) (it : Iteration g), (machine Nat).Reachable g →
      AcceptsAsExpected g it := by
  intro hclaim
  obtain ⟨it⟩ := exists_iteration edgeGraph_reachable
  have hvalid := (hclaim edgeGraph it edgeGraph_reachable).accepts.mpr
    ⟨edgeGraph_not_isolated, edgeGraph_not_joint⟩
  have hparents := ((isValid_iff edgeGraph_reachable it).mp hvalid 0 ⟨0, [], [1]⟩ rfl).1
  cases hparents

/-- The graph of one edge is refused. -/
theorem acceptsAsExpected_iff_edge :
    ∃ it : Iteration edgeGraph, ¬AcceptsAsExpected edgeGraph it := by
  obtain ⟨it⟩ := exists_iteration edgeGraph_reachable
  refine ⟨it, ?_⟩
  rw [acceptsAsExpected_iff edgeGraph_reachable it]
  rintro (hisolated | hjoint | hends)
  · exact edgeGraph_not_isolated hisolated
  · exact edgeGraph_not_joint hjoint
  · exact edgeGraph_not_noEnds hends

end Seekira.Model.CoreGraph.BaseGraph
