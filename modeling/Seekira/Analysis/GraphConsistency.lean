import Seekira.Model.CoreGraph

/-!
# The representations of an edge agree

After any calls of `add_node` and `add_edge`, with those among them that throw, an edge is in
the children of its source, in the parents of its target and in the adjacency map, or in none
of them; no list holds an id twice or its own node's; and every id in them is that of a node.
The asserts come before the first change, so a call that throws changes nothing.
-/

set_option autoImplicit false

namespace Seekira.Model.CoreGraph.BaseGraph

open Library

variable {ι : Type} [DecidableEq ι]

/-- The three representations agree, and what they hold is well formed. -/
structure Consistent (g : BaseGraph ι) : Prop where
  parents : ∀ a b, b ∈ g.children a ↔ a ∈ g.parents b
  adjacent : ∀ a b, b ∈ g.children a ↔ b ∈ g.adjacent a
  nodup : ∀ a, (g.children a).Nodup ∧ (g.parents a).Nodup
  irreflexive : ∀ a, a ∉ g.children a ∧ a ∉ g.parents a
  named : ∀ a node, g.nodes a = some node → node.id = a
  exist : ∀ a b, (b ∈ g.children a ∨ b ∈ g.parents a) → (g.nodes b).isSome

/-! ## The steps of a call -/

theorem nodes_modifyNode (g : BaseGraph ι) (id a : ι) (f : BaseGraphNode ι → BaseGraphNode ι) :
    (g.modifyNode id f).nodes a = if a = id then (g.nodes id).map f else g.nodes a := by
  change Function.update g.nodes id ((g.nodes id).map f) a = _
  rw [Function.update_apply]

/-- The checks change nothing; those that pass know both nodes and no edge between them. -/
theorem checkEdge_cases (source target : ι) (g : BaseGraph ι) :
    (∃ e, checkEdge source target g = (.error e, g)) ∨
      (checkEdge source target g = (.ok (), g) ∧ source ≠ target ∧
        (∃ node, g.nodes source = some node) ∧ (∃ node, g.nodes target = some node) ∧
        target ∉ g.children source ∧ source ∉ g.parents target) := by
  unfold checkEdge
  split
  · exact .inl ⟨_, rfl⟩
  · rename_i hne
    split
    · exact .inl ⟨_, rfl⟩
    · rename_i hsource
      split
      · exact .inl ⟨_, rfl⟩
      · rename_i htarget
        split
        · exact .inl ⟨_, rfl⟩
        · rename_i hchild
          split
          · exact .inl ⟨_, rfl⟩
          · rename_i hparent
            rw [Option.isNone_iff_eq_none, ← ne_eq, Option.ne_none_iff_exists'] at hsource htarget
            exact .inr ⟨rfl, hne, hsource, htarget, hchild, hparent⟩

/-- The graph with one more edge, by what it holds. -/
structure WithEdge (source target : ι) (g g' : BaseGraph ι) : Prop where
  children : ∀ a, g'.children a = g.children a ++ if a = source then [target] else []
  parents : ∀ a, g'.parents a = g.parents a ++ if a = target then [source] else []
  adjacent : ∀ a, g'.adjacent a = if a = source then insert target (g.adjacent a) else g.adjacent a
  nodes : ∀ a, (g'.nodes a).map BaseGraphNode.id = (g.nodes a).map BaseGraphNode.id

/-- What a call of `add_edge` does: nothing, or all of it. -/
theorem addEdge_cases (source target : ι) (g : BaseGraph ι) :
    (∃ e, addEdge source target g = (.error e, g)) ∨
      ∃ g', addEdge source target g = (.ok (), g') ∧ WithEdge source target g g' ∧
        source ≠ target ∧ (g.nodes source).isSome ∧ (g.nodes target).isSome ∧
        target ∉ g.children source ∧ source ∉ g.parents target := by
  rcases checkEdge_cases source target g with ⟨e, hcheck⟩ |
    ⟨hcheck, hne, ⟨node, hsource⟩, ⟨node', htarget⟩, hchild, hparent⟩
  · exact .inl ⟨e, by unfold addEdge; rw [Proc.bind_error hcheck]⟩
  · refine .inr ⟨_, by unfold addEdge; rw [Proc.bind_ok hcheck]; rfl, ?_, hne, ?_, ?_, hchild,
      hparent⟩
    · refine ⟨?_, ?_, ?_, ?_⟩
      · intro a
        simp only [children, nodes_modifyNode]
        by_cases hs : a = source
        · subst hs
          simp [hne, hsource]
        · by_cases ht : a = target
          · subst ht
            simp [hs, htarget]
          · simp [hs, ht]
      · intro a
        simp only [parents, nodes_modifyNode]
        by_cases hs : a = source
        · subst hs
          simp [hne, hsource]
        · by_cases ht : a = target
          · subst ht
            simp [hs, htarget]
          · simp [hs, ht]
      · intro a
        by_cases hs : a = source
        · subst hs
          simp [adjacent, modifyNode]
        · simp [adjacent, modifyNode, hs]
      · intro a
        simp only [nodes_modifyNode]
        by_cases hs : a = source
        · subst hs
          simp [hne, hsource]
        · by_cases ht : a = target
          · subst ht
            simp [hs, htarget]
          · simp [hs, ht]
    · rw [hsource]
      rfl
    · rw [htarget]
      rfl

/-- What a call of `add_node` with a new node does: nothing, or all of it. -/
theorem addNode_cases (id nodeId : ι) (g : BaseGraph ι) :
    (∃ e, addNode id (BaseGraphNode.create nodeId) g = (.error e, g)) ∨
      ∃ g', addNode id (BaseGraphNode.create nodeId) g = (.ok (), g') ∧ g.nodes id = none ∧
        (∀ a, g'.children a = g.children a ∧ g'.parents a = g.parents a ∧
          g'.adjacent a = g.adjacent a) ∧
        ∀ a, (g'.nodes a).map BaseGraphNode.id =
          if a = id then some id else (g.nodes a).map BaseGraphNode.id := by
  unfold addNode
  split
  · exact .inl ⟨_, rfl⟩
  · rename_i hfree
    have hfree : g.nodes id = none := by simpa using hfree
    refine .inr ⟨_, rfl, hfree, fun a => ?_, fun a => ?_⟩
    · by_cases ha : a = id
      · subst ha
        simp [children, parents, adjacent, hfree, BaseGraphNode.create]
      · simp [children, parents, adjacent, ha]
    · by_cases ha : a = id
      · subst ha
        simp
      · simp [ha]

/-! ## Consistency -/

omit [DecidableEq ι] in

theorem isSome_iff_of_map_id {x y : Option (BaseGraphNode ι)}
    (h : x.map BaseGraphNode.id = y.map BaseGraphNode.id) : x.isSome = y.isSome := by
  rw [← Option.isSome_map (f := BaseGraphNode.id), h, Option.isSome_map]

omit [DecidableEq ι] in

/-- The empty graph is consistent. -/
theorem consistent_empty : Consistent (empty : BaseGraph ι) where
  parents _ _ := by simp [children, parents, empty]
  adjacent _ _ := by simp [children, adjacent, empty]
  nodup _ := ⟨.nil, .nil⟩
  irreflexive _ := ⟨List.not_mem_nil, List.not_mem_nil⟩
  named := nofun
  exist := by simp [children, parents, empty]

/-- A further node keeps the graph consistent. -/
theorem consistent_addNode (id nodeId : ι) {g g' : BaseGraph ι} (h : Consistent g)
    (hstep : addNode id (BaseGraphNode.create nodeId) g = (.ok (), g')) : Consistent g' := by
  rcases addNode_cases id nodeId g with ⟨e, hrun⟩ | ⟨g₁, hrun, hfree, hsame, hids⟩
  · rw [hrun] at hstep
    cases hstep
  · rw [hrun] at hstep
    cases hstep
    have hchildren (a : ι) : g'.children a = g.children a := (hsame a).1
    have hparents (a : ι) : g'.parents a = g.parents a := (hsame a).2.1
    have hadjacent (a : ι) : g'.adjacent a = g.adjacent a := (hsame a).2.2
    refine ⟨?_, ?_, ?_, ?_, ?_, ?_⟩
    · simpa only [hchildren, hparents] using h.parents
    · simpa only [hchildren, hadjacent] using h.adjacent
    · simpa only [hchildren, hparents] using h.nodup
    · simpa only [hchildren, hparents] using h.irreflexive
    · intro a node hnode
      have hid := hids a
      rw [hnode] at hid
      by_cases ha : a = id
      · rw [if_pos ha, ← ha] at hid
        exact Option.some.inj hid
      · rw [if_neg ha] at hid
        obtain ⟨old, hold, heq⟩ := Option.map_eq_some_iff.mp hid.symm
        exact heq.symm.trans (h.named a old hold)
    · intro a b hb
      rw [hchildren, hparents] at hb
      have hid := hids b
      by_cases hbid : b = id
      · rw [if_pos hbid] at hid
        obtain ⟨node, hnode, -⟩ := Option.map_eq_some_iff.mp hid
        rw [hnode]
        rfl
      · rw [if_neg hbid] at hid
        rw [isSome_iff_of_map_id hid]
        exact h.exist a b hb

/-- A further edge is entered on both sides, so that the graph stays consistent. -/
theorem consistent_addEdge (source target : ι) {g g' : BaseGraph ι} (h : Consistent g)
    (hstep : addEdge source target g = (.ok (), g')) : Consistent g' := by
  rcases addEdge_cases source target g with ⟨e, hrun⟩ |
    ⟨g₁, hrun, hedge, hne, hsource, htarget, hchild, hparent⟩
  · rw [hrun] at hstep
    cases hstep
  · rw [hrun] at hstep
    cases hstep
    have hmemChildren (a b : ι) :
        b ∈ g'.children a ↔ b ∈ g.children a ∨ (a = source ∧ b = target) := by
      rw [hedge.children]
      by_cases ha : a = source
      · simp [ha]
      · simp [ha]
    have hmemParents (a b : ι) :
        b ∈ g'.parents a ↔ b ∈ g.parents a ∨ (a = target ∧ b = source) := by
      rw [hedge.parents]
      by_cases ha : a = target
      · simp [ha]
      · simp [ha]
    refine ⟨?_, ?_, ?_, ?_, ?_, ?_⟩
    · intro a b
      rw [hmemChildren, hmemParents, h.parents, and_comm (a := a = source)]
    · intro a b
      rw [hmemChildren, h.adjacent, hedge.adjacent]
      by_cases ha : a = source
      · simp [ha, or_comm]
      · simp [ha]
    · intro a
      rw [hedge.children, hedge.parents]
      constructor
      · by_cases ha : a = source
        · rw [if_pos ha, ha]
          simpa using List.Nodup.concat hchild (h.nodup source).1
        · rw [if_neg ha, List.append_nil]
          exact (h.nodup a).1
      · by_cases ha : a = target
        · rw [if_pos ha, ha]
          simpa using List.Nodup.concat hparent (h.nodup target).2
        · rw [if_neg ha, List.append_nil]
          exact (h.nodup a).2
    · intro a
      rw [hmemChildren, hmemParents]
      constructor
      · rintro (ha | ⟨rfl, heq⟩)
        · exact (h.irreflexive a).1 ha
        · exact hne heq
      · rintro (ha | ⟨rfl, heq⟩)
        · exact (h.irreflexive a).2 ha
        · exact hne heq.symm
    · intro a node hnode
      have hid := hedge.nodes a
      rw [hnode] at hid
      obtain ⟨old, hold, heq⟩ := Option.map_eq_some_iff.mp hid.symm
      exact heq.symm.trans (h.named a old hold)
    · intro a b hb
      rw [isSome_iff_of_map_id (hedge.nodes b)]
      rw [hmemChildren, hmemParents] at hb
      rcases hb with (hb | ⟨-, rfl⟩) | (hb | ⟨-, rfl⟩)
      · exact h.exist a b (.inl hb)
      · exact htarget
      · exact h.exist a b (.inr hb)
      · exact hsource

/-! ## Runs -/

/-- A call that throws leaves the graph as it was. -/
theorem unchanged_of_error (call : Call ι) {g : BaseGraph ι} {e : PipelineError ι}
    (h : (call.run g).1 = .error e) : (call.run g).2 = g := by
  cases call with
  | addNode id nodeId =>
    rcases addNode_cases id nodeId g with ⟨e', hrun⟩ | ⟨g', hrun, -⟩
    · rw [Call.run, hrun]
    · rw [Call.run, hrun] at h
      cases h
  | addEdge source target =>
    rcases addEdge_cases source target g with ⟨e', hrun⟩ | ⟨g', hrun, -⟩
    · rw [Call.run, hrun]
    · rw [Call.run, hrun] at h
      cases h

/-- Every call keeps the graph consistent. -/
theorem consistent_call (call : Call ι) {g : BaseGraph ι} (h : Consistent g) :
    Consistent (call.run g).2 := by
  rcases hrun : call.run g with ⟨e | ⟨⟩, g'⟩
  · have hsame := unchanged_of_error call (g := g) (e := e) (by rw [hrun])
    rw [hrun] at hsame
    rw [hsame]
    exact h
  · cases call with
    | addNode id nodeId => exact consistent_addNode id nodeId h hrun
    | addEdge source target => exact consistent_addEdge source target h hrun

/-- After any calls the representations agree, and the next call changes nothing if it throws. -/
theorem graph_consistent {g : BaseGraph ι} (h : (machine ι).Reachable g) :
    Consistent g ∧ ∀ (call : Call ι) (e : PipelineError ι),
      (call.run g).1 = .error e → (call.run g).2 = g := by
  refine ⟨h.invariant consistent_empty ?_, fun call e hthrows => unchanged_of_error call hthrows⟩
  intro g call g' hg hstep
  cases hstep
  exact consistent_call call hg

/-- Two nodes, an edge, and the same edge again, which throws. -/
def edgeTwice : List (Call Nat) := [.addNode 0 7, .addNode 1 7, .addEdge 0 1, .addEdge 0 1]

/-- A graph of one edge, which is added a second time. -/
theorem graph_consistent_edge :
    ∃ g, (machine Nat).Reachable g ∧ g.children 0 = [1] ∧ g.parents 1 = [0] ∧
      (Call.run (.addEdge 0 1) g).1 = .error (.duplicateChild 0 1) ∧ Consistent g ∧
      ∀ (call : Call Nat) (e : PipelineError Nat),
        (call.run g).1 = .error e → (call.run g).2 = g := by
  obtain ⟨g, -, hrun, hg⟩ := Machine.exists_run_of_exec (machine Nat) edgeTwice
    (fun g => (g.children 0 = [1] && g.parents 1 = [0]) &&
      (Call.run (.addEdge 0 1) g).1 = .error (.duplicateChild 0 1)) (by decide +kernel)
  obtain ⟨⟨hchildren, hparents⟩, hagain⟩ :
      (g.children 0 = [1] ∧ g.parents 1 = [0]) ∧
        (Call.run (.addEdge 0 1) g).1 = .error (.duplicateChild 0 1) := by
    simpa using hg
  exact ⟨g, ⟨_, hrun⟩, hchildren, hparents, hagain, graph_consistent ⟨_, hrun⟩⟩

/-! ## The graph of a pipeline -/

/-- `p` is the graph without the adjacency map and without the nodes themselves. -/
def Abstracts (p : Model.BaseGraph ι) (g : BaseGraph ι) : Prop :=
  (∀ a, a ∈ p.ids ↔ (g.nodes a).isSome) ∧
    ∀ a, p.childrenIds a = g.children a ∧ p.parentsIds a = g.parents a

/-- The nodes of a pipeline are added as here. -/
theorem abstracts_addNode {p : Model.BaseGraph ι} {g : BaseGraph ι} (h : Abstracts p g)
    (id nodeId : ι) :
    (∃ e, p.addNode id = .error e ∧
      addNode id (BaseGraphNode.create nodeId) g = (.error e, g)) ∨
    ∃ p' g', p.addNode id = .ok p' ∧
      addNode id (BaseGraphNode.create nodeId) g = (.ok (), g') ∧ Abstracts p' g' := by
  unfold Model.BaseGraph.addNode
  by_cases hid : id ∈ p.ids
  · refine .inl ⟨.duplicateNode id, by rw [if_pos hid], ?_⟩
    unfold addNode
    rw [if_pos ((h.1 id).mp hid)]
  · rcases addNode_cases id nodeId g with ⟨e, hrun⟩ | ⟨g', hrun, -, hsame, hids⟩
    · unfold addNode at hrun
      rw [if_neg (fun hsome => hid ((h.1 id).mpr hsome))] at hrun
      cases hrun
    · refine .inr ⟨_, g', by rw [if_neg hid], hrun, fun a => ?_, fun a => ?_⟩
      · rw [List.mem_append, List.mem_singleton, h.1, ← Option.isSome_map (f := BaseGraphNode.id)
          (x := g'.nodes a), hids]
        by_cases ha : a = id
        · simp [ha]
        · simp [ha]
      · obtain ⟨hchildren, hparents, -⟩ := hsame a
        rw [hchildren, hparents]
        exact h.2 a

/-- So are its links, with the same asserts. -/
theorem abstracts_addEdge {p : Model.BaseGraph ι} {g : BaseGraph ι} (h : Abstracts p g)
    (source target : ι) :
    (∃ e, p.addEdge source target = .error e ∧ addEdge source target g = (.error e, g)) ∨
    ∃ p' g', p.addEdge source target = .ok p' ∧ addEdge source target g = (.ok (), g') ∧
      Abstracts p' g' := by
  have hnone (a : ι) : (g.nodes a).isNone = true ↔ a ∉ p.ids := by
    rw [h.1]
    simp
  rcases addEdge_cases source target g with ⟨e, hrun⟩ |
    ⟨g', hrun, hedge, hne, hsource, htarget, hchild, hparent⟩
  · refine .inl ⟨e, ?_, hrun⟩
    have hcheck : checkEdge source target g = (.error e, g) := by
      unfold addEdge at hrun
      rcases checkEdge_cases source target g with ⟨e', hcheck⟩ | ⟨hcheck, -⟩
      · rw [Proc.bind_error hcheck] at hrun
        cases hrun
        exact hcheck
      · rw [Proc.bind_ok hcheck] at hrun
        cases hrun
    unfold checkEdge at hcheck
    unfold Model.BaseGraph.addEdge
    simp only [(h.2 source).1, (h.2 target).2, ← hnone]
    split at hcheck
    · simp_all
    · split at hcheck
      · simp_all
      · split at hcheck
        · simp_all
        · split at hcheck
          · simp_all
          · split at hcheck
            · simp_all
            · cases hcheck
  · have hadded : p.addEdge source target = .ok { p with
        childrenIds := Function.update p.childrenIds source (p.childrenIds source ++ [target])
        parentsIds := Function.update p.parentsIds target (p.parentsIds target ++ [source]) } := by
      unfold Model.BaseGraph.addEdge
      rw [if_neg hne, if_neg (not_not.mpr ((h.1 source).mpr hsource)),
        if_neg (not_not.mpr ((h.1 target).mpr htarget)), if_neg (by rwa [(h.2 source).1]),
        if_neg (by rwa [(h.2 target).2])]
    refine .inr ⟨_, g', hadded, hrun, fun a => ?_, fun a => ?_⟩
    · rw [isSome_iff_of_map_id (hedge.nodes a)]
      exact h.1 a
    · rw [hedge.children, hedge.parents]
      constructor
      · by_cases ha : a = source
        · subst ha
          simp [(h.2 a).1]
        · simp [ha, (h.2 a).1]
      · by_cases ha : a = target
        · subst ha
          simp [(h.2 a).2]
        · simp [ha, (h.2 a).2]

end Seekira.Model.CoreGraph.BaseGraph
