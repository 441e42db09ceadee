import Mathlib.Logic.Relation
import Seekira.Library.RootedTree
import Seekira.Model.PipelineGraph

/-!
# Building the graph of a pipeline

`deserialize` accepts a list of nodes and a list of links exactly when no node and no
link is repeated, every link is a pair of two different nodes, and the input node is
there.  The graph it builds then has the links as its edges, in the order in which
they were configured.
-/

set_option autoImplicit false

namespace Seekira.Model

open Library

variable {ι : Type}

namespace PipelineConfig

/-- The configuration links `a` to `b`. -/
def Link (c : PipelineConfig ι) (a b : ι) : Prop := [a, b] ∈ c.links

/-- A link is a pair of two different nodes. -/
def LinkOk (nodes : List ι) (link : List ι) : Prop :=
  ∃ a b, link = [a, b] ∧ a ≠ b ∧ a ∈ nodes ∧ b ∈ nodes

/-- What the asserts of `deserialize` ask of a configuration. -/
structure WellFormed (inputNode : ι) (c : PipelineConfig ι) : Prop where
  nodes_nodup : c.nodes.Nodup
  links_nodup : c.links.Nodup
  links_ok : ∀ link ∈ c.links, LinkOk c.nodes link
  input_mem : inputNode ∈ c.nodes

/-- The links form a tree rooted at the input node. -/
structure IsTree (inputNode : ι) (c : PipelineConfig ι) : Prop extends WellFormed inputNode c where
  no_parent : ∀ a, ¬c.Link a inputNode
  one_parent : ∀ b ∈ c.nodes, b ≠ inputNode → ∃! a, c.Link a b
  reachable : ∀ b ∈ c.nodes, Relation.ReflTransGen c.Link inputNode b

theorem WellFormed.link_mem {inputNode : ι} {c : PipelineConfig ι} (h : c.WellFormed inputNode)
    {a b : ι} (hlink : c.Link a b) : a ∈ c.nodes ∧ b ∈ c.nodes := by
  obtain ⟨a', b', heq, -, ha, hb⟩ := h.links_ok _ hlink
  cases heq
  exact ⟨ha, hb⟩

end PipelineConfig

namespace BasePipeline

variable [DecidableEq ι]

/-- The graph with the given nodes and links. -/
def graphOf (nodes : List ι) (links : List (List ι)) : BaseGraph ι where
  ids := nodes
  parentsIds := fun b => links.filterMap fun link =>
    match link with
    | [x, y] => if y = b then some x else none
    | _ => none
  childrenIds := fun a => links.filterMap fun link =>
    match link with
    | [x, y] => if x = a then some y else none
    | _ => none

/-- The children of a node are those that it is linked to. -/
theorem mem_childrenIds {nodes : List ι} {links : List (List ι)} {a b : ι} :
    b ∈ (graphOf nodes links).childrenIds a ↔ [a, b] ∈ links := by
  simp only [graphOf, List.mem_filterMap]
  constructor
  · rintro ⟨link, hlink, hsome⟩
    split at hsome
    · rename_i x y
      split at hsome
      · rename_i hxa
        cases hsome
        rwa [← hxa]
      · cases hsome
    · cases hsome
  · intro hlink
    exact ⟨[a, b], hlink, by simp⟩

/-- The parents of a node are those that are linked to it. -/
theorem mem_parentsIds {nodes : List ι} {links : List (List ι)} {a b : ι} :
    a ∈ (graphOf nodes links).parentsIds b ↔ [a, b] ∈ links := by
  simp only [graphOf, List.mem_filterMap]
  constructor
  · rintro ⟨link, hlink, hsome⟩
    split at hsome
    · rename_i x y
      split at hsome
      · rename_i hyb
        cases hsome
        rwa [← hyb]
      · cases hsome
    · cases hsome
  · intro hlink
    exact ⟨[a, b], hlink, by simp⟩

/-- Different links into a node come from different nodes, so no child is listed twice. -/
theorem childrenIds_nodup {nodes : List ι} {links : List (List ι)} (h : links.Nodup) (a : ι) :
    ((graphOf nodes links).childrenIds a).Nodup := by
  refine List.Nodup.filterMap ?_ h
  intro link link' b hb hb'
  have hlink : ∀ l : List ι, b ∈ (match l with
      | [x, y] => if x = a then some y else none
      | _ => none : Option ι) → l = [a, b] := by
    intro l hl
    split at hl
    · rename_i x y
      split at hl
      · rename_i hxa
        cases hl
        rw [hxa]
      · cases hl
    · cases hl
  rw [hlink link hb, hlink link' hb']

/-! ## The links -/

/-- One link more is entered on both sides. -/
theorem graphOf_snoc (nodes : List ι) (links : List (List ι)) (a b : ι) :
    (⟨nodes,
      Function.update (graphOf nodes links).parentsIds b ((graphOf nodes links).parentsIds b ++ [a]),
      Function.update (graphOf nodes links).childrenIds a
        ((graphOf nodes links).childrenIds a ++ [b])⟩ : BaseGraph ι) =
      graphOf nodes (links ++ [[a, b]]) := by
  simp only [graphOf, BaseGraph.mk.injEq, true_and]
  constructor
  · funext y
    by_cases hy : y = b
    · subst hy
      simp
    · simp [Function.update_of_ne hy, Ne.symm hy]
  · funext x
    by_cases hx : x = a
    · subst hx
      simp
    · simp [Function.update_of_ne hx, Ne.symm hx]

/-- One more link, as long as it passes the asserts of `add_edge`. -/
theorem addLink_graphOf {nodes : List ι} {links : List (List ι)} {link : List ι}
    {g : BaseGraph ι} :
    addLink link (graphOf nodes links) = .ok g ↔
      PipelineConfig.LinkOk nodes link ∧ link ∉ links ∧ g = graphOf nodes (links ++ [link]) := by
  unfold addLink
  split
  · rename_i a b
    have hids : (graphOf nodes links).ids = nodes := rfl
    simp only [BaseGraph.addEdge, mem_childrenIds, mem_parentsIds, hids]
    by_cases hab : a = b
    · rw [if_pos hab]
      apply iff_of_false nofun
      rintro ⟨⟨a', b', heq, hne, -⟩, -⟩
      cases heq
      exact hne hab
    rw [if_neg hab]
    by_cases ha : a ∈ nodes
    · rw [if_neg (not_not.mpr ha)]
      by_cases hb : b ∈ nodes
      · rw [if_neg (not_not.mpr hb)]
        by_cases hold : [a, b] ∈ links
        · rw [if_pos hold]
          exact iff_of_false nofun fun h => h.2.1 hold
        · rw [if_neg hold, if_neg hold]
          rw [graphOf_snoc]
          constructor
          · intro h
            cases h
            exact ⟨⟨a, b, rfl, hab, ha, hb⟩, hold, rfl⟩
          · rintro ⟨-, -, rfl⟩
            rfl
      · rw [if_pos hb]
        apply iff_of_false nofun
        rintro ⟨⟨a', b', heq, -, -, hb'⟩, -⟩
        cases heq
        exact hb hb'
    · rw [if_pos ha]
      apply iff_of_false nofun
      rintro ⟨⟨a', b', heq, -, ha', -⟩, -⟩
      cases heq
      exact ha ha'
  · rename_i hpair
    apply iff_of_false nofun
    rintro ⟨⟨a, b, heq, -⟩, -⟩
    exact hpair a b heq

/-- The links can be added one after the other when each is a new one between nodes. -/
theorem foldlM_addLink {nodes : List ι} {rest links : List (List ι)} {g : BaseGraph ι}
    (hlinks : links.Nodup) :
    rest.foldlM (fun g link => addLink link g) (graphOf nodes links) = .ok g ↔
      (links ++ rest).Nodup ∧ (∀ link ∈ rest, PipelineConfig.LinkOk nodes link) ∧
        g = graphOf nodes (links ++ rest) := by
  induction rest generalizing links with
  | nil =>
    simp only [List.foldlM_nil, List.append_nil]
    constructor
    · intro h
      cases h
      exact ⟨hlinks, nofun, rfl⟩
    · rintro ⟨-, -, rfl⟩
      rfl
  | cons link rest ih =>
    rw [List.foldlM_cons]
    rcases hstep : addLink link (graphOf nodes links) with e | g₁
    · apply iff_of_false nofun
      rintro ⟨hnodup, hok, -⟩
      have hnew : link ∉ links := fun hold =>
        (List.nodup_append.mp hnodup).2.2 link hold link (by simp) rfl
      have hsome := addLink_graphOf.mpr ⟨hok link (by simp), hnew, rfl⟩
      rw [hstep] at hsome
      cases hsome
    · obtain ⟨hok, hnew, rfl⟩ := addLink_graphOf.mp hstep
      have hlinks' : (links ++ [link]).Nodup := by
        rw [List.nodup_append_comm]
        exact List.nodup_cons.mpr ⟨hnew, hlinks⟩
      apply (ih hlinks').trans
      rw [List.append_assoc, List.singleton_append]
      refine and_congr_right fun _ => and_congr_left fun _ => ?_
      exact ⟨fun h => List.forall_mem_cons.mpr ⟨hok, h⟩, fun h => (List.forall_mem_cons.mp h).2⟩

/-! ## The nodes -/

/-- The nodes can be added one after the other when each is a new one. -/
theorem foldlM_addNode {rest nodes : List ι} {g : BaseGraph ι} (hnodes : nodes.Nodup) :
    rest.foldlM (fun g id => g.addNode id) (graphOf nodes []) = .ok g ↔
      (nodes ++ rest).Nodup ∧ g = graphOf (nodes ++ rest) [] := by
  induction rest generalizing nodes with
  | nil =>
    simp only [List.foldlM_nil, List.append_nil]
    constructor
    · intro h
      cases h
      exact ⟨hnodes, rfl⟩
    · rintro ⟨-, rfl⟩
      rfl
  | cons id rest ih =>
    rw [List.foldlM_cons]
    by_cases hold : id ∈ nodes
    · have hstep : (graphOf nodes []).addNode id = .error (.duplicateNode id) := if_pos hold
      rw [hstep]
      apply iff_of_false nofun
      rintro ⟨hnodup, -⟩
      exact (List.nodup_append.mp hnodup).2.2 id hold id (by simp) rfl
    · have hstep : (graphOf nodes []).addNode id = .ok (graphOf (nodes ++ [id]) []) := if_neg hold
      have hnodes' : (nodes ++ [id]).Nodup := by
        rw [List.nodup_append_comm]
        exact List.nodup_cons.mpr ⟨hold, hnodes⟩
      rw [hstep]
      apply (ih hnodes').trans
      rw [List.append_assoc, List.singleton_append]

/-- The graph is built exactly when the nodes and links pass the asserts. -/
theorem buildGraph_eq_ok {c : PipelineConfig ι} {g : BaseGraph ι} :
    buildGraph c = .ok g ↔
      c.nodes.Nodup ∧ c.links.Nodup ∧ (∀ link ∈ c.links, PipelineConfig.LinkOk c.nodes link) ∧
        g = graphOf c.nodes c.links := by
  unfold buildGraph
  have hempty : (BaseGraph.empty : BaseGraph ι) = graphOf [] [] := rfl
  rw [hempty]
  rcases hnodes : c.nodes.foldlM (fun g id => g.addNode id) (graphOf [] []) with e | g₁
  · rw [hnodes]
    apply iff_of_false nofun
    rintro ⟨hnodup, -⟩
    have hsome : c.nodes.foldlM (fun g id => g.addNode id) (graphOf [] []) =
        .ok (graphOf ([] ++ c.nodes) []) :=
      (foldlM_addNode List.nodup_nil).mpr ⟨by simpa using hnodup, rfl⟩
    rw [hnodes] at hsome
    cases hsome
  · obtain ⟨hnodup, rfl⟩ := (foldlM_addNode List.nodup_nil).mp hnodes
    rw [hnodes]
    rw [List.nil_append] at hnodup ⊢
    apply (foldlM_addLink List.nodup_nil).trans
    rw [List.nil_append]
    exact ⟨fun h => ⟨hnodup, h⟩, fun h => h.2⟩

end BasePipeline

end Seekira.Model
