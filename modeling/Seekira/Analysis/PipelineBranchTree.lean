import Seekira.Analysis.PipelineTrees

/-!
# The tree of branches

The children of a branch are the children of its last node.  When the links form a
tree, each of them starts a branch, and the branches form a tree below the branch of the
input node.
-/

set_option autoImplicit false

namespace Seekira.Model

open Library

variable {ι : Type}

/-- The ids that lead on from branch `b`: the children of its last node. -/
def BasePipeline.branchChildren (p : BasePipeline ι) (b : ι) : List ι :=
  match (p.branches b).bind List.getLast? with
  | none => []
  | some last => p.graph.childrenIds last

open BasePipeline

variable [LinearOrder ι] {inputNode : ι} {c : PipelineConfig ι}

namespace PipelineConfig.IsTree

variable {branches : ι → Option (List ι)}

/-- Only a child whose parent has no other child continues a branch. -/
theorem children_mem_branchIds (h : c.IsTree inputNode) {a x : ι}
    (hstops : ∀ y rest, c.graph.childrenIds a = y :: rest → y ∈ branchIds c.graph)
    (hx : x ∈ c.graph.childrenIds a) : x ∈ branchIds c.graph := by
  by_contra hhead
  have ha : a ∈ c.graph.ids := (h.link_mem (mem_children_graph.mp hx)).1
  exact hhead (hstops x [] (only_child_of_not_head ha hx hhead))

/-- The last node of a branch and the ids that lead on from it. -/
theorem branch_last (inputNode : ι)
    (hbranches : Branches c.graph (branchIds c.graph) (branchIds c.graph) branches)
    {b : ι} (hb : b ∈ branchIds c.graph) :
    ∃ l last, branches b = some l ∧ Chain c.graph (branchIds c.graph) b l ∧
      l.getLast? = some last ∧
      (∀ y rest, c.graph.childrenIds last = y :: rest → y ∈ branchIds c.graph) ∧
      branchChildren ⟨c.graph, inputNode, branches⟩ b = c.graph.childrenIds last := by
  obtain ⟨l, hl, hchain⟩ := (hbranches b).1 hb
  obtain ⟨last, hlast, hstops⟩ := hchain.last_stops
  exact ⟨l, last, hl, hchain, hlast, hstops, by simp [branchChildren, hl, hlast]⟩

/-- What leads on from a branch leads on from its last node. -/
theorem mem_branchChildren
    (hbranches : Branches c.graph (branchIds c.graph) (branchIds c.graph) branches) {b x : ι}
    (hx : x ∈ branchChildren ⟨c.graph, inputNode, branches⟩ b) :
    b ∈ branchIds c.graph ∧ ∃ l last, branches b = some l ∧
      Chain c.graph (branchIds c.graph) b l ∧ l.getLast? = some last ∧
      (∀ y rest, c.graph.childrenIds last = y :: rest → y ∈ branchIds c.graph) ∧
      x ∈ c.graph.childrenIds last := by
  have hb : b ∈ branchIds c.graph := by
    by_contra hout
    simp [branchChildren, (hbranches b).2 hout] at hx
  obtain ⟨l, last, hl, hchain, hlast, hstops, heq⟩ := branch_last inputNode hbranches hb
  rw [heq] at hx
  exact ⟨hb, l, last, hl, hchain, hlast, hstops, hx⟩

/-- A branch leads to no other branch or to two at least: an only child would continue it. -/
theorem branchChildren_length_ne_one (h : c.IsTree inputNode)
    (hbranches : Branches c.graph (branchIds c.graph) (branchIds c.graph) branches) (b : ι) :
    (branchChildren ⟨c.graph, inputNode, branches⟩ b).length ≠ 1 := by
  intro hone
  obtain ⟨x, hx⟩ := List.length_eq_one_iff.mp hone
  have hmem : x ∈ branchChildren ⟨c.graph, inputNode, branches⟩ b := by simp [hx]
  obtain ⟨-, l, last, hl, -, hlast, hstops, hchild⟩ := mem_branchChildren hbranches hmem
  have honly : c.graph.childrenIds last = [x] := by
    rw [← hx]
    simp [branchChildren, hl, hlast]
  have hlink : c.Link last x := mem_children_graph.mp hchild
  rcases mem_branchIds.mp (hstops x [] honly) with ⟨-, horphan⟩ | ⟨a, -, hlong, ha⟩
  · have hparent : last ∈ c.graph.parentsIds x := mem_parentsIds.mpr hlink
    rw [horphan] at hparent
    cases hparent
  · -- the node with several children that makes `x` a head is its only parent
    obtain rfl := h.link_unique (mem_children_graph.mp ha) hlink
    rw [honly] at hlong
    simp at hlong

/-- Every node is on a branch that is reachable from the branch of the input node. -/
theorem branch_reachable (h : c.IsTree inputNode)
    (hbranches : Branches c.graph (branchIds c.graph) (branchIds c.graph) branches) {x : ι}
    (hx : x ∈ c.nodes) :
    ∃ b ∈ branchIds c.graph, ∃ l, branches b = some l ∧ x ∈ l ∧
      Relation.ReflTransGen
        (fun a b => b ∈ branchChildren ⟨c.graph, inputNode, branches⟩ a) inputNode b := by
  have hreach := h.reachable x hx
  induction hreach with
  | refl =>
    obtain ⟨l, hl, hchain⟩ := (hbranches inputNode).1 h.input_mem_branchIds
    exact ⟨inputNode, h.input_mem_branchIds, l, hl, hchain.self_mem, .refl⟩
  | @tail a x _ hlink ih =>
    obtain ⟨b, hb, l, hl, ha, hreached⟩ := ih (h.link_mem hlink).1
    obtain ⟨l', last, hl', hchain, hlast, -, hchildren⟩ :=
      branch_last inputNode hbranches hb
    obtain rfl : l = l' := Option.some.inj (hl.symm.trans hl')
    have hax : x ∈ c.graph.childrenIds a := mem_children_graph.mpr hlink
    by_cases hhead : x ∈ branchIds c.graph
    · -- the branch of `a` stops at `a`, so `x` leads on from it
      have hstops : ∀ y rest, c.graph.childrenIds a = y :: rest → y ∈ branchIds c.graph := by
        intro y rest hy
        by_contra hgo
        have hay : y ∈ c.graph.childrenIds a := by simp [hy]
        rw [only_child_of_not_head (h.link_mem hlink).1 hay hgo] at hax
        rw [List.mem_singleton.mp hax] at hhead
        exact hgo hhead
      obtain rfl : last = a := Option.some.inj (hlast.symm.trans (hchain.eq_last ha hstops))
      obtain ⟨lx, hlx, hchainx⟩ := (hbranches x).1 hhead
      refine ⟨x, hhead, lx, hlx, hchainx.self_mem, hreached.tail ?_⟩
      rw [hchildren]
      exact hax
    · have honly := only_child_of_not_head (h.link_mem hlink).1 hax hhead
      exact ⟨b, hb, l, hl, hchain.closed ha honly hhead, hreached⟩

/-- The branches of a tree form a tree. -/
theorem branchTree (h : c.IsTree inputNode)
    (hbranches : Branches c.graph (branchIds c.graph) (branchIds c.graph) branches) :
    RootedTree (branchChildren ⟨c.graph, inputNode, branches⟩) inputNode (branchIds c.graph) where
  root_mem := h.input_mem_branchIds
  mem := by
    intro a x hx
    obtain ⟨-, l, last, -, -, -, hstops, hx⟩ := mem_branchChildren hbranches hx
    exact h.children_mem_branchIds hstops hx
  nodup := by
    intro a
    by_cases ha : a ∈ branchIds c.graph
    · obtain ⟨l, last, -, -, -, -, heq⟩ := branch_last inputNode hbranches ha
      rw [heq]
      exact childrenIds_nodup h.links_nodup last
    · simp [branchChildren, (hbranches a).2 ha]
  root_not_kid := by
    intro a ha
    obtain ⟨-, l, last, -, -, -, -, hroot⟩ := mem_branchChildren hbranches ha
    exact h.no_parent last (mem_children_graph.mp hroot)
  parent_unique := by
    intro a b x ha hb
    obtain ⟨hamem, la, lasta, -, hchaina, hlasta, -, hxa⟩ := mem_branchChildren hbranches ha
    obtain ⟨hbmem, lb, lastb, -, hchainb, hlastb, -, hxb⟩ := mem_branchChildren hbranches hb
    obtain rfl := h.link_unique (mem_children_graph.mp hxa) (mem_children_graph.mp hxb)
    have hnode := (h.link_mem (mem_children_graph.mp hxa)).1
    exact h.chain_unique hamem hbmem hchaina hchainb hnode (List.mem_of_getLast? hlasta)
      (List.mem_of_getLast? hlastb)
  reachable := by
    intro b hb
    have hnode : b ∈ c.nodes := h.branchIds_mem b hb
    obtain ⟨b', hb', l', hl', hmem, hreached⟩ := h.branch_reachable hbranches hnode
    obtain ⟨l, -, hchain⟩ := (hbranches b).1 hb
    obtain ⟨l₁, hl₁, hchain'⟩ := (hbranches b').1 hb'
    obtain rfl : l' = l₁ := Option.some.inj (hl'.symm.trans hl₁)
    rw [h.chain_unique hb hb' hchain hchain' hnode hchain.self_mem hmem]
    exact hreached

end PipelineConfig.IsTree

end Seekira.Model
