import Mathlib.Data.List.Perm.Basic

/-!
# The branches of a tree-shaped pipeline

`BasePipeline::init_branches` cuts the graph of nodes into branches.  The
asynchronous pipeline sees of this only the branch ids, the root branch and, for
each branch, the children of its last node, which are branch ids again.  A tree
gives every branch at most one parent, the root none, and every child a depth one
below its parent's.  A node with a single child never ends a branch: the child
continues it, so that a branch leads to no other branch or to two at least.
-/

set_option autoImplicit false

namespace Seekira.Model

/-- The branches of a tree-shaped pipeline.  `ids` lists the keys of `m_branches_data` and
`threadIds` those of `m_threads`, each in the iteration order of its map. -/
structure BranchTree (ι : Type) where
  root : ι
  ids : List ι
  threadIds : List ι
  childrenIds : ι → List ι
  ids_nodup : ids.Nodup
  threadIds_perm : threadIds.Perm ids
  root_mem : root ∈ ids
  children_mem : ∀ b c, c ∈ childrenIds b → c ∈ ids
  /-- an only child continues the branch of its parent -/
  children_ne_one : ∀ b, (childrenIds b).length ≠ 1
  root_not_child : ∀ b, root ∉ childrenIds b
  parent_unique : ∀ b b' c, c ∈ childrenIds b → c ∈ childrenIds b' → b = b'
  has_parent : ∀ c ∈ ids, c = root ∨ ∃ b ∈ ids, c ∈ childrenIds b
  depth : ι → Nat
  depth_child : ∀ b c, c ∈ childrenIds b → depth c = depth b + 1

namespace BranchTree

variable {ι : Type} (T : BranchTree ι)

/-- The threads are those of the branches. -/
theorem mem_threadIds {b : ι} : b ∈ T.threadIds ↔ b ∈ T.ids :=
  T.threadIds_perm.mem_iff

/-- A child branch is not the root branch. -/
theorem ne_root_of_child {b c : ι} (h : c ∈ T.childrenIds b) : c ≠ T.root := by
  rintro rfl
  exact T.root_not_child b h

/-- No branch is its own child. -/
theorem not_mem_children_self (b : ι) : b ∉ T.childrenIds b := by
  intro h
  have := T.depth_child b b h
  omega

/-- What holds of the root and passes from a branch to its children holds of every branch. -/
theorem induction_down {P : ι → Prop} (hroot : P T.root)
    (hchild : ∀ p c, p ∈ T.ids → c ∈ T.childrenIds p → P p → P c) {b : ι} (hb : b ∈ T.ids) :
    P b := by
  induction hn : T.depth b generalizing b with
  | zero =>
    rcases T.has_parent b hb with rfl | ⟨p, hp, hc⟩
    · exact hroot
    · have := T.depth_child p b hc
      omega
  | succ n ih =>
    rcases T.has_parent b hb with rfl | ⟨p, hp, hc⟩
    · exact hroot
    · have hdepth := T.depth_child p b hc
      exact hchild p b hp hc (ih hp (by omega))

end BranchTree

end Seekira.Model
