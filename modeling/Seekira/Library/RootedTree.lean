import Mathlib.Data.List.Chain
import Mathlib.Data.List.Nodup
import Mathlib.Data.List.Perm.Subperm
import Mathlib.Logic.Relation

/-!
# Rooted trees and their breadth-first traversal

A rooted tree is given by the list of children of every vertex.  Nothing leads to
the root, at most one vertex leads to any other, and every vertex is reachable from
the root.  A queue that visits its front and appends the children of what it visits
then visits every vertex once, parents before children.

The same conditions rule out cycles: a vertex on a cycle would be reachable from the
root only through itself.
-/

set_option autoImplicit false

namespace Seekira.Library

variable {κ : Type}

/-- `kids` makes `ids` a tree below `root`. -/
structure RootedTree (kids : κ → List κ) (root : κ) (ids : List κ) : Prop where
  root_mem : root ∈ ids
  mem : ∀ a x, x ∈ kids a → x ∈ ids
  nodup : ∀ a, (kids a).Nodup
  root_not_kid : ∀ a, root ∉ kids a
  parent_unique : ∀ a b x, x ∈ kids a → x ∈ kids b → a = b
  reachable : ∀ x ∈ ids, Relation.ReflTransGen (fun a b => b ∈ kids a) root x

/-- Visit the front of the queue and append what it leads to; `none` when the fuel runs out. -/
def traverse (kids : κ → List κ) : Nat → List κ → Option (List κ)
  | 0, _ => none
  | _ + 1, [] => some []
  | fuel + 1, x :: queue => (traverse kids fuel (queue ++ kids x)).map (x :: ·)

namespace RootedTree

variable {kids : κ → List κ} {root : κ} {ids : List κ}

/-- No vertex leads back to itself. -/
theorem acyclic (h : RootedTree kids root ids) (x : κ) :
    ¬Relation.TransGen (fun a b => b ∈ kids a) x x := by
  intro hcycle
  have hmem : x ∈ ids := by
    obtain ⟨a, -, hx⟩ := Relation.TransGen.tail'_iff.mp hcycle
    exact h.mem a x hx
  induction h.reachable x hmem with
  | refl =>
    obtain ⟨a, -, hroot⟩ := Relation.TransGen.tail'_iff.mp hcycle
    exact h.root_not_kid a hroot
  | @tail a x _ hax ih =>
    -- the cycle through `x` comes back through its only parent
    obtain ⟨b, hxb, hbx⟩ := Relation.TransGen.tail'_iff.mp hcycle
    obtain rfl := h.parent_unique a b x hax hbx
    have hcycle : Relation.TransGen (fun a b => b ∈ kids a) a a :=
      Relation.TransGen.head'_iff.mpr ⟨x, hax, hxb⟩
    obtain ⟨c, -, hac⟩ := Relation.TransGen.tail'_iff.mp hcycle
    exact ih hcycle (h.mem c a hac)

/-- A descending list visits no vertex twice. -/
theorem nodup_of_isChain (h : RootedTree kids root ids) {l : List κ}
    (hl : l.IsChain fun a b => b ∈ kids a) : l.Nodup := by
  have hdescend : l.Pairwise (Relation.TransGen fun a b => b ∈ kids a) :=
    List.isChain_iff_pairwise.mp (hl.imp fun _ _ hab => Relation.TransGen.single hab)
  refine hdescend.imp fun hab heq => ?_
  rw [heq] at hab
  exact h.acyclic _ hab

/-! ## Depth -/

/-- `x` lies `n` steps below the root. -/
inductive DepthIs (kids : κ → List κ) (root : κ) : κ → Nat → Prop
  | root : DepthIs kids root root 0
  | kid {a x : κ} {n : Nat} : DepthIs kids root a n → x ∈ kids a → DepthIs kids root x (n + 1)

/-- Every node has a depth. -/
theorem exists_depthIs (h : RootedTree kids root ids) {x : κ} (hx : x ∈ ids) :
    ∃ n, DepthIs kids root x n := by
  induction h.reachable x hx with
  | refl => exact ⟨0, .root⟩
  | @tail a x hroot hax ih =>
    have ha : a ∈ ids := by
      rcases Relation.ReflTransGen.cases_tail hroot with rfl | ⟨b, -, hba⟩
      · exact h.root_mem
      · exact h.mem b a hba
    obtain ⟨n, hn⟩ := ih ha
    exact ⟨n + 1, hn.kid hax⟩

/-- A node has one depth only. -/
theorem depthIs_unique (h : RootedTree kids root ids) {x : κ} {m n : Nat}
    (hm : DepthIs kids root x m) (hn : DepthIs kids root x n) : m = n := by
  induction hm generalizing n with
  | root =>
    cases hn with
    | root => rfl
    | kid _ hroot => exact absurd hroot (h.root_not_kid _)
  | kid _ hax ih =>
    cases hn with
    | root => exact absurd hax (h.root_not_kid _)
    | kid hb hbx =>
      obtain rfl := h.parent_unique _ _ _ hax hbx
      rw [ih hb]

/-- A depth that grows by one from every vertex to its children. -/
theorem exists_depth (h : RootedTree kids root ids) :
    ∃ depth : κ → Nat, ∀ a x, x ∈ kids a → depth x = depth a + 1 := by
  classical
  refine ⟨fun x => if hx : ∃ n, DepthIs kids root x n then hx.choose else 0, fun a x hax => ?_⟩
  have hx := h.exists_depthIs (h.mem a x hax)
  have ha : ∃ n, DepthIs kids root a n := by
    obtain ⟨n, hn⟩ := hx
    cases hn with
    | root => exact absurd hax (h.root_not_kid a)
    | kid hb hbx =>
      obtain rfl := h.parent_unique _ _ _ hax hbx
      exact ⟨_, hb⟩
  simp only [dif_pos hx, dif_pos ha]
  exact h.depthIs_unique hx.choose_spec (ha.choose_spec.kid hax)

/-! ## The traversal -/

/-- `x` comes after a vertex that leads to it, unless it is the root. -/
def Ordered (kids : κ → List κ) (root : κ) (visited : List κ) : Prop :=
  ∀ front x back, visited = front ++ x :: back → x = root ∨ ∃ a ∈ front, x ∈ kids a

/-- What the traversal has visited and what waits in the queue. -/
structure Progress (kids : κ → List κ) (root : κ) (ids visited queue : List κ) : Prop where
  nodup : (visited ++ queue).Nodup
  mem : ∀ x ∈ visited ++ queue, x ∈ ids
  root_mem : root ∈ visited ++ queue
  closed : ∀ a ∈ visited, ∀ x ∈ kids a, x ∈ visited ++ queue
  parent : ∀ x ∈ visited ++ queue, x = root ∨ ∃ a ∈ visited, x ∈ kids a
  ordered : Ordered kids root visited

theorem Progress.initial (h : RootedTree kids root ids) : Progress kids root ids [] [root] where
  nodup := List.nodup_singleton root
  mem := by
    intro x hx
    rw [List.mem_singleton.mp hx]
    exact h.root_mem
  root_mem := List.mem_singleton.mpr rfl
  closed := nofun
  parent := fun x hx => .inl (List.mem_singleton.mp hx)
  ordered := by
    intro front x back hsplit
    cases front <;> cases hsplit

/-- The root, or a child of a visited node, may be visited next. -/
theorem Ordered.snoc {visited : List κ} {x : κ} (h : Ordered kids root visited)
    (hx : x = root ∨ ∃ a ∈ visited, x ∈ kids a) : Ordered kids root (visited ++ [x]) := by
  intro front y back hsplit
  rcases List.eq_nil_or_concat back with rfl | ⟨back', z, rfl⟩
  · obtain ⟨rfl, hy⟩ := List.append_inj' hsplit rfl
    cases hy
    exact hx
  · apply h front y back'
    have hlast : visited ++ [x] = (front ++ y :: back') ++ [z] := by
      rw [hsplit, List.concat_eq_append]
      simp
    exact (List.append_inj' hlast rfl).1

theorem Ordered.of_snoc {visited : List κ} {x : κ} (h : Ordered kids root (visited ++ [x])) :
    Ordered kids root visited ∧ (x = root ∨ ∃ a ∈ visited, x ∈ kids a) := by
  refine ⟨fun front y back hsplit => h front y (back ++ [x]) ?_, h visited x [] rfl⟩
  rw [hsplit]
  simp

/-- A descending list may follow when its first vertex may. -/
theorem Ordered.append {visited l : List κ} (h : Ordered kids root visited)
    (hl : l.IsChain fun a b => b ∈ kids a)
    (hhead : ∀ x ∈ l.head?, x = root ∨ ∃ a ∈ visited, x ∈ kids a) :
    Ordered kids root (visited ++ l) := by
  induction l generalizing visited with
  | nil => rwa [List.append_nil]
  | cons x l ih =>
    have hstep := h.snoc (hhead x rfl)
    rw [← List.singleton_append, ← List.append_assoc]
    apply ih hstep hl.of_cons
    intro y hy
    rcases l with _ | ⟨z, l⟩
    · cases hy
    · cases hy
      exact .inr ⟨x, by simp, (List.isChain_cons_cons.mp hl).1⟩

/-- Visiting the front of the queue. -/
theorem Progress.visit (h : RootedTree kids root ids) {visited queue : List κ} {x : κ}
    (hp : Progress kids root ids visited (x :: queue)) :
    Progress kids root ids (visited ++ [x]) (queue ++ kids x) := by
  have hregroup : visited ++ [x] ++ (queue ++ kids x) = (visited ++ x :: queue) ++ kids x := by simp
  have hx : x ∈ visited ++ x :: queue := by simp
  have hfresh : ∀ y ∈ kids x, y ∉ visited ++ x :: queue := by
    intro y hy hold
    rcases hp.parent y hold with rfl | ⟨a, ha, hya⟩
    · exact h.root_not_kid x hy
    · -- the only parent of `y` is `x`, which has not been visited
      obtain rfl := h.parent_unique a x y hya hy
      exact (List.nodup_append.mp hp.nodup).2.2 a ha a (by simp) rfl
  refine ⟨?_, ?_, ?_, ?_, ?_, hp.ordered.snoc (hp.parent x hx)⟩
  · rw [hregroup]
    exact hp.nodup.append (h.nodup x) fun y hy hkid => hfresh y hkid hy
  · rw [hregroup]
    intro y hy
    rcases List.mem_append.mp hy with hy | hy
    · exact hp.mem y hy
    · exact h.mem x y hy
  · rw [hregroup]
    exact List.mem_append_left _ hp.root_mem
  · rw [hregroup]
    intro a ha y hy
    rcases List.mem_append.mp ha with ha | ha
    · exact List.mem_append_left _ (hp.closed a ha y hy)
    · rw [List.mem_singleton.mp ha] at hy
      exact List.mem_append_right _ hy
  · rw [hregroup]
    intro y hy
    rcases List.mem_append.mp hy with hy | hy
    · refine (hp.parent y hy).imp_right fun ⟨a, ha, hya⟩ => ⟨a, ?_, hya⟩
      exact List.mem_append_left _ ha
    · exact .inr ⟨x, by simp, hy⟩

/-- The visited vertices are among the vertices of the tree, each once. -/
theorem Progress.length_le {visited queue : List κ} (hp : Progress kids root ids visited queue) :
    visited.length + queue.length ≤ ids.length := by
  rw [← List.length_append]
  exact (List.subperm_of_subset hp.nodup hp.mem).length_le

/-- With an empty queue every vertex has been visited. -/
theorem Progress.complete (h : RootedTree kids root ids) {visited : List κ}
    (hp : Progress kids root ids visited []) (x : κ) : x ∈ visited ↔ x ∈ ids := by
  constructor
  · intro hx
    exact hp.mem x (by simpa using hx)
  · intro hx
    induction h.reachable x hx with
    | refl => simpa using hp.root_mem
    | @tail a x hroot hax ih =>
      have ha : a ∈ ids := by
        rcases Relation.ReflTransGen.cases_tail hroot with rfl | ⟨b, -, hba⟩
        · exact h.root_mem
        · exact h.mem b a hba
      simpa using hp.closed a (ih ha) x hax

/-- With fuel for the nodes that are left, the traversal visits all of them. -/
theorem Progress.traverse (h : RootedTree kids root ids) {visited queue : List κ}
    (hp : Progress kids root ids visited queue) {fuel : Nat}
    (hfuel : ids.length < fuel + visited.length) :
    ∃ rest, traverse kids fuel queue = some rest ∧ Progress kids root ids (visited ++ rest) [] := by
  induction fuel generalizing visited queue with
  | zero =>
    have hle := hp.length_le
    omega
  | succ fuel ih =>
    rcases queue with _ | ⟨x, queue⟩
    · exact ⟨[], rfl, by simpa using hp⟩
    · have hfuel' : ids.length < fuel + (visited ++ [x]).length := by
        simp only [List.length_append, List.length_singleton]
        omega
      obtain ⟨rest, hrest, hdone⟩ := ih (hp.visit h) hfuel'
      refine ⟨x :: rest, ?_, by simpa using hdone⟩
      simp only [Library.traverse, hrest, Option.map_some]

/-- With more fuel than vertices the traversal from the root visits every vertex once, parents
before children. -/
theorem traverse_root (h : RootedTree kids root ids) {fuel : Nat} (hfuel : ids.length < fuel) :
    ∃ order, traverse kids fuel [root] = some order ∧ order.Nodup ∧ (∀ x, x ∈ order ↔ x ∈ ids) ∧
      Ordered kids root order := by
  obtain ⟨order, horder, hdone⟩ := (Progress.initial h).traverse h (by simpa using hfuel)
  refine ⟨order, horder, ?_, ?_, ?_⟩
  · simpa using hdone.nodup
  · simpa using hdone.complete h
  · simpa using hdone.ordered

end RootedTree

/-- More fuel does not change a traversal that has come to an end. -/
theorem traverse_mono {kids : κ → List κ} {fuel fuel' : Nat} {queue l : List κ}
    (h : traverse kids fuel queue = some l) (hle : fuel ≤ fuel') :
    traverse kids fuel' queue = some l := by
  induction fuel generalizing fuel' queue l with
  | zero => cases h
  | succ fuel ih =>
    obtain ⟨fuel', rfl⟩ : ∃ n, fuel' = n + 1 := ⟨fuel' - 1, by omega⟩
    rcases queue with _ | ⟨x, queue⟩
    · exact h
    · obtain ⟨rest, hrest, rfl⟩ := Option.map_eq_some_iff.mp h
      simp only [traverse, ih hrest (Nat.le_of_succ_le_succ hle), Option.map_some]

end Seekira.Library
