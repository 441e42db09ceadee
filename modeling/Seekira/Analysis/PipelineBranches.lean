import Mathlib.Data.List.Dedup
import Seekira.Analysis.PipelineBuilding

/-!
# The branches that `init_branches` builds

A branch is a chain: it starts at one of the branch ids and follows first children
until it comes to a leaf or to the start of another branch.  Each pass of the loop
over the branch ids adds one branch, provided that its chain ends.
-/

set_option autoImplicit false

namespace Seekira.Model

open Library

variable {ι : Type}

namespace BasePipeline

/-- `l` lists the nodes from `x` on, along first children, up to a leaf or to the node before the
start of a branch. -/
inductive Chain (g : BaseGraph ι) (heads : List ι) : ι → List ι → Prop
  | leaf {x : ι} : g.childrenIds x = [] → Chain g heads x [x]
  | stop {x y : ι} {rest : List ι} : g.childrenIds x = y :: rest → y ∈ heads → Chain g heads x [x]
  | next {x y : ι} {rest l : List ι} : g.childrenIds x = y :: rest → y ∉ heads →
      Chain g heads y l → Chain g heads x (x :: l)

namespace Chain

variable {g : BaseGraph ι} {heads : List ι} {x : ι} {l : List ι}

theorem self_mem (h : Chain g heads x l) : x ∈ l := by
  cases h <;> simp

theorem eq_cons (h : Chain g heads x l) : ∃ rest, l = x :: rest := by
  cases h <;> simp

/-- Every node of a chain but the first is the first child of a node of the chain, and starts no
branch. -/
theorem parent_mem (h : Chain g heads x l) {z : ι} (hz : z ∈ l) :
    z = x ∨ z ∉ heads ∧ ∃ a ∈ l, ∃ rest, g.childrenIds a = z :: rest := by
  induction h with
  | leaf _ => exact .inl (List.mem_singleton.mp hz)
  | stop _ _ => exact .inl (List.mem_singleton.mp hz)
  | @next x y rest l hchildren hy _ ih =>
    rcases List.mem_cons.mp hz with rfl | hz
    · exact .inl rfl
    · right
      rcases ih hz with rfl | ⟨hhead, a, ha, hrest⟩
      · exact ⟨hy, x, by simp, rest, hchildren⟩
      · exact ⟨hhead, a, List.mem_cons_of_mem _ ha, hrest⟩

/-- A chain goes on to the first child of each of its nodes that starts no branch. -/
theorem closed (h : Chain g heads x l) {a y : ι} {rest : List ι} (ha : a ∈ l)
    (hchildren : g.childrenIds a = y :: rest) (hy : y ∉ heads) : y ∈ l := by
  induction h with
  | leaf hleaf =>
    rw [List.mem_singleton.mp ha, hleaf] at hchildren
    cases hchildren
  | stop hstop hhead =>
    rw [List.mem_singleton.mp ha, hstop] at hchildren
    cases hchildren
    exact absurd hhead hy
  | next hnext _ hchain ih =>
    rcases List.mem_cons.mp ha with rfl | ha
    · rw [hnext] at hchildren
      cases hchildren
      exact List.mem_cons_of_mem _ hchain.self_mem
    · exact List.mem_cons_of_mem _ (ih ha)

/-- In a chain every node is followed by its first child, which starts no branch. -/
theorem isChain (h : Chain g heads x l) :
    l.IsChain fun a b => b ∉ heads ∧ ∃ rest, g.childrenIds a = b :: rest := by
  induction h with
  | leaf _ => exact .singleton _
  | stop _ _ => exact .singleton _
  | next hchildren hgo hchain ih =>
    obtain ⟨l', rfl⟩ := hchain.eq_cons
    exact List.isChain_cons_cons.mpr ⟨⟨hgo, _, hchildren⟩, ih⟩

/-- A chain ends at a leaf or in front of the start of a branch. -/
theorem last_stops (h : Chain g heads x l) :
    ∃ z, l.getLast? = some z ∧ ∀ y rest, g.childrenIds z = y :: rest → y ∈ heads := by
  induction h with
  | @leaf x hleaf =>
    refine ⟨x, rfl, fun y rest hchildren => ?_⟩
    rw [hleaf] at hchildren
    cases hchildren
  | @stop x y rest hstop hhead =>
    refine ⟨x, rfl, fun y' rest' hchildren => ?_⟩
    rw [hstop] at hchildren
    cases hchildren
    exact hhead
  | next _ _ hchain ih =>
    obtain ⟨l', rfl⟩ := hchain.eq_cons
    obtain ⟨z, hz, hstops⟩ := ih
    exact ⟨z, by rw [List.getLast?_cons_cons]; exact hz, hstops⟩

/-- A node that does not go on is the last one. -/
theorem eq_last (h : Chain g heads x l) {a : ι} (ha : a ∈ l)
    (hstops : ∀ y rest, g.childrenIds a = y :: rest → y ∈ heads) : l.getLast? = some a := by
  induction h with
  | leaf _ => rw [List.mem_singleton.mp ha]; rfl
  | stop _ _ => rw [List.mem_singleton.mp ha]; rfl
  | next hchildren hhead hchain ih =>
    rcases List.mem_cons.mp ha with rfl | ha
    · exact absurd (hstops _ _ hchildren) hhead
    · obtain ⟨l', rfl⟩ := hchain.eq_cons
      rw [List.getLast?_cons_cons]
      exact ih ha

/-- The chain from a node is unique. -/
theorem unique (h : Chain g heads x l) {l' : List ι} (h' : Chain g heads x l') : l = l' := by
  induction h generalizing l' with
  | leaf hleaf =>
    cases h' with
    | leaf _ => rfl
    | stop _ _ => rfl
    | next hchildren _ _ =>
      rw [hleaf] at hchildren
      cases hchildren
  | stop hstop hhead =>
    cases h' with
    | leaf _ => rfl
    | stop _ _ => rfl
    | next hchildren hy _ =>
      rw [hstop] at hchildren
      cases hchildren
      exact absurd hhead hy
  | next hchildren hy _ ih =>
    cases h' with
    | leaf hleaf =>
      rw [hchildren] at hleaf
      cases hleaf
    | stop hstop hhead =>
      rw [hchildren] at hstop
      cases hstop
      exact absurd hhead hy
    | next hchildren' _ hchain' =>
      rw [hchildren] at hchildren'
      cases hchildren'
      rw [ih hchain']

/-- No chain starts among nodes each of which goes on to another of them. -/
theorem not_of_endless {S : ι → Prop}
    (hS : ∀ x, S x → ∃ y rest, g.childrenIds x = y :: rest ∧ y ∉ heads ∧ S y) (hx : S x) :
    ¬Chain g heads x l := by
  intro h
  induction h with
  | leaf hleaf =>
    obtain ⟨y, rest, hchildren, -⟩ := hS _ hx
    rw [hleaf] at hchildren
    cases hchildren
  | stop hstop hhead =>
    obtain ⟨y, rest, hchildren, hy, -⟩ := hS _ hx
    rw [hstop] at hchildren
    cases hchildren
    exact hy hhead
  | next hnext _ _ ih =>
    obtain ⟨y, rest, hchildren, -, hSy⟩ := hS _ hx
    rw [hnext] at hchildren
    cases hchildren
    exact ih hSy

end Chain

/-! ## The loops -/

section Loops

variable [DecidableEq ι] {g : BaseGraph ι} {heads : List ι} {branches : ι → Option (List ι)}

theorem getNode_of_mem {id : ι} (h : id ∈ g.ids) : g.getNode id = .ok id := if_pos h

/-- A branch ends before the next one begins. -/
theorem extendBranch_head {front y : ι} {fuel : Nat} (h : y ∈ heads) :
    extendBranch g heads front (fuel + 1) y branches = some (.ok branches) := if_pos h

/-- A node without children is the last one of its branch. -/
theorem extendBranch_leaf {front y : ι} (hhead : y ∉ heads) (hy : y ∈ g.ids) {fuel : Nat}
    {nodes : List ι} (hfront : branches front = some nodes) (hleaf : g.childrenIds y = []) :
    extendBranch g heads front (fuel + 1) y branches =
      some (.ok (Function.update branches front (some (nodes ++ [y])))) := by
  rw [extendBranch, if_neg hhead, getNode_of_mem hy]
  simp only [addNodeToBranch, hfront, hleaf]

/-- From any other node the loop goes on at the first child. -/
theorem extendBranch_next {front y next : ι} {rest : List ι} (hhead : y ∉ heads) (hy : y ∈ g.ids)
    {fuel : Nat} {nodes : List ι} (hfront : branches front = some nodes)
    (hchildren : g.childrenIds y = next :: rest) :
    extendBranch g heads front (fuel + 1) y branches =
      extendBranch g heads front fuel next
        (Function.update branches front (some (nodes ++ [y]))) := by
  rw [extendBranch, if_neg hhead, getNode_of_mem hy]
  simp only [addNodeToBranch, hfront, hchildren]

/-- The inner loop adds what is left of the chain, and cannot fail. -/
theorem extendBranch_eq_some (hmem : ∀ a b, b ∈ g.childrenIds a → b ∈ g.ids) {front y : ι}
    (hy : y ∈ g.ids) {fuel : Nat} {nodes : List ι} (hfront : branches front = some nodes)
    {r : Except (PipelineError ι) (ι → Option (List ι))}
    (h : extendBranch g heads front fuel y branches = some r) :
    (y ∈ heads ∧ r = .ok branches) ∨ (y ∉ heads ∧ ∃ l, Chain g heads y l ∧
      r = .ok (Function.update branches front (some (nodes ++ l)))) := by
  induction fuel generalizing y branches nodes with
  | zero => cases h
  | succ fuel ih =>
    by_cases hhead : y ∈ heads
    · rw [extendBranch_head hhead] at h
      cases h
      exact .inl ⟨hhead, rfl⟩
    · refine .inr ⟨hhead, ?_⟩
      cases hchildren : g.childrenIds y with
      | nil =>
        rw [extendBranch_leaf hhead hy hfront hchildren] at h
        cases h
        exact ⟨[y], .leaf hchildren, rfl⟩
      | cons next rest =>
        rw [extendBranch_next hhead hy hfront hchildren] at h
        have hnext : next ∈ g.ids := hmem y next (by simp [hchildren])
        rcases ih hnext (Function.update_self ..) h with ⟨hstop, rfl⟩ | ⟨hgo, l, hchain, rfl⟩
        · exact ⟨[y], .stop hchildren hstop, rfl⟩
        · refine ⟨y :: l, .next hchildren hgo hchain, ?_⟩
          rw [Function.update_idem, List.append_assoc, List.singleton_append]

/-- With enough fuel the inner loop comes to the end of a chain. -/
theorem extendBranch_of_chain (hmem : ∀ a b, b ∈ g.childrenIds a → b ∈ g.ids) {front y : ι}
    (hy : y ∈ g.ids) {fuel : Nat} {nodes l : List ι} (hfront : branches front = some nodes)
    (hchain : Chain g heads y l) (hfuel : l.length < fuel) :
    ∃ r, extendBranch g heads front fuel y branches = some r := by
  obtain ⟨fuel, rfl⟩ := Nat.exists_eq_add_of_lt (Nat.zero_lt_of_lt hfuel)
  rw [Nat.zero_add] at hfuel ⊢
  by_cases hhead : y ∈ heads
  · exact ⟨_, extendBranch_head hhead⟩
  induction hchain generalizing fuel branches nodes with
  | leaf hleaf => exact ⟨_, extendBranch_leaf hhead hy hfront hleaf⟩
  | stop hchildren hstop =>
    rw [extendBranch_next hhead hy hfront hchildren]
    cases fuel with
    | zero => simp at hfuel
    | succ fuel => exact ⟨_, extendBranch_head hstop⟩
  | @next x y rest l hchildren hgo _ ih =>
    rw [extendBranch_next hhead hy hfront hchildren]
    cases fuel with
    | zero => simp at hfuel
    | succ fuel =>
      apply ih
      · exact hmem x y (by simp [hchildren])
      · exact Function.update_self ..
      · simpa using hfuel
      · exact hgo

/-- One pass adds the chain from its branch id as a branch. -/
theorem initBranch_eq_some (hmem : ∀ a b, b ∈ g.childrenIds a → b ∈ g.ids) {id : ι}
    (hid : id ∈ g.ids) {fuel : Nat} (hnew : branches id = none)
    {r : Except (PipelineError ι) (ι → Option (List ι))}
    (h : initBranch g heads fuel id branches = some r) :
    ∃ l, Chain g heads id l ∧ r = .ok (Function.update branches id (some l)) := by
  unfold initBranch at h
  rw [getNode_of_mem hid] at h
  have hcreate : createBranch id branches = .ok (Function.update branches id (some [id])) := by
    simp [createBranch, hnew]
  simp only [hcreate] at h
  rcases hchildren : g.childrenIds id with _ | ⟨next, rest⟩
  · rw [hchildren] at h
    cases h
    exact ⟨[id], .leaf hchildren, rfl⟩
  · rw [hchildren] at h
    have hnext : next ∈ g.ids := hmem id next (by simp [hchildren])
    rcases extendBranch_eq_some hmem hnext (Function.update_self ..) h with
      ⟨hstop, rfl⟩ | ⟨hgo, l, hchain, rfl⟩
    · exact ⟨[id], .stop hchildren hstop, rfl⟩
    · refine ⟨id :: l, .next hchildren hgo hchain, ?_⟩
      rw [Function.update_idem, List.singleton_append]

/-- A new branch gets the chain of its first node. -/
theorem initBranch_of_chain (hmem : ∀ a b, b ∈ g.childrenIds a → b ∈ g.ids) {id : ι}
    (hid : id ∈ g.ids) {fuel : Nat} (hnew : branches id = none) {l : List ι}
    (hchain : Chain g heads id l) (hfuel : l.length ≤ fuel) :
    ∃ r, initBranch g heads fuel id branches = some r := by
  unfold initBranch
  rw [getNode_of_mem hid]
  have hcreate : createBranch id branches = .ok (Function.update branches id (some [id])) := by
    simp [createBranch, hnew]
  simp only [hcreate]
  cases hchain with
  | leaf hleaf =>
    rw [hleaf]
    exact ⟨_, rfl⟩
  | stop hchildren hstop =>
    rw [hchildren]
    cases fuel with
    | zero => simp at hfuel
    | succ fuel => exact ⟨_, extendBranch_head hstop⟩
  | next hchildren hgo hchain =>
    rw [hchildren]
    exact extendBranch_of_chain hmem (hmem id _ (by simp [hchildren])) (Function.update_self ..) hchain
      (Nat.lt_of_succ_le hfuel)

/-- The branches are the chains from the ids the loop has passed. -/
def Branches (g : BaseGraph ι) (heads ids : List ι) (branches : ι → Option (List ι)) : Prop :=
  ∀ id, (id ∈ ids → ∃ l, branches id = some l ∧ Chain g heads id l) ∧ (id ∉ ids → branches id = none)

omit [DecidableEq ι] in

theorem Branches.nil (g : BaseGraph ι) (heads : List ι) : Branches g heads [] fun _ => none :=
  fun _ => ⟨nofun, fun _ => rfl⟩

/-- One branch more has its chain. -/
theorem Branches.snoc {ids : List ι} (h : Branches g heads ids branches) {id : ι} {l : List ι}
    (hchain : Chain g heads id l) :
    Branches g heads (ids ++ [id]) (Function.update branches id (some l)) := by
  intro b
  by_cases hb : b = id
  · subst hb
    exact ⟨fun _ => ⟨l, Function.update_self .., hchain⟩, fun hout => absurd (by simp) hout⟩
  · rw [Function.update_of_ne hb]
    refine ⟨fun hmem => (h b).1 ?_, fun hout => (h b).2 fun hmem => hout ?_⟩
    · simpa [hb] using hmem
    · exact List.mem_append_left _ hmem

/-- The branches that are made have the chains of their first nodes. -/
theorem initEach_eq_some (hmem : ∀ a b, b ∈ g.childrenIds a → b ∈ g.ids) {fuel : Nat}
    {rest done : List ι} (hnodup : (done ++ rest).Nodup) (hids : ∀ id ∈ rest, id ∈ g.ids)
    (hdone : Branches g heads done branches) {r : Except (PipelineError ι) (ι → Option (List ι))}
    (h : initEach g heads fuel rest branches = some r) :
    ∃ branches', r = .ok branches' ∧ Branches g heads (done ++ rest) branches' := by
  induction rest generalizing done branches with
  | nil =>
    cases h
    exact ⟨branches, rfl, by simpa using hdone⟩
  | cons id rest ih =>
    have hnew : branches id = none := (hdone id).2 fun hold =>
      (List.nodup_append.mp hnodup).2.2 id hold id (by simp) rfl
    unfold initEach at h
    rcases hpass : initBranch g heads fuel id branches with _ | r₁
    · rw [hpass] at h
      cases h
    · obtain ⟨l, hchain, rfl⟩ := initBranch_eq_some hmem (hids id (by simp)) hnew hpass
      rw [hpass] at h
      have hregroup : done ++ id :: rest = (done ++ [id]) ++ rest := by simp
      rw [hregroup] at hnodup ⊢
      exact ih hnodup (fun id' hid' => hids id' (List.mem_cons_of_mem _ hid')) (hdone.snoc hchain) h

/-- With fuel for every chain, all branches are made. -/
theorem initEach_of_chains (hmem : ∀ a b, b ∈ g.childrenIds a → b ∈ g.ids) {fuel : Nat}
    {rest done : List ι} (hnodup : (done ++ rest).Nodup) (hids : ∀ id ∈ rest, id ∈ g.ids)
    (hdone : Branches g heads done branches)
    (hchains : ∀ id ∈ rest, ∃ l, Chain g heads id l ∧ l.length ≤ fuel) :
    ∃ r, initEach g heads fuel rest branches = some r := by
  induction rest generalizing done branches with
  | nil => exact ⟨_, rfl⟩
  | cons id rest ih =>
    have hnew : branches id = none := (hdone id).2 fun hold =>
      (List.nodup_append.mp hnodup).2.2 id hold id (by simp) rfl
    obtain ⟨l, hchain, hfuel⟩ := hchains id (by simp)
    obtain ⟨r, hpass⟩ := initBranch_of_chain hmem (hids id (by simp)) hnew hchain hfuel
    obtain ⟨l', hchain', rfl⟩ := initBranch_eq_some hmem (hids id (by simp)) hnew hpass
    unfold initEach
    rw [hpass]
    have hregroup : done ++ id :: rest = (done ++ [id]) ++ rest := by simp
    rw [hregroup] at hnodup
    exact ih hnodup (fun id' hid' => hids id' (List.mem_cons_of_mem _ hid')) (hdone.snoc hchain')
      fun id' hid' => hchains id' (List.mem_cons_of_mem _ hid')

end Loops

end BasePipeline

end Seekira.Model
