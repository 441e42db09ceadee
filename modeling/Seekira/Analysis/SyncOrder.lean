import Seekira.Analysis.PipelineBranchTree
import Seekira.Analysis.PipelineValidity
import Seekira.Model.SyncPipeline

/-!
# The order in which the synchronous pipeline calls the nodes

On a tree the queue of `process` visits every branch once, a branch after its parent, and
this order depends on the configuration only.  The nodes are called in the order of the
visited branches until one of them throws.
-/

set_option autoImplicit false

namespace Seekira.Model

open Library

variable {ι δ : Type}

/-! ## Calls in a given order -/

/-- Run the branches in the given order. -/
def SyncPipeline.runBranches (tasks : NodeTasks ι δ) (branchOf : ι → List ι) :
    List ι → Proc (SyncFailure ι) (SyncRun ι δ) Unit
  | [] => pure ()
  | b :: rest => do
    Proc.modify fun s => { s with visited := s.visited ++ [b] }
    PipelineBranch.process tasks (branchOf b)
    SyncPipeline.runBranches tasks branchOf rest

/-- After the calls of `done`, the nodes of `plan` are called in this order: all of them, or up to
one that throws. -/
inductive CallsInOrder (tasks : NodeTasks ι δ) (done : List (ι × δ)) (plan : List ι) :
    Except (SyncFailure ι) Unit × SyncRun ι δ → Prop
  | returned (s' : SyncRun ι δ) (new : List (ι × δ)) : s'.calls = done ++ new →
      new.map Prod.fst = plan → (∀ q ∈ new, (tasks q.1 q.2).1 = .ok ()) →
      CallsInOrder tasks done plan (.ok (), s')
  | thrown (s' : SyncRun ι δ) (e : Exc) (new : List (ι × δ)) (x : ι) (d : δ) (rest : List ι) :
      s'.calls = done ++ (new ++ [(x, d)]) → new.map Prod.fst ++ x :: rest = plan →
      (∀ q ∈ new, (tasks q.1 q.2).1 = .ok ()) → (tasks x d).1 = .error e →
      CallsInOrder tasks done plan (.error (.task e), s')

namespace CallsInOrder

variable {tasks : NodeTasks ι δ} {done : List (ι × δ)} {s : SyncRun ι δ}

/-- One procedure after another. -/
theorem bind {p q : Proc (SyncFailure ι) (SyncRun ι δ) Unit} {plan plan' : List ι}
    (hp : CallsInOrder tasks done plan (p s))
    (hq : ∀ s', CallsInOrder tasks s'.calls plan' (q s')) :
    CallsInOrder tasks done (plan ++ plan') ((p >>= fun _ => q) s) := by
  rcases hps : p s with ⟨_ | _, s₁⟩
  · rw [Proc.bind_error hps]
    rw [hps] at hp
    cases hp with
    | thrown _ e new x d rest hcalls hplan hok hthrown =>
      exact .thrown _ e new x d (rest ++ plan') hcalls (by rw [← hplan]; simp) hok hthrown
  · rw [Proc.bind_ok hps]
    rw [hps] at hp
    cases hp with
    | returned _ new hcalls hplan hok =>
      rcases hqs : q s₁ with ⟨_ | _, s₂⟩
      · have hrest := hq s₁
        rw [hqs] at hrest
        cases hrest with
        | thrown _ e new' x d rest hcalls' hplan' hok' hthrown =>
          refine .thrown _ e (new ++ new') x d rest ?_ ?_ ?_ hthrown
          · rw [hcalls', hcalls]
            simp
          · rw [← hplan, ← hplan']
            simp
          · intro r hr
            rcases List.mem_append.mp hr with hr | hr
            · exact hok r hr
            · exact hok' r hr
      · have hrest := hq s₁
        rw [hqs] at hrest
        cases hrest with
        | returned _ new' hcalls' hplan' hok' =>
          refine .returned _ (new ++ new') ?_ ?_ ?_
          · rw [hcalls', hcalls, List.append_assoc]
          · rw [List.map_append, hplan, hplan']
          · intro r hr
            rcases List.mem_append.mp hr with hr | hr
            · exact hok r hr
            · exact hok' r hr

end CallsInOrder

/-- A node is called once. -/
theorem PipelineNode.process_calls (tasks : NodeTasks ι δ) (node : ι) (s : SyncRun ι δ) :
    CallsInOrder tasks s.calls [node] (PipelineNode.process tasks node s) := by
  rcases htask : tasks node s.data with ⟨e | _, data⟩
  · simp only [PipelineNode.process, htask]
    exact .thrown _ e [] node s.data [] rfl rfl nofun (by rw [htask])
  · simp only [PipelineNode.process, htask]
    exact .returned _ [(node, s.data)] rfl rfl (by simp [htask])

theorem PipelineBranch.process_calls (tasks : NodeTasks ι δ) (branch : List ι)
    (s : SyncRun ι δ) : CallsInOrder tasks s.calls branch (PipelineBranch.process tasks branch s) := by
  induction branch generalizing s with
  | nil => exact .returned s [] (by simp) rfl nofun
  | cons node rest ih => exact (PipelineNode.process_calls tasks node s).bind ih

/-- The branches are called in order. -/
theorem SyncPipeline.runBranches_calls (tasks : NodeTasks ι δ) (branchOf : ι → List ι)
    (visits : List ι) (s : SyncRun ι δ) :
    CallsInOrder tasks s.calls (visits.flatMap branchOf) (runBranches tasks branchOf visits s) := by
  induction visits generalizing s with
  | nil => exact .returned s [] (by simp) rfl nofun
  | cons b rest ih =>
    unfold runBranches
    rw [List.flatMap_cons, Proc.modify_bind_apply]
    have hbranch := PipelineBranch.process_calls tasks (branchOf b)
      { s with visited := s.visited ++ [b] }
    exact hbranch.bind ih

/-! ## The visited branches -/

/-- A node visits no branch. -/
theorem PipelineNode.process_visited (tasks : NodeTasks ι δ) (node : ι) (s : SyncRun ι δ) :
    (PipelineNode.process tasks node s).2.visited = s.visited := by
  unfold PipelineNode.process
  split
  · rfl
  · rfl

/-- A branch visits no branch. -/
theorem PipelineBranch.process_visited (tasks : NodeTasks ι δ) (branch : List ι)
    (s : SyncRun ι δ) : (PipelineBranch.process tasks branch s).2.visited = s.visited := by
  induction branch generalizing s with
  | nil => rfl
  | cons node rest ih =>
    have hnode := PipelineNode.process_visited tasks node s
    unfold PipelineBranch.process
    rw [Proc.bind_apply]
    rcases hstep : PipelineNode.process tasks node s with ⟨e | _, s₁⟩
    · rw [hstep] at hnode
      exact hnode
    · rw [hstep] at hnode
      exact (ih s₁).trans hnode

/-- The branches that were visited are marked. -/
theorem SyncPipeline.runBranches_visited {tasks : NodeTasks ι δ} {branchOf : ι → List ι}
    {visits : List ι} {s s' : SyncRun ι δ}
    (h : runBranches tasks branchOf visits s = (.ok (), s')) :
    s'.visited = s.visited ++ visits := by
  induction visits generalizing s with
  | nil =>
    cases h
    simp
  | cons b rest ih =>
    unfold runBranches at h
    rw [Proc.modify_bind_apply] at h
    obtain ⟨_, s₁, hbranch, hrest⟩ := Proc.bind_inv h
    have hvisited := PipelineBranch.process_visited tasks (branchOf b)
      { s with visited := s.visited ++ [b] }
    rw [hbranch] at hvisited
    rw [ih hrest, hvisited]
    simp

/-! ## The queue -/

section Queue

variable [DecidableEq ι] {p : BasePipeline ι}

/-- The nodes of branch `b`; none where there is no branch. -/
def BasePipeline.branchNodes (p : BasePipeline ι) (b : ι) : List ι := (p.branches b).getD []

/-- A branch that is there, with a last node in the graph, is run and leads on to its children. -/
theorem SyncPipeline.processBranch_eq (tasks : NodeTasks ι δ) {b last : ι} {l : List ι}
    (hl : p.branches b = some l) (hlast : l.getLast? = some last) (hnode : last ∈ p.graph.ids)
    (s : SyncRun ι δ) :
    processBranch tasks p b s =
      match PipelineBranch.process tasks (p.branchNodes b)
        { s with visited := s.visited ++ [b] } with
      | (.ok _, s') => (.ok (p.branchChildren b), s')
      | (.error e, s') => (.error e, s') := by
  have hnodes : p.branchNodes b = l := by simp [BasePipeline.branchNodes, hl]
  have hchildren : p.branchChildren b = p.graph.childrenIds last := by
    simp [BasePipeline.branchChildren, hl, hlast]
  have hget : p.graph.getNode last = .ok last := BasePipeline.getNode_of_mem hnode
  unfold processBranch
  rw [Proc.modify_bind_apply, hnodes, hchildren]
  simp only [hl, Proc.bind_apply, PipelineBranch.getLastId, hlast, hget]
  rcases PipelineBranch.process tasks l { s with visited := s.visited ++ [b] } with ⟨e | _, s'⟩
  · rfl
  · rfl

/-- The loop runs the branches in the order in which the queue visits them. -/
theorem SyncPipeline.processQueue_eq (tasks : NodeTasks ι δ) (ids : List ι)
    (hbranch : ∀ b ∈ ids, ∃ l last, p.branches b = some l ∧ l.getLast? = some last ∧
      last ∈ p.graph.ids)
    (hchildren : ∀ a x, x ∈ p.branchChildren a → x ∈ ids) {fuel : Nat} {queue visits : List ι}
    (hqueue : ∀ x ∈ queue, x ∈ ids) (h : traverse p.branchChildren fuel queue = some visits)
    (s : SyncRun ι δ) :
    processQueue tasks p fuel queue s = some (runBranches tasks p.branchNodes visits s) := by
  induction fuel generalizing queue visits s with
  | zero => cases h
  | succ fuel ih =>
    rcases queue with _ | ⟨b, queue⟩
    · cases h
      rfl
    · obtain ⟨rest, hrest, rfl⟩ := Option.map_eq_some_iff.mp h
      obtain ⟨l, last, hl, hlast, hnode⟩ := hbranch b (hqueue b (by simp))
      unfold processQueue runBranches
      rw [processBranch_eq tasks hl hlast hnode s, Proc.modify_bind_apply, Proc.bind_apply]
      rcases PipelineBranch.process tasks (p.branchNodes b)
        { s with visited := s.visited ++ [b] } with ⟨e | _, s₁⟩
      · rfl
      · refine ih (fun x hx => ?_) hrest s₁
        rcases List.mem_append.mp hx with hx | hx
        · exact hqueue x (List.mem_cons_of_mem _ hx)
        · exact hchildren b x hx

/-- More fuel does not change a run that has come to an end. -/
theorem SyncPipeline.processQueue_mono (tasks : NodeTasks ι δ) {fuel fuel' : Nat}
    {queue : List ι} {s : SyncRun ι δ} {r : Except (SyncFailure ι) Unit × SyncRun ι δ}
    (h : processQueue tasks p fuel queue s = some r) (hle : fuel ≤ fuel') :
    processQueue tasks p fuel' queue s = some r := by
  induction fuel generalizing fuel' queue s with
  | zero => cases h
  | succ fuel ih =>
    obtain ⟨fuel', rfl⟩ : ∃ n, fuel' = n + 1 := ⟨fuel' - 1, by omega⟩
    rcases queue with _ | ⟨b, queue⟩
    · exact h
    · unfold processQueue at h ⊢
      rcases hbranch : processBranch tasks p b s with ⟨e | children, s₁⟩
      · rw [hbranch] at h
        exact h
      · rw [hbranch] at h
        exact ih h (Nat.le_of_succ_le_succ hle)

/-- The fuel does not decide how a run ends. -/
theorem SyncPipeline.process_unique {tasks : NodeTasks ι δ} {fuel fuel' : Nat} {data : δ}
    {r r' : Except (SyncFailure ι) Unit × SyncRun ι δ} (h : process tasks p fuel data = some r)
    (h' : process tasks p fuel' data = some r') : r = r' := by
  have hmax := processQueue_mono tasks h (Nat.le_max_left fuel fuel')
  have hmax' := processQueue_mono tasks h' (Nat.le_max_right fuel fuel')
  exact Option.some.inj (hmax.symm.trans hmax')

end Queue

/-! ## Trees -/

section Trees

open BasePipeline

variable [LinearOrder ι] {inputNode : ι} {c : PipelineConfig ι}

/-- `visits` lists the branches and `order` the nodes on them: everything once, and a node after
its parent. -/
structure VisitOrder (inputNode : ι) (c : PipelineConfig ι) (p : BasePipeline ι)
    (visits order : List ι) : Prop where
  visits_nodup : visits.Nodup
  visits_mem : ∀ b, b ∈ visits ↔ (p.branches b).isSome
  order_eq : order = visits.flatMap p.branchNodes
  nodup : order.Nodup
  mem : ∀ x, x ∈ order ↔ x ∈ c.nodes
  after_parent : ∀ front x back, order = front ++ x :: back → x = inputNode ∨ ∃ a ∈ front, c.Link a x

namespace PipelineConfig.IsTree

variable {branches : ι → Option (List ι)}

/-- The nodes of the branches visited in order come after their parents. -/
theorem ordered_flatMap
    (hbranches : Branches c.graph (branchIds c.graph) (branchIds c.graph) branches)
    {visits : List ι} (hmem : ∀ b ∈ visits, b ∈ branchIds c.graph)
    (hvisits : RootedTree.Ordered (branchChildren ⟨c.graph, inputNode, branches⟩) inputNode visits) :
    RootedTree.Ordered c.graph.childrenIds inputNode
      (visits.flatMap (branchNodes ⟨c.graph, inputNode, branches⟩)) := by
  induction visits using List.reverseRecOn with
  | nil =>
    intro front x back hsplit
    cases front <;> cases hsplit
  | append_singleton visits b ih =>
    obtain ⟨hbefore, hb⟩ := hvisits.of_snoc
    obtain ⟨l, hl, hchain⟩ := (hbranches b).1 (hmem b (by simp))
    have hnodes : branchNodes ⟨c.graph, inputNode, branches⟩ b = l := by simp [branchNodes, hl]
    rw [List.flatMap_append, List.flatMap_singleton, hnodes]
    refine (ih (fun b hb => hmem b (List.mem_append_left _ hb)) hbefore).append ?_ ?_
    · refine hchain.isChain.imp fun a x hchildren => ?_
      obtain ⟨-, rest, hrest⟩ := hchildren
      simp [hrest]
    · intro x hx
      obtain ⟨rest, rfl⟩ := hchain.eq_cons
      cases hx
      rcases hb with rfl | ⟨a, ha, hba⟩
      · exact .inl rfl
      · -- the last node of branch `a` has been listed, and leads to `b`
        obtain ⟨-, la, last, hla, -, hlast, -, hlastb⟩ := mem_branchChildren hbranches hba
        refine .inr ⟨last, List.mem_flatMap.mpr ⟨a, ha, ?_⟩, hlastb⟩
        simpa [branchNodes, hla] using List.mem_of_getLast? hlast

/-- On a tree the queue visits the branches in an order in which the nodes are listed once and
after their parents. -/
theorem exists_visitOrder (h : c.IsTree inputNode)
    (hbranches : Branches c.graph (branchIds c.graph) (branchIds c.graph) branches) :
    ∃ visits order, VisitOrder inputNode c ⟨c.graph, inputNode, branches⟩ visits order ∧
      ∀ fuel, c.nodes.length < fuel →
        traverse (branchChildren ⟨c.graph, inputNode, branches⟩) fuel [inputNode] = some visits := by
  have htree := h.branchTree hbranches
  obtain ⟨visits, hvisits, hnodup, hmem, hordered⟩ :=
    htree.traverse_root (Nat.lt_succ_self (branchIds c.graph).length)
  have hlength : (branchIds c.graph).length ≤ c.nodes.length :=
    (List.subperm_of_subset (branchIds_nodup c.graph) h.branchIds_mem).length_le
  have hchains : ∀ b ∈ visits, ∃ l, branches b = some l ∧
      Chain c.graph (branchIds c.graph) b l ∧ branchNodes ⟨c.graph, inputNode, branches⟩ b = l := by
    intro b hb
    obtain ⟨l, hl, hchain⟩ := (hbranches b).1 ((hmem b).mp hb)
    exact ⟨l, hl, hchain, by simp [branchNodes, hl]⟩
  refine ⟨visits, visits.flatMap (branchNodes ⟨c.graph, inputNode, branches⟩), ?_, ?_⟩
  · refine ⟨hnodup, ?_, rfl, ?_, ?_, ?_⟩
    · intro b
      rw [hmem]
      constructor
      · intro hb
        obtain ⟨l, hl, -⟩ := (hbranches b).1 hb
        simp [hl]
      · intro hsome
        obtain ⟨l, hl⟩ := Option.isSome_iff_exists.mp hsome
        exact (hbranches.eq_some hl).1
    · refine List.nodup_flatMap.mpr ⟨fun b hb => ?_, hnodup.imp_of_mem fun hb hb' hne => ?_⟩
      · obtain ⟨l, -, hchain, hl⟩ := hchains b hb
        rw [hl]
        exact h.chain_nodup hchain
      · intro x hx hx'
        obtain ⟨l, -, hchain, hl⟩ := hchains _ hb
        obtain ⟨l', -, hchain', hl'⟩ := hchains _ hb'
        rw [hl] at hx
        rw [hl'] at hx'
        exact hne (h.chain_unique ((hmem _).mp hb) ((hmem _).mp hb') hchain hchain'
          (h.chain_mem ((hmem _).mp hb) hchain hx) hx hx')
    · intro x
      rw [List.mem_flatMap]
      constructor
      · rintro ⟨b, hb, hx⟩
        obtain ⟨l, -, hchain, hl⟩ := hchains b hb
        rw [hl] at hx
        exact h.chain_mem ((hmem b).mp hb) hchain hx
      · intro hx
        obtain ⟨b, hb, l, hchain, hxl⟩ := h.exists_chain_mem hx
        obtain ⟨l', -, hchain', hl'⟩ := hchains b ((hmem b).mpr hb)
        obtain rfl := hchain.unique hchain'
        exact ⟨b, (hmem b).mpr hb, by rwa [hl']⟩
    · intro front x back hsplit
      refine (ordered_flatMap hbranches (fun b hb => (hmem b).mp hb) hordered front x back hsplit).imp_right ?_
      rintro ⟨a, ha, hax⟩
      exact ⟨a, ha, mem_children_graph.mp hax⟩
  · intro fuel hfuel
    exact traverse_mono hvisits (by omega)

end PipelineConfig.IsTree

end Trees

end Seekira.Model
