import Seekira.Analysis.SyncOrder

/-!
# The data the nodes are called on

When the tasks are functions of the data, the data a node should be called on is the
input transformed by the tasks on the path from the input node to its parent.  The
synchronous pipeline has one object for all nodes, so every node finds what the nodes
called before it have made of the input, whether they are on its path or not.
-/

set_option autoImplicit false

namespace Seekira.Model

open Library BasePipeline

variable {ι δ : Type}

/-- `x` is the input `d` transformed by the tasks on the path from the input node to the parent of
the node. -/
inductive PathData (inputNode : ι) (c : PipelineConfig ι) (f : ι → δ → δ) (d : δ) : ι → δ → Prop
  | input : PathData inputNode c f d inputNode d
  | link {a b : ι} {x : δ} : PathData inputNode c f d a x → c.Link a b →
      PathData inputNode c f d b (f a x)

/-- The tasks that are functions of the data. -/
def functionTasks (f : ι → δ → δ) : NodeTasks ι δ := fun node => Proc.modify (f node)

/-- The calls of the nodes, one after the other on one object that starts as `d`. -/
def callsOnOne (f : ι → δ → δ) : List ι → δ → List (ι × δ)
  | [], _ => []
  | node :: rest, d => (node, d) :: callsOnOne f rest (f node d)

/-- The calls of two parts, the second on what the first left. -/
theorem callsOnOne_append (f : ι → δ → δ) (l l' : List ι) (d : δ) :
    callsOnOne f (l ++ l') d =
      callsOnOne f l d ++ callsOnOne f l' (l.foldl (fun d node => f node d) d) := by
  induction l generalizing d with
  | nil => rfl
  | cons node rest ih =>
    have hstep : callsOnOne f (node :: (rest ++ l')) d =
        (node, d) :: callsOnOne f (rest ++ l') (f node d) := rfl
    rw [List.cons_append, hstep, ih (f node d)]
    rfl

/-! ## The calls of `process` -/

/-- A branch of functions applies them one after the other. -/
theorem PipelineBranch.process_functionTasks (f : ι → δ → δ) (branch : List ι)
    (s : SyncRun ι δ) :
    PipelineBranch.process (functionTasks f) branch s =
      (.ok (), ⟨branch.foldl (fun d node => f node d) s.data, s.visited,
        s.calls ++ callsOnOne f branch s.data⟩) := by
  induction branch generalizing s with
  | nil => simp [PipelineBranch.process, callsOnOne]
  | cons node rest ih =>
    have hnode : PipelineNode.process (functionTasks f) node s =
        (.ok (), ⟨f node s.data, s.visited, s.calls ++ [(node, s.data)]⟩) := rfl
    unfold PipelineBranch.process callsOnOne
    rw [Proc.bind_ok hnode, ih]
    simp

/-- Branches of functions apply them one after the other. -/
theorem SyncPipeline.runBranches_functionTasks (f : ι → δ → δ) (branchOf : ι → List ι)
    (visits : List ι) (s : SyncRun ι δ) :
    runBranches (functionTasks f) branchOf visits s =
      (.ok (), ⟨(visits.flatMap branchOf).foldl (fun d node => f node d) s.data,
        s.visited ++ visits, s.calls ++ callsOnOne f (visits.flatMap branchOf) s.data⟩) := by
  induction visits generalizing s with
  | nil => simp [runBranches, callsOnOne]
  | cons b rest ih =>
    unfold runBranches
    have hbranch := PipelineBranch.process_functionTasks f (branchOf b)
      { s with visited := s.visited ++ [b] }
    rw [Proc.modify_bind_apply, Proc.bind_ok hbranch, ih, List.flatMap_cons, callsOnOne_append,
      List.foldl_append]
    simp

/-! ## The data of a path -/

section Path

variable {inputNode : ι} {c : PipelineConfig ι} {f : ι → δ → δ} {d : δ}

/-- In a tree a node has one path, and gets one value. -/
theorem PathData.unique (h : c.IsTree inputNode) {a : ι} {x y : δ}
    (hx : PathData inputNode c f d a x) (hy : PathData inputNode c f d a y) : x = y := by
  induction hx generalizing y with
  | input =>
    cases hy with
    | input => rfl
    | link _ hlink => exact absurd hlink (h.no_parent _)
  | link _ hlink ih =>
    cases hy with
    | input => exact absurd hlink (h.no_parent _)
    | link hy hlink' =>
      obtain rfl := h.link_unique hlink hlink'
      rw [ih hy]

/-- What is called on one object gets the data of its own path exactly when every node leaves the
data of its own path as the next one needs it. -/
theorem callsOnOne_pathData_iff (h : c.IsTree inputNode) {node : ι} {rest : List ι} {x : δ}
    (hx : PathData inputNode c f d node x) :
    (∀ call ∈ callsOnOne f (node :: rest) x, PathData inputNode c f d call.1 call.2) ↔
      (node :: rest).IsChain fun a b =>
        ∀ y, PathData inputNode c f d a y → PathData inputNode c f d b (f a y) := by
  induction rest generalizing node x with
  | nil =>
    refine iff_of_true ?_ (.singleton node)
    intro call hcall
    rw [List.mem_singleton.mp hcall]
    exact hx
  | cons next rest ih =>
    rw [List.isChain_cons_cons]
    unfold callsOnOne
    rw [List.forall_mem_cons]
    constructor
    · rintro ⟨-, hcalls⟩
      have hnext : PathData inputNode c f d next (f node x) := hcalls (next, f node x) (by simp [callsOnOne])
      refine ⟨fun y hy => ?_, (ih hnext).mp hcalls⟩
      rw [hy.unique h hx]
      exact hnext
    · rintro ⟨hnext, hchain⟩
      exact ⟨hx, (ih (hnext x hx)).mpr hchain⟩

end Path

end Seekira.Model
