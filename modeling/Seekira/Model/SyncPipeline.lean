import Seekira.Library.Proc
import Seekira.Model.PipelineGraph
import Seekira.Model.ThreadPoolWorker

/-!
# The synchronous pipeline

`SyncPipeline::process` walks over the branches with a queue of branch ids: it runs the
nodes of the branch at the front one after another and appends the children of the
branch's last node.  All nodes work on the one object that the pointer handed to
`process` leads to.  A node's task may throw, and then leaves `process` with what it
had changed.

The state of a run is that object, with a record of the branch ids taken from the queue
and of the calls of the nodes, each with the data it found.  No step reads the record.
-/

set_option autoImplicit false

namespace Seekira.Model

open Library

variable {ι δ : Type}

/-- The ways out of `process` other than returning. -/
inductive SyncFailure (ι : Type) where
  /-- an assert of the pipeline -/
  | assertion (e : PipelineError ι)
  /-- an exception of a node's task -/
  | task (e : Exc)
  deriving DecidableEq, Repr

/-- The data of a run, and what it did so far. -/
structure SyncRun (ι δ : Type) where
  data : δ
  /-- the ids taken from the queue -/
  visited : List ι
  /-- the nodes whose `process` was called, with the data they were called on -/
  calls : List (ι × δ)
  deriving DecidableEq, Repr

/-- The tasks of the nodes. -/
abbrev NodeTasks (ι δ : Type) := ι → Proc Exc δ Unit

/-- SOURCE: proc/pipeline/pipeline_node.hpp:34-38 -/
def PipelineNode.process (tasks : NodeTasks ι δ) (node : ι) :
    Proc (SyncFailure ι) (SyncRun ι δ) Unit := fun s =>
  match tasks node s.data with
  | (.ok _, data) => (.ok (), { s with data := data, calls := s.calls ++ [(node, s.data)] })
  | (.error e, data) =>
    (.error (.task e), { s with data := data, calls := s.calls ++ [(node, s.data)] })

/-- SOURCE: proc/pipeline/pipeline_branch.hpp:37-41 -/
def PipelineBranch.process (tasks : NodeTasks ι δ) :
    List ι → Proc (SyncFailure ι) (SyncRun ι δ) Unit
  | [] => pure ()
  | node :: rest => do
    PipelineNode.process tasks node
    PipelineBranch.process tasks rest

/-- SOURCE: proc/pipeline/pipeline_branch.hpp:30-35 -/
def PipelineBranch.getLastId (branch : List ι) : Except (PipelineError ι) ι :=
  match branch.getLast? with
  | none => .error .emptyBranch
  | some id => .ok id

namespace SyncPipeline

variable [DecidableEq ι]

/-- `id` is at the front of the queue: run its branch, and return the ids to append.
SOURCE: proc/pipeline/sync/sync_pipeline.hpp:21-29 -/
def processBranch (tasks : NodeTasks ι δ) (p : BasePipeline ι) (id : ι) :
    Proc (SyncFailure ι) (SyncRun ι δ) (List ι) := do
  Proc.modify fun s => { s with visited := s.visited ++ [id] }
  match p.branches id with
  | none => Proc.throw (.assertion (.notInBranch id))
  | some branch =>
    PipelineBranch.process tasks branch
    match PipelineBranch.getLastId branch with
    | .error e => Proc.throw (.assertion e)
    | .ok last =>
      match p.graph.getNode last with
      | .error e => Proc.throw (.assertion e)
      | .ok node => pure (p.graph.childrenIds node)

/-- The loop over the queue; `none` when the fuel runs out.
SOURCE: proc/pipeline/sync/sync_pipeline.hpp:19-30 -/
def processQueue (tasks : NodeTasks ι δ) (p : BasePipeline ι) :
    Nat → List ι → SyncRun ι δ → Option (Except (SyncFailure ι) Unit × SyncRun ι δ)
  | 0, _, _ => none
  | _ + 1, [], s => some (.ok (), s)
  | fuel + 1, id :: queue, s =>
    match processBranch tasks p id s with
    | (.error e, s) => some (.error e, s)
    | (.ok children, s) => processQueue tasks p fuel (queue ++ children) s

/-- SOURCE: proc/pipeline/sync/sync_pipeline.hpp:13-31 -/
def process (tasks : NodeTasks ι δ) (p : BasePipeline ι) (fuel : Nat) (data : δ) :
    Option (Except (SyncFailure ι) Unit × SyncRun ι δ) :=
  processQueue tasks p fuel [p.root] ⟨data, [], []⟩

end SyncPipeline

end Seekira.Model
