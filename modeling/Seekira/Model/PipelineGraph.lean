import Mathlib.Data.List.Sort
import Mathlib.Logic.Function.Basic

/-!
# The graph of a pipeline and its branches

A pipeline is configured by a list of nodes and a list of links.  `deserialize`
builds a graph from them, with the asserts of `add_node` and `add_edge`, looks up the
node named `input_node`, and `init_branches` cuts the graph into branches: a branch
starts at every node without parents and at every child of a node with several
children, and follows first children until a leaf or the start of another branch.

`BasePipeline` leaves `create_branch` and `add_node_to_branch` to its two executors;
their bodies here are `SyncPipeline`'s, and `AsyncPipeline`'s keep the same map under
another name.  The walk along first children has no bound in the source, so it takes
fuel here: `none` is a walk that has not come to an end.

Node ids are strings in the source; here they are any linearly ordered type, with the
id of `input_node` as a parameter.  What the graph keeps besides parents and children
is an adjacency map that only `is_valid` reads, and nobody calls `is_valid`.
-/

set_option autoImplicit false

namespace Seekira.Model

/-- The asserts that can fail, with the ids their messages name. -/
inductive PipelineError (ι : Type) where
  /-- "Graph already contains node with id {}" -/
  | duplicateNode (id : ι)
  /-- "Graph edge has equal from/to: {}" -/
  | equalEnds (id : ι)
  /-- "Graph doesn't contains parent node: {}" -/
  | noParentNode (id : ι)
  /-- "Graph doesn't contains child node: {}" -/
  | noChildNode (id : ι)
  /-- "Graph node {} already contains child {}" -/
  | duplicateChild (fromId toId : ι)
  /-- "Graph node {} already contains parent {}" -/
  | duplicateParent (toId fromId : ι)
  /-- "Pipeline {}: Invalid link" -/
  | invalidLink
  /-- "Graph doesn't contains node {}" -/
  | noNode (id : ι)
  /-- "SyncPipeline already has branch {}" -/
  | duplicateBranch (id : ι)
  /-- "SyncPipeline doesn't have branch {}" -/
  | noBranch (id : ι)
  /-- "No {} in branch" -/
  | notInBranch (id : ι)
  /-- "Pipeline list is empty!" -/
  | emptyBranch
  deriving DecidableEq, Repr

/-- The nodes, with the links into and out of each.
SOURCE: core/graph/node.hpp:11-36, core/graph/graph.hpp:45-49 -/
structure BaseGraph (ι : Type) where
  ids : List ι
  parentsIds : ι → List ι
  childrenIds : ι → List ι

namespace BaseGraph

variable {ι : Type} [DecidableEq ι]

def empty : BaseGraph ι := { ids := [], parentsIds := fun _ => [], childrenIds := fun _ => [] }

/-- SOURCE: core/graph/graph.cpp:9-14 -/
def addNode (id : ι) (g : BaseGraph ι) : Except (PipelineError ι) (BaseGraph ι) :=
  if id ∈ g.ids then .error (.duplicateNode id)
  else .ok { g with ids := g.ids ++ [id] }

/-- SOURCE: core/graph/graph.cpp:16-33 -/
def addEdge (fromId toId : ι) (g : BaseGraph ι) : Except (PipelineError ι) (BaseGraph ι) :=
  if fromId = toId then .error (.equalEnds fromId)
  else if fromId ∉ g.ids then .error (.noParentNode fromId)
  else if toId ∉ g.ids then .error (.noChildNode toId)
  else if toId ∈ g.childrenIds fromId then .error (.duplicateChild fromId toId)
  else if fromId ∈ g.parentsIds toId then .error (.duplicateParent toId fromId)
  else
    .ok { g with
      childrenIds := Function.update g.childrenIds fromId (g.childrenIds fromId ++ [toId])
      parentsIds := Function.update g.parentsIds toId (g.parentsIds toId ++ [fromId]) }

/-- The assert of `get_node`; the node itself is its id.
SOURCE: core/graph/graph.cpp:44-48 -/
def getNode (id : ι) (g : BaseGraph ι) : Except (PipelineError ι) ι :=
  if id ∈ g.ids then .ok id else .error (.noNode id)

omit [DecidableEq ι] in
/-- SOURCE: core/graph/graph_utils.cpp:5-14 -/
def nodesWithoutParents (g : BaseGraph ι) : List ι := g.ids.filter fun id => (g.parentsIds id).isEmpty

omit [DecidableEq ι] in
/-- The nodes with more than one child.
SOURCE: core/graph/graph_utils.cpp:16-25 -/
def nodesWithChildren (g : BaseGraph ι) : List ι :=
  g.ids.filter fun id => 1 < (g.childrenIds id).length

end BaseGraph

/-- The configuration of a pipeline: the ids of its nodes and its links. -/
structure PipelineConfig (ι : Type) where
  nodes : List ι
  links : List (List ι)
  deriving DecidableEq, Repr

/-- A pipeline after `initialize`.
SOURCE: proc/pipeline/pipeline.hpp:112-114, proc/pipeline/sync/sync_pipeline.hpp:49-51 -/
structure BasePipeline (ι : Type) where
  graph : BaseGraph ι
  root : ι
  /-- `m_branches`: the nodes of the branch with the given id -/
  branches : ι → Option (List ι)

namespace BasePipeline

variable {ι : Type}

section Branches

variable [DecidableEq ι]

/-- One link of the configuration.
SOURCE: proc/pipeline/pipeline.hpp:62-68 -/
def addLink (link : List ι) (g : BaseGraph ι) : Except (PipelineError ι) (BaseGraph ι) :=
  match link with
  | [fromId, toId] => g.addEdge fromId toId
  | _ => .error .invalidLink

/-- The part of `deserialize` that builds the graph.
SOURCE: proc/pipeline/pipeline.hpp:55-68 -/
def buildGraph (c : PipelineConfig ι) : Except (PipelineError ι) (BaseGraph ι) := do
  let g ← c.nodes.foldlM (fun g id => g.addNode id) BaseGraph.empty
  c.links.foldlM (fun g link => addLink link g) g

/-- SOURCE: proc/pipeline/sync/sync_pipeline.hpp:34-40 -/
def createBranch (branchRoot : ι) (branches : ι → Option (List ι)) :
    Except (PipelineError ι) (ι → Option (List ι)) :=
  if (branches branchRoot).isSome then .error (.duplicateBranch branchRoot)
  else .ok (Function.update branches branchRoot (some [branchRoot]))

/-- SOURCE: proc/pipeline/sync/sync_pipeline.hpp:42-47 -/
def addNodeToBranch (branchId node : ι) (branches : ι → Option (List ι)) :
    Except (PipelineError ι) (ι → Option (List ι)) :=
  match branches branchId with
  | none => .error (.noBranch branchId)
  | some list => .ok (Function.update branches branchId (some (list ++ [node])))

/-- The inner loop of `init_branches`: from `processedId` on, add nodes to the branch of
`listFrontId` along first children.
SOURCE: proc/pipeline/pipeline.hpp:98-107 -/
def extendBranch (g : BaseGraph ι) (branchIds : List ι) (listFrontId : ι) :
    Nat → ι → (ι → Option (List ι)) → Option (Except (PipelineError ι) (ι → Option (List ι)))
  | 0, _, _ => none
  | fuel + 1, processedId, branches =>
    if processedId ∈ branchIds then some (.ok branches)
    else
      match g.getNode processedId with
      | .error e => some (.error e)
      | .ok node =>
        match addNodeToBranch listFrontId node branches with
        | .error e => some (.error e)
        | .ok branches =>
          match g.childrenIds node with
          | [] => some (.ok branches)
          | next :: _ => extendBranch g branchIds listFrontId fuel next branches

/-- One pass of the loop over `branch_ids`.
SOURCE: proc/pipeline/pipeline.hpp:85-108 -/
def initBranch (g : BaseGraph ι) (branchIds : List ι) (fuel : Nat) (id : ι)
    (branches : ι → Option (List ι)) : Option (Except (PipelineError ι) (ι → Option (List ι))) :=
  match g.getNode id with
  | .error e => some (.error e)
  | .ok node =>
    match createBranch node branches with
    | .error e => some (.error e)
    | .ok branches =>
      match g.childrenIds node with
      | [] => some (.ok branches)
      | next :: _ => extendBranch g branchIds id fuel next branches

/-- The loop over `branch_ids`. -/
def initEach (g : BaseGraph ι) (branchIds : List ι) (fuel : Nat) :
    List ι → (ι → Option (List ι)) → Option (Except (PipelineError ι) (ι → Option (List ι)))
  | [], branches => some (.ok branches)
  | id :: rest, branches =>
    match initBranch g branchIds fuel id branches with
    | none => none
    | some (.error e) => some (.error e)
    | some (.ok branches) => initEach g branchIds fuel rest branches

end Branches

variable [LinearOrder ι]

/-- `branch_ids`, a set that is walked through in the order of the ids.
SOURCE: proc/pipeline/pipeline.hpp:77-83 -/
def branchIds (g : BaseGraph ι) : List ι :=
  ((g.nodesWithoutParents ++ g.nodesWithChildren.flatMap g.childrenIds).dedup).insertionSort (· ≤ ·)

/-- SOURCE: proc/pipeline/pipeline.hpp:75-110 -/
def initBranches (fuel : Nat) (g : BaseGraph ι) :
    Option (Except (PipelineError ι) (ι → Option (List ι))) :=
  initEach g (branchIds g) fuel (branchIds g) fun _ => none

/-- `initialize` of a pipeline; `inputNode` is the id "input_node".
SOURCE: proc/pipeline/pipeline.hpp:20-27, 45-73 -/
def initializePipeline (inputNode : ι) (fuel : Nat) (c : PipelineConfig ι) :
    Option (Except (PipelineError ι) (BasePipeline ι)) :=
  match buildGraph c with
  | .error e => some (.error e)
  | .ok g =>
    match g.getNode inputNode with
    | .error e => some (.error e)
    | .ok root =>
      match initBranches fuel g with
      | none => none
      | some (.error e) => some (.error e)
      | some (.ok branches) => some (.ok { graph := g, root := root, branches := branches })

end BasePipeline

end Seekira.Model
