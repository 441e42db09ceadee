import Mathlib.Data.Finset.Insert
import Mathlib.Logic.Function.Basic
import Seekira.Library.Machine
import Seekira.Library.Proc
import Seekira.Model.PipelineGraph

/-!
# The graph with its three representations of an edge

`BaseGraph` of `core/graph` keeps an edge in the children of its source, in the parents of
its target, and in an adjacency map.  `add_edge` asserts what it needs and updates them one
after the other.  The graph of a pipeline is this one without what only `is_valid` reads.
-/

set_option autoImplicit false

namespace Seekira.Model.CoreGraph

open Library

variable {ι : Type} [DecidableEq ι]

/-- SOURCE: core/graph/node.hpp:11-34 -/
structure BaseGraphNode (ι : Type) where
  id : ι
  parents : List ι
  children : List ι

/-- A node that is in no graph yet. -/
def BaseGraphNode.create (id : ι) : BaseGraphNode ι := { id := id, parents := [], children := [] }

/-- SOURCE: core/graph/graph.hpp:45-48 -/
structure BaseGraph (ι : Type) where
  nodes : ι → Option (BaseGraphNode ι)
  adjMat : ι → Option (Finset ι)

namespace BaseGraph

def empty : BaseGraph ι := { nodes := fun _ => none, adjMat := fun _ => none }

/-- The children of the node with the given id, if there is one. -/
def children (g : BaseGraph ι) (id : ι) : List ι := (g.nodes id).elim [] BaseGraphNode.children

def parents (g : BaseGraph ι) (id : ι) : List ι := (g.nodes id).elim [] BaseGraphNode.parents

/-- `m_adj_mat[id]` -/
def adjacent (g : BaseGraph ι) (id : ι) : Finset ι := (g.adjMat id).getD ∅

/-- Update the node with the given id. -/
def modifyNode (id : ι) (f : BaseGraphNode ι → BaseGraphNode ι) (g : BaseGraph ι) : BaseGraph ι :=
  { g with nodes := Function.update g.nodes id ((g.nodes id).map f) }

/-- The asserts of `add_edge`, in order.
SOURCE: core/graph/graph.cpp:18-28 -/
def checkEdge (source target : ι) : Proc (PipelineError ι) (BaseGraph ι) Unit := fun g =>
  if source = target then (.error (.equalEnds source), g)
  else if (g.nodes source).isNone then (.error (.noParentNode source), g)
  else if (g.nodes target).isNone then (.error (.noChildNode target), g)
  else if target ∈ g.children source then (.error (.duplicateChild source target), g)
  else if source ∈ g.parents target then (.error (.duplicateParent target source), g)
  else (.ok (), g)

/-- SOURCE: core/graph/graph.cpp:9-14 -/
def addNode (id : ι) (node : BaseGraphNode ι) : Proc (PipelineError ι) (BaseGraph ι) Unit := fun g =>
  if (g.nodes id).isSome then (.error (.duplicateNode id), g)
  else (.ok (), { g with nodes := Function.update g.nodes id (some { node with id := id }) })

/-- SOURCE: core/graph/graph.cpp:16-33 -/
def addEdge (source target : ι) : Proc (PipelineError ι) (BaseGraph ι) Unit := do
  checkEdge source target
  Proc.modify (modifyNode source fun node => { node with children := node.children ++ [target] })
  Proc.modify (modifyNode target fun node => { node with parents := node.parents ++ [source] })
  Proc.modify fun g =>
    { g with adjMat := Function.update g.adjMat source (some (insert target (g.adjacent source))) }

/-- A call that changes the graph; `add_node` is given a new node, with any id. -/
inductive Call (ι : Type) where
  | addNode (id nodeId : ι)
  | addEdge (source target : ι)

def Call.run : Call ι → Proc (PipelineError ι) (BaseGraph ι) Unit
  | .addNode id nodeId => BaseGraph.addNode id (BaseGraphNode.create nodeId)
  | .addEdge source target => BaseGraph.addEdge source target

/-- The calls on a graph that is empty at first, whether they throw or not. -/
def machine (ι : Type) [DecidableEq ι] : Machine (BaseGraph ι) (Call ι) where
  init := empty
  step g call := some (call.run g).2

/-! ## The check of a whole graph -/

/-- The setting that the check reads.
SOURCE: core/graph/graph_settings.hpp:5-9 -/
structure GraphSettings where
  oneParent : Bool
  deriving DecidableEq, Repr

/-- The keys of `m_nodes` and those of `m_adj_mat` in the order of their iteration, which the maps
do not specify. -/
structure Iteration (g : BaseGraph ι) where
  ids : List ι
  sources : List ι
  mem_ids : ∀ id, id ∈ ids ↔ (g.nodes id).isSome
  mem_sources : ∀ id, id ∈ sources ↔ (g.adjMat id).isSome

/-- SOURCE: core/graph/graph.cpp:77-87 -/
def nodeIsValid (settings : GraphSettings) (node : BaseGraphNode ι) : Bool :=
  -- "Graph node {} doesn't have parent or child!"
  if node.parents.isEmpty || node.children.isEmpty then false
  -- "Graph node {} has more than 1 parent!"
  else if settings.oneParent && node.parents.length ≠ 1 then false
  else true

/-- SOURCE: core/graph/graph.cpp:93-106 -/
def edgesAreValid (g : BaseGraph ι) (source : ι) : Bool :=
  -- "Graph has edge with non-existing parent node {}!"
  if (g.nodes source).isNone then false
  -- "Graph has edge with non-existing child node {}!"
  else decide (∀ target ∈ g.adjacent source, (g.nodes target).isSome)

/-- SOURCE: core/graph/graph.cpp:72-110 -/
def isValid (g : BaseGraph ι) (settings : GraphSettings) (it : Iteration g) : Bool :=
  (it.ids.all fun id => (g.nodes id).all (nodeIsValid settings)) &&
    it.sources.all (edgesAreValid g)

end BaseGraph

end Seekira.Model.CoreGraph
