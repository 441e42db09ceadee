import Mathlib.Logic.Function.Basic
import Seekira.Library.Machine
import Seekira.Library.Proc

/-!
# The connector

`Connector` knows connection sources by their ids.  A source is entered by a call and leaves in
its destructor; an object is handed to the source of its id by a call and taken back in its
destructor.  All four assert what they need, and an exception that leaves a destructor
terminates the process.
-/

set_option autoImplicit false

namespace Seekira.Model.Connector

open Library

/-- An `IConnectable` where it lies in memory.
SOURCE: core/base/interfaces/connector.hpp:10-44 -/
structure Connectable where
  address : Nat
  connId : String
  deriving DecidableEq, Repr

/-- The constructor that takes an id asserts it; `set_conn_id` after the default one does not.
SOURCE: core/base/interfaces/connector.hpp:16-20 -/
def construct (checked : Bool) (id : String) : Except String String :=
  if checked ∧ id = "" then .error "Connectable id can't be empty!" else .ok id

/-- `m_connections`; the values are pointers.
SOURCE: core/base/interfaces/connector.hpp:73 -/
abbrev Connections := String → Option (Option Nat)

/-- SOURCE: core/base/interfaces/connector.cpp:36-43 -/
def registerConnSource (source : Option Connectable) : Proc String Connections Unit :=
  fun connections =>
    match source with
    | none => (.error "Can't register empty source!", connections)
    | some source =>
      if (connections source.connId).isNone then
        (.ok (), Function.update connections source.connId (some (some source.address)))
      else (.error ("Can't register source " ++ source.connId ++ ": already exists!"), connections)

/-- The entry is found and erased by the id alone.
SOURCE: core/base/interfaces/connector.cpp:45-52 -/
def unregisterConnSource (source : Option Connectable) : Proc String Connections Unit :=
  fun connections =>
    match source with
    | none => (.error "Can't unregister empty source!", connections)
    | some source =>
      if (connections source.connId).isSome then
        (.ok (), Function.update connections source.connId none)
      else (.error ("Can't unregister source " ++ source.connId ++ ": doesn't exist!"), connections)

/-- The source that an object is handed to, to be connected or to be disconnected. -/
def sourceOf (verb : String) (obj : Option Connectable) (connections : Connections) :
    Except String Nat :=
  match obj with
  | none => .error ("Can't " ++ verb ++ " empty connectable!")
  | some obj =>
    match connections obj.connId with
    | none => .error ("Can't " ++ verb ++ " obj: source " ++ obj.connId ++ " doesn't exists!")
    | some none =>
      .error ("Can't " ++ verb ++ " obj: source " ++ obj.connId ++ " exists but empty!")
    | some (some source) => .ok source

/-- SOURCE: core/base/interfaces/connector.cpp:54-63 -/
def connect : Option Connectable → Connections → Except String Nat := sourceOf "connect"

/-- SOURCE: core/base/interfaces/connector.cpp:65-74 -/
def disconnect : Option Connectable → Connections → Except String Nat := sourceOf "disconnect"

/-- The connector with the sources and the objects that are alive, each with its id. -/
structure World where
  connections : Connections
  sources : Nat → Option String
  objects : Nat → Option String
  terminated : Bool

/-- What the program does with sources and objects. -/
inductive Operation where
  | constructSource (address : Nat) (checked : Bool) (id : String)
  | registerSource (source : Option Nat)
  | destroySource (address : Nat)
  | constructObject (address : Nat) (checked : Bool) (id : String)
  | connectObject (object : Option Nat)
  | destroyObject (address : Nat)
  deriving DecidableEq, Repr

/-- What is constructed lies where nothing alive does; after an exception there is nothing there. -/
def constructAt (table : Nat → Option String) (address : Nat) (checked : Bool) (id : String) :
    Option (Nat → Option String) :=
  match table address, construct checked id with
  | some _, _ => none
  | none, .ok id => some (Function.update table address (some id))
  | none, .error _ => some table

/-- A pointer to something alive, or none. -/
def pointee (table : Nat → Option String) : Option Nat → Option (Option Connectable)
  | none => some none
  | some address => (table address).map fun id => some { address := address, connId := id }

/-- The destructors are `noexcept`, so the exception of a failed assert terminates the process.  The
`disconnect` of a source does nothing.
SOURCE: core/base/interfaces/connector.cpp:7-9, proc/interfaces/face_engine_controller.cpp:18 -/
def perform (w : World) (op : Operation) : Option World :=
  match op with
  | .constructSource address checked id =>
    (constructAt w.sources address checked id).map fun sources => { w with sources := sources }
  | .registerSource source =>
    (pointee w.sources source).map fun source =>
      { w with connections := (registerConnSource source w.connections).2 }
  | .destroySource address =>
    (w.sources address).map fun id =>
      let sources := Function.update w.sources address none
      match unregisterConnSource (some { address := address, connId := id }) w.connections with
      | (.ok (), connections) => { w with connections := connections, sources := sources }
      | (.error _, connections) =>
        { w with connections := connections, sources := sources, terminated := true }
  | .constructObject address checked id =>
    (constructAt w.objects address checked id).map fun objects => { w with objects := objects }
  | .connectObject object =>
    -- the source keeps its users itself, and an exception comes back to the caller
    (pointee w.objects object).map fun _ => w
  | .destroyObject address =>
    (w.objects address).map fun id =>
      let objects := Function.update w.objects address none
      match disconnect (some { address := address, connId := id }) w.connections with
      | .ok _ => { w with objects := objects }
      | .error _ => { w with objects := objects, terminated := true }

/-- A program that uses the connector. -/
def machine : Machine World Operation where
  init := ⟨fun _ => none, fun _ => none, fun _ => none, false⟩
  step w op := if w.terminated then none else perform w op

end Seekira.Model.Connector
