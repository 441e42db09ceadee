import Seekira.Model.Connector

/-!
# The users of a face engine

A `IFaceEngineController` is a connection source that keeps the addresses of the users connected to
it.  `set_face_engine` writes through all of them; nothing takes an address out again, and a copy of
a user is a user of its own that the controller does not know.
-/

set_option autoImplicit false

namespace Seekira.Model.FaceEngine

open Library

/-- SOURCE: proc/interfaces/face_engine_user.hpp:11-30 -/
structure FaceEngineUser where
  connId : String
  /-- `m_face_engine`, a weak pointer -/
  faceEngine : Option Nat
  deriving DecidableEq, Repr

/-- One controller with the users that are alive.  The connector's table does not change meanwhile.
SOURCE: proc/interfaces/face_engine_controller.hpp:10-37, core/base/interfaces/user_controller.hpp:30 -/
structure World where
  connections : Connector.Connections
  /-- where the controller lies -/
  controller : Nat
  users : List Nat
  faceEngine : Option Nat
  objects : Nat → Option FaceEngineUser
  /-- The user was connected to the controller, or copied from one that was; only recorded. -/
  follows : Nat → Bool
  terminated : Bool

/-- What is done with users and with the controller's engine. -/
inductive Operation where
  | construct (address : Nat) (connId : String)
  | connect (address : Nat)
  /-- A move copies too: with its destructor declared, a user has no move constructor. -/
  | copy (source target : Nat)
  | assign (source target : Nat)
  | destroy (address : Nat)
  | setFaceEngine (engine : Option Nat)
  deriving DecidableEq, Repr

namespace World

/-- `add_user`, with `add_controller_data_to_user`.
SOURCE: core/base/interfaces/user_controller.hpp:19-24, proc/interfaces/face_engine_controller.hpp:28 -/
def addUser (address : Nat) (user : FaceEngineUser) (w : World) : World :=
  { w with
    users := w.users ++ [address]
    objects := Function.update w.objects address (some { user with faceEngine := w.faceEngine })
    follows := Function.update w.follows address true }

/-- `Connector::connect` hands the user to the source of its id, which may be another one than this
controller, or throws.
SOURCE: core/base/interfaces/connector.cpp:54-63, proc/interfaces/face_engine_controller.cpp:11-16 -/
def connect (address : Nat) (user : FaceEngineUser) (w : World) : World :=
  match Connector.connect (some ⟨address, user.connId⟩) w.connections with
  | .ok source => if source = w.controller then w.addUser address user else w
  | .error _ => w

/-- The copy has the id and the engine of the original, and is not connected. -/
def copy (source target : Nat) (user : FaceEngineUser) (w : World) : World :=
  { w with
    objects := Function.update w.objects target (some user)
    follows := Function.update w.follows target (w.follows source) }

/-- The target stays connected when it was. -/
def assign (source target : Nat) (user : FaceEngineUser) (w : World) : World :=
  { w with
    objects := Function.update w.objects target (some user)
    follows := Function.update w.follows target (w.follows target || w.follows source) }

/-- `~IConnectionObject`; the `disconnect` of the controller does nothing.
SOURCE: core/base/interfaces/connector.cpp:7, 65-74, proc/interfaces/face_engine_controller.cpp:18 -/
def destroy (address : Nat) (user : FaceEngineUser) (w : World) : World :=
  let w := { w with
    objects := Function.update w.objects address none
    follows := Function.update w.follows address false }
  match Connector.disconnect (some ⟨address, user.connId⟩) w.connections with
  | .ok _ => w
  | .error _ => { w with terminated := true }

/-- Every registered address is written through; what that does where no user lies is undefined,
and changes no user here.
SOURCE: proc/interfaces/face_engine_controller.hpp:16-21 -/
def setFaceEngine (engine : Option Nat) (w : World) : World :=
  { w with
    faceEngine := engine
    objects := fun address =>
      if address ∈ w.users then (w.objects address).map fun user => { user with faceEngine := engine }
      else w.objects address }

/-- Users are constructed and copied where nothing lies. -/
def step (w : World) (op : Operation) : Option World :=
  if w.terminated then none
  else match op with
    | .construct address connId =>
      if (w.objects address).isSome then none
      else some { w with
        objects := Function.update w.objects address (some ⟨connId, none⟩)
        follows := Function.update w.follows address false }
    | .connect address => (w.objects address).map fun user => w.connect address user
    | .copy source target =>
      if (w.objects target).isSome then none
      else (w.objects source).map fun user => w.copy source target user
    | .assign source target =>
      if (w.objects target).isNone then none
      else (w.objects source).map fun user => w.assign source target user
    | .destroy address => (w.objects address).map fun user => w.destroy address user
    | .setFaceEngine engine => some (w.setFaceEngine engine)

/-- A controller that was constructed with an engine, before there are users. -/
def create (connections : Connector.Connections) (controller : Nat) (engine : Option Nat) : World :=
  { connections := connections, controller := controller, users := [], faceEngine := engine
    objects := fun _ => none, follows := fun _ => false, terminated := false }

end World

/-- A controller and its users. -/
def machine (connections : Connector.Connections) (controller : Nat) (engine : Option Nat) :
    Machine World Operation where
  init := World.create connections controller engine
  step := World.step

/-- A `PersonHolder` that `FaceMatcherPipelineNode` appends to `m_persons` without a reallocation: the
temporary is constructed and connects, the element is copied from it, and it is destroyed.
SOURCE: proc/pipeline/nodes/face_matcher_node.cpp:60-63, proc/face_engine/holder/person_holder.cpp:37-44 -/
def pushPerson (temporary element : Nat) (connId : String) : List Operation :=
  [.construct temporary connId, .connect temporary, .copy temporary element, .destroy temporary]

end Seekira.Model.FaceEngine
