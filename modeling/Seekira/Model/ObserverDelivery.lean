import Mathlib.Logic.Function.Basic
import Seekira.Library.Machine
import Seekira.Model.EventHandlerList

/-!
# The delivery of events to observers

An `EventHandlerList` with a `ThreadPoolExecutePolicy` does not call its handlers
itself.  `perform_for_each_event_handler` posts one task per subscriber to the
policy's pool, a scheduler with a FIFO of tasks that each of its threads serves: it
takes the task at the front and runs it, that is, calls the observer.

The owner of the list works through a script, the registrations and notifications it
makes one after another; its steps interleave with those of the pool's threads.  The
list is generic in the event: the reader has one for its frames and one for its
states.  `called` only records which observers were called with what, in order.
-/

set_option autoImplicit false

namespace Seekira.Model

/-- What the owner of a list of handlers does with it. -/
inductive ListOp (γ : Type) where
  | enable
  | disable
  | register (handler : Nat)
  | unregister (handler : Nat)
  /-- `perform_for_each_event_handler` with an event -/
  | notify (event : γ)

namespace ListOp

variable {γ : Type}

/-- The list after the operation. -/
def apply (op : ListOp γ) (list : EventHandlerList Nat) : EventHandlerList Nat :=
  match op with
  | .enable => list.enable
  | .disable => list.disable
  | .register handler => list.registerEventHandler handler
  | .unregister handler => list.unregisterEventHandler handler
  | .notify _ => list

/-- The calls that the operation posts, in order.
SOURCE: core/base/interfaces/event_handler_list.hpp:88-109 -/
def posts (op : ListOp γ) (list : EventHandlerList Nat) : List (Nat × γ) :=
  match op with
  | .notify event => list.performForEach.map fun handler => (handler, event)
  | _ => []

end ListOp

/-- Where a thread of the pool stands. -/
inductive TaskThread (τ : Type) where
  | idle
  /-- the task is off the queue, its observer not yet called -/
  | taken (task : τ)
  /-- inside the observer -/
  | calling (task : τ)

/-- SOURCE: core/threading/thread_pool_event_handler.cpp:26-40 -/
structure ThreadPoolEventHandler (n : Nat) (τ : Type) where
  tasks : List τ
  threads : Fin n → TaskThread τ

namespace ThreadPoolEventHandler

variable {n : Nat} {τ : Type}

def create : ThreadPoolEventHandler n τ := { tasks := [], threads := fun _ => .idle }

/-- SOURCE: core/threading/thread_pool_event_handler.cpp:67 -/
def addTask (task : τ) (p : ThreadPoolEventHandler n τ) : ThreadPoolEventHandler n τ :=
  { p with tasks := p.tasks ++ [task] }

def setThread (i : Fin n) (t : TaskThread τ) (p : ThreadPoolEventHandler n τ) :
    ThreadPoolEventHandler n τ :=
  { p with threads := Function.update p.threads i t }

end ThreadPoolEventHandler

/-- A list of handlers, the pool of its policy and what its owner has yet to do. -/
structure ObserverDelivery (n : Nat) (γ : Type) where
  script : List (ListOp γ)
  list : EventHandlerList Nat
  /-- calls that the notification under way has yet to post -/
  posting : List (Nat × γ)
  pool : ThreadPoolEventHandler n (Nat × γ)
  called : List (Nat × γ)

/-- One step of one thread. -/
inductive DeliveryLabel (n : Nat) where
  /-- the owner of the list -/
  | owner
  /-- a thread of the pool takes the task at the front -/
  | take (i : Fin n)
  /-- it calls the observer -/
  | call (i : Fin n)
  /-- the observer returns -/
  | finish (i : Fin n)

namespace ObserverDelivery

variable {n : Nat} {γ : Type}

/-- The owner's next step: post the next call of the notification under way, otherwise begin the
next operation. -/
def ownerStep (s : ObserverDelivery n γ) : Option (ObserverDelivery n γ) :=
  match s.posting with
  | call :: rest => some { s with posting := rest, pool := s.pool.addTask call }
  | [] =>
    match s.script with
    | [] => none
    | op :: script =>
      some { s with script := script, list := op.apply s.list, posting := op.posts s.list }

def step (s : ObserverDelivery n γ) : DeliveryLabel n → Option (ObserverDelivery n γ)
  | .owner => s.ownerStep
  | .take i =>
    match s.pool.threads i, s.pool.tasks with
    | .idle, task :: rest =>
      some { s with pool := { s.pool.setThread i (.taken task) with tasks := rest } }
    | _, _ => none
  | .call i =>
    match s.pool.threads i with
    | .taken task =>
      some { s with pool := s.pool.setThread i (.calling task), called := s.called ++ [task] }
    | _ => none
  | .finish i =>
    match s.pool.threads i with
    | .calling _ => some { s with pool := s.pool.setThread i .idle }
    | _ => none

def initial (script : List (ListOp γ)) : ObserverDelivery n γ :=
  { script := script, list := EventHandlerList.create, posting := [],
    pool := ThreadPoolEventHandler.create, called := [] }

/-- The delivery as a machine, for a pool of `n` threads. -/
def machine (n : Nat) (script : List (ListOp γ)) :
    Library.Machine (ObserverDelivery n γ) (DeliveryLabel n) where
  init := initial script
  step := step

/-- All the calls that a script posts, in order, from a list of handlers on. -/
def sends : EventHandlerList Nat → List (ListOp γ) → List (Nat × γ)
  | _, [] => []
  | list, op :: script => op.posts list ++ sends (op.apply list) script

/-- What observer `o` is called with, or is to be called with. -/
def callsTo (o : Nat) (calls : List (Nat × γ)) : List γ :=
  (calls.filter fun call => call.1 = o).map Prod.snd

/-- Every observer has been called with the events that were sent to it, in the order in which
they were sent. -/
def InOrder (script : List (ListOp γ)) (s : ObserverDelivery n γ) : Prop :=
  ∀ o, callsTo o s.called <+: callsTo o (sends EventHandlerList.create script)

end ObserverDelivery

end Seekira.Model
