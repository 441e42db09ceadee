import Seekira.Library.Machine

/-!
# A list of event handlers

`EventHandlerList` calls its subscribers in registration order.  While it is
disabled the subscribers are parked in a cache and nobody is called.
-/

set_option autoImplicit false

namespace Seekira.Model

/-- SOURCE: core/base/interfaces/event_handler_list.hpp:119-126 -/
structure EventHandlerList (η : Type) where
  subscribers : List η
  cache : List η
  enabled : Bool
  deriving DecidableEq, Repr

namespace EventHandlerList

variable {η : Type} [DecidableEq η]

def create : EventHandlerList η := { subscribers := [], cache := [], enabled := true }

/-- SOURCE: core/base/interfaces/event_handler_list.hpp:33-42 -/
def disable (h : EventHandlerList η) : EventHandlerList η :=
  if !h.enabled then h else { subscribers := [], cache := h.subscribers, enabled := false }

/-- SOURCE: core/base/interfaces/event_handler_list.hpp:44-52 -/
def enable (h : EventHandlerList η) : EventHandlerList η :=
  if h.enabled then h else { subscribers := h.cache, cache := h.subscribers, enabled := true }

/-- SOURCE: core/base/interfaces/event_handler_list.hpp:55-70 -/
def registerEventHandler (handler : η) (h : EventHandlerList η) : EventHandlerList η :=
  if !h.enabled then h
  else if handler ∈ h.subscribers then h
  else { h with subscribers := h.subscribers ++ [handler] }

/-- SOURCE: core/base/interfaces/event_handler_list.hpp:72-87 -/
def unregisterEventHandler (handler : η) (h : EventHandlerList η) : EventHandlerList η :=
  if !h.enabled then h else { h with subscribers := h.subscribers.erase handler }

/-- The handlers that `perform_for_each_event_handler` calls, in order.
SOURCE: core/base/interfaces/event_handler_list.hpp:89-108 -/
def performForEach (h : EventHandlerList η) : List η := h.subscribers

/-- An operation on a list of event handlers; a handler is a pointer, which may be null. -/
inductive Operation (η : Type) where
  | register (handler : Option η)
  | unregister (handler : Option η)
  | disable
  | enable
  | perform
  deriving DecidableEq, Repr

/-- What an operation leaves behind; a null pointer is neither registered nor unregistered.
SOURCE: core/base/interfaces/event_handler_list.hpp:33-108 -/
def apply (h : EventHandlerList η) : Operation η → EventHandlerList η
  | .register none => h
  | .register (some handler) => h.registerEventHandler handler
  | .unregister none => h
  | .unregister (some handler) => h.unregisterEventHandler handler
  | .disable => h.disable
  | .enable => h.enable
  | .perform => h

/-- A list and the sequence of its operations. -/
def machine (η : Type) [DecidableEq η] : Library.Machine (EventHandlerList η) (Operation η) where
  init := create
  step h op := some (h.apply op)

end EventHandlerList

end Seekira.Model
