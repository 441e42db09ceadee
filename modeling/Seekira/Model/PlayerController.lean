import Seekira.Model.ReaderWorker

/-!
# The player's controller

`PlayerControllerFF` turns the commands of the user into events of its reader and observes the
reader's states.  The states arrive on the threads of the reader's observer pool, in any order;
nothing keeps them away from a command, because `std::scoped_lock(m_guard)` declares a variable
and locks nothing.  So here a command is a list of actions, and the user's thread, the reader's
worker and the pool move one at a time.
-/

set_option autoImplicit false

namespace Seekira.Model

open Library

/-- `QMediaPlayer::State` -/
inductive PlayerState where
  | stopped
  | playing
  | paused
  deriving DecidableEq, Repr

/-- SOURCE: gui/interfaces/enums.hpp:14-18 -/
inductive PlayerDirection where
  | forward
  | backward
  deriving DecidableEq, Repr

/-- What a method of the controller still has to do. -/
inductive PlayerAction where
  /-- a method of the reader posts an event -/
  | post (event : ReaderEvent)
  /-- and notifies the worker -/
  | notify
  /-- `m_state` is assigned -/
  | store (state : PlayerState)
  deriving DecidableEq, Repr

/-- SOURCE: gui/ui/controllers/player_controller_ff.hpp:65-76 -/
structure PlayerControllerFF where
  state : PlayerState
  isLoaded : Bool
  deriving DecidableEq, Repr

namespace PlayerControllerFF

/-- SOURCE: gui/ui/controllers/player_controller_ff.cpp:73-76 -/
def opened : PlayerControllerFF := { state := .paused, isLoaded := true }

/-- SOURCE: gui/ui/controllers/player_controller_ff.cpp:41-46 -/
def reset : PlayerControllerFF := { state := .stopped, isLoaded := false }

/-- SOURCE: gui/ui/controllers/player_controller_ff.cpp:92-122 -/
def playStateSwitch (c : PlayerControllerFF) : List PlayerAction :=
  if c.state = .stopped then []
  else
    let state := if c.state = .playing then PlayerState.paused else .playing
    let event := match state with
      | .playing => ReaderEvent.play
      | .paused => .pause
      | .stopped => .stop
    [.post event, .store state]

/-- SOURCE: gui/ui/controllers/player_controller_ff.cpp:124-135 -/
def stepRewind (direction : PlayerDirection) (c : PlayerControllerFF) : List PlayerAction :=
  if c.state = .stopped then []
  else [.post (if direction = .forward then .rewindForward else .rewindBackward)]

/-- SOURCE: gui/ui/controllers/player_controller_ff.cpp:137-150 -/
def stepFrame (direction : PlayerDirection) (c : PlayerControllerFF) : List PlayerAction :=
  if c.state = .stopped then []
  else [.post (if direction = .forward then .stepForward else .stepBackward)]

/-- The slider; `timestamp` is its share of the duration.  Its last statement names `PausedState`
without assigning it.
SOURCE: gui/ui/controllers/player_controller_ff.cpp:172-179 -/
def playbackSetPosition (timestamp : TimestampFF) : List PlayerAction :=
  [.post .pause, .post (.setPosition timestamp)]

/-- The statements for `Reading`, `Paused` and `Stopped` name a state without assigning it.
SOURCE: gui/ui/controllers/player_controller_ff.cpp:152-170 -/
def onReaderStateChanged (state : ReaderState) (c : PlayerControllerFF) : PlayerControllerFF :=
  if state = .error then reset else c

end PlayerControllerFF

/-- What the user does. -/
inductive PlayerCommand where
  | playStateSwitch
  | stepRewind (direction : PlayerDirection)
  | stepFrame (direction : PlayerDirection)
  | setPosition (timestamp : TimestampFF)
  deriving DecidableEq, Repr

def PlayerCommand.actions (c : PlayerControllerFF) : PlayerCommand → List PlayerAction
  | .playStateSwitch => c.playStateSwitch
  | .stepRewind direction => c.stepRewind direction
  | .stepFrame direction => c.stepFrame direction
  | .setPosition timestamp => PlayerControllerFF.playbackSetPosition timestamp

/-- The controller with its reader. -/
structure Player (δ κ : Type) where
  controller : PlayerControllerFF
  /-- `m_video_proc_manager`; null after `reset` -/
  manager : Option (ReaderWorker δ κ)
  /-- what the user's thread still has to do -/
  todo : List PlayerAction
  /-- the positions in `sentStates` of the states that the pool has brought -/
  handled : List Nat
  /-- the state brought last, if no command came after it; only recorded -/
  reported : Option ReaderState

/-- Who moves. -/
inductive PlayerMove where
  | command (command : PlayerCommand)
  /-- the user's thread goes on with a command -/
  | act
  /-- the pool brings a state -/
  | deliver (position : Nat)
  /-- the reader's worker moves -/
  | work
  | spuriousWake
  deriving DecidableEq, Repr

namespace Player

variable {δ κ : Type} (D : IDemuxer δ) (C : CodecOps κ)

/-- The controller among the observers of the reader's state. -/
def controllerId : Nat := 0

/-- The player when `open_file` calls `step_frame`, its last call.
SOURCE: gui/ui/controllers/player_controller_ff.cpp:70-81 -/
def opened (reader : ReaderFF δ κ) : Player δ κ :=
  { controller := .opened, manager := some (ReaderWorker.started reader)
    todo := PlayerControllerFF.opened.stepFrame .forward, handled := [], reported := none }

/-- The reader moves.  Through a null `m_video_proc_manager` nothing does. -/
def readerStep (l : ReaderLabel) (p : Player δ κ) : Option (Player δ κ) :=
  match p.manager with
  | none => none
  | some w => (ReaderWorker.step D C w l).map fun w => { p with manager := some w }

def act (p : Player δ κ) : Option (Player δ κ) :=
  match p.todo with
  | [] => none
  | .post event :: rest =>
    (readerStep D C (.post event) p).map fun p => { p with todo := .notify :: rest }
  | .notify :: rest => (readerStep D C .notify p).map fun p => { p with todo := rest }
  | .store state :: rest => some { p with controller.state := state, todo := rest }

/-- The state at a position, when the pool has not brought it yet. -/
def notification (p : Player δ κ) (position : Nat) : Option ReaderState :=
  match p.manager.bind fun w => w.reader.sentStates[position]? with
  | none => none
  | some (observer, state) =>
    if observer = controllerId ∧ position ∉ p.handled then some state else none

/-- The pool brings a state; `reset` destroys the reader. -/
def deliver (position : Nat) (p : Player δ κ) : Option (Player δ κ) :=
  (p.notification position).map fun state =>
    { p with
      controller := p.controller.onReaderStateChanged state
      manager := if state = .error then none else p.manager
      handled := position :: p.handled
      reported := some state }

def step (p : Player δ κ) : PlayerMove → Option (Player δ κ)
  | .command command =>
    if p.todo.isEmpty then some { p with todo := command.actions p.controller, reported := none }
    else none
  | .act => act D C p
  | .deliver position => p.deliver position
  | .work => readerStep D C .work p
  | .spuriousWake => readerStep D C .spuriousWake p

/-- The player after a file was opened. -/
def machine (reader : ReaderFF δ κ) : Machine (Player δ κ) PlayerMove where
  init := opened reader
  step := step D C

end Player

end Seekira.Model
