import Seekira.Library.Machine
import Seekira.Model.Reader

/-!
# The worker thread of the reader

Other threads post events; the worker handles them between frames and sleeps on
`m_read_cnd` while it has nothing to do.  A step is what a thread does between two
points at which another thread can come in: a poster holds `m_event_guard` from
the push to the notification, and a wait evaluates its predicate before it blocks.
Handling an event and reading a frame are one step each.  Only the worker touches
what they use, apart from `m_need_stop`: the `stop_worker` of `~ThreadWorker` sets it
as well, and the model puts that before or after such a step.

An event carries the number of events posted before it.  The numbers and the
histories `posted` and `handled` only record what happened.
-/

set_option autoImplicit false

namespace Seekira.Model

open Library

/-- An event with its posting number. -/
structure PostedEvent where
  ticket : Nat
  event : ReaderEvent
  deriving DecidableEq, Repr

/-- Where the worker stands in `worker_thread`. -/
inductive ReaderPc where
  /-- before the loop -/
  | starting
  /-- at the loop's condition -/
  | head
  /-- before the look at the event queue -/
  | events
  /-- before the test of the end of file -/
  | eof
  /-- before the predicate of the wait -/
  | waitCheck
  /-- the predicate was false; not asleep yet -/
  | waitBlock
  | blocked
  /-- the wait returned -/
  | awake
  /-- before the second look at the event queue -/
  | recheck
  /-- before `set_reader_state(Reading)` and `read_frame` -/
  | reading
  /-- after the loop -/
  | leaving
  | finished
  /-- a null pointer was dereferenced -/
  | crashed
  deriving DecidableEq, Repr

/-- A started reader with its event queue. -/
structure ReaderWorker (δ κ : Type) where
  reader : ReaderFF δ κ
  pc : ReaderPc
  /-- a poster holds `m_event_guard` -/
  eventGuardHeld : Bool
  eventQueue : List PostedEvent
  exceptionPtr : Option Fault
  posted : List PostedEvent
  handled : List PostedEvent

inductive ReaderLabel where
  /-- `add_reader_event` locks the guard and pushes the event -/
  | post (event : ReaderEvent)
  /-- it notifies and releases the guard -/
  | notify
  /-- the worker's next step -/
  | work
  /-- a wait returns without notification -/
  | spuriousWake
  /-- `stop_worker` sets `m_need_stop` -/
  | requestStop
  deriving DecidableEq, Repr

namespace ReaderWorker

variable {δ κ : Type} (D : IDemuxer δ) (C : CodecOps κ)

/-- A reader after `start`.
SOURCE: video/ffmpeg/reader/reader.cpp:55-68 -/
def started (reader : ReaderFF δ κ) : ReaderWorker δ κ :=
  { reader := (ReaderFF.setReaderState .reading { reader with continueReading := false }).2,
    pc := .starting, eventGuardHeld := false, eventQueue := [], exceptionPtr := none,
    posted := [], handled := [] }

/-- SOURCE: video/ffmpeg/reader/reader.cpp:84-90 -/
def addReaderEvent (event : ReaderEvent) (w : ReaderWorker δ κ) : ReaderWorker δ κ :=
  let item : PostedEvent := ⟨w.posted.length, event⟩
  { w with eventQueue := w.eventQueue ++ [item], posted := w.posted ++ [item] }

/-- The end of a step that ran a method of the reader: the loop catches what was thrown and
leaves, a null dereference ends the process.
SOURCE: video/ffmpeg/reader/reader.cpp:284-297 -/
def afterCall (result : Except Fault Unit × ReaderFF δ κ) (w : ReaderWorker δ κ) :
    ReaderWorker δ κ :=
  match result with
  | (.ok _, reader) => { w with reader := reader, pc := .head }
  | (.error .nullDeref, reader) | (.error .nullDecoder, reader) =>
    { w with reader := reader, pc := .crashed }
  | (.error e, reader) => { w with reader := reader, exceptionPtr := some e, pc := .leaving }

/-- The look at the event queue: the last event is handled, the first one removed.
SOURCE: video/ffmpeg/reader/reader.cpp:260-268 -/
def checkEvents (w : ReaderWorker δ κ) : ReaderWorker δ κ :=
  match w.eventQueue.getLast? with
  | none => { w with pc := .eof }
  | some item =>
    afterCall (ReaderFF.handleEvent D C item.event w.reader)
      { w with eventQueue := w.eventQueue.tail, handled := w.handled ++ [item] }

/-- SOURCE: video/ffmpeg/reader/reader.cpp:270-274 -/
def checkEof (w : ReaderWorker δ κ) : ReaderWorker δ κ :=
  if w.reader.stream.isNone then { w with pc := .crashed }
  else
    let reader :=
      if ReaderFF.isEofReached D w.reader then { w.reader with continueReading := false }
      else w.reader
    let reader :=
      if reader.continueReading then reader else (ReaderFF.setReaderState .paused reader).2
    { w with reader := reader, pc := .waitCheck }

/-- Behind the loop `pause` posts an event, and so needs the event guard.
SOURCE: video/ffmpeg/reader/reader.cpp:303-313 -/
def pausesAtEnd (w : ReaderWorker δ κ) : Bool :=
  (w.reader.needStop || !w.reader.needBreakReading) && w.reader.state = .endOfFile

/-- SOURCE: video/ffmpeg/reader/reader.cpp:299-313 -/
def leaveLoop (w : ReaderWorker δ κ) : ReaderWorker δ κ :=
  let reader := { w.reader with continueReading := false }
  if !reader.needStop && reader.needBreakReading then
    { w with reader := (ReaderFF.setReaderState .error reader).2, pc := .finished }
  else if reader.state = .endOfFile then
    { w with reader := reader, pc := .finished }.addReaderEvent .pause
  else { w with reader := reader, pc := .finished }

/-- The worker's next step; `none` while it waits for a lock or for a notification.
SOURCE: video/ffmpeg/reader/reader.cpp:250-316 -/
def work (w : ReaderWorker δ κ) : Option (ReaderWorker δ κ) :=
  match w.pc with
  | .starting =>
    some { w with reader := (ReaderFF.setReaderState .reading w.reader).2, pc := .head }
  | .head => some { w with pc := if w.reader.needBreakReading then .leaving else .events }
  | .events => if w.eventGuardHeld then none else some (w.checkEvents D C)
  | .eof => some (w.checkEof D)
  | .waitCheck =>
    if w.eventGuardHeld then none
    else
      let predicate :=
        w.reader.needBreakReading || !w.eventQueue.isEmpty || w.reader.continueReading
      some { w with pc := if predicate then .awake else .waitBlock }
  | .waitBlock => some { w with pc := .blocked }
  | .blocked => none
  | .awake => some { w with pc := if w.reader.needBreakReading then .leaving else .recheck }
  | .recheck =>
    if w.eventGuardHeld then none
    else some { w with pc := if w.eventQueue.isEmpty then .reading else .head }
  | .reading =>
    some (afterCall (ReaderFF.readFrame D C (ReaderFF.setReaderState .reading w.reader).2) w)
  | .leaving => if w.eventGuardHeld && w.pausesAtEnd then none else some w.leaveLoop
  | .finished => none
  | .crashed => none

/-- A blocked worker evaluates the predicate again. -/
def wake (w : ReaderWorker δ κ) : ReaderWorker δ κ :=
  if w.pc = .blocked then { w with pc := .waitCheck } else w

/-- One step of the thread the label names; nothing moves after a crash. -/
def step (w : ReaderWorker δ κ) (l : ReaderLabel) : Option (ReaderWorker δ κ) :=
  if w.pc = .crashed then none
  else
    match l with
    | .post event =>
      if w.eventGuardHeld then none
      else some { w.addReaderEvent event with eventGuardHeld := true }
    | .notify => if w.eventGuardHeld then some { w.wake with eventGuardHeld := false } else none
    | .work => w.work D C
    | .spuriousWake => if w.pc = .blocked then some w.wake else none
    | .requestStop => some { w with reader := { w.reader with needStop := true } }

/-- The reader and its posters as a machine. -/
def machine (reader : ReaderFF δ κ) : Machine (ReaderWorker δ κ) ReaderLabel where
  init := started reader
  step := step D C

end ReaderWorker

end Seekira.Model
