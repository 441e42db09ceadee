import Seekira.Library.Machine
import Seekira.Model.ThreadPoolWorker

/-!
# The waits of a worker of the thread pool

`ThreadPoolWorker::worker_thread` waits twice, for the end of a pause with `m_read_guard` and
inside that for an item with `m_data_guard`.  Here every lock, evaluation of a predicate, block,
notification and store of an atomic flag is a step of its own; a wait that is notified or wakes
by itself takes its mutex again and evaluates its predicate again.

Nobody but the worker locks `m_read_guard`.  The other users of `m_data_guard` hold it for one
step only, so it is enough to know whether the worker holds it.  Several threads may be inside
`add_data`, `pause` and `continue_reading`; what each of them still has to do is counted.
`stop_worker` is called by one thread at a time.
-/

set_option autoImplicit false

namespace Seekira.Model

open Library

/-- Where the worker's thread stands in `worker_thread`. -/
inductive WaitPc (ι : Type) where
  /-- no thread: before `run_worker`, or joined -/
  | notStarted
  /-- at the condition of the loop -/
  | head
  /-- `m_read_guard` is held, before the predicate of the wait -/
  | readCheck
  /-- the predicate was false; not asleep yet -/
  | readBlock
  | readBlocked
  /-- the wait for the end of the pause returned -/
  | readAwake
  /-- before the lock of `m_data_guard` -/
  | dataLock
  /-- both mutexes are held, before the predicate of the second wait -/
  | dataCheck
  /-- the predicate was false; not asleep yet -/
  | dataBlock
  | dataBlocked
  /-- the wait for an item returned -/
  | dataAwake
  /-- before the front item is taken -/
  | dataTake
  /-- inside `thread_pool_worker_process_data` -/
  | processing (x : ι)
  /-- inside `on_finished` of the observers -/
  | finishing (x : ι)
  /-- in the `catch (...)` clause -/
  | failing (e : Exc)
  /-- the loop has ended -/
  | exited
  deriving DecidableEq, Repr

/-- Where the thread that stops the worker stands in `stop_worker`. -/
inductive StopWorkerPc where
  /-- nobody is inside `stop_worker` -/
  | idle
  /-- `m_need_stop` was set -/
  | flagSet
  /-- `m_read_cnd.notify_one()` was issued -/
  | readNotified
  /-- `m_data_cnd.notify_one()` was issued as well; in `m_worker.join()` -/
  | joining
  | joined
  /-- `reset_data` has returned -/
  | dataReset
  /-- `reset_exceptions` has returned -/
  | exceptionsReset
  /-- `m_is_running` is false again, `m_need_stop` still set -/
  | stopped
  deriving DecidableEq, Repr

/-- A worker with the threads that use it. -/
structure WorkerWaits (ι : Type) where
  isRunning : Bool
  needStop : Bool
  continueReading : Bool
  data : List ι
  exceptionPtrs : List Exc
  pc : WaitPc ι
  /-- `run_worker` has created the thread and not stored its two flags yet -/
  launching : Bool
  /-- calls of `add_data` that found the worker running and have not pushed their item yet -/
  adding : Nat
  /-- calls of `add_data` before `m_data_cnd.notify_one()` -/
  dataNotices : Nat
  /-- calls of `pause` and `continue_reading` before `m_read_cnd.notify_one()` -/
  readNotices : Nat
  stop : StopWorkerPc
  deriving DecidableEq, Repr

inductive WaitLabel (ι : Type) where
  /-- `run_worker` creates the thread -/
  | launch
  /-- it stores its flags; the caller may be inside `add_data` -/
  | launched (add : Bool)
  /-- a call of `add_data` finds the worker running -/
  | enter
  /-- it pushes its item under `m_data_guard` -/
  | push (x : ι)
  | notifyData
  /-- `pause` or `continue_reading` stores the flag -/
  | setReading (value : Bool)
  | notifyRead
  /-- the worker's next step -/
  | work
  /-- processing the item or an observer throws -/
  | fail (e : Exc)
  /-- a wait returns without notification -/
  | spuriousWake
  /-- the next step of `stop_worker` -/
  | stop
  deriving DecidableEq, Repr

namespace WorkerWaits

variable {ι : Type}

/-- SOURCE: core/threading/thread_pool_worker.hpp:232-244 -/
def create : WorkerWaits ι :=
  { isRunning := false, needStop := false, continueReading := true, data := [],
    exceptionPtrs := [], pc := .notStarted, launching := false, adding := 0, dataNotices := 0,
    readNotices := 0, stop := .idle }

/-- The worker holds `m_data_guard`; a blocked wait has released it. -/
def holdsDataGuard (w : WorkerWaits ι) : Bool :=
  match w.pc with
  | .dataCheck | .dataBlock | .dataAwake | .dataTake => true
  | _ => false

/-- The worker's next step; `none` while it sleeps, and once its thread has ended.
SOURCE: core/threading/thread_pool_worker.hpp:176-215 -/
def work (w : WorkerWaits ι) : Option (WorkerWaits ι) :=
  match w.pc with
  | .head => some { w with pc := if w.needStop then .exited else .readCheck }
  | .readCheck =>
    some { w with pc := if w.needStop || w.continueReading then .readAwake else .readBlock }
  | .readBlock => some { w with pc := .readBlocked }
  | .readAwake => some { w with pc := if w.needStop then .head else .dataLock }
  | .dataLock => some { w with pc := .dataCheck }
  | .dataCheck =>
    some { w with pc := if w.needStop || !w.data.isEmpty then .dataAwake else .dataBlock }
  | .dataBlock => some { w with pc := .dataBlocked }
  | .dataAwake => some { w with pc := if w.needStop then .head else .dataTake }
  | .dataTake =>
    match w.data with
    | [] => some { w with pc := .failing .std }
    | x :: rest => some { w with data := rest, pc := .processing x }
  | .processing x => some { w with pc := .finishing x }
  | .finishing _ => some { w with pc := .head }
  | .failing e => some { w with exceptionPtrs := w.exceptionPtrs ++ [e], pc := .head }
  | .readBlocked | .dataBlocked | .notStarted | .exited => none

/-- `m_read_cnd.notify_one()`: a worker asleep there evaluates its predicate again. -/
def wakeRead (w : WorkerWaits ι) : WorkerWaits ι :=
  match w.pc with
  | .readBlocked => { w with pc := .readCheck }
  | _ => w

/-- `m_data_cnd.notify_one()`: a worker asleep there locks `m_data_guard` again. -/
def wakeData (w : WorkerWaits ι) : WorkerWaits ι :=
  match w.pc with
  | .dataBlocked => { w with pc := .dataLock }
  | _ => w

/-- `m_worker.join()` returns at once. -/
def threadEnded (w : WorkerWaits ι) : Bool :=
  match w.pc with
  | .exited | .notStarted => true
  | _ => false

/-- The next step of `stop_worker`; `none` while the thread to be joined still runs.
SOURCE: core/threading/thread_pool_worker.hpp:92-112 -/
def stopWorker (w : WorkerWaits ι) : Option (WorkerWaits ι) :=
  match w.stop with
  | .idle => if w.isRunning then some { w with needStop := true, stop := .flagSet } else none
  | .flagSet => some { w.wakeRead with stop := .readNotified }
  | .readNotified => some { w.wakeData with stop := .joining }
  | .joining =>
    if w.threadEnded then some { w with pc := .notStarted, stop := .joined } else none
  | .joined => some { w with data := [], stop := .dataReset }
  | .dataReset => some { w with exceptionPtrs := [], stop := .exceptionsReset }
  | .exceptionsReset => some { w with isRunning := false, stop := .stopped }
  | .stopped => some { w with needStop := false, stop := .idle }

/-- One step of the thread the label names. -/
def step (w : WorkerWaits ι) : WaitLabel ι → Option (WorkerWaits ι)
  | .launch =>
    match w.pc with
    | .notStarted =>
      if w.isRunning || w.launching then none
      else some { w with pc := .head, launching := true }
    | _ => none
  | .launched add =>
    if w.launching then
      some { w with isRunning := true, continueReading := true, launching := false,
                    adding := if add then w.adding + 1 else w.adding }
    else none
  | .enter => if w.isRunning then some { w with adding := w.adding + 1 } else none
  | .push x =>
    if 0 < w.adding && !w.holdsDataGuard then
      some { w with data := w.data ++ [x], adding := w.adding - 1,
                    dataNotices := w.dataNotices + 1 }
    else none
  | .notifyData =>
    if 0 < w.dataNotices then some { w.wakeData with dataNotices := w.dataNotices - 1 } else none
  | .setReading value =>
    some { w with continueReading := value, readNotices := w.readNotices + 1 }
  | .notifyRead =>
    if 0 < w.readNotices then some { w.wakeRead with readNotices := w.readNotices - 1 } else none
  | .work => w.work
  | .fail e =>
    match w.pc with
    | .processing _ | .finishing _ => some { w with pc := .failing e }
    | _ => none
  | .spuriousWake =>
    match w.pc with
    | .readBlocked | .dataBlocked => some w.wakeRead.wakeData
    | _ => none
  | .stop => w.stopWorker

/-- A worker, the threads that feed and pause it and the one that stops it, as a machine. -/
def machine (ι : Type) : Machine (WorkerWaits ι) (WaitLabel ι) where
  init := create
  step := step

end WorkerWaits

end Seekira.Model
