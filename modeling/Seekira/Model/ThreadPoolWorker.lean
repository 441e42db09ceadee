import Mathlib.Tactic.Common

/-!
# One worker of the thread pool

`ThreadPoolWorker` owns a FIFO of items, a thread that takes one item at a time,
processes it and reports the result to its observer, and a list of the exceptions
the thread caught.  The thread never pauses in the programs modelled here
(`pause` has no caller), so its two waits come down to one: it sleeps until an
item is queued or a stop is requested.

The worker is generic in the item; the ghost fields of its clients travel inside
the item.
-/

set_option autoImplicit false

namespace Seekira.Model

/-- The object a `catch` clause receives, split by whether it derives from `std::exception`. -/
inductive Exc where
  | std
  | other
  deriving DecidableEq, Repr

/-- Where the worker's thread stands in `ThreadPoolWorker::worker_thread`. -/
inductive WorkerPc (ι : Type) where
  /-- no thread: before `run_worker`, or after `stop_worker` joined it -/
  | notStarted
  /-- at the head of the loop, or asleep on `m_data_cnd` -/
  | idle
  /-- inside `thread_pool_worker_process_data` -/
  | processing (x : ι)
  /-- the item was processed; `on_finished` has not read `need_stop` yet -/
  | finishing (x : ι)
  /-- `on_finished` read `need_stop` as false and wants the table's guard -/
  | updating (x : ι)
  /-- the `catch (...)` clause, the exception not recorded yet -/
  | failing (e : Exc)
  /-- the loop has ended, the thread is not joined yet -/
  | exited
  deriving DecidableEq, Repr

/-- The fields of `ThreadPoolWorker` that its methods read. -/
structure ThreadPoolWorker (ι : Type) where
  isRunning : Bool
  needStop : Bool
  data : List ι
  exceptionPtrs : List Exc
  pc : WorkerPc ι
  deriving DecidableEq, Repr

namespace ThreadPoolWorker

variable {ι : Type}

/-- A worker as its constructor leaves it. -/
def create : ThreadPoolWorker ι :=
  { isRunning := false, needStop := false, data := [], exceptionPtrs := [], pc := .notStarted }

/-- `run_worker`.
SOURCE: core/threading/thread_pool_worker.hpp:81-90 -/
def runWorker (w : ThreadPoolWorker ι) : ThreadPoolWorker ι :=
  if w.isRunning then w else { w with isRunning := true, pc := .idle }

/-- `add_data`: starts the thread on demand and queues the item at the back.
SOURCE: core/threading/thread_pool_worker.hpp:56-67 -/
def addData (x : ι) (w : ThreadPoolWorker ι) : ThreadPoolWorker ι :=
  { w.runWorker with data := w.runWorker.data ++ [x] }

/-- One pass of the loop up to the start of the processing: leave when a stop was
requested, otherwise take the front item; `none` while the thread sleeps.
SOURCE: core/threading/thread_pool_worker.hpp:176-204 -/
def takeData (w : ThreadPoolWorker ι) : Option (ThreadPoolWorker ι) :=
  if w.needStop then some { w with pc := .exited }
  else
    match w.data with
    | [] => none
    | x :: rest => some { w with data := rest, pc := .processing x }

/-- The `catch (...)` clause records the current exception.
SOURCE: core/threading/thread_pool_worker.hpp:210-214 -/
def recordException (e : Exc) (w : ThreadPoolWorker ι) : ThreadPoolWorker ι :=
  { w with exceptionPtrs := w.exceptionPtrs ++ [e], pc := .idle }

/-- The second critical section of `reset_exceptions`, `size` being the length read in
the first one; `none` when `m_exception_ptrs.at(i)` throws `std::out_of_range`.  The
copying loop tests `size`, not its index, so once entered it ends only that way.
SOURCE: core/threading/thread_pool_worker.hpp:141-163 -/
def resetExceptions (size : Nat) (w : ThreadPoolWorker ι) : Option (ThreadPoolWorker ι) :=
  if size < w.exceptionPtrs.length then none
  else some { w with exceptionPtrs := [] }

/-- `m_worker.join()` in `stop_worker` returned. -/
def joined (w : ThreadPoolWorker ι) : ThreadPoolWorker ι := { w with pc := .notStarted }

/-- SOURCE: core/threading/thread_pool_worker.hpp:169-174 -/
def resetData (w : ThreadPoolWorker ι) : ThreadPoolWorker ι := { w with data := [] }

/-- `reset_exceptions` in `stop_worker`: nobody records an exception between its two locks, since
the thread is joined. -/
def dropExceptions (w : ThreadPoolWorker ι) : ThreadPoolWorker ι := { w with exceptionPtrs := [] }

/-- The thread holds an item whose result it has not delivered, or an exception it has
not recorded. -/
def busy (w : ThreadPoolWorker ι) : Bool :=
  match w.pc with
  | .processing _ | .finishing _ | .updating _ | .failing _ => true
  | .notStarted | .idle | .exited => false

/-- What the worker still owes for the items it was given: queued items, the item in its
hands, recorded exceptions. -/
def load (w : ThreadPoolWorker ι) : Nat :=
  w.data.length + (if w.busy then 1 else 0) + w.exceptionPtrs.length

/-- The item, or the result it became, in the hands of the thread. -/
def inHand (w : ThreadPoolWorker ι) : List ι :=
  match w.pc with
  | .processing x | .finishing x | .updating x => [x]
  | .notStarted | .idle | .failing _ | .exited => []

/-- A worker that was never run has no thread. -/
def Fresh (w : ThreadPoolWorker ι) : Prop := w.isRunning = false → w.pc = .notStarted

/-! ## What the operations do to the load -/

@[simp] theorem create_load : (create : ThreadPoolWorker ι).load = 0 := rfl

/-- A worker that is busy only where it was before has no more to do. -/
theorem load_le_of_busy {w : ThreadPoolWorker ι} {pc : WorkerPc ι}
    (h : ({ w with pc := pc } : ThreadPoolWorker ι).busy = true → w.busy = true) :
    ({ w with pc := pc } : ThreadPoolWorker ι).load ≤ w.load := by
  unfold load
  split
  · rename_i hb
    simp [h hb]
  · simp only
    omega

theorem load_eq_of_busy {w : ThreadPoolWorker ι} {pc : WorkerPc ι}
    (h : ({ w with pc := pc } : ThreadPoolWorker ι).busy = w.busy) :
    ({ w with pc := pc } : ThreadPoolWorker ι).load = w.load := by
  simp only [load, h]

/-- Taking the front item moves it from the queue to the thread. -/
theorem take_load {w : ThreadPoolWorker ι} {x : ι} {rest : List ι} (hpc : w.pc = .idle)
    (hdata : w.data = x :: rest) :
    ({ w with data := rest, pc := .processing x } : ThreadPoolWorker ι).load = w.load := by
  simp [load, busy, hpc, hdata]

/-- Recording an exception moves it from the thread to the list. -/
theorem recordException_load {w : ThreadPoolWorker ι} {e : Exc} (hpc : w.pc = .failing e) :
    (w.recordException e).load = w.load := by
  simp only [load, busy, recordException, hpc, List.length_append, List.length_singleton]
  simp
  omega

theorem load_clear_le (w : ThreadPoolWorker ι) :
    ({ w with exceptionPtrs := [] } : ThreadPoolWorker ι).load ≤ w.load :=
  Nat.add_le_add_left (Nat.zero_le _) _

/-- A worker that has a thread keeps the fact when it moves. -/
theorem Fresh.moved {w w' : ThreadPoolWorker ι} (h : w.Fresh) (hpc : w.pc ≠ .notStarted)
    (hr : w'.isRunning = w.isRunning) : w'.Fresh := by
  intro hrun
  exact absurd (h (hr ▸ hrun)) hpc

theorem create_fresh : (create : ThreadPoolWorker ι).Fresh := fun _ => rfl

@[simp] theorem addData_data (x : ι) (w : ThreadPoolWorker ι) :
    (w.addData x).data = w.data ++ [x] := by
  unfold addData runWorker
  split <;> rfl

@[simp] theorem addData_exceptionPtrs (x : ι) (w : ThreadPoolWorker ι) :
    (w.addData x).exceptionPtrs = w.exceptionPtrs := by
  unfold addData runWorker
  split <;> rfl

theorem addData_fresh (x : ι) (w : ThreadPoolWorker ι) : (w.addData x).Fresh := by
  intro h
  unfold addData runWorker at h
  split at h <;> simp_all

/-- Starting the thread does not change whether it holds an item. -/
theorem addData_busy {w : ThreadPoolWorker ι} (hw : w.Fresh) (x : ι) :
    (w.addData x).busy = w.busy := by
  unfold addData runWorker
  split
  · rfl
  · rename_i h
    have hpc : w.pc = .notStarted := hw (by simpa using h)
    simp [busy, hpc]

/-- `add_data` changes nothing in the worker's hands. -/
theorem addData_inHand {w : ThreadPoolWorker ι} (hw : w.Fresh) (x : ι) :
    (w.addData x).inHand = w.inHand := by
  unfold addData runWorker
  split
  · rfl
  · rename_i h
    have hpc : w.pc = .notStarted := hw (by simpa using h)
    simp [inHand, hpc]

theorem addData_load {w : ThreadPoolWorker ι} (hw : w.Fresh) (x : ι) :
    (w.addData x).load = w.load + 1 := by
  simp only [load, addData_busy hw, addData_data, addData_exceptionPtrs, List.length_append,
    List.length_singleton]
  omega

end ThreadPoolWorker

end Seekira.Model
