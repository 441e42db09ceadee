import Seekira.Model.ReaderWorker

/-!
# The destruction of a started reader

The members of a class derived from `ReaderFF` are destroyed first.  The body of `~ReaderFF` then
calls `stop`, which posts an event as any other thread does.  After it the reader's own members are
destroyed, and only the destructor of the base `ThreadWorker` joins the worker.
-/

set_option autoImplicit false

namespace Seekira.Model

open Library

/-- Where the destroying thread stands. -/
inductive DestructorStage where
  /-- the reader is alive -/
  | alive
  /-- the members of a derived class are destroyed, the body of `~ReaderFF` comes next -/
  | begun
  /-- in the body of `~ReaderFF`, `add_reader_event` has pushed the `Stop` -/
  | posted
  /-- the body has returned; the members are destroyed -/
  | returned
  /-- in `~ThreadWorker`, `m_need_stop` is set and the worker is joined -/
  | joining
  | joined
  deriving DecidableEq, Repr

/-- Members that the worker uses are destroyed: those of the reader after the body of `~ReaderFF`,
and where a class is derived from it (`derived`) those of that class before the body. -/
def DestructorStage.isDestroying (derived : Bool) : DestructorStage → Bool
  | .alive => false
  | .begun | .posted => derived
  | .returned | .joining | .joined => true

/-- A started reader and the thread that destroys it. -/
structure ReaderDestruction (δ κ : Type) where
  worker : ReaderWorker δ κ
  stage : DestructorStage

/-- Who moves. -/
inductive DestructionMove where
  /-- another thread posts an event -/
  | post (event : ReaderEvent)
  | notify
  /-- the worker's next step -/
  | work
  | spuriousWake
  /-- the destroying thread goes on -/
  | destroy
  deriving DecidableEq, Repr

namespace ReaderDestruction

variable {δ κ : Type} (D : IDemuxer δ) (C : CodecOps κ)

def moveWorker (l : ReaderLabel) (stage : DestructorStage) (d : ReaderDestruction δ κ) :
    Option (ReaderDestruction δ κ) :=
  (ReaderWorker.step D C d.worker l).map fun w => ⟨w, stage⟩

/-- SOURCE: video/ffmpeg/reader/reader.cpp:26-30, 84-90, core/threading/thread_worker.cpp:9-13, 25-44 -/
def destroy (d : ReaderDestruction δ κ) : Option (ReaderDestruction δ κ) :=
  match d.stage with
  -- no poster is still inside the reader
  | .alive =>
    if d.worker.pc = .crashed ∨ d.worker.eventGuardHeld then none else some { d with stage := .begun }
  | .begun => moveWorker D C (.post .stop) .posted d
  | .posted => moveWorker D C .notify .returned d
  -- `thread_worker_stop_impl` is empty: nobody is notified
  | .returned => moveWorker D C .requestStop .joining d
  | .joining =>
    if d.worker.pc = .finished then
      some { worker := { d.worker with exceptionPtr := none, reader.needStop := false }
             stage := .joined }
    else none
  | .joined => none

/-- Nobody posts to a reader that is being destroyed. -/
def step (d : ReaderDestruction δ κ) : DestructionMove → Option (ReaderDestruction δ κ)
  | .post event => if d.stage = .alive then moveWorker D C (.post event) d.stage d else none
  | .notify => if d.stage = .alive then moveWorker D C .notify d.stage d else none
  | .work => moveWorker D C .work d.stage d
  | .spuriousWake => moveWorker D C .spuriousWake d.stage d
  | .destroy => d.destroy D C

/-- A started reader until it is destroyed. -/
def machine (reader : ReaderFF δ κ) : Machine (ReaderDestruction δ κ) DestructionMove where
  init := ⟨ReaderWorker.started reader, .alive⟩
  step := step D C

end ReaderDestruction

end Seekira.Model
