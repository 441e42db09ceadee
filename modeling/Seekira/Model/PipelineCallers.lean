import Seekira.Model.AsyncPipeline

/-!
# Callers that start a pipeline on demand

`add_process_data` starts the pool when it finds it stopped.  The check, the check
inside `ThreadPool::run`, the creation of the thread and the setting of the running
flag are separate steps, and the callers hold no lock between them.  The machine
here takes `AsyncPipeline` and lets any number of callers go through these steps one
by one; the pool thread, the workers and `stop` move as before.
-/

set_option autoImplicit false

namespace Seekira.Model

open Library

/-- Where a caller of `add_process_data` stands, with the input it brings.
SOURCE: proc/pipeline/async/async_pipeline.hpp:55-73, core/threading/thread_pool.hpp:41-54 -/
inductive CallerPc (α : Type) where
  | idle
  /-- before `is_running()` -/
  | checking (data : Option α)
  /-- before `if (m_is_running)` of `run` -/
  | entering (data : Option α)
  /-- before `m_need_stop.store(false)` -/
  | resetting (data : Option α)
  /-- before `m_worker = std::thread(...)` -/
  | creating (data : Option α)
  /-- before `m_is_running.store(true)` -/
  | raising (data : Option α)
  /-- before the guarded part -/
  | adding (data : Option α)
  | returned
  deriving DecidableEq, Repr

structure PipelineCallers (η ι α : Type) where
  pipeline : AsyncPipeline ι α
  callers : η → CallerPc α
  /-- pool threads created so far -/
  created : Nat
  /-- `m_worker` was assigned while it held a thread -/
  overwritten : Bool

inductive CallerLabel (η ι α : Type) where
  | call (i : η) (data : Option α)
  /-- the next step of a caller -/
  | caller (i : η)
  /-- a step of the pool thread, a worker or a thread that stops the pipeline -/
  | other (l : AsyncLabel ι α)

namespace PipelineCallers

variable {η ι α : Type} [DecidableEq η] [DecidableEq ι]

/-- No caller has come yet. -/
def initial : PipelineCallers η ι α :=
  { pipeline := AsyncPipeline.initial, callers := fun _ => .idle, created := 0, overwritten := false }

def setCaller (i : η) (pc : CallerPc α) (s : PipelineCallers η ι α) : PipelineCallers η ι α :=
  { s with callers := Function.update s.callers i pc }

/-- `m_worker = std::thread(...)`: the new thread runs; assigning it to a thread object that is
still joinable ends the process.
SOURCE: core/threading/thread_pool.hpp:51 -/
def createThread (s : PipelineCallers η ι α) : PipelineCallers η ι α :=
  match s.pipeline.poolPc with
  | .notRunning =>
    { s with pipeline := { s.pipeline with poolPc := .loop }, created := s.created + 1 }
  | _ =>
    { s with
      pipeline := { s.pipeline with aborted := true }
      created := s.created + 1
      overwritten := true }

/-- The next step of caller `i`. -/
def callerStep (T : BranchTree ι) (i : η) (s : PipelineCallers η ι α) :
    Option (PipelineCallers η ι α) :=
  match s.callers i with
  | .idle | .returned => none
  | .checking data =>
    if s.pipeline.isRunning then some (s.setCaller i (.adding data))
    else some (s.setCaller i (.entering data))
  | .entering data =>
    if s.pipeline.isRunning then some (s.setCaller i (.adding data))
    else some (s.setCaller i (.resetting data))
  | .resetting data =>
    some { s.setCaller i (.creating data) with pipeline := { s.pipeline with needStop := false } }
  | .creating data => some (s.createThread.setCaller i (.raising data))
  | .raising data =>
    some { s.setCaller i (.adding data) with pipeline := { s.pipeline with isRunning := true } }
  | .adding data =>
    if s.pipeline.guardHeld then none
    else some { s.setCaller i .returned with pipeline := s.pipeline.addProcessData T data }

def step (policy : PipelineSyncPolicy) (T : BranchTree ι) (s : PipelineCallers η ι α) :
    CallerLabel η ι α → Option (PipelineCallers η ι α)
  | .call i data =>
    if s.pipeline.aborted then none
    else
      match s.callers i with
      | .idle | .returned => some (s.setCaller i (.checking data))
      | _ => none
  | .caller i => if s.pipeline.aborted then none else s.callerStep T i
  | .other l =>
    match l with
    -- the callers bring these themselves
    | .run | .addProcessData _ => none
    | l => (AsyncPipeline.step policy T s.pipeline l).map fun p => { s with pipeline := p }

def machine (policy : PipelineSyncPolicy) (T : BranchTree ι) :
    Machine (PipelineCallers η ι α) (CallerLabel η ι α) where
  init := initial
  step := step policy T

end PipelineCallers

end Seekira.Model
