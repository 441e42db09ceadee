import Mathlib.Logic.Function.Basic
import Seekira.Library.Machine
import Seekira.Model.BranchTree
import Seekira.Model.ThreadPoolWorker

/-!
# The asynchronous pipeline

`AsyncPipeline` runs one `ThreadPoolWorker` per branch.  Three kinds of threads
meet in it: callers of `add_process_data`, the pool thread, which repeats
`thread_pool_iteration`, and the workers, which report through `on_finished`.
Two tables are shared under `m_branches_data_guard`: the input and the status of
every branch (`m_branches_data`) and the last output of every branch
(`m_output_branches_data`).

A step of the machine is one critical section, or a piece of one during which no
other thread can look at what it changes.  The pool thread holds the guard during
a whole iteration but meets the workers at every access to their queues and
exception lists, so an iteration is many steps; `add_process_data` and
`on_finished` hold the guard once each and are one step, enabled while the pool
thread does not hold it.

One thread writes the table without the guard: `thread_pool_stop_impl` resets the
entries while the pool thread may be in the middle of an iteration.  It may come
between `add_data` and the write of `{nullptr, Running}` behind it, which then
overwrites the reset.  The pool thread therefore starts a branch in two steps: the
first hands the item over and leaves the entry as the guard's other users will
find it, the second makes the write once more.  Until a stop gets in between, the
second changes nothing.

Items carry the number of the accepted input they were computed from.  The
numbers and the histories (`accepted`, `handed`, `taken`, `outputs`) only record
what happened; no step reads them.
-/

set_option autoImplicit false

namespace Seekira.Model

/-- The policies `AsyncPipeline` distinguishes.
SOURCE: proc/pipeline/pipeline_settings.hpp:11-17 -/
inductive PipelineSyncPolicy where
  | sync
  | parallelWait
  | parallelNoWait
  deriving DecidableEq, Repr

/-- SOURCE: proc/pipeline/async/async_pipeline.hpp:251-260 -/
inductive BranchStatus where
  | ready
  | running
  | finished
  deriving DecidableEq, Repr

/-- Pipeline data together with the number of the root input it was computed from. -/
structure Item (α : Type) where
  input : Nat
  data : α
  deriving DecidableEq, Repr

/-- An entry of `m_branches_data`; `none` is a null pointer.
SOURCE: proc/pipeline/async/async_pipeline.hpp:262-267 -/
structure BranchProcessData (α : Type) where
  dataToProcess : Option (Item α)
  status : BranchStatus
  deriving DecidableEq, Repr

/-- A map handed to `on_pipeline_data_update`. -/
abbrev PipelineResultMap (ι α : Type) := List (ι × Option (Item α))

/-- `clone_pipeline_data` on a pointer: the copy has the same contents, a null pointer
fails the assertion.
SOURCE: proc/pipeline/pipeline_data.hpp:41-46 -/
def clonePipelineData {α : Type} (data : Option (Item α)) : Except Exc (Option (Item α)) :=
  match data with
  | none => .error .std
  | some x => .ok (some x)

/-- Where the pool thread stands.  In every position but `notRunning`, `loop` and `exited` it
holds `m_branches_data_guard`; `todo` lists the branches the current loop has yet to visit. -/
inductive PoolPc (ι : Type) where
  | notRunning
  | loop
  /-- exception loop: before `has_exceptions` of the next branch -/
  | checking (todo : List ι)
  /-- `has_exceptions` was true: before `get_exceptions` -/
  | handling (b : ι) (todo : List ι)
  /-- walks the copy that `get_exceptions` returned -/
  | rethrowing (b : ι) (copies : List Exc) (todo : List ι)
  /-- before the first lock of `reset_exceptions` -/
  | resetting (b : ι) (todo : List ι)
  /-- between the two locks of `reset_exceptions` -/
  | trimming (b : ι) (size : Nat) (todo : List ι)
  /-- start loop; `ready` is `ready_for_wait_iteration` -/
  | starting (todo : List ι) (ready : Bool)
  /-- the worker of `b` has its item: before the write of `{nullptr, Running}` -/
  | marking (b : ι) (todo : List ι) (ready : Bool)
  | exited
  deriving DecidableEq, Repr

/-- Where a caller of `ThreadPool::stop` stands. -/
inductive StopPc (ι : Type) where
  | idle
  /-- before `stop_worker` of the next worker -/
  | stopping (todo : List ι)
  /-- `stop_worker` waits for the worker's thread -/
  | joining (b : ι) (todo : List ι)
  /-- the thread is joined: before `reset_data` -/
  | emptying (b : ι) (todo : List ι)
  /-- before `reset_exceptions` -/
  | resetting (b : ι) (todo : List ι)
  /-- before `m_is_running.store(false)` of the worker -/
  | releasing (b : ι) (todo : List ι)
  /-- before `m_need_stop.store(false)` of the worker -/
  | released (b : ι) (todo : List ι)
  /-- `thread_pool_stop_impl` resets the entries, without the guard -/
  | clearing (todo : List ι)
  /-- waits for the pool thread -/
  | joinPool
  deriving DecidableEq, Repr

/-- The state of a pipeline and of its threads. -/
structure AsyncPipeline (ι α : Type) where
  isRunning : Bool
  needStop : Bool
  poolPc : PoolPc ι
  stopPc : StopPc ι
  branchesData : ι → BranchProcessData α
  /-- outer `none`: the map has no such key; inner `none`: the key maps to a null pointer -/
  outputBranchesData : ι → Option (Option (Item α))
  threads : ι → ThreadPoolWorker (Item α)
  /-- `std::terminate` was called -/
  aborted : Bool
  /-- the maps handed to the observers, in order -/
  published : List (PipelineResultMap ι α)
  /-- branches whose `on_finished` threw, in order -/
  finishFailures : List ι
  /-- non-null inputs for which `add_process_data` returned true -/
  accepted : List (Item α)
  /-- items the pool thread gave to each worker -/
  handed : ι → List (Item α)
  /-- items each worker began to process -/
  taken : ι → List (Item α)
  /-- results with which each branch's `on_finished` updated the table -/
  outputs : ι → List (Item α)

/-- One step of one thread. -/
inductive AsyncLabel (ι α : Type) where
  /-- `add_process_data` finds the pool stopped and runs it -/
  | run
  /-- the guarded part of `add_process_data`, on a null pointer or on data -/
  | addProcessData (data : Option α)
  /-- the pool thread's next step -/
  | pool
  /-- the next step of a worker, its item's processing apart -/
  | worker (b : ι)
  /-- `thread_pool_worker_process_data` returns data or throws -/
  | processed (b : ι) (result : Except Exc α)
  /-- `ThreadPool::stop` is called -/
  | stop
  /-- the next step of the thread inside `ThreadPool::stop` -/
  | stopper

namespace AsyncPipeline

variable {ι α : Type} [DecidableEq ι]

/-- A pipeline as `initialize` leaves it: every branch created and idle.
SOURCE: proc/pipeline/async/async_pipeline.hpp:165-173 -/
def initial : AsyncPipeline ι α :=
  { isRunning := false, needStop := false, poolPc := .notRunning, stopPc := .idle,
    branchesData := fun _ => ⟨none, .finished⟩, outputBranchesData := fun _ => none,
    threads := fun _ => ThreadPoolWorker.create, aborted := false, published := [],
    finishFailures := [], accepted := [], handed := fun _ => [], taken := fun _ => [],
    outputs := fun _ => [] }

/-- The pool thread holds `m_branches_data_guard`. -/
def guardHeld (s : AsyncPipeline ι α) : Bool :=
  match s.poolPc with
  | .notRunning | .loop | .exited => false
  | _ => true

@[simp] def setEntry (b : ι) (d : BranchProcessData α) (s : AsyncPipeline ι α) : AsyncPipeline ι α :=
  { s with branchesData := Function.update s.branchesData b d }

@[simp] def setThread (b : ι) (w : ThreadPoolWorker (Item α)) (s : AsyncPipeline ι α) :
    AsyncPipeline ι α :=
  { s with threads := Function.update s.threads b w }

/-- `m_output_branches_data[b].reset()`, which creates a missing key. -/
@[simp] def resetOutput (b : ι) (s : AsyncPipeline ι α) : AsyncPipeline ι α :=
  { s with outputBranchesData := Function.update s.outputBranchesData b (some none) }

/-- `ThreadPool::run`.
SOURCE: core/threading/thread_pool.hpp:41-54 -/
def run (s : AsyncPipeline ι α) : Option (AsyncPipeline ι α) :=
  if s.isRunning then none
  else some { s with needStop := false, poolPc := .loop, isRunning := true }

/-- The guarded part of `add_process_data`: the input is refused unless the root branch is
finished.
SOURCE: proc/pipeline/async/async_pipeline.hpp:64-73 -/
def addProcessData (T : BranchTree ι) (data : Option α) (s : AsyncPipeline ι α) :
    AsyncPipeline ι α :=
  if (s.branchesData T.root).status ≠ .finished then s
  else
    let item := data.map fun d => (⟨s.accepted.length, d⟩ : Item α)
    { s.setEntry T.root ⟨item, .ready⟩ with accepted := s.accepted ++ item.toList }

/-- `ready_for_wait_iteration`.
SOURCE: proc/pipeline/async/async_pipeline.hpp:121-129 -/
def readyForWaitIteration (policy : PipelineSyncPolicy) (T : BranchTree ι)
    (s : AsyncPipeline ι α) : Bool :=
  if policy = .parallelWait then
    T.ids.all fun id =>
      if id = T.root then (s.branchesData id).status = .ready
      else (s.branchesData id).status = .finished
  else true

/-- `is_ready` for branch `b`, with the item to hand over.
SOURCE: proc/pipeline/async/async_pipeline.hpp:133-150 -/
def readyData (policy : PipelineSyncPolicy) (T : BranchTree ι) (ready : Bool) (b : ι)
    (s : AsyncPipeline ι α) : Option (Item α) :=
  let branchData := s.branchesData b
  if branchData.status = .running then none
  else
    let isReady := decide (branchData.status = .ready) &&
      (policy ≠ .parallelWait || T.root ≠ b || ready)
    if isReady then branchData.dataToProcess else none

/-- The pool thread hands item `x` to the worker of branch `b`.
SOURCE: proc/pipeline/async/async_pipeline.hpp:157-159 -/
def startBranch (b : ι) (x : Item α) (s : AsyncPipeline ι α) : AsyncPipeline ι α :=
  let s := s.setThread b ((s.threads b).addData x)
  let s := (s.setEntry b ⟨none, .running⟩).resetOutput b
  { s with handed := Function.update s.handed b (s.handed b ++ [x]) }

/-- The next step of the pool thread; `none` while it is not running.
SOURCE: core/threading/thread_pool.hpp:87-93, proc/pipeline/async/async_pipeline.hpp:88-161 -/
def poolStep (policy : PipelineSyncPolicy) (T : BranchTree ι) (s : AsyncPipeline ι α) :
    Option (AsyncPipeline ι α) :=
  match s.poolPc with
  | .notRunning => none
  | .exited => none
  | .loop =>
    if s.needStop then some { s with poolPc := .exited }
    else some { s with poolPc := .checking T.threadIds }
  | .checking [] =>
    some { s with poolPc := .starting T.ids (s.readyForWaitIteration policy T) }
  | .checking (b :: todo) =>
    if (s.threads b).exceptionPtrs.isEmpty then some { s with poolPc := .checking todo }
    else some { s with poolPc := .handling b todo }
  | .handling b todo =>
    some { s with poolPc := .rethrowing b (s.threads b).exceptionPtrs todo }
  | .rethrowing b [] todo => some { s with poolPc := .resetting b todo }
  | .rethrowing b (.std :: copies) todo =>
    some { (s.setEntry b ⟨none, .finished⟩).resetOutput b with
      poolPc := .rethrowing b copies todo }
  -- only std::exception is caught: anything else leaves the thread's function
  | .rethrowing _ (.other :: _) _ => some { s with aborted := true }
  | .resetting b todo =>
    some { s with poolPc := .trimming b (s.threads b).exceptionPtrs.length todo }
  | .trimming b size todo =>
    match (s.threads b).resetExceptions size with
    | none => some { s with aborted := true }
    | some w => some { s.setThread b w with poolPc := .checking todo }
  | .starting [] _ => some { s with poolPc := .loop }
  | .starting (b :: todo) ready =>
    match s.readyData policy T ready b with
    | none => some { s with poolPc := .starting todo ready }
    | some x => some { s.startBranch b x with poolPc := .marking b todo ready }
  | .marking b todo ready =>
    some { s.setEntry b ⟨none, .running⟩ with poolPc := .starting todo ready }

/-- `output`, the map that `on_finished` of branch `b` publishes for result `x`.
SOURCE: proc/pipeline/async/async_pipeline.hpp:208-229 -/
def finishOutput (policy : PipelineSyncPolicy) (T : BranchTree ι) (b : ι) (x : Item α)
    (s : AsyncPipeline ι α) : Except Exc (PipelineResultMap ι α) :=
  match policy with
  | .parallelNoWait => .ok [(b, some x)]
  | .parallelWait =>
    -- is_all_ready asks for the key alone; an entry may be null
    if T.threadIds.all fun id => (s.outputBranchesData id).isSome then
      (T.ids.filterMap fun id => (s.outputBranchesData id).map fun d => (id, d)).mapM
        fun e => (clonePipelineData e.2).map fun d => (e.1, d)
    else .ok []
  | .sync => .ok []

/-- The update of both tables by `on_finished` of branch `b` with result `x`.
SOURCE: proc/pipeline/async/async_pipeline.hpp:199-208 -/
def finishUpdate (T : BranchTree ι) (b : ι) (x : Item α) (s : AsyncPipeline ι α) :
    AsyncPipeline ι α :=
  let s := s.setEntry b ⟨none, .finished⟩
  { s with
    branchesData := fun id =>
      if id ∈ T.childrenIds b ∧ (s.branchesData id).status = .finished then ⟨some x, .ready⟩
      else s.branchesData id
    outputBranchesData := Function.update s.outputBranchesData b (some (some x))
    outputs := Function.update s.outputs b (s.outputs b ++ [x]) }

/-- `on_finished` of branch `b` once it holds the guard: update the tables, publish, or leave
with the exception that the worker is going to record.
SOURCE: proc/pipeline/async/async_pipeline.hpp:199-234 -/
def onFinished (policy : PipelineSyncPolicy) (T : BranchTree ι) (b : ι) (x : Item α)
    (s : AsyncPipeline ι α) : AsyncPipeline ι α :=
  let s := s.finishUpdate T b x
  match s.finishOutput policy T b x with
  | .ok output =>
    { s.setThread b { s.threads b with pc := .idle } with published := s.published ++ [output] }
  | .error e =>
    { s.setThread b { s.threads b with pc := .failing e } with
      finishFailures := s.finishFailures ++ [b] }

/-- The next step of branch `b`'s worker; `none` while it has none to take.
SOURCE: core/threading/thread_pool_worker.hpp:176-215,
proc/pipeline/async/async_pipeline.hpp:185-199 -/
def workerStep (policy : PipelineSyncPolicy) (T : BranchTree ι) (b : ι)
    (s : AsyncPipeline ι α) : Option (AsyncPipeline ι α) :=
  let w := s.threads b
  match w.pc with
  | .notStarted | .exited | .processing _ => none
  | .idle =>
    w.takeData.map fun w' =>
      match w'.pc with
      | .processing x =>
        { s.setThread b w' with taken := Function.update s.taken b (s.taken b ++ [x]) }
      | _ => s.setThread b w'
  | .finishing x =>
    if s.needStop then some (s.setThread b { w with pc := .idle })
    else some (s.setThread b { w with pc := .updating x })
  | .updating x => if s.guardHeld then none else some (s.onFinished policy T b x)
  | .failing e => some (s.setThread b (w.recordException e))

/-- The processing of branch `b`'s item ends.
SOURCE: proc/pipeline/async/async_pipeline_branch.hpp:41-45 -/
def processed (b : ι) (result : Except Exc α) (s : AsyncPipeline ι α) :
    Option (AsyncPipeline ι α) :=
  match (s.threads b).pc, result with
  | .processing x, .ok y =>
    some (s.setThread b { s.threads b with pc := .finishing ⟨x.input, y⟩ })
  | .processing _, .error e => some (s.setThread b { s.threads b with pc := .failing e })
  | _, _ => none

/-- A thread enters `ThreadPool::stop`.
SOURCE: core/threading/thread_pool.hpp:56-63 -/
def stop (T : BranchTree ι) (s : AsyncPipeline ι α) : Option (AsyncPipeline ι α) :=
  match s.stopPc with
  | .idle =>
    if s.isRunning then some { s with needStop := true, stopPc := .stopping T.threadIds }
    else some s
  | _ => none

/-- The next step of the thread inside `ThreadPool::stop`.
SOURCE: core/threading/thread_pool.hpp:62-75, core/threading/thread_pool_worker.hpp:92-112,
proc/pipeline/async/async_pipeline.hpp:75-86 -/
def stopperStep (T : BranchTree ι) (s : AsyncPipeline ι α) : Option (AsyncPipeline ι α) :=
  match s.stopPc with
  | .idle => none
  | .stopping [] => some { s with stopPc := .clearing T.ids }
  | .stopping (b :: todo) =>
    if (s.threads b).isRunning then
      some { s.setThread b { s.threads b with needStop := true } with stopPc := .joining b todo }
    else some { s with stopPc := .stopping todo }
  | .joining b todo =>
    match (s.threads b).pc with
    | .exited => some { s.setThread b (s.threads b).joined with stopPc := .emptying b todo }
    | _ => none
  | .emptying b todo =>
    some { s.setThread b (s.threads b).resetData with stopPc := .resetting b todo }
  | .resetting b todo =>
    some { s.setThread b (s.threads b).dropExceptions with stopPc := .releasing b todo }
  | .releasing b todo =>
    some { s.setThread b { s.threads b with isRunning := false } with stopPc := .released b todo }
  | .released b todo =>
    some { s.setThread b { s.threads b with needStop := false } with stopPc := .stopping todo }
  | .clearing [] => some { s with stopPc := .joinPool }
  | .clearing (b :: todo) =>
    some { s.setEntry b ⟨none, .finished⟩ with stopPc := .clearing todo }
  | .joinPool =>
    match s.poolPc with
    | .exited =>
      some { s with poolPc := .notRunning, isRunning := false, needStop := false, stopPc := .idle }
    | _ => none

/-- One step of the thread the label names; nothing moves after `std::terminate`. -/
def step (policy : PipelineSyncPolicy) (T : BranchTree ι) (s : AsyncPipeline ι α)
    (l : AsyncLabel ι α) : Option (AsyncPipeline ι α) :=
  if s.aborted then none
  else
    match l with
    | .run => s.run
    | .addProcessData data => if s.guardHeld then none else some (s.addProcessData T data)
    | .pool => s.poolStep policy T
    | .worker b => s.workerStep policy T b
    | .processed b result => s.processed b result
    | .stop => s.stop T
    | .stopper => s.stopperStep T

/-- The pipeline as a machine: its runs are the interleavings of its threads. -/
def machine (policy : PipelineSyncPolicy) (T : BranchTree ι) :
    Library.Machine (AsyncPipeline ι α) (AsyncLabel ι α) where
  init := initial
  step := step policy T

end AsyncPipeline

end Seekira.Model
