import Seekira.Analysis.AsyncDelivery

/-!
# Failures of a branch

An exception thrown by a node crosses three stages.  The worker catches it, whatever
its type, and records it; the pool thread rethrows the recorded exceptions, catches
what derives from `std::exception` and resets the branch's entry; `reset_exceptions`
then forgets what was recorded.  Two things escape on the way and end the process: an
exception of another type, and the `std::out_of_range` that `reset_exceptions` throws
when an exception is recorded between its two locks.

Without them every failure stays in its branch.  Three invariants carry this: what is
recorded and what the pool thread remembers of it can be handled, the branch it is
handling has been reset once the copies are gone through, and a worker with recorded
exceptions is alive unless a stop is just taking it down.
-/

set_option autoImplicit false

namespace Seekira.Model

open Library

variable {ι α : Type}

namespace AsyncPipeline

/-- A node throws only what derives from `std::exception`. -/
def ThrowsStd : AsyncLabel ι α → Prop
  | .processed _ (.error e) => e = .std
  | _ => True

/-- No worker records an exception while the pool thread is between the two locks of
the worker's `reset_exceptions`. -/
def RecordsInTime (s : AsyncPipeline ι α) (l : AsyncLabel ι α) : Prop :=
  ∀ b e size todo, l = .worker b → (s.threads b).pc = .failing e → s.poolPc ≠ .trimming b size todo

/-- The branch whose exceptions the pool thread is handling. -/
def handledBranch (s : AsyncPipeline ι α) : Option ι :=
  match s.poolPc with
  | .handling b _ | .rethrowing b _ _ | .resetting b _ | .trimming b _ _ => some b
  | _ => none

/-- Branch `b` takes the next item, and its worker is there to process it. -/
structure AcceptsItems [DecidableEq ι] (T : BranchTree ι) (s : AsyncPipeline ι α) (b : ι) :
    Prop where
  running : (s.threads b).isRunning = true ∧ (s.threads b).needStop = false
  thread : (s.threads b).pc ≠ .notStarted ∧ (s.threads b).pc ≠ .exited
  input : b = T.root → ∀ d, (s.addProcessData T (some d)).branchesData b =
    ⟨some ⟨s.accepted.length, d⟩, .ready⟩
  result : ∀ a x, b ∈ T.childrenIds a → (s.finishUpdate T a x).branchesData b = ⟨some x, .ready⟩

/-- What a step from `s` to `s'` does while the pool thread handles the exceptions of `b`. -/
structure HandlesFailure [DecidableEq ι] (T : BranchTree ι) (s : AsyncPipeline ι α)
    (l : AsyncLabel ι α) (s' : AsyncPipeline ι α) (b : ι) : Prop where
  /-- only a stop touches the entries of the other branches -/
  others : ∀ c, c ≠ b → s'.branchesData c = s.branchesData c ∨
    (l = .stopper ∧ s'.branchesData c = ⟨none, .finished⟩)
  /-- an exception that is caught leaves the branch finished, with no data -/
  caught : ∀ e copies todo, l = .pool → s.poolPc = .rethrowing b (e :: copies) todo →
    s'.branchesData b = ⟨none, .finished⟩
  /-- and finished it stays -/
  kept : s.branchesData b = ⟨none, .finished⟩ → s'.branchesData b = ⟨none, .finished⟩
  /-- at the end nothing is pending -/
  cleared : ∀ size todo, l = .pool → s.poolPc = .trimming b size todo →
    (s'.threads b).exceptionPtrs = []
  /-- and the branch goes on, unless it is being stopped -/
  accepts : ∀ size todo, l = .pool → s.poolPc = .trimming b size todo → s.stopPc = .idle →
    s'.branchesData b = ⟨none, .finished⟩ ∧ s'.AcceptsItems T b

/-! ## Nothing escapes -/

/-- What the worker has caught derives from `std::exception`. -/
structure OnlyStd (w : ThreadPoolWorker (Item α)) : Prop where
  recorded : ∀ e ∈ w.exceptionPtrs, e = .std
  failing : ∀ e, w.pc = .failing e → e = .std

/-- The pool thread can handle what it remembers of the exceptions of a branch. -/
def PoolCatches (s : AsyncPipeline ι α) : Prop :=
  match s.poolPc with
  | .rethrowing _ copies _ => ∀ e ∈ copies, e = .std
  | .trimming b size _ => (s.threads b).exceptionPtrs.length ≤ size
  | _ => True

/-- Every exception on its way can be handled. -/
structure Catches (s : AsyncPipeline ι α) : Prop where
  workers : ∀ b, OnlyStd (s.threads b)
  pool : s.PoolCatches
  runs : s.aborted = false

theorem Catches.initial : (initial : AsyncPipeline ι α).Catches where
  workers := fun _ => ⟨nofun, nofun⟩
  pool := trivial
  runs := rfl

/-- A worker that has caught nothing new. -/
theorem OnlyStd.same {w w' : ThreadPoolWorker (Item α)} (h : OnlyStd w)
    (hex : w'.exceptionPtrs = w.exceptionPtrs) (hpc : ∀ e, w'.pc ≠ .failing e) : OnlyStd w' where
  recorded := by
    rw [hex]
    exact h.recorded
  failing := fun e he => absurd he (hpc e)

/-- Recording an exception that is caught keeps the rest. -/
theorem OnlyStd.recordException {w : ThreadPoolWorker (Item α)} {e : Exc} (h : OnlyStd w)
    (he : w.pc = .failing e) : OnlyStd (w.recordException e) where
  recorded := fun e' he' => by
    rcases List.mem_append.mp he' with hold | hnew
    · exact h.recorded e' hold
    · rw [List.mem_singleton.mp hnew]
      exact h.failing e he
  failing := nofun

/-- A further item brings no exception. -/
theorem OnlyStd.addData {w : ThreadPoolWorker (Item α)} (h : OnlyStd w) (x : Item α) :
    OnlyStd (w.addData x) := by
  refine ⟨by simpa using h.recorded, fun e he => ?_⟩
  unfold ThreadPoolWorker.addData ThreadPoolWorker.runWorker at he
  split at he
  · exact h.failing e he
  · cases he

variable [DecidableEq ι] {policy : PipelineSyncPolicy} {T : BranchTree ι}
  {s s' : AsyncPipeline ι α}

/-- A worker changes, and records nothing while the pool thread clears its exceptions. -/
theorem Catches.thread (h : s.Catches) {b : ι} {w : ThreadPoolWorker (Item α)}
    (hthreads : s'.threads = Function.update s.threads b w) (hpc : s'.poolPc = s.poolPc)
    (haborted : s'.aborted = s.aborted) (hw : OnlyStd w)
    (hlen : ∀ size todo, s.poolPc = .trimming b size todo →
      w.exceptionPtrs.length ≤ (s.threads b).exceptionPtrs.length) : s'.Catches := by
  refine ⟨fun c => ?_, ?_, haborted.trans h.runs⟩
  · rw [hthreads]
    by_cases hc : c = b
    · subst hc
      simpa using hw
    · rw [Function.update_of_ne hc]
      exact h.workers c
  · have hpool := h.pool
    unfold PoolCatches at hpool ⊢
    rw [hpc, hthreads]
    split
    · rename_i hpos
      rw [hpos] at hpool
      exact hpool
    · rename_i c size todo hpos
      rw [hpos] at hpool
      by_cases hc : c = b
      · subst hc
        rw [Function.update_self]
        exact Nat.le_trans (hlen size todo hpos) hpool
      · rw [Function.update_of_ne hc]
        exact hpool
    · trivial

/-- The thread of a worker moves without failing. -/
theorem Catches.move (h : s.Catches) {b : ι} {w : ThreadPoolWorker (Item α)}
    (hthreads : s'.threads = Function.update s.threads b w) (hpc : s'.poolPc = s.poolPc)
    (haborted : s'.aborted = s.aborted) (hex : w.exceptionPtrs = (s.threads b).exceptionPtrs)
    (hfail : ∀ e, w.pc ≠ .failing e) : s'.Catches :=
  h.thread hthreads hpc haborted ((h.workers b).same hex hfail) fun _ _ _ =>
    Nat.le_of_eq (congrArg _ hex)

/-- The thread of a worker fails with something that derives from `std::exception`. -/
theorem Catches.fail (h : s.Catches) {b : ι} {e : Exc}
    (hthreads : s'.threads = Function.update s.threads b { s.threads b with pc := .failing e })
    (hpc : s'.poolPc = s.poolPc) (haborted : s'.aborted = s.aborted) (he : e = .std) :
    s'.Catches := by
  refine h.thread hthreads hpc haborted ⟨(h.workers b).recorded, fun e' he' => ?_⟩ ?_
  · cases he'
    exact he
  · exact fun _ _ _ => Nat.le_refl _

omit [DecidableEq ι] in
/-- Cloning fails with the exception of an assertion. -/
theorem clone_error {entries : PipelineResultMap ι α} {e : Exc}
    (h : (entries.mapM fun p => (clonePipelineData p.2).map fun d => (p.1, d)) = .error e) :
    e = .std := by
  induction entries with
  | nil => cases h
  | cons p rest ih =>
    rw [List.mapM_cons] at h
    rcases hp : p.2 with _ | x
    · rw [hp] at h
      cases h
      rfl
    · rw [hp] at h
      apply ih
      rcases hrest : rest.mapM fun p => (clonePipelineData p.2).map fun d => (p.1, d) with e' | ds
      · rw [hrest] at h
        cases h
        exact hrest
      · rw [hrest] at h
        cases h

omit [DecidableEq ι] in

/-- What `on_finished` throws derives from `std::exception`. -/
theorem finishOutput_error {b : ι} {x : Item α} {e : Exc}
    (h : s.finishOutput policy T b x = .error e) : e = .std := by
  unfold finishOutput at h
  split at h
  · cases h
  · split at h
    · exact clone_error h
    · cases h
  · cases h

/-- What makes the pool thread end the process. -/
theorem escapes_of_aborted (hs : s.poolStep policy T = some s') (hruns : s.aborted = false)
    (haborted : s'.aborted = true) :
    (∃ b copies todo, s.poolPc = .rethrowing b (.other :: copies) todo) ∨
      ∃ b size todo, s.poolPc = .trimming b size todo ∧
        size < (s.threads b).exceptionPtrs.length := by
  have hkept : ∀ {p : AsyncPipeline ι α}, p.aborted = s.aborted → some p = some s' → False := by
    rintro p hp hsome
    cases hsome
    rw [hp, hruns] at haborted
    cases haborted
  unfold poolStep at hs
  split at hs
  · cases hs
  · cases hs
  · split at hs <;> exact absurd hs (hkept rfl)
  · exact absurd hs (hkept rfl)
  · split at hs <;> exact absurd hs (hkept rfl)
  · exact absurd hs (hkept rfl)
  · exact absurd hs (hkept rfl)
  · exact absurd hs (hkept rfl)
  · rename_i b copies todo hpc
    exact .inl ⟨b, copies, todo, hpc⟩
  · exact absurd hs (hkept rfl)
  · rename_i b size todo hpc
    split at hs
    · rename_i hreset
      refine .inr ⟨b, size, todo, hpc, ?_⟩
      unfold ThreadPoolWorker.resetExceptions at hreset
      by_contra hle
      rw [if_neg hle] at hreset
      cases hreset
    · exact absurd hs (hkept rfl)
  · exact absurd hs (hkept rfl)
  · split at hs <;> exact absurd hs (hkept rfl)
  · exact absurd hs (hkept rfl)

/-- A stop throws nothing. -/
theorem Catches.stopper (h : s.Catches) (hs : s.stopperStep T = some s') : s'.Catches := by
  have hsame : ∀ {p : AsyncPipeline ι α}, p.threads = s.threads → p.poolPc = s.poolPc →
      p.aborted = s.aborted → p.Catches := by
    intro p hthreads hpc haborted
    refine ⟨?_, ?_, haborted.trans h.runs⟩
    · rw [hthreads]
      exact h.workers
    · have hpool := h.pool
      unfold PoolCatches at hpool ⊢
      rw [hpc, hthreads]
      exact hpool
  have hunmoved : ∀ {b : ι} {w : ThreadPoolWorker (Item α)} {q : StopPc ι},
      w.exceptionPtrs = (s.threads b).exceptionPtrs → w.pc = (s.threads b).pc →
      ({ s.setThread b w with stopPc := q } : AsyncPipeline ι α).Catches := by
    intro b w q hex hpc
    have hw : OnlyStd w := by
      refine ⟨?_, ?_⟩
      · rw [hex]
        exact (h.workers b).recorded
      · rw [hpc]
        exact (h.workers b).failing
    exact h.thread rfl rfl rfl hw fun _ _ _ => Nat.le_of_eq (congrArg _ hex)
  cases stopMove_of_stopperStep hs with
  | clear _ => exact hsame rfl rfl rfl
  | ask b todo _ _ => exact hunmoved rfl rfl
  | pass b todo _ _ => exact hsame rfl rfl rfl
  | join b todo _ _ => exact h.move rfl rfl rfl rfl nofun
  | empty b todo _ => exact hunmoved rfl rfl
  | drop b todo _ =>
    exact h.thread rfl rfl rfl ⟨nofun, (h.workers b).failing⟩ fun _ _ _ => Nat.zero_le _
  | release b todo _ => exact hunmoved rfl rfl
  | leave b todo _ => exact hunmoved rfl rfl
  | cleared _ => exact hsame rfl rfl rfl
  | reset b todo _ => exact hsame rfl rfl rfl
  | done _ _ => exact ⟨h.workers, trivial, h.runs⟩

/-- A step that throws and records in time keeps every exception within reach. -/
theorem Catches.step {l : AsyncLabel ι α} (h : s.Catches) (hstd : ThrowsStd l)
    (hrecord : RecordsInTime s l) (hs : AsyncPipeline.step policy T s l = some s') :
    s'.Catches := by
  cases effect_of_step hs with
  | run _ => exact ⟨h.workers, trivial, h.runs⟩
  | refused d _ _ => exact h
  | accepted d _ _ => exact ⟨h.workers, h.pool, h.runs⟩
  | poolMove pc hmove =>
    refine ⟨h.workers, ?_, h.runs⟩
    cases hmove with
    | copied b todo _ => exact (h.workers b).recorded
    | rethrown b todo _ => trivial
    | measured b todo _ => exact Nat.le_refl _
    | _ => trivial
  | aborts =>
    have hpoolStep : s.poolStep policy T = some { s with aborted := true } := by
      simpa [AsyncPipeline.step, h.runs] using hs
    have hpool := h.pool
    rcases escapes_of_aborted hpoolStep h.runs rfl with ⟨b, copies, todo, hpc⟩ | ⟨b, size, todo, hpc, hlt⟩
    · simp [PoolCatches, hpc] at hpool
    · simp only [PoolCatches, hpc] at hpool
      omega
  | handled b copies todo hpc =>
    refine ⟨h.workers, ?_, h.runs⟩
    have hpool := h.pool
    simp only [PoolCatches, hpc] at hpool
    exact fun e he => hpool e (List.mem_cons_of_mem _ he)
  | trimmed b size todo _ _ =>
    have hdropped : (s.setThread b (s.threads b).dropExceptions).Catches :=
      h.thread rfl rfl rfl ⟨nofun, (h.workers b).failing⟩ fun _ _ _ => Nat.zero_le _
    exact ⟨hdropped.workers, trivial, h.runs⟩
  | started b x todo ready _ _ _ =>
    have hgiven : (s.setThread b ((s.threads b).addData x)).Catches :=
      h.thread rfl rfl rfl ((h.workers b).addData x) (by simp)
    exact ⟨hgiven.workers, trivial, h.runs⟩
  | marked b todo ready _ => exact ⟨h.workers, trivial, h.runs⟩
  | takes b x rest _ _ => exact h.move rfl rfl rfl rfl nofun
  | leaves b _ _ => exact h.move rfl rfl rfl rfl nofun
  | skips b x _ _ => exact h.move rfl rfl rfl rfl nofun
  | enters b x _ _ => exact h.move rfl rfl rfl rfl nofun
  | finishes b x output _ _ _ => exact h.move rfl rfl rfl rfl nofun
  | fails b x e _ _ hout => exact h.fail rfl rfl rfl (finishOutput_error hout)
  | records b e hpc =>
    refine h.thread rfl rfl rfl ((h.workers b).recordException hpc) fun size todo hpos => ?_
    exact absurd hpos (hrecord b e size todo rfl hpc)
  | returned b x y _ => exact h.move rfl rfl rfl rfl nofun
  | threw b x e _ => exact h.fail rfl rfl rfl hstd
  | stop s' hstop =>
    rcases stop_cases hstop with ⟨-, rfl⟩ | rfl
    · exact ⟨h.workers, h.pool, h.runs⟩
    · exact h
  | stopper s' hstop => exact h.stopper hstop

/-! ## Workers with exceptions are alive -/

end AsyncPipeline

/-- What the stop is doing with the worker of a branch. -/
inductive StopTurn where
  /-- nothing yet, or nothing any more -/
  | out
  | joining
  | joined
  /-- the thread is joined and its exceptions are dropped -/
  | dropped
  /-- the worker no longer counts as running, but `m_need_stop` is still set -/
  | released
  deriving DecidableEq, Repr

/-- The turn of branch `b`. -/
def StopPc.turn [DecidableEq ι] (b : ι) : StopPc ι → StopTurn
  | .joining c _ => if b = c then .joining else .out
  | .emptying c _ | .resetting c _ => if b = c then .joined else .out
  | .releasing c _ => if b = c then .dropped else .out
  | .released c _ => if b = c then .released else .out
  | .idle | .stopping _ | .clearing _ | .joinPool => .out

theorem StopPc.At.turn_of_ne [DecidableEq ι] {pc : StopPc ι} {b c : ι} {todo : List ι}
    (h : pc.At b todo) (hc : c ≠ b) : pc.turn c = .out := by
  cases h <;> simp [turn, hc]

namespace ThreadPoolWorker

/-- What holds of a worker in each turn.  Between `released` and the end of `stop_worker` an item
can start the thread again, which leaves at once. -/
def TurnOk (turn : StopTurn) (w : ThreadPoolWorker ι) : Prop :=
  match turn with
  | .out => (w.pc ≠ .notStarted → w.isRunning = true) ∧ w.needStop = false ∧
      (w.pc = .notStarted ∨ w.pc = .exited → w.exceptionPtrs = [])
  | .joining => w.isRunning = true ∧ w.needStop = true
  | .joined => w.isRunning = true ∧ w.needStop = true ∧ w.pc = .notStarted
  | .dropped => w.isRunning = true ∧ w.needStop = true ∧ w.pc = .notStarted ∧ w.exceptionPtrs = []
  | .released => w.needStop = true ∧ w.exceptionPtrs = [] ∧
      (w.pc = .notStarted ∨ w.isRunning = true ∧ (w.pc = .idle ∨ w.pc = .exited))

variable {turn : StopTurn} {w w' : ThreadPoolWorker ι}

/-- Outside a stop, a worker with exceptions has a thread that goes on. -/
theorem TurnOk.alive (h : w.TurnOk .out) (hex : w.exceptionPtrs ≠ []) :
    (w.isRunning = true ∧ w.needStop = false) ∧ w.pc ≠ .notStarted ∧ w.pc ≠ .exited := by
  obtain ⟨hrun, hstop, hpc⟩ := h
  have hstarted : w.pc ≠ .notStarted := fun hw => hex (hpc (.inl hw))
  exact ⟨⟨hrun hstarted, hstop⟩, hstarted, fun hw => hex (hpc (.inr hw))⟩

/-- A thread with an item or an exception in its hands has not been joined. -/
theorem TurnOk.of_busy (h : w.TurnOk turn) (hbusy : w.busy = true) :
    (turn = .out ∨ turn = .joining) ∧ w.isRunning = true := by
  have hpc : w.pc ≠ .notStarted ∧ w.pc ≠ .idle ∧ w.pc ≠ .exited := by
    refine ⟨?_, ?_, ?_⟩ <;> intro hpc <;> simp [busy, hpc] at hbusy
  cases turn with
  | out => exact ⟨.inl rfl, h.1 hpc.1⟩
  | joining => exact ⟨.inr rfl, h.1⟩
  | joined => exact absurd h.2.2 hpc.1
  | dropped => exact absurd h.2.2.1 hpc.1
  | released =>
    rcases h.2.2 with hw | ⟨-, hw | hw⟩
    · exact absurd hw hpc.1
    · exact absurd hw hpc.2.1
    · exact absurd hw hpc.2.2

/-- A thread with something in its hands moves on. -/
theorem TurnOk.moved (h : w.TurnOk turn) (hbusy : w.busy = true)
    (hrun : w'.isRunning = w.isRunning) (hstop : w'.needStop = w.needStop)
    (hpc : w'.pc ≠ .notStarted ∧ w'.pc ≠ .exited) : w'.TurnOk turn := by
  obtain ⟨hturn, hrunning⟩ := h.of_busy hbusy
  rcases hturn with rfl | rfl
  · refine ⟨fun _ => hrun.trans hrunning, hstop.trans h.2.1, fun hw => ?_⟩
    rcases hw with hw | hw
    · exact absurd hw hpc.1
    · exact absurd hw hpc.2
  · exact ⟨hrun.trans hrunning, hstop.trans h.2⟩

/-- The thread takes an item: no stop is at its worker. -/
theorem TurnOk.takes (h : w.TurnOk turn) (hpc : w.pc = .idle) (hstop : w.needStop = false) {x : ι}
    {rest : List ι} : ({ w with data := rest, pc := .processing x } : ThreadPoolWorker ι).TurnOk
      turn := by
  cases turn with
  | out => exact ⟨fun _ => h.1 (by simp [hpc]), hstop, by simp⟩
  | joining => exact absurd (h.2.symm.trans hstop) Bool.noConfusion
  | joined => exact absurd (h.2.1.symm.trans hstop) Bool.noConfusion
  | dropped => exact absurd (h.2.1.symm.trans hstop) Bool.noConfusion
  | released => exact absurd (h.1.symm.trans hstop) Bool.noConfusion

/-- The thread leaves its loop because a stop is at its worker. -/
theorem TurnOk.leaves (h : w.TurnOk turn) (hpc : w.pc = .idle) (hstop : w.needStop = true) :
    ({ w with pc := .exited } : ThreadPoolWorker ι).TurnOk turn := by
  cases turn with
  | out => exact absurd (h.2.1.symm.trans hstop) Bool.noConfusion
  | joining => exact h
  | joined => exact absurd (h.2.2.symm.trans hpc) nofun
  | dropped => exact absurd (h.2.2.1.symm.trans hpc) nofun
  | released =>
    rcases h.2.2 with hw | ⟨hrun, -⟩
    · exact absurd (hw.symm.trans hpc) nofun
    · exact ⟨h.1, h.2.1, .inr ⟨hrun, .inr rfl⟩⟩

/-- Dropping the exceptions keeps the turn of the worker right. -/
theorem TurnOk.dropExceptions (h : w.TurnOk turn) : w.dropExceptions.TurnOk turn := by
  cases turn with
  | out => exact ⟨h.1, h.2.1, fun _ => rfl⟩
  | joining => exact h
  | joined => exact h
  | dropped => exact ⟨h.1, h.2.1, h.2.2.1, rfl⟩
  | released => exact ⟨h.1, rfl, h.2.2⟩

/-- An item is handed over; a worker that does not run is started. -/
theorem TurnOk.addData (h : w.TurnOk turn) (x : ι) : (w.addData x).TurnOk turn := by
  by_cases hrun : w.isRunning = true
  · have hsame : w.addData x = { w with data := w.data ++ [x] } := by
      simp [ThreadPoolWorker.addData, runWorker, hrun]
    rw [hsame]
    cases turn <;> exact h
  · have hstarts : w.addData x = { w with isRunning := true, data := w.data ++ [x], pc := .idle } := by
      simp [ThreadPoolWorker.addData, runWorker, hrun]
    rw [hstarts]
    cases turn with
    | out => exact ⟨fun _ => rfl, h.2.1, by simp⟩
    | joining => exact absurd h.1 hrun
    | joined => exact absurd h.1 hrun
    | dropped => exact absurd h.1 hrun
    | released => exact ⟨h.1, h.2.1, .inr ⟨rfl, .inl rfl⟩⟩

end ThreadPoolWorker

namespace AsyncPipeline

variable [DecidableEq ι] {policy : PipelineSyncPolicy} {T : BranchTree ι}
  {s s' : AsyncPipeline ι α}

/-- Every worker is as the stop's turn asks. -/
def Turns (s : AsyncPipeline ι α) : Prop := ∀ b, (s.threads b).TurnOk (s.stopPc.turn b)

theorem Turns.initial : (initial : AsyncPipeline ι α).Turns :=
  fun _ => ⟨fun hpc => absurd rfl hpc, rfl, fun _ => rfl⟩

/-- One worker changes, and the stop does not move. -/
theorem Turns.thread (h : s.Turns) {b : ι} {w : ThreadPoolWorker (Item α)}
    (hthreads : s'.threads = Function.update s.threads b w) (hstop : s'.stopPc = s.stopPc)
    (hw : w.TurnOk (s.stopPc.turn b)) : s'.Turns := by
  intro c
  rw [hthreads, hstop]
  by_cases hc : c = b
  · subst hc
    rw [Function.update_self]
    exact hw
  · rw [Function.update_of_ne hc]
    exact h c

/-- A thread with something in its hands moves to another position. -/
theorem Turns.move (h : s.Turns) {b : ι} {q : WorkerPc (Item α)} (hbusy : (s.threads b).busy = true)
    (hq : q ≠ .notStarted ∧ q ≠ .exited)
    (hthreads : s'.threads = Function.update s.threads b { s.threads b with pc := q })
    (hstop : s'.stopPc = s.stopPc) : s'.Turns :=
  h.thread hthreads hstop ((h b).moved hbusy rfl rfl hq)

/-- The stop moves on at the worker of one branch, whose turn changes. -/
theorem Turns.advance (h : s.Turns) {b : ι} {todo : List ι} {w : ThreadPoolWorker (Item α)}
    (hfrom : s.stopPc.At b todo) (hto : s'.stopPc.At b todo)
    (hthreads : s'.threads = Function.update s.threads b w)
    (hw : w.TurnOk (s'.stopPc.turn b)) : s'.Turns := by
  intro c
  rw [hthreads]
  by_cases hc : c = b
  · subst hc
    rw [Function.update_self]
    exact hw
  · rw [Function.update_of_ne hc, hto.turn_of_ne hc, ← hfrom.turn_of_ne hc]
    exact h c

/-- The stop is at no worker before the step and after it. -/
theorem Turns.same (h : s.Turns) (hthreads : s'.threads = s.threads)
    (hturn : ∀ b, s'.stopPc.turn b = s.stopPc.turn b) : s'.Turns := by
  intro b
  rw [hthreads, hturn b]
  exact h b

/-- The steps of a stop keep the turns right. -/
theorem Turns.stopper (h : s.Turns) (hs : s.stopperStep T = some s') : s'.Turns := by
  have hturn : ∀ b (turn : StopTurn), s.stopPc.turn b = turn → (s.threads b).TurnOk turn := by
    rintro b turn rfl
    exact h b
  cases stopMove_of_stopperStep hs with
  | clear hstop => exact h.same rfl fun b => by simp [hstop, StopPc.turn]
  | ask b todo hstop hrun =>
    apply h.advance (hstop ▸ .stopping) .joining rfl
    rw [StopPc.turn, if_pos rfl]
    exact ⟨hrun, rfl⟩
  | pass b todo hstop _ => exact h.same rfl fun c => by simp [hstop, StopPc.turn]
  | join b todo hstop _ =>
    have hjoining := hturn b .joining (by simp [hstop, StopPc.turn])
    apply h.advance (hstop ▸ .joining) .emptying rfl
    rw [StopPc.turn, if_pos rfl]
    exact ⟨hjoining.1, hjoining.2, rfl⟩
  | empty b todo hstop =>
    have hjoined := hturn b .joined (by simp [hstop, StopPc.turn])
    apply h.advance (hstop ▸ .emptying) .resetting rfl
    rw [StopPc.turn, if_pos rfl]
    exact hjoined
  | drop b todo hstop =>
    have hjoined := hturn b .joined (by simp [hstop, StopPc.turn])
    apply h.advance (hstop ▸ .resetting) .releasing rfl
    rw [StopPc.turn, if_pos rfl]
    exact ⟨hjoined.1, hjoined.2.1, hjoined.2.2, rfl⟩
  | release b todo hstop =>
    have hdropped := hturn b .dropped (by simp [hstop, StopPc.turn])
    apply h.advance (hstop ▸ .releasing) .released rfl
    rw [StopPc.turn, if_pos rfl]
    exact ⟨hdropped.2.1, hdropped.2.2.2, .inl hdropped.2.2.1⟩
  | leave b todo hstop =>
    have hreleased := hturn b .released (by simp [hstop, StopPc.turn])
    apply h.advance (hstop ▸ .released) .past rfl
    refine ⟨fun hpc => ?_, rfl, fun _ => hreleased.2.1⟩
    exact (hreleased.2.2.resolve_left hpc).1
  | cleared hstop => exact h.same rfl fun b => by simp [hstop, StopPc.turn]
  | reset b todo hstop => exact h.same rfl fun c => by simp [hstop, StopPc.turn]
  | done hstop _ => exact h.same rfl fun b => by simp [hstop, StopPc.turn]

/-- A worker's thread takes an item only when no stop was requested. -/
theorem needStop_of_takes {b : ι} (hs : s.workerStep policy T b = some s')
    (hpc : (s.threads b).pc = .idle) (hafter : (s'.threads b).pc ≠ .exited) :
    (s.threads b).needStop = false := by
  by_contra hstop
  apply hafter
  have hstop : (s.threads b).needStop = true := by simpa using hstop
  simp only [workerStep, hpc, ThreadPoolWorker.takeData, hstop, if_true, Option.map_some] at hs
  cases hs
  simp

/-- Every step keeps the turns right. -/
theorem Turns.step {l : AsyncLabel ι α} (h : s.Turns)
    (hs : AsyncPipeline.step policy T s l = some s') : s'.Turns := by
  cases effect_of_step hs with
  | run _ => exact h
  | refused d _ _ => exact h
  | accepted d _ _ => exact h
  | poolMove pc _ => exact h
  | aborts => exact h
  | handled b copies todo _ => exact h
  | trimmed b size todo _ _ => exact h.thread rfl rfl (h b).dropExceptions
  | started b x todo ready _ _ _ => exact h.thread rfl rfl ((h b).addData x)
  | marked b todo ready _ => exact h
  | takes b x rest hpc _ =>
    refine h.thread rfl rfl ((h b).takes hpc ?_)
    unfold AsyncPipeline.step at hs
    split at hs
    · cases hs
    · exact needStop_of_takes hs hpc (by simp)
  | leaves b hpc hstop => exact h.thread rfl rfl ((h b).leaves hpc hstop)
  | skips b x hpc _ => exact h.move (by simp [ThreadPoolWorker.busy, hpc]) (by simp) rfl rfl
  | enters b x hpc _ => exact h.move (by simp [ThreadPoolWorker.busy, hpc]) (by simp) rfl rfl
  | finishes b x output hpc _ _ => exact h.move (by simp [ThreadPoolWorker.busy, hpc]) (by simp) rfl rfl
  | fails b x e hpc _ _ => exact h.move (by simp [ThreadPoolWorker.busy, hpc]) (by simp) rfl rfl
  | records b e hpc =>
    refine h.thread rfl rfl ((h b).moved (by simp [ThreadPoolWorker.busy, hpc]) rfl rfl ?_)
    simp [ThreadPoolWorker.recordException]
  | returned b x y hpc => exact h.move (by simp [ThreadPoolWorker.busy, hpc]) (by simp) rfl rfl
  | threw b x e hpc => exact h.move (by simp [ThreadPoolWorker.busy, hpc]) (by simp) rfl rfl
  | stop s' hstop =>
    rcases stop_cases hstop with ⟨hidle, rfl⟩ | rfl
    · exact h.same rfl fun b => by simp [hidle, StopPc.turn]
    · exact h
  | stopper s' hstop => exact h.stopper hstop

/-! ## A branch that is handled has been reset -/

/-- Unless a stop is under way, the branch that the pool thread handles has exceptions, and it has
been reset once the copies are gone through. -/
def Visits (s : AsyncPipeline ι α) : Prop :=
  s.stopPc = .idle →
    match s.poolPc with
    | .handling b _ => (s.threads b).exceptionPtrs ≠ []
    | .rethrowing b copies _ =>
      (s.threads b).exceptionPtrs ≠ [] ∧ (copies = [] → s.branchesData b = ⟨none, .finished⟩)
    | .resetting b _ | .trimming b _ _ =>
      (s.threads b).exceptionPtrs ≠ [] ∧ s.branchesData b = ⟨none, .finished⟩
    | _ => True

omit [DecidableEq ι] in

theorem Visits.initial : (initial : AsyncPipeline ι α).Visits := fun _ => trivial

omit [DecidableEq ι] in
/-- No entry changes and no exception is forgotten. -/
theorem Visits.same (h : s.Visits) (hpc : s'.poolPc = s.poolPc) (hstop : s'.stopPc = s.stopPc)
    (hentries : s'.branchesData = s.branchesData)
    (hex : ∀ b, (s.threads b).exceptionPtrs ≠ [] → (s'.threads b).exceptionPtrs ≠ []) :
    s'.Visits := by
  intro hidle
  have hvisit := h (hstop ▸ hidle)
  rw [hpc, hentries]
  split at hvisit
  · exact hex _ hvisit
  · exact ⟨hex _ hvisit.1, hvisit.2⟩
  · exact ⟨hex _ hvisit.1, hvisit.2⟩
  · exact ⟨hex _ hvisit.1, hvisit.2⟩
  · trivial

/-- The thread of a worker moves. -/
theorem Visits.thread (h : s.Visits) {b : ι} {w : ThreadPoolWorker (Item α)}
    (hthreads : s'.threads = Function.update s.threads b w) (hpc : s'.poolPc = s.poolPc)
    (hstop : s'.stopPc = s.stopPc) (hentries : s'.branchesData = s.branchesData)
    (hex : w.exceptionPtrs = [] → (s.threads b).exceptionPtrs = []) : s'.Visits := by
  refine h.same hpc hstop hentries fun c hne => ?_
  rw [hthreads]
  by_cases hc : c = b
  · subst hc
    rw [Function.update_self]
    exact mt hex hne
  · rw [Function.update_of_ne hc]
    exact hne

omit [DecidableEq ι] in
/-- While the guard is free the pool thread handles nothing. -/
theorem Visits.of_free (hguard : s.guardHeld = false) (hpc : s'.poolPc = s.poolPc) : s'.Visits := by
  intro _
  rw [hpc]
  unfold guardHeld at hguard
  split at hguard
  · rename_i hpos
    rw [hpos]
    trivial
  · rename_i hpos
    rw [hpos]
    trivial
  · rename_i hpos
    rw [hpos]
    trivial
  · cases hguard

theorem Visits.stopper (hs : s.stopperStep T = some s') : s'.Visits := by
  intro hidle
  cases stopMove_of_stopperStep hs with
  | done _ _ => trivial
  | _ => cases hidle

/-- The moves of the pool thread keep the visits right. -/
theorem Visits.poolMove {q : PoolPc ι} (h : s.Visits) (hmove : PoolMove policy T s q) :
    ({ s with poolPc := q } : AsyncPipeline ι α).Visits := by
  intro hidle
  have hvisit := h hidle
  cases hmove with
  | dirty b todo _ hex => exact hex
  | copied b todo hpc =>
    rw [hpc] at hvisit
    exact ⟨hvisit, fun hnil => absurd hnil hvisit⟩
  | rethrown b todo hpc =>
    rw [hpc] at hvisit
    exact ⟨hvisit.1, hvisit.2 rfl⟩
  | measured b todo hpc =>
    rw [hpc] at hvisit
    exact hvisit
  | _ => trivial

/-- Every step keeps the visits right. -/
theorem Visits.step {l : AsyncLabel ι α} (h : s.Visits)
    (hs : AsyncPipeline.step policy T s l = some s') : s'.Visits := by
  cases effect_of_step hs with
  | run _ => exact fun _ => trivial
  | refused d _ _ => exact h
  | accepted d hguard _ => exact .of_free hguard rfl
  | poolMove pc hmove => exact h.poolMove hmove
  | aborts => exact h
  | handled b copies todo hpc =>
    intro hidle
    have hvisit := h hidle
    rw [hpc] at hvisit
    exact ⟨hvisit.1, fun _ => Function.update_self ..⟩
  | trimmed b size todo _ _ => exact fun _ => trivial
  | started b x todo ready _ _ _ => exact fun _ => trivial
  | marked b todo ready _ => exact fun _ => trivial
  | takes b x rest _ _ => exact h.thread rfl rfl rfl rfl id
  | leaves b _ _ => exact h.thread rfl rfl rfl rfl id
  | skips b x _ _ => exact h.thread rfl rfl rfl rfl id
  | enters b x _ _ => exact h.thread rfl rfl rfl rfl id
  | finishes b x output _ hguard _ => exact .of_free hguard rfl
  | fails b x e _ hguard _ => exact .of_free hguard rfl
  | records b e _ =>
    exact h.thread rfl rfl rfl rfl fun hnil => absurd hnil (by simp [ThreadPoolWorker.recordException])
  | returned b x y _ => exact h.thread rfl rfl rfl rfl id
  | threw b x e _ => exact h.thread rfl rfl rfl rfl id
  | stop s' hstop =>
    rcases stop_cases hstop with ⟨-, rfl⟩ | rfl
    · intro hidle
      cases hidle
    · exact h
  | stopper s' hstop => exact .stopper hstop

/-! ## The handling of a failure -/

omit [DecidableEq ι] in

theorem guardHeld_of_handled {b : ι} (h : s.handledBranch = some b) : s.guardHeld = true := by
  unfold handledBranch at h
  unfold guardHeld
  split at h <;> simp_all

/-- A stop leaves an entry as it is or resets it. -/
theorem stopper_entry (hs : s.stopperStep T = some s') (c : ι) :
    s'.branchesData c = s.branchesData c ∨ s'.branchesData c = ⟨none, .finished⟩ := by
  cases stopMove_of_stopperStep hs with
  | reset b todo _ =>
    by_cases hc : c = b
    · subst hc
      exact .inr (Function.update_self ..)
    · exact .inl (Function.update_of_ne hc ..)
  | _ => exact .inl rfl

/-- While the exceptions of `b` are handled, only its entry is reset, apart from what a stop
does. -/
theorem entry_of_handled {l : AsyncLabel ι α} {b : ι} (hb : s.handledBranch = some b)
    (hs : Effect policy T s l s') (c : ι) :
    s'.branchesData c = s.branchesData c ∨
      (c = b ∨ l = .stopper) ∧ s'.branchesData c = ⟨none, .finished⟩ := by
  have hguard : ¬s.guardHeld = false := by simp [guardHeld_of_handled hb]
  cases hs with
  | accepted d hfree _ => exact absurd hfree hguard
  | handled b' copies todo hpc =>
    have hbranch : b' = b := by simpa [handledBranch, hpc] using hb
    by_cases hc : c = b'
    · subst hc
      exact .inr ⟨.inl hbranch, Function.update_self ..⟩
    · exact .inl (Function.update_of_ne hc ..)
  | started b' x todo ready hpc _ _ => simp [handledBranch, hpc] at hb
  | marked b' todo ready hpc => simp [handledBranch, hpc] at hb
  | finishes b' x output _ hfree _ => exact absurd hfree hguard
  | fails b' x e _ hfree _ => exact absurd hfree hguard
  | stop s' hstop =>
    rcases stop_cases hstop with ⟨-, rfl⟩ | rfl <;> exact .inl rfl
  | stopper s' hstop => exact (stopper_entry hstop c).imp_right fun h => ⟨.inr rfl, h⟩
  | _ => exact .inl rfl

/-- A finished branch whose worker is alive accepts an item. -/
theorem acceptsItems_of_finished {b : ι}
    (hrun : (s.threads b).isRunning = true ∧ (s.threads b).needStop = false)
    (hthread : (s.threads b).pc ≠ .notStarted ∧ (s.threads b).pc ≠ .exited)
    (hentry : s.branchesData b = ⟨none, .finished⟩) : s.AcceptsItems T b := by
  refine ⟨hrun, hthread, ?_, fun a x hchild => ?_⟩
  · rintro rfl d
    simp [addProcessData, hentry]
  · rcases finishUpdate_entry T a x s b with ⟨rfl, -⟩ | ⟨-, -, -, hfilled⟩ | ⟨hne, hsame⟩
    · exact absurd hchild (T.not_mem_children_self b)
    · exact hfilled
    · simp [finishUpdate, hchild, Function.update_of_ne hne, hentry]

/-- The last step of the handling forgets the exceptions. -/
theorem trimmed_of_step {b : ι} {size : Nat} {todo : List ι} (h : s.Catches)
    (hpc : s.poolPc = .trimming b size todo) (hs : AsyncPipeline.step policy T s .pool = some s') :
    s' = { s.setThread b (s.threads b).dropExceptions with poolPc := .checking todo } := by
  have hpool := h.pool
  simp only [PoolCatches, hpc] at hpool
  simp only [AsyncPipeline.step, h.runs, Bool.false_eq_true, if_false, poolStep, hpc,
    ThreadPoolWorker.resetExceptions, if_neg (Nat.not_lt.mpr hpool)] at hs
  cases hs
  rfl

/-- A step taken while the exceptions of `b` are handled. -/
theorem handlesFailure_of_step {l : AsyncLabel ι α} {b : ι} (hcatches : s.Catches)
    (hturns : s.Turns) (hvisits : s.Visits) (hb : s.handledBranch = some b)
    (hs : AsyncPipeline.step policy T s l = some s') : HandlesFailure T s l s' b where
  others := by
    intro c hc
    refine (entry_of_handled hb (effect_of_step hs) c).imp_right fun h => ?_
    exact ⟨h.1.resolve_left hc, h.2⟩
  caught := by
    rintro e copies todo rfl hpc
    have hpool := hcatches.pool
    simp only [PoolCatches, hpc] at hpool
    obtain rfl : e = .std := hpool e (by simp)
    simp only [AsyncPipeline.step, hcatches.runs, Bool.false_eq_true, if_false, poolStep, hpc] at hs
    cases hs
    simp
  kept := by
    intro hentry
    rcases entry_of_handled hb (effect_of_step hs) b with hsame | ⟨-, hreset⟩
    · rw [hsame]
      exact hentry
    · exact hreset
  cleared := by
    rintro size todo rfl hpc
    rw [trimmed_of_step hcatches hpc hs]
    simp [ThreadPoolWorker.dropExceptions]
  accepts := by
    rintro size todo rfl hpc hidle
    have hvisit := hvisits hidle
    rw [hpc] at hvisit
    have hturn := hturns b
    rw [hidle] at hturn
    obtain ⟨hrun, hthread⟩ := hturn.alive hvisit.1
    rw [trimmed_of_step hcatches hpc hs]
    refine ⟨hvisit.2, acceptsItems_of_finished ?_ ?_ hvisit.2⟩
    · simpa [ThreadPoolWorker.dropExceptions] using hrun
    · simpa [ThreadPoolWorker.dropExceptions] using hthread

omit [DecidableEq ι] in
/-- A branch that owes at most one result records nothing while its exception is removed. -/
theorem Slots.recordsInTime (h : s.Slots) (l : AsyncLabel ι α) : RecordsInTime s l := by
  intro b e size todo _ hfail hpc
  have hpool := h.pool
  simp only [PoolOk, hpc] at hpool
  have hbusy := ((h.slot b).load_of_exceptions hpool.1).2.2.2
  simp [ThreadPoolWorker.busy, hfail] at hbusy

/-- In every run in which nodes throw only what derives from `std::exception`, no exception ends
the pool thread, and every failure stays in its branch.  Under `parallelWait`, or when the
pipeline is stopped, this needs every exception to be recorded outside the two locks of
`reset_exceptions`. -/
theorem failures_contained {tr : List (AsyncPipeline ι α × AsyncLabel ι α)}
    (h : (machine policy T).Run tr s) (hstd : ∀ p ∈ tr, ThrowsStd p.2)
    (hrecord : (policy = .parallelWait ∨ ∃ p ∈ tr, p.2 = .stop) →
      ∀ p ∈ tr, RecordsInTime p.1 p.2) :
    s.aborted = false ∧ ∀ p ∈ tr, ∀ b, p.1.handledBranch = some b →
      ∀ s', AsyncPipeline.step policy T p.1 p.2 = some s' → HandlesFailure T p.1 p.2 s' b := by
  have htime : ∀ p ∈ tr, RecordsInTime p.1 p.2 := by
    by_cases hexposed : policy = .parallelWait ∨ ∃ p ∈ tr, p.2 = .stop
    · exact hrecord hexposed
    · obtain ⟨hpolicy, hstop⟩ := not_or.mp hexposed
      have hquiet : ∀ p ∈ tr, Quiet policy T p.1 p.2 := fun p hp =>
        ⟨fun hl => hstop ⟨p, hp, hl⟩, finishReturns_of_ne hpolicy p.1 p.2⟩
      exact fun p hp => (slots_running_source h hquiet p hp).1.recordsInTime p.2
  have hstep : ∀ (s : AsyncPipeline ι α) l s', s.Catches ∧ s.Turns ∧ s.Visits →
      ThrowsStd l ∧ RecordsInTime s l → (machine policy T).step s l = some s' →
      s'.Catches ∧ s'.Turns ∧ s'.Visits := fun s l s' hi hc hs =>
    ⟨hi.1.step hc.1 hc.2 hs, hi.2.1.step hs, hi.2.2.step hs⟩
  have hinit : (initial : AsyncPipeline ι α).Catches ∧ (initial : AsyncPipeline ι α).Turns ∧
      (initial : AsyncPipeline ι α).Visits := ⟨.initial, .initial, .initial⟩
  have hguard : ∀ p ∈ tr, ThrowsStd p.2 ∧ RecordsInTime p.1 p.2 := fun p hp =>
    ⟨hstd p hp, htime p hp⟩
  refine ⟨(h.invariant_of_guard hinit hstep hguard).1.runs, fun p hp b hb s' hs => ?_⟩
  obtain ⟨hcatches, hturns, hvisits⟩ := h.invariant_source_of_guard hinit hstep hguard p hp
  exact handlesFailure_of_step hcatches hturns hvisits hb hs

/-- The root's node throws `e` on the first input, and the pool thread comes round to it. -/
def rootThrows (e : Exc) (n : Nat) : List (AsyncLabel (Fin 3) Nat) :=
  [.run, .addProcessData (some 10)] ++ poolSteps 10 ++
    [.worker forkTree.root, .processed forkTree.root (.error e), .worker forkTree.root] ++ poolSteps n

/-- The root of two children throws on its first input. -/
theorem failures_contained_fork :
    ∃ s : AsyncPipeline (Fin 3) Nat,
      (machine .parallelNoWait forkTree).Run ((machine .parallelNoWait forkTree).trace initial
        (rootThrows .std 7)) s ∧
      s.aborted = false ∧
      ∃ p ∈ (machine .parallelNoWait forkTree).trace initial (rootThrows .std 7),
        ∃ s', AsyncPipeline.step .parallelNoWait forkTree p.1 p.2 = some s' ∧
          HandlesFailure forkTree p.1 p.2 s' forkTree.root := by
  obtain ⟨s, -, hrun, -⟩ := Machine.exists_run_of_exec (machine .parallelNoWait forkTree)
    (rootThrows .std 7) (fun _ => true) (by decide +kernel)
  have hlabels : ∀ l ∈ rootThrows .std 7, ThrowsStd l ∧ l ≠ .stop := by
    simp [rootThrows, poolSteps, ThrowsStd]
  have hcontained := failures_contained hrun
    (fun p hp => (hlabels p.2 (Machine.label_mem_of_trace hp)).1) (by
      rintro (hpolicy | ⟨p, hp, hstop⟩)
      · cases hpolicy
      · exact absurd hstop (hlabels p.2 (Machine.label_mem_of_trace hp)).2)
  have hvisited : ((machine .parallelNoWait forkTree).trace initial (rootThrows .std 7)).any
      (fun p => decide (p.1.handledBranch = some forkTree.root)) = true := by decide +kernel
  obtain ⟨p, hp, hhandled⟩ := List.any_eq_true.mp hvisited
  obtain ⟨-, s', hs'⟩ := hrun.step_mem p hp
  exact ⟨s, hrun, hcontained.1, p, hp, s', hs',
    hcontained.2 p hp _ (of_decide_eq_true hhandled) s' hs'⟩

/-- An exception of another type leaves the function of the pool thread. -/
theorem failure_escapes :
    ¬∀ (tr : List (AsyncPipeline (Fin 3) Nat × AsyncLabel (Fin 3) Nat)) s,
      (machine .parallelNoWait forkTree).Run tr s → s.aborted = false := by
  intro hall
  obtain ⟨s, -, hrun, hs⟩ := Machine.exists_run_of_exec (machine .parallelNoWait forkTree)
    (rootThrows .other 4) (fun s => s.aborted) (by decide +kernel)
  exact absurd (hs.symm.trans (hall _ s hrun)) Bool.noConfusion

end AsyncPipeline

end Seekira.Model
