import Mathlib.Data.Prod.Lex
import Seekira.Analysis.AsyncSlots
import Seekira.Library.Fairness

/-!
# What a branch still has to do

While nobody calls `stop`, the work that a branch has on its hands can be
counted: an entry that waits for the pool thread, items queued at the worker, the
position of the worker's thread and recorded exceptions.  A step that changes
anything about a branch lowers its count, except the two steps that fill its
entry, and the worker's own steps always lower it.  The same holds of the pool
thread's way through one iteration.
-/

set_option autoImplicit false

namespace Seekira.Model

namespace WorkerPc

variable {ι : Type}

/-- The steps a worker's thread has left with the item in its hands. -/
def rank : WorkerPc ι → Nat
  | .processing _ => 5
  | .finishing _ => 4
  | .updating _ => 3
  | .failing _ => 2
  | .notStarted | .idle | .exited => 0

end WorkerPc

namespace ThreadPoolWorker

variable {ι : Type}

/-- The steps a worker's items have left. -/
def rank (w : ThreadPoolWorker ι) : Nat :=
  6 * w.data.length + w.pc.rank + w.exceptionPtrs.length

/-- A worker that nobody asked to stop: its thread has not left, and it exists as soon as the
worker was given an item. -/
structure Awake (w : ThreadPoolWorker ι) : Prop where
  wanted : w.needStop = false
  stays : w.pc ≠ .exited
  thread : w.isRunning = true ↔ w.pc ≠ .notStarted
  empty : w.pc = .notStarted → w.data = []

theorem create_awake : (create : ThreadPoolWorker ι).Awake where
  wanted := rfl
  stays := by simp [create]
  thread := by simp [create]
  empty := fun _ => rfl

/-- The thread of an awake worker moves to another position. -/
theorem Awake.moved {w w' : ThreadPoolWorker ι} (h : w.Awake) (hpc : w.pc ≠ .notStarted)
    (hstop : w'.needStop = w.needStop) (hrun : w'.isRunning = w.isRunning)
    (hstays : w'.pc ≠ .exited) (hthread : w'.pc ≠ .notStarted) : w'.Awake where
  wanted := hstop.trans h.wanted
  stays := hstays
  thread := by simp [hrun, h.thread.mpr hpc, hthread]
  empty := fun hn => absurd hn hthread

theorem Awake.goes {w : ThreadPoolWorker ι} (h : w.Awake) (hpc : w.pc ≠ .notStarted)
    {pc : WorkerPc ι} (hstays : pc ≠ .exited) (hthread : pc ≠ .notStarted) :
    ({ w with pc := pc } : ThreadPoolWorker ι).Awake :=
  h.moved hpc rfl rfl hstays hthread

/-- A worker that gets an item stays awake. -/
theorem Awake.addData {w : ThreadPoolWorker ι} (h : w.Awake) (x : ι) : (w.addData x).Awake := by
  unfold ThreadPoolWorker.addData runWorker
  split
  · rename_i hrun
    have hthread := h.thread.mp hrun
    exact ⟨h.wanted, h.stays, by simp [hrun, hthread], fun hn => absurd hn hthread⟩
  · exact ⟨h.wanted, by simp, by simp, by simp⟩

theorem Awake.fresh {w : ThreadPoolWorker ι} (h : w.Awake) : w.Fresh := by
  intro hrun
  by_contra hpc
  simp [h.thread.mpr hpc] at hrun

/-- An item is six steps of a worker. -/
theorem addData_rank {w : ThreadPoolWorker ι} (h : w.Fresh) (x : ι) :
    (w.addData x).rank = w.rank + 6 := by
  have hpc : (w.addData x).pc.rank = w.pc.rank := by
    unfold ThreadPoolWorker.addData runWorker
    split
    · rfl
    · rename_i hrun
      rw [h (by simpa using hrun)]
      rfl
  simp only [rank, hpc, addData_data, addData_exceptionPtrs, List.length_append,
    List.length_singleton]
  omega

end ThreadPoolWorker

namespace PoolPc

variable {ι : Type}

/-- How far the pool thread is from the end of its iteration. -/
def rank : PoolPc ι → ℕ ×ₗ ℕ ×ₗ ℕ
  | .notRunning | .exited => toLex (0, toLex (0, 0))
  | .loop => toLex (3, toLex (0, 0))
  | .checking todo => toLex (2, toLex (3 * todo.length, 0))
  | .handling _ todo => toLex (2, toLex (3 * todo.length + 2, 0))
  | .rethrowing _ copies todo => toLex (2, toLex (3 * todo.length + 1, copies.length + 2))
  | .resetting _ todo => toLex (2, toLex (3 * todo.length + 1, 1))
  | .trimming _ _ todo => toLex (2, toLex (3 * todo.length + 1, 0))
  | .starting todo _ => toLex (1, toLex (todo.length, 0))
  | .marking _ todo _ => toLex (1, toLex (todo.length, 1))

end PoolPc

namespace AsyncPipeline

variable {ι α : Type}

/-! ## What is true while nobody calls `stop` -/

/-- What every step but `stop` keeps. -/
structure Unstopped (s : AsyncPipeline ι α) : Prop where
  calm : s.needStop = false ∧ s.stopPc = .idle
  pool : s.isRunning = true ↔ s.poolPc ≠ .notRunning
  poolStays : s.poolPc ≠ .exited
  worker : ∀ b, (s.threads b).Awake
  ready : ∀ b, (s.branchesData b).status = .ready ↔ (s.branchesData b).dataToProcess ≠ none
  running : ∀ b, (s.branchesData b).status = .running → (s.threads b).load ≠ 0
  handling : ∀ b todo, s.poolPc = .handling b todo → (s.threads b).exceptionPtrs ≠ []
  handled : ∀ b, (∃ todo, s.poolPc = .rethrowing b [] todo ∨ s.poolPc = .resetting b todo ∨
    ∃ size, s.poolPc = .trimming b size todo) → (s.branchesData b).status ≠ .running
  marking : ∀ b todo ready, s.poolPc = .marking b todo ready → s.branchesData b = ⟨none, .running⟩

theorem Unstopped.initial : (initial : AsyncPipeline ι α).Unstopped where
  calm := ⟨rfl, rfl⟩
  pool := by simp [AsyncPipeline.initial]
  poolStays := by simp [AsyncPipeline.initial]
  worker := fun _ => ThreadPoolWorker.create_awake
  ready := by simp [AsyncPipeline.initial]
  running := by simp [AsyncPipeline.initial]
  handling := by simp [AsyncPipeline.initial]
  handled := by simp [AsyncPipeline.initial]
  marking := by simp [AsyncPipeline.initial]

variable [DecidableEq ι] {policy : PipelineSyncPolicy} {T : BranchTree ι}
  {s s' : AsyncPipeline ι α} {l : AsyncLabel ι α} {b : ι}

/-- A worker moves without giving up what it owes. -/
theorem Unstopped.workerMove (h : s.Unstopped) {w : ThreadPoolWorker (Item α)} (hw : w.Awake)
    (hload : w.load = (s.threads b).load)
    (hex : (s.threads b).exceptionPtrs ≠ [] → w.exceptionPtrs ≠ []) :
    ({ s with threads := Function.update s.threads b w } : AsyncPipeline ι α).Unstopped where
  calm := h.calm
  pool := h.pool
  poolStays := h.poolStays
  worker := by
    intro c
    by_cases hc : c = b
    · subst hc
      simpa using hw
    · simpa [Function.update_of_ne hc] using h.worker c
  ready := h.ready
  running := by
    intro c hc
    have hne := h.running c hc
    by_cases hcb : c = b
    · subst hcb
      simpa [hload] using hne
    · simpa [Function.update_of_ne hcb] using hne
  handling := by
    intro c todo hpc
    have hne := h.handling c todo hpc
    by_cases hcb : c = b
    · subst hcb
      simpa using hex hne
    · simpa [Function.update_of_ne hcb] using hne
  handled := h.handled
  marking := h.marking

/-- The pool thread moves on with what it has just read. -/
theorem Unstopped.poolMove {pc : PoolPc ι} (h : s.Unstopped)
    (hpc : PoolMove policy T s pc) : ({ s with poolPc := pc } : AsyncPipeline ι α).Unstopped := by
  have hrun : s.isRunning = true := by
    rw [h.pool]
    cases hpc <;> simp_all
  have hpool : pc ≠ .notRunning ∧ pc ≠ .exited := by
    cases hpc with
    | leave _ hstop => simp [h.calm.1] at hstop
    | _ => simp
  refine ⟨h.calm, by simp [hrun, hpool.1], hpool.2, h.worker, h.ready, h.running, ?_, ?_, ?_⟩
  · rintro c todo rfl
    cases hpc with
    | dirty _ _ _ hex => exact hex
  · rintro c ⟨todo, hc⟩
    cases hpc with
    | copied b todo' hs =>
      have hex := h.handling b todo' hs
      simp_all
    | rethrown b todo' hs =>
      obtain ⟨rfl, rfl⟩ : b = c ∧ todo' = todo := by simpa using hc
      exact h.handled b ⟨todo', .inl hs⟩
    | measured b todo' hs =>
      obtain ⟨rfl, rfl⟩ : b = c ∧ todo' = todo := by simpa using hc
      exact h.handled b ⟨todo', .inr (.inl hs)⟩
    | _ => simp at hc
  · rintro c todo ready rfl
    cases hpc

/-- `on_finished` empties its branch's entry and fills finished children. -/
theorem Unstopped.finishUpdate (h : s.Unstopped) (hg : s.guardHeld = false) {x : Item α}
    {w : ThreadPoolWorker (Item α)} (hw : w.Awake)
    {published : List (PipelineResultMap ι α)} {failures : List ι} :
    ({ s.finishUpdate T b x with
      threads := Function.update s.threads b w
      published := published
      finishFailures := failures } : AsyncPipeline ι α).Unstopped where
  calm := h.calm
  pool := h.pool
  poolStays := h.poolStays
  worker := by
    intro c
    by_cases hc : c = b
    · subst hc
      simpa using hw
    · simpa [Function.update_of_ne hc] using h.worker c
  ready := by
    intro c
    rcases finishUpdate_entry T b x s c with ⟨-, hd⟩ | ⟨-, -, -, hd⟩ | ⟨-, hd⟩ <;> simp only [hd]
    · simp
    · simp
    · exact h.ready c
  running := by
    intro c hc
    rcases finishUpdate_entry T b x s c with ⟨-, hd⟩ | ⟨-, -, -, hd⟩ | ⟨hcb, hd⟩ <;>
      simp only [hd] at hc
    · simp at hc
    · simp at hc
    · simpa [Function.update_of_ne hcb] using h.running c hc
  handling := by
    intro c todo hpc
    have hpc' : s.poolPc = .handling c todo := hpc
    simp [guardHeld, hpc'] at hg
  handled := by
    rintro c ⟨todo, hc | hc | ⟨size, hc⟩⟩ <;>
    · have hc' : s.poolPc = _ := hc
      simp [guardHeld, hc'] at hg
  marking := by
    intro c todo ready hpc
    have hpc' : s.poolPc = .marking c todo ready := hpc
    simp [guardHeld, hpc'] at hg

omit [DecidableEq ι] in

/-- `run` stops nothing. -/
theorem Unstopped.run (h : s.Unstopped) :
    ({ s with needStop := false, poolPc := .loop, isRunning := true } :
      AsyncPipeline ι α).Unstopped where
  calm := ⟨rfl, h.calm.2⟩
  pool := by simp
  poolStays := by simp
  worker := h.worker
  ready := h.ready
  running := h.running
  handling := by simp
  handled := by simp
  marking := by simp

/-- An accepted input stops nothing. -/
theorem Unstopped.accepted (h : s.Unstopped) (hg : s.guardHeld = false) {d : Option α}
    (hd : d ≠ none) :
    ({ s with
      branchesData := Function.update s.branchesData T.root
        ⟨d.map fun a => ⟨s.accepted.length, a⟩, .ready⟩
      accepted := s.accepted ++ (d.map fun a => (⟨s.accepted.length, a⟩ : Item α)).toList } :
      AsyncPipeline ι α).Unstopped := by
  refine ⟨h.calm, h.pool, h.poolStays, h.worker, fun c => ?_, fun c hc => ?_, h.handling, ?_, ?_⟩
  · by_cases hroot : c = T.root
    · subst hroot
      simpa using hd
    · simpa [Function.update_of_ne hroot] using h.ready c
  · by_cases hroot : c = T.root
    · subst hroot
      simp at hc
    · exact h.running c (by simpa [Function.update_of_ne hroot] using hc)
  · rintro c ⟨todo, hc | hc | ⟨size, hc⟩⟩ <;>
    · have hc' : s.poolPc = _ := hc
      simp [guardHeld, hc'] at hg
  · intro c todo ready hpc
    have hpc' : s.poolPc = .marking c todo ready := hpc
    simp [guardHeld, hpc'] at hg

/-- The pool thread resets the entry of the branch whose exception it rethrew. -/
theorem Unstopped.resetEntry (h : s.Unstopped) {copies : List Exc} {todo : List ι}
    (hpc : s.poolPc = .rethrowing b (.std :: copies) todo) :
    ({ s with
      branchesData := Function.update s.branchesData b ⟨none, .finished⟩
      outputBranchesData := Function.update s.outputBranchesData b (some none)
      poolPc := .rethrowing b copies todo } : AsyncPipeline ι α).Unstopped := by
  have hrun : s.isRunning = true := h.pool.mpr (by simp [hpc])
  refine ⟨h.calm, by simp [hrun], by simp, h.worker, fun c => ?_, fun c hc => ?_, by simp, ?_,
    by simp⟩
  · by_cases hcb : c = b
    · subst hcb
      simp
    · simpa [Function.update_of_ne hcb] using h.ready c
  · by_cases hcb : c = b
    · subst hcb
      simp at hc
    · exact h.running c (by simpa [Function.update_of_ne hcb] using hc)
  · rintro c ⟨todo', hc | hc | ⟨size, hc⟩⟩
    · obtain ⟨rfl, -⟩ : b = c ∧ _ := by simpa using hc
      simp
    · simp at hc
    · simp at hc

/-- The pool thread clears the exceptions it has handled. -/
theorem Unstopped.trimmed (h : s.Unstopped) {size : Nat} {todo : List ι}
    (hpc : s.poolPc = .trimming b size todo) :
    ({ s with
      threads := Function.update s.threads b { s.threads b with exceptionPtrs := [] }
      poolPc := .checking todo } : AsyncPipeline ι α).Unstopped := by
  have hrun : s.isRunning = true := h.pool.mpr (by simp [hpc])
  refine ⟨h.calm, by simp [hrun], by simp, fun c => ?_, h.ready, fun c hc => ?_, by simp, by simp,
    by simp⟩
  · by_cases hcb : c = b
    · subst hcb
      have hw := h.worker c
      simpa using (⟨hw.wanted, hw.stays, hw.thread, hw.empty⟩ :
        ({ s.threads c with exceptionPtrs := [] } : ThreadPoolWorker (Item α)).Awake)
    · simpa [Function.update_of_ne hcb] using h.worker c
  · have hcb : c ≠ b := by
      rintro rfl
      exact h.handled c ⟨todo, .inr (.inr ⟨size, hpc⟩)⟩ hc
    simpa [Function.update_of_ne hcb] using h.running c hc

/-- The pool thread hands an entry's item to its worker. -/
theorem Unstopped.started (h : s.Unstopped) {x : Item α} {todo : List ι} {ready : Bool}
    (hpc : s.poolPc = .starting (b :: todo) ready) :
    ({ s.startBranch b x with poolPc := .marking b todo ready } : AsyncPipeline ι α).Unstopped := by
  have hrun : s.isRunning = true := h.pool.mpr (by simp [hpc])
  refine ⟨h.calm, by simpa [startBranch] using hrun, by simp, fun c => ?_, fun c => ?_,
    fun c hc => ?_, by simp, by simp, fun c todo' ready' hc => ?_⟩
  · by_cases hcb : c = b
    · subst hcb
      simpa [startBranch] using (h.worker c).addData x
    · simpa [startBranch, Function.update_of_ne hcb] using h.worker c
  · by_cases hcb : c = b
    · subst hcb
      simp [startBranch]
    · simpa [startBranch, Function.update_of_ne hcb] using h.ready c
  · by_cases hcb : c = b
    · subst hcb
      simp [startBranch, ThreadPoolWorker.addData_load (h.worker c).fresh]
    · have hc : (s.branchesData c).status = .running := by
        simpa [startBranch, Function.update_of_ne hcb] using hc
      simpa [startBranch, Function.update_of_ne hcb] using h.running c hc
  · obtain ⟨rfl, -⟩ : b = c ∧ _ := by simpa using hc
    simp [startBranch]

/-- The write behind `add_data` changes nothing. -/
theorem Unstopped.marked (h : s.Unstopped) {todo : List ι} {ready : Bool}
    (hpc : s.poolPc = .marking b todo ready) :
    ({ s with
      branchesData := Function.update s.branchesData b ⟨none, .running⟩
      poolPc := .starting todo ready } : AsyncPipeline ι α).Unstopped := by
  have hrun : s.isRunning = true := h.pool.mpr (by simp [hpc])
  rw [← h.marking b todo ready hpc, Function.update_eq_self]
  exact ⟨h.calm, by simp [hrun], by simp, h.worker, h.ready, h.running, by simp, by simp, by simp⟩

/-- Every step but `stop` and a null input keeps the invariant. -/
theorem Unstopped.step (h : s.Unstopped) (hs : Effect policy T s l s') (hl : l ≠ .stop)
    (hnull : l ≠ .addProcessData none) : s'.Unstopped := by
  cases hs with
  | run hr => exact h.run
  | refused d hg hst => exact h
  | accepted d hg hst =>
    exact h.accepted hg fun hd => hnull (by rw [hd])
  | poolMove pc hpc => exact h.poolMove hpc
  | aborts =>
    exact ⟨h.calm, h.pool, h.poolStays, h.worker, h.ready, h.running, h.handling, h.handled,
      h.marking⟩
  | handled b copies todo hpc => exact h.resetEntry hpc
  | trimmed b size todo hpc hsize => exact h.trimmed hpc
  | started b x todo ready hpc hd hready => exact h.started hpc
  | marked b todo ready hpc => exact h.marked hpc
  | takes b x rest hpc hdata =>
    have hmoved := h.workerMove (w := { s.threads b with data := rest, pc := .processing x })
      ((h.worker b).moved (by simp [hpc]) rfl rfl (by simp) (by simp))
      (ThreadPoolWorker.take_load hpc hdata) id
    exact ⟨hmoved.calm, hmoved.pool, hmoved.poolStays, hmoved.worker, hmoved.ready,
      hmoved.running, hmoved.handling, hmoved.handled, hmoved.marking⟩
  | leaves b hpc hstop => simp [(h.worker b).wanted] at hstop
  | skips b x hpc hstop => simp [h.calm.1] at hstop
  | enters b x hpc hstop =>
    exact h.workerMove ((h.worker b).goes (by simp [hpc]) (by simp) (by simp))
      (ThreadPoolWorker.load_eq_of_busy (by simp [ThreadPoolWorker.busy, hpc])) id
  | finishes b x output hpc hg hout =>
    exact h.finishUpdate hg ((h.worker b).goes (by simp [hpc]) (by simp) (by simp))
  | fails b x e hpc hg hout =>
    exact h.finishUpdate hg ((h.worker b).goes (by simp [hpc]) (by simp) (by simp))
  | records b e hpc =>
    exact h.workerMove ((h.worker b).moved (by simp [hpc]) rfl rfl
        (by simp [ThreadPoolWorker.recordException]) (by simp [ThreadPoolWorker.recordException]))
      (ThreadPoolWorker.recordException_load hpc) (by simp [ThreadPoolWorker.recordException])
  | returned b x y hpc =>
    exact h.workerMove ((h.worker b).goes (by simp [hpc]) (by simp) (by simp))
      (ThreadPoolWorker.load_eq_of_busy (by simp [ThreadPoolWorker.busy, hpc])) id
  | threw b x e hpc =>
    exact h.workerMove ((h.worker b).goes (by simp [hpc]) (by simp) (by simp))
      (ThreadPoolWorker.load_eq_of_busy (by simp [ThreadPoolWorker.busy, hpc])) id
  | stop s' hstop => exact absurd rfl hl
  | stopper s' hstop => simp [stopperStep, h.calm.2] at hstop

/-! ## The work of one branch -/

omit [DecidableEq ι] in
/-- The steps that the item or the failure of a branch has left, in its entry and at its worker. -/
def rank (s : AsyncPipeline ι α) (b : ι) : Nat :=
  (if (s.branchesData b).status = .ready then 7 else 0) + (s.threads b).rank

omit [DecidableEq ι] in
/-- The step fills the entry of branch `b`. -/
def Fills (T : BranchTree ι) (s : AsyncPipeline ι α) (l : AsyncLabel ι α) (b : ι) : Prop :=
  s.guardHeld = false ∧ b ∈ filled T s l ∧ (s.branchesData b).status = .finished

omit [DecidableEq ι] in
/-- The steps of branch `b`'s worker. -/
def workerParty (b : ι) : Set (AsyncLabel ι α) :=
  {l | l = .worker b ∨ ∃ result, l = .processed b result}

/-- Every step of a branch's worker lowers the rank of the branch. -/
theorem Unstopped.rank_worker (h : s.Unstopped) (hs : Effect policy T s l s')
    (hl : l ∈ workerParty b) : s'.rank b < s.rank b := by
  have hfinish : ∀ x, ((s.finishUpdate T b x).branchesData b).status = .finished := by
    intro x
    rcases finishUpdate_entry T b x s b with ⟨-, hd⟩ | ⟨hne, -⟩ | ⟨hne, -⟩
    · rw [hd]
    · exact absurd rfl hne
    · exact absurd rfl hne
  obtain rfl | ⟨result, rfl⟩ := hl
  · cases hs with
    | takes _ x rest hpc hdata =>
      simp [rank, ThreadPoolWorker.rank, WorkerPc.rank, hpc, hdata]
      omega
    | leaves _ hpc hstop => simp [(h.worker b).wanted] at hstop
    | skips _ x hpc hstop => simp [h.calm.1] at hstop
    | enters _ x hpc hstop => simp [rank, ThreadPoolWorker.rank, WorkerPc.rank, hpc]
    | finishes _ x output hpc hg hout =>
      simp [rank, ThreadPoolWorker.rank, WorkerPc.rank, hpc, hfinish]
      omega
    | fails _ x e hpc hg hout =>
      simp [rank, ThreadPoolWorker.rank, WorkerPc.rank, hpc, hfinish]
      omega
    | records _ e hpc =>
      simp [rank, ThreadPoolWorker.rank, WorkerPc.rank, ThreadPoolWorker.recordException, hpc]
      omega
  · cases hs with
    | returned _ x y hpc => simp [rank, ThreadPoolWorker.rank, WorkerPc.rank, hpc]
    | threw _ x e hpc => simp [rank, ThreadPoolWorker.rank, WorkerPc.rank, hpc]

/-- A step that does not fill the entry of a branch lowers its rank or leaves its worker and the
readiness of its entry alone. -/
theorem Unstopped.rank_step (h : s.Unstopped) (hs : Effect policy T s l s') (hl : l ≠ .stop)
    (hfill : ¬Fills T s l b) :
    s'.rank b < s.rank b ∨ (s'.threads b = s.threads b ∧
      ((s'.branchesData b).status = .ready ↔ (s.branchesData b).status = .ready)) := by
  have hfinish : ∀ p x, (s.threads p).pc = .updating x → s.guardHeld = false → l = .worker p →
      b ≠ p → (s.finishUpdate T p x).branchesData b = s.branchesData b := by
    rintro p x hpc hg rfl hbp
    rcases finishUpdate_entry T p x s b with ⟨rfl, -⟩ | ⟨-, hchild, hst, -⟩ | ⟨-, hd⟩
    · exact absurd rfl hbp
    · exact absurd ⟨hg, by simpa [filled, hpc] using hchild, hst⟩ hfill
    · exact hd
  by_cases hown : l ∈ workerParty b
  · exact .inl (h.rank_worker hs hown)
  have hother : ∀ c, l = .worker c → b ≠ c := by
    rintro c rfl rfl
    exact hown (.inl rfl)
  have hothers : ∀ c result, l = .processed c result → b ≠ c := by
    rintro c result rfl rfl
    exact hown (.inr ⟨result, rfl⟩)
  cases hs with
  | accepted d hg hst =>
    have hroot : b ≠ T.root := by
      rintro rfl
      exact hfill ⟨hg, by simp [filled], hst⟩
    right
    simp [Function.update_of_ne hroot]
  | handled c copies todo hpc =>
    by_cases hbc : b = c
    · subst hbc
      by_cases hready : (s.branchesData b).status = .ready
      · left
        simp [rank, hready]
      · right
        simp [hready]
    · right
      simp [Function.update_of_ne hbc]
  | trimmed c size todo hpc hsize =>
    by_cases hbc : b = c
    · subst hbc
      cases hex : (s.threads b).exceptionPtrs with
      | nil =>
        right
        simp [← hex]
      | cons e rest =>
        left
        simp [rank, ThreadPoolWorker.rank, hex]
    · right
      simp [Function.update_of_ne hbc]
  | started c x todo ready hpc hd hready =>
    by_cases hbc : b = c
    · subst hbc
      left
      simp [rank, startBranch, hd, ThreadPoolWorker.addData_rank (h.worker b).fresh]
      omega
    · right
      simp [startBranch, Function.update_of_ne hbc]
  | marked c todo ready hpc =>
    right
    simp [← h.marking c todo ready hpc]
  | takes c x rest hpc hdata =>
    right
    simp [Function.update_of_ne (hother c rfl)]
  | leaves c hpc hstop =>
    right
    simp [Function.update_of_ne (hother c rfl)]
  | skips c x hpc hstop =>
    right
    simp [Function.update_of_ne (hother c rfl)]
  | enters c x hpc hstop =>
    right
    simp [Function.update_of_ne (hother c rfl)]
  | finishes c x output hpc hg hout =>
    right
    simp [Function.update_of_ne (hother c rfl), hfinish c x hpc hg rfl (hother c rfl)]
  | fails c x e hpc hg hout =>
    right
    simp [Function.update_of_ne (hother c rfl), hfinish c x hpc hg rfl (hother c rfl)]
  | records c e hpc =>
    right
    simp [Function.update_of_ne (hother c rfl)]
  | returned c x y hpc =>
    right
    simp [Function.update_of_ne (hothers c _ rfl)]
  | threw c x e hpc =>
    right
    simp [Function.update_of_ne (hothers c _ rfl)]
  | stop s' hstop => exact absurd rfl hl
  | stopper s' hstop => simp [stopperStep, h.calm.2] at hstop
  | _ => exact .inr ⟨rfl, Iff.rfl⟩

/-! ## The pool thread's iteration -/

/-- A step of the pool thread ends the program, ends the iteration or brings its end nearer. -/
theorem Unstopped.pool_rank (h : s.Unstopped) (hs : Effect policy T s .pool s') :
    s'.aborted = true ∨ s'.poolPc = .loop ∨ s'.poolPc.rank < s.poolPc.rank := by
  cases hs with
  | poolMove pc hpc =>
    cases hpc with
    | leave _ hstop => simp [h.calm.1] at hstop
    | iterate hs _ => simp [hs, PoolPc.rank, Prod.Lex.toLex_lt_toLex]
    | checked hs => simp [hs, PoolPc.rank, Prod.Lex.toLex_lt_toLex]
    | clean b todo hs _ => simp [hs, PoolPc.rank, Prod.Lex.toLex_lt_toLex]
    | dirty b todo hs _ => simp [hs, PoolPc.rank, Prod.Lex.toLex_lt_toLex]; omega
    | copied b todo hs => simp [hs, PoolPc.rank, Prod.Lex.toLex_lt_toLex]
    | rethrown b todo hs => simp [hs, PoolPc.rank, Prod.Lex.toLex_lt_toLex]
    | measured b todo hs => simp [hs, PoolPc.rank, Prod.Lex.toLex_lt_toLex]
    | skipped b todo ready hs => simp [hs, PoolPc.rank, Prod.Lex.toLex_lt_toLex]
    | done ready hs => simp
  | aborts => simp
  | handled b copies todo hpc => simp [hpc, PoolPc.rank, Prod.Lex.toLex_lt_toLex]
  | trimmed b size todo hpc hsize => simp [hpc, PoolPc.rank, Prod.Lex.toLex_lt_toLex]
  | started b x todo ready hpc hd hready => simp [hpc, PoolPc.rank, Prod.Lex.toLex_lt_toLex]
  | marked b todo ready hpc => simp [hpc, PoolPc.rank, Prod.Lex.toLex_lt_toLex]

/-- Only the pool thread moves the pool thread of a running pipeline. -/
theorem Unstopped.pool_frame (h : s.Unstopped) (hs : Effect policy T s l s') (hl : l ≠ .stop)
    (hrun : s.isRunning = true) (hpool : l ≠ .pool) : s'.poolPc = s.poolPc := by
  cases hs with
  | run hr => simp [hrun] at hr
  | stop s' hstop => exact absurd rfl hl
  | stopper s' hstop => simp [stopperStep, h.calm.2] at hstop
  | poolMove | aborts | handled | trimmed | started | marked => exact absurd rfl hpool
  | _ => rfl

/-- A running pool thread can always take a step. -/
theorem Unstopped.pool_enabled (h : s.Unstopped) (hrun : s.isRunning = true)
    (hab : s.aborted = false) : (machine policy T).Enabled {.pool} s := by
  have hpool := h.pool.mp hrun
  have hstays := h.poolStays
  have hsome : ∃ s', s.poolStep policy T = some s' := by
    unfold poolStep
    split
    · rename_i hpc
      exact absurd hpc hpool
    · rename_i hpc
      exact absurd hpc hstays
    all_goals first | exact ⟨_, rfl⟩ | (split <;> exact ⟨_, rfl⟩)
  obtain ⟨s', hs'⟩ := hsome
  exact ⟨.pool, rfl, s', by simpa [machine, AsyncPipeline.step, hab] using hs'⟩

/-- A running pipeline keeps running. -/
theorem Unstopped.keeps_running (h : s.Unstopped) (hs : Effect policy T s l s')
    (hl : l ≠ .stop) (hrun : s.isRunning = true) : s'.isRunning = true := by
  cases hs with
  | stop s' hstop => exact absurd rfl hl
  | stopper s' hstop => simp [stopperStep, h.calm.2] at hstop
  | run => rfl
  | _ => exact hrun

/-- While the guard is free, only an empty-handed worker has no step to take. -/
theorem Unstopped.load_of_disabled (h : s.Unstopped) (hab : s.aborted = false)
    (hg : s.guardHeld = false) (hdis : ¬(machine policy T).Enabled (workerParty b) s) :
    (s.threads b).data = [] ∧ (s.threads b).busy = false := by
  have hworker : ∀ s', s.workerStep policy T b ≠ some s' := by
    intro s' hs'
    exact hdis ⟨.worker b, .inl rfl, s', by simpa [machine, AsyncPipeline.step, hab] using hs'⟩
  have hw := h.worker b
  cases hpc : (s.threads b).pc with
  | notStarted => exact ⟨hw.empty hpc, by simp [ThreadPoolWorker.busy, hpc]⟩
  | idle =>
    refine ⟨?_, by simp [ThreadPoolWorker.busy, hpc]⟩
    cases hdata : (s.threads b).data with
    | nil => rfl
    | cons x rest =>
      simp [workerStep, hpc, ThreadPoolWorker.takeData, hw.wanted, hdata] at hworker
  | processing x =>
    -- whatever the node does, it may throw
    have hstep : (machine policy T).step s (.processed b (.error .std)) =
        some (s.setThread b { s.threads b with pc := .failing .std }) := by
      simp [machine, AsyncPipeline.step, hab, AsyncPipeline.processed, hpc]
    exact absurd ⟨_, .inr ⟨_, rfl⟩, _, hstep⟩ hdis
  | finishing x => simp [workerStep, hpc, h.calm.1] at hworker
  | updating x => simp [workerStep, hpc, hg] at hworker
  | failing e => simp [workerStep, hpc] at hworker
  | exited => exact absurd hpc hw.stays

end AsyncPipeline

end Seekira.Model
