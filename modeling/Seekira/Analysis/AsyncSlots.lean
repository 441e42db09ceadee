import Seekira.Analysis.AsyncEffects

/-!
# One item per branch

Every branch is a slot for at most one item: the item waits in the entry of
`m_branches_data`, or it is the worker's business (queued, in the hands of the
thread, or turned into an exception that the pool thread has not cleared).  The
slot invariant says that a branch whose entry is ready owes nothing and that no
branch ever owes more than one result.

The two writers that fill an entry, `add_process_data` and `on_finished` of the
parent, look only at the status of the branch.  The invariant survives as long
as a finished branch owes nothing when its entry is filled (`FillsClear`).  The
second half shows that a branch which owes a result is marked running, which
gives `FillsClear` back in every run in which `on_finished` does not throw.
-/

set_option autoImplicit false

namespace Seekira.Model.AsyncPipeline

variable {ι α : Type}

/-! ## The slot of one branch -/

/-- An entry and its worker hold at most one item between them. -/
structure SlotOk (d : BranchProcessData α) (w : ThreadPoolWorker (Item α)) : Prop where
  load_le : w.load ≤ 1
  ready_load : d.status = .ready → w.load = 0
  data_ready : d.dataToProcess ≠ none → d.status = .ready
  fresh : w.Fresh

namespace SlotOk

variable {d : BranchProcessData α} {w w' : ThreadPoolWorker (Item α)}

theorem create : SlotOk (⟨none, .finished⟩ : BranchProcessData α) ThreadPoolWorker.create where
  load_le := by simp
  ready_load := by simp
  data_ready := by simp
  fresh := ThreadPoolWorker.create_fresh

/-- A ready entry is handed to its worker. -/
theorem handOver {x : Item α} (h : SlotOk ⟨some x, .ready⟩ w) :
    SlotOk ⟨none, .running⟩ (w.addData x) where
  load_le := by
    have h0 : w.load = 0 := h.ready_load rfl
    simp [ThreadPoolWorker.addData_load h.fresh, h0]
  ready_load := by simp
  data_ready := by simp
  fresh := ThreadPoolWorker.addData_fresh x w

/-- The entry of a branch that owes nothing is filled. -/
theorem fill (h : SlotOk d w) (h0 : w.load = 0) (x : Option (Item α)) :
    SlotOk ⟨x, .ready⟩ w where
  load_le := h.load_le
  ready_load := fun _ => h0
  data_ready := fun _ => rfl
  fresh := h.fresh

/-- The entry is emptied and marked finished. -/
theorem finish (h : SlotOk d w) (hw : w'.load ≤ w.load) (hf : w'.Fresh) :
    SlotOk (⟨none, .finished⟩ : BranchProcessData α) w' where
  load_le := Nat.le_trans hw h.load_le
  ready_load := by simp
  data_ready := by simp
  fresh := hf

/-- The worker moves without taking on anything new. -/
theorem work (h : SlotOk d w) (hw : w'.load ≤ w.load) (hf : w'.Fresh) : SlotOk d w' where
  load_le := Nat.le_trans hw h.load_le
  ready_load := fun hr => Nat.le_zero.mp ((h.ready_load hr) ▸ hw)
  data_ready := h.data_ready
  fresh := hf

/-- A branch that owes a result has an empty entry, not marked ready. -/
theorem owing (h : SlotOk d w) (hw : w.load ≠ 0) : d.dataToProcess = none ∧ d.status ≠ .ready := by
  have hr : d.status ≠ .ready := fun hr => hw (h.ready_load hr)
  refine ⟨?_, hr⟩
  by_contra hn
  exact hr (h.data_ready hn)

end SlotOk

/-! ## The slots of a pipeline -/

/-- What the pool thread remembers about a branch's exceptions is still true, and the entry of a
branch it has just started is as it is about to write it. -/
def PoolOk (s : AsyncPipeline ι α) : Prop :=
  match s.poolPc with
  | .handling b _ | .resetting b _ => (s.threads b).exceptionPtrs ≠ []
  | .rethrowing b copies _ =>
    (s.threads b).exceptionPtrs ≠ [] ∧ (copies ≠ [] → copies = (s.threads b).exceptionPtrs)
  | .trimming b size _ =>
    (s.threads b).exceptionPtrs ≠ [] ∧ size = (s.threads b).exceptionPtrs.length
  | .marking b _ _ => s.branchesData b = ⟨none, .running⟩
  | _ => True

/-- Only branches with exceptions matter to the pool thread's memory, and the entries only while it
holds the guard. -/
theorem PoolOk.congr {s s' : AsyncPipeline ι α} (h : s.PoolOk) (hpc : s'.poolPc = s.poolPc)
    (hentries : s.guardHeld = true → s'.branchesData = s.branchesData)
    (hex : ∀ b, (s.threads b).exceptionPtrs ≠ [] →
      (s'.threads b).exceptionPtrs = (s.threads b).exceptionPtrs) : s'.PoolOk := by
  unfold PoolOk at h ⊢
  rw [hpc]
  split at h
  · rwa [hex _ h]
  · rwa [hex _ h]
  · rwa [hex _ h.1]
  · rwa [hex _ h.1]
  · rename_i hmarking
    rwa [hentries (by simp [guardHeld, hmarking])]
  · trivial

/-- The slot invariant. -/
structure Slots (s : AsyncPipeline ι α) : Prop where
  slot : ∀ b, SlotOk (s.branchesData b) (s.threads b)
  pool : s.PoolOk
  idlePool : s.isRunning = false → s.poolPc = .notRunning
  calm : s.needStop = false ∧ s.stopPc = .idle

/-- The branches whose entries the step may fill: the root's with an input, the children's with
their parent's result. -/
def filled (T : BranchTree ι) (s : AsyncPipeline ι α) : AsyncLabel ι α → List ι
  | .addProcessData _ => [T.root]
  | .worker b =>
    match (s.threads b).pc with
    | .updating _ => T.childrenIds b
    | _ => []
  | _ => []

/-- An entry is filled only while its branch owes nothing. -/
def FillsClear (T : BranchTree ι) (s : AsyncPipeline ι α) (l : AsyncLabel ι α) : Prop :=
  s.guardHeld = false → ∀ c ∈ filled T s l,
    (s.branchesData c).status = .finished → (s.threads c).load = 0

instance (T : BranchTree ι) (s : AsyncPipeline ι α) (l : AsyncLabel ι α) :
    Decidable (FillsClear T s l) :=
  inferInstanceAs (Decidable (_ → _))

theorem Slots.initial : (initial : AsyncPipeline ι α).Slots where
  slot := fun _ => SlotOk.create
  pool := trivial
  idlePool := fun _ => rfl
  calm := ⟨rfl, rfl⟩

variable [DecidableEq ι]

/-- A worker with no more work than before fits to its entry. -/
theorem Slots.threads_update {s : AsyncPipeline ι α} (h : s.Slots) {b : ι}
    {w : ThreadPoolWorker (Item α)} (hw : w.load ≤ (s.threads b).load) (hf : w.Fresh) (c : ι) :
    SlotOk (s.branchesData c) (Function.update s.threads b w c) := by
  by_cases hc : c = b
  · subst hc
    simpa using (h.slot c).work hw hf
  · simpa [Function.update_of_ne hc] using h.slot c

/-- A worker's step that takes nothing on and adds no exception to earlier ones. -/
theorem Slots.worker {s : AsyncPipeline ι α} (h : s.Slots) {b : ι}
    {w : ThreadPoolWorker (Item α)} (hw : w.load ≤ (s.threads b).load) (hf : w.Fresh)
    (hex : (s.threads b).exceptionPtrs ≠ [] → w.exceptionPtrs = (s.threads b).exceptionPtrs) :
    ({ s with threads := Function.update s.threads b w } : AsyncPipeline ι α).Slots where
  slot := h.threads_update hw hf
  pool := by
    refine h.pool.congr rfl (fun _ => rfl) fun c hne => ?_
    by_cases hc : c = b
    · subst hc
      simpa using hex hne
    · simp [Function.update_of_ne hc]
  idlePool := h.idlePool
  calm := h.calm

/-- A worker's thread moves between two positions without taking an item into its hands. -/
theorem Slots.workerMove {s : AsyncPipeline ι α} (h : s.Slots) {b : ι} {pc : WorkerPc (Item α)}
    (hpc : (s.threads b).pc ≠ .notStarted)
    (hbusy : ({ s.threads b with pc := pc } : ThreadPoolWorker (Item α)).busy = true →
      (s.threads b).busy = true) :
    ({ s with threads := Function.update s.threads b { s.threads b with pc := pc } } :
      AsyncPipeline ι α).Slots :=
  h.worker (ThreadPoolWorker.load_le_of_busy hbusy) ((h.slot b).fresh.moved hpc rfl) fun _ => rfl

/-- A branch with an exception owes nothing else. -/
theorem SlotOk.load_of_exceptions {d : BranchProcessData α} {w : ThreadPoolWorker (Item α)}
    (h : SlotOk d w) (hex : w.exceptionPtrs ≠ []) :
    w.load = 1 ∧ w.exceptionPtrs.length = 1 ∧ w.data = [] ∧ w.busy = false := by
  have hload := h.load_le
  have hpos := List.length_pos_iff.mpr hex
  simp only [ThreadPoolWorker.load] at hload ⊢
  have hbusy : w.busy = false := by
    by_contra hb
    simp only [Bool.not_eq_false] at hb
    simp only [hb, if_true] at hload
    omega
  refine ⟨?_, by omega, List.length_eq_zero_iff.mp (by omega), hbusy⟩
  simp only [hbusy, Bool.false_eq_true, if_false] at hload ⊢
  omega

/-- Clearing the exception of a branch settles what it owes. -/
theorem SlotOk.clear_load {d : BranchProcessData α} {w : ThreadPoolWorker (Item α)}
    (h : SlotOk d w) (hex : w.exceptionPtrs ≠ []) :
    ({ w with exceptionPtrs := [] } : ThreadPoolWorker (Item α)).load = 0 := by
  obtain ⟨_, _, hdata, hbusy⟩ := h.load_of_exceptions hex
  change w.data.length + (if w.busy then 1 else 0) + 0 = 0
  simp [hdata, hbusy]

omit [DecidableEq ι] in
/-- The pool thread's copy of a branch's exceptions has one element. -/
theorem Slots.single_copy {s : AsyncPipeline ι α} (h : s.Slots) {b : ι} {e : Exc}
    {copies : List Exc} {todo : List ι} (hpc : s.poolPc = .rethrowing b (e :: copies) todo) :
    copies = [] ∧ (s.threads b).exceptionPtrs ≠ [] := by
  have hp := h.pool
  simp only [PoolOk, hpc] at hp
  have hlen := ((h.slot b).load_of_exceptions hp.1).2.1
  rw [← hp.2 (by simp)] at hlen
  exact ⟨List.length_eq_zero_iff.mp (by simpa using hlen), hp.1⟩

/-- Nobody resets the entry of a branch before the pool thread has marked it, so that the write
behind `add_data` changes nothing. -/
theorem Slots.marked_entries {s : AsyncPipeline ι α} (h : s.Slots) {b : ι} {todo : List ι}
    {ready : Bool} (hpc : s.poolPc = .marking b todo ready) :
    Function.update s.branchesData b ⟨none, .running⟩ = s.branchesData := by
  have hp := h.pool
  simp only [PoolOk, hpc] at hp
  rw [← hp, Function.update_eq_self]

omit [DecidableEq ι] in
/-- While the guard is free, the pool thread remembers nothing. -/
theorem PoolOk.of_guard {s s' : AsyncPipeline ι α} (hg : s.guardHeld = false)
    (hpc : s'.poolPc = s.poolPc) : s'.PoolOk := by
  unfold guardHeld at hg
  unfold PoolOk
  rw [hpc]
  split at hg <;> simp_all

/-- A thread that lays down its item leaves nothing behind. -/
theorem SlotOk.idle_load {d : BranchProcessData α} {w : ThreadPoolWorker (Item α)} {x : Item α}
    (h : SlotOk d w) (hpc : w.pc = .updating x) :
    ({ w with pc := .idle } : ThreadPoolWorker (Item α)).load = 0 := by
  have hload := h.load_le
  simp only [ThreadPoolWorker.load, ThreadPoolWorker.busy, hpc, if_true] at hload ⊢
  simp
  constructor <;> refine List.length_eq_zero_iff.mp ?_ <;> omega

/-- The pool thread moves on with what it has just read. -/
theorem Slots.poolMove {policy : PipelineSyncPolicy} {T : BranchTree ι} {s : AsyncPipeline ι α}
    {pc : PoolPc ι} (h : s.Slots) (hpc : PoolMove policy T s pc) :
    ({ s with poolPc := pc } : AsyncPipeline ι α).Slots := by
  have hpool : ({ s with poolPc := pc } : AsyncPipeline ι α).PoolOk := by
    have hp := h.pool
    cases hpc with
    | dirty b todo _ hex => exact hex
    | copied b todo hs =>
      simp only [PoolOk, hs] at hp
      exact ⟨hp, fun _ => rfl⟩
    | rethrown b todo hs =>
      simp only [PoolOk, hs] at hp
      exact hp.1
    | measured b todo hs =>
      simp only [PoolOk, hs] at hp
      exact ⟨hp, rfl⟩
    | _ => trivial
  refine ⟨h.slot, hpool, fun hr => ?_, h.calm⟩
  have hidle : s.poolPc = .notRunning := h.idlePool hr
  cases hpc <;> simp_all

/-- `on_finished` leaves every slot in order: the branch itself is emptied, and the children it
fills owe nothing. -/
theorem Slots.finishUpdate {T : BranchTree ι} {s : AsyncPipeline ι α} {b : ι} {x : Item α}
    {w : ThreadPoolWorker (Item α)} (h : s.Slots) (hpc : (s.threads b).pc = .updating x)
    (hg : s.guardHeld = false) (hC : FillsClear T s (.worker b))
    (hw : w.load ≤ (s.threads b).load) (hf : w.Fresh) (c : ι) :
    SlotOk ((s.finishUpdate T b x).branchesData c) (Function.update s.threads b w c) := by
  rcases finishUpdate_entry T b x s c with ⟨rfl, hd⟩ | ⟨hc, hchild, hst, hd⟩ | ⟨hc, hd⟩ <;> rw [hd]
  · simpa using (h.slot c).finish hw hf
  · rw [Function.update_of_ne hc]
    exact (h.slot c).fill (hC hg c (by simpa [filled, hpc] using hchild) hst) _
  · rw [Function.update_of_ne hc]
    exact h.slot c

/-- One step keeps the slot invariant, as long as entries are filled only while their branch
owes nothing. -/
theorem Slots.step {policy : PipelineSyncPolicy} {T : BranchTree ι} {s s' : AsyncPipeline ι α}
    {l : AsyncLabel ι α} (h : s.Slots) (hs : Effect policy T s l s') (hl : l ≠ .stop)
    (hC : FillsClear T s l) : s'.Slots := by
  cases hs with
  | run hr => exact ⟨h.slot, trivial, by simp, rfl, h.calm.2⟩
  | refused d hg hst => exact h
  | accepted d hg hst =>
    refine ⟨fun c => ?_, .of_guard hg rfl, h.idlePool, h.calm⟩
    by_cases hc : c = T.root
    · subst hc
      simpa using (h.slot T.root).fill (hC hg T.root (by simp [filled]) hst) _
    · simpa [Function.update_of_ne hc] using h.slot c
  | poolMove pc hpc => exact h.poolMove hpc
  | aborts => exact ⟨h.slot, h.pool, h.idlePool, h.calm⟩
  | handled b copies todo hpc =>
    obtain ⟨rfl, hex⟩ := h.single_copy hpc
    refine ⟨fun c => ?_, ⟨hex, fun hne => absurd rfl hne⟩, ?_, h.calm⟩
    · by_cases hc : c = b
      · subst hc
        simpa using (h.slot c).finish (Nat.le_refl _) (h.slot c).fresh
      · simpa [Function.update_of_ne hc] using h.slot c
    · intro hr
      simp [h.idlePool hr] at hpc
  | trimmed b size todo hpc hsize =>
    refine ⟨h.threads_update (ThreadPoolWorker.load_clear_le _) (h.slot b).fresh, trivial, ?_,
      h.calm⟩
    intro hr
    simp [h.idlePool hr] at hpc
  | started b x todo ready hpc hd hready =>
    refine ⟨fun c => ?_, by simp [PoolOk, startBranch], ?_, h.calm⟩
    · by_cases hc : c = b
      · subst hc
        have hslot := h.slot c
        rw [hd] at hslot
        simpa [startBranch] using hslot.handOver
      · simpa [startBranch, Function.update_of_ne hc] using h.slot c
    · intro hr
      simp [h.idlePool hr] at hpc
  | marked b todo ready hpc =>
    rw [h.marked_entries hpc]
    refine ⟨h.slot, trivial, fun hr => ?_, h.calm⟩
    simp [h.idlePool hr] at hpc
  | takes b x rest hpc hdata =>
    have hslots := h.worker (Nat.le_of_eq (ThreadPoolWorker.take_load hpc hdata))
      ((h.slot b).fresh.moved (by simp [hpc]) rfl) fun _ => rfl
    exact ⟨hslots.slot, hslots.pool, hslots.idlePool, hslots.calm⟩
  | leaves b hpc hstop => exact h.workerMove (by simp [hpc]) (by simp [ThreadPoolWorker.busy])
  | skips b x hpc hstop => exact h.workerMove (by simp [hpc]) (by simp [ThreadPoolWorker.busy])
  | enters b x hpc hstop =>
    exact h.workerMove (by simp [hpc]) (by simp [ThreadPoolWorker.busy, hpc])
  | finishes b x output hpc hg hout =>
    have hbusy : ({ s.threads b with pc := .idle } : ThreadPoolWorker (Item α)).busy = true →
        (s.threads b).busy = true := by simp [ThreadPoolWorker.busy]
    refine ⟨?_, .of_guard hg rfl, h.idlePool, h.calm⟩
    exact h.finishUpdate hpc hg hC (ThreadPoolWorker.load_le_of_busy hbusy)
      ((h.slot b).fresh.moved (by simp [hpc]) rfl)
  | fails b x e hpc hg hout =>
    have hbusy : ({ s.threads b with pc := .failing e } : ThreadPoolWorker (Item α)).busy = true →
        (s.threads b).busy = true := by simp [ThreadPoolWorker.busy, hpc]
    refine ⟨?_, .of_guard hg rfl, h.idlePool, h.calm⟩
    exact h.finishUpdate hpc hg hC (ThreadPoolWorker.load_le_of_busy hbusy)
      ((h.slot b).fresh.moved (by simp [hpc]) rfl)
  | records b e hpc =>
    refine h.worker (Nat.le_of_eq (ThreadPoolWorker.recordException_load hpc))
      ((h.slot b).fresh.moved (by simp [hpc]) rfl) fun hne => ?_
    -- the thread's own exception is all the branch owes
    have hbusy := ((h.slot b).load_of_exceptions hne).2.2.2
    simp [ThreadPoolWorker.busy, hpc] at hbusy
  | returned b x y hpc =>
    exact h.workerMove (by simp [hpc]) (by simp [ThreadPoolWorker.busy, hpc])
  | threw b x e hpc => exact h.workerMove (by simp [hpc]) (by simp [ThreadPoolWorker.busy, hpc])
  | stop s' hstop => exact absurd rfl hl
  | stopper s' hstop => simp [stopperStep, h.calm.2] at hstop

/-! ## Branches that owe a result are running -/

/-- The pool thread has reset the table for the exception of `b` and has not cleared the
exception yet. -/
def handledNow (s : AsyncPipeline ι α) (b : ι) : Bool :=
  match s.poolPc with
  | .rethrowing b' [] _ | .resetting b' _ | .trimming b' _ _ => decide (b' = b)
  | _ => false

theorem handledNow_of_guard {s : AsyncPipeline ι α} (h : s.guardHeld = false) (b : ι) :
    s.handledNow b = false := by
  unfold guardHeld at h
  unfold handledNow
  split <;> simp_all

/-- A branch is running exactly while it owes a result whose exception, if it is one, the pool
thread has not handled. -/
def Running (s : AsyncPipeline ι α) : Prop :=
  ∀ b, (s.branchesData b).status = .running ↔
    (s.threads b).load = 1 ∧ s.handledNow b = false

/-- What a step that leaves the pool thread alone has to keep at a branch. -/
theorem Running.congrAt {s s' : AsyncPipeline ι α} (h : s.Running) {c : ι}
    (hpc : s'.poolPc = s.poolPc)
    (hst : (s'.branchesData c).status = .running ↔ (s.branchesData c).status = .running)
    (hload : (s'.threads c).load = (s.threads c).load) :
    (s'.branchesData c).status = .running ↔
      (s'.threads c).load = 1 ∧ s'.handledNow c = false := by
  rw [hst, hload, h c]
  simp only [handledNow, hpc]

theorem Running.initial : (initial : AsyncPipeline ι α).Running := by
  intro b
  simp [AsyncPipeline.initial]

/-- While the guard is free, a finished branch owes nothing. -/
theorem Running.finished_load {s : AsyncPipeline ι α} (h : s.Running) (hslots : s.Slots)
    (hg : s.guardHeld = false) {b : ι} (hst : (s.branchesData b).status = .finished) :
    (s.threads b).load = 0 := by
  have hnot : ¬((s.threads b).load = 1 ∧ s.handledNow b = false) := by
    rw [← h b, hst]
    decide
  have hle := (hslots.slot b).load_le
  have hne : (s.threads b).load ≠ 1 := fun h1 => hnot ⟨h1, handledNow_of_guard hg b⟩
  omega

theorem Running.fillsClear {s : AsyncPipeline ι α} (h : s.Running) (hslots : s.Slots)
    (T : BranchTree ι) (l : AsyncLabel ι α) : FillsClear T s l :=
  fun hg _ _ hst => h.finished_load hslots hg hst

/-- The pool thread's own moves do not change which branch it is handling. -/
theorem PoolMove.handledNow {policy : PipelineSyncPolicy} {T : BranchTree ι}
    {s : AsyncPipeline ι α} {pc : PoolPc ι} (hpc : PoolMove policy T s pc) (hp : s.PoolOk) (b : ι) :
    ({ s with poolPc := pc } : AsyncPipeline ι α).handledNow b = s.handledNow b := by
  cases hpc with
  | copied b' todo hs =>
    simp only [PoolOk, hs] at hp
    simp only [AsyncPipeline.handledNow, hs]
    split <;> simp_all
  | _ => simp_all [AsyncPipeline.handledNow]

/-- The step is not the failure of an `on_finished`. -/
def FinishReturns (policy : PipelineSyncPolicy) (T : BranchTree ι) (s : AsyncPipeline ι α)
    (l : AsyncLabel ι α) : Prop :=
  ∀ b x e, l = .worker b → (s.threads b).pc = .updating x → s.guardHeld = false →
    (s.finishUpdate T b x).finishOutput policy T b x ≠ .error e

/-- A worker with as much work as before keeps its branch running. -/
theorem Running.worker {s : AsyncPipeline ι α} (h : s.Running) {b : ι}
    {w : ThreadPoolWorker (Item α)} (hw : w.load = (s.threads b).load) :
    ({ s with threads := Function.update s.threads b w } : AsyncPipeline ι α).Running := by
  intro c
  refine h.congrAt rfl Iff.rfl ?_
  by_cases hc : c = b
  · subst hc
    simpa using hw
  · simp [Function.update_of_ne hc]

/-- One step keeps the running branches apart, as long as `on_finished` does not throw. -/
theorem Running.step {policy : PipelineSyncPolicy} {T : BranchTree ι} {s s' : AsyncPipeline ι α}
    {l : AsyncLabel ι α} (h : s.Running) (hslots : s.Slots) (hs : Effect policy T s l s')
    (hl : l ≠ .stop) (hF : FinishReturns policy T s l) : s'.Running := by
  cases hs with
  | run hr =>
    intro c
    have hc := h c
    simp only [handledNow, hslots.idlePool hr] at hc
    simpa [handledNow] using hc
  | refused d hg hst => exact h
  | accepted d hg hst =>
    intro c
    refine h.congrAt rfl ?_ rfl
    by_cases hc : c = T.root
    · subst hc
      simp [hst]
    · simp [Function.update_of_ne hc]
  | poolMove pc hpc =>
    intro c
    rw [hpc.handledNow hslots.pool]
    exact h c
  | aborts => exact h
  | handled b copies todo hpc =>
    obtain ⟨rfl, hex⟩ := hslots.single_copy hpc
    intro c
    by_cases hc : c = b
    · subst hc
      simp [handledNow]
    · have hother := h c
      simp only [handledNow, hpc] at hother
      simpa [handledNow, Function.update_of_ne hc, Ne.symm hc] using hother
  | trimmed b size todo hpc hsize =>
    intro c
    have hp := hslots.pool
    simp only [PoolOk, hpc] at hp
    have hother := h c
    by_cases hc : c = b
    · subst hc
      simp only [handledNow, hpc] at hother
      simp only [handledNow, Function.update_self]
      rw [(hslots.slot c).clear_load hp.1]
      simpa using hother
    · simp only [handledNow, hpc] at hother
      simpa [handledNow, Function.update_of_ne hc, Ne.symm hc] using hother
  | started b x todo ready hpc hd hready =>
    intro c
    by_cases hc : c = b
    · subst hc
      have h0 : (s.threads c).load = 0 := (hslots.slot c).ready_load (by rw [hd])
      simp [startBranch, handledNow, ThreadPoolWorker.addData_load (hslots.slot c).fresh,
        h0]
    · have hother := h c
      simp only [handledNow, hpc] at hother
      simpa [startBranch, handledNow, Function.update_of_ne hc] using hother
  | marked b todo ready hpc =>
    rw [hslots.marked_entries hpc]
    intro c
    have hother := h c
    simp only [handledNow, hpc] at hother
    simpa [handledNow] using hother
  | takes b x rest hpc hdata => exact h.worker (ThreadPoolWorker.take_load hpc hdata)
  | leaves b hpc hstop =>
    exact h.worker (ThreadPoolWorker.load_eq_of_busy (by simp [ThreadPoolWorker.busy, hpc]))
  | skips b x hpc hstop => simp [hslots.calm.1] at hstop
  | enters b x hpc hstop =>
    exact h.worker (ThreadPoolWorker.load_eq_of_busy (by simp [ThreadPoolWorker.busy, hpc]))
  | finishes b x output hpc hg hout =>
    intro c
    rcases finishUpdate_entry T b x s c with ⟨rfl, hd⟩ | ⟨hc, -, hst, hd⟩ | ⟨hc, hd⟩
    · have h0 := (hslots.slot c).idle_load hpc
      simp [hd, h0]
    · exact h.congrAt rfl (by simp [hd, hst]) (by simp [Function.update_of_ne hc])
    · exact h.congrAt rfl (by simp [hd]) (by simp [Function.update_of_ne hc])
  | fails b x e hpc hg hout => exact absurd hout (hF b x e rfl hpc hg)
  | records b e hpc => exact h.worker (ThreadPoolWorker.recordException_load hpc)
  | returned b x y hpc =>
    exact h.worker (ThreadPoolWorker.load_eq_of_busy (by simp [ThreadPoolWorker.busy, hpc]))
  | threw b x e hpc =>
    exact h.worker (ThreadPoolWorker.load_eq_of_busy (by simp [ThreadPoolWorker.busy, hpc]))
  | stop s' hstop => exact absurd rfl hl
  | stopper s' hstop => simp [stopperStep, hslots.calm.2] at hstop

end Seekira.Model.AsyncPipeline
