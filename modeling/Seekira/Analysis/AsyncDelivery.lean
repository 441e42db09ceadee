import Seekira.Analysis.AsyncSlots

/-!
# Running branches and accepted inputs

Two results about runs without `stop`.  Under `parallelNoWait`, where
`on_finished` cannot throw, the status table and the workers agree in every
state.  For any policy an accepted input stays in the root's entry until the
pool thread hands it to the root's worker, provided that entries are filled only
while their branch owes nothing; under `parallelWait` an `on_finished` that
throws after its update of the table breaks this, and the run at the end loses
an input that way.
-/

set_option autoImplicit false

namespace Seekira.Model.AsyncPipeline

open Library

variable {ι α : Type} [DecidableEq ι] {policy : PipelineSyncPolicy} {T : BranchTree ι}

/-! ## Runs in which `on_finished` returns -/

/-- A step of a run that nobody stops and in which `on_finished` returns. -/
def Quiet (policy : PipelineSyncPolicy) (T : BranchTree ι) (s : AsyncPipeline ι α)
    (l : AsyncLabel ι α) : Prop :=
  l ≠ .stop ∧ FinishReturns policy T s l

/-- A step that does not disturb the entries keeps the slots and the running branches right. -/
theorem quiet_step {s s' : AsyncPipeline ι α} {l : AsyncLabel ι α} (h : s.Slots ∧ s.Running)
    (hq : Quiet policy T s l) (hs : (machine policy T).step s l = some s') :
    s'.Slots ∧ s'.Running := by
  have heff : Effect policy T s l s' := effect_of_step hs
  exact ⟨h.1.step heff hq.1 (h.2.fillsClear h.1 T l), h.2.step h.1 heff hq.1 hq.2⟩

theorem slots_running_of_quiet {tr : List (AsyncPipeline ι α × AsyncLabel ι α)}
    {s : AsyncPipeline ι α} (h : (machine policy T).Run tr s)
    (hq : ∀ p ∈ tr, Quiet policy T p.1 p.2) : s.Slots ∧ s.Running :=
  h.invariant_of_guard (I := fun s => s.Slots ∧ s.Running) ⟨Slots.initial, Running.initial⟩
    (fun _ _ _ hi hc => quiet_step hi hc) hq

theorem slots_running_source {tr : List (AsyncPipeline ι α × AsyncLabel ι α)}
    {s : AsyncPipeline ι α} (h : (machine policy T).Run tr s)
    (hq : ∀ p ∈ tr, Quiet policy T p.1 p.2) : ∀ p ∈ tr, p.1.Slots ∧ p.1.Running :=
  h.invariant_source_of_guard (I := fun s => s.Slots ∧ s.Running) ⟨Slots.initial, Running.initial⟩
    (fun _ _ _ hi hc => quiet_step hi hc) hq

/-- Only `parallelWait` clones the table, so nothing else makes `on_finished` throw. -/
theorem finishReturns_of_ne (h : policy ≠ .parallelWait) (s : AsyncPipeline ι α)
    (l : AsyncLabel ι α) : FinishReturns policy T s l := by
  intro b x e _ _ _
  cases policy with
  | parallelWait => exact absurd rfl h
  | _ => simp [finishOutput]

/-! ## The status table agrees with the workers -/

/-- Exactly one of: an item queued, an item in the hands of the thread, an exception recorded
and not yet handled. -/
def OwesOne (s : AsyncPipeline ι α) (b : ι) : Prop :=
  let queued := (s.threads b).data.length = 1
  let inHand := (s.threads b).busy = true
  let unhandled := (s.threads b).exceptionPtrs.length = 1 ∧ s.handledNow b = false
  (queued ∧ ¬inHand ∧ ¬unhandled) ∨ (¬queued ∧ inHand ∧ ¬unhandled) ∨
    (¬queued ∧ ¬inHand ∧ unhandled)

theorem PoolOk.exceptions_ne_nil {s : AsyncPipeline ι α} (h : s.PoolOk) {b : ι}
    (hb : s.handledNow b = true) : (s.threads b).exceptionPtrs ≠ [] := by
  unfold handledNow at hb
  unfold PoolOk at h
  split at hb <;> simp_all

/-- A branch owes one result when its worker has one item of work that is not being handled. -/
theorem owesOne_iff {s : AsyncPipeline ι α} (h : s.Slots) (b : ι) :
    s.OwesOne b ↔ (s.threads b).load = 1 ∧ s.handledNow b = false := by
  cases hh : s.handledNow b with
  | true =>
    obtain ⟨_, _, hdata, hbusy⟩ := (h.slot b).load_of_exceptions (h.pool.exceptions_ne_nil hh)
    simp [OwesOne, hh, hdata, hbusy]
  | false =>
    have hle := (h.slot b).load_le
    unfold ThreadPoolWorker.load at hle ⊢
    cases hbusy : (s.threads b).busy <;> simp [OwesOne, hh, hbusy] at hle ⊢ <;> omega

/-! ### Inputs are never null -/

/-- A ready entry holds data. -/
def ReadyFilled (s : AsyncPipeline ι α) : Prop :=
  ∀ b, (s.branchesData b).status = .ready → (s.branchesData b).dataToProcess ≠ none

/-- Without a stop and without a null input, a branch that is ready has data. -/
theorem ReadyFilled.step {s s' : AsyncPipeline ι α} {l : AsyncLabel ι α} (h : s.ReadyFilled)
    (hcalm : s.stopPc = .idle) (hs : Effect policy T s l s') (hl : l ≠ .stop)
    (hnull : l ≠ .addProcessData none) : s'.ReadyFilled := by
  have hfinish : ∀ b x, (s.finishUpdate T b x).ReadyFilled := by
    intro b x c
    rcases finishUpdate_entry T b x s c with ⟨-, hd⟩ | ⟨-, -, -, hd⟩ | ⟨-, hd⟩ <;> rw [hd]
    · simp
    · simp
    · exact h c
  cases hs with
  | accepted d hg hst =>
    intro c
    by_cases hc : c = T.root
    · subst hc
      have hd : d ≠ none := by
        rintro rfl
        exact hnull rfl
      simpa using hd
    · simpa [Function.update_of_ne hc] using h c
  | handled b copies todo hpc =>
    intro c
    by_cases hc : c = b
    · subst hc; simp
    · simpa [Function.update_of_ne hc] using h c
  | started b x todo ready hpc hd hready =>
    intro c
    by_cases hc : c = b
    · subst hc; simp [startBranch]
    · simpa [startBranch, Function.update_of_ne hc] using h c
  | marked b todo ready hpc =>
    intro c
    by_cases hc : c = b
    · subst hc; simp
    · simpa [Function.update_of_ne hc] using h c
  | finishes b x output hpc hg hout => exact hfinish b x
  | fails b x e hpc hg hout => exact hfinish b x
  | stop s' hstop => exact absurd rfl hl
  | stopper s' hstop => simp [stopperStep, hcalm] at hstop
  | _ => exact h

/-- A step hands an item to a worker only if the worker owes nothing. -/
theorem handed_load {s s' : AsyncPipeline ι α} {l : AsyncLabel ι α} (h : s.Slots)
    (hs : Effect policy T s l s') (hl : l ≠ .stop) {b : ι} (hb : s'.handed b ≠ s.handed b) :
    (s.threads b).load = 0 := by
  cases hs with
  | started c x todo ready hpc hd hready =>
    by_cases hc : b = c
    · subst hc
      exact (h.slot b).ready_load (by rw [hd])
    · simp [startBranch, Function.update_of_ne hc] at hb
  | stop s' hstop => exact absurd rfl hl
  | stopper s' hstop => simp [stopperStep, h.calm.2] at hstop
  | _ => exact absurd rfl hb

/-- Under `parallelNoWait`, in every state of every run without `stop` and without null inputs:
an entry is ready exactly when it holds data, a branch is running exactly when it owes exactly
one result, no worker has two items queued, and no step gave an item to a worker that owed
something. -/
theorem status_agrees_with_workers {tr : List (AsyncPipeline ι α × AsyncLabel ι α)}
    {s : AsyncPipeline ι α} (h : (machine .parallelNoWait T).Run tr s)
    (hstop : ∀ p ∈ tr, p.2 ≠ .stop) (hnull : ∀ p ∈ tr, p.2 ≠ .addProcessData none) :
    (∀ b, ((s.branchesData b).status = .ready ↔ (s.branchesData b).dataToProcess ≠ none) ∧
      ((s.branchesData b).status = .running ↔ s.OwesOne b) ∧
      (s.threads b).data.length ≤ 1) ∧
    ∀ p ∈ tr, ∀ s', (machine .parallelNoWait T).step p.1 p.2 = some s' →
      ∀ b, s'.handed b ≠ p.1.handed b → (p.1.threads b).load = 0 := by
  have hq : ∀ p ∈ tr, Quiet .parallelNoWait T p.1 p.2 := fun p hp =>
    ⟨hstop p hp, finishReturns_of_ne (by decide) p.1 p.2⟩
  obtain ⟨hslots, hrunning⟩ := slots_running_of_quiet h hq
  have hfilled : s.ReadyFilled := by
    refine (h.invariant_of_guard (I := fun s => (s.Slots ∧ s.Running) ∧ s.ReadyFilled)
      (C := fun s l => Quiet .parallelNoWait T s l ∧ l ≠ .addProcessData none)
      ⟨⟨Slots.initial, Running.initial⟩, fun _ => ?_⟩ (fun s l s' hi hc hs => ?_)
      fun p hp => ⟨hq p hp, hnull p hp⟩).2
    · simp [machine, AsyncPipeline.initial]
    · exact ⟨quiet_step hi.1 hc.1 hs,
        hi.2.step hi.1.1.calm.2 (effect_of_step hs) hc.1.1 hc.2⟩
  refine ⟨fun b => ⟨⟨hfilled b, (hslots.slot b).data_ready⟩, ?_, ?_⟩, fun p hp s' hs b hb => ?_⟩
  · rw [hrunning b, owesOne_iff hslots]
  · have hle := (hslots.slot b).load_le
    unfold ThreadPoolWorker.load at hle
    omega
  · exact handed_load (slots_running_source h hq p hp).1 (effect_of_step hs) (hstop p hp) hb

/-! ### A root branch that forks -/

/-- A root branch and its two children. -/
def forkTree : BranchTree (Fin 3) where
  root := 0
  ids := [0, 1, 2]
  threadIds := [0, 1, 2]
  childrenIds := fun b => if b = 0 then [1, 2] else []
  ids_nodup := by decide
  threadIds_perm := List.Perm.refl _
  root_mem := by decide
  children_mem := by decide
  children_ne_one := by decide
  root_not_child := by decide
  parent_unique := by decide
  has_parent := by decide
  depth := fun b => if b = 0 then 0 else 1
  depth_child := by decide

/-- The pool thread makes `n` steps. -/
def poolSteps {k : Nat} (n : Nat) : List (AsyncLabel (Fin k) Nat) := List.replicate n .pool

/-- Branch `b`'s worker takes its item, which becomes `y`, and updates the table. -/
def finishOne {k : Nat} (b : Fin k) (y : Nat) : List (AsyncLabel (Fin k) Nat) :=
  [.worker b, .processed b (.ok y), .worker b, .worker b]

/-- The root accepts an input, hands it over and finishes it; both children start. -/
def firstInput : List (AsyncLabel (Fin 3) Nat) :=
  [.run, .addProcessData (some 10)] ++ poolSteps 10 ++ finishOne 0 11 ++ poolSteps 11

/-- Both children run on the first input; the first one finishes. -/
def siblingFinishes : List (AsyncLabel (Fin 3) Nat) := firstInput ++ finishOne 1 12

/-- With both children at work on the first input. -/
theorem status_agrees_with_workers_fork :
    ∃ s : AsyncPipeline (Fin 3) Nat,
      (machine .parallelNoWait forkTree).Run ((machine .parallelNoWait forkTree).trace initial
        firstInput) s ∧
      (∀ b, ((s.branchesData b).status = .ready ↔ (s.branchesData b).dataToProcess ≠ none) ∧
        ((s.branchesData b).status = .running ↔ s.OwesOne b) ∧
        (s.threads b).data.length ≤ 1) ∧
      (s.branchesData 1).status = .running := by
  obtain ⟨s, -, hrun, hs⟩ := Machine.exists_run_of_exec
    (machine .parallelNoWait forkTree) firstInput
    (fun s => (s.branchesData 1).status = .running) (by decide +kernel)
  have hall : ∀ l ∈ firstInput, l ≠ .stop ∧ l ≠ .addProcessData none := by
    simp [firstInput, poolSteps, finishOne]
  have hagree := status_agrees_with_workers hrun
    (fun p hp => (hall p.2 (Machine.label_mem_of_trace hp)).1)
    (fun p hp => (hall p.2 (Machine.label_mem_of_trace hp)).2)
  exact ⟨s, hrun, hagree.1, by simpa using hs⟩

/-! ## Accepted inputs are kept -/

/-- The accepted inputs are those handed to the root's worker and the one in its entry. -/
def InputKept (T : BranchTree ι) (s : AsyncPipeline ι α) : Prop :=
  s.accepted = s.handed T.root ++ (s.branchesData T.root).dataToProcess.toList

omit [DecidableEq ι] in

theorem updating_load {s : AsyncPipeline ι α} {b : ι} {x : Item α}
    (hpc : (s.threads b).pc = .updating x) : (s.threads b).load ≠ 0 := by
  simp [ThreadPoolWorker.load, ThreadPoolWorker.busy, hpc]

/-- `on_finished` empties the root's entry only when it is the root's, and then it is empty. -/
theorem InputKept.finishUpdate {s : AsyncPipeline ι α} (h : InputKept T s) (hslots : s.Slots)
    {b : ι} {x : Item α} (hpc : (s.threads b).pc = .updating x) :
    s.accepted = s.handed T.root ++
      ((s.finishUpdate T b x).branchesData T.root).dataToProcess.toList := by
  rcases finishUpdate_entry T b x s T.root with ⟨rfl, hd⟩ | ⟨-, hchild, -⟩ | ⟨-, hd⟩
  · have hnone := ((hslots.slot T.root).owing (updating_load hpc)).1
    rw [hd]
    simpa [InputKept, hnone] using h
  · exact absurd hchild (T.root_not_child b)
  · rw [hd]
    exact h

/-- Without a stop no step loses an input or overwrites one. -/
theorem InputKept.step {s s' : AsyncPipeline ι α} {l : AsyncLabel ι α} (h : InputKept T s)
    (hslots : s.Slots) (hs : Effect policy T s l s') (hl : l ≠ .stop) : InputKept T s' := by
  cases hs with
  | accepted d hg hst =>
    have hnone : (s.branchesData T.root).dataToProcess = none := by
      by_contra hn
      simp [(hslots.slot T.root).data_ready hn] at hst
    simp only [InputKept, hnone, Option.toList_none, List.append_nil] at h
    simp [InputKept, h]
  | handled b copies todo hpc =>
    by_cases hb : b = T.root
    · subst hb
      -- a branch whose exception is handled has nothing in its entry
      have hload := ((hslots.slot T.root).load_of_exceptions (hslots.single_copy hpc).2).1
      have hnone := ((hslots.slot T.root).owing (by omega)).1
      simpa [InputKept, hnone] using h
    · simpa [InputKept, Function.update_of_ne (Ne.symm hb)] using h
  | started b x todo ready hpc hd hready =>
    by_cases hb : b = T.root
    · subst hb
      simpa [InputKept, startBranch, hd] using h
    · simpa [InputKept, startBranch, Function.update_of_ne (Ne.symm hb)] using h
  | marked b todo ready hpc =>
    rw [hslots.marked_entries hpc]
    exact h
  | finishes b x output hpc hg hout => exact h.finishUpdate hslots hpc
  | fails b x e hpc hg hout => exact h.finishUpdate hslots hpc
  | stop s' hstop => exact absurd rfl hl
  | stopper s' hstop => simp [stopperStep, hslots.calm.2] at hstop
  | _ => exact h

/-- Except under `parallelWait`, entries are filled only while their branch owes nothing. -/
theorem fillsClear_of_ne (hpolicy : policy ≠ .parallelWait)
    {tr : List (AsyncPipeline ι α × AsyncLabel ι α)} {s : AsyncPipeline ι α}
    (h : (machine policy T).Run tr s) (hstop : ∀ p ∈ tr, p.2 ≠ .stop) :
    ∀ p ∈ tr, FillsClear T p.1 p.2 := by
  intro p hp
  obtain ⟨hslots, hrunning⟩ := slots_running_source h
    (fun p hp => ⟨hstop p hp, finishReturns_of_ne hpolicy p.1 p.2⟩) p hp
  exact hrunning.fillsClear hslots T p.2

/-- In every run without `stop`, every accepted input stays in the root's entry until the pool
thread hands it to the root's worker, and the exceptions handled belong to branches whose entry
is not ready and whose worker holds no item.  Under `parallelWait` this needs every entry to be
filled only while its branch owes nothing. -/
theorem accepted_input_kept {tr : List (AsyncPipeline ι α × AsyncLabel ι α)}
    {s : AsyncPipeline ι α} (h : (machine policy T).Run tr s) (hstop : ∀ p ∈ tr, p.2 ≠ .stop)
    (hfill : policy = .parallelWait → ∀ p ∈ tr, FillsClear T p.1 p.2) :
    s.accepted = s.handed T.root ++ (s.branchesData T.root).dataToProcess.toList ∧
    ∀ p ∈ tr, p.2 = .pool → ∀ b copies todo, p.1.poolPc = .rethrowing b (.std :: copies) todo →
      (p.1.branchesData b).status ≠ .ready ∧ (p.1.threads b).data = [] ∧
        (p.1.threads b).busy = false := by
  have hclear : ∀ p ∈ tr, FillsClear T p.1 p.2 := by
    by_cases hpolicy : policy = .parallelWait
    · exact hfill hpolicy
    · exact fillsClear_of_ne hpolicy h hstop
  have hstep : ∀ (s : AsyncPipeline ι α) l s', (s.Slots ∧ InputKept T s) →
      (l ≠ .stop ∧ FillsClear T s l) → (machine policy T).step s l = some s' →
      s'.Slots ∧ InputKept T s' := fun s l s' hi hc hs =>
    ⟨hi.1.step (effect_of_step hs) hc.1 hc.2, hi.2.step hi.1 (effect_of_step hs) hc.1⟩
  have hinit : (initial : AsyncPipeline ι α).Slots ∧ InputKept T (initial : AsyncPipeline ι α) :=
    ⟨Slots.initial, rfl⟩
  have hguard : ∀ p ∈ tr, p.2 ≠ .stop ∧ FillsClear T p.1 p.2 := fun p hp =>
    ⟨hstop p hp, hclear p hp⟩
  refine ⟨(h.invariant_of_guard hinit hstep hguard).2, fun p hp _ b copies todo hpc => ?_⟩
  have hslots := (h.invariant_source_of_guard hinit hstep hguard p hp).1
  obtain ⟨hload, -, hdata, hbusy⟩ :=
    (hslots.slot b).load_of_exceptions (hslots.single_copy hpc).2
  exact ⟨((hslots.slot b).owing (by omega)).2, hdata, hbusy⟩

/-- The first input of a root with two children. -/
theorem accepted_input_kept_fork :
    ∃ s : AsyncPipeline (Fin 3) Nat,
      (machine .parallelWait forkTree).Run ((machine .parallelWait forkTree).trace initial
        firstInput) s ∧
      s.accepted = s.handed forkTree.root ++
        (s.branchesData forkTree.root).dataToProcess.toList ∧
      s.handed 0 = [⟨0, 10⟩] := by
  obtain ⟨s, -, hrun, hs⟩ := Machine.exists_run_of_exec
    (machine .parallelWait forkTree) firstInput
    (fun s => s.handed 0 = [⟨0, 10⟩]) (by decide +kernel)
  have hlabels : ∀ l ∈ firstInput, l ≠ .stop := by
    simp [firstInput, poolSteps, finishOne]
  have hkept := accepted_input_kept hrun
    (fun p hp => hlabels p.2 (Machine.label_mem_of_trace hp)) fun _ => by decide +kernel
  exact ⟨s, hrun, hkept.1, by simpa using hs⟩

/-! ### An accepted input lost under `parallelWait` -/

/-- On the first input the first child finishes while the second one runs, so that its
`on_finished` throws on the other's null entry; when the pool thread handles that, the output of the
first child becomes null.  The root's `on_finished` of the second input throws on it, and the third
input, accepted in between, is overwritten when the pool thread handles that exception. -/
def lostInput : List (AsyncLabel (Fin 3) Nat) :=
  siblingFinishes ++ finishOne 2 13 ++ [.worker 1] ++ poolSteps 14 ++
    [.addProcessData (some 20)] ++ poolSteps 10 ++ finishOne 0 21 ++
    [.addProcessData (some 30), .worker 0] ++ poolSteps 4

/-- The third input is accepted, and the root's worker never gets it. -/
theorem accepted_input_lost : ¬∀ (tr : List (AsyncPipeline (Fin 3) Nat × AsyncLabel (Fin 3) Nat)) s,
    (machine .parallelWait forkTree).Run tr s → (∀ p ∈ tr, p.2 ≠ .stop) →
    s.accepted = s.handed forkTree.root ++
      (s.branchesData forkTree.root).dataToProcess.toList := by
  intro hall
  obtain ⟨s, -, hrun, hs⟩ := Machine.exists_run_of_exec
    (machine .parallelWait forkTree) lostInput
    (fun s => s.accepted ≠ s.handed forkTree.root ++
      (s.branchesData forkTree.root).dataToProcess.toList) (by decide +kernel)
  have hlabels : ∀ l ∈ lostInput, l ≠ .stop := by
    simp [lostInput, siblingFinishes, firstInput, poolSteps, finishOne]
  have hkept := hall _ s hrun fun p hp => hlabels p.2 (Machine.label_mem_of_trace hp)
  simp [hkept] at hs

end Seekira.Model.AsyncPipeline
