import Seekira.Analysis.AsyncDelivery

/-!
# What `parallelWait` publishes

`on_finished` publishes a clone of the whole output table once every branch has
a key in it.  Keys are never removed, so after the first round the check no
longer says that the branches have finished: an entry is null while its branch
runs.  Two results measure what this does to the observers: when `on_finished`
throws on a null entry, and which maps the observers receive.
-/

set_option autoImplicit false

namespace Seekira.Model.AsyncPipeline

open Library

variable {ι α : Type}

/-! ## The clone of the output table -/

/-- Cloning a map without null entries returns it. -/
theorem mapM_clone_ok (m : PipelineResultMap ι α) (h : ∀ e ∈ m, e.2 ≠ none) :
    (m.mapM fun e => (clonePipelineData e.2).map fun d => (e.1, d)) = .ok m := by
  induction m with
  | nil => rfl
  | cons e m ih =>
    obtain ⟨x, hx⟩ := Option.ne_none_iff_exists'.mp (h e (by simp))
    have htail := ih fun e' he' => h e' (List.mem_cons_of_mem _ he')
    have hhead : (clonePipelineData e.2).map (fun d => (e.1, d)) = .ok e := by
      rw [hx]
      exact congrArg Except.ok (Prod.ext rfl hx.symm)
    rw [List.mapM_cons, hhead, htail]
    rfl

/-- Cloning a map with a null entry throws. -/
theorem mapM_clone_error (m : PipelineResultMap ι α) (h : ∃ e ∈ m, e.2 = none) :
    ∃ err, (m.mapM fun e => (clonePipelineData e.2).map fun d => (e.1, d)) = .error err := by
  induction m with
  | nil => simp at h
  | cons e m ih =>
    rw [List.mapM_cons]
    cases he : e.2 with
    | none => exact ⟨.std, rfl⟩
    | some x =>
      have htail : ∃ e' ∈ m, e'.2 = none := by
        obtain ⟨e', hmem, hnull⟩ := h
        rcases List.mem_cons.mp hmem with rfl | hmem
        · simp [he] at hnull
        · exact ⟨e', hmem, hnull⟩
      obtain ⟨err, herr⟩ := ih htail
      rw [herr]
      exact ⟨err, rfl⟩

variable [DecidableEq ι] {T : BranchTree ι}

/-- Every branch but `b` has a key in the output table. -/
def KeysBut (T : BranchTree ι) (s : AsyncPipeline ι α) (b : ι) : Prop :=
  ∀ c ∈ T.ids, c ≠ b → (s.outputBranchesData c).isSome = true

theorem finishUpdate_output (T : BranchTree ι) (b : ι) (x : Item α) (s : AsyncPipeline ι α) :
    (s.finishUpdate T b x).outputBranchesData =
      Function.update s.outputBranchesData b (some (some x)) := rfl

/-- `is_all_ready` asks for the keys of the other branches. -/
theorem isAllReady_iff (b : ι) (x : Item α) (s : AsyncPipeline ι α) :
    (T.threadIds.all fun id => ((s.finishUpdate T b x).outputBranchesData id).isSome) = true ↔
      KeysBut T s b := by
  simp only [List.all_eq_true, T.mem_threadIds, finishUpdate_output, KeysBut]
  refine forall_congr' fun c => forall_congr' fun _ => ?_
  by_cases hc : c = b
  · subst hc
    simp
  · simp [hc]

/-- Under `parallelWait`, `on_finished` throws exactly when every other branch has a key and one
of their entries is null. -/
theorem finishOutput_error_iff (b : ι) (x : Item α) (s : AsyncPipeline ι α) :
    (∃ e, (s.finishUpdate T b x).finishOutput .parallelWait T b x = .error e) ↔
      KeysBut T s b ∧ ∃ c ∈ T.ids, c ≠ b ∧ s.outputBranchesData c = some none := by
  by_cases hkeys : KeysBut T s b
  · have hready := (isAllReady_iff b x s).mpr hkeys
    simp only [finishOutput, hready, if_true, hkeys, true_and]
    by_cases hnull : ∃ c ∈ T.ids, c ≠ b ∧ s.outputBranchesData c = some none
    · refine iff_of_true (mapM_clone_error _ ?_) hnull
      obtain ⟨c, hc, hcb, hout⟩ := hnull
      exact ⟨(c, none), by simpa [finishUpdate_output, hcb] using ⟨hc, hout⟩, rfl⟩
    · refine iff_of_false ?_ hnull
      rintro ⟨e, he⟩
      rw [mapM_clone_ok _ ?_] at he
      · cases he
      · rintro ⟨c, d⟩ hmem rfl
        obtain ⟨c', hc', hd⟩ := List.mem_filterMap.mp hmem
        obtain ⟨d, hout, hpair⟩ := Option.map_eq_some_iff.mp hd
        obtain ⟨rfl, rfl⟩ := Prod.mk.inj hpair
        by_cases hcb : c' = b
        · subst hcb
          simp [finishUpdate_output] at hout
        · rw [finishUpdate_output, Function.update_of_ne hcb] at hout
          exact hnull ⟨c', hc', hcb, hout⟩
  · have hready := (isAllReady_iff (T := T) b x s).not.mpr hkeys
    simp [finishOutput, hready, hkeys]

/-! ## When `on_finished` throws -/

/-- No node threw and no `on_finished` did. -/
def NoExceptions (s : AsyncPipeline ι α) : Prop :=
  ∀ b, (s.threads b).exceptionPtrs = [] ∧ ∀ e, (s.threads b).pc ≠ .failing e

/-- The null entries of the output table are those of the running branches. -/
def NullWhileRunning (s : AsyncPipeline ι α) : Prop :=
  ∀ b, s.outputBranchesData b = some none ↔ (s.branchesData b).status = .running

/-- When the step is an `on_finished` that finds a key for every other branch, no other branch is
running. -/
def FinishesLast (T : BranchTree ι) (s : AsyncPipeline ι α) (l : AsyncLabel ι α) : Prop :=
  ∀ b x, l = .worker b → (s.threads b).pc = .updating x →
    (∀ c ∈ T.ids, c ≠ b → (s.outputBranchesData c).isSome = true) →
      ∀ c ∈ T.ids, c ≠ b → (s.branchesData c).status ≠ .running

/-- The step is neither a stop nor a node that throws. -/
def Undisturbed (l : AsyncLabel ι α) : Prop :=
  l ≠ .stop ∧ ∀ b e, l ≠ .processed b (.error e)

omit [DecidableEq ι] in

theorem NoExceptions.initial : (initial : AsyncPipeline ι α).NoExceptions := by
  intro b
  simp [AsyncPipeline.initial, ThreadPoolWorker.create]

omit [DecidableEq ι] in

theorem NullWhileRunning.initial : (initial : AsyncPipeline ι α).NullWhileRunning := by
  intro b
  simp [AsyncPipeline.initial]

/-- A worker that moves without failing. -/
theorem NoExceptions.worker {s : AsyncPipeline ι α} (h : s.NoExceptions) {b : ι}
    {w : ThreadPoolWorker (Item α)} (hex : w.exceptionPtrs = [])
    (hpc : ∀ e, w.pc ≠ .failing e) (c : ι) :
    (Function.update s.threads b w c).exceptionPtrs = [] ∧
      ∀ e, (Function.update s.threads b w c).pc ≠ .failing e := by
  by_cases hc : c = b
  · subst hc
    simpa using ⟨hex, hpc⟩
  · simpa [Function.update_of_ne hc] using h c

omit [DecidableEq ι] in
/-- Without exceptions the pool thread never handles one. -/
theorem NoExceptions.not_handling {s : AsyncPipeline ι α} (h : s.NoExceptions) (hslots : s.Slots)
    {b : ι} {copies : List Exc} {todo : List ι} {e : Exc} :
    s.poolPc ≠ .rethrowing b (e :: copies) todo := by
  intro hpc
  exact (hslots.single_copy hpc).2 (h b).1

/-- A finished branch has an output, the outputs of the running ones stay null. -/
theorem NullWhileRunning.finishUpdate {s : AsyncPipeline ι α} (h : s.NullWhileRunning) (b : ι)
    (x : Item α) : (s.finishUpdate T b x).NullWhileRunning := by
  intro c
  rcases finishUpdate_entry T b x s c with ⟨rfl, hd⟩ | ⟨hc, -, hst, hd⟩ | ⟨hc, hd⟩ <;> rw [hd]
  · simp [finishUpdate_output]
  · have hnull := h c
    simp only [hst] at hnull
    simpa [finishUpdate_output, Function.update_of_ne hc] using hnull
  · simpa [finishUpdate_output, Function.update_of_ne hc] using h c

/-- A step that is not a failing `on_finished` leaves no exception behind. -/
theorem NoExceptions.step {policy : PipelineSyncPolicy} {s s' : AsyncPipeline ι α}
    {l : AsyncLabel ι α} (h : s.NoExceptions) (hslots : s.Slots) (hs : Effect policy T s l s')
    (hl : Undisturbed l) (hF : FinishReturns policy T s l) : s'.NoExceptions := by
  cases hs with
  | trimmed b size todo hpc hsize => exact h.worker rfl (h b).2
  | started b x todo ready hpc hd hready =>
    refine h.worker (by simpa using (h b).1) fun e => ?_
    unfold ThreadPoolWorker.addData ThreadPoolWorker.runWorker
    split
    · exact (h b).2 e
    · simp
  | takes b x rest hpc hdata => exact h.worker (h b).1 (by simp)
  | leaves b hpc hstop => exact h.worker (h b).1 (by simp)
  | skips b x hpc hstop => exact h.worker (h b).1 (by simp)
  | enters b x hpc hstop => exact h.worker (h b).1 (by simp)
  | finishes b x output hpc hg hout => exact h.worker (h b).1 (by simp)
  | fails b x e hpc hg hout => exact absurd hout (hF b x e rfl hpc hg)
  | records b e hpc => exact absurd hpc ((h b).2 e)
  | returned b x y hpc => exact h.worker (h b).1 (by simp)
  | threw b x e hpc => exact absurd rfl (hl.2 b e)
  | stop s' hstop => exact absurd rfl hl.1
  | stopper s' hstop => simp [stopperStep, hslots.calm.2] at hstop
  | _ => exact h

/-- Branches start with a null entry and finish with their result. -/
theorem NullWhileRunning.step {policy : PipelineSyncPolicy} {s s' : AsyncPipeline ι α}
    {l : AsyncLabel ι α} (h : s.NullWhileRunning) (hslots : s.Slots) (hex : s.NoExceptions)
    (hs : Effect policy T s l s') (hl : Undisturbed l) : s'.NullWhileRunning := by
  cases hs with
  | accepted d hg hst =>
    intro c
    by_cases hc : c = T.root
    · subst hc
      simpa [hst] using h T.root
    · simpa [Function.update_of_ne hc] using h c
  | handled b copies todo hpc => exact absurd hpc (hex.not_handling hslots)
  | started b x todo ready hpc hd hready =>
    intro c
    by_cases hc : c = b
    · subst hc
      simp [startBranch]
    · simpa [startBranch, Function.update_of_ne hc] using h c
  | marked b todo ready hpc =>
    intro c
    simpa [hslots.marked_entries hpc] using h c
  | finishes b x output hpc hg hout => exact h.finishUpdate b x
  | fails b x e hpc hg hout => exact h.finishUpdate b x
  | stop s' hstop => exact absurd rfl hl.1
  | stopper s' hstop => simp [stopperStep, hslots.calm.2] at hstop
  | _ => exact h

/-- In such states `on_finished` returns exactly when the branch finishes last. -/
theorem finishesLast_iff {s : AsyncPipeline ι α} (h : s.NullWhileRunning) (b : ι) (x : Item α) :
    (∀ e, (s.finishUpdate T b x).finishOutput .parallelWait T b x ≠ .error e) ↔
      (KeysBut T s b → ∀ c ∈ T.ids, c ≠ b → (s.branchesData c).status ≠ .running) := by
  rw [← not_exists, finishOutput_error_iff]
  simp only [not_and, not_exists]
  refine forall_congr' fun _ => forall_congr' fun c => forall_congr' fun _ =>
    forall_congr' fun _ => ?_
  rw [h c]

/-- Under `parallelWait`, in every run without `stop` and without throwing nodes, no `on_finished`
throws exactly when none of them finds a key for every other branch while another branch runs. -/
theorem on_finished_returns_iff {tr : List (AsyncPipeline ι α × AsyncLabel ι α)}
    {s : AsyncPipeline ι α} (h : (machine .parallelWait T).Run tr s)
    (hl : ∀ p ∈ tr, Undisturbed p.2) :
    s.finishFailures = [] ↔ ∀ p ∈ tr, FinishesLast T p.1 p.2 := by
  refine h.iff_guard (P := fun s => s.finishFailures = []) (G := fun _ l => Undisturbed l)
    (C := FinishesLast T)
    (I := fun s => (s.Slots ∧ s.Running) ∧ s.NoExceptions ∧ s.NullWhileRunning)
    ⟨⟨Slots.initial, Running.initial⟩, NoExceptions.initial, NullWhileRunning.initial⟩ rfl
    ?_ ?_ ?_ hl
  · rintro s l s' ⟨hrun, hex, hnull⟩ hP hund hlast hs
    have heff : Effect .parallelWait T s l s' := effect_of_step hs
    have hF : FinishReturns .parallelWait T s l := by
      intro b x e hlb hpc _
      exact (finishesLast_iff hnull b x).mpr (hlast b x hlb hpc) e
    refine ⟨⟨quiet_step hrun ⟨hund.1, hF⟩ hs, hex.step hrun.1 heff hund hF,
      hnull.step hrun.1 hex heff hund⟩, ?_⟩
    cases heff with
    | fails b x e hpc hg hout => exact absurd hout (hF b x e rfl hpc hg)
    | stop s' hstop => exact absurd rfl hund.1
    | stopper s' hstop => simp [stopperStep, hrun.1.calm.2] at hstop
    | _ => exact hP
  · rintro s l s' ⟨hrun, hex, hnull⟩ hP hund hlast hs
    have heff : Effect .parallelWait T s l s' := effect_of_step hs
    simp only [FinishesLast, not_forall] at hlast
    obtain ⟨b, x, rfl, hpc, hbad⟩ := hlast
    have hthrows : ∃ e, (s.finishUpdate T b x).finishOutput .parallelWait T b x = .error e := by
      by_contra hn
      obtain ⟨hkeys, c, hc, hcb, hrunning⟩ := hbad
      exact hrunning ((finishesLast_iff hnull b x).mp (by simpa using hn) hkeys c hc hcb)
    obtain ⟨e, he⟩ := hthrows
    cases heff with
    | finishes b x' output hpc' hg hout =>
      obtain rfl : x = x' := by simpa [hpc] using hpc'
      simp [he] at hout
    | fails => simp
    | takes => simp_all
    | leaves => simp_all
    | skips => simp_all
    | enters => simp_all
    | records => simp_all
  · rintro s l s' - hP hund hs
    have heff : Effect .parallelWait T s l s' := effect_of_step hs
    cases heff with
    | fails => simp
    | stop s' hstop => exact absurd rfl hund.1
    | stopper s' hstop => rwa [(frame_of_stopperStep hstop).2]
    | _ => exact hP

/-! ### Two siblings -/

/-- Of two siblings that both find all keys, the first one throws and the second one publishes the
whole map. -/
theorem on_finished_returns_iff_fork :
    ∃ s : AsyncPipeline (Fin 3) Nat,
      (machine .parallelWait forkTree).Run ((machine .parallelWait forkTree).trace initial
        (siblingFinishes ++ finishOne 2 13)) s ∧
      (s.finishFailures = [] ↔ ∀ p ∈ (machine .parallelWait forkTree).trace initial
        (siblingFinishes ++ finishOne 2 13), FinishesLast forkTree p.1 p.2) ∧
      s.finishFailures = [1] ∧
      s.published = [[], [(0, some ⟨0, 11⟩), (1, some ⟨0, 12⟩), (2, some ⟨0, 13⟩)]] := by
  obtain ⟨s, -, hrun, hs⟩ := Machine.exists_run_of_exec
    (machine .parallelWait forkTree) (siblingFinishes ++ finishOne 2 13)
    (fun s => s.finishFailures = [1] ∧
      s.published = [[], [(0, some ⟨0, 11⟩), (1, some ⟨0, 12⟩), (2, some ⟨0, 13⟩)]])
    (by decide +kernel)
  have hlabels : ∀ l ∈ siblingFinishes ++ finishOne 2 13, Undisturbed l := by
    simp [siblingFinishes, firstInput, poolSteps, finishOne, Undisturbed]
  have hiff := on_finished_returns_iff hrun
    fun p hp => hlabels p.2 (Machine.label_mem_of_trace hp)
  exact ⟨s, hrun, hiff, by simpa using hs⟩

/-- A branch that finishes while its sibling runs throws on the sibling's null entry. -/
theorem on_finished_throws : ¬∀ (tr : List (AsyncPipeline (Fin 3) Nat × AsyncLabel (Fin 3) Nat)) s,
    (machine .parallelWait forkTree).Run tr s → (∀ p ∈ tr, Undisturbed p.2) →
    s.finishFailures = [] := by
  intro hall
  obtain ⟨s, -, hrun, hs⟩ := Machine.exists_run_of_exec
    (machine .parallelWait forkTree) siblingFinishes
    (fun s => s.finishFailures = [1]) (by decide +kernel)
  have hlabels : ∀ l ∈ siblingFinishes, Undisturbed l := by
    simp [siblingFinishes, firstInput, poolSteps, finishOne, Undisturbed]
  have hnone := hall _ s hrun fun p hp => hlabels p.2 (Machine.label_mem_of_trace hp)
  simp [hnone] at hs

/-! ## What the observers receive -/

/-- A map with exactly one non-null entry for each branch, all computed from the same input. -/
structure FullMap (T : BranchTree ι) (m : PipelineResultMap ι α) : Prop where
  keys : (m.map Prod.fst).Perm T.ids
  same : ∃ n, ∀ e ∈ m, ∃ x, e.2 = some x ∧ x.input = n

/-- The step is an `on_finished` that holds the guard. -/
def Finishing (s : AsyncPipeline ι α) (l : AsyncLabel ι α) : Prop :=
  ∃ b x, l = .worker b ∧ (s.threads b).pc = .updating x

/-- A branch that was never given an item. -/
structure Untouched (s : AsyncPipeline ι α) (b : ι) : Prop where
  entry : s.branchesData b = ⟨none, .finished⟩
  output : s.outputBranchesData b = none
  thread : s.threads b = ThreadPoolWorker.create

/-- The branch whose exceptions the pool thread is handling, or which it is just starting. -/
def poolBranch (s : AsyncPipeline ι α) : Option ι :=
  match s.poolPc with
  | .handling b _ | .rethrowing b _ _ | .resetting b _ | .trimming b _ _ | .marking b _ _ => some b
  | _ => none

/-- Only the root has been given items. -/
structure RootOnly (T : BranchTree ι) (s : AsyncPipeline ι α) : Prop where
  untouched : ∀ b, b ≠ T.root → s.Untouched b
  pool : ∀ b, s.poolBranch = some b → b = T.root

omit [DecidableEq ι] in

theorem RootOnly.initial : RootOnly T (initial : AsyncPipeline ι α) where
  untouched := fun _ _ => ⟨rfl, rfl, rfl⟩
  pool := by simp [poolBranch, AsyncPipeline.initial]

omit [DecidableEq ι] in
/-- A worker whose thread runs is the root's. -/
theorem RootOnly.eq_root {s : AsyncPipeline ι α} (h : RootOnly T s) {b : ι}
    (hb : ¬s.Untouched b) : b = T.root := by
  by_contra hne
  exact hb (h.untouched b hne)

omit [DecidableEq ι] in

theorem RootOnly.eq_root_of_pc {s : AsyncPipeline ι α} (h : RootOnly T s) {b : ι}
    (hpc : (s.threads b).pc ≠ .notStarted) : b = T.root :=
  h.eq_root fun hb => hpc (by rw [hb.thread]; rfl)

omit [DecidableEq ι] in
/-- A step that changes only the root's tables and leaves the pool thread at the root. -/
theorem RootOnly.of_root {s s' : AsyncPipeline ι α} (h : RootOnly T s)
    (hoff : ∀ b, b ≠ T.root → s'.branchesData b = s.branchesData b ∧
      s'.outputBranchesData b = s.outputBranchesData b ∧ s'.threads b = s.threads b)
    (hpool : ∀ b, s'.poolBranch = some b → b = T.root) : RootOnly T s' where
  untouched := by
    intro b hb
    obtain ⟨hd, ho, ht⟩ := hoff b hb
    have hun := h.untouched b hb
    exact ⟨hd.trans hun.entry, ho.trans hun.output, ht.trans hun.thread⟩
  pool := hpool

/-- The root's worker moves. -/
theorem RootOnly.worker {s : AsyncPipeline ι α} (h : RootOnly T s) {b : ι}
    (hpc : (s.threads b).pc ≠ .notStarted) (w : ThreadPoolWorker (Item α)) :
    RootOnly T ({ s with threads := Function.update s.threads b w } : AsyncPipeline ι α) := by
  obtain rfl := h.eq_root_of_pc hpc
  exact h.of_root (fun c hc => ⟨rfl, rfl, Function.update_of_ne hc _ _⟩) h.pool

/-- Stopping a worker that was never used leaves it as it was. -/
theorem RootOnly.cleared {s : AsyncPipeline ι α} (h : RootOnly T s) (b : ι)
    {f : ThreadPoolWorker (Item α) → ThreadPoolWorker (Item α)}
    (hf : f ThreadPoolWorker.create = ThreadPoolWorker.create) (pc : StopPc ι) :
    RootOnly T ({ s.setThread b (f (s.threads b)) with stopPc := pc } : AsyncPipeline ι α) := by
  refine h.of_root (fun c hc => ⟨rfl, rfl, ?_⟩) h.pool
  by_cases hcb : c = b
  · subst hcb
    simp [(h.untouched c hc).thread, hf]
  · simp [Function.update_of_ne hcb]

/-- The steps of a stop touch only the root. -/
theorem RootOnly.stopperStep {s s' : AsyncPipeline ι α} (h : RootOnly T s)
    (hs : s.stopperStep T = some s') : RootOnly T s' := by
  cases stopMove_of_stopperStep hs with
  | clear _ => exact h.of_root (fun _ _ => ⟨rfl, rfl, rfl⟩) h.pool
  | ask b todo _ hrun =>
    obtain rfl := h.eq_root (b := b) fun hb => by
      simp [hb.thread, ThreadPoolWorker.create] at hrun
    exact h.of_root (fun c hc => ⟨rfl, rfl, by simp [setThread, Function.update_of_ne hc]⟩) h.pool
  | pass b todo _ _ => exact h.of_root (fun _ _ => ⟨rfl, rfl, rfl⟩) h.pool
  | join b todo _ _ => exact h.cleared b (f := ThreadPoolWorker.joined) rfl _
  | empty b todo _ => exact h.cleared b (f := ThreadPoolWorker.resetData) rfl _
  | drop b todo _ => exact h.cleared b (f := ThreadPoolWorker.dropExceptions) rfl _
  | release b todo _ => exact h.cleared b (f := fun w => { w with isRunning := false }) rfl _
  | leave b todo _ => exact h.cleared b (f := fun w => { w with needStop := false }) rfl _
  | cleared _ => exact h.of_root (fun _ _ => ⟨rfl, rfl, rfl⟩) h.pool
  | reset b todo _ =>
    refine h.of_root (fun c hc => ⟨?_, rfl, rfl⟩) h.pool
    by_cases hcb : c = b
    · subst hcb
      simpa using (h.untouched c hc).entry.symm
    · simp [setEntry, Function.update_of_ne hcb]
  | done _ _ => exact h.of_root (fun _ _ => ⟨rfl, rfl, rfl⟩) (by simp [poolBranch])

/-- Until an `on_finished` updates the tables, only the root is touched. -/
theorem RootOnly.step {policy : PipelineSyncPolicy} {s s' : AsyncPipeline ι α}
    {l : AsyncLabel ι α} (h : RootOnly T s) (hs : Effect policy T s l s')
    (hF : ¬Finishing s l) : RootOnly T s' := by
  cases hs with
  | run hr => exact h.of_root (fun _ _ => ⟨rfl, rfl, rfl⟩) (by simp [poolBranch])
  | refused d hg hst => exact h
  | accepted d hg hst =>
    exact h.of_root (fun c hc => ⟨Function.update_of_ne hc _ _, rfl, rfl⟩) h.pool
  | poolMove pc hpc =>
    refine h.of_root (fun _ _ => ⟨rfl, rfl, rfl⟩) fun c hc => ?_
    have hpool := h.pool c
    cases hpc with
    | dirty b todo hs hex =>
      obtain rfl : b = c := by simpa [poolBranch] using hc
      exact h.eq_root fun hb => hex (by rw [hb.thread]; rfl)
    | _ => simp_all [poolBranch]
  | aborts => exact h.of_root (fun _ _ => ⟨rfl, rfl, rfl⟩) h.pool
  | handled b copies todo hpc =>
    obtain rfl := h.pool b (by simp [poolBranch, hpc])
    refine h.of_root (fun c hc => ⟨?_, ?_, rfl⟩) (by simp [poolBranch])
    · exact Function.update_of_ne hc _ _
    · exact Function.update_of_ne hc _ _
  | trimmed b size todo hpc hsize =>
    obtain rfl := h.pool b (by simp [poolBranch, hpc])
    exact h.of_root (fun c hc => ⟨rfl, rfl, Function.update_of_ne hc _ _⟩) (by simp [poolBranch])
  | started b x todo ready hpc hd hready =>
    obtain rfl := h.eq_root (b := b) fun hb => by simp [hb.entry] at hd
    refine h.of_root (fun c hc => ⟨?_, ?_, ?_⟩) (by simp [poolBranch, eq_comm])
    · exact Function.update_of_ne hc _ _
    · exact Function.update_of_ne hc _ _
    · exact Function.update_of_ne hc _ _
  | marked b todo ready hpc =>
    obtain rfl := h.pool b (by simp [poolBranch, hpc])
    exact h.of_root (fun c hc => ⟨Function.update_of_ne hc _ _, rfl, rfl⟩) (by simp [poolBranch])
  | takes b x rest hpc hdata =>
    have hw := h.worker (b := b) (by simp [hpc]) { s.threads b with data := rest, pc := .processing x }
    exact hw.of_root (fun _ _ => ⟨rfl, rfl, rfl⟩) hw.pool
  | leaves b hpc hstop => exact h.worker (by simp [hpc]) _
  | skips b x hpc hstop => exact h.worker (by simp [hpc]) _
  | enters b x hpc hstop => exact h.worker (by simp [hpc]) _
  | finishes b x output hpc hg hout => exact absurd ⟨b, x, rfl, hpc⟩ hF
  | fails b x e hpc hg hout => exact absurd ⟨b, x, rfl, hpc⟩ hF
  | records b e hpc => exact h.worker (by simp [hpc]) _
  | returned b x y hpc => exact h.worker (by simp [hpc]) _
  | threw b x e hpc => exact h.worker (by simp [hpc]) _
  | stop s' hstop =>
    rcases stop_cases hstop with ⟨-, rfl⟩ | rfl
    · exact h.of_root (fun _ _ => ⟨rfl, rfl, rfl⟩) h.pool
    · exact h
  | stopper s' hstop => exact h.stopperStep hstop

/-- A pipeline with more than one branch has one besides the root. -/
theorem exists_ne_root (h : T.ids.length ≠ 1) : ∃ c ∈ T.ids, c ≠ T.root := by
  have hmem := T.root_mem
  have hnodup := T.ids_nodup
  rcases hids : T.ids with _ | ⟨a, _ | ⟨b, rest⟩⟩
  · simp [hids] at hmem
  · simp [hids] at h
  · rw [hids] at hnodup
    by_cases ha : a = T.root
    · refine ⟨b, by simp, ?_⟩
      rintro rfl
      simp [ha] at hnodup
    · exact ⟨a, by simp, ha⟩

omit [DecidableEq ι] in

theorem ids_of_single (h : T.ids.length = 1) : T.ids = [T.root] := by
  obtain ⟨a, ha⟩ := List.length_eq_one_iff.mp h
  have hmem := T.root_mem
  rw [ha] at hmem ⊢
  rw [List.mem_singleton.mp hmem]

omit [DecidableEq ι] in

theorem not_child_of_single (h : T.ids.length = 1) (b c : ι) : c ∉ T.childrenIds b := by
  intro hchild
  have hmem := T.children_mem b c hchild
  rw [ids_of_single h, List.mem_singleton] at hmem
  exact T.ne_root_of_child hchild hmem

/-- A pipeline with a single branch publishes that branch's result. -/
theorem finishOutput_single (h : T.ids.length = 1) (s : AsyncPipeline ι α) (x : Item α) :
    (s.finishUpdate T T.root x).finishOutput .parallelWait T T.root x =
      .ok [(T.root, some x)] := by
  have hkeys : KeysBut T s T.root := by
    intro c hc hne
    rw [ids_of_single h, List.mem_singleton] at hc
    exact absurd hc hne
  have hready := (isAllReady_iff T.root x s).mpr hkeys
  simp only [finishOutput, hready, if_true, ids_of_single h]
  have hlist : ([T.root].filterMap fun id =>
      ((s.finishUpdate T T.root x).outputBranchesData id).map fun d => (id, d)) =
        [(T.root, some x)] := by
    simp [finishUpdate_output]
  rw [hlist]
  exact mapM_clone_ok _ (by simp)

/-- The first result of a pipeline with several branches is published as an empty map. -/
theorem finishOutput_first {s : AsyncPipeline ι α} (hroot : RootOnly T s)
    (h : T.ids.length ≠ 1) (x : Item α) :
    (s.finishUpdate T T.root x).finishOutput .parallelWait T T.root x = .ok [] := by
  obtain ⟨c, hc, hne⟩ := exists_ne_root h
  have hkeys : ¬KeysBut T s T.root := by
    intro hk
    simpa [(hroot.untouched c hne).output] using hk c hc hne
  have hready := (isAllReady_iff T.root x s).not.mpr hkeys
  simp [finishOutput, hready]

omit [DecidableEq ι] in

theorem fullMap_single (h : T.ids.length = 1) (x : Item α) :
    FullMap T [(T.root, some x)] where
  keys := by simp [ids_of_single h]
  same := ⟨x.input, by simp⟩

omit [DecidableEq ι] in

theorem not_fullMap_nil : ¬FullMap T ([] : PipelineResultMap ι α) := by
  intro h
  have hnil : T.ids = [] := by simpa using h.keys.symm
  have hmem := T.root_mem
  simp [hnil] at hmem

/-- Every step publishes at most one map and forgets none. -/
theorem published_grows {policy : PipelineSyncPolicy} {s s' : AsyncPipeline ι α}
    {l : AsyncLabel ι α} (hs : Effect policy T s l s') :
    ∀ m ∈ s.published, m ∈ s'.published := by
  cases hs with
  | finishes b x output hpc hg hout => exact fun m hm => List.mem_append_left _ hm
  | stop s' hstop => simp [(frame_of_stop hstop).1]
  | stopper s' hstop => simp [(frame_of_stopperStep hstop).1]
  | _ => exact fun m hm => hm

/-- A step that is not an `on_finished` publishes nothing. -/
theorem published_of_not_finishing {policy : PipelineSyncPolicy} {s s' : AsyncPipeline ι α}
    {l : AsyncLabel ι α} (hs : Effect policy T s l s') (hF : ¬Finishing s l) :
    s'.published = s.published := by
  cases hs with
  | finishes b x output hpc hg hout => exact absurd ⟨b, x, rfl, hpc⟩ hF
  | stop s' hstop => exact (frame_of_stop hstop).1
  | stopper s' hstop => exact (frame_of_stopperStep hstop).1
  | _ => rfl

/-- An `on_finished` that holds the guard is the root's, as long as only the root was touched. -/
theorem finishing_root {s s' : AsyncPipeline ι α} {l : AsyncLabel ι α}
    (hroot : RootOnly T s) (hs : Effect .parallelWait T s l s') (hF : Finishing s l) :
    ∃ x, (s.threads T.root).pc = .updating x ∧
      ((∃ output, (s.finishUpdate T T.root x).finishOutput .parallelWait T T.root x =
          .ok output ∧
        s' = { s.finishUpdate T T.root x with
          threads := Function.update s.threads T.root { s.threads T.root with pc := .idle }
          published := s.published ++ [output] }) ∨
      ∃ e, (s.finishUpdate T T.root x).finishOutput .parallelWait T T.root x = .error e) := by
  obtain ⟨b, x, rfl, hpc⟩ := hF
  obtain rfl := hroot.eq_root_of_pc (b := b) (by simp [hpc])
  refine ⟨x, hpc, ?_⟩
  cases hs with
  | finishes b x' output hpc' hg hout =>
    obtain rfl : x = x' := by simpa [hpc] using hpc'
    exact .inl ⟨output, hout, rfl⟩
  | fails b x' e hpc' hg hout =>
    obtain rfl : x = x' := by simpa [hpc] using hpc'
    exact .inr ⟨e, hout⟩
  | takes => simp_all
  | leaves => simp_all
  | skips => simp_all
  | enters => simp_all
  | records => simp_all

/-- Under `parallelWait`, in every run, stops included, every published map is full exactly when
the pipeline has a single branch or no `on_finished` has updated the tables. -/
theorem published_full_iff {tr : List (AsyncPipeline ι α × AsyncLabel ι α)}
    {s : AsyncPipeline ι α} (h : (machine .parallelWait T).Run tr s) :
    (∀ m ∈ s.published, FullMap T m) ↔
      ∀ p ∈ tr, T.ids.length = 1 ∨ ¬Finishing p.1 p.2 := by
  refine h.iff_guard (P := fun s => ∀ m ∈ s.published, FullMap T m) (G := fun _ _ => True)
    (C := fun s l => T.ids.length = 1 ∨ ¬Finishing s l) (I := RootOnly T)
    RootOnly.initial (by simp [machine, initial]) ?_ ?_ ?_ fun _ _ => trivial
  · intro s l s' hroot hP _ hC hs
    have heff : Effect .parallelWait T s l s' := effect_of_step hs
    by_cases hF : Finishing s l
    · have hone : T.ids.length = 1 := hC.resolve_right (not_not.mpr hF)
      obtain ⟨x, hpc, ⟨output, hout, rfl⟩ | ⟨e, hout⟩⟩ := finishing_root hroot heff hF
      · rw [finishOutput_single hone] at hout
        cases hout
        refine ⟨hroot.of_root (fun c hc => ⟨?_, ?_, ?_⟩) hroot.pool, ?_⟩
        · rcases finishUpdate_entry T T.root x s c with ⟨hcr, -⟩ | ⟨-, hchild, -⟩ | ⟨-, hd⟩
          · exact absurd hcr hc
          · exact absurd hchild (not_child_of_single hone _ _)
          · exact hd
        · exact Function.update_of_ne hc _ _
        · exact Function.update_of_ne hc _ _
        · intro m hm
          rcases List.mem_append.mp hm with hm | hm
          · exact hP m hm
          · rw [List.mem_singleton.mp hm]
            exact fullMap_single hone x
      · rw [finishOutput_single hone] at hout
        cases hout
    · exact ⟨hroot.step heff hF, by rwa [published_of_not_finishing heff hF]⟩
  · intro s l s' hroot hP _ hC hs
    have heff : Effect .parallelWait T s l s' := effect_of_step hs
    simp only [not_or, not_not] at hC
    obtain ⟨x, hpc, ⟨output, hout, rfl⟩ | ⟨e, hout⟩⟩ := finishing_root hroot heff hC.2
    · rw [finishOutput_first hroot hC.1] at hout
      cases hout
      exact fun hall => not_fullMap_nil (hall [] (by simp))
    · rw [finishOutput_first hroot hC.1] at hout
      cases hout
  · intro s l s' _ hP _ hs hP'
    exact hP fun m hm => hP' m (published_grows (effect_of_step hs) m hm)

/-- The first input of a root with two children: the map that is sent is empty. -/
theorem published_full_iff_fork :
    ∃ s : AsyncPipeline (Fin 3) Nat,
      (machine .parallelWait forkTree).Run ((machine .parallelWait forkTree).trace initial
        firstInput) s ∧
      ((∀ m ∈ s.published, FullMap forkTree m) ↔
        ∀ p ∈ (machine .parallelWait forkTree).trace initial firstInput,
          forkTree.ids.length = 1 ∨ ¬Finishing p.1 p.2) ∧
      s.published = [[]] := by
  obtain ⟨s, -, hrun, hs⟩ := Machine.exists_run_of_exec
    (machine .parallelWait forkTree) firstInput (fun s => s.published = [[]]) (by decide +kernel)
  exact ⟨s, hrun, published_full_iff hrun, by simpa using hs⟩

/-- The first result of a root with children reaches the observers as an empty map. -/
theorem published_partial : ¬∀ (tr : List (AsyncPipeline (Fin 3) Nat × AsyncLabel (Fin 3) Nat)) s,
    (machine .parallelWait forkTree).Run tr s → ∀ m ∈ s.published, FullMap forkTree m := by
  intro hall
  obtain ⟨s, -, hrun, hs⟩ := Machine.exists_run_of_exec
    (machine .parallelWait forkTree) firstInput (fun s => s.published = [[]]) (by decide +kernel)
  have hpub : s.published = [[]] := by simpa using hs
  exact not_fullMap_nil (hall _ s hrun [] (by simp [hpub]))

end Seekira.Model.AsyncPipeline
