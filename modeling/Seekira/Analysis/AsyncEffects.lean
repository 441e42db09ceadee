import Seekira.Model.AsyncPipeline

/-!
# What one step of the asynchronous pipeline can do

`Effect policy T s l s'` lists, one constructor for each behaviour, the states a
step labelled `l` can lead to from `s`, with everything the step has checked.
`effect_of_step` reads it off the step function once; every invariant of the
pipeline is then a case analysis over `Effect`.
-/

set_option autoImplicit false

namespace Seekira.Model

/-- The stop is at the worker of branch `b`, which those of `todo` follow, or just past it. -/
inductive StopPc.At {ι : Type} (b : ι) (todo : List ι) : StopPc ι → Prop
  | stopping : At b todo (.stopping (b :: todo))
  | joining : At b todo (.joining b todo)
  | emptying : At b todo (.emptying b todo)
  | resetting : At b todo (.resetting b todo)
  | releasing : At b todo (.releasing b todo)
  | released : At b todo (.released b todo)
  | past : At b todo (.stopping todo)

namespace AsyncPipeline

variable {ι α : Type} [DecidableEq ι]

/-- The moves of the pool thread that change nothing but its own position. -/
inductive PoolMove (policy : PipelineSyncPolicy) (T : BranchTree ι) (s : AsyncPipeline ι α) :
    PoolPc ι → Prop
  | leave : s.poolPc = .loop → s.needStop = true → PoolMove policy T s .exited
  | iterate : s.poolPc = .loop → s.needStop = false → PoolMove policy T s (.checking T.threadIds)
  | checked : s.poolPc = .checking [] →
      PoolMove policy T s (.starting T.ids (s.readyForWaitIteration policy T))
  | clean (b : ι) (todo : List ι) : s.poolPc = .checking (b :: todo) →
      (s.threads b).exceptionPtrs = [] → PoolMove policy T s (.checking todo)
  | dirty (b : ι) (todo : List ι) : s.poolPc = .checking (b :: todo) →
      (s.threads b).exceptionPtrs ≠ [] → PoolMove policy T s (.handling b todo)
  | copied (b : ι) (todo : List ι) : s.poolPc = .handling b todo →
      PoolMove policy T s (.rethrowing b (s.threads b).exceptionPtrs todo)
  | rethrown (b : ι) (todo : List ι) : s.poolPc = .rethrowing b [] todo →
      PoolMove policy T s (.resetting b todo)
  | measured (b : ι) (todo : List ι) : s.poolPc = .resetting b todo →
      PoolMove policy T s (.trimming b (s.threads b).exceptionPtrs.length todo)
  | skipped (b : ι) (todo : List ι) (ready : Bool) : s.poolPc = .starting (b :: todo) ready →
      PoolMove policy T s (.starting todo ready)
  | done (ready : Bool) : s.poolPc = .starting [] ready → PoolMove policy T s .loop

/-- The steps of a pipeline, by what they do. -/
inductive Effect (policy : PipelineSyncPolicy) (T : BranchTree ι) (s : AsyncPipeline ι α) :
    AsyncLabel ι α → AsyncPipeline ι α → Prop
  | run : s.isRunning = false →
      Effect policy T s .run { s with needStop := false, poolPc := .loop, isRunning := true }
  | refused (d : Option α) : s.guardHeld = false → (s.branchesData T.root).status ≠ .finished →
      Effect policy T s (.addProcessData d) s
  | accepted (d : Option α) : s.guardHeld = false → (s.branchesData T.root).status = .finished →
      Effect policy T s (.addProcessData d)
        { s with
          branchesData := Function.update s.branchesData T.root
            ⟨d.map fun a => ⟨s.accepted.length, a⟩, .ready⟩
          accepted := s.accepted ++ (d.map fun a => (⟨s.accepted.length, a⟩ : Item α)).toList }
  | poolMove (pc : PoolPc ι) : PoolMove policy T s pc →
      Effect policy T s .pool { s with poolPc := pc }
  | aborts : Effect policy T s .pool { s with aborted := true }
  | handled (b : ι) (copies : List Exc) (todo : List ι) :
      s.poolPc = .rethrowing b (.std :: copies) todo →
      Effect policy T s .pool
        { s with
          branchesData := Function.update s.branchesData b ⟨none, .finished⟩
          outputBranchesData := Function.update s.outputBranchesData b (some none)
          poolPc := .rethrowing b copies todo }
  | trimmed (b : ι) (size : Nat) (todo : List ι) : s.poolPc = .trimming b size todo →
      (s.threads b).exceptionPtrs.length ≤ size →
      Effect policy T s .pool
        { s with
          threads := Function.update s.threads b { s.threads b with exceptionPtrs := [] }
          poolPc := .checking todo }
  | started (b : ι) (x : Item α) (todo : List ι) (ready : Bool) :
      s.poolPc = .starting (b :: todo) ready → s.branchesData b = ⟨some x, .ready⟩ →
      (policy = .parallelWait → b = T.root → ready = true) →
      Effect policy T s .pool { s.startBranch b x with poolPc := .marking b todo ready }
  | marked (b : ι) (todo : List ι) (ready : Bool) : s.poolPc = .marking b todo ready →
      Effect policy T s .pool
        { s with
          branchesData := Function.update s.branchesData b ⟨none, .running⟩
          poolPc := .starting todo ready }
  | takes (b : ι) (x : Item α) (rest : List (Item α)) : (s.threads b).pc = .idle →
      (s.threads b).data = x :: rest →
      Effect policy T s (.worker b)
        { s with
          threads := Function.update s.threads b
            { s.threads b with data := rest, pc := .processing x }
          taken := Function.update s.taken b (s.taken b ++ [x]) }
  | leaves (b : ι) : (s.threads b).pc = .idle → (s.threads b).needStop = true →
      Effect policy T s (.worker b)
        { s with threads := Function.update s.threads b { s.threads b with pc := .exited } }
  | skips (b : ι) (x : Item α) : (s.threads b).pc = .finishing x → s.needStop = true →
      Effect policy T s (.worker b)
        { s with threads := Function.update s.threads b { s.threads b with pc := .idle } }
  | enters (b : ι) (x : Item α) : (s.threads b).pc = .finishing x → s.needStop = false →
      Effect policy T s (.worker b)
        { s with threads := Function.update s.threads b { s.threads b with pc := .updating x } }
  | finishes (b : ι) (x : Item α) (output : PipelineResultMap ι α) :
      (s.threads b).pc = .updating x → s.guardHeld = false →
      (s.finishUpdate T b x).finishOutput policy T b x = .ok output →
      Effect policy T s (.worker b)
        { s.finishUpdate T b x with
          threads := Function.update s.threads b { s.threads b with pc := .idle }
          published := s.published ++ [output] }
  | fails (b : ι) (x : Item α) (e : Exc) :
      (s.threads b).pc = .updating x → s.guardHeld = false →
      (s.finishUpdate T b x).finishOutput policy T b x = .error e →
      Effect policy T s (.worker b)
        { s.finishUpdate T b x with
          threads := Function.update s.threads b { s.threads b with pc := .failing e }
          finishFailures := s.finishFailures ++ [b] }
  | records (b : ι) (e : Exc) : (s.threads b).pc = .failing e →
      Effect policy T s (.worker b)
        { s with threads := Function.update s.threads b ((s.threads b).recordException e) }
  | returned (b : ι) (x : Item α) (y : α) : (s.threads b).pc = .processing x →
      Effect policy T s (.processed b (.ok y))
        { s with
          threads := Function.update s.threads b
            { s.threads b with pc := .finishing ⟨x.input, y⟩ } }
  | threw (b : ι) (x : Item α) (e : Exc) : (s.threads b).pc = .processing x →
      Effect policy T s (.processed b (.error e))
        { s with threads := Function.update s.threads b { s.threads b with pc := .failing e } }
  | stop (s' : AsyncPipeline ι α) : s.stop T = some s' → Effect policy T s .stop s'
  | stopper (s' : AsyncPipeline ι α) : s.stopperStep T = some s' → Effect policy T s .stopper s'

/-- The start loop picks exactly the items of ready entries; under `parallelWait` the root's only
when the other branches have finished. -/
theorem readyData_eq_some_iff {policy : PipelineSyncPolicy} {T : BranchTree ι} {ready : Bool}
    {b : ι} {s : AsyncPipeline ι α} {x : Item α} :
    s.readyData policy T ready b = some x ↔ s.branchesData b = ⟨some x, .ready⟩ ∧
      (policy = .parallelWait → b = T.root → ready = true) := by
  rcases hd : s.branchesData b with ⟨data, status⟩
  have hwait : (policy ≠ .parallelWait || T.root ≠ b || ready) = true ↔
      (policy = .parallelWait → b = T.root → ready = true) := by
    cases ready <;> simp [imp_iff_not_or, eq_comm (a := b)]
  cases status with
  | ready =>
    simp only [readyData, hd, reduceCtorEq, if_false, decide_true, Bool.true_and]
    by_cases hw : policy = .parallelWait → b = T.root → ready = true
    · rw [if_pos (hwait.mpr hw)]
      constructor
      · rintro rfl
        exact ⟨rfl, hw⟩
      · rintro ⟨hentry, -⟩
        exact congrArg BranchProcessData.dataToProcess hentry
    · rw [if_neg (mt hwait.mp hw)]
      exact iff_of_false nofun fun h => hw h.2
  | running => simp [readyData, hd]
  | finished => simp [readyData, hd]

/-- The entries after `on_finished` of `b`: its own is emptied, a finished child's is filled and
the others stay. -/
theorem finishUpdate_entry (T : BranchTree ι) (b : ι) (x : Item α) (s : AsyncPipeline ι α)
    (c : ι) :
    (c = b ∧ (s.finishUpdate T b x).branchesData c = ⟨none, .finished⟩) ∨
      (c ≠ b ∧ c ∈ T.childrenIds b ∧ (s.branchesData c).status = .finished ∧
        (s.finishUpdate T b x).branchesData c = ⟨some x, .ready⟩) ∨
      (c ≠ b ∧ (s.finishUpdate T b x).branchesData c = s.branchesData c) := by
  by_cases hc : c = b
  · subst hc
    left
    simp [finishUpdate, T.not_mem_children_self]
  · by_cases hchild : c ∈ T.childrenIds b ∧ (s.branchesData c).status = .finished
    · right; left
      exact ⟨hc, hchild.1, hchild.2, by simp [finishUpdate, Function.update_of_ne hc, hchild]⟩
    · right; right
      refine ⟨hc, ?_⟩
      simp only [finishUpdate, setEntry, Function.update_of_ne hc]
      rw [if_neg hchild]

@[simp] theorem finishUpdate_handed (T : BranchTree ι) (b : ι) (x : Item α)
    (s : AsyncPipeline ι α) : (s.finishUpdate T b x).handed = s.handed := rfl

@[simp] theorem finishUpdate_taken (T : BranchTree ι) (b : ι) (x : Item α)
    (s : AsyncPipeline ι α) : (s.finishUpdate T b x).taken = s.taken := rfl

@[simp] theorem finishUpdate_outputs (T : BranchTree ι) (b : ι) (x : Item α)
    (s : AsyncPipeline ι α) :
    (s.finishUpdate T b x).outputs = Function.update s.outputs b (s.outputs b ++ [x]) := rfl

omit [DecidableEq ι] in
/-- Stopping publishes nothing and makes no `on_finished` throw. -/
theorem frame_of_stop {T : BranchTree ι} {s s' : AsyncPipeline ι α} (h : s.stop T = some s') :
    s'.published = s.published ∧ s'.finishFailures = s.finishFailures := by
  unfold stop at h
  split at h
  · split at h <;> cases h <;> exact ⟨rfl, rfl⟩
  · cases h

omit [DecidableEq ι] in
/-- A call of `stop` starts the stop, or changes nothing because the pipeline does not run. -/
theorem stop_cases {T : BranchTree ι} {s s' : AsyncPipeline ι α} (h : s.stop T = some s') :
    (s.stopPc = .idle ∧ s' = { s with needStop := true, stopPc := .stopping T.threadIds }) ∨
      s' = s := by
  unfold stop at h
  split at h
  · rename_i hidle
    split at h <;> cases h
    · exact .inl ⟨hidle, rfl⟩
    · exact .inr rfl
  · cases h

/-- The moves of the stop. -/
inductive StopMove (T : BranchTree ι) (s : AsyncPipeline ι α) : AsyncPipeline ι α → Prop
  | clear : s.stopPc = .stopping [] → StopMove T s { s with stopPc := .clearing T.ids }
  | ask (b : ι) (todo : List ι) : s.stopPc = .stopping (b :: todo) →
      (s.threads b).isRunning = true →
      StopMove T s
        { s.setThread b { s.threads b with needStop := true } with stopPc := .joining b todo }
  | pass (b : ι) (todo : List ι) : s.stopPc = .stopping (b :: todo) →
      (s.threads b).isRunning = false → StopMove T s { s with stopPc := .stopping todo }
  | join (b : ι) (todo : List ι) : s.stopPc = .joining b todo → (s.threads b).pc = .exited →
      StopMove T s { s.setThread b (s.threads b).joined with stopPc := .emptying b todo }
  | empty (b : ι) (todo : List ι) : s.stopPc = .emptying b todo →
      StopMove T s { s.setThread b (s.threads b).resetData with stopPc := .resetting b todo }
  | drop (b : ι) (todo : List ι) : s.stopPc = .resetting b todo →
      StopMove T s { s.setThread b (s.threads b).dropExceptions with stopPc := .releasing b todo }
  | release (b : ι) (todo : List ι) : s.stopPc = .releasing b todo →
      StopMove T s
        { s.setThread b { s.threads b with isRunning := false } with stopPc := .released b todo }
  | leave (b : ι) (todo : List ι) : s.stopPc = .released b todo →
      StopMove T s
        { s.setThread b { s.threads b with needStop := false } with stopPc := .stopping todo }
  | cleared : s.stopPc = .clearing [] → StopMove T s { s with stopPc := .joinPool }
  | reset (b : ι) (todo : List ι) : s.stopPc = .clearing (b :: todo) →
      StopMove T s { s.setEntry b ⟨none, .finished⟩ with stopPc := .clearing todo }
  | done : s.stopPc = .joinPool → s.poolPc = .exited →
      StopMove T s
        { s with poolPc := .notRunning, isRunning := false, needStop := false, stopPc := .idle }

/-- Each step of a stop is one of its moves. -/
theorem stopMove_of_stopperStep {T : BranchTree ι} {s s' : AsyncPipeline ι α}
    (h : s.stopperStep T = some s') : StopMove T s s' := by
  unfold stopperStep at h
  split at h
  · cases h
  · rename_i hpc
    cases h
    exact .clear hpc
  · rename_i b todo hpc
    split at h <;> rename_i hrun <;> cases h
    · exact .ask b todo hpc hrun
    · exact .pass b todo hpc (by simpa using hrun)
  · rename_i b todo hpc
    split at h <;> rename_i hexited <;> cases h
    exact .join b todo hpc hexited
  · rename_i b todo hpc
    cases h
    exact .empty b todo hpc
  · rename_i b todo hpc
    cases h
    exact .drop b todo hpc
  · rename_i b todo hpc
    cases h
    exact .release b todo hpc
  · rename_i b todo hpc
    cases h
    exact .leave b todo hpc
  · rename_i hpc
    cases h
    exact .cleared hpc
  · rename_i b todo hpc
    cases h
    exact .reset b todo hpc
  · rename_i hpc
    split at h <;> rename_i hexited <;> cases h
    exact .done hpc hexited

theorem frame_of_stopperStep {T : BranchTree ι} {s s' : AsyncPipeline ι α}
    (h : s.stopperStep T = some s') :
    s'.published = s.published ∧ s'.finishFailures = s.finishFailures := by
  cases stopMove_of_stopperStep h <;> exact ⟨rfl, rfl⟩

/-- Each step of the pool thread has one of its effects. -/
theorem effect_of_poolStep {policy : PipelineSyncPolicy} {T : BranchTree ι}
    {s s' : AsyncPipeline ι α} (h : s.poolStep policy T = some s') :
    Effect policy T s .pool s' := by
  unfold poolStep at h
  split at h
  · cases h
  · cases h
  · rename_i hpc
    split at h <;> rename_i hstop <;> cases h
    · exact .poolMove _ (.leave hpc hstop)
    · exact .poolMove _ (.iterate hpc (by simpa using hstop))
  · rename_i hpc
    cases h
    exact .poolMove _ (.checked hpc)
  · rename_i b todo hpc
    split at h <;> rename_i hempty <;> cases h
    · exact .poolMove _ (.clean b todo hpc (by simpa using hempty))
    · exact .poolMove _ (.dirty b todo hpc (by simpa using hempty))
  · rename_i b todo hpc
    cases h
    exact .poolMove _ (.copied b todo hpc)
  · rename_i b todo hpc
    cases h
    exact .poolMove _ (.rethrown b todo hpc)
  · rename_i b copies todo hpc
    cases h
    exact .handled b copies todo hpc
  · cases h
    exact .aborts
  · rename_i b todo hpc
    cases h
    exact .poolMove _ (.measured b todo hpc)
  · rename_i b size todo hpc
    unfold ThreadPoolWorker.resetExceptions at h
    split at h
    · cases h
      exact .aborts
    · rename_i w hw
      split at hw <;> cases hw
      cases h
      exact .trimmed b size todo hpc (by omega)
  · rename_i ready hpc
    cases h
    exact .poolMove _ (.done ready hpc)
  · rename_i b todo ready hpc
    split at h
    · cases h
      exact .poolMove _ (.skipped b todo ready hpc)
    · rename_i x hx
      cases h
      obtain ⟨hentry, hready⟩ := readyData_eq_some_iff.mp hx
      exact .started b x todo ready hpc hentry hready
  · rename_i b todo ready hpc
    cases h
    exact .marked b todo ready hpc

/-- Each step of a worker has one of its effects. -/
theorem effect_of_workerStep {policy : PipelineSyncPolicy} {T : BranchTree ι} {b : ι}
    {s s' : AsyncPipeline ι α} (h : s.workerStep policy T b = some s') :
    Effect policy T s (.worker b) s' := by
  unfold workerStep at h
  simp only at h
  split at h
  · cases h
  · cases h
  · cases h
  · rename_i hpc
    obtain ⟨w', hw, hs⟩ := Option.map_eq_some_iff.mp h
    unfold ThreadPoolWorker.takeData at hw
    split at hw
    · rename_i hstop
      cases hw
      cases hs
      exact .leaves b hpc hstop
    · split at hw
      · cases hw
      · rename_i x rest hdata
        cases hw
        cases hs
        exact .takes b x rest hpc hdata
  · rename_i x hpc
    split at h <;> rename_i hstop <;> cases h
    · exact .skips b x hpc hstop
    · exact .enters b x hpc (by simpa using hstop)
  · rename_i x hpc
    split at h
    · cases h
    · rename_i hguard
      cases h
      have hg : s.guardHeld = false := by simpa using hguard
      unfold onFinished
      simp only
      split
      · rename_i output hout
        exact .finishes b x output hpc hg hout
      · rename_i e hout
        exact .fails b x e hpc hg hout
  · rename_i e hpc
    cases h
    exact .records b e hpc

/-- Every step of the machine has one of the listed effects, and starts before any
`std::terminate`. -/
theorem effect_of_step {policy : PipelineSyncPolicy} {T : BranchTree ι}
    {s s' : AsyncPipeline ι α} {l : AsyncLabel ι α} (h : step policy T s l = some s') :
    Effect policy T s l s' := by
  unfold step at h
  split at h
  · cases h
  cases l with
  | run =>
    simp only [run] at h
    split at h
    · cases h
    · rename_i hr
      cases h
      exact .run (by simpa using hr)
  | addProcessData data =>
    simp only at h
    split at h
    · cases h
    · rename_i hg
      cases h
      have hg : s.guardHeld = false := by simpa using hg
      unfold addProcessData
      split
      · rename_i hst
        exact .refused data hg hst
      · rename_i hst
        exact .accepted data hg (by simpa using hst)
  | pool => exact effect_of_poolStep h
  | worker b => exact effect_of_workerStep h
  | processed b result =>
    simp only [processed] at h
    split at h
    · rename_i x y hpc
      cases h
      exact .returned b x y hpc
    · rename_i x e hpc
      cases h
      exact .threw b x e hpc
    · cases h
  | stop => exact .stop s' h
  | stopper => exact .stopper s' h

end AsyncPipeline

end Seekira.Model
