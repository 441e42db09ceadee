import Seekira.Analysis.AsyncDelivery
import Seekira.Model.PipelineCallers

/-!
# Starting a pipeline on demand

Between the check in `ThreadPool::run` and the moment its running flag is set, a
second caller passes the same check.  Both then create a pool thread, and the second
one is assigned over the first.  As long as no caller passes the check while another
one is between it and the flag, exactly one thread is created.
-/

set_option autoImplicit false

namespace Seekira.Model.PipelineCallers

open Library

variable {η ι α : Type} [DecidableEq η] [DecidableEq ι] {policy : PipelineSyncPolicy}
  {T : BranchTree ι} {s s' : PipelineCallers η ι α}

/-- The caller has passed the check of `run` and not created its thread yet. -/
def Committed : CallerPc α → Prop
  | .resetting _ | .creating _ => True
  | _ => False

/-- The caller is between the check of `run` and the setting of the running flag. -/
def InsideRun : CallerPc α → Prop
  | .resetting _ | .creating _ | .raising _ => True
  | _ => False

/-- The caller knows the pool to be running. -/
def PastStart : CallerPc α → Prop
  | .adding _ | .returned => True
  | _ => False

theorem Committed.inside {pc : CallerPc α} (h : Committed pc) : InsideRun pc := by
  cases pc <;> first | exact h | exact h.elim

/-- One pool thread at most, none assigned over another, and one as soon as a call has come past
the start. -/
structure StartedOnce (s : PipelineCallers η ι α) : Prop where
  kept : s.overwritten = false
  atMost : s.created ≤ 1
  atLeast : ∀ i, PastStart (s.callers i) → s.created = 1

/-- When the step is a caller's that passes the check of `run`, no caller is past it already and
before the flag. -/
def EntersAlone (s : PipelineCallers η ι α) (l : CallerLabel η ι α) : Prop :=
  ∀ i data, l = .caller i → s.callers i = .entering data → s.pipeline.isRunning = false →
    ∀ j, ¬InsideRun (s.callers j)

/-! ## Steps of the pipeline itself -/

theorem notRunning_of_poolMove {p : AsyncPipeline ι α} {pc : PoolPc ι}
    (h : AsyncPipeline.PoolMove policy T p pc) : p.poolPc ≠ .notRunning ∧ pc ≠ .notRunning := by
  cases h <;> simp_all

/-- Apart from a stop, the steps of the pipeline neither start nor end the pool. -/
theorem frame_of_effect {p p' : AsyncPipeline ι α} {l : AsyncLabel ι α} (hcalm : p.stopPc = .idle)
    (hstop : l ≠ .stop) (hrun : l ≠ .run) (h : AsyncPipeline.Effect policy T p l p') :
    p'.isRunning = p.isRunning ∧ p'.stopPc = .idle ∧
      (p'.poolPc = .notRunning ↔ p.poolPc = .notRunning) := by
  cases h with
  | run _ => exact absurd rfl hrun
  | poolMove pc hmove =>
    obtain ⟨hbefore, hafter⟩ := notRunning_of_poolMove hmove
    exact ⟨rfl, hcalm, fun h => absurd h hafter, fun h => absurd h hbefore⟩
  | handled b copies todo hpc => exact ⟨rfl, hcalm, nofun, fun h => nomatch hpc.symm.trans h⟩
  | trimmed b size todo hpc _ => exact ⟨rfl, hcalm, nofun, fun h => nomatch hpc.symm.trans h⟩
  | started b x todo ready hpc _ _ => exact ⟨rfl, hcalm, nofun, fun h => nomatch hpc.symm.trans h⟩
  | marked b todo ready hpc => exact ⟨rfl, hcalm, nofun, fun h => nomatch hpc.symm.trans h⟩
  | stop p' _ => exact absurd rfl hstop
  | stopper p' hs => simp [AsyncPipeline.stopperStep, hcalm] at hs
  | _ => exact ⟨rfl, hcalm, Iff.rfl⟩

theorem frame_of_addProcessData (T : BranchTree ι) (data : Option α) (p : AsyncPipeline ι α) :
    (p.addProcessData T data).isRunning = p.isRunning ∧
      (p.addProcessData T data).stopPc = p.stopPc ∧ (p.addProcessData T data).poolPc = p.poolPc := by
  unfold AsyncPipeline.addProcessData
  split <;> exact ⟨rfl, rfl, rfl⟩

/-! ## The steps of the callers -/

/-- The steps of the machine, by what they do. -/
inductive Move (policy : PipelineSyncPolicy) (T : BranchTree ι) (s : PipelineCallers η ι α) :
    CallerLabel η ι α → PipelineCallers η ι α → Prop
  | call (i : η) (data : Option α) : ¬InsideRun (s.callers i) →
      Move policy T s (.call i data) (s.setCaller i (.checking data))
  | sees (i : η) (data : Option α) : ¬InsideRun (s.callers i) → s.pipeline.isRunning = true →
      Move policy T s (.caller i) (s.setCaller i (.adding data))
  | enters (i : η) (data : Option α) : s.callers i = .checking data →
      Move policy T s (.caller i) (s.setCaller i (.entering data))
  | commits (i : η) (data : Option α) : s.callers i = .entering data →
      s.pipeline.isRunning = false →
      Move policy T s (.caller i) (s.setCaller i (.resetting data))
  | resets (i : η) (data : Option α) : s.callers i = .resetting data →
      Move policy T s (.caller i)
        { s.setCaller i (.creating data) with pipeline := { s.pipeline with needStop := false } }
  | creates (i : η) (data : Option α) : s.callers i = .creating data →
      s.pipeline.poolPc = .notRunning →
      Move policy T s (.caller i)
        { s.setCaller i (.raising data) with
          pipeline := { s.pipeline with poolPc := .loop }
          created := s.created + 1 }
  | overwrites (i : η) (data : Option α) : s.callers i = .creating data →
      s.pipeline.poolPc ≠ .notRunning →
      Move policy T s (.caller i)
        { s.setCaller i (.raising data) with
          pipeline := { s.pipeline with aborted := true }
          created := s.created + 1
          overwritten := true }
  | raises (i : η) (data : Option α) : s.callers i = .raising data →
      Move policy T s (.caller i)
        { s.setCaller i (.adding data) with pipeline := { s.pipeline with isRunning := true } }
  | adds (i : η) (data : Option α) : s.callers i = .adding data →
      Move policy T s (.caller i)
        { s.setCaller i .returned with pipeline := s.pipeline.addProcessData T data }
  | other (l : AsyncLabel ι α) (p : AsyncPipeline ι α) : l ≠ .run →
      AsyncPipeline.Effect policy T s.pipeline l p →
      Move policy T s (.other l) { s with pipeline := p }

/-- Each step of a caller is one of its moves. -/
theorem move_of_callerStep {i : η} (h : s.callerStep T i = some s') :
    Move policy T s (.caller i) s' := by
  unfold callerStep at h
  split at h
  · cases h
  · cases h
  · rename_i data hpc
    split at h <;> rename_i hrun <;> cases h
    · exact .sees i data (by simp [hpc, InsideRun]) hrun
    · exact .enters i data hpc
  · rename_i data hpc
    split at h <;> rename_i hrun <;> cases h
    · exact .sees i data (by simp [hpc, InsideRun]) hrun
    · exact .commits i data hpc (by simpa using hrun)
  · rename_i data hpc
    cases h
    exact .resets i data hpc
  · rename_i data hpc
    cases h
    unfold createThread
    split
    · rename_i hpool
      exact .creates i data hpc hpool
    · rename_i hpool
      exact .overwrites i data hpc hpool
  · rename_i data hpc
    cases h
    exact .raises i data hpc
  · rename_i data hpc
    split at h <;> cases h
    exact .adds i data hpc

/-- Each step is one of the moves. -/
theorem move_of_step {l : CallerLabel η ι α} (h : step policy T s l = some s') :
    Move policy T s l s' := by
  cases l with
  | call i data =>
    simp only [step] at h
    split at h
    · cases h
    · split at h <;> cases h
      · rename_i hpc
        exact .call i data (by simp [hpc, InsideRun])
      · rename_i hpc
        exact .call i data (by simp [hpc, InsideRun])
  | caller i =>
    simp only [step] at h
    split at h
    · cases h
    · exact move_of_callerStep h
  | other l =>
    simp only [step] at h
    split at h
    · cases h
    · cases h
    · rename_i hrun _
      obtain ⟨p, hp, rfl⟩ := Option.map_eq_some_iff.mp h
      exact .other l p hrun (AsyncPipeline.effect_of_step hp)

/-- A caller that goes through `run` undisturbed does what `AsyncPipeline.run` does in one step. -/
theorem exec_run {i : η} {data : Option α} (hpc : s.callers i = .entering data)
    (hpool : s.pipeline.poolPc = .notRunning) (haborted : s.pipeline.aborted = false)
    {p : AsyncPipeline ι α} (hrun : s.pipeline.run = some p) :
    ∃ s', (machine policy T).exec s (List.replicate 4 (.caller i)) = some s' ∧ s'.pipeline = p ∧
      s'.callers = Function.update s.callers i (.adding data) := by
  unfold AsyncPipeline.run at hrun
  split at hrun
  · cases hrun
  · rename_i hnot
    cases hrun
    simp [machine, Machine.exec, List.replicate, step, callerStep, setCaller, createThread, haborted,
      hpc, hnot, hpool]

/-! ## What holds in every run without a stop -/

/-- How the thread, the flag and the callers go together. -/
structure Consistent (s : PipelineCallers η ι α) : Prop where
  calm : s.pipeline.stopPc = .idle
  thread : s.pipeline.poolPc = .notRunning ↔ s.created = 0
  twice : 2 ≤ s.created → s.overwritten = true
  raising : ∀ i data, s.callers i = .raising data → 1 ≤ s.created
  running : s.pipeline.isRunning = true → 1 ≤ s.created
  past : ∀ i, PastStart (s.callers i) → s.pipeline.isRunning = true

omit [DecidableEq η] [DecidableEq ι] in

theorem Consistent.initial : Consistent (initial : PipelineCallers η ι α) := by
  refine ⟨rfl, ⟨fun _ => rfl, fun _ => rfl⟩, ?_, ?_, ?_, fun _ h => h.elim⟩
  · intro h
    cases h
  · intro i data h
    cases h
  · intro h
    cases h

omit [DecidableEq ι] in
/-- After a caller's move each caller stands where it moved to or where it was. -/
theorem callers_setCaller (P : CallerPc α → Prop) {i j : η} {pc : CallerPc α}
    (h : P ((s.setCaller i pc).callers j)) : j = i ∧ P pc ∨ j ≠ i ∧ P (s.callers j) := by
  by_cases hji : j = i
  · subst hji
    left
    exact ⟨rfl, by simpa [PipelineCallers.setCaller] using h⟩
  · right
    exact ⟨hji, by simpa [PipelineCallers.setCaller, hji] using h⟩

omit [DecidableEq ι] in
/-- A caller moves and nothing else changes. -/
theorem Consistent.setCaller (h : Consistent s) (i : η) {q : CallerPc α}
    (hraising : ∀ data, q ≠ .raising data) (hpast : PastStart q → s.pipeline.isRunning = true) :
    Consistent (s.setCaller i q) := by
  refine ⟨h.calm, h.thread, h.twice, fun j data hj => ?_, h.running, fun j hj => ?_⟩
  · rcases callers_setCaller (· = .raising data) hj with ⟨-, hpc⟩ | ⟨-, hj⟩
    · exact absurd hpc (hraising data)
    · exact h.raising j data hj
  · rcases callers_setCaller PastStart hj with ⟨-, hpc⟩ | ⟨-, hj⟩
    · exact hpast hpc
    · exact h.past j hj

/-- Every step but a stop keeps the callers consistent with the pool. -/
theorem Consistent.step {l : CallerLabel η ι α} (h : Consistent s) (hstop : l ≠ .other .stop)
    (hs : PipelineCallers.step policy T s l = some s') : Consistent s' := by
  cases move_of_step hs with
  | call i data _ => exact h.setCaller i nofun nofun
  | sees i data _ hrun => exact h.setCaller i nofun fun _ => hrun
  | enters i data _ => exact h.setCaller i nofun nofun
  | commits i data _ _ => exact h.setCaller i nofun nofun
  | resets i data _ =>
    have hmoved := h.setCaller i (q := .creating data) nofun nofun
    exact ⟨h.calm, h.thread, h.twice, hmoved.raising, h.running, hmoved.past⟩
  | creates i data _ hpool =>
    have hzero := h.thread.mp hpool
    refine ⟨h.calm, ⟨nofun, nofun⟩, fun htwo => ?_, fun _ _ _ => Nat.le_add_left 1 _,
      fun _ => Nat.le_add_left 1 _, fun j hj => ?_⟩
    · simp [hzero] at htwo
    · rcases callers_setCaller PastStart hj with ⟨-, hpc⟩ | ⟨-, hj⟩
      · exact hpc.elim
      · exact h.past j hj
  | overwrites i data _ hpool =>
    refine ⟨h.calm, ⟨fun hnone => absurd hnone hpool, nofun⟩, fun _ => rfl,
      fun _ _ _ => Nat.le_add_left 1 _, fun _ => Nat.le_add_left 1 _, fun j hj => ?_⟩
    rcases callers_setCaller PastStart hj with ⟨-, hpc⟩ | ⟨-, hj⟩
    · exact hpc.elim
    · exact h.past j hj
  | raises i data hpc =>
    refine ⟨h.calm, h.thread, h.twice, fun j data' hj => ?_, fun _ => h.raising i data hpc,
      fun _ _ => rfl⟩
    rcases callers_setCaller (· = .raising data') hj with ⟨-, hpc⟩ | ⟨-, hj⟩
    · cases hpc
    · exact h.raising j data' hj
  | adds i data hpc =>
    have hrunning : s.pipeline.isRunning = true := h.past i (by rw [hpc]; exact trivial)
    have hmoved := h.setCaller i (q := .returned) nofun fun _ => hrunning
    obtain ⟨hrun, hcalm, hthread⟩ := frame_of_addProcessData T data s.pipeline
    have hpool : (s.pipeline.addProcessData T data).poolPc = .notRunning ↔ s.created = 0 := by
      rw [hthread]
      exact h.thread
    exact ⟨hcalm.trans h.calm, hpool, h.twice, hmoved.raising, fun _ => h.running hrunning,
      fun _ _ => hrun.trans hrunning⟩
  | other l p hrun heffect =>
    obtain ⟨hsame, hcalm, hthread⟩ :=
      frame_of_effect h.calm (fun hl => hstop (congrArg _ hl)) hrun heffect
    refine ⟨hcalm, hthread.trans h.thread, h.twice, h.raising, fun hr => ?_, fun i hi => ?_⟩
    · exact h.running (hsame ▸ hr)
    · exact hsame.trans (h.past i hi)

/-! ## Callers that enter alone -/

/-- At most one caller is inside `run`, none once the flag is set, and the thread exists only with
the flag or with a caller about to set it. -/
structure Alone (s : PipelineCallers η ι α) : Prop where
  kept : s.overwritten = false
  unique : ∀ i j, InsideRun (s.callers i) → InsideRun (s.callers j) → i = j
  done : s.pipeline.isRunning = true → ∀ i, ¬InsideRun (s.callers i)
  fresh : ∀ i, Committed (s.callers i) → s.created = 0
  owned : 1 ≤ s.created → s.pipeline.isRunning = true ∨ ∃ i, InsideRun (s.callers i)

omit [DecidableEq η] [DecidableEq ι] in

theorem Alone.initial : Alone (initial : PipelineCallers η ι α) := by
  refine ⟨rfl, fun i j hi => hi.elim, fun _ i hi => hi, fun i hi => hi.elim, fun hcreated => ?_⟩
  cases hcreated

omit [DecidableEq η] [DecidableEq ι] in

/-- With one caller at a time inside `run` the pool is started once. -/
theorem Alone.startedOnce (h : Alone s) (hc : Consistent s) : StartedOnce s := by
  have hle : s.created ≤ 1 := by
    by_contra hlt
    have hover := hc.twice (by omega)
    rw [h.kept] at hover
    cases hover
  refine ⟨h.kept, hle, fun i hi => ?_⟩
  have hpos := hc.running (hc.past i hi)
  omega

omit [DecidableEq ι] in
/-- A caller outside `run` moves and stays outside. -/
theorem Alone.setCaller (h : Alone s) {i : η} {q : CallerPc α} (hbefore : ¬InsideRun (s.callers i))
    (hafter : ¬InsideRun q) : Alone (s.setCaller i q) := by
  have hinside : ∀ {j}, InsideRun ((s.setCaller i q).callers j) → InsideRun (s.callers j) := by
    intro j hj
    rcases callers_setCaller InsideRun hj with ⟨-, hpc⟩ | ⟨-, hj⟩
    · exact absurd hpc hafter
    · exact hj
  refine ⟨h.kept, fun j k hj hk => h.unique j k (hinside hj) (hinside hk),
    fun hrun j hj => h.done hrun j (hinside hj), fun j hj => ?_, fun hcreated => ?_⟩
  · rcases callers_setCaller Committed hj with ⟨-, hpc⟩ | ⟨-, hj⟩
    · exact absurd hpc.inside hafter
    · exact h.fresh j hj
  · refine (h.owned hcreated).imp_right fun ⟨j, hj⟩ => ⟨j, ?_⟩
    have hji : j ≠ i := by
      rintro rfl
      exact hbefore hj
    simpa [PipelineCallers.setCaller, hji] using hj

omit [DecidableEq ι] in
/-- The caller inside `run` moves and stays inside. -/
theorem Alone.setInside (h : Alone s) {i : η} {q : CallerPc α} (hbefore : InsideRun (s.callers i))
    (hafter : InsideRun q) (hfresh : Committed q → s.created = 0) : Alone (s.setCaller i q) := by
  have hinside : ∀ {j}, InsideRun ((s.setCaller i q).callers j) → InsideRun (s.callers j) := by
    intro j hj
    rcases callers_setCaller InsideRun hj with ⟨rfl, -⟩ | ⟨-, hj⟩
    · exact hbefore
    · exact hj
  refine ⟨h.kept, fun j k hj hk => h.unique j k (hinside hj) (hinside hk),
    fun hrun j hj => h.done hrun j (hinside hj), fun j hj => ?_, fun _ => .inr ⟨i, ?_⟩⟩
  · rcases callers_setCaller Committed hj with ⟨-, hpc⟩ | ⟨-, hj⟩
    · exact hfresh hpc
    · exact h.fresh j hj
  · simpa [PipelineCallers.setCaller] using hafter

/-- When the callers enter `run` one at a time, one at most is inside. -/
theorem Alone.step {l : CallerLabel η ι α} (h : Alone s) (hc : Consistent s)
    (hstop : l ≠ .other .stop) (hC : EntersAlone s l)
    (hs : PipelineCallers.step policy T s l = some s') : Alone s' := by
  cases move_of_step hs with
  | call i data hout => exact h.setCaller hout not_false
  | sees i data hout _ => exact h.setCaller hout not_false
  | enters i data hpc => exact h.setCaller (by simp [hpc, InsideRun]) not_false
  | commits i data hpc hrun =>
    have hnone := hC i data rfl hpc hrun
    have hzero : s.created = 0 := by
      by_contra hne
      rcases h.owned (by omega) with hr | ⟨j, hj⟩
      · rw [hrun] at hr
        cases hr
      · exact hnone j hj
    have hself : ∀ {j}, InsideRun ((s.setCaller i (.resetting data)).callers j) → j = i := by
      intro j hj
      rcases callers_setCaller InsideRun hj with ⟨hji, -⟩ | ⟨-, hj⟩
      · exact hji
      · exact absurd hj (hnone j)
    refine ⟨h.kept, fun j k hj hk => (hself hj).trans (hself hk).symm, fun hr => ?_,
      fun _ _ => hzero, fun hcreated => ?_⟩
    · exact absurd (hrun.symm.trans hr) Bool.noConfusion
    · exact absurd hzero (Nat.ne_of_gt hcreated)
  | resets i data hpc =>
    have hinside : InsideRun (s.callers i) := by
      rw [hpc]
      exact trivial
    have hzero := h.fresh i (by rw [hpc]; exact trivial)
    have hmoved := h.setInside (q := .creating data) hinside trivial fun _ => hzero
    exact ⟨hmoved.kept, hmoved.unique, hmoved.done, hmoved.fresh, hmoved.owned⟩
  | creates i data hpc hpool =>
    have hinside : InsideRun (s.callers i) := by
      rw [hpc]
      exact trivial
    have hmoved := h.setInside (q := .raising data) hinside trivial False.elim
    refine ⟨hmoved.kept, hmoved.unique, hmoved.done, fun j hj => ?_, fun _ => .inr ⟨i, ?_⟩⟩
    · -- the only caller inside has created its thread
      rcases callers_setCaller Committed hj with ⟨-, hpc'⟩ | ⟨hji, hj⟩
      · exact hpc'.elim
      · exact absurd (h.unique j i hj.inside hinside) hji
    · simp [PipelineCallers.setCaller, InsideRun]
  | overwrites i data hpc hpool =>
    have hzero := h.fresh i (by rw [hpc]; exact trivial)
    exact absurd (hc.thread.mpr hzero) hpool
  | raises i data hpc =>
    have hinside : InsideRun (s.callers i) := by
      rw [hpc]
      exact trivial
    have hnone : ∀ j, ¬InsideRun ((s.setCaller i (.adding data)).callers j) := by
      intro j hj
      rcases callers_setCaller InsideRun hj with ⟨-, hpc'⟩ | ⟨hji, hj⟩
      · exact hpc'
      · exact hji (h.unique j i hj hinside)
    exact ⟨h.kept, fun j _ hj => absurd hj (hnone j), fun _ => hnone,
      fun j hj => absurd hj.inside (hnone j), fun _ => .inl rfl⟩
  | adds i data hpc =>
    have hmoved := h.setCaller (i := i) (q := .returned) (by simp [hpc, InsideRun]) not_false
    obtain ⟨hrun, -, -⟩ := frame_of_addProcessData T data s.pipeline
    exact ⟨hmoved.kept, hmoved.unique, fun hr => hmoved.done (hrun ▸ hr), hmoved.fresh,
      fun hcreated => hrun ▸ hmoved.owned hcreated⟩
  | other l p hrun heffect =>
    obtain ⟨hsame, -, -⟩ :=
      frame_of_effect hc.calm (fun hl => hstop (congrArg _ hl)) hrun heffect
    exact ⟨h.kept, h.unique, fun hr => h.done (hsame ▸ hr), h.fresh,
      fun hcreated => (h.owned hcreated).imp_left fun hr => hsame.trans hr⟩

/-! ## Callers that do not -/

/-- Two threads have been created or are going to be. -/
def Doomed (s : PipelineCallers η ι α) : Prop :=
  2 ≤ s.created ∨ (1 ≤ s.created ∧ ∃ i, Committed (s.callers i)) ∨
    ∃ i j, i ≠ j ∧ Committed (s.callers i) ∧ Committed (s.callers j)

omit [DecidableEq ι] in
/-- A caller that is not committed moves: the committed ones stay. -/
theorem Doomed.setCaller (h : Doomed s) {i : η} {q : CallerPc α}
    (hi : Committed (s.callers i) → Committed q) : Doomed (s.setCaller i q) := by
  have hstays : ∀ {j}, Committed (s.callers j) → Committed ((s.setCaller i q).callers j) := by
    intro j hj
    by_cases hji : j = i
    · subst hji
      simpa [PipelineCallers.setCaller] using hi hj
    · simpa [PipelineCallers.setCaller, hji] using hj
  rcases h with htwo | ⟨hone, j, hj⟩ | ⟨j, k, hjk, hj, hk⟩
  · exact .inl htwo
  · exact .inr (.inl ⟨hone, j, hstays hj⟩)
  · exact .inr (.inr ⟨j, k, hjk, hstays hj, hstays hk⟩)

omit [DecidableEq ι] in
/-- A committed caller creates its thread. -/
theorem Doomed.create (h : Doomed s) {i : η} {q : CallerPc α} {s' : PipelineCallers η ι α}
    (hcallers : s'.callers = (s.setCaller i q).callers) (hcreated : s'.created = s.created + 1) :
    Doomed s' := by
  have hstays : ∀ {j}, j ≠ i → Committed (s.callers j) → Committed (s'.callers j) := by
    intro j hji hj
    rw [hcallers]
    simpa [PipelineCallers.setCaller, hji] using hj
  rcases h with htwo | ⟨hone, j, hj⟩ | ⟨j, k, hjk, hj, hk⟩
  · exact .inl (by omega)
  · exact .inl (by omega)
  · by_cases hji : j = i
    · subst hji
      exact .inr (.inl ⟨by omega, k, hstays (Ne.symm hjk) hk⟩)
    · exact .inr (.inl ⟨by omega, j, hstays hji hj⟩)

/-- A pool that was started twice stays so. -/
theorem Doomed.step {l : CallerLabel η ι α} (h : Doomed s)
    (hs : PipelineCallers.step policy T s l = some s') : Doomed s' := by
  cases move_of_step hs with
  | call i data hout => exact h.setCaller fun hi => absurd hi.inside hout
  | sees i data hout _ => exact h.setCaller fun hi => absurd hi.inside hout
  | enters i data hpc => exact h.setCaller (by simp [hpc, Committed])
  | commits i data _ _ => exact h.setCaller fun _ => trivial
  | resets i data _ => exact h.setCaller (q := .creating data) fun _ => trivial
  | creates i data _ _ => exact h.create (q := .raising data) rfl rfl
  | overwrites i data _ _ => exact h.create (q := .raising data) rfl rfl
  | raises i data hpc => exact h.setCaller (q := .adding data) (by simp [hpc, Committed])
  | adds i data hpc => exact h.setCaller (q := .returned) (by simp [hpc, Committed])
  | other l p _ _ => exact h

/-- A caller that enters while another one is inside `run`. -/
theorem doomed_of_not_entersAlone {l : CallerLabel η ι α} (hc : Consistent s)
    (hC : ¬EntersAlone s l) (hs : PipelineCallers.step policy T s l = some s') : Doomed s' := by
  unfold EntersAlone at hC
  simp only [Classical.not_imp, not_forall, not_not] at hC
  obtain ⟨i, data, rfl, hpc, hrun, j, hj⟩ := hC
  have hji : j ≠ i := by
    rintro rfl
    rw [hpc] at hj
    exact hj
  have hstays : ∀ pc, (s.setCaller i pc).callers j = s.callers j := fun pc => by
    simp [PipelineCallers.setCaller, hji]
  cases move_of_step hs with
  | sees _ _ _ hrun' => exact absurd (hrun.symm.trans hrun') Bool.noConfusion
  | enters _ _ hpc' => cases hpc.symm.trans hpc'
  | resets _ _ hpc' => cases hpc.symm.trans hpc'
  | creates _ _ hpc' _ => cases hpc.symm.trans hpc'
  | overwrites _ _ hpc' _ => cases hpc.symm.trans hpc'
  | raises _ _ hpc' => cases hpc.symm.trans hpc'
  | adds _ _ hpc' => cases hpc.symm.trans hpc'
  | commits _ data' _ _ =>
    have hi : Committed ((s.setCaller i (.resetting data')).callers i) := by
      simp [PipelineCallers.setCaller, Committed]
    rcases hcj : s.callers j with _ | _ | _ | _ | _ | d | _ | _ <;> rw [hcj] at hj
    case raising => exact .inr (.inl ⟨hc.raising j d hcj, i, hi⟩)
    case resetting =>
      refine .inr (.inr ⟨i, j, Ne.symm hji, hi, ?_⟩)
      rw [hstays, hcj]
      exact trivial
    case creating =>
      refine .inr (.inr ⟨i, j, Ne.symm hji, hi, ?_⟩)
      rw [hstays, hcj]
      exact trivial
    all_goals exact hj.elim

/-- With no stop: if every caller enters `run` alone, the pool thread is created exactly once and
never assigned over; and when no call was cut off inside `run`, only then. -/
theorem started_once_iff {tr : List (PipelineCallers η ι α × CallerLabel η ι α)}
    (h : (machine policy T).Run tr s) (hstop : ∀ p ∈ tr, p.2 ≠ .other .stop) :
    ((∀ p ∈ tr, EntersAlone p.1 p.2) → StartedOnce s) ∧
      ((∀ i, ¬InsideRun (s.callers i)) → StartedOnce s → ∀ p ∈ tr, EntersAlone p.1 p.2) := by
  have hinit : Consistent (initial : PipelineCallers η ι α) := Consistent.initial
  have hconsistent := h.invariant_of_guard (C := fun _ l => l ≠ .other .stop) hinit
    (fun _ _ _ hc hl hs => hc.step hl hs) hstop
  constructor
  · intro hC
    have halone : Consistent s ∧ Alone s :=
      h.invariant_of_guard (I := fun s => Consistent s ∧ Alone s)
        (C := fun s l => l ≠ .other .stop ∧ EntersAlone s l)
        ⟨hinit, Alone.initial⟩
        (fun _ _ _ hi hl hs => ⟨hi.1.step hl.1 hs, hi.2.step hi.1 hl.1 hl.2 hs⟩)
        fun p hp => ⟨hstop p hp, hC p hp⟩
    exact halone.2.startedOnce halone.1
  · intro hout honce p hp
    by_contra hnot
    have hsource := h.invariant_source_of_guard (C := fun _ l => l ≠ .other .stop) hinit
      (fun _ _ _ hc hl hs => hc.step hl hs) hstop p hp
    have hdoomed : Doomed s := h.of_mem (fun _ _ _ hd hs => hd.step hs) hp
      fun _ hs => doomed_of_not_entersAlone hsource hnot hs
    have htwo : 2 ≤ s.created := by
      rcases hdoomed with htwo | ⟨-, i, hi⟩ | ⟨i, -, -, hi, -⟩
      · exact htwo
      · exact absurd hi.inside (hout i)
      · exact absurd hi.inside (hout i)
    exact absurd (honce.kept.symm.trans (hconsistent.twice htwo)) Bool.noConfusion

/-! ### Two callers -/

/-- One caller brings an input and starts the pool; then the other brings one. -/
def oneAfterOther : List (CallerLabel Bool (Fin 3) Nat) :=
  .call false (some 10) :: List.replicate 6 (.caller false) ++
    [.call true (some 20), .caller true, .caller true]

/-- Both callers pass the check of `run` before one of them sets the flag. -/
def bothPass : List (CallerLabel Bool (Fin 3) Nat) :=
  [.call false (some 10), .call true (some 20), .caller false, .caller false, .caller true,
    .caller true, .caller false, .caller true, .caller false, .caller true]

/-- Two callers, one after the other. -/
theorem started_once_iff_fork :
    ∃ s : PipelineCallers Bool (Fin 3) Nat,
      (machine .parallelNoWait AsyncPipeline.forkTree).Run
        ((machine .parallelNoWait AsyncPipeline.forkTree).trace initial oneAfterOther) s ∧
      StartedOnce s ∧ s.created = 1 := by
  obtain ⟨s, -, hrun, hs⟩ := Machine.exists_run_of_exec
    (machine .parallelNoWait AsyncPipeline.forkTree) oneAfterOther
    (fun s => decide (s.created = 1)) (by decide +kernel)
  have hlabels : ∀ l ∈ oneAfterOther, l ≠ .other .stop := by simp [oneAfterOther]
  have hwaits : ((machine .parallelNoWait AsyncPipeline.forkTree).trace initial oneAfterOther).all
      (fun p => p.1.pipeline.isRunning || decide (p.1.callers true = .idle)) = true := by
    decide +kernel
  refine ⟨s, hrun, (started_once_iff hrun fun p hp =>
    hlabels _ (Machine.label_mem_of_trace hp)).1 fun p hp => ?_, of_decide_eq_true hs⟩
  intro i data _ hpc hnot j hj
  -- the other caller has not come while the pool does not run
  have hidle : p.1.callers true = .idle := by
    have hp := List.all_eq_true.mp hwaits p hp
    simpa [hnot] using hp
  rcases i with _ | _ <;> rcases j with _ | _
  · rw [hpc] at hj
    exact hj
  · rw [hidle] at hj
    exact hj
  · rw [hidle] at hpc
    cases hpc
  · rw [hidle] at hj
    exact hj

/-- The second thread is assigned over the first. -/
theorem started_twice :
    ¬∀ (tr : List (PipelineCallers Bool (Fin 3) Nat × CallerLabel Bool (Fin 3) Nat)) s,
      (machine .parallelNoWait AsyncPipeline.forkTree).Run tr s →
      (∀ p ∈ tr, p.2 ≠ .other .stop) → StartedOnce s := by
  intro hall
  obtain ⟨s, -, hrun, hs⟩ := Machine.exists_run_of_exec
    (machine .parallelNoWait AsyncPipeline.forkTree) bothPass
    (fun s => s.overwritten) (by decide +kernel)
  have hstop : ∀ p ∈ (machine .parallelNoWait AsyncPipeline.forkTree).trace initial bothPass,
      p.2 ≠ .other .stop := by
    intro p hp
    have hlabels : ∀ l ∈ bothPass, l ≠ .other .stop := by simp [bothPass]
    exact hlabels _ (Machine.label_mem_of_trace hp)
  have hkept := (hall _ s hrun hstop).kept
  rw [hs] at hkept
  cases hkept

end Seekira.Model.PipelineCallers
