import Seekira.Analysis.AsyncDelivery

/-!
# Stopping a running pipeline

`ThreadPool::stop` stops the workers one after another, resets the entries of the
branches and only then waits for the pool thread, which may be in the middle of an
iteration.  What the pool thread hands to a worker before `stop_worker` has emptied
its queue is thrown away; what it hands over later starts the worker again.  In the
same way an input accepted after the root's entry was reset stays in it.

For each branch the stop passes through stages; the invariant says what each stage
guarantees of the branch's worker.
-/

set_option autoImplicit false

namespace Seekira.Model

open Library

variable {ι α : Type}

/-- How far the stop has come with the worker of a branch. -/
inductive StopStage where
  | untouched
  | joining
  /-- the thread is joined, the queue not emptied yet -/
  | emptying
  /-- the queue is empty, the worker still counts as running -/
  | emptied
  | passed
  deriving DecidableEq, Repr

namespace StopPc

variable [DecidableEq ι]

/-- The stage of branch `b`. -/
def stage (b : ι) : StopPc ι → StopStage
  | .idle => .untouched
  | .stopping todo => if b ∈ todo then .untouched else .passed
  | .joining c todo => if b = c then .joining else if b ∈ todo then .untouched else .passed
  | .emptying c todo => if b = c then .emptying else if b ∈ todo then .untouched else .passed
  | .resetting c todo | .releasing c todo =>
    if b = c then .emptied else if b ∈ todo then .untouched else .passed
  | .released c todo => if b = c then .passed else if b ∈ todo then .untouched else .passed
  | .clearing _ | .joinPool => .passed

/-- An item handed to the worker of `b` now is thrown away if a stop is under way. -/
def TakesBack (b : ι) (pc : StopPc ι) : Prop := pc.stage b ≠ .emptied ∧ pc.stage b ≠ .passed

/-- The entry of `b` is still to be reset if a stop is under way. -/
def ClearsLater (b : ι) : StopPc ι → Prop
  | .clearing todo => b ∈ todo
  | .joinPool => False
  | _ => True

theorem TakesBack.clearsLater {b : ι} {pc : StopPc ι} (h : pc.TakesBack b) : pc.ClearsLater b := by
  rcases pc with _ | _ | _ | _ | _ | _ | _ | _ | _
  case clearing => exact absurd rfl h.2
  case joinPool => exact absurd rfl h.2
  all_goals exact trivial

/-- The branches that the stop is not at are untouched or passed. -/
theorem At.stage_of_ne {pc : StopPc ι} {b c : ι} {todo : List ι} (h : pc.At b todo) (hc : c ≠ b) :
    pc.stage c = if c ∈ todo then .untouched else .passed := by
  cases h <;> simp [stage, hc]

omit [DecidableEq ι] in

theorem At.clearsLater {pc : StopPc ι} {b : ι} {todo : List ι} (h : pc.At b todo) (c : ι) :
    pc.ClearsLater c := by
  cases h <;> exact trivial

end StopPc

namespace ThreadPoolWorker

/-- What a stage of the stop guarantees of the worker. -/
def StageOk (stage : StopStage) (w : ThreadPoolWorker ι) : Prop :=
  match stage with
  | .untouched => w.isRunning = false → w.pc = .notStarted ∧ w.data = []
  | .joining => w.isRunning = true
  | .emptying => w.isRunning = true ∧ w.pc = .notStarted
  | .emptied => w.pc = .notStarted ∧ w.data = []
  | .passed => w.isRunning = false ∧ w.pc = .notStarted ∧ w.data = []

variable {stage : StopStage} {w w' : ThreadPoolWorker ι}

/-- Every stage guarantees what is asked of an untouched worker. -/
theorem StageOk.untouched (h : w.StageOk stage) : w.StageOk .untouched := by
  intro hrun
  cases stage with
  | untouched => exact h hrun
  | joining => exact absurd (h.symm.trans hrun) Bool.noConfusion
  | emptying => exact absurd (h.1.symm.trans hrun) Bool.noConfusion
  | emptied => exact h
  | passed => exact h.2

/-- A worker whose thread runs is not yet joined. -/
theorem StageOk.running (h : w.StageOk stage) (hpc : w.pc ≠ .notStarted) :
    (stage = .untouched ∨ stage = .joining) ∧ w.isRunning = true := by
  have hrun : w.isRunning = true := by
    by_contra hrun
    exact hpc (h.untouched (by simpa using hrun)).1
  cases stage with
  | untouched => exact ⟨.inl rfl, hrun⟩
  | joining => exact ⟨.inr rfl, hrun⟩
  | emptying => exact absurd h.2 hpc
  | emptied => exact absurd h.1 hpc
  | passed => exact absurd h.2.1 hpc

/-- A step of the worker's thread. -/
theorem StageOk.moved (h : w.StageOk stage) (hpc : w.pc ≠ .notStarted)
    (hrun : w'.isRunning = w.isRunning) : w'.StageOk stage := by
  obtain ⟨hstage, hrunning⟩ := h.running hpc
  rcases hstage with rfl | rfl
  · intro hrun'
    rw [hrun, hrunning] at hrun'
    cases hrun'
  · exact hrun.trans hrunning

/-- No stage asks about the recorded exceptions. -/
theorem StageOk.dropExceptions (h : w.StageOk stage) : w.dropExceptions.StageOk stage := by
  cases stage <;> exact h

/-- An item handed over while the queue is still to be emptied. -/
theorem StageOk.addData (h : w.StageOk stage) (hstage : stage ≠ .emptied ∧ stage ≠ .passed)
    (x : ι) : (w.addData x).StageOk stage := by
  have hrun : (w.addData x).isRunning = true := by
    unfold ThreadPoolWorker.addData runWorker
    split
    · rename_i hrun
      exact hrun
    · rfl
  cases stage with
  | untouched =>
    intro hrun'
    rw [hrun] at hrun'
    cases hrun'
  | joining => exact hrun
  | emptying =>
    refine ⟨hrun, ?_⟩
    unfold ThreadPoolWorker.addData runWorker
    rw [if_pos h.1]
    exact h.2
  | emptied => exact absurd rfl hstage.1
  | passed => exact absurd rfl hstage.2

end ThreadPoolWorker

namespace AsyncPipeline

variable [DecidableEq ι] {policy : PipelineSyncPolicy} {T : BranchTree ι}

/-- The step comes in time for a stop that is under way: the pool thread starts no branch whose
queue was emptied already, it marks no started branch whose entry was reset, and no input enters the
root's entry after it was reset. -/
structure StopsInTime (policy : PipelineSyncPolicy) (T : BranchTree ι) (s : AsyncPipeline ι α)
    (l : AsyncLabel ι α) : Prop where
  start : ∀ b x todo ready, l = .pool → s.poolPc = .starting (b :: todo) ready →
    s.branchesData b = ⟨some x, .ready⟩ → (policy = .parallelWait → b = T.root → ready = true) →
    s.stopPc.TakesBack b
  mark : ∀ b todo ready, l = .pool → s.poolPc = .marking b todo ready → s.stopPc.ClearsLater b
  input : ∀ data, l = .addProcessData data → (s.branchesData T.root).status = .finished →
    s.stopPc.ClearsLater T.root

/-- What a stop should leave behind. -/
structure Stopped (T : BranchTree ι) (s : AsyncPipeline ι α) : Prop where
  pool : s.poolPc = .notRunning
  worker : ∀ b ∈ T.ids, (s.threads b).isRunning = false ∧ (s.threads b).pc = .notStarted ∧
    (s.threads b).data = []
  entry : ∀ b ∈ T.ids, s.branchesData b = ⟨none, .finished⟩

/-- The stop is as far as its position says. -/
structure StopProgress (T : BranchTree ι) (s : AsyncPipeline ι α) : Prop where
  worker : ∀ b ∈ T.ids, (s.threads b).StageOk (s.stopPc.stage b)
  entry : ∀ b ∈ T.ids, ¬s.stopPc.ClearsLater b → s.branchesData b = ⟨none, .finished⟩
  /-- branches outside the tree are never used -/
  outside : ∀ b, b ∉ T.ids →
    (s.threads b).pc = .notStarted ∧ (s.branchesData b).dataToProcess = none

variable {s s' : AsyncPipeline ι α}

theorem StopProgress.initial : StopProgress T (initial : AsyncPipeline ι α) := by
  refine ⟨fun b _ => ?_, fun b _ h => absurd trivial h, fun b _ => ⟨rfl, rfl⟩⟩
  intro _
  exact ⟨rfl, rfl⟩

/-- A step that changes no worker, no entry and not the position of the stop. -/
theorem StopProgress.same (h : StopProgress T s) (hthreads : s'.threads = s.threads)
    (hentries : s'.branchesData = s.branchesData) (hstop : s'.stopPc = s.stopPc) :
    StopProgress T s' := by
  refine ⟨?_, ?_, ?_⟩
  · rw [hthreads, hstop]
    exact h.worker
  · rw [hentries, hstop]
    exact h.entry
  · rw [hthreads, hentries]
    exact h.outside

/-- A worker whose thread runs belongs to the tree. -/
theorem StopProgress.mem_ids (h : StopProgress T s) {b : ι} (hpc : (s.threads b).pc ≠ .notStarted) :
    b ∈ T.ids := by
  by_contra hb
  exact hpc (h.outside b hb).1

/-- While some worker's thread runs, all entries are still to be reset. -/
theorem StopProgress.clearsLater (h : StopProgress T s) {b : ι}
    (hpc : (s.threads b).pc ≠ .notStarted) (c : ι) : s.stopPc.ClearsLater c := by
  have hstage := ((h.worker b (h.mem_ids hpc)).running hpc).1
  rcases hstop : s.stopPc with _ | _ | _ | _ | _ | _ | _ | _ | _ <;> rw [hstop] at hstage
  case clearing => simp [StopPc.stage] at hstage
  case joinPool => simp [StopPc.stage] at hstage
  all_goals exact trivial

/-- One worker changes, and no entry. -/
theorem StopProgress.thread (h : StopProgress T s) {b : ι} {w : ThreadPoolWorker (Item α)}
    (hin : b ∈ T.ids → w.StageOk (s.stopPc.stage b)) (hout : b ∉ T.ids → w.pc = .notStarted)
    (hthreads : s'.threads = Function.update s.threads b w)
    (hentries : s'.branchesData = s.branchesData) (hstop : s'.stopPc = s.stopPc) :
    StopProgress T s' := by
  refine ⟨fun c hc => ?_, ?_, fun c hc => ?_⟩
  · rw [hthreads, hstop]
    by_cases hcb : c = b
    · subst hcb
      rw [Function.update_self]
      exact hin hc
    · rw [Function.update_of_ne hcb]
      exact h.worker c hc
  · rw [hentries, hstop]
    exact h.entry
  · rw [hthreads, hentries]
    refine ⟨?_, (h.outside c hc).2⟩
    by_cases hcb : c = b
    · subst hcb
      rw [Function.update_self]
      exact hout hc
    · rw [Function.update_of_ne hcb]
      exact (h.outside c hc).1

/-- The thread of a worker moves. -/
theorem StopProgress.worker_moved (h : StopProgress T s) {b : ι} {pc : WorkerPc (Item α)}
    (hpc : (s.threads b).pc = pc) (hne : pc ≠ .notStarted) {w : ThreadPoolWorker (Item α)}
    (hthreads : s'.threads = Function.update s.threads b w)
    (hrun : w.isRunning = (s.threads b).isRunning)
    (hentries : s'.branchesData = s.branchesData) (hstop : s'.stopPc = s.stopPc) :
    StopProgress T s' := by
  have hne : (s.threads b).pc ≠ .notStarted := hpc ▸ hne
  exact h.thread (fun hb => (h.worker b hb).moved hne hrun) (fun hb => absurd (h.mem_ids hne) hb)
    hthreads hentries hstop

/-- One entry changes, and no worker. -/
theorem StopProgress.setEntry (h : StopProgress T s) {b : ι} {d : BranchProcessData α}
    (hd : d = ⟨none, .finished⟩ ∨ s.stopPc.ClearsLater b)
    (hout : b ∉ T.ids → d.dataToProcess = none)
    (hthreads : s'.threads = s.threads)
    (hentries : s'.branchesData = Function.update s.branchesData b d)
    (hstop : s'.stopPc = s.stopPc) : StopProgress T s' := by
  refine ⟨?_, fun c hc hclear => ?_, fun c hc => ?_⟩
  · rw [hthreads, hstop]
    exact h.worker
  · rw [hstop] at hclear
    rw [hentries]
    by_cases hcb : c = b
    · subst hcb
      rw [Function.update_self]
      rcases hd with hd | hlater
      · exact hd
      · exact absurd hlater hclear
    · rw [Function.update_of_ne hcb]
      exact h.entry c hc hclear
  · rw [hthreads, hentries]
    refine ⟨(h.outside c hc).1, ?_⟩
    by_cases hcb : c = b
    · subst hcb
      rw [Function.update_self]
      exact hout hc
    · rw [Function.update_of_ne hcb]
      exact (h.outside c hc).2

/-- A worker whose `on_finished` updates the table is still to be joined, so that the entries it
fills are still to be reset. -/
theorem StopProgress.finishes (h : StopProgress T s) {b : ι} {x : Item α}
    (hpc : (s.threads b).pc = .updating x) {w : ThreadPoolWorker (Item α)}
    (hthreads : s'.threads = Function.update s.threads b w)
    (hrun : w.isRunning = (s.threads b).isRunning)
    (hentries : s'.branchesData = (s.finishUpdate T b x).branchesData)
    (hstop : s'.stopPc = s.stopPc) : StopProgress T s' := by
  have hmoved : StopProgress T { s with threads := Function.update s.threads b w } :=
    h.worker_moved hpc nofun rfl hrun rfl rfl
  refine ⟨?_, fun c hc hclear => ?_, fun c hc => ?_⟩
  · rw [hthreads, hstop]
    exact hmoved.worker
  · rw [hstop] at hclear
    exact absurd (h.clearsLater (b := b) (by simp [hpc]) c) hclear
  · rw [hthreads, hentries]
    refine ⟨(hmoved.outside c hc).1, ?_⟩
    rcases finishUpdate_entry T b x s c with ⟨-, hentry⟩ | ⟨-, hchild, -⟩ | ⟨-, hentry⟩
    · rw [hentry]
    · exact absurd (T.children_mem b c hchild) hc
    · rw [hentry]
      exact (h.outside c hc).2

/-- The stop moves on at the worker of one branch, which changes with its stage. -/
theorem StopProgress.advance (h : StopProgress T s) {b : ι} {todo : List ι}
    {w : ThreadPoolWorker (Item α)} {q : StopPc ι} (hfrom : s.stopPc.At b todo)
    (hto : q.At b todo) (hb : b ∈ T.ids → w.StageOk (q.stage b))
    (hout : b ∉ T.ids → w.pc = .notStarted) :
    StopProgress T ({ s.setThread b w with stopPc := q } : AsyncPipeline ι α) := by
  refine ⟨fun c hc => ?_, fun c _ hnot => absurd (hto.clearsLater c) hnot, fun c hc => ?_⟩
  · show (Function.update s.threads b w c).StageOk (q.stage c)
    by_cases hcb : c = b
    · subst hcb
      rw [Function.update_self]
      exact hb hc
    · rw [Function.update_of_ne hcb, hto.stage_of_ne hcb, ← hfrom.stage_of_ne hcb]
      exact h.worker c hc
  · refine ⟨?_, (h.outside c hc).2⟩
    show (Function.update s.threads b w c).pc = .notStarted
    by_cases hcb : c = b
    · subst hcb
      rw [Function.update_self]
      exact hout hc
    · rw [Function.update_of_ne hcb]
      exact (h.outside c hc).1

/-- All workers are passed, and the next entry is reset. -/
theorem StopProgress.clears (h : StopProgress T s) {b : ι} {todo : List ι}
    (hstop : s.stopPc = .clearing (b :: todo)) :
    StopProgress T { s.setEntry b ⟨none, .finished⟩ with stopPc := .clearing todo } := by
  have hentry : StopProgress T (s.setEntry b ⟨none, .finished⟩) :=
    h.setEntry (.inl rfl) (fun _ => rfl) rfl rfl rfl
  have hsame : (s.setEntry b ⟨none, .finished⟩).stopPc = .clearing (b :: todo) := hstop
  refine ⟨fun c hc => ?_, fun c hc hclear => ?_, hentry.outside⟩
  · have hworker := h.worker c hc
    rw [hstop] at hworker
    exact hworker
  · by_cases hcb : c = b
    · subst hcb
      simp
    · refine hentry.entry c hc fun hlater => hclear ?_
      rw [hsame] at hlater
      exact (List.mem_cons.mp hlater).resolve_left hcb

/-- The steps of a stop make the progress that is stated. -/
theorem StopProgress.stopper (h : StopProgress T s) (hs : s.stopperStep T = some s') :
    StopProgress T s' := by
  have hstage : ∀ (stage : StopStage) {b}, s.stopPc.stage b = stage → b ∈ T.ids →
      (s.threads b).StageOk stage := by
    rintro stage b rfl hb
    exact h.worker b hb
  have hidle : ∀ b, b ∉ T.ids → (s.threads b).pc = .notStarted := fun b hb => (h.outside b hb).1
  cases stopMove_of_stopperStep hs with
  | clear hstop =>
    refine ⟨fun b hb => ?_, fun b hb hclear => absurd hb hclear, h.outside⟩
    exact hstage .passed (by simp [hstop, StopPc.stage]) hb
  | ask b todo hstop hrun =>
    refine h.advance (hstop ▸ .stopping) .joining (fun _ => ?_) (hidle b)
    rw [StopPc.stage, if_pos rfl]
    exact hrun
  | pass b todo hstop hrun =>
    -- the worker does not change
    have hfrom : s.stopPc.At b todo := hstop ▸ .stopping
    have hpassed : b ∈ T.ids → (s.threads b).StageOk ((StopPc.stopping todo).stage b) := by
      intro hb
      have hquiet := hstage .untouched (by simp [hstop, StopPc.stage]) hb hrun
      rw [StopPc.stage]
      split
      · exact fun _ => hquiet
      · exact ⟨hrun, hquiet⟩
    have hskip := h.advance hfrom .past hpassed (hidle b)
    rwa [setThread, Function.update_eq_self] at hskip
  | join b todo hstop _ =>
    refine h.advance (hstop ▸ .joining) .emptying (fun hb => ?_) fun _ => rfl
    rw [StopPc.stage, if_pos rfl]
    exact ⟨hstage .joining (by simp [hstop, StopPc.stage]) hb, rfl⟩
  | empty b todo hstop =>
    refine h.advance (hstop ▸ .emptying) .resetting (fun hb => ?_) (hidle b)
    have hjoined := hstage .emptying (by simp [hstop, StopPc.stage]) hb
    rw [StopPc.stage, if_pos rfl]
    exact ⟨hjoined.2, rfl⟩
  | drop b todo hstop =>
    refine h.advance (hstop ▸ .resetting) .releasing (fun hb => ?_) (hidle b)
    rw [StopPc.stage, if_pos rfl]
    exact hstage .emptied (by simp [hstop, StopPc.stage]) hb
  | release b todo hstop =>
    refine h.advance (hstop ▸ .releasing) .released (fun hb => ?_) (hidle b)
    rw [StopPc.stage, if_pos rfl]
    exact ⟨rfl, hstage .emptied (by simp [hstop, StopPc.stage]) hb⟩
  | leave b todo hstop =>
    refine h.advance (hstop ▸ .released) .past (fun hb => ?_) (hidle b)
    have hpassed := hstage .passed (by simp [hstop, StopPc.stage]) hb
    rw [StopPc.stage]
    split
    · exact fun _ => hpassed.2
    · exact hpassed
  | cleared hstop =>
    refine ⟨fun b hb => ?_, fun b hb _ => ?_, h.outside⟩
    · exact hstage .passed (by simp [hstop, StopPc.stage]) hb
    · exact h.entry b hb (by simp [hstop, StopPc.ClearsLater])
  | reset b todo hstop => exact h.clears hstop
  | done hstop _ =>
    refine ⟨fun b hb => ?_, fun b _ hclear => absurd trivial hclear, h.outside⟩
    exact (hstage .passed (by simp [hstop, StopPc.stage]) hb).untouched

/-- A step that comes in time keeps the progress of the stop. -/
theorem StopProgress.step {l : AsyncLabel ι α} (h : StopProgress T s)
    (hC : StopsInTime policy T s l) (hs : AsyncPipeline.step policy T s l = some s') :
    StopProgress T s' := by
  cases effect_of_step hs with
  | run _ => exact h.same rfl rfl rfl
  | refused d _ _ => exact h
  | accepted d _ hfinished =>
    exact h.setEntry (.inr (hC.input d rfl hfinished)) (fun hout => absurd T.root_mem hout)
      rfl rfl rfl
  | poolMove pc _ => exact h.same rfl rfl rfl
  | aborts => exact h.same rfl rfl rfl
  | handled b copies todo _ => exact h.setEntry (.inl rfl) (fun _ => rfl) rfl rfl rfl
  | trimmed b size todo _ _ =>
    exact h.thread (fun hb => (h.worker b hb).dropExceptions) (fun hb => (h.outside b hb).1) rfl rfl rfl
  | started b x todo ready hpc hentry hready =>
    have htakes := hC.start b x todo ready rfl hpc hentry hready
    have hb : b ∈ T.ids := by
      by_contra hb
      have hnone := (h.outside b hb).2
      rw [hentry] at hnone
      cases hnone
    have hgiven : StopProgress T
        { s with threads := Function.update s.threads b ((s.threads b).addData x) } :=
      h.thread (fun hb => (h.worker b hb).addData htakes x) (fun hout => absurd hb hout) rfl rfl rfl
    exact hgiven.setEntry (.inr htakes.clearsLater) (fun _ => rfl) rfl rfl rfl
  | marked b todo ready hpc =>
    exact h.setEntry (.inr (hC.mark b todo ready rfl hpc)) (fun _ => rfl) rfl rfl rfl
  | takes b x rest hpc _ => exact h.worker_moved hpc nofun rfl rfl rfl rfl
  | leaves b hpc _ => exact h.worker_moved hpc nofun rfl rfl rfl rfl
  | skips b x hpc _ => exact h.worker_moved hpc nofun rfl rfl rfl rfl
  | enters b x hpc _ => exact h.worker_moved hpc nofun rfl rfl rfl rfl
  | finishes b x output hpc _ _ => exact h.finishes hpc rfl rfl rfl rfl
  | fails b x e hpc _ _ => exact h.finishes hpc rfl rfl rfl rfl
  | records b e hpc => exact h.worker_moved hpc nofun rfl rfl rfl rfl
  | returned b x y hpc => exact h.worker_moved hpc nofun rfl rfl rfl rfl
  | threw b x e hpc => exact h.worker_moved hpc nofun rfl rfl rfl rfl
  | stop s' hstop =>
    rcases stop_cases hstop with ⟨hidle, rfl⟩ | rfl
    · refine ⟨fun b hb => ?_, fun b _ hclear => absurd trivial hclear, h.outside⟩
      have hworker := h.worker b hb
      rw [hidle] at hworker
      simpa [StopPc.stage, T.mem_threadIds.mpr hb] using hworker
    · exact h
  | stopper s' hstop => exact h.stopper hstop

/-- When a stop returns in a run whose steps all came in time, the pool thread has ended, no worker
runs or holds an item, and every entry is empty and finished. -/
theorem stop_leaves_nothing {tr : List (AsyncPipeline ι α × AsyncLabel ι α)}
    (h : (machine policy T).Run tr s) (hC : ∀ p ∈ tr, StopsInTime policy T p.1 p.2)
    (hlast : s.stopPc = .joinPool) (hs : AsyncPipeline.step policy T s .stopper = some s') :
    Stopped T s' := by
  have hprogress : StopProgress T s :=
    h.invariant_of_guard (I := StopProgress T) StopProgress.initial
      (fun _ _ _ h hC hs => h.step hC hs) hC
  have hstep : s.stopperStep T = some s' := by
    unfold AsyncPipeline.step at hs
    split at hs
    · cases hs
    · exact hs
  simp only [stopperStep, hlast] at hstep
  split at hstep <;> cases hstep
  refine ⟨rfl, fun b hb => ?_, fun b hb => ?_⟩
  · have hworker := hprogress.worker b hb
    rw [hlast] at hworker
    exact hworker
  · exact hprogress.entry b hb (by simp [hlast, StopPc.ClearsLater])

/-! ### Stopping between iterations and inside one -/

/-- Without a stop under way, or while the pool thread is between two iterations and no input comes,
every step comes in time. -/
theorem StopsInTime.of_quiet {l : AsyncLabel ι α}
    (h : s.stopPc = .idle ∨ s.guardHeld = false ∧ ∀ data, l ≠ .addProcessData data) :
    StopsInTime policy T s l := by
  rcases h with hidle | ⟨hguard, hinput⟩
  · refine ⟨fun b x todo ready _ _ _ _ => ?_, fun b todo ready _ _ => ?_, fun data _ _ => ?_⟩
    · rw [hidle]
      exact ⟨nofun, nofun⟩
    · rw [hidle]
      exact trivial
    · rw [hidle]
      exact trivial
  · refine ⟨fun b x todo ready _ hpc _ _ => ?_, fun b todo ready _ hpc => ?_,
      fun data hl _ => absurd hl (hinput data)⟩
    · simp [guardHeld, hpc] at hguard
    · simp [guardHeld, hpc] at hguard

/-- The root is handed an input, the iteration ends, and the pipeline is stopped. -/
def stopBetween : List (AsyncLabel (Fin 3) Nat) :=
  [.run, .addProcessData (some 10)] ++ poolSteps 10 ++ [.stop, .stopper, .worker forkTree.root] ++
    List.replicate 12 .stopper ++ [.pool]

/-- The stop passes all workers while the pool thread is about to start the root. -/
def stopInside : List (AsyncLabel (Fin 3) Nat) :=
  [.run, .addProcessData (some 10)] ++ poolSteps 5 ++ [.stop] ++ List.replicate 4 .stopper ++
    poolSteps 5 ++ List.replicate 4 .stopper ++ [.pool]

/-- The stop takes the item back from the root's worker and resets the entries before the pool thread
has marked the root. -/
def stopBeforeMark : List (AsyncLabel (Fin 3) Nat) :=
  [.run, .addProcessData (some 10)] ++ poolSteps 6 ++ [.stop, .stopper, .worker forkTree.root] ++
    List.replicate 12 .stopper ++ poolSteps 5

/-- The write behind `add_data` overwrites the reset: the root stays marked running. -/
example : ((machine .parallelNoWait forkTree).exec initial stopBeforeMark).any (fun s =>
    decide (s.stopPc = .joinPool ∧ (s.threads 0).isRunning = false ∧
      s.branchesData 0 = ⟨none, .running⟩) &&
        (AsyncPipeline.step .parallelNoWait forkTree s .stopper).isSome) = true := by
  decide +kernel

/-- A stop between two iterations takes the item back. -/
theorem stop_leaves_nothing_fork :
    ∃ s s' : AsyncPipeline (Fin 3) Nat,
      (machine .parallelNoWait forkTree).Run ((machine .parallelNoWait forkTree).trace initial
        stopBetween) s ∧
      AsyncPipeline.step .parallelNoWait forkTree s .stopper = some s' ∧ Stopped forkTree s' := by
  obtain ⟨s, -, hrun, hs⟩ := Machine.exists_run_of_exec (machine .parallelNoWait forkTree) stopBetween
    (fun s => decide (s.stopPc = .joinPool) &&
      (AsyncPipeline.step .parallelNoWait forkTree s .stopper).isSome) (by decide +kernel)
  simp only [Bool.and_eq_true, decide_eq_true_eq] at hs
  obtain ⟨s', hlast⟩ := Option.isSome_iff_exists.mp hs.2
  have hquiet : ((machine .parallelNoWait forkTree).trace initial stopBetween).all (fun p =>
      decide (p.1.stopPc = .idle) || (!p.1.guardHeld && match p.2 with
        | .addProcessData _ => false
        | _ => true)) = true := by decide +kernel
  refine ⟨s, s', hrun, hlast, stop_leaves_nothing hrun (fun p hp => .of_quiet ?_) hs.1 hlast⟩
  have hp := List.all_eq_true.mp hquiet p hp
  simp only [Bool.or_eq_true, Bool.and_eq_true, decide_eq_true_eq, Bool.not_eq_true'] at hp
  refine hp.imp id fun h => ⟨h.1, fun data hdata => ?_⟩
  rw [hdata] at h
  cases h.2

/-- The pool thread starts the root after the stop has passed its worker, which goes on running. -/
theorem stop_leaves_worker :
    ¬∀ (tr : List (AsyncPipeline (Fin 3) Nat × AsyncLabel (Fin 3) Nat)) s s',
      (machine .parallelNoWait forkTree).Run tr s → s.stopPc = .joinPool →
      AsyncPipeline.step .parallelNoWait forkTree s .stopper = some s' → Stopped forkTree s' := by
  intro hall
  obtain ⟨s, -, hrun, hs⟩ := Machine.exists_run_of_exec (machine .parallelNoWait forkTree) stopInside
    (fun s => decide (s.stopPc = .joinPool) &&
      match AsyncPipeline.step .parallelNoWait forkTree s .stopper with
      | some s' => (s'.threads 0).isRunning
      | none => false) (by decide +kernel)
  simp only [Bool.and_eq_true, decide_eq_true_eq] at hs
  rcases hlast : AsyncPipeline.step .parallelNoWait forkTree s .stopper with _ | s'
  · rw [hlast] at hs
    cases hs.2
  · rw [hlast] at hs
    have hstopped := (hall _ s s' hrun hs.1 hlast).worker 0 (by decide)
    exact absurd (hs.2.symm.trans hstopped.1) Bool.noConfusion

end AsyncPipeline

end Seekira.Model
