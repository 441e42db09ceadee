import Mathlib.Data.Finset.Dedup
import Mathlib.Order.Filter.Finite
import Seekira.Analysis.AsyncExceptions
import Seekira.Analysis.AsyncHistory
import Seekira.Analysis.AsyncProgress

/-!
# The asynchronous pipeline finishes its work

In a fair execution that nobody stops, the pool thread comes round to every
branch again and again: it clears recorded exceptions and hands waiting items
over.  A branch whose entry is not filled any more therefore runs out of work, and
with its parent out of work the entry of a child is not filled any more.  From the
root downwards the whole pipeline drains once no further input is accepted, and
since an input is refused only while the root has one, the root becomes free
again after every input.
-/

set_option autoImplicit false

namespace Seekira.Model.AsyncPipeline

open Library Filter

variable {ι α : Type} [DecidableEq ι] {policy : PipelineSyncPolicy} {T : BranchTree ι}

/-- An execution of a pipeline that is run and not stopped, gets no null input, and whose threads
are scheduled fairly.  The pool thread never blocks; a worker waits for the table's guard, which
is free again and again. -/
structure Attended (ex : Execution (machine (α := α) policy T)) : Prop where
  stopFree : ∀ n, ex.label n ≠ some .stop
  nullFree : ∀ n, ex.label n ≠ some (.addProcessData none)
  started : ∃ n, ex.label n = some .run
  fairPool : ex.WeaklyFair {.pool}
  fairWorker : ∀ b ∈ T.ids, ex.StronglyFair (workerParty b)

namespace Attended

variable {ex : Execution (machine (α := α) policy T)} {b : ι} {N n : ℕ}

theorem effect {l : AsyncLabel ι α} (hl : ex.label n = some l) :
    Effect policy T (ex.state n) l (ex.state (n + 1)) :=
  effect_of_step (Execution.next_some hl)

/-- An attended pipeline is never stopped. -/
theorem unstopped (h : Attended ex) (n : ℕ) : (ex.state n).Unstopped := by
  refine ex.invariant_of_guard (C := fun _ l => l ≠ .stop ∧ l ≠ .addProcessData none)
    Unstopped.initial (fun s l s' hi hc hs => hi.step (effect_of_step hs) hc.1 hc.2)
    (fun n l hl => ⟨?_, ?_⟩) n
  · rintro rfl
    exact h.stopFree n hl
  · rintro rfl
    exact h.nullFree n hl

theorem not_stop (h : Attended ex) {l : AsyncLabel ι α} (hl : ex.label n = some l) :
    l ≠ .stop := by
  rintro rfl
  exact h.stopFree n hl

/-- From some moment on the pipeline runs. -/
theorem exists_running (h : Attended ex) : ∃ N, ∀ n ≥ N, (ex.state n).isRunning = true := by
  obtain ⟨N, hN⟩ := h.started
  have hrun : (ex.state (N + 1)).isRunning = true := by
    generalize hs : ex.state (N + 1) = s'
    have heff := effect hN
    rw [hs] at heff
    cases heff
    rfl
  refine ⟨N + 1, ex.eventually_of_stays (Q := fun s : AsyncPipeline ι α => s.isRunning = true)
    hrun fun m _ hm => ?_⟩
  cases hl : ex.label m with
  | none => rwa [Execution.next_none hl]
  | some l => exact (h.unstopped m).keeps_running (effect hl) (h.not_stop hl) hm

/-! ## The pool thread comes round -/

/-- The rank rule for the pool thread: its steps lead from `P` to `P`, not past the end of the
iteration, until `Q` comes. -/
theorem pool_leadsTo (h : Attended ex) (hab : ∀ n, (ex.state n).aborted = false)
    (hrun : ∀ n ≥ N, (ex.state n).isRunning = true) {P : PoolPc ι → Prop}
    {Q : AsyncPipeline ι α → Prop}
    (hpool : ∀ n ≥ N, P (ex.state n).poolPc → ex.label n = some .pool → ¬Q (ex.state (n + 1)) →
      P (ex.state (n + 1)).poolPc ∧ (ex.state (n + 1)).poolPc ≠ .loop)
    (hn : N ≤ n) (hP : P (ex.state n).poolPc) : ∃ m ≥ n, Q (ex.state m) := by
  have hframe : ∀ m ≥ N, ex.label m ≠ some .pool →
      (ex.state (m + 1)).poolPc = (ex.state m).poolPc := by
    intro m hm hne
    cases hl : ex.label m with
    | none => rw [Execution.next_none hl]
    | some l =>
      refine (h.unstopped m).pool_frame (effect hl) (h.not_stop hl) (hrun m hm) ?_
      rintro rfl
      exact hne hl
  have hlower : ∀ m ≥ N, P (ex.state m).poolPc → ex.label m = some .pool →
      ¬Q (ex.state (m + 1)) → (ex.state (m + 1)).poolPc.rank < (ex.state m).poolPc.rank := by
    intro m hm hPm hl hQ
    rcases (h.unstopped m).pool_rank (effect hl) with haborted | hloop | hlt
    · simp [hab] at haborted
    · exact absurd hloop (hpool m hm hPm hl hQ).2
    · exact hlt
  refine h.fairPool.leadsTo (P := fun s => P s.poolPc) (r := fun s => s.poolPc.rank) (N := N)
    (fun m hm _ => (h.unstopped m).pool_enabled (hrun m hm) (hab m))
    (fun m hm hPm hQ => ?_) (fun m hm hPm hmoves hQ => ?_) hn hP
  · by_cases hl : ex.label m = some .pool
    · exact ⟨(hpool m hm hPm hl hQ).1, (hlower m hm hPm hl hQ).le⟩
    · rw [hframe m hm hl]
      exact ⟨hPm, le_rfl⟩
  · obtain ⟨l, rfl, hl⟩ := hmoves
    exact hlower m hm hPm hl hQ

/-- The pool thread is at the head of its loop again and again. -/
theorem frequently_loop (h : Attended ex) (hab : ∀ n, (ex.state n).aborted = false) :
    ∃ᶠ n in atTop, (ex.state n).poolPc = .loop := by
  obtain ⟨N, hN⟩ := h.exists_running
  refine frequently_atTop.mpr fun n => ?_
  obtain ⟨m, hm, hloop⟩ := h.pool_leadsTo hab hN (P := fun _ => True)
    (Q := fun s => s.poolPc = .loop) (fun m _ _ _ hQ => ⟨trivial, hQ⟩) (le_max_left N n) trivial
  exact ⟨m, (le_max_right N n).trans hm, hloop⟩

/-- The exception loop has yet to look at branch `b`, or is about it. -/
def ToCheck (b : ι) : PoolPc ι → Prop
  | .loop => True
  | .checking todo => b ∈ todo
  | .handling c todo | .rethrowing c _ todo | .resetting c todo | .trimming c _ todo =>
    c = b ∨ b ∈ todo
  | _ => False

/-- The exceptions of every branch are cleared again and again. -/
theorem exists_cleared (h : Attended ex) (hab : ∀ n, (ex.state n).aborted = false)
    (hrun : ∀ n ≥ N, (ex.state n).isRunning = true) (hb : b ∈ T.ids) (hn : N ≤ n)
    (hloop : (ex.state n).poolPc = .loop) :
    ∃ m ≥ n, ((ex.state m).threads b).exceptionPtrs = [] := by
  refine h.pool_leadsTo hab hrun (P := ToCheck b)
    (Q := fun s => (s.threads b).exceptionPtrs = []) (fun m hm hP hl hQ => ?_) hn
    (by simp [hloop, ToCheck])
  have heff := effect hl
  have haborted := hab (m + 1)
  generalize ex.state (m + 1) = s' at heff haborted hQ ⊢
  cases heff with
  | poolMove pc hpc =>
    cases hpc with
    | leave _ hstop => simp [(h.unstopped m).calm.1] at hstop
    | iterate hs _ => exact ⟨T.mem_threadIds.mpr hb, by simp⟩
    | checked hs => simp [hs, ToCheck] at hP
    | clean c todo hs hclean =>
      simp only [hs, ToCheck, List.mem_cons] at hP ⊢
      rcases hP with rfl | hP
      · exact absurd hclean hQ
      · exact ⟨hP, by simp⟩
    | dirty c todo hs hdirty =>
      simp only [hs, ToCheck, List.mem_cons] at hP ⊢
      exact ⟨hP.imp_left Eq.symm, by simp⟩
    | copied c todo hs | rethrown c todo hs | measured c todo hs =>
      simp only [hs, ToCheck] at hP ⊢
      exact ⟨hP, by simp⟩
    | skipped c todo ready hs | done ready hs => simp [hs, ToCheck] at hP
  | aborts => simp at haborted
  | handled c copies todo hpc =>
    simp only [hpc, ToCheck] at hP ⊢
    exact ⟨hP, by simp⟩
  | trimmed c size todo hpc hsize =>
    simp only [hpc, ToCheck] at hP ⊢
    rcases hP with rfl | hP
    · simp at hQ
    · exact ⟨hP, by simp⟩
  | started c x todo ready hpc hd hready => simp [hpc, ToCheck] at hP
  | marked c todo ready hpc => simp [hpc, ToCheck] at hP

/-- The start loop has yet to come to branch `b`, with nothing in the way of starting it. -/
def ToStart (policy : PipelineSyncPolicy) (T : BranchTree ι) (b : ι) : PoolPc ι → Prop
  | .starting todo ready | .marking _ todo ready => b ∈ todo ∧ (policy = .parallelWait → b = T.root → ready = true)
  | .notRunning | .exited => False
  | _ => True

/-- The start loop starts a branch with a waiting item. -/
theorem running_of_start {s s' : AsyncPipeline ι α} {x : Item α} {todo : List ι} {ready : Bool}
    (hs : s.poolStep policy T = some s') (hpc : s.poolPc = .starting (b :: todo) ready)
    (hd : s.branchesData b = ⟨some x, .ready⟩)
    (hready : policy = .parallelWait → b = T.root → ready = true) :
    (s'.branchesData b).status = .running := by
  have hdata : s.readyData policy T ready b = some x := readyData_eq_some_iff.mpr ⟨hd, hready⟩
  simp only [poolStep, hpc, hdata, Option.some.injEq] at hs
  subst hs
  simp [startBranch]

/-- A waiting item of a branch is handed over, once nothing stays in the way of starting it. -/
theorem exists_not_ready (h : Attended ex) (hab : ∀ n, (ex.state n).aborted = false)
    (hrun : ∀ n ≥ N, (ex.state n).isRunning = true) (hb : b ∈ T.ids)
    (hready : ∀ n ≥ N, policy = .parallelWait → b = T.root →
      (ex.state n).readyForWaitIteration policy T = true) (hn : N ≤ n)
    (hloop : (ex.state n).poolPc = .loop) :
    ∃ m ≥ n, ((ex.state m).branchesData b).status ≠ .ready := by
  refine h.pool_leadsTo hab hrun (P := ToStart policy T b)
    (Q := fun s => (s.branchesData b).status ≠ .ready) (fun m hm hP hl hQ => ?_) hn
    (by simp [hloop, ToStart])
  have heff := effect hl
  have haborted := hab (m + 1)
  have hstep : (ex.state m).poolStep policy T = some (ex.state (m + 1)) := by
    simpa [machine, AsyncPipeline.step, hab] using Execution.next_some hl
  have hwait := hready m hm
  generalize ex.state (m + 1) = s' at heff haborted hQ hstep ⊢
  simp only [ne_eq, not_not] at hQ
  cases heff with
  | poolMove pc hpc =>
    cases hpc with
    | leave _ hstop => simp [(h.unstopped m).calm.1] at hstop
    | checked hs => exact ⟨⟨hb, hwait⟩, by simp⟩
    | skipped c todo ready hs =>
      simp only [hs, ToStart, List.mem_cons] at hP ⊢
      refine ⟨⟨hP.1.resolve_left ?_, hP.2⟩, by simp⟩
      rintro rfl
      -- a waiting item is not passed over
      obtain ⟨x, hx⟩ := Option.ne_none_iff_exists'.mp (((h.unstopped m).ready b).mp hQ)
      have hd : (ex.state m).branchesData b = ⟨some x, .ready⟩ := by rw [← hx, ← hQ]
      have hrunning := running_of_start hstep hs hd hP.2
      rw [hQ] at hrunning
      cases hrunning
    | done ready hs => simp [hs, ToStart] at hP
    | _ => exact ⟨trivial, by simp⟩
  | aborts => simp at haborted
  | handled c copies todo hpc => exact ⟨trivial, by simp⟩
  | trimmed c size todo hpc hsize => exact ⟨trivial, by simp⟩
  | started c x todo ready hpc hd hready =>
    simp only [hpc, ToStart, List.mem_cons] at hP ⊢
    refine ⟨⟨hP.1.resolve_left ?_, hP.2⟩, by simp⟩
    rintro rfl
    simp [startBranch] at hQ
  | marked c todo ready hpc =>
    simp only [hpc, ToStart] at hP ⊢
    exact ⟨hP, by simp⟩

/-! ## A branch whose entry is not filled any more -/

/-- A branch whose entry is not filled any more ends with an idle worker, and its entry waits for
ever or never again. -/
theorem settles (h : Attended ex) (hab : ∀ n, (ex.state n).aborted = false) (hb : b ∈ T.ids)
    (hfill : ∀ᶠ n in atTop, ∀ l, ex.label n = some l → ¬Fills T (ex.state n) l b) :
    (∀ᶠ n in atTop, ((ex.state n).threads b).load = 0) ∧
      ((∀ᶠ n in atTop, ((ex.state n).branchesData b).status = .ready) ∨
        ∀ᶠ n in atTop, ((ex.state n).branchesData b).status = .finished) := by
  obtain ⟨N₀, hN₀⟩ := eventually_atTop.mp hfill
  -- the rank of the branch falls, or its worker and the readiness of its entry stay
  have hstep : ∀ n ≥ N₀, (ex.state (n + 1)).rank b < (ex.state n).rank b ∨
      ((ex.state (n + 1)).threads b = (ex.state n).threads b ∧
        (((ex.state (n + 1)).branchesData b).status = .ready ↔
          ((ex.state n).branchesData b).status = .ready)) := by
    intro n hn
    cases hl : ex.label n with
    | none => simp [Execution.next_none hl]
    | some l => exact (h.unstopped n).rank_step (effect hl) (h.not_stop hl) (hN₀ n hn l hl)
  have hfalls : ∀ᶠ n in atTop, ¬(ex.state (n + 1)).rank b < (ex.state n).rank b := by
    refine not_frequently.mp (Execution.not_frequently_lt (f := fun n => (ex.state n).rank b)
      (N := N₀) fun n hn => ?_)
    rcases hstep n hn with hlt | ⟨hthread, hready⟩
    · exact hlt.le
    · exact le_of_eq (by simp only [rank, hthread, hready])
  obtain ⟨N₁, hrun⟩ := h.exists_running
  obtain ⟨N₂, hN₂⟩ := eventually_atTop.mp hfalls
  set N := max N₀ (max N₁ N₂) with hN
  have hsame : ∀ n ≥ N, (ex.state (n + 1)).threads b = (ex.state n).threads b ∧
      (((ex.state (n + 1)).branchesData b).status = .ready ↔
        ((ex.state n).branchesData b).status = .ready) := fun n hn =>
    (hstep n (by omega)).resolve_left (hN₂ n (by omega))
  have hthread : ∀ n ≥ N, (ex.state n).threads b = (ex.state N).threads b :=
    ex.eventually_of_stays (Q := fun s : AsyncPipeline ι α => s.threads b = (ex.state N).threads b)
      rfl fun n hn hq => (hsame n hn).1.trans hq
  have hstatus : ∀ n ≥ N, (((ex.state n).branchesData b).status = .ready ↔
      ((ex.state N).branchesData b).status = .ready) :=
    ex.eventually_of_stays (Q := fun s : AsyncPipeline ι α => (s.branchesData b).status = .ready ↔
      ((ex.state N).branchesData b).status = .ready) Iff.rfl fun n hn hq => (hsame n hn).2.trans hq
  -- the worker has stopped moving, so it is disabled even when the guard is free
  have hdisabled : ∀ᶠ n in atTop, ¬(machine policy T).Enabled (workerParty b) (ex.state n) := by
    refine (h.fairWorker b hb).eventually_disabled ?_
    filter_upwards [eventually_ge_atTop N] with n hn
    rintro ⟨l, hl, hlabel⟩
    exact hN₂ n (by omega) ((h.unstopped n).rank_worker (effect hlabel) hl)
  obtain ⟨n, hloop, hdis, hn⟩ :=
    ((h.frequently_loop hab).and_eventually (hdisabled.and (eventually_ge_atTop N))).exists
  obtain ⟨hdata, hbusy⟩ := (h.unstopped n).load_of_disabled (hab n)
    (by simp [guardHeld, hloop]) hdis
  obtain ⟨m, hm, hex⟩ := h.exists_cleared hab (N := N) (fun n hn => hrun n (by omega)) hb hn hloop
  rw [hthread n hn] at hdata hbusy
  rw [hthread m (hn.trans hm)] at hex
  have hload : ∀ n ≥ N, ((ex.state n).threads b).load = 0 := by
    intro n hn
    rw [hthread n hn]
    simp [ThreadPoolWorker.load, hdata, hbusy, hex]
  refine ⟨eventually_atTop.mpr ⟨N, hload⟩, ?_⟩
  by_cases hready : ((ex.state N).branchesData b).status = .ready
  · exact .inl (eventually_atTop.mpr ⟨N, fun n hn => (hstatus n hn).mpr hready⟩)
  · refine .inr (eventually_atTop.mpr ⟨N, fun n hn => ?_⟩)
    cases hd : ((ex.state n).branchesData b).status with
    | ready => exact absurd ((hstatus n hn).mp hd) hready
    | running => exact absurd (hload n hn) ((h.unstopped n).running b hd)
    | finished => rfl

/-- With nothing in the way of starting it, such a branch ends finished. -/
theorem finishes (h : Attended ex) (hab : ∀ n, (ex.state n).aborted = false) (hb : b ∈ T.ids)
    (hfill : ∀ᶠ n in atTop, ∀ l, ex.label n = some l → ¬Fills T (ex.state n) l b)
    (hwait : policy = .parallelWait → b = T.root →
      (∀ᶠ n in atTop, ((ex.state n).branchesData b).status = .ready) →
      ∀ᶠ n in atTop, (ex.state n).readyForWaitIteration policy T = true) :
    ∀ᶠ n in atTop, ((ex.state n).branchesData b).status = .finished ∧
      ((ex.state n).threads b).load = 0 := by
  obtain ⟨hload, hready | hfinished⟩ := h.settles hab hb hfill
  · exfalso
    obtain ⟨N₁, hrun⟩ := h.exists_running
    have hstart : ∃ N, ∀ n ≥ N, policy = .parallelWait → b = T.root →
        (ex.state n).readyForWaitIteration policy T = true := by
      by_cases hcond : policy = .parallelWait ∧ b = T.root
      · obtain ⟨N, hN⟩ := eventually_atTop.mp (hwait hcond.1 hcond.2 hready)
        exact ⟨N, fun n hn _ _ => hN n hn⟩
      · exact ⟨0, fun n _ hpolicy hroot => absurd ⟨hpolicy, hroot⟩ hcond⟩
    obtain ⟨N₂, hN₂⟩ := hstart
    obtain ⟨N₃, hN₃⟩ := eventually_atTop.mp hready
    set N := max N₁ (max N₂ N₃) with hN
    obtain ⟨n, hloop, hn⟩ := ((h.frequently_loop hab).and_eventually (eventually_ge_atTop N)).exists
    obtain ⟨m, hm, hnot⟩ := h.exists_not_ready hab (N := N) (fun n hn => hrun n (by omega)) hb
      (fun n hn => hN₂ n (by omega)) hn hloop
    exact hnot (hN₃ m (by omega))
  · exact hfinished.and hload

/-- With its parent's worker out of work, the entry of a child is not filled any more. -/
theorem not_fills_child (p : ι) (hchild : b ∈ T.childrenIds p)
    (hparent : ∀ᶠ n in atTop, ((ex.state n).threads p).load = 0) :
    ∀ᶠ n in atTop, ∀ l, ex.label n = some l → ¬Fills T (ex.state n) l b := by
  filter_upwards [hparent] with n hn l hl
  rintro ⟨-, hmem, -⟩
  cases l with
  | addProcessData d =>
    obtain rfl : b = T.root := by simpa [filled] using hmem
    exact T.root_not_child p hchild
  | worker q =>
    cases hpc : ((ex.state n).threads q).pc with
    | updating x =>
      have hq : b ∈ T.childrenIds q := by simpa [filled, hpc] using hmem
      obtain rfl := T.parent_unique p q b hchild hq
      exact updating_load hpc hn
    | _ => simp [filled, hpc] at hmem
  | _ => simp [filled] at hmem

/-- Below a root that is out of work every branch ends finished. -/
theorem finishes_below (h : Attended ex) (hab : ∀ n, (ex.state n).aborted = false)
    (hroot : ∀ᶠ n in atTop, ((ex.state n).threads T.root).load = 0) (hb : b ∈ T.ids) :
    (∀ᶠ n in atTop, ((ex.state n).threads b).load = 0) ∧
      (b ≠ T.root → ∀ᶠ n in atTop, ((ex.state n).branchesData b).status = .finished) := by
  refine T.induction_down (P := fun b => (∀ᶠ n in atTop, ((ex.state n).threads b).load = 0) ∧
    (b ≠ T.root → ∀ᶠ n in atTop, ((ex.state n).branchesData b).status = .finished))
    ⟨hroot, fun hne => absurd rfl hne⟩ (fun p c _ hchild hparent => ?_) hb
  have hfinished := h.finishes hab (T.children_mem p c hchild)
    (not_fills_child p hchild hparent.1)
    fun _ hc _ => absurd hc (T.ne_root_of_child hchild)
  exact ⟨hfinished.mono fun n hn => hn.2, fun _ => hfinished.mono fun n hn => hn.1⟩

/-- Once the pipeline accepts nothing more, the root's entry is not filled any more. -/
theorem not_fills_root (h : Attended ex)
    (hinputs : ∃ N, ∀ n ≥ N, (ex.state n).accepted = (ex.state N).accepted) :
    ∀ᶠ n in atTop, ∀ l, ex.label n = some l → ¬Fills T (ex.state n) l T.root := by
  obtain ⟨N, hN⟩ := hinputs
  filter_upwards [eventually_ge_atTop N] with n hn l hl
  rintro ⟨-, hmem, hst⟩
  have hsame : (ex.state (n + 1)).accepted = (ex.state n).accepted := by
    rw [hN n hn, hN (n + 1) (by omega)]
  have heff := effect hl
  generalize ex.state (n + 1) = s' at heff hsame
  cases heff with
  | refused d _ hrefused => exact hrefused hst
  | accepted d _ _ =>
    cases d with
    | none => exact h.nullFree n hl
    | some a => simp at hsame
  | takes q x rest hpc _ => simp [filled, hpc] at hmem
  | leaves q hpc _ => simp [filled, hpc] at hmem
  | skips q x hpc _ => simp [filled, hpc] at hmem
  | enters q x hpc _ => simp [filled, hpc] at hmem
  | finishes q x output hpc _ _ =>
    exact T.root_not_child q (by simpa [filled, hpc] using hmem)
  | fails q x e hpc _ _ => exact T.root_not_child q (by simpa [filled, hpc] using hmem)
  | records q e hpc => simp [filled, hpc] at hmem
  | _ => simp [filled] at hmem

/-- With all other branches finished, a waiting root is ready for an iteration. -/
theorem readyForWaitIteration_of_finished {s : AsyncPipeline ι α}
    (hroot : (s.branchesData T.root).status = .ready)
    (hothers : ∀ b ∈ T.ids, b ≠ T.root → (s.branchesData b).status = .finished) :
    s.readyForWaitIteration policy T = true := by
  unfold readyForWaitIteration
  split
  · refine List.all_eq_true.mpr fun b hb => ?_
    split
    · rename_i hbr
      simp [hbr, hroot]
    · rename_i hbr
      simpa using hothers b hb hbr
  · rfl

/-- Once the pipeline accepts nothing more, every branch ends finished. -/
theorem finishes_all (h : Attended ex) (hab : ∀ n, (ex.state n).aborted = false)
    (hinputs : ∃ N, ∀ n ≥ N, (ex.state n).accepted = (ex.state N).accepted) :
    ∀ᶠ n in atTop, ∀ b ∈ T.ids, ((ex.state n).branchesData b).status = .finished ∧
      ((ex.state n).threads b).load = 0 := by
  have hfill := h.not_fills_root hinputs
  have hroot := (h.settles hab T.root_mem hfill).1
  have hothers : ∀ᶠ n in atTop, ∀ b ∈ T.ids, b ≠ T.root →
      ((ex.state n).branchesData b).status = .finished ∧ ((ex.state n).threads b).load = 0 := by
    simp only [← List.mem_toFinset, eventually_all_finset]
    intro b hb
    obtain ⟨hload, hfinished⟩ := h.finishes_below hab hroot (List.mem_toFinset.mp hb)
    by_cases hbr : b = T.root
    · exact .of_forall fun n hne => absurd hbr hne
    · exact ((hfinished hbr).and hload).mono fun n hn _ => hn
  have hrootFinished := h.finishes hab T.root_mem hfill fun _ _ hready => by
    filter_upwards [hready, hothers] with n hn hall
    exact readyForWaitIteration_of_finished hn fun b hb hne => (hall b hb hne).1
  filter_upwards [hrootFinished, hothers] with n hn hall b hb
  by_cases hbr : b = T.root
  · subst hbr
    exact hn
  · exact hall b hb hbr

end Attended

/-! ## Draining and availability -/

/-- No branch has anything left to do. -/
def Drained (T : BranchTree ι) (s : AsyncPipeline ι α) : Prop :=
  ∀ b ∈ T.ids, s.branchesData b = ⟨none, .finished⟩ ∧ (s.threads b).data = [] ∧
    (s.threads b).busy = false ∧ (s.threads b).exceptionPtrs = []

omit [DecidableEq ι] in

/-- Branches that are finished and have nothing to do are drained. -/
theorem Unstopped.drained {s : AsyncPipeline ι α} (h : s.Unstopped)
    (hall : ∀ b ∈ T.ids, (s.branchesData b).status = .finished ∧ (s.threads b).load = 0) :
    Drained T s := by
  intro b hb
  obtain ⟨hfinished, hload⟩ := hall b hb
  have hdata : (s.branchesData b).dataToProcess = none := by
    by_contra hn
    have hready := (h.ready b).mpr hn
    rw [hfinished] at hready
    cases hready
  have hbusy : (s.threads b).busy = false := by
    by_contra hn
    simp [ThreadPoolWorker.load, hn] at hload
  simp only [ThreadPoolWorker.load, hbusy] at hload
  refine ⟨by rw [← hdata, ← hfinished], List.length_eq_zero_iff.mp (by omega), hbusy,
    List.length_eq_zero_iff.mp (by omega)⟩

/-- A pipeline that is run and not stopped, and that accepts only finitely many inputs, is drained
from some moment on, or the program has ended in `std::terminate`: nothing is left waiting,
queued, in the hands of a worker or recorded as an unhandled exception in any branch. -/
theorem eventually_drained {ex : Execution (machine (α := α) policy T)} (h : Attended ex)
    (hinputs : ∃ N, ∀ n ≥ N, (ex.state n).accepted = (ex.state N).accepted) :
    (∃ n, (ex.state n).aborted = true) ∨ ∀ᶠ n in atTop, Drained T (ex.state n) := by
  by_cases hab : ∃ n, (ex.state n).aborted = true
  · exact .inl hab
  · right
    have hall := h.finishes_all (fun n => by simpa using not_exists.mp hab n) hinputs
    exact hall.mono fun n hn => (h.unstopped n).drained hn

/-- Only `add_process_data` changes what was accepted, and it appends. -/
theorem accepted_step {s s' : AsyncPipeline ι α} {l : AsyncLabel ι α}
    (hs : Effect policy T s l s') : s.accepted <+: s'.accepted ∧
      (s'.accepted ≠ s.accepted → s.guardHeld = false ∧
        (s.branchesData T.root).status = .finished) := by
  cases hs with
  | accepted d hg hst => exact ⟨List.prefix_append _ _, fun _ => ⟨hg, hst⟩⟩
  | stop s' hstop =>
    rcases stop_cases hstop with ⟨-, rfl⟩ | rfl <;> simp
  | stopper s' hstop => cases stopMove_of_stopperStep hstop <;> simp
  | finishes b x output hpc hg hout => simp [AsyncPipeline.finishUpdate]
  | fails b x e hpc hg hout => simp [AsyncPipeline.finishUpdate]
  | _ => exact ⟨List.prefix_rfl, fun hne => absurd rfl hne⟩

theorem accepted_of_pool {s s' : AsyncPipeline ι α} (hs : Effect policy T s .pool s') :
    s'.accepted = s.accepted := by
  cases hs <;> rfl

namespace Attended

variable {ex : Execution (machine (α := α) policy T)}

/-- The accepted inputs only grow. -/
theorem accepted_prefix {m n : ℕ} (hmn : m ≤ n) :
    (ex.state m).accepted <+: (ex.state n).accepted := by
  induction n, hmn using Nat.le_induction with
  | base => exact List.prefix_rfl
  | succ n _ ih =>
    refine ih.trans ?_
    cases hl : ex.label n with
    | none => rw [Execution.next_none hl]
    | some l => exact (accepted_step (effect hl)).1

/-- The root is free again and again, at moments when nobody holds the guard. -/
theorem frequently_free (h : Attended ex) (hab : ∀ n, (ex.state n).aborted = false) :
    ∃ᶠ n in atTop, (ex.state n).guardHeld = false ∧
      ((ex.state n).branchesData T.root).status = .finished := by
  intro hnever
  -- then nothing more is accepted, and the pipeline drains
  obtain ⟨N, hN⟩ := eventually_atTop.mp hnever
  have hsame : ∀ n ≥ N, (ex.state n).accepted = (ex.state N).accepted := by
    refine ex.eventually_of_stays
      (Q := fun s : AsyncPipeline ι α => s.accepted = (ex.state N).accepted) rfl fun n hn hq => ?_
    cases hl : ex.label n with
    | none => rwa [Execution.next_none hl]
    | some l =>
      refine Eq.trans ?_ hq
      by_contra hne
      exact hN n hn ((accepted_step (effect hl)).2 hne)
  have hfinished := h.finishes_all hab ⟨N, hsame⟩
  obtain ⟨n, hloop, hall, hnot⟩ :=
    ((h.frequently_loop hab).and_eventually (hfinished.and hnever)).exists
  exact hnot ⟨by simp [guardHeld, hloop], (hall T.root T.root_mem).1⟩

end Attended

/-- A pipeline that is run and not stopped does not refuse inputs for ever: again and again the
root's entry is finished while nobody holds the guard, so that an input offered then is accepted,
or the program has ended in `std::terminate`. -/
theorem frequently_accepts {ex : Execution (machine (α := α) policy T)} (h : Attended ex)
    (a : α) :
    (∃ n, (ex.state n).aborted = true) ∨
      ∃ᶠ n in atTop, ∃ s', (machine policy T).step (ex.state n) (.addProcessData (some a)) = some s' ∧
        s'.accepted = (ex.state n).accepted ++ [⟨(ex.state n).accepted.length, a⟩] := by
  by_cases hab : ∃ n, (ex.state n).aborted = true
  · exact .inl hab
  · right
    have hruns : ∀ n, (ex.state n).aborted = false := fun n => by simpa using not_exists.mp hab n
    refine (h.frequently_free hruns).mono ?_
    rintro n ⟨hg, hst⟩
    refine ⟨_, by simp [machine, AsyncPipeline.step, hruns n, hg]; rfl, ?_⟩
    simp [AsyncPipeline.addProcessData, hst]

/-- With exceptions that are caught, the slots and the histories are right at all times. -/
theorem slots_history_catches {ex : Execution (machine (α := α) .parallelNoWait T)}
    (h : Attended ex) (hstd : ∀ n l, ex.label n = some l → ThrowsStd l) (n : ℕ) :
    (((ex.state n).Slots ∧ (ex.state n).Running) ∧ History T (ex.state n)) ∧
      (ex.state n).Catches := by
  refine ex.invariant_of_guard
    (I := fun s => ((s.Slots ∧ s.Running) ∧ History T s) ∧ s.Catches)
    (C := fun _ l => l ≠ .stop ∧ ThrowsStd l)
    ⟨⟨⟨.initial, .initial⟩, .initial⟩, .initial⟩ (fun s l s' hi hc hs => ?_)
    (fun n l hl => ⟨h.not_stop hl, hstd n l hl⟩) n
  have hquiet : Quiet .parallelNoWait T s l := ⟨hc.1, finishReturns_of_ne (by decide) s l⟩
  exact ⟨⟨quiet_step hi.1.1 hquiet hs, hi.1.2.step hi.1.1.1 (effect_of_step hs) hc.1⟩,
    hi.2.step hc.2 (hi.1.1.1.recordsInTime l) hs⟩

/-- Under `parallelNoWait`, with nodes that throw only what derives from `std::exception`, a
pipeline that is run and not stopped processes every input it accepts: whatever was accepted by a
moment, the root's worker has taken by a later one, in the same order. -/
theorem accepted_inputs_taken {ex : Execution (machine (α := α) .parallelNoWait T)}
    (h : Attended ex) (hstd : ∀ n l, ex.label n = some l → ThrowsStd l) (n : ℕ) :
    ∃ m ≥ n, (ex.state n).accepted <+: (ex.state m).taken T.root := by
  have hinv := slots_history_catches h hstd
  have hab : ∀ n, (ex.state n).aborted = false := fun n => (hinv n).2.runs
  obtain ⟨m, hm, hg, hst⟩ := (frequently_atTop.mp (h.frequently_free hab)) n
  obtain ⟨⟨⟨hslots, hrunning⟩, hist⟩, -⟩ := hinv m
  refine ⟨m, hm, (Attended.accepted_prefix hm).trans ?_⟩
  -- a free root owes nothing, so that everything accepted was handed over and taken
  have hload := hrunning.finished_load hslots hg hst
  have hpending : ((ex.state m).branchesData T.root).dataToProcess = none := by
    by_contra hn
    have hready := (hslots.slot T.root).data_ready hn
    rw [hst] at hready
    cases hready
  have hdata : ((ex.state m).threads T.root).data = [] := by
    simp only [ThreadPoolWorker.load] at hload
    exact List.length_eq_zero_iff.mp (by omega)
  have hkept := hist.kept
  rw [InputKept, hpending, hist.queued T.root, hdata] at hkept
  simp [hkept]

/-! ### A pipeline of three branches that works off one input -/

/-- Nothing is left to do, and the pool thread goes round. -/
structure Resting (s : AsyncPipeline ι α) : Prop where
  unstopped : s.Unstopped
  running : s.isRunning = true
  aborted : s.aborted = false
  idle : ∀ b, (s.branchesData b).status = .finished ∧ (s.threads b).load = 0
  pool : s.poolPc = .loop ∨ (∃ todo, s.poolPc = .checking todo) ∨
    ∃ todo ready, s.poolPc = .starting todo ready

/-- Away from the exceptions of a branch, no step of the pool thread ends the program. -/
theorem aborted_of_poolStep {s s' : AsyncPipeline ι α} (hs : s.poolStep policy T = some s')
    (hpool : s.poolPc = .loop ∨ (∃ todo, s.poolPc = .checking todo) ∨
      ∃ todo ready, s.poolPc = .starting todo ready) : s'.aborted = s.aborted := by
  rcases hpool with hpc | ⟨todo, hpc⟩ | ⟨todo, ready, hpc⟩
  · simp only [poolStep, hpc] at hs
    split at hs <;> cases hs <;> rfl
  · cases todo with
    | nil =>
      simp only [poolStep, hpc, Option.some.injEq] at hs
      rw [← hs]
    | cons b todo =>
      simp only [poolStep, hpc] at hs
      split at hs <;> cases hs <;> rfl
  · cases todo with
    | nil =>
      simp only [poolStep, hpc, Option.some.injEq] at hs
      rw [← hs]
    | cons b todo =>
      simp only [poolStep, hpc] at hs
      split at hs <;> cases hs <;> rfl

/-- At rest the pool thread goes round and changes nothing. -/
theorem Resting.exists_pool {s : AsyncPipeline ι α} (h : s.Resting) :
    ∃ s', (machine policy T).step s .pool = some s' ∧ s'.Resting := by
  obtain ⟨l, rfl, s', hs'⟩ :=
    (h.unstopped.pool_enabled h.running h.aborted : (machine policy T).Enabled {.pool} s)
  refine ⟨s', hs', ?_⟩
  have heff : Effect policy T s .pool s' := effect_of_step hs'
  have hun := h.unstopped.step heff (by simp) (by simp)
  have hrun := h.unstopped.keeps_running heff (by simp) h.running
  have hpool := h.pool
  have hab : s'.aborted = false := by
    rw [← h.aborted]
    have hs'' : s.poolStep policy T = some s' := by
      simpa [machine, AsyncPipeline.step, h.aborted] using hs'
    exact aborted_of_poolStep hs'' h.pool
  cases heff with
  | poolMove pc hpc =>
    refine ⟨hun, hrun, h.aborted, h.idle, ?_⟩
    cases hpc with
    | leave _ hstop => simp [h.unstopped.calm.1] at hstop
    | dirty b todo _ hex =>
      have hload := (h.idle b).2
      simp only [ThreadPoolWorker.load] at hload
      exact absurd (List.length_eq_zero_iff.mp (by omega)) hex
    | copied b todo hs | rethrown b todo hs | measured b todo hs => simp [hs] at hpool
    | _ => simp
  | aborts => cases hab
  | handled b copies todo hpc => simp [hpc] at hpool
  | trimmed b size todo hpc hsize => simp [hpc] at hpool
  | started b x todo ready hpc hd hready =>
    have hfinished := (h.idle b).1
    rw [hd] at hfinished
    cases hfinished
  | marked b todo ready hpc => simp [hpc] at hpool

/-- At rest no worker can make a step. -/
theorem Resting.disabled {s : AsyncPipeline ι α} (h : s.Resting) (b : ι) :
    ¬(machine policy T).Enabled (workerParty b) s := by
  rintro ⟨l, hl, s', hs'⟩
  have hload := (h.idle b).2
  have hrank : (s.threads b).rank = 0 ∧ (s.branchesData b).status ≠ .ready := by
    simp only [ThreadPoolWorker.load] at hload
    have hbusy : (s.threads b).busy = false := by
      by_contra hn
      simp [hn] at hload
    refine ⟨?_, by simp [(h.idle b).1]⟩
    have hpc : (s.threads b).pc.rank = 0 := by
      cases hpc : (s.threads b).pc <;> simp_all [ThreadPoolWorker.busy, WorkerPc.rank]
    simp only [ThreadPoolWorker.rank, hpc]
    omega
  have hlt := h.unstopped.rank_worker (effect_of_step hs') hl
  simp [rank, hrank] at hlt

/-- The root accepts an input, all branches work it off, and the pool thread returns to the head
of its loop. -/
def oneInput : List (AsyncLabel (Fin 3) Nat) :=
  siblingFinishes ++ finishOne (Fin.last 2) 13

/-- An execution that works off one input and then goes round for ever. -/
theorem exists_attended :
    ∃ ex : Execution (machine (α := Nat) .parallelNoWait forkTree), Attended ex ∧
      (∀ n, ex.label n = some (oneInput.getD n .pool)) ∧
      ∀ n ≥ oneInput.length, (ex.state n).Resting ∧ (ex.state n).accepted = [⟨0, 10⟩] := by
  obtain ⟨s, he, hrun, hs⟩ := Machine.exists_run_of_exec
    (machine (α := Nat) .parallelNoWait forkTree) oneInput
    (fun s => s.isRunning && !s.aborted && decide (s.poolPc = .loop) &&
      decide (s.accepted = [⟨0, 10⟩]) &&
      decide (∀ b, (s.branchesData b).status = .finished ∧ (s.threads b).load = 0))
    (by decide +kernel)
  simp only [Bool.and_eq_true, Bool.not_eq_true', decide_eq_true_eq] at hs
  obtain ⟨⟨⟨⟨hrunning, haborted⟩, hloop⟩, haccepted⟩, hidle⟩ := hs
  have hlabels : ∀ l ∈ oneInput, l ≠ .stop ∧ l ≠ .addProcessData none := by
    simp [oneInput, siblingFinishes, firstInput, poolSteps, finishOne]
  have hun : s.Unstopped := hrun.invariant_of_guard
    (C := fun _ l => l ≠ .stop ∧ l ≠ .addProcessData none) Unstopped.initial
    (fun s l s' hi hc hs => hi.step (effect_of_step hs) hc.1 hc.2)
    fun p hp => hlabels p.2 (Machine.label_mem_of_trace hp)
  have hrest : s.Resting := ⟨hun, hrunning, haborted, hidle, .inl hloop⟩
  obtain ⟨ex, hlabel, hresting⟩ := Execution.exists_of_exec
    (I := fun s => s.Resting ∧ s.accepted = [⟨0, 10⟩]) he ⟨hrest, haccepted⟩ fun s hs => by
      obtain ⟨s', hstep, hs'⟩ := hs.1.exists_pool
      exact ⟨s', hstep, hs', (accepted_of_pool (effect_of_step hstep)).trans hs.2⟩
  refine ⟨ex, ?_, hlabel, hresting⟩
  have hall : ∀ n, oneInput.getD n .pool ≠ .stop ∧ oneInput.getD n .pool ≠ .addProcessData none := by
    intro n
    rcases Nat.lt_or_ge n oneInput.length with hn | hn
    · rw [List.getD_eq_getElem _ _ hn]
      exact hlabels _ (List.getElem_mem hn)
    · rw [List.getD_eq_getElem?_getD, List.getElem?_eq_none hn]
      simp
  have hpool : ∀ n ≥ oneInput.length, ex.label n = some .pool := by
    intro n hn
    rw [hlabel, List.getD_eq_getElem?_getD, List.getElem?_eq_none hn, Option.getD_none]
  exact
    { stopFree := fun n => by simpa [hlabel] using (hall n).1
      nullFree := fun n => by simpa [hlabel] using (hall n).2
      started := ⟨0, by rw [hlabel]; rfl⟩
      fairPool := fun _ => frequently_atTop.mpr fun n =>
        ⟨max n oneInput.length, le_max_left _ _, .pool, rfl, hpool _ (le_max_right _ _)⟩
      fairWorker := fun b _ henabled => by
        obtain ⟨n, hn, hge⟩ :=
          (henabled.and_eventually (eventually_ge_atTop oneInput.length)).exists
        exact absurd hn ((hresting n hge).1.disabled b) }

/-- A root with two children is drained after one input. -/
theorem eventually_drained_fork :
    ∃ ex : Execution (machine (α := Nat) .parallelNoWait forkTree),
      (∃ n, (ex.state n).accepted = [⟨0, 10⟩]) ∧
      ((∃ n, (ex.state n).aborted = true) ∨ ∀ᶠ n in atTop, Drained forkTree (ex.state n)) := by
  obtain ⟨ex, h, -, hrest⟩ := exists_attended
  refine ⟨ex, ⟨_, (hrest _ le_rfl).2⟩, eventually_drained h ⟨oneInput.length, fun n hn => ?_⟩⟩
  rw [(hrest n hn).2, (hrest _ le_rfl).2]

/-- A root with two children accepts a further input after the first. -/
theorem frequently_accepts_fork :
    ∃ ex : Execution (machine (α := Nat) .parallelNoWait forkTree),
      (∃ n, (ex.state n).accepted = [⟨0, 10⟩]) ∧
      ((∃ n, (ex.state n).aborted = true) ∨ ∃ᶠ n in atTop, ∃ s',
        (machine .parallelNoWait forkTree).step (ex.state n) (.addProcessData (some 7)) = some s' ∧
          s'.accepted = (ex.state n).accepted ++ [⟨(ex.state n).accepted.length, 7⟩]) := by
  obtain ⟨ex, h, -, hrest⟩ := exists_attended
  exact ⟨ex, ⟨_, (hrest _ le_rfl).2⟩, frequently_accepts h 7⟩

/-- A root with two children takes the one input. -/
theorem accepted_inputs_taken_fork :
    ∃ ex : Execution (machine (α := Nat) .parallelNoWait forkTree),
      ∃ m, [⟨0, 10⟩] <+: (ex.state m).taken forkTree.root := by
  obtain ⟨ex, h, hlabel, hrest⟩ := exists_attended
  have hstd : ∀ l ∈ oneInput, ThrowsStd l := by
    simp [oneInput, siblingFinishes, firstInput, poolSteps, finishOne, ThrowsStd]
  obtain ⟨m, -, hm⟩ := accepted_inputs_taken h (fun n l hl => by
    rw [hlabel] at hl
    obtain rfl := Option.some.inj hl
    rcases Nat.lt_or_ge n oneInput.length with hn | hn
    · rw [List.getD_eq_getElem _ _ hn]
      exact hstd _ (List.getElem_mem hn)
    · rw [List.getD_eq_getElem?_getD, List.getElem?_eq_none hn]
      trivial) oneInput.length
  rw [(hrest _ le_rfl).2] at hm
  exact ⟨ex, m, hm⟩

end Seekira.Model.AsyncPipeline
