import Mathlib.Data.List.Sublists
import Seekira.Analysis.AsyncDelivery

/-!
# The order in which branches process items

Under `parallelNoWait` a child that is busy misses results of its parent; apart
from that nothing is lost, repeated or reordered.  The history invariant relates
four sequences of every branch: what the pool thread handed to it, what its
worker took, what it reported and what its children were given.  Order and
absence of repetition then follow from the root downwards, because an item keeps
the number of the input it was computed from.
-/

set_option autoImplicit false

namespace Seekira.Model.AsyncPipeline

open Library

variable {ι α : Type} {T : BranchTree ι}

/-! ## The history invariant -/

/-- The item waiting in the entry of a branch. -/
def pending (s : AsyncPipeline ι α) (b : ι) : List (Item α) :=
  (s.branchesData b).dataToProcess.toList

/-- What happened in a run without `stop`. -/
structure History (T : BranchTree ι) (s : AsyncPipeline ι α) : Prop where
  numbered : s.accepted.map Item.input = List.range s.accepted.length
  kept : InputKept T s
  queued : ∀ b, s.handed b = s.taken b ++ (s.threads b).data
  fed : ∀ b c, c ∈ T.childrenIds b → List.Sublist (s.handed c ++ s.pending c) (s.outputs b)
  answered : ∀ b, List.Sublist ((s.outputs b ++ (s.threads b).inHand).map Item.input)
    ((s.taken b).map Item.input)

theorem History.initial : History T (initial : AsyncPipeline ι α) where
  numbered := rfl
  kept := rfl
  queued := fun _ => rfl
  fed := fun _ _ _ => List.Sublist.refl _
  answered := fun _ => List.Sublist.refl _

variable [DecidableEq ι] {policy : PipelineSyncPolicy}

/-- A worker's thread moves without touching its queue and without a new item in its hands. -/
theorem History.workerMove {s : AsyncPipeline ι α} (h : History T s) {b : ι}
    {w : ThreadPoolWorker (Item α)} (hdata : w.data = (s.threads b).data)
    (hhand : List.Sublist (w.inHand.map Item.input) ((s.threads b).inHand.map Item.input)) :
    History T ({ s with threads := Function.update s.threads b w } : AsyncPipeline ι α) where
  numbered := h.numbered
  kept := h.kept
  queued := by
    intro c
    by_cases hc : c = b
    · subst hc
      simpa [hdata] using h.queued c
    · simpa [Function.update_of_ne hc] using h.queued c
  fed := h.fed
  answered := by
    intro c
    by_cases hc : c = b
    · subst hc
      refine List.Sublist.trans ?_ (h.answered c)
      simpa only [List.map_append, Function.update_self] using (List.Sublist.refl _).append hhand
    · simpa [Function.update_of_ne hc] using h.answered c

/-- `on_finished` reports the item in hand and offers it to the children. -/
theorem History.finish {s : AsyncPipeline ι α} (h : History T s) (hslots : s.Slots) {b : ι}
    {x : Item α} {w : ThreadPoolWorker (Item α)} (hpc : (s.threads b).pc = .updating x)
    (hdata : w.data = (s.threads b).data) (hhand : w.inHand = []) :
    History T ({ s.finishUpdate T b x with threads := Function.update s.threads b w } :
      AsyncPipeline ι α) where
  numbered := h.numbered
  kept := h.kept.finishUpdate hslots hpc
  queued := by
    intro c
    by_cases hc : c = b
    · subst hc
      simpa [hdata] using h.queued c
    · simpa [Function.update_of_ne hc] using h.queued c
  fed := by
    intro p c hchild
    have hfed := h.fed p c hchild
    -- the outputs of `p` only grow
    have houtputs : List.Sublist (s.outputs p) ((s.finishUpdate T b x).outputs p) := by
      by_cases hp : p = b
      · subst hp
        simp
      · simp [Function.update_of_ne hp]
    rcases finishUpdate_entry T b x s c with ⟨-, hd⟩ | ⟨-, hcb, hst, hd⟩ | ⟨-, hd⟩
    · refine List.Sublist.trans ?_ (hfed.trans houtputs)
      simp only [pending, hd, Option.toList_none, List.append_nil]
      exact List.sublist_append_left _ _
    · obtain rfl := T.parent_unique p b c hchild hcb
      have hnone : (s.branchesData c).dataToProcess = none := by
        by_contra hn
        simp [(hslots.slot c).data_ready hn] at hst
      simp only [pending, hnone, Option.toList_none, List.append_nil] at hfed
      simpa only [pending, hd, finishUpdate_handed, finishUpdate_outputs, Function.update_self,
        Option.toList_some] using hfed.append (List.Sublist.refl [x])
    · simp only [pending, hd]
      exact hfed.trans houtputs
  answered := by
    intro c
    have hans := h.answered c
    by_cases hc : c = b
    · subst hc
      have hupd : (s.threads c).inHand = [x] := by simp [ThreadPoolWorker.inHand, hpc]
      simpa [hhand, hupd] using hans
    · simpa [Function.update_of_ne hc] using hans

/-- One step keeps the history invariant. -/
theorem History.step {s s' : AsyncPipeline ι α} {l : AsyncLabel ι α} (h : History T s)
    (hslots : s.Slots) (hs : Effect policy T s l s') (hl : l ≠ .stop) : History T s' := by
  have hkept : InputKept T s' := h.kept.step hslots hs hl
  cases hs with
  | run hr => exact ⟨h.numbered, h.kept, h.queued, h.fed, h.answered⟩
  | refused d hg hst => exact h
  | accepted d hg hst =>
    refine ⟨?_, hkept, h.queued, fun p c hchild => ?_, h.answered⟩
    · cases d with
      | none => simpa using h.numbered
      | some a => simpa [List.range_succ] using h.numbered
    · have hc : c ≠ T.root := T.ne_root_of_child hchild
      simpa [pending, Function.update_of_ne hc] using h.fed p c hchild
  | poolMove pc hpc => exact ⟨h.numbered, h.kept, h.queued, h.fed, h.answered⟩
  | aborts => exact ⟨h.numbered, h.kept, h.queued, h.fed, h.answered⟩
  | handled b copies todo hpc =>
    refine ⟨h.numbered, hkept, h.queued, fun p c hchild => ?_, h.answered⟩
    by_cases hc : c = b
    · subst hc
      refine List.Sublist.trans ?_ (h.fed p c hchild)
      simp [pending]
    · simpa [pending, Function.update_of_ne hc] using h.fed p c hchild
  | trimmed b size todo hpc hsize =>
    have hmove := h.workerMove (b := b) (w := { s.threads b with exceptionPtrs := [] }) rfl
      (by simp [ThreadPoolWorker.inHand])
    exact ⟨h.numbered, h.kept, hmove.queued, h.fed, hmove.answered⟩
  | started b x todo ready hpc hd hready =>
    refine ⟨h.numbered, hkept, fun c => ?_, fun p c hchild => ?_, fun c => ?_⟩
    · by_cases hc : c = b
      · subst hc
        simp [startBranch, h.queued c]
      · simpa [startBranch, Function.update_of_ne hc] using h.queued c
    · by_cases hc : c = b
      · subst hc
        simpa [startBranch, pending, hd] using h.fed p c hchild
      · simpa [startBranch, pending, Function.update_of_ne hc] using h.fed p c hchild
    · by_cases hc : c = b
      · subst hc
        simpa [startBranch, ThreadPoolWorker.addData_inHand (hslots.slot c).fresh]
          using h.answered c
      · simpa [startBranch, Function.update_of_ne hc] using h.answered c
  | marked b todo ready hpc =>
    rw [hslots.marked_entries hpc]
    exact ⟨h.numbered, h.kept, h.queued, h.fed, h.answered⟩
  | takes b x rest hpc hdata =>
    refine ⟨h.numbered, h.kept, fun c => ?_, h.fed, fun c => ?_⟩
    · by_cases hc : c = b
      · subst hc
        simp [h.queued c, hdata]
      · simpa [Function.update_of_ne hc] using h.queued c
    · by_cases hc : c = b
      · subst hc
        have hans := h.answered c
        simp only [ThreadPoolWorker.inHand, hpc, List.append_nil] at hans
        simpa [ThreadPoolWorker.inHand] using hans
      · simpa [Function.update_of_ne hc] using h.answered c
  | leaves b hpc hstop => exact h.workerMove rfl (by simp [ThreadPoolWorker.inHand, hpc])
  | skips b x hpc hstop => exact h.workerMove rfl (by simp [ThreadPoolWorker.inHand, hpc])
  | enters b x hpc hstop => exact h.workerMove rfl (by simp [ThreadPoolWorker.inHand, hpc])
  | finishes b x output hpc hg hout =>
    have hfin := h.finish hslots (w := { s.threads b with pc := .idle }) hpc rfl
      (by simp [ThreadPoolWorker.inHand])
    exact ⟨hfin.numbered, hfin.kept, hfin.queued, hfin.fed, hfin.answered⟩
  | fails b x e hpc hg hout =>
    have hfin := h.finish hslots (w := { s.threads b with pc := .failing e }) hpc rfl
      (by simp [ThreadPoolWorker.inHand])
    exact ⟨hfin.numbered, hfin.kept, hfin.queued, hfin.fed, hfin.answered⟩
  | records b e hpc => exact h.workerMove rfl (by simp [ThreadPoolWorker.inHand, ThreadPoolWorker.recordException])
  | returned b x y hpc => exact h.workerMove rfl (by simp [ThreadPoolWorker.inHand, hpc])
  | threw b x e hpc => exact h.workerMove rfl (by simp [ThreadPoolWorker.inHand, hpc])
  | stop s' hstop => exact absurd rfl hl
  | stopper s' hstop => simp [stopperStep, hslots.calm.2] at hstop

/-! ## Order and absence of repetition -/

omit [DecidableEq ι] in
/-- Each branch was given items in the order of the inputs they come from, none twice. -/
theorem History.inputs_increasing {s : AsyncPipeline ι α} (h : History T s) {b : ι}
    (hb : b ∈ T.ids) : ((s.handed b).map Item.input).Pairwise (· < ·) := by
  refine T.induction_down (P := fun b => ((s.handed b).map Item.input).Pairwise (· < ·))
    ?_ (fun p c _ hchild hp => ?_) hb
  · have hpre : ((s.handed T.root).map Item.input).Sublist (s.accepted.map Item.input) := by
      rw [h.kept]
      simp
    rw [h.numbered] at hpre
    exact List.pairwise_lt_range.sublist hpre
  · have hc : (s.handed c).Sublist (s.outputs p) :=
      (List.sublist_append_left _ _).trans (h.fed p c hchild)
    have hout : ((s.outputs p).map Item.input).Sublist ((s.taken p).map Item.input) := by
      refine List.Sublist.trans ?_ (h.answered p)
      simp
    have htaken : ((s.taken p).map Item.input).Sublist ((s.handed p).map Item.input) := by
      rw [h.queued p]
      simp
    exact hp.sublist ((hc.map _).trans (hout.trans htaken))

omit [DecidableEq ι] in
/-- At most one accepted input has not been started. -/
theorem History.unstarted {s : AsyncPipeline ι α} (h : History T s) (hslots : s.Slots) :
    ∃ rest, s.accepted = s.taken T.root ++ rest ∧ rest.length ≤ 1 := by
  refine ⟨(s.threads T.root).data ++ s.pending T.root, ?_, ?_⟩
  · rw [← List.append_assoc, ← h.queued]
    exact h.kept
  · have hslot := hslots.slot T.root
    have hle := hslot.load_le
    cases hd : (s.branchesData T.root).dataToProcess with
    | none =>
      simp only [ThreadPoolWorker.load] at hle
      simp [pending, hd]
      omega
    | some x =>
      have hzero := hslot.ready_load (hslot.data_ready (by simp [hd]))
      simp only [ThreadPoolWorker.load] at hzero
      have hdata : (s.threads T.root).data.length = 0 := by omega
      simp [pending, hd, hdata]

/-- Without a stop the histories are right after every run. -/
theorem history_of_run {tr : List (AsyncPipeline ι α × AsyncLabel ι α)}
    {s : AsyncPipeline ι α} (h : (machine .parallelNoWait T).Run tr s)
    (hstop : ∀ p ∈ tr, p.2 ≠ .stop) : s.Slots ∧ History T s := by
  have hinv := h.invariant_of_guard
    (I := fun s => (s.Slots ∧ s.Running) ∧ History T s) (C := Quiet .parallelNoWait T)
    ⟨⟨Slots.initial, Running.initial⟩, History.initial⟩
    (fun s l s' hi hc hs =>
      ⟨quiet_step hi.1 hc hs, hi.2.step hi.1.1 (effect_of_step hs) hc.1⟩)
    fun p hp => ⟨hstop p hp, finishReturns_of_ne (by decide) p.1 p.2⟩
  exact ⟨hinv.1.1, hinv.2⟩

/-- Under `parallelNoWait`, in every run without `stop`, the root takes the accepted inputs in
order, all but at most the last one, and every child takes a subsequence of its parent's outputs,
in the order of the inputs they were computed from and without repetition. -/
theorem items_delivered_in_order {tr : List (AsyncPipeline ι α × AsyncLabel ι α)}
    {s : AsyncPipeline ι α} (h : (machine .parallelNoWait T).Run tr s)
    (hstop : ∀ p ∈ tr, p.2 ≠ .stop) :
    (∃ rest, s.accepted = s.taken T.root ++ rest ∧ rest.length ≤ 1) ∧
    ∀ b ∈ T.ids, ∀ c ∈ T.childrenIds b,
      (s.taken c).Sublist (s.outputs b) ∧
      ((s.taken c).map Item.input).Pairwise (· < ·) := by
  obtain ⟨hslots, hist⟩ := history_of_run h hstop
  refine ⟨hist.unstarted hslots, fun b hb c hchild => ?_⟩
  have htaken : (s.taken c).Sublist (s.handed c) := by
    rw [hist.queued c]
    exact List.sublist_append_left _ _
  have hfed : (s.handed c).Sublist (s.outputs b) :=
    (List.sublist_append_left _ _).trans (hist.fed b c hchild)
  exact ⟨htaken.trans hfed,
    (hist.inputs_increasing (T.children_mem b c hchild)).sublist (htaken.map _)⟩

/-- The first input of a root with two children reaches the first child. -/
theorem items_delivered_in_order_fork :
    ∃ s : AsyncPipeline (Fin 3) Nat,
      (machine .parallelNoWait forkTree).Run ((machine .parallelNoWait forkTree).trace initial
        (firstInput ++ [.worker 1])) s ∧
      (∃ rest, s.accepted = s.taken forkTree.root ++ rest ∧ rest.length ≤ 1) ∧
      (∀ b ∈ forkTree.ids, ∀ c ∈ forkTree.childrenIds b,
        (s.taken c).Sublist (s.outputs b) ∧
        ((s.taken c).map Item.input).Pairwise (· < ·)) ∧
      s.taken 1 = [⟨0, 11⟩] := by
  obtain ⟨s, -, hrun, hs⟩ := Machine.exists_run_of_exec
    (machine .parallelNoWait forkTree) (firstInput ++ [.worker 1])
    (fun s => s.taken 1 = [⟨0, 11⟩]) (by decide +kernel)
  have hlabels : ∀ l ∈ firstInput ++ [.worker 1], l ≠ .stop := by
    simp [firstInput, poolSteps, finishOne]
  have horder := items_delivered_in_order hrun
    fun p hp => hlabels p.2 (Machine.label_mem_of_trace hp)
  exact ⟨s, hrun, horder.1, horder.2, by simpa using hs⟩

end Seekira.Model.AsyncPipeline
