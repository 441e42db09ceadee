import Seekira.Analysis.AsyncEffects

/-!
# The data the branches are handed

When every branch computes a function of the item it was given, an item handed to a
branch is the accepted input transformed by the branches above it.  The asynchronous
pipeline clones a result for every child, so what one child does to its item changes
neither the items of its siblings nor the published result.
-/

set_option autoImplicit false

namespace Seekira.Model.AsyncPipeline

open Library

variable {ι α : Type} {T : BranchTree ι}

/-- `x` is the input `d` transformed by the branches from the root to the parent of the branch. -/
inductive BranchInput (T : BranchTree ι) (work : ι → α → α) (d : α) : ι → α → Prop
  | root : BranchInput T work d T.root d
  | child {b c : ι} {x : α} : BranchInput T work d b x → c ∈ T.childrenIds b →
      BranchInput T work d c (work b x)

/-- The item comes from an accepted input, transformed by the branches above `b`. -/
def Given (T : BranchTree ι) (work : ι → α → α) (inputs : List (Item α)) (b : ι)
    (x : Item α) : Prop :=
  ∃ d, inputs[x.input]? = some ⟨x.input, d⟩ ∧ BranchInput T work d b x.data

/-- The item is the result of branch `b` on an item it was given. -/
def Made (T : BranchTree ι) (work : ι → α → α) (inputs : List (Item α)) (b : ι)
    (x : Item α) : Prop :=
  ∃ d y, inputs[x.input]? = some ⟨x.input, d⟩ ∧ BranchInput T work d b y ∧ x.data = work b y

/-- What the thread of branch `b` has in its hands. -/
def HandsOk (T : BranchTree ι) (work : ι → α → α) (inputs : List (Item α)) (b : ι) :
    WorkerPc (Item α) → Prop
  | .processing x => Given T work inputs b x
  | .finishing x | .updating x => Made T work inputs b x
  | .notStarted | .idle | .failing _ | .exited => True

/-- Every item in the tables, the queues and the hands of the workers is what the branches above
made of an accepted input. -/
structure DataOk (T : BranchTree ι) (work : ι → α → α) (s : AsyncPipeline ι α) : Prop where
  pending : ∀ b x, (s.branchesData b).dataToProcess = some x → Given T work s.accepted b x
  queued : ∀ b, ∀ x ∈ (s.threads b).data, Given T work s.accepted b x
  hands : ∀ b, HandsOk T work s.accepted b (s.threads b).pc
  taken : ∀ b, ∀ x ∈ s.taken b, Given T work s.accepted b x
  outputs : ∀ b, ∀ x ∈ s.outputs b, Made T work s.accepted b x

/-- The step is not a branch that returns something else than its tasks compute. -/
def Computes (work : ι → α → α) (s : AsyncPipeline ι α) (l : AsyncLabel ι α) : Prop :=
  ∀ b y x, l = .processed b (.ok y) → (s.threads b).pc = .processing x → y = work b x.data

variable {work : ι → α → α} {inputs inputs' : List (Item α)} {s s' : AsyncPipeline ι α}

theorem getElem?_of_prefix (hsub : inputs <+: inputs') {n : Nat} {x : Item α}
    (h : inputs[n]? = some x) : inputs'[n]? = some x := by
  obtain ⟨rest, rfl⟩ := hsub
  rw [List.getElem?_append_left (List.getElem?_eq_some_iff.mp h).1, h]

theorem Given.mono (hsub : inputs <+: inputs') {b : ι} {x : Item α}
    (h : Given T work inputs b x) : Given T work inputs' b x := by
  obtain ⟨d, hd, hx⟩ := h
  exact ⟨d, getElem?_of_prefix hsub hd, hx⟩

theorem Made.mono (hsub : inputs <+: inputs') {b : ι} {x : Item α}
    (h : Made T work inputs b x) : Made T work inputs' b x := by
  obtain ⟨d, y, hd, hy, hx⟩ := h
  exact ⟨d, y, getElem?_of_prefix hsub hd, hy, hx⟩

/-- A worker whose hands are right stays so when inputs are added. -/
theorem HandsOk.mono (hsub : inputs <+: inputs') {b : ι} {pc : WorkerPc (Item α)}
    (h : HandsOk T work inputs b pc) : HandsOk T work inputs' b pc := by
  cases pc with
  | processing x => exact Given.mono hsub h
  | finishing x => exact Made.mono hsub h
  | updating x => exact Made.mono hsub h
  | _ => trivial

/-- A result is what the children are given. -/
theorem Made.given {b c : ι} {x : Item α} (h : Made T work inputs b x)
    (hc : c ∈ T.childrenIds b) : Given T work inputs c x := by
  obtain ⟨d, y, hd, hy, hx⟩ := h
  refine ⟨d, hd, ?_⟩
  rw [hx]
  exact hy.child hc

theorem DataOk.initial : DataOk T work (initial : AsyncPipeline ι α) where
  pending := nofun
  queued := nofun
  hands := fun _ => trivial
  taken := nofun
  outputs := nofun

variable [DecidableEq ι]

/-- The worker of `b` moves, taking nothing new into its queue. -/
theorem DataOk.worker (h : DataOk T work s) {b : ι} {w : ThreadPoolWorker (Item α)}
    (hqueue : ∀ x ∈ w.data, Given T work s.accepted b x) (hhands : HandsOk T work s.accepted b w.pc) :
    DataOk T work ({ s with threads := Function.update s.threads b w } : AsyncPipeline ι α) where
  pending := h.pending
  queued := by
    intro c x hx
    by_cases hc : c = b
    · subst hc
      simp only [Function.update_self] at hx
      exact hqueue x hx
    · simp only [Function.update_of_ne hc] at hx
      exact h.queued c x hx
  hands := by
    intro c
    by_cases hc : c = b
    · subst hc
      simpa only [Function.update_self] using hhands
    · simp only [Function.update_of_ne hc]
      exact h.hands c
  taken := h.taken
  outputs := h.outputs

/-- The entry of `b` is emptied. -/
theorem DataOk.cleared (h : DataOk T work s) (b : ι) (status : BranchStatus) :
    DataOk T work ({ s with branchesData := Function.update s.branchesData b ⟨none, status⟩ } :
      AsyncPipeline ι α) where
  pending := by
    intro c x hx
    by_cases hc : c = b
    · subst hc
      simp only [Function.update_self] at hx
      cases hx
    · simp only [Function.update_of_ne hc] at hx
      exact h.pending c x hx
  queued := h.queued
  hands := h.hands
  taken := h.taken
  outputs := h.outputs

/-- `on_finished` gives the children of `b` what `b` made. -/
theorem DataOk.finishUpdate (h : DataOk T work s) {b : ι} {x : Item α}
    (hx : Made T work s.accepted b x) : DataOk T work (s.finishUpdate T b x) where
  pending := by
    intro c y hy
    rcases finishUpdate_entry T b x s c with ⟨-, hd⟩ | ⟨-, hchild, -, hd⟩ | ⟨-, hd⟩
    · rw [hd] at hy
      cases hy
    · rw [hd] at hy
      cases hy
      exact hx.given hchild
    · rw [hd] at hy
      exact h.pending c y hy
  queued := h.queued
  hands := h.hands
  taken := h.taken
  outputs := by
    intro c y hy
    by_cases hc : c = b
    · subst hc
      simp only [finishUpdate_outputs, Function.update_self, List.mem_append,
        List.mem_singleton] at hy
      rcases hy with hy | rfl
      · exact h.outputs c y hy
      · exact hx
    · simp only [finishUpdate_outputs, Function.update_of_ne hc] at hy
      exact h.outputs c y hy

/-- The steps of a stop keep all data right. -/
theorem DataOk.stopperStep (h : DataOk T work s) (hs : s.stopperStep T = some s') :
    DataOk T work s' := by
  cases stopMove_of_stopperStep hs with
  | clear _ => exact ⟨h.pending, h.queued, h.hands, h.taken, h.outputs⟩
  | ask b todo _ _ =>
    have hmove := h.worker (b := b) (w := { s.threads b with needStop := true }) (h.queued b)
      (h.hands b)
    exact ⟨h.pending, hmove.queued, hmove.hands, h.taken, h.outputs⟩
  | pass b todo _ _ => exact ⟨h.pending, h.queued, h.hands, h.taken, h.outputs⟩
  | join b todo _ _ =>
    have hmove := h.worker (b := b) (w := (s.threads b).joined) (h.queued b) trivial
    exact ⟨h.pending, hmove.queued, hmove.hands, h.taken, h.outputs⟩
  | empty b todo _ =>
    have hmove := h.worker (b := b) (w := (s.threads b).resetData) nofun (h.hands b)
    exact ⟨h.pending, hmove.queued, hmove.hands, h.taken, h.outputs⟩
  | drop b todo _ =>
    have hmove := h.worker (b := b) (w := (s.threads b).dropExceptions) (h.queued b) (h.hands b)
    exact ⟨h.pending, hmove.queued, hmove.hands, h.taken, h.outputs⟩
  | release b todo _ =>
    have hmove := h.worker (b := b) (w := { s.threads b with isRunning := false }) (h.queued b)
      (h.hands b)
    exact ⟨h.pending, hmove.queued, hmove.hands, h.taken, h.outputs⟩
  | leave b todo _ =>
    have hmove := h.worker (b := b) (w := { s.threads b with needStop := false }) (h.queued b)
      (h.hands b)
    exact ⟨h.pending, hmove.queued, hmove.hands, h.taken, h.outputs⟩
  | cleared _ => exact ⟨h.pending, h.queued, h.hands, h.taken, h.outputs⟩
  | reset b todo _ =>
    have hclear := h.cleared b .finished
    exact ⟨hclear.pending, h.queued, h.hands, h.taken, h.outputs⟩
  | done _ _ => exact ⟨h.pending, h.queued, h.hands, h.taken, h.outputs⟩

/-- `add_process_data` puts the input into the entry of the root. -/
theorem DataOk.accept (h : DataOk T work s) (d : Option α) :
    DataOk T work
      ({ s with
          branchesData := Function.update s.branchesData T.root
            ⟨d.map fun a => ⟨s.accepted.length, a⟩, .ready⟩
          accepted := s.accepted ++ (d.map fun a => (⟨s.accepted.length, a⟩ : Item α)).toList } :
        AsyncPipeline ι α) where
  pending := by
    intro b x hx
    by_cases hb : b = T.root
    · subst hb
      simp only [Function.update_self] at hx
      rcases d with _ | a
      · cases hx
      · cases hx
        exact ⟨a, by simp, .root⟩
    · simp only [Function.update_of_ne hb] at hx
      exact (h.pending b x hx).mono (List.prefix_append _ _)
  queued := fun b x hx => (h.queued b x hx).mono (List.prefix_append _ _)
  hands := fun b => (h.hands b).mono (List.prefix_append _ _)
  taken := fun b x hx => (h.taken b x hx).mono (List.prefix_append _ _)
  outputs := fun b x hx => (h.outputs b x hx).mono (List.prefix_append _ _)

/-- The pool thread moves the item in the entry of `b` into the queue of its worker. -/
theorem DataOk.startBranch (h : DataOk T work s) {b : ι} {x : Item α}
    (hx : Given T work s.accepted b x) : DataOk T work (s.startBranch b x) := by
  have hqueue : ∀ y ∈ ((s.threads b).addData x).data, Given T work s.accepted b y := by
    intro y hy
    simp only [ThreadPoolWorker.addData, List.mem_append, List.mem_singleton] at hy
    rcases hy with hy | rfl
    · apply h.queued b y
      unfold ThreadPoolWorker.runWorker at hy
      split at hy
      · exact hy
      · exact hy
    · exact hx
  have hhands : HandsOk T work s.accepted b ((s.threads b).addData x).pc := by
    unfold ThreadPoolWorker.addData ThreadPoolWorker.runWorker
    split
    · exact h.hands b
    · trivial
  have hmove := (h.cleared b .running).worker hqueue hhands
  exact ⟨hmove.pending, hmove.queued, hmove.hands, h.taken, h.outputs⟩

/-- The worker of `b` takes the front of its queue. -/
theorem DataOk.takes (h : DataOk T work s) {b : ι} {x : Item α} {rest : List (Item α)}
    (hdata : (s.threads b).data = x :: rest) :
    DataOk T work
      ({ s with
          threads := Function.update s.threads b
            { s.threads b with data := rest, pc := .processing x }
          taken := Function.update s.taken b (s.taken b ++ [x]) } : AsyncPipeline ι α) := by
  have hqueue : ∀ y ∈ x :: rest, Given T work s.accepted b y := by
    rw [← hdata]
    exact h.queued b
  have hx := hqueue x (by simp)
  have hmove := h.worker (b := b) (w := { s.threads b with data := rest, pc := .processing x })
    (fun y hy => hqueue y (List.mem_cons_of_mem _ hy)) hx
  refine ⟨h.pending, hmove.queued, hmove.hands, ?_, h.outputs⟩
  intro c y hy
  by_cases hc : c = b
  · subst hc
    simp only [Function.update_self, List.mem_append, List.mem_singleton] at hy
    rcases hy with hy | rfl
    · exact h.taken c y hy
    · exact hx
  · simp only [Function.update_of_ne hc] at hy
    exact h.taken c y hy

omit [DecidableEq ι] in

theorem DataOk.stop (h : DataOk T work s) (hs : s.stop T = some s') : DataOk T work s' := by
  rcases stop_cases hs with ⟨-, rfl⟩ | rfl
  · exact ⟨h.pending, h.queued, h.hands, h.taken, h.outputs⟩
  · exact h

/-- One step keeps the data what the branches make of the accepted inputs. -/
theorem DataOk.step {policy : PipelineSyncPolicy} {l : AsyncLabel ι α} (h : DataOk T work s)
    (hs : Effect policy T s l s') (hl : Computes work s l) : DataOk T work s' := by
  cases hs with
  | run _ => exact ⟨h.pending, h.queued, h.hands, h.taken, h.outputs⟩
  | refused d _ _ => exact h
  | accepted d _ _ => exact h.accept d
  | poolMove pc _ => exact ⟨h.pending, h.queued, h.hands, h.taken, h.outputs⟩
  | aborts => exact ⟨h.pending, h.queued, h.hands, h.taken, h.outputs⟩
  | handled b copies todo _ =>
    have hclear := h.cleared b .finished
    exact ⟨hclear.pending, h.queued, h.hands, h.taken, h.outputs⟩
  | trimmed b size todo _ _ =>
    have hmove := h.worker (b := b) (w := { s.threads b with exceptionPtrs := [] }) (h.queued b)
      (h.hands b)
    exact ⟨h.pending, hmove.queued, hmove.hands, h.taken, h.outputs⟩
  | started b x todo ready _ hd _ =>
    have hmove := h.startBranch (h.pending b x (by rw [hd]))
    exact ⟨hmove.pending, hmove.queued, hmove.hands, hmove.taken, hmove.outputs⟩
  | marked b todo ready _ =>
    have hclear := h.cleared b .running
    exact ⟨hclear.pending, h.queued, h.hands, h.taken, h.outputs⟩
  | takes b x rest _ hdata => exact h.takes hdata
  | leaves b _ _ => exact h.worker (h.queued b) trivial
  | skips b x _ _ => exact h.worker (h.queued b) trivial
  | enters b x hpc _ =>
    have hmade := h.hands b
    rw [hpc] at hmade
    exact h.worker (h.queued b) hmade
  | finishes b x output hpc _ _ =>
    have hmade := h.hands b
    rw [hpc] at hmade
    have hmove := (h.finishUpdate hmade).worker (b := b) (w := { s.threads b with pc := .idle })
      (h.queued b) trivial
    exact ⟨hmove.pending, hmove.queued, hmove.hands, hmove.taken, hmove.outputs⟩
  | fails b x e hpc _ _ =>
    have hmade := h.hands b
    rw [hpc] at hmade
    have hmove := (h.finishUpdate hmade).worker (b := b) (w := { s.threads b with pc := .failing e })
      (h.queued b) trivial
    exact ⟨hmove.pending, hmove.queued, hmove.hands, hmove.taken, hmove.outputs⟩
  | records b e _ => exact h.worker (h.queued b) trivial
  | returned b x y hpc =>
    have hgiven := h.hands b
    rw [hpc] at hgiven
    obtain ⟨d, hd, hx⟩ := hgiven
    exact h.worker (h.queued b) ⟨d, x.data, hd, hx, hl b y x rfl hpc⟩
  | threw b x e _ => exact h.worker (h.queued b) trivial
  | stop s' hstop => exact h.stop hstop
  | stopper s' hstop => exact h.stopperStep hstop

/-- In every run whose branches return what their tasks compute, with exceptions and stops, every
item a branch began to process is an accepted input transformed by the branches above it. -/
theorem taken_branchInput {policy : PipelineSyncPolicy}
    {tr : List (AsyncPipeline ι α × AsyncLabel ι α)} (h : (machine policy T).Run tr s)
    (hcomputes : ∀ q ∈ tr, Computes work q.1 q.2) {b : ι} {x : Item α} (hx : x ∈ s.taken b) :
    Given T work s.accepted b x := by
  have hok : DataOk T work s :=
    h.invariant_of_guard (I := DataOk T work) (C := Computes work) DataOk.initial
      (fun _ _ _ hi hc hstep => hi.step (effect_of_step hstep) hc) hcomputes
  exact hok.taken b x hx

end Seekira.Model.AsyncPipeline
