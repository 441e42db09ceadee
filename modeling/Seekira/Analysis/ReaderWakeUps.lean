import Seekira.Library.PastTime
import Seekira.Analysis.ReaderEvents

/-!
# Notifications the reader's worker does not hear

A poster holds `m_event_guard`, the worker waits with `m_read_guard`: between the predicate of
the wait and the block nothing keeps a poster out.  A notification issued there finds nobody
asleep, and the worker then sleeps on a queue that is not empty.  This happens in exactly the
runs in which a notification falls between the predicate and the block.
-/

set_option autoImplicit false

namespace Seekira.Model.ReaderWorker

open Library

variable {δ κ : Type} {D : IDemuxer δ} {C : CodecOps κ} {reader : ReaderFF δ κ}

/-! ## What is queued and announced -/

/-- The queued events whose notification has been issued: a poster that still holds the guard has
yet to announce the last one. -/
def announced (w : ReaderWorker δ κ) : List PostedEvent :=
  if w.eventGuardHeld then w.eventQueue.dropLast else w.eventQueue

/-- The worker sleeps although an event was queued and announced. -/
def LostWakeUp (w : ReaderWorker δ κ) : Prop := w.pc = .blocked ∧ w.announced ≠ []

/-- The predicate was false, the worker does not sleep yet, and an event was announced. -/
def Unheard (w : ReaderWorker δ κ) : Prop := w.pc = .waitBlock ∧ w.announced ≠ []

/-- A poster issues its notification between the predicate and the block. -/
def NotifiesInWindow (p : ReaderWorker δ κ × ReaderLabel) : Prop :=
  p.2 = .notify ∧ p.1.pc = .waitBlock

/-- The worker moves. -/
def WorkerMoves (p : ReaderWorker δ κ × ReaderLabel) : Prop := p.2 = .work

/-- A poster that holds the guard has pushed its event. -/
def Guarded (w : ReaderWorker δ κ) : Prop := w.eventGuardHeld = true → w.eventQueue ≠ []

/-! ## Steps -/

@[simp] theorem eventGuardHeld_afterCall (result : Except Fault Unit × ReaderFF δ κ)
    (w : ReaderWorker δ κ) : (afterCall result w).eventGuardHeld = w.eventGuardHeld := by
  unfold afterCall
  split <;> rfl

/-- A worker that does not pause behind its loop leaves the queue alone there. -/
theorem queue_of_not_pausesAtEnd {w : ReaderWorker δ κ} (h : w.pausesAtEnd = false) :
    w.leaveLoop.eventGuardHeld = w.eventGuardHeld ∧ w.leaveLoop.eventQueue = w.eventQueue := by
  unfold leaveLoop
  dsimp only
  split
  · exact ⟨rfl, rfl⟩
  · rename_i hstop
    split
    · rename_i heof
      -- the guard of the second branch is the one that `pausesAtEnd` evaluates
      have hpauses : w.pausesAtEnd = true := by
        unfold pausesAtEnd
        rw [Bool.and_eq_true, decide_eq_true_eq]
        refine ⟨?_, heof⟩
        revert hstop
        unfold ReaderFF.needBreakReading
        cases w.reader.needStop <;> simp
      rw [h] at hpauses
      cases hpauses
    · exact ⟨rfl, rfl⟩

/-- While a poster holds the guard the worker leaves the queue alone. -/
theorem queue_of_guardHeld {w w' : ReaderWorker δ κ} (hs : w.work D C = some w')
    (hheld : w.eventGuardHeld = true) :
    w'.eventGuardHeld = true ∧ w'.eventQueue = w.eventQueue := by
  unfold work at hs
  split at hs
  case h_3 | h_5 | h_9 => simp [hheld] at hs
  case h_11 =>
    rw [hheld, Bool.true_and] at hs
    split at hs
    · cases hs
    · rename_i hpauses
      obtain ⟨hguard, hqueue⟩ := queue_of_not_pausesAtEnd (Bool.eq_false_iff.mpr hpauses)
      cases hs
      exact ⟨hguard.trans hheld, hqueue⟩
  case h_4 =>
    cases hs
    unfold checkEof
    split
    · exact ⟨hheld, rfl⟩
    · exact ⟨hheld, rfl⟩
  case h_10 =>
    cases hs
    obtain ⟨-, hqueue, -⟩ := events_of_afterCall
      (ReaderFF.readFrame D C (ReaderFF.setReaderState .reading w.reader).2) w
    exact ⟨by rw [eventGuardHeld_afterCall]; exact hheld, hqueue⟩
  case h_7 | h_12 | h_13 => cases hs
  all_goals
    cases hs
    exact ⟨hheld, rfl⟩

/-- A step of the worker leaves the event guard free. -/
theorem eventGuardHeld_of_work {w w' : ReaderWorker δ κ} (hs : w.work D C = some w')
    (hfree : w.eventGuardHeld = false) : w'.eventGuardHeld = false := by
  cases works_of_work hs with
  | handles => rw [eventGuardHeld_afterCall]; exact hfree
  | reads => rw [eventGuardHeld_afterCall]; exact hfree
  | leaves =>
    unfold leaveLoop
    dsimp only
    split
    · exact hfree
    · split <;> exact hfree
  | _ => exact hfree

/-- A step of the worker is one. -/
theorem work_of_step {w w' : ReaderWorker δ κ} (hs : step D C w .work = some w') :
    w.work D C = some w' := by
  unfold step at hs
  split at hs
  · cases hs
  · exact hs

/-- Every step keeps the guard with the thread that took it. -/
theorem Guarded.step {w w' : ReaderWorker δ κ} {l : ReaderLabel} (h : w.Guarded)
    (hs : step D C w l = some w') : w'.Guarded := by
  intro hheld
  cases steps_of_step hs with
  | posts event => simp [addReaderEvent]
  | notifies => simp at hheld
  | works _ _ =>
    have hwork := work_of_step hs
    cases hbefore : w.eventGuardHeld with
    | false => simp [eventGuardHeld_of_work hwork hbefore] at hheld
    | true =>
      rw [(queue_of_guardHeld hwork hbefore).2]
      exact h hbefore
  | wakes =>
    rw [wake_eventQueue]
    refine h ?_
    unfold wake at hheld
    split at hheld <;> exact hheld
  | stops => exact h hheld

theorem guarded_of_reachable {w : ReaderWorker δ κ} (h : (machine D C reader).Reachable w) :
    w.Guarded := by
  refine h.invariant (I := Guarded) ?_ fun _ _ _ hi hs => hi.step hs
  simp [Guarded, machine, started]

/-- A method of the reader leaves the worker away from the wait. -/
theorem pc_afterCall (result : Except Fault Unit × ReaderFF δ κ) (w : ReaderWorker δ κ) :
    (afterCall result w).pc ∈ [ReaderPc.head, .crashed, .leaving] := by
  rcases result with ⟨e | _, r⟩
  · cases e <;> simp [afterCall]
  · simp [afterCall]

/-- The two moves of the worker towards its sleep: it evaluates the predicate with the queue
empty, and it blocks. -/
theorem waits_of_work {w w' : ReaderWorker δ κ} (hs : w.work D C = some w')
    (hpc : w'.pc = .waitBlock ∨ w'.pc = .blocked) :
    (w.eventQueue = [] ∧ w' = { w with pc := .waitBlock }) ∨
      (w.pc = .waitBlock ∧ w' = { w with pc := .blocked }) := by
  cases works_of_work hs with
  | handles item =>
    have hmem := pc_afterCall (ReaderFF.handleEvent D C item.event w.reader)
      { w with eventQueue := w.eventQueue.tail, handled := w.handled ++ [item] }
    rcases hpc with hpc | hpc <;> simp [hpc] at hmem
  | reads =>
    have hmem := pc_afterCall
      (ReaderFF.readFrame D C (ReaderFF.setReaderState .reading w.reader).2) w
    rcases hpc with hpc | hpc <;> simp [hpc] at hmem
  | leaves => simp at hpc
  | tests pc _ hpc' =>
    dsimp only at hpc
    rcases hpc' with rfl | rfl <;> split at hpc <;> simp at hpc
  | waits pc hpc' _ =>
    rcases hpc' with hcheck | hblock | hrecheck
    · -- the predicate is evaluated under the guard of the queue
      simp only [work, hcheck, Option.ite_none_left_eq_some, Option.some.injEq] at hs
      obtain ⟨-, hs⟩ := hs
      split at hs
      · rw [← hs] at hpc
        simp at hpc
      · rename_i hpred
        simp only [Bool.or_eq_true, not_or, Bool.not_eq_true', Bool.not_eq_false] at hpred
        exact .inl ⟨List.isEmpty_iff.mp hpred.1.2, hs.symm⟩
    · simp only [work, hblock, Option.some.injEq] at hs
      exact .inr ⟨hblock, hs.symm⟩
    · simp only [work, hrecheck, Option.ite_none_left_eq_some, Option.some.injEq] at hs
      obtain ⟨-, hs⟩ := hs
      rw [← hs] at hpc
      dsimp only at hpc
      split at hpc <;> simp at hpc
  | _ => simp at hpc

theorem pc_wake (w : ReaderWorker δ κ) :
    w.wake.pc = if w.pc = .blocked then .waitCheck else w.pc := by
  unfold wake
  split <;> rfl

theorem announced_post (w : ReaderWorker δ κ) (event : ReaderEvent) :
    ({ w.addReaderEvent event with eventGuardHeld := true } : ReaderWorker δ κ).announced =
      w.eventQueue := by
  simp [announced, addReaderEvent]

/-- A poster pushes only while the guard is free, so what was announced is the whole queue. -/
theorem guard_free_of_post {w w' : ReaderWorker δ κ} {event : ReaderEvent}
    (hs : step D C w (.post event) = some w') : w.eventGuardHeld = false := by
  unfold step at hs
  split at hs
  · cases hs
  · simp only [Option.ite_none_left_eq_some, Bool.not_eq_true] at hs
    exact hs.1

/-- A thread that notifies holds the guard. -/
theorem guard_held_of_notify {w w' : ReaderWorker δ κ} (hs : step D C w .notify = some w') :
    w.eventGuardHeld = true := by
  unfold step at hs
  split at hs
  · cases hs
  · simp only [Option.ite_none_right_eq_some] at hs
    exact hs.1

/-- An announcement goes unheard exactly when it falls between the predicate and the block, until
the worker moves. -/
theorem unheard_iff_of_step {w w' : ReaderWorker δ κ} {l : ReaderLabel} (hguard : w.Guarded)
    (hs : step D C w l = some w') :
    w'.Unheard ↔ NotifiesInWindow (w, l) ∨ (w.Unheard ∧ ¬WorkerMoves (w, l)) := by
  simp only [NotifiesInWindow, WorkerMoves, Unheard]
  cases steps_of_step hs with
  | posts event =>
    have hfree := guard_free_of_post hs
    rw [announced_post]
    simp [announced, hfree, addReaderEvent]
  | notifies =>
    have hqueue := hguard (guard_held_of_notify hs)
    simp only [pc_wake, announced, wake_eventQueue]
    by_cases hblocked : w.pc = .blocked
    · simp [hblocked]
    · simp only [hblocked, if_false]
      simp [hqueue]
      tauto
  | works _ _ =>
    simp only [not_true_eq_false, and_false, or_false, reduceCtorEq, false_and, iff_false,
      not_and, Classical.not_not]
    intro hpc
    rcases waits_of_work (work_of_step hs) (.inl hpc) with ⟨hempty, rfl⟩ | ⟨-, rfl⟩
    · simp [announced, hempty]
    · simp at hpc
  | wakes =>
    have hblocked : w.pc = .blocked := by
      unfold step at hs
      split at hs
      · cases hs
      · simp only [Option.ite_none_right_eq_some] at hs
        exact hs.1
    simp [pc_wake, hblocked]
  | stops => simp [announced]

/-- The worker falls asleep on an announced event exactly by blocking after an announcement it
did not hear. -/
theorem lostWakeUp_iff_of_step {w w' : ReaderWorker δ κ} {l : ReaderLabel}
    (hn : ¬w.LostWakeUp) (hs : step D C w l = some w') :
    w'.LostWakeUp ↔ w.Unheard ∧ WorkerMoves (w, l) := by
  simp only [WorkerMoves, Unheard]
  unfold LostWakeUp at hn ⊢
  cases steps_of_step hs with
  | posts event =>
    have hfree := guard_free_of_post hs
    rw [announced_post]
    simpa [announced, hfree, addReaderEvent] using hn
  | notifies =>
    simp only [pc_wake]
    split <;> simp_all
  | works _ _ =>
    have hwork := work_of_step hs
    constructor
    · rintro ⟨hpc, hannounced⟩
      rcases waits_of_work hwork (.inr hpc) with ⟨-, rfl⟩ | ⟨hblock, rfl⟩
      · simp at hpc
      · exact ⟨⟨hblock, hannounced⟩, rfl⟩
    · rintro ⟨⟨hblock, hannounced⟩, -⟩
      simp only [work, hblock, Option.some.injEq] at hwork
      subst hwork
      exact ⟨rfl, hannounced⟩
  | wakes =>
    simp only [pc_wake]
    split <;> simp_all
  | stops => simpa [announced] using hn

/-! ## Runs -/

/-- In every run, the worker never sleeps on an announced event exactly when it never moves after a
notification issued between a false predicate and the block. -/
theorem never_lostWakeUp_iff {tr : List (ReaderWorker δ κ × ReaderLabel)} {w : ReaderWorker δ κ}
    (h : (machine D C reader).Run tr w) :
    ((∀ p ∈ tr, ¬p.1.LostWakeUp) ∧ ¬w.LostWakeUp) ↔
      ¬Followed NotifiesInWindow WorkerMoves tr := by
  refine h.never_iff_not_followed (A := Unheard) ?_ ?_
    (fun _ _ _ hr hs => unheard_iff_of_step (guarded_of_reachable hr) hs)
    fun _ _ _ _ hn hs => lostWakeUp_iff_of_step hn hs
  · simp [Unheard, machine, started]
  · simp [LostWakeUp, machine, started]

/-! ### A play command that is not heard -/

/-- The worker goes to sleep, an event wakes it up. -/
def heardPlay : List ReaderLabel :=
  [.work, .work, .work, .work, .work, .work, .post .play, .notify, .work]

/-- The event is posted and announced before the worker blocks. -/
def unheardPlay : List ReaderLabel :=
  [.work, .work, .work, .work, .work, .post .play, .notify, .work]

/-- The worker sleeps, and a play event wakes it up. -/
theorem never_lostWakeUp_iff_short :
    ∃ w, shortMachine.Run (shortMachine.trace shortMachine.init heardPlay) w ∧
      (((∀ p ∈ shortMachine.trace shortMachine.init heardPlay, ¬p.1.LostWakeUp) ∧
          ¬w.LostWakeUp) ↔
        ¬Followed NotifiesInWindow WorkerMoves
          (shortMachine.trace shortMachine.init heardPlay)) ∧
      w.pc = .awake := by
  obtain ⟨w, -, hrun, hw⟩ := Machine.exists_run_of_exec shortMachine heardPlay
    (fun w => w.pc = .awake) (by decide +kernel)
  exact ⟨w, hrun, never_lostWakeUp_iff hrun, by simpa using hw⟩

/-- The worker sleeps while a play event is in the queue. -/
theorem asleep_on_play : ∃ w, shortMachine.Reachable w ∧ w.LostWakeUp := by
  obtain ⟨w, -, hrun, hw⟩ := Machine.exists_run_of_exec shortMachine unheardPlay
    (fun w => w.pc = .blocked ∧ w.announced = [⟨0, .play⟩]) (by decide +kernel)
  obtain ⟨hpc, hannounced⟩ : w.pc = .blocked ∧ w.announced = [⟨0, .play⟩] := by simpa using hw
  exact ⟨w, ⟨_, hrun⟩, hpc, by simp [hannounced]⟩

end Seekira.Model.ReaderWorker
