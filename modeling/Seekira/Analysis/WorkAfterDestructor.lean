import Seekira.Analysis.ReaderEvents
import Seekira.Analysis.ReaderWakeUps
import Seekira.Model.ReaderDestruction

/-!
# The worker after the reader's destructor

The `Stop` that the destructor posts reaches the worker only when the worker looks for events, so
the body of the destructor returns while the worker is still in its loop, unless the worker had left
it before.  From then on until the join the worker uses members that are destroyed.
-/

set_option autoImplicit false

namespace Seekira.Model.ReaderDestruction

open Library

variable {δ κ : Type} {D : IDemuxer δ} {C : CodecOps κ} {reader : ReaderFF δ κ} {derived : Bool}
  {d d' : ReaderDestruction δ κ} {move : DestructionMove}
  {tr : List (ReaderDestruction δ κ × DestructionMove)}

/-- While members are destroyed the worker has no step to take. -/
def Quiet (D : IDemuxer δ) (C : CodecOps κ) (derived : Bool) (d : ReaderDestruction δ κ) : Prop :=
  d.stage.isDestroying derived = true →
    step D C d .work = none ∧ step D C d .spuriousWake = none

/-- The worker's thread is past its last statement, or the process has crashed. -/
def WorkerEnded (d : ReaderDestruction δ κ) : Prop :=
  d.worker.pc = .finished ∨ d.worker.pc = .crashed

/-! ## A worker without steps -/

/-- While nobody holds the guard, only a worker that sleeps or has ended does not go on. -/
theorem work_eq_none {w : ReaderWorker δ κ} (hfree : w.eventGuardHeld = false)
    (h : w.work D C = none) : w.pc = .blocked ∨ w.pc = .finished ∨ w.pc = .crashed := by
  cases hpc : w.pc <;> simp [ReaderWorker.work, hpc, hfree] at h ⊢

/-- A sleeping worker may wake up at any time. -/
theorem not_blocked_of_not_woken {w : ReaderWorker δ κ}
    (h : ReaderWorker.step D C w .spuriousWake = none) : w.pc ≠ .blocked := by
  intro hpc
  simp [ReaderWorker.step, hpc] at h

/-- A worker that has ended takes no step, whoever holds the guard. -/
theorem WorkerEnded.moves_none (h : d.WorkerEnded) :
    step D C d .work = none ∧ step D C d .spuriousWake = none := by
  rcases h with hpc | hpc <;> simp [step, moveWorker, ReaderWorker.step, ReaderWorker.work, hpc]

/-- While nobody holds the guard, the worker has no step exactly when it has ended. -/
theorem moves_none_iff (hfree : d.worker.eventGuardHeld = false) :
    (step D C d .work = none ∧ step D C d .spuriousWake = none) ↔ d.WorkerEnded := by
  constructor
  · rintro ⟨hwork, hwake⟩
    simp only [step, moveWorker, Option.map_eq_none_iff] at hwork hwake
    by_cases hcrashed : d.worker.pc = .crashed
    · exact .inr hcrashed
    · have hnone : d.worker.work D C = none := by
        simpa [ReaderWorker.step, hcrashed] using hwork
      rcases work_eq_none hfree hnone with hblocked | hended
      · exact absurd hblocked (not_blocked_of_not_woken hwake)
      · exact hended
  · exact WorkerEnded.moves_none

/-! ## The moves of the destructor -/

theorem moveWorker_eq_some {l : ReaderLabel} {stage : DestructorStage}
    (h : moveWorker D C l stage d = some d') :
    ReaderWorker.step D C d.worker l = some d'.worker ∧ d'.stage = stage := by
  obtain ⟨w, hw, rfl⟩ := Option.map_eq_some_iff.mp h
  exact ⟨hw, rfl⟩

/-- The first move of the destruction leaves the worker alone. -/
theorem destroy_alive (halive : d.stage = .alive) (h : step D C d .destroy = some d') :
    d' = { d with stage := .begun } := by
  simp only [step, destroy, halive] at h
  split at h
  · cases h
  · exact (Option.some.inj h).symm

/-- Where the destruction stands after a move of the destroying thread, and what the move did to
the worker. -/
theorem destroy_inv (hbegun : d.stage ≠ .alive) (h : step D C d .destroy = some d') :
    d'.stage ≠ .alive ∧
      ((∃ l, l ≠ .work ∧ l ≠ .spuriousWake ∧ ReaderWorker.step D C d.worker l = some d'.worker) ∨
        d'.worker.pc = .finished) := by
  simp only [step, destroy] at h
  cases hstage : d.stage with
  | alive => exact absurd hstage hbegun
  | begun =>
    rw [hstage] at h
    obtain ⟨hpost, hposted⟩ := moveWorker_eq_some h
    exact ⟨by simp [hposted], .inl ⟨.post .stop, by simp, by simp, hpost⟩⟩
  | posted =>
    rw [hstage] at h
    obtain ⟨hnotify, hreturned⟩ := moveWorker_eq_some h
    exact ⟨by simp [hreturned], .inl ⟨.notify, by simp, by simp, hnotify⟩⟩
  | returned =>
    rw [hstage] at h
    obtain ⟨hstop, hjoining⟩ := moveWorker_eq_some h
    exact ⟨by simp [hjoining], .inl ⟨.requestStop, by simp, by simp, hstop⟩⟩
  | joining =>
    rw [hstage] at h
    dsimp only at h
    split at h
    · rename_i hfinished
      obtain rfl := Option.some.inj h
      exact ⟨by simp, .inr hfinished⟩
    · cases h
  | joined =>
    rw [hstage] at h
    cases h

/-- Posting, notifying and asking for a stop move no worker but one that sleeps. -/
theorem pc_of_other {w w' : ReaderWorker δ κ} {l : ReaderLabel} (hwork : l ≠ .work)
    (hwake : l ≠ .spuriousWake) (h : ReaderWorker.step D C w l = some w')
    (hblocked : w.pc ≠ .blocked) : w'.pc = w.pc := by
  cases ReaderWorker.steps_of_step h with
  | posts | stops => rfl
  | notifies =>
    rw [ReaderWorker.wake_of_not_blocked hblocked]
  | works => exact absurd rfl hwork
  | wakes => exact absurd rfl hwake

/-! ## A destruction that begins late -/

/-- The destruction has begun, and the worker had ended before. -/
def BegunLate (d : ReaderDestruction δ κ) : Prop := d.stage ≠ .alive ∧ d.WorkerEnded

/-- A destruction that began late stays so. -/
theorem begunLate_step (h : BegunLate d) (hstep : step D C d move = some d') : BegunLate d' := by
  obtain ⟨hbegun, hended⟩ := h
  obtain ⟨hwork, hwake⟩ := hended.moves_none (D := D) (C := C)
  cases move with
  | post event | notify => simp [step, hbegun] at hstep
  | work =>
    rw [hwork] at hstep
    cases hstep
  | spuriousWake =>
    rw [hwake] at hstep
    cases hstep
  | destroy =>
    obtain ⟨hbegun', hmoved⟩ := destroy_inv hbegun hstep
    refine ⟨hbegun', ?_⟩
    rcases hmoved with ⟨l, hl, hl', hworker⟩ | hfinished
    · have hblocked : d.worker.pc ≠ .blocked := by
        rcases hended with hpc | hpc <;> simp [hpc]
      unfold WorkerEnded
      rw [pc_of_other hl hl' hworker hblocked]
      exact hended
    · exact .inl hfinished

/-! ## A destruction that begins early -/

/-- From a state in which no other thread is inside the reader, the body of the destructor returns
before the worker moves; the worker is then where it was, or awake. -/
theorem exists_run_returned (h : (machine D C reader).Run tr d) (halive : d.stage = .alive)
    (hfree : d.worker.eventGuardHeld = false) (hrunning : d.worker.pc ≠ .crashed) :
    ∃ later d', (machine D C reader).Run (tr ++ (d, .destroy) :: later) d' ∧
      d'.stage = .returned ∧ d'.worker.eventGuardHeld = false ∧
      (d'.WorkerEnded → d.WorkerEnded) := by
  have hbegins : (machine D C reader).step d .destroy = some { d with stage := .begun } := by
    simp [machine, step, destroy, halive, hrunning, hfree]
  have hposts : (machine D C reader).step { d with stage := .begun } .destroy =
      some ⟨{ d.worker.addReaderEvent .stop with eventGuardHeld := true }, .posted⟩ := by
    simp [machine, step, destroy, moveWorker, ReaderWorker.step, hrunning, hfree]
  generalize hw : ({ d.worker.addReaderEvent .stop with eventGuardHeld := true } :
    ReaderWorker δ κ) = w at hposts
  have hpc : w.pc = d.worker.pc := by rw [← hw]; rfl
  have hheld : w.eventGuardHeld = true := by rw [← hw]
  have hreturns : (machine D C reader).step ⟨w, .posted⟩ .destroy =
      some ⟨{ w.wake with eventGuardHeld := false }, .returned⟩ := by
    simp [machine, step, destroy, moveWorker, ReaderWorker.step, hpc, hrunning, hheld]
  refine ⟨[({ d with stage := .begun }, .destroy), (⟨w, .posted⟩, .destroy)],
    ⟨{ w.wake with eventGuardHeld := false }, .returned⟩, ?_, rfl, rfl, ?_⟩
  · have hrun := ((h.step hbegins).step hposts).step hreturns
    simpa using hrun
  · unfold WorkerEnded
    rw [← hpc, ReaderWorker.pc_wake]
    split <;> simp

/-! ## Runs -/

/-- Let the destruction begin in any state of a started reader in which no other thread is inside.
In every order in which the threads go on, the worker takes no step while members are destroyed,
those of a derived class included, exactly when its thread has ended before. -/
theorem quiet_iff (h : (machine D C reader).Run tr d) (halive : d.stage = .alive)
    (hfree : d.worker.eventGuardHeld = false) :
    (∀ later d', (machine D C reader).Run (tr ++ (d, .destroy) :: later) d' →
      Quiet D C derived d') ↔ d.WorkerEnded := by
  constructor
  · intro hquiet
    by_cases hcrashed : d.worker.pc = .crashed
    · exact .inr hcrashed
    · obtain ⟨later, d', hrun, hreturned, hfree', hended⟩ :=
        exists_run_returned h halive hfree hcrashed
      apply hended
      rw [← moves_none_iff (D := D) (C := C) hfree']
      exact hquiet later d' hrun (by rw [hreturned]; rfl)
  · intro hended later d' hrun _
    have hlate : BegunLate d' := by
      have hmem : (d, DestructionMove.destroy) ∈ tr ++ (d, .destroy) :: later := by simp
      refine hrun.of_mem (fun _ _ _ hlate hstep => begunLate_step hlate hstep) hmem ?_
      intro d₁ hfirst
      rw [destroy_alive halive hfirst]
      exact ⟨by simp, hended⟩
    exact hlate.2.moves_none

/-! ### A reader that is paused -/

/-- The reader of the short file. -/
def shortDestruction : Machine (ReaderDestruction (DemuxerQueue Unit) (List DataPacket))
    DestructionMove :=
  machine (DemuxerQueue.toIDemuxer (fileParser shortFile 120)) (fifoCodec 0 (25, 1))
    ReaderWorker.shortReader

/-- The reader pauses and sleeps; it is destroyed; the worker wakes up after the body. -/
def destroyPaused : List DestructionMove :=
  List.replicate 6 .work ++ [.destroy, .destroy, .destroy, .work]

/-- The reader is stopped and its worker leaves. -/
def stopFirst : List DestructionMove :=
  [.post .stop, .notify] ++ List.replicate 5 .work

/-- A worker that sleeps when the body runs goes on after it. -/
theorem works_after_body :
    ∃ tr d, shortDestruction.Run tr d ∧ tr.map Prod.snd = destroyPaused ∧
      d.stage = .returned ∧ d.worker.pc = .awake := by
  obtain ⟨d, -, hrun, hd⟩ := Machine.exists_run_of_exec shortDestruction destroyPaused
    (fun d => d.stage = .returned && d.worker.pc = .awake) (by decide +kernel)
  exact ⟨_, d, hrun, by decide +kernel, by simpa using hd⟩

/-- A worker that has ended before is quiet. -/
theorem quiet_stopped :
    ∃ tr d, shortDestruction.Run tr d ∧ d.worker.pc = .finished ∧
      ((∀ later d', shortDestruction.Run (tr ++ (d, .destroy) :: later) d' →
        Quiet (DemuxerQueue.toIDemuxer (fileParser shortFile 120)) (fifoCodec 0 (25, 1)) true d') ↔
        d.WorkerEnded) := by
  obtain ⟨d, -, hrun, hd⟩ := Machine.exists_run_of_exec shortDestruction stopFirst
    (fun d => d.stage = .alive && !d.worker.eventGuardHeld && d.worker.pc = .finished)
    (by decide +kernel)
  simp only [Bool.and_eq_true, decide_eq_true_eq, Bool.not_eq_true'] at hd
  obtain ⟨⟨halive, hfree⟩, hfinished⟩ := hd
  exact ⟨_, d, hrun, hfinished, quiet_iff hrun halive hfree⟩

end Seekira.Model.ReaderDestruction
