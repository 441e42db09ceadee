import Seekira.Library.PastTime
import Seekira.Model.WorkerWaits

/-!
# Stopping a worker that waits

`stop_worker` sets its flag and notifies without either of the two mutexes the worker waits with.
A worker that has evaluated a predicate before the flag was set and blocks after the notification
of that wait sleeps on while `stop_worker` waits for its thread to end.  It happens in exactly the
runs in which one of the two notifications falls between a false predicate of its wait and the
block.
-/

set_option autoImplicit false

namespace Seekira.Model.WorkerWaits

open Library

variable {ι : Type}

/-- `stop_worker` has set its flag and issued both notifications, and the worker sleeps. -/
def Hung (w : WorkerWaits ι) : Prop :=
  w.needStop = true ∧ w.stop = .joining ∧ (w.pc = .readBlocked ∨ w.pc = .dataBlocked)

/-- `stop_worker` has issued the notification of the wait, and join has not returned. -/
def NotifiedRead (w : WorkerWaits ι) : Prop := w.stop = .readNotified ∨ w.stop = .joining

/-- The worker sleeps in a wait that `stop_worker` has notified. -/
def SleepsNotified (w : WorkerWaits ι) : Prop :=
  (w.pc = .readBlocked ∧ w.NotifiedRead) ∨ (w.pc = .dataBlocked ∧ w.stop = .joining)

/-- The worker is about to block in a wait that `stop_worker` has notified. -/
def BlocksNotified (w : WorkerWaits ι) : Prop :=
  (w.pc = .readBlock ∧ w.NotifiedRead) ∨ (w.pc = .dataBlock ∧ w.stop = .joining)

/-- `stop_worker` issues one of its notifications while the worker stands between the predicate of
that wait and the block. -/
def StopsInWindow (p : WorkerWaits ι × WaitLabel ι) : Prop :=
  p.2 = .stop ∧
    ((p.1.stop = .flagSet ∧ p.1.pc = .readBlock) ∨
      (p.1.stop = .readNotified ∧ p.1.pc = .dataBlock))

instance [DecidableEq ι] (p : WorkerWaits ι × WaitLabel ι) : Decidable (StopsInWindow p) :=
  inferInstanceAs (Decidable (_ ∧ _))

/-- The worker moves. -/
def WorkerMoves (p : WorkerWaits ι × WaitLabel ι) : Prop := p.2 = .work

/-- The flag is set while somebody is inside `stop_worker`. -/
def Flagged (w : WorkerWaits ι) : Prop := w.stop ≠ .idle → w.needStop = true

/-! ## Wake-ups -/

/-- Nobody sleeps in a wait that has just been notified. -/
theorem pc_wakeRead_ne (w : WorkerWaits ι) : w.wakeRead.pc ≠ .readBlocked := by
  unfold wakeRead
  split
  · simp
  · assumption

theorem pc_wakeData_ne (w : WorkerWaits ι) : w.wakeData.pc ≠ .dataBlocked := by
  unfold wakeData
  split
  · simp
  · assumption

@[simp] theorem wakeRead_stop (w : WorkerWaits ι) : w.wakeRead.stop = w.stop := by
  unfold wakeRead
  split <;> rfl

@[simp] theorem wakeRead_needStop (w : WorkerWaits ι) : w.wakeRead.needStop = w.needStop := by
  unfold wakeRead
  split <;> rfl

@[simp] theorem wakeData_stop (w : WorkerWaits ι) : w.wakeData.stop = w.stop := by
  unfold wakeData
  split <;> rfl

@[simp] theorem wakeData_needStop (w : WorkerWaits ι) : w.wakeData.needStop = w.needStop := by
  unfold wakeData
  split <;> rfl

/-! ## What a step does to the waits -/

/-- The worker neither sleeps nor stands before a block. -/
def Busy (pc : WaitPc ι) : Prop :=
  pc ≠ .readBlock ∧ pc ≠ .readBlocked ∧ pc ≠ .dataBlock ∧ pc ≠ .dataBlocked

/-- The moves of the worker's thread. -/
inductive Works (w w' : WorkerWaits ι) : Prop
  | passes : w.pc ≠ .readBlock → w.pc ≠ .dataBlock → Busy w'.pc → Works w w'
  | refused : w.needStop = false → w.pc ≠ .readBlock → w.pc ≠ .dataBlock →
      w'.pc = .readBlock ∨ w'.pc = .dataBlock → Works w w'
  | blocksRead : w.pc = .readBlock → w'.pc = .readBlocked → Works w w'
  | blocksData : w.pc = .dataBlock → w'.pc = .dataBlocked → Works w w'

/-- Each step of the worker is one of its steps, and leaves the stop. -/
theorem works_of_work {w w' : WorkerWaits ι} (hs : w.work = some w') :
    Works w w' ∧ w'.stop = w.stop ∧ w'.needStop = w.needStop := by
  unfold work at hs
  split at hs
  case h_1 hpc | h_4 hpc | h_8 hpc =>
    cases hs
    refine ⟨.passes (by simp [hpc]) (by simp [hpc]) ?_, rfl, rfl⟩
    dsimp only
    split <;> simp [Busy]
  case h_2 hpc =>
    cases hs
    refine ⟨?_, rfl, rfl⟩
    by_cases htest : (w.needStop || w.continueReading) = true
    · exact .passes (by simp [hpc]) (by simp [hpc]) (by simp [htest, Busy])
    · simp only [Bool.or_eq_true, not_or, Bool.not_eq_true] at htest
      exact .refused htest.1 (by simp [hpc]) (by simp [hpc]) (by simp [htest])
  case h_6 hpc =>
    cases hs
    refine ⟨?_, rfl, rfl⟩
    by_cases htest : (w.needStop || !w.data.isEmpty) = true
    · exact .passes (by simp [hpc]) (by simp [hpc]) (by simp [htest, Busy])
    · simp only [Bool.or_eq_true, not_or, Bool.not_eq_true] at htest
      exact .refused htest.1 (by simp [hpc]) (by simp [hpc]) (by simp [htest])
  case h_3 hpc =>
    cases hs
    exact ⟨.blocksRead hpc rfl, rfl, rfl⟩
  case h_7 hpc =>
    cases hs
    exact ⟨.blocksData hpc rfl, rfl, rfl⟩
  case h_9 hpc =>
    split at hs <;> cases hs <;>
      exact ⟨.passes (by simp [hpc]) (by simp [hpc]) (by simp [Busy]), rfl, rfl⟩
  case h_5 hpc | h_10 hpc | h_11 hpc | h_12 hpc =>
    cases hs
    exact ⟨.passes (by simp [hpc]) (by simp [hpc]) (by simp [Busy]), rfl, rfl⟩
  case h_13 | h_14 | h_15 | h_16 => cases hs

/-- The moves of `stop_worker`. -/
inductive Stops (w w' : WorkerWaits ι) : Prop
  | sets : w.stop = .idle → w' = { w with needStop := true, stop := .flagSet } → Stops w w'
  | notifiesRead : w.stop = .flagSet → w' = { w.wakeRead with stop := .readNotified } → Stops w w'
  | notifiesData : w.stop = .readNotified → w' = { w.wakeData with stop := .joining } → Stops w w'
  | joins : w.stop = .joining → w.threadEnded = true →
      w' = { w with pc := .notStarted, stop := .joined } → Stops w w'
  | cleans (stop : StopWorkerPc) : w.stop ∈ [.joined, .dataReset, .exceptionsReset] →
      stop ∈ [.dataReset, .exceptionsReset, .stopped] → w'.stop = stop → w'.pc = w.pc →
      w'.needStop = w.needStop → Stops w w'
  | clears : w.stop = .stopped → w' = { w with needStop := false, stop := .idle } → Stops w w'

/-- Each step of `stop_worker` is one of its steps. -/
theorem stops_of_stopWorker {w w' : WorkerWaits ι} (hs : w.stopWorker = some w') :
    Stops w w' := by
  unfold stopWorker at hs
  split at hs
  case h_1 h =>
    split at hs <;> cases hs
    exact .sets h rfl
  case h_2 h =>
    cases hs
    exact .notifiesRead h rfl
  case h_3 h =>
    cases hs
    exact .notifiesData h rfl
  case h_4 h =>
    split at hs <;> cases hs
    exact .joins h ‹_› rfl
  case h_5 h | h_6 h | h_7 h =>
    cases hs
    exact .cleans _ (by simp [h]) (by simp) rfl rfl rfl
  case h_8 h =>
    cases hs
    exact .clears h rfl

/-- The moves of all threads: the other clients leave the stop alone, and of the worker's places
they change only those from which it is woken up, started or thrown out. -/
inductive Steps (w : WorkerWaits ι) : WaitLabel ι → WorkerWaits ι → Prop
  | works (w' : WorkerWaits ι) : Works w w' → w'.stop = w.stop → w'.needStop = w.needStop →
      Steps w .work w'
  | stops (w' : WorkerWaits ι) : Stops w w' → Steps w .stop w'
  | others (l : WaitLabel ι) (w' : WorkerWaits ι) : l ≠ .work → l ≠ .stop → w'.stop = w.stop →
      w'.needStop = w.needStop →
      w'.pc = w.pc ∨ (w.pc ≠ .readBlock ∧ w.pc ≠ .dataBlock ∧ Busy w'.pc) → Steps w l w'

/-- A notification changes nothing, or it wakes up a worker that was asleep. -/
theorem pc_wakeRead (w : WorkerWaits ι) :
    w.wakeRead.pc = w.pc ∨ (w.pc ≠ .readBlock ∧ w.pc ≠ .dataBlock ∧ Busy w.wakeRead.pc) := by
  unfold wakeRead
  split
  · rename_i hpc
    exact .inr ⟨by simp [hpc], by simp [hpc], by simp [Busy]⟩
  · exact .inl rfl

/-- Waking leads a sleeping worker on, and leaves any other. -/
theorem pc_wakeData (w : WorkerWaits ι) :
    w.wakeData.pc = w.pc ∨ (w.pc ≠ .readBlock ∧ w.pc ≠ .dataBlock ∧ Busy w.wakeData.pc) := by
  unfold wakeData
  split
  · rename_i hpc
    exact .inr ⟨by simp [hpc], by simp [hpc], by simp [Busy]⟩
  · exact .inl rfl

/-- Each step is the worker's, the stop's or a caller's. -/
theorem steps_of_step {w w' : WorkerWaits ι} {l : WaitLabel ι} (hs : w.step l = some w') :
    Steps w l w' := by
  cases l with
  | work =>
    obtain ⟨hworks, hstop, hneed⟩ := works_of_work hs
    exact .works w' hworks hstop hneed
  | stop => exact .stops w' (stops_of_stopWorker hs)
  | launch =>
    simp only [step] at hs
    split at hs
    · rename_i hpc
      split at hs <;> cases hs
      exact .others _ _ nofun nofun rfl rfl
        (.inr ⟨by simp [hpc], by simp [hpc], by simp [Busy]⟩)
    · cases hs
  | fail e =>
    simp only [step] at hs
    split at hs
    case h_1 hpc | h_2 hpc =>
      cases hs
      exact .others _ _ nofun nofun rfl rfl
        (.inr ⟨by simp [hpc], by simp [hpc], by simp [Busy]⟩)
    case h_3 => cases hs
  | spuriousWake =>
    simp only [step] at hs
    split at hs
    case h_1 hpc | h_2 hpc =>
      cases hs
      refine .others _ _ nofun nofun (by simp) (by simp) (.inr ⟨by simp [hpc], by simp [hpc], ?_⟩)
      simp [wakeRead, wakeData, hpc, Busy]
    case h_3 => cases hs
  | notifyRead =>
    simp only [step] at hs
    split at hs <;> cases hs
    exact .others _ _ nofun nofun (by simp) (by simp) (pc_wakeRead w)
  | notifyData =>
    simp only [step] at hs
    split at hs <;> cases hs
    exact .others _ _ nofun nofun (by simp) (by simp) (pc_wakeData w)
  | setReading value =>
    cases hs
    exact .others _ _ nofun nofun rfl rfl (.inl rfl)
  | launched | enter | push =>
    simp only [step] at hs
    split at hs <;> cases hs
    exact .others _ _ nofun nofun rfl rfl (.inl rfl)

/-! ## The flag -/

/-- Every step keeps the flag with the stop. -/
theorem Flagged.step {w w' : WorkerWaits ι} {l : WaitLabel ι} (h : w.Flagged)
    (hs : w.step l = some w') : w'.Flagged := by
  unfold Flagged at h ⊢
  cases steps_of_step hs with
  | works _ _ hstop hneed => rw [hstop, hneed]; exact h
  | others _ _ _ _ hstop hneed _ => rw [hstop, hneed]; exact h
  | stops _ hstops =>
    cases hstops with
    | sets _ h' => simp [h']
    | notifiesRead hpc h' => simp [h', h (by simp [hpc])]
    | notifiesData hpc h' => simp [h', h (by simp [hpc])]
    | joins hpc _ h' => simp [h', h (by simp [hpc])]
    | cleans stop hpc _ _ _ hneed =>
      rw [hneed]
      intro _
      refine h fun hidle => ?_
      simp [hidle] at hpc
    | clears _ h' => simp [h']

theorem flagged_of_reachable {w : WorkerWaits ι} (h : (machine ι).Reachable w) : w.Flagged := by
  refine h.invariant (I := Flagged) ?_ fun _ _ _ hi hs => hi.step hs
  simp [Flagged, machine, create]

/-! ## Notifications between a predicate and a block -/

theorem not_notifiedRead_of_needStop {w : WorkerWaits ι} (hflag : w.Flagged)
    (hneed : w.needStop = false) : w.stop = .idle := by
  by_contra hne
  simp [hflag hne] at hneed

/-- The worker stands before a block of a notified wait exactly after a notification that fell
between the predicate and the block, until it moves. -/
theorem blocksNotified_iff_of_step {w w' : WorkerWaits ι} {l : WaitLabel ι} (hflag : w.Flagged)
    (hs : w.step l = some w') :
    w'.BlocksNotified ↔ StopsInWindow (w, l) ∨ (w.BlocksNotified ∧ ¬WorkerMoves (w, l)) := by
  simp only [StopsInWindow, WorkerMoves]
  unfold BlocksNotified NotifiedRead
  cases steps_of_step hs with
  | works _ hworks hstop hneed =>
    rw [hstop]
    cases hworks with
    | passes _ _ hbusy => simp [hbusy.1, hbusy.2.2.1]
    | refused hneed' _ _ hpc =>
      have hidle := not_notifiedRead_of_needStop hflag hneed'
      simp [hidle]
    | blocksRead _ hpc => simp [hpc]
    | blocksData _ hpc => simp [hpc]
  | others _ _ hwork hstop' hstop hneed hpc =>
    rw [hstop]
    rcases hpc with hpc | ⟨hread, hdata, hbusy⟩
    · simp [hpc, hwork, hstop']
    · simp [hread, hdata, hbusy.1, hbusy.2.2.1]
  | stops _ hstops =>
    cases hstops with
    | sets hidle h' => simp [h', hidle]
    | notifiesRead hset h' =>
      subst h'
      rcases pc_wakeRead w with hpc | ⟨hread, hdata, hbusy⟩
      · simp [hpc, hset]
      · simp [hset, hread, hbusy.1]
    | notifiesData hset h' =>
      subst h'
      rcases pc_wakeData w with hpc | ⟨hread, hdata, hbusy⟩
      · simp [hpc, hset, or_comm]
      · simp [hset, hread, hdata, hbusy.1, hbusy.2.2.1]
    | joins hjoin hended h' =>
      subst h'
      have hread : w.pc ≠ .readBlock := fun h => by simp [threadEnded, h] at hended
      have hdata : w.pc ≠ .dataBlock := fun h => by simp [threadEnded, h] at hended
      simp [hjoin, hread, hdata]
    | cleans stop hpc hmem h' _ _ =>
      simp only [List.mem_cons, List.not_mem_nil, or_false] at hpc hmem
      rw [h']
      rcases hpc with hpc | hpc | hpc <;> rcases hmem with rfl | rfl | rfl <;> simp [hpc]
    | clears hset h' => simp [h', hset]

/-- The worker falls asleep in a notified wait exactly by blocking after a notification that fell
between the predicate and the block. -/
theorem sleepsNotified_iff_of_step {w w' : WorkerWaits ι} {l : WaitLabel ι}
    (hn : ¬w.SleepsNotified) (hs : w.step l = some w') :
    w'.SleepsNotified ↔ w.BlocksNotified ∧ WorkerMoves (w, l) := by
  simp only [WorkerMoves]
  unfold SleepsNotified NotifiedRead at hn
  unfold SleepsNotified BlocksNotified NotifiedRead
  cases steps_of_step hs with
  | works _ hworks hstop hneed =>
    rw [hstop]
    cases hworks with
    | passes hread hdata hbusy => simp [hread, hdata, hbusy.2.1, hbusy.2.2.2]
    | refused _ hread hdata hpc => rcases hpc with hpc | hpc <;> simp [hpc, hread, hdata]
    | blocksRead hpc hpc' => simp [hpc, hpc']
    | blocksData hpc hpc' => simp [hpc, hpc']
  | others _ _ hwork _ hstop hneed hpc =>
    rw [hstop]
    rcases hpc with hpc | ⟨-, -, hbusy⟩
    · simpa [hpc, hwork] using hn
    · simp [hbusy.2.1, hbusy.2.2.2, hwork]
  | stops _ hstops =>
    cases hstops with
    | sets hidle h' => simp [h']
    | notifiesRead hset h' => simp [h', pc_wakeRead_ne]
    | notifiesData hset h' =>
      subst h'
      have hread : w.wakeData.pc ≠ .readBlocked := by
        intro hpc
        rcases pc_wakeData w with hkept | ⟨-, -, hbusy⟩
        · exact hn (.inl ⟨hkept ▸ hpc, .inl hset⟩)
        · exact hbusy.2.1 hpc
      simp [hread, pc_wakeData_ne]
    | joins hjoin hended h' => simp [h']
    | cleans stop hpc hmem h' _ _ =>
      simp only [List.mem_cons, List.not_mem_nil, or_false] at hmem
      rw [h']
      rcases hmem with rfl | rfl | rfl <;> simp
    | clears hset h' => simp [h']

/-! ## Runs -/

theorem Hung.sleepsNotified {w : WorkerWaits ι} (h : w.Hung) : w.SleepsNotified := by
  obtain ⟨-, hjoin, hread | hdata⟩ := h
  · exact .inl ⟨hread, .inr hjoin⟩
  · exact .inr ⟨hdata, hjoin⟩

/-- Only a wake-up of the wait by itself or by another client ends a hang. -/
theorem Hung.stuck {w : WorkerWaits ι} (h : w.Hung) :
    w.step .work = none ∧ w.step .stop = none := by
  obtain ⟨-, hjoin, hpc⟩ := h
  constructor
  · rcases hpc with hpc | hpc <;> simp [step, work, hpc]
  · rcases hpc with hpc | hpc <;> simp [step, stopWorker, threadEnded, hjoin, hpc]

/-- In every run, the worker never sleeps in a wait that `stop_worker` has notified exactly when
it never moves after a notification between the predicate and the block. -/
theorem never_sleepsNotified_iff {tr : List (WorkerWaits ι × WaitLabel ι)} {w : WorkerWaits ι}
    (h : (machine ι).Run tr w) :
    ((∀ p ∈ tr, ¬p.1.SleepsNotified) ∧ ¬w.SleepsNotified) ↔
      ¬Followed StopsInWindow WorkerMoves tr := by
  refine h.never_iff_not_followed (A := BlocksNotified) ?_ ?_
    (fun _ _ _ hr hs => blocksNotified_iff_of_step (flagged_of_reachable hr) hs)
    fun _ _ _ _ hn hs => sleepsNotified_iff_of_step hn hs
  · simp [BlocksNotified, machine, create]
  · simp [SleepsNotified, machine, create]

/-- In every run in which the worker never moves after a notification of `stop_worker` between the
predicate and the block, `stop_worker` never hangs. -/
theorem never_hung {tr : List (WorkerWaits ι × WaitLabel ι)} {w : WorkerWaits ι}
    (h : (machine ι).Run tr w) (hwindow : ¬Followed StopsInWindow WorkerMoves tr) :
    (∀ p ∈ tr, ¬p.1.Hung) ∧ ¬w.Hung := by
  obtain ⟨hbefore, hafter⟩ := (never_sleepsNotified_iff h).mpr hwindow
  exact ⟨fun p hp hhung => hbefore p hp hhung.sleepsNotified,
    fun hhung => hafter hhung.sleepsNotified⟩

/-- The worker processes an item when `stop_worker` comes, and leaves its loop. -/
def stopWhileProcessing : List (WaitLabel Nat) :=
  [.launch, .launched true, .push 7, .notifyData, .work, .work, .work, .work, .work, .work, .work,
    .stop, .stop, .stop, .work, .work, .work, .stop]

/-- All of `stop_worker` falls between the predicate of the wait for an item and the block. -/
def stopBeforeDataBlock : List (WaitLabel Nat) :=
  [.launch, .launched false, .work, .work, .work, .work, .work, .stop, .stop, .stop, .work]

/-- The same with the wait of a paused worker. -/
def stopBeforeReadBlock : List (WaitLabel Nat) :=
  [.launch, .launched false, .setReading false, .notifyRead, .work, .work, .stop, .stop, .stop,
    .work]

/-- A worker is stopped while it works. -/
theorem never_hung_while_processing :
    ∃ w, (machine Nat).Run ((machine Nat).trace create stopWhileProcessing) w ∧
      (∀ p ∈ (machine Nat).trace create stopWhileProcessing, ¬p.1.Hung) ∧ ¬w.Hung ∧
      w.stop = .joined := by
  obtain ⟨w, -, hrun, hw⟩ := Machine.exists_run_of_exec (machine Nat) stopWhileProcessing
    (fun w => w.stop = .joined) (by decide +kernel)
  have hwindow : ¬Followed StopsInWindow WorkerMoves
      ((machine Nat).trace create stopWhileProcessing) :=
    not_followed_of_forall_not (by decide +kernel)
  obtain ⟨hbefore, hafter⟩ := never_hung hrun hwindow
  exact ⟨w, hrun, hbefore, hafter, by simpa using hw⟩

/-- A stop that falls between a check of the worker and its block hangs, at both waits. -/
theorem stop_hangs :
    (∃ w, (machine Nat).Reachable w ∧ w.Hung ∧ w.pc = .dataBlocked) ∧
    (∃ w, (machine Nat).Reachable w ∧ w.Hung ∧ w.pc = .readBlocked) := by
  obtain ⟨w, -, hrun, hw⟩ := Machine.exists_run_of_exec (machine Nat) stopBeforeDataBlock
    (fun w => w.needStop && (w.stop = .joining ∧ w.pc = .dataBlocked)) (by decide +kernel)
  obtain ⟨w', -, hrun', hw'⟩ := Machine.exists_run_of_exec (machine Nat) stopBeforeReadBlock
    (fun w => w.needStop && (w.stop = .joining ∧ w.pc = .readBlocked)) (by decide +kernel)
  obtain ⟨hneed, hjoin, hpc⟩ : w.needStop = true ∧ w.stop = .joining ∧ w.pc = .dataBlocked := by
    simpa using hw
  obtain ⟨hneed', hjoin', hpc'⟩ :
      w'.needStop = true ∧ w'.stop = .joining ∧ w'.pc = .readBlocked := by
    simpa using hw'
  exact ⟨⟨w, ⟨_, hrun⟩, ⟨hneed, hjoin, .inr hpc⟩, hpc⟩,
    ⟨w', ⟨_, hrun'⟩, ⟨hneed', hjoin', .inl hpc'⟩, hpc'⟩⟩

end Seekira.Model.WorkerWaits
