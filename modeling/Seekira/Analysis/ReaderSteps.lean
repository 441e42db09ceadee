import Seekira.Model.ReaderWorker

/-!
# What a step of the reader's worker does

The worker's own step is one of ten moves, and the posters and the owner of the reader
have three more.  Invariants of the worker are proved move by move; none of them needs
the order in which the worker makes its tests.
-/

set_option autoImplicit false

namespace Seekira.Model.ReaderWorker

variable {δ κ : Type} {D : IDemuxer δ} {C : CodecOps κ}

/-- The moves of the worker's thread. -/
inductive Works (D : IDemuxer δ) (C : CodecOps κ) (w : ReaderWorker δ κ) :
    ReaderWorker δ κ → Prop
  | starts : w.pc = .starting →
      Works D C w { w with reader := (ReaderFF.setReaderState .reading w.reader).2, pc := .head }
  | tests (pc : ReaderPc) : w.pc = .head ∨ w.pc = .awake → pc = .events ∨ pc = .recheck →
      Works D C w { w with pc := if w.reader.needBreakReading then .leaving else pc }
  | idles : w.pc = .events → w.eventQueue = [] → Works D C w { w with pc := .eof }
  | handles (item : PostedEvent) : w.pc = .events → w.eventQueue.getLast? = some item →
      Works D C w (afterCall (ReaderFF.handleEvent D C item.event w.reader)
        { w with eventQueue := w.eventQueue.tail, handled := w.handled ++ [item] })
  | crashes : w.pc = .eof → w.reader.stream.isNone = true → Works D C w { w with pc := .crashed }
  | goesOn (value : Bool) : w.pc = .eof →
      Works D C w { w with reader := { w.reader with continueReading := value }, pc := .waitCheck }
  | pauses (value : Bool) : w.pc = .eof →
      Works D C w
        { w with
          reader := (ReaderFF.setReaderState .paused { w.reader with continueReading := value }).2
          pc := .waitCheck }
  | waits (pc : ReaderPc) : w.pc = .waitCheck ∨ w.pc = .waitBlock ∨ w.pc = .recheck →
      pc ∈ [.awake, .waitBlock, .blocked, .reading, .head] → Works D C w { w with pc := pc }
  | reads : w.pc = .reading →
      Works D C w
        (afterCall (ReaderFF.readFrame D C (ReaderFF.setReaderState .reading w.reader).2) w)
  | leaves : w.pc = .leaving → Works D C w w.leaveLoop

/-- The look at the event queue is a step of the worker. -/
theorem works_checkEvents {w : ReaderWorker δ κ} (hpc : w.pc = .events) :
    Works D C w (w.checkEvents D C) := by
  unfold checkEvents
  split
  · rename_i hlast
    exact .idles hpc (List.getLast?_eq_none_iff.mp hlast)
  · rename_i item hlast
    exact .handles item hpc hlast

/-- The look for the end of the file is a step of the worker. -/
theorem works_checkEof {w : ReaderWorker δ κ} (hpc : w.pc = .eof) :
    Works D C w (w.checkEof D) := by
  unfold checkEof
  split
  · rename_i hnone
    exact .crashes hpc hnone
  · dsimp only
    split <;> split
    · exact .goesOn false hpc
    · exact .pauses false hpc
    · exact .goesOn w.reader.continueReading hpc
    · exact .pauses w.reader.continueReading hpc

/-- Every step that the worker makes is one of its steps. -/
theorem works_of_work {w w' : ReaderWorker δ κ} (hs : w.work D C = some w') : Works D C w w' := by
  unfold work at hs
  split at hs
  case h_1 hpc =>
    cases hs
    exact .starts hpc
  case h_2 hpc =>
    cases hs
    exact .tests .events (.inl hpc) (.inl rfl)
  case h_3 hpc =>
    split at hs <;> cases hs
    exact works_checkEvents hpc
  case h_4 hpc =>
    cases hs
    exact works_checkEof hpc
  case h_5 hpc =>
    split at hs <;> cases hs
    refine .waits _ (.inl hpc) ?_
    split <;> simp
  case h_6 hpc =>
    cases hs
    exact .waits .blocked (.inr (.inl hpc)) (by simp)
  case h_8 hpc =>
    cases hs
    exact .tests .recheck (.inr hpc) (.inr rfl)
  case h_9 hpc =>
    split at hs <;> cases hs
    refine .waits _ (.inr (.inr hpc)) ?_
    split <;> simp
  case h_10 hpc =>
    cases hs
    exact .reads hpc
  case h_11 hpc =>
    split at hs <;> cases hs
    exact .leaves hpc
  case h_7 | h_12 | h_13 => cases hs

/-- The moves of all threads. -/
inductive Steps (D : IDemuxer δ) (C : CodecOps κ) (w : ReaderWorker δ κ) :
    ReaderLabel → ReaderWorker δ κ → Prop
  | posts (event : ReaderEvent) :
      Steps D C w (.post event) { w.addReaderEvent event with eventGuardHeld := true }
  | notifies : Steps D C w .notify { w.wake with eventGuardHeld := false }
  | works (w' : ReaderWorker δ κ) : Works D C w w' → Steps D C w .work w'
  | wakes : Steps D C w .spuriousWake w.wake
  | stops : Steps D C w .requestStop { w with reader := { w.reader with needStop := true } }

/-- Every step is one of the worker's or of another thread's. -/
theorem steps_of_step {w w' : ReaderWorker δ κ} {l : ReaderLabel} (hs : step D C w l = some w') :
    Steps D C w l w' := by
  unfold step at hs
  split at hs
  · cases hs
  cases l with
  | post event =>
    simp only at hs
    split at hs <;> cases hs
    exact .posts event
  | notify =>
    simp only at hs
    split at hs <;> cases hs
    exact .notifies
  | work => exact .works w' (works_of_work hs)
  | spuriousWake =>
    simp only at hs
    split at hs <;> cases hs
    exact .wakes
  | requestStop =>
    cases hs
    exact .stops

/-! ## The parts of a move -/

@[simp] theorem wake_reader (w : ReaderWorker δ κ) : w.wake.reader = w.reader := by
  unfold wake
  split <;> rfl

@[simp] theorem wake_eventQueue (w : ReaderWorker δ κ) : w.wake.eventQueue = w.eventQueue := by
  unfold wake
  split <;> rfl

@[simp] theorem wake_posted (w : ReaderWorker δ κ) : w.wake.posted = w.posted := by
  unfold wake
  split <;> rfl

@[simp] theorem wake_handled (w : ReaderWorker δ κ) : w.wake.handled = w.handled := by
  unfold wake
  split <;> rfl

/-- Only a blocked worker wakes up. -/
theorem wake_of_not_blocked {w : ReaderWorker δ κ} (hpc : w.pc ≠ .blocked) : w.wake = w := by
  unfold wake
  rw [if_neg hpc]

@[simp] theorem finished_leaveLoop (w : ReaderWorker δ κ) : w.leaveLoop.pc = .finished := by
  unfold leaveLoop
  dsimp only
  split
  · rfl
  · split <;> rfl

/-- The events are not the business of the reader's methods. -/
theorem events_of_afterCall (result : Except Fault Unit × ReaderFF δ κ) (w : ReaderWorker δ κ) :
    (afterCall result w).posted = w.posted ∧ (afterCall result w).eventQueue = w.eventQueue ∧
      (afterCall result w).handled = w.handled := by
  unfold afterCall
  split <;> exact ⟨rfl, rfl, rfl⟩

theorem finished_not_afterCall (result : Except Fault Unit × ReaderFF δ κ)
    (w : ReaderWorker δ κ) : (afterCall result w).pc ≠ .finished := by
  rcases result with ⟨e | _, r⟩
  · cases e <;> simp [afterCall]
  · simp [afterCall]

end Seekira.Model.ReaderWorker
