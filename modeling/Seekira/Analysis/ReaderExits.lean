import Seekira.Analysis.ReaderEvents
import Seekira.Analysis.ReaderRuns
import Seekira.Analysis.SetPositionExits

/-!
# How the worker of the reader ends

The worker leaves its loop at the loop's condition, after the wait, or because a
method threw.  What follows the loop looks at the condition again: only if it still
holds, and no stop was requested, the state becomes `error` and the state observers
are told.  A method that threw leaves the condition false as a rule, and then the
worker ends with the state of its last step; so does a worker that was stopped.

Up to the end nobody was told about an error, since a refused seek finds the state
observers disabled.  So what the worker reports is what it reports at its end.
-/

set_option autoImplicit false

namespace Seekira.Model

open Library

namespace ReaderFF

variable {δ κ : Type} {D : IDemuxer δ} {C : CodecOps κ} {I : ReaderFF δ κ → Prop}

/-! ## What the methods report -/

/-- The state, the observers and what they were told agree. -/
structure SameReports (r r' : ReaderFF δ κ) : Prop where
  state : r'.state = r.state
  sentStates : r'.sentStates = r.sentStates
  readerObservers : r'.readerObservers = r.readerObservers

/-- `I` looks at nothing but the reports. -/
def OfReports (I : ReaderFF δ κ → Prop) : Prop := ∀ r r', SameReports r r' → I r → I r'

theorem OfReports.modify (hI : OfReports I) {f : ReaderFF δ κ → ReaderFF δ κ}
    (hf : ∀ r, SameReports r (f r)) :
    Proc.Keeps I (Proc.modify f : Proc Fault (ReaderFF δ κ) Unit) := fun r h =>
  hI r (f r) (hf r) h

/-- A call of the stream keeps what is said of the reports. -/
theorem OfReports.onStream (hI : OfReports I) {α : Type}
    (p : StreamId → Proc Fault (StreamReader δ κ) α) : Proc.Keeps I (onStream p) := by
  intro r h
  rcases hs : r.stream with _ | s
  · unfold ReaderFF.onStream
    rw [Proc.get_bind_apply, hs]
    exact h
  · rw [onStream_apply hs]
    exact hI r _ ⟨rfl, rfl, rfl⟩ h

theorem sameReports_handleFrame (frame : Frame) (r : ReaderFF δ κ) :
    SameReports r (r.handleFrame frame) := ⟨rfl, rfl, rfl⟩

/-- A read keeps what is said of the reports. -/
theorem OfReports.readFrame (hI : OfReports I) : Proc.Keeps I (readFrame D C) := by
  unfold ReaderFF.readFrame
  refine Proc.keeps_bind (hI.onStream _) fun frame => ?_
  refine Proc.keeps_bind (hI.onStream _) fun isLastKeyFrame => ?_
  refine Proc.keeps_bind (hI.modify fun _ => ⟨rfl, rfl, rfl⟩) fun _ => ?_
  have hlog : Proc.Keeps I (do
      let r ← Proc.get
      if r.lastValidFrame.isNone then
        Proc.throw Fault.nullDeref : Proc Fault (ReaderFF δ κ) Unit) :=
    Proc.keeps_bind Proc.keeps_get fun r =>
      Proc.keeps_ite (fun _ => Proc.keeps_throw _) fun _ => Proc.keeps_pure _
  cases frame with
  | none => exact Proc.keeps_bind (hI.modify fun _ => ⟨rfl, rfl, rfl⟩) fun _ => hlog
  | some frame => exact Proc.keeps_bind (hI.modify (sameReports_handleFrame frame)) fun _ => hlog

/-- The reading up to a position keeps what is said of the reports. -/
theorem OfReports.setPositionLoop (hI : OfReports I) (pos : TimestampFF) (fuel : Nat)
    (next : TimestampFF) (duration : TimeFF) :
    Proc.Keeps I (setPositionLoop D C pos fuel next duration) := by
  induction fuel generalizing next duration with
  | zero => exact Proc.keeps_throw _
  | succ fuel ih =>
    unfold ReaderFF.setPositionLoop
    refine Proc.keeps_bind Proc.keeps_get fun r => ?_
    refine Proc.keeps_ite (fun _ => Proc.keeps_pure _) fun _ => ?_
    refine Proc.keeps_bind hI.readFrame fun _ => ?_
    refine Proc.keeps_bind (hI.onStream _) fun next => ?_
    exact Proc.keeps_bind (hI.onStream _) fun fromStream => ih _ _

/-! ## Errors are not reported before the end -/

/-- The reader may be in error, but no observer was told; and disabled observers are parked. -/
structure Unreported (r : ReaderFF δ κ) : Prop where
  state : r.state = .reading ∨ r.state = .paused ∨ r.state = .error
  unsent : ∀ sent ∈ r.sentStates, sent.2 ≠ .error
  parked : r.readerObservers.enabled = false → r.readerObservers.subscribers = []

/-- The reader reads or pauses. -/
def Running (r : ReaderFF δ κ) : Prop := r.Unreported ∧ r.state ≠ .error

/-- That nothing was reported is said of the reports. -/
theorem unreported_ofReports : OfReports (Unreported (δ := δ) (κ := κ)) := by
  intro r r' hsame h
  refine ⟨?_, ?_, ?_⟩
  · rw [hsame.state]
    exact h.state
  · rw [hsame.sentStates]
    exact h.unsent
  · rw [hsame.readerObservers]
    exact h.parked

theorem running_ofReports : OfReports (Running (δ := δ) (κ := κ)) := by
  intro r r' hsame h
  refine ⟨unreported_ofReports r r' hsame h.1, ?_⟩
  rw [hsame.state]
  exact h.2

/-- A state that observers may be told while the worker is in its loop. -/
theorem Running.setReaderState {r : ReaderFF δ κ} (h : r.Running) {state : ReaderState}
    (hstate : state = .reading ∨ state = .paused) :
    (ReaderFF.setReaderState state r).2.Running := by
  have hne : state ≠ .error := by
    rcases hstate with rfl | rfl <;> decide
  refine ⟨⟨hstate.imp_right .inl, ?_, h.1.parked⟩, hne⟩
  intro sent hsent
  rcases List.mem_append.mp hsent with hsent | hsent
  · exact h.1.unsent sent hsent
  · obtain ⟨handler, -, rfl⟩ := List.mem_map.mp hsent
    exact hne

/-- A reader that runs reads or is paused. -/
theorem Running.state_eq {r : ReaderFF δ κ} (h : r.Running) :
    r.state = .reading ∨ r.state = .paused := by
  rcases h.1.state with hstate | hstate | hstate
  · exact .inl hstate
  · exact .inr hstate
  · exact absurd hstate h.2

/-- While the observers are disabled, a seek may fail without a word. -/
def Muted (r : ReaderFF δ κ) : Prop := r.Unreported ∧ r.readerObservers.subscribers = []

theorem muted_ofReports : OfReports (Muted (δ := δ) (κ := κ)) := by
  intro r r' hsame h
  refine ⟨unreported_ofReports r r' hsame h.1, ?_⟩
  rw [hsame.readerObservers]
  exact h.2

/-- A seek keeps the observers disabled. -/
theorem muted_seek (pos : TimestampFF) : Proc.Keeps Muted (ReaderFF.seek D C pos) := by
  unfold ReaderFF.seek
  refine Proc.keeps_bind (muted_ofReports.onStream _) fun _ => ?_
  refine Proc.keeps_bind (muted_ofReports.onStream _) fun _ => ?_
  refine Proc.keeps_bind (muted_ofReports.onStream _) fun lastSeekResult => ?_
  refine Proc.keeps_ite (fun _ => ?_) fun _ => ?_
  · intro r h
    refine ⟨⟨.inr (.inr rfl), ?_, h.1.parked⟩, h.2⟩
    -- nobody is subscribed while the error is set
    show ∀ sent ∈ r.sentStates ++ r.readerObservers.performForEach.map _, _
    rw [EventHandlerList.performForEach, h.2, List.map_nil, List.append_nil]
    exact h.1.unsent
  · exact Proc.keeps_bind (muted_ofReports.onStream _) fun _ => Proc.keeps_pure _

/-- The reading up to a position ends in the state that was before. -/
theorem running_readUpTo (pos : TimestampFF) {prevState : ReaderState}
    (hprev : prevState = .reading ∨ prevState = .paused) :
    Proc.Keeps Running (readUpTo D C pos prevState) := by
  have hI : OfReports (Running (δ := δ) (κ := κ)) := running_ofReports
  unfold readUpTo
  refine Proc.keeps_bind (hI.onStream _) fun next => ?_
  refine Proc.keeps_bind (hI.onStream _) fun duration => ?_
  refine Proc.keeps_bind (hI.modify fun _ => ⟨rfl, rfl, rfl⟩) fun _ => ?_
  refine Proc.keeps_bind Proc.keeps_get fun r => ?_
  refine Proc.keeps_bind (hI.setPositionLoop _ _ _ _) fun _ => ?_
  refine Proc.keeps_bind (Proc.keeps_modify ?_) fun _ => ?_
  · rintro r ⟨h, hne⟩
    refine ⟨⟨h.state, h.unsent, fun hdisabled => ?_⟩, hne⟩
    have henabled : r.readerObservers.enable.enabled = true := by
      unfold EventHandlerList.enable
      split
      · assumption
      · rfl
    rw [enableObservers, henabled] at hdisabled
    cases hdisabled
  refine Proc.keeps_get_bind fun r hr => ?_
  refine Proc.keeps_ite (fun _ r' hr' => hr'.setReaderState hr.state_eq) fun _ => ?_
  refine Proc.keeps_bind (hI.onStream _) fun _ => ?_
  refine Proc.keeps_bind (hI.modify fun _ => ⟨rfl, rfl, rfl⟩) fun _ => ?_
  exact Proc.keeps_bind hI.readFrame fun _ r hr => hr.setReaderState hprev

/-- A call may leave the reader in error, with its observers disabled and not told. -/
theorem unreported_setPositionImpl (pos : TimestampFF) :
    Proc.Leads Running Unreported (setPositionImpl D C pos) := by
  have hfst : ∀ r : ReaderFF δ κ, r.Running → r.Unreported := fun _ h => h.1
  unfold setPositionImpl
  refine Proc.leads_bind (J := Running) keeps_getDuration hfst fun duration => ?_
  refine Proc.leads_ite (fun _ r h => h.1) fun _ => ?_
  refine Proc.leads_bind (J := Running) keeps_getPosition hfst fun _ => ?_
  refine Proc.leads_bind (J := fun r => r.Running ∧ r.readerObservers.subscribers = []) ?_
    (fun _ h => h.1.1) fun _ => ?_
  · rintro r ⟨h, hne⟩
    have hsubscribers : r.readerObservers.disable.subscribers = [] := by
      unfold EventHandlerList.disable
      rcases henabled : r.readerObservers.enabled with _ | _
      · simpa using h.parked henabled
      · rfl
    exact ⟨⟨⟨h.state, h.unsent, fun _ => hsubscribers⟩, hne⟩, hsubscribers⟩
  refine Proc.leads_get_bind fun r hr => ?_
  have hprev := hr.1.state_eq
  refine Proc.leads_bind (I := Muted) (J := Muted) (muted_seek _) (fun _ h => h.1) (fun _ => ?_)
    r ⟨hr.1.1, hr.2⟩
  refine Proc.leads_get_bind fun r' hr' => ?_
  split
  · exact hr'.1
  · rename_i hne
    exact (running_readUpTo _ hprev r' ⟨hr'.1, hne⟩).1

/-- A forced handling leaves what the handling leaves unreported. -/
theorem unreported_forceHandle {p : Proc Fault (ReaderFF δ κ) Unit}
    (hp : Proc.Leads Running Unreported p) : Proc.Leads Running Unreported (forceHandle p) := by
  unfold forceHandle
  refine Proc.leads_bind (J := Running) (running_ofReports.modify fun _ => ⟨rfl, rfl, rfl⟩)
    (fun _ h => h.1) fun _ => ?_
  refine Proc.leads_bind (J := Unreported) hp (fun _ h => h) fun _ => ?_
  exact unreported_ofReports.modify fun _ => ⟨rfl, rfl, rfl⟩

/-- Whatever a handler does, and however it ends, no error was reported. -/
theorem unreported_handleEvent (event : ReaderEvent) :
    Proc.Leads Running Unreported (handleEvent D C event) := by
  have hread : Proc.Leads Running Unreported (readFrame D C) :=
    Proc.Keeps.leads running_ofReports.readFrame (fun _ h => h) fun _ h => h.1
  have hset : ∀ f : TimestampFF → TimestampFF, Proc.Leads Running Unreported (do
      let position ← getPosition
      setPositionImpl D C (f position)) := fun f =>
    Proc.leads_bind (J := Running) keeps_getPosition (fun _ h => h.1) fun _ =>
      unreported_setPositionImpl _
  cases event with
  | play | pause | stop => exact fun r h => ⟨h.1.state, h.1.unsent, h.1.parked⟩
  | stepForward =>
    refine Proc.leads_get_bind fun r h => ?_
    exact Proc.leads_ite (fun _ r h => h.1) (fun _ => unreported_forceHandle hread) r h
  | stepBackward =>
    refine Proc.leads_get_bind fun r h => ?_
    exact Proc.leads_ite (fun _ r h => h.1) (fun _ => unreported_forceHandle (hset _)) r h
  | rewindForward => exact unreported_forceHandle (hset _)
  | rewindBackward => exact unreported_forceHandle (hset _)
  | setPosition timestamp => exact unreported_setPositionImpl _

end ReaderFF

namespace ReaderWorker

variable {δ κ : Type} {D : IDemuxer δ} {C : CodecOps κ}

/-! ## The worker in its loop -/

/-- Where the loop's condition was true when the worker last looked. -/
def Inside (pc : ReaderPc) : Prop := pc ∉ [.head, .leaving, .finished, .crashed]

/-- Until the worker has ended no error was reported, and inside the loop there is none to
report. -/
structure LoopReports (w : ReaderWorker δ κ) : Prop where
  unreported : w.pc ≠ .finished → w.reader.Unreported
  running : Inside w.pc → w.reader.Running

theorem loopReports_of_unreported {w : ReaderWorker δ κ} (h : w.reader.Unreported)
    (hpc : ¬Inside w.pc) : w.LoopReports :=
  ⟨fun _ => h, fun hinside => absurd hinside hpc⟩

theorem loopReports_of_running {w : ReaderWorker δ κ} (h : w.reader.Running) : w.LoopReports :=
  ⟨fun _ => h.1, fun _ => h⟩

theorem loopReports_of_finished {w : ReaderWorker δ κ} (hpc : w.pc = .finished) :
    w.LoopReports :=
  ⟨fun hne => absurd hpc hne, fun hinside => absurd hinside (by simp [Inside, hpc])⟩

theorem loopReports_afterCall {w : ReaderWorker δ κ} {result : Except Fault Unit × ReaderFF δ κ}
    (h : result.2.Unreported) : (afterCall result w).LoopReports := by
  rcases result with ⟨e | _, r⟩
  · cases e <;> exact loopReports_of_unreported h (by simp [Inside, afterCall])
  · exact loopReports_of_unreported h (by simp [Inside, afterCall])

/-- The loop goes on in no state of error. -/
theorem loopReports_condition {w : ReaderWorker δ κ} (h : w.reader.Unreported) (pc : ReaderPc) :
    LoopReports { w with pc := if w.reader.needBreakReading then .leaving else pc } := by
  rcases hbreak : w.reader.needBreakReading with _ | _
  · exact loopReports_of_running
      ⟨h, ((ReaderFF.needBreakReading_eq_false_iff _).mp hbreak).1.2.1⟩
  · exact loopReports_of_unreported h (by simp [Inside])

/-- A step of the worker keeps what is reported where it stands. -/
theorem LoopReports.works {w w' : ReaderWorker δ κ} (h : w.LoopReports)
    (hs : Works D C w w') : w'.LoopReports := by
  have hrunning : Inside w.pc → w.reader.Running := h.running
  have hset : ∀ {r : ReaderFF δ κ} {state : ReaderState}, r.Running →
      state = .reading ∨ state = .paused → (ReaderFF.setReaderState state r).2.Running :=
    fun hr hstate => hr.setReaderState hstate
  have hcontinue : ∀ value, w.reader.Running →
      ReaderFF.Running { w.reader with continueReading := value } :=
    fun value => ReaderFF.running_ofReports w.reader _ ⟨rfl, rfl, rfl⟩
  cases hs with
  | starts hpc => exact loopReports_of_running (hset (hrunning (by simp [Inside, hpc])) (.inl rfl))
  | tests pc hpc =>
    refine loopReports_condition (h.unreported ?_) _
    rcases hpc with hpc | hpc <;> simp [hpc]
  | idles hpc => exact loopReports_of_running (hrunning (by simp [Inside, hpc]))
  | handles item hpc =>
    exact loopReports_afterCall
      (ReaderFF.unreported_handleEvent _ _ (hrunning (by simp [Inside, hpc])))
  | crashes hpc =>
    exact loopReports_of_unreported (hrunning (by simp [Inside, hpc])).1 (by simp [Inside])
  | goesOn value hpc =>
    exact loopReports_of_running (hcontinue value (hrunning (by simp [Inside, hpc])))
  | pauses value hpc =>
    exact loopReports_of_running
      (hset (hcontinue value (hrunning (by simp [Inside, hpc]))) (.inr rfl))
  | waits pc hpc =>
    refine loopReports_of_running (hrunning ?_)
    rcases hpc with hpc | hpc | hpc <;> simp [Inside, hpc]
  | reads hpc =>
    have hread := ReaderFF.running_ofReports.readFrame (D := D) (C := C) _
      (hset (hrunning (by simp [Inside, hpc])) (.inl rfl))
    exact loopReports_afterCall hread.1
  | leaves => exact loopReports_of_finished (finished_leaveLoop w)

/-- Waking the worker reports nothing. -/
theorem LoopReports.wake {w : ReaderWorker δ κ} (h : w.LoopReports) : w.wake.LoopReports := by
  unfold ReaderWorker.wake
  split
  · rename_i hpc
    exact loopReports_of_running (h.running (by simp [Inside, hpc]))
  · exact h

/-- Every step keeps what is reported where the worker stands. -/
theorem LoopReports.step {w w' : ReaderWorker δ κ} {l : ReaderLabel} (h : w.LoopReports)
    (hs : ReaderWorker.step D C w l = some w') : w'.LoopReports := by
  cases steps_of_step hs with
  | posts event => exact ⟨h.unreported, h.running⟩
  | notifies => exact ⟨h.wake.unreported, h.wake.running⟩
  | works _ hworks => exact h.works hworks
  | wakes => exact h.wake
  | stops =>
    have hsame : ReaderFF.SameReports w.reader { w.reader with needStop := true } := ⟨rfl, rfl, rfl⟩
    exact ⟨fun hpc => ReaderFF.unreported_ofReports _ _ hsame (h.unreported hpc),
      fun hpc => ReaderFF.running_ofReports _ _ hsame (h.running hpc)⟩

/-- The observers of an opened reader have been told nothing. -/
theorem loopReports_of_reachable {streamReader : StreamReader δ κ} {stream : Option StreamId}
    {mode : ReaderMode} {frameObservers readerObservers : List Nat} {w : ReaderWorker δ κ}
    (hw : (machine D C (ReaderFF.opened streamReader stream mode frameObservers
      readerObservers)).Reachable w) : w.LoopReports := by
  refine hw.invariant ?_ fun w l w' h hs => h.step hs
  have hopened : ReaderFF.Running { ReaderFF.opened (κ := κ) streamReader stream mode frameObservers
      readerObservers with continueReading := false } :=
    ⟨⟨.inl rfl, by simp [ReaderFF.opened], nofun⟩, by simp [ReaderFF.opened]⟩
  exact loopReports_of_running (hopened.setReaderState (.inl rfl))

/-! ## The end of the worker -/

/-- A stop was asked for, by the flag or by an event. -/
def StopRequested (w : ReaderWorker δ κ) : Prop :=
  w.reader.needStop = true ∨ ∃ item ∈ w.posted, item.event = .stop

/-- The reader is in error and every state observer was told. -/
def ErrorReported (w : ReaderWorker δ κ) : Prop :=
  w.reader.state = .error ∧
    ∀ handler ∈ w.reader.readerObservers.handlers, (handler, .error) ∈ w.reader.sentStates

/-- A worker that has ended without being asked to has reported the error, and none has ended in a
state that says that it reads or pauses. -/
def NotSilent (w : ReaderWorker δ κ) : Prop :=
  w.pc = .finished →
    (¬w.StopRequested → w.ErrorReported) ∧ w.reader.state ≠ .reading ∧ w.reader.state ≠ .paused

/-- What the worker must find behind its loop: without the stop flag, the loop's condition broken
and the state observers enabled; with it, the error that a refused seek left. -/
def LeavesLoudly (w : ReaderWorker δ κ) : Prop :=
  if w.reader.needStop then w.reader.state = .error
  else w.reader.needBreakReading = true ∧
    (w.StopRequested ∨ w.reader.readerObservers.enabled = true ∨
      w.reader.readerObservers.handlers = [])

/-- Nothing is posted behind the loop, since no reader gets to the end of its file. -/
theorem leaveLoop_eq {w : ReaderWorker δ κ} (h : w.reader.Unreported) :
    w.leaveLoop =
      if w.reader.needStop = false ∧ w.reader.needBreakReading = true then
        { w with
          reader := (ReaderFF.setReaderState .error { w.reader with continueReading := false }).2
          pc := .finished }
      else { w with reader := { w.reader with continueReading := false }, pc := .finished } := by
  have hstate : w.reader.state ≠ .endOfFile := by
    rcases h.state with hstate | hstate | hstate <;> simp [hstate]
  have hbreak : ReaderFF.needBreakReading { w.reader with continueReading := false } =
      w.reader.needBreakReading := rfl
  simp only [leaveLoop, hbreak, hstate, if_false]
  rcases w.reader.needStop with _ | _ <;> simp

/-- A worker that was stopped ends in the state it had. -/
theorem notSilent_leaveLoop_of_stop {w : ReaderWorker δ κ} (h : w.reader.Unreported)
    (hstop : w.reader.needStop = true) : w.leaveLoop.NotSilent ↔ w.LeavesLoudly := by
  rw [leaveLoop_eq h, if_neg (by simp [hstop]), LeavesLoudly, if_pos hstop]
  constructor
  · intro hloud
    obtain ⟨-, hreading, hpaused⟩ := hloud rfl
    rcases h.state with hstate | hstate | hstate
    · exact absurd hstate hreading
    · exact absurd hstate hpaused
    · exact hstate
  · intro herror _
    refine ⟨fun hnone => absurd (.inl hstop) hnone, ?_, ?_⟩
    · exact fun hreading => by cases hreading.symm.trans herror
    · exact fun hpaused => by cases hpaused.symm.trans herror

/-- A worker that was not stopped reports the error, if it comes to that, to the observers that are
enabled. -/
theorem notSilent_leaveLoop_of_break {w : ReaderWorker δ κ} (h : w.reader.Unreported)
    (hstop : w.reader.needStop = false) : w.leaveLoop.NotSilent ↔ w.LeavesLoudly := by
  rw [LeavesLoudly, if_neg (by simp [hstop]), leaveLoop_eq h]
  rcases hbreak : w.reader.needBreakReading with _ | _
  · -- a method threw and the state is the one in which it was called
    rw [if_neg (by simp)]
    have hne : w.reader.state ≠ .error :=
      ((ReaderFF.needBreakReading_eq_false_iff _).mp hbreak).1.2.1
    refine ⟨fun hloud => ?_, fun hcond => absurd hcond.1 (by simp)⟩
    obtain ⟨-, hreading, hpaused⟩ := hloud rfl
    rcases (ReaderFF.Running.state_eq ⟨h, hne⟩) with hstate | hstate
    · exact absurd hstate hreading
    · exact absurd hstate hpaused
  · rw [if_pos ⟨hstop, rfl⟩]
    rcases henabled : w.reader.readerObservers.enabled with _ | _
    · -- nobody is subscribed, and no error was reported before
      have hsent : w.reader.sentStates ++ w.reader.readerObservers.performForEach.map
          (fun handler => (handler, ReaderState.error)) = w.reader.sentStates := by
        rw [EventHandlerList.performForEach, h.parked henabled, List.map_nil, List.append_nil]
      constructor
      · intro hloud
        refine ⟨rfl, ?_⟩
        by_cases hrequested : w.StopRequested
        · exact .inl hrequested
        · refine .inr (.inr (List.eq_nil_iff_forall_not_mem.mpr fun handler hmem => ?_))
          have htold : (handler, ReaderState.error) ∈ w.reader.sentStates ++ _ :=
            ((hloud rfl).1 hrequested).2 handler hmem
          rw [hsent] at htold
          exact h.unsent _ htold rfl
      · rintro ⟨-, hrequested | hcond | hnone⟩ _
        · exact ⟨fun hnot => absurd hrequested hnot, nofun, nofun⟩
        · cases hcond
        · refine ⟨fun _ => ⟨rfl, fun handler hmem => ?_⟩, nofun, nofun⟩
          have hmem' : handler ∈ w.reader.readerObservers.handlers := hmem
          rw [hnone] at hmem'
          cases hmem'
    · refine ⟨fun _ => ⟨rfl, .inr (.inl rfl)⟩, fun _ _ => ⟨fun _ => ⟨rfl, ?_⟩, nofun, nofun⟩⟩
      intro handler hmem
      refine List.mem_append_right _ (List.mem_map.mpr ⟨handler, ?_, rfl⟩)
      have hmem' : handler ∈ w.reader.readerObservers.handlers := hmem
      rw [EventHandlerList.handlers, if_pos henabled] at hmem'
      exact hmem'

/-- A worker whose reader has reported nothing yet does not end silently exactly when it leaves its
loop loudly. -/
theorem notSilent_leaveLoop_iff {w : ReaderWorker δ κ} (h : w.reader.Unreported) :
    w.leaveLoop.NotSilent ↔ w.LeavesLoudly := by
  rcases hstop : w.reader.needStop with _ | _
  · exact notSilent_leaveLoop_of_break h hstop
  · exact notSilent_leaveLoop_of_stop h hstop

/-- The step with which the worker ends is the one behind its loop. -/
theorem leaving_of_finished {w w' : ReaderWorker δ κ} (hs : Works D C w w')
    (hpc : w'.pc = .finished) : w.pc = .leaving ∧ w' = w.leaveLoop := by
  cases hs with
  | leaves hleaving => exact ⟨hleaving, rfl⟩
  | handles | reads => exact absurd hpc (finished_not_afterCall _ _)
  | tests pc _ hgo =>
    dsimp only at hpc
    split at hpc
    · cases hpc
    · rcases hgo with rfl | rfl <;> cases hpc
  | waits pc _ hgo =>
    obtain rfl : pc = .finished := hpc
    simp at hgo
  | starts | idles | crashes | goesOn | pauses => cases hpc

/-- After its end the worker's report stays, and a stop can still be asked for. -/
theorem NotSilent.of_later {w w' : ReaderWorker δ κ} (h : w.NotSilent) (hpc : w.pc = .finished)
    (hsame : ReaderFF.SameReports w.reader w'.reader) (hstop : w.StopRequested → w'.StopRequested) :
    w'.NotSilent := by
  intro _
  obtain ⟨herror, hreading, hpaused⟩ := h hpc
  refine ⟨fun hnone => ?_, by rwa [hsame.state], by rwa [hsame.state]⟩
  obtain ⟨hstate, htold⟩ := herror fun hrequested => hnone (hstop hrequested)
  refine ⟨hsame.state.trans hstate, ?_⟩
  rw [hsame.readerObservers, hsame.sentStates]
  exact htold

theorem NotSilent.wake {w : ReaderWorker δ κ} (h : w.NotSilent) : w.wake.NotSilent := by
  unfold ReaderWorker.wake
  split
  · exact nofun
  · exact h

/-- A step reports an end unless it is the last one of the worker and finds its loop left in
silence. -/
theorem notSilent_step_iff {w w' : ReaderWorker δ κ} {l : ReaderLabel} (hreports : w.LoopReports)
    (h : w.NotSilent) (hs : ReaderWorker.step D C w l = some w') :
    w'.NotSilent ↔ (l = .work → w.pc = .leaving → w.LeavesLoudly) := by
  cases steps_of_step hs with
  | works _ hworks =>
    by_cases hleaving : w.pc = .leaving
    · obtain rfl : w' = w.leaveLoop := by
        cases hworks with
        | leaves => rfl
        | tests _ hpc => rcases hpc with hpc | hpc <;> cases hpc.symm.trans hleaving
        | waits _ hpc => rcases hpc with hpc | hpc | hpc <;> cases hpc.symm.trans hleaving
        | starts hpc | idles hpc | handles _ hpc | crashes hpc | goesOn _ hpc | pauses _ hpc
        | reads hpc => cases hpc.symm.trans hleaving
      rw [notSilent_leaveLoop_iff (hreports.unreported (by simp [hleaving]))]
      simp [hleaving]
    · refine ⟨fun _ _ hpc => absurd hpc hleaving, fun _ hpc => ?_⟩
      exact absurd (leaving_of_finished hworks hpc).1 hleaving
  -- posters and a stop leave the report alone
  | posts event =>
    refine ⟨nofun, fun _ hpc => ?_⟩
    refine h.of_later hpc ⟨rfl, rfl, rfl⟩ (fun hstop => hstop.imp_right ?_) hpc
    rintro ⟨item, hitem, hevent⟩
    exact ⟨item, List.mem_append_left _ hitem, hevent⟩
  | notifies | wakes => exact ⟨nofun, fun _ => h.wake⟩
  | stops =>
    refine ⟨nofun, fun _ hpc => ?_⟩
    exact h.of_later hpc ⟨rfl, rfl, rfl⟩ (fun _ => .inl rfl) hpc

/-- In every run of the worker and the posters, on any file and over any demuxer and codec, no
state is one of a worker that has ended in silence, exactly when the worker finds what it needs
behind its loop. -/
theorem not_silent_iff {streamReader : StreamReader δ κ} {stream : Option StreamId}
    {mode : ReaderMode} {frameObservers readerObservers : List Nat}
    {tr : List (ReaderWorker δ κ × ReaderLabel)} {w : ReaderWorker δ κ}
    (h : (machine D C (ReaderFF.opened streamReader stream mode frameObservers
      readerObservers)).Run tr w) :
    ((∀ p ∈ tr, p.1.NotSilent) ∧ w.NotSilent) ↔
      ∀ p ∈ tr, p.2 = .work → p.1.pc = .leaving → p.1.LeavesLoudly := by
  refine h.always_iff_guard (P := NotSilent)
    (C := fun w l => l = .work → w.pc = .leaving → w.LeavesLoudly) ?_ ?_
  · intro hpc
    cases hpc
  · intro w l w' hw hsilent hs
    exact notSilent_step_iff (loopReports_of_reachable hw) hsilent hs

/-! ### Eleven invalid frames, and a step backward before any frame -/

/-- A file whose last pictures bear one timestamp. -/
def crowdedEnd : List DataPacket :=
  ⟨0, 0, 0, 40, true, 100⟩ :: List.replicate 13 ⟨0, 40, 40, 0, false, 100⟩

/-- The worker of a reader that plays it with a codec that is twelve pictures late. -/
def crowdedMachine : Machine (ReaderWorker (DemuxerQueue Unit) (List DataPacket)) ReaderLabel :=
  machine (DemuxerQueue.toIDemuxer (fileParser crowdedEnd 120)) (fifoCodec 12 (25, 1))
    (ReaderFF.opened (StreamReader.opened (fileParser crowdedEnd 120) crowdedEnd () 0 []) (some 0)
      .all [1] [1])

/-- One frame and eleven reads without one. -/
def stepTwelve : List ReaderLabel :=
  .work :: (List.replicate 12 [.post .stepForward, .notify, .work, .work]).flatten ++ [.work, .work]

/-- The first event asks for the position, and the worker ends. -/
def stepBackFirst : List ReaderLabel :=
  [.work, .post .stepBackward, .notify, .work, .work, .work]

/-- The reader gives up after eleven reads without a frame, and says so. -/
theorem not_silent_iff_crowded :
    ∃ w, crowdedMachine.Run (crowdedMachine.trace crowdedMachine.init stepTwelve) w ∧
      (((∀ p ∈ crowdedMachine.trace crowdedMachine.init stepTwelve, p.1.NotSilent) ∧
          w.NotSilent) ↔
        ∀ p ∈ crowdedMachine.trace crowdedMachine.init stepTwelve,
          p.2 = .work → p.1.pc = .leaving → p.1.LeavesLoudly) ∧
      w.pc = .finished ∧ w.reader.state = .error ∧
      w.reader.sentStates.getLast? = some (1, .error) := by
  obtain ⟨w, -, hrun, hw⟩ := Machine.exists_run_of_exec crowdedMachine stepTwelve
    (fun w => w.pc = .finished ∧ w.reader.state = .error ∧
      w.reader.sentStates.getLast? = some (1, .error)) (by decide +kernel)
  exact ⟨w, hrun, not_silent_iff hrun, by simpa using hw⟩

/-- Nobody asked for a stop, and the worker is gone while the reader says that it reads. -/
theorem gone_while_reading :
    ¬∀ (tr : List (ReaderWorker (DemuxerQueue Unit) (List DataPacket) × ReaderLabel)) w,
      shortMachine.Run tr w → w.NotSilent := by
  intro hall
  obtain ⟨w, -, hrun, hw⟩ := Machine.exists_run_of_exec shortMachine stepBackFirst
    (fun w => w.pc = .finished ∧ w.reader.state = .reading) (by decide +kernel)
  obtain ⟨hpc, hstate⟩ : w.pc = .finished ∧ w.reader.state = .reading := by simpa using hw
  exact (hall _ w hrun hpc).2.1 hstate

end ReaderWorker

end Seekira.Model
