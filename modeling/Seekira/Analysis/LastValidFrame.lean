import Seekira.Analysis.ReaderCalls
import Seekira.Analysis.ReaderEvents
import Seekira.Analysis.SetPositionExits
import Seekira.Model.ReaderRecord

/-!
# The last valid frame before the first frame

`m_last_valid_frame` is set by the first read that returns a frame and never reset.
Before that, only a step forward and the loop's own read may come first, and only if
what they read is valid: a step backward and the rewinds ask for the position at
once, and so does `set_position` for a position within the file, since its log
statement prints the present one.
-/

set_option autoImplicit false

namespace Seekira.Model

open Library

namespace ReaderFF

variable {δ κ : Type} {D : IDemuxer δ} {C : CodecOps κ}

/-! ## Erasing the record -/

theorem erase_noteLastValidFrame :
    (noteLastValidFrame : Recorded Fault Bool (ReaderFF δ κ) Unit).erase = pure () := rfl

theorem erase_recordedGetPosition :
    (recordedGetPosition : Recorded Fault Bool (ReaderFF δ κ) TimestampFF).erase = getPosition := by
  unfold recordedGetPosition
  rw [Recorded.erase_bind, erase_noteLastValidFrame, Proc.pure_bind, Recorded.erase_lift]

theorem erase_recordedReadFrame :
    (recordedReadFrame D C : Recorded Fault Bool (ReaderFF δ κ) Unit).erase = readFrame D C := by
  unfold recordedReadFrame readFrame
  simp only [Recorded.erase_bind, Recorded.erase_lift]
  congr 1
  funext frame
  cases frame <;>
    simp only [Recorded.erase_bind, Recorded.erase_lift, Recorded.erase_ite, Recorded.erase_pure,
      erase_noteLastValidFrame, Proc.pure_bind]

theorem erase_recordedSetPositionLoop (pos : TimestampFF) (fuel : Nat) (next : TimestampFF)
    (duration : TimeFF) :
    (recordedSetPositionLoop D C pos fuel next duration :
      Recorded Fault Bool (ReaderFF δ κ) Unit).erase = setPositionLoop D C pos fuel next duration := by
  induction fuel generalizing next duration with
  | zero => rfl
  | succ fuel ih =>
    unfold recordedSetPositionLoop setPositionLoop
    simp only [Recorded.erase_bind, Recorded.erase_lift, Recorded.erase_ite, Recorded.erase_pure,
      erase_recordedReadFrame, ih]

theorem erase_recordedReadUpTo (pos : TimestampFF) (prevState : ReaderState) :
    (recordedReadUpTo D C pos prevState : Recorded Fault Bool (ReaderFF δ κ) Unit).erase =
      readUpTo D C pos prevState := by
  unfold recordedReadUpTo readUpTo
  simp only [Recorded.erase_bind, Recorded.erase_lift, Recorded.erase_ite,
    erase_recordedSetPositionLoop, erase_recordedReadFrame, erase_noteLastValidFrame,
    Proc.pure_bind]

theorem erase_recordedSetPositionImpl (pos : TimestampFF) :
    (recordedSetPositionImpl D C pos : Recorded Fault Bool (ReaderFF δ κ) Unit).erase =
      setPositionImpl D C pos := by
  unfold recordedSetPositionImpl setPositionImpl
  simp only [Recorded.erase_bind, Recorded.erase_lift, Recorded.erase_ite, Recorded.erase_pure,
    erase_recordedGetPosition, erase_recordedReadUpTo]

theorem erase_recordedForceHandle {p : Recorded Fault Bool (ReaderFF δ κ) Unit}
    {q : Proc Fault (ReaderFF δ κ) Unit} (h : p.erase = q) :
    (recordedForceHandle p).erase = forceHandle q := by
  unfold recordedForceHandle forceHandle
  simp only [Recorded.erase_bind, Recorded.erase_lift, h]

/-- The recorded handler is the handler. -/
theorem erase_recordedHandleEvent (event : ReaderEvent) :
    (recordedHandleEvent D C event : Recorded Fault Bool (ReaderFF δ κ) Unit).erase =
      handleEvent D C event := by
  have hset : ∀ f : TimestampFF → TimestampFF,
      (do
        let position ← recordedGetPosition
        recordedSetPositionImpl D C (f position) :
          Recorded Fault Bool (ReaderFF δ κ) Unit).erase = (do
        let position ← getPosition
        setPositionImpl D C (f position)) := by
    intro f
    simp only [Recorded.erase_bind, erase_recordedGetPosition, erase_recordedSetPositionImpl]
  cases event with
  | play | pause | stop => rfl
  | stepForward =>
    simp only [recordedHandleEvent, recordedStepForwardImpl, handleEvent, stepForwardImpl,
      Recorded.erase_bind, Recorded.erase_lift, Recorded.erase_ite, Recorded.erase_pure,
      erase_recordedForceHandle erase_recordedReadFrame]
  | stepBackward =>
    simp only [recordedHandleEvent, recordedStepBackwardImpl, handleEvent, stepBackwardImpl,
      Recorded.erase_bind, Recorded.erase_lift, Recorded.erase_ite, Recorded.erase_pure,
      erase_recordedForceHandle (hset _)]
  | rewindForward => exact erase_recordedForceHandle (hset _)
  | rewindBackward => exact erase_recordedForceHandle (hset _)
  | setPosition timestamp => exact erase_recordedSetPositionImpl timestamp

/-! ## A frame that was read stays -/

/-- Some frame was read. -/
def HasFrame (r : ReaderFF δ κ) : Prop := r.lastValidFrame.isSome = true

/-- A change elsewhere keeps the last frame. -/
theorem hasFrame_modify {f : ReaderFF δ κ → ReaderFF δ κ}
    (hf : ∀ r, (f r).lastValidFrame = r.lastValidFrame) :
    Proc.Keeps HasFrame (Proc.modify f : Proc Fault (ReaderFF δ κ) Unit) := by
  intro r h
  rw [HasFrame, Proc.modify_apply, hf]
  exact h

theorem hasFrame_onStream {α : Type} (p : StreamId → Proc Fault (StreamReader δ κ) α) :
    Proc.Keeps HasFrame (onStream p) := by
  intro r h
  rcases hs : r.stream with _ | s
  · unfold onStream
    rw [Proc.get_bind_apply, hs]
    exact h
  · rw [onStream_apply hs]
    exact h

theorem hasFrame_setReaderState (state : ReaderState) :
    Proc.Keeps HasFrame (setReaderState state : Proc Fault (ReaderFF δ κ) Unit) :=
  hasFrame_modify fun _ => rfl

theorem hasFrame_seek (pos : TimestampFF) :
    Proc.Keeps HasFrame (ReaderFF.seek D C pos : Proc Fault (ReaderFF δ κ) Unit) := by
  unfold ReaderFF.seek
  refine Proc.keeps_bind (hasFrame_onStream _) fun _ => ?_
  refine Proc.keeps_bind (hasFrame_onStream _) fun _ => ?_
  refine Proc.keeps_bind (hasFrame_onStream _) fun lastSeekResult => ?_
  refine Proc.keeps_ite (fun _ => hasFrame_setReaderState _) fun _ => ?_
  exact Proc.keeps_bind (hasFrame_onStream _) fun _ => Proc.keeps_pure _

/-- With a frame read, the procedure keeps one and reads nothing that is null. -/
abbrev ReadsSet {α : Type} (p : Recorded Fault Bool (ReaderFF δ κ) α) : Prop :=
  Recorded.Lists HasFrame (fun set => set = true) p

theorem readsSet_note : ReadsSet (noteLastValidFrame (δ := δ) (κ := κ)) := by
  intro r h
  refine ⟨h, fun set hset => ?_⟩
  obtain rfl := List.mem_singleton.mp hset
  exact h

theorem readsSet_getPosition : ReadsSet (recordedGetPosition (δ := δ) (κ := κ)) := by
  exact Recorded.lists_bind readsSet_note fun _ => Recorded.lists_lift keeps_getPosition

theorem readsSet_readFrame : ReadsSet (recordedReadFrame D C) := by
  unfold recordedReadFrame
  have hlog : ReadsSet (do
      noteLastValidFrame
      let r ← .lift Proc.get
      if r.lastValidFrame.isNone then
        .lift (Proc.throw .nullDeref) : Recorded Fault Bool (ReaderFF δ κ) Unit) := by
    refine Recorded.lists_bind readsSet_note fun _ => ?_
    refine Recorded.lists_bind (Recorded.lists_lift Proc.keeps_get) fun r => ?_
    exact Recorded.lists_ite (Recorded.lists_lift (Proc.keeps_throw _)) (Recorded.lists_pure _)
  refine Recorded.lists_bind (Recorded.lists_lift (hasFrame_onStream _)) fun frame => ?_
  refine Recorded.lists_bind (Recorded.lists_lift (hasFrame_onStream _)) fun isLastKeyFrame => ?_
  refine Recorded.lists_bind (Recorded.lists_lift (hasFrame_modify fun _ => rfl)) fun _ => ?_
  cases frame with
  | none =>
    exact Recorded.lists_bind (Recorded.lists_lift (hasFrame_modify fun _ => rfl)) fun _ => hlog
  | some frame =>
    refine Recorded.lists_bind (Recorded.lists_lift fun r _ => ?_) fun _ => hlog
    exact rfl

theorem readsSet_setPositionLoop (pos : TimestampFF) (fuel : Nat) (next : TimestampFF)
    (duration : TimeFF) : ReadsSet (recordedSetPositionLoop D C pos fuel next duration) := by
  induction fuel generalizing next duration with
  | zero => exact Recorded.lists_lift (Proc.keeps_throw _)
  | succ fuel ih =>
    unfold recordedSetPositionLoop
    refine Recorded.lists_bind (Recorded.lists_lift Proc.keeps_get) fun r => ?_
    refine Recorded.lists_ite (Recorded.lists_pure _) ?_
    refine Recorded.lists_bind readsSet_readFrame fun _ => ?_
    refine Recorded.lists_bind (Recorded.lists_lift (hasFrame_onStream _)) fun next => ?_
    exact Recorded.lists_bind (Recorded.lists_lift (hasFrame_onStream _)) fun fromStream => ih _ _

theorem readsSet_readUpTo (pos : TimestampFF) (prevState : ReaderState) :
    ReadsSet (recordedReadUpTo D C pos prevState) := by
  unfold recordedReadUpTo
  refine Recorded.lists_bind (Recorded.lists_lift (hasFrame_onStream _)) fun next => ?_
  refine Recorded.lists_bind (Recorded.lists_lift (hasFrame_onStream _)) fun duration => ?_
  refine Recorded.lists_bind (Recorded.lists_lift (hasFrame_modify fun _ => rfl)) fun _ => ?_
  refine Recorded.lists_bind (Recorded.lists_lift Proc.keeps_get) fun r => ?_
  refine Recorded.lists_bind (readsSet_setPositionLoop _ _ _ _) fun _ => ?_
  refine Recorded.lists_bind (Recorded.lists_lift (hasFrame_modify fun _ => rfl)) fun _ => ?_
  refine Recorded.lists_bind (Recorded.lists_lift Proc.keeps_get) fun r => ?_
  refine Recorded.lists_ite (Recorded.lists_lift (hasFrame_setReaderState _)) ?_
  refine Recorded.lists_bind (Recorded.lists_lift (hasFrame_onStream _)) fun _ => ?_
  refine Recorded.lists_bind (Recorded.lists_lift (hasFrame_modify fun _ => rfl)) fun _ => ?_
  refine Recorded.lists_bind readsSet_readFrame fun _ => ?_
  exact Recorded.lists_bind readsSet_note fun _ => Recorded.lists_lift (hasFrame_setReaderState _)

theorem readsSet_setPositionImpl (pos : TimestampFF) :
    ReadsSet (recordedSetPositionImpl D C pos) := by
  unfold recordedSetPositionImpl
  refine Recorded.lists_bind (Recorded.lists_lift keeps_getDuration) fun duration => ?_
  refine Recorded.lists_ite (Recorded.lists_pure _) ?_
  refine Recorded.lists_bind readsSet_getPosition fun _ => ?_
  refine Recorded.lists_bind (Recorded.lists_lift (hasFrame_modify fun _ => rfl)) fun _ => ?_
  refine Recorded.lists_bind (Recorded.lists_lift Proc.keeps_get) fun r => ?_
  refine Recorded.lists_bind (Recorded.lists_lift (hasFrame_seek _)) fun _ => ?_
  refine Recorded.lists_bind (Recorded.lists_lift Proc.keeps_get) fun r => ?_
  exact Recorded.lists_ite (Recorded.lists_pure _) (readsSet_readUpTo _ _)

theorem readsSet_forceHandle {p : Recorded Fault Bool (ReaderFF δ κ) Unit} (hp : ReadsSet p) :
    ReadsSet (recordedForceHandle p) := by
  refine Recorded.lists_bind (Recorded.lists_lift (hasFrame_modify fun _ => rfl)) fun _ => ?_
  refine Recorded.lists_bind hp fun _ => ?_
  exact Recorded.lists_lift (hasFrame_modify fun _ => rfl)

/-- After the first frame a handler reads nothing that is null. -/
theorem readsSet_handleEvent (event : ReaderEvent) : ReadsSet (recordedHandleEvent D C event) := by
  have hset : ∀ f : TimestampFF → TimestampFF, ReadsSet (do
      let position ← recordedGetPosition
      recordedSetPositionImpl D C (f position)) := fun f =>
    Recorded.lists_bind readsSet_getPosition fun _ => readsSet_setPositionImpl _
  cases event with
  | play | pause | stop => exact Recorded.lists_lift (hasFrame_modify fun _ => rfl)
  | stepForward =>
    refine Recorded.lists_bind (Recorded.lists_lift Proc.keeps_get) fun r => ?_
    exact Recorded.lists_ite (Recorded.lists_pure _) (readsSet_forceHandle readsSet_readFrame)
  | stepBackward =>
    refine Recorded.lists_bind (Recorded.lists_lift Proc.keeps_get) fun r => ?_
    exact Recorded.lists_ite (Recorded.lists_pure _) (readsSet_forceHandle (hset _))
  | rewindForward => exact readsSet_forceHandle (hset _)
  | rewindBackward => exact readsSet_forceHandle (hset _)
  | setPosition timestamp => exact readsSet_setPositionImpl _

/-! ## Before the first frame -/

/-- The next read of the stream returns no frame. -/
def NextInvalid (D : IDemuxer δ) (C : CodecOps κ) (r : ReaderFF δ κ) : Prop :=
  ∃ s w, r.stream = some s ∧ StreamReader.readFrame D C s r.streamReader = (.ok none, w)

/-- The handler of the event follows the pointer without having set it: what it does first is to ask
for the position, or to read a frame that is not valid. -/
def NeedsFrame (D : IDemuxer δ) (C : CodecOps κ) (event : ReaderEvent) (r : ReaderFF δ κ) : Prop :=
  match event with
  | .play | .pause | .stop => False
  | .stepForward => r.continueReading = false ∧ r.NextInvalid D C
  | .stepBackward => r.continueReading = false
  | .rewindForward | .rewindBackward => True
  | .setPosition timestamp => ∃ s, r.stream = some s ∧
      (r.streamReader.streams s).hasReader = true ∧ max timestamp 0 < D.streamDuration s

/-- None of the reads recorded was one of a null pointer. -/
def AllSet (reads : List Bool) : Prop := ∀ set ∈ reads, set = true

theorem not_allSet_false : ¬AllSet [false] := by
  intro h
  cases h false (List.mem_singleton_self _)

theorem allSet_nil : AllSet [] := nofun

/-- Without a frame, `read_frame` may look when the stream has one. -/
theorem readFrame_allSet_iff {r : ReaderFF δ κ} (hnone : r.lastValidFrame = none) :
    AllSet (recordedReadFrame D C r).2 ↔ ¬r.NextInvalid D C := by
  unfold recordedReadFrame
  rcases hs : r.stream with _ | s
  · have hcall : onStream (StreamReader.readFrame D C) r = (.error .nullDeref, r) := by
      unfold onStream
      rw [Proc.get_bind_apply, hs]
      rfl
    rw [Recorded.lift_bind_error hcall]
    refine ⟨fun _ => ?_, fun _ => allSet_nil⟩
    rintro ⟨s, w, hs', -⟩
    cases hs.symm.trans hs'
  · have hcall := onStream_apply hs (StreamReader.readFrame D C)
    rcases hread : StreamReader.readFrame D C s r.streamReader with ⟨e | out, w⟩ <;>
      rw [hread] at hcall
    · rw [Recorded.lift_bind_error hcall]
      refine ⟨fun _ => ?_, fun _ => allSet_nil⟩
      rintro ⟨s', w', hs', hread'⟩
      cases hs.symm.trans hs'
      cases hread.symm.trans hread'
    · rw [Recorded.lift_bind_ok hcall,
        Recorded.lift_bind_ok (onStream_apply (r := r.withStreams w) hs _)]
      cases out with
      | none =>
        refine ⟨fun hset => absurd (hset false ?_) nofun, fun hvalid => ?_⟩
        · exact List.mem_cons.mpr (.inl (congrArg Option.isSome hnone.symm))
        · exact absurd ⟨s, w, hs, hread⟩ hvalid
      | some frame =>
        refine ⟨fun _ => ?_, fun _ set hset => ?_⟩
        · rintro ⟨s', w', hs', hread'⟩
          cases hs.symm.trans hs'
          cases hread.symm.trans hread'
        · have hset' : set ∈ [true] := hset
          exact List.mem_singleton.mp hset'

/-- A forced handling looks as the handling does. -/
theorem recordedForceHandle_reads (p : Recorded Fault Bool (ReaderFF δ κ) Unit)
    (r : ReaderFF δ κ) :
    (recordedForceHandle p r).2 = (p { r with needHandleAfterForceSetPos := true }).2 := by
  unfold recordedForceHandle
  rw [Recorded.lift_modify_bind_apply]
  rcases hp : p { r with needHandleAfterForceSetPos := true } with ⟨⟨e | _, r'⟩, reads⟩
  · rw [Recorded.bind_error hp]
  · rw [Recorded.bind_ok hp]
    exact List.append_nil reads

/-- Without a frame, asking for the position ends the handler. -/
theorem recordedGetPosition_bind_reads {α : Type} {r : ReaderFF δ κ}
    (hnone : r.lastValidFrame = none)
    (f : TimestampFF → Recorded Fault Bool (ReaderFF δ κ) α) :
    ((recordedGetPosition >>= f) r).2 = [false] := by
  have hcall : recordedGetPosition r = ((.error
      (.thrown "ReaderFF can't provide position: invalid last frame!"), r), [false]) := by
    show ((getPosition r), [r.lastValidFrame.isSome]) = _
    unfold getPosition
    rw [Proc.get_bind_apply, hnone]
    rfl
  rw [Recorded.bind_error hcall]

/-- The duration is known exactly when the file has a video stream with a reader. -/
theorem getDuration_cases (r : ReaderFF δ κ) :
    (∃ s, r.stream = some s ∧ (r.streamReader.streams s).hasReader = true ∧
      getDuration D r = (.ok (D.streamDuration s), r)) ∨
    ((∃ e r', getDuration D r = (.error e, r')) ∧
      ∀ s, r.stream = some s → (r.streamReader.streams s).hasReader = false) := by
  unfold getDuration
  rw [Proc.get_bind_apply]
  rcases hs : r.stream with _ | s
  · exact .inr ⟨⟨_, r, rfl⟩, nofun⟩
  · have hcall := onStream_apply hs (StreamReader.getDuration D)
    rcases hreader : (r.streamReader.streams s).hasReader with _ | _
    · have hanswer : StreamReader.getDuration D s r.streamReader =
          (.error (.thrown "Reader is NULL"), r.streamReader) := by
        unfold StreamReader.getDuration
        rw [Proc.get_bind_apply, hreader]
        rfl
      rw [hanswer] at hcall
      refine .inr ⟨⟨_, _, hcall⟩, ?_⟩
      · intro s' hs'
        cases hs'
        exact hreader
    · have hanswer : StreamReader.getDuration D s r.streamReader =
          (.ok (D.streamDuration s), r.streamReader) := by
        unfold StreamReader.getDuration
        rw [Proc.get_bind_apply, hreader]
        rfl
      rw [hanswer] at hcall
      exact .inl ⟨s, rfl, hreader, hcall⟩

/-- Without a frame, `set_position_impl` may look when it does not need one. -/
theorem setPositionImpl_allSet_iff {r : ReaderFF δ κ} (hnone : r.lastValidFrame = none)
    (pos : TimestampFF) : AllSet (recordedSetPositionImpl D C pos r).2 ↔
      ¬r.NeedsFrame D C (.setPosition pos) := by
  unfold recordedSetPositionImpl
  dsimp only
  rw [clamp_eq_max]
  rcases getDuration_cases (D := D) r with ⟨s, hs, hreader, hcall⟩ | ⟨⟨e, r', hcall⟩, hreader⟩
  · rw [Recorded.lift_bind_ok hcall]
    by_cases hend : max pos 0 ≥ D.streamDuration s
    · rw [if_pos hend]
      refine ⟨fun _ => ?_, fun _ => allSet_nil⟩
      rintro ⟨s', hs', -, hlt⟩
      cases hs.symm.trans hs'
      exact absurd hend (Int.not_le.mpr hlt)
    · rw [if_neg hend, recordedGetPosition_bind_reads hnone]
      refine ⟨fun h => absurd h not_allSet_false, fun hfar => ?_⟩
      exact absurd ⟨s, hs, hreader, Int.not_le.mp hend⟩ hfar
  · rw [Recorded.lift_bind_error hcall]
    refine ⟨fun _ => ?_, fun _ => allSet_nil⟩
    rintro ⟨s, hs, hreader', -⟩
    rw [hreader s hs] at hreader'
    cases hreader'

/-- Before the first frame a handler follows a null pointer exactly when the first thing it does is
to ask for the position or to read an invalid frame. -/
theorem handleEvent_allSet_iff {r : ReaderFF δ κ} (hnone : r.lastValidFrame = none)
    (event : ReaderEvent) :
    AllSet (recordedHandleEvent D C event r).2 ↔ ¬r.NeedsFrame D C event := by
  have hforced : ∀ f : TimestampFF → TimestampFF, ¬AllSet (recordedForceHandle (do
      let position ← recordedGetPosition
      recordedSetPositionImpl D C (f position)) r).2 := by
    intro f
    rw [recordedForceHandle_reads,
      recordedGetPosition_bind_reads (r := { r with needHandleAfterForceSetPos := true }) hnone]
    exact not_allSet_false
  cases event with
  | play | pause | stop => exact ⟨fun _ h => h, fun _ => allSet_nil⟩
  | stepForward =>
    show AllSet (recordedStepForwardImpl D C r).2 ↔ _
    unfold recordedStepForwardImpl
    rw [Recorded.lift_get_bind_apply]
    rcases hcontinue : r.continueReading with _ | _
    · rw [if_neg nofun, recordedForceHandle_reads,
        readFrame_allSet_iff (r := { r with needHandleAfterForceSetPos := true }) hnone]
      exact ⟨fun hvalid hneeds => hvalid hneeds.2, fun hneeds hinvalid =>
        hneeds ⟨hcontinue, hinvalid⟩⟩
    · refine ⟨fun _ hneeds => ?_, fun _ => allSet_nil⟩
      cases hcontinue.symm.trans hneeds.1
  | stepBackward =>
    show AllSet (recordedStepBackwardImpl D C r).2 ↔ _
    unfold recordedStepBackwardImpl
    rw [Recorded.lift_get_bind_apply]
    rcases hcontinue : r.continueReading with _ | _
    · rw [if_neg nofun]
      exact ⟨fun h => absurd h (hforced _), fun hneeds => absurd hcontinue hneeds⟩
    · refine ⟨fun _ hneeds => ?_, fun _ => allSet_nil⟩
      cases hcontinue.symm.trans hneeds
  | rewindForward | rewindBackward =>
    exact ⟨fun h => absurd h (hforced _), fun hneeds => absurd trivial hneeds⟩
  | setPosition timestamp => exact setPositionImpl_allSet_iff hnone timestamp

end ReaderFF

namespace ReaderWorker

variable {δ κ : Type} {D : IDemuxer δ} {C : CodecOps κ}

/-! ## Runs of the worker -/

/-- The worker's next step follows the pointer without having set it. -/
def NeedsFrame (D : IDemuxer δ) (C : CodecOps κ) (w : ReaderWorker δ κ) : Prop :=
  (w.pc = .events ∧
      ∃ item, w.eventQueue.getLast? = some item ∧ w.reader.NeedsFrame D C item.event) ∨
    (w.pc = .reading ∧ w.reader.NextInvalid D C)

/-- The next step of the worker looks at a frame that is there unless it needs one before the first
was read. -/
theorem lastValidReads_allSet_iff (w : ReaderWorker δ κ) :
    ReaderFF.AllSet (w.lastValidReads D C) ↔
      (w.reader.lastValidFrame = none → ¬w.NeedsFrame D C) := by
  rcases hframe : w.reader.lastValidFrame with _ | frame
  · simp only [true_imp_iff]
    unfold lastValidReads
    split
    · rename_i hpc
      rcases hlast : w.eventQueue.getLast? with _ | item
      · simp [NeedsFrame, hpc, hlast, ReaderFF.allSet_nil]
      · simpa [NeedsFrame, hpc, hlast] using ReaderFF.handleEvent_allSet_iff hframe item.event
    · rename_i hpc
      have hread := ReaderFF.readFrame_allSet_iff (D := D) (C := C)
        (r := (ReaderFF.setReaderState .reading w.reader).2) hframe
      have hsame : (ReaderFF.setReaderState .reading w.reader).2.NextInvalid D C ↔
          w.reader.NextInvalid D C := Iff.rfl
      simpa [NeedsFrame, hpc, hsame] using hread
    · rename_i hevents hreading
      refine ⟨fun _ => ?_, fun _ => ReaderFF.allSet_nil⟩
      rintro (⟨hpc, -⟩ | ⟨hpc, -⟩)
      · exact hevents hpc
      · exact hreading hpc
  · refine ⟨fun _ => nofun, fun _ => ?_⟩
    have hset : w.reader.HasFrame := by
      rw [ReaderFF.HasFrame, hframe]
      rfl
    unfold lastValidReads
    split
    · split
      · exact ReaderFF.allSet_nil
      · exact (ReaderFF.readsSet_handleEvent _ _ hset).2
    · exact (ReaderFF.readsSet_readFrame _ (ReaderFF.hasFrame_setReaderState _ _ hset)).2
    · exact ReaderFF.allSet_nil

theorem hasFrame_afterCall {w : ReaderWorker δ κ} {result : Except Fault Unit × ReaderFF δ κ}
    (h : result.2.HasFrame) : (afterCall result w).reader.HasFrame := by
  rcases result with ⟨e | _, r⟩
  · cases e <;> exact h
  · exact h

theorem hasFrame_works {w w' : ReaderWorker δ κ} (h : w.reader.HasFrame)
    (hs : Works D C w w') : w'.reader.HasFrame := by
  have hread := (ReaderFF.readsSet_readFrame (D := D) (C := C)).keeps
    ReaderFF.erase_recordedReadFrame
  cases hs with
  | handles item =>
    exact hasFrame_afterCall ((ReaderFF.readsSet_handleEvent _).keeps
      (ReaderFF.erase_recordedHandleEvent _) _ h)
  | reads => exact hasFrame_afterCall (hread _ (ReaderFF.hasFrame_setReaderState _ _ h))
  | leaves =>
    unfold leaveLoop
    dsimp only
    split
    · exact h
    · split <;> exact h
  | starts | tests | idles | crashes | goesOn | pauses | waits => exact h

/-- A frame that was read stays. -/
theorem hasFrame_step {w w' : ReaderWorker δ κ} {l : ReaderLabel} (h : w.reader.HasFrame)
    (hs : ReaderWorker.step D C w l = some w') : w'.reader.HasFrame := by
  cases steps_of_step hs with
  | posts | stops => exact h
  | notifies | wakes =>
    rw [← wake_reader] at h
    exact h
  | works _ hworks => exact hasFrame_works h hworks


/-- In every run, over any file, demuxer, codec and observers, `m_last_valid_frame` is set whenever
it is read exactly when no step taken before the first valid frame needs it; and the first valid
frame ends this danger for good. -/
theorem last_valid_frame_iff {streamReader : StreamReader δ κ} {stream : Option StreamId}
    {mode : ReaderMode} {frameObservers readerObservers : List Nat}
    {tr : List (ReaderWorker δ κ × ReaderLabel)} {w : ReaderWorker δ κ}
    (h : (machine D C (ReaderFF.opened streamReader stream mode frameObservers
      readerObservers)).Run tr w) :
    ((∀ p ∈ tr, p.2 = .work → ReaderFF.AllSet (p.1.lastValidReads D C)) ↔
      ∀ p ∈ tr, p.2 = .work → p.1.reader.lastValidFrame = none → ¬p.1.NeedsFrame D C) ∧
    ∀ p ∈ tr, p.1.reader.HasFrame → w.reader.HasFrame := by
  refine ⟨?_, fun p hp hframe => ?_⟩
  · constructor
    · intro hreads p hp hwork
      exact (lastValidReads_allSet_iff p.1).mp (hreads p hp hwork)
    · intro hneeds p hp hwork
      exact (lastValidReads_allSet_iff p.1).mpr (hneeds p hp hwork)
  · exact h.of_mem (Q := fun w => w.reader.HasFrame) (fun w l w' hw hs => hasFrame_step hw hs) hp
      fun w' hs => hasFrame_step hframe hs

/-! ### The first event sets a position -/

/-- A step forward, then a position is set. -/
def stepThenSet : List ReaderLabel :=
  [.work, .post .stepForward, .notify, .work, .work, .post (.setPosition 40), .notify, .work, .work]

/-- A position is set before anything was read. -/
def setFirst : List ReaderLabel :=
  [.work, .post (.setPosition 60), .notify, .work, .work]

/-- A position is set after the first frame of a short file was read. -/
theorem last_valid_frame_iff_short :
    ∃ w, shortMachine.Run (shortMachine.trace shortMachine.init stepThenSet) w ∧
      ((∀ p ∈ shortMachine.trace shortMachine.init stepThenSet, p.2 = .work →
          ReaderFF.AllSet (p.1.lastValidReads
            (DemuxerQueue.toIDemuxer (fileParser shortFile 120)) (fifoCodec 0 (25, 1)))) ↔
        ∀ p ∈ shortMachine.trace shortMachine.init stepThenSet, p.2 = .work →
          p.1.reader.lastValidFrame = none → ¬p.1.NeedsFrame
            (DemuxerQueue.toIDemuxer (fileParser shortFile 120)) (fifoCodec 0 (25, 1))) ∧
      w.reader.lastValidFrame.map Frame.ts = some 40 := by
  obtain ⟨w, -, hrun, hw⟩ := Machine.exists_run_of_exec shortMachine stepThenSet
    (fun w => w.reader.lastValidFrame.map Frame.ts = some 40) (by decide +kernel)
  exact ⟨w, hrun, (last_valid_frame_iff hrun).1, by simpa using hw⟩

/-- The handler asks for the position of a reader that has read nothing. -/
theorem position_before_first_frame :
    ¬∀ (tr : List (ReaderWorker (DemuxerQueue Unit) (List DataPacket) × ReaderLabel)) w,
      shortMachine.Run tr w → ∀ p ∈ tr, p.2 = .work → ReaderFF.AllSet (p.1.lastValidReads
        (DemuxerQueue.toIDemuxer (fileParser shortFile 120)) (fifoCodec 0 (25, 1))) := by
  intro hall
  obtain ⟨w, -, hrun, -⟩ := Machine.exists_run_of_exec shortMachine setFirst (fun _ => true)
    (by decide +kernel)
  have hreads : ((shortMachine.trace shortMachine.init setFirst).any fun p =>
      decide (p.2 = .work) && (p.1.lastValidReads
        (DemuxerQueue.toIDemuxer (fileParser shortFile 120)) (fifoCodec 0 (25, 1))).contains false) =
      true := by decide +kernel
  obtain ⟨p, hp, hfalse⟩ := List.any_eq_true.mp hreads
  obtain ⟨hwork, hmem⟩ : p.2 = .work ∧ false ∈ p.1.lastValidReads
      (DemuxerQueue.toIDemuxer (fileParser shortFile 120)) (fifoCodec 0 (25, 1)) := by
    simpa using hfalse
  exact Bool.false_ne_true (hall _ w hrun p hp hwork false hmem)

end ReaderWorker

end Seekira.Model
