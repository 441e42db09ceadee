import Seekira.Analysis.ReaderCalls
import Seekira.Analysis.ReaderRuns

/-!
# Invariants of the methods of the reader

Between its calls of `read_frame` and `seek`, a method of the reader only asks its
stream and sets flags, observers and the state.  An invariant that looks at none of
these needs a proof for the two calls only; it then holds after every method that
returns, and in every state that the worker reaches in its loop.
-/

set_option autoImplicit false

namespace Seekira.Model.ReaderFF

open Library

variable {δ κ : Type} {D : IDemuxer δ} {C : CodecOps κ} {I : ReaderFF δ κ → Prop}

/-- The stream and what the reader remembers of its frames agree. -/
structure SameFrames (r r' : ReaderFF δ κ) : Prop where
  stream : r'.stream = r.stream
  streamReader : r'.streamReader = r.streamReader
  lastValidFrame : r'.lastValidFrame = r.lastValidFrame
  prevDuration : r'.prevDuration = r.prevDuration

/-- `I` looks at nothing else, and holds again when one of the two calls returned; a seek is
called only after a frame was read. -/
structure RestoredByCalls (D : IDemuxer δ) (C : CodecOps κ) (I : ReaderFF δ κ → Prop) : Prop where
  frames : ∀ r r', SameFrames r r' → I r → I r'
  readFrame : Proc.Restores I (readFrame D C)
  seek : ∀ pos r r', r.lastValidFrame.isSome → I r → seek D C pos r = (.ok (), r') → I r'

theorem RestoredByCalls.modify (hI : RestoredByCalls D C I) {f : ReaderFF δ κ → ReaderFF δ κ}
    (hf : ∀ r, SameFrames r (f r)) :
    Proc.Restores I (Proc.modify f : Proc Fault (ReaderFF δ κ) Unit) :=
  Proc.Keeps.restores fun r h => hI.frames r (f r) (hf r) h

theorem RestoredByCalls.setReaderState (hI : RestoredByCalls D C I) (state : ReaderState) :
    Proc.Restores I (setReaderState state : Proc Fault (ReaderFF δ κ) Unit) :=
  hI.modify fun _ => ⟨rfl, rfl, rfl, rfl⟩

/-- A call that only asks the stream leaves the reader as it was. -/
theorem keeps_ask {α : Type} {p : StreamId → Proc Fault (StreamReader δ κ) α}
    (hp : ∀ s w, (p s w).2 = w) : Proc.Keeps I (onStream p) := by
  intro r h
  rcases hs : r.stream with _ | s
  · unfold onStream
    rw [Proc.get_bind_apply, hs]
    exact h
  · rw [onStream_apply hs, hp s r.streamReader]
    exact h

theorem streamPosition_asks (s : StreamId) (w : StreamReader δ κ) :
    (StreamReader.getPosition s w).2 = w := by
  unfold StreamReader.getPosition
  rw [Proc.get_bind_apply]
  split <;> rfl

theorem streamDuration_asks (s : StreamId) (w : StreamReader δ κ) :
    (StreamReader.getDuration D s w).2 = w := by
  unfold StreamReader.getDuration
  rw [Proc.get_bind_apply]
  split <;> rfl

theorem keeps_getDuration : Proc.Keeps I (getDuration D : Proc Fault (ReaderFF δ κ) TimeFF) := by
  unfold getDuration
  refine Proc.keeps_bind Proc.keeps_get fun r => ?_
  refine Proc.keeps_ite (fun _ => Proc.keeps_bind (Proc.keeps_throw _) fun _ => ?_) fun _ => ?_
  all_goals exact keeps_ask streamDuration_asks

theorem keeps_getPosition : Proc.Keeps I (getPosition (δ := δ) (κ := κ)) := by
  unfold getPosition
  refine Proc.keeps_bind Proc.keeps_get fun r => ?_
  split
  · exact Proc.keeps_throw _
  · exact Proc.keeps_pure _

/-- The position is known once a frame was read. -/
theorem getPosition_returns {r r' : ReaderFF δ κ} {position : TimestampFF}
    (h : getPosition r = (.ok position, r')) : r' = r ∧ r.lastValidFrame.isSome := by
  unfold getPosition at h
  rw [Proc.get_bind_apply] at h
  rcases hlast : r.lastValidFrame with _ | f <;> rw [hlast] at h <;> cases h
  exact ⟨rfl, rfl⟩

/-- A seek requests the position from the stream and lets it seek; what follows only asks. -/
theorem sameFrames_of_seek {s : StreamId} {pos : TimestampFF} {r r' : ReaderFF δ κ}
    (hs : r.stream = some s) (h : seek D C pos r = (.ok (), r')) :
    ∃ w₁ w₂, StreamReader.requestSeek D C s pos none r.streamReader = (.ok (), w₁) ∧
      StreamReader.doSeek D s w₁ = (.ok (), w₂) ∧ SameFrames (r.withStreams w₂) r' := by
  unfold ReaderFF.seek at h
  obtain ⟨_, r₁, hrequest, h₁⟩ := Proc.bind_inv h
  obtain ⟨_, r₂, hdo, h₂⟩ := Proc.bind_inv h₁
  obtain ⟨w₁, hw₁, rfl⟩ := onStream_inv hs hrequest
  obtain ⟨w₂, hw₂, rfl⟩ := onStream_inv (r := r.withStreams w₁) hs hdo
  refine ⟨w₁, w₂, hw₁, hw₂, ?_⟩
  have hsame : Proc.Keeps (SameFrames (r.withStreams w₂)) (do
      let lastSeekResult ← onStream fun s => do
        let w ← Proc.get
        return (w.streams s).lastSeekResult
      if !lastSeekResult then
        setReaderState .error
      else
        let _ ← onStream StreamReader.getPosition
        pure () : Proc Fault (ReaderFF δ κ) Unit) := by
    refine Proc.keeps_bind (keeps_ask fun _ _ => rfl) fun accepted => ?_
    refine Proc.keeps_ite (fun _ => Proc.keeps_modify fun r₃ h₃ => ?_) fun _ => ?_
    · exact ⟨h₃.stream, h₃.streamReader, h₃.lastValidFrame, h₃.prevDuration⟩
    · exact Proc.keeps_bind (keeps_ask streamPosition_asks) fun _ => Proc.keeps_pure _
  exact hsame.restores _ ⟨rfl, rfl, rfl, rfl⟩ () r' h₂

/-- The loop of `set_position_impl` restores what calls restore. -/
theorem RestoredByCalls.setPositionLoop (hI : RestoredByCalls D C I) (pos : TimestampFF)
    (fuel : Nat) (next : TimestampFF) (duration : TimeFF) :
    Proc.Restores I (setPositionLoop D C pos fuel next duration) := by
  induction fuel generalizing next duration with
  | zero => exact (Proc.keeps_throw _).restores
  | succ fuel ih =>
    unfold ReaderFF.setPositionLoop
    refine Proc.restores_bind Proc.keeps_get.restores fun r => ?_
    refine Proc.restores_ite (fun _ => (Proc.keeps_pure _).restores) fun _ => ?_
    refine Proc.restores_bind hI.readFrame fun _ => ?_
    refine Proc.restores_bind (keeps_ask streamPosition_asks).restores fun next => ?_
    exact Proc.restores_bind (keeps_ask fun _ _ => rfl).restores fun fromStream => ih _ _

/-- The reading up to a position restores what calls restore. -/
theorem RestoredByCalls.readUpTo (hI : RestoredByCalls D C I) (pos : TimestampFF)
    (prevState : ReaderState) : Proc.Restores I (readUpTo D C pos prevState) := by
  unfold ReaderFF.readUpTo
  refine Proc.restores_bind (keeps_ask streamPosition_asks).restores fun next => ?_
  refine Proc.restores_bind (keeps_ask fun _ _ => rfl).restores fun duration => ?_
  refine Proc.restores_bind (hI.modify fun _ => ⟨rfl, rfl, rfl, rfl⟩) fun _ => ?_
  refine Proc.restores_bind Proc.keeps_get.restores fun r => ?_
  refine Proc.restores_bind (hI.setPositionLoop _ _ _ _) fun _ => ?_
  refine Proc.restores_bind (hI.modify fun _ => ⟨rfl, rfl, rfl, rfl⟩) fun _ => ?_
  refine Proc.restores_bind Proc.keeps_get.restores fun r => ?_
  refine Proc.restores_ite (fun _ => hI.setReaderState _) fun _ => ?_
  refine Proc.restores_bind (keeps_ask streamPosition_asks).restores fun _ => ?_
  refine Proc.restores_bind (hI.modify fun _ => ⟨rfl, rfl, rfl, rfl⟩) fun _ => ?_
  exact Proc.restores_bind hI.readFrame fun _ => hI.setReaderState _

/-- `set_position_impl` restores what calls restore. -/
theorem RestoredByCalls.setPositionImpl (hI : RestoredByCalls D C I) (pos : TimestampFF) :
    Proc.Restores I (setPositionImpl D C pos) := by
  unfold ReaderFF.setPositionImpl
  refine Proc.restores_bind keeps_getDuration.restores fun duration => ?_
  refine Proc.restores_ite (fun _ => (Proc.keeps_pure _).restores) fun _ => ?_
  intro r h _ r' hret
  obtain ⟨position, r₁, hposition, hrest⟩ := Proc.bind_inv hret
  obtain ⟨rfl, hsome⟩ := getPosition_returns hposition
  rw [Proc.modify_bind_apply, Proc.get_bind_apply] at hrest
  obtain ⟨_, r₂, hseek, hreads⟩ := Proc.bind_inv hrest
  have h₂ : I r₂ := by
    refine hI.seek _ r₁.disableObservers r₂ hsome ?_ hseek
    exact hI.frames r₁ _ ⟨rfl, rfl, rfl, rfl⟩ h
  rw [Proc.get_bind_apply] at hreads
  split at hreads
  · cases hreads
    exact h₂
  · exact hI.readUpTo _ _ r₂ h₂ () r' hreads

theorem RestoredByCalls.forceHandle (hI : RestoredByCalls D C I)
    {p : Proc Fault (ReaderFF δ κ) Unit} (hp : Proc.Restores I p) :
    Proc.Restores I (forceHandle p) := by
  refine Proc.restores_bind (hI.modify fun _ => ⟨rfl, rfl, rfl, rfl⟩) fun _ => ?_
  exact Proc.restores_bind hp fun _ => hI.modify fun _ => ⟨rfl, rfl, rfl, rfl⟩

/-- Handling an event restores what calls restore. -/
theorem RestoredByCalls.handleEvent (hI : RestoredByCalls D C I) (event : ReaderEvent) :
    Proc.Restores I (handleEvent D C event) := by
  have hposition : ∀ f : TimestampFF → TimestampFF, Proc.Restores I (do
      let position ← getPosition
      ReaderFF.setPositionImpl D C (f position)) := by
    intro f
    exact Proc.restores_bind keeps_getPosition.restores fun _ => hI.setPositionImpl _
  cases event with
  | play => exact hI.modify fun _ => ⟨rfl, rfl, rfl, rfl⟩
  | pause => exact hI.modify fun _ => ⟨rfl, rfl, rfl, rfl⟩
  | stop => exact hI.modify fun _ => ⟨rfl, rfl, rfl, rfl⟩
  | stepForward =>
    refine Proc.restores_bind Proc.keeps_get.restores fun r => ?_
    refine Proc.restores_ite (fun _ => (Proc.keeps_pure _).restores) fun _ => ?_
    exact hI.forceHandle hI.readFrame
  | stepBackward =>
    refine Proc.restores_bind Proc.keeps_get.restores fun r => ?_
    refine Proc.restores_ite (fun _ => (Proc.keeps_pure _).restores) fun _ => ?_
    exact hI.forceHandle (hposition _)
  | rewindForward => exact hI.forceHandle (hposition _)
  | rewindBackward => exact hI.forceHandle (hposition _)
  | setPosition timestamp => exact hI.setPositionImpl _

/-- Such an invariant holds while the worker is in its loop. -/
theorem RestoredByCalls.keptByMethods (hI : RestoredByCalls D C I) :
    ReaderWorker.KeptByMethods D C I where
  setReaderState := fun r state h => hI.setReaderState state r h () _ rfl
  continueReading := fun r _ h => hI.frames r _ ⟨rfl, rfl, rfl, rfl⟩ h
  needStop := fun r h => hI.frames r _ ⟨rfl, rfl, rfl, rfl⟩ h
  event := fun r r' event h hr => hI.handleEvent event r h () r' hr
  readFrame := fun r r' h hr => hI.readFrame r h () r' hr

end Seekira.Model.ReaderFF
