import Seekira.Analysis.StreamPasses
import Seekira.Model.Reader

/-!
# What the methods of the reader do

Every method of the reader calls its stream and then updates its own fields.  The
equations below state a method by what the stream returned.
-/

set_option autoImplicit false

namespace Seekira.Model.ReaderFF

open Library

variable {δ κ : Type} {D : IDemuxer δ} {C : CodecOps κ}

/-- The reader over another state of its stream reader. -/
def withStreams (w : StreamReader δ κ) (r : ReaderFF δ κ) : ReaderFF δ κ :=
  { r with streamReader := w }

@[simp] theorem streamReader_withStreams (w : StreamReader δ κ) (r : ReaderFF δ κ) :
    (r.withStreams w).streamReader = w := rfl

/-- A call of the stream runs on the stream reader. -/
theorem onStream_apply {α : Type} {s : StreamId} {r : ReaderFF δ κ} (hs : r.stream = some s)
    (p : StreamId → Proc Fault (StreamReader δ κ) α) :
    onStream p r = ((p s r.streamReader).1, r.withStreams (p s r.streamReader).2) := by
  unfold onStream
  rw [Proc.get_bind_apply]
  simp only [hs]
  rfl

/-- A call of the stream that returned. -/
theorem onStream_inv {α : Type} {s : StreamId} {r r' : ReaderFF δ κ} {a : α}
    (hs : r.stream = some s) {p : StreamId → Proc Fault (StreamReader δ κ) α}
    (h : onStream p r = (.ok a, r')) :
    ∃ w, p s r.streamReader = (.ok a, w) ∧ r' = r.withStreams w := by
  rw [onStream_apply hs] at h
  obtain ⟨hret, hleft⟩ := Prod.mk.inj h
  exact ⟨_, Prod.ext hret rfl, hleft.symm⟩

/-- The reader after its stream has returned `out` and left `w`. -/
def received (s : StreamId) (out : Option Frame) (w : StreamReader δ κ) (r : ReaderFF δ κ) :
    ReaderFF δ κ :=
  let r := { r.withStreams w with isLastKeyFrame := (w.streams s).lastKeyFrame }
  match out with
  | some frame => r.handleFrame frame
  | none => { r with invalidCounter := r.invalidCounter + 1 }

@[simp] theorem stream_received (s : StreamId) (out : Option Frame) (w : StreamReader δ κ)
    (r : ReaderFF δ κ) : (r.received s out w).stream = r.stream := by
  cases out <;> rfl

@[simp] theorem streamReader_received (s : StreamId) (out : Option Frame) (w : StreamReader δ κ)
    (r : ReaderFF δ κ) : (r.received s out w).streamReader = w := by
  cases out <;> rfl

/-- A frame that the stream returned is remembered. -/
theorem readFrame_of_frame {s : StreamId} {r : ReaderFF δ κ} {w : StreamReader δ κ} {frame : Frame}
    (hs : r.stream = some s)
    (h : StreamReader.readFrame D C s r.streamReader = (.ok (some frame), w)) :
    readFrame D C r = (.ok (), r.received s (some frame) w) := by
  unfold readFrame
  rw [Proc.bind_ok ((onStream_apply hs _).trans (by rw [h]))]
  rw [Proc.bind_ok (onStream_apply (r := r.withStreams w) hs _)]
  rfl

/-- Without a frame the call returns only if some frame was read before. -/
theorem readFrame_of_none {s : StreamId} {r : ReaderFF δ κ} {w : StreamReader δ κ}
    (hs : r.stream = some s) (h : StreamReader.readFrame D C s r.streamReader = (.ok none, w)) :
    readFrame D C r =
      (if r.lastValidFrame.isSome then .ok () else .error .nullDeref, r.received s none w) := by
  unfold readFrame
  rw [Proc.bind_ok ((onStream_apply hs _).trans (by rw [h]))]
  rw [Proc.bind_ok (onStream_apply (r := r.withStreams w) hs _)]
  show (if r.lastValidFrame.isNone = true then Proc.throw Fault.nullDeref else pure ())
    (r.received s none w) = _
  cases r.lastValidFrame <;> rfl

theorem readFrame_of_error {s : StreamId} {r : ReaderFF δ κ} {w : StreamReader δ κ} {e : Fault}
    (hs : r.stream = some s) (h : StreamReader.readFrame D C s r.streamReader = (.error e, w)) :
    readFrame D C r = (.error e, r.withStreams w) := by
  unfold readFrame
  rw [Proc.bind_error ((onStream_apply hs _).trans (by rw [h]))]

/-- A call that returned has read a frame now or before. -/
theorem readFrame_inv {s : StreamId} {r r' : ReaderFF δ κ} (hs : r.stream = some s)
    (h : readFrame D C r = (.ok (), r')) :
    ∃ out w, StreamReader.readFrame D C s r.streamReader = (.ok out, w) ∧
      r' = r.received s out w ∧ r'.lastValidFrame.isSome := by
  rcases hread : StreamReader.readFrame D C s r.streamReader with ⟨e | _ | frame, w⟩
  · rw [readFrame_of_error hs hread] at h
    cases h
  · rw [readFrame_of_none hs hread] at h
    split at h
    · rename_i hlast
      cases h
      exact ⟨none, w, rfl, rfl, hlast⟩
    · cases h
  · rw [readFrame_of_frame hs hread] at h
    cases h
    exact ⟨some frame, w, rfl, rfl, rfl⟩

end Seekira.Model.ReaderFF
