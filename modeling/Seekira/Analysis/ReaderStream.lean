import Seekira.Analysis.ReaderMethods
import Seekira.Analysis.StreamFrame

/-!
# The stream of a reachable reader

In every state that the worker and the posters reach, the reader has its stream,
only this stream is enabled, and no seek of it is pending: each seek that returned
has cleared its request, and the worker leaves its loop when one fails.
-/

set_option autoImplicit false

namespace Seekira.Model

open Library

namespace ReaderFF

variable {π κ : Type} {P : ParserOps π} {C : CodecOps κ} {s : StreamId}

/-- The reader plays stream `s`, the only enabled one, and no seek is pending. -/
structure Plays (P : ParserOps π) (s : StreamId) (r : ReaderFF (DemuxerQueue π) κ) : Prop where
  stream : r.stream = some s
  streams : r.streamReader.Settled P s

/-- A read keeps the stream playing. -/
theorem plays_readFrame :
    Proc.Keeps (Plays P s) (readFrame (DemuxerQueue.toIDemuxer P) C) := by
  intro r h
  have hstreams := StreamReader.keeps_readFrame (C := C) s r.streamReader h.streams
  rcases hread : StreamReader.readFrame (DemuxerQueue.toIDemuxer P) C s r.streamReader with
    ⟨e | _ | frame, w⟩ <;> rw [hread] at hstreams
  · rw [readFrame_of_error h.stream hread]
    exact ⟨h.stream, hstreams⟩
  · rw [readFrame_of_none h.stream hread]
    exact ⟨h.stream, hstreams⟩
  · rw [readFrame_of_frame h.stream hread]
    exact ⟨h.stream, hstreams⟩

/-- A seek that returned has cleared its request. -/
theorem Plays.of_seek {pos : TimestampFF} {r r' : ReaderFF (DemuxerQueue π) κ} (h : r.Plays P s)
    (hseek : seek (DemuxerQueue.toIDemuxer P) C pos r = (.ok (), r')) : r'.Plays P s := by
  obtain ⟨w₁, w₂, hrequest, hdo, hsame⟩ := sameFrames_of_seek h.stream hseek
  have honly := StreamReader.keeps_requestSeek (P := P) (C := C) (s := s) pos r.streamReader
    h.streams.only
  rw [hrequest] at honly
  have hsettled : w₂.Settled P s := StreamReader.settled_of_doSeek honly hdo
  exact ⟨hsame.stream.trans h.stream, by rw [hsame.streamReader]; exact hsettled⟩

/-- Every call restores a stream that plays. -/
theorem plays_restoredByCalls :
    RestoredByCalls (DemuxerQueue.toIDemuxer P) C (Plays (κ := κ) P s) where
  frames := fun r r' hsame h =>
    ⟨hsame.stream.trans h.stream, by rw [hsame.streamReader]; exact h.streams⟩
  readFrame := plays_readFrame.restores
  seek := fun pos r r' _ h hr => h.of_seek hr

/-- A reader that has just opened the file plays its video stream. -/
theorem plays_opened (hv : P.streamType s = .video) (ahead : List DataPacket) (internal : π)
    (codec : κ) (mode : ReaderMode) (frameObservers readerObservers : List Nat) :
    Plays P s (opened (StreamReader.opened P ahead internal s codec) (some s) mode frameObservers
      readerObservers) := by
  refine ⟨rfl, rfl, ?_, fun i hi => ?_, rfl, fun i => ?_, ?_⟩
  · show (⟨decide (s = s), avNoPtsValue, [], false⟩ : StreamInfo) = _
    simp
  · show decide (i = s) = false ∧ _
    simp [hi, opened, StreamReader.opened]
  · show ((PacketQueue.create (P.streamType i)).setEnabled (i = s)).enabled = _
    by_cases hi : i = s <;> simp [hi, PacketQueue.setEnabled, PacketQueue.reset]
  · show ((PacketQueue.create (P.streamType s)).setEnabled (s = s)).canBeEmpty = _
    simp [PacketQueue.setEnabled, PacketQueue.create, hv]

end ReaderFF

namespace ReaderWorker

variable {π κ : Type} {P : ParserOps π} {C : CodecOps κ} {s : StreamId}

/-- The worker's reader plays its stream as long as the worker is in its loop. -/
theorem plays_of_reachable (hv : P.streamType s = .video) {ahead : List DataPacket} {internal : π}
    {codec : κ} {mode : ReaderMode} {frameObservers readerObservers : List Nat}
    {w : ReaderWorker (DemuxerQueue π) κ}
    (hw : (machine (DemuxerQueue.toIDemuxer P) C
      (ReaderFF.opened (StreamReader.opened P ahead internal s codec) (some s) mode frameObservers
        readerObservers)).Reachable w) (hloop : w.InLoop) : w.reader.Plays P s :=
  reader_of_reachable ReaderFF.plays_restoredByCalls.keptByMethods
    (ReaderFF.plays_opened hv ahead internal codec mode frameObservers readerObservers) hw hloop

end ReaderWorker

end Seekira.Model
