import Seekira.Analysis.DemuxerStarvation
import Seekira.Model.StreamCreation

/-!
# What a failed `get_stream` leaves behind

The queue of a stream is enabled before its decoder is opened, and nothing disables it
when the decoder does not open.  The demuxer then collects packets that no stream
reads, and the filling for other streams stops when they fill their queue.
-/

set_option autoImplicit false

namespace Seekira.Model

open Library

namespace StreamReader

variable {π φ κ : Type} (P : ParserOps π) (K : FormatCodecs φ κ)

/-- If `get_stream` throws, the reader, its streams and the demuxer are as before. -/
def AtomicOnFailure (streamId : Int) (r : StreamReader (DemuxerQueue π) κ) : Prop :=
  ∀ e r', getStream P K streamId r = (.error e, r') → r' = r

/-- The call gets as far as the constructor of the stream. -/
structure Constructs (P : ParserOps π) (streamId : Int) (r : StreamReader (DemuxerQueue π) κ) :
    Prop where
  nonneg : 0 ≤ streamId
  inReader : streamId.toNat < r.streamCount
  inDemuxer : streamId.toNat < P.streamCount
  noStream : (r.infos streamId.toNat).isStreamEnabled = false

/-- The stream can be created but for its decoder, and its queue is disabled. -/
structure StrandsQueue (streamId : Int) (r : StreamReader (DemuxerQueue π) κ) : Prop
    extends Constructs P streamId r where
  isVideo : P.streamType streamId.toNat = .video
  noDecoder : ∀ formatCodec, K.getFormatCodec streamId.toNat = .ok formatCodec →
    K.openCodec formatCodec = none
  disabled : (r.demuxer.queues streamId.toNat).enabled = false

variable {P K} {streamId : Int} {r : StreamReader (DemuxerQueue π) κ}

/-- A stream cannot be created exactly when it is a video stream whose codec cannot be opened. -/
theorem createStream_error_iff {s : StreamId} :
    (∃ e, createStream P K s r = .error e) ↔ P.streamType s = .video ∧
      ∀ formatCodec, K.getFormatCodec s = .ok formatCodec → K.openCodec formatCodec = none := by
  unfold createStream createDecoder
  by_cases htype : P.streamType s = .video
  · rcases hformat : K.getFormatCodec s with e | formatCodec
    · simp [htype]
    · rcases hopen : K.openCodec formatCodec with _ | codec <;> simp [htype, hopen]
  · simp [htype]

/-! ## The ways `get_stream` ends -/

theorem getStream_of_invalid (h : streamId < 0 ∨ streamId.toNat ≥ r.streamCount) :
    getStream P K streamId r = (.error (.thrown "Invalid stream id"), r) := by
  unfold getStream
  simp [h]

theorem getStream_of_exists (hid : ¬(streamId < 0 ∨ streamId.toNat ≥ r.streamCount))
    (h : (r.infos streamId.toNat).isStreamEnabled = true) :
    ∃ e, getStream P K streamId r = (.error e, r) := by
  unfold getStream
  simp [hid, h]

/-- A stream that the demuxer does not know is refused. -/
theorem getStream_of_unknown (hid : ¬(streamId < 0 ∨ streamId.toNat ≥ r.streamCount))
    (hnone : (r.infos streamId.toNat).isStreamEnabled = false)
    (h : streamId.toNat ≥ P.streamCount) : ∃ e, getStream P K streamId r = (.error e, r) := by
  have henable : onDemuxer (DemuxerQueue.enableStream P streamId.toNat true) r =
      (.error (.thrown "Stream with provided index doesn't exist"), r) := by
    unfold onDemuxer DemuxerQueue.enableStream
    simp [h, Proc.zoom]
  unfold getStream
  simp only [Proc.get_bind_apply, Bool.or_eq_true, decide_eq_true_eq, hid, if_false, hnone,
    Bool.false_eq_true]
  exact ⟨_, Proc.bind_error henable⟩

/-- The reader after the queue of stream `s` is enabled. -/
def withQueue (s : StreamId) (r : StreamReader (DemuxerQueue π) κ) :
    StreamReader (DemuxerQueue π) κ :=
  { r with demuxer := r.demuxer.setQueue s ((r.demuxer.queues s).setEnabled true) }

theorem Constructs.enable (h : Constructs P streamId r) :
    onDemuxer (DemuxerQueue.enableStream P streamId.toNat true) r =
      (.ok (), withQueue streamId.toNat r) := by
  unfold onDemuxer DemuxerQueue.enableStream withQueue
  simp [Nat.not_le.mpr h.inDemuxer, Proc.zoom]

theorem Constructs.valid (h : Constructs P streamId r) :
    ¬(streamId < 0 ∨ streamId.toNat ≥ r.streamCount) := by
  have hlow := h.nonneg
  have hhigh := h.inReader
  omega

/-- The constructor throws: the queue stays enabled. -/
theorem getStream_of_error (h : Constructs P streamId r) {e : Fault}
    (hcreate : createStream P K streamId.toNat r = .error e) :
    getStream P K streamId r = (.error e, withQueue streamId.toNat r) := by
  unfold getStream
  simp only [Proc.get_bind_apply, Bool.or_eq_true, decide_eq_true_eq, h.valid, if_false,
    h.noStream, Bool.false_eq_true]
  rw [Proc.bind_ok h.enable, hcreate]
  rfl

/-- A stream that was created is entered. -/
theorem getStream_of_stream (h : Constructs P streamId r) {stream : DemuxedStream κ}
    (hcreate : createStream P K streamId.toNat r = .ok stream) :
    getStream P K streamId r =
      (.ok streamId.toNat, ((withQueue streamId.toNat r).setStream streamId.toNat stream).setInfo
        streamId.toNat { r.infos streamId.toNat with isStreamEnabled := true }) := by
  unfold getStream
  simp only [Proc.get_bind_apply, Bool.or_eq_true, decide_eq_true_eq, h.valid, if_false,
    h.noStream, Bool.false_eq_true]
  rw [Proc.bind_ok h.enable, hcreate]
  simp [StreamInfo.setStream, h.noStream]

/-- Enabling a queue that is enabled changes nothing. -/
theorem withQueue_eq_iff {s : StreamId} :
    withQueue s r = r ↔ (r.demuxer.queues s).enabled = true := by
  constructor
  · intro heq
    have hqueue := congrArg (fun r => (r.demuxer.queues s).enabled) heq
    simpa [withQueue, PacketQueue.setEnabled] using hqueue.symm
  · intro henabled
    have hqueue : (r.demuxer.queues s).setEnabled true = r.demuxer.queues s := by
      unfold PacketQueue.setEnabled
      rw [if_pos rfl, ← henabled]
    unfold withQueue
    rw [hqueue, DemuxerQueue.setQueue, Function.update_eq_self]

/-- A call that throws and changes nothing is atomic. -/
theorem atomicOnFailure_of_throws {e : Fault} (h : getStream P K streamId r = (.error e, r)) :
    AtomicOnFailure P K streamId r := by
  intro e' r' hres
  rw [h] at hres
  cases hres
  rfl

/-- A failed `get_stream` leaves everything as it was exactly when it does not fail in the
constructor of a stream whose queue was disabled. -/
theorem atomicOnFailure_iff (P : ParserOps π) (K : FormatCodecs φ κ) (streamId : Int)
    (r : StreamReader (DemuxerQueue π) κ) :
    AtomicOnFailure P K streamId r ↔ ¬StrandsQueue P K streamId r := by
  by_cases hid : streamId < 0 ∨ streamId.toNat ≥ r.streamCount
  · exact iff_of_true (atomicOnFailure_of_throws (getStream_of_invalid hid))
      fun hstrands => hstrands.valid hid
  rcases hexists : (r.infos streamId.toNat).isStreamEnabled with _ | _
  case true =>
    obtain ⟨e, hthrows⟩ := getStream_of_exists (P := P) (K := K) hid hexists
    refine iff_of_true (atomicOnFailure_of_throws hthrows) fun hstrands => ?_
    rw [hstrands.noStream] at hexists
    cases hexists
  by_cases hunknown : streamId.toNat ≥ P.streamCount
  · obtain ⟨e, hthrows⟩ := getStream_of_unknown (K := K) hid hexists hunknown
    exact iff_of_true (atomicOnFailure_of_throws hthrows) fun hstrands =>
      Nat.not_le.mpr hstrands.inDemuxer hunknown
  have hconstructs : Constructs P streamId r :=
    ⟨by omega, by omega, Nat.not_le.mp hunknown, hexists⟩
  rcases hcreate : createStream P K streamId.toNat r with e | stream
  · -- the constructor throws
    obtain ⟨htype, hnone⟩ := createStream_error_iff.mp ⟨e, hcreate⟩
    have hthrows := getStream_of_error hconstructs hcreate
    rcases henabled : (r.demuxer.queues streamId.toNat).enabled with _ | _
    · refine iff_of_false (fun hatomic => ?_) (Classical.not_not.mpr
        ⟨hconstructs, htype, hnone, henabled⟩)
      rw [withQueue_eq_iff.mp (hatomic _ _ hthrows)] at henabled
      cases henabled
    · rw [withQueue_eq_iff.mpr henabled] at hthrows
      refine iff_of_true (atomicOnFailure_of_throws hthrows) fun hstrands => ?_
      rw [hstrands.disabled] at henabled
      cases henabled
  · refine iff_of_true (fun e r' hres => ?_) fun hstrands => ?_
    · have hreturns := getStream_of_stream hconstructs hcreate
      rw [hres] at hreturns
      cases hreturns
    · obtain ⟨e, hthrows⟩ :=
        createStream_error_iff (r := r) |>.mpr ⟨hstrands.isVideo, hstrands.noDecoder⟩
      rw [hcreate] at hthrows
      cases hthrows

/-- No video codec opens. -/
def noVideoCodec : FormatCodecs Unit Unit where
  getFormatCodec := fun _ => .ok ()
  openCodec := fun _ => none

/-- The audio stream of a file whose first video packets fill their queue. -/
def audioReader : StreamReader (DemuxerQueue Unit) Unit :=
  opened DemuxerPeriod.crowdedParser DemuxerPeriod.crowdedFile () 0 ()

/-- After the failed creation of the video stream, the audio stream is not read any more. -/
theorem stranded_queue_starves :
    ¬AtomicOnFailure DemuxerPeriod.crowdedParser noVideoCodec 1 audioReader ∧
      (DemuxerQueue.read DemuxerPeriod.crowdedParser 0 audioReader.demuxer).1 =
        .ok (some ⟨0, 0, 0, 40, true, 100⟩) ∧
      (DemuxerQueue.read DemuxerPeriod.crowdedParser 0
        (getStream DemuxerPeriod.crowdedParser noVideoCodec 1 audioReader).2.demuxer).1 =
        .ok none := by
  refine ⟨fun hatomic => ?_, by decide +kernel, by decide +kernel⟩
  have hconstructs : Constructs DemuxerPeriod.crowdedParser 1 audioReader :=
    ⟨by decide, by decide, by decide, rfl⟩
  have hsame := hatomic _ _ (getStream_of_error (K := noVideoCodec) hconstructs rfl)
  have henabled := withQueue_eq_iff.mp hsame
  cases henabled

end StreamReader

end Seekira.Model
