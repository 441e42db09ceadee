import Seekira.Analysis.StreamCreation
import Seekira.Analysis.StreamLinkRuns

/-!
# Streams by their ids

The other modules name a stream by its id and keep its fields in the reader.  That is what
the linked streams look like through the table of the reader: creating a stream is the same
in both, and unlinking one, from either side, disables its entry and its queue.
-/

set_option autoImplicit false

namespace Seekira.Model

open Library

variable {π φ κ : Type} {P : ParserOps π} {K : FormatCodecs φ κ}

/-- The reader without the stream `s`. -/
def StreamReader.released (s : StreamId) (r : StreamReader (DemuxerQueue π) κ) :
    StreamReader (DemuxerQueue π) κ :=
  { r with
    demuxer := r.demuxer.setQueue s ((r.demuxer.queues s).setEnabled false)
    infos := Function.update r.infos s { r.infos s with isStreamEnabled := false } }

namespace LinkedReader

/-- `r` is what the table of `w` shows of its streams. -/
structure Represents (w : LinkedReader π κ) (r : StreamReader (DemuxerQueue π) κ) : Prop where
  demuxer : r.demuxer = w.demuxer
  streamCount : r.streamCount = w.streamCount
  enabled : ∀ s, (r.infos s).isStreamEnabled = (w.demuxedStreams s).isSome
  fields : ∀ s p o, w.demuxedStreams s = some p → w.objects p = some o → r.streams s = o.fields

variable {w w' : LinkedReader π κ} {r : StreamReader (DemuxerQueue π) κ} {s : StreamId}
  {p : StreamAddress} {o : StreamObject κ} {fuel : Nat}

/-- Unlinking a stream is releasing it by its id. -/
theorem Represents.unlinked (hrep : Represents w r) (h : WellLinked P w)
    (hentry : w.demuxedStreams s = some p) :
    Represents (LinkedReader.unlinked s p o w) (r.released s) := by
  have honly : UnlinksOnly s p w (LinkedReader.unlinked s p o w) := unlinksOnly_unlinked
  constructor
  · simp [StreamReader.released, LinkedReader.unlinked, dropped, unlisted, setEntry, setEnabled,
      hrep.demuxer]
  · exact hrep.streamCount
  · intro t
    by_cases hts : t = s
    · rw [hts, honly.entry]
      simp [StreamReader.released]
    · rw [honly.otherEntries t hts, ← hrep.enabled t]
      simp [StreamReader.released, hts]
  · intro t q o' hq ho'
    have hts : t ≠ s := by
      intro heq
      rw [heq, honly.entry] at hq
      cases hq
    rw [honly.otherEntries t hts] at hq
    have hqp : q ≠ p := by
      intro heq
      exact hts (h.stream_eq (heq ▸ hq) hentry)
    rw [honly.otherObjects q hqp] at ho'
    exact hrep.fields t q o' hq ho'

/-- Destroying an unlinked object is nothing by ids. -/
theorem Represents.destroyed (hrep : Represents w r) : Represents (setObject p none w) r where
  demuxer := hrep.demuxer
  streamCount := hrep.streamCount
  enabled := hrep.enabled
  fields := by
    intro t q o hq ho
    by_cases hqp : q = p
    · simp [setObject, hqp] at ho
    · apply hrep.fields t q o hq
      simpa [setObject, hqp] using ho

/-- Both ways to unlink a stream do the same to the streams by their ids. -/
theorem unlinking_represents (hrep : Represents w r) (h : WellLinked P w)
    (hentry : w.demuxedStreams s = some p) (hfuel : 4 ≤ fuel) :
    (∃ w', releaseStream P fuel s w = (.ok (), w') ∧ Represents w' (r.released s)) ∧
      ∃ w', destroyStream P fuel p w = (.ok (), w') ∧ Represents w' (r.released s) := by
  obtain ⟨k, rfl⟩ := Nat.exists_eq_add_of_le' hfuel
  obtain ⟨o, ho⟩ := h.refersBack s p hentry
  have hreleased := hrep.unlinked (o := o) h hentry
  constructor
  · exact ⟨_, releaseStream_of_wellLinked h hentry ho, hreleased⟩
  · exact ⟨_, destroyStream_of_linked h hentry ho, hreleased.destroyed⟩

/-- Enabling a queue is the same by ids. -/
theorem Represents.withQueue (hrep : Represents w r) :
    Represents (setEnabled s true w) (StreamReader.withQueue s r) where
  demuxer := by simp [setEnabled, StreamReader.withQueue, hrep.demuxer]
  streamCount := hrep.streamCount
  enabled := hrep.enabled
  fields := hrep.fields

/-- Entering a stream is the same by ids. -/
theorem Represents.linked (hrep : Represents w r) (h : WellLinked P w)
    (hfree : w.objects p = none) :
    Represents (LinkedReader.linked s p o w)
      (((StreamReader.withQueue s r).setStream s o.fields).setInfo s
        { r.infos s with isStreamEnabled := true }) := by
  constructor
  · simp [LinkedReader.linked, setEntry, setObject, setEnabled, StreamReader.setInfo,
      StreamReader.setStream, StreamReader.withQueue, hrep.demuxer]
  · exact hrep.streamCount
  · intro t
    by_cases hts : t = s
    · simp [hts, linked_entry, StreamReader.setInfo]
    · rw [linked_entry_of_ne hts, ← hrep.enabled t]
      simp [StreamReader.setInfo, StreamReader.setStream, StreamReader.withQueue, hts]
  · intro t q o' hq ho'
    by_cases hts : t = s
    · rw [hts, linked_entry] at hq
      obtain rfl := Option.some.inj hq
      rw [linked_object] at ho'
      obtain rfl := Option.some.inj ho'
      simp [StreamReader.setInfo, StreamReader.setStream, hts]
    · rw [linked_entry_of_ne hts] at hq
      obtain ⟨o₁, ho₁⟩ := h.refersBack t q hq
      rw [linked_object_of_ne (ho₁.ne_of_free hfree)] at ho'
      have hfields := hrep.fields t q o' hq ho'
      simpa [StreamReader.setInfo, StreamReader.setStream, StreamReader.withQueue, hts] using hfields

/-- `get_stream` fails with the same error, and leaves the same streams. -/
theorem getStream_represents (hrep : Represents w r) (h : WellLinked P w)
    (hfree : w.objects p = none) (streamId : Int) :
    (∀ e, (StreamReader.getStream P K streamId r).1 = .error e ↔
      (getStream P K (r.streams streamId.toNat).decoder p streamId w).1 = .error (.failed e)) ∧
      Represents (getStream P K (r.streams streamId.toNat).decoder p streamId w).2
        (StreamReader.getStream P K streamId r).2 := by
  by_cases hid : streamId < 0 ∨ streamId.toNat ≥ w.streamCount
  · have hid' : streamId < 0 ∨ streamId.toNat ≥ r.streamCount := by rwa [hrep.streamCount]
    rw [StreamReader.getStream_of_invalid hid', getStream_of_invalid hid]
    exact ⟨fun e => by simp, hrep⟩
  have hid' : ¬(streamId < 0 ∨ streamId.toNat ≥ r.streamCount) := by rwa [hrep.streamCount]
  cases hentry : w.demuxedStreams streamId.toNat with
  | some q =>
    have henabled := hrep.enabled streamId.toNat
    rw [hentry] at henabled
    rw [getStream_of_exists hid hentry]
    unfold StreamReader.getStream
    simp [hid', henabled, hrep]
  | none =>
    have hsize := h.size
    have hnone : (r.infos streamId.toNat).isStreamEnabled = false := by
      rw [hrep.enabled, hentry]
      rfl
    have hconstructs : StreamReader.Constructs P streamId r :=
      ⟨by omega, by omega, by omega, hnone⟩
    cases hdecoder : StreamReader.createDecoder P K streamId.toNat with
    | error e =>
      have hcreate : StreamReader.createStream P K streamId.toNat r = .error e := by
        unfold StreamReader.createStream
        rw [hdecoder]
      rw [getStream_of_error h.size hid hentry hdecoder,
        StreamReader.getStream_of_error hconstructs hcreate]
      exact ⟨fun e => by simp, hrep.withQueue⟩
    | ok decoder =>
      have hcreate : StreamReader.createStream P K streamId.toNat r =
          .ok (DemuxedStream.create (decoder.getD (r.streams streamId.toNat).decoder)) := by
        unfold StreamReader.createStream
        rw [hdecoder]
      rw [getStream_of_decoder h.size hid hentry hdecoder,
        StreamReader.getStream_of_stream hconstructs hcreate]
      exact ⟨fun e => by simp, hrep.linked h hfree⟩

end LinkedReader

end Seekira.Model
