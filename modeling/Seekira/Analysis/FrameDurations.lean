import Seekira.Analysis.ReaderMethods
import Seekira.Analysis.SetPosition

/-!
# Every frame lasts

For a packet the decoder returns a frame only when a later one follows, so each frame
that a stream returns has a positive duration.  The reader remembers the duration of
the frame read before the last one.  It is positive as soon as two frames were read;
and if only one was, it is the first of the file, because a change of the position is
refused before.
-/

set_option autoImplicit false

namespace Seekira.Model

open Library

/-! ## The stream -/

namespace DecoderVideo

variable {κ : Type} {C : CodecOps κ}

/-- Given a packet, one round already ends the call. -/
theorem decodeRound_packet {p : DataPacket} {d d' : DecoderVideo κ} {out : Option (Option Frame)}
    (h : decodeRound C (some p) d = (.ok out, d')) :
    out ≠ none ∧ ∀ b, out = some (some b) → 0 < b.duration := by
  obtain ⟨frame, d₁, -, -, hres⟩ := decodeRound_inv h
  unfold roundResult at hres
  rcases frame with _ | frame <;> rcases hprev : d₁.prevFrame with _ | prev <;>
    simp only [hprev, Option.isSome_some, if_true] at hres
  · cases hres
    exact ⟨by simp, by simp⟩
  · cases hres
    exact ⟨by simp, by simp⟩
  · cases hres
    exact ⟨by simp, by simp⟩
  · split at hres
    · cases hres
      exact ⟨by simp, by simp⟩
    · rename_i hlater
      cases hres
      refine ⟨by simp, fun b hb => ?_⟩
      cases hb
      exact Int.sub_pos.mpr (Int.not_le.mp hlater)

/-- A frame that comes out for a packet lasts. -/
theorem duration_pos_of_decode {p : DataPacket} {d d' : DecoderVideo κ} {b : Frame}
    (h : decode C (some p) d = (.ok (some b), d')) : 0 < b.duration := by
  rcases decode_inv h with hfirst | ⟨d₁, hfirst, -⟩
  · exact (decodeRound_packet hfirst).2 b rfl
  · exact absurd rfl (decodeRound_packet hfirst).1

end DecoderVideo

namespace StreamReader

variable {δ κ : Type} {D : IDemuxer δ} {C : CodecOps κ} {s : StreamId}

/-- The frame that is ready lasts. -/
def ReadyLasts (s : StreamId) (w : StreamReader δ κ) : Prop :=
  ∀ b ∈ (w.streams s).bufferedData, 0 < b.duration

/-- The frames of a pass have positive durations. -/
theorem ReadyLasts.pass {w w' : StreamReader δ κ} {out : Option (Option Frame)}
    (hw : w.ReadyLasts s) (h : readFramePass D C s w = (.ok out, w')) :
    w'.ReadyLasts s ∧ ∀ b, out = some (some b) → 0 < b.duration := by
  by_cases hread : w.Readable D s
  · rcases hready : (w.streams s).bufferedData with _ | b
    · rw [readFramePass_of_empty hread hready] at h
      obtain ⟨pkt, w₁, frame, d, -, hdecode, hpkt, hout, -, hbuffered⟩ := feed_inv h
      refine ⟨fun b hb => ?_, fun b hb => ?_⟩
      · obtain rfl : frame = some b := hbuffered.symm.trans hb
        obtain ⟨p, rfl⟩ := Option.isSome_iff_exists.mp (hpkt.resolve_right (by simp))
        exact DecoderVideo.duration_pos_of_decode hdecode
      · rcases hout with rfl | rfl <;> cases hb
    · have hlasts : 0 < b.duration := hw b hready
      rw [readFramePass_of_buffered hread hready] at h
      cases h
      refine ⟨fun b' hb' => ?_, fun b' hb' => ?_⟩
      · rw [streams_setStream] at hb'
        rcases bufferedData_takeBuffered b (w.streams s) with heq | heq <;> rw [heq] at hb' <;>
          cases hb'
        exact hlasts
      · cases hb'
        exact hlasts
  · obtain ⟨hsame, hout⟩ := readFramePass_of_not_readable (C := C) hread
    rw [h] at hsame hout
    obtain rfl : w' = w := hsame
    refine ⟨hw, fun b hb => ?_⟩
    rcases hout with hout | hout
    · simp [hb] at hout
    · cases hout

/-- A frame that the stream returns lasts. -/
theorem ReadyLasts.readFrame {w w' : StreamReader δ κ} {out : Option Frame} (hw : w.ReadyLasts s)
    (h : StreamReader.readFrame D C s w = (.ok out, w')) :
    w'.ReadyLasts s ∧ ∀ b, out = some b → 0 < b.duration := by
  obtain ⟨w₁, hw₁, hpass⟩ := readFrame_induction (I := ReadyLasts s)
    (fun _ _ _ hw hpass => (hw.pass hpass).1) hw h
  obtain ⟨hw', hout⟩ := hw₁.pass hpass
  exact ⟨hw', fun b hb => hout b (congrArg some hb)⟩

/-- A finished seek drops the frame that was ready. -/
theorem readyLasts_of_doSeek {w w' : StreamReader δ κ} (h : doSeek D s w = (.ok (), w')) :
    w'.ReadyLasts s := by
  unfold doSeek at h
  rw [Proc.get_bind_apply] at h
  split at h
  · cases h
  · obtain ⟨_, w₁, -, h⟩ := Proc.bind_inv h
    cases h
    intro b hb
    simp at hb

end StreamReader

/-! ## The reader -/

namespace ReaderFF

variable {π κ : Type} {P : ParserOps π} {C : CodecOps κ} {delay : Nat}
  {holds : List DataPacket → κ → Prop} {drained : κ → Prop} {s : StreamId} {l : List DataPacket}

/-- Nothing was read: the stream stands before its first frame. -/
structure Unstarted (P : ParserOps π) (s : StreamId) (delay : Nat)
    (holds : List DataPacket → κ → Prop) (l : List DataPacket)
    (r : ReaderFF (DemuxerQueue π) κ) : Prop where
  stream : r.stream = some s
  last : r.lastValidFrame = none
  due : r.streamReader.Due P s delay holds l

/-- Frames were read and each of them lasts; the remembered duration is that of a frame, unless the
only frame read is the first of the file. -/
structure Timekeeping {δ : Type} (s : StreamId) (r : ReaderFF δ κ) : Prop where
  stream : r.stream = some s
  ready : r.streamReader.ReadyLasts s
  last : ∃ f ∈ r.lastValidFrame, 0 < f.duration ∧ (f.ts = 0 ∨ 0 < r.prevDuration)

/-- A read keeps the durations of the frames positive. -/
theorem Timekeeping.readFrame {δ : Type} {D : IDemuxer δ} {r r' : ReaderFF δ κ}
    (h : r.Timekeeping s) (hr : ReaderFF.readFrame D C r = (.ok (), r')) : r'.Timekeeping s := by
  obtain ⟨out, w, hread, rfl, -⟩ := readFrame_inv h.stream hr
  obtain ⟨hready, hlasts⟩ := h.ready.readFrame hread
  obtain ⟨f, hf, hfLasts, hprev⟩ := h.last
  rcases out with _ | frame
  · exact ⟨h.stream, hready, f, hf, hfLasts, hprev⟩
  · have hduration : (r.received s (some frame) w).prevDuration = f.duration := by
      simp [received, handleFrame, withStreams, Option.mem_def.mp hf]
    refine ⟨h.stream, hready, frame, rfl, hlasts frame rfl, .inr ?_⟩
    rw [hduration]
    exact hfLasts

/-- The first read returns the first frame of the file. -/
theorem Unstarted.readFrame (hC : C.InOrder delay holds drained) (hs : s < P.streamCount)
    (hl : FrameTrack l) {r r' : ReaderFF (DemuxerQueue π) κ} (h : r.Unstarted P s delay holds l)
    (hr : ReaderFF.readFrame (DemuxerQueue.toIDemuxer P) C r = (.ok (), r')) :
    r'.Timekeeping s := by
  obtain ⟨first, hfirst, hzero, -⟩ := hl.first
  obtain ⟨rest, rfl⟩ := List.head?_eq_some_iff.mp hfirst
  by_cases hlen : rest.length ≤ delay
  · obtain ⟨w, hread⟩ := StreamReader.readFrame_end hC hs h.due (by simp)
      (by rw [List.length_cons]; omega)
    rw [readFrame_of_error h.stream hread] at hr
    cases hr
  · obtain ⟨second, rest, rfl⟩ := List.exists_cons_of_ne_nil (l := rest) (by
      rintro rfl
      exact hlen (Nat.zero_le _))
    obtain ⟨w, hread, ⟨fed, u, -, hreading⟩, -⟩ := StreamReader.readFrame_due hC hs h.due
      (by rw [List.length_cons] at hlen; omega)
    rw [readFrame_of_frame h.stream hread] at hr
    cases hr
    have hlater : first.pts < second.pts :=
      List.rel_of_pairwise_cons hl.timed.increasing (List.mem_cons_self ..)
    refine ⟨h.stream, fun b hb => ?_, _, rfl, Int.sub_pos.mpr hlater, .inl hzero⟩
    have hnone : (w.streams s).bufferedData = none := hreading.noFrame
    rw [streamReader_received, hnone] at hb
    cases hb

/-- The reader has read nothing, or keeps the time. -/
def KeepsTime (P : ParserOps π) (s : StreamId) (delay : Nat)
    (holds : List DataPacket → κ → Prop) (l : List DataPacket)
    (r : ReaderFF (DemuxerQueue π) κ) : Prop :=
  r.Unstarted P s delay holds l ∨ r.Timekeeping s

/-- Every call of the reader ends with durations that are positive. -/
theorem keepsTime_restoredByCalls (hC : C.InOrder delay holds drained) (hs : s < P.streamCount)
    (hl : FrameTrack l) :
    RestoredByCalls (DemuxerQueue.toIDemuxer P) C (KeepsTime P s delay holds l) where
  frames := by
    rintro r r' ⟨hstream, hstreamReader, hlast, hprev⟩ (h | h)
    · exact .inl ⟨hstream.trans h.stream, hlast.trans h.last, by rw [hstreamReader]; exact h.due⟩
    · exact .inr ⟨hstream.trans h.stream, by rw [hstreamReader]; exact h.ready,
        by rw [hlast, hprev]; exact h.last⟩
  readFrame := by
    rintro r (h | h) _ r' hr
    · exact .inr (h.readFrame hC hs hl hr)
    · exact .inr (h.readFrame hr)
  seek := by
    rintro pos r r' hsome (h | h) hr
    · rw [h.last] at hsome
      cases hsome
    · obtain ⟨w₁, w₂, -, hdo, hstream, hstreamReader, hlast, hprev⟩ := sameFrames_of_seek h.stream hr
      refine .inr ⟨hstream.trans h.stream, ?_, by rw [hlast, hprev]; exact h.last⟩
      rw [hstreamReader]
      exact StreamReader.readyLasts_of_doSeek hdo

/-- A reader that has just opened the file has read nothing. -/
theorem unstarted_opened (hl : FrameTrack l) (hv : P.streamType s = .video)
    (hduration : 0 < P.streamDuration s) {ahead : List DataPacket}
    (hahead : DemuxerQueue.ofStream s ahead = l) (internal : π) {codec : κ} (hcodec : holds [] codec)
    (mode : ReaderMode) (frameObservers readerObservers : List Nat) :
    Unstarted P s delay holds l
      (opened (StreamReader.opened P ahead internal s codec) (some s) mode frameObservers
        readerObservers) := by
  have hqueue : ∀ i, ((StreamReader.opened P ahead internal s codec).demuxer.queues i).list = [] := by
    intro i
    show ((PacketQueue.create (P.streamType i)).setEnabled (i = s)).list = []
    unfold PacketQueue.setEnabled
    split <;> rfl
  refine ⟨rfl, rfl, [], l, rfl, ⟨rfl, rfl, hduration⟩, rfl, ?_, ⟨l, ⟨?_, ?_, ?_, ?_, ?_⟩, rfl⟩,
    hl.timed⟩
  · exact .filling [] _ ⟨rfl, rfl, hcodec⟩ (Nat.zero_le _) rfl rfl
  · refine ⟨(plays_opened (κ := κ) hv ahead internal codec mode frameObservers
      readerObservers).streams.demuxer, fun i => ?_, fun i _ => hqueue i⟩
    show ((PacketQueue.create (P.streamType i)).setEnabled (i = s)).Counted
    unfold PacketQueue.setEnabled
    split <;> exact ⟨rfl, rfl⟩
  · rintro ⟨⟩
  · show ((StreamReader.opened P ahead internal s codec).demuxer.queues s).list ++ _ = l
    rw [hqueue s]
    exact hahead
  · exact fun p hp => Int.le_of_lt (hl.size p hp)
  · -- no packet but the first lies at or before the seek time 0
    intro p hp
    obtain ⟨first, hfirst, hzero, -⟩ := hl.first
    obtain ⟨rest, rfl⟩ := List.head?_eq_some_iff.mp hfirst
    have hlater : first.pts < p.pts := List.rel_of_pairwise_cons hl.timed.increasing hp
    have hknown := hl.timed.known p (List.mem_cons_of_mem _ hp)
    have hpast : ¬p.pts ≤ 0 := by
      rw [← hzero]
      exact Int.not_le.mpr hlater
    show DemuxerQueue.resetsQueue 0 p = false
    unfold DemuxerQueue.resetsQueue
    simp [hknown, hpast]

end ReaderFF

namespace ReaderWorker

variable {π κ : Type} {P : ParserOps π} {C : CodecOps κ} {delay : Nat}
  {holds : List DataPacket → κ → Prop} {drained : κ → Prop} {s : StreamId} {l : List DataPacket}

/-- While the worker is in its loop, the remembered duration is positive, unless the last frame
read is at 0. -/
theorem prevDuration_pos (hC : C.InOrder delay holds drained) (hs : s < P.streamCount)
    (hv : P.streamType s = .video) (hl : FrameTrack l) (hduration : 0 < P.streamDuration s)
    {ahead : List DataPacket} (hahead : DemuxerQueue.ofStream s ahead = l) {internal : π} {codec : κ}
    (hcodec : holds [] codec) {mode : ReaderMode} {frameObservers readerObservers : List Nat}
    {w : ReaderWorker (DemuxerQueue π) κ}
    (hw : (machine (DemuxerQueue.toIDemuxer P) C
      (ReaderFF.opened (StreamReader.opened P ahead internal s codec) (some s) mode frameObservers
        readerObservers)).Reachable w) (hloop : w.InLoop) {f : Frame}
    (hf : w.reader.lastValidFrame = some f) (hlater : f.ts ≠ 0) : 0 < w.reader.prevDuration := by
  have hkeeps := reader_of_reachable (ReaderFF.keepsTime_restoredByCalls hC hs hl).keptByMethods
    (.inl (ReaderFF.unstarted_opened hl hv hduration hahead internal hcodec mode frameObservers
      readerObservers)) hw hloop
  rcases hkeeps with h | h
  · rw [h.last] at hf
    cases hf
  · obtain ⟨g, hg, -, hprev⟩ := h.last
    obtain rfl : g = f := by
      rw [hf] at hg
      exact (Option.some.inj hg).symm
    exact hprev.resolve_left hlater

end ReaderWorker

end Seekira.Model
