import Seekira.Analysis.DecoderFeed
import Seekira.Analysis.DemuxerDelivery
import Seekira.Analysis.StreamPasses
import Seekira.Model.MediaFile

/-!
# Reading frames after a seek

The packets whose frames are still to come are those in the decoder, the one kept
by the seek and those of the demuxer.  While enough of them follow a frame,
`read_frame` returns it and stands at the next one; at the end of the stream it
dereferences the null packet instead.
-/

set_option autoImplicit false

namespace Seekira.Model.StreamReader

open Library

variable {π κ : Type} {P : ParserOps π} {C : CodecOps κ} {delay : Nat}
  {holds : List DataPacket → κ → Prop} {drained : κ → Prop} {s : StreamId}

/-! ## The packets of the stream -/

/-- The packets that the stream reads next: the one kept by the last seek, then those of the
demuxer. -/
def Upcoming (s : StreamId) (u : List DataPacket) (r : StreamReader (DemuxerQueue π) κ) : Prop :=
  ∃ rest, r.demuxer.Holds s rest ∧ u = (r.streams s).bufferedPacket.toList ++ rest

/-- A packet is read, and nothing is kept any more. -/
theorem read_of_upcoming (hs : s < P.streamCount) {r : StreamReader (DemuxerQueue π) κ}
    (hr : r.Readable (DemuxerQueue.toIDemuxer P) s) {p : DataPacket} {u : List DataPacket}
    (hu : r.Upcoming s (p :: u)) :
    ∃ d, read (DemuxerQueue.toIDemuxer P) s r =
        (.ok (some p), { r with demuxer := d }.setStream s
          (received (some p) { r.streams s with bufferedPacket := none })) ∧ d.Holds s u := by
  obtain ⟨hterm, hreader, -⟩ := hr
  obtain ⟨rest, hholds, heq⟩ := hu
  rcases hp : (r.streams s).bufferedPacket with _ | q
  · rw [hp] at heq
    obtain rfl : p :: u = rest := heq
    obtain ⟨d, hd, hnext⟩ := DemuxerQueue.read_of_holds hs hholds
    refine ⟨d, ?_, hnext⟩
    have hd' : (DemuxerQueue.toIDemuxer P).read s r.demuxer = (.ok (some p), d) := hd
    rw [read_of_demuxer hreader hterm hp, hd', ← hp]
  · rw [hp] at heq
    obtain ⟨rfl, rfl⟩ := List.cons.inj heq
    exact ⟨r.demuxer, read_of_bufferedPacket hreader hterm hp, hholds⟩

/-- After the last packet nothing is read. -/
theorem read_of_no_upcoming (hs : s < P.streamCount) {r : StreamReader (DemuxerQueue π) κ}
    (hr : r.Readable (DemuxerQueue.toIDemuxer P) s) (hu : r.Upcoming s []) :
    ∃ r', read (DemuxerQueue.toIDemuxer P) s r = (.ok none, r') ∧
      (r'.streams s).decoder = (r.streams s).decoder := by
  obtain ⟨hterm, hreader, -⟩ := hr
  obtain ⟨rest, hholds, heq⟩ := hu
  obtain ⟨hkept, rfl⟩ := List.append_eq_nil_iff.mp heq.symm
  have hp : (r.streams s).bufferedPacket = none := by simpa using hkept
  obtain ⟨d, hd, -⟩ := DemuxerQueue.read_of_holds_nil hs hholds
  have hd' : (DemuxerQueue.toIDemuxer P).read s r.demuxer = (.ok none, d) := hd
  rw [read_of_demuxer hreader hterm hp, hd']
  exact ⟨_, rfl, by simp⟩

/-! ## One pass -/

/-- The stream stands before the frames of `fed ++ u`: the decoder was fed the packets of `fed`,
and those of `u` are to be read. -/
structure Reading (P : ParserOps π) (s : StreamId) (delay : Nat)
    (holds : List DataPacket → κ → Prop) (fed u : List DataPacket)
    (r : StreamReader (DemuxerQueue π) κ) : Prop where
  readable : r.Readable (DemuxerQueue.toIDemuxer P) s
  noFrame : (r.streams s).bufferedData = none
  pending : DecoderVideo.Pending delay holds fed (r.streams s).decoder
  upcoming : r.Upcoming s u
  timed : Timed (fed ++ u)

/-- The stream after a feeding pass. -/
def fedStream (p : DataPacket) (frame : Option Frame) (d : DecoderVideo κ) (st : DemuxedStream κ) :
    DemuxedStream κ :=
  { received (some p) { st with bufferedPacket := none } with
    decoder := d
    bufferedData := frame
    lastKeyFrame := if frame.isSome then p.isKeyFrame else st.lastKeyFrame }

/-- A feeding pass that gets a packet. -/
theorem readFramePass_of_packet (hs : s < P.streamCount) {fed u : List DataPacket} {p : DataPacket}
    {r : StreamReader (DemuxerQueue π) κ} (h : r.Reading P s delay holds fed (p :: u))
    {frame : Option Frame} {d' : DecoderVideo κ}
    (hdec : DecoderVideo.decode C (some p) (r.streams s).decoder = (.ok frame, d')) :
    ∃ d, readFramePass (DemuxerQueue.toIDemuxer P) C s r =
        (.ok none, { r with demuxer := d }.setStream s (fedStream p frame d' (r.streams s))) ∧
      d.Holds s u := by
  obtain ⟨d, hread, hholds⟩ := read_of_upcoming hs h.readable h.upcoming
  refine ⟨d, ?_, hholds⟩
  rw [readFramePass_of_empty h.readable h.noFrame]
  unfold feed
  rw [Proc.bind_ok hread]
  have hdecode : onDecoder s (DecoderVideo.decode C (some p))
      ({ r with demuxer := d }.setStream s
        (received (some p) { r.streams s with bufferedPacket := none })) =
      (.ok frame, { r with demuxer := d }.setStream s
        { received (some p) { r.streams s with bufferedPacket := none } with decoder := d' }) := by
    unfold onDecoder
    simp [hdec]
  rw [Proc.bind_ok hdecode]
  rcases frame with _ | f <;> simp [passResult, modifyStream, fedStream, Proc.bind_apply, received,
    countPacket]

/-- Up to `delay + 1` packets no frame is ready. -/
theorem pass_short (hC : C.InOrder delay holds drained) (hs : s < P.streamCount)
    {fed u : List DataPacket} {p : DataPacket} {r : StreamReader (DemuxerQueue π) κ}
    (h : r.Reading P s delay holds fed (p :: u)) (hlen : fed.length ≤ delay) :
    ∃ r', readFramePass (DemuxerQueue.toIDemuxer P) C s r = (.ok none, r') ∧
      r'.Reading P s delay holds (fed ++ [p]) u ∧ (r'.streams s).bufferedPacket = none ∧
      (r'.streams s).processedFrameCount = (r.streams s).processedFrameCount := by
  have htimed : Timed (fed ++ [p]) := h.timed.sublist (by simp)
  obtain ⟨d', hdec, hpending⟩ := DecoderVideo.decode_short hC h.pending hlen htimed
  obtain ⟨d, hpass, hholds⟩ := readFramePass_of_packet hs h hdec
  obtain ⟨hterm, hreader, hpos⟩ := h.readable
  refine ⟨_, hpass, ⟨⟨?_, ?_, ?_⟩, ?_, ?_, ⟨u, hholds, ?_⟩, ?_⟩, ?_, ?_⟩
  · simpa [fedStream, received, countPacket] using hterm
  · simpa [fedStream, received, countPacket] using hreader
  · simpa [fedStream, received, countPacket] using hpos
  · simp [fedStream]
  · simpa [fedStream] using hpending
  · simp [fedStream, received, countPacket]
  · simpa using h.timed
  · simp [fedStream, received, countPacket]
  · simp [fedStream, received, countPacket]

/-- With more, the frame of the oldest is ready and the next pass returns it. -/
theorem pass_full (hC : C.InOrder delay holds drained) (hs : s < P.streamCount)
    {fed u rest : List DataPacket} {p x y : DataPacket} {r : StreamReader (DemuxerQueue π) κ}
    (h : r.Reading P s delay holds fed (p :: u)) (hlen : fed.length = delay + 1)
    (hy : fed ++ [p] = x :: y :: rest) :
    ∃ r₁ r', readFramePass (DemuxerQueue.toIDemuxer P) C s r = (.ok none, r₁) ∧
      readFramePass (DemuxerQueue.toIDemuxer P) C s r₁ =
        (.ok (some (some ⟨x.pts, y.pts - x.pts⟩)), r') ∧
      r'.Reading P s delay holds (y :: rest) u ∧ (r'.streams s).bufferedPacket = none ∧
      (r'.streams s).position = y.pts ∧
      (r'.streams s).processedFrameCount = (r.streams s).processedFrameCount + 1 := by
  have htimed : Timed (fed ++ [p]) := h.timed.sublist (by simp)
  obtain ⟨d', hdec, hpending⟩ := DecoderVideo.decode_full hC h.pending hlen hy htimed
  obtain ⟨d, hpass, hholds⟩ := readFramePass_of_packet hs h hdec
  obtain ⟨hterm, hreader, hpos⟩ := h.readable
  generalize hr₁ : ({ r with demuxer := d }.setStream s
    (fedStream p (some ⟨x.pts, y.pts - x.pts⟩) d' (r.streams s))) = r₁ at hpass
  have hst : r₁.streams s = fedStream p (some ⟨x.pts, y.pts - x.pts⟩) d' (r.streams s) := by
    rw [← hr₁, streams_setStream]
  have hreadable : r₁.Readable (DemuxerQueue.toIDemuxer P) s := by
    refine ⟨?_, ?_, ?_⟩ <;> rw [hst]
    · exact hterm
    · exact hreader
    · exact hpos
  -- the stream stands at the end of the packet, beyond the frame
  have hp := htimed.known p (by simp)
  have hend : (r₁.streams s).position = p.pts + p.duration := by
    rw [hst]
    simp [fedStream, received, countPacket, DataPacket.ptsOrDts, hp]
  have hpast : x.pts ≤ p.pts + p.duration ∧ p.pts + p.duration ≠ avNoPtsValue := by
    have hdur := htimed.duration p (by simp)
    have hnonneg := htimed.nonneg p (by simp)
    have hx : x.pts ≤ p.pts := by
      rcases fed with _ | ⟨z, fed⟩
      · simp at hlen
      · obtain ⟨rfl, -⟩ := List.cons.inj hy
        exact Int.le_of_lt (List.rel_of_pairwise_cons htimed.increasing (by simp))
    refine ⟨by lia, fun heq => ?_⟩
    have hzero : avNoPtsValue < 0 := by decide
    rw [← heq] at hzero
    lia
  have htake : takeBuffered ⟨x.pts, y.pts - x.pts⟩ (r₁.streams s) =
      { r₁.streams s with
        bufferedData := none
        position := y.pts
        processedFrameCount := (r.streams s).processedFrameCount + 1 } := by
    unfold takeBuffered
    dsimp only
    rw [hend, if_neg hpast.2, if_neg (Int.not_lt.mpr hpast.1), hst]
    have hnext : x.pts + (y.pts - x.pts) = y.pts := by lia
    simp [fedStream, received, countPacket, hnext]
  have hreturn := readFramePass_of_buffered (C := C) hreadable
    (b := ⟨x.pts, y.pts - x.pts⟩) (by rw [hst]; rfl)
  rw [htake] at hreturn
  obtain ⟨hterm₁, hreader₁, hpos₁⟩ := hreadable
  refine ⟨r₁, _, hpass, hreturn, ⟨⟨?_, ?_, ?_⟩, ?_, ?_, ⟨u, ?_, ?_⟩, ?_⟩, ?_, ?_, ?_⟩
  · simpa using hterm₁
  · simpa using hreader₁
  · simpa using hpos₁
  · simp
  · simpa [hst, fedStream] using hpending
  · rw [demuxer_setStream, ← hr₁]
    exact hholds
  · simp [hst, fedStream, received, countPacket]
  · have hall : fed ++ p :: u = x :: (y :: rest ++ u) := by
      rw [List.append_cons, hy]
      rfl
    have hwhole := h.timed
    rw [hall] at hwhole
    exact hwhole.sublist (List.sublist_cons_self _ _)
  · simp [hst, fedStream, received, countPacket]
  · simp
  · simp

/-- At the end of the stream the null packet is dereferenced. -/
theorem pass_end (hC : C.InOrder delay holds drained) (hs : s < P.streamCount)
    {fed : List DataPacket} {r : StreamReader (DemuxerQueue π) κ}
    (h : r.Reading P s delay holds fed []) (hne : fed ≠ []) :
    ∃ r', readFramePass (DemuxerQueue.toIDemuxer P) C s r = (.error .nullDeref, r') := by
  obtain ⟨r₁, hread, hdecoder⟩ := read_of_no_upcoming hs h.readable h.upcoming
  obtain ⟨frame, d', hdec⟩ := DecoderVideo.decode_drain hC h.pending hne
    (h.timed.sublist (List.sublist_append_left fed []))
  rw [readFramePass_of_empty h.readable h.noFrame]
  unfold feed
  rw [Proc.bind_ok hread]
  have hdecode : onDecoder s (DecoderVideo.decode C none) r₁ =
      (.ok (some frame), r₁.setStream s { r₁.streams s with decoder := d' }) := by
    unfold onDecoder
    simp [hdecoder, hdec]
  rw [Proc.bind_ok hdecode]
  exact ⟨_, rfl⟩

/-! ## One call -/

/-- The stream stands before the frames of `due`. -/
def Due (P : ParserOps π) (s : StreamId) (delay : Nat) (holds : List DataPacket → κ → Prop)
    (due : List DataPacket) (r : StreamReader (DemuxerQueue π) κ) : Prop :=
  ∃ fed u, due = fed ++ u ∧ r.Reading P s delay holds fed u

/-- The decoder holds as many packets as it delays, and one. -/
theorem length_of_pending {fed : List DataPacket} {d : DecoderVideo κ}
    (h : DecoderVideo.Pending delay holds fed d) : fed.length ≤ delay + 1 := by
  cases h with
  | filling fed d _ hle => exact Nat.le_succ_of_le hle
  | ahead x held d frame _ hheld =>
    rw [List.length_cons]
    omega

/-- The call is a loop of passes, one for each packet and one more. -/
theorem readFrame_eq_loop (hs : s < P.streamCount) {fed u : List DataPacket}
    {r : StreamReader (DemuxerQueue π) κ} (h : r.Reading P s delay holds fed u) :
    ∃ fuel, u.length + 2 ≤ fuel ∧ readFrame (DemuxerQueue.toIDemuxer P) C s r =
      readFrameLoop (DemuxerQueue.toIDemuxer P) C s fuel r := by
  refine ⟨(DemuxerQueue.toIDemuxer P).remaining r.demuxer + 3, ?_, rfl⟩
  obtain ⟨rest, hholds, rfl⟩ := h.upcoming
  have hrest : rest.length ≤ (DemuxerQueue.toIDemuxer P).remaining r.demuxer :=
    hholds.le_remaining hs
  have hkept : (r.streams s).bufferedPacket.toList.length ≤ 1 := by
    rcases (r.streams s).bufferedPacket with _ | p
    · exact Nat.zero_le _
    · exact Nat.le_refl _
  rw [List.length_append]
  omega

/-- A pass without a result is followed by another. -/
theorem readFrameLoop_step {δ : Type} {D : IDemuxer δ} {r r' : StreamReader δ κ}
    (h : readFramePass D C s r = (.ok none, r')) (fuel : Nat) :
    readFrameLoop D C s (fuel + 1) r = readFrameLoop D C s fuel r' := by
  show (readFramePass D C s >>= _) r = _
  rw [Proc.bind_ok h]

/-- While `delay + 1` packets follow the next frame, the call returns it and the stream stands
before the one after it. -/
theorem readFrame_due (hC : C.InOrder delay holds drained) (hs : s < P.streamCount)
    {x y : DataPacket} {due : List DataPacket} {r : StreamReader (DemuxerQueue π) κ}
    (h : r.Due P s delay holds (x :: y :: due)) (hlen : delay ≤ due.length) :
    ∃ r', readFrame (DemuxerQueue.toIDemuxer P) C s r = (.ok (some ⟨x.pts, y.pts - x.pts⟩), r') ∧
      r'.Due P s delay holds (y :: due) ∧ (r'.streams s).bufferedPacket = none ∧
      (r'.streams s).position = y.pts ∧
      (r'.streams s).processedFrameCount = (r.streams s).processedFrameCount + 1 := by
  obtain ⟨fed, u, hdue, hreading⟩ := h
  obtain ⟨fuel, hfuel, heq⟩ := readFrame_eq_loop (C := C) hs hreading
  rw [heq]
  clear heq
  induction u generalizing fed fuel r with
  | nil =>
    have hfed := length_of_pending hreading.pending
    have hall := congrArg List.length hdue
    simp only [List.length_cons, List.append_nil] at hall
    omega
  | cons p u ih =>
    obtain ⟨fuel, rfl⟩ : ∃ n, fuel = n + 1 := ⟨fuel - 1, by omega⟩
    rcases Nat.lt_or_eq_of_le (length_of_pending hreading.pending) with hlt | hfull
    · obtain ⟨r₁, hpass, hreading₁, -, hcount⟩ := pass_short hC hs hreading (Nat.le_of_lt_succ hlt)
      obtain ⟨r', hloop, hrest⟩ := ih (fed ++ [p]) (by simpa using hdue) hreading₁ fuel
        (by rw [List.length_cons] at hfuel; omega)
      rw [readFrameLoop_step hpass, ← hcount]
      exact ⟨r', hloop, hrest⟩
    · obtain ⟨fuel, rfl⟩ : ∃ n, fuel = n + 1 := ⟨fuel - 1, by rw [List.length_cons] at hfuel; omega⟩
      rcases fed with _ | ⟨x', fed⟩
      · simp at hfull
      · obtain ⟨rfl, htail⟩ := List.cons.inj hdue
        have hrest : y :: due = fed ++ p :: u := htail
        obtain ⟨z, rest, hz⟩ := List.exists_cons_of_ne_nil (l := fed ++ [p]) (by simp)
        have hsplit : y :: due = z :: (rest ++ u) := by
          rw [hrest, List.append_cons, hz]
          rfl
        obtain ⟨rfl, rfl⟩ := List.cons.inj hsplit
        obtain ⟨r₁, r', hpass, hreturn, hreading', hkept, hposition, hcount⟩ :=
          pass_full hC hs hreading hfull (by rw [List.cons_append, hz])
        refine ⟨r', ?_, ⟨y :: rest, u, rfl, hreading'⟩, hkept, hposition, hcount⟩
        rw [readFrameLoop_step hpass]
        show (readFramePass (DemuxerQueue.toIDemuxer P) C s >>= _) r₁ = _
        rw [Proc.bind_ok hreturn]
        rfl

/-- With fewer packets after the next frame the call dereferences the null packet. -/
theorem readFrame_end (hC : C.InOrder delay holds drained) (hs : s < P.streamCount)
    {due : List DataPacket} {r : StreamReader (DemuxerQueue π) κ}
    (h : r.Due P s delay holds due) (hne : due ≠ []) (hlen : due.length ≤ delay + 1) :
    ∃ r', readFrame (DemuxerQueue.toIDemuxer P) C s r = (.error .nullDeref, r') := by
  obtain ⟨fed, u, rfl, hreading⟩ := h
  obtain ⟨fuel, hfuel, heq⟩ := readFrame_eq_loop (C := C) hs hreading
  rw [heq]
  clear heq
  induction u generalizing fed fuel r with
  | nil =>
    obtain ⟨fuel, rfl⟩ : ∃ n, fuel = n + 1 := ⟨fuel - 1, by omega⟩
    rw [List.append_nil] at hne
    obtain ⟨r', hpass⟩ := pass_end hC hs hreading hne
    refine ⟨r', ?_⟩
    show (readFramePass (DemuxerQueue.toIDemuxer P) C s >>= _) r = _
    rw [Proc.bind_error hpass]
  | cons p u ih =>
    obtain ⟨fuel, rfl⟩ : ∃ n, fuel = n + 1 := ⟨fuel - 1, by omega⟩
    have hfed : fed.length ≤ delay := by
      rw [List.length_append, List.length_cons] at hlen
      omega
    obtain ⟨r₁, hpass, hreading₁, -, -⟩ := pass_short hC hs hreading hfed
    rw [readFrameLoop_step hpass]
    exact ih (fed ++ [p]) hreading₁ (by simp) (by simpa using hlen) fuel
      (by rw [List.length_cons] at hfuel; omega)

end Seekira.Model.StreamReader
