import Seekira.Analysis.DecoderRounds
import Seekira.Analysis.FrameTrack

/-!
# Packets in, frames out

A codec that keeps the order of its packets and returns their pictures `delay`
packets late.  After a flush the decoder takes `delay + 1` packets before it
remembers its first frame; from then on every packet makes it return the frame
remembered, with the distance to the next one as its duration.
-/

set_option autoImplicit false

namespace Seekira.Model

/-- An opened codec returns one picture for each packet it accepted, with the packet's timestamp
and in the order of the packets, `delay` packets late; when it is drained it returns the pictures
it holds back, and nothing from then on until it is flushed.  `holds` says for which packets a
picture is still to come, `drained` that the codec was drained. -/
structure CodecOps.InOrder {κ : Type} (C : CodecOps κ) (delay : Nat)
    (holds : List DataPacket → κ → Prop) (drained : κ → Prop) : Prop where
  packet : ∀ held k p, holds held k →
    ∃ frames k', C.send (some p) k = (.ok, ⟨frames, none⟩, k') ∧
      frames.map AVFrame.bestEffortTimestamp =
        ((held ++ [p]).take (held.length + 1 - delay)).map DataPacket.pts ∧
      holds ((held ++ [p]).drop (held.length + 1 - delay)) k'
  drain : ∀ held k, holds held k →
    ∃ frames k', C.send none k = (.ok, ⟨frames, none⟩, k') ∧
      frames.map AVFrame.bestEffortTimestamp = held.map DataPacket.pts ∧ drained k'
  drainedAgain : ∀ k, drained k →
    ∃ res k', C.send none k = (res, ⟨[], none⟩, k') ∧ (res = .ok ∨ res = .eof)
  flush : ∀ k, holds [] (C.flushBuffers k)

namespace DecoderVideo

variable {κ : Type} {C : CodecOps κ} {delay : Nat} {holds : List DataPacket → κ → Prop}
  {drained : κ → Prop}

/-! ## The clock follows the pictures -/

/-- The clock stands at or before the next picture, or was not started. -/
def ClockBefore (ts : TimestampFF) (d : DecoderVideo κ) : Prop :=
  d.firstFrameAfterSeek = true ∨ d.clock ≤ ts

/-- A picture with a time behind the clock sets the clock to it. -/
theorem advanceClock_clock {f : AVFrame} {d : DecoderVideo κ}
    (hknown : f.bestEffortTimestamp ≠ avNoPtsValue) (h : d.ClockBefore f.bestEffortTimestamp) :
    (d.advanceClock C f).clock = f.bestEffortTimestamp := by
  have hge : f.bestEffortTimestamp ≥ d.clock ∨ d.firstFrameAfterSeek = true := h.symm
  unfold advanceClock
  simp [hknown, hge]

/-- What `advance_clock` and `enqueue` leave alone. -/
theorem enqueue_codec (f : AVFrame) (d : DecoderVideo κ) :
    (d.enqueue C f).codec = d.codec ∧ (d.enqueue C f).useDts = d.useDts := by
  obtain ⟨clock, duration, h⟩ := advanceClock_frame (C := C) f d
  unfold enqueue
  rw [h]
  exact ⟨rfl, rfl⟩

/-- Queueing pictures does not touch the codec. -/
theorem enqueueAll_codec (frames : List AVFrame) (d : DecoderVideo κ) :
    (d.enqueueAll C frames).codec = d.codec ∧ (d.enqueueAll C frames).useDts = d.useDts := by
  induction frames generalizing d with
  | nil => exact ⟨rfl, rfl⟩
  | cons f frames ih =>
    show ((d.enqueue C f).enqueueAll C frames).codec = d.codec ∧
      ((d.enqueue C f).enqueueAll C frames).useDts = d.useDts
    rw [(ih _).1, (ih _).2]
    exact enqueue_codec f d

theorem queue_enqueue (f : AVFrame) (d : DecoderVideo κ) :
    (d.enqueue C f).queue.map Frame.ts = d.queue.map Frame.ts ++ [(d.advanceClock C f).clock] := by
  unfold enqueue
  simp

theorem fst_getNextQueuedFrame (d : DecoderVideo κ) :
    d.getNextQueuedFrame.1 = d.queue.head? := by
  unfold getNextQueuedFrame
  rcases hq : d.queue with _ | ⟨f, rest⟩ <;> rfl

/-- Pictures with known and growing timestamps are queued under their timestamps. -/
theorem queue_enqueueAll {frames : List AVFrame} {ts : List TimestampFF} {d : DecoderVideo κ}
    (hframes : frames.map AVFrame.bestEffortTimestamp = ts) (hknown : avNoPtsValue ∉ ts)
    (hts : ts.Pairwise (· < ·)) (hclock : ∀ t ∈ ts.head?, d.ClockBefore t) :
    (d.enqueueAll C frames).queue.map Frame.ts = d.queue.map Frame.ts ++ ts := by
  induction ts generalizing frames d with
  | nil =>
    obtain rfl := List.map_eq_nil_iff.mp hframes
    simp [enqueueAll]
  | cons t ts ih =>
    obtain ⟨f, frames, rfl, rfl, hrest⟩ := List.map_eq_cons_iff.mp hframes
    rw [List.mem_cons, not_or] at hknown
    obtain ⟨hlt, hts⟩ := List.pairwise_cons.mp hts
    have hadv := advanceClock_clock (C := C) (Ne.symm hknown.1) (hclock _ rfl)
    have hnext : ∀ t ∈ ts.head?, (d.enqueue C f).ClockBefore t := by
      intro t ht
      refine .inr ?_
      show (d.advanceClock C f).clock ≤ t
      rw [hadv]
      exact Int.le_of_lt (hlt t (List.mem_of_mem_head? ht))
    show ((d.enqueue C f).enqueueAll C frames).queue.map Frame.ts = _
    rw [ih hrest hknown.2 hts hnext, queue_enqueue, hadv]
    simp

/-! ## One packet -/

/-- Between two calls: no frame is queued, timestamps are taken from the pts, and the codec holds
back the pictures of `held`. -/
structure Ready (holds : List DataPacket → κ → Prop) (held : List DataPacket)
    (d : DecoderVideo κ) : Prop where
  queue : d.queue = []
  pts : d.useDts = false
  codec : holds held d.codec

/-- A packet with a known pts goes to the codec as it is. -/
theorem preparePacket_eq {p : DataPacket} (hp : p.pts ≠ avNoPtsValue) {d : DecoderVideo κ}
    (hd : d.useDts = false) :
    ∃ reset, d.preparePacket (some p) = (some p, { d with clockReset := reset }) := by
  rcases d with ⟨codec, canReopen, clockReset, clock, first, useDts⟩
  obtain rfl : useDts = false := hd
  unfold preparePacket
  by_cases h : (p.isKeyFrame && clockReset) = true
  · refine ⟨false, ?_⟩
    simp [h, hp]
  · refine ⟨clockReset, ?_⟩
    simp [h]

/-- What an accepted packet, or the drain, delivers. -/
theorem decodeInternal_of_send {data packet : Option DataPacket} {d d₀ : DecoderVideo κ}
    {res : SendResult} {frames : List AVFrame} {k : κ}
    (hprep : { d with canReopenDecoder := false }.preparePacket data = (packet, d₀))
    (hsend : C.send packet d₀.codec = (res, ⟨frames, none⟩, k)) (hres : res = .ok ∨ res = .eof) :
    decodeInternal C data d =
      (.ok ({ d₀ with codec := k }.enqueueAll C frames).getNextQueuedFrame.1,
        ({ d₀ with codec := k }.enqueueAll C frames).getNextQueuedFrame.2) := by
  unfold decodeInternal
  dsimp only
  rw [hprep]
  dsimp only
  rw [hsend]
  rcases hres with rfl | rfl <;> rfl

/-- While the codec holds back fewer than `delay` pictures, nothing comes out. -/
theorem decodeInternal_short (hC : C.InOrder delay holds drained) {held : List DataPacket}
    {d : DecoderVideo κ} (h : d.Ready holds held) {p : DataPacket} (hp : p.pts ≠ avNoPtsValue)
    (hlen : held.length < delay) :
    ∃ d', decodeInternal C (some p) d = (.ok none, d') ∧ d'.Ready holds (held ++ [p]) ∧
      d'.prevFrame = d.prevFrame ∧ d'.firstFrameAfterSeek = d.firstFrameAfterSeek := by
  obtain ⟨reset, hprep⟩ := preparePacket_eq hp (d := { d with canReopenDecoder := false }) h.pts
  obtain ⟨frames, k, hsend, hframes, hholds⟩ := hC.packet held d.codec p h.codec
  rw [show held.length + 1 - delay = 0 by omega] at hframes hholds
  obtain rfl := List.map_eq_nil_iff.mp hframes
  refine ⟨{ d with canReopenDecoder := false, clockReset := reset, codec := k }, ?_,
    ⟨h.queue, h.pts, hholds⟩, rfl, rfl⟩
  rw [decodeInternal_of_send hprep hsend (.inl rfl)]
  simp [enqueueAll, getNextQueuedFrame, h.queue]

/-- Afterwards the picture of the oldest packet comes out. -/
theorem decodeInternal_full (hC : C.InOrder delay holds drained) {held rest : List DataPacket}
    {d : DecoderVideo κ} (h : d.Ready holds held) {p y : DataPacket} (hp : p.pts ≠ avNoPtsValue)
    (hlen : held.length = delay) (hy : held ++ [p] = y :: rest) (hknown : y.pts ≠ avNoPtsValue)
    (hclock : d.ClockBefore y.pts) :
    ∃ frame d', decodeInternal C (some p) d = (.ok (some frame), d') ∧ frame.ts = y.pts ∧
      d'.Ready holds rest ∧ d'.prevFrame = d.prevFrame ∧ d'.clock = y.pts := by
  obtain ⟨reset, hprep⟩ := preparePacket_eq hp (d := { d with canReopenDecoder := false }) h.pts
  obtain ⟨frames, k, hsend, hframes, hholds⟩ := hC.packet held d.codec p h.codec
  rw [show held.length + 1 - delay = 1 by omega, hy] at hframes hholds
  obtain ⟨f, frames, rfl, hf, hnil⟩ := List.map_eq_cons_iff.mp hframes
  obtain rfl := List.map_eq_nil_iff.mp hnil
  have heq := decodeInternal_of_send hprep hsend (.inl rfl)
  obtain ⟨d₁, hd₁⟩ : ∃ d₁ : DecoderVideo κ,
      d₁ = { d with canReopenDecoder := false, clockReset := reset, codec := k } := ⟨_, rfl⟩
  rw [← hd₁] at heq
  have hclock₁ : d₁.ClockBefore f.bestEffortTimestamp := by
    rw [hf, hd₁]
    exact hclock
  have hadv := advanceClock_clock (C := C) (by rw [hf]; exact hknown) hclock₁
  have hqueue₁ : d₁.queue = [] := by rw [hd₁]; exact h.queue
  have hqueue := queue_enqueue (C := C) f d₁
  rw [hadv, hf, hqueue₁] at hqueue
  obtain ⟨frame, tail, hcons, hts, htail⟩ := List.map_eq_cons_iff.mp hqueue
  obtain rfl := List.map_eq_nil_iff.mp htail
  have hnext : (d₁.enqueueAll C [f]).getNextQueuedFrame =
      (some frame, { d₁.enqueue C f with queue := [] }) := by
    show (d₁.enqueue C f).getNextQueuedFrame = _
    unfold getNextQueuedFrame
    rw [hcons]
  rw [hnext] at heq
  obtain ⟨hcodec, hdts⟩ := enqueue_codec (C := C) f d₁
  refine ⟨frame, _, heq, hts, ⟨rfl, ?_, ?_⟩, ?_, hadv.trans hf⟩
  · show (d₁.enqueue C f).useDts = false
    rw [hdts, hd₁]
    exact h.pts
  · show holds rest (d₁.enqueue C f).codec
    rw [hcodec, hd₁]
    exact hholds
  · show (d₁.enqueue C f).prevFrame = d.prevFrame
    rw [prevFrame_enqueue, hd₁]

/-! ## Packets whose frames are still to come -/

/-- The decoder was fed the packets of `fed` since it was flushed, or since it returned the frame
before them.  Up to `delay` packets all are with the codec; one more, and the first is
remembered. -/
inductive Pending (delay : Nat) (holds : List DataPacket → κ → Prop) :
    List DataPacket → DecoderVideo κ → Prop
  | filling (fed : List DataPacket) (d : DecoderVideo κ) : d.Ready holds fed →
      fed.length ≤ delay → d.prevFrame = none → d.firstFrameAfterSeek = true →
      Pending delay holds fed d
  | ahead (x : DataPacket) (held : List DataPacket) (d : DecoderVideo κ) (frame : Frame) :
      d.Ready holds held → held.length = delay → d.prevFrame = some frame → frame.ts = x.pts →
      d.clock = x.pts → Pending delay holds (x :: held) d

theorem pending_flush (hC : C.InOrder delay holds drained) (time : TimestampFF)
    (d : DecoderVideo κ) : Pending delay holds [] (d.flush C time) :=
  .filling [] _ ⟨rfl, rfl, hC.flush d.codec⟩ (Nat.zero_le _) rfl rfl

/-- Up to `delay + 1` packets no frame is returned. -/
theorem decode_short (hC : C.InOrder delay holds drained) {fed : List DataPacket}
    {d : DecoderVideo κ} (h : Pending delay holds fed d) (hlen : fed.length ≤ delay)
    {p : DataPacket} (htimed : Timed (fed ++ [p])) :
    ∃ d', decode C (some p) d = (.ok none, d') ∧ Pending delay holds (fed ++ [p]) d' := by
  have hp : p.pts ≠ avNoPtsValue := htimed.known p (by simp)
  cases h with
  | ahead x held d frame hready hheld =>
    rw [List.length_cons] at hlen
    omega
  | filling fed d hready _ hprev hfirst =>
    rcases Nat.lt_or_eq_of_le hlen with hlt | heq
    · obtain ⟨d', hdec, hready', hprev', hfirst'⟩ := decodeInternal_short hC hready hp hlt
      refine ⟨d', ?_, .filling _ _ hready' ?_ (hprev'.trans hprev) (hfirst'.trans hfirst)⟩
      · apply decode_of_round
        rw [decodeRound_ok hdec]
        simp [roundResult, hprev', hprev]
      · rw [List.length_append]
        exact hlt
    · obtain ⟨y, rest, hy⟩ := List.exists_cons_of_ne_nil (l := fed ++ [p]) (by simp)
      have hknown : y.pts ≠ avNoPtsValue := htimed.known y (by simp [hy])
      obtain ⟨frame, d', hdec, hts, hready', hprev', hclock'⟩ :=
        decodeInternal_full hC hready hp heq hy hknown (.inl hfirst)
      have hrest : rest.length = delay := by
        have hlen := congrArg List.length hy
        simp only [List.length_append, List.length_cons, List.length_nil] at hlen
        omega
      rw [hy]
      refine ⟨{ d' with prevFrame := some frame }, ?_, .ahead y rest _ frame
        ⟨hready'.queue, hready'.pts, hready'.codec⟩ hrest rfl hts hclock'⟩
      apply decode_of_round
      rw [decodeRound_ok hdec]
      simp [roundResult, hprev', hprev]

/-- From then on each packet returns the frame of the oldest. -/
theorem decode_full (hC : C.InOrder delay holds drained) {fed : List DataPacket}
    {d : DecoderVideo κ} (h : Pending delay holds fed d) (hlen : fed.length = delay + 1)
    {p x y : DataPacket} {rest : List DataPacket} (hy : fed ++ [p] = x :: y :: rest)
    (htimed : Timed (fed ++ [p])) :
    ∃ d', decode C (some p) d = (.ok (some ⟨x.pts, y.pts - x.pts⟩), d') ∧
      Pending delay holds (y :: rest) d' := by
  have hp : p.pts ≠ avNoPtsValue := htimed.known p (by simp)
  cases h with
  | filling fed d hready hle =>
    omega
  | ahead x' held d frame hready hheld hprev hts hclock =>
    have hy' : x' :: held ++ [p] = x :: y :: rest := hy
    obtain ⟨rfl, hheldy⟩ := List.cons.inj hy
    have hknown : y.pts ≠ avNoPtsValue := htimed.known y (by simp [hy'])
    have hlt : x'.pts < y.pts := by
      have hpair := htimed.increasing
      rw [hy'] at hpair
      exact List.rel_of_pairwise_cons hpair (by simp)
    obtain ⟨next, d', hdec, hts', hready', hprev', hclock'⟩ :=
      decodeInternal_full hC hready hp hheld hheldy hknown
        (.inr (by rw [hclock]; exact Int.le_of_lt hlt))
    have hrest : rest.length = delay := by
      have hlen' := congrArg List.length hy'
      simp only [List.length_append, List.length_cons, List.length_nil] at hlen' hlen
      omega
    refine ⟨{ d' with prevFrame := some next }, ?_, .ahead y rest _ next
      ⟨hready'.queue, hready'.pts, hready'.codec⟩ hrest rfl hts' hclock'⟩
    apply decode_of_round
    rw [decodeRound_ok hdec]
    simp [roundResult, hprev', hprev, hts, hts', Int.not_le.mpr hlt]

/-! ## The end of the packets -/

/-- The drain queues all pictures held back. -/
theorem decodeInternal_drain (hC : C.InOrder delay holds drained) {held : List DataPacket}
    {d : DecoderVideo κ} (h : d.Ready holds held) (htimed : Timed held)
    (hclock : ∀ p ∈ held.head?, d.ClockBefore p.pts) :
    ∃ d₁ : DecoderVideo κ,
      decodeInternal C none d = (.ok d₁.getNextQueuedFrame.1, d₁.getNextQueuedFrame.2) ∧
      d₁.queue.map Frame.ts = held.map DataPacket.pts ∧ drained d₁.codec ∧
      d₁.prevFrame = d.prevFrame := by
  obtain ⟨frames, k, hsend, hframes, hdrained⟩ := hC.drain held d.codec h.codec
  have hprep : { d with canReopenDecoder := false }.preparePacket none =
      (none, { d with canReopenDecoder := false }) := rfl
  have heq := decodeInternal_of_send hprep hsend (.inl rfl)
  refine ⟨_, heq, ?_, ?_, ?_⟩
  · have hknown : avNoPtsValue ∉ held.map DataPacket.pts := by
      intro hmem
      obtain ⟨p, hp, hpts⟩ := List.mem_map.mp hmem
      exact htimed.known p hp hpts
    have hhead : ∀ t ∈ (held.map DataPacket.pts).head?,
        { d with canReopenDecoder := false, codec := k }.ClockBefore t := by
      intro t ht
      rw [List.head?_map] at ht
      obtain ⟨p, hp, rfl⟩ := Option.map_eq_some_iff.mp ht
      exact hclock p hp
    rw [queue_enqueueAll hframes hknown (List.pairwise_map.mpr htimed.increasing) hhead]
    simp [h.queue]
  · rw [(enqueueAll_codec _ _).1]
    exact hdrained
  · rw [prevFrame_enqueueAll]

/-- A drained codec delivers nothing more. -/
theorem decodeInternal_drained (hC : C.InOrder delay holds drained) {d : DecoderVideo κ}
    (h : drained d.codec) :
    ∃ d', decodeInternal C none d = (.ok d.queue.head?, d') ∧ d'.prevFrame = d.prevFrame := by
  obtain ⟨res, k, hsend, hres⟩ := hC.drainedAgain d.codec h
  have hprep : { d with canReopenDecoder := false }.preparePacket none =
      (none, { d with canReopenDecoder := false }) := rfl
  have heq := decodeInternal_of_send hprep hsend hres
  rw [fst_getNextQueuedFrame] at heq
  exact ⟨_, heq, by simp [enqueueAll]⟩

/-- With a frame remembered, the drain returns it. -/
theorem decodeRound_remembered {d d' : DecoderVideo κ} {frame : Option Frame} {prev : Frame}
    (h : decodeInternal C none d = (.ok frame, d')) (hprev : d'.prevFrame = some prev)
    (hlater : ∀ f ∈ frame, prev.ts < f.ts) :
    ∃ out d'', decodeRound C none d = (.ok (some (some out)), d'') := by
  rw [decodeRound_ok h]
  unfold roundResult
  rcases frame with _ | f
  · simp [hprev]
  · simp [hprev, Int.not_le.mpr (hlater f rfl)]

/-- While frames are still to come, the drain returns one. -/
theorem decode_drain (hC : C.InOrder delay holds drained) {fed : List DataPacket}
    {d : DecoderVideo κ} (h : Pending delay holds fed d) (hne : fed ≠ []) (htimed : Timed fed) :
    ∃ frame d', decode C none d = (.ok (some frame), d') := by
  cases h with
  | filling fed d hready _ hprev hfirst =>
    obtain ⟨d₁, hdec, hqueue, hdrained, hprev₁⟩ :=
      decodeInternal_drain hC hready htimed fun _ _ => .inl hfirst
    obtain ⟨x, rest, rfl⟩ := List.exists_cons_of_ne_nil hne
    obtain ⟨f, frames, hcons, hts, hrest⟩ := List.map_eq_cons_iff.mp hqueue
    have hnext : d₁.getNextQueuedFrame = (some f, { d₁ with queue := frames }) := by
      unfold getNextQueuedFrame
      rw [hcons]
    rw [hnext] at hdec
    -- the first round only remembers a frame
    have hround : decodeRound C none d =
        (.ok none, { d₁ with queue := frames, prevFrame := some f }) := by
      rw [decodeRound_ok hdec]
      simp [roundResult, hprev₁, hprev]
    obtain ⟨d₂, hdec₂, hprev₂⟩ := decodeInternal_drained hC
      (d := { d₁ with queue := frames, prevFrame := some f }) hdrained
    have hlater : ∀ g ∈ frames.head?, f.ts < g.ts := by
      intro g hg
      obtain ⟨gs, rfl⟩ := List.head?_eq_some_iff.mp hg
      obtain ⟨q, qs, rfl, hq, -⟩ := List.map_eq_cons_iff.mp hrest.symm
      rw [hts, ← hq]
      exact List.rel_of_pairwise_cons htimed.increasing (by simp)
    obtain ⟨out, d', hround₂⟩ := decodeRound_remembered hdec₂ hprev₂ hlater
    exact ⟨out, d', decode_of_two_rounds hround hround₂⟩
  | ahead x held d frame hready hheld hprev hts hclock =>
    have hlater : ∀ p ∈ held, x.pts < p.pts := fun p hp =>
      List.rel_of_pairwise_cons htimed.increasing hp
    have htail : Timed held := htimed.sublist (List.sublist_cons_self x held)
    obtain ⟨d₁, hdec, hqueue, -, hprev₁⟩ := decodeInternal_drain hC hready htail (by
      intro p hp
      refine .inr ?_
      rw [hclock]
      exact Int.le_of_lt (hlater p (List.mem_of_mem_head? hp)))
    have hnext : ∀ g ∈ d₁.getNextQueuedFrame.1, frame.ts < g.ts := by
      intro g hg
      rw [fst_getNextQueuedFrame] at hg
      obtain ⟨gs, hgs⟩ := List.head?_eq_some_iff.mp hg
      rw [hgs] at hqueue
      obtain ⟨q, qs, rfl, hqts, -⟩ := List.map_eq_cons_iff.mp hqueue.symm
      rw [hts, ← hqts]
      exact hlater q (by simp)
    obtain ⟨out, d', hround⟩ := decodeRound_remembered hdec
      (by rw [prevFrame_getNextQueuedFrame, hprev₁, hprev]) hnext
    exact ⟨out, d', decode_of_round hround⟩

end DecoderVideo

end Seekira.Model
