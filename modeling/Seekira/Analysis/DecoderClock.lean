import Mathlib.Data.Int.Order.Basic
import Seekira.Library.Machine
import Seekira.Analysis.DecoderRounds

/-!
# The clock of the decoder

From a flush with a known time on, the decoder's clock is unknown only until the first
picture.  A later picture moves it forwards: to the picture's own timestamp, or by a duration
that is never negative.  So the frames that are queued carry known timestamps that do not
decrease.
-/

set_option autoImplicit false

namespace Seekira.Model

open Library

variable {κ : Type} {C : CodecOps κ}

/-- A picture's timestamp is a 64-bit integer, of which `AV_NOPTS_VALUE` is the smallest. -/
def CodecOps.Bounded (C : CodecOps κ) : Prop :=
  ∀ packet codec f,
    (f ∈ (C.send packet codec).2.1.frames ∨ f ∈ (C.send packet codec).2.1.broken) →
      avNoPtsValue ≤ f.bestEffortTimestamp

namespace DecoderVideo

/-! ## What is queued -/

/-- The frames that `enqueueAll` appends to the queue. -/
def stamped (C : CodecOps κ) : List AVFrame → DecoderVideo κ → List Frame
  | [], _ => []
  | f :: rest, d =>
    ⟨(d.advanceClock C f).clock, (d.advanceClock C f).prevDurationFramePkt⟩ ::
      stamped C rest (d.enqueue C f)

/-- The frames that `decode_internal` appends to the queue. -/
def queuedBy (C : CodecOps κ) (data : Option DataPacket) (d : DecoderVideo κ) : List Frame :=
  let d := { d with canReopenDecoder := false }
  let (packet, d) := d.preparePacket data
  match C.send packet d.codec with
  | (.again, _) | (.failed, _) => []
  | (_, received, codec) => stamped C received.frames { d with codec := codec }

/-- The decoder stamps the pictures that it queues. -/
theorem queue_stamped (frames : List AVFrame) (d : DecoderVideo κ) :
    (d.enqueueAll C frames).queue = d.queue ++ stamped C frames d := by
  induction frames generalizing d with
  | nil => simp [enqueueAll, stamped]
  | cons f rest ih =>
    change ((d.enqueue C f).enqueueAll C rest).queue = _
    rw [ih]
    simp [enqueue, stamped]

/-- The decoder with a record of the frames that were queued. -/
structure Queueing (κ : Type) where
  decoder : DecoderVideo κ
  queued : List Frame

/-- The calls of `decode_internal` after `flush(time)`. -/
def queueing (C : CodecOps κ) (time : TimestampFF) (d : DecoderVideo κ) :
    Machine (Queueing κ) (Option DataPacket) where
  init := ⟨d.flush C time, []⟩
  step s data :=
    some ⟨(decodeInternal C data s.decoder).2, s.queued ++ queuedBy C data s.decoder⟩

/-! ## The clock -/

/-- No picture came yet, or the clock is known and the last distance is not negative. -/
def ClockOk (d : DecoderVideo κ) : Prop :=
  avNoPtsValue < d.startTime ∧
    ((d.firstFrameAfterSeek = true ∧ d.clock = avNoPtsValue) ∨
      (d.firstFrameAfterSeek = false ∧ avNoPtsValue < d.clock ∧ 0 ≤ d.prevDurationClock))

/-- A picture leaves the clock known and never moves a known clock back. -/
theorem clockOk_advanceClock {f : AVFrame} {d : DecoderVideo κ} (hd : ClockOk d)
    (hf : avNoPtsValue ≤ f.bestEffortTimestamp) :
    ClockOk (d.advanceClock C f) ∧ (d.advanceClock C f).firstFrameAfterSeek = false ∧
      d.clock ≤ (d.advanceClock C f).clock := by
  obtain ⟨hstart, hclock⟩ := hd
  unfold advanceClock ClockOk
  dsimp only
  rcases hclock with ⟨hfirst, hunknown⟩ | ⟨hfirst, hknown, hduration⟩
  · -- the first picture: the clock is set to its timestamp or to the time of the flush
    by_cases hnew : f.bestEffortTimestamp = avNoPtsValue
    · rw [if_pos ⟨hnew, hunknown, hfirst⟩]
      refine ⟨⟨hstart, .inr ⟨rfl, hstart, le_refl 0⟩⟩, rfl, ?_⟩
      rw [hunknown]
      exact le_of_lt hstart
    · rw [if_neg (fun h => hnew h.1), if_pos (.inr hfirst), hfirst]
      have hlt : avNoPtsValue < f.bestEffortTimestamp := lt_of_le_of_ne hf (Ne.symm hnew)
      refine ⟨⟨hstart, .inr ⟨rfl, hlt, le_refl 0⟩⟩, rfl, ?_⟩
      rw [hunknown]
      exact hf
  · rw [if_neg (fun h => absurd h.2.1 (ne_of_gt hknown))]
    by_cases hlate : f.bestEffortTimestamp ≥ d.clock
    · rw [if_pos (.inl hlate), hfirst]
      refine ⟨⟨hstart, .inr ⟨rfl, lt_of_lt_of_le hknown hlate, ?_⟩⟩, rfl, hlate⟩
      exact Int.sub_nonneg_of_le hlate
    · rw [if_neg (by simp [hlate, hfirst])]
      -- the clock moves by the last distance, or by the duration of the last packet
      have hstep : 0 ≤ (if f.pts = avNoPtsValue ∧ d.prevDurationFramePkt > 0 then
          d.prevDurationFramePkt else d.prevDurationClock) := by
        split
        · rename_i hpacket
          exact le_of_lt hpacket.2
        · exact hduration
      have hforward := Int.le_add_of_nonneg_right (a := d.clock) hstep
      exact ⟨⟨hstart, .inr ⟨rfl, lt_of_lt_of_le hknown hforward, hstep⟩⟩, rfl, hforward⟩

/-! ## The frames -/

/-- The frames so far have known timestamps that do not decrease, up to the clock. -/
structure Ticking (frames : List Frame) (d : DecoderVideo κ) : Prop where
  clock : ClockOk d
  first : d.firstFrameAfterSeek = true → frames = []
  known : ∀ f ∈ frames, f.ts ≠ avNoPtsValue
  ordered : frames.Pairwise fun f g => f.ts ≤ g.ts
  upTo : ∀ f ∈ frames, f.ts ≤ d.clock

/-- A picture that is not queued. -/
theorem Ticking.advanceClock {frames : List Frame} {d : DecoderVideo κ} {f : AVFrame}
    (h : Ticking frames d) (hf : avNoPtsValue ≤ f.bestEffortTimestamp) :
    Ticking frames (d.advanceClock C f) := by
  obtain ⟨hclock, hfirst, hforward⟩ := clockOk_advanceClock (C := C) h.clock hf
  refine ⟨hclock, ?_, h.known, h.ordered, ?_⟩
  · intro htrue
    rw [hfirst] at htrue
    cases htrue
  · intro g hg
    exact le_trans (h.upTo g hg) hforward

/-- One more picture is queued with the clock's new time. -/
theorem Ticking.enqueue {frames : List Frame} {d : DecoderVideo κ} {f : AVFrame}
    (h : Ticking frames d) (hf : avNoPtsValue ≤ f.bestEffortTimestamp) :
    Ticking (frames ++ [⟨(d.advanceClock C f).clock, (d.advanceClock C f).prevDurationFramePkt⟩])
      (d.enqueue C f) := by
  have hadvanced := h.advanceClock (C := C) hf
  obtain ⟨-, hfirst, -⟩ := clockOk_advanceClock (C := C) h.clock hf
  have hknown : avNoPtsValue < (d.advanceClock C f).clock := by
    rcases hadvanced.clock.2 with ⟨htrue, -⟩ | ⟨-, hknown, -⟩
    · rw [hfirst] at htrue
      cases htrue
    · exact hknown
  refine ⟨hadvanced.clock, ?_, ?_, ?_, ?_⟩
  · intro htrue
    change (d.advanceClock C f).firstFrameAfterSeek = true at htrue
    rw [hfirst] at htrue
    cases htrue
  · intro g hg
    rcases List.mem_append.mp hg with hg | hg
    · exact h.known g hg
    · rw [List.mem_singleton.mp hg]
      exact ne_of_gt hknown
  · rw [List.pairwise_append]
    refine ⟨h.ordered, List.pairwise_singleton _ _, ?_⟩
    intro g hg g' hg'
    rw [List.mem_singleton.mp hg']
    exact hadvanced.upTo g hg
  · intro g hg
    rcases List.mem_append.mp hg with hg | hg
    · exact hadvanced.upTo g hg
    · rw [List.mem_singleton.mp hg]
      exact le_refl _

/-- The stamped pictures go on with the clock. -/
theorem Ticking.enqueueAll {frames : List Frame} {d : DecoderVideo κ} {pictures : List AVFrame}
    (h : Ticking frames d) (hf : ∀ f ∈ pictures, avNoPtsValue ≤ f.bestEffortTimestamp) :
    Ticking (frames ++ stamped C pictures d) (d.enqueueAll C pictures) := by
  induction pictures generalizing frames d with
  | nil => simpa [stamped, DecoderVideo.enqueueAll] using h
  | cons f rest ih =>
    have hstep := ih (h.enqueue (C := C) (hf f List.mem_cons_self))
      fun g hg => hf g (List.mem_cons_of_mem f hg)
    rw [List.append_assoc] at hstep
    exact hstep

/-- What the clock reads is all that counts. -/
theorem Ticking.congr {frames : List Frame} {d d' : DecoderVideo κ} (h : Ticking frames d)
    (hclock : d'.clock = d.clock) (hfirst : d'.firstFrameAfterSeek = d.firstFrameAfterSeek)
    (hduration : d'.prevDurationClock = d.prevDurationClock)
    (hstart : d'.startTime = d.startTime) : Ticking frames d' := by
  refine ⟨?_, ?_, h.known, h.ordered, ?_⟩
  · unfold ClockOk
    rw [hclock, hfirst, hduration, hstart]
    exact h.clock
  · rw [hfirst]
    exact h.first
  · rw [hclock]
    exact h.upTo

/-- Taking the next frame from the queue leaves the clock alone. -/
theorem Ticking.getNextQueuedFrame {frames : List Frame} {d : DecoderVideo κ}
    (h : Ticking frames d) : Ticking frames d.getNextQueuedFrame.2 := by
  unfold DecoderVideo.getNextQueuedFrame
  split
  · exact h
  · exact h.congr rfl rfl rfl rfl

/-- One call of `decode_internal`. -/
theorem Ticking.decodeInternal {frames : List Frame} {d : DecoderVideo κ} (hC : C.Bounded)
    (h : Ticking frames d) (data : Option DataPacket) :
    Ticking (frames ++ queuedBy C data d) (decodeInternal C data d).2 := by
  unfold DecoderVideo.decodeInternal queuedBy
  dsimp only
  have hprepared : Ticking frames
      (({ d with canReopenDecoder := false } : DecoderVideo κ).preparePacket data).2 := by
    unfold preparePacket
    split
    · exact h.congr rfl rfl rfl rfl
    · dsimp only
      split
      · exact h.congr rfl rfl rfl rfl
      · exact h.congr rfl rfl rfl rfl
  generalize ({ d with canReopenDecoder := false } : DecoderVideo κ).preparePacket data =
    prepared at hprepared
  obtain ⟨packet, d₀⟩ := prepared
  dsimp only at hprepared ⊢
  have hbounded := hC packet d₀.codec
  rcases hsend : C.send packet d₀.codec with ⟨result, received, codec⟩
  rw [hsend] at hbounded
  have hsent : Ticking frames { d₀ with codec := codec } := hprepared.congr rfl rfl rfl rfl
  have hreceived : Ticking (frames ++ stamped C received.frames { d₀ with codec := codec })
      (({ d₀ with codec := codec } : DecoderVideo κ).enqueueAll C received.frames) :=
    hsent.enqueueAll fun f hf => hbounded f (.inl hf)
  have hbroken : ∀ f, received.broken = some f →
      Ticking (frames ++ stamped C received.frames { d₀ with codec := codec })
        ((({ d₀ with codec := codec } : DecoderVideo κ).enqueueAll C received.frames).advanceClock
          C f) := by
    intro f hf
    exact hreceived.advanceClock (hbounded f (.inr (by rw [hf]; rfl)))
  cases result with
  | again =>
    rw [List.append_nil]
    exact hprepared.congr rfl rfl rfl rfl
  | failed =>
    rw [List.append_nil]
    exact hprepared.congr rfl rfl rfl rfl
  | ok =>
    dsimp only
    split
    · rename_i f hpicture
      exact hbroken f hpicture
    · exact hreceived.getNextQueuedFrame
  | eof =>
    dsimp only
    split
    · rename_i f hpicture
      exact hbroken f hpicture
    · exact hreceived.getNextQueuedFrame

/-- From a flush with a known time until the next one, the frames that are queued have known
timestamps that do not decrease. -/
theorem queued_timestamps_ordered (hC : C.Bounded) {time : TimestampFF}
    (htime : avNoPtsValue < time) {d : DecoderVideo κ}
    {tr : List (Queueing κ × Option DataPacket)} {s : Queueing κ}
    (h : (queueing C time d).Run tr s) :
    (∀ f ∈ s.queued, f.ts ≠ avNoPtsValue) ∧ s.queued.Pairwise fun f g => f.ts ≤ g.ts := by
  have hinit : Ticking ([] : List Frame) (d.flush C time) :=
    ⟨⟨htime, .inl ⟨rfl, rfl⟩⟩, fun _ => rfl, nofun, .nil, nofun⟩
  have hticking : Ticking s.queued s.decoder := by
    refine h.invariant (I := fun s => Ticking s.queued s.decoder) hinit ?_
    intro s data s' hs hstep
    cases hstep
    exact hs.decodeInternal hC data
  exact ⟨hticking.known, hticking.ordered⟩

/-! ### Pictures without timestamps -/

/-- A codec that returns each packet's picture at once, with a duration of 40 ms. -/
def promptCodec : CodecOps Unit where
  send data _ :=
    (.ok, ⟨data.toList.map fun p => ⟨max p.pts avNoPtsValue, p.pts, 40000⟩, none⟩, ())
  flushBuffers := id
  fps := (25, 1)

theorem bounded_promptCodec : promptCodec.Bounded := by
  rintro packet codec f (hf | hf)
  · obtain ⟨p, -, rfl⟩ := List.mem_map.mp hf
    exact Int.le_max_right _ _
  · cases hf

/-- A picture at 0 and two without timestamps, after a flush to 0. -/
def untimedPackets : List (Option DataPacket) :=
  [some ⟨0, 0, 0, 40000, true, 1⟩, some ⟨0, avNoPtsValue, avNoPtsValue, 40000, false, 1⟩,
    some ⟨0, avNoPtsValue, avNoPtsValue, 40000, false, 1⟩]

/-- A picture at 0 and two without times, which get those of the clock. -/
theorem queued_timestamps_ordered_untimed :
    ∃ s, (queueing promptCodec 0 (create ())).Run
        ((queueing promptCodec 0 (create ())).trace (queueing promptCodec 0 (create ())).init
          untimedPackets) s ∧
      s.queued.map Frame.ts = [0, 40000, 80000] ∧
      (∀ f ∈ s.queued, f.ts ≠ avNoPtsValue) ∧ s.queued.Pairwise fun f g => f.ts ≤ g.ts := by
  obtain ⟨s, -, hrun, hs⟩ := Machine.exists_run_of_exec (queueing promptCodec 0 (create ()))
    untimedPackets (fun s => s.queued.map Frame.ts = [0, 40000, 80000]) (by decide +kernel)
  exact ⟨s, hrun, by simpa using hs,
    queued_timestamps_ordered bounded_promptCodec (by decide) hrun⟩

end DecoderVideo

end Seekira.Model
