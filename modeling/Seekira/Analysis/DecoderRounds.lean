import Seekira.Model.DecoderVideo

/-!
# What a call of `decode` does

`decode` returns frames one late: the frame that comes out is the one remembered
by the call before, and the frame received now takes its place.  The equations
below state `decode` by what `decode_internal` delivers, once for a packet and
once for the drain, and the lemmas after them what happens to the remembered frame.
-/

set_option autoImplicit false

namespace Seekira.Model.DecoderVideo

open Library

variable {κ : Type} {C : CodecOps κ}

/-- `d.prevFrame` is later than `ts`. -/
def LooksPast (ts : TimestampFF) (d : DecoderVideo κ) : Prop := ∃ f ∈ d.prevFrame, ts < f.ts

/-! ## The remembered frame is the business of `decode` alone -/

/-- A picture moves the clock and the durations alone. -/
theorem advanceClock_frame (f : AVFrame) (d : DecoderVideo κ) :
    ∃ clock duration, d.advanceClock C f =
      { d with
        clock := clock
        prevDurationClock := duration
        prevDurationFramePkt := packetDuration C f
        firstFrameAfterSeek := false } := by
  unfold advanceClock
  dsimp only
  split
  · exact ⟨_, _, rfl⟩
  · split
    · exact ⟨_, _, rfl⟩
    · exact ⟨_, _, rfl⟩

@[simp] theorem prevFrame_advanceClock (f : AVFrame) (d : DecoderVideo κ) :
    (d.advanceClock C f).prevFrame = d.prevFrame := by
  obtain ⟨clock, duration, h⟩ := advanceClock_frame (C := C) f d
  rw [h]

@[simp] theorem queue_advanceClock (f : AVFrame) (d : DecoderVideo κ) :
    (d.advanceClock C f).queue = d.queue := by
  obtain ⟨clock, duration, h⟩ := advanceClock_frame (C := C) f d
  rw [h]

@[simp] theorem codec_advanceClock (f : AVFrame) (d : DecoderVideo κ) :
    (d.advanceClock C f).codec = d.codec := by
  obtain ⟨clock, duration, h⟩ := advanceClock_frame (C := C) f d
  rw [h]

@[simp] theorem prevFrame_enqueue (f : AVFrame) (d : DecoderVideo κ) :
    (d.enqueue C f).prevFrame = d.prevFrame := by
  show (d.advanceClock C f).prevFrame = d.prevFrame
  rw [prevFrame_advanceClock]

@[simp] theorem prevFrame_enqueueAll (frames : List AVFrame) (d : DecoderVideo κ) :
    (d.enqueueAll C frames).prevFrame = d.prevFrame := by
  induction frames generalizing d with
  | nil => rfl
  | cons f frames ih =>
    show ((d.enqueue C f).enqueueAll C frames).prevFrame = d.prevFrame
    rw [ih, prevFrame_enqueue]

@[simp] theorem prevFrame_getNextQueuedFrame (d : DecoderVideo κ) :
    d.getNextQueuedFrame.2.prevFrame = d.prevFrame := by
  unfold getNextQueuedFrame
  split <;> rfl

theorem prevFrame_preparePacket (data : Option DataPacket) (d : DecoderVideo κ) :
    (d.preparePacket data).2.prevFrame = d.prevFrame := by
  unfold preparePacket
  cases data with
  | none => rfl
  | some p =>
    dsimp only
    split <;> rfl

theorem prevFrame_decodeInternal (data : Option DataPacket) (d : DecoderVideo κ) :
    (decodeInternal C data d).2.prevFrame = d.prevFrame := by
  have hprep := prevFrame_preparePacket data { d with canReopenDecoder := false }
  unfold decodeInternal
  dsimp only at hprep ⊢
  split
  · exact hprep
  · exact hprep
  · split <;> simpa using hprep

/-! ## Equations of `decode` -/

/-- What one round does with the frame that `decode_internal` delivered; the first component is
`none` when the loop goes on. -/
def roundResult (C : CodecOps κ) (data : Option DataPacket) (frame : Option Frame)
    (d : DecoderVideo κ) : Option (Option Frame) × DecoderVideo κ :=
  match frame, d.prevFrame with
  | some frame, none =>
    (if data.isSome then some none else none, { d with prevFrame := some frame })
  | some frame, some prev =>
    if frame.ts ≤ prev.ts then (some none, d)
    else (some (some { prev with duration := frame.ts - prev.ts }),
      { d with prevFrame := some frame })
  | none, none => (some none, d)
  | none, some prev =>
    if data.isSome then (some none, d)
    else (some (some { prev with duration := avRescale avSecond C.fps.2 C.fps.1 }),
      { d with prevFrame := none })

theorem distance_le_zero_iff (frame prev : Frame) : frame.ts - prev.ts ≤ 0 ↔ frame.ts ≤ prev.ts := by
  constructor
  · intro h
    exact Int.le_of_sub_nonpos h
  · exact Int.sub_nonpos_of_le

/-- A round ends with what it makes of the frame that was decoded. -/
theorem decodeRound_ok {data : Option DataPacket} {d d' : DecoderVideo κ} {frame : Option Frame}
    (h : decodeInternal C data d = (.ok frame, d')) :
    decodeRound C data d = (.ok (roundResult C data frame d').1, (roundResult C data frame d').2) := by
  unfold decodeRound roundResult
  rw [Proc.bind_ok h]
  rcases frame with _ | frame <;> rcases hp : d'.prevFrame with _ | prev <;>
    simp only [Proc.get_bind_apply, hp, Proc.pure_apply, Proc.modify_bind_apply]
  · split <;> rfl
  · simp only [distance_le_zero_iff]
    split <;> rfl

theorem decodeRound_error {data : Option DataPacket} {d d' : DecoderVideo κ} {e : Fault}
    (h : decodeInternal C data d = (.error e, d')) : decodeRound C data d = (.error e, d') := by
  unfold decodeRound
  rw [Proc.bind_error h]

/-- A round that ends the loop is the whole call. -/
theorem decode_of_round {data : Option DataPacket} {d d' : DecoderVideo κ} {out : Option Frame}
    (h : decodeRound C data d = (.ok (some out), d')) : decode C data d = (.ok out, d') := by
  unfold decode
  rw [Proc.bind_ok h]
  rfl

/-- Otherwise a second round follows. -/
theorem decode_of_two_rounds {data : Option DataPacket} {d d₁ d' : DecoderVideo κ}
    {out : Option Frame} (h₁ : decodeRound C data d = (.ok none, d₁))
    (h₂ : decodeRound C data d₁ = (.ok (some out), d')) : decode C data d = (.ok out, d') := by
  unfold decode
  rw [Proc.bind_ok h₁]
  dsimp only
  rw [Proc.bind_ok h₂]
  rfl

theorem decode_of_error {data : Option DataPacket} {d d' : DecoderVideo κ} {e : Fault}
    (h : decodeRound C data d = (.error e, d')) : decode C data d = (.error e, d') := by
  unfold decode
  rw [Proc.bind_error h]

/-- `decode` throws what its second round throws. -/
theorem decode_of_second_error {data : Option DataPacket} {d d₁ d' : DecoderVideo κ} {e : Fault}
    (h₁ : decodeRound C data d = (.ok none, d₁)) (h₂ : decodeRound C data d₁ = (.error e, d')) :
    decode C data d = (.error e, d') := by
  unfold decode
  rw [Proc.bind_ok h₁]
  dsimp only
  rw [Proc.bind_error h₂]

/-- A call that returned did so in its first round or in its second. -/
theorem decode_inv {data : Option DataPacket} {d d' : DecoderVideo κ} {out : Option Frame}
    (h : decode C data d = (.ok out, d')) :
    decodeRound C data d = (.ok (some out), d') ∨
      ∃ d₁, decodeRound C data d = (.ok none, d₁) ∧ decodeRound C data d₁ = (.ok (some out), d') := by
  unfold decode at h
  obtain ⟨r₁, d₁, h₁, h⟩ := Proc.bind_inv h
  rcases r₁ with _ | out₁
  · obtain ⟨r₂, d₂, h₂, h⟩ := Proc.bind_inv h
    rcases r₂ with _ | out₂
    · cases h
    · cases h
      exact .inr ⟨d₁, h₁, h₂⟩
  · cases h
    exact .inl h₁

/-- What a round that returns has done. -/
theorem decodeRound_inv {data : Option DataPacket} {d d' : DecoderVideo κ}
    {out : Option (Option Frame)} (h : decodeRound C data d = (.ok out, d')) :
    ∃ frame d₁, decodeInternal C data d = (.ok frame, d₁) ∧ d₁.prevFrame = d.prevFrame ∧
      roundResult C data frame d₁ = (out, d') := by
  rcases hd : decodeInternal C data d with ⟨e | frame, d₁⟩
  · rw [decodeRound_error hd] at h
    cases h
  · rw [decodeRound_ok hd] at h
    have hprev := prevFrame_decodeInternal (C := C) data d
    rw [hd] at hprev
    refine ⟨frame, d₁, rfl, hprev, ?_⟩
    cases h
    rfl

/-! ## The remembered frame moves forward -/

/-- While packets come, or while nothing comes out, the remembered frame is kept or replaced by a
later one; a frame that comes out for a packet is earlier than the one remembered then. -/
theorem lookAhead_of_round {data : Option DataPacket} {d d' : DecoderVideo κ} {frame : Option Frame}
    {out : Option (Option Frame)} (h : roundResult C data frame d = (out, d'))
    (hout : data.isSome ∨ out = none ∨ out = some none) :
    (∀ ts, d.LooksPast ts → d'.LooksPast ts) ∧ ∀ b, out = some (some b) → d'.LooksPast b.ts := by
  unfold roundResult at h
  unfold LooksPast
  rcases frame with _ | frame <;> rcases hp : d.prevFrame with _ | prev <;> simp only [hp] at h
  · cases h
    exact ⟨by simp [hp], by simp⟩
  · split at h
    · cases h
      exact ⟨by simp [hp], by simp⟩
    · cases h
      simp_all
  · cases h
    refine ⟨by simp, ?_⟩
    intro b hb
    split at hb <;> cases hb
  · split at h
    · cases h
      exact ⟨by simp [hp], by simp⟩
    · rename_i hlt
      cases h
      refine ⟨fun ts hts => ?_, fun b hb => ?_⟩
      · obtain ⟨f, hf, hts⟩ := hts
        obtain rfl : prev = f := by simpa using hf
        exact ⟨frame, rfl, by lia⟩
      · cases hb
        exact ⟨frame, rfl, Int.not_le.mp hlt⟩

/-- After a packet, or without a frame, the decoder looks past every frame that it returned. -/
theorem lookAhead_of_decode {data : Option DataPacket} {d d' : DecoderVideo κ}
    {out : Option Frame} (h : decode C data d = (.ok out, d')) (hout : data.isSome ∨ out = none) :
    (∀ ts, d.LooksPast ts → d'.LooksPast ts) ∧ ∀ b, out = some b → d'.LooksPast b.ts := by
  have hround : ∀ {d d' : DecoderVideo κ} {o : Option (Option Frame)},
      decodeRound C data d = (.ok o, d') → (data.isSome ∨ o = none ∨ o = some none) →
      (∀ ts, d.LooksPast ts → d'.LooksPast ts) ∧ ∀ b, o = some (some b) → d'.LooksPast b.ts := by
    intro d d' o hr ho
    obtain ⟨frame, d₁, -, hprev, hres⟩ := decodeRound_inv hr
    obtain ⟨hpast, hemit⟩ := lookAhead_of_round hres ho
    refine ⟨fun ts hts => hpast ts ?_, hemit⟩
    rw [LooksPast, hprev]
    exact hts
  have hlast : data.isSome ∨ some out = none ∨ some out = some none := by
    rcases hout with h | h
    · exact .inl h
    · exact .inr (.inr (congrArg some h))
  rcases decode_inv h with h₁ | ⟨d₁, h₁, h₂⟩
  · obtain ⟨hpast, hemit⟩ := hround h₁ hlast
    exact ⟨hpast, fun b hb => hemit b (congrArg some hb)⟩
  · obtain ⟨hpast₁, -⟩ := hround h₁ (.inr (.inl rfl))
    obtain ⟨hpast₂, hemit⟩ := hround h₂ hlast
    exact ⟨fun ts hts => hpast₂ ts (hpast₁ ts hts), fun b hb => hemit b (congrArg some hb)⟩

end Seekira.Model.DecoderVideo
