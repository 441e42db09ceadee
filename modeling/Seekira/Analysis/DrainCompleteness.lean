import Seekira.Analysis.DecoderFeed
import Seekira.Analysis.NullPacket

/-!
# What a drain leaves behind

At the end of a stream `read_frame` calls `decode` with the null packet, and a null
result ends the stream.  The same result stands for a frame with a wrong duration,
which asks for one more packet, but after the last packet none comes: the frames
behind it stay in the queue.  A null result means that nothing is left exactly when
no frame is rejected and nothing waits behind a request that the codec failed.
-/

set_option autoImplicit false

namespace Seekira.Model

open Library

variable {κ : Type} {C : CodecOps κ}

namespace DecoderVideo

/-- A codec asked to drain has no picture. -/
def HoldsNone (C : CodecOps κ) (codec : κ) : Prop := (C.send none codec).2.1 = ⟨[], none⟩

/-- No frame is left: none waits in the queue, none is remembered and the codec holds none. -/
structure Exhausted (C : CodecOps κ) (d : DecoderVideo κ) : Prop where
  queue : d.queue = []
  prevFrame : d.prevFrame = none
  codec : HoldsNone C d.codec

/-! ## One exchange of a drain -/

/-- The codec accepts the request to drain, and every picture it returns can be used. -/
def Answers (C : CodecOps κ) (d : DecoderVideo κ) : Prop :=
  ((C.send none d.codec).1 = .ok ∨ (C.send none d.codec).1 = .eof) ∧
    (C.send none d.codec).2.1.broken = none

/-- The decoder when the pictures of the exchange are queued. -/
def answered (C : CodecOps κ) (d : DecoderVideo κ) : DecoderVideo κ :=
  { d with canReopenDecoder := false, codec := (C.send none d.codec).2.2 }.enqueueAll C
    (C.send none d.codec).2.1.frames

/-- The frames that wait after the exchange; a request that fails brings none. -/
def waiting (C : CodecOps κ) (d : DecoderVideo κ) : List Frame :=
  if (C.send none d.codec).1 = .failed then d.queue else (d.answered C).queue

/-- The exchange delivers a frame that is not later than `prev`. -/
def Rejects (C : CodecOps κ) (prev : Frame) (d : DecoderVideo κ) : Prop :=
  d.Answers C ∧ ∃ f ∈ (d.waiting C).head?, f.ts ≤ prev.ts

theorem waiting_of_answers {d : DecoderVideo κ} (h : d.Answers C) :
    d.waiting C = (d.answered C).queue := by
  unfold waiting
  rcases h.1 with hres | hres <;> simp [hres]

/-- When the codec answers the drain, the first frame of the queue is returned. -/
theorem decodeInternal_of_answers {d : DecoderVideo κ} (h : d.Answers C) :
    decodeInternal C none d =
      (.ok (d.answered C).queue.head?, (d.answered C).getNextQueuedFrame.2) := by
  obtain ⟨hres, hbroken⟩ := h
  rw [← fst_getNextQueuedFrame]
  unfold decodeInternal preparePacket answered
  rcases hsend : C.send none d.codec with ⟨res, received, k⟩
  rw [hsend] at hres hbroken
  dsimp only at hres hbroken ⊢
  rcases hres with rfl | rfl <;> simp [hsend, hbroken]

/-- A request that is not answered delivers nothing, and takes no frame from the queue. -/
theorem decodeInternal_of_not_answers {d : DecoderVideo κ} (h : ¬d.Answers C)
    (hagain : (C.send none d.codec).1 ≠ .again) :
    ∃ d₁, decodeInternal C none d = (.ok none, d₁) ∧ d₁.queue = d.waiting C ∧
      d₁.codec = (C.send none d.codec).2.2 := by
  unfold Answers at h
  unfold decodeInternal preparePacket waiting answered
  rcases hsend : C.send none d.codec with ⟨res, received, k⟩
  rw [hsend] at h hagain
  rcases hbroken : received.broken with _ | f <;> cases res <;>
    simp_all [enqueueAll_codec]

theorem prevFrame_answered (d : DecoderVideo κ) : (d.answered C).prevFrame = d.prevFrame := by
  unfold answered
  rw [prevFrame_enqueueAll]

theorem codec_answered (d : DecoderVideo κ) : (d.answered C).codec = (C.send none d.codec).2.2 := by
  unfold answered
  rw [(enqueueAll_codec _ _).1]

theorem getNextQueuedFrame_of_nil {d : DecoderVideo κ} (h : d.queue = []) :
    d.getNextQueuedFrame = (none, d) := by
  unfold getNextQueuedFrame
  rw [h]

/-- A codec that asks for a read first makes `decode_internal` throw. -/
theorem decodeInternal_of_again {d : DecoderVideo κ} (h : (C.send none d.codec).1 = .again) :
    ∃ e d₁, decodeInternal C none d = (.error e, d₁) := by
  unfold decodeInternal preparePacket
  rcases hsend : C.send none d.codec with ⟨res, received, k⟩
  rw [hsend] at h
  dsimp only at h
  subst h
  exact ⟨_, _, by simp only [hsend]; rfl⟩

theorem not_answers_of_again {d : DecoderVideo κ} (h : (C.send none d.codec).1 = .again) :
    ¬d.Answers C := by
  rintro ⟨hres, -⟩
  rw [h] at hres
  simp at hres

/-! ## A round with a frame remembered -/

/-- A round of the drain fails, returns a frame, or rejects the frame that the codec delivers and
keeps the one remembered. -/
theorem decodeRound_cases {d : DecoderVideo κ} {prev : Frame} (hprev : d.prevFrame = some prev) :
    (¬d.Rejects C prev ∧ ∃ e d', decodeRound C none d = (.error e, d')) ∨
      (¬d.Rejects C prev ∧ ∃ f d', decodeRound C none d = (.ok (some (some f)), d')) ∨
      (d.Rejects C prev ∧
        ∃ d', decodeRound C none d = (.ok (some none), d') ∧ d'.prevFrame = some prev) := by
  by_cases hans : d.Answers C
  · have hround := decodeRound_ok (decodeInternal_of_answers hans)
    have hkept : (d.answered C).getNextQueuedFrame.2.prevFrame = some prev := by
      rw [prevFrame_getNextQueuedFrame, prevFrame_answered, hprev]
    unfold roundResult at hround
    rw [hkept] at hround
    rcases hhead : (d.answered C).queue.head? with _ | f <;> rw [hhead] at hround <;>
      dsimp only at hround
    · refine .inr (.inl ⟨?_, _, _, hround⟩)
      rintro ⟨-, f, hf, -⟩
      rw [waiting_of_answers hans, hhead] at hf
      cases hf
    · by_cases hle : f.ts ≤ prev.ts
      · rw [if_pos hle] at hround
        refine .inr (.inr ⟨⟨hans, f, ?_, hle⟩, _, hround, hkept⟩)
        rw [waiting_of_answers hans, hhead]
        rfl
      · rw [if_neg hle] at hround
        refine .inr (.inl ⟨?_, _, _, hround⟩)
        rintro ⟨-, f', hf', hle'⟩
        rw [waiting_of_answers hans, hhead] at hf'
        cases hf'
        exact hle hle'
  · have hnot : ¬d.Rejects C prev := fun h => hans h.1
    by_cases hagain : (C.send none d.codec).1 = .again
    · obtain ⟨e, d₁, hint⟩ := decodeInternal_of_again hagain
      exact .inl ⟨hnot, e, d₁, decodeRound_error hint⟩
    · obtain ⟨d₁, hint, -, -⟩ := decodeInternal_of_not_answers hans hagain
      have hkept := prevFrame_decodeInternal (C := C) none d
      rw [hint, hprev] at hkept
      have hround := decodeRound_ok hint
      unfold roundResult at hround
      rw [hkept] at hround
      exact .inr (.inl ⟨hnot, _, _, hround⟩)

/-! ## The drain -/

/-- The decoder after a round that took its first frame. -/
def remembering (C : CodecOps κ) (first : Frame) (d : DecoderVideo κ) : DecoderVideo κ :=
  { (d.answered C).getNextQueuedFrame.2 with prevFrame := some first }

/-- What keeps a drain that returns nothing from leaving frames behind. -/
structure LosesNothing (C : CodecOps κ) (d : DecoderVideo κ) : Prop where
  /-- the remembered frame is not followed by an earlier one -/
  remembered : ∀ prev ∈ d.prevFrame, ¬d.Rejects C prev
  /-- with none remembered, this holds of the first frame that the codec delivers -/
  delivered : d.prevFrame = none → d.Answers C →
    ∀ first ∈ (d.waiting C).head?, ¬(d.remembering C first).Rejects C first
  /-- when no frame comes out at all, none is there -/
  silent : d.prevFrame = none → (C.send none d.codec).1 ≠ .again →
    (d.Answers C → d.waiting C = []) → d.waiting C = [] ∧ HoldsNone C (C.send none d.codec).2.2

/-- A call that returned nothing left what it left. -/
theorem exhausted_iff_of_decode {d d₁ : DecoderVideo κ} (h : decode C none d = (.ok none, d₁)) :
    (∀ d', decode C none d = (.ok none, d') → d'.Exhausted C) ↔ d₁.Exhausted C := by
  rw [h]
  constructor
  · intro hall
    exact hall d₁ rfl
  · rintro hex d' ⟨⟩
    exact hex

theorem vacuous_of_decode {d : DecoderVideo κ} (h : ∀ d', decode C none d ≠ (.ok none, d')) :
    ∀ d', decode C none d = (.ok none, d') → d'.Exhausted C :=
  fun d' hd => absurd hd (h d')

/-- A round with a frame remembered that decides the call. -/
theorem exhausted_iff_of_round {d d₁ : DecoderVideo κ} {prev : Frame}
    (hprev : d₁.prevFrame = some prev)
    (herror : ∀ e d', decodeRound C none d₁ = (.error e, d') → decode C none d = (.error e, d'))
    (hreturn : ∀ out d', decodeRound C none d₁ = (.ok (some out), d') →
      decode C none d = (.ok out, d')) :
    (∀ d', decode C none d = (.ok none, d') → d'.Exhausted C) ↔ ¬d₁.Rejects C prev := by
  rcases decodeRound_cases (C := C) hprev with ⟨hnot, e, d₂, hround⟩ | ⟨hnot, f, d₂, hround⟩ |
    ⟨hrej, d₂, hround, hkept⟩
  · refine iff_of_true (vacuous_of_decode fun d' => ?_) hnot
    simp [herror e d₂ hround]
  · refine iff_of_true (vacuous_of_decode fun d' => ?_) hnot
    simp [hreturn (some f) d₂ hround]
  · -- the frame remembered is still there
    rw [exhausted_iff_of_decode (hreturn none d₂ hround)]
    refine iff_of_false (fun hex => ?_) fun hnot => hnot hrej
    rw [hex.prevFrame] at hkept
    cases hkept

/-- With a frame remembered, only a rejected frame ends the drain without a result. -/
theorem exhausted_iff_of_remembered {d : DecoderVideo κ} {prev : Frame}
    (hprev : d.prevFrame = some prev) :
    (∀ d', decode C none d = (.ok none, d') → d'.Exhausted C) ↔ d.LosesNothing C := by
  rw [exhausted_iff_of_round hprev (fun _ _ => decode_of_error) fun _ _ => decode_of_round]
  constructor
  · intro h
    refine ⟨?_, ?_, ?_⟩
    · intro f hf
      rw [hprev] at hf
      cases hf
      exact h
    · simp [hprev]
    · simp [hprev]
  · intro h
    exact h.remembered prev hprev

/-- With none remembered, the first frame that the codec delivers takes the place, and the second
round decides. -/
theorem exhausted_iff_of_delivered {d : DecoderVideo κ} {first : Frame} {rest : List Frame}
    (hprev : d.prevFrame = none) (hans : d.Answers C) (hqueue : d.waiting C = first :: rest) :
    (∀ d', decode C none d = (.ok none, d') → d'.Exhausted C) ↔ d.LosesNothing C := by
  have hround : decodeRound C none d = (.ok none, d.remembering C first) := by
    have hkept : (d.answered C).getNextQueuedFrame.2.prevFrame = none := by
      rw [prevFrame_getNextQueuedFrame, prevFrame_answered, hprev]
    have hround := decodeRound_ok (decodeInternal_of_answers hans)
    rw [← waiting_of_answers hans, hqueue] at hround
    unfold roundResult at hround
    rw [hkept] at hround
    exact hround
  have hremembers : (d.remembering C first).prevFrame = some first := rfl
  rw [exhausted_iff_of_round hremembers (fun _ _ => decode_of_second_error hround)
    fun _ _ => decode_of_two_rounds hround]
  constructor
  · intro h
    refine ⟨?_, ?_, ?_⟩
    · simp [hprev]
    · intro _ _ f hf
      rw [hqueue] at hf
      cases hf
      exact h
    · intro _ _ hnone
      have hnil := hnone hans
      rw [hqueue] at hnil
      cases hnil
  · intro h
    exact h.delivered hprev hans first (by simp [hqueue])

/-- With none remembered and none delivered, the call returns nothing. -/
theorem exhausted_iff_of_silent {d d₁ : DecoderVideo κ} (hprev : d.prevFrame = none)
    (hagain : (C.send none d.codec).1 ≠ .again) (hnone : d.Answers C → d.waiting C = [])
    (hint : decodeInternal C none d = (.ok none, d₁)) (hqueue : d₁.queue = d.waiting C)
    (hcodec : d₁.codec = (C.send none d.codec).2.2) :
    (∀ d', decode C none d = (.ok none, d') → d'.Exhausted C) ↔ d.LosesNothing C := by
  have hkept := prevFrame_decodeInternal (C := C) none d
  rw [hint, hprev] at hkept
  dsimp only at hkept
  have hround := decodeRound_ok hint
  unfold roundResult at hround
  rw [hkept] at hround
  rw [exhausted_iff_of_decode (decode_of_round hround)]
  constructor
  · rintro ⟨hq, -, hk⟩
    rw [hqueue] at hq
    rw [hcodec] at hk
    refine ⟨?_, ?_, fun _ _ _ => ⟨hq, hk⟩⟩
    · simp [hprev]
    · simp [hq]
  · intro h
    obtain ⟨hq, hk⟩ := h.silent hprev hagain hnone
    exact ⟨hqueue.trans hq, hkept, hcodec ▸ hk⟩

/-- A drain that returns nothing leaves nothing exactly when it loses nothing. -/
theorem exhausted_iff (d : DecoderVideo κ) :
    (∀ d', decode C none d = (.ok none, d') → d'.Exhausted C) ↔ d.LosesNothing C := by
  rcases hprev : d.prevFrame with _ | prev
  · by_cases hagain : (C.send none d.codec).1 = .again
    · -- the call throws
      obtain ⟨e, d₁, hint⟩ := decodeInternal_of_again hagain
      have hans := not_answers_of_again hagain
      refine iff_of_true (vacuous_of_decode fun d' => ?_) ⟨?_, ?_, ?_⟩
      · simp [decode_of_error (decodeRound_error hint)]
      · simp [hprev]
      · exact fun _ h => absurd h hans
      · exact fun _ h => absurd hagain h
    · by_cases hans : d.Answers C
      · rcases hqueue : d.waiting C with _ | ⟨first, rest⟩
        · have hint := decodeInternal_of_answers hans
          rw [← waiting_of_answers hans, hqueue] at hint
          have hnil := hqueue
          rw [waiting_of_answers hans] at hnil
          rw [getNextQueuedFrame_of_nil hnil] at hint
          exact exhausted_iff_of_silent hprev hagain (fun _ => hqueue) hint
            (waiting_of_answers hans).symm (codec_answered d)
        · exact exhausted_iff_of_delivered hprev hans hqueue
      · obtain ⟨d₁, hint, hq, hk⟩ := decodeInternal_of_not_answers hans hagain
        exact exhausted_iff_of_silent hprev hagain (fun h => absurd h hans) hint hq hk
  · exact exhausted_iff_of_remembered hprev

end DecoderVideo

namespace StreamReader

variable {δ : Type} {D : IDemuxer δ}

/-- A feeding pass that ends the call read a null packet and drained the decoder. -/
theorem feed_ends_inv {s : StreamId} {r r' : StreamReader δ κ}
    (h : feed D C s r = (.ok (some none), r')) :
    ∃ r₁, read D s r = (.ok none, r₁) ∧
      DecoderVideo.decode C none (r₁.streams s).decoder = (.ok none, (r'.streams s).decoder) := by
  obtain ⟨pkt, r₁, frame, d, hread, hd, h⟩ := feed_parts h
  unfold passResult at h
  rcases frame with _ | f <;> rcases pkt with _ | p <;>
    simp [modifyStream, Proc.bind_apply] at h
  subst h
  exact ⟨r₁, hread, by simpa using hd⟩

/-- `read` returns null when the packet of the last seek is gone and the demuxer returns none. -/
theorem receivesNull_of_read {s : StreamId} {r r₁ : StreamReader δ κ} (hr : r.Readable D s)
    (hb : (r.streams s).bufferedData = none) (h : read D s r = (.ok none, r₁)) :
    r.ReceivesNull D s := by
  obtain ⟨hterm, hreader, -⟩ := id hr
  rcases hp : (r.streams s).bufferedPacket with _ | p
  · rw [read_of_demuxer hreader hterm hp] at h
    exact ⟨hr, hb, hp, congrArg Prod.fst h⟩
  · rw [read_of_bufferedPacket hreader hterm hp] at h
    cases h

/-- A last pass that returned no frame did not use its stream, or got the null packet. -/
theorem pass_ends_inv {s : StreamId} {r r' : StreamReader δ κ}
    (h : readFramePass D C s r = (.ok (some none), r')) :
    (¬r.Readable D s ∧ r' = r) ∨
      (r.ReceivesNull D s ∧
        DecoderVideo.decode C none (r.streams s).decoder = (.ok none, (r'.streams s).decoder)) := by
  by_cases hr : r.Readable D s
  · rcases hb : (r.streams s).bufferedData with _ | b
    · rw [readFramePass_of_empty hr hb] at h
      obtain ⟨r₁, hread, hdecode⟩ := feed_ends_inv h
      rw [(frames_read hread).1] at hdecode
      exact .inr ⟨receivesNull_of_read hr hb hread, hdecode⟩
    · rw [readFramePass_of_buffered hr hb] at h
      cases h
  · obtain ⟨hsame, -⟩ := readFramePass_of_not_readable (C := C) hr
    rw [h] at hsame
    exact .inl ⟨hr, hsame⟩

/-- `decode` with the null packet returns nothing only when no frame is left exactly when the drain
loses nothing; and a call of `read_frame` that ends the stream leaves no frame behind exactly
when the drain of its last pass loses nothing. -/
theorem drain_complete_iff (C : CodecOps κ) (D : IDemuxer δ) (s : StreamId) :
    (∀ d : DecoderVideo κ,
      (∀ d', DecoderVideo.decode C none d = (.ok none, d') → d'.Exhausted C) ↔
        d.LosesNothing C) ∧
      ∀ r r' : StreamReader δ κ, readFrame D C s r = (.ok none, r') →
        ∃ r₁, PassesTo D C s r r₁ ∧
          ((¬r₁.Readable D s ∧ r' = r₁) ∨
            (r₁.ReceivesNull D s ∧
              ((r'.streams s).decoder.Exhausted C ↔
                (r₁.streams s).decoder.LosesNothing C))) := by
  refine ⟨DecoderVideo.exhausted_iff, ?_⟩
  intro r r' h
  obtain ⟨r₁, hpasses, hlast⟩ := readFrame_passes h
  refine ⟨r₁, hpasses, ?_⟩
  rcases pass_ends_inv hlast with hleft | ⟨hnull, hdecode⟩
  · exact .inl hleft
  · refine .inr ⟨hnull, ?_⟩
    rw [← DecoderVideo.exhausted_iff, DecoderVideo.exhausted_iff_of_decode hdecode]

/-! ### A timestamp that repeats -/

/-- Four packets, two of them with the same time. -/
def repeatFile : List DataPacket :=
  [⟨0, 0, 0, 40, true, 100⟩, ⟨0, 40, 40, 40, false, 100⟩, ⟨0, 40, 40, 40, false, 100⟩,
    ⟨0, 80, 80, 40, false, 100⟩]

def repeatDemuxer : IDemuxer (DemuxerQueue Unit) :=
  DemuxerQueue.toIDemuxer (fileParser repeatFile 120)

/-- The streams after the first frame was read. -/
def repeatStreams : StreamReader (DemuxerQueue Unit) (List DataPacket) :=
  (readFrame repeatDemuxer (fifoCodec 2 (25, 1)) 0
    (StreamReader.opened (fileParser repeatFile 120) repeatFile () 0 [])).2

/-- A file in which a time comes twice is read to its end. -/
theorem drain_complete_iff_repeat :
    ∃ r' r₁, readFrame repeatDemuxer (fifoCodec 2 (25, 1)) 0 repeatStreams = (.ok none, r') ∧
      PassesTo repeatDemuxer (fifoCodec 2 (25, 1)) 0 repeatStreams r₁ ∧
        ((¬r₁.Readable repeatDemuxer 0 ∧ r' = r₁) ∨
          (r₁.ReceivesNull repeatDemuxer 0 ∧
            ((r'.streams 0).decoder.Exhausted (fifoCodec 2 (25, 1)) ↔
              (r₁.streams 0).decoder.LosesNothing (fifoCodec 2 (25, 1))))) := by
  have hnone : (readFrame repeatDemuxer (fifoCodec 2 (25, 1)) 0 repeatStreams).1 = .ok none := by
    decide +kernel
  have hread : readFrame repeatDemuxer (fifoCodec 2 (25, 1)) 0 repeatStreams =
      (.ok none, (readFrame repeatDemuxer (fifoCodec 2 (25, 1)) 0 repeatStreams).2) := by
    rw [← hnone]
  obtain ⟨r₁, hr₁⟩ := (drain_complete_iff (fifoCodec 2 (25, 1)) repeatDemuxer 0).2 _ _ hread
  exact ⟨_, r₁, hread, hr₁⟩

end StreamReader

namespace DecoderVideo

/-- States of a decoder between its calls. -/
inductive Reachable (C : CodecOps κ) : DecoderVideo κ → Prop where
  | create (codec : κ) : Reachable C (DecoderVideo.create codec)
  | flush {d : DecoderVideo κ} (time : TimestampFF) : Reachable C d → Reachable C (d.flush C time)
  | decode {d : DecoderVideo κ} (data : Option DataPacket) :
    Reachable C d → Reachable C (DecoderVideo.decode C data d).2

/-- The decoder after a call of `decode` for each packet. -/
def decodePackets (C : CodecOps κ) (packets : List DataPacket) (d : DecoderVideo κ) :
    DecoderVideo κ :=
  packets.foldl (fun d p => (DecoderVideo.decode C (some p) d).2) d

theorem Reachable.decodePackets {d : DecoderVideo κ} (h : Reachable C d)
    (packets : List DataPacket) : Reachable C (d.decodePackets C packets) := by
  induction packets generalizing d with
  | nil => exact h
  | cons p packets ih => exact ih (h.decode (some p))

/-- The codec holds back two pictures, and the first of them repeats the time of the frame
remembered. -/
theorem repeated_time_ends_drain :
    ¬∀ d d', Reachable (fifoCodec 2 (25, 1)) d →
      DecoderVideo.decode (fifoCodec 2 (25, 1)) none d = (.ok none, d') →
      d'.Exhausted (fifoCodec 2 (25, 1)) := by
  intro hall
  have hreach : Reachable (fifoCodec 2 (25, 1))
      ((create []).decodePackets (fifoCodec 2 (25, 1)) StreamReader.repeatFile) :=
    (Reachable.create []).decodePackets _
  have hleft := hall _ _ hreach (Prod.ext (by decide +kernel) rfl)
  exact absurd hleft.queue (by decide +kernel)

end DecoderVideo

end Seekira.Model
