import Seekira.Analysis.DecoderRounds
import Seekira.Analysis.StreamPasses
import Seekira.Model.FrameOrigins

/-!
# The traced decoder follows the decoder

Fed the packets that the stream feeds, the traced decoder holds the stream's decoder,
knows a packet for every frame that this one keeps, and lists the frame that the
stream holds ready last.  So a frame that a read returns is the one listed last, and
the stream's key flag is the flag of the packet that was fed when it came out.
-/

set_option autoImplicit false

namespace Seekira.Model

open Library

namespace TracedDecoder

variable {κ : Type} {C : CodecOps κ} {O : PictureOrigins C}

/-! ## The decoder inside -/

/-- Where a round leaves the loop or goes on, the decoder is the one of `decode`. -/
theorem decoder_round (data : Option DataPacket) (t : TracedDecoder κ) :
    (t.round O data).decoder = (DecoderVideo.decodeRound C data t.decoder).2 := by
  unfold round
  rcases hd : DecoderVideo.decodeInternal C data t.decoder with ⟨e | _ | frame, d⟩
  · rw [DecoderVideo.decodeRound_error hd]
  · rw [DecoderVideo.decodeRound_ok hd]
    unfold DecoderVideo.roundResult
    dsimp only
    rcases d.prevFrame with _ | prev <;> rcases data with _ | p <;> rfl
  · rw [DecoderVideo.decodeRound_ok hd]
    unfold DecoderVideo.roundResult
    dsimp only
    rcases d.prevFrame with _ | prev
    · rfl
    · dsimp only
      simp only [DecoderVideo.distance_le_zero_iff]
      split <;> rfl

/-- Without its trace, the decoder decodes. -/
theorem decoder_feed (data : Option DataPacket) (t : TracedDecoder κ) :
    (t.feed O data).decoder = (DecoderVideo.decode C data t.decoder).2 := by
  unfold feed
  rcases h₁ : DecoderVideo.decodeRound C data t.decoder with ⟨e | _ | out, d₁⟩
  · rw [DecoderVideo.decode_of_error h₁]
    simp only [decoder_round, h₁]
  · have hfirst : (t.round O data).decoder = d₁ := by rw [decoder_round, h₁]
    rcases h₂ : DecoderVideo.decodeRound C data d₁ with ⟨e | _ | out, d₂⟩
    · rw [DecoderVideo.decode_of_second_error h₁ h₂]
      simp only [decoder_round, h₁, h₂]
    · unfold DecoderVideo.decode
      rw [Proc.bind_ok h₁]
      dsimp only
      rw [Proc.bind_ok h₂]
      simp only [decoder_round, h₁, h₂]
      rfl
    · rw [DecoderVideo.decode_of_two_rounds h₁ h₂]
      simp only [decoder_round, h₁, h₂]
  · rw [DecoderVideo.decode_of_round h₁]
    simp only [decoder_round, h₁]

end TracedDecoder

/-! ## A packet for every frame -/

namespace DecoderVideo

variable {κ : Type} {C : CodecOps κ}

/-- Each picture is one frame of the queue. -/
theorem length_queue_enqueueAll (frames : List AVFrame) (d : DecoderVideo κ) :
    (d.enqueueAll C frames).queue.length = d.queue.length + frames.length := by
  unfold enqueueAll
  induction frames generalizing d with
  | nil => rfl
  | cons f fs ih =>
    rw [List.foldl_cons, ih, List.length_cons]
    unfold enqueue
    simp only [queue_advanceClock, List.length_append, List.length_singleton]
    omega

/-- Preparing a packet does not touch the queue. -/
theorem queue_preparePacket (data : Option DataPacket) (d : DecoderVideo κ) :
    (d.preparePacket data).2.queue = d.queue := by
  unfold preparePacket
  cases data with
  | none => rfl
  | some p =>
    dsimp only
    split <;> rfl

end DecoderVideo

namespace TracedDecoder

variable {κ : Type} {C : CodecOps κ} {O : PictureOrigins C}

/-- Every frame that the decoder keeps has a packet. -/
structure Sound (t : TracedDecoder κ) : Prop where
  queue : t.queue.length = t.decoder.queue.length
  prev : t.prev.isSome = t.decoder.prevFrame.isSome

/-- The trace of a fresh decoder is sound. -/
theorem sound_create {decoder : DecoderVideo κ} (hqueue : decoder.queue = [])
    (hprev : decoder.prevFrame = none) : (create decoder).Sound := by
  refine ⟨?_, ?_⟩
  · show 0 = decoder.queue.length
    rw [hqueue]
    rfl
  · show false = decoder.prevFrame.isSome
    rw [hprev]
    rfl

/-- The number of frames that `decode_internal` took off its queue. -/
def taken : Except Fault (Option Frame) → Nat
  | .ok (some _) => 1
  | _ => 0

/-- The queue before its first frame is taken. -/
theorem length_queue_eq (d : DecoderVideo κ) :
    d.queue.length = d.getNextQueuedFrame.2.queue.length + taken (.ok d.getNextQueuedFrame.1) := by
  unfold DecoderVideo.getNextQueuedFrame
  rcases hqueue : d.queue with _ | ⟨frame, rest⟩
  · rw [hqueue]
    rfl
  · rfl

/-- The packets received are those of the queue before a frame was taken off it. -/
theorem length_received {t : TracedDecoder κ} (h : t.Sound) (data : Option DataPacket) :
    (t.received O data).length =
      (DecoderVideo.decodeInternal C data t.decoder).2.queue.length +
        taken (DecoderVideo.decodeInternal C data t.decoder).1 := by
  have hqueue := DecoderVideo.queue_preparePacket data { t.decoder with canReopenDecoder := false }
  have hlen := h.queue
  unfold received DecoderVideo.decodeInternal
  dsimp only at hqueue ⊢
  generalize DecoderVideo.preparePacket data { t.decoder with canReopenDecoder := false } = prepared
    at hqueue ⊢
  obtain ⟨packet, d⟩ := prepared
  rw [← hqueue] at hlen
  have horigins := O.length_eq packet d.codec
  have hfull : ∀ (frames : List AVFrame) (codec : κ), (O.of packet d.codec).length = frames.length →
      (t.queue ++ O.of packet d.codec).length =
        (({ d with codec := codec } : DecoderVideo κ).enqueueAll C frames).queue.length := by
    intro frames codec hframes
    rw [DecoderVideo.length_queue_enqueueAll, List.length_append, hlen, hframes]
  rcases hsend : C.send packet d.codec with ⟨_ | _ | _ | _, ⟨frames, _ | broken⟩, codec⟩ <;>
    rw [hsend] at horigins <;> dsimp only at horigins ⊢
  case again.none | again.some | failed.none | failed.some => exact hlen
  case ok.none | eof.none => exact (hfull frames codec horigins).trans (length_queue_eq _)
  case ok.some | eof.some =>
    rw [DecoderVideo.queue_advanceClock]
    exact hfull frames codec horigins

/-- A round keeps the trace sound. -/
theorem Sound.round {t : TracedDecoder κ} (h : t.Sound) (data : Option DataPacket) :
    (t.round O data).Sound := by
  have hlen := length_received (O := O) h data
  have hprev := DecoderVideo.prevFrame_decodeInternal (C := C) data t.decoder
  have hkept := h.prev
  unfold TracedDecoder.round
  dsimp only
  rcases hd : DecoderVideo.decodeInternal C data t.decoder with ⟨e | _ | frame, d⟩ <;>
    rw [hd] at hlen hprev <;> dsimp only at hlen hprev ⊢ <;> rw [← hprev] at hkept
  · exact ⟨hlen, hkept⟩
  · rcases d.prevFrame with _ | prev <;> rcases data with _ | p
    · exact ⟨hlen, hkept⟩
    · exact ⟨hlen, hkept⟩
    · exact ⟨hlen, rfl⟩
    · exact ⟨hlen, hkept⟩
  · -- the packet of the frame taken leads the queue
    obtain ⟨origin, rest, hqueue⟩ : ∃ origin rest, t.received O data = origin :: rest :=
      List.exists_cons_of_length_eq_add_one hlen
    rw [hqueue] at hlen ⊢
    have hrest : rest.length = d.queue.length := Nat.succ.inj hlen
    rcases d.prevFrame with _ | prev
    · exact ⟨hrest, rfl⟩
    · dsimp only
      split
      · exact ⟨hrest, hkept⟩
      · exact ⟨hrest, rfl⟩

/-- A packet keeps the trace sound. -/
theorem Sound.feed {t : TracedDecoder κ} (h : t.Sound) (data : Option DataPacket) :
    (t.feed O data).Sound := by
  unfold TracedDecoder.feed
  split
  · exact (h.round data).round data
  · exact h.round data

/-! ## The frames returned -/

/-- A frame that was returned for a packet is listed with it; nothing else is. -/
structure Records (data : Option DataPacket) (frame : Option Frame)
    (before after : List DecodedFrame) : Prop where
  listed : ∀ p f, data = some p → frame = some f → ∃ origin, after = before ++ [⟨f, origin, p⟩]
  kept : data = none ∨ frame = none → after = before

theorem records_refl (data : Option DataPacket) (l : List DecodedFrame) : Records data none l l := by
  refine ⟨?_, fun _ => rfl⟩
  intro p f _ hframe
  cases hframe

theorem records_null (frame : Option Frame) (l : List DecodedFrame) : Records none frame l l := by
  refine ⟨?_, fun _ => rfl⟩
  intro p f hdata
  cases hdata

/-- The frame that is emitted is recorded with its origin. -/
theorem Sound.records_emit {t : TracedDecoder κ} (h : t.Sound) {prev : Frame}
    (hprev : t.decoder.prevFrame = some prev) (data : Option DataPacket) (frame : Frame) :
    Records data (some frame) t.decoded (t.emit data frame) := by
  obtain ⟨origin, horigin⟩ : ∃ origin, t.prev = some origin := by
    rw [← Option.isSome_iff_exists, h.prev, hprev]
    rfl
  unfold emit
  rw [horigin]
  rcases data with _ | p
  · exact records_null _ _
  · refine ⟨fun p' f hp hf => ⟨origin, ?_⟩, fun hnone => ?_⟩
    · cases hp
      cases hf
      rfl
    · rcases hnone with hnone | hnone <;> cases hnone

/-- A round records the frame that it returns. -/
theorem Sound.round_records {t : TracedDecoder κ} (h : t.Sound) {data : Option DataPacket}
    {out : Option (Option Frame)} {d : DecoderVideo κ}
    (hround : DecoderVideo.decodeRound C data t.decoder = (.ok out, d)) :
    Records data out.join t.decoded (t.round O data).decoded := by
  obtain ⟨frame, d₁, hd, hprev, hresult⟩ := DecoderVideo.decodeRound_inv hround
  unfold TracedDecoder.round
  rw [hd]
  unfold DecoderVideo.roundResult at hresult
  rcases frame with _ | frame <;> dsimp only at hresult ⊢ <;>
    rcases hkept : d₁.prevFrame with _ | prev <;> rw [hkept] at hresult hprev <;>
    dsimp only at hresult ⊢
  · cases hresult
    rcases data with _ | p <;> exact records_refl _ _
  · rcases data with _ | p <;> cases hresult
    · exact records_null _ _
    · exact records_refl _ _
  · rcases data with _ | p <;> cases hresult <;> exact records_refl _ _
  · simp only [DecoderVideo.distance_le_zero_iff]
    split at hresult <;> cases hresult
    · rename_i hle
      rw [if_pos hle]
      exact records_refl _ _
    · rename_i hlt
      rw [if_neg hlt]
      exact h.records_emit hprev.symm data _

/-- What `decode` returns for a packet is listed. -/
theorem Sound.feed_records {t : TracedDecoder κ} (h : t.Sound) {data : Option DataPacket}
    {frame : Option Frame} {d : DecoderVideo κ}
    (hdecode : DecoderVideo.decode C data t.decoder = (.ok frame, d)) :
    Records data frame t.decoded (t.feed O data).decoded := by
  unfold TracedDecoder.feed
  rcases DecoderVideo.decode_inv hdecode with hround | ⟨d₁, h₁, h₂⟩
  · rw [hround]
    exact h.round_records hround
  · rw [h₁]
    have hdecoder : (t.round O data).decoder = d₁ := by rw [decoder_round, h₁]
    have hkept := (h.round_records (O := O) h₁).kept (.inr rfl)
    rw [← hdecoder] at h₂
    have hsecond := (h.round data).round_records (O := O) h₂
    rw [hkept] at hsecond
    exact hsecond

/-- Emitting a frame only adds to the record. -/
theorem prefix_emit (data : Option DataPacket) (frame : Frame) (t : TracedDecoder κ) :
    t.decoded <+: t.emit data frame := by
  unfold emit
  split
  · exact List.prefix_append _ _
  · exact List.prefix_rfl

/-- A round only adds to the record. -/
theorem prefix_round (data : Option DataPacket) (t : TracedDecoder κ) :
    t.decoded <+: (t.round O data).decoded := by
  unfold TracedDecoder.round
  dsimp only
  split
  · exact List.prefix_rfl
  · split
    · exact List.prefix_rfl
    · split
      · exact List.prefix_rfl
      · exact prefix_emit _ _ t
  · split <;> exact List.prefix_rfl

/-- Frames listed stay listed. -/
theorem prefix_feed (data : Option DataPacket) (t : TracedDecoder κ) :
    t.decoded <+: (t.feed O data).decoded := by
  unfold TracedDecoder.feed
  split
  · exact (prefix_round data t).trans (prefix_round data _)
  · exact prefix_round data t

theorem prefix_feedAll (fed : List (Option DataPacket)) (t : TracedDecoder κ) :
    t.decoded <+: (fed.foldl (fun t pkt => t.feed O pkt) t).decoded := by
  induction fed generalizing t with
  | nil => exact List.prefix_rfl
  | cons pkt fed ih => exact (prefix_feed pkt t).trans (ih _)

end TracedDecoder

/-! ## The stream -/

namespace StreamReader

variable {δ κ : Type} {D : IDemuxer δ} {C : CodecOps κ} {O : PictureOrigins C} {s : StreamId}

/-- Without its record, a pass is a pass of `read_frame`. -/
theorem erase_recordedReadFramePass :
    (recordedReadFramePass D C s :
      Recorded Fault (Option DataPacket) (StreamReader δ κ) (Option (Option Frame))).erase =
      readFramePass D C s := by
  unfold recordedReadFramePass readFramePass
  rw [Recorded.erase_bind, Recorded.erase_lift]
  congr 1
  funext r
  dsimp only
  rcases (r.streams s).bufferedData with _ | buffered <;>
    simp only [Recorded.erase_bind, Recorded.erase_lift, Recorded.erase_ite, Recorded.erase_pure,
      Recorded.erase_note, Proc.pure_bind]

/-- The traced decoder was fed what the stream fed its decoder: the frame that is ready is the one
listed last, and the key flag is that of its packet fed. -/
structure Follows (s : StreamId) (t : TracedDecoder κ) (r : StreamReader δ κ) : Prop where
  decoder : t.decoder = (r.streams s).decoder
  sound : t.Sound
  ready : ∀ f ∈ (r.streams s).bufferedData, ∃ x, t.decoded.getLast? = some x ∧ x.frame = f
  key : ∀ x, t.decoded.getLast? = some x → (r.streams s).lastKeyFrame = x.fed.isKeyFrame

theorem erase_recordedReadFrameLoop (fuel : Nat) :
    (recordedReadFrameLoop D C s fuel :
      Recorded Fault (Option DataPacket) (StreamReader δ κ) (Option Frame)).erase =
      readFrameLoop D C s fuel := by
  induction fuel with
  | zero => rfl
  | succ fuel ih =>
    unfold recordedReadFrameLoop readFrameLoop
    rw [Recorded.erase_bind, erase_recordedReadFramePass]
    congr 1
    funext result
    rcases result with _ | out
    · exact ih
    · rfl

/-- The recorded read is the read of the stream. -/
theorem erase_recordedReadFrame :
    (recordedReadFrame D C s :
      Recorded Fault (Option DataPacket) (StreamReader δ κ) (Option Frame)).erase =
      readFrame D C s := by
  unfold recordedReadFrame readFrame
  simp only [Recorded.erase_bind, Recorded.erase_lift, erase_recordedReadFrameLoop]

/-- The frame that a read returned was listed last. -/
def ReturnsLast (out : Option Frame) (t : TracedDecoder κ) : Prop :=
  ∀ f ∈ out, ∃ x, t.decoded.getLast? = some x ∧ x.frame = f

/-! ### One pass -/

/-- A stream that cannot be read is not fed. -/
theorem recordedReadFramePass_of_not_readable {r : StreamReader δ κ} (hr : ¬r.Readable D s) :
    (recordedReadFramePass D C s r).2 = [] := by
  unfold Readable at hr
  unfold recordedReadFramePass
  rw [Recorded.lift_get_bind_apply]
  dsimp only
  rcases hterm : (r.streams s).terminated with _ | _
  · rcases hreader : (r.streams s).hasReader with _ | _
    · rfl
    · have hpos : (r.streams s).seekPosition ≥ D.streamDuration s := by
        by_contra hlt
        exact hr ⟨hterm, hreader, Int.not_le.mp hlt⟩
      rw [if_neg nofun, if_neg nofun, if_pos hpos]
      rfl
  · rfl

/-- A frame that waits is returned without feeding the decoder. -/
theorem recordedReadFramePass_of_buffered {r : StreamReader δ κ} {b : Frame}
    (hr : r.Readable D s) (hb : (r.streams s).bufferedData = some b) :
    recordedReadFramePass D C s r =
      ((.ok (some (some b)), r.setStream s (takeBuffered b (r.streams s))), []) := by
  obtain ⟨hterm, hreader, hpos⟩ := hr
  unfold recordedReadFramePass
  rw [Recorded.lift_get_bind_apply]
  dsimp only
  rw [hterm, hreader, hb, if_neg nofun, if_neg nofun, if_neg (Int.not_le.mpr hpos)]
  rfl

/-- A pass without a frame ready reads a packet and decodes it. -/
theorem recordedReadFramePass_of_empty {r : StreamReader δ κ} (hr : r.Readable D s)
    (hb : (r.streams s).bufferedData = none) :
    recordedReadFramePass D C s r =
      (Recorded.lift (read D s) >>= fun pkt =>
        Recorded.note pkt >>= fun _ =>
          Recorded.lift (onDecoder s (DecoderVideo.decode C pkt)) >>= fun frame =>
            Recorded.lift (passResult s pkt frame)) r := by
  obtain ⟨hterm, hreader, hpos⟩ := hr
  unfold recordedReadFramePass
  rw [Recorded.lift_get_bind_apply]
  dsimp only
  rw [hterm, hreader, hb, if_neg nofun, if_neg nofun, if_neg (Int.not_le.mpr hpos)]

/-- A pass without a frame ready feeds the packet that it reads. -/
theorem recordedReadFramePass_inv {r r' : StreamReader δ κ} {out : Option (Option Frame)}
    {fed : List (Option DataPacket)} (hr : r.Readable D s) (hb : (r.streams s).bufferedData = none)
    (h : recordedReadFramePass D C s r = ((.ok out, r'), fed)) :
    ∃ pkt r₁ frame d, fed = [pkt] ∧ read D s r = (.ok pkt, r₁) ∧
      DecoderVideo.decode C pkt (r₁.streams s).decoder = (.ok frame, d) ∧
      passResult s pkt frame (r₁.setStream s { r₁.streams s with decoder := d }) = (.ok out, r') := by
  rw [recordedReadFramePass_of_empty hr hb] at h
  obtain ⟨pkt, r₁, events₁, events₂, hfirst, hrest, rfl⟩ := Recorded.bind_inv h
  obtain ⟨hread, rfl⟩ := Prod.mk.inj hfirst
  rw [Recorded.note_bind_apply] at hrest
  rcases hd : DecoderVideo.decode C pkt (r₁.streams s).decoder with ⟨e | frame, d⟩
  · have hcall : onDecoder s (DecoderVideo.decode C pkt) r₁ =
        (.error e, r₁.setStream s { r₁.streams s with decoder := d }) := by
      rw [onDecoder, Proc.zoom_apply, hd]
    rw [Recorded.lift_bind_error hcall] at hrest
    cases hrest
  · have hcall : onDecoder s (DecoderVideo.decode C pkt) r₁ =
        (.ok frame, r₁.setStream s { r₁.streams s with decoder := d }) := by
      rw [onDecoder, Proc.zoom_apply, hd]
    rw [Recorded.lift_bind_ok hcall] at hrest
    obtain ⟨hstore, rfl⟩ := Prod.mk.inj hrest
    exact ⟨pkt, r₁, frame, d, rfl, hread, hd, hstore⟩

/-- What storing the frame leaves in the stream. -/
theorem passResult_inv {pkt : Option DataPacket} {frame : Option Frame} {r r' : StreamReader δ κ}
    {out : Option (Option Frame)} (h : passResult s pkt frame r = (.ok out, r')) :
    out.join = none ∧ (r'.streams s).decoder = (r.streams s).decoder ∧
      (r'.streams s).bufferedData = frame ∧
      ((frame = none ∧ (r'.streams s).lastKeyFrame = (r.streams s).lastKeyFrame) ∨
        ∃ p f, pkt = some p ∧ frame = some f ∧ (r'.streams s).lastKeyFrame = p.isKeyFrame) := by
  unfold passResult at h
  rcases frame with _ | f <;> rcases pkt with _ | p <;>
    simp [modifyStream, Proc.bind_apply] at h <;> obtain ⟨rfl, rfl⟩ := h <;> simp

/-- Reading a packet leaves the key flag alone. -/
theorem lastKeyFrame_read {r r' : StreamReader δ κ} {data : Option DataPacket}
    (h : read D s r = (.ok data, r')) :
    (r'.streams s).lastKeyFrame = (r.streams s).lastKeyFrame := by
  have hmodify : ∀ {f : DemuxedStream κ → DemuxedStream κ} {k : Bool},
      (∀ st, (f st).lastKeyFrame = st.lastKeyFrame) →
      Proc.Keeps (fun r : StreamReader δ κ => (r.streams s).lastKeyFrame = k) (modifyStream s f) := by
    intro f k hf r hr
    simpa [modifyStream, hf] using hr
  have hread : Proc.Keeps (fun r' : StreamReader δ κ =>
      (r'.streams s).lastKeyFrame = (r.streams s).lastKeyFrame) (read D s) :=
    keeps_read_of (hmodify fun _ => rfl) (fun _ => hmodify fun _ => rfl) fun _ hr => hr
  have hkept := hread r rfl
  rw [h] at hkept
  exact hkept

/-- A pass that returned without using its stream fed nothing and returned no frame. -/
theorem recordedReadFramePass_inv_of_not_readable {r r' : StreamReader δ κ}
    {out : Option (Option Frame)} {fed : List (Option DataPacket)} (hr : ¬r.Readable D s)
    (hpass : recordedReadFramePass D C s r = ((.ok out, r'), fed)) :
    fed = [] ∧ r' = r ∧ out = some none := by
  have halone := Recorded.run_of_erase erase_recordedReadFramePass hpass
  have hnone := recordedReadFramePass_of_not_readable (C := C) hr
  obtain ⟨hsame, hreturn⟩ := readFramePass_of_not_readable (C := C) hr
  rw [hpass] at hnone
  rw [halone] at hsame hreturn
  refine ⟨hnone, hsame, ?_⟩
  rcases hreturn with hreturn | hreturn <;> cases hreturn
  rfl

/-- A pass that feeds a packet lists the frame that it leaves ready. -/
theorem Follows.pass_fed {t : TracedDecoder κ} {r r' : StreamReader δ κ}
    {out : Option (Option Frame)} {fed : List (Option DataPacket)} (h : Follows s t r)
    (hr : r.Readable D s) (hb : (r.streams s).bufferedData = none)
    (hpass : recordedReadFramePass D C s r = ((.ok out, r'), fed)) :
    Follows s (fed.foldl (fun t pkt => t.feed O pkt) t) r' ∧
      ReturnsLast out.join (fed.foldl (fun t pkt => t.feed O pkt) t) := by
  obtain ⟨pkt, r₁, frame, d, rfl, hread, hdecode, hstore⟩ := recordedReadFramePass_inv hr hb hpass
  obtain ⟨hout, hdecoder, hready, hkey⟩ := passResult_inv hstore
  obtain ⟨hsame, -⟩ := frames_read hread
  have hflag := lastKeyFrame_read hread
  have hfed : t.decoder = (r₁.streams s).decoder := h.decoder.trans hsame.symm
  rw [← hfed] at hdecode
  have hrecords := h.sound.feed_records (O := O) hdecode
  show Follows s (t.feed O pkt) r' ∧ ReturnsLast out.join (t.feed O pkt)
  rw [streams_setStream] at hdecoder hkey
  have hsound := h.sound.feed (O := O) pkt
  have hinside : (t.feed O pkt).decoder = (r'.streams s).decoder := by
    rw [TracedDecoder.decoder_feed, hdecode]
    exact hdecoder.symm
  have hreturn : ReturnsLast out.join (t.feed O pkt) := by
    rw [hout]
    exact nofun
  rcases hkey with ⟨rfl, hkey⟩ | ⟨p, f, rfl, rfl, hkey⟩
  · -- nothing came out, and the last frame listed is the one before
    have hkept : (t.feed O pkt).decoded = t.decoded := hrecords.kept (.inr rfl)
    refine ⟨⟨hinside, hsound, ?_, ?_⟩, hreturn⟩
    · rw [hready]
      exact nofun
    · rw [hkept, hkey, hflag]
      exact h.key
  · obtain ⟨origin, hlisted⟩ := hrecords.listed p f rfl rfl
    have hlast : (t.feed O (some p)).decoded.getLast? = some ⟨f, origin, p⟩ := by
      rw [hlisted, List.getLast?_concat]
    refine ⟨⟨hinside, hsound, ?_, ?_⟩, hreturn⟩
    · rw [hready]
      rintro _ ⟨⟩
      exact ⟨_, hlast, rfl⟩
    · intro x hx
      rw [hlast] at hx
      cases hx
      exact hkey

/-- A pass that finds a frame ready returns the one listed last. -/
theorem Follows.takeBuffered {t : TracedDecoder κ} {r : StreamReader δ κ} {b : Frame}
    (h : Follows s t r) (hb : (r.streams s).bufferedData = some b) :
    Follows s t (r.setStream s (StreamReader.takeBuffered b (r.streams s))) ∧
      ReturnsLast (some b) t := by
  have hlast := h.ready b hb
  refine ⟨⟨?_, h.sound, ?_, ?_⟩, ?_⟩
  · simpa using h.decoder
  · intro f hf
    rw [streams_setStream] at hf
    rcases bufferedData_takeBuffered b (r.streams s) with hkept | hnone
    · rw [hkept] at hf
      cases hf
      exact hlast
    · rw [hnone] at hf
      cases hf
  · intro x hx
    rw [streams_setStream]
    exact h.key x hx
  · rintro f ⟨⟩
    exact hlast

/-- A pass keeps the trace at the decoder, and returns the frame that was decoded last. -/
theorem Follows.pass {t : TracedDecoder κ} {r r' : StreamReader δ κ}
    {out : Option (Option Frame)} {fed : List (Option DataPacket)} (h : Follows s t r)
    (hpass : recordedReadFramePass D C s r = ((.ok out, r'), fed)) :
    Follows s (fed.foldl (fun t pkt => t.feed O pkt) t) r' ∧
      ReturnsLast out.join (fed.foldl (fun t pkt => t.feed O pkt) t) := by
  by_cases hr : r.Readable D s
  · rcases hb : (r.streams s).bufferedData with _ | b
    · exact h.pass_fed hr hb hpass
    · rw [recordedReadFramePass_of_buffered hr hb] at hpass
      cases hpass
      exact h.takeBuffered hb
  · obtain ⟨rfl, rfl, rfl⟩ := recordedReadFramePass_inv_of_not_readable hr hpass
    exact ⟨h, nofun⟩

/-! ### The whole read -/

/-- The loop keeps the trace at the decoder, and returns the frame that was decoded last. -/
theorem Follows.readFrameLoop {t : TracedDecoder κ} {r r' : StreamReader δ κ} {fuel : Nat}
    {out : Option Frame} {fed : List (Option DataPacket)} (h : Follows s t r)
    (hread : recordedReadFrameLoop D C s fuel r = ((.ok out, r'), fed)) :
    Follows s (fed.foldl (fun t pkt => t.feed O pkt) t) r' ∧
      ReturnsLast out (fed.foldl (fun t pkt => t.feed O pkt) t) := by
  induction fuel generalizing t r fed with
  | zero => cases hread
  | succ fuel ih =>
    unfold recordedReadFrameLoop at hread
    obtain ⟨result, r₁, events₁, events₂, hpass, hrest, rfl⟩ := Recorded.bind_inv hread
    obtain ⟨hfollows, hreturns⟩ := h.pass (O := O) hpass
    rw [List.foldl_append]
    rcases result with _ | out'
    · exact ih hfollows hrest
    · cases hrest
      exact ⟨hfollows, hreturns⟩

/-- After a read the traced decoder stands where the stream's decoder does, and the frame returned
was listed last. -/
theorem Follows.readFrame {t : TracedDecoder κ} {r r' : StreamReader δ κ} {out : Option Frame}
    {fed : List (Option DataPacket)} (h : Follows s t r)
    (hread : recordedReadFrame D C s r = ((.ok out, r'), fed)) :
    Follows s (fed.foldl (fun t pkt => t.feed O pkt) t) r' ∧
      ReturnsLast out (fed.foldl (fun t pkt => t.feed O pkt) t) := by
  unfold recordedReadFrame at hread
  rw [Recorded.lift_get_bind_apply] at hread
  exact h.readFrameLoop hread

end StreamReader

end Seekira.Model
