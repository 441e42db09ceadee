import Seekira.Analysis.DemuxerReturns
import Seekira.Analysis.FrameOrigins

/-!
# Every frame decoded is returned

A pass that decodes a frame leaves it in the stream for the next pass, so a read would
lose the frame if its loop ended in between.  It does not: each pass that goes on takes
a packet, and there are more passes than packets.  A read therefore lists one frame
when it returns one, and none otherwise.
-/

set_option autoImplicit false

namespace Seekira.Model

open Library

/-- A read that finds a packet leaves fewer of them. -/
def IDemuxer.Shrinks {δ : Type} (D : IDemuxer δ) : Prop :=
  ∀ s d p d', D.read s d = (.ok (some p), d') → D.remaining d' < D.remaining d

/-- A read that returns a packet leaves less to read. -/
theorem DemuxerQueue.shrinks {π : Type} (P : ParserOps π) :
    (DemuxerQueue.toIDemuxer P).Shrinks := by
  intro s d p d' hread
  change DemuxerQueue.read P s d = (.ok (some p), d') at hread
  by_cases hs : s < P.streamCount
  · obtain ⟨packet, d₁, hread', hless⟩ := DemuxerQueue.read_returns hs d
    rw [hread] at hread'
    cases hread'
    exact hless rfl
  · unfold DemuxerQueue.read at hread
    rw [if_pos (Nat.not_lt.mp hs)] at hread
    cases hread

/-! ## Rounds that fail -/

namespace TracedDecoder

variable {κ : Type} {C : CodecOps κ} {O : PictureOrigins C}

/-- A round that throws decodes nothing. -/
theorem decoded_round_of_error {t : TracedDecoder κ} {data : Option DataPacket}
    {d : DecoderVideo κ} {e : Fault}
    (hround : DecoderVideo.decodeRound C data t.decoder = (.error e, d)) :
    (t.round O data).decoded = t.decoded := by
  unfold round
  rcases hd : DecoderVideo.decodeInternal C data t.decoder with ⟨e' | frame, d'⟩
  · rfl
  · rw [DecoderVideo.decodeRound_ok hd] at hround
    cases hround

/-- A call of `decode` that fails lists nothing. -/
theorem Sound.decoded_feed_of_error {t : TracedDecoder κ} (h : t.Sound) {data : Option DataPacket}
    {d : DecoderVideo κ} {e : Fault}
    (hdecode : DecoderVideo.decode C data t.decoder = (.error e, d)) :
    (t.feed O data).decoded = t.decoded := by
  unfold TracedDecoder.feed
  rcases h₁ : DecoderVideo.decodeRound C data t.decoder with ⟨e' | _ | out, d₁⟩
  · exact decoded_round_of_error h₁
  · have hfirst : (t.round O data).decoded = t.decoded :=
      (h.round_records h₁).kept (.inr rfl)
    dsimp only
    rw [← hfirst]
    rcases h₂ : DecoderVideo.decodeRound C data (t.round O data).decoder with ⟨e' | _ | out, d₂⟩
    · exact decoded_round_of_error h₂
    · exact ((h.round data).round_records h₂).kept (.inr rfl)
    · rw [decoder_round, h₁] at h₂
      rw [DecoderVideo.decode_of_two_rounds h₁ h₂] at hdecode
      cases hdecode
  · rw [DecoderVideo.decode_of_round h₁] at hdecode
    cases hdecode

end TracedDecoder

namespace StreamReader

variable {δ κ : Type} {D : IDemuxer δ} {C : CodecOps κ} {O : PictureOrigins C} {s : StreamId}

/-! ## The packets ahead -/

/-- The number of packets that the stream can still be given at most. -/
def packetsAhead (D : IDemuxer δ) (s : StreamId) (r : StreamReader δ κ) : Nat :=
  D.remaining r.demuxer + if (r.streams s).bufferedPacket.isSome then 1 else 0

theorem packetsAhead_le (D : IDemuxer δ) (s : StreamId) (r : StreamReader δ κ) :
    packetsAhead D s r ≤ D.remaining r.demuxer + 1 := by
  unfold packetsAhead
  split <;> omega

/-- A packet read is one less ahead, and the stream stays readable. -/
theorem read_some {r r' : StreamReader δ κ} {p : DataPacket} (hD : D.Shrinks)
    (hr : r.Readable D s) (h : read D s r = (.ok (some p), r')) :
    r'.Readable D s ∧ packetsAhead D s r' < packetsAhead D s r := by
  obtain ⟨hterm, hreader, hpos⟩ := hr
  rcases hkept : (r.streams s).bufferedPacket with _ | q
  · rw [read_of_demuxer hreader hterm hkept] at h
    rcases hread : D.read s r.demuxer with ⟨e | packet, d⟩ <;> rw [hread] at h <;> cases h
    have hless := hD s _ _ _ hread
    refine ⟨?_, ?_⟩
    · simpa [Readable, received, countPacket] using ⟨hterm, hreader, hpos⟩
    · simpa [packetsAhead, received, countPacket, hkept] using hless
  · rw [read_of_bufferedPacket hreader hterm hkept] at h
    cases h
    refine ⟨?_, ?_⟩
    · simpa [Readable, received, countPacket] using ⟨hterm, hreader, hpos⟩
    · simp [packetsAhead, received, countPacket, hkept]

/-- A packet is followed by another pass, which finds the frame decoded. -/
theorem passResult_packet {r r' : StreamReader δ κ} {d : DecoderVideo κ} {p : DataPacket}
    {frame : Option Frame} {out : Option (Option Frame)} (hr : r.Readable D s)
    (h : passResult s (some p) frame (r.setStream s { r.streams s with decoder := d }) =
      (.ok out, r')) :
    out = none ∧ r'.Readable D s ∧ packetsAhead D s r' = packetsAhead D s r ∧
      (r'.streams s).bufferedData = frame := by
  obtain ⟨hterm, hreader, hpos⟩ := hr
  unfold passResult modifyStream at h
  rw [Proc.modify_bind_apply] at h
  rcases frame with _ | f
  · cases h
    refine ⟨rfl, ?_, ?_, ?_⟩
    · simpa [Readable] using ⟨hterm, hreader, hpos⟩
    · simp [packetsAhead]
    · simp
  · dsimp only at h
    rw [Proc.modify_bind_apply] at h
    cases h
    refine ⟨rfl, ?_, ?_, ?_⟩
    · simpa [Readable] using ⟨hterm, hreader, hpos⟩
    · simp [packetsAhead]
    · simp

/-! ## The loop -/

/-- A pass that fails lists nothing. -/
theorem Follows.decoded_of_pass_error {t : TracedDecoder κ} {r r' : StreamReader δ κ} {e : Fault}
    {fed : List (Option DataPacket)} (h : Follows s t r)
    (hpass : recordedReadFramePass D C s r = ((.error e, r'), fed)) :
    (fed.foldl (fun t pkt => t.feed O pkt) t).decoded = t.decoded := by
  by_cases hr : r.Readable D s
  · rcases hb : (r.streams s).bufferedData with _ | b
    · rw [recordedReadFramePass_of_empty hr hb] at hpass
      rcases hread : read D s r with ⟨e' | pkt, r₁⟩
      · rw [Recorded.lift_bind_error hread] at hpass
        cases hpass
        rfl
      · rw [Recorded.lift_bind_ok hread, Recorded.note_bind_apply] at hpass
        obtain ⟨hsame, -⟩ := frames_read hread
        have hfed : t.decoder = (r₁.streams s).decoder := h.decoder.trans hsame.symm
        rcases hd : DecoderVideo.decode C pkt (r₁.streams s).decoder with ⟨e' | frame, d⟩
        · have hcall : onDecoder s (DecoderVideo.decode C pkt) r₁ =
              (.error e', r₁.setStream s { r₁.streams s with decoder := d }) := by
            rw [onDecoder, Proc.zoom_apply, hd]
          rw [Recorded.lift_bind_error hcall] at hpass
          cases hpass
          rw [← hfed] at hd
          exact h.sound.decoded_feed_of_error hd
        · have hcall : onDecoder s (DecoderVideo.decode C pkt) r₁ =
              (.ok frame, r₁.setStream s { r₁.streams s with decoder := d }) := by
            rw [onDecoder, Proc.zoom_apply, hd]
          rw [Recorded.lift_bind_ok hcall] at hpass
          -- only a frame that came out for the null packet makes the store fail
          have hnull : pkt = none := by
            rcases pkt with _ | p
            · rfl
            · rcases frame with _ | f <;> cases hpass
          obtain ⟨-, rfl⟩ := Prod.mk.inj hpass
          rw [← hfed] at hd
          exact (h.sound.feed_records hd).kept (.inl hnull)
    · rw [recordedReadFramePass_of_buffered hr hb] at hpass
      cases hpass
  · have hnone := recordedReadFramePass_of_not_readable (C := C) hr
    rw [hpass] at hnone
    obtain rfl : fed = [] := hnone
    rfl

/-- A read lists the frame that it returns, or none. -/
theorem Follows.decoded_readFrameLoop (hD : D.Shrinks) {t : TracedDecoder κ}
    {r r' : StreamReader δ κ} {fuel : Nat} {out : Except Fault (Option Frame)}
    {fed : List (Option DataPacket)} (h : Follows s t r) (hfuel : packetsAhead D s r < fuel)
    (hread : recordedReadFrameLoop D C s fuel r = ((out, r'), fed)) :
    (fed.foldl (fun t pkt => t.feed O pkt) t).decoded = t.decoded ∨
      ∃ x f, (fed.foldl (fun t pkt => t.feed O pkt) t).decoded = t.decoded ++ [x] ∧
        out = .ok (some f) := by
  induction fuel generalizing t r fed with
  | zero => exact absurd hfuel (Nat.not_lt_zero _)
  | succ fuel ih =>
    unfold recordedReadFrameLoop at hread
    rcases hpass : recordedReadFramePass D C s r with ⟨⟨e | result, r₁⟩, events⟩
    · rw [Recorded.bind_error hpass] at hread
      cases hread
      exact .inl (h.decoded_of_pass_error hpass)
    rw [Recorded.bind_ok hpass] at hread
    by_cases hr : r.Readable D s
    · rcases hb : (r.streams s).bufferedData with _ | b
      · obtain ⟨hfollows, -⟩ := h.pass (O := O) hpass
        obtain ⟨pkt, r₂, frame, d, rfl, hpkt, hdecode, hstore⟩ :=
          recordedReadFramePass_inv hr hb hpass
        obtain ⟨hsame, -⟩ := frames_read hpkt
        rw [hsame, ← h.decoder] at hdecode
        have hrecords := h.sound.feed_records (O := O) hdecode
        rcases pkt with _ | p
        · -- the null packet is the last one of a read
          have hkept := hrecords.kept (.inl rfl)
          rcases frame with _ | f <;> cases hstore
          cases hread
          exact .inl hkept
        · obtain ⟨hr₂, hless⟩ := read_some hD hr hpkt
          obtain ⟨rfl, hr₁, hahead, hready⟩ := passResult_packet hr₂ hstore
          have hfuel₁ : packetsAhead D s r₁ < fuel := by omega
          rcases frame with _ | f
          · have hkept := hrecords.kept (.inr rfl)
            obtain ⟨hrest, rfl⟩ := Prod.mk.inj hread
            rw [List.foldl_append, ← hkept]
            exact ih hfollows hfuel₁ (Prod.ext hrest rfl)
          · -- the next pass returns the frame
            obtain ⟨origin, hlisted⟩ := hrecords.listed p f rfl rfl
            obtain ⟨fuel, rfl⟩ := Nat.exists_eq_succ_of_ne_zero (Nat.ne_zero_of_lt hfuel₁)
            dsimp only at hread
            unfold recordedReadFrameLoop at hread
            rw [Recorded.bind_ok (recordedReadFramePass_of_buffered hr₁ hready)] at hread
            cases hread
            exact .inr ⟨_, f, hlisted, rfl⟩
      · rw [recordedReadFramePass_of_buffered hr hb] at hpass
        cases hpass
        cases hread
        exact .inl rfl
    · obtain ⟨rfl, rfl, rfl⟩ := recordedReadFramePass_inv_of_not_readable hr hpass
      cases hread
      exact .inl rfl

/-- A read of a frame decodes at most one frame that is not emitted. -/
theorem Follows.decoded_readFrame (hD : D.Shrinks) {t : TracedDecoder κ} {r r' : StreamReader δ κ}
    {out : Except Fault (Option Frame)} {fed : List (Option DataPacket)} (h : Follows s t r)
    (hread : recordedReadFrame D C s r = ((out, r'), fed)) :
    (fed.foldl (fun t pkt => t.feed O pkt) t).decoded = t.decoded ∨
      ∃ x f, (fed.foldl (fun t pkt => t.feed O pkt) t).decoded = t.decoded ++ [x] ∧
        out = .ok (some f) := by
  unfold recordedReadFrame at hread
  rw [Recorded.lift_get_bind_apply] at hread
  have hahead := packetsAhead_le D s r
  exact h.decoded_readFrameLoop hD (by omega) hread

end StreamReader

/-- After a read every frame decoded was read, when this was so before. -/
theorem ReadTrace.decoded_subset_afterRead {δ κ : Type} {D : IDemuxer δ} {C : CodecOps κ}
    {O : PictureOrigins C} {s : StreamId} (hD : D.Shrinks) {t : ReadTrace κ}
    {r : StreamReader δ κ} (hfollows : r.Follows s t.decoder)
    (h : ∀ x ∈ t.decoder.decoded, x ∈ t.read) :
    ∀ x ∈ (t.afterRead O (StreamReader.recordedReadFrame D C s r)).decoder.decoded,
      x ∈ (t.afterRead O (StreamReader.recordedReadFrame D C s r)).read := by
  rcases hrun : StreamReader.recordedReadFrame D C s r with ⟨⟨out, w⟩, fed⟩
  have hdecoded := hfollows.decoded_readFrame (O := O) hD hrun
  unfold ReadTrace.afterRead
  dsimp only
  generalize fed.foldl (fun t pkt => t.feed O pkt) t.decoder = decoder at hdecoded ⊢
  rcases hdecoded with hsame | ⟨x, f, hmore, rfl⟩
  · split <;> dsimp only <;> rw [hsame] <;> intro y hy
    · exact List.mem_append_left _ (h y hy)
    · exact h y hy
  · rw [hmore, List.getLast?_concat]
    intro y hy
    dsimp only at hy ⊢
    rw [hmore] at hy
    rcases List.mem_append.mp hy with hy | hy
    · exact List.mem_append_left _ (h y hy)
    · exact List.mem_append_right _ hy

end Seekira.Model
