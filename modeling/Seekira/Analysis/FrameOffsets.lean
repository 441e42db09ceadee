import Seekira.Analysis.DecoderFeed
import Seekira.Analysis.FrameOrigins
import Seekira.Model.MediaFile

/-!
# The offset between a frame and the packet fed with it

With a codec that keeps the order of its packets and is `delay` packets late, the
frame of packet `i` comes out when packet `i + delay + 1` is fed: `delay` packets wait
in the codec, and one more is needed because the decoder returns a frame only when
it knows the next one.
-/

set_option autoImplicit false

namespace Seekira.Model

/-- The codec names the packets in the order in which it returns their pictures. -/
def PictureOrigins.InOrder {κ : Type} {C : CodecOps κ} (O : PictureOrigins C) (delay : Nat)
    (holds : List DataPacket → κ → Prop) : Prop :=
  ∀ held k p, holds held k →
    O.of (some p) k = (held ++ [p]).take (held.length + 1 - delay)

namespace TracedDecoder

open DecoderVideo

variable {κ : Type} {C : CodecOps κ} {O : PictureOrigins C} {delay : Nat}
  {holds : List DataPacket → κ → Prop} {drained : κ → Prop}

/-- A packet ends the loop of `decode` in its first round. -/
theorem feed_packet (p : DataPacket) (t : TracedDecoder κ) :
    t.feed O (some p) = t.round O (some p) := by
  unfold feed
  rcases hround : decodeRound C (some p) t.decoder with ⟨e | _ | out, d⟩
  · rfl
  · obtain ⟨frame, d₁, -, -, hresult⟩ := decodeRound_inv hround
    unfold roundResult at hresult
    split at hresult
    · cases hresult
    · split at hresult <;> cases hresult
    · cases hresult
    · cases hresult
  · rfl

/-! ## What a round does with its frame -/

/-- A round without a frame. -/
theorem round_of_none {t : TracedDecoder κ} {p : DataPacket} {d : DecoderVideo κ}
    (hd : decodeInternal C (some p) t.decoder = (.ok none, d)) :
    t.round O (some p) = { t with decoder := d, queue := t.received O (some p) } := by
  unfold round
  rw [hd]
  dsimp only
  rcases d.prevFrame with _ | prev <;> rfl

/-- A round with the first frame. -/
theorem round_of_first {t : TracedDecoder κ} {p : DataPacket} {d : DecoderVideo κ} {frame : Frame}
    (hd : decodeInternal C (some p) t.decoder = (.ok (some frame), d))
    (hprev : d.prevFrame = none) :
    t.round O (some p) =
      { t with
        decoder := { d with prevFrame := some frame }
        queue := (t.received O (some p)).tail
        prev := (t.received O (some p)).head? } := by
  unfold round
  rw [hd]
  dsimp only
  rw [hprev]

/-- A round with a later frame than the one that is held back. -/
theorem round_of_next {t : TracedDecoder κ} {p : DataPacket} {d : DecoderVideo κ}
    {frame prev : Frame} (hd : decodeInternal C (some p) t.decoder = (.ok (some frame), d))
    (hprev : d.prevFrame = some prev) (hlt : prev.ts < frame.ts) :
    t.round O (some p) =
      { decoder := { d with prevFrame := some frame }
        queue := (t.received O (some p)).tail
        prev := (t.received O (some p)).head?
        decoded := t.emit (some p) { prev with duration := frame.ts - prev.ts } } := by
  have hlater : ¬frame.ts - prev.ts ≤ 0 := by
    rw [distance_le_zero_iff]
    exact Int.not_le.mpr hlt
  unfold round
  rw [hd]
  dsimp only
  rw [hprev]
  dsimp only
  rw [if_neg hlater]

/-- The codec gives frames back in order, so many packets late. -/
theorem received_packet (hC : C.InOrder delay holds drained) (hO : O.InOrder delay holds)
    {t : TracedDecoder κ} (h : t.Sound) {held : List DataPacket}
    (hready : t.decoder.Ready holds held) {p : DataPacket} (hp : p.pts ≠ avNoPtsValue) :
    t.received O (some p) = (held ++ [p]).take (held.length + 1 - delay) := by
  have hqueue : t.queue = [] := by
    have hlen := h.queue
    rw [hready.queue] at hlen
    exact List.length_eq_zero_iff.mp hlen
  obtain ⟨reset, hprep⟩ :=
    preparePacket_eq hp (d := { t.decoder with canReopenDecoder := false }) hready.pts
  obtain ⟨frames, k, hsend, -, -⟩ := hC.packet held t.decoder.codec p hready.codec
  unfold received
  rw [hprep]
  simp only [hsend]
  rw [hqueue, List.nil_append, hO held t.decoder.codec p hready.codec]

/-- What the traced decoder holds after the packets `ps`: up to `delay` of them are with the codec;
with one more the first is remembered, and the frames before it were returned. -/
inductive Behind (delay : Nat) (holds : List DataPacket → κ → Prop) :
    List DataPacket → TracedDecoder κ → Prop
  | filling (ps : List DataPacket) (t : TracedDecoder κ) : t.Sound → ps.length ≤ delay →
      t.decoder.Ready holds ps → t.decoder.prevFrame = none →
      t.decoder.firstFrameAfterSeek = true → t.decoded = [] → Behind delay holds ps t
  | ahead (front : List DataPacket) (x : DataPacket) (held : List DataPacket)
      (t : TracedDecoder κ) (frame : Frame) : t.Sound → held.length = delay →
      t.decoder.Ready holds held → t.decoder.prevFrame = some frame → frame.ts = x.pts →
      t.decoder.clock = x.pts → t.prev = some x →
      t.decoded.map (fun x => (x.origin, x.fed)) =
        front.zip ((front ++ x :: held).drop (delay + 1)) →
      Behind delay holds (front ++ x :: held) t

/-- A packet while the codec fills up: it is held back, or the picture of the first packet comes out
and is remembered. -/
theorem behind_feed_filling (hC : C.InOrder delay holds drained) (hO : O.InOrder delay holds)
    {ps : List DataPacket} {t : TracedDecoder κ} {p : DataPacket} (htimed : Timed (ps ++ [p]))
    (hsound : t.Sound) (hlen : ps.length ≤ delay) (hready : t.decoder.Ready holds ps)
    (hprev : t.decoder.prevFrame = none) (hfirst : t.decoder.firstFrameAfterSeek = true)
    (hdecoded : t.decoded = []) : Behind delay holds (ps ++ [p]) (t.round O (some p)) := by
  have hp : p.pts ≠ avNoPtsValue := htimed.known p (by simp)
  have hreceived := received_packet hC hO hsound hready hp
  have hnext := hsound.round (O := O) (some p)
  rcases Nat.lt_or_eq_of_le hlen with hlt | heq
  · obtain ⟨d, hd, hready', hprev', hfirst'⟩ := decodeInternal_short hC hready hp hlt
    rw [round_of_none hd] at hnext ⊢
    refine .filling _ _ hnext ?_ hready' (hprev'.trans hprev) (hfirst'.trans hfirst) hdecoded
    rw [List.length_append]
    exact hlt
  · obtain ⟨y, rest, hy⟩ := List.exists_cons_of_ne_nil (l := ps ++ [p]) (by simp)
    have hknown : y.pts ≠ avNoPtsValue := htimed.known y (by simp [hy])
    obtain ⟨frame, d, hd, hts, hready', hprev', hclock⟩ :=
      decodeInternal_full hC hready hp heq hy hknown (.inl hfirst)
    have hrest : rest.length = delay := by
      have hlen' := congrArg List.length hy
      simp only [List.length_append, List.length_cons, List.length_nil] at hlen'
      omega
    rw [show ps.length + 1 - delay = 1 by omega, hy] at hreceived
    rw [round_of_first hd (hprev'.trans hprev)] at hnext ⊢
    rw [hy]
    refine .ahead [] y rest _ frame hnext hrest ⟨hready'.queue, hready'.pts, hready'.codec⟩ rfl
      hts hclock ?_ ?_
    · show (t.received O (some p)).head? = some y
      rw [hreceived]
      rfl
    · show t.decoded.map _ = _
      rw [hdecoded]
      rfl

/-- A packet with the codec full: the next picture comes out and the frame remembered is
returned. -/
theorem behind_feed_ahead (hC : C.InOrder delay holds drained) (hO : O.InOrder delay holds)
    {front held : List DataPacket} {x p : DataPacket} {t : TracedDecoder κ} {frame : Frame}
    (htimed : Timed (front ++ x :: held ++ [p])) (hsound : t.Sound) (hlen : held.length = delay)
    (hready : t.decoder.Ready holds held) (hprev : t.decoder.prevFrame = some frame)
    (hts : frame.ts = x.pts) (hclock : t.decoder.clock = x.pts) (hkept : t.prev = some x)
    (hdecoded : t.decoded.map (fun x => (x.origin, x.fed)) =
      front.zip ((front ++ x :: held).drop (delay + 1))) :
    Behind delay holds (front ++ x :: held ++ [p]) (t.round O (some p)) := by
  have hp : p.pts ≠ avNoPtsValue := htimed.known p (by simp)
  have hreceived := received_packet hC hO hsound hready hp
  have hnext := hsound.round (O := O) (some p)
  obtain ⟨y, rest, hy⟩ := List.exists_cons_of_ne_nil (l := held ++ [p]) (by simp)
  have hall : front ++ x :: held ++ [p] = (front ++ [x]) ++ y :: rest := by
    rw [← hy]
    simp
  have hknown : y.pts ≠ avNoPtsValue := htimed.known y (by simp [hall])
  have hlt : x.pts < y.pts := by
    have hpair := htimed.increasing
    rw [hall, List.append_assoc] at hpair
    exact List.rel_of_pairwise_cons (List.pairwise_append.mp hpair).2.1 (by simp)
  obtain ⟨next, d, hd, hts', hready', hprev', hclock'⟩ :=
    decodeInternal_full hC hready hp hlen hy hknown
      (.inr (by rw [hclock]; exact Int.le_of_lt hlt))
  have hrest : rest.length = delay := by
    have hlen' := congrArg List.length hy
    simp only [List.length_append, List.length_cons, List.length_nil] at hlen'
    omega
  rw [show held.length + 1 - delay = 1 by omega, hy] at hreceived
  rw [round_of_next hd (hprev'.trans hprev) (by rw [hts, hts']; exact hlt)] at hnext ⊢
  rw [hall]
  refine .ahead (front ++ [x]) y rest _ next hnext hrest
    ⟨hready'.queue, hready'.pts, hready'.codec⟩ rfl hts' hclock' ?_ ?_
  · show (t.received O (some p)).head? = some y
    rw [hreceived]
    rfl
  · have hlong : delay + 1 ≤ (front ++ x :: held).length := by
      rw [List.length_append, List.length_cons, hlen]
      omega
    have hlengths : front.length = ((front ++ x :: held).drop (delay + 1)).length := by
      rw [List.length_drop, List.length_append, List.length_cons, hlen]
      omega
    show (t.emit (some p) _).map _ = _
    unfold emit
    rw [hkept, ← hall, List.drop_append_of_le_length hlong, List.zip_append hlengths]
    dsimp only
    rw [List.map_append, hdecoded]
    rfl

/-- A further packet keeps the decoder the same number of packets behind. -/
theorem Behind.feed (hC : C.InOrder delay holds drained) (hO : O.InOrder delay holds)
    {ps : List DataPacket} {t : TracedDecoder κ} (h : Behind delay holds ps t) {p : DataPacket}
    (htimed : Timed (ps ++ [p])) : Behind delay holds (ps ++ [p]) (t.feed O (some p)) := by
  rw [feed_packet]
  cases h with
  | filling ps t hsound hlen hready hprev hfirst hdecoded =>
    exact behind_feed_filling hC hO htimed hsound hlen hready hprev hfirst hdecoded
  | ahead front x held t frame hsound hlen hready hprev hts hclock hkept hdecoded =>
    exact behind_feed_ahead hC hO htimed hsound hlen hready hprev hts hclock hkept hdecoded

/-- Fed the packets `ps`, the decoder has returned the frames of all but the last `delay + 1`, each
when the packet `delay + 1` places further on was fed. -/
theorem decoded_in_order (hC : C.InOrder delay holds drained) (hO : O.InOrder delay holds)
    {d : DecoderVideo κ} (hready : d.Ready holds []) (hprev : d.prevFrame = none)
    (hfirst : d.firstFrameAfterSeek = true) {ps : List DataPacket} (htimed : Timed ps) :
    ((ps.foldl (fun t p => t.feed O (some p)) (create d)).decoded.map
        fun x => (x.origin, x.fed)) = ps.zip (ps.drop (delay + 1)) := by
  have hbehind : Behind delay holds ps (ps.foldl (fun t p => t.feed O (some p)) (create d)) := by
    induction ps using List.reverseRecOn with
    | nil =>
      exact .filling [] _ (sound_create hready.queue hprev) (Nat.zero_le _) hready hprev hfirst rfl
    | append_singleton ps p ih =>
      rw [List.foldl_append]
      exact (ih (htimed.sublist (List.sublist_append_left ps [p]))).feed hC hO htimed
  generalize ps.foldl (fun t p => t.feed O (some p)) (create d) = t at hbehind
  cases hbehind with
  | filling _ _ _ hlen _ _ _ hdecoded =>
    rw [hdecoded, List.drop_eq_nil_of_le (Nat.le_succ_of_le hlen), List.zip_nil_right]
    rfl
  | ahead front x held _ _ _ hlen _ _ _ _ _ hdecoded =>
    have hlengths : front.length = ((front ++ x :: held).drop (delay + 1)).length := by
      rw [List.length_drop, List.length_append, List.length_cons, hlen]
      omega
    have hrest : (front ++ x :: held).zip ((front ++ x :: held).drop (delay + 1) ++ []) =
        front.zip ((front ++ x :: held).drop (delay + 1)) ++ (x :: held).zip [] :=
      List.zip_append hlengths
    rw [List.append_nil, List.zip_nil_right, List.append_nil] at hrest
    rw [hdecoded, hrest]

end TracedDecoder

/-- The packets whose pictures the plain codec returns. -/
def fifoOrigins (delay : Nat) (fps : Int × Int) : PictureOrigins (fifoCodec delay fps) where
  of := fun packet held =>
    match packet with
    | some p => (held ++ [p]).take (held.length + 1 - delay)
    | none => held
  length_eq := by
    rintro (_ | p) held <;> simp [fifoCodec]

theorem fifoOrigins_inOrder (delay : Nat) (fps : Int × Int) :
    (fifoOrigins delay fps).InOrder delay fun held k => k = held := by
  rintro held k p rfl
  rfl

end Seekira.Model
