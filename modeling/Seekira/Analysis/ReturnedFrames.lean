import Mathlib.Data.Int.Order.Basic
import Mathlib.Data.List.Chain
import Seekira.Library.Machine
import Seekira.Library.Recorded
import Seekira.Library.RunningMaxima
import Seekira.Analysis.DecoderClock
import Seekira.Analysis.DecoderFeed

/-!
# The timeline of the frames that `decode` returns

`decode` takes frames from the queue one at a time, remembers one, and returns it when a later
one comes, whatever timestamps the queue holds.  The frames returned and the one remembered
are those that exceed everything taken before them, and each lasts until the next.

The law is about `decode` over any `decode_internal` that appends frames to the queue and
returns its front; the decoder's own is one of these when its codec does not fail.
-/

set_option autoImplicit false

namespace Seekira.Model

open Library

variable {κ : Type} {C : CodecOps κ}

/-- The codec takes what it is sent and returns usable pictures, and after a drain request there are
no more of them. -/
structure CodecOps.Steady (C : CodecOps κ) : Prop where
  sends : ∀ packet codec, (C.send packet codec).1 = .ok ∨ (C.send packet codec).1 = .eof
  whole : ∀ packet codec, (C.send packet codec).2.1.broken = none
  drained : ∀ codec, (C.send none (C.send none codec).2.2).2.1.frames = []

namespace DecoderVideo

/-! ## Taken frames -/

/-- The type of `decode_internal`. -/
abbrev Internal (κ : Type) := Option DataPacket → Proc Fault (DecoderVideo κ) (Option Frame)

variable {internal : Internal κ}

/-- One round of `decode` over `internal`; it notes the frame it took from the queue. -/
def takingRound (C : CodecOps κ) (internal : Internal κ) (data : Option DataPacket) :
    Recorded Fault Frame (DecoderVideo κ) (Option (Option Frame)) := fun d =>
  match internal data d with
  | (.error e, d) => ((.error e, d), [])
  | (.ok frame, d) =>
    ((.ok (roundResult C data frame d).1, (roundResult C data frame d).2), frame.toList)

def takingDecode (C : CodecOps κ) (internal : Internal κ) (data : Option DataPacket) :
    Recorded Fault Frame (DecoderVideo κ) (Option Frame) := do
  match ← takingRound C internal data with
  | some result => return result
  | none =>
    match ← takingRound C internal data with
    | some result => return result
    | none => Recorded.throw .diverged

/-- Without its record, the round. -/
theorem erase_takingRound (data : Option DataPacket) :
    (takingRound C (decodeInternal C) data).erase = decodeRound C data := by
  funext d
  unfold Recorded.erase takingRound
  rcases h : decodeInternal C data d with ⟨e | frame, d'⟩
  · rw [decodeRound_error h]
  · rw [decodeRound_ok h]

/-- Without the notes it is the decoder's `decode`. -/
theorem erase_takingDecode (data : Option DataPacket) :
    (takingDecode C (decodeInternal C) data).erase = decode C data := by
  unfold takingDecode decode
  rw [Recorded.erase_bind, erase_takingRound]
  congr 1
  funext first
  cases first with
  | some result => rfl
  | none =>
    dsimp only
    rw [Recorded.erase_bind, erase_takingRound]
    congr 1
    funext second
    cases second with
    | some result => rfl
    | none => rfl

/-- `internal` appends frames to the queue and returns its front; once it was called without a
packet it appends none. -/
structure AppendsFrames (internal : Internal κ) (Drained : DecoderVideo κ → Prop) : Prop where
  appends : ∀ data d, ∃ frames, (internal data d).1 = .ok (d.queue ++ frames).head? ∧
    (internal data d).2.queue = (d.queue ++ frames).tail
  prevFrame : ∀ data d, (internal data d).2.prevFrame = d.prevFrame
  drained : ∀ d, Drained (internal none d).2
  remember : ∀ d prev, Drained d → Drained { d with prevFrame := prev }
  empty : ∀ d, Drained d → (internal none d).1 = .ok d.queue.head?

/-! ## The calls -/

/-- A decoder with the frames taken from its queue and the frames it returned. -/
structure Decoding (κ : Type) where
  decoder : DecoderVideo κ
  taken : List Frame
  returned : List Frame
  /-- it was called without a packet -/
  draining : Bool

/-- The calls of `decode` after a flush: with packets, then without. -/
def decoding (C : CodecOps κ) (internal : Internal κ) (time : TimestampFF) (d : DecoderVideo κ) :
    Machine (Decoding κ) (Option DataPacket) where
  init := ⟨d.flush C time, [], [], false⟩
  step s data :=
    if s.draining ∧ data ≠ none then none
    else
      let r := takingDecode C internal data s.decoder
      some ⟨r.1.2, s.taken ++ r.2, s.returned ++ (r.1.1.toOption.bind id).toList,
        s.draining || data.isNone⟩

/-- The frame lasts until the next one, which is later. -/
def LastsUntil (f g : Frame) : Prop := f.duration = g.ts - f.ts ∧ 0 < f.duration

/-- The frames returned and the one remembered are the running maxima of the frames taken, each
lasts until the next, and none is remembered only before the first was taken or after the last was
returned. -/
structure Timeline (Drained : DecoderVideo κ → Prop) (taken returned : List Frame)
    (d : DecoderVideo κ) : Prop where
  maxima : (returned ++ d.prevFrame.toList).map Frame.ts = strictMaxima (taken.map Frame.ts)
  chain : (returned ++ d.prevFrame.toList).IsChain LastsUntil
  fresh : d.prevFrame = none → taken = [] ∨ (Drained d ∧ d.queue = [])

/-! ## Rounds -/

section Rounds

variable {Drained : DecoderVideo κ → Prop} {taken returned : List Frame} {d : DecoderVideo κ}

/-- Before the first frame was taken, nothing was returned. -/
theorem Timeline.returned_eq_nil (h : Timeline Drained [] returned d) : returned = [] := by
  have hmaxima := h.maxima
  simp only [List.map_nil, strictMaxima_nil, List.map_eq_nil_iff, List.append_eq_nil_iff] at hmaxima
  exact hmaxima.1

/-- Fields that the timeline does not read. -/
theorem Timeline.congr {d' : DecoderVideo κ} (h : Timeline Drained taken returned d)
    (hprev : d'.prevFrame = d.prevFrame)
    (hfresh : d'.prevFrame = none → taken = [] ∨ (Drained d' ∧ d'.queue = [])) :
    Timeline Drained taken returned d' := by
  refine ⟨?_, ?_, hfresh⟩
  · rw [hprev]
    exact h.maxima
  · rw [hprev]
    exact h.chain

/-- The first frame is remembered. -/
theorem Timeline.first (h : Timeline Drained [] returned d) (frame : Frame) :
    Timeline Drained [frame] returned { d with prevFrame := some frame } := by
  obtain rfl := h.returned_eq_nil
  exact ⟨by simp [strictMaxima, strictMaximaAfter], .singleton _, nofun⟩

/-- The remembered frame is the last of the maxima. -/
theorem Timeline.getLast? (h : Timeline Drained taken returned d) {prev : Frame}
    (hprev : d.prevFrame = some prev) :
    prev.ts ∈ (strictMaxima (taken.map Frame.ts)).getLast? := by
  rw [← h.maxima, hprev]
  simp

/-- A frame that is not later than the remembered one is dropped. -/
theorem Timeline.drop (h : Timeline Drained taken returned d) {prev frame : Frame}
    (hprev : d.prevFrame = some prev) (hle : frame.ts ≤ prev.ts) :
    Timeline Drained (taken ++ [frame]) returned d := by
  refine ⟨?_, h.chain, ?_⟩
  · have htaken : (taken ++ [frame]).map Frame.ts = taken.map Frame.ts ++ [frame.ts] := by simp
    rw [htaken, strictMaxima_concat_of_getLast? (h.getLast? hprev), if_neg (not_lt.mpr hle),
      List.append_nil]
    exact h.maxima
  · rw [hprev]
    nofun

/-- The duration of the last frame does not count. -/
theorem isChain_withDuration {frames : List Frame} {last : Frame}
    (h : (frames ++ (some last).toList).IsChain LastsUntil) (duration : TimeFF) :
    (frames ++ [{ last with duration := duration }]).IsChain LastsUntil := by
  rw [List.isChain_append] at h ⊢
  refine ⟨h.1, .singleton _, ?_⟩
  intro f hf g hg
  obtain rfl : { last with duration := duration } = g := by simpa using hg
  exact h.2.2 f hf last (by simp)

/-- A later frame takes the place of the remembered one, which is returned and lasts until then. -/
theorem Timeline.replace (h : Timeline Drained taken returned d) {prev frame : Frame}
    (hprev : d.prevFrame = some prev) (hlt : prev.ts < frame.ts) :
    Timeline Drained (taken ++ [frame])
      (returned ++ [{ prev with duration := frame.ts - prev.ts }])
      { d with prevFrame := some frame } := by
  refine ⟨?_, ?_, nofun⟩
  · have htaken : (taken ++ [frame]).map Frame.ts = taken.map Frame.ts ++ [frame.ts] := by simp
    rw [htaken, strictMaxima_concat_of_getLast? (h.getLast? hprev), if_pos hlt, ← h.maxima, hprev]
    simp
  · have hreturned := isChain_withDuration (hprev ▸ h.chain) (frame.ts - prev.ts)
    rw [List.isChain_append]
    refine ⟨hreturned, .singleton _, ?_⟩
    intro f hf g hg
    rw [List.getLast?_concat] at hf
    obtain rfl := Option.some.inj hf
    obtain rfl : frame = g := by simpa using hg
    exact ⟨rfl, Int.sub_pos_of_lt hlt⟩

/-- At the end of the drain the remembered frame is returned. -/
theorem Timeline.finish (h : Timeline Drained taken returned d) {prev : Frame}
    (hprev : d.prevFrame = some prev) (duration : TimeFF)
    (hdrained : Drained { d with prevFrame := none }) (hqueue : d.queue = []) :
    Timeline Drained taken (returned ++ [{ prev with duration := duration }])
      { d with prevFrame := none } := by
  refine ⟨?_, ?_, fun _ => .inr ⟨hdrained, hqueue⟩⟩
  · rw [← h.maxima, hprev]
    simp
  · rw [Option.toList_none, List.append_nil]
    exact isChain_withDuration (hprev ▸ h.chain) duration

/-- A round that finds the queue empty returns the remembered frame when there is no packet. -/
theorem timeline_roundResult_none (hinternal : AppendsFrames internal Drained)
    (h : Timeline Drained taken returned d) {data : Option DataPacket} (hqueue : d.queue = [])
    (hdata : d.prevFrame = none → taken = [] ∨ data = none) (hdrained : data = none → Drained d) :
    Timeline Drained taken
        (returned ++ ((roundResult C data none d).1.bind id).toList) (roundResult C data none d).2 ∧
      (data = none → Drained (roundResult C data none d).2) ∧
      ((roundResult C data none d).2.prevFrame = none → taken = [] ∨ data = none) ∧
      (roundResult C data none d).1.isSome := by
  cases hprev : d.prevFrame with
  | none =>
    simp only [roundResult, hprev]
    refine ⟨?_, hdrained, fun _ => hdata hprev, by simp⟩
    simpa using h
  | some prev =>
    simp only [roundResult, hprev]
    cases data with
    | some packet =>
      refine ⟨?_, by simp, fun hnone => ?_, by simp⟩
      · simpa using h
      · rw [if_pos (Option.isSome_some), hprev] at hnone
        cases hnone
    | none =>
      refine ⟨?_, fun _ => hinternal.remember d none (hdrained rfl), fun _ => .inr rfl, by simp⟩
      have hfinish := h.finish hprev (avRescale avSecond C.fps.2 C.fps.1)
        (hinternal.remember d none (hdrained rfl)) hqueue
      simpa using hfinish

/-- A round that takes a frame remembers it or drops it. -/
theorem timeline_roundResult_some (hinternal : AppendsFrames internal Drained)
    (h : Timeline Drained taken returned d) {data : Option DataPacket} (frame : Frame)
    (hfirst : d.prevFrame = none → taken = []) (hdrained : data = none → Drained d) :
    Timeline Drained (taken ++ [frame])
        (returned ++ ((roundResult C data (some frame) d).1.bind id).toList)
        (roundResult C data (some frame) d).2 ∧
      (data = none → Drained (roundResult C data (some frame) d).2) ∧
      (roundResult C data (some frame) d).2.prevFrame ≠ none ∧
      ((roundResult C data (some frame) d).1 = none → data = none ∧ d.prevFrame = none) := by
  cases hprev : d.prevFrame with
  | none =>
    obtain rfl := hfirst hprev
    simp only [roundResult, hprev]
    cases data with
    | some packet =>
      refine ⟨?_, by simp, by simp, by simp⟩
      simpa using h.first frame
    | none =>
      refine ⟨?_, fun _ => hinternal.remember d _ (hdrained rfl), by simp, by simp⟩
      simpa using h.first frame
  | some prev =>
    simp only [roundResult, hprev]
    split
    · rename_i hle
      refine ⟨?_, hdrained, by simp [hprev], by simp⟩
      simpa using h.drop hprev hle
    · rename_i hlt
      refine ⟨?_, fun hnone => hinternal.remember d _ (hdrained hnone), by simp, by simp⟩
      simpa using h.replace hprev (not_le.mp hlt)

/-- One round of `decode`; it does not end only when it takes the first frame of a drain. -/
theorem timeline_round (hinternal : AppendsFrames internal Drained)
    (h : Timeline Drained taken returned d) {data : Option DataPacket}
    (hdata : d.prevFrame = none → taken = [] ∨ data = none) :
    ∃ out d' new, takingRound C internal data d = ((.ok out, d'), new) ∧
      Timeline Drained (taken ++ new) (returned ++ (out.bind id).toList) d' ∧
      (data = none → Drained d') ∧ (d'.prevFrame = none → taken ++ new = [] ∨ data = none) ∧
      (out = none → data = none ∧ d.prevFrame = none ∧ d'.prevFrame ≠ none) := by
  obtain ⟨frames, hresult, hqueue⟩ := hinternal.appends data d
  have hkept := hinternal.prevFrame data d
  rcases hcall : internal data d with ⟨result, d₁⟩
  rw [hcall] at hresult hqueue hkept
  dsimp only at hresult hqueue hkept
  have hround : takingRound C internal data d =
      ((.ok (roundResult C data (d.queue ++ frames).head? d₁).1,
        (roundResult C data (d.queue ++ frames).head? d₁).2),
        (d.queue ++ frames).head?.toList) := by
    unfold takingRound
    rw [hcall, hresult]
  have hdrained : data = none → Drained d₁ := by
    rintro rfl
    have := hinternal.drained d
    rwa [hcall] at this
  refine ⟨_, _, _, hround, ?_⟩
  cases hhead : (d.queue ++ frames).head? with
  | none =>
    have hnil : d.queue ++ frames = [] := List.head?_eq_none_iff.mp hhead
    have hqueue₁ : d₁.queue = [] := by rw [hqueue, hnil, List.tail_nil]
    have hdata₁ : d₁.prevFrame = none → taken = [] ∨ data = none := by
      rw [hkept]
      exact hdata
    have h₁ : Timeline Drained taken returned d₁ := h.congr hkept fun hnone => by
      rcases hdata₁ hnone with htaken | hnone
      · exact .inl htaken
      · exact .inr ⟨hdrained hnone, hqueue₁⟩
    obtain ⟨htimeline, hd', hfresh, hends⟩ :=
      timeline_roundResult_none (C := C) hinternal h₁ hqueue₁ hdata₁ hdrained
    rw [Option.toList_none, List.append_nil]
    refine ⟨htimeline, hd', hfresh, fun hnone => ?_⟩
    rw [hnone] at hends
    cases hends
  | some frame =>
    have hfirst : d.prevFrame = none → taken = [] := by
      intro hprev
      rcases h.fresh hprev with htaken | ⟨hd, hnil⟩
      · exact htaken
      · rcases hdata hprev with htaken | rfl
        · exact htaken
        · -- nothing comes after the drain
          have hempty := hinternal.empty d hd
          rw [hcall, hresult, hhead, hnil] at hempty
          cases hempty
    have h₁ : Timeline Drained taken returned d₁ := h.congr hkept fun hnone =>
      .inl (hfirst (hkept ▸ hnone))
    obtain ⟨htimeline, hd', hremembered, hagain⟩ := timeline_roundResult_some (C := C) hinternal h₁
      frame (fun hnone => hfirst (hkept ▸ hnone)) hdrained
    refine ⟨htimeline, hd', fun hnone => absurd hnone hremembered, fun hnone => ?_⟩
    obtain ⟨hdata, hprev⟩ := hagain hnone
    exact ⟨hdata, hkept ▸ hprev, hremembered⟩

/-- One call of `decode` with packets before it, or with none to come. -/
theorem timeline_decode (hinternal : AppendsFrames internal Drained)
    (h : Timeline Drained taken returned d) {data : Option DataPacket}
    (hdata : d.prevFrame = none → taken = [] ∨ data = none) :
    ∃ out d' new, takingDecode C internal data d = ((.ok out, d'), new) ∧
      Timeline Drained (taken ++ new) (returned ++ out.toList) d' ∧
      (d'.prevFrame = none → taken ++ new = [] ∨ data = none) := by
  obtain ⟨out₁, d₁, new₁, hround₁, h₁, -, hfresh₁, hagain⟩ :=
    timeline_round (C := C) hinternal h hdata
  unfold takingDecode
  rw [Recorded.bind_ok hround₁]
  rcases out₁ with _ | result
  · obtain ⟨-, -, hremembered⟩ := hagain rfl
    have hsecond : d₁.prevFrame = none → taken ++ new₁ = [] ∨ data = none :=
      fun hprev => absurd hprev hremembered
    obtain ⟨out₂, d₂, new₂, hround₂, h₂, -, hfresh₂, hagain₂⟩ :=
      timeline_round (C := C) hinternal h₁ hsecond
    rcases out₂ with _ | result
    · exact absurd (hagain₂ rfl).2.1 hremembered
    · refine ⟨result, d₂, new₁ ++ new₂, ?_, ?_, ?_⟩
      · dsimp only
        rw [Recorded.bind_ok hround₂]
        simp
      · simpa using h₂
      · simpa using hfresh₂
  · refine ⟨result, d₁, new₁, ?_, ?_, hfresh₁⟩
    · dsimp only
      rw [Recorded.pure_apply, List.append_nil]
    · simpa using h₁

end Rounds

/-! ## Runs -/

section Runs

variable {Drained : DecoderVideo κ → Prop} {time : TimestampFF} {d : DecoderVideo κ}

/-- What holds between the calls: no packet comes after the first call without one. -/
def OnTime (Drained : DecoderVideo κ → Prop) (s : Decoding κ) : Prop :=
  Timeline Drained s.taken s.returned s.decoder ∧
    (s.draining = false → s.decoder.prevFrame = none → s.taken = [])

/-- After every run of packets and drains the decoder's clock is on time. -/
theorem onTime_of_run (hinternal : AppendsFrames internal Drained)
    {tr : List (Decoding κ × Option DataPacket)} {s : Decoding κ}
    (h : (decoding C internal time d).Run tr s) : OnTime Drained s := by
  refine h.invariant (I := OnTime Drained) ⟨⟨rfl, .nil, fun _ => .inl rfl⟩, fun _ _ => rfl⟩ ?_
  rintro s data s' ⟨htimeline, hfresh⟩ hstep
  change (if s.draining ∧ data ≠ none then none else _) = _ at hstep
  split at hstep
  case isTrue => cases hstep
  case isFalse hallowed =>
    have hdata : s.decoder.prevFrame = none → s.taken = [] ∨ data = none := by
      intro hprev
      by_cases hnone : data = none
      · exact .inr hnone
      · have hfeeding : s.draining = false := by simpa [hnone] using hallowed
        exact .inl (hfresh hfeeding hprev)
    obtain ⟨out, d', new, hrun, hafter, hempty⟩ := timeline_decode (C := C) hinternal htimeline hdata
    rw [hrun] at hstep
    cases hstep
    refine ⟨hafter, ?_⟩
    intro hfeeding hprev
    rcases hempty hprev with hnil | hnone
    · exact hnil
    · rw [hnone] at hfeeding
      simp at hfeeding

/-- In any run of calls after a flush, whatever timestamps are queued: the frames returned grow, each
frame returned lasts until the next one or the one still remembered, and these frames are the
running maxima of those taken from the queue. -/
theorem returned_timeline (hinternal : AppendsFrames internal Drained)
    {tr : List (Decoding κ × Option DataPacket)} {s : Decoding κ}
    (h : (decoding C internal time d).Run tr s) :
    s.returned.Pairwise (fun f g => f.ts < g.ts) ∧
    (s.returned ++ s.decoder.prevFrame.toList).IsChain
      (fun f g => f.duration = g.ts - f.ts ∧ 0 < f.duration) ∧
    (s.returned ++ s.decoder.prevFrame.toList).map Frame.ts =
      strictMaxima (s.taken.map Frame.ts) := by
  obtain ⟨htimeline, -⟩ := onTime_of_run hinternal h
  have hgrow : (s.returned ++ s.decoder.prevFrame.toList).Pairwise fun f g => f.ts < g.ts := by
    have hmaxima := strictMaxima_pairwise (s.taken.map Frame.ts)
    rw [← htimeline.maxima, List.pairwise_map] at hmaxima
    exact hmaxima
  exact ⟨(List.pairwise_append.mp hgrow).1, htimeline.chain, htimeline.maxima⟩

end Runs

/-! ## The decoder's own `decode_internal` -/

/-- With a codec that does not fail. -/
theorem decodeInternal_steady (hC : C.Steady) (data : Option DataPacket) (d : DecoderVideo κ) :
    ∃ d₀ : DecoderVideo κ, d₀.queue = d.queue ∧ d₀.prevFrame = d.prevFrame ∧
      d₀.codec = d.codec ∧ ∃ packet, (data = none → packet = none) ∧
        decodeInternal C data d =
          (.ok (({ d₀ with codec := (C.send packet d₀.codec).2.2 } : DecoderVideo κ).enqueueAll C
              (C.send packet d₀.codec).2.1.frames).getNextQueuedFrame.1,
            (({ d₀ with codec := (C.send packet d₀.codec).2.2 } : DecoderVideo κ).enqueueAll C
              (C.send packet d₀.codec).2.1.frames).getNextQueuedFrame.2) := by
  refine ⟨(({ d with canReopenDecoder := false } : DecoderVideo κ).preparePacket data).2, ?_, ?_,
    ?_, (({ d with canReopenDecoder := false } : DecoderVideo κ).preparePacket data).1, ?_, ?_⟩
  · unfold preparePacket
    split
    · rfl
    · dsimp only
      split <;> rfl
  · exact prevFrame_preparePacket data _
  · unfold preparePacket
    split
    · rfl
    · dsimp only
      split <;> rfl
  · rintro rfl
    rfl
  · unfold decodeInternal
    dsimp only
    generalize ({ d with canReopenDecoder := false } : DecoderVideo κ).preparePacket data =
      prepared
    obtain ⟨packet, d₀⟩ := prepared
    have hsends := hC.sends packet d₀.codec
    have hwhole := hC.whole packet d₀.codec
    rcases hsend : C.send packet d₀.codec with ⟨result, received, codec⟩
    rw [hsend] at hsends hwhole
    have hbroken : received.broken = none := hwhole
    rcases hsends with hok | hok
    · cases hok
      simp only [hbroken]
    · cases hok
      simp only [hbroken]

/-- The next frame is the head of the queue, which is left out then. -/
theorem getNextQueuedFrame_eq (d : DecoderVideo κ) :
    d.getNextQueuedFrame = (d.queue.head?, { d with queue := d.queue.tail }) := by
  unfold getNextQueuedFrame
  rcases hqueue : d.queue with _ | ⟨frame, rest⟩
  · cases d
    cases hqueue
    rfl
  · rfl

/-- The law of `returned_timeline` holds of the decoder. -/
theorem appendsFrames_decodeInternal (hC : C.Steady) :
    AppendsFrames (decodeInternal C) fun d => ∃ codec, d.codec = (C.send none codec).2.2 where
  appends data d := by
    obtain ⟨d₀, hqueue, -, -, packet, -, hcall⟩ := decodeInternal_steady hC data d
    rw [hcall, getNextQueuedFrame_eq, queue_stamped]
    exact ⟨_, by rw [← hqueue], by rw [← hqueue]⟩
  prevFrame data d := prevFrame_decodeInternal data d
  drained d := by
    obtain ⟨d₀, -, -, -, packet, hpacket, hcall⟩ := decodeInternal_steady hC none d
    obtain rfl := hpacket rfl
    rw [hcall, getNextQueuedFrame_eq]
    exact ⟨d₀.codec, (enqueueAll_codec _ _).1⟩
  remember _ _ h := h
  empty d h := by
    obtain ⟨codec, hcodec⟩ := h
    obtain ⟨d₀, hqueue, -, hcodec₀, packet, hpacket, hcall⟩ := decodeInternal_steady hC none d
    obtain rfl := hpacket rfl
    rw [hcall, getNextQueuedFrame_eq, queue_stamped, hcodec₀, hcodec, hC.drained codec]
    rw [stamped, List.append_nil, hqueue]

/-! ### A frame that comes twice -/

theorem steady_promptCodec : promptCodec.Steady where
  sends _ _ := .inl rfl
  whole _ _ := rfl
  drained _ := rfl

/-- Pictures at 0, 0, 40 ms and 60 ms, and a drain. -/
def repeatedPackets : List (Option DataPacket) :=
  [some ⟨0, 0, 0, 40000, true, 1⟩, some ⟨0, 0, 0, 40000, false, 1⟩,
    some ⟨0, 40000, 40000, 40000, false, 1⟩, some ⟨0, 60000, 60000, 40000, false, 1⟩, none, none]

/-- Of two pictures of one time the later is skipped. -/
theorem returned_timeline_repeated :
    ∃ s, (decoding promptCodec (decodeInternal promptCodec) 0 (create ())).Run
        ((decoding promptCodec (decodeInternal promptCodec) 0 (create ())).trace
          (decoding promptCodec (decodeInternal promptCodec) 0 (create ())).init
          repeatedPackets) s ∧
      s.returned = [⟨0, 40000⟩, ⟨40000, 20000⟩, ⟨60000, 40000⟩] ∧
      s.returned.Pairwise (fun f g => f.ts < g.ts) ∧
      (s.returned ++ s.decoder.prevFrame.toList).IsChain
        (fun f g => f.duration = g.ts - f.ts ∧ 0 < f.duration) ∧
      (s.returned ++ s.decoder.prevFrame.toList).map Frame.ts =
        strictMaxima (s.taken.map Frame.ts) := by
  obtain ⟨s, -, hrun, hs⟩ := Machine.exists_run_of_exec
    (decoding promptCodec (decodeInternal promptCodec) 0 (create ())) repeatedPackets
    (fun s => s.returned = [⟨0, 40000⟩, ⟨40000, 20000⟩, ⟨60000, 40000⟩]) (by decide +kernel)
  exact ⟨s, hrun, by simpa using hs,
    returned_timeline (appendsFrames_decodeInternal steady_promptCodec) hrun⟩

end DecoderVideo

end Seekira.Model
