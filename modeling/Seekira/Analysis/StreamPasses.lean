import Mathlib.Logic.Relation
import Seekira.Analysis.DecoderRounds
import Seekira.Model.DemuxedStream

/-!
# What a pass of `read_frame` does

A pass ends the call, returns the buffered frame, or feeds the decoder one packet.
The lemmas separate these cases, follow the stream's fields through a feeding pass,
and lift what every pass keeps to a whole call of `read_frame`.
-/

set_option autoImplicit false

namespace Seekira.Model.StreamReader

open Library

variable {δ κ : Type} {D : IDemuxer δ} {C : CodecOps κ}

@[simp] theorem streams_setStream (s : StreamId) (st : DemuxedStream κ) (r : StreamReader δ κ) :
    (r.setStream s st).streams s = st := by
  simp [setStream]

@[simp] theorem demuxer_setStream (s : StreamId) (st : DemuxedStream κ) (r : StreamReader δ κ) :
    (r.setStream s st).demuxer = r.demuxer := rfl

@[simp] theorem infos_setStream (s : StreamId) (st : DemuxedStream κ) (r : StreamReader δ κ) :
    (r.setStream s st).infos = r.infos := rfl

@[simp] theorem streamCount_setStream (s : StreamId) (st : DemuxedStream κ)
    (r : StreamReader δ κ) : (r.setStream s st).streamCount = r.streamCount := rfl

@[simp] theorem setStream_setStream (s : StreamId) (st st' : DemuxedStream κ)
    (r : StreamReader δ κ) : (r.setStream s st).setStream s st' = r.setStream s st' := by
  simp [setStream]

@[simp] theorem decoder_takeBuffered (b : Frame) (st : DemuxedStream κ) :
    (takeBuffered b st).decoder = st.decoder := rfl

/-- The frame that waits stays or is taken. -/
theorem bufferedData_takeBuffered (b : Frame) (st : DemuxedStream κ) :
    (takeBuffered b st).bufferedData = some b ∨ (takeBuffered b st).bufferedData = none := by
  unfold takeBuffered
  dsimp only
  generalize (if st.position = avNoPtsValue then st.seekPosition else st.position) = position
  split
  · exact .inl rfl
  · exact .inr rfl

/-! ## The feeding part of a pass -/

/-- The part of a pass that reads a packet and decodes it. -/
def feed (D : IDemuxer δ) (C : CodecOps κ) (s : StreamId) :
    Proc Fault (StreamReader δ κ) (Option (Option Frame)) := do
  let pkt ← read D s
  let frame ← onDecoder s (DecoderVideo.decode C pkt)
  passResult s pkt frame

/-- The tests that a pass makes before it uses its stream all let it go on. -/
def Readable (D : IDemuxer δ) (s : StreamId) (r : StreamReader δ κ) : Prop :=
  (r.streams s).terminated = false ∧ (r.streams s).hasReader = true ∧
    (r.streams s).seekPosition < D.streamDuration s

/-- A pass returns the frame that waits. -/
theorem readFramePass_of_buffered {s : StreamId} {r : StreamReader δ κ} {b : Frame}
    (hr : r.Readable D s) (hb : (r.streams s).bufferedData = some b) :
    readFramePass D C s r =
      (.ok (some (some b)), r.setStream s (takeBuffered b (r.streams s))) := by
  obtain ⟨hterm, hreader, hpos⟩ := hr
  unfold readFramePass
  simp [hterm, hreader, hb, Int.not_le.mpr hpos, modifyStream]

/-- A pass without a frame that waits feeds the decoder. -/
theorem readFramePass_of_empty {s : StreamId} {r : StreamReader δ κ}
    (hr : r.Readable D s) (hb : (r.streams s).bufferedData = none) :
    readFramePass D C s r = feed D C s r := by
  obtain ⟨hterm, hreader, hpos⟩ := hr
  unfold readFramePass feed
  simp [hterm, hreader, hb, Int.not_le.mpr hpos]

/-- A pass that does not use its stream leaves everything as it was and returns no frame. -/
theorem readFramePass_of_not_readable {s : StreamId} {r : StreamReader δ κ}
    (hr : ¬r.Readable D s) :
    (readFramePass D C s r).2 = r ∧
      ((readFramePass D C s r).1 = .ok (some none) ∨
        (readFramePass D C s r).1 = .error (.thrown "Reader is NULL")) := by
  unfold Readable at hr
  unfold readFramePass
  rcases hterm : (r.streams s).terminated with _ | _
  · rcases hreader : (r.streams s).hasReader with _ | _
    · simp [hterm, hreader]
    · have hpos : (r.streams s).seekPosition ≥ D.streamDuration s := by
        by_contra hlt
        exact hr ⟨hterm, hreader, Int.not_le.mp hlt⟩
      simp [hterm, hreader, hpos]
  · simp [hterm]

/-! ## Reading a packet -/

/-- The stream after `read` returned. -/
def received (data : Option DataPacket) (st : DemuxedStream κ) : DemuxedStream κ :=
  match data with
  | some p => countPacket p st
  | none => st

@[simp] theorem decoder_received (data : Option DataPacket) (st : DemuxedStream κ) :
    (received data st).decoder = st.decoder := by
  cases data <;> rfl

@[simp] theorem bufferedData_received (data : Option DataPacket) (st : DemuxedStream κ) :
    (received data st).bufferedData = st.bufferedData := by
  cases data <;> rfl

/-- A packet kept by the last seek is returned first. -/
theorem read_of_bufferedPacket {s : StreamId} {r : StreamReader δ κ} {p : DataPacket}
    (hreader : (r.streams s).hasReader = true) (hterm : (r.streams s).terminated = false)
    (hp : (r.streams s).bufferedPacket = some p) :
    read D s r =
      (.ok (some p), r.setStream s (received (some p) { r.streams s with bufferedPacket := none })) := by
  unfold read readPacket
  simp [hreader, hterm, hp, modifyStream, Proc.bind_apply, received]

/-- Otherwise the demuxer is asked. -/
theorem read_of_demuxer {s : StreamId} {r : StreamReader δ κ}
    (hreader : (r.streams s).hasReader = true) (hterm : (r.streams s).terminated = false)
    (hp : (r.streams s).bufferedPacket = none) :
    read D s r =
      ((D.read s r.demuxer).1,
        match (D.read s r.demuxer).1 with
        | .ok data =>
          { r with demuxer := (D.read s r.demuxer).2 }.setStream s (received data (r.streams s))
        | .error _ => { r with demuxer := (D.read s r.demuxer).2 }) := by
  unfold read readPacket
  rcases hd : D.read s r.demuxer with ⟨_ | _ | p, d⟩ <;>
    simp [hreader, hterm, hp, hd, modifyStream, onDemuxer, Proc.bind_apply, received, setStream]

/-- Reading a packet leaves the decoder and the buffered frame of the stream alone. -/
theorem frames_read {s : StreamId} {r r' : StreamReader δ κ} {data : Option DataPacket}
    (h : read D s r = (.ok data, r')) :
    (r'.streams s).decoder = (r.streams s).decoder ∧
      (r'.streams s).bufferedData = (r.streams s).bufferedData := by
  by_cases hreader : (r.streams s).hasReader = true
  · rcases hterm : (r.streams s).terminated with _ | _
    · rcases hp : (r.streams s).bufferedPacket with _ | p
      · rw [read_of_demuxer hreader hterm hp] at h
        rcases hd : D.read s r.demuxer with ⟨e | data', d⟩ <;> rw [hd] at h <;> cases h
        simp
      · rw [read_of_bufferedPacket hreader hterm hp] at h
        cases h
        simp
    · unfold read at h
      simp [hreader, hterm] at h
      simp [← h.2]
  · unfold read at h
    simp [hreader] at h

/-! ## Inverting a feeding pass -/

/-- A feeding pass that returned read a packet and decoded it before it looked at the frame. -/
theorem feed_parts {s : StreamId} {r r' : StreamReader δ κ} {out : Option (Option Frame)}
    (h : feed D C s r = (.ok out, r')) :
    ∃ pkt r₁ frame d, read D s r = (.ok pkt, r₁) ∧
      DecoderVideo.decode C pkt (r₁.streams s).decoder = (.ok frame, d) ∧
      passResult s pkt frame (r₁.setStream s { r₁.streams s with decoder := d }) = (.ok out, r') := by
  unfold feed at h
  obtain ⟨pkt, r₁, hread, h⟩ := Proc.bind_inv h
  obtain ⟨frame, r₂, hdec, h⟩ := Proc.bind_inv h
  rcases hd : DecoderVideo.decode C pkt (r₁.streams s).decoder with ⟨e | frame', d⟩
  · simp [onDecoder, hd] at hdec
  · simp only [onDecoder, Proc.zoom_apply, hd, Prod.mk.injEq, Except.ok.injEq] at hdec
    obtain ⟨rfl, rfl⟩ := hdec
    exact ⟨pkt, r₁, frame', d, hread, hd, h⟩

/-- A feeding pass reads a packet, decodes it and stores the frame. -/
theorem feed_inv {s : StreamId} {r r' : StreamReader δ κ} {out : Option (Option Frame)}
    (h : feed D C s r = (.ok out, r')) :
    ∃ pkt r₁ frame d, read D s r = (.ok pkt, r₁) ∧
      DecoderVideo.decode C pkt (r₁.streams s).decoder = (.ok frame, d) ∧
      (pkt.isSome ∨ frame = none) ∧ (out = none ∨ out = some none) ∧
      (r'.streams s).decoder = d ∧ (r'.streams s).bufferedData = frame := by
  obtain ⟨pkt, r₁, frame, d, hread, hd, h⟩ := feed_parts h
  refine ⟨pkt, r₁, frame, d, hread, hd, ?_⟩
  unfold passResult at h
  rcases frame with _ | f <;> rcases pkt with _ | p <;>
    simp [modifyStream, Proc.bind_apply] at h <;> obtain ⟨rfl, rfl⟩ := h <;> simp

/-! ## What every pass keeps is kept by the call -/

/-- Passes of `read_frame` that went on lead from one state to the other. -/
def PassesTo (D : IDemuxer δ) (C : CodecOps κ) (s : StreamId) :
    StreamReader δ κ → StreamReader δ κ → Prop :=
  Relation.ReflTransGen fun r r' => readFramePass D C s r = (.ok none, r')

/-- A call of `read_frame` that returned is a sequence of passes that went on and one that did
not. -/
theorem readFrame_passes {s : StreamId} {r r' : StreamReader δ κ} {out : Option Frame}
    (h : readFrame D C s r = (.ok out, r')) :
    ∃ r₁, PassesTo D C s r r₁ ∧ readFramePass D C s r₁ = (.ok (some out), r') := by
  unfold readFrame at h
  rw [Proc.get_bind_apply] at h
  generalize D.remaining r.demuxer + 3 = fuel at h
  induction fuel generalizing r with
  | zero => cases h
  | succ fuel ih =>
    unfold readFrameLoop at h
    obtain ⟨res, r₁, h₁, h⟩ := Proc.bind_inv h
    rcases res with _ | out₁
    · obtain ⟨r₂, hpasses, hlast⟩ := ih h
      exact ⟨r₂, Relation.ReflTransGen.head h₁ hpasses, hlast⟩
    · cases h
      exact ⟨r, Relation.ReflTransGen.refl, h₁⟩

/-- What every pass keeps holds before the last one. -/
theorem readFrame_induction {s : StreamId} {I : StreamReader δ κ → Prop}
    (hpass : ∀ r r' out, I r → readFramePass D C s r = (.ok out, r') → I r')
    {r r' : StreamReader δ κ} {out : Option Frame} (hI : I r)
    (h : readFrame D C s r = (.ok out, r')) :
    ∃ r₁, I r₁ ∧ readFramePass D C s r₁ = (.ok (some out), r') := by
  obtain ⟨r₁, hpasses, hlast⟩ := readFrame_passes h
  refine ⟨r₁, ?_, hlast⟩
  clear hlast
  induction hpasses with
  | refl => exact hI
  | tail _ hstep ih => exact hpass _ _ none ih hstep

/-! ## What the parts of a pass keep is kept by the pass -/

variable {I : StreamReader δ κ → Prop}

/-- A read keeps an invariant that its parts keep. -/
theorem keeps_read_of {i : StreamId}
    (hclear : Proc.Keeps I (modifyStream i fun st => { st with bufferedPacket := none }))
    (hcount : ∀ p, Proc.Keeps I (modifyStream i (countPacket p)))
    (hdemuxer : Proc.Keeps I (onDemuxer (D.read i))) : Proc.Keeps I (read D i) := by
  have hpacket : Proc.Keeps I (readPacket D i) := by
    unfold readPacket
    refine Proc.keeps_bind Proc.keeps_get fun r => ?_
    split
    · exact Proc.keeps_bind hclear fun _ => Proc.keeps_pure _
    · exact hdemuxer
  unfold read
  refine Proc.keeps_bind Proc.keeps_get fun r => ?_
  refine Proc.keeps_ite (fun _ => Proc.keeps_bind (Proc.keeps_throw _) fun _ => ?_) fun _ => ?_
  all_goals
    refine Proc.keeps_ite (fun _ => Proc.keeps_pure _) fun _ => ?_
    refine Proc.keeps_bind hpacket fun data => ?_
    split
    · exact Proc.keeps_bind (hcount _) fun _ => Proc.keeps_pure _
    · exact Proc.keeps_pure _

/-- A pass keeps an invariant that its parts keep. -/
theorem keeps_readFramePass_of {i : StreamId} (hread : Proc.Keeps I (read D i))
    (hdecode : ∀ pkt, Proc.Keeps I (onDecoder i (DecoderVideo.decode C pkt)))
    (htake : ∀ b, Proc.Keeps I (modifyStream i (takeBuffered b)))
    (hstore : ∀ frame, Proc.Keeps I (modifyStream i fun st => { st with bufferedData := frame }))
    (hkey : ∀ p : DataPacket,
      Proc.Keeps I (modifyStream i fun st => { st with lastKeyFrame := p.isKeyFrame })) :
    Proc.Keeps I (readFramePass D C i) := by
  have hresult : ∀ pkt frame, Proc.Keeps I (passResult i pkt frame) := by
    intro pkt frame
    unfold passResult
    refine Proc.keeps_bind (hstore _) fun _ => ?_
    split
    · exact Proc.keeps_bind (hkey _) fun _ => Proc.keeps_pure _
    · exact Proc.keeps_throw _
    · exact Proc.keeps_pure _
    · exact Proc.keeps_pure _
  unfold readFramePass
  refine Proc.keeps_bind Proc.keeps_get fun r => ?_
  refine Proc.keeps_ite (fun _ => Proc.keeps_pure _) fun _ => ?_
  refine Proc.keeps_ite (fun _ => Proc.keeps_bind (Proc.keeps_throw _) fun _ => ?_) fun _ => ?_
  all_goals
    refine Proc.keeps_ite (fun _ => Proc.keeps_pure _) fun _ => ?_
    split
    · exact Proc.keeps_bind (htake _) fun _ => Proc.keeps_pure _
    · refine Proc.keeps_bind hread fun pkt => ?_
      exact Proc.keeps_bind (hdecode pkt) fun frame => hresult pkt frame

end Seekira.Model.StreamReader
