import Seekira.Analysis.StreamPasses
import Seekira.Model.StreamSession

/-!
# The null packet at the end of a stream

`read_frame` sends the null packet on to the decoder, which may answer it with a
frame that it still held, and then asks the null packet whether it is a key frame.
A session crashes in no other way: it goes on exactly as long as every null packet
finds a decoder that stays silent.
-/

set_option autoImplicit false

namespace Seekira.Model

open Library

variable {π κ : Type} {P : ParserOps π} {C : CodecOps κ}

/-! ## A decoder that is drained -/

namespace DecoderVideo

/-- Draining the decoder returns no frame.  With a frame remembered, the codec still delivers one,
and it is not later; with none remembered, the codec delivers nothing, or two frames of which the
second is not later.  An exchange that throws returns nothing either. -/
def SilentOnNull (C : CodecOps κ) (d : DecoderVideo κ) : Prop :=
  match decodeInternal C none d with
  | (.error _, _) => True
  | (.ok none, _) => d.prevFrame = none
  | (.ok (some first), d₁) =>
    match d.prevFrame with
    | some prev => first.ts ≤ prev.ts
    | none =>
      match decodeInternal C none { d₁ with prevFrame := some first } with
      | (.error _, _) => True
      | (.ok none, _) => False
      | (.ok (some second), _) => second.ts ≤ first.ts

/-- The first round of a drain with a frame remembered is the whole call. -/
theorem decode_null_of_prevFrame {d d₁ : DecoderVideo κ} {frame : Option Frame} {prev : Frame}
    (hd : decodeInternal C none d = (.ok frame, d₁)) (hprev : d.prevFrame = some prev) :
    (∃ d', decode C none d = (.ok none, d')) ∧ (∃ f ∈ frame, f.ts ≤ prev.ts) ∨
      (∃ f d', decode C none d = (.ok (some f), d')) ∧ ∀ f ∈ frame, ¬f.ts ≤ prev.ts := by
  have hkept := prevFrame_decodeInternal (C := C) none d
  rw [hd, hprev] at hkept
  dsimp only at hkept
  have hround := decodeRound_ok hd
  unfold roundResult at hround
  rcases frame with _ | f <;> simp only [hkept] at hround
  · exact .inr ⟨⟨_, _, decode_of_round hround⟩, by simp⟩
  · by_cases hle : f.ts ≤ prev.ts
    · rw [if_pos hle] at hround
      exact .inl ⟨⟨_, decode_of_round hround⟩, f, rfl, hle⟩
    · rw [if_neg hle] at hround
      exact .inr ⟨⟨_, _, decode_of_round hround⟩, by simpa using hle⟩

/-- Draining returns no frame exactly when the decoder is silent. -/
theorem silentOnNull_iff (d : DecoderVideo κ) :
    d.SilentOnNull C ↔ ∀ f d', decode C none d ≠ (.ok (some f), d') := by
  unfold SilentOnNull
  rcases hd : decodeInternal C none d with ⟨e | frame, d₁⟩
  · have herror := decode_of_error (decodeRound_error hd)
    simp [herror]
  rcases hprev : d.prevFrame with _ | prev
  · have hkept := prevFrame_decodeInternal (C := C) none d
    rw [hd, hprev] at hkept
    dsimp only at hkept
    have hround := decodeRound_ok hd
    unfold roundResult at hround
    rcases frame with _ | first <;> simp only [hkept] at hround
    · have hnone := decode_of_round hround
      simp [hnone]
    · -- the drain delivered a first frame, so a second exchange follows
      rcases hd₂ : decodeInternal C none { d₁ with prevFrame := some first } with ⟨e | second, d₂⟩ <;>
        dsimp only <;> rw [hd₂]
      · have herror := decode_of_second_error hround (decodeRound_error hd₂)
        simp [herror]
      · have hkept₂ := prevFrame_decodeInternal (C := C) none { d₁ with prevFrame := some first }
        rw [hd₂] at hkept₂
        dsimp only at hkept₂
        have hround₂ := decodeRound_ok hd₂
        unfold roundResult at hround₂
        rcases second with _ | second <;> simp only [hkept₂] at hround₂
        · have hsome := decode_of_two_rounds hround hround₂
          simp [hsome]
        · by_cases hle : second.ts ≤ first.ts
          · rw [if_pos hle] at hround₂
            have hnone := decode_of_two_rounds hround hround₂
            simp [hnone, hle]
          · rw [if_neg hle] at hround₂
            have hsome := decode_of_two_rounds hround hround₂
            simp [hsome, hle]
  · rcases decode_null_of_prevFrame hd hprev with ⟨⟨d', hnone⟩, f, hf, hle⟩ | ⟨⟨f, d', hsome⟩, hgt⟩
    · rw [Option.mem_def.mp hf]
      simp [hnone, hle]
    · rcases frame with _ | f'
      · simp [hsome]
      · simp [hsome, hgt f' rfl]

/-! ## Faults of the calls below `read_frame` -/

/-- `decode_internal` follows no null pointer. -/
theorem avoids_decodeInternal (data : Option DataPacket) :
    Proc.Avoids .nullDeref (decodeInternal C data) := by
  intro d h
  unfold decodeInternal at h
  dsimp only at h
  split at h
  · cases h
  · cases h
  · split at h <;> cases h

theorem avoids_decodeRound (data : Option DataPacket) :
    Proc.Avoids .nullDeref (decodeRound C data) := by
  unfold decodeRound
  apply Proc.avoids_bind (avoids_decodeInternal data)
  intro frame
  apply Proc.avoids_bind Proc.avoids_get
  intro d
  split
  · exact Proc.avoids_bind (Proc.avoids_modify _) fun _ => Proc.avoids_pure _
  · apply Proc.avoids_ite (fun _ => Proc.avoids_pure _)
    intro _
    exact Proc.avoids_bind (Proc.avoids_modify _) fun _ => Proc.avoids_pure _
  · exact Proc.avoids_pure _
  · apply Proc.avoids_ite (fun _ => Proc.avoids_pure _)
    intro _
    exact Proc.avoids_bind (Proc.avoids_modify _) fun _ => Proc.avoids_pure _

theorem avoids_decode (data : Option DataPacket) : Proc.Avoids .nullDeref (decode C data) := by
  unfold decode
  apply Proc.avoids_bind (avoids_decodeRound data)
  intro out
  split
  · exact Proc.avoids_pure _
  · apply Proc.avoids_bind (avoids_decodeRound data)
    intro out
    split
    · exact Proc.avoids_pure _
    · exact Proc.avoids_throw (by simp)

end DecoderVideo

namespace DemuxerQueue

theorem avoids_read (s : StreamId) : Proc.Avoids .nullDeref (read P s) := by
  intro d h
  unfold read at h
  split at h
  · cases h
  · dsimp only at h
    split at h <;> cases h

theorem avoids_seekInternal (time : TimestampFF) :
    Proc.Avoids .nullDeref (seekInternal P time) := by
  intro d h
  unfold seekInternal at h
  dsimp only at h
  split at h
  · cases h
  · split at h
    · cases h
    · split at h
      · split at h
        · split at h <;> cases h
        · cases h
      · cases h

theorem avoids_seekLoop (fuel : Nat) (time : TimestampFF) (step : TimeFF) :
    Proc.Avoids .nullDeref (seekLoop P fuel time step) := by
  induction fuel generalizing time step with
  | zero => exact Proc.avoids_throw (by simp)
  | succ fuel ih =>
    unfold seekLoop
    apply Proc.avoids_ite (fun _ => Proc.avoids_pure _)
    intro _
    apply Proc.avoids_bind (avoids_seekInternal time)
    intro res
    exact Proc.avoids_ite (fun _ => Proc.avoids_pure _) fun _ => ih _ _

theorem avoids_seek (time : TimestampFF) : Proc.Avoids .nullDeref (seek P time) :=
  Proc.avoids_bind (Proc.avoids_modify _) fun _ => avoids_seekLoop _ _ _

end DemuxerQueue

namespace StreamReader

variable {δ : Type} {D : IDemuxer δ}

theorem avoids_modifyStream (s : StreamId) (f : DemuxedStream κ → DemuxedStream κ) :
    Proc.Avoids .nullDeref (modifyStream s f : Proc Fault (StreamReader δ κ) Unit) :=
  Proc.avoids_modify _

theorem avoids_modifyInfo (s : StreamId) (f : StreamInfo → StreamInfo) :
    Proc.Avoids .nullDeref (modifyInfo s f : Proc Fault (StreamReader δ κ) Unit) :=
  Proc.avoids_modify _

theorem avoids_requestSeek (s : StreamId) (time : TimestampFF) (resultChecker : Option StreamId) :
    Proc.Avoids .nullDeref
      (requestSeek D C s time resultChecker : Proc Fault (StreamReader δ κ) Unit) := by
  unfold requestSeek
  apply Proc.avoids_bind Proc.avoids_get
  intro r
  apply Proc.avoids_guard (by simp)
  apply Proc.avoids_bind (avoids_modifyStream _ _)
  intro _
  apply Proc.avoids_guard (by simp)
  apply Proc.avoids_bind (avoids_modifyStream _ _)
  intro _
  dsimp only
  split
  · exact Proc.avoids_bind (avoids_modifyInfo _ _) fun _ => avoids_modifyInfo _ _
  · exact avoids_modifyInfo _ _

theorem avoids_seekResultLoop (hread : ∀ s, Proc.Avoids .nullDeref (D.read s)) (s : StreamId)
    (fuel : Nat) :
    Proc.Avoids .nullDeref (seekResultLoop D s fuel : Proc Fault (StreamReader δ κ) Unit) := by
  induction fuel with
  | zero => exact Proc.avoids_throw (by simp)
  | succ fuel ih =>
    unfold seekResultLoop
    apply Proc.avoids_bind (Proc.avoids_zoom (hread s))
    intro packet
    apply Proc.avoids_bind (avoids_modifyStream _ _)
    intro _
    apply Proc.avoids_bind Proc.avoids_get
    intro r
    split
    · exact Proc.avoids_pure _
    · exact Proc.avoids_ite (fun _ => Proc.avoids_pure _) fun _ => ih

theorem avoids_getSeekResult (hread : ∀ s, Proc.Avoids .nullDeref (D.read s)) (s : StreamId) :
    Proc.Avoids .nullDeref (getSeekResult D s : Proc Fault (StreamReader δ κ) Bool) := by
  unfold getSeekResult
  apply Proc.avoids_bind Proc.avoids_get
  intro r
  apply Proc.avoids_bind (avoids_seekResultLoop hread s _)
  intro _
  apply Proc.avoids_bind Proc.avoids_get
  intro r
  split
  · exact Proc.avoids_bind (avoids_modifyStream _ _) fun _ => Proc.avoids_pure _
  · exact Proc.avoids_bind (avoids_modifyStream _ _) fun _ => Proc.avoids_pure _

theorem avoids_checkResults (hread : ∀ s, Proc.Avoids .nullDeref (D.read s))
    (seekTime : TimestampFF) (checkers : List StreamId) :
    Proc.Avoids .nullDeref
      (checkResults D seekTime checkers : Proc Fault (StreamReader δ κ) Bool) := by
  induction checkers with
  | nil => exact Proc.avoids_pure _
  | cons checker rest ih =>
    unfold checkResults
    apply Proc.avoids_bind (avoids_getSeekResult hread checker)
    intro res
    apply Proc.avoids_ite (fun _ => ih)
    intro _
    apply Proc.avoids_ite (fun _ => Proc.avoids_pure _)
    intro _
    exact Proc.avoids_bind ih fun _ => Proc.avoids_pure _

theorem avoids_seekResults (hread : ∀ s, Proc.Avoids .nullDeref (D.read s))
    (seekPos : TimestampFF) (indices : List StreamId) :
    Proc.Avoids .nullDeref
      (seekResults D seekPos indices : Proc Fault (StreamReader δ κ) Bool) := by
  induction indices with
  | nil => exact Proc.avoids_pure _
  | cons i rest ih =>
    have hinfo : Proc.Avoids .nullDeref
        (infoSeekResult D seekPos i : Proc Fault (StreamReader δ κ) Bool) :=
      Proc.avoids_bind (avoids_modifyInfo _ _) fun _ =>
        Proc.avoids_bind Proc.avoids_get fun _ => avoids_checkResults hread _ _
    unfold seekResults
    apply Proc.avoids_bind hinfo
    intro res
    apply Proc.avoids_ite (fun _ => ih)
    intro _
    apply Proc.avoids_ite (fun _ => Proc.avoids_pure _)
    intro _
    exact Proc.avoids_bind ih fun _ => Proc.avoids_pure _

theorem avoids_seekLoop (hread : ∀ s, Proc.Avoids .nullDeref (D.read s))
    (hseek : ∀ time, Proc.Avoids .nullDeref (D.seek time)) (startSeekPos : TimestampFF)
    (fuel : Nat) (seekPos : TimestampFF) (seekTimeshift : TimeFF) :
    Proc.Avoids .nullDeref
      (seekLoop D startSeekPos fuel seekPos seekTimeshift :
        Proc Fault (StreamReader δ κ) Unit) := by
  induction fuel generalizing seekPos seekTimeshift with
  | zero => exact Proc.avoids_throw (by simp)
  | succ fuel ih =>
    unfold seekLoop
    apply Proc.avoids_ite (fun _ => Proc.avoids_pure _)
    intro _
    apply Proc.avoids_bind (Proc.avoids_zoom (hseek _))
    intro demuxerPos
    apply Proc.avoids_bind Proc.avoids_get
    intro r
    apply Proc.avoids_bind (avoids_seekResults hread _ _)
    intro result
    exact Proc.avoids_ite (fun _ => Proc.avoids_pure _) fun _ => ih _ _

/-- The only failure is that of a stream that requested nothing. -/
theorem minSeekPosition_error {infos : StreamId → StreamInfo} {indices : List StreamId}
    {seekPos : TimestampFF} {e : Fault} (h : minSeekPosition infos indices seekPos = .error e) :
    e = .thrown "Unexpected seek" := by
  induction indices generalizing seekPos with
  | nil => cases h
  | cons i rest ih =>
    unfold minSeekPosition at h
    split at h
    · exact ih h
    · split at h
      · cases h
        rfl
      · split at h
        · exact ih h
        · exact ih h

theorem avoids_seek (hread : ∀ s, Proc.Avoids .nullDeref (D.read s))
    (hseek : ∀ time, Proc.Avoids .nullDeref (D.seek time)) (s : StreamId) :
    Proc.Avoids .nullDeref (seek D s : Proc Fault (StreamReader δ κ) Unit) := by
  unfold seek
  apply Proc.avoids_bind Proc.avoids_get
  intro r
  apply Proc.avoids_guard (by simp)
  apply Proc.avoids_ite (fun _ => avoids_modifyInfo _ _)
  intro _
  split
  · rename_i e herr
    rw [minSeekPosition_error herr]
    exact Proc.avoids_throw (by simp)
  · apply Proc.avoids_bind (avoids_seekLoop hread hseek _ _ _ _)
    intro _
    exact Proc.avoids_bind (Proc.avoids_modify _) fun _ => avoids_modifyInfo _ _

theorem avoids_doSeek (hread : ∀ s, Proc.Avoids .nullDeref (D.read s))
    (hseek : ∀ time, Proc.Avoids .nullDeref (D.seek time)) (s : StreamId) :
    Proc.Avoids .nullDeref (doSeek D s : Proc Fault (StreamReader δ κ) Unit) := by
  unfold doSeek
  apply Proc.avoids_bind Proc.avoids_get
  intro r
  apply Proc.avoids_guard (by simp)
  exact Proc.avoids_bind (avoids_seek hread hseek s) fun _ => avoids_modifyStream _ _

/-! ## The crash of a pass -/

/-- The pass gets a null packet: it uses its stream, no frame is ready, and the packet kept by the
last seek is gone and the demuxer returns none. -/
def ReceivesNull (D : IDemuxer δ) (s : StreamId) (r : StreamReader δ κ) : Prop :=
  r.Readable D s ∧ (r.streams s).bufferedData = none ∧ (r.streams s).bufferedPacket = none ∧
    (D.read s r.demuxer).1 = .ok none

/-- After a packet was read, the feeding pass crashes when it was null and a frame came out. -/
theorem feed_crashes_iff {s : StreamId} {r r₁ : StreamReader δ κ} {pkt : Option DataPacket}
    (hread : read D s r = (.ok pkt, r₁)) :
    (feed D C s r).1 = .error .nullDeref ↔
      pkt = none ∧ ∃ f d, DecoderVideo.decode C pkt (r₁.streams s).decoder = (.ok (some f), d) := by
  unfold feed
  rw [Proc.bind_ok hread]
  have havoid := DecoderVideo.avoids_decode (C := C) pkt (r₁.streams s).decoder
  rcases hdec : DecoderVideo.decode C pkt (r₁.streams s).decoder with ⟨e | frame, d⟩
  · rw [hdec] at havoid
    rw [Proc.bind_error (e := e) (by rw [onDecoder, Proc.zoom_apply, hdec])]
    constructor
    · intro h
      dsimp only at h
      cases h
      exact absurd rfl havoid
    · rintro ⟨-, f, d', h⟩
      cases h
  · rw [Proc.bind_ok (a := frame) (by rw [onDecoder, Proc.zoom_apply, hdec])]
    unfold passResult
    rcases frame with _ | f <;> rcases pkt with _ | p <;> simp [modifyStream, Proc.bind_apply]

/-- A pass crashes exactly when it gets a null packet and the decoder returns a frame for it. -/
theorem readFramePass_crashes_iff (hread : ∀ s, Proc.Avoids .nullDeref (D.read s))
    (s : StreamId) (r : StreamReader δ κ) :
    (readFramePass D C s r).1 = .error .nullDeref ↔
      r.ReceivesNull D s ∧ ¬(r.streams s).decoder.SilentOnNull C := by
  have hsilent : ¬(r.streams s).decoder.SilentOnNull C ↔
      ∃ f d, DecoderVideo.decode C none (r.streams s).decoder = (.ok (some f), d) := by
    rw [DecoderVideo.silentOnNull_iff]
    simp
  by_cases hr : r.Readable D s
  · rcases hb : (r.streams s).bufferedData with _ | b
    · rw [readFramePass_of_empty hr hb]
      obtain ⟨hterm, hreader, -⟩ := id hr
      rcases hp : (r.streams s).bufferedPacket with _ | p
      · have hdem := read_of_demuxer (D := D) hreader hterm hp
        rcases hd : D.read s r.demuxer with ⟨e | pkt, d⟩ <;> rw [hd] at hdem
        · have herr : feed D C s r = (.error e, { r with demuxer := d }) := by
            unfold feed
            rw [Proc.bind_error hdem]
          have hne := hread s r.demuxer
          rw [hd] at hne
          rw [herr]
          simpa [ReceivesNull, hd] using hne
        · rw [feed_crashes_iff hdem, streams_setStream, decoder_received, hsilent]
          rcases pkt with _ | p <;> simp [ReceivesNull, hr, hb, hp, hd]
      · rw [feed_crashes_iff (read_of_bufferedPacket hreader hterm hp)]
        simp [ReceivesNull, hp]
    · rw [readFramePass_of_buffered hr hb]
      simp [ReceivesNull, hb]
  · obtain ⟨-, hres | hres⟩ := readFramePass_of_not_readable (C := C) hr <;> rw [hres] <;>
      simp [ReceivesNull, hr]

end StreamReader

/-! ## Sessions -/

namespace StreamSession

open StreamReader

/-- When the step is a pass of `read_frame` that gets a null packet, the decoder is silent. -/
def NullMeetsSilence (P : ParserOps π) (C : CodecOps κ) (w : StreamSession (DemuxerQueue π) κ)
    (l : SessionLabel) : Prop :=
  ∀ s, l = .pass → w.pc = .reading s →
    w.streams.ReceivesNull (DemuxerQueue.toIDemuxer P) s →
    (w.streams.streams s).decoder.SilentOnNull C

/-- A session has crashed exactly when its call followed a null pointer. -/
theorem crashed_afterCall_iff {δ α : Type} (next : α → SessionPc) (hnext : ∀ a, next a ≠ .crashed)
    (result : Except Fault α × StreamReader δ κ) :
    (afterCall next result).pc = .crashed ↔ result.1 = .error .nullDeref := by
  rcases result with ⟨e | a, r⟩
  · cases e <;> simp [afterCall]
  · simpa [afterCall] using hnext a

/-- A step crashes exactly when it is a pass whose null packet meets a decoder that answers. -/
theorem crashed_step_iff {w w' : StreamSession (DemuxerQueue π) κ} {l : SessionLabel}
    (hs : StreamSession.step (DemuxerQueue.toIDemuxer P) C w l = some w') :
    w'.pc = .crashed ↔ ¬NullMeetsSilence P C w l := by
  have hread : ∀ s, Proc.Avoids .nullDeref ((DemuxerQueue.toIDemuxer P).read s) :=
    DemuxerQueue.avoids_read
  have hseek : ∀ time, Proc.Avoids .nullDeref ((DemuxerQueue.toIDemuxer P).seek time) :=
    DemuxerQueue.avoids_seek
  unfold StreamSession.step at hs
  split at hs
  · cases hs
    simp [NullMeetsSilence]
  · rename_i s hpc
    cases hs
    rw [crashed_afterCall_iff _ (by intro a; split <;> simp), readFramePass_crashes_iff hread]
    simp [NullMeetsSilence, hpc]
  · cases hs
    rw [crashed_afterCall_iff _ (by simp)]
    simp [NullMeetsSilence, avoids_requestSeek _ _ _ w.streams]
  · cases hs
    rw [crashed_afterCall_iff _ (by simp)]
    simp [NullMeetsSilence, avoids_doSeek hread hseek _ w.streams]
  · cases hs

/-- In every session, `read_frame` dereferences no null packet exactly when every null packet it
gets finds a silent decoder. -/
theorem never_crashes_iff {r : StreamReader (DemuxerQueue π) κ}
    {tr : List (StreamSession (DemuxerQueue π) κ × SessionLabel)}
    {w : StreamSession (DemuxerQueue π) κ}
    (h : (machine (DemuxerQueue.toIDemuxer P) C r).Run tr w) :
    w.pc ≠ .crashed ↔ ∀ p ∈ tr, NullMeetsSilence P C p.1 p.2 := by
  refine h.iff_guard (I := fun _ => True) (P := fun w => w.pc ≠ .crashed) (G := fun _ _ => True)
    trivial ?_ ?_ ?_ ?_ fun _ _ => trivial
  · rintro ⟨⟩
  · intro w l w' _ _ _ hc hs
    refine ⟨trivial, fun hcrash => ?_⟩
    exact (crashed_step_iff hs).mp hcrash hc
  · intro w l w' _ _ _ hc hs hn
    exact hn ((crashed_step_iff hs).mpr hc)
  · intro w l w' _ hcrash _ hs
    rw [Classical.not_not] at hcrash
    have hnone : StreamSession.step (DemuxerQueue.toIDemuxer P) C w l = some w' := hs
    unfold StreamSession.step at hnone
    simp [hcrash] at hnone

/-! ### The short file is read to its end -/

/-- Sessions with the short file and a codec without delay. -/
def shortSession : Machine (StreamSession (DemuxerQueue Unit) (List DataPacket)) SessionLabel :=
  machine (DemuxerQueue.toIDemuxer (fileParser shortFile 120)) (fifoCodec 0 (25, 1)) shortStreams

/-- Two calls of `read_frame`. -/
def readTwo : List SessionLabel :=
  [.readFrame 0, .pass, .pass, .pass, .readFrame 0, .pass, .pass]

/-- A third one, whose first pass gets the null packet. -/
def readThree : List SessionLabel := readTwo ++ [.readFrame 0, .pass]

/-- Two reads of a short file. -/
theorem never_crashes_iff_short :
    ∃ w, shortSession.Run (shortSession.trace shortSession.init readTwo) w ∧
      (w.pc ≠ .crashed ↔ ∀ p ∈ shortSession.trace shortSession.init readTwo,
        NullMeetsSilence (fileParser shortFile 120) (fifoCodec 0 (25, 1)) p.1 p.2) ∧
      w.pc = .idle := by
  obtain ⟨w, -, hrun, hw⟩ := Machine.exists_run_of_exec shortSession readTwo
    (fun w => w.pc = .idle) (by decide +kernel)
  exact ⟨w, hrun, never_crashes_iff hrun, of_decide_eq_true hw⟩

/-- The last frame comes out for the null packet. -/
theorem crashes_at_end :
    ¬∀ (tr : List (StreamSession (DemuxerQueue Unit) (List DataPacket) × SessionLabel)) w,
      shortSession.Run tr w → w.pc ≠ .crashed := by
  intro hall
  obtain ⟨w, -, hrun, hw⟩ := Machine.exists_run_of_exec shortSession readThree
    (fun w => w.pc = .crashed) (by decide +kernel)
  exact hall _ w hrun (of_decide_eq_true hw)

end StreamSession

end Seekira.Model
