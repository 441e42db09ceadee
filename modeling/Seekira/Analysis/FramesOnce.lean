import Seekira.Analysis.StreamPasses
import Seekira.Model.StreamSession

/-!
# Each decoded frame is returned once

Between two seeks the decoder of a stream emits frames and `read_frame` returns
them.  A pass that takes the ready frame returns it and drops it, unless the frame
is later than the position of the stream; then the frame is kept and the next call
returns it again.  So the frames emitted are those returned, followed by the one
that waits, exactly as long as no frame is taken ahead of the position.
-/

set_option autoImplicit false

namespace Seekira.Model

open Library

variable {δ κ : Type} {D : IDemuxer δ} {C : CodecOps κ} {s : StreamId}

namespace StreamReader

/-- The decoded frame that waits for the next pass. -/
def waiting (s : StreamId) (r : StreamReader δ κ) : List Frame :=
  (r.streams s).bufferedData.toList

/-- The position that `read_frame` compares the ready frame with. -/
def thisPosition (s : StreamId) (r : StreamReader δ κ) : TimestampFF :=
  if (r.streams s).position = avNoPtsValue then (r.streams s).seekPosition
  else (r.streams s).position

instance (D : IDemuxer δ) (s : StreamId) (r : StreamReader δ κ) : Decidable (r.Readable D s) :=
  inferInstanceAs (Decidable (_ ∧ _ ∧ _))

/-- The next packet and what the decoder makes of it. -/
def decodeNext (D : IDemuxer δ) (C : CodecOps κ) (s : StreamId) :
    Proc Fault (StreamReader δ κ) (Option Frame) := do
  let pkt ← read D s
  onDecoder s (DecoderVideo.decode C pkt)

/-- The frame that the decoder emits in a pass from `r`. -/
def emittedBy (D : IDemuxer δ) (C : CodecOps κ) (s : StreamId) (r : StreamReader δ κ) :
    Option Frame :=
  if r.Readable D s ∧ (r.streams s).bufferedData = none then
    match (decodeNext D C s r).1 with
    | .ok out => out
    | .error _ => none
  else none

/-- The frame that a pass from `r` returns. -/
def returnedBy (D : IDemuxer δ) (C : CodecOps κ) (s : StreamId) (r : StreamReader δ κ) :
    Option Frame :=
  match (readFramePass D C s r).1 with
  | .ok (some out) => out
  | _ => none

/-- A pass from `r` takes no frame ahead of the position. -/
def TakesInTime (D : IDemuxer δ) (s : StreamId) (r : StreamReader δ κ) : Prop :=
  r.Readable D s → ∀ b ∈ (r.streams s).bufferedData, b.ts ≤ r.thisPosition s

/-! ## One pass -/

/-- What a pass moves: an emitted frame starts to wait, and a returned one waits no longer. -/
def Moves (D : IDemuxer δ) (C : CodecOps κ) (s : StreamId) (r : StreamReader δ κ) : Prop :=
  r.waiting s ++ (r.emittedBy D C s).toList =
    (r.returnedBy D C s).toList ++ (readFramePass D C s r).2.waiting s

theorem waiting_setStream (st : DemuxedStream κ) (r : StreamReader δ κ) :
    (r.setStream s st).waiting s = st.bufferedData.toList := by
  unfold waiting
  rw [streams_setStream]

theorem waiting_setStream_of_ne {i : StreamId} (hi : s ≠ i) (st : DemuxedStream κ)
    (r : StreamReader δ κ) : (r.setStream i st).waiting s = r.waiting s := by
  simp [waiting, setStream, hi]

/-- An update of a stream that leaves its ready frame alone keeps what waits. -/
theorem keeps_waiting_modifyStream {l : List Frame} (i : StreamId)
    {f : DemuxedStream κ → DemuxedStream κ} (hf : ∀ st, (f st).bufferedData = st.bufferedData) :
    Proc.Keeps (fun r => r.waiting s = l)
      (modifyStream i f : Proc Fault (StreamReader δ κ) Unit) := by
  refine Proc.keeps_modify fun r hr => ?_
  by_cases hi : s = i
  · subst hi
    rw [waiting_setStream, hf]
    exact hr
  · rw [waiting_setStream_of_ne hi]
    exact hr

theorem keeps_waiting_onDemuxer {α : Type} {l : List Frame} (p : Proc Fault δ α) :
    Proc.Keeps (fun r => r.waiting s = l) (onDemuxer p : Proc Fault (StreamReader δ κ) α) :=
  fun _ hr => hr

theorem keeps_waiting_onDecoder {α : Type} {l : List Frame} (i : StreamId)
    (p : Proc Fault (DecoderVideo κ) α) :
    Proc.Keeps (fun r => r.waiting s = l) (onDecoder i p : Proc Fault (StreamReader δ κ) α) := by
  intro r hr
  show (r.setStream i { r.streams i with decoder := (p (r.streams i).decoder).2 }).waiting s = l
  by_cases hi : s = i
  · subst hi
    rw [waiting_setStream]
    exact hr
  · rw [waiting_setStream_of_ne hi]
    exact hr

/-- Reading a packet touches no ready frame. -/
theorem keeps_waiting_read {l : List Frame} (i : StreamId) :
    Proc.Keeps (fun r => r.waiting s = l) (read D i : Proc Fault (StreamReader δ κ) _) := by
  apply keeps_read_of
  · exact keeps_waiting_modifyStream i fun _ => rfl
  · intro p
    exact keeps_waiting_modifyStream i fun _ => rfl
  · exact keeps_waiting_onDemuxer _

/-- A pass of another stream touches no ready frame of this one. -/
theorem keeps_waiting_of_ne {l : List Frame} {i : StreamId} (hi : s ≠ i) :
    Proc.Keeps (fun r => r.waiting s = l) (readFramePass D C i) := by
  have hmodify : ∀ f, Proc.Keeps (fun r : StreamReader δ κ => r.waiting s = l)
      (modifyStream i f) := by
    intro f r hr
    exact (waiting_setStream_of_ne hi _ r).trans hr
  exact keeps_readFramePass_of (keeps_waiting_read i) (fun _ => keeps_waiting_onDecoder i _)
    (fun _ => hmodify _) (fun _ => hmodify _) fun _ => hmodify _

/-- What a pass that feeds the decoder emits waits afterwards, also when the pass then fails on a
null packet. -/
theorem waiting_feed {r : StreamReader δ κ} (hb : r.waiting s = []) :
    (feed D C s r).2.waiting s = (match (decodeNext D C s r).1 with
      | .ok out => out.toList
      | .error _ => []) ∧
      ∀ out, (feed D C s r).1 ≠ .ok (some (some out)) := by
  have hread := keeps_waiting_read (D := D) (l := []) s r hb
  unfold feed decodeNext
  rcases hr : read D s r with ⟨e | pkt, r₁⟩ <;> rw [hr] at hread
  · rw [Proc.bind_error hr, Proc.bind_error hr]
    exact ⟨hread, nofun⟩
  rw [Proc.bind_ok hr, Proc.bind_ok hr]
  have hdecode := keeps_waiting_onDecoder s (DecoderVideo.decode C pkt) r₁ hread
  rcases hd : onDecoder s (DecoderVideo.decode C pkt) r₁ with ⟨e | out, r₂⟩ <;> rw [hd] at hdecode
  · rw [Proc.bind_error hd]
    exact ⟨hdecode, nofun⟩
  rw [Proc.bind_ok hd]
  unfold passResult
  rcases out with _ | out <;> rcases pkt with _ | pkt <;>
    simp [modifyStream, Proc.bind_apply, waiting_setStream]

/-- A pass without a frame returns none. -/
theorem returnedBy_of_result {r : StreamReader δ κ}
    (h : ∀ out, (readFramePass D C s r).1 ≠ .ok (some (some out))) : r.returnedBy D C s = none := by
  unfold returnedBy
  rcases hpass : (readFramePass D C s r).1 with e | _ | _ | out
  · rfl
  · rfl
  · rfl
  · exact absurd hpass (h out)

/-- While the frame taken is not ahead of the position, what waited and what is emitted is what is
returned and what waits afterwards. -/
theorem moves_of_inTime {r : StreamReader δ κ} (h : r.TakesInTime D s) : r.Moves D C s := by
  unfold Moves
  by_cases hr : r.Readable D s
  · rcases hb : (r.streams s).bufferedData with _ | b
    · have hwaiting : r.waiting s = [] := by
        unfold waiting
        rw [hb]
        rfl
      obtain ⟨hafter, hnone⟩ := waiting_feed (D := D) (C := C) hwaiting
      rw [← readFramePass_of_empty hr hb] at hafter hnone
      rw [hafter, hwaiting, returnedBy_of_result hnone]
      unfold emittedBy
      rw [if_pos ⟨hr, hb⟩]
      rcases (decodeNext D C s r).1 with e | out <;> rfl
    · have hpass := readFramePass_of_buffered (C := C) hr hb
      have hle : b.ts ≤ r.thisPosition s := h hr b hb
      unfold thisPosition at hle
      unfold emittedBy returnedBy
      rw [if_neg (by simp [hb]), hpass, waiting_setStream]
      unfold takeBuffered waiting
      dsimp only
      rw [if_neg (Int.not_lt.mpr hle), hb]
  · obtain ⟨hsame, hresult⟩ := readFramePass_of_not_readable (C := C) hr
    rw [hsame, returnedBy_of_result (by rcases hresult with h | h <;> simp [h])]
    unfold emittedBy
    rw [if_neg (fun hboth => hr hboth.1)]
    simp

/-- A frame taken ahead of the position is returned and still waits. -/
theorem kept_of_ahead {r : StreamReader δ κ} (h : ¬r.TakesInTime D s) :
    ∃ b, r.emittedBy D C s = none ∧ r.returnedBy D C s = some b ∧ r.waiting s = [b] ∧
      (readFramePass D C s r).2.waiting s = [b] := by
  unfold TakesInTime at h
  simp only [Classical.not_imp, not_forall] at h
  obtain ⟨hr, b, hb, hahead⟩ := h
  have hb : (r.streams s).bufferedData = some b := hb
  have hpass := readFramePass_of_buffered (C := C) hr hb
  refine ⟨b, ?_, ?_, ?_, ?_⟩
  · unfold emittedBy
    rw [if_neg (by simp [hb])]
  · unfold returnedBy
    rw [hpass]
  · unfold waiting
    rw [hb]
    rfl
  · have hlt : r.thisPosition s < b.ts := Int.not_le.mp hahead
    unfold thisPosition at hlt
    rw [hpass, waiting_setStream]
    unfold takeBuffered
    dsimp only
    rw [if_pos hlt]
    rfl

end StreamReader

/-! ## Whole sessions -/

namespace StreamSession

open StreamReader

/-- What `f` says of the passes of stream `s`. -/
def inPass (s : StreamId) (f : StreamReader δ κ → Option Frame)
    (p : StreamSession δ κ × SessionLabel) : Option Frame :=
  if p.2 = .pass ∧ p.1.pc = .reading s then f p.1.streams else none

/-- The frames that the decoder of stream `s` emitted. -/
def emitted (D : IDemuxer δ) (C : CodecOps κ) (s : StreamId)
    (tr : List (StreamSession δ κ × SessionLabel)) : List Frame :=
  tr.filterMap (inPass s (emittedBy D C s))

/-- The frames that the calls of `read_frame` of stream `s` returned. -/
def returned (D : IDemuxer δ) (C : CodecOps κ) (s : StreamId)
    (tr : List (StreamSession δ κ × SessionLabel)) : List Frame :=
  tr.filterMap (inPass s (returnedBy D C s))

/-- The step belongs to a call of `read_frame`. -/
def Reads : SessionLabel → Prop
  | .readFrame _ | .pass => True
  | .requestSeek .. | .doSeek _ => False

/-- When the step is a pass of stream `s`, it takes no frame ahead of the position. -/
def InTime (D : IDemuxer δ) (s : StreamId) (w : StreamSession δ κ) (l : SessionLabel) : Prop :=
  l = .pass → w.pc = .reading s → w.streams.TakesInTime D s

theorem streams_afterCall {α : Type} (next : α → SessionPc)
    (result : Except Fault α × StreamReader δ κ) : (afterCall next result).streams = result.2 := by
  rcases result with ⟨e | a, r⟩
  · cases e <;> rfl
  · rfl

/-- A step that takes a frame ahead of the position returns it and keeps it; every other one moves
the frames on. -/
theorem waiting_step {w w' : StreamSession δ κ} {l : SessionLabel} (hl : Reads l)
    (hs : step D C w l = some w') :
    (InTime D s w l ∧ w.streams.waiting s ++ (inPass s (emittedBy D C s) (w, l)).toList =
        (inPass s (returnedBy D C s) (w, l)).toList ++ w'.streams.waiting s) ∨
      (¬InTime D s w l ∧ ∃ b, inPass s (emittedBy D C s) (w, l) = none ∧
        inPass s (returnedBy D C s) (w, l) = some b ∧ w.streams.waiting s = [b] ∧
        w'.streams.waiting s = [b]) := by
  unfold step at hs
  split at hs
  · -- the call begins
    cases hs
    left
    simp [InTime, inPass]
  · rename_i i hpc
    cases hs
    rw [streams_afterCall]
    by_cases hi : s = i
    · subst hi
      have hpass : ∀ f, inPass s f (w, .pass) = f w.streams := fun f => if_pos ⟨rfl, hpc⟩
      rw [hpass, hpass]
      by_cases htime : w.streams.TakesInTime D s
      · exact .inl ⟨fun _ _ => htime, moves_of_inTime htime⟩
      · exact .inr ⟨fun h => htime (h rfl hpc), kept_of_ahead htime⟩
    · have hpass : ∀ f, inPass s f (w, .pass) = none := by
        intro f
        simp [inPass, hpc, Ne.symm hi]
      rw [hpass, hpass, keeps_waiting_of_ne hi w.streams rfl]
      left
      simp [InTime, hpc, Ne.symm hi]
  · exact hl.elim
  · exact hl.elim
  · cases hs

/-- The frames that waited at first and were emitted since are those returned and the one that
waits, and once a frame was taken ahead of the position they are fewer. -/
theorem waiting_run {r : StreamReader δ κ} {tr : List (StreamSession δ κ × SessionLabel)}
    {w : StreamSession δ κ} (h : (machine D C r).Run tr w) (hl : ∀ p ∈ tr, Reads p.2) :
    ((∀ p ∈ tr, InTime D s p.1 p.2) ∧
        r.waiting s ++ emitted D C s tr = returned D C s tr ++ w.streams.waiting s) ∨
      ((∃ p ∈ tr, ¬InTime D s p.1 p.2) ∧ (r.waiting s ++ emitted D C s tr).length <
        (returned D C s tr ++ w.streams.waiting s).length) := by
  induction h with
  | init =>
    left
    simp [emitted, returned, machine]
  | @step tr w w' l _ hs ih =>
    have ih := ih fun p hp => hl p (List.mem_append_left _ hp)
    have hstep := waiting_step (s := s) (hl (w, l) (by simp)) hs
    unfold emitted returned at ih ⊢
    have hlast (f : StreamSession δ κ × SessionLabel → Option Frame) :
        [(w, l)].filterMap f = (f (w, l)).toList := by
      cases hf : f (w, l) <;> simp [hf]
    rw [List.filterMap_append, List.filterMap_append, hlast, hlast]
    rcases ih with ⟨hall, heq⟩ | ⟨⟨p, hp, hahead⟩, hlt⟩
    · rcases hstep with ⟨htime, hmove⟩ | ⟨hahead, b, hemit, hret, hbefore, hafter⟩
      · left
        refine ⟨?_, ?_⟩
        · intro p hp
          rcases List.mem_append.mp hp with hp | hp
          · exact hall p hp
          · rw [List.mem_singleton.mp hp]
            exact htime
        · rw [← List.append_assoc, heq, List.append_assoc, hmove, List.append_assoc]
      · right
        refine ⟨⟨(w, l), by simp, hahead⟩, ?_⟩
        rw [← List.append_assoc, heq, hemit, hret, hbefore, hafter]
        simp
    · right
      refine ⟨⟨p, List.mem_append_left _ hp, hahead⟩, ?_⟩
      rcases hstep with ⟨-, hmove⟩ | ⟨-, b, hemit, hret, hbefore, hafter⟩
      · have hlen := congrArg List.length hmove
        simp only [List.length_append] at hlen hlt ⊢
        omega
      · rw [hemit, hret, hafter]
        rw [hbefore] at hlt
        simp only [List.length_append, Option.toList_none, Option.toList_some, List.length_nil,
          List.length_singleton] at hlt ⊢
        omega

/-- Between two seeks, with a decoder whose frames ascend: the frames emitted are those returned, each
once and in order, followed by the one that waits, exactly when no pass takes a frame ahead of the
position. -/
theorem returned_once_iff {r : StreamReader δ κ} {tr : List (StreamSession δ κ × SessionLabel)}
    {w : StreamSession δ κ} (h : (machine D C r).Run tr w) (hl : ∀ p ∈ tr, Reads p.2)
    (hascend : (r.waiting s ++ emitted D C s tr).Pairwise fun f g => f.ts < g.ts) :
    (r.waiting s ++ emitted D C s tr = returned D C s tr ++ w.streams.waiting s ∧
        (returned D C s tr).Pairwise fun f g => f.ts < g.ts) ↔
      ∀ p ∈ tr, InTime D s p.1 p.2 := by
  rcases waiting_run (s := s) h hl with ⟨hall, heq⟩ | ⟨⟨p, hp, hahead⟩, hlt⟩
  · refine ⟨fun _ => hall, fun _ => ⟨heq, ?_⟩⟩
    rw [heq] at hascend
    exact (List.pairwise_append.mp hascend).1
  · constructor
    · rintro ⟨heq, -⟩
      rw [heq] at hlt
      exact absurd hlt (Nat.lt_irrefl _)
    · intro hall
      exact absurd (hall p hp) hahead

/-! ### A file without timestamps -/

/-- Two calls of `read_frame`. -/
def readTwice : List SessionLabel :=
  [.readFrame 0, .pass, .pass, .pass, .readFrame 0, .pass, .pass]

/-- Sessions with a file of three packets and a codec without delay. -/
def onceMachine (file : List DataPacket) :
    Machine (StreamSession (DemuxerQueue Unit) (List DataPacket)) SessionLabel :=
  machine (DemuxerQueue.toIDemuxer (fileParser file 120)) (fifoCodec 0 (25, 1))
    (StreamReader.opened (fileParser file 120) file () 0 [])

/-- Two reads of a short file. -/
theorem returned_once_iff_short :
    ∃ w, (onceMachine shortFile).Run ((onceMachine shortFile).trace (onceMachine shortFile).init
        readTwice) w ∧
      ∀ p ∈ (onceMachine shortFile).trace (onceMachine shortFile).init readTwice,
        InTime (DemuxerQueue.toIDemuxer (fileParser shortFile 120)) 0 p.1 p.2 := by
  obtain ⟨w, -, hrun, hw⟩ := Machine.exists_run_of_exec (onceMachine shortFile) readTwice
    (fun w => decide (emitted (DemuxerQueue.toIDemuxer (fileParser shortFile 120))
        (fifoCodec 0 (25, 1)) 0 ((onceMachine shortFile).trace (onceMachine shortFile).init readTwice)
          = [⟨0, 40⟩, ⟨40, 40⟩] ∧
      returned (DemuxerQueue.toIDemuxer (fileParser shortFile 120)) (fifoCodec 0 (25, 1)) 0
        ((onceMachine shortFile).trace (onceMachine shortFile).init readTwice)
          = [⟨0, 40⟩, ⟨40, 40⟩] ∧ w.streams.waiting 0 = [])) (by decide +kernel)
  obtain ⟨hemitted, hreturned, hwaiting⟩ := of_decide_eq_true hw
  have hreads : ∀ p ∈ (onceMachine shortFile).trace (onceMachine shortFile).init readTwice,
      Reads p.2 := by
    intro p hp
    have hall : ∀ l ∈ readTwice, Reads l := by simp [readTwice, Reads]
    exact hall _ (Machine.label_mem_of_trace hp)
  refine ⟨w, hrun, (returned_once_iff hrun hreads ?_).mp ⟨?_, ?_⟩⟩
  · rw [hemitted]
    decide
  · rw [hemitted, hreturned, hwaiting]
    rfl
  · rw [hreturned]
    decide

/-- Three packets without timestamps. -/
def untimedFile : List DataPacket :=
  [⟨0, avNoPtsValue, avNoPtsValue, 40, true, 100⟩, ⟨0, avNoPtsValue, avNoPtsValue, 40, false, 100⟩,
    ⟨0, avNoPtsValue, avNoPtsValue, 40, false, 100⟩]

/-- The frame at 40 is emitted once and comes out twice. -/
theorem returned_twice :
    ¬∀ tr w, (onceMachine untimedFile).Run tr w → (∀ p ∈ tr, Reads p.2) →
      ((emitted (DemuxerQueue.toIDemuxer (fileParser untimedFile 120)) (fifoCodec 0 (25, 1)) 0
        tr).Pairwise fun f g => f.ts < g.ts) →
      (returned (DemuxerQueue.toIDemuxer (fileParser untimedFile 120)) (fifoCodec 0 (25, 1)) 0
        tr).Pairwise fun f g => f.ts < g.ts := by
  intro hall
  obtain ⟨w, -, hrun, hw⟩ := Machine.exists_run_of_exec (onceMachine untimedFile)
    (readTwice ++ [.readFrame 0, .pass]) (fun w => decide
      (emitted (DemuxerQueue.toIDemuxer (fileParser untimedFile 120)) (fifoCodec 0 (25, 1)) 0
        ((onceMachine untimedFile).trace (onceMachine untimedFile).init
          (readTwice ++ [.readFrame 0, .pass])) = [⟨0, 40⟩, ⟨40, 40⟩] ∧
      returned (DemuxerQueue.toIDemuxer (fileParser untimedFile 120)) (fifoCodec 0 (25, 1)) 0
        ((onceMachine untimedFile).trace (onceMachine untimedFile).init
          (readTwice ++ [.readFrame 0, .pass])) = [⟨0, 40⟩, ⟨40, 40⟩, ⟨40, 40⟩])) (by decide +kernel)
  obtain ⟨hemitted, hreturned⟩ := of_decide_eq_true hw
  have hreads : ∀ p ∈ (onceMachine untimedFile).trace (onceMachine untimedFile).init
      (readTwice ++ [.readFrame 0, .pass]), Reads p.2 := by
    intro p hp
    have hlabels : ∀ l ∈ readTwice ++ [.readFrame 0, .pass], Reads l := by simp [readTwice, Reads]
    exact hlabels _ (Machine.label_mem_of_trace hp)
  have hascend := hall _ w hrun hreads (by rw [hemitted]; decide)
  rw [hreturned] at hascend
  exact absurd hascend (by decide)

end StreamSession

end Seekira.Model
