import Seekira.Analysis.FrameDurations
import Seekira.Analysis.SetPositionExits

/-!
# Stepping back by one frame

`step_backward` seeks by the duration of the frame that was read before the current
one.  After sequential reading that is the frame it wants to go back to.  A change of
the position that lands on its frame directly leaves the duration of a frame from
somewhere else; if this one is longer than the frame before the current one, the step
goes too far.
-/

set_option autoImplicit false

namespace Seekira.Model

open Library

namespace FrameTrack

variable {l : List DataPacket} {pos : TimestampFF}

/-- The next frame starts where the one before ends. -/
theorem next_pts (h : FrameTrack l) {before after : List DataPacket} {prev current : DataPacket}
    (hl : l = before ++ prev :: current :: after) : current.pts = prev.pts + prev.duration := by
  have hchain := h.adjacent
  rw [hl, List.isChain_append] at hchain
  exact (List.isChain_cons_cons.mp hchain.2.1).1

/-- A position before a frame lies in one of the earlier frames. -/
theorem exists_covers_before (h : FrameTrack l) {before after : List DataPacket}
    {current : DataPacket} (hl : l = before ++ current :: after) (hpos : 0 ≤ pos)
    (hlt : pos < current.pts) :
    ∃ front target rest, before = front ++ target :: rest ∧ target.Covers pos := by
  induction before using List.reverseRecOn generalizing current after with
  | nil =>
    obtain ⟨first, hfirst, hzero, -⟩ := h.first
    rw [hl] at hfirst
    obtain rfl : current = first := by simpa using hfirst
    lia
  | append_singleton before prev ih =>
    have hsplit : l = before ++ prev :: current :: after := by
      rw [hl, List.append_assoc]
      rfl
    by_cases hcovers : prev.pts ≤ pos
    · refine ⟨before, prev, [], rfl, hcovers, ?_⟩
      rw [← h.next_pts hsplit]
      exact hlt
    · obtain ⟨front, target, rest, hbefore, htarget⟩ := ih hsplit (Int.not_le.mp hcovers)
      exact ⟨front, target, rest ++ [prev], by rw [hbefore]; simp, htarget⟩

end FrameTrack

namespace ReaderFF

variable {π κ : Type} {P : ParserOps π} {C : CodecOps κ} {delay : Nat}
  {holds : List DataPacket → κ → Prop} {drained : κ → Prop} {s : StreamId}

/-- The position that `step_backward` seeks to. -/
def backPosition (r : ReaderFF (DemuxerQueue π) κ) (f : Frame) : TimestampFF :=
  max (f.ts - r.prevDuration) 0

/-- `step_backward_impl` returns, and the last frame that it has read is the one at `ts`; it has
sent this frame, and only this one, to the frame observers. -/
def StepsBack (D : IDemuxer (DemuxerQueue π)) (C : CodecOps κ) (s : StreamId) (ts : TimestampFF)
    (r : ReaderFF (DemuxerQueue π) κ) : Prop :=
  ∃ r', stepBackwardImpl D C r = (.ok (), r') ∧ r.framesRead s < r'.framesRead s ∧
    ∃ f ∈ r'.lastValidFrame, f.ts = ts ∧
      r'.sentFrames = r.sentFrames ++ r.frameObservers.handlers.map fun h => (h, f)

/-- The reader while `step_backward_impl` changes the position. -/
def forcing (r : ReaderFF (DemuxerQueue π) κ) : ReaderFF (DemuxerQueue π) κ :=
  { r with needHandleAfterForceSetPos := true }

theorem setPositionImpl_clamp (D : IDemuxer (DemuxerQueue π)) (pos : TimestampFF) :
    setPositionImpl D C pos = setPositionImpl D C (max pos 0) := by
  have hclamped : ¬max pos 0 < 0 := Int.not_lt.mpr (le_max_right pos 0)
  unfold setPositionImpl
  rw [clamp_eq_max, if_neg hclamped]

/-- A paused reader that has read a frame changes its position. -/
theorem stepBackwardImpl_eq {D : IDemuxer (DemuxerQueue π)} {r : ReaderFF (DemuxerQueue π) κ}
    {f : Frame} (hpaused : r.continueReading = false) (hlast : r.lastValidFrame = some f) :
    stepBackwardImpl D C r =
      (setPositionImpl D C (r.backPosition f) >>= fun _ =>
        Proc.modify fun r => { r with needHandleAfterForceSetPos := false }) r.forcing := by
  have hlast' : r.forcing.lastValidFrame = some f := hlast
  have hposition : getPosition r.forcing = (.ok f.ts, r.forcing) := by
    unfold getPosition
    rw [Proc.get_bind_apply, hlast']
    rfl
  unfold stepBackwardImpl forceHandle
  rw [Proc.get_bind_apply, hpaused, if_neg Bool.false_ne_true, Proc.modify_bind_apply]
  refine Proc.bind_eq_of_eq ?_
  show (getPosition >>= fun position => setPositionImpl D C (position - r.prevDuration)) r.forcing = _
  rw [Proc.bind_ok hposition, setPositionImpl_clamp]
  rfl

/-- The frame that it ends with is the one that the change of the position ends with. -/
theorem StepsBack.setsPosition {D : IDemuxer (DemuxerQueue π)} {ts : TimestampFF}
    {r : ReaderFF (DemuxerQueue π) κ} {f : Frame} (hpaused : r.continueReading = false)
    (hlast : r.lastValidFrame = some f) (h : StepsBack D C s ts r) :
    SetsPosition D C s (r.backPosition f) ts r.forcing := by
  obtain ⟨r', hok, hlt, g, hg, hts, -⟩ := h
  rw [stepBackwardImpl_eq hpaused hlast] at hok
  obtain ⟨_, r₁, hset, hok⟩ := Proc.bind_inv hok
  cases hok
  exact ⟨r₁, hset, hlt, g, hg, hts⟩

/-- A step back shows the frame that the position lies in. -/
theorem stepsBack_of_delivered {D : IDemuxer (DemuxerQueue π)} {ts : TimestampFF}
    {r r' : ReaderFF (DemuxerQueue π) κ} {f : Frame} (hpaused : r.continueReading = false)
    (hlast : r.lastValidFrame = some f)
    (hset : setPositionImpl D C (r.backPosition f) r.forcing = (.ok (), r'))
    (h : Delivered s ts r.forcing.disableObservers r') : StepsBack D C s ts r := by
  obtain ⟨hlt, g, hg, hts, hsent⟩ := h
  refine ⟨{ r' with needHandleAfterForceSetPos := false }, ?_, hlt, g, hg, hts, ?_⟩
  · rw [stepBackwardImpl_eq hpaused hlast, Proc.bind_ok hset]
    rfl
  · rw [← r.frameObservers.enable_disable_handlers.2]
    exact hsent rfl

/-- A seek by a duration that is not longer than the frame before lands in that frame. -/
theorem covers_backPosition {l before after : List DataPacket} {prev current : DataPacket}
    (hl : FrameTrack l) (hsplit : l = before ++ prev :: current :: after)
    {r : ReaderFF (DemuxerQueue π) κ} {f : Frame} (hf : f.ts = current.pts)
    (hprev : 0 < r.prevDuration) (hle : before = [] ∨ r.prevDuration ≤ prev.duration) :
    prev.Covers (r.backPosition f) := by
  have hnext := hl.next_pts hsplit
  have hlasts := hl.duration prev (by simp [hsplit])
  have hpts := hl.pts_nonneg prev (by simp [hsplit])
  unfold backPosition
  rw [hf]
  rcases hle with rfl | hle
  · obtain ⟨first, hfirst, hzero, -⟩ := hl.first
    rw [hsplit] at hfirst
    obtain rfl : prev = first := by simpa using hfirst
    exact ⟨by lia, by lia⟩
  · exact ⟨by lia, by lia⟩

/-- One by a longer duration lands before it, unless it is the first. -/
theorem backPosition_lt {l before after : List DataPacket} {prev current : DataPacket}
    (hl : FrameTrack l) (hsplit : l = before ++ prev :: current :: after)
    {r : ReaderFF (DemuxerQueue π) κ} {f : Frame} (hf : f.ts = current.pts)
    (hne : before ≠ []) (hlt : prev.duration < r.prevDuration) : r.backPosition f < prev.pts := by
  obtain ⟨q, hq⟩ := List.exists_mem_of_ne_nil before hne
  have hend := (hl.around hsplit).1 q hq
  have hlasts := hl.duration q (by simp [hsplit, hq])
  have hpts := hl.pts_nonneg q (by simp [hsplit, hq])
  have hnext := hl.next_pts hsplit
  unfold backPosition
  rw [hf]
  lia

/-- A change to a position before a frame does not end with the frame. -/
theorem not_setsPosition_of_lt (hC : C.InOrder delay holds drained) {pos : TimestampFF}
    {l before after : List DataPacket} {target : DataPacket} (hP : DemuxerQueue.Seekable P s l)
    (hl : FrameTrack l)
    (hdur : ∀ last ∈ l.getLast?, P.streamDuration s = last.pts + last.duration)
    (hsplit : l = before ++ target :: after) (hpos : 0 ≤ pos) (hlt : pos < target.pts)
    (hland : DemuxerQueue.LandsOnLastKey P s l pos ∨ Fits before)
    {r : ReaderFF (DemuxerQueue π) κ} (h : r.Plays P s) (hread : r.lastValidFrame.isSome)
    (hstate : r.state ≠ .error) :
    ¬SetsPosition (DemuxerQueue.toIDemuxer P) C s pos target.pts r := by
  rintro ⟨r', hok, hcount, g, hg, hts⟩
  obtain ⟨front, covering, rest, hbefore, hcovers⟩ := hl.exists_covers_before hsplit hpos hlt
  have hsplit' : l = front ++ covering :: (rest ++ target :: after) := by
    rw [hsplit, hbefore, List.append_assoc]
    rfl
  have hland' : DemuxerQueue.LandsOnLastKey P s l pos ∨ Fits front := by
    refine hland.imp_right fun hfits => ?_
    have hplain : ∀ p ∈ before, p.Plain := fun p hp => hl.plain p (by simp [hsplit, hp])
    rw [hbefore] at hfits hplain
    exact (hfits.of_append hplain).1
  obtain ⟨-, _, _, _, _, x, _, -, -, hx, -, -, g', hg', hx'⟩ := h.setPositionImpl_inv hC hP hl hdur
    hsplit' hcovers hland' hread hstate hok hcount
  obtain rfl : g = g' := by
    rw [hg'] at hg
    exact (Option.some.inj hg).symm
  -- the frame read last starts at or before the position
  have hle := hx.1
  lia

/-- While the reader is paused and remembers a positive duration, `step_backward_impl` delivers the
frame before the last one read exactly when the reader may go on, more than `delay` packets follow
that frame, the remembered duration does not exceed the frame's, unless it is the first, and the
duration of the key packet places the frame at the position that is sought. -/
theorem stepsBack_iff (hC : C.InOrder delay holds drained) {l before after : List DataPacket}
    {prev current : DataPacket} (hP : DemuxerQueue.Seekable P s l) (hl : FrameTrack l)
    (hdur : ∀ last ∈ l.getLast?, P.streamDuration s = last.pts + last.duration)
    (hsplit : l = before ++ prev :: current :: after) {r : ReaderFF (DemuxerQueue π) κ}
    (h : r.Plays P s) {f : Frame} (hlast : r.lastValidFrame = some f) (hf : f.ts = current.pts)
    (hpaused : r.continueReading = false) (hstate : r.state ≠ .error) (hprev : 0 < r.prevDuration)
    (hland : DemuxerQueue.LandsOnLastKey P s l (r.backPosition f) ∨ Fits before) :
    StepsBack (DemuxerQueue.toIDemuxer P) C s prev.pts r ↔
      r.needBreakReading = false ∧ delay < (current :: after).length ∧
        (before = [] ∨ r.prevDuration ≤ prev.duration) ∧
        PlacedAt before prev (r.backPosition f) := by
  have hplays : r.forcing.Plays P s := ⟨h.stream, h.streams⟩
  have hread : r.forcing.lastValidFrame.isSome := Option.isSome_iff_exists.mpr ⟨f, hlast⟩
  constructor
  · intro hback
    have hset := hback.setsPosition hpaused hlast
    by_cases hle : before = [] ∨ r.prevDuration ≤ prev.duration
    · obtain ⟨hgoes, hlen, hplaced⟩ := (setsPosition_iff hC hP hl hdur hsplit
        (covers_backPosition hl hsplit hf hprev hle) hland hplays hread hstate).mp hset
      exact ⟨hgoes, hlen, hle, hplaced⟩
    · obtain ⟨hne, hlt⟩ := not_or.mp hle
      have hearly := backPosition_lt hl hsplit hf hne (Int.not_le.mp hlt)
      exact absurd hset (not_setsPosition_of_lt hC hP hl hdur hsplit (le_max_right _ _) hearly hland
        hplays hread hstate)
  · rintro ⟨hgoes, hlen, hle, hplaced⟩
    obtain ⟨r', hok, hdelivered⟩ := hplays.setPositionImpl_delivers hC hP hl hdur hsplit
      (covers_backPosition hl hsplit hf hprev hle) hland hread hstate hgoes hlen hplaced
    exact stepsBack_of_delivered hpaused hlast hok hdelivered

end ReaderFF

namespace ReaderWorker

open ReaderFF

/-- In every paused state that the worker and the posters reach with the worker in its loop, the
last frame read being that of `current`: `step_backward_impl` delivers the frame before it exactly
when the reader may go on, more than `delay` packets follow that frame, the duration of the frame
that was read before the last one does not exceed that frame's, unless it is the first of the file,
and the duration of the last key packet before it places the frame at the position that is
sought. -/
theorem steps_back_iff {π κ : Type} {P : ParserOps π} {C : CodecOps κ} {delay : Nat}
    {holds : List DataPacket → κ → Prop} {drained : κ → Prop}
    (hC : C.InOrder delay holds drained) {s : StreamId} {l before after : List DataPacket}
    {prev current : DataPacket} (hP : DemuxerQueue.Seekable P s l) (hl : FrameTrack l)
    (hdur : ∀ last ∈ l.getLast?, P.streamDuration s = last.pts + last.duration)
    (hsplit : l = before ++ prev :: current :: after) {ahead : List DataPacket}
    (hahead : DemuxerQueue.ofStream s ahead = l) {internal : π} {codec : κ}
    (hcodec : holds [] codec) {mode : ReaderMode} {frameObservers readerObservers : List Nat}
    {w : ReaderWorker (DemuxerQueue π) κ}
    (hw : (machine (DemuxerQueue.toIDemuxer P) C
      (ReaderFF.opened (StreamReader.opened P ahead internal s codec) (some s) mode frameObservers
        readerObservers)).Reachable w)
    (hloop : w.InLoop) {f : Frame} (hlast : w.reader.lastValidFrame = some f)
    (hf : f.ts = current.pts) (hpaused : w.reader.continueReading = false)
    (hstate : w.reader.state ≠ .error)
    (hland : DemuxerQueue.LandsOnLastKey P s l (w.reader.backPosition f) ∨ Fits before) :
    StepsBack (DemuxerQueue.toIDemuxer P) C s prev.pts w.reader ↔
      w.reader.needBreakReading = false ∧ delay < (current :: after).length ∧
        (before = [] ∨ w.reader.prevDuration ≤ prev.duration) ∧
        PlacedAt before prev (w.reader.backPosition f) := by
  have hduration : 0 < P.streamDuration s := by
    obtain ⟨last, hmem⟩ : ∃ last, last ∈ l.getLast? :=
      ⟨_, List.getLast?_eq_some_getLast (by simp [hsplit])⟩
    have hpts := hl.pts_nonneg last (List.mem_of_getLast? hmem)
    have hlasts := hl.duration last (List.mem_of_getLast? hmem)
    rw [hdur last hmem]
    lia
  have hlater : f.ts ≠ 0 := by
    have hnext := hl.next_pts hsplit
    have hpts := hl.pts_nonneg prev (by simp [hsplit])
    have hlasts := hl.duration prev (by simp [hsplit])
    lia
  have hprev := prevDuration_pos hC hP.lt hP.video hl hduration hahead hcodec hw hloop hlast hlater
  exact stepsBack_iff hC hP hl hdur hsplit (plays_of_reachable hP.video hw hloop) hlast hf hpaused
    hstate hprev hland

/-- A file that starts with a long frame; the third is a key frame. -/
def longStartFile : List DataPacket :=
  [⟨0, 0, 0, 100, true, 100⟩, ⟨0, 100, 100, 40, false, 100⟩, ⟨0, 140, 140, 40, true, 100⟩,
    ⟨0, 180, 180, 40, false, 100⟩, ⟨0, 220, 220, 40, false, 100⟩]

def longStartMachine : Machine (ReaderWorker (DemuxerQueue Unit) (List DataPacket)) ReaderLabel :=
  machine (DemuxerQueue.toIDemuxer (fileParser longStartFile 260)) (fifoCodec 0 (25, 1))
    (ReaderFF.opened (StreamReader.opened (fileParser longStartFile 260) longStartFile () 0 [])
      (some 0) .all [1] [1])

/-- The first frame is read, then the event is handled and the worker pauses. -/
def stepAnd (event : ReaderEvent) : List ReaderLabel :=
  [.post .stepForward, .notify, .work, .work, .work, .post event, .notify, .work, .work, .work,
    .work, .work]

theorem longStartFile_track : FrameTrack longStartFile :=
  ⟨⟨_, rfl, rfl, rfl⟩, by decide, by decide, by decide⟩

/-- Two steps forward read the first two frames. -/
theorem exists_stepForward_twice :
    ∃ w, longStartMachine.Reachable w ∧ w.InLoop ∧
      w.reader.lastValidFrame = some ⟨100, 40⟩ ∧ w.reader.prevDuration = 100 ∧
      w.reader.continueReading = false ∧ w.reader.state = .paused ∧
      w.reader.needBreakReading = false := by
  obtain ⟨w, -, hrun, hw⟩ := Machine.exists_run_of_exec longStartMachine (stepAnd .stepForward)
    (fun w => w.pc = .waitCheck ∧ w.reader.lastValidFrame = some ⟨100, 40⟩ ∧
      w.reader.prevDuration = 100 ∧ w.reader.continueReading = false ∧ w.reader.state = .paused ∧
      w.reader.needBreakReading = false) (by decide +kernel)
  obtain ⟨hpc, hreader⟩ := of_decide_eq_true hw
  exact ⟨w, ⟨_, hrun⟩, ⟨by simp [hpc], by simp [hpc], by simp [hpc]⟩, hreader⟩

/-- From the second frame the step goes back to the first. -/
theorem steps_back_iff_two_steps :
    ∃ w, longStartMachine.Reachable w ∧ w.reader.state = .paused ∧
      StepsBack (DemuxerQueue.toIDemuxer (fileParser longStartFile 260)) (fifoCodec 0 (25, 1)) 0 0
        w.reader := by
  obtain ⟨w, hw, hloop, hlast, hprev, hpaused, hstate, hgoes⟩ := exists_stepForward_twice
  have hposition : w.reader.backPosition ⟨100, 40⟩ = 0 := by
    unfold backPosition
    rw [hprev]
    rfl
  have hP : DemuxerQueue.Seekable (fileParser longStartFile 260) 0 longStartFile :=
    DemuxerQueue.fileParser_seekable (by decide) 260
  have hland : DemuxerQueue.LandsOnLastKey (fileParser longStartFile 260) 0 longStartFile
      (w.reader.backPosition ⟨100, 40⟩) := by
    rw [hposition]
    exact DemuxerQueue.fileParser_lands (by decide) longStartFile_track 260 (by decide)
  have hsplit : longStartFile = [] ++ ⟨0, 0, 0, 100, true, 100⟩ ::
      ⟨0, 100, 100, 40, false, 100⟩ :: longStartFile.drop 2 := rfl
  have hiff := steps_back_iff (fifoCodec_inOrder 0 (25, 1)) hP longStartFile_track
    (by rintro last ⟨⟩; rfl) hsplit (DemuxerQueue.ofStream_eq (by decide)) rfl hw hloop hlast rfl
    hpaused (by simp [hstate]) (.inl hland)
  exact ⟨w, hw, hstate, hiff.mpr ⟨hgoes, by decide, .inl rfl, .inl rfl⟩⟩

/-- After a change of the position to the third frame the step goes back to the first: the third is
a key frame, so the frame read before it is the first. -/
theorem steps_back_too_far :
    FrameTrack longStartFile ∧
      ¬∀ w, longStartMachine.Reachable w → w.InLoop → w.reader.state = .paused →
        ∀ before prev current after, longStartFile = before ++ prev :: current :: after →
          ∀ f, w.reader.lastValidFrame = some f → f.ts = current.pts →
            StepsBack (DemuxerQueue.toIDemuxer (fileParser longStartFile 260))
              (fifoCodec 0 (25, 1)) 0 prev.pts w.reader := by
  refine ⟨longStartFile_track, fun hall => ?_⟩
  obtain ⟨w, -, hrun, hw⟩ := Machine.exists_run_of_exec longStartMachine
    (stepAnd (.setPosition 140))
    (fun w => w.pc = .waitCheck ∧ w.reader.lastValidFrame = some ⟨140, 40⟩ ∧
      w.reader.state = .paused ∧
      (stepBackwardImpl (DemuxerQueue.toIDemuxer (fileParser longStartFile 260))
        (fifoCodec 0 (25, 1)) w.reader).2.lastValidFrame = some ⟨0, 100⟩) (by decide +kernel)
  obtain ⟨hpc, hlast, hstate, hback⟩ := of_decide_eq_true hw
  obtain ⟨r', hok, -, g, hg, hts, -⟩ := hall w ⟨_, hrun⟩
    ⟨by simp [hpc], by simp [hpc], by simp [hpc]⟩ hstate (longStartFile.take 1)
    ⟨0, 100, 100, 40, false, 100⟩ ⟨0, 140, 140, 40, true, 100⟩ (longStartFile.drop 3) rfl
    ⟨140, 40⟩ hlast rfl
  rw [hok] at hback
  have hfirst : g = ⟨0, 100⟩ := Option.some.inj ((Option.mem_def.mp hg).symm.trans hback)
  rw [hfirst] at hts
  revert hts
  decide

end ReaderWorker

end Seekira.Model
