import Seekira.Analysis.DecodedFrames
import Seekira.Analysis.FrameOffsets
import Seekira.Analysis.ReaderCalls
import Seekira.Analysis.ReaderRuns

/-!
# The frames handed out in key frame mode

In a mode other than `All` a frame is handed to the observers when the packet fed
last was a key packet.  The frame that is returned then is not the frame of this
packet: the decoder returns a frame when the next one has come out of the codec, and
the codec may be some packets behind as well.  So a frame is handed out by the flag
of a later packet, and what the observers get are the frames of the key packets only
as long as each frame's packet and the packet fed with it agree.
-/

set_option autoImplicit false

namespace Seekira.Model

open Library

variable {δ κ : Type} {D : IDemuxer δ} {C : CodecOps κ} {O : PictureOrigins C} {s : StreamId}

/-- What observers get when the frames with the flag are handed to them. -/
def handedFrames (observers : List Nat) (flag : DecodedFrame → Bool)
    (frames : List DecodedFrame) : List (Nat × Frame) :=
  frames.flatMap fun x => if flag x then observers.map fun h => (h, x.frame) else []

theorem handedFrames_concat (observers : List Nat) (flag : DecodedFrame → Bool)
    (frames : List DecodedFrame) (x : DecodedFrame) :
    handedFrames observers flag (frames ++ [x]) = handedFrames observers flag frames ++
      if flag x then observers.map (fun h => (h, x.frame)) else [] := by
  simp [handedFrames]

/-- Only the flags of the frames matter. -/
theorem handedFrames_congr {observers : List Nat} {flag flag' : DecodedFrame → Bool}
    {frames : List DecodedFrame} (h : ∀ x ∈ frames, flag x = flag' x) :
    handedFrames observers flag frames = handedFrames observers flag' frames := by
  unfold handedFrames
  refine List.flatMap_congr fun x hx => ?_
  rw [h x hx]

/-! ## Reading on -/

/-- The reader plays stream `s` in a mode other than `All`, nothing is forced or skipped, and the
trace follows the stream. -/
structure ReaderFF.ReadsOn (s : StreamId) (observers : List Nat) (t : ReadTrace κ)
    (r : ReaderFF δ κ) : Prop where
  stream : r.stream = some s
  mode : r.mode ≠ .all
  handles : r.skipFrameHandle = false
  unforced : r.needHandleAfterForceSetPos = false
  observers : r.frameObservers.performForEach = observers
  follows : r.streamReader.Follows s t.decoder

/-- The frames sent are those read with a key packet fed. -/
def ReaderFF.SentByFed (observers : List Nat) (t : ReadTrace κ) (r : ReaderFF δ κ) : Prop :=
  r.sentFrames = handedFrames observers (fun x => x.fed.isKeyFrame) t.read

/-- A read that returns a frame adds the one that was decoded last. -/
theorem ReadTrace.afterRead_of_frame {w : StreamReader δ κ} {frame : Frame}
    {fed : List (Option DataPacket)} {t : ReadTrace κ} {x : DecodedFrame}
    (hlast : (fed.foldl (fun t pkt => t.feed O pkt) t.decoder).decoded.getLast? = some x) :
    t.afterRead O ((.ok (some frame), w), fed) =
      ⟨fed.foldl (fun t pkt => t.feed O pkt) t.decoder, t.read ++ [x]⟩ := by
  unfold afterRead
  simp only [hlast]

/-- A read hands its frame out by the flag of the packet fed last. -/
theorem ReaderFF.ReadsOn.readFrame {observers : List Nat} {t : ReadTrace κ} {r r' : ReaderFF δ κ}
    {result : Except Fault Unit} (h : r.ReadsOn s observers t) (hsent : r.SentByFed observers t)
    (hread : ReaderFF.readFrame D C r = (result, r')) :
    r'.SentByFed observers
        (t.afterRead O (StreamReader.recordedReadFrame D C s r.streamReader)) ∧
      (result = .ok () → r'.ReadsOn s observers
        (t.afterRead O (StreamReader.recordedReadFrame D C s r.streamReader))) := by
  rcases hrun : StreamReader.recordedReadFrame D C s r.streamReader with ⟨⟨e | out, w⟩, fed⟩
  · have halone := Recorded.run_of_erase StreamReader.erase_recordedReadFrame hrun
    rw [ReaderFF.readFrame_of_error h.stream halone] at hread
    cases hread
    exact ⟨hsent, nofun⟩
  · have halone := Recorded.run_of_erase StreamReader.erase_recordedReadFrame hrun
    obtain ⟨hfollows, hreturns⟩ := h.follows.readFrame (O := O) hrun
    rcases out with _ | frame
    · rw [ReaderFF.readFrame_of_none h.stream halone] at hread
      cases hread
      exact ⟨hsent, fun _ => ⟨h.stream, h.mode, h.handles, h.unforced, h.observers, hfollows⟩⟩
    · obtain ⟨x, hlast, rfl⟩ := hreturns frame rfl
      rw [ReaderFF.readFrame_of_frame h.stream halone] at hread
      cases hread
      rw [ReadTrace.afterRead_of_frame hlast]
      refine ⟨?_, fun _ => ⟨h.stream, h.mode, h.handles, h.unforced, h.observers, hfollows⟩⟩
      have hflag : (w.streams s).lastKeyFrame = x.fed.isKeyFrame := hfollows.key x hlast
      have hneed : ReaderFF.needHandleFrame
          { r.withStreams w with isLastKeyFrame := (w.streams s).lastKeyFrame } =
          x.fed.isKeyFrame := by
        show (!r.skipFrameHandle &&
          (decide (r.mode = .all) || (w.streams s).lastKeyFrame || r.needHandleAfterForceSetPos)) = _
        rw [h.handles, h.unforced, decide_eq_false h.mode, hflag]
        simp
      show (if ReaderFF.needHandleFrame _ then
          r.sentFrames ++ r.frameObservers.performForEach.map fun h => (h, x.frame)
        else r.sentFrames) = handedFrames observers _ (t.read ++ [x])
      rw [hneed, handedFrames_concat, ← hsent, h.observers]
      split
      · rfl
      · exact (List.append_nil _).symm

namespace ReaderWorker

/-! ## The worker -/

/-- The event neither moves the position nor reads a frame. -/
def PlaysFreely (event : ReaderEvent) : Prop := event = .play ∨ event = .pause ∨ event = .stop

/-- The two readers differ in nothing that decides about frames. -/
structure SameReading (r r' : ReaderFF δ κ) : Prop where
  streamReader : r'.streamReader = r.streamReader
  stream : r'.stream = r.stream
  mode : r'.mode = r.mode
  skipFrameHandle : r'.skipFrameHandle = r.skipFrameHandle
  needHandleAfterForceSetPos : r'.needHandleAfterForceSetPos = r.needHandleAfterForceSetPos
  frameObservers : r'.frameObservers = r.frameObservers
  sentFrames : r'.sentFrames = r.sentFrames

theorem sameReading_refl (r : ReaderFF δ κ) : SameReading r r :=
  ⟨rfl, rfl, rfl, rfl, rfl, rfl, rfl⟩

/-- The trace of the reads depends on what is the same only. -/
theorem SameReading.readsOn {observers : List Nat} {t : ReadTrace κ} {r r' : ReaderFF δ κ}
    (hsame : SameReading r r') (h : r.ReadsOn s observers t) : r'.ReadsOn s observers t := by
  refine ⟨hsame.stream.trans h.stream, ?_, hsame.skipFrameHandle.trans h.handles,
    hsame.needHandleAfterForceSetPos.trans h.unforced, ?_, ?_⟩
  · rw [hsame.mode]
    exact h.mode
  · rw [hsame.frameObservers]
    exact h.observers
  · rw [hsame.streamReader]
    exact h.follows

theorem sameReading_setReaderState (state : ReaderState) (r : ReaderFF δ κ) :
    SameReading r (ReaderFF.setReaderState state r).2 := ⟨rfl, rfl, rfl, rfl, rfl, rfl, rfl⟩

theorem sameReading_handleEvent {event : ReaderEvent} (h : PlaysFreely event) (r : ReaderFF δ κ) :
    (ReaderFF.handleEvent D C event r).1 = .ok () ∧
      SameReading r (ReaderFF.handleEvent D C event r).2 := by
  rcases h with rfl | rfl | rfl <;> exact ⟨rfl, rfl, rfl, rfl, rfl, rfl, rfl, rfl⟩

/-- Only plays, pauses and stops are queued. -/
def QueuesFreely (w : ReaderWorker δ κ) : Prop := ∀ item ∈ w.eventQueue, PlaysFreely item.event

/-- Elsewhere than at its read, the worker does nothing that decides about frames. -/
theorem sameReading_of_works {w w' : ReaderWorker δ κ} (hqueue : w.QueuesFreely)
    (hpc : w.pc ≠ .reading) (hs : Works D C w w') :
    SameReading w.reader w'.reader ∧ w'.QueuesFreely := by
  cases hs with
  | handles item _ hlast =>
    obtain ⟨hok, hsame⟩ := sameReading_handleEvent (D := D) (C := C)
      (hqueue item (List.mem_of_getLast? hlast)) w.reader
    rcases hcall : ReaderFF.handleEvent D C item.event w.reader with ⟨result, r⟩
    rw [hcall] at hok hsame
    obtain rfl : result = .ok () := hok
    exact ⟨hsame, fun item hitem => hqueue item (List.mem_of_mem_tail hitem)⟩
  | reads hreading => exact absurd hreading hpc
  | leaves =>
    unfold leaveLoop
    dsimp only
    split
    · exact ⟨⟨rfl, rfl, rfl, rfl, rfl, rfl, rfl⟩, hqueue⟩
    · split
      · refine ⟨⟨rfl, rfl, rfl, rfl, rfl, rfl, rfl⟩, fun item hitem => ?_⟩
        rcases List.mem_append.mp hitem with hitem | hitem
        · exact hqueue item hitem
        · rw [List.mem_singleton.mp hitem]
          exact .inr (.inl rfl)
      · exact ⟨⟨rfl, rfl, rfl, rfl, rfl, rfl, rfl⟩, hqueue⟩
  | tests | idles | crashes | waits => exact ⟨sameReading_refl w.reader, hqueue⟩
  | starts | goesOn | pauses => exact ⟨⟨rfl, rfl, rfl, rfl, rfl, rfl, rfl⟩, hqueue⟩

/-- A step other than a read does not touch the reading. -/
theorem sameReading_of_step {w w' : ReaderWorker δ κ} {l : ReaderLabel}
    (hqueue : w.QueuesFreely) (hl : ∀ event, l = .post event → PlaysFreely event)
    (hpc : ¬(l = .work ∧ w.pc = .reading)) (hs : ReaderWorker.step D C w l = some w') :
    SameReading w.reader w'.reader ∧ w'.QueuesFreely := by
  have hwake : SameReading w.reader w.wake.reader ∧ w.wake.QueuesFreely := by
    rw [QueuesFreely, wake_reader, wake_eventQueue]
    exact ⟨sameReading_refl w.reader, hqueue⟩
  cases steps_of_step hs with
  | posts event =>
    refine ⟨sameReading_refl _, fun item hitem => ?_⟩
    rcases List.mem_append.mp hitem with hitem | hitem
    · exact hqueue item hitem
    · rw [List.mem_singleton.mp hitem]
      exact hl event rfl
  | notifies | wakes => exact hwake
  | works _ hworks =>
    exact sameReading_of_works hqueue (fun hreading => hpc ⟨rfl, hreading⟩) hworks
  | stops => exact ⟨⟨rfl, rfl, rfl, rfl, rfl, rfl, rfl⟩, hqueue⟩

/-- What was sent is what the flags of the packets fed say; while the worker is in its loop the
trace follows its stream. -/
structure Traced (s : StreamId) (observers : List Nat) (t : ReadTrace κ) (w : ReaderWorker δ κ) :
    Prop where
  sent : w.reader.SentByFed observers t
  queue : w.QueuesFreely
  reads : w.InLoop → w.reader.ReadsOn s observers t

/-- Every step keeps the trace at the worker. -/
theorem Traced.step {observers : List Nat} {t : ReadTrace κ} {w w' : ReaderWorker δ κ}
    {l : ReaderLabel} (h : w.Traced s observers t)
    (hl : ∀ event, l = .post event → PlaysFreely event)
    (hs : ReaderWorker.step D C w l = some w') :
    w'.Traced s observers (t.step D O s w l) := by
  by_cases hreading : l = .work ∧ w.pc = .reading
  · obtain ⟨rfl, hpc⟩ := hreading
    have hloop : w.InLoop := by simp [InLoop, hpc]
    have hreads := (sameReading_setReaderState .reading w.reader).readsOn (h.reads hloop)
    simp only [ReaderWorker.step, hpc, ReaderWorker.work] at hs
    rcases hcall : ReaderFF.readFrame D C (ReaderFF.setReaderState .reading w.reader).2 with
      ⟨result, r⟩
    obtain ⟨hsent, hrest⟩ := hreads.readFrame (O := O) h.sent hcall
    rw [hcall] at hs
    unfold ReadTrace.step
    rw [if_pos ⟨rfl, hpc⟩]
    rcases result with e | _
    · cases e <;> cases hs <;> exact ⟨hsent, h.queue, by simp [InLoop, afterCall]⟩
    · cases hs
      exact ⟨hsent, h.queue, fun _ => hrest rfl⟩
  · obtain ⟨hsame, hqueue⟩ := sameReading_of_step h.queue hl hreading hs
    unfold ReadTrace.step
    rw [if_neg hreading]
    refine ⟨?_, hqueue, fun hloop => hsame.readsOn (h.reads (inLoop_of_step hs hloop))⟩
    rw [ReaderFF.SentByFed, hsame.sentFrames]
    exact h.sent

/-! ## Runs -/

variable {π : Type} {P : ParserOps π}

/-- The frames read in a run, in order. -/
def framesRead (P : ParserOps π) (O : PictureOrigins C) (s : StreamId) (codec : κ)
    (tr : List (ReaderWorker (DemuxerQueue π) κ × ReaderLabel)) : List DecodedFrame :=
  (ReadTrace.ofRun (DemuxerQueue.toIDemuxer P) O s (DecoderVideo.create codec) tr).read

/-- So far the observers got exactly the frames read that were decoded from key packets. -/
def GotKeyFrames (P : ParserOps π) (O : PictureOrigins C) (s : StreamId) (codec : κ)
    (observers : List Nat) (tr : List (ReaderWorker (DemuxerQueue π) κ × ReaderLabel))
    (w : ReaderWorker (DemuxerQueue π) κ) : Prop :=
  w.reader.sentFrames =
    handedFrames observers (fun x => x.origin.isKeyFrame) (framesRead P O s codec tr)

/-- The trace of an opened reader is at its decoder. -/
theorem follows_opened (ahead : List DataPacket) (internal : π) (codec : κ) :
    (StreamReader.opened P ahead internal s codec).Follows s
      (TracedDecoder.create (DecoderVideo.create codec)) := by
  have hready : ((StreamReader.opened P ahead internal s codec).streams s).bufferedData = none := rfl
  refine ⟨rfl, TracedDecoder.sound_create rfl rfl, ?_, ?_⟩
  · rw [hready]
    exact nofun
  · intro x hx
    rw [TracedDecoder.create, List.getLast?_nil] at hx
    cases hx

@[simp] theorem framesRead_nil (P : ParserOps π) (O : PictureOrigins C) (s : StreamId) (codec : κ) :
    framesRead P O s codec [] = [] := rfl

section Run

variable {ahead : List DataPacket} {internal : π} {codec : κ} {mode : ReaderMode}
  {frameObservers readerObservers : List Nat}
  {tr : List (ReaderWorker (DemuxerQueue π) κ × ReaderLabel)} {w : ReaderWorker (DemuxerQueue π) κ}

/-- After every run the trace is at the worker. -/
theorem traced_of_run (hmode : mode ≠ .all)
    (h : (machine (DemuxerQueue.toIDemuxer P) C (ReaderFF.opened
      (StreamReader.opened P ahead internal s codec) (some s) mode frameObservers
      readerObservers)).Run tr w)
    (hplays : ∀ p ∈ tr, ∀ event, p.2 = .post event → PlaysFreely event) :
    w.Traced s frameObservers
      (ReadTrace.ofRun (DemuxerQueue.toIDemuxer P) O s (DecoderVideo.create codec) tr) := by
  induction h with
  | init =>
    exact ⟨rfl, nofun, fun _ => ⟨rfl, hmode, rfl, rfl, rfl, follows_opened ahead internal codec⟩⟩
  | @step tr w w' l _ hs ih =>
    have htraced := ih fun p hp => hplays p (List.mem_append_left _ hp)
    have hlast : ∀ event, l = .post event → PlaysFreely event :=
      hplays (w, l) (List.mem_append_right _ (List.mem_singleton_self _))
    unfold ReadTrace.ofRun
    rw [List.foldl_append]
    exact htraced.step hlast hs

/-- The packets fed to the decoder in a run. -/
def packetsFed (P : ParserOps π) (C : CodecOps κ) (s : StreamId)
    (tr : List (ReaderWorker (DemuxerQueue π) κ × ReaderLabel)) : List (Option DataPacket) :=
  tr.flatMap fun p =>
    if p.2 = .work ∧ p.1.pc = .reading then
      (StreamReader.recordedReadFrame (DemuxerQueue.toIDemuxer P) C s p.1.reader.streamReader).2
    else []

/-- The frames that the decoder returns for the packets fed in a run, each with the packet that it
belongs to and the one that it comes out for. -/
def framesDecoded (P : ParserOps π) (O : PictureOrigins C) (s : StreamId) (codec : κ)
    (tr : List (ReaderWorker (DemuxerQueue π) κ × ReaderLabel)) : List DecodedFrame :=
  ((packetsFed P C s tr).foldl (fun t pkt => t.feed O pkt)
    (TracedDecoder.create (DecoderVideo.create codec))).decoded

/-- The trace's decoder is fed by the reads. -/
theorem decoder_step (t : ReadTrace κ) (w : ReaderWorker δ κ) (l : ReaderLabel) :
    (t.step D O s w l).decoder =
      (if l = .work ∧ w.pc = .reading then
        (StreamReader.recordedReadFrame D C s w.reader.streamReader).2 else []).foldl
        (fun t pkt => t.feed O pkt) t.decoder := by
  unfold ReadTrace.step
  split
  · unfold ReadTrace.afterRead
    dsimp only
    split <;> rfl
  · rfl

/-- Every frame read is among the frames decoded. -/
theorem read_step_subset {t : ReadTrace κ} (h : ∀ x ∈ t.read, x ∈ t.decoder.decoded)
    (w : ReaderWorker δ κ) (l : ReaderLabel) :
    ∀ x ∈ (t.step D O s w l).read, x ∈ (t.step D O s w l).decoder.decoded := by
  unfold ReadTrace.step
  split
  · have hmore : ∀ (fed : List (Option DataPacket)) (x : DecodedFrame), x ∈ t.read →
        x ∈ (fed.foldl (fun t pkt => t.feed O pkt) t.decoder).decoded :=
      fun fed x hx => (TracedDecoder.prefix_feedAll fed t.decoder).subset (h x hx)
    unfold ReadTrace.afterRead
    dsimp only
    split
    · rename_i y _ hlast
      intro x hx
      rcases List.mem_append.mp hx with hx | hx
      · exact hmore _ x hx
      · rw [List.mem_singleton.mp hx]
        exact List.mem_of_getLast? hlast
    · exact hmore _
  · exact h

/-- The decoder of the trace was fed the packets of the run. -/
theorem ofRun_decoder (P : ParserOps π) (O : PictureOrigins C) (s : StreamId) (codec : κ)
    (tr : List (ReaderWorker (DemuxerQueue π) κ × ReaderLabel)) :
    (ReadTrace.ofRun (DemuxerQueue.toIDemuxer P) O s (DecoderVideo.create codec) tr).decoder =
      (packetsFed P C s tr).foldl (fun t pkt => t.feed O pkt)
        (TracedDecoder.create (DecoderVideo.create codec)) := by
  induction tr using List.reverseRecOn with
  | nil => rfl
  | append_singleton tr p ih =>
    unfold ReadTrace.ofRun packetsFed at ih ⊢
    rw [List.foldl_append, List.flatMap_append, List.foldl_append, ← ih]
    show (ReadTrace.step _ O s _ p.1 p.2).decoder = _
    rw [decoder_step, List.flatMap_singleton]

/-- The frames read are among those decoded. -/
theorem framesRead_subset (P : ParserOps π) (O : PictureOrigins C) (s : StreamId) (codec : κ)
    (tr : List (ReaderWorker (DemuxerQueue π) κ × ReaderLabel)) :
    ∀ x ∈ framesRead P O s codec tr, x ∈ framesDecoded P O s codec tr := by
  unfold framesRead framesDecoded
  rw [← ofRun_decoder]
  induction tr using List.reverseRecOn with
  | nil =>
    unfold ReadTrace.ofRun
    rw [List.foldl_nil]
    exact List.forall_mem_nil _
  | append_singleton tr p ih =>
    unfold ReadTrace.ofRun at ih ⊢
    rw [List.foldl_append]
    exact read_step_subset ih p.1 p.2

/-- The frames that were read are the frames that were decoded. -/
theorem mem_framesRead_iff (hmode : mode ≠ .all)
    (h : (machine (DemuxerQueue.toIDemuxer P) C (ReaderFF.opened
      (StreamReader.opened P ahead internal s codec) (some s) mode frameObservers
      readerObservers)).Run tr w)
    (hplays : ∀ p ∈ tr, ∀ event, p.2 = .post event → PlaysFreely event) {x : DecodedFrame} :
    x ∈ framesRead P O s codec tr ↔ x ∈ framesDecoded P O s codec tr := by
  refine ⟨framesRead_subset P O s codec tr x, ?_⟩
  unfold framesRead framesDecoded
  rw [← ofRun_decoder]
  induction h generalizing x with
  | init => exact id
  | @step tr w w' l hrun hs ih =>
    have hplays' : ∀ p ∈ tr, ∀ event, p.2 = .post event → PlaysFreely event :=
      fun p hp => hplays p (List.mem_append_left _ hp)
    have htraced := traced_of_run (O := O) hmode hrun hplays'
    have hkept := fun y => ih hplays' (x := y)
    unfold ReadTrace.ofRun at htraced hkept ⊢
    rw [List.foldl_append]
    show x ∈ (ReadTrace.step _ O s _ w l).decoder.decoded → x ∈ (ReadTrace.step _ O s _ w l).read
    unfold ReadTrace.step
    split
    · rename_i hreading
      have hloop : w.InLoop := by simp [InLoop, hreading.2]
      exact ReadTrace.decoded_subset_afterRead (DemuxerQueue.shrinks P)
        (htraced.reads hloop).follows hkept x
    · exact hkept x

/-- A step reads one frame or none. -/
theorem read_step (t : ReadTrace κ) (w : ReaderWorker δ κ) (l : ReaderLabel) :
    (t.step D O s w l).read = t.read ∨ ∃ x, (t.step D O s w l).read = t.read ++ [x] := by
  unfold ReadTrace.step
  split
  · unfold ReadTrace.afterRead
    dsimp only
    split
    · exact .inr ⟨_, rfl⟩
    · exact .inl rfl
  · exact .inl rfl

/-- With observers, one more frame goes to the right ones exactly when both flags agree. -/
theorem handedFrames_concat_iff {observers : List Nat} (hsome : observers ≠ [])
    {flag flag' : DecodedFrame → Bool} {frames : List DecodedFrame}
    (h : ∀ x ∈ frames, flag x = flag' x) (x : DecodedFrame) :
    handedFrames observers flag (frames ++ [x]) = handedFrames observers flag' (frames ++ [x]) ↔
      flag x = flag' x := by
  rw [handedFrames_concat, handedFrames_concat, handedFrames_congr h, List.append_cancel_left_eq]
  rcases flag x with _ | _ <;> rcases flag' x with _ | _ <;> simp [hsome]

/-- A further step adds what it reads. -/
theorem framesRead_concat (P : ParserOps π) (O : PictureOrigins C) (s : StreamId) (codec : κ)
    (tr : List (ReaderWorker (DemuxerQueue π) κ × ReaderLabel)) (w : ReaderWorker (DemuxerQueue π) κ)
    (l : ReaderLabel) :
    framesRead P O s codec (tr ++ [(w, l)]) = framesRead P O s codec tr ∨
      ∃ x, framesRead P O s codec (tr ++ [(w, l)]) = framesRead P O s codec tr ++ [x] := by
  unfold framesRead ReadTrace.ofRun
  rw [List.foldl_append]
  exact read_step _ w l

/-- Without observers nothing is sent. -/
theorem key_frames_of_no_observers (hmode : mode ≠ .all)
    (h : (machine (DemuxerQueue.toIDemuxer P) C (ReaderFF.opened
      (StreamReader.opened P ahead internal s codec) (some s) mode [] readerObservers)).Run tr w)
    (hplays : ∀ p ∈ tr, ∀ event, p.2 = .post event → PlaysFreely event) :
    Machine.Throughout (GotKeyFrames P O s codec []) tr w := by
  have hempty : ∀ (flag : DecodedFrame → Bool) (frames : List DecodedFrame),
      handedFrames [] flag frames = [] := by
    intro flag frames
    simp [handedFrames]
  induction h with
  | init => exact Machine.throughout_nil.mpr rfl
  | @step tr w w' l hrun hs ih =>
    have hsent := (traced_of_run (O := O) hmode (hrun.step hs) hplays).sent
    rw [ReaderFF.SentByFed, hempty] at hsent
    refine Machine.throughout_concat.mpr
      ⟨ih fun p hp => hplays p (List.mem_append_left _ hp), ?_⟩
    rw [GotKeyFrames, hempty, hsent]

/-- With observers: they got exactly the key frames, throughout, exactly when the packet of every
frame read and the packet that it was decoded with are both key packets or neither is. -/
theorem key_frames_of_observers (hmode : mode ≠ .all) (hsome : frameObservers ≠ [])
    (h : (machine (DemuxerQueue.toIDemuxer P) C (ReaderFF.opened
      (StreamReader.opened P ahead internal s codec) (some s) mode frameObservers
      readerObservers)).Run tr w)
    (hplays : ∀ p ∈ tr, ∀ event, p.2 = .post event → PlaysFreely event) :
    Machine.Throughout (GotKeyFrames P O s codec frameObservers) tr w ↔
      ∀ x ∈ framesRead P O s codec tr, x.origin.isKeyFrame = x.fed.isKeyFrame := by
  induction h with
  | init =>
    rw [Machine.throughout_nil, GotKeyFrames, framesRead_nil]
    exact ⟨fun _ => List.forall_mem_nil _, fun _ => rfl⟩
  | @step tr w w' l hrun hs ih =>
    have hsent := (traced_of_run (O := O) hmode (hrun.step hs) hplays).sent
    have hgot : GotKeyFrames P O s codec frameObservers (tr ++ [(w, l)]) w' ↔
        handedFrames frameObservers (fun x => x.fed.isKeyFrame)
            (framesRead P O s codec (tr ++ [(w, l)])) =
          handedFrames frameObservers (fun x => x.origin.isKeyFrame)
            (framesRead P O s codec (tr ++ [(w, l)])) := by
      rw [GotKeyFrames, hsent]
      rfl
    rw [Machine.throughout_concat, ih fun p hp => hplays p (List.mem_append_left _ hp), hgot]
    rcases framesRead_concat P O s codec tr w l with hsame | ⟨x, hmore⟩
    · rw [hsame]
      refine ⟨fun hboth => hboth.1, fun hagree => ⟨hagree, ?_⟩⟩
      exact handedFrames_congr fun x hx => (hagree x hx).symm
    · rw [hmore]
      constructor
      · rintro ⟨hagree, hlast⟩ y hy
        have hx := (handedFrames_concat_iff hsome (fun x hx => (hagree x hx).symm) x).mp hlast
        rcases List.mem_append.mp hy with hy | hy
        · exact hagree y hy
        · rw [List.mem_singleton.mp hy]
          exact hx.symm
      · intro hagree
        refine ⟨fun y hy => hagree y (List.mem_append_left _ hy), ?_⟩
        exact handedFrames_congr fun y hy => (hagree y hy).symm

/-- In every run of continuous reading in a mode other than `All`, over any file and codec, the
observers have got exactly the frames of key packets in every state exactly when there are none of
them, or for the packets fed the decoder returns the frame of a key packet when it is fed a key
packet and only then. -/
theorem key_frames_iff (hmode : mode ≠ .all)
    (h : (machine (DemuxerQueue.toIDemuxer P) C (ReaderFF.opened
      (StreamReader.opened P ahead internal s codec) (some s) mode frameObservers
      readerObservers)).Run tr w)
    (hplays : ∀ p ∈ tr, ∀ event, p.2 = .post event → PlaysFreely event) :
    Machine.Throughout (GotKeyFrames P O s codec frameObservers) tr w ↔
      (frameObservers = [] ∨
        ∀ x ∈ framesDecoded P O s codec tr, x.origin.isKeyFrame = x.fed.isKeyFrame) := by
  have hread : (∀ x ∈ framesRead P O s codec tr, x.origin.isKeyFrame = x.fed.isKeyFrame) ↔
      ∀ x ∈ framesDecoded P O s codec tr, x.origin.isKeyFrame = x.fed.isKeyFrame :=
    forall_congr' fun x => imp_congr_left (mem_framesRead_iff hmode h hplays)
  by_cases hnone : frameObservers = []
  · subst hnone
    exact ⟨fun _ => .inl rfl, fun _ => key_frames_of_no_observers hmode h hplays⟩
  · rw [key_frames_of_observers hmode hnone h hplays, hread]
    exact ⟨.inr, fun hcond => hcond.resolve_left hnone⟩

/-! ## With a codec that keeps the order -/

/-- With a codec that keeps the order of its packets, `delay` packets late, the observers get the
frames of key packets exactly when each packet of the stream is a key packet like the one
`delay + 1` places further on. -/
theorem key_frames_in_order {delay : Nat} {holds : List DataPacket → κ → Prop} {drained : κ → Prop}
    (hC : C.InOrder delay holds drained) (hO : O.InOrder delay holds) (hcodec : holds [] codec)
    (hmode : mode ≠ .all) (hsome : frameObservers ≠ [])
    (h : (machine (DemuxerQueue.toIDemuxer P) C (ReaderFF.opened
      (StreamReader.opened P ahead internal s codec) (some s) mode frameObservers
      readerObservers)).Run tr w)
    (hplays : ∀ p ∈ tr, ∀ event, p.2 = .post event → PlaysFreely event)
    {ps : List DataPacket} (htimed : Timed ps) (hfed : packetsFed P C s tr = ps.map some) :
    Machine.Throughout (GotKeyFrames P O s codec frameObservers) tr w ↔
      ∀ q ∈ ps.zip (ps.drop (delay + 1)), q.1.isKeyFrame = q.2.isKeyFrame := by
  have hpairs : (framesDecoded P O s codec tr).map (fun x => (x.origin, x.fed)) =
      ps.zip (ps.drop (delay + 1)) := by
    unfold framesDecoded
    rw [hfed, List.foldl_map]
    exact TracedDecoder.decoded_in_order hC hO (d := DecoderVideo.create codec)
      ⟨rfl, rfl, hcodec⟩ rfl rfl htimed
  rw [key_frames_of_observers hmode hsome h hplays, ← hpairs, List.forall_mem_map]
  exact forall_congr' fun x => imp_congr_left (mem_framesRead_iff hmode h hplays)

end Run

/-! ### A key packet followed by others -/

/-- The worker of a reader that plays the key frames of a file. -/
def keyMachine (file : List DataPacket) :
    Machine (ReaderWorker (DemuxerQueue Unit) (List DataPacket)) ReaderLabel :=
  machine (DemuxerQueue.toIDemuxer (fileParser file 120)) (fifoCodec 0 (25, 1))
    (ReaderFF.opened (StreamReader.opened (fileParser file 120) file () 0 []) (some 0) .keyFrame
      [1] [])

/-- One frame is played. -/
def playFirst : List ReaderLabel :=
  [.post .play, .notify] ++ List.replicate 10 .work

/-- The script plays freely. -/
theorem playsFreely_playFirst
    {M : Machine (ReaderWorker (DemuxerQueue Unit) (List DataPacket)) ReaderLabel}
    {w : ReaderWorker (DemuxerQueue Unit) (List DataPacket)} :
    ∀ p ∈ M.trace w playFirst, ∀ event, p.2 = .post event → PlaysFreely event := by
  intro p hp event hevent
  have hlabel : p.2 ∈ playFirst := Machine.label_mem_of_trace hp
  rw [hevent] at hlabel
  obtain rfl : event = .play := by simpa [playFirst] using hlabel
  exact .inl rfl

/-- A file of key packets. -/
def intraFile : List DataPacket :=
  [⟨0, 0, 0, 40, true, 100⟩, ⟨0, 40, 40, 40, true, 100⟩, ⟨0, 80, 80, 40, true, 100⟩]

/-- A file of key frames only. -/
theorem key_frames_iff_intra :
    ∃ w, (keyMachine intraFile).Run
        ((keyMachine intraFile).trace (keyMachine intraFile).init playFirst) w ∧
      (Machine.Throughout (GotKeyFrames (fileParser intraFile 120) (fifoOrigins 0 (25, 1)) 0 [] [1])
          ((keyMachine intraFile).trace (keyMachine intraFile).init playFirst) w ↔
        ([1] = [] ∨ ∀ x ∈ framesDecoded (fileParser intraFile 120) (fifoOrigins 0 (25, 1)) 0 []
          ((keyMachine intraFile).trace (keyMachine intraFile).init playFirst),
            x.origin.isKeyFrame = x.fed.isKeyFrame)) ∧
      w.reader.sentFrames = [(1, ⟨0, 40⟩)] := by
  obtain ⟨w, -, hrun, hw⟩ := Machine.exists_run_of_exec (keyMachine intraFile) playFirst
    (fun w => w.reader.sentFrames = [(1, ⟨0, 40⟩)]) (by decide +kernel)
  exact ⟨w, hrun, key_frames_iff (by decide) hrun playsFreely_playFirst, by simpa using hw⟩

/-- The frame of the only key packet comes out when the packet after it was fed, and is not handed
out. -/
theorem key_frame_withheld :
    ¬∀ (tr : List (ReaderWorker (DemuxerQueue Unit) (List DataPacket) × ReaderLabel)) w,
      (keyMachine shortFile).Run tr w →
      (∀ p ∈ tr, ∀ event, p.2 = .post event → PlaysFreely event) →
      GotKeyFrames (fileParser shortFile 120) (fifoOrigins 0 (25, 1)) 0 [] [1] tr w := by
  intro hall
  obtain ⟨w, -, hrun, hw⟩ := Machine.exists_run_of_exec (keyMachine shortFile) playFirst
    (fun w => w.reader.sentFrames = []) (by decide +kernel)
  have hsent : w.reader.sentFrames = [] := by simpa using hw
  have hgot := hall _ w hrun playsFreely_playFirst
  have hkey : handedFrames [1] (fun x => x.origin.isKeyFrame)
      (framesRead (fileParser shortFile 120) (fifoOrigins 0 (25, 1)) 0 []
        ((keyMachine shortFile).trace (keyMachine shortFile).init playFirst)) =
      [(1, ⟨0, 40⟩)] := by decide +kernel
  rw [GotKeyFrames, hsent, hkey] at hgot
  cases hgot

end ReaderWorker

end Seekira.Model
