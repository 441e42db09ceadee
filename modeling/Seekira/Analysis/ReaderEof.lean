import Seekira.Analysis.ReaderEvents
import Seekira.Analysis.ReaderCalls
import Seekira.Analysis.ReaderRuns

/-!
# Playing to the end of the file

The worker stops playing as soon as the demuxer has seen the end of the file.  The
decoder then still remembers a frame: it returns a frame only when it has received
a later one.  So every frame read while playing is followed by a frame that is
decoded and not read, also at the moment the worker pauses itself.
-/

set_option autoImplicit false

namespace Seekira.Model

open Library

variable {δ κ : Type} {D : IDemuxer δ} {C : CodecOps κ}

/-! ## Reading keeps the decoder ahead -/

namespace StreamReader

/-- The decoder of stream `s` remembers a frame later than `ts`. -/
def LooksPast (s : StreamId) (ts : TimestampFF) (r : StreamReader δ κ) : Prop :=
  (r.streams s).decoder.LooksPast ts

/-- The frame that is ready is earlier than the one the decoder remembers. -/
def BufferedBehind (s : StreamId) (r : StreamReader δ κ) : Prop :=
  ∀ b ∈ (r.streams s).bufferedData, r.LooksPast s b.ts

/-- What a packet does to the look-ahead. -/
theorem lookAhead_of_feed {s : StreamId} {r r' : StreamReader δ κ} {out : Option (Option Frame)}
    (h : feed D C s r = (.ok out, r')) :
    r'.BufferedBehind s ∧ (∀ ts, r.LooksPast s ts → r'.LooksPast s ts) ∧
      ∀ b, out ≠ some (some b) := by
  obtain ⟨pkt, r₁, frame, d, hread, hdec, hpkt, hout, hd, hb⟩ := feed_inv h
  obtain ⟨hpast, hemit⟩ := DecoderVideo.lookAhead_of_decode hdec hpkt
  rw [(frames_read hread).1] at hpast
  refine ⟨?_, fun ts hts => ?_, fun b hbad => ?_⟩
  · intro b hmem
    rw [hb] at hmem
    show (r'.streams s).decoder.LooksPast b.ts
    rw [hd]
    exact hemit b hmem
  · show (r'.streams s).decoder.LooksPast ts
    rw [hd]
    exact hpast ts hts
  · rcases hout with rfl | rfl <;> cases hbad

/-- A pass keeps the decoder ahead, and the frame it returns is behind the decoder. -/
theorem lookAhead_of_pass {s : StreamId} {r r' : StreamReader δ κ} {out : Option (Option Frame)}
    (hr : r.BufferedBehind s) (h : readFramePass D C s r = (.ok out, r')) :
    r'.BufferedBehind s ∧ (∀ ts, r.LooksPast s ts → r'.LooksPast s ts) ∧
      ∀ b, out = some (some b) → r'.LooksPast s b.ts := by
  by_cases hread : r.Readable D s
  · rcases hb : (r.streams s).bufferedData with _ | b
    · rw [readFramePass_of_empty hread hb] at h
      obtain ⟨hbehind, hpast, hout⟩ := lookAhead_of_feed h
      exact ⟨hbehind, hpast, fun b hbad => absurd hbad (hout b)⟩
    · rw [readFramePass_of_buffered hread hb] at h
      cases h
      have hpast : r.LooksPast s b.ts := hr b hb
      have hsame : ∀ ts, r.LooksPast s ts →
          (r.setStream s (takeBuffered b (r.streams s))).LooksPast s ts := by
        intro ts hts
        show ((r.setStream s _).streams s).decoder.LooksPast ts
        rw [streams_setStream]
        exact hts
      refine ⟨?_, hsame, ?_⟩
      · intro b' hb'
        rw [streams_setStream] at hb'
        rcases bufferedData_takeBuffered b (r.streams s) with heq | heq <;> rw [heq] at hb'
        · obtain rfl : b = b' := by simpa using hb'
          exact hsame _ hpast
        · cases hb'
      · intro b' hb'
        obtain rfl : b = b' := by simpa using hb'
        exact hsame _ hpast
  · obtain ⟨hstate, hres⟩ := readFramePass_of_not_readable (C := C) hread
    rw [h] at hstate hres
    obtain rfl : r' = r := hstate
    refine ⟨hr, fun _ hts => hts, fun b hb => ?_⟩
    rcases hres with hres | hres
    · simp [hb] at hres
    · cases hres

/-- A call of `read_frame` keeps the decoder ahead, and the frame it returns is behind it. -/
theorem lookAhead_of_readFrame {s : StreamId} {r r' : StreamReader δ κ} {out : Option Frame}
    (hr : r.BufferedBehind s) (h : readFrame D C s r = (.ok out, r')) :
    r'.BufferedBehind s ∧ (∀ ts, r.LooksPast s ts → r'.LooksPast s ts) ∧
      ∀ b, out = some b → r'.LooksPast s b.ts := by
  have hinv := readFrame_induction (D := D) (C := C) (s := s)
    (I := fun w => w.BufferedBehind s ∧ ∀ ts, r.LooksPast s ts → w.LooksPast s ts) ?_ ⟨hr, fun _ h => h⟩ h
  · obtain ⟨r₁, ⟨hb₁, hpast₁⟩, hpass⟩ := hinv
    obtain ⟨hb', hpast', hout⟩ := lookAhead_of_pass hb₁ hpass
    exact ⟨hb', fun ts hts => hpast' ts (hpast₁ ts hts), fun b hb => hout b (congrArg some hb)⟩
  · rintro r₁ r₂ res ⟨hb₁, hpast₁⟩ hpass
    obtain ⟨hb₂, hpast₂, -⟩ := lookAhead_of_pass hb₁ hpass
    exact ⟨hb₂, fun ts hts => hpast₂ ts (hpast₁ ts hts)⟩

end StreamReader

/-! ## The reader -/

namespace ReaderFF

/-- Every frame read so far, and the one that is ready, is earlier than the frame the decoder
remembers; the end of the file is not reached before the first frame was read. -/
structure LooksPastRead (D : IDemuxer δ) (s : StreamId) (r : ReaderFF δ κ) : Prop where
  stream : r.stream = some s
  behind : r.streamReader.BufferedBehind s
  last : ∀ v ∈ r.lastValidFrame, r.streamReader.LooksPast s v.ts
  sent : ∀ x ∈ r.sentFrames, r.streamReader.LooksPast s x.2.ts
  eof : r.isEofReached D = true → r.lastValidFrame.isSome

theorem LooksPastRead.setReaderState {s : StreamId} {r : ReaderFF δ κ} (h : r.LooksPastRead D s)
    (state : ReaderState) : (ReaderFF.setReaderState state r).2.LooksPastRead D s :=
  ⟨h.stream, h.behind, h.last, h.sent, h.eof⟩

/-- A read keeps the look-ahead past the frame that it returned. -/
theorem LooksPastRead.readFrame {s : StreamId} {r r' : ReaderFF δ κ} (h : r.LooksPastRead D s)
    (hr : ReaderFF.readFrame D C r = (.ok (), r')) : r'.LooksPastRead D s := by
  obtain ⟨out, w, hread, rfl, hsome⟩ := readFrame_inv h.stream hr
  obtain ⟨hbehind, hpast, hout⟩ := StreamReader.lookAhead_of_readFrame h.behind hread
  rcases out with _ | frame
  · exact ⟨h.stream, hbehind, fun v hv => hpast _ (h.last v hv), fun x hx => hpast _ (h.sent x hx),
      fun _ => hsome⟩
  · have hframe := hout frame rfl
    refine ⟨h.stream, hbehind, ?_, ?_, fun _ => hsome⟩
    · rintro v ⟨⟩
      exact hframe
    · intro x hx
      simp only [received, handleFrame] at hx
      split at hx
      · rcases List.mem_append.mp hx with hx | hx
        · exact hpast _ (h.sent x hx)
        · obtain ⟨_, -, rfl⟩ := List.mem_map.mp hx
          exact hframe
      · exact hpast _ (h.sent x hx)

/-- The frames that are decoded and still held by the stream: the one that is ready, the one that
the decoder remembers and those in its queue. -/
def heldFrames (s : StreamId) (r : ReaderFF δ κ) : List Frame :=
  let st := r.streamReader.streams s
  st.bufferedData.toList ++ st.decoder.prevFrame.toList ++ st.decoder.queue

/-- The frame is later than everything that was read and sent. -/
def Unread (r : ReaderFF δ κ) (f : Frame) : Prop :=
  (∀ v ∈ r.lastValidFrame, v.ts < f.ts) ∧ ∀ x ∈ r.sentFrames, x.2.ts < f.ts

/-- No decoded frame is left unread. -/
def TailDelivered (s : StreamId) (r : ReaderFF δ κ) : Prop := ∀ f ∈ r.heldFrames s, ¬r.Unread f

/-- After a frame was read, the frame that the decoder remembers is unread. -/
theorem LooksPastRead.not_tailDelivered {s : StreamId} {r : ReaderFF δ κ}
    (h : r.LooksPastRead D s) (hread : r.lastValidFrame.isSome) : ¬r.TailDelivered s := by
  obtain ⟨v, hv⟩ := Option.isSome_iff_exists.mp hread
  obtain ⟨f, hf, hlt⟩ := h.last v hv
  have hsame : ∀ ts, r.streamReader.LooksPast s ts → ts < f.ts := by
    rintro ts ⟨f', hf', hts⟩
    rw [Option.mem_def.mp hf] at hf'
    obtain rfl : f = f' := by simpa using hf'
    exact hts
  intro hall
  refine hall f ?_ ⟨fun v hv => hsame _ (h.last v hv), fun x hx => hsame _ (h.sent x hx)⟩
  unfold heldFrames
  simp [Option.mem_def.mp hf]

end ReaderFF

/-! ## The worker -/

namespace ReaderWorker

/-- Only `Play` is posted. -/
def PlaysOnly (l : ReaderLabel) : Prop := ∀ event, l = .post event → event = .play

/-- The step is the test of the end of file, and it stops the playing. -/
def LeavesAtEof (D : IDemuxer δ) (w : ReaderWorker δ κ) (l : ReaderLabel) : Prop :=
  l = .work ∧ w.pc = .eof ∧ w.reader.continueReading = true ∧ w.reader.isEofReached D = true

/-- The worker has left its loop, or it plays with the decoder ahead. -/
def Playing (D : IDemuxer δ) (s : StreamId) (w : ReaderWorker δ κ) : Prop :=
  (w.pc = .leaving ∨ w.pc = .finished ∨ w.pc = .crashed) ∨
    (w.reader.LooksPastRead D s ∧ ∀ item ∈ w.eventQueue, item.event = .play)

/-- A method of the reader that keeps the decoder ahead is run by the worker. -/
theorem playing_of_afterCall {s : StreamId} {w : ReaderWorker δ κ}
    {p : Proc Fault (ReaderFF δ κ) Unit} {r : ReaderFF δ κ}
    (hp : ∀ r', p r = (.ok (), r') → r'.LooksPastRead D s)
    (hq : ∀ item ∈ w.eventQueue, item.event = .play) : (afterCall (p r) w).Playing D s := by
  rcases hres : p r with ⟨e | _, r'⟩
  · refine .inl ?_
    cases e <;> simp [afterCall]
  · exact .inr ⟨hp r' hres, hq⟩

/-- What the worker does keeps it playing or makes it leave. -/
theorem Playing.works {s : StreamId} {w w' : ReaderWorker δ κ}
    (h : w.reader.LooksPastRead D s ∧ ∀ item ∈ w.eventQueue, item.event = .play)
    (hs : Works D C w w') : w'.Playing D s := by
  obtain ⟨hreader, hqueue⟩ := h
  cases hs with
  | starts => exact .inr ⟨hreader.setReaderState _, hqueue⟩
  | handles item _ hlast =>
    have hplay : item.event = .play := hqueue item (List.mem_of_getLast? hlast)
    refine playing_of_afterCall (fun r' hr => ?_)
      fun item hitem => hqueue item (List.mem_of_mem_tail hitem)
    rw [hplay] at hr
    cases hr
    exact ⟨hreader.stream, hreader.behind, hreader.last, hreader.sent, hreader.eof⟩
  | crashes => exact .inl (.inr (.inr rfl))
  | goesOn | pauses =>
    exact .inr ⟨⟨hreader.stream, hreader.behind, hreader.last, hreader.sent, hreader.eof⟩, hqueue⟩
  | reads =>
    exact playing_of_afterCall (fun r' hr => (hreader.setReaderState _).readFrame hr) hqueue
  | leaves => exact .inl (.inr (.inl (finished_leaveLoop w)))
  | tests | idles | waits => exact .inr ⟨hreader, hqueue⟩

/-- Every step keeps the look-ahead while the reader only plays. -/
theorem Playing.step {s : StreamId} {w w' : ReaderWorker δ κ} {l : ReaderLabel}
    (h : w.Playing D s) (hl : PlaysOnly l) (hs : ReaderWorker.step D C w l = some w') :
    w'.Playing D s := by
  rcases h with h | ⟨hreader, hqueue⟩
  · exact .inl (left_of_step h hs)
  · cases steps_of_step hs with
    | posts event =>
      refine .inr ⟨hreader, fun item hitem => ?_⟩
      rcases List.mem_append.mp hitem with hitem | hitem
      · exact hqueue item hitem
      · rw [List.mem_singleton.mp hitem]
        exact hl event rfl
    | notifies | wakes =>
      rw [← wake_reader] at hreader
      rw [← wake_eventQueue] at hqueue
      exact .inr ⟨hreader, hqueue⟩
    | works _ hworks => exact Playing.works ⟨hreader, hqueue⟩ hworks
    | stops =>
      exact .inr
        ⟨⟨hreader.stream, hreader.behind, hreader.last, hreader.sent, hreader.eof⟩, hqueue⟩

variable {π : Type} {P : ParserOps π}

/-- A reader that has just opened a file plays with nothing read yet. -/
theorem playing_started (ahead : List DataPacket) (internal : π) (s : StreamId) (codec : κ)
    (mode : ReaderMode) (frameObservers readerObservers : List Nat) :
    (started (ReaderFF.opened (StreamReader.opened P ahead internal s codec) (some s) mode
      frameObservers readerObservers)).Playing (DemuxerQueue.toIDemuxer P) s := by
  refine .inr ⟨⟨rfl, ?_, ?_, ?_, ?_⟩, ?_⟩
  · rintro b ⟨⟩
  · rintro v ⟨⟩
  · rintro x ⟨⟩
  · rintro ⟨⟩
  · rintro item ⟨⟩

/-- In every run in which only `Play` is posted, the worker stops playing at the end of the file
only while a decoded frame, later than everything read and sent, is left in the decoder. -/
theorem tail_undelivered (ahead : List DataPacket) (internal : π) (s : StreamId) (codec : κ)
    (mode : ReaderMode) (frameObservers readerObservers : List Nat)
    {tr : List (ReaderWorker (DemuxerQueue π) κ × ReaderLabel)} {w : ReaderWorker (DemuxerQueue π) κ}
    (h : (machine (DemuxerQueue.toIDemuxer P) C (ReaderFF.opened
      (StreamReader.opened P ahead internal s codec) (some s) mode frameObservers
      readerObservers)).Run tr w)
    (hplay : ∀ p ∈ tr, PlaysOnly p.2) :
    ∀ p ∈ tr, LeavesAtEof (DemuxerQueue.toIDemuxer P) p.1 p.2 → ¬p.1.reader.TailDelivered s := by
  have hall := h.invariant_source_of_guard (I := Playing (DemuxerQueue.toIDemuxer P) s)
    (C := fun _ l => PlaysOnly l)
    (playing_started ahead internal s codec mode frameObservers readerObservers)
    (fun _ _ _ hi hl hs => hi.step hl hs) hplay
  rintro p hp ⟨-, hpc, -, heof⟩
  rcases hall p hp with hleft | ⟨hreader, -⟩
  · rcases hleft with hleft | hleft | hleft <;> simp [hpc] at hleft
  · exact hreader.not_tailDelivered (hreader.eof heof)

/-! ### The short file is played -/

/-- Play, up to the test of the end of file after the first frame. -/
def playShort : List ReaderLabel :=
  [.post .play, .notify] ++ List.replicate 12 .work

/-- The end of the file is reached, and only the first of three frames was read. -/
theorem exists_run_playShort :
    ∃ tr w, shortMachine.Run tr w ∧ (∀ p ∈ tr, PlaysOnly p.2) ∧
      ∃ p ∈ tr, LeavesAtEof (DemuxerQueue.toIDemuxer (fileParser shortFile 120)) p.1 p.2 ∧
        (p.1.reader.streamReader.streams 0).decoder.prevFrame = some ⟨40, 40⟩ ∧
        p.1.reader.lastValidFrame = some ⟨0, 40⟩ ∧ p.1.reader.sentFrames = [(1, ⟨0, 40⟩)] := by
  obtain ⟨w, -, hrun, hw⟩ := Machine.exists_run_of_exec shortMachine playShort
    (fun w => w.pc = .eof ∧ w.reader.continueReading = true ∧
      w.reader.isEofReached (DemuxerQueue.toIDemuxer (fileParser shortFile 120)) = true ∧
      (w.reader.streamReader.streams 0).decoder.prevFrame = some ⟨40, 40⟩ ∧
      w.reader.lastValidFrame = some ⟨0, 40⟩ ∧ w.reader.sentFrames = [(1, ⟨0, 40⟩)])
    (by decide +kernel)
  obtain ⟨hpc, hplays, heof, hprev, hlast, hsent⟩ := of_decide_eq_true hw
  have hstep : shortMachine.step w .work =
      some (w.checkEof (DemuxerQueue.toIDemuxer (fileParser shortFile 120))) := by
    show ReaderWorker.step _ _ w .work = _
    unfold ReaderWorker.step ReaderWorker.work
    simp [hpc]
  refine ⟨_, _, hrun.step hstep, fun p hp => ?_, (w, .work), by simp,
    ⟨rfl, hpc, hplays, heof⟩, hprev, hlast, hsent⟩
  have hlabel : p.2 ∈ playShort ++ [.work] := by
    rcases List.mem_append.mp hp with hp | hp
    · exact List.mem_append_left _ (Machine.label_mem_of_trace hp)
    · rw [List.mem_singleton.mp hp]
      simp
  intro event hevent
  rw [hevent] at hlabel
  simpa [playShort] using hlabel

/-- A short file is played to its end. -/
theorem tail_undelivered_short :
    ∃ tr w, shortMachine.Run tr w ∧ (∀ p ∈ tr, PlaysOnly p.2) ∧
      ∃ p ∈ tr, LeavesAtEof (DemuxerQueue.toIDemuxer (fileParser shortFile 120)) p.1 p.2 ∧
        ¬p.1.reader.TailDelivered 0 := by
  obtain ⟨tr, w, hrun, hplay, p, hp, hleaves, -⟩ := exists_run_playShort
  exact ⟨tr, w, hrun, hplay, p, hp, hleaves,
    tail_undelivered shortFile () 0 [] .all [1] [1] hrun hplay p hp hleaves⟩

/-- The reader pauses before the last frame was delivered. -/
theorem pauses_before_tail :
    ¬∀ (tr : List (ReaderWorker (DemuxerQueue Unit) (List DataPacket) × ReaderLabel)) w,
      shortMachine.Run tr w → (∀ p ∈ tr, PlaysOnly p.2) →
      ∀ p ∈ tr, LeavesAtEof (DemuxerQueue.toIDemuxer (fileParser shortFile 120)) p.1 p.2 →
        p.1.reader.TailDelivered 0 := by
  intro hall
  obtain ⟨tr, w, hrun, hplay, p, hp, hleaves, hprev, hlast, hsent⟩ := exists_run_playShort
  refine hall tr w hrun hplay p hp hleaves ⟨40, 40⟩ ?_ ⟨?_, ?_⟩
  · simp [ReaderFF.heldFrames, hprev]
  · rw [hlast]
    rintro v ⟨⟩
    decide
  · rw [hsent]
    simp

end ReaderWorker

end Seekira.Model
