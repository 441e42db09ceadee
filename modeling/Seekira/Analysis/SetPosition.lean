import Seekira.Analysis.ReaderStream

/-!
# Which frame a change of the position reads

`set_position_impl` seeks to the last key packet at or before the position and reads
frames until the next one is the wanted one.  Only the packet kept by the seek tells
it a duration, so it measures every frame with the duration of that key packet; and
it can read a frame only while enough packets follow it in the stream.
-/

set_option autoImplicit false

namespace Seekira.Model

open Library

/-- A packet's timestamp names its place in the stream. -/
theorem Timed.split_unique {a b c d : List DataPacket} {x y : DataPacket}
    (h : Timed (a ++ x :: b)) (heq : a ++ x :: b = c ++ y :: d) (hpts : x.pts = y.pts) :
    a = c ∧ x = y ∧ b = d := by
  have hlater : ∀ {a b : List DataPacket} {x : DataPacket}, Timed (a ++ x :: b) →
      ∀ p ∈ a, p.pts < x.pts := by
    intro a b x h p hp
    exact (List.pairwise_append.mp h.increasing).2.2 p hp x (by simp)
  rcases List.append_eq_append_iff.mp heq with ⟨mid, hc, hx⟩ | ⟨mid, ha, hy⟩
  · rcases mid with _ | ⟨z, mid⟩
    · obtain ⟨rfl, rfl⟩ := List.cons.inj hx
      exact ⟨by simpa using hc.symm, rfl, rfl⟩
    · obtain ⟨rfl, -⟩ := List.cons.inj hx
      have hlt := hlater (heq ▸ h) x (by simp [hc])
      exact absurd hpts (Int.ne_of_lt hlt)
  · rcases mid with _ | ⟨z, mid⟩
    · obtain ⟨rfl, rfl⟩ := List.cons.inj hy
      exact ⟨by simpa using ha, rfl, rfl⟩
    · obtain ⟨rfl, -⟩ := List.cons.inj hy
      have hlt := hlater h y (by simp [ha])
      exact absurd hpts.symm (Int.ne_of_lt hlt)

/-- No packet is later than the last. -/
theorem Timed.le_getLast {ps : List DataPacket} (h : Timed ps) {p q : DataPacket} (hp : p ∈ ps)
    (hq : q ∈ ps.getLast?) : p.pts ≤ q.pts := by
  obtain ⟨init, rfl⟩ := List.getLast?_eq_some_iff.mp hq
  rcases List.mem_append.mp hp with hp | hp
  · exact Int.le_of_lt ((List.pairwise_append.mp h.increasing).2.2 p hp q (by simp))
  · rw [List.mem_singleton.mp hp]

namespace ReaderFF

variable {π κ : Type} {P : ParserOps π} {C : CodecOps κ} {delay : Nat}
  {holds : List DataPacket → κ → Prop} {drained : κ → Prop} {s : StreamId} {pos : TimestampFF}

/-! ## The reading loop -/

/-- The reader may go on reading and stands before the frames of `due`. -/
structure Before (P : ParserOps π) (s : StreamId) (delay : Nat)
    (holds : List DataPacket → κ → Prop) (due : List DataPacket)
    (r : ReaderFF (DemuxerQueue π) κ) : Prop where
  stream : r.stream = some s
  goesOn : r.needBreakReading = false
  due : r.streamReader.Due P s delay holds due

/-- The number of frames that the reader's stream returned. -/
def framesRead (s : StreamId) (r : ReaderFF (DemuxerQueue π) κ) : Nat :=
  (r.streamReader.streams s).processedFrameCount

/-- A frame that was read leaves the reader going. -/
theorem goesOn_received (frame : Frame) (w : StreamReader (DemuxerQueue π) κ)
    {r : ReaderFF (DemuxerQueue π) κ} (h : r.needBreakReading = false) :
    (r.received s (some frame) w).needBreakReading = false := by
  unfold needBreakReading at h ⊢
  rw [Bool.or_eq_false_iff] at h ⊢
  refine ⟨h.1, ?_⟩
  show decide (0 > maxInvalidThreshold) = false
  rfl

/-- While `delay + 1` packets follow the next frame, the reader reads it. -/
theorem Before.readFrame (hC : C.InOrder delay holds drained) (hs : s < P.streamCount)
    {x y : DataPacket} {due : List DataPacket} {r : ReaderFF (DemuxerQueue π) κ}
    (h : r.Before P s delay holds (x :: y :: due)) (hlen : delay ≤ due.length) :
    ∃ w, ReaderFF.readFrame (DemuxerQueue.toIDemuxer P) C r =
        (.ok (), r.received s (some ⟨x.pts, y.pts - x.pts⟩) w) ∧
      (r.received s (some ⟨x.pts, y.pts - x.pts⟩) w).Before P s delay holds (y :: due) ∧
      (w.streams s).bufferedPacket = none ∧ (w.streams s).position = y.pts ∧
      (w.streams s).processedFrameCount = r.framesRead s + 1 := by
  obtain ⟨w, hread, hdue, hkept, hposition, hcount⟩ := StreamReader.readFrame_due hC hs h.due hlen
  exact ⟨w, readFrame_of_frame h.stream hread, ⟨h.stream, goesOn_received _ _ h.goesOn, hdue⟩, hkept,
    hposition, hcount⟩

/-- With fewer, reading it ends in a null dereference. -/
theorem Before.readFrame_end (hC : C.InOrder delay holds drained) (hs : s < P.streamCount)
    {x : DataPacket} {due : List DataPacket} {r : ReaderFF (DemuxerQueue π) κ}
    (h : r.Before P s delay holds (x :: due)) (hlen : due.length ≤ delay) :
    ∃ r', ReaderFF.readFrame (DemuxerQueue.toIDemuxer P) C r = (.error .nullDeref, r') := by
  obtain ⟨w, hread⟩ := StreamReader.readFrame_end hC hs h.due (by simp)
    (by rw [List.length_cons]; omega)
  exact ⟨_, readFrame_of_error h.stream hread⟩

/-- What was read from `r` to `r'` was not handled. -/
structure Unhandled (r r' : ReaderFF (DemuxerQueue π) κ) : Prop where
  skips : r'.skipFrameHandle = true
  forces : r'.needHandleAfterForceSetPos = r.needHandleAfterForceSetPos
  observers : r'.frameObservers = r.frameObservers
  sent : r'.sentFrames = r.sentFrames

theorem Unhandled.trans {r₁ r₂ r₃ : ReaderFF (DemuxerQueue π) κ} (h : Unhandled r₁ r₂)
    (h' : Unhandled r₂ r₃) : Unhandled r₁ r₃ :=
  ⟨h'.skips, h'.forces.trans h.forces, h'.observers.trans h.observers, h'.sent.trans h.sent⟩

/-- A frame that is received while handling is skipped is not handled. -/
theorem unhandled_received (frame : Frame) (w : StreamReader (DemuxerQueue π) κ)
    {r : ReaderFF (DemuxerQueue π) κ} (h : r.skipFrameHandle = true) :
    Unhandled r (r.received s (some frame) w) := by
  refine ⟨h, rfl, rfl, ?_⟩
  show (if needHandleFrame { r.withStreams w with isLastKeyFrame := _ } then _ else r.sentFrames) = _
  have hskip : needHandleFrame { r.withStreams w with
      isLastKeyFrame := (w.streams s).lastKeyFrame } = false := by
    unfold needHandleFrame
    rw [show (r.withStreams w).skipFrameHandle = true from h]
    rfl
  rw [hskip]
  rfl

/-- The frame is the wanted one by the duration that the loop goes by. -/
def Measured (pos : TimestampFF) (duration : TimeFF) (p : DataPacket) : Prop :=
  p.pts ≤ pos ∧ pos < p.pts + duration

theorem isTargetFrame_iff {duration : TimeFF} {p : DataPacket} :
    isTargetFrame pos p.pts (p.pts + duration) = true ↔ Measured pos duration p := by
  simp [isTargetFrame, Measured]

/-- The loop ends at the target. -/
theorem setPositionLoop_stop {duration : TimeFF} {x : DataPacket}
    (hx : Measured pos duration x) (fuel : Nat) (r : ReaderFF (DemuxerQueue π) κ) :
    setPositionLoop (DemuxerQueue.toIDemuxer P) C pos (fuel + 1) x.pts duration r = (.ok (), r) := by
  unfold setPositionLoop
  rw [Proc.get_bind_apply, if_pos (by simp [isTargetFrame_iff.mpr hx])]
  rfl

/-- A round of the loop reads the next frame and keeps the duration. -/
theorem Before.loop_step (hC : C.InOrder delay holds drained) (hs : s < P.streamCount)
    {duration : TimeFF} {x y : DataPacket} {due : List DataPacket} {r : ReaderFF (DemuxerQueue π) κ}
    (h : r.Before P s delay holds (x :: y :: due)) (hlen : delay ≤ due.length)
    (hx : ¬Measured pos duration x) (fuel : Nat) :
    ∃ r', r'.Before P s delay holds (y :: due) ∧
      setPositionLoop (DemuxerQueue.toIDemuxer P) C pos (fuel + 1) x.pts duration r =
        setPositionLoop (DemuxerQueue.toIDemuxer P) C pos fuel y.pts duration r' ∧
      r.framesRead s ≤ r'.framesRead s ∧ (r.skipFrameHandle = true → Unhandled r r') := by
  obtain ⟨w, hread, hbefore, hkept, hposition, hcount⟩ := h.readFrame hC hs hlen
  refine ⟨_, hbefore, ?_, Nat.le_trans (Nat.le_succ _) (Nat.le_of_eq hcount.symm),
    unhandled_received _ w⟩
  generalize hr' : r.received s (some ⟨x.pts, y.pts - x.pts⟩) w = r' at hread hbefore
  have hw : r'.streamReader = w := by rw [← hr', streamReader_received]
  rw [← hw] at hkept hposition
  have hreader : (r'.streamReader.streams s).hasReader = true := by
    obtain ⟨fed, u, -, hreading⟩ := hbefore.due
    exact hreading.readable.2.1
  have hnext : onStream StreamReader.getPosition r' = (.ok y.pts, r') := by
    rw [onStream_apply hbefore.stream]
    unfold StreamReader.getPosition
    rw [Proc.get_bind_apply, hreader]
    show (Except.ok (r'.streamReader.streams s).position, _) = _
    rw [hposition]
    rfl
  have hduration : onStream (fun s => do
      let w ← Proc.get
      return w.getPktDuration s) r' = (.ok avNoPtsValue, r') := by
    rw [onStream_apply hbefore.stream]
    show (Except.ok (r'.streamReader.getPktDuration s), _) = _
    unfold StreamReader.getPktDuration
    rw [hkept]
    rfl
  have hgoes : (r.needBreakReading || isTargetFrame pos x.pts (x.pts + duration)) = false := by
    rw [h.goesOn, Bool.false_or, ← Bool.not_eq_true, isTargetFrame_iff]
    exact hx
  conv => lhs; unfold setPositionLoop
  rw [Proc.get_bind_apply, if_neg (by rw [hgoes]; exact Bool.false_ne_true)]
  rw [Proc.bind_ok hread, Proc.bind_ok hnext, Proc.bind_ok hduration, if_neg (by simp)]

/-- The loop ends with the last frame when none is the target. -/
theorem Before.loop_end (hC : C.InOrder delay holds drained) (hs : s < P.streamCount)
    {duration : TimeFF} {x : DataPacket} {due : List DataPacket} {r : ReaderFF (DemuxerQueue π) κ}
    (h : r.Before P s delay holds (x :: due)) (hlen : due.length ≤ delay)
    (hx : ¬Measured pos duration x) (fuel : Nat) :
    ∃ r', setPositionLoop (DemuxerQueue.toIDemuxer P) C pos (fuel + 1) x.pts duration r =
      (.error .nullDeref, r') := by
  obtain ⟨r', hread⟩ := h.readFrame_end hC hs hlen
  have hgoes : (r.needBreakReading || isTargetFrame pos x.pts (x.pts + duration)) = false := by
    rw [h.goesOn, Bool.false_or, ← Bool.not_eq_true, isTargetFrame_iff]
    exact hx
  refine ⟨r', ?_⟩
  unfold setPositionLoop
  rw [Proc.get_bind_apply, if_neg (by rw [hgoes]; exact Bool.false_ne_true)]
  rw [Proc.bind_error hread]

/-- The loop reads up to the first frame that it takes for the wanted one, if enough packets
follow it. -/
theorem Before.loop_reaches (hC : C.InOrder delay holds drained) (hs : s < P.streamCount)
    {duration : TimeFF} {target : DataPacket} {after : List DataPacket}
    (htarget : Measured pos duration target) (hlen : delay < after.length)
    {skipped : List DataPacket} (hskip : ∀ p ∈ skipped, ¬Measured pos duration p) {fuel : Nat}
    (hfuel : skipped.length < fuel) {r : ReaderFF (DemuxerQueue π) κ}
    (h : r.Before P s delay holds (skipped ++ target :: after))
    (hhandle : r.skipFrameHandle = true) {ts : TimestampFF}
    (hts : ∀ p ∈ (skipped ++ target :: after).head?, ts = p.pts) :
    ∃ r', setPositionLoop (DemuxerQueue.toIDemuxer P) C pos fuel ts duration r = (.ok (), r') ∧
      r'.Before P s delay holds (target :: after) ∧ r.framesRead s ≤ r'.framesRead s ∧
      Unhandled r r' := by
  obtain ⟨fuel, rfl⟩ : ∃ n, fuel = n + 1 := ⟨fuel - 1, by omega⟩
  induction skipped generalizing fuel r ts with
  | nil =>
    obtain rfl : ts = target.pts := hts target rfl
    exact ⟨r, setPositionLoop_stop htarget fuel r, h, Nat.le_refl _, hhandle, rfl, rfl, rfl⟩
  | cons x skipped ih =>
    obtain rfl : ts = x.pts := hts x rfl
    obtain ⟨y, due, hdue⟩ := List.exists_cons_of_ne_nil (l := skipped ++ target :: after) (by simp)
    have henough : delay ≤ due.length := by
      have hall := congrArg List.length hdue
      simp only [List.length_append, List.length_cons] at hall
      omega
    rw [List.cons_append, hdue] at h
    obtain ⟨r₁, hbefore, hloop, hcount, hquiet⟩ :=
      h.loop_step hC hs henough (hskip x (by simp)) fuel
    obtain ⟨fuel, rfl⟩ : ∃ n, fuel = n + 1 := ⟨fuel - 1, by rw [List.length_cons] at hfuel; omega⟩
    rw [← hdue] at hbefore
    have hhead : ∀ p ∈ (skipped ++ target :: after).head?, y.pts = p.pts := by
      rw [hdue]
      simp
    obtain ⟨r', hrest, hbefore', hcount', hquiet'⟩ :=
      ih (fun p hp => hskip p (List.mem_cons_of_mem _ hp)) hbefore (hquiet hhandle).skips hhead fuel
        (by rw [List.length_cons] at hfuel; omega)
    exact ⟨r', hloop.trans hrest, hbefore', Nat.le_trans hcount hcount',
      (hquiet hhandle).trans hquiet'⟩

/-- When the loop returns, it stands before the first frame that it takes for the wanted one. -/
theorem Before.loop_inv (hC : C.InOrder delay holds drained) (hs : s < P.streamCount)
    {duration : TimeFF} {due : List DataPacket} {fuel : Nat} {r r' : ReaderFF (DemuxerQueue π) κ}
    (h : r.Before P s delay holds due) (hne : due ≠ []) {ts : TimestampFF}
    (hts : ∀ p ∈ due.head?, ts = p.pts)
    (hloop : setPositionLoop (DemuxerQueue.toIDemuxer P) C pos fuel ts duration r = (.ok (), r')) :
    ∃ skipped x rest, due = skipped ++ x :: rest ∧ Measured pos duration x ∧
      (∀ p ∈ skipped, ¬Measured pos duration p) ∧ r'.Before P s delay holds (x :: rest) := by
  induction due generalizing fuel r ts with
  | nil => exact absurd rfl hne
  | cons x due ih =>
    obtain rfl : ts = x.pts := hts x rfl
    rcases fuel with _ | fuel
    · cases hloop
    by_cases hx : Measured pos duration x
    · rw [setPositionLoop_stop hx] at hloop
      cases hloop
      exact ⟨[], x, due, rfl, hx, by simp, h⟩
    · by_cases hlen : due.length ≤ delay
      · obtain ⟨r₁, hend⟩ := h.loop_end hC hs hlen hx fuel
        rw [hend] at hloop
        cases hloop
      · obtain ⟨y, due, rfl⟩ := List.exists_cons_of_ne_nil (l := due) (by
          rintro rfl
          exact hlen (Nat.zero_le _))
        obtain ⟨r₁, hbefore, hstep, -, -⟩ := h.loop_step hC hs
          (by rw [List.length_cons] at hlen; omega) hx fuel
        rw [hstep] at hloop
        obtain ⟨skipped, z, rest, hsplit, hz, hskip, hbefore'⟩ :=
          ih hbefore (by simp) (by simp) hloop
        refine ⟨x :: skipped, z, rest, by rw [hsplit]; rfl, hz, fun p hp => ?_, hbefore'⟩
        rcases List.mem_cons.mp hp with rfl | hp
        · exact hx
        · exact hskip p hp

/-! ## After the seek -/

/-- The reader before the last read of `set_position_impl`. -/
def handling (r : ReaderFF (DemuxerQueue π) κ) : ReaderFF (DemuxerQueue π) κ :=
  { r.enableObservers with skipFrameHandle := false }

/-- The part of `set_position_impl` after the loop. -/
def readTarget (D : IDemuxer (DemuxerQueue π)) (C : CodecOps κ) (prevState : ReaderState) :
    Proc Fault (ReaderFF (DemuxerQueue π) κ) Unit := do
  Proc.modify enableObservers
  let r ← Proc.get
  if r.needBreakReading then
    setReaderState r.state
  else
    let _ ← onStream StreamReader.getPosition
    Proc.modify fun r => { r with skipFrameHandle := false }
    readFrame D C
    setReaderState prevState

/-- The position is that of the stream. -/
theorem onStream_getPosition {r : ReaderFF (DemuxerQueue π) κ} (hs : r.stream = some s)
    (hreader : (r.streamReader.streams s).hasReader = true) :
    onStream StreamReader.getPosition r = (.ok (r.streamReader.streams s).position, r) := by
  rw [onStream_apply hs]
  unfold StreamReader.getPosition
  rw [Proc.get_bind_apply, hreader]
  rfl

theorem Before.hasReader {due : List DataPacket} {r : ReaderFF (DemuxerQueue π) κ}
    (h : r.Before P s delay holds due) : (r.streamReader.streams s).hasReader = true := by
  obtain ⟨fed, u, -, hreading⟩ := h.due
  exact hreading.readable.2.1

/-- Reading the target reads one frame more, and handles it. -/
theorem Before.readTarget_eq {due : List DataPacket} {r : ReaderFF (DemuxerQueue π) κ}
    (h : r.Before P s delay holds due) (prevState : ReaderState) :
    r.handling.Before P s delay holds due ∧
      readTarget (DemuxerQueue.toIDemuxer P) C prevState r =
        (ReaderFF.readFrame (DemuxerQueue.toIDemuxer P) C >>= fun _ => setReaderState prevState)
          r.handling := by
  refine ⟨⟨h.stream, h.goesOn, h.due⟩, ?_⟩
  have hgoes : r.enableObservers.needBreakReading = false := h.goesOn
  have hposition := onStream_getPosition (r := r.enableObservers) h.stream h.hasReader
  unfold readTarget
  rw [Proc.modify_bind_apply, Proc.get_bind_apply, if_neg (by rw [hgoes]; exact Bool.false_ne_true)]
  rw [Proc.bind_ok hposition]
  rfl

/-- The reader after a seek that found `key`: it stands before `key`, which its stream keeps. -/
structure Sought (P : ParserOps π) (s : StreamId) (delay : Nat)
    (holds : List DataPacket → κ → Prop) (key : DataPacket) (rest : List DataPacket)
    (w : StreamReader (DemuxerQueue π) κ) : Prop where
  due : w.Due P s delay holds (key :: rest)
  kept : (w.streams s).bufferedPacket = some key
  position : (w.streams s).position = key.pts
  hasReader : (w.streams s).hasReader = true
  demuxer : w.demuxer.Holds s rest

/-- The loop starts at the key packet, with its duration. -/
theorem Sought.readUpTo_eq (pos : TimestampFF) (hs : s < P.streamCount) {key : DataPacket} {rest : List DataPacket}
    {r : ReaderFF (DemuxerQueue π) κ} (h : Sought P s delay holds key rest r.streamReader)
    (hstream : r.stream = some s) (prevState : ReaderState) :
    ∃ fuel, rest.length + 1 < fuel ∧
      readUpTo (DemuxerQueue.toIDemuxer P) C pos prevState r =
        (setPositionLoop (DemuxerQueue.toIDemuxer P) C pos fuel key.pts key.duration >>=
          fun _ => readTarget (DemuxerQueue.toIDemuxer P) C prevState)
          { r with skipFrameHandle := true } := by
  refine ⟨2 * (DemuxerQueue.toIDemuxer P).remaining r.streamReader.demuxer + 20, ?_, ?_⟩
  · have hle : rest.length ≤ (DemuxerQueue.toIDemuxer P).remaining r.streamReader.demuxer :=
      h.demuxer.le_remaining hs
    omega
  · have hposition := onStream_getPosition hstream h.hasReader
    rw [h.position] at hposition
    have hduration : onStream (fun s => do
        let w ← Proc.get
        return w.getPktDuration s) r = (.ok key.duration, r) := by
      rw [onStream_apply hstream]
      show (Except.ok (r.streamReader.getPktDuration s), _) = _
      unfold StreamReader.getPktDuration
      rw [h.kept]
      rfl
    unfold readUpTo
    rw [Proc.bind_ok hposition, Proc.bind_ok hduration]
    rfl

/-- The seek of a reachable reader finds the last key packet at or before the position. -/
theorem Plays.seek (hC : C.InOrder delay holds drained) {l front rest : List DataPacket}
    {key : DataPacket} (hP : DemuxerQueue.Seekable P s l) (hl : FrameTrack l) (hpos : 0 ≤ pos)
    (hend : pos < P.streamDuration s) (hsplit : l = front ++ key :: rest)
    (hkey : key.isKeyFrame = true) (hle : key.pts ≤ pos)
    (hlater : ∀ p ∈ rest, p.isKeyFrame = true → pos < p.pts)
    (hland : DemuxerQueue.LandsOnLastKey P s l pos ∨ Fits front)
    {r : ReaderFF (DemuxerQueue π) κ} (h : r.Plays P s) :
    ∃ w, ReaderFF.seek (DemuxerQueue.toIDemuxer P) C pos r = (.ok (), r.withStreams w) ∧
      Sought P s delay holds key rest w ∧
      (w.streams s).processedFrameCount = r.framesRead s := by
  obtain ⟨w₁, w, hrequest, hdo, hstream, hholds⟩ := StreamReader.requestSeek_doSeek (C := C) hP hl
    hpos hsplit hkey hle hlater hland h.streams
  have hreader : (w.streams s).hasReader = true := by
    rw [hstream]
    exact h.streams.hasReader
  have htimed : Timed (key :: rest) := hl.timed.sublist (by rw [hsplit]; simp)
  refine ⟨w, ?_, ⟨⟨[], key :: rest, rfl, ⟨⟨?_, hreader, ?_⟩, ?_, ?_, ⟨rest, hholds, ?_⟩, htimed⟩⟩,
    ?_, ?_, hreader, hholds⟩, ?_⟩
  · have hcall₁ := (onStream_apply h.stream fun s => StreamReader.requestSeek (DemuxerQueue.toIDemuxer P) C s pos none).trans
      (by rw [hrequest])
    have hcall₂ := (onStream_apply (r := r.withStreams w₁) h.stream
      (StreamReader.doSeek (DemuxerQueue.toIDemuxer P))).trans (by
        rw [streamReader_withStreams, hdo])
    have hresult : onStream (fun s => do
        let w ← Proc.get
        return (w.streams s).lastSeekResult) (r.withStreams w) = (.ok true, r.withStreams w) := by
      rw [onStream_apply (r := r.withStreams w) h.stream]
      show (Except.ok (w.streams s).lastSeekResult, _) = _
      rw [hstream]
      rfl
    have hposition := onStream_getPosition (r := r.withStreams w) h.stream hreader
    unfold ReaderFF.seek
    rw [Proc.bind_ok hcall₁, Proc.bind_ok hcall₂]
    exact (Proc.bind_ok hresult).trans (Proc.bind_ok hposition)
  all_goals rw [hstream]
  · rfl
  · exact hend
  · exact DecoderVideo.pending_flush hC pos _
  · rfl
  · rfl
  · rfl
  · rfl

/-- Before its seek `set_position_impl` only turns the notifications off. -/
theorem Plays.setPositionImpl_eq {r : ReaderFF (DemuxerQueue π) κ} (h : r.Plays P s)
    (hlast : r.lastValidFrame.isSome) (hpos : 0 ≤ pos) (hend : pos < P.streamDuration s)
    (hstate : r.state ≠ .error) {w : StreamReader (DemuxerQueue π) κ}
    (hseek : ReaderFF.seek (DemuxerQueue.toIDemuxer P) C pos r.disableObservers =
      (.ok (), r.disableObservers.withStreams w)) :
    setPositionImpl (DemuxerQueue.toIDemuxer P) C pos r =
      readUpTo (DemuxerQueue.toIDemuxer P) C pos r.state (r.disableObservers.withStreams w) := by
  obtain ⟨last, hlast⟩ := Option.isSome_iff_exists.mp hlast
  have hduration : getDuration (DemuxerQueue.toIDemuxer P) r = (.ok (P.streamDuration s), r) := by
    unfold getDuration
    rw [Proc.get_bind_apply, h.stream]
    show onStream (StreamReader.getDuration (DemuxerQueue.toIDemuxer P)) r = _
    rw [onStream_apply h.stream]
    unfold StreamReader.getDuration
    rw [Proc.get_bind_apply, h.streams.hasReader]
    rfl
  have hposition : getPosition r = (.ok last.ts, r) := by
    unfold getPosition
    rw [Proc.get_bind_apply, hlast]
    rfl
  unfold setPositionImpl
  dsimp only
  rw [if_neg (Int.not_lt.mpr hpos), Proc.bind_ok hduration, if_neg (Int.not_le.mpr hend)]
  rw [Proc.bind_ok hposition, Proc.modify_bind_apply, Proc.get_bind_apply, Proc.bind_ok hseek]
  have hstate' : (r.disableObservers.withStreams w).state ≠ .error := hstate
  rw [Proc.get_bind_apply, if_neg hstate']
  rfl

/-! ## The frame that is read -/

/-- `set_position_impl` returns and the last frame that it has read is the one at `ts`. -/
def SetsPosition (D : IDemuxer (DemuxerQueue π)) (C : CodecOps κ) (s : StreamId)
    (pos ts : TimestampFF) (r : ReaderFF (DemuxerQueue π) κ) : Prop :=
  ∃ r', setPositionImpl D C pos r = (.ok (), r') ∧ r.framesRead s < r'.framesRead s ∧
    ∃ f ∈ r'.lastValidFrame, f.ts = ts

/-- A frame that the key packet's duration places at the position: the frame is a key frame
itself, or the position lies within the key packet's duration of it and not within that of the
frame before. -/
def PlacedAt (before : List DataPacket) (target : DataPacket) (pos : TimestampFF) : Prop :=
  target.isKeyFrame = true ∨
    ∃ key ∈ lastKey before, pos < target.pts + key.duration ∧
      ∀ prev ∈ before.getLast?, prev.pts + key.duration ≤ pos

/-- `Placed` says that the loop takes the frame, and none before it, for the wanted one. -/
theorem placedAt_iff {l before after front rest : List DataPacket} {target key : DataPacket}
    (hl : FrameTrack l) (hsplit : l = before ++ target :: after) (hcovers : target.Covers pos)
    (hk : KeySplit before after target pos front key rest) :
    PlacedAt before target pos ↔
      ∃ skipped, key :: rest = skipped ++ target :: after ∧ Measured pos key.duration target ∧
        ∀ p ∈ skipped, ¬Measured pos key.duration p := by
  rcases hk.cases with ⟨htarget, rfl, rfl⟩ | ⟨htarget, hlast, gop, hbefore, hrest⟩
  · constructor
    · exact fun _ => ⟨[], rfl, hcovers, by simp⟩
    · exact fun _ => .inl htarget
  · have hgop : before.getLast? = (key :: gop).getLast? := by
      rw [hbefore, List.getLast?_append_of_ne_nil _ (by simp)]
    have hearlier : ∀ p ∈ key :: gop, p.pts ≤ pos := by
      intro p hp
      have hmem : p ∈ before := by
        rw [hbefore]
        exact List.mem_append_right _ hp
      have hend := (hl.around hsplit).1 p hmem
      have hdur := hl.duration p (by simp [hsplit, hmem])
      have htarget := hcovers.1
      lia
    have htimed : Timed (key :: gop) := by
      apply hl.timed.sublist
      rw [hsplit, hbefore, List.append_assoc]
      exact (List.sublist_append_left _ _).trans (List.sublist_append_right _ _)
    constructor
    · rintro (hkey | ⟨key', hkey', hlt, hprev⟩)
      · rw [htarget] at hkey
        cases hkey
      · obtain rfl : key = key' := by
          rw [hlast] at hkey'
          exact Option.some.inj hkey'
        refine ⟨key :: gop, by rw [hrest]; rfl, ⟨hcovers.1, hlt⟩, fun p hp hmeasured => ?_⟩
        obtain ⟨prev, hprevLast⟩ : ∃ prev, prev ∈ (key :: gop).getLast? :=
          ⟨_, List.getLast?_eq_some_getLast (by simp)⟩
        have hle := htimed.le_getLast hp hprevLast
        have hpast := hprev prev (hgop ▸ hprevLast)
        have hwithin := hmeasured.2
        lia
    · rintro ⟨skipped, heq, hmeasured, hskip⟩
      have hskipped : skipped = key :: gop := by
        rw [hrest] at heq
        have happ : (key :: gop) ++ target :: after = skipped ++ target :: after := heq
        exact (List.append_cancel_right happ).symm
      refine .inr ⟨key, hlast, hmeasured.2, fun prev hprev => ?_⟩
      have hmem : prev ∈ key :: gop := List.mem_of_getLast? (hgop ▸ hprev)
      have hnot := hskip prev (hskipped ▸ hmem)
      exact Int.not_lt.mp fun hlt => hnot ⟨hearlier prev hmem, hlt⟩

/-- A reader that must not go on reads nothing. -/
theorem Sought.readUpTo_stopped (hs : s < P.streamCount) {key : DataPacket}
    {rest : List DataPacket} {r : ReaderFF (DemuxerQueue π) κ}
    (h : Sought P s delay holds key rest r.streamReader) (hstream : r.stream = some s)
    (hstop : r.needBreakReading = true) (prevState : ReaderState) :
    ∃ r', readUpTo (DemuxerQueue.toIDemuxer P) C pos prevState r = (.ok (), r') ∧
      r'.framesRead s = r.framesRead s := by
  obtain ⟨fuel, hfuel, heq⟩ := h.readUpTo_eq (C := C) pos hs hstream prevState
  obtain ⟨fuel, rfl⟩ : ∃ n, fuel = n + 1 := ⟨fuel - 1, by omega⟩
  have hloop : setPositionLoop (DemuxerQueue.toIDemuxer P) C pos (fuel + 1) key.pts key.duration
      { r with skipFrameHandle := true } = (.ok (), { r with skipFrameHandle := true }) := by
    have hgoes : (needBreakReading { r with skipFrameHandle := true } ||
        isTargetFrame pos key.pts (key.pts + key.duration)) = true := by
      rw [show needBreakReading { r with skipFrameHandle := true } = true from hstop]
      rfl
    unfold setPositionLoop
    rw [Proc.get_bind_apply, if_pos hgoes]
    rfl
  have hstop' : (enableObservers { r with skipFrameHandle := true }).needBreakReading = true := hstop
  rw [heq, Proc.bind_ok hloop]
  unfold readTarget
  rw [Proc.modify_bind_apply, Proc.get_bind_apply, if_pos hstop']
  exact ⟨_, rfl, rfl⟩

/-- `set_position_impl` has returned `r'`: the last frame that it has read is the one at `ts`, and
with the flag for it, it has sent this frame, and only this one, to the frame observers. -/
structure Delivered (s : StreamId) (ts : TimestampFF) (r r' : ReaderFF (DemuxerQueue π) κ) :
    Prop where
  read : r.framesRead s < r'.framesRead s
  last : ∃ f ∈ r'.lastValidFrame, f.ts = ts ∧ (r.needHandleAfterForceSetPos = true →
    r'.sentFrames =
      r.sentFrames ++ r.frameObservers.enable.performForEach.map fun h => (h, f))

/-- The frame that the loop takes for the wanted one is read and sent, if enough packets follow
it. -/
theorem Sought.reads (hC : C.InOrder delay holds drained) (hs : s < P.streamCount)
    {key target : DataPacket} {rest skipped after : List DataPacket}
    {r : ReaderFF (DemuxerQueue π) κ} (h : Sought P s delay holds key rest r.streamReader)
    (hstream : r.stream = some s) (hgoes : r.needBreakReading = false)
    (hlen : delay < after.length) (hdue : key :: rest = skipped ++ target :: after)
    (hmeasured : Measured pos key.duration target)
    (hskip : ∀ p ∈ skipped, ¬Measured pos key.duration p) (prevState : ReaderState) :
    ∃ r', readUpTo (DemuxerQueue.toIDemuxer P) C pos prevState r = (.ok (), r') ∧
      Delivered s target.pts r r' := by
  obtain ⟨fuel, hfuel, heq⟩ := h.readUpTo_eq (C := C) pos hs hstream prevState
  have hbefore : Before P s delay holds (key :: rest) { r with skipFrameHandle := true } :=
    ⟨hstream, hgoes, h.due⟩
  rw [hdue] at hbefore
  have hall := congrArg List.length hdue
  simp only [List.length_append, List.length_cons] at hall
  have hfuel' : skipped.length < fuel := by omega
  have hhead : ∀ p ∈ (skipped ++ target :: after).head?, key.pts = p.pts := by
    rw [← hdue]
    simp
  obtain ⟨r₁, hloop, hbefore₁, hcount₁, hquiet⟩ :=
    hbefore.loop_reaches hC hs hmeasured hlen hskip hfuel' rfl hhead
  obtain ⟨hbefore₂, hrest⟩ := hbefore₁.readTarget_eq (C := C) prevState
  obtain ⟨y, after, rfl⟩ := List.exists_cons_of_ne_nil (l := after) (by
    rintro rfl
    exact absurd hlen (Nat.not_lt_zero _))
  obtain ⟨w, hread, -, -, -, hcount₂⟩ := hbefore₂.readFrame hC hs
    (by rw [List.length_cons] at hlen; omega)
  refine ⟨_, by rw [heq, Proc.bind_ok hloop, hrest, Proc.bind_ok hread]; rfl, ?_,
    ⟨target.pts, y.pts - target.pts⟩, rfl, rfl, fun hforce => ?_⟩
  · have hcount₀ : framesRead s { r with skipFrameHandle := true } = r.framesRead s := rfl
    have hcount : r₁.handling.framesRead s = r₁.framesRead s := rfl
    show r.framesRead s < (w.streams s).processedFrameCount
    omega
  · -- the flag makes the reader handle the frame, and the observers are back
    have hhandle : needHandleFrame { r₁.handling.withStreams w with
        isLastKeyFrame := (w.streams s).lastKeyFrame } = true := by
      have hforced : r₁.needHandleAfterForceSetPos = true := hquiet.forces.trans hforce
      unfold needHandleFrame
      rw [show (r₁.handling.withStreams w).needHandleAfterForceSetPos = true from hforced]
      simp [handling, withStreams]
    have hobservers : r₁.frameObservers = r.frameObservers := hquiet.observers
    have hsent : r₁.sentFrames = r.sentFrames := hquiet.sent
    show (if needHandleFrame { r₁.handling.withStreams w with isLastKeyFrame := _ } then
      r₁.sentFrames ++ (r₁.frameObservers.enable.performForEach.map _) else r₁.sentFrames) = _
    rw [if_pos hhandle, hobservers, hsent]

/-- What a call that returned has read last: the first frame that the loop takes for the wanted
one. -/
theorem Sought.reads_inv (hC : C.InOrder delay holds drained) (hs : s < P.streamCount)
    {key : DataPacket} {rest : List DataPacket} {r r' : ReaderFF (DemuxerQueue π) κ}
    (h : Sought P s delay holds key rest r.streamReader) (hstream : r.stream = some s)
    (hgoes : r.needBreakReading = false) {prevState : ReaderState}
    (hok : readUpTo (DemuxerQueue.toIDemuxer P) C pos prevState r = (.ok (), r')) :
    ∃ skipped x after, key :: rest = skipped ++ x :: after ∧ Measured pos key.duration x ∧
      (∀ p ∈ skipped, ¬Measured pos key.duration p) ∧ delay < after.length ∧
      ∃ f, r'.lastValidFrame = some f ∧ f.ts = x.pts := by
  obtain ⟨fuel, hfuel, heq⟩ := h.readUpTo_eq (C := C) pos hs hstream prevState
  have hbefore : Before P s delay holds (key :: rest) { r with skipFrameHandle := true } :=
    ⟨hstream, hgoes, h.due⟩
  rw [heq] at hok
  obtain ⟨_, r₁, hloop, hok⟩ := Proc.bind_inv hok
  obtain ⟨skipped, x, due, hdue, hx, hskip, hbefore₁⟩ := hbefore.loop_inv hC hs (by simp)
    (by simp) hloop
  obtain ⟨hbefore₂, hrest⟩ := hbefore₁.readTarget_eq (C := C) prevState
  rw [hrest] at hok
  by_cases hlen : due.length ≤ delay
  · obtain ⟨r₃, hfail⟩ := hbefore₂.readFrame_end hC hs hlen
    rw [Proc.bind_error hfail] at hok
    cases hok
  · obtain ⟨y, due, rfl⟩ := List.exists_cons_of_ne_nil (l := due) (by
      rintro rfl
      exact hlen (Nat.zero_le _))
    obtain ⟨w, hread, -⟩ := hbefore₂.readFrame hC hs (by rw [List.length_cons] at hlen; omega)
    rw [Proc.bind_ok hread] at hok
    cases hok
    exact ⟨skipped, x, y :: due, hdue, hx, hskip, Nat.not_le.mp hlen, _, rfl, rfl⟩

/-- A position in a frame lies before the end of the stream. -/
theorem lt_streamEnd {l before after : List DataPacket} {target last : DataPacket}
    (hl : FrameTrack l) (hsplit : l = before ++ target :: after) (hcovers : target.Covers pos)
    (hlast : last ∈ l.getLast?) : pos < last.pts + last.duration := by
  have hlt := hcovers.2
  rw [hsplit, List.getLast?_append_of_ne_nil _ (by simp)] at hlast
  rcases List.mem_cons.mp (List.mem_of_getLast? hlast) with rfl | hmem
  · exact hlt
  · have hlater := (hl.around hsplit).2 last hmem
    have hdur := hl.duration last (by simp [hsplit, hmem])
    lia

/-- From every reachable reader, `set_position_impl` seeks to the last key packet at or before the
position and reads from there. -/
theorem Plays.setPositionImpl_sought (hC : C.InOrder delay holds drained)
    {l before after : List DataPacket} {target : DataPacket} (hP : DemuxerQueue.Seekable P s l)
    (hl : FrameTrack l)
    (hdur : ∀ last ∈ l.getLast?, P.streamDuration s = last.pts + last.duration)
    (hsplit : l = before ++ target :: after) (hcovers : target.Covers pos)
    (hland : DemuxerQueue.LandsOnLastKey P s l pos ∨ Fits before)
    {r : ReaderFF (DemuxerQueue π) κ} (h : r.Plays P s) (hread : r.lastValidFrame.isSome)
    (hstate : r.state ≠ .error) :
    ∃ front key rest w, KeySplit before after target pos front key rest ∧
      Sought P s delay holds key rest w ∧ (w.streams s).processedFrameCount = r.framesRead s ∧
      setPositionImpl (DemuxerQueue.toIDemuxer P) C pos r =
        readUpTo (DemuxerQueue.toIDemuxer P) C pos r.state (r.disableObservers.withStreams w) := by
  obtain ⟨front, key, rest, hk⟩ := hl.exists_keySplit hsplit hcovers
  have hkeysplit : l = front ++ key :: rest := hsplit.trans hk.split
  have hpos : 0 ≤ pos := Int.le_trans (hl.pts_nonneg target (by simp [hsplit])) hcovers.1
  have hend : pos < P.streamDuration s := by
    obtain ⟨last, hlast⟩ : ∃ last, last ∈ l.getLast? :=
      ⟨_, List.getLast?_eq_some_getLast (by simp [hsplit])⟩
    rw [hdur last hlast]
    exact lt_streamEnd hl hsplit hcovers hlast
  have hfront : DemuxerQueue.LandsOnLastKey P s l pos ∨ Fits front := by
    refine hland.imp_right fun hfits => ?_
    have hplain : ∀ p ∈ before, p.Plain := fun p hp => hl.plain p (by simp [hsplit, hp])
    obtain ⟨gop, hbefore⟩ := hk.frontBefore
    rw [hbefore] at hfits hplain
    exact (hfits.of_append hplain).1
  have hplays : r.disableObservers.Plays P s := ⟨h.stream, h.streams⟩
  obtain ⟨w, hseek, hsought, hcount⟩ := hplays.seek hC hP hl hpos hend hkeysplit hk.isKey
    hk.atOrBefore hk.later hfront
  exact ⟨front, key, rest, w, hk, hsought, hcount,
    h.setPositionImpl_eq hread hpos hend hstate hseek⟩

/-- When the key packet's duration places the frame at the position and enough packets follow it,
`set_position_impl` delivers it. -/
theorem Plays.setPositionImpl_delivers (hC : C.InOrder delay holds drained)
    {l before after : List DataPacket} {target : DataPacket} (hP : DemuxerQueue.Seekable P s l)
    (hl : FrameTrack l)
    (hdur : ∀ last ∈ l.getLast?, P.streamDuration s = last.pts + last.duration)
    (hsplit : l = before ++ target :: after) (hcovers : target.Covers pos)
    (hland : DemuxerQueue.LandsOnLastKey P s l pos ∨ Fits before)
    {r : ReaderFF (DemuxerQueue π) κ} (h : r.Plays P s) (hread : r.lastValidFrame.isSome)
    (hstate : r.state ≠ .error) (hgoes : r.needBreakReading = false) (hlen : delay < after.length)
    (hplaced : PlacedAt before target pos) :
    ∃ r', setPositionImpl (DemuxerQueue.toIDemuxer P) C pos r = (.ok (), r') ∧
      Delivered s target.pts r.disableObservers r' := by
  obtain ⟨front, key, rest, w, hk, hsought, hcount, heq⟩ :=
    h.setPositionImpl_sought hC hP hl hdur hsplit hcovers hland hread hstate
  obtain ⟨skipped, hdue, hmeasured, hskip⟩ := (placedAt_iff hl hsplit hcovers hk).mp hplaced
  obtain ⟨r', hok, hlt, hlast⟩ := Sought.reads (r := r.disableObservers.withStreams w) hC hP.lt
    hsought h.stream hgoes hlen hdue hmeasured hskip r.state
  have hlt' : (w.streams s).processedFrameCount < r'.framesRead s := hlt
  exact ⟨r', heq.trans hok, by rw [hcount] at hlt'; exact hlt', hlast⟩

/-- A call that has read a frame has read last the one that the loop takes for the wanted one. -/
theorem Plays.setPositionImpl_inv (hC : C.InOrder delay holds drained)
    {l before after : List DataPacket} {target : DataPacket} (hP : DemuxerQueue.Seekable P s l)
    (hl : FrameTrack l)
    (hdur : ∀ last ∈ l.getLast?, P.streamDuration s = last.pts + last.duration)
    (hsplit : l = before ++ target :: after) (hcovers : target.Covers pos)
    (hland : DemuxerQueue.LandsOnLastKey P s l pos ∨ Fits before)
    {r r' : ReaderFF (DemuxerQueue π) κ} (h : r.Plays P s) (hread : r.lastValidFrame.isSome)
    (hstate : r.state ≠ .error)
    (hok : setPositionImpl (DemuxerQueue.toIDemuxer P) C pos r = (.ok (), r'))
    (hlt : r.framesRead s < r'.framesRead s) :
    r.needBreakReading = false ∧ ∃ front key rest skipped x due,
      KeySplit before after target pos front key rest ∧ key :: rest = skipped ++ x :: due ∧
      Measured pos key.duration x ∧ (∀ p ∈ skipped, ¬Measured pos key.duration p) ∧
      delay < due.length ∧ ∃ f, r'.lastValidFrame = some f ∧ f.ts = x.pts := by
  obtain ⟨front, key, rest, w, hk, hsought, hcount, heq⟩ :=
    h.setPositionImpl_sought hC hP hl hdur hsplit hcovers hland hread hstate
  rw [heq] at hok
  rcases hgoes : r.needBreakReading with _ | _
  · obtain ⟨skipped, x, due, hreads⟩ := Sought.reads_inv (r := r.disableObservers.withStreams w) hC
      hP.lt hsought h.stream hgoes hok
    exact ⟨rfl, front, key, rest, skipped, x, due, hk, hreads⟩
  · obtain ⟨r'', hstopped, hsame⟩ := Sought.readUpTo_stopped (C := C)
      (r := r.disableObservers.withStreams w) hP.lt hsought h.stream hgoes r.state
    rw [hok] at hstopped
    cases hstopped
    have hsame' : r'.framesRead s = (w.streams s).processedFrameCount := hsame
    omega

/-- From every reachable reader, `set_position_impl` ends with the frame at the position exactly
when the reader may go on, more than `delay` packets follow the frame, and the duration of the key
packet places the frame at the position. -/
theorem setsPosition_iff (hC : C.InOrder delay holds drained) {l before after : List DataPacket}
    {target : DataPacket} (hP : DemuxerQueue.Seekable P s l) (hl : FrameTrack l)
    (hdur : ∀ last ∈ l.getLast?, P.streamDuration s = last.pts + last.duration)
    (hsplit : l = before ++ target :: after) (hcovers : target.Covers pos)
    (hland : DemuxerQueue.LandsOnLastKey P s l pos ∨ Fits before)
    {r : ReaderFF (DemuxerQueue π) κ} (h : r.Plays P s) (hread : r.lastValidFrame.isSome)
    (hstate : r.state ≠ .error) :
    SetsPosition (DemuxerQueue.toIDemuxer P) C s pos target.pts r ↔
      r.needBreakReading = false ∧ delay < after.length ∧ PlacedAt before target pos := by
  constructor
  · rintro ⟨r', hok, hlt, f, hf, hts⟩
    obtain ⟨hgoes, front, key, rest, skipped, x, due, hk, hdue, hx, hskip, hlen, g, hg, hgts⟩ :=
      h.setPositionImpl_inv hC hP hl hdur hsplit hcovers hland hread hstate hok hlt
    obtain rfl : f = g := by
      rw [hg] at hf
      exact (Option.some.inj hf).symm
    -- the last frame read is the target's, so the packet taken by the loop is the target
    have htrack : Timed (before ++ target :: after) := hsplit ▸ hl.timed
    have hwhole : before ++ target :: after = (front ++ skipped) ++ x :: due := by
      rw [hk.split, hdue, List.append_assoc]
    obtain ⟨-, rfl, rfl⟩ := htrack.split_unique hwhole (hts.symm.trans hgts)
    exact ⟨hgoes, hlen, (placedAt_iff hl hsplit hcovers hk).mpr ⟨skipped, hdue, hx, hskip⟩⟩
  · rintro ⟨hgoes, hlen, hplaced⟩
    obtain ⟨r', hok, hlt, f, hf, hts, -⟩ :=
      h.setPositionImpl_delivers hC hP hl hdur hsplit hcovers hland hread hstate hgoes hlen hplaced
    exact ⟨r', hok, hlt, f, hf, hts⟩

end ReaderFF

/-! ## Files and codecs that meet the assumptions -/

/-- A codec that returns pictures in the order of their packets. -/
theorem fifoCodec_inOrder (delay : Nat) (fps : Int × Int) :
    (fifoCodec delay fps).InOrder delay (fun held k => k = held) fun k => k = [] := by
  refine ⟨?_, ?_, ?_, fun _ => rfl⟩
  · rintro held k p rfl
    refine ⟨_, _, rfl, ?_, rfl⟩
    rw [List.map_map]
    rfl
  · rintro held k rfl
    refine ⟨_, _, rfl, ?_, rfl⟩
    rw [List.map_map]
    rfl
  · rintro k rfl
    exact ⟨_, _, rfl, .inl rfl⟩

namespace DemuxerQueue

variable {file : List DataPacket} {pos : TimestampFF}

/-- In a file with one stream, the parser's suffix is the one from the last key packet on. -/
theorem keySuffix_eq (hown : ∀ p ∈ file, p.streamIndex = 0) :
    keySuffix 0 pos file =
      if fromLastKey pos file = [] then none else some (fromLastKey pos file) := by
  induction file with
  | nil => rfl
  | cons p rest ih =>
    have hrest := ih fun q hq => hown q (List.mem_cons_of_mem _ hq)
    unfold keySuffix fromLastKey
    rw [hrest]
    rcases hfound : fromLastKey pos rest with _ | ⟨q, found⟩
    · by_cases hkey : p.isKeyFrame = true ∧ p.pts ≤ pos
      · simp [hown p (by simp), hkey]
      · simp [hown p (by simp), hkey]
    · simp

/-- What is left from the last key packet is the end of the file, and starts with a key packet. -/
theorem fromLastKey_suffix (pos : TimestampFF) (file : List DataPacket) :
    fromLastKey pos file <:+ file ∧
      ∀ p ∈ (fromLastKey pos file).head?, p.isKeyFrame = true := by
  induction file with
  | nil => exact ⟨List.nil_suffix, by simp [fromLastKey]⟩
  | cons p rest ih =>
    unfold fromLastKey
    rcases hfound : fromLastKey pos rest with _ | ⟨q, found⟩ <;> rw [hfound] at ih
    · dsimp only
      split
      · rename_i hkey
        refine ⟨List.suffix_rfl, ?_⟩
        intro q hq
        obtain rfl : p = q := by simpa using hq
        exact hkey.1
      · exact ⟨List.nil_suffix, by simp⟩
    · exact ⟨ih.1.trans (List.suffix_cons p rest), ih.2⟩

/-- A file of one stream. -/
theorem ofStream_eq {ps : List DataPacket} (hown : ∀ p ∈ ps, p.streamIndex = 0) :
    ofStream 0 ps = ps := by
  unfold ofStream
  rw [List.filter_eq_self]
  intro p hp
  simp [hown p hp]

/-- Past zero the parser goes to the last key packet at or before the time, or fails. -/
theorem fileParser_seek (hown : ∀ p ∈ file, p.streamIndex = 0) (duration : TimeFF)
    (hpos : 0 < pos) (ahead : List DataPacket) (internal : Unit) :
    (fileParser file duration).seek 0 pos ahead internal =
      if fromLastKey pos file = [] then (false, ahead, ())
      else (true, fromLastKey pos file, ()) := by
  have hpast : ¬pos ≤ 0 := Int.not_le.mpr hpos
  simp only [fileParser, if_neg hpast, keySuffix_eq hown]
  by_cases hnil : fromLastKey pos file = [] <;> simp [hnil]

/-- The parser of the examples can seek. -/
theorem fileParser_seekable (hown : ∀ p ∈ file, p.streamIndex = 0) (duration : TimeFF) :
    Seekable (fileParser file duration) 0 file := by
  refine ⟨Nat.zero_lt_one, rfl, Nat.zero_lt_one, .inr rfl, fun _ _ => rfl,
    fun _ _ _ _ => ofStream_eq hown, ?_⟩
  intro time ahead internal htime hret
  have hseek := fileParser_seek hown duration htime ahead internal
  have hindex : (fileParser file duration).seekStream = 0 := rfl
  rw [hindex, hseek] at hret ⊢
  obtain ⟨hsuffix, hhead⟩ := fromLastKey_suffix time file
  split at hret
  · cases hret
  · rename_i hne
    rw [if_neg hne, ofStream_eq fun p hp => hown p (hsuffix.subset hp)]
    exact ⟨hsuffix.choose, hsuffix.choose_spec.symm, hhead⟩

/-- The parser of the examples goes to the last key packet. -/
theorem fileParser_lands (hown : ∀ p ∈ file, p.streamIndex = 0) (hl : FrameTrack file)
    (duration : TimeFF) (hpos : 0 ≤ pos) :
    LandsOnLastKey (fileParser file duration) 0 file pos := by
  obtain ⟨first, hfirst, hzero, hkey⟩ := hl.first
  obtain ⟨rest, rfl⟩ := List.head?_eq_some_iff.mp hfirst
  intro ahead internal
  have hindex : (fileParser (first :: rest) duration).seekStream = 0 := rfl
  rw [hindex]
  obtain ⟨hsuffix, -⟩ := fromLastKey_suffix pos (first :: rest)
  have hfound := ofStream_eq fun p hp => hown p (hsuffix.subset hp)
  rcases Int.lt_or_eq_of_le hpos with hlt | rfl
  · have hne : fromLastKey pos (first :: rest) ≠ [] := by
      unfold fromLastKey
      rcases fromLastKey pos rest with _ | ⟨q, found⟩
      · have hle : first.pts ≤ pos := by
          rw [hzero]
          exact hpos
        simp [hkey, hle]
      · simp
    rw [fileParser_seek hown duration hlt, if_neg hne]
    exact ⟨rfl, hfound⟩
  · have hlater : ∀ p ∈ rest, p.isKeyFrame = true → 0 < p.pts := by
      intro p hp _
      have hend := List.rel_of_pairwise_cons hl.ordered hp
      have hdur := hl.duration first (by simp)
      lia
    have hall : fromLastKey 0 ([] ++ first :: rest) = first :: rest :=
      fromLastKey_eq hkey (Int.le_of_eq hzero) hlater
    rw [List.nil_append] at hall
    rw [hall]
    exact ⟨rfl, ofStream_eq hown⟩

end DemuxerQueue

namespace ReaderWorker

open ReaderFF

/-- In every state that the worker and the posters reach with the worker in its loop, at least one
frame read and no error: `set_position_impl` ends with the frame at the position exactly when the
reader may go on, more than `delay` packets follow the frame, and the duration of the last key
packet before it places the frame at the position. -/
theorem sets_position_iff {π κ : Type} {P : ParserOps π} {C : CodecOps κ} {delay : Nat}
    {holds : List DataPacket → κ → Prop} {drained : κ → Prop}
    (hC : C.InOrder delay holds drained) {s : StreamId} {l before after : List DataPacket}
    {target : DataPacket} (hP : DemuxerQueue.Seekable P s l) (hl : FrameTrack l)
    (hdur : ∀ last ∈ l.getLast?, P.streamDuration s = last.pts + last.duration)
    (hsplit : l = before ++ target :: after) {pos : TimestampFF} (hcovers : target.Covers pos)
    (hland : DemuxerQueue.LandsOnLastKey P s l pos ∨ Fits before) {ahead : List DataPacket}
    {internal : π} {codec : κ} {mode : ReaderMode} {frameObservers readerObservers : List Nat}
    {w : ReaderWorker (DemuxerQueue π) κ}
    (hw : (machine (DemuxerQueue.toIDemuxer P) C
      (ReaderFF.opened (StreamReader.opened P ahead internal s codec) (some s) mode frameObservers
        readerObservers)).Reachable w)
    (hloop : w.InLoop) (hread : w.reader.lastValidFrame.isSome) (hstate : w.reader.state ≠ .error) :
    SetsPosition (DemuxerQueue.toIDemuxer P) C s pos target.pts w.reader ↔
      w.reader.needBreakReading = false ∧ delay < after.length ∧ PlacedAt before target pos :=
  setsPosition_iff hC hP hl hdur hsplit hcovers hland (plays_of_reachable hP.video hw hloop) hread
    hstate

/-- A file whose second frame is longer than its key frame. -/
def unevenFile : List DataPacket :=
  [⟨0, 0, 0, 40, true, 100⟩, ⟨0, 40, 40, 100, false, 100⟩, ⟨0, 140, 140, 40, false, 100⟩,
    ⟨0, 180, 180, 40, false, 100⟩]

/-- A reader of the uneven file and a codec without delay. -/
def unevenMachine : Machine (ReaderWorker (DemuxerQueue Unit) (List DataPacket)) ReaderLabel :=
  machine (DemuxerQueue.toIDemuxer (fileParser unevenFile 220)) (fifoCodec 0 (25, 1))
    (ReaderFF.opened (StreamReader.opened (fileParser unevenFile 220) unevenFile () 0 []) (some 0)
      .all [1] [1])

/-- `Play` is posted and the worker reads one frame. -/
def playOne : List ReaderLabel :=
  [.post .play, .notify, .work, .work, .work, .work, .work, .work, .work, .work, .work, .work]

theorem unevenFile_track : FrameTrack unevenFile :=
  ⟨⟨_, rfl, rfl, rfl⟩, by decide, by decide, by decide⟩

/-- The state after one frame; a change to position 100 from there fails. -/
theorem exists_playOne :
    ∃ w, unevenMachine.Reachable w ∧ w.InLoop ∧ w.reader.lastValidFrame.isSome ∧
      w.reader.state ≠ .error ∧ w.reader.needBreakReading = false ∧
      (setPositionImpl (DemuxerQueue.toIDemuxer (fileParser unevenFile 220)) (fifoCodec 0 (25, 1))
        100 w.reader).1 ≠ .ok () := by
  obtain ⟨w, -, hrun, hw⟩ := Machine.exists_run_of_exec unevenMachine playOne
    (fun w => decide (w.pc = .head) && w.reader.lastValidFrame.isSome &&
      decide (w.reader.state = .reading) && !w.reader.needBreakReading &&
      match (setPositionImpl (DemuxerQueue.toIDemuxer (fileParser unevenFile 220))
        (fifoCodec 0 (25, 1)) 100 w.reader).1 with
      | .ok _ => false
      | .error _ => true) (by decide +kernel)
  simp only [Bool.and_eq_true, decide_eq_true_eq, Bool.not_eq_true'] at hw
  obtain ⟨⟨⟨⟨hpc, hread⟩, hstate⟩, hgoes⟩, hfails⟩ := hw
  refine ⟨w, ⟨_, hrun⟩, ⟨by simp [hpc], by simp [hpc], by simp [hpc]⟩, hread, by simp [hstate], hgoes,
    fun hok => ?_⟩
  rw [hok] at hfails
  cases hfails

/-- The position lies in a frame that is longer than the key frame. -/
theorem sets_position_iff_uneven :
    ∃ w, unevenMachine.Reachable w ∧
      SetsPosition (DemuxerQueue.toIDemuxer (fileParser unevenFile 220)) (fifoCodec 0 (25, 1)) 0
        50 40 w.reader := by
  obtain ⟨w, hw, hloop, hread, hstate, hgoes, -⟩ := exists_playOne
  have hP : DemuxerQueue.Seekable (fileParser unevenFile 220) 0 unevenFile :=
    DemuxerQueue.fileParser_seekable (by decide) 220
  have hland : DemuxerQueue.LandsOnLastKey (fileParser unevenFile 220) 0 unevenFile 50 :=
    DemuxerQueue.fileParser_lands (by decide) unevenFile_track 220 (by decide)
  have hsplit : unevenFile =
      unevenFile.take 1 ++ ⟨0, 40, 40, 100, false, 100⟩ :: unevenFile.drop 2 := rfl
  have hcovers : DataPacket.Covers ⟨0, 40, 40, 100, false, 100⟩ 50 := ⟨by decide, by decide⟩
  have hiff := sets_position_iff (fifoCodec_inOrder 0 (25, 1)) hP unevenFile_track
    (by rintro last ⟨⟩; rfl) hsplit hcovers (.inl hland) hw hloop hread hstate
  refine ⟨w, hw, hiff.mpr ⟨hgoes, by decide, .inr ⟨⟨0, 0, 0, 40, true, 100⟩, rfl, by decide, ?_⟩⟩⟩
  rintro prev ⟨⟩
  decide

/-- The frame at position 100 is not reached: it is longer than the key frame before it. -/
theorem set_position_misses :
    FrameTrack unevenFile ∧
      ¬∀ w, unevenMachine.Reachable w → w.InLoop → w.reader.lastValidFrame.isSome →
        w.reader.state ≠ .error → ∀ pos, ∀ target ∈ unevenFile, target.Covers pos →
          SetsPosition (DemuxerQueue.toIDemuxer (fileParser unevenFile 220)) (fifoCodec 0 (25, 1)) 0
            pos target.pts w.reader := by
  refine ⟨unevenFile_track, fun hall => ?_⟩
  obtain ⟨w, hw, hloop, hread, hstate, -, hfails⟩ := exists_playOne
  obtain ⟨r', hok, -⟩ := hall w hw hloop hread hstate 100 ⟨0, 40, 40, 100, false, 100⟩
    (by decide) ⟨by decide, by decide⟩
  rw [hok] at hfails
  exact hfails rfl

end ReaderWorker

end Seekira.Model
