import Seekira.Analysis.StepBackward
import Seekira.Library.Simulation
import Seekira.Model.FramePlayer

/-!
# The reader is a player

On a file of constant frame rate the reader does what the abstract player does: every
method of the reader that returns is a move of the player, and a method returns
exactly when the player can make the move.  So whatever events are posted and however
the worker's steps and the posters' are interleaved, the frames that the observers
are given are those that a player shows.
-/

set_option autoImplicit false

namespace Seekira.Model

open Library

/-! ## Files of constant frame rate -/

/-- Contiguous frames of one duration. -/
structure ConstantRate (d : TimeFF) (l : List DataPacket) : Prop where
  track : FrameTrack l
  rate : ∀ p ∈ l, p.duration = d

namespace ConstantRate

variable {d : TimeFF} {l : List DataPacket} {pos : TimestampFF}

theorem length_pos (h : ConstantRate d l) : 0 < l.length := by
  obtain ⟨first, hfirst, -⟩ := h.track.first
  rcases l with _ | ⟨p, l⟩
  · simp at hfirst
  · simp

theorem duration_pos (h : ConstantRate d l) : 0 < d := by
  have hmem := List.getElem_mem h.length_pos
  rw [← h.rate _ hmem]
  exact h.track.duration _ hmem

/-- Frame `i` starts after `i` durations. -/
theorem pts_getElem (h : ConstantRate d l) (i : Nat) (hi : i < l.length) :
    l[i].pts = i * d := by
  induction i with
  | zero =>
    obtain ⟨first, hfirst, hzero, -⟩ := h.track.first
    rw [List.head?_eq_getElem?, List.getElem?_eq_getElem hi] at hfirst
    obtain rfl := Option.some.inj hfirst
    simpa using hzero
  | succ i ih =>
    have hsplit : l = l.take i ++ l[i] :: l[i + 1] :: l.drop (i + 2) := by
      rw [List.getElem_cons_drop, List.getElem_cons_drop, List.take_append_drop]
    have hnext := h.track.next_pts hsplit
    have hrate := h.rate _ (List.getElem_mem (show i < l.length by omega))
    have hprev := ih (by omega)
    rw [hnext, hrate, hprev, Nat.cast_succ, Int.add_mul, Int.one_mul]

theorem split_getElem (i : Nat) (hi : i < l.length) :
    l = l.take i ++ l[i] :: l.drop (i + 1) := by
  rw [List.getElem_cons_drop, List.take_append_drop]

/-- A position in the file lies in the frame that the division by the duration gives. -/
theorem exists_frameAt {F : FrameRow} (h : ConstantRate F.duration l) (hpos : 0 ≤ pos)
    (hend : pos < l.length * F.duration) :
    ∃ hlt : FramePlayer.frameAt F pos < l.length, (l[FramePlayer.frameAt F pos]).Covers pos := by
  have hd := h.duration_pos
  have hquot : (FramePlayer.frameAt F pos : Int) = pos / F.duration :=
    Int.toNat_of_nonneg (Int.ediv_nonneg hpos hd.le)
  have hlow : pos / F.duration * F.duration ≤ pos := Int.ediv_mul_le pos hd.ne'
  have hhigh : pos < (pos / F.duration + 1) * F.duration := Int.lt_ediv_add_one_mul_self pos hd
  have hlt : FramePlayer.frameAt F pos < l.length := by
    rw [← Int.ofNat_lt, hquot]
    exact Int.ediv_lt_of_lt_mul hd hend
  refine ⟨hlt, ?_⟩
  have hpts := h.pts_getElem _ hlt
  rw [hquot] at hpts
  have hrate := h.rate _ (List.getElem_mem hlt)
  rw [Int.add_mul, Int.one_mul] at hhigh
  exact ⟨by rw [hpts]; exact hlow, by rw [hpts, hrate]; exact hhigh⟩

/-- The key packet's duration is that of every frame, so it places each of them. -/
theorem placedAt (h : ConstantRate d l) {before after : List DataPacket} {target : DataPacket}
    (hsplit : l = before ++ target :: after) (hcovers : target.Covers pos) :
    ReaderFF.PlacedAt before target pos := by
  obtain ⟨front, key, rest, hk⟩ := h.track.exists_keySplit hsplit hcovers
  rcases hk.cases with ⟨hkey, -⟩ | ⟨-, hlast, -⟩
  · exact .inl hkey
  · have hmem : key ∈ before := by
      unfold lastKey at hlast
      exact List.mem_of_mem_filter (List.mem_of_getLast? hlast)
    have hduration : key.duration = target.duration := by
      rw [h.rate key (by simp [hsplit, hmem]), h.rate target (by simp [hsplit])]
    refine .inr ⟨key, hlast, by rw [hduration]; exact hcovers.2, fun prev hprev => ?_⟩
    have hprevMem : prev ∈ before := List.mem_of_getLast? hprev
    have hend := (h.track.around hsplit).1 prev hprevMem
    have hsame : prev.duration = key.duration := by
      rw [h.rate key (by simp [hsplit, hmem]), h.rate prev (by simp [hsplit, hprevMem])]
    have hle := hcovers.1
    lia

end ConstantRate

/-! ## The reader follows the player -/

namespace ReaderFF

variable {π κ : Type} {P : ParserOps π} {C : CodecOps κ} {delay : Nat}
  {holds : List DataPacket → κ → Prop} {drained : κ → Prop} {s : StreamId} {l : List DataPacket}
  {d : TimeFF} {observers : List Nat} {p p' : FramePlayer} {r r' : ReaderFF (DemuxerQueue π) κ}

/-- The frames of a file, as the player has them. -/
def row (l : List DataPacket) (d : TimeFF) (delay : Nat) : FrameRow :=
  { count := l.length, duration := d, lag := delay + 1, fits := fun i => decide (Fits (l.drop i)) }

/-- Frame `i` of a file of constant rate. -/
def frameOf (d : TimeFF) (i : Nat) : Frame := ⟨i * d, d⟩

/-- The reader is where the player is: it stands before the next frame, remembers the last one and
has sent to each observer the frames shown. -/
structure Follows (P : ParserOps π) (s : StreamId) (delay : Nat)
    (holds : List DataPacket → κ → Prop) (l : List DataPacket) (d : TimeFF) (observers : List Nat)
    (p : FramePlayer) (r : ReaderFF (DemuxerQueue π) κ) : Prop where
  plays : r.Plays P s
  due : r.streamReader.Due P s delay holds (l.drop p.next)
  needStop : r.needStop = false
  state : r.state = .reading ∨ r.state = .paused
  invalid : r.invalidCounter = 0
  inRow : ∀ i ∈ p.current, i + (delay + 1) < l.length
  last : r.lastValidFrame = p.current.map (frameOf d)
  remembered : r.prevDuration = d ∨ (r.prevDuration = 0 ∧ ∀ i ∈ p.current, i = 0)
  mode : r.mode = .all
  handles : r.skipFrameHandle = false
  observing : r.frameObservers = ⟨observers, [], true⟩
  playing : r.continueReading = p.playing
  sent : r.sentFrames = p.shown.flatMap fun i => observers.map fun h => (h, frameOf d i)

namespace Follows

theorem goesOn (h : Follows P s delay holds l d observers p r) : r.needBreakReading = false := by
  unfold needBreakReading
  rcases h.state with hstate | hstate <;> simp [h.needStop, hstate, h.invalid]

theorem notError (h : Follows P s delay holds l d observers p r) : r.state ≠ .error := by
  rcases h.state with hstate | hstate <;> simp [hstate]

/-- Setting the state to reading or paused, or the flag that forces a frame to be handled, is not
the player's business. -/
theorem adjusted (h : Follows P s delay holds l d observers p r) {state : ReaderState}
    (hstate : state = .reading ∨ state = .paused) {sent : List (Nat × ReaderState)} {flag : Bool} :
    Follows P s delay holds l d observers p
      { r with state := state, sentStates := sent, needHandleAfterForceSetPos := flag } :=
  ⟨⟨h.plays.stream, h.plays.streams⟩, h.due, h.needStop, hstate, h.invalid, h.inRow, h.last,
    h.remembered, h.mode, h.handles, h.observing, h.playing, h.sent⟩

theorem setPlaying (h : Follows P s delay holds l d observers p r) (value : Bool) :
    Follows P s delay holds l d observers { p with playing := value }
      { r with continueReading := value } :=
  ⟨⟨h.plays.stream, h.plays.streams⟩, h.due, h.needStop, h.state, h.invalid, h.inRow, h.last,
    h.remembered, h.mode, h.handles, h.observing, rfl, h.sent⟩

end Follows

/-! ### Reading a frame -/

/-- The reader is about to read frame `i` and to hand it to the observers. -/
structure Poised (P : ParserOps π) (s : StreamId) (delay : Nat)
    (holds : List DataPacket → κ → Prop) (l : List DataPacket) (d : TimeFF) (observers : List Nat)
    (p : FramePlayer) (i : Nat) (r : ReaderFF (DemuxerQueue π) κ) : Prop where
  before : r.Before P s delay holds (l.drop i)
  needStop : r.needStop = false
  state : r.state = .reading ∨ r.state = .paused
  mode : r.mode = .all
  handles : r.skipFrameHandle = false
  observing : r.frameObservers = ⟨observers, [], true⟩
  playing : r.continueReading = p.playing
  sent : r.sentFrames = p.shown.flatMap fun i => observers.map fun h => (h, frameOf d i)
  last : (∃ f, r.lastValidFrame = some f ∧ f.duration = d) ∨ (r.lastValidFrame = none ∧ i = 0)

/-- What is due from frame `i` on. -/
theorem drop_eq_cons (hl : ConstantRate d l) {i : Nat} (hi : i + 1 < l.length) :
    ∃ x y, l.drop i = x :: y :: l.drop (i + 2) ∧ l.drop (i + 1) = y :: l.drop (i + 2) ∧
      (⟨x.pts, y.pts - x.pts⟩ : Frame) = frameOf d i := by
  refine ⟨l[i], l[i + 1], ?_, ?_, ?_⟩
  · rw [List.getElem_cons_drop, List.getElem_cons_drop]
  · rw [List.getElem_cons_drop]
  · rw [hl.pts_getElem, hl.pts_getElem, frameOf]
    congr 1
    push_cast
    rw [Int.add_mul, Int.one_mul]
    lia

/-- A frame that can be shown is read and sent; that no seek is pending then is left to the
caller. -/
theorem Poised.readFrame (hC : C.InOrder delay holds drained) (hs : s < P.streamCount)
    (hl : ConstantRate d l) {i : Nat} (h : Poised P s delay holds l d observers p i r)
    (hi : i + (delay + 1) < l.length) :
    ∃ r', ReaderFF.readFrame (DemuxerQueue.toIDemuxer P) C r = (.ok (), r') ∧
      (r'.Plays P s → Follows P s delay holds l d observers
        { p with current := some i, shown := p.shown ++ [i] } r') := by
  obtain ⟨x, y, hdue, hrest, hframe⟩ := drop_eq_cons hl (i := i) (by omega)
  have hbefore := h.before
  rw [hdue] at hbefore
  obtain ⟨w, hread, hbefore', -⟩ := hbefore.readFrame hC hs (by rw [List.length_drop]; omega)
  rw [hframe] at hread hbefore'
  have hhandle : needHandleFrame { r.withStreams w with
      isLastKeyFrame := (w.streams s).lastKeyFrame } = true := by
    simp [needHandleFrame, withStreams, h.handles, h.mode]
  refine ⟨_, hread, fun hplays => ⟨hplays, ?_, h.needStop, h.state, rfl, ?_, rfl, ?_, h.mode,
    h.handles, h.observing, h.playing, ?_⟩⟩
  · show (r.received s (some (frameOf d i)) w).streamReader.Due P s delay holds (l.drop (i + 1))
    rw [hrest]
    exact hbefore'.due
  · rintro j ⟨⟩
    exact hi
  · -- what the frame before lasted is remembered
    rcases h.last with ⟨f, hlast, hduration⟩ | ⟨hlast, rfl⟩
    · left
      simp [received, handleFrame, withStreams, hlast, hduration]
    · right
      simp [received, handleFrame, withStreams, hlast]
  · show (if needHandleFrame { r.withStreams w with isLastKeyFrame := _ } then
      r.sentFrames ++ r.frameObservers.performForEach.map _ else r.sentFrames) = _
    rw [if_pos hhandle, h.sent, h.observing]
    simp [EventHandlerList.performForEach]

/-- One that cannot be shown makes the reader fail. -/
theorem Poised.readFrame_end (hC : C.InOrder delay holds drained) (hs : s < P.streamCount)
    {i : Nat} (h : Poised P s delay holds l d observers p i r) (hlt : i < l.length)
    (hi : ¬i + (delay + 1) < l.length) :
    ReaderFF.readFrame (DemuxerQueue.toIDemuxer P) C r ≠ (.ok (), r') := by
  have hbefore := h.before
  rw [← List.getElem_cons_drop hlt] at hbefore
  obtain ⟨r'', hfail⟩ := hbefore.readFrame_end hC hs (by rw [List.length_drop]; omega)
  rw [hfail]
  simp

/-- A reader that follows the player stands before its next frame. -/
theorem Follows.poised (h : Follows P s delay holds l d observers p r) :
    Poised P s delay holds l d observers p p.next r where
  before := ⟨h.plays.stream, h.goesOn, h.due⟩
  needStop := h.needStop
  state := h.state
  mode := h.mode
  handles := h.handles
  observing := h.observing
  playing := h.playing
  sent := h.sent
  last := by
    rw [h.last, FramePlayer.next]
    cases p.current with
    | none => exact .inr ⟨rfl, rfl⟩
    | some i => exact .inl ⟨_, rfl, rfl⟩

/-- There is a frame after the one that is shown. -/
theorem Follows.next_lt (hl : ConstantRate d l) (h : Follows P s delay holds l d observers p r) :
    p.next < l.length := by
  unfold FramePlayer.next
  split
  · exact hl.length_pos
  · rename_i i hcurrent
    have := h.inRow i hcurrent
    omega

/-- A procedure of the reader does what a move of the player does: it returns exactly when the
player can make the move, and then the reader follows it. -/
def Matches (P : ParserOps π) (s : StreamId) (delay : Nat) (holds : List DataPacket → κ → Prop)
    (l : List DataPacket) (d : TimeFF) (observers : List Nat) (r : ReaderFF (DemuxerQueue π) κ)
    (f : Proc Fault (ReaderFF (DemuxerQueue π) κ) Unit) (res : Option FramePlayer) : Prop :=
  (∀ p', res = some p' → ∃ r', f r = (.ok (), r') ∧ Follows P s delay holds l d observers p' r') ∧
    (res = none → ∀ r', f r ≠ (.ok (), r'))

/-- `read_frame` shows the next frame. -/
theorem Follows.readFrame (hC : C.InOrder delay holds drained) (hs : s < P.streamCount)
    (hl : ConstantRate d l) (h : Follows P s delay holds l d observers p r) :
    Matches P s delay holds l d observers r (ReaderFF.readFrame (DemuxerQueue.toIDemuxer P) C)
      (p.display (row l d delay) p.next) := by
  by_cases hlag : p.next + (delay + 1) < l.length
  · simp only [Matches, FramePlayer.display, row, hlag, if_true, Option.some.injEq,
      forall_eq', reduceCtorEq, false_implies, and_true]
    obtain ⟨r', hread, hfollows⟩ := h.poised.readFrame hC hs hl hlag
    have hplays := plays_readFrame (P := P) (C := C) r h.plays
    rw [hread] at hplays
    exact ⟨r', hread, hfollows hplays⟩
  · simp only [Matches, FramePlayer.display, row, hlag, if_false, reduceCtorEq, false_implies,
      implies_true, true_and]
    exact fun _ r' => h.poised.readFrame_end hC hs (h.next_lt hl) hlag

/-! ### Changing the position -/

/-- What the reading loop of `set_position_impl` leaves as it is. -/
structure Steady (P : ParserOps π) (s : StreamId) (delay : Nat)
    (holds : List DataPacket → κ → Prop) (l : List DataPacket) (d : TimeFF)
    (state : ReaderState) (playing : Bool) (r : ReaderFF (DemuxerQueue π) κ) : Prop where
  stream : r.stream = some s
  due : ∃ i < l.length, r.streamReader.Due P s delay holds (l.drop i)
  needStop : r.needStop = false
  state : r.state = state
  mode : r.mode = .all
  playing : r.continueReading = playing
  last : ∃ f, r.lastValidFrame = some f ∧ f.duration = d

/-- A read of a frame keeps the reader at its row. -/
theorem restores_steady_readFrame (hC : C.InOrder delay holds drained) (hs : s < P.streamCount)
    (hl : ConstantRate d l) {state : ReaderState} {playing : Bool} :
    Proc.Restores (Steady P s delay holds l d state playing)
      (ReaderFF.readFrame (DemuxerQueue.toIDemuxer P) C) := by
  intro r h _ r' hok
  obtain ⟨i, hi, hdue⟩ := h.due
  by_cases hlag : i + (delay + 1) < l.length
  · obtain ⟨x, y, hsplit, hrest, hframe⟩ := drop_eq_cons hl (i := i) (by omega)
    rw [hsplit] at hdue
    obtain ⟨w, hread, hdue', -⟩ := StreamReader.readFrame_due hC hs hdue
      (by rw [List.length_drop]; omega)
    rw [hframe] at hread
    rw [readFrame_of_frame h.stream hread] at hok
    cases hok
    exact ⟨h.stream, ⟨i + 1, by omega, by rw [hrest]; exact hdue'⟩, h.needStop, h.state, h.mode,
      h.playing, _, rfl, rfl⟩
  · obtain ⟨w, hfail⟩ := StreamReader.readFrame_end hC hs hdue
      (by simpa using hi) (by rw [List.length_drop]; omega)
    rw [readFrame_of_error h.stream hfail] at hok
    cases hok

/-- The reading up to a position keeps the reader at its row. -/
theorem restores_steady_loop (hC : C.InOrder delay holds drained) (hs : s < P.streamCount)
    (hl : ConstantRate d l) {state : ReaderState} {playing : Bool} (pos : TimestampFF) (fuel : Nat)
    (next : TimestampFF) (duration : TimeFF) :
    Proc.Restores (Steady P s delay holds l d state playing)
      (setPositionLoop (DemuxerQueue.toIDemuxer P) C pos fuel next duration) := by
  induction fuel generalizing next duration with
  | zero => exact (Proc.keeps_throw _).restores
  | succ fuel ih =>
    unfold setPositionLoop
    refine Proc.restores_bind Proc.keeps_get.restores fun r => ?_
    refine Proc.restores_ite (fun _ => (Proc.keeps_pure _).restores) fun _ => ?_
    refine Proc.restores_bind (restores_steady_readFrame hC hs hl) fun _ => ?_
    refine Proc.restores_bind (keeps_ask streamPosition_asks).restores fun next => ?_
    exact Proc.restores_bind (keeps_ask fun _ _ => rfl).restores fun _ => ih _ _

/-- The first element with a property splits a list in one way. -/
theorem first_split_unique {α : Type} {Q : α → Prop} {a b a' b' : List α} {x x' : α}
    (heq : a ++ x :: b = a' ++ x' :: b') (hx : Q x) (hx' : Q x') (ha : ∀ y ∈ a, ¬Q y)
    (ha' : ∀ y ∈ a', ¬Q y) : a = a' ∧ x = x' ∧ b = b' := by
  induction a generalizing a' with
  | nil =>
    rcases a' with _ | ⟨y, a'⟩
    · obtain ⟨rfl, rfl⟩ := List.cons.inj heq
      exact ⟨rfl, rfl, rfl⟩
    · obtain ⟨rfl, -⟩ := List.cons.inj heq
      exact absurd hx (ha' x (by simp))
  | cons y a ih =>
    rcases a' with _ | ⟨z, a'⟩
    · obtain ⟨rfl, -⟩ := List.cons.inj heq
      exact absurd hx' (ha y (by simp))
    · obtain ⟨rfl, htail⟩ := List.cons.inj heq
      obtain ⟨rfl, hrest⟩ := ih htail (fun w hw => ha w (List.mem_cons_of_mem _ hw))
        fun w hw => ha' w (List.mem_cons_of_mem _ hw)
      exact ⟨rfl, hrest⟩

/-- Every seek of the parser finds the last key packet, or all packets before it fit into the
queue. -/
def SeeksWell (P : ParserOps π) (s : StreamId) (l : List DataPacket) : Prop :=
  ∀ before target after pos, l = before ++ target :: after → target.Covers pos →
    DemuxerQueue.LandsOnLastKey P s l pos ∨ Fits before

/-- The duration is that of the stream. -/
theorem getDuration_apply (h : r.Plays P s) :
    getDuration (DemuxerQueue.toIDemuxer P) r = (.ok (P.streamDuration s), r) := by
  unfold getDuration
  rw [Proc.get_bind_apply, h.stream]
  show onStream (StreamReader.getDuration (DemuxerQueue.toIDemuxer P)) r = _
  rw [onStream_apply h.stream]
  unfold StreamReader.getDuration
  rw [Proc.get_bind_apply, h.streams.hasReader]
  rfl

/-- A position past the end is ignored. -/
theorem setPositionImpl_past_end (h : r.Plays P s) {pos : TimestampFF}
    (hend : P.streamDuration s ≤ max pos 0) :
    setPositionImpl (DemuxerQueue.toIDemuxer P) C pos r = (.ok (), r) := by
  rw [setPositionImpl_clamp]
  unfold setPositionImpl
  dsimp only
  rw [if_neg (Int.not_lt.mpr (le_max_right pos 0)), Proc.bind_ok (getDuration_apply h),
    if_pos hend]
  rfl

/-- A reader that has read nothing cannot be positioned. -/
theorem setPositionImpl_unread (h : r.Plays P s) {pos : TimestampFF}
    (hend : max pos 0 < P.streamDuration s) (hlast : r.lastValidFrame = none) :
    setPositionImpl (DemuxerQueue.toIDemuxer P) C pos r ≠ (.ok (), r') := by
  have hthrows : getPosition r =
      (.error (.thrown "ReaderFF can't provide position: invalid last frame!"), r) := by
    unfold getPosition
    rw [Proc.get_bind_apply, hlast]
    rfl
  rw [setPositionImpl_clamp]
  unfold setPositionImpl
  dsimp only
  rw [if_neg (Int.not_lt.mpr (le_max_right pos 0)), Proc.bind_ok (getDuration_apply h),
    if_neg (Int.not_le.mpr hend), Proc.bind_error hthrows]
  simp

/-- The last part of `set_position_impl`, from a reader that stands before the wanted frame. -/
theorem Poised.readTarget (hC : C.InOrder delay holds drained) (hs : s < P.streamCount)
    (hl : ConstantRate d l) {i : Nat} (h : Poised P s delay holds l d observers p i r.handling)
    (hi : i + (delay + 1) < l.length) {prevState : ReaderState}
    (hprev : prevState = .reading ∨ prevState = .paused) :
    ∃ r', ReaderFF.readTarget (DemuxerQueue.toIDemuxer P) C prevState r = (.ok (), r') ∧
      (r'.Plays P s → Follows P s delay holds l d observers
        { p with current := some i, shown := p.shown ++ [i] } r') := by
  have hbefore : r.Before P s delay holds (l.drop i) :=
    ⟨h.before.stream, h.before.goesOn, h.before.due⟩
  obtain ⟨r₁, hread, hfollows⟩ := h.readFrame hC hs hl hi
  refine ⟨(setReaderState prevState r₁).2, ?_, fun hplays =>
    (hfollows ⟨hplays.stream, hplays.streams⟩).adjusted hprev⟩
  rw [(hbefore.readTarget_eq prevState).2, Proc.bind_ok hread]
  rfl

/-- `set_position_impl` shows the frame at the position. -/
theorem Follows.setPositionImpl (hC : C.InOrder delay holds drained)
    (hP : DemuxerQueue.Seekable P s l) (hl : ConstantRate d l) (hwell : SeeksWell P s l)
    (hend : P.streamDuration s = l.length * d)
    (h : Follows P s delay holds l d observers p r) (pos : TimestampFF) :
    Matches P s delay holds l d observers r (ReaderFF.setPositionImpl (DemuxerQueue.toIDemuxer P) C pos)
      (p.seekTo (row l d delay) pos) := by
  by_cases hpast : (l.length : Int) * d ≤ max pos 0
  · have hsame : p.seekTo (row l d delay) pos = some p := by
      simp [FramePlayer.seekTo, row, hpast]
    have hok : ReaderFF.setPositionImpl (DemuxerQueue.toIDemuxer P) C pos r = (.ok (), r) :=
      setPositionImpl_past_end h.plays (by rw [hend]; exact hpast)
    rw [hsame]
    exact ⟨by rintro p' ⟨⟩; exact ⟨r, hok, h⟩, by simp⟩
  have hbound : max pos 0 < l.length * d := Int.not_le.mp hpast
  rcases hcurrent : p.current with _ | current
  · have hnone : p.seekTo (row l d delay) pos = none := by
      simp [FramePlayer.seekTo, row, hpast, hcurrent]
    rw [hnone]
    refine ⟨by simp, fun _ r' => setPositionImpl_unread h.plays (by rw [hend]; exact hbound) ?_⟩
    rw [h.last, hcurrent]
    rfl
  obtain ⟨hlt, hcovers⟩ := ConstantRate.exists_frameAt (F := row l d delay) hl (le_max_right pos 0)
    hbound
  set i := FramePlayer.frameAt (row l d delay) (max pos 0) with hi
  have hseek : p.seekTo (row l d delay) pos = p.display (row l d delay) i := by
    simp [FramePlayer.seekTo, hcurrent, hi, row, hpast]
  have hsplit := ConstantRate.split_getElem i hlt
  have hdur : ∀ last ∈ l.getLast?, P.streamDuration s = last.pts + last.duration := by
    intro last hlast
    rw [List.getLast?_eq_getElem?, List.getElem?_eq_getElem (by omega)] at hlast
    obtain rfl := Option.some.inj hlast
    have hpos := hl.length_pos
    rw [hend, hl.pts_getElem, hl.rate _ (List.getElem_mem _), Nat.cast_sub (by omega)]
    push_cast
    rw [Int.sub_mul]
    lia
  have hread : r.lastValidFrame.isSome := by simp [h.last, hcurrent]
  obtain ⟨front, key, rest, w, hk, hsought, -, heq⟩ := h.plays.setPositionImpl_sought hC hP hl.track
    hdur hsplit hcovers (hwell _ _ _ _ hsplit hcovers) hread h.notError
  obtain ⟨skipped, hdue, hmeasured, hskip⟩ :=
    (placedAt_iff hl.track hsplit hcovers hk).mp (hl.placedAt hsplit hcovers)
  rw [hseek, setPositionImpl_clamp]
  by_cases hlag : i + (delay + 1) < l.length
  · have hdisplay : p.display (row l d delay) i =
        some { p with current := some i, shown := p.shown ++ [i] } := by
      simp [FramePlayer.display, row, hlag]
    rw [hdisplay]
    refine ⟨?_, by simp⟩
    rintro p' ⟨⟩
    obtain ⟨fuel, hfuel, hloop⟩ := hsought.readUpTo_eq (C := C) (max pos 0) hP.lt
      (r := r.disableObservers.withStreams w) h.plays.stream r.state
    set r₀ : ReaderFF (DemuxerQueue π) κ :=
      { r.disableObservers.withStreams w with skipFrameHandle := true } with hr₀
    have hbefore : r₀.Before P s delay holds (skipped ++ l[i] :: l.drop (i + 1)) := by
      rw [← hdue]
      exact ⟨h.plays.stream, h.goesOn, hsought.due⟩
    have hlength := congrArg List.length hdue
    simp only [List.length_append, List.length_cons] at hlength
    have hfirst : ∀ p ∈ (skipped ++ l[i] :: l.drop (i + 1)).head?, key.pts = p.pts := by
      rw [← hdue]
      simp
    have henough : skipped.length < fuel := by omega
    obtain ⟨r₁, hreaches, hbefore₁, -, hquiet⟩ := hbefore.loop_reaches hC hP.lt hmeasured
      (by rw [List.length_drop]; omega) hskip henough rfl hfirst
    -- the loop changes nothing else that the player could notice
    have hsteady : r₁.Steady P s delay holds l d r.state p.playing := by
      have hfront : key :: rest = l.drop front.length := by
        rw [hsplit, hk.split, List.drop_left]
      refine restores_steady_loop hC hP.lt hl _ _ _ _ r₀ ⟨h.plays.stream,
        ⟨front.length, ?_, hfront ▸ hsought.due⟩, h.needStop, rfl, h.mode, h.playing,
        frameOf d current, ?_, rfl⟩ () r₁ hreaches
      · rw [hsplit, hk.split]
        simp
      · show r.lastValidFrame = _
        rw [h.last, hcurrent]
        rfl
    have hpoised : Poised P s delay holds l d observers p i r₁.handling :=
      { before := by
          rw [← List.getElem_cons_drop hlt]
          exact (hbefore₁.readTarget_eq (C := C) r.state).1
        needStop := hsteady.needStop
        state := by
          show r₁.state = _ ∨ r₁.state = _
          rw [hsteady.state]
          exact h.state
        mode := hsteady.mode
        handles := rfl
        observing := by
          show r₁.frameObservers.enable = _
          rw [hquiet.observers]
          show r.frameObservers.disable.enable = _
          rw [h.observing]
          rfl
        playing := hsteady.playing
        sent := hquiet.sent.trans h.sent
        last := .inl hsteady.last }
    obtain ⟨r', hok, hfollows⟩ := hpoised.readTarget hC hP.lt hl hlag h.state
    have hret : ReaderFF.setPositionImpl (DemuxerQueue.toIDemuxer P) C (max pos 0) r = (.ok (), r') := by
      rw [heq, hloop, Proc.bind_ok hreaches]
      exact hok
    exact ⟨r', hret, hfollows (plays_restoredByCalls.setPositionImpl _ r h.plays () r' hret)⟩
  · have hnone : p.display (row l d delay) i = none := by
      simp [FramePlayer.display, row, hlag]
    rw [hnone]
    refine ⟨by simp, fun _ r' hok => ?_⟩
    rw [heq] at hok
    obtain ⟨skipped', x, after, hdue', hx, hskip', hlen, -⟩ :=
      Sought.reads_inv (r := r.disableObservers.withStreams w) hC hP.lt hsought h.plays.stream
        h.goesOn hok
    obtain ⟨-, -, rfl⟩ := first_split_unique (hdue'.symm.trans hdue) hx hmeasured hskip' hskip
    rw [List.length_drop] at hlen
    omega

/-! ### Events -/

/-- A procedure that returns without a change does nothing. -/
theorem matches_pure (h : Follows P s delay holds l d observers p r) :
    Matches P s delay holds l d observers r (pure ()) (some p) :=
  ⟨by rintro p' ⟨⟩; exact ⟨r, rfl, h⟩, by simp⟩

/-- The flag that forces a frame to be handled is not the player's business. -/
theorem matches_forceHandle {f : Proc Fault (ReaderFF (DemuxerQueue π) κ) Unit}
    {res : Option FramePlayer} (h : Matches P s delay holds l d observers
      { r with needHandleAfterForceSetPos := true } f res) :
    Matches P s delay holds l d observers r (forceHandle f) res := by
  constructor
  · intro p' hp'
    obtain ⟨r', hok, hfollows⟩ := h.1 p' hp'
    refine ⟨{ r' with needHandleAfterForceSetPos := false }, ?_, hfollows.adjusted hfollows.state⟩
    unfold forceHandle
    rw [Proc.modify_bind_apply, Proc.bind_ok hok]
    rfl
  · intro hnone r' hok
    unfold forceHandle at hok
    rw [Proc.modify_bind_apply] at hok
    obtain ⟨_, r₁, hf, -⟩ := Proc.bind_inv hok
    exact h.2 hnone r₁ hf

/-- A change of the position by an amount from where the reader is. -/
theorem Follows.shift (hC : C.InOrder delay holds drained)
    (hP : DemuxerQueue.Seekable P s l) (hl : ConstantRate d l) (hwell : SeeksWell P s l)
    (hend : P.streamDuration s = l.length * d) (h : Follows P s delay holds l d observers p r)
    (f : TimestampFF → TimestampFF) :
    Matches P s delay holds l d observers r (do
        let position ← getPosition
        ReaderFF.setPositionImpl (DemuxerQueue.toIDemuxer P) C (f position))
      (p.current.bind fun i => p.seekTo (row l d delay) (f (i * d))) := by
  rcases hcurrent : p.current with _ | i
  · refine ⟨by simp, fun _ r' hok => ?_⟩
    obtain ⟨position, r₁, hposition, -⟩ := Proc.bind_inv hok
    have hsome := (getPosition_returns hposition).2
    rw [h.last, hcurrent] at hsome
    cases hsome
  · have hposition : getPosition r = (.ok (i * d), r) := by
      unfold getPosition
      rw [Proc.get_bind_apply, h.last, hcurrent]
      rfl
    have hset := h.setPositionImpl hC hP hl hwell hend (f (i * d))
    simp only [Matches, Proc.bind_ok hposition, Option.bind_some]
    exact hset

/-- Going back by a duration shows the frame before, or the first one again. -/
theorem seekTo_back (hl : ConstantRate d l) {i : Nat} (hi : i < l.length)
    (hcurrent : p.current = some i) {duration : TimeFF}
    (hduration : duration = d ∨ (duration = 0 ∧ i = 0)) :
    p.seekTo (row l d delay) (i * d - duration) = p.display (row l d delay) (i - 1) := by
  have hd := hl.duration_pos
  have hmax : max (i * d - duration) 0 = ((i - 1 : Nat) : Int) * d := by
    rcases hduration with rfl | ⟨rfl, rfl⟩
    · rcases i with _ | i
      · simpa using hd.le
      · rw [Nat.add_sub_cancel, Nat.cast_succ, Int.add_mul, Int.one_mul, Int.add_sub_cancel]
        exact max_eq_left (Int.mul_nonneg (Int.natCast_nonneg i) hd.le)
    · simp
  have hin : ¬(l.length : Int) * d ≤ ((i - 1 : Nat) : Int) * d := by
    rw [Int.not_le]
    exact Int.mul_lt_mul_of_pos_right (Int.ofNat_lt.mpr (by omega)) hd
  have hframe : FramePlayer.frameAt (row l d delay) (((i - 1 : Nat) : Int) * d) = i - 1 := by
    show (((i - 1 : Nat) : Int) * d / d).toNat = i - 1
    rw [Int.mul_ediv_cancel _ hd.ne']
    exact Int.toNat_natCast _
  have hin' : ¬((row l d delay).count : Int) * (row l d delay).duration ≤ ((i - 1 : Nat) : Int) * d :=
    hin
  unfold FramePlayer.seekTo
  rw [hmax, if_neg hin', if_pos (by simp [hcurrent]), hframe]

/-- Every event but a stop is a move of the player. -/
theorem Follows.handleEvent (hC : C.InOrder delay holds drained)
    (hP : DemuxerQueue.Seekable P s l) (hl : ConstantRate d l) (hwell : SeeksWell P s l)
    (hend : P.streamDuration s = l.length * d) (h : Follows P s delay holds l d observers p r)
    {event : ReaderEvent} (hevent : event ≠ .stop) :
    Matches P s delay holds l d observers r
      (ReaderFF.handleEvent (DemuxerQueue.toIDemuxer P) C event)
      (p.step (row l d delay) (.event event)) := by
  have hforced : Follows P s delay holds l d observers p
      { r with needHandleAfterForceSetPos := true } := h.adjusted h.state
  cases event with
  | play => exact ⟨by rintro p' ⟨⟩; exact ⟨_, rfl, h.setPlaying true⟩, by simp [FramePlayer.step]⟩
  | pause => exact ⟨by rintro p' ⟨⟩; exact ⟨_, rfl, h.setPlaying false⟩, by simp [FramePlayer.step]⟩
  | stop => exact absurd rfl hevent
  | stepForward =>
    simp only [ReaderFF.handleEvent, FramePlayer.step]
    unfold Matches stepForwardImpl
    simp only [Proc.get_bind_apply, h.playing]
    split
    · exact matches_pure h
    · exact matches_forceHandle (hforced.readFrame hC hP.lt hl)
  | stepBackward =>
    simp only [ReaderFF.handleEvent, FramePlayer.step]
    unfold Matches stepBackwardImpl
    simp only [Proc.get_bind_apply, h.playing]
    split
    · exact matches_pure h
    · have hshift := hforced.shift hC hP hl hwell hend fun position => position - r.prevDuration
      have hback : (p.current.bind fun i =>
          p.seekTo (row l d delay) (i * d - r.prevDuration)) =
          p.current.bind fun i => p.display (row l d delay) (i - 1) := by
        rcases hcurrent : p.current with _ | i
        · rfl
        · have hin := h.inRow i hcurrent
          refine seekTo_back hl (by omega) hcurrent ?_
          exact h.remembered.imp_right fun hzero => ⟨hzero.1, hzero.2 i hcurrent⟩
      rw [hback] at hshift
      exact matches_forceHandle hshift
  | rewindForward =>
    exact matches_forceHandle (hforced.shift hC hP hl hwell hend fun position => position + stepValue)
  | rewindBackward =>
    exact matches_forceHandle (hforced.shift hC hP hl hwell hend fun position => position - stepValue)
  | setPosition pos => exact h.setPositionImpl hC hP hl hwell hend pos

end ReaderFF

end Seekira.Model
