import Seekira.Analysis.SetPosition

/-!
# What `set_position_impl` leaves behind

While it works, `set_position_impl` keeps both observer lists disabled, and while it
reads it skips the handling of frames.  The only exit that undoes both is the last
one: an accepted seek followed by a loop that reaches its frame.  A refused seek
returns with the lists disabled and the error unpublished, and a loop that was broken
returns with the frames still skipped.
-/

set_option autoImplicit false

namespace Seekira.Model

open Library

/-- The handlers of a list; while it is disabled they are parked in the cache. -/
def EventHandlerList.handlers {η : Type} (h : EventHandlerList η) : List η :=
  if h.enabled then h.subscribers else h.cache

theorem EventHandlerList.enable_disable_handlers {η : Type} [DecidableEq η]
    (h : EventHandlerList η) :
    h.disable.enable.enabled = true ∧ h.disable.enable.subscribers = h.handlers := by
  unfold disable enable handlers
  rcases henabled : h.enabled with _ | _ <;> simp [henabled]

theorem EventHandlerList.enabled_disable {η : Type} [DecidableEq η] (h : EventHandlerList η) :
    h.disable.enabled = false := by
  unfold disable
  rcases henabled : h.enabled with _ | _ <;> simp [henabled]

namespace ReaderFF

variable {δ κ : Type} {D : IDemuxer δ} {C : CodecOps κ} {s : StreamId} {pos : TimestampFF}

/-- The state that a state observer was last told. -/
def lastSentState (handler : Nat) (r : ReaderFF δ κ) : Option ReaderState :=
  ((r.sentStates.filter fun sent => sent.1 = handler).getLast?).map fun sent => sent.2

/-- Every state observer was last told the state of the reader. -/
def Published (r : ReaderFF δ κ) : Prop :=
  ∀ handler ∈ r.readerObservers.handlers, r.lastSentState handler = some r.state

/-- What `set_position_impl` should leave behind when it was called on `r`. -/
structure Restored (r r' : ReaderFF δ κ) : Prop where
  frames : r'.frameObservers.enabled = true ∧
    r'.frameObservers.subscribers = r.frameObservers.handlers
  states : r'.readerObservers.enabled = true ∧
    r'.readerObservers.subscribers = r.readerObservers.handlers
  handles : r'.skipFrameHandle = false
  published : r'.state = .error → r'.Published

/-- Nothing is left over from an earlier call. -/
structure Clean (r : ReaderFF δ κ) : Prop where
  frames : r.frameObservers.enabled = true
  states : r.readerObservers.enabled = true
  handles : r.skipFrameHandle = false
  published : r.state = .error → r.Published

/-- No stop was requested and the state is one in which frames are read. -/
def MayRead (r : ReaderFF δ κ) : Prop :=
  r.needStop = false ∧ r.state ≠ .error ∧ r.state ≠ .stopped ∧ r.state ≠ .undefined

theorem needBreakReading_eq_false_iff (r : ReaderFF δ κ) :
    r.needBreakReading = false ↔ r.MayRead ∧ r.invalidCounter ≤ maxInvalidThreshold := by
  unfold needBreakReading MayRead
  cases r.needStop <;> cases r.state <;> simp

/-! ## Reading towards the position -/

/-- The stream reaches a frame that the loop takes for the wanted one, at most ten reads in a row
returning no frame; `next` is the timestamp of the next frame, `duration` the one that the loop
goes by and `invalid` the number of reads without a frame. -/
inductive ReachesTarget (D : IDemuxer δ) (C : CodecOps κ) (s : StreamId) (pos : TimestampFF) :
    StreamReader δ κ → TimestampFF → TimeFF → Nat → Prop where
  | here {w : StreamReader δ κ} {next : TimestampFF} {duration : TimeFF} {invalid : Nat}
      (hvalid : invalid ≤ maxInvalidThreshold)
      (htarget : isTargetFrame pos next (next + duration) = true) :
      ReachesTarget D C s pos w next duration invalid
  | frame {w w' : StreamReader δ κ} {next : TimestampFF} {duration : TimeFF} {invalid : Nat}
      {out : Option Frame} (hvalid : invalid ≤ maxInvalidThreshold)
      (hother : isTargetFrame pos next (next + duration) = false)
      (hread : StreamReader.readFrame D C s w = (.ok out, w'))
      (hrest : ReachesTarget D C s pos w' (w'.streams s).position
        (if w'.getPktDuration s ≠ avNoPtsValue then w'.getPktDuration s else duration)
        (if out.isSome then 0 else invalid + 1)) :
      ReachesTarget D C s pos w next duration invalid

/-- A read changes neither the state nor the observers nor the flags of the reader. -/
structure SameControls (r r' : ReaderFF δ κ) : Prop where
  stream : r'.stream = r.stream
  state : r'.state = r.state
  needStop : r'.needStop = r.needStop
  skipFrameHandle : r'.skipFrameHandle = r.skipFrameHandle
  frameObservers : r'.frameObservers = r.frameObservers
  readerObservers : r'.readerObservers = r.readerObservers

theorem SameControls.refl (r : ReaderFF δ κ) : SameControls r r := ⟨rfl, rfl, rfl, rfl, rfl, rfl⟩

theorem SameControls.trans {r₁ r₂ r₃ : ReaderFF δ κ} (h : SameControls r₁ r₂)
    (h' : SameControls r₂ r₃) : SameControls r₁ r₃ :=
  ⟨h'.stream.trans h.stream, h'.state.trans h.state, h'.needStop.trans h.needStop,
    h'.skipFrameHandle.trans h.skipFrameHandle, h'.frameObservers.trans h.frameObservers,
    h'.readerObservers.trans h.readerObservers⟩

theorem SameControls.mayRead_iff {r r' : ReaderFF δ κ} (h : SameControls r r') :
    r'.MayRead ↔ r.MayRead := by
  unfold MayRead
  rw [h.needStop, h.state]

theorem sameControls_received (out : Option Frame) (w : StreamReader δ κ) (r : ReaderFF δ κ) :
    SameControls r (r.received s out w) := by
  cases out <;> exact ⟨rfl, rfl, rfl, rfl, rfl, rfl⟩

theorem invalidCounter_received (out : Option Frame) (w : StreamReader δ κ) (r : ReaderFF δ κ) :
    (r.received s out w).invalidCounter = if out.isSome then 0 else r.invalidCounter + 1 := by
  cases out <;> rfl

/-- A call that returned the position of the stream. -/
theorem getPosition_inv {r r' : ReaderFF δ κ} {position : TimestampFF} (hs : r.stream = some s)
    (h : onStream StreamReader.getPosition r = (.ok position, r')) :
    position = (r.streamReader.streams s).position ∧ r' = r := by
  obtain ⟨w, hposition, rfl⟩ := onStream_inv hs h
  unfold StreamReader.getPosition at hposition
  rw [Proc.get_bind_apply] at hposition
  rcases hreader : (r.streamReader.streams s).hasReader with _ | _ <;> rw [hreader] at hposition
  · cases hposition
  · cases hposition
    exact ⟨rfl, rfl⟩

/-- A call that returned the duration of the kept packet. -/
theorem getPktDuration_inv {r r' : ReaderFF δ κ} {duration : TimeFF} (hs : r.stream = some s)
    (h : onStream (fun s => do
      let w ← Proc.get
      return w.getPktDuration s) r = (.ok duration, r')) :
    duration = r.streamReader.getPktDuration s ∧ r' = r := by
  obtain ⟨w, hduration, rfl⟩ := onStream_inv hs h
  cases hduration
  exact ⟨rfl, rfl⟩

/-- The loop ends unbroken exactly when the stream reaches the target. -/
theorem setPositionLoop_unbroken_iff {fuel : Nat} {next : TimestampFF} {duration : TimeFF}
    {r r' : ReaderFF δ κ} (hs : r.stream = some s)
    (h : setPositionLoop D C pos fuel next duration r = (.ok (), r')) :
    SameControls r r' ∧ (r'.needBreakReading = false ↔
      r.MayRead ∧ ReachesTarget D C s pos r.streamReader next duration r.invalidCounter) := by
  induction fuel generalizing r next duration with
  | zero => cases h
  | succ fuel ih =>
    unfold setPositionLoop at h
    rw [Proc.get_bind_apply] at h
    rcases hbreak : r.needBreakReading with _ | _
    · obtain ⟨hmay, hvalid⟩ := (needBreakReading_eq_false_iff r).mp hbreak
      rcases htarget : isTargetFrame pos next (next + duration) with _ | _
      · -- the loop reads a frame and goes on from where the stream stands
        simp only [hbreak, htarget, Bool.or_self, Bool.false_eq_true, if_false] at h
        obtain ⟨_, r₁, hread, h⟩ := Proc.bind_inv h
        obtain ⟨position, r₂, hposition, h⟩ := Proc.bind_inv h
        obtain ⟨fromStream, r₃, hduration, h⟩ := Proc.bind_inv h
        obtain ⟨out, w, hstream, rfl, -⟩ := readFrame_inv hs hread
        have hs₁ : (r.received s out w).stream = some s := by rw [stream_received, hs]
        obtain ⟨rfl, rfl⟩ := getPosition_inv hs₁ hposition
        obtain ⟨rfl, rfl⟩ := getPktDuration_inv hs₁ hduration
        obtain ⟨hsame, hiff⟩ := ih hs₁ h
        have hsame₁ := sameControls_received (s := s) out w r
        refine ⟨hsame₁.trans hsame, hiff.trans ?_⟩
        rw [hsame₁.mayRead_iff, invalidCounter_received]
        rw [streamReader_received] at *
        constructor
        · rintro ⟨-, hreach⟩
          exact ⟨hmay, .frame hvalid htarget hstream hreach⟩
        · rintro ⟨-, hreach⟩
          cases hreach with
          | here _ htarget' =>
            rw [htarget] at htarget'
            cases htarget'
          | frame _ _ hstream' hrest =>
            rw [hstream] at hstream'
            cases hstream'
            exact ⟨hmay, hrest⟩
      · simp only [hbreak, htarget, Bool.or_true, if_true, Proc.pure_apply] at h
        obtain rfl := (Prod.mk.inj h).2
        exact ⟨SameControls.refl r, fun _ => ⟨hmay, .here hvalid htarget⟩, fun _ => hbreak⟩
    · simp only [hbreak, Bool.true_or, if_true, Proc.pure_apply] at h
      obtain rfl := (Prod.mk.inj h).2
      refine ⟨SameControls.refl r, fun hgoes => ?_, ?_⟩
      · rw [hbreak] at hgoes
        cases hgoes
      · rintro ⟨hmay, hreach⟩
        -- both ways to reach the target ask for a counter within the threshold
        have hvalid : r.invalidCounter ≤ maxInvalidThreshold := by
          cases hreach with
          | here hvalid _ => exact hvalid
          | frame hvalid _ _ _ => exact hvalid
        exact (needBreakReading_eq_false_iff r).mpr ⟨hmay, hvalid⟩

/-! ## The seek -/

/-- The two calls of the stream in `seek` and the answer it looks at. -/
def seekStream (D : IDemuxer δ) (C : CodecOps κ) (s : StreamId) (pos : TimestampFF) :
    Proc Fault (StreamReader δ κ) Bool := do
  StreamReader.requestSeek D C s pos none
  StreamReader.doSeek D s
  let w ← Proc.get
  return (w.streams s).lastSeekResult

/-- An accepted seek moves only the stream; a refused one puts the reader into `error`. -/
theorem seek_inv {r r' : ReaderFF δ κ} (hs : r.stream = some s)
    (h : ReaderFF.seek D C pos r = (.ok (), r')) :
    ∃ accepted w, seekStream D C s pos r.streamReader = (.ok accepted, w) ∧
      (accepted = true → r' = r.withStreams w) ∧
      (accepted = false → r'.state = .error ∧ r'.frameObservers = r.frameObservers) := by
  unfold ReaderFF.seek at h
  obtain ⟨_, r₁, hrequest, h⟩ := Proc.bind_inv h
  obtain ⟨_, r₂, hdo, h⟩ := Proc.bind_inv h
  obtain ⟨accepted, r₃, hresult, h⟩ := Proc.bind_inv h
  obtain ⟨w₁, hw₁, rfl⟩ := onStream_inv hs hrequest
  obtain ⟨w₂, hw₂, rfl⟩ := onStream_inv (r := r.withStreams w₁) hs hdo
  obtain ⟨w₃, hw₃, rfl⟩ := onStream_inv (r := (r.withStreams w₁).withStreams w₂) hs hresult
  refine ⟨accepted, w₃, ?_, ?_⟩
  · unfold seekStream
    rw [streamReader_withStreams] at hw₂ hw₃
    rw [Proc.bind_ok hw₁, Proc.bind_ok hw₂]
    exact hw₃
  · rcases accepted with _ | _
    · cases h
      exact ⟨nofun, fun _ => ⟨rfl, rfl⟩⟩
    · obtain ⟨position, r₄, hposition, h⟩ := Proc.bind_inv h
      cases h
      have hs₃ : (((r.withStreams w₁).withStreams w₂).withStreams w₃).stream = some s := hs
      obtain ⟨-, rfl⟩ := getPosition_inv hs₃ hposition
      exact ⟨fun _ => rfl, nofun⟩

/-! ## The exits -/

/-- When the call on `r` leaves everything restored: the position lies beyond the end of the stream
and nothing is left over from an earlier call; or frames may be read, the stream accepts the seek
and the loop then reaches its target. -/
def RestoresFrom (D : IDemuxer δ) (C : CodecOps κ) (pos : TimestampFF) (r : ReaderFF δ κ) : Prop :=
  ∃ s, r.stream = some s ∧
    ((D.streamDuration s ≤ max pos 0 ∧ r.Clean) ∨
      (max pos 0 < D.streamDuration s ∧ r.MayRead ∧
        ∃ w, seekStream D C s (max pos 0) r.streamReader = (.ok true, w) ∧
          ReachesTarget D C s (max pos 0) w (w.streams s).position (w.getPktDuration s)
            r.invalidCounter))

/-- A position past the end changes nothing. -/
theorem restoresFrom_iff_of_beyond {r : ReaderFF δ κ} (hs : r.stream = some s)
    (hend : D.streamDuration s ≤ max pos 0) : RestoresFrom D C pos r ↔ r.Clean := by
  constructor
  · rintro ⟨s', hs', ⟨-, hclean⟩ | ⟨hlt, -⟩⟩
    · exact hclean
    · cases hs.symm.trans hs'
      exact absurd hlt (Int.not_lt.mpr hend)
  · intro hclean
    exact ⟨s, hs, .inl ⟨hend, hclean⟩⟩

/-- For a position in the file, what the seek answers decides. -/
theorem restoresFrom_iff_of_within {r : ReaderFF δ κ} (hs : r.stream = some s)
    (hlt : max pos 0 < D.streamDuration s) {accepted : Bool} {w : StreamReader δ κ}
    (hseek : seekStream D C s (max pos 0) r.streamReader = (.ok accepted, w)) :
    RestoresFrom D C pos r ↔ accepted = true ∧ r.MayRead ∧
      ReachesTarget D C s (max pos 0) w (w.streams s).position (w.getPktDuration s)
        r.invalidCounter := by
  constructor
  · rintro ⟨s', hs', ⟨hend, -⟩ | ⟨-, hmay, w', hseek', hreach⟩⟩ <;> cases hs.symm.trans hs'
    · exact absurd hlt (Int.not_lt.mpr hend)
    · rw [hseek] at hseek'
      cases hseek'
      exact ⟨rfl, hmay, hreach⟩
  · rintro ⟨rfl, hmay, hreach⟩
    exact ⟨s, hs, .inr ⟨hlt, hmay, w, hseek, hreach⟩⟩

/-- A call beyond the end leaves the reader alone. -/
theorem restored_self_iff (r : ReaderFF δ κ) : Restored r r ↔ r.Clean := by
  constructor
  · intro h
    exact ⟨h.frames.1, h.states.1, h.handles, h.published⟩
  · intro h
    refine ⟨⟨h.frames, ?_⟩, ⟨h.states, ?_⟩, h.handles, h.published⟩
    · simp [EventHandlerList.handlers, h.frames]
    · simp [EventHandlerList.handlers, h.states]

/-- The part after an accepted seek restores everything exactly when the loop was not broken. -/
theorem readUpTo_restored_iff {r₀ r r' : ReaderFF δ κ} (hs : r.stream = some s)
    (hframes : r.frameObservers = r₀.frameObservers.disable)
    (hstates : r.readerObservers = r₀.readerObservers.disable) {prevState : ReaderState}
    (hprev : prevState ≠ .error) (h : readUpTo D C pos prevState r = (.ok (), r')) :
    Restored r₀ r' ↔ r.MayRead ∧ ReachesTarget D C s pos r.streamReader
      (r.streamReader.streams s).position (r.streamReader.getPktDuration s) r.invalidCounter := by
  unfold readUpTo at h
  obtain ⟨position, r₁, hposition, h⟩ := Proc.bind_inv h
  obtain ⟨duration, r₂, hduration, h⟩ := Proc.bind_inv h
  obtain ⟨rfl, rfl⟩ := getPosition_inv hs hposition
  obtain ⟨rfl, rfl⟩ := getPktDuration_inv hs hduration
  rw [Proc.modify_bind_apply, Proc.get_bind_apply] at h
  obtain ⟨_, r₃, hloop, h⟩ := Proc.bind_inv h
  rw [Proc.modify_bind_apply, Proc.get_bind_apply] at h
  obtain ⟨hsame, hunbroken⟩ :=
    setPositionLoop_unbroken_iff (s := s) (r := { r₂ with skipFrameHandle := true }) hs hloop
  have hgoes : r₃.enableObservers.needBreakReading = r₃.needBreakReading := rfl
  have hhandlers : ∀ (l : EventHandlerList Nat) {l₀ : EventHandlerList Nat}, l = l₀.disable →
      l.enable.enabled = true ∧ l.enable.subscribers = l₀.handlers := by
    rintro _ l₀ rfl
    exact l₀.enable_disable_handlers
  refine Iff.trans ?_ hunbroken
  rw [← hgoes]
  split at h
  · rename_i hbreak
    cases h
    constructor
    · intro hrestored
      -- the flag set before the loop is still set
      have hset : r₃.skipFrameHandle = true := hsame.skipFrameHandle
      have hskip : r₃.skipFrameHandle = false := hrestored.handles
      rw [hset] at hskip
      cases hskip
    · intro hgoes'
      rw [hbreak] at hgoes'
      cases hgoes'
  · rename_i hbreak
    obtain ⟨position, r₄, hposition, h⟩ := Proc.bind_inv h
    rw [Proc.modify_bind_apply] at h
    obtain ⟨_, r₅, hread, h⟩ := Proc.bind_inv h
    cases h
    have hs₃ : r₃.enableObservers.stream = some s := hsame.stream.trans hs
    obtain ⟨-, rfl⟩ := getPosition_inv hs₃ hposition
    obtain ⟨out, w, -, rfl, -⟩ :=
      readFrame_inv (r := { r₃.enableObservers with skipFrameHandle := false }) hs₃ hread
    have hlast := sameControls_received (s := s) out w
      { r₃.enableObservers with skipFrameHandle := false }
    refine ⟨fun _ => Bool.eq_false_iff.mpr hbreak, fun _ => ⟨?_, ?_, hlast.skipFrameHandle, ?_⟩⟩
    · show (received _ _ _ _).frameObservers.enabled = true ∧
        (received _ _ _ _).frameObservers.subscribers = _
      rw [hlast.frameObservers]
      exact hhandlers _ (hsame.frameObservers.trans hframes)
    · show (received _ _ _ _).readerObservers.enabled = true ∧
        (received _ _ _ _).readerObservers.subscribers = _
      rw [hlast.readerObservers]
      exact hhandlers _ (hsame.readerObservers.trans hstates)
    · intro herror
      exact absurd herror hprev

/-- A call that returned the duration of the stream. -/
theorem getDuration_inv {r r' : ReaderFF δ κ} {duration : TimeFF}
    (h : getDuration D r = (.ok duration, r')) :
    ∃ s, r.stream = some s ∧ duration = D.streamDuration s ∧ r' = r := by
  unfold getDuration at h
  rw [Proc.get_bind_apply] at h
  rcases hs : r.stream with _ | s
  · rw [hs] at h
    cases h
  · rw [hs] at h
    obtain ⟨w, hw, rfl⟩ := onStream_inv hs h
    unfold StreamReader.getDuration at hw
    rw [Proc.get_bind_apply] at hw
    rcases hreader : (r.streamReader.streams s).hasReader with _ | _ <;> rw [hreader] at hw
    · cases hw
    · cases hw
      exact ⟨s, rfl, rfl, rfl⟩

/-- A position before the start is moved to the start. -/
theorem clamp_eq_max (pos : TimestampFF) : (if pos < 0 then 0 else pos) = max pos 0 := by
  split
  · rename_i hneg
    exact (max_eq_right (Int.le_of_lt hneg)).symm
  · rename_i hpos
    exact (max_eq_left (Int.not_lt.mp hpos)).symm

/-- A call that returned leaves the observers, the flag and a published error as they should be
exactly when the position lies beyond the end and nothing was left over before, or the seek is
accepted in a state in which frames may be read and the loop reaches its target. -/
theorem set_position_restores_iff {r r' : ReaderFF δ κ}
    (h : setPositionImpl D C pos r = (.ok (), r')) :
    Restored r r' ↔ RestoresFrom D C pos r := by
  unfold setPositionImpl at h
  dsimp only at h
  rw [clamp_eq_max] at h
  obtain ⟨duration, r₁, hduration, h₁⟩ := Proc.bind_inv h
  obtain ⟨s, hs, rfl, rfl⟩ := getDuration_inv hduration
  by_cases hend : max pos 0 ≥ D.streamDuration s
  · rw [if_pos hend] at h₁
    cases h₁
    rw [restored_self_iff, restoresFrom_iff_of_beyond hs hend]
  · rw [if_neg hend] at h₁
    obtain ⟨position, r₂, hposition, h₂⟩ := Proc.bind_inv h₁
    obtain ⟨rfl, -⟩ := getPosition_returns hposition
    rw [Proc.modify_bind_apply, Proc.get_bind_apply] at h₂
    obtain ⟨_, r₃, hseek, h₃⟩ := Proc.bind_inv h₂
    rw [Proc.get_bind_apply] at h₃
    obtain ⟨accepted, w, hstream, haccepted, hrefused⟩ :=
      seek_inv (r := r₂.disableObservers) hs hseek
    rw [restoresFrom_iff_of_within hs (Int.not_le.mp hend) hstream]
    split at h₃
    · -- the seek was refused, or the reader was in error before
      rename_i herror
      cases h₃
      have hframes : r'.frameObservers = r₂.frameObservers.disable := by
        cases accepted with
        | true =>
          rw [haccepted rfl]
          rfl
        | false => exact (hrefused rfl).2
      constructor
      · intro hrestored
        have henabled := hrestored.frames.1
        rw [hframes, EventHandlerList.enabled_disable] at henabled
        cases henabled
      · rintro ⟨rfl, ⟨-, hstate, -⟩, -⟩
        rw [haccepted rfl] at herror
        exact absurd herror hstate
    · rename_i hgoes
      obtain rfl : accepted = true := by
        by_contra hfalse
        exact hgoes (hrefused (Bool.eq_false_iff.mpr hfalse)).1
      rw [haccepted rfl] at h₃ hgoes
      rw [readUpTo_restored_iff (r := r₂.disableObservers.withStreams w) hs rfl rfl hgoes h₃]
      constructor
      · rintro ⟨hmay, hreach⟩
        exact ⟨rfl, hmay, hreach⟩
      · rintro ⟨-, hmay, hreach⟩
        exact ⟨hmay, hreach⟩

/-! ## A file whose first key packet comes late -/

/-- A file that starts in the middle of a group of pictures. -/
def openStartFile : List DataPacket :=
  [⟨0, 0, 0, 40, false, 100⟩, ⟨0, 40, 40, 40, false, 100⟩, ⟨0, 80, 80, 40, true, 100⟩,
    ⟨0, 120, 120, 40, false, 100⟩, ⟨0, 160, 160, 40, false, 100⟩]

/-- `set_position_impl` of a reader of that file with a codec without delay. -/
def openStartSetPosition (pos : TimestampFF) :
    Proc Fault (ReaderFF (DemuxerQueue Unit) (List DataPacket)) Unit :=
  setPositionImpl (DemuxerQueue.toIDemuxer (fileParser openStartFile 200)) (fifoCodec 0 (25, 1)) pos

def openStartMachine : Machine (ReaderWorker (DemuxerQueue Unit) (List DataPacket)) ReaderLabel :=
  ReaderWorker.machine (DemuxerQueue.toIDemuxer (fileParser openStartFile 200))
    (fifoCodec 0 (25, 1))
    (ReaderFF.opened (StreamReader.opened (fileParser openStartFile 200) openStartFile () 0 [])
      (some 0) .all [1] [1])

/-- After one frame a change to 100 restores everything, and one to 40, which no key packet
precedes, leaves the observers disabled. -/
theorem exists_openStart :
    ∃ w, openStartMachine.Reachable w ∧ w.InLoop ∧
      (∃ r', openStartSetPosition 100 w.reader = (.ok (), r') ∧ Restored w.reader r') ∧
      ∃ r', openStartSetPosition 40 w.reader = (.ok (), r') ∧ r'.frameObservers.enabled = false := by
  obtain ⟨w, -, hrun, hw⟩ := Machine.exists_run_of_exec openStartMachine ReaderWorker.playOne
    (fun w => decide (w.pc = .head) &&
      (match openStartSetPosition 100 w.reader with
        | (.ok _, r') => decide (r'.frameObservers = w.reader.frameObservers ∧
            r'.readerObservers = w.reader.readerObservers ∧ w.reader.frameObservers.enabled = true ∧
            w.reader.readerObservers.enabled = true ∧ r'.skipFrameHandle = false ∧
            r'.state ≠ .error)
        | (.error _, _) => false) &&
      match openStartSetPosition 40 w.reader with
        | (.ok _, r') => !r'.frameObservers.enabled
        | (.error _, _) => false) (by decide +kernel)
  simp only [Bool.and_eq_true, decide_eq_true_eq] at hw
  obtain ⟨⟨hpc, hreached⟩, hrefused⟩ := hw
  refine ⟨w, ⟨_, hrun⟩, ⟨by simp [hpc], by simp [hpc], by simp [hpc]⟩, ?_, ?_⟩
  · rcases h : openStartSetPosition 100 w.reader with ⟨_ | _, r'⟩ <;> rw [h] at hreached
    · cases hreached
    · simp only [decide_eq_true_eq] at hreached
      obtain ⟨hframes, hstates, henabled, henabled', hskip, hstate⟩ := hreached
      refine ⟨r', rfl, ⟨?_, ?_⟩, ⟨?_, ?_⟩, hskip, fun herror => absurd herror hstate⟩
      · rw [hframes, henabled]
      · simp [EventHandlerList.handlers, hframes, henabled]
      · rw [hstates, henabled']
      · simp [EventHandlerList.handlers, hstates, henabled']
  · rcases h : openStartSetPosition 40 w.reader with ⟨_ | _, r'⟩ <;> rw [h] at hrefused
    · cases hrefused
    · exact ⟨r', rfl, by simpa using hrefused⟩

/-- A file whose first packet is no key packet. -/
theorem set_position_restores_iff_open_start :
    ∃ w, openStartMachine.Reachable w ∧
      RestoresFrom (DemuxerQueue.toIDemuxer (fileParser openStartFile 200)) (fifoCodec 0 (25, 1)) 100
        w.reader := by
  obtain ⟨w, hw, -, ⟨r', hret, hrestored⟩, -⟩ := exists_openStart
  exact ⟨w, hw, (set_position_restores_iff hret).mp hrestored⟩

/-- A refused seek returns with the observers disabled. -/
theorem set_position_keeps_disabled :
    ¬∀ w, openStartMachine.Reachable w → w.InLoop → ∀ pos r',
      openStartSetPosition pos w.reader = (.ok (), r') → Restored w.reader r' := by
  intro hall
  obtain ⟨w, hw, hloop, -, r', hret, hdisabled⟩ := exists_openStart
  have henabled := (hall w hw hloop 40 r' hret).frames.1
  rw [hdisabled] at henabled
  cases henabled

end ReaderFF

end Seekira.Model
