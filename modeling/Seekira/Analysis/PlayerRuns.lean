import Seekira.Analysis.PlayerRefinement

/-!
# Runs of the reader's worker as runs of a player

While the worker is in its loop and nobody has asked it to stop, every step of it and
of the posters is matched by at most one move of the abstract player: handling an
event is the player's move for this event, reading a frame is the move of a playing
player, and everything else is none.
-/

set_option autoImplicit false

namespace Seekira.Model

open Library

/-! ## A stop request is not withdrawn -/

namespace ReaderFF

variable {δ κ : Type} {D : IDemuxer δ} {C : CodecOps κ}

def StopAsked (r : ReaderFF δ κ) : Prop := r.needStop = true

theorem stopAsked_modify {f : ReaderFF δ κ → ReaderFF δ κ}
    (hf : ∀ r, r.needStop = true → (f r).needStop = true) :
    Proc.Keeps StopAsked (Proc.modify f : Proc Fault (ReaderFF δ κ) Unit) := fun r h => hf r h

theorem stopAsked_onStream {α : Type} (p : StreamId → Proc Fault (StreamReader δ κ) α) :
    Proc.Keeps StopAsked (onStream p) := by
  intro r h
  rcases hs : r.stream with _ | s
  · unfold onStream
    rw [Proc.get_bind_apply, hs]
    exact h
  · rw [onStream_apply hs]
    exact h

theorem stopAsked_readFrame : Proc.Keeps StopAsked (readFrame D C) := by
  unfold readFrame
  refine Proc.keeps_bind (stopAsked_onStream _) fun frame => ?_
  refine Proc.keeps_bind (stopAsked_onStream _) fun isLast => ?_
  refine Proc.keeps_bind (stopAsked_modify fun _ h => h) fun _ => ?_
  cases frame with
  | some frame =>
    refine Proc.keeps_bind (stopAsked_modify fun _ h => h) fun _ => ?_
    refine Proc.keeps_bind Proc.keeps_get fun r => ?_
    exact Proc.keeps_ite (fun _ => Proc.keeps_throw _) fun _ => Proc.keeps_pure _
  | none =>
    refine Proc.keeps_bind (stopAsked_modify fun _ h => h) fun _ => ?_
    refine Proc.keeps_bind Proc.keeps_get fun r => ?_
    exact Proc.keeps_ite (fun _ => Proc.keeps_throw _) fun _ => Proc.keeps_pure _

theorem stopAsked_seek (pos : TimestampFF) : Proc.Keeps StopAsked (seek D C pos) := by
  unfold seek
  refine Proc.keeps_bind (stopAsked_onStream _) fun _ => ?_
  refine Proc.keeps_bind (stopAsked_onStream _) fun _ => ?_
  refine Proc.keeps_bind (stopAsked_onStream _) fun accepted => ?_
  refine Proc.keeps_ite (fun _ => stopAsked_modify fun _ h => h) fun _ => ?_
  exact Proc.keeps_bind (stopAsked_onStream _) fun _ => Proc.keeps_pure _

theorem stopAsked_setPositionLoop (pos : TimestampFF) (fuel : Nat) (next : TimestampFF)
    (duration : TimeFF) : Proc.Keeps StopAsked (setPositionLoop D C pos fuel next duration) := by
  induction fuel generalizing next duration with
  | zero => exact Proc.keeps_throw _
  | succ fuel ih =>
    unfold setPositionLoop
    refine Proc.keeps_bind Proc.keeps_get fun r => ?_
    refine Proc.keeps_ite (fun _ => Proc.keeps_pure _) fun _ => ?_
    refine Proc.keeps_bind stopAsked_readFrame fun _ => ?_
    refine Proc.keeps_bind (stopAsked_onStream _) fun _ => ?_
    exact Proc.keeps_bind (stopAsked_onStream _) fun _ => ih _ _

theorem stopAsked_readUpTo (pos : TimestampFF) (prevState : ReaderState) :
    Proc.Keeps StopAsked (readUpTo D C pos prevState) := by
  unfold readUpTo
  refine Proc.keeps_bind (stopAsked_onStream _) fun _ => ?_
  refine Proc.keeps_bind (stopAsked_onStream _) fun _ => ?_
  refine Proc.keeps_bind (stopAsked_modify fun _ h => h) fun _ => ?_
  refine Proc.keeps_bind Proc.keeps_get fun r => ?_
  refine Proc.keeps_bind (stopAsked_setPositionLoop _ _ _ _) fun _ => ?_
  refine Proc.keeps_bind (stopAsked_modify fun _ h => h) fun _ => ?_
  refine Proc.keeps_bind Proc.keeps_get fun r => ?_
  refine Proc.keeps_ite (fun _ => stopAsked_modify fun _ h => h) fun _ => ?_
  refine Proc.keeps_bind (stopAsked_onStream _) fun _ => ?_
  refine Proc.keeps_bind (stopAsked_modify fun _ h => h) fun _ => ?_
  exact Proc.keeps_bind stopAsked_readFrame fun _ => stopAsked_modify fun _ h => h

theorem stopAsked_setPositionImpl (pos : TimestampFF) :
    Proc.Keeps StopAsked (setPositionImpl D C pos) := by
  unfold setPositionImpl
  refine Proc.keeps_bind keeps_getDuration fun duration => ?_
  refine Proc.keeps_ite (fun _ => Proc.keeps_pure _) fun _ => ?_
  refine Proc.keeps_bind keeps_getPosition fun _ => ?_
  refine Proc.keeps_bind (stopAsked_modify fun _ h => h) fun _ => ?_
  refine Proc.keeps_bind Proc.keeps_get fun r => ?_
  refine Proc.keeps_bind (stopAsked_seek _) fun _ => ?_
  refine Proc.keeps_bind Proc.keeps_get fun r => ?_
  exact Proc.keeps_ite (fun _ => Proc.keeps_pure _) fun _ => stopAsked_readUpTo _ _

theorem stopAsked_forceHandle {p : Proc Fault (ReaderFF δ κ) Unit} (hp : Proc.Keeps StopAsked p) :
    Proc.Keeps StopAsked (forceHandle p) := by
  refine Proc.keeps_bind (stopAsked_modify fun _ h => h) fun _ => ?_
  exact Proc.keeps_bind hp fun _ => stopAsked_modify fun _ h => h

theorem stopAsked_handleEvent (event : ReaderEvent) :
    Proc.Keeps StopAsked (handleEvent D C event) := by
  have hshift : ∀ f : TimestampFF → TimestampFF, Proc.Keeps (StopAsked (δ := δ) (κ := κ)) (do
      let position ← getPosition
      setPositionImpl D C (f position)) := fun f =>
    Proc.keeps_bind keeps_getPosition fun _ => stopAsked_setPositionImpl _
  cases event with
  | play | pause => exact stopAsked_modify fun _ h => h
  | stop => exact stopAsked_modify fun _ _ => rfl
  | stepForward =>
    refine Proc.keeps_bind Proc.keeps_get fun r => ?_
    exact Proc.keeps_ite (fun _ => Proc.keeps_pure _) fun _ =>
      stopAsked_forceHandle stopAsked_readFrame
  | stepBackward =>
    refine Proc.keeps_bind Proc.keeps_get fun r => ?_
    exact Proc.keeps_ite (fun _ => Proc.keeps_pure _) fun _ => stopAsked_forceHandle (hshift _)
  | rewindForward | rewindBackward => exact stopAsked_forceHandle (hshift _)
  | setPosition pos => exact stopAsked_setPositionImpl pos

end ReaderFF

/-! ## The worker -/

namespace ReaderWorker

open ReaderFF

variable {π κ : Type} {P : ParserOps π} {C : CodecOps κ} {delay : Nat}
  {holds : List DataPacket → κ → Prop} {drained : κ → Prop} {s : StreamId} {l : List DataPacket}
  {d : TimeFF} {observers : List Nat} {ks : List FrameMove} {p : FramePlayer}
  {w w' : ReaderWorker (DemuxerQueue π) κ} {label : ReaderLabel}

/-- The worker is in its loop and nobody has asked the reader to stop. -/
def Serving (w : ReaderWorker (DemuxerQueue π) κ) : Prop := w.InLoop ∧ w.reader.needStop = false

theorem stopAsked_afterCall {res : Except Fault Unit × ReaderFF (DemuxerQueue π) κ}
    (h : res.2.StopAsked) : (afterCall res w).reader.StopAsked := by
  rcases res with ⟨e | _, r⟩
  · cases e <;> exact h
  · exact h

/-- Every step keeps a stop asked for. -/
theorem stopAsked_step (h : w.reader.StopAsked)
    (hs : ReaderWorker.step (DemuxerQueue.toIDemuxer P) C w label = some w') :
    w'.reader.StopAsked := by
  cases steps_of_step hs with
  | posts event => exact h
  | notifies | wakes =>
    rw [← wake_reader] at h
    exact h
  | stops => rfl
  | works _ hworks =>
    cases hworks with
    | handles item => exact stopAsked_afterCall (stopAsked_handleEvent item.event w.reader h)
    | reads => exact stopAsked_afterCall (stopAsked_readFrame (setReaderState .reading w.reader).2 h)
    | leaves =>
      unfold leaveLoop
      dsimp only
      split
      · exact h
      · split <;> exact h
    | starts | tests | idles | crashes | goesOn | pauses | waits => exact h

/-- A worker that serves after a step served before it. -/
theorem serving_of_step
    (hs : ReaderWorker.step (DemuxerQueue.toIDemuxer P) C w label = some w') (h : w'.Serving) :
    w.Serving := by
  refine ⟨inLoop_of_step hs h.1, ?_⟩
  by_contra hstop
  have hasked : w.reader.StopAsked := by
    show w.reader.needStop = true
    simpa using hstop
  have hstays : w'.reader.needStop = true := stopAsked_step hasked hs
  have hfalse := h.2
  rw [hstays] at hfalse
  cases hfalse

/-- The worker is where the player is, the moves of which handled the same events. -/
structure Tracks (P : ParserOps π) (s : StreamId) (delay : Nat)
    (holds : List DataPacket → κ → Prop) (l : List DataPacket) (d : TimeFF) (observers : List Nat)
    (ks : List FrameMove) (p : FramePlayer) (w : ReaderWorker (DemuxerQueue π) κ) : Prop where
  follows : Follows P s delay holds l d observers p w.reader
  events : ks.filterMap FrameMove.handled = w.handled.map PostedEvent.event
  awake : w.pc = .awake ∨ w.pc = .recheck → w.eventQueue ≠ [] ∨ w.reader.continueReading = true
  reading : w.pc = .reading → w.reader.continueReading = true

/-- A step of the worker that is no move of the player. -/
theorem Tracks.still (h : Tracks P s delay holds l d observers ks p w)
    {r : ReaderFF (DemuxerQueue π) κ} {pc : ReaderPc}
    (hfollows : Follows P s delay holds l d observers p r)
    (hawake : pc = .awake ∨ pc = .recheck → w.eventQueue ≠ [] ∨ r.continueReading = true)
    (hreading : pc = .reading → r.continueReading = true) :
    ∃ ls p', (FramePlayer.machine (row l d delay)).exec p ls = some p' ∧
      Tracks P s delay holds l d observers (ks ++ ls) p' { w with reader := r, pc := pc } :=
  ⟨[], p, rfl, hfollows, by simpa using h.events, hawake, hreading⟩

/-- A call that matches a move of the player: the worker goes on exactly when the player can make
the move. -/
theorem inLoop_afterCall_iff {r : ReaderFF (DemuxerQueue π) κ}
    {f : Proc Fault (ReaderFF (DemuxerQueue π) κ) Unit} {res : Option FramePlayer}
    (h : Matches P s delay holds l d observers r f res) :
    (afterCall (f r) w).InLoop ↔ res.isSome := by
  constructor
  · intro hloop
    cases hres : res with
    | some p' => rfl
    | none =>
      exact absurd (ok_of_inLoop hloop) (h.2 hres (f r).2)
  · intro hsome
    obtain ⟨p', hp'⟩ := Option.isSome_iff_exists.mp hsome
    obtain ⟨r', hok, -⟩ := h.1 p' hp'
    rw [hok]
    exact ⟨by simp [afterCall], by simp [afterCall], by simp [afterCall]⟩

/-- Then it is where the player is after the move. -/
theorem exists_of_afterCall {r : ReaderFF (DemuxerQueue π) κ}
    {f : Proc Fault (ReaderFF (DemuxerQueue π) κ) Unit} {res : Option FramePlayer}
    (h : Matches P s delay holds l d observers r f res) (hloop : (afterCall (f r) w).InLoop) :
    ∃ p', res = some p' ∧ Follows P s delay holds l d observers p' (afterCall (f r) w).reader ∧
      (afterCall (f r) w).pc = .head := by
  obtain ⟨p', hp'⟩ := Option.isSome_iff_exists.mp ((inLoop_afterCall_iff h).mp hloop)
  obtain ⟨r', hok, hfollows⟩ := h.1 p' hp'
  exact ⟨p', hp', by rw [hok]; exact hfollows, by rw [hok]; rfl⟩

/-- What the file, the parser and the codec are assumed to do. -/
structure PlaysRow (P : ParserOps π) (C : CodecOps κ) (s : StreamId) (delay : Nat)
    (holds : List DataPacket → κ → Prop) (drained : κ → Prop) (l : List DataPacket) (d : TimeFF) :
    Prop where
  codec : C.InOrder delay holds drained
  parser : DemuxerQueue.Seekable P s l
  rate : ConstantRate d l
  seeks : SeeksWell P s l
  duration : P.streamDuration s = l.length * d

/-- The look at the event queue. -/
theorem Tracks.checkEvents (hF : PlaysRow P C s delay holds drained l d)
    (h : Tracks P s delay holds l d observers ks p w)
    (hserving : (w.checkEvents (DemuxerQueue.toIDemuxer P) C).Serving) :
    ∃ ls p', (FramePlayer.machine (row l d delay)).exec p ls = some p' ∧
      Tracks P s delay holds l d observers (ks ++ ls) p'
        (w.checkEvents (DemuxerQueue.toIDemuxer P) C) := by
  unfold ReaderWorker.checkEvents at hserving ⊢
  rcases hlast : w.eventQueue.getLast? with _ | item
  · exact h.still h.follows (by simp) (by simp)
  · simp only [hlast] at hserving ⊢
    have hstop : item.event ≠ .stop := by
      intro hitem
      rw [hitem] at hserving
      cases hserving.2
    obtain ⟨p', hp', hfollows, hhead⟩ := exists_of_afterCall
      (h.follows.handleEvent hF.codec hF.parser hF.rate hF.seeks hF.duration hstop) hserving.1
    refine ⟨[.event item.event], p', ?_, hfollows, ?_, ?_, ?_⟩
    · simpa [Machine.exec, FramePlayer.machine] using hp'
    · rw [(events_of_afterCall _ _).2.2, List.filterMap_append, h.events]
      simp [FrameMove.handled]
    · simp [hhead]
    · simp [hhead]

/-- A reader that has come to the end of the file has read the rest of the frames ahead, but for
those that the decoder and the stream keep. -/
theorem fits_of_eof (hF : PlaysRow P C s delay holds drained l d)
    (h : Follows P s delay holds l d observers p w.reader)
    (heof : isEofReached (DemuxerQueue.toIDemuxer P) w.reader = true) :
    (row l d delay).fits (p.next + (row l d delay).lag + 1) = true := by
  obtain ⟨fed, u, hdue, hreading⟩ := h.due
  obtain ⟨rest, hholds, rfl⟩ := hreading.upcoming
  have hfits : Fits rest := hholds.fits heof
  have hfed : fed.length ≤ delay + 1 := StreamReader.length_of_pending hreading.pending
  have hkept : (w.reader.streamReader.streams s).bufferedPacket.toList.length ≤ 1 := by
    cases (w.reader.streamReader.streams s).bufferedPacket <;> simp
  generalize (w.reader.streamReader.streams s).bufferedPacket.toList = kept at hdue hkept
  have hsuffix : l.drop (p.next + (delay + 1) + 1) <:+ rest := by
    have hrest : l.drop (p.next + (fed.length + kept.length)) = rest := by
      rw [← List.drop_drop, hdue, ← List.append_assoc, ← List.length_append, List.drop_left]
    rw [← hrest]
    exact List.drop_suffix_drop_left l (by omega)
  have hplain : ∀ q ∈ rest, q.Plain := by
    intro q hq
    apply hF.rate.track.plain
    apply List.mem_of_mem_drop (i := p.next)
    rw [hdue]
    simp [hq]
  exact decide_eq_true (hfits.suffix hsuffix hplain)

/-- The test of the end of file. -/
theorem Tracks.checkEof (hF : PlaysRow P C s delay holds drained l d)
    (h : Tracks P s delay holds l d observers ks p w) :
    ∃ ls p', (FramePlayer.machine (row l d delay)).exec p ls = some p' ∧
      Tracks P s delay holds l d observers (ks ++ ls) p'
        (w.checkEof (DemuxerQueue.toIDemuxer P)) := by
  unfold ReaderWorker.checkEof
  rw [if_neg (by simp [h.follows.plays.stream])]
  dsimp only
  by_cases heof : isEofReached (DemuxerQueue.toIDemuxer P) w.reader = true
  · rw [if_pos heof]
    refine ⟨[.endOfFile], { p with playing := false }, ?_,
      (h.follows.setPlaying false).adjusted (.inr rfl), ?_, by simp, by simp⟩
    · have hfits := fits_of_eof hF h.follows heof
      simp [Machine.exec, FramePlayer.machine, FramePlayer.step, hfits]
    · simp [List.filterMap_append, FrameMove.handled, h.events]
  · rw [if_neg heof]
    by_cases hplays : w.reader.continueReading = true
    · rw [if_pos hplays]
      exact h.still h.follows (by simp) (by simp)
    · rw [if_neg hplays]
      exact h.still (h.follows.adjusted (.inr rfl)) (by simp) (by simp)

/-- The worker's own steps. -/
theorem Tracks.work (hF : PlaysRow P C s delay holds drained l d)
    (h : Tracks P s delay holds l d observers ks p w)
    (hs : w.work (DemuxerQueue.toIDemuxer P) C = some w') (hserving : w'.Serving) :
    ∃ ls p', (FramePlayer.machine (row l d delay)).exec p ls = some p' ∧
      Tracks P s delay holds l d observers (ks ++ ls) p' w' := by
  have hgoes := h.follows.goesOn
  unfold ReaderWorker.work at hs
  split at hs
  case h_1 hpc =>
    cases hs
    exact h.still (h.follows.adjusted (.inl rfl)) (by simp) (by simp)
  case h_2 hpc =>
    cases hs
    rw [if_neg (by simp [hgoes])]
    exact h.still h.follows (by simp) (by simp)
  case h_3 hpc =>
    split at hs <;> cases hs
    exact h.checkEvents hF hserving
  case h_4 hpc =>
    cases hs
    exact h.checkEof hF
  case h_5 hpc =>
    split at hs <;> cases hs
    -- the wait ends only for an event or to go on reading
    by_cases hpredicate : (w.reader.needBreakReading || !w.eventQueue.isEmpty ||
        w.reader.continueReading) = true
    · rw [if_pos hpredicate]
      refine h.still h.follows (fun _ => ?_) (by simp)
      simpa [hgoes] using hpredicate
    · rw [if_neg hpredicate]
      exact h.still h.follows (by simp) (by simp)
  case h_6 hpc =>
    cases hs
    exact h.still h.follows (by simp) (by simp)
  case h_8 hpc =>
    cases hs
    rw [if_neg (by simp [hgoes])]
    exact h.still h.follows (fun _ => h.awake (.inl hpc)) (by simp)
  case h_9 hpc =>
    split at hs <;> cases hs
    by_cases hempty : w.eventQueue.isEmpty = true
    · rw [if_pos hempty]
      refine h.still h.follows (by simp) fun _ => ?_
      exact (h.awake (.inr hpc)).resolve_left (by simpa using hempty)
    · rw [if_neg hempty]
      exact h.still h.follows (by simp) (by simp)
  case h_10 hpc =>
    cases hs
    have hplaying : p.playing = true := by
      rw [← h.follows.playing]
      exact h.reading hpc
    have hreading : Follows P s delay holds l d observers p (setReaderState .reading w.reader).2 :=
      h.follows.adjusted (.inl rfl)
    obtain ⟨p', hp', hfollows, hhead⟩ := exists_of_afterCall
      (hreading.readFrame hF.codec hF.parser.lt hF.rate) hserving.1
    refine ⟨[.read], p', ?_, hfollows, ?_, by simp [hhead], by simp [hhead]⟩
    · simpa [Machine.exec, FramePlayer.machine, FramePlayer.step, hplaying] using hp'
    · rw [(events_of_afterCall _ _).2.2]
      simp [List.filterMap_append, FrameMove.handled, h.events]
  case h_11 hpc =>
    split at hs <;> cases hs
    exact absurd (finished_leaveLoop w) hserving.1.2.1
  case h_7 | h_12 | h_13 => cases hs

/-- Every step is matched by at most one move of the player. -/
theorem Tracks.step (hF : PlaysRow P C s delay holds drained l d)
    (h : Tracks P s delay holds l d observers ks p w)
    (hs : ReaderWorker.step (DemuxerQueue.toIDemuxer P) C w label = some w')
    (hserving : w'.Serving) :
    ∃ ls p', (FramePlayer.machine (row l d delay)).exec p ls = some p' ∧
      Tracks P s delay holds l d observers (ks ++ ls) p' w' := by
  unfold ReaderWorker.step at hs
  split at hs
  · cases hs
  have hwake : Tracks P s delay holds l d observers ks p w.wake := by
    unfold ReaderWorker.wake
    split
    · exact ⟨h.follows, h.events, by simp, by simp⟩
    · exact h
  cases label with
  | post event =>
    simp only at hs
    split at hs <;> cases hs
    exact ⟨[], p, rfl, h.follows, by simpa [addReaderEvent] using h.events,
      fun _ => .inl (by simp [addReaderEvent]), h.reading⟩
  | notify =>
    simp only at hs
    split at hs <;> cases hs
    exact ⟨[], p, rfl, hwake.follows, by simpa using hwake.events, hwake.awake, hwake.reading⟩
  | work => exact h.work hF hs hserving
  | spuriousWake =>
    simp only at hs
    split at hs <;> cases hs
    exact ⟨[], p, rfl, by simpa using hwake⟩
  | requestStop =>
    cases hs
    cases hserving.2

/-- A reader that has just opened the file and was started. -/
theorem tracks_started (hF : PlaysRow P C s delay holds drained l d) {ahead : List DataPacket}
    (hahead : DemuxerQueue.ofStream s ahead = l) (internal : π) {codec : κ}
    (hcodec : holds [] codec) (observers readerObservers : List Nat) :
    Tracks P s delay holds l d observers [] FramePlayer.initial
      (started (ReaderFF.opened (StreamReader.opened P ahead internal s codec) (some s) .all
        observers readerObservers)) := by
  have hduration : 0 < P.streamDuration s := by
    rw [hF.duration]
    exact Int.mul_pos (Int.ofNat_lt.mpr hF.rate.length_pos) hF.rate.duration_pos
  have hplays := ReaderFF.plays_opened hF.parser.video ahead internal codec .all observers
    readerObservers
  have hunstarted : ReaderFF.Unstarted P s delay holds l _ := ReaderFF.unstarted_opened hF.rate.track
    hF.parser.video hduration hahead internal hcodec .all observers readerObservers
  exact
    { follows :=
        { plays := ⟨hplays.stream, hplays.streams⟩
          due := hunstarted.due
          needStop := rfl
          state := .inl rfl
          invalid := rfl
          inRow := by simp [FramePlayer.initial]
          last := rfl
          remembered := .inr ⟨rfl, by simp [FramePlayer.initial]⟩
          mode := rfl
          handles := rfl
          observing := rfl
          playing := rfl
          sent := rfl }
      events := rfl
      awake := by simp [started]
      reading := by simp [started] }

/-- The worker with its posters simulates the player as long as it serves it. -/
theorem simulates_player (hF : PlaysRow P C s delay holds drained l d) {ahead : List DataPacket}
    (hahead : DemuxerQueue.ofStream s ahead = l) (internal : π) {codec : κ}
    (hcodec : holds [] codec) (observers readerObservers : List Nat) :
    (machine (DemuxerQueue.toIDemuxer P) C
      (ReaderFF.opened (StreamReader.opened P ahead internal s codec) (some s) .all observers
        readerObservers)).Simulates (FramePlayer.machine (row l d delay)) Serving
      (Tracks P s delay holds l d observers) where
  init := tracks_started hF hahead internal hcodec observers readerObservers
  back := fun _ _ _ hs => serving_of_step hs
  step := fun _ _ _ _ _ h hs hserving => h.step hF hs hserving

/-- Whatever was posted and however the worker and the posters took turns: while the worker is in
its loop and not asked to stop, it is where the moves of a player lead that handled the same
events, and the observers were given the frames that this player showed. -/
theorem follows_player (hF : PlaysRow P C s delay holds drained l d) {ahead : List DataPacket}
    (hahead : DemuxerQueue.ofStream s ahead = l) {internal : π} {codec : κ}
    (hcodec : holds [] codec) {readerObservers : List Nat}
    (hw : (machine (DemuxerQueue.toIDemuxer P) C
      (ReaderFF.opened (StreamReader.opened P ahead internal s codec) (some s) .all observers
        readerObservers)).Reachable w) (hserving : w.Serving) :
    ∃ moves p, (FramePlayer.machine (row l d delay)).exec FramePlayer.initial moves = some p ∧
      moves.filterMap FrameMove.handled = w.handled.map PostedEvent.event ∧
      w.reader.sentFrames = (p.shown.flatMap fun i => observers.map fun h => (h, frameOf d i)) ∧
      w.reader.lastValidFrame = p.current.map (frameOf d) ∧
      w.reader.continueReading = p.playing := by
  obtain ⟨moves, p, hexec, htracks⟩ :=
    (simulates_player hF hahead internal hcodec observers readerObservers).reachable hw hserving
  exact ⟨moves, p, hexec, htracks.events, htracks.follows.sent, htracks.follows.last,
    htracks.follows.playing⟩

/-- Five frames of one duration, every second of them a key frame. -/
def evenFile : List DataPacket :=
  [⟨0, 0, 0, 40, true, 100⟩, ⟨0, 40, 40, 40, false, 100⟩, ⟨0, 80, 80, 40, true, 100⟩,
    ⟨0, 120, 120, 40, false, 100⟩, ⟨0, 160, 160, 40, true, 100⟩]

def evenMachine : Machine (ReaderWorker (DemuxerQueue Unit) (List DataPacket)) ReaderLabel :=
  machine (DemuxerQueue.toIDemuxer (fileParser evenFile 200)) (fifoCodec 0 (25, 1))
    (ReaderFF.opened (StreamReader.opened (fileParser evenFile 200) evenFile () 0 []) (some 0) .all
      [1, 2] [])

/-- The file of the example is a row of frames. -/
theorem evenFile_playsRow :
    PlaysRow (fileParser evenFile 200) (fifoCodec 0 (25, 1)) 0 0 (fun held k => k = held)
      (fun k => k = []) evenFile 40 where
  codec := fifoCodec_inOrder 0 (25, 1)
  parser := DemuxerQueue.fileParser_seekable (by decide) 200
  rate := ⟨⟨⟨_, rfl, rfl, rfl⟩, by decide, by decide, by decide⟩, by decide⟩
  seeks := by
    intro before target after pos hsplit hcovers
    have htrack : FrameTrack evenFile := ⟨⟨_, rfl, rfl, rfl⟩, by decide, by decide, by decide⟩
    have hpos : 0 ≤ target.pts := htrack.pts_nonneg target (by simp [hsplit])
    exact .inl (DemuxerQueue.fileParser_lands (by decide) htrack 200 (hpos.trans hcovers.1))
  duration := rfl

/-- A step forward, then the frame at 90. -/
theorem follows_player_step_and_seek :
    ∃ w, evenMachine.Reachable w ∧
      w.handled.map PostedEvent.event = [.stepForward, .setPosition 90] ∧
      ∃ moves p, (FramePlayer.machine (row evenFile 40 0)).exec FramePlayer.initial moves = some p ∧
        moves.filterMap FrameMove.handled = w.handled.map PostedEvent.event ∧
        w.reader.sentFrames =
          (p.shown.flatMap fun i => [1, 2].map fun h => (h, frameOf 40 i)) ∧
        w.reader.lastValidFrame = p.current.map (frameOf 40) ∧
        w.reader.continueReading = p.playing := by
  obtain ⟨w, -, hrun, hw⟩ := Machine.exists_run_of_exec evenMachine
    (stepAnd (.setPosition 90))
    (fun w => w.pc = .waitCheck ∧ w.reader.needStop = false ∧
      w.handled.map PostedEvent.event = [.stepForward, .setPosition 90]) (by decide +kernel)
  obtain ⟨hpc, hstop, hhandled⟩ := of_decide_eq_true hw
  exact ⟨w, ⟨_, hrun⟩, hhandled, follows_player evenFile_playsRow
    (DemuxerQueue.ofStream_eq (by decide)) rfl ⟨_, hrun⟩
    ⟨⟨by simp [hpc], by simp [hpc], by simp [hpc]⟩, hstop⟩⟩

/-- The move of the player that the worker's next step tries. -/
def nextMove (w : ReaderWorker (DemuxerQueue π) κ) : Option FrameMove :=
  match w.pc with
  | .events => w.eventQueue.getLast?.map fun item => .event item.event
  | .reading => some .read
  | _ => none

/-- A step of the worker stays in the loop exactly when the player can make the move. -/
theorem Tracks.stays_iff (hF : PlaysRow P C s delay holds drained l d)
    (h : Tracks P s delay holds l d observers ks p w) (hloop : w.InLoop)
    (hs : w.work (DemuxerQueue.toIDemuxer P) C = some w') :
    w'.InLoop ↔ ∀ m ∈ w.nextMove, m ≠ .event .stop → (p.step (row l d delay) m).isSome := by
  have hgoes := h.follows.goesOn
  unfold ReaderWorker.work at hs
  unfold nextMove
  split at hs
  case h_3 hpc =>
    split at hs <;> cases hs
    simp only [hpc]
    unfold ReaderWorker.checkEvents
    rcases hlast : w.eventQueue.getLast? with _ | item
    · simp [InLoop]
    · by_cases hstop : item.event = .stop
      · have hstays : (afterCall (ReaderFF.handleEvent (DemuxerQueue.toIDemuxer P) C item.event
            w.reader) { w with
              eventQueue := w.eventQueue.tail, handled := w.handled ++ [item] }).InLoop := by
          rw [hstop]
          exact ⟨nofun, nofun, nofun⟩
        simpa [hstop] using hstays
      · rw [inLoop_afterCall_iff
          (h.follows.handleEvent hF.codec hF.parser hF.rate hF.seeks hF.duration hstop)]
        simp [hstop]
  case h_10 hpc =>
    cases hs
    have hplaying : p.playing = true := by
      rw [← h.follows.playing]
      exact h.reading hpc
    have hreading : Follows P s delay holds l d observers p (setReaderState .reading w.reader).2 :=
      h.follows.adjusted (.inl rfl)
    rw [inLoop_afterCall_iff (hreading.readFrame hF.codec hF.parser.lt hF.rate)]
    simp [hpc, FramePlayer.step, hplaying]
  case h_4 hpc =>
    cases hs
    unfold ReaderWorker.checkEof
    rw [if_neg (by simp [h.follows.plays.stream])]
    simp [hpc, InLoop]
  case h_11 hpc => exact absurd hpc hloop.1
  case h_12 hpc | h_7 hpc | h_13 hpc => cases hs
  case h_1 hpc | h_2 hpc | h_6 hpc | h_8 hpc =>
    cases hs
    simp [hpc, InLoop, hgoes]
  case h_5 hpc | h_9 hpc =>
    split at hs <;> cases hs
    dsimp only [InLoop]
    split <;> simp [hpc]

/-- The worker's next step leaves the loop exactly when it tries a move, other than a stop, that
the player whom it follows cannot make: a frame among the last `delay + 1`, or a change of the
position before the first frame. -/
theorem stays_iff_move (hF : PlaysRow P C s delay holds drained l d) {ahead : List DataPacket}
    (hahead : DemuxerQueue.ofStream s ahead = l) {internal : π} {codec : κ}
    (hcodec : holds [] codec) {readerObservers : List Nat}
    (hw : (machine (DemuxerQueue.toIDemuxer P) C
      (ReaderFF.opened (StreamReader.opened P ahead internal s codec) (some s) .all observers
        readerObservers)).Reachable w) (hserving : w.Serving)
    (hs : w.work (DemuxerQueue.toIDemuxer P) C = some w') :
    ∃ moves p, (FramePlayer.machine (row l d delay)).exec FramePlayer.initial moves = some p ∧
      w.reader.lastValidFrame = p.current.map (frameOf d) ∧
      w.reader.continueReading = p.playing ∧
      (w'.InLoop ↔
        ∀ m ∈ w.nextMove, m ≠ .event .stop → (p.step (row l d delay) m).isSome) := by
  obtain ⟨moves, p, hexec, htracks⟩ :=
    (simulates_player hF hahead internal hcodec observers readerObservers).reachable hw hserving
  exact ⟨moves, p, hexec, htracks.follows.last, htracks.follows.playing,
    htracks.stays_iff hF hserving.1 hs⟩

/-- A position is asked for before the first frame was read. -/
theorem stays_iff_move_unread :
    ∃ w w' : ReaderWorker (DemuxerQueue Unit) (List DataPacket),
      evenMachine.Reachable w ∧ w.nextMove = some (.event (.setPosition 90)) ∧
      ∃ moves p, (FramePlayer.machine (row evenFile 40 0)).exec FramePlayer.initial moves = some p ∧
        w.reader.lastValidFrame = p.current.map (frameOf 40) ∧
        w.reader.continueReading = p.playing ∧
        (w'.InLoop ↔
          ∀ m ∈ w.nextMove, m ≠ .event .stop → (p.step (row evenFile 40 0) m).isSome) := by
  obtain ⟨w, -, hrun, hw⟩ := Machine.exists_run_of_exec evenMachine
    [.post (.setPosition 90), .notify, .work, .work]
    (fun w => w.pc = .events ∧ w.reader.needStop = false ∧
      w.nextMove = some (.event (.setPosition 90)) ∧ w.eventGuardHeld = false) (by decide +kernel)
  obtain ⟨hpc, hstop, hmove, hfree⟩ := of_decide_eq_true hw
  have hwork : w.work (DemuxerQueue.toIDemuxer (fileParser evenFile 200)) (fifoCodec 0 (25, 1)) =
      some (w.checkEvents (DemuxerQueue.toIDemuxer (fileParser evenFile 200))
        (fifoCodec 0 (25, 1))) := by
    unfold ReaderWorker.work
    simp [hpc, hfree]
  exact ⟨w, _, ⟨_, hrun⟩, hmove, stays_iff_move evenFile_playsRow
    (DemuxerQueue.ofStream_eq (by decide)) rfl ⟨_, hrun⟩
    ⟨⟨by simp [hpc], by simp [hpc], by simp [hpc]⟩, hstop⟩ hwork⟩

end ReaderWorker

end Seekira.Model
