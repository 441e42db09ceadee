import Seekira.Library.PastTime
import Seekira.Model.FakeCamera

/-!
# Streaming sessions of the fake camera

An exhausted camera is meant to refuse `start`.  Nothing in `start` looks at the frames: it refuses
as long as `m_is_streaming` is set, which after the last frame lasts until the streaming thread
looks for the next one, or until `stop`.  A camera that is not started after that is refused in
time, begins no session without frames, and never assigns to a joinable thread.
-/

set_option autoImplicit false

namespace Seekira.Model.FakeCameraStreamer

open Library

variable {φ : Type} {id : String} {provider : FakeFrameProvider φ}
  {c c' : FakeCameraStreamer φ} {move : CameraMove}
  {tr : List (FakeCameraStreamer φ × CameraMove)}

/-- `start` sets the flag. -/
def Begins (p : FakeCameraStreamer φ × CameraMove) : Prop :=
  p.2 = .caller ∧ p.1.call = .storing

/-- `stop` is called, or the streaming thread found no more frames; both clear the flag. -/
def Clears (p : FakeCameraStreamer φ × CameraMove) : Prop :=
  p.2 = .stop ∨ (p.2 = .streamer ∧ p.1.streamerThread = some .clear)

/-- `start` makes its thread. -/
def MakesThread (p : FakeCameraStreamer φ × CameraMove) : Prop :=
  p.2 = .caller ∧ p.1.call = .assigning

/-- What is expected of `start`. -/
structure Refuses (id : String) (tr : List (FakeCameraStreamer φ × CameraMove)) : Prop where
  throws : ∀ p ∈ tr, p.2 = .start → p.1.exhausted = true → ∃ e, p.1.checkStart id = .error e
  noSession : ∀ p ∈ tr, MakesThread p → p.1.exhausted = false
  notJoinable : ∀ p ∈ tr, MakesThread p → p.1.streamerThread = none

/-! ## One move -/

/-- What `start` does: nothing while frames are streamed, else it begins a session. -/
theorem start_eq_some (h : step id c .start = some c') :
    c.terminated = false ∧ c.call = .idle ∧
      ((c.isStreaming = true ∧ c' = c) ∨
        (c.isStreaming = false ∧ c' = { c with call := .storing })) := by
  simp only [step, checkStart] at h
  split at h
  case isTrue => cases h
  case isFalse hidle =>
    obtain ⟨hrunning, hcall⟩ : c.terminated = false ∧ c.call = .idle := by simpa using hidle
    refine ⟨hrunning, hcall, ?_⟩
    cases hstreaming : c.isStreaming with
    | true => exact .inl ⟨rfl, by simpa [hstreaming] using h.symm⟩
    | false => exact .inr ⟨rfl, by simpa [hstreaming] using h.symm⟩

/-- What `stop` does: it asks the thread to end and joins it. -/
theorem stop_eq_some (h : step id c .stop = some c') :
    c.terminated = false ∧ c.call = .idle ∧
      c' = { c with isStreaming := false, call := .joining } := by
  simp only [step] at h
  split at h
  case isTrue => cases h
  case isFalse hidle =>
    obtain ⟨hrunning, hcall⟩ : c.terminated = false ∧ c.call = .idle := by simpa using hidle
    exact ⟨hrunning, hcall, (Option.some.inj h).symm⟩

/-- What the caller's next step does. -/
theorem caller_eq_some (h : step id c .caller = some c') :
    (c.call = .storing ∧ c' = { c with isStreaming := true, call := .assigning }) ∨
    (c.call = .assigning ∧ c.streamerThread = none ∧
      c' = { c with streamerThread := some .test, call := .idle }) ∨
    (c.call = .assigning ∧ c.streamerThread ≠ none ∧ c' = { c with terminated := true }) ∨
    (c.call = .joining ∧ c' = { c with streamerThread := none, call := .idle }) := by
  simp only [step] at h
  split at h
  case isTrue => cases h
  case isFalse =>
    unfold callerStep at h
    cases hcall : c.call with
    | idle => simp [hcall] at h
    | storing => exact .inl ⟨rfl, by simpa [hcall] using h.symm⟩
    | assigning =>
      cases hthread : c.streamerThread with
      | none => exact .inr (.inl ⟨rfl, rfl, by simpa [hcall, hthread] using h.symm⟩)
      | some stage =>
        exact .inr (.inr (.inl ⟨rfl, by simp, by simpa [hcall, hthread] using h.symm⟩))
    | joining =>
      refine .inr (.inr (.inr ⟨rfl, ?_⟩))
      cases hthread : c.streamerThread with
      | none =>
        have hafter : { c with call := .idle } = c' := by simpa [hcall, hthread] using h
        rw [← hafter, ← hthread]
      | some stage =>
        cases stage with
        | returned => simpa [hcall, hthread] using h.symm
        | _ => simp [hcall, hthread] at h

/-- A camera that is not exhausted has a next frame. -/
theorem getNextFrame_of_not_exhausted (h : c.exhausted = false) :
    ∃ frame provider, c.provider.getNextFrame = .ok (frame, provider) ∧
      provider.isCyclic = c.provider.isCyclic := by
  obtain ⟨⟨frames, retired, isCyclic, filled⟩, streaming, thread, call, terminated⟩ := c
  cases frames with
  | nil =>
    cases isCyclic with
    | false => simp [exhausted, FakeFrameProvider.exhausted] at h
    | true =>
      cases retired with
      | nil => exact absurd rfl (filled rfl rfl)
      | cons next rest => exact ⟨next, _, rfl, rfl⟩
  | cons next rest => cases isCyclic <;> exact ⟨next, _, rfl, rfl⟩

/-- What the streaming thread can do. -/
inductive Streams (c : FakeCameraStreamer φ) : FakeCameraStreamer φ → Prop
  | moves (stage stage' : StreamStage φ) : c.streamerThread = some stage → stage ≠ .returned →
      stage ≠ .clear → stage' ≠ .clear → Streams c { c with streamerThread := some stage' }
  | seesEnd : c.streamerThread = some .provide → c.exhausted = true →
      Streams c { c with streamerThread := some .clear }
  | takes (frame : φ) (provider : FakeFrameProvider φ) : c.streamerThread = some .provide →
      provider.isCyclic = c.provider.isCyclic →
      Streams c { c with provider := provider, streamerThread := some (.handle frame) }
  | clears : c.streamerThread = some .clear →
      Streams c { c with isStreaming := false, streamerThread := some .returned }

/-- Each step of the thread is one of its moves. -/
theorem streams_of_step (h : step id c .streamer = some c') : Streams c c' := by
  simp only [step] at h
  split at h
  case isTrue => cases h
  case isFalse =>
    unfold streamStep at h
    cases hthread : c.streamerThread with
    | none => simp [hthread] at h
    | some stage =>
      cases stage with
      | test =>
        simp only [hthread] at h
        rw [← Option.some.inj h]
        refine .moves .test _ hthread (by simp) (by simp) ?_
        split <;> simp
      | retest =>
        simp only [hthread] at h
        rw [← Option.some.inj h]
        refine .moves .retest _ hthread (by simp) (by simp) ?_
        split <;> simp
      | provide =>
        simp only [hthread] at h
        split at h
        · rename_i hend
          rw [← Option.some.inj h]
          exact .seesEnd hthread hend
        · rename_i hmore
          obtain ⟨frame, provider, hnext, hcyclic⟩ :=
            getNextFrame_of_not_exhausted (by simpa using hmore)
          rw [hnext] at h
          rw [← Option.some.inj h]
          exact .takes frame provider hthread hcyclic
      | clear =>
        simp only [hthread] at h
        rw [← Option.some.inj h]
        exact .clears hthread
      | handle frame =>
        simp only [hthread] at h
        rw [← Option.some.inj h]
        exact .moves (.handle frame) _ hthread (by simp) (by simp) (by simp)
      | returned => simp [hthread] at h

/-- The flag is set when `start` set it and nothing cleared it since. -/
theorem isStreaming_iff (h : (machine id provider).Run tr c) :
    c.isStreaming = true ↔ Since Clears Begins tr := by
  refine h.since_iff (A := fun c => c.isStreaming = true) (by simp [machine, create]) ?_
  intro c move c' _ hstep
  change step id c move = some c' at hstep
  cases move with
  | start =>
    obtain ⟨-, -, ⟨-, rfl⟩ | ⟨-, rfl⟩⟩ := start_eq_some hstep <;> simp [Begins, Clears]
  | stop =>
    obtain ⟨-, -, rfl⟩ := stop_eq_some hstep
    simp [Begins, Clears]
  | caller =>
    rcases caller_eq_some hstep with ⟨hcall, rfl⟩ | ⟨hcall, -, rfl⟩ | ⟨hcall, -, rfl⟩ | ⟨hcall, rfl⟩ <;>
      simp [Begins, Clears, hcall]
  | streamer =>
    cases streams_of_step hstep with
    | moves stage stage' hthread _ hclear => simp [Begins, Clears, hthread, hclear]
    | seesEnd hthread => simp [Begins, Clears, hthread]
    | takes _ _ hthread => simp [Begins, Clears, hthread]
    | clears hthread => simp [Begins, Clears, hthread]

/-! ## Runs -/

/-- `start` is called on an exhausted camera only while the flag is set. -/
def InTime (c : FakeCameraStreamer φ) (move : CameraMove) : Prop :=
  move = .start → c.exhausted = true → c.isStreaming = true

/-- What holds between the moves of a run whose calls of `start` are in time. -/
structure Sound (c : FakeCameraStreamer φ) : Prop where
  isCyclic : c.provider.isCyclic = false
  clear : c.streamerThread = some .clear → c.exhausted = true
  idle : c.call = .idle → c.isStreaming = false →
    c.streamerThread = none ∨ (c.streamerThread = some .returned ∧ c.exhausted = true)
  storing : c.call = .storing → c.streamerThread = none ∧ c.exhausted = false
  assigning : c.call = .assigning →
    c.isStreaming = true ∧ c.streamerThread = none ∧ c.exhausted = false

/-- A new camera is sound. -/
theorem sound_create (hcyclic : provider.isCyclic = false) : Sound (create provider) := by
  refine ⟨hcyclic, ?_, ?_, ?_, ?_⟩
  · simp [create]
  · intro _ _
    exact .inl rfl
  · simp [create]
  · simp [create]

/-- A call of `start` past its store finds no streaming thread. -/
theorem Sound.not_starting (h : Sound c) {stage : StreamStage φ}
    (hthread : c.streamerThread = some stage) : c.call ≠ .storing ∧ c.call ≠ .assigning := by
  constructor
  · intro hcall
    rw [(h.storing hcall).1] at hthread
    cases hthread
  · intro hcall
    rw [(h.assigning hcall).2.1] at hthread
    cases hthread

/-- Between the calls the flag is set while the streaming thread runs. -/
theorem Sound.isStreaming_of_running (h : Sound c) {stage : StreamStage φ}
    (hthread : c.streamerThread = some stage) (hstage : stage ≠ .returned) (hcall : c.call = .idle) :
    c.isStreaming ≠ false := by
  intro hcleared
  rcases h.idle hcall hcleared with hnone | ⟨hreturned, -⟩
  · rw [hnone] at hthread
    cases hthread
  · rw [hreturned] at hthread
    exact hstage (Option.some.inj hthread).symm

/-- The moves of the thread keep the camera sound. -/
theorem Sound.streams (h : Sound c) (hstreams : Streams c c') : Sound c' := by
  cases hstreams with
  | moves stage stage' hthread hstage _ hstage' =>
    obtain ⟨hstoring, hassigning⟩ := h.not_starting hthread
    refine ⟨h.isCyclic, ?_, ?_, fun hcall => absurd hcall hstoring,
      fun hcall => absurd hcall hassigning⟩
    · intro hclear
      exact absurd (Option.some.inj hclear) hstage'
    · intro hcall hcleared
      exact absurd hcleared (h.isStreaming_of_running hthread hstage hcall)
  | seesEnd hthread hend =>
    obtain ⟨hstoring, hassigning⟩ := h.not_starting hthread
    refine ⟨h.isCyclic, fun _ => hend, ?_, fun hcall => absurd hcall hstoring,
      fun hcall => absurd hcall hassigning⟩
    intro hcall hcleared
    exact absurd hcleared (h.isStreaming_of_running hthread (by simp) hcall)
  | takes frame provider hthread hcyclic =>
    obtain ⟨hstoring, hassigning⟩ := h.not_starting hthread
    refine ⟨hcyclic.trans h.isCyclic, by simp, ?_, fun hcall => absurd hcall hstoring,
      fun hcall => absurd hcall hassigning⟩
    intro hcall hcleared
    exact absurd hcleared (h.isStreaming_of_running hthread (by simp) hcall)
  | clears hthread =>
    obtain ⟨hstoring, hassigning⟩ := h.not_starting hthread
    refine ⟨h.isCyclic, by simp, ?_, fun hcall => absurd hcall hstoring,
      fun hcall => absurd hcall hassigning⟩
    intro _ _
    exact .inr ⟨rfl, h.clear hthread⟩

/-- Every step in time keeps the camera sound. -/
theorem Sound.step (h : Sound c) (hguard : InTime c move)
    (hstep : FakeCameraStreamer.step id c move = some c') : Sound c' := by
  cases move with
  | start =>
    obtain ⟨-, hcall, ⟨-, rfl⟩ | ⟨hstreaming, rfl⟩⟩ := start_eq_some hstep
    · exact h
    · have hframes : c.exhausted = false := by
        cases hend : c.exhausted with
        | false => rfl
        | true =>
          have hset := hguard rfl hend
          rw [hstreaming] at hset
          cases hset
      have hthread : c.streamerThread = none := by
        rcases h.idle hcall hstreaming with hnone | ⟨-, hend⟩
        · exact hnone
        · rw [hframes] at hend
          cases hend
      exact ⟨h.isCyclic, h.clear, by simp, fun _ => ⟨hthread, hframes⟩, by simp⟩
  | stop =>
    obtain ⟨-, -, rfl⟩ := stop_eq_some hstep
    exact ⟨h.isCyclic, h.clear, by simp, by simp, by simp⟩
  | caller =>
    rcases caller_eq_some hstep with ⟨hcall, rfl⟩ | ⟨hcall, -, rfl⟩ | ⟨hcall, hjoinable, -⟩ | ⟨-, rfl⟩
    · exact ⟨h.isCyclic, h.clear, by simp, by simp, fun _ => ⟨rfl, h.storing hcall⟩⟩
    · obtain ⟨hstreaming, -, -⟩ := h.assigning hcall
      refine ⟨h.isCyclic, by simp, ?_, by simp, by simp⟩
      intro _ hcleared
      rw [hstreaming] at hcleared
      cases hcleared
    · exact absurd (h.assigning hcall).2.1 hjoinable
    · exact ⟨h.isCyclic, by simp, fun _ _ => .inl rfl, by simp, by simp⟩
  | streamer => exact h.streams (streams_of_step hstep)

/-- A camera that is not cyclic refuses `start` when it is exhausted, begins no session then, and
never assigns to a joinable thread, exactly in the runs in which every `start` of an exhausted
camera comes after another one's store and before `stop` and before the streaming thread finds no
more frames. -/
theorem refuses_iff (hcyclic : provider.isCyclic = false) (h : (machine id provider).Run tr c) :
    Refuses id tr ↔
      EachAfter (fun before p => p.2 = .start → p.1.exhausted = true → Since Clears Begins before)
        tr := by
  have htold : EachAfter (fun before p => p.2 = .start → p.1.exhausted = true →
      Since Clears Begins before) tr ↔ ∀ p ∈ tr, InTime p.1 p.2 := by
    apply h.eachAfter_iff
    intro tr c move hrun
    simp only [InTime, isStreaming_iff hrun]
  rw [htold]
  constructor
  · intro hrefuses p hp hstart hend
    obtain ⟨e, he⟩ := hrefuses.throws p hp hstart hend
    unfold checkStart at he
    split at he
    · assumption
    · cases he
  · intro hguard
    have hsound : ∀ p ∈ tr, Sound p.1 :=
      h.invariant_source_of_guard (sound_create hcyclic)
        (fun c move c' hc hin hstep => hc.step hin hstep) hguard
    refine ⟨?_, ?_, ?_⟩
    · intro p hp hstart hend
      have hset := hguard p hp hstart hend
      exact ⟨_, if_pos hset⟩
    · rintro p hp ⟨-, hcall⟩
      exact ((hsound p hp).assigning hcall).2.2
    · rintro p hp ⟨-, hcall⟩
      exact ((hsound p hp).assigning hcall).2.1

/-! ### One frame -/

/-- A camera with one frame. -/
def oneFrame : FakeFrameProvider Nat := ⟨[0], [], false, by simp⟩

/-- The frame is taken, the thread finds no more, and the camera is started again. -/
def startAfterEnd : List CameraMove :=
  [.start, .caller, .caller, .streamer, .streamer, .streamer, .streamer, .streamer, .streamer,
    .streamer, .streamer, .start, .caller, .caller]

/-- A camera whose frames are exhausted is started again. -/
theorem not_refuses_after_end :
    ¬Refuses "camera" ((machine "camera" oneFrame).trace (create oneFrame) startAfterEnd) := by
  intro hrefuses
  have hmakes : ((machine "camera" oneFrame).trace (create oneFrame) startAfterEnd).any
      (fun p => decide (p.2 = .caller) && decide (p.1.call = .assigning) &&
        p.1.streamerThread.isSome) = true := by decide +kernel
  obtain ⟨p, hp, hmakes⟩ := List.any_eq_true.mp hmakes
  simp only [Bool.and_eq_true, decide_eq_true_eq] at hmakes
  obtain ⟨⟨hmove, hcall⟩, hsome⟩ := hmakes
  rw [hrefuses.notJoinable p hp ⟨hmove, hcall⟩] at hsome
  cases hsome

/-- The second `start` passes its assert and assigns to a joinable thread. -/
theorem exhausted_camera_starts :
    ∃ tr c, (machine "camera" oneFrame).Run tr c ∧ tr.map Prod.snd = startAfterEnd ∧
      ¬Refuses "camera" tr ∧ c.terminated = true := by
  obtain ⟨c, -, hrun, hc⟩ := Machine.exists_run_of_exec (machine "camera" oneFrame) startAfterEnd
    (fun c => c.terminated) (by decide +kernel)
  exact ⟨_, c, hrun, by decide +kernel, not_refuses_after_end, hc⟩

/-- In that run the start comes after the flag was cleared. -/
theorem refuses_iff_after_end :
    ∃ c, (machine "camera" oneFrame).Run
        ((machine "camera" oneFrame).trace (create oneFrame) startAfterEnd) c ∧
      ¬EachAfter (fun before p => p.2 = .start → p.1.exhausted = true → Since Clears Begins before)
        ((machine "camera" oneFrame).trace (create oneFrame) startAfterEnd) := by
  obtain ⟨c, -, hrun, -⟩ := Machine.exists_run_of_exec (machine "camera" oneFrame) startAfterEnd
    (fun c => c.terminated) (by decide +kernel)
  refine ⟨c, hrun, ?_⟩
  intro hintime
  exact not_refuses_after_end ((refuses_iff rfl hrun).mpr hintime)

end Seekira.Model.FakeCameraStreamer
