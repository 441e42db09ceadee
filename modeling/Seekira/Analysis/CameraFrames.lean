import Seekira.Analysis.CameraSessions

/-!
# The frames that the fake camera delivers

The provider of a cyclic camera keeps what it provided in a second queue and turns the queues around
when the first is empty.  So the number of frames provided, modulo that of the files, says which
frame is next, however the sessions are started and stopped in between.
-/

set_option autoImplicit false

namespace Seekira.Model

open Library

variable {φ : Type}

namespace FakeFrameProvider

/-- What `get_next_frame` does when it returns. -/
theorem getNextFrame_cases {p p' : FakeFrameProvider φ} {frame : φ}
    (h : p.getNextFrame = .ok (frame, p')) :
    p'.isCyclic = p.isCyclic ∧
      ((p.frames = frame :: p'.frames ∧
          p'.retiredFrames = if p.isCyclic then p.retiredFrames ++ [frame] else p.retiredFrames) ∨
        (p.isCyclic = true ∧ p.frames = [] ∧ p.retiredFrames = frame :: p'.frames ∧
          p'.retiredFrames = [frame])) := by
  obtain ⟨frames, retired, isCyclic, filled⟩ := p
  cases frames with
  | nil =>
    cases isCyclic with
    | false => cases h
    | true =>
      cases retired with
      | nil => exact absurd rfl (filled rfl rfl)
      | cons next rest =>
        cases h
        exact ⟨rfl, .inr ⟨rfl, rfl, rfl, rfl⟩⟩
  | cons next rest =>
    cases isCyclic with
    | false =>
      cases h
      exact ⟨rfl, .inl ⟨rfl, rfl⟩⟩
    | true =>
      cases h
      exact ⟨rfl, .inl ⟨rfl, rfl⟩⟩

/-- A cyclic provider that has provided `k` frames: the queues are the files from some place on and
those before it. -/
def Provided (files : List φ) (k : Nat) (p : FakeFrameProvider φ) : Prop :=
  ∃ place ≤ files.length, place % files.length = k % files.length ∧
    p.frames = files.drop place ∧ p.retiredFrames = files.take place

/-- The first of the files left is the one at the place. -/
theorem head_of_drop {files rest : List φ} {frame : φ} {place : Nat}
    (h : files.drop place = frame :: rest) :
    place < files.length ∧ files[place]? = some frame ∧ rest = files.drop (place + 1) := by
  have hlt : place < files.length := by
    by_contra hge
    rw [List.drop_eq_nil_iff.mpr (by omega)] at h
    cases h
  rw [List.drop_eq_getElem_cons hlt] at h
  obtain ⟨hframe, hrest⟩ := List.cons.inj h
  exact ⟨hlt, by rw [List.getElem?_eq_getElem hlt, hframe], hrest.symm⟩

/-- The next frame is the one that the number of frames before it says. -/
theorem Provided.next {files : List φ} {k : Nat} {p p' : FakeFrameProvider φ} {frame : φ}
    (h : Provided files k p) (hcyclic : p.isCyclic = true)
    (hnext : p.getNextFrame = .ok (frame, p')) :
    files[k % files.length]? = some frame ∧ Provided files (k + 1) p' := by
  obtain ⟨place, hplace, hmod, hframes, hretired⟩ := h
  obtain ⟨-, ⟨hcons, hkept⟩ | ⟨-, hempty, hswapped, hkept⟩⟩ := getNextFrame_cases hnext
  · -- the first queue is not empty
    rw [hframes] at hcons
    obtain ⟨hlt, hframe, hrest⟩ := head_of_drop hcons
    have hk : k % files.length = place := by rw [← hmod, Nat.mod_eq_of_lt hlt]
    refine ⟨by rw [hk, hframe], place + 1, hlt, ?_, hrest, ?_⟩
    · rw [Nat.add_mod, Nat.add_mod k, hmod]
    · rw [hkept, hcyclic, if_pos rfl, hretired, List.take_add_one, hframe]
      rfl
  · -- the queues are turned around
    rw [hframes, List.drop_eq_nil_iff] at hempty
    have hend : place = files.length := Nat.le_antisymm hplace hempty
    rw [hretired, hend, List.take_length] at hswapped
    have hk : k % files.length = 0 := by rw [← hmod, hend, Nat.mod_self]
    refine ⟨by rw [hk, hswapped]; rfl, 1, ?_, ?_, ?_, ?_⟩
    · rw [hswapped]
      simp
    · rw [Nat.add_mod k, hk, Nat.zero_add, Nat.mod_mod]
    · rw [hswapped]
      rfl
    · rw [hkept, hswapped]
      rfl

end FakeFrameProvider

namespace FakeCameraStreamer

open FakeFrameProvider

variable {id : String} {c c' : FakeCameraStreamer φ} {move : CameraMove} {files : List φ}
  {isCyclic : Bool} {hfiles : files ≠ []} {tr : List (FakeCameraStreamer φ × CameraMove)}

/-- The frame that a move takes from the provider and hands to `handle_frame`. -/
def handedFrame (p : FakeCameraStreamer φ × CameraMove) : Option φ :=
  match p.2, p.1.streamerThread with
  | .streamer, some .provide =>
    if p.1.exhausted then none else p.1.provider.getNextFrame.toOption.map Prod.fst
  | _, _ => none

/-- The frames handed over in a run, in all its sessions. -/
def handed (tr : List (FakeCameraStreamer φ × CameraMove)) : List φ := tr.filterMap handedFrame

/-- A move hands over the provider's next frame, or leaves the provider alone. -/
theorem provider_step (h : step id c move = some c') :
    (handedFrame (c, move) = none ∧ c'.provider = c.provider) ∨
      ∃ frame, handedFrame (c, move) = some frame ∧
        c.provider.getNextFrame = .ok (frame, c'.provider) := by
  cases move with
  | start =>
    obtain ⟨-, -, ⟨-, rfl⟩ | ⟨-, rfl⟩⟩ := start_eq_some h
    · exact .inl ⟨rfl, rfl⟩
    · exact .inl ⟨rfl, rfl⟩
  | stop =>
    obtain ⟨-, -, rfl⟩ := stop_eq_some h
    exact .inl ⟨rfl, rfl⟩
  | caller =>
    rcases caller_eq_some h with ⟨-, rfl⟩ | ⟨-, -, rfl⟩ | ⟨-, -, rfl⟩ | ⟨-, rfl⟩
    · exact .inl ⟨rfl, rfl⟩
    · exact .inl ⟨rfl, rfl⟩
    · exact .inl ⟨rfl, rfl⟩
    · exact .inl ⟨rfl, rfl⟩
  | streamer =>
    by_cases hprovide : c.streamerThread = some .provide
    · simp only [step] at h
      split at h
      · cases h
      · simp only [streamStep, hprovide] at h
        split at h
        · rename_i hend
          cases h
          exact .inl ⟨by simp [handedFrame, hprovide, hend], rfl⟩
        · rename_i hmore
          obtain ⟨frame, provider, hnext, -⟩ := getNextFrame_of_not_exhausted (by simpa using hmore)
          rw [hnext] at h
          cases h
          exact .inr ⟨frame, by simp [handedFrame, hprovide, hmore, hnext, Except.toOption], hnext⟩
    · left
      constructor
      · unfold handedFrame
        split
        · rename_i hthread
          exact absurd hthread hprovide
        · rfl
      · cases streams_of_step h with
        | moves => rfl
        | seesEnd => rfl
        | takes frame provider hthread => exact absurd hthread hprovide
        | clears => rfl

/-- What a run has handed over, and what is left. -/
structure Delivered (files : List φ) (isCyclic : Bool) (handed : List φ)
    (p : FakeFrameProvider φ) : Prop where
  isCyclic_eq : p.isCyclic = isCyclic
  cyclic : isCyclic = true → Provided files handed.length p ∧
    ∀ k < handed.length, handed[k]? = files[k % files.length]?
  once : isCyclic = false → handed ++ p.frames = files

/-- A new provider has handed out nothing. -/
theorem delivered_ofFiles (hfiles : files ≠ []) :
    Delivered files isCyclic [] (FakeFrameProvider.ofFiles files isCyclic hfiles) := by
  refine ⟨rfl, ?_, fun _ => rfl⟩
  intro _
  refine ⟨⟨0, Nat.zero_le _, rfl, rfl, rfl⟩, ?_⟩
  intro k hk
  cases hk

/-- The next frame is the one at the place, and the place moves on. -/
theorem Delivered.next {handed : List φ} {p p' : FakeFrameProvider φ} {frame : φ}
    (h : Delivered files isCyclic handed p) (hnext : p.getNextFrame = .ok (frame, p')) :
    Delivered files isCyclic (handed ++ [frame]) p' := by
  obtain ⟨hsame, hcases⟩ := getNextFrame_cases hnext
  refine ⟨hsame.trans h.isCyclic_eq, ?_, ?_⟩
  · intro hcyclic
    obtain ⟨hprovided, hlaw⟩ := h.cyclic hcyclic
    obtain ⟨hframe, hprovided'⟩ := hprovided.next (h.isCyclic_eq.trans hcyclic) hnext
    refine ⟨by rwa [List.length_append, List.length_singleton], ?_⟩
    intro k hk
    by_cases hlast : k < handed.length
    · rw [List.getElem?_append_left hlast]
      exact hlaw k hlast
    · rw [List.length_append, List.length_singleton] at hk
      obtain rfl : k = handed.length := by omega
      rw [List.getElem?_concat_length, hframe]
  · intro honce
    rcases hcases with ⟨hcons, -⟩ | ⟨hcyclic, -⟩
    · rw [List.append_assoc, List.singleton_append, ← hcons]
      exact h.once honce
    · rw [h.isCyclic_eq, honce] at hcyclic
      cases hcyclic

/-- In every run the frames handed out are those of the files in order, over and over. -/
theorem delivered_of_run (h : (machine id (.ofFiles files isCyclic hfiles)).Run tr c) :
    Delivered files isCyclic (handed tr) c.provider := by
  induction h with
  | init => exact delivered_ofFiles hfiles
  | @step tr c c' move _ hstep ih =>
    have happend : handed (tr ++ [(c, move)]) = handed tr ++ (handedFrame (c, move)).toList := by
      unfold handed
      rw [List.filterMap_append]
      cases hframe : handedFrame (c, move) with
      | none => simp [hframe]
      | some frame => simp [hframe]
    rw [happend]
    rcases provider_step hstep with ⟨hnone, hsame⟩ | ⟨frame, hframe, hnext⟩
    · rw [hnone, hsame, Option.toList_none, List.append_nil]
      exact ih
    · rw [hframe, Option.toList_some]
      exact ih.next hnext

/-- Whatever the sessions, the frames handed over are those of the files in order: again and again
from the first on when the camera is cyclic, and once otherwise. -/
theorem handed_eq (h : (machine id (.ofFiles files isCyclic hfiles)).Run tr c) :
    (isCyclic = true →
      ∀ k < (handed tr).length, (handed tr)[k]? = files[k % files.length]?) ∧
    (isCyclic = false → handed tr <+: files) := by
  have hdelivered := delivered_of_run h
  refine ⟨fun hcyclic => (hdelivered.cyclic hcyclic).2, ?_⟩
  intro honce
  exact ⟨_, hdelivered.once honce⟩

/-- Two files, three frames: the first session takes both, a second one begins again. -/
def twoSessions : List CameraMove :=
  [.start, .caller, .caller, .streamer, .streamer, .streamer, .streamer, .streamer, .streamer,
    .streamer, .stop, .streamer, .streamer, .caller, .start, .caller, .caller, .streamer, .streamer,
    .streamer]

/-- Two files, cyclic, over two sessions. -/
theorem handed_eq_twoSessions :
    ∃ tr c, (machine "camera" (.ofFiles [5, 6] true (by simp))).Run tr c ∧ handed tr = [5, 6, 5] ∧
      ∀ k < 3, (handed tr)[k]? = [5, 6][k % 2]? := by
  obtain ⟨c, -, hrun, -⟩ := Machine.exists_run_of_exec
    (machine "camera" (.ofFiles [5, 6] true (by simp))) twoSessions (fun _ => true) (by decide +kernel)
  have hhanded : handed ((machine "camera" (.ofFiles [5, 6] true (by simp))).trace
      (machine "camera" (.ofFiles [5, 6] true (by simp))).init twoSessions) = [5, 6, 5] := by
    decide +kernel
  refine ⟨_, c, hrun, hhanded, ?_⟩
  have hlaw := (handed_eq hrun).1 rfl
  rw [hhanded] at hlaw
  rw [hhanded]
  exact hlaw

end FakeCameraStreamer

end Seekira.Model
