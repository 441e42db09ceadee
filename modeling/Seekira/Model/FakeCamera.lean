import Seekira.Library.Machine

/-!
# The fake camera

`FakeCameraStreamer` reads its frames in a thread of its own.  `start` refuses while
`m_is_streaming` is set, sets it and makes the thread; `stop` clears it and joins the thread; the
thread clears it when there are no more frames.  Here every access to the flag and every use of the
thread object is a step of its own.  One thread calls `start` and `stop`.
-/

set_option autoImplicit false

namespace Seekira.Model

open Library

variable {φ : Type}

/-- SOURCE: video/camera/camera_fake/fake_camera.hpp:16-31 -/
structure FakeFrameProvider (φ : Type) where
  frames : List φ
  retiredFrames : List φ
  isCyclic : Bool
  /-- The constructor asserts that there are frames, and a cyclic provider loses none. -/
  filled : isCyclic = true → frames = [] → retiredFrames ≠ []

namespace FakeFrameProvider

/-- The constructor, given the files with valid frames that it found.
SOURCE: video/camera/camera_fake/fake_camera.cpp:30-62 -/
def ofFiles (files : List φ) (isCyclic : Bool) (hfiles : files ≠ []) : FakeFrameProvider φ where
  frames := files
  retiredFrames := []
  isCyclic := isCyclic
  filled := fun _ hempty => absurd hempty hfiles

def exhausted (p : FakeFrameProvider φ) : Bool := p.frames.isEmpty

/-- SOURCE: video/camera/camera_fake/fake_camera.cpp:64-86 -/
def getNextFrame (p : FakeFrameProvider φ) : Except String (φ × FakeFrameProvider φ) :=
  match p.frames, p.retiredFrames, p.isCyclic, p.filled with
  | [], _, false, _ => .error "All frames are read"
  -- refill
  | [], next :: rest, true, _ => .ok (next, ⟨rest, [next], true, by simp⟩)
  | [], [], true, h => absurd rfl (h rfl rfl)
  | next :: rest, retired, true, _ => .ok (next, ⟨rest, retired ++ [next], true, by simp⟩)
  | next :: rest, retired, false, _ => .ok (next, ⟨rest, retired, false, by simp⟩)

end FakeFrameProvider

/-- Where the streaming thread stands in `stream`. -/
inductive StreamStage (φ : Type) where
  /-- at the condition of the loop -/
  | test
  /-- the provider's mutex is held, before the flag is tested again -/
  | retest
  /-- the flag was set -/
  | provide
  /-- there are no more frames, before the flag is cleared -/
  | clear
  /-- inside `handle_frame`, or asleep after it -/
  | handle (frame : φ)
  | returned
  deriving DecidableEq, Repr

/-- Where the calling thread stands. -/
inductive CallStage where
  | idle
  /-- in `start`, the assert passed -/
  | storing
  /-- in `start`, before the thread is made -/
  | assigning
  /-- in `stop`, the flag was cleared -/
  | joining
  deriving DecidableEq, Repr

/-- SOURCE: video/camera/camera_fake/fake_camera.hpp:46-63 -/
structure FakeCameraStreamer (φ : Type) where
  provider : FakeFrameProvider φ
  isStreaming : Bool
  /-- `m_streamer_thread`; without a value it is not joinable -/
  streamerThread : Option (StreamStage φ)
  call : CallStage
  terminated : Bool

/-- Who moves. -/
inductive CameraMove where
  /-- `start` is called, up to its assert -/
  | start
  /-- `stop` is called, up to its store -/
  | stop
  /-- the call goes on -/
  | caller
  /-- the streaming thread goes on -/
  | streamer
  deriving DecidableEq, Repr

namespace FakeCameraStreamer

def create (provider : FakeFrameProvider φ) : FakeCameraStreamer φ :=
  { provider := provider, isStreaming := false, streamerThread := none, call := .idle
    terminated := false }

/-- SOURCE: video/camera/camera_fake/fake_camera.cpp:140-150 -/
def exhausted (c : FakeCameraStreamer φ) : Bool := !c.provider.isCyclic && c.provider.exhausted

/-- SOURCE: video/camera/camera_fake/fake_camera.cpp:92 -/
def checkStart (id : String) (c : FakeCameraStreamer φ) : Except String Unit :=
  if c.isStreaming then .error ("Fake camera " ++ id ++ " is already running") else .ok ()

/-- SOURCE: video/camera/camera_fake/fake_camera.cpp:88-111 -/
def callerStep (c : FakeCameraStreamer φ) : Option (FakeCameraStreamer φ) :=
  match c.call with
  | .idle => none
  | .storing => some { c with isStreaming := true, call := .assigning }
  | .assigning =>
    match c.streamerThread with
    | none => some { c with streamerThread := some .test, call := .idle }
    -- the assignment to a joinable thread
    | some _ => some { c with terminated := true }
  | .joining =>
    match c.streamerThread with
    | none => some { c with call := .idle }
    | some .returned => some { c with streamerThread := none, call := .idle }
    | some _ => none

/-- SOURCE: video/camera/camera_fake/fake_camera.cpp:113-138 -/
def streamStep (c : FakeCameraStreamer φ) : Option (FakeCameraStreamer φ) :=
  match c.streamerThread with
  | none => none
  | some .test =>
    some { c with streamerThread := some (if c.isStreaming then .retest else .returned) }
  | some .retest =>
    some { c with streamerThread := some (if c.isStreaming then .provide else .returned) }
  | some .provide =>
    if c.exhausted then some { c with streamerThread := some .clear }
    else match c.provider.getNextFrame with
      | .ok (frame, provider) =>
        some { c with provider := provider, streamerThread := some (.handle frame) }
      | .error _ => some { c with terminated := true }
  | some .clear => some { c with isStreaming := false, streamerThread := some .returned }
  | some (.handle _) => some { c with streamerThread := some .test }
  | some .returned => none

def step (id : String) (c : FakeCameraStreamer φ) : CameraMove → Option (FakeCameraStreamer φ)
  | .start =>
    if c.terminated ∨ c.call ≠ .idle then none
    else match c.checkStart id with
      | .ok () => some { c with call := .storing }
      | .error _ => some c
  | .stop =>
    if c.terminated ∨ c.call ≠ .idle then none
    else some { c with isStreaming := false, call := .joining }
  | .caller => if c.terminated then none else c.callerStep
  | .streamer => if c.terminated then none else c.streamStep

/-- A camera with the given frames, the thread that calls it and its streaming thread. -/
def machine (id : String) (provider : FakeFrameProvider φ) :
    Machine (FakeCameraStreamer φ) CameraMove where
  init := create provider
  step := step id

end FakeCameraStreamer

end Seekira.Model
