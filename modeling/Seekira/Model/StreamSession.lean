import Seekira.Library.Machine
import Seekira.Model.DemuxedStream
import Seekira.Model.MediaFile

/-!
# A session with the streams of a file

A client calls `read_frame`, `request_seek` and `do_seek` of the streams in any
order.  A call of `read_frame` is stepped pass by pass; the other calls are one
step each.  What a call throws goes to the client, which may call again; the
dereference of a null packet or of the null decoder of a stream that is not a video
stream ends the process.
-/

set_option autoImplicit false

namespace Seekira.Model

open Library

/-- Where the client stands. -/
inductive SessionPc where
  | idle
  /-- inside the loop of `read_frame` of a stream -/
  | reading (s : StreamId)
  /-- a null packet was dereferenced -/
  | crashed
  /-- a null decoder was dereferenced -/
  | decoderless
  deriving DecidableEq, Repr

inductive SessionLabel where
  | readFrame (s : StreamId)
  /-- one pass of the loop of `read_frame` -/
  | pass
  | requestSeek (s : StreamId) (time : TimestampFF) (resultChecker : Option StreamId)
  | doSeek (s : StreamId)
  deriving DecidableEq, Repr

structure StreamSession (δ κ : Type) where
  streams : StreamReader δ κ
  pc : SessionPc

namespace StreamSession

variable {δ κ : Type} (D : IDemuxer δ) (C : CodecOps κ)

/-- The end of a step; `next` is where the client stands after a return. -/
def afterCall {α : Type} (next : α → SessionPc) (result : Except Fault α × StreamReader δ κ) :
    StreamSession δ κ :=
  match result with
  | (.ok a, r) => ⟨r, next a⟩
  | (.error .nullDeref, r) => ⟨r, .crashed⟩
  | (.error .nullDecoder, r) => ⟨r, .decoderless⟩
  | (.error _, r) => ⟨r, .idle⟩

def step (w : StreamSession δ κ) (l : SessionLabel) : Option (StreamSession δ κ) :=
  match w.pc, l with
  | .idle, .readFrame s => some { w with pc := .reading s }
  | .reading s, .pass =>
    some (afterCall (fun out => if out.isSome then .idle else .reading s)
      (StreamReader.readFramePass D C s w.streams))
  | .idle, .requestSeek s time resultChecker =>
    some (afterCall (fun _ => .idle) (StreamReader.requestSeek D C s time resultChecker w.streams))
  | .idle, .doSeek s => some (afterCall (fun _ => .idle) (StreamReader.doSeek D s w.streams))
  | _, _ => none

/-- The sessions with streams that start as `r`. -/
def machine (r : StreamReader δ κ) : Machine (StreamSession δ κ) SessionLabel where
  init := ⟨r, .idle⟩
  step := step D C

end StreamSession

end Seekira.Model
