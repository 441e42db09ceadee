import Seekira.Library.Machine
import Seekira.Model.DemuxerQueue

/-!
# The demuxer between two seeks

A period begins with a fresh demuxer or with a repositioning of the parser, before
which the queues are emptied, and lasts until the next repositioning.  In between, the
demuxer's clients read streams, in any order, and its own `seek` fills the queues
again; no stream is enabled or disabled.

The packets returned for each stream are recorded; no step reads the record.
-/

set_option autoImplicit false

namespace Seekira.Model

open Library

/-- A call between two repositionings. -/
inductive DemuxerCall where
  | fillQueue (keyPacketsMustExist : Bool)
  | read (stream : StreamId)
  deriving DecidableEq, Repr

/-- A demuxer with the packets that `read` returned since the period began. -/
structure DemuxerPeriod (π : Type) where
  demuxer : DemuxerQueue π
  returned : StreamId → List DataPacket

namespace DemuxerPeriod

variable {π : Type} (P : ParserOps π)

/-- The demuxer at the beginning of a period, after its constructor and the calls of
`enable_stream` by its client, or after `reset_queue` and `m_parser->seek`.  The queues of a
demuxer are made for the types of its streams.
SOURCE: video/ffmpeg/decoding/demuxer_queue.cpp:7-20, 101-109, 215-216 -/
inductive Begins : DemuxerQueue π → Prop
  | constructed (ahead : List DataPacket) (internal : π) (enabled : StreamId → Bool) :
      Begins
        { DemuxerQueue.create P ahead internal with
          queues := fun i => (PacketQueue.create (P.streamType i)).setEnabled (enabled i) }
  | repositioned (d : DemuxerQueue π) (index : StreamId) (time : TimestampFF) :
      (∀ i, (d.queues i).canBeEmpty = (PacketQueue.create (P.streamType i)).canBeEmpty) →
      Begins (d.resetQueue.parserSeek P index time).2

def step (w : DemuxerPeriod π) (l : DemuxerCall) : Option (DemuxerPeriod π) :=
  match l with
  | .fillQueue keyPacketsMustExist =>
    some { w with demuxer := (w.demuxer.fillQueue P keyPacketsMustExist).2 }
  | .read stream =>
    match DemuxerQueue.read P stream w.demuxer with
    | (.ok (some packet), d) =>
      some ⟨d, Function.update w.returned stream (w.returned stream ++ [packet])⟩
    | (_, d) => some { w with demuxer := d }

/-- The period that begins with `d`. -/
def machine (d : DemuxerQueue π) : Machine (DemuxerPeriod π) DemuxerCall where
  init := ⟨d, fun _ => []⟩
  step := step P

end DemuxerPeriod

end Seekira.Model
