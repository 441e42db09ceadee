import Seekira.Library.Machine
import Seekira.Model.Media

/-!
# The queue of one stream

`PacketQueue` holds the packets of one stream between the parser and the stream's
reader, together with running totals of their sizes and of the key packets.
-/

set_option autoImplicit false

namespace Seekira.Model

/-- SOURCE: video/ffmpeg/decoding/packet_queue.hpp:15-43 -/
structure PacketQueue where
  enabled : Bool
  canBeEmpty : Bool
  keyCount : Int
  currentSize : Int
  list : List DataPacket
  deriving DecidableEq, Repr

namespace PacketQueue

/-- `m_max_packets` -/
def maxPackets : Nat := 999999

/-- `m_max_size` -/
def maxSize : Int := 50 * 1000000

/-- SOURCE: video/ffmpeg/decoding/packet_queue.cpp:6-14 -/
def create (type : MediaType) : PacketQueue :=
  { enabled := true, canBeEmpty := type ≠ .video && type ≠ .audio, keyCount := 0,
    currentSize := 0, list := [] }

/-- SOURCE: video/ffmpeg/decoding/packet_queue.cpp:16-25 -/
def push (packet : DataPacket) (q : PacketQueue) : PacketQueue :=
  { q with
    list := q.list ++ [packet]
    currentSize := q.currentSize + packet.size
    keyCount := q.keyCount + (if packet.isKeyFrame then 1 else 0) }

/-- The front packet; the callers never pop an empty queue.
SOURCE: video/ffmpeg/decoding/packet_queue.cpp:27-37 -/
def pop (q : PacketQueue) : Option DataPacket × PacketQueue :=
  match q.list with
  | [] => (none, q)
  | packet :: rest =>
    (some packet,
      { q with
        list := rest
        currentSize := q.currentSize - packet.size
        keyCount := q.keyCount - (if packet.isKeyFrame then 1 else 0) })

/-- The first known timestamp of the queue.
SOURCE: video/ffmpeg/decoding/packet_queue.cpp:39-53 -/
def position (q : PacketQueue) : TimestampFF :=
  if q.currentSize ≤ 0 then avNoPtsValue
  else
    match q.list.find? fun p => p.ptsOrDts ≠ avNoPtsValue with
    | some p => p.ptsOrDts
    | none => avNoPtsValue

def size (q : PacketQueue) : Nat := q.list.length

/-- SOURCE: video/ffmpeg/decoding/packet_queue.cpp:61-67 -/
def reset (q : PacketQueue) : PacketQueue :=
  { q with list := [], currentSize := 0, keyCount := 0 }

/-- SOURCE: video/ffmpeg/decoding/packet_queue.cpp:71-78 -/
def setEnabled (enabled : Bool) (q : PacketQueue) : PacketQueue :=
  if enabled then { q with enabled := true } else { q with enabled := false }.reset

/-- SOURCE: video/ffmpeg/decoding/packet_queue.cpp:80-84 -/
def isFull (q : PacketQueue) : Bool :=
  decide (q.list.length > maxPackets) || decide (q.currentSize > maxSize)

/-- A call that changes the queue. -/
inductive Call where
  | push (packet : DataPacket)
  | pop
  | reset
  | setEnabled (enabled : Bool)
  deriving DecidableEq, Repr

/-- `pop` is called on a queue that is not empty. -/
def step (q : PacketQueue) : Call → Option PacketQueue
  | .push packet => some (q.push packet)
  | .pop => if q.list.isEmpty then none else some q.pop.2
  | .reset => some q.reset
  | .setEnabled enabled => some (q.setEnabled enabled)

/-- The queue of a stream of the given type, from its construction. -/
def machine (type : MediaType) : Library.Machine PacketQueue Call where
  init := create type
  step := step

end PacketQueue

end Seekira.Model
