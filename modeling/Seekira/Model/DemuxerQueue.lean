import Mathlib.Algebra.GroupWithZero.Nat
import Mathlib.Algebra.Ring.Int.Defs
import Seekira.Model.PacketQueue

/-!
# The demuxer

`DemuxerQueue` reads packets from the parser in batches and sorts them into one
queue per stream.  After a seek it fills the queues until each holds two key
packets, and it drops what it queued for a stream whenever a key packet at or
before the seek time arrives.

The parser is a parameter: what it is going to return until it reports the end of
the file is a list, and a seek replaces that list.
-/

set_option autoImplicit false

namespace Seekira.Model

open Library

/-- `ParserFF` as the demuxer uses it, with an internal state `π`.  `seek` gets the packets not
read yet and the internal state and returns whether it returned, and what is left to read then. -/
structure ParserOps (π : Type) where
  streamCount : Nat
  streamType : StreamId → MediaType
  streamDuration : StreamId → TimeFF
  seekStream : StreamId
  seek : StreamId → TimestampFF → List DataPacket → π → Bool × List DataPacket × π

/-- SOURCE: video/ffmpeg/decoding/demuxer_queue.hpp:43-54 -/
structure DemuxerQueue (π : Type) where
  /-- the packets the parser has not returned yet -/
  ahead : List DataPacket
  internal : π
  queues : StreamId → PacketQueue
  seekTime : TimestampFF
  eofIsReached : Bool
  processedCount : Nat

namespace DemuxerQueue

variable {π : Type} (P : ParserOps π)

/-- The streams of the file in the order of every loop over them. -/
def streams : List StreamId := List.range P.streamCount

/-- SOURCE: video/ffmpeg/decoding/demuxer_queue.cpp:7-20 -/
def create (ahead : List DataPacket) (internal : π) : DemuxerQueue π :=
  { ahead := ahead, internal := internal, queues := fun i => PacketQueue.create (P.streamType i),
    seekTime := 0, eofIsReached := false, processedCount := 0 }

@[simp] def setQueue (i : StreamId) (q : PacketQueue) (d : DemuxerQueue π) : DemuxerQueue π :=
  { d with queues := Function.update d.queues i q }

/-- A key packet at or before the seek time makes what is queued before it useless.
SOURCE: video/ffmpeg/decoding/demuxer_queue.cpp:274-290 -/
def resetsQueue (seekTime : TimestampFF) (p : DataPacket) : Bool :=
  p.isKeyFrame &&
    if p.pts ≠ avNoPtsValue then decide (p.pts ≤ seekTime) && decide (p.duration > 0)
    else if p.dts ≠ avNoPtsValue then decide (p.dts ≤ seekTime) && decide (p.duration > 0)
    else false

/-- What one packet of an enabled stream does to the stream's queue.
SOURCE: video/ffmpeg/decoding/demuxer_queue.cpp:273-298 -/
def accept (seekTime : TimestampFF) (p : DataPacket) (q : PacketQueue) : PacketQueue :=
  (if resetsQueue seekTime p then q.reset else q).push p

/-- `read_packets_from_parser` before its test of `m_eof_is_reached`: read `count` packets of
enabled streams; packets of other streams do not count.
SOURCE: video/ffmpeg/decoding/demuxer_queue.cpp:253-305 -/
def readBatch : Nat → List DataPacket → DemuxerQueue π → Bool × DemuxerQueue π
  | 0, ahead, d => (true, { d with ahead := ahead })
  | _ + 1, [], d => (false, { d with ahead := [], eofIsReached := true })
  | n + 1, p :: rest, d =>
    let queue := d.queues p.streamIndex
    if queue.enabled then
      let queue := accept d.seekTime p queue
      let d := d.setQueue p.streamIndex queue
      if queue.isFull then (false, { d with ahead := rest })
      else readBatch n rest d
    else readBatch (n + 1) rest (d.setQueue p.streamIndex queue.reset)

/-- SOURCE: video/ffmpeg/decoding/demuxer_queue.cpp:246-305 -/
def readPacketsFromParser (count : Nat) (d : DemuxerQueue π) : Bool × DemuxerQueue π :=
  if d.eofIsReached then (false, d) else readBatch count d.ahead d

/-- Some queue is full. -/
def anyFull (d : DemuxerQueue π) : Bool := (streams P).any fun i => (d.queues i).isFull

/-- `need_fill` before the loop of `fill_queue`.
SOURCE: video/ffmpeg/decoding/demuxer_queue.cpp:343-350 -/
def needFillFirst (keyPacketsMustExist : Bool) (d : DemuxerQueue π) : Bool :=
  (streams P).any fun i =>
    let queue := d.queues i
    queue.enabled && (queue.size = 0 || (keyPacketsMustExist && decide (queue.keyCount < 2)))

/-- `need_fill` after a batch.
SOURCE: video/ffmpeg/decoding/demuxer_queue.cpp:377-391 -/
def needFill (keyPacketsMustExist : Bool) (d : DemuxerQueue π) : Bool :=
  (streams P).any fun i =>
    let queue := d.queues i
    if keyPacketsMustExist then
      queue.enabled && decide (queue.keyCount < 2) && !queue.canBeEmpty
    else queue.enabled && queue.size = 0 && !queue.canBeEmpty

/-- The loop of `fill_queue`, entered while some queue needs packets and none is full.  Every
batch but the last takes a packet from the parser, so one more round than there are packets is
enough.
SOURCE: video/ffmpeg/decoding/demuxer_queue.cpp:358-394 -/
def fillLoop (keyPacketsMustExist : Bool) : Nat → DemuxerQueue π → Bool × DemuxerQueue π
  | 0, d => (true, d)
  | fuel + 1, d =>
    let (readResult, d) := d.readPacketsFromParser 16
    if !readResult && d.eofIsReached then
      ((streams P).any fun i => (d.queues i).size ≠ 0, d)
    else if readResult && needFill P keyPacketsMustExist d && !anyFull P d then
      fillLoop keyPacketsMustExist fuel d
    else (true, d)

/-- SOURCE: video/ffmpeg/decoding/demuxer_queue.cpp:334-396 -/
def fillQueue (keyPacketsMustExist : Bool) (d : DemuxerQueue π) : Bool × DemuxerQueue π :=
  if d.eofIsReached then (false, d)
  else if anyFull P d then (false, d)
  else if needFillFirst P keyPacketsMustExist d then
    fillLoop P keyPacketsMustExist (d.ahead.length + 1) d
  else (true, d)

/-- SOURCE: video/ffmpeg/decoding/demuxer_queue.cpp:311-329 -/
def checkStreamsPosition (maxAllowedPosition : TimestampFF) (d : DemuxerQueue π) : Bool :=
  (streams P).all fun i =>
    let queue := d.queues i
    if queue.enabled && !queue.canBeEmpty then
      queue.position ≠ avNoPtsValue && decide (queue.position ≤ maxAllowedPosition)
    else true

/-- SOURCE: video/ffmpeg/decoding/demuxer_queue.cpp:231-240 -/
def resetQueue (d : DemuxerQueue π) : DemuxerQueue π :=
  { d with queues := fun i => (d.queues i).reset, eofIsReached := false }

/-- `m_parser->seek`; the result says whether it returned. -/
def parserSeek (index : StreamId) (time : TimestampFF) (d : DemuxerQueue π) :
    Bool × DemuxerQueue π :=
  let (returned, ahead, internal) := P.seek index time d.ahead d.internal
  (returned, { d with ahead := ahead, internal := internal })

/-- What `seek_internal` remembers between two streams: `seek_positions`, `best_index` and
`last_index`. -/
structure SeekProgress where
  seekPositions : StreamId → TimestampFF
  bestIndex : Option StreamId
  lastIndex : StreamId

/-- No enabled stream stands at an unknown or later position than before.
SOURCE: video/ffmpeg/decoding/demuxer_queue.cpp:134-156 -/
def seekIsBetter (seekPositions : StreamId → TimestampFF) (d : DemuxerQueue π) : Bool :=
  (streams P).all fun i =>
    let queue := d.queues i
    if queue.enabled && seekPositions i ≠ avNoPtsValue then
      queue.position ≠ avNoPtsValue && decide (queue.position ≤ seekPositions i)
    else true

/-- Every enabled audio or video stream stands at or before the seek time.
SOURCE: video/ffmpeg/decoding/demuxer_queue.cpp:165-191 -/
def seekIsDone (d : DemuxerQueue π) : Bool :=
  (streams P).all fun i =>
    let queue := d.queues i
    if queue.enabled && (P.streamType i = .audio || P.streamType i = .video) then
      queue.position ≠ avNoPtsValue && decide (queue.position ≤ d.seekTime)
    else true

/-- One stream of the loop of `seek_internal`; `true` when the search ends with success.
SOURCE: video/ffmpeg/decoding/demuxer_queue.cpp:93-202 -/
def seekStep (time : TimestampFF) (idx : StreamId) (g : SeekProgress) (d : DemuxerQueue π) :
    Bool × SeekProgress × DemuxerQueue π :=
  if P.streamType idx ≠ .audio && P.streamType idx ≠ .video then (false, g, d)
  else
    let d := d.resetQueue
    let g := { g with lastIndex := idx, bestIndex := some (g.bestIndex.getD idx) }
    let (returned, d) := d.parserSeek P idx time
    if !returned then (false, g, d)
    else
      let d := (d.fillQueue P false).2
      let d := if d.checkStreamsPosition P d.seekTime then (d.fillQueue P true).2 else d
      if d.seekIsBetter P g.seekPositions then
        let g : SeekProgress :=
          { g with
            bestIndex := some idx
            seekPositions := fun i =>
              if i ∈ streams P ∧ (d.queues i).enabled then (d.queues i).position
              else g.seekPositions i }
        (d.seekIsDone P, g, d)
      else (false, g, d)

/-- The loop of `seek_internal` over the streams. -/
def seekStreams (time : TimestampFF) : List StreamId → SeekProgress → DemuxerQueue π →
    Bool × SeekProgress × DemuxerQueue π
  | [], g, d => (false, g, d)
  | idx :: rest, g, d =>
    match seekStep P time idx g d with
    | (true, g, d) => (true, g, d)
    | (false, g, d) => seekStreams time rest g d

/-- SOURCE: video/ffmpeg/decoding/demuxer_queue.cpp:76-227 -/
def seekInternal (time : TimestampFF) : Proc Fault (DemuxerQueue π) Bool := fun d =>
  let indices := if time > 0 then [P.seekStream] else streams P
  let start : SeekProgress := ⟨fun _ => avNoPtsValue, none, 0⟩
  match seekStreams P time indices start d with
  | (true, _, d) => (.ok true, d)
  | (false, g, d) =>
    match g.bestIndex with
    | none => (.error (.thrown "Seek can't be done, file is corrupted or not seekable"), d)
    | some bestIndex =>
      if time = 0 then
        if bestIndex ≠ g.lastIndex then
          let (returned, d) := d.resetQueue.parserSeek P bestIndex time
          if returned then (.ok true, (d.fillQueue P true).2)
          else (.error (.thrown "Seek error"), d)
        else (.ok true, d)
      else (.ok false, d)

/-- The loop of `seek`: from `time` downwards in growing steps.  The distance to zero bounds the
number of rounds.
SOURCE: video/ffmpeg/decoding/demuxer_queue.cpp:62-73 -/
def seekLoop : Nat → TimestampFF → TimeFF → Proc Fault (DemuxerQueue π) TimestampFF
  | 0, _, _ => Proc.throw .diverged
  | fuel + 1, time, step => do
    if time < 0 then
      return time
    let res ← seekInternal P time
    if res || time = 0 then
      return time
    seekLoop fuel (if time < step then 0 else time - step) (step * 2)

/-- SOURCE: video/ffmpeg/decoding/demuxer_queue.cpp:51-74 -/
def seek (time : TimestampFF) : Proc Fault (DemuxerQueue π) TimestampFF := do
  Proc.modify fun d => { d with seekTime := max 0 time }
  seekLoop P (time.toNat + 1) time (avSecond * 4)

/-- SOURCE: video/ffmpeg/decoding/demuxer_queue.cpp:398-420 -/
def read (stream : StreamId) : Proc Fault (DemuxerQueue π) (Option DataPacket) := fun d =>
  if stream ≥ P.streamCount then
    (.error (.thrown "Stream with provided index doesn't exist"), d)
  else
    let d := if (d.queues stream).size = 0 then (d.fillQueue P false).2 else d
    match (d.queues stream).pop with
    | (none, _) => (.ok none, d)
    | (some packet, queue) =>
      (.ok (some packet),
        { d.setQueue stream queue with processedCount := d.processedCount + 1 })

/-- SOURCE: video/ffmpeg/decoding/demuxer_queue.cpp:422-429 -/
def enableStream (stream : StreamId) (value : Bool) : Proc Fault (DemuxerQueue π) Unit := fun d =>
  if stream ≥ P.streamCount then
    (.error (.thrown "Stream with provided index doesn't exist"), d)
  else (.ok (), d.setQueue stream ((d.queues stream).setEnabled value))

/-- The number of packets that reads can still return at most. -/
def remaining (d : DemuxerQueue π) : Nat :=
  d.ahead.length + ((streams P).map fun i => (d.queues i).size).sum

end DemuxerQueue

end Seekira.Model
