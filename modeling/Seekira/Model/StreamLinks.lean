import Seekira.Library.Machine
import Seekira.Library.ScopedLocks
import Seekira.Model.StreamCreation

/-!
# The links between a reader and its streams

A stream owns its reader through a `shared_ptr`, and the table of the reader points back to
the stream.  Stream objects have addresses here: a released stream lives on beside the next
one with its id, and only the second is in the table.  Whoever drops the last `shared_ptr`
destroys the reader, which asserts that its table is empty.

`unlink_from_reader` and `release_stream` call each other, so they run on fuel.
-/

set_option autoImplicit false

namespace Seekira.Model

open Library

/-- The address of a stream object. -/
abbrev StreamAddress := Nat

/-- The mutexes of a stream that its unlinking locks.
SOURCE: video/ffmpeg/decoding/stream_reader.hpp:47-61 -/
inductive StreamMutex where
  | readPkt
  | readFrame
  deriving DecidableEq, Repr

/-- How a call on linked streams ends when it does not return. -/
inductive LinkFault where
  /-- a method of the video stack failed -/
  | failed (fault : Fault)
  /-- there is no object at an address, or no entry at an index of the table -/
  | invalidAccess
  /-- a mutex is locked by the thread that holds it -/
  | relocked
  deriving DecidableEq, Repr

/-- SOURCE: video/ffmpeg/decoding/stream_reader.hpp:42-62 -/
structure StreamObject (κ : Type) where
  /-- `m_stream` -/
  stream : StreamId
  fields : DemuxedStream κ

/-- The reader, the stream objects that were created for it, and the mutexes that the calling
thread holds.
SOURCE: video/ffmpeg/decoding/stream_reader.hpp:94-98 -/
structure LinkedReader (π κ : Type) where
  demuxer : DemuxerQueue π
  streamCount : Nat
  /-- `m_demuxed_stream` of every entry of the table -/
  demuxedStreams : StreamId → Option StreamAddress
  /-- the stream objects that exist -/
  objects : StreamAddress → Option (StreamObject κ)
  /-- the number of `shared_ptr`s to the reader -/
  useCount : Nat
  alive : Bool
  mutexes : Mutexes (StreamAddress × StreamMutex)

namespace LinkedReader

variable {π φ κ : Type}

def setEntry (s : StreamId) (p : Option StreamAddress) (w : LinkedReader π κ) : LinkedReader π κ :=
  { w with demuxedStreams := Function.update w.demuxedStreams s p }

def setObject (p : StreamAddress) (o : Option (StreamObject κ)) (w : LinkedReader π κ) :
    LinkedReader π κ :=
  { w with objects := Function.update w.objects p o }

/-- The object at address `p`. -/
def object (p : StreamAddress) : Proc LinkFault (LinkedReader π κ) (StreamObject κ) := do
  let w ← Proc.get
  match w.objects p with
  | none => Proc.throw .invalidAccess
  | some o => return o

/-- Update the fields of the object at address `p`. -/
def modifyObject (p : StreamAddress) (f : DemuxedStream κ → DemuxedStream κ) :
    Proc LinkFault (LinkedReader π κ) Unit := do
  let o ← object p
  Proc.modify (setObject p (some { o with fields := f o.fields }))

/-- Call a method of the demuxer. -/
def onDemuxer {α : Type} (p : Proc Fault (DemuxerQueue π) α) :
    Proc LinkFault (LinkedReader π κ) α :=
  Proc.mapError .failed (Proc.zoom (fun w => w.demuxer) (fun d w => { w with demuxer := d }) p)

/-- The mutexes of the stream at address `p`. -/
def streamMutexes (p : StreamAddress) : List (StreamAddress × StreamMutex) :=
  [(p, .readPkt), (p, .readFrame)]

/-- Run `body` with the mutexes of the stream at address `p`. -/
def lockStream (p : StreamAddress) (body : Proc LinkFault (LinkedReader π κ) Unit) :
    Proc LinkFault (LinkedReader π κ) Unit :=
  Mutexes.scopedLock (fun w => w.mutexes) (fun x w => { w with mutexes := x }) .relocked
    (streamMutexes p) body

/-! ## The ownership of the reader -/

/-- Whether some entry of the table is linked. -/
def anyLinked (w : LinkedReader π κ) : Bool :=
  (List.range w.streamCount).any fun s => (w.demuxedStreams s).isSome

/-- `~StreamReader`, with `set_stream(nullptr)` of every entry.
SOURCE: video/ffmpeg/decoding/stream_reader.cpp:12-29 -/
def destroyReader : Proc LinkFault (LinkedReader π κ) Unit := do
  let w ← Proc.get
  if w.anyLinked then
    Proc.throw (.failed (.thrown "Invalid set_stream logic"))
  else
    Proc.modify fun w => { w with alive := false }

/-- A `shared_ptr` to the reader is copied. -/
def copyReader : Proc LinkFault (LinkedReader π κ) Unit :=
  Proc.modify fun w => { w with useCount := w.useCount + 1 }

/-- A `shared_ptr` to the reader is reset or destroyed; the last one destroys the reader. -/
def dropReader : Proc LinkFault (LinkedReader π κ) Unit := do
  Proc.modify fun w => { w with useCount := w.useCount - 1 }
  let w ← Proc.get
  if w.useCount = 0 then
    destroyReader
  else
    return ()

/-! ## Linking -/

/-- `StreamInfo::set_stream` of a stream that is not null.
SOURCE: video/ffmpeg/decoding/stream_reader.cpp:16-29 -/
def setStream (s : StreamId) (p : StreamAddress) : Proc LinkFault (LinkedReader π κ) Unit := do
  let w ← Proc.get
  if (w.demuxedStreams s).isSome then
    Proc.throw (.failed (.thrown "Previous stream was not released"))
  else
    Proc.modify (setEntry s (some p))

/-- A stream constructed at the address `p`, and its entry in the table.
SOURCE: video/ffmpeg/decoding/stream_reader.cpp:144-149 -/
def enterStream (s : StreamId) (p : StreamAddress) (stream : DemuxedStream κ) :
    Proc LinkFault (LinkedReader π κ) StreamAddress := do
  copyReader
  Proc.modify (setObject p (some ⟨s, stream⟩))
  setStream s p
  return p

section Linking

variable (P : ParserOps π) (K : FormatCodecs φ κ) (noDecoder : DecoderVideo κ)

/-- `get_stream`, whose stream gets the address `p`; `noDecoder` stands for the decoder of a
stream that has none.
SOURCE: video/ffmpeg/decoding/stream_reader.cpp:126-149 -/
def getStream (p : StreamAddress) (streamId : Int) :
    Proc LinkFault (LinkedReader π κ) StreamAddress := do
  let w ← Proc.get
  let s := streamId.toNat
  if streamId < 0 || s ≥ w.streamCount then
    Proc.throw (.failed (.thrown "Invalid stream id"))
  else if (w.demuxedStreams s).isSome then
    Proc.throw (.failed
      (.thrown "The stream is already exists. It is forbidden to create a stream twice."))
  else
    onDemuxer (DemuxerQueue.enableStream P s true)
    match StreamReader.createDecoder P K s with
    | .error e => Proc.throw (.failed e)
    | .ok decoder => enterStream s p (DemuxedStream.create (decoder.getD noDecoder))

end Linking

/-! ## Unlinking -/

/-- What `unlink_from_reader` does under its lock, where `release` is its call of
`release_stream`; the local `reader_tmp` lives as long as its scope.
SOURCE: video/ffmpeg/decoding/stream.cpp:35-39 -/
def leaveReader (p : StreamAddress) (release : Proc LinkFault (LinkedReader π κ) Unit) :
    Proc LinkFault (LinkedReader π κ) Unit := do
  copyReader
  Proc.ensure (do
    modifyObject p fun fields => { fields with hasReader := false }
    dropReader
    release
    modifyObject p fun fields => { fields with position := 0 }) dropReader

section Unlinking

variable (P : ParserOps π)

mutual

/-- `DemuxedStream::unlink_from_reader`.
SOURCE: video/ffmpeg/decoding/stream.cpp:29-40 -/
def unlinkFromReader : Nat → StreamAddress → Proc LinkFault (LinkedReader π κ) Unit
  | 0, _ => Proc.throw (.failed .diverged)
  | fuel + 1, p => do
    let o ← object p
    if !o.fields.hasReader then
      return ()
    else
      lockStream p (leaveReader p (releaseStream fuel o.stream))

/-- `StreamReader::release_stream`.
SOURCE: video/ffmpeg/decoding/stream_reader.cpp:151-159 -/
def releaseStream : Nat → StreamId → Proc LinkFault (LinkedReader π κ) Unit
  | 0, _ => Proc.throw (.failed .diverged)
  | fuel + 1, s => do
    let w ← Proc.get
    if s ≥ w.streamCount || !w.alive then
      Proc.throw .invalidAccess
    else if (w.demuxedStreams s).isNone then
      return ()
    else
      onDemuxer (DemuxerQueue.enableStream P s false)
      infoUnlinkFromReader fuel s

/-- `StreamInfo::unlink_from_reader`.
SOURCE: video/ffmpeg/decoding/stream_reader.cpp:33-40 -/
def infoUnlinkFromReader : Nat → StreamId → Proc LinkFault (LinkedReader π κ) Unit
  | 0, _ => Proc.throw (.failed .diverged)
  | fuel + 1, s => do
    let w ← Proc.get
    Proc.modify (setEntry s none)
    match w.demuxedStreams s with
    | none => Proc.throw (.failed .nullDeref)
    | some streamTmp => unlinkFromReader fuel streamTmp

end

/-- `~DemuxedStream`, after which there is no object at the address any more.
SOURCE: video/ffmpeg/decoding/stream.cpp:27 -/
def destroyStream (fuel : Nat) (p : StreamAddress) : Proc LinkFault (LinkedReader π κ) Unit := do
  unlinkFromReader P fuel p
  Proc.modify (setObject p none)

end Unlinking

/-! ## The calls on a reader -/

/-- SOURCE: video/ffmpeg/decoding/stream_reader.cpp:118-122 -/
def create (P : ParserOps π) (d : DemuxerQueue π) : LinkedReader π κ :=
  { demuxer :=
      { d with queues := fun i =>
          if i < P.streamCount then (d.queues i).setEnabled false else d.queues i }
    streamCount := P.streamCount
    demuxedStreams := fun _ => none
    objects := fun _ => none
    useCount := 1
    alive := true
    mutexes := ⟨[], []⟩ }

/-- What a program does with a reader and its streams. -/
inductive LinkCall (π κ : Type) where
  | getStream (p : StreamAddress) (streamId : Int)
  | releaseStream (s : StreamId)
  | destroyStream (p : StreamAddress)
  | copyReader
  | dropReader
  /-- another method changes the demuxer and the fields of streams other than `m_reader`, and
  gives back the mutexes it locks -/
  | use (demuxer : DemuxerQueue π → DemuxerQueue π)
      (fields : StreamAddress → DemuxedStream κ → DemuxedStream κ)
      (locked : List (StreamAddress × StreamMutex))

/-- A reader and the number of its `shared_ptr`s outside its streams. -/
structure OwnedReader (π κ : Type) where
  reader : LinkedReader π κ
  owners : Nat

/-- Another method than those that link and unlink. -/
def useStreams (demuxer : DemuxerQueue π → DemuxerQueue π)
    (fields : StreamAddress → DemuxedStream κ → DemuxedStream κ)
    (locked : List (StreamAddress × StreamMutex)) (w : LinkedReader π κ) : LinkedReader π κ :=
  { w with
    demuxer := demuxer w.demuxer
    objects := fun p => (w.objects p).map fun o =>
      { o with fields := { fields p o.fields with hasReader := o.fields.hasReader } }
    mutexes := { w.mutexes with taken := w.mutexes.taken ++ locked } }

section Calls

variable (P : ParserOps π) (K : FormatCodecs φ κ) (noDecoder : DecoderVideo κ) (fuel : Nat)

/-- The reader is called by its owners with ids of its streams; a stream gets an address where no
object is. -/
def linkStep (m : OwnedReader π κ) : LinkCall π κ → Option (OwnedReader π κ)
  | .getStream p streamId =>
    if 0 < m.owners ∧ (m.reader.objects p).isNone then
      some { m with reader := (getStream P K noDecoder p streamId m.reader).2 }
    else none
  | .releaseStream s =>
    if 0 < m.owners ∧ s < m.reader.streamCount then
      some { m with reader := (releaseStream P fuel s m.reader).2 }
    else none
  | .destroyStream p =>
    if (m.reader.objects p).isSome then
      some { m with reader := (destroyStream P fuel p m.reader).2 }
    else none
  | .copyReader =>
    if 0 < m.owners then some ⟨(copyReader m.reader).2, m.owners + 1⟩ else none
  | .dropReader =>
    if 0 < m.owners then some ⟨(dropReader m.reader).2, m.owners - 1⟩ else none
  | .use demuxer fields locked =>
    some { m with reader := useStreams demuxer fields locked m.reader }

/-- The calls on a reader from its creation on. -/
def linkMachine (d : DemuxerQueue π) : Machine (OwnedReader π κ) (LinkCall π κ) where
  init := ⟨create P d, 1⟩
  step := linkStep P K noDecoder fuel

end Calls

end LinkedReader

end Seekira.Model
