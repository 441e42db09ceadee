import Seekira.Analysis.StreamUnlinking

/-!
# The links in the runs of a program

Whatever a program does with a reader and its streams, the reader stays well linked, and the
`shared_ptr`s to it are those of its linked streams and of its owners.  So every stream
of every run is unlinked as `StreamUnlinking` says.
-/

set_option autoImplicit false

namespace Seekira.Model

open Library

namespace LinkedReader

variable {π φ κ : Type} {P : ParserOps π} {K : FormatCodecs φ κ} {noDecoder : DecoderVideo κ}
  {w w' : LinkedReader π κ} {s : StreamId} {p : StreamAddress} {o : StreamObject κ} {fuel : Nat}

/-! ## Linking -/

/-- The reader after the object `o` at `p` was entered as stream `s`. -/
def linked (s : StreamId) (p : StreamAddress) (o : StreamObject κ) (w : LinkedReader π κ) :
    LinkedReader π κ :=
  setEntry s (some p) (setObject p (some o)
    { setEnabled s true w with useCount := w.useCount + 1 })

section Linked

variable {t : StreamId} {q : StreamAddress}

theorem linked_entry : (linked s p o w).demuxedStreams s = some p := by
  simp [linked, setEntry]

theorem linked_entry_of_ne (hts : t ≠ s) :
    (linked s p o w).demuxedStreams t = w.demuxedStreams t := by
  simp [linked, setEntry, setObject, setEnabled, hts]

theorem linked_object : (linked s p o w).objects p = some o := by
  simp [linked, setEntry, setObject]

theorem linked_object_of_ne (hqp : q ≠ p) : (linked s p o w).objects q = w.objects q := by
  simp [linked, setEntry, setObject, setEnabled, hqp]

/-- An object that is entered is not at a free address. -/
theorem RefersBack.ne_of_free (h : RefersBack w.objects s q o) (hfree : w.objects p = none) :
    q ≠ p := by
  intro heq
  have hobject := h.isObject
  rw [heq, hfree] at hobject
  cases hobject

end Linked

theorem setStream_ok (hnone : w.demuxedStreams s = none) :
    setStream s p w = (.ok (), setEntry s (some p) w) := by
  unfold setStream
  simp [hnone]

/-- A stream is entered with its object. -/
theorem enterStream_ok {stream : DemuxedStream κ} (hnone : w.demuxedStreams s = none) :
    enterStream s p stream (setEnabled s true w) = (.ok p, linked s p ⟨s, stream⟩ w) := by
  have hset : setStream s p (setObject p (some ⟨s, stream⟩)
      { setEnabled s true w with useCount := w.useCount + 1 }) =
      (.ok (), linked s p ⟨s, stream⟩ w) := setStream_ok hnone
  unfold enterStream copyReader
  rw [Proc.modify_bind_apply, Proc.modify_bind_apply]
  exact Proc.bind_ok hset

/-- An id out of range is refused. -/
theorem getStream_of_invalid {streamId : Int}
    (hid : streamId < 0 ∨ streamId.toNat ≥ w.streamCount) :
    getStream P K noDecoder p streamId w =
      (.error (.failed (.thrown "Invalid stream id")), w) := by
  unfold getStream
  simp [hid]

/-- A stream that is in use is refused. -/
theorem getStream_of_exists {streamId : Int} {q : StreamAddress}
    (hid : ¬(streamId < 0 ∨ streamId.toNat ≥ w.streamCount))
    (hentry : w.demuxedStreams streamId.toNat = some q) :
    getStream P K noDecoder p streamId w = (.error (.failed (.thrown
      "The stream is already exists. It is forbidden to create a stream twice.")), w) := by
  unfold getStream
  simp [hid, hentry]

section Constructs

variable {streamId : Int} (hsize : w.streamCount = P.streamCount)
  (hid : ¬(streamId < 0 ∨ streamId.toNat ≥ w.streamCount))
  (hnone : w.demuxedStreams streamId.toNat = none)

include hsize hid hnone

/-- The constructor throws: the queue stays enabled. -/
theorem getStream_of_error {e : Fault}
    (hdecoder : StreamReader.createDecoder P K streamId.toNat = .error e) :
    getStream P K noDecoder p streamId w =
      (.error (.failed e), setEnabled streamId.toNat true w) := by
  have hs : streamId.toNat < w.streamCount := Nat.lt_of_not_le fun hlarge => hid (Or.inr hlarge)
  have henable : onDemuxer (DemuxerQueue.enableStream P streamId.toNat true) w =
      (.ok (), setEnabled streamId.toNat true w) := enableStream_ok (hsize ▸ hs)
  unfold getStream
  simp only [Proc.get_bind_apply, Bool.or_eq_true, decide_eq_true_eq, hid, if_false, hnone,
    Option.isSome_none, Bool.false_eq_true]
  rw [Proc.bind_ok henable, hdecoder]
  rfl

/-- A stream whose decoder was created is entered. -/
theorem getStream_of_decoder {decoder : Option (DecoderVideo κ)}
    (hdecoder : StreamReader.createDecoder P K streamId.toNat = .ok decoder) :
    getStream P K noDecoder p streamId w =
      (.ok p, linked streamId.toNat p
        ⟨streamId.toNat, DemuxedStream.create (decoder.getD noDecoder)⟩ w) := by
  have hs : streamId.toNat < w.streamCount := Nat.lt_of_not_le fun hlarge => hid (Or.inr hlarge)
  have henable : onDemuxer (DemuxerQueue.enableStream P streamId.toNat true) w =
      (.ok (), setEnabled streamId.toNat true w) := enableStream_ok (hsize ▸ hs)
  unfold getStream
  simp only [Proc.get_bind_apply, Bool.or_eq_true, decide_eq_true_eq, hid, if_false, hnone,
    Option.isSome_none, Bool.false_eq_true]
  rw [Proc.bind_ok henable, hdecoder]
  exact enterStream_ok hnone

end Constructs

/-- `get_stream` fails before it links anything, or links one stream that had no entry. -/
theorem getStream_cases (K : FormatCodecs φ κ) (noDecoder : DecoderVideo κ)
    (p : StreamAddress) (streamId : Int) (hsize : w.streamCount = P.streamCount) :
    (getStream P K noDecoder p streamId w).2 = w ∨
      (∃ s, (getStream P K noDecoder p streamId w).2 = setEnabled s true w) ∨
      ∃ o, (getStream P K noDecoder p streamId w).2 = linked o.stream p o w ∧
        o.fields.hasReader = true ∧ o.stream < w.streamCount ∧
        w.demuxedStreams o.stream = none := by
  by_cases hid : streamId < 0 ∨ streamId.toNat ≥ w.streamCount
  · left
    rw [getStream_of_invalid hid]
  cases hentry : w.demuxedStreams streamId.toNat with
  | some q =>
    left
    rw [getStream_of_exists hid hentry]
  | none =>
    right
    cases hdecoder : StreamReader.createDecoder P K streamId.toNat with
    | error e =>
      left
      rw [getStream_of_error hsize hid hentry hdecoder]
      exact ⟨_, rfl⟩
    | ok decoder =>
      right
      rw [getStream_of_decoder hsize hid hentry hdecoder]
      refine ⟨_, rfl, rfl, ?_, hentry⟩
      exact Nat.lt_of_not_le fun hlarge => hid (Or.inr hlarge)

/-- The stream is linked beside the others. -/
theorem linkedIds_linked (hs : s < w.streamCount) :
    (linked s p o w).linkedIds = insert s w.linkedIds := by
  have hcount : (linked s p o w).streamCount = w.streamCount := rfl
  ext t
  rw [Finset.mem_insert, mem_linkedIds, mem_linkedIds, hcount]
  by_cases hts : t = s
  · simp [hts, hs, linked_entry]
  · simp [hts, linked_entry_of_ne]

theorem notMem_linkedIds (hnone : w.demuxedStreams s = none) : s ∉ w.linkedIds := by
  simp [mem_linkedIds, hnone]

namespace WellLinked

theorem enabled {value : Bool} (h : WellLinked P w) : WellLinked P (setEnabled s value w) :=
  ⟨h.size, h.inTable, h.refersBack, h.entry, h.counted, h.alive, h.unlocked⟩

/-- A stream that is entered is linked both ways. -/
theorem linked (h : WellLinked P w) (hfree : w.objects p = none) (hs : o.stream < w.streamCount)
    (hreader : o.fields.hasReader = true) (hnone : w.demuxedStreams o.stream = none)
    (halive : w.alive = true) : WellLinked P (LinkedReader.linked o.stream p o w) := by
  constructor
  · exact h.size
  · intro t q hq
    by_cases ht : t = o.stream
    · rw [ht]
      exact hs
    · rw [linked_entry_of_ne ht] at hq
      exact h.inTable t q hq
  · intro t q hq
    by_cases ht : t = o.stream
    · rw [ht, linked_entry] at hq
      obtain rfl := Option.some.inj hq
      exact ⟨o, linked_object, hreader, ht.symm⟩
    · rw [linked_entry_of_ne ht] at hq
      obtain ⟨o', ho'⟩ := h.refersBack t q hq
      refine ⟨o', ?_, ho'.hasReader, ho'.stream⟩
      rw [linked_object_of_ne (ho'.ne_of_free hfree)]
      exact ho'.isObject
  · intro q o' ho' hreader'
    by_cases hqp : q = p
    · rw [hqp, linked_object] at ho'
      obtain rfl := Option.some.inj ho'
      rw [hqp]
      exact linked_entry
    · rw [linked_object_of_ne hqp] at ho'
      have hq := h.entry q o' ho' hreader'
      have ht : o'.stream ≠ o.stream := by
        intro heq
        rw [heq, hnone] at hq
        cases hq
      rw [linked_entry_of_ne ht]
      exact hq
  · rw [linkedIds_linked hs, Finset.card_insert_of_notMem (notMem_linkedIds hnone)]
    exact Nat.succ_le_succ h.counted
  · intro _
    exact halive
  · exact h.unlocked

/-- Using the streams keeps the links. -/
theorem used {demuxer : DemuxerQueue π → DemuxerQueue π}
    {fields : StreamAddress → DemuxedStream κ → DemuxedStream κ}
    {taken : List (StreamAddress × StreamMutex)} (h : WellLinked P w) :
    WellLinked P (useStreams demuxer fields taken w) where
  size := h.size
  inTable := h.inTable
  refersBack := by
    intro t q hq
    obtain ⟨o, ho⟩ := h.refersBack t q hq
    refine ⟨{ o with fields := { fields q o.fields with hasReader := o.fields.hasReader } }, ?_,
      ho.hasReader, ho.stream⟩
    simp [useStreams, ho.isObject]
  entry := by
    intro q o ho hreader
    obtain ⟨o', ho', rfl⟩ := Option.map_eq_some_iff.mp ho
    exact h.entry q o' ho' hreader
  counted := h.counted
  alive := h.alive
  unlocked := h.unlocked

end WellLinked

/-! ## The runs -/

/-- The reader is well linked, and its `shared_ptr`s are those of its linked streams and of its
owners. -/
structure Owned (P : ParserOps π) (m : OwnedReader π κ) : Prop where
  wellLinked : WellLinked P m.reader
  count : m.reader.useCount = m.reader.linkedIds.card + m.owners

theorem owned_init (d : DemuxerQueue π) : Owned P (⟨create P d, 1⟩ : OwnedReader π κ) := by
  have hnone : (create P d : LinkedReader π κ).linkedIds = ∅ := by
    simp [linkedIds, create]
  refine ⟨⟨rfl, ?_, ?_, ?_, ?_, fun _ => rfl, rfl⟩, ?_⟩
  · intro s p hentry
    cases hentry
  · intro s p hentry
    cases hentry
  · intro p o ho
    cases ho
  · rw [hnone]
    exact Nat.zero_le _
  · rw [hnone]
    rfl

namespace Owned

variable {m m' : OwnedReader π κ}

theorem alive (h : Owned P m) (howner : 0 < m.owners) : m.reader.alive = true := by
  have hcount := h.count
  apply h.wellLinked.alive
  omega

/-- An owner may enter a stream. -/
theorem enters (h : Owned P m) (howner : 0 < m.owners) (hfree : m.reader.objects p = none)
    (streamId : Int) :
    Owned P { m with reader := (getStream P K noDecoder p streamId m.reader).2 } := by
  have hcount := h.count
  rcases getStream_cases K noDecoder p streamId h.wellLinked.size with
    hsame | ⟨s, henabled⟩ | ⟨o, hlinked, hreader, hs, hnone⟩
  · rw [hsame]
    exact h
  · rw [henabled]
    exact ⟨h.wellLinked.enabled, hcount⟩
  · rw [hlinked]
    refine ⟨h.wellLinked.linked hfree hs hreader hnone (h.alive howner), ?_⟩
    have hcard := Finset.card_insert_of_notMem (notMem_linkedIds hnone)
    have huse : (linked o.stream p o m.reader).useCount = m.reader.useCount + 1 := rfl
    show (linked o.stream p o m.reader).useCount =
      (linked o.stream p o m.reader).linkedIds.card + m.owners
    rw [huse, linkedIds_linked hs, hcard]
    omega

/-- A stream may be unlinked. -/
theorem unlinked (h : Owned P m) (hentry : m.reader.demuxedStreams s = some p) :
    Owned P { m with reader := LinkedReader.unlinked s p o m.reader } := by
  have hcount := h.count
  have hmem := h.wellLinked.mem_linkedIds_of_entry hentry
  have hpos : 0 < m.reader.linkedIds.card := Finset.card_pos.mpr ⟨s, hmem⟩
  have hcard := Finset.card_erase_of_mem hmem
  have huse : (LinkedReader.unlinked s p o m.reader).useCount = m.reader.useCount - 1 := rfl
  refine ⟨h.wellLinked.unlinked hentry, ?_⟩
  show (LinkedReader.unlinked s p o m.reader).useCount =
    (LinkedReader.unlinked s p o m.reader).linkedIds.card + m.owners
  rw [huse, linkedIds_unlinked, hcard]
  omega

theorem destroyed (h : Owned P m)
    (hnone : ∀ o, m.reader.objects p = some o → o.fields.hasReader = false) :
    Owned P { m with reader := setObject p none m.reader } :=
  ⟨h.wellLinked.destroyed hnone, h.count⟩

/-- An owner may be copied. -/
theorem copied (h : Owned P m) (howner : 0 < m.owners) :
    Owned P ⟨(copyReader m.reader).2, m.owners + 1⟩ := by
  have hlinks := h.wellLinked
  have hcount := h.count
  refine ⟨⟨hlinks.size, hlinks.inTable, hlinks.refersBack, hlinks.entry, ?_, ?_,
    hlinks.unlocked⟩, ?_⟩
  · exact Nat.le_succ_of_le hlinks.counted
  · intro _
    exact h.alive howner
  · show m.reader.useCount + 1 = m.reader.linkedIds.card + (m.owners + 1)
    omega

/-- An owner may go. -/
theorem droppedOwner (h : Owned P m) (howner : 0 < m.owners) :
    Owned P ⟨(dropReader m.reader).2, m.owners - 1⟩ := by
  have hlinks := h.wellLinked
  have hcount := h.count
  have hlast : m.reader.useCount ≤ 1 → m.reader.linkedIds = ∅ := by
    intro hfew
    apply Finset.card_eq_zero.mp
    omega
  rw [dropReader_ok hlast]
  refine ⟨⟨hlinks.size, hlinks.inTable, hlinks.refersBack, hlinks.entry, ?_, ?_,
    hlinks.unlocked⟩, ?_⟩
  · show m.reader.linkedIds.card ≤ m.reader.useCount - 1
    omega
  · intro hpos
    have hmany : 1 < m.reader.useCount := Nat.lt_of_sub_pos hpos
    simp [dropped, h.alive howner, hmany]
  · show m.reader.useCount - 1 = m.reader.linkedIds.card + (m.owners - 1)
    omega

/-- Every call keeps the reader well linked and its `shared_ptr`s counted. -/
theorem step (hfuel : 4 ≤ fuel) {l : LinkCall π κ} (h : Owned P m)
    (hstep : linkStep P K noDecoder fuel m l = some m') : Owned P m' := by
  obtain ⟨k, rfl⟩ := Nat.exists_eq_add_of_le' hfuel
  have hlinks := h.wellLinked
  cases l with
  | getStream p streamId =>
    obtain ⟨⟨howner, hfree⟩, hm⟩ := Option.ite_none_right_eq_some.mp hstep
    obtain rfl := Option.some.inj hm
    exact h.enters howner (Option.isNone_iff_eq_none.mp hfree) streamId
  | releaseStream s =>
    obtain ⟨⟨howner, hs⟩, hm⟩ := Option.ite_none_right_eq_some.mp hstep
    cases hentry : m.reader.demuxedStreams s with
    | none =>
      rw [releaseStream_of_none hs (h.alive howner) hentry] at hm
      obtain rfl := Option.some.inj hm
      exact h
    | some p =>
      obtain ⟨o, ho⟩ := hlinks.refersBack s p hentry
      rw [releaseStream_of_wellLinked hlinks hentry ho] at hm
      obtain rfl := Option.some.inj hm
      exact h.unlinked hentry
  | destroyStream p =>
    obtain ⟨hobject, hm⟩ := Option.ite_none_right_eq_some.mp hstep
    obtain ⟨o, ho⟩ := Option.isSome_iff_exists.mp hobject
    cases hreader : o.fields.hasReader with
    | false =>
      rw [destroyStream_of_unlinked ho hreader] at hm
      obtain rfl := Option.some.inj hm
      apply h.destroyed
      intro o' ho'
      obtain rfl := Option.some.inj (ho.symm.trans ho')
      exact hreader
    | true =>
      have hentry := hlinks.entry p o ho hreader
      rw [destroyStream_of_linked hlinks hentry ⟨ho, hreader, rfl⟩] at hm
      obtain rfl := Option.some.inj hm
      exact (h.unlinked hentry).destroyed unlinksOnly_unlinked.reader
  | copyReader =>
    obtain ⟨howner, hm⟩ := Option.ite_none_right_eq_some.mp hstep
    obtain rfl := Option.some.inj hm
    exact h.copied howner
  | dropReader =>
    obtain ⟨howner, hm⟩ := Option.ite_none_right_eq_some.mp hstep
    obtain rfl := Option.some.inj hm
    exact h.droppedOwner howner
  | use demuxer fields taken =>
    obtain rfl := Option.some.inj hstep
    exact ⟨hlinks.used, h.count⟩

end Owned

theorem owned_of_reachable {d : DemuxerQueue π} {m : OwnedReader π κ} (hfuel : 4 ≤ fuel)
    (hreach : (linkMachine P K noDecoder fuel d).Reachable m) : Owned P m :=
  hreach.invariant (owned_init d) fun _ _ _ h hstep => h.step hfuel hstep

/-- A program that uses a reader keeps it well linked; and in a well linked reader, both ways to
unlink a stream return, lock its mutexes once, and unlink this stream only. -/
theorem unlinking_unlinks_only (P : ParserOps π) (K : FormatCodecs φ κ)
    (noDecoder : DecoderVideo κ) (d : DemuxerQueue π) {fuel : Nat} (hfuel : 4 ≤ fuel) :
    (∀ m : OwnedReader π κ, (linkMachine P K noDecoder fuel d).Reachable m →
      WellLinked P m.reader) ∧
      ∀ w : LinkedReader π κ, WellLinked P w → UnlinksStreams P fuel w := by
  constructor
  · intro m hreach
    exact (owned_of_reachable hfuel hreach).wellLinked
  · intro w h
    exact h.unlinksStreams hfuel

/-- A file with two audio streams. -/
def pairParser : ParserOps Unit where
  streamCount := 2
  streamType := fun _ => .audio
  streamDuration := fun _ => 120
  seekStream := 0
  seek := fun _ _ ahead _ => (true, ahead, ())

/-- Every codec opens. -/
def plainCodecs : FormatCodecs Unit Unit where
  getFormatCodec := fun _ => .ok ()
  openCodec := fun _ => some ()

/-- The reader of the file with both streams linked. -/
def pairReader : OwnedReader Unit Unit :=
  let d := DemuxerQueue.create pairParser [] ()
  let first := getStream pairParser plainCodecs (DecoderVideo.create ()) 10 0 (create pairParser d)
  ⟨(getStream pairParser plainCodecs (DecoderVideo.create ()) 11 1 first.2).2, 1⟩

/-- The first stream is released, and the destructor of the second one runs. -/
theorem pair_unlinked :
    (∃ w', releaseStream pairParser 4 0 pairReader.reader = (.ok (), w') ∧
      w'.demuxedStreams 0 = none ∧ w'.demuxedStreams 1 = some 11 ∧
      (w'.demuxer.queues 0).enabled = false ∧ (w'.demuxer.queues 1).enabled = true ∧
      w'.mutexes.taken = [(10, .readPkt), (10, .readFrame)]) ∧
    ∃ w', destroyStream pairParser 4 11 pairReader.reader = (.ok (), w') ∧
      w'.demuxedStreams 1 = none ∧ w'.demuxedStreams 0 = some 10 ∧ w'.objects 11 = none ∧
      w'.mutexes.taken = [(11, .readPkt), (11, .readFrame)] := by
  have hclaim := unlinking_unlinks_only pairParser plainCodecs (DecoderVideo.create ())
    (DemuxerQueue.create pairParser [] ()) (le_refl 4)
  have hexec : (linkMachine pairParser plainCodecs (DecoderVideo.create ()) 4
      (DemuxerQueue.create pairParser [] ())).exec
        ⟨create pairParser (DemuxerQueue.create pairParser [] ()), 1⟩
        [.getStream 10 0, .getStream 11 1] = some pairReader := rfl
  have hlinked := hclaim.1 pairReader ⟨_, Machine.run_of_exec hexec⟩
  have hunlinks := hclaim.2 pairReader.reader hlinked
  obtain ⟨w₁, hrelease, honly₁, -⟩ := hunlinks.release 0 10 rfl
  obtain ⟨w₂, hdestroy, honly₂, hgone, -⟩ := hunlinks.destroy 11 _ rfl rfl
  refine ⟨⟨w₁, hrelease, honly₁.entry, ?_, honly₁.disabled, ?_, ?_⟩,
    w₂, hdestroy, honly₂.entry, ?_, hgone, ?_⟩
  · exact honly₁.otherEntries 1 (by decide)
  · rw [honly₁.otherQueues 1 (by decide)]
    rfl
  · rw [honly₁.mutexes]
    rfl
  · exact honly₂.otherEntries 0 (by decide)
  · rw [honly₂.mutexes]
    rfl

end LinkedReader

end Seekira.Model
