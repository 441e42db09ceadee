import Mathlib.Data.Finset.Card
import Mathlib.Data.Finset.Filter
import Mathlib.Data.Finset.Range
import Seekira.Model.StreamLinks

/-!
# Unlinking a stream

A reader is well linked when its table and its streams agree on who is linked.  Unlinking
clears one link before it follows the other, so the call that comes back finds nothing to
do: from the destructor it is the stream that has no reader any more, from
`release_stream` it is the table that has no stream.  Both ways end in the same state.
-/

set_option autoImplicit false

namespace Seekira.Model

open Library

namespace StreamObject

variable {κ : Type}

/-- The stream gave up its reader. -/
def withoutReader (o : StreamObject κ) : StreamObject κ :=
  { o with fields := { o.fields with hasReader := false } }

/-- The stream is back at its start. -/
def rewound (o : StreamObject κ) : StreamObject κ :=
  { o with fields := { o.fields with position := 0 } }

end StreamObject

namespace LinkedReader

variable {π φ κ : Type} {P : ParserOps π} {w w' : LinkedReader π κ} {s : StreamId}
  {p : StreamAddress} {o : StreamObject κ} {fuel : Nat}

/-! ## Well linked readers -/

/-- The ids of the linked streams. -/
def linkedIds (w : LinkedReader π κ) : Finset StreamId :=
  (Finset.range w.streamCount).filter fun s => (w.demuxedStreams s).isSome = true

/-- The object at `p` is stream `s` and refers to the reader. -/
structure RefersBack (objects : StreamAddress → Option (StreamObject κ)) (s : StreamId)
    (p : StreamAddress) (o : StreamObject κ) : Prop where
  isObject : objects p = some o
  hasReader : o.fields.hasReader = true
  stream : o.stream = s

/-- The table and the streams agree on the links, every linked stream counts as an owner of the
reader, and no mutex is held. -/
structure WellLinked (P : ParserOps π) (w : LinkedReader π κ) : Prop where
  size : w.streamCount = P.streamCount
  inTable : ∀ s p, w.demuxedStreams s = some p → s < w.streamCount
  refersBack : ∀ s p, w.demuxedStreams s = some p → ∃ o, RefersBack w.objects s p o
  entry : ∀ p o, w.objects p = some o → o.fields.hasReader = true →
    w.demuxedStreams o.stream = some p
  counted : w.linkedIds.card ≤ w.useCount
  alive : 0 < w.useCount → w.alive = true
  unlocked : w.mutexes.held = []

theorem mem_linkedIds :
    s ∈ w.linkedIds ↔ s < w.streamCount ∧ (w.demuxedStreams s).isSome = true := by
  simp [linkedIds]

theorem anyLinked_eq_false : w.anyLinked = false ↔ w.linkedIds = ∅ := by
  simp [anyLinked, linkedIds, Finset.filter_eq_empty_iff]

/-! ## One operation each -/

theorem object_ok (ho : w.objects p = some o) : object p w = (.ok o, w) := by
  unfold object
  simp [ho]

theorem modifyObject_ok {f : DemuxedStream κ → DemuxedStream κ} (ho : w.objects p = some o) :
    modifyObject p f w = (.ok (), setObject p (some { o with fields := f o.fields }) w) := by
  unfold modifyObject
  rw [Proc.bind_ok (object_ok ho)]
  rfl

/-- The queue of stream `s` is enabled or disabled. -/
def setEnabled (s : StreamId) (value : Bool) (w : LinkedReader π κ) : LinkedReader π κ :=
  { w with demuxer := w.demuxer.setQueue s ((w.demuxer.queues s).setEnabled value) }

theorem enableStream_ok {value : Bool} (hs : s < P.streamCount) :
    onDemuxer (DemuxerQueue.enableStream P s value) w = (.ok (), setEnabled s value w) := by
  unfold onDemuxer DemuxerQueue.enableStream setEnabled
  simp [Nat.not_le.mpr hs, Except.mapError, Proc.zoom]

/-- One `shared_ptr` to the reader less. -/
def dropped (w : LinkedReader π κ) : LinkedReader π κ :=
  { w with useCount := w.useCount - 1, alive := w.alive && decide (1 < w.useCount) }

/-- A reference can be dropped, the last one when no stream is linked. -/
theorem dropReader_ok (hlast : w.useCount ≤ 1 → w.linkedIds = ∅) :
    dropReader w = (.ok (), dropped w) := by
  unfold dropReader
  by_cases hcount : w.useCount ≤ 1
  · have hnone : anyLinked { w with useCount := w.useCount - 1 } = false :=
      anyLinked_eq_false.mpr (hlast hcount)
    have hzero : w.useCount - 1 = 0 := by omega
    simp only [Proc.modify_bind_apply, Proc.get_bind_apply, if_pos hzero]
    unfold destroyReader dropped
    simp [hnone, Nat.not_lt.mpr hcount]
  · have hpos : w.useCount - 1 ≠ 0 := by omega
    simp only [Proc.modify_bind_apply, Proc.get_bind_apply, if_neg hpos]
    simp [dropped, Nat.not_le.mp hcount]

/-! ## Calls that find nothing to do -/

theorem unlinkFromReader_of_unlinked (ho : w.objects p = some o)
    (hnone : o.fields.hasReader = false) : unlinkFromReader P (fuel + 1) p w = (.ok (), w) := by
  unfold unlinkFromReader
  rw [Proc.bind_ok (object_ok ho)]
  simp [hnone]

theorem releaseStream_of_none (hs : s < w.streamCount) (halive : w.alive = true)
    (hnone : w.demuxedStreams s = none) : releaseStream P (fuel + 1) s w = (.ok (), w) := by
  unfold releaseStream
  simp [Nat.not_le.mpr hs, halive, hnone]

/-! ## The scope of `unlink_from_reader` -/

/-- The mutexes of the stream at `p` are held. -/
def locked (p : StreamAddress) (w : LinkedReader π κ) : LinkedReader π κ :=
  { w with mutexes := w.mutexes.lock (streamMutexes p) }

/-- The mutexes of the stream at `p` are given back. -/
def unlocked (p : StreamAddress) (w : LinkedReader π κ) : LinkedReader π κ :=
  { w with mutexes := w.mutexes.unlock (streamMutexes p) }

theorem lockStream_ok {body : Proc LinkFault (LinkedReader π κ) Unit}
    (hlock : Mutexes.Lockable (streamMutexes p) w.mutexes)
    (hbody : body (locked p w) = (.ok (), w')) : lockStream p body w = (.ok (), unlocked p w') :=
  Mutexes.scopedLock_ok hlock hbody

/-- Resetting `m_reader` beside its copy destroys nothing. -/
theorem resetReader_ok (hcount : 0 < w.useCount) (halive : w.alive = true) :
    dropReader { w with useCount := w.useCount + 1 } = (.ok (), w) := by
  have hmany : ¬w.useCount + 1 ≤ 1 := by omega
  have hlater : 1 < w.useCount + 1 := by omega
  rw [dropReader_ok fun hfew => absurd hfew hmany]
  simp [dropped, ← halive, hlater]

/-- A stream leaves its reader. -/
theorem leaveReader_ok {release : Proc LinkFault (LinkedReader π κ) Unit} {o' : StreamObject κ}
    (ho : w.objects p = some o) (hcount : 0 < w.useCount) (halive : w.alive = true)
    (hrelease : release (setObject p (some o.withoutReader) w) = (.ok (), w'))
    (ho' : w'.objects p = some o') (hlast : w'.useCount ≤ 1 → w'.linkedIds = ∅) :
    leaveReader p release w = (.ok (), dropped (setObject p (some o'.rewound) w')) := by
  have hreset : modifyObject p (fun fields => { fields with hasReader := false })
      { w with useCount := w.useCount + 1 } =
      (.ok (), { setObject p (some o.withoutReader) w with useCount := w.useCount + 1 }) :=
    modifyObject_ok ho
  have hdrop : dropReader { setObject p (some o.withoutReader) w with
      useCount := w.useCount + 1 } = (.ok (), setObject p (some o.withoutReader) w) :=
    resetReader_ok hcount halive
  unfold leaveReader copyReader
  rw [Proc.modify_bind_apply]
  apply Proc.ensure_ok
  · rw [Proc.bind_ok hreset, Proc.bind_ok hdrop, Proc.bind_ok hrelease]
    exact modifyObject_ok ho'
  · exact dropReader_ok hlast

/-- The reader while the stream `o` at `p` calls `release_stream`. -/
def leaving (p : StreamAddress) (o : StreamObject κ) (w : LinkedReader π κ) : LinkedReader π κ :=
  setObject p (some o.withoutReader) (locked p w)

/-- What a stream with a reader does is decided by its call of `release_stream`. -/
theorem unlinkFromReader_of_reader {o' : StreamObject κ} (ho : w.objects p = some o)
    (hreader : o.fields.hasReader = true) (hlock : Mutexes.Lockable (streamMutexes p) w.mutexes)
    (hcount : 0 < w.useCount) (halive : w.alive = true)
    (hrelease : releaseStream P fuel o.stream (leaving p o w) = (.ok (), w'))
    (ho' : w'.objects p = some o') (hlast : w'.useCount ≤ 1 → w'.linkedIds = ∅) :
    unlinkFromReader P (fuel + 1) p w =
      (.ok (), unlocked p (dropped (setObject p (some o'.rewound) w'))) := by
  unfold unlinkFromReader
  rw [Proc.bind_ok (object_ok ho)]
  simp only [hreader, Bool.not_true, Bool.false_eq_true, if_false]
  apply lockStream_ok hlock
  exact leaveReader_ok ho hcount halive hrelease ho' hlast

/-! ## Both ways to unlink a stream -/

/-- Stream `s` is disabled in the demuxer and its entry of the table is cleared. -/
def unlisted (s : StreamId) (w : LinkedReader π κ) : LinkedReader π κ :=
  setEntry s none (setEnabled s false w)

/-- The reader after stream `s`, which is the object `o` at `p`, was unlinked. -/
def unlinked (s : StreamId) (p : StreamAddress) (o : StreamObject κ) (w : LinkedReader π κ) :
    LinkedReader π κ :=
  dropped
    { unlisted s w with
      objects := Function.update w.objects p (some o.withoutReader.rewound)
      mutexes := { w.mutexes with taken := w.mutexes.taken ++ streamMutexes p } }

/-- The release of an entry unlinks its stream. -/
theorem releaseStream_of_linked (hsize : w.streamCount = P.streamCount) (hs : s < w.streamCount)
    (halive : w.alive = true) (hentry : w.demuxedStreams s = some p) :
    releaseStream P (fuel + 2) s w = unlinkFromReader P fuel p (unlisted s w) := by
  have henable : onDemuxer (DemuxerQueue.enableStream P s false) w =
      (.ok (), setEnabled s false w) := enableStream_ok (hsize ▸ hs)
  unfold releaseStream
  simp only [Proc.get_bind_apply, ge_iff_le, Nat.not_le.mpr hs, halive, hentry, Option.isNone_some,
    Bool.not_true, Bool.or_false, decide_false, Bool.false_eq_true, if_false]
  rw [Proc.bind_ok henable]
  unfold infoUnlinkFromReader
  simp only [Proc.get_bind_apply, Proc.modify_bind_apply]
  have hsame : (setEnabled s false w).demuxedStreams s = some p := hentry
  rw [hsame]
  rfl

theorem linkedIds_setEntry_none : (setEntry s none w).linkedIds = w.linkedIds.erase s := by
  ext t
  by_cases hts : t = s
  · simp [mem_linkedIds, setEntry, hts]
  · simp [mem_linkedIds, setEntry, hts]

namespace WellLinked

variable (h : WellLinked P w) (hentry : w.demuxedStreams s = some p)

include h hentry

theorem mem_linkedIds_of_entry : s ∈ w.linkedIds :=
  mem_linkedIds.mpr ⟨h.inTable s p hentry, by simp [hentry]⟩

theorem useCount_pos : 0 < w.useCount := by
  have hcard : 0 < w.linkedIds.card := Finset.card_pos.mpr ⟨s, h.mem_linkedIds_of_entry hentry⟩
  have hcounted := h.counted
  omega

/-- The last owner of the reader is its last stream. -/
theorem none_of_last (hlast : w.useCount ≤ 1) : w.linkedIds.erase s = ∅ := by
  have hcard := Finset.card_erase_of_mem (h.mem_linkedIds_of_entry hentry)
  have hcounted := h.counted
  apply Finset.card_eq_zero.mp
  omega

end WellLinked

theorem WellLinked.lockable (h : WellLinked P w) :
    Mutexes.Lockable (streamMutexes p) w.mutexes := by
  refine ⟨by simp [streamMutexes], fun m _ => ?_⟩
  rw [h.unlocked]
  exact List.not_mem_nil

/-- The order of the steps is the only difference between the two ways. -/
theorem unlinked_of_steps (h : WellLinked P w) :
    unlocked p (dropped (setObject p (some o.withoutReader.rewound) (unlisted s (leaving p o w)))) =
      unlinked s p o w := by
  have hmutexes : (w.mutexes.lock (streamMutexes p)).unlock (streamMutexes p) =
      { w.mutexes with taken := w.mutexes.taken ++ streamMutexes p } :=
    Mutexes.unlock_lock h.lockable
  unfold unlinked unlocked dropped unlisted leaving locked setObject setEntry setEnabled
  simp only [Function.update_idem, hmutexes]

/-- The destructor's way: the stream gives up its reader first, and the call that comes back finds
a stream without one. -/
theorem unlinkFromReader_of_linked (h : WellLinked P w) (hentry : w.demuxedStreams s = some p)
    (ho : RefersBack w.objects s p o) :
    unlinkFromReader P (fuel + 4) p w = (.ok (), unlinked s p o w) := by
  obtain ⟨hobject, hreader, rfl⟩ := ho
  have hcount := h.useCount_pos hentry
  have halive := h.alive hcount
  have hback : (unlisted o.stream (leaving p o w)).objects p = some o.withoutReader := by
    simp [unlisted, leaving, setObject, setEntry, setEnabled]
  have hcall : releaseStream P (fuel + 3) o.stream (leaving p o w) =
      unlinkFromReader P (fuel + 1) p (unlisted o.stream (leaving p o w)) :=
    releaseStream_of_linked h.size (h.inTable _ _ hentry) halive hentry
  have hreturn : unlinkFromReader P (fuel + 1) p (unlisted o.stream (leaving p o w)) =
      (.ok (), unlisted o.stream (leaving p o w)) := unlinkFromReader_of_unlinked hback rfl
  have hlast : (unlisted o.stream (leaving p o w)).useCount ≤ 1 →
      (unlisted o.stream (leaving p o w)).linkedIds = ∅ := fun hfew =>
    linkedIds_setEntry_none.trans (h.none_of_last hentry hfew)
  rw [unlinkFromReader_of_reader hobject hreader h.lockable hcount halive (hcall.trans hreturn)
    hback hlast]
  rw [unlinked_of_steps h]

/-- The way of `release_stream`: the table gives up the stream first, and the call that comes back
finds no stream. -/
theorem releaseStream_of_wellLinked (h : WellLinked P w) (hentry : w.demuxedStreams s = some p)
    (ho : RefersBack w.objects s p o) :
    releaseStream P (fuel + 4) s w = (.ok (), unlinked s p o w) := by
  obtain ⟨hobject, hreader, rfl⟩ := ho
  have hcount := h.useCount_pos hentry
  have halive := h.alive hcount
  have hs := h.inTable _ _ hentry
  have hnone : (leaving p o (unlisted o.stream w)).demuxedStreams o.stream = none := by
    simp [unlisted, leaving, locked, setObject, setEntry]
  have hback : (leaving p o (unlisted o.stream w)).objects p = some o.withoutReader := by
    simp [leaving, setObject]
  have hreturn : releaseStream P (fuel + 1) o.stream (leaving p o (unlisted o.stream w)) =
      (.ok (), leaving p o (unlisted o.stream w)) := releaseStream_of_none hs halive hnone
  have hlast : (leaving p o (unlisted o.stream w)).useCount ≤ 1 →
      (leaving p o (unlisted o.stream w)).linkedIds = ∅ := fun hfew =>
    linkedIds_setEntry_none.trans (h.none_of_last hentry hfew)
  have hunlink := unlinkFromReader_of_reader (w := unlisted o.stream w) hobject hreader
    h.lockable hcount halive hreturn hback hlast
  rw [releaseStream_of_linked h.size hs halive hentry, ← unlinked_of_steps h]
  exact hunlink

/-! ## What unlinking leaves alone -/

/-- Stream `s`, which is the object at `p`, is unlinked on both sides and disabled in the demuxer,
each of its mutexes was taken once, and every other stream keeps its link, its object and its
queue. -/
structure UnlinksOnly (s : StreamId) (p : StreamAddress) (w w' : LinkedReader π κ) : Prop where
  entry : w'.demuxedStreams s = none
  reader : ∀ o, w'.objects p = some o → o.fields.hasReader = false
  queue : w'.demuxer.queues s = (w.demuxer.queues s).setEnabled false
  disabled : (w'.demuxer.queues s).enabled = false
  mutexes : w'.mutexes = { w.mutexes with taken := w.mutexes.taken ++ streamMutexes p }
  otherEntries : ∀ t, t ≠ s → w'.demuxedStreams t = w.demuxedStreams t
  otherObjects : ∀ q, q ≠ p → w'.objects q = w.objects q
  otherQueues : ∀ t, t ≠ s → w'.demuxer.queues t = w.demuxer.queues t

/-- Unlinking a stream leaves the others. -/
theorem unlinksOnly_unlinked : UnlinksOnly s p w (unlinked s p o w) where
  entry := by simp [unlinked, dropped, unlisted, setEntry]
  reader := by
    intro o' ho'
    obtain rfl : o.withoutReader.rewound = o' := by simpa [unlinked, dropped] using ho'
    rfl
  queue := by simp [unlinked, dropped, unlisted, setEntry, setEnabled]
  disabled := by
    simp [unlinked, dropped, unlisted, setEntry, setEnabled, PacketQueue.setEnabled,
      PacketQueue.reset]
  mutexes := rfl
  otherEntries := by
    intro t hts
    simp [unlinked, dropped, unlisted, setEntry, setEnabled, hts]
  otherObjects := by
    intro q hqp
    simp [unlinked, dropped, hqp]
  otherQueues := by
    intro t hts
    simp [unlinked, dropped, unlisted, setEntry, setEnabled, hts]

/-- Destroying the object afterwards leaves the others. -/
theorem UnlinksOnly.destroyed (h : UnlinksOnly s p w w') :
    UnlinksOnly s p w (setObject p none w') where
  entry := h.entry
  reader := by
    intro o ho
    simp [setObject] at ho
  queue := h.queue
  disabled := h.disabled
  mutexes := h.mutexes
  otherEntries := h.otherEntries
  otherObjects := by
    intro q hqp
    rw [← h.otherObjects q hqp]
    simp [setObject, hqp]
  otherQueues := h.otherQueues

theorem linkedIds_unlinked : (unlinked s p o w).linkedIds = w.linkedIds.erase s :=
  linkedIds_setEntry_none

namespace WellLinked

/-- An object is the object of one stream at most. -/
theorem stream_eq (h : WellLinked P w) {t : StreamId} (hs : w.demuxedStreams s = some p)
    (ht : w.demuxedStreams t = some p) : s = t := by
  obtain ⟨o, ho⟩ := h.refersBack s p hs
  obtain ⟨o', ho'⟩ := h.refersBack t p ht
  obtain rfl : o = o' := Option.some.inj (ho.isObject.symm.trans ho'.isObject)
  exact ho.stream.symm.trans ho'.stream

/-- The other streams stay well linked. -/
theorem unlinked (h : WellLinked P w) (hentry : w.demuxedStreams s = some p) :
    WellLinked P (LinkedReader.unlinked s p o w) := by
  have honly : UnlinksOnly s p w (LinkedReader.unlinked s p o w) := unlinksOnly_unlinked
  have hkept : ∀ t q, (LinkedReader.unlinked s p o w).demuxedStreams t = some q →
      t ≠ s ∧ w.demuxedStreams t = some q := by
    intro t q hq
    by_cases hts : t = s
    · rw [hts, honly.entry] at hq
      cases hq
    · rw [honly.otherEntries t hts] at hq
      exact ⟨hts, hq⟩
  constructor
  · exact h.size
  · intro t q hq
    exact h.inTable t q (hkept t q hq).2
  · intro t q hq
    obtain ⟨hts, hq⟩ := hkept t q hq
    have hqp : q ≠ p := by
      intro heq
      exact hts (h.stream_eq (heq ▸ hq) hentry)
    obtain ⟨o', ho'⟩ := h.refersBack t q hq
    exact ⟨o', (honly.otherObjects q hqp).trans ho'.isObject, ho'.hasReader, ho'.stream⟩
  · intro q o' ho' hreader
    have hqp : q ≠ p := by
      intro heq
      rw [honly.reader o' (heq ▸ ho')] at hreader
      cases hreader
    rw [honly.otherObjects q hqp] at ho'
    have hq := h.entry q o' ho' hreader
    have hts : o'.stream ≠ s := by
      intro heq
      rw [heq, hentry] at hq
      exact hqp (Option.some.inj hq).symm
    rw [honly.otherEntries _ hts]
    exact hq
  · have hcard := Finset.card_erase_of_mem (h.mem_linkedIds_of_entry hentry)
    have hcounted := h.counted
    rw [linkedIds_unlinked, hcard]
    exact Nat.sub_le_sub_right hcounted 1
  · intro hcount
    have hmany : 1 < w.useCount := Nat.lt_of_sub_pos hcount
    have halive := h.alive (by omega)
    simp [LinkedReader.unlinked, dropped, unlisted, setEntry, setEnabled, halive, hmany]
  · exact h.unlocked

/-- An object without a reader can go. -/
theorem destroyed (h : WellLinked P w)
    (hnone : ∀ o, w.objects p = some o → o.fields.hasReader = false) :
    WellLinked P (setObject p none w) where
  size := h.size
  inTable := h.inTable
  refersBack := by
    intro t q hq
    obtain ⟨o, ho⟩ := h.refersBack t q hq
    have hqp : q ≠ p := by
      intro heq
      have hreader := ho.hasReader
      rw [hnone o (heq ▸ ho.isObject)] at hreader
      cases hreader
    refine ⟨o, ?_, ho.hasReader, ho.stream⟩
    simpa [setObject, hqp] using ho.isObject
  entry := by
    intro q o ho hreader
    by_cases hqp : q = p
    · simp [setObject, hqp] at ho
    · have hobject : w.objects q = some o := by simpa [setObject, hqp] using ho
      exact h.entry q o hobject hreader
  counted := h.counted
  alive := h.alive
  unlocked := h.unlocked

end WellLinked

/-! ## The destructor -/

/-- The destructor of a linked stream unlinks it. -/
theorem destroyStream_of_linked (h : WellLinked P w) (hentry : w.demuxedStreams s = some p)
    (ho : RefersBack w.objects s p o) :
    destroyStream P (fuel + 4) p w = (.ok (), setObject p none (unlinked s p o w)) := by
  unfold destroyStream
  rw [Proc.bind_ok (unlinkFromReader_of_linked h hentry ho)]
  rfl

/-- The destructor of an unlinked stream does nothing else. -/
theorem destroyStream_of_unlinked (ho : w.objects p = some o)
    (hnone : o.fields.hasReader = false) :
    destroyStream P (fuel + 1) p w = (.ok (), setObject p none w) := by
  unfold destroyStream
  rw [Proc.bind_ok (unlinkFromReader_of_unlinked ho hnone)]
  rfl

/-- What `release_stream` and the destructor of a stream do with `fuel` for their calls. -/
structure UnlinksStreams (P : ParserOps π) (fuel : Nat) (w : LinkedReader π κ) : Prop where
  release : ∀ s p, w.demuxedStreams s = some p →
    ∃ w', releaseStream P fuel s w = (.ok (), w') ∧ UnlinksOnly s p w w' ∧ WellLinked P w'
  destroy : ∀ p o, w.objects p = some o → o.fields.hasReader = true →
    ∃ w', destroyStream P fuel p w = (.ok (), w') ∧ UnlinksOnly o.stream p w w' ∧
      w'.objects p = none ∧ WellLinked P w'
  /-- there is no stream to release -/
  releaseNone : ∀ s, s < w.streamCount → w.alive = true → w.demuxedStreams s = none →
    releaseStream P fuel s w = (.ok (), w)
  /-- the stream was released before -/
  destroyNone : ∀ p o, w.objects p = some o → o.fields.hasReader = false →
    destroyStream P fuel p w = (.ok (), setObject p none w)

/-- In a well-linked state each stream can be unlinked. -/
theorem WellLinked.unlinksStreams (h : WellLinked P w) (hfuel : 4 ≤ fuel) :
    UnlinksStreams P fuel w := by
  obtain ⟨k, rfl⟩ := Nat.exists_eq_add_of_le' hfuel
  constructor
  · intro s p hentry
    obtain ⟨o, ho⟩ := h.refersBack s p hentry
    exact ⟨_, releaseStream_of_wellLinked h hentry ho, unlinksOnly_unlinked, h.unlinked hentry⟩
  · intro p o ho hreader
    have hentry := h.entry p o ho hreader
    have honly : UnlinksOnly o.stream p w (LinkedReader.unlinked o.stream p o w) :=
      unlinksOnly_unlinked
    refine ⟨_, destroyStream_of_linked h hentry ⟨ho, hreader, rfl⟩, honly.destroyed, ?_, ?_⟩
    · simp [setObject]
    · exact (h.unlinked hentry).destroyed honly.reader
  · intro s hs halive hnone
    exact releaseStream_of_none hs halive hnone
  · intro p o ho hnone
    exact destroyStream_of_unlinked ho hnone

end LinkedReader

end Seekira.Model
