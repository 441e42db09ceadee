import Seekira.Analysis.StreamUnlinking

/-!
# The depth of the unlinking calls

Whatever the links are, also when the table and the streams disagree, the calls of
`unlink_from_reader` and `release_stream` in one another come to an end: each round clears
an entry of the table, and nothing enters one.  They do not lock a mutex twice either: a
stream whose mutexes are held has no reader any more, so it is not unlinked again.
-/

set_option autoImplicit false

namespace Seekira.Model

open Library

/-- The calls do not come to an end, or wait for themselves. -/
def LinkFault.IsStuck (e : LinkFault) : Prop := e = .failed .diverged ∨ e = .relocked

theorem LinkFault.IsStuck.ne_invalidAccess {e : LinkFault} (he : e.IsStuck) :
    LinkFault.invalidAccess ≠ e := by
  rcases he with rfl | rfl <;> simp

theorem LinkFault.IsStuck.ne_thrown {e : LinkFault} (he : e.IsStuck) (what : String) :
    LinkFault.failed (.thrown what) ≠ e := by
  rcases he with rfl | rfl <;> simp

namespace LinkedReader

variable {π κ : Type} {P : ParserOps π} {w w' : LinkedReader π κ} {s : StreamId}
  {p : StreamAddress} {o : StreamObject κ} {fuel n : Nat} {e : LinkFault}

/-! ## One operation each -/

/-- Looking at an object does not get stuck. -/
theorem avoids_object (he : e.IsStuck) : Proc.Avoids e (object p : Proc _ (LinkedReader π κ) _) := by
  intro w
  unfold object
  apply Proc.bind_ne_error (Proc.avoids_get w)
  intro w' _ _
  cases w'.objects p with
  | none =>
    exact Proc.avoids_throw he.ne_invalidAccess _
  | some o =>
    apply Proc.avoids_pure

theorem avoids_modifyObject (he : e.IsStuck) (f : DemuxedStream κ → DemuxedStream κ) :
    Proc.Avoids e (modifyObject p f : Proc _ (LinkedReader π κ) _) :=
  Proc.avoids_bind (avoids_object he) fun _ => Proc.avoids_modify _

theorem avoids_dropReader (he : e.IsStuck) :
    Proc.Avoids e (dropReader : Proc _ (LinkedReader π κ) _) := by
  apply Proc.avoids_bind (Proc.avoids_modify _)
  intro _
  apply Proc.avoids_bind Proc.avoids_get
  intro w
  apply Proc.avoids_ite
  · intro _
    apply Proc.avoids_bind Proc.avoids_get
    intro w'
    exact Proc.avoids_ite (fun _ => Proc.avoids_throw (he.ne_thrown _)) fun _ =>
      Proc.avoids_modify _
  · intro _
    exact Proc.avoids_pure _

theorem avoids_enableStream (he : e.IsStuck) (value : Bool) :
    Proc.Avoids e
      (onDemuxer (DemuxerQueue.enableStream P s value) : Proc _ (LinkedReader π κ) _) := by
  intro w
  unfold onDemuxer DemuxerQueue.enableStream
  by_cases hs : s ≥ P.streamCount
  · simp [hs, Except.mapError, Proc.zoom, he.ne_thrown]
  · simp [hs, Except.mapError, Proc.zoom]

/-! ## The state of the nested calls -/

/-- A stream whose mutexes are held has no reader. -/
def Guarded (w : LinkedReader π κ) : Prop :=
  ∀ m ∈ w.mutexes.held, ∀ o, w.objects m.1 = some o → o.fields.hasReader = false

/-- The links and the mutexes are the same. -/
structure SameLinks (w w' : LinkedReader π κ) : Prop where
  streamCount : w'.streamCount = w.streamCount
  demuxedStreams : w'.demuxedStreams = w.demuxedStreams
  objects : w'.objects = w.objects
  mutexes : w'.mutexes = w.mutexes

theorem SameLinks.guarded (h : SameLinks w w') (hguard : Guarded w) : Guarded w' := by
  unfold Guarded
  rw [h.mutexes, h.objects]
  exact hguard

theorem SameLinks.linkedIds (h : SameLinks w w') : w'.linkedIds = w.linkedIds := by
  unfold LinkedReader.linkedIds
  rw [h.streamCount, h.demuxedStreams]

theorem sameLinks_of_enableStream {value : Bool}
    (h : onDemuxer (DemuxerQueue.enableStream P s value) w = (.ok (), w')) : SameLinks w w' := by
  obtain rfl := congrArg Prod.snd h
  exact ⟨rfl, rfl, rfl, rfl⟩

/-- Destroying the reader leaves the links. -/
theorem keeps_destroyReader : Proc.Keeps (SameLinks w) destroyReader := by
  unfold destroyReader
  refine Proc.keeps_bind Proc.keeps_get fun v => ?_
  apply Proc.keeps_ite
  · intro _
    exact Proc.keeps_throw _
  · intro _
    exact Proc.keeps_modify fun v h => ⟨h.streamCount, h.demuxedStreams, h.objects, h.mutexes⟩

/-- Dropping a reference leaves the links. -/
theorem keeps_dropReader : Proc.Keeps (SameLinks w) dropReader := by
  unfold dropReader
  refine Proc.keeps_bind (Proc.keeps_modify fun v h => ?_) fun _ => ?_
  · exact ⟨h.streamCount, h.demuxedStreams, h.objects, h.mutexes⟩
  refine Proc.keeps_bind Proc.keeps_get fun v => ?_
  apply Proc.keeps_ite
  · intro _
    exact keeps_destroyReader
  · intro _
    exact Proc.keeps_pure _

theorem sameLinks_of_dropReader (h : dropReader w = (.ok (), w')) : SameLinks w w' := by
  have hkeeps := keeps_dropReader w ⟨rfl, rfl, rfl, rfl⟩
  rw [h] at hkeeps
  exact hkeeps

/-! ## One round -/

/-- Leaving the reader gets stuck only in the release. -/
theorem leaveReader_ne_error (he : e.IsStuck) {release : Proc LinkFault (LinkedReader π κ) Unit}
    (ho : w.objects p = some o)
    (hrelease : ∀ w', SameLinks (setObject p (some o.withoutReader) w) w' →
      (release w').1 ≠ .error e) : (leaveReader p release w).1 ≠ .error e := by
  have hreset : modifyObject p (fun fields => { fields with hasReader := false })
      { w with useCount := w.useCount + 1 } =
      (.ok (), { setObject p (some o.withoutReader) w with useCount := w.useCount + 1 }) :=
    modifyObject_ok ho
  unfold leaveReader copyReader
  rw [Proc.modify_bind_apply]
  apply Proc.ensure_ne_error _ (avoids_dropReader he)
  rw [Proc.bind_ok hreset]
  refine Proc.bind_ne_error (avoids_dropReader he _) fun _ w₁ hdrop => ?_
  have hsame := sameLinks_of_dropReader hdrop
  refine Proc.bind_ne_error (hrelease w₁ ?_) fun _ w₂ _ => ?_
  · exact ⟨hsame.streamCount, hsame.demuxedStreams, hsame.objects, hsame.mutexes⟩
  · exact avoids_modifyObject he _ w₂

/-- A stream that is going to be unlinked holds none of its mutexes. -/
theorem Guarded.lockable (h : Guarded w) (ho : w.objects p = some o)
    (hreader : o.fields.hasReader = true) : Mutexes.Lockable (streamMutexes p) w.mutexes := by
  refine ⟨by simp [streamMutexes], fun m hm hheld => ?_⟩
  have hm : m.1 = p := by
    simp only [streamMutexes, List.mem_cons, List.not_mem_nil, or_false] at hm
    rcases hm with rfl | rfl <;> rfl
  have hnone := h m hheld o (by rw [hm, ho])
  rw [hreader] at hnone
  cases hnone

/-- While its mutexes are held, the stream has no reader. -/
theorem Guarded.leaving (h : Guarded w) : Guarded (LinkedReader.leaving p o w) := by
  intro m hm o' ho'
  by_cases hmp : m.1 = p
  · obtain rfl : o.withoutReader = o' := by
      simpa [LinkedReader.leaving, setObject, hmp] using ho'
    rfl
  · have hheld : m ∈ w.mutexes.held := by
      rcases List.mem_append.mp hm with hnew | hold
      · simp only [streamMutexes, List.mem_cons, List.not_mem_nil, or_false] at hnew
        rcases hnew with rfl | rfl <;> exact absurd rfl hmp
      · exact hold
    have hobject : w.objects m.1 = some o' := by
      simpa [LinkedReader.leaving, setObject, locked, hmp] using ho'
    exact h m hheld o' hobject

/-- The calls of `release_stream` with the given links at most are not stuck. -/
def ReleasesWithin (P : ParserOps π) (e : LinkFault) (n fuel : Nat) : Prop :=
  ∀ s (w : LinkedReader π κ), Guarded w → w.linkedIds.card ≤ n →
    (releaseStream P fuel s w).1 ≠ .error e

/-- Unlinking with enough fuel for the releases does not get stuck. -/
theorem unlinkFromReader_ne_error (he : e.IsStuck) (h : ReleasesWithin (κ := κ) P e n fuel)
    {w : LinkedReader π κ} (hguard : Guarded w) (hcard : w.linkedIds.card ≤ n) :
    (unlinkFromReader P (fuel + 1) p w).1 ≠ .error e := by
  unfold unlinkFromReader
  cases ho : w.objects p with
  | none =>
    apply Proc.bind_ne_error (avoids_object he w)
    intro o w' hobject
    simp [object, ho] at hobject
  | some o =>
    rw [Proc.bind_ok (object_ok ho)]
    cases hreader : o.fields.hasReader with
    | false => simp
    | true =>
      simp only [Bool.not_true, Bool.false_eq_true, if_false]
      apply Mutexes.scopedLock_ne_error (hguard.lockable ho hreader)
      apply leaveReader_ne_error (w := locked p w) he ho
      intro w' hsame
      apply h
      · exact hsame.guarded hguard.leaving
      · rw [hsame.linkedIds]
        exact hcard

/-- The release of a stream that is not linked does not get stuck. -/
theorem releaseStream_ne_error_of_unlinked (he : e.IsStuck) (hs : s ∉ w.linkedIds) :
    (releaseStream P (fuel + 1) s w).1 ≠ .error e := by
  have hthrow := he.ne_invalidAccess
  unfold releaseStream
  rw [Proc.get_bind_apply]
  by_cases hinvalid : (decide (s ≥ w.streamCount) || !w.alive) = true
  · simp [hinvalid, hthrow]
  have hvalid : s < w.streamCount := by
    by_contra hlarge
    exact hinvalid (by simp [Nat.not_lt.mp hlarge])
  have hnone : (w.demuxedStreams s).isNone = true := by
    rw [mem_linkedIds] at hs
    simpa [hvalid] using hs
  simp [hinvalid, hnone]

/-- The release of a linked stream gets stuck only in the unlinking. -/
theorem releaseStream_ne_error_of_linked (he : e.IsStuck) (hs : s ∈ w.linkedIds)
    (hguard : Guarded w)
    (hunlink : ∀ q (w' : LinkedReader π κ), Guarded w' → w'.linkedIds = w.linkedIds.erase s →
      (unlinkFromReader P fuel q w').1 ≠ .error e) :
    (releaseStream P (fuel + 2) s w).1 ≠ .error e := by
  have hthrow := he.ne_invalidAccess
  obtain ⟨hvalid, hsome⟩ := mem_linkedIds.mp hs
  obtain ⟨q, hentry⟩ := Option.isSome_iff_exists.mp hsome
  unfold releaseStream
  rw [Proc.get_bind_apply]
  by_cases hinvalid : (decide (s ≥ w.streamCount) || !w.alive) = true
  · simp [hinvalid, hthrow]
  simp only [hinvalid, hentry, Option.isNone_some, Bool.false_eq_true, if_false]
  refine Proc.bind_ne_error (avoids_enableStream he false w) fun _ w₁ henable => ?_
  have hsame := sameLinks_of_enableStream henable
  have hentry₁ : w₁.demuxedStreams s = some q := by rw [hsame.demuxedStreams, hentry]
  unfold infoUnlinkFromReader
  simp only [Proc.get_bind_apply, Proc.modify_bind_apply, hentry₁]
  apply hunlink
  · exact hsame.guarded hguard
  · rw [linkedIds_setEntry_none, hsame.linkedIds]

/-- Each round uses up one link. -/
theorem releasesWithin (he : e.IsStuck) (n : Nat) :
    ∀ fuel, 3 * n < fuel → ReleasesWithin (κ := κ) P e n fuel := by
  induction n with
  | zero =>
    intro fuel hfuel s w _ hcard
    have hnone : w.linkedIds = ∅ := Finset.card_eq_zero.mp (Nat.le_zero.mp hcard)
    obtain ⟨f, rfl⟩ := Nat.exists_eq_add_of_le' hfuel
    exact releaseStream_ne_error_of_unlinked he (by simp [hnone])
  | succ n ih =>
    intro fuel hfuel s w hguard hcard
    obtain ⟨f, rfl⟩ : ∃ f, fuel = f + 3 := ⟨fuel - 3, by omega⟩
    by_cases hs : s ∈ w.linkedIds
    · apply releaseStream_ne_error_of_linked he hs hguard
      intro q w' hguard' hids
      have hcard' := Finset.card_erase_of_mem hs
      apply unlinkFromReader_ne_error he (ih f (by omega)) hguard'
      rw [hids]
      omega
    · exact releaseStream_ne_error_of_unlinked he hs

/-- Whatever the links are, `release_stream` comes to an end and locks no mutex twice. -/
theorem releaseStream_settles (s : StreamId) (hguard : Guarded w)
    (hfuel : 3 * w.linkedIds.card < fuel) (he : e.IsStuck) :
    (releaseStream P fuel s w).1 ≠ .error e :=
  releasesWithin he _ fuel hfuel s w hguard le_rfl

/-- The same for the destructor of a stream. -/
theorem destroyStream_settles (p : StreamAddress) (hguard : Guarded w)
    (hfuel : 3 * w.linkedIds.card + 1 < fuel) (he : e.IsStuck) :
    (destroyStream P fuel p w).1 ≠ .error e := by
  obtain ⟨f, rfl⟩ : ∃ f, fuel = f + 1 := ⟨fuel - 1, by omega⟩
  have hreleases := releasesWithin (P := P) (κ := κ) he w.linkedIds.card f (by omega)
  unfold destroyStream
  refine Proc.bind_ne_error ?_ fun _ w' _ => Proc.avoids_modify _ w'
  exact unlinkFromReader_ne_error he hreleases hguard le_rfl

end LinkedReader

end Seekira.Model
