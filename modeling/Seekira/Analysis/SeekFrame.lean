import Seekira.Analysis.StreamPasses

/-!
# What a search leaves alone

A search calls the demuxer, replaces the streams it checks and marks the entries of
the reader's table.  A property that survives these four updates survives the whole
search, however it ends.  The requests in the table and the links between the reader
and its streams are such a property.
-/

set_option autoImplicit false

namespace Seekira.Model.StreamReader

open Library

variable {δ κ : Type} {D : IDemuxer δ} {I : StreamReader δ κ → Prop}

/-- What reading and storing packets keeps is kept by the loop of a check. -/
theorem keeps_seekResultLoop_of {s : StreamId} (hread : Proc.Keeps I (onDemuxer (D.read s)))
    (hstore : ∀ packet, Proc.Keeps I
      (modifyStream s fun st => { st with bufferedPacket := packet })) (fuel : Nat) :
    Proc.Keeps I (seekResultLoop D s fuel) := by
  induction fuel with
  | zero => exact Proc.keeps_throw _
  | succ fuel ih =>
    unfold seekResultLoop
    refine Proc.keeps_bind hread fun packet => ?_
    refine Proc.keeps_bind (hstore packet) fun _ => ?_
    refine Proc.keeps_bind Proc.keeps_get fun r => ?_
    split
    · exact Proc.keeps_pure _
    · exact Proc.keeps_ite (fun _ => Proc.keeps_pure _) fun _ => ih

/-- A property of the reader that every update of a search keeps. -/
structure SearchInvariant (D : IDemuxer δ) (I : StreamReader δ κ → Prop) : Prop where
  read : ∀ s, Proc.Keeps I (onDemuxer (D.read s))
  seek : ∀ time, Proc.Keeps I (onDemuxer (D.seek time))
  stream : ∀ s (f : DemuxedStream κ → DemuxedStream κ),
    (∀ st, (f st).hasReader = st.hasReader) → Proc.Keeps I (modifyStream s f)
  mark : ∀ i, Proc.Keeps I (modifyInfo i fun info => { info with seekAlreadyDone := true })

namespace SearchInvariant

/-- The result of a search keeps the invariant. -/
theorem getSeekResult (h : SearchInvariant D I) (s : StreamId) :
    Proc.Keeps I (StreamReader.getSeekResult D s) := by
  have hloop := keeps_seekResultLoop_of (h.read s) fun _ => h.stream s _ fun _ => rfl
  unfold StreamReader.getSeekResult
  refine Proc.keeps_bind Proc.keeps_get fun r => ?_
  refine Proc.keeps_bind (hloop _) fun _ => ?_
  refine Proc.keeps_bind Proc.keeps_get fun r => ?_
  split
  · exact Proc.keeps_bind (h.stream s _ fun _ => rfl) fun _ => Proc.keeps_pure _
  · exact Proc.keeps_bind (h.stream s _ fun _ => rfl) fun _ => Proc.keeps_pure _

/-- The check of the results keeps the invariant. -/
theorem checkResults (h : SearchInvariant D I) (time : TimestampFF) (checkers : List StreamId) :
    Proc.Keeps I (StreamReader.checkResults D time checkers) := by
  induction checkers with
  | nil => exact Proc.keeps_pure _
  | cons checker rest ih =>
    unfold StreamReader.checkResults
    refine Proc.keeps_bind (h.getSeekResult checker) fun res => ?_
    refine Proc.keeps_ite (fun _ => ih) fun _ => ?_
    refine Proc.keeps_ite (fun _ => Proc.keeps_pure _) fun _ => ?_
    exact Proc.keeps_bind ih fun _ => Proc.keeps_pure _

theorem infoSeekResult (h : SearchInvariant D I) (time : TimestampFF) (i : StreamId) :
    Proc.Keeps I (StreamReader.infoSeekResult D time i) :=
  Proc.keeps_bind (h.mark i) fun _ =>
    Proc.keeps_bind Proc.keeps_get fun _ => h.checkResults time _

/-- The results of all streams keep the invariant. -/
theorem seekResults (h : SearchInvariant D I) (time : TimestampFF) (is : List StreamId) :
    Proc.Keeps I (StreamReader.seekResults D time is) := by
  induction is with
  | nil => exact Proc.keeps_pure _
  | cons i is ih =>
    unfold StreamReader.seekResults
    refine Proc.keeps_bind (h.infoSeekResult time i) fun res => ?_
    refine Proc.keeps_ite (fun _ => ih) fun _ => ?_
    refine Proc.keeps_ite (fun _ => Proc.keeps_pure _) fun _ => ?_
    exact Proc.keeps_bind ih fun _ => Proc.keeps_pure _

/-- The loop of a search keeps the invariant. -/
theorem seekLoop (h : SearchInvariant D I) (start : TimestampFF) (fuel : Nat) (time : TimestampFF)
    (shift : TimeFF) : Proc.Keeps I (StreamReader.seekLoop D start fuel time shift) := by
  induction fuel generalizing time shift with
  | zero => exact Proc.keeps_throw _
  | succ fuel ih =>
    unfold StreamReader.seekLoop
    refine Proc.keeps_ite (fun _ => Proc.keeps_pure _) fun _ => ?_
    refine Proc.keeps_bind (h.seek _) fun demuxerPos => ?_
    refine Proc.keeps_bind Proc.keeps_get fun r => ?_
    refine Proc.keeps_bind (h.seekResults _ _) fun result => ?_
    exact Proc.keeps_ite (fun _ => Proc.keeps_pure _) fun _ => ih _ _

end SearchInvariant

/-! ## The requests -/

/-- Both readers hold the same requests for the same streams; the marks may differ. -/
structure SameRequests (r r' : StreamReader δ κ) : Prop where
  count : r'.streamCount = r.streamCount
  enabled : ∀ i, (r'.infos i).isStreamEnabled = (r.infos i).isStreamEnabled
  seekTime : ∀ i, (r'.infos i).seekTime = (r.infos i).seekTime
  checkers : ∀ i, (r'.infos i).seekResultCheckers = (r.infos i).seekResultCheckers
  hasReader : ∀ i, (r'.streams i).hasReader = (r.streams i).hasReader

namespace SameRequests

theorem refl (r : StreamReader δ κ) : SameRequests r r :=
  ⟨rfl, fun _ => rfl, fun _ => rfl, fun _ => rfl, fun _ => rfl⟩

/-- A change of a stream leaves the requests. -/
theorem withStream {r r' : StreamReader δ κ} (h : SameRequests r r') (s : StreamId)
    {st : DemuxedStream κ} (hst : st.hasReader = (r'.streams s).hasReader) :
    SameRequests r (r'.setStream s st) := by
  refine ⟨h.count, h.enabled, h.seekTime, h.checkers, fun i => ?_⟩
  rw [← h.hasReader i]
  by_cases hi : i = s
  · subst hi
    simpa using hst
  · simp [setStream, hi]

/-- The mark of a search that is done leaves the requests. -/
theorem mark {r r' : StreamReader δ κ} (h : SameRequests r r') (i : StreamId) :
    SameRequests r (r'.setInfo i { r'.infos i with seekAlreadyDone := true }) := by
  refine ⟨h.count, fun j => ?_, fun j => ?_, fun j => ?_, h.hasReader⟩
  · rw [← h.enabled j]
    by_cases hj : j = i
    · subst hj
      simp [setInfo]
    · simp [setInfo, hj]
  · rw [← h.seekTime j]
    by_cases hj : j = i
    · subst hj
      simp [setInfo]
    · simp [setInfo, hj]
  · rw [← h.checkers j]
    by_cases hj : j = i
    · subst hj
      simp [setInfo]
    · simp [setInfo, hj]

end SameRequests

/-- A search leaves the requests alone. -/
theorem sameRequests_invariant (D : IDemuxer δ) (r : StreamReader δ κ) :
    SearchInvariant D (SameRequests r) where
  read _ := fun _ h => ⟨h.count, h.enabled, h.seekTime, h.checkers, h.hasReader⟩
  seek _ := fun _ h => ⟨h.count, h.enabled, h.seekTime, h.checkers, h.hasReader⟩
  stream s _ hf := Proc.keeps_modify fun _ h => h.withStream s (hf _)
  mark i := Proc.keeps_modify fun _ h => h.mark i

/-- A search removes no mark. -/
theorem marked_invariant (D : IDemuxer δ) (i : StreamId) :
    SearchInvariant D fun r : StreamReader δ κ => (r.infos i).seekAlreadyDone = true where
  read _ := fun _ h => h
  seek _ := fun _ h => h
  stream _ _ _ := Proc.keeps_modify fun _ h => h
  mark j := by
    apply Proc.keeps_modify
    intro r h
    by_cases hj : i = j
    · subst hj
      simp [setInfo]
    · simpa [setInfo, hj] using h

end Seekira.Model.StreamReader
