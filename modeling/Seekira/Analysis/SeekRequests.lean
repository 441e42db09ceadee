import Mathlib.Order.Bounds.Defs
import Seekira.Analysis.StreamSeek
import Seekira.Model.SeekRecord

/-!
# The times and checkers that are requested

The entry of a stream keeps the least time requested and every checker, and the seek
starts from the least time of the enabled streams.  Both are the same running minimum,
which the unknown time starts.
-/

set_option autoImplicit false

namespace Seekira.Model

open Library

/-! ## The running minimum -/

/-- The lower of two times, where the unknown one does not count. -/
def lowerTime (old time : TimestampFF) : TimestampFF :=
  if old > time ∨ old = avNoPtsValue then time else old

theorem lowerTime_self (old time : TimestampFF) :
    lowerTime (lowerTime old time) time = lowerTime old time := by
  unfold lowerTime
  split
  · simp
  · rfl

/-- Times that are known are lowered to the least of them. -/
theorem isLeast_foldl_of_known (times : List TimestampFF) (hknown : ∀ t ∈ times, t ≠ avNoPtsValue)
    {old : TimestampFF} (hold : old ≠ avNoPtsValue) :
    IsLeast {t | t = old ∨ t ∈ times} (times.foldl lowerTime old) := by
  induction times generalizing old with
  | nil =>
    refine ⟨.inl rfl, ?_⟩
    rintro t (rfl | ht)
    · exact Int.le_refl _
    · cases ht
  | cons time times ih =>
    have htime := hknown time (by simp)
    have hlower : lowerTime old time ≠ avNoPtsValue := by
      unfold lowerTime
      split
      · exact htime
      · exact hold
    have hmin : lowerTime old time = min old time := by
      unfold lowerTime
      by_cases hlt : old > time
      · rw [if_pos (.inl hlt)]
        lia
      · rw [if_neg (by rintro (h | h) <;> contradiction)]
        lia
    obtain ⟨hmem, hle⟩ := ih (fun t ht => hknown t (by simp [ht])) hlower
    rw [List.foldl_cons]
    constructor
    · rcases hmem with heq | hmem
      · rw [heq, hmin]
        by_cases hlt : old ≤ time
        · exact .inl (Int.min_eq_left hlt)
        · rw [Int.min_eq_right (by lia)]
          exact .inr (by simp)
      · exact .inr (by simp [hmem])
    · have hfirst := hle (.inl rfl)
      rw [hmin] at hfirst
      rintro t (rfl | ht)
      · lia
      · rcases List.mem_cons.mp ht with rfl | ht
        · lia
        · exact hle (.inr ht)

/-- From the unknown time on, the running minimum is the least time. -/
theorem isLeast_foldl_of_unknown (times : List TimestampFF) (hne : times ≠ [])
    (hknown : ∀ t ∈ times, t ≠ avNoPtsValue) :
    IsLeast {t | t ∈ times} (times.foldl lowerTime avNoPtsValue) := by
  obtain ⟨time, rest, rfl⟩ := List.exists_cons_of_ne_nil hne
  have hfirst : lowerTime avNoPtsValue time = time := if_pos (.inr rfl)
  have hleast := isLeast_foldl_of_known rest (fun t ht => hknown t (by simp [ht]))
    (hknown time (by simp))
  rw [List.foldl_cons, hfirst]
  simpa using hleast

/-- The running minimum from `old` on: the old time counts when it is known. -/
theorem isLeast_foldl (times : List TimestampFF) (hne : times ≠ [])
    (hknown : ∀ t ∈ times, t ≠ avNoPtsValue) (old : TimestampFF) :
    IsLeast {t | t = old ∧ t ≠ avNoPtsValue ∨ t ∈ times} (times.foldl lowerTime old) := by
  by_cases hold : old = avNoPtsValue
  · have hset : {t | t = old ∧ t ≠ avNoPtsValue ∨ t ∈ times} = {t | t ∈ times} := by
      ext t
      simp [hold]
    rw [hset, hold]
    exact isLeast_foldl_of_unknown times hne hknown
  · have hset : {t | t = old ∧ t ≠ avNoPtsValue ∨ t ∈ times} = {t | t = old ∨ t ∈ times} := by
      ext t
      constructor
      · exact fun h => h.imp And.left id
      · rintro (rfl | h)
        · exact .inl ⟨rfl, hold⟩
        · exact .inr h
    rw [hset]
    exact isLeast_foldl_of_known times hknown hold

namespace StreamReader

/-- Where every enabled stream requested a time, the seek starts from the least one. -/
theorem minSeekPosition_eq_foldl {infos : StreamId → StreamInfo} {is : List StreamId}
    (hknown : ∀ i ∈ is, (infos i).isStreamEnabled = true → (infos i).seekTime ≠ avNoPtsValue)
    (start : TimestampFF) :
    minSeekPosition infos is start =
      .ok (((is.filter fun i => (infos i).isStreamEnabled).map fun i => (infos i).seekTime).foldl
        lowerTime start) := by
  induction is generalizing start with
  | nil => rfl
  | cons i is ih =>
    have ih := ih fun j hj => hknown j (by simp [hj])
    unfold minSeekPosition
    cases henabled : (infos i).isStreamEnabled with
    | false =>
      rw [List.filter_cons_of_neg (by simp [henabled]), ← ih]
      exact if_pos rfl
    | true =>
      have hfilter : (i :: is).filter (fun i => (infos i).isStreamEnabled) =
          i :: is.filter fun i => (infos i).isStreamEnabled := by
        simp [henabled]
      rw [if_neg (by simp), if_neg (hknown i (by simp) henabled), hfilter, List.map_cons,
        List.foldl_cons, ← ih]
      unfold lowerTime
      by_cases h : start > (infos i).seekTime ∨ start = avNoPtsValue
      · rw [if_pos h, if_pos h.symm]
      · rw [if_neg h, if_neg fun h' => h h'.symm]

end StreamReader

/-! ## One entry -/

namespace StreamInfo

/-- What a call of `request_seek` of its stream does to an entry: first the given checker is
entered, then the stream itself. -/
def requested (q : SeekRequest) (info : StreamInfo) : StreamInfo :=
  (match q.resultChecker with
    | some checker => info.requestSeek q.time checker
    | none => info).requestSeek q.time q.stream

/-- What a request does to a stream that is enabled. -/
theorem requestSeek_enabled {info : StreamInfo} (h : info.isStreamEnabled = true)
    (time : TimestampFF) (checker : StreamId) :
    (info.requestSeek time checker).isStreamEnabled = true ∧
      (info.requestSeek time checker).seekTime = lowerTime info.seekTime time ∧
      (info.requestSeek time checker).seekAlreadyDone = false ∧
      ∀ c ∈ (info.requestSeek time checker).seekResultCheckers,
        c = checker ∨ c ∈ info.seekResultCheckers := by
  unfold requestSeek
  rw [if_neg (by simp [h])]
  refine ⟨h, rfl, rfl, fun c hc => ?_⟩
  dsimp only at hc
  split at hc
  · exact .inr hc
  · exact List.mem_cons.mp hc

/-- What a request with its checker does to a stream that is enabled. -/
theorem requested_enabled {info : StreamInfo} (h : info.isStreamEnabled = true)
    (q : SeekRequest) :
    (info.requested q).isStreamEnabled = true ∧
      (info.requested q).seekTime = lowerTime info.seekTime q.time ∧
      (info.requested q).seekAlreadyDone = false ∧
      ∀ c ∈ (info.requested q).seekResultCheckers,
        c = q.stream ∨ q.resultChecker = some c ∨ c ∈ info.seekResultCheckers := by
  unfold requested
  cases q.resultChecker with
  | none =>
    obtain ⟨henabled, htime, hdone, hcheckers⟩ := requestSeek_enabled h q.time q.stream
    exact ⟨henabled, htime, hdone, fun c hc => (hcheckers c hc).imp id .inr⟩
  | some checker =>
    obtain ⟨henabled, htime, -, hcheckers⟩ := requestSeek_enabled h q.time checker
    obtain ⟨henabled', htime', hdone', hcheckers'⟩ := requestSeek_enabled henabled q.time q.stream
    refine ⟨henabled', ?_, hdone', fun c hc => ?_⟩
    · rw [htime', htime, lowerTime_self]
    · rcases hcheckers' c hc with hc | hc
      · exact .inl hc
      · rcases hcheckers c hc with rfl | hc
        · exact .inr (.inl rfl)
        · exact .inr (.inr hc)

/-- A stream that is not enabled requests nothing. -/
theorem requested_disabled {info : StreamInfo} (h : info.isStreamEnabled = false)
    (q : SeekRequest) : info.requested q = info := by
  have hnone : ∀ time checker, info.requestSeek time checker = info := fun _ _ =>
    if_pos (by simp [h])
  unfold requested
  cases q.resultChecker with
  | none => exact hnone _ _
  | some checker =>
    dsimp only
    rw [hnone, hnone]

/-- An entry after the requests of its stream. -/
def requestedAll (qs : List SeekRequest) (info : StreamInfo) : StreamInfo :=
  qs.foldl (fun info q => info.requested q) info

/-- What some requests do to a stream that is enabled. -/
theorem requestedAll_enabled {info : StreamInfo} (h : info.isStreamEnabled = true)
    (qs : List SeekRequest) :
    (info.requestedAll qs).isStreamEnabled = true ∧
      (info.requestedAll qs).seekTime = (qs.map (·.time)).foldl lowerTime info.seekTime ∧
      (qs ≠ [] → (info.requestedAll qs).seekAlreadyDone = false) ∧
      ∀ c ∈ (info.requestedAll qs).seekResultCheckers,
        (∃ q ∈ qs, c = q.stream ∨ q.resultChecker = some c) ∨ c ∈ info.seekResultCheckers := by
  induction qs generalizing info with
  | nil => exact ⟨h, rfl, fun hne => absurd rfl hne, fun c hc => .inr hc⟩
  | cons q qs ih =>
    obtain ⟨henabled, htime, hdone, hcheckers⟩ := requested_enabled h q
    obtain ⟨henabled', htime', hdone', hcheckers'⟩ := ih henabled
    refine ⟨henabled', ?_, fun _ => ?_, fun c hc => ?_⟩
    · rw [List.map_cons, List.foldl_cons, ← htime]
      exact htime'
    · rcases List.eq_nil_or_concat qs with rfl | ⟨init, q', rfl⟩
      · exact hdone
      · exact hdone' (by simp)
    · rcases hcheckers' c hc with ⟨q', hq', hc⟩ | hc
      · exact .inl ⟨q', by simp [hq'], hc⟩
      · rcases hcheckers c hc with rfl | hc | hc
        · exact .inl ⟨q, by simp, .inl rfl⟩
        · exact .inl ⟨q, by simp, .inr hc⟩
        · exact .inr hc

/-- A stream that is not enabled requests nothing. -/
theorem requestedAll_disabled {info : StreamInfo} (h : info.isStreamEnabled = false)
    (qs : List SeekRequest) : info.requestedAll qs = info := by
  induction qs with
  | nil => rfl
  | cons q qs ih =>
    unfold requestedAll
    rw [List.foldl_cons, requested_disabled h]
    exact ih

end StreamInfo

/-! ## The reader -/

namespace StreamReader

variable {δ κ : Type} {D : IDemuxer δ} {C : CodecOps κ}

/-- The requests of stream `i`. -/
def requestsOf (i : StreamId) (qs : List SeekRequest) : List SeekRequest :=
  qs.filter fun q => q.stream = i

/-- The requests were entered into the table, and the demuxer was not called. -/
structure Requested (r : StreamReader δ κ) (qs : List SeekRequest) (w : StreamReader δ κ) :
    Prop where
  demuxer : w.demuxer = r.demuxer
  count : w.streamCount = r.streamCount
  hasReader : ∀ i, (w.streams i).hasReader = (r.streams i).hasReader
  infos : ∀ i, w.infos i = (r.infos i).requestedAll (requestsOf i qs)

/-- A request of a video stream returns, and is entered. -/
theorem requestSeek_returns {q : SeekRequest} {r : StreamReader δ κ}
    (h : (r.streams q.stream).hasReader = true) (hvideo : D.streamType q.stream = .video) :
    ∃ w, requestSeek D C q.stream q.time q.resultChecker r = (.ok (), w) ∧ Requested r [q] w := by
  have hrun : requestSeek D C q.stream q.time q.resultChecker r = (.ok (),
      (r.setStream q.stream (flushed C q.time (r.streams q.stream))).setInfo q.stream
        ((r.infos q.stream).requested q)) := by
    unfold requestSeek StreamInfo.requested
    cases q.resultChecker with
    | none => simp [h, hvideo, modifyStream, modifyInfo, flushed]
    | some checker => simp [h, hvideo, modifyStream, modifyInfo, flushed, setInfo]
  refine ⟨_, hrun, rfl, rfl, fun i => ?_, fun i => ?_⟩
  · by_cases hi : i = q.stream
    · subst hi
      simp [setInfo, flushed]
    · simp [setInfo, setStream, hi]
  · unfold requestsOf StreamInfo.requestedAll
    by_cases hi : i = q.stream
    · subst hi
      simp [setInfo]
    · have hne : q.stream ≠ i := fun h => hi h.symm
      simp [setInfo, hi, hne]

/-- A request that returns was made by a video stream: no other stream has a decoder to flush. -/
theorem video_of_requestSeek {s : StreamId} {time : TimestampFF} {checker : Option StreamId}
    {r w : StreamReader δ κ} (h : requestSeek D C s time checker r = (.ok (), w)) :
    D.streamType s = .video := by
  by_contra hne
  unfold requestSeek at h
  by_cases hreader : (r.streams s).hasReader = true
  · simp [hreader, hne, modifyStream] at h
  · simp [hreader] at h

/-- Requests of video streams with readers return. -/
theorem requestSeeks_returns (qs : List SeekRequest) {r : StreamReader δ κ}
    (h : ∀ q ∈ qs, (r.streams q.stream).hasReader = true)
    (hvideo : ∀ q ∈ qs, D.streamType q.stream = .video) :
    ∃ w, requestSeeks D C qs r = (.ok (), w) ∧ Requested r qs w := by
  induction qs generalizing r with
  | nil => exact ⟨r, rfl, rfl, rfl, fun _ => rfl, fun _ => rfl⟩
  | cons q qs ih =>
    obtain ⟨w, hw, hfirst⟩ :=
      requestSeek_returns (C := C) (h q (by simp)) (hvideo q (by simp))
    obtain ⟨w', hw', hrest⟩ := ih (r := w) (fun q' hq' => by
      rw [hfirst.hasReader]
      exact h q' (by simp [hq'])) fun q' hq' => hvideo q' (by simp [hq'])
    refine ⟨w', ?_, hrest.demuxer.trans hfirst.demuxer, hrest.count.trans hfirst.count, ?_, ?_⟩
    · unfold requestSeeks
      rw [Proc.bind_ok hw, hw']
    · intro i
      rw [hrest.hasReader, hfirst.hasReader]
    · intro i
      rw [hrest.infos, hfirst.infos]
      unfold StreamInfo.requestedAll requestsOf
      rw [← List.foldl_append, ← List.filter_append, List.singleton_append]

/-- Requests that all return were made by video streams. -/
theorem video_of_requestSeeks {qs : List SeekRequest} {r w : StreamReader δ κ}
    (h : requestSeeks D C qs r = (.ok (), w)) : ∀ q ∈ qs, D.streamType q.stream = .video := by
  induction qs generalizing r with
  | nil => simp
  | cons q qs ih =>
    unfold requestSeeks at h
    rcases hfirst : requestSeek D C q.stream q.time q.resultChecker r with ⟨e | ⟨⟩, r₁⟩
    · rw [Proc.bind_error hfirst] at h
      cases h
    · rw [Proc.bind_ok hfirst] at h
      intro q' hq'
      rcases List.mem_cons.mp hq' with rfl | hq'
      · exact video_of_requestSeek hfirst
      · exact ih h q' hq'

end StreamReader

end Seekira.Model
