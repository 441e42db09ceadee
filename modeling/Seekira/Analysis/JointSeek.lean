import Seekira.Analysis.DemuxerStarvation
import Seekira.Analysis.SeekRequests
import Seekira.Analysis.SeekRounds

/-!
# The joint seek of several streams

Each stream requests its time, and then each stream seeks.  The first one that seeks
searches the demuxer for all of them and marks every other entry as done; the mark
makes the seek of its stream a formality that clears the entry.
-/

set_option autoImplicit false

namespace Seekira.Model.StreamReader

open Library SeekEvent

variable {δ κ : Type} {D : IDemuxer δ} {C : CodecOps κ}

/-! ## One call of `do_seek` -/

/-- The reader after the search of stream `s`. -/
def afterSearch (s : StreamId) (r : StreamReader δ κ) : StreamReader δ κ :=
  let cleared : StreamReader δ κ :=
    { r with
      infos := fun i => if i < r.streamCount then (r.infos i).resetStateAfterSeek else r.infos i }
  (cleared.setInfo s (cleared.infos s).resetStateBeforeSeek).setStream s
    { r.streams s with bufferedData := none }

/-- `do_seek` records what the search records. -/
theorem recordedDoSeek_of_seek {s : StreamId} {r r' : StreamReader δ κ} {events : List SeekEvent}
    (hreader : (r.streams s).hasReader = true)
    (hseek : recordedSeek D s r = ((.ok (), r'), events)) :
    recordedDoSeek D s r =
      ((.ok (), r'.setStream s { r'.streams s with bufferedData := none }), events) := by
  unfold recordedDoSeek
  rw [Recorded.lift_get_bind_apply, if_neg (by simp [hreader])]
  dsimp only
  rw [Recorded.bind_ok hseek]
  simp [modifyStream]

/-- The seek of a stream whose seek is done calls nothing. -/
theorem recordedDoSeek_of_done {s : StreamId} {r : StreamReader δ κ}
    (hreader : (r.streams s).hasReader = true) (hs : s < r.streamCount)
    (henabled : (r.infos s).isStreamEnabled = true) (hdone : (r.infos s).seekAlreadyDone = true) :
    recordedDoSeek D s r = ((.ok (), (r.setInfo s (r.infos s).resetStateBeforeSeek).setStream s
      { r.streams s with bufferedData := none }), []) := by
  have hindex : (decide (s ≥ r.streamCount) || !(r.infos s).isStreamEnabled) = false := by
    simp [hs, henabled]
  have hseek : recordedSeek D s r =
      ((.ok (), r.setInfo s (r.infos s).resetStateBeforeSeek), []) := by
    unfold recordedSeek
    rw [Recorded.lift_get_bind_apply, if_neg (by rw [hindex]; exact Bool.false_ne_true),
      if_pos hdone]
    rfl
  exact recordedDoSeek_of_seek hreader hseek

/-- The seek of a stream whose seek is not done searches the demuxer. -/
theorem recordedDoSeek_of_search {s : StreamId} {r r' : StreamReader δ κ} {m : TimestampFF}
    {events : List SeekEvent} (hreader : (r.streams s).hasReader = true) (hs : s < r.streamCount)
    (henabled : (r.infos s).isStreamEnabled = true) (hdone : (r.infos s).seekAlreadyDone = false)
    (hmin : minSeekPosition r.infos (List.range r.streamCount) avNoPtsValue = .ok m)
    (hloop : recordedSeekLoop D m 16 m 0 r = ((.ok (), r'), events)) :
    recordedDoSeek D s r = ((.ok (), afterSearch s r'), events) := by
  have hindex : (decide (s ≥ r.streamCount) || !(r.infos s).isStreamEnabled) = false := by
    simp [hs, henabled]
  have hseek : recordedSeek D s r = ((.ok (),
      { r' with infos := fun i =>
          if i < r'.streamCount then (r'.infos i).resetStateAfterSeek else r'.infos i }.setInfo s
        (if s < r'.streamCount then (r'.infos s).resetStateAfterSeek
          else r'.infos s).resetStateBeforeSeek), events) := by
    unfold recordedSeek
    rw [Recorded.lift_get_bind_apply, if_neg (by rw [hindex]; exact Bool.false_ne_true), hdone,
      if_neg Bool.false_ne_true, hmin]
    dsimp only
    rw [Recorded.bind_ok hloop]
    simp [modifyInfo]
  exact recordedDoSeek_of_seek hreader hseek

/-! ## The streams that seek together -/

/-- The enabled streams, each once, in the order in which they seek. -/
structure Joins (r : StreamReader δ κ) (order : List StreamId) : Prop where
  nodup : order.Nodup
  mem_iff : ∀ s, s ∈ order ↔ s < r.streamCount ∧ (r.infos s).isStreamEnabled = true
  hasReader : ∀ s ∈ order, (r.streams s).hasReader = true

/-- No time and no checker is pending. -/
def NothingPending (r : StreamReader δ κ) : Prop :=
  ∀ i < r.streamCount, (r.infos i).seekTime = avNoPtsValue ∧ (r.infos i).seekResultCheckers = []

/-- Every stream of `order`, and no other, requests at least one time, all times known and not
below zero; the checkers are streams of the file. -/
structure Complete (r : StreamReader δ κ) (order : List StreamId) (qs : List SeekRequest) :
    Prop where
  stream : ∀ q ∈ qs, q.stream ∈ order
  covers : ∀ s ∈ order, ∃ q ∈ qs, q.stream = s
  time : ∀ q ∈ qs, 0 ≤ q.time
  checker : ∀ q ∈ qs, ∀ c, q.resultChecker = some c → c < r.streamCount

section Requests

variable {r w : StreamReader δ κ} {order : List StreamId} {qs : List SeekRequest}

theorem mem_requestsOf {q : SeekRequest} {i : StreamId} :
    q ∈ requestsOf i qs ↔ q ∈ qs ∧ q.stream = i := by
  simp [requestsOf]

theorem Complete.requestsOf_ne_nil (h : Complete r order qs) {s : StreamId} (hs : s ∈ order) :
    requestsOf s qs ≠ [] := by
  obtain ⟨q, hq, hstream⟩ := h.covers s hs
  exact List.ne_nil_of_mem (mem_requestsOf.mpr ⟨hq, hstream⟩)

theorem Complete.known (h : Complete r order qs) {q : SeekRequest} (hq : q ∈ qs) :
    q.time ≠ avNoPtsValue := by
  have htime := h.time q hq
  unfold avNoPtsValue
  lia

/-- The requests of one stream leave the least of its times and the one that was pending. -/
theorem Requested.isLeast (h : Requested r qs w) (hjoins : Joins r order)
    (hqs : Complete r order qs) {s : StreamId} (hs : s ∈ order) :
    IsLeast {t | t = (r.infos s).seekTime ∧ t ≠ avNoPtsValue ∨
      ∃ q ∈ qs, q.stream = s ∧ q.time = t} (w.infos s).seekTime := by
  obtain ⟨-, henabled⟩ := (hjoins.mem_iff s).mp hs
  obtain ⟨-, htime, -, -⟩ := StreamInfo.requestedAll_enabled henabled (requestsOf s qs)
  rw [h.infos s, htime]
  have hleast := isLeast_foldl ((requestsOf s qs).map (·.time))
    (by simpa using hqs.requestsOf_ne_nil hs) (by
      intro t ht
      obtain ⟨q, hq, rfl⟩ := List.mem_map.mp ht
      exact hqs.known (mem_requestsOf.mp hq).1) (r.infos s).seekTime
  have hset : {t | t = (r.infos s).seekTime ∧ t ≠ avNoPtsValue ∨
        t ∈ (requestsOf s qs).map (·.time)} =
      {t | t = (r.infos s).seekTime ∧ t ≠ avNoPtsValue ∨
        ∃ q ∈ qs, q.stream = s ∧ q.time = t} := by
    ext t
    simp [mem_requestsOf, and_assoc]
  rw [← hset]
  exact hleast

/-- After the requests every enabled stream has a known time. -/
theorem Requested.known (h : Requested r qs w) (hjoins : Joins r order)
    (hqs : Complete r order qs) {s : StreamId} (hs : s ∈ order) :
    (w.infos s).seekTime ≠ avNoPtsValue := by
  rcases (h.isLeast hjoins hqs hs).1 with ⟨-, hknown⟩ | ⟨q, hq, -, hqt⟩
  · exact hknown
  · rw [← hqt]
    exact hqs.known hq

/-- Requests leave the streams enabled as they were. -/
theorem Requested.enabled (h : Requested r qs w) (i : StreamId) :
    (w.infos i).isStreamEnabled = (r.infos i).isStreamEnabled := by
  rw [h.infos i]
  cases henabled : (r.infos i).isStreamEnabled with
  | true => exact (StreamInfo.requestedAll_enabled henabled _).1
  | false => rw [StreamInfo.requestedAll_disabled henabled, henabled]

/-- The same streams take part after the requests. -/
theorem Requested.joins (h : Requested r qs w) (hjoins : Joins r order) : Joins w order where
  nodup := hjoins.nodup
  mem_iff s := by
    rw [h.count, h.enabled]
    exact hjoins.mem_iff s
  hasReader s hs := by
    rw [h.hasReader]
    exact hjoins.hasReader s hs

/-- The seek that follows starts from the least of all times, pending ones included. -/
theorem Requested.minSeekPosition (h : Requested r qs w) (hjoins : Joins r order)
    (hqs : Complete r order qs) (hne : order ≠ []) :
    ∃ m, StreamReader.minSeekPosition w.infos (List.range w.streamCount) avNoPtsValue = .ok m ∧
      IsLeast {t | (∃ s ∈ order, t = (r.infos s).seekTime ∧ t ≠ avNoPtsValue) ∨
        ∃ q ∈ qs, q.time = t} m := by
  have hmem : ∀ i, (i ∈ (List.range w.streamCount).filter fun i => (w.infos i).isStreamEnabled) ↔
      i ∈ order := by
    intro i
    rw [(h.joins hjoins).mem_iff i]
    simp
  refine ⟨_, minSeekPosition_eq_foldl ?_ _, ?_⟩
  · intro i hi henabled
    exact h.known hjoins hqs ((hmem i).mp (by simp_all))
  · have hleast := isLeast_foldl_of_unknown
      (((List.range w.streamCount).filter fun i => (w.infos i).isStreamEnabled).map
        fun i => (w.infos i).seekTime) ?_ ?_
    · obtain ⟨hm, hle⟩ := hleast
      have hbelow : ∀ s ∈ order, _ ≤ (w.infos s).seekTime := fun s hs =>
        hle (List.mem_map.mpr ⟨s, (hmem s).mpr hs, rfl⟩)
      constructor
      · obtain ⟨i, hi, heq⟩ := List.mem_map.mp hm
        have hi := (hmem i).mp hi
        rw [← heq]
        rcases (h.isLeast hjoins hqs hi).1 with hold | ⟨q, hq, -, hqt⟩
        · exact .inl ⟨i, hi, hold⟩
        · exact .inr ⟨q, hq, hqt⟩
      · rintro t (⟨s, hs, hold⟩ | ⟨q, hq, rfl⟩)
        · exact Int.le_trans (hbelow s hs) ((h.isLeast hjoins hqs hs).2 (.inl hold))
        · have hs := hqs.stream q hq
          exact Int.le_trans (hbelow _ hs)
            ((h.isLeast hjoins hqs hs).2 (.inr ⟨q, hq, rfl, rfl⟩))
    · obtain ⟨s, rest, rfl⟩ := List.exists_cons_of_ne_nil hne
      have hs := (hmem s).mpr (by simp)
      exact List.ne_nil_of_mem (List.mem_map.mpr ⟨s, hs, rfl⟩)
    · intro t ht
      obtain ⟨i, hi, rfl⟩ := List.mem_map.mp ht
      exact h.known hjoins hqs ((hmem i).mp hi)

/-- Where nothing was pending, the seek starts from the least time requested. -/
theorem Requested.minSeekPosition_of_idle (h : Requested r qs w) (hjoins : Joins r order)
    (hqs : Complete r order qs) (hne : order ≠ [])
    (hidle : ∀ s ∈ order, (r.infos s).seekTime = avNoPtsValue) :
    ∃ m, StreamReader.minSeekPosition w.infos (List.range w.streamCount) avNoPtsValue = .ok m ∧
      IsLeast {t | ∃ q ∈ qs, q.time = t} m := by
  obtain ⟨m, hmin, hleast⟩ := h.minSeekPosition hjoins hqs hne
  refine ⟨m, hmin, ?_, fun t ht => hleast.2 (.inr ht)⟩
  rcases hleast.1 with ⟨s, hs, rfl, hknown⟩ | hq
  · exact absurd (hidle s hs) hknown
  · exact hq

/-- All checkers are streams of the file. -/
theorem Requested.checkers (h : Requested r qs w) (hjoins : Joins r order)
    (hidle : NothingPending r) (hqs : Complete r order qs) {i : StreamId}
    (hi : i < r.streamCount) : ∀ c ∈ (w.infos i).seekResultCheckers, c < r.streamCount := by
  intro c hc
  rw [h.infos i] at hc
  cases henabled : (r.infos i).isStreamEnabled with
  | true =>
    obtain ⟨-, -, -, hcheckers⟩ := StreamInfo.requestedAll_enabled henabled (requestsOf i qs)
    rcases hcheckers c hc with ⟨q, hq, rfl | hc⟩ | hc
    · exact ((hjoins.mem_iff _).mp (hqs.stream q (mem_requestsOf.mp hq).1)).1
    · exact hqs.checker q (mem_requestsOf.mp hq).1 c hc
    · rw [(hidle i hi).2] at hc
      cases hc
  | false =>
    rw [StreamInfo.requestedAll_disabled henabled, (hidle i hi).2] at hc
    cases hc

end Requests

/-! ## The other streams -/

/-- The entry of a stream whose seek is over. -/
def Finished (info : StreamInfo) : Prop :=
  info.seekTime = avNoPtsValue ∧ info.seekResultCheckers = [] ∧ info.seekAlreadyDone = false

/-- The streams that are marked seek without calling the demuxer. -/
theorem recordedDoSeeks_of_done {rest : List StreamId} (hnodup : rest.Nodup)
    {r : StreamReader δ κ} (hrest : ∀ s ∈ rest, (r.streams s).hasReader = true ∧
      s < r.streamCount ∧ (r.infos s).isStreamEnabled = true ∧
      (r.infos s).seekAlreadyDone = true) :
    ∃ r', recordedDoSeeks D rest r = ((.ok (), r'), []) ∧ r'.demuxer = r.demuxer ∧
      (∀ s ∈ rest, Finished (r'.infos s)) ∧ ∀ s, s ∉ rest → r'.infos s = r.infos s := by
  induction rest generalizing r with
  | nil => exact ⟨r, rfl, rfl, by simp, fun _ _ => rfl⟩
  | cons s rest ih =>
    obtain ⟨hnot, hnodup⟩ := List.nodup_cons.mp hnodup
    obtain ⟨hreader, hs, henabled, hdone⟩ := hrest s (by simp)
    have hfirst := recordedDoSeek_of_done (D := D) hreader hs henabled hdone
    generalize hr₁ : (r.setInfo s (r.infos s).resetStateBeforeSeek).setStream s
      { r.streams s with bufferedData := none } = r₁ at hfirst
    have hinfos : ∀ i, i ≠ s → r₁.infos i = r.infos i := by
      intro i hi
      rw [← hr₁]
      simp [setInfo, hi]
    have hown : Finished (r₁.infos s) := by
      rw [← hr₁]
      simp [setInfo, Finished, StreamInfo.resetStateBeforeSeek, StreamInfo.resetStateAfterSeek]
    obtain ⟨r', hlater, hdemuxer, hfinished, hkept⟩ := ih hnodup (r := r₁) fun i hi => by
      have hne : i ≠ s := fun h => hnot (h ▸ hi)
      obtain ⟨hreader, hlt, henabled, hdone⟩ := hrest i (by simp [hi])
      rw [hinfos i hne, ← hr₁]
      exact ⟨by simpa [setInfo, setStream, hne] using hreader, hlt, henabled, hdone⟩
    refine ⟨r', ?_, ?_, fun i hi => ?_, fun i hi => ?_⟩
    · unfold recordedDoSeeks
      rw [Recorded.bind_ok hfirst, hlater]
      rfl
    · rw [hdemuxer, ← hr₁]
      rfl
    · rcases List.mem_cons.mp hi with rfl | hi
      · rw [hkept _ hnot]
        exact hown
      · exact hfinished i hi
    · rw [List.mem_cons, not_or] at hi
      rw [hkept i hi.2, hinfos i hi.1]

/-! ## The whole round -/

theorem passed_start {m : TimestampFF} (hm : 0 ≤ m) : passed m m 0 = m := by
  unfold passed stepsBack maxTimeShift avSecond
  rw [if_pos (by simp [hm])]
  lia

/-- The first of the streams searches from the least time requested, and leaves every entry
marked. -/
theorem Requested.first_seeks {r w : StreamReader δ κ} {qs : List SeekRequest}
    (h : Requested r qs w) (hD : D.Returns r.streamCount) {first : StreamId} {rest : List StreamId}
    (hjoins : Joins r (first :: rest)) (hidle : NothingPending r)
    (hqs : Complete r (first :: rest) qs) {m : TimestampFF} (hm : 0 ≤ m)
    (hmin : StreamReader.minSeekPosition w.infos (List.range w.streamCount) avNoPtsValue = .ok m) :
    ∃ w' events, recordedSeekLoop D m 16 m 0 w = ((.ok (), w'), .search m :: events) ∧
      recordedDoSeek D first w = ((.ok (), afterSearch first w'), .search m :: events) ∧
      SameRequests w w' ∧ ∀ i < w.streamCount, (w'.infos i).seekAlreadyDone = true := by
  have hjoins' := h.joins hjoins
  have hends : EndsWithin 9 0 (m - m) := by
    rw [Int.sub_self]
    exact endsWithin_nine
  obtain ⟨w', events, hloop, hrecord, -⟩ := recordedSeekLoop_returns hD.seek
    (by decide : 9 < 16) hm (Int.le_refl 0) hends (r := w) fun i hi c hc => by
      rw [h.count] at hi
      exact answers_of_returns hD (h.checkers hjoins hidle hqs hi c hc)
  rw [passed_start hm] at hloop hrecord
  have hsame : SameRequests w w' := Recorded.keeps_of_erase (erase_recordedSeekLoop D m 16 m 0)
    ((sameRequests_invariant D w).seekLoop m 16 m 0) hloop (.refl w)
  obtain ⟨hlt, henabled⟩ := (hjoins'.mem_iff first).mp (by simp)
  have hnotDone : (w.infos first).seekAlreadyDone = false := by
    rw [h.infos first]
    have henabled' := h.enabled first ▸ henabled
    exact (StreamInfo.requestedAll_enabled henabled' _).2.2.1
      (hqs.requestsOf_ne_nil (by simp))
  exact ⟨w', events, hloop, recordedDoSeek_of_search (hjoins'.hasReader first (by simp)) hlt
    henabled hnotDone hmin hloop, hsame, hrecord.marked⟩

/-- The other streams find their entries marked and call nothing. -/
theorem Joins.others_done {w w' : StreamReader δ κ} {first : StreamId} {rest : List StreamId}
    (h : Joins w (first :: rest)) (hsame : SameRequests w w')
    (hmarked : ∀ i < w.streamCount, (w'.infos i).seekAlreadyDone = true) :
    ∃ w₂, recordedDoSeeks D rest (afterSearch first w') = ((.ok (), w₂), []) ∧
      w₂.demuxer = (afterSearch first w').demuxer ∧ ∀ s ∈ first :: rest, Finished (w₂.infos s) := by
  obtain ⟨hnot, hnodup⟩ := List.nodup_cons.mp h.nodup
  have hother : ∀ s ∈ rest, (afterSearch first w').infos s =
      (w'.infos s).resetStateAfterSeek := by
    intro s hs
    have hne : s ≠ first := fun h => hnot (h ▸ hs)
    have hs' := ((h.mem_iff s).mp (by simp [hs])).1
    rw [← hsame.count] at hs'
    simp [afterSearch, setInfo, hne, hs']
  have hown : Finished ((afterSearch first w').infos first) := by
    simp [afterSearch, setInfo, Finished, StreamInfo.resetStateBeforeSeek,
      StreamInfo.resetStateAfterSeek]
  obtain ⟨w₂, hlater, hdemuxer, hfinished, hkept⟩ := recordedDoSeeks_of_done (D := D) hnodup
    (r := afterSearch first w') fun s hs => by
      have hne : s ≠ first := fun h => hnot (h ▸ hs)
      obtain ⟨hlt, henabled⟩ := (h.mem_iff s).mp (by simp [hs])
      rw [hother s hs]
      refine ⟨?_, ?_, ?_, ?_⟩
      · have hreader := h.hasReader s (by simp [hs])
        rw [← hsame.hasReader s] at hreader
        simpa [afterSearch, setInfo, setStream, hne] using hreader
      · rw [← hsame.count] at hlt
        exact hlt
      · rw [← hsame.enabled s] at henabled
        exact henabled
      · exact hmarked s hlt
  refine ⟨w₂, hlater, hdemuxer, fun s hs => ?_⟩
  rcases List.mem_cons.mp hs with rfl | hs
  · rw [hkept _ hnot]
    exact hown
  · exact hfinished s hs

/-- The requests `qs` return; the first of the streams then searches the demuxer once, from the least
time requested; the other seeks call nothing, and nothing stays pending. -/
def SeeksJointly (D : IDemuxer δ) (C : CodecOps κ) (r : StreamReader δ κ) (qs : List SeekRequest)
    (first : StreamId) (rest : List StreamId) : Prop :=
  ∃ m w w₁ w₂ events, IsLeast {t | ∃ q ∈ qs, q.time = t} m ∧
    requestSeeks D C qs r = (.ok (), w) ∧
    recordedDoSeek D first w = ((.ok (), w₁), .search m :: events) ∧
    (∃ w', recordedSeekLoop D m 16 m 0 w = ((.ok (), w'), .search m :: events)) ∧
    recordedDoSeeks D rest w₁ = ((.ok (), w₂), []) ∧ w₂.demuxer = w₁.demuxer ∧
    ∀ s ∈ first :: rest, Finished (w₂.infos s)

/-- Video streams that each request times and then each seek once do so jointly. -/
theorem seeksJointly_of_video {r : StreamReader δ κ} (hD : D.Returns r.streamCount)
    {first : StreamId} {rest : List StreamId} (hjoins : Joins r (first :: rest))
    (hidle : NothingPending r) {qs : List SeekRequest} (hqs : Complete r (first :: rest) qs)
    (hvideo : ∀ s ∈ first :: rest, D.streamType s = .video) :
    SeeksJointly D C r qs first rest := by
  obtain ⟨w, hw, hreq⟩ := requestSeeks_returns (D := D) (C := C) qs
    (fun q hq => hjoins.hasReader _ (hqs.stream q hq)) fun q hq => hvideo _ (hqs.stream q hq)
  obtain ⟨m, hmin, hleast⟩ := hreq.minSeekPosition_of_idle hjoins hqs (by simp) fun s hs =>
    (hidle s ((hjoins.mem_iff s).mp hs).1).1
  have hm : 0 ≤ m := by
    obtain ⟨q, hq, rfl⟩ := hleast.1
    exact hqs.time q hq
  obtain ⟨w', events, hloop, hseek, hsame, hmarked⟩ := hreq.first_seeks hD hjoins hidle hqs hm hmin
  obtain ⟨w₂, hlater, hdemuxer, hfinished⟩ :=
    (hreq.joins hjoins).others_done (D := D) hsame hmarked
  exact ⟨m, w, _, w₂, events, hleast, hw, hseek, ⟨w', hloop⟩, hlater, hdemuxer, hfinished⟩

/-- When every enabled stream requests times and each then seeks once, they seek jointly exactly
when all of them are video streams: a request of any other one flushes a decoder that it lacks. -/
theorem seeks_jointly_iff {r : StreamReader δ κ} (hD : D.Returns r.streamCount) {first : StreamId}
    {rest : List StreamId} (hjoins : Joins r (first :: rest)) (hidle : NothingPending r)
    {qs : List SeekRequest} (hqs : Complete r (first :: rest) qs) :
    SeeksJointly D C r qs first rest ↔ ∀ s ∈ first :: rest, D.streamType s = .video := by
  constructor
  · rintro ⟨m, w, w₁, w₂, events, -, hw, -⟩ s hs
    obtain ⟨q, hq, rfl⟩ := hqs.covers s hs
    exact video_of_requestSeeks hw q hq
  · exact seeksJointly_of_video hD hjoins hidle hqs

/-! ### Two streams of one file -/

/-- A file with two streams of type `type 0` and `type 1` that is rewound by every seek. -/
def twinParser (type : StreamId → MediaType) : ParserOps Unit where
  streamCount := 2
  streamType := type
  streamDuration := fun _ => 80
  seekStream := 1
  seek := fun _ _ _ _ => (true, DemuxerPeriod.crowdedFile, ())

/-- Both streams are enabled. -/
def twinStreams (type : StreamId → MediaType) :
    StreamReader (DemuxerQueue Unit) (List DataPacket) where
  demuxer :=
    { DemuxerQueue.create (twinParser type) DemuxerPeriod.crowdedFile () with
      queues := fun i => (PacketQueue.create (type i)).setEnabled true }
  streamCount := 2
  infos := fun i => ⟨i < 2, avNoPtsValue, [], false⟩
  streams := fun _ => DemuxedStream.create (DecoderVideo.create [])

/-- The first stream requests two times, the first one checked by the second stream as well. -/
def twinRequests : List SeekRequest := [⟨0, 60, some 1⟩, ⟨1, 20, none⟩, ⟨0, 40, none⟩]

/-- The parser of the two streams returns. -/
theorem twinParser_returns {type : StreamId → MediaType}
    (htype : ∀ i, type i = .audio ∨ type i = .video) :
    (DemuxerQueue.toIDemuxer (twinParser type)).Returns 2 :=
  DemuxerQueue.returns_of_rewinds
    { count := (by decide : 1 < 2)
      type := fun i _ => htype i
      zero := fun _ _ _ => rfl }

/-- The second stream seeks first. -/
theorem twinStreams_joins (type : StreamId → MediaType) : Joins (twinStreams type) [1, 0] where
  nodup := by decide
  mem_iff s := by
    constructor
    · intro hs
      have hlt : s < 2 := by
        simp only [List.mem_cons, List.not_mem_nil, or_false] at hs
        rcases hs with rfl | rfl <;> decide
      exact ⟨hlt, decide_eq_true hlt⟩
    · rintro ⟨hs, -⟩
      rcases Nat.le_one_iff_eq_zero_or_eq_one.mp (Nat.lt_succ_iff.mp hs) with rfl | rfl <;> simp
  hasReader := fun _ _ => rfl

/-- Both streams made a request. -/
theorem twinRequests_complete (type : StreamId → MediaType) :
    Complete (twinStreams type) [1, 0] twinRequests where
  stream := by decide
  covers := by decide
  time := by decide
  checker := by
    intro q hq c hc
    have hall : ∀ q ∈ twinRequests, ∀ c ∈ q.resultChecker, c < 2 := by decide
    exact hall q hq c hc

/-- Two video streams seek together. -/
theorem seeks_jointly_iff_twin :
    SeeksJointly (DemuxerQueue.toIDemuxer (twinParser fun _ => .video)) (fifoCodec 0 (25, 1))
      (twinStreams fun _ => .video) twinRequests 1 [0] ↔
      ∀ s ∈ [1, 0], (DemuxerQueue.toIDemuxer (twinParser fun _ => .video)).streamType s = .video :=
  seeks_jointly_iff (twinParser_returns fun _ => .inr rfl) (twinStreams_joins _)
    (fun _ _ => ⟨rfl, rfl⟩) (twinRequests_complete _)

/-- In a file with an audio stream and a video stream the request of the audio stream crashes. -/
theorem audio_request_crashes :
    ¬SeeksJointly
      (DemuxerQueue.toIDemuxer (twinParser fun i => if i = 0 then .audio else .video))
      (fifoCodec 0 (25, 1)) (twinStreams fun i => if i = 0 then .audio else .video) twinRequests
      1 [0] := by
  rintro ⟨m, w, w₁, w₂, events, -, hw, -⟩
  have haudio := video_of_requestSeeks hw ⟨0, 60, some 1⟩ (by decide)
  exact absurd haudio (by decide)

end Seekira.Model.StreamReader
