import Seekira.Analysis.DemuxerKept
import Seekira.Analysis.SeekRecorded

/-!
# The rounds of a search

A round passes a position to the demuxer, and the lower of it and the answer is the
position tried.  The next round steps further back: by 1, 2, 4, 8 and then 16 seconds,
and once the search went a minute back, to zero.  The demuxer's answer only brings zero
closer, so nine rounds are enough from every position.
-/

set_option autoImplicit false

namespace Seekira.Model.StreamReader

open Library SeekEvent

variable {δ κ : Type} {D : IDemuxer δ}

/-- The next step back after one of `shift`. -/
def nextShift (shift : TimeFF) : TimeFF :=
  if shift < maxStep then (if shift ≠ 0 then shift * 2 else avSecond) else shift

/-- Steps back from `shift` on, of a search that went back by `gap`, reach zero in `n` rounds. -/
def EndsWithin : Nat → TimeFF → TimeFF → Prop
  | 0, _, _ => False
  | n + 1, shift, gap => maxTimeShift ≤ gap ∨ EndsWithin n (nextShift shift) (gap + shift)

/-- A search that went back further ends no later. -/
theorem EndsWithin.mono {n : Nat} {shift gap gap' : TimeFF} (h : EndsWithin n shift gap)
    (hgap : gap ≤ gap') : EndsWithin n shift gap' := by
  induction n generalizing shift gap gap' with
  | zero => exact h
  | succ n ih =>
    rcases h with h | h
    · exact .inl (Int.le_trans h hgap)
    · exact .inr (ih h (Int.add_le_add_right hgap shift))

theorem endsWithin_nine : EndsWithin 9 0 0 := by
  simp only [EndsWithin, nextShift, maxStep, maxTimeShift, avSecond]
  decide

theorem nextShift_pos {shift : TimeFF} (h : 0 ≤ shift) : 0 < nextShift shift := by
  unfold nextShift maxStep avSecond
  split
  · split <;> lia
  · lia

/-- The last round of a search: it accepted, zero was tried, or the demuxer answered from below
zero. -/
structure LastRound (D : IDemuxer δ) (r : StreamReader δ κ) (q : TimestampFF)
    (checks : List SeekEvent) : Prop where
  onlyChecks : OnlyChecks checks
  stops : (AllAccept checks ∧ ∀ i < r.streamCount, ∀ c ∈ (r.infos i).seekResultCheckers,
      AcceptedBy c checks) ∨
    q = 0 ∨ q < 0 ∧ ∃ x d d', 0 ≤ x ∧ D.seek x d = (.ok q, d')

/-- What a search from `r` lists and leaves behind. -/
structure SearchRecord (D : IDemuxer δ) (r r' : StreamReader δ κ) (events : List SeekEvent) :
    Prop where
  decreasing : (searches events).Pairwise (· > ·)
  last : ∃ front q checks, events = front ++ .tried q :: checks ∧ LastRound D r q checks
  marked : ∀ i < r.streamCount, (r'.infos i).seekAlreadyDone = true

/-! ## One round -/

/-- The round steps back; otherwise it goes to zero. -/
def stepsBack (start pos : TimestampFF) (shift : TimeFF) : Bool :=
  decide (pos ≥ shift) && decide (start - pos < maxTimeShift)

/-- The position that a round passes to the demuxer. -/
def passed (start pos : TimestampFF) (shift : TimeFF) : TimestampFF :=
  if stepsBack start pos shift then pos - shift else 0

/-- The step back of the round after it. -/
def shiftAfter (start pos : TimestampFF) (shift : TimeFF) : TimeFF :=
  if stepsBack start pos shift && decide (shift < maxStep) then
    (if shift ≠ 0 then shift * 2 else avSecond)
  else shift

/-- The lower of the position passed and the answer. -/
def lowered (answer pos : TimestampFF) : TimestampFF := if answer < pos then answer else pos

/-- No position before zero is passed on. -/
theorem passed_nonneg {start pos : TimestampFF} {shift : TimeFF} : 0 ≤ passed start pos shift := by
  unfold passed stepsBack
  split
  · rename_i h
    simp only [Bool.and_eq_true, decide_eq_true_eq] at h
    lia
  · exact Int.le_refl 0

theorem passed_lt (start : TimestampFF) {pos : TimestampFF} {shift : TimeFF} (hpos : 0 < pos) (hshift : 0 < shift) :
    passed start pos shift < pos := by
  unfold passed
  split <;> lia

theorem lowered_le (answer pos : TimestampFF) : lowered answer pos ≤ pos := by
  unfold lowered
  split <;> lia

/-- The first round of the loop, and the others. -/
theorem recordedSeekLoop_eq (start pos : TimestampFF) (shift : TimeFF) (fuel : Nat) :
    (recordedSeekLoop D start (fuel + 1) pos shift :
      Recorded Fault SeekEvent (StreamReader δ κ) Unit) =
      if pos < 0 then pure () else (do
        .note (.search (passed start pos shift))
        let answer ← .lift (onDemuxer (D.seek (passed start pos shift)))
        .note (.tried (lowered answer (passed start pos shift)))
        let r ← .lift Proc.get
        let result ← recordedSeekResults D (lowered answer (passed start pos shift))
          (List.range r.streamCount)
        if result || lowered answer (passed start pos shift) = 0 then
          return ()
        recordedSeekLoop D start fuel (lowered answer (passed start pos shift))
          (shiftAfter start pos shift)) := rfl

/-- One round of the search, whose demuxer and streams return. -/
theorem recordedSeekLoop_succ {start pos answer : TimestampFF} {shift : TimeFF} (fuel : Nat)
    (hpos : 0 ≤ pos) {r r₂ : StreamReader δ κ} {d : δ} {result : Bool} {checks : List SeekEvent}
    (hseek : D.seek (passed start pos shift) r.demuxer = (.ok answer, d))
    (hres : recordedSeekResults D (lowered answer (passed start pos shift))
      (List.range r.streamCount) { r with demuxer := d } = ((.ok result, r₂), checks)) :
    recordedSeekLoop D start (fuel + 1) pos shift r =
      if result || lowered answer (passed start pos shift) = 0 then
        ((.ok (), r₂), .search (passed start pos shift) ::
          .tried (lowered answer (passed start pos shift)) :: checks)
      else
        ((recordedSeekLoop D start fuel (lowered answer (passed start pos shift))
            (shiftAfter start pos shift) r₂).1,
          .search (passed start pos shift) :: .tried (lowered answer (passed start pos shift)) ::
            (checks ++ (recordedSeekLoop D start fuel (lowered answer (passed start pos shift))
              (shiftAfter start pos shift) r₂).2)) := by
  have honDemuxer : onDemuxer (D.seek (passed start pos shift)) r =
      (.ok answer, { r with demuxer := d }) := by
    simp [onDemuxer, hseek]
  rw [recordedSeekLoop_eq, if_neg (Int.not_lt.mpr hpos), Recorded.note_bind_apply,
    Recorded.lift_bind_ok honDemuxer, Recorded.note_bind_apply, Recorded.lift_get_bind_apply,
    Recorded.bind_ok hres]
  by_cases hstop : (result || lowered answer (passed start pos shift) = 0) = true
  · rw [if_pos hstop, if_pos hstop, Recorded.pure_apply, List.append_nil]
  · rw [if_neg hstop, if_neg hstop]

/-- A search that was left below zero ends. -/
theorem recordedSeekLoop_neg {start pos : TimestampFF} (shift : TimeFF) {fuel : Nat}
    (hfuel : 0 < fuel) (hpos : pos < 0) (r : StreamReader δ κ) :
    recordedSeekLoop D start fuel pos shift r = ((.ok (), r), []) := by
  obtain ⟨fuel, rfl⟩ : ∃ m, fuel = m + 1 := ⟨fuel - 1, by omega⟩
  unfold recordedSeekLoop
  rw [if_pos hpos]
  rfl

/-! ## All rounds -/

/-- A round more at the front of the record. -/
theorem SearchRecord.cons {r r₂ r' : StreamReader δ κ} {p q next : TimestampFF}
    {checks rest : List SeekEvent} (h : SearchRecord D r₂ r' (.search next :: rest))
    (hsame : SameRequests r r₂) (hchecks : OnlyChecks checks) (hnext : next < p) :
    SearchRecord D r r' (.search p :: .tried q :: (checks ++ .search next :: rest)) where
  decreasing := by
    have hdecreasing := h.decreasing
    rw [searches_search] at hdecreasing
    rw [searches_search, searches_tried, searches_append, hchecks.searches_eq_nil, List.nil_append,
      searches_search, List.pairwise_cons]
    refine ⟨fun x hx => ?_, hdecreasing⟩
    rcases List.mem_cons.mp hx with rfl | hx
    · exact hnext
    · have hlt := (List.pairwise_cons.mp hdecreasing).1 x hx
      exact Int.lt_trans hlt hnext
  last := by
    obtain ⟨front, q', checks', heq, hlast⟩ := h.last
    refine ⟨.search p :: .tried q :: (checks ++ front), q', checks', ?_, hlast.onlyChecks, ?_⟩
    · rw [heq]
      simp
    · rcases hlast.stops with ⟨hall, hby⟩ | hzero
      · left
        refine ⟨hall, fun i hi c hc => hby i ?_ c ?_⟩
        · rw [hsame.count]
          exact hi
        · rw [hsame.checkers i]
          exact hc
      · exact .inr hzero
  marked := by
    intro i hi
    rw [← hsame.count] at hi
    exact h.marked i hi

/-- The record of a search whose first round is the last one. -/
theorem searchRecord_of_last {r r₂ : StreamReader δ κ} {start pos answer : TimestampFF}
    {shift : TimeFF} {d d' : δ} {result : Bool} {checks : List SeekEvent}
    (hseek : D.seek (passed start pos shift) d = (.ok answer, d'))
    (hout : Outcome (fun c => ∃ i ∈ List.range r.streamCount,
      c ∈ (r.infos i).seekResultCheckers) result checks)
    (hmarked : result = true ∨ lowered answer (passed start pos shift) ≤ 0 →
      ∀ i ∈ List.range r.streamCount, (r₂.infos i).seekAlreadyDone = true)
    (hstops : result = true ∨ lowered answer (passed start pos shift) = 0 ∨
      lowered answer (passed start pos shift) < 0) :
    SearchRecord D r r₂ (.search (passed start pos shift) ::
      .tried (lowered answer (passed start pos shift)) :: checks) := by
  refine ⟨?_, ⟨[.search _], _, checks, rfl, hout.onlyChecks, ?_⟩, fun i hi => hmarked ?_ i ?_⟩
  · rw [searches_search, searches_tried, hout.onlyChecks.searches_eq_nil]
    exact List.pairwise_singleton _ _
  · rcases hstops with hresult | hzero | hneg
    · obtain ⟨hall, hby⟩ := hout.accepted hresult
      exact .inl ⟨hall, fun i hi c hcheck => hby c ⟨i, List.mem_range.mpr hi, hcheck⟩⟩
    · exact .inr (.inl hzero)
    · have hanswer : lowered answer (passed start pos shift) = answer := by
        unfold lowered at hneg ⊢
        split
        · rfl
        · rename_i hge
          rw [if_neg hge] at hneg
          exact absurd hneg (Int.not_lt.mpr passed_nonneg)
      rw [← hanswer] at hseek
      exact .inr (.inr ⟨hneg, _, _, _, passed_nonneg, hseek⟩)
  · rcases hstops with hresult | hzero | hneg
    · exact .inl hresult
    · exact .inr (Int.le_of_eq hzero)
    · exact .inr (Int.le_of_lt hneg)
  · exact List.mem_range.mpr hi

/-- A round that tried a position above zero stepped back, and the rest of the search ends one
round earlier. -/
theorem round_above_zero {n : Nat} {start pos answer : TimestampFF} {shift : TimeFF}
    (htried : 0 < lowered answer (passed start pos shift))
    (hends : EndsWithin (n + 1) shift (start - pos)) :
    shiftAfter start pos shift = nextShift shift ∧
      EndsWithin n (nextShift shift) (start - lowered answer (passed start pos shift)) := by
  have hle := lowered_le answer (passed start pos shift)
  have hback : stepsBack start pos shift = true := by
    by_contra hnot
    unfold passed at hle
    rw [if_neg hnot] at hle
    unfold passed at htried
    rw [if_neg hnot] at htried
    exact absurd htried (Int.not_lt.mpr hle)
  have hpassed : passed start pos shift = pos - shift := by
    unfold passed
    rw [if_pos hback]
  refine ⟨?_, ?_⟩
  · unfold shiftAfter nextShift
    simp [hback]
  · rcases hends with hgap | hends
    · unfold stepsBack at hback
      simp only [Bool.and_eq_true, decide_eq_true_eq] at hback
      exact absurd hback.2 (Int.not_lt.mpr hgap)
    · apply hends.mono
      lia

/-- With enough fuel for its rounds the loop returns. -/
theorem recordedSeekLoop_returns {n fuel : Nat} {start pos : TimestampFF} {shift : TimeFF}
    (hD : ∀ x, 0 ≤ x → ∀ d, ∃ a d', D.seek x d = (.ok a, d')) (hfuel : n < fuel) (hpos : 0 ≤ pos)
    (hshift : 0 ≤ shift) (hends : EndsWithin n shift (start - pos)) {r : StreamReader δ κ}
    (hc : ∀ i < r.streamCount, ∀ c ∈ (r.infos i).seekResultCheckers, Answers D κ c) :
    ∃ r' rest, recordedSeekLoop D start fuel pos shift r =
        ((.ok (), r'), .search (passed start pos shift) :: rest) ∧
      SearchRecord D r r' (.search (passed start pos shift) :: rest) ∧
      (searches rest).length < n := by
  induction n generalizing fuel pos shift r with
  | zero => exact hends.elim
  | succ n ih =>
    obtain ⟨fuel, rfl⟩ : ∃ m, fuel = m + 1 := ⟨fuel - 1, by omega⟩
    obtain ⟨answer, d, hseek⟩ := hD (passed start pos shift) passed_nonneg r.demuxer
    have hle := lowered_le answer (passed start pos shift)
    have hsame : SameRequests r { r with demuxer := d } :=
      ⟨rfl, fun _ => rfl, fun _ => rfl, fun _ => rfl, fun _ => rfl⟩
    obtain ⟨result, r₂, checks, hres, hout, hmarked⟩ := recordedSeekResults_returns D
      (lowered answer (passed start pos shift)) (List.range r.streamCount)
      (r := { r with demuxer := d }) fun i hi => hc i (List.mem_range.mp hi)
    have hsame₂ : SameRequests r r₂ := Recorded.keeps_of_erase (erase_recordedSeekResults D _ _)
      ((sameRequests_invariant D r).seekResults _ _) hres hsame
    have hstep := recordedSeekLoop_succ fuel hpos hseek hres
    have hlast := searchRecord_of_last (r := r) hseek hout hmarked
    have hnone : (searches (.tried (lowered answer (passed start pos shift)) :: checks)).length <
        n + 1 := by
      rw [searches_tried, hout.onlyChecks.searches_eq_nil]
      exact Nat.succ_pos n
    by_cases hstop : (result || lowered answer (passed start pos shift) = 0) = true
    · rw [if_pos hstop] at hstep
      refine ⟨r₂, _, hstep, hlast ?_, hnone⟩
      rw [Bool.or_eq_true, decide_eq_true_eq] at hstop
      rcases hstop with hresult | hzero
      · exact .inl hresult
      · exact .inr (.inl hzero)
    · rw [if_neg hstop] at hstep
      simp only [Bool.or_eq_true, decide_eq_true_eq, not_or] at hstop
      rcases Int.lt_or_lt_of_ne hstop.2 with hneg | htried
      · rw [recordedSeekLoop_neg _ (Nat.lt_of_le_of_lt (Nat.zero_le n) (by omega)) hneg] at hstep
        rw [List.append_nil] at hstep
        exact ⟨r₂, _, hstep, hlast (.inr (.inr hneg)), hnone⟩
      · obtain ⟨hshift', hends'⟩ := round_above_zero htried hends
        have hpos' := nextShift_pos hshift
        rw [hshift'] at hstep
        have hc' : ∀ i < r₂.streamCount, ∀ c ∈ (r₂.infos i).seekResultCheckers,
            Answers D κ c := by
          intro i hi c hcheck
          rw [hsame₂.count] at hi
          rw [hsame₂.checkers i] at hcheck
          exact hc i hi c hcheck
        obtain ⟨r', rest, hloop, hrecord, hlen⟩ :=
          ih (Nat.lt_of_succ_lt_succ hfuel) (Int.le_of_lt htried) (Int.le_of_lt hpos') hends' hc'
        rw [hloop] at hstep
        refine ⟨r', _, hstep, ?_, ?_⟩
        · have hnext := passed_lt start htried hpos'
          exact hrecord.cons hsame₂ hout.onlyChecks (Int.lt_of_lt_of_le hnext hle)
        · rw [searches_tried, searches_append, hout.onlyChecks.searches_eq_nil, List.nil_append,
            searches_search]
          exact Nat.succ_lt_succ hlen

/-- A search from `p` over a demuxer that answers `seek x` with a value between zero and `x` ends
after at most nine seeks at ever lower positions; after the last one every checker of every
stream accepted, or zero was tried. -/
theorem seekLoop_within_nine
    (hD : ∀ x, 0 ≤ x → ∀ d, ∃ a d', D.seek x d = (.ok a, d') ∧ 0 ≤ a ∧ a ≤ x)
    {p : TimestampFF} (hp : 0 ≤ p) {r : StreamReader δ κ}
    (hc : ∀ i < r.streamCount, ∀ c ∈ (r.infos i).seekResultCheckers, Answers D κ c) :
    ∃ r' events, recordedSeekLoop D p 16 p 0 r = ((.ok (), r'), events) ∧
      seekLoop D p 16 p 0 r = (.ok (), r') ∧
      (searches events).length ≤ 9 ∧ (searches events).Pairwise (· > ·) ∧
      ∃ front q checks, events = front ++ .tried q :: checks ∧ OnlyChecks checks ∧
        ((AllAccept checks ∧ ∀ i < r.streamCount, ∀ c ∈ (r.infos i).seekResultCheckers,
            AcceptedBy c checks) ∨ q = 0) := by
  have hreturns : ∀ x, 0 ≤ x → ∀ d, ∃ a d', D.seek x d = (.ok a, d') := by
    intro x hx d
    obtain ⟨a, d', hseek, -, -⟩ := hD x hx d
    exact ⟨a, d', hseek⟩
  have hends : EndsWithin 9 0 (p - p) := by
    rw [Int.sub_self]
    exact endsWithin_nine
  obtain ⟨r', rest, hloop, hrecord, hlen⟩ := recordedSeekLoop_returns hreturns
    (by decide : 9 < 16) hp (Int.le_refl 0) hends hc
  refine ⟨r', _, hloop, Recorded.run_of_erase (erase_recordedSeekLoop D p 16 p 0) hloop, ?_,
    hrecord.decreasing, ?_⟩
  · rw [searches_search]
    exact hlen
  · obtain ⟨front, q, checks, heq, hlast⟩ := hrecord.last
    refine ⟨front, q, checks, heq, hlast.onlyChecks, ?_⟩
    rcases hlast.stops with hall | hzero | ⟨hneg, x, d, d', hx, hanswer⟩
    · exact .inl hall
    · exact .inr hzero
    · obtain ⟨a, d'', hseek, ha, -⟩ := hD x hx d
      rw [hanswer] at hseek
      cases hseek
      exact absurd hneg (Int.not_lt.mpr ha)

/-- A request for the time of the third packet of a file with two key packets. -/
def twoKeysStreams : StreamReader (DemuxerQueue Unit) (List DataPacket) :=
  (StreamReader.opened (fileParser DemuxerPeriod.twoKeysFile 160) DemuxerPeriod.twoKeysFile () 0
    []).setInfo 0 ⟨true, 100, [0], false⟩

/-- A search in a file with two key packets. -/
theorem seekLoop_within_nine_two_keys :
    ∃ r' events, recordedSeekLoop (DemuxerQueue.toIDemuxer
          (fileParser DemuxerPeriod.twoKeysFile 160)) 100 16 100 0 twoKeysStreams =
        ((.ok (), r'), events) ∧
      seekLoop (DemuxerQueue.toIDemuxer (fileParser DemuxerPeriod.twoKeysFile 160)) 100 16 100 0
        twoKeysStreams = (.ok (), r') ∧
      (searches events).length ≤ 9 ∧ (searches events).Pairwise (· > ·) ∧
      ∃ front q checks, events = front ++ .tried q :: checks ∧ OnlyChecks checks ∧
        ((AllAccept checks ∧ ∀ i < twoKeysStreams.streamCount,
          ∀ c ∈ (twoKeysStreams.infos i).seekResultCheckers, AcceptedBy c checks) ∨ q = 0) := by
  have hrewinds := fileParser_rewinds DemuxerPeriod.twoKeysFile 160
  apply seekLoop_within_nine (fun x hx d => DemuxerQueue.seek_answers hrewinds hx d) (by decide)
  intro i hi c hcheck
  obtain rfl : i = 0 := Nat.lt_one_iff.mp hi
  obtain rfl : c = 0 := List.mem_singleton.mp hcheck
  exact answers_of_returns (DemuxerQueue.returns_of_rewinds hrewinds) (Nat.lt_one_iff.mpr rfl)

end Seekira.Model.StreamReader
