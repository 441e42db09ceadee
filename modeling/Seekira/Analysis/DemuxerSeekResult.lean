import Seekira.Analysis.DemuxerKept
import Seekira.Analysis.DemuxerSettings

/-!
# Where a seek of the demuxer ends

`seek` tries the wanted time and then earlier ones, and stops when the queues stand at
or before the wanted time or when zero was tried.  Whatever the parser answers, a time
above zero is returned only after the test of all queues, which is the last thing that
`seek_internal` does before it reports success.
-/

set_option autoImplicit false

namespace Seekira.Model

open Library

/-- A queue with a known position holds a packet. -/
theorem PacketQueue.list_ne_nil_of_position {q : PacketQueue} (h : q.position ≠ avNoPtsValue) :
    q.list ≠ [] := by
  intro hnil
  unfold PacketQueue.position at h
  rw [hnil] at h
  simp at h

namespace DemuxerQueue

variable {π : Type} {P : ParserOps π}

/-- The loop over the streams succeeds only with every queue at or before the seek time. -/
theorem seekIsDone_of_seekStep {time : TimestampFF} {idx : StreamId} {g g' : SeekProgress}
    {d d' : DemuxerQueue π} (h : seekStep P time idx g d = (true, g', d')) :
    d'.seekIsDone P = true := by
  unfold seekStep at h
  dsimp only at h
  split at h
  · cases h
  · split at h
    · cases h
    · split at h
      all_goals
        split at h
        · obtain ⟨hdone, -, rfl⟩ := by simpa using h
          exact hdone
        · cases h

/-- When the streams report success the seek is done. -/
theorem seekIsDone_of_seekStreams {time : TimestampFF} {indices : List StreamId}
    {g g' : SeekProgress} {d d' : DemuxerQueue π}
    (h : seekStreams P time indices g d = (true, g', d')) : d'.seekIsDone P = true := by
  induction indices generalizing g d with
  | nil => cases h
  | cons idx indices ih =>
    unfold seekStreams at h
    rcases hstep : seekStep P time idx g d with ⟨_ | _, g₁, d₁⟩
    · rw [hstep] at h
      exact ih h
    · rw [hstep] at h
      cases h
      exact seekIsDone_of_seekStep hstep

/-- How `seek_internal` can end: it throws, it succeeds, or another time is to be tried. -/
theorem seekInternal_cases (P : ParserOps π) (time : TimestampFF) (d : DemuxerQueue π) :
    (∃ what d', seekInternal P time d = (.error (.thrown what), d')) ∨
      ∃ res d', seekInternal P time d = (.ok res, d') ∧
        (0 < time → res = true → d'.seekIsDone P = true) := by
  unfold seekInternal
  dsimp only
  generalize (if time > 0 then [P.seekStream] else streams P) = indices
  rcases hres : seekStreams P time indices ⟨fun _ => avNoPtsValue, none, 0⟩ d with ⟨done, g, d'⟩
  cases done with
  | true => exact .inr ⟨true, d', rfl, fun _ _ => seekIsDone_of_seekStreams hres⟩
  | false =>
    dsimp only
    split
    · exact .inl ⟨_, _, rfl⟩
    · split
      · -- zero was tried
        rename_i hzero
        split
        · split
          · exact .inr ⟨_, _, rfl, fun hpos => absurd hpos (by lia)⟩
          · exact .inl ⟨_, _, rfl⟩
        · exact .inr ⟨_, _, rfl, fun hpos => absurd hpos (by lia)⟩
      · exact .inr ⟨_, _, rfl, nofun⟩

/-- The search ends after at most as many rounds as there are microseconds up to `time`. -/
theorem seekLoop_cases {fuel : Nat} {time : TimestampFF} {step : TimeFF} (htime : 0 ≤ time)
    (hfuel : time.toNat < fuel) (hstep : 0 < step) (d : DemuxerQueue π) :
    (∃ what d', seekLoop P fuel time step d = (.error (.thrown what), d')) ∨
      ∃ r d', seekLoop P fuel time step d = (.ok r, d') ∧ 0 ≤ r ∧ r ≤ time ∧
        (0 < r → d'.seekIsDone P = true) := by
  induction fuel generalizing time step d with
  | zero => lia
  | succ fuel ih =>
    unfold seekLoop
    rw [if_neg (Int.not_lt.mpr htime)]
    rcases seekInternal_cases P time d with ⟨what, d', hthrow⟩ | ⟨res, d', hret, hdone⟩
    · rw [Proc.bind_error hthrow]
      exact .inl ⟨what, d', rfl⟩
    · rw [Proc.bind_ok hret]
      by_cases hstop : (res || time = 0) = true
      · rw [if_pos hstop]
        refine .inr ⟨time, d', rfl, htime, Int.le_refl _, fun hpos => hdone hpos ?_⟩
        have hne : time ≠ 0 := by lia
        simpa [hne] using hstop
      · rw [if_neg hstop]
        have hne : time ≠ 0 := by
          rintro rfl
          simp at hstop
        by_cases hlt : time < step
        · rw [if_pos hlt]
          have hdouble : 0 < step * 2 := by lia
          rcases ih (Int.le_refl 0) (by lia) hdouble d' with
            hthrow | ⟨r, d'', hr, hr₀, hrt, hrd⟩
          · exact .inl hthrow
          · exact .inr ⟨r, d'', hr, hr₀, by lia, hrd⟩
        · rw [if_neg hlt]
          have hdouble : 0 < step * 2 := by lia
          have hback : 0 ≤ time - step := by lia
          rcases ih hback (by lia) hdouble d' with
            hthrow | ⟨r, d'', hr, hr₀, hrt, hrd⟩
          · exact .inl hthrow
          · exact .inr ⟨r, d'', hr, hr₀, by lia, hrd⟩

/-- Every enabled audio or video stream stands at or before the seek time. -/
theorem position_of_seekIsDone {d : DemuxerQueue π} (h : d.seekIsDone P = true) {i : StreamId}
    (hi : i < P.streamCount) (henabled : (d.queues i).enabled = true)
    (htype : P.streamType i = .audio ∨ P.streamType i = .video) :
    (d.queues i).position ≠ avNoPtsValue ∧ (d.queues i).position ≤ d.seekTime := by
  unfold seekIsDone streams at h
  rw [List.all_eq_true] at h
  have hqueue := h i (List.mem_range.mpr hi)
  simpa [henabled, htype] using hqueue

/-- A seek to `t` that does not throw returns a time between zero and `t`; if the time is above
zero, the queues of the enabled audio and video streams hold packets and stand at or before `t`. -/
theorem seek_returns (P : ParserOps π) (d : DemuxerQueue π) {t : TimestampFF} (ht : 0 ≤ t)
    (hthrow : ∀ what d', seek P t d ≠ (.error (.thrown what), d')) :
    ∃ r d', seek P t d = (.ok r, d') ∧ 0 ≤ r ∧ r ≤ t ∧
      (0 < r → ∀ i < P.streamCount, (d.queues i).enabled = true →
        (P.streamType i = .audio ∨ P.streamType i = .video) →
        (d'.queues i).list ≠ [] ∧ (d'.queues i).position ≠ avNoPtsValue ∧
          (d'.queues i).position ≤ t) := by
  have hseek : seek P t d =
      seekLoop P (t.toNat + 1) t (avSecond * 4) { d with seekTime := max 0 t } := rfl
  rcases seekLoop_cases (P := P) ht (Nat.lt_succ_self _) (by decide : 0 < avSecond * 4)
    { d with seekTime := max 0 t } with ⟨what, d', h⟩ | ⟨r, d', h, hr₀, hrt, hdone⟩
  · exact absurd (hseek.trans h) (hthrow what d')
  · refine ⟨r, d', hseek.trans h, hr₀, hrt, fun hpos i hi henabled htype => ?_⟩
    have hsettings := settings_seek (P := P) t d.settings_self
    rw [hseek.trans h] at hsettings
    obtain ⟨hknown, hle⟩ := position_of_seekIsDone (hdone hpos) hi
      ((hsettings.enabled i).trans henabled) htype
    refine ⟨PacketQueue.list_ne_nil_of_position hknown, hknown, ?_⟩
    rw [hsettings.seekTime, Int.max_eq_right ht] at hle
    exact hle

/-- A seek past the second key packet of a file returns its time. -/
theorem seek_returns_two_keys :
    ∃ r d', seek (fileParser DemuxerPeriod.twoKeysFile 160) 100 DemuxerPeriod.twoKeysDemuxer =
        (.ok r, d') ∧ 0 ≤ r ∧ r ≤ 100 ∧
      (0 < r → ∀ i < 1, (DemuxerPeriod.twoKeysDemuxer.queues i).enabled = true →
        (MediaType.video = .audio ∨ MediaType.video = .video) →
        (d'.queues i).list ≠ [] ∧ (d'.queues i).position ≠ avNoPtsValue ∧
          (d'.queues i).position ≤ 100) := by
  apply seek_returns (fileParser DemuxerPeriod.twoKeysFile 160) DemuxerPeriod.twoKeysDemuxer
    (by decide)
  intro what d' h
  have hret : (seek (fileParser DemuxerPeriod.twoKeysFile 160) 100
      DemuxerPeriod.twoKeysDemuxer).1 = .ok 100 := by decide +kernel
  rw [h] at hret
  cases hret

end DemuxerQueue

end Seekira.Model
