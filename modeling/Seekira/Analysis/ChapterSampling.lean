import Seekira.Model.ChapterSearch

/-!
# The arithmetic of the coarse chapter search

The ratio of two rescaled differences is formed at every sample, also behind the jump of
the timestamps that the search looks for.  There the difference of the timestamps is not
positive, and the rescaling answers with the smallest integer, which is then multiplied.
-/

set_option autoImplicit false

namespace Seekira.Model

open Library

/-! ## The arithmetic -/

namespace CoarseSearch

/-- Nothing has overflowed and nothing was divided by zero. -/
def NotFaulted (w : CoarseSearch) : Prop := ∀ fault, w.phase ≠ .faulted fault

/-- Time has not gone back before the sample and goes on with it, the ratio of the times can be
taken a hundredfold, and the positions are not too far apart for their ratio in thousandths. -/
structure SafeSample (w : CoarseSearch) (s : ChapterSample) : Prop where
  ptsFits : FitsInt64 (s.testPts - w.endPts)
  posFits : FitsInt64 (s.testPos - w.startPos)
  notBack : 0 ≤ w.diffPts
  forward : w.endPts < s.testPts
  ratio : 1000 * w.diffPts + (s.testPts - w.endPts) / 2 <
    92233720368547759 * (s.testPts - w.endPts)
  divisor : w.diffPos < 0 ∨ s.testPos ≤ w.startPos ∨
    s.testPos - w.startPos ≤ 2000 * w.diffPos

/-- `av_rescale` of thousandths. -/
theorem avRescale64_thousand {b c : Int} (hb : 0 ≤ b) (hc : 0 < c) :
    avRescale64 1000 b c =
      if (1000 * b + c / 2) / c > int64Max then int64Min else (1000 * b + c / 2) / c := by
  have hexact : avRescale 1000 b c = (1000 * b + c / 2) / c := by
    unfold avRescale
    rw [if_neg (by omega), if_neg (by decide)]
  unfold avRescale64
  rw [hexact]

/-- What `av_rescale` rejects. -/
theorem avRescale64_rejected {b c : Int} (h : b < 0 ∨ c ≤ 0) : avRescale64 1000 b c = int64Min := by
  have hmin : avRescale 1000 b c = int64Min := by
    unfold avRescale
    rw [if_pos (by omega)]
    rfl
  unfold avRescale64
  rw [hmin]
  rfl

/-- The hundredfold ratio of the times fits exactly when time goes on, and not too slowly. -/
theorem fits_scaled_iff {b c : Int} : FitsInt64 (100 * avRescale64 1000 b c) ↔
    0 ≤ b ∧ 0 < c ∧ 1000 * b + c / 2 < 92233720368547759 * c := by
  by_cases h : b < 0 ∨ c ≤ 0
  · rw [avRescale64_rejected h]
    refine iff_of_false (by decide) ?_
    omega
  · have hb : 0 ≤ b := by omega
    have hc : 0 < c := by omega
    have hlt : (1000 * b + c / 2) / c < 92233720368547759 ↔
        1000 * b + c / 2 < 92233720368547759 * c := Int.ediv_lt_iff_lt_mul hc
    have hnonneg : 0 ≤ (1000 * b + c / 2) / c := Int.ediv_nonneg (by omega) (by omega)
    rw [avRescale64_thousand hb hc, and_iff_right hb, and_iff_right hc, ← hlt]
    unfold FitsInt64 int64Min int64Max
    split <;> omega

/-- The ratio of the positions is zero when they are too far apart. -/
theorem avRescale64_ne_zero_iff {b c : Int} :
    avRescale64 1000 b c ≠ 0 ↔ b < 0 ∨ c ≤ 0 ∨ c ≤ 2000 * b := by
  by_cases h : b < 0 ∨ c ≤ 0
  · rw [avRescale64_rejected h]
    refine iff_of_true (by decide) ?_
    omega
  · have hb : 0 ≤ b := by omega
    have hc : 0 < c := by omega
    have hlt : (1000 * b + c / 2) / c < 1 ↔ 1000 * b + c / 2 < 1 * c := Int.ediv_lt_iff_lt_mul hc
    have hnonneg : 0 ≤ (1000 * b + c / 2) / c := Int.ediv_nonneg (by omega) (by omega)
    rw [avRescale64_thousand hb hc]
    unfold int64Min int64Max
    split <;> omega

/-- The results of `av_rescale`. -/
theorem avRescale64_cases (b c : Int) : avRescale64 1000 b c = int64Min ∨
    (0 ≤ avRescale64 1000 b c ∧ avRescale64 1000 b c ≤ int64Max) := by
  by_cases h : b < 0 ∨ c ≤ 0
  · exact .inl (avRescale64_rejected h)
  · have hnonneg : 0 ≤ (1000 * b + c / 2) / c := Int.ediv_nonneg (by omega) (by omega)
    rw [avRescale64_thousand (by omega) (by omega)]
    split
    · exact .inl rfl
    · exact .inr ⟨hnonneg, by omega⟩

/-- A number that is not negative, divided by a result of `av_rescale`, stays in its range. -/
theorem quotient_bounds {a k2 : Int} (ha : 0 ≤ a) (hmax : a ≤ int64Max) (hk2 : k2 ≠ 0)
    (hcases : k2 = int64Min ∨ (0 ≤ k2 ∧ k2 ≤ int64Max)) :
    0 ≤ a.tdiv k2 ∧ a.tdiv k2 ≤ int64Max := by
  rcases hcases with rfl | ⟨hnonneg, -⟩
  · have hzero : a.tdiv int64Min = 0 := by
      have hneg : a.tdiv int64Min = -a.tdiv (-int64Min) := by
        rw [Int.tdiv_neg, Int.neg_neg]
      rw [hneg, Int.tdiv_eq_zero_of_lt ha (by unfold int64Max at hmax; unfold int64Min; omega)]
      rfl
    rw [hzero]
    decide
  · have hle : a.tdiv k2 ≤ a := by
      rw [Int.tdiv_eq_ediv_of_nonneg ha]
      exact Int.ediv_le_self k2 ha
    exact ⟨Int.tdiv_nonneg ha hnonneg, Int.le_trans hle hmax⟩

/-- The deviation is computed exactly when the ratio of the times can be taken a hundredfold and
that of the positions is not zero. -/
theorem returns_deviation_iff {diffPts diffPts2 diffPos diffPos2 : Int} :
    Returns (deviation diffPts diffPts2 diffPos diffPos2) ↔
      FitsInt64 (100 * avRescale64 1000 diffPts diffPts2) ∧
        avRescale64 1000 diffPos diffPos2 ≠ 0 := by
  unfold deviation
  simp only [returns_checked_bind_iff, returns_checkedDiv_bind_iff, returns_checked_iff]
  constructor
  · rintro ⟨hscaled, hnonzero, -⟩
    exact ⟨hscaled, hnonzero⟩
  · rintro ⟨hscaled, hnonzero⟩
    have hnonneg : 0 ≤ 100 * avRescale64 1000 diffPts diffPts2 := by
      rcases avRescale64_cases diffPts diffPts2 with hmin | ⟨hnonneg, -⟩
      · rw [hmin] at hscaled
        exact absurd hscaled (by decide)
      · omega
    obtain ⟨hlow, hhigh⟩ :=
      quotient_bounds hnonneg hscaled.2 hnonzero (avRescale64_cases diffPos diffPos2)
    generalize (100 * avRescale64 1000 diffPts diffPts2).tdiv
      (avRescale64 1000 diffPos diffPos2) = k at hlow hhigh
    unfold FitsInt64 int64Min int64Max at *
    exact ⟨hscaled, hnonzero, by omega, by omega, by omega⟩

/-- A sample is compared without a fault exactly when it is safe. -/
theorem returns_compare_iff {w : CoarseSearch} {s : ChapterSample} :
    Returns (w.compare s) ↔ SafeSample w s := by
  have hreturns : Returns (w.compare s) ↔ FitsInt64 (s.testPts - w.endPts) ∧
      FitsInt64 (s.testPos - w.startPos) ∧
      Returns (deviation w.diffPts (s.testPts - w.endPts) w.diffPos (s.testPos - w.startPos)) := by
    unfold compare
    simp only [returns_checked_bind_iff, returns_bind_pure_iff]
  rw [hreturns, returns_deviation_iff, fits_scaled_iff, avRescale64_ne_zero_iff]
  constructor
  · rintro ⟨hpts, hpos, ⟨hback, hforward, hratio⟩, hdivisor⟩
    exact ⟨hpts, hpos, hback, by lia, hratio, by lia⟩
  · intro h
    have hforward := h.forward
    have hdivisor := h.divisor
    exact ⟨h.ptsFits, h.posFits, ⟨h.notBack, by lia, h.ratio⟩, by lia⟩

/-- A sample faults exactly when it is not safe. -/
theorem notFaulted_step_iff {w w' : CoarseSearch} {s : ChapterSample} (hw : w.NotFaulted)
    (hstep : step w s = some w') : w'.NotFaulted ↔ SafeSample w s := by
  rw [← returns_compare_iff]
  unfold step at hstep
  split at hstep
  · rename_i hphase
    split at hstep
    · rename_i fault hfault
      cases hstep
      refine iff_of_false (fun h => h fault rfl) ?_
      rintro ⟨r, hr⟩
      rw [hfault] at hr
      cases hr
    · rename_i hok
      refine iff_of_true ?_ ⟨_, hok⟩
      split at hstep
      · cases hstep
        exact hw
      · cases hstep
        exact nofun
  · cases hstep

/-- Over a whole search nothing overflows, and nothing is divided by zero, exactly when every
sample taken is safe. -/
theorem notFaulted_iff {start w : CoarseSearch} {tr : List (CoarseSearch × ChapterSample)}
    (hstart : start.phase = .sampling) (h : (machine start).Run tr w) :
    ((∀ p ∈ tr, NotFaulted p.1) ∧ w.NotFaulted) ↔ ∀ p ∈ tr, SafeSample p.1 p.2 := by
  have hinit : start.NotFaulted := by
    intro fault hfault
    rw [hstart] at hfault
    cases hfault
  exact h.always_iff_guard hinit fun _ _ _ _ hw hstep => notFaulted_step_iff hw hstep

/-- A search of the first 20 megabytes of a chapter, in which the timestamps do not jump. -/
def firstPart : Bool × ChapterEnd :=
  ChapterEnd.findEndOfChapter 2048 avgChapterSize none [⟨900000, 20002049, 3600, 2048⟩]
    ⟨0, 0, 2048, 0⟩

/-- One sample of the same chapter. -/
theorem notFaulted_iff_steady :
    ∃ tr w, (machine (enter 2048 firstPart.2)).Run tr w ∧ w.threshold = 2 ∧
      (((∀ p ∈ tr, NotFaulted p.1) ∧ w.NotFaulted) ↔ ∀ p ∈ tr, SafeSample p.1 p.2) := by
  obtain ⟨w, -, hrun, hw⟩ := Machine.exists_run_of_exec (machine (enter 2048 firstPart.2))
    [⟨1350000, 30002049⟩] (fun w => w.threshold = 2) (by decide +kernel)
  exact ⟨_, w, hrun, of_decide_eq_true hw, notFaulted_iff rfl hrun⟩

/-- The next chapter, whose timestamps start again, is sampled. -/
theorem restarted_clock_overflows : firstPart.1 = false ∧
    ¬∀ tr w, (machine (enter 2048 firstPart.2)).Run tr w → w.NotFaulted := by
  refine ⟨by decide +kernel, fun h => ?_⟩
  obtain ⟨w, -, hrun, hw⟩ := Machine.exists_run_of_exec (machine (enter 2048 firstPart.2))
    [⟨0, 30002049⟩] (fun w => w.phase = .faulted .overflow) (by decide +kernel)
  exact h _ w hrun .overflow (of_decide_eq_true hw)

end CoarseSearch

end Seekira.Model
