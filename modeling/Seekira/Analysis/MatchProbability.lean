import Mathlib.Algebra.Order.Field.Basic
import Mathlib.Tactic.NormNum
import Seekira.Analysis.PersonVote
import Seekira.Model.FaceEngine

/-!
# The match probability as a function of the distance

The check of an initializer rejects thresholds that are zero and does not compare them.  In the
wrong order they leave out the linear part and do no harm; two equal ones leave one distance at
which it is a quotient of zero by zero.
-/

set_option autoImplicit false

namespace Seekira.Model.BaseFaceEngine

open IFaceEngine PersonHolder

variable {e : BaseFaceEngine} {distance probability : ℚ}

/-- What is expected of the probability and of the status. -/
structure MatchesByDistance (e : BaseFaceEngine) : Prop where
  divides : ∀ distance, e.calcMatchProbability distance ≠ none
  range : ∀ distance p, e.calcMatchProbability distance = some p → 0 ≤ p ∧ p ≤ 1
  antitone : ∀ distance distance' p p', distance ≤ distance' →
    e.calcMatchProbability distance = some p → e.calcMatchProbability distance' = some p' → p' ≤ p
  status : ∀ distance distance' r r', distance ≤ distance' →
    e.matchResult distance = some r → e.matchResult distance' = some r' →
      rank r'.status ≤ rank r.status

/-- The three parts of the function. -/
theorem calcMatchProbability_cases
    (h : e.calcMatchProbability distance = some probability) :
    (distance < e.matchGtThreshold ∧ probability = 1) ∨
      (e.matchGtThreshold ≤ distance ∧ e.matchGfThreshold < distance ∧ probability = 0) ∨
      (e.matchGtThreshold ≤ distance ∧ distance ≤ e.matchGfThreshold ∧
        e.matchGtThreshold < e.matchGfThreshold ∧
        probability = (e.matchGfThreshold - distance) /
          (e.matchGfThreshold - e.matchGtThreshold)) := by
  unfold calcMatchProbability at h
  split at h
  · rename_i hclose
    exact .inl ⟨hclose, (Option.some.inj h).symm⟩
  · rename_i hclose
    have hclose : e.matchGtThreshold ≤ distance := not_lt.mp hclose
    split at h
    · rename_i hfar
      exact .inr (.inl ⟨hclose, hfar, (Option.some.inj h).symm⟩)
    · rename_i hfar
      have hfar : distance ≤ e.matchGfThreshold := not_lt.mp hfar
      unfold quotient at h
      split at h
      · cases h
      · rename_i hne
        have hlt : e.matchGtThreshold < e.matchGfThreshold := by
          apply lt_of_le_of_ne (hclose.trans hfar)
          intro heq
          exact hne (by rw [heq, sub_self])
        exact .inr (.inr ⟨hclose, hfar, hlt, (Option.some.inj h).symm⟩)

/-- The probability has no value exactly where zero is divided by zero. -/
theorem calcMatchProbability_eq_none_iff :
    e.calcMatchProbability distance = none ↔
      e.matchGtThreshold = e.matchGfThreshold ∧ distance = e.matchGtThreshold := by
  unfold calcMatchProbability quotient
  constructor
  · intro h
    split at h
    · cases h
    · rename_i hclose
      split at h
      · cases h
      · rename_i hfar
        split at h
        · rename_i hzero
          have heq : e.matchGtThreshold = e.matchGfThreshold := (sub_eq_zero.mp hzero).symm
          refine ⟨heq, le_antisymm ?_ (not_lt.mp hclose)⟩
          rw [heq]
          exact not_lt.mp hfar
        · cases h
  · rintro ⟨heq, rfl⟩
    simp [heq]

/-- The probability lies between 0 and 1. -/
theorem probability_mem (h : e.calcMatchProbability distance = some probability) :
    0 ≤ probability ∧ probability ≤ 1 := by
  rcases calcMatchProbability_cases h with ⟨-, rfl⟩ | ⟨-, -, rfl⟩ | ⟨hclose, hfar, hlt, rfl⟩
  · norm_num
  · norm_num
  · have hpos : 0 < e.matchGfThreshold - e.matchGtThreshold := sub_pos.mpr hlt
    constructor
    · exact div_nonneg (sub_nonneg.mpr hfar) hpos.le
    · rw [div_le_one hpos]
      exact sub_le_sub_left hclose _

/-- The probability falls with the distance. -/
theorem probability_antitone {distance' probability' : ℚ} (hle : distance ≤ distance')
    (h : e.calcMatchProbability distance = some probability)
    (h' : e.calcMatchProbability distance' = some probability') : probability' ≤ probability := by
  obtain ⟨hnonneg, hle_one⟩ := probability_mem h
  obtain ⟨hnonneg', hle_one'⟩ := probability_mem h'
  rcases calcMatchProbability_cases h with ⟨-, rfl⟩ | ⟨hclose, hfar, rfl⟩ | ⟨hclose, hfar, hlt, rfl⟩
  · exact hle_one'
  · rcases calcMatchProbability_cases h' with ⟨hclose', rfl⟩ | ⟨-, -, rfl⟩ | ⟨-, hfar', -, -⟩
    · linarith
    · exact le_refl 0
    · linarith
  · rcases calcMatchProbability_cases h' with ⟨hclose', -⟩ | ⟨-, -, rfl⟩ | ⟨-, -, -, rfl⟩
    · linarith
    · exact hnonneg
    · have hpos : 0 < e.matchGfThreshold - e.matchGtThreshold := sub_pos.mpr hlt
      exact div_le_div_of_nonneg_right (sub_le_sub_left hle _) hpos.le

/-- A lower probability does not give a higher status. -/
theorem rank_create_le {p p' threshold : ℚ} (hp' : 0 ≤ p') (hle : p' ≤ p) (hp : p ≤ 1) :
    rank (FaceMatchResult.create p' threshold).status ≤
      rank (FaceMatchResult.create p threshold).status := by
  unfold FaceMatchResult.create
  by_cases hmatched' : Utils.compare p' 1 = true
  · have hmatched : Utils.compare p 1 = true := Utils.compare_of_between hp' hle hp hmatched'
    simp [hmatched, hmatched']
  · by_cases hpossible' : p' > threshold
    · have hpossible : p > threshold := lt_of_lt_of_le hpossible' hle
      by_cases hmatched : Utils.compare p 1 = true
      · simp [hmatched, hmatched', hpossible', rank]
      · simp [hmatched, hmatched', hpossible', hpossible]
    · rw [if_neg hmatched', if_neg hpossible']
      split
      · simp [rank]
      · split
        · simp [rank]
        · simp [rank]

/-- For the thresholds of a valid initializer the probability is defined at every distance, lies
between 0 and 1 and does not increase, nor does the status, exactly when the two thresholds of the
distance differ. -/
theorem matchesByDistance_iff (init : ValidInitializer) :
    MatchesByDistance (create init) ↔ init.matchGtThreshold ≠ init.matchGfThreshold := by
  constructor
  · intro h heq
    exact h.divides init.matchGtThreshold (calcMatchProbability_eq_none_iff.mpr ⟨heq, rfl⟩)
  · intro hne
    constructor
    · intro distance hnone
      exact hne (calcMatchProbability_eq_none_iff.mp hnone).1
    · intro distance p h
      exact probability_mem h
    · intro distance distance' p p' hle h h'
      exact probability_antitone hle h h'
    · intro distance distance' r r' hle h h'
      obtain ⟨p, hp, rfl⟩ := Option.map_eq_some_iff.mp h
      obtain ⟨p', hp', rfl⟩ := Option.map_eq_some_iff.mp h'
      exact rank_create_le (probability_mem hp').1 (probability_antitone hle hp hp')
        (probability_mem hp).2

/-- Both thresholds are 1. -/
def oneThreshold : IFaceEngine.Initializer where
  type := .tdv
  mode := .all
  modelsPath := "models"
  device := .cpu
  saveFrames := false
  matchGtThreshold := 1
  matchGfThreshold := 1
  matchProbThreshold := 17 / 20

theorem oneThreshold_valid : oneThreshold.isValid = true := by
  decide +kernel

/-- The initializer is accepted, and a distance of 1 is divided by zero. -/
theorem equal_thresholds_divide_by_zero :
    ¬∀ init : ValidInitializer, MatchesByDistance (create init) := by
  intro hclaim
  have hdivides := (hclaim ⟨oneThreshold, oneThreshold_valid⟩).divides 1
  exact hdivides (calcMatchProbability_eq_none_iff.mpr ⟨rfl, rfl⟩)

end Seekira.Model.BaseFaceEngine
