import Mathlib.Algebra.Order.Field.Basic
import Mathlib.Data.List.Perm.Basic
import Mathlib.Tactic.FieldSimp
import Mathlib.Tactic.GCongr
import Mathlib.Tactic.NormNum
import Mathlib.Tactic.Positivity
import Mathlib.Tactic.Ring
import Seekira.Model.PersonHolder

/-!
# The verdict on a face as a vote

The verdict of a person depends on the numbers of the results only.  With more of them at least
possible and more of them matched it does not get lower, although the conditions of the verdict
overlap.
-/

set_option autoImplicit false

namespace Seekira.Model.PersonHolder

/-- The order of the verdicts. -/
def rank : FaceMatchStatus → Nat
  | .undefined => 0
  | .notMatched => 1
  | .possible => 2
  | .matched => 3

/-- A result that is raised. -/
inductive Raised : FaceMatchStatus → FaceMatchStatus → Prop
  | toPossible : Raised .notMatched .possible
  | toMatched : Raised .possible .matched

/-! ## The counters -/

/-- What the loop adds to each counter. -/
theorem foldl_count (results : List FaceMatchStatus) (c : MatchCounters) :
    results.foldl MatchCounters.count c =
      ⟨c.valid + results.count .matched, c.invalid + results.count .notMatched,
        c.prob + results.count .possible⟩ := by
  induction results generalizing c with
  | nil => rfl
  | cons result rest ih =>
    rw [List.foldl_cons, ih]
    cases result with
    | undefined => simp [MatchCounters.count]
    | notMatched => simp [MatchCounters.count, Nat.add_assoc, Nat.add_comm 1]
    | possible => simp [MatchCounters.count, Nat.add_assoc, Nat.add_comm 1]
    | matched => simp [MatchCounters.count, Nat.add_assoc, Nat.add_comm 1]

/-- The counters count the results. -/
theorem ofResults_eq (results : List FaceMatchStatus) :
    MatchCounters.ofResults results =
      ⟨results.count .matched, results.count .notMatched, results.count .possible⟩ := by
  unfold MatchCounters.ofResults
  rw [foldl_count]
  simp

theorem vote_perm {results results' : List FaceMatchStatus} (h : results.Perm results') :
    vote results = vote results' := by
  unfold vote
  rw [ofResults_eq, ofResults_eq, h.count_eq, h.count_eq, h.count_eq, h.length_eq]

/-! ## The verdict -/

/-- The sum of the weights, in parts of the number of results. -/
def MatchCounters.weight (c : MatchCounters) (size : Nat) : ℚ := ((c.valid : ℚ) + c.prob / 2) / size

theorem MatchCounters.weight_nonneg (c : MatchCounters) (size : Nat) : 0 ≤ c.weight size := by
  unfold weight
  positivity

/-- When the counters say matched. -/
theorem MatchCounters.status_matched_iff (c : MatchCounters) (size : Nat) :
    c.status size = .matched ↔
      c.valid ≠ 0 ∧ Utils.compareGe (c.weight size) (1 / 2) = true := by
  unfold status weight
  by_cases hvalid : c.valid = 0
  · by_cases hprob : c.prob = 0
    · simp [hvalid, hprob]
    · simp [hvalid, hprob]
  · simp [hvalid]

/-- When the counters say not matched. -/
theorem MatchCounters.status_notMatched_iff (c : MatchCounters) (size : Nat) :
    c.status size = .notMatched ↔ c.valid = 0 ∧ c.prob = 0 := by
  unfold status
  by_cases hvalid : c.valid = 0
  · by_cases hprob : c.prob = 0
    · simp [hvalid, hprob]
    · simp [hvalid, hprob]
  · simp only [hvalid, ne_eq, not_false_eq_true, if_true, false_and, if_false, iff_false]
    split
    · simp
    · simp

/-- The counters never leave the status undefined. -/
theorem MatchCounters.status_ne_undefined (c : MatchCounters) (size : Nat) :
    c.status size ≠ .undefined := by
  unfold status
  by_cases hvalid : c.valid = 0
  · by_cases hprob : c.prob = 0
    · simp [hvalid, hprob]
    · simp [hvalid, hprob]
  · simp only [hvalid, ne_eq, not_false_eq_true, if_true]
    split
    · simp
    · simp

/-- More results that matched, and more that are at least possible, give no lower verdict. -/
theorem MatchCounters.rank_status_le {c c' : MatchCounters} (size : Nat)
    (hvalid : c.valid ≤ c'.valid) (hprob : c.valid + c.prob ≤ c'.valid + c'.prob) :
    rank (c.status size) ≤ rank (c'.status size) := by
  have hweight : c.weight size ≤ c'.weight size := by
    have hvalidQ : (c.valid : ℚ) ≤ c'.valid := by exact_mod_cast hvalid
    have hprobQ : (c.valid : ℚ) + c.prob ≤ c'.valid + c'.prob := by exact_mod_cast hprob
    have hsum : (c.valid : ℚ) + c.prob / 2 ≤ c'.valid + c'.prob / 2 := by linarith
    exact div_le_div_of_nonneg_right hsum (Nat.cast_nonneg size)
  cases hstatus : c.status size with
  | undefined => exact absurd hstatus (c.status_ne_undefined size)
  | notMatched =>
    cases hstatus' : c'.status size with
    | undefined => exact absurd hstatus' (c'.status_ne_undefined size)
    | _ => decide
  | possible =>
    have hsome : ¬(c.valid = 0 ∧ c.prob = 0) := by
      rw [← c.status_notMatched_iff size, hstatus]
      decide
    cases hstatus' : c'.status size with
    | undefined => exact absurd hstatus' (c'.status_ne_undefined size)
    | notMatched =>
      obtain ⟨hvalid', hprob'⟩ := (c'.status_notMatched_iff size).mp hstatus'
      omega
    | _ => decide
  | matched =>
    obtain ⟨hsome, hge⟩ := (c.status_matched_iff size).mp hstatus
    have hmatched : c'.status size = .matched := by
      apply (c'.status_matched_iff size).mpr
      exact ⟨by omega, Utils.compareGe_mono (c.weight_nonneg size) hweight hge⟩
    rw [hmatched]

/-! ## The vote -/

/-- A result that is raised does not lower the vote. -/
theorem rank_vote_le_of_raised {result result' : FaceMatchStatus} (h : Raised result result')
    (front back : List FaceMatchStatus) :
    rank (vote (front ++ result :: back)) ≤ rank (vote (front ++ result' :: back)) := by
  have hlength : (front ++ result' :: back).length = (front ++ result :: back).length := by simp
  unfold vote
  rw [hlength, ofResults_eq, ofResults_eq]
  cases h with
  | toPossible =>
    apply MatchCounters.rank_status_le
    · simp
    · simp only [List.count_append, List.count_cons]
      simp
  | toMatched =>
    apply MatchCounters.rank_status_le
    · simp only [List.count_append, List.count_cons]
      simp
    · simp only [List.count_append, List.count_cons]
      simp
      omega

/-- The verdict does not depend on the order of the references, and raising the result of one of
them does not lower it. -/
theorem vote_symmetric_monotone :
    (∀ results results' : List FaceMatchStatus, results.Perm results' →
      vote results = vote results') ∧
    ∀ (front back : List FaceMatchStatus) (result result' : FaceMatchStatus),
      Raised result result' →
        rank (vote (front ++ result :: back)) ≤ rank (vote (front ++ result' :: back)) :=
  ⟨fun _ _ h => vote_perm h, fun front back _ _ h => rank_vote_le_of_raised h front back⟩

/-- Two matched references of three, and what one raise makes of one of two. -/
theorem vote_symmetric_monotone_three :
    vote [.matched, .notMatched, .matched] = vote [.notMatched, .matched, .matched] ∧
      rank (vote ([.notMatched] ++ .possible :: [])) ≤
        rank (vote ([.notMatched] ++ .matched :: [])) :=
  ⟨vote_symmetric_monotone.1 _ _ (List.Perm.swap _ _ _),
    vote_symmetric_monotone.2 _ _ _ _ .toMatched⟩

/-! ## Without the tolerance -/

/-- A number that is not close to one half is not taken for it. -/
theorem not_compareGe_half {x : ℚ} (hx : 0 ≤ x) (hfar : x + 1 / 2 ^ 49 ≤ 1 / 2) :
    Utils.compareGe x (1 / 2) = false := by
  have hgap : (0 : ℚ) < 1 / 2 ^ 49 := by positivity
  have hdiff : |x - 1 / 2| = 1 / 2 - x := by
    rw [abs_of_nonpos (by linarith)]
    ring
  have hsum : |x + 1 / 2| = x + 1 / 2 := abs_of_nonneg (by linarith)
  have htolerance : Utils.epsilon * (x + 1 / 2) * 7 < 1 / 2 ^ 49 := by
    calc Utils.epsilon * (x + 1 / 2) * 7 ≤ Utils.epsilon * 1 * 7 := by
          have hscaled := mul_le_mul_of_nonneg_left (show x + 1 / 2 ≤ 1 by linarith)
            Utils.epsilon_pos.le
          linarith
      _ < 1 / 2 ^ 49 := by
          unfold Utils.epsilon
          norm_num
  have hmin : Utils.minPositive ≤ 1 / 2 ^ 49 := by
    unfold Utils.minPositive
    exact one_div_le_one_div_of_le (by positivity)
      (pow_le_pow_right₀ (by norm_num) (by norm_num))
  rw [Bool.eq_false_iff, ne_eq, Utils.compareGe_iff, Utils.compare_iff, hdiff, hsum]
  rintro (hlt | hle | hlt)
  · linarith
  · linarith
  · linarith

/-- The weight reaches one half when twice the sum reaches the number of results. -/
theorem compareGe_weight_iff {c : MatchCounters} {size : Nat} (hsize : 0 < size)
    (hbound : size ≤ 2 ^ 48) :
    Utils.compareGe (c.weight size) (1 / 2) = true ↔ size ≤ 2 * c.valid + c.prob := by
  have hsizeQ : (0 : ℚ) < size := by exact_mod_cast hsize
  have hweight : c.weight size = (2 * c.valid + c.prob) / (2 * size) := by
    unfold MatchCounters.weight
    field_simp
  constructor
  · intro hge
    by_contra hlt
    have hless : (2 * c.valid + c.prob : ℚ) + 1 ≤ size := by
      have hnat : 2 * c.valid + c.prob + 1 ≤ size := by omega
      exact_mod_cast hnat
    have hboundQ : (size : ℚ) ≤ 2 ^ 48 := by exact_mod_cast hbound
    have hgap : (1 : ℚ) / 2 ^ 49 ≤ 1 / (2 * size) :=
      one_div_le_one_div_of_le (by positivity) (by linarith)
    have hfar : c.weight size + 1 / (2 * size) ≤ 1 / 2 := by
      rw [hweight, ← add_div, div_le_div_iff₀ (by positivity) (by norm_num)]
      linarith
    rw [not_compareGe_half (c.weight_nonneg size) (by linarith)] at hge
    cases hge
  · intro hle
    have hleQ : (size : ℚ) ≤ 2 * c.valid + c.prob := by exact_mod_cast hle
    have hhalf : 1 / 2 ≤ c.weight size := by
      rw [hweight, div_le_div_iff₀ (by norm_num) (by positivity)]
      linarith
    rw [Utils.compareGe_iff]
    rcases lt_or_eq_of_le hhalf with hlt | heq
    · exact .inl hlt
    · exact .inr (by rw [← heq]; exact Utils.compare_self _)

/-- For as many references as a person can have, the tolerance of the comparison changes nothing:
the verdict is the one that the faces of a pipeline get. -/
theorem vote_eq_matchVerdict {results : List FaceMatchStatus} (h : results.length ≤ 2 ^ 48) :
    vote results = matchVerdict results := by
  unfold vote matchVerdict
  rw [ofResults_eq]
  by_cases hvalid : results.count .matched = 0
  · by_cases hprob : results.count .possible = 0
    · simp [MatchCounters.status, hvalid, hprob]
    · simp [MatchCounters.status, hvalid, hprob]
  · have hsize : 0 < results.length := by
      have hle := List.count_le_length (a := FaceMatchStatus.matched) (l := results)
      omega
    have hge := compareGe_weight_iff
      (c := ⟨results.count .matched, results.count .notMatched, results.count .possible⟩) hsize h
    unfold MatchCounters.weight at hge
    simp only [MatchCounters.status, ne_eq, hvalid, not_false_eq_true, if_true, if_false, hge]

end Seekira.Model.PersonHolder
