import Mathlib.Algebra.Order.Field.Rat
import Mathlib.Algebra.Order.AbsoluteValue.Basic
import Mathlib.Tactic.Linarith
import Mathlib.Tactic.Positivity

/-!
# Comparisons of floating-point numbers

`compare` takes two numbers for equal when they differ by no more than some units in the last
place.  Here the numbers are rational and the tolerance is that of `double`.
-/

set_option autoImplicit false

namespace Seekira.Model.Utils

/-- `std::numeric_limits<double>::epsilon()` -/
def epsilon : ℚ := 1 / 2 ^ 52

/-- `std::numeric_limits<double>::min()` -/
def minPositive : ℚ := 1 / 2 ^ 1022

/-- SOURCE: core/base/utils/type_utils.hpp:13-21 -/
def compare (x y : ℚ) : Bool :=
  decide (|x - y| ≤ epsilon * |x + y| * 7) || decide (|x - y| < minPositive)

/-- SOURCE: core/base/utils/type_utils.hpp:24-28 -/
def compareGe (x y : ℚ) : Bool := decide (x > y) || compare x y

/-- `compare` of two vectors.
SOURCE: core/base/utils/type_utils.hpp:38-45 -/
def compareAll (lhs rhs : List ℚ) : Bool :=
  if rhs.length ≠ lhs.length then false else (lhs.zip rhs).all fun p => compare p.1 p.2

theorem epsilon_pos : 0 < epsilon := by
  unfold epsilon
  positivity

theorem minPositive_pos : 0 < minPositive := by
  unfold minPositive
  positivity

/-- Two numbers compare equal when they differ by some epsilons of their sum, or by less than the
least positive number. -/
theorem compare_iff (x y : ℚ) :
    compare x y = true ↔ |x - y| ≤ epsilon * |x + y| * 7 ∨ |x - y| < minPositive := by
  simp [compare]

theorem compareGe_iff (x y : ℚ) : compareGe x y = true ↔ y < x ∨ compare x y = true := by
  simp [compareGe]

theorem compare_self (x : ℚ) : compare x x = true := by
  rw [compare_iff, sub_self, abs_zero]
  exact .inr minPositive_pos

theorem compareAll_self (xs : List ℚ) : compareAll xs xs = true := by
  have hall : ∀ ys : List ℚ, (ys.zip ys).all (fun p => compare p.1 p.2) = true := by
    intro ys
    induction ys with
    | nil => rfl
    | cons y rest ih => rw [List.zip_cons_cons, List.all_cons, ih, compare_self, Bool.and_true]
  unfold compareAll
  rw [if_neg (not_not.mpr rfl), hall]

/-- What is behind both makes no difference. -/
theorem compareAll_append (xs ys zs : List ℚ) :
    compareAll (xs ++ zs) (ys ++ zs) = compareAll xs ys := by
  have hall : (zs.zip zs).all (fun p => compare p.1 p.2) = true := by
    have hself := compareAll_self zs
    unfold compareAll at hself
    rwa [if_neg (not_not.mpr rfl)] at hself
  unfold compareAll
  by_cases hlength : ys.length = xs.length
  · rw [if_neg (by simpa using hlength), if_neg (by simpa using hlength),
      List.zip_append hlength.symm, List.all_append, hall, Bool.and_true]
  · rw [if_pos (by simpa using hlength), if_pos hlength]

/-- Between numbers that are not negative, what comes closer from below stays equal. -/
theorem compare_of_between {x y z : ℚ} (hx : 0 ≤ x) (hxy : x ≤ y) (hyz : y ≤ z)
    (h : compare x z = true) : compare y z = true := by
  have hpos := epsilon_pos
  have hdiff : |y - z| ≤ |x - z| := by
    rw [abs_of_nonpos (by linarith), abs_of_nonpos (by linarith)]
    linarith
  have hsum : |x + z| ≤ |y + z| := by
    rw [abs_of_nonneg (by linarith), abs_of_nonneg (by linarith)]
    linarith
  rw [compare_iff] at h ⊢
  rcases h with h | h
  · refine .inl ?_
    calc |y - z| ≤ |x - z| := hdiff
      _ ≤ epsilon * |x + z| * 7 := h
      _ ≤ epsilon * |y + z| * 7 := by
        have hscaled := mul_le_mul_of_nonneg_left hsum hpos.le
        linarith
  · exact .inr (lt_of_le_of_lt hdiff h)

/-- `compare_ge` is monotone in the non-negative left number. -/
theorem compareGe_mono {x y z : ℚ} (hx : 0 ≤ x) (hxy : x ≤ y) (h : compareGe x z = true) :
    compareGe y z = true := by
  rw [compareGe_iff] at h ⊢
  rcases lt_or_ge z y with hlt | hle
  · exact .inl hlt
  · rcases h with hlt | hsame
    · linarith
    · exact .inr (compare_of_between hx hxy hle hsame)

end Seekira.Model.Utils
