import Mathlib.Algebra.Order.Group.Int
import Mathlib.Tactic.Common

/-!
# Signed 64-bit arithmetic without wrap-around

An operation returns its mathematical result where 64 bits hold it and fails where they do not,
so a computation that returns has met no overflow and no division by zero.
-/

set_option autoImplicit false

namespace Seekira.Library

/-- Why an operation has no result. -/
inductive ArithFault where
  | overflow
  | divisionByZero
  deriving DecidableEq, Repr

def int64Min : Int := -9223372036854775808

def int64Max : Int := 9223372036854775807

/-- The number has a signed 64-bit representation. -/
def FitsInt64 (x : Int) : Prop := int64Min ≤ x ∧ x ≤ int64Max

instance (x : Int) : Decidable (FitsInt64 x) := inferInstanceAs (Decidable (_ ∧ _))

/-- The result `x` of an operation. -/
def checked (x : Int) : Except ArithFault Int :=
  if FitsInt64 x then .ok x else .error .overflow

/-- The truncating division. -/
def checkedDiv (a b : Int) : Except ArithFault Int :=
  if b = 0 then .error .divisionByZero else checked (a.tdiv b)

/-- A computation comes to a result. -/
def Returns {ε α : Type} (x : Except ε α) : Prop := ∃ a, x = .ok a

variable {α β : Type}

/-- What is done with the result of a computation does not decide whether it has one. -/
theorem returns_bind_pure_iff {x : Except ArithFault α} {g : α → β} :
    Returns (x >>= fun a => pure (g a)) ↔ Returns x := by
  rcases x with fault | a
  · refine iff_of_false ?_ ?_
    · rintro ⟨b, hb⟩
      cases hb
    · rintro ⟨a, ha⟩
      cases ha
  · exact iff_of_true ⟨g a, rfl⟩ ⟨a, rfl⟩

/-- A checked result is returned exactly when it fits in 64 bits. -/
theorem returns_checked_iff {x : Int} : Returns (checked x) ↔ FitsInt64 x := by
  unfold checked Returns
  split
  · rename_i hfits
    exact iff_of_true ⟨x, rfl⟩ hfits
  · rename_i hfits
    exact iff_of_false nofun hfits

theorem returns_checked_bind_iff {x : Int} {f : Int → Except ArithFault α} :
    Returns (checked x >>= f) ↔ FitsInt64 x ∧ Returns (f x) := by
  unfold checked
  split
  · rename_i hfits
    exact (and_iff_right hfits).symm
  · rename_i hfits
    refine iff_of_false ?_ fun h => hfits h.1
    rintro ⟨a, ha⟩
    cases ha

theorem returns_checkedDiv_bind_iff {a b : Int} {f : Int → Except ArithFault α} :
    Returns (checkedDiv a b >>= f) ↔ b ≠ 0 ∧ FitsInt64 (a.tdiv b) ∧ Returns (f (a.tdiv b)) := by
  unfold checkedDiv
  split
  · rename_i hzero
    refine iff_of_false ?_ fun h => h.1 hzero
    rintro ⟨a, ha⟩
    cases ha
  · rename_i hnonzero
    rw [returns_checked_bind_iff]
    exact (and_iff_right hnonzero).symm

end Seekira.Library
