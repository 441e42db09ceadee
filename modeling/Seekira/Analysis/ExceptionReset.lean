import Seekira.Model.ExceptionReset

/-!
# Exceptions recorded during a reset

The loop that copies the later exceptions tests the number read under the first lock, not its index:
once it is entered it runs to the end of the list and throws there.  So a reset leaves the later
exceptions only when there are none.
-/

set_option autoImplicit false

namespace Seekira.Model.ThreadPoolWorker

open Library

variable {ι : Type} {w : ThreadPoolWorker ι} {later : List Exc} {size : Nat}

/-- The reset returns, and the exceptions recorded between its locks are left, in their order. -/
def KeepsLater (later : List Exc) (w : ThreadPoolWorker ι) : Prop :=
  ∃ w', Resets later w (.ok w') ∧ w'.exceptionPtrs = later

@[simp] theorem exceptionPtrs_recordAll (later : List Exc) (w : ThreadPoolWorker ι) :
    (w.recordAll later).exceptionPtrs = w.exceptionPtrs ++ later := by
  induction later generalizing w with
  | nil => simp [recordAll]
  | cons e later ih =>
    change ((w.recordException e).recordAll later).exceptionPtrs = _
    rw [ih, recordException, List.append_assoc, List.singleton_append]

/-- The copying loop, once entered, throws. -/
theorem copy_throws {exceptionPtrs : List Exc} (hsize : size < exceptionPtrs.length)
    (start : Nat × List Exc) :
    ∃ n, Leaves (copyRound exceptionPtrs size) n start (.error .std) := by
  have hround : ∀ i new, copyRound exceptionPtrs size (i, new) =
      (exceptionPtrs[i]?.map fun e => .again (i + 1, new ++ [e])).getD (.leave (.error .std)) := by
    intro i new
    rw [copyRound, if_pos hsize]
    cases exceptionPtrs[i]? <;> rfl
  have hdown : ∀ s s' : Nat × List Exc, True → copyRound exceptionPtrs size s = .again s' →
      True ∧ exceptionPtrs.length - s'.1 < exceptionPtrs.length - s.1 := by
    rintro ⟨i, new⟩ s' - hagain
    rw [hround] at hagain
    cases hi : exceptionPtrs[i]? with
    | none =>
      rw [hi] at hagain
      cases hagain
    | some e =>
      rw [hi] at hagain
      cases hagain
      have hlt := (List.getElem?_eq_some_iff.mp hi).1
      refine ⟨trivial, ?_⟩
      dsimp only
      omega
  obtain ⟨n, r, hleaves⟩ := exists_leaves (s := start) hdown trivial
  have hthrown : r = .error .std := by
    refine hleaves.post (I := fun _ => True) (Q := fun r => r = .error .std)
      (fun _ _ _ _ => trivial) ?_ trivial
    rintro ⟨i, new⟩ r' - hleave
    rw [hround] at hleave
    cases hi : exceptionPtrs[i]? with
    | none =>
      rw [hi] at hleave
      exact (Round.leave.inj hleave).symm
    | some e =>
      rw [hi] at hleave
      cases hleave
  exact ⟨n, hthrown ▸ hleaves⟩

/-- The second critical section in one piece: it clears the list, or throws when that has grown. -/
theorem dropsFirst_iff (hsize : size ≤ w.exceptionPtrs.length)
    {result : Except Exc (ThreadPoolWorker ι)} :
    DropsFirst size w result ↔
      result = ((w.resetExceptions size).map .ok).getD (.error .std) := by
  unfold resetExceptions
  by_cases hlt : size < w.exceptionPtrs.length
  · rw [if_pos hlt]
    obtain ⟨n, hthrows⟩ := copy_throws hlt (size, [])
    constructor
    · intro h
      cases h with
      | clear heq => exact absurd heq (Nat.ne_of_lt hlt)
      | copy _ hcopy => cases (hthrows.unique hcopy).2
      | throw _ hthrow =>
        cases (hthrows.unique hthrow).2
        rfl
    · rintro rfl
      exact .throw (Nat.ne_of_lt hlt) hthrows
  · have heq : size = w.exceptionPtrs.length := Nat.le_antisymm hsize (Nat.not_lt.mp hlt)
    rw [if_neg hlt]
    constructor
    · intro h
      cases h with
      | clear _ => rfl
      | copy hne _ => exact absurd heq hne
      | throw hne _ => exact absurd heq hne
    · rintro rfl
      exact .clear heq

/-- A reset returns exactly when nothing was recorded between its locks. -/
theorem resets_iff (later : List Exc) (w : ThreadPoolWorker ι)
    {result : Except Exc (ThreadPoolWorker ι)} :
    Resets later w result ↔
      result = (((w.recordAll later).resetExceptions w.exceptionPtrs.length).map .ok).getD
        (.error .std) :=
  dropsFirst_iff (by simp)

/-- An exception recorded meanwhile is cleared. -/
theorem not_keepsLater (hlater : later ≠ []) (w : ThreadPoolWorker ι) : ¬KeepsLater later w := by
  rintro ⟨w', hw', -⟩
  rw [resets_iff, resetExceptions, if_pos] at hw'
  · cases hw'
  · rw [exceptionPtrs_recordAll, List.length_append]
    exact Nat.lt_add_of_pos_right (List.length_pos_iff.mpr hlater)

/-- A reset returns and leaves the later exceptions exactly when there are none. -/
theorem keepsLater_iff (later : List Exc) (w : ThreadPoolWorker ι) :
    KeepsLater later w ↔ later = [] := by
  constructor
  · intro h
    by_contra hlater
    exact not_keepsLater hlater w h
  · rintro rfl
    refine ⟨w.dropExceptions, ?_, rfl⟩
    rw [resets_iff, resetExceptions, if_neg (by simp)]
    rfl

/-- One exception is stored, and another one is recorded between the locks. -/
theorem later_exception_throws : ¬∀ (later : List Exc) (w : ThreadPoolWorker Nat),
    KeepsLater later w := by
  intro h
  exact not_keepsLater (by decide) { create with exceptionPtrs := [.other] } (h [.std] _)

end Seekira.Model.ThreadPoolWorker
