import Mathlib.Tactic.Tauto
import Seekira.Library.Machine

/-!
# What has happened so far

Two past-time operators on a list of steps.  `Since X E` says that `E` happened and that
nothing after its last occurrence was an `X`; `Followed E X` says that some `E` had an `X`
after it.  Both grow step by step, so a state that remembers just enough to tell whether
`Since` holds decides, at the next `X`, whether `Followed` does.

For the runs of a machine this gives one rule: a bad state that is entered exactly by an `X`
from an armed state, where `E` arms and `X` disarms, occurs in a run exactly when some `E` of
the run is followed by an `X`.
-/

set_option autoImplicit false

namespace Seekira.Library

variable {α : Type}

/-- `E` happened, and no `X` after it. -/
def Since (X E : α → Prop) (steps : List α) : Prop :=
  ∃ front p back, steps = front ++ p :: back ∧ E p ∧ ∀ q ∈ back, ¬X q

/-- Every element meets a condition on itself and on what came before it. -/
def EachAfter (G : List α → α → Prop) (steps : List α) : Prop :=
  ∀ front p back, steps = front ++ p :: back → G front p

/-- `E` happened, and some `X` after it. -/
def Followed (E X : α → Prop) (steps : List α) : Prop :=
  ∃ front p back, steps = front ++ p :: back ∧ E p ∧ ∃ q ∈ back, X q

section Concat

variable {X E : α → Prop} {steps : List α} {p : α}

theorem not_since_nil : ¬Since X E [] := by
  rintro ⟨front, p, back, h, -⟩
  simp at h

theorem not_followed_nil : ¬Followed E X [] := by
  rintro ⟨front, p, back, h, -⟩
  simp at h

theorem not_followed_of_forall_not (h : ∀ p ∈ steps, ¬E p) : ¬Followed E X steps := by
  rintro ⟨front, p, back, rfl, hE, -⟩
  exact h p (by simp) hE

/-- The cuts of a list with one more element at its end. -/
theorem concat_eq_append_cons {front back : List α} {q : α} :
    steps ++ [p] = front ++ q :: back ↔
      (back = [] ∧ steps = front ∧ p = q) ∨
        ∃ rest, back = rest ++ [p] ∧ steps = front ++ q :: rest := by
  constructor
  · intro h
    rcases List.eq_nil_or_concat back with rfl | ⟨rest, last, rfl⟩
    · obtain ⟨hsteps, hp⟩ := List.append_inj' h rfl
      exact .inl ⟨rfl, hsteps, by simpa using hp⟩
    · rw [List.concat_eq_append, ← List.cons_append, ← List.append_assoc] at h
      obtain ⟨hsteps, hp⟩ := List.append_inj' h rfl
      obtain rfl : p = last := by simpa using hp
      exact .inr ⟨rest, List.concat_eq_append, hsteps⟩
  · rintro (⟨rfl, rfl, rfl⟩ | ⟨rest, rfl, rfl⟩)
    · rfl
    · simp

theorem eachAfter_nil {G : List α → α → Prop} : EachAfter G [] := by
  intro front p back h
  simp at h

/-- Each step of a longer history went well when those of the shorter did and the last did. -/
theorem eachAfter_concat {G : List α → α → Prop} :
    EachAfter G (steps ++ [p]) ↔ EachAfter G steps ∧ G steps p := by
  simp only [EachAfter, concat_eq_append_cons]
  constructor
  · intro h
    exact ⟨fun front q rest hsteps => h front q _ (.inr ⟨rest, rfl, hsteps⟩),
      h steps p [] (.inl ⟨rfl, rfl, rfl⟩)⟩
  · rintro ⟨hbefore, hlast⟩ front q back (⟨rfl, rfl, rfl⟩ | ⟨rest, rfl, hsteps⟩)
    · exact hlast
    · exact hbefore front q rest hsteps

/-- `E` has happened since the last `X` when it happens now, or has happened before and no `X` comes
now. -/
theorem since_concat : Since X E (steps ++ [p]) ↔ E p ∨ (Since X E steps ∧ ¬X p) := by
  simp only [Since, concat_eq_append_cons]
  constructor
  · rintro ⟨front, q, back, ⟨rfl, rfl, rfl⟩ | ⟨rest, rfl, hsteps⟩, hE, hX⟩
    · exact .inl hE
    · refine .inr ⟨⟨front, q, rest, hsteps, hE, fun r hr => hX r ?_⟩, hX p (by simp)⟩
      exact List.mem_append_left _ hr
  · rintro (hE | ⟨⟨front, q, rest, hsteps, hE, hX⟩, hp⟩)
    · exact ⟨steps, p, [], .inl ⟨rfl, rfl, rfl⟩, hE, by simp⟩
    · refine ⟨front, q, rest ++ [p], .inr ⟨rest, rfl, hsteps⟩, hE, fun r hr => ?_⟩
      rcases List.mem_append.mp hr with hr | hr
      · exact hX r hr
      · rw [List.mem_singleton.mp hr]
        exact hp

/-- The last `X` counts only when no earlier one did. -/
theorem followed_concat :
    Followed E X (steps ++ [p]) ↔ Followed E X steps ∨ (Since X E steps ∧ X p) := by
  simp only [Followed, Since, concat_eq_append_cons]
  constructor
  · rintro ⟨front, q, back, ⟨rfl, -, -⟩ | ⟨rest, rfl, hsteps⟩, hE, r, hr, hX⟩
    · cases hr
    · by_cases hrest : ∃ r ∈ rest, X r
      · exact .inl ⟨front, q, rest, hsteps, hE, hrest⟩
      · have hnone : ∀ r ∈ rest, ¬X r := by simpa using hrest
        rcases List.mem_append.mp hr with hr | hr
        · exact absurd hX (hnone r hr)
        · rw [List.mem_singleton.mp hr] at hX
          exact .inr ⟨⟨front, q, rest, hsteps, hE, hnone⟩, hX⟩
  · rintro (⟨front, q, rest, hsteps, hE, r, hr, hX⟩ | ⟨⟨front, q, rest, hsteps, hE, -⟩, hp⟩)
    · exact ⟨front, q, rest ++ [p], .inr ⟨rest, rfl, hsteps⟩, hE, r,
        List.mem_append_left _ hr, hX⟩
    · exact ⟨front, q, rest ++ [p], .inr ⟨rest, rfl, hsteps⟩, hE, p, by simp, hp⟩

end Concat

namespace Machine

variable {σ ℓ : Type} {M : Machine σ ℓ} {E X : σ × ℓ → Prop} {A : σ → Prop}
  {tr : List (σ × ℓ)} {s : σ}

/-- A state that `E` arms and `X` disarms is armed exactly when `E` happened and no `X` since. -/
theorem Run.since_iff (h0 : ¬A M.init)
    (hs : ∀ s l s', M.Reachable s → M.step s l = some s' →
      (A s' ↔ E (s, l) ∨ (A s ∧ ¬X (s, l))))
    (h : M.Run tr s) : A s ↔ Since X E tr := by
  induction h with
  | init => exact iff_of_false h0 not_since_nil
  | @step tr s s' l hrun hstep ih =>
    rw [since_concat, hs s l s' ⟨tr, hrun⟩ hstep, ih]

/-- A condition on a step and on what came before it, told by the state the step is taken from. -/
theorem Run.eachAfter_iff {G : List (σ × ℓ) → σ × ℓ → Prop} {C : σ → ℓ → Prop}
    (hG : ∀ tr s l, M.Run tr s → (G tr (s, l) ↔ C s l)) (h : M.Run tr s) :
    EachAfter G tr ↔ ∀ p ∈ tr, C p.1 p.2 := by
  induction h with
  | init => exact iff_of_true eachAfter_nil (by simp)
  | @step tr s s' l hrun _ ih =>
    rw [eachAfter_concat, ih, hG tr s l hrun]
    simp [or_imp, forall_and]

/-- A bad state entered exactly by `X` from an armed state occurs in a run exactly when some `E`
of the run is followed by an `X`. -/
theorem Run.never_iff_not_followed {B : σ → Prop} (hA0 : ¬A M.init) (hB0 : ¬B M.init)
    (hA : ∀ s l s', M.Reachable s → M.step s l = some s' →
      (A s' ↔ E (s, l) ∨ (A s ∧ ¬X (s, l))))
    (hB : ∀ s l s', M.Reachable s → ¬B s → M.step s l = some s' → (B s' ↔ A s ∧ X (s, l)))
    (h : M.Run tr s) : ((∀ p ∈ tr, ¬B p.1) ∧ ¬B s) ↔ ¬Followed E X tr := by
  rw [h.always_iff_guard (P := fun s => ¬B s) (C := fun s l => ¬(A s ∧ X (s, l))) hB0
    fun s l s' hr hn hstep => not_congr (hB s l s' hr hn hstep)]
  induction h with
  | init => exact iff_of_true (by simp) not_followed_nil
  | @step tr s s' l hrun hstep ih =>
    have hsplit : (∀ p ∈ tr ++ [(s, l)], ¬(A p.1 ∧ X (p.1, p.2))) ↔
        (∀ p ∈ tr, ¬(A p.1 ∧ X (p.1, p.2))) ∧ ¬(A s ∧ X (s, l)) := by
      simp only [List.mem_append, List.mem_singleton, or_imp, forall_and, forall_eq]
    rw [hsplit, ih, followed_concat, hrun.since_iff hA0 hA, not_or]

end Machine

end Seekira.Library
