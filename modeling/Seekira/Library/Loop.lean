import Mathlib.Order.WellFounded
import Mathlib.Tactic.Common

/-!
# Loops by their rounds

A loop is given by what one round does: it goes on in a new state, or leaves the loop with a
result.  That a loop leaves is a statement about its rounds, not about a bound that a definition
was given; an invariant with a variant proves it, and what holds at the exits follows from the
invariant alone.
-/

set_option autoImplicit false

namespace Seekira.Library

/-- What one round of a loop over states `σ` comes to. -/
inductive Round (σ ρ : Type) where
  | again (s : σ)
  | leave (r : ρ)
  deriving Repr

/-- The loop entered in `s` leaves with `r` in its `n`-th round. -/
inductive Leaves {σ ρ : Type} (round : σ → Round σ ρ) : Nat → σ → ρ → Prop
  | last {s : σ} {r : ρ} : round s = .leave r → Leaves round 1 s r
  | next {n : Nat} {s s' : σ} {r : ρ} :
      round s = .again s' → Leaves round n s' r → Leaves round (n + 1) s r

/-- The loop entered in `s` is in `s'` after `n` rounds. -/
inductive Goes {σ ρ : Type} (round : σ → Round σ ρ) (s : σ) : Nat → σ → Prop
  | enter : Goes round s 0 s
  | again {n : Nat} {s' s'' : σ} :
      Goes round s n s' → round s' = .again s'' → Goes round s (n + 1) s''

/-- Follow the loop for so many rounds; `none` when it has not left by then. -/
def follow {σ ρ : Type} (round : σ → Round σ ρ) : Nat → σ → Option ρ
  | 0, _ => none
  | fuel + 1, s =>
    match round s with
    | .again s' => follow round fuel s'
    | .leave r => some r

section

variable {σ ρ : Type} {round : σ → Round σ ρ} {s : σ} {r : ρ} {n : Nat}

/-- What is found by following the loop is what it leaves with, within the rounds followed. -/
theorem follow_eq_some_iff {fuel : Nat} :
    follow round fuel s = some r ↔ ∃ n, n ≤ fuel ∧ Leaves round n s r := by
  induction fuel generalizing s with
  | zero =>
    constructor
    · intro h
      cases h
    · rintro ⟨n, hn, h⟩
      cases h <;> omega
  | succ fuel ih =>
    unfold follow
    cases hround : round s with
    | again s' =>
      dsimp only
      rw [ih]
      constructor
      · rintro ⟨n, hn, h⟩
        exact ⟨n + 1, by omega, .next hround h⟩
      · rintro ⟨n, hn, h⟩
        cases h with
        | last hlast =>
          rw [hround] at hlast
          cases hlast
        | next hagain hrest =>
          rw [hround] at hagain
          obtain rfl := Round.again.inj hagain
          exact ⟨_, by omega, hrest⟩
    | leave r' =>
      dsimp only
      constructor
      · intro h
        obtain rfl := Option.some.inj h
        exact ⟨1, by omega, .last hround⟩
      · rintro ⟨n, hn, h⟩
        cases h with
        | last hlast =>
          rw [hround] at hlast
          exact congrArg some (Round.leave.inj hlast)
        | next hagain _ =>
          rw [hround] at hagain
          cases hagain

/-- The rounds decide when a loop leaves, and with what. -/
theorem Leaves.unique {n' : Nat} {r' : ρ} (h : Leaves round n s r) (h' : Leaves round n' s r') :
    n = n' ∧ r = r' := by
  induction h generalizing n' with
  | last hlast =>
    cases h' with
    | last hlast' =>
      rw [hlast] at hlast'
      exact ⟨rfl, Round.leave.inj hlast'⟩
    | next hagain' =>
      rw [hlast] at hagain'
      cases hagain'
  | next hagain _ ih =>
    cases h' with
    | last hlast' =>
      rw [hagain] at hlast'
      cases hlast'
    | next hagain' hrest' =>
      rw [hagain] at hagain'
      obtain rfl := Round.again.inj hagain'
      obtain ⟨hn, hr⟩ := ih hrest'
      exact ⟨congrArg (· + 1) hn, hr⟩

/-- What the invariant gives at the exits holds of the result. -/
theorem Leaves.post {I : σ → Prop} {Q : ρ → Prop}
    (hkeep : ∀ s s', I s → round s = .again s' → I s')
    (hleave : ∀ s r, I s → round s = .leave r → Q r)
    (h : Leaves round n s r) (hs : I s) : Q r := by
  induction h with
  | last hlast => exact hleave _ _ hs hlast
  | next hagain _ ih => exact ih (hkeep _ _ hs hagain)

/-- A loop whose rounds keep the invariant and lower the variant leaves. -/
theorem exists_leaves {α : Type} [LT α] [WellFoundedLT α] {I : σ → Prop} {variant : σ → α}
    (hdown : ∀ s s', I s → round s = .again s' → I s' ∧ variant s' < variant s)
    (hs : I s) : ∃ n r, Leaves round n s r := by
  induction hv : variant s using WellFoundedLT.induction generalizing s with
  | ind v ih =>
    cases hround : round s with
    | leave r => exact ⟨1, r, .last hround⟩
    | again s' =>
      obtain ⟨hs', hlt⟩ := hdown s s' hs hround
      obtain ⟨n, r, hrest⟩ := ih _ (hv ▸ hlt) hs' rfl
      exact ⟨n + 1, r, .next hround hrest⟩

/-- The variant bounds the number of rounds. -/
theorem Leaves.rounds_le {I : σ → Prop} {variant : σ → Nat}
    (hdown : ∀ s s', I s → round s = .again s' → I s' ∧ variant s' < variant s)
    (h : Leaves round n s r) (hs : I s) : n ≤ variant s + 1 := by
  induction h with
  | last _ => omega
  | next hagain _ ih =>
    obtain ⟨hs', hlt⟩ := hdown _ _ hs hagain
    have hle := ih hs'
    omega

end

end Seekira.Library
