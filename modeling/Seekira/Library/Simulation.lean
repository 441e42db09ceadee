import Seekira.Library.Machine

/-!
# Forward simulation

A concrete machine simulates an abstract one when every concrete step is matched by
a sequence of abstract ones, possibly empty, after which the states are related
again.  The relation may look at the abstract labels taken so far, so that it can
relate what either machine has recorded.  A simulation may be restricted to a part
of the concrete machine that its runs cannot re-enter once they have left it.
-/

set_option autoImplicit false

namespace Seekira.Library

namespace Machine

variable {σ ℓ τ κ : Type}

/-- While `M` is in `scope`, each of its steps is matched by steps of `A` along `R`. -/
structure Simulates (M : Machine σ ℓ) (A : Machine τ κ) (scope : σ → Prop)
    (R : List κ → τ → σ → Prop) : Prop where
  init : R [] A.init M.init
  back : ∀ s l s', M.step s l = some s' → scope s' → scope s
  step : ∀ ks a s l s', R ks a s → M.step s l = some s' → scope s' →
    ∃ ls a', A.exec a ls = some a' ∧ R (ks ++ ls) a' s'

variable {M : Machine σ ℓ} {A : Machine τ κ} {scope : σ → Prop} {R : List κ → τ → σ → Prop}

/-- Every reachable state in scope is related to a state that the abstract machine reaches. -/
theorem Simulates.reachable (h : M.Simulates A scope R) {s : σ} (hs : M.Reachable s)
    (hscope : scope s) : ∃ ks a, A.exec A.init ks = some a ∧ R ks a s := by
  obtain ⟨tr, hrun⟩ := hs
  induction hrun with
  | init => exact ⟨[], A.init, rfl, h.init⟩
  | @step tr s s' l _ hstep ih =>
    obtain ⟨ks, a, hexec, hR⟩ := ih (h.back s l s' hstep hscope)
    obtain ⟨ls, a', hls, hR'⟩ := h.step ks a s l s' hR hstep hscope
    exact ⟨ks ++ ls, a', by rw [exec_append, hexec, Option.bind_some, hls], hR'⟩

/-- Along `R` either both machines can take a step, or neither can. -/
structure Lockstep (M : Machine σ ℓ) (A : Machine τ κ) (label : κ → ℓ) (R : τ → σ → Prop) :
    Prop where
  init : R A.init M.init
  step : ∀ a s k, R a s → Option.Rel R (A.step a k) (M.step s (label k))

/-- Two machines in lockstep are so after any number of steps, and get stuck together. -/
theorem Lockstep.exec {label : κ → ℓ} {R : τ → σ → Prop} (h : M.Lockstep A label R) {a : τ}
    {s : σ} (hR : R a s) (ks : List κ) :
    Option.Rel R (A.exec a ks) (M.exec s (ks.map label)) := by
  induction ks generalizing a s with
  | nil => exact .some hR
  | cons k ks ih =>
    have hstep := h.step a s k hR
    show Option.Rel R ((A.step a k).bind fun a' => A.exec a' ks)
      ((M.step s (label k)).bind fun s' => M.exec s' (ks.map label))
    generalize A.step a k = next at hstep ⊢
    generalize M.step s (label k) = next' at hstep ⊢
    cases hstep with
    | none => exact .none
    | some hR' => exact ih hR'

end Machine

end Seekira.Library
