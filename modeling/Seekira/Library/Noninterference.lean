import Seekira.Library.Machine

/-!
# What one party of a machine lets the others see

The labels of a machine belong to parties.  A relation tells which states look alike to
everybody but one party, and the others' steps carry looking alike over.  If the party's
own steps do not change how a state looks, they can be erased from a run, and two runs
with the same steps of the others end in states that look alike, even when the party
starts with something else to do in one of them.  Conversely, a step of the party that
changes what can be observed tells the run from the one without the party's steps.
-/

set_option autoImplicit false

namespace Seekira.Library.Machine

variable {σ ℓ ο : Type} {step : σ → ℓ → Option σ} {own : ℓ → Prop} {R : σ → σ → Prop}

/-- The others' steps of a run, in order. -/
def others (own : ℓ → Prop) [DecidablePred own] (tr : List (σ × ℓ)) : List ℓ :=
  (tr.map Prod.snd).filter fun l => ¬own l

/-- The others' steps carry looking alike over. -/
def StepsAlike (step : σ → ℓ → Option σ) (own : ℓ → Prop) (R : σ → σ → Prop) : Prop :=
  ∀ s t l s', R s t → ¬own l → step s l = some s' → ∃ t', step t l = some t' ∧ R s' t'

/-- In no run from `init` does a step of the party change how the state looks. -/
def OwnStepsUnseen (step : σ → ℓ → Option σ) (own : ℓ → Prop) (R : σ → σ → Prop) (init : σ) : Prop :=
  ∀ tr s l s', (⟨init, step⟩ : Machine σ ℓ).Run tr s → own l → step s l = some s' → R s' s

/-- The last label is executed last. -/
theorem exec_snoc (M : Machine σ ℓ) (s : σ) (ls : List ℓ) (l : ℓ) :
    M.exec s (ls ++ [l]) = (M.exec s ls).bind fun s' => M.step s' l := by
  induction ls generalizing s with
  | nil =>
    rcases hstep : M.step s l with _ | s'
    · simp [exec, hstep]
    · simp [exec, hstep]
  | cons l' ls ih =>
    rcases hstep : M.step s l' with _ | s'
    · simp [exec, hstep]
    · simp [exec, hstep, ih]

/-- When no label is its own, all labels of a trace are of the others. -/
theorem others_of_trace [DecidablePred own] {M : Machine σ ℓ} {s s' : σ} {ls : List ℓ}
    (he : M.exec s ls = some s') (hls : ∀ l ∈ ls, ¬own l) : others own (M.trace s ls) = ls := by
  induction ls generalizing s with
  | nil => rfl
  | cons l ls ih =>
    rcases hstep : M.step s l with _ | s₁
    · simp [exec, hstep] at he
    · simp only [exec, hstep, Option.bind_some] at he
      have hrest := ih he fun l' hl' => hls l' (List.mem_cons_of_mem _ hl')
      have hl := hls l (by simp)
      simp only [others, trace, hstep, Option.map_some, Option.getD_some, List.map_cons,
        decide_not] at hrest ⊢
      rw [List.filter_cons_of_pos (by simpa using hl), hrest]

/-- The others' steps from two states that look alike end in states that look alike. -/
theorem StepsAlike.exec (h : StepsAlike step own R) {init init' s t s' : σ} (hst : R s t)
    {ls : List ℓ} (hls : ∀ l ∈ ls, ¬own l)
    (he : (⟨init, step⟩ : Machine σ ℓ).exec s ls = some s') :
    ∃ t', (⟨init', step⟩ : Machine σ ℓ).exec t ls = some t' ∧ R s' t' := by
  induction ls generalizing s t with
  | nil =>
    cases he
    exact ⟨t, rfl, hst⟩
  | cons l ls ih =>
    rcases hstep : step s l with _ | s₁
    · simp [Machine.exec, hstep] at he
    · obtain ⟨t₁, ht₁, hst₁⟩ := h s t l s₁ hst (hls l (by simp)) hstep
      simp only [Machine.exec, hstep, Option.bind_some] at he
      obtain ⟨t', ht', hst'⟩ := ih hst₁ (fun l' hl' => hls l' (List.mem_cons_of_mem _ hl')) he
      exact ⟨t', by simpa [Machine.exec, ht₁] using ht', hst'⟩

variable [DecidablePred own]

theorem others_mem {tr : List (σ × ℓ)} : ∀ l ∈ others own tr, ¬own l := by
  intro l hl
  simpa using (List.mem_filter.mp hl).2

theorem others_snoc (tr : List (σ × ℓ)) (s : σ) (l : ℓ) :
    others own (tr ++ [(s, l)]) = if own l then others own tr else others own tr ++ [l] := by
  by_cases hl : own l
  · simp [others, hl]
  · simp [others, hl]

/-- Erasing the party's steps from a run leaves a run to a state that looks alike. -/
theorem Run.erase (hR : Equivalence R) (halike : StepsAlike step own R) {init : σ}
    (hunseen : OwnStepsUnseen step own R init) {tr : List (σ × ℓ)} {s : σ}
    (h : (⟨init, step⟩ : Machine σ ℓ).Run tr s) :
    ∃ s₀, (⟨init, step⟩ : Machine σ ℓ).exec init (others own tr) = some s₀ ∧ R s s₀ := by
  induction h with
  | init => exact ⟨init, rfl, hR.refl init⟩
  | @step tr s s' l hrun hstep ih =>
    obtain ⟨s₀, hs₀, hlook⟩ := ih
    rw [others_snoc]
    by_cases hl : own l
    · rw [if_pos hl]
      exact ⟨s₀, hs₀, hR.trans (hunseen tr s l s' hrun hl hstep) hlook⟩
    · rw [if_neg hl, exec_snoc, hs₀]
      exact halike s s₀ l s' hlook hl hstep

/-- Two runs with the same steps of the others end in states that look alike. -/
theorem alike_of_unseen (hR : Equivalence R) (halike : StepsAlike step own R) {init init' : σ}
    (hinit : R init init') (hunseen : OwnStepsUnseen step own R init)
    (hunseen' : OwnStepsUnseen step own R init') {tr tr' : List (σ × ℓ)} {s s' : σ}
    (h : (⟨init, step⟩ : Machine σ ℓ).Run tr s) (h' : (⟨init', step⟩ : Machine σ ℓ).Run tr' s')
    (hothers : others own tr = others own tr') : R s s' := by
  obtain ⟨s₀, hs₀, hlook⟩ := h.erase hR halike hunseen
  obtain ⟨s₁, hs₁, hlook'⟩ := h'.erase hR halike hunseen'
  obtain ⟨t, ht, hst⟩ := halike.exec hinit others_mem hs₀
  rw [hothers] at ht
  obtain rfl : s₁ = t := Option.some.inj (hs₁.symm.trans ht)
  exact hR.trans hlook (hR.trans hst (hR.symm hlook'))

/-- A run that can be told from no run with the same steps of the others has no step of the party
that is seen. -/
theorem unseen_of_same (hR : Equivalence R) (halike : StepsAlike step own R) {init init' : σ}
    (hinit : R init init') {obs : σ → ο} (hobs : ∀ s t, R s t → obs s = obs t)
    (hseen : ∀ s l s', own l → step s l = some s' → obs s' = obs s → R s' s)
    (hsame : ∀ tr s tr' s', (⟨init, step⟩ : Machine σ ℓ).Run tr s →
      (⟨init', step⟩ : Machine σ ℓ).Run tr' s' → others own tr = others own tr' → obs s = obs s') :
    OwnStepsUnseen step own R init := by
  -- every run looks like the others' steps alone, taken from `init'`
  have key : ∀ tr s, (⟨init, step⟩ : Machine σ ℓ).Run tr s →
      ∃ t, (⟨init', step⟩ : Machine σ ℓ).exec init' (others own tr) = some t ∧ R s t := by
    intro tr s h
    induction h with
    | init => exact ⟨init', rfl, hinit⟩
    | @step tr s s' l hrun hstep ih =>
      obtain ⟨t, ht, hst⟩ := ih
      rw [others_snoc]
      by_cases hl : own l
      · rw [if_pos hl]
        have hrun' := run_of_exec (M := ⟨init', step⟩) ht
        have heq : obs s' = obs t := by
          refine hsame _ _ _ _ (hrun.step hstep) hrun' ?_
          rw [others_snoc, if_pos hl, others_of_trace ht others_mem]
        exact ⟨t, ht, hR.trans (hseen s l s' hl hstep (heq.trans (hobs s t hst).symm)) hst⟩
      · rw [if_neg hl, exec_snoc, ht]
        exact halike s t l s' hst hl hstep
  intro tr s l s' hrun hl hstep
  obtain ⟨t', ht', hst'⟩ := key _ _ (hrun.step hstep)
  rw [others_snoc, if_pos hl] at ht'
  obtain ⟨t₀, ht₀, hst₀⟩ := key tr s hrun
  obtain rfl : t₀ = t' := Option.some.inj (ht₀.symm.trans ht')
  exact hR.trans hst' (hR.symm hst₀)

/-- Runs that differ only in what the party does look the same exactly when no step of the party is
seen in either. -/
theorem noninterference_iff (hR : Equivalence R) (halike : StepsAlike step own R) {init init' : σ}
    (hinit : R init init') {obs : σ → ο} (hobs : ∀ s t, R s t → obs s = obs t)
    (hseen : ∀ s l s', own l → step s l = some s' → obs s' = obs s → R s' s) :
    (∀ tr s tr' s', (⟨init, step⟩ : Machine σ ℓ).Run tr s →
      (⟨init', step⟩ : Machine σ ℓ).Run tr' s' → others own tr = others own tr' → obs s = obs s') ↔
    OwnStepsUnseen step own R init ∧ OwnStepsUnseen step own R init' := by
  constructor
  · intro hsame
    refine ⟨unseen_of_same hR halike hinit hobs hseen hsame, ?_⟩
    apply unseen_of_same hR halike (hR.symm hinit) hobs hseen
    intro tr s tr' s' h h' hothers
    exact (hsame tr' s' tr s h' h hothers.symm).symm
  · rintro ⟨hunseen, hunseen'⟩ tr s tr' s' h h' hothers
    exact hobs s s' (alike_of_unseen hR halike hinit hunseen hunseen' h h' hothers)

end Seekira.Library.Machine
