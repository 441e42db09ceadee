import Mathlib.Tactic.Common
import Mathlib.Data.List.Basic

/-!
# Labelled machines and their runs

A machine has one initial state and a partial step function; a label names the
party that moves and the choice it makes, so an interleaving of several parties
is a list of labels.  A run records every step taken together with the state it
was taken from, which lets a statement speak about the steps of a run (a guard
every step meets) and about its last state at once.

Two rules carry the developments built on it: an invariant that every step
preserves holds of every reachable state, and a property that a step keeps
exactly when the step meets a guard holds at the end of a run exactly when every
step of the run met the guard.
-/

set_option autoImplicit false

namespace Seekira.Library

/-- A machine over states `σ` whose steps are named by labels `ℓ`. -/
structure Machine (σ ℓ : Type) where
  init : σ
  step : σ → ℓ → Option σ

namespace Machine

variable {σ ℓ : Type} {M : Machine σ ℓ}

/-- A run from the initial state: the steps taken, each with its source, and the last state. -/
inductive Run (M : Machine σ ℓ) : List (σ × ℓ) → σ → Prop
  | init : Run M [] M.init
  | step {tr : List (σ × ℓ)} {s s' : σ} {l : ℓ} :
      Run M tr s → M.step s l = some s' → Run M (tr ++ [(s, l)]) s'

/-- Some run ends in the state. -/
def Reachable (M : Machine σ ℓ) (s : σ) : Prop := ∃ tr, M.Run tr s

/-- A step from a reachable state leads to a reachable one. -/
theorem Reachable.step {s s' : σ} {l : ℓ} (h : M.Reachable s) (hs : M.step s l = some s') :
    M.Reachable s' := by
  obtain ⟨tr, hr⟩ := h
  exact ⟨_, hr.step hs⟩

/-- An invariant that steps meeting the guard preserve holds at the end of every
run whose steps all meet it. -/
theorem Run.invariant_of_guard {I : σ → Prop} {C : σ → ℓ → Prop} {tr : List (σ × ℓ)} {s : σ}
    (h0 : I M.init) (hs : ∀ s l s', I s → C s l → M.step s l = some s' → I s')
    (h : M.Run tr s) (hC : ∀ p ∈ tr, C p.1 p.2) : I s := by
  induction h with
  | init => exact h0
  | @step tr s s' l _ hstep ih =>
    have hlast : C s l := hC (s, l) (by simp)
    exact hs s l s' (ih fun p hp => hC p (List.mem_append_left _ hp)) hlast hstep

/-- Such an invariant also holds of the source of every step of the run. -/
theorem Run.invariant_source_of_guard {I : σ → Prop} {C : σ → ℓ → Prop} {tr : List (σ × ℓ)} {s : σ}
    (h0 : I M.init) (hs : ∀ s l s', I s → C s l → M.step s l = some s' → I s')
    (h : M.Run tr s) (hC : ∀ p ∈ tr, C p.1 p.2) : ∀ p ∈ tr, I p.1 := by
  induction h with
  | init => simp
  | @step tr s s' l hr _ ih =>
    have hprev : ∀ p ∈ tr, C p.1 p.2 := fun p hp => hC p (List.mem_append_left _ hp)
    intro p hp
    rcases List.mem_append.mp hp with hp | hp
    · exact ih hprev p hp
    · obtain rfl : p = (s, l) := by simpa using hp
      exact hr.invariant_of_guard h0 hs hprev

/-- An invariant that every step preserves holds at the end of every run. -/
theorem Run.invariant {I : σ → Prop} {tr : List (σ × ℓ)} {s : σ}
    (h0 : I M.init) (hs : ∀ s l s', I s → M.step s l = some s' → I s')
    (h : M.Run tr s) : I s :=
  h.invariant_of_guard (C := fun _ _ => True) h0 (fun s l s' hi _ => hs s l s' hi)
    fun _ _ => trivial

/-- An invariant that every step preserves holds in every reachable state. -/
theorem Reachable.invariant {I : σ → Prop} {s : σ}
    (h0 : I M.init) (hs : ∀ s l s', I s → M.step s l = some s' → I s')
    (h : M.Reachable s) : I s := by
  obtain ⟨tr, hr⟩ := h
  exact hr.invariant h0 hs

/-- A step keeps `P` exactly when it meets the guard `C`: then `P` holds at the
end of a run exactly when all its steps met `C`, provided that nothing restores a
lost `P`.  Only runs whose steps all meet `G` are considered, and the auxiliary
invariant `I` may use that `P` still holds. -/
theorem Run.iff_guard {I P : σ → Prop} {G C : σ → ℓ → Prop} {tr : List (σ × ℓ)} {s : σ}
    (hI0 : I M.init) (hP0 : P M.init)
    (hkeep : ∀ s l s', I s → P s → G s l → C s l → M.step s l = some s' → I s' ∧ P s')
    (hbreak : ∀ s l s', I s → P s → G s l → ¬C s l → M.step s l = some s' → ¬P s')
    (hstay : ∀ s l s', M.Reachable s → ¬P s → G s l → M.step s l = some s' → ¬P s')
    (h : M.Run tr s) (hG : ∀ p ∈ tr, G p.1 p.2) : P s ↔ ∀ p ∈ tr, C p.1 p.2 := by
  have key : (P s → I s) ∧ (P s ↔ ∀ p ∈ tr, C p.1 p.2) := by
    induction h with
    | init => exact ⟨fun _ => hI0, by simpa using hP0⟩
    | @step tr s s' l hrun hstep ih =>
      obtain ⟨ihI, ihP⟩ := ih fun p hp => hG p (List.mem_append_left _ hp)
      have hg : G s l := hG (s, l) (by simp)
      have hsplit : (∀ p ∈ tr ++ [(s, l)], C p.1 p.2) ↔
          (∀ p ∈ tr, C p.1 p.2) ∧ C s l := by
        simp [or_imp, forall_and]
      have hiff : P s' ↔ P s ∧ C s l := by
        constructor
        · intro hP'
          have hP : P s := by
            by_contra hn
            exact hstay s l s' ⟨tr, hrun⟩ hn hg hstep hP'
          refine ⟨hP, ?_⟩
          by_contra hn
          exact hbreak s l s' (ihI hP) hP hg hn hstep hP'
        · rintro ⟨hP, hc⟩
          exact (hkeep s l s' (ihI hP) hP hg hc hstep).2
      refine ⟨fun hP' => ?_, by rw [hiff, hsplit, ihP]⟩
      obtain ⟨hP, hc⟩ := hiff.mp hP'
      exact (hkeep s l s' (ihI hP) hP hg hc hstep).1
  exact key.2

/-- A step from a state with `P` leads to one exactly when it meets the guard `C`: then `P` holds
of every state of a run exactly when all its steps met `C`. -/
theorem Run.always_iff_guard {P : σ → Prop} {C : σ → ℓ → Prop} {tr : List (σ × ℓ)} {s : σ}
    (h0 : P M.init)
    (hs : ∀ s l s', M.Reachable s → P s → M.step s l = some s' → (P s' ↔ C s l))
    (h : M.Run tr s) : ((∀ p ∈ tr, P p.1) ∧ P s) ↔ ∀ p ∈ tr, C p.1 p.2 := by
  induction h with
  | init => simpa using h0
  | @step tr s s' l hrun hstep ih =>
    have hlast : (∀ p ∈ tr ++ [(s, l)], P p.1) ↔ (∀ p ∈ tr, P p.1) ∧ P s := by
      simp [or_imp, forall_and]
    have hsplit : (∀ p ∈ tr ++ [(s, l)], C p.1 p.2) ↔ (∀ p ∈ tr, C p.1 p.2) ∧ C s l := by
      simp [or_imp, forall_and]
    rw [hlast, hsplit, ← ih]
    constructor
    · rintro ⟨hbefore, hafter⟩
      exact ⟨hbefore, (hs s l s' ⟨tr, hrun⟩ hbefore.2 hstep).mp hafter⟩
    · rintro ⟨hbefore, hguard⟩
      exact ⟨hbefore, (hs s l s' ⟨tr, hrun⟩ hbefore.2 hstep).mpr hguard⟩

/-- `Q` holds of every state of a run, together with the steps that led to it. -/
def Throughout (Q : List (σ × ℓ) → σ → Prop) (tr : List (σ × ℓ)) (s : σ) : Prop :=
  (∀ front p back, tr = front ++ p :: back → Q front p.1) ∧ Q tr s

theorem throughout_nil {Q : List (σ × ℓ) → σ → Prop} {s : σ} : Throughout Q [] s ↔ Q [] s := by
  simp [Throughout]

/-- A run one step longer meets the condition throughout when the shorter one does and its end does.
-/
theorem throughout_concat {Q : List (σ × ℓ) → σ → Prop} {tr : List (σ × ℓ)} {s s' : σ} {l : ℓ} :
    Throughout Q (tr ++ [(s, l)]) s' ↔ Throughout Q tr s ∧ Q (tr ++ [(s, l)]) s' := by
  constructor
  · rintro ⟨hbefore, hlast⟩
    refine ⟨⟨fun front p back htr => hbefore front p (back ++ [(s, l)]) ?_, ?_⟩, hlast⟩
    · rw [htr, List.append_assoc, List.cons_append]
    · exact hbefore tr (s, l) [] rfl
  · rintro ⟨⟨hbefore, hsource⟩, hlast⟩
    refine ⟨fun front p back htr => ?_, hlast⟩
    rcases List.eq_nil_or_concat back with rfl | ⟨back, q, rfl⟩
    · obtain ⟨rfl, hp⟩ := List.append_inj' htr rfl
      obtain rfl : (s, l) = p := by simpa using hp
      exact hsource
    · rw [List.concat_eq_append, ← List.cons_append, ← List.append_assoc] at htr
      exact hbefore front p back (List.append_inj' htr rfl).1

/-- As `Run.always_iff_guard`, of a property of a state together with the steps that led to it. -/
theorem Run.throughout_iff_guard {Q : List (σ × ℓ) → σ → Prop} {C : σ → ℓ → Prop}
    {tr : List (σ × ℓ)} {s : σ} (h0 : Q [] M.init)
    (hs : ∀ tr s l s', M.Run tr s → Q tr s → M.step s l = some s' →
      (Q (tr ++ [(s, l)]) s' ↔ C s l))
    (h : M.Run tr s) : Throughout Q tr s ↔ ∀ p ∈ tr, C p.1 p.2 := by
  induction h with
  | init => simpa [throughout_nil] using h0
  | @step tr s s' l hrun hstep ih =>
    have hsplit : (∀ p ∈ tr ++ [(s, l)], C p.1 p.2) ↔ (∀ p ∈ tr, C p.1 p.2) ∧ C s l := by
      simp [or_imp, forall_and]
    rw [throughout_concat, hsplit, ← ih]
    constructor
    · rintro ⟨hbefore, hafter⟩
      exact ⟨hbefore, (hs tr s l s' hrun hbefore.2 hstep).mp hafter⟩
    · rintro ⟨hbefore, hguard⟩
      exact ⟨hbefore, (hs tr s l s' hrun hbefore.2 hstep).mpr hguard⟩

/-- What some step of a run establishes and every step keeps holds at the end. -/
theorem Run.of_mem {Q : σ → Prop} {tr : List (σ × ℓ)} {s : σ}
    (hstay : ∀ s l s', Q s → M.step s l = some s' → Q s') (h : M.Run tr s) {p : σ × ℓ} (hp : p ∈ tr)
    (henter : ∀ s', M.step p.1 p.2 = some s' → Q s') : Q s := by
  induction h with
  | init => cases hp
  | @step tr s s' l _ hstep ih =>
    rcases List.mem_append.mp hp with hp | hp
    · exact hstay s l s' (ih hp) hstep
    · obtain rfl : p = (s, l) := by simpa using hp
      exact henter s' hstep

/-- Every step of a run is taken from a reachable state and succeeds. -/
theorem Run.step_mem {tr : List (σ × ℓ)} {s : σ} (h : M.Run tr s) :
    ∀ p ∈ tr, M.Reachable p.1 ∧ ∃ s', M.step p.1 p.2 = some s' := by
  induction h with
  | init => simp
  | @step tr s s' l hr hstep ih =>
    intro p hp
    rcases List.mem_append.mp hp with hp | hp
    · exact ih p hp
    · obtain rfl : p = (s, l) := by simpa using hp
      exact ⟨⟨tr, hr⟩, s', hstep⟩

/-- Follow a list of labels from a state; `none` when some step is not enabled. -/
def exec (M : Machine σ ℓ) : σ → List ℓ → Option σ
  | s, [] => some s
  | s, l :: ls => (M.step s l).bind fun s' => M.exec s' ls

/-- Labels are executed one part after the other. -/
theorem exec_append (s : σ) (ls ls' : List ℓ) :
    M.exec s (ls ++ ls') = (M.exec s ls).bind fun s' => M.exec s' ls' := by
  induction ls generalizing s with
  | nil => rfl
  | cons l ls ih =>
    cases hs : M.step s l with
    | none => simp [exec, hs]
    | some s' => simp [exec, hs, ih]

/-- The steps that `exec` takes, each with its source. -/
def trace (M : Machine σ ℓ) : σ → List ℓ → List (σ × ℓ)
  | _, [] => []
  | s, l :: ls => (s, l) :: ((M.step s l).map fun s' => M.trace s' ls).getD []

/-- The labels of a trace are those that it was made of. -/
theorem label_mem_of_trace {s : σ} {ls : List ℓ} {p : σ × ℓ} (h : p ∈ M.trace s ls) :
    p.2 ∈ ls := by
  induction ls generalizing s with
  | nil => simp [trace] at h
  | cons l ls ih =>
    rcases List.mem_cons.mp h with rfl | h
    · simp
    · cases hstep : M.step s l with
      | none => simp [hstep] at h
      | some s' =>
        simp only [hstep, Option.map_some, Option.getD_some] at h
        exact List.mem_cons_of_mem _ (ih h)

/-- A run goes on with an execution from where it ended. -/
theorem Run.append_exec {tr : List (σ × ℓ)} {s s' : σ} {ls : List ℓ} (h : M.Run tr s)
    (he : M.exec s ls = some s') : M.Run (tr ++ M.trace s ls) s' := by
  induction ls generalizing tr s with
  | nil =>
    obtain rfl : s = s' := by simpa [exec] using he
    simpa [trace] using h
  | cons l ls ih =>
    cases hstep : M.step s l with
    | none => simp [exec, hstep] at he
    | some s1 =>
      simp only [exec, hstep, Option.bind_some] at he
      have hrun := ih (h.step hstep) he
      simpa [trace, hstep] using hrun

/-- A list of labels that `exec` can follow is a run. -/
theorem run_of_exec {s : σ} {ls : List ℓ} (he : M.exec M.init ls = some s) :
    M.Run (M.trace M.init ls) s := by
  simpa using Run.init.append_exec he

/-- A run that `exec` can follow and whose last state passes a test. -/
theorem exists_run_of_exec (M : Machine σ ℓ) (ls : List ℓ) (p : σ → Bool)
    (he : (M.exec M.init ls).any p = true) :
    ∃ s, M.exec M.init ls = some s ∧ M.Run (M.trace M.init ls) s ∧ p s = true := by
  cases hs : M.exec M.init ls with
  | none => simp [hs] at he
  | some s =>
    simp only [hs, Option.any_some] at he
    exact ⟨s, rfl, run_of_exec hs, he⟩

end Machine

end Seekira.Library
