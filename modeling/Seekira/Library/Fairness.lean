import Mathlib.Data.List.GetD
import Mathlib.Order.Filter.AtTopBot.Basic
import Mathlib.Order.WellFounded
import Seekira.Library.Machine

/-!
# Fair executions of a machine

An execution is an infinite interleaving: at every moment some step is taken, or
nothing happens.  Its finite prefixes are runs, so what holds of every reachable
state holds at every moment of it.  A party is a set of labels, such as all steps
of one thread; a weakly fair execution does not ignore a party that stays enabled
for ever, a strongly fair one does not ignore a party that is enabled again and
again.

Two rules turn fairness into progress.  The rank rule: a situation in which the
party can always move, and each of its moves brings a rank down that nobody else
raises, does not last.  The other one: a party that has stopped moving is, in a
strongly fair execution, disabled from some moment on, so that nothing is left
for it to do.
-/

set_option autoImplicit false

namespace Seekira.Library

open Filter

variable {σ ℓ : Type} {M : Machine σ ℓ}

/-- The machine can take a step of the party `A`. -/
def Machine.Enabled (M : Machine σ ℓ) (A : Set ℓ) (s : σ) : Prop :=
  ∃ l ∈ A, ∃ s', M.step s l = some s'

/-- An infinite interleaving of the machine's steps; `none` marks a moment without a step. -/
structure Execution (M : Machine σ ℓ) where
  state : ℕ → σ
  label : ℕ → Option ℓ
  init : state 0 = M.init
  next : ∀ n, (label n).elim (state (n + 1) = state n)
    fun l => M.step (state n) l = some (state (n + 1))

namespace Execution

variable {ex : Execution M}

/-! ## The steps of an execution -/

theorem next_some {n : ℕ} {l : ℓ} (h : ex.label n = some l) :
    M.step (ex.state n) l = some (ex.state (n + 1)) := by
  simpa [h] using ex.next n

theorem next_none {n : ℕ} (h : ex.label n = none) : ex.state (n + 1) = ex.state n := by
  simpa [h] using ex.next n

/-- The steps taken before moment `n`, each with its source. -/
def steps (ex : Execution M) : ℕ → List (σ × ℓ)
  | 0 => []
  | n + 1 => ex.steps n ++ ((ex.label n).map fun l => (ex.state n, l)).toList

/-- The finite prefixes of an execution are runs. -/
theorem run (ex : Execution M) (n : ℕ) : M.Run (ex.steps n) (ex.state n) := by
  induction n with
  | zero =>
    rw [ex.init]
    exact .init
  | succ n ih =>
    cases hl : ex.label n with
    | none => simpa [steps, hl, next_none hl] using ih
    | some l => simpa [steps, hl] using ih.step (next_some hl)

/-- Every step made so far was made at some moment before. -/
theorem exists_of_mem_steps {n : ℕ} {p : σ × ℓ} (h : p ∈ ex.steps n) :
    ∃ k < n, ex.state k = p.1 ∧ ex.label k = some p.2 := by
  induction n with
  | zero => simp [steps] at h
  | succ n ih =>
    rcases List.mem_append.mp h with h | h
    · obtain ⟨k, hk, hp⟩ := ih h
      exact ⟨k, by omega, hp⟩
    · cases hl : ex.label n with
      | none => simp [hl] at h
      | some l =>
        obtain rfl : p = (ex.state n, l) := by simpa [hl] using h
        exact ⟨n, by omega, rfl, hl⟩

/-- An invariant that steps meeting the guard preserve holds at every moment of an execution
whose steps all meet it. -/
theorem invariant_of_guard {I : σ → Prop} {C : σ → ℓ → Prop} (h0 : I M.init)
    (hs : ∀ s l s', I s → C s l → M.step s l = some s' → I s')
    (hC : ∀ n l, ex.label n = some l → C (ex.state n) l) (n : ℕ) : I (ex.state n) := by
  refine (ex.run n).invariant_of_guard h0 hs fun p hp => ?_
  obtain ⟨k, -, hstate, hlabel⟩ := exists_of_mem_steps hp
  rw [← hstate]
  exact hC k p.2 hlabel

/-- What a moment establishes and every later step keeps holds from then on. -/
theorem eventually_of_stays {Q : σ → Prop} {n : ℕ} (h : Q (ex.state n))
    (hstay : ∀ m ≥ n, Q (ex.state m) → Q (ex.state (m + 1))) : ∀ m ≥ n, Q (ex.state m) := by
  intro m hm
  induction m, hm using Nat.le_induction with
  | base => exact h
  | succ m hm ih => exact hstay m hm ih

/-! ## Fairness -/

/-- The party `A` takes the step of moment `n`. -/
def Moves (ex : Execution M) (A : Set ℓ) (n : ℕ) : Prop := ∃ l ∈ A, ex.label n = some l

/-- A party that is enabled from some moment on moves again and again. -/
def WeaklyFair (ex : Execution M) (A : Set ℓ) : Prop :=
  (∀ᶠ n in atTop, M.Enabled A (ex.state n)) → ∃ᶠ n in atTop, ex.Moves A n

/-- A party that is enabled again and again moves again and again. -/
def StronglyFair (ex : Execution M) (A : Set ℓ) : Prop :=
  (∃ᶠ n in atTop, M.Enabled A (ex.state n)) → ∃ᶠ n in atTop, ex.Moves A n

/-- A party that has stopped moving is disabled from some moment on. -/
theorem StronglyFair.eventually_disabled {A : Set ℓ} (h : ex.StronglyFair A)
    (hquiet : ∀ᶠ n in atTop, ¬ex.Moves A n) : ∀ᶠ n in atTop, ¬M.Enabled A (ex.state n) := by
  by_contra hn
  have henabled : ∃ᶠ n in atTop, M.Enabled A (ex.state n) := by
    simpa only [not_not] using not_eventually.mp hn
  exact h henabled hquiet

/-! ## Progress -/

section Progress

variable {β : Type} [Preorder β] [WellFoundedLT β]

/-- A sequence that never rises falls only finitely often. -/
theorem not_frequently_lt {f : ℕ → β} {N : ℕ} (hle : ∀ n ≥ N, f (n + 1) ≤ f n) :
    ¬∃ᶠ n in atTop, f (n + 1) < f n := by
  intro hfall
  have hmono : ∀ m n, N ≤ m → m ≤ n → f n ≤ f m := by
    intro m n hm hn
    induction n, hn using Nat.le_induction with
    | base => exact le_rfl
    | succ n hn ih => exact (hle n (hm.trans hn)).trans ih
  have hdescent : ∀ b, ∀ n ≥ N, f n ≠ b := by
    intro b
    induction b using WellFoundedLT.induction with
    | ind b ih =>
      rintro n hn rfl
      obtain ⟨m, hm, hlt⟩ := (frequently_atTop.mp hfall) n
      exact ih _ (hlt.trans_le (hmono n m hn hm)) (m + 1) (by omega) rfl
  exact hdescent (f N) N le_rfl rfl

/-- The rank rule: while `P` lasts and `Q` has not come, the party can move, each of its moves
lowers the rank and no step raises it.  Then `Q` comes. -/
theorem WeaklyFair.leadsTo {A : Set ℓ} {P Q : σ → Prop} {r : σ → β} {N : ℕ}
    (hfair : ex.WeaklyFair A)
    (henabled : ∀ n ≥ N, P (ex.state n) → M.Enabled A (ex.state n))
    (hstep : ∀ n ≥ N, P (ex.state n) → ¬Q (ex.state (n + 1)) →
      P (ex.state (n + 1)) ∧ r (ex.state (n + 1)) ≤ r (ex.state n))
    (hmove : ∀ n ≥ N, P (ex.state n) → ex.Moves A n → ¬Q (ex.state (n + 1)) →
      r (ex.state (n + 1)) < r (ex.state n))
    {n : ℕ} (hn : N ≤ n) (hP : P (ex.state n)) : ∃ m ≥ n, Q (ex.state m) := by
  by_contra hnone
  push Not at hnone
  have hlasts : ∀ m ≥ n, P (ex.state m) := eventually_of_stays hP fun m hm hPm =>
    (hstep m (hn.trans hm) hPm (hnone (m + 1) (by omega))).1
  have hmoves : ∃ᶠ m in atTop, ex.Moves A m := by
    refine hfair ?_
    filter_upwards [eventually_ge_atTop n] with m hm
    exact henabled m (hn.trans hm) (hlasts m hm)
  refine not_frequently_lt (f := fun m => r (ex.state m)) (N := n) (fun m hm => ?_) ?_
  · exact (hstep m (hn.trans hm) (hlasts m hm) (hnone (m + 1) (by omega))).2
  · refine (hmoves.and_eventually (eventually_ge_atTop n)).mono ?_
    rintro m ⟨hm, hge⟩
    exact hmove m (hn.trans hge) (hlasts m hge) hm (hnone (m + 1) (by omega))

end Progress

/-! ## Executions that end in a loop -/

/-- The states of an execution that follows a list of labels and then repeats one label. -/
def stateAfter (M : Machine σ ℓ) (ls : List ℓ) (l : ℓ) : ℕ → σ
  | 0 => M.init
  | n + 1 => (M.step (stateAfter M ls l n) (ls.getD n l)).getD (stateAfter M ls l n)

theorem take_succ_getD {ls : List ℓ} {n : ℕ} (hn : n < ls.length) (l : ℓ) :
    ls.take (n + 1) = ls.take n ++ [ls.getD n l] := by
  rw [List.take_succ_eq_append_getElem hn, List.getD_eq_getElem ls l hn]

/-- What a finite run reaches after its first labels is the execution's state at that moment. -/
theorem exec_take {ls : List ℓ} {s : σ} (he : M.exec M.init ls = some s) (l : ℓ) :
    ∀ n ≤ ls.length, M.exec M.init (ls.take n) = some (stateAfter M ls l n) := by
  intro n
  induction n with
  | zero => exact fun _ => rfl
  | succ n ih =>
    intro hn
    have htake := ih (by omega)
    have hsome : ∃ s', M.exec M.init (ls.take (n + 1)) = some s' := by
      rw [← List.take_append_drop (n + 1) ls, Machine.exec_append] at he
      obtain ⟨s', hs', -⟩ := Option.bind_eq_some_iff.mp he
      exact ⟨s', hs'⟩
    obtain ⟨s', hs'⟩ := hsome
    have hstep : M.step (stateAfter M ls l n) (ls.getD n l) = some s' := by
      rw [take_succ_getD (by omega) l, Machine.exec_append, htake] at hs'
      simpa [Machine.exec] using hs'
    rw [hs', stateAfter, hstep, Option.getD_some]

/-- Inside the list, the labels lead from one of these states to the next. -/
theorem step_stateAfter {ls : List ℓ} {s : σ} (he : M.exec M.init ls = some s) (l : ℓ) {n : ℕ}
    (hn : n < ls.length) :
    M.step (stateAfter M ls l n) (ls.getD n l) = some (stateAfter M ls l (n + 1)) := by
  have hnext := exec_take he l (n + 1) (by omega)
  rw [take_succ_getD hn l, Machine.exec_append, exec_take he l n (by omega)] at hnext
  simpa [Machine.exec] using hnext

/-- A list of labels that `exec` can follow, up to a state from which one label can be repeated
for ever, starts an execution. -/
theorem exists_of_exec {ls : List ℓ} {l : ℓ} {I : σ → Prop} {s : σ}
    (he : M.exec M.init ls = some s) (hI : I s)
    (hrepeat : ∀ s, I s → ∃ s', M.step s l = some s' ∧ I s') :
    ∃ ex : Execution M, (∀ n, ex.label n = some (ls.getD n l)) ∧
      ∀ n ≥ ls.length, I (ex.state n) := by
  have hlabel : ∀ n ≥ ls.length, ls.getD n l = l := fun n hn => by
    rw [List.getD_eq_getElem?_getD, List.getElem?_eq_none hn, Option.getD_none]
  have hI' : ∀ n ≥ ls.length, I (stateAfter M ls l n) := by
    intro n hn
    induction n, hn using Nat.le_induction with
    | base =>
      have hlast := exec_take he l ls.length le_rfl
      rw [List.take_length, he] at hlast
      rwa [← Option.some.inj hlast]
    | succ n hn ih =>
      obtain ⟨s', hs', hIs'⟩ := hrepeat _ ih
      rwa [stateAfter, hlabel n hn, hs', Option.getD_some]
  refine ⟨⟨stateAfter M ls l, fun n => some (ls.getD n l), rfl, fun n => ?_⟩, fun _ => rfl, hI'⟩
  rw [Option.elim_some]
  by_cases hn : n < ls.length
  · exact step_stateAfter he l hn
  · obtain ⟨s', hs', -⟩ := hrepeat _ (hI' n (by omega))
    rw [stateAfter, hlabel n (by omega), hs', Option.getD_some]

end Execution

end Seekira.Library
