import Mathlib.Tactic.Common

/-!
# Procedures with a state and failures

A procedure reads and updates a state and either returns a value or fails.  The
state survives the failure, as the fields of an object do when a method throws.
A procedure of a component runs inside a larger state through the component's
projection and update (`zoom`).

The rules invert a sequence of procedures that returned, and propagate an
invariant through every way a procedure can end.
-/

set_option autoImplicit false

namespace Seekira.Library

/-- Procedures over states `σ` that fail with `ε` or return `α`. -/
def Proc (ε σ α : Type) : Type := σ → Except ε α × σ

namespace Proc

variable {ε ε' σ τ α β : Type}

instance : Monad (Proc ε σ) where
  pure a := fun s => (.ok a, s)
  bind p f := fun s =>
    match p s with
    | (.ok a, s') => f a s'
    | (.error e, s') => (.error e, s')

/-- Fail without touching the state. -/
def throw (e : ε) : Proc ε σ α := fun s => (.error e, s)

/-- The current state. -/
def get : Proc ε σ σ := fun s => (.ok s, s)

/-- Update the state. -/
def modify (f : σ → σ) : Proc ε σ Unit := fun s => (.ok (), f s)

/-- A procedure that always returns. -/
def total (f : σ → α × σ) : Proc ε σ α := fun s => (.ok (f s).1, (f s).2)

/-- Run a procedure of a component. -/
def zoom (proj : σ → τ) (put : τ → σ → σ) (p : Proc ε τ α) : Proc ε σ α := fun s =>
  ((p (proj s)).1, put (p (proj s)).2 s)

/-- Turn a failure into a value; the state is the one the failure left. -/
def attempt (p : Proc ε σ α) : Proc ε σ (Except ε α) := fun s => (.ok (p s).1, (p s).2)

/-- Rename the failures. -/
def mapError (f : ε → ε') (p : Proc ε σ α) : Proc ε' σ α := fun s =>
  ((p s).1.mapError f, (p s).2)

/-- Run `cleanup` when `p` ends, whether it returned or failed, as a destructor runs at the end
of a scope. -/
def ensure (p : Proc ε σ α) (cleanup : Proc ε σ Unit) : Proc ε σ α := do
  let res ← attempt p
  cleanup
  match res with
  | .ok a => return a
  | .error e => throw e

@[simp] theorem pure_apply (a : α) (s : σ) : (pure a : Proc ε σ α) s = (.ok a, s) := rfl

@[simp] theorem throw_apply (e : ε) (s : σ) : (throw e : Proc ε σ α) s = (.error e, s) := rfl

@[simp] theorem get_apply (s : σ) : (get : Proc ε σ σ) s = (.ok s, s) := rfl

@[simp] theorem modify_apply (f : σ → σ) (s : σ) : (modify f : Proc ε σ Unit) s = (.ok (), f s) :=
  rfl

@[simp] theorem total_apply (f : σ → α × σ) (s : σ) :
    (total f : Proc ε σ α) s = (.ok (f s).1, (f s).2) := rfl

@[simp] theorem zoom_apply (proj : σ → τ) (put : τ → σ → σ) (p : Proc ε τ α) (s : σ) :
    zoom proj put p s = ((p (proj s)).1, put (p (proj s)).2 s) := rfl

@[simp] theorem attempt_apply (p : Proc ε σ α) (s : σ) :
    attempt p s = (.ok (p s).1, (p s).2) := rfl

@[simp] theorem mapError_apply (f : ε → ε') (p : Proc ε σ α) (s : σ) :
    mapError f p s = ((p s).1.mapError f, (p s).2) := rfl

theorem bind_apply (p : Proc ε σ α) (f : α → Proc ε σ β) (s : σ) :
    (p >>= f) s = match p s with
      | (.ok a, s') => f a s'
      | (.error e, s') => (.error e, s') := rfl

theorem bind_ok {p : Proc ε σ α} {f : α → Proc ε σ β} {s s' : σ} {a : α}
    (h : p s = (.ok a, s')) : (p >>= f) s = f a s' := by
  rw [bind_apply, h]

theorem bind_error {p : Proc ε σ α} {f : α → Proc ε σ β} {s s' : σ} {e : ε}
    (h : p s = (.error e, s')) : (p >>= f) s = (.error e, s') := by
  rw [bind_apply, h]

/-- A scope that returned, and its end. -/
theorem ensure_ok {p : Proc ε σ α} {cleanup : Proc ε σ Unit} {s s₁ s₂ : σ} {a : α}
    (hp : p s = (.ok a, s₁)) (hcleanup : cleanup s₁ = (.ok (), s₂)) :
    ensure p cleanup s = (.ok a, s₂) := by
  have hattempt : attempt p s = (.ok (.ok a), s₁) := by rw [attempt_apply, hp]
  unfold ensure
  rw [bind_ok hattempt, bind_ok hcleanup]
  rfl

/-- A sequence depends on its first part only by what this does. -/
theorem bind_eq_of_eq {p q : Proc ε σ α} {f : α → Proc ε σ β} {s : σ} (h : p s = q s) :
    (p >>= f) s = (q >>= f) s := by
  rw [bind_apply, bind_apply, h]

theorem pure_bind (a : α) (f : α → Proc ε σ β) : (pure a >>= f) = f a := rfl

@[simp] theorem pure_bind_apply (a : α) (f : α → Proc ε σ β) (s : σ) :
    ((pure a : Proc ε σ α) >>= f) s = f a s := rfl

@[simp] theorem get_bind_apply (f : σ → Proc ε σ β) (s : σ) : (get >>= f) s = f s s := rfl

@[simp] theorem modify_bind_apply (g : σ → σ) (f : Unit → Proc ε σ β) (s : σ) :
    (modify g >>= f) s = f () (g s) := rfl

@[simp] theorem total_bind_apply (g : σ → α × σ) (f : α → Proc ε σ β) (s : σ) :
    (total g >>= f) s = f (g s).1 (g s).2 := rfl

@[simp] theorem throw_bind_apply (e : ε) (f : α → Proc ε σ β) (s : σ) :
    (throw e >>= f) s = (.error e, s) := rfl

/-- A sequence that returned ran both its parts. -/
theorem bind_inv {p : Proc ε σ α} {f : α → Proc ε σ β} {s s' : σ} {b : β}
    (h : (p >>= f) s = (.ok b, s')) : ∃ a s₁, p s = (.ok a, s₁) ∧ f a s₁ = (.ok b, s') := by
  rw [bind_apply] at h
  rcases hp : p s with ⟨_ | a, s₁⟩
  · rw [hp] at h
    cases h
  · rw [hp] at h
    exact ⟨a, s₁, rfl, h⟩

/-- The same for results alone. -/
theorem except_bind_inv {x : Except ε α} {f : α → Except ε β} {b : β} (h : x >>= f = .ok b) :
    ∃ a, x = .ok a ∧ f a = .ok b := by
  rcases x with _ | a
  · cases h
  · exact ⟨a, rfl, h⟩

/-! ## Invariants -/

/-- The procedure keeps `I` whether it returns or fails. -/
def Keeps (I : σ → Prop) (p : Proc ε σ α) : Prop := ∀ s, I s → I (p s).2

variable {I : σ → Prop}

theorem keeps_pure (a : α) : Keeps I (pure a : Proc ε σ α) := fun _ h => h

theorem keeps_throw (e : ε) : Keeps I (throw e : Proc ε σ α) := fun _ h => h

theorem keeps_get : Keeps I (get : Proc ε σ σ) := fun _ h => h

theorem keeps_modify {f : σ → σ} (h : ∀ s, I s → I (f s)) : Keeps I (modify f : Proc ε σ Unit) := h

theorem keeps_bind {p : Proc ε σ α} {f : α → Proc ε σ β} (hp : Keeps I p)
    (hf : ∀ a, Keeps I (f a)) : Keeps I (p >>= f) := by
  intro s hs
  have hI := hp s hs
  rw [bind_apply]
  rcases h : p s with ⟨_ | a, s'⟩ <;> rw [h] at hI
  · exact hI
  · exact hf a s' hI

theorem keeps_zoom {J : τ → Prop} {proj : σ → τ} {put : τ → σ → σ} {p : Proc ε τ α}
    (hp : Keeps J p) (hproj : ∀ s, I s → J (proj s)) (hput : ∀ s t, I s → J t → I (put t s)) :
    Keeps I (zoom proj put p) := fun s hs => hput s _ hs (hp _ (hproj s hs))

theorem keeps_ite {c : Prop} [Decidable c] {p q : Proc ε σ α} (hp : c → Keeps I p)
    (hq : ¬c → Keeps I q) : Keeps I (if c then p else q) := by
  split
  · rename_i hc
    exact hp hc
  · rename_i hc
    exact hq hc

/-- A guard that throws. -/
theorem keeps_guard {c : Prop} [Decidable c] {e : ε} {p : Proc ε σ α} (hp : Keeps I p) :
    Keeps I (if c then (throw e : Proc ε σ PUnit) >>= fun _ => p else p) :=
  keeps_ite (fun _ => keeps_bind (keeps_throw e) fun _ => hp) fun _ => hp

theorem keeps_get_bind {f : σ → Proc ε σ α} (hf : ∀ s, I s → Keeps I (f s)) :
    Keeps I (get >>= f) := fun s hs => hf s hs s hs

/-- From `I` the procedure ends in `J`, whether it returns or fails. -/
def Leads (I J : σ → Prop) (p : Proc ε σ α) : Prop := ∀ s, I s → J (p s).2

variable {J K : σ → Prop}

/-- A program that keeps an invariant leads from what implies it to what it implies. -/
theorem Keeps.leads {p : Proc ε σ α} (hp : Keeps J p) (hI : ∀ s, I s → J s)
    (hJ : ∀ s, J s → K s) : Leads I K p := fun s hs => hJ _ (hp s (hI s hs))

theorem leads_get_bind {f : σ → Proc ε σ α} (hf : ∀ s, I s → J (f s s).2) :
    Leads I J (get >>= f) := hf

theorem leads_bind {p : Proc ε σ α} {f : α → Proc ε σ β} (hp : Leads I J p)
    (hJ : ∀ s, J s → K s) (hf : ∀ a, Leads J K (f a)) : Leads I K (p >>= f) := by
  intro s hs
  have hmid := hp s hs
  rw [bind_apply]
  rcases h : p s with ⟨_ | a, s'⟩ <;> rw [h] at hmid
  · exact hJ s' hmid
  · exact hf a s' hmid

theorem leads_ite {c : Prop} [Decidable c] {p q : Proc ε σ α} (hp : c → Leads I J p)
    (hq : ¬c → Leads I J q) : Leads I J (if c then p else q) := by
  split
  · rename_i hc
    exact hp hc
  · rename_i hc
    exact hq hc

/-! ## Failures that do not occur -/

/-- The procedure does not fail with `e`. -/
def Avoids (e : ε) (p : Proc ε σ α) : Prop := ∀ s, (p s).1 ≠ .error e

variable {e : ε}

/-- The same from one state. -/
theorem bind_ne_error {p : Proc ε σ α} {f : α → Proc ε σ β} {s : σ} (hp : (p s).1 ≠ .error e)
    (hf : ∀ a s', p s = (.ok a, s') → (f a s').1 ≠ .error e) : ((p >>= f) s).1 ≠ .error e := by
  intro h
  rw [bind_apply] at h
  rcases hres : p s with ⟨e' | a, s'⟩ <;> rw [hres] at h hp
  · cases h
    exact hp rfl
  · exact hf a s' hres h

/-- A cleanup that does not fail with `e` adds no such failure. -/
theorem ensure_ne_error {p : Proc ε σ α} {cleanup : Proc ε σ Unit} {s : σ}
    (hp : (p s).1 ≠ .error e) (hcleanup : Avoids e cleanup) :
    (ensure p cleanup s).1 ≠ .error e := by
  unfold ensure
  apply bind_ne_error
  · intro h
    cases h
  intro res s' hres
  obtain ⟨rfl, -⟩ : (p s).1 = res ∧ (p s).2 = s' := by simpa using hres
  apply bind_ne_error (hcleanup s')
  intro _ s'' _ h
  rcases hend : (p s).1 with e' | a <;> rw [hend] at h
  · cases h
    exact hp hend
  · cases h

theorem avoids_pure (a : α) : Avoids e (pure a : Proc ε σ α) := by
  intro s h
  cases h

theorem avoids_throw {e' : ε} (h : e' ≠ e) : Avoids e (throw e' : Proc ε σ α) := by
  intro s hs
  cases hs
  exact h rfl

theorem avoids_get : Avoids e (get : Proc ε σ σ) := by
  intro s h
  cases h

theorem avoids_modify (f : σ → σ) : Avoids e (modify f : Proc ε σ Unit) := by
  intro s h
  cases h

theorem avoids_bind {p : Proc ε σ α} {f : α → Proc ε σ β} (hp : Avoids e p)
    (hf : ∀ a, Avoids e (f a)) : Avoids e (p >>= f) := fun s =>
  bind_ne_error (hp s) fun a s' _ => hf a s'

theorem avoids_zoom {proj : σ → τ} {put : τ → σ → σ} {p : Proc ε τ α} (hp : Avoids e p) :
    Avoids e (zoom proj put p) := fun s => hp (proj s)

theorem avoids_ite {c : Prop} [Decidable c] {p q : Proc ε σ α} (hp : c → Avoids e p)
    (hq : ¬c → Avoids e q) : Avoids e (if c then p else q) := by
  split
  · rename_i hc
    exact hp hc
  · rename_i hc
    exact hq hc

/-- A guard that throws something else. -/
theorem avoids_guard {c : Prop} [Decidable c] {e' : ε} {p : Proc ε σ α} (h : e' ≠ e)
    (hp : Avoids e p) : Avoids e (if c then (throw e' : Proc ε σ PUnit) >>= fun _ => p else p) := by
  apply avoids_ite
  · intro _
    exact avoids_bind (avoids_throw h) fun _ => hp
  · intro _
    exact hp

/-! ## Returning procedures

The rules of partial correctness for one property: it holds again whenever the procedure
returns, and may be lost when it fails. -/

/-- When the procedure returns, `I` holds again. -/
def Restores (I : σ → Prop) (p : Proc ε σ α) : Prop := ∀ s, I s → ∀ a s', p s = (.ok a, s') → I s'

theorem Keeps.restores {p : Proc ε σ α} (hp : Keeps I p) : Restores I p := by
  intro s hs a s' h
  have hI := hp s hs
  rw [h] at hI
  exact hI

theorem restores_bind {p : Proc ε σ α} {f : α → Proc ε σ β} (hp : Restores I p)
    (hf : ∀ a, Restores I (f a)) : Restores I (p >>= f) := by
  intro s hs b s' h
  obtain ⟨a, s₁, h₁, h₂⟩ := bind_inv h
  exact hf a s₁ (hp s hs a s₁ h₁) b s' h₂

/-- Both branches restore the invariant, each where it is taken. -/
theorem restores_ite {c : Prop} [Decidable c] {p q : Proc ε σ α} (hp : c → Restores I p)
    (hq : ¬c → Restores I q) : Restores I (if c then p else q) := by
  split
  · rename_i hc
    exact hp hc
  · rename_i hc
    exact hq hc

end Proc

end Seekira.Library
