import Mathlib.Tactic.Common

/-!
# Programs that load a state

A program goes through an input and writes into its state what it reads there; a read that fails
ends it, and what was written before stays.  Such a program comes to a read of the whole input, which has
no state, and to what the state becomes with the outcome of that read.
-/

set_option autoImplicit false

namespace Seekira.Library

variable {ε σ τ α ρ ρ' : Type}

/-- Read, and write what was read. -/
def assign (read : Except ε ρ) (write : ρ → σ → σ) : EStateM ε σ Unit := do
  let value ← MonadExcept.ofExcept read
  modify (write value)

/-- A program for a part of the state. -/
def onPart (get : σ → τ) (put : τ → σ → σ) (x : EStateM ε τ α) : EStateM ε σ α := fun s =>
  match x (get s) with
  | .ok a t => .ok a (put t s)
  | .error e t => .error e (put t s)

/-- A program for a new value, which is then put into the state. -/
def onNew (new : τ) (put : τ → σ → σ) (x : EStateM ε τ Unit) : EStateM ε σ Unit := fun s =>
  match x new with
  | .ok _ t => .ok () (put t s)
  | .error e _ => .error e s

/-- The result of a program is that of a read, and what becomes of the state with it. -/
structure LoadsTo (result : EStateM.Result ε σ Unit) (read : Except ε ρ) (into : ρ → σ) : Prop where
  ok : ∀ value, read = .ok value → result = .ok () (into value)
  error : ∀ e, read = .error e → ∃ s, result = .error e s

/-! ## What a load gives -/

section Result

variable {result result' : EStateM.Result ε σ Unit} {s s' : σ}
variable {read : Except ε ρ} {into into' : ρ → σ}

/-- The loading ends in a state exactly when what is read leads to it. -/
theorem LoadsTo.ok_iff (h : LoadsTo result read into) :
    result = .ok () s ↔ ∃ value, read = .ok value ∧ into value = s := by
  constructor
  · intro hok
    cases hread : read with
    | ok value =>
      rw [h.ok value hread] at hok
      cases hok
      exact ⟨value, rfl, rfl⟩
    | error e =>
      obtain ⟨t, ht⟩ := h.error e hread
      rw [ht] at hok
      cases hok
  · rintro ⟨value, hread, rfl⟩
    exact h.ok value hread

/-- Two runs over one input read the same. -/
theorem LoadsTo.agree (h : LoadsTo result read into) (h' : LoadsTo result' read into')
    (hok : result = .ok () s) (hok' : result' = .ok () s') :
    ∃ value, read = .ok value ∧ into value = s ∧ into' value = s' := by
  obtain ⟨value, hread, hs⟩ := h.ok_iff.mp hok
  obtain ⟨value', hread', hs'⟩ := h'.ok_iff.mp hok'
  rw [hread] at hread'
  cases hread'
  exact ⟨value, hread, hs, hs'⟩

/-- Whether a load succeeds does not depend on the state. -/
theorem LoadsTo.succeeds_iff (h : LoadsTo result read into) (h' : LoadsTo result' read into') :
    (∃ s, result = .ok () s) ↔ ∃ s', result' = .ok () s' := by
  simp only [h.ok_iff, h'.ok_iff]
  constructor
  · rintro ⟨-, value, hread, -⟩
    exact ⟨_, value, hread, rfl⟩
  · rintro ⟨-, value, hread, -⟩
    exact ⟨_, value, hread, rfl⟩

end Result

/-! ## The pieces of a load -/

section Pieces

variable {x y : EStateM ε σ Unit} {s : σ} {read : Except ε ρ} {f : ρ → σ}

/-- Nothing is left to read. -/
theorem loadsTo_pure {result : EStateM.Result ε σ Unit} {value : ρ}
    (h : result = .ok () (f value)) : LoadsTo result (pure value) f := by
  constructor
  · intro found hfound
    cases hfound
    exact h
  · intro e he
    cases he

/-- An assignment of what was read loads it. -/
theorem loadsTo_assign (read : Except ε ρ) (write : ρ → σ → σ) (s : σ) :
    LoadsTo (assign read write s) read fun value => write value s := by
  constructor
  · rintro value rfl
    rfl
  · rintro e rfl
    exact ⟨s, rfl⟩

/-- The rest starts from what the first part has written. -/
theorem LoadsTo.bind {rest : ρ → Except ε ρ'} {into : ρ' → σ} (hx : LoadsTo (x s) read f)
    (hy : ∀ value, read = .ok value → LoadsTo (y (f value)) (rest value) into) :
    LoadsTo ((x >>= fun _ => y) s) (read >>= rest) into := by
  cases hread : read with
  | ok value =>
    have hstep : (x >>= fun _ => y) s = y (f value) := by
      have hok := hx.ok value hread
      simp only [Bind.bind, EStateM.bind, hok]
    rw [hstep]
    exact hy value hread
  | error e =>
    obtain ⟨t, ht⟩ := hx.error e hread
    have hstep : (x >>= fun _ => y) s = .error e t := by
      simp only [Bind.bind, EStateM.bind, ht]
    rw [hstep]
    constructor
    · intro value hvalue
      cases hvalue
    · intro e' he'
      cases he'
      exact ⟨t, rfl⟩

/-- A read whose outcome the rest takes. -/
theorem LoadsTo.read_bind {y : α → EStateM ε σ Unit} {first : Except ε α} {rest : α → Except ε ρ}
    (hy : ∀ value, first = .ok value → LoadsTo (y value s) (rest value) f) :
    LoadsTo ((MonadExcept.ofExcept first >>= y) s) (first >>= rest) f := by
  cases first with
  | ok value => exact hy value rfl
  | error e =>
    constructor
    · intro value hvalue
      cases hvalue
    · intro e' he'
      cases he'
      exact ⟨s, rfl⟩

/-- A write of what needs no reading. -/
theorem LoadsTo.modify_bind {write : σ → σ} (hy : LoadsTo (y (write s)) read f) :
    LoadsTo ((modify write >>= fun _ => y) s) read f := hy

/-- The last part, when the read ends with what it has found. -/
theorem LoadsTo.map {g : ρ → ρ'} {into : ρ' → σ} (hx : LoadsTo (x s) read f)
    (hinto : ∀ value, into (g value) = f value) :
    LoadsTo (x s) (read >>= fun value => pure (g value)) into := by
  constructor
  · intro found hfound
    cases hread : read with
    | ok value =>
      rw [hread] at hfound
      cases hfound
      rw [hinto]
      exact hx.ok value hread
    | error e =>
      rw [hread] at hfound
      cases hfound
  · intro e he
    cases hread : read with
    | ok value =>
      rw [hread] at he
      cases he
    | error e' =>
      rw [hread] at he
      cases he
      exact hx.error e hread

/-- A load of a part of the state. -/
theorem LoadsTo.onPart {get : σ → τ} {put : τ → σ → σ} {x : EStateM ε τ Unit} {f : ρ → τ}
    (hx : LoadsTo (x (get s)) read f) :
    LoadsTo (onPart get put x s) read fun value => put (f value) s := by
  constructor
  · intro value hread
    simp only [Library.onPart, hx.ok value hread]
  · intro e hread
    obtain ⟨t, ht⟩ := hx.error e hread
    exact ⟨put t s, by simp only [Library.onPart, ht]⟩

/-- A load of a new value. -/
theorem LoadsTo.onNew {new : τ} {put : τ → σ → σ} {x : EStateM ε τ Unit} {f : ρ → τ}
    (hx : LoadsTo (x new) read f) :
    LoadsTo (onNew new put x s) read fun value => put (f value) s := by
  constructor
  · intro value hread
    simp only [Library.onNew, hx.ok value hread]
  · intro e hread
    obtain ⟨t, ht⟩ := hx.error e hread
    exact ⟨s, by simp only [Library.onNew, ht]⟩

/-- What is absent is not read, and leaves the state alone. -/
theorem loadsTo_option {x : α → EStateM ε σ Unit} {read : α → Except ε ρ} {f : ρ → σ} (o : Option α)
    (hx : ∀ a, o = some a → LoadsTo (x a s) (read a) f) :
    LoadsTo (o.forM x s) (o.mapM read) fun found => found.elim s f := by
  cases o with
  | none =>
    constructor
    · intro found hfound
      cases hfound
      rfl
    · intro e he
      cases he
  | some a =>
    exact (hx a rfl).map fun _ => rfl

/-- Reading the items of a list one by one. -/
theorem loadsTo_list (read : α → Except ε ρ) (write : ρ → σ → σ) (items : List α) (s : σ) :
    LoadsTo (items.forM (fun a => assign (read a) write) s) (items.mapM read)
      fun found => found.foldl (fun t value => write value t) s := by
  induction items generalizing s with
  | nil =>
    constructor
    · intro found hfound
      cases hfound
      rfl
    · intro e he
      cases he
  | cons a rest ih =>
    rw [List.mapM_cons]
    refine (loadsTo_assign (read a) write s).bind ?_
    intro value hvalue
    exact (ih (write value s)).map fun _ => rfl

end Pieces

end Seekira.Library
