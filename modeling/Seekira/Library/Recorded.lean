import Seekira.Library.Proc

/-!
# Procedures that keep a record

A recorded procedure also lists the events of its run, and a failure leaves the
events up to it.  Erasing the record gives the procedure alone, so a procedure that
is written with events is tied to the one without them by one equation.

The rules follow a sequence forwards from its parts and invert a sequence that
returned.
-/

set_option autoImplicit false

namespace Seekira.Library

/-- Procedures over states `σ` whose runs list events `ω`. -/
def Recorded (ε ω σ α : Type) : Type := σ → (Except ε α × σ) × List ω

namespace Recorded

variable {ε ω σ α β : Type}

instance : Monad (Recorded ε ω σ) where
  pure a := fun s => ((.ok a, s), [])
  bind p f := fun s =>
    match p s with
    | ((.ok a, s'), events) => ((f a s').1, events ++ (f a s').2)
    | ((.error e, s'), events) => ((.error e, s'), events)

/-- The procedure without its record. -/
def erase (p : Recorded ε ω σ α) : Proc ε σ α := fun s => (p s).1

/-- A procedure without events. -/
def lift (p : Proc ε σ α) : Recorded ε ω σ α := fun s => (p s, [])

/-- Enter an event into the record. -/
def note (e : ω) : Recorded ε ω σ Unit := fun s => ((.ok (), s), [e])

/-- Enter several events. -/
def notes (events : List ω) : Recorded ε ω σ Unit := fun s => ((.ok (), s), events)

/-- Fail without touching the state. -/
def throw (e : ε) : Recorded ε ω σ α := fun s => ((.error e, s), [])

/-- The current state. -/
def get : Recorded ε ω σ σ := fun s => ((.ok s, s), [])

/-- Update the state. -/
def modify (f : σ → σ) : Recorded ε ω σ Unit := fun s => ((.ok (), f s), [])

@[simp] theorem pure_apply (a : α) (s : σ) : (pure a : Recorded ε ω σ α) s = ((.ok a, s), []) :=
  rfl

@[simp] theorem lift_apply (p : Proc ε σ α) (s : σ) :
    (lift p : Recorded ε ω σ α) s = (p s, []) := rfl

/-- Behind a program that returned, the events of the next one follow. -/
theorem bind_ok {p : Recorded ε ω σ α} {f : α → Recorded ε ω σ β} {s s' : σ} {a : α}
    {events : List ω} (h : p s = ((.ok a, s'), events)) :
    (p >>= f) s = ((f a s').1, events ++ (f a s').2) := by
  change (match p s with
    | ((.ok a, s'), events) => ((f a s').1, events ++ (f a s').2)
    | ((.error e, s'), events) => ((.error e, s'), events)) = _
  rw [h]

/-- Behind a program that failed, nothing follows. -/
theorem bind_error {p : Recorded ε ω σ α} {f : α → Recorded ε ω σ β} {s s' : σ} {e : ε}
    {events : List ω} (h : p s = ((.error e, s'), events)) :
    (p >>= f) s = ((.error e, s'), events) := by
  change (match p s with
    | ((.ok a, s'), events) => ((f a s').1, events ++ (f a s').2)
    | ((.error e, s'), events) => ((.error e, s'), events)) = _
  rw [h]

/-- What a sequence does, without its record. -/
theorem fst_bind_ok {p : Recorded ε ω σ α} {f : α → Recorded ε ω σ β} {s s' : σ} {a : α}
    (h : (p s).1 = (.ok a, s')) : ((p >>= f) s).1 = (f a s').1 := by
  have hp : p s = ((.ok a, s'), (p s).2) := Prod.ext h rfl
  rw [bind_ok hp]

/-- A sequence that returned ran both its parts, and lists the events of both. -/
theorem bind_inv {p : Recorded ε ω σ α} {f : α → Recorded ε ω σ β} {s s' : σ} {b : β}
    {events : List ω} (h : (p >>= f) s = ((.ok b, s'), events)) :
    ∃ a s₁ events₁ events₂, p s = ((.ok a, s₁), events₁) ∧ f a s₁ = ((.ok b, s'), events₂) ∧
      events = events₁ ++ events₂ := by
  rcases hp : p s with ⟨⟨e | a, s₁⟩, events₁⟩
  · rw [bind_error hp] at h
    cases h
  · rw [bind_ok hp, Prod.mk.injEq] at h
    exact ⟨a, s₁, events₁, (f a s₁).2, rfl, Prod.ext h.1 rfl, h.2.symm⟩

/-- Brackets do not matter for what follows what. -/
theorem bind_assoc {γ : Type} (p : Recorded ε ω σ α) (f : α → Recorded ε ω σ β)
    (g : β → Recorded ε ω σ γ) : (p >>= f) >>= g = p >>= fun a => f a >>= g := by
  funext s
  rcases hp : p s with ⟨⟨e | a, s₁⟩, events₁⟩
  · rw [bind_error (bind_error hp), bind_error hp]
  · rcases hf : f a s₁ with ⟨⟨e | b, s₂⟩, events₂⟩
    · have hpf : (p >>= f) s = ((.error e, s₂), events₁ ++ events₂) := by rw [bind_ok hp, hf]
      rw [bind_error hpf, bind_ok hp, bind_error hf]
    · have hpf : (p >>= f) s = ((.ok b, s₂), events₁ ++ events₂) := by rw [bind_ok hp, hf]
      rw [bind_ok hpf, bind_ok hp, bind_ok hf, List.append_assoc]

/-- The events of a sequence begin with those of its first part. -/
theorem prefix_bind (p : Recorded ε ω σ α) (f : α → Recorded ε ω σ β) (s : σ) :
    (p s).2 <+: ((p >>= f) s).2 := by
  rcases hp : p s with ⟨⟨e | a, s₁⟩, events⟩
  · exact ⟨[], by rw [bind_error hp, List.append_nil]⟩
  · exact ⟨(f a s₁).2, by rw [bind_ok hp]⟩

theorem lift_bind_ok {p : Proc ε σ α} {f : α → Recorded ε ω σ β} {s s' : σ} {a : α}
    (h : p s = (.ok a, s')) : (lift p >>= f) s = f a s' := by
  have hlift : (lift p : Recorded ε ω σ α) s = ((.ok a, s'), []) := by rw [lift_apply, h]
  exact bind_ok hlift

theorem lift_bind_error {p : Proc ε σ α} {f : α → Recorded ε ω σ β} {s s' : σ} {e : ε}
    (h : p s = (.error e, s')) : (lift p >>= f) s = ((.error e, s'), []) :=
  bind_error (by rw [lift_apply, h])

@[simp] theorem note_bind_apply (e : ω) (f : Unit → Recorded ε ω σ β) (s : σ) :
    (note e >>= f) s = ((f () s).1, e :: (f () s).2) := rfl

@[simp] theorem notes_bind_apply (events : List ω) (f : Unit → Recorded ε ω σ β) (s : σ) :
    (notes events >>= f) s = ((f () s).1, events ++ (f () s).2) := rfl

@[simp] theorem get_bind_apply (f : σ → Recorded ε ω σ β) (s : σ) : (get >>= f) s = f s s := rfl

@[simp] theorem modify_bind_apply (g : σ → σ) (f : Unit → Recorded ε ω σ β) (s : σ) :
    (modify g >>= f) s = f () (g s) := rfl

@[simp] theorem throw_apply (e : ε) (s : σ) :
    (throw e : Recorded ε ω σ α) s = ((.error e, s), []) := rfl

@[simp] theorem lift_get_bind_apply (f : σ → Recorded ε ω σ β) (s : σ) :
    (lift Proc.get >>= f) s = f s s := rfl

@[simp] theorem lift_modify_bind_apply (g : σ → σ) (f : Unit → Recorded ε ω σ β) (s : σ) :
    (lift (Proc.modify g) >>= f) s = f () (g s) := rfl

@[simp] theorem lift_total_bind_apply (g : σ → α × σ) (f : α → Recorded ε ω σ β) (s : σ) :
    (lift (Proc.total g) >>= f) s = f (g s).1 (g s).2 := rfl

@[simp] theorem pure_bind_apply (a : α) (f : α → Recorded ε ω σ β) (s : σ) :
    ((pure a : Recorded ε ω σ α) >>= f) s = f a s := rfl

/-! ## Erasing the record -/

@[simp] theorem erase_pure (a : α) : erase (pure a : Recorded ε ω σ α) = pure a := rfl

@[simp] theorem erase_lift (p : Proc ε σ α) : erase (lift p : Recorded ε ω σ α) = p := rfl

@[simp] theorem erase_note (e : ω) : erase (note e : Recorded ε ω σ Unit) = pure () := rfl

@[simp] theorem erase_bind (p : Recorded ε ω σ α) (f : α → Recorded ε ω σ β) :
    erase (p >>= f) = erase p >>= fun a => erase (f a) := by
  funext s
  change ((p >>= f) s).1 = _
  rcases hp : p s with ⟨⟨e | a, s'⟩, events⟩
  · have hs : erase p s = (.error e, s') := congrArg Prod.fst hp
    rw [bind_error hp, Proc.bind_error hs]
  · have hs : erase p s = (.ok a, s') := congrArg Prod.fst hp
    rw [bind_ok hp, Proc.bind_ok hs]
    rfl

@[simp] theorem erase_ite {c : Prop} [Decidable c] (p q : Recorded ε ω σ α) :
    erase (if c then p else q) = if c then erase p else erase q := by
  split <;> rfl

/-- A recorded run is a run of the procedure alone. -/
theorem run_of_erase {p : Recorded ε ω σ α} {q : Proc ε σ α} (h : erase p = q) {s s' : σ}
    {result : Except ε α} {events : List ω} (hp : p s = ((result, s'), events)) :
    q s = (result, s') := by
  rw [← h]
  exact congrArg Prod.fst hp

/-- What the procedure alone keeps holds after a recorded run. -/
theorem keeps_of_erase {I : σ → Prop} {p : Recorded ε ω σ α} {q : Proc ε σ α} (h : erase p = q)
    (hq : Proc.Keeps I q) {s s' : σ} {result : Except ε α} {events : List ω}
    (hp : p s = ((result, s'), events)) (hs : I s) : I s' := by
  have hI := hq s hs
  rw [run_of_erase h hp] at hI
  exact hI

/-! ## What the record lists -/

/-- From `I` the procedure ends in `I`, and lists only events with `E`. -/
def Lists (I : σ → Prop) (E : ω → Prop) (p : Recorded ε ω σ α) : Prop :=
  ∀ s, I s → I (p s).1.2 ∧ ∀ e ∈ (p s).2, E e

section Lists

variable {I : σ → Prop} {E : ω → Prop}

theorem lists_pure (a : α) : Lists I E (pure a : Recorded ε ω σ α) := fun _ hs => ⟨hs, nofun⟩

theorem lists_throw (e : ε) : Lists I E (throw e : Recorded ε ω σ α) := fun _ hs => ⟨hs, nofun⟩

theorem lists_modify {f : σ → σ} (h : ∀ s, I s → I (f s)) :
    Lists I E (modify f : Recorded ε ω σ Unit) := fun s hs => ⟨h s hs, nofun⟩

/-- A procedure that looks at the state first. -/
theorem lists_get_bind {f : σ → Recorded ε ω σ α} (hf : ∀ s, I s → Lists I E (f s)) :
    Lists I E (get >>= f) := fun s hs => hf s hs s hs

theorem lists_notes {events : List ω} (h : ∀ e ∈ events, E e) :
    Lists I E (notes events : Recorded ε ω σ Unit) := fun _ hs => ⟨hs, h⟩

theorem lists_lift {p : Proc ε σ α} (hp : Proc.Keeps I p) :
    Lists I E (lift p : Recorded ε ω σ α) := fun s hs => ⟨hp s hs, nofun⟩

theorem lists_bind {p : Recorded ε ω σ α} {f : α → Recorded ε ω σ β} (hp : Lists I E p)
    (hf : ∀ a, Lists I E (f a)) : Lists I E (p >>= f) := by
  intro s hs
  obtain ⟨hI, hE⟩ := hp s hs
  rcases h : p s with ⟨⟨e | a, s₁⟩, events⟩ <;> rw [h] at hI hE
  · rw [bind_error h]
    exact ⟨hI, hE⟩
  · rw [bind_ok h]
    obtain ⟨hI', hE'⟩ := hf a s₁ hI
    refine ⟨hI', fun e he => ?_⟩
    rcases List.mem_append.mp he with he | he
    · exact hE e he
    · exact hE' e he

theorem lists_ite {c : Prop} [Decidable c] {p q : Recorded ε ω σ α} (hp : Lists I E p)
    (hq : Lists I E q) : Lists I E (if c then p else q) := by
  split
  · exact hp
  · exact hq

/-- The procedure alone keeps what the recorded one does. -/
theorem Lists.keeps {p : Recorded ε ω σ α} (hp : Lists I E p) {q : Proc ε σ α}
    (h : erase p = q) : Proc.Keeps I q := by
  subst h
  exact fun s hs => (hp s hs).1

end Lists

/-- The run from `s` lists only events with `E`. -/
def Only (E : ω → Prop) (p : Recorded ε ω σ α) (s : σ) : Prop := ∀ e ∈ (p s).2, E e

section Only

variable {E : ω → Prop}

theorem Lists.only {I : σ → Prop} {p : Recorded ε ω σ α} (h : Lists I E p) {s : σ} (hs : I s) :
    Only E p s := (h s hs).2

theorem only_pure (a : α) (s : σ) : Only E (pure a : Recorded ε ω σ α) s := nofun

theorem only_throw (e : ε) (s : σ) : Only E (throw e : Recorded ε ω σ α) s := nofun

theorem only_get_bind_iff {f : σ → Recorded ε ω σ α} {s : σ} :
    Only E (get >>= f) s ↔ Only E (f s) s := Iff.rfl

theorem only_modify_bind_iff {g : σ → σ} {f : Unit → Recorded ε ω σ α} {s : σ} :
    Only E (modify g >>= f) s ↔ Only E (f ()) (g s) := Iff.rfl

theorem only_pure_bind_iff {a : α} {f : α → Recorded ε ω σ β} {s : σ} :
    Only E (pure a >>= f) s ↔ Only E (f a) s := Iff.rfl

/-- A failure ends the sequence. -/
theorem only_bind_error {p : Recorded ε ω σ α} {f : α → Recorded ε ω σ β} {s s' : σ} {e : ε}
    {events : List ω} (hp : p s = ((.error e, s'), events)) (hall : ∀ e ∈ events, E e) :
    Only E (p >>= f) s := by
  unfold Only
  rw [bind_error hp]
  exact hall

/-- A part with such events only leaves the rest to be looked at. -/
theorem only_bind_iff {p : Recorded ε ω σ α} {f : α → Recorded ε ω σ β} {s s' : σ} {a : α}
    {events : List ω} (hp : p s = ((.ok a, s'), events)) (hall : ∀ e ∈ events, E e) :
    Only E (p >>= f) s ↔ Only E (f a) s' := by
  unfold Only
  rw [bind_ok hp]
  constructor
  · exact fun h e he => h e (List.mem_append_right _ he)
  · intro h e he
    rcases List.mem_append.mp he with he | he
    · exact hall e he
    · exact h e he

/-- The first part keeps an invariant from which the rest lists only such events. -/
theorem only_bind_of_lists {I : σ → Prop} {p : Recorded ε ω σ α} {f : α → Recorded ε ω σ β}
    (hp : Lists I E p) (hf : ∀ a s, I s → Only E (f a) s) {s : σ} (hs : I s) :
    Only E (p >>= f) s := by
  obtain ⟨hI, hE⟩ := hp s hs
  rcases h : p s with ⟨⟨e | a, s₁⟩, events⟩ <;> rw [h] at hI hE
  · exact only_bind_error h hE
  · exact (only_bind_iff h hE).mpr (hf a s₁ hI)

/-- Both parts list only such events, the second one from wherever the first one leads. -/
theorem Only.bind {p : Recorded ε ω σ α} {f : α → Recorded ε ω σ β} {s : σ} (hp : Only E p s)
    (hf : ∀ a s, Only E (f a) s) : Only E (p >>= f) s := by
  rcases h : p s with ⟨⟨e | a, s₁⟩, events⟩
  · exact only_bind_error h fun e he => hp e (by rw [h]; exact he)
  · exact (only_bind_iff h fun e he => hp e (by rw [h]; exact he)).mpr (hf a s₁)

/-- What the rest lists is in the record of the sequence. -/
theorem Only.bind_right {p : Recorded ε ω σ α} {f : α → Recorded ε ω σ β} {s s' : σ} {a : α}
    {events : List ω} (h : Only E (p >>= f) s) (hp : p s = ((.ok a, s'), events)) :
    Only E (f a) s' := by
  unfold Only at h
  rw [bind_ok hp] at h
  exact fun e he => h e (List.mem_append_right _ he)

/-- An event of the first part is one of the sequence. -/
theorem Only.of_bind {p : Recorded ε ω σ α} {f : α → Recorded ε ω σ β} {s : σ}
    (h : Only E (p >>= f) s) : Only E p s :=
  fun e he => h e ((prefix_bind p f s).subset he)

end Only

/-! ## Failing or reporting -/

/-- The procedure fails or lists an event with `E`. -/
def Reports (E : ω → Prop) (p : Recorded ε ω σ α) (s : σ) : Prop :=
  (∃ e, (p s).1.1 = .error e) ∨ ∃ e ∈ (p s).2, E e

section Reports

variable {E : ω → Prop}

theorem reports_get_bind_iff {f : σ → Recorded ε ω σ α} {s : σ} :
    Reports E (get >>= f) s ↔ Reports E (f s) s := Iff.rfl

/-- A sequence reports what its first part does. -/
theorem Reports.bind_left {p : Recorded ε ω σ α} {s : σ} (h : Reports E p s)
    (f : α → Recorded ε ω σ β) : Reports E (p >>= f) s := by
  rcases hp : p s with ⟨⟨e | a, s'⟩, events⟩
  · exact .inl ⟨e, by rw [bind_error hp]⟩
  · unfold Reports at h ⊢
    rw [hp] at h
    rw [bind_ok hp]
    rcases h with ⟨e, he⟩ | ⟨e, he, hE⟩
    · cases he
    · exact .inr ⟨e, List.mem_append_left _ he, hE⟩

/-- And what its second part does, once the first one returned. -/
theorem Reports.bind_right {p : Recorded ε ω σ α} {f : α → Recorded ε ω σ β} {s s' : σ} {a : α}
    {events : List ω} (hp : p s = ((.ok a, s'), events)) (h : Reports E (f a) s') :
    Reports E (p >>= f) s := by
  unfold Reports at h ⊢
  rw [bind_ok hp]
  rcases h with ⟨e, he⟩ | ⟨e, he, hE⟩
  · exact .inl ⟨e, he⟩
  · exact .inr ⟨e, List.mem_append_right _ he, hE⟩

/-- A part without such events adds nothing to what the rest reports. -/
theorem reports_bind_iff {p : Recorded ε ω σ α} {f : α → Recorded ε ω σ β} {s s' : σ} {a : α}
    {events : List ω} (hp : p s = ((.ok a, s'), events)) (hnone : ∀ e ∈ events, ¬E e) :
    Reports E (p >>= f) s ↔ Reports E (f a) s' := by
  constructor
  · unfold Reports
    rw [bind_ok hp]
    rintro (⟨e, he⟩ | ⟨e, he, hE⟩)
    · exact .inl ⟨e, he⟩
    · rcases List.mem_append.mp he with he | he
      · exact absurd hE (hnone e he)
      · exact .inr ⟨e, he, hE⟩
  · exact Reports.bind_right hp

end Reports

/-! ## What the record accounts for -/

/-- The events account for every change of `f`, also when the procedure fails. -/
def Tracks {τ : Type} (f : σ → τ) (account : τ → ω → τ) (p : Recorded ε ω σ α) : Prop :=
  ∀ s, f (p s).1.2 = (p s).2.foldl account (f s)

section Tracks

variable {τ : Type} {f : σ → τ} {account : τ → ω → τ}

theorem tracks_pure (a : α) : Tracks f account (pure a : Recorded ε ω σ α) := fun _ => rfl

theorem tracks_throw (e : ε) : Tracks f account (throw e : Recorded ε ω σ α) := fun _ => rfl

theorem tracks_get : Tracks f account (get : Recorded ε ω σ σ) := fun _ => rfl

theorem tracks_modify {g : σ → σ} (h : ∀ s, f (g s) = f s) :
    Tracks f account (modify g : Recorded ε ω σ Unit) := h

theorem tracks_notes {events : List ω} (h : ∀ e ∈ events, ∀ t, account t e = t) :
    Tracks f account (notes events : Recorded ε ω σ Unit) := by
  intro s
  change f s = events.foldl account (f s)
  induction events with
  | nil => rfl
  | cons e rest ih =>
    rw [List.foldl_cons, h e List.mem_cons_self]
    exact ih fun e' he' => h e' (List.mem_cons_of_mem _ he')

theorem tracks_lift {p : Proc ε σ α} (h : ∀ s, f (p s).2 = f s) :
    Tracks f account (lift p : Recorded ε ω σ α) := h

theorem tracks_note {e : ω} (h : ∀ t, account t e = t) :
    Tracks f account (note e : Recorded ε ω σ Unit) := fun s => (h (f s)).symm

theorem tracks_bind {p : Recorded ε ω σ α} {g : α → Recorded ε ω σ β} (hp : Tracks f account p)
    (hg : ∀ a, Tracks f account (g a)) : Tracks f account (p >>= g) := by
  intro s
  have hfirst := hp s
  rcases h : p s with ⟨⟨e | a, s₁⟩, events⟩ <;> rw [h] at hfirst
  · rw [bind_error h]
    exact hfirst
  · rw [bind_ok h, List.foldl_append, ← hfirst]
    exact hg a s₁

theorem tracks_ite {c : Prop} [Decidable c] {p q : Recorded ε ω σ α} (hp : Tracks f account p)
    (hq : Tracks f account q) : Tracks f account (if c then p else q) := by
  split
  · exact hp
  · exact hq

end Tracks

/-! ## Returning -/

/-- From `I` the procedure returns, in `I`. -/
def Returns (I : σ → Prop) (p : Recorded ε ω σ α) : Prop :=
  ∀ s, I s → ∃ a s', (p s).1 = (.ok a, s') ∧ I s'

section Returns

variable {I : σ → Prop}

theorem returns_pure (a : α) : Returns I (pure a : Recorded ε ω σ α) :=
  fun s hs => ⟨a, s, rfl, hs⟩

theorem returns_modify {f : σ → σ} (h : ∀ s, I s → I (f s)) :
    Returns I (modify f : Recorded ε ω σ Unit) := fun s hs => ⟨(), f s, rfl, h s hs⟩

theorem returns_notes (events : List ω) : Returns I (notes events : Recorded ε ω σ Unit) :=
  fun s hs => ⟨(), s, rfl, hs⟩

theorem returns_get_bind {f : σ → Recorded ε ω σ α} (hf : ∀ s, I s → Returns I (f s)) :
    Returns I (get >>= f) := fun s hs => hf s hs s hs

theorem returns_bind {p : Recorded ε ω σ α} {f : α → Recorded ε ω σ β} (hp : Returns I p)
    (hf : ∀ a, Returns I (f a)) : Returns I (p >>= f) := by
  intro s hs
  obtain ⟨a, s₁, hok, hI⟩ := hp s hs
  rw [fst_bind_ok hok]
  exact hf a s₁ hI

theorem returns_ite {c : Prop} [Decidable c] {p q : Recorded ε ω σ α} (hp : c → Returns I p)
    (hq : ¬c → Returns I q) : Returns I (if c then p else q) := by
  split
  · exact hp ‹_›
  · exact hq ‹_›

end Returns

end Recorded

end Seekira.Library
