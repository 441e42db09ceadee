import Seekira.Library.Proc

/-!
# How a computation ends

A computation that returns or fails ends in a value with one property or in a failure
with another.  The rules follow a sequence and a loop over a list.
-/

set_option autoImplicit false

namespace Seekira.Library

variable {ε α β : Type}

/-- It returns a value with `I`, or fails with `E`. -/
def Ends (E : ε → Prop) (I : α → Prop) : Except ε α → Prop
  | .ok a => I a
  | .error e => E e

variable {E : ε → Prop} {I : α → Prop} {J : β → Prop} {x : Except ε α}

theorem Ends.bind {f : α → Except ε β} (hx : Ends E I x) (hf : ∀ a, I a → Ends E J (f a)) :
    Ends E J (x >>= f) := by
  cases x with
  | ok a => exact hf a hx
  | error e => exact hx

/-- Only what it returns matters, and it is at hand as an equation. -/
theorem Ends.bind_of_ok {f : α → Except ε β} (hx : Ends E (fun _ => True) x)
    (hf : ∀ a, x = .ok a → Ends E J (f a)) : Ends E J (x >>= f) := by
  cases x with
  | ok a => exact hf a rfl
  | error e => exact hx

/-- A computation over the elements of a list ends when it does for each. -/
theorem ends_mapM {γ : Type} {f : γ → Except ε α} (hf : ∀ c, Ends E (fun _ => True) (f c))
    (l : List γ) : Ends E (fun _ => True) (l.mapM f) := by
  induction l with
  | nil => exact trivial
  | cons c rest ih =>
    rw [List.mapM_cons]
    exact (hf c).bind fun _ _ => ih.bind fun _ _ => trivial

/-- A loop over the elements of a list ends when it does for each. -/
theorem ends_forM {γ : Type} {f : γ → Except ε PUnit} (hf : ∀ c, Ends E (fun _ => True) (f c))
    (l : List γ) : Ends E (fun _ => True) (l.forM f) := by
  induction l with
  | nil => exact trivial
  | cons c rest ih =>
    show Ends E (fun _ => True) (f c >>= fun _ => rest.forM f)
    exact (hf c).bind fun _ _ => ih

end Seekira.Library
