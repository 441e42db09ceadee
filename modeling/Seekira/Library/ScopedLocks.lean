import Mathlib.Data.List.Basic
import Mathlib.Data.List.Nodup
import Seekira.Library.Proc

/-!
# Scoped locks

A thread holds mutexes that are not recursive: when it locks one that it holds already, it
waits for itself.  A scoped lock gets all its mutexes at once and gives them back at the
end of its scope, whether the scope returned or failed.  What was locked is recorded, so
that a statement can say how often a run took a mutex.
-/

set_option autoImplicit false

namespace Seekira.Library

/-- The mutexes that a thread holds, and those that it locked so far in their order. -/
structure Mutexes (μ : Type) where
  held : List μ
  taken : List μ

namespace Mutexes

variable {ε σ μ α : Type} [DecidableEq μ]

def lock (ms : List μ) (x : Mutexes μ) : Mutexes μ :=
  { held := ms ++ x.held, taken := x.taken ++ ms }

def unlock (ms : List μ) (x : Mutexes μ) : Mutexes μ :=
  { x with held := x.held.filter fun m => m ∉ ms }

/-- The mutexes can be locked: none is named twice or held. -/
def Lockable (ms : List μ) (x : Mutexes μ) : Prop := ms.Nodup ∧ ∀ m ∈ ms, m ∉ x.held

instance (ms : List μ) (x : Mutexes μ) : Decidable (Lockable ms x) :=
  inferInstanceAs (Decidable (_ ∧ _))

/-- Unlocking releases what was locked, and remembers that it was taken. -/
theorem unlock_lock {ms : List μ} {x : Mutexes μ} (h : Lockable ms x) :
    (x.lock ms).unlock ms = { x with taken := x.taken ++ ms } := by
  have hnone : ms.filter (fun m => m ∉ ms) = [] := by simp
  have hall : x.held.filter (fun m => m ∉ ms) = x.held := by
    apply List.filter_eq_self.mpr
    intro m hm
    simpa using fun hmem => h.2 m hmem hm
  unfold lock unlock
  simp only [List.filter_append, hnone, hall, List.nil_append]

section Scope

variable (proj : σ → Mutexes μ) (put : Mutexes μ → σ → σ) (relocked : ε) (ms : List μ)

/-- Lock `ms`, or fail with `relocked` where the thread would wait for itself. -/
def lockAll : Proc ε σ Unit := do
  let s ← Proc.get
  if Lockable ms (proj s) then
    Proc.modify fun s => put ((proj s).lock ms) s
  else
    Proc.throw relocked

/-- Run `body` with the mutexes `ms`, which lie in the state at `proj`. -/
def scopedLock (body : Proc ε σ α) : Proc ε σ α := do
  lockAll proj put relocked ms
  Proc.ensure body (Proc.modify fun s => put ((proj s).unlock ms) s)

variable {proj put relocked ms}

theorem lockAll_ok {s : σ} (h : Lockable ms (proj s)) :
    lockAll proj put relocked ms s = (.ok (), put ((proj s).lock ms) s) := by
  unfold lockAll
  simp [h]

/-- A body that returns is run under the locks, which are released behind it. -/
theorem scopedLock_ok {body : Proc ε σ α} {s s' : σ} {a : α} (h : Lockable ms (proj s))
    (hbody : body (put ((proj s).lock ms) s) = (.ok a, s')) :
    scopedLock proj put relocked ms body s = (.ok a, put ((proj s').unlock ms) s') := by
  unfold scopedLock
  rw [Proc.bind_ok (lockAll_ok h)]
  exact Proc.ensure_ok hbody rfl

/-- Where the mutexes can be locked, only the body fails. -/
theorem scopedLock_ne_error {body : Proc ε σ α} {s : σ} {e : ε} (h : Lockable ms (proj s))
    (hbody : (body (put ((proj s).lock ms) s)).1 ≠ .error e) :
    (scopedLock proj put relocked ms body s).1 ≠ .error e := by
  unfold scopedLock
  rw [Proc.bind_ok (lockAll_ok h)]
  exact Proc.ensure_ne_error hbody (Proc.avoids_modify _)

end Scope

end Mutexes

end Seekira.Library
