import Seekira.Library.Loop
import Seekira.Model.ThreadPoolWorker

/-!
# Resetting the exceptions of a worker

`reset_exceptions` locks twice: it reads the number of exceptions under the first lock and drops
that many under the second one.  Between the locks the worker's thread may record more of them; then
the later ones are copied to a new list.
-/

set_option autoImplicit false

namespace Seekira.Model.ThreadPoolWorker

open Library

variable {ι : Type}

/-- One round of the loop that copies the later exceptions, over its index and the new list; `at`
throws `std::out_of_range`.
SOURCE: core/threading/thread_pool_worker.hpp:158-159 -/
def copyRound (exceptionPtrs : List Exc) (size : Nat) :
    Nat × List Exc → Round (Nat × List Exc) (Except Exc (List Exc))
  | (i, newExceptions) =>
    if size < exceptionPtrs.length then
      match exceptionPtrs[i]? with
      | some e => .again (i + 1, newExceptions ++ [e])
      | none => .leave (.error .std)
    else .leave (.ok newExceptions)

/-- The second critical section ends with `result`, `size` being the length read in the first one.
SOURCE: core/threading/thread_pool_worker.hpp:149-162 -/
inductive DropsFirst (size : Nat) (w : ThreadPoolWorker ι) :
    Except Exc (ThreadPoolWorker ι) → Prop
  | clear : size = w.exceptionPtrs.length →
      DropsFirst size w (.ok { w with exceptionPtrs := [] })
  | copy {n : Nat} {newExceptions : List Exc} : size ≠ w.exceptionPtrs.length →
      Leaves (copyRound w.exceptionPtrs size) n (size, []) (.ok newExceptions) →
      DropsFirst size w (.ok { w with exceptionPtrs := newExceptions })
  | throw {n : Nat} {e : Exc} : size ≠ w.exceptionPtrs.length →
      Leaves (copyRound w.exceptionPtrs size) n (size, []) (.error e) →
      DropsFirst size w (.error e)

/-- The exceptions are recorded one after the other. -/
def recordAll (later : List Exc) (w : ThreadPoolWorker ι) : ThreadPoolWorker ι :=
  later.foldl (fun w e => w.recordException e) w

/-- `reset_exceptions` ends with `result` when `later` is recorded between its locks.
SOURCE: core/threading/thread_pool_worker.hpp:141-163 -/
def Resets (later : List Exc) (w : ThreadPoolWorker ι) (result : Except Exc (ThreadPoolWorker ι)) :
    Prop :=
  DropsFirst w.exceptionPtrs.length (w.recordAll later) result

end Seekira.Model.ThreadPoolWorker
