import Seekira.Analysis.ReaderSteps

/-!
# Reachable readers

While the worker is in its loop, every method of the reader that it called has
returned.  So what every returning method keeps holds of the reader in each state
that the worker and the posters reach.
-/

set_option autoImplicit false

namespace Seekira.Model

open Library

namespace ReaderWorker

variable {δ κ : Type} {D : IDemuxer δ} {C : CodecOps κ}

/-- The worker has neither left its loop nor crashed. -/
def InLoop (w : ReaderWorker δ κ) : Prop := w.pc ≠ .leaving ∧ w.pc ≠ .finished ∧ w.pc ≠ .crashed

/-- What the worker does to the reader keeps `I`, as long as the methods return. -/
structure KeptByMethods (D : IDemuxer δ) (C : CodecOps κ) (I : ReaderFF δ κ → Prop) : Prop where
  setReaderState : ∀ r state, I r → I (ReaderFF.setReaderState state r).2
  continueReading : ∀ r value, I r → I { r with continueReading := value }
  needStop : ∀ r, I r → I { r with needStop := true }
  event : ∀ r r' event, I r → ReaderFF.handleEvent D C event r = (.ok (), r') → I r'
  readFrame : ∀ r r', I r → ReaderFF.readFrame D C r = (.ok (), r') → I r'

variable {I : ReaderFF δ κ → Prop}

/-- The worker stays in its loop only when the method returned. -/
theorem ok_of_inLoop {w : ReaderWorker δ κ} {res : Except Fault Unit × ReaderFF δ κ}
    (hloop : (afterCall res w).InLoop) : res = (.ok (), res.2) := by
  obtain ⟨hleaving, -, hcrashed⟩ := hloop
  rcases res with ⟨e | _, r⟩
  · cases e with
    | thrown => exact absurd rfl hleaving
    | nullDeref | nullDecoder => exact absurd rfl hcrashed
    | diverged => exact absurd rfl hleaving
  · rfl

/-- Within the loop the invariant holds behind a call that returned. -/
theorem inLoop_afterCall {w : ReaderWorker δ κ} {p : Proc Fault (ReaderFF δ κ) Unit}
    {r : ReaderFF δ κ} (hp : ∀ r', p r = (.ok (), r') → I r')
    (hloop : (afterCall (p r) w).InLoop) : I (afterCall (p r) w).reader := by
  have hok := ok_of_inLoop hloop
  rw [hok]
  exact hp _ hok

/-- A step of the worker keeps the invariant while it is in the loop. -/
theorem KeptByMethods.works (hI : KeptByMethods D C I) {w w' : ReaderWorker δ κ} (h : I w.reader)
    (hs : Works D C w w') (hloop : w'.InLoop) : I w'.reader := by
  cases hs with
  | starts => exact hI.setReaderState _ _ h
  | handles item => exact inLoop_afterCall (fun r' hr => hI.event _ r' _ h hr) hloop
  | goesOn value => exact hI.continueReading _ _ h
  | pauses value => exact hI.setReaderState _ _ (hI.continueReading _ _ h)
  | reads =>
    exact inLoop_afterCall (fun r' hr => hI.readFrame _ r' (hI.setReaderState _ _ h) hr) hloop
  | leaves => exact absurd (finished_leaveLoop w) hloop.2.1
  | tests | idles | crashes | waits => exact h

/-- A worker that has left its loop does not come back. -/
theorem left_of_step {w w' : ReaderWorker δ κ} {l : ReaderLabel}
    (h : w.pc = .leaving ∨ w.pc = .finished ∨ w.pc = .crashed)
    (hs : ReaderWorker.step D C w l = some w') :
    w'.pc = .leaving ∨ w'.pc = .finished ∨ w'.pc = .crashed := by
  have hne : w.pc ≠ .blocked := by
    rcases h with h | h | h <;> simp [h]
  cases steps_of_step hs with
  | posts | stops => exact h
  | notifies | wakes =>
    rw [wake_of_not_blocked hne]
    exact h
  | works _ hworks =>
    cases hworks with
    | leaves => exact .inr (.inl (finished_leaveLoop w))
    | tests _ hpc => rcases hpc with hpc | hpc <;> simp [hpc] at h
    | waits _ hpc => rcases hpc with hpc | hpc | hpc <;> simp [hpc] at h
    | starts hpc | idles hpc | handles _ hpc | crashes hpc | goesOn _ hpc | pauses _ hpc
    | reads hpc => simp [hpc] at h

/-- A worker that is in its loop after a step was there before it. -/
theorem inLoop_of_step {w w' : ReaderWorker δ κ} {l : ReaderLabel}
    (hs : ReaderWorker.step D C w l = some w') (hloop : w'.InLoop) : w.InLoop := by
  obtain ⟨hleaving, hfinished, hcrashed⟩ := hloop
  have hleft : ¬(w.pc = .leaving ∨ w.pc = .finished ∨ w.pc = .crashed) := by
    intro h
    rcases left_of_step h hs with h' | h' | h'
    · exact hleaving h'
    · exact hfinished h'
    · exact hcrashed h'
  exact ⟨fun h => hleft (.inl h), fun h => hleft (.inr (.inl h)), fun h => hleft (.inr (.inr h))⟩

/-- Every step keeps the invariant while the worker is in the loop. -/
theorem KeptByMethods.step (hI : KeptByMethods D C I) {w w' : ReaderWorker δ κ} {l : ReaderLabel}
    (h : w.InLoop → I w.reader) (hs : ReaderWorker.step D C w l = some w') (hloop : w'.InLoop) :
    I w'.reader := by
  have hI' : I w.reader := h (inLoop_of_step hs hloop)
  cases steps_of_step hs with
  | posts event => exact hI'
  | notifies | wakes =>
    rw [← wake_reader] at hI'
    exact hI'
  | works _ hworks => exact hI.works hI' hworks hloop
  | stops => exact hI.needStop _ hI'

/-- What returning methods keep holds while the worker is in its loop. -/
theorem reader_of_reachable (hI : KeptByMethods D C I) {reader : ReaderFF δ κ} (h : I reader)
    {w : ReaderWorker δ κ} (hw : (machine D C reader).Reachable w) (hloop : w.InLoop) :
    I w.reader := by
  have hall : w.InLoop → I w.reader := by
    refine hw.invariant (I := fun w => w.InLoop → I w.reader) (fun _ => ?_) ?_
    · exact hI.setReaderState _ _ (hI.continueReading _ _ h)
    · exact fun w l w' hw hs hloop => hI.step hw hs hloop
  exact hall hloop

end ReaderWorker

end Seekira.Model
