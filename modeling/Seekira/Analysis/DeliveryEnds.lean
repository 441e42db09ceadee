import Seekira.Analysis.DeliveryOrder

/-!
# The end of a delivery

Every call costs the same work: the owner posts it, a thread takes it, makes it and
returns from it.  With one step for each operation of the script, the length of a run
together with the work that is left is therefore the same all along, so that no
interleaving can run for ever, and one that gets stuck has made every call.
-/

set_option autoImplicit false

namespace Seekira.Model

open Library

namespace ObserverDelivery

variable {n : Nat} {γ : Type} {s s' : ObserverDelivery n γ} {script : List (ListOp γ)}

/-- The steps that a thread has yet to take before it is idle. -/
def stepsToIdle {τ : Type} : TaskThread τ → Nat
  | .idle => 0
  | .taken _ => 2
  | .calling _ => 1

@[simp] theorem stepsToIdle_idle {τ : Type} : stepsToIdle (.idle : TaskThread τ) = 0 := rfl

@[simp] theorem stepsToIdle_taken {τ : Type} (task : τ) : stepsToIdle (.taken task) = 2 := rfl

@[simp] theorem stepsToIdle_calling {τ : Type} (task : τ) : stepsToIdle (.calling task) = 1 := rfl

/-- The steps that are left: one for an operation of the script, four for a call. -/
def stepsLeft (s : ObserverDelivery n γ) : Nat :=
  s.script.length + 4 * (sends s.list s.script).length + 4 * s.posting.length +
    3 * s.pool.tasks.length + ∑ i, stepsToIdle (s.pool.threads i)

/-- The work of a script: one step for each operation, four for each call. -/
def work (script : List (ListOp γ)) : Nat :=
  script.length + 4 * (sends EventHandlerList.create script).length

theorem stepsLeft_initial (script : List (ListOp γ)) :
    (initial script : ObserverDelivery n γ).stepsLeft = work script := by
  simp [stepsLeft, work, initial, ThreadPoolEventHandler.create]

/-- The steps of one thread count for themselves. -/
theorem sum_stepsToIdle_update (threads : Fin n → TaskThread (Nat × γ)) (i : Fin n)
    (t : TaskThread (Nat × γ)) :
    ∑ j, stepsToIdle (Function.update threads i t j) + stepsToIdle (threads i) =
      ∑ j, stepsToIdle (threads j) + stepsToIdle t := by
  rw [← Finset.add_sum_erase _ _ (Finset.mem_univ i),
    ← Finset.add_sum_erase _ (fun j => stepsToIdle (threads j)) (Finset.mem_univ i),
    Function.update_self]
  have hothers : ∑ j ∈ Finset.univ.erase i, stepsToIdle (Function.update threads i t j) =
      ∑ j ∈ Finset.univ.erase i, stepsToIdle (threads j) := by
    apply Finset.sum_congr rfl
    intro j hj
    rw [Function.update_of_ne (Finset.ne_of_mem_erase hj)]
  rw [hothers]
  omega

/-- Every step does one step's worth of the work. -/
theorem stepsLeft_step {l : DeliveryLabel n} (h : step s l = some s') :
    s'.stepsLeft + 1 = s.stepsLeft := by
  cases l with
  | owner =>
    simp only [step, ownerStep] at h
    split at h
    · rename_i call rest hposting
      cases h
      simp only [stepsLeft, ThreadPoolEventHandler.addTask, hposting, List.length_append,
        List.length_cons, List.length_nil]
      omega
    · rename_i hposting
      split at h
      · cases h
      · rename_i op rest hscript
        cases h
        simp only [stepsLeft, hposting, hscript, sends, List.length_append, List.length_cons,
          List.length_nil]
        omega
  | take i =>
    simp only [step] at h
    split at h
    · rename_i task rest hidle htasks
      cases h
      have hsum := sum_stepsToIdle_update s.pool.threads i (.taken task)
      simp only [hidle, stepsToIdle_idle, stepsToIdle_taken] at hsum
      simp only [stepsLeft, ThreadPoolEventHandler.setThread, htasks, List.length_cons]
      omega
    · cases h
  | call i =>
    simp only [step] at h
    split at h
    · rename_i task htaken
      cases h
      have hsum := sum_stepsToIdle_update s.pool.threads i (.calling task)
      simp only [htaken, stepsToIdle_taken, stepsToIdle_calling] at hsum
      simp only [stepsLeft, ThreadPoolEventHandler.setThread]
      omega
    · cases h
  | finish i =>
    simp only [step] at h
    split at h
    · rename_i task hcalling
      cases h
      have hsum := sum_stepsToIdle_update s.pool.threads i .idle
      simp only [hcalling, stepsToIdle_idle, stepsToIdle_calling] at hsum
      simp only [stepsLeft, ThreadPoolEventHandler.setThread]
      omega
    · cases h

/-- A run and what is left after it make up the work of the script. -/
theorem length_add_stepsLeft {ls : List (DeliveryLabel n)}
    (h : (machine n script).exec s ls = some s') : ls.length + s'.stepsLeft = s.stepsLeft := by
  induction ls generalizing s with
  | nil =>
    cases h
    simp
  | cons l ls ih =>
    obtain ⟨s₁, hstep, hrest⟩ := Option.bind_eq_some_iff.mp h
    have hone := stepsLeft_step hstep
    have hmore := ih hrest
    simp only [List.length_cons]
    omega

/-- Everything is done: nothing is left to post, to take or to return from, and the calls made are
those sent. -/
structure Delivered (script : List (ListOp γ)) (s : ObserverDelivery n γ) : Prop where
  script_nil : s.script = []
  posting_nil : s.posting = []
  tasks_nil : s.pool.tasks = []
  idle : ∀ i, s.pool.threads i = .idle
  called : s.called.Perm (sends EventHandlerList.create script)

theorem stepsToIdle_eq_zero {τ : Type} {t : TaskThread τ} : stepsToIdle t = 0 ↔ t = .idle := by
  cases t <;> simp [stepsToIdle]

theorem Delivered.stepsLeft_eq (h : Delivered script s) : s.stepsLeft = 0 := by
  simp [stepsLeft, h.script_nil, h.posting_nil, h.tasks_nil, h.idle, sends]

/-- The calls left are those that `Conserved` counts, so that none of them is missing at the end. -/
theorem Conserved.delivered (h : Conserved script s) (hleft : s.stepsLeft = 0) :
    Delivered script s := by
  simp only [stepsLeft, Nat.add_eq_zero_iff, mul_eq_zero, OfNat.ofNat_ne_zero, false_or,
    List.length_eq_zero_iff, Finset.sum_eq_zero_iff, Finset.mem_univ, true_implies,
    stepsToIdle_eq_zero] at hleft
  obtain ⟨⟨⟨⟨hscript, hsends⟩, hposting⟩, htasks⟩, hidle⟩ := hleft
  refine ⟨hscript, hposting, htasks, hidle, ?_⟩
  unfold Conserved at h
  simp only [hidle, held_idle, pending, htasks, hposting, hsends, List.append_nil,
    Multiset.coe_nil, Finset.sum_const_zero, add_zero] at h
  exact Multiset.coe_eq_coe.mp h

/-- A delivery gets stuck only when no work is left: whoever has something to do can do it. -/
theorem stepsLeft_of_stuck (hn : 0 < n) (hstuck : ∀ l, step s l = none) : s.stepsLeft = 0 := by
  have hposting : s.posting = [] := by
    cases hp : s.posting with
    | nil => rfl
    | cons call rest => simpa [step, ownerStep, hp] using hstuck .owner
  have hscript : s.script = [] := by
    cases hs : s.script with
    | nil => rfl
    | cons op rest => simpa [step, ownerStep, hposting, hs] using hstuck .owner
  have hidle : ∀ i, s.pool.threads i = .idle := by
    intro i
    cases ht : s.pool.threads i with
    | idle => rfl
    | taken task => simpa [step, ht] using hstuck (.call i)
    | calling task => simpa [step, ht] using hstuck (.finish i)
  have htasks : s.pool.tasks = [] := by
    cases ht : s.pool.tasks with
    | nil => rfl
    | cons task rest => simpa [step, hidle, ht] using hstuck (.take ⟨0, hn⟩)
  simp [stepsLeft, hposting, hscript, hidle, htasks, sends]

/-- For every pool with a thread, every script and every interleaving, where the handlers return and
nobody stops the pool: a run is at most as long as the work of the script, it is stuck exactly when
it is that long, and then exactly the calls that were sent have been made. -/
theorem delivery_ends (n : Nat) (hn : 0 < n) (script : List (ListOp γ))
    (ls : List (DeliveryLabel n)) (s : ObserverDelivery n γ)
    (h : (machine n script).exec (initial script) ls = some s) :
    ls.length ≤ work script ∧
      ((∀ l, step s l = none) ↔ ls.length = work script) ∧
      (ls.length = work script ↔ Delivered script s) := by
  have hlength := length_add_stepsLeft h
  rw [stepsLeft_initial] at hlength
  have hconserved : Conserved script s := by
    have hreach : (machine n script).Reachable s := ⟨_, Machine.run_of_exec h⟩
    have hinit : Conserved script (machine n script).init := Conserved.initial script
    exact hreach.invariant hinit fun s l s' hi hs => hi.step (move_of_step hs)
  have hdone : ls.length = work script ↔ s.stepsLeft = 0 := by omega
  refine ⟨by omega, ⟨fun hstuck => ?_, fun hlen l => ?_⟩, ?_⟩
  · exact hdone.mpr (stepsLeft_of_stuck hn hstuck)
  · cases hl : step s l with
    | none => rfl
    | some s' =>
      have hone := stepsLeft_step hl
      have hzero := hdone.mp hlen
      omega
  · rw [hdone]
    exact ⟨hconserved.delivered, Delivered.stepsLeft_eq⟩

/-- Two observers, one event and two threads, of which the second overtakes the first. -/
theorem delivery_ends_overtaken :
    ∃ s, (machine 2 [.register 0, .register 1, .notify 7]).exec
        (initial [.register 0, .register 1, .notify 7])
        [.owner, .owner, .owner, .owner, .take 0, .owner, .take 1, .call 1, .finish 1,
          .call 0, .finish 0] = some s ∧
      s.called = [(1, 7), (0, 7)] ∧ Delivered [.register 0, .register 1, .notify 7] s := by
  obtain ⟨s, hrun, hcalled⟩ : ∃ s, (machine 2 [.register 0, .register 1, .notify 7]).exec
      (initial [.register 0, .register 1, .notify 7])
      [.owner, .owner, .owner, .owner, .take 0, .owner, .take 1, .call 1, .finish 1,
        .call 0, .finish 0] = some s ∧ s.called = [(1, 7), (0, 7)] := ⟨_, rfl, rfl⟩
  exact ⟨s, hrun, hcalled, (delivery_ends 2 (by decide) _ _ s hrun).2.2.mp (by decide)⟩

end ObserverDelivery

end Seekira.Model
