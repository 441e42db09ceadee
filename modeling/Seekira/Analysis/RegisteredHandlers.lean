import Mathlib.Data.List.Nodup
import Seekira.Library.PastTime
import Seekira.Model.EventHandlerList

/-!
# Who is called

A disabled list refuses to register and to unregister handlers, with a warning, and forgets
nobody.  So the handlers called while the list is enabled are those whose last accepted operation
registered them, in the order in which they were registered; a handler that was unregistered while
the list was disabled is called as soon as it is enabled again.
-/

set_option autoImplicit false

namespace Seekira.Model.EventHandlerList

open Library

variable {η : Type} [DecidableEq η]

/-- The list accepts to register the handler. -/
def Registers (handler : η) (p : EventHandlerList η × Operation η) : Prop :=
  p.2 = .register (some handler) ∧ p.1.enabled = true

/-- The list accepts to unregister the handler. -/
def Unregisters (handler : η) (p : EventHandlerList η × Operation η) : Prop :=
  p.2 = .unregister (some handler) ∧ p.1.enabled = true

/-- The handler was registered and not unregistered since. -/
def Registered (tr : List (EventHandlerList η × Operation η)) (handler : η) : Prop :=
  Since (Unregisters handler) (Registers handler) tr

/-- The second handler came while the first one was registered, and none of the two was
unregistered since. -/
def RegisteredBefore (tr : List (EventHandlerList η × Operation η)) (first second : η) : Prop :=
  ∃ front p back, tr = front ++ p :: back ∧
    (Registered front first ∧ ¬Registered front second ∧ Registers second p) ∧
      ∀ q ∈ back, ¬Unregisters first q ∧ ¬Unregisters second q

/-- The handlers that the list holds for the next time it is enabled. -/
def current (h : EventHandlerList η) : List η := if h.enabled then h.subscribers else h.cache

/-! ## One operation -/

/-- The operations that the list accepts, and what they do to its handlers. -/
inductive Applies (h : EventHandlerList η) : Operation η → List η → Prop
  | registers (handler : η) : h.enabled = true →
      Applies h (.register (some handler))
        (if handler ∈ h.current then h.current else h.current ++ [handler])
  | unregisters (handler : η) : h.enabled = true →
      Applies h (.unregister (some handler)) (h.current.erase handler)
  | keeps (op : Operation η) : (∀ handler, ¬Registers handler (h, op)) →
      (∀ handler, ¬Unregisters handler (h, op)) → Applies h op h.current

/-- What an operation does to the list. -/
theorem applies_apply (h : EventHandlerList η) (op : Operation η) :
    Applies h op (h.apply op).current := by
  cases op with
  | register handler =>
    cases handler with
    | none => exact .keeps _ (by simp [Registers]) (by simp [Unregisters])
    | some handler =>
      cases hen : h.enabled with
      | false =>
        simp only [apply, registerEventHandler, hen, Bool.not_false, if_true]
        exact .keeps _ (by simp [Registers, hen]) (by simp [Unregisters])
      | true =>
        have hafter : (h.apply (.register (some handler))).current =
            if handler ∈ h.current then h.current else h.current ++ [handler] := by
          by_cases hmem : handler ∈ h.subscribers
          · simp [apply, registerEventHandler, current, hen, hmem]
          · simp [apply, registerEventHandler, current, hen, hmem]
        rw [hafter]
        exact .registers handler hen
  | unregister handler =>
    cases handler with
    | none => exact .keeps _ (by simp [Registers]) (by simp [Unregisters])
    | some handler =>
      cases hen : h.enabled with
      | false =>
        simp only [apply, unregisterEventHandler, hen, Bool.not_false, if_true]
        exact .keeps _ (by simp [Registers]) (by simp [Unregisters, hen])
      | true =>
        have hafter : (h.apply (.unregister (some handler))).current =
            h.current.erase handler := by
          simp [apply, unregisterEventHandler, current, hen]
        rw [hafter]
        exact .unregisters handler hen
  | disable =>
    have hafter : (h.apply .disable).current = h.current := by
      cases hen : h.enabled <;> simp [apply, disable, current, hen]
    rw [hafter]
    exact .keeps _ (by simp [Registers]) (by simp [Unregisters])
  | enable =>
    have hafter : (h.apply .enable).current = h.current := by
      cases hen : h.enabled <;> simp [apply, enable, current, hen]
    rw [hafter]
    exact .keeps _ (by simp [Registers]) (by simp [Unregisters])
  | perform => exact .keeps _ (by simp [Registers]) (by simp [Unregisters])

/-! ## Runs -/

omit [DecidableEq η] in

theorem registered_concat {tr : List (EventHandlerList η × Operation η)}
    {p : EventHandlerList η × Operation η} {handler : η} :
    Registered (tr ++ [p]) handler ↔
      Registers handler p ∨ (Registered tr handler ∧ ¬Unregisters handler p) :=
  since_concat

omit [DecidableEq η] in

/-- Who was registered first after one operation more. -/
theorem registeredBefore_concat {tr : List (EventHandlerList η × Operation η)}
    {p : EventHandlerList η × Operation η} {first second : η} :
    RegisteredBefore (tr ++ [p]) first second ↔
      (Registered tr first ∧ ¬Registered tr second ∧ Registers second p) ∨
        (RegisteredBefore tr first second ∧ ¬Unregisters first p ∧ ¬Unregisters second p) := by
  simp only [RegisteredBefore, concat_eq_append_cons]
  constructor
  · rintro ⟨front, q, back, ⟨rfl, rfl, rfl⟩ | ⟨rest, rfl, htr⟩, hnew, hkept⟩
    · exact .inl hnew
    · refine .inr ⟨⟨front, q, rest, htr, hnew, fun r hr => hkept r ?_⟩, hkept p (by simp)⟩
      exact List.mem_append_left _ hr
  · rintro (hnew | ⟨⟨front, q, rest, htr, hnew, hkept⟩, hlast⟩)
    · exact ⟨tr, p, [], .inl ⟨rfl, rfl, rfl⟩, hnew, by simp⟩
    · refine ⟨front, q, rest ++ [p], .inr ⟨rest, rfl, htr⟩, hnew, fun r hr => ?_⟩
      rcases List.mem_append.mp hr with hr | hr
      · exact hkept r hr
      · rw [List.mem_singleton.mp hr]
        exact hlast

/-- The handlers a list holds are those registered, each once, in registration order. -/
structure Lists (tr : List (EventHandlerList η × Operation η)) (handlers : List η) : Prop where
  nodup : handlers.Nodup
  mem_iff : ∀ handler, handler ∈ handlers ↔ Registered tr handler
  order : ∀ first second, [first, second].Sublist handlers ↔ RegisteredBefore tr first second

omit [DecidableEq η] in
/-- A pair in a list with one more element at its end. -/
theorem pair_sublist_concat {l : List η} {a b c : η} :
    [a, b].Sublist (l ++ [c]) ↔ [a, b].Sublist l ∨ (a ∈ l ∧ b = c) := by
  rw [List.sublist_append_iff]
  constructor
  · rintro ⟨front, back, hpair, hfront, hback⟩
    rcases List.sublist_singleton.mp hback with rfl | rfl
    · rw [List.append_nil] at hpair
      exact .inl (hpair ▸ hfront)
    · obtain ⟨rfl, hbc⟩ := List.append_inj' (show [a] ++ [b] = front ++ [c] from hpair) rfl
      exact .inr ⟨List.singleton_sublist.mp hfront, by simpa using hbc⟩
  · rintro (hpair | ⟨ha, rfl⟩)
    · exact ⟨[a, b], [], by simp, hpair, List.nil_sublist _⟩
    · exact ⟨[a], [b], rfl, List.singleton_sublist.mpr ha, List.Sublist.refl _⟩

/-- A pair in a list from which an element was erased. -/
theorem pair_sublist_erase {l : List η} {a b c : η} (hl : l.Nodup) :
    [a, b].Sublist (l.erase c) ↔ [a, b].Sublist l ∧ a ≠ c ∧ b ≠ c := by
  rw [hl.erase_eq_filter]
  constructor
  · intro hpair
    have ha : a ∈ l.filter (· != c) := hpair.subset (by simp)
    have hb : b ∈ l.filter (· != c) := hpair.subset (by simp)
    refine ⟨hpair.trans List.filter_sublist, ?_, ?_⟩
    · simpa using (List.mem_filter.mp ha).2
    · simpa using (List.mem_filter.mp hb).2
  · rintro ⟨hpair, ha, hb⟩
    have hkept : [a, b].filter (· != c) = [a, b] := by simp [ha, hb]
    exact hkept ▸ hpair.filter (· != c)

/-- An operation keeps the list that of the registered handlers in order. -/
theorem Lists.step {tr : List (EventHandlerList η × Operation η)} {h : EventHandlerList η}
    (hl : Lists tr h.current) (op : Operation η) :
    Lists (tr ++ [(h, op)]) (h.apply op).current := by
  generalize hafter : (h.apply op).current = handlers
  have happlies : Applies h op handlers := hafter ▸ applies_apply h op
  cases happlies with
  | registers handler hen =>
    have hnew : ∀ x, Registers x (h, .register (some handler)) ↔ x = handler := by
      simp [Registers, hen, eq_comm]
    have hkept : ∀ x, ¬Unregisters x (h, .register (some handler)) := by simp [Unregisters]
    by_cases hmem : handler ∈ h.current
    · -- a handler that is there already keeps its place
      have hold := (hl.mem_iff handler).mp hmem
      rw [if_pos hmem]
      refine ⟨hl.nodup, fun x => ?_, fun first second => ?_⟩
      · rw [registered_concat, hnew, hl.mem_iff]
        constructor
        · exact fun hx => .inr ⟨hx, hkept x⟩
        · rintro (rfl | ⟨hx, -⟩)
          · exact hold
          · exact hx
      · rw [registeredBefore_concat, hnew, hl.order]
        constructor
        · exact fun hpair => .inr ⟨hpair, hkept first, hkept second⟩
        · rintro (⟨-, hsecond, rfl⟩ | ⟨hpair, -⟩)
          · exact absurd hold hsecond
          · exact hpair
    · have hout : ¬Registered tr handler := fun hr => hmem ((hl.mem_iff handler).mpr hr)
      rw [if_neg hmem]
      refine ⟨?_, fun x => ?_, fun first second => ?_⟩
      · exact List.nodup_append.mpr ⟨hl.nodup, by simp, by simpa using fun x hx => ne_of_mem_of_not_mem hx hmem⟩
      · rw [registered_concat, hnew, List.mem_append, List.mem_singleton, hl.mem_iff]
        simp [hkept, or_comm]
      · rw [registeredBefore_concat, hnew, pair_sublist_concat, hl.order, hl.mem_iff]
        simp only [hkept, not_false_eq_true, and_true]
        constructor
        · rintro (hpair | ⟨hfirst, rfl⟩)
          · exact .inr hpair
          · exact .inl ⟨hfirst, hout, rfl⟩
        · rintro (⟨hfirst, -, hsecond⟩ | hpair)
          · exact .inr ⟨hfirst, hsecond⟩
          · exact .inl hpair
  | unregisters handler hen =>
    have hgone : ∀ x, Unregisters x (h, .unregister (some handler)) ↔ x = handler := by
      simp [Unregisters, hen, eq_comm]
    have hnone : ∀ x, ¬Registers x (h, .unregister (some handler)) := by simp [Registers]
    refine ⟨hl.nodup.erase handler, fun x => ?_, fun first second => ?_⟩
    · rw [registered_concat, hl.nodup.mem_erase_iff, hl.mem_iff, hgone]
      simp [hnone, and_comm]
    · rw [registeredBefore_concat, pair_sublist_erase hl.nodup, hl.order, hgone, hgone]
      simp [hnone]
  | keeps _ hregisters hunregisters =>
    refine ⟨hl.nodup, fun handler => ?_, fun first second => ?_⟩
    · rw [registered_concat, hl.mem_iff]
      simp [hregisters, hunregisters]
    · rw [registeredBefore_concat, hl.order]
      simp [hregisters, hunregisters]

/-- After every run the list is that of the registered handlers in order. -/
theorem lists_of_run {tr : List (EventHandlerList η × Operation η)} {h : EventHandlerList η}
    (hrun : (machine η).Run tr h) : Lists tr h.current := by
  induction hrun with
  | init =>
    refine ⟨List.nodup_nil, fun handler => ?_, fun first second => ?_⟩
    · exact iff_of_false (by simp [machine, create, current]) not_since_nil
    · refine iff_of_false (by simp [machine, create, current]) ?_
      rintro ⟨front, p, back, hnil, -⟩
      simp at hnil
  | @step tr h h' op _ hstep ih =>
    obtain rfl : h.apply op = h' := by simpa [machine] using hstep
    exact ih.step op

/-- After every sequence of operations, `perform` on an enabled list calls exactly the handlers
that were registered and not unregistered since, each once, in registration order, where only what
was done while the list was enabled counts. -/
theorem perform_calls_registered {tr : List (EventHandlerList η × Operation η)}
    {h : EventHandlerList η} (hrun : (machine η).Run tr h) (hen : h.enabled = true) :
    h.performForEach.Nodup ∧
    (∀ handler, handler ∈ h.performForEach ↔ Registered tr handler) ∧
    (∀ first second,
      [first, second].Sublist h.performForEach ↔ RegisteredBefore tr first second) := by
  have hl := lists_of_run hrun
  rw [current, if_pos hen] at hl
  exact ⟨hl.nodup, hl.mem_iff, hl.order⟩

/-! ### A handler that goes away while the list is disabled -/

/-- Two handlers come, the list is disabled, the first one goes, the list is enabled. -/
def goneWhileDisabled : List (Operation Nat) :=
  [.register (some 1), .register (some 2), .disable, .unregister (some 1), .enable]

/-- Two handlers, one of which leaves while the list is disabled. -/
theorem perform_calls_registered_twice :
    ∃ h, (machine Nat).Run ((machine Nat).trace create goneWhileDisabled) h ∧
      h.performForEach = [1, 2] ∧ h.performForEach.Nodup ∧
      (∀ handler, handler ∈ h.performForEach ↔
        Registered ((machine Nat).trace create goneWhileDisabled) handler) ∧
      (∀ first second, [first, second].Sublist h.performForEach ↔
        RegisteredBefore ((machine Nat).trace create goneWhileDisabled) first second) := by
  obtain ⟨h, -, hrun, hh⟩ := Machine.exists_run_of_exec (machine Nat) goneWhileDisabled
    (fun h => h.enabled && h.performForEach = [1, 2]) (by decide +kernel)
  obtain ⟨hen, hcalls⟩ : h.enabled = true ∧ h.performForEach = [1, 2] := by simpa using hh
  exact ⟨h, hrun, hcalls, perform_calls_registered hrun hen⟩

/-- The first handler is called after `unregister_event_handler` has returned for it. -/
theorem called_after_unregister :
    ¬∀ (tr : List (EventHandlerList Nat × Operation Nat)) (h : EventHandlerList Nat),
      (machine Nat).Run tr h → h.enabled = true →
        ∀ handler, handler ∈ h.performForEach ↔
          Since (fun p => p.2 = .unregister (some handler))
            (fun p => p.2 = .register (some handler)) tr := by
  intro hall
  obtain ⟨h, -, hrun, hh⟩ := Machine.exists_run_of_exec (machine Nat) goneWhileDisabled
    (fun h => h.enabled && h.performForEach = [1, 2]) (by decide +kernel)
  obtain ⟨hen, hcalls⟩ : h.enabled = true ∧ h.performForEach = [1, 2] := by simpa using hh
  have hsince := (hall _ h hrun hen 1).mp (by simp [hcalls])
  have htrace : (machine Nat).trace (machine Nat).init goneWhileDisabled =
      (((machine Nat).trace create (goneWhileDisabled.take 3)) ++ [(⟨[], [1, 2], false⟩,
        .unregister (some 1))]) ++ [(⟨[], [1, 2], false⟩, .enable)] := by decide +kernel
  rw [htrace, since_concat, since_concat] at hsince
  simp at hsince

end Seekira.Model.EventHandlerList
