import Seekira.Library.PastTime
import Seekira.Model.Connector

/-!
# Who is in the connector

An entry is made by a registration and erased by the destruction of any source with its id, so
the connector knows an id exactly when a registration under it was tried after the last such
destruction.  The destructors assert that it does, of a source and of an object, whether they were
ever registered or connected.

An entry belongs to the source that made it only as long as no other source with its id is
destroyed.
-/

set_option autoImplicit false

namespace Seekira.Model.Connector

open Library

variable {w w' : World} {op : Operation} {tr : List (World × Operation)} {address : Nat} {c : String}

/-- A live source tries to register under the id. -/
def Attempts (c : String) (p : World × Operation) : Prop :=
  ∃ address, p.2 = .registerSource (some address) ∧ p.1.sources address = some c

/-- A source with the id is destroyed. -/
def Removes (c : String) (p : World × Operation) : Prop :=
  ∃ address, p.2 = .destroySource address ∧ p.1.sources address = some c

/-- An object with the id is destroyed. -/
def Releases (c : String) (p : World × Operation) : Prop :=
  ∃ address, p.2 = .destroyObject address ∧ p.1.objects address = some c

/-- The source registers, and nobody holds the id. -/
def Enters (address : Nat) (c : String) (p : World × Operation) : Prop :=
  p.2 = .registerSource (some address) ∧ p.1.sources address = some c ∧ p.1.connections c = none

def Leaves (address : Nat) (p : World × Operation) : Prop := p.2 = .destroySource address

/-! ## One operation -/

/-- What an operation of a program that still runs can do. -/
inductive Effect (w : World) : Operation → World → Prop
  | keeps (op : Operation) : (∀ address, op ≠ .destroySource address) →
      (∀ address, op ≠ .destroyObject address) →
      (∀ c, Attempts c (w, op) → w.connections c ≠ none) → Effect w op w
  | sourceConstructed (address : Nat) (checked : Bool) (id : String) : w.sources address = none →
      Effect w (.constructSource address checked id)
        { w with sources := Function.update w.sources address (some id) }
  | objectConstructed (address : Nat) (checked : Bool) (id : String) : w.objects address = none →
      Effect w (.constructObject address checked id)
        { w with objects := Function.update w.objects address (some id) }
  | registered (address : Nat) (c : String) : w.sources address = some c →
      w.connections c = none →
      Effect w (.registerSource (some address))
        { w with connections := Function.update w.connections c (some (some address)) }
  | unregistered (address : Nat) (c : String) : w.sources address = some c →
      w.connections c ≠ none →
      Effect w (.destroySource address)
        { w with connections := Function.update w.connections c none
                 sources := Function.update w.sources address none }
  | sourceThrew (address : Nat) (c : String) : w.sources address = some c →
      w.connections c = none →
      Effect w (.destroySource address)
        { w with sources := Function.update w.sources address none, terminated := true }
  | disconnected (address : Nat) (c : String) : w.objects address = some c →
      (∃ source, w.connections c = some (some source)) →
      Effect w (.destroyObject address)
        { w with objects := Function.update w.objects address none }
  | objectThrew (address : Nat) (c : String) : w.objects address = some c →
      (∀ source, w.connections c ≠ some (some source)) →
      Effect w (.destroyObject address)
        { w with objects := Function.update w.objects address none, terminated := true }

/-- Where an object is made, nothing else changes. -/
theorem constructAt_eq_some {table table' : Nat → Option String} {checked : Bool} {id : String}
    (h : constructAt table address checked id = some table') :
    table' = table ∨
      (table address = none ∧ table' = Function.update table address (some id)) := by
  unfold constructAt construct at h
  cases hfree : table address with
  | some other => simp [hfree] at h
  | none =>
    by_cases hempty : checked ∧ id = ""
    · simp only [hfree, if_pos hempty] at h
      exact .inl (Option.some.inj h).symm
    · simp only [hfree, if_neg hempty] at h
      exact .inr ⟨rfl, (Option.some.inj h).symm⟩

/-- What registering a source does. -/
theorem effect_registerSource {source : Option Nat}
    (h : perform w (.registerSource source) = some w') : Effect w (.registerSource source) w' := by
  simp only [perform] at h
  cases source with
  | none =>
    obtain rfl : w = w' := by simpa [pointee, registerConnSource] using h
    exact .keeps _ (by simp) (by simp) (by simp [Attempts])
  | some address =>
    cases halive : w.sources address with
    | none => simp [pointee, halive] at h
    | some c =>
      cases hentry : w.connections c with
      | none =>
        have hafter : ({ w with connections := Function.update w.connections c (some (some address)) } :
            World) = w' := by
          simpa [pointee, halive, registerConnSource, hentry] using h
        rw [← hafter]
        exact .registered address c halive hentry
      | some entry =>
        obtain rfl : w = w' := by simpa [pointee, halive, registerConnSource, hentry] using h
        refine .keeps _ (by simp) (by simp) ?_
        rintro c' ⟨_, hop, halive'⟩
        cases hop
        rw [halive] at halive'
        cases halive'
        simp [hentry]

/-- What destroying a source does. -/
theorem effect_destroySource
    (h : perform w (.destroySource address) = some w') : Effect w (.destroySource address) w' := by
  simp only [perform] at h
  cases halive : w.sources address with
  | none => simp [halive] at h
  | some c =>
    cases hentry : w.connections c with
    | none =>
      have hafter : { w with sources := Function.update w.sources address none
                             terminated := true } = w' := by
        simpa [halive, unregisterConnSource, hentry] using h
      rw [← hafter]
      exact .sourceThrew address c halive hentry
    | some entry =>
      have hafter : { w with connections := Function.update w.connections c none
                             sources := Function.update w.sources address none } = w' := by
        simpa [halive, unregisterConnSource, hentry] using h
      rw [← hafter]
      exact .unregistered address c halive (by simp [hentry])

/-- What destroying an object does. -/
theorem effect_destroyObject
    (h : perform w (.destroyObject address) = some w') : Effect w (.destroyObject address) w' := by
  simp only [perform] at h
  cases halive : w.objects address with
  | none => simp [halive] at h
  | some c =>
    have hthrows : (∀ source, w.connections c ≠ some (some source)) →
        { w with objects := Function.update w.objects address none, terminated := true } = w' →
        Effect w (.destroyObject address) w' := by
      rintro hentry rfl
      exact .objectThrew address c halive hentry
    cases hentry : w.connections c with
    | none =>
      apply hthrows
      · simp [hentry]
      · simpa [halive, disconnect, sourceOf, hentry] using h
    | some entry =>
      cases entry with
      | none =>
        apply hthrows
        · simp [hentry]
        · simpa [halive, disconnect, sourceOf, hentry] using h
      | some source =>
        have hafter : { w with objects := Function.update w.objects address none } = w' := by
          simpa [halive, disconnect, sourceOf, hentry] using h
        rw [← hafter]
        exact .disconnected address c halive ⟨source, hentry⟩

/-- Everything a step can do. -/
theorem effect_of_step (h : machine.step w op = some w') :
    w.terminated = false ∧ Effect w op w' := by
  change (if w.terminated then none else perform w op) = some w' at h
  split at h
  case isTrue => cases h
  case isFalse hrunning =>
  refine ⟨by simpa using hrunning, ?_⟩
  cases op with
  | constructSource address checked id =>
    simp only [perform, Option.map_eq_some_iff] at h
    obtain ⟨sources, hsources, rfl⟩ := h
    rcases constructAt_eq_some hsources with rfl | ⟨hfree, rfl⟩
    · exact .keeps _ (by simp) (by simp) (by simp [Attempts])
    · exact .sourceConstructed address checked id hfree
  | registerSource source => exact effect_registerSource h
  | destroySource address => exact effect_destroySource h
  | constructObject address checked id =>
    simp only [perform, Option.map_eq_some_iff] at h
    obtain ⟨objects, hobjects, rfl⟩ := h
    rcases constructAt_eq_some hobjects with rfl | ⟨hfree, rfl⟩
    · exact .keeps _ (by simp) (by simp) (by simp [Attempts])
    · exact .objectConstructed address checked id hfree
  | connectObject object =>
    simp only [perform, Option.map_eq_some_iff] at h
    obtain ⟨_, -, rfl⟩ := h
    exact .keeps _ (by simp) (by simp) (by simp [Attempts])
  | destroyObject address => exact effect_destroyObject h

/-! ## The ids that the connector knows -/

/-- A registration leaves an entry, its own or the one there was; the destruction of a source leaves
none. -/
theorem entry_step (h : machine.step w op = some w') (c : String) :
    w'.connections c ≠ none ↔
      Attempts c (w, op) ∨ (w.connections c ≠ none ∧ ¬Removes c (w, op)) := by
  cases (effect_of_step h).2 with
  | keeps _ hsource _ hknown =>
    have hremoves : ¬Removes c (w, op) := by
      rintro ⟨address, hop, -⟩
      exact hsource address hop
    constructor
    · intro hentry
      exact .inr ⟨hentry, hremoves⟩
    · rintro (hattempt | ⟨hentry, -⟩)
      · exact hknown c hattempt
      · exact hentry
  | sourceConstructed => simp [Attempts, Removes]
  | objectConstructed => simp [Attempts, Removes]
  | registered address c' halive hentry =>
    by_cases hc : c = c'
    · subst hc
      simp [Attempts, halive]
    · have hc' : ¬c' = c := fun h => hc h.symm
      simp [Attempts, Removes, halive, Function.update_of_ne hc, hc']
  | unregistered address c' halive hentry =>
    by_cases hc : c = c'
    · subst hc
      simp [Attempts, Removes, halive]
    · have hc' : ¬c' = c := fun h => hc h.symm
      simp [Attempts, Removes, halive, Function.update_of_ne hc, hc']
  | sourceThrew address c' halive hentry =>
    by_cases hc : c = c'
    · subst hc
      simp [Attempts, hentry]
    · have hc' : ¬c' = c := fun h => hc h.symm
      simp [Attempts, Removes, halive, hc']
  | disconnected => simp [Attempts, Removes]
  | objectThrew => simp [Attempts, Removes]

/-- The connector knows an id when a registration under it was tried and no source with this id was
destroyed since. -/
theorem entry_iff_since (h : machine.Run tr w) (c : String) :
    w.connections c ≠ none ↔ Since (Removes c) (Attempts c) tr :=
  h.since_iff (A := fun w => w.connections c ≠ none) (by simp [machine])
    fun _ _ _ _ hstep => entry_step hstep c

/-- No entry is a null pointer. -/
theorem entry_ne_null (h : machine.Reachable w) : ∀ c, w.connections c ≠ some none := by
  refine h.invariant (I := fun w => ∀ c, w.connections c ≠ some none) (by simp [machine]) ?_
  intro w op w' hw hstep c
  cases (effect_of_step hstep).2 with
  | registered address c' =>
    by_cases hc : c = c'
    · subst hc
      simp
    · dsimp only
      rw [Function.update_of_ne hc]
      exact hw c
  | unregistered address c' =>
    by_cases hc : c = c'
    · subst hc
      simp
    · dsimp only
      rw [Function.update_of_ne hc]
      exact hw c
  | _ => exact hw c

/-! ## The destructors -/

/-- A source or an object with the id is destroyed. -/
def Destroys (c : String) (p : World × Operation) : Prop := Removes c p ∨ Releases c p

/-- A destructor throws when the connector does not know the id. -/
theorem terminated_step (hr : machine.Reachable w) (h : machine.step w op = some w') :
    w'.terminated = false ↔ ∀ c, Destroys c (w, op) → w.connections c ≠ none := by
  obtain ⟨hw, heffect⟩ := effect_of_step h
  cases heffect with
  | keeps _ hsource hobject _ =>
    refine iff_of_true hw ?_
    rintro c (⟨address, hop, -⟩ | ⟨address, hop, -⟩)
    · exact absurd hop (hsource address)
    · exact absurd hop (hobject address)
  | sourceConstructed => simp [Destroys, Removes, Releases, hw]
  | objectConstructed => simp [Destroys, Removes, Releases, hw]
  | registered => simp [Destroys, Removes, Releases, hw]
  | unregistered address c' halive hentry =>
    simpa [Destroys, Removes, Releases, halive, hw] using hentry
  | sourceThrew address c' halive hentry => simp [Destroys, Removes, Releases, halive, hentry]
  | disconnected address c' halive hentry =>
    obtain ⟨source, hentry⟩ := hentry
    simp [Destroys, Removes, Releases, halive, hw, hentry]
  | objectThrew address c' halive hentry =>
    have hnone : w.connections c' = none := by
      cases hc : w.connections c' with
      | none => rfl
      | some entry =>
        cases entry with
        | none => exact absurd hc (entry_ne_null hr c')
        | some source => exact absurd hc (hentry source)
    simp [Destroys, Removes, Releases, halive, hnone]

/-- No exception leaves a destructor exactly in the runs in which whatever is destroyed has an id
under which a source tried to register, after the last destruction of a source with this id. -/
theorem destructors_complete_iff (h : machine.Run tr w) :
    w.terminated = false ↔
      EachAfter (fun before p => ∀ c, Destroys c p → Since (Removes c) (Attempts c) before) tr := by
  induction h with
  | init => exact iff_of_true rfl eachAfter_nil
  | @step tr w w' op hrun hstep ih =>
    have hlast : w'.terminated = false ↔
        ∀ c, Destroys c (w, op) → Since (Removes c) (Attempts c) tr := by
      rw [terminated_step ⟨tr, hrun⟩ hstep]
      apply forall_congr'
      intro c
      rw [entry_iff_since hrun c]
    rw [eachAfter_concat, ← ih, hlast]
    exact ⟨fun hc => ⟨(effect_of_step hstep).1, hc⟩, And.right⟩

/-! ### A detector of its own face engine -/

/-- A face detector with an empty connection id makes its own face engine and never connects. -/
def ownEngine : List Operation := [.constructObject 0 false "", .destroyObject 0]

/-- A source registers, an object connects to it, and both are destroyed, the object last. -/
def sourceFirst : List Operation :=
  [.constructSource 0 false "engine", .registerSource (some 0), .constructObject 0 false "engine",
    .connectObject (some 0), .destroySource 0, .destroyObject 0]

/-- A detector with a face engine of its own, which never connected, throws out of its destructor.
-/
theorem destructor_throws :
    ∃ tr w, machine.Run tr w ∧ tr.map Prod.snd = ownEngine ∧ w.terminated = true := by
  obtain ⟨w, -, hrun, hw⟩ := Machine.exists_run_of_exec machine ownEngine World.terminated
    (by decide +kernel)
  exact ⟨_, w, hrun, by decide +kernel, hw⟩

/-- The source goes before the object that is connected to it. -/
theorem destructors_complete_iff_source_first :
    ∃ w, machine.Run (machine.trace machine.init sourceFirst) w ∧
      ¬EachAfter (fun before p => ∀ c, Destroys c p → Since (Removes c) (Attempts c) before)
        (machine.trace machine.init sourceFirst) := by
  obtain ⟨w, -, hrun, hw⟩ := Machine.exists_run_of_exec machine sourceFirst World.terminated
    (by decide +kernel)
  refine ⟨w, hrun, ?_⟩
  rw [← destructors_complete_iff hrun, hw]
  simp

/-! ## The sources that hold the ids -/

/-- The source registered under the id and was not destroyed since. -/
def Registered (tr : List (World × Operation)) (address : Nat) (c : String) : Prop :=
  Since (Leaves address) (Enters address c) tr

/-- A source that registered and was not destroyed is alive, with the id it registered under. -/
theorem Registered.alive (h : machine.Run tr w) (hreg : Registered tr address c) :
    w.sources address = some c := by
  induction h with
  | init => exact absurd hreg not_since_nil
  | @step tr w w' op hrun hstep ih =>
    rcases since_concat.mp hreg with ⟨hop, halive, hfree⟩ | ⟨hbefore, hstays⟩
    · obtain ⟨-, heffect⟩ := effect_of_step hstep
      change op = _ at hop
      subst hop
      cases heffect with
      | keeps => exact halive
      | registered => exact halive
    · have halive := ih hbefore
      cases (effect_of_step hstep).2 with
      | sourceConstructed address' _ id hfree =>
        have hne : address ≠ address' := by
          rintro rfl
          rw [hfree] at halive
          cases halive
        dsimp only
        rw [Function.update_of_ne hne]
        exact halive
      | unregistered address' | sourceThrew address' =>
        have hne : address ≠ address' := by
          rintro rfl
          exact hstays rfl
        dsimp only
        rw [Function.update_of_ne hne]
        exact halive
      | _ => exact halive

/-- The connector maps an id to a source when the source is alive, registered under the id, and was
not unregistered since. -/
def Exact (tr : List (World × Operation)) (w : World) : Prop :=
  ∀ c address, w.connections c = some (some address) ↔
    (w.sources address).isSome = true ∧ Registered tr address c

/-- The connections are exact when they are those of the registered sources. -/
theorem exact_iff_registered (h : machine.Run tr w) :
    Exact tr w ↔ ∀ c address, w.connections c = some (some address) ↔ Registered tr address c := by
  apply forall_congr'
  intro c
  apply forall_congr'
  intro address
  have halive : Registered tr address c → (w.sources address).isSome = true := by
    intro hreg
    rw [hreg.alive h]
    rfl
  tauto

/-- A source that is destroyed finds no other source's entry under its id. -/
def FindsItself (w : World) (op : Operation) : Prop :=
  ∀ address c holder, op = .destroySource address → w.sources address = some c →
    w.connections c = some (some holder) → holder = address

/-- An operation that neither enters nor destroys a source. -/
theorem registered_keeps (henters : ¬Enters address c (w, op)) (hleaves : ¬Leaves address (w, op)) :
    Registered (tr ++ [(w, op)]) address c ↔ Registered tr address c := by
  rw [Registered, since_concat]
  simp [henters, hleaves, Registered]

/-- An operation that keeps the connections as well. -/
theorem exact_of_same
    (hexact : ∀ c address, w.connections c = some (some address) ↔ Registered tr address c)
    (hsame : w'.connections = w.connections) (henters : ∀ c address, ¬Enters address c (w, op))
    (hleaves : ∀ address, ¬Leaves address (w, op)) (c : String) (address : Nat) :
    w'.connections c = some (some address) ↔ Registered (tr ++ [(w, op)]) address c := by
  rw [registered_keeps (henters c address) (hleaves address), hsame]
  exact hexact c address

/-- A source that registers under a free id holds it. -/
theorem exact_of_registered {address' : Nat} {c' : String}
    (hexact : ∀ c address, w.connections c = some (some address) ↔ Registered tr address c)
    (halive : w.sources address' = some c') (hfree : w.connections c' = none) (c : String)
    (address : Nat) :
    Function.update w.connections c' (some (some address')) c = some (some address) ↔
      Registered (tr ++ [(w, .registerSource (some address'))]) address c := by
  have henters : Enters address c (w, .registerSource (some address')) ↔
      address = address' ∧ c = c' := by
    constructor
    · rintro ⟨hop, halive', -⟩
      cases hop
      rw [halive] at halive'
      exact ⟨rfl, (Option.some.inj halive').symm⟩
    · rintro ⟨rfl, rfl⟩
      exact ⟨rfl, halive, hfree⟩
  have hsince : Registered (tr ++ [(w, .registerSource (some address'))]) address c ↔
      (address = address' ∧ c = c') ∨ Registered tr address c := by
    rw [Registered, since_concat]
    simp [henters, Leaves, Registered]
  rw [hsince]
  by_cases hc : c = c'
  · subst hc
    have hnone : ¬Registered tr address c := by
      rw [← hexact c address, hfree]
      simp
    simp [hnone, eq_comm]
  · rw [Function.update_of_ne hc]
    simpa [hc] using hexact c address

/-- The destruction of a source takes away the entry under its id, which should be its own. -/
theorem exact_unregistered_iff {address' : Nat} {c' : String} (h : machine.Run tr w)
    (hexact : ∀ c address, w.connections c = some (some address) ↔ Registered tr address c)
    (halive : w.sources address' = some c') :
    (∀ c address, Function.update w.connections c' none c = some (some address) ↔
      Registered (tr ++ [(w, .destroySource address')]) address c) ↔
      FindsItself w (.destroySource address') := by
  have hsince : ∀ address c, Registered (tr ++ [(w, .destroySource address')]) address c ↔
      Registered tr address c ∧ address ≠ address' := by
    intro address c
    rw [Registered, since_concat]
    simp [Enters, Leaves, Registered, eq_comm]
  simp only [hsince]
  constructor
  · rintro hafter address c holder hop halive' hholder
    cases hop
    obtain rfl : c' = c := Option.some.inj (halive.symm.trans halive')
    by_contra hne
    have hlost := (hafter c' holder).mpr ⟨(hexact c' holder).mp hholder, hne⟩
    simp at hlost
  · intro hfinds c address
    by_cases hc : c = c'
    · subst hc
      refine iff_of_false (by simp) ?_
      rintro ⟨hreg, hne⟩
      exact hne (hfinds address' c address rfl halive ((hexact c address).mpr hreg))
    · rw [Function.update_of_ne hc, hexact c address]
      constructor
      · intro hreg
        refine ⟨hreg, ?_⟩
        rintro rfl
        exact hc (Option.some.inj ((hreg.alive h).symm.trans halive))
      · exact And.left

/-- A source whose id is free had not registered. -/
theorem exact_of_sourceThrew {address' : Nat} {c' : String} (h : machine.Run tr w)
    (hexact : ∀ c address, w.connections c = some (some address) ↔ Registered tr address c)
    (halive : w.sources address' = some c') (hentry : w.connections c' = none) (c : String)
    (address : Nat) :
    w.connections c = some (some address) ↔
      Registered (tr ++ [(w, .destroySource address')]) address c := by
  have hne : Registered tr address c → address ≠ address' := by
    rintro hreg rfl
    obtain rfl : c = c' := Option.some.inj ((hreg.alive h).symm.trans halive)
    have hholds := (hexact c address).mpr hreg
    rw [hentry] at hholds
    cases hholds
  rw [Registered, since_concat]
  constructor
  · intro hholds
    have hreg := (hexact c address).mp hholds
    refine .inr ⟨hreg, ?_⟩
    intro hleaves
    cases hleaves
    exact hne hreg rfl
  · rintro (⟨hop, -⟩ | ⟨hreg, -⟩)
    · cases hop
    · exact (hexact c address).mpr hreg

/-- An operation keeps the connections exact exactly when the object finds itself. -/
theorem exact_step (h : machine.Run tr w) (hexact : Exact tr w)
    (hstep : machine.step w op = some w') : Exact (tr ++ [(w, op)]) w' ↔ FindsItself w op := by
  rw [exact_iff_registered (h.step hstep)]
  rw [exact_iff_registered h] at hexact
  cases (effect_of_step hstep).2 with
  | keeps _ hsource _ hknown =>
    have henters : ∀ c address, ¬Enters address c (w, op) := by
      rintro c address ⟨hop, halive, hfree⟩
      exact hknown c ⟨address, hop, halive⟩ hfree
    exact iff_of_true (exact_of_same hexact rfl henters hsource)
      fun address _ _ hop => absurd hop (hsource address)
  | sourceConstructed | objectConstructed | disconnected | objectThrew =>
    exact iff_of_true (exact_of_same hexact rfl (by simp [Enters]) (by simp [Leaves]))
      (by simp [FindsItself])
  | registered address' c' halive hfree =>
    exact iff_of_true (exact_of_registered hexact halive hfree) (by simp [FindsItself])
  | unregistered address' c' halive hentry => exact exact_unregistered_iff h hexact halive
  | sourceThrew address' c' halive hentry =>
    refine iff_of_true (exact_of_sourceThrew h hexact halive hentry) ?_
    intro address c holder hop halive' hholder
    cases hop
    obtain rfl : c' = c := Option.some.inj (halive.symm.trans halive')
    rw [hentry] at hholder
    cases hholder

/-- The connector maps the ids to the sources that hold them, throughout a run, exactly when every
source that is destroyed in it finds no other source's entry under its id. -/
theorem connections_exact_iff (h : machine.Run tr w) :
    Machine.Throughout Exact tr w ↔ ∀ p ∈ tr, FindsItself p.1 p.2 := by
  apply h.throughout_iff_guard
  · intro c address
    simp [machine, Registered, not_since_nil]
  · intro tr w op w' hrun hexact hstep
    exact exact_step hrun hexact hstep

/-! ### A second manager with the same id -/

/-- A source registers; the constructor of another one with its id fails, and destroys it. -/
def takenId : List Operation :=
  [.constructSource 0 false "engine", .registerSource (some 0), .constructSource 1 false "engine",
    .registerSource (some 1), .destroySource 1]

/-- The constructor of a second source with the id of the first fails, and takes the entry with it.
-/
theorem entry_lost :
    ∃ tr w, machine.Run tr w ∧ tr.map Prod.snd = takenId ∧ w.sources 0 = some "engine" ∧
      Registered tr 0 "engine" ∧ w.connections "engine" = none := by
  obtain ⟨w, -, hrun, hw⟩ := Machine.exists_run_of_exec machine takenId
    (fun w => w.sources 0 = some "engine" && w.connections "engine" = none) (by decide +kernel)
  obtain ⟨halive, hlost⟩ : w.sources 0 = some "engine" ∧ w.connections "engine" = none := by
    simpa using hw
  refine ⟨_, w, hrun, by decide +kernel, halive, ?_, hlost⟩
  refine ⟨(machine.trace machine.init takenId).take 1,
    (⟨fun _ => none, Function.update (fun _ => none) 0 (some "engine"), fun _ => none, false⟩,
      .registerSource (some 0)),
    (machine.trace machine.init takenId).drop 2, rfl, ⟨rfl, rfl, rfl⟩, ?_⟩
  have hlabels : ((machine.trace machine.init takenId).drop 2).map Prod.snd =
      [.constructSource 1 false "engine", .registerSource (some 1), .destroySource 1] := by
    decide +kernel
  intro q hq hleaves
  have hlabel : q.2 ∈ ((machine.trace machine.init takenId).drop 2).map Prod.snd :=
    List.mem_map_of_mem hq
  rw [hlabels, hleaves] at hlabel
  simp at hlabel

/-- A source comes and goes. -/
def loneSource : List Operation :=
  [.constructSource 0 false "engine", .registerSource (some 0), .destroySource 0]

/-- A source comes and goes. -/
theorem connections_exact_lone :
    ∃ w, machine.Run (machine.trace machine.init loneSource) w ∧
      Machine.Throughout Exact (machine.trace machine.init loneSource) w := by
  obtain ⟨w, -, hrun, -⟩ := Machine.exists_run_of_exec machine loneSource (fun _ => true)
    (by decide +kernel)
  refine ⟨w, hrun, (connections_exact_iff hrun).mpr ?_⟩
  simp [loneSource, Machine.trace, machine, perform, constructAt, construct, pointee,
    registerConnSource, FindsItself]
  rintro address c holder rfl halive hholder
  obtain rfl : "engine" = c := by simpa using halive
  simpa using hholder.symm

end Seekira.Model.Connector
