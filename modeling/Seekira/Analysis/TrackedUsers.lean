import Seekira.Model.FaceEngineUsers

/-!
# Which users the controller knows

The controller's addresses are those of users that are alive as long as no user that was connected
is destroyed.  The users that follow it have its engine as long as whoever is not registered itself
is only copied: the first change of the engine passes the copies by.
-/

set_option autoImplicit false

namespace Seekira.Model.FaceEngine

open Library

variable {w w' : World} {op : Operation} {tr : List (World × Operation)}
  {connections : Connector.Connections} {controller : Nat} {engine : Option Nat}

/-- The registered addresses are those of live users, and every live user that was connected, or
copied from one that was, has the controller's engine. -/
structure Tracked (w : World) : Prop where
  live : ∀ address ∈ w.users, w.objects address ≠ none
  current : ∀ address user, w.objects address = some user → w.follows address = true →
    user.faceEngine = w.faceEngine

/-- Registered users stay alive; a change of the engine finds every follower registered; a follower
is not assigned a user with another engine. -/
def Keeps (w : World) : Operation → Prop
  | .destroy address => address ∉ w.users
  | .setFaceEngine engine => ∀ address, w.objects address ≠ none → w.follows address = true →
      address ∉ w.users → engine = w.faceEngine
  | .assign source target => ∀ user, w.objects source = some user → w.follows target = true →
      user.faceEngine = w.faceEngine
  | _ => True

/-! ## One operation -/

/-- A user is written where none or another one was. -/
theorem live_update {address : Nat} {user : FaceEngineUser}
    (h : ∀ address ∈ w.users, w.objects address ≠ none) :
    ∀ other ∈ w.users, Function.update w.objects address (some user) other ≠ none := by
  intro other hother
  by_cases hsame : other = address
  · subst hsame
    simp
  · rw [Function.update_of_ne hsame]
    exact h other hother

/-- The other users are as before. -/
theorem current_update {address : Nat} {user : FaceEngineUser} {follows : Bool}
    (h : ∀ address user, w.objects address = some user → w.follows address = true →
      user.faceEngine = w.faceEngine)
    (hnew : follows = true → user.faceEngine = w.faceEngine) :
    ∀ other otherUser, Function.update w.objects address (some user) other = some otherUser →
      Function.update w.follows address follows other = true →
      otherUser.faceEngine = w.faceEngine := by
  intro other otherUser hobject hfollows
  by_cases hsame : other = address
  · subst hsame
    rw [Function.update_self] at hobject hfollows
    cases hobject
    exact hnew hfollows
  · rw [Function.update_of_ne hsame] at hobject hfollows
    exact h other otherUser hobject hfollows

/-- A user who connects is tracked. -/
theorem tracked_connect {address : Nat} {user : FaceEngineUser} (h : Tracked w) :
    Tracked (w.connect address user) := by
  unfold World.connect
  split
  · split
    · refine ⟨?_, current_update h.current fun _ => rfl⟩
      intro other hother
      rcases List.mem_append.mp hother with hother | hother
      · exact live_update h.live other hother
      · rw [List.mem_singleton.mp hother]
        simp [World.addUser]
    · exact h
  · exact h

/-- The destruction of a user changes nothing but the user, whether its destructor throws or not. -/
theorem destroy_frame (w : World) (address : Nat) (user : FaceEngineUser) :
    (w.destroy address user).users = w.users ∧
      (w.destroy address user).faceEngine = w.faceEngine ∧
      (w.destroy address user).objects = Function.update w.objects address none ∧
      (w.destroy address user).follows = Function.update w.follows address false := by
  unfold World.destroy
  dsimp only
  split <;> exact ⟨rfl, rfl, rfl, rfl⟩

/-- A user who is destroyed must have left the list. -/
theorem tracked_destroy {address : Nat} {user : FaceEngineUser} (h : Tracked w) :
    Tracked (w.destroy address user) ↔ address ∉ w.users := by
  obtain ⟨husers, hengine, hobjects, hfollows⟩ := destroy_frame w address user
  constructor
  · intro hafter hmem
    have hlive := hafter.live address (husers ▸ hmem)
    rw [hobjects, Function.update_self] at hlive
    exact hlive rfl
  · intro hfree
    refine ⟨?_, ?_⟩
    · rw [husers, hobjects]
      intro other hother
      have hne : other ≠ address := by
        rintro rfl
        exact hfree hother
      rw [Function.update_of_ne hne]
      exact h.live other hother
    · rw [hobjects, hfollows, hengine]
      intro other otherUser hobject hfollower
      by_cases hsame : other = address
      · subst hsame
        simp at hobject
      · rw [Function.update_of_ne hsame] at hobject hfollower
        exact h.current other otherUser hobject hfollower

/-- A new engine must reach all users. -/
theorem tracked_setFaceEngine (h : Tracked w) :
    Tracked (w.setFaceEngine engine) ↔ Keeps w (.setFaceEngine engine) := by
  constructor
  · intro hafter address halive hfollows hfree
    obtain ⟨user, huser⟩ := Option.ne_none_iff_exists'.mp halive
    have hobject : (w.setFaceEngine engine).objects address = some user := by
      simp [World.setFaceEngine, hfree, huser]
    calc engine = user.faceEngine := (hafter.current address user hobject hfollows).symm
      _ = w.faceEngine := h.current address user huser hfollows
  · intro hkeeps
    refine ⟨?_, ?_⟩
    · intro address hmem
      have hlive := h.live address hmem
      change address ∈ w.users at hmem
      simp [World.setFaceEngine, hmem, hlive]
    · intro address user hobject hfollows
      by_cases hmem : address ∈ w.users
      · obtain ⟨old, -, rfl⟩ : ∃ old, w.objects address = some old ∧
            { old with faceEngine := engine } = user := by
          simpa [World.setFaceEngine, hmem] using hobject
        rfl
      · have hsame : w.objects address = some user := by
          simpa [World.setFaceEngine, hmem] using hobject
        have halive : w.objects address ≠ none := by simp [hsame]
        calc user.faceEngine = w.faceEngine := h.current address user hsame hfollows
          _ = engine := (hkeeps address halive hfollows hmem).symm

/-- An assignment must leave the lists right. -/
theorem tracked_assign {source target : Nat} {user : FaceEngineUser} (h : Tracked w)
    (halive : w.objects source = some user) :
    Tracked (w.assign source target user) ↔ Keeps w (.assign source target) := by
  constructor
  · intro hafter user' halive' hfollows
    obtain rfl : user = user' := Option.some.inj (halive.symm.trans halive')
    exact hafter.current target user (by simp [World.assign]) (by simp [World.assign, hfollows])
  · intro hkeeps
    refine ⟨live_update h.live, current_update h.current ?_⟩
    intro hfollows
    rcases Bool.or_eq_true_iff.mp hfollows with htarget | hsource
    · exact hkeeps user halive htarget
    · exact h.current source user halive hsource

/-- A step keeps the users tracked exactly when it meets its condition. -/
theorem tracked_step (h : Tracked w) (hstep : w.step op = some w') : Tracked w' ↔ Keeps w op := by
  unfold World.step at hstep
  split at hstep
  case isTrue => cases hstep
  case isFalse =>
  cases op with
  | construct address connId =>
    dsimp only at hstep
    split at hstep
    · cases hstep
    · obtain rfl := Option.some.inj hstep
      exact iff_of_true ⟨live_update h.live, current_update h.current (by simp)⟩ trivial
  | connect address =>
    obtain ⟨user, huser, rfl⟩ := Option.map_eq_some_iff.mp hstep
    exact iff_of_true (tracked_connect h) trivial
  | copy source target =>
    dsimp only at hstep
    split at hstep
    · cases hstep
    · obtain ⟨user, huser, rfl⟩ := Option.map_eq_some_iff.mp hstep
      refine iff_of_true ⟨live_update h.live, current_update h.current ?_⟩ trivial
      exact h.current source user huser
  | assign source target =>
    dsimp only at hstep
    split at hstep
    · cases hstep
    · obtain ⟨user, huser, rfl⟩ := Option.map_eq_some_iff.mp hstep
      exact tracked_assign h huser
  | destroy address =>
    obtain ⟨user, huser, rfl⟩ := Option.map_eq_some_iff.mp hstep
    exact tracked_destroy h
  | setFaceEngine engine =>
    obtain rfl := Option.some.inj hstep
    exact tracked_setFaceEngine h

/-! ## Runs -/

/-- The users are tracked in every state of a run exactly when no registered user is destroyed in
it, every change of the engine finds all followers registered, and no follower is assigned a user
with another engine. -/
theorem tracked_iff (h : (machine connections controller engine).Run tr w) :
    ((∀ p ∈ tr, Tracked p.1) ∧ Tracked w) ↔ ∀ p ∈ tr, Keeps p.1 p.2 := by
  apply h.always_iff_guard (C := Keeps)
  · exact ⟨by simp [machine, World.create], by simp [machine, World.create]⟩
  · intro w op w' _ htracked hstep
    exact tracked_step htracked hstep

/-! ### The persons of a face matcher -/

/-- The connector knows one controller. -/
def oneController : Connector.Connections :=
  Function.update (fun _ => none) "engine" (some (some 0))

/-- A face matcher connects and appends a person; the engine is changed. -/
def matchPerson : List Operation :=
  [.construct 0 "engine", .connect 0] ++ pushPerson 1 2 "engine" ++ [.setFaceEngine (some 1)]

/-- The person that is copied into the matcher is not tracked, and the one it was copied from is,
after its destruction. -/
theorem person_lost :
    ∃ tr w, (machine oneController 0 (some 0)).Run tr w ∧ tr.map Prod.snd = matchPerson ∧
      (1 ∈ w.users ∧ w.objects 1 = none) ∧
      (w.objects 2 = some ⟨"engine", some 0⟩ ∧ w.follows 2 = true ∧ w.faceEngine = some 1) := by
  obtain ⟨w, -, hrun, hw⟩ := Machine.exists_run_of_exec (machine oneController 0 (some 0))
    matchPerson (fun w => (1 ∈ w.users && w.objects 1 = none) &&
      (w.objects 2 = some ⟨"engine", some 0⟩ && w.follows 2 && w.faceEngine = some 1))
    (by decide +kernel)
  exact ⟨_, w, hrun, by decide +kernel, by simpa [and_assoc] using hw⟩

/-- A face matcher without persons. -/
def matchNobody : List Operation :=
  [.construct 0 "engine", .connect 0, .setFaceEngine (some 1)]

/-- A face matcher without persons. -/
theorem tracked_nobody :
    ∃ w, (machine oneController 0 (some 0)).Run
        ((machine oneController 0 (some 0)).trace (World.create oneController 0 (some 0))
          matchNobody) w ∧
      Tracked w := by
  obtain ⟨w, -, hrun, -⟩ := Machine.exists_run_of_exec (machine oneController 0 (some 0))
    matchNobody (fun _ => true) (by decide +kernel)
  refine ⟨w, hrun, ((tracked_iff hrun).mpr ?_).2⟩
  simp [matchNobody, Machine.trace, machine, World.step, World.create, World.connect, World.addUser,
    Connector.connect, Connector.sourceOf, oneController, Keeps]
  intro address halive _
  by_contra hne
  exact halive (Function.update_of_ne hne _ _)

end Seekira.Model.FaceEngine
