import Seekira.Analysis.BranchIsolation

/-!
# Branches that write only into their own faces

A program is silent when its updates go to faces it created.  The nodes that do not touch
faces are silent, and so is a matching or a recognition node behind a detector of the same
branch; silent branches are isolated from their siblings.
-/

set_option autoImplicit false

namespace Seekira.Model

open Library

variable {φ ρ β : Type}

/-- The program updates only faces it created, and ends, if it does, with a value that meets `Q`. -/
inductive FaceProg.Silent {α : Type} (Q : α → Prop) : FaceProg φ ρ α → Prop
  | ret (a : α) : Q a → Silent Q (.ret a)
  | throw (e : Exc) : Silent Q (.throw e)
  | get (p : FacePtr φ) (k : Face ρ → FaceProg φ ρ α) : (∀ v, Silent Q (k v)) → Silent Q (.get p k)
  | update (n : Nat) (f : Face ρ → Face ρ) (k : FaceProg φ ρ α) : Silent Q k →
      Silent Q (.update (.own n) f k)
  | create (face : Face ρ) (k : FacePtr φ → FaceProg φ ρ α) : (∀ n, Silent Q (k (.own n))) →
      Silent Q (.create face k)

namespace FaceProg

/-- Nothing follows. -/
theorem bind_ret {α : Type} (prog : FaceProg φ ρ α) : prog.bind .ret = prog := by
  induction prog with
  | ret a => rfl
  | throw e => rfl
  | get p k ih => exact congrArg (FaceProg.get p) (funext ih)
  | update p f k ih => exact congrArg (FaceProg.update p f) ih
  | create face k ih => exact congrArg (FaceProg.create face) (funext ih)

/-- Brackets do not matter for what follows what. -/
theorem bind_bind {α β γ : Type} (prog : FaceProg φ ρ α) (f : α → FaceProg φ ρ β)
    (g : β → FaceProg φ ρ γ) : (prog.bind f).bind g = prog.bind fun a => (f a).bind g := by
  induction prog with
  | ret a => rfl
  | throw e => rfl
  | get p k ih => exact congrArg (FaceProg.get p) (funext ih)
  | update p f k ih => exact congrArg (FaceProg.update p f) ih
  | create face k ih => exact congrArg (FaceProg.create face) (funext ih)

instance : LawfulMonad (FaceProg φ ρ) :=
  LawfulMonad.mk' _ bind_ret (fun _ _ => rfl) bind_bind

variable {α α' : Type} {Q : α → Prop} {Q' : α' → Prop}

/-- Two programs, one behind the other, are silent when each is. -/
theorem Silent.bind {prog : FaceProg φ ρ α} {k : α → FaceProg φ ρ α'} (h : Silent Q prog)
    (hk : ∀ a, Q a → Silent Q' (k a)) : Silent Q' (prog >>= k) := by
  show Silent Q' (prog.bind k)
  induction h with
  | ret a ha => exact hk a ha
  | throw e => exact .throw e
  | get p k' _ ih => exact .get p _ ih
  | update n f k' _ ih => exact .update n f _ ih
  | create face k' _ ih => exact .create face _ ih

/-- A loop whose passes are silent collects values that meet `Q`. -/
theorem Silent.mapM {γ : Type} {l : List γ} {f : γ → FaceProg φ ρ α}
    (h : ∀ x ∈ l, Silent Q (f x)) : Silent (fun r : List α => ∀ a ∈ r, Q a) (l.mapM f) := by
  induction l with
  | nil =>
    rw [List.mapM_nil]
    exact .ret [] nofun
  | cons x l ih =>
    rw [List.mapM_cons]
    refine (h x (by simp)).bind fun a ha => ?_
    refine (ih fun y hy => h y (List.mem_cons_of_mem _ hy)).bind fun r hr => ?_
    exact .ret _ (List.forall_mem_cons.mpr ⟨ha, hr⟩)

end FaceProg

open FaceProg

/-! ## The nodes -/

/-- The pointer leads to a face that the branch created. -/
def FacePtr.IsOwn (p : FacePtr φ) : Prop := ∃ n, p = .own n

/-- The faces the branch works on are its own. -/
def OwnFaces (d : PipelineData β (FacePtr φ)) : Prop := ∀ p ∈ detectedFaces d, p.IsOwn

theorem resizerNode_silent (resizer : β → β) (d : PipelineData β (FacePtr φ)) :
    Silent (fun _ => True) (ResizerPipelineNode.process resizer d : FaceProg φ ρ _) :=
  .ret _ trivial

/-- A detector leaves faces of its own behind. -/
theorem faceDetectionNode_silent (engine : β → List (Face ρ)) (d : PipelineData β (FacePtr φ)) :
    Silent OwnFaces (FaceDetectionPipelineNode.process engine d : FaceProg φ ρ _) := by
  have hcreate : ∀ face ∈ engine d.data,
      Silent FacePtr.IsOwn (FaceProg.create face FaceProg.ret : FaceProg φ ρ (FacePtr φ)) :=
    fun face _ => .create face _ fun n => .ret _ ⟨n, rfl⟩
  refine (Silent.mapM hcreate).bind fun faces hfaces => .ret _ ?_
  intro p hp
  simp [detectedFaces, MetaStorage.getAttachment, MetaStorage.setAttachment] at hp
  exact hfaces p hp

theorem setMatchStatus_silent {p : FacePtr φ} (hp : p.IsOwn) (status : FaceMatchStatus) :
    Silent (fun _ => True) (setMatchStatus p status : FaceProg φ ρ Unit) := by
  obtain ⟨n, rfl⟩ := hp
  exact .update n _ _ (.ret () trivial)

/-- Comparing an own face is silent. -/
theorem compare_silent (engine : Face ρ → Face ρ → FaceMatchStatus) (faces : List (Face ρ))
    {p : FacePtr φ} (hp : p.IsOwn) :
    Silent (fun _ => True) (PersonHolder.compare engine faces p : FaceProg φ ρ FaceMatchStatus) := by
  have hget : ∀ known ∈ faces, Silent (fun _ => True)
      (FaceProg.get p fun v => .ret (engine known v) : FaceProg φ ρ FaceMatchStatus) :=
    fun known _ => .get p _ fun v => .ret _ trivial
  refine (setMatchStatus_silent hp _).bind fun _ _ => ?_
  refine (Silent.mapM hget).bind fun results _ => ?_
  exact (setMatchStatus_silent hp _).bind fun _ _ => .ret _ trivial

/-- Matching an own face is silent. -/
theorem matchPersons_silent (engine : Face ρ → Face ρ → FaceMatchStatus)
    (persons : List (List (Face ρ))) {p : FacePtr φ} (hp : p.IsOwn) :
    Silent (fun _ => True) (matchPersons engine p persons : FaceProg φ ρ Unit) := by
  induction persons with
  | nil => exact .ret () trivial
  | cons person rest ih =>
    refine (compare_silent engine person hp).bind fun status _ => ?_
    split
    · exact setMatchStatus_silent hp status
    · exact ih

/-- A loop over own faces whose passes are silent. -/
theorem forM_silent {l : List (FacePtr φ)} (hl : ∀ p ∈ l, p.IsOwn)
    {f : FacePtr φ → FaceProg φ ρ Unit} (hf : ∀ p : FacePtr φ, p.IsOwn → Silent (fun _ => True) (f p)) :
    Silent (fun _ => True) (l.forM f) := by
  induction l with
  | nil => exact .ret () trivial
  | cons p l ih =>
    refine (hf p (hl p (by simp))).bind fun _ _ => ?_
    exact ih fun q hq => hl q (List.mem_cons_of_mem _ hq)

/-- A matcher is silent about faces of its own. -/
theorem faceMatcherNode_silent (engine : Face ρ → Face ρ → FaceMatchStatus) (skipFlag : Bool)
    (persons : List (List (Face ρ))) {d : PipelineData β (FacePtr φ)} (h : OwnFaces d) :
    Silent OwnFaces (FaceMatcherPipelineNode.process engine skipFlag persons d : FaceProg φ ρ _) := by
  unfold FaceMatcherPipelineNode.process
  split
  · exact .ret d h
  · refine (forM_silent h fun p hp => matchPersons_silent engine persons hp).bind fun _ _ => ?_
    exact .ret d h

/-- A recognizer is silent about faces of its own. -/
theorem faceRecognitionNode_silent (engine : Face ρ → Face ρ) (skipFlag : Bool)
    {d : PipelineData β (FacePtr φ)} (h : OwnFaces d) :
    Silent OwnFaces (FaceRecognitionPipelineNode.process engine skipFlag d : FaceProg φ ρ _) := by
  have hface : ∀ p : FacePtr φ, p.IsOwn →
      Silent (fun _ => True) (FaceProg.update p engine (.ret ()) : FaceProg φ ρ Unit) := by
    rintro _ ⟨n, rfl⟩
    exact .update n _ _ (.ret () trivial)
  unfold FaceRecognitionPipelineNode.process
  split
  · exact .ret d h
  · refine (forM_silent h hface).bind fun _ _ => ?_
    exact .ret d h

/-! ## Silent branches are isolated -/

namespace ForkedBranches

variable {ι : Type} [DecidableEq ι] [DecidableEq φ] {Q : PipelineData β (FacePtr φ) → Prop}

/-- The accesses of a silent program change no face of the parent's output, and leave the rest of the
program silent. -/
theorem step_silent {s s' : ForkedBranches ι φ ρ β} {b : ι} (h : Silent Q (s.progs b))
    (hstep : s.step b = some s') : s'.faces = s.faces ∧ Silent Q (s'.progs b) := by
  unfold step at hstep
  cases hprog : s.progs b with
  | ret d => simp [hprog] at hstep
  | throw e => simp [hprog] at hstep
  | get p k =>
    rw [hprog] at h hstep
    obtain ⟨v, -, rfl⟩ := Option.map_eq_some_iff.mp hstep
    cases h with
    | get _ _ hk => exact ⟨rfl, by simpa [setProg] using hk v⟩
  | update p f k =>
    rw [hprog] at h hstep
    cases h with
    | update n _ _ hk =>
      cases hstep
      exact ⟨rfl, by simpa [setProg, setOwn] using hk⟩
  | create face k =>
    rw [hprog] at h hstep
    cases hstep
    cases h with
    | create _ _ hk => exact ⟨rfl, by simpa [setProg, setOwn] using hk _⟩

/-- A branch whose tasks are silent changes no face of the parent's output. -/
theorem changesNoFace_of_silent (output : ParentOutput φ ρ β) (tasks : ι → BranchTask φ ρ β) (b : ι)
    {f : BranchTask φ ρ β} (hf : ∀ d, Silent Q (f d)) : ChangesNoFace output tasks b f := by
  intro tr s s' hrun hstep
  have hsilent : Silent Q (s.progs b) := by
    refine hrun.invariant (I := fun s => Silent Q (s.progs b)) ?_ ?_
    · show Silent Q (Function.update tasks b f b (output.data.clone.map .parent))
      rw [Function.update_self]
      exact hf _
    · intro s c s' h hs
      by_cases hc : c = b
      · subst hc
        exact (step_silent h hs).2
      · have hframe := step_frame hs (Ne.symm hc)
        rw [hframe.2]
        exact h
  exact (step_silent hsilent hstep).1

/-- A resizer, a detector, a recognition and a matching node in one branch. -/
def detectingTask (resizer : β → β) (detector : β → List (Face ρ)) (recognizer : Face ρ → Face ρ)
    (engine : Face ρ → Face ρ → FaceMatchStatus) (skipRecognition skipMatching : Bool)
    (persons : List (List (Face ρ))) : BranchTask φ ρ β := fun d => do
  let d ← ResizerPipelineNode.process resizer d
  let d ← FaceDetectionPipelineNode.process detector d
  let d ← FaceRecognitionPipelineNode.process recognizer skipRecognition d
  FaceMatcherPipelineNode.process engine skipMatching persons d

/-- A branch that detects the faces it recognizes and matches changes no face of the parent's
output. -/
theorem detecting_branch_changesNoFace (output : ParentOutput φ ρ β)
    (tasks : ι → BranchTask φ ρ β) (b : ι) (resizer : β → β) (detector : β → List (Face ρ))
    (recognizer : Face ρ → Face ρ) (engine : Face ρ → Face ρ → FaceMatchStatus)
    (skipRecognition skipMatching : Bool) (persons : List (List (Face ρ))) :
    ChangesNoFace output tasks b
      (detectingTask resizer detector recognizer engine skipRecognition skipMatching persons) := by
  refine changesNoFace_of_silent (Q := OwnFaces) output tasks b fun d => ?_
  refine (resizerNode_silent resizer d).bind fun d _ => ?_
  refine (faceDetectionNode_silent detector d).bind fun d hd => ?_
  refine (faceRecognitionNode_silent recognizer skipRecognition hd).bind fun d hd => ?_
  exact faceMatcherNode_silent engine skipMatching persons hd

end ForkedBranches

end Seekira.Model
