import Seekira.Library.Noninterference
import Seekira.Model.ForkedBranches

/-!
# What sibling branches see of each other

Two runs of the branches below a fork that differ only in the tasks of one branch show
the same published data, the parent's included, exactly when that branch changes no face
of the parent's output in either of them.  The copies made by `clone_pipeline_data` keep
everything else apart.
-/

set_option autoImplicit false

namespace Seekira.Model.ForkedBranches

open Library

variable {ι φ ρ β : Type}

/-- The states look alike to everybody but branch `b`. -/
def AlikeBut (b : ι) (s t : ForkedBranches ι φ ρ β) : Prop :=
  s.faces = t.faces ∧ ∀ c, c ≠ b → s.own c = t.own c ∧ s.progs c = t.progs c

/-- Being alike but for a branch is an equivalence. -/
theorem alikeBut_equivalence (b : ι) :
    Equivalence (AlikeBut b : ForkedBranches ι φ ρ β → ForkedBranches ι φ ρ β → Prop) where
  refl := fun _ => ⟨rfl, fun _ _ => ⟨rfl, rfl⟩⟩
  symm := by
    rintro s t ⟨hfaces, hrest⟩
    exact ⟨hfaces.symm, fun c hc => ⟨(hrest c hc).1.symm, (hrest c hc).2.symm⟩⟩
  trans := by
    rintro s t u ⟨hfaces, hrest⟩ ⟨hfaces', hrest'⟩
    exact ⟨hfaces.trans hfaces', fun c hc =>
      ⟨(hrest c hc).1.trans (hrest' c hc).1, (hrest c hc).2.trans (hrest' c hc).2⟩⟩

/-- What the observers see of the branches other than `b` and of the parent's output. -/
def observed (b : ι) (output : ParentOutput φ ρ β) (s : ForkedBranches ι φ ρ β) :
    ({c : ι // c ≠ b} → Option (PipelineData β (Option (Face ρ)))) × PipelineData β (Face ρ) :=
  (fun c => s.published c.1, s.parentPublished output)

/-- Another branch reads the same. -/
theorem AlikeBut.read_eq {b c : ι} (hc : c ≠ b) {s t : ForkedBranches ι φ ρ β}
    (h : AlikeBut b s t) : s.read c = t.read c := by
  funext p
  cases p with
  | parent p => simp only [read, h.1]
  | own n => simp only [read, (h.2 c hc).1]

theorem AlikeBut.observed_eq {b : ι} (output : ParentOutput φ ρ β) {s t : ForkedBranches ι φ ρ β}
    (h : AlikeBut b s t) : observed b output s = observed b output t := by
  refine Prod.ext (funext fun c => ?_) ?_
  · simp only [observed, published, (h.2 c c.2).2, h.read_eq c.2]
  · simp only [observed, parentPublished, h.1]

/-- Two ways to follow the pointers that give the same data agree on every pointer. -/
theorem eq_of_map_eq {P Q : Type} {d : PipelineData β P} {f g : P → Q} (h : d.map f = d.map g)
    {p : P} (hp : p ∈ d.facePtrs) : f p = g p := by
  obtain ⟨e, he, hp⟩ := List.mem_flatMap.mp hp
  obtain ⟨faces, hfaces, hp⟩ := List.mem_flatMap.mp hp
  have hstorage : (d.map f).storage.storage = (d.map g).storage.storage := by rw [h]
  have hresult := List.map_inj_left.mp hstorage e he
  have hdata : (e.2.data.map fun faces => faces.map f).storage =
      (e.2.data.map fun faces => faces.map g).storage := by
    injection hresult with _ hresult
    injection hresult with hresult
    rw [hresult]
  have hlist := List.map_inj_left.mp hdata faces hfaces
  injection hlist with _ hlist
  exact List.map_inj_left.mp hlist p hp

variable [DecidableEq ι] [DecidableEq φ]

/-- The accesses of one branch leave the others' faces and programs alone. -/
theorem step_frame {s s' : ForkedBranches ι φ ρ β} {b : ι} (h : s.step b = some s') {c : ι}
    (hc : c ≠ b) : s'.own c = s.own c ∧ s'.progs c = s.progs c := by
  unfold step at h
  split at h
  · cases h
  · cases h
  · obtain ⟨v, -, rfl⟩ := Option.map_eq_some_iff.mp h
    simp [setProg, Function.update_of_ne hc]
  · cases h
    simp [setProg, Function.update_of_ne hc]
  · cases h
    simp [setProg, setOwn, Function.update_of_ne hc]
  · cases h
    simp [setProg, setOwn, Function.update_of_ne hc]

omit [DecidableEq φ] in

/-- The states stay alike when a branch goes on in both. -/
theorem AlikeBut.setProg {b c : ι} {s t : ForkedBranches ι φ ρ β} (h : AlikeBut b s t)
    (prog : FaceProg φ ρ (PipelineData β (FacePtr φ))) :
    AlikeBut b (s.setProg c prog) (t.setProg c prog) := by
  refine ⟨h.1, fun c' hc' => ⟨(h.2 c' hc').1, ?_⟩⟩
  by_cases hcc : c' = c
  · subst hcc
    simp [ForkedBranches.setProg]
  · simpa [ForkedBranches.setProg, Function.update_of_ne hcc] using (h.2 c' hc').2

omit [DecidableEq φ] in

/-- The states stay alike when a branch makes faces of its own in both. -/
theorem AlikeBut.setOwn {b c : ι} {s t : ForkedBranches ι φ ρ β} (h : AlikeBut b s t)
    (own : List (Face ρ)) : AlikeBut b (s.setOwn c own) (t.setOwn c own) := by
  refine ⟨h.1, fun c' hc' => ⟨?_, (h.2 c' hc').2⟩⟩
  by_cases hcc : c' = c
  · subst hcc
    simp [ForkedBranches.setOwn]
  · simpa [ForkedBranches.setOwn, Function.update_of_ne hcc] using (h.2 c' hc').1

/-- A branch takes the same step in states that look alike to it. -/
theorem step_alike (b : ι) :
    Machine.StepsAlike (step : ForkedBranches ι φ ρ β → ι → _) (fun c => c = b) (AlikeBut b) := by
  intro s t c s' hst hc hstep
  have hprog := (hst.2 c hc).2
  have hown := (hst.2 c hc).1
  unfold step at hstep ⊢
  rw [← hprog, ← hst.read_eq hc, ← hst.1, ← hown]
  -- the step is enabled in `t`, and leads to a state that only differs in the programs and faces
  -- of `c`, in the same way
  split at hstep
  · cases hstep
  · cases hstep
  · obtain ⟨v, hv, rfl⟩ := Option.map_eq_some_iff.mp hstep
    refine ⟨_, Option.map_eq_some_iff.mpr ⟨v, hv, rfl⟩, hst.setProg _⟩
  · cases hstep
    exact ⟨_, rfl, rfl, (hst.setProg _).2⟩
  · cases hstep
    exact ⟨_, rfl, (hst.setProg _).setOwn _⟩
  · cases hstep
    exact ⟨_, rfl, (hst.setProg _).setOwn _⟩

/-! ## Isolation -/

/-- Runs that differ only in the tasks `f` and `f'` of branch `b`, with the same accesses of the other
branches in the same order, show the same published data. -/
def Isolated (output : ParentOutput φ ρ β) (tasks : ι → BranchTask φ ρ β) (b : ι)
    (f f' : BranchTask φ ρ β) : Prop :=
  ∀ tr s tr' s', (machine output (Function.update tasks b f)).Run tr s →
    (machine output (Function.update tasks b f')).Run tr' s' →
    Machine.others (fun c => c = b) tr = Machine.others (fun c => c = b) tr' →
    (∀ c, c ≠ b → s.published c = s'.published c) ∧
      s.parentPublished output = s'.parentPublished output

/-- In no run does an access of branch `b` change a face of the parent's output. -/
def ChangesNoFace (output : ParentOutput φ ρ β) (tasks : ι → BranchTask φ ρ β) (b : ι)
    (f : BranchTask φ ρ β) : Prop :=
  ∀ tr s s', (machine output (Function.update tasks b f)).Run tr s → s.step b = some s' →
    s'.faces = s.faces

variable {output : ParentOutput φ ρ β} {tasks : ι → BranchTask φ ρ β} {b : ι}

/-- Accesses that change no face of the parent's output are those nobody else can see. -/
theorem changesNoFace_iff (f : BranchTask φ ρ β) :
    ChangesNoFace output tasks b f ↔
      Machine.OwnStepsUnseen step (fun c => c = b) (AlikeBut b)
        (start output (Function.update tasks b f)) := by
  constructor
  · rintro h tr s _ s' hrun rfl hstep
    exact ⟨h tr s s' hrun hstep, fun c hc => step_frame hstep hc⟩
  · intro h tr s s' hrun hstep
    exact (h tr s b s' hrun rfl hstep).1

/-- Two runs that differ only in the tasks of one branch show the same data, of its siblings and of
the parent, exactly when the branch changes no face of the parent's output in either. -/
theorem isolated_iff (output : ParentOutput φ ρ β) (tasks : ι → BranchTask φ ρ β) (b : ι)
    (f f' : BranchTask φ ρ β) :
    Isolated output tasks b f f' ↔
      ChangesNoFace output tasks b f ∧ ChangesNoFace output tasks b f' := by
  have hinit : AlikeBut b (start output (Function.update tasks b f))
      (start output (Function.update tasks b f')) := by
    refine ⟨rfl, fun c hc => ⟨rfl, ?_⟩⟩
    simp only [start, Function.update_of_ne hc]
  have hseen : ∀ (s : ForkedBranches ι φ ρ β) c s', c = b → s.step c = some s' →
      observed b output s' = observed b output s → AlikeBut b s' s := by
    rintro s _ s' rfl hstep hobs
    refine ⟨funext fun p => ?_, fun c hc => step_frame hstep hc⟩
    exact eq_of_map_eq (congrArg Prod.snd hobs) (output.faces_mem p)
  have hiff := Machine.noninterference_iff (alikeBut_equivalence b) (step_alike b) hinit
    (fun s t h => h.observed_eq output) hseen
  rw [changesNoFace_iff, changesNoFace_iff, ← hiff]
  constructor
  · intro h tr s tr' s' hrun hrun' hothers
    obtain ⟨hsiblings, hparent⟩ := h tr s tr' s' hrun hrun' hothers
    exact Prod.ext (funext fun c => hsiblings c.1 c.2) hparent
  · intro h tr s tr' s' hrun hrun' hothers
    have hobs := h tr s tr' s' hrun hrun' hothers
    exact ⟨fun c hc => congrFun (congrArg Prod.fst hobs) ⟨c, hc⟩, congrArg Prod.snd hobs⟩

/-! ## A matching node below a fork -/

/-- The parent found one face and nothing is known about it yet. -/
def oneFace : ParentOutput Unit Nat Unit where
  data := ⟨(), ⟨[("face_detection_result", ⟨⟨[("faces", [()])]⟩⟩)]⟩⟩
  faces := fun _ => ⟨7, .undefined⟩
  faces_mem := fun _ => by simp [PipelineData.facePtrs]

/-- Match the face with a person whose known face has the same data. -/
def matchingTask : BranchTask Unit Nat Unit :=
  FaceMatcherPipelineNode.process
    (fun known face => if known.recognizerData = face.recognizerData then .matched else .notMatched)
    false [[⟨7, .undefined⟩]]

/-- Next to an empty node, the status that the matching node of branch `true` sets shows up in the
published data. -/
theorem matching_not_isolated :
    ¬Isolated oneFace (fun _ : Bool => EmptyPipelineNode.process) true matchingTask
      EmptyPipelineNode.process := by
  intro h
  obtain ⟨s, -, hrun, hs⟩ := Machine.exists_run_of_exec
    (machine oneFace (Function.update (fun _ : Bool => EmptyPipelineNode.process) true matchingTask))
    [true, true, true, true] (fun s => (s.faces ()).matchStatus = .matched) (by decide)
  obtain ⟨-, hparent⟩ := h _ s [] _ hrun .init (by decide)
  have hstatus : s.faces () = ⟨7, .undefined⟩ := eq_of_map_eq hparent (oneFace.faces_mem ())
  rw [hstatus] at hs
  simp at hs

end Seekira.Model.ForkedBranches
