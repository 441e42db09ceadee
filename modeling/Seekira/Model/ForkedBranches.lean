import Mathlib.Logic.Function.Basic
import Seekira.Library.Machine
import Seekira.Model.ThreadPoolWorker

/-!
# The branches below a fork and the faces they share

`clone_pipeline_data` copies the frame and the map of attachments.  A frame owns its
pixels, so its copy is independent; an attachment is a detection result, whose faces are
shared pointers, and copying these leaves both copies with the same faces.  The nodes for
recognition and matching write into the faces.

The tasks of a branch are programs over its own clone that reach faces one access at a
time.  The branches below a fork take these accesses in any order.  A face is reached
through a pointer that was in the parent's output, or through one to a face that the
branch itself created; the latter no other branch can know.  What the face engine, a
third-party library, computes is a parameter.
-/

set_option autoImplicit false

namespace Seekira.Model

/-- SOURCE: proc/interfaces/face.hpp:20-26 -/
inductive FaceMatchStatus where
  | undefined
  | notMatched
  | possible
  | matched
  deriving DecidableEq, Repr

/-- The fields of a face that the nodes and the engine change.
SOURCE: proc/interfaces/face.hpp:98-106 -/
structure Face (ρ : Type) where
  recognizerData : ρ
  matchStatus : FaceMatchStatus
  deriving DecidableEq, Repr

/-- A pointer to a face of the parent's output, or to one that the branch created. -/
inductive FacePtr (φ : Type) where
  | parent (p : φ)
  | own (n : Nat)
  deriving DecidableEq, Repr

/-! ## The data of a pipeline -/

/-- Attachments by id.  `std::any` is left out: nodes attach detection results to pipeline data and
lists of faces to detection results.
SOURCE: core/base/types/meta_storage.hpp:13-41 -/
structure MetaStorage (α : Type) where
  storage : List (String × α)
  deriving DecidableEq, Repr

namespace MetaStorage

variable {α β : Type}

/-- SOURCE: core/base/types/meta_storage.cpp:7-13 -/
def setAttachment (id : String) (attachment : α) (m : MetaStorage α) : MetaStorage α :=
  ⟨(id, attachment) :: m.storage.filter fun e => e.1 ≠ id⟩

/-- SOURCE: core/base/types/meta_storage.hpp:18-34, core/base/types/meta_storage.cpp:15-22 -/
def getAttachment (id : String) (m : MetaStorage α) : Option α := m.storage.lookup id

def map (f : α → β) (m : MetaStorage α) : MetaStorage β :=
  ⟨m.storage.map fun e => (e.1, f e.2)⟩

end MetaStorage

/-- What a detector attaches; `P` is the type of pointers to faces.
SOURCE: proc/interfaces/detector_interface.hpp:12-28 -/
structure DetectionResult (P : Type) where
  data : MetaStorage (List P)
  deriving DecidableEq, Repr

/-- SOURCE: proc/pipeline/pipeline_data.hpp:11-25 -/
structure PipelineData (β P : Type) where
  data : β
  storage : MetaStorage (DetectionResult P)
  deriving DecidableEq, Repr

namespace PipelineData

variable {β P Q : Type}

/-- SOURCE: proc/pipeline/pipeline_data.hpp:30-39 -/
def clone (d : PipelineData β P) : PipelineData β P := { data := d.data, storage := d.storage }

/-- Follow or rename the pointers. -/
def map (f : P → Q) (d : PipelineData β P) : PipelineData β Q where
  data := d.data
  storage := d.storage.map fun r => ⟨r.data.map fun faces => faces.map f⟩

/-- The pointers to faces in the attachments. -/
def facePtrs (d : PipelineData β P) : List P :=
  d.storage.storage.flatMap fun e => e.2.data.storage.flatMap fun faces => faces.2

end PipelineData

/-! ## Programs over faces -/

/-- A program that ends with `α`, throws, or goes on after one access to a face. -/
inductive FaceProg (φ ρ α : Type) where
  | ret (a : α)
  | throw (e : Exc)
  | get (p : FacePtr φ) (k : Face ρ → FaceProg φ ρ α)
  | update (p : FacePtr φ) (f : Face ρ → Face ρ) (k : FaceProg φ ρ α)
  | create (face : Face ρ) (k : FacePtr φ → FaceProg φ ρ α)

namespace FaceProg

variable {φ ρ α α' : Type}

def bind : FaceProg φ ρ α → (α → FaceProg φ ρ α') → FaceProg φ ρ α'
  | .ret a, k => k a
  | .throw e, _ => .throw e
  | .get p k, k' => .get p fun v => (k v).bind k'
  | .update p f k, k' => .update p f (k.bind k')
  | .create face k, k' => .create face fun p => (k p).bind k'

instance : Monad (FaceProg φ ρ) where
  pure := .ret
  bind := bind

end FaceProg

/-! ## The nodes -/

section Nodes

variable {φ ρ β : Type}

/-- SOURCE: proc/interfaces/face.hpp:96 -/
def setMatchStatus (face : FacePtr φ) (status : FaceMatchStatus) : FaceProg φ ρ Unit :=
  .update face (fun v => { v with matchStatus := status }) (.ret ())

/-- The status that the results of the comparisons amount to.  The source divides; one half of the
number of results is reached when twice the sum reaches that number.
SOURCE: proc/face_engine/holder/person_holder.cpp:117-138 -/
def matchVerdict (results : List FaceMatchStatus) : FaceMatchStatus :=
  let valid := results.count .matched
  let prob := results.count .possible
  if valid = 0 then
    if prob = 0 then .notMatched else .possible
  else if results.length ≤ 2 * valid + prob then .matched
  else .possible

/-- `compare` of a person with the known faces `faces`; `engine` compares two faces.
SOURCE: proc/face_engine/holder/person_holder.cpp:82-145 -/
def PersonHolder.compare (engine : Face ρ → Face ρ → FaceMatchStatus) (faces : List (Face ρ))
    (face : FacePtr φ) : FaceProg φ ρ FaceMatchStatus := do
  setMatchStatus face .undefined
  let results ← faces.mapM fun known => FaceProg.get face fun v => .ret (engine known v)
  setMatchStatus face (matchVerdict results)
  pure (matchVerdict results)

/-- The loop over the persons for one face.
SOURCE: proc/pipeline/nodes/face_matcher_node.cpp:84-92 -/
def matchPersons (engine : Face ρ → Face ρ → FaceMatchStatus) (face : FacePtr φ) :
    List (List (Face ρ)) → FaceProg φ ρ Unit
  | [] => pure ()
  | person :: rest => do
    let status ← PersonHolder.compare engine person face
    if status ≠ .notMatched then setMatchStatus face status
    else matchPersons engine face rest

/-- The faces that the matching and the recognition node work on.
SOURCE: proc/pipeline/nodes/face_matcher_node.cpp:71-79 -/
def detectedFaces (d : PipelineData β (FacePtr φ)) : List (FacePtr φ) :=
  match d.storage.getAttachment "face_detection_result" with
  | none => []
  | some result => (result.data.getAttachment "faces").getD []

/-- SOURCE: proc/pipeline/nodes/face_matcher_node.cpp:66-94 -/
def FaceMatcherPipelineNode.process (engine : Face ρ → Face ρ → FaceMatchStatus)
    (skipFlag : Bool) (persons : List (List (Face ρ))) (d : PipelineData β (FacePtr φ)) :
    FaceProg φ ρ (PipelineData β (FacePtr φ)) := do
  if skipFlag then pure d
  else
    (detectedFaces d).forM fun face => matchPersons engine face persons
    pure d

/-- `engine` is what recognition makes of a face.
SOURCE: proc/pipeline/nodes/face_recognition_node.cpp:50-67 -/
def FaceRecognitionPipelineNode.process (engine : Face ρ → Face ρ) (skipFlag : Bool)
    (d : PipelineData β (FacePtr φ)) : FaceProg φ ρ (PipelineData β (FacePtr φ)) := do
  if skipFlag then pure d
  else
    (detectedFaces d).forM fun face => FaceProg.update face engine (.ret ())
    pure d

/-- `engine` finds the faces of a frame.
SOURCE: proc/pipeline/nodes/face_detection_node.cpp:40-46, proc/detect/face_detector.cpp:31-47 -/
def FaceDetectionPipelineNode.process (engine : β → List (Face ρ)) (d : PipelineData β (FacePtr φ)) :
    FaceProg φ ρ (PipelineData β (FacePtr φ)) := do
  let faces ← (engine d.data).mapM fun face => FaceProg.create face FaceProg.ret
  let result : DetectionResult (FacePtr φ) := ⟨MetaStorage.setAttachment "faces" faces ⟨[]⟩⟩
  pure { d with storage := d.storage.setAttachment "face_detection_result" result }

/-- SOURCE: proc/pipeline/nodes/resizer_node.cpp:40-43 -/
def ResizerPipelineNode.process (resizer : β → β) (d : PipelineData β (FacePtr φ)) :
    FaceProg φ ρ (PipelineData β (FacePtr φ)) :=
  .ret { d with data := resizer d.data }

/-- SOURCE: proc/pipeline/nodes/empty_node.hpp:30 -/
def EmptyPipelineNode.process (d : PipelineData β (FacePtr φ)) :
    FaceProg φ ρ (PipelineData β (FacePtr φ)) :=
  .ret d

end Nodes

/-! ## The run of the branches -/

/-- What a branch does with its clone. -/
abbrev BranchTask (φ ρ β : Type) :=
  PipelineData β (FacePtr φ) → FaceProg φ ρ (PipelineData β (FacePtr φ))

/-- The output of the branch above the fork, with the contents of its faces; the names of type `φ` are
those of the faces that its attachments point to. -/
structure ParentOutput (φ ρ β : Type) where
  data : PipelineData β φ
  faces : φ → Face ρ
  faces_mem : ∀ p, p ∈ data.facePtrs

/-- The faces of the parent's output, and of each branch the faces it created and what it has left
to do. -/
structure ForkedBranches (ι φ ρ β : Type) where
  faces : φ → Face ρ
  own : ι → List (Face ρ)
  progs : ι → FaceProg φ ρ (PipelineData β (FacePtr φ))

namespace ForkedBranches

variable {ι φ ρ β : Type}

/-- `on_finished` of the parent hands a clone of its output to every child.
SOURCE: proc/pipeline/async/async_pipeline.hpp:199-206 -/
def start (output : ParentOutput φ ρ β) (tasks : ι → BranchTask φ ρ β) :
    ForkedBranches ι φ ρ β where
  faces := output.faces
  own := fun _ => []
  progs := fun b => tasks b (output.data.clone.map .parent)

/-- The face that a pointer of branch `b` leads to. -/
def read (b : ι) (s : ForkedBranches ι φ ρ β) : FacePtr φ → Option (Face ρ)
  | .parent p => some (s.faces p)
  | .own n => (s.own b)[n]?

/-- The data that branch `b` published, as an observer sees it now.
SOURCE: proc/pipeline/async/async_pipeline.hpp:208-215 -/
def published (b : ι) (s : ForkedBranches ι φ ρ β) : Option (PipelineData β (Option (Face ρ))) :=
  match s.progs b with
  | .ret d => some (d.clone.map (s.read b))
  | _ => none

/-- The parent's output as published, as an observer sees it now. -/
def parentPublished (output : ParentOutput φ ρ β) (s : ForkedBranches ι φ ρ β) :
    PipelineData β (Face ρ) :=
  output.data.clone.map s.faces

variable [DecidableEq ι] [DecidableEq φ]

def setProg (b : ι) (prog : FaceProg φ ρ (PipelineData β (FacePtr φ)))
    (s : ForkedBranches ι φ ρ β) : ForkedBranches ι φ ρ β :=
  { s with progs := Function.update s.progs b prog }

def setOwn (b : ι) (own : List (Face ρ)) (s : ForkedBranches ι φ ρ β) : ForkedBranches ι φ ρ β :=
  { s with own := Function.update s.own b own }

/-- The next access of branch `b`; `none` when it has ended. -/
def step (s : ForkedBranches ι φ ρ β) (b : ι) : Option (ForkedBranches ι φ ρ β) :=
  match s.progs b with
  | .ret _ | .throw _ => none
  | .get p k => (s.read b p).map fun v => s.setProg b (k v)
  | .update (.parent p) f k =>
    some { s.setProg b k with faces := Function.update s.faces p (f (s.faces p)) }
  | .update (.own n) f k => some ((s.setProg b k).setOwn b ((s.own b).modify n f))
  | .create face k =>
    some ((s.setProg b (k (.own (s.own b).length))).setOwn b (s.own b ++ [face]))

/-- The branches below a fork; a run is an interleaving of their accesses. -/
def machine (output : ParentOutput φ ρ β) (tasks : ι → BranchTask φ ρ β) :
    Library.Machine (ForkedBranches ι φ ρ β) ι where
  init := start output tasks
  step := step

end ForkedBranches

end Seekira.Model
