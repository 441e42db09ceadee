import Seekira.Library.Loop
import Seekira.Model.ForkedBranches
import Seekira.Model.TypeUtils

/-!
# The known faces of a person

A `PersonHolder` loads the faces of one person from a directory, compares each with each, and
gives a verdict on a face from its comparisons with all of them.  The files, the face engine and
what it makes of images and faces are parameters.
-/

set_option autoImplicit false

namespace Seekira.Model.PersonHolder

open Library

/-! ## The verdict on a face -/

/-- The counters of `compare`.
SOURCE: proc/face_engine/holder/person_holder.cpp:88-90 -/
structure MatchCounters where
  valid : Nat
  invalid : Nat
  prob : Nat
  deriving DecidableEq, Repr

namespace MatchCounters

/-- SOURCE: proc/face_engine/holder/person_holder.cpp:98-114 -/
def count (c : MatchCounters) : FaceMatchStatus → MatchCounters
  | .matched => { c with valid := c.valid + 1 }
  | .notMatched => { c with invalid := c.invalid + 1 }
  | .possible => { c with prob := c.prob + 1 }
  -- the assert of this case is on a text, which always holds
  | .undefined => c

/-- SOURCE: proc/face_engine/holder/person_holder.cpp:92-115 -/
def ofResults (results : List FaceMatchStatus) : MatchCounters := results.foldl count ⟨0, 0, 0⟩

/-- The quotients are those of rational numbers.
SOURCE: proc/face_engine/holder/person_holder.cpp:117-138 -/
def status (c : MatchCounters) (size : Nat) : FaceMatchStatus :=
  let status := FaceMatchStatus.undefined
  let status := if c.valid = 0 ∧ c.prob = 0 then .notMatched else status
  let status := if c.valid = 0 ∧ c.prob ≠ 0 then .possible else status
  if c.valid ≠ 0 then
    if Utils.compareGe (((c.valid : ℚ) + c.prob / 2) / size) (1 / 2) then .matched else .possible
  else status

end MatchCounters

/-- What `compare` returns when the comparisons with the known faces have these results. -/
def vote (results : List FaceMatchStatus) : FaceMatchStatus :=
  (MatchCounters.ofResults results).status results.length

/-! ## Loading -/

/-- SOURCE: proc/face_engine/holder/person_holder.cpp:53-58 -/
structure DirectoryEntry where
  path : String
  isDirectory : Bool
  deriving DecidableEq, Repr

/-- The files and the face engine as `load_from_dir` uses them. -/
structure FaceSource (image ρ : Type) where
  /-- what a path lists, if it is that of a directory -/
  directory : String → Option (List DirectoryEntry)
  openFile : String → Except Exc image
  detect : image → Except Exc (List (Face ρ))
  recognize : Face ρ → Except Exc (Face ρ)
  compare : Face ρ → Face ρ → Except Exc FaceMatchStatus

variable {image ρ : Type}

/-- The loop over the directory; an image with any other number of faces than one is skipped.
SOURCE: proc/face_engine/holder/person_holder.cpp:53-70 -/
def loadFaces (source : FaceSource image ρ) : List DirectoryEntry → Except Exc (List (Face ρ))
  | [] => .ok []
  | entry :: rest => do
    if entry.isDirectory then loadFaces source rest
    else
      let frame ← source.openFile entry.path
      match ← source.detect frame with
      | [face] =>
        let recognized ← source.recognize face
        let faces ← loadFaces source rest
        return recognized :: faces
      | _ => loadFaces source rest

/-- `m_faces` when the check begins.
SOURCE: proc/face_engine/holder/person_holder.cpp:46-70 -/
def loadFromDir (source : FaceSource image ρ) (path : String) : Except Exc (List (Face ρ)) :=
  match source.directory path with
  -- "Load face from invalid dir: {}"
  | none => .error .std
  | some entries => loadFaces source entries

/-- A value of type `size_t`. -/
def sizeT (n : Int) : Nat := (n % 2 ^ 64).toNat

/-- Where the two loops of the check stand, with the comparisons made so far. -/
inductive CheckStage where
  /-- before the condition of the outer loop -/
  | outer (i : Nat) (compared : List (Nat × Nat))
  /-- before the condition of the inner loop -/
  | inner (i j : Nat) (compared : List (Nat × Nat))
  deriving DecidableEq, Repr

/-- How the check ends. -/
inductive CheckEnd where
  | finished (compared : List (Nat × Nat))
  /-- the engine's `compare` threw -/
  | thrown (e : Exc)
  /-- an element of `m_faces` that does not exist was accessed -/
  | outOfRange
  deriving DecidableEq, Repr

/-- One round of the loops; the status of a pair only decides whether a warning is logged.
SOURCE: proc/face_engine/holder/person_holder.cpp:73-79 -/
def checkRound (source : FaceSource image ρ) (faces : List (Face ρ)) :
    CheckStage → Round CheckStage CheckEnd
  | .outer i compared =>
    if i < sizeT (faces.length - 1) then .again (.inner i (sizeT (i + 1)) compared)
    else .leave (.finished compared)
  | .inner i j compared =>
    if j < faces.length then
      match faces[i]?, faces[j]? with
      | some face, some other =>
        match source.compare face other with
        | .ok _ => .again (.inner i (sizeT (j + 1)) (compared ++ [(i, j)]))
        | .error e => .leave (.thrown e)
      | _, _ => .leave .outOfRange
    else .again (.outer (sizeT (i + 1)) compared)

end Seekira.Model.PersonHolder
