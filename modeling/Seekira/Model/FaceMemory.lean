import Seekira.Model.ForkedBranches

/-!
# A program over faces that nobody interrupts

The faces that a branch can reach, and what its program makes of them from beginning to end when
no other branch accesses a face meanwhile.
-/

set_option autoImplicit false

namespace Seekira.Model

variable {φ ρ α : Type}

/-- The faces of the parent's output, and those the branch created. -/
structure FaceMemory (φ ρ : Type) where
  faces : φ → Face ρ
  own : List (Face ρ)

namespace FaceMemory

/-- The face that a pointer leads to. -/
def read (m : FaceMemory φ ρ) : FacePtr φ → Option (Face ρ)
  | .parent p => some (m.faces p)
  | .own n => m.own[n]?

/-- A change of the face that a pointer leads to. -/
def update [DecidableEq φ] (m : FaceMemory φ ρ) (f : Face ρ → Face ρ) :
    FacePtr φ → FaceMemory φ ρ
  | .parent p => { m with faces := Function.update m.faces p (f (m.faces p)) }
  | .own n => { m with own := m.own.modify n f }

end FaceMemory

namespace FaceProg

variable [DecidableEq φ]

/-- What a program ends with and the faces it leaves; `none` when it follows a pointer that leads
nowhere. -/
def exec : FaceProg φ ρ α → FaceMemory φ ρ → Option (Except Exc α × FaceMemory φ ρ)
  | .ret a, m => some (.ok a, m)
  | .throw e, m => some (.error e, m)
  | .get p k, m => (m.read p).bind fun v => (k v).exec m
  | .update p f k, m => k.exec (m.update f p)
  | .create face k, m => (k (.own m.own.length)).exec { m with own := m.own ++ [face] }

end FaceProg

end Seekira.Model
