import Seekira.Model.ForkedBranches
import Seekira.Model.TypeUtils

/-!
# The match probability of a face engine

An engine turns the distance of two faces into a probability by two thresholds, and the probability
into a status by a third one.  The thresholds come from an `Initializer`, which is checked when it
is read.  Numbers are rational; a division by zero has no value.
-/

set_option autoImplicit false

namespace Seekira.Model

/-- SOURCE: proc/interfaces/face_engine_type.hpp:5-10 -/
inductive FaceEngineType where
  | undefined
  | tdv
  | openVino
  deriving DecidableEq, Repr

/-- SOURCE: proc/interfaces/device_type.hpp:5-10 -/
inductive DeviceType where
  | undefined
  | cpu
  | cuda
  deriving DecidableEq, Repr

/-- `IFaceEngine::Mode`.
SOURCE: proc/interfaces/face_engine.hpp:17-27 -/
inductive FaceEngineMode where
  | undefined
  | detection
  | landmarks
  | recognition
  | detectionRecognition
  | all
  deriving DecidableEq, Repr

namespace IFaceEngine

/-- SOURCE: proc/interfaces/face_engine.hpp:29-38 -/
structure Initializer where
  type : FaceEngineType
  mode : FaceEngineMode
  modelsPath : String
  device : DeviceType
  saveFrames : Bool
  matchGtThreshold : ℚ
  matchGfThreshold : ℚ
  matchProbThreshold : ℚ
  deriving DecidableEq, Repr

/-- SOURCE: proc/interfaces/face_engine.cpp:29-42 -/
def Initializer.isValid (init : Initializer) : Bool :=
  decide (init.type ≠ .undefined) &&
    decide (init.mode ≠ .undefined) &&
    decide (init.device ≠ .undefined) &&
    decide (init.modelsPath ≠ "") &&
    !Utils.compare init.matchGtThreshold 0 &&
    !Utils.compare init.matchGfThreshold 0 &&
    !Utils.compare init.matchProbThreshold 0

/-- An initializer that `deserialize` does not reject.
SOURCE: proc/interfaces/face_engine.cpp:15-27 -/
structure ValidInitializer extends Initializer where
  valid : toInitializer.isValid = true

end IFaceEngine

/-- SOURCE: proc/interfaces/face.hpp:28-35 -/
structure FaceMatchResult where
  status : FaceMatchStatus
  probability : ℚ
  deriving DecidableEq, Repr

/-- SOURCE: proc/interfaces/face_engine.cpp:8-13 -/
def FaceMatchResult.create (probValue probThreshold : ℚ) : FaceMatchResult where
  status :=
    if Utils.compare probValue 1 then .matched
    else if probValue > probThreshold then .possible
    else .notMatched
  probability := probValue

/-- A quotient, if there is one. -/
def quotient (x y : ℚ) : Option ℚ := if y = 0 then none else some (x / y)

/-- The fields that the match probability depends on.
SOURCE: proc/interfaces/face_engine.hpp:64-89 -/
structure BaseFaceEngine where
  matchGtThreshold : ℚ
  matchGfThreshold : ℚ
  matchProbThreshold : ℚ
  deriving DecidableEq, Repr

namespace BaseFaceEngine

/-- SOURCE: proc/interfaces/face_engine.hpp:67-76 -/
def create (init : IFaceEngine.ValidInitializer) : BaseFaceEngine where
  matchGtThreshold := init.matchGtThreshold
  matchGfThreshold := init.matchGfThreshold
  matchProbThreshold := init.matchProbThreshold

/-- SOURCE: proc/interfaces/face_engine.cpp:60-71 -/
def calcMatchProbability (e : BaseFaceEngine) (distance : ℚ) : Option ℚ :=
  if distance < e.matchGtThreshold then some 1
  else if distance > e.matchGfThreshold then some 0
  else quotient (e.matchGfThreshold - distance) (e.matchGfThreshold - e.matchGtThreshold)

/-- The result of a comparison of two faces at this distance.
SOURCE: proc/face_engine/impl/tdv/face_engine_tdv.cpp:188-189 -/
def matchResult (e : BaseFaceEngine) (distance : ℚ) : Option FaceMatchResult :=
  (e.calcMatchProbability distance).map fun p => FaceMatchResult.create p e.matchProbThreshold

end BaseFaceEngine

end Seekira.Model
