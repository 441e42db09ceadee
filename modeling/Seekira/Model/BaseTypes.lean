import Seekira.Library.Loading
import Seekira.Model.Json
import Seekira.Model.PersonDetector
import Seekira.Model.TypeUtils

/-!
# Points, rectangles and poses in JSON

How the types of `core/base/types` are written into an object and read from one.  A reader assigns
its fields one after the other; what it throws leaves those that were assigned before.
-/

set_option autoImplicit false

namespace Seekira.Model

open Library

namespace Point2D

/-- SOURCE: core/base/types/point2d.cpp:23-27 -/
def serialize (point : Point2D) (container : ObjectJSON) : ObjectJSON :=
  let container := Json.set .int container "x" point.x
  Json.set .int container "y" point.y

/-- SOURCE: core/base/types/point2d.cpp:29-33 -/
def deserialize (poco : Poco) (container : ObjectJSON) : EStateM LoadError Point2D Unit := do
  assign (Json.get poco .int container "x") fun x point => { point with x }
  assign (Json.get poco .int container "y") fun y point => { point with y }

end Point2D

namespace Video.Rect

/-- The rectangle of the default constructor.
SOURCE: core/base/types/rect.hpp:11 -/
def empty : Rect := ⟨({} : Point2D).x, ({} : Point2D).y, ({} : Point2D).x, ({} : Point2D).y⟩

def p0 (rect : Rect) : Point2D := ⟨rect.x0, rect.y0⟩

def p1 (rect : Rect) : Point2D := ⟨rect.x1, rect.y1⟩

/-- SOURCE: core/base/types/rect.cpp:21-30 -/
def serialize (rect : Rect) (container : ObjectJSON) : ObjectJSON :=
  -- the objects that the points have been written to are not used
  let container := Json.set .point2D container "point0" rect.p0
  Json.set .point2D container "point1" rect.p1

/-- SOURCE: core/base/types/rect.cpp:32-38 -/
def deserialize (poco : Poco) (container : ObjectJSON) : EStateM LoadError Rect Unit := do
  let p0Json ← MonadExcept.ofExcept (Json.getObject container "point0")
  let p1Json ← MonadExcept.ofExcept (Json.getObject container "point1")
  onPart p0 (fun point rect => { rect with x0 := point.x, y0 := point.y })
    (Point2D.deserialize poco p0Json)
  onPart p1 (fun point rect => { rect with x1 := point.x, y1 := point.y })
    (Point2D.deserialize poco p1Json)

end Video.Rect

/-- SOURCE: core/base/types/pose.hpp:39-48 -/
structure Pose where
  px : ℚ := 0
  py : ℚ := 0
  pz : ℚ := 0
  qw : ℚ := 0
  qx : ℚ := 0
  qy : ℚ := 0
  qz : ℚ := 0
  deriving DecidableEq, Repr

namespace Pose

/-- SOURCE: core/base/types/pose.cpp:28-41 -/
def equal (lhs rhs : Pose) : Bool :=
  Utils.compare lhs.px rhs.px && Utils.compare lhs.py rhs.py && Utils.compare lhs.pz rhs.pz &&
    Utils.compare lhs.qx rhs.qx && Utils.compare lhs.qy rhs.qy && Utils.compare lhs.qz rhs.qz &&
    Utils.compare lhs.qw rhs.qw

/-- SOURCE: core/base/types/pose.cpp:49-54 -/
def setTranslation (x y z : ℚ) (pose : Pose) : Pose := { pose with px := x, py := y, pz := z }

/-- SOURCE: core/base/types/pose.cpp:58-64 -/
def setRotation (w x y z : ℚ) (pose : Pose) : Pose :=
  { pose with qw := w, qx := x, qy := y, qz := z }

/-- SOURCE: core/base/types/pose.cpp:120-133 -/
def serialize (pose : Pose) (container : ObjectJSON) : ObjectJSON :=
  let p := Json.set .double [] "x" pose.px
  let p := Json.set .double p "y" pose.py
  let p := Json.set .double p "z" pose.pz
  let q := Json.set .double [] "w" pose.qw
  let q := Json.set .double q "x" pose.qx
  let q := Json.set .double q "y" pose.qy
  let q := Json.set .double q "z" pose.qz
  let container := Json.set .object container "p" p
  Json.set .object container "q" q

/-- The arguments of a call are read before it, from left to right here.
SOURCE: core/base/types/pose.cpp:135-143 -/
def deserialize (poco : Poco) (container : ObjectJSON) : EStateM LoadError Pose Unit := do
  let p ← MonadExcept.ofExcept (Json.getObject container "p")
  let q ← MonadExcept.ofExcept (Json.getObject container "q")
  let px ← MonadExcept.ofExcept (Json.get poco .double p "x")
  let py ← MonadExcept.ofExcept (Json.get poco .double p "y")
  let pz ← MonadExcept.ofExcept (Json.get poco .double p "z")
  modify (setTranslation px py pz)
  let qw ← MonadExcept.ofExcept (Json.get poco .double q "w")
  let qx ← MonadExcept.ofExcept (Json.get poco .double q "x")
  let qy ← MonadExcept.ofExcept (Json.get poco .double q "y")
  let qz ← MonadExcept.ofExcept (Json.get poco .double q "z")
  modify (setRotation qw qx qy qz)

end Pose

end Seekira.Model
