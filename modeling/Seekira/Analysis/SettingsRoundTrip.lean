import Seekira.Model.CameraSettings

/-!
# Settings that are written and read

What `deserialize` reads does not depend on the object it fills: loading settings puts what they say
over what the object held.  Of settings that were written the read gives them back, as far as the
pixel format has a name.  A rectangle is written in a form that is not read.
-/

set_option autoImplicit false

namespace Seekira.Model

open Library

variable {poco : Poco}

/-! ## What is read -/

namespace Pose

/-- The pose that an object says. -/
def read (poco : Poco) (container : ObjectJSON) : Except LoadError Pose := do
  let p ← Json.getObject container "p"
  let q ← Json.getObject container "q"
  let px ← Json.get poco .double p "x"
  let py ← Json.get poco .double p "y"
  let pz ← Json.get poco .double p "z"
  let qw ← Json.get poco .double q "w"
  let qx ← Json.get poco .double q "x"
  let qy ← Json.get poco .double q "y"
  let qz ← Json.get poco .double q "z"
  return { px, py, pz, qw, qx, qy, qz }

theorem equal_self (pose : Pose) : pose.equal pose = true := by
  simp [equal, Utils.compare_self]

/-- A pose is loaded from what is read. -/
theorem deserialize_loads (container : ObjectJSON) (old : Pose) :
    LoadsTo (deserialize poco container old) (read poco container) id := by
  refine .read_bind fun p _ => .read_bind fun q _ => ?_
  refine .read_bind fun px _ => .read_bind fun py _ => .read_bind fun pz _ => ?_
  refine .modify_bind ?_
  refine .read_bind fun qw _ => .read_bind fun qx _ => ?_
  refine .read_bind fun qy _ => .read_bind fun qz _ => ?_
  exact loadsTo_pure rfl

theorem read_serialize (pose : Pose) : read poco (pose.serialize []) = .ok pose := by
  simp [read, serialize, Json.getObject, Json.optObject, Bind.bind, Except.bind, Pure.pure,
    Except.pure]

end Pose

namespace Video

namespace CameraResolution

/-- The resolution that an object says. -/
def read (poco : Poco) (container : ObjectJSON) : Except LoadError CameraResolution := do
  let width ← Json.get poco .sizeT container "width"
  let height ← Json.get poco .sizeT container "height"
  return { width, height }

theorem deserialize_loads (container : ObjectJSON) (old : CameraResolution) :
    LoadsTo (deserialize poco container old) (read poco container) id := by
  refine (loadsTo_assign _ _ old).bind fun width _ => ?_
  exact (loadsTo_assign _ _ _).map fun _ => rfl

theorem read_serialize (resolution : CameraResolution) :
    read poco (resolution.serialize []) = .ok resolution := by
  simp [read, serialize, Bind.bind, Except.bind, Pure.pure, Except.pure]

end CameraResolution

namespace CameraIntrinsics

/-- The intrinsics that an object says. -/
def read (poco : Poco) (container : ObjectJSON) : Except LoadError CameraIntrinsics := do
  let fx ← Json.get poco .double container "fx"
  let fy ← Json.get poco .double container "fy"
  let cx ← Json.get poco .double container "cx"
  let cy ← Json.get poco .double container "cy"
  return { fx, fy, cx, cy }

theorem equal_self (intrinsics : CameraIntrinsics) : intrinsics.equal intrinsics = true := by
  simp [equal, Utils.compare_self]

/-- Intrinsics are loaded from what is read. -/
theorem deserialize_loads (container : ObjectJSON) (old : CameraIntrinsics) :
    LoadsTo (deserialize poco container old) (read poco container) id := by
  refine (loadsTo_assign _ _ old).bind fun fx _ => ?_
  refine (loadsTo_assign _ _ _).bind fun fy _ => ?_
  refine (loadsTo_assign _ _ _).bind fun cx _ => ?_
  exact (loadsTo_assign _ _ _).map fun _ => rfl

theorem read_serialize (intrinsics : CameraIntrinsics) :
    read poco (intrinsics.serialize []) = .ok intrinsics := by
  simp [read, serialize, Bind.bind, Except.bind, Pure.pure, Except.pure]

end CameraIntrinsics

namespace CameraDistortion

/-- The coefficients that an array says. -/
def read (poco : Poco) (container : ArrayJSON) : Except LoadError (List ℚ) :=
  container.mapM (Json.item poco .double)

theorem equal_self (distortion : CameraDistortion) : distortion.equal distortion = true :=
  Utils.compareAll_self _

/-- They come behind those that the object has. -/
theorem deserialize_loads (container : ArrayJSON) (old : CameraDistortion) :
    LoadsTo (deserialize poco container old) (read poco container)
      fun coefs => ⟨old.coefs ++ coefs⟩ := by
  have hpush (coefs : List ℚ) (old : CameraDistortion) :
      coefs.foldl (fun distortion coef => ⟨distortion.coefs ++ [coef]⟩) old =
        (⟨old.coefs ++ coefs⟩ : CameraDistortion) := by
    induction coefs generalizing old with
    | nil => rw [List.append_nil]; rfl
    | cons coef rest ih => rw [List.foldl_cons, ih, List.append_assoc, List.singleton_append]
  have hload := loadsTo_list (Json.item poco .double)
    (fun coef distortion => ⟨distortion.coefs ++ [coef]⟩) container old
  simp only [hpush] at hload
  exact hload

/-- A distortion is written as its coefficients. -/
theorem serialize_eq (distortion : CameraDistortion) :
    distortion.serialize [] = distortion.coefs.map .double := by
  have hadd (coefs : List ℚ) (items : ArrayJSON) :
      coefs.foldl (Json.add .double) items = items ++ coefs.map .double := by
    induction coefs generalizing items with
    | nil => simp
    | cons coef rest ih =>
      rw [List.foldl_cons, ih, Json.add, List.append_assoc]
      rfl
  exact hadd distortion.coefs []

/-- The coefficients read back as they were written. -/
theorem read_serialize (distortion : CameraDistortion) :
    read poco (distortion.serialize []) = .ok distortion.coefs := by
  rw [serialize_eq]
  unfold read
  induction distortion.coefs with
  | nil => rfl
  | cons coef rest ih =>
    have hcoef : Json.item poco .double (.double coef) = .ok coef :=
      Json.item_hold poco .double coef
    rw [List.map_cons, List.mapM_cons, hcoef, ih]
    rfl

end CameraDistortion

namespace CameraExtrinsics

/-- The extrinsics that an object says. -/
def read (poco : Poco) (container : ObjectJSON) : Except LoadError CameraExtrinsics := do
  let pose ← Pose.read poco container
  return { pose }

theorem equal_self (extrinsics : CameraExtrinsics) : extrinsics.equal extrinsics = true :=
  Pose.equal_self _

theorem deserialize_loads (container : ObjectJSON) (old : CameraExtrinsics) :
    LoadsTo (deserialize poco container old) (read poco container) id :=
  (LoadsTo.onPart (Pose.deserialize_loads container old.pose)).map fun _ => rfl

theorem read_serialize (extrinsics : CameraExtrinsics) :
    read poco (extrinsics.serialize []) = .ok extrinsics := by
  unfold read serialize
  rw [Pose.read_serialize]
  rfl

end CameraExtrinsics

/-! ## The settings -/

theorem optEqual_self {α : Type} {equal : α → α → Bool} (hself : ∀ x, equal x x = true)
    (o : Option α) : optEqual equal o o = true := by
  cases o with
  | none => rfl
  | some x => exact hself x

namespace CameraSettings

/-- The settings that an object says; what it does not say is absent. -/
def read (poco : Poco) (container : ObjectJSON) : Except LoadError CameraSettings := do
  let id ← Json.get poco .string container "id"
  let serialId ← Json.get poco .string container "serial_id"
  let resolutionJson ← Json.getObject container "resolution"
  let resolution ← CameraResolution.read poco resolutionJson
  let intrinsicsJson ← Json.getObject container "intrinsics"
  let intrinsics ← CameraIntrinsics.read poco intrinsicsJson
  let coefs ← (Json.optArray container "distortion").mapM (CameraDistortion.read poco)
  let extrinsics ← (Json.optObject container "pose").mapM (CameraExtrinsics.read poco)
  return {
    id, serialId, resolution, intrinsics, extrinsics
    pixFmt := .fromString (Json.getDefault poco .string container "pixel_format"
      (PixFmtValue.format .undefined).toString)
    distortion := coefs.map fun coefs => ⟨coefs⟩
    exposure := Json.getOpt poco .int container "exposure"
    frameRate := Json.getOpt poco .int container "frame_rate"
    reconnectTimeout := Json.getOpt poco .timeType container "reconnect_timeout" }

/-- Settings put over old ones. -/
def putOver (settings old : CameraSettings) : CameraSettings :=
  { settings with
    distortion := settings.distortion.or old.distortion
    extrinsics := settings.extrinsics.or old.extrinsics
    reconnectTimeout := settings.reconnectTimeout.or old.reconnectTimeout }

/-- Settings are loaded over the old ones from what is read. -/
theorem deserialize_loads (container : ObjectJSON) (old : CameraSettings) :
    LoadsTo (deserialize poco container old) (read poco container) fun settings =>
      settings.putOver old := by
  unfold deserialize read
  generalize PixFmtValue.fromString _ = pixFmt
  generalize Json.getOpt poco .int container "exposure" = exposure
  generalize Json.getOpt poco .int container "frame_rate" = frameRate
  generalize Json.getOpt poco .timeType container "reconnect_timeout" = reconnectTimeout
  refine (loadsTo_assign _ _ old).bind fun id _ => ?_
  refine (loadsTo_assign _ _ _).bind fun serialId _ => .modify_bind ?_
  refine .read_bind fun resolutionJson _ => ?_
  refine (LoadsTo.onPart (CameraResolution.deserialize_loads resolutionJson _)).bind
    fun resolution _ => ?_
  refine .read_bind fun intrinsicsJson _ => ?_
  refine (LoadsTo.onPart (CameraIntrinsics.deserialize_loads intrinsicsJson _)).bind
    fun intrinsics _ => ?_
  refine (loadsTo_option _ fun distortionJson _ =>
    (CameraDistortion.deserialize_loads distortionJson {}).onNew).bind fun coefs _ => ?_
  refine (loadsTo_option _ fun extrinsicsJson _ =>
    (CameraExtrinsics.deserialize_loads extrinsicsJson {}).onNew).bind fun extrinsics _ => ?_
  refine .modify_bind (.modify_bind (loadsTo_pure ?_))
  cases reconnectTimeout <;> cases coefs <;> cases extrinsics <;> rfl

/-- The parts that are present are read back, when each of them is. -/
theorem mapM_map_ok {ε α β γ : Type} {write : α → β} {read : β → Except ε γ} {g : α → γ}
    (hread : ∀ a, read (write a) = .ok (g a)) (o : Option α) :
    (o.map write).mapM read = .ok (o.map g) := by
  cases o with
  | none => rfl
  | some a =>
    rw [Option.map_some, Option.mapM_some, hread]
    rfl

/-- The pixel format comes back by its name. -/
theorem read_serialize (settings : CameraSettings) :
    read poco (settings.serialize []) =
      .ok { settings with pixFmt := .fromString settings.pixFmt.toString } := by
  have hcoefs : (settings.distortion.map CameraDistortion.coefs).map (fun coefs => ⟨coefs⟩) =
      settings.distortion := by
    cases settings.distortion <;> rfl
  have hname : (Except.ok settings.pixFmt.toString : Except String String).toOption =
      some settings.pixFmt.toString := rfl
  simp [-Option.map_map, read, serialize, Json.getObject, Json.optObject, Json.optArray, Json.get,
    Json.getDefault, Json.getOpt, Except.mapError, Bind.bind, Except.bind, Pure.pure, Except.pure,
    CameraResolution.read_serialize, CameraIntrinsics.read_serialize,
    mapM_map_ok CameraDistortion.read_serialize, mapM_map_ok CameraExtrinsics.read_serialize, hcoefs,
    hname]

/-! ## Round trips -/

/-- When two settings are equal. -/
theorem equal_iff (lhs rhs : CameraSettings) :
    lhs.equal rhs = true ↔ lhs.id = rhs.id ∧ lhs.serialId = rhs.serialId ∧ lhs.pixFmt = rhs.pixFmt ∧
      optEqual CameraDistortion.equal lhs.distortion rhs.distortion = true ∧
      optEqual CameraExtrinsics.equal lhs.extrinsics rhs.extrinsics = true ∧
      lhs.intrinsics.equal rhs.intrinsics = true ∧ lhs.resolution = rhs.resolution ∧
      lhs.exposure = rhs.exposure ∧ lhs.frameRate = rhs.frameRate ∧
      lhs.reconnectTimeout = rhs.reconnectTimeout := by
  unfold equal
  simp only [Bool.and_eq_true, decide_eq_true_eq, and_assoc]

theorem equal_self (settings : CameraSettings) : settings.equal settings = true := by
  rw [equal_iff]
  refine ⟨rfl, rfl, rfl, ?_, ?_, CameraIntrinsics.equal_self _, rfl, rfl, rfl, rfl⟩
  · exact optEqual_self CameraDistortion.equal_self _
  · exact optEqual_self CameraExtrinsics.equal_self _

/-- Settings that are written and then read into a new object come to the same. -/
def RoundTrips (poco : Poco) (settings : CameraSettings) : Prop :=
  ∃ loaded, deserialize poco (settings.serialize []) {} = .ok () loaded ∧
    loaded.equal settings = true

theorem deserialize_serialize (settings old : CameraSettings) :
    deserialize poco (settings.serialize []) old =
      .ok () (putOver { settings with pixFmt := .fromString settings.pixFmt.toString } old) :=
  (deserialize_loads _ old).ok _ (read_serialize settings)

theorem putOver_new (settings : CameraSettings) : settings.putOver {} = settings := by
  unfold putOver
  simp only [Option.or_none]

/-- Settings come back exactly when the name of their format does. -/
theorem roundTrips_iff_name (settings : CameraSettings) :
    settings.RoundTrips poco ↔
      PixFmtValue.fromString settings.pixFmt.toString = settings.pixFmt := by
  unfold RoundTrips
  rw [deserialize_serialize, putOver_new]
  constructor
  · rintro ⟨loaded, hloaded, hequal⟩
    cases hloaded
    exact ((equal_iff _ _).mp hequal).2.2.1
  · intro hname
    refine ⟨_, rfl, ?_⟩
    rw [hname]
    exact equal_self settings

end CameraSettings

namespace PixFmtValue

/-- Every format has a name of its own, the end of the enumeration has none. -/
theorem fromString_toString_iff (pixFmt : PixFmtValue) :
    fromString pixFmt.toString = pixFmt ↔ pixFmt ≠ .endOf := by
  rcases pixFmt with (_ | _ | _ | _ | _ | _) | _ <;> decide +kernel

end PixFmtValue

/-- A point comes back from what it is written to. -/
theorem deserialize_serialize_point (point old : Point2D) :
    Point2D.deserialize poco (point.serialize []) old = .ok () point := by
  have hx : Json.get poco .int (point.serialize []) "x" = .ok point.x := by
    simp [Point2D.serialize]
  have hy : Json.get poco .int (point.serialize []) "y" = .ok point.y := by
    simp [Point2D.serialize]
  unfold Point2D.deserialize
  rw [hx, hy]
  rfl

namespace Rect

/-- A rectangle that is written and then read into a new object comes to the same. -/
def RoundTrips (poco : Poco) (rect : Rect) : Prop :=
  deserialize poco (rect.serialize []) empty = .ok () rect

/-- The points are written as they are, and objects are read in their place. -/
theorem deserialize_serialize (rect : Rect) (container : ObjectJSON) (old : Rect) :
    deserialize poco (rect.serialize container) old = .error (.missingObject "point0") old := by
  have hpoint : Json.getObject (rect.serialize container) "point0" =
      .error (.missingObject "point0") := by
    simp [serialize, Json.getObject, Json.optObject]
    rfl
  unfold deserialize
  rw [hpoint]
  rfl

end Rect

/-- Settings come back from what they were written to exactly when the pixel format is not the end
of its enumeration.  A rectangle never does. -/
theorem roundTrips_iff (poco : Poco) :
    (∀ settings : CameraSettings, settings.RoundTrips poco ↔ settings.pixFmt ≠ .endOf) ∧
      ∀ rect : Rect, ¬rect.RoundTrips poco := by
  constructor
  · intro settings
    rw [CameraSettings.roundTrips_iff_name, PixFmtValue.fromString_toString_iff]
  · intro rect hround
    unfold Rect.RoundTrips at hround
    rw [Rect.deserialize_serialize] at hround
    cases hround

/-- Values of another type are not converted. -/
def strictPoco : Poco where
  toString _ := .error "Bad cast exception"
  toInt _ := .error "Bad cast exception"
  toInt64 _ := .error "Bad cast exception"
  toUInt64 _ := .error "Bad cast exception"
  toDouble _ := .error "Bad cast exception"
  invalidAccess := "Invalid access"
  badCast := "Bad cast exception"

/-- A rectangle does not read back. -/
theorem rect_not_read :
    ¬∀ poco : Poco, (∀ settings : CameraSettings, settings.RoundTrips poco) ∧
      ∀ rect : Rect, rect.RoundTrips poco := by
  intro hclaim
  have hround := (hclaim strictPoco).2 ⟨0, 0, 1, 1⟩
  unfold Rect.RoundTrips at hround
  rw [Rect.deserialize_serialize] at hround
  cases hround

end Video

end Seekira.Model
