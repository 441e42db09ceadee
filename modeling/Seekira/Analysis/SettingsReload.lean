import Seekira.Analysis.SettingsRoundTrip
import Seekira.Library.Proc

/-!
# Settings that are loaded again

Loading settings puts what they say over what the object held.  Where they say nothing, a
distortion, a pose and a timeout of an earlier load stay, and a distortion that is loaded again gets its
coefficients behind those it has.
-/

set_option autoImplicit false

namespace Seekira.Model.Video

open Library

variable {poco : Poco}

/-- Parts that are read are equal, others stay as they were. -/
theorem optEqual_or {α : Type} {equal : α → α → Bool} (hself : ∀ x, equal x x = true)
    (o a b : Option α) :
    optEqual equal (o.or a) (o.or b) = true ↔ o.isSome = true ∨ optEqual equal a b = true := by
  cases o with
  | none => simp
  | some x => simp [optEqual, hself]

theorem or_eq_or_iff {α : Type} (o a b : Option α) : o.or a = o.or b ↔ o.isSome = true ∨ a = b := by
  cases o <;> simp

/-- A part is read when it is there. -/
theorem isSome_of_mapM {ε α β : Type} {f : α → Except ε β} {o : Option α} {found : Option β}
    (h : o.mapM f = .ok found) : found.isSome = o.isSome := by
  cases o with
  | none =>
    cases h
    rfl
  | some a =>
    obtain ⟨b, -, hb⟩ := Proc.except_bind_inv h
    cases hb
    rfl

namespace CameraSettings

/-! ## What stays of the past -/

/-- Settings over two old ones come to the same when they, or the old ones, agree on what may be
absent. -/
theorem putOver_equal_iff (settings a b : CameraSettings) :
    (settings.putOver a).equal (settings.putOver b) = true ↔
      (settings.distortion.isSome = true ∨
        optEqual CameraDistortion.equal a.distortion b.distortion = true) ∧
      (settings.extrinsics.isSome = true ∨
        optEqual CameraExtrinsics.equal a.extrinsics b.extrinsics = true) ∧
      (settings.reconnectTimeout.isSome = true ∨ a.reconnectTimeout = b.reconnectTimeout) := by
  rw [equal_iff]
  unfold putOver
  simp only [optEqual_or CameraDistortion.equal_self, optEqual_or CameraExtrinsics.equal_self,
    CameraIntrinsics.equal_self, or_eq_or_iff, true_and]

/-- Which parts are absent from what is read. -/
theorem read_isSome {container : ObjectJSON} {settings : CameraSettings}
    (h : read poco container = .ok settings) :
    settings.distortion.isSome = (Json.optArray container "distortion").isSome ∧
      settings.extrinsics.isSome = (Json.optObject container "pose").isSome ∧
      settings.reconnectTimeout = Json.getOpt poco .timeType container "reconnect_timeout" := by
  obtain ⟨id, -, h⟩ := Proc.except_bind_inv h
  obtain ⟨serialId, -, h⟩ := Proc.except_bind_inv h
  obtain ⟨resolutionJson, -, h⟩ := Proc.except_bind_inv h
  obtain ⟨resolution, -, h⟩ := Proc.except_bind_inv h
  obtain ⟨intrinsicsJson, -, h⟩ := Proc.except_bind_inv h
  obtain ⟨intrinsics, -, h⟩ := Proc.except_bind_inv h
  obtain ⟨coefs, hcoefs, h⟩ := Proc.except_bind_inv h
  obtain ⟨extrinsics, hextrinsics, h⟩ := Proc.except_bind_inv h
  cases h
  refine ⟨?_, isSome_of_mapM hextrinsics, rfl⟩
  rw [Option.isSome_map]
  exact isSome_of_mapM hcoefs

/-- Whether an object can be loaded does not depend on the settings it is loaded into. -/
theorem deserialize_succeeds_iff (container : ObjectJSON) (a b : CameraSettings) :
    (∃ a', deserialize poco container a = .ok () a') ↔
      ∃ b', deserialize poco container b = .ok () b' :=
  (deserialize_loads container a).succeeds_iff (deserialize_loads container b)

/-- An object and two settings that agree on what loading the object leaves alone. -/
structure Agree (poco : Poco) (container : ObjectJSON) (a b : CameraSettings) : Prop where
  distortion : (Json.optArray container "distortion").isSome = true ∨
    optEqual CameraDistortion.equal a.distortion b.distortion = true
  extrinsics : (Json.optObject container "pose").isSome = true ∨
    optEqual CameraExtrinsics.equal a.extrinsics b.extrinsics = true
  reconnectTimeout : (Json.getOpt poco .timeType container "reconnect_timeout").isSome = true ∨
    a.reconnectTimeout = b.reconnectTimeout

/-- Two settings that one object has been loaded into are equal exactly when they agreed before on
what it does not say.  Two distortions that one array has been loaded into are equal exactly when
they were before. -/
theorem reloaded_equal_iff (poco : Poco) :
    (∀ (container : ObjectJSON) (a b a' b' : CameraSettings),
      deserialize poco container a = .ok () a' → deserialize poco container b = .ok () b' →
        (a'.equal b' = true ↔ Agree poco container a b)) ∧
    ∀ (container : ArrayJSON) (a b a' b' : CameraDistortion),
      CameraDistortion.deserialize poco container a = .ok () a' →
        CameraDistortion.deserialize poco container b = .ok () b' →
          (a'.equal b' = true ↔ a.equal b = true) := by
  constructor
  · intro container a b a' b' ha hb
    obtain ⟨settings, hread, rfl, rfl⟩ :=
      (deserialize_loads container a).agree (deserialize_loads container b) ha hb
    obtain ⟨hdistortion, hextrinsics, htimeout⟩ := read_isSome hread
    rw [putOver_equal_iff, hdistortion, hextrinsics, htimeout]
    constructor
    · rintro ⟨h₁, h₂, h₃⟩
      exact ⟨h₁, h₂, h₃⟩
    · rintro ⟨h₁, h₂, h₃⟩
      exact ⟨h₁, h₂, h₃⟩
  · intro container a b a' b' ha hb
    obtain ⟨coefs, -, rfl, rfl⟩ := (CameraDistortion.deserialize_loads container a).agree
      (CameraDistortion.deserialize_loads container b) ha hb
    unfold CameraDistortion.equal
    rw [Utils.compareAll_append]

/-! ### A distortion of an earlier load -/

/-- New settings as they are written; they say no distortion. -/
def bareSettings : ObjectJSON := ({} : CameraSettings).serialize []

/-- Settings with a distortion. -/
def distorted : CameraSettings := { distortion := some ⟨[1]⟩ }

/-- An earlier distortion stays when the settings have none. -/
theorem earlier_distortion_stays :
    ¬∀ poco : Poco,
      (∀ (container : ObjectJSON) (a b a' b' : CameraSettings),
        deserialize poco container a = .ok () a' → deserialize poco container b = .ok () b' →
          a'.equal b' = true) ∧
      ∀ (container : ArrayJSON) (a b a' b' : CameraDistortion),
        CameraDistortion.deserialize poco container a = .ok () a' →
          CameraDistortion.deserialize poco container b = .ok () b' → a'.equal b' = true := by
  intro hclaim
  have hequal := (hclaim strictPoco).1 bareSettings {} distorted _ _ (deserialize_serialize {} _)
    (deserialize_serialize {} _)
  revert hequal
  decide +kernel

/-- Settings without a distortion over some that have one. -/
theorem reloaded_equal_iff_distorted :
    ∃ a' b', deserialize strictPoco bareSettings {} = .ok () a' ∧
      deserialize strictPoco bareSettings distorted = .ok () b' ∧ a'.equal b' = false ∧
        ¬Agree strictPoco bareSettings {} distorted := by
  have ha : deserialize strictPoco bareSettings {} = .ok () _ := deserialize_serialize {} _
  have hb : deserialize strictPoco bareSettings distorted = .ok () _ := deserialize_serialize {} _
  have hiff := (reloaded_equal_iff strictPoco).1 bareSettings {} distorted _ _ ha hb
  have hagree : ¬Agree strictPoco bareSettings {} distorted := by
    rintro ⟨hdistortion, -, -⟩
    revert hdistortion
    decide +kernel
  refine ⟨_, _, ha, hb, ?_, hagree⟩
  rw [Bool.eq_false_iff]
  exact fun hequal => hagree (hiff.mp hequal)

end CameraSettings

end Seekira.Model.Video
