import Mathlib.Tactic.FieldSimp
import Mathlib.Tactic.NormNum
import Mathlib.Tactic.Positivity
import Mathlib.Tactic.Ring
import Seekira.Analysis.DeliveredFrames
import Seekira.Model.PersonDetector

/-!
# Boxes in the resized frame and in the source frame

The resizer scales both sides of a frame to those of the resized image; `YoloxWrapper` scales
a box back as if the image had the configured size.  The two undo each other exactly when the
resized image fills the configured size.
-/

set_option autoImplicit false

namespace Seekira.Model.Video

/-- The size that a frame is resized to in this mode is the configured one. -/
def SizeMode.Fills (mode : SizeMode) (network size : FrameSize) : Prop :=
  match mode with
  | .undefined | .direct => True
  | .halfDownscale | .quaterDownscale => False
  | .scaleByMax =>
    if network.height < network.width then
      size.height * network.width / size.width = network.height
    else size.width * network.height / size.height = network.width
  | .padding | .scaleByMin =>
    if network.width < network.height then
      size.height * network.width / size.width = network.height
    else size.width * network.height / size.height = network.width

/-! ## Scaling there and back -/

section Scaling

variable {w : YoloxWrapper} {size new : FrameSize}

/-- Rescaling undoes the scale of the network's image. -/
theorem rescale_scale (hwidth : 0 < size.width) (hheight : 0 < size.height) (rect : RectF) :
    w.rescale size (rect.scale (new.width / size.width) (new.height / size.height)) =
      rect.scale (new.width / w.frameSize.width) (new.height / w.frameSize.height) := by
  have hx : (size.width : ℚ) ≠ 0 := by positivity
  have hy : (size.height : ℚ) ≠ 0 := by positivity
  have hside (a n s c : ℚ) (hs : s ≠ 0) : a * (n / s) * (s / c) = a * (n / c) := by
    rw [mul_assoc, div_mul_div_cancel₀ hs]
  simp only [YoloxWrapper.rescale, RectF.scale, add_mul, hside _ _ _ _ hx, hside _ _ _ _ hy,
    add_sub_cancel_left]

/-- A box keeps its sides when it is scaled by the sides of two images of the same size only. -/
theorem scale_eq_self_iff (hwidth : 0 < new.width) (hheight : 0 < new.height) :
    (∀ rect : RectF, rect.scale (new.width / w.frameSize.width) (new.height / w.frameSize.height) =
      rect) ↔ new = w.frameSize := by
  constructor
  · intro h
    have hrect := h ⟨1, 1, 1, 1⟩
    simp only [RectF.scale, one_mul, RectF.mk.injEq] at hrect
    have hside {a b : Nat} (ha : 0 < a) (hab : (a : ℚ) / b = 1) : a = b := by
      have hb : (b : ℚ) ≠ 0 := by
        rintro hb
        rw [hb, div_zero] at hab
        exact zero_ne_one hab
      exact_mod_cast (div_eq_one_iff_eq hb).mp hab
    have hw := hside hwidth hrect.1
    have hh := hside hheight hrect.2.1
    cases new
    simp_all
  · rintro rfl rect
    have hx : (w.frameSize.width : ℚ) ≠ 0 := by positivity
    have hy : (w.frameSize.height : ℚ) ≠ 0 := by positivity
    simp only [RectF.scale, div_self hx, div_self hy, mul_one]

end Scaling

/-! ## The two sizes -/

/-- What the resizer's size has to do with the configured one, for a frame that it resizes. -/
theorem newFrameSize_eq_iff {settings : SettingsResizer} {size : FrameSize}
    (hwidth : 0 < (EffectResizer.newFrameSize settings size).width) :
    EffectResizer.newFrameSize settings size = settings.frameSize ↔
      settings.sizeMode.Fills settings.frameSize size := by
  have hfitHeight (new : FrameSize) : EffectResizer.fitHeight size new = new ↔
      size.height * new.width / size.width = new.height := by
    cases new
    simp [EffectResizer.fitHeight]
  have hfitWidth (new : FrameSize) : EffectResizer.fitWidth size new = new ↔
      size.width * new.height / size.height = new.width := by
    cases new
    simp [EffectResizer.fitWidth]
  unfold EffectResizer.newFrameSize at hwidth ⊢
  unfold SizeMode.Fills
  cases hmode : settings.sizeMode
  case undefined | direct => simp
  case halfDownscale | quaterDownscale =>
    simp only [hmode] at hwidth ⊢
    refine iff_of_false (fun h => ?_) not_false
    have hw := congrArg FrameSize.width h
    simp only at hw
    omega
  case scaleByMin | scaleByMax | padding =>
    simp only
    split
    · exact hfitHeight settings.frameSize
    · exact hfitWidth settings.frameSize

/-- A frame that is resized has a picture, and so has the resized one. -/
theorem EffectResizer.sizes_pos {cv : OpenCv} (hcv : cv.Lawful) {now : TimestampFF}
    {settings : SettingsResizer} {input out : Frame}
    (h : EffectResizer.process cv now settings input = .ok out)
    (hsize : settings.frameSize ≠ input.size) :
    (0 < input.size.width ∧ 0 < input.size.height) ∧
      0 < (newFrameSize settings input.size).width ∧
      0 < (newFrameSize settings input.size).height := by
  unfold EffectResizer.process at h
  rw [if_neg hsize, Frame.cloneDeep_eq] at h
  obtain ⟨mat, hmat, h⟩ := Library.Proc.except_bind_inv h
  obtain ⟨interpolation, -, h⟩ := Library.Proc.except_bind_inv h
  obtain ⟨resized, hresize, -⟩ := Library.Proc.except_bind_inv h
  obtain ⟨type, -, hmat⟩ := Library.Proc.except_bind_inv hmat
  cases hmat
  exact ⟨hcv.resize_source hresize, hcv.resize_target hresize⟩

/-! ## The detector -/

section Detector

variable {cv : OpenCv} {now : TimestampFF} {d : PersonDetector} {frame resized : Frame}
  {output : List YoloObject}

/-- One object in the resized frame comes back with its box rescaled. -/
theorem yolox_process_single (w : YoloxWrapper) (object : YoloObject) (size : FrameSize) :
    w.process [object] size = [{ object with rect := w.rescale size object.rect }] := by
  simp [YoloxWrapper.process, YoloxWrapper.nmsSortedBboxes]

/-- An object of the source frame, found where the resizer maps it, is returned where it was, for
all objects exactly if the frame is not resized or the resized image fills the configured size.
The network takes no empty frame. -/
theorem boxes_return_iff (hcv : cv.Lawful)
    (hnet : ∀ f found, d.net f = .ok found → 0 < f.size.width ∧ 0 < f.size.height)
    (hresized : EffectResizer.process cv now d.resizer frame = .ok resized)
    (haccepted : d.net resized = .ok output) :
    (∀ object : YoloObject, d.yolox.process
        [{ object with rect := EffectResizer.mapRect d.resizer frame.size object.rect }]
        frame.size = [object]) ↔
      d.resizer.frameSize = frame.size ∨
        d.resizer.sizeMode.Fills d.resizer.frameSize frame.size := by
  have hrects : (∀ object : YoloObject, d.yolox.process
        [{ object with rect := EffectResizer.mapRect d.resizer frame.size object.rect }]
        frame.size = [object]) ↔
      ∀ rect, d.yolox.rescale frame.size
        (EffectResizer.mapRect d.resizer frame.size rect) = rect := by
    simp only [yolox_process_single, List.cons.injEq, and_true]
    constructor
    · intro h rect
      exact congrArg YoloObject.rect (h ⟨rect, 0, 0⟩)
    · intro h object
      rw [h]
  rw [hrects]
  by_cases hsize : d.resizer.frameSize = frame.size
  · refine iff_of_true (fun rect => ?_) (.inl hsize)
    have hsame : resized = frame := by
      rcases EffectResizer.process_cases hresized with ⟨-, hout⟩ | ⟨hne, -⟩
      · exact hout
      · exact absurd hsize hne
    obtain ⟨hwidth, hheight⟩ := hnet _ _ haccepted
    rw [hsame] at hwidth hheight
    have hx : (frame.size.width : ℚ) ≠ 0 := by positivity
    have hy : (frame.size.height : ℚ) ≠ 0 := by positivity
    unfold EffectResizer.mapRect
    rw [if_pos hsize]
    simp [YoloxWrapper.rescale, PersonDetector.yolox, hsize, hx, hy]
  · obtain ⟨⟨hwidth, hheight⟩, hnewWidth, hnewHeight⟩ :=
      EffectResizer.sizes_pos hcv hresized hsize
    unfold EffectResizer.mapRect
    rw [or_iff_right hsize, ← newFrameSize_eq_iff hnewWidth]
    simp only [if_neg hsize, rescale_scale hwidth hheight]
    exact scale_eq_self_iff hnewWidth hnewHeight

end Detector

/-! ### A tall frame that is padded -/

/-- The image library of the example resizes as it should. -/
theorem lawful_flatCv : flatCv.Lawful where
  resize_cols h := by
    unfold flatCv at h
    dsimp only at h
    split at h
    · cases h
    · cases h
      rfl
  resize_rows h := by
    unfold flatCv at h
    dsimp only at h
    split at h
    · cases h
    · cases h
      rfl
  resize_source h := by
    unfold flatCv at h
    dsimp only at h
    split at h
    · cases h
    · omega
  resize_target h := by
    unfold flatCv at h
    dsimp only at h
    split at h
    · cases h
    · omega

/-- One column of two gray pixels. -/
def tallFrame : Frame := ⟨[7, 7], ⟨1, 2⟩, 1, .gray, 0, 40000, rfl⟩

/-- A detector whose network takes every picture and finds nothing in it. -/
def detector (mode : SizeMode) : PersonDetector where
  resizer := ⟨.linear, mode, ⟨4, 4⟩⟩
  net f := if f.size.width = 0 ∨ f.size.height = 0 then .error .std else .ok []

/-- The network of the example gets frames with pixels only. -/
theorem net_detector (mode : SizeMode) (f : Frame) (found : List YoloObject)
    (h : (detector mode).net f = .ok found) : 0 < f.size.width ∧ 0 < f.size.height := by
  unfold detector at h
  dsimp only at h
  split at h
  · cases h
  · omega

/-- Resized to the network's size, the tall frame's boxes come back. -/
theorem boxes_return_iff_direct : ∃ resized,
    EffectResizer.process flatCv 900 (detector .direct).resizer tallFrame = .ok resized ∧
    ((∀ object : YoloObject, (detector .direct).yolox.process
        [{ object with
          rect := EffectResizer.mapRect (detector .direct).resizer tallFrame.size object.rect }]
        tallFrame.size = [object]) ↔
      (detector .direct).resizer.frameSize = tallFrame.size ∨
        (detector .direct).resizer.sizeMode.Fills (detector .direct).resizer.frameSize
          tallFrame.size) := by
  have hresized : EffectResizer.process flatCv 900 (detector .direct).resizer tallFrame =
    .ok ⟨List.replicate 16 7, ⟨4, 4⟩, 4, .gray, 900, -1, rfl⟩ := rfl
  exact ⟨_, hresized, boxes_return_iff lawful_flatCv (net_detector .direct) hresized rfl⟩

/-- Padded, the tall frame fills two of four columns; a box of the whole frame comes back half as
wide. -/
theorem padded_box_shrinks :
    ∃ resized output,
      EffectResizer.process flatCv 900 (detector .padding).resizer tallFrame = .ok resized ∧
      (detector .padding).net resized = .ok output ∧
      EffectResizer.mapRect (detector .padding).resizer tallFrame.size ⟨0, 0, 1, 2⟩ =
        ⟨0, 0, 2, 4⟩ ∧
      (detector .padding).yolox.process [⟨⟨0, 0, 2, 4⟩, 1, 0⟩] tallFrame.size =
        [⟨⟨0, 0, 1 / 2, 2⟩, 1, 0⟩] := by
  refine ⟨_, _, rfl, rfl, ?_, ?_⟩
  · norm_num [EffectResizer.mapRect, EffectResizer.newFrameSize, EffectResizer.fitWidth, detector,
      tallFrame, RectF.scale]
  · rw [yolox_process_single]
    norm_num [YoloxWrapper.rescale, PersonDetector.yolox, detector, tallFrame]

end Seekira.Model.Video
