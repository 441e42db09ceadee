import Seekira.Model.VideoFrame

/-!
# Fitting a frame into the configured size

In the modes `ScaleByMin` and `Padding` the resizer keeps the aspect ratio of the frame and takes
the shorter side of the configured size for the one that the frame is scaled to.  Which side the
frame has to be scaled to depends on its own shape too: the other side comes out too long when the
frame is more elongated than the configured size.
-/

set_option autoImplicit false

namespace Seekira.Model.Video.EffectResizer

variable {settings : SettingsResizer} {size : FrameSize}

/-- The modes that scale a frame to the shorter side of the configured size. -/
def ScalesByMin (settings : SettingsResizer) : Prop :=
  settings.sizeMode = .padding ∨ settings.sizeMode = .scaleByMin

/-- The scaled size lies in the configured one and has one of its sides, and in the mode `Padding`
the scaled frame lies in the padded image. -/
structure Fits (settings : SettingsResizer) (size : FrameSize) : Prop where
  width_le : (newFrameSize settings size).width ≤ settings.frameSize.width
  height_le : (newFrameSize settings size).height ≤ settings.frameSize.height
  side : (newFrameSize settings size).width = settings.frameSize.width ∨
    (newFrameSize settings size).height = settings.frameSize.height
  pads : settings.sizeMode = .padding → ∀ (cv : OpenCv) (mat : Mat),
    ∃ out, pad cv settings (newFrameSize settings size) mat = .ok out

/-- The frame is not more elongated than the configured size, along the longer side of that, up to
one pixel. -/
def NotElongated (frame size : FrameSize) : Prop :=
  if frame.width < frame.height then size.height * frame.width < (frame.height + 1) * size.width
  else size.width * frame.height < (frame.width + 1) * size.height

instance (frame size : FrameSize) : Decidable (NotElongated frame size) := by
  unfold NotElongated
  infer_instance

/-- With scaling by the minimum one side is fitted. -/
theorem newFrameSize_of_scalesByMin (h : ScalesByMin settings) :
    newFrameSize settings size =
      if settings.frameSize.width < settings.frameSize.height then
        fitHeight size settings.frameSize
      else fitWidth size settings.frameSize := by
  unfold newFrameSize
  rcases h with h | h <;> rw [h]

/-- The truncated side is at most `n` when the exact one is below `n + 1`. -/
theorem truncated_le_iff {a b n : Nat} (hb : 0 < b) : a / b ≤ n ↔ a < (n + 1) * b := by
  rw [← Nat.lt_succ_iff, Nat.div_lt_iff_lt_mul hb]

/-- A rectangle in the image is not refused. -/
theorem pad_of_le {cv : OpenCv} {new : FrameSize} {mat : Mat}
    (hwidth : new.width ≤ settings.frameSize.width)
    (hheight : new.height ≤ settings.frameSize.height) :
    ∃ out, pad cv settings new mat = .ok out := by
  unfold pad
  split
  · exact ⟨mat, rfl⟩
  · rw [if_neg (not_or.mpr ⟨Nat.not_lt.mpr hwidth, Nat.not_lt.mpr hheight⟩)]
    exact ⟨_, rfl⟩

/-- In the modes `ScaleByMin` and `Padding` the scaled size fits into the configured one exactly for
the frames that are not more elongated along its longer side. -/
theorem fits_iff (hmode : ScalesByMin settings) (hwidth : 0 < size.width)
    (hheight : 0 < size.height) : Fits settings size ↔ NotElongated settings.frameSize size := by
  have hnew : newFrameSize settings size = _ := newFrameSize_of_scalesByMin hmode
  unfold NotElongated
  split at hnew
  · rename_i hshape
    rw [if_pos hshape, ← truncated_le_iff hwidth]
    constructor
    · intro h
      have hle := h.height_le
      rwa [hnew] at hle
    · intro hle
      have hnewWidth : (newFrameSize settings size).width = settings.frameSize.width := by
        rw [hnew, fitHeight]
      have hnewHeight : (newFrameSize settings size).height ≤ settings.frameSize.height := by
        rwa [hnew]
      exact ⟨hnewWidth.le, hnewHeight, .inl hnewWidth,
        fun _ _ _ => pad_of_le hnewWidth.le hnewHeight⟩
  · rename_i hshape
    rw [if_neg hshape, ← truncated_le_iff hheight]
    constructor
    · intro h
      have hle := h.width_le
      rwa [hnew] at hle
    · intro hle
      have hnewHeight : (newFrameSize settings size).height = settings.frameSize.height := by
        rw [hnew, fitWidth]
      have hnewWidth : (newFrameSize settings size).width ≤ settings.frameSize.width := by
        rwa [hnew]
      exact ⟨hnewWidth, hnewHeight.le, .inr hnewHeight,
        fun _ _ _ => pad_of_le hnewWidth hnewHeight.le⟩

/-- Frames are padded to a square of 100 pixels. -/
def squarePadding : SettingsResizer := ⟨.linear, .padding, ⟨100, 100⟩⟩

/-- An upright frame in a square with padding. -/
theorem fits_iff_square :
    Fits squarePadding ⟨80, 100⟩ ↔ NotElongated squarePadding.frameSize ⟨80, 100⟩ :=
  fits_iff (.inl rfl) (by decide) (by decide)

/-- A frame twice as wide as high is scaled to 200 by 100 pixels. -/
theorem wide_frame_overflows : ¬∀ (settings : SettingsResizer) (size : FrameSize),
    ScalesByMin settings → 0 < size.width → 0 < size.height → 0 < settings.frameSize.width →
    0 < settings.frameSize.height → settings.frameSize ≠ size → Fits settings size := by
  intro h
  have hle := (h squarePadding ⟨200, 100⟩ (.inl rfl) (by decide) (by decide) (by decide) (by decide)
    (by decide)).width_le
  exact absurd hle (by decide)

end Seekira.Model.Video.EffectResizer
