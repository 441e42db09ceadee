import Mathlib.Algebra.Ring.Int.Defs
import Seekira.Analysis.ParserCorrections

/-!
# Timestamps of a transport stream across the wrap

MPEG-TS timestamps have 33 bits.  `mpeg_ts_time_stamp_wrap_around` recognises a timestamp after the
wrap by the start of the stream, and adds the greatest 33-bit number where the period, which is one
more, was meant.
-/

set_option autoImplicit false

namespace Seekira.Model.ParserFF

/-- The period of the timestamps. -/
def mpegTsPeriod : Int := 2 ^ 33

/-- The true time `t` is what the wrapped timestamp is taken for, and what `read_packet` makes of it
is the time since `start`, for both timestamps of a packet. -/
structure Unwraps (start t : Int) : Prop where
  time : mpegTsTimeStampWrapAround start (t % mpegTsPeriod) = t
  elapsed : ∀ (m : ParserFF) (stream : Int) (packet : AVPacket), m.formatMpegTs = true →
    (m.streams stream).startTime ≠ avNoPtsValue → m.timeShift stream = start →
    (packet.pts = t % mpegTsPeriod → (m.correctByShift stream packet).1.pts = t - start) ∧
      (packet.dts = t % mpegTsPeriod → (m.correctByShift stream packet).1.dts = t - start)

/-- A timestamp from before the wrap is its time. -/
theorem wrapAround_of_lt {start t : Int} (hstart : 0 ≤ start) (hle : start ≤ t)
    (hlt : t < mpegTsPeriod) : mpegTsTimeStampWrapAround start (t % mpegTsPeriod) = t := by
  rw [Int.emod_eq_of_lt (Int.le_trans hstart hle) hlt]
  unfold mpegTsPeriod at hlt
  unfold mpegTsTimeStampWrapAround
  rw [if_neg]
  lia

/-- A timestamp from after the wrap comes out one tick too early. -/
theorem wrapAround_of_wrapped {start t : Int} (hstart : start < mpegTsPeriod)
    (hlt : t < start + 2 ^ 32) (hwrapped : mpegTsPeriod ≤ t) :
    mpegTsTimeStampWrapAround start (t % mpegTsPeriod) = t - 1 := by
  unfold mpegTsPeriod at *
  have hmod : t % 2 ^ 33 = t - 2 ^ 33 := by omega
  unfold mpegTsTimeStampWrapAround
  rw [hmod, if_pos (by lia)]
  lia

/-- The shift of a transport stream after the wrap. -/
theorem correctByShift_mpegTs {m : ParserFF} {stream : Int} (packet : AVPacket)
    (hformat : m.formatMpegTs = true) (hstart : (m.streams stream).startTime ≠ avNoPtsValue) :
    (m.correctByShift stream packet).1 =
      { packet with
        pts :=
          if m.wrapped stream packet.pts ≠ avNoPtsValue then
            m.wrapped stream packet.pts - m.timeShift stream
          else m.wrapped stream packet.pts
        dts :=
          if m.wrapped stream packet.dts ≠ avNoPtsValue then
            m.wrapped stream packet.dts - m.timeShift stream
          else m.wrapped stream packet.dts } := by
  unfold correctByShift wrapped
  dsimp only
  rw [if_pos hformat, if_pos hstart]
  simp only [if_pos hformat]

/-- From its start on and for half a period, a transport stream keeps its times exactly until the
wrap. -/
theorem unwraps_iff {start t : Int} (hstart : 0 ≤ start) (hperiod : start < 2 ^ 33)
    (hle : start ≤ t) (hlt : t < start + 2 ^ 32) : Unwraps start t ↔ t < 2 ^ 33 := by
  constructor
  · intro h
    by_contra hwrapped
    have htime := h.time
    rw [wrapAround_of_wrapped hperiod hlt (Int.not_lt.mp hwrapped)] at htime
    lia
  · intro hbefore
    have htime := wrapAround_of_lt hstart hle hbefore
    refine ⟨htime, fun m stream packet hformat hknown hshift => ?_⟩
    have hkept : ∀ u, u = t % mpegTsPeriod → m.wrapped stream u = t := by
      rintro u rfl
      rw [wrapped, if_pos hformat, hshift, htime]
    have htimed : t ≠ avNoPtsValue := by
      unfold avNoPtsValue
      omega
    rw [correctByShift_mpegTs packet hformat hknown]
    dsimp only
    constructor
    · intro hpts
      rw [hkept _ hpts, if_pos htimed, hshift]
    · intro hdts
      rw [hkept _ hdts, if_pos htimed, hshift]

/-- The last time before a wrap. -/
theorem unwraps_iff_last : Unwraps 8589934591 8589934591 ↔ (8589934591 : Int) < 2 ^ 33 :=
  unwraps_iff (by decide) (by decide) (by decide) (by decide)

/-- A stream starts with the greatest timestamp, and its next one is zero. -/
theorem tick_lost : ¬∀ start t : Int, 0 ≤ start → start < 2 ^ 33 → start ≤ t →
    t < start + 2 ^ 32 → Unwraps start t := by
  intro h
  have htime := (h 8589934591 8589934592 (by decide) (by decide) (by decide) (by decide)).time
  exact absurd htime (by decide)

end Seekira.Model.ParserFF
