import Mathlib.Data.List.Pairwise
import Mathlib.Tactic.NormNum
import Seekira.Library.GreedySelection
import Seekira.Model.PersonDetector

/-!
# Suppressed boxes

`nms_sorted_bboxes` keeps a box unless it overlaps too much with one kept before.  The overlap of
two boxes is the same from either side, so no two kept boxes overlap too much; and a dropped box has a
kept one before it, which after the sort has at least its probability.
-/

set_option autoImplicit false

namespace Seekira.Model.Video

open Library

namespace RectF

/-- The area of the common part. -/
def interArea (r r' : RectF) : ℚ := (r.inter r').area

def unionArea (r r' : RectF) : ℚ := r.area + r'.area - r.interArea r'

/-- The common part of the rectangles is more than the given part of their union. -/
def Overlaps (threshold : ℚ) (r r' : RectF) : Prop :=
  r.unionArea r' ≠ 0 ∧ threshold < r.interArea r' / r.unionArea r'

theorem inter_comm (r r' : RectF) : r.inter r' = r'.inter r := by
  unfold inter
  rw [max_comm r.x, max_comm r.y, min_comm (r.x + r.width), min_comm (r.y + r.height)]

/-- Overlapping is symmetric. -/
theorem overlaps_comm {threshold : ℚ} {r r' : RectF} :
    Overlaps threshold r r' ↔ Overlaps threshold r' r := by
  have hinter : r.interArea r' = r'.interArea r := by
    unfold interArea
    rw [inter_comm]
  have hunion : r.unionArea r' = r'.unionArea r := by
    unfold unionArea
    rw [hinter, add_comm]
  unfold Overlaps
  rw [hinter, hunion]

/-- A quotient by zero is not above the threshold. -/
theorem lt_div_iff_overlaps {threshold : ℚ} (hthreshold : 0 ≤ threshold) (r r' : RectF) :
    threshold < r.interArea r' / r.unionArea r' ↔ Overlaps threshold r r' := by
  constructor
  · intro hlt
    refine ⟨?_, hlt⟩
    intro hzero
    rw [hzero, div_zero] at hlt
    exact absurd hlt (not_lt.mpr hthreshold)
  · exact And.right

end RectF

namespace YoloxWrapper

variable {w : YoloxWrapper} {objects : List YoloObject}

/-- The test of the inner loop. -/
def suppresses (w : YoloxWrapper) (object other : YoloObject) : Bool :=
  decide (w.nmsThreshold < object.rect.interArea other.rect / object.rect.unionArea other.rect)

theorem suppresses_iff (hthreshold : 0 ≤ w.nmsThreshold) (object other : YoloObject) :
    w.suppresses object other = true ↔ RectF.Overlaps w.nmsThreshold object.rect other.rect := by
  unfold suppresses
  rw [decide_eq_true_eq, RectF.lt_div_iff_overlaps hthreshold]

theorem nmsSortedIndexes_eq (w : YoloxWrapper) (objects : List YoloObject) :
    w.nmsSortedIndexes objects =
      select (fun i j => w.suppresses (objects.get i) (objects.get j))
        (List.finRange objects.length) := rfl

/-- The indexes are those of the objects that `process` goes on with. -/
theorem map_nmsSortedIndexes (w : YoloxWrapper) (objects : List YoloObject) :
    (w.nmsSortedIndexes objects).map objects.get = w.nmsSortedBboxes objects := by
  have hselect : w.nmsSortedBboxes objects = select w.suppresses objects := rfl
  rw [hselect, nmsSortedIndexes_eq, ← select_map, List.map_get_finRange]

/-- What the suppression leaves. -/
structure Suppresses (w : YoloxWrapper) (objects : List YoloObject)
    (kept : List (Fin objects.length)) : Prop where
  increasing : kept.Pairwise fun i j => i < j
  apart : ∀ i ∈ kept, ∀ j ∈ kept, i ≠ j →
    ¬RectF.Overlaps w.nmsThreshold (objects.get i).rect (objects.get j).rect
  covered : ∀ i, i ∉ kept → ∃ j ∈ kept, j < i ∧
    RectF.Overlaps w.nmsThreshold (objects.get i).rect (objects.get j).rect

/-- The selected boxes do not overlap, and each other box overlaps with a selected one before it. -/
theorem suppresses_nmsSortedIndexes (hthreshold : 0 ≤ w.nmsThreshold) (objects : List YoloObject) :
    Suppresses w objects (w.nmsSortedIndexes objects) := by
  rw [nmsSortedIndexes_eq]
  have hincreasing : (List.finRange objects.length).Pairwise fun i j => i < j :=
    List.pairwise_lt_finRange _
  refine ⟨hincreasing.sublist (select_sublist _), ?_, ?_⟩
  · intro i hi j hj hne
    have hfree : (select (fun i j => w.suppresses (objects.get i) (objects.get j))
        (List.finRange objects.length)).Pairwise fun i j =>
          w.suppresses (objects.get j) (objects.get i) = false := pairwise_select _
    have hapart := hfree.imp (S := fun i j =>
      ¬RectF.Overlaps w.nmsThreshold (objects.get i).rect (objects.get j).rect) fun {i j} hij => by
        rw [RectF.overlaps_comm, ← suppresses_iff hthreshold, hij]
        simp
    have hsymm : Std.Symm fun i j : Fin objects.length =>
        ¬RectF.Overlaps w.nmsThreshold (objects.get i).rect (objects.get j).rect := by
      constructor
      intro i j hij
      rwa [RectF.overlaps_comm]
    exact hapart.forall hi hj hne
  · intro i hi
    obtain ⟨front, back, hsplit⟩ := List.append_of_mem (List.mem_finRange i)
    rw [hsplit] at hi hincreasing ⊢
    rcases mem_select_or_blocked front i back with hkept | ⟨j, hfront, hkept, hblocks⟩
    · exact absurd hkept hi
    · have hlt := (List.pairwise_append.mp hincreasing).2.2 j hfront i List.mem_cons_self
      exact ⟨j, hkept, hlt, (suppresses_iff hthreshold _ _).mp hblocks⟩

/-- What the sort of `process` gives. -/
theorem pairwise_prob_mergeSort (proposals : List YoloObject) :
    (proposals.mergeSort fun first second => second.prob ≤ first.prob).Pairwise
      fun first second => second.prob ≤ first.prob := by
  have htrans (first second third : YoloObject) (hfirst : decide (second.prob ≤ first.prob) = true)
      (hsecond : decide (third.prob ≤ second.prob) = true) :
      decide (third.prob ≤ first.prob) = true :=
    decide_eq_true ((of_decide_eq_true hsecond).trans (of_decide_eq_true hfirst))
  have htotal (first second : YoloObject) :
      (decide (second.prob ≤ first.prob) || decide (first.prob ≤ second.prob)) = true := by
    rw [Bool.or_eq_true, decide_eq_true_eq, decide_eq_true_eq]
    exact le_total _ _
  exact (List.pairwise_mergeSort htrans htotal proposals).imp fun h => of_decide_eq_true h

/-- In a list sorted by probability a box that is dropped overlaps too much with a kept one of at
least its probability. -/
theorem covered_of_sorted (hthreshold : 0 ≤ w.nmsThreshold) {sorted : List YoloObject}
    (hsorted : sorted.Pairwise fun first second => second.prob ≤ first.prob)
    {i : Fin sorted.length} (hi : i ∉ w.nmsSortedIndexes sorted) :
    ∃ j ∈ w.nmsSortedIndexes sorted,
      RectF.Overlaps w.nmsThreshold (sorted.get i).rect (sorted.get j).rect ∧
        (sorted.get i).prob ≤ (sorted.get j).prob := by
  obtain ⟨j, hj, hlt, hoverlaps⟩ := (suppresses_nmsSortedIndexes hthreshold sorted).covered i hi
  exact ⟨j, hj, hoverlaps, List.pairwise_iff_get.mp hsorted j i hlt⟩

/-- What `process` returns are the kept ones of the sorted proposals, rescaled; so each proposal is
among them or overlaps too much with one that is and has at least its probability. -/
theorem process_keeps (hthreshold : 0 ≤ w.nmsThreshold) (proposals : List YoloObject)
    (origFrameSize : FrameSize) :
    ∃ kept : List YoloObject,
      w.process proposals origFrameSize =
        kept.map (fun object => { object with rect := w.rescale origFrameSize object.rect }) ∧
      ∀ object ∈ proposals, object ∈ kept ∨ ∃ other ∈ kept,
        RectF.Overlaps w.nmsThreshold object.rect other.rect ∧ object.prob ≤ other.prob := by
  refine ⟨w.nmsSortedBboxes
    (proposals.mergeSort fun first second => second.prob ≤ first.prob), rfl, ?_⟩
  intro object hobject
  have hmem : object ∈ proposals.mergeSort fun first second => second.prob ≤ first.prob :=
    List.mem_mergeSort.mpr hobject
  rw [← map_nmsSortedIndexes]
  obtain ⟨i, rfl⟩ := List.get_of_mem hmem
  by_cases hi : i ∈ w.nmsSortedIndexes
      (proposals.mergeSort fun first second => second.prob ≤ first.prob)
  · left
    exact List.mem_map_of_mem hi
  · right
    obtain ⟨j, hj, hoverlaps, hprob⟩ :=
      covered_of_sorted hthreshold (pairwise_prob_mergeSort proposals) hi
    exact ⟨_, List.mem_map_of_mem hj, hoverlaps, hprob⟩

/-- The indexes that the suppression returns increase, no two of their boxes overlap too much, and
every other box does with one of smaller index.  In a list sorted by probability that one has at
least the same probability. -/
theorem nms_suppresses (hthreshold : 0 ≤ w.nmsThreshold) :
    (∀ objects, Suppresses w objects (w.nmsSortedIndexes objects)) ∧
      ∀ sorted : List YoloObject,
        sorted.Pairwise (fun first second => second.prob ≤ first.prob) →
          ∀ i, i ∉ w.nmsSortedIndexes sorted → ∃ j ∈ w.nmsSortedIndexes sorted,
            RectF.Overlaps w.nmsThreshold (sorted.get i).rect (sorted.get j).rect ∧
              (sorted.get i).prob ≤ (sorted.get j).prob := by
  refine ⟨suppresses_nmsSortedIndexes hthreshold, ?_⟩
  intro sorted hsorted i hi
  exact covered_of_sorted hthreshold hsorted hi

/-! ### Three boxes -/

/-- The second box is all but the same as the first one, the third one is empty. -/
def threeBoxes : List YoloObject :=
  [⟨⟨0, 0, 10, 10⟩, 9 / 10, 0⟩, ⟨⟨0, 0, 10, 9⟩, 8 / 10, 0⟩, ⟨⟨5, 5, 0, 0⟩, 7 / 10, 0⟩]

/-- Of three boxes, the middle one overlaps with the first. -/
theorem nms_suppresses_threeBoxes :
    ((⟨7 / 10, ⟨640, 640⟩⟩ : YoloxWrapper).nmsSortedIndexes threeBoxes).map Fin.val = [0, 2] ∧
      ∃ j ∈ (⟨7 / 10, ⟨640, 640⟩⟩ : YoloxWrapper).nmsSortedIndexes threeBoxes,
        (threeBoxes.get ⟨1, by decide⟩).prob ≤ (threeBoxes.get j).prob := by
  have hkept : ((⟨7 / 10, ⟨640, 640⟩⟩ : YoloxWrapper).nmsSortedIndexes threeBoxes).map Fin.val =
      [0, 2] := by
    decide +kernel
  refine ⟨hkept, ?_⟩
  have hthreshold : 0 ≤ (⟨7 / 10, ⟨640, 640⟩⟩ : YoloxWrapper).nmsThreshold := by norm_num
  have hsorted : threeBoxes.Pairwise fun first second => second.prob ≤ first.prob := by
    decide +kernel
  have hdropped : (⟨1, by decide⟩ : Fin threeBoxes.length) ∉
      (⟨7 / 10, ⟨640, 640⟩⟩ : YoloxWrapper).nmsSortedIndexes threeBoxes := by
    intro hmem
    have hval := List.mem_map_of_mem (f := Fin.val) hmem
    rw [hkept] at hval
    exact absurd hval (by decide)
  obtain ⟨j, hj, -, hprob⟩ := (nms_suppresses hthreshold).2 threeBoxes hsorted _ hdropped
  exact ⟨j, hj, hprob⟩

end YoloxWrapper

end Seekira.Model.Video
