import Mathlib.Data.List.Induction
import Mathlib.Tactic.Common

/-!
# Greedy selection

Elements are kept in their order as long as nothing kept before blocks them.  What is kept is free
of blocks, and everything that is dropped is blocked by something kept before it: the selection is a
largest one.  Nothing is assumed about the relation.
-/

set_option autoImplicit false

namespace Seekira.Library

variable {α β : Type} {blocks : α → α → Bool}

/-- Go through the elements and keep those that nothing kept so far blocks; `blocks x y` says that
`y` blocks `x`. -/
def select (blocks : α → α → Bool) (xs : List α) : List α :=
  xs.foldl (fun kept x => if kept.any (blocks x) then kept else kept ++ [x]) []

theorem select_concat (xs : List α) (x : α) :
    select blocks (xs ++ [x]) =
      if (select blocks xs).any (blocks x) then select blocks xs else select blocks xs ++ [x] := by
  simp [select]

/-- The selection keeps the order of the candidates. -/
theorem select_sublist (xs : List α) : (select blocks xs).Sublist xs := by
  induction xs using List.reverseRecOn with
  | nil => exact List.Sublist.refl _
  | append_singleton xs x ih =>
    rw [select_concat]
    split
    · exact ih.trans (List.sublist_append_left xs [x])
    · exact ih.append_right [x]

/-- No kept element blocks one that was kept later. -/
theorem pairwise_select (xs : List α) :
    (select blocks xs).Pairwise fun y x => blocks x y = false := by
  induction xs using List.reverseRecOn with
  | nil => exact List.Pairwise.nil
  | append_singleton xs x ih =>
    rw [select_concat]
    split
    · exact ih
    · rename_i hfree
      rw [List.pairwise_append]
      refine ⟨ih, List.pairwise_singleton _ _, ?_⟩
      intro y hy z hz
      obtain rfl := List.mem_singleton.mp hz
      rw [Bool.eq_false_iff]
      intro hblocks
      exact hfree (List.any_eq_true.mpr ⟨y, hy, hblocks⟩)

/-- What was kept stays. -/
theorem select_subset_append (xs ys : List α) : select blocks xs ⊆ select blocks (xs ++ ys) := by
  induction ys using List.reverseRecOn with
  | nil => simp
  | append_singleton ys y ih =>
    rw [← List.append_assoc, select_concat]
    split
    · exact ih
    · exact List.Subset.trans ih (List.subset_append_left _ _)

/-- An element is kept, or blocked by one kept before it. -/
theorem mem_select_or_blocked (front : List α) (x : α) (back : List α) :
    x ∈ select blocks (front ++ x :: back) ∨
      ∃ y ∈ front, y ∈ select blocks (front ++ x :: back) ∧ blocks x y = true := by
  have hsplit : front ++ x :: back = (front ++ [x]) ++ back := by simp
  have hkept : select blocks (front ++ [x]) ⊆ select blocks ((front ++ [x]) ++ back) :=
    select_subset_append (front ++ [x]) back
  by_cases hblocked : (select blocks front).any (blocks x) = true
  · right
    obtain ⟨y, hy, hblocks⟩ := List.any_eq_true.mp hblocked
    refine ⟨y, (select_sublist front).subset hy, ?_, hblocks⟩
    exact select_subset_append front (x :: back) hy
  · left
    rw [hsplit]
    apply hkept
    rw [select_concat, if_neg hblocked]
    exact List.mem_append_right _ (List.mem_singleton_self x)

/-- Selecting among images is selecting among what they are images of. -/
theorem select_map (f : β → α) (xs : List β) :
    select blocks (xs.map f) = (select (fun x y => blocks (f x) (f y)) xs).map f := by
  induction xs using List.reverseRecOn with
  | nil => rfl
  | append_singleton xs x ih =>
    have hany : ((select (fun x y => blocks (f x) (f y)) xs).map f).any (blocks (f x)) =
        (select (fun x y => blocks (f x) (f y)) xs).any fun y => blocks (f x) (f y) := List.any_map
    rw [List.map_append, List.map_singleton, select_concat, select_concat, ih, hany]
    split
    · rfl
    · rw [List.map_append, List.map_singleton]

end Seekira.Library
