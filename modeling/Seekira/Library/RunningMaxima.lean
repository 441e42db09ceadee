import Mathlib.Order.Lattice
import Mathlib.Data.List.Induction

/-!
# Strict running maxima

The elements of a list that exceed everything before them.  They grow along the list, and
the last of them is the list's maximum, so whether one more element joins them is decided by
the last one alone.
-/

set_option autoImplicit false

namespace Seekira.Library

variable {α : Type} [LinearOrder α]

/-- The elements of a list that exceed everything before them, in `before` and in the list. -/
def strictMaximaAfter (before : List α) : List α → List α
  | [] => []
  | a :: rest =>
    if ∀ b ∈ before, b < a then a :: strictMaximaAfter (before ++ [a]) rest
    else strictMaximaAfter (before ++ [a]) rest

def strictMaxima (l : List α) : List α := strictMaximaAfter [] l

@[simp] theorem strictMaxima_nil : strictMaxima ([] : List α) = [] := rfl

/-- A further element is a maximum when it is above all before it. -/
theorem strictMaximaAfter_concat (before l : List α) (a : α) :
    strictMaximaAfter before (l ++ [a]) =
      strictMaximaAfter before l ++ if ∀ b ∈ before ++ l, b < a then [a] else [] := by
  induction l generalizing before with
  | nil =>
    unfold strictMaximaAfter
    simp [strictMaximaAfter]
  | cons c rest ih =>
    have hrest := ih (before ++ [c])
    rw [List.append_assoc, List.singleton_append] at hrest
    rw [List.cons_append]
    unfold strictMaximaAfter
    split
    · rw [hrest, List.cons_append]
    · rw [hrest]

/-- One more element joins the maxima when it exceeds everything before it. -/
theorem strictMaxima_concat (l : List α) (a : α) :
    strictMaxima (l ++ [a]) = strictMaxima l ++ if ∀ b ∈ l, b < a then [a] else [] :=
  strictMaximaAfter_concat [] l a

/-- The maxima are elements of the list. -/
theorem mem_of_mem_strictMaxima {l : List α} {a : α} (h : a ∈ strictMaxima l) : a ∈ l := by
  induction l using List.reverseRecOn with
  | nil => cases h
  | append_singleton l b ih =>
    rw [strictMaxima_concat] at h
    rcases List.mem_append.mp h with h | h
    · exact List.mem_append_left _ (ih h)
    · split at h
      · exact List.mem_append_right _ h
      · cases h

/-- The maxima ascend. -/
theorem strictMaxima_pairwise (l : List α) : (strictMaxima l).Pairwise (· < ·) := by
  induction l using List.reverseRecOn with
  | nil => exact .nil
  | append_singleton l a ih =>
    rw [strictMaxima_concat]
    split
    · rename_i hmax
      rw [List.pairwise_append]
      refine ⟨ih, List.pairwise_singleton _ _, ?_⟩
      intro b hb c hc
      rw [List.mem_singleton.mp hc]
      exact hmax b (mem_of_mem_strictMaxima hb)
    · rw [List.append_nil]
      exact ih

/-- The last of the maxima is an upper bound. -/
theorem le_of_getLast?_strictMaxima {l : List α} {m : α} (h : m ∈ (strictMaxima l).getLast?) :
    ∀ b ∈ l, b ≤ m := by
  induction l using List.reverseRecOn generalizing m with
  | nil => nofun
  | append_singleton l a ih =>
    intro b hb
    rw [strictMaxima_concat] at h
    split at h
    · rename_i hmax
      rw [List.getLast?_concat] at h
      obtain rfl := Option.some.inj h
      rcases List.mem_append.mp hb with hb | hb
      · exact le_of_lt (hmax b hb)
      · rw [List.mem_singleton.mp hb]
    · rename_i hmax
      rw [List.append_nil] at h
      rcases List.mem_append.mp hb with hb | hb
      · exact ih h b hb
      · rw [List.mem_singleton.mp hb]
        obtain ⟨c, hc, hle⟩ := not_forall₂.mp hmax
        exact le_trans (not_lt.mp hle) (ih h c hc)

/-- The last of the maxima decides about one more element. -/
theorem strictMaxima_concat_of_getLast? {l : List α} {m : α}
    (h : m ∈ (strictMaxima l).getLast?) (a : α) :
    strictMaxima (l ++ [a]) = strictMaxima l ++ if m < a then [a] else [] := by
  rw [strictMaxima_concat]
  have hmem : m ∈ l := mem_of_mem_strictMaxima (List.mem_of_mem_getLast? h)
  have hiff : (∀ b ∈ l, b < a) ↔ m < a := by
    constructor
    · intro hall
      exact hall m hmem
    · intro hlt b hb
      exact lt_of_le_of_lt (le_of_getLast?_strictMaxima h b hb) hlt
  simp only [hiff]

end Seekira.Library
