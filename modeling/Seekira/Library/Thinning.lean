import Mathlib.Data.List.Basic
import Mathlib.Order.Basic

/-!
# Lists from which later elements cleared earlier ones

Elements arrive one after another and are kept in order.  An arrival that satisfies
`clears` may take back any number of the elements kept last.  What is left at the end
is described by positions: the kept elements stand at growing positions of the list of
arrivals, so none of them is there twice, and behind every position that is missing
there is an arrival that clears.
-/

set_option autoImplicit false

namespace Seekira.Library

variable {α : Type} {clears : α → Prop}

/-- `kept` is what stands in `arrived` at the positions `pos`. -/
structure ThinnedAt (clears : α → Prop) (arrived kept : List α) (pos : List Nat) : Prop where
  increasing : pos.Pairwise (· < ·)
  kept : kept.map some = pos.map fun j => arrived[j]?
  cleared : ∀ j < arrived.length, j ∉ pos → ∃ k > j, ∃ a ∈ arrived[k]?, clears a

/-- `kept` is what remains of `arrived`. -/
def Thinned (clears : α → Prop) (arrived kept : List α) : Prop :=
  ∃ pos, ThinnedAt clears arrived kept pos

theorem thinned_nil : Thinned clears [] [] :=
  ⟨[], .nil, rfl, fun _ hj => absurd hj (Nat.not_lt_zero _)⟩

/-- The positions are positions of the list. -/
theorem ThinnedAt.lt_length {arrived kept : List α} {pos : List Nat}
    (h : ThinnedAt clears arrived kept pos) : ∀ j ∈ pos, j < arrived.length := by
  intro j hj
  have hmem : arrived[j]? ∈ kept.map some := by
    rw [h.kept]
    exact List.mem_map_of_mem hj
  obtain ⟨a, -, ha⟩ := List.mem_map.mp hmem
  obtain ⟨hlt, -⟩ := List.getElem?_eq_some_iff.mp ha.symm
  exact hlt

/-- One more arrival is kept behind the elements at the positions `pos`. -/
theorem ThinnedAt.snoc {arrived kept : List α} {pos : List Nat} (dropped : List Nat) {a : α}
    (hinc : pos.Pairwise (· < ·)) (hlt : ∀ j ∈ pos, j < arrived.length)
    (hkept : kept.map some = pos.map fun j => arrived[j]?)
    (hcleared : ∀ j < arrived.length, j ∉ pos → j ∉ dropped →
      ∃ k > j, ∃ b ∈ arrived[k]?, clears b)
    (hdropped : dropped ≠ [] → clears a) :
    ThinnedAt clears (arrived ++ [a]) (kept ++ [a]) (pos ++ [arrived.length]) := by
  have hold : ∀ j < arrived.length, (arrived ++ [a])[j]? = arrived[j]? := fun j hj =>
    List.getElem?_append_left hj
  refine ⟨?_, ?_, ?_⟩
  · rw [List.pairwise_append]
    refine ⟨hinc, List.pairwise_singleton _ _, ?_⟩
    intro j hj k hk
    rw [List.mem_singleton.mp hk]
    exact hlt j hj
  · have hsame : (pos.map fun j => (arrived ++ [a])[j]?) = pos.map fun j => arrived[j]? :=
      List.map_congr_left fun j hj => hold j (hlt j hj)
    rw [List.map_append, List.map_append, hkept, hsame]
    simp
  · intro j hj hnot
    rw [List.mem_append, List.mem_singleton, not_or] at hnot
    have hj' : j < arrived.length := by
      rw [List.length_append, List.length_singleton] at hj
      omega
    by_cases hdrop : j ∈ dropped
    · refine ⟨arrived.length, hj', a, by simp, ?_⟩
      exact hdropped (List.ne_nil_of_mem hdrop)
    · obtain ⟨k, hk, b, hb, hclears⟩ := hcleared j hj' hnot.1 hdrop
      have hlen : k < arrived.length := (List.getElem?_eq_some_iff.mp hb).1
      exact ⟨k, hk, b, by rw [hold k hlen]; exact hb, hclears⟩

theorem Thinned.push {arrived kept : List α} (h : Thinned clears arrived kept) (a : α) :
    Thinned clears (arrived ++ [a]) (kept ++ [a]) := by
  obtain ⟨pos, hpos⟩ := h
  exact ⟨_, .snoc [] hpos.increasing hpos.lt_length hpos.kept
    (fun j hj hnot _ => hpos.cleared j hj hnot) fun hne => absurd rfl hne⟩

/-- An arrival that clears takes back the elements kept last. -/
theorem Thinned.clear {arrived front back : List α} (h : Thinned clears arrived (front ++ back))
    {a : α} (ha : clears a) : Thinned clears (arrived ++ [a]) (front ++ [a]) := by
  obtain ⟨pos, hpos⟩ := h
  have hkept := hpos.kept
  rw [List.map_append] at hkept
  obtain ⟨kept, dropped, rfl, hfront, -⟩ := List.map_eq_append_iff.mp hkept.symm
  have hlt := hpos.lt_length
  refine ⟨_, .snoc dropped ?_ ?_ hfront.symm ?_ fun _ => ha⟩
  · exact (List.pairwise_append.mp hpos.increasing).1
  · intro j hj
    exact hlt j (List.mem_append_left _ hj)
  · intro j hj hk hd
    apply hpos.cleared j hj
    rw [List.mem_append, not_or]
    exact ⟨hk, hd⟩

end Seekira.Library
