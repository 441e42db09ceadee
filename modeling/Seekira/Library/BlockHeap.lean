import Mathlib.Logic.Equiv.Basic
import Seekira.Library.Proc

/-!
# Blocks of memory and their owners

A heap holds blocks of cells by address.  Blocks are allocated, freed, read and
overwritten; freeing or reading a block that is not live is a fault.  An address is
not used again, so a pointer to a freed block stays recognisable.

In a heap every live block of which has exactly one owner, what is done to the block of
one owner leaves the blocks of all others as they are.
-/

set_option autoImplicit false

namespace Seekira.Library

inductive HeapFault where
  /-- a block is freed that is not live -/
  | badFree
  /-- cells are read that are not in a live block -/
  | badRead
  /-- cells are written that are not in a live block -/
  | badWrite
  deriving DecidableEq, Repr

/-- Blocks by address; from `next` on no address has been used. -/
structure BlockHeap (β : Type) where
  blocks : Nat → Option (List β)
  next : Nat
  fresh : ∀ a, next ≤ a → blocks a = none

namespace BlockHeap

variable {β ι : Type}

def empty : BlockHeap β := ⟨fun _ => none, 0, fun _ _ => rfl⟩

def Live (h : BlockHeap β) (a : Nat) : Prop := (h.blocks a).isSome

instance (h : BlockHeap β) (a : Nat) : Decidable (h.Live a) :=
  inferInstanceAs (Decidable ((h.blocks a).isSome = true))

/-- A live block has an address that was handed out. -/
theorem Live.lt {h : BlockHeap β} {a : Nat} (ha : h.Live a) : a < h.next := by
  by_contra hle
  have hnone := h.fresh a (Nat.not_lt.mp hle)
  unfold Live at ha
  rw [hnone] at ha
  cases ha

/-! ## Operations -/

/-- The heap with a new block at `next`. -/
def allocated (h : BlockHeap β) (cells : List β) : BlockHeap β where
  blocks := Function.update h.blocks h.next (some cells)
  next := h.next + 1
  fresh a ha := by
    rw [Function.update_of_ne (by omega)]
    exact h.fresh a (by omega)

/-- The heap without a block. -/
def freed (h : BlockHeap β) (a : Nat) : BlockHeap β where
  blocks := Function.update h.blocks a none
  next := h.next
  fresh a' ha' := by
    by_cases heq : a' = a
    · rw [heq, Function.update_self]
    · rw [Function.update_of_ne heq]
      exact h.fresh a' ha'

/-- The heap with other cells in a live block. -/
def written (h : BlockHeap β) (a : Nat) (cells : List β) (ha : h.Live a) : BlockHeap β where
  blocks := Function.update h.blocks a (some cells)
  next := h.next
  fresh a' ha' := by
    rw [Function.update_of_ne (by have := ha.lt; omega)]
    exact h.fresh a' ha'

/-- `new[]`; the block holds the given cells. -/
def alloc (cells : List β) : Proc HeapFault (BlockHeap β) Nat :=
  Proc.total fun h => (h.next, h.allocated cells)

/-- `delete[]` -/
def free (a : Nat) : Proc HeapFault (BlockHeap β) Unit := fun h =>
  if h.Live a then (.ok (), h.freed a) else (.error .badFree, h)

/-- The first `n` cells of a block. -/
def read (a n : Nat) : Proc HeapFault (BlockHeap β) (List β) := fun h =>
  match h.blocks a with
  | some cells => if n ≤ cells.length then (.ok (cells.take n), h) else (.error .badRead, h)
  | none => (.error .badRead, h)

/-- Overwrite the cells of a block from index `i` on. -/
def write (a i : Nat) (cells : List β) : Proc HeapFault (BlockHeap β) Unit := fun h =>
  if ha : h.Live a then
    let old := (h.blocks a).get ha
    if i + cells.length ≤ old.length then
      (.ok (), h.written a (old.take i ++ cells ++ old.drop (i + cells.length)) ha)
    else (.error .badWrite, h)
  else (.error .badWrite, h)

variable {h : BlockHeap β} {a i n : Nat} {cells old : List β}

@[simp] theorem blocks_allocated_self : (h.allocated cells).blocks h.next = some cells :=
  Function.update_self ..

theorem blocks_allocated_of_live (ha : h.Live a) : (h.allocated cells).blocks a = h.blocks a :=
  Function.update_of_ne (Nat.ne_of_lt ha.lt) ..

@[simp] theorem blocks_freed_self : (h.freed a).blocks a = none := Function.update_self ..

theorem blocks_freed_of_ne {a' : Nat} (hne : a' ≠ a) : (h.freed a).blocks a' = h.blocks a' :=
  Function.update_of_ne hne ..

@[simp] theorem blocks_written_self (ha : h.Live a) :
    (h.written a cells ha).blocks a = some cells := Function.update_self ..

theorem blocks_written_of_ne (ha : h.Live a) {a' : Nat} (hne : a' ≠ a) :
    (h.written a cells ha).blocks a' = h.blocks a' := Function.update_of_ne hne ..

theorem live_of_blocks (ha : h.blocks a = some cells) : h.Live a := by
  unfold Live
  rw [ha]
  rfl

theorem live_allocated_iff : (h.allocated cells).Live a ↔ a = h.next ∨ h.Live a := by
  unfold Live allocated
  by_cases ha : a = h.next
  · simp [ha]
  · simp [ha]

theorem live_freed_iff {a' : Nat} : (h.freed a).Live a' ↔ a' ≠ a ∧ h.Live a' := by
  unfold Live freed
  by_cases ha : a' = a
  · simp [ha]
  · simp [ha]

theorem live_written_iff (ha : h.Live a) {a' : Nat} :
    (h.written a cells ha).Live a' ↔ h.Live a' := by
  by_cases heq : a' = a
  · subst heq
    simpa [Live] using ha
  · unfold Live
    rw [blocks_written_of_ne ha heq]

theorem free_of_live (ha : h.Live a) : free a h = (.ok (), h.freed a) := if_pos ha

theorem read_of_blocks (ha : h.blocks a = some cells) (hn : n ≤ cells.length) :
    read a n h = (.ok (cells.take n), h) := by
  unfold read
  simp [ha, hn]

theorem read_of_dead (ha : ¬h.Live a) : read a n h = (.error .badRead, h) := by
  unfold read
  have hnone : h.blocks a = none := by simpa [Live] using ha
  simp [hnone]

/-- A write within a live block replaces the cells from `i` on. -/
theorem write_of_blocks (ha : h.blocks a = some old) (hi : i + cells.length ≤ old.length) :
    write a i cells h =
      (.ok (), h.written a (old.take i ++ cells ++ old.drop (i + cells.length))
        (live_of_blocks ha)) := by
  unfold write
  rw [dif_pos (live_of_blocks ha)]
  simp [ha, hi]

theorem write_of_dead (ha : ¬h.Live a) : write a i cells h = (.error .badWrite, h) := by
  unfold write
  rw [dif_neg ha]

/-- A new block that is overwritten as a whole. -/
theorem written_allocated (ha : (h.allocated old).Live h.next) :
    (h.allocated old).written h.next cells ha = h.allocated cells := by
  unfold written allocated
  simp

/-! ## Owners -/

/-- Free what a pointer points to, if it is not null. -/
def release (p : Option Nat) : Proc HeapFault (BlockHeap β) Unit :=
  match p with
  | none => pure ()
  | some a => free a

def released (h : BlockHeap β) : Option Nat → BlockHeap β
  | none => h
  | some a => h.freed a

theorem release_apply {p : Option Nat} (hp : ∀ a ∈ p, h.Live a) :
    release p h = (.ok (), h.released p) := by
  cases p with
  | none => rfl
  | some a => exact free_of_live (hp a rfl)

/-- What is owned is live, and every live block has exactly one owner. -/
structure Owned (h : BlockHeap β) (owner : ι → Option Nat) : Prop where
  live : ∀ {i a}, owner i = some a → h.Live a
  unique : ∀ {i j a}, owner i = some a → owner j = some a → i = j
  covered : ∀ {a}, h.Live a → ∃ i, owner i = some a

namespace Owned

variable {owner : ι → Option Nat}

theorem of_empty : (empty : BlockHeap β).Owned fun _ : ι => none :=
  ⟨nofun, nofun, nofun⟩

/-- Owners may pass on what they have. -/
theorem perm (ho : h.Owned owner) (e : Equiv.Perm ι) : h.Owned fun i => owner (e i) where
  live := fun hi => ho.live hi
  unique := fun hi hj => e.injective (ho.unique hi hj)
  covered := fun ha => by
    obtain ⟨i, hi⟩ := ho.covered ha
    exact ⟨e.symm i, by rw [e.apply_symm_apply]; exact hi⟩

theorem written (ho : h.Owned owner) (ha : h.Live a) :
    (h.written a cells ha).Owned owner where
  live := fun hi => (live_written_iff ha).mpr (ho.live hi)
  unique := ho.unique
  covered := fun hb => ho.covered ((live_written_iff ha).mp hb)

/-! ### What the others own stays as it is -/

theorem blocks_released (ho : h.Owned owner) {i j : ι} (hj : owner j = some a) (hne : j ≠ i) :
    (h.released (owner i)).blocks a = h.blocks a := by
  rcases hi : owner i with _ | b
  · rfl
  · refine blocks_freed_of_ne ?_
    rintro rfl
    exact hne (ho.unique hj hi)

theorem blocks_replaced (ho : h.Owned owner) {i j : ι} (hj : owner j = some a) (hne : j ≠ i) :
    ((h.allocated cells).released (owner i)).blocks a = h.blocks a := by
  have hkept : (h.allocated cells).blocks a = h.blocks a := blocks_allocated_of_live (ho.live hj)
  rcases hi : owner i with _ | b
  · exact hkept
  · refine Eq.trans (blocks_freed_of_ne ?_) hkept
    rintro rfl
    exact hne (ho.unique hj hi)

theorem blocks_replaced_new (ho : h.Owned owner) (i : ι) :
    ((h.allocated cells).released (owner i)).blocks h.next = some cells := by
  rcases hi : owner i with _ | b
  · exact blocks_allocated_self
  · exact Eq.trans (blocks_freed_of_ne (Nat.ne_of_gt (ho.live hi).lt)) blocks_allocated_self

theorem blocks_written (ho : h.Owned owner) {i j : ι} {b : Nat} (hi : owner i = some b)
    (hb : h.Live b) (hj : owner j = some a) (hne : j ≠ i) :
    (h.written b cells hb).blocks a = h.blocks a := by
  refine blocks_written_of_ne hb ?_
  rintro rfl
  exact hne (ho.unique hj hi)

/-! ### Changes of the owners -/

variable [DecidableEq ι]

/-- An owner gives up its block. -/
theorem release (ho : h.Owned owner) (i : ι) :
    (h.released (owner i)).Owned (Function.update owner i none) := by
  rcases hi : owner i with _ | a
  · have hsame : Function.update owner i none = owner := by
      rw [← hi, Function.update_eq_self]
    rw [hsame]
    exact ho
  · refine ⟨fun {j b} hj => ?_, fun {j k b} hj hk => ?_, fun {b} hb => ?_⟩
    · by_cases heq : j = i
      · rw [heq, Function.update_self] at hj
        cases hj
      · rw [Function.update_of_ne heq] at hj
        refine live_freed_iff.mpr ⟨?_, ho.live hj⟩
        rintro rfl
        exact heq (ho.unique hj hi)
    · have hji : j ≠ i := by rintro rfl; rw [Function.update_self] at hj; cases hj
      have hki : k ≠ i := by rintro rfl; rw [Function.update_self] at hk; cases hk
      rw [Function.update_of_ne hji] at hj
      rw [Function.update_of_ne hki] at hk
      exact ho.unique hj hk
    · obtain ⟨hne, hlive⟩ := live_freed_iff.mp hb
      obtain ⟨j, hj⟩ := ho.covered hlive
      refine ⟨j, ?_⟩
      rw [Function.update_of_ne]
      · exact hj
      · rintro rfl
        rw [hi] at hj
        exact hne (Option.some.inj hj).symm

/-- One that has none gets a new block. -/
theorem alloc (ho : h.Owned owner) {i : ι} (hi : owner i = none) :
    (h.allocated cells).Owned (Function.update owner i (some h.next)) := by
  have hfresh : ∀ {j}, owner j ≠ some h.next := fun hj => Nat.lt_irrefl _ (ho.live hj).lt
  refine ⟨fun {j b} hj => ?_, fun {j k b} hj hk => ?_, fun {b} hb => ?_⟩
  · by_cases heq : j = i
    · rw [heq, Function.update_self] at hj
      cases hj
      exact live_allocated_iff.mpr (.inl rfl)
    · rw [Function.update_of_ne heq] at hj
      exact live_allocated_iff.mpr (.inr (ho.live hj))
  · by_cases hji : j = i <;> by_cases hki : k = i
    · rw [hji, hki]
    · rw [hji, Function.update_self] at hj
      rw [Function.update_of_ne hki] at hk
      cases hj
      exact absurd hk hfresh
    · rw [hki, Function.update_self] at hk
      rw [Function.update_of_ne hji] at hj
      cases hk
      exact absurd hj hfresh
    · rw [Function.update_of_ne hji] at hj
      rw [Function.update_of_ne hki] at hk
      exact ho.unique hj hk
  · rcases live_allocated_iff.mp hb with rfl | hlive
    · exact ⟨i, Function.update_self ..⟩
    · obtain ⟨j, hj⟩ := ho.covered hlive
      refine ⟨j, ?_⟩
      rw [Function.update_of_ne]
      · exact hj
      · rintro rfl
        rw [hi] at hj
        cases hj

/-- A new block takes the place of what the owner had. -/
theorem replace (ho : h.Owned owner) (i : ι) :
    ((h.allocated cells).released (owner i)).Owned (Function.update owner i (some h.next)) := by
  have hnew : ((h.released (owner i)).allocated cells).Owned _ :=
    (ho.release i).alloc (Function.update_self i none owner)
  rw [Function.update_idem] at hnew
  rcases hi : owner i with _ | a
  · rw [hi] at hnew
    exact hnew
  · rw [hi] at hnew
    have hne := Nat.ne_of_lt (ho.live hi).lt
    have hcomm : (h.allocated cells).freed a = (h.freed a).allocated cells := by
      unfold allocated freed
      dsimp only
      congr 1
      exact (Function.update_comm hne none (some cells) h.blocks).symm
    show ((h.allocated cells).freed a).Owned _
    rw [hcomm]
    exact hnew

end Owned

end BlockHeap

end Seekira.Library
