import Mathlib.Logic.Equiv.Option
import Seekira.Model.FrameHeap

/-!
# Who owns the pixels

A frame owns its pixels unless it is a view.  Whatever a program does with its frames,
every live block has exactly one owner, so none is freed twice and none is left behind,
and only a view can be used after what it shows was freed.
-/

set_option autoImplicit false

namespace Seekira.Model.Video

open Library

/-! ## Parts of the program -/

namespace HeapFrame

variable {h h' : BlockHeap UInt8} {f lhs rhs : HeapFrame} {a : Nat}

/-- The block that a frame owns. -/
def owned (f : HeapFrame) : Option Nat :=
  match f.deleter with
  | .empty => none
  | .default => f.data

/-- What the frame points to has been allocated, and covers its bytes as long as it is live. -/
structure Placed (h : BlockHeap UInt8) (f : HeapFrame) : Prop where
  null : f.data = none → f.bytesize = 0
  known : ∀ a ∈ f.data, a < h.next
  covers : ∀ a ∈ f.data, ∀ cells ∈ h.blocks a, f.bytesize ≤ cells.length

/-- What the frame points to can be used. -/
def Usable (h : BlockHeap UInt8) (f : HeapFrame) : Prop := ∀ a ∈ f.data, h.Live a

instance : Decidable (f.Usable h) := by
  unfold Usable
  cases f.data with
  | none => exact isTrue (by simp)
  | some a => exact decidable_of_iff (h.Live a) (by simp)

/-- The pixels of the frame. -/
def pixels (h : BlockHeap UInt8) (f : HeapFrame) : List UInt8 :=
  ((f.data.bind h.blocks).getD []).take f.bytesize

/-- A frame has as many pixels as its size says. -/
theorem length_pixels (hplaced : f.Placed h) (huse : f.Usable h) :
    (f.pixels h).length = f.bytesize := by
  unfold pixels
  rcases hdata : f.data with _ | a
  · simp [hplaced.null hdata]
  · obtain ⟨cells, hcells⟩ := Option.isSome_iff_exists.mp (huse a hdata)
    have hcovers := hplaced.covers a hdata cells hcells
    simpa [hcells] using hcovers

@[simp] theorem owned_clone : f.clone.owned = none := rfl

@[simp] theorem owned_default (now : TimestampFF) : (default now).owned = none := rfl

@[simp] theorem owned_create (shape : FrameShape) (data : Nat) :
    (create shape data .default).owned = some data := rfl

@[simp] theorem owned_view (shape : FrameShape) (data : Nat) :
    (create shape data .empty).owned = none := rfl

theorem placed_default (now : TimestampFF) : (default now).Placed h :=
  ⟨fun _ => rfl, nofun, nofun⟩

/-- A reset frees the block that the frame owns. -/
theorem reset_apply (howned : ∀ a ∈ f.owned, h.Live a) :
    f.reset h = (.ok { f with data := none, deleter := .default }, h.released f.owned) := by
  have hcall : f.deleter.call f.data h = (.ok (), h.released f.owned) := by
    cases hdel : f.deleter with
    | empty =>
      have hnone : f.owned = none := by simp [owned, hdel]
      rw [hnone]
      rfl
    | default =>
      have hsome : f.owned = f.data := by simp [owned, hdel]
      rw [hsome] at howned ⊢
      exact BlockHeap.release_apply howned
  unfold reset
  rw [Proc.bind_ok hcall]
  rfl

/-- The bytes of a usable frame can be read. -/
theorem bytes_apply (hplaced : f.Placed h) (huse : f.Usable h) :
    f.bytes h = (.ok (f.pixels h), h) := by
  unfold bytes pixels
  rcases hdata : f.data with _ | a
  · simp [hplaced.null hdata]
  · obtain ⟨cells, hcells⟩ := Option.isSome_iff_exists.mp (huse a hdata)
    have hcovers := hplaced.covers a hdata cells hcells
    simp [hcells, BlockHeap.read_of_blocks hcells hcovers]

/-- The bytes of a dangling view cannot be read. -/
theorem bytes_dangling (huse : ¬f.Usable h) : f.bytes h = (.error .badRead, h) := by
  unfold Usable at huse
  push Not at huse
  obtain ⟨a, hdata, hdead⟩ := huse
  rw [Option.mem_def] at hdata
  unfold bytes
  rw [hdata]
  exact BlockHeap.read_of_dead hdead

/-! ### Later heaps -/

/-- The blocks of `h` have been freed or still have their lengths. -/
structure Later (h h' : BlockHeap UInt8) : Prop where
  next : h.next ≤ h'.next
  lengths : ∀ a < h.next, ∀ cells' ∈ h'.blocks a, ∃ cells ∈ h.blocks a,
    cells'.length = cells.length

theorem Later.refl (h : BlockHeap UInt8) : Later h h :=
  ⟨le_rfl, fun _ _ cells hcells => ⟨cells, hcells, rfl⟩⟩

theorem Later.trans {h'' : BlockHeap UInt8} (h₁ : Later h h') (h₂ : Later h' h'') :
    Later h h'' := by
  refine ⟨h₁.next.trans h₂.next, fun a ha cells'' hcells'' => ?_⟩
  obtain ⟨cells', hcells', hlen'⟩ := h₂.lengths a (ha.trans_le h₁.next) cells'' hcells''
  obtain ⟨cells, hcells, hlen⟩ := h₁.lengths a ha cells' hcells'
  exact ⟨cells, hcells, hlen'.trans hlen⟩

/-- A heap is later after an allocation. -/
theorem later_allocated (h : BlockHeap UInt8) (cells : List UInt8) :
    Later h (h.allocated cells) := by
  refine ⟨Nat.le_succ _, fun a ha cells' hcells' => ⟨cells', ?_, rfl⟩⟩
  have hsame : (h.allocated cells).blocks a = h.blocks a :=
    Function.update_of_ne (Nat.ne_of_lt ha) ..
  rw [← hsame]
  exact hcells'

/-- A heap is later after a release. -/
theorem later_released (h : BlockHeap UInt8) (p : Option Nat) : Later h (h.released p) := by
  cases p with
  | none => exact .refl h
  | some a =>
    refine ⟨le_rfl, fun b _ cells' hcells' => ⟨cells', ?_, rfl⟩⟩
    by_cases hb : b = a
    · subst hb
      have hnone : (h.released (some b)).blocks b = none := BlockHeap.blocks_freed_self
      rw [Option.mem_def, hnone] at hcells'
      cases hcells'
    · rwa [← BlockHeap.blocks_freed_of_ne hb]

/-- A heap is later after a write of as many bytes. -/
theorem later_written {cells old : List UInt8} (ha : h.Live a) (hold : h.blocks a = some old)
    (hlen : cells.length = old.length) : Later h (h.written a cells ha) := by
  refine ⟨le_rfl, fun b _ cells' hcells' => ?_⟩
  by_cases hb : b = a
  · subst hb
    rw [Option.mem_def, BlockHeap.blocks_written_self] at hcells'
    cases hcells'
    exact ⟨old, hold, hlen⟩
  · rw [BlockHeap.blocks_written_of_ne ha hb] at hcells'
    exact ⟨cells', hcells', rfl⟩

/-- A frame stays placed on later heaps. -/
theorem Placed.later (hplaced : f.Placed h) (hlater : Later h h') : f.Placed h' where
  null := hplaced.null
  known := fun a ha => (hplaced.known a ha).trans_le hlater.next
  covers := fun a ha cells' hcells' => by
    obtain ⟨cells, hcells, hlen⟩ := hlater.lengths a (hplaced.known a ha) cells' hcells'
    rw [hlen]
    exact hplaced.covers a ha cells hcells

/-! ### Copies -/

/-- A copy of a frame that is at `a`. -/
def at_ (f : HeapFrame) (a : Nat) : HeapFrame := { f with data := some a, deleter := .default }

@[simp] theorem owned_at (f : HeapFrame) (a : Nat) : (f.at_ a).owned = some a := rfl

/-- A frame is placed at a new block that is large enough. -/
theorem placed_at {cells : List UInt8} (hcells : f.bytesize ≤ cells.length) :
    (f.at_ h.next).Placed (h.allocated cells) := by
  refine ⟨nofun, ?_, ?_⟩
  · rintro a ⟨⟩
    exact Nat.lt_succ_self _
  · rintro a ⟨⟩ cells' hcells'
    rw [Option.mem_def, BlockHeap.blocks_allocated_self] at hcells'
    cases hcells'
    exact hcells

/-- A copy gets a new block with the same pixels. -/
theorem copy_apply (hplaced : rhs.Placed h) (huse : rhs.Usable h) :
    rhs.copy h = (.ok (rhs.at_ h.next), h.allocated (rhs.pixels h)) := by
  have hreset : reset { rhs with data := none, deleter := .default } h =
      (.ok { rhs with data := none, deleter := .default }, h) := rfl
  have hlater := later_allocated h (List.replicate rhs.bytesize 0)
  have huse' : rhs.Usable (h.allocated (List.replicate rhs.bytesize 0)) := fun a ha =>
    BlockHeap.live_allocated_iff.mpr (.inr (huse a ha))
  have hpixels : rhs.pixels (h.allocated (List.replicate rhs.bytesize 0)) = rhs.pixels h := by
    unfold pixels
    rcases hdata : rhs.data with _ | a
    · rfl
    · rw [Option.bind_some, Option.bind_some,
        BlockHeap.blocks_allocated_of_live (huse a hdata)]
  have hlen : (rhs.pixels h).length = rhs.bytesize := length_pixels hplaced huse
  have hnew : (h.allocated (List.replicate rhs.bytesize 0)).blocks h.next =
      some (List.replicate rhs.bytesize 0) := BlockHeap.blocks_allocated_self
  have hfits : 0 + (rhs.pixels h).length ≤ (List.replicate rhs.bytesize (0 : UInt8)).length := by
    simp [hlen]
  have hwrite := BlockHeap.write_of_blocks hnew hfits
  have hcells : List.take 0 (List.replicate rhs.bytesize (0 : UInt8)) ++ rhs.pixels h ++
      List.drop (0 + (rhs.pixels h).length) (List.replicate rhs.bytesize 0) = rhs.pixels h := by
    simp [hlen]
  unfold copy
  rw [Proc.bind_ok hreset]
  show ((do
    let bytes ← rhs.bytes
    BlockHeap.write h.next 0 bytes
    pure { rhs with data := some h.next, deleter := .default } : OnHeap HeapFrame)
      (h.allocated (List.replicate rhs.bytesize 0))) = _
  rw [Proc.bind_ok (bytes_apply (hplaced.later hlater) huse'), hpixels, Proc.bind_ok hwrite]
  simp only [hcells, BlockHeap.written_allocated]
  rfl

/-- A dangling view cannot be copied. -/
theorem copy_dangling (hplaced : rhs.Placed h) (huse : ¬rhs.Usable h) :
    ∃ h', rhs.copy h = (.error .badRead, h') := by
  have hreset : reset { rhs with data := none, deleter := .default } h =
      (.ok { rhs with data := none, deleter := .default }, h) := rfl
  have huse' : ¬rhs.Usable (h.allocated (List.replicate rhs.bytesize 0)) := by
    refine fun hall => huse fun a ha => ?_
    rcases BlockHeap.live_allocated_iff.mp (hall a ha) with rfl | hlive
    · exact absurd (hplaced.known _ ha) (Nat.lt_irrefl _)
    · exact hlive
  refine ⟨h.allocated (List.replicate rhs.bytesize 0), ?_⟩
  unfold copy
  rw [Proc.bind_ok hreset]
  show ((do
    let bytes ← rhs.bytes
    BlockHeap.write h.next 0 bytes
    pure { rhs with data := some h.next, deleter := .default } : OnHeap HeapFrame)
      (h.allocated (List.replicate rhs.bytesize 0))) = _
  exact Proc.bind_error (bytes_dangling huse')

/-- An assignment makes a copy and frees what was assigned to. -/
theorem assign_apply (hplaced : rhs.Placed h) (huse : rhs.Usable h)
    (howned : ∀ a ∈ lhs.owned, h.Live a) :
    lhs.assign rhs h =
      (.ok (rhs.at_ h.next), (h.allocated (rhs.pixels h)).released lhs.owned) := by
  unfold assign
  rw [Proc.bind_ok (copy_apply hplaced huse), Proc.bind_ok (reset_apply fun a ha =>
    BlockHeap.live_allocated_iff.mpr (.inr (howned a ha)))]
  rfl

theorem assign_dangling (lhs : HeapFrame) (hplaced : rhs.Placed h) (huse : ¬rhs.Usable h) :
    ∃ h', lhs.assign rhs h = (.error .badRead, h') := by
  obtain ⟨h', hcopy⟩ := copy_dangling hplaced huse
  exact ⟨h', Proc.bind_error hcopy⟩

theorem cloneDeep_eq_copy : rhs.cloneDeep h = rhs.clone.copy h := by
  unfold cloneDeep
  rw [Proc.bind_apply]
  rcases rhs.clone.copy h with ⟨_ | f, h'⟩ <;> rfl

theorem cloneDeep_apply (hplaced : rhs.Placed h) (huse : rhs.Usable h) :
    rhs.cloneDeep h = (.ok (rhs.at_ h.next), h.allocated (rhs.pixels h)) :=
  cloneDeep_eq_copy.trans (copy_apply ⟨hplaced.null, hplaced.known, hplaced.covers⟩ huse)

theorem cloneDeep_dangling (hplaced : rhs.Placed h) (huse : ¬rhs.Usable h) :
    ∃ h', rhs.cloneDeep h = (.error .badRead, h') := by
  rw [cloneDeep_eq_copy]
  exact copy_dangling ⟨hplaced.null, hplaced.known, hplaced.covers⟩ huse

/-- A buffer that holds the bytes of a shape. -/
theorem placed_create {shape : FrameShape} {bytes : List UInt8} (ha : h.blocks a = some bytes)
    (hlen : shape.bytesize ≤ bytes.length) (deleter : Deleter) :
    (create shape a deleter).Placed h := by
  refine ⟨nofun, ?_, ?_⟩
  · rintro c ⟨⟩
    exact (BlockHeap.live_of_blocks ha).lt
  · rintro c ⟨⟩ cells hcells
    rw [Option.mem_def, ha] at hcells
    cases hcells
    exact hlen

/-- `create_deep` copies the pixels of the buffer into a new block. -/
theorem createDeep_apply {shape : FrameShape} {bytes : List UInt8} (ha : h.blocks a = some bytes)
    (hlen : shape.bytesize ≤ bytes.length) :
    createDeep shape a h = (.ok ((create shape a .default).at_ h.next),
      h.allocated ((create shape a .default).pixels h)) := by
  have hcopy := copy_apply (placed_create ha hlen .empty) (h := h) fun c hc => by
    cases hc
    exact BlockHeap.live_of_blocks ha
  unfold createDeep
  rw [Proc.bind_ok hcopy]
  rfl

theorem ofSize_apply (size : FrameSize) (fmt : PixFmt) (found : List UInt8) (now : TimestampFF) :
    ofSize size fmt found now h =
      (.ok ({ default now with
        size := size, stride := calculateStride fmt size, pixFmt := fmt }.at_ h.next),
        h.allocated found) := rfl

/-- Painting writes one byte of the frame's block. -/
theorem paint_apply (hplaced : f.Placed h) (huse : f.Usable h) {i : Nat} (hi : i < f.bytesize)
    (byte : UInt8) :
    ∃ a old, ∃ ha : h.Live a, f.data = some a ∧ h.blocks a = some old ∧ f.bytesize ≤ old.length ∧
      f.paint i byte h = (.ok (), h.written a (old.set i byte) ha) := by
  rcases hdata : f.data with _ | a
  · have hzero := hplaced.null hdata
    omega
  · have ha := huse a hdata
    obtain ⟨old, hold⟩ := Option.isSome_iff_exists.mp ha
    have hcovers := hplaced.covers a hdata old hold
    refine ⟨a, old, ha, rfl, hold, hcovers, ?_⟩
    have hset : old.take i ++ [byte] ++ old.drop (i + [byte].length) = old.set i byte := by
      rw [List.set_eq_take_append_cons_drop, if_pos (by omega), List.append_assoc]
      rfl
    unfold paint
    rw [hdata]
    show BlockHeap.write a i [byte] h = _
    rw [BlockHeap.write_of_blocks hold (by simp; omega)]
    simp only [hset]

/-- A dangling view cannot be painted. -/
theorem paint_dangling (huse : ¬f.Usable h) (i : Nat) (byte : UInt8) :
    f.paint i byte h = (.error .badWrite, h) := by
  unfold Usable at huse
  push Not at huse
  obtain ⟨a, hdata, hdead⟩ := huse
  rw [Option.mem_def] at hdata
  unfold paint
  rw [hdata]
  exact BlockHeap.write_of_dead hdead

end HeapFrame

/-! ## The whole program -/

namespace FrameMemory

open HeapFrame

variable {ι κ : Type} {w w' : FrameMemory ι κ} {h' : BlockHeap UInt8} {x y : ι} {b : κ}
  {f : HeapFrame}

/-- The blocks that frames and buffers own. -/
def owner (w : FrameMemory ι κ) : ι ⊕ κ → Option Nat
  | .inl x => (w.frames x).bind HeapFrame.owned
  | .inr b => w.buffers b

/-- Every live block has one owner, and what frames point to has been allocated. -/
structure Sound (w : FrameMemory ι κ) : Prop where
  owned : w.heap.Owned w.owner
  placed : ∀ x, ∀ f ∈ w.frames x, f.Placed w.heap

theorem owner_of_frames_eq_none (hx : w.frames x = none) : w.owner (.inl x) = none := by
  simp [owner, hx]

theorem owner_of_mem (hx : w.frames x = some f) : w.owner (.inl x) = f.owned := by
  simp [owner, hx]

theorem sound_initial : (initial : FrameMemory ι κ).Sound where
  owned := by
    have howner : (initial : FrameMemory ι κ).owner = fun _ => none := by
      funext i
      rcases i with x | b <;> rfl
    rw [howner]
    exact .of_empty
  placed := nofun

theorem Sound.live_of_owned (hw : w.Sound) (hf : w.frames x = some f) :
    ∀ a ∈ f.owned, w.heap.Live a := fun _ ha =>
  hw.owned.live (i := .inl x) ((owner_of_mem hf).trans ha)

/-- A frame with the default deleter can be used. -/
theorem Sound.usable (hw : w.Sound) (hf : w.frames x = some f) (hdel : f.deleter = .default) :
    f.Usable w.heap := by
  have hsame : f.owned = f.data := by simp [HeapFrame.owned, hdel]
  intro a ha
  rw [← hsame] at ha
  exact hw.live_of_owned hf a ha

/-! ### Changes -/

variable [DecidableEq ι]

/-- A change of one place. -/
def setFrame (x : ι) (f : Option HeapFrame) (h' : BlockHeap UInt8) (w : FrameMemory ι κ) :
    FrameMemory ι κ :=
  { w with heap := h', frames := Function.update w.frames x f }

/-- What two places hold is exchanged. -/
def exchange (x y : ι) (w : FrameMemory ι κ) : FrameMemory ι κ :=
  { w with frames := fun z => w.frames (Equiv.swap x y z) }

theorem owner_exchange (x y : ι) (w : FrameMemory ι κ) :
    (w.exchange x y).owner = fun i => w.owner (Equiv.sumCongr (Equiv.swap x y) (.refl κ) i) := by
  funext i
  rcases i with z | b <;> rfl

theorem Sound.exchange (hw : w.Sound) (x y : ι) : (w.exchange x y).Sound where
  owned := by
    rw [owner_exchange]
    exact hw.owned.perm _
  placed := fun _ f hf => hw.placed _ f hf

variable [DecidableEq κ]

/-- A change of one buffer. -/
def setBuffer (b : κ) (a : Option Nat) (h' : BlockHeap UInt8) (w : FrameMemory ι κ) :
    FrameMemory ι κ :=
  { w with heap := h', buffers := Function.update w.buffers b a }

/-- A new frame at a place changes what this place owns. -/
theorem owner_setFrame (x : ι) (f : Option HeapFrame) (h' : BlockHeap UInt8)
    (w : FrameMemory ι κ) :
    (w.setFrame x f h').owner = Function.update w.owner (.inl x) (f.bind HeapFrame.owned) := by
  funext i
  rcases i with z | b
  · by_cases hz : z = x
    · subst hz
      simp [owner, setFrame]
    · have hne : (Sum.inl z : ι ⊕ κ) ≠ .inl x := fun heq => hz (Sum.inl.inj heq)
      simp [owner, setFrame, Function.update_of_ne hz, Function.update_of_ne hne]
  · simp [owner, setFrame]

/-- A new buffer changes what this buffer owns. -/
theorem owner_setBuffer (b : κ) (a : Option Nat) (h' : BlockHeap UInt8) (w : FrameMemory ι κ) :
    (w.setBuffer b a h').owner = Function.update w.owner (.inr b) a := by
  funext i
  rcases i with z | c
  · simp [owner, setBuffer]
  · by_cases hc : c = b
    · subst hc
      simp [owner, setBuffer]
    · have hne : (Sum.inr c : ι ⊕ κ) ≠ .inr b := fun heq => hc (Sum.inr.inj heq)
      simp [owner, setBuffer, Function.update_of_ne hc, Function.update_of_ne hne]

namespace Sound

/-- A frame that is placed on a later heap with its owners keeps the memory sound. -/
theorem of_setFrame (hw : w.Sound) {f? : Option HeapFrame} (hlater : Later w.heap h')
    (howned : h'.Owned (Function.update w.owner (.inl x) (f?.bind HeapFrame.owned)))
    (hplaced : ∀ f ∈ f?, f.Placed h') : (w.setFrame x f? h').Sound where
  owned := by
    rw [owner_setFrame]
    exact howned
  placed := fun z f hf => by
    by_cases hz : z = x
    · subst hz
      have hsame : f ∈ f? := by simpa [setFrame] using hf
      exact hplaced f hsame
    · have hsame : f ∈ w.frames z := by simpa [setFrame, Function.update_of_ne hz] using hf
      exact (hw.placed z f hsame).later hlater

/-- A buffer on a later heap with its owners keeps the memory sound. -/
theorem of_setBuffer (hw : w.Sound) {a : Option Nat} (hlater : Later w.heap h')
    (howned : h'.Owned (Function.update w.owner (.inr b) a)) : (w.setBuffer b a h').Sound where
  owned := by
    rw [owner_setBuffer]
    exact howned
  placed := fun z f hf => (hw.placed z f hf).later hlater

/-- A frame that owns what the place has owned. -/
theorem setFrame_same (hw : w.Sound) (hf : f.owned = w.owner (.inl x))
    (hplaced : f.Placed w.heap) : (w.setFrame x (some f) w.heap).Sound := by
  refine hw.of_setFrame (.refl _) ?_ ?_
  · rw [Option.bind_some, hf, Function.update_eq_self]
    exact hw.owned
  · rintro g ⟨⟩
    exact hplaced

/-- A frame with a new block; what the place owned is freed. -/
theorem setFrame_new (hw : w.Sound) {cells : List UInt8} (hcells : f.bytesize ≤ cells.length) :
    (w.setFrame x (some (f.at_ w.heap.next))
      ((w.heap.allocated cells).released (w.owner (.inl x)))).Sound := by
  have hlater := later_released (w.heap.allocated cells) (w.owner (.inl x))
  refine hw.of_setFrame ((later_allocated _ _).trans hlater) (hw.owned.replace _) ?_
  rintro g ⟨⟩
  exact (placed_at hcells).later hlater

/-- A place is emptied. -/
theorem setFrame_none (hw : w.Sound) (x : ι) :
    (w.setFrame x none (w.heap.released (w.owner (.inl x)))).Sound :=
  hw.of_setFrame (later_released _ _) (hw.owned.release _) nofun

/-- A buffer that is given up becomes the frame's. -/
theorem adopt (hw : w.Sound) (hx : w.frames x = none) {a : Nat} (hb : w.buffers b = some a)
    {shape : FrameShape} (hcovers : w.Covers a shape) :
    ((w.setBuffer b none w.heap).setFrame x (some (.create shape a .default)) w.heap).Sound where
  owned := by
    have howner : ((w.setBuffer b none w.heap).setFrame x
        (some (.create shape a .default)) w.heap).owner =
        fun i => w.owner (Equiv.swap (.inl x) (.inr b) i) := by
      rw [owner_setFrame, owner_setBuffer]
      funext i
      by_cases hix : i = .inl x
      · rw [hix, Function.update_self, Equiv.swap_apply_left]
        exact hb.symm
      · rw [Function.update_of_ne hix]
        by_cases hib : i = .inr b
        · rw [hib, Function.update_self, Equiv.swap_apply_right, owner_of_frames_eq_none hx]
        · rw [Function.update_of_ne hib, Equiv.swap_apply_of_ne_of_ne hix hib]
    rw [howner]
    exact hw.owned.perm _
  placed := fun z f hf => by
    by_cases hz : z = x
    · subst hz
      have hsame : f = .create shape a .default := by simpa [setFrame] using hf.symm
      obtain ⟨bytes, hbytes, hlen⟩ := hcovers
      rw [hsame]
      exact placed_create hbytes hlen .default
    · have hsame : f ∈ w.frames z := by
        simpa [setFrame, setBuffer, Function.update_of_ne hz] using hf
      exact hw.placed z f hsame

end Sound

/-! ### Operations -/

omit [DecidableEq κ] in

theorem create_of_ok {p : OnHeap HeapFrame} (hx : w.frames x = none)
    (hp : p w.heap = (.ok f, h')) : w.create x p = some (w.setFrame x (some f) h') := by
  unfold FrameMemory.create run
  simp only [hx, hp]
  rfl

omit [DecidableEq κ] in

theorem create_pure (hx : w.frames x = none) :
    w.create x (pure f) = some (w.setFrame x (some f) w.heap) := create_of_ok hx rfl

omit [DecidableEq κ] in

/-- A construction that fails faults. -/
theorem create_of_error {p : OnHeap HeapFrame} {e : HeapFault} (hx : w.frames x = none)
    (hp : p w.heap = (.error e, h')) :
    w.create x p = some { w with heap := h', fault := some e } := by
  unfold FrameMemory.create run
  simp only [hx, hp]
  rfl

omit [DecidableEq κ] in
/-- A place that gets a frame had none. -/
theorem of_create_eq_some {p : OnHeap HeapFrame} (hs : w.create x p = some w') :
    w.frames x = none := by
  unfold FrameMemory.create at hs
  split at hs
  · cases hs
  · rename_i hx
    simpa using hx

/-- A frame with a new block at a place that had none. -/
theorem Sound.create_new (hw : w.Sound) {p : OnHeap HeapFrame} {cells : List UInt8}
    (hp : p w.heap = (.ok (f.at_ w.heap.next), w.heap.allocated cells))
    (hcells : f.bytesize ≤ cells.length) (hs : w.create x p = some w') :
    w'.fault = w.fault ∧ w'.Sound := by
  have hx := of_create_eq_some hs
  rw [create_of_ok hx hp] at hs
  cases hs
  have hsound := hw.setFrame_new (x := x) hcells
  rw [owner_of_frames_eq_none hx] at hsound
  exact ⟨rfl, hsound⟩

/-- A frame that owns nothing at a place that had none. -/
theorem Sound.create_ownerless (hw : w.Sound) (hf : f.owned = none) (hplaced : f.Placed w.heap)
    (hs : w.create x (pure f) = some w') : w'.fault = w.fault ∧ w'.Sound := by
  have hx := of_create_eq_some hs
  rw [create_pure hx] at hs
  cases hs
  exact ⟨rfl, hw.setFrame_same (hf.trans (owner_of_frames_eq_none hx).symm) hplaced⟩

omit [DecidableEq κ] in
/-- A move from one place to another is an exchange after which the first is emptied. -/
theorem update_exchanged {α : Type} (g : ι → α) (d : α) (hxy : x ≠ y) :
    Function.update (Function.update g y d) x (g y) =
      Function.update (g ∘ Equiv.swap x y) y d := by
  rw [Equiv.comp_swap_eq_update, Function.update_comm hxy, Function.update_idem]

omit [DecidableEq κ] in

/-- A move exchanges the two frames and empties the source. -/
theorem moved_eq (hxy : x ≠ y) (hy : w.frames y = some f) (now : TimestampFF) :
    (w.put y (.default now)).setFrame x (some f) w.heap =
      (w.exchange x y).setFrame y (some (.default now)) w.heap := by
  unfold put setFrame FrameMemory.exchange
  dsimp only
  rw [← hy, update_exchanged _ _ hxy]
  rfl

/-- A move keeps the memory sound. -/
theorem Sound.move (hw : w.Sound) (hxy : x ≠ y) (hx : w.frames x = none)
    (hy : w.frames y = some f) (now : TimestampFF) :
    ((w.put y (.default now)).setFrame x (some f) w.heap).Sound := by
  have hnone : (w.exchange x y).frames y = none := by
    show w.frames (Equiv.swap x y y) = none
    rw [Equiv.swap_apply_right, hx]
  rw [moved_eq hxy hy]
  exact (hw.exchange x y).setFrame_same (owner_of_frames_eq_none hnone).symm (placed_default now)

omit [DecidableEq κ] in
/-- A place that gets another frame may be emptied before. -/
theorem emptied_first_eq (hxy : x ≠ y) {now : TimestampFF} :
    ((w.setFrame x none h').put y (.default now)).setFrame x (some f) h' =
      (w.put y (.default now)).setFrame x (some f) h' := by
  unfold put setFrame
  dsimp only
  rw [Function.update_comm hxy, Function.update_idem]

/-- What was at the place is destroyed before the frame moves in. -/
theorem Sound.moveAssign (hw : w.Sound) {lhs : HeapFrame} (hxy : x ≠ y)
    (hx : w.frames x = some lhs) (hy : w.frames y = some f) (now : TimestampFF) :
    ((w.put y (.default now)).setFrame x (some f) (w.heap.released lhs.owned)).Sound := by
  have hemptied := hw.setFrame_none x
  rw [owner_of_mem hx] at hemptied
  have hmoved := hemptied.move hxy (Function.update_self ..)
    (by simpa [setFrame, Function.update_of_ne hxy.symm] using hy) now
  rw [← emptied_first_eq hxy]
  exact hmoved

omit [DecidableEq κ] in

/-- A swap exchanges the two frames. -/
theorem swapped_eq {lhs : HeapFrame} (hx : w.frames x = some lhs) (hy : w.frames y = some f) :
    (w.put x f).put y lhs = w.exchange x y := by
  have hframes : Function.update (Function.update w.frames x (some f)) y (some lhs) =
      w.frames ∘ Equiv.swap x y := by
    rw [Equiv.swap_comm, Equiv.comp_swap_eq_update, hx, hy]
  unfold put FrameMemory.exchange
  dsimp only
  rw [hframes]
  rfl

omit [DecidableEq ι] [DecidableEq κ] in
/-- A write within a live block. -/
theorem Sound.written (hw : w.Sound) {a : Nat} {cells old : List UInt8} (ha : w.heap.Live a)
    (hold : w.heap.blocks a = some old) (hlen : cells.length = old.length) :
    ({ w with heap := w.heap.written a cells ha } : FrameMemory ι κ).Sound where
  owned := hw.owned.written ha
  placed := fun x f hf => (hw.placed x f hf).later (later_written ha hold hlen)

/-- An operation that uses no dangling view neither fails nor confuses the owners. -/
theorem perform_sound (hw : w.Sound) {op : FrameOp ι κ}
    (huse : ∀ x ∈ op.accessed, ∀ f ∈ w.frames x, f.Usable w.heap)
    (hs : w.perform op = some w') : w'.fault = w.fault ∧ w'.Sound := by
  cases op with
  | declare x now => exact hw.create_ownerless rfl (placed_default now) hs
  | ofSize x size fmt found now =>
    simp only [perform] at hs
    split at hs
    · rename_i hlen
      exact hw.create_new (ofSize_apply ..) hlen.ge hs
    · cases hs
  | copy x y =>
    obtain ⟨rhs, hy, hs⟩ := Option.bind_eq_some_iff.mp hs
    have hplaced := hw.placed y rhs hy
    have husable := huse y (by simp [FrameOp.accessed]) rhs hy
    exact hw.create_new (copy_apply hplaced husable) (length_pixels hplaced husable).ge hs
  | cloneDeep x y =>
    obtain ⟨rhs, hy, hs⟩ := Option.bind_eq_some_iff.mp hs
    have hplaced := hw.placed y rhs hy
    have husable := huse y (by simp [FrameOp.accessed]) rhs hy
    exact hw.create_new (cloneDeep_apply hplaced husable) (length_pixels hplaced husable).ge hs
  | createDeep x b shape =>
    obtain ⟨a, hb, hs⟩ := Option.bind_eq_some_iff.mp hs
    split at hs
    · rename_i hcovers
      obtain ⟨bytes, hbytes, hlen⟩ := hcovers
      have hpixels := length_pixels (placed_create hbytes hlen .default) fun c hc => by
        cases hc
        exact BlockHeap.live_of_blocks hbytes
      exact hw.create_new (createDeep_apply hbytes hlen) hpixels.ge hs
    · cases hs
  | assign x y =>
    obtain ⟨lhs, hx, hs⟩ := Option.bind_eq_some_iff.mp hs
    obtain ⟨rhs, hy, rfl⟩ := Option.map_eq_some_iff.mp hs
    have hplaced := hw.placed y rhs hy
    have husable := huse y (by simp [FrameOp.accessed]) rhs hy
    unfold run
    rw [assign_apply hplaced husable (hw.live_of_owned hx), ← owner_of_mem hx]
    exact ⟨rfl, hw.setFrame_new (length_pixels hplaced husable).ge⟩
  | move x y now =>
    obtain ⟨rhs, hy, hs⟩ := Option.bind_eq_some_iff.mp hs
    have hnone := of_create_eq_some hs
    rw [create_pure hnone] at hs
    cases hs
    have hxy : x ≠ y := by
      rintro rfl
      simp [put] at hnone
    have hx : w.frames x = none := by simpa [put, Function.update_of_ne hxy] using hnone
    exact ⟨rfl, hw.move hxy hx hy now⟩
  | moveAssign x y now =>
    obtain ⟨rhs, hy, hs⟩ := Option.bind_eq_some_iff.mp hs
    obtain ⟨lhs, hlhs, rfl⟩ := Option.map_eq_some_iff.mp hs
    by_cases hxy : x = y
    · subst hxy
      have hdefault : lhs = .default now := by simpa [put] using hlhs.symm
      have hback : (Function.update (Function.update w.frames x (some (.default now))) x
          (some rhs)) = w.frames := by
        rw [Function.update_idem, ← hy, Function.update_eq_self]
      rw [hdefault]
      refine ⟨rfl, ?_⟩
      show FrameMemory.Sound { w with frames := Function.update (Function.update _ _ _) x _ }
      rw [hback]
      exact hw
    · have hx : w.frames x = some lhs := by simpa [put, Function.update_of_ne hxy] using hlhs
      unfold run
      have hreset : lhs.reset (w.put y (.default now)).heap = _ :=
        reset_apply (hw.live_of_owned hx)
      rw [hreset]
      exact ⟨rfl, hw.moveAssign hxy hx hy now⟩
  | swap x y =>
    obtain ⟨lhs, hx, hs⟩ := Option.bind_eq_some_iff.mp hs
    obtain ⟨rhs, hy, rfl⟩ := Option.map_eq_some_iff.mp hs
    rw [swapped_eq hx hy]
    exact ⟨rfl, hw.exchange x y⟩
  | destroy x =>
    obtain ⟨g, hx, rfl⟩ := Option.map_eq_some_iff.mp hs
    unfold run
    rw [reset_apply (hw.live_of_owned hx), ← owner_of_mem hx]
    exact ⟨rfl, hw.setFrame_none x⟩
  | adopt x b shape =>
    obtain ⟨a, hb, hs⟩ := Option.bind_eq_some_iff.mp hs
    split at hs
    · rename_i hcovers
      have hx := of_create_eq_some hs
      have heq := (create_pure hx).symm.trans hs
      cases heq
      exact ⟨rfl, hw.adopt hx hb hcovers⟩
    · cases hs
  | setTimes x ts duration =>
    obtain ⟨g, hx, rfl⟩ := Option.map_eq_some_iff.mp hs
    have hplaced := hw.placed x g hx
    exact ⟨rfl, hw.setFrame_same (owner_of_mem hx).symm
      ⟨hplaced.null, hplaced.known, hplaced.covers⟩⟩
  | paint x i byte =>
    obtain ⟨g, hx, hs⟩ := Option.bind_eq_some_iff.mp hs
    split at hs
    · rename_i hi
      obtain ⟨a, old, ha, -, hold, -, hpaint⟩ := paint_apply (hw.placed x g hx)
        (huse x (by simp [FrameOp.accessed]) g hx) hi byte
      unfold run at hs
      rw [hpaint] at hs
      cases hs
      exact ⟨rfl, hw.written ha hold (List.length_set ..)⟩
    · cases hs
  | buffer b bytes =>
    simp only [perform] at hs
    split at hs
    · cases hs
    · rename_i hb
      cases hs
      have hnone : w.owner (.inr b) = none := by simpa [owner] using hb
      exact ⟨rfl, hw.of_setBuffer (later_allocated _ _) (hw.owned.alloc hnone)⟩
  | dropBuffer b =>
    obtain ⟨a, hb, rfl⟩ := Option.map_eq_some_iff.mp hs
    have hlive : w.heap.Live a := hw.owned.live (i := .inr b) hb
    have howner : w.owner (.inr b) = some a := hb
    have hreleased := hw.owned.release (.inr b)
    rw [howner] at hreleased
    unfold run
    rw [BlockHeap.free_of_live hlive]
    exact ⟨rfl, hw.of_setBuffer (later_released _ (some a)) hreleased⟩

/-- An operation that uses a dangling view fails. -/
theorem perform_dangling (hw : w.Sound) {op : FrameOp ι κ} (hx : x ∈ op.accessed)
    (hf : w.frames x = some f) (huse : ¬f.Usable w.heap) (hs : w.perform op = some w') :
    w'.fault = some .badRead ∨ w'.fault = some .badWrite := by
  have hplaced := hw.placed x f hf
  cases op with
  | copy z y =>
    obtain rfl : x = y := by simpa [FrameOp.accessed] using hx
    obtain ⟨rhs, hy, hs⟩ := Option.bind_eq_some_iff.mp hs
    obtain rfl : f = rhs := Option.some.inj (hf.symm.trans hy)
    obtain ⟨h', hfail⟩ := copy_dangling hplaced huse
    rw [create_of_error (of_create_eq_some hs) hfail] at hs
    cases hs
    exact .inl rfl
  | cloneDeep z y =>
    obtain rfl : x = y := by simpa [FrameOp.accessed] using hx
    obtain ⟨rhs, hy, hs⟩ := Option.bind_eq_some_iff.mp hs
    obtain rfl : f = rhs := Option.some.inj (hf.symm.trans hy)
    obtain ⟨h', hfail⟩ := cloneDeep_dangling hplaced huse
    rw [create_of_error (of_create_eq_some hs) hfail] at hs
    cases hs
    exact .inl rfl
  | assign z y =>
    obtain rfl : x = y := by simpa [FrameOp.accessed] using hx
    obtain ⟨lhs, -, hs⟩ := Option.bind_eq_some_iff.mp hs
    obtain ⟨rhs, hy, rfl⟩ := Option.map_eq_some_iff.mp hs
    obtain rfl : f = rhs := Option.some.inj (hf.symm.trans hy)
    obtain ⟨h', hfail⟩ := assign_dangling lhs hplaced huse
    unfold run
    rw [hfail]
    exact .inl rfl
  | paint z i byte =>
    obtain rfl : x = z := by simpa [FrameOp.accessed] using hx
    obtain ⟨g, hg, hs⟩ := Option.bind_eq_some_iff.mp hs
    obtain rfl : f = g := Option.some.inj (hf.symm.trans hg)
    split at hs
    · unfold run at hs
      rw [paint_dangling huse] at hs
      cases hs
      exact .inr rfl
    · cases hs
  | declare | ofSize | move | moveAssign | swap | destroy | adopt | createDeep | setTimes | buffer
    | dropBuffer => simp [FrameOp.accessed] at hx

/-! ### Runs -/

/-- The frames the pixels of which a step reads or writes can be used. -/
def UsesLive (w : FrameMemory ι κ) (l : FrameLabel ι κ) : Prop :=
  ∀ x ∈ l.accessed, ∀ f ∈ w.frames x, f.Usable w.heap

/-- A program that faulted makes no step. -/
theorem fault_of_step {l : FrameLabel ι κ} (hs : w.step l = some w') : w.fault = none := by
  unfold step at hs
  split at hs
  · cases hs
  · rename_i hfault
    simpa using hfault

/-- A step that uses live blocks only keeps the memory sound. -/
theorem step_sound (hw : w.Sound) {l : FrameLabel ι κ} (huse : w.UsesLive l)
    (hs : w.step l = some w') : w'.fault = none ∧ w'.Sound := by
  unfold step at hs
  split at hs
  · cases hs
  · rename_i hfault
    have hnone : w.fault = none := by simpa using hfault
    rw [← hnone]
    cases l with
    | owning op => exact perform_sound hw huse hs
    | clone x y =>
      obtain ⟨rhs, hy, hs⟩ := Option.bind_eq_some_iff.mp hs
      have hplaced := hw.placed y rhs hy
      exact hw.create_ownerless (f := rhs.clone) rfl
        ⟨hplaced.null, hplaced.known, hplaced.covers⟩ hs
    | createView x b shape =>
      obtain ⟨a, -, hs⟩ := Option.bind_eq_some_iff.mp hs
      split at hs
      · rename_i hcovers
        obtain ⟨bytes, hbytes, hlen⟩ := hcovers
        exact hw.create_ownerless rfl (placed_create hbytes hlen .empty) hs
      · cases hs

/-- A step that uses a dangling view faults. -/
theorem step_dangling (hw : w.Sound) {l : FrameLabel ι κ} (huse : ¬w.UsesLive l)
    (hs : w.step l = some w') : w'.fault = some .badRead ∨ w'.fault = some .badWrite := by
  unfold UsesLive at huse
  push Not at huse
  obtain ⟨x, hx, f, hf, hdangling⟩ := huse
  unfold step at hs
  split at hs
  · cases hs
  · cases l with
    | owning op => exact perform_dangling hw hx hf hdangling hs
    | clone | createView => simp [FrameLabel.accessed] at hx

/-- As long as nothing has failed, the owners are as they should be. -/
def Safe (w : FrameMemory ι κ) : Prop :=
  w.fault ≠ some .badFree ∧ (w.fault = none → w.Sound)

/-- In every reachable state the memory is sound or the program has used a dangling view. -/
theorem safe_of_reachable (hw : (machine ι κ).Reachable w) : w.Safe := by
  refine hw.invariant (I := Safe) ⟨by simp [machine, initial], fun _ => sound_initial⟩ ?_
  intro w l w' hsafe hs
  have hnone := fault_of_step hs
  by_cases huse : w.UsesLive l
  · obtain ⟨hfault, hsound⟩ := step_sound (hsafe.2 hnone) huse hs
    exact ⟨by simp [hfault], fun _ => hsound⟩
  · rcases step_dangling (hsafe.2 hnone) huse hs with hfault | hfault
    · exact ⟨by simp [hfault], by simp [hfault]⟩
    · exact ⟨by simp [hfault], by simp [hfault]⟩

/-- Whatever a program does with its frames: no block is freed twice, and as long as nothing was
used after it was freed, every live block is owned by exactly one frame that is no view or is
exactly one buffer.  So once these are gone, so are the blocks. -/
theorem freed_once (hw : (machine ι κ).Reachable w) :
    w.fault ≠ some .badFree ∧ (w.fault = none → w.heap.Owned w.owner) :=
  ⟨(safe_of_reachable hw).1, fun hfault => ((safe_of_reachable hw).2 hfault).owned⟩

/-- A frame, a view of it and a copy; then the frame is destroyed and the view stays. -/
def viewLeft : List (FrameLabel Nat Nat) :=
  [.owning (.ofSize 0 ⟨2, 1⟩ .gray [7, 8] 0), .clone 1 0, .owning (.copy 2 1),
    .owning (.destroy 0)]

/-- A view outlives the frame that it was made of. -/
theorem freed_once_view_left :
    ∃ w : FrameMemory Nat Nat, (machine Nat Nat).Reachable w ∧ w.fault = none ∧
      w.heap.blocks 0 = none ∧ w.heap.blocks 1 = some [7, 8] ∧
      w.fault ≠ some .badFree ∧ (w.fault = none → w.heap.Owned w.owner) := by
  obtain ⟨w, -, hrun, hw⟩ := Machine.exists_run_of_exec (machine Nat Nat) viewLeft
    (fun w => w.fault = none ∧ w.heap.blocks 0 = none ∧ w.heap.blocks 1 = some [7, 8])
    (by decide +kernel)
  obtain ⟨hfault, hfreed, hlive⟩ := of_decide_eq_true hw
  exact ⟨w, ⟨_, hrun⟩, hfault, hfreed, hlive, freed_once ⟨_, hrun⟩⟩

/-- A step fails exactly when it reads or writes the pixels of a view the block of which has been
freed. -/
theorem fails_iff_dangling (hw : (machine ι κ).Reachable w) {l : FrameLabel ι κ}
    (hs : (machine ι κ).step w l = some w') :
    w'.fault.isSome ↔ ∃ x ∈ l.accessed, ∃ f ∈ w.frames x, f.deleter = .empty ∧
      ∃ a ∈ f.data, w.heap.blocks a = none := by
  have hsound := (safe_of_reachable hw).2 (fault_of_step hs)
  constructor
  · intro hfails
    have huse : ¬w.UsesLive l := by
      intro huse
      rw [(step_sound hsound huse hs).1] at hfails
      cases hfails
    unfold UsesLive at huse
    push Not at huse
    obtain ⟨x, hx, f, hf, hdangling⟩ := huse
    refine ⟨x, hx, f, hf, ?_, ?_⟩
    · cases hdel : f.deleter with
      | empty => rfl
      | default => exact absurd (hsound.usable hf hdel) hdangling
    · unfold Usable at hdangling
      push Not at hdangling
      obtain ⟨a, ha, hdead⟩ := hdangling
      exact ⟨a, ha, by simpa [BlockHeap.Live] using hdead⟩
  · rintro ⟨x, hx, f, hf, -, a, ha, hdead⟩
    have huse : ¬w.UsesLive l := fun huse => by
      have hlive := huse x hx f hf a ha
      rw [BlockHeap.Live, hdead] at hlive
      cases hlive
    rcases step_dangling hsound huse hs with hfault | hfault <;> simp [hfault]

/-- The view that was left is copied. -/
theorem fails_iff_dangling_copy :
    ∃ w w' : FrameMemory Nat Nat, (machine Nat Nat).Reachable w ∧
      (machine Nat Nat).step w (.owning (.copy 3 1)) = some w' ∧ w'.fault = some .badRead ∧
      (w'.fault.isSome ↔ ∃ x ∈ (FrameLabel.owning (.copy 3 1) : FrameLabel Nat Nat).accessed,
        ∃ f ∈ w.frames x, f.deleter = .empty ∧ ∃ a ∈ f.data, w.heap.blocks a = none) := by
  obtain ⟨w, -, hrun, hw⟩ := Machine.exists_run_of_exec (machine Nat Nat) viewLeft
    (fun w => (w.step (.owning (.copy 3 1))).any fun w' => w'.fault = some .badRead)
    (by decide +kernel)
  obtain ⟨w', hstep, hfault⟩ := (Option.any_eq_true ..).mp hw
  exact ⟨w, w', ⟨_, hrun⟩, hstep, of_decide_eq_true hfault, fails_iff_dangling ⟨_, hrun⟩ hstep⟩

end FrameMemory

end Seekira.Model.Video
