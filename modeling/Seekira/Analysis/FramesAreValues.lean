import Seekira.Analysis.FrameOwnership
import Seekira.Library.Simulation
import Seekira.Model.FrameValues

/-!
# Frames are values

As long as a program makes no views, its frames behave as values: the program can do the
same operations in either model, and what a frame points to are the pixels that the value
holds.
-/

set_option autoImplicit false

namespace Seekira.Model.Video

open Library

/-- The frame in memory is the given value. -/
structure Shows (h : BlockHeap UInt8) (value : Frame) (f : HeapFrame) : Prop where
  size : value.size = f.size
  stride : value.stride = f.stride
  pixFmt : value.pixFmt = f.pixFmt
  ts : value.ts = f.ts
  duration : value.duration = f.duration
  data : value.data = f.pixels h

namespace Shows

open HeapFrame

variable {h h' : BlockHeap UInt8} {value value' : Frame} {f g : HeapFrame} {a : Nat}

theorem bytesize_eq (hshow : Shows h value f) : value.bytesize = f.bytesize := by
  unfold Frame.bytesize HeapFrame.bytesize
  rw [hshow.stride, hshow.size]

/-- A frame shows the same value while its block is the same. -/
theorem of_blocks (hshow : Shows h value f) (hsame : ∀ a ∈ f.data, h'.blocks a = h.blocks a) :
    Shows h' value f := by
  refine ⟨hshow.size, hshow.stride, hshow.pixFmt, hshow.ts, hshow.duration, ?_⟩
  rw [hshow.data]
  unfold pixels
  rcases hdata : f.data with _ | a
  · rfl
  · rw [Option.bind_some, Option.bind_some, hsame a hdata]

theorem default (now : TimestampFF) : Shows h (.default now) (.default now) :=
  ⟨rfl, rfl, rfl, rfl, rfl, rfl⟩

/-- The pixels at a block. -/
theorem pixels_at {cells : List UInt8} (ha : h.blocks a = some cells)
    (hlen : cells.length = f.bytesize) : (f.at_ a).pixels h = cells := by
  show (((some a).bind h.blocks).getD []).take f.bytesize = cells
  rw [Option.bind_some, ha, Option.getD_some, List.take_of_length_le hlen.le]

/-- A frame whose pixels were copied to a block. -/
theorem at_block (hshow : Shows h value f) (ha : h'.blocks a = some (f.pixels h))
    (hlen : (f.pixels h).length = f.bytesize) : Shows h' value (f.at_ a) :=
  ⟨hshow.size, hshow.stride, hshow.pixFmt, hshow.ts, hshow.duration,
    hshow.data.trans (pixels_at ha hlen).symm⟩

/-- `operator==` compares the values. -/
theorem equals_apply (hf : Shows h value f) (hg : Shows h value' g) (hpf : f.Placed h)
    (hpg : g.Placed h) (huf : f.Usable h) (hug : g.Usable h) :
    f.equals g h = (.ok (decide (value.Same value')), h) := by
  unfold HeapFrame.equals
  split
  · rename_i heq
    rw [Proc.bind_ok (bytes_apply hpf huf), Proc.bind_ok (bytes_apply hpg hug)]
    have hsame : value.Same value' ↔ f.pixels h = g.pixels h := by
      unfold Frame.Same
      rw [hf.size, hg.size, hf.pixFmt, hg.pixFmt, hf.stride, hg.stride, hf.data, hg.data]
      simp [heq.2]
    simp [hsame, Bool.beq_eq_decide_eq]
  · rename_i hne
    have hdiff : ¬value.Same value' := by
      rintro ⟨hsize, hfmt, hstride, -⟩
      rw [hf.size, hg.size] at hsize
      rw [hf.pixFmt, hg.pixFmt] at hfmt
      rw [hf.stride, hg.stride] at hstride
      refine hne ⟨?_, hsize, hfmt, hstride⟩
      unfold HeapFrame.bytesize
      rw [hstride, hsize]
    simp [hdiff]

end Shows

/-! ## The relation -/

namespace FrameMemory

open HeapFrame

variable {ι κ : Type} {v v' : FrameValues ι κ} {w w' : FrameMemory ι κ} {x y : ι} {b : κ}

/-- Nothing has failed, no frame is a view, and every place shows its value. -/
structure Agrees (v : FrameValues ι κ) (w : FrameMemory ι κ) : Prop where
  fault : w.fault = none
  sound : w.Sound
  owning : ∀ x, ∀ f ∈ w.frames x, f.deleter = .default
  frames : ∀ x, Option.Rel (Shows w.heap) (v.frames x) (w.frames x)
  buffers : ∀ b, (w.buffers b).bind w.heap.blocks = v.buffers b

theorem agrees_initial : Agrees (.initial : FrameValues ι κ) .initial where
  fault := rfl
  sound := sound_initial
  owning := nofun
  frames := fun _ => .none
  buffers := fun _ => rfl

namespace Agrees

theorem none_iff (h : Agrees v w) (x : ι) : v.frames x = none ↔ w.frames x = none := by
  have hx := h.frames x
  generalize v.frames x = value at hx ⊢
  generalize w.frames x = f at hx ⊢
  cases hx <;> simp

/-- Each frame shows a value. -/
theorem exists_of_mem (h : Agrees v w) {f : HeapFrame} (hf : w.frames x = some f) :
    ∃ value, v.frames x = some value ∧ Shows w.heap value f := by
  have hx := h.frames x
  rw [hf] at hx
  generalize v.frames x = value at hx ⊢
  cases hx with
  | some hshow => exact ⟨_, rfl, hshow⟩

theorem owner_of_data (h : Agrees v w) {f : HeapFrame} (hf : w.frames x = some f) :
    w.owner (.inl x) = f.data := by
  rw [owner_of_mem hf, HeapFrame.owned, h.owning x f hf]

theorem usable (h : Agrees v w) {f : HeapFrame} (hf : w.frames x = some f) : f.Usable w.heap :=
  h.sound.usable hf (h.owning x f hf)

/-- What is read at two places that both have frames. -/
theorem rel_bind (h : Agrees v w) (y : ι) {P : Frame → Option (FrameValues ι κ)}
    {Q : HeapFrame → Option (FrameMemory ι κ)}
    (hboth : ∀ value f, v.frames y = some value → w.frames y = some f → Shows w.heap value f →
      Option.Rel Agrees (P value) (Q f)) :
    Option.Rel Agrees ((v.frames y).bind P) ((w.frames y).bind Q) := by
  rcases hf : w.frames y with _ | f
  · rw [(h.none_iff y).mpr hf]
    exact .none
  · obtain ⟨value, hvalue, hshow⟩ := h.exists_of_mem hf
    rw [hvalue]
    exact hboth value f hvalue hf hshow

/-- Two operations on a frame and its value keep the agreement. -/
theorem rel_map (h : Agrees v w) (y : ι) {P : Frame → FrameValues ι κ}
    {Q : HeapFrame → FrameMemory ι κ}
    (hboth : ∀ value f, v.frames y = some value → w.frames y = some f → Shows w.heap value f →
      Agrees (P value) (Q f)) :
    Option.Rel Agrees ((v.frames y).map P) ((w.frames y).map Q) := by
  rw [Option.map_eq_bind, Option.map_eq_bind]
  exact h.rel_bind y fun value f hvalue hf hshow => .some (hboth value f hvalue hf hshow)

variable [DecidableEq ι] [DecidableEq κ]

omit [DecidableEq κ] in
/-- A change of one place leaves the others as they are, if the blocks that these own stay. -/
theorem setFrame (h : Agrees v w) {h' : BlockHeap UInt8} {value? : Option Frame}
    {f? : Option HeapFrame} (hsound : (w.setFrame x f? h').Sound)
    (hdel : ∀ f ∈ f?, f.deleter = .default) (hshow : Option.Rel (Shows h') value? f?)
    (hkeep : ∀ i ≠ .inl x, ∀ a, w.owner i = some a → h'.blocks a = w.heap.blocks a) :
    Agrees (v.setFrame x value?) (w.setFrame x f? h') where
  fault := h.fault
  sound := hsound
  owning := fun z f hf => by
    by_cases hz : z = x
    · subst hz
      have hsame : f ∈ f? := by simpa [FrameMemory.setFrame] using hf
      exact hdel f hsame
    · have hsame : f ∈ w.frames z := by
        simpa [FrameMemory.setFrame, Function.update_of_ne hz] using hf
      exact h.owning z f hsame
  frames := fun z => by
    show Option.Rel (Shows h') (Function.update v.frames x value? z)
      (Function.update w.frames x f? z)
    by_cases hz : z = x
    · rw [hz, Function.update_self, Function.update_self]
      exact hshow
    · rw [Function.update_of_ne hz, Function.update_of_ne hz]
      rcases hf : w.frames z with _ | f
      · rw [(h.none_iff z).mpr hf]
        exact .none
      · obtain ⟨value, hvalue, hold⟩ := h.exists_of_mem hf
        rw [hvalue]
        refine .some (hold.of_blocks fun a ha => hkeep (.inl z) (by simp [hz]) a ?_)
        rw [h.owner_of_data hf]
        exact ha
  buffers := fun b => by
    show (w.buffers b).bind h'.blocks = v.buffers b
    rw [← h.buffers b]
    rcases hb : w.buffers b with _ | a
    · rfl
    · exact hkeep (.inr b) (by simp) a hb

omit [DecidableEq ι] in

/-- A buffer that holds the same bytes keeps the agreement. -/
theorem setBuffer (h : Agrees v w) {h' : BlockHeap UInt8} {bytes? : Option (List UInt8)}
    {a? : Option Nat} (hsound : (w.setBuffer b a? h').Sound) (hshow : a?.bind h'.blocks = bytes?)
    (hkeep : ∀ i ≠ .inr b, ∀ a, w.owner i = some a → h'.blocks a = w.heap.blocks a) :
    Agrees (v.setBuffer b bytes?) (w.setBuffer b a? h') where
  fault := h.fault
  sound := hsound
  owning := h.owning
  frames := fun z => by
    show Option.Rel (Shows h') (v.frames z) (w.frames z)
    rcases hf : w.frames z with _ | f
    · rw [(h.none_iff z).mpr hf]
      exact .none
    · obtain ⟨value, hvalue, hold⟩ := h.exists_of_mem hf
      rw [hvalue]
      refine .some (hold.of_blocks fun a ha => hkeep (.inl z) (by simp) a ?_)
      rw [h.owner_of_data hf]
      exact ha
  buffers := fun c => by
    show (Function.update w.buffers b a? c).bind h'.blocks = Function.update v.buffers b bytes? c
    by_cases hc : c = b
    · rw [hc, Function.update_self, Function.update_self, hshow]
    · rw [Function.update_of_ne hc, Function.update_of_ne hc, ← h.buffers c]
      rcases hb : w.buffers c with _ | a
      · rfl
      · exact hkeep (.inr c) (by simp [hc]) a hb

omit [DecidableEq κ] in

/-- Exchanging two frames keeps the agreement. -/
theorem exchange (h : Agrees v w) (x y : ι) :
    Agrees { v with frames := fun z => v.frames (Equiv.swap x y z) } (w.exchange x y) where
  fault := h.fault
  sound := h.sound.exchange x y
  owning := fun _ f hf => h.owning _ f hf
  frames := fun _ => h.frames _
  buffers := h.buffers

/-! ## The operations -/

omit [DecidableEq κ] in

/-- A construction that shows its value keeps the agreement. -/
theorem rel_create (h : Agrees v w) {value : Frame} {p : OnHeap HeapFrame}
    (hboth : w.frames x = none → ∃ w', w.create x p = some w' ∧
      Agrees (v.setFrame x (some value)) w') :
    Option.Rel Agrees (v.create x value) (w.create x p) := by
  rcases hf : w.frames x with _ | f
  · obtain ⟨w', hw', hagrees⟩ := hboth hf
    rw [hw']
    unfold FrameValues.create
    rw [(h.none_iff x).mpr hf]
    exact .some hagrees
  · obtain ⟨old, hold, -⟩ := h.exists_of_mem hf
    unfold FrameValues.create FrameMemory.create
    rw [hold, hf]
    exact .none

/-- A frame with a new block at a place that had none. -/
theorem rel_create_new (h : Agrees v w) {value : Frame} {f : HeapFrame} {p : OnHeap HeapFrame}
    {cells : List UInt8} (hp : p w.heap = (.ok (f.at_ w.heap.next), w.heap.allocated cells))
    (hcells : cells.length = f.bytesize)
    (hshow : Shows (w.heap.allocated cells) value (f.at_ w.heap.next)) :
    Option.Rel Agrees (v.create x value) (w.create x p) := by
  refine h.rel_create fun hx => ?_
  have hcreated := create_of_ok hx hp
  obtain ⟨-, hsound⟩ := h.sound.create_new hp hcells.ge hcreated
  refine ⟨_, hcreated, h.setFrame hsound ?_ (.some hshow) fun i _ a hi => ?_⟩
  · rintro g ⟨⟩
    rfl
  · exact BlockHeap.blocks_allocated_of_live (h.sound.owned.live hi)

/-- A frame without a block at a place that had none. -/
theorem rel_create_default (h : Agrees v w) (now : TimestampFF) :
    Option.Rel Agrees (v.create x (.default now)) (w.create x (pure (.default now))) := by
  refine h.rel_create fun hx => ?_
  have hcreated := create_pure (f := .default now) hx
  obtain ⟨-, hsound⟩ := h.sound.create_ownerless rfl (placed_default now) hcreated
  refine ⟨_, hcreated, h.setFrame hsound ?_ (.some (.default now)) fun _ _ _ _ => rfl⟩
  rintro g ⟨⟩
  rfl

/-- A copy of a frame, whichever way it is made. -/
theorem rel_copy (h : Agrees v w) {p : HeapFrame → OnHeap HeapFrame}
    (hp : ∀ f, f.Placed w.heap → f.Usable w.heap →
      p f w.heap = (.ok (f.at_ w.heap.next), w.heap.allocated (f.pixels w.heap))) :
    Option.Rel Agrees ((v.frames y).bind fun rhs => v.create x rhs)
      ((w.frames y).bind fun rhs => w.create x (p rhs)) := by
  refine h.rel_bind y fun value f _ hf hshow => ?_
  have hplaced := h.sound.placed y f hf
  have hlen := length_pixels hplaced (h.usable hf)
  exact h.rel_create_new (hp f hplaced (h.usable hf)) hlen
    (hshow.at_block BlockHeap.blocks_allocated_self hlen)

omit [DecidableEq ι] [DecidableEq κ] in

/-- Two operations on a buffer and its bytes keep the agreement. -/
theorem rel_buffer (h : Agrees v w) {shape : FrameShape}
    {P : Frame → FrameValues ι κ → Option (FrameValues ι κ)}
    {Q : Nat → FrameMemory ι κ → Option (FrameMemory ι κ)}
    (hboth : ∀ a bytes, w.buffers b = some a → w.heap.blocks a = some bytes →
      ∀ hlen : shape.bytesize ≤ bytes.length,
        Option.Rel Agrees (P (shape.frame bytes hlen) v) (Q a w)) :
    Option.Rel Agrees (v.fromBuffer b shape P) (w.fromBuffer b shape Q) := by
  unfold FrameValues.fromBuffer FrameMemory.fromBuffer
  rw [← h.buffers b]
  rcases hb : w.buffers b with _ | a
  · exact .none
  · obtain ⟨bytes, hbytes⟩ := Option.isSome_iff_exists.mp
      (h.sound.owned.live (i := .inr b) hb)
    rw [Option.bind_some, hbytes, Option.bind_some, Option.bind_some]
    by_cases hlen : shape.bytesize ≤ bytes.length
    · have hcovers : w.Covers a shape := ⟨bytes, hbytes, hlen⟩
      rw [dif_pos hlen, if_pos hcovers]
      exact hboth a bytes hb hbytes hlen
    · have hcovers : ¬w.Covers a shape := by
        rintro ⟨cells, hcells, hle⟩
        rw [hbytes] at hcells
        cases hcells
        exact hlen hle
      rw [dif_neg hlen, if_neg hcovers]
      exact .none

/-- A frame made of a buffer shows the buffer's bytes. -/
theorem shows_create {h : BlockHeap UInt8} {a : Nat} {shape : FrameShape} {bytes : List UInt8}
    (ha : h.blocks a = some bytes) (hlen : shape.bytesize ≤ bytes.length) :
    Shows h (shape.frame bytes hlen) (.create shape a .default) := by
  refine ⟨rfl, rfl, rfl, rfl, rfl, ?_⟩
  show bytes.take shape.bytesize = (((some a).bind h.blocks).getD []).take shape.bytesize
  rw [Option.bind_some, ha, Option.getD_some]

/-- A frame that moves to a place that has none. -/
theorem move (h : Agrees v w) {value : Frame} {f : HeapFrame} (hxy : x ≠ y)
    (hx : w.frames x = none) (hvalue : v.frames y = some value) (hf : w.frames y = some f)
    (now : TimestampFF) :
    Agrees ((v.setFrame y (some (.default now))).setFrame x (some value))
      ((w.put y (.default now)).setFrame x (some f) w.heap) := by
  have hnone : (w.exchange x y).frames y = none := by
    show w.frames (Equiv.swap x y y) = none
    rw [Equiv.swap_apply_right, hx]
  have hvalues : (v.setFrame y (some (.default now))).setFrame x (some value) =
      ({ v with frames := fun z => v.frames (Equiv.swap x y z) } : FrameValues ι κ).setFrame y
        (some (.default now)) := by
    unfold FrameValues.setFrame
    dsimp only
    rw [← hvalue, update_exchanged _ _ hxy]
    rfl
  rw [hvalues, moved_eq hxy hf]
  refine (h.exchange x y).setFrame ((h.sound.exchange x y).setFrame_same
    (owner_of_frames_eq_none hnone).symm (placed_default now)) ?_ (.some (.default now))
    fun _ _ _ _ => rfl
  rintro g ⟨⟩
  rfl

/-- A move assignment keeps the agreement. -/
theorem moveAssign (h : Agrees v w) {value : Frame} {f lhs : HeapFrame} (hxy : x ≠ y)
    (hx : w.frames x = some lhs) (hvalue : v.frames y = some value) (hf : w.frames y = some f)
    (now : TimestampFF) :
    Agrees ((v.setFrame y (some (.default now))).setFrame x (some value))
      ((w.put y (.default now)).setFrame x (some f) (w.heap.released lhs.owned)) := by
  have hemptied : Agrees (v.setFrame x none) (w.setFrame x none (w.heap.released lhs.owned)) := by
    rw [← owner_of_mem hx]
    refine h.setFrame (h.sound.setFrame_none x) ?_ .none fun i hi a ha =>
      h.sound.owned.blocks_released ha hi
    intro g hg
    cases hg
  have hmoved := hemptied.move hxy (Function.update_self ..)
    (by simpa [FrameValues.setFrame, Function.update_of_ne hxy.symm] using hvalue)
    (by simpa [FrameMemory.setFrame, Function.update_of_ne hxy.symm] using hf) now
  have hvalues : ((v.setFrame x none).setFrame y (some (.default now))).setFrame x (some value) =
      (v.setFrame y (some (.default now))).setFrame x (some value) := by
    unfold FrameValues.setFrame
    dsimp only
    rw [Function.update_comm hxy, Function.update_idem]
  rw [hvalues] at hmoved
  rw [← emptied_first_eq hxy]
  exact hmoved

/-- A buffer that becomes a frame's. -/
theorem adopt (h : Agrees v w) {a : Nat} {shape : FrameShape} {bytes : List UInt8}
    (hx : w.frames x = none) (hb : w.buffers b = some a) (hbytes : w.heap.blocks a = some bytes)
    (hlen : shape.bytesize ≤ bytes.length) :
    Agrees ((v.setBuffer b none).setFrame x (some (shape.frame bytes hlen)))
      ((w.setBuffer b none w.heap).setFrame x (some (.create shape a .default)) w.heap) where
  fault := h.fault
  sound := h.sound.adopt hx hb ⟨bytes, hbytes, hlen⟩
  owning := fun z f hf => by
    by_cases hz : z = x
    · subst hz
      have hsame : f = .create shape a .default := by
        simpa [FrameMemory.setFrame] using hf.symm
      rw [hsame]
      rfl
    · have hsame : f ∈ w.frames z := by
        simpa [FrameMemory.setFrame, FrameMemory.setBuffer, Function.update_of_ne hz] using hf
      exact h.owning z f hsame
  frames := fun z => by
    show Option.Rel (Shows w.heap) (Function.update v.frames x _ z)
      (Function.update w.frames x _ z)
    by_cases hz : z = x
    · rw [hz, Function.update_self, Function.update_self]
      exact .some (shows_create hbytes hlen)
    · rw [Function.update_of_ne hz, Function.update_of_ne hz]
      exact h.frames z
  buffers := fun c => by
    show (Function.update w.buffers b none c).bind w.heap.blocks =
      Function.update v.buffers b none c
    by_cases hc : c = b
    · rw [hc, Function.update_self, Function.update_self]
      rfl
    · rw [Function.update_of_ne hc, Function.update_of_ne hc]
      exact h.buffers c

omit [DecidableEq κ] in
/-- A byte of a frame's block is written. -/
theorem paint (h : Agrees v w) {value : Frame} {f : HeapFrame} {a i : Nat} {old : List UInt8}
    {byte : UInt8} (hf : w.frames x = some f)
    (hshow : Shows w.heap value f) (ha : w.heap.Live a) (hdata : f.data = some a)
    (hold : w.heap.blocks a = some old) :
    Agrees (v.setFrame x (some (value.paint i byte)))
      { w with heap := w.heap.written a (old.set i byte) ha } := by
  have hsame : ({ w with heap := w.heap.written a (old.set i byte) ha } : FrameMemory ι κ) =
      w.setFrame x (some f) (w.heap.written a (old.set i byte) ha) := by
    unfold FrameMemory.setFrame
    rw [← hf, Function.update_eq_self]
  have hlength : (old.set i byte).length = old.length := List.length_set ..
  have hsound := h.sound.written ha hold hlength
  have howner := (h.owner_of_data hf).trans hdata
  rw [hsame] at hsound ⊢
  refine h.setFrame hsound ?_ (.some ⟨hshow.size, hshow.stride, hshow.pixFmt, hshow.ts,
    hshow.duration, ?_⟩) fun j hj c hc => h.sound.owned.blocks_written howner ha hc hj
  · rintro g ⟨⟩
    exact h.owning x f hf
  · have hbefore : value.data = old.take f.bytesize := by
      rw [hshow.data]
      unfold pixels
      rw [hdata, Option.bind_some, hold, Option.getD_some]
    show value.data.set i byte = ((f.data.bind _).getD []).take f.bytesize
    rw [hbefore, hdata, Option.bind_some, BlockHeap.blocks_written_self, Option.getD_some,
      List.take_set]

end Agrees

variable [DecidableEq ι] [DecidableEq κ]

/-- The two models do the same operations, and every place shows its value. -/
theorem agrees_perform (h : Agrees v w) (op : FrameOp ι κ) :
    Option.Rel Agrees (v.perform op) (w.perform op) := by
  cases op with
  | declare x now => exact h.rel_create_default now
  | ofSize x size fmt found now =>
    simp only [FrameValues.perform, perform]
    split
    · rename_i hlen
      refine h.rel_create_new (ofSize_apply ..) hlen ⟨rfl, rfl, rfl, rfl, rfl, ?_⟩
      exact (Shows.pixels_at BlockHeap.blocks_allocated_self hlen).symm
    · exact .none
  | copy x y =>
    simp only [FrameValues.perform, perform, Frame.copy_eq]
    exact h.rel_copy fun f => copy_apply
  | cloneDeep x y =>
    simp only [FrameValues.perform, perform, Frame.cloneDeep_eq]
    exact h.rel_copy fun f => cloneDeep_apply
  | createDeep x b shape =>
    refine h.rel_buffer fun a bytes _ hbytes hlen => ?_
    have hshow := Agrees.shows_create hbytes hlen
    have hpixels := length_pixels (placed_create hbytes hlen .default) fun c hc => by
      cases hc
      exact BlockHeap.live_of_blocks hbytes
    exact h.rel_create_new (createDeep_apply hbytes hlen) hpixels
      (hshow.at_block BlockHeap.blocks_allocated_self hpixels)
  | assign x y =>
    refine h.rel_bind x fun _ lhs _ hlhs _ => h.rel_map y fun value f _ hf hshow => ?_
    have hplaced := h.sound.placed y f hf
    have hlen := length_pixels hplaced (h.usable hf)
    have hsound := h.sound.setFrame_new (x := x) (f := f) hlen.ge
    have hnew : ((w.heap.allocated (f.pixels w.heap)).released (w.owner (.inl x))).blocks
        w.heap.next = some (f.pixels w.heap) := h.sound.owned.blocks_replaced_new (.inl x)
    rw [Frame.copy_eq]
    unfold run
    rw [assign_apply hplaced (h.usable hf) (h.sound.live_of_owned hlhs), ← owner_of_mem hlhs]
    refine h.setFrame hsound ?_ (.some (hshow.at_block hnew hlen)) fun i hi a ha =>
      h.sound.owned.blocks_replaced ha hi
    rintro g ⟨⟩
    rfl
  | move x y now =>
    refine h.rel_bind y fun value f hvalue hf _ => ?_
    unfold FrameValues.create FrameMemory.create
    by_cases hxy : x = y
    · subst hxy
      simp [FrameValues.setFrame, put]
    · have hvalues : (v.setFrame y (some (.default now))).frames x = v.frames x :=
        Function.update_of_ne hxy ..
      have hframes : (w.put y (.default now)).frames x = w.frames x :=
        Function.update_of_ne hxy ..
      rw [hvalues, hframes]
      rcases hx : w.frames x with _ | g
      · rw [(h.none_iff x).mpr hx]
        exact .some (h.move hxy hx hvalue hf now)
      · obtain ⟨old, hold, -⟩ := h.exists_of_mem hx
        rw [hold]
        exact .none
  | moveAssign x y now =>
    refine h.rel_bind y fun value f hvalue hf _ => ?_
    dsimp only
    by_cases hxy : x = y
    · subst hxy
      have hvalues : (v.setFrame x (some (.default now))).setFrame x (some value) = v := by
        unfold FrameValues.setFrame
        dsimp only
        rw [Function.update_idem, ← hvalue, Function.update_eq_self]
      have hframes : (w.put x (.default now)).put x f = w := by
        unfold put
        dsimp only
        rw [Function.update_idem, ← hf, Function.update_eq_self]
      have hvx : (v.setFrame x (some (.default now))).frames x = some (.default now) :=
        Function.update_self ..
      have hwx : (w.put x (.default now)).frames x = some (.default now) := Function.update_self ..
      rw [hvx, hwx, Option.map_some, Option.map_some, hvalues]
      refine .some ?_
      show Agrees v ((w.put x (.default now)).put x f)
      rw [hframes]
      exact h
    · have hvalues : (v.setFrame y (some (.default now))).frames x = v.frames x :=
        Function.update_of_ne hxy ..
      have hframes : (w.put y (.default now)).frames x = w.frames x :=
        Function.update_of_ne hxy ..
      rw [hvalues, hframes]
      refine h.rel_map x fun _ lhs _ hlhs _ => ?_
      have hreset : lhs.reset (w.put y (.default now)).heap = _ :=
        reset_apply (h.sound.live_of_owned hlhs)
      unfold run
      rw [hreset]
      exact h.moveAssign hxy hlhs hvalue hf now
  | swap x y =>
    refine h.rel_bind x fun lhsValue lhs hlhsValue hlhs _ => h.rel_map y fun value f hvalue hf _ => ?_
    have hvalues : (v.setFrame x (some value)).setFrame y (some lhsValue) =
        { v with frames := fun z => v.frames (Equiv.swap x y z) } := by
      unfold FrameValues.setFrame
      dsimp only
      rw [← hvalue, ← hlhsValue, ← Equiv.comp_swap_eq_update, Equiv.swap_comm]
      rfl
    rw [swapped_eq hlhs hf, hvalues]
    exact h.exchange x y
  | destroy x =>
    refine h.rel_map x fun value f _ hf _ => ?_
    unfold run
    rw [reset_apply (h.sound.live_of_owned hf), ← owner_of_mem hf]
    refine h.setFrame (h.sound.setFrame_none x) ?_ .none fun i hi a ha =>
      h.sound.owned.blocks_released ha hi
    intro g hg
    cases hg
  | adopt x b shape =>
    simp only [FrameValues.perform, perform]
    refine h.rel_buffer fun a bytes hb hbytes hlen => ?_
    unfold FrameValues.create FrameMemory.create
    show Option.Rel Agrees (if (v.frames x).isSome then _ else _)
      (if (w.frames x).isSome then _ else _)
    rcases hx : w.frames x with _ | g
    · rw [(h.none_iff x).mpr hx]
      exact .some (h.adopt hx hb hbytes hlen)
    · obtain ⟨old, hold, -⟩ := h.exists_of_mem hx
      rw [hold]
      exact .none
  | setTimes x ts duration =>
    refine h.rel_map x fun value f _ hf hshow => ?_
    have hplaced := h.sound.placed x f hf
    refine h.setFrame (h.sound.setFrame_same (owner_of_mem hf).symm
      ⟨hplaced.null, hplaced.known, hplaced.covers⟩) ?_ (.some ⟨hshow.size, hshow.stride,
        hshow.pixFmt, rfl, rfl, hshow.data⟩) fun _ _ _ _ => rfl
    rintro g ⟨⟩
    exact h.owning x f hf
  | paint x i byte =>
    refine h.rel_bind x fun value f hvalue hf hshow => ?_
    rw [hshow.bytesize_eq]
    split
    · rename_i hi
      have hplaced := h.sound.placed x f hf
      obtain ⟨a, old, ha, hdata, hold, hcovers, hpaint⟩ := paint_apply hplaced (h.usable hf) hi byte
      unfold run
      rw [hpaint]
      exact .some (h.paint hf hshow ha hdata hold)
    · exact .none
  | buffer b bytes =>
    simp only [FrameValues.perform, perform]
    rw [← h.buffers b]
    rcases hb : w.buffers b with _ | a
    · have hsound := h.sound.of_setBuffer (later_allocated _ bytes)
        (h.sound.owned.alloc (i := .inr b) hb)
      exact .some (h.setBuffer hsound BlockHeap.blocks_allocated_self fun i _ a hi =>
        BlockHeap.blocks_allocated_of_live (h.sound.owned.live hi))
    · have hlive : (w.heap.blocks a).isSome := h.sound.owned.live (i := .inr b) hb
      rw [Option.bind_some, if_pos hlive]
      exact .none
  | dropBuffer b =>
    simp only [FrameValues.perform, perform]
    rw [← h.buffers b]
    rcases hb : w.buffers b with _ | a
    · exact .none
    · have hlive : w.heap.Live a := h.sound.owned.live (i := .inr b) hb
      obtain ⟨cells, hcells⟩ := Option.isSome_iff_exists.mp hlive
      have howner : w.owner (.inr b) = some a := hb
      have hreleased := h.sound.owned.release (.inr b)
      rw [howner] at hreleased
      rw [Option.bind_some, hcells]
      unfold run
      simp only [Option.map_some, BlockHeap.free_of_live hlive]
      refine .some (h.setBuffer (h.sound.of_setBuffer (later_released _ (some a)) hreleased) rfl
        fun i hi c hc => ?_)
      have hkept := h.sound.owned.blocks_released hc hi
      rw [howner] at hkept
      exact hkept

/-- Every operation keeps the agreement. -/
theorem lockstep : (machine ι κ).Lockstep (FrameValues.machine ι κ) .owning Agrees where
  init := agrees_initial
  step := fun v w op h => by
    show Option.Rel Agrees (v.perform op) (if w.fault.isSome then none else w.perform op)
    rw [h.fault]
    exact agrees_perform h op

/-- Whatever a program does with its frames, other than to make views: it can do the same to
values, no step fails, and in the end every place and every buffer holds what the values say. -/
theorem frames_are_values (ops : List (FrameOp ι κ)) :
    Option.Rel Agrees ((FrameValues.machine ι κ).exec .initial ops)
      ((machine ι κ).exec .initial (ops.map .owning)) :=
  lockstep.exec agrees_initial ops

/-- `operator==` of two frames answers whether their values show the same picture. -/
theorem equals_iff_same {ops : List (FrameOp ι κ)}
    (hw : (machine ι κ).exec .initial (ops.map .owning) = some w) {f g : HeapFrame}
    (hf : w.frames x = some f) (hg : w.frames y = some g) :
    ∃ v value value', (FrameValues.machine ι κ).exec .initial ops = some v ∧
      v.frames x = some value ∧ v.frames y = some value' ∧
      f.equals g w.heap = (.ok (decide (value.Same value')), w.heap) := by
  have hrel : Option.Rel Agrees ((FrameValues.machine ι κ).exec .initial ops)
      ((machine ι κ).exec .initial (ops.map .owning)) := lockstep.exec agrees_initial ops
  rw [hw] at hrel
  generalize hv : (FrameValues.machine ι κ).exec .initial ops = v? at hrel
  cases hrel with
  | @some v _ h =>
    obtain ⟨value, hvalue, hshow⟩ := h.exists_of_mem hf
    obtain ⟨value', hvalue', hshow'⟩ := h.exists_of_mem hg
    exact ⟨v, value, value', rfl, hvalue, hvalue', hshow.equals_apply hshow'
      (h.sound.placed x f hf) (h.sound.placed y g hg) (h.usable hf) (h.usable hg)⟩

/-- A grey frame, a copy of it that is painted, and the copy assigned back. -/
def paintedCopy : List (FrameOp Nat Nat) :=
  [.buffer 0 [1, 2, 3, 4], .createDeep 0 0 ⟨⟨2, 2⟩, 2, .gray, 0, 40⟩, .copy 1 0, .paint 1 3 9,
    .declare 2 0, .assign 2 1]

/-- A copy that is painted differs from the frame. -/
theorem equals_iff_same_painted :
    ∃ w : FrameMemory Nat Nat, ∃ f g,
      (machine Nat Nat).exec .initial (paintedCopy.map .owning) = some w ∧
      w.frames 1 = some f ∧ w.frames 2 = some g ∧
      ∃ v value value', (FrameValues.machine Nat Nat).exec .initial paintedCopy = some v ∧
        v.frames 1 = some value ∧ v.frames 2 = some value' ∧
        f.equals g w.heap = (.ok (decide (value.Same value')), w.heap) := by
  obtain ⟨w, hexec, -, hw⟩ := Machine.exists_run_of_exec (machine Nat Nat)
    (paintedCopy.map .owning) (fun w => (w.frames 1).isSome && (w.frames 2).isSome)
    (by decide +kernel)
  rw [Bool.and_eq_true] at hw
  obtain ⟨f, hf⟩ := Option.isSome_iff_exists.mp hw.1
  obtain ⟨g, hg⟩ := Option.isSome_iff_exists.mp hw.2
  exact ⟨w, f, g, hexec, hf, hg, equals_iff_same hexec hf hg⟩

end FrameMemory

end Seekira.Model.Video
