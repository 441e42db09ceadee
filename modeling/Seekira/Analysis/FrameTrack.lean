import Mathlib.Data.List.Chain
import Seekira.Model.Media

/-!
# Contiguous frames

A stream in which every packet carries one frame, each frame starts where the one
before ends, and the first is a key frame at zero.  A position inside the stream
belongs to one frame; the last key packet at or before it splits the stream.
-/

set_option autoImplicit false

namespace Seekira.Model

/-- The packets of a stream of contiguous frames. -/
structure FrameTrack (l : List DataPacket) : Prop where
  first : ∃ p ∈ l.head?, p.pts = 0 ∧ p.isKeyFrame = true
  adjacent : l.IsChain fun p q => q.pts = p.pts + p.duration
  duration : ∀ p ∈ l, 0 < p.duration
  size : ∀ p ∈ l, 0 < p.size

/-- The position lies in the packet's frame. -/
def DataPacket.Covers (p : DataPacket) (pos : TimestampFF) : Prop :=
  p.pts ≤ pos ∧ pos < p.pts + p.duration

/-- The last key packet of a list. -/
def lastKey (l : List DataPacket) : Option DataPacket := (l.filter DataPacket.isKeyFrame).getLast?

namespace FrameTrack

variable {l : List DataPacket}

/-- A frame ends before any later one starts. -/
theorem ordered (h : FrameTrack l) : l.Pairwise fun p q => p.pts + p.duration ≤ q.pts := by
  have hchain := h.adjacent
  have hdur := h.duration
  clear h
  induction l with
  | nil => exact .nil
  | cons p l ih =>
    have htail := ih hchain.tail fun q hq => hdur q (List.mem_cons_of_mem _ hq)
    refine .cons ?_ htail
    rcases l with _ | ⟨q, l⟩
    · simp
    · have hnext : q.pts = p.pts + p.duration := (List.isChain_cons_cons.mp hchain).1
      have hq : 0 < q.duration := hdur q (by simp)
      intro r hr
      rcases List.mem_cons.mp hr with rfl | hr
      · exact Int.le_of_eq hnext.symm
      · have hlater := List.rel_of_pairwise_cons htail hr
        lia

/-- No frame starts before 0. -/
theorem pts_nonneg (h : FrameTrack l) : ∀ p ∈ l, 0 ≤ p.pts := by
  obtain ⟨first, hfirst, hzero, -⟩ := h.first
  rcases l with _ | ⟨q, l⟩
  · simp at hfirst
  · obtain rfl : q = first := by simpa using hfirst
    have hdur := h.duration q (by simp)
    intro p hp
    rcases List.mem_cons.mp hp with rfl | hp
    · exact Int.le_of_eq hzero.symm
    · have hlater := List.rel_of_pairwise_cons h.ordered hp
      lia

/-- The frames before one end at its start, and those after it start at its end. -/
theorem around (h : FrameTrack l) {before after : List DataPacket} {p : DataPacket}
    (hl : l = before ++ p :: after) :
    (∀ q ∈ before, q.pts + q.duration ≤ p.pts) ∧ ∀ q ∈ after, p.pts + p.duration ≤ q.pts := by
  have hordered := h.ordered
  rw [hl, List.pairwise_append] at hordered
  obtain ⟨-, hright, hcross⟩ := hordered
  exact ⟨fun q hq => hcross q hq p (by simp), fun q hq => List.rel_of_pairwise_cons hright hq⟩

end FrameTrack

/-- Packets in the order of their timestamps, which are all known. -/
structure Timed (ps : List DataPacket) : Prop where
  nonneg : ∀ p ∈ ps, 0 ≤ p.pts
  duration : ∀ p ∈ ps, 0 < p.duration
  increasing : ps.Pairwise fun p q => p.pts < q.pts

theorem FrameTrack.timed {l : List DataPacket} (h : FrameTrack l) : Timed l := by
  refine ⟨h.pts_nonneg, h.duration, h.ordered.imp_of_mem fun hp _ hle => ?_⟩
  have hdur := h.duration _ hp
  lia

theorem Timed.sublist {ps qs : List DataPacket} (h : Timed ps) (hsub : qs.Sublist ps) : Timed qs :=
  ⟨fun p hp => h.nonneg p (hsub.subset hp), fun p hp => h.duration p (hsub.subset hp),
    h.increasing.sublist hsub⟩

/-- The packets have times. -/
theorem Timed.known {ps : List DataPacket} (h : Timed ps) : ∀ p ∈ ps, p.pts ≠ avNoPtsValue := by
  intro p hp hpts
  have hnonneg := h.nonneg p hp
  rw [hpts] at hnonneg
  revert hnonneg
  decide

/-- The last element with a property splits the list. -/
theorem exists_last_split {l : List DataPacket} (h : ∃ p ∈ l, p.isKeyFrame = true) :
    ∃ front key rest, l = front ++ key :: rest ∧ key.isKeyFrame = true ∧
      ∀ p ∈ rest, p.isKeyFrame = false := by
  induction l with
  | nil => simp at h
  | cons p l ih =>
    by_cases hl : ∃ q ∈ l, q.isKeyFrame = true
    · obtain ⟨front, key, rest, rfl, hkey, hrest⟩ := ih hl
      exact ⟨p :: front, key, rest, rfl, hkey, hrest⟩
    · have hnone : ∀ q ∈ l, q.isKeyFrame = false := by
        intro q hq
        rw [← Bool.not_eq_true]
        exact fun hkey => hl ⟨q, hq, hkey⟩
      obtain ⟨q, hq, hkey⟩ := h
      rcases List.mem_cons.mp hq with rfl | hq
      · exact ⟨[], q, l, rfl, hkey, hnone⟩
      · exact absurd ⟨q, hq, hkey⟩ hl

/-- The last key packet is the one with none behind it. -/
theorem lastKey_eq {front rest : List DataPacket} {key : DataPacket} (hkey : key.isKeyFrame = true)
    (hrest : ∀ p ∈ rest, p.isKeyFrame = false) : lastKey (front ++ key :: rest) = some key := by
  have hnil : rest.filter DataPacket.isKeyFrame = [] := by
    rw [List.filter_eq_nil_iff]
    intro p hp
    simp [hrest p hp]
  unfold lastKey
  rw [List.filter_append, List.filter_cons_of_pos hkey, hnil]
  simp

/-- The stream split at the last key packet at or before a position: what it is when the
position's own packet is a key packet, and when it is not. -/
structure KeySplit (before after : List DataPacket) (target : DataPacket) (pos : TimestampFF)
    (front : List DataPacket) (key : DataPacket) (rest : List DataPacket) : Prop where
  split : before ++ target :: after = front ++ key :: rest
  isKey : key.isKeyFrame = true
  atOrBefore : key.pts ≤ pos
  later : ∀ p ∈ rest, p.isKeyFrame = true → pos < p.pts
  frontBefore : ∃ gop, before = front ++ gop
  cases : (target.isKeyFrame = true ∧ key = target ∧ rest = after) ∨
    (target.isKeyFrame = false ∧ lastKey before = some key ∧
      ∃ gop, before = front ++ key :: gop ∧ rest = gop ++ target :: after)

/-- Before each frame there is a last key packet. -/
theorem FrameTrack.exists_keySplit {l before after : List DataPacket} {target : DataPacket}
    {pos : TimestampFF} (h : FrameTrack l) (hl : l = before ++ target :: after)
    (hpos : target.Covers pos) : ∃ front key rest, KeySplit before after target pos front key rest := by
  obtain ⟨hearlier, hlater⟩ := h.around hl
  have hafter : ∀ p ∈ after, pos < p.pts := fun p hp => Int.lt_of_lt_of_le hpos.2 (hlater p hp)
  rcases hkey : target.isKeyFrame with _ | _
  · have hsome : ∃ p ∈ before, p.isKeyFrame = true := by
      obtain ⟨first, hfirst, -, hfirstKey⟩ := h.first
      rcases before with _ | ⟨q, before⟩
      · rw [hl] at hfirst
        obtain rfl : target = first := by simpa using hfirst
        rw [hkey] at hfirstKey
        cases hfirstKey
      · rw [hl] at hfirst
        obtain rfl : q = first := by simpa using hfirst
        exact ⟨q, by simp, hfirstKey⟩
    obtain ⟨front, key, gop, rfl, hk, hgop⟩ := exists_last_split hsome
    have hkeyMem : key ∈ l := by simp [hl]
    have hend := hearlier key (by simp)
    have hdur := h.duration key hkeyMem
    refine ⟨front, key, gop ++ target :: after, by simp, hk, ?_, ?_, ⟨key :: gop, rfl⟩,
      .inr ⟨hkey, lastKey_eq hk hgop, gop, rfl, rfl⟩⟩
    · have hle := hpos.1
      lia
    · intro p hp hpk
      rcases List.mem_append.mp hp with hp | hp
      · rw [hgop p hp] at hpk
        cases hpk
      · rcases List.mem_cons.mp hp with rfl | hp
        · rw [hkey] at hpk
          cases hpk
        · exact hafter p hp
  · exact ⟨before, target, after, rfl, hkey, hpos.1, fun p hp _ => hafter p hp, ⟨[], by simp⟩,
      .inl ⟨hkey, rfl, rfl⟩⟩

end Seekira.Model
