import Seekira.Analysis.DemuxerDelivery

/-!
# The position of a queue

The totals that a queue keeps are those of its packets, after any calls.  `position` looks at the
total of their sizes before it looks at their timestamps, so in a queue whose packets are all empty
it finds none.
-/

set_option autoImplicit false

namespace Seekira.Model.PacketQueue

open Library

/-- The first known timestamp among the packets. -/
def firstKnown : List DataPacket → TimestampFF
  | [] => avNoPtsValue
  | packet :: rest =>
    if packet.ptsOrDts ≠ avNoPtsValue then packet.ptsOrDts else firstKnown rest

/-- What the demuxer takes the count of key packets and the position for. -/
structure Bookkeeping (q : PacketQueue) : Prop where
  keys : q.keyCount = (q.list.filter DataPacket.isKeyFrame).length
  position : q.position = firstKnown q.list
  unknown : q.position = avNoPtsValue ↔ ∀ packet ∈ q.list, packet.ptsOrDts = avNoPtsValue

/-- No position is known when no packet has a time. -/
theorem firstKnown_eq_iff (ps : List DataPacket) :
    firstKnown ps = avNoPtsValue ↔ ∀ packet ∈ ps, packet.ptsOrDts = avNoPtsValue := by
  induction ps with
  | nil => simp [firstKnown]
  | cons packet rest ih =>
    unfold firstKnown
    split
    · rename_i hknown
      simp [hknown]
    · rename_i hunknown
      have hunknown : packet.ptsOrDts = avNoPtsValue := by simpa using hunknown
      simp [hunknown, ih]

/-- The position is the time of the first packet that has one. -/
theorem find_known (ps : List DataPacket) :
    ((ps.find? fun p => p.ptsOrDts ≠ avNoPtsValue).map DataPacket.ptsOrDts).getD avNoPtsValue =
      firstKnown ps := by
  induction ps with
  | nil => rfl
  | cons packet rest ih =>
    unfold firstKnown
    split
    · rename_i hknown
      rw [List.find?_cons_of_pos (by simpa using hknown)]
      rfl
    · rename_i hunknown
      rw [List.find?_cons_of_neg (by simpa using hunknown), ih]

/-- `position` by the two things it looks at. -/
theorem position_eq (q : PacketQueue) :
    q.position = if q.currentSize ≤ 0 then avNoPtsValue else firstKnown q.list := by
  unfold position
  split
  · rfl
  · rw [← find_known]
    split
    · rename_i p hfound
      rw [hfound]
      rfl
    · rename_i hnone
      rw [hnone]
      rfl

/-! ## Runs -/

/-- The totals are right, and no packet has a negative size. -/
structure Sized (q : PacketQueue) : Prop where
  counted : q.Counted
  sizes : ∀ packet ∈ q.list, 0 ≤ packet.size

/-- A call that does not push a packet of negative size. -/
def Call.Sized (call : Call) : Prop := ∀ packet, call = .push packet → 0 ≤ packet.size

theorem sized_reset (q : PacketQueue) : q.reset.Sized :=
  ⟨counted_reset q, List.forall_mem_nil _⟩

/-- A call keeps the size that of the packets. -/
theorem Sized.step {q q' : PacketQueue} {call : Call} (h : q.Sized) (hcall : call.Sized)
    (hstep : q.step call = some q') : q'.Sized := by
  cases call with
  | push packet =>
    obtain rfl := Option.some.inj hstep
    refine ⟨h.counted.push packet, ?_⟩
    intro p hp
    rcases List.mem_append.mp hp with hp | hp
    · exact h.sizes p hp
    · obtain rfl := List.mem_singleton.mp hp
      exact hcall p rfl
  | pop =>
    cases hlist : q.list with
    | nil => simp [PacketQueue.step, hlist] at hstep
    | cons packet rest =>
      have hpop : q.pop.2 = q' := by simpa [PacketQueue.step, hlist] using hstep
      subst hpop
      refine ⟨h.counted.tail hlist, ?_⟩
      intro p hp
      have hrest : q.pop.2.list = rest := by simp [pop, hlist]
      rw [hrest] at hp
      apply h.sizes
      rw [hlist]
      exact List.mem_cons_of_mem _ hp
  | reset =>
    obtain rfl := Option.some.inj hstep
    exact sized_reset q
  | setEnabled enabled =>
    obtain rfl := Option.some.inj hstep
    cases enabled with
    | false => exact sized_reset _
    | true => exact ⟨⟨h.counted.size, h.counted.keys⟩, h.sizes⟩

theorem sized_of_run {type : MediaType} {tr : List (PacketQueue × Call)} {q : PacketQueue}
    (h : (machine type).Run tr q) (hcalls : ∀ p ∈ tr, p.2.Sized) : q.Sized := by
  have hinit : (machine type).init.Sized := ⟨⟨rfl, rfl⟩, List.forall_mem_nil _⟩
  exact h.invariant_of_guard hinit (fun q call q' hq hcall hstep => hq.step hcall hstep) hcalls

/-- The total of the sizes is positive when some packet has a size. -/
theorem Sized.currentSize_pos_iff {q : PacketQueue} (h : q.Sized) :
    0 < q.currentSize ↔ ∃ packet ∈ q.list, 0 < packet.size := by
  rw [h.counted.size]
  constructor
  · intro hpos
    by_contra hnone
    have hempty : ∀ size ∈ q.list.map DataPacket.size, size = 0 := by
      intro size hsize
      obtain ⟨packet, hpacket, rfl⟩ := List.mem_map.mp hsize
      have hnonneg := h.sizes packet hpacket
      by_contra hne
      exact hnone ⟨packet, hpacket, by omega⟩
    have hsum := List.sum_eq_zero hempty
    omega
  · rintro ⟨packet, hpacket, hsize⟩
    have hnonneg : ∀ size ∈ q.list.map DataPacket.size, 0 ≤ size := by
      intro size hsize
      obtain ⟨packet, hpacket, rfl⟩ := List.mem_map.mp hsize
      exact h.sizes packet hpacket
    have hle := List.single_le_sum hnonneg packet.size (List.mem_map_of_mem hpacket)
    omega

/-- After any calls that push no packet of negative size, the count of key packets and the position
are those of the packets in the queue exactly when one of these has a size or none has a known
timestamp. -/
theorem bookkeeping_iff {type : MediaType} {tr : List (PacketQueue × Call)} {q : PacketQueue}
    (h : (machine type).Run tr q) (hcalls : ∀ p ∈ tr, p.2.Sized) :
    q.Bookkeeping ↔
      (∃ packet ∈ q.list, 0 < packet.size) ∨
        ∀ packet ∈ q.list, packet.ptsOrDts = avNoPtsValue := by
  have hsized := sized_of_run h hcalls
  have hposition := q.position_eq
  rw [← hsized.currentSize_pos_iff, ← firstKnown_eq_iff]
  constructor
  · intro hbook
    by_cases hsize : q.currentSize ≤ 0
    · rw [if_pos hsize] at hposition
      rw [hbook.position] at hposition
      exact .inr hposition
    · exact .inl (by omega)
  · intro hguard
    have hfirst : q.position = firstKnown q.list := by
      rw [hposition]
      split
      · rename_i hsize
        rcases hguard with hpos | hunknown
        · omega
        · exact hunknown.symm
      · rfl
    exact ⟨hsized.counted.keys, hfirst, by rw [hfirst, firstKnown_eq_iff]⟩

/-! ### A packet without data -/

/-- A packet with a timestamp and no data. -/
def emptyPacket : DataPacket :=
  { streamIndex := 0, pts := 40, dts := 40, duration := 40, isKeyFrame := false, size := 0 }

/-- The queue with this packet alone. -/
def emptyPacketQueue : PacketQueue := (create .video).push emptyPacket

theorem emptyPacket_run :
    (machine .video).Run [(create .video, .push emptyPacket)] emptyPacketQueue :=
  Machine.Run.init.step rfl

theorem emptyPacket_sized : ∀ p ∈ [(create .video, Call.push emptyPacket)], p.2.Sized := by
  intro p hp packet hpush
  obtain rfl := List.mem_singleton.mp hp
  obtain rfl := Call.push.inj hpush
  decide

/-- The timestamp of the packet is known, and the queue has no position. -/
theorem empty_packet_hides_position :
    ¬∀ (type : MediaType) (tr : List (PacketQueue × Call)) (q : PacketQueue),
      (machine type).Run tr q → (∀ p ∈ tr, p.2.Sized) → q.Bookkeeping := by
  intro hclaim
  have hbook := hclaim _ _ _ emptyPacket_run emptyPacket_sized
  have hposition := hbook.position
  revert hposition
  decide

/-- A packet without bytes leaves the queue without a position. -/
theorem bookkeeping_iff_emptyPacket :
    ¬emptyPacketQueue.Bookkeeping ∧
      ¬((∃ packet ∈ emptyPacketQueue.list, 0 < packet.size) ∨
        ∀ packet ∈ emptyPacketQueue.list, packet.ptsOrDts = avNoPtsValue) := by
  have hguard : ¬((∃ packet ∈ emptyPacketQueue.list, 0 < packet.size) ∨
      ∀ packet ∈ emptyPacketQueue.list, packet.ptsOrDts = avNoPtsValue) := by
    decide
  refine ⟨?_, hguard⟩
  intro hbook
  exact hguard ((bookkeeping_iff emptyPacket_run emptyPacket_sized).mp hbook)

end Seekira.Model.PacketQueue
