import Mathlib.Algebra.Order.BigOperators.Group.List
import Mathlib.Algebra.Order.Ring.Nat
import Mathlib.Algebra.Ring.Int.Defs
import Seekira.Model.DemuxerQueue

/-!
# What the demuxer delivers to its only stream

With one stream enabled, the demuxer's batches move that stream's packets from the
parser to the stream's queue.  A key packet at or before the seek time empties the
queue first; without such packets the queue and the packets ahead together are what
the stream will read, in order.
-/

set_option autoImplicit false

namespace Seekira.Model

/-! ## Totals of a queue -/

namespace PacketQueue

/-- The running totals are those of the packets in the list. -/
structure Counted (q : PacketQueue) : Prop where
  size : q.currentSize = (q.list.map DataPacket.size).sum
  keys : q.keyCount = (q.list.filter DataPacket.isKeyFrame).length

theorem counted_reset (q : PacketQueue) : q.reset.Counted := ⟨rfl, rfl⟩

theorem Counted.push {q : PacketQueue} (h : q.Counted) (p : DataPacket) : (q.push p).Counted := by
  constructor
  · simp [PacketQueue.push, h.size]
  · rcases hkey : p.isKeyFrame with _ | _ <;> simp [PacketQueue.push, h.keys, hkey]

/-- A queue that counts right does so with one packet less. -/
theorem Counted.tail {q : PacketQueue} {p : DataPacket} {rest : List DataPacket} (h : q.Counted)
    (hq : q.list = p :: rest) : q.pop.2.Counted := by
  unfold pop
  simp only [hq]
  constructor
  · have hsize := h.size
    rw [hq, List.map_cons, List.sum_cons] at hsize
    simp [hsize]
  · have hkeys := h.keys
    rw [hq] at hkeys
    rcases hkey : p.isKeyFrame with _ | _ <;> simp [hkey] at hkeys ⊢ <;> simp [hkeys]

/-- A queue that is not full does not become so by losing its front packet. -/
theorem pop_not_full {q : PacketQueue} {p : DataPacket} {rest : List DataPacket}
    (hq : q.list = p :: rest) (hsize : 0 ≤ p.size) (hfree : q.isFull = false) :
    q.pop.2.isFull = false := by
  unfold isFull at hfree
  simp only [hq, List.length_cons, Bool.or_eq_false_iff, decide_eq_false_iff_not] at hfree
  unfold pop isFull
  simp only [hq, Bool.or_eq_false_iff, decide_eq_false_iff_not]
  omega

/-- A queue with two key packets is not empty. -/
theorem Counted.two_keys {q : PacketQueue} (h : q.Counted) (hk : ¬q.keyCount < 2) :
    q.size ≠ 0 := by
  have hkeys := h.keys
  have hle := List.length_filter_le DataPacket.isKeyFrame q.list
  unfold PacketQueue.size
  omega

/-- An empty queue is not full. -/
theorem Counted.not_full_of_nil {q : PacketQueue} (h : q.Counted) (hq : q.list = []) :
    q.isFull = false := by
  have hsize := h.size
  rw [hq] at hsize
  simp [isFull, hq, hsize, maxSize]

end PacketQueue

namespace DemuxerQueue

variable {π : Type} {P : ParserOps π} {s : StreamId}

/-! ## Only one stream is enabled -/

/-- The packets of stream `s`. -/
def ofStream (s : StreamId) (ps : List DataPacket) : List DataPacket :=
  ps.filter fun p => p.streamIndex = s

/-- Stream `s` is the one that is enabled, and its queue must not stay empty. -/
structure OnlyStream (s : StreamId) (d : DemuxerQueue π) : Prop where
  enabled : ∀ i, (d.queues i).enabled = decide (i = s)
  canBeEmpty : (d.queues s).canBeEmpty = false

/-- Only stream `s` is enabled, nothing is queued for the others, and the totals are right. -/
structure Tidy (s : StreamId) (d : DemuxerQueue π) : Prop extends OnlyStream s d where
  counted : ∀ i, (d.queues i).Counted
  others : ∀ i, i ≠ s → (d.queues i).list = []

/-- At the end of the file nothing is ahead, and the queue did not fill up on the way there. -/
def AtEnd (s : StreamId) (d : DemuxerQueue π) : Prop :=
  d.eofIsReached = true → d.ahead = [] ∧ (d.queues s).isFull = false

/-- A test that fails for every stream but one. -/
theorem any_streams (hs : s < P.streamCount) {f : StreamId → Bool} (h : ∀ i, i ≠ s → f i = false) :
    (streams P).any f = f s := by
  rcases hf : f s with _ | _
  · rw [List.any_eq_false]
    intro i _
    by_cases his : i = s
    · simp [his, hf]
    · simp [h i his]
  · rw [List.any_eq_true]
    exact ⟨s, List.mem_range.mpr hs, hf⟩

/-- What holds of the other streams anyway holds of all when it holds of this one. -/
theorem all_streams (hs : s < P.streamCount) {f : StreamId → Bool} (h : ∀ i, i ≠ s → f i = true) :
    (streams P).all f = f s := by
  rcases hf : f s with _ | _
  · rw [List.all_eq_false]
    exact ⟨s, List.mem_range.mpr hs, by simp [hf]⟩
  · rw [List.all_eq_true]
    intro i _
    by_cases his : i = s
    · rw [his, hf]
    · exact h i his

theorem Tidy.anyFull_eq {d : DemuxerQueue π} (h : d.Tidy s) (hs : s < P.streamCount) :
    anyFull P d = (d.queues s).isFull :=
  any_streams hs fun i hi => (h.counted i).not_full_of_nil (h.others i hi)

/-- The queue of stream `s` still needs packets. -/
def wants (km : Bool) (q : PacketQueue) : Bool := q.size = 0 || (km && decide (q.keyCount < 2))

theorem Tidy.needFillFirst_eq {d : DemuxerQueue π} (h : d.Tidy s) (hs : s < P.streamCount)
    (km : Bool) : needFillFirst P km d = wants km (d.queues s) := by
  refine (any_streams hs fun i hi => ?_).trans ?_
  · simp [h.enabled, hi]
  · simp [h.enabled, wants]

/-- Only the queue of the stream can need packets. -/
theorem Tidy.needFill_eq {d : DemuxerQueue π} (h : d.Tidy s) (hs : s < P.streamCount)
    (km : Bool) :
    needFill P km d = if km then decide ((d.queues s).keyCount < 2) else (d.queues s).size = 0 := by
  refine (any_streams hs fun i hi => ?_).trans ?_
  · cases km <;> simp [h.enabled, hi]
  · cases km <;> simp [h.enabled, h.canBeEmpty]

/-! ## Batches -/

/-- The queue after packets of its stream were accepted in order. -/
def acceptAll (seekTime : TimestampFF) : List DataPacket → List DataPacket → List DataPacket
  | queued, [] => queued
  | queued, p :: ps =>
    acceptAll seekTime (if resetsQueue seekTime p then [p] else queued ++ [p]) ps

/-- Packets are accepted one part after the other. -/
theorem acceptAll_append (seekTime : TimestampFF) (queued ps qs : List DataPacket) :
    acceptAll seekTime queued (ps ++ qs) =
      acceptAll seekTime (acceptAll seekTime queued ps) qs := by
  induction ps generalizing queued with
  | nil => rfl
  | cons p ps ih =>
    show acceptAll seekTime _ (ps ++ qs) = _
    rw [ih]
    rfl

/-- Without key packets to seek to, everything is kept. -/
theorem acceptAll_of_none {seekTime : TimestampFF} {ps : List DataPacket}
    (h : ∀ p ∈ ps, resetsQueue seekTime p = false) (queued : List DataPacket) :
    acceptAll seekTime queued ps = queued ++ ps := by
  induction ps generalizing queued with
  | nil => simp [acceptAll]
  | cons p ps ih =>
    unfold acceptAll
    rw [h p (by simp), ih fun q hq => h q (List.mem_cons_of_mem _ hq)]
    simp

theorem list_accept (seekTime : TimestampFF) (p : DataPacket) (q : PacketQueue) :
    (accept seekTime p q).list = if resetsQueue seekTime p then [p] else q.list ++ [p] := by
  unfold accept
  split <;> simp [PacketQueue.push, PacketQueue.reset]

/-- The demuxer has moved the packets `taken` of stream `s` from the parser to the queue. -/
structure Takes (s : StreamId) (d : DemuxerQueue π) (taken : List DataPacket)
    (d' : DemuxerQueue π) : Prop where
  ahead : ofStream s d.ahead = taken ++ ofStream s d'.ahead
  list : (d'.queues s).list = acceptAll d.seekTime (d.queues s).list taken
  tidy : d'.Tidy s
  seekTime : d'.seekTime = d.seekTime
  shrinks : d'.ahead.length + taken.length ≤ d.ahead.length

theorem Takes.refl {d : DemuxerQueue π} (h : d.Tidy s) : Takes s d [] d :=
  ⟨rfl, rfl, h, rfl, Nat.le_refl _⟩

theorem Takes.trans {d d₁ d₂ : DemuxerQueue π} {ps qs : List DataPacket} (h₁ : Takes s d ps d₁)
    (h₂ : Takes s d₁ qs d₂) : Takes s d (ps ++ qs) d₂ := by
  refine ⟨?_, ?_, h₂.tidy, h₂.seekTime.trans h₁.seekTime, ?_⟩
  · rw [h₁.ahead, h₂.ahead, List.append_assoc]
  · rw [h₂.list, h₁.list, h₁.seekTime, acceptAll_append]
  · have hfirst := h₁.shrinks
    have hsecond := h₂.shrinks
    rw [List.length_append]
    omega

/-- One packet of the stream. -/
theorem takes_own {d : DemuxerQueue π} (h : d.Tidy s) {p : DataPacket} {rest : List DataPacket}
    (ha : d.ahead = p :: rest) (hp : p.streamIndex = s) :
    Takes s d [p] { d.setQueue s (accept d.seekTime p (d.queues s)) with ahead := rest } := by
  refine ⟨?_, ?_, ⟨⟨fun i => ?_, ?_⟩, fun i => ?_, fun i hi => ?_⟩, rfl, ?_⟩
  · simp [ofStream, ha, hp]
  · simp [acceptAll, list_accept]
  · by_cases hi : i = s
    · subst hi
      have henabled := h.enabled i
      simp only [setQueue, Function.update_self, accept]
      split <;> simpa [PacketQueue.push, PacketQueue.reset] using henabled
    · simpa [hi] using h.enabled i
  · have hcan := h.canBeEmpty
    simp only [setQueue, Function.update_self, accept]
    split <;> simpa [PacketQueue.push, PacketQueue.reset] using hcan
  · by_cases hi : i = s
    · subst hi
      simp only [setQueue, Function.update_self, accept]
      split
      · exact (PacketQueue.counted_reset _).push p
      · exact (h.counted i).push p
    · simpa [hi] using h.counted i
  · simpa [hi] using h.others i hi
  · simp [ha]

/-- One packet of another stream. -/
theorem takes_other {d : DemuxerQueue π} (h : d.Tidy s) {p : DataPacket} {rest : List DataPacket}
    (ha : d.ahead = p :: rest) (hp : p.streamIndex ≠ s) :
    Takes s d [] { d.setQueue p.streamIndex (d.queues p.streamIndex).reset with ahead := rest } := by
  have hs : s ≠ p.streamIndex := fun h => hp h.symm
  refine ⟨?_, ?_, ⟨⟨fun i => ?_, ?_⟩, fun i => ?_, fun i hi => ?_⟩, rfl, ?_⟩
  · simp [ofStream, ha, hp]
  · simp [acceptAll, hs]
  · by_cases hi : i = p.streamIndex
    · subst hi
      simpa [PacketQueue.reset] using h.enabled p.streamIndex
    · simpa [hi] using h.enabled i
  · simpa [hs] using h.canBeEmpty
  · by_cases hi : i = p.streamIndex
    · subst hi
      simpa using PacketQueue.counted_reset _
    · simpa [hi] using h.counted i
  · by_cases hip : i = p.streamIndex
    · subst hip
      simp [PacketQueue.reset]
    · simpa [hip] using h.others i hi
  · simp [ha]

/-- How a batch ends: the count is reached, the file has ended, or the queue is full. -/
inductive BatchEnd (s : StreamId) (n : Nat) (d : DemuxerQueue π) (taken : List DataPacket)
    (d' : DemuxerQueue π) : Bool → Prop
  | reached : taken.length = n → d'.eofIsReached = d.eofIsReached → BatchEnd s n d taken d' true
  | eof : d'.eofIsReached = true → d'.ahead = [] → (d'.queues s).isFull = false →
      BatchEnd s n d taken d' false
  | full : d'.eofIsReached = d.eofIsReached → (d'.queues s).isFull = true →
      BatchEnd s n d taken d' false

/-- A batch ends as what is left of it after some packets does. -/
theorem BatchEnd.after {m n : Nat} {d d₁ d' : DemuxerQueue π} {taken taken₁ : List DataPacket}
    {res : Bool} (h : BatchEnd s m d₁ taken₁ d' res) (hcount : taken₁.length = m → taken.length = n)
    (heof : d₁.eofIsReached = d.eofIsReached) : BatchEnd s n d taken d' res := by
  cases h with
  | reached hlen he => exact .reached (hcount hlen) (he.trans heof)
  | eof he ha hfree => exact .eof he ha hfree
  | full he hfull => exact .full (he.trans heof) hfull

theorem Tidy.withAhead {d : DemuxerQueue π} (h : d.Tidy s) (ahead : List DataPacket) :
    Tidy s { d with ahead := ahead } :=
  ⟨⟨h.enabled, h.canBeEmpty⟩, h.counted, h.others⟩

/-- A batch takes the next packets, until the queue is full or the file ends. -/
theorem takes_readBatch (n : Nat) (ahead : List DataPacket) (d : DemuxerQueue π)
    (h : d.Tidy s) (hfree : (d.queues s).isFull = false) :
    ∃ taken, Takes s { d with ahead := ahead } taken (readBatch n ahead d).2 ∧
      BatchEnd s n d taken (readBatch n ahead d).2 (readBatch n ahead d).1 := by
  induction ahead generalizing n d with
  | nil =>
    cases n with
    | zero => exact ⟨[], .refl (h.withAhead _), .reached rfl rfl⟩
    | succ n =>
      refine ⟨[], ⟨rfl, rfl, ⟨⟨h.enabled, h.canBeEmpty⟩, h.counted, h.others⟩, rfl, ?_⟩, ?_⟩
      · simp [readBatch]
      · exact .eof rfl rfl hfree
  | cons p rest ih =>
    cases n with
    | zero => exact ⟨[], .refl (h.withAhead _), .reached rfl rfl⟩
    | succ n =>
      unfold readBatch
      dsimp only
      by_cases hp : p.streamIndex = s
      · have henabled : (d.queues p.streamIndex).enabled = true := by simp [h.enabled, hp]
        have hown := takes_own (h.withAhead (p :: rest)) rfl hp
        rw [if_pos henabled, hp]
        split
        · rename_i hfull
          exact ⟨[p], hown, .full rfl (by simpa using hfull)⟩
        · rename_i hfull
          obtain ⟨taken, htakes, hend⟩ :=
            ih n (d.setQueue s (accept d.seekTime p (d.queues s))) (hown.tidy.withAhead d.ahead)
              (by simpa using hfull)
          refine ⟨p :: taken, hown.trans htakes, hend.after (fun hlen => ?_) rfl⟩
          rw [List.length_cons, hlen]
      · have hdisabled : ¬(d.queues p.streamIndex).enabled = true := by simp [h.enabled, hp]
        have hother := takes_other (h.withAhead (p :: rest)) rfl hp
        rw [if_neg hdisabled]
        obtain ⟨taken, htakes, hend⟩ :=
          ih (n + 1) (d.setQueue p.streamIndex (d.queues p.streamIndex).reset)
            (hother.tidy.withAhead d.ahead)
            (by simpa [Function.update_of_ne (Ne.symm hp)] using hfree)
        exact ⟨taken, hother.trans htakes, hend.after id rfl⟩

/-! ## Filling the queue -/

/-- The demuxer has stopped filling for a reason: the file has ended, the queue is full, or it
holds what was wanted. -/
def Filled (s : StreamId) (km : Bool) (d : DemuxerQueue π) : Prop :=
  d.ahead = [] ∨ (d.queues s).isFull = true ∨ wants km (d.queues s) = false

/-- Without a queue that needs more, nothing is wanted. -/
theorem Tidy.wants_of_needFill {d : DemuxerQueue π} (h : d.Tidy s) (hs : s < P.streamCount)
    {km : Bool} (hn : needFill P km d = false) : wants km (d.queues s) = false := by
  rw [h.needFill_eq hs] at hn
  cases km with
  | false => simpa [wants] using hn
  | true =>
    have hkeys : ¬(d.queues s).keyCount < 2 := by simpa using hn
    simp [wants, hkeys, (h.counted s).two_keys hkeys]

/-- The loop of `fill_queue` takes the next packets and leaves the queue filled. -/
theorem takes_fillLoop (hs : s < P.streamCount) (km : Bool) (fuel : Nat) (d : DemuxerQueue π)
    (h : d.Tidy s) (heof : d.eofIsReached = false) (hfree : (d.queues s).isFull = false)
    (hfuel : d.ahead.length < fuel) :
    ∃ taken, Takes s d taken (fillLoop P km fuel d).2 ∧ Filled s km (fillLoop P km fuel d).2 ∧
      (fillLoop P km fuel d).2.AtEnd s := by
  induction fuel generalizing d with
  | zero => omega
  | succ fuel ih =>
    obtain ⟨taken, htakes, hend⟩ := takes_readBatch 16 d.ahead d h hfree
    unfold fillLoop readPacketsFromParser
    simp only [heof, Bool.false_eq_true, if_false]
    rcases hres : readBatch 16 d.ahead d with ⟨res, d₁⟩
    rw [hres] at htakes hend
    cases hend with
    | reached hlen he =>
      dsimp only
      rw [if_neg (by simp)]
      split
      · -- another batch
        rename_i hagain
        have hshrinks := htakes.shrinks
        dsimp only at hshrinks
        have hfree₁ : (d₁.queues s).isFull = false := by
          rw [← htakes.tidy.anyFull_eq hs]
          simp only [Bool.true_and, Bool.and_eq_true, Bool.not_eq_true'] at hagain
          exact hagain.2
        obtain ⟨more, hmore, hfilled, hahead⟩ :=
          ih d₁ htakes.tidy (he.trans heof) hfree₁ (by omega)
        exact ⟨taken ++ more, htakes.trans hmore, hfilled, hahead⟩
      · rename_i hstop
        refine ⟨taken, htakes, ?_, fun h => ?_⟩
        · rcases hn : needFill P km d₁ with _ | _
          · exact .inr (.inr (htakes.tidy.wants_of_needFill hs hn))
          · refine .inr (.inl ?_)
            rw [← htakes.tidy.anyFull_eq hs]
            simpa [hn] using hstop
        · dsimp only at h
          rw [he, heof] at h
          cases h
    | eof he ha hfree₁ =>
      dsimp only at he ⊢
      rw [if_pos (by simp [he])]
      exact ⟨taken, htakes, .inl ha, fun _ => ⟨ha, hfree₁⟩⟩
    | full he hfull =>
      dsimp only at he ⊢
      rw [if_neg (by simp [he, heof]), if_neg (by simp)]
      refine ⟨taken, htakes, .inr (.inl hfull), fun h => ?_⟩
      rw [he, heof] at h
      cases h

/-- `fill_queue` takes the next packets and leaves the queue filled. -/
theorem takes_fillQueue (hs : s < P.streamCount) (km : Bool) {d : DemuxerQueue π} (h : d.Tidy s)
    (heof : d.AtEnd s) :
    ∃ taken, Takes s d taken (fillQueue P km d).2 ∧ Filled s km (fillQueue P km d).2 ∧
      (fillQueue P km d).2.AtEnd s := by
  unfold fillQueue
  split
  · rename_i he
    exact ⟨[], .refl h, .inl (heof he).1, heof⟩
  · rename_i he
    split
    · rename_i hfull
      rw [h.anyFull_eq hs] at hfull
      exact ⟨[], .refl h, .inr (.inl hfull), heof⟩
    · rename_i hfree
      rw [h.anyFull_eq hs, Bool.not_eq_true] at hfree
      split
      · exact takes_fillLoop hs km _ d h (by simpa using he) hfree (Nat.lt_succ_self _)
      · rename_i hneed
        rw [h.needFillFirst_eq hs] at hneed
        exact ⟨[], .refl h, .inr (.inr (by simpa using hneed)), heof⟩

/-! ## Delivery -/

/-- The stream is going to read `ps`: they are queued or ahead, and none of them but the first can
empty the queue. -/
structure Holds (s : StreamId) (ps : List DataPacket) (d : DemuxerQueue π) : Prop where
  tidy : d.Tidy s
  eof : d.AtEnd s
  packets : (d.queues s).list ++ ofStream s d.ahead = ps
  sizes : ∀ p ∈ ps, 0 ≤ p.size
  keeps : ∀ p ∈ ps.tail, resetsQueue d.seekTime p = false

/-- Filling the queue loses nothing. -/
theorem Holds.takes {d d' : DemuxerQueue π} {ps taken : List DataPacket} (h : d.Holds s ps)
    (ht : Takes s d taken d') (heof : d'.AtEnd s) : d'.Holds s ps := by
  refine ⟨ht.tidy, heof, ?_, h.sizes, by rw [ht.seekTime]; exact h.keeps⟩
  have hall := h.packets
  rw [ht.ahead] at hall
  rcases hq : (d.queues s).list with _ | ⟨q, rest⟩
  · rcases taken with _ | ⟨p, taken⟩
    · rw [ht.list, hq]
      simpa [acceptAll, hq] using hall
    · have hnone : ∀ p' ∈ taken, resetsQueue d.seekTime p' = false := by
        intro p' hp'
        apply h.keeps
        rw [← hall, hq]
        simp [hp']
      have hlist : acceptAll d.seekTime [] (p :: taken) = p :: taken := by
        show acceptAll d.seekTime (if resetsQueue d.seekTime p then [p] else [] ++ [p]) taken = _
        rw [List.nil_append, ite_self, acceptAll_of_none hnone]
        rfl
      rw [ht.list, hq, hlist]
      simpa [hq] using hall
  · have hnone : ∀ p' ∈ taken, resetsQueue d.seekTime p' = false := by
      intro p' hp'
      apply h.keeps
      rw [← hall, hq]
      simp [hp']
    rw [ht.list, acceptAll_of_none hnone, List.append_assoc]
    exact hall

/-- A read fills an empty queue first; afterwards the queue is empty only at the end. -/
theorem read_eq (hs : s < P.streamCount) {d : DemuxerQueue π} {ps : List DataPacket}
    (h : d.Holds s ps) :
    ∃ d₁, d₁.Holds s ps ∧ ((d₁.queues s).list = [] → ps = []) ∧
      read P s d = match (d₁.queues s).pop with
        | (none, _) => (.ok none, d₁)
        | (some packet, queue) =>
          (.ok (some packet), { d₁.setQueue s queue with processedCount := d₁.processedCount + 1 }) := by
  have hlt : ¬s ≥ P.streamCount := Nat.not_le.mpr hs
  unfold read
  rw [if_neg hlt]
  by_cases hq : (d.queues s).size = 0
  · obtain ⟨taken, htakes, hfilled, heof⟩ := takes_fillQueue hs false h.tidy h.eof
    have hholds := h.takes htakes heof
    refine ⟨(fillQueue P false d).2, hholds, fun hnil => ?_, ?_⟩
    · have hpackets := hholds.packets
      rcases hfilled with ha | hfull | hwants
      · rw [hnil, ha] at hpackets
        exact hpackets.symm
      · rw [(hholds.tidy.counted s).not_full_of_nil hnil] at hfull
        cases hfull
      · simp [wants, PacketQueue.size, hnil] at hwants
    · simp only [hq, if_true]
      rfl
  · refine ⟨d, h, fun hnil => absurd ?_ hq, ?_⟩
    · rw [PacketQueue.size, hnil]
      rfl
    · simp only [hq, if_false]
      rfl

/-- The packets are read in order. -/
theorem read_of_holds (hs : s < P.streamCount) {d : DemuxerQueue π} {p : DataPacket}
    {ps : List DataPacket} (h : d.Holds s (p :: ps)) :
    ∃ d', read P s d = (.ok (some p), d') ∧ d'.Holds s ps := by
  obtain ⟨d₁, h₁, hnil, heq⟩ := read_eq hs h
  rcases hq : (d₁.queues s).list with _ | ⟨q, rest⟩
  · exact absurd (hnil hq) (by simp)
  · have hpop : (d₁.queues s).pop = (some q, (d₁.queues s).pop.2) := by
      unfold PacketQueue.pop
      simp only [hq]
    have hpackets := h₁.packets
    rw [hq, List.cons_append] at hpackets
    obtain ⟨rfl, hrest⟩ := List.cons.inj hpackets
    rw [hpop] at heq
    have hfree : (d₁.queues s).isFull = false → (d₁.queues s).pop.2.isFull = false :=
      PacketQueue.pop_not_full hq (h₁.sizes q (by simp))
    refine ⟨_, heq, ⟨⟨⟨fun i => ?_, ?_⟩, fun i => ?_, fun i hi => ?_⟩, fun he => ?_, ?_, ?_, ?_⟩⟩
    · by_cases hi : i = s
      · subst hi
        have henabled := h₁.tidy.enabled i
        simp only [setQueue, Function.update_self]
        unfold PacketQueue.pop
        simpa [hq] using henabled
      · simpa [hi] using h₁.tidy.enabled i
    · have hcan := h₁.tidy.canBeEmpty
      simp only [setQueue, Function.update_self]
      unfold PacketQueue.pop
      simpa [hq] using hcan
    · by_cases hi : i = s
      · subst hi
        simpa using (h₁.tidy.counted i).tail hq
      · simpa [hi] using h₁.tidy.counted i
    · simpa [hi] using h₁.tidy.others i hi
    · obtain ⟨hahead, hnotFull⟩ := h₁.eof he
      exact ⟨hahead, by simpa using hfree hnotFull⟩
    · simp only [setQueue, Function.update_self]
      unfold PacketQueue.pop
      simpa [hq] using hrest
    · exact fun p' hp' => h₁.sizes p' (List.mem_cons_of_mem _ hp')
    · intro p' hp'
      exact h₁.keeps p' (List.mem_of_mem_tail hp')

/-- At the end nothing is read. -/
theorem read_of_holds_nil (hs : s < P.streamCount) {d : DemuxerQueue π} (h : d.Holds s []) :
    ∃ d', read P s d = (.ok none, d') ∧ d'.Holds s [] := by
  obtain ⟨d₁, h₁, -, heq⟩ := read_eq hs h
  have hq : (d₁.queues s).list = [] := (List.append_eq_nil_iff.mp h₁.packets).1
  have hpop : (d₁.queues s).pop = (none, d₁.queues s) := by
    unfold PacketQueue.pop
    simp only [hq]
  rw [hpop] at heq
  exact ⟨d₁, heq, h₁⟩

/-- The packets to come are counted as remaining. -/
theorem Holds.le_remaining (hs : s < P.streamCount) {d : DemuxerQueue π} {ps : List DataPacket}
    (h : d.Holds s ps) : ps.length ≤ remaining P d := by
  have hqueue : (d.queues s).list.length ≤ ((streams P).map fun i => (d.queues i).size).sum :=
    List.single_le_sum (fun x _ => Nat.zero_le x) _
      (List.mem_map.mpr ⟨s, List.mem_range.mpr hs, rfl⟩)
  have hahead : (ofStream s d.ahead).length ≤ d.ahead.length := List.length_filter_le _ _
  rw [← h.packets, List.length_append]
  unfold remaining
  omega

end DemuxerQueue

end Seekira.Model
