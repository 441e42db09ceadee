import Seekira.Analysis.DemuxerStarvation
import Seekira.Library.Loop

/-!
# Filling the queues

`fill_queue` reads batches until no queue needs packets, a queue is full or the file has ended.
A batch that reads all its packets shortens what is ahead, whatever it does to the queues, and
any other batch is the last one.
-/

set_option autoImplicit false

namespace Seekira.Model

open Library

namespace PacketQueue

/-- A queue with two key packets is not empty. -/
theorem Counted.enough_keys {q : PacketQueue} (h : q.Counted) (hk : ¬q.keyCount < 2) :
    q.list ≠ [] ∧ 2 ≤ (q.list.filter DataPacket.isKeyFrame).length := by
  have hkeys := h.keys
  refine ⟨fun hnil => h.two_keys hk ?_, by omega⟩
  rw [PacketQueue.size, hnil]
  rfl

end PacketQueue

namespace DemuxerQueue

variable {π : Type} {P : ParserOps π}

/-- Accepting a packet keeps the counts right. -/
theorem counted_accept (time : TimestampFF) (p : DataPacket) {q : PacketQueue} (h : q.Counted) :
    (accept time p q).Counted := by
  unfold accept
  split
  · exact (PacketQueue.counted_reset q).push p
  · exact h.push p

theorem counted_acceptEach (time : TimestampFF) (ps : List DataPacket) {q : PacketQueue}
    (h : q.Counted) : (acceptEach time ps q).Counted := by
  induction ps generalizing q with
  | nil => exact h
  | cons p ps ih => exact ih (counted_accept time p h)

/-! ## The states of a demuxer -/

/-- What holds of a demuxer at all times: the totals of its queues are those of their packets,
next to what holds of them between two calls. -/
structure Consistent (P : ParserOps π) (d : DemuxerQueue π) : Prop extends Regular P d where
  counted : ∀ i, (d.queues i).Counted

/-- Parsing keeps the demuxer consistent. -/
theorem Consistent.parses {d d' : DemuxerQueue π} {taken : List DataPacket} (h : d.Consistent P)
    (ht : Parses d taken d') : d'.Consistent P := by
  refine ⟨h.toRegular.parses ht, fun i => ?_⟩
  rcases henabled : (d.queues i).enabled with _ | _
  · rcases ht.disabled i henabled with heq | heq
    · rw [heq]
      exact h.counted i
    · rw [heq]
      exact PacketQueue.counted_reset _
  · rw [ht.queue i henabled]
    exact counted_acceptEach _ _ (h.counted i)

theorem Consistent.fillQueue {d : DemuxerQueue π} (h : d.Consistent P) (km : Bool) :
    (fillQueue P km d).2.Consistent P := by
  obtain ⟨taken, htaken⟩ := parses_fillQueue (P := P) km d
  exact h.parses htaken

/-- A read keeps the demuxer consistent. -/
theorem Consistent.read {d : DemuxerQueue π} (h : d.Consistent P) (s : StreamId) :
    (read P s d).2.Consistent P := by
  by_cases hs : s < P.streamCount
  · obtain ⟨taken, htaken⟩ := parses_filledForRead (P := P) s d
    have hfilled := h.parses htaken
    rcases hq : ((filledForRead P s d).queues s).list with _ | ⟨p, rest⟩
    · rw [read_of_empty hs hq]
      exact hfilled
    · rw [read_of_cons hs hq]
      refine ⟨hfilled.toRegular.pop hq _, fun i => ?_⟩
      by_cases hi : i = s
      · subst hi
        simpa using (hfilled.counted i).tail hq
      · simpa [hi] using hfilled.counted i
  · unfold DemuxerQueue.read
    rw [if_pos (Nat.not_lt.mp hs)]
    exact h

/-- Enabling or disabling a stream keeps the demuxer consistent. -/
theorem Consistent.enableStream {d : DemuxerQueue π} (h : d.Consistent P) (s : StreamId)
    (value : Bool) : (enableStream P s value d).2.Consistent P := by
  unfold DemuxerQueue.enableStream
  split
  · exact h
  · refine ⟨⟨fun i hi => ?_, fun i => ?_, h.eof, h.own⟩, fun i => ?_⟩
    all_goals by_cases his : i = s
    · subst his
      cases value
      · simp [PacketQueue.setEnabled, PacketQueue.reset]
      · simp [PacketQueue.setEnabled] at hi
    · simpa [his] using h.disabled i (by simpa [his] using hi)
    · subst his
      cases value <;> simpa [PacketQueue.setEnabled, PacketQueue.reset] using h.canBeEmpty i
    · simpa [his] using h.canBeEmpty i
    · subst his
      cases value
      · simpa [PacketQueue.setEnabled] using PacketQueue.counted_reset _
      · have hcounted := h.counted i
        simpa [PacketQueue.setEnabled] using
          (⟨hcounted.size, hcounted.keys⟩ :
            PacketQueue.Counted { d.queues i with enabled := true })
    · simpa [his] using h.counted i

end DemuxerQueue

namespace DemuxerPeriod

variable {π : Type} {P : ParserOps π}

/-- A demuxer is consistent after a repositioning. -/
theorem Begins.consistent {d : DemuxerQueue π} (h : Begins P d)
    (hown : DemuxerQueue.OwnPackets P d) : d.Consistent P := by
  refine ⟨h.regular hown, fun i => ?_⟩
  cases h with
  | constructed ahead internal enabled =>
    dsimp only
    unfold PacketQueue.setEnabled
    split <;> exact ⟨rfl, rfl⟩
  | repositioned d index time _ => exact PacketQueue.counted_reset _

/-- Every call keeps the demuxer consistent. -/
theorem consistent_step {w w' : DemuxerPeriod π} {l : DemuxerCall} (h : w.demuxer.Consistent P)
    (hstep : step P w l = some w') : w'.demuxer.Consistent P := by
  cases l with
  | fillQueue km =>
    cases hstep
    exact h.fillQueue km
  | read s =>
    have hread := h.read s
    unfold DemuxerPeriod.step at hstep
    dsimp only at hstep
    split at hstep
    · rename_i hres
      cases hstep
      rwa [hres] at hread
    · rename_i hres
      cases hstep
      rwa [hres] at hread

/-- A demuxer is consistent at every moment between two repositionings. -/
theorem reachable_consistent {d : DemuxerQueue π} (hd : Begins P d)
    (hown : DemuxerQueue.OwnPackets P d) {w : DemuxerPeriod π} (h : (machine P d).Reachable w) :
    w.demuxer.Consistent P :=
  h.invariant (I := fun w => w.demuxer.Consistent P) (hd.consistent hown)
    fun _ _ _ hw hstep => consistent_step hw hstep

end DemuxerPeriod

/-! ## The loop -/

namespace DemuxerQueue

variable {π : Type} {P : ParserOps π}

/-- One round of the loop of `fill_queue`.
SOURCE: video/ffmpeg/decoding/demuxer_queue.cpp:360-394 -/
def fillRound (P : ParserOps π) (keyPacketsMustExist : Bool) (d : DemuxerQueue π) :
    Round (DemuxerQueue π) (Bool × DemuxerQueue π) :=
  let (readResult, d) := d.readPacketsFromParser 16
  if !readResult && d.eofIsReached then
    .leave ((streams P).any fun i => (d.queues i).size ≠ 0, d)
  else if readResult && needFill P keyPacketsMustExist d && !anyFull P d then .again d
  else .leave (true, d)

/-- `fill_queue` returns `r`, whatever the number of rounds. -/
def FillsQueue (P : ParserOps π) (keyPacketsMustExist : Bool) (d : DemuxerQueue π)
    (r : Bool × DemuxerQueue π) : Prop :=
  if d.eofIsReached || anyFull P d then r = (false, d)
  else if needFillFirst P keyPacketsMustExist d then
    ∃ n, Leaves (fillRound P keyPacketsMustExist) n d r
  else r = (true, d)

/-- The reasons to stop: the end of the file, a full queue, or enough packets of every enabled
audio and video stream. -/
def FilledUp (P : ParserOps π) (keyPacketsMustExist : Bool) (d : DemuxerQueue π) : Prop :=
  (d.eofIsReached = true ∧ d.ahead = []) ∨ (∃ i < P.streamCount, (d.queues i).isFull = true) ∨
    ∀ i < P.streamCount, (d.queues i).enabled = true →
      (P.streamType i = .audio ∨ P.streamType i = .video) →
      (d.queues i).list ≠ [] ∧ (keyPacketsMustExist = true →
        2 ≤ ((d.queues i).list.filter DataPacket.isKeyFrame).length)

variable {d d' : DemuxerQueue π} {km : Bool}

theorem filledUp_of_full (h : anyFull P d = true) : FilledUp P km d := by
  unfold anyFull streams at h
  obtain ⟨i, hi, hfull⟩ := List.any_eq_true.mp h
  exact .inr (.inl ⟨i, List.mem_range.mp hi, hfull⟩)

/-- The queues of audio and video streams must hold packets. -/
theorem Consistent.must_hold (h : d.Consistent P) {i : StreamId}
    (htype : P.streamType i = .audio ∨ P.streamType i = .video) :
    (d.queues i).canBeEmpty = false := by
  rw [h.canBeEmpty]
  rcases htype with htype | htype
  · simp [PacketQueue.create, htype]
  · simp [PacketQueue.create, htype]

/-- When nothing is wanted at first, the streams have enough. -/
theorem Consistent.filledUp_of_first (h : d.Consistent P) (hn : needFillFirst P km d = false) :
    FilledUp P km d := by
  refine .inr (.inr fun i hi henabled _ => ?_)
  unfold needFillFirst at hn
  have hqueue := List.any_eq_false.mp hn i (List.mem_range.mpr hi)
  simp only [henabled, Bool.true_and, Bool.or_eq_true, decide_eq_true_eq, Bool.and_eq_true,
    not_or, not_and, PacketQueue.size, List.length_eq_zero_iff] at hqueue
  exact ⟨hqueue.1, fun hkm => ((h.counted i).enough_keys (hqueue.2 hkm)).2⟩

/-- When nothing is needed any more, the streams have enough. -/
theorem Consistent.filledUp_of_enough (h : d.Consistent P) (hn : needFill P km d = false) :
    FilledUp P km d := by
  refine .inr (.inr fun i hi henabled htype => ?_)
  unfold needFill at hn
  have hqueue := List.any_eq_false.mp hn i (List.mem_range.mpr hi)
  cases km with
  | true =>
    have hkeys : ¬(d.queues i).keyCount < 2 := by
      simpa [henabled, h.must_hold htype] using hqueue
    obtain ⟨hlist, htwo⟩ := (h.counted i).enough_keys hkeys
    exact ⟨hlist, fun _ => htwo⟩
  | false =>
    refine ⟨?_, nofun⟩
    simpa [henabled, h.must_hold htype, PacketQueue.size] using hqueue

/-- A batch that reads all its packets shortens what is ahead. -/
theorem readBatch_shrinks (n : Nat) (ahead : List DataPacket) (d : DemuxerQueue π)
    (h : (readBatch (n + 1) ahead d).1 = true) :
    (readBatch (n + 1) ahead d).2.ahead.length < ahead.length := by
  induction ahead generalizing n d with
  | nil => cases h
  | cons p rest ih =>
    unfold readBatch at h ⊢
    dsimp only at h ⊢
    split at h
    · rename_i henabled
      rw [if_pos henabled]
      split at h
      · cases h
      · rename_i hroom
        rw [if_neg hroom]
        cases n with
        | zero => simp [readBatch]
        | succ n => exact Nat.lt_succ_of_lt (ih n _ h)
    · rename_i hdisabled
      rw [if_neg hdisabled]
      exact Nat.lt_succ_of_lt (ih n _ h)

/-- The loop's state: what is always so of a demuxer, and the end is not reported yet. -/
structure Filling (P : ParserOps π) (d : DemuxerQueue π) : Prop extends Consistent P d where
  notEnded : d.eofIsReached = false
  noneFull : NoneFull P d

theorem Filling.readPacketsFromParser (h : d.Filling P) :
    d.readPacketsFromParser 16 = readBatch 16 d.ahead d := by
  simp [DemuxerQueue.readPacketsFromParser, h.notEnded]

/-- A round that is not the last leaves fewer packets ahead. -/
theorem fillRound_again (h : d.Filling P) (hround : fillRound P km d = .again d') :
    d'.Filling P ∧ d'.ahead.length < d.ahead.length := by
  obtain ⟨taken, htaken, hstop⟩ := parses_readBatch (P := P) 16 d.ahead d
  have hshrinks := readBatch_shrinks 15 d.ahead d
  unfold fillRound at hround
  rw [h.readPacketsFromParser] at hround
  rcases hres : readBatch 16 d.ahead d with ⟨res, d₁⟩
  rw [hres] at htaken hstop hshrinks hround
  dsimp only at htaken hstop hshrinks hround
  split at hround
  · cases hround
  · split at hround
    · rename_i hgoes
      obtain rfl := Round.again.inj hround
      simp only [Bool.and_eq_true, Bool.not_eq_true'] at hgoes
      refine ⟨⟨h.toConsistent.parses htaken, ?_, (anyFull_eq_false_iff _).mp hgoes.2⟩,
        hshrinks hgoes.1.1⟩
      have hend := hstop h.noneFull h.own
      rw [hgoes.1.1] at hend
      cases hend with
      | reached _ he _ => exact he.trans h.notEnded
    · cases hround

/-- The last round has one of the reasons to stop. -/
theorem fillRound_leave (h : d.Filling P) {r : Bool × DemuxerQueue π}
    (hround : fillRound P km d = .leave r) : FilledUp P km r.2 := by
  obtain ⟨taken, htaken, hstop⟩ := parses_readBatch (P := P) 16 d.ahead d
  have hnext := h.toConsistent.parses htaken
  unfold fillRound at hround
  rw [h.readPacketsFromParser] at hround
  rcases hres : readBatch 16 d.ahead d with ⟨res, d₁⟩
  rw [hres] at htaken hstop hnext hround
  dsimp only at htaken hstop hnext hround
  split at hround
  · rename_i hend
    obtain rfl := Round.leave.inj hround
    simp only [Bool.and_eq_true] at hend
    exact .inl ⟨hend.2, hnext.eof hend.2⟩
  · split at hround
    · cases hround
    · rename_i hnot hends
      obtain rfl := Round.leave.inj hround
      cases hstop h.noneFull h.own with
      | eof he _ _ => simp [he] at hnot
      | full _ hfills =>
        apply filledUp_of_full
        rw [← Bool.not_eq_false, anyFull_eq_false_iff]
        intro hnone
        exact hfills.last ((htaken.noneFull_iff h.noneFull).mp hnone)
      | reached _ _ hstays =>
        rcases hfull : anyFull P d₁ with _ | _
        · apply hnext.filledUp_of_enough
          simpa [hfull] using hends
        · exact filledUp_of_full hfull

/-- With a bound on its rounds, the loop does what they decide. -/
theorem fillLoop_of_leaves {n : Nat} {r : Bool × DemuxerQueue π}
    (h : Leaves (fillRound P km) n d r) {fuel : Nat} (hfuel : n ≤ fuel) :
    fillLoop P km fuel d = r := by
  have hunfold : ∀ (fuel : Nat) (d : DemuxerQueue π), fillLoop P km (fuel + 1) d =
      (match fillRound P km d with
        | .again d' => fillLoop P km fuel d'
        | .leave r => r) := by
    intro fuel d
    unfold fillRound
    rw [fillLoop]
    dsimp only
    split
    · rfl
    · split <;> rfl
  induction h generalizing fuel with
  | last hround =>
    obtain ⟨fuel, rfl⟩ := Nat.exists_eq_add_of_le' hfuel
    rw [hunfold, hround]
  | next hround _ ih =>
    obtain ⟨fuel, rfl⟩ := Nat.exists_eq_add_of_le' (Nat.le_trans (Nat.le_add_left 1 _) hfuel)
    rw [hunfold, hround]
    exact ih (Nat.le_of_succ_le_succ hfuel)

/-- A batch that is not the last one shortens what is ahead, so the loop leaves. -/
theorem Filling.leaves (h : d.Filling P) (km : Bool) :
    ∃ n, Leaves (fillRound P km) n d (fillLoop P km (d.ahead.length + 1) d) := by
  have hdown : ∀ d d' : DemuxerQueue π, d.Filling P → fillRound P km d = .again d' →
      d'.Filling P ∧ d'.ahead.length < d.ahead.length :=
    fun _ _ h hround => fillRound_again h hround
  obtain ⟨n, r, hleaves⟩ := exists_leaves hdown h
  have hbound := hleaves.rounds_le hdown h
  rw [fillLoop_of_leaves hleaves hbound]
  exact ⟨n, hleaves⟩

/-- `fill_queue` returns what the rounds of its loop end with. -/
theorem Consistent.fillsQueue (km : Bool) (h : d.Consistent P) :
    FillsQueue P km d (d.fillQueue P km) := by
  unfold FillsQueue DemuxerQueue.fillQueue
  rcases heof : d.eofIsReached with _ | _
  · rcases hfull : anyFull P d with _ | _
    · have hfilling : d.Filling P := ⟨h, heof, (anyFull_eq_false_iff d).mp hfull⟩
      rcases hneed : needFillFirst P km d with _ | _
      · rfl
      · exact hfilling.leaves km
    · rfl
  · rfl

/-- However many rounds it takes, the filling ends for one of its reasons. -/
theorem Consistent.filledUp {km : Bool} (h : d.Consistent P) {r : Bool × DemuxerQueue π}
    (hr : FillsQueue P km d r) : FilledUp P km r.2 := by
  unfold FillsQueue at hr
  rcases heof : d.eofIsReached with _ | _
  · rcases hfull : anyFull P d with _ | _
    · have hfilling : d.Filling P := ⟨h, heof, (anyFull_eq_false_iff d).mp hfull⟩
      rcases hneed : needFillFirst P km d with _ | _
      · simp only [heof, hfull, hneed] at hr
        obtain rfl := hr
        exact h.filledUp_of_first hneed
      · simp only [heof, hfull, hneed] at hr
        obtain ⟨n, hleaves⟩ := hr
        exact hleaves.post (Q := fun r => FilledUp P km r.2)
          (fun _ _ h hround => (fillRound_again h hround).1)
          (fun _ _ h hround => fillRound_leave h hround) hfilling
    · simp only [heof, hfull] at hr
      obtain rfl := hr
      exact filledUp_of_full hfull
  · simp only [heof] at hr
    obtain rfl := hr
    exact .inl ⟨heof, h.eof heof⟩

/-- `fill_queue` returns, and only when the end of the file is reached, a queue is full, or every
enabled audio and video stream has enough packets. -/
theorem fillQueue_returns (km : Bool) (h : d.Consistent P) :
    FillsQueue P km d (fillQueue P km d) ∧ ∀ r, FillsQueue P km d r → FilledUp P km r.2 :=
  ⟨h.fillsQueue km, fun _ => h.filledUp⟩

/-- With an audio and a video stream enabled. -/
theorem fillQueue_returns_crowded :
    FillsQueue DemuxerPeriod.crowdedParser true DemuxerPeriod.crowdedDemuxer
        (DemuxerPeriod.crowdedDemuxer.fillQueue DemuxerPeriod.crowdedParser true) ∧
      ∀ r, FillsQueue DemuxerPeriod.crowdedParser true DemuxerPeriod.crowdedDemuxer r →
        FilledUp DemuxerPeriod.crowdedParser true r.2 := by
  apply fillQueue_returns true
  have hbegins : DemuxerPeriod.Begins DemuxerPeriod.crowdedParser DemuxerPeriod.crowdedDemuxer :=
    .constructed DemuxerPeriod.crowdedFile () fun _ => true
  have hown : ∀ p ∈ DemuxerPeriod.crowdedFile, p.streamIndex < 2 := by decide
  exact hbegins.consistent hown

end DemuxerQueue

/-- A demuxer that is read between two repositionings fills its queues whenever it is asked. -/
theorem DemuxerPeriod.fillQueue_reachable {π : Type} {P : ParserOps π} {d : DemuxerQueue π}
    (hd : Begins P d) (hown : DemuxerQueue.OwnPackets P d) {w : DemuxerPeriod π}
    (h : (machine P d).Reachable w) (km : Bool) :
    DemuxerQueue.FillsQueue P km w.demuxer (w.demuxer.fillQueue P km) ∧
      ∀ r, DemuxerQueue.FillsQueue P km w.demuxer r → DemuxerQueue.FilledUp P km r.2 := by
  have hconsistent := reachable_consistent hd hown h
  exact ⟨hconsistent.fillsQueue km, fun _ => hconsistent.filledUp⟩

end Seekira.Model
