import Seekira.Analysis.DemuxerHistory
import Seekira.Model.MediaFile

/-!
# What the demuxer keeps of a stream

From one repositioning of the parser to the next, what was returned for a stream and
what is still queued for it are, together, the packets of the stream in the order of
the parser, except for those that a later key packet made useless.
-/

set_option autoImplicit false

namespace Seekira.Model

open Library

/-- A key packet that makes earlier packets of its stream useless for a seek to `seekTime`. -/
def DataPacket.Replaces (seekTime : TimestampFF) (p : DataPacket) : Prop :=
  p.isKeyFrame = true ∧ 0 < p.duration ∧ p.ptsOrDts ≤ seekTime

namespace DemuxerQueue

variable {π : Type} {P : ParserOps π}

/-- A packet that resets the queue is one that replaces what was queued. -/
theorem replaces_of_resetsQueue {seekTime : TimestampFF} {p : DataPacket}
    (h : resetsQueue seekTime p = true) : p.Replaces seekTime := by
  unfold resetsQueue at h
  unfold DataPacket.Replaces DataPacket.ptsOrDts
  rw [Bool.and_eq_true] at h
  obtain ⟨hkey, h⟩ := h
  split at h
  · rename_i hpts
    rw [if_pos hpts]
    simp only [Bool.and_eq_true, decide_eq_true_eq] at h
    exact ⟨hkey, h.2, h.1⟩
  · rename_i hpts
    rw [if_neg hpts]
    split at h
    · simp only [Bool.and_eq_true, decide_eq_true_eq] at h
      exact ⟨hkey, h.2, h.1⟩
    · cases h

/-- Packets that a queue accepts are kept, and take back only what is still queued. -/
theorem thinned_acceptEach {seekTime : TimestampFF} {parsed returned : List DataPacket}
    {q : PacketQueue} (h : Thinned (DataPacket.Replaces seekTime) parsed (returned ++ q.list))
    (ps : List DataPacket) :
    Thinned (DataPacket.Replaces seekTime) (parsed ++ ps)
      (returned ++ (acceptEach seekTime ps q).list) := by
  induction ps generalizing parsed q with
  | nil =>
    rw [List.append_nil]
    exact h
  | cons p ps ih =>
    have hp : Thinned (DataPacket.Replaces seekTime) (parsed ++ [p])
        (returned ++ (accept seekTime p q).list) := by
      rw [list_accept]
      split
      · rename_i hreset
        exact h.clear (replaces_of_resetsQueue hreset)
      · rw [← List.append_assoc]
        exact h.push p
    have hall := ih hp
    rw [List.append_assoc] at hall
    exact hall

end DemuxerQueue

namespace DemuxerPeriod

variable {π : Type} {P : ParserOps π}

/-- The packets `parsed` were read from the parser since the period began with `d`. -/
structure Since (d : DemuxerQueue π) (w : DemuxerPeriod π) (parsed : List DataPacket) : Prop where
  ahead : d.ahead = parsed ++ w.demuxer.ahead
  seekTime : w.demuxer.seekTime = d.seekTime
  enabled : ∀ i, (w.demuxer.queues i).enabled = (d.queues i).enabled
  kept : ∀ i, (d.queues i).enabled = true →
    Thinned (DataPacket.Replaces d.seekTime) (DemuxerQueue.ofStream i parsed)
      (w.returned i ++ (w.demuxer.queues i).list)

/-- After a repositioning the queues are empty. -/
theorem Begins.list {d : DemuxerQueue π} (h : Begins P d) (i : StreamId) :
    (d.queues i).list = [] := by
  cases h with
  | constructed ahead internal enabled =>
    dsimp only
    unfold PacketQueue.setEnabled
    split <;> rfl
  | repositioned d index time hflags => rfl

/-- What was parsed since is parsed further. -/
theorem Since.parses {d d' : DemuxerQueue π} {w : DemuxerPeriod π} {parsed taken : List DataPacket}
    (h : w.Since d parsed) (ht : w.demuxer.Parses taken d') :
    Since d { w with demuxer := d' } (parsed ++ taken) := by
  refine ⟨?_, ht.seekTime.trans h.seekTime, fun i => (ht.flags i).1.trans (h.enabled i), ?_⟩
  · rw [h.ahead, ht.ahead, List.append_assoc]
  · intro i hi
    rw [ht.queue i ((h.enabled i).trans hi), DemuxerQueue.ofStream_append, h.seekTime]
    exact DemuxerQueue.thinned_acceptEach (h.kept i hi) _

/-- A packet that is returned leaves the front of its queue. -/
theorem Since.returns {d : DemuxerQueue π} {w : DemuxerPeriod π} {parsed : List DataPacket}
    (h : w.Since d parsed) {s : StreamId} {p : DataPacket} {rest : List DataPacket}
    (hq : (w.demuxer.queues s).list = p :: rest) (count : Nat) :
    Since d ⟨{ w.demuxer.setQueue s (w.demuxer.queues s).pop.2 with processedCount := count },
      Function.update w.returned s (w.returned s ++ [p])⟩ parsed := by
  have hpop : (w.demuxer.queues s).pop.2.list = rest ∧
      (w.demuxer.queues s).pop.2.enabled = (w.demuxer.queues s).enabled := by
    unfold PacketQueue.pop
    simp [hq]
  refine ⟨h.ahead, h.seekTime, fun i => ?_, fun i hi => ?_⟩
  · by_cases his : i = s
    · subst his
      simpa using hpop.2.trans (h.enabled i)
    · simpa [his] using h.enabled i
  · have hkept := h.kept i hi
    by_cases his : i = s
    · subst his
      rw [hq] at hkept
      simpa [hpop.1] using hkept
    · simpa [his] using hkept

/-- A call parses further packets. -/
theorem Since.step {d : DemuxerQueue π} {w w' : DemuxerPeriod π} {parsed : List DataPacket}
    (h : w.Since d parsed) {l : DemuxerCall} (hstep : step P w l = some w') :
    ∃ parsed', w'.Since d parsed' := by
  cases l with
  | fillQueue km =>
    obtain ⟨taken, htaken⟩ := DemuxerQueue.parses_fillQueue (P := P) km w.demuxer
    cases hstep
    exact ⟨_, h.parses htaken⟩
  | read s =>
    by_cases hs : s < P.streamCount
    · obtain ⟨taken, htaken⟩ := DemuxerQueue.parses_filledForRead (P := P) s w.demuxer
      have hfilled := h.parses htaken
      unfold DemuxerPeriod.step at hstep
      dsimp only at hstep
      rcases hq : ((DemuxerQueue.filledForRead P s w.demuxer).queues s).list with _ | ⟨p, rest⟩
      · rw [DemuxerQueue.read_of_empty hs hq] at hstep
        cases hstep
        exact ⟨_, hfilled⟩
      · rw [DemuxerQueue.read_of_cons hs hq] at hstep
        cases hstep
        exact ⟨_, hfilled.returns hq _⟩
    · unfold DemuxerPeriod.step DemuxerQueue.read at hstep
      dsimp only at hstep
      rw [if_pos (Nat.not_lt.mp hs)] at hstep
      cases hstep
      exact ⟨parsed, h⟩

/-- In every reachable state the queues come from what was parsed since. -/
theorem exists_since {d : DemuxerQueue π} (hd : Begins P d) {w : DemuxerPeriod π}
    (h : (machine P d).Reachable w) : ∃ parsed, w.Since d parsed := by
  refine h.invariant (I := fun w => ∃ parsed, w.Since d parsed) ?_ ?_
  · refine ⟨[], rfl, rfl, fun _ => rfl, fun i _ => ?_⟩
    show Thinned _ [] ([] ++ (d.queues i).list)
    rw [hd.list i]
    exact thinned_nil
  · rintro w l w' ⟨parsed, hw⟩ hstep
    exact hw.step hstep

/-- Between two repositionings of the parser, what was returned for an enabled stream and what is
queued for it are its packets in the order of the parser, without those that a later key packet
replaced. -/
theorem kept_in_order {d : DemuxerQueue π} (hd : Begins P d) {w : DemuxerPeriod π}
    (h : (machine P d).Reachable w) {s : StreamId} (hs : (d.queues s).enabled = true) :
    ∃ parsed, d.ahead = parsed ++ w.demuxer.ahead ∧
      Thinned (DataPacket.Replaces d.seekTime) (DemuxerQueue.ofStream s parsed)
        (w.returned s ++ (w.demuxer.queues s).list) := by
  obtain ⟨parsed, hw⟩ := exists_since hd h
  exact ⟨parsed, hw.ahead, hw.kept s hs⟩

/-- A file with a second key packet. -/
def twoKeysFile : List DataPacket :=
  [⟨0, 0, 0, 40, true, 100⟩, ⟨0, 40, 40, 40, false, 100⟩, ⟨0, 80, 80, 40, true, 100⟩,
    ⟨0, 120, 120, 40, false, 100⟩]

/-- A demuxer of that file that seeks to the fourth packet. -/
def twoKeysDemuxer : DemuxerQueue Unit :=
  { DemuxerQueue.create (fileParser twoKeysFile 160) [] () with seekTime := 120 }

def twoKeysPeriod : Machine (DemuxerPeriod Unit) DemuxerCall :=
  machine (fileParser twoKeysFile 160)
    (twoKeysDemuxer.resetQueue.parserSeek (fileParser twoKeysFile 160) 0 0).2

/-- Only the packets from the second key packet on are kept. -/
theorem kept_in_order_two_keys :
    ∃ w, twoKeysPeriod.Reachable w ∧ w.returned 0 = twoKeysFile.drop 2 ∧
      ∃ parsed, twoKeysFile = parsed ++ w.demuxer.ahead ∧
        Thinned (DataPacket.Replaces 120) (DemuxerQueue.ofStream 0 parsed)
          (w.returned 0 ++ (w.demuxer.queues 0).list) := by
  obtain ⟨w, -, hrun, hw⟩ := Machine.exists_run_of_exec twoKeysPeriod
    [.fillQueue true, .read 0, .read 0] (fun w => w.returned 0 = twoKeysFile.drop 2)
    (by decide +kernel)
  exact ⟨w, ⟨_, hrun⟩, of_decide_eq_true hw,
    kept_in_order (.repositioned twoKeysDemuxer 0 0 fun _ => rfl) ⟨_, hrun⟩ rfl⟩

end DemuxerPeriod

end Seekira.Model
