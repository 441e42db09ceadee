import Seekira.Analysis.DemuxerKept
import Seekira.Analysis.DemuxerSettings

/-!
# When a read finds nothing

A read of an empty queue fills all queues at once, and the filling stops as soon as any
queue is full.  So a stream whose reader keeps up gets null, as at its end, when the
packets of another stream fill that stream's queue before the next packet of its own
arrives.
-/

set_option autoImplicit false

namespace Seekira.Model

open Library

namespace DemuxerQueue

variable {π : Type} {P : ParserOps π} {s : StreamId}

/-- If a read of stream `s` returns null, the parser has reported the end of the file and no packet
of the stream is left. -/
def NullAtEnd (P : ParserOps π) (s : StreamId) (d : DemuxerQueue π) : Prop :=
  ∀ d', read P s d = (.ok none, d') →
    d'.eofIsReached = true ∧ (d'.queues s).list = [] ∧ ofStream s d'.ahead = []

/-- Nothing is queued for stream `s`, and the packets that come before its next packet, or before
the end of the file, fill the queue of another stream; none of them when that queue is full
already. -/
def Starved (P : ParserOps π) (s : StreamId) (d : DemuxerQueue π) : Prop :=
  (d.queues s).list = [] ∧ d.eofIsReached = false ∧
    ∃ front, front <+: d.ahead ∧ ofStream s front = [] ∧
      ∃ i < P.streamCount, (d.queues i).enabled = true ∧
        (acceptEach d.seekTime (ofStream i front) (d.queues i)).isFull = true

theorem not_noneFullAfter_iff {d : DemuxerQueue π} {front : List DataPacket} :
    ¬NoneFullAfter P d front ↔ ∃ i < P.streamCount, (d.queues i).enabled = true ∧
      (acceptEach d.seekTime (ofStream i front) (d.queues i)).isFull = true := by
  unfold NoneFullAfter
  simp

/-- What holds of a demuxer between two calls: the queues of disabled streams are empty, the queues
of audio and video streams must not stay empty, and the end of the file is reported when nothing is
ahead. -/
structure Regular (P : ParserOps π) (d : DemuxerQueue π) : Prop where
  disabled : ∀ i, (d.queues i).enabled = false →
    (d.queues i).list = [] ∧ (d.queues i).currentSize = 0
  canBeEmpty : ∀ i, (d.queues i).canBeEmpty = (PacketQueue.create (P.streamType i)).canBeEmpty
  eof : d.eofIsReached = true → d.ahead = []
  own : OwnPackets P d

/-- Parsing keeps the queues regular. -/
theorem Regular.parses {d d' : DemuxerQueue π} {taken : List DataPacket} (h : d.Regular P)
    (ht : Parses d taken d') : d'.Regular P := by
  refine ⟨fun i hi => ?_, fun i => (ht.flags i).2.trans (h.canBeEmpty i), fun he => ?_,
    h.own.parses ht⟩
  · rw [(ht.flags i).1] at hi
    rcases ht.disabled i hi with heq | heq
    · rw [heq]
      exact h.disabled i hi
    · rw [heq]
      exact ⟨rfl, rfl⟩
  · rcases ht.eof he with he₀ | ha
    · have hall := ht.ahead
      rw [h.eof he₀] at hall
      exact (List.append_eq_nil_iff.mp hall.symm).2
    · exact ha

/-- A packet is taken from the queue of an enabled stream. -/
theorem Regular.pop {d : DemuxerQueue π} (h : d.Regular P) {p : DataPacket}
    {rest : List DataPacket} (hq : (d.queues s).list = p :: rest) (count : Nat) :
    Regular P { d.setQueue s (d.queues s).pop.2 with processedCount := count } := by
  have hsettings := d.settings_self.pop s count
  refine ⟨fun i hi => ?_, fun i => (hsettings.canBeEmpty i).trans (h.canBeEmpty i), h.eof, h.own⟩
  have hdisabled := h.disabled i ((hsettings.enabled i).symm.trans hi)
  by_cases his : i = s
  · subst his
    rw [hq] at hdisabled
    cases hdisabled.1
  · simpa [his] using hdisabled

/-- Without a full queue among the enabled ones, none is full. -/
theorem Regular.noneFull {d : DemuxerQueue π} (h : d.Regular P) (hnone : NoneFullAfter P d []) :
    NoneFull P d := by
  intro i hi
  rcases henabled : (d.queues i).enabled with _ | _
  · obtain ⟨hlist, hsize⟩ := h.disabled i henabled
    simp [PacketQueue.isFull, hlist, hsize, PacketQueue.maxSize]
  · exact hnone i hi henabled

/-- A queue that accepts packets is not empty afterwards. -/
theorem acceptEach_ne_nil (time : TimestampFF) {ps : List DataPacket} (hps : ps ≠ [])
    (q : PacketQueue) : (acceptEach time ps q).list ≠ [] := by
  obtain ⟨init, p, rfl⟩ := (List.eq_nil_or_concat ps).resolve_left hps
  rw [List.concat_eq_append, acceptEach_append]
  show (accept time p _).list ≠ []
  rw [list_accept]
  split <;> simp

/-- A read of a queue that was filled returns a packet. -/
theorem read_of_filled {d : DemuxerQueue π} (hs : s < P.streamCount)
    (hq : ((filledForRead P s d).queues s).list ≠ []) :
    NullAtEnd P s d := by
  intro d' hread
  obtain ⟨p, rest, hlist⟩ := List.exists_cons_of_ne_nil hq
  rw [read_of_cons hs hlist] at hread
  cases hread

/-- Of two front parts of one list, the one that already holds a packet of `s` is not part of the
one that does not. -/
theorem proper_prefix {front taken ahead : List DataPacket} (hfront : front <+: ahead)
    (htaken : taken <+: ahead) (hnone : ofStream s front = []) (hsome : ofStream s taken ≠ []) :
    front <+: taken ∧ front ≠ taken := by
  rcases List.prefix_or_prefix_of_prefix hfront htaken with h | ⟨rest, rfl⟩
  · refine ⟨h, ?_⟩
    rintro rfl
    exact hsome hnone
  · rw [ofStream_append, List.append_eq_nil_iff] at hnone
    exact absurd hnone.1 hsome

/-- Before the end, with no queue full, a read of an empty queue fills the queues until one is full,
the file has ended or no queue needs more. -/
theorem filledForRead_stop (hs : s < P.streamCount) {d : DemuxerQueue π} (h : d.Regular P)
    (henabled : (d.queues s).enabled = true) (hq : (d.queues s).size = 0)
    (heof : d.eofIsReached = false) (hnone : NoneFull P d) :
    ∃ taken, Parses d taken (filledForRead P s d) ∧
      FillStop P false d taken (filledForRead P s d) := by
  have hneed : needFillFirst P false d = true := by
    unfold needFillFirst
    rw [List.any_eq_true]
    exact ⟨s, List.mem_range.mpr hs, by simp [henabled, hq]⟩
  have hfill : filledForRead P s d = (fillLoop P false (d.ahead.length + 1) d).2 := by
    unfold filledForRead fillQueue
    simp [hq, heof, (anyFull_eq_false_iff d).mpr hnone, hneed]
  obtain ⟨taken, htaken, hstop⟩ := parses_fillLoop (P := P) false (d.ahead.length + 1) d
  rw [hfill]
  exact ⟨taken, htaken, hstop hnone h.own heof (Nat.lt_succ_self _)⟩

/-- A filling that took no packet of the stream. -/
theorem nullAtEnd_iff_of_none (hs : s < P.streamCount) {d : DemuxerQueue π}
    (henabled : (d.queues s).enabled = true) (hmust : (d.queues s).canBeEmpty = false)
    (hq : (d.queues s).list = []) (heof : d.eofIsReached = false) {taken : List DataPacket}
    (htaken : Parses d taken (filledForRead P s d))
    (hstop : FillStop P false d taken (filledForRead P s d)) (hnil : ofStream s taken = []) :
    NullAtEnd P s d ↔ ¬Starved P s d := by
  have hempty : ((filledForRead P s d).queues s).list = [] := by
    rw [htaken.queue s henabled, hnil]
    exact hq
  cases hstop with
  | eof he ha hs' =>
    have hall : taken = d.ahead := by
      rw [htaken.ahead, ha, List.append_nil]
    refine iff_of_true (fun d' hread => ?_) ?_
    · rw [read_of_empty hs hempty] at hread
      cases hread
      refine ⟨he, hempty, ?_⟩
      rw [ha]
      rfl
    · rintro ⟨-, -, front, hfront, -, hfull⟩
      exact not_noneFullAfter_iff.mpr hfull (hs' front (by rw [hall]; exact hfront))
  | full he hf =>
    refine iff_of_false (fun hnull => ?_) ?_
    · have hend := hnull _ (read_of_empty hs hempty)
      rw [he] at hend
      cases hend.1
    · rw [Classical.not_not]
      exact ⟨hq, heof, taken, ⟨_, htaken.ahead.symm⟩, hnil, not_noneFullAfter_iff.mp hf.last⟩
  | enough he hs' hn =>
    -- the queue of the stream itself still needs packets
    have hneeds : needFill P false (filledForRead P s d) = true := by
      unfold needFill
      rw [List.any_eq_true]
      refine ⟨s, List.mem_range.mpr hs, ?_⟩
      simp [(htaken.flags s).1, (htaken.flags s).2, henabled, hmust, PacketQueue.size, hempty]
    rw [hn] at hneeds
    cases hneeds

/-- A filling that took a packet of the stream. -/
theorem nullAtEnd_iff_of_some (hs : s < P.streamCount) {d : DemuxerQueue π}
    (henabled : (d.queues s).enabled = true) {taken : List DataPacket}
    (htaken : Parses d taken (filledForRead P s d))
    (hstop : FillStop P false d taken (filledForRead P s d)) (hsome : ofStream s taken ≠ []) :
    NullAtEnd P s d ↔ ¬Starved P s d := by
  refine iff_of_true (read_of_filled hs ?_) ?_
  · rw [htaken.queue s henabled]
    exact acceptEach_ne_nil _ hsome _
  · rintro ⟨-, -, front, hfront, hown, hfull⟩
    obtain ⟨hsub, hne⟩ := proper_prefix hfront ⟨_, htaken.ahead.symm⟩ hown hsome
    apply not_noneFullAfter_iff.mpr hfull
    cases hstop with
    | eof he ha hs' => exact hs' front hsub
    | full he hf => exact hf.before front hsub hne
    | enough he hs' hn => exact hs' front hsub

/-- A read of an enabled audio or video stream returns null before the end exactly when the stream
is starved. -/
theorem nullAtEnd_iff (hs : s < P.streamCount) {d : DemuxerQueue π} (h : d.Regular P)
    (henabled : (d.queues s).enabled = true) (hmust : (d.queues s).canBeEmpty = false) :
    NullAtEnd P s d ↔ ¬Starved P s d := by
  by_cases hq : (d.queues s).list = []
  · have hsize : (d.queues s).size = 0 := by
      unfold PacketQueue.size
      rw [hq]
      rfl
    rcases heof : d.eofIsReached with _ | _
    · by_cases hnone : NoneFullAfter P d []
      · obtain ⟨taken, htaken, hstop⟩ :=
          filledForRead_stop hs h henabled hsize heof (h.noneFull hnone)
        by_cases hnil : ofStream s taken = []
        · exact nullAtEnd_iff_of_none hs henabled hmust hq heof htaken hstop hnil
        · exact nullAtEnd_iff_of_some hs henabled htaken hstop hnil
      · -- a queue is full from the start
        have hfull : anyFull P d = true := by
          rw [← Bool.not_eq_false, anyFull_eq_false_iff]
          intro hall
          exact hnone hall.after_nil
        have hfill : filledForRead P s d = d := by
          unfold filledForRead fillQueue
          simp [hsize, heof, hfull]
        refine iff_of_false (fun hnull => ?_) ?_
        · have hend := hnull _ (read_of_empty hs (by rw [hfill]; exact hq))
          rw [hfill, heof] at hend
          cases hend.1
        · rw [Classical.not_not]
          exact ⟨hq, heof, [], List.nil_prefix, rfl, not_noneFullAfter_iff.mp hnone⟩
    · -- the end was reported before
      have hfill : filledForRead P s d = d := by
        unfold filledForRead fillQueue
        simp [hsize, heof]
      refine iff_of_true (fun d' hread => ?_) fun hstarved => ?_
      · rw [read_of_empty hs (by rw [hfill]; exact hq), hfill] at hread
        cases hread
        refine ⟨heof, hq, ?_⟩
        rw [h.eof heof]
        rfl
      · have hnot := hstarved.2.1
        rw [heof] at hnot
        cases hnot
  · -- something is queued
    have hsize : ¬(d.queues s).size = 0 := by
      unfold PacketQueue.size
      rw [List.length_eq_zero_iff]
      exact hq
    refine iff_of_true (read_of_filled hs ?_) fun hstarved => hq hstarved.1
    unfold filledForRead
    rw [if_neg hsize]
    exact hq

end DemuxerQueue

namespace DemuxerPeriod

variable {π : Type} {P : ParserOps π}

/-- After a repositioning the queues are regular. -/
theorem Begins.regular {d : DemuxerQueue π} (h : Begins P d) (hown : DemuxerQueue.OwnPackets P d) :
    d.Regular P := by
  cases h with
  | constructed ahead internal enabled =>
    refine ⟨fun i hi => ?_, fun i => ?_, nofun, hown⟩
    · dsimp only at hi ⊢
      rcases henabled : enabled i with _ | _
      · exact ⟨rfl, rfl⟩
      · rw [henabled] at hi
        cases hi
    · dsimp only
      unfold PacketQueue.setEnabled
      split <;> rfl
  | repositioned d index time hflags => exact ⟨fun i _ => ⟨rfl, rfl⟩, hflags, nofun, hown⟩

/-- Every call keeps the queues regular. -/
theorem regular_step {w w' : DemuxerPeriod π} {l : DemuxerCall} (h : w.demuxer.Regular P)
    (hstep : step P w l = some w') : w'.demuxer.Regular P := by
  cases l with
  | fillQueue km =>
    obtain ⟨taken, htaken⟩ := DemuxerQueue.parses_fillQueue (P := P) km w.demuxer
    cases hstep
    exact h.parses htaken
  | read s =>
    unfold DemuxerPeriod.step at hstep
    dsimp only at hstep
    by_cases hs : s < P.streamCount
    · obtain ⟨taken, htaken⟩ := DemuxerQueue.parses_filledForRead (P := P) s w.demuxer
      have hfilled := h.parses htaken
      rcases hq : ((DemuxerQueue.filledForRead P s w.demuxer).queues s).list with _ | ⟨p, rest⟩
      · rw [DemuxerQueue.read_of_empty hs hq] at hstep
        cases hstep
        exact hfilled
      · rw [DemuxerQueue.read_of_cons hs hq] at hstep
        cases hstep
        exact hfilled.pop hq _
    · unfold DemuxerQueue.read at hstep
      rw [if_pos (Nat.not_lt.mp hs)] at hstep
      cases hstep
      exact h

/-- In every state of a period, a read of an enabled audio or video stream returns null before its
end exactly when other streams starve it. -/
theorem null_at_end_iff {d : DemuxerQueue π} (hd : Begins P d)
    (hown : DemuxerQueue.OwnPackets P d) {w : DemuxerPeriod π} (h : (machine P d).Reachable w)
    {s : StreamId} (hs : s < P.streamCount) (henabled : (d.queues s).enabled = true)
    (htype : P.streamType s = .audio ∨ P.streamType s = .video) :
    DemuxerQueue.NullAtEnd P s w.demuxer ↔ ¬DemuxerQueue.Starved P s w.demuxer := by
  have hregular : w.demuxer.Regular P := h.invariant (I := fun w => w.demuxer.Regular P)
    (hd.regular hown) fun w l w' hw hstep => regular_step hw hstep
  obtain ⟨parsed, hsince⟩ := exists_since hd h
  apply DemuxerQueue.nullAtEnd_iff hs hregular ((hsince.enabled s).trans henabled)
  rw [hregular.canBeEmpty]
  rcases htype with htype | htype
  · simp [PacketQueue.create, htype]
  · simp [PacketQueue.create, htype]

/-- Two large packets of a video stream in front of the first packet of an audio stream. -/
def crowdedFile : List DataPacket :=
  [⟨1, 0, 0, 40, true, 30000000⟩, ⟨1, 40, 40, 40, true, 30000000⟩, ⟨0, 0, 0, 40, true, 100⟩]

def crowdedParser : ParserOps Unit where
  streamCount := 2
  streamType := fun i => if i = 0 then .audio else .video
  streamDuration := fun _ => 80
  seekStream := 1
  seek := fun _ _ _ _ => (true, crowdedFile, ())

def crowdedDemuxer : DemuxerQueue Unit :=
  { DemuxerQueue.create crowdedParser crowdedFile () with
    queues := fun i => (PacketQueue.create (crowdedParser.streamType i)).setEnabled true }

/-- Once the video packets are read, the audio stream is read to its end. -/
theorem null_at_end_iff_crowded :
    ∃ w, (machine crowdedParser crowdedDemuxer).Reachable w ∧ w.returned 1 = crowdedFile.take 2 ∧
      (DemuxerQueue.NullAtEnd crowdedParser 0 w.demuxer ↔
        ¬DemuxerQueue.Starved crowdedParser 0 w.demuxer) := by
  obtain ⟨w, -, hrun, hw⟩ := Machine.exists_run_of_exec (machine crowdedParser crowdedDemuxer)
    [.read 1, .read 1] (fun w => w.returned 1 = crowdedFile.take 2) (by decide +kernel)
  have hbegins : Begins crowdedParser crowdedDemuxer := .constructed crowdedFile () fun _ => true
  have hown : ∀ p ∈ crowdedFile, p.streamIndex < 2 := by decide
  exact ⟨w, ⟨_, hrun⟩, of_decide_eq_true hw,
    null_at_end_iff hbegins hown ⟨_, hrun⟩ (by decide) rfl (.inl rfl)⟩

/-- The first read of the audio stream returns null while its packet is still ahead. -/
theorem null_before_end :
    ¬∀ w, (machine crowdedParser crowdedDemuxer).Reachable w →
      DemuxerQueue.NullAtEnd crowdedParser 0 w.demuxer := by
  intro hall
  have hnull := hall _ ⟨[], .init⟩ (DemuxerQueue.read crowdedParser 0 crowdedDemuxer).2
    (Prod.ext (by decide +kernel) rfl)
  exact absurd hnull.1 (by decide +kernel)

end DemuxerPeriod

end Seekira.Model
