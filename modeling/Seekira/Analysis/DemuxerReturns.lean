import Mathlib.Algebra.BigOperators.Group.Finset.Piecewise
import Mathlib.Algebra.Order.BigOperators.Group.Finset
import Seekira.Analysis.DemuxerSeekResult
import Seekira.Model.MediaFile

/-!
# Demuxers whose calls return

A client that searches the demuxer relies on calls that return: a read that finds a
packet leaves fewer of them, and a seek answers.  The queueing demuxer is of this
kind over every file of audio and video streams whose parser can go back to zero.
-/

set_option autoImplicit false

namespace Seekira.Model

open Library

/-- Reads of the first `n` streams return, with a packet only while some remain, and seeks return
too. -/
structure IDemuxer.Returns {δ : Type} (D : IDemuxer δ) (n : Nat) : Prop where
  read : ∀ s < n, ∀ d, ∃ packet d', D.read s d = (.ok packet, d') ∧
    (packet.isSome = true → D.remaining d' < D.remaining d)
  seek : ∀ x, 0 ≤ x → ∀ d, ∃ answer d', D.seek x d = (.ok answer, d')

namespace DemuxerQueue

variable {π : Type} {P : ParserOps π}

/-! ## Reads -/

/-- Streams that differ take different packets of a list. -/
theorem sum_ofStream_le (n : Nat) (ps : List DataPacket) :
    ∑ i ∈ Finset.range n, (ofStream i ps).length ≤ ps.length := by
  induction ps with
  | nil => simp [ofStream]
  | cons p ps ih =>
    have hcons : ∀ i, (ofStream i (p :: ps)).length =
        (ofStream i ps).length + if p.streamIndex = i then 1 else 0 := by
      intro i
      unfold ofStream
      by_cases hi : p.streamIndex = i <;> simp [hi]
    have hone : (∑ i ∈ Finset.range n, if p.streamIndex = i then 1 else 0) ≤ 1 := by
      rw [Finset.sum_ite_eq]
      split <;> omega
    simp only [hcons]
    rw [Finset.sum_add_distrib, List.length_cons]
    exact Nat.add_le_add ih hone

/-- A queue gets no longer than by the packets that came. -/
theorem length_acceptEach_le (time : TimestampFF) (ps : List DataPacket) (q : PacketQueue) :
    (acceptEach time ps q).list.length ≤ q.list.length + ps.length := by
  induction ps generalizing q with
  | nil => exact Nat.le_refl _
  | cons p ps ih =>
    have haccept : (accept time p q).list.length ≤ q.list.length + 1 := by
      rw [list_accept]
      split <;> simp
    calc (acceptEach time ps (accept time p q)).list.length
        ≤ (accept time p q).list.length + ps.length := ih _
      _ ≤ q.list.length + (p :: ps).length := by
        rw [List.length_cons]
        omega

theorem remaining_eq (d : DemuxerQueue π) :
    remaining P d = d.ahead.length + ∑ i ∈ Finset.range P.streamCount, (d.queues i).size := rfl

/-- Sorting packets into the queues makes no new ones. -/
theorem Parses.remaining_le {d d' : DemuxerQueue π} {taken : List DataPacket}
    (h : Parses d taken d') : remaining P d' ≤ remaining P d := by
  have hqueue : ∀ i, (d'.queues i).size ≤ (d.queues i).size + (ofStream i taken).length := by
    intro i
    unfold PacketQueue.size
    cases henabled : (d.queues i).enabled with
    | true =>
      rw [h.queue i henabled]
      exact length_acceptEach_le _ _ _
    | false =>
      rcases h.disabled i henabled with heq | heq
      · rw [heq]
        exact Nat.le_add_right _ _
      · rw [heq]
        exact Nat.zero_le _
  have hsum : ∑ i ∈ Finset.range P.streamCount, (d'.queues i).size ≤
      ∑ i ∈ Finset.range P.streamCount, (d.queues i).size + taken.length := by
    calc ∑ i ∈ Finset.range P.streamCount, (d'.queues i).size
        ≤ ∑ i ∈ Finset.range P.streamCount, ((d.queues i).size + (ofStream i taken).length) :=
          Finset.sum_le_sum fun i _ => hqueue i
      _ ≤ _ := by
        rw [Finset.sum_add_distrib]
        exact Nat.add_le_add_left (sum_ofStream_le _ _) _
  rw [remaining_eq, remaining_eq, h.ahead, List.length_append]
  omega

/-- A packet that is returned remains no longer. -/
theorem remaining_pop {d : DemuxerQueue π} {s : StreamId} (hs : s < P.streamCount) {p : DataPacket}
    {rest : List DataPacket} (hq : (d.queues s).list = p :: rest) (count : Nat) :
    remaining P { d.setQueue s (d.queues s).pop.2 with processedCount := count } <
      remaining P d := by
  have hpop : (d.queues s).pop.2.size < (d.queues s).size := by
    unfold PacketQueue.pop PacketQueue.size
    rw [hq]
    exact Nat.lt_succ_self _
  rw [remaining_eq, remaining_eq]
  apply Nat.add_lt_add_left
  apply Finset.sum_lt_sum
  · intro i _
    by_cases hi : i = s
    · subst hi
      simpa using Nat.le_of_lt hpop
    · simp [hi]
  · exact ⟨s, Finset.mem_range.mpr hs, by simpa using hpop⟩

/-- A read returns, and one that returns a packet leaves less. -/
theorem read_returns {s : StreamId} (hs : s < P.streamCount) (d : DemuxerQueue π) :
    ∃ packet d', read P s d = (.ok packet, d') ∧
      (packet.isSome = true → remaining P d' < remaining P d) := by
  obtain ⟨taken, htaken⟩ := parses_filledForRead (P := P) s d
  rcases hq : ((filledForRead P s d).queues s).list with _ | ⟨p, rest⟩
  · exact ⟨none, _, read_of_empty hs hq, nofun⟩
  · refine ⟨some p, _, read_of_cons hs hq, fun _ => ?_⟩
    exact Nat.lt_of_lt_of_le (remaining_pop hs hq _) htaken.remaining_le

/-! ## Seeks -/

/-- All streams are audio or video, and the parser can always go back to zero. -/
structure Rewinds (P : ParserOps π) : Prop where
  count : P.seekStream < P.streamCount
  type : ∀ i < P.streamCount, P.streamType i = .audio ∨ P.streamType i = .video
  zero : ∀ i ahead internal, (P.seek i 0 ahead internal).1 = true

/-- Once an audio or video stream was tried, some stream is the best one. -/
theorem bestIndex_of_seekStep (time : TimestampFF) {idx : StreamId}
    (htype : P.streamType idx = .audio ∨ P.streamType idx = .video) (g : SeekProgress)
    (d : DemuxerQueue π) : (seekStep P time idx g d).2.1.bestIndex ≠ none := by
  unfold seekStep
  rw [if_neg (by rcases htype with h | h <;> simp [h])]
  dsimp only
  split
  · simp
  · split
    all_goals split <;> simp

/-- A search over audio and video streams tries one of them at least. -/
theorem bestIndex_of_seekStreams {time : TimestampFF} {indices : List StreamId}
    (hne : indices ≠ [])
    (htype : ∀ i ∈ indices, P.streamType i = .audio ∨ P.streamType i = .video)
    (g : SeekProgress) (d : DemuxerQueue π) :
    (seekStreams P time indices g d).2.1.bestIndex ≠ none := by
  induction indices generalizing g d with
  | nil => exact absurd rfl hne
  | cons idx rest ih =>
    have hbest := bestIndex_of_seekStep time (htype idx (by simp)) g d
    unfold seekStreams
    rcases hstep : seekStep P time idx g d with ⟨_ | _, g₁, d₁⟩
    · rcases List.eq_nil_or_concat rest with hrest | hrest
      · rw [hstep] at hbest
        rw [hrest]
        exact hbest
      · apply ih
        · obtain ⟨init, a, rfl⟩ := hrest
          simp
        · intro i hi
          exact htype i (by simp [hi])
    · rw [hstep] at hbest
      exact hbest

/-- `seek_internal` returns when the file can be rewound. -/
theorem seekInternal_returns (hP : Rewinds P) (time : TimestampFF) (d : DemuxerQueue π) :
    ∃ res d', seekInternal P time d = (.ok res, d') := by
  have hbest : (seekStreams P time (if time > 0 then [P.seekStream] else streams P)
      ⟨fun _ => avNoPtsValue, none, 0⟩ d).2.1.bestIndex ≠ none := by
    apply bestIndex_of_seekStreams
    · split
      · simp
      · unfold streams
        rw [Ne, List.range_eq_nil]
        exact Nat.ne_zero_of_lt hP.count
    · intro i hi
      apply hP.type
      split at hi
      · rw [List.mem_singleton.mp hi]
        exact hP.count
      · exact List.mem_range.mp hi
  unfold seekInternal
  dsimp only
  generalize (if time > 0 then [P.seekStream] else streams P) = indices at hbest ⊢
  rcases hres : seekStreams P time indices ⟨fun _ => avNoPtsValue, none, 0⟩ d with ⟨done, g, d'⟩
  rw [hres] at hbest
  cases done with
  | true => exact ⟨true, d', rfl⟩
  | false =>
    dsimp only at hbest ⊢
    obtain ⟨best, hg⟩ := Option.ne_none_iff_exists'.mp hbest
    rw [hg]
    dsimp only
    split
    · rename_i htime
      split
      · have hzero : (d'.resetQueue.parserSeek P best time).1 = true := by
          rw [htime]
          exact hP.zero best _ _
        rw [if_pos hzero]
        exact ⟨_, _, rfl⟩
      · exact ⟨_, _, rfl⟩
    · exact ⟨_, _, rfl⟩

/-- Every seek in such a file answers with a time between zero and the one asked for. -/
theorem seek_answers (hP : Rewinds P) {time : TimestampFF} (htime : 0 ≤ time)
    (d : DemuxerQueue π) : ∃ r d', seek P time d = (.ok r, d') ∧ 0 ≤ r ∧ r ≤ time := by
  have hthrow : ∀ what fuel (time : TimestampFF) step,
      Proc.Avoids (.thrown what) (seekLoop P fuel time step) := by
    intro what fuel
    induction fuel with
    | zero => exact fun _ _ => Proc.avoids_throw (by simp)
    | succ fuel ih =>
      intro time step
      unfold seekLoop
      refine Proc.avoids_ite (fun _ => Proc.avoids_pure _) fun _ => ?_
      refine Proc.avoids_bind (fun d h => ?_) fun res => ?_
      · obtain ⟨res, d', hres⟩ := seekInternal_returns hP time d
        rw [hres] at h
        cases h
      · exact Proc.avoids_ite (fun _ => Proc.avoids_pure _) fun _ => ih _ _
  have hseek : seek P time d =
      seekLoop P (time.toNat + 1) time (avSecond * 4) { d with seekTime := max 0 time } := rfl
  rcases seekLoop_cases (P := P) htime (Nat.lt_succ_self _) (by decide : 0 < avSecond * 4)
    { d with seekTime := max 0 time } with ⟨what, d', h⟩ | ⟨r, d', h, hr₀, hrt, -⟩
  · exact absurd (congrArg Prod.fst h) (hthrow what _ _ _ _)
  · exact ⟨r, d', hseek.trans h, hr₀, hrt⟩

/-- The queueing demuxer over such a file returns from all calls. -/
theorem returns_of_rewinds (hP : Rewinds P) : (toIDemuxer P).Returns P.streamCount where
  read _ hs d := read_returns hs d
  seek x hx d := by
    obtain ⟨r, d', hseek, -, -⟩ := seek_answers hP hx d
    exact ⟨r, d', hseek⟩

end DemuxerQueue

/-- The parser of a file with one video stream goes back to zero. -/
theorem fileParser_rewinds (file : List DataPacket) (duration : TimeFF) :
    DemuxerQueue.Rewinds (fileParser file duration) where
  count := Nat.zero_lt_one
  type := fun _ _ => .inr rfl
  zero := fun _ _ _ => rfl

end Seekira.Model
