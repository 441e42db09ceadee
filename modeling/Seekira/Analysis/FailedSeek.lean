import Seekira.Analysis.JointSeek

/-!
# What a failed seek leaves behind

The requests of the streams are cleared where `seek` returns, and every way in which
it throws comes before.  So a failed seek leaves all requests in the table, and the
times among them count in the next seek as well.
-/

set_option autoImplicit false

namespace Seekira.Model.StreamReader

open Library SeekEvent

variable {δ κ : Type} {D : IDemuxer δ} {C : CodecOps κ}

/-! ## The requests after a failure -/

/-- A seek of the demuxer that throws leaves the requests. -/
theorem sameRequests_of_seek_error {s : StreamId} {r r' : StreamReader δ κ} {e : Fault}
    (h : seek D s r = (.error e, r')) : SameRequests r r' := by
  unfold seek at h
  rw [Proc.get_bind_apply] at h
  split at h
  · cases h
    exact .refl r
  · split at h
    · cases h
    · split at h
      · cases h
        exact .refl r
      · rename_i start _
        dsimp only at h
        rcases hloop : seekLoop D start 16 start 0 r with ⟨e' | ⟨⟩, r₁⟩
        · rw [Proc.bind_error hloop] at h
          cases h
          have hkeep := (sameRequests_invariant D r).seekLoop start 16 start 0 r (.refl r)
          rw [hloop] at hkeep
          exact hkeep
        · rw [Proc.bind_ok hloop] at h
          cases h

/-- A seek that throws leaves every request where it was. -/
theorem sameRequests_of_error {s : StreamId} {r r' : StreamReader δ κ} {e : Fault}
    (h : doSeek D s r = (.error e, r')) : SameRequests r r' := by
  unfold doSeek at h
  rw [Proc.get_bind_apply] at h
  split at h
  · cases h
    exact .refl r
  · dsimp only at h
    rcases hseek : seek D s r with ⟨e' | ⟨⟩, r₁⟩
    · rw [Proc.bind_error hseek] at h
      cases h
      exact sameRequests_of_seek_error hseek
    · rw [Proc.bind_ok hseek] at h
      cases h

/-! ## The start of a search -/

/-- The first event of a seek that searches from `m`. -/
theorem head_recordedDoSeek {s : StreamId} {r : StreamReader δ κ} {m : TimestampFF}
    (hreader : (r.streams s).hasReader = true) (hs : s < r.streamCount)
    (henabled : (r.infos s).isStreamEnabled = true) (hdone : (r.infos s).seekAlreadyDone = false)
    (hmin : minSeekPosition r.infos (List.range r.streamCount) avNoPtsValue = .ok m) :
    (recordedDoSeek D s r).2.head? = if 0 ≤ m then some (.search m) else none := by
  by_cases hm : 0 ≤ m
  · rw [if_pos hm]
    have hindex : (decide (s ≥ r.streamCount) || !(r.infos s).isStreamEnabled) = false := by
      simp [hs, henabled]
    have hloop : ∃ rest, (recordedSeekLoop D m 16 m 0 r).2 = .search m :: rest := by
      rw [recordedSeekLoop_eq, if_neg (Int.not_lt.mpr hm), Recorded.note_bind_apply,
        passed_start hm]
      exact ⟨_, rfl⟩
    have hseek : (recordedSeekLoop D m 16 m 0 r).2 <+: (recordedSeek D s r).2 := by
      unfold recordedSeek
      rw [Recorded.lift_get_bind_apply, if_neg (by rw [hindex]; exact Bool.false_ne_true), hdone,
        if_neg Bool.false_ne_true, hmin]
      exact Recorded.prefix_bind _ _ r
    have hdoSeek : (recordedSeek D s r).2 <+: (recordedDoSeek D s r).2 := by
      unfold recordedDoSeek
      rw [Recorded.lift_get_bind_apply, if_neg (by simp [hreader])]
      exact Recorded.prefix_bind _ _ r
    obtain ⟨rest, hrest⟩ := hloop
    obtain ⟨later, hlater⟩ := hseek.trans hdoSeek
    rw [← hlater, hrest]
    rfl
  · rw [if_neg hm]
    have hneg : recordedSeekLoop D m 16 m 0 r = ((.ok (), r), []) :=
      recordedSeekLoop_neg 0 (by decide) (Int.not_le.mp hm) r
    rw [recordedDoSeek_of_search hreader hs henabled hdone hmin hneg]
    rfl

/-! ## The next round -/

/-- Where the requests `qs` return, the seek of `first` that follows searches from `m`. -/
def StartsAt (D : IDemuxer δ) (C : CodecOps κ) (r : StreamReader δ κ) (qs : List SeekRequest)
    (first : StreamId) (m : TimestampFF) : Prop :=
  ∀ w, requestSeeks D C qs r = (.ok (), w) → (recordedDoSeek D first w).2.head? = some (.search m)

/-- The enabled streams have neither a time nor a checker pending. -/
def NoResidue (r : StreamReader δ κ) (order : List StreamId) : Prop :=
  ∀ s ∈ order, (r.infos s).seekTime = avNoPtsValue ∧ (r.infos s).seekResultCheckers = []

section NextRound

variable {r : StreamReader δ κ} {order : List StreamId} {qs : List SeekRequest}
  {first : StreamId} {m : TimestampFF}

/-- The search of a complete round starts from the least time requested exactly when no enabled
stream has an earlier time pending. -/
theorem startsAt_iff (hjoins : Joins r order) (hqs : Complete r order qs) (hfirst : first ∈ order)
    (hleast : IsLeast {t | ∃ q ∈ qs, q.time = t} m)
    (hvideo : ∀ s ∈ order, D.streamType s = .video) :
    StartsAt D C r qs first m ↔
      ∀ s ∈ order, (r.infos s).seekTime = avNoPtsValue ∨ m ≤ (r.infos s).seekTime := by
  obtain ⟨w, hw, hreq⟩ := requestSeeks_returns (D := D) (C := C) qs
    (fun q hq => hjoins.hasReader _ (hqs.stream q hq)) fun q hq => hvideo _ (hqs.stream q hq)
  have hjoins' := hreq.joins hjoins
  obtain ⟨m', hmin, hleast'⟩ := hreq.minSeekPosition hjoins hqs (List.ne_nil_of_mem hfirst)
  obtain ⟨hlt, henabled⟩ := (hjoins'.mem_iff first).mp hfirst
  have hdone : (w.infos first).seekAlreadyDone = false := by
    rw [hreq.infos first]
    have henabled' := hreq.enabled first ▸ henabled
    exact (StreamInfo.requestedAll_enabled henabled' _).2.2.1 (hqs.requestsOf_ne_nil hfirst)
  have hhead := head_recordedDoSeek (D := D) (hjoins'.hasReader first hfirst) hlt henabled hdone
    hmin
  have hm : 0 ≤ m := by
    obtain ⟨q, hq, rfl⟩ := hleast.1
    exact hqs.time q hq
  have hle : m' ≤ m := hleast'.2 (.inr hleast.1)
  have hstarts : StartsAt D C r qs first m ↔ m' = m := by
    constructor
    · intro h
      have hsearch := h w hw
      rw [hhead] at hsearch
      split at hsearch
      · cases hsearch
        rfl
      · cases hsearch
    · rintro rfl w' hw'
      rw [hw] at hw'
      cases hw'
      rw [hhead, if_pos hm]
  rw [hstarts]
  constructor
  · rintro rfl s hs
    by_cases hknown : (r.infos s).seekTime = avNoPtsValue
    · exact .inl hknown
    · exact .inr (hleast'.2 (.inl ⟨s, hs, rfl, hknown⟩))
  · intro hpending
    apply Int.le_antisymm hle
    rcases hleast'.1 with ⟨s, hs, rfl, hknown⟩ | hq
    · exact (hpending s hs).resolve_left hknown
    · exact hleast.2 hq

/-- Where no time is pending, all complete rounds start from the least of their own times. -/
theorem starts_own (hjoins : Joins r order)
    (hnone : ∀ s ∈ order, (r.infos s).seekTime = avNoPtsValue) :
    ∀ qs first m, Complete r order qs → first ∈ order → IsLeast {t | ∃ q ∈ qs, q.time = t} m →
      StartsAt D C r qs first m := by
  intro qs first m hqs hfirst hleast w hw
  have hvideo : ∀ s ∈ order, D.streamType s = .video := by
    intro s hs
    obtain ⟨q, hq, rfl⟩ := hqs.covers s hs
    exact video_of_requestSeeks hw q hq
  exact (startsAt_iff hjoins hqs hfirst hleast hvideo).mpr (fun i hi => .inl (hnone i hi)) w hw

end NextRound

/-- The same streams take part. -/
theorem SameRequests.joins {r r' : StreamReader δ κ} (h : SameRequests r r')
    {order : List StreamId} (hjoins : Joins r order) : Joins r' order where
  nodup := hjoins.nodup
  mem_iff i := by
    rw [h.count, h.enabled]
    exact hjoins.mem_iff i
  hasReader i hi := by
    rw [h.hasReader]
    exact hjoins.hasReader i hi

/-- After every seek that throws, nothing of it remains and every complete round starts its search
from the least of its own times, exactly when nothing was pending before. -/
theorem no_residue_iff {s : StreamId} {r r' : StreamReader δ κ} {e : Fault}
    (h : doSeek D s r = (.error e, r')) {order : List StreamId} (hjoins : Joins r order) :
    (NoResidue r' order ∧ ∀ qs first m, Complete r' order qs → first ∈ order →
      IsLeast {t | ∃ q ∈ qs, q.time = t} m → StartsAt D C r' qs first m) ↔
      NoResidue r order := by
  have hsame := sameRequests_of_error h
  have hresidue : NoResidue r' order ↔ NoResidue r order := by
    unfold NoResidue
    simp only [hsame.seekTime, hsame.checkers]
  rw [hresidue]
  refine ⟨And.left, fun hnone => ⟨hnone, ?_⟩⟩
  apply starts_own (hsame.joins hjoins)
  intro i hi
  rw [hsame.seekTime]
  exact (hnone i hi).1

/-! ### A request that is missing -/

/-- The demuxer of a file with two video streams. -/
def twinQueue : IDemuxer (DemuxerQueue Unit) :=
  DemuxerQueue.toIDemuxer (twinParser fun _ => .video)

/-- Only the first of the two requested a time, five seconds. -/
def halfRequested : StreamReader (DemuxerQueue Unit) (List DataPacket) :=
  (requestSeek twinQueue (fifoCodec 0 (25, 1)) 0 (5 * avSecond) none
    (twinStreams fun _ => .video)).2

theorem halfRequested_throws :
    ∃ r', doSeek twinQueue 0 halfRequested = (.error (.thrown "Unexpected seek"), r') :=
  ⟨_, Prod.ext (by decide +kernel) rfl⟩

/-- Both video streams take part. -/
theorem halfRequested_joins : Joins halfRequested [1, 0] := by
  obtain ⟨w, hw, hreq⟩ := requestSeek_returns (D := twinQueue) (C := fifoCodec 0 (25, 1))
    (q := ⟨0, 5 * avSecond, none⟩) (r := twinStreams fun _ => .video) rfl rfl
  have heq : halfRequested = w := congrArg Prod.snd hw
  rw [heq]
  exact hreq.joins (twinStreams_joins _)

/-- Two video streams, of which one requested a seek. -/
theorem no_residue_iff_half :
    ∃ r', doSeek twinQueue 0 halfRequested = (.error (.thrown "Unexpected seek"), r') ∧
      ((NoResidue r' [1, 0] ∧ ∀ qs first m, Complete r' [1, 0] qs → first ∈ [1, 0] →
        IsLeast {t | ∃ q ∈ qs, q.time = t} m →
        StartsAt twinQueue (fifoCodec 0 (25, 1)) r' qs first m) ↔
        NoResidue halfRequested [1, 0]) := by
  obtain ⟨r', h⟩ := halfRequested_throws
  exact ⟨r', h, no_residue_iff h halfRequested_joins⟩

/-- Both streams then request twenty seconds, and the search starts from the five seconds of the
seek that failed. -/
theorem residue_starts_next_search :
    ¬∀ r', doSeek twinQueue 0 halfRequested = (.error (.thrown "Unexpected seek"), r') →
      NoResidue r' [1, 0] ∧ ∀ qs first m, Complete r' [1, 0] qs → first ∈ [1, 0] →
        IsLeast {t | ∃ q ∈ qs, q.time = t} m →
        StartsAt twinQueue (fifoCodec 0 (25, 1)) r' qs first m := by
  intro hall
  obtain ⟨r', h⟩ := halfRequested_throws
  obtain ⟨-, hstarts⟩ := hall r' h
  have hsame := sameRequests_of_error h
  have hcomplete : Complete r' [1, 0]
      [⟨0, 20 * avSecond, none⟩, ⟨1, 20 * avSecond, none⟩] :=
    { stream := by decide
      covers := by decide
      time := by decide
      checker := by
        intro q hq c hc
        simp only [List.mem_cons, List.not_mem_nil, or_false] at hq
        rcases hq with rfl | rfl <;> cases hc }
  have hleast : IsLeast {t | ∃ q ∈ ([⟨0, 20 * avSecond, none⟩, ⟨1, 20 * avSecond, none⟩] :
      List SeekRequest), q.time = t} (20 * avSecond) := by
    constructor
    · exact ⟨_, List.mem_cons_self, rfl⟩
    · rintro t ⟨q, hq, rfl⟩
      simp only [List.mem_cons, List.not_mem_nil, or_false] at hq
      rcases hq with rfl | rfl <;> exact Int.le_refl _
  have hlate := hstarts _ 1 _ hcomplete (by decide) hleast
  rw [startsAt_iff (hsame.joins halfRequested_joins) hcomplete (by decide) hleast
    fun _ _ => rfl] at hlate
  have hpending : (r'.infos 0).seekTime = 5 * avSecond := (hsame.seekTime 0).trans (by decide)
  have hfive := hlate 0 (by decide)
  rw [hpending] at hfive
  revert hfive
  decide

end Seekira.Model.StreamReader
