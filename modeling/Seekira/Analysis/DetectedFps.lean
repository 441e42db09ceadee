import Seekira.Analysis.RememberedStreams
import Seekira.Model.DetectFps

/-!
# What the measured frame rate is measured over

The count of a stream's packets starts with its first packet whose timestamp is known, and the
elapsed time is taken from that packet.  A rate that comes out too low empties the count and leaves
the reference where it is, so from then on the two cover different packets.
-/

set_option autoImplicit false

namespace Seekira.Model.DetectFps

open Library OpenParser

/-! ## The packets of a stream -/

/-- The timestamps of the packets read of a stream. -/
def ownTimes (streams : Int → AVStream) (idx : Int) (read : List AVPacket) : List TimestampFF :=
  (read.filter fun p => p.streamIndex = idx).map fun p =>
    streamToGlobal p.pts (streams idx).timeBase

/-- The timestamps from the reference packet on, the first whose timestamp is known. -/
def fromReference (ts : List TimestampFF) : List TimestampFF :=
  ts.dropWhile fun t => t = avNoPtsValue

/-- The number of packets from the reference packet to the current one. -/
def packetCount (ts : List TimestampFF) : Int := (fromReference ts).length

/-- The time between the reference packet and the current one. -/
def elapsed (ts : List TimestampFF) : TimeFF :=
  ts.getLastD avNoPtsValue - (fromReference ts).headD avNoPtsValue

/-- The number of packets less one by the elapsed time in seconds, rounded. -/
def trueFps (ts : List TimestampFF) : Int := avRescale (packetCount ts - 1) avSecond (elapsed ts)

/-- At the current packet, the tenth from the reference packet or a later one, the rate is below
25; it is so too when the packet is displayed before the reference packet. -/
structure LowRate (ts : List TimestampFF) : Prop where
  known : ts.getLastD avNoPtsValue ≠ avNoPtsValue
  moved : elapsed ts ≠ 0
  ten : 10 ≤ packetCount ts
  low : trueFps ts < 25

/-- The rate was never low. -/
def Steady (ts : List TimestampFF) : Prop := ∀ front, front <+: ts → ¬LowRate front

variable {ts : List TimestampFF} {t : TimestampFF}

/-- The times are steady when those before are and the last one shows no low rate. -/
theorem steady_concat_iff : Steady (ts ++ [t]) ↔ Steady ts ∧ ¬LowRate (ts ++ [t]) := by
  constructor
  · intro h
    exact ⟨fun front hfront => h front (hfront.trans (List.prefix_append ts [t])),
      h _ (List.prefix_refl _)⟩
  · rintro ⟨hbefore, hlast⟩ front hfront
    rcases List.prefix_concat_iff.mp hfront with rfl | hfront
    · exact hlast
    · exact hbefore front hfront

/-- A further time is counted from the first one known on. -/
theorem fromReference_concat (ts : List TimestampFF) (t : TimestampFF) :
    fromReference (ts ++ [t]) =
      if fromReference ts = [] then (if t = avNoPtsValue then [] else [t])
      else fromReference ts ++ [t] := by
  unfold fromReference
  rw [List.dropWhile_append]
  by_cases hnil : List.dropWhile (fun t => decide (t = avNoPtsValue)) ts = []
  · rw [if_pos (List.isEmpty_iff.mpr hnil), if_pos hnil]
    by_cases ht : t = avNoPtsValue <;> simp [List.dropWhile, ht]
  · rw [if_neg (by simpa using hnil), if_neg hnil]

theorem getLastD_concat : (ts ++ [t]).getLastD avNoPtsValue = t := by
  simp [List.getLastD_eq_getLast?]

/-- Without a reference packet the rate was not low. -/
theorem steady_of_unknown (h : fromReference ts = []) : Steady ts := by
  intro front hfront hlow
  have hten := hlow.ten
  have hnil : fromReference front = [] := by
    obtain ⟨rest, rfl⟩ := hfront
    unfold fromReference at h ⊢
    rw [List.dropWhile_append] at h
    split at h
    · rename_i hempty
      exact List.isEmpty_iff.mp hempty
    · exact (List.append_eq_nil_iff.mp h).1
  unfold packetCount at hten
  rw [hnil] at hten
  exact absurd hten (by decide)

/-! ## The count of a stream -/

/-- The entry of a stream whose packets had the timestamps `ts`: the reference is right, and the
count covers the packets from the reference on unless the rate was low; then it misses ten of them
or more. -/
structure Follows (info : CountAndPosition) (ts : List TimestampFF) : Prop where
  unknown : fromReference ts = [] → info.startPts = avNoPtsValue
  reference : fromReference ts ≠ [] → info.startPts = (fromReference ts).headD avNoPtsValue
  known : fromReference ts ≠ [] → info.startPts ≠ avNoPtsValue
  nonneg : fromReference ts ≠ [] → 0 ≤ info.count
  steady : fromReference ts ≠ [] → Steady ts → info.count = packetCount ts
  unsteady : ¬Steady ts → info.count + 10 ≤ packetCount ts

/-- With a reference packet, the count is what matters. -/
theorem follows_of_known {info : CountAndPosition}
    (hreference : info.startPts = (fromReference ts).headD avNoPtsValue)
    (hknown : info.startPts ≠ avNoPtsValue) (hnonneg : 0 ≤ info.count)
    (hsteady : Steady ts → info.count = packetCount ts)
    (hunsteady : ¬Steady ts → info.count + 10 ≤ packetCount ts) : Follows info ts := by
  refine ⟨fun hnil => ?_, fun _ => hreference, fun _ => hknown, fun _ => hnonneg,
    fun _ => hsteady, hunsteady⟩
  rw [hnil] at hreference
  exact hreference

theorem follows_nil : Follows { startPts := avNoPtsValue, count := 0 } [] :=
  ⟨fun _ => rfl, fun h => absurd rfl h, fun h => absurd rfl h, fun h => absurd rfl h,
    fun h => absurd rfl h, fun h => absurd (steady_of_unknown rfl) h⟩

/-- What is known of an entry once a packet with a known timestamp is counted. -/
structure Counts (info : CountAndPosition) (ts : List TimestampFF) (t : TimestampFF) : Prop where
  reference : info.startPts = (fromReference (ts ++ [t])).headD avNoPtsValue
  known : info.startPts ≠ avNoPtsValue
  nonneg : 0 ≤ info.count
  steady : Steady ts → info.count = packetCount (ts ++ [t])
  unsteady : ¬Steady ts → info.count + 10 ≤ packetCount (ts ++ [t])

/-- A further time is counted. -/
theorem Follows.counts {info : CountAndPosition} (h : Follows info ts) (ht : t ≠ avNoPtsValue) :
    Counts (counted t info) ts t := by
  unfold counted
  by_cases hnil : fromReference ts = []
  · have hsteady := steady_of_unknown hnil
    rw [if_pos (h.unknown hnil)]
    constructor
    all_goals simp [fromReference_concat, hnil, ht, hsteady, packetCount]
  · have hconcat : fromReference (ts ++ [t]) = fromReference ts ++ [t] := by
      rw [fromReference_concat, if_neg hnil]
    have hlength : packetCount (ts ++ [t]) = packetCount ts + 1 := by
      simp [packetCount, hconcat]
    have hnonneg := h.nonneg hnil
    rw [if_neg (h.known hnil)]
    refine ⟨?_, h.known hnil, ?_, fun hsteady => ?_, fun hsteady => ?_⟩
    · rw [hconcat]
      dsimp only
      rw [h.reference hnil]
      rcases hcons : fromReference ts with _ | ⟨r, rest⟩
      · exact absurd hcons hnil
      · rfl
    · dsimp only
      omega
    · have hcount := h.steady hnil hsteady
      dsimp only
      omega
    · have hcount := h.unsteady hsteady
      dsimp only
      omega

theorem elapsed_concat {info : CountAndPosition} (h : Counts info ts t) :
    elapsed (ts ++ [t]) = t - info.startPts := by
  unfold elapsed
  rw [getLastD_concat, h.reference]

/-- A low rate, while it was never low before. -/
theorem Counts.lowRate_iff {info : CountAndPosition} (h : Counts info ts t) (hsteady : Steady ts)
    (ht : t ≠ avNoPtsValue) : LowRate (ts ++ [t]) ↔
      t - info.startPts ≠ 0 ∧ 10 ≤ info.count ∧ measuredFps info (t - info.startPts) < 25 := by
  have hcount := h.steady hsteady
  have helapsed := elapsed_concat h
  constructor
  · rintro ⟨-, hmoved, hten, hlow⟩
    unfold trueFps at hlow
    rw [helapsed, ← hcount] at hlow
    rw [helapsed] at hmoved
    rw [← hcount] at hten
    exact ⟨hmoved, hten, hlow⟩
  · rintro ⟨hmoved, hten, hlow⟩
    refine ⟨by rw [getLastD_concat]; exact ht, by rw [helapsed]; exact hmoved,
      by rw [← hcount]; exact hten, ?_⟩
    unfold trueFps
    rw [helapsed, ← hcount]
    exact hlow

/-- A packet without a timestamp is counted. -/
theorem Follows.unknown_counted {info : CountAndPosition} (h : Follows info ts) :
    Follows { info with count := info.count + 1 } (ts ++ [avNoPtsValue]) := by
  have hlast : ¬LowRate (ts ++ [avNoPtsValue]) := fun hlow => hlow.known getLastD_concat
  by_cases hnil : fromReference ts = []
  · have hconcat : fromReference (ts ++ [avNoPtsValue]) = [] := by
      rw [fromReference_concat, if_pos hnil, if_pos rfl]
    exact ⟨fun _ => h.unknown hnil, fun hne => absurd hconcat hne, fun hne => absurd hconcat hne,
      fun hne => absurd hconcat hne, fun hne => absurd hconcat hne,
      fun hunsteady => absurd (steady_of_unknown hconcat) hunsteady⟩
  · have hconcat : fromReference (ts ++ [avNoPtsValue]) = fromReference ts ++ [avNoPtsValue] := by
      rw [fromReference_concat, if_neg hnil]
    have hlength : packetCount (ts ++ [avNoPtsValue]) = packetCount ts + 1 := by
      simp [packetCount, hconcat]
    have hnonneg := h.nonneg hnil
    have hhead : (fromReference (ts ++ [avNoPtsValue])).headD avNoPtsValue =
        (fromReference ts).headD avNoPtsValue := by
      rw [hconcat]
      rcases hcons : fromReference ts with _ | ⟨r, rest⟩
      · exact absurd hcons hnil
      · rfl
    refine follows_of_known ((h.reference hnil).trans hhead.symm) (h.known hnil) ?_
      (fun hsteady => ?_) fun hunsteady => ?_
    · dsimp only
      omega
    · have hcount := h.steady hnil (steady_concat_iff.mp hsteady).1
      dsimp only
      omega
    · have hcount := h.unsteady fun hsteady =>
        hunsteady (steady_concat_iff.mpr ⟨hsteady, hlast⟩)
      dsimp only
      omega

/-- After a packet with a known timestamp the count goes on, or is emptied by a low rate. -/
theorem Counts.follows {info info' : CountAndPosition} (h : Counts info ts t)
    (ht : t ≠ avNoPtsValue)
    (hnext : info' = if t - info.startPts ≠ 0 ∧ 10 ≤ info.count ∧
        measuredFps info (t - info.startPts) < 25 then { info with count := 0 } else info) :
    Follows info' (ts ++ [t]) := by
  have hnonneg := h.nonneg
  by_cases hsteady : Steady ts
  · have hcount := h.steady hsteady
    by_cases hlow : LowRate (ts ++ [t])
    · rw [if_pos ((h.lowRate_iff hsteady ht).mp hlow)] at hnext
      subst hnext
      have hten := hlow.ten
      refine follows_of_known h.reference h.known (Int.le_refl 0) (fun hlater => ?_) fun _ => ?_
      · exact absurd hlow (steady_concat_iff.mp hlater).2
      · dsimp only
        omega
    · rw [if_neg fun hmeasured => hlow ((h.lowRate_iff hsteady ht).mpr hmeasured)] at hnext
      subst hnext
      refine follows_of_known h.reference h.known hnonneg (fun _ => hcount) fun hunsteady => ?_
      exact absurd (steady_concat_iff.mpr ⟨hsteady, hlow⟩) hunsteady
  · have hcount := h.unsteady hsteady
    have hstays : ¬Steady (ts ++ [t]) := fun hlater => hsteady (steady_concat_iff.mp hlater).1
    split at hnext
    · subst hnext
      refine follows_of_known h.reference h.known (Int.le_refl 0) (fun hlater => ?_) fun _ => ?_
      · exact absurd hlater hstays
      · dsimp only
        omega
    · subst hnext
      exact follows_of_known h.reference h.known hnonneg (fun hlater => absurd hlater hstays)
        fun _ => hcount

/-! ## One packet -/

variable {F : FFmpegInput} {streams : Int → AVStream} {stream : AVStream} {packet : AVPacket}
  {probe : FpsProbe}

/-- The entry of a stream is replaced. -/
def putInfo (idx : Int) (info : CountAndPosition) (probe : FpsProbe) : FpsProbe :=
  { probe with packets := Function.update probe.packets idx info }

/-- The round of a packet with a known timestamp from the count on. -/
def afterCount (F : FFmpegInput) (stream : AVStream) (idx : Int) (info : CountAndPosition)
    (diff : TimeFF) (probe : FpsProbe) : Bool × FpsProbe :=
  if diff = 0 then (false, putInfo idx info probe)
  else if diff > 5 * avSecond then (true, putInfo idx info probe)
  else if stream.codecType ≠ .video then (false, putInfo idx info probe)
  else if info.count < 10 then (false, putInfo idx info probe)
  else
    let currentFps := measuredFps info diff
    let probe :=
      { probe with
        prevFpsCount := if currentFps = probe.prevFps then probe.prevFpsCount + 1 else 0
        prevFps := currentFps }
    if currentFps < 25 then (false, putInfo idx { info with count := 0 } probe)
    else if diff > avSecond / 2 then
      if confirmsContainer F idx currentFps then (true, putInfo idx info probe)
      else (decide (diff > 3 * avSecond ∨ probe.prevFpsCount > 5), putInfo idx info probe)
    else (false, putInfo idx info probe)

/-- A packet without a time is counted only. -/
theorem fpsStep_unknown (hpts : streamToGlobal packet.pts stream.timeBase = avNoPtsValue) :
    fpsStep F stream packet probe = (false, putInfo packet.streamIndex
      { probe.packets packet.streamIndex with
        count := (probe.packets packet.streamIndex).count + 1 } probe) := by
  unfold fpsStep
  rw [if_pos hpts]
  rfl

/-- A packet with a time is counted, and the rate is looked at. -/
theorem fpsStep_known {t : TimestampFF} (hpts : streamToGlobal packet.pts stream.timeBase = t)
    (ht : t ≠ avNoPtsValue) {info : CountAndPosition}
    (hinfo : info = counted t (probe.packets packet.streamIndex)) :
    fpsStep F stream packet probe =
      afterCount F stream packet.streamIndex info (t - info.startPts) probe := by
  subst hinfo
  unfold fpsStep afterCount counted confirmsContainer measuredFps
  by_cases hstart : (probe.packets packet.streamIndex).startPts = avNoPtsValue
  · simp only [hpts, ht, hstart, if_true, if_false, decide_eq_true_eq]
    rfl
  · simp only [hpts, ht, hstart, if_false, decide_eq_true_eq]
    rfl

@[simp] theorem packets_putInfo_self {idx : Int} {info : CountAndPosition} :
    (putInfo idx info probe).packets idx = info := Function.update_self ..

theorem packets_putInfo_of_ne {idx j : Int} {info : CountAndPosition} (hj : j ≠ idx) :
    (putInfo idx info probe).packets j = probe.packets j := Function.update_of_ne hj ..

/-- The look at the rate of one stream keeps the entries of the others. -/
theorem afterCount_other {idx j : Int} {info : CountAndPosition} {diff : TimeFF} (hj : j ≠ idx) :
    (afterCount F stream idx info diff probe).2.packets j = probe.packets j := by
  unfold afterCount
  dsimp only
  repeat' split
  all_goals exact packets_putInfo_of_ne hj

/-- The entry of the packet's stream while the loop goes on. -/
theorem afterCount_self {idx : Int} {info : CountAndPosition} {diff : TimeFF}
    (hvideo : stream.codecType = .video)
    (hgoes : (afterCount F stream idx info diff probe).1 = false) :
    (afterCount F stream idx info diff probe).2.packets idx =
      if diff ≠ 0 ∧ 10 ≤ info.count ∧ measuredFps info diff < 25 then { info with count := 0 }
      else info := by
  unfold afterCount at hgoes ⊢
  dsimp only at hgoes ⊢
  by_cases hmoved : diff = 0
  · rw [if_pos hmoved, if_neg fun h => h.1 hmoved]
    exact packets_putInfo_self
  rw [if_neg hmoved] at hgoes ⊢
  by_cases hlate : diff > 5 * avSecond
  · rw [if_pos hlate] at hgoes
    cases hgoes
  rw [if_neg hlate, if_neg fun h => h hvideo] at hgoes ⊢
  by_cases hfew : info.count < 10
  · rw [if_pos hfew, if_neg fun h => Int.not_lt.mpr h.2.1 hfew]
    exact packets_putInfo_self
  rw [if_neg hfew] at hgoes ⊢
  by_cases hlow : measuredFps info diff < 25
  · have hmeasured : diff ≠ 0 ∧ 10 ≤ info.count ∧ measuredFps info diff < 25 :=
      ⟨hmoved, Int.not_lt.mp hfew, hlow⟩
    rw [if_pos hlow, if_pos hmeasured]
    exact packets_putInfo_self
  · have hmeasured : ¬(diff ≠ 0 ∧ 10 ≤ info.count ∧ measuredFps info diff < 25) :=
      fun h => hlow h.2.2
    rw [if_neg hlow, if_neg hmeasured]
    by_cases hhalf : diff > avSecond / 2
    · rw [if_pos hhalf]
      split <;> exact packets_putInfo_self
    · rw [if_neg hhalf]
      exact packets_putInfo_self

/-! ## The reading -/

/-- A packet of another stream adds no time. -/
theorem ownTimes_concat_other {idx : Int} (hidx : packet.streamIndex ≠ idx)
    (read : List AVPacket) :
    ownTimes streams idx (read ++ [packet]) = ownTimes streams idx read := by
  unfold ownTimes
  rw [List.filter_append, List.filter_singleton]
  simp [hidx]

theorem ownTimes_concat_self (read : List AVPacket) :
    ownTimes streams packet.streamIndex (read ++ [packet]) =
      ownTimes streams packet.streamIndex read ++
        [streamToGlobal packet.pts (streams packet.streamIndex).timeBase] := by
  unfold ownTimes
  rw [List.filter_append, List.map_append]
  simp

/-- While the loop goes on, the entries of the video streams follow their packets. -/
def FollowsAll (streams : Int → AVStream) (w : DetectFps) : Prop :=
  w.finished = false → ∀ idx, (streams idx).codecType = .video →
    Follows (w.probe.packets idx) (ownTimes streams idx w.read)

/-- Every packet is counted for its stream. -/
theorem followsAll_step {w w' : DetectFps} (h : FollowsAll streams w)
    (hstep : step F streams w packet = some w') : FollowsAll streams w' := by
  unfold step at hstep
  split at hstep
  · cases hstep
  rename_i hreading
  cases hstep
  intro hgoes idx hvideo
  dsimp only at hgoes ⊢
  have hbefore := h (by simpa using hreading) idx hvideo
  by_cases hpts : streamToGlobal packet.pts (streams packet.streamIndex).timeBase = avNoPtsValue
  · -- a packet without a timestamp
    rw [fpsStep_unknown hpts]
    by_cases hidx : packet.streamIndex = idx
    · subst hidx
      rw [packets_putInfo_self, ownTimes_concat_self, hpts]
      exact hbefore.unknown_counted
    · rw [packets_putInfo_of_ne fun h => hidx h.symm, ownTimes_concat_other hidx]
      exact hbefore
  · rw [fpsStep_known rfl hpts rfl] at hgoes ⊢
    by_cases hidx : packet.streamIndex = idx
    · subst hidx
      rw [ownTimes_concat_self]
      exact (hbefore.counts hpts).follows hpts (afterCount_self hvideo hgoes)
    · rw [afterCount_other fun h => hidx h.symm, ownTimes_concat_other hidx]
      exact hbefore

/-! ## The written rate -/

/-- The rate `n` is written at the current packet: it was measured with a count that follows the
packets of the stream. -/
def Measured (ts : List TimestampFF) (n : Int) : Prop :=
  ∃ count : Int, (Steady ts → count = packetCount ts) ∧
    (¬Steady ts → count + 10 ≤ packetCount ts) ∧ 10 ≤ count ∧
    0 < elapsed ts ∧ elapsed ts ≤ 5 * avSecond ∧ 25 ≤ avRescale (count - 1) avSecond (elapsed ts) ∧
    n = (avRescale (count - 1) avSecond (elapsed ts)).bmod (2 ^ 32)

/-- The rate that is written is the one measured. -/
theorem measured_step {w w' : DetectFps} (h : FollowsAll streams w)
    (hstep : step F streams w packet = some w') {idx n : Int}
    (hwritten : w'.written = some (idx, n)) : Measured (ownTimes streams idx w'.read) n := by
  unfold step at hstep
  split at hstep
  · cases hstep
  rename_i hreading
  cases hstep
  obtain ⟨n', hn, hpair⟩ := Option.map_eq_some_iff.mp hwritten
  cases hpair
  unfold fpsWritten at hn
  obtain ⟨⟨hpts, hlow, hhigh, hvideo, hten, hrate, -, -⟩, hvalue⟩ :=
    Option.ite_none_right_eq_some.mp hn
  have hcounts := (h (by simpa using hreading) packet.streamIndex hvideo).counts hpts
  have helapsed := elapsed_concat hcounts
  dsimp only
  rw [ownTimes_concat_self]
  refine ⟨_, fun hsteady => hcounts.steady (steady_concat_iff.mp hsteady).1, fun hunsteady => ?_,
    hten, ?_, ?_, ?_, ?_⟩
  · -- the rate is not low at the packet itself
    apply hcounts.unsteady
    intro hsteady
    apply hunsteady
    refine steady_concat_iff.mpr ⟨hsteady, fun hlast => ?_⟩
    exact Int.not_lt.mpr hrate ((hcounts.lowRate_iff hsteady hpts).mp hlast).2.2
  · rw [helapsed]
    exact Int.lt_trans (by decide) hlow
  · rw [helapsed]
    exact hhigh
  · rw [helapsed]
    exact hrate
  · rw [helapsed]
    exact (Option.some.inj hvalue).symm

/-- Rescaling to seconds rounds to the nearest. -/
theorem avRescale_of_pos {a c : Int} (ha : 0 ≤ a) (hc : 0 < c) :
    avRescale a avSecond c = (a * avSecond + c / 2) / c := by
  unfold avRescale
  rw [if_neg, if_neg (Int.not_lt.mpr ha)]
  rintro (hle | hneg)
  · exact Int.not_lt.mpr hle hc
  · exact absurd hneg (by decide)

/-- Ten packets more within five seconds are two frames per second more. -/
theorem rate_gap {count total diff : Int} (hcount : 1 ≤ count) (htotal : count + 10 ≤ total)
    (hpos : 0 < diff) (hdiff : diff ≤ 5 * avSecond) :
    avRescale (count - 1) avSecond diff + 2 ≤ avRescale (total - 1) avSecond diff := by
  rw [avRescale_of_pos (by omega) hpos, avRescale_of_pos (by omega) hpos]
  have hmul := Int.ediv_mul_le ((count - 1) * avSecond + diff / 2) (Int.ne_of_gt hpos)
  apply (Int.le_ediv_iff_mul_le hpos).mpr
  rw [Int.add_mul]
  unfold avSecond at *
  omega

theorem bmod_le {x : Int} (h : 0 ≤ x) : x.bmod (2 ^ 32) ≤ x ∧ x.bmod (2 ^ 32) ≤ 2147483647 := by
  unfold Int.bmod
  simp only [Nat.reducePow]
  split <;> omega

theorem bmod_of_le {x : Int} (h : 0 ≤ x) (hle : x ≤ 2147483647) : x.bmod (2 ^ 32) = x := by
  unfold Int.bmod
  simp only [Nat.reducePow]
  split <;> omega

/-- The rate that `detect_fps` writes is the number of packets from the reference packet on, less
one, by the elapsed time exactly when no rate measured before was low and the quotient fits. -/
theorem written_eq_trueFps_iff {tr : List (DetectFps × AVPacket)} {w : DetectFps}
    (h : (machine F streams).Run tr w) {idx n : Int} (hwritten : w.written = some (idx, n)) :
    n = trueFps (ownTimes streams idx w.read) ↔
      Steady (ownTimes streams idx w.read) ∧
        trueFps (ownTimes streams idx w.read) ≤ 2147483647 := by
  have hmeasured : Measured (ownTimes streams idx w.read) n := by
    cases h with
    | init => cases hwritten
    | step hrun hstep =>
      refine measured_step (hrun.invariant (I := FollowsAll streams) ?_ ?_) hstep hwritten
      · exact fun _ _ _ => follows_nil
      · exact fun _ _ _ hw hstep => followsAll_step hw hstep
  obtain ⟨count, hsteady, hunsteady, hten, hpos, hdiff, hrate, hn⟩ := hmeasured
  have hbounds := bmod_le (Int.le_trans (by decide) hrate)
  rw [← hn] at hbounds
  constructor
  · intro heq
    by_cases hs : Steady (ownTimes streams idx w.read)
    · exact ⟨hs, heq ▸ hbounds.2⟩
    · have hgap := rate_gap (by omega) (hunsteady hs) hpos hdiff
      unfold trueFps at heq
      omega
  · rintro ⟨hs, hfits⟩
    unfold trueFps at hfits ⊢
    rw [hn, hsteady hs]
    rw [hsteady hs] at hrate
    exact bmod_of_le (by omega) hfits

/-- A stream of microseconds. -/
def videoStream : AVStream :=
  { codecType := .video, isApng := false, startTime := 0, duration := 0, timeBase := (1, 1000000) }

def videoPacket (pts : TimestampFF) : AVPacket := ⟨0, pts, pts, 0, 0, 0⟩

/-- Sixteen packets at 25 frames per second. -/
theorem written_eq_trueFps_iff_steady :
    ∃ tr w, (machine (ParserSession.audioInput 1) fun _ => videoStream).Run tr w ∧
      w.written = some (0, 25) ∧
      (25 = trueFps (ownTimes (fun _ => videoStream) 0 w.read) ↔
        Steady (ownTimes (fun _ => videoStream) 0 w.read) ∧
          trueFps (ownTimes (fun _ => videoStream) 0 w.read) ≤ 2147483647) := by
  obtain ⟨w, -, hrun, hw⟩ := Machine.exists_run_of_exec
    (machine (ParserSession.audioInput 1) fun _ => videoStream)
    ((List.range 16).map fun k : Nat => videoPacket (40000 * k))
    (fun w => w.written = some (0, 25)) (by decide +kernel)
  have hwritten := of_decide_eq_true hw
  exact ⟨_, w, hrun, hwritten, written_eq_trueFps_iff hrun hwritten⟩

/-- The tenth packet is displayed before the first one, and the packets after it come at 40 frames
per second. -/
def reorderedPackets : List AVPacket :=
  List.replicate 9 (videoPacket 0) ++ [videoPacket (-40000)] ++
    (List.range 22).map fun k : Nat => videoPacket (25000 * (k + 1))

/-- 38 is written, where 31 frames in 550 milliseconds are 56 in a second. -/
theorem emptied_count_written :
    ¬∀ tr w, (machine (ParserSession.audioInput 1) fun _ => videoStream).Run tr w → ∀ idx n,
      w.written = some (idx, n) → n = trueFps (ownTimes (fun _ => videoStream) idx w.read) := by
  intro h
  obtain ⟨w, -, hrun, hw⟩ := Machine.exists_run_of_exec
    (machine (ParserSession.audioInput 1) fun _ => videoStream) reorderedPackets
    (fun w => w.written = some (0, 38) ∧
      trueFps (ownTimes (fun _ => videoStream) 0 w.read) = 56) (by decide +kernel)
  obtain ⟨hwritten, htrue⟩ := of_decide_eq_true hw
  have heq := h _ w hrun 0 38 hwritten
  rw [htrue] at heq
  cases heq

end Seekira.Model.DetectFps
