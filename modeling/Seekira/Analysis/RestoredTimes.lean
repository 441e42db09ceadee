import Mathlib.Algebra.Ring.Int.Defs
import Mathlib.Data.List.Basic
import Seekira.Analysis.PacketFrame
import Seekira.Analysis.StreamIndices
import Seekira.Library.PastTime

/-!
# Restored timestamps

DAV and some ASF files have streams without timestamps; `restore_packet_pts` counts the durations of
their packets instead.  It does so only for a stream that was not marked while the first packets were
read, so the counting is right in the runs in which opening leaves the stream unmarked and every
later seek restarts the counting exactly when it succeeds.
-/

set_option autoImplicit false

namespace Seekira.Model.OpenParser

open Library

variable {F : FFmpegInput} {i : Int}

/-! ## The sums -/

/-- The durations of the packets of a stream, added up. -/
def durationSum (i : Int) (packets : List AVPacket) : Int :=
  ((packets.filter fun packet => packet.streamIndex = i).map AVPacket.duration).sum

theorem durationSum_append (i : Int) (packets rest : List AVPacket) :
    durationSum i (packets ++ rest) = durationSum i packets + durationSum i rest := by
  simp [durationSum]

theorem durationSum_same {i : Int} {packets : List AVPacket} {packet : AVPacket}
    (h : packet.streamIndex = i) :
    durationSum i (packets ++ [packet]) = durationSum i packets + packet.duration := by
  rw [durationSum_append]
  simp [durationSum, h]

theorem durationSum_other {i : Int} {packets : List AVPacket} {packet : AVPacket}
    (h : packet.streamIndex ≠ i) :
    durationSum i (packets ++ [packet]) = durationSum i packets := by
  rw [durationSum_append]
  simp [durationSum, h]

/-- Every packet of the stream carries the durations of the packets of the stream before it. -/
def Restored (i : Int) (packets : List AVPacket) : Prop :=
  ∀ front packet back, packets = front ++ packet :: back → packet.streamIndex = i →
    packet.pts = durationSum i front ∧ packet.dts = durationSum i front

theorem restored_nil (i : Int) : Restored i [] := by
  intro front packet back h
  simp at h

/-- A further packet of the stream has the sum of the durations before as its times. -/
theorem restored_concat {i : Int} {packets : List AVPacket} {packet : AVPacket} :
    Restored i (packets ++ [packet]) ↔ Restored i packets ∧
      (packet.streamIndex = i →
        packet.pts = durationSum i packets ∧ packet.dts = durationSum i packets) := by
  simp only [Restored, concat_eq_append_cons]
  constructor
  · intro h
    refine ⟨fun front p back hp => h front p (back ++ [packet]) (.inr ⟨back, rfl, hp⟩), ?_⟩
    exact h packets packet [] (.inl ⟨rfl, rfl, rfl⟩)
  · rintro ⟨hbefore, hlast⟩ front p back (⟨rfl, rfl, rfl⟩ | ⟨rest, rfl, hp⟩)
    · exact hlast
    · exact hbefore front p rest hp

/-! ## Reading -/

/-- A packet of the stream has no timestamp, and FFmpeg gives no negative duration. -/
def Timeless (i : Int) (packet : AVPacket) : Prop :=
  packet.streamIndex = i → packet.pts = avNoPtsValue ∧ 0 ≤ packet.duration

/-- Nothing is corrected after the restoration. -/
structure Plain (i : Int) (m : ParserFF) : Prop where
  restores : (m.formatDAV || m.formatASF) = true
  dtsShifts : m.dtsShifts = none
  chapters : ((m.formatVRO || m.formatVOB) && (m.streams 0).codecType ≠ .data) = false
  mpegTs : m.formatMpegTs = false
  shift : (m.streams 0).startTime = avNoPtsValue ∨
    (m.timeShift 0 = 0 ∧ (m.streams 0).isApng = false)
  notApng : (m.streams i).isApng = false

/-- Neither the packets ahead nor what is remembered of those read matters. -/
theorem Plain.anyTimes {m : ParserFF} (h : Plain i m) {ahead : List AVPacket}
    {genPts : Int → TimestampFF} {pos : Int} {received : Int → Bool} {chapter : Int → Option Int}
    {prev : Int → Option (TimestampFF × TimeFF)} :
    Plain i { m with
      ahead := ahead, genPts := genPts, firstPktPos := pos, firstStreamPktReceived := received,
      currentChapter := chapter, prevPktTimes := prev } :=
  ⟨h.restores, h.dtsShifts, h.chapters, h.mpegTs, h.shift, h.notApng⟩

/-- What the restoration of a stream works with. -/
structure Counting (i : Int) (since : List AVPacket) (m : ParserFF) : Prop where
  plain : Plain i m
  received : m.firstStreamPktReceived i = false
  prev : (m.prevPktTimes i = none ∧ ∀ packet ∈ since, packet.streamIndex ≠ i) ∨
    ∃ pts duration, m.prevPktTimes i = some (pts, duration) ∧
      pts + duration = durationSum i since ∧ ∃ packet ∈ since, packet.streamIndex = i
  ahead : ∀ packet ∈ m.ahead, Timeless i packet
  nonneg : 0 ≤ durationSum i since

/-- Packets of other streams add nothing. -/
theorem durationSum_of_forall_ne {i : Int} {packets : List AVPacket}
    (h : ∀ packet ∈ packets, packet.streamIndex ≠ i) : durationSum i packets = 0 := by
  have hnone : packets.filter (fun packet => packet.streamIndex = i) = [] := by
    rw [List.filter_eq_nil_iff]
    exact fun packet hp => by simpa using h packet hp
  simp [durationSum, hnone]

/-- A packet of the stream is given the sum, and is what the next one counts from. -/
theorem restorePacketPts_of_counting {since : List AVPacket} {m : ParserFF} {packet : AVPacket}
    (hstream : packet.streamIndex = i) (hpts : packet.pts = avNoPtsValue)
    (hreceived : m.firstStreamPktReceived i = false)
    (hprev : (m.prevPktTimes i = none ∧ ∀ packet ∈ since, packet.streamIndex ≠ i) ∨
      ∃ pts duration, m.prevPktTimes i = some (pts, duration) ∧
        pts + duration = durationSum i since ∧ ∃ packet ∈ since, packet.streamIndex = i) :
    m.restorePacketPts packet =
      ({ packet with pts := durationSum i since, dts := durationSum i since },
        { m with
          prevPktTimes :=
            Function.update m.prevPktTimes i (some (durationSum i since, packet.duration)) }) := by
  unfold ParserFF.restorePacketPts
  rw [if_neg (not_not_intro hpts), hstream]
  obtain ⟨hnone, hother⟩ | ⟨pts, duration, hsome, hsum, -⟩ := hprev
  · rw [hnone, durationSum_of_forall_ne hother]
    simp [hreceived]
  · rw [hsome, ← hsum]

/-- A packet of another stream leaves what the stream counts from alone. -/
theorem restorePacketPts_other {m : ParserFF} {packet : AVPacket}
    (hstream : packet.streamIndex ≠ i) :
    ∃ prev, (m.restorePacketPts packet).2 = { m with prevPktTimes := prev } ∧
      prev i = m.prevPktTimes i ∧ (m.restorePacketPts packet).1.streamIndex = packet.streamIndex := by
  unfold ParserFF.restorePacketPts
  split
  · exact ⟨_, rfl, Function.update_of_ne (Ne.symm hstream) _ _, rfl⟩
  · split
    · split
      · exact ⟨_, rfl, Function.update_of_ne (Ne.symm hstream) _ _, rfl⟩
      · exact ⟨_, rfl, rfl, rfl⟩
    · exact ⟨_, rfl, Function.update_of_ne (Ne.symm hstream) _ _, rfl⟩

theorem detectRuntimeTimeshift_same {m : ParserFF} {packet : AVPacket}
    (hapng : (m.streams packet.streamIndex).isApng = false) :
    m.detectRuntimeTimeshift packet = m := by
  unfold ParserFF.detectRuntimeTimeshift
  simp [hapng]

/-- A shift detected at runtime is one of another stream, and not of the stream that all packets
are corrected by. -/
theorem detectRuntimeTimeshift_other {m : ParserFF} {packet : AVPacket} (hm : Plain i m)
    (hstream : packet.streamIndex ≠ i) :
    ∃ shifts received, m.detectRuntimeTimeshift packet =
        { m with timeShift := shifts, firstStreamPktReceived := received } ∧
      received i = m.firstStreamPktReceived i ∧
      ((m.streams 0).startTime = avNoPtsValue ∨
        (shifts 0 = 0 ∧ (m.streams 0).isApng = false)) := by
  unfold ParserFF.detectRuntimeTimeshift
  dsimp only
  split
  · exact ⟨_, _, rfl, rfl, hm.shift⟩
  · split
    · exact ⟨_, _, rfl, rfl, hm.shift⟩
    · rename_i hapng
      split
      · refine ⟨_, _, rfl, Function.update_of_ne (Ne.symm hstream) _ _, ?_⟩
        rcases hm.shift with hstart | ⟨hshift, hzero⟩
        · exact .inl hstart
        · have hne : (0 : Int) ≠ packet.streamIndex := by
            intro h
            rw [← h, hzero] at hapng
            exact hapng rfl
          exact .inr ⟨by rw [Function.update_of_ne hne, hshift], hzero⟩
      · exact ⟨_, _, rfl, rfl, hm.shift⟩

/-- Without corrections a packet keeps its stream, and its timestamps when it has some. -/
theorem correct_plain {m : ParserFF} (hm : Plain i m) (packet : AVPacket) :
    (∃ genPts, (m.correct 0 packet).2 = { m with genPts := genPts }) ∧
      (m.correct 0 packet).1.streamIndex = packet.streamIndex ∧
      (packet.pts ≠ avNoPtsValue → packet.dts ≠ avNoPtsValue →
        (m.correct 0 packet).1 = packet) := by
  unfold ParserFF.correct ParserFF.correctByShift
  rw [if_neg (by rw [hm.chapters]; decide)]
  extract_lets wrapped
  have hwrapped : wrapped = packet := if_neg (by rw [hm.mpegTs]; decide)
  rw [hwrapped]
  rcases hm.shift with hstart | ⟨hshift, -⟩
  · rw [if_neg (not_not_intro hstart)]
    split
    · rename_i hunknown
      exact ⟨⟨_, rfl⟩, rfl, fun hpts _ => absurd hunknown.1 hpts⟩
    · exact ⟨⟨_, rfl⟩, rfl, fun _ _ => rfl⟩
  · split
    · refine ⟨⟨_, rfl⟩, rfl, fun hpts hdts => ?_⟩
      rw [if_pos hpts, if_pos hdts, hshift, Int.sub_zero, Int.sub_zero]
    · split
      · rename_i hunknown
        exact ⟨⟨_, rfl⟩, rfl, fun hpts _ => absurd hunknown.1 hpts⟩
      · exact ⟨⟨_, rfl⟩, rfl, fun _ _ => rfl⟩

/-- A plain packet is restored, and its shift is looked at. -/
theorem prepare_plain {m : ParserFF} {packet : AVPacket} (hm : Plain i m) :
    m.prepare packet = ((m.restorePacketPts packet).1,
      (m.restorePacketPts packet).2.detectRuntimeTimeshift (m.restorePacketPts packet).1) := by
  have hrestore := m.sameStreams_restorePacketPts packet
  have hdetect := (m.restorePacketPts packet).2.sameStreams_detectRuntimeTimeshift
    (m.restorePacketPts packet).1
  unfold ParserFF.prepare
  dsimp only
  rw [if_pos hm.restores, hdetect.dtsShifts, hrestore.dtsShifts, hm.dtsShifts]

theorem ne_avNoPtsValue {t : Int} (h : 0 ≤ t) : t ≠ avNoPtsValue := by
  rintro rfl
  exact absurd h (by decide)

/-- A packet of the stream is returned with the sum, and counted. -/
theorem counting_same {since : List AVPacket} {m : ParserFF} {packet : AVPacket}
    (hm : Counting i since m) (hstream : packet.streamIndex = i)
    (htimeless : packet.pts = avNoPtsValue ∧ 0 ≤ packet.duration) :
    ((m.prepare packet).2.correct 0 (m.prepare packet).1).1 =
        { packet with pts := durationSum i since, dts := durationSum i since } ∧
      Counting i (since ++ [{ packet with pts := durationSum i since, dts := durationSum i since }])
        ((m.prepare packet).2.correct 0 (m.prepare packet).1).2 := by
  have hrestore := restorePacketPts_of_counting hstream htimeless.1 hm.received hm.prev
  have hplain : Plain i { m with
      prevPktTimes :=
        Function.update m.prevPktTimes i (some (durationSum i since, packet.duration)) } :=
    hm.plain.anyTimes
  have hdetect : ParserFF.detectRuntimeTimeshift
      { packet with pts := durationSum i since, dts := durationSum i since } { m with
        prevPktTimes :=
          Function.update m.prevPktTimes i (some (durationSum i since, packet.duration)) } = _ :=
    detectRuntimeTimeshift_same (by
      change (m.streams packet.streamIndex).isApng = false
      rw [hstream]
      exact hm.plain.notApng)
  rw [prepare_plain hm.plain, hrestore, hdetect]
  obtain ⟨⟨genPts, hstate⟩, -, hpacket⟩ := correct_plain hplain
    { packet with pts := durationSum i since, dts := durationSum i since }
  rw [hstate, hpacket (ne_avNoPtsValue hm.nonneg) (ne_avNoPtsValue hm.nonneg)]
  refine ⟨rfl, hplain.anyTimes, hm.received, .inr ?_, hm.ahead, ?_⟩
  · refine ⟨durationSum i since, packet.duration, ?_, ?_, ?_⟩
    · exact Function.update_self i _ _
    · rw [durationSum_same (by exact hstream)]
    · exact ⟨_, List.mem_append_right _ (List.mem_singleton_self _), hstream⟩
  · rw [durationSum_same (by exact hstream)]
    exact Int.add_nonneg hm.nonneg htimeless.2

/-- A packet of another stream does not disturb the counting. -/
theorem counting_other {since : List AVPacket} {m : ParserFF} {packet : AVPacket}
    (hm : Counting i since m) (hstream : packet.streamIndex ≠ i) :
    ((m.prepare packet).2.correct 0 (m.prepare packet).1).1.streamIndex ≠ i ∧
      Counting i (since ++ [((m.prepare packet).2.correct 0 (m.prepare packet).1).1])
        ((m.prepare packet).2.correct 0 (m.prepare packet).1).2 := by
  obtain ⟨prev, hrestore, hprev, hindex⟩ := restorePacketPts_other (m := m) hstream
  rw [prepare_plain hm.plain, hrestore]
  generalize (m.restorePacketPts packet).1 = restored at hindex
  have hplain : Plain i { m with prevPktTimes := prev } :=
    hm.plain.anyTimes
  obtain ⟨shifts, received, hdetect, hreceived, hshift⟩ :=
    detectRuntimeTimeshift_other hplain (hindex ▸ hstream : restored.streamIndex ≠ i)
  rw [hdetect]
  have hplain : Plain i { m with
      prevPktTimes := prev, timeShift := shifts, firstStreamPktReceived := received } :=
    ⟨hm.plain.restores, hm.plain.dtsShifts, hm.plain.chapters, hm.plain.mpegTs, hshift,
      hm.plain.notApng⟩
  obtain ⟨⟨genPts, hstate⟩, hcorrected, -⟩ := correct_plain hplain restored
  have hother : (ParserFF.correct 0 restored { m with
      prevPktTimes := prev, timeShift := shifts,
      firstStreamPktReceived := received }).1.streamIndex ≠ i := by
    rw [hcorrected, hindex]
    exact hstream
  refine ⟨hother, ?_⟩
  rw [hstate]
  refine ⟨hplain.anyTimes, hreceived.trans hm.received, ?_, hm.ahead, ?_⟩
  · rw [durationSum_other hother]
    rcases hm.prev with ⟨hnone, hsince⟩ | ⟨pts, duration, hsome, hsum, packet', hmem, hpacket'⟩
    · refine .inl ⟨hprev.trans hnone, fun packet' h => ?_⟩
      rcases List.mem_append.mp h with h | h
      · exact hsince packet' h
      · rw [List.mem_singleton.mp h]
        exact hother
    · exact .inr ⟨pts, duration, hprev.trans hsome, hsum, packet',
        List.mem_append_left _ hmem, hpacket'⟩
  · rw [durationSum_other hother]
    exact hm.nonneg

/-- The key flag set at the end concerns no timestamp. -/
theorem markKey_frame (m : ParserFF) (packet : AVPacket) :
    ∃ flags, m.markKey packet = { packet with flags := flags } := by
  unfold ParserFF.markKey
  split
  · exact ⟨_, rfl⟩
  · exact ⟨packet.flags, rfl⟩

/-- Counting looks at no flags. -/
theorem Counting.congr_flags {since : List AVPacket} {packet : AVPacket} {m : ParserFF}
    (h : Counting i (since ++ [packet]) m) (flags : Nat) :
    Counting i (since ++ [{ packet with flags := flags }]) m := by
  have hsum : durationSum i (since ++ [{ packet with flags := flags }]) =
      durationSum i (since ++ [packet]) := by
    rw [durationSum_append, durationSum_append]
    by_cases hstream : packet.streamIndex = i
    · simp [durationSum, hstream]
    · simp [durationSum, hstream]
  refine ⟨h.plain, h.received, ?_, h.ahead, ?_⟩
  · rw [hsum]
    have hindex : (since ++ [{ packet with flags := flags }]).map AVPacket.streamIndex =
        (since ++ [packet]).map AVPacket.streamIndex := by simp
    rcases h.prev with ⟨hnone, hother⟩ | ⟨pts, duration, hsome, hsum', packet', hmem, hpacket'⟩
    · refine .inl ⟨hnone, fun packet' hmem => ?_⟩
      have hmem := hindex ▸ List.mem_map_of_mem (f := AVPacket.streamIndex) hmem
      obtain ⟨packet'', hmem'', heq⟩ := List.mem_map.mp hmem
      rw [← heq]
      exact hother packet'' hmem''
    · have hmem := hindex ▸ List.mem_map_of_mem (f := AVPacket.streamIndex) hmem
      obtain ⟨packet'', hmem'', heq⟩ := List.mem_map.mp hmem
      exact .inr ⟨pts, duration, hsome, hsum', packet'', hmem'', heq.trans hpacket'⟩
  · rw [hsum]
    exact h.nonneg

/-- One packet is read: if it is of the stream it carries the sum, and the counting goes on. -/
theorem counting_readPacket {since : List AVPacket} {m : ParserFF} (hm : Counting i since m) :
    Counting i (since ++ m.readPacket.1.toList) m.readPacket.2 ∧
      ∀ packet, m.readPacket.1 = some packet → packet.streamIndex = i →
        packet.pts = durationSum i since ∧ packet.dts = durationSum i since := by
  obtain ⟨rest, pos, hframe, hrest, hnext⟩ := m.nextPacket_frame m.ahead
  have hm₁ : Counting i since { m with ahead := rest, firstPktPos := pos } :=
    ⟨hm.plain.anyTimes, hm.received, hm.prev, fun packet h => hm.ahead packet (hrest packet h),
      hm.nonneg⟩
  unfold ParserFF.readPacket
  rcases hrun : ParserFF.nextPacket m.ahead m with ⟨pkt | pkt, m₁⟩
  · rw [hrun] at hframe
    obtain rfl : m₁ = _ := hframe
    refine ⟨?_, nofun⟩
    rw [Option.toList_none, List.append_nil]
    exact hm₁
  · rw [hrun] at hframe hnext
    obtain rfl : m₁ = _ := hframe
    have htimeless := hm.ahead pkt (hnext pkt rfl)
    dsimp only [AVPacket.unref]
    obtain ⟨flags, hkey⟩ := markKey_frame
      ((ParserFF.prepare pkt { m with ahead := rest, firstPktPos := pos }).2.correct 0
        (ParserFF.prepare pkt { m with ahead := rest, firstPktPos := pos }).1).2
      ((ParserFF.prepare pkt { m with ahead := rest, firstPktPos := pos }).2.correct 0
        (ParserFF.prepare pkt { m with ahead := rest, firstPktPos := pos }).1).1
    rw [hkey]
    by_cases hstream : pkt.streamIndex = i
    · obtain ⟨hpacket, hcount⟩ := counting_same hm₁ hstream (htimeless hstream)
      rw [hpacket]
      refine ⟨hcount.congr_flags flags, fun packet h _ => ?_⟩
      obtain rfl := Option.some.inj h
      exact ⟨rfl, rfl⟩
    · obtain ⟨hother, hcount⟩ := counting_other hm₁ hstream
      refine ⟨hcount.congr_flags flags, fun packet h hpacket => ?_⟩
      obtain rfl := Option.some.inj h
      exact absurd hpacket hother

/-! ## Seeking -/

/-- The packets of the stream have no timestamps wherever the container is read from. -/
structure Untimed (F : FFmpegInput) (i : Int) : Prop where
  request : ∀ n request, ∀ packet ∈ (F.request n request).2, Timeless i packet
  reopened : ∀ n streams ahead, F.reopened n = some (streams, ahead) →
    ∀ packet ∈ ahead, Timeless i packet

/-- What a seek leaves alone, and what the stream counts from. -/
structure Kept (i : Int) (prev : Option (TimestampFF × TimeFF)) (p : OpenParser) : Prop where
  plain : Plain i p.tables
  received : p.tables.firstStreamPktReceived i = false
  ahead : ∀ packet ∈ p.tables.ahead, Timeless i packet
  prev : p.tables.prevPktTimes i = prev

theorem update_false {received : Int → Bool} (h : received i = false) (index : Int) :
    Function.update received index false i = false := by
  by_cases hindex : i = index
  · rw [hindex, Function.update_self]
  · rw [Function.update_of_ne hindex, h]

/-- The attempts of a seek keep what is remembered of the stream. -/
theorem survivesAttempts_kept (hF : Untimed F i) (index : Int)
    (prev : Option (TimestampFF × TimeFF)) : SurvivesAttempts F index (Kept i prev) where
  fillGenPts p time h := ⟨h.plain.anyTimes, h.received, h.ahead, h.prev⟩
  forgetFirst p h _ := ⟨h.plain.anyTimes, update_false h.received index, h.ahead, h.prev⟩
  reposition p request h := ⟨h.plain.anyTimes, h.received, hF.request _ _, h.prev⟩
  reopen p streams ahead h hopened := by
    obtain ⟨⟨h₁, h₂, h₃, h₄, h₅, h₆⟩, hreceived, -, hprev⟩ := h
    exact ⟨⟨h₁, h₂, h₃, h₄, h₅, h₆⟩, hreceived, hF.reopened _ _ _ hopened, hprev⟩

/-- A stream that has not begun to count does not begin in a seek. -/
theorem survivesSeek_none (hF : Untimed F i) (index : Int) :
    SurvivesSeek F index (Kept i none) where
  toSurvivesAttempts := survivesAttempts_kept hF index none
  clearChapters p h :=
    ⟨h.plain.anyTimes, h.received, h.ahead, h.prev⟩
  restartAll p h _ :=
    ⟨h.plain.anyTimes, h.received, h.ahead, rfl⟩
  restartStream p h _ := by
    refine ⟨h.plain.anyTimes, update_false h.received index, h.ahead, ?_⟩
    change Function.update p.tables.prevPktTimes index none i = none
    by_cases hindex : i = index
    · rw [hindex, Function.update_self]
    · rw [Function.update_of_ne hindex, h.prev]

/-- The seek makes the stream count from the start again. -/
def Restarts (F : FFmpegInput) (i index : Int) (p : OpenParser) : Prop :=
  ¬IsCover F index p ∧ ((p.aviWithRepeatingPts || p.tables.formatDAV) = true ∨
    (p.tables.formatASF = true ∧ index = i))

theorem kept_seek_of_none (hF : Untimed F i) (index : Int) (time : TimestampFF) {p : OpenParser}
    (hp : Kept i none p) : Kept i none (seek F index time p).1.2 :=
  (survives_seek (survivesSeek_none hF index) time p hp).1

/-- A seek that does not restart the stream leaves what it counts from. -/
theorem kept_seek_of_not_restarts (hF : Untimed F i) {index : Int} (time : TimestampFF)
    {prev : Option (TimestampFF × TimeFF)} {p : OpenParser} (hp : Kept i prev p)
    (hrestarts : ¬Restarts F i index p) : Kept i prev (seek F index time p).1.2 := by
  by_cases hcover : IsCover F index p
  · have hreturn : isCover F index p =
        ((.ok true, p), [.access .streams index p.nbStreams]) := by
      rw [isCover_apply, hcover.2, decide_eq_true hcover.1, if_neg hcover.1]
      rfl
    unfold seek
    rw [Recorded.bind_ok hreturn]
    exact hp
  · have hkeeps : ¬(p.aviWithRepeatingPts || p.tables.formatDAV) = true ∧
        ¬(p.tables.formatASF = true ∧ index = i) := by
      rw [← not_or]
      exact fun h => hrestarts ⟨hcover, h⟩
    have hsurvives : SurvivesSeek F index fun p' => Kept i prev p' ∧
        ¬(p'.aviWithRepeatingPts || p'.tables.formatDAV) = true ∧
        ¬(p'.tables.formatASF = true ∧ index = i) :=
      { fillGenPts := fun p' t h => ⟨(survivesAttempts_kept hF index prev).fillGenPts p' t h.1, h.2⟩
        forgetFirst := fun p' h ha =>
          ⟨(survivesAttempts_kept hF index prev).forgetFirst p' h.1 ha, h.2⟩
        reposition := fun p' r h =>
          ⟨(survivesAttempts_kept hF index prev).reposition p' r h.1, h.2⟩
        reopen := fun p' n a h ho =>
          ⟨(survivesAttempts_kept hF index prev).reopen p' n a h.1 ho, h.2⟩
        clearChapters := fun p' h =>
          ⟨⟨h.1.plain.anyTimes, h.1.received, h.1.ahead, h.1.prev⟩, h.2⟩
        restartAll := fun p' h hrestart => absurd hrestart h.2.1
        restartStream := by
          rintro p' ⟨h, hrest⟩ hrestart
          have hne : i ≠ index := fun h => hrest.2 ⟨(Bool.and_eq_true _ _ ▸ hrestart).1, h.symm⟩
          refine ⟨⟨h.plain.anyTimes, update_false h.received index, h.ahead, ?_⟩, hrest⟩
          change Function.update p'.tables.prevPktTimes index none i = prev
          rw [Function.update_of_ne hne, h.prev] }
    exact (survives_seek hsurvives time p ⟨hp, hkeeps⟩).1.1

/-- The two places where a stream is restarted. -/
theorem restart_forgets (index : Int) (time : TimestampFF)
    {prev : Option (TimestampFF × TimeFF)} {p : OpenParser} (hp : Kept i prev p)
    (hrestart : (p.aviWithRepeatingPts || p.tables.formatDAV) = true ∨
      (p.tables.formatASF = true ∧ index = i)) :
    ∃ t p' events, (restartAll time >>= fun time => restartStream index time) p =
      ((.ok t, p'), events) ∧ Kept i none p' := by
  by_cases hall : (p.aviWithRepeatingPts || p.tables.formatDAV) = true
  · have hrun : restartAll time p =
        ((.ok 0, { p with tables := { p.tables with prevPktTimes := fun _ => none } }), []) := by
      unfold restartAll
      rw [Recorded.get_bind_apply, if_pos hall]
      rfl
    rw [Recorded.bind_ok hrun]
    unfold restartStream
    rw [Recorded.get_bind_apply, if_neg (by simp)]
    exact ⟨_, _, _, rfl, hp.plain.anyTimes, hp.received, hp.ahead, rfl⟩
  · have hrun : restartAll time p = ((.ok time, p), []) := by
      unfold restartAll
      rw [Recorded.get_bind_apply, if_neg hall]
      rfl
    obtain ⟨hasf, rfl⟩ := hrestart.resolve_left hall
    rw [Recorded.bind_ok hrun]
    unfold restartStream
    rw [Recorded.get_bind_apply]
    by_cases hsome : (p.tables.prevPktTimes index).isSome = true
    · rw [if_pos (by simp [hasf, hsome]), access_bind_apply, modifyTables_bind_apply]
      exact ⟨_, _, _, rfl, hp.plain.anyTimes, update_false hp.received index, hp.ahead,
        Function.update_self ..⟩
    · rw [if_neg (by simp [hsome])]
      exact ⟨_, _, _, rfl, hp.plain, hp.received, hp.ahead, by simpa using hsome⟩

/-- A seek that restarts the stream forgets what it counts from, even when it then throws. -/
theorem kept_seek_of_restarts (hF : Untimed F i) {index : Int} (time : TimestampFF)
    {prev : Option (TimestampFF × TimeFF)} {p : OpenParser} (hp : Kept i prev p)
    (hrestarts : Restarts F i index p) : Kept i none (seek F index time p).1.2 := by
  obtain ⟨hcover, hrestart⟩ := hrestarts
  have hfalse : (decide (p.nbStreams ≠ 0) && F.attachedPic index) = false := by
    unfold IsCover at hcover
    simpa using hcover
  have hreturn := isCover_apply (F := F) index p
  rw [hfalse] at hreturn
  have hcleared : Kept i prev
      { p with tables := { p.tables with currentChapter := fun _ => none } } :=
    ⟨hp.plain.anyTimes, hp.received, hp.ahead, hp.prev⟩
  obtain ⟨t, p', events, hrun, hk⟩ := restart_forgets index time hcleared hrestart
  unfold seek
  rw [Recorded.bind_ok hreturn, if_neg (by decide), modifyTables_bind_apply,
    ← Recorded.bind_assoc (restartAll time), Recorded.bind_ok hrun]
  exact (survives_afterRestart (survivesAttempts_kept hF index none) t (fun p =>
    p.isBinarySeek || (F.longNameMpegPs && t = 0) || p.tables.formatMpegTs) p' hk).1

/-- `read` returns what `read_packet` does. -/
theorem read_result (p : OpenParser) :
    (read F p).1.1 = .ok p.tables.readPacket.1 ∧ (read F p).1.2.tables = p.tables.readPacket.2 := by
  unfold read
  rw [Recorded.get_bind_apply, Recorded.modify_bind_apply]
  cases p.tables.readPacket.1 with
  | none => exact ⟨rfl, rfl⟩
  | some packet => exact ⟨rfl, rfl⟩

theorem Counting.kept {since : List AVPacket} {p : OpenParser} (h : Counting i since p.tables) :
    Kept i (p.tables.prevPktTimes i) p :=
  ⟨h.plain, h.received, h.ahead, rfl⟩

/-- A stream that counts from nothing counts from the start. -/
theorem Kept.counting_nil {p : OpenParser} (h : Kept i none p) : Counting i [] p.tables :=
  ⟨h.plain, h.received, .inl ⟨h.prev, nofun⟩, h.ahead, Int.le_refl 0⟩

end Seekira.Model.OpenParser

namespace Seekira.Model.ParserSession

open Library OpenParser

variable {F : FFmpegInput} {i : Int}

/-! ## The whole session -/

/-- Once a packet of the stream was returned, a seek succeeds exactly when it restarts the
stream. -/
def RestartsOnSuccess (F : FFmpegInput) (i : Int) (s : ParserSession) : ParserCall → Prop
  | .read => True
  | .seek index time => (∀ packet ∈ s.since, packet.streamIndex ≠ i) ∨
      ((OpenParser.seek F index time s.parser).1.1.isOk = true ↔ Restarts F i index s.parser)

/-- A read counts its packet and restores its times. -/
theorem counting_read {s : ParserSession} (hcount : Counting i s.since s.parser.tables)
    (hrestored : Restored i s.since) :
    Counting i (s.call F .read).since (s.call F .read).parser.tables ∧
      Restored i (s.call F .read).since := by
  obtain ⟨hresult, htables⟩ := read_result (F := F) s.parser
  obtain ⟨hnext, hpacket⟩ := counting_readPacket hcount
  have hsince : (s.call F .read).since = s.since ++ s.parser.tables.readPacket.1.toList := by
    change s.since ++ ((OpenParser.read F s.parser).1.1.toOption.bind id).toList = _
    rw [hresult]
    rfl
  have hparser : (s.call F .read).parser.tables = s.parser.tables.readPacket.2 := htables
  rw [hsince, hparser]
  refine ⟨hnext, ?_⟩
  cases hread : s.parser.tables.readPacket.1 with
  | none =>
    rw [Option.toList_none, List.append_nil]
    exact hrestored
  | some packet => exact restored_concat.mpr ⟨hrestored, hpacket packet hread⟩

/-- A seek that restarts the stream on success keeps the count right. -/
theorem counting_seek (hF : Untimed F i) {s : ParserSession} {index : Int} {time : TimestampFF}
    (hcount : Counting i s.since s.parser.tables) (hrestored : Restored i s.since)
    (hrestarts : RestartsOnSuccess F i s (.seek index time)) :
    Counting i (s.call F (.seek index time)).since (s.call F (.seek index time)).parser.tables ∧
      Restored i (s.call F (.seek index time)).since := by
  change Counting i (if (OpenParser.seek F index time s.parser).1.1.isOk = true then [] else s.since)
      (OpenParser.seek F index time s.parser).1.2.tables ∧
    Restored i (if (OpenParser.seek F index time s.parser).1.1.isOk = true then [] else s.since)
  rcases hrestarts with hother | hiff
  · have hnone : Kept i none s.parser := by
      rcases hcount.prev with ⟨hnone, -⟩ | ⟨_, _, _, _, packet, hmem, hpacket⟩
      · exact ⟨hcount.plain, hcount.received, hcount.ahead, hnone⟩
      · exact absurd hpacket (hother packet hmem)
    have hafter := kept_seek_of_none hF index time hnone
    split
    · exact ⟨hafter.counting_nil, restored_nil i⟩
    · exact ⟨⟨hafter.plain, hafter.received, .inl ⟨hafter.prev, hother⟩, hafter.ahead,
        hcount.nonneg⟩, hrestored⟩
  · by_cases hrestarts : Restarts F i index s.parser
    · rw [if_pos (hiff.mpr hrestarts)]
      exact ⟨(kept_seek_of_restarts hF time hcount.kept hrestarts).counting_nil, restored_nil i⟩
    · rw [if_neg (fun hok => hrestarts (hiff.mp hok))]
      have hafter := kept_seek_of_not_restarts hF time hcount.kept hrestarts
      refine ⟨⟨hafter.plain, hafter.received, ?_, hafter.ahead, hcount.nonneg⟩, hrestored⟩
      rw [hafter.prev]
      exact hcount.prev

/-- Where opening leaves a stream without timestamps to count from nothing, and every seek after
that succeeds exactly when it restarts the stream, the packets of the stream always carry the sums
of the durations before them. -/
theorem always_restored (hF : Untimed F i) {p : OpenParser}
    {tr : List (ParserSession × ParserCall)} {s : ParserSession} (h : (machine F p).Run tr s)
    (hstart : Kept i none (opened F p).parser)
    (hsteps : ∀ q ∈ tr, RestartsOnSuccess F i q.1 q.2) :
    (∀ q ∈ tr, Restored i q.1.since) ∧ Restored i s.since := by
  have hinit : Counting i (machine F p).init.since (machine F p).init.parser.tables ∧
      Restored i (machine F p).init.since := ⟨hstart.counting_nil, restored_nil i⟩
  have hstep : ∀ s c s', (Counting i s.since s.parser.tables ∧ Restored i s.since) →
      RestartsOnSuccess F i s c → (machine F p).step s c = some s' →
      Counting i s'.since s'.parser.tables ∧ Restored i s'.since := by
    rintro s c s' ⟨hcount, hrestored⟩ hrestarts hstep
    obtain rfl := Option.some.inj hstep
    cases c with
    | read => exact counting_read hcount hrestored
    | seek index time => exact counting_seek hF hcount hrestored hrestarts
  exact ⟨fun q hq => (h.invariant_source_of_guard hinit hstep hsteps q hq).2,
    (h.invariant_of_guard hinit hstep hsteps).2⟩

/-- Two packets of stream 0, from the given request on. -/
def davInput (first : Nat) : FFmpegInput :=
  { audioInput 1 with
    request := fun n _ => (true, if n < first then [] else [packetOf 0, packetOf 0]) }

def davParser (first : Nat) : OpenParser :=
  created (davInput first) { plainFormat with formatDAV := true } [] (fun _ => audioStream)
    avNoPtsValue

/-- The packets of the example have no times. -/
theorem untimed_davInput (first : Nat) : Untimed (davInput first) 0 where
  request n request packet h := by
    change packet ∈ (if n < first then [] else [packetOf 0, packetOf 0]) at h
    split at h
    · cases h
    · simp only [List.mem_cons, List.not_mem_nil, or_false, or_self] at h
      rw [h]
      exact fun _ => ⟨rfl, by decide⟩
  reopened n streams ahead h packet hmem := by
    obtain ⟨-, rfl⟩ := Prod.mk.inj (Option.some.inj h)
    cases hmem

/-- A file from whose start no packet is read: the two packets read later carry 0 and 10. -/
theorem always_restored_twice :
    (∀ q ∈ [(opened (davInput 1) (davParser 1), ParserCall.read),
      ((opened (davInput 1) (davParser 1)).call (davInput 1) .read, .read)],
        Restored 0 q.1.since) ∧
      Restored 0 (((opened (davInput 1) (davParser 1)).call (davInput 1) .read).call
        (davInput 1) .read).since := by
  refine always_restored (p := davParser 1) (untimed_davInput 1) (.step (.step .init rfl) rfl)
    ⟨⟨rfl, rfl, rfl, rfl, .inl rfl, rfl⟩, rfl, ?_, rfl⟩ ?_
  · intro packet h
    have hahead : packet ∈ [packetOf 0, packetOf 0] := h
    simp only [List.mem_cons, List.not_mem_nil, or_false, or_self] at hahead
    rw [hahead]
    exact fun _ => ⟨rfl, by decide⟩
  · intro q hq
    simp only [List.mem_cons, List.not_mem_nil, or_false] at hq
    obtain rfl | rfl := hq
    · trivial
    · trivial

/-- In a DAV file whose stream is read while it is opened, the packets are not restored. -/
theorem not_restored_after_opening :
    ¬∀ (F : FFmpegInput) (p : OpenParser) (i : Int) (s : ParserSession), Untimed F i →
      (∀ packet ∈ p.tables.ahead, Timeless i packet) → p.tables.formatDAV = true →
      (findStreamInfo F p).1.1 = .ok true → (machine F p).Reachable s → Restored i s.since := by
  intro h
  have hrestored := h (davInput 0) (davParser 0) 0
    ((opened (davInput 0) (davParser 0)).call (davInput 0) .read) (untimed_davInput 0) nofun rfl rfl
    ⟨_, .step .init rfl⟩
  have hpacket := hrestored [] { packetOf 0 with pts := 0 } [] rfl rfl
  exact absurd hpacket.2 (by decide)

end Seekira.Model.ParserSession
