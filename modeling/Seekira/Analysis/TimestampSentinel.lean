import Seekira.Analysis.ParserCorrections
import Seekira.Model.ParserRecord

/-!
# The sentinel of unknown timestamps

`read_packet` makes up timestamps for some packets without any and corrects the others.  The time
shift and the chapter shift look whether the timestamp is known; the correction of dts and the
MPEG-TS wrap do not.  So the sentinel stays what it is exactly for the packets that reach those two
with known timestamps.
-/

set_option autoImplicit false

namespace Seekira.Model.ParserFF

open Library

/-! ## The record -/

/-- The packet after `restore_packet_pts`, with the parser it leaves. -/
def restored (packet : AVPacket) (m : ParserFF) : AVPacket × ParserFF :=
  if m.formatDAV || m.formatASF then m.restorePacketPts packet else (packet, m)

/-- The packet is filled. -/
def fills (packet : AVPacket) (m : ParserFF) : Bool :=
  (m.formatDAV || m.formatASF) && m.restores packet

/-- What is noted of a correction that is made only of known values. -/
def knownSteps (t : TimestampFF) : List TimestampStep :=
  if t ≠ avNoPtsValue then [.corrected t] else []

/-- What `prepare` notes. -/
def prepareSteps (packet : AVPacket) (m : ParserFF) : List TimestampStep :=
  (if m.fills packet then [.restored] else []) ++
    if m.dtsShifts.isSome then [.corrected (m.restored packet).1.dts] else []

/-- What the wrap notes. -/
def wrapSteps (packet : AVPacket) (m : ParserFF) : List TimestampStep :=
  if m.formatMpegTs then [.corrected packet.pts, .corrected packet.dts] else []

/-- What `correctByShift` notes. -/
def shiftSteps (stream : Int) (packet : AVPacket) (m : ParserFF) : List TimestampStep :=
  m.wrapSteps packet ++
    if (m.streams stream).startTime ≠ avNoPtsValue then
      knownSteps (m.wrapped stream packet.pts) ++ knownSteps (m.wrapped stream packet.dts)
    else if m.wrapped stream packet.pts = avNoPtsValue ∧
        m.wrapped stream packet.dts = avNoPtsValue ∧ m.genPts stream ≠ avNoPtsValue then
      [.generated]
    else []

/-- What `correctByChapter` notes. -/
def chapterSteps (packet : AVPacket) (m : ParserFF) : List TimestampStep :=
  if (m.enterChapter packet).1.isSome then knownSteps packet.pts ++ knownSteps packet.dts else []

/-- What `correct` notes. -/
def correctSteps (stream : Int) (packet : AVPacket) (m : ParserFF) : List TimestampStep :=
  if m.UsesChapters stream then m.chapterSteps packet else m.shiftSteps stream packet

theorem noteKnown_bind_apply {α : Type} (t : TimestampFF)
    (f : Unit → Recorded Fault TimestampStep ParserFF α) (m : ParserFF) :
    (noteKnown t >>= f) m = ((f () m).1, knownSteps t ++ (f () m).2) := by
  unfold noteKnown knownSteps
  split <;> rfl

@[simp] theorem dtsShifts_restorePacketPts (packet : AVPacket) (m : ParserFF) :
    (m.restorePacketPts packet).2.dtsShifts = m.dtsShifts := by
  unfold restorePacketPts
  split
  · rfl
  · split
    · split <;> rfl
    · rfl

@[simp] theorem dtsShifts_detectRuntimeTimeshift (packet : AVPacket) (m : ParserFF) :
    (m.detectRuntimeTimeshift packet).dtsShifts = m.dtsShifts := by
  unfold detectRuntimeTimeshift
  dsimp only
  split
  · rfl
  · split
    · rfl
    · split <;> rfl

@[simp] theorem dtsShifts_restored (packet : AVPacket) (m : ParserFF) :
    (m.restored packet).2.dtsShifts = m.dtsShifts := by
  unfold restored
  split
  · simp
  · rfl

/-- The restoring, with its step. -/
theorem recordedRestore_apply (packet : AVPacket) (m : ParserFF) :
    recordedRestore packet m =
      ((.ok (m.restored packet).1, (m.restored packet).2),
        if m.fills packet then [.restored] else []) := by
  unfold recordedRestore restored fills
  rw [Recorded.lift_get_bind_apply]
  cases m.formatDAV || m.formatASF with
  | false => rfl
  | true =>
    have hnote : noteRestored packet m =
        ((.ok (), m), if m.restores packet then [.restored] else []) := by
      unfold noteRestored
      rw [Recorded.lift_get_bind_apply]
      cases m.restores packet <;> rfl
    rw [if_pos rfl, Recorded.bind_ok hnote]
    simp

/-- The shift of the time of decoding, with its step. -/
theorem recordedDtsShift_apply (packet : AVPacket) (m : ParserFF) :
    recordedDtsShift packet m =
      ((.ok { packet with
          dts := packet.dts - (m.dtsShifts.map fun shifts => shifts packet.streamIndex).getD 0 },
        m), if m.dtsShifts.isSome then [.corrected packet.dts] else []) := by
  unfold recordedDtsShift
  rw [Recorded.lift_get_bind_apply]
  cases m.dtsShifts with
  | none => simp
  | some shifts => rfl

/-- `prepare` in closed form. -/
theorem prepare_eq (packet : AVPacket) (m : ParserFF) :
    m.prepare packet =
      ({ (m.restored packet).1 with
          dts := (m.restored packet).1.dts -
            (m.dtsShifts.map fun shifts => shifts (m.restored packet).1.streamIndex).getD 0 },
        (m.restored packet).2.detectRuntimeTimeshift (m.restored packet).1) := by
  have hshifts : ((m.restored packet).2.detectRuntimeTimeshift (m.restored packet).1).dtsShifts =
      m.dtsShifts := by
    rw [dtsShifts_detectRuntimeTimeshift, dtsShifts_restored]
  unfold prepare
  rw [← restored]
  dsimp only
  split
  · rename_i shifts hsome
    rw [hshifts] at hsome
    simp [hsome]
  · rename_i hnone
    rw [hshifts] at hnone
    simp [hnone]

/-- The preparing, with its steps. -/
theorem recordedPrepare_apply (packet : AVPacket) (m : ParserFF) :
    recordedPrepare packet m =
      ((.ok (m.prepare packet).1, (m.prepare packet).2), m.prepareSteps packet) := by
  unfold recordedPrepare
  rw [Recorded.bind_ok (recordedRestore_apply packet m), Recorded.lift_modify_bind_apply,
    recordedDtsShift_apply, prepare_eq]
  simp [prepareSteps]

/-- The correction by the chapter, with its steps. -/
theorem recordedCorrectByChapter_apply (packet : AVPacket) (m : ParserFF) :
    recordedCorrectByChapter packet m =
      ((.ok (m.correctByChapter packet).1, (m.correctByChapter packet).2),
        m.chapterSteps packet) := by
  unfold recordedCorrectByChapter correctByChapter chapterSteps
  rw [Recorded.lift_total_bind_apply]
  rcases m.enterChapter packet with ⟨_ | c, m'⟩
  · rfl
  · dsimp only
    rw [noteKnown_bind_apply, noteKnown_bind_apply]
    simp

/-- The unwrapping, with its steps. -/
theorem recordedWrap_apply (stream : Int) (packet : AVPacket) (m : ParserFF) :
    recordedWrap stream packet m =
      ((.ok { packet with pts := m.wrapped stream packet.pts, dts := m.wrapped stream packet.dts },
        m), m.wrapSteps packet) := by
  unfold recordedWrap wrapped wrapSteps
  rw [Recorded.lift_get_bind_apply]
  cases m.formatMpegTs <;> rfl

/-- `correctByShift` works on the wrapped packet. -/
theorem correctByShift_eq (stream : Int) (packet : AVPacket) (m : ParserFF) :
    m.correctByShift stream packet =
      if (m.streams stream).startTime ≠ avNoPtsValue then
        ({ packet with
            pts :=
              if m.wrapped stream packet.pts ≠ avNoPtsValue then
                m.wrapped stream packet.pts - m.timeShift stream
              else m.wrapped stream packet.pts
            dts :=
              if m.wrapped stream packet.dts ≠ avNoPtsValue then
                m.wrapped stream packet.dts - m.timeShift stream
              else m.wrapped stream packet.dts }, m)
      else if m.wrapped stream packet.pts = avNoPtsValue ∧
          m.wrapped stream packet.dts = avNoPtsValue ∧ m.genPts stream ≠ avNoPtsValue then
        ({ packet with pts := m.genPts stream, dts := m.wrapped stream packet.dts },
          { m with genPts := Function.update m.genPts stream avNoPtsValue })
      else
        ({ packet with
            pts := m.wrapped stream packet.pts, dts := m.wrapped stream packet.dts }, m) := by
  unfold correctByShift wrapped
  cases m.formatMpegTs <;> rfl

/-- The correction by the shift, with its steps. -/
theorem recordedCorrectByShift_apply (stream : Int) (packet : AVPacket) (m : ParserFF) :
    recordedCorrectByShift stream packet m =
      ((.ok (m.correctByShift stream packet).1, (m.correctByShift stream packet).2),
        m.shiftSteps stream packet) := by
  unfold recordedCorrectByShift
  rw [Recorded.bind_ok (recordedWrap_apply stream packet m), Recorded.lift_get_bind_apply,
    correctByShift_eq]
  unfold shiftSteps
  by_cases hstart : (m.streams stream).startTime ≠ avNoPtsValue
  · rw [if_pos hstart, if_pos hstart, if_pos hstart, noteKnown_bind_apply, noteKnown_bind_apply]
    simp
  · rw [if_neg hstart, if_neg hstart, if_neg hstart]
    dsimp only
    split <;> rfl

/-- The correction, with its steps. -/
theorem recordedCorrect_apply (stream : Int) (packet : AVPacket) (m : ParserFF) :
    recordedCorrect stream packet m =
      ((.ok (m.correct stream packet).1, (m.correct stream packet).2),
        m.correctSteps stream packet) := by
  unfold recordedCorrect correct correctSteps
  rw [Recorded.lift_get_bind_apply]
  by_cases hch : m.UsesChapters stream
  · have hbranch : ((m.formatVRO || m.formatVOB) &&
        decide ((m.streams stream).codecType ≠ .data)) = true := by
      simpa [UsesChapters] using hch
    rw [if_pos hbranch, if_pos hbranch, if_pos hch]
    exact recordedCorrectByChapter_apply packet m
  · have hbranch : ¬((m.formatVRO || m.formatVOB) &&
        decide ((m.streams stream).codecType ≠ .data)) = true := by
      simpa [UsesChapters] using hch
    rw [if_neg hbranch, if_neg hbranch, if_neg hch]
    exact recordedCorrectByShift_apply stream packet m

/-- `read_packet` with its record, when the container has a packet. -/
theorem recordedReadPacket_apply {m m' : ParserFF} {pkt : AVPacket}
    (hnext : nextPacket m.ahead m = (some pkt, m')) :
    recordedReadPacket m =
      ((.ok m.readPacket.1, m.readPacket.2),
        m'.prepareSteps pkt ++ (m'.prepare pkt).2.correctSteps 0 (m'.prepare pkt).1) := by
  unfold recordedReadPacket readPacket
  rw [Recorded.lift_total_bind_apply, hnext]
  dsimp only
  rw [Recorded.bind_ok (recordedPrepare_apply pkt m')]
  have hindex : pkt.unref.streamIndex = 0 := rfl
  rw [hindex, Recorded.bind_ok (recordedCorrect_apply 0 _ _)]
  simp

/-- Without its record this is `read_packet`. -/
theorem erase_recordedReadPacket : recordedReadPacket.erase = Proc.total readPacket := by
  funext m
  change (recordedReadPacket m).1 = (.ok m.readPacket.1, m.readPacket.2)
  rcases hnext : nextPacket m.ahead m with ⟨_ | pkt, m'⟩
  · unfold recordedReadPacket readPacket
    rw [Recorded.lift_total_bind_apply, hnext]
    rfl
  · rw [recordedReadPacket_apply hnext]

/-! ## What is known when the unguarded corrections are made -/

/-- The timestamp that `restore_packet_pts` is going to give to the packet. -/
def filledPts (packet : AVPacket) (m : ParserFF) : Option TimestampFF :=
  if (m.formatDAV || m.formatASF) ∧ packet.pts = avNoPtsValue then
    ((m.prevPktTimes packet.streamIndex).map fun prev => prev.1 + prev.2).or
      (if m.firstStreamPktReceived packet.streamIndex then none else some 0)
  else none

/-- The amount that the dts of the packet's stream is corrected by. -/
def dtsShift (packet : AVPacket) (m : ParserFF) : TimestampFF :=
  (m.dtsShifts.map fun shifts => shifts packet.streamIndex).getD 0

/-- The container's packets are wrapped. -/
def Wraps (m : ParserFF) : Prop := m.formatMpegTs = true ∧ ¬m.UsesChapters 0

/-- Times are filled when there is one to fill in. -/
theorem fills_eq (packet : AVPacket) (m : ParserFF) :
    m.fills packet = (m.filledPts packet).isSome := by
  unfold fills restores filledPts
  cases m.formatDAV || m.formatASF with
  | false => simp
  | true =>
    by_cases hpts : packet.pts = avNoPtsValue
    · rcases m.prevPktTimes packet.streamIndex with _ | prev
      · cases m.firstStreamPktReceived packet.streamIndex <;> simp [hpts]
      · simp [hpts]
    · simp [hpts]

/-- The packet has the times that were filled in. -/
theorem restored_fst (packet : AVPacket) (m : ParserFF) :
    (m.restored packet).1 =
      { packet with
        pts := (m.filledPts packet).getD packet.pts
        dts := (m.filledPts packet).getD packet.dts } := by
  obtain ⟨index, pts, dts, duration, pos, flags⟩ := packet
  unfold restored restorePacketPts filledPts
  cases m.formatDAV || m.formatASF with
  | false => simp
  | true =>
    by_cases hpts : pts = avNoPtsValue
    · rcases m.prevPktTimes index with _ | prev
      · cases m.firstStreamPktReceived index <;> simp [hpts]
      · simp [hpts]
    · simp [hpts]

/-- The packet that is prepared has the times that were filled in. -/
theorem prepare_fst (packet : AVPacket) (m : ParserFF) :
    (m.prepare packet).1 =
      { packet with
        pts := (m.filledPts packet).getD packet.pts
        dts := (m.filledPts packet).getD packet.dts - m.dtsShift packet } := by
  rw [prepare_eq, restored_fst]
  rfl

/-- The restoration and the run-time shift leave the container's streams and format alone. -/
theorem wraps_prepare (packet : AVPacket) (m : ParserFF) :
    (m.prepare packet).2.Wraps ↔ m.Wraps := by
  have hrestore : (m.restored packet).2.Wraps ↔ m.Wraps := by
    unfold restored restorePacketPts
    split
    · split
      · exact Iff.rfl
      · split
        · split <;> exact Iff.rfl
        · exact Iff.rfl
    · exact Iff.rfl
  rw [prepare_eq, ← hrestore]
  unfold detectRuntimeTimeshift
  dsimp only
  split
  · exact Iff.rfl
  · split
    · exact Iff.rfl
    · split <;> exact Iff.rfl

/-! ## The sentinel -/

/-- The packet reaches the correction of dts and the wrap with known timestamps. -/
def ReachesKnown (m : ParserFF) (packet : AVPacket) : Prop :=
  (m.dtsShifts ≠ none → (m.filledPts packet).getD packet.dts ≠ avNoPtsValue) ∧
    (m.Wraps → (m.filledPts packet).getD packet.pts ≠ avNoPtsValue ∧
      (m.filledPts packet).getD packet.dts - m.dtsShift packet ≠ avNoPtsValue)

/-- An unknown timestamp of the packet stays unknown unless one was made up for it, and the value of
an unknown timestamp takes no part in a correction. -/
def KeepsSentinel (pkt out : AVPacket) (steps : List TimestampStep) : Prop :=
  (pkt.pts = avNoPtsValue →
    out.pts = avNoPtsValue ∨ .restored ∈ steps ∨ .generated ∈ steps) ∧
  (pkt.dts = avNoPtsValue → out.dts = avNoPtsValue ∨ .restored ∈ steps) ∧
  ∀ before, .corrected before ∈ steps → before ≠ avNoPtsValue

/-- Only known times are noted as corrected. -/
theorem mem_knownSteps {t before : TimestampFF} (h : .corrected before ∈ knownSteps t) :
    before ≠ avNoPtsValue := by
  unfold knownSteps at h
  split at h
  · rename_i ht
    simp only [List.mem_singleton, TimestampStep.corrected.injEq] at h
    rwa [h]
  · simp at h

/-- What a correction is applied to, when the packet comes with known timestamps to those that do
not look. -/
theorem corrected_mem_correctSteps {m : ParserFF} {packet : AVPacket} {before : TimestampFF}
    (hwraps : m.Wraps → packet.pts ≠ avNoPtsValue ∧ packet.dts ≠ avNoPtsValue)
    (h : .corrected before ∈ m.correctSteps 0 packet) : before ≠ avNoPtsValue := by
  unfold correctSteps at h
  split at h
  · unfold chapterSteps at h
    split at h
    · rcases List.mem_append.mp h with h | h <;> exact mem_knownSteps h
    · simp at h
  · rename_i hch
    unfold shiftSteps at h
    rcases List.mem_append.mp h with h | h
    · unfold wrapSteps at h
      split at h
      · rename_i hts
        obtain ⟨hpts, hdts⟩ := hwraps ⟨hts, hch⟩
        simp only [List.mem_cons, TimestampStep.corrected.injEq, List.not_mem_nil, or_false] at h
        rcases h with rfl | rfl
        · exact hpts
        · exact hdts
      · simp at h
    · split at h
      · rcases List.mem_append.mp h with h | h <;> exact mem_knownSteps h
      · split at h <;> simp at h

/-- Without a wrap an unknown timestamp comes out of the corrections unknown. -/
theorem corrected_sentinel {m : ParserFF} {packet : AVPacket} (hwraps : ¬m.Wraps) :
    m.corrected 0 packet avNoPtsValue = avNoPtsValue := by
  unfold corrected
  by_cases hch : m.UsesChapters 0
  · simp [hch]
  · have hts : m.formatMpegTs = false := by
      by_contra hne
      exact hwraps ⟨by simpa using hne, hch⟩
    simp [hch, wrapped, hts]

/-- A generated time that is used is noted. -/
theorem generated_mem_correctSteps {m : ParserFF} {packet : AVPacket}
    (h : m.pendingPts 0 packet ≠ avNoPtsValue) : .generated ∈ m.correctSteps 0 packet := by
  unfold pendingPts at h
  split at h
  · rename_i hpending
    obtain ⟨hch, hstart, hpts, hdts⟩ := hpending
    simp [correctSteps, shiftSteps, hch, hstart, hpts, hdts, h]
  · simp at h

/-- Without a restoring nothing was filled in. -/
theorem filledPts_eq_none {packet : AVPacket} {m : ParserFF}
    (h : .restored ∉ m.prepareSteps packet) : m.filledPts packet = none := by
  have hfills : m.fills packet ≠ true := by
    intro hfills
    apply h
    simp [prepareSteps, hfills]
  rwa [fills_eq, ne_eq, Option.isSome_iff_ne_none, not_not] at hfills

/-- An unknown pts that comes to the corrections stays unknown, or one is generated. -/
theorem pts_correct {m : ParserFF} {packet : AVPacket} (hpts : packet.pts = avNoPtsValue)
    (hwraps : m.Wraps → packet.pts ≠ avNoPtsValue) :
    (m.correct 0 packet).1.pts = avNoPtsValue ∨ .generated ∈ m.correctSteps 0 packet := by
  by_cases hpending : m.pendingPts 0 packet ≠ avNoPtsValue
  · exact .inr (generated_mem_correctSteps hpending)
  · refine .inl ?_
    rw [correct_eq]
    dsimp only
    rw [if_neg hpending, hpts]
    exact corrected_sentinel fun h => hwraps h hpts

/-- An unknown time of decoding stays unknown when it is not unwrapped. -/
theorem dts_correct {m : ParserFF} {packet : AVPacket} (hdts : packet.dts = avNoPtsValue)
    (hwraps : m.Wraps → packet.dts ≠ avNoPtsValue) :
    (m.correct 0 packet).1.dts = avNoPtsValue := by
  rw [correct_eq]
  dsimp only
  rw [hdts]
  exact corrected_sentinel fun h => hwraps h hdts

/-- The wrap is made of both timestamps. -/
theorem corrected_mem_of_wraps {m : ParserFF} {packet : AVPacket} (h : m.Wraps) :
    .corrected packet.pts ∈ m.correctSteps 0 packet ∧
      .corrected packet.dts ∈ m.correctSteps 0 packet := by
  obtain ⟨hts, hch⟩ := h
  unfold correctSteps shiftSteps wrapSteps
  rw [if_neg hch, if_pos hts]
  exact ⟨List.mem_append_left _ (by simp), List.mem_append_left _ (by simp)⟩

/-- Before the corrections, the dts is corrected when it is shifted. -/
theorem corrected_mem_prepareSteps {m : ParserFF} {packet : AVPacket} {before : TimestampFF}
    (h : .corrected before ∈ m.prepareSteps packet) :
    m.dtsShifts ≠ none ∧ before = (m.filledPts packet).getD packet.dts := by
  unfold prepareSteps at h
  rcases List.mem_append.mp h with h | h
  · split at h <;> simp at h
  · split at h
    · rename_i hsome
      rw [restored_fst, List.mem_singleton, TimestampStep.corrected.injEq] at h
      exact ⟨Option.isSome_iff_ne_none.mp hsome, h⟩
    · simp at h

/-- For every container and packet, `read_packet` keeps the sentinel exactly when the packet
reaches the correction of dts and the wrap with known timestamps. -/
theorem keepsSentinel_iff (m : ParserFF) :
    (∀ pkt m' out, nextPacket m.ahead m = (some pkt, m') → m.readPacket.1 = some out →
        KeepsSentinel pkt out (recordedReadPacket m).2) ↔
      ∀ pkt m', nextPacket m.ahead m = (some pkt, m') → m'.ReachesKnown pkt := by
  rcases hnext : nextPacket m.ahead m with ⟨_ | pkt, m'⟩
  · simp
  have hsteps := congrArg Prod.snd (recordedReadPacket_apply hnext)
  dsimp only at hsteps
  have hread : m.readPacket.1 =
      some ((((m'.prepare pkt).2.correct 0 (m'.prepare pkt).1).2).markKey
        ((m'.prepare pkt).2.correct 0 (m'.prepare pkt).1).1) := by
    unfold readPacket
    rw [hnext]
    rfl
  have hpts : (m'.prepare pkt).1.pts = (m'.filledPts pkt).getD pkt.pts := by rw [prepare_fst]
  have hdts : (m'.prepare pkt).1.dts = (m'.filledPts pkt).getD pkt.dts - m'.dtsShift pkt := by
    rw [prepare_fst]
  rw [hread, hsteps]
  constructor
  · intro hkeeps pkt₁ m₁ heq
    cases heq
    obtain ⟨-, -, hsafe⟩ := hkeeps pkt m' _ rfl rfl
    refine ⟨fun hshifts => ?_, fun hwraps => ?_⟩
    · refine hsafe _ (List.mem_append_left _ (List.mem_append_right _ ?_))
      rw [if_pos (Option.isSome_iff_ne_none.mpr hshifts), restored_fst]
      exact List.mem_singleton_self _
    · have hmade := (wraps_prepare pkt m').mpr hwraps
      rw [← hpts, ← hdts]
      obtain ⟨hmemPts, hmemDts⟩ := corrected_mem_of_wraps hmade
      exact ⟨hsafe _ (List.mem_append_right _ hmemPts), hsafe _ (List.mem_append_right _ hmemDts)⟩
  · intro hreaches pkt₁ m₁ out heq hout
    cases heq
    cases hout
    obtain ⟨hshifts, hwraps⟩ := hreaches pkt m' rfl
    rw [← hpts, ← hdts, ← wraps_prepare pkt m'] at hwraps
    refine ⟨fun hpkt => ?_, fun hpkt => ?_, fun before hmem => ?_⟩
    · by_cases hfilled : .restored ∈ m'.prepareSteps pkt
      · exact .inr (.inl (List.mem_append_left _ hfilled))
      · have hunknown : (m'.prepare pkt).1.pts = avNoPtsValue := by
          rw [hpts, filledPts_eq_none hfilled]
          exact hpkt
        rw [pts_markKey]
        rcases pts_correct hunknown fun h => (hwraps h).1 with hout | hgen
        · exact .inl hout
        · exact .inr (.inr (List.mem_append_right _ hgen))
    · by_cases hfilled : .restored ∈ m'.prepareSteps pkt
      · exact .inr (List.mem_append_left _ hfilled)
      · -- the correction of dts is not made: it would meet the sentinel
        have hnone : m'.dtsShifts = none := by
          by_contra hne
          refine hshifts hne ?_
          rw [filledPts_eq_none hfilled]
          exact hpkt
        have hunknown : (m'.prepare pkt).1.dts = avNoPtsValue := by
          rw [hdts, filledPts_eq_none hfilled]
          simpa [dtsShift, hnone] using hpkt
        rw [dts_markKey]
        exact .inl (dts_correct hunknown fun h => (hwraps h).2)
    · rcases List.mem_append.mp hmem with hmem | hmem
      · obtain ⟨hshifted, rfl⟩ := corrected_mem_prepareSteps hmem
        exact hshifts hshifted
      · exact corrected_mem_correctSteps hwraps hmem

/-! ### A packet without pts in a transport stream -/

/-- A transport stream that starts at 50000 seconds, opened, before a packet without pts. -/
def transportNext : ParserFF :=
  { opened [⟨0, avNoPtsValue, 4500003600, 3600, 188, 0⟩]
      (fun _ => ⟨.video, false, 4500000000, 5400000, (1, 90000)⟩) 50000000000 1 with
    formatMpegTs := true
    dtsShifts := some fun _ => 0 }.detectTimeShift true []

/-- Its pts comes out as a number: the sentinel was wrapped and shifted. -/
theorem sentinel_wrapped :
    ∃ pkt m' out, nextPacket transportNext.ahead transportNext = (some pkt, m') ∧
      transportNext.readPacket.1 = some out ∧ pkt.pts = avNoPtsValue ∧
      out.pts = avNoPtsValue + 0x1FFFFFFFF - 4500000000 ∧
      ¬KeepsSentinel pkt out (recordedReadPacket transportNext).2 := by
  refine ⟨⟨0, avNoPtsValue, 4500003600, 3600, 188, 0⟩, _, _, rfl, rfl, rfl, by decide +kernel, ?_⟩
  rintro ⟨hpts, -, -⟩
  rcases hpts rfl with hout | hrestored | hgenerated
  · revert hout
    decide +kernel
  · revert hrestored
    decide +kernel
  · revert hgenerated
    decide +kernel

end Seekira.Model.ParserFF
