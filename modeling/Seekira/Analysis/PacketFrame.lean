import Seekira.Model.Parser

/-!
# What reading a packet leaves alone

`read_packet` changes the packets ahead, the tables of timestamps and the chapters.  The streams,
the formats and the corrections found while the file was opened stay.
-/

set_option autoImplicit false

namespace Seekira.Model.ParserFF

/-- The parts of the parser that reading packets does not change. -/
structure SameStreams (m m' : ParserFF) : Prop where
  streams : m'.streams = m.streams
  containerStartTime : m'.containerStartTime = m.containerStartTime
  streamCount : m'.streamCount = m.streamCount
  dtsShifts : m'.dtsShifts = m.dtsShifts
  formatSWF : m'.formatSWF = m.formatSWF
  formatVOB : m'.formatVOB = m.formatVOB
  formatVRO : m'.formatVRO = m.formatVRO
  formatMpegTs : m'.formatMpegTs = m.formatMpegTs
  formatDAV : m'.formatDAV = m.formatDAV
  formatASF : m'.formatASF = m.formatASF

theorem SameStreams.refl (m : ParserFF) : SameStreams m m := by constructor <;> rfl

theorem SameStreams.trans {m m' m'' : ParserFF} (h : SameStreams m m')
    (h' : SameStreams m' m'') : SameStreams m m'' where
  streams := h'.streams.trans h.streams
  containerStartTime := h'.containerStartTime.trans h.containerStartTime
  streamCount := h'.streamCount.trans h.streamCount
  dtsShifts := h'.dtsShifts.trans h.dtsShifts
  formatSWF := h'.formatSWF.trans h.formatSWF
  formatVOB := h'.formatVOB.trans h.formatVOB
  formatVRO := h'.formatVRO.trans h.formatVRO
  formatMpegTs := h'.formatMpegTs.trans h.formatMpegTs
  formatDAV := h'.formatDAV.trans h.formatDAV
  formatASF := h'.formatASF.trans h.formatASF

/-- Getting the next packet leaves the streams. -/
theorem sameStreams_nextPacket (ahead : List AVPacket) (m : ParserFF) :
    SameStreams m (nextPacket ahead m).2 := by
  induction ahead generalizing m with
  | nil => constructor <;> rfl
  | cons packet rest ih =>
    unfold nextPacket
    dsimp only
    split
    · constructor <;> rfl
    · refine SameStreams.trans ?_ (ih _)
      constructor <;> rfl

/-- Looking for the next packet changes the packets ahead and the first position only. -/
theorem nextPacket_frame (ahead : List AVPacket) (m : ParserFF) :
    ∃ rest pos, (nextPacket ahead m).2 = { m with ahead := rest, firstPktPos := pos } ∧
      (∀ packet ∈ rest, packet ∈ ahead) ∧
      ∀ packet, (nextPacket ahead m).1 = some packet → packet ∈ ahead := by
  induction ahead generalizing m with
  | nil => exact ⟨[], m.firstPktPos, rfl, nofun, nofun⟩
  | cons first rest ih =>
    unfold nextPacket
    dsimp only
    split
    · refine ⟨rest, _, rfl, fun packet h => List.mem_cons_of_mem _ h, fun packet h => ?_⟩
      exact Option.some.inj h ▸ List.mem_cons_self
    · obtain ⟨rest', pos, hframe, hrest, hnext⟩ := ih
        { m with
          ahead := rest
          firstPktPos := if m.firstPktPos = avNoPtsValue then first.pos else m.firstPktPos }
      exact ⟨rest', pos, hframe, fun packet h => List.mem_cons_of_mem _ (hrest packet h),
        fun packet h => List.mem_cons_of_mem _ (hnext packet h)⟩

theorem sameStreams_restorePacketPts (packet : AVPacket) (m : ParserFF) :
    SameStreams m (m.restorePacketPts packet).2 := by
  unfold restorePacketPts
  split
  · constructor <;> rfl
  · split
    · split
      · constructor <;> rfl
      · exact SameStreams.refl m
    · constructor <;> rfl

theorem sameStreams_detectRuntimeTimeshift (packet : AVPacket) (m : ParserFF) :
    SameStreams m (m.detectRuntimeTimeshift packet) := by
  unfold detectRuntimeTimeshift
  dsimp only
  split
  · exact SameStreams.refl m
  · split
    · exact SameStreams.refl m
    · split
      · constructor <;> rfl
      · exact SameStreams.refl m

theorem sameStreams_prepare (packet : AVPacket) (m : ParserFF) :
    SameStreams m (m.prepare packet).2 := by
  have hrestore : SameStreams m (if m.formatDAV || m.formatASF then m.restorePacketPts packet
      else (packet, m)).2 := by
    split
    · exact sameStreams_restorePacketPts packet m
    · exact SameStreams.refl m
  unfold prepare
  dsimp only
  split
  · exact hrestore.trans (sameStreams_detectRuntimeTimeshift _ _)
  · exact hrestore.trans (sameStreams_detectRuntimeTimeshift _ _)

theorem sameStreams_correctByShift (stream : Int) (packet : AVPacket) (m : ParserFF) :
    SameStreams m (m.correctByShift stream packet).2 := by
  unfold correctByShift
  extract_lets wrapped
  split
  · exact SameStreams.refl m
  · split
    · constructor <;> rfl
    · exact SameStreams.refl m

theorem sameStreams_correct (stream : Int) (packet : AVPacket) (m : ParserFF) :
    SameStreams m (m.correct stream packet).2 := by
  unfold correct
  split
  · unfold correctByChapter
    dsimp only
    split
    · constructor <;> rfl
    · constructor <;> rfl
  · exact sameStreams_correctByShift stream packet m

theorem sameStreams_readPacket (m : ParserFF) : SameStreams m m.readPacket.2 := by
  have hnext := sameStreams_nextPacket m.ahead m
  unfold readPacket
  rcases h : nextPacket m.ahead m with ⟨packet | packet, m₁⟩ <;> rw [h] at hnext
  · exact hnext
  · exact (hnext.trans (sameStreams_prepare _ _)).trans (sameStreams_correct _ _ _)

/-! ## The first packets -/

/-- What the first packets change: the shifts. -/
structure SameButShifts (m m' : ParserFF) : Prop where
  frame : m' = { m with timeShift := m'.timeShift, dtsShifts := m'.dtsShifts }
  dtsShifts : m'.dtsShifts.isSome = m.dtsShifts.isSome

/-- The first packet changes the shifts only. -/
theorem sameButShifts_shiftByFirstPacket (isMpegTs : Bool) (packet : AVPacket) (m : ParserFF) :
    SameButShifts m (m.shiftByFirstPacket isMpegTs packet) := by
  unfold shiftByFirstPacket
  split
  · exact ⟨rfl, rfl⟩
  · extract_lets idx stream m₁
    have hfirst : SameButShifts m m₁ := by
      unfold m₁
      split
      · exact ⟨rfl, rfl⟩
      · exact ⟨rfl, rfl⟩
    split
    · rename_i shifts hshifts
      split
      · exact ⟨by rw [hfirst.frame], by rw [← hfirst.dtsShifts, hshifts]; rfl⟩
      · exact hfirst
    · exact hfirst

end Seekira.Model.ParserFF
