import Seekira.Analysis.PacketFrame
import Seekira.Analysis.SeekInvariant
import Seekira.Analysis.SeekOutcome

/-!
# The streams a seek knows

The table of last timestamps is written by the start of `find_stream_info` and by `read` only.  So a
stream has an entry exactly when it is the last one of the header or a packet of it has been
returned, and the seeks that silently do nothing are those of all other streams.
-/

set_option autoImplicit false

namespace Seekira.Model.OpenParser

open Library

variable {F : FFmpegInput}

/-! ## What reading changes -/

/-- The streams with a last timestamp, and the formats that decide where a seek ends. -/
structure SeekFacts where
  known : Int → Bool
  formatIMG : Bool
  formatSWF : Bool
  formatMpegTs : Bool

def seekFacts (p : OpenParser) : SeekFacts where
  known index := (p.lastSeekTs index).isSome
  formatIMG := p.formatIMG
  formatSWF := p.tables.formatSWF
  formatMpegTs := p.tables.formatMpegTs

/-- Only a packet that `read` returns changes them. -/
def SeekFacts.account (t : SeekFacts) : ParserEvent → SeekFacts
  | .returned packet => { t with known := Function.update t.known packet.streamIndex true }
  | .access .. => t
  | .reposition .. => t

/-- The facts follow the packets the procedure returns. -/
abbrev Remembers {α : Type} (q : Opening α) : Prop := Recorded.Tracks seekFacts SeekFacts.account q

theorem remembers_access (table : StreamTable) (index : Int) : Remembers (access table index) :=
  fun _ => rfl

theorem remembers_accessAll (tables : List StreamTable) (indices : List Int) :
    Remembers (accessAll tables indices) := by
  refine Recorded.tracks_bind Recorded.tracks_get fun p => Recorded.tracks_notes fun e he t => ?_
  simp only [List.mem_flatMap, List.mem_map] at he
  obtain ⟨i, -, table, -, rfl⟩ := he
  rfl

theorem remembers_modifyTables {f : ParserFF → ParserFF}
    (hswf : ∀ m, (f m).formatSWF = m.formatSWF)
    (hts : ∀ m, (f m).formatMpegTs = m.formatMpegTs) : Remembers (modifyTables f) := by
  refine Recorded.tracks_modify fun p => ?_
  simp [seekFacts, hswf, hts]

theorem remembers_reposition (request : Reposition) : Remembers (reposition F request) :=
  fun _ => rfl

theorem remembers_isCompressedSwf : Remembers (isCompressedSwf F) := by
  refine Recorded.tracks_bind Recorded.tracks_get fun p => Recorded.tracks_ite ?_ ?_
  · exact Recorded.tracks_pure _
  · split
    · exact Recorded.tracks_pure _
    · exact Recorded.tracks_throw _

/-- What does not concern the facts leaves them alone. -/
theorem account_notReturned (t : SeekFacts) {events : List ParserEvent}
    (h : ∀ e ∈ events, NotReturned e) : events.foldl SeekFacts.account t = t := by
  induction events with
  | nil => rfl
  | cons e rest ih =>
    have hfirst : t.account e = t := by
      cases e with
      | access => rfl
      | reposition => rfl
      | returned packet => exact absurd (h _ List.mem_cons_self) id
    rw [List.foldl_cons, hfirst]
    exact ih fun e' he' => h e' (List.mem_cons_of_mem _ he')

/-- A seek changes none of the facts. -/
theorem remembers_seek (index : Int) (time : TimestampFF) : Remembers (seek F index time) := by
  intro p
  have hsurvives : SurvivesSeek F index fun p' => p'.seekFacts = p.seekFacts :=
    { fillGenPts := fun _ _ h => h
      forgetFirst := fun _ h _ => h
      reposition := fun _ _ h => h
      reopen := fun _ _ _ h _ => h
      clearChapters := fun _ h => h
      restartAll := fun _ h _ => h
      restartStream := fun _ h _ => h }
  obtain ⟨hfacts, hnone⟩ := survives_seek hsurvives time p rfl
  rw [hfacts, account_notReturned _ hnone]

/-! ## Reading and opening -/

theorem remembers_read : Remembers (read F) := by
  intro p
  have hframe := p.tables.sameStreams_readPacket
  unfold read
  rw [Recorded.get_bind_apply, Recorded.modify_bind_apply]
  cases p.tables.readPacket.1 with
  | none => simp [seekFacts, hframe.formatSWF, hframe.formatMpegTs]
  | some packet =>
    simp only [Recorded.note_bind_apply, Recorded.modify_bind_apply, Recorded.pure_apply,
      List.foldl_cons, List.foldl_nil, seekFacts, SeekFacts.account, hframe.formatSWF,
      hframe.formatMpegTs, SeekFacts.mk.injEq, and_true]
    funext index
    by_cases hindex : index = packet.streamIndex
    · simp [hindex]
    · simp [hindex]

theorem remembers_seekToZero : Remembers (seekToZero F) := by
  refine Recorded.tracks_bind Recorded.tracks_get fun p => ?_
  refine Recorded.tracks_bind remembers_isCompressedSwf fun compressed => ?_
  refine Recorded.tracks_ite (remembers_seek _ _) (Recorded.tracks_ite ?_ ?_)
  · exact Recorded.tracks_bind (remembers_reposition _) fun _ => Recorded.tracks_pure _
  · exact Recorded.tracks_bind (remembers_reposition _) fun _ => Recorded.tracks_pure _

theorem remembers_markFirst (packet : AVPacket) : Remembers (markFirst packet) := by
  refine Recorded.tracks_bind (remembers_access _ _) fun _ => ?_
  refine Recorded.tracks_bind Recorded.tracks_get fun p => Recorded.tracks_ite ?_ ?_
  · exact Recorded.tracks_pure _
  · exact Recorded.tracks_bind (remembers_modifyTables (fun _ => rfl) fun _ => rfl) fun _ =>
      Recorded.tracks_pure _

theorem remembers_firstPacketsLoop (n : Nat) (firstPackets : List AVPacket) :
    Remembers (firstPacketsLoop F n firstPackets) := by
  induction n generalizing firstPackets with
  | zero => exact Recorded.tracks_pure _
  | succ n ih =>
    refine Recorded.tracks_bind Recorded.tracks_get fun p => ?_
    refine Recorded.tracks_ite (Recorded.tracks_pure _) ?_
    split
    · exact Recorded.tracks_pure _
    · refine Recorded.tracks_bind (Recorded.tracks_modify fun _ => rfl) fun _ => ?_
      exact Recorded.tracks_bind (remembers_markFirst _) fun first => ih _

theorem remembers_getFirstPackets : Remembers (getFirstPackets F) :=
  Recorded.tracks_bind remembers_seekToZero fun _ => remembers_firstPacketsLoop _ _

/-- One of the first packets makes accesses at its own index only. -/
theorem mem_packetShiftAccesses {p : OpenParser} {packet : AVPacket} {e : ParserEvent}
    (h : e ∈ packetShiftAccesses F p packet) :
    ∃ table, e = .access table packet.streamIndex (p.tableCount table) ∧
      (table = .dtsShifts → p.tables.dtsShifts.isSome = true) := by
  unfold packetShiftAccesses at h
  dsimp only at h
  split at h
  · cases h
  · rcases List.mem_append.mp h with h | h
    · split at h
      · rcases List.mem_cons.mp h with rfl | h
        · exact ⟨.streams, rfl, nofun⟩
        · split at h
          · exact ⟨.timeShift, List.mem_singleton.mp h, nofun⟩
          · cases h
      · cases h
    · split at h
      · rename_i hdts
        exact ⟨.dtsShifts, List.mem_singleton.mp h, fun _ => hdts.1⟩
      · cases h

/-- The shift of the container makes accesses at the index it is for. -/
theorem mem_containerShiftAccesses {p : OpenParser} {i : Int} {e : ParserEvent}
    (h : e ∈ containerShiftAccesses p i) :
    ∃ table, e = .access table i (p.tableCount table) ∧
      (table = .dtsShifts → p.tables.dtsShifts.isSome = true) := by
  unfold containerShiftAccesses at h
  split at h
  · rcases List.mem_cons.mp h with rfl | h
    · exact ⟨.streams, rfl, nofun⟩
    · split at h
      · exact ⟨.timeShift, List.mem_singleton.mp h, nofun⟩
      · cases h
  · cases h

theorem remembers_shiftByFirstPackets (firstPackets : List AVPacket) :
    Remembers (shiftByFirstPackets F firstPackets) := by
  induction firstPackets with
  | nil => exact Recorded.tracks_pure _
  | cons packet rest ih =>
    refine Recorded.tracks_bind Recorded.tracks_get fun p => ?_
    refine Recorded.tracks_bind (Recorded.tracks_notes fun e he t => ?_) fun _ => ?_
    · obtain ⟨table, rfl, -⟩ := mem_packetShiftAccesses he
      rfl
    · have hframe (m : ParserFF) :=
        (m.sameButShifts_shiftByFirstPacket F.longNameMpegTs packet).frame
      refine Recorded.tracks_bind (remembers_modifyTables (fun m => ?_) fun m => ?_) fun _ => ih
      · rw [hframe m]
      · rw [hframe m]

theorem remembers_detectTimeShift (firstPackets : List AVPacket) :
    Remembers (detectTimeShift F firstPackets) := by
  refine Recorded.tracks_bind Recorded.tracks_get fun p => ?_
  refine Recorded.tracks_bind (Recorded.tracks_notes fun e he t => ?_) fun _ => ?_
  · obtain ⟨i, -, he⟩ := List.mem_flatMap.mp he
    obtain ⟨table, rfl, -⟩ := mem_containerShiftAccesses he
    rfl
  · refine Recorded.tracks_bind (remembers_modifyTables (fun _ => rfl) fun _ => rfl) fun _ => ?_
    exact remembers_shiftByFirstPackets _

theorem remembers_detectVobChapters : Remembers (detectVobChapters F) := by
  refine Recorded.tracks_bind Recorded.tracks_get fun p => Recorded.tracks_ite ?_ ?_
  · exact remembers_modifyTables (fun _ => rfl) fun _ => rfl
  · split
    · exact Recorded.tracks_throw _
    · exact Recorded.tracks_modify fun _ => rfl

theorem remembers_detectChapters : Remembers (detectChapters F) := by
  refine Recorded.tracks_bind Recorded.tracks_get fun p => Recorded.tracks_ite ?_ ?_
  · exact remembers_detectVobChapters
  · exact Recorded.tracks_pure _

theorem remembers_detectShiftsAndChapters : Remembers (detectShiftsAndChapters F) := by
  refine Recorded.tracks_ite ?_ ?_
  · refine Recorded.tracks_bind remembers_detectChapters fun _ => ?_
    exact Recorded.tracks_bind remembers_getFirstPackets fun _ => remembers_detectTimeShift _
  · refine Recorded.tracks_bind remembers_getFirstPackets fun _ => ?_
    exact Recorded.tracks_bind (remembers_detectTimeShift _) fun _ => remembers_detectChapters

theorem remembers_detectFpsLoop (n : Nat) (probe : FpsProbe) :
    Remembers (detectFpsLoop F n probe) := by
  induction n generalizing probe with
  | zero => exact Recorded.tracks_pure _
  | succ n ih =>
    refine Recorded.tracks_bind remembers_read fun packet => ?_
    split
    · exact Recorded.tracks_pure _
    · refine Recorded.tracks_bind Recorded.tracks_get fun p => ?_
      exact Recorded.tracks_ite (Recorded.tracks_pure _) (ih _)

theorem remembers_detectFps : Remembers (detectFps F) := by
  refine Recorded.tracks_bind Recorded.tracks_get fun p => Recorded.tracks_ite ?_ ?_
  · exact Recorded.tracks_pure _
  · exact remembers_detectFpsLoop _ _

theorem remembers_findJpeg2000 (indices : List Int) : Remembers (findJpeg2000 F indices) := by
  induction indices with
  | nil => exact Recorded.tracks_pure _
  | cons i rest ih =>
    refine Recorded.tracks_bind (remembers_access _ _) fun _ => ?_
    exact Recorded.tracks_ite (Recorded.tracks_pure _) ih

theorem remembers_sizeTables : Remembers (sizeTables F) :=
  Recorded.tracks_bind (Recorded.tracks_modify fun _ => rfl) fun _ => remembers_accessAll _ _

theorem remembers_detectDvdNav : Remembers (detectDvdNav F) := by
  refine Recorded.tracks_ite ?_ (Recorded.tracks_pure _)
  refine Recorded.tracks_bind (remembers_accessAll _ _) fun _ => ?_
  exact remembers_modifyTables (fun _ => rfl) fun _ => rfl

theorem remembers_flush : Remembers (flush F) := by
  refine Recorded.tracks_bind remembers_isCompressedSwf fun compressed => ?_
  exact Recorded.tracks_ite (Recorded.tracks_pure _)
    (remembers_modifyTables (fun _ => rfl) fun _ => rfl)

theorem remembers_seekToStart : Remembers (seekToStart F) := by
  refine Recorded.tracks_bind Recorded.tracks_get fun p => ?_
  exact Recorded.tracks_ite (remembers_seek _ _) (Recorded.tracks_throw _)

theorem remembers_useStreams : Remembers (useStreams F) := by
  refine Recorded.tracks_bind remembers_sizeTables fun _ => ?_
  refine Recorded.tracks_bind remembers_detectDvdNav fun _ => ?_
  refine Recorded.tracks_bind remembers_detectShiftsAndChapters fun _ => ?_
  refine Recorded.tracks_bind remembers_detectFps fun _ => ?_
  refine Recorded.tracks_bind remembers_flush fun _ => ?_
  exact Recorded.tracks_bind remembers_seekToStart fun _ => Recorded.tracks_pure _

/-- What follows the entries made for the streams of the header. -/
theorem remembers_afterHeader :
    Remembers (if F.hasDrm then .throw (.thrown "Unsupported format - DRM encrypted M4P")
      else do
        let refused ← findJpeg2000 F (if F.nameMxf then streamIndices F.headerStreams else [])
        if refused || !F.infoFound then return false else useStreams F) := by
  refine Recorded.tracks_ite (Recorded.tracks_throw _) ?_
  refine Recorded.tracks_bind (remembers_findJpeg2000 _) fun refused => ?_
  exact Recorded.tracks_ite (Recorded.tracks_pure _) remembers_useStreams

/-- The facts at the end of `find_stream_info` begin with those of the header. -/
def headerFacts (F : FFmpegInput) (format : FileFormat) : SeekFacts where
  known index := decide (0 < F.headerStreams) && decide (index + 1 = F.headerStreams)
  formatIMG := false
  formatSWF := format.formatSWF
  formatMpegTs := format.formatMpegTs

/-- A stream is known when it was or when a packet of it was returned. -/
theorem SeekFacts.known_foldl (events : List ParserEvent) (t : SeekFacts) (index : Int) :
    (events.foldl account t).known index = true ↔
      t.known index = true ∨ ∃ packet, .returned packet ∈ events ∧ packet.streamIndex = index := by
  induction events generalizing t with
  | nil => simp
  | cons e rest ih =>
    rw [List.foldl_cons, ih]
    cases e with
    | access table i size => simp [account]
    | reposition request succeeded => simp [account]
    | returned packet =>
      have hknown : (account t (.returned packet)).known index = true ↔
          t.known index = true ∨ packet.streamIndex = index := by
        by_cases hindex : index = packet.streamIndex
        · simp [account, hindex]
        · simp [account, hindex, Ne.symm hindex]
      rw [hknown, or_assoc]
      simp [or_and_right, exists_or]

/-- Reading does not change the format. -/
theorem SeekFacts.format_foldl (events : List ParserEvent) (t : SeekFacts) :
    (events.foldl account t).formatIMG = t.formatIMG ∧
      (events.foldl account t).formatSWF = t.formatSWF ∧
      (events.foldl account t).formatMpegTs = t.formatMpegTs := by
  induction events generalizing t with
  | nil => exact ⟨rfl, rfl, rfl⟩
  | cons e rest ih =>
    have hfirst : (account t e).formatIMG = t.formatIMG ∧
        (account t e).formatSWF = t.formatSWF ∧
        (account t e).formatMpegTs = t.formatMpegTs := by
      cases e <;> exact ⟨rfl, rfl, rfl⟩
    obtain ⟨himg, hswf, hts⟩ := ih (account t e)
    exact ⟨himg.trans hfirst.1, hswf.trans hfirst.2.1, hts.trans hfirst.2.2⟩

/-- What is remembered after the file was opened. -/
theorem seekFacts_findStreamInfo (format : FileFormat) (ahead : List AVPacket)
    (streams : Int → AVStream) (containerStartTime : TimestampFF) :
    (findStreamInfo F (created F format ahead streams containerStartTime)).1.2.seekFacts =
      (findStreamInfo F (created F format ahead streams containerStartTime)).2.foldl
        SeekFacts.account (headerFacts F format) := by
  have hheader : rememberHeaderStreams F (created F format ahead streams containerStartTime) =
      ((.ok (), _), _) := rfl
  have haccess : List.foldl SeekFacts.account (headerFacts F format)
      (rememberHeaderStreams F (created F format ahead streams containerStartTime)).2 =
        headerFacts F format := by
    refine account_notReturned _ fun e he => ?_
    unfold rememberHeaderStreams at he
    rw [accessAll_bind_apply] at he
    rcases List.mem_append.mp he with he | he
    · simp only [List.mem_flatMap, List.mem_map] at he
      obtain ⟨i, -, table, -, rfl⟩ := he
      trivial
    · cases he
  have hfacts : seekFacts
      (rememberHeaderStreams F (created F format ahead streams containerStartTime)).1.2 =
        headerFacts F format := by
    unfold rememberHeaderStreams headerFacts
    rw [accessAll_bind_apply]
    simp only [Recorded.modify, seekFacts, created, SeekFacts.mk.injEq, and_self, and_true]
    funext index
    by_cases hnone : F.headerStreams = 0
    · simp [hnone]
    · by_cases hlast : index = (F.headerStreams - 1 : Nat)
      · simp only [hnone, hlast]
        simp
        omega
      · have hne : ¬index + 1 = F.headerStreams := by omega
        simp [hnone, hlast, hne]
  unfold findStreamInfo
  rw [Recorded.bind_ok hheader, List.foldl_append, remembers_afterHeader]
  rw [hheader] at haccess hfacts
  rw [haccess, hfacts]

end Seekira.Model.OpenParser

namespace Seekira.Model.ParserSession

open Library OpenParser

variable {F : FFmpegInput}

/-! ## The whole session -/

/-- A stream has an entry from the header when it is the last one there, and else from a packet. -/
def Remembered (F : FFmpegInput) (s : ParserSession) (index : Int) : Prop :=
  index + 1 = F.headerStreams ∨ ∃ packet, .returned packet ∈ s.events ∧ packet.streamIndex = index

/-- What is remembered in every reachable state: what the header and the events since say. -/
theorem seekFacts_reachable {format : FileFormat} {ahead : List AVPacket} {streams : Int → AVStream}
    {containerStartTime : TimestampFF} {s : ParserSession}
    (h : (machine F (created F format ahead streams containerStartTime)).Reachable s) :
    s.parser.seekFacts = s.events.foldl SeekFacts.account (headerFacts F format) := by
  refine h.invariant
    (I := fun s => s.parser.seekFacts = s.events.foldl SeekFacts.account (headerFacts F format))
    (seekFacts_findStreamInfo format ahead streams containerStartTime) fun s c s' hs hstep => ?_
  obtain rfl := Option.some.inj hstep
  cases c with
  | read =>
    change (OpenParser.read F s.parser).1.2.seekFacts = _
    rw [remembers_read, hs, ← List.foldl_append]
    rfl
  | seek index time =>
    change (OpenParser.seek F index time s.parser).1.2.seekFacts = _
    rw [remembers_seek, hs, ← List.foldl_append]
    rfl

/-- A stream has an entry of its last seek exactly when it is remembered. -/
theorem lastSeekTs_isSome_iff {format : FileFormat} {ahead : List AVPacket}
    {streams : Int → AVStream} {containerStartTime : TimestampFF} {s : ParserSession}
    (h : (machine F (created F format ahead streams containerStartTime)).Reachable s)
    {index : Int} (hindex : 0 ≤ index) :
    (s.parser.lastSeekTs index).isSome = true ↔ Remembered F s index := by
  have hfacts := congrArg (fun t => t.known index = true) (seekFacts_reachable h)
  change ((s.parser.lastSeekTs index).isSome = true) = _ at hfacts
  rw [hfacts, SeekFacts.known_foldl]
  refine or_congr_left ?_
  simp only [headerFacts, Bool.and_eq_true, decide_eq_true_eq]
  omega

/-- A seek to a stream that exists and is no cover does something exactly when the stream is
remembered, or when the container is a transport stream that is sought by another stream. -/
theorem effective_seek_iff_remembered {format : FileFormat} {ahead : List AVPacket}
    {streams : Int → AVStream} {containerStartTime : TimestampFF} {s : ParserSession}
    (h : (machine F (created F format ahead streams containerStartTime)).Reachable s)
    (hswf : format.formatSWF = false) {index : Int} {time : TimestampFF} (hindex : 0 ≤ index)
    (hcount : index < s.parser.tables.streamCount) (hcover : ¬IsCover F index s.parser)
    (htime : 0 ≤ time) :
    Effective (seek F index time) s.parser ↔
      Remembered F s index ∨
        (format.formatMpegTs = true ∧ index ≠ s.parser.getSeekStream F) := by
  have hfacts := seekFacts_reachable h
  obtain ⟨himg, hswf', hts⟩ := SeekFacts.format_foldl s.events (headerFacts F format)
  rw [← hfacts] at himg hswf' hts
  change s.parser.formatIMG = false at himg
  change s.parser.tables.formatSWF = format.formatSWF at hswf'
  change s.parser.tables.formatMpegTs = format.formatMpegTs at hts
  rw [effective_seek_iff hcount hcover htime (hswf'.trans hswf) himg,
    lastSeekTs_isSome_iff h hindex, hts]

/-- A container of audio streams whose requests all succeed and leave no packet. -/
def audioInput (streams : Nat) : FFmpegInput where
  nameApng := false
  longNameMpegTs := false
  longNameMpegPs := false
  longNameQuickTime := false
  compressedSwf := some false
  hasDrm := false
  nameMxf := false
  isJpeg2000 := fun _ => false
  hasDvdNav := false
  headerStreams := streams
  infoFound := true
  probedStreams := streams
  attachedPic := fun _ => false
  countsForFps := fun _ => true
  availableFps := fun _ => (0, 1)
  interlaced := fun _ => false
  size := 1000
  duration := 1000000
  findBestStream := fun type streams => if type = .audio ∧ streams ≠ 0 then 0 else -1
  request := fun _ _ => (true, [])
  flushed := fun ahead => ahead
  streamsAfter := fun packet streams => max streams (packet.streamIndex.toNat + 1)
  reopened := fun _ => some (streams, [])
  vobChapters := .error (.thrown "no chapters")

/-- No format of its own. -/
def plainFormat : FileFormat where
  formatSWF := false
  formatVOB := false
  formatVRO := false
  formatPIX := false
  formatMpegTs := false
  formatDAV := false
  formatASF := false

def audioStream : AVStream where
  codecType := .audio
  isApng := false
  startTime := avNoPtsValue
  duration := 1000
  timeBase := (1, 1000)

/-- A parser of a container of audio streams, before it is probed. -/
def audioParser (streams : Nat) : OpenParser :=
  created (audioInput streams) plainFormat [] (fun _ => audioStream) avNoPtsValue

/-- The only stream of a container is remembered from the header. -/
theorem effective_seek_iff_remembered_single :
    Effective (seek (audioInput 1) 0 500) (opened (audioInput 1) (audioParser 1)).parser ↔
      Remembered (audioInput 1) (opened (audioInput 1) (audioParser 1)) 0 ∨
        (plainFormat.formatMpegTs = true ∧
          (0 : Int) ≠ (opened (audioInput 1) (audioParser 1)).parser.getSeekStream (audioInput 1)) :=
  effective_seek_iff_remembered ⟨[], .init⟩ rfl (by decide) (by decide)
    (by rintro ⟨-, h⟩; cases h) (by decide)

/-- A seek of the first of two audio streams returns and has done nothing. -/
theorem seek_does_nothing :
    ¬∀ (F : FFmpegInput) (format : FileFormat) (ahead : List AVPacket) (streams : Int → AVStream)
      (containerStartTime : TimestampFF) (s : ParserSession) (index : Int) (time : TimestampFF),
      (findStreamInfo F (created F format ahead streams containerStartTime)).1.1 = .ok true →
      (machine F (created F format ahead streams containerStartTime)).Reachable s →
      format.formatSWF = false → 0 ≤ index → index < s.parser.tables.streamCount →
      ¬IsCover F index s.parser → 0 ≤ time →
      Effective (seek F index time) s.parser := by
  intro h
  have heff := h (audioInput 2) plainFormat [] (fun _ => audioStream) avNoPtsValue
    (opened (audioInput 2) (audioParser 2)) 0 500 rfl ⟨[], .init⟩ rfl (by decide) (by decide)
    (by rintro ⟨-, h⟩; cases h) (by decide)
  rw [effective_seek_iff (by decide) (by rintro ⟨-, h⟩; cases h) (by decide) rfl rfl] at heff
  rcases heff with hknown | ⟨hts, -⟩
  · cases hknown
  · cases hts

end Seekira.Model.ParserSession
