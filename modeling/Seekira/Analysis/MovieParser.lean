import Seekira.Analysis.PacketFrame
import Seekira.Analysis.PlayerRuns
import Seekira.Analysis.SeekInvariant
import Seekira.Analysis.SeekOutcome
import Seekira.Model.ParserPackets

/-!
# The parser of a movie

In a QuickTime file with one video track the corrections of the parser have nothing to
correct, and a seek is one request to FFmpeg: to the last key packet at or before the
time.  So from wherever it stands, the parser is going to return a suffix of the track,
and it does what the demuxer needs of a parser.
-/

set_option autoImplicit false

namespace Seekira.Model

open Library OpenParser

/-- A QuickTime container with one video track that starts at time 0, as FFmpeg presents it;
whatever is requested, FFmpeg reads on somewhere in the track. -/
structure Movie (F : FFmpegInput) (streams : Int → AVStream) (packets : List AVPacket) : Prop where
  quickTime : F.longNameQuickTime = true
  mpegTs : F.longNameMpegTs = false
  mpegPs : F.longNameMpegPs = false
  apng : F.nameApng = false
  mxf : F.nameMxf = false
  drm : F.hasDrm = false
  header : F.headerStreams = 1
  infoFound : F.infoFound = true
  probed : F.probedStreams = 1
  cover : ∀ index, F.attachedPic index = false
  best : F.findBestStream .video 1 = 0
  streamsAfter : ∀ packet n, F.streamsAfter packet n = n
  video : (streams 0).codecType = .video
  notApng : (streams 0).isApng = false
  inTrack : ∀ packet ∈ packets, packet.streamIndex = 0 ∧ packet.pts ≠ avNoPtsValue
  requests : ∀ n request, (F.request n request).2 <:+ packets
  flushed : ∀ ahead, ahead <:+ packets → F.flushed ahead <:+ packets
  reopened : ∀ n count ahead, F.reopened n = some (count, ahead) → count = 1 ∧ ahead <:+ packets

/-- What the demuxer is to see of the track. -/
def track (sizeOf : AVPacket → Int) (streams : Int → AVStream) (packets : List AVPacket) :
    List DataPacket := packets.map (dataPacket sizeOf (streams 0))

/-- The request that a seek in a QuickTime file makes. -/
def movieRequest (time : TimestampFF) : Reposition :=
  .file (-1) OpenParser.int64Min time OpenParser.int64Max false

/-- These requests succeed, and lead to the last key packet at or before the time. -/
def SeeksByKey (F : FFmpegInput) (sizeOf : AVPacket → Int) (streams : Int → AVStream)
    (packets : List AVPacket) : Prop :=
  ∀ n time, 0 ≤ time → (F.request n (movieRequest time)).1 = true ∧
    track sizeOf streams (F.request n (movieRequest time)).2 =
      DemuxerQueue.fromLastKey time (track sizeOf streams packets)

/-- The parser is in use on the movie. -/
structure Rolling (F : FFmpegInput) (streams : Int → AVStream) (packets : List AVPacket)
    (p : OpenParser) : Prop where
  ahead : p.tables.ahead <:+ packets
  streams : p.tables.streams = streams
  start : p.tables.containerStartTime = 0 ∨ p.tables.containerStartTime = avNoPtsValue
  streamCount : p.tables.streamCount = 1
  nbStreams : p.nbStreams = 1
  timeShift : p.tables.timeShift = fun _ => 0
  dtsShifts : p.tables.dtsShifts = none
  formatSWF : p.tables.formatSWF = false
  formatVOB : p.tables.formatVOB = false
  formatVRO : p.tables.formatVRO = false
  formatMpegTs : p.tables.formatMpegTs = false
  formatDAV : p.tables.formatDAV = false
  formatASF : p.tables.formatASF = false
  formatIMG : p.formatIMG = false
  formatPIX : p.formatPIX = false
  repeating : p.aviWithRepeatingPts = false
  known : (p.lastSeekTs 0).isSome = true
  duration : p.duration = F.duration

variable {F : FFmpegInput} {streams : Int → AVStream} {packets : List AVPacket}
  {sizeOf : AVPacket → Int} {p : OpenParser}

namespace Rolling

/-! ## Reading -/

/-- The next packet of a movie is the one ahead. -/
theorem nextPacket (hF : Movie F streams packets) (h : Rolling F streams packets p)
    {packet : AVPacket} {rest : List AVPacket} (hahead : p.tables.ahead = packet :: rest) :
    ∃ pos, ParserFF.nextPacket p.tables.ahead p.tables =
      (some packet, { p.tables with ahead := rest, firstPktPos := pos }) := by
  have hindex := (hF.inTrack packet (h.ahead.subset (by simp [hahead]))).1
  refine ⟨if p.tables.firstPktPos = avNoPtsValue then packet.pos else p.tables.firstPktPos, ?_⟩
  rw [hahead, ParserFF.nextPacket]
  dsimp only
  rw [if_pos ⟨hindex.ge, by rw [hindex, h.streamCount]; decide⟩]

/-- There is nothing to correct in a packet of the movie. -/
theorem readPacket (hF : Movie F streams packets) (h : Rolling F streams packets p)
    {packet : AVPacket} {rest : List AVPacket} (hahead : p.tables.ahead = packet :: rest) :
    ∃ pos, p.tables.readPacket =
      (some packet, { p.tables with ahead := rest, firstPktPos := pos }) := by
  obtain ⟨hindex, hpts⟩ := hF.inTrack packet (h.ahead.subset (by simp [hahead]))
  obtain ⟨pos, hnext⟩ := h.nextPacket hF hahead
  refine ⟨pos, ?_⟩
  set m : ParserFF := { p.tables with ahead := rest, firstPktPos := pos } with hm
  have hprepare : m.prepare packet = (packet, m) := by
    have hruntime : m.detectRuntimeTimeshift packet = m := by
      unfold ParserFF.detectRuntimeTimeshift
      have hstream : (m.streams packet.streamIndex).isApng = false := by
        rw [hindex, show m.streams = streams from h.streams]
        exact hF.notApng
      simp [hstream]
    unfold ParserFF.prepare
    simp only [show m.formatDAV = false from h.formatDAV,
      show m.formatASF = false from h.formatASF, Bool.or_self, Bool.false_eq_true, if_false,
      hruntime, show m.dtsShifts = none from h.dtsShifts]
  have hcorrect : m.correct packet.unref.streamIndex packet = (packet, m) := by
    unfold ParserFF.correct ParserFF.correctByShift
    simp only [show m.formatVRO = false from h.formatVRO,
      show m.formatVOB = false from h.formatVOB, show m.formatMpegTs = false from h.formatMpegTs,
      show m.timeShift = fun _ => 0 from h.timeShift, hpts, Bool.or_self, Bool.false_and,
      Bool.false_eq_true, if_false, false_and, sub_zero, ite_self]
  have hmark : m.markKey packet = packet := by
    unfold ParserFF.markKey
    simp [show m.formatSWF = false from h.formatSWF]
  unfold ParserFF.readPacket
  rw [hnext]
  dsimp only
  rw [hprepare]
  dsimp only
  rw [hcorrect]
  dsimp only
  rw [hmark]

/-- `read` returns the packet at the front. -/
theorem read_cons (hF : Movie F streams packets) (h : Rolling F streams packets p)
    {packet : AVPacket} {rest : List AVPacket} (hahead : p.tables.ahead = packet :: rest) :
    ∃ p', (OpenParser.read F p).1 = (.ok (some packet), p') ∧ Rolling F streams packets p' ∧
      p'.tables.ahead = rest := by
  obtain ⟨pos, hread⟩ := h.readPacket hF hahead
  have hindex := (hF.inTrack packet (h.ahead.subset (by simp [hahead]))).1
  have hsame : ∀ ahead rest n, streamsAfterAll F ahead rest n = n := by
    intro ahead rest n
    unfold streamsAfterAll
    induction ahead.take (ahead.length - rest.length) generalizing n with
    | nil => rfl
    | cons packet more ih =>
      rw [List.foldl_cons, hF.streamsAfter]
      exact ih n
  refine ⟨{ p with
    tables := { p.tables with ahead := rest, firstPktPos := pos }
    nbStreams := streamsAfterAll F p.tables.ahead rest p.nbStreams
    lastSeekTs := Function.update p.lastSeekTs packet.streamIndex (some packet.dts) }, ?_, ?_, ?_⟩
  · unfold OpenParser.read
    rw [Recorded.get_bind_apply, Recorded.modify_bind_apply, hread]
    rfl
  · exact
      { h with
        ahead := (List.suffix_cons packet rest).trans (hahead ▸ h.ahead)
        nbStreams := (hsame _ _ _).trans h.nbStreams
        known := by
          show (Function.update p.lastSeekTs packet.streamIndex (some packet.dts) 0).isSome = true
          rw [hindex, Function.update_self]
          rfl }
  · rfl

/-- At the end of the track `read` returns nothing. -/
theorem read_nil (h : Rolling F streams packets p) (hahead : p.tables.ahead = []) :
    ∃ p', (OpenParser.read F p).1 = (.ok none, p') ∧ Rolling F streams packets p' := by
  have hread : p.tables.readPacket = (none, { p.tables with ahead := [] }) := by
    unfold ParserFF.readPacket
    rw [hahead, ParserFF.nextPacket]
  refine ⟨{ p with
    tables := { p.tables with ahead := [] }
    nbStreams := streamsAfterAll F p.tables.ahead [] p.nbStreams }, ?_, ?_⟩
  · unfold OpenParser.read
    rw [Recorded.get_bind_apply, Recorded.modify_bind_apply, hread]
    rfl
  · exact
      { h with
        ahead := List.nil_suffix
        nbStreams := by
          show streamsAfterAll F p.tables.ahead [] p.nbStreams = 1
          rw [hahead]
          exact h.nbStreams }

/-- A read of a movie keeps what holds while it rolls. -/
theorem read (hF : Movie F streams packets) (h : Rolling F streams packets p) :
    Rolling F streams packets (OpenParser.read F p).1.2 := by
  cases hahead : p.tables.ahead with
  | nil =>
    obtain ⟨p', hread, hrolling⟩ := h.read_nil hahead
    rw [hread]
    exact hrolling
  | cons packet rest =>
    obtain ⟨p', hread, hrolling, -⟩ := h.read_cons hF hahead
    rw [hread]
    exact hrolling

/-- The parser is going to return what is ahead in the container. -/
theorem pending_eq (hF : Movie F streams packets) (h : Rolling F streams packets p) :
    pending F sizeOf p = track sizeOf streams p.tables.ahead := by
  unfold pending
  induction hahead : p.tables.ahead generalizing p with
  | nil => rfl
  | cons packet rest ih =>
    obtain ⟨p', hread, hrolling, hrest⟩ := h.read_cons hF hahead
    have hindex := (hF.inTrack packet (h.ahead.subset (by simp [hahead]))).1
    have hmore := ih hrolling hrest
    rw [List.length_cons, readAll, hread]
    dsimp only
    rw [hmore, hrolling.streams, hindex]
    rfl

/-! ## Seeking -/

/-- A seek of a movie keeps what holds while it rolls. -/
theorem survivesSeek (hF : Movie F streams packets) (index : Int) :
    SurvivesSeek F index (Rolling F streams packets) where
  fillGenPts _ _ h := { h with }
  forgetFirst _ h _ := { h with }
  reposition p request h := { h with ahead := hF.requests p.requests request }
  reopen p n ahead h hreopened := by
    obtain ⟨rfl, hahead⟩ := hF.reopened p.requests n ahead hreopened
    exact { h with ahead := hahead, streamCount := by rw [h.nbStreams]; rfl, nbStreams := rfl }
  clearChapters _ h := { h with }
  restartAll _ h _ := { h with }
  restartStream _ h _ := { h with }

theorem kept (hF : Movie F streams packets) : KeptInUse F (Rolling F streams packets) where
  read _ h := h.read hF
  seek index time p h := (survives_seek (survivesSeek hF index) time p h).1

theorem isCover_eq (hF : Movie F streams packets) (index : Int) (p : OpenParser) :
    (isCover F index p).1 = (.ok false, p) := by
  rw [isCover_apply, hF.cover, Bool.and_false]

/-- Before the request, a seek of the track only fills in the timestamps for packets without any. -/
theorem seekStream_eq (hF : Movie F streams packets) (h : Rolling F streams packets p)
    {time : TimestampFF} (hdone : ∀ n, (F.request n (movieRequest time)).1 = true) :
    (seekStream F 0 time false p).1 =
      (.ok (), { p with
        tables := { p.tables with ahead := (F.request p.requests (movieRequest time)).2 }
        requests := p.requests + 1 }) := by
  obtain ⟨last, hlast⟩ := Option.isSome_iff_exists.mp h.known
  have haccess : (accessAll [.genPts, .streams] [0] p).1 = (.ok (), p) := rfl
  have hswf : ∀ forward, (seekSwf F forward time false p).1 = (.ok (some (time, false)), p) := by
    intro forward
    unfold seekSwf
    rw [Recorded.get_bind_apply, h.formatSWF]
    rfl
  have hapng : (forgetFirstApng 0 time p).1 = (.ok (), p) := by
    unfold forgetFirstApng
    rw [Recorded.get_bind_apply, if_neg (by rw [h.streams, hF.notApng]; simp)]
    rfl
  have hbytes : (seekByBytes F 0 time false p).1 = (.ok false, p) := rfl
  have hquick : (seekQuickTime F time p).1 =
      (.ok true, { p with
        tables := { p.tables with ahead := (F.request p.requests (movieRequest time)).2 }
        requests := p.requests + 1 }) := by
    unfold seekQuickTime
    rw [if_pos hF.quickTime, reposition_apply]
    exact congrArg (fun done => (Except.ok done, _)) (hdone p.requests)
  unfold seekStream
  rw [Recorded.fst_bind_ok haccess, Recorded.get_bind_apply, hlast]
  dsimp only
  rw [Recorded.fst_bind_ok (hswf _)]
  dsimp only
  rw [Recorded.fst_bind_ok hapng]
  unfold seekPosition
  rw [Recorded.fst_bind_ok hbytes, if_neg Bool.false_ne_true, Recorded.fst_bind_ok hquick]
  rfl

/-- A seek of the track is the one request. -/
theorem seek_eq (hF : Movie F streams packets) (h : Rolling F streams packets p)
    {time : TimestampFF} (htime : 0 ≤ time)
    (hdone : ∀ n, (F.request n (movieRequest time)).1 = true) :
    ∃ p', (OpenParser.seek F 0 time p).1 = (.ok (), p') ∧
      p'.tables.ahead = (F.request p.requests (movieRequest time)).2 := by
  set q : OpenParser := { p with tables := { p.tables with currentChapter := fun _ => none } }
    with hq
  have hclear : (modifyTables (fun m => { m with currentChapter := fun _ => none }) p).1 =
      (.ok (), q) := rfl
  have hall : (restartAll time q).1 = (.ok time, q) := by
    unfold restartAll
    rw [Recorded.get_bind_apply, show q.aviWithRepeatingPts = false from h.repeating,
      show q.tables.formatDAV = false from h.formatDAV]
    rfl
  have hone : (restartStream 0 time q).1 = (.ok time, q) := by
    unfold restartStream
    rw [Recorded.get_bind_apply, show q.tables.formatASF = false from h.formatASF]
    rfl
  have hcheck : (checkSeek 0 time q).1 = (.ok (), q) := by
    unfold checkSeek
    rw [Recorded.get_bind_apply, if_neg (not_lt.mpr htime),
      show q.tables.streamCount = 1 from h.streamCount, if_neg (by decide),
      show q.formatIMG = false from h.formatIMG, if_neg (by simp)]
    rfl
  have himage : (seekImage F 0 time q).1 = (.ok (), q) := by
    unfold seekImage
    rw [Recorded.get_bind_apply, show q.formatIMG = false from h.formatIMG, if_neg (by simp)]
    rfl
  have hts : (checkMpegTs F 0 q).1 = (.ok (), q) := by
    unfold checkMpegTs
    rw [Recorded.get_bind_apply, show q.tables.formatMpegTs = false from h.formatMpegTs,
      if_neg (by simp)]
    rfl
  have hbinary : (q.isBinarySeek || (F.longNameMpegPs && decide (time = 0)) ||
      q.tables.formatMpegTs) = false := by
    unfold isBinarySeek
    simp only [show q.tables.formatDAV = false from h.formatDAV,
      show q.formatPIX = false from h.formatPIX, show q.tables.formatVOB = false from h.formatVOB,
      show q.tables.formatVRO = false from h.formatVRO, hF.mpegPs,
      show q.tables.formatMpegTs = false from h.formatMpegTs, Bool.or_self, Bool.false_and]
  set r : OpenParser := { q with tables := q.tables.fillGenPts time } with hr
  have hfill : (fillAllGenPts time q).1 = (.ok (), r) := rfl
  have hrolling : Rolling F streams packets r := { h with }
  refine ⟨{ r with
    tables := { r.tables with ahead := (F.request r.requests (movieRequest time)).2 }
    requests := r.requests + 1 }, ?_, rfl⟩
  unfold OpenParser.seek
  rw [Recorded.fst_bind_ok (isCover_eq hF 0 p), if_neg Bool.false_ne_true,
    Recorded.fst_bind_ok hclear, Recorded.fst_bind_ok hall, Recorded.fst_bind_ok hone,
    Recorded.fst_bind_ok hcheck, Recorded.fst_bind_ok himage, Recorded.fst_bind_ok hts,
    Recorded.get_bind_apply, Recorded.fst_bind_ok hfill, hbinary]
  exact seekStream_eq hF hrolling hdone

/-- Other streams are refused. -/
theorem seek_refused (hF : Movie F streams packets) (h : Rolling F streams packets p) {index : Int}
    (hindex : 1 ≤ index) {time : TimestampFF} (htime : 0 ≤ time) :
    (OpenParser.seek F index time p).1.1.isOk = false := by
  set q : OpenParser := { p with tables := { p.tables with currentChapter := fun _ => none } }
    with hq
  have hclear : (modifyTables (fun m => { m with currentChapter := fun _ => none }) p).1 =
      (.ok (), q) := rfl
  have hall : (restartAll time q).1 = (.ok time, q) := by
    unfold restartAll
    rw [Recorded.get_bind_apply, show q.aviWithRepeatingPts = false from h.repeating,
      show q.tables.formatDAV = false from h.formatDAV]
    rfl
  have hone : (restartStream index time q).1 = (.ok time, q) := by
    unfold restartStream
    rw [Recorded.get_bind_apply, show q.tables.formatASF = false from h.formatASF]
    rfl
  have hcheck : checkSeek index time q =
      ((.error (.thrown "Seek error: invalid seek stream index"), q), []) := by
    unfold checkSeek
    rw [Recorded.get_bind_apply, if_neg (not_lt.mpr htime),
      show q.tables.streamCount = 1 from h.streamCount, if_pos hindex]
    rfl
  unfold OpenParser.seek
  rw [Recorded.fst_bind_ok (isCover_eq hF index p), if_neg Bool.false_ne_true,
    Recorded.fst_bind_ok hclear, Recorded.fst_bind_ok hall, Recorded.fst_bind_ok hone,
    Recorded.bind_error hcheck]
  rfl

end Rolling

/-! ## What the demuxer needs -/

/-- The first packet of a track is the last key packet at or before zero. -/
theorem DemuxerQueue.fromLastKey_zero {l : List DataPacket} (hl : FrameTrack l) :
    DemuxerQueue.fromLastKey 0 l = l := by
  obtain ⟨first, hfirst, hzero, hkey⟩ := hl.first
  obtain ⟨rest, rfl⟩ := List.head?_eq_some_iff.mp hfirst
  show DemuxerQueue.fromLastKey 0 ([] ++ first :: rest) = first :: rest
  refine DemuxerQueue.fromLastKey_eq hkey hzero.le fun p hp _ => ?_
  have hend := List.rel_of_pairwise_cons hl.ordered hp
  have hdur := hl.duration first (by simp)
  lia

/-- The packets of a movie are those of its stream. -/
theorem ofStream_track (hF : Movie F streams packets) :
    ∀ packet ∈ track sizeOf streams packets, packet.streamIndex = 0 := by
  intro packet hpacket
  obtain ⟨source, hsource, rfl⟩ := List.mem_map.mp hpacket
  show source.streamIndex.toNat = 0
  rw [(hF.inTrack source hsource).1]
  rfl

/-- The parser of the movie, as the demuxer uses it. -/
def movieParser (hF : Movie F streams packets) (sizeOf : AVPacket → Int) (p₀ : OpenParser) :
    ParserOps {p // Rolling F streams packets p} := parserOps sizeOf (Rolling.kept hF) p₀

/-- A seek of the track returns and goes to the last key packet at or before the time. -/
theorem movieParser_seek (hF : Movie F streams packets)
    (hseeks : SeeksByKey F sizeOf streams packets) (p₀ : OpenParser) {time : TimestampFF}
    (htime : 0 ≤ time) (ahead : List DataPacket) (p : {p // Rolling F streams packets p}) :
    ((movieParser hF sizeOf p₀).seek 0 time ahead p).1 = true ∧
      ((movieParser hF sizeOf p₀).seek 0 time ahead p).2.1 =
        DemuxerQueue.fromLastKey time (track sizeOf streams packets) := by
  have hbefore := (Rolling.kept hF).afterReads
    ((pending F sizeOf p.1).length - ahead.length) p.2
  have hafter := (Rolling.kept hF).seekAhead sizeOf 0 time ahead p.2
  obtain ⟨p', hseek, hahead⟩ := hbefore.seek_eq hF htime fun n => (hseeks n time htime).1
  constructor
  · show (seekAhead F sizeOf 0 time ahead p.1).1 = true
    unfold seekAhead
    dsimp only
    rw [hseek]
    rfl
  · show pending F sizeOf (seekAhead F sizeOf 0 time ahead p.1).2 = _
    rw [hafter.pending_eq hF]
    unfold seekAhead
    dsimp only
    rw [hseek]
    dsimp only
    rw [hahead]
    exact (hseeks _ time htime).2

/-- There is no other stream to seek in. -/
theorem movieParser_refuses (hF : Movie F streams packets) (p₀ : OpenParser) {index : StreamId}
    (hindex : 1 ≤ index) {time : TimestampFF} (htime : 0 ≤ time) (ahead : List DataPacket)
    (p : {p // Rolling F streams packets p}) :
    ((movieParser hF sizeOf p₀).seek index time ahead p).1 = false := by
  have hbefore := (Rolling.kept hF).afterReads
    ((pending F sizeOf p.1).length - ahead.length) p.2
  exact hbefore.seek_refused hF (Int.ofNat_le.mpr hindex) htime

variable {d : TimeFF} {p₀ : OpenParser}

theorem Rolling.streamType (hF : Movie F streams packets) (h : Rolling F streams packets p₀) :
    (movieParser hF sizeOf p₀).streamType 0 = .video := by
  show p₀.getStreamType 0 = .video
  unfold getStreamType
  rw [h.streamCount, if_neg (by decide), h.streams, hF.video]

theorem Rolling.seekStream_zero (hF : Movie F streams packets) (h : Rolling F streams packets p₀) :
    p₀.getSeekStream F = 0 := by
  unfold getSeekStream FFmpegInput.seekStream
  rw [h.nbStreams, hF.best]
  simp

/-- A movie whose seeks go to key packets is seekable. -/
theorem movieParser_seekable (hF : Movie F streams packets)
    (hseeks : SeeksByKey F sizeOf streams packets) (h : Rolling F streams packets p₀)
    (hl : FrameTrack (track sizeOf streams packets)) :
    DemuxerQueue.Seekable (movieParser hF sizeOf p₀) 0 (track sizeOf streams packets) := by
  have hcount : (movieParser hF sizeOf p₀).streamCount = 1 := by
    show p₀.tables.streamCount.toNat = 1
    rw [h.streamCount]
    rfl
  have hstream : (movieParser hF sizeOf p₀).seekStream = 0 := by
    show (p₀.getSeekStream F).toNat = 0
    rw [h.seekStream_zero hF]
    rfl
  have hown : ∀ packet ∈ track sizeOf streams packets, packet.streamIndex = 0 :=
    ofStream_track hF
  refine ⟨by rw [hcount]; decide, h.streamType hF, by rw [hstream, hcount]; decide, .inr ?_, ?_,
    ?_, ?_⟩
  · rw [hstream]
    exact h.streamType hF
  · intro ahead internal
    rw [hstream]
    exact (movieParser_seek hF hseeks p₀ le_rfl ahead internal).1
  · intro index ahead internal hret
    rcases Nat.eq_zero_or_pos index with rfl | hindex
    · rw [(movieParser_seek hF hseeks p₀ le_rfl ahead internal).2,
        DemuxerQueue.fromLastKey_zero hl, DemuxerQueue.ofStream_eq hown]
    · rw [movieParser_refuses hF p₀ hindex le_rfl ahead internal] at hret
      cases hret
  · intro time ahead internal htime _
    obtain ⟨hsuffix, hhead⟩ := DemuxerQueue.fromLastKey_suffix time (track sizeOf streams packets)
    rw [hstream, (movieParser_seek hF hseeks p₀ htime.le ahead internal).2,
      DemuxerQueue.ofStream_eq fun p hp => hown p (hsuffix.subset hp)]
    exact ⟨hsuffix.choose, hsuffix.choose_spec.symm, hhead⟩

/-- A seek in a movie goes to the last key packet at or before the position. -/
theorem movieParser_lands (hF : Movie F streams packets)
    (hseeks : SeeksByKey F sizeOf streams packets) (h : Rolling F streams packets p₀)
    {pos : TimestampFF} (hpos : 0 ≤ pos) :
    DemuxerQueue.LandsOnLastKey (movieParser hF sizeOf p₀) 0 (track sizeOf streams packets)
      pos := by
  intro ahead internal
  have hstream : (movieParser hF sizeOf p₀).seekStream = 0 := by
    show (p₀.getSeekStream F).toNat = 0
    rw [h.seekStream_zero hF]
    rfl
  obtain ⟨hret, hahead⟩ := movieParser_seek hF hseeks p₀ hpos ahead internal
  obtain ⟨hsuffix, -⟩ := DemuxerQueue.fromLastKey_suffix pos (track sizeOf streams packets)
  rw [hstream, hahead, DemuxerQueue.ofStream_eq fun p hp =>
    ofStream_track hF p (hsuffix.subset hp)]
  exact ⟨hret, rfl⟩

/-- With a codec that keeps the order, the movie plays as a row of frames. -/
theorem movieParser_playsRow (hF : Movie F streams packets)
    (hseeks : SeeksByKey F sizeOf streams packets) (h : Rolling F streams packets p₀)
    (hrate : ConstantRate d (track sizeOf streams packets))
    (hduration : F.duration = packets.length * d) {κ : Type} {C : CodecOps κ} {delay : Nat}
    {holds : List DataPacket → κ → Prop} {drained : κ → Prop}
    (hC : C.InOrder delay holds drained) :
    ReaderWorker.PlaysRow (movieParser hF sizeOf p₀) C 0 delay holds drained
      (track sizeOf streams packets) d where
  codec := hC
  parser := movieParser_seekable hF hseeks h hrate.track
  rate := hrate
  seeks := by
    intro before target after pos hsplit hcovers
    have hpts : 0 ≤ target.pts := hrate.track.pts_nonneg target (by simp [hsplit])
    exact .inl (movieParser_lands hF hseeks h (hpts.trans hcovers.1))
  duration := by
    show p₀.duration = (packets.map _).length * d
    rw [h.duration, hduration, List.length_map]

end Seekira.Model
