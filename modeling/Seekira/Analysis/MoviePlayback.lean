import Seekira.Analysis.MovieParser
import Seekira.Model.ParserOpening

/-!
# Playing a movie

Opening the file of a movie reads packets, measures the frame rate and seeks to the start,
and leaves a parser that is about to return the whole track.  The demuxer over this
parser, the decoder and the reader's worker together are a player of the movie's frames.
-/

set_option autoImplicit false

namespace Seekira.Model

open Library OpenParser

/-- A format that asks for no corrections. -/
def movieFormat : FileFormat :=
  { formatSWF := false, formatVOB := false, formatVRO := false, formatPIX := false,
    formatMpegTs := false, formatDAV := false, formatASF := false }

variable {F : FFmpegInput} {streams : Int → AVStream} {packets : List AVPacket}
  {sizeOf : AVPacket → Int} {p : OpenParser}

/-! ## Opening the file -/

namespace Rolling

theorem returns_modifyTables {f : ParserFF → ParserFF}
    (hf : ∀ p, Rolling F streams packets p →
      Rolling F streams packets { p with tables := f p.tables }) :
    Recorded.Returns (Rolling F streams packets) (modifyTables f) := Recorded.returns_modify hf

theorem returns_reposition (hF : Movie F streams packets) (request : Reposition) :
    Recorded.Returns (Rolling F streams packets) (reposition F request) := by
  intro p h
  rw [reposition_apply]
  exact ⟨_, _, rfl, { h with ahead := hF.requests p.requests request }⟩

theorem returns_access (table : StreamTable) (index : Int) :
    Recorded.Returns (Rolling F streams packets) (access table index) :=
  fun p h => ⟨(), p, rfl, h⟩

theorem returns_isCompressedSwf :
    Recorded.Returns (Rolling F streams packets) (isCompressedSwf F) := by
  refine Recorded.returns_get_bind fun p h => ?_
  rw [h.formatSWF]
  exact Recorded.returns_pure false

theorem returns_read (hF : Movie F streams packets) :
    Recorded.Returns (Rolling F streams packets) (OpenParser.read F) := by
  intro p h
  cases hahead : p.tables.ahead with
  | nil =>
    obtain ⟨p', hread, h'⟩ := h.read_nil hahead
    exact ⟨none, p', hread, h'⟩
  | cons packet rest =>
    obtain ⟨p', hread, h', -⟩ := h.read_cons hF hahead
    exact ⟨some packet, p', hread, h'⟩

theorem returns_seekZero (hF : Movie F streams packets)
    (hseeks : SeeksByKey F sizeOf streams packets) :
    Recorded.Returns (Rolling F streams packets) (OpenParser.seek F 0 0) := by
  intro p h
  obtain ⟨p', hseek, -⟩ := h.seek_eq hF le_rfl fun n => (hseeks n 0 le_rfl).1
  have hkept := (kept hF).seek 0 0 p h
  rw [hseek] at hkept
  exact ⟨(), p', hseek, hkept⟩

theorem returns_seekToZero (hF : Movie F streams packets)
    (hseeks : SeeksByKey F sizeOf streams packets) :
    Recorded.Returns (Rolling F streams packets) (seekToZero F) := by
  refine Recorded.returns_get_bind fun p _ => ?_
  refine Recorded.returns_bind returns_isCompressedSwf fun compressed => ?_
  refine Recorded.returns_ite (fun _ => returns_seekZero hF hseeks) fun _ => ?_
  refine Recorded.returns_ite (fun _ => ?_) fun _ => ?_
  · exact Recorded.returns_bind (returns_reposition hF _) fun _ => Recorded.returns_pure ()
  · exact Recorded.returns_bind (returns_reposition hF _) fun _ => Recorded.returns_pure ()

theorem returns_markFirst (packet : AVPacket) :
    Recorded.Returns (Rolling F streams packets) (markFirst packet) := by
  refine Recorded.returns_bind (returns_access _ _) fun _ => ?_
  refine Recorded.returns_get_bind fun p _ => ?_
  refine Recorded.returns_ite (fun _ => Recorded.returns_pure false) fun _ => ?_
  refine Recorded.returns_bind (returns_modifyTables fun _ h => { h with }) fun _ => ?_
  exact Recorded.returns_pure true

theorem returns_firstPacketsLoop (hF : Movie F streams packets) (n : Nat)
    (firstPackets : List AVPacket) :
    Recorded.Returns (Rolling F streams packets) (firstPacketsLoop F n firstPackets) := by
  induction n generalizing firstPackets with
  | zero => exact Recorded.returns_pure firstPackets
  | succ n ih =>
    refine Recorded.returns_get_bind fun p h => ?_
    refine Recorded.returns_ite (fun _ => Recorded.returns_pure firstPackets) fun _ => ?_
    cases hahead : p.tables.ahead with
    | nil => exact Recorded.returns_pure firstPackets
    | cons packet rest =>
      have hrest : rest <:+ packets := (List.suffix_cons packet rest).trans (hahead ▸ h.ahead)
      refine Recorded.returns_bind (Recorded.returns_modify fun q hq => ?_) fun _ => ?_
      · exact
          { hq with
            ahead := hrest
            nbStreams := (hF.streamsAfter packet q.nbStreams).trans hq.nbStreams }
      · exact Recorded.returns_bind (returns_markFirst packet) fun first => ih _

theorem returns_shiftByFirstPackets (hF : Movie F streams packets) (firstPackets : List AVPacket) :
    Recorded.Returns (Rolling F streams packets) (shiftByFirstPackets F firstPackets) := by
  induction firstPackets with
  | nil => exact Recorded.returns_pure ()
  | cons packet rest ih =>
    refine Recorded.returns_get_bind fun p _ => ?_
    refine Recorded.returns_bind (Recorded.returns_notes _) fun _ => ?_
    refine Recorded.returns_bind (returns_modifyTables fun q hq => ?_) fun _ => ih
    have hsame : q.tables.shiftByFirstPacket F.longNameMpegTs packet = q.tables := by
      unfold ParserFF.shiftByFirstPacket
      simp [hF.mpegTs, hq.dtsShifts]
    rw [hsame]
    exact hq

theorem returns_detectTimeShift (hF : Movie F streams packets) (firstPackets : List AVPacket) :
    Recorded.Returns (Rolling F streams packets) (detectTimeShift F firstPackets) := by
  refine Recorded.returns_get_bind fun p _ => ?_
  refine Recorded.returns_bind (Recorded.returns_notes _) fun _ => ?_
  refine Recorded.returns_bind (returns_modifyTables fun q hq => ?_) fun _ =>
    returns_shiftByFirstPackets hF firstPackets
  have hnone : ∀ i, q.tables.calcContainerShift i = 0 := by
    intro i
    unfold ParserFF.calcContainerShift
    rcases hq.start with hstart | hstart <;> simp [hstart]
  refine { hq with timeShift := ?_ }
  show (fun i => if 0 ≤ i ∧ i < q.tables.streamCount ∧ q.tables.calcContainerShift i ≠ 0 then
    q.tables.calcContainerShift i else q.tables.timeShift i) = fun _ => 0
  simp [hnone, hq.timeShift]

theorem returns_detectChapters :
    Recorded.Returns (Rolling F streams packets) (detectChapters F) := by
  refine Recorded.returns_get_bind fun p h => ?_
  rw [h.formatVRO, h.formatVOB]
  exact Recorded.returns_pure ()

theorem returns_detectShiftsAndChapters (hF : Movie F streams packets)
    (hseeks : SeeksByKey F sizeOf streams packets) :
    Recorded.Returns (Rolling F streams packets) (detectShiftsAndChapters F) := by
  have hfirst : Recorded.Returns (Rolling F streams packets) (getFirstPackets F) :=
    Recorded.returns_bind (returns_seekToZero hF hseeks) fun _ => returns_firstPacketsLoop hF _ _
  unfold detectShiftsAndChapters
  rw [hF.apng, if_neg Bool.false_ne_true]
  refine Recorded.returns_bind hfirst fun firstPackets => ?_
  exact Recorded.returns_bind (returns_detectTimeShift hF firstPackets) fun _ =>
    returns_detectChapters

theorem returns_detectFpsLoop (hF : Movie F streams packets) (n : Nat) (probe : FpsProbe) :
    Recorded.Returns (Rolling F streams packets) (detectFpsLoop F n probe) := by
  induction n generalizing probe with
  | zero => exact Recorded.returns_pure ()
  | succ n ih =>
    refine Recorded.returns_bind (returns_read hF) fun packet => ?_
    cases packet with
    | none => exact Recorded.returns_pure ()
    | some packet =>
      refine Recorded.returns_get_bind fun p _ => ?_
      exact Recorded.returns_ite (fun _ => Recorded.returns_pure ()) fun _ => ih _

theorem returns_detectFps (hF : Movie F streams packets) :
    Recorded.Returns (Rolling F streams packets) (detectFps F) := by
  refine Recorded.returns_get_bind fun p _ => ?_
  exact Recorded.returns_ite (fun _ => Recorded.returns_pure ()) fun _ =>
    returns_detectFpsLoop hF _ _

theorem returns_flush (hF : Movie F streams packets) :
    Recorded.Returns (Rolling F streams packets) (OpenParser.flush F) := by
  refine Recorded.returns_bind returns_isCompressedSwf fun compressed => ?_
  refine Recorded.returns_ite (fun _ => Recorded.returns_pure ()) fun _ => ?_
  exact returns_modifyTables fun q hq => { hq with ahead := hF.flushed _ hq.ahead }

/-- The parser whose tables were sized for the movie is in use on it. -/
theorem sized (hF : Movie F streams packets) {start : TimestampFF}
    (hstart : start = 0 ∨ start = avNoPtsValue) :
    ∃ p p₁, (rememberHeaderStreams F (created F movieFormat packets streams start)).1 =
        (.ok (), p) ∧
      (sizeTables F p).1 = (.ok (), p₁) ∧ Rolling F streams packets p₁ := by
  refine ⟨_, _, rfl, rfl, ?_⟩
  exact
    { ahead := List.suffix_rfl
      streams := rfl
      start := hstart
      streamCount := congrArg Int.ofNat hF.probed
      nbStreams := hF.probed
      timeShift := rfl
      dtsShifts := if_neg (by simp [hF.mpegTs])
      formatSWF := rfl
      formatVOB := rfl
      formatVRO := rfl
      formatMpegTs := rfl
      formatDAV := rfl
      formatASF := rfl
      formatIMG := rfl
      formatPIX := rfl
      repeating := rfl
      known := by
        show ((if F.headerStreams = 0 then fun _ => none
          else Function.update (fun _ => none) ((F.headerStreams - 1 : Nat) : Int)
            (some avNoPtsValue)) (0 : Int)).isSome = true
        simp [hF.header]
      duration := rfl }

end Rolling

/-- A movie is opened with success, and all of its track is still to be read. -/
theorem movie_opens (hF : Movie F streams packets) (hseeks : SeeksByKey F sizeOf streams packets)
    (hl : FrameTrack (track sizeOf streams packets)) {start : TimestampFF}
    (hstart : start = 0 ∨ start = avNoPtsValue) :
    ∃ p₀, (findStreamInfo F (created F movieFormat packets streams start)).1 = (.ok true, p₀) ∧
      Rolling F streams packets p₀ ∧ pending F sizeOf p₀ = track sizeOf streams packets := by
  obtain ⟨p, p₁, hheader, hsized, h₁⟩ := Rolling.sized hF hstart
  obtain ⟨_, p₂, hshifts, h₂⟩ := Rolling.returns_detectShiftsAndChapters hF hseeks p₁ h₁
  obtain ⟨_, p₃, hfps, h₃⟩ := Rolling.returns_detectFps hF p₂ h₂
  obtain ⟨_, p₄, hflush, h₄⟩ := Rolling.returns_flush hF p₃ h₃
  obtain ⟨p₀, hseek, hahead⟩ := h₄.seek_eq hF le_rfl fun n => (hseeks n 0 le_rfl).1
  have h₀ := (Rolling.kept hF).seek 0 0 p₄ h₄
  rw [hseek] at h₀
  have hrefused : (findJpeg2000 F (if F.nameMxf then streamIndices F.headerStreams else []) p).1 =
      (.ok false, p) := by
    rw [hF.mxf]
    rfl
  have hdvd : (detectDvdNav F p₁).1 = (.ok (), p₁) := by
    unfold detectDvdNav
    rw [hF.mpegPs]
    rfl
  have hfirst : (seekToStart F p₄).1 = (.ok (), p₀) := by
    unfold seekToStart
    rw [Recorded.get_bind_apply, h₄.seekStream_zero hF, h₄.streamCount, if_pos one_pos]
    exact hseek
  refine ⟨p₀, ?_, h₀, ?_⟩
  · unfold findStreamInfo
    rw [Recorded.fst_bind_ok hheader, hF.drm, if_neg Bool.false_ne_true,
      Recorded.fst_bind_ok hrefused, hF.infoFound]
    unfold useStreams
    simp only [Bool.not_true, Bool.or_self, Bool.false_eq_true, if_false]
    rw [Recorded.fst_bind_ok hsized, Recorded.fst_bind_ok hdvd, Recorded.fst_bind_ok hshifts,
      Recorded.fst_bind_ok hfps, Recorded.fst_bind_ok hflush, Recorded.fst_bind_ok hfirst]
    rfl
  · rw [h₀.pending_eq hF, hahead]
    exact ((hseeks _ 0 le_rfl).2).trans (DemuxerQueue.fromLastKey_zero hl)

/-! ## Playing it -/

namespace ReaderWorker

open ReaderFF

variable {κ : Type} {C : CodecOps κ} {delay : Nat} {holds : List DataPacket → κ → Prop}
  {drained : κ → Prop} {d : TimeFF} {codec : κ}

/-- The reader's worker on the movie's parser, with the posters. -/
def movieMachine (hF : Movie F streams packets) (sizeOf : AVPacket → Int) (C : CodecOps κ)
    (codec : κ) (observers readerObservers : List Nat) (p₀ : {p // Rolling F streams packets p}) :
    Machine (ReaderWorker (DemuxerQueue {p // Rolling F streams packets p}) κ) ReaderLabel :=
  machine (DemuxerQueue.toIDemuxer (movieParser hF sizeOf p₀)) C
    (ReaderFF.opened
      (StreamReader.opened (movieParser hF sizeOf p₀) (pending F sizeOf p₀) p₀ 0 codec) (some 0) .all
      observers readerObservers)

/-- A movie of frames of one duration is opened, and from then on, whatever is posted and however
the worker and the posters take turns, while the worker serves it is where the moves of a player of
these frames lead that handled the same events: the observers were given the frames this player
showed, at their times.  Its next step leaves the loop exactly when it tries a move, other than a
stop, that this player cannot make. -/
theorem plays_movie (hF : Movie F streams packets) (hseeks : SeeksByKey F sizeOf streams packets)
    (hrate : ConstantRate d (track sizeOf streams packets))
    (hduration : F.duration = packets.length * d) {start : TimestampFF}
    (hstart : start = 0 ∨ start = avNoPtsValue) (hC : C.InOrder delay holds drained)
    (hcodec : holds [] codec) (observers readerObservers : List Nat) :
    ∃ p₀ : {p // Rolling F streams packets p},
      (findStreamInfo F (created F movieFormat packets streams start)).1 = (.ok true, p₀.1) ∧
      ∀ w, (movieMachine hF sizeOf C codec observers readerObservers p₀).Reachable w → w.Serving →
        ∃ moves p,
          (FramePlayer.machine (row (track sizeOf streams packets) d delay)).exec
            FramePlayer.initial moves = some p ∧
          moves.filterMap FrameMove.handled = w.handled.map PostedEvent.event ∧
          w.reader.sentFrames = (p.shown.flatMap fun i => observers.map fun h => (h, frameOf d i)) ∧
          w.reader.lastValidFrame = p.current.map (frameOf d) ∧
          w.reader.continueReading = p.playing ∧
          ∀ w', w.work (DemuxerQueue.toIDemuxer (movieParser hF sizeOf p₀)) C = some w' →
            (w'.InLoop ↔ ∀ m ∈ w.nextMove, m ≠ .event .stop →
              (p.step (row (track sizeOf streams packets) d delay) m).isSome) := by
  obtain ⟨p₀, hopen, h₀, hpending⟩ := movie_opens hF hseeks hrate.track hstart
  refine ⟨⟨p₀, h₀⟩, hopen, fun w hw hserving => ?_⟩
  have hrow := movieParser_playsRow hF hseeks h₀ hrate hduration hC
  have hahead : DemuxerQueue.ofStream 0 (pending F sizeOf p₀) = track sizeOf streams packets := by
    rw [hpending, DemuxerQueue.ofStream_eq (ofStream_track hF)]
  obtain ⟨moves, p, hexec, htracks⟩ :=
    (simulates_player hrow hahead ⟨p₀, h₀⟩ hcodec observers readerObservers).reachable hw hserving
  exact ⟨moves, p, hexec, htracks.events, htracks.follows.sent, htracks.follows.last,
    htracks.follows.playing, fun w' hwork => htracks.stays_iff hrow hserving.1 hwork⟩

def evenStreams (_ : Int) : AVStream :=
  { codecType := .video, isApng := false, startTime := 0, duration := 200
    timeBase := (1, 1000000) }

/-- The packets of `evenFile`, as FFmpeg reads them. -/
def evenPackets : List AVPacket :=
  [⟨0, 0, 0, 40, 0, 1⟩, ⟨0, 40, 40, 40, 100, 0⟩, ⟨0, 80, 80, 40, 200, 1⟩,
    ⟨0, 120, 120, 40, 300, 0⟩, ⟨0, 160, 160, 40, 400, 1⟩]

/-- Where a request leads. -/
def evenAhead : Reposition → List AVPacket
  | .file _ _ time _ _ =>
    if time < 80 then evenPackets else if time < 160 then evenPackets.drop 2
    else evenPackets.drop 4
  | .frame .. => evenPackets

def evenMovie : FFmpegInput where
  nameApng := false
  longNameMpegTs := false
  longNameMpegPs := false
  longNameQuickTime := true
  compressedSwf := some false
  hasDrm := false
  nameMxf := false
  isJpeg2000 := fun _ => false
  hasDvdNav := false
  headerStreams := 1
  infoFound := true
  probedStreams := 1
  attachedPic := fun _ => false
  countsForFps := fun _ => true
  availableFps := fun _ => (25000, 1)
  interlaced := fun _ => false
  size := 500
  duration := 200
  findBestStream := fun type _ => if type = .video then 0 else -1
  request := fun _ request => (true, evenAhead request)
  flushed := fun ahead => ahead
  streamsAfter := fun _ streams => streams
  reopened := fun _ => some (1, evenPackets)
  vobChapters := .error (.thrown "no chapters")

/-- The file of the example is a movie. -/
theorem evenMovie_movie : Movie evenMovie evenStreams evenPackets where
  quickTime := rfl
  mpegTs := rfl
  mpegPs := rfl
  apng := rfl
  mxf := rfl
  drm := rfl
  header := rfl
  infoFound := rfl
  probed := rfl
  cover _ := rfl
  best := rfl
  streamsAfter _ _ := rfl
  video := rfl
  notApng := rfl
  inTrack := by decide
  requests n request := by
    show evenAhead request <:+ evenPackets
    cases request with
    | file stream minTs time maxTs any =>
      unfold evenAhead
      dsimp only
      split
      · exact List.suffix_rfl
      · split <;> exact List.drop_suffix _ _
    | frame => exact List.suffix_rfl
  flushed _ h := h
  reopened n count ahead h := by
    obtain ⟨rfl, rfl⟩ : 1 = count ∧ evenPackets = ahead := by simpa [evenMovie] using h
    exact ⟨rfl, List.suffix_rfl⟩

/-- Its seeks go to key packets. -/
theorem evenMovie_seeks : SeeksByKey evenMovie (fun _ => 100) evenStreams evenPackets := by
  intro n time htime
  refine ⟨rfl, ?_⟩
  have htrack : track (fun _ => 100) evenStreams evenPackets = evenFile := by decide
  have hfound (front : List DataPacket) (key : DataPacket) (rest : List DataPacket)
      (hsplit : front ++ key :: rest = evenFile) (hkey : key.isKeyFrame = true)
      (hle : key.pts ≤ time) (hlater : ∀ p ∈ rest, p.isKeyFrame = true → time < p.pts) :
      DemuxerQueue.fromLastKey time evenFile = key :: rest := by
    rw [← hsplit]
    exact DemuxerQueue.fromLastKey_eq hkey hle hlater
  rw [htrack]
  show track (fun _ => 100) evenStreams (evenAhead (movieRequest time)) = _
  unfold evenAhead movieRequest
  dsimp only
  split
  · rename_i h80
    rw [hfound [] _ _ rfl rfl htime (by simp; lia)]
    decide
  · rename_i h80
    split
    · rename_i h160
      rw [hfound (evenFile.take 2) _ _ rfl rfl (Int.not_lt.mp h80) (by simp; lia)]
      decide
    · rename_i h160
      rw [hfound (evenFile.take 4) _ _ rfl rfl (Int.not_lt.mp h160) (by simp)]
      decide

/-- Five frames of 40, and a decoder that gives back every packet at once. -/
theorem plays_movie_even :
    ∃ p₀ : {p // Rolling evenMovie evenStreams evenPackets p},
      (findStreamInfo evenMovie (created evenMovie movieFormat evenPackets evenStreams 0)).1 =
        (.ok true, p₀.1) ∧
      ∀ w, (movieMachine evenMovie_movie (fun _ => 100) (fifoCodec 0 (25, 1)) [] [1, 2] [] p₀).Reachable w →
        w.Serving →
        ∃ moves p,
          (FramePlayer.machine (row (track (fun _ => 100) evenStreams evenPackets) 40 0)).exec
            FramePlayer.initial moves = some p ∧
          moves.filterMap FrameMove.handled = w.handled.map PostedEvent.event ∧
          w.reader.sentFrames =
            (p.shown.flatMap fun i => [1, 2].map fun h => (h, frameOf 40 i)) ∧
          w.reader.lastValidFrame = p.current.map (frameOf 40) ∧
          w.reader.continueReading = p.playing ∧
          ∀ w', w.work (DemuxerQueue.toIDemuxer (movieParser evenMovie_movie (fun _ => 100) p₀))
              (fifoCodec 0 (25, 1)) = some w' →
            (w'.InLoop ↔ ∀ m ∈ w.nextMove, m ≠ .event .stop →
              (p.step (row (track (fun _ => 100) evenStreams evenPackets) 40 0) m).isSome) :=
  plays_movie evenMovie_movie evenMovie_seeks
    ⟨⟨⟨_, rfl, rfl, rfl⟩, by decide, by decide, by decide⟩, by decide⟩ rfl (.inl rfl)
    (fifoCodec_inOrder 0 (25, 1)) rfl [1, 2] []

end ReaderWorker

end Seekira.Model
