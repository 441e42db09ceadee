import Seekira.Analysis.DemuxerSeek
import Seekira.Analysis.StreamReading

/-!
# A seek of one stream

`request_seek` flushes the decoder and enters the wanted time into the reader's
table; `do_seek` searches the demuxer and asks the stream for its result.  In a
file where a single stream is enabled, the first round of the search succeeds: the
stream keeps the last key packet at or before the time and stands there.
-/

set_option autoImplicit false

namespace Seekira.Model.StreamReader

open Library

variable {π κ : Type} {P : ParserOps π} {C : CodecOps κ} {delay : Nat}
  {holds : List DataPacket → κ → Prop} {drained : κ → Prop} {s : StreamId} {pos : TimestampFF}
  {l front rest : List DataPacket} {key : DataPacket}

/-! ## The table of the reader -/

/-- Between two seeks: stream `s` is the only enabled one, and no seek is requested. -/
structure Settled (P : ParserOps π) (s : StreamId) (r : StreamReader (DemuxerQueue π) κ) : Prop where
  count : r.streamCount = P.streamCount
  own : r.infos s = ⟨true, avNoPtsValue, [], false⟩
  others : ∀ i, i ≠ s → (r.infos i).isStreamEnabled = false ∧
    (r.infos i).seekResultCheckers = []
  hasReader : (r.streams s).hasReader = true
  demuxer : r.demuxer.OnlyStream s

/-- The only enabled stream decides the position. -/
theorem minSeekPosition_eq {infos : StreamId → StreamInfo}
    (hown : (infos s).isStreamEnabled = true) (htime : (infos s).seekTime = pos)
    (hknown : pos ≠ avNoPtsValue) (hothers : ∀ i, i ≠ s → (infos i).isStreamEnabled = false)
    (is : List StreamId) {start : TimestampFF} (hstart : start = avNoPtsValue ∨ start = pos) :
    minSeekPosition infos is start = .ok (if s ∈ is then pos else start) := by
  induction is generalizing start with
  | nil => simp [minSeekPosition]
  | cons i is ih =>
    unfold minSeekPosition
    by_cases hi : i = s
    · subst hi
      rw [hown, htime, if_neg (by simp), if_neg hknown]
      rcases hstart with rfl | rfl
      · rw [if_pos (.inl rfl), ih (.inr rfl)]
        simp
      · rw [if_neg (by simp [hknown]), ih (.inr rfl)]
        simp
    · rw [hothers i hi, if_pos (by simp), ih hstart]
      have hne : ¬s = i := fun h => hi h.symm
      simp [hne]

/-! ## The result of a seek -/

/-- The stream when the search found a key packet at or before the wanted position. -/
def sought (key : DataPacket) (st : DemuxedStream κ) : DemuxedStream κ :=
  { st with bufferedPacket := some key, position := key.pts, lastSeekResult := true }

/-- The reading for the result ends with the key packet in front. -/
theorem seekResultLoop_key (hs : s < P.streamCount) (hkey : key.isKeyFrame = true) (fuel : Nat)
    {r : StreamReader (DemuxerQueue π) κ} (h : r.demuxer.Holds s (key :: rest)) :
    ∃ d, seekResultLoop (DemuxerQueue.toIDemuxer P) s (fuel + 1) r =
        (.ok (), { r with demuxer := d }.setStream s
          { r.streams s with bufferedPacket := some key }) ∧ d.Holds s rest := by
  obtain ⟨d, hread, hholds⟩ := DemuxerQueue.read_of_holds hs h
  refine ⟨d, ?_, hholds⟩
  have hread' : (DemuxerQueue.toIDemuxer P).read s r.demuxer = (.ok (some key), d) := hread
  have hdemuxer : onDemuxer ((DemuxerQueue.toIDemuxer P).read s) r =
      (.ok (some key), { r with demuxer := d }) := by
    simp [onDemuxer, hread']
  unfold seekResultLoop
  rw [Proc.bind_ok hdemuxer]
  simp [modifyStream, hkey]

/-- A key packet at or before the position is a result. -/
theorem getSeekResult_key (hs : s < P.streamCount) (hkey : key.isKeyFrame = true)
    (hknown : key.pts ≠ avNoPtsValue) {r : StreamReader (DemuxerQueue π) κ}
    (hle : key.pts ≤ (r.streams s).seekPosition) (h : r.demuxer.Holds s (key :: rest)) :
    ∃ d, getSeekResult (DemuxerQueue.toIDemuxer P) s r =
        (.ok true, { r with demuxer := d }.setStream s (sought key (r.streams s))) ∧
      d.Holds s rest := by
  obtain ⟨d, hloop, hholds⟩ := seekResultLoop_key hs hkey
    ((DemuxerQueue.toIDemuxer P).remaining r.demuxer) h
  refine ⟨d, ?_, hholds⟩
  unfold getSeekResult
  rw [Proc.get_bind_apply, Proc.bind_ok hloop]
  simp [modifyStream, DataPacket.ptsOrDts, hknown, hle, hkey, sought]

/-! ## The results of all streams -/

/-- The fields of the state that the seek of one stream depends on. -/
structure Asked (s : StreamId) (ps : List DataPacket) (st : DemuxedStream κ)
    (r : StreamReader (DemuxerQueue π) κ) : Prop where
  own : (r.infos s).seekResultCheckers = [s]
  others : ∀ i, i ≠ s → (r.infos i).seekResultCheckers = []
  stream : r.streams s = st
  demuxer : r.demuxer.Holds s ps

/-- Marking a seek as done changes no checkers. -/
theorem Asked.mark {ps : List DataPacket} {st : DemuxedStream κ}
    {r : StreamReader (DemuxerQueue π) κ} (h : r.Asked s ps st) (i : StreamId) :
    (r.setInfo i { r.infos i with seekAlreadyDone := true }).Asked s ps st := by
  refine ⟨?_, fun j hj => ?_, h.stream, h.demuxer⟩
  · by_cases hi : s = i
    · subst hi
      simpa [setInfo] using h.own
    · simpa [setInfo, hi] using h.own
  · by_cases hi : j = i
    · subst hi
      simpa [setInfo] using h.others j hj
    · simpa [setInfo, hi] using h.others j hj

/-- A stream without checkers accepts every result. -/
theorem infoSeekResult_other {δ : Type} {D : IDemuxer δ} {r : StreamReader δ κ} {i : StreamId}
    (hi : (r.infos i).seekResultCheckers = []) (time : TimestampFF) :
    infoSeekResult D time i r =
      (.ok true, r.setInfo i { r.infos i with seekAlreadyDone := true }) := by
  unfold infoSeekResult
  simp [modifyInfo, setInfo, hi, checkResults]

/-- The stream that was asked accepts a key packet at or before its position. -/
theorem infoSeekResult_own (hs : s < P.streamCount) (hkey : key.isKeyFrame = true)
    (hknown : key.pts ≠ avNoPtsValue) {st : DemuxedStream κ} (hle : key.pts ≤ st.seekPosition)
    {r : StreamReader (DemuxerQueue π) κ} (h : r.Asked s (key :: rest) st) (time : TimestampFF) :
    ∃ r', infoSeekResult (DemuxerQueue.toIDemuxer P) time s r = (.ok true, r') ∧
      r'.Asked s rest (sought key st) := by
  have hmarked := h.mark s
  generalize hr₁ : r.setInfo s { r.infos s with seekAlreadyDone := true } = r₁ at hmarked
  have hstream := hmarked.stream
  obtain ⟨d, hget, hholds⟩ := getSeekResult_key hs hkey hknown (by rw [hstream]; exact hle)
    hmarked.demuxer
  refine ⟨{ r₁ with demuxer := d }.setStream s (sought key st), ?_,
    ⟨hmarked.own, hmarked.others, by simp, hholds⟩⟩
  unfold infoSeekResult modifyInfo
  rw [Proc.modify_bind_apply, hr₁, Proc.get_bind_apply, hmarked.own]
  unfold checkResults
  rw [Proc.bind_ok hget, hstream]
  rfl

/-- Streams that asked for nothing accept, and change nothing that the asking stream depends on. -/
theorem seekResults_others {ps : List DataPacket} {st : DemuxedStream κ} (time : TimestampFF)
    {is : List StreamId} (his : s ∉ is) {r : StreamReader (DemuxerQueue π) κ}
    (h : r.Asked s ps st) :
    ∃ r', seekResults (DemuxerQueue.toIDemuxer P) time is r = (.ok true, r') ∧
      r'.Asked s ps st := by
  induction is generalizing r with
  | nil => exact ⟨r, rfl, h⟩
  | cons i is ih =>
    rw [List.mem_cons, not_or] at his
    have hi : (r.infos i).seekResultCheckers = [] := h.others i (Ne.symm his.1)
    unfold seekResults
    rw [Proc.bind_ok (infoSeekResult_other hi time)]
    exact ih his.2 (h.mark i)

/-- All streams accept the result. -/
theorem seekResults_accept (hs : s < P.streamCount) (hkey : key.isKeyFrame = true)
    (hknown : key.pts ≠ avNoPtsValue) {st : DemuxedStream κ} (hle : key.pts ≤ st.seekPosition)
    (time : TimestampFF) {is : List StreamId} (hnodup : is.Nodup) (hmem : s ∈ is)
    {r : StreamReader (DemuxerQueue π) κ} (h : r.Asked s (key :: rest) st) :
    ∃ r', seekResults (DemuxerQueue.toIDemuxer P) time is r = (.ok true, r') ∧
      r'.Asked s rest (sought key st) := by
  induction is generalizing r with
  | nil => simp at hmem
  | cons i is ih =>
    obtain ⟨hi, hnodup⟩ := List.nodup_cons.mp hnodup
    unfold seekResults
    by_cases his : i = s
    · subst his
      obtain ⟨r₁, hown, hasked⟩ := infoSeekResult_own hs hkey hknown hle h time
      rw [Proc.bind_ok hown]
      exact seekResults_others time hi hasked
    · have hchecker : (r.infos i).seekResultCheckers = [] := h.others i his
      rw [Proc.bind_ok (infoSeekResult_other hchecker time)]
      exact ih hnodup ((List.mem_cons.mp hmem).resolve_left fun h => his h.symm) (h.mark i)

/-! ## The whole seek -/

/-- The first round of the search succeeds. -/
theorem seekLoop_accept (hP : DemuxerQueue.Seekable P s l) (hl : FrameTrack l) (hpos : 0 ≤ pos)
    (hsplit : l = front ++ key :: rest) (hkey : key.isKeyFrame = true) (hle : key.pts ≤ pos)
    (hlater : ∀ p ∈ rest, p.isKeyFrame = true → pos < p.pts)
    (hland : DemuxerQueue.LandsOnLastKey P s l pos ∨ Fits front) (fuel : Nat)
    {r : StreamReader (DemuxerQueue π) κ} (hcount : r.streamCount = P.streamCount)
    (hown : (r.infos s).seekResultCheckers = [s])
    (hothers : ∀ i, i ≠ s → (r.infos i).seekResultCheckers = [])
    (hseek : (r.streams s).seekPosition = pos) (hdemuxer : r.demuxer.OnlyStream s) :
    ∃ r', seekLoop (DemuxerQueue.toIDemuxer P) pos (fuel + 1) pos 0 r = (.ok (), r') ∧
      r'.streams s = sought key (r.streams s) ∧ r'.demuxer.Holds s rest := by
  obtain ⟨time, d, hd, hnonneg, hbefore, hholds⟩ :=
    DemuxerQueue.seek_lands hP hl hpos hsplit hkey hle hlater hland hdemuxer
  have hd' : (DemuxerQueue.toIDemuxer P).seek pos r.demuxer = (.ok time, d) := hd
  have honDemuxer : onDemuxer ((DemuxerQueue.toIDemuxer P).seek pos) r =
      (.ok time, { r with demuxer := d }) := by
    simp [onDemuxer, hd']
  have hasked : Asked s (key :: rest) (r.streams s) { r with demuxer := d } :=
    ⟨hown, hothers, rfl, hholds⟩
  have hknown : key.pts ≠ avNoPtsValue := hl.timed.known key (by simp [hsplit])
  obtain ⟨r', hresults, hasked'⟩ := seekResults_accept hP.lt hkey hknown (by rw [hseek]; exact hle)
    (if time < pos then time else pos) List.nodup_range
    (List.mem_range.mpr (hcount ▸ hP.lt)) hasked
  refine ⟨r', ?_, hasked'.stream, hasked'.demuxer⟩
  unfold seekLoop
  have hback : (decide (pos ≥ 0) && decide (pos - pos < maxTimeShift)) = true := by
    have hshift : (0 : Int) < maxTimeShift := by decide
    simp [hpos, hshift]
  rw [if_neg (Int.not_lt.mpr hpos)]
  simp only [hback, if_true, Int.sub_zero]
  rw [Proc.bind_ok honDemuxer]
  simp only [Proc.get_bind_apply]
  rw [Proc.bind_ok hresults]
  simp

/-- The stream after `request_seek`. -/
def flushed (C : CodecOps κ) (pos : TimestampFF) (st : DemuxedStream κ) : DemuxedStream κ :=
  { st with
    terminated := false
    seekPosition := pos
    bufferedPacket := none
    position := avNoPtsValue
    decoder := st.decoder.flush C pos }

/-- The request of a video stream flushes its decoder and is entered into the table. -/
theorem requestSeek_eq {δ : Type} {D : IDemuxer δ} {r : StreamReader δ κ}
    (hreader : (r.streams s).hasReader = true) (hvideo : D.streamType s = .video)
    (hown : r.infos s = ⟨true, avNoPtsValue, [], false⟩) :
    requestSeek D C s pos none r =
      (.ok (), (r.setStream s (flushed C pos (r.streams s))).setInfo s ⟨true, pos, [s], false⟩) := by
  unfold requestSeek
  simp [hreader, hvideo, modifyStream, modifyInfo, hown, StreamInfo.requestSeek, flushed]

/-- `seek` searches the demuxer and clears the requests. -/
theorem seek_eq (hP : DemuxerQueue.Seekable P s l) (hl : FrameTrack l) (hpos : 0 ≤ pos)
    (hsplit : l = front ++ key :: rest) (hkey : key.isKeyFrame = true) (hle : key.pts ≤ pos)
    (hlater : ∀ p ∈ rest, p.isKeyFrame = true → pos < p.pts)
    (hland : DemuxerQueue.LandsOnLastKey P s l pos ∨ Fits front)
    {r : StreamReader (DemuxerQueue π) κ} (hcount : r.streamCount = P.streamCount)
    (hown : r.infos s = ⟨true, pos, [s], false⟩)
    (hothers : ∀ i, i ≠ s → (r.infos i).isStreamEnabled = false ∧
      (r.infos i).seekResultCheckers = [])
    (hseek : (r.streams s).seekPosition = pos) (hdemuxer : r.demuxer.OnlyStream s) :
    ∃ r', seek (DemuxerQueue.toIDemuxer P) s r = (.ok (), r') ∧
      r'.streams s = sought key (r.streams s) ∧ r'.demuxer.Holds s rest := by
  have hknown : pos ≠ avNoPtsValue := by
    rintro rfl
    revert hpos
    decide
  have hmin : minSeekPosition r.infos (List.range r.streamCount) avNoPtsValue = .ok pos := by
    rw [minSeekPosition_eq (by rw [hown]) (by rw [hown]) hknown (fun i hi => (hothers i hi).1) _
      (.inl rfl), if_pos (List.mem_range.mpr (hcount ▸ hP.lt))]
  obtain ⟨r', hloop, hstream, hholds⟩ := seekLoop_accept hP hl hpos hsplit hkey hle hlater hland 15
    hcount (by rw [hown]) (fun i hi => (hothers i hi).2) hseek hdemuxer
  have hindex : (decide (s ≥ r.streamCount) || !(r.infos s).isStreamEnabled) = false := by
    have hlt : s < r.streamCount := hcount ▸ hP.lt
    simp [hown, hlt]
  unfold seek
  rw [Proc.get_bind_apply, if_neg (by rw [hindex]; exact Bool.false_ne_true)]
  rw [if_neg (by rw [hown]; exact Bool.false_ne_true), hmin]
  dsimp only
  rw [Proc.bind_ok hloop]
  exact ⟨_, rfl, hstream, hholds⟩

/-- `request_seek` and `do_seek` leave the stream at the last key packet at or before the
position, with a flushed decoder. -/
theorem requestSeek_doSeek (hP : DemuxerQueue.Seekable P s l) (hl : FrameTrack l) (hpos : 0 ≤ pos)
    (hsplit : l = front ++ key :: rest) (hkey : key.isKeyFrame = true) (hle : key.pts ≤ pos)
    (hlater : ∀ p ∈ rest, p.isKeyFrame = true → pos < p.pts)
    (hland : DemuxerQueue.LandsOnLastKey P s l pos ∨ Fits front)
    {r : StreamReader (DemuxerQueue π) κ} (h : r.Settled P s) :
    ∃ r₁ r', requestSeek (DemuxerQueue.toIDemuxer P) C s pos none r = (.ok (), r₁) ∧
      doSeek (DemuxerQueue.toIDemuxer P) s r₁ = (.ok (), r') ∧
      r'.streams s = { sought key (flushed C pos (r.streams s)) with bufferedData := none } ∧
      r'.demuxer.Holds s rest := by
  generalize hr₁ : (r.setStream s (flushed C pos (r.streams s))).setInfo s
    ⟨true, pos, [s], false⟩ = r₁
  have hstream₁ : r₁.streams s = flushed C pos (r.streams s) := by
    rw [← hr₁]
    simp [setInfo]
  have hothers₁ : ∀ i, i ≠ s → (r₁.infos i).isStreamEnabled = false ∧
      (r₁.infos i).seekResultCheckers = [] := by
    intro i hi
    rw [← hr₁]
    simpa [setInfo, hi] using h.others i hi
  obtain ⟨r₂, hseek, hstream₂, hholds⟩ := seek_eq hP hl hpos hsplit hkey hle hlater hland
    (r := r₁) (by rw [← hr₁]; exact h.count) (by rw [← hr₁]; simp [setInfo]) hothers₁
    (by rw [hstream₁]; rfl) (by rw [← hr₁]; exact h.demuxer)
  refine ⟨r₁, r₂.setStream s { r₂.streams s with bufferedData := none }, ?_, ?_, ?_, hholds⟩
  · rw [requestSeek_eq h.hasReader hP.video h.own, hr₁]
  · have hreader : (r₁.streams s).hasReader = true := by
      rw [hstream₁]
      exact h.hasReader
    unfold doSeek
    rw [Proc.get_bind_apply, hreader]
    show (seek (DemuxerQueue.toIDemuxer P) s >>= _) r₁ = _
    rw [Proc.bind_ok hseek]
    rfl
  · rw [streams_setStream, hstream₂, hstream₁]

end Seekira.Model.StreamReader
