import Seekira.Model.Parser

/-!
# The stream whose corrections a packet gets

`read_packet` looks the corrections up by the stream index of the packet it has
just released, which is zero.  A packet gets what its own stream prescribes exactly
when stream zero prescribes the same: the same shift of each timestamp, and no
generated timestamp pending where the packet has none of its own.
-/

set_option autoImplicit false

namespace Seekira.Model.ParserFF

/-- `read_packet` with the corrections of the packet's own stream. -/
def readPacketOfStream (m : ParserFF) : Option AVPacket × ParserFF :=
  match nextPacket m.ahead m with
  | (none, m) => (none, m)
  | (some pkt, m) =>
    let (packet, m) := m.prepare pkt
    let (packet, m) := m.correct pkt.streamIndex packet
    (some (m.markKey packet), m)

/-! ## What a stream prescribes -/

/-- The packets of the stream are corrected by chapters. -/
def UsesChapters (m : ParserFF) (stream : Int) : Prop :=
  (m.formatVRO = true ∨ m.formatVOB = true) ∧ (m.streams stream).codecType ≠ .data

instance (m : ParserFF) (stream : Int) : Decidable (m.UsesChapters stream) := by
  unfold UsesChapters
  infer_instance

/-- A timestamp after the MPEG-TS wrap. -/
def wrapped (m : ParserFF) (stream : Int) (t : TimestampFF) : TimestampFF :=
  if m.formatMpegTs then mpegTsTimeStampWrapAround (m.timeShift stream) t else t

/-- The time shift of the chapter that the packet belongs to. -/
def chapterShift (m : ParserFF) (packet : AVPacket) : TimeFF :=
  ((m.enterChapter packet).1.map ChapterVOB.timeShift).getD 0

/-- What the stream makes of a timestamp of the packet. -/
def corrected (m : ParserFF) (stream : Int) (packet : AVPacket) (t : TimestampFF) : TimestampFF :=
  if m.UsesChapters stream then
    if t ≠ avNoPtsValue then t + m.chapterShift packet else t
  else if (m.streams stream).startTime ≠ avNoPtsValue ∧ m.wrapped stream t ≠ avNoPtsValue then
    m.wrapped stream t - m.timeShift stream
  else m.wrapped stream t

/-- The generated timestamp that the stream gives to the packet; unknown when it gives none. -/
def pendingPts (m : ParserFF) (stream : Int) (packet : AVPacket) : TimestampFF :=
  if ¬m.UsesChapters stream ∧ (m.streams stream).startTime = avNoPtsValue ∧
      m.wrapped stream packet.pts = avNoPtsValue ∧ m.wrapped stream packet.dts = avNoPtsValue then
    m.genPts stream
  else avNoPtsValue

/-- The parser after the packet was corrected. -/
def afterCorrection (m : ParserFF) (stream : Int) (packet : AVPacket) : ParserFF :=
  if m.UsesChapters stream then (m.enterChapter packet).2
  else if m.pendingPts stream packet ≠ avNoPtsValue then
    { m with genPts := Function.update m.genPts stream avNoPtsValue }
  else m

/-- The wrap of both timestamps. -/
theorem wrap_packet_eq (m : ParserFF) (stream : Int) (packet : AVPacket) :
    (if m.formatMpegTs = true then
      { packet with
        pts := mpegTsTimeStampWrapAround (m.timeShift stream) packet.pts
        dts := mpegTsTimeStampWrapAround (m.timeShift stream) packet.dts }
      else packet) =
      { packet with pts := m.wrapped stream packet.pts, dts := m.wrapped stream packet.dts } := by
  unfold wrapped
  split <;> rfl

/-- The corrections in closed form. -/
theorem correct_eq (m : ParserFF) (stream : Int) (packet : AVPacket) :
    m.correct stream packet =
      ({ packet with
          pts :=
            if m.pendingPts stream packet ≠ avNoPtsValue then m.pendingPts stream packet
            else m.corrected stream packet packet.pts
          dts := m.corrected stream packet packet.dts },
        m.afterCorrection stream packet) := by
  by_cases hch : m.UsesChapters stream
  · have hbranch : ((m.formatVRO || m.formatVOB) &&
        decide ((m.streams stream).codecType ≠ .data)) = true := by
      simpa [UsesChapters] using hch
    unfold correct
    rw [if_pos hbranch]
    simp only [pendingPts, corrected, afterCorrection, hch, chapterShift]
    unfold correctByChapter
    rcases m.enterChapter packet with ⟨_ | c, m'⟩ <;> simp
  · have hbranch : ¬((m.formatVRO || m.formatVOB) &&
        decide ((m.streams stream).codecType ≠ .data)) = true := by
      simpa [UsesChapters] using hch
    unfold correct
    rw [if_neg hbranch]
    unfold correctByShift
    dsimp only
    rw [wrap_packet_eq]
    by_cases hstart : (m.streams stream).startTime = avNoPtsValue
    · have hnet : ∀ t, m.corrected stream packet t = m.wrapped stream t := by
        intro t
        simp [corrected, hch, hstart]
      rw [if_neg (by simpa using hstart), hnet, hnet]
      by_cases hknown : m.wrapped stream packet.pts = avNoPtsValue ∧
          m.wrapped stream packet.dts = avNoPtsValue
      · have hpending : m.pendingPts stream packet = m.genPts stream := by
          simp [pendingPts, hch, hstart, hknown]
        unfold afterCorrection
        rw [hpending, if_neg hch]
        by_cases hgen : m.genPts stream = avNoPtsValue
        · simp [hgen]
        · simp [hgen, hknown]
      · have hpending : m.pendingPts stream packet = avNoPtsValue := by
          unfold pendingPts
          rw [if_neg fun h => hknown h.2.2]
        unfold afterCorrection
        rw [hpending, if_neg hch, if_neg fun h => hknown ⟨h.1, h.2.1⟩]
        simp
    · have hpending : m.pendingPts stream packet = avNoPtsValue := by
        simp [pendingPts, hstart]
      unfold afterCorrection
      rw [if_pos hstart, hpending, if_neg hch]
      simp [corrected, hch, hstart]

/-! ## When two streams prescribe the same -/

/-- The two streams prescribe the same for the packet: each timestamp becomes the same, none has a
generated timestamp pending for it, and when only one of them goes by chapters, entering the
packet's chapter changes nothing. -/
structure SameCorrection (m : ParserFF) (a b : Int) (packet : AVPacket) : Prop where
  pts : m.corrected a packet packet.pts = m.corrected b packet packet.pts
  dts : m.corrected a packet packet.dts = m.corrected b packet packet.dts
  pendingLeft : m.pendingPts a packet = avNoPtsValue
  pendingRight : m.pendingPts b packet = avNoPtsValue
  chapters : (m.UsesChapters a ↔ m.UsesChapters b) ∨ (m.enterChapter packet).2 = m

theorem genPts_enterChapter (m : ParserFF) (packet : AVPacket) :
    (m.enterChapter packet).2.genPts = m.genPts := rfl

/-- A generated time that was used is gone. -/
theorem genPts_afterCorrection (m : ParserFF) (stream : Int) (packet : AVPacket) :
    (m.afterCorrection stream packet).genPts =
      if m.pendingPts stream packet ≠ avNoPtsValue then
        Function.update m.genPts stream avNoPtsValue
      else m.genPts := by
  unfold afterCorrection
  by_cases hch : m.UsesChapters stream
  · rw [if_pos hch, genPts_enterChapter]
    simp [pendingPts, hch]
  · rw [if_neg hch]
    split <;> rfl

/-- A pending timestamp is consumed from its own stream's entry. -/
theorem pendingPts_of_genPts_eq {m : ParserFF} {a b : Int} {packet : AVPacket} (hab : a ≠ b)
    (h : (m.afterCorrection a packet).genPts = (m.afterCorrection b packet).genPts) :
    m.pendingPts a packet = avNoPtsValue := by
  by_contra hne
  have hgen : m.genPts a ≠ avNoPtsValue := by
    intro hgen
    apply hne
    unfold pendingPts
    split
    · exact hgen
    · rfl
  have hentry := congrFun h a
  rw [genPts_afterCorrection, genPts_afterCorrection, if_pos hne] at hentry
  split at hentry
  · simp [Function.update_of_ne hab] at hentry
    exact hgen hentry.symm
  · simp at hentry
    exact hgen hentry.symm

/-- When the corrections as two streams leave the same tables. -/
theorem afterCorrection_eq_iff {m : ParserFF} {a b : Int} {packet : AVPacket} (hab : a ≠ b) :
    m.afterCorrection a packet = m.afterCorrection b packet ↔
      m.pendingPts a packet = avNoPtsValue ∧ m.pendingPts b packet = avNoPtsValue ∧
        ((m.UsesChapters a ↔ m.UsesChapters b) ∨ (m.enterChapter packet).2 = m) := by
  constructor
  · intro h
    have hgen := congrArg ParserFF.genPts h
    have ha := pendingPts_of_genPts_eq hab hgen
    have hb := pendingPts_of_genPts_eq hab.symm hgen.symm
    refine ⟨ha, hb, ?_⟩
    unfold afterCorrection at h
    by_cases hca : m.UsesChapters a <;> by_cases hcb : m.UsesChapters b <;>
      simp [hca, hcb, ha, hb] at h ⊢
    · exact h
    · exact h.symm
  · rintro ⟨ha, hb, hch⟩
    unfold afterCorrection
    by_cases hca : m.UsesChapters a <;> by_cases hcb : m.UsesChapters b <;>
      simp [hca, hcb, ha, hb] at hch ⊢
    · exact hch
    · exact hch.symm

/-- When the corrections as two streams are the same. -/
theorem correct_eq_iff {m : ParserFF} {a b : Int} {packet : AVPacket} (hab : a ≠ b) :
    m.correct a packet = m.correct b packet ↔ m.SameCorrection a b packet := by
  rw [correct_eq, correct_eq, Prod.mk.injEq, afterCorrection_eq_iff hab]
  constructor
  · rintro ⟨hpacket, ha, hb, hch⟩
    simp only [ha, hb, AVPacket.mk.injEq] at hpacket
    exact ⟨by simpa using hpacket.2.1, hpacket.2.2.1, ha, hb, hch⟩
  · rintro ⟨hpts, hdts, ha, hb, hch⟩
    exact ⟨by simp [ha, hb, hpts, hdts], ha, hb, hch⟩

/-! ## The packets read -/

@[simp] theorem pts_markKey (m : ParserFF) (packet : AVPacket) :
    (m.markKey packet).pts = packet.pts := by
  unfold markKey
  split <;> rfl

@[simp] theorem dts_markKey (m : ParserFF) (packet : AVPacket) :
    (m.markKey packet).dts = packet.dts := by
  unfold markKey
  split <;> rfl

/-- Two corrections of one packet that look the same after the key flag was set are the same. -/
theorem correct_eq_of_markKey {m : ParserFF} {a b : Int} {packet : AVPacket}
    (h : (some ((m.correct a packet).2.markKey (m.correct a packet).1), (m.correct a packet).2) =
      (some ((m.correct b packet).2.markKey (m.correct b packet).1), (m.correct b packet).2)) :
    m.correct a packet = m.correct b packet := by
  obtain ⟨hpacket, hstate⟩ := Prod.mk.inj h
  have hpacket := Option.some.inj hpacket
  have hpts := congrArg AVPacket.pts hpacket
  have hdts := congrArg AVPacket.dts hpacket
  rw [pts_markKey, pts_markKey] at hpts
  rw [dts_markKey, dts_markKey] at hdts
  refine Prod.ext ?_ hstate
  rw [correct_eq, correct_eq] at hpts hdts ⊢
  dsimp only at hpts hdts ⊢
  rw [hpts, hdts]

/-- A packet is read with the corrections of its own stream exactly when that is stream zero or
stream zero prescribes the same for it. -/
theorem readPacket_eq_iff (m : ParserFF) :
    m.readPacket = m.readPacketOfStream ↔
      ∀ pkt m', nextPacket m.ahead m = (some pkt, m') →
        pkt.streamIndex = 0 ∨
          (m'.prepare pkt).2.SameCorrection 0 pkt.streamIndex (m'.prepare pkt).1 := by
  unfold readPacket readPacketOfStream
  rcases nextPacket m.ahead m with ⟨_ | pkt, m'⟩
  · simp
  · have hindex : pkt.unref.streamIndex = 0 := rfl
    dsimp only
    rw [hindex]
    constructor
    · intro h pkt' m₁ heq
      cases heq
      by_cases hzero : pkt.streamIndex = 0
      · exact .inl hzero
      · exact .inr ((correct_eq_iff (Ne.symm hzero)).mp (correct_eq_of_markKey h))
    · intro h
      rcases h pkt m' rfl with hzero | hsame
      · rw [hzero]
      · by_cases hzero : pkt.streamIndex = 0
        · rw [hzero]
        · rw [(correct_eq_iff (Ne.symm hzero)).mpr hsame]

/-! ### Two streams with different time bases -/

/-- A video stream counting milliseconds and an audio stream counting samples. -/
def videoAndAudio (stream : Int) : AVStream :=
  if stream = 0 then ⟨.video, false, 1000, 60000, (1, 1000)⟩
  else ⟨.audio, false, 48000, 2880000, (1, 48000)⟩

/-- A container that starts at one second, opened, before an audio packet that starts there. -/
def audioNext : ParserFF :=
  (opened [⟨1, 48000, 48000, 1024, 10, 1⟩] videoAndAudio 1000000 2).detectTimeShift false []

/-- The audio packet is shifted by the milliseconds of the video stream. -/
theorem readPacket_ne_of_stream : ¬∀ m : ParserFF, m.readPacket = m.readPacketOfStream := by
  intro hall
  have hread : audioNext.readPacket.1.map AVPacket.pts = some 47000 := by decide +kernel
  have hown : audioNext.readPacketOfStream.1.map AVPacket.pts = some 0 := by decide +kernel
  rw [hall audioNext, hown] at hread
  cases hread

end Seekira.Model.ParserFF
