import Seekira.Analysis.DemuxerDelivery
import Seekira.Analysis.FrameTrack

/-!
# Where a seek of the demuxer lands

After a seek the demuxer fills the queue of its stream until the queue holds two
key packets.  Every key packet at or before the seek time empties the queue, so what
the queue holds in the end starts at the last of them, provided that the parser had
landed at or before it and that the queue did not overflow on the way.  When the
parser lands later, or does not return, the demuxer tries again from an earlier time.
-/

set_option autoImplicit false

namespace Seekira.Model

/-- A packet as a demuxer returns it for a frame: its pts is known, its duration and its size are
positive. -/
structure DataPacket.Plain (p : DataPacket) : Prop where
  pts : p.pts ≠ avNoPtsValue
  duration : 0 < p.duration
  size : 0 < p.size

/-- The packets can all be queued without the queue being full. -/
def Fits (ps : List DataPacket) : Prop :=
  ps.length ≤ PacketQueue.maxPackets ∧ (ps.map DataPacket.size).sum ≤ PacketQueue.maxSize

instance (ps : List DataPacket) : Decidable (Fits ps) := inferInstanceAs (Decidable (_ ∧ _))

/-- Parts of packets that fit do so as well. -/
theorem Fits.of_append {ps qs : List DataPacket} (h : Fits (ps ++ qs))
    (hplain : ∀ p ∈ ps ++ qs, p.Plain) : Fits ps ∧ Fits qs := by
  obtain ⟨hlen, hsize⟩ := h
  have hnonneg : ∀ ts : List DataPacket, (∀ p ∈ ts, p ∈ ps ++ qs) →
      0 ≤ (ts.map DataPacket.size).sum := by
    intro ts hts
    apply List.sum_nonneg
    intro n hn
    obtain ⟨p, hp, rfl⟩ := List.mem_map.mp hn
    exact Int.le_of_lt (hplain p (hts p hp)).size
  have hps := hnonneg ps fun p hp => List.mem_append_left _ hp
  have hqs := hnonneg qs fun p hp => List.mem_append_right _ hp
  rw [List.length_append] at hlen
  rw [List.map_append, List.sum_append] at hsize
  exact ⟨⟨by omega, by omega⟩, ⟨by omega, by omega⟩⟩

theorem Fits.suffix {ps qs : List DataPacket} (h : Fits ps) (hq : qs <:+ ps)
    (hplain : ∀ p ∈ ps, p.Plain) : Fits qs := by
  obtain ⟨front, rfl⟩ := hq
  exact (h.of_append hplain).2

namespace PacketQueue

/-- A queue whose packets fit is not full. -/
theorem Counted.not_full_of_fits {q : PacketQueue} (h : q.Counted) (hf : Fits q.list) :
    q.isFull = false := by
  obtain ⟨hlen, hsize⟩ := hf
  rw [← h.size] at hsize
  simp [isFull, hlen, hsize]

/-- The packets of a queue that is not full fit. -/
theorem Counted.fits {q : PacketQueue} (h : q.Counted) (hfree : q.isFull = false) : Fits q.list := by
  unfold isFull at hfree
  simp only [Bool.or_eq_false_iff, decide_eq_false_iff_not, Nat.not_lt, Int.not_lt] at hfree
  exact ⟨hfree.1, by rw [← h.size]; exact hfree.2⟩

/-- The position of a queue is the pts of its first packet. -/
theorem Counted.position_eq {q : PacketQueue} (h : q.Counted) {p : DataPacket}
    {rest : List DataPacket} (hq : q.list = p :: rest) (hplain : ∀ p ∈ q.list, p.Plain) :
    q.position = p.pts := by
  have hp : p.Plain := hplain p (by simp [hq])
  have hrest : 0 ≤ (rest.map DataPacket.size).sum := by
    apply List.sum_nonneg
    intro n hn
    obtain ⟨p', hp', rfl⟩ := List.mem_map.mp hn
    exact Int.le_of_lt (hplain p' (by simp [hq, hp'])).size
  have hsize := h.size
  rw [hq, List.map_cons, List.sum_cons] at hsize
  have hpos : ¬q.currentSize ≤ 0 := by
    have hp' := hp.size
    omega
  have hpts : p.ptsOrDts = p.pts := by simp [DataPacket.ptsOrDts, hp.pts]
  unfold position
  rw [if_neg hpos, hq, List.find?_cons_of_pos (by simpa [hpts] using hp.pts)]
  exact hpts

theorem Counted.position_nil {q : PacketQueue} (h : q.Counted) (hq : q.list = []) :
    q.position = avNoPtsValue := by
  have hsize := h.size
  rw [hq] at hsize
  simp [position, hsize]

end PacketQueue

namespace DemuxerQueue

variable {π : Type} {P : ParserOps π} {s : StreamId} {pos : TimestampFF}

/-- At the end of the file the packets that are still to be read fit into the queue. -/
theorem Holds.fits {d : DemuxerQueue π} {ps : List DataPacket} (h : d.Holds s ps)
    (heof : d.eofIsReached = true) : Fits ps := by
  obtain ⟨hahead, hfree⟩ := h.eof heof
  have hpackets := h.packets
  rw [hahead] at hpackets
  rw [← hpackets]
  simpa [ofStream] using (h.tidy.counted s).fits hfree

/-- A plain packet resets the queue when it is a key packet at or before the position. -/
theorem resetsQueue_plain {p : DataPacket} (h : p.Plain) :
    resetsQueue pos p = (p.isKeyFrame && decide (p.pts ≤ pos)) := by
  unfold resetsQueue
  rw [if_pos h.pts]
  simp [h.duration]

/-! ## Loading the queue -/

/-- What is queued is the end of what came. -/
theorem acceptAll_suffix (queued ps : List DataPacket) :
    acceptAll pos queued ps <:+ queued ++ ps := by
  induction ps generalizing queued with
  | nil => simp [acceptAll]
  | cons p ps ih =>
    unfold acceptAll
    split
    · exact (ih [p]).trans ⟨queued, by simp⟩
    · simpa using ih (queued ++ [p])

theorem acceptAll_ne_nil {queued ps : List DataPacket} (h : ps ≠ []) :
    acceptAll pos queued ps ≠ [] := by
  have hkeep : ∀ (ps queued : List DataPacket), queued ≠ [] → acceptAll pos queued ps ≠ [] := by
    intro ps
    induction ps with
    | nil => exact fun _ h => h
    | cons p ps ih =>
      intro queued _
      unfold acceptAll
      split <;> exact ih _ (by simp)
  rcases ps with _ | ⟨p, ps⟩
  · exact absurd rfl h
  · unfold acceptAll
    split <;> exact hkeep _ _ (by simp)

/-- While every key packet empties the queue, the queue holds one key packet at most. -/
theorem keys_acceptAll {ps queued : List DataPacket}
    (h : ∀ p ∈ ps, p.isKeyFrame = true → resetsQueue pos p = true)
    (hq : (queued.filter DataPacket.isKeyFrame).length ≤ 1) :
    ((acceptAll pos queued ps).filter DataPacket.isKeyFrame).length ≤ 1 := by
  induction ps generalizing queued with
  | nil => exact hq
  | cons p ps ih =>
    unfold acceptAll
    apply ih fun q hq => h q (List.mem_cons_of_mem _ hq)
    split
    · exact (List.length_filter_le _ _).trans (by simp)
    · rename_i hr
      have hkey : ¬p.isKeyFrame = true := fun hkey => hr (h p (by simp) hkey)
      simpa [List.filter_append, hkey] using hq

/-- What the queue holds after the wanted key packet was accepted. -/
theorem acceptAll_of_key {queued mid rest : List DataPacket} {key : DataPacket}
    (hkey : resetsQueue pos key = true) (hrest : ∀ p ∈ rest, resetsQueue pos p = false) :
    acceptAll pos queued (mid ++ key :: rest) = key :: rest := by
  rw [acceptAll_append]
  unfold acceptAll
  rw [if_pos hkey, acceptAll_of_none hrest]
  rfl

/-- The packets that a seek has found run over the wanted key packet, and those before it fit the
queue. -/
structure Reaches (pos : TimestampFF) (mid : List DataPacket) (key : DataPacket)
    (rest : List DataPacket) : Prop where
  plain : ∀ p ∈ mid ++ key :: rest, p.Plain
  before : ∀ p ∈ mid, p.pts ≤ pos
  isKey : key.isKeyFrame = true
  atOrBefore : key.pts ≤ pos
  later : ∀ p ∈ rest, p.isKeyFrame = true → pos < p.pts
  fits : Fits mid

namespace Reaches

variable {mid rest : List DataPacket} {key : DataPacket}

theorem resets_key (h : Reaches pos mid key rest) : resetsQueue pos key = true := by
  rw [resetsQueue_plain (h.plain key (by simp))]
  simp [h.isKey, h.atOrBefore]

/-- The packets behind it do not. -/
theorem resets_rest (h : Reaches pos mid key rest) : ∀ p ∈ rest, resetsQueue pos p = false := by
  intro p hp
  rw [resetsQueue_plain (h.plain p (by simp [hp]))]
  rcases hkey : p.isKeyFrame with _ | _
  · rfl
  · have hlt := h.later p hp hkey
    simpa using hlt

theorem resets_mid (h : Reaches pos mid key rest) :
    ∀ p ∈ mid, p.isKeyFrame = true → resetsQueue pos p = true := by
  intro p hp hkey
  rw [resetsQueue_plain (h.plain p (by simp [hp]))]
  simp [hkey, h.before p hp]

/-- A prefix of the found packets stops before the key packet or runs over it. -/
theorem prefix_cases {taken ahead : List DataPacket} (ht : mid ++ key :: rest = taken ++ ahead) :
    (∃ more, mid = taken ++ more) ∨ ∃ gop, taken = mid ++ key :: gop ∧ rest = gop ++ ahead := by
  rcases List.append_eq_append_iff.mp ht with ⟨gop, hgop, hahead⟩ | ⟨more, hmid, -⟩
  · rcases gop with _ | ⟨q, gop⟩
    · exact .inl ⟨[], by simpa using hgop.symm⟩
    · obtain ⟨rfl, hrest⟩ := List.cons.inj hahead
      exact .inr ⟨gop, hgop, hrest⟩
  · exact .inl ⟨more, hmid⟩

end Reaches

/-- The demuxer right after the parser has landed: the queues are empty. -/
structure Landed (s : StreamId) (pos : TimestampFF) (found : List DataPacket)
    (d : DemuxerQueue π) : Prop where
  tidy : d.Tidy s
  queue : (d.queues s).list = []
  eof : d.eofIsReached = false
  seekTime : d.seekTime = pos
  found : ofStream s d.ahead = found

/-- The test of the queue's position after a seek. -/
theorem Tidy.checkStreamsPosition_eq {d : DemuxerQueue π} (h : d.Tidy s) (hs : s < P.streamCount)
    (maxPos : TimestampFF) :
    checkStreamsPosition P maxPos d =
      ((d.queues s).position ≠ avNoPtsValue && decide ((d.queues s).position ≤ maxPos)) := by
  refine (all_streams hs fun i hi => ?_).trans ?_
  · simp [h.enabled, hi]
  · simp [h.enabled, h.canBeEmpty]

/-- A seek is done when the queue of the stream stands at or before the position. -/
theorem Tidy.seekIsDone_eq {d : DemuxerQueue π} (h : d.Tidy s) (hs : s < P.streamCount)
    (hv : P.streamType s = .video) :
    seekIsDone P d =
      ((d.queues s).position ≠ avNoPtsValue && decide ((d.queues s).position ≤ d.seekTime)) := by
  refine (all_streams hs fun i hi => ?_).trans ?_
  · simp [h.enabled, hi]
  · simp [h.enabled, hv]

/-- The queue's position after a first fill: known, and that of a packet at or before the
seek time. -/
theorem position_of_reaches {mid rest : List DataPacket}
    {key : DataPacket} {d : DemuxerQueue π} (hr : Reaches pos mid key rest)
    (h : Landed s pos (mid ++ key :: rest) d) {taken : List DataPacket} {d' : DemuxerQueue π}
    {km : Bool} (ht : Takes s d taken d') (hfilled : Filled s km d') :
    (d'.queues s).position ≠ avNoPtsValue ∧ (d'.queues s).position ≤ pos := by
  have hlist := ht.list
  rw [h.queue, h.seekTime] at hlist
  have hsplit := h.found.symm.trans ht.ahead
  have hne : (d'.queues s).list ≠ [] := by
    intro hnil
    rcases hfilled with ha | hfull | hwants
    · rw [ha] at hsplit
      rw [hnil] at hlist
      have htaken : taken ≠ [] := by
        intro htaken
        simp [htaken, ofStream] at hsplit
      exact acceptAll_ne_nil htaken hlist.symm
    · rw [(ht.tidy.counted s).not_full_of_nil hnil] at hfull
      cases hfull
    · simp [wants, PacketQueue.size, hnil] at hwants
  obtain ⟨first, tail, hfirst⟩ := List.exists_cons_of_ne_nil hne
  have hmem : ∀ p ∈ (d'.queues s).list, p ∈ taken := by
    intro p hp
    rw [hlist] at hp
    simpa using (acceptAll_suffix [] taken).subset hp
  have hplain : ∀ p ∈ (d'.queues s).list, p.Plain := by
    intro p hp
    apply hr.plain
    rw [hsplit]
    exact List.mem_append_left _ (hmem p hp)
  have hpos := (ht.tidy.counted s).position_eq hfirst hplain
  rw [hpos]
  refine ⟨(hplain first (by simp [hfirst])).pts, ?_⟩
  rcases Reaches.prefix_cases hsplit with ⟨more, hmid⟩ | ⟨gop, hgop, hrest⟩
  · apply hr.before
    rw [hmid]
    exact List.mem_append_left _ (hmem first (by simp [hfirst]))
  · have hkey : (d'.queues s).list = key :: gop := by
      rw [hlist, hgop]
      exact acceptAll_of_key hr.resets_key fun p hp => hr.resets_rest p (by simp [hrest, hp])
    rw [hfirst] at hkey
    obtain ⟨rfl, -⟩ := List.cons.inj hkey
    exact hr.atOrBefore

/-- Filling up to two key packets runs over the wanted one. -/
theorem holds_of_reaches {mid rest : List DataPacket} {key : DataPacket} {d : DemuxerQueue π}
    (hr : Reaches pos mid key rest) (h : Landed s pos (mid ++ key :: rest) d)
    {taken : List DataPacket} {d' : DemuxerQueue π} (ht : Takes s d taken d')
    (hfilled : Filled s true d') (heof : d'.AtEnd s) :
    d'.Holds s (key :: rest) := by
  have hlist := ht.list
  rw [h.queue, h.seekTime] at hlist
  have hsplit := h.found.symm.trans ht.ahead
  rcases Reaches.prefix_cases hsplit with ⟨more, hmid⟩ | ⟨gop, hgop, hrest⟩
  · exfalso
    have hsuffix : (d'.queues s).list <:+ taken := by
      rw [hlist]
      exact acceptAll_suffix [] taken
    have hplain : ∀ p ∈ taken, p.Plain := by
      intro p hp
      exact hr.plain p (by simp [hmid, hp])
    rcases hfilled with ha | hfull | hwants
    · rw [ha, hmid] at hsplit
      simp [ofStream] at hsplit
    · have hmidPlain : ∀ p ∈ taken ++ more, p.Plain := by
        intro p hp
        exact hr.plain p (List.mem_append_left _ (hmid ▸ hp))
      have htaken : Fits taken := ((hmid ▸ hr.fits).of_append hmidPlain).1
      rw [(ht.tidy.counted s).not_full_of_fits (htaken.suffix hsuffix hplain)] at hfull
      cases hfull
    · have hone : ((d'.queues s).list.filter DataPacket.isKeyFrame).length ≤ 1 := by
        rw [hlist]
        exact keys_acceptAll (fun p hp => hr.resets_mid p (by simp [hmid, hp])) (by simp)
      have hkeys := (ht.tidy.counted s).keys
      simp only [wants, Bool.true_and, Bool.or_eq_false_iff, decide_eq_false_iff_not] at hwants
      omega
  · have hkey : (d'.queues s).list = key :: gop := by
      rw [hlist, hgop]
      exact acceptAll_of_key hr.resets_key fun p hp => hr.resets_rest p (by simp [hrest, hp])
    refine ⟨ht.tidy, heof, by rw [hkey, hrest]; rfl, fun p hp => ?_, ?_⟩
    · exact Int.le_of_lt (hr.plain p (List.mem_append_right _ hp)).size
    intro p hp
    rw [ht.seekTime, h.seekTime]
    exact hr.resets_rest p hp

/-- Packets that all lie beyond the seek time leave the queue's position there too. -/
theorem position_of_beyond {found : List DataPacket} {d : DemuxerQueue π}
    (hplain : ∀ p ∈ found, p.Plain) (hbeyond : ∀ p ∈ found, pos < p.pts)
    (h : Landed s pos found d) {taken : List DataPacket} {d' : DemuxerQueue π}
    (ht : Takes s d taken d') :
    ((d'.queues s).position ≠ avNoPtsValue && decide ((d'.queues s).position ≤ pos)) = false := by
  have hlist := ht.list
  rw [h.queue, h.seekTime] at hlist
  have hmem : ∀ p ∈ (d'.queues s).list, p ∈ found := by
    intro p hp
    rw [hlist] at hp
    have htaken : p ∈ taken := by simpa using (acceptAll_suffix [] taken).subset hp
    rw [← h.found, ht.ahead]
    exact List.mem_append_left _ htaken
  rcases hq : (d'.queues s).list with _ | ⟨first, tail⟩
  · simp [(ht.tidy.counted s).position_nil hq]
  · have hfirst : first ∈ found := hmem first (by simp [hq])
    rw [(ht.tidy.counted s).position_eq hq fun p hp => hplain p (hmem p hp)]
    have hlt := hbeyond first hfirst
    simp [hlt]

/-! ## One attempt -/

/-- What the parser may leave to be read when it returns from a seek: packets that run over the
wanted key packet, or only packets beyond the seek time. -/
inductive Finds (pos : TimestampFF) (key : DataPacket) (rest found : List DataPacket) : Prop
  | reaches (mid : List DataPacket) : found = mid ++ key :: rest → Reaches pos mid key rest →
      Finds pos key rest found
  | beyond : (∀ p ∈ found, p.Plain) → (∀ p ∈ found, pos < p.pts) → Finds pos key rest found

/-- After a seek of the parser the queue holds the packets from where it landed. -/
theorem landed_of_parserSeek {d : DemuxerQueue π} (h : d.OnlyStream s) {index : StreamId}
    {time : TimestampFF} {returned : Bool} {d' : DemuxerQueue π}
    (hd : d.resetQueue.parserSeek P index time = (returned, d')) :
    Landed s d.seekTime (ofStream s (P.seek index time d.ahead d.internal).2.1) d' ∧
      returned = (P.seek index time d.ahead d.internal).1 := by
  unfold parserSeek at hd
  cases hd
  refine ⟨⟨⟨⟨h.enabled, h.canBeEmpty⟩, fun i => PacketQueue.counted_reset _, fun _ _ => rfl⟩, rfl,
    rfl, rfl, rfl⟩, rfl⟩

/-- The state between two attempts: nothing is known but which stream is enabled. -/
structure Seeking (s : StreamId) (pos : TimestampFF) (d : DemuxerQueue π) : Prop
    extends OnlyStream s d where
  seekTime : d.seekTime = pos

/-- The first place that is tried is better than none. -/
theorem seekIsBetter_of_unknown {g : SeekProgress} (hg : ∀ i, g.seekPositions i = avNoPtsValue)
    (d : DemuxerQueue π) : seekIsBetter P g.seekPositions d = true := by
  unfold seekIsBetter
  rw [List.all_eq_true]
  intro i _
  simp [hg]

/-- The stream is one that `seek_internal` tries. -/
def Tried (P : ParserOps π) (idx : StreamId) : Prop :=
  P.streamType idx = .audio ∨ P.streamType idx = .video

/-- The fills of an attempt whose seek has returned. -/
def fillAfterSeek (P : ParserOps π) (d : DemuxerQueue π) : DemuxerQueue π :=
  if (d.fillQueue P false).2.checkStreamsPosition P (d.fillQueue P false).2.seekTime then
    ((d.fillQueue P false).2.fillQueue P true).2
  else (d.fillQueue P false).2

/-- An attempt whose seek did not return. -/
theorem seekStep_of_not_returned {idx : StreamId} (hidx : Tried P idx) {time : TimestampFF}
    {g : SeekProgress} {d : DemuxerQueue π} (h : d.Seeking s pos)
    (hret : (P.seek idx time d.ahead d.internal).1 = false) :
    ∃ g' d', seekStep P time idx g d = (false, g', d') ∧ g'.bestIndex.isSome ∧
      g'.seekPositions = g.seekPositions ∧ d'.Seeking s pos := by
  have hav : ¬(P.streamType idx ≠ .audio && P.streamType idx ≠ .video) = true := by
    rcases hidx with hidx | hidx <;> simp [hidx]
  rcases hd : d.resetQueue.parserSeek P idx time with ⟨returned, d'⟩
  obtain ⟨hlanded, hreturned⟩ := landed_of_parserSeek h.toOnlyStream hd
  unfold seekStep
  rw [if_neg hav]
  dsimp only
  rw [hd]
  dsimp only
  rw [if_pos (by simp [hreturned, hret])]
  exact ⟨_, _, rfl, rfl, rfl, ⟨hlanded.tidy.toOnlyStream, hlanded.seekTime.trans h.seekTime⟩⟩

/-- An attempt whose seek returned. -/
theorem seekStep_of_returned {idx : StreamId} (hidx : Tried P idx) {time : TimestampFF}
    {g : SeekProgress} (hg : ∀ i, g.seekPositions i = avNoPtsValue) {d : DemuxerQueue π}
    (h : d.Seeking s pos) (hret : (P.seek idx time d.ahead d.internal).1 = true) :
    ∃ g' d', Landed s pos (ofStream s (P.seek idx time d.ahead d.internal).2.1) d' ∧
      g'.bestIndex.isSome ∧
      seekStep P time idx g d = (seekIsDone P (fillAfterSeek P d'), g', fillAfterSeek P d') := by
  have hav : ¬(P.streamType idx ≠ .audio && P.streamType idx ≠ .video) = true := by
    rcases hidx with hidx | hidx <;> simp [hidx]
  rcases hd : d.resetQueue.parserSeek P idx time with ⟨returned, d'⟩
  obtain ⟨hlanded, hreturned⟩ := landed_of_parserSeek h.toOnlyStream hd
  rw [h.seekTime] at hlanded
  unfold seekStep
  rw [if_neg hav]
  dsimp only
  rw [hd]
  dsimp only
  rw [if_neg (by simp [hreturned, hret])]
  rw [if_pos (seekIsBetter_of_unknown hg _)]
  exact ⟨_, d', hlanded, rfl, rfl⟩

/-- The attempt succeeds when the parser has landed at or before the wanted key packet. -/
theorem fillAfterSeek_of_reaches (hs : s < P.streamCount) (hv : P.streamType s = .video)
    {mid rest : List DataPacket} {key : DataPacket} {d : DemuxerQueue π}
    (hr : Reaches pos mid key rest) (h : Landed s pos (mid ++ key :: rest) d) :
    seekIsDone P (fillAfterSeek P d) = true ∧ (fillAfterSeek P d).Holds s (key :: rest) ∧
      (fillAfterSeek P d).seekTime = pos := by
  have heof : d.AtEnd s := by
    intro he
    rw [h.eof] at he
    cases he
  obtain ⟨taken, ht, hfilled, heof₁⟩ := takes_fillQueue hs false h.tidy heof
  obtain ⟨hknown, hle⟩ := position_of_reaches hr h ht hfilled
  have hcheck : (d.fillQueue P false).2.checkStreamsPosition P (d.fillQueue P false).2.seekTime =
      true := by
    rw [ht.tidy.checkStreamsPosition_eq hs, ht.seekTime, h.seekTime]
    simp [hknown, hle]
  obtain ⟨more, hm, hfilled₂, heof₂⟩ := takes_fillQueue hs true ht.tidy heof₁
  have hall := ht.trans hm
  obtain ⟨hknown₂, hle₂⟩ := position_of_reaches hr h hall hfilled₂
  unfold fillAfterSeek
  rw [if_pos hcheck]
  refine ⟨?_, holds_of_reaches hr h hall hfilled₂ heof₂, hall.seekTime.trans h.seekTime⟩
  rw [hall.tidy.seekIsDone_eq hs hv, hall.seekTime, h.seekTime]
  simp [hknown₂, hle₂]

/-- It fails when the parser has landed beyond the seek time. -/
theorem fillAfterSeek_of_beyond (hs : s < P.streamCount) (hv : P.streamType s = .video)
    {found : List DataPacket} {d : DemuxerQueue π} (hplain : ∀ p ∈ found, p.Plain)
    (hbeyond : ∀ p ∈ found, pos < p.pts) (h : Landed s pos found d) :
    seekIsDone P (fillAfterSeek P d) = false ∧ (fillAfterSeek P d).Seeking s pos := by
  have heof : d.AtEnd s := by
    intro he
    rw [h.eof] at he
    cases he
  obtain ⟨taken, ht, -, -⟩ := takes_fillQueue hs false h.tidy heof
  have hposition := position_of_beyond hplain hbeyond h ht
  have hcheck : ¬(d.fillQueue P false).2.checkStreamsPosition P
      (d.fillQueue P false).2.seekTime = true := by
    rw [ht.tidy.checkStreamsPosition_eq hs, ht.seekTime, h.seekTime, hposition]
    simp
  unfold fillAfterSeek
  rw [if_neg hcheck]
  refine ⟨?_, ⟨ht.tidy.toOnlyStream, ht.seekTime.trans h.seekTime⟩⟩
  rw [ht.tidy.seekIsDone_eq hs hv, ht.seekTime, h.seekTime, hposition]

/-! ## The retries -/

/-- What a seek of the parser to zero finds, whatever was read before: packets that run over the
wanted key packet. -/
structure FindsAtZero (P : ParserOps π) (s : StreamId) (pos : TimestampFF) (key : DataPacket)
    (rest : List DataPacket) : Prop where
  returns : ∀ ahead internal, (P.seek P.seekStream 0 ahead internal).1 = true
  zero : ∀ index ahead internal, (P.seek index 0 ahead internal).1 = true →
    ∃ mid, ofStream s (P.seek index 0 ahead internal).2.1 = mid ++ key :: rest ∧
      Reaches pos mid key rest

section Retries

variable {key : DataPacket} {rest : List DataPacket} (hs : s < P.streamCount)
  (hv : P.streamType s = .video) (htried : Tried P P.seekStream)
include hs hv htried

/-- The attempts at zero end with success at the seek stream at the latest. -/
theorem seekStreams_zero (h : FindsAtZero P s pos key rest) {indices : List StreamId}
    (hmem : P.seekStream ∈ indices) {g : SeekProgress}
    (hg : ∀ i, g.seekPositions i = avNoPtsValue) {d : DemuxerQueue π} (hd : d.Seeking s pos) :
    ∃ g' d', seekStreams P 0 indices g d = (true, g', d') ∧ d'.Holds s (key :: rest) := by
  induction indices generalizing g d with
  | nil => simp at hmem
  | cons idx indices ih =>
    unfold seekStreams
    by_cases hidx : Tried P idx
    · rcases hret : (P.seek idx 0 d.ahead d.internal).1 with _ | _
      · have hne : P.seekStream ≠ idx := by
          rintro rfl
          rw [h.returns] at hret
          cases hret
        obtain ⟨g', d', hstep, -, hpositions, hd'⟩ := seekStep_of_not_returned hidx (g := g) hd hret
        rw [hstep]
        exact ih ((List.mem_cons.mp hmem).resolve_left hne) (by simpa [hpositions] using hg) hd'
      · obtain ⟨mid, hfound, hreaches⟩ := h.zero idx d.ahead d.internal hret
        obtain ⟨g', d', hlanded, -, hstep⟩ := seekStep_of_returned hidx hg hd hret
        rw [hfound] at hlanded
        obtain ⟨hdone, hholds, -⟩ := fillAfterSeek_of_reaches hs hv hreaches hlanded
        rw [hstep, hdone]
        exact ⟨g', _, rfl, hholds⟩
    · have hne : P.seekStream ≠ idx := by
        rintro rfl
        exact hidx htried
      have hskip : seekStep P 0 idx g d = (false, g, d) := by
        unfold seekStep
        rw [if_pos (by simpa [Tried] using hidx)]
      rw [hskip]
      exact ih ((List.mem_cons.mp hmem).resolve_left hne) hg hd

/-- An attempt at a later time succeeds when its seek finds packets that run over the wanted key
packet. -/
theorem seekInternal_of_reaches {time : TimestampFF} (htime : 0 < time) {d : DemuxerQueue π}
    (hd : d.Seeking s pos) (hret : (P.seek P.seekStream time d.ahead d.internal).1 = true)
    {mid : List DataPacket}
    (hfound : ofStream s (P.seek P.seekStream time d.ahead d.internal).2.1 = mid ++ key :: rest)
    (hreaches : Reaches pos mid key rest) :
    ∃ d', seekInternal P time d = (.ok true, d') ∧ d'.Holds s (key :: rest) ∧
      d'.Seeking s pos := by
  obtain ⟨g', d', hlanded, -, hstep⟩ := seekStep_of_returned htried
    (g := ⟨fun _ => avNoPtsValue, none, 0⟩) (fun _ => rfl) hd hret
  rw [hfound] at hlanded
  obtain ⟨hdone, hholds, hseek⟩ := fillAfterSeek_of_reaches hs hv hreaches hlanded
  unfold seekInternal
  dsimp only
  rw [if_pos htime]
  unfold seekStreams
  rw [hstep, hdone]
  exact ⟨_, rfl, hholds, ⟨hholds.tidy.toOnlyStream, hseek⟩⟩

/-- An attempt at a later time succeeds, or leaves the demuxer ready for the next. -/
theorem seekInternal_later {time : TimestampFF} (htime : 0 < time) {d : DemuxerQueue π}
    (hd : d.Seeking s pos)
    (hfinds : (P.seek P.seekStream time d.ahead d.internal).1 = true →
      Finds pos key rest (ofStream s (P.seek P.seekStream time d.ahead d.internal).2.1)) :
    ∃ res d', seekInternal P time d = (.ok res, d') ∧
      (res = true → d'.Holds s (key :: rest)) ∧ d'.Seeking s pos := by
  have hne : ¬time = 0 := Int.ne_of_gt htime
  rcases hret : (P.seek P.seekStream time d.ahead d.internal).1 with _ | _
  · obtain ⟨g', d', hstep, hbest, -, hd'⟩ := seekStep_of_not_returned htried
      (g := ⟨fun _ => avNoPtsValue, none, 0⟩) hd hret
    obtain ⟨best, hbest⟩ := Option.isSome_iff_exists.mp hbest
    refine ⟨false, d', ?_, by simp, hd'⟩
    unfold seekInternal
    dsimp only
    rw [if_pos htime]
    unfold seekStreams
    rw [hstep]
    simp only [seekStreams, hbest, hne, if_false]
  · rcases hfinds hret with ⟨mid, hfound, hreaches⟩ | ⟨hplain, hbeyond⟩
    · obtain ⟨d', hinternal, hholds, hd'⟩ :=
        seekInternal_of_reaches hs hv htried htime hd hret hfound hreaches
      exact ⟨true, d', hinternal, fun _ => hholds, hd'⟩
    · obtain ⟨g', d', hlanded, hbest, hstep⟩ := seekStep_of_returned htried
        (g := ⟨fun _ => avNoPtsValue, none, 0⟩) (fun _ => rfl) hd hret
      obtain ⟨best, hbest⟩ := Option.isSome_iff_exists.mp hbest
      obtain ⟨hdone, hseeking⟩ := fillAfterSeek_of_beyond hs hv hplain hbeyond hlanded
      refine ⟨false, _, ?_, by simp, hseeking⟩
      unfold seekInternal
      dsimp only
      rw [if_pos htime]
      unfold seekStreams
      rw [hstep, hdone]
      simp only [seekStreams, hbest, hne, if_false]

/-- A search from the start of the file ends at the last key packet. -/
theorem seekInternal_zero (hlt : P.seekStream < P.streamCount)
    (h : FindsAtZero P s pos key rest) {d : DemuxerQueue π} (hd : d.Seeking s pos) :
    ∃ d', seekInternal P 0 d = (.ok true, d') ∧ d'.Holds s (key :: rest) := by
  have hmem : P.seekStream ∈ streams P := List.mem_range.mpr hlt
  obtain ⟨g', d', hstreams, hholds⟩ := seekStreams_zero hs hv htried h hmem
    (g := ⟨fun _ => avNoPtsValue, none, 0⟩) (fun _ => rfl) hd
  unfold seekInternal
  dsimp only
  rw [if_neg (by simp), hstreams]
  exact ⟨d', rfl, hholds⟩

/-- The retries go down to zero at the latest, where the seek succeeds. -/
theorem seekLoop_reaches (hlt : P.seekStream < P.streamCount)
    (h : FindsAtZero P s pos key rest)
    (hlater : ∀ time ahead internal, 0 < time → (P.seek P.seekStream time ahead internal).1 = true →
      Finds pos key rest (ofStream s (P.seek P.seekStream time ahead internal).2.1))
    (fuel : Nat) {time : TimestampFF} {step : TimeFF}
    (hnonneg : 0 ≤ time) (hfuel : time.toNat < fuel) (hstep : 0 < step) {d : DemuxerQueue π}
    (hd : d.Seeking s pos) :
    ∃ time' d', seekLoop P fuel time step d = (.ok time', d') ∧ 0 ≤ time' ∧ time' ≤ time ∧
      d'.Holds s (key :: rest) := by
  induction fuel generalizing time step d with
  | zero => omega
  | succ fuel ih =>
    unfold seekLoop
    rw [if_neg (Int.not_lt.mpr hnonneg)]
    by_cases hzero : time = 0
    · subst hzero
      obtain ⟨d', hinternal, hholds⟩ := seekInternal_zero hs hv htried hlt h hd
      rw [Library.Proc.bind_ok hinternal]
      exact ⟨0, d', rfl, Int.le_refl 0, Int.le_refl 0, hholds⟩
    · have hpos : 0 < time := by
        have hle := hnonneg
        lia
      obtain ⟨res, d', hinternal, hholds, hd'⟩ := seekInternal_later hs hv htried hpos hd
        (hlater time d.ahead d.internal hpos)
      rw [Library.Proc.bind_ok hinternal]
      rcases res with _ | _
      · have hnext : 0 ≤ (if time < step then 0 else time - step) ∧
            (if time < step then 0 else time - step) < time := by
          split <;> constructor <;> lia
        obtain ⟨time', d'', hloop, hle₀, hle, hholds'⟩ :=
          ih hnext.1 (by lia) (Int.mul_pos hstep (by decide : (0 : Int) < 2)) hd'
        refine ⟨time', d'', ?_, hle₀, Int.le_trans hle (Int.le_of_lt hnext.2), hholds'⟩
        simpa [hzero] using hloop
      · exact ⟨time, d', rfl, hnonneg, Int.le_refl _, hholds rfl⟩

end Retries

/-! ## Seeking in a file -/

/-- The packets from the last key packet at or before a position on. -/
def fromLastKey (pos : TimestampFF) : List DataPacket → List DataPacket
  | [] => []
  | p :: rest =>
    match fromLastKey pos rest with
    | [] => if p.isKeyFrame ∧ p.pts ≤ pos then p :: rest else []
    | found => found

theorem fromLastKey_eq_nil {ps : List DataPacket}
    (h : ∀ p ∈ ps, p.isKeyFrame = true → pos < p.pts) : fromLastKey pos ps = [] := by
  induction ps with
  | nil => rfl
  | cons p ps ih =>
    unfold fromLastKey
    rw [ih fun q hq => h q (List.mem_cons_of_mem _ hq)]
    have hp : ¬(p.isKeyFrame = true ∧ p.pts ≤ pos) := fun hboth =>
      Int.not_le.mpr (h p (by simp) hboth.1) hboth.2
    simp [hp]

/-- The packets from the last key packet at or before the position. -/
theorem fromLastKey_eq {front rest : List DataPacket} {key : DataPacket}
    (hkey : key.isKeyFrame = true) (hle : key.pts ≤ pos)
    (hrest : ∀ p ∈ rest, p.isKeyFrame = true → pos < p.pts) :
    fromLastKey pos (front ++ key :: rest) = key :: rest := by
  induction front with
  | nil =>
    show fromLastKey pos (key :: rest) = key :: rest
    unfold fromLastKey
    rw [fromLastKey_eq_nil hrest]
    simp [hkey, hle]
  | cons p front ih =>
    show fromLastKey pos (p :: (front ++ key :: rest)) = key :: rest
    unfold fromLastKey
    rw [ih]

/-- What the parser's seeks do in a file whose packets of stream `s` are `l`: the seek to zero of
the seek stream returns, seeks to zero go to the beginning of the file, and others to some key
packet of the stream or to its end. -/
structure Seekable (P : ParserOps π) (s : StreamId) (l : List DataPacket) : Prop where
  lt : s < P.streamCount
  video : P.streamType s = .video
  seekStreamLt : P.seekStream < P.streamCount
  tried : Tried P P.seekStream
  returns : ∀ ahead internal, (P.seek P.seekStream 0 ahead internal).1 = true
  whole : ∀ index ahead internal, (P.seek index 0 ahead internal).1 = true →
    ofStream s (P.seek index 0 ahead internal).2.1 = l
  key : ∀ time ahead internal, 0 < time → (P.seek P.seekStream time ahead internal).1 = true →
    ∃ skipped, l = skipped ++ ofStream s (P.seek P.seekStream time ahead internal).2.1 ∧
      ∀ p ∈ (ofStream s (P.seek P.seekStream time ahead internal).2.1).head?, p.isKeyFrame = true

/-- The parser's seek to `pos` returns and goes to the last key packet at or before it. -/
def LandsOnLastKey (P : ParserOps π) (s : StreamId) (l : List DataPacket) (pos : TimestampFF) :
    Prop :=
  ∀ ahead internal, (P.seek P.seekStream pos ahead internal).1 = true ∧
    ofStream s (P.seek P.seekStream pos ahead internal).2.1 = fromLastKey pos l

end DemuxerQueue

theorem FrameTrack.plain {l : List DataPacket} (h : FrameTrack l) : ∀ p ∈ l, p.Plain := by
  intro p hp
  exact ⟨h.timed.known p hp, h.duration p hp, h.size p hp⟩

namespace DemuxerQueue

variable {π : Type} {P : ParserOps π} {s : StreamId} {pos : TimestampFF}
  {l before after front rest : List DataPacket} {target key : DataPacket}

/-- The packets before the key packet that a seek finds with it. -/
theorem reaches_of_suffix (hl : FrameTrack l) (hsplit : l = front ++ key :: rest)
    (hkey : key.isKeyFrame = true) (hle : key.pts ≤ pos)
    (hlater : ∀ p ∈ rest, p.isKeyFrame = true → pos < p.pts) {mid : List DataPacket}
    (hmid : mid <:+ front) (hfits : Fits mid) : Reaches pos mid key rest := by
  have hmem : ∀ p ∈ mid, p ∈ front := fun p hp => hmid.subset hp
  refine ⟨fun p hp => ?_, fun p hp => ?_, hkey, hle, hlater, hfits⟩
  · apply hl.plain
    rw [hsplit]
    rcases List.mem_append.mp hp with hp | hp
    · exact List.mem_append_left _ (hmem p hp)
    · exact List.mem_append_right _ hp
  · have hend := (hl.around hsplit).1 p (hmem p hp)
    have hdur := hl.duration p (by simp [hsplit, hmem p hp])
    lia

/-- The packets from some packet on run over the wanted key packet, or lie beyond the position. -/
theorem finds_of_skipped (hl : FrameTrack l) (hsplit : l = front ++ key :: rest)
    (hkey : key.isKeyFrame = true) (hle : key.pts ≤ pos)
    (hlater : ∀ p ∈ rest, p.isKeyFrame = true → pos < p.pts) (hfits : Fits front)
    {skipped found : List DataPacket} (hskip : l = skipped ++ found)
    (hhead : ∀ p ∈ found.head?, p.isKeyFrame = true) : Finds pos key rest found := by
  have hfront : ∀ p ∈ front, p.Plain := fun p hp => hl.plain p (by simp [hsplit, hp])
  rcases List.append_eq_append_iff.mp (hsplit.symm.trans hskip) with ⟨gop, hgop, hrest⟩ |
    ⟨mid, hmid, hrest⟩
  · rcases gop with _ | ⟨q, gop⟩
    · have hnil : ([] : List DataPacket) <:+ front := List.nil_suffix
      exact .reaches [] hrest.symm
        (reaches_of_suffix hl hsplit hkey hle hlater hnil (hfits.suffix hnil hfront))
    · obtain ⟨-, hrest⟩ := List.cons.inj hrest
      refine .beyond (fun p hp => hl.plain p (by simp [hskip, hp])) fun p hp => ?_
      rcases found with _ | ⟨first, found⟩
      · simp at hp
      · have hfirst := hlater first (by simp [hrest]) (hhead first rfl)
        rcases List.mem_cons.mp hp with rfl | hp
        · exact hfirst
        · have hnext := (hl.around hskip).2 p hp
          have hdur := hl.duration first (by simp [hskip])
          lia
  · have hsuffix : mid <:+ front := ⟨skipped, hmid.symm⟩
    exact .reaches mid hrest
      (reaches_of_suffix hl hsplit hkey hle hlater hsuffix (hfits.suffix hsuffix hfront))

/-- A seek leaves the last key packet at or before the position to be read first, when the parser
lands on it or when the packets before it fit the queue. -/
theorem seek_lands (hP : Seekable P s l) (hl : FrameTrack l) (hpos : 0 ≤ pos)
    (hsplit : l = front ++ key :: rest) (hkey : key.isKeyFrame = true) (hle : key.pts ≤ pos)
    (hlater : ∀ p ∈ rest, p.isKeyFrame = true → pos < p.pts)
    (hland : LandsOnLastKey P s l pos ∨ Fits front) {d : DemuxerQueue π} (hd : d.OnlyStream s) :
    ∃ time d', seek P pos d = (.ok time, d') ∧ 0 ≤ time ∧ time ≤ pos ∧
      d'.Holds s (key :: rest) := by
  have hseeking : Seeking s pos { d with seekTime := max 0 pos } :=
    ⟨⟨hd.enabled, hd.canBeEmpty⟩, Int.max_eq_right hpos⟩
  have hzero : Fits front → FindsAtZero P s pos key rest := by
    intro hfits
    refine ⟨hP.returns, fun index ahead internal hret => ⟨front, ?_, ?_⟩⟩
    · rw [hP.whole index ahead internal hret, hsplit]
    · exact reaches_of_suffix hl hsplit hkey hle hlater List.suffix_rfl hfits
  have hstart : seek P pos d =
      seekLoop P (pos.toNat + 1) pos (avSecond * 4) { d with seekTime := max 0 pos } := rfl
  rw [hstart]
  rcases Int.lt_or_eq_of_le hpos with hlt | rfl
  · rcases hland with hexact | hfits
    · -- the first attempt succeeds
      obtain ⟨hret, hfound⟩ := hexact d.ahead d.internal
      rw [hsplit, fromLastKey_eq hkey hle hlater] at hfound
      have hnil : ([] : List DataPacket) <:+ front := List.nil_suffix
      have hreaches := reaches_of_suffix hl hsplit hkey hle hlater hnil ⟨Nat.zero_le _, by decide⟩
      obtain ⟨d', hinternal, hholds, -⟩ := seekInternal_of_reaches hP.lt hP.video hP.tried hlt
        hseeking hret hfound hreaches
      refine ⟨pos, d', ?_, hpos, Int.le_refl _, hholds⟩
      unfold seekLoop
      rw [if_neg (Int.not_lt.mpr hpos), Library.Proc.bind_ok hinternal]
      rfl
    · refine seekLoop_reaches hP.lt hP.video hP.tried hP.seekStreamLt (hzero hfits)
        (fun time ahead internal htime hret => ?_) _ hpos (Nat.lt_succ_self _) (by decide) hseeking
      obtain ⟨skipped, hskip, hhead⟩ := hP.key time ahead internal htime hret
      exact finds_of_skipped hl hsplit hkey hle hlater hfits hskip hhead
  · -- nothing lies before a key packet at zero
    have hnil : front = [] := by
      rcases front with _ | ⟨q, front⟩
      · rfl
      · have hend := (hl.around hsplit).1 q (by simp)
        have hdur := hl.duration q (by simp [hsplit])
        have hq := hl.pts_nonneg q (by simp [hsplit])
        lia
    have hfits : Fits front := by
      rw [hnil]
      exact ⟨Nat.zero_le _, by decide⟩
    obtain ⟨d', hinternal, hholds⟩ := seekInternal_zero hP.lt hP.video hP.tried hP.seekStreamLt
      (hzero hfits) hseeking
    refine ⟨0, d', ?_, Int.le_refl 0, Int.le_refl 0, hholds⟩
    unfold seekLoop
    rw [if_neg (by decide), Library.Proc.bind_ok hinternal]
    rfl

end DemuxerQueue

end Seekira.Model
