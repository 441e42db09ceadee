import Seekira.Analysis.ChapterLookup
import Seekira.Model.VobChapters

/-!
# The detection of chapters ends

Each round of the detection leaves the file at a packet that lies behind the one before:
the search reads forward, and when it has to start again it does so at a sample behind
the packets already read.  So the rounds are at most as many as the packets of the
stream, and the chapters written down follow one another through the file.
-/

set_option autoImplicit false

namespace Seekira.Model

open Library

variable {F : VobInput} {stream : Int} {packets : List PacketDesc}

/-- A file whose packets of the stream stand behind one another, with a position each, and in which
a seek leads to the first packet at or behind a byte. -/
structure Sequential (F : VobInput) (stream : Int) (packets : List PacketDesc) : Prop where
  seek : ∀ pos ≥ 0, F.seek stream pos = some (packets.filter fun p => pos ≤ p.pos)
  increasing : packets.Pairwise fun p q => p.pos < q.pos
  within : ∀ p ∈ packets, 0 ≤ p.pos ∧ p.pos ≤ F.size

/-- The packets of the stream have a time. -/
theorem pts_known_of_mem_ofStream {raw : List VobPacket} {p : PacketDesc}
    (h : p ∈ ofStream stream raw) : p.pts ≠ avNoPtsValue := by
  obtain ⟨pkt, -, hpkt⟩ := List.mem_filterMap.mp h
  split at hpkt
  · rename_i hknown
    obtain rfl := Option.some.inj hpkt
    exact hknown.1
  · cases hpkt

/-- A file of one stream in which seeks lead where they should. -/
def plainInput (size : Int) (packets : List PacketDesc) : VobInput where
  size := size
  seekByte pos := some ((packets.filter fun p => pos ≤ p.pos).map fun p =>
    { toPacketDesc := p, streamIndex := 0 })

/-- A file of one stream, whose packets stand behind one another. -/
theorem sequential_plainInput {size : Int} (hknown : ∀ p ∈ packets, p.pts ≠ avNoPtsValue)
    (hincreasing : packets.Pairwise fun p q => p.pos < q.pos)
    (hwithin : ∀ p ∈ packets, 0 ≤ p.pos ∧ p.pos ≤ size) :
    Sequential (plainInput size packets) 0 packets := by
  have hread : ∀ pkts : List PacketDesc, (∀ p ∈ pkts, p.pts ≠ avNoPtsValue) →
      ofStream 0 (pkts.map fun p => { toPacketDesc := p, streamIndex := 0 }) = pkts := by
    intro pkts
    induction pkts with
    | nil => exact fun _ => rfl
    | cons p pkts ih =>
      intro hpkts
      have hrest := ih fun q hq => hpkts q (List.mem_cons_of_mem p hq)
      rw [ofStream, List.map_cons, List.filterMap_cons]
      dsimp only
      rw [if_pos ⟨hpkts p List.mem_cons_self, rfl⟩]
      exact congrArg (p :: ·) hrest
  refine ⟨fun pos _ => ?_, hincreasing, hwithin⟩
  unfold VobInput.seek plainInput
  rw [Option.map_some, hread _ fun p hp => hknown p (List.mem_of_mem_filter hp)]

namespace Sequential

theorem seek_zero (hF : Sequential F stream packets) : F.seek stream 0 = some packets := by
  rw [hF.seek 0 le_rfl, List.filter_eq_self.mpr]
  intro p hp
  simpa using (hF.within p hp).1

theorem pts_known (hF : Sequential F stream packets) {p : PacketDesc} (hp : p ∈ packets) :
    p.pts ≠ avNoPtsValue := by
  obtain ⟨raw, -, rfl⟩ := Option.map_eq_some_iff.mp hF.seek_zero
  exact pts_known_of_mem_ofStream hp

end Sequential

/-! ## The packets ahead -/

/-- What is left to read: packets of the stream in their order, all behind `pos`. -/
structure Ahead (packets : List PacketDesc) (pos : Int) (reads : List PacketDesc) : Prop where
  increasing : reads.Pairwise fun p q => p.pos < q.pos
  mem : ∀ p ∈ reads, p ∈ packets
  behind : ∀ p ∈ reads, pos < p.pos

theorem Ahead.tail {pos : Int} {p : PacketDesc} {reads : List PacketDesc}
    (h : Ahead packets pos (p :: reads)) : Ahead packets p.pos reads :=
  { increasing := (List.pairwise_cons.mp h.increasing).2
    mem := fun q hq => h.mem q (List.mem_cons_of_mem p hq)
    behind := (List.pairwise_cons.mp h.increasing).1 }

theorem Ahead.drop {pos : Int} {reads : List PacketDesc} (h : Ahead packets pos reads) (n : Nat) :
    Ahead packets pos (reads.drop n) :=
  { increasing := h.increasing.sublist (List.drop_sublist n reads)
    mem := fun q hq => h.mem q (List.mem_of_mem_drop hq)
    behind := fun q hq => h.behind q (List.mem_of_mem_drop hq) }

/-- A seek finds the first packet at or behind a byte, with the rest ahead of it. -/
theorem Sequential.getTimeAtPosition (hF : Sequential F stream packets) {pos : Int} (hpos : 0 ≤ pos)
    (reads : List PacketDesc) :
    (F.getTimeAtPosition stream pos reads = (none, []) ∧ ∀ p ∈ packets, p.pos < pos) ∨
      ∃ p rest, F.getTimeAtPosition stream pos reads = (some (p.pts, p.pos), rest) ∧ p ∈ packets ∧
        pos ≤ p.pos ∧ Ahead packets p.pos rest ∧ ∀ q ∈ packets, pos ≤ q.pos → p.pos ≤ q.pos := by
  unfold VobInput.getTimeAtPosition
  rw [hF.seek pos hpos]
  have hkept := hF.increasing.filter fun p => decide (pos ≤ p.pos)
  cases hreads : packets.filter fun p => decide (pos ≤ p.pos) with
  | nil =>
    refine .inl ⟨rfl, fun p hp => ?_⟩
    simpa using List.filter_eq_nil_iff.mp hreads p hp
  | cons p rest =>
    rw [hreads] at hkept
    have hmem : ∀ q ∈ p :: rest, q ∈ packets ∧ pos ≤ q.pos := by
      intro q hq
      rw [← hreads] at hq
      simpa using List.mem_filter.mp hq
    obtain ⟨hp, hle⟩ := hmem p List.mem_cons_self
    obtain ⟨hfirst, hrest⟩ := List.pairwise_cons.mp hkept
    have hknown : ¬p.pos < 0 := not_lt.mpr (hpos.trans hle)
    refine .inr ⟨p, rest, by simp [hknown], hp, hle, ?_, fun q hq hposq => ?_⟩
    · exact ⟨hrest, fun q hq => (hmem q (List.mem_cons_of_mem p hq)).1, hfirst⟩
    · have hq : q ∈ p :: rest := by
        rw [← hreads]
        exact List.mem_filter.mpr ⟨hq, by simpa using hposq⟩
      rcases List.mem_cons.mp hq with rfl | hq
      · exact le_rfl
      · exact (hfirst q hq).le

/-! ## The search for an end -/

/-- The search has read on to a packet of the stream behind `pos`. -/
structure Advanced (packets : List PacketDesc) (pos : Int) (e : ChapterEnd)
    (reads : List PacketDesc) : Prop where
  known : e.newPts ≠ avNoPtsValue
  packet : ∃ p ∈ packets, p.pos = e.newPos
  behind : pos < e.newPos
  ahead : Ahead packets e.newPos reads

theorem Advanced.mono {pos pos' : Int} {e : ChapterEnd} {reads : List PacketDesc}
    (h : Advanced packets pos e reads) (hle : pos' ≤ pos) : Advanced packets pos' e reads :=
  { h with behind := hle.trans_lt h.behind }

/-- The smallest of known times is known. -/
theorem foldl_min_known {pkts : List PacketDesc} {pts : TimestampFF} (hpts : pts ≠ avNoPtsValue)
    (h : ∀ p ∈ pkts, p.pts ≠ avNoPtsValue) :
    pkts.foldl (fun pts p => min pts p.pts) pts ≠ avNoPtsValue := by
  induction pkts generalizing pts with
  | nil => exact hpts
  | cons p pkts ih =>
    refine ih ?_ fun q hq => h q (List.mem_cons_of_mem p hq)
    rcases min_choice pts p.pts with hmin | hmin
    · exact fun heq => hpts (hmin.symm.trans heq)
    · exact fun heq => h p List.mem_cons_self (hmin.symm.trans heq)

theorem placed_of_ahead (hF : Sequential F stream packets) {pos : Int} {p : PacketDesc}
    {reads : List PacketDesc} (h : Ahead packets pos (p :: reads)) (prev : PacketDesc) :
    ChapterEnd.placed prev p = p := by
  unfold ChapterEnd.placed
  rw [if_neg (not_lt.mpr (hF.within p (h.mem p List.mem_cons_self)).1)]

/-- The search either comes to the end of the file or reads on to a packet. -/
theorem findLoop_cases (hF : Sequential F stream packets) (startPos maxSize : Int)
    {reads : List PacketDesc} (prev last : PacketDesc) (e : ChapterEnd)
    (h : Ahead packets prev.pos reads) :
    (∃ e' rest, VobInput.findLoop startPos maxSize reads prev last e = ((true, e'), rest) ∧
      e'.newPts = avNoPtsValue) ∨
    ∃ found e' rest, VobInput.findLoop startPos maxSize reads prev last e = ((found, e'), rest) ∧
      Advanced packets prev.pos e' rest := by
  induction reads generalizing prev last e with
  | nil => exact .inl ⟨_, _, rfl, rfl⟩
  | cons p reads ih =>
    have hplaced := placed_of_ahead hF h prev
    have hbehind := h.behind p List.mem_cons_self
    have hp := h.mem p List.mem_cons_self
    unfold VobInput.findLoop
    dsimp only
    rw [hplaced, if_neg (not_lt.mpr hbehind.le)]
    split
    · rename_i hjump
      unfold ChapterEnd.findLoop
      dsimp only
      rw [hplaced, if_neg (not_lt.mpr hbehind.le), if_pos hjump]
      refine .inr ⟨true, _, _, rfl, ?_⟩
      refine ⟨foldl_min_known (hF.pts_known hp) fun q hq => ?_, ⟨p, hp, rfl⟩, hbehind,
        h.tail.drop _⟩
      exact hF.pts_known (h.tail.mem q (List.mem_of_mem_take hq))
    · split
      · exact .inr ⟨false, _, _, rfl, hF.pts_known hp, ⟨p, hp, rfl⟩, hbehind, h.tail⟩
      · rcases ih { p with pts := max prev.pts p.pts } p _ h.tail with heof | hread
        · exact .inl heof
        · obtain ⟨found, e', rest, hfind, hadvanced⟩ := hread
          exact .inr ⟨found, e', rest, hfind, hadvanced.mono hbehind.le⟩

/-- So does a search that first goes back, or on, to a byte of the file. -/
theorem findEndOfChapter_seek (hF : Sequential F stream packets) {pos : Int} (maxSize : Int)
    (e : ChapterEnd) (hpos : 0 ≤ pos) (reads : List PacketDesc) :
    (∃ e' rest, F.findEndOfChapter stream (-pos) maxSize e reads = ((true, e'), rest) ∧
      e'.newPts = avNoPtsValue) ∨
    (F.findEndOfChapter stream (-pos) maxSize e reads = ((false, e), []) ∧
      ∀ p ∈ packets, p.pos < pos) ∨
    ∃ found e' rest, F.findEndOfChapter stream (-pos) maxSize e reads = ((found, e'), rest) ∧
      Advanced packets pos e' rest := by
  unfold VobInput.findEndOfChapter
  rw [if_pos (by omega), neg_neg]
  rcases hF.getTimeAtPosition hpos reads with ⟨htime, hnone⟩ | ⟨p, rest, htime, hp, hle, hahead, -⟩
  · rw [htime]
    exact .inr (.inl ⟨rfl, hnone⟩)
  · rw [htime]
    rcases findLoop_cases hF p.pos maxSize ⟨p.pts, p.pos, 0, 0⟩ ⟨p.pts, p.pos, 0, 0⟩ e hahead with
      heof | hread
    · exact .inl heof
    · obtain ⟨found, e', rest', hfind, hadvanced⟩ := hread
      exact .inr (.inr ⟨found, e', rest', hfind, hadvanced.mono hle⟩)

/-- The search of a round starts at the packet that the round before came to. -/
theorem findEndOfChapter_round (hF : Sequential F stream packets) {pos : Int} (maxSize : Int)
    (e : ChapterEnd) {reads : List PacketDesc} (hpacket : ∃ p ∈ packets, p.pos = pos)
    (hahead : Ahead packets pos reads) :
    (∃ e' rest, F.findEndOfChapter stream pos maxSize e reads = ((true, e'), rest) ∧
      e'.newPts = avNoPtsValue) ∨
    ∃ found e' rest, F.findEndOfChapter stream pos maxSize e reads = ((found, e'), rest) ∧
      Advanced packets pos e' rest := by
  obtain ⟨p, hp, rfl⟩ := hpacket
  rcases (hF.within p hp).1.eq_or_lt with hzero | hpos
  · rcases findEndOfChapter_seek hF maxSize e le_rfl reads with
      heof | ⟨-, hnone⟩ | hread
    · rw [← hzero]
      exact .inl heof
    · exact absurd (hnone p hp) (by rw [← hzero]; exact lt_irrefl 0)
    · rw [← hzero]
      exact .inr hread
  · unfold VobInput.findEndOfChapter
    rw [if_neg (not_le.mpr hpos)]
    exact findLoop_cases hF _ _ _ _ _ hahead

/-- The search from a sample comes to the end of the file or to a packet behind the sample. -/
theorem searchFrom_cases (hF : Sequential F stream packets) {pos : Int} {e : ChapterEnd}
    (hpos : 0 ≤ pos) (reads : List PacketDesc) :
    (F.searchFrom stream pos e reads).1.newPts = avNoPtsValue ∨
      Advanced packets pos (F.searchFrom stream pos e reads).1
        (F.searchFrom stream pos e reads).2 := by
  have hretry : ∀ e reads, (F.searchFrom stream pos e reads).1.newPts = avNoPtsValue ∨
      Advanced packets pos (F.searchFrom stream pos e reads).1
        (F.searchFrom stream pos e reads).2 ∨
      ∃ e' rest, F.findEndOfChapter stream (-pos) CoarseSearch.avgChapterSize e reads =
        ((false, e'), rest) := by
    intro e reads
    unfold VobInput.searchFrom
    rcases findEndOfChapter_seek hF CoarseSearch.avgChapterSize e hpos reads with
      ⟨e', rest, hfind, heof⟩ | ⟨hfind, -⟩ | ⟨found, e', rest, hfind, hadvanced⟩
    · rw [hfind]
      exact .inl heof
    · rw [hfind]
      exact .inr (.inr ⟨_, _, rfl⟩)
    · rw [hfind]
      cases found with
      | true => exact .inr (.inl hadvanced)
      | false => exact .inr (.inr ⟨_, _, rfl⟩)
  rcases hretry e reads with heof | hadvanced | ⟨e₁, reads₁, hfirst⟩
  · exact .inl heof
  · exact .inr hadvanced
  · unfold VobInput.searchFrom
    rw [hfirst]
    dsimp only
    rcases findEndOfChapter_seek hF 0 e₁ hpos reads₁ with
      ⟨e', rest, hfind, heof⟩ | ⟨hfind, -⟩ | ⟨found, e', rest, hfind, hadvanced⟩
    · rw [hfind]
      exact .inl heof
    · rw [hfind]
      exact .inl rfl
    · rw [hfind]
      cases found with
      | true => exact .inr hadvanced
      | false => exact .inl rfl

/-- The counter of the sampling loop only grows. -/
theorem le_of_sample {newPos : Int} {left : Nat} {i j : Int} {w : CoarseSearch}
    {reads rest : List PacketDesc} (h : F.sample stream newPos left i w reads = (.at j, rest)) :
    i ≤ j := by
  induction left generalizing i w reads with
  | zero =>
    cases h
    exact le_rfl
  | succ left ih =>
    unfold VobInput.sample at h
    split at h
    · cases h
    · dsimp only at h
      split at h
      · have hle := ih h
        omega
      · cases h
        exact le_rfl
      · cases h

/-! ## The rounds -/

namespace VobDetection

variable {firstPos : Int} {s s' : VobDetection}

/-- Where the chapters found so far start. -/
def starts (firstPos : Int) (answers : List ChapterEnd) : List Int :=
  firstPos :: answers.map ChapterEnd.newPos

/-- The detection stands at a packet that starts the last of the chapters found so far. -/
structure Standing (packets : List PacketDesc) (firstPos : Int) (s : VobDetection) : Prop where
  packet : ∃ p ∈ packets, p.pos = s.newPos
  ahead : Ahead packets s.newPos s.reads
  going : ∀ e ∈ s.answers, e.newPts ≠ avNoPtsValue
  increasing : (starts firstPos s.answers).Pairwise (· < ·)
  last : ∀ pos ∈ starts firstPos s.answers, pos ≤ s.newPos
  packets : ∀ e ∈ s.answers, ∃ p ∈ packets, p.pos = e.newPos

/-- The packets of the stream behind the one that the detection stands at. -/
def packetsBehind (packets : List PacketDesc) (s : VobDetection) : Nat :=
  packets.countP fun p => s.newPos < p.pos

/-- Fewer elements of a list meet the stronger of two conditions when one meets the weaker only. -/
theorem countP_lt_countP {α : Type} {p q : α → Bool} {x : α} {l : List α}
    (himp : ∀ y ∈ l, p y → q y) (hx : x ∈ l) (hp : ¬p x) (hq : q x) : l.countP p < l.countP q := by
  obtain ⟨front, back, rfl⟩ := List.append_of_mem hx
  have hfront := List.countP_mono_left fun y hy => himp y (List.mem_append_left _ hy)
  have hback := List.countP_mono_left fun y hy =>
    himp y (List.mem_append_right front (List.mem_cons_of_mem x hy))
  rw [List.countP_append, List.countP_append, List.countP_cons_of_neg hp,
    List.countP_cons_of_pos hq]
  omega

theorem starts_append (firstPos : Int) (answers : List ChapterEnd) (e : ChapterEnd) :
    starts firstPos (answers ++ [e]) = starts firstPos answers ++ [e.newPos] := by
  simp [starts]

/-- A round that goes on stands at a later packet. -/
theorem Standing.push (h : Standing packets firstPos s) {e : ChapterEnd} {reads : List PacketDesc}
    (hadvanced : Advanced packets s.newPos e reads) (hs' : s.push e reads = .again s') :
    Standing packets firstPos s' ∧ packetsBehind packets s' < packetsBehind packets s := by
  unfold VobDetection.push at hs'
  rw [if_pos hadvanced.known] at hs'
  obtain rfl := Round.again.inj hs'
  refine ⟨⟨hadvanced.packet, hadvanced.ahead, ?_, ?_, ?_, ?_⟩, ?_⟩
  · intro e' he'
    rcases List.mem_append.mp he' with he' | he'
    · exact h.going e' he'
    · obtain rfl := List.mem_singleton.mp he'
      exact hadvanced.known
  · rw [starts_append]
    refine List.pairwise_append.mpr ⟨h.increasing, List.pairwise_singleton _ _, ?_⟩
    intro pos hpos pos' hpos'
    obtain rfl := List.mem_singleton.mp hpos'
    exact (h.last pos hpos).trans_lt hadvanced.behind
  · intro pos hpos
    rw [starts_append] at hpos
    rcases List.mem_append.mp hpos with hpos | hpos
    · exact (h.last pos hpos).trans hadvanced.behind.le
    · exact (List.mem_singleton.mp hpos).le
  · intro e' he'
    rcases List.mem_append.mp he' with he' | he'
    · exact h.packets e' he'
    · obtain rfl := List.mem_singleton.mp he'
      exact hadvanced.packet
  · obtain ⟨p, hp, hpos⟩ := hadvanced.packet
    unfold packetsBehind
    refine countP_lt_countP (x := p) (fun q _ hq => ?_) hp ?_ ?_
    · have hq : e.newPos < q.pos := by simpa using hq
      simpa using hadvanced.behind.trans hq
    · simp [hpos]
    · simpa [hpos] using hadvanced.behind

/-- What a round comes to: it leaves, with the end of the file as the last answer if with any, or
goes on behind the packet that it started at. -/
theorem round_cases (hF : Sequential F stream packets) (h : Standing packets firstPos s) :
    (∃ e reads, round F stream s = s.push e reads ∧
      (e.newPts = avNoPtsValue ∨ Advanced packets s.newPos e reads)) ∨
    (∀ answers, round F stream s ≠ .leave (.found answers)) ∧ ∃ r, round F stream s = .leave r := by
  unfold round
  rcases findEndOfChapter_round hF s.searchDistance s.entry h.packet h.ahead with
    ⟨e, reads, hfind, heof⟩ | ⟨found, e, reads, hfind, hadvanced⟩
  · rw [hfind]
    exact .inl ⟨e, reads, rfl, .inl heof⟩
  · rw [hfind]
    cases found with
    | true => exact .inl ⟨e, reads, rfl, .inr hadvanced⟩
    | false =>
      dsimp only
      rcases hsample : F.sample stream e.newPos (F.maxCount e.newPos - 1).toNat 1
        (CoarseSearch.enter s.newPos e) reads with ⟨_ | _ | _, reads'⟩
      · rename_i i
        have hi := le_of_sample hsample
        have hstep : 0 ≤ testStep * (i - 1) := Int.mul_nonneg (by decide) (by omega)
        obtain ⟨p, hp, hpos⟩ := h.packet
        have hzero : 0 ≤ s.newPos := hpos ▸ (hF.within p hp).1
        have hbehind := hadvanced.behind
        have hsearch : 0 ≤ e.newPos + testStep * (i - 1) :=
          add_nonneg (hzero.trans hbehind.le) hstep
        refine .inl ⟨_, _, rfl, ?_⟩
        refine (searchFrom_cases hF (e := e) hsearch reads').imp_right fun hread => ?_
        exact hread.mono (hbehind.le.trans (le_add_of_nonneg_right hstep))
      · exact .inr ⟨nofun, _, rfl⟩
      · exact .inr ⟨nofun, _, rfl⟩

/-- A round that is not the last leaves fewer packets behind the search position. -/
theorem round_again (hF : Sequential F stream packets) (h : Standing packets firstPos s)
    (hs' : round F stream s = .again s') :
    Standing packets firstPos s' ∧ packetsBehind packets s' < packetsBehind packets s := by
  rcases round_cases hF h with ⟨e, reads, hround, heof | hadvanced⟩ | ⟨-, r, hround⟩
  · rw [hround] at hs'
    unfold VobDetection.push at hs'
    rw [if_neg (not_not.mpr heof)] at hs'
    cases hs'
  · rw [hround] at hs'
    exact h.push hadvanced hs'
  · rw [hround] at hs'
    cases hs'

/-- What holds of the ends that the detection leaves with. -/
structure EndsFound (packets : List PacketDesc) (firstPos : Int) (answers : List ChapterEnd) :
    Prop where
  complete : ∃ found last, answers = found ++ [last] ∧ last.newPts = avNoPtsValue ∧
    ∀ e ∈ found, e.newPts ≠ avNoPtsValue
  increasing : (firstPos :: ChapterTable.laterStarts answers).Pairwise (· < ·)
  packets : ∀ pos ∈ ChapterTable.laterStarts answers, ∃ p ∈ packets, p.pos = pos

/-- The last end, which is the end of the file, is no start. -/
theorem laterStarts_append {found : List ChapterEnd} {last : ChapterEnd}
    (hlast : last.newPts = avNoPtsValue) (hfound : ∀ e ∈ found, e.newPts ≠ avNoPtsValue) :
    ChapterTable.laterStarts (found ++ [last]) = found.map ChapterEnd.newPos := by
  induction found with
  | nil => simp [ChapterTable.laterStarts, hlast]
  | cons e found ih =>
    have hrest := ih fun e' he' => hfound e' (List.mem_cons_of_mem e he')
    simp [ChapterTable.laterStarts, hfound e List.mem_cons_self, hrest]

/-- The last round has found ends of chapters that ascend. -/
theorem round_leave (hF : Sequential F stream packets) (h : Standing packets firstPos s)
    {answers : List ChapterEnd} (hr : round F stream s = .leave (.found answers)) :
    EndsFound packets firstPos answers := by
  rcases round_cases hF h with ⟨e, reads, hround, heof | hadvanced⟩ | ⟨hnone, -⟩
  · rw [hround] at hr
    unfold VobDetection.push at hr
    rw [if_neg (not_not.mpr heof)] at hr
    obtain rfl := DetectionEnd.found.inj (Round.leave.inj hr)
    have hlater := laterStarts_append heof h.going
    refine ⟨⟨s.answers, e, rfl, heof, h.going⟩, ?_, ?_⟩
    · rw [hlater]
      exact h.increasing
    · rw [hlater]
      intro pos hpos
      obtain ⟨e', he', rfl⟩ := List.mem_map.mp hpos
      exact h.packets e' he'
  · rw [hround] at hr
    unfold VobDetection.push at hr
    rw [if_pos hadvanced.known] at hr
    cases hr
  · exact absurd hr (hnone answers)

/-- The detection is entered at the first packet of the stream. -/
theorem enter_eq (hF : Sequential F stream packets) (hne : packets ≠ []) (reads : List PacketDesc) :
    ∃ p rest, packets = p :: rest ∧ enter F stream reads = some
      { reads := rest
        newPts := (rest.take 9).foldl (fun pts p => min pts p.pts) p.pts
        newPos := p.pos
        dataProcessed := 0
        answers := [] } := by
  cases packets with
  | nil => exact absurd rfl hne
  | cons p rest =>
    have hpos := (hF.within p List.mem_cons_self).1
    refine ⟨p, rest, rfl, ?_⟩
    unfold enter VobInput.getMinTimeAtPosition VobInput.getTimeAtPosition
    rw [hF.seek_zero]
    simp [VobInput.minTime, VobInput.probeSize, List.take_succ_cons, not_lt.mpr hpos]

/-- The search starts at the first packet. -/
theorem standing_enter (hF : Sequential F stream packets) (hne : packets ≠ [])
    {reads : List PacketDesc} (h : enter F stream reads = some s) :
    Standing packets s.newPos s := by
  obtain ⟨p, rest, rfl, henter⟩ := enter_eq hF hne reads
  rw [henter] at h
  obtain rfl := Option.some.inj h
  have hahead := List.pairwise_cons.mp hF.increasing
  refine ⟨⟨p, List.mem_cons_self, rfl⟩, ⟨hahead.2, fun q => List.mem_cons_of_mem p, hahead.1⟩,
    nofun, List.pairwise_singleton _ _, ?_, nofun⟩
  intro pos hpos
  exact (List.mem_singleton.mp hpos).le

end VobDetection

/-! ## The table -/

namespace ChapterTable

variable {fileSize : Int}

/-- The byte lies in the chapter. -/
def Covers (c : TimedChapter) (pos : Int) : Prop := c.posStart ≤ pos ∧ pos ≤ c.posEnd

/-- Chapters that adjoin cover what lies between their ends. -/
theorem exists_covers {c : TimedChapter} {chapters : List TimedChapter} {pos : Int}
    (hadjacent : (c :: chapters).IsChain fun c c' => c.posEnd + 1 = c'.posStart)
    (hstart : c.posStart ≤ pos)
    (hend : ∀ l, (c :: chapters).getLast? = some l → pos ≤ l.posEnd) :
    ∃ d ∈ c :: chapters, Covers d pos := by
  induction chapters generalizing c with
  | nil => exact ⟨c, List.mem_cons_self, hstart, hend c rfl⟩
  | cons c' chapters ih =>
    by_cases hle : pos ≤ c.posEnd
    · exact ⟨c, List.mem_cons_self, hstart, hle⟩
    · obtain ⟨hnext, hrest⟩ := List.isChain_cons_cons.mp hadjacent
      obtain ⟨d, hd, hcovers⟩ := ih hrest (by omega) fun l hl => hend l (by
        rwa [List.getLast?_cons_cons])
      exact ⟨d, List.mem_cons_of_mem c hd, hcovers⟩

/-- In a table that tiles the file in order, every byte lies in one chapter. -/
theorem Tiles.existsUnique {chapters : List TimedChapter} (h : Tiles fileSize chapters)
    (hordered : chapters.Pairwise fun c c' => c.posEnd < c'.posStart) {pos : Int} (hpos : 0 ≤ pos)
    (hsize : pos ≤ fileSize) : ∃ i : Nat, (∃ c, chapters[i]? = some c ∧ Covers c pos) ∧
      ∀ j c, chapters[j]? = some c → Covers c pos → j = i := by
  obtain ⟨c₀, hhead, hzero⟩ := h.first
  obtain ⟨l, hlast, hend⟩ := h.last
  obtain ⟨rest, rfl⟩ : ∃ rest, chapters = c₀ :: rest := by
    cases chapters with
    | nil => cases hhead
    | cons c rest => exact ⟨rest, by rw [Option.some.inj hhead]⟩
  obtain ⟨c, hc, hcovers⟩ := exists_covers (h.adjacent.imp fun _ _ hcc => hcc.1)
    (hzero.trans_le hpos) fun l' hl' => by
      rw [hlast] at hl'
      rw [← Option.some.inj hl', hend]
      exact hsize
  obtain ⟨i, hi⟩ := List.mem_iff_getElem?.mp hc
  refine ⟨i, ⟨c, hi, hcovers⟩, fun j d hj hd => ?_⟩
  obtain ⟨hilt, hieq⟩ := List.getElem?_eq_some_iff.mp hi
  obtain ⟨hjlt, hjeq⟩ := List.getElem?_eq_some_iff.mp hj
  have hsorted := List.pairwise_iff_getElem.mp hordered
  rcases Nat.lt_trichotomy i j with hlt | heq | hlt
  · have hapart := hsorted i j hilt hjlt hlt
    rw [hieq, hjeq] at hapart
    exact absurd (hd.1.trans hcovers.2) (not_le.mpr hapart)
  · exact heq.symm
  · have hapart := hsorted j i hjlt hilt hlt
    rw [hieq, hjeq] at hapart
    exact absurd (hcovers.1.trans hd.2) (not_le.mpr hapart)

/-- Every chapter but the first starts where an answer says. -/
theorem posStart_mem {clock : TimeFF} {start : SplitPoint} {answers : List ChapterEnd}
    {c : TimedChapter} (hc : c ∈ chaptersFrom fileSize clock start answers) :
    c.posStart = start.pos ∨ c.posStart ∈ laterStarts answers := by
  induction answers generalizing clock start with
  | nil => cases hc
  | cons e rest ih =>
    unfold chaptersFrom at hc
    unfold laterStarts
    split at hc
    · rename_i hnew
      rw [if_pos hnew]
      rcases List.mem_cons.mp hc with rfl | hc
      · exact .inl rfl
      · rcases ih hc with hstart | hlater
        · exact .inr (by rw [hstart]; exact List.mem_cons_self)
        · exact .inr (List.mem_cons_of_mem _ hlater)
    · obtain rfl := List.mem_singleton.mp hc
      exact .inl rfl

/-- The table is built from the ends of all chapters. -/
theorem splitPoints_append {found : List ChapterEnd} {last : ChapterEnd} (start : SplitPoint)
    (hlast : last.newPts = avNoPtsValue) (hfound : ∀ e ∈ found, e.newPts ≠ avNoPtsValue) :
    ∃ points, splitPoints start (found ++ [last]) = some points := by
  induction found generalizing start with
  | nil =>
    refine ⟨[start, { pts := last.endPts, pos := last.newPos - 1 }], ?_⟩
    simp [splitPoints, hlast]
  | cons e found ih =>
    obtain ⟨points, hpoints⟩ := ih { pts := e.newPts, pos := e.newPos } fun e' he' =>
      hfound e' (List.mem_cons_of_mem e he')
    refine ⟨start :: { pts := e.endPts, pos := e.newPos - 1 } :: points, ?_⟩
    simp [splitPoints, hfound e List.mem_cons_self, hpoints]

end ChapterTable

namespace VobDetection

open ChapterTable

/-- In every file whose packets of the stream stand behind one another, the detection is over after
at most as many rounds as the stream has packets; a division of the coarse sampling that faults ends
it as well.  When it then has found chapters, every byte of the file lies in exactly one of them, and
all but the first start at a packet of the stream. -/
theorem detection_ends {F : VobInput} {stream : Int} {packets : List PacketDesc}
    (hF : Sequential F stream packets) (hne : packets ≠ []) (reads : List PacketDesc) :
    ∃ start n r, enter F stream reads = some start ∧ Leaves (round F stream) n start r ∧
      n ≤ packets.length ∧
      ∀ answers, r = .found answers → ∃ table, start.chapters F r = some table ∧
        (∀ pos, 0 ≤ pos → pos ≤ F.size →
          ∃ i : Nat, (∃ c, table[i]? = some c ∧ Covers c pos) ∧
            ∀ j c, table[j]? = some c → Covers c pos → j = i) ∧
        ∀ c ∈ table, c.posStart = 0 ∨ ∃ p ∈ packets, p.pos = c.posStart := by
  obtain ⟨p, rest, hpackets, henter⟩ := enter_eq hF hne reads
  have hstanding := standing_enter hF hne henter
  have hdown : ∀ s s', Standing packets p.pos s → round F stream s = .again s' →
      Standing packets p.pos s' ∧ packetsBehind packets s' < packetsBehind packets s :=
    fun s s' hs hs' => round_again hF hs hs'
  obtain ⟨n, r, hleaves⟩ := exists_leaves hdown hstanding
  refine ⟨_, n, r, henter, hleaves, ?_, ?_⟩
  · have hrounds := hleaves.rounds_le (fun s s' hs hs' => round_again hF hs hs') hstanding
    have hfewer : packetsBehind packets
        { reads := rest
          newPts := (rest.take 9).foldl (fun pts p => min pts p.pts) p.pts
          newPos := p.pos
          dataProcessed := 0
          answers := [] } ≤ rest.length := by
      unfold packetsBehind
      rw [hpackets, List.countP_cons_of_neg (by simp)]
      exact List.countP_le_length
    rw [hpackets, List.length_cons]
    omega
  · rintro answers rfl
    have hends : EndsFound packets p.pos answers := hleaves.post
      (Q := fun r => ∀ answers, r = .found answers → EndsFound packets p.pos answers)
      (fun s s' hs hs' => (hdown s s' hs hs').1)
      (fun s r hs hr answers heq => round_leave hF hs (heq ▸ hr)) hstanding answers rfl
    obtain ⟨found, last, rfl, hlast, hfound⟩ := hends.complete
    have hbuilt : ∃ table, detectVobChapters F.size
        ⟨p.pos, (rest.take 9).foldl (fun pts p => min pts p.pts) p.pts⟩ (found ++ [last]) =
          some table := by
      obtain ⟨points, hpoints⟩ := splitPoints_append
        ⟨p.pos, (rest.take 9).foldl (fun pts p => min pts p.pts) p.pts⟩ hlast hfound
      exact ⟨_, by rw [detectVobChapters, hpoints]; rfl⟩
    obtain ⟨table, htable⟩ := hbuilt
    have htiles := tiles_detectVobChapters htable
    have hp := hF.within p (hpackets ▸ List.mem_cons_self)
    obtain ⟨htable_eq, -⟩ := detectVobChapters_eq htable
    have hordered : table.Pairwise fun c c' => c.posEnd < c'.posStart := by
      rw [htable_eq]
      exact ordered_chaptersFrom 0 (chapterStarts_from_zero hends.increasing hp.1)
    refine ⟨table, htable, fun pos hpos hsize => htiles.existsUnique hordered hpos hsize, ?_⟩
    intro c hc
    rw [htable_eq] at hc
    exact (posStart_mem hc).imp_right fun hlater => hends.packets _ hlater

/-- Three packets; before the last one the time jumps. -/
def restartedPackets : List PacketDesc :=
  [⟨100, 0, 10, 20⟩, ⟨110, 20, 10, 20⟩, ⟨avSecond + 200, 40, 10, 20⟩]

/-- A file of three packets with a jump of the time before the last. -/
theorem detection_ends_restarted :
    ∃ start n r, enter (plainInput 60 restartedPackets) 0 [] = some start ∧
      Leaves (round (plainInput 60 restartedPackets) 0) n start r ∧ n ≤ 3 := by
  have hF : Sequential (plainInput 60 restartedPackets) 0 restartedPackets :=
    sequential_plainInput (by decide) (by decide) (by decide)
  obtain ⟨start, n, r, henter, hleaves, hrounds, -⟩ := detection_ends hF (by decide) []
  exact ⟨start, n, r, henter, hleaves, hrounds⟩

end VobDetection

end Seekira.Model
