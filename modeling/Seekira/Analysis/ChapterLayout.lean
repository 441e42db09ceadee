import Seekira.Analysis.ChapterDetection

/-!
# The chapters that the detection finds

A recorder writes chapter after chapter.  Inside a chapter the packets come in the order
of decoding, so that two of them may change places, but not over ten packets or more;
between chapters the time jumps.  On such a file the detection finds the chapters as they
were written, each from its earliest time to its latest.

The search compares a packet with the latest time that it has read since it entered the
chapter, and enters a chapter with the earliest of its first packets.  The case of the
first chapter differs from that of the others in how many packets have been read by then.
-/

set_option autoImplicit false

namespace Seekira.Model

open Library

/-! ## Chapters as they are written -/

/-- The earliest time of the packets. -/
def earliest (ch : List PacketDesc) : TimestampFF := (ch.map PacketDesc.pts).min?.getD 0

/-- The latest time of the packets. -/
def latest (ch : List PacketDesc) : TimestampFF := (ch.map PacketDesc.pts).max?.getD 0

/-- The duration of the last packet. -/
def lastDuration (ch : List PacketDesc) : TimeFF := (ch.getLast?.map PacketDesc.duration).getD 0

/-- How long the chapter lasts: the last packet counts twice. -/
def extent (ch : List PacketDesc) : TimeFF := latest ch + lastDuration ch * 2 - earliest ch

/-- The byte at which the chapter starts. -/
def startOf (ch : List PacketDesc) : Int := (ch.head?.map PacketDesc.pos).getD 0

/-- The chapters as a table, from a time and a byte on. -/
def tableOf (fileSize : Int) : TimeFF → Int → List (List PacketDesc) → List TimedChapter
  | _, _, [] => []
  | clock, pos, ch :: cs =>
    { posStart := pos
      posEnd := (cs.head?.map fun ch' => startOf ch' - 1).getD fileSize
      ptsStart := earliest ch
      ptsEnd := latest ch + lastDuration ch * 2
      timeShift := clock - earliest ch } ::
      tableOf fileSize (clock + extent ch) ((cs.head?.map startOf).getD 0) cs

/-- A chapter without a jump: packets ten or more apart are in order, packets at most eleven apart
are close, and the chapter is not larger than the detection expects. -/
structure Coherent (ch : List PacketDesc) : Prop where
  long : 22 ≤ ch.length
  inOrder : ∀ i j p q, ch[i]? = some p → ch[j]? = some q → i + 10 ≤ j → p.pts ≤ q.pts
  close : ∀ i j p q, ch[i]? = some p → ch[j]? = some q → i ≤ j → j ≤ i + 11 →
    ((q.pts - p.pts).natAbs : Int) ≤ avSecond
  size : ∀ p ∈ ch, p.pos - startOf ch ≤ CoarseSearch.avgChapterSize

/-- The file holds the chapters one after the other, and the time jumps between them. -/
structure LaidOut (F : VobInput) (stream : Int) (chapters : List (List PacketDesc)) : Prop where
  sequential : Sequential F stream chapters.flatten
  nonempty : chapters ≠ []
  coherent : ∀ ch ∈ chapters, Coherent ch
  jumps : chapters.IsChain fun ch ch' => ∀ p, ch'.head? = some p →
    avSecond < ((p.pts - latest ch).natAbs : Int)

/-! ## The earliest and the latest time -/

section Bounds

variable {ch pkts : List PacketDesc} {pts m : TimestampFF}

/-- The earliest time is the least of the packets' times. -/
theorem earliest_spec (hne : ch ≠ []) :
    (∃ p ∈ ch, p.pts = earliest ch) ∧ ∀ p ∈ ch, earliest ch ≤ p.pts := by
  unfold earliest
  obtain ⟨m, hm⟩ : ∃ m, (ch.map PacketDesc.pts).min? = some m :=
    Option.isSome_iff_exists.mp (List.isSome_min?_of_ne_nil (by simpa using hne))
  rw [hm, Option.getD_some]
  obtain ⟨hmem, hle⟩ := List.min?_eq_some_iff.mp hm
  refine ⟨by simpa using hmem, fun p hp => hle p.pts (List.mem_map_of_mem hp)⟩

/-- The latest time is the greatest of the packets' times. -/
theorem latest_spec (hne : ch ≠ []) :
    (∃ p ∈ ch, p.pts = latest ch) ∧ ∀ p ∈ ch, p.pts ≤ latest ch := by
  unfold latest
  obtain ⟨m, hm⟩ : ∃ m, (ch.map PacketDesc.pts).max? = some m :=
    Option.isSome_iff_exists.mp (List.isSome_max?_of_ne_nil (by simpa using hne))
  rw [hm, Option.getD_some]
  obtain ⟨hmem, hle⟩ := List.max?_eq_some_iff.mp hm
  refine ⟨by simpa using hmem, fun p hp => hle p.pts (List.mem_map_of_mem hp)⟩

/-- The running minimum is the least of the times. -/
theorem foldl_min_spec (pkts : List PacketDesc) (pts : TimestampFF) :
    (pkts.foldl (fun pts p => min pts p.pts) pts = pts ∨
      ∃ p ∈ pkts, p.pts = pkts.foldl (fun pts p => min pts p.pts) pts) ∧
    pkts.foldl (fun pts p => min pts p.pts) pts ≤ pts ∧
    ∀ p ∈ pkts, pkts.foldl (fun pts p => min pts p.pts) pts ≤ p.pts := by
  induction pkts generalizing pts with
  | nil => exact ⟨.inl rfl, le_rfl, nofun⟩
  | cons p pkts ih =>
    rw [List.foldl_cons]
    obtain ⟨hmem, hle, hall⟩ := ih (min pts p.pts)
    refine ⟨?_, hle.trans (min_le_left _ _), ?_⟩
    · rcases hmem with heq | ⟨q, hq, heq⟩
      · rcases min_choice pts p.pts with hmin | hmin
        · exact .inl (heq.trans hmin)
        · exact .inr ⟨p, List.mem_cons_self, (heq.trans hmin).symm⟩
      · exact .inr ⟨q, List.mem_cons_of_mem p hq, heq⟩
    · intro q hq
      rcases List.mem_cons.mp hq with rfl | hq
      · exact hle.trans (min_le_right _ _)
      · exact hall q hq

/-- The latest time read so far. -/
def highest (m : TimestampFF) (pkts : List PacketDesc) : TimestampFF :=
  pkts.foldl (fun m p => max m p.pts) m

/-- The latest time read so far is the greatest of those read. -/
theorem highest_spec (pkts : List PacketDesc) (m : TimestampFF) :
    (highest m pkts = m ∨ ∃ p ∈ pkts, p.pts = highest m pkts) ∧
      ∀ p ∈ pkts, p.pts ≤ highest m pkts := by
  have key : (highest m pkts = m ∨ ∃ p ∈ pkts, p.pts = highest m pkts) ∧ m ≤ highest m pkts ∧
      ∀ p ∈ pkts, p.pts ≤ highest m pkts := by
    induction pkts generalizing m with
    | nil => exact ⟨.inl rfl, le_rfl, nofun⟩
    | cons p pkts ih =>
      obtain ⟨hmem, hle, hall⟩ := ih (max m p.pts)
      refine ⟨?_, (le_max_left _ _).trans hle, ?_⟩
      · rcases hmem with heq | ⟨q, hq, heq⟩
        · rcases max_choice m p.pts with hmax | hmax
          · exact .inl (heq.trans hmax)
          · exact .inr ⟨p, List.mem_cons_self, (heq.trans hmax).symm⟩
        · exact .inr ⟨q, List.mem_cons_of_mem p hq, heq⟩
      · intro q hq
        rcases List.mem_cons.mp hq with rfl | hq
        · exact (le_max_right _ _).trans hle
        · exact hall q hq
  exact ⟨key.1, key.2.2⟩

namespace Coherent

theorem ne_nil (hc : Coherent ch) : ch ≠ [] := by
  rintro rfl
  exact absurd hc.long (by decide)

/-- The first ten packets hold the earliest time of the chapter. -/
theorem earliest_of_first (hc : Coherent ch) {p : PacketDesc} {rest : List PacketDesc}
    (hcons : ch = p :: rest) {n : Nat} (hn : 9 ≤ n) :
    (rest.take n).foldl (fun pts p => min pts p.pts) p.pts = earliest ch := by
  obtain ⟨hmem, hle, hall⟩ := foldl_min_spec (rest.take n) p.pts
  obtain ⟨⟨q, hq, hearliest⟩, hleast⟩ := earliest_spec hc.ne_nil
  have hp : p ∈ ch := by simp [hcons]
  refine le_antisymm ?_ ?_
  · rw [← hearliest]
    obtain ⟨i, hi⟩ := List.mem_iff_getElem?.mp hq
    by_cases hlt : i ≤ n
    · rw [hcons] at hi
      cases i with
      | zero =>
        obtain rfl : p = q := by simpa using hi
        exact hle
      | succ i =>
        refine hall q (List.mem_iff_getElem?.mpr ⟨i, ?_⟩)
        rw [List.getElem?_take_of_lt (by omega)]
        simpa using hi
    · exact hle.trans (hc.inOrder 0 i p q (by simp [hcons]) hi (by omega))
  · rcases hmem with heq | ⟨q, hq, heq⟩
    · rw [heq]
      exact hleast p hp
    · rw [← heq]
      refine hleast q ?_
      rw [hcons]
      exact List.mem_cons_of_mem p (List.mem_of_mem_take hq)

/-- What is read after one of the first packets holds the latest time of the chapter. -/
theorem highest_drop (hc : Coherent ch) {k : Nat} (hk : k ≤ 11) (hm : ∃ p ∈ ch, p.pts = m) :
    highest m (ch.drop k) = latest ch := by
  obtain ⟨hmem, hall⟩ := highest_spec (ch.drop k) m
  obtain ⟨⟨q, hq, hlatest⟩, hmost⟩ := latest_spec hc.ne_nil
  refine le_antisymm ?_ ?_
  · rcases hmem with heq | ⟨p, hp, heq⟩
    · obtain ⟨p, hp, rfl⟩ := hm
      rw [heq]
      exact hmost p hp
    · rw [← heq]
      exact hmost p (List.mem_of_mem_drop hp)
  · rw [← hlatest]
    obtain ⟨i, hi⟩ := List.mem_iff_getElem?.mp hq
    have hilt := (List.getElem?_eq_some_iff.mp hi).1
    have hread : ∀ j p, k ≤ j → ch[j]? = some p → p.pts ≤ highest m (ch.drop k) := by
      intro j p hj hp
      refine hall p (List.mem_iff_getElem?.mpr ⟨j - k, ?_⟩)
      rw [List.getElem?_drop, Nat.add_sub_cancel' hj]
      exact hp
    by_cases hik : k ≤ i
    · exact hread i q hik hi
    · have hlong := hc.long
      have hlater := List.getElem?_eq_getElem (l := ch) (i := i + 11) (by omega)
      exact (hc.inOrder i (i + 11) q _ hi hlater (by omega)).trans
        (hread (i + 11) _ (by omega) hlater)

end Coherent

end Bounds

/-! ## No jump inside a chapter -/

/-- No packet is far from the latest time before it. -/
def Steady : TimestampFF → List PacketDesc → Prop
  | _, [] => True
  | m, p :: pkts => ((p.pts - m).natAbs : Int) ≤ avSecond ∧ Steady (max m p.pts) pkts

/-- The latest time read so far is that of a packet, and that packet is either one of the first or
not earlier than the last one read. -/
theorem Coherent.steady {ch : List PacketDesc} (hc : Coherent ch) {j l : Nat} {q : PacketDesc}
    (hl : ch[l]? = some q) (hbefore : l ≤ 10 ∨ l < j)
    (hlast : j ≤ 11 ∨ ∃ p, ch[j - 1]? = some p ∧ p.pts ≤ q.pts) : Steady q.pts (ch.drop j) := by
  induction hn : ch.length - j generalizing j l q with
  | zero =>
    rw [List.drop_eq_nil_of_le (by omega)]
    trivial
  | succ n ih =>
    have hj : j < ch.length := by omega
    have hp := List.getElem?_eq_getElem hj
    rw [List.drop_eq_getElem_cons hj]
    set p := ch[j] with hpdef
    have hback : q.pts - p.pts ≤ avSecond := by
      by_cases hnear : j ≤ l + 11
      · rcases Nat.le_total l j with hle | hle
        · have hclose := hc.close l j q p hl hp hle hnear
          lia
        · have hclose := hc.close j l p q hp hl hle (by omega)
          lia
      · have hle := hc.inOrder l j q p hl hp (by omega)
        have hsecond : (0 : Int) ≤ avSecond := by decide
        lia
    have hforth : p.pts - q.pts ≤ avSecond := by
      rcases hlast with hfirst | ⟨r, hr, hle⟩
      · rcases Nat.le_total l j with hle | hle
        · have hclose := hc.close l j q p hl hp hle (by omega)
          lia
        · have hclose := hc.close j l p q hp hl hle (by omega)
          lia
      · by_cases hj0 : j = 0
        · subst hj0
          rcases hbefore with hl' | hl'
          · have hclose := hc.close 0 l p q hp hl (by omega) (by omega)
            lia
          · omega
        · have hclose := hc.close (j - 1) j r p hr hp (by omega) (by omega)
          lia
    refine ⟨by lia, ?_⟩
    rcases max_choice q.pts p.pts with hmax | hmax
    · rw [hmax]
      exact ih hl (by omega) (.inr ⟨p, by simpa using hp, by rw [← hmax]; exact le_max_right _ _⟩)
        (by omega)
    · rw [hmax]
      exact ih hp (by omega) (.inr ⟨p, by simpa using hp, le_rfl⟩) (by omega)

/-! ## Reading a chapter -/

section Reading

variable {F : VobInput} {stream : Int} {packets ch later : List PacketDesc}

/-- The search reads on while the time does not jump. -/
theorem findLoop_steady (hF : Sequential F stream packets) {startPos maxSize : Int}
    {body : List PacketDesc} (prev last : PacketDesc) (e : ChapterEnd)
    (hahead : Ahead packets prev.pos (body ++ later)) (hsteady : Steady prev.pts body)
    (hsize : ∀ p ∈ body, p.pos - startPos ≤ maxSize) :
    ∃ prev' last' e', VobInput.findLoop startPos maxSize (body ++ later) prev last e =
        VobInput.findLoop startPos maxSize later prev' last' e' ∧
      Ahead packets prev'.pos later ∧ prev'.pts = highest prev.pts body ∧
      prev'.duration = (body.getLast?.map PacketDesc.duration).getD prev.duration := by
  induction body generalizing prev last e with
  | nil => exact ⟨prev, last, e, rfl, hahead, rfl, rfl⟩
  | cons p body ih =>
    have hplaced := placed_of_ahead hF hahead prev
    have hbehind := hahead.behind p List.mem_cons_self
    obtain ⟨hnear, hrest⟩ := hsteady
    have hread : VobInput.findLoop startPos maxSize (p :: body ++ later) prev last e =
        VobInput.findLoop startPos maxSize (body ++ later) { p with pts := max prev.pts p.pts } p
          { e with newPts := p.pts, newPos := p.pos, dataProcessed := p.pos - startPos } := by
      rw [List.cons_append, VobInput.findLoop]
      dsimp only
      rw [hplaced, if_neg (not_lt.mpr hbehind.le), if_neg (not_lt.mpr hnear),
        if_neg fun hlarge => not_lt.mpr (hsize p List.mem_cons_self) hlarge.2]
    obtain ⟨prev', last', e', hfind, hahead', hpts, hduration⟩ :=
      ih { p with pts := max prev.pts p.pts } p
        { e with newPts := p.pts, newPos := p.pos, dataProcessed := p.pos - startPos }
        hahead.tail hrest fun q hq => hsize q (List.mem_cons_of_mem p hq)
    refine ⟨prev', last', e', hread.trans hfind, hahead', hpts, ?_⟩
    rw [hduration, List.getLast?_cons]
    cases body.getLast? <;> rfl

/-- At a jump the chapter ends, and the next one is entered. -/
theorem findLoop_jump (hF : Sequential F stream packets) {startPos maxSize : Int} {q : PacketDesc}
    {rest : List PacketDesc} {prev last : PacketDesc} {e : ChapterEnd}
    (hahead : Ahead packets prev.pos (q :: rest))
    (hjump : avSecond < ((q.pts - prev.pts).natAbs : Int)) :
    VobInput.findLoop startPos maxSize (q :: rest) prev last e =
      ((true,
        { endPts := prev.pts + prev.duration * 2
          newPts := (rest.take 10).foldl (fun pts p => min pts p.pts) q.pts
          newPos := q.pos
          dataProcessed := q.pos - startPos }), rest.drop 10) := by
  have hplaced := placed_of_ahead hF hahead prev
  have hbehind := hahead.behind q List.mem_cons_self
  unfold VobInput.findLoop ChapterEnd.findLoop
  dsimp only
  rw [hplaced, if_neg (not_lt.mpr hbehind.le), if_pos hjump, if_neg (not_lt.mpr hbehind.le),
    if_pos hjump]
  rfl

namespace Coherent

/-- The last packet is among those read after one of the first. -/
theorem lastDuration_drop (hc : Coherent ch) {k : Nat} (hk : k ≤ 11) (d : TimeFF) :
    ((ch.drop k).getLast?.map PacketDesc.duration).getD d = lastDuration ch := by
  have hlong := hc.long
  have hlast : (ch.drop k).getLast? = ch.getLast? := by
    rw [List.getLast?_drop, if_neg (by omega)]
  unfold lastDuration
  rw [hlast, List.getLast?_eq_getElem?, List.getElem?_eq_getElem (by omega)]
  rfl

/-- One of the first packets has the earliest time. -/
theorem exists_earliest (hc : Coherent ch) :
    ∃ l q, ch[l]? = some q ∧ l ≤ 10 ∧ q.pts = earliest ch := by
  obtain ⟨⟨p, hp, hearliest⟩, hleast⟩ := earliest_spec hc.ne_nil
  obtain ⟨i, hi⟩ := List.mem_iff_getElem?.mp hp
  by_cases hle : i ≤ 10
  · exact ⟨i, p, hi, hle, hearliest⟩
  · have hlong := hc.long
    have hfirst := List.getElem?_eq_getElem (l := ch) (i := 0) (by omega)
    have horder := hc.inOrder 0 i _ p hfirst hi (by omega)
    refine ⟨0, _, hfirst, by omega, le_antisymm (horder.trans hearliest.le) ?_⟩
    exact hleast _ (List.getElem_mem _)

end Coherent

/-- The search that a round begins with reads the chapter from behind its first packets on,
starting with the time of one of these. -/
def ReadsChapter (F : VobInput) (stream : Int) (ch later : List PacketDesc) (s : VobDetection) :
    Prop :=
  ∃ k l q, 1 ≤ k ∧ k ≤ 11 ∧ ch[l]? = some q ∧ l ≤ 10 ∧
    F.findEndOfChapter stream s.newPos s.searchDistance s.entry s.reads =
      VobInput.findLoop (startOf ch) s.searchDistance (ch.drop k ++ later)
        ⟨q.pts, startOf ch, 0, 0⟩ ⟨q.pts, startOf ch, 0, 0⟩ s.entry

/-- In a file that goes on with the chapter, all but its first packet are behind its start. -/
theorem ahead_of_suffix (hF : Sequential F stream packets) (hc : Coherent ch)
    (hsuffix : ch ++ later <:+ packets) {k : Nat} (hone : 1 ≤ k) (hk : k ≤ 11) :
    Ahead packets (startOf ch) (ch.drop k ++ later) := by
  have hlong := hc.long
  cases ch with
  | nil => exact absurd rfl hc.ne_nil
  | cons p more =>
    have hincreasing := hF.increasing.sublist hsuffix.sublist
    obtain ⟨hfirst, hrest⟩ := List.pairwise_cons.mp hincreasing
    have hall : Ahead packets p.pos (more ++ later) :=
      ⟨hrest, fun q hq => hsuffix.subset (List.mem_cons_of_mem p hq), hfirst⟩
    obtain ⟨k, rfl⟩ := Nat.exists_eq_add_of_le hone
    rw [List.length_cons] at hlong
    have hdrop : (p :: more).drop (1 + k) ++ later = (more ++ later).drop k := by
      rw [Nat.add_comm, List.drop_succ_cons, List.drop_append_of_le_length (by omega)]
    rw [hdrop]
    exact hall.drop k

theorem le_searchDistance (s : VobDetection) : CoarseSearch.avgChapterSize ≤ s.searchDistance :=
  le_max_left _ _

/-- What is read of a chapter brings the search to its end. -/
theorem ReadsChapter.findLoop (hF : Sequential F stream packets) (hc : Coherent ch)
    (hsuffix : ch ++ later <:+ packets) {s : VobDetection} (h : ReadsChapter F stream ch later s) :
    ∃ prev last e, F.findEndOfChapter stream s.newPos s.searchDistance s.entry s.reads =
        VobInput.findLoop (startOf ch) s.searchDistance later prev last e ∧
      Ahead packets prev.pos later ∧ prev.pts = latest ch ∧ prev.duration = lastDuration ch := by
  obtain ⟨k, l, q, hone, hk, hl, hle, hfind⟩ := h
  have hsteady := hc.steady hl (.inl hle) (.inl hk)
  obtain ⟨prev, last, e, hread, hahead, hpts, hduration⟩ := findLoop_steady hF
    ⟨q.pts, startOf ch, 0, 0⟩ ⟨q.pts, startOf ch, 0, 0⟩ s.entry
    (ahead_of_suffix hF hc hsuffix hone hk) hsteady
    fun p hp => (hc.size p (List.mem_of_mem_drop hp)).trans (le_searchDistance s)
  refine ⟨prev, last, e, hfind.trans hread, hahead, ?_, ?_⟩
  · rw [hpts]
    exact hc.highest_drop hk ⟨q, List.mem_of_getElem? hl, rfl⟩
  · rw [hduration]
    exact hc.lastDuration_drop hk 0

/-- The round at the last chapter leaves. -/
theorem round_last (hF : Sequential F stream packets) (hc : Coherent ch) (hsuffix : ch <:+ packets)
    {s : VobDetection} (h : ReadsChapter F stream ch [] s) :
    ∃ e, VobDetection.round F stream s = .leave (.found (s.answers ++ [e])) ∧
      e.endPts = latest ch + lastDuration ch * 2 ∧ e.newPts = avNoPtsValue := by
  obtain ⟨prev, last, e, hfind, -, hpts, hduration⟩ := h.findLoop hF hc (by simpa using hsuffix)
  refine ⟨(ChapterEnd.findLoop (startOf ch) s.searchDistance [] prev last e).2, ?_, ?_, rfl⟩
  · unfold VobDetection.round
    rw [hfind]
    rfl
  · rw [← hpts, ← hduration]
    rfl

/-- The round at any other chapter goes on with the next one. -/
theorem round_next (hF : Sequential F stream packets) (hc : Coherent ch) {q : PacketDesc}
    {rest : List PacketDesc} (hsuffix : ch ++ q :: rest <:+ packets)
    (hjump : avSecond < ((q.pts - latest ch).natAbs : Int)) {s : VobDetection}
    (h : ReadsChapter F stream ch (q :: rest) s) :
    ∃ e, VobDetection.round F stream s = .again
        { reads := rest.drop 10, newPts := e.newPts, newPos := q.pos,
          dataProcessed := e.dataProcessed, answers := s.answers ++ [e] } ∧
      e.endPts = latest ch + lastDuration ch * 2 ∧ e.newPos = q.pos ∧ e.newPts ≠ avNoPtsValue ∧
      e.newPts = (rest.take 10).foldl (fun pts p => min pts p.pts) q.pts := by
  obtain ⟨prev, last, e, hfind, hahead, hpts, hduration⟩ := h.findLoop hF hc hsuffix
  rw [← hpts] at hjump
  rw [findLoop_jump hF hahead hjump] at hfind
  have hknown : (rest.take 10).foldl (fun pts p => min pts p.pts) q.pts ≠ avNoPtsValue :=
    foldl_min_known (hF.pts_known (hahead.mem q List.mem_cons_self)) fun p hp =>
      hF.pts_known (hahead.mem p (List.mem_cons_of_mem q (List.mem_of_mem_take hp)))
  refine ⟨{ endPts := prev.pts + prev.duration * 2
            newPts := (rest.take 10).foldl (fun pts p => min pts p.pts) q.pts
            newPos := q.pos
            dataProcessed := q.pos - startOf ch }, ?_, ?_, rfl, hknown, rfl⟩
  · unfold VobDetection.round
    rw [hfind]
    dsimp only
    unfold VobDetection.push
    rw [if_pos hknown]
  · rw [hpts, hduration]

end Reading

/-! ## All chapters -/

namespace VobDetection

open ChapterTable

variable {F : VobInput} {stream : Int} {packets : List PacketDesc}

/-- Behind the first chapter a round starts with ten packets of its chapter read and one passed
over. -/
theorem readsChapter_next {ch later : List PacketDesc} {s : VobDetection} (hc : Coherent ch)
    (hpos : 0 < startOf ch) (hnewPos : s.newPos = startOf ch) (hnewPts : s.newPts = earliest ch)
    (hreads : s.reads = ch.drop 11 ++ later) : ReadsChapter F stream ch later s := by
  obtain ⟨l, q, hl, hle, hpts⟩ := hc.exists_earliest
  refine ⟨11, l, q, by omega, le_rfl, hl, hle, ?_⟩
  unfold VobInput.findEndOfChapter
  rw [hnewPos, if_neg (not_le.mpr hpos), hreads, hpts]
  simp only [entry, hnewPts]

/-- From a chapter on, the rounds find this chapter and the later ones. -/
theorem leaves_from (hF : Sequential F stream packets) {ch : List PacketDesc}
    {cs : List (List PacketDesc)} {s : VobDetection} (hcoherent : ∀ d ∈ ch :: cs, Coherent d)
    (hjumps : (ch :: cs).IsChain fun ch ch' => ∀ p, ch'.head? = some p →
      avSecond < ((p.pts - latest ch).natAbs : Int))
    (hsuffix : ch ++ cs.flatten <:+ packets) (hreads : ReadsChapter F stream ch cs.flatten s) :
    ∃ found, Leaves (round F stream) (cs.length + 1) s (.found (s.answers ++ found)) ∧
      (∀ start, ∃ points, splitPoints start found = some points) ∧
      ∀ clock pos, chaptersFrom F.size clock { pos := pos, pts := earliest ch } found =
        tableOf F.size clock pos (ch :: cs) := by
  induction cs generalizing ch s with
  | nil =>
    have hc := hcoherent ch List.mem_cons_self
    obtain ⟨e, hround, hend, hlast⟩ := round_last hF hc (by simpa using hsuffix) hreads
    refine ⟨[e], .last hround, fun start => ?_, fun clock pos => ?_⟩
    · exact ⟨[start, { pts := e.endPts, pos := e.newPos - 1 }], by simp [splitPoints, hlast]⟩
    · simp [chaptersFrom, hlast, chapterBetween, hend, tableOf]
  | cons ch' cs ih =>
    have hc := hcoherent ch List.mem_cons_self
    have hc' := hcoherent ch' (by simp)
    obtain ⟨hjump, hjumps'⟩ := List.isChain_cons_cons.mp hjumps
    obtain ⟨q, more, rfl⟩ := List.exists_cons_of_ne_nil hc'.ne_nil
    have hlong := hc'.long
    rw [List.length_cons] at hlong
    rw [List.flatten_cons, List.cons_append] at hreads hsuffix
    obtain ⟨e, hround, hend, hnewPos, hnew, hnewPts⟩ :=
      round_next hF hc hsuffix (hjump q rfl) hreads
    have htake : (more ++ cs.flatten).take 10 = more.take 10 :=
      List.take_append_of_le_length (by omega)
    have hdrop : (more ++ cs.flatten).drop 10 = more.drop 10 ++ cs.flatten :=
      List.drop_append_of_le_length (by omega)
    have hearliest : e.newPts = earliest (q :: more) := by
      rw [hnewPts, htake]
      exact hc'.earliest_of_first rfl (by omega)
    have hsuffix' : q :: more ++ cs.flatten <:+ packets :=
      (List.suffix_append ch _).trans hsuffix
    have hpos : 0 < startOf (q :: more) := by
      obtain ⟨p, rest, hcons⟩ := List.exists_cons_of_ne_nil hc.ne_nil
      have hbehind := (ahead_of_suffix hF hc hsuffix le_rfl (by omega)).behind q (by simp)
      have hp := (hF.within p (hsuffix.subset (by simp [hcons]))).1
      have hstart : startOf ch = p.pos := by simp [startOf, hcons]
      rw [hstart] at hbehind
      exact hp.trans_lt hbehind
    have hreads' : ReadsChapter F stream (q :: more) cs.flatten
        { reads := (more ++ cs.flatten).drop 10, newPts := e.newPts, newPos := q.pos,
          dataProcessed := e.dataProcessed, answers := s.answers ++ [e] } :=
      readsChapter_next hc' hpos rfl hearliest (by rw [hdrop]; rfl)
    obtain ⟨found, hleaves, hpoints, htable⟩ :=
      ih (fun d hd => hcoherent d (List.mem_cons_of_mem ch hd)) hjumps' hsuffix' hreads'
    refine ⟨e :: found, ?_, fun start => ?_, fun clock pos => ?_⟩
    · have hrest := Leaves.next hround hleaves
      rw [List.append_assoc] at hrest
      exact hrest
    · obtain ⟨points, hrest⟩ := hpoints { pts := e.newPts, pos := e.newPos }
      refine ⟨start :: { pts := e.endPts, pos := e.newPos - 1 } :: points, ?_⟩
      simp [splitPoints, hnew, hrest]
    · have hrest := htable (clock + extent ch) q.pos
      have hclock : clock + (e.endPts - earliest ch) = clock + extent ch := by
        rw [hend]
        rfl
      unfold chaptersFrom tableOf
      rw [if_pos hnew]
      dsimp only
      rw [hclock, hnewPos, hearliest, hrest]
      simp [chapterBetween, hend, startOf]

/-- The first round reads the first chapter, whether it starts at the first byte or not. -/
theorem readsChapter_first {ch later : List PacketDesc} {p : PacketDesc} {rest : List PacketDesc}
    {s : VobDetection} (hF : Sequential F stream (ch ++ later)) (hc : Coherent ch)
    (hcons : ch = p :: rest) (hnewPos : s.newPos = p.pos) (hnewPts : s.newPts = earliest ch)
    (hreads : s.reads = rest ++ later) : ReadsChapter F stream ch later s := by
  have hpos := (hF.within p (by simp [hcons])).1
  have hstart : startOf ch = p.pos := by simp [startOf, hcons]
  have hdrop : ch.drop 1 = rest := by simp [hcons]
  rcases hpos.eq_or_lt with hzero | hpos
  · refine ⟨1, 0, p, le_rfl, by omega, by simp [hcons], by omega, ?_⟩
    have hknown : ¬p.pos < 0 := not_lt.mpr hzero.le
    have htime : F.getTimeAtPosition stream 0 s.reads = (some (p.pts, p.pos), rest ++ later) := by
      unfold VobInput.getTimeAtPosition
      rw [hF.seek_zero, hcons, List.cons_append]
      dsimp only
      rw [if_neg hknown]
    unfold VobInput.findEndOfChapter
    rw [hnewPos, if_pos hzero.ge, ← hzero, neg_zero, htime, hstart, hdrop, ← hzero]
  · obtain ⟨l, q, hl, hle, hpts⟩ := hc.exists_earliest
    refine ⟨1, l, q, le_rfl, by omega, hl, hle, ?_⟩
    unfold VobInput.findEndOfChapter
    rw [hnewPos, if_neg (not_le.mpr hpos), hreads, hpts, hstart, hdrop]
    simp only [entry, hnewPts]

/-- In every file that is laid out in chapters, the detection finds these: after one round for each
chapter the table holds them in their order, each from its first byte to the one before the next
chapter and from its earliest time to its latest, shifted by the extents of those before it. -/
theorem chapters_found {F : VobInput} {stream : Int} {chapters : List (List PacketDesc)}
    (hF : LaidOut F stream chapters) (reads : List PacketDesc) :
    ∃ start answers, enter F stream reads = some start ∧
      Leaves (round F stream) chapters.length start (.found answers) ∧
      start.chapters F (.found answers) = some (tableOf F.size 0 0 chapters) := by
  obtain ⟨ch, cs, rfl⟩ := List.exists_cons_of_ne_nil hF.nonempty
  have hc := hF.coherent ch List.mem_cons_self
  obtain ⟨p, rest, hcons⟩ := List.exists_cons_of_ne_nil hc.ne_nil
  have hsequential := hF.sequential
  rw [List.flatten_cons] at hsequential
  have hlong := hc.long
  rw [hcons, List.length_cons] at hlong
  obtain ⟨p', rest', hpackets, henter⟩ := enter_eq hsequential (by simp [hcons]) reads
  rw [hcons, List.cons_append] at hpackets
  obtain ⟨rfl, rfl⟩ := List.cons.inj hpackets
  have hearliest : ((rest ++ cs.flatten).take 9).foldl (fun pts p => min pts p.pts) p.pts =
      earliest ch := by
    rw [List.take_append_of_le_length (by omega)]
    exact hc.earliest_of_first hcons le_rfl
  have hreads := readsChapter_first (s :=
    { reads := rest ++ cs.flatten
      newPts := ((rest ++ cs.flatten).take 9).foldl (fun pts p => min pts p.pts) p.pts
      newPos := p.pos
      dataProcessed := 0
      answers := [] }) hsequential hc hcons rfl hearliest rfl
  obtain ⟨found, hleaves, hpoints, htable⟩ :=
    leaves_from hsequential hF.coherent hF.jumps (List.suffix_refl _) hreads
  refine ⟨_, found, henter, hleaves, ?_⟩
  obtain ⟨points, hsplit⟩ := hpoints
    { pts := ((rest ++ cs.flatten).take 9).foldl (fun pts p => min pts p.pts) p.pts, pos := p.pos }
  have hbuilt : ∃ table, detectVobChapters F.size
      { pts := ((rest ++ cs.flatten).take 9).foldl (fun pts p => min pts p.pts) p.pts,
        pos := p.pos } found = some table := ⟨_, by rw [detectVobChapters, hsplit]; rfl⟩
  obtain ⟨table, hbuilt⟩ := hbuilt
  have heq := (detectVobChapters_eq hbuilt).1
  refine hbuilt.trans ?_
  rw [heq, hearliest]
  exact congrArg some (htable 0 0)

/-- A chapter of 30 packets, one after the other. -/
def evenChapter (pts : TimestampFF) (pos : Int) : List PacketDesc :=
  (List.range 30).map fun i : Nat =>
    { pts := pts + 3600 * (i : Int), pos := pos + 2048 * (i : Int), duration := 3600, size := 2048 }

theorem getElem?_evenChapter {pts : TimestampFF} {pos : Int} {i : Nat} {p : PacketDesc} :
    (evenChapter pts pos)[i]? = some p ↔ i < 30 ∧
      { pts := pts + 3600 * (i : Int), pos := pos + 2048 * (i : Int), duration := 3600,
        size := 2048 } = p := by
  simp [evenChapter, List.getElem?_eq_some_iff]

/-- The even chapter has no jump. -/
theorem coherent_evenChapter (pts : TimestampFF) (pos : Int) : Coherent (evenChapter pts pos) where
  long := by simp [evenChapter]
  inOrder i j p q hp hq hij := by
    obtain ⟨-, rfl⟩ := getElem?_evenChapter.mp hp
    obtain ⟨-, rfl⟩ := getElem?_evenChapter.mp hq
    show pts + 3600 * (i : Int) ≤ pts + 3600 * (j : Int)
    lia
  close i j p q hp hq hij hji := by
    obtain ⟨-, rfl⟩ := getElem?_evenChapter.mp hp
    obtain ⟨-, rfl⟩ := getElem?_evenChapter.mp hq
    have hsecond : (39600 : Int) ≤ avSecond := by decide
    show ((pts + 3600 * (j : Int) - (pts + 3600 * (i : Int))).natAbs : Int) ≤ avSecond
    omega
  size p hp := by
    obtain ⟨i, hi⟩ := List.mem_iff_getElem?.mp hp
    obtain ⟨hlt, rfl⟩ := getElem?_evenChapter.mp hi
    have hstart : startOf (evenChapter pts pos) = pos := by
      rw [startOf, List.head?_eq_getElem?, getElem?_evenChapter.mpr ⟨by omega, rfl⟩]
      simp
    have hlarge : (2048 * 30 : Int) ≤ CoarseSearch.avgChapterSize := by decide
    show pos + 2048 * (i : Int) - startOf (evenChapter pts pos) ≤ CoarseSearch.avgChapterSize
    rw [hstart]
    omega

/-- A file of two chapters, of which the second starts again at time 0. -/
def twoEvenChapters : List (List PacketDesc) :=
  [evenChapter (5 * avSecond) 0, evenChapter 0 100000]

/-- The file of the two even chapters is laid out in them. -/
theorem laidOut_twoEvenChapters :
    LaidOut (plainInput 200000 twoEvenChapters.flatten) 0 twoEvenChapters where
  sequential :=
    sequential_plainInput (by decide +kernel) (by decide +kernel) (by decide +kernel)
  nonempty := by decide
  coherent ch hc := by
    simp only [twoEvenChapters, List.mem_cons, List.not_mem_nil, or_false] at hc
    rcases hc with rfl | rfl
    · exact coherent_evenChapter _ _
    · exact coherent_evenChapter _ _
  jumps := by decide +kernel

/-- The two even chapters are found. -/
theorem chapters_found_two :
    ∃ start answers, enter (plainInput 200000 twoEvenChapters.flatten) 0 [] = some start ∧
      Leaves (round (plainInput 200000 twoEvenChapters.flatten) 0) 2 start (.found answers) ∧
      start.chapters (plainInput 200000 twoEvenChapters.flatten) (.found answers) =
        some (tableOf 200000 0 0 twoEvenChapters) :=
  chapters_found laidOut_twoEvenChapters []

end VobDetection

end Seekira.Model
