import Seekira.Analysis.PacketFrame
import Seekira.Analysis.RestoredTimes
import Seekira.Model.ChapterTable

/-!
# The chapters of a VOB and the lookup of a packet's chapter

The chapters of a stream tile the file, and their times follow one another.  So a chapter
that covers the position of a packet is the last one that starts at or before it, and the
remembered chapter of a stream can stand for a search of the table.
-/

set_option autoImplicit false

namespace Seekira.Model

namespace ChapterTable

/-! ## Building the table -/

/-- Where the chapters after the first one start. -/
def laterStarts : List ChapterEnd → List Int
  | [] => []
  | e :: rest => if e.newPts ≠ avNoPtsValue then e.newPos :: laterStarts rest else []

/-- Where the chapters start. -/
def chapterStarts (first : SplitPoint) (answers : List ChapterEnd) : List Int :=
  first.pos :: laterStarts answers

/-- The chapters cover the file from the first byte to its size without gaps, and the time of each
goes on where that of the one before ends. -/
structure Tiles (fileSize : Int) (chapters : List TimedChapter) : Prop where
  first : ∃ c, chapters.head? = some c ∧ c.posStart = 0
  adjacent : chapters.IsChain fun c c' =>
    c.posEnd + 1 = c'.posStart ∧ c.ptsEnd + c.timeShift = c'.ptsStart + c'.timeShift
  last : ∃ c, chapters.getLast? = some c ∧ c.posEnd = fileSize

/-- Every chapter ends before the next ones start. -/
def Ordered (chapters : List ChapterVOB) : Prop :=
  chapters.Pairwise fun c c' => c.posEnd < c'.posStart

/-- The chapters from `start` on, without the list of points. -/
def chaptersFrom (fileSize : Int) : TimeFF → SplitPoint → List ChapterEnd → List TimedChapter
  | _, _, [] => []
  | clock, start, e :: rest =>
    if e.newPts ≠ avNoPtsValue then
      chapterBetween clock start { pts := e.endPts, pos := e.newPos - 1 } ::
        chaptersFrom fileSize (clock + (e.endPts - start.pts)) { pts := e.newPts, pos := e.newPos }
          rest
    else [chapterBetween clock start { pts := e.endPts, pos := fileSize }]

/-- The last position is set to the size of the file. -/
def patchLast (fileSize : Int) (points : List SplitPoint) : List SplitPoint :=
  points.modify (points.length - 1) fun p => { p with pos := fileSize }

/-- Only the last chapter ends with the file. -/
theorem patchLast_cons_cons (fileSize : Int) (a b : SplitPoint) {points : List SplitPoint}
    (h : points ≠ []) : patchLast fileSize (a :: b :: points) =
      a :: b :: patchLast fileSize points := by
  have hpos := List.length_pos_of_ne_nil h
  unfold patchLast
  rw [show (a :: b :: points).length - 1 = (points.length - 1) + 2 by
    rw [List.length_cons, List.length_cons]
    omega]
  rfl

variable {fileSize : Int} {start : SplitPoint} {answers : List ChapterEnd}
  {points : List SplitPoint}

theorem splitPoints_ne_nil (h : splitPoints start answers = some points) :
    ∃ stop rest, points = start :: stop :: rest := by
  cases answers with
  | nil => cases h
  | cons e rest =>
    unfold splitPoints at h
    dsimp only at h
    split at h
    · obtain ⟨more, -, rfl⟩ := Option.map_eq_some_iff.mp h
      exact ⟨_, _, rfl⟩
    · cases h
      exact ⟨_, _, rfl⟩

/-- The chapters that are built are those between the split points. -/
theorem buildChapters_patchLast (clock : TimeFF) (h : splitPoints start answers = some points) :
    buildChapters clock (patchLast fileSize points) =
      chaptersFrom fileSize clock start answers := by
  induction answers generalizing start points clock with
  | nil => cases h
  | cons e rest ih =>
    unfold splitPoints at h
    dsimp only at h
    unfold chaptersFrom
    split at h
    · rename_i hnew
      obtain ⟨more, hmore, rfl⟩ := Option.map_eq_some_iff.mp h
      obtain ⟨stop, later, rfl⟩ := splitPoints_ne_nil hmore
      rw [if_pos hnew, patchLast_cons_cons fileSize _ _ (List.cons_ne_nil _ _), buildChapters,
        ih _ hmore]
    · rename_i hlast
      cases h
      rw [if_neg hlast]
      rfl

/-- The first position does not matter to the rest. -/
theorem splitPoints_move (h : splitPoints start answers = some points) (pos : Int) :
    splitPoints { start with pos := pos } answers =
      some (points.modify 0 fun p => { p with pos := pos }) := by
  cases answers with
  | nil => cases h
  | cons e rest =>
    unfold splitPoints at h ⊢
    dsimp only at h ⊢
    split at h
    · rename_i hnew
      obtain ⟨more, hmore, rfl⟩ := Option.map_eq_some_iff.mp h
      rw [if_pos hnew, hmore]
      rfl
    · rename_i hlast
      cases h
      rw [if_neg hlast]
      rfl

/-- The table is the list of the chapters from byte 0 on. -/
theorem detectVobChapters_eq {chapters : List TimedChapter}
    (h : detectVobChapters fileSize start answers = some chapters) :
    chapters = chaptersFrom fileSize 0 { start with pos := 0 } answers ∧ answers ≠ [] := by
  obtain ⟨points, hpoints, rfl⟩ := Option.map_eq_some_iff.mp h
  obtain ⟨stop, rest, hcons⟩ := splitPoints_ne_nil hpoints
  have hmoved := splitPoints_move hpoints 0
  have hlength : points.length > 1 := by
    rw [hcons]
    simp
  rw [if_pos hlength]
  refine ⟨?_, ?_⟩
  · rw [← buildChapters_patchLast 0 hmoved]
    rfl
  · rintro rfl
    cases hpoints

/-! ## Tiling -/

/-- The first chapter starts at the first point. -/
theorem chaptersFrom_cons (clock : TimeFF) (start : SplitPoint) (h : answers ≠ []) :
    ∃ c rest, chaptersFrom fileSize clock start answers = c :: rest ∧ c.posStart = start.pos ∧
      c.ptsStart + c.timeShift = clock := by
  cases answers with
  | nil => exact absurd rfl h
  | cons e rest =>
    unfold chaptersFrom
    have hclock : start.pts + (clock - start.pts) = clock := by lia
    split
    · exact ⟨_, _, rfl, rfl, hclock⟩
    · exact ⟨_, _, rfl, rfl, hclock⟩

/-- Each chapter begins where the one before ends, in bytes and in time. -/
theorem adjacent_chaptersFrom (clock : TimeFF) (start : SplitPoint) (answers : List ChapterEnd) :
    (chaptersFrom fileSize clock start answers).IsChain fun c c' =>
      c.posEnd + 1 = c'.posStart ∧ c.ptsEnd + c.timeShift = c'.ptsStart + c'.timeShift := by
  induction answers generalizing clock start with
  | nil => exact .nil
  | cons e rest ih =>
    unfold chaptersFrom
    split
    · by_cases hrest : rest = []
      · subst hrest
        exact .singleton _
      · have hchain := ih (clock + (e.endPts - start.pts)) { pts := e.newPts, pos := e.newPos }
        obtain ⟨c, more, hcons, hpos, hclock⟩ := @chaptersFrom_cons fileSize rest
          (clock + (e.endPts - start.pts)) { pts := e.newPts, pos := e.newPos } hrest
        rw [hcons] at hchain ⊢
        refine .cons_cons ⟨?_, ?_⟩ hchain
        · rw [hpos]
          exact Int.sub_add_cancel e.newPos 1
        · rw [hclock]
          show e.endPts + (clock - start.pts) = clock + (e.endPts - start.pts)
          lia
    · exact .singleton _

/-- The last chapter ends with the file. -/
theorem last_chaptersFrom (clock : TimeFF) (h : splitPoints start answers = some points) :
    ∃ c, (chaptersFrom fileSize clock start answers).getLast? = some c ∧ c.posEnd = fileSize := by
  induction answers generalizing clock start points with
  | nil => cases h
  | cons e rest ih =>
    unfold splitPoints at h
    dsimp only at h
    unfold chaptersFrom
    split at h
    · rename_i hnew
      obtain ⟨more, hmore, -⟩ := Option.map_eq_some_iff.mp h
      obtain ⟨c, hlast, hend⟩ := ih (clock + (e.endPts - start.pts)) hmore
      rw [if_pos hnew, List.getLast?_cons, hlast]
      exact ⟨c, rfl, hend⟩
    · rename_i hlast
      rw [if_neg hlast]
      exact ⟨_, rfl, rfl⟩

/-- No chapter starts before the first one. -/
theorem le_posStart (clock : TimeFF) {answers : List ChapterEnd}
    (h : (chapterStarts start answers).Pairwise (· < ·)) :
    ∀ c ∈ chaptersFrom fileSize clock start answers, start.pos ≤ c.posStart := by
  induction answers generalizing clock start with
  | nil => nofun
  | cons e rest ih =>
    unfold chapterStarts laterStarts at h
    unfold chaptersFrom
    intro c hc
    split at h
    · rename_i hnew
      rw [if_pos hnew] at hc
      obtain ⟨hfirst, hlater⟩ := List.pairwise_cons.mp h
      have hrest : (chapterStarts { pts := e.newPts, pos := e.newPos } rest).Pairwise (· < ·) :=
        hlater
      rcases List.mem_cons.mp hc with rfl | hc
      · exact Int.le_refl start.pos
      · have hle : e.newPos ≤ c.posStart := ih (clock + (e.endPts - start.pts)) hrest c hc
        have hlt := hfirst e.newPos List.mem_cons_self
        exact Int.le_trans (Int.le_of_lt hlt) hle
    · rename_i hlast
      rw [if_neg hlast] at hc
      obtain rfl := List.mem_singleton.mp hc
      exact Int.le_refl start.pos

/-- Chapters that start behind one another end before the later ones start. -/
theorem ordered_chaptersFrom (clock : TimeFF) {answers : List ChapterEnd}
    (h : (chapterStarts start answers).Pairwise (· < ·)) :
    (chaptersFrom fileSize clock start answers).Pairwise fun c c' => c.posEnd < c'.posStart := by
  induction answers generalizing clock start with
  | nil => exact .nil
  | cons e rest ih =>
    unfold chapterStarts laterStarts at h
    unfold chaptersFrom
    split at h
    · rename_i hnew
      rw [if_pos hnew]
      have hrest : (chapterStarts { pts := e.newPts, pos := e.newPos } rest).Pairwise (· < ·) :=
        (List.pairwise_cons.mp h).2
      refine .cons (fun c hc => ?_) (ih (clock + (e.endPts - start.pts)) hrest)
      have hle : e.newPos ≤ c.posStart :=
        le_posStart (clock + (e.endPts - start.pts)) hrest c hc
      exact Int.lt_of_lt_of_le (Int.sub_lt_self e.newPos Int.one_pos) hle
    · rename_i hlast
      rw [if_neg hlast]
      exact .cons nofun .nil

/-- The first position may be moved to the start of the file. -/
theorem chapterStarts_from_zero {first : SplitPoint}
    (h : (chapterStarts first answers).Pairwise (· < ·)) (hfirst : 0 ≤ first.pos) :
    (chapterStarts { first with pos := 0 } answers).Pairwise (· < ·) := by
  obtain ⟨hlater, hrest⟩ := List.pairwise_cons.mp h
  exact .cons (fun pos hpos => Int.lt_of_le_of_lt hfirst (hlater pos hpos)) hrest

/-- The chapters found tile the file. -/
theorem tiles_detectVobChapters {first : SplitPoint} {chapters : List TimedChapter}
    (h : detectVobChapters fileSize first answers = some chapters) : Tiles fileSize chapters := by
  obtain ⟨rfl, hne⟩ := detectVobChapters_eq h
  obtain ⟨points, hpoints, -⟩ := Option.map_eq_some_iff.mp h
  obtain ⟨c, rest, hcons, hpos, -⟩ :=
    @chaptersFrom_cons fileSize answers 0 { first with pos := 0 } hne
  exact ⟨⟨c, by rw [hcons]; rfl, hpos⟩, adjacent_chaptersFrom _ _ _,
    last_chaptersFrom 0 (splitPoints_move hpoints 0)⟩

end ChapterTable

/-! ## The lookup -/

namespace ParserFF

open ChapterTable

variable {L : List ChapterVOB} {c : ChapterVOB} {pos : Int}

/-- The chapter is the last one of the list that starts at or before `pos`. -/
def LastStart (pos : Int) (L : List ChapterVOB) (c : ChapterVOB) : Prop :=
  ∃ i : Nat, L[i]? = some c ∧ c.posStart ≤ pos ∧
    ∀ (j : Nat) c', i < j → L[j]? = some c' → pos < c'.posStart

/-- The last index below `n` that passes a test. -/
theorem find_reverse_range {n i : Nat} {p : Nat → Bool}
    (h : (List.range n).reverse.find? p = some i) :
    p i = true ∧ ∀ j, i < j → j < n → p j = false := by
  induction n with
  | zero => cases h
  | succ n ih =>
    rw [List.range_succ, List.reverse_concat, List.find?_cons] at h
    split at h
    · rename_i hn
      obtain rfl := Option.some.inj h
      exact ⟨hn, fun j hij hjn => by omega⟩
    · rename_i hn
      obtain ⟨hi, hlater⟩ := ih h
      refine ⟨hi, fun j hij hjn => ?_⟩
      by_cases hj : j = n
      · rw [hj]
        simpa using hn
      · exact hlater j hij (by omega)

/-- The search of the table. -/
theorem lastStart_beginChapter (h : chapterAt L (beginChapter pos L) = some c) :
    LastStart pos L c := by
  unfold beginChapter at h
  split at h
  · rename_i i hfind
    obtain ⟨hi, hlater⟩ := find_reverse_range hfind
    unfold chapterAt at h
    split at h
    · cases h
    · rw [Int.toNat_natCast] at h
      rw [h] at hi
      refine ⟨i, h, by simpa using hi, fun j c' hij hc' => ?_⟩
      have hj := hlater j hij (List.getElem?_eq_some_iff.mp hc').1
      rw [hc'] at hj
      simpa using hj
  · cases h

/-- In an ordered table, a chapter that covers the position is what a search finds. -/
theorem lastStart_of_covers (hordered : Ordered L) {i : Nat} (hi : L[i]? = some c)
    (hstart : c.posStart ≤ pos) (hend : pos ≤ c.posEnd) : LastStart pos L c := by
  refine ⟨i, hi, hstart, fun j c' hij hc' => ?_⟩
  obtain ⟨hilt, rfl⟩ := List.getElem?_eq_some_iff.mp hi
  obtain ⟨hjlt, rfl⟩ := List.getElem?_eq_some_iff.mp hc'
  exact Int.lt_of_le_of_lt hend (List.pairwise_iff_getElem.mp hordered i j hilt hjlt hij)

/-- The remembered chapter, whatever it is, does not change what is found. -/
theorem lastStart_packetChapter (hordered : Ordered L) {packet : AVPacket} (hpos : 0 < packet.pos)
    {current : Int} (h : chapterAt L (packetChapter packet L current) = some c) :
    LastStart packet.pos L c := by
  unfold packetChapter at h
  rw [if_pos hpos] at h
  split at h
  · exact lastStart_beginChapter h
  · rename_i c₀ hcurrent
    split at h
    · exact lastStart_beginChapter h
    · rename_i hcovers
      obtain rfl := Option.some.inj (hcurrent.symm.trans h)
      unfold chapterAt at h
      split at h
      · cases h
      · exact lastStart_of_covers hordered h (by omega) (by omega)

/-- The chapter entered for a packet is the last that starts at or before it. -/
theorem lastStart_enterChapter {m : ParserFF} {packet : AVPacket}
    (hL : m.chapters packet.streamIndex = some L) (hordered : Ordered L) (hpos : 0 < packet.pos)
    (h : (m.enterChapter packet).1 = some c) : LastStart packet.pos L c := by
  unfold enterChapter at h
  simp only [hL, Option.isSome_some, if_true, Option.getD_some] at h
  exact lastStart_packetChapter hordered hpos h

/-! ## Reading packets -/

/-- The timestamps of the packet are shifted by the chapter. -/
def shiftedBy (c : ChapterVOB) (packet : AVPacket) : AVPacket :=
  { packet with
    pts := if packet.pts ≠ avNoPtsValue then packet.pts + c.timeShift else packet.pts
    dts := if packet.dts ≠ avNoPtsValue then packet.dts + c.timeShift else packet.dts }

/-- The packet to which the next `read_packet` applies the shift of a chapter, with the chapter. -/
def appliedChapter (m : ParserFF) : Option (AVPacket × ChapterVOB) :=
  match nextPacket m.ahead m with
  | (none, _) => none
  | (some pkt, m) =>
    let (packet, m) := m.prepare pkt
    if (m.formatVRO || m.formatVOB) && (m.streams pkt.unref.streamIndex).codecType ≠ .data then
      (m.enterChapter packet).1.map fun c => (packet, c)
    else none

/-- That shift is what the packet is returned with. -/
theorem readPacket_of_applied {m : ParserFF} {packet : AVPacket}
    (h : m.appliedChapter = some (packet, c)) :
    ∃ m' : ParserFF, m.readPacket = (some (m'.markKey (shiftedBy c packet)), m') := by
  unfold appliedChapter at h
  unfold readPacket
  rcases hnext : nextPacket m.ahead m with ⟨_ | pkt, m₁⟩
  · rw [hnext] at h
    cases h
  · rw [hnext] at h
    dsimp only at h ⊢
    split at h
    · rename_i hvob
      obtain ⟨c', hc', hpair⟩ := Option.map_eq_some_iff.mp h
      cases hpair
      unfold correct
      rw [if_pos hvob]
      unfold correctByChapter
      dsimp only
      rw [hc']
      exact ⟨_, rfl⟩
    · cases h

/-- Restoring the times of a packet keeps the table of chapters. -/
theorem chapters_restorePacketPts (packet : AVPacket) (m : ParserFF) :
    (m.restorePacketPts packet).2.chapters = m.chapters := by
  unfold restorePacketPts
  split
  · rfl
  · split
    · split <;> rfl
    · rfl

theorem chapters_detectRuntimeTimeshift (packet : AVPacket) (m : ParserFF) :
    (m.detectRuntimeTimeshift packet).chapters = m.chapters := by
  unfold detectRuntimeTimeshift
  dsimp only
  repeat' split
  all_goals rfl

theorem chapters_prepare (packet : AVPacket) (m : ParserFF) :
    (m.prepare packet).2.chapters = m.chapters := by
  unfold prepare
  dsimp only
  have hrestored : (if m.formatDAV || m.formatASF then m.restorePacketPts packet
      else (packet, m)).2.chapters = m.chapters := by
    split
    · exact chapters_restorePacketPts packet m
    · rfl
  split
  · exact (chapters_detectRuntimeTimeshift _ _).trans hrestored
  · exact (chapters_detectRuntimeTimeshift _ _).trans hrestored

theorem chapters_nextPacket (ahead : List AVPacket) (m : ParserFF) :
    (nextPacket ahead m).2.chapters = m.chapters := by
  obtain ⟨rest, pos, hframe, -, -⟩ := nextPacket_frame ahead m
  rw [hframe]

/-- A list of chapters stays as it is while packets are read. -/
theorem chapters_correct {s : Int} {m : ParserFF} (hL : m.chapters s = some L) (stream : Int)
    (packet : AVPacket) : (m.correct stream packet).2.chapters s = some L := by
  have henter : (m.enterChapter packet).2.chapters s = some L := by
    unfold enterChapter
    dsimp only
    by_cases hkey : s = if (m.chapters packet.streamIndex).isSome then packet.streamIndex
        else m.defaultChapterListIndex
    · rw [← hkey, Function.update_self, hL]
      rfl
    · rw [Function.update_of_ne hkey]
      exact hL
  unfold correct
  split
  · unfold correctByChapter
    dsimp only
    split
    · exact henter
    · exact henter
  · unfold correctByShift
    dsimp only
    repeat' split
    all_goals exact hL

theorem chapters_readPacket {s : Int} {m : ParserFF} (hL : m.chapters s = some L) :
    m.readPacket.2.chapters s = some L := by
  have hnext := chapters_nextPacket m.ahead m
  unfold readPacket
  rcases h : nextPacket m.ahead m with ⟨_ | pkt, m₁⟩
  · rw [h] at hnext
    rw [← hnext] at hL
    exact hL
  · rw [h] at hnext
    apply chapters_correct
    rw [chapters_prepare, hnext]
    exact hL

end ParserFF

/-! ## Over all orders of seeks and reads -/

namespace ParserSession

open Library ChapterTable ParserFF

variable {F : FFmpegInput} {L : List ChapterVOB}

/-- The calls of a parser from `start` on. -/
def calls (F : FFmpegInput) (start : ParserSession) : Machine ParserSession ParserCall where
  init := start
  step s c := some (s.call F c)

/-- The chapters lie where they were built; the synchronisation of the streams may have changed
their shifts. -/
def SamePositions (L : List ChapterVOB) (chapters : List TimedChapter) : Prop :=
  (L.map fun c => (c.posStart, c.posEnd)) = chapters.map fun c => (c.posStart, c.posEnd)

/-- A table with the same positions is ordered as well. -/
theorem SamePositions.ordered {chapters : List TimedChapter} (h : SamePositions L chapters)
    (hordered : chapters.Pairwise fun c c' => c.posEnd < c'.posStart) : Ordered L := by
  have hpositions : (chapters.map fun c => (c.posStart, c.posEnd)).Pairwise
      fun a b => a.2 < b.1 := List.pairwise_map.mpr hordered
  rw [← h] at hpositions
  exact List.pairwise_map.mp hpositions

/-- A seek clears the remembered chapters and leaves the tables. -/
theorem chapters_seek {p : OpenParser} {s : Int} (hL : p.tables.chapters s = some L)
    (index : Int) (time : TimestampFF) :
    (OpenParser.seek F index time p).1.2.tables.chapters s = some L := by
  have hsurvives : OpenParser.SurvivesSeek F index fun p => p.tables.chapters s = some L :=
    { fillGenPts := fun _ _ h => h, forgetFirst := fun _ h _ => h, reposition := fun _ _ h => h,
      reopen := fun _ _ _ h _ => h, clearChapters := fun _ h => h, restartAll := fun _ h _ => h,
      restartStream := fun _ h _ => h }
  exact (OpenParser.survives_seek hsurvives time p hL).1

theorem chapters_reachable {start w : ParserSession} {s : Int}
    (hL : start.parser.tables.chapters s = some L) (h : (calls F start).Reachable w) :
    w.parser.tables.chapters s = some L := by
  refine h.invariant (I := fun w => w.parser.tables.chapters s = some L) hL ?_
  intro w c w' hw hstep
  obtain rfl := Option.some.inj hstep
  cases c with
  | read =>
    show (OpenParser.read F w.parser).1.2.tables.chapters s = some L
    rw [(OpenParser.read_result w.parser).2]
    exact chapters_readPacket hw
  | seek index time => exact chapters_seek hw index time

/-- The chapters of a stream whose starts increase within the file tile the file, and whatever was
read and sought before, the shift applied to a packet of the stream is that of the last chapter
that starts at or before the packet's position. -/
theorem chapters_tile_and_shift {fileSize : Int} {first : SplitPoint} {answers : List ChapterEnd}
    {chapters : List TimedChapter}
    (hbuilt : detectVobChapters fileSize first answers = some chapters)
    (hincrease : (chapterStarts first answers).Pairwise (· < ·))
    (hwithin : ∀ pos ∈ chapterStarts first answers, 0 ≤ pos ∧ pos ≤ fileSize) :
    Tiles fileSize chapters ∧
      ∀ (F : FFmpegInput) (start : ParserSession) (s : Int) (L : List ChapterVOB),
        start.parser.tables.chapters s = some L → SamePositions L chapters →
        ∀ w, (calls F start).Reachable w → ∀ packet c,
          w.parser.tables.appliedChapter = some (packet, c) → packet.streamIndex = s →
          0 < packet.pos → packet.pos ≤ fileSize →
          LastStart packet.pos L c ∧
            ∃ m : ParserFF, w.parser.tables.readPacket =
              (some (m.markKey (shiftedBy c packet)), m) := by
  refine ⟨tiles_detectVobChapters hbuilt, ?_⟩
  intro F start s L hL hsame w hw packet c happlied hs hpos _
  refine ⟨?_, readPacket_of_applied happlied⟩
  have hordered : Ordered L := by
    apply hsame.ordered
    rw [(detectVobChapters_eq hbuilt).1]
    exact ordered_chaptersFrom 0
      (chapterStarts_from_zero hincrease (hwithin first.pos List.mem_cons_self).1)
  have hkept := chapters_reachable hL hw
  unfold appliedChapter at happlied
  have hnext := chapters_nextPacket w.parser.tables.ahead w.parser.tables
  rcases h : nextPacket w.parser.tables.ahead w.parser.tables with ⟨_ | pkt, m⟩
  · rw [h] at happlied
    cases happlied
  · rw [h] at happlied hnext
    dsimp only at happlied hnext
    split at happlied
    · obtain ⟨c', hc', hpair⟩ := Option.map_eq_some_iff.mp happlied
      cases hpair
      refine lastStart_enterChapter ?_ hordered hpos hc'
      rw [chapters_prepare, hnext, hs]
      exact hkept
    · cases happlied

/-- Two chapters, of which the second starts again at time 0. -/
def twoChapters : List ChapterVOB := [⟨0, 0, 49⟩, ⟨100, 50, 100⟩]

/-- A stream of two packets, one in each chapter. -/
def vobSession : ParserSession :=
  let parser := OpenParser.created (audioInput 1) { plainFormat with formatVOB := true }
    [⟨0, 20, 20, 10, 10, 0⟩, ⟨0, 10, 10, 10, 60, 0⟩] (fun _ => audioStream) avNoPtsValue
  { parser :=
      { parser with
        tables := { parser.tables with streamCount := 1, chapters := fun _ => some twoChapters } }
    events := [], since := [] }

/-- After the first packet is read its chapter is remembered, and the second packet is shifted by
the other chapter. -/
theorem chapters_tile_and_shift_two :
    ∃ chapters, detectVobChapters 100 ⟨0, 0⟩ [⟨100, 0, 50, 50⟩, ⟨200, avNoPtsValue, 0, 0⟩] =
        some chapters ∧ Tiles 100 chapters ∧ LastStart 60 twoChapters ⟨100, 50, 100⟩ := by
  obtain ⟨htiles, hshift⟩ := @chapters_tile_and_shift 100 ⟨0, 0⟩
    [⟨100, 0, 50, 50⟩, ⟨200, avNoPtsValue, 0, 0⟩] _ rfl (by decide) (by decide)
  have hread : (calls (audioInput 1) vobSession).Reachable (vobSession.call (audioInput 1) .read) :=
    ⟨_, .step .init rfl⟩
  obtain ⟨hlast, -⟩ := hshift (audioInput 1) vobSession 0 twoChapters rfl rfl _ hread
    ⟨0, 10, 10, 10, 60, 0⟩ ⟨100, 50, 100⟩ (by decide +kernel) rfl (by decide) (by decide)
  exact ⟨_, rfl, htiles, hlast⟩

end ParserSession

end Seekira.Model
