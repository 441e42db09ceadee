import Seekira.Analysis.ChapterLayout

/-!
# The times of the packets of a VOB

The chapters of a VOB start their times anew; the table of chapters puts them one behind
the other.  A packet that is read, in whatever order of seeks and reads, gets its time
within its chapter and on top of it the extents of the chapters before.
-/

set_option autoImplicit false

namespace Seekira.Model

open Library ParserFF ParserSession

variable {fileSize pos : Int} {clock : TimeFF} {chapters : List (List PacketDesc)}

theorem length_tableOf : (tableOf fileSize clock pos chapters).length = chapters.length := by
  induction chapters generalizing clock pos with
  | nil => rfl
  | cons c cs ih =>
    rw [tableOf, List.length_cons, List.length_cons, ih]

/-- The shift of a chapter puts its earliest time behind the extents of the chapters before. -/
theorem getElem?_tableOf {k : Nat} {c : List PacketDesc} {t : TimedChapter}
    (hc : chapters[k]? = some c) (ht : (tableOf fileSize clock pos chapters)[k]? = some t) :
    t.timeShift = clock + ((chapters.take k).map extent).sum - earliest c ∧
      (t.posStart = pos ∧ k = 0 ∨ t.posStart = startOf c) := by
  induction chapters generalizing clock pos k with
  | nil => cases hc
  | cons d cs ih =>
    rw [tableOf] at ht
    cases k with
    | zero =>
      obtain rfl := Option.some.inj hc
      obtain rfl := Option.some.inj ht
      exact ⟨by simp, .inl ⟨rfl, rfl⟩⟩
    | succ k =>
      rw [List.getElem?_cons_succ] at hc ht
      obtain ⟨hshift, hstart⟩ := ih hc ht
      refine ⟨?_, .inr ?_⟩
      · rw [hshift, List.take_succ_cons, List.map_cons, List.sum_cons, ← add_assoc]
      · rcases hstart with ⟨hfirst, rfl⟩ | hlater
        · rw [hfirst]
          cases cs with
          | nil => cases hc
          | cons c' cs =>
            obtain rfl := Option.some.inj hc
            rfl
        · exact hlater

/-- A chapter starts at its first packet, behind the packets of the chapters before. -/
theorem pos_bounds (hincreasing : chapters.flatten.Pairwise fun p q => p.pos < q.pos)
    {a b : Nat} {c d : List PacketDesc} (hc : chapters[a]? = some c) (hd : chapters[b]? = some d)
    (hne : d ≠ []) {q : PacketDesc} (hq : q ∈ c) :
    startOf c ≤ q.pos ∧ (a < b → q.pos < startOf d) := by
  obtain ⟨hinside, hbetween⟩ := List.pairwise_flatten.mp hincreasing
  constructor
  · cases c with
    | nil => cases hq
    | cons p rest =>
      rcases List.mem_cons.mp hq with rfl | hq
      · exact le_rfl
      · exact ((List.pairwise_cons.mp (hinside _ (List.mem_of_getElem? hc))).1 q hq).le
  · intro hlt
    obtain ⟨ha, rfl⟩ := List.getElem?_eq_some_iff.mp hc
    obtain ⟨hb, rfl⟩ := List.getElem?_eq_some_iff.mp hd
    obtain ⟨p, rest, hcons⟩ := List.exists_cons_of_ne_nil hne
    have hafter := List.pairwise_iff_getElem.mp hbetween a b ha hb hlt q hq p (by simp [hcons])
    have hstart : startOf chapters[b] = p.pos := by simp [startOf, hcons]
    rw [hstart]
    exact hafter

/-- The chapter that a search of the table finds is the one that the packet was written in. -/
theorem index_of_lastStart {V : VobInput} {s : Int} (hV : Sequential V s chapters.flatten)
    (hnonempty : ∀ c ∈ chapters, c ≠ []) {k : Nat} {c : List PacketDesc}
    (hc : chapters[k]? = some c) {q : PacketDesc} (hq : q ∈ c) {found : ChapterVOB}
    (hfound : LastStart q.pos
      ((tableOf V.size 0 0 chapters).map TimedChapter.toChapterVOB) found) :
    found.timeShift = ((chapters.take k).map extent).sum - earliest c := by
  have hincreasing := hV.increasing
  obtain ⟨i, hi, hle, hlater⟩ := hfound
  rw [List.getElem?_map] at hi
  obtain ⟨t, ht, rfl⟩ := Option.map_eq_some_iff.mp hi
  obtain ⟨hilt, -⟩ := List.getElem?_eq_some_iff.mp ht
  rw [length_tableOf] at hilt
  have hd := List.getElem?_eq_getElem hilt
  have hdne := hnonempty _ (List.getElem_mem hilt)
  have hcne := hnonempty c (List.mem_of_getElem? hc)
  have hik : i = k := by
    rcases Nat.lt_trichotomy i k with hlt | heq | hlt
    · have hklt : k < (tableOf V.size 0 0 chapters).length := by
        rw [length_tableOf]
        exact (List.getElem?_eq_some_iff.mp hc).1
      have htk := List.getElem?_eq_getElem hklt
      have hbehind := hlater k _ hlt (by rw [List.getElem?_map, htk]; rfl)
      rcases (getElem?_tableOf hc htk).2 with ⟨-, hzero⟩ | hstart
      · omega
      · have hbound := (pos_bounds hincreasing hc hc hcne hq).1
        have hbehind : q.pos < (tableOf V.size 0 0 chapters)[k].posStart := hbehind
        rw [hstart] at hbehind
        exact absurd hbound (not_le.mpr hbehind)
    · exact heq
    · rcases (getElem?_tableOf hd ht).2 with ⟨-, hzero⟩ | hstart
      · omega
      · have hbound := (pos_bounds hincreasing hc hd hdne hq).2 hlt
        have hle : t.posStart ≤ q.pos := hle
        rw [hstart] at hle
        exact absurd hle (not_le.mpr hbound)
  subst hik
  have hshift := (getElem?_tableOf hc ht).1
  rw [zero_add] at hshift
  exact hshift

/-- The packet to which the shift of a chapter is applied was looked up in the table. -/
theorem lastStart_of_applied {F : FFmpegInput} {start w : ParserSession} {s : Int}
    {L : List ChapterVOB} (hL : start.parser.tables.chapters s = some L)
    (hordered : ChapterTable.Ordered L) (hw : (calls F start).Reachable w) {packet : AVPacket}
    {found : ChapterVOB} (happlied : w.parser.tables.appliedChapter = some (packet, found))
    (hs : packet.streamIndex = s) (hpos : 0 < packet.pos) : LastStart packet.pos L found := by
  have hkept := chapters_reachable hL hw
  have hnext := chapters_nextPacket w.parser.tables.ahead w.parser.tables
  unfold appliedChapter at happlied
  rcases h : nextPacket w.parser.tables.ahead w.parser.tables with ⟨_ | pkt, m⟩
  · rw [h] at happlied
    cases happlied
  · rw [h] at happlied hnext
    dsimp only at happlied hnext
    split at happlied
    · obtain ⟨c, hc, hpair⟩ := Option.map_eq_some_iff.mp happlied
      cases hpair
      refine lastStart_enterChapter ?_ hordered hpos hc
      rw [chapters_prepare, hnext, hs]
      exact hkept
    · cases happlied

/-- A chapter ends before the next one, or with the file. -/
theorem posEnd_tableOf {k : Nat} {t : TimedChapter}
    (ht : (tableOf fileSize clock pos chapters)[k]? = some t) :
    chapters[k + 1]? = none ∨ ∃ d, chapters[k + 1]? = some d ∧ t.posEnd = startOf d - 1 := by
  induction chapters generalizing clock pos k with
  | nil => exact .inl rfl
  | cons c cs ih =>
    rw [tableOf] at ht
    cases k with
    | zero =>
      obtain rfl := Option.some.inj ht
      cases cs with
      | nil => exact .inl rfl
      | cons d cs => exact .inr ⟨d, rfl, rfl⟩
    | succ k => exact ih ht

/-- The chapters of the table end before the later ones start. -/
theorem ordered_tableOf {V : VobInput} {s : Int} (hV : Sequential V s chapters.flatten)
    (hnonempty : ∀ c ∈ chapters, c ≠ []) :
    ChapterTable.Ordered ((tableOf V.size 0 0 chapters).map TimedChapter.toChapterVOB) := by
  have hincreasing := hV.increasing
  refine List.pairwise_map.mpr (List.pairwise_iff_getElem.mpr fun i j hi hj hij => ?_)
  have hjlt := hj
  rw [length_tableOf] at hjlt
  have hcj := List.getElem?_eq_getElem hjlt
  have hnej := hnonempty _ (List.getElem_mem hjlt)
  have hstart : (tableOf V.size 0 0 chapters)[j].posStart = startOf chapters[j] := by
    rcases (getElem?_tableOf hcj (List.getElem?_eq_getElem hj)).2 with ⟨-, hzero⟩ | hstart
    · omega
    · exact hstart
  rcases posEnd_tableOf (List.getElem?_eq_getElem hi) with hnone | ⟨d, hd, hend⟩
  · have hle := List.getElem?_eq_none_iff.mp hnone
    omega
  · have hle : startOf d ≤ startOf chapters[j] := by
      rcases (Nat.succ_le_of_lt hij).eq_or_lt with rfl | hlt
      · rw [← Option.some.inj (hd.symm.trans hcj)]
      · obtain ⟨p, rest, rfl⟩ := List.exists_cons_of_ne_nil (hnonempty d (List.mem_of_getElem? hd))
        exact ((pos_bounds hincreasing hd hcj hnej List.mem_cons_self).2 hlt).le
    show (tableOf V.size 0 0 chapters)[i].posEnd < (tableOf V.size 0 0 chapters)[j].posStart
    rw [hend, hstart]
    omega

/-- In every order of seeks and reads on a file of one chapter after the other, with the table of
these: a packet behind the start of the file to which the shift of a chapter is applied has its time
of presentation, as far as `read_packet` shifts it, within the chapter that it was written in and
behind the extents of the chapters before. -/
theorem packets_timed {V : VobInput} {s : Int} (hV : Sequential V s chapters.flatten)
    (hnonempty : ∀ c ∈ chapters, c ≠ []) (F : FFmpegInput) (start : ParserSession)
    (hL : start.parser.tables.chapters s =
      some ((tableOf V.size 0 0 chapters).map TimedChapter.toChapterVOB))
    {w : ParserSession} (hw : (calls F start).Reachable w) {packet : AVPacket} {found : ChapterVOB}
    (happlied : w.parser.tables.appliedChapter = some (packet, found))
    (hs : packet.streamIndex = s) {k : Nat} {c : List PacketDesc} (hc : chapters[k]? = some c)
    {q : PacketDesc} (hq : q ∈ c) (hpos : packet.pos = q.pos) (hpts : packet.pts = q.pts)
    (hpositive : 0 < q.pos) :
    ∃ (returned : AVPacket) (m : ParserFF),
      w.parser.tables.readPacket = (some (m.markKey returned), m) ∧
        returned.pts = ((chapters.take k).map extent).sum + (q.pts - earliest c) ∧
        0 ≤ q.pts - earliest c ∧ q.pts - earliest c ≤ extent c - lastDuration c * 2 := by
  have hlast := lastStart_of_applied hL (ordered_tableOf hV hnonempty) hw happlied hs
    (hpos ▸ hpositive)
  rw [hpos] at hlast
  have hshift := index_of_lastStart hV hnonempty hc hq hlast
  obtain ⟨m, hread⟩ := readPacket_of_applied happlied
  have hne := hnonempty c (List.mem_of_getElem? hc)
  have hknown : packet.pts ≠ avNoPtsValue := by
    rw [hpts]
    exact hV.pts_known (List.mem_flatten.mpr ⟨c, List.mem_of_getElem? hc, hq⟩)
  have hleast := (earliest_spec hne).2 q hq
  have hmost := (latest_spec hne).2 q hq
  refine ⟨_, m, hread, ?_, Int.sub_nonneg_of_le hleast, ?_⟩
  · rw [shiftedBy, if_pos hknown, hpts, hshift]
    lia
  · unfold extent
    lia

/-- A VOB of two chapters, of which the second packet of the second chapter is to be read. -/
def evenSession : ParserSession :=
  let parser := OpenParser.created (audioInput 1) { plainFormat with formatVOB := true }
    [⟨0, 3600, 3600, 3600, 102048, 0⟩] (fun _ => audioStream) avNoPtsValue
  let table := (tableOf 200000 0 0 VobDetection.twoEvenChapters).map TimedChapter.toChapterVOB
  { parser :=
      { parser with
        tables := { parser.tables with streamCount := 1, chapters := fun _ => some table } }
    events := [], since := [] }

/-- The second packet of the second of two even chapters. -/
theorem packets_timed_even :
    ∃ (returned : AVPacket) (m : ParserFF),
      evenSession.parser.tables.readPacket = (some (m.markKey returned), m) ∧
        returned.pts = extent (VobDetection.evenChapter (5 * avSecond) 0) + 3600 := by
  have happlied : evenSession.parser.tables.appliedChapter =
      some (⟨0, 3600, 3600, 3600, 102048, 0⟩, ⟨111600, 100000, 200000⟩) := by decide +kernel
  obtain ⟨returned, m, hread, hpts, -⟩ := packets_timed
    VobDetection.laidOut_twoEvenChapters.sequential (by decide +kernel)
    (audioInput 1) evenSession rfl ⟨[], .init⟩ happlied rfl (k := 1)
    (c := VobDetection.evenChapter 0 100000) rfl (q := ⟨3600, 102048, 3600, 2048⟩)
    (by decide) rfl rfl (by decide)
  exact ⟨returned, m, hread, hpts.trans (by decide +kernel)⟩

end Seekira.Model
