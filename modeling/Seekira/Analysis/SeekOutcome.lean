import Seekira.Model.ParserOpening

/-!
# Seeks that do nothing

`ParserFF::seek` looks the direction up in the table of last timestamps and returns when the stream
has no entry, without repositioning and without an exception.  Of the streams of the header only the
last one has an entry after opening; the others get theirs when `read` returns one of their packets.
-/

set_option autoImplicit false

namespace Seekira.Model.OpenParser

open Library

variable {F : FFmpegInput}

/-- A request that succeeded. -/
def Repositions (e : ParserEvent) : Prop := ∃ request, e = .reposition request true

/-- The seek throws or performs a request that succeeds. -/
abbrev Effective (seek : Opening Unit) (p : OpenParser) : Prop :=
  Recorded.Reports Repositions seek p

@[simp] theorem not_repositions_access (table : StreamTable) (index size : Int) :
    ¬Repositions (.access table index size) := by
  rintro ⟨request, h⟩
  cases h

/-! ## The steps of a seek -/

/-- The parts of the parser that decide where a seek ends. -/
structure Alike (p p' : OpenParser) : Prop where
  nbStreams : p'.nbStreams = p.nbStreams
  lastSeekTs : p'.lastSeekTs = p.lastSeekTs
  formatIMG : p'.formatIMG = p.formatIMG
  streamCount : p'.tables.streamCount = p.tables.streamCount
  formatSWF : p'.tables.formatSWF = p.tables.formatSWF
  formatMpegTs : p'.tables.formatMpegTs = p.tables.formatMpegTs

theorem Alike.getSeekStream {p p' : OpenParser} (h : Alike p p') :
    p'.getSeekStream F = p.getSeekStream F := by
  unfold OpenParser.getSeekStream
  rw [h.nbStreams]

theorem Alike.trans {p p' p'' : OpenParser} (h : Alike p p') (h' : Alike p' p'') : Alike p p'' where
  nbStreams := h'.nbStreams.trans h.nbStreams
  lastSeekTs := h'.lastSeekTs.trans h.lastSeekTs
  formatIMG := h'.formatIMG.trans h.formatIMG
  streamCount := h'.streamCount.trans h.streamCount
  formatSWF := h'.formatSWF.trans h.formatSWF
  formatMpegTs := h'.formatMpegTs.trans h.formatMpegTs

/-- The procedure returns without a request, in a parser that is alike. -/
def Prepares {α : Type} (q : Opening α) (p : OpenParser) (Q : α → Prop) : Prop :=
  ∃ a p' events, q p = ((.ok a, p'), events) ∧ Alike p p' ∧ Q a ∧ ∀ e ∈ events, ¬Repositions e

/-- The stream is an attached picture. -/
def IsCover (F : FFmpegInput) (index : Int) (p : OpenParser) : Prop :=
  p.nbStreams ≠ 0 ∧ F.attachedPic index = true

/-- The look for a cover, with its access. -/
theorem isCover_apply (index : Int) (p : OpenParser) :
    isCover F index p = ((.ok (decide (p.nbStreams ≠ 0) && F.attachedPic index), p),
      if p.nbStreams = 0 then [] else [.access .streams index p.nbStreams]) := by
  unfold isCover
  rw [Recorded.get_bind_apply]
  by_cases hnone : p.nbStreams = 0
  · simp [hnone]
  · rw [if_neg hnone]
    simp [access, tableCount, hnone]
    rfl

/-- A stream that is no cover is prepared as such. -/
theorem prepares_isCover (index : Int) {p : OpenParser} (hcover : ¬IsCover F index p) :
    Prepares (isCover F index) p fun cover => cover = false := by
  refine ⟨_, _, _, isCover_apply index p, ⟨rfl, rfl, rfl, rfl, rfl, rfl⟩, ?_, ?_⟩
  · unfold IsCover at hcover
    simpa using hcover
  · split
    · simp
    · simp

theorem prepares_clearChapters (p : OpenParser) :
    Prepares (modifyTables fun m => { m with currentChapter := fun _ => none }) p fun _ => True :=
  ⟨(), _, _, rfl, ⟨rfl, rfl, rfl, rfl, rfl, rfl⟩, trivial, nofun⟩

theorem prepares_restartAll (time : TimestampFF) (p : OpenParser) :
    Prepares (restartAll time) p fun t => t = time ∨ t = 0 := by
  unfold restartAll Prepares
  rw [Recorded.get_bind_apply]
  split
  · exact ⟨0, _, _, rfl, ⟨rfl, rfl, rfl, rfl, rfl, rfl⟩, .inr rfl, by simp⟩
  · exact ⟨time, _, _, rfl, ⟨rfl, rfl, rfl, rfl, rfl, rfl⟩, .inl rfl, by simp⟩

theorem prepares_restartStream (index : Int) (time : TimestampFF) (p : OpenParser) :
    Prepares (restartStream index time) p fun t => t = time ∨ t = 0 := by
  unfold restartStream Prepares
  rw [Recorded.get_bind_apply]
  split
  · rw [access_bind_apply, modifyTables_bind_apply]
    exact ⟨0, _, _, rfl, ⟨rfl, rfl, rfl, rfl, rfl, rfl⟩, .inr rfl, by simp⟩
  · exact ⟨time, _, _, rfl, ⟨rfl, rfl, rfl, rfl, rfl, rfl⟩, .inl rfl, by simp⟩

theorem prepares_checkSeek {index : Int} {time : TimestampFF} {p : OpenParser} (htime : 0 ≤ time)
    (hindex : index < p.tables.streamCount) (himg : p.formatIMG = false) :
    Prepares (checkSeek index time) p fun _ => True := by
  unfold checkSeek Prepares
  rw [Recorded.get_bind_apply, if_neg (Int.not_lt.mpr htime), if_neg (Int.not_le.mpr hindex),
    if_neg (by simp [himg])]
  exact ⟨(), _, _, rfl, ⟨rfl, rfl, rfl, rfl, rfl, rfl⟩, trivial, by simp⟩

theorem prepares_seekImage (index : Int) (time : TimestampFF) {p : OpenParser}
    (himg : p.formatIMG = false) : Prepares (seekImage F index time) p fun _ => True := by
  unfold seekImage Prepares
  rw [Recorded.get_bind_apply, if_neg (by simp [himg])]
  exact ⟨(), _, _, rfl, ⟨rfl, rfl, rfl, rfl, rfl, rfl⟩, trivial, by simp⟩

theorem prepares_checkMpegTs (index : Int) {p : OpenParser}
    (hts : ¬(p.tables.formatMpegTs = true ∧ index ≠ p.getSeekStream F)) :
    Prepares (checkMpegTs F index) p fun _ => True := by
  unfold checkMpegTs Prepares
  rw [Recorded.get_bind_apply, if_neg hts]
  exact ⟨(), _, _, rfl, ⟨rfl, rfl, rfl, rfl, rfl, rfl⟩, trivial, by simp⟩

theorem prepares_fillAllGenPts (time : TimestampFF) (p : OpenParser) :
    Prepares (fillAllGenPts time) p fun _ => True := by
  unfold fillAllGenPts Prepares
  rw [Recorded.get_bind_apply, accessAll_bind_apply]
  refine ⟨(), _, _, rfl, ⟨rfl, rfl, rfl, rfl, rfl, rfl⟩, trivial, fun e he => ?_⟩
  rw [show (modifyTables (ParserFF.fillGenPts time) p).2 = [] from rfl, List.append_nil] at he
  simp only [List.mem_flatMap, List.mem_map] at he
  obtain ⟨i, -, t, -, rfl⟩ := he
  simp

theorem prepares_forgetFirstApng (index : Int) (time : TimestampFF) (p : OpenParser) :
    Prepares (forgetFirstApng index time) p fun _ => True := by
  unfold forgetFirstApng Prepares
  rw [Recorded.get_bind_apply]
  split
  · rw [access_bind_apply]
    refine ⟨(), _, _, rfl, ⟨rfl, rfl, rfl, rfl, rfl, rfl⟩, trivial, fun e he => ?_⟩
    obtain rfl : e = _ := by simpa [modifyTables, Recorded.modify] using he
    simp
  · exact ⟨(), _, _, rfl, ⟨rfl, rfl, rfl, rfl, rfl, rfl⟩, trivial, by simp⟩

/-- A part that only prepares the seek does not decide whether it is effective. -/
theorem Prepares.effective_iff {α : Type} {q : Opening α} {p : OpenParser} {Q : α → Prop}
    (h : Prepares q p Q) (f : α → Opening Unit) :
    ∃ a p', Alike p p' ∧ Q a ∧ (Effective (q >>= f) p ↔ Effective (f a) p') := by
  obtain ⟨a, p', events, hq, halike, hQ, hnone⟩ := h
  exact ⟨a, p', halike, hQ, Recorded.reports_bind_iff hq hnone⟩

/-! ## The attempts -/

/-- What follows the attempt is effective when it is effective after a failed attempt. -/
def Attempts (attempt : Opening Bool) : Prop :=
  ∀ f : Bool → Opening Unit, (∀ p, Effective (f false) p) → ∀ p, Effective (attempt >>= f) p

/-- A request that returns true has succeeded. -/
theorem attempts_reposition (request : Reposition) : Attempts (reposition F request) := by
  intro f hf p
  have happly := reposition_apply F request p
  cases hdone : (F.request p.requests request).1 with
  | true =>
    rw [hdone] at happly
    refine .inr ⟨.reposition request true, ?_, request, rfl⟩
    rw [Recorded.bind_ok happly]
    exact List.mem_append_left _ (List.mem_singleton_self _)
  | false =>
    rw [hdone] at happly
    exact Recorded.Reports.bind_right happly (hf _)

/-- The seek by bytes is an attempt. -/
theorem attempts_seekByBytes (index : Int) (time : TimestampFF) (binary : Bool) :
    Attempts (seekByBytes F index time binary) := by
  intro f hf p
  unfold seekByBytes
  cases binary with
  | true => exact attempts_reposition _ f hf p
  | false => exact hf p

theorem attempts_seekQuickTime (time : TimestampFF) : Attempts (seekQuickTime F time) := by
  intro f hf p
  unfold seekQuickTime
  split
  · exact attempts_reposition _ f hf p
  · exact hf p

theorem attempts_seekByTime (index : Int) (forward : Bool) (streamTime : TimestampFF) :
    Attempts (seekByTime F index forward streamTime) := by
  intro f hf p
  unfold seekByTime
  split
  · exact attempts_reposition _ f hf p
  · exact attempts_reposition _ f hf p

theorem attempts_seekNearZero (bounds : List Int) : Attempts (seekNearZero F bounds) := by
  intro f hf p
  induction bounds generalizing p with
  | nil => exact hf p
  | cons pos rest ih =>
    unfold seekNearZero
    rw [Recorded.bind_assoc]
    refine attempts_reposition _ _ (fun p' => ?_) p
    exact ih p'

/-- The last attempt says whether it succeeded. -/
theorem effective_seekLast (time : TimestampFF) (p : OpenParser) :
    Effective (seekLast F time) p := by
  unfold seekLast
  split
  · exact attempts_seekNearZero _ _ (fun p' => .inl ⟨_, rfl⟩) p
  · exact .inl ⟨_, rfl⟩

/-- The attempts end with one that succeeded or with an exception. -/
theorem effective_seekPosition (index : Int) (time : TimestampFF) (binary forward : Bool)
    (streamTime : TimestampFF) (p : OpenParser) :
    Effective (seekPosition F index time binary forward streamTime) p := by
  unfold seekPosition
  refine attempts_seekByBytes index time binary _ (fun p₁ => ?_) p
  refine attempts_seekQuickTime time _ (fun p₂ => ?_) p₁
  refine attempts_seekByTime index forward streamTime _ (fun p₃ => ?_) p₂
  exact effective_seekLast time p₃

/-! ## The whole seek -/

/-- From the lookup of the direction on, a seek is effective exactly for a stream with an entry. -/
theorem effective_seekStream_iff {index : Int} {time : TimestampFF} {binary : Bool}
    {p : OpenParser} (hswf : p.tables.formatSWF = false) :
    Effective (seekStream F index time binary) p ↔ (p.lastSeekTs index).isSome = true := by
  have haccess : Prepares (accessAll [.genPts, .streams] [index]) p fun _ => True := by
    refine ⟨(), _, _, rfl, ⟨rfl, rfl, rfl, rfl, rfl, rfl⟩, trivial, fun e he => ?_⟩
    change e ∈ [_, _] at he
    simp only [List.mem_cons, List.not_mem_nil, or_false] at he
    obtain rfl | rfl := he
    · exact not_repositions_access _ _ _
    · exact not_repositions_access _ _ _
  unfold seekStream
  obtain ⟨_, p₁, halike, -, heff⟩ := haccess.effective_iff _
  rw [heff, Effective, Recorded.reports_get_bind_iff, ← halike.lastSeekTs]
  cases p₁.lastSeekTs index with
  | none =>
    refine iff_of_false ?_ (by simp)
    rintro (⟨e, he⟩ | ⟨e, he, -⟩)
    · cases he
    · cases he
  | some last =>
    refine iff_of_true ?_ rfl
    simp only [seekSwf]
    rw [Recorded.bind_assoc, Recorded.reports_get_bind_iff, if_pos (by simp [halike.formatSWF, hswf])]
    have hprep := prepares_forgetFirstApng index time p₁
    obtain ⟨_, p₂, -, -, heff⟩ := hprep.effective_iff _
    exact heff.mpr (effective_seekPosition ..)

/-- The same from the check of the transport stream on, which refuses the other streams. -/
theorem effective_afterChecks_iff {index : Int} {time : TimestampFF} {p : OpenParser}
    {binary : OpenParser → Bool} (hswf : p.tables.formatSWF = false) :
    Effective (checkMpegTs F index >>= fun _ => Recorded.get >>= fun p => fillAllGenPts time >>=
      fun _ => seekStream F index time (binary p)) p ↔
      (p.lastSeekTs index).isSome = true ∨
        (p.tables.formatMpegTs = true ∧ index ≠ p.getSeekStream F) := by
  by_cases hts : p.tables.formatMpegTs = true ∧ index ≠ p.getSeekStream F
  · have hthrow : Effective (checkMpegTs F index) p := by
      unfold checkMpegTs
      rw [Effective, Recorded.reports_get_bind_iff, if_pos hts]
      exact .inl ⟨_, rfl⟩
    exact iff_of_true (hthrow.bind_left _) (.inr hts)
  · obtain ⟨_, p₁, h₁, -, heff⟩ := (prepares_checkMpegTs _ hts).effective_iff _
    rw [heff, or_iff_left hts]
    obtain ⟨_, p₂, h₂, -, heff⟩ := (prepares_fillAllGenPts time p₁).effective_iff
      fun _ => seekStream F index time (binary p₁)
    have halike := h₁.trans h₂
    rw [Effective, Recorded.reports_get_bind_iff, ← Effective, heff,
      effective_seekStream_iff (halike.formatSWF.trans hswf), halike.lastSeekTs]

/-- A seek that its checks let through is effective exactly when it finds the direction or is
refused by the transport stream. -/
theorem effective_seek_iff {index : Int} {time : TimestampFF} {p : OpenParser}
    (hcount : index < p.tables.streamCount) (hcover : ¬IsCover F index p) (htime : 0 ≤ time)
    (hswf : p.tables.formatSWF = false) (himg : p.formatIMG = false) :
    Effective (seek F index time) p ↔
      (p.lastSeekTs index).isSome = true ∨
        (p.tables.formatMpegTs = true ∧ index ≠ p.getSeekStream F) := by
  unfold seek
  obtain ⟨_, p₁, h₁, rfl, heff⟩ := (prepares_isCover _ hcover).effective_iff _
  rw [heff, if_neg (by simp)]
  obtain ⟨_, p₂, h₂, -, heff⟩ := (prepares_clearChapters p₁).effective_iff _
  rw [heff]
  obtain ⟨time₁, p₃, h₃, htime₁, heff⟩ := (prepares_restartAll time p₂).effective_iff _
  rw [heff]
  obtain ⟨time₂, p₄, h₄, htime₂, heff⟩ := (prepares_restartStream index time₁ p₃).effective_iff _
  rw [heff]
  have halike : Alike p p₄ := ((h₁.trans h₂).trans h₃).trans h₄
  have htime₂ : 0 ≤ time₂ := by
    obtain rfl | rfl := htime₂
    · obtain rfl | rfl := htime₁
      · exact htime
      · exact Int.le_refl 0
    · exact Int.le_refl 0
  obtain ⟨_, p₅, h₅, -, heff⟩ := (prepares_checkSeek htime₂
    (halike.streamCount ▸ hcount) (halike.formatIMG.trans himg)).effective_iff _
  rw [heff]
  have halike := halike.trans h₅
  obtain ⟨_, p₆, h₆, -, heff⟩ := (prepares_seekImage (F := F) index time₂
    (halike.formatIMG.trans himg)).effective_iff _
  rw [heff]
  have halike := halike.trans h₆
  rw [effective_afterChecks_iff (halike.formatSWF.trans hswf), halike.lastSeekTs,
    halike.formatMpegTs, halike.getSeekStream]

end Seekira.Model.OpenParser
