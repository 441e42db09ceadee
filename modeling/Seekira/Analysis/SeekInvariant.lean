import Seekira.Model.ParserOpening

/-!
# What survives a seek

A seek updates the parser in seven places.  A property of the parser that survives each of them
survives the whole seek, however it ends; and a seek returns no packet.
-/

set_option autoImplicit false

namespace Seekira.Model.OpenParser

open Library

/-- The event is not a packet that `read` gives out. -/
def NotReturned : ParserEvent → Prop
  | .access .. => True
  | .reposition .. => True
  | .returned .. => False

/-- What a property has to survive from the checks of a seek on. -/
structure SurvivesAttempts (F : FFmpegInput) (index : Int) (I : OpenParser → Prop) : Prop where
  fillGenPts : ∀ p time, I p → I { p with tables := p.tables.fillGenPts time }
  forgetFirst : ∀ p, I p → (p.tables.streams index).isApng = true →
    I { p with tables := { p.tables with
      firstStreamPktReceived := Function.update p.tables.firstStreamPktReceived index false } }
  reposition : ∀ p request, I p → I { p with
    tables := { p.tables with ahead := (F.request p.requests request).2 }
    requests := p.requests + 1 }
  reopen : ∀ p (streams : Nat) ahead, I p → F.reopened p.requests = some (streams, ahead) →
    I { p with
      tables := { p.tables with ahead := ahead, streamCount := min (streams : Int) p.nbStreams }
      nbStreams := streams
      requests := p.requests + 1 }

/-- What a property has to survive during a whole seek. -/
structure SurvivesSeek (F : FFmpegInput) (index : Int) (I : OpenParser → Prop) : Prop
    extends SurvivesAttempts F index I where
  clearChapters : ∀ p, I p → I { p with tables := { p.tables with currentChapter := fun _ => none } }
  restartAll : ∀ p, I p → (p.aviWithRepeatingPts || p.tables.formatDAV) = true →
    I { p with tables := { p.tables with prevPktTimes := fun _ => none } }
  restartStream : ∀ p, I p →
    (p.tables.formatASF && (p.tables.prevPktTimes index).isSome) = true →
    I { p with tables := { p.tables with
      firstStreamPktReceived := Function.update p.tables.firstStreamPktReceived index false
      prevPktTimes := Function.update p.tables.prevPktTimes index none } }

variable {F : FFmpegInput} {index : Int} {I : OpenParser → Prop}

/-- The procedure keeps the property and returns no packet. -/
abbrev Survives (I : OpenParser → Prop) {α : Type} (q : Opening α) : Prop :=
  Recorded.Lists I NotReturned q

theorem survives_access (table : StreamTable) (i : Int) : Survives I (access table i) := by
  intro p hp
  refine ⟨hp, fun e he => ?_⟩
  obtain rfl := List.mem_singleton.mp he
  trivial

theorem survives_accessAll (tables : List StreamTable) (indices : List Int) :
    Survives I (accessAll tables indices) := by
  refine Recorded.lists_get_bind fun p hp => Recorded.lists_notes fun e he => ?_
  simp only [List.mem_flatMap, List.mem_map] at he
  obtain ⟨i, -, table, -, rfl⟩ := he
  trivial

theorem survives_isCover (i : Int) : Survives I (isCover F i) := by
  refine Recorded.lists_get_bind fun p hp => Recorded.lists_ite (Recorded.lists_pure _) ?_
  exact Recorded.lists_bind (survives_access _ _) fun _ => Recorded.lists_pure _

theorem survives_isCompressedSwf : Survives I (isCompressedSwf F) := by
  refine Recorded.lists_get_bind fun p hp => Recorded.lists_ite (Recorded.lists_pure _) ?_
  split
  · exact Recorded.lists_pure _
  · exact Recorded.lists_throw _

/-- A property of the tables that a step updates. -/
theorem survives_modifyTables {f : ParserFF → ParserFF}
    (hf : ∀ p, I p → I { p with tables := f p.tables }) : Survives I (modifyTables f) :=
  Recorded.lists_modify hf

theorem survives_checkSeek (i : Int) (time : TimestampFF) : Survives I (checkSeek i time) := by
  refine Recorded.lists_get_bind fun p hp => Recorded.lists_ite (Recorded.lists_throw _) ?_
  refine Recorded.lists_ite (Recorded.lists_throw _) (Recorded.lists_ite ?_ ?_)
  · exact Recorded.lists_throw _
  · exact Recorded.lists_pure _

theorem survives_checkMpegTs (i : Int) : Survives I (checkMpegTs F i) := by
  refine Recorded.lists_get_bind fun p hp => Recorded.lists_ite (Recorded.lists_throw _) ?_
  exact Recorded.lists_pure _

section Attempts

variable (h : SurvivesAttempts F index I)

include h

theorem survives_reposition (request : Reposition) : Survives I (reposition F request) := by
  intro p hp
  rw [reposition_apply]
  refine ⟨h.reposition p request hp, fun e he => ?_⟩
  obtain rfl := List.mem_singleton.mp he
  trivial

theorem survives_reopen : Survives I (reopen F) := by
  intro p hp
  unfold reopen
  rw [Recorded.get_bind_apply]
  cases hopened : F.reopened p.requests with
  | none => exact ⟨hp, nofun⟩
  | some opened =>
    obtain ⟨streams, ahead⟩ := opened
    refine ⟨h.reopen p streams ahead hp hopened, ?_⟩
    have hquiet : Recorded.Only NotReturned (accessAll [.streams]
        ((List.range (min streams p.nbStreams)).map Int.ofNat)) p :=
      (survives_accessAll (I := I) _ _).only hp
    exact hquiet.bind fun _ _ => nofun

theorem survives_seekImage (i : Int) (time : TimestampFF) : Survives I (seekImage F i time) := by
  refine Recorded.lists_get_bind fun p hp => Recorded.lists_ite ?_ (Recorded.lists_pure _)
  exact Recorded.lists_bind (survives_reposition h _) fun _ => Recorded.lists_pure _

theorem survives_fillAllGenPts (time : TimestampFF) : Survives I (fillAllGenPts time) := by
  refine Recorded.lists_get_bind fun p hp => Recorded.lists_bind (survives_accessAll _ _) fun _ => ?_
  exact survives_modifyTables fun p hp => h.fillGenPts p time hp

theorem survives_seekSwf (forward : Bool) (time : TimestampFF) (binary : Bool) :
    Survives I (seekSwf F forward time binary) := by
  refine Recorded.lists_get_bind fun p hp => Recorded.lists_ite (Recorded.lists_pure _) ?_
  refine Recorded.lists_ite (Recorded.lists_pure _) ?_
  refine Recorded.lists_bind survives_isCompressedSwf fun _ => Recorded.lists_ite ?_ ?_
  · exact Recorded.lists_bind (survives_reopen h) fun _ => Recorded.lists_pure _
  · exact Recorded.lists_pure _

theorem survives_forgetFirstApng (time : TimestampFF) :
    Survives I (forgetFirstApng index time) := by
  intro p hp
  unfold forgetFirstApng
  rw [Recorded.get_bind_apply]
  split
  · rename_i hapng
    rw [access_bind_apply]
    refine ⟨h.forgetFirst p hp hapng.1, fun e he => ?_⟩
    obtain rfl := List.mem_singleton.mp he
    trivial
  · exact ⟨hp, nofun⟩

theorem survives_seekByBytes (i : Int) (time : TimestampFF) (binary : Bool) :
    Survives I (seekByBytes F i time binary) := by
  refine Recorded.lists_get_bind fun p hp => Recorded.lists_ite ?_ (Recorded.lists_pure _)
  exact survives_reposition h _

theorem survives_seekQuickTime (time : TimestampFF) : Survives I (seekQuickTime F time) :=
  Recorded.lists_ite (survives_reposition h _) (Recorded.lists_pure _)

theorem survives_seekByTime (i : Int) (forward : Bool) (streamTime : TimestampFF) :
    Survives I (seekByTime F i forward streamTime) :=
  Recorded.lists_ite (survives_reposition h _) (survives_reposition h _)

theorem survives_seekNearZero (bounds : List Int) : Survives I (seekNearZero F bounds) := by
  induction bounds with
  | nil => exact Recorded.lists_pure _
  | cons pos rest ih =>
    refine Recorded.lists_bind (survives_reposition h _) fun done => ?_
    exact Recorded.lists_ite (Recorded.lists_pure _) ih

theorem survives_seekLast (time : TimestampFF) : Survives I (seekLast F time) := by
  refine Recorded.lists_ite ?_ (Recorded.lists_throw _)
  refine Recorded.lists_bind (survives_seekNearZero h _) fun done => ?_
  exact Recorded.lists_ite (Recorded.lists_pure _) (Recorded.lists_throw _)

theorem survives_seekPosition (i : Int) (time : TimestampFF) (binary forward : Bool)
    (streamTime : TimestampFF) : Survives I (seekPosition F i time binary forward streamTime) := by
  refine Recorded.lists_bind (survives_seekByBytes h _ _ _) fun done => ?_
  refine Recorded.lists_ite (Recorded.lists_pure _) ?_
  refine Recorded.lists_bind (survives_seekQuickTime h _) fun done => ?_
  refine Recorded.lists_ite (Recorded.lists_pure _) ?_
  refine Recorded.lists_bind (survives_seekByTime h _ _ _) fun done => ?_
  exact Recorded.lists_ite (Recorded.lists_pure _) (survives_seekLast h _)

theorem survives_seekStream (time : TimestampFF) (binary : Bool) :
    Survives I (seekStream F index time binary) := by
  refine Recorded.lists_bind (survives_accessAll _ _) fun _ => ?_
  refine Recorded.lists_get_bind fun p hp => ?_
  split
  · exact Recorded.lists_pure _
  · refine Recorded.lists_bind (survives_seekSwf h _ _ _) fun swf => ?_
    split
    · exact Recorded.lists_pure _
    · exact Recorded.lists_bind (survives_forgetFirstApng h _) fun _ =>
        survives_seekPosition h _ _ _ _ _

/-- The part of a seek after the streams without timestamps were restarted. -/
theorem survives_afterRestart (time : TimestampFF) (binary : OpenParser → Bool) :
    Survives I (checkSeek index time >>= fun _ => seekImage F index time >>= fun _ =>
      checkMpegTs F index >>= fun _ => Recorded.get >>= fun p => fillAllGenPts time >>= fun _ =>
        seekStream F index time (binary p)) := by
  refine Recorded.lists_bind (survives_checkSeek _ _) fun _ => ?_
  refine Recorded.lists_bind (survives_seekImage h _ _) fun _ => ?_
  refine Recorded.lists_bind (survives_checkMpegTs _) fun _ => ?_
  refine Recorded.lists_get_bind fun p hp => ?_
  refine Recorded.lists_bind (survives_fillAllGenPts h _) fun _ => ?_
  exact survives_seekStream h _ _

end Attempts

section Seek

variable (h : SurvivesSeek F index I)

include h

theorem survives_restartAll (time : TimestampFF) : Survives I (restartAll time) := by
  intro p hp
  unfold restartAll
  rw [Recorded.get_bind_apply]
  split
  · rename_i hrestart
    exact ⟨h.restartAll p hp hrestart, nofun⟩
  · exact ⟨hp, nofun⟩

theorem survives_restartStream (time : TimestampFF) : Survives I (restartStream index time) := by
  intro p hp
  unfold restartStream
  rw [Recorded.get_bind_apply]
  split
  · rename_i hrestart
    rw [access_bind_apply]
    refine ⟨h.restartStream p hp hrestart, fun e he => ?_⟩
    obtain rfl := List.mem_singleton.mp he
    trivial
  · exact ⟨hp, nofun⟩

/-- Such a property survives the seek, whether it returns or throws. -/
theorem survives_seek (time : TimestampFF) : Survives I (seek F index time) := by
  refine Recorded.lists_bind (survives_isCover _) fun cover => ?_
  refine Recorded.lists_ite (Recorded.lists_pure _) ?_
  refine Recorded.lists_bind (survives_modifyTables h.clearChapters) fun _ => ?_
  refine Recorded.lists_bind (survives_restartAll h _) fun time => ?_
  refine Recorded.lists_bind (survives_restartStream h _) fun time => ?_
  exact survives_afterRestart h.toSurvivesAttempts time fun p =>
    p.isBinarySeek || (F.longNameMpegPs && time = 0) || p.tables.formatMpegTs

end Seek

end Seekira.Model.OpenParser
