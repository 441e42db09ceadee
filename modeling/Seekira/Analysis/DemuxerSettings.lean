import Seekira.Analysis.DemuxerHistory
import Seekira.Library.Proc

/-!
# What the demuxer never changes on its own

Which streams are enabled, and which of their queues may stay empty, is up to the
demuxer's client; neither reading nor seeking changes it.  The seek time is set once,
at the beginning of a seek.
-/

set_option autoImplicit false

namespace Seekira.Model

open Library

namespace DemuxerQueue

variable {π : Type} {P : ParserOps π}

/-- The flags of the queues and the seek time are the given ones. -/
structure Settings (enabled canBeEmpty : StreamId → Bool) (seekTime : TimestampFF)
    (d : DemuxerQueue π) : Prop where
  enabled : ∀ i, (d.queues i).enabled = enabled i
  canBeEmpty : ∀ i, (d.queues i).canBeEmpty = canBeEmpty i
  seekTime : d.seekTime = seekTime

/-- Every demuxer has some settings. -/
theorem settings_self (d : DemuxerQueue π) :
    Settings (fun i => (d.queues i).enabled) (fun i => (d.queues i).canBeEmpty) d.seekTime d :=
  ⟨fun _ => rfl, fun _ => rfl, rfl⟩

variable {enabled canBeEmpty : StreamId → Bool} {seekTime : TimestampFF}

namespace Settings

variable {d d' : DemuxerQueue π} {taken : List DataPacket}

theorem parses (h : d.Settings enabled canBeEmpty seekTime) (ht : Parses d taken d') :
    d'.Settings enabled canBeEmpty seekTime :=
  ⟨fun i => (ht.flags i).1.trans (h.enabled i), fun i => (ht.flags i).2.trans (h.canBeEmpty i),
    ht.seekTime.trans h.seekTime⟩

theorem fillQueue (h : d.Settings enabled canBeEmpty seekTime) (km : Bool) :
    (fillQueue P km d).2.Settings enabled canBeEmpty seekTime := by
  obtain ⟨taken, htaken⟩ := parses_fillQueue (P := P) km d
  exact h.parses htaken

theorem parserSeek (h : d.Settings enabled canBeEmpty seekTime) (index : StreamId)
    (time : TimestampFF) :
    (d.resetQueue.parserSeek P index time).2.Settings enabled canBeEmpty seekTime :=
  ⟨h.enabled, h.canBeEmpty, h.seekTime⟩

/-- The search of one stream keeps the settings. -/
theorem seekStep (h : d.Settings enabled canBeEmpty seekTime) (time : TimestampFF)
    (idx : StreamId) (g : SeekProgress) :
    (seekStep P time idx g d).2.2.Settings enabled canBeEmpty seekTime := by
  have hlanded := h.parserSeek (P := P) idx time
  unfold DemuxerQueue.seekStep
  dsimp only
  split
  · exact h
  · split
    · exact hlanded
    · have hfilled := hlanded.fillQueue (P := P) false
      split <;> split
      · exact hfilled.fillQueue true
      · exact hfilled.fillQueue true
      · exact hfilled
      · exact hfilled

/-- The search of some streams keeps the settings. -/
theorem seekStreams (time : TimestampFF) (indices : List StreamId)
    (h : d.Settings enabled canBeEmpty seekTime) (g : SeekProgress) :
    (seekStreams P time indices g d).2.2.Settings enabled canBeEmpty seekTime := by
  induction indices generalizing g d with
  | nil => exact h
  | cons idx indices ih =>
    have hstep := h.seekStep (P := P) time idx g
    unfold DemuxerQueue.seekStreams
    rcases hres : DemuxerQueue.seekStep P time idx g d with ⟨done, g', d'⟩
    rw [hres] at hstep
    cases done with
    | true => exact hstep
    | false => exact ih hstep g'

/-- A packet that is returned leaves the flags of its queue alone. -/
theorem pop (h : d.Settings enabled canBeEmpty seekTime) (i : StreamId) (count : Nat) :
    Settings enabled canBeEmpty seekTime
      { d.setQueue i (d.queues i).pop.2 with processedCount := count } := by
  have hpop : (d.queues i).pop.2.enabled = (d.queues i).enabled ∧
      (d.queues i).pop.2.canBeEmpty = (d.queues i).canBeEmpty := by
    unfold PacketQueue.pop
    split <;> exact ⟨rfl, rfl⟩
  refine ⟨fun j => ?_, fun j => ?_, h.seekTime⟩
  · by_cases hj : j = i
    · subst hj
      simpa using hpop.1.trans (h.enabled j)
    · simpa [hj] using h.enabled j
  · by_cases hj : j = i
    · subst hj
      simpa using hpop.2.trans (h.canBeEmpty j)
    · simpa [hj] using h.canBeEmpty j

end Settings

/-- `seek_internal` keeps the settings. -/
theorem keeps_seekInternal (time : TimestampFF) :
    Proc.Keeps (Settings enabled canBeEmpty seekTime) (seekInternal P time) := by
  intro d h
  unfold seekInternal
  dsimp only
  generalize (if time > 0 then [P.seekStream] else streams P) = indices
  have hstreams := Settings.seekStreams (P := P) time indices h ⟨fun _ => avNoPtsValue, none, 0⟩
  rcases hres : DemuxerQueue.seekStreams P time indices ⟨fun _ => avNoPtsValue, none, 0⟩ d with
    ⟨done, g, d'⟩
  rw [hres] at hstreams
  cases done with
  | true => exact hstreams
  | false =>
    dsimp only
    split
    · exact hstreams
    · split
      · split
        · split
          · exact (hstreams.parserSeek _ _).fillQueue true
          · exact hstreams.parserSeek _ _
        · exact hstreams
      · exact hstreams

theorem keeps_seekLoop (fuel : Nat) (time : TimestampFF) (step : TimeFF) :
    Proc.Keeps (Settings enabled canBeEmpty seekTime) (seekLoop P fuel time step) := by
  induction fuel generalizing time step with
  | zero => exact Proc.keeps_throw _
  | succ fuel ih =>
    unfold seekLoop
    split
    · exact Proc.keeps_pure _
    · apply Proc.keeps_bind (keeps_seekInternal time)
      intro res
      split
      · exact Proc.keeps_pure _
      · exact ih _ _

/-- Only the seek time changes with a seek. -/
theorem settings_seek (time : TimestampFF) {d : DemuxerQueue π}
    (h : d.Settings enabled canBeEmpty seekTime) :
    (seek P time d).2.Settings enabled canBeEmpty (max 0 time) :=
  keeps_seekLoop _ _ _ _ ⟨h.enabled, h.canBeEmpty, rfl⟩

theorem keeps_read (i : StreamId) :
    Proc.Keeps (Settings enabled canBeEmpty seekTime) (read P i) := by
  intro d h
  by_cases hi : i < P.streamCount
  · obtain ⟨taken, htaken⟩ := parses_filledForRead (P := P) i d
    rcases hq : ((filledForRead P i d).queues i).list with _ | ⟨p, rest⟩
    · rw [read_of_empty hi hq]
      exact h.parses htaken
    · rw [read_of_cons hi hq]
      exact (h.parses htaken).pop i _
  · unfold read
    rw [if_pos (Nat.not_lt.mp hi)]
    exact h

end DemuxerQueue

end Seekira.Model
