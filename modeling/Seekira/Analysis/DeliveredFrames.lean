import Seekira.Analysis.SyncCalls
import Seekira.Model.VideoFrame

/-!
# The frame that the observers get

When the pipeline throws, the frame that was read is replaced by an empty one with the
clock's reading.  When a resizer makes a new frame, that frame has the clock's reading and
no duration.  So the frame delivered keeps what was read, or when it was read, exactly when
neither happens, up to a frame that already looks like the one made in its place.
-/

set_option autoImplicit false

namespace Seekira.Model.Video

open Library

variable {ι P ρ : Type} [DecidableEq ι]

/-! ## Frames that agree -/

/-- Size, pixel format, data, timestamp and duration agree. -/
def SamePicture (f g : Frame) : Prop :=
  f.size = g.size ∧ f.pixFmt = g.pixFmt ∧ f.data = g.data ∧ f.ts = g.ts ∧ f.duration = g.duration

/-- Timestamp and duration agree. -/
def SameTime (f g : Frame) : Prop := f.ts = g.ts ∧ f.duration = g.duration

/-- The frame has the reading `now` of the clock and no duration. -/
def TimedAt (now : TimestampFF) (f : Frame) : Prop := f.ts = now ∧ f.duration = -1

/-- The frame has no picture, the reading `now` of the clock and no duration. -/
def EmptyAt (now : TimestampFF) (f : Frame) : Prop :=
  f.size = ⟨0, 0⟩ ∧ f.pixFmt = .undefined ∧ TimedAt now f

theorem TimedAt.sameTime_iff {now : TimestampFF} {f g : Frame} (h : TimedAt now f) :
    SameTime f g ↔ TimedAt now g := by
  unfold SameTime TimedAt
  rw [h.1, h.2, eq_comm (a := now), eq_comm (a := -1)]

/-- A default frame shows what another does exactly when that one is empty, too. -/
theorem samePicture_default_iff {now : TimestampFF} {f : Frame} :
    SamePicture (Frame.default now) f ↔ EmptyAt now f := by
  constructor
  · rintro ⟨hsize, hfmt, -, hts, hduration⟩
    exact ⟨hsize.symm, hfmt.symm, hts.symm, hduration.symm⟩
  · rintro ⟨hsize, hfmt, hts, hduration⟩
    have hdata : f.data = [] := by
      have hlength := f.sized
      rw [hsize] at hlength
      exact List.length_eq_zero_iff.mp hlength
    exact ⟨hsize.symm, hfmt.symm, hdata.symm, hts.symm, hduration.symm⟩

/-! ## Pipelines that throw -/

/-- When a node throws, the observers get the picture that was read exactly if there was none. -/
theorem failed_frame_kept_iff {tasks : NodeTasks ι (VideoJob P ρ)} {p : BasePipeline ι} {fuel : Nat}
    {frame : Frame} {env : ρ} {e : SyncFailure ι} {s : SyncRun ι (VideoJob P ρ)}
    (hfail : SyncPipeline.process tasks p fuel ⟨⟨frame, ⟨[]⟩⟩, env⟩ = some (.error e, s))
    (now : TimestampFF) (observers : EventHandlerList Nat) :
    ∃ sent, VideoProcessingManager.sendFrame tasks p fuel now frame observers env =
        some (sent, s.data.env) ∧
      ((∀ q ∈ sent, SamePicture q.2 frame) ↔
        observers.performForEach = [] ∨ EmptyAt now frame) := by
  refine ⟨observers.performForEach.map fun observer => (observer, Frame.default now), ?_, ?_⟩
  · unfold VideoProcessingManager.sendFrame VideoProcessingManager.readerProcessFrame
      VideoProcessorTask.process
    rw [Frame.copy_eq, hfail]
    simp [defaultInfo]
  · rw [← samePicture_default_iff]
    rcases observers.performForEach with _ | ⟨observer, rest⟩
    · simp
    · constructor
      · intro h
        exact .inr (h (observer, Frame.default now) (by simp))
      · rintro (hnone | hsame) q hq
        · cases hnone
        · obtain ⟨_, -, rfl⟩ := List.mem_map.mp hq
          exact hsame

/-- An input node and a node that throws. -/
def throwingConfig : PipelineConfig Nat where
  nodes := [0, 1]
  links := [[0, 1]]

/-- SOURCE: proc/pipeline/nodes/exception_node.hpp:30 -/
def throwingTasks (node : Nat) : Proc Exc (VideoJob Unit Unit) Unit :=
  if node = 1 then Proc.throw .std else pure ()

/-- One gray pixel, of a stream with 25 frames a second. -/
def grayFrame : Frame := ⟨[7], ⟨1, 1⟩, 1, .gray, 0, 40000, rfl⟩

def oneObserver : EventHandlerList Nat := ⟨[3], [], true⟩

/-- The configuration is accepted, and `process` throws. -/
theorem process_throwingTasks : ∃ p s,
    BasePipeline.initializePipeline 0 2 throwingConfig = some (.ok p) ∧
    SyncPipeline.process throwingTasks p 2 ⟨⟨grayFrame, ⟨[]⟩⟩, ()⟩ =
      some (.error (.task .std), s) :=
  ⟨_, _, rfl, rfl⟩

/-- A task that throws on a gray frame. -/
theorem failed_frame_kept_iff_gray : ∃ p sent,
    VideoProcessingManager.sendFrame throwingTasks p 2 900 grayFrame oneObserver () =
      some (sent, ()) ∧
    ((∀ q ∈ sent, SamePicture q.2 grayFrame) ↔
      oneObserver.performForEach = [] ∨ EmptyAt 900 grayFrame) := by
  obtain ⟨p, s, -, hfail⟩ := process_throwingTasks
  exact ⟨p, failed_frame_kept_iff hfail 900 oneObserver⟩

/-- The observer gets an empty frame for a gray one. -/
theorem failed_frame_lost : ∃ p s sent,
    BasePipeline.initializePipeline 0 2 throwingConfig = some (.ok p) ∧
    SyncPipeline.process throwingTasks p 2 ⟨⟨grayFrame, ⟨[]⟩⟩, ()⟩ =
      some (.error (.task .std), s) ∧
    VideoProcessingManager.sendFrame throwingTasks p 2 900 grayFrame oneObserver () =
      some (sent, ()) ∧
    ∃ q ∈ sent, ¬SamePicture q.2 grayFrame := by
  refine ⟨_, _, [(3, Frame.default 900)], rfl, rfl, rfl, (3, Frame.default 900), by simp, ?_⟩
  rintro ⟨hsize, -⟩
  cases hsize

/-! ## Frames that are made anew -/

section Time

variable {cv : OpenCv} {now : TimestampFF}

theorem timedAt_fromMatDeep (mat : Mat) (fmt : PixFmt) : TimedAt now (fromMatDeep now mat fmt) := by
  unfold fromMatDeep Frame.createDeep
  rw [Frame.copy_eq]
  exact ⟨rfl, rfl⟩

/-- A frame of the configured size is returned as it is; any other is made anew. -/
theorem EffectResizer.process_cases {settings : SettingsResizer} {input out : Frame}
    (h : EffectResizer.process cv now settings input = .ok out) :
    (settings.frameSize = input.size ∧ out = input) ∨
      (settings.frameSize ≠ input.size ∧ TimedAt now out) := by
  unfold EffectResizer.process at h
  split at h
  case isTrue hsize =>
    rw [Frame.copy_eq, Except.ok.injEq] at h
    exact .inl ⟨hsize, h.symm⟩
  case isFalse hsize =>
    refine .inr ⟨hsize, ?_⟩
    obtain ⟨mat, -, h⟩ := Proc.except_bind_inv h
    obtain ⟨interpolation, -, h⟩ := Proc.except_bind_inv h
    obtain ⟨resized, -, h⟩ := Proc.except_bind_inv h
    obtain ⟨padded, -, h⟩ := Proc.except_bind_inv h
    cases h
    exact timedAt_fromMatDeep padded _

/-- A conversion hands on the frame, or makes a new one at the time of the conversion. -/
theorem convertColorspace_cases {dstFormat : PixFmt} {frame out : Frame}
    (h : convertColorspace cv now dstFormat frame = .ok out) :
    (dstFormat = frame.pixFmt ∧ out = frame) ∨ (dstFormat ≠ frame.pixFmt ∧ TimedAt now out) := by
  unfold convertColorspace at h
  split at h
  case isTrue hfmt => exact .inl ⟨hfmt, (Except.ok.inj h).symm⟩
  case isFalse hfmt =>
    refine .inr ⟨hfmt, ?_⟩
    obtain ⟨src, -, h⟩ := Proc.except_bind_inv h
    obtain ⟨id, -, h⟩ := Proc.except_bind_inv h
    obtain ⟨dst, -, h⟩ := Proc.except_bind_inv h
    cases h
    unfold Frame.createDeep
    rw [Frame.copy_eq]
    exact ⟨rfl, rfl⟩

/-- A result that is either the input or made at `now` keeps the time of the input exactly if it is
the input or the input looks made at `now`. -/
theorem sameTime_iff_of_cases {c : Prop} {input out : Frame}
    (h : (c ∧ out = input) ∨ (¬c ∧ TimedAt now out)) :
    SameTime out input ↔ c ∨ TimedAt now input := by
  rcases h with ⟨hc, rfl⟩ | ⟨hc, hout⟩
  · exact iff_of_true ⟨rfl, rfl⟩ (.inl hc)
  · rw [hout.sameTime_iff, or_iff_right hc]

end Time

/-! ## What the nodes restore -/

section Invariant

variable {δ : Type} {tasks : NodeTasks ι δ} {I : SyncRun ι δ → Prop}

omit [DecidableEq ι] in

theorem restores_branch (hnode : ∀ node, Proc.Restores I (PipelineNode.process tasks node))
    (branch : List ι) : Proc.Restores I (PipelineBranch.process tasks branch) := by
  induction branch with
  | nil => exact (Proc.keeps_pure ()).restores
  | cons node rest ih => exact Proc.restores_bind (hnode node) fun _ => ih

/-- A pipeline restores what its nodes restore. -/
theorem restores_processBranch
    (hnode : ∀ node, Proc.Restores I (PipelineNode.process tasks node))
    (hvisit : ∀ s visited, I s → I { s with visited := visited }) (p : BasePipeline ι) (id : ι) :
    Proc.Restores I (SyncPipeline.processBranch tasks p id) := by
  unfold SyncPipeline.processBranch
  refine Proc.restores_bind (Proc.keeps_modify fun s => hvisit s _).restores fun _ => ?_
  split
  · exact (Proc.keeps_throw _).restores
  · refine Proc.restores_bind (restores_branch hnode _) fun _ => ?_
    split
    · exact (Proc.keeps_throw _).restores
    · split
      · exact (Proc.keeps_throw _).restores
      · exact (Proc.keeps_pure _).restores

/-- What every node restores when it returns holds after a run that returns. -/
theorem invariant_process (hnode : ∀ node, Proc.Restores I (PipelineNode.process tasks node))
    (hvisit : ∀ s visited, I s → I { s with visited := visited }) {p : BasePipeline ι} {fuel : Nat}
    {queue : List ι} {s s' : SyncRun ι δ} (hs : I s)
    (h : SyncPipeline.processQueue tasks p fuel queue s = some (.ok (), s')) : I s' := by
  induction fuel generalizing queue s with
  | zero => cases h
  | succ fuel ih =>
    rcases queue with _ | ⟨id, queue⟩
    · cases h
      exact hs
    · unfold SyncPipeline.processQueue at h
      rcases hbranch : SyncPipeline.processBranch tasks p id s with ⟨e | children, s₁⟩
      · rw [hbranch] at h
        cases h
      · rw [hbranch] at h
        exact ih (restores_processBranch hnode hvisit p id s hs children s₁ hbranch) h

end Invariant

/-! ## Runs of pipelines of resizers -/

section Runs

variable {cv : OpenCv} {clock : Nat → TimestampFF} {settingsOf : ι → Option SettingsResizer}

/-- The call finds a frame that the node's settings do not leave alone. -/
def resizes (settingsOf : ι → Option SettingsResizer) (call : ι × VideoJob P Nat) : Bool :=
  (settingsOf call.1).any fun settings => settings.frameSize ≠ call.2.info.data.size

/-- The clock's reading for the last new frame, if any was made. -/
def lastReading (clock : Nat → TimestampFF) (settingsOf : ι → Option SettingsResizer)
    (calls : List (ι × VideoJob P Nat)) : Option TimestampFF :=
  ((calls.filter (resizes settingsOf)).getLast?).map fun call => clock call.2.env

/-- The frame of the run carries the time of the frame that was read, or that of the last new
one. -/
def Clocked (clock : Nat → TimestampFF) (settingsOf : ι → Option SettingsResizer) (frame : Frame)
    (s : SyncRun ι (VideoJob P Nat)) : Prop :=
  (lastReading clock settingsOf s.calls = none → SameTime s.data.info.data frame) ∧
    ∀ t, lastReading clock settingsOf s.calls = some t → TimedAt t s.data.info.data

omit [DecidableEq ι] in

/-- The last reading of the clock is that of the last call that resizes. -/
theorem lastReading_concat (calls : List (ι × VideoJob P Nat)) (call : ι × VideoJob P Nat) :
    lastReading clock settingsOf (calls ++ [call]) =
      if resizes settingsOf call then some (clock call.2.env)
      else lastReading clock settingsOf calls := by
  unfold lastReading
  rw [List.filter_append]
  by_cases hcall : resizes settingsOf call = true
  · simp [hcall]
  · simp [hcall]

omit [DecidableEq ι] in
/-- One node that returns keeps the account of the frame's time. -/
theorem clocked_node (frame : Frame) (node : ι) :
    Proc.Restores (Clocked clock settingsOf frame)
      (PipelineNode.process (resizerTasks (P := P) cv clock settingsOf) node) := by
  intro s hs a s' hstep
  unfold PipelineNode.process resizerTasks at hstep
  rcases hsettings : settingsOf node with _ | settings
  · rw [hsettings] at hstep
    cases hstep
    have hidle : resizes settingsOf (node, s.data) = false := by simp [resizes, hsettings]
    unfold Clocked
    rw [lastReading_concat, hidle]
    exact hs
  · rw [hsettings] at hstep
    dsimp only [ResizerPipelineNode.process] at hstep
    rcases hout : EffectResizer.process cv (clock s.data.env) settings s.data.info.data
      with e | out
    · rw [hout] at hstep
      cases hstep
    · rw [hout] at hstep
      cases hstep
      unfold Clocked
      rw [lastReading_concat]
      rcases EffectResizer.process_cases hout with ⟨hsize, rfl⟩ | ⟨hsize, htime⟩
      · have hidle : resizes settingsOf (node, s.data) = false := by
          simp [resizes, hsettings, hsize]
        rw [hidle]
        exact hs
      · have hnew : resizes settingsOf (node, s.data) = true := by
          simp [resizes, hsettings, hsize]
        rw [hnew]
        exact ⟨nofun, fun t ht => Option.some.inj ht ▸ htime⟩

/-- After the pipeline the frame has the time of the last reading of the clock. -/
theorem clocked_of_process {frame : Frame} {p : BasePipeline ι} {fuel : Nat}
    {s : SyncRun ι (VideoJob P Nat)}
    (h : SyncPipeline.process (resizerTasks cv clock settingsOf) p fuel ⟨⟨frame, ⟨[]⟩⟩, 0⟩ =
      some (.ok (), s)) : Clocked clock settingsOf frame s :=
  invariant_process (clocked_node frame) (fun _ _ hs => hs)
    ⟨fun _ => ⟨rfl, rfl⟩, fun _ ht => by cases ht⟩ h

/-- The clock's reading for the frame that the pipeline's run leaves behind, if it is not the frame
that was read: the default frame's when the run ends in an exception, or the last new frame's. -/
def madeAt (clock : Nat → TimestampFF) (settingsOf : ι → Option SettingsResizer)
    (now : TimestampFF) :
    Except (SyncFailure ι) Unit × SyncRun ι (VideoJob P Nat) → Option TimestampFF
  | (.error _, _) => some now
  | (.ok _, s) => lastReading clock settingsOf s.calls

omit [DecidableEq ι] in
/-- The frame that was read goes through when the run returns and every resizer called found a frame
of its configured size. -/
theorem madeAt_eq_none_iff (now : TimestampFF)
    {r : Except (SyncFailure ι) Unit × SyncRun ι (VideoJob P Nat)} :
    madeAt clock settingsOf now r = none ↔
      r.1 = .ok () ∧ ∀ call ∈ r.2.calls, ∀ settings ∈ settingsOf call.1,
        settings.frameSize = call.2.info.data.size := by
  obtain ⟨_ | _, s⟩ := r
  · simp [madeAt]
  · have hcall (call : ι × VideoJob P Nat) : ¬resizes settingsOf call = true ↔
        ∀ settings ∈ settingsOf call.1, settings.frameSize = call.2.info.data.size := by
      unfold resizes
      rcases settingsOf call.1 with _ | settings
      · simp
      · simp
    simp only [madeAt, lastReading, Option.map_eq_none_iff, List.getLast?_eq_none_iff,
      List.filter_eq_nil_iff, hcall, true_and]

/-- The frame that the observers get after a run of a pipeline of resizers. -/
theorem sameTime_delivered_iff {frame : Frame} {p : BasePipeline ι} {fuel : Nat}
    {r : Except (SyncFailure ι) Unit × SyncRun ι (VideoJob P Nat)}
    (h : SyncPipeline.process (resizerTasks cv clock settingsOf) p fuel ⟨⟨frame, ⟨[]⟩⟩, 0⟩ =
      some r) (now : TimestampFF) :
    ∃ out, VideoProcessingManager.readerProcessFrame (resizerTasks (P := P) cv clock settingsOf) p
        fuel now frame 0 = some (out, r.2.data.env) ∧
      (SameTime out frame ↔
        (r.1 = .ok () ∧ ∀ call ∈ r.2.calls, ∀ settings ∈ settingsOf call.1,
          settings.frameSize = call.2.info.data.size) ∨
        ∃ t ∈ madeAt clock settingsOf now r, TimedAt t frame) := by
  rw [← madeAt_eq_none_iff now]
  obtain ⟨e | ⟨⟩, s⟩ := r
  · refine ⟨Frame.default now, ?_, ?_⟩
    · unfold VideoProcessingManager.readerProcessFrame VideoProcessorTask.process
      rw [Frame.copy_eq, h]
      simp [defaultInfo]
    · have htime : TimedAt now (Frame.default now) := ⟨rfl, rfl⟩
      rw [htime.sameTime_iff]
      simp [madeAt]
  · refine ⟨s.data.info.data, ?_, ?_⟩
    · unfold VideoProcessingManager.readerProcessFrame VideoProcessorTask.process
      rw [Frame.copy_eq, h]
      simp
    · obtain ⟨hkept, hmade⟩ := clocked_of_process h
      change _ ↔ lastReading clock settingsOf s.calls = none ∨
        ∃ t ∈ lastReading clock settingsOf s.calls, TimedAt t frame
      rcases hlast : lastReading clock settingsOf s.calls with _ | t
      · exact iff_of_true (hkept hlast) (.inl rfl)
      · rw [(hmade t hlast).sameTime_iff]
        simp

end Runs

/-- The resizer, the conversion of the colour space and the pipelines of resizers keep timestamp and
duration exactly when they make no new frame, or the frame looks like the new one. -/
theorem keeps_time_iff :
    (∀ (cv : OpenCv) (now : TimestampFF) (settings : SettingsResizer) (input out : Frame),
      EffectResizer.process cv now settings input = .ok out →
        (SameTime out input ↔ settings.frameSize = input.size ∨ TimedAt now input)) ∧
    (∀ (cv : OpenCv) (now : TimestampFF) (dstFormat : PixFmt) (frame out : Frame),
      convertColorspace cv now dstFormat frame = .ok out →
        (SameTime out frame ↔ dstFormat = frame.pixFmt ∨ TimedAt now frame)) ∧
    ∀ (cv : OpenCv) (clock : Nat → TimestampFF) (settingsOf : ι → Option SettingsResizer)
      (p : BasePipeline ι) (fuel : Nat) (frame : Frame)
      (r : Except (SyncFailure ι) Unit × SyncRun ι (VideoJob P Nat)) (now : TimestampFF),
      SyncPipeline.process (resizerTasks cv clock settingsOf) p fuel ⟨⟨frame, ⟨[]⟩⟩, 0⟩ = some r →
        ∃ out, VideoProcessingManager.readerProcessFrame (resizerTasks (P := P) cv clock settingsOf)
            p fuel now frame 0 = some (out, r.2.data.env) ∧
          (SameTime out frame ↔
            (r.1 = .ok () ∧ ∀ call ∈ r.2.calls, ∀ settings ∈ settingsOf call.1,
              settings.frameSize = call.2.info.data.size) ∨
            ∃ t ∈ madeAt clock settingsOf now r, TimedAt t frame) :=
  ⟨fun _ _ _ _ _ h => sameTime_iff_of_cases (EffectResizer.process_cases h),
    fun _ _ _ _ _ h => sameTime_iff_of_cases (convertColorspace_cases h),
    fun _ _ _ _ _ _ _ now h => sameTime_delivered_iff h now⟩

/-- OpenCV on gray images of one shade. -/
def flatCv : OpenCv where
  resize mat size _ :=
    if mat.cols = 0 ∨ mat.rows = 0 ∨ size.width = 0 ∨ size.height = 0 then .error .std
    else .ok ⟨size.width, size.height, .c1, size.width,
      List.replicate (size.width * size.height) (mat.data.headD 0), List.length_replicate⟩
  cvtColor mat _ := .ok ⟨mat.cols, mat.rows, .c3, 3 * mat.cols,
    List.replicate (3 * mat.cols * mat.rows) (mat.data.headD 0), List.length_replicate⟩
  pasted mat size := ⟨size.width, size.height, .c1, size.width,
    (List.replicate (size.width * size.height) 0).mapIdx fun i black =>
      if i % size.width < mat.cols ∧ i / size.width < mat.rows then mat.data.headD 0 else black,
    by rw [List.length_mapIdx, List.length_replicate]⟩

/-- Every frame gets two pixels in a row. -/
def doubled : SettingsResizer := ⟨.linear, .direct, ⟨2, 1⟩⟩

/-- A frame at 0 with a duration comes out with the clock's reading and without a duration, of the
resizer, of the conversion and of a pipeline with one resizer. -/
theorem time_lost :
    (∃ out, EffectResizer.process flatCv 900 doubled grayFrame = .ok out ∧
      ¬SameTime out grayFrame) ∧
    (∃ out, convertColorspace flatCv 900 .bgr grayFrame = .ok out ∧ ¬SameTime out grayFrame) ∧
    ∃ p out, BasePipeline.initializePipeline 0 2 throwingConfig = some (.ok p) ∧
      VideoProcessingManager.readerProcessFrame
        (resizerTasks (P := Unit) flatCv (fun _ => 900)
          fun node => if node = 1 then some doubled else none) p 3 800 grayFrame 0 = some (out, 1) ∧
      ¬SameTime out grayFrame := by
  refine ⟨⟨_, rfl, ?_⟩, ⟨_, rfl, ?_⟩, _, _, rfl, rfl, ?_⟩
  · rintro ⟨hts, -⟩
    cases hts
  · rintro ⟨hts, -⟩
    cases hts
  · rintro ⟨hts, -⟩
    cases hts

end Seekira.Model.Video
