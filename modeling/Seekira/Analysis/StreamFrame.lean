import Seekira.Analysis.DemuxerSettings
import Seekira.Analysis.SeekFrame
import Seekira.Analysis.StreamSeek

/-!
# What no method of a stream changes

The demuxer never enables or disables a queue on its own, and the methods of a
stream change the table of the reader only where they request or finish a seek.
So every method keeps which stream is enabled, whether it returns or fails, and a
finished seek leaves no request behind.
-/

set_option autoImplicit false

namespace Seekira.Model

open Library

namespace DemuxerQueue

variable {π : Type} {P : ParserOps π} {s : StreamId}

/-- Calls that keep the settings keep the stream the only one. -/
theorem OnlyStream.settings {enabled canBeEmpty : StreamId → Bool} {seekTime : TimestampFF}
    {d d' : DemuxerQueue π} (h : d.OnlyStream s) (hd : d.Settings enabled canBeEmpty seekTime)
    {time : TimestampFF} (hd' : d'.Settings enabled canBeEmpty time) : d'.OnlyStream s := by
  refine ⟨fun i => ?_, ?_⟩
  · rw [hd'.enabled, ← hd.enabled]
    exact h.enabled i
  · rw [hd'.canBeEmpty, ← hd.canBeEmpty]
    exact h.canBeEmpty

theorem onlyStream_seek (time : TimestampFF) : Proc.Keeps (OnlyStream s) (seek P time) := by
  intro d h
  exact h.settings d.settings_self (settings_seek time d.settings_self)

theorem onlyStream_read (i : StreamId) : Proc.Keeps (OnlyStream s) (read P i) := by
  intro d h
  exact h.settings d.settings_self (keeps_read i d d.settings_self)

end DemuxerQueue

namespace StreamReader

variable {π κ : Type} {P : ParserOps π} {C : CodecOps κ} {s : StreamId}

/-- Stream `s` is the only enabled one, and the others are asked nothing. -/
structure Only (P : ParserOps π) (s : StreamId) (r : StreamReader (DemuxerQueue π) κ) : Prop where
  count : r.streamCount = P.streamCount
  enabled : (r.infos s).isStreamEnabled = true
  others : ∀ i, i ≠ s → (r.infos i).isStreamEnabled = false ∧
    (r.infos i).seekResultCheckers = []
  hasReader : (r.streams s).hasReader = true
  demuxer : r.demuxer.OnlyStream s

theorem Settled.only {r : StreamReader (DemuxerQueue π) κ} (h : r.Settled P s) : r.Only P s :=
  ⟨h.count, by rw [h.own], h.others, h.hasReader, h.demuxer⟩

theorem keeps_onDemuxer {α : Type} {p : Proc Fault (DemuxerQueue π) α}
    (hp : Proc.Keeps (DemuxerQueue.OnlyStream s) p) :
    Proc.Keeps (Only P s) (onDemuxer (κ := κ) p) :=
  Proc.keeps_zoom hp (fun _ h => h.demuxer)
    fun _ _ h hd => ⟨h.count, h.enabled, h.others, h.hasReader, hd⟩

/-- No method takes a stream's reader away. -/
theorem Only.withStream {r : StreamReader (DemuxerQueue π) κ} (h : r.Only P s) (i : StreamId)
    {st : DemuxedStream κ} (hst : st.hasReader = (r.streams i).hasReader) :
    (r.setStream i st).Only P s := by
  refine ⟨h.count, h.enabled, h.others, ?_, h.demuxer⟩
  by_cases hi : s = i
  · subst hi
    rw [streams_setStream, hst]
    exact h.hasReader
  · simpa [setStream, hi] using h.hasReader

theorem keeps_modifyStream (i : StreamId) {f : DemuxedStream κ → DemuxedStream κ}
    (hf : ∀ st, (f st).hasReader = st.hasReader) :
    Proc.Keeps (Only P s) (modifyStream i f : Proc Fault (StreamReader (DemuxerQueue π) κ) Unit) :=
  Proc.keeps_modify fun _ h => h.withStream i (hf _)

/-- An entry may be updated where only its requests change; the entries of other streams have
none. -/
theorem Only.withInfo {r : StreamReader (DemuxerQueue π) κ} (h : r.Only P s) (i : StreamId)
    {info : StreamInfo} (henabled : info.isStreamEnabled = (r.infos i).isStreamEnabled)
    (hcheckers : i ≠ s → info.seekResultCheckers = []) : (r.setInfo i info).Only P s := by
  refine ⟨h.count, ?_, fun j hj => ?_, h.hasReader, h.demuxer⟩
  · by_cases hi : s = i
    · subst hi
      simpa [setInfo, henabled] using h.enabled
    · simpa [setInfo, hi] using h.enabled
  · by_cases hi : j = i
    · subst hi
      simpa [setInfo, henabled, hcheckers hj] using (h.others j hj).1
    · simpa [setInfo, hi] using h.others j hj

theorem keeps_modifyInfo (i : StreamId) {f : StreamInfo → StreamInfo}
    (henabled : ∀ info, (f info).isStreamEnabled = info.isStreamEnabled)
    (hcheckers : ∀ info, info.isStreamEnabled = false → info.seekResultCheckers = [] →
      (f info).seekResultCheckers = []) :
    Proc.Keeps (Only P s) (modifyInfo i f : Proc Fault (StreamReader (DemuxerQueue π) κ) Unit) :=
  Proc.keeps_modify fun _ h => h.withInfo i (henabled _)
    fun hi => hcheckers _ (h.others i hi).1 (h.others i hi).2

/-! ## Reading

Reading frames requests no seek either. -/

theorem Only.settled_of_infos {r r' : StreamReader (DemuxerQueue π) κ} (h : r'.Only P s)
    (hr : r.Settled P s) (hinfos : r'.infos = r.infos) : r'.Settled P s :=
  ⟨h.count, by rw [hinfos]; exact hr.own, h.others, h.hasReader, h.demuxer⟩

theorem Settled.withStream {r : StreamReader (DemuxerQueue π) κ} (h : r.Settled P s) (i : StreamId)
    {st : DemuxedStream κ} (hst : st.hasReader = (r.streams i).hasReader) :
    (r.setStream i st).Settled P s :=
  (h.only.withStream i hst).settled_of_infos h rfl

theorem settled_modifyStream (i : StreamId) {f : DemuxedStream κ → DemuxedStream κ}
    (hf : ∀ st, (f st).hasReader = st.hasReader) :
    Proc.Keeps (Settled P s) (modifyStream i f : Proc Fault (StreamReader (DemuxerQueue π) κ) Unit) :=
  Proc.keeps_modify fun _ h => h.withStream i (hf _)

theorem keeps_read (i : StreamId) :
    Proc.Keeps (Settled P s)
      (read (DemuxerQueue.toIDemuxer P) i : Proc Fault (StreamReader (DemuxerQueue π) κ) _) := by
  apply keeps_read_of
  · exact settled_modifyStream i fun _ => rfl
  · intro p
    exact settled_modifyStream i fun _ => rfl
  · intro r h
    exact (keeps_onDemuxer (DemuxerQueue.onlyStream_read i) r h.only).settled_of_infos h rfl

theorem keeps_readFramePass (i : StreamId) :
    Proc.Keeps (Settled P s) (readFramePass (DemuxerQueue.toIDemuxer P) C i) :=
  keeps_readFramePass_of (keeps_read i) (fun _ _ h => h.withStream i rfl)
    (fun _ => settled_modifyStream i fun _ => rfl) (fun _ => settled_modifyStream i fun _ => rfl)
    fun _ => settled_modifyStream i fun _ => rfl

theorem keeps_readFrame (i : StreamId) :
    Proc.Keeps (Settled P s) (readFrame (DemuxerQueue.toIDemuxer P) C i) := by
  have hloop : ∀ fuel,
      Proc.Keeps (Settled P s) (readFrameLoop (DemuxerQueue.toIDemuxer P) C i fuel) := by
    intro fuel
    induction fuel with
    | zero => exact Proc.keeps_throw _
    | succ fuel ih =>
      unfold readFrameLoop
      refine Proc.keeps_bind (keeps_readFramePass i) fun res => ?_
      split
      · exact Proc.keeps_pure _
      · exact ih
  exact Proc.keeps_bind Proc.keeps_get fun r => hloop _

/-! ## Seeking -/

/-- A search keeps the only enabled stream. -/
theorem only_invariant :
    SearchInvariant (DemuxerQueue.toIDemuxer P) (Only (κ := κ) P s) where
  read i := keeps_onDemuxer (DemuxerQueue.onlyStream_read i)
  seek time := keeps_onDemuxer (DemuxerQueue.onlyStream_seek time)
  stream i _ hf := keeps_modifyStream i hf
  mark i := keeps_modifyInfo i (fun _ => rfl) fun _ _ h => h

theorem keeps_requestSeek (time : TimestampFF) :
    Proc.Keeps (Only P s)
      (requestSeek (DemuxerQueue.toIDemuxer P) C s time none :
        Proc Fault (StreamReader (DemuxerQueue π) κ) Unit) := by
  have henabled : ∀ info : StreamInfo,
      (StreamInfo.requestSeek time s info).isStreamEnabled = info.isStreamEnabled := by
    intro info
    unfold StreamInfo.requestSeek
    split <;> rfl
  have hdisabled : ∀ info : StreamInfo, info.isStreamEnabled = false →
      info.seekResultCheckers = [] → (StreamInfo.requestSeek time s info).seekResultCheckers = [] := by
    intro info h hnone
    unfold StreamInfo.requestSeek
    rw [if_pos (by simp [h])]
    exact hnone
  unfold requestSeek
  refine Proc.keeps_bind Proc.keeps_get fun r => ?_
  apply Proc.keeps_guard
  refine Proc.keeps_bind (keeps_modifyStream s fun _ => rfl) fun _ => ?_
  apply Proc.keeps_guard
  refine Proc.keeps_bind (keeps_modifyStream s fun _ => rfl) fun _ => ?_
  exact keeps_modifyInfo s henabled hdisabled

/-- Clearing the request of stream `s` leaves none. -/
theorem Only.settled {r : StreamReader (DemuxerQueue π) κ} (h : r.Only P s) :
    (r.setInfo s (r.infos s).resetStateBeforeSeek).Settled P s := by
  have honly : (r.setInfo s (r.infos s).resetStateBeforeSeek).Only P s :=
    h.withInfo s rfl fun hs => absurd rfl hs
  refine ⟨honly.count, ?_, honly.others, honly.hasReader, honly.demuxer⟩
  have henabled := h.enabled
  simp [setInfo, StreamInfo.resetStateBeforeSeek, StreamInfo.resetStateAfterSeek, henabled]

/-- A finished seek leaves no request behind. -/
theorem settled_of_seek {r r' : StreamReader (DemuxerQueue π) κ} (h : r.Only P s)
    (hs : seek (DemuxerQueue.toIDemuxer P) s r = (.ok (), r')) : r'.Settled P s := by
  unfold seek at hs
  rw [Proc.get_bind_apply] at hs
  split at hs
  · cases hs
  · split at hs
    · cases hs
      exact h.settled
    · split at hs
      · cases hs
      · rename_i start _
        obtain ⟨_, r₁, hloop, hs⟩ := Proc.bind_inv hs
        have honly := only_invariant.seekLoop start 16 start 0 r h
        rw [hloop] at honly
        have hreset : Only P s { r₁ with
            infos := fun i =>
              if i < r₁.streamCount then (r₁.infos i).resetStateAfterSeek else r₁.infos i } := by
          refine ⟨honly.count, ?_, fun i hi => ?_, honly.hasReader, honly.demuxer⟩
          · dsimp only
            split
            · exact honly.enabled
            · exact honly.enabled
          · obtain ⟨henabled, hcheckers⟩ := honly.others i hi
            dsimp only
            split
            · exact ⟨henabled, rfl⟩
            · exact ⟨henabled, hcheckers⟩
        cases hs
        exact hreset.settled

/-- After `do_seek` there are no requests. -/
theorem settled_of_doSeek {r r' : StreamReader (DemuxerQueue π) κ} (h : r.Only P s)
    (hd : doSeek (DemuxerQueue.toIDemuxer P) s r = (.ok (), r')) : r'.Settled P s := by
  unfold doSeek at hd
  rw [Proc.get_bind_apply] at hd
  split at hd
  · cases hd
  · obtain ⟨_, r₁, hseek, hd⟩ := Proc.bind_inv hd
    have hsettled := settled_of_seek h hseek
    cases hd
    exact hsettled.withStream s rfl

end StreamReader

end Seekira.Model
