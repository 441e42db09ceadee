import Seekira.Analysis.DemuxerKept
import Seekira.Analysis.FramesOnce
import Seekira.Analysis.SeekRecorded

/-!
# The verdict of a seek

A stream keeps the answer of its last check that found a packet.  A check that finds
none answers false and leaves the kept answer as it is, so after such a check the
verdict is the one of an earlier packet, of an earlier seek if need be.
-/

set_option autoImplicit false

namespace Seekira.Model

open Library

namespace SeekEvent

/-- The verdict of stream `s` after an event. -/
def updateVerdict (s : StreamId) (verdict : Bool) : SeekEvent → Bool
  | .check c (some _) result => if c = s then result else verdict
  | _ => verdict

/-- The answer of the last check of stream `s` that found a packet, or the verdict from before. -/
def lastVerdict (s : StreamId) (verdict : Bool) (events : List SeekEvent) : Bool :=
  events.foldl (updateVerdict s) verdict

theorem lastVerdict_append (s : StreamId) (verdict : Bool) (es es' : List SeekEvent) :
    lastVerdict s verdict (es ++ es') = lastVerdict s (lastVerdict s verdict es) es' :=
  List.foldl_append

/-- Events without a check of the stream leave its verdict. -/
theorem lastVerdict_of_no_check {s : StreamId} {events : List SeekEvent}
    (h : ∀ packet result, .check s packet result ∉ events) (verdict : Bool) :
    lastVerdict s verdict events = verdict := by
  induction events with
  | nil => rfl
  | cons e events ih =>
    have hfirst : updateVerdict s verdict e = verdict := by
      unfold updateVerdict
      split
      · rename_i c packet result
        rw [if_neg]
        rintro rfl
        exact h (some packet) result (by simp)
      · rfl
    unfold lastVerdict
    rw [List.foldl_cons, hfirst]
    exact ih fun packet result hmem => h packet result (by simp [hmem])

end SeekEvent

namespace StreamReader

open SeekEvent

variable {δ κ : Type} {D : IDemuxer δ} {C : CodecOps κ}

/-- `get_last_seek_result`.
SOURCE: video/ffmpeg/decoding/stream.cpp:216 -/
def getLastSeekResult (s : StreamId) (r : StreamReader δ κ) : Bool := (r.streams s).lastSeekResult

/-! ## A check and the verdict -/

section Verdict

variable {s c : StreamId} {verdict : Bool}

/-- A change of a stream elsewhere keeps the verdict. -/
theorem keeps_verdict_modifyStream {f : DemuxedStream κ → DemuxedStream κ}
    (hf : ∀ st, (f st).lastSeekResult = st.lastSeekResult) :
    Proc.Keeps (fun r : StreamReader δ κ => getLastSeekResult s r = verdict)
      (modifyStream c f) := by
  apply Proc.keeps_modify
  intro r hr
  rw [← hr]
  unfold getLastSeekResult
  by_cases hs : s = c
  · subst hs
    rw [streams_setStream, hf]
  · simp [setStream, hs]

theorem keeps_verdict_onDemuxer {α : Type} (p : Proc Fault δ α) :
    Proc.Keeps (fun r : StreamReader δ κ => getLastSeekResult s r = verdict) (onDemuxer p) :=
  fun _ hr => hr

theorem keeps_verdict_modifyInfo (f : StreamInfo → StreamInfo) :
    Proc.Keeps (fun r : StreamReader δ κ => getLastSeekResult s r = verdict) (modifyInfo c f) :=
  fun _ hr => hr

end Verdict

/-- What keeps every verdict changes none. -/
theorem verdict_of_keeps {α : Type} {p : Proc Fault (StreamReader δ κ) α} {s : StreamId}
    (h : ∀ verdict, Proc.Keeps (fun r => getLastSeekResult s r = verdict) p)
    (r : StreamReader δ κ) : getLastSeekResult s (p r).2 = getLastSeekResult s r :=
  h _ r rfl

/-- A check that returned found no packet and refused, or stored its answer. -/
theorem getSeekResult_inv {c : StreamId} {r r' : StreamReader δ κ} {result : Bool}
    (h : getSeekResult D c r = (.ok result, r')) :
    ∃ r₁, seekResultLoop D c (D.remaining r.demuxer + 1) r = (.ok (), r₁) ∧
      ((r₁.streams c).bufferedPacket = none ∧ result = false ∧
          r' = r₁.setStream c { r₁.streams c with position := avNoPtsValue } ∨
        ∃ p, (r₁.streams c).bufferedPacket = some p ∧
          r' = r₁.setStream c { r₁.streams c with
            position := p.ptsOrDts
            lastSeekResult := result }) := by
  unfold getSeekResult at h
  rw [Proc.get_bind_apply] at h
  obtain ⟨_, r₁, hloop, h⟩ := Proc.bind_inv h
  refine ⟨r₁, hloop, ?_⟩
  rw [Proc.get_bind_apply] at h
  cases hp : (r₁.streams c).bufferedPacket with
  | none =>
    rw [hp] at h
    cases h
    exact .inl ⟨rfl, rfl, rfl⟩
  | some p =>
    rw [hp] at h
    cases h
    exact .inr ⟨p, rfl, rfl⟩

/-- A check throws what its reading throws. -/
theorem getSeekResult_error {c : StreamId} {r r' : StreamReader δ κ} {e : Fault}
    (h : getSeekResult D c r = (.error e, r')) :
    seekResultLoop D c (D.remaining r.demuxer + 1) r = (.error e, r') := by
  unfold getSeekResult at h
  rw [Proc.get_bind_apply] at h
  rcases hloop : seekResultLoop D c (D.remaining r.demuxer + 1) r with ⟨e' | ⟨⟩, r₁⟩
  · rw [Proc.bind_error hloop] at h
    cases h
    rfl
  · rw [Proc.bind_ok hloop, Proc.get_bind_apply] at h
    cases hp : (r₁.streams c).bufferedPacket with
    | none =>
      rw [hp] at h
      cases h
    | some p =>
      rw [hp] at h
      cases h

/-- A check accounts for the change of the verdict. -/
theorem tracks_recordedCheck (s c : StreamId) :
    Recorded.Tracks (getLastSeekResult s) (updateVerdict s)
      (recordedCheck D c : Recorded Fault SeekEvent (StreamReader δ κ) Bool) := by
  intro r
  have hloop := verdict_of_keeps (fun verdict => keeps_seekResultLoop_of
    (keeps_verdict_onDemuxer (s := s) (D.read c)) (fun _ => keeps_verdict_modifyStream fun _ => rfl)
    (D.remaining r.demuxer + 1)) r
  unfold recordedCheck
  rcases h : getSeekResult D c r with ⟨e | result, r'⟩
  · rw [getSeekResult_error h] at hloop
    rw [Recorded.lift_bind_error h]
    exact hloop
  · rw [Recorded.lift_bind_ok h, Recorded.lift_get_bind_apply, Recorded.note_bind_apply]
    obtain ⟨r₁, hrun, hcases⟩ := getSeekResult_inv h
    rw [hrun] at hloop
    rcases hcases with ⟨hp, -, rfl⟩ | ⟨p, hp, rfl⟩
    · rw [streams_setStream, hp]
      exact keeps_verdict_modifyStream (s := s) (c := c)
        (f := fun st => { st with position := avNoPtsValue }) (fun _ => rfl) r₁ hloop
    · rw [streams_setStream, hp]
      unfold getLastSeekResult at hloop ⊢
      by_cases hs : s = c
      · subst hs
        simp [updateVerdict]
      · have hcs : c ≠ s := fun h => hs h.symm
        simpa [updateVerdict, setStream, hs, hcs] using hloop

/-- The verdict changes with the checks only. -/
theorem accounts_verdict (s : StreamId) :
    Accounts D (getLastSeekResult s : StreamReader δ κ → Bool) (updateVerdict s) where
  check := tracks_recordedCheck s
  search _ _ := rfl
  tried _ _ := rfl
  demuxer _ _ := rfl
  infos _ _ := rfl
  clear _ r := verdict_of_keeps (fun _ => keeps_verdict_modifyStream
    (f := fun st => { st with bufferedData := none }) fun _ => rfl) r

/-- A check that finds no packet is refused. -/
def refusesNone : SeekEvent → Bool
  | .check _ none result => !result
  | _ => true

/-- When the account says that nobody refused, nobody did. -/
theorem refusesNone_of_foldl {events : List SeekEvent}
    (h : events.foldl (fun ok e => ok && refusesNone e) true = true) :
    ∀ e ∈ events, refusesNone e = true := by
  induction events using List.reverseRecOn with
  | nil => simp
  | append_singleton events e ih =>
    rw [List.foldl_append, List.foldl_cons, List.foldl_nil, Bool.and_eq_true] at h
    intro e' he'
    rcases List.mem_append.mp he' with he' | he'
    · exact ih h.1 e' he'
    · rw [List.mem_singleton.mp he']
      exact h.2

/-- The account notes every refusal. -/
theorem accounts_refusesNone :
    Accounts D (fun _ : StreamReader δ κ => true) (fun ok e => ok && refusesNone e) where
  check c := by
    intro r
    unfold recordedCheck
    rcases h : getSeekResult D c r with ⟨e | result, r₁⟩
    · rw [Recorded.lift_bind_error h]
      rfl
    · rw [Recorded.lift_bind_ok h, Recorded.lift_get_bind_apply, Recorded.note_bind_apply]
      obtain ⟨r₂, -, ⟨hp, rfl, rfl⟩ | ⟨p, hp, rfl⟩⟩ := getSeekResult_inv h
      · rw [streams_setStream, hp]
        rfl
      · rw [streams_setStream, hp]
        rfl
  search _ _ := by simp [refusesNone]
  tried _ _ := by simp [refusesNone]
  demuxer _ _ := rfl
  infos _ _ := rfl
  clear _ _ := rfl

/-- Requests and passes of `read_frame` leave the verdicts alone. -/
theorem verdict_of_requestSeek (s c : StreamId) (time : TimestampFF)
    (resultChecker : Option StreamId) (r : StreamReader δ κ) :
    getLastSeekResult s (requestSeek D C c time resultChecker r).2 = getLastSeekResult s r := by
  apply verdict_of_keeps
  intro verdict
  unfold requestSeek
  refine Proc.keeps_bind Proc.keeps_get fun r => ?_
  apply Proc.keeps_guard
  refine Proc.keeps_bind (keeps_verdict_modifyStream fun _ => rfl) fun _ => ?_
  apply Proc.keeps_guard
  refine Proc.keeps_bind (keeps_verdict_modifyStream fun _ => rfl) fun _ => ?_
  dsimp only
  split
  · exact Proc.keeps_bind (keeps_verdict_modifyInfo _) fun _ => keeps_verdict_modifyInfo _
  · exact keeps_verdict_modifyInfo _

/-- A pass of `read_frame` keeps the verdict. -/
theorem verdict_of_readFramePass (s c : StreamId) (r : StreamReader δ κ) :
    getLastSeekResult s (readFramePass D C c r).2 = getLastSeekResult s r := by
  apply verdict_of_keeps
  intro verdict
  apply keeps_readFramePass_of
  · exact keeps_read_of (keeps_verdict_modifyStream fun _ => rfl)
      (fun _ => keeps_verdict_modifyStream fun _ => rfl) (keeps_verdict_onDemuxer _)
  · intro pkt r hr
    rw [← hr]
    unfold getLastSeekResult
    by_cases hs : s = c
    · subst hs
      simp [onDecoder]
    · simp [onDecoder, setStream, hs]
  · exact fun _ => keeps_verdict_modifyStream fun _ => rfl
  · exact fun _ => keeps_verdict_modifyStream fun _ => rfl
  · exact fun _ => keeps_verdict_modifyStream fun _ => rfl

end StreamReader

/-! ## Histories of seeks -/

namespace StreamSession

open StreamReader SeekEvent

variable {δ κ : Type} {D : IDemuxer δ} {C : CodecOps κ}

/-- The events of one step of a session. -/
def stepEvents (D : IDemuxer δ) (p : StreamSession δ κ × SessionLabel) : List SeekEvent :=
  match p.2 with
  | .doSeek s => (recordedDoSeek D s p.1.streams).2
  | _ => []

/-- The events of all seeks of a session. -/
def seekEvents (D : IDemuxer δ) (tr : List (StreamSession δ κ × SessionLabel)) : List SeekEvent :=
  tr.flatMap (stepEvents D)

/-- A step keeps the verdict but for what it checks. -/
theorem verdict_of_step {w w' : StreamSession δ κ} {l : SessionLabel}
    (h : step D C w l = some w') (s : StreamId) :
    getLastSeekResult s w'.streams =
      lastVerdict s (getLastSeekResult s w.streams) (stepEvents D (w, l)) := by
  unfold step at h
  split at h
  · cases h
    rfl
  · cases h
    rw [streams_afterCall]
    exact verdict_of_readFramePass s _ _
  · cases h
    rw [streams_afterCall]
    exact verdict_of_requestSeek s _ _ _ _
  · rename_i c _
    cases h
    rw [streams_afterCall, ← erase_recordedDoSeek]
    exact (accounts_verdict s).doSeek c w.streams
  · cases h

/-- The verdict of a stream is the answer of its last check in the history that found a packet. -/
theorem verdict_of_run {r : StreamReader δ κ} {tr : List (StreamSession δ κ × SessionLabel)}
    {w : StreamSession δ κ} (h : (machine D C r).Run tr w) (s : StreamId) :
    getLastSeekResult s w.streams =
      lastVerdict s (getLastSeekResult s r) (seekEvents D tr) := by
  induction h with
  | init => rfl
  | @step tr w w' l _ hstep ih =>
    have hevents : seekEvents D (tr ++ [(w, l)]) = seekEvents D tr ++ stepEvents D (w, l) := by
      unfold seekEvents
      rw [List.flatMap_append, List.flatMap_singleton]
    rw [verdict_of_step hstep s, ih, hevents, lastVerdict_append]

/-- After every history and a `do_seek` that returned, the verdict of the stream is the answer of
its last check in that seek exactly when the check found a packet, or the verdict kept from the
checks before it was false. -/
theorem verdict_current_iff {r : StreamReader δ κ}
    {tr : List (StreamSession δ κ × SessionLabel)} {w : StreamSession δ κ}
    (h : (machine D C r).Run tr w) {s : StreamId} {r' : StreamReader δ κ}
    {events front back : List SeekEvent} {packet : Option DataPacket} {result : Bool}
    (hseek : recordedDoSeek D s w.streams = ((.ok (), r'), events))
    (hlast : events = front ++ .check s packet result :: back)
    (hback : ∀ p b, .check s p b ∉ back) :
    getLastSeekResult s r' = result ↔
      packet ≠ none ∨
        lastVerdict s (getLastSeekResult s r) (seekEvents D tr ++ front) = false := by
  have hverdict : getLastSeekResult s r' =
      lastVerdict s (getLastSeekResult s r) (seekEvents D tr ++ events) := by
    have htracks := (accounts_verdict (D := D) s).doSeek s w.streams
    rw [hseek] at htracks
    rw [htracks, verdict_of_run h s, lastVerdict_append]
    rfl
  have hrefuses : packet = none → result = false := by
    rintro rfl
    have htracks := (accounts_refusesNone (D := D)).doSeek s w.streams
    rw [hseek, hlast] at htracks
    have hcheck := refusesNone_of_foldl htracks.symm (.check s none result) (by simp)
    simpa [refusesNone] using hcheck
  rw [hverdict, hlast, ← List.append_assoc, lastVerdict_append]
  generalize lastVerdict s (getLastSeekResult s r) (seekEvents D tr ++ front) = kept
  have hcheck : lastVerdict s kept (.check s packet result :: back) =
      updateVerdict s kept (.check s packet result) :=
    lastVerdict_of_no_check hback _
  rw [hcheck]
  cases packet with
  | none =>
    rw [hrefuses rfl]
    simp [updateVerdict]
  | some p => simp [updateVerdict]

/-! ### A file that is lost after the first seek -/

/-- A parser that finds the packets again for one seek and none later. -/
def lostFileParser : ParserOps Nat where
  streamCount := 1
  streamType := fun _ => .video
  streamDuration := fun _ => 160
  seekStream := 0
  seek := fun _ _ _ seeks => (true, if seeks = 0 then DemuxerPeriod.twoKeysFile else [], seeks + 1)

def lostFileDemuxer : IDemuxer (DemuxerQueue Nat) := DemuxerQueue.toIDemuxer lostFileParser

def lostFileSession : Machine (StreamSession (DemuxerQueue Nat) (List DataPacket)) SessionLabel :=
  machine lostFileDemuxer (fifoCodec 0 (25, 1))
    (StreamReader.opened lostFileParser DemuxerPeriod.twoKeysFile 0 0 [])

/-- Some session over the lost file in which the next `do_seek` lists `events` and leaves the verdict
`verdict`. -/
theorem exists_lost (calls : List SessionLabel) (events : List SeekEvent) (verdict : Bool)
    (he : (lostFileSession.exec lostFileSession.init calls).any (fun w =>
      let seek := recordedDoSeek lostFileDemuxer 0 w.streams
      seek.1.1.toBool && decide (seek.2 = events) &&
        decide (getLastSeekResult 0 seek.1.2 = verdict)) = true) :
    ∃ tr w r', lostFileSession.Run tr w ∧
      recordedDoSeek lostFileDemuxer 0 w.streams = ((.ok (), r'), events) ∧
      getLastSeekResult 0 r' = verdict := by
  obtain ⟨w, -, hrun, hw⟩ := Machine.exists_run_of_exec lostFileSession calls _ he
  rcases hseek : recordedDoSeek lostFileDemuxer 0 w.streams with ⟨⟨e | ⟨⟩, r'⟩, es⟩
  · rw [hseek] at hw
    cases hw
  · rw [hseek] at hw
    simp only [Bool.and_eq_true, decide_eq_true_eq] at hw
    exact ⟨_, w, r', hrun, by rw [hseek, hw.1.2], hw.2⟩

/-- A stream whose last search was lost. -/
theorem verdict_current_iff_lost :
    ∃ tr w, ∃ r' : StreamReader (DemuxerQueue Nat) (List DataPacket),
      lostFileSession.Run tr w ∧ (getLastSeekResult 0 r' = true ↔
        DemuxerPeriod.twoKeysFile.head? ≠ none ∨
          lastVerdict 0 (getLastSeekResult 0 lostFileSession.init.streams)
            (seekEvents lostFileDemuxer tr ++ [.search 0, .tried 0]) = false) := by
  obtain ⟨tr, w, r', hrun, hseek, -⟩ := exists_lost [.requestSeek 0 0 none]
    ([.search 0, .tried 0] ++ .check 0 DemuxerPeriod.twoKeysFile.head? true :: []) true
    (by decide +kernel)
  exact ⟨tr, w, r', hrun, verdict_current_iff hrun hseek rfl nofun⟩

/-- The second seek finds no packet, and the verdict of the first one stays. -/
theorem verdict_stale :
    ¬∀ tr w r' events front back packet result, lostFileSession.Run tr w →
      recordedDoSeek lostFileDemuxer 0 w.streams = ((.ok (), r'), events) →
      events = front ++ .check 0 packet result :: back → (∀ p b, .check 0 p b ∉ back) →
      getLastSeekResult 0 r' = result := by
  intro hall
  obtain ⟨tr, w, r', hrun, hseek, hverdict⟩ := exists_lost
    [.requestSeek 0 0 none, .doSeek 0, .requestSeek 0 0 none]
    [.search 0, .tried 0, .check 0 none false] true (by decide +kernel)
  have hfalse := hall tr w r' _ [.search 0, .tried 0] [] none false hrun hseek rfl nofun
  rw [hverdict] at hfalse
  cases hfalse

end StreamSession

end Seekira.Model
