import Seekira.Analysis.DemuxerReturns
import Seekira.Analysis.SeekFrame
import Seekira.Model.SeekRecord

/-!
# The record of a seek belongs to the seek

Without its record the recorded seek is the seek of the reader, so what it returns and
the state it leaves are those of the code.  A round of the search lists the checks of
the streams, and it accepts exactly when every checker of every stream was asked and
accepted.
-/

set_option autoImplicit false

namespace Seekira.Model

open Library

namespace SeekEvent

/-- All events are checks of streams. -/
def OnlyChecks (events : List SeekEvent) : Prop :=
  ∀ e ∈ events, ∃ s packet result, e = .check s packet result

/-- Every check accepted. -/
def AllAccept (events : List SeekEvent) : Prop :=
  ∀ s packet result, .check s packet result ∈ events → result = true

/-- The stream was checked and accepted. -/
def AcceptedBy (s : StreamId) (events : List SeekEvent) : Prop :=
  ∃ packet, .check s packet true ∈ events

/-- Only checks, one part after the other. -/
theorem OnlyChecks.append {es es' : List SeekEvent} (h : OnlyChecks es) (h' : OnlyChecks es') :
    OnlyChecks (es ++ es') := by
  intro e he
  rcases List.mem_append.mp he with he | he
  · exact h e he
  · exact h' e he

/-- All accept, one part after the other. -/
theorem AllAccept.append {es es' : List SeekEvent} (h : AllAccept es) (h' : AllAccept es') :
    AllAccept (es ++ es') := by
  intro s packet result he
  rcases List.mem_append.mp he with he | he
  · exact h s packet result he
  · exact h' s packet result he

theorem AcceptedBy.append_left {s : StreamId} {es : List SeekEvent} (h : AcceptedBy s es)
    (es' : List SeekEvent) : AcceptedBy s (es ++ es') := by
  obtain ⟨packet, h⟩ := h
  exact ⟨packet, List.mem_append_left _ h⟩

theorem AcceptedBy.append_right {s : StreamId} {es' : List SeekEvent} (h : AcceptedBy s es')
    (es : List SeekEvent) : AcceptedBy s (es ++ es') := by
  obtain ⟨packet, h⟩ := h
  exact ⟨packet, List.mem_append_right _ h⟩

theorem searches_append (es es' : List SeekEvent) :
    searches (es ++ es') = searches es ++ searches es' :=
  List.filterMap_append ..

@[simp] theorem searches_search (position : TimestampFF) (es : List SeekEvent) :
    searches (.search position :: es) = position :: searches es := rfl

@[simp] theorem searches_tried (position : TimestampFF) (es : List SeekEvent) :
    searches (.tried position :: es) = searches es := rfl

theorem OnlyChecks.searches_eq_nil {es : List SeekEvent} (h : OnlyChecks es) :
    searches es = [] := by
  unfold searches
  rw [List.filterMap_eq_nil_iff]
  intro e he
  obtain ⟨s, packet, result, rfl⟩ := h e he
  rfl

end SeekEvent

namespace StreamReader

open SeekEvent

variable {δ κ : Type} (D : IDemuxer δ)

/-! ## Erasing the record -/

/-- Without its record, `get_seek_result`. -/
theorem erase_recordedCheck (s : StreamId) :
    (recordedCheck D s : Recorded Fault SeekEvent (StreamReader δ κ) Bool).erase =
      getSeekResult D s := by
  unfold recordedCheck
  simp only [Recorded.erase_bind, Recorded.erase_lift, Recorded.erase_note, Recorded.erase_pure]
  funext r
  rcases h : getSeekResult D s r with ⟨e | result, r'⟩
  · rw [Proc.bind_error h]
  · rw [Proc.bind_ok h]
    rfl

theorem erase_recordedCheckResults (time : TimestampFF) (checkers : List StreamId) :
    (recordedCheckResults D time checkers :
      Recorded Fault SeekEvent (StreamReader δ κ) Bool).erase = checkResults D time checkers := by
  induction checkers with
  | nil => rfl
  | cons checker rest ih =>
    unfold recordedCheckResults checkResults
    simp only [Recorded.erase_bind, Recorded.erase_ite, Recorded.erase_pure, ih,
      erase_recordedCheck]

theorem erase_recordedInfoSeekResult (time : TimestampFF) (i : StreamId) :
    (recordedInfoSeekResult D time i :
      Recorded Fault SeekEvent (StreamReader δ κ) Bool).erase = infoSeekResult D time i := by
  unfold recordedInfoSeekResult infoSeekResult
  simp only [Recorded.erase_bind, Recorded.erase_lift, erase_recordedCheckResults]

theorem erase_recordedSeekResults (time : TimestampFF) (is : List StreamId) :
    (recordedSeekResults D time is :
      Recorded Fault SeekEvent (StreamReader δ κ) Bool).erase = seekResults D time is := by
  induction is with
  | nil => rfl
  | cons i is ih =>
    unfold recordedSeekResults seekResults
    simp only [Recorded.erase_bind, Recorded.erase_ite, Recorded.erase_pure, ih,
      erase_recordedInfoSeekResult]

theorem erase_recordedSeekLoop (start : TimestampFF) (fuel : Nat) (time : TimestampFF)
    (shift : TimeFF) :
    (recordedSeekLoop D start fuel time shift :
      Recorded Fault SeekEvent (StreamReader δ κ) Unit).erase =
      seekLoop D start fuel time shift := by
  induction fuel generalizing time shift with
  | zero => rfl
  | succ fuel ih =>
    unfold recordedSeekLoop seekLoop
    simp only [Recorded.erase_bind, Recorded.erase_ite, Recorded.erase_pure, Recorded.erase_lift,
      Recorded.erase_note, Proc.pure_bind, ih, erase_recordedSeekResults]

theorem erase_recordedSeek (s : StreamId) :
    (recordedSeek D s : Recorded Fault SeekEvent (StreamReader δ κ) Unit).erase = seek D s := by
  unfold recordedSeek seek
  simp only [Recorded.erase_bind, Recorded.erase_lift]
  congr 1
  funext r
  rcases minSeekPosition r.infos (List.range r.streamCount) avNoPtsValue with e | start
  all_goals
    simp only [Recorded.erase_bind, Recorded.erase_ite, Recorded.erase_lift,
      erase_recordedSeekLoop]

theorem erase_recordedDoSeek (s : StreamId) :
    (recordedDoSeek D s : Recorded Fault SeekEvent (StreamReader δ κ) Unit).erase =
      doSeek D s := by
  unfold recordedDoSeek doSeek
  simp only [Recorded.erase_bind, Recorded.erase_ite, Recorded.erase_lift, erase_recordedSeek]

/-! ## What the record accounts for

A property that only the checks change is accounted for by the events of the whole seek. -/

structure Accounts {τ : Type} (D : IDemuxer δ) (f : StreamReader δ κ → τ)
    (account : τ → SeekEvent → τ) : Prop where
  check : ∀ c, Recorded.Tracks f account (recordedCheck D c)
  search : ∀ t position, account t (.search position) = t
  tried : ∀ t position, account t (.tried position) = t
  demuxer : ∀ r d, f { r with demuxer := d } = f r
  infos : ∀ r infos, f { r with infos := infos } = f r
  clear : ∀ c r, f (r.setStream c { r.streams c with bufferedData := none }) = f r

namespace Accounts

variable {D} {τ : Type} {f : StreamReader δ κ → τ} {account : τ → SeekEvent → τ}

/-- The account is kept over the results of all streams. -/
theorem seekResults (h : Accounts D f account) (time : TimestampFF) (is : List StreamId) :
    Recorded.Tracks f account (recordedSeekResults D time is) := by
  have hchecks : ∀ checkers, Recorded.Tracks f account (recordedCheckResults D time checkers) := by
    intro checkers
    induction checkers with
    | nil => exact Recorded.tracks_pure _
    | cons c rest ih =>
      unfold recordedCheckResults
      refine Recorded.tracks_bind (h.check c) fun result => ?_
      apply Recorded.tracks_ite ih
      apply Recorded.tracks_ite (Recorded.tracks_pure _)
      exact Recorded.tracks_bind ih fun _ => Recorded.tracks_pure _
  induction is with
  | nil => exact Recorded.tracks_pure _
  | cons i is ih =>
    have hinfo : Recorded.Tracks f account (recordedInfoSeekResult D time i) := by
      unfold recordedInfoSeekResult
      refine Recorded.tracks_bind (Recorded.tracks_lift fun r => h.infos r _) fun _ => ?_
      exact Recorded.tracks_bind (Recorded.tracks_lift fun _ => rfl) fun _ => hchecks _
    unfold recordedSeekResults
    refine Recorded.tracks_bind hinfo fun result => ?_
    apply Recorded.tracks_ite ih
    apply Recorded.tracks_ite (Recorded.tracks_pure _)
    exact Recorded.tracks_bind ih fun _ => Recorded.tracks_pure _

/-- The account is kept over the loop of the search. -/
theorem seekLoop (h : Accounts D f account) (start : TimestampFF) (fuel : Nat)
    (time : TimestampFF) (shift : TimeFF) :
    Recorded.Tracks f account (recordedSeekLoop D start fuel time shift) := by
  induction fuel generalizing time shift with
  | zero => exact Recorded.tracks_lift fun _ => rfl
  | succ fuel ih =>
    unfold recordedSeekLoop
    apply Recorded.tracks_ite (Recorded.tracks_pure _)
    refine Recorded.tracks_bind (Recorded.tracks_note fun t => h.search t _) fun _ => ?_
    refine Recorded.tracks_bind (Recorded.tracks_lift fun r => h.demuxer r _) fun answer => ?_
    refine Recorded.tracks_bind (Recorded.tracks_note fun t => h.tried t _) fun _ => ?_
    refine Recorded.tracks_bind (Recorded.tracks_lift fun _ => rfl) fun r => ?_
    refine Recorded.tracks_bind (h.seekResults _ _) fun result => ?_
    exact Recorded.tracks_ite (Recorded.tracks_pure _) (ih _ _)

/-- The account is kept over `do_seek`. -/
theorem doSeek (h : Accounts D f account) (s : StreamId) :
    Recorded.Tracks f account (recordedDoSeek D s) := by
  have hseek : Recorded.Tracks f account (recordedSeek D s) := by
    unfold recordedSeek
    refine Recorded.tracks_bind (Recorded.tracks_lift fun _ => rfl) fun r => ?_
    refine Recorded.tracks_ite
      (Recorded.tracks_bind (Recorded.tracks_lift fun _ => rfl) fun _ => ?_) ?_
    all_goals
      apply Recorded.tracks_ite (Recorded.tracks_lift fun r => h.infos r _)
      split
      · exact Recorded.tracks_lift fun _ => rfl
      · refine Recorded.tracks_bind (h.seekLoop _ _ _ _) fun _ => ?_
        refine Recorded.tracks_bind (Recorded.tracks_lift fun r => h.infos r _) fun _ => ?_
        exact Recorded.tracks_lift fun r => h.infos r _
  unfold recordedDoSeek
  refine Recorded.tracks_bind (Recorded.tracks_lift fun _ => rfl) fun r => ?_
  refine Recorded.tracks_ite
    (Recorded.tracks_bind (Recorded.tracks_lift fun _ => rfl) fun _ => ?_) ?_
  all_goals exact Recorded.tracks_bind hseek fun _ => Recorded.tracks_lift fun r => h.clear s r

end Accounts

/-! ## The checks of one round -/

/-- The stream answers in every state of the reader. -/
def Answers (D : IDemuxer δ) (κ : Type) (s : StreamId) : Prop :=
  ∀ r : StreamReader δ κ, ∃ result r', getSeekResult D s r = (.ok result, r')

/-- The reading for the result of a search returns. -/
theorem seekResultLoop_returns {D : IDemuxer δ} {n : Nat} (hD : D.Returns n) {s : StreamId}
    (hs : s < n) (fuel : Nat) {r : StreamReader δ κ} (hfuel : D.remaining r.demuxer < fuel) :
    ∃ r', seekResultLoop D s fuel r = (.ok (), r') := by
  induction fuel generalizing r with
  | zero => exact absurd hfuel (Nat.not_lt_zero _)
  | succ fuel ih =>
    obtain ⟨packet, d, hread, hless⟩ := hD.read s hs r.demuxer
    have honDemuxer : onDemuxer (D.read s) r = (.ok packet, { r with demuxer := d }) := by
      simp [onDemuxer, hread]
    unfold seekResultLoop
    rw [Proc.bind_ok honDemuxer]
    unfold modifyStream
    rw [Proc.modify_bind_apply, Proc.get_bind_apply]
    cases packet with
    | none => exact ⟨_, rfl⟩
    | some p =>
      dsimp only
      split
      · exact ⟨_, rfl⟩
      · exact ih (Nat.lt_of_lt_of_le (hless rfl) (Nat.lt_succ_iff.mp hfuel))

/-- A stream of a demuxer whose calls return answers. -/
theorem answers_of_returns {D : IDemuxer δ} {n : Nat} (hD : D.Returns n) {s : StreamId}
    (hs : s < n) : Answers D κ s := by
  intro r
  obtain ⟨r₁, hloop⟩ := seekResultLoop_returns hD hs (D.remaining r.demuxer + 1) (r := r)
    (Nat.lt_succ_self _)
  unfold getSeekResult
  rw [Proc.get_bind_apply, Proc.bind_ok hloop, Proc.get_bind_apply]
  cases (r₁.streams s).bufferedPacket with
  | none => exact ⟨_, _, rfl⟩
  | some p => exact ⟨_, _, rfl⟩

/-- The events of a procedure that asks the streams `asked` and returns `result`. -/
structure Outcome (asked : StreamId → Prop) (result : Bool) (events : List SeekEvent) : Prop where
  onlyChecks : OnlyChecks events
  accepted : result = true → AllAccept events ∧ ∀ s, asked s → AcceptedBy s events

theorem Outcome.none : Outcome (fun _ => False) true [] where
  onlyChecks := nofun
  accepted := fun _ => ⟨nofun, nofun⟩

/-- Where the first part accepts, the second one decides. -/
theorem Outcome.append {asked asked' : StreamId → Prop} {result : Bool}
    {es es' : List SeekEvent} (h : Outcome asked true es) (h' : Outcome asked' result es') :
    Outcome (fun s => asked s ∨ asked' s) result (es ++ es') where
  onlyChecks := h.onlyChecks.append h'.onlyChecks
  accepted := by
    intro hresult
    obtain ⟨hall, hby⟩ := h.accepted rfl
    obtain ⟨hall', hby'⟩ := h'.accepted hresult
    refine ⟨hall.append hall', fun s hs => ?_⟩
    rcases hs with hs | hs
    · exact (hby s hs).append_left _
    · exact (hby' s hs).append_right _

/-- A refusal needs no more than that all events are checks. -/
theorem Outcome.refused {asked : StreamId → Prop} {es : List SeekEvent} (h : OnlyChecks es) :
    Outcome asked false es :=
  ⟨h, nofun⟩

theorem Outcome.congr {asked asked' : StreamId → Prop} {result : Bool} {es : List SeekEvent}
    (h : Outcome asked result es) (hsub : ∀ s, asked' s → asked s) : Outcome asked' result es :=
  ⟨h.onlyChecks, fun hr => ⟨(h.accepted hr).1, fun s hs => (h.accepted hr).2 s (hsub s hs)⟩⟩

/-- A check returns what its stream answers. -/
theorem recordedCheck_returns {s : StreamId} (hs : Answers D κ s) (r : StreamReader δ κ) :
    ∃ result r' events, recordedCheck D s r = ((.ok result, r'), events) ∧
      Outcome (· = s) result events := by
  obtain ⟨result, r', hget⟩ := hs r
  refine ⟨result, r', [.check s (r'.streams s).bufferedPacket result], ?_, ?_, ?_⟩
  · unfold recordedCheck
    rw [Recorded.lift_bind_ok hget]
    rfl
  · intro e he
    exact ⟨_, _, _, List.mem_singleton.mp he⟩
  · rintro rfl
    refine ⟨?_, fun c hc => ⟨(r'.streams s).bufferedPacket, by simp [hc]⟩⟩
    intro c packet result he
    cases List.mem_singleton.mp he
    rfl

/-- The checks of some streams return what they answer. -/
theorem recordedCheckResults_returns (time : TimestampFF) {checkers : List StreamId}
    (hc : ∀ c ∈ checkers, Answers D κ c) (r : StreamReader δ κ) :
    ∃ result r' events, recordedCheckResults D time checkers r = ((.ok result, r'), events) ∧
      Outcome (· ∈ checkers) result events := by
  induction checkers generalizing r with
  | nil => exact ⟨true, r, [], rfl, Outcome.none.congr (by simp)⟩
  | cons c rest ih =>
    obtain ⟨result, r₁, es, hcheck, hout⟩ := recordedCheck_returns D (hc c (by simp)) r
    obtain ⟨later, r₂, es', hrest, hout'⟩ := ih (fun c hc' => hc c (by simp [hc'])) r₁
    unfold recordedCheckResults
    rw [Recorded.bind_ok hcheck]
    cases result with
    | true =>
      rw [if_pos rfl, hrest]
      exact ⟨later, r₂, es ++ es', rfl, (hout.append hout').congr (by simp)⟩
    | false =>
      rw [if_neg (by simp)]
      by_cases htime : time > 0
      · rw [if_pos htime]
        exact ⟨false, r₁, _, rfl, .refused (hout.onlyChecks.append nofun)⟩
      · rw [if_neg htime, Recorded.bind_ok hrest]
        exact ⟨false, r₂, _, rfl,
          .refused (hout.onlyChecks.append (hout'.onlyChecks.append nofun))⟩

/-- The checks of a stream's checkers return what they answer. -/
theorem recordedInfoSeekResult_returns (time : TimestampFF) {i : StreamId} {r : StreamReader δ κ}
    (hc : ∀ c ∈ (r.infos i).seekResultCheckers, Answers D κ c) :
    ∃ result r' events, recordedInfoSeekResult D time i r = ((.ok result, r'), events) ∧
      Outcome (· ∈ (r.infos i).seekResultCheckers) result events ∧
      (r'.infos i).seekAlreadyDone = true := by
  have hsame := (SameRequests.refl r).mark i
  have hdone : ((r.setInfo i { r.infos i with seekAlreadyDone := true }).infos i).seekAlreadyDone =
      true := by
    simp [setInfo]
  generalize hr₁ : r.setInfo i { r.infos i with seekAlreadyDone := true } = r₁ at hsame hdone
  rw [← hsame.checkers i] at hc ⊢
  obtain ⟨result, r', es, hres, hout⟩ := recordedCheckResults_returns D time hc r₁
  refine ⟨result, r', es, ?_, hout, ?_⟩
  · unfold recordedInfoSeekResult modifyInfo
    rw [Recorded.lift_modify_bind_apply, hr₁, Recorded.lift_get_bind_apply]
    exact hres
  · exact Recorded.keeps_of_erase (erase_recordedCheckResults D time _)
      ((marked_invariant D i).checkResults time _) hres hdone

/-- The streams of `is` are all asked when the round accepts, or has reached zero. -/
theorem recordedSeekResults_returns (time : TimestampFF) (is : List StreamId)
    {r : StreamReader δ κ}
    (hc : ∀ i ∈ is, ∀ c ∈ (r.infos i).seekResultCheckers, Answers D κ c) :
    ∃ result r' events, recordedSeekResults D time is r = ((.ok result, r'), events) ∧
      Outcome (fun c => ∃ i ∈ is, c ∈ (r.infos i).seekResultCheckers) result events ∧
      (result = true ∨ time ≤ 0 → ∀ i ∈ is, (r'.infos i).seekAlreadyDone = true) := by
  induction is generalizing r with
  | nil => exact ⟨true, r, [], rfl, Outcome.none.congr (by simp), by simp⟩
  | cons i is ih =>
    obtain ⟨result, r₁, es, hinfo, hout, hdone⟩ :=
      recordedInfoSeekResult_returns D time (hc i (by simp))
    have hsame : SameRequests r r₁ := Recorded.keeps_of_erase
      (erase_recordedInfoSeekResult D time i) ((sameRequests_invariant D r).infoSeekResult time i)
      hinfo (.refl r)
    obtain ⟨later, r₂, es', hrest, hout', hdone'⟩ := ih (r := r₁) fun j hj c hcj => by
      rw [hsame.checkers j] at hcj
      exact hc j (by simp [hj]) c hcj
    have hmark : (r₂.infos i).seekAlreadyDone = true := Recorded.keeps_of_erase
      (erase_recordedSeekResults D time is) ((marked_invariant D i).seekResults time is) hrest hdone
    have hmarks : (later = true ∨ time ≤ 0) → ∀ j ∈ i :: is,
        (r₂.infos j).seekAlreadyDone = true := by
      intro hall j hj
      rcases List.mem_cons.mp hj with rfl | hj
      · exact hmark
      · exact hdone' hall j hj
    unfold recordedSeekResults
    rw [Recorded.bind_ok hinfo]
    cases result with
    | true =>
      rw [if_pos rfl, hrest]
      refine ⟨later, r₂, es ++ es', rfl, (hout.append hout').congr ?_, hmarks⟩
      rintro c ⟨j, hj, hcj⟩
      rcases List.mem_cons.mp hj with rfl | hj
      · exact .inl hcj
      · exact .inr ⟨j, hj, by rw [hsame.checkers j]; exact hcj⟩
    | false =>
      rw [if_neg (by simp)]
      by_cases htime : time > 0
      · rw [if_pos htime]
        refine ⟨false, r₁, _, rfl, .refused (hout.onlyChecks.append nofun), ?_⟩
        rintro (h | h)
        · cases h
        · exact absurd htime (Int.not_lt.mpr h)
      · rw [if_neg htime, Recorded.bind_ok hrest]
        refine ⟨false, r₂, _, rfl,
          .refused (hout.onlyChecks.append (hout'.onlyChecks.append nofun)), fun _ => ?_⟩
        exact hmarks (.inr (Int.not_lt.mp htime))

end StreamReader

end Seekira.Model
