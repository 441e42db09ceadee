import Seekira.Analysis.DemuxerDelivery
import Seekira.Library.Thinning
import Seekira.Model.DemuxerPeriod

/-!
# What becomes of the packets read from the parser

A batch sorts the packets it takes from the parser into the queues of their streams.
The queue of an enabled stream accepts them one after another, whatever the other
streams do meanwhile; only a key packet at or before the seek time takes packets back,
and only those that were not returned yet.
-/

set_option autoImplicit false

namespace Seekira.Model

open Library

namespace DemuxerQueue

variable {π : Type} {P : ParserOps π}

/-- The queue after packets of its stream were accepted in order. -/
def acceptEach (seekTime : TimestampFF) (ps : List DataPacket) (q : PacketQueue) : PacketQueue :=
  ps.foldl (fun q p => accept seekTime p q) q

theorem acceptEach_append (seekTime : TimestampFF) (ps qs : List DataPacket) (q : PacketQueue) :
    acceptEach seekTime (ps ++ qs) q = acceptEach seekTime qs (acceptEach seekTime ps q) := by
  simp [acceptEach]

theorem ofStream_append (s : StreamId) (ps qs : List DataPacket) :
    ofStream s (ps ++ qs) = ofStream s ps ++ ofStream s qs := by
  simp [ofStream]

theorem flags_accept (time : TimestampFF) (p : DataPacket) (q : PacketQueue) :
    (accept time p q).enabled = q.enabled ∧ (accept time p q).canBeEmpty = q.canBeEmpty := by
  unfold accept
  split <;> exact ⟨rfl, rfl⟩

/-- Accepting packets does not touch the flags of the queue. -/
theorem flags_acceptEach (time : TimestampFF) (ps : List DataPacket) (q : PacketQueue) :
    (acceptEach time ps q).enabled = q.enabled ∧
      (acceptEach time ps q).canBeEmpty = q.canBeEmpty := by
  induction ps generalizing q with
  | nil => exact ⟨rfl, rfl⟩
  | cons p ps ih =>
    obtain ⟨henabled, hempty⟩ := ih (accept time p q)
    exact ⟨henabled.trans (flags_accept time p q).1, hempty.trans (flags_accept time p q).2⟩

/-- The demuxer has sorted the packets `taken` into the queues: those of enabled streams accepted
their packets, those of the others were at most emptied. -/
structure Parses (d : DemuxerQueue π) (taken : List DataPacket) (d' : DemuxerQueue π) : Prop where
  ahead : d.ahead = taken ++ d'.ahead
  seekTime : d'.seekTime = d.seekTime
  queue : ∀ i, (d.queues i).enabled = true →
    d'.queues i = acceptEach d.seekTime (ofStream i taken) (d.queues i)
  disabled : ∀ i, (d.queues i).enabled = false →
    d'.queues i = d.queues i ∨ d'.queues i = (d.queues i).reset
  eof : d'.eofIsReached = true → d.eofIsReached = true ∨ d'.ahead = []

namespace Parses

variable {d d₁ d₂ d' : DemuxerQueue π} {taken more : List DataPacket}

theorem refl (d : DemuxerQueue π) : Parses d [] d :=
  ⟨rfl, rfl, fun _ _ => rfl, fun _ _ => .inl rfl, .inl⟩

/-- No batch enables or disables a stream. -/
theorem flags (h : Parses d taken d') (i : StreamId) :
    (d'.queues i).enabled = (d.queues i).enabled ∧
      (d'.queues i).canBeEmpty = (d.queues i).canBeEmpty := by
  rcases henabled : (d.queues i).enabled with _ | _
  · rcases h.disabled i henabled with heq | heq
    · rw [heq]
      exact ⟨henabled, rfl⟩
    · rw [heq]
      exact ⟨henabled, rfl⟩
  · rw [h.queue i henabled, ← henabled]
    exact flags_acceptEach _ _ _

theorem trans (h₁ : Parses d taken d₁) (h₂ : Parses d₁ more d₂) :
    Parses d (taken ++ more) d₂ := by
  refine ⟨?_, h₂.seekTime.trans h₁.seekTime, fun i hi => ?_, fun i hi => ?_, fun he => ?_⟩
  · rw [h₁.ahead, h₂.ahead, List.append_assoc]
  · rw [h₂.queue i ((h₁.flags i).1.trans hi), h₁.queue i hi, h₁.seekTime, ofStream_append,
      acceptEach_append]
  · rcases h₂.disabled i ((h₁.flags i).1.trans hi) with h | h
    · rw [h]
      exact h₁.disabled i hi
    · rcases h₁.disabled i hi with h' | h'
      · rw [h, h']
        exact .inr rfl
      · rw [h, h']
        exact .inr rfl
  · rcases h₂.eof he with he₁ | ha
    · rcases h₁.eof he₁ with he₀ | ha₁
      · exact .inl he₀
      · have hall := h₂.ahead
        rw [ha₁] at hall
        exact .inr (List.append_eq_nil_iff.mp hall.symm).2
    · exact .inr ha

/-- One packet of an enabled stream. -/
theorem accepted (d : DemuxerQueue π) {p : DataPacket} {rest : List DataPacket}
    (ha : d.ahead = p :: rest) (hp : (d.queues p.streamIndex).enabled = true) :
    Parses d [p] { d.setQueue p.streamIndex (accept d.seekTime p (d.queues p.streamIndex)) with
      ahead := rest } := by
  refine ⟨ha, rfl, fun i hi => ?_, fun i hi => .inl ?_, .inl⟩
  · by_cases hip : i = p.streamIndex
    · subst hip
      simp [ofStream, acceptEach]
    · have hpi : ¬p.streamIndex = i := fun h => hip h.symm
      simp [ofStream, acceptEach, hip, hpi]
  · have hip : i ≠ p.streamIndex := by
      rintro rfl
      rw [hp] at hi
      cases hi
    simp [hip]

/-- One packet of another stream. -/
theorem skipped (d : DemuxerQueue π) {p : DataPacket} {rest : List DataPacket}
    (ha : d.ahead = p :: rest) (hp : (d.queues p.streamIndex).enabled = false) :
    Parses d [p] { d.setQueue p.streamIndex (d.queues p.streamIndex).reset with
      ahead := rest } := by
  refine ⟨ha, rfl, fun i hi => ?_, fun i hi => ?_, .inl⟩
  · have hip : i ≠ p.streamIndex := by
      rintro rfl
      rw [hp] at hi
      cases hi
    have hpi : ¬p.streamIndex = i := fun h => hip h.symm
    simp [ofStream, acceptEach, hip, hpi]
  · by_cases hip : i = p.streamIndex
    · subst hip
      exact .inr (by simp)
    · exact .inl (by simp [hip])

end Parses

/-! ## Full queues -/

/-- No queue is full. -/
def NoneFull (P : ParserOps π) (d : DemuxerQueue π) : Prop :=
  ∀ i < P.streamCount, (d.queues i).isFull = false

theorem anyFull_eq_false_iff (d : DemuxerQueue π) : anyFull P d = false ↔ NoneFull P d := by
  unfold anyFull NoneFull streams
  rw [List.any_eq_false]
  simp

/-- Once the packets `front` are sorted, no queue is full. -/
def NoneFullAfter (P : ParserOps π) (d : DemuxerQueue π) (front : List DataPacket) : Prop :=
  ∀ i < P.streamCount, (d.queues i).enabled = true →
    (acceptEach d.seekTime (ofStream i front) (d.queues i)).isFull = false

/-- While the packets `taken` are sorted, no queue gets full. -/
def Stays (P : ParserOps π) (d : DemuxerQueue π) (taken : List DataPacket) : Prop :=
  ∀ front, front <+: taken → NoneFullAfter P d front

/-- A queue gets full with the last of the packets `taken`, and not before. -/
structure FillsUp (P : ParserOps π) (d : DemuxerQueue π) (taken : List DataPacket) : Prop where
  last : ¬NoneFullAfter P d taken
  before : ∀ front, front <+: taken → front ≠ taken → NoneFullAfter P d front

/-- The packets ahead belong to streams of the file. -/
def OwnPackets (P : ParserOps π) (d : DemuxerQueue π) : Prop :=
  ∀ p ∈ d.ahead, p.streamIndex < P.streamCount

variable {d d₁ d' : DemuxerQueue π} {taken more front : List DataPacket}

theorem NoneFull.after_nil (h : NoneFull P d) : NoneFullAfter P d [] := fun i hi _ => h i hi

/-- Whether a queue is full after parsing depends on the packets that came. -/
theorem Parses.noneFull_iff (h : Parses d taken d') (hd : NoneFull P d) :
    NoneFull P d' ↔ NoneFullAfter P d taken := by
  constructor
  · intro hnone i hi henabled
    rw [← h.queue i henabled]
    exact hnone i hi
  · intro hnone i hi
    rcases henabled : (d.queues i).enabled with _ | _
    · rcases h.disabled i henabled with heq | heq
      · rw [heq]
        exact hd i hi
      · rw [heq]
        rfl
    · rw [h.queue i henabled]
      exact hnone i hi henabled

/-- The packets that came first are already in the queues. -/
theorem Parses.noneFullAfter_append (h : Parses d taken d₁) :
    NoneFullAfter P d (taken ++ front) ↔ NoneFullAfter P d₁ front := by
  have hqueue : ∀ i, (d.queues i).enabled = true →
      acceptEach d.seekTime (ofStream i (taken ++ front)) (d.queues i) =
        acceptEach d₁.seekTime (ofStream i front) (d₁.queues i) := by
    intro i hi
    rw [ofStream_append, acceptEach_append, h.seekTime, h.queue i hi]
  constructor
  · intro hnone i hlt hi
    rw [(h.flags i).1] at hi
    rw [← hqueue i hi]
    exact hnone i hlt hi
  · intro hnone i hlt hi
    rw [hqueue i hi]
    exact hnone i hlt ((h.flags i).1.trans hi)

/-- A front part of two lists in a row ends in the first or in the second. -/
theorem prefix_append_cases (h : front <+: taken ++ more) :
    front <+: taken ∨ ∃ rest, rest <+: more ∧ front = taken ++ rest := by
  rcases List.prefix_or_prefix_of_prefix h (List.prefix_append taken more) with hp | ⟨rest, rfl⟩
  · exact .inl hp
  · exact .inr ⟨rest, (List.prefix_append_right_inj taken).mp h, rfl⟩

/-- The queues stay free over two parts. -/
theorem Stays.append (h : Stays P d taken) (ht : Parses d taken d₁) (hmore : Stays P d₁ more) :
    Stays P d (taken ++ more) := by
  intro front hfront
  rcases prefix_append_cases hfront with hp | ⟨rest, hrest, rfl⟩
  · exact h front hp
  · exact ht.noneFullAfter_append.mpr (hmore rest hrest)

/-- The queues stay free over the first part, and fill up in the second. -/
theorem FillsUp.append (h : Stays P d taken) (ht : Parses d taken d₁) (hmore : FillsUp P d₁ more) :
    FillsUp P d (taken ++ more) := by
  refine ⟨fun hnone => hmore.last (ht.noneFullAfter_append.mp hnone), fun front hfront hne => ?_⟩
  rcases prefix_append_cases hfront with hp | ⟨rest, hrest, rfl⟩
  · exact h front hp
  · apply ht.noneFullAfter_append.mpr
    apply hmore.before rest hrest
    rintro rfl
    exact hne rfl

/-- How a batch ends: the count is reached, the file has ended, or a queue is full. -/
inductive BatchStop (P : ParserOps π) (n : Nat) (d : DemuxerQueue π) (taken : List DataPacket)
    (d' : DemuxerQueue π) : Bool → Prop
  | reached : n ≤ taken.length → d'.eofIsReached = d.eofIsReached → Stays P d taken →
      BatchStop P n d taken d' true
  | eof : d'.eofIsReached = true → d'.ahead = [] → Stays P d taken → BatchStop P n d taken d' false
  | full : d'.eofIsReached = d.eofIsReached → FillsUp P d taken → BatchStop P n d taken d' false

/-- A batch that continues after one packet ends for the same reason. -/
theorem BatchStop.cons {n : Nat} {p : DataPacket} {res : Bool} (hd : NoneFullAfter P d [])
    (hp : Parses d [p] d₁) (heof : d₁.eofIsReached = d.eofIsReached) (hmore : NoneFull P d₁)
    {m : Nat} (hm : n ≤ m + 1) (h : BatchStop P m d₁ more d' res) :
    BatchStop P n d (p :: more) d' res := by
  have hstays : Stays P d [p] := by
    intro front hfront
    rcases List.prefix_cons_iff.mp hfront with rfl | ⟨rest, rfl, hrest⟩
    · exact hd
    · obtain rfl := List.prefix_nil.mp hrest
      exact hp.noneFullAfter_append.mpr hmore.after_nil
  cases h with
  | reached hlen he hs =>
    exact .reached (by rw [List.length_cons]; omega) (he.trans heof) (hstays.append hp hs)
  | eof he ha hs => exact .eof he ha (hstays.append hp hs)
  | full he hf => exact .full (he.trans heof) (hf.append hstays hp)

/-! ## Batches -/

/-- A batch parses some of the packets ahead, and stops at the end of the file, at a full queue or
after its number of packets. -/
theorem parses_readBatch (n : Nat) (ahead : List DataPacket) (d : DemuxerQueue π) :
    ∃ taken, Parses { d with ahead := ahead } taken (readBatch n ahead d).2 ∧
      (NoneFull P d → OwnPackets P { d with ahead := ahead } →
        BatchStop P n { d with ahead := ahead } taken (readBatch n ahead d).2
          (readBatch n ahead d).1) := by
  induction ahead generalizing n d with
  | nil =>
    refine ⟨[], ?_, fun hnone _ => ?_⟩
    · cases n <;> exact ⟨rfl, rfl, fun _ _ => rfl, fun _ _ => .inl rfl, fun _ => .inr rfl⟩
    · have hstays : Stays P { d with ahead := [] } [] := by
        intro front hfront
        rw [List.prefix_nil.mp hfront]
        exact NoneFull.after_nil hnone
      cases n with
      | zero => exact .reached (Nat.le_refl _) rfl hstays
      | succ n => exact .eof rfl rfl hstays
  | cons p rest ih =>
    cases n with
    | zero =>
      refine ⟨[], .refl _, fun hnone _ => .reached (Nat.le_refl _) rfl ?_⟩
      intro front hfront
      rw [List.prefix_nil.mp hfront]
      exact NoneFull.after_nil hnone
    | succ n =>
      unfold readBatch
      dsimp only
      rcases henabled : (d.queues p.streamIndex).enabled with _ | _
      · rw [if_neg (by simp)]
        have hp := Parses.skipped { d with ahead := p :: rest } rfl henabled
        obtain ⟨taken, hmore, hstop⟩ :=
          ih (n + 1) (d.setQueue p.streamIndex (d.queues p.streamIndex).reset)
        refine ⟨p :: taken, hp.trans hmore, fun hnone hown => ?_⟩
        have hnone₁ := (hp.noneFull_iff (P := P) hnone).mpr fun i hi hen => by
          have hpi : ¬p.streamIndex = i := by
            rintro rfl
            rw [henabled] at hen
            cases hen
          simpa [ofStream, acceptEach, hpi] using hnone i hi
        exact (hstop hnone₁ fun q hq => hown q (List.mem_cons_of_mem _ hq)).cons
          (NoneFull.after_nil hnone) hp rfl hnone₁ (by omega)
      · rw [if_pos rfl]
        have hp := Parses.accepted { d with ahead := p :: rest } rfl henabled
        split
        · rename_i hfull
          refine ⟨[p], hp, fun hnone hown => .full rfl ⟨fun hafter => ?_, fun front hfront hne => ?_⟩⟩
          · have hlast := hafter p.streamIndex (hown p (by simp)) henabled
            simp [ofStream, acceptEach, hfull] at hlast
          · rcases List.prefix_cons_iff.mp hfront with rfl | ⟨rest', rfl, hrest⟩
            · exact NoneFull.after_nil hnone
            · rw [List.prefix_nil.mp hrest] at hne
              exact absurd rfl hne
        · rename_i hfull
          obtain ⟨taken, hmore, hstop⟩ :=
            ih n (d.setQueue p.streamIndex (accept d.seekTime p (d.queues p.streamIndex)))
          refine ⟨p :: taken, hp.trans hmore, fun hnone hown => ?_⟩
          have hnone₁ := (hp.noneFull_iff (P := P) hnone).mpr fun i hi _ => by
            by_cases hpi : p.streamIndex = i
            · subst hpi
              simpa [ofStream, acceptEach] using hfull
            · simpa [ofStream, acceptEach, hpi] using hnone i hi
          exact (hstop hnone₁ fun q hq => hown q (List.mem_cons_of_mem _ hq)).cons
            (NoneFull.after_nil hnone) hp rfl hnone₁ (Nat.le_refl _)

/-! ## Filling the queues -/

/-- How a filling of the queues ends. -/
inductive FillStop (P : ParserOps π) (keyPacketsMustExist : Bool) (d : DemuxerQueue π)
    (taken : List DataPacket) (d' : DemuxerQueue π) : Prop
  | eof : d'.eofIsReached = true → d'.ahead = [] → Stays P d taken →
      FillStop P keyPacketsMustExist d taken d'
  | full : d'.eofIsReached = false → FillsUp P d taken → FillStop P keyPacketsMustExist d taken d'
  | enough : d'.eofIsReached = false → Stays P d taken → needFill P keyPacketsMustExist d' = false →
      FillStop P keyPacketsMustExist d taken d'

/-- Why the filling stopped, seen from the begin of both parts. -/
theorem FillStop.append {km : Bool} (hs : Stays P d taken) (ht : Parses d taken d₁)
    (h : FillStop P km d₁ more d') : FillStop P km d (taken ++ more) d' := by
  cases h with
  | eof he ha hmore => exact .eof he ha (hs.append ht hmore)
  | full he hf => exact .full he (hf.append hs ht)
  | enough he hmore hn => exact .enough he (hs.append ht hmore) hn

theorem OwnPackets.parses (h : OwnPackets P d) (ht : Parses d taken d') : OwnPackets P d' := by
  intro p hp
  apply h
  rw [ht.ahead]
  exact List.mem_append_right _ hp

/-- The loop of `fill_queue` parses packets until one of its reasons to stop holds. -/
theorem parses_fillLoop (km : Bool) (fuel : Nat) (d : DemuxerQueue π) :
    ∃ taken, Parses d taken (fillLoop P km fuel d).2 ∧
      (NoneFull P d → OwnPackets P d → d.eofIsReached = false → d.ahead.length < fuel →
        FillStop P km d taken (fillLoop P km fuel d).2) := by
  induction fuel generalizing d with
  | zero => exact ⟨[], .refl d, fun _ _ _ hfuel => absurd hfuel (Nat.not_lt_zero _)⟩
  | succ fuel ih =>
    unfold fillLoop readPacketsFromParser
    rcases heof : d.eofIsReached with _ | _
    · obtain ⟨taken, htaken, hstop⟩ := parses_readBatch (P := P) 16 d.ahead d
      simp only [Bool.false_eq_true, if_false]
      rcases hres : readBatch 16 d.ahead d with ⟨res, d₁⟩
      rw [hres] at htaken hstop
      dsimp only at htaken hstop ⊢
      split
      · -- the file has ended
        rename_i hend
        refine ⟨taken, htaken, fun hnone hown _ _ => ?_⟩
        cases hstop hnone hown with
        | reached hlen he hs => simp at hend
        | eof he ha hs => exact .eof he ha hs
        | full he hf =>
          rw [he] at hend
          simp [heof] at hend
      · split
        · -- another batch
          rename_i hgoes
          obtain ⟨more, hmore, hrest⟩ := ih d₁
          refine ⟨taken ++ more, htaken.trans hmore, fun hnone hown _ hfuel => ?_⟩
          cases hstop hnone hown with
          | eof he ha hs => simp at hgoes
          | full he hf => simp at hgoes
          | reached hlen he hs =>
            have hahead := congrArg List.length htaken.ahead
            rw [List.length_append] at hahead
            dsimp only at hahead
            refine (hrest ?_ (hown.parses htaken) (he.trans heof) (by omega)).append hs htaken
            exact (htaken.noneFull_iff hnone).mpr (hs taken (List.prefix_refl taken))
        · rename_i hnot hstays
          refine ⟨taken, htaken, fun hnone hown _ _ => ?_⟩
          cases hstop hnone hown with
          | eof he ha hs => simp [he] at hnot
          | full he hf => exact .full (he.trans heof) hf
          | reached hlen he hs =>
            have hnone₁ := (htaken.noneFull_iff hnone).mpr (hs taken (List.prefix_refl taken))
            refine .enough (he.trans heof) hs ?_
            simpa [(anyFull_eq_false_iff d₁).mpr hnone₁] using hstays
    · refine ⟨[], ?_, fun _ _ he => absurd he (by simp)⟩
      simp only [if_true, heof, Bool.not_false, Bool.and_self]
      exact .refl d

/-- `fill_queue` parses some of the packets ahead. -/
theorem parses_fillQueue (km : Bool) (d : DemuxerQueue π) :
    ∃ taken, Parses d taken (fillQueue P km d).2 := by
  unfold fillQueue
  split
  · exact ⟨[], .refl d⟩
  · split
    · exact ⟨[], .refl d⟩
    · split
      · obtain ⟨taken, htaken, -⟩ := parses_fillLoop (P := P) km (d.ahead.length + 1) d
        exact ⟨taken, htaken⟩
      · exact ⟨[], .refl d⟩

/-! ## Reading -/

/-- `read` before its look at the queue. -/
def filledForRead (P : ParserOps π) (s : StreamId) (d : DemuxerQueue π) : DemuxerQueue π :=
  if (d.queues s).size = 0 then (d.fillQueue P false).2 else d

/-- A read returns a null packet when the filling left the stream's queue empty. -/
theorem read_of_empty {s : StreamId} (hs : s < P.streamCount) {d : DemuxerQueue π}
    (hq : ((filledForRead P s d).queues s).list = []) :
    read P s d = (.ok none, filledForRead P s d) := by
  have hpop : ((filledForRead P s d).queues s).pop = (none, (filledForRead P s d).queues s) := by
    unfold PacketQueue.pop
    rw [hq]
  unfold filledForRead at hpop ⊢
  unfold read
  rw [if_neg (Nat.not_le.mpr hs)]
  dsimp only
  rw [hpop]

/-- A read returns the first packet of the stream's queue. -/
theorem read_of_cons {s : StreamId} (hs : s < P.streamCount) {d : DemuxerQueue π} {p : DataPacket}
    {rest : List DataPacket} (hq : ((filledForRead P s d).queues s).list = p :: rest) :
    read P s d = (.ok (some p),
      { (filledForRead P s d).setQueue s ((filledForRead P s d).queues s).pop.2 with
        processedCount := (filledForRead P s d).processedCount + 1 }) := by
  have hpop : ((filledForRead P s d).queues s).pop =
      (some p, ((filledForRead P s d).queues s).pop.2) := by
    unfold PacketQueue.pop
    rw [hq]
  unfold filledForRead at hpop ⊢
  unfold read
  rw [if_neg (Nat.not_le.mpr hs)]
  dsimp only
  rw [hpop]

/-- The filling before a read parses some of the packets ahead. -/
theorem parses_filledForRead (s : StreamId) (d : DemuxerQueue π) :
    ∃ taken, Parses d taken (filledForRead P s d) := by
  unfold filledForRead
  split
  · exact parses_fillQueue false d
  · exact ⟨[], .refl d⟩

end DemuxerQueue

end Seekira.Model
