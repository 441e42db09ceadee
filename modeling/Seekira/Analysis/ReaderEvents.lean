import Mathlib.Data.List.Nodup
import Seekira.Analysis.ReaderSteps
import Seekira.Model.MediaFile

/-!
# The order in which events are handled

The worker handles the event at the back of its queue and removes the one at the
front.  Both are the same event only while a single event is queued; the handled
events are those posted, in order, exactly in the runs in which the worker never
finds more than one.
-/

set_option autoImplicit false

namespace Seekira.Model.ReaderWorker

open Library

variable {δ κ : Type} {D : IDemuxer δ} {C : CodecOps κ} {reader : ReaderFF δ κ}

/-! ## What a step does to the events -/

/-- The events that a step leaves behind. -/
inductive EventEffect (w : ReaderWorker δ κ) : ReaderLabel → ReaderWorker δ κ → Prop
  | posts (l : ReaderLabel) (event : ReaderEvent) (w' : ReaderWorker δ κ) :
      (l = .work → w.pc ≠ .events) → w'.posted = w.posted ++ [⟨w.posted.length, event⟩] →
      w'.eventQueue = w.eventQueue ++ [⟨w.posted.length, event⟩] →
      w'.handled = w.handled → EventEffect w l w'
  | handles (item : PostedEvent) (w' : ReaderWorker δ κ) :
      w.pc = .events → w.eventQueue.getLast? = some item → w'.posted = w.posted →
      w'.eventQueue = w.eventQueue.tail → w'.handled = w.handled ++ [item] →
      EventEffect w .work w'
  | keeps (l : ReaderLabel) (w' : ReaderWorker δ κ) :
      (l = .work → w.pc = .events → w.eventQueue = []) → w'.posted = w.posted →
      w'.eventQueue = w.eventQueue → w'.handled = w.handled → EventEffect w l w'

/-- Leaving the loop takes no event. -/
theorem eventEffect_of_leaveLoop {w : ReaderWorker δ κ} (hpc : w.pc = .leaving) :
    EventEffect w .work w.leaveLoop := by
  have hne : .work = ReaderLabel.work → w.pc = .events → w.eventQueue = [] := by
    intro _ h
    simp [hpc] at h
  unfold leaveLoop
  simp only
  split
  · exact .keeps _ _ hne rfl rfl rfl
  · split
    · exact .posts _ .pause _ (by simp [hpc]) rfl rfl rfl
    · exact .keeps _ _ hne rfl rfl rfl

/-- A step of the worker takes an event from the queue or none. -/
theorem eventEffect_of_works {w w' : ReaderWorker δ κ} (h : Works D C w w') :
    EventEffect w .work w' := by
  cases h with
  | idles _ hempty => exact .keeps _ _ (fun _ _ => hempty) rfl rfl rfl
  | handles item hpc hlast =>
    obtain ⟨hposted, hqueue, hhandled⟩ := events_of_afterCall
      (ReaderFF.handleEvent D C item.event w.reader)
      { w with eventQueue := w.eventQueue.tail, handled := w.handled ++ [item] }
    exact .handles item _ hpc hlast hposted hqueue hhandled
  | reads hpc =>
    obtain ⟨hposted, hqueue, hhandled⟩ := events_of_afterCall
      (ReaderFF.readFrame D C (ReaderFF.setReaderState .reading w.reader).2) w
    exact .keeps _ _ (fun _ h => by simp [hpc] at h) hposted hqueue hhandled
  | leaves hpc => exact eventEffect_of_leaveLoop hpc
  | tests _ hpc => exact .keeps _ _ (fun _ h => by simp [h] at hpc) rfl rfl rfl
  | waits _ hpc => exact .keeps _ _ (fun _ h => by simp [h] at hpc) rfl rfl rfl
  | starts hpc => exact .keeps _ _ (fun _ h => by simp [hpc] at h) rfl rfl rfl
  | crashes hpc => exact .keeps _ _ (fun _ h => by simp [hpc] at h) rfl rfl rfl
  | goesOn _ hpc => exact .keeps _ _ (fun _ h => by simp [hpc] at h) rfl rfl rfl
  | pauses _ hpc => exact .keeps _ _ (fun _ h => by simp [hpc] at h) rfl rfl rfl

/-- Every step posts one event, handles the last queued event and removes the first one, or
leaves the events alone. -/
theorem eventEffect_of_step {w w' : ReaderWorker δ κ} {l : ReaderLabel}
    (h : step D C w l = some w') : EventEffect w l w' := by
  cases steps_of_step h with
  | posts event => exact .posts _ event _ (by simp) rfl rfl rfl
  | notifies =>
    exact .keeps _ _ (by simp) (wake_posted w) (wake_eventQueue w) (wake_handled w)
  | works _ hworks => exact eventEffect_of_works hworks
  | wakes => exact .keeps _ _ (by simp) (wake_posted w) (wake_eventQueue w) (wake_handled w)
  | stops => exact .keeps _ _ (by simp) rfl rfl rfl

/-! ## Tickets -/

/-- Posted events are numbered in order, and queued and handled events were posted. -/
structure Ticketed (w : ReaderWorker δ κ) : Prop where
  numbered : w.posted.map PostedEvent.ticket = List.range w.posted.length
  queued : ∀ item ∈ w.eventQueue, item ∈ w.posted
  handled : ∀ item ∈ w.handled, item ∈ w.posted

/-- Every step keeps the tickets in order. -/
theorem Ticketed.step {w w' : ReaderWorker δ κ} {l : ReaderLabel} (h : w.Ticketed)
    (hs : step D C w l = some w') : w'.Ticketed := by
  cases eventEffect_of_step hs with
  | posts _ event _ hne hposted hqueue hhandled =>
    refine ⟨?_, fun item hitem => ?_, fun item hitem => ?_⟩
    · rw [hposted]
      simp [h.numbered, List.range_succ]
    · rw [hqueue, List.mem_append] at hitem
      rw [hposted, List.mem_append]
      exact hitem.imp_left (h.queued item)
    · rw [hhandled] at hitem
      rw [hposted]
      exact List.mem_append_left _ (h.handled item hitem)
  | handles first _ hpc hlast hposted hqueue hhandled =>
    refine ⟨by rw [hposted]; exact h.numbered, fun item hitem => ?_, fun item hitem => ?_⟩
    · rw [hqueue] at hitem
      rw [hposted]
      exact h.queued item (List.mem_of_mem_tail hitem)
    · rw [hhandled, List.mem_append] at hitem
      rw [hposted]
      rcases hitem with hitem | hitem
      · exact h.handled item hitem
      · rw [List.mem_singleton.mp hitem]
        exact h.queued first (List.mem_of_getLast? hlast)
  | keeps _ _ _ hposted hqueue hhandled =>
    exact ⟨by rw [hposted]; exact h.numbered, by rw [hposted, hqueue]; exact h.queued,
      by rw [hposted, hhandled]; exact h.handled⟩

theorem ticketed_of_reachable {w : ReaderWorker δ κ} (h : (machine D C reader).Reachable w) :
    w.Ticketed := by
  refine h.invariant (I := Ticketed) ⟨rfl, ?_, ?_⟩ fun _ _ _ hi hs => hi.step hs
  · simp [machine, started]
  · simp [machine, started]

theorem Ticketed.nodup {w : ReaderWorker δ κ} (h : w.Ticketed) : w.posted.Nodup := by
  have hmap : (w.posted.map PostedEvent.ticket).Nodup := by
    rw [h.numbered]
    exact List.nodup_range
  exact List.Nodup.of_map _ hmap

/-! ## Handling in posting order -/

/-- When the step is the worker's look at its queue, it finds at most one event. -/
def TakesAlone (w : ReaderWorker δ κ) (l : ReaderLabel) : Prop :=
  l = .work → w.pc = .events → w.eventQueue.length ≤ 1

/-- The queue holds what was posted and not handled yet. -/
def Fifo (w : ReaderWorker δ κ) : Prop := w.posted = w.handled ++ w.eventQueue

/-- Taking the only event keeps the order. -/
theorem Fifo.step {w w' : ReaderWorker δ κ} {l : ReaderLabel} (h : w.Fifo)
    (hl : TakesAlone w l) (hs : step D C w l = some w') : w'.Fifo := by
  unfold Fifo at h ⊢
  cases eventEffect_of_step hs with
  | posts _ event _ hne hposted hqueue hhandled =>
    rw [hposted, hqueue, hhandled, ← List.append_assoc, ← h]
  | handles item _ hpc hlast hposted hqueue hhandled =>
    have hone : w.eventQueue = [item] := by
      have hlen := hl rfl hpc
      rcases hq : w.eventQueue with _ | ⟨a, _ | ⟨b, rest⟩⟩
      · simp [hq] at hlast
      · simpa [hq] using hlast
      · simp [hq] at hlen
    rw [hposted, hqueue, hhandled, hone, h, hone]
    simp
  | keeps _ _ _ hposted hqueue hhandled => rw [hposted, hqueue, hhandled, h]

/-- A take from a longer queue handles an event before an older one. -/
theorem not_prefix_of_take {w w' : ReaderWorker δ κ} {l : ReaderLabel} (h : w.Fifo)
    (hticket : w.Ticketed) (hl : ¬TakesAlone w l) (hs : step D C w l = some w') :
    ¬w'.handled <+: w'.posted := by
  simp only [TakesAlone, Classical.not_imp, Nat.not_le] at hl
  obtain ⟨rfl, hpc, hlen⟩ := hl
  have hnodup := hticket.nodup
  rw [Fifo] at h
  cases eventEffect_of_step hs with
  | posts _ event _ hne hposted hqueue hhandled => exact absurd hpc (hne rfl)
  | handles item _ hpc hlast hposted hqueue hhandled =>
    rcases hq : w.eventQueue with _ | ⟨a, _ | ⟨b, rest⟩⟩
    · simp [hq] at hlen
    · simp [hq] at hlen
    · rw [hq] at h hlast
      have hmem : item ∈ b :: rest := List.mem_of_getLast? (by simpa using hlast)
      have hqueue : (a :: b :: rest).Nodup := by
        rw [h] at hnodup
        exact (List.nodup_append.mp hnodup).2.1
      intro hbefore
      rw [hhandled, hposted, h, List.prefix_append_right_inj] at hbefore
      obtain rfl : item = a := by simpa using hbefore
      exact (List.nodup_cons.mp hqueue).1 hmem
  | keeps _ _ hempty _ _ _ => simp [hempty rfl hpc] at hlen

/-- Nothing restores the order once it is lost. -/
theorem not_prefix_of_not_prefix {w w' : ReaderWorker δ κ} {l : ReaderLabel}
    (hticket : w.Ticketed) (h : ¬w.handled <+: w.posted) (hs : step D C w l = some w') :
    ¬w'.handled <+: w'.posted := by
  intro hbefore
  cases eventEffect_of_step hs with
  | posts _ event _ hne hposted hqueue hhandled =>
    rw [hhandled, hposted, List.prefix_concat_iff] at hbefore
    rcases hbefore with heq | hbefore
    · have hmem : (⟨w.posted.length, event⟩ : PostedEvent) ∈ w.posted :=
        hticket.handled _ (by simp [heq])
      have hrange := List.mem_map_of_mem (f := PostedEvent.ticket) hmem
      rw [hticket.numbered, List.mem_range] at hrange
      exact Nat.lt_irrefl _ hrange
    · exact h hbefore
  | handles item _ hpc hlast hposted hqueue hhandled =>
    rw [hhandled, hposted] at hbefore
    exact h ((List.prefix_append _ _).trans hbefore)
  | keeps _ _ _ hposted hqueue hhandled =>
    rw [hhandled, hposted] at hbefore
    exact h hbefore

/-- In every run, the handled events are a prefix of the posted ones exactly when the worker never
looks at a queue of two or more events; then no event leaves the queue without being handled. -/
theorem handled_prefix_iff {tr : List (ReaderWorker δ κ × ReaderLabel)} {w : ReaderWorker δ κ}
    (h : (machine D C reader).Run tr w) :
    (w.handled <+: w.posted ↔ ∀ p ∈ tr, TakesAlone p.1 p.2) ∧
    ((∀ p ∈ tr, TakesAlone p.1 p.2) → w.posted = w.handled ++ w.eventQueue ∧ w.handled.Nodup) := by
  have hticket := ticketed_of_reachable ⟨tr, h⟩
  have hfifo : (∀ p ∈ tr, TakesAlone p.1 p.2) → w.Fifo :=
    h.invariant_of_guard (I := Fifo) (by simp [Fifo, machine, started])
      fun _ _ _ hi hc hs => hi.step hc hs
  refine ⟨?_, fun hall => ⟨hfifo hall, ?_⟩⟩
  · refine h.iff_guard (P := fun w => w.handled <+: w.posted) (G := fun _ _ => True)
      (C := TakesAlone) (I := fun w => w.Fifo ∧ w.Ticketed) ?_ ?_ ?_ ?_ ?_ fun _ _ => trivial
    · exact ⟨rfl, ticketed_of_reachable ⟨[], .init⟩⟩
    · simp [machine, started]
    · rintro w l w' ⟨hf, ht⟩ - - hC hs
      have hf' := hf.step hC hs
      exact ⟨⟨hf', ht.step hs⟩, ⟨w'.eventQueue, hf'.symm⟩⟩
    · rintro w l w' ⟨hf, ht⟩ - - hC hs
      exact not_prefix_of_take hf ht hC hs
    · intro w l w' hreach hn _ hs
      exact not_prefix_of_not_prefix (ticketed_of_reachable hreach) hn hs
  · have hnodup := hticket.nodup
    rw [hfifo hall] at hnodup
    exact (List.nodup_append.mp hnodup).1

/-! ### Two events queued -/

/-- A reader that has opened the short file. -/
def shortReader : ReaderFF (DemuxerQueue Unit) (List DataPacket) :=
  ReaderFF.opened shortStreams (some 0) .all [1] [1]

/-- The worker of a reader that plays the short file without codec delay. -/
def shortMachine : Machine (ReaderWorker (DemuxerQueue Unit) (List DataPacket)) ReaderLabel :=
  machine (DemuxerQueue.toIDemuxer (fileParser shortFile 120)) (fifoCodec 0 (25, 1)) shortReader

/-- One event is posted and handled. -/
def oneEvent : List ReaderLabel := [.post .play, .notify, .work, .work, .work]

/-- Two events are posted before the worker looks. -/
def twoEvents : List ReaderLabel :=
  [.post .play, .notify, .post .pause, .notify, .work, .work, .work]

/-- One event is posted and handled. -/
theorem handled_prefix_iff_short :
    ∃ w, shortMachine.Run (shortMachine.trace shortMachine.init oneEvent) w ∧
      (w.handled <+: w.posted ↔
        ∀ p ∈ shortMachine.trace shortMachine.init oneEvent, TakesAlone p.1 p.2) ∧
      w.handled = [⟨0, .play⟩] := by
  obtain ⟨w, -, hrun, hw⟩ := Machine.exists_run_of_exec shortMachine oneEvent
    (fun w => w.handled = [⟨0, .play⟩]) (by decide +kernel)
  exact ⟨w, hrun, (handled_prefix_iff hrun).1, by simpa using hw⟩

/-- Of two events that are queued the later one is handled first. -/
theorem handled_out_of_order :
    ¬∀ (tr : List (ReaderWorker (DemuxerQueue Unit) (List DataPacket) × ReaderLabel)) w,
      shortMachine.Run tr w → w.handled <+: w.posted := by
  intro hall
  obtain ⟨w, -, hrun, hw⟩ := Machine.exists_run_of_exec shortMachine twoEvents
    (fun w => w.handled = [⟨1, .pause⟩] ∧ w.posted = [⟨0, .play⟩, ⟨1, .pause⟩])
    (by decide +kernel)
  obtain ⟨hhandled, hposted⟩ : w.handled = [⟨1, .pause⟩] ∧
    w.posted = [⟨0, .play⟩, ⟨1, .pause⟩] := by simpa using hw
  have hbefore := hall _ w hrun
  rw [hhandled, hposted] at hbefore
  revert hbefore
  decide

end Seekira.Model.ReaderWorker
