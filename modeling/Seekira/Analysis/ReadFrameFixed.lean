import Mathlib.Data.Prod.Lex
import Mathlib.Order.WithBot
import Seekira.Model.ReadFrameFixed

/-!
# `read_frame_fixed` comes to an end

A seek moves on by a kilobyte at least and stays before the last hundred kilobytes of the
file, and between two seeks the format may ask for twenty repetitions.  The size of the
file is not known before the first seek, so the variant is unbounded until then.
-/

set_option autoImplicit false

namespace Seekira.Model.ReadFrameFixed

open Library

/-- The position seen at the start of a round is not less than the position of the last successful
seek. -/
def NeverBehind (answers : Nat → Answer) : Prop :=
  ∀ n w, Goes (round answers) enter n w → ∀ pos, (answers w.rounds).pos = some pos →
    pos ≠ avNoPtsValue → ∀ p, lastSought w.events = some p → p ≤ pos

/-- At no time more than twenty retries in a row, and one seek for each kilobyte of the file and
one more at most. -/
structure WithinLimits (w : Locals) : Prop where
  retries : ∀ before, before <:+ w.events → retriesInARow before ≤ 20
  seeks : (seeks w.events).length ≤ w.totalSize.toNat / 1024 + 1

variable {answers : Nat → Answer} {w w' : Locals}

/-- The same of one round. -/
def StartsAhead (answers : Nat → Answer) (w : Locals) : Prop :=
  ∀ pos, (answers w.rounds).pos = some pos → pos ≠ avNoPtsValue →
    ∀ p, lastSought w.events = some p → p ≤ pos

/-- What a round does that is not the last one. -/
theorem round_again (h : round answers w = .again w') :
    (w.readCount < 20 ∧ w' = { w with
      rounds := w.rounds + 1
      curPos := seenPos (answers w.rounds) w.curPos
      readCount := w.readCount + 1
      events := .retried :: w.events }) ∨
    (0 < seenPos (answers w.rounds) w.curPos ∧
      102400 < foundSize (answers w.rounds) w.totalSize - seenPos (answers w.rounds) w.curPos ∧
      w' = { w with
        rounds := w.rounds + 1
        curPos := seenPos (answers w.rounds) w.curPos + 1024
        totalSize := foundSize (answers w.rounds) w.totalSize
        readCount := 0
        events := .sought (seenPos (answers w.rounds) w.curPos + 1024) :: w.events }) := by
  unfold round at h
  dsimp only at h
  split at h
  · split at h
    · cases h
    · split at h
      · rename_i hretry
        cases h
        exact .inl ⟨hretry.2, rfl⟩
      · split at h
        · rename_i hpos
          split at h
          · rename_i hsize
            split at h
            · cases h
            · cases h
              exact .inr ⟨hpos.2, hsize.2, rfl⟩
          · cases h
        · cases h
  · cases h

/-- What the last round leaves: at most one seek in vain. -/
theorem round_leave {res : Int} (h : round answers w = .leave (res, w')) :
    (w'.events = w.events ∧ (w'.totalSize = w.totalSize ∨
      w'.totalSize = foundSize (answers w.rounds) w.totalSize)) ∨
    (0 < seenPos (answers w.rounds) w.curPos ∧
      102400 < w'.totalSize - seenPos (answers w.rounds) w.curPos ∧
      w'.totalSize = foundSize (answers w.rounds) w.totalSize ∧
      w'.events =
        .soughtInVain (seenPos (answers w.rounds) w.curPos + 1024) :: w.events) := by
  unfold round at h
  dsimp only at h
  split at h
  · split at h
    · cases h
      exact .inl ⟨rfl, .inl rfl⟩
    · split at h
      · cases h
      · split at h
        · rename_i hpos
          split at h
          · rename_i hsize
            split at h
            · cases h
              exact .inr ⟨hpos.2, hsize.2, rfl, rfl⟩
            · cases h
          · cases h
            exact .inl ⟨rfl, .inr rfl⟩
        · cases h
          exact .inl ⟨rfl, .inl rfl⟩
  · cases h
    exact .inl ⟨rfl, .inl rfl⟩

/-! ## The invariant -/

/-- The record and the local variables agree. -/
structure Agrees (w : Locals) : Prop where
  readCount : retriesInARow w.events = w.readCount
  atMost : ∀ before, before <:+ w.events → retriesInARow before ≤ 20
  /-- without a successful seek there was none -/
  noSeek : lastSought w.events = none → seeks w.events = []
  /-- every seek has gone on by a kilobyte -/
  sought : ∀ p, lastSought w.events = some p → 1024 * ((seeks w.events).length : Int) < p ∧
    p + 101376 < w.totalSize ∧ p ≤ w.curPos

theorem agrees_enter : Agrees enter :=
  ⟨rfl, fun before hbefore => by simp [List.suffix_nil.mp hbefore, retriesInARow], fun _ => rfl,
    nofun⟩

/-- The size is looked for once. -/
theorem foundSize_of_known {answer : Answer} {totalSize : TimestampFF} (h : 0 < totalSize) :
    foundSize answer totalSize = totalSize := by
  unfold foundSize
  rw [if_neg]
  intro hnone
  rw [hnone] at h
  exact absurd h (by decide)

theorem Agrees.known (h : Agrees w) {p : Int} (hp : lastSought w.events = some p) :
    (0 : Int) < w.totalSize := by
  obtain ⟨hlow, hsize, -⟩ := h.sought p hp
  lia

/-- The position seen is not behind the last seek. -/
theorem Agrees.le_seenPos (h : Agrees w) (hahead : StartsAhead answers w) {p : Int}
    (hp : lastSought w.events = some p) :
    p ≤ seenPos (answers w.rounds) w.curPos := by
  unfold seenPos
  rcases hpos : (answers w.rounds).pos with _ | pos
  · exact (h.sought p hp).2.2
  · dsimp only
    split
    · rename_i hknown
      exact hahead pos hpos hknown p hp
    · exact (h.sought p hp).2.2

/-- Every seek so far lies a kilobyte further on, up to the position seen. -/
theorem Agrees.seeks_lt (h : Agrees w) (hahead : StartsAhead answers w)
    (hpos : 0 < seenPos (answers w.rounds) w.curPos) :
    1024 * ((seeks w.events).length : Int) < seenPos (answers w.rounds) w.curPos := by
  rcases hlast : lastSought w.events with _ | p
  · rw [h.noSeek hlast]
    exact hpos
  · have hseen := h.le_seenPos hahead hlast
    obtain ⟨hlow, -, -⟩ := h.sought p hlast
    lia

/-! ## The variant -/

/-- What is left of the file behind the last seek, unbounded before the first one. -/
def remaining (w : Locals) : WithTop Nat :=
  (lastSought w.events).elim ⊤ fun p => WithTop.some (w.totalSize - p).toNat

/-- A seek leaves less of the file, and a retry leaves fewer retries. -/
def variant (w : Locals) : WithTop Nat ×ₗ Nat := toLex (remaining w, 20 - w.readCount)

/-- A round that is not the last keeps the agreement and comes nearer to the limits. -/
theorem agrees_again (h : Agrees w) (hahead : StartsAhead answers w)
    (hround : round answers w = .again w') : Agrees w' ∧ variant w' < variant w := by
  rcases round_again hround with ⟨hroom, rfl⟩ | ⟨hpos, hsize, rfl⟩
  · -- a retry
    have hcount : retriesInARow (.retried :: w.events) = w.readCount + 1 :=
      congrArg (· + 1) h.readCount
    refine ⟨⟨hcount, fun before hbefore => ?_, h.noSeek, fun p hp => ?_⟩, ?_⟩
    · rcases List.suffix_cons_iff.mp hbefore with rfl | hbefore
      · rw [hcount]
        exact hroom
      · exact h.atMost before hbefore
    · obtain ⟨hlow, hsize, -⟩ := h.sought p hp
      exact ⟨hlow, hsize, h.le_seenPos hahead hp⟩
    · apply Prod.Lex.toLex_lt_toLex.mpr
      refine .inr ⟨rfl, ?_⟩
      dsimp only
      omega
  · -- a seek
    have hlow := h.seeks_lt hahead hpos
    refine ⟨⟨rfl, fun before hbefore => ?_, nofun, fun p hp => ?_⟩, ?_⟩
    · rcases List.suffix_cons_iff.mp hbefore with rfl | hbefore
      · exact Nat.zero_le 20
      · exact h.atMost before hbefore
    · cases hp
      have hlength : (seeks (.sought (seenPos (answers w.rounds) w.curPos + 1024) ::
          w.events)).length = (seeks w.events).length + 1 := rfl
      dsimp only
      rw [hlength]
      push_cast
      refine ⟨by lia, by lia, le_refl _⟩
    · apply Prod.Lex.toLex_lt_toLex.mpr
      refine .inl ?_
      rcases hlast : lastSought w.events with _ | p
      · simp [remaining, hlast, lastSought]
      · have hseen := h.le_seenPos hahead hlast
        have hfound : foundSize (answers w.rounds) w.totalSize = w.totalSize :=
          foundSize_of_known (h.known hlast)
        simp only [remaining, hlast, lastSought, Option.elim]
        rw [hfound] at hsize ⊢
        apply WithTop.coe_lt_coe.mpr
        lia

/-- The last round is within the limits. -/
theorem withinLimits_leave (h : Agrees w) (hahead : StartsAhead answers w)
    {res : Int} (hround : round answers w = .leave (res, w')) : WithinLimits w' := by
  rcases round_leave hround with ⟨hevents, hsize⟩ | ⟨hpos, hroom, hsize, hevents⟩
  · refine ⟨hevents ▸ h.atMost, ?_⟩
    rw [hevents]
    rcases hlast : lastSought w.events with _ | p
    · rw [h.noSeek hlast]
      exact Nat.zero_le _
    · obtain ⟨hlow, hhigh, -⟩ := h.sought p hlast
      have hsame : w'.totalSize = w.totalSize := by
        rcases hsize with hsame | hfound
        · exact hsame
        · exact hfound.trans (foundSize_of_known (h.known hlast))
      rw [hsame]
      lia
  · -- the last seek is in vain
    have hlow := h.seeks_lt hahead hpos
    refine ⟨fun before hbefore => ?_, ?_⟩
    · rw [hevents] at hbefore
      rcases List.suffix_cons_iff.mp hbefore with rfl | hbefore
      · exact Nat.zero_le 20
      · exact h.atMost before hbefore
    · have hlength : (seeks w'.events).length = (seeks w.events).length + 1 := by
        rw [hevents]
        rfl
      rw [hlength]
      lia

/-! ## The loop -/

/-- Where FFmpeg never stands behind the last seek, the loop leaves, after at most twenty retries
in a row and at most one seek for each kilobyte of the file and one more. -/
theorem read_frame_fixed_leaves (h : NeverBehind answers) :
    ∃ n res w, Leaves (round answers) n enter (res, w) ∧ WithinLimits w := by
  have hahead : ∀ {n : Nat} {w : Locals}, Goes (round answers) enter n w →
      StartsAhead answers w := fun hw => h _ _ hw
  have hdown : ∀ w w', ((∃ n, Goes (round answers) enter n w) ∧ Agrees w) →
      round answers w = .again w' →
      ((∃ n, Goes (round answers) enter n w') ∧ Agrees w') ∧ variant w' < variant w := by
    rintro w w' ⟨⟨n, hw⟩, hagrees⟩ hround
    obtain ⟨hagrees', hlt⟩ := agrees_again hagrees (hahead hw) hround
    exact ⟨⟨⟨n + 1, hw.again hround⟩, hagrees'⟩, hlt⟩
  obtain ⟨n, ⟨res, w⟩, hleaves⟩ := exists_leaves hdown ⟨⟨0, .enter⟩, agrees_enter⟩
  refine ⟨n, res, w, hleaves, ?_⟩
  refine hleaves.post (Q := fun r => WithinLimits r.2)
    (fun w w' hw hround => (hdown w w' hw hround).1) ?_ ⟨⟨0, .enter⟩, agrees_enter⟩
  rintro w ⟨res, w'⟩ ⟨⟨n, hw⟩, hagrees⟩ hround
  exact withinLimits_leave hagrees (hahead hw) hround

/-- A damaged part at the start of a file, over which one seek leads, then a repetition that the
format asks for, and the end. -/
def damagedFile (i : Nat) : Answer :=
  if i = 0 then ⟨some 1, -5, 200000, 1, 0⟩
  else if i = 1 then ⟨some 4096, averrorEagain, 200000, 4096, 0⟩
  else ⟨none, averrorEof, 200000, 200000, 0⟩

/-- The rounds are counted. -/
theorem rounds_of_goes {n : Nat} (h : Goes (round answers) enter n w) : w.rounds = n := by
  induction h with
  | enter => rfl
  | again _ hround ih =>
    rcases round_again hround with ⟨-, rfl⟩ | ⟨-, -, rfl⟩
    · exact congrArg (· + 1) ih
    · exact congrArg (· + 1) ih

/-- One seek and one retry. -/
theorem read_frame_fixed_leaves_damaged :
    ∃ n res w, Leaves (round damagedFile) n enter (res, w) ∧ WithinLimits w := by
  apply read_frame_fixed_leaves
  intro n w hw pos hpos _ p hp
  rw [rounds_of_goes hw] at hpos
  cases hw with
  | enter => cases hp
  | again hw hround =>
    cases hw with
    | enter =>
      cases hround
      cases hpos
      cases hp
      decide
    | again _ _ => cases hpos

end Seekira.Model.ReadFrameFixed
