import Mathlib.Algebra.BigOperators.Fin
import Mathlib.Data.Fintype.BigOperators
import Mathlib.Tactic.Abel
import Seekira.Model.ObserverDelivery
import Seekira.Model.Reader

/-!
# The order in which observers are called

A pool with one thread calls the observers in the order in which their calls were
posted: what was called, what the thread holds and what is still to come make up
everything that is ever sent.  With two threads one of them can take a call and be
overtaken by the other before it makes it, so that an observer which is sent two
different events can see them in the wrong order.
-/

set_option autoImplicit false

namespace Seekira.Model

open Library

namespace ObserverDelivery

variable {n : Nat} {γ : Type} {s s' : ObserverDelivery n γ}

/-- The call that a thread has taken and not made yet. -/
def held : TaskThread (Nat × γ) → List (Nat × γ)
  | .taken task => [task]
  | .idle | .calling _ => []

@[simp] theorem held_idle : held (.idle : TaskThread (Nat × γ)) = [] := rfl

@[simp] theorem held_taken (task : Nat × γ) : held (.taken task) = [task] := rfl

@[simp] theorem held_calling (task : Nat × γ) : held (.calling task) = [] := rfl

/-- The calls that no thread has taken yet, in the order in which they will be. -/
def pending (s : ObserverDelivery n γ) : List (Nat × γ) :=
  s.pool.tasks ++ s.posting ++ sends s.list s.script

/-- The steps of a delivery, by what they do to the calls. -/
inductive Move (s s' : ObserverDelivery n γ) : Prop
  | owner : s'.called = s.called → s'.pool.threads = s.pool.threads → s'.pending = s.pending →
      Move s s'
  | take (i : Fin n) (task : Nat × γ) : s.pool.threads i = .idle → s'.called = s.called →
      s'.pool.threads = Function.update s.pool.threads i (.taken task) →
      s.pending = task :: s'.pending → Move s s'
  | call (i : Fin n) (task : Nat × γ) : s.pool.threads i = .taken task →
      s'.called = s.called ++ [task] →
      s'.pool.threads = Function.update s.pool.threads i (.calling task) →
      s'.pending = s.pending → Move s s'
  | finish (i : Fin n) (task : Nat × γ) : s.pool.threads i = .calling task →
      s'.called = s.called → s'.pool.threads = Function.update s.pool.threads i .idle →
      s'.pending = s.pending → Move s s'

/-- Each step is one of the moves. -/
theorem move_of_step {l : DeliveryLabel n} (h : step s l = some s') : Move s s' := by
  cases l with
  | owner =>
    simp only [step, ownerStep] at h
    split at h
    · rename_i call rest hposting
      cases h
      refine .owner rfl rfl ?_
      simp [pending, ThreadPoolEventHandler.addTask, hposting]
    · rename_i hposting
      split at h
      · cases h
      · rename_i op script hscript
        cases h
        refine .owner rfl rfl ?_
        simp [pending, hposting, hscript, sends]
  | take i =>
    simp only [step] at h
    split at h
    · rename_i task rest hidle htasks
      cases h
      refine .take i task hidle rfl rfl ?_
      simp [pending, htasks]
    · cases h
  | call i =>
    simp only [step] at h
    split at h
    · rename_i task htaken
      cases h
      exact .call i task htaken rfl rfl rfl
    · cases h
  | finish i =>
    simp only [step] at h
    split at h
    · rename_i task hcalling
      cases h
      exact .finish i task hcalling rfl rfl rfl
    · cases h

theorem pending_initial (script : List (ListOp γ)) :
    (initial script : ObserverDelivery n γ).pending = sends EventHandlerList.create script := by
  simp [pending, initial, ThreadPoolEventHandler.create]

/-! ## At most one thread -/

/-- What was called, what thread `i` holds and what is to come make up everything that is sent. -/
structure Fifo (script : List (ListOp γ)) (s : ObserverDelivery n γ) : Prop where
  law : ∀ i, s.called ++ held (s.pool.threads i) ++ s.pending = sends EventHandlerList.create script
  empty : n = 0 → s.called = []

theorem Fifo.initial (script : List (ListOp γ)) :
    Fifo script (initial script : ObserverDelivery n γ) := by
  refine ⟨fun i => ?_, fun _ => rfl⟩
  rw [pending_initial]
  rfl

/-- With one thread the calls are made in the order in which they were sent. -/
theorem Fifo.step {script : List (ListOp γ)} (hn : n ≤ 1) (h : Fifo script s) (hm : Move s s') :
    Fifo script s' := by
  have hsame : ∀ i j : Fin n, i = j := fun i j => (Fin.subsingleton_iff_le_one.mpr hn).elim i j
  cases hm with
  | owner hcalled hthreads hpending =>
    refine ⟨fun i => ?_, fun hzero => hcalled ▸ h.empty hzero⟩
    rw [hcalled, hthreads, hpending]
    exact h.law i
  | take i task hidle hcalled hthreads hpending =>
    refine ⟨fun j => ?_, fun hzero => hcalled ▸ h.empty hzero⟩
    obtain rfl := hsame i j
    have hlaw := h.law i
    rw [hidle, hpending] at hlaw
    rw [hcalled, hthreads, Function.update_self, ← hlaw]
    simp
  | call i task htaken hcalled hthreads hpending =>
    refine ⟨fun j => ?_, fun hzero => absurd i.isLt (by omega)⟩
    obtain rfl := hsame i j
    have hlaw := h.law i
    rw [htaken] at hlaw
    rw [hcalled, hthreads, Function.update_self, hpending, ← hlaw]
    simp
  | finish i task hcalling hcalled hthreads hpending =>
    refine ⟨fun j => ?_, fun hzero => hcalled ▸ h.empty hzero⟩
    obtain rfl := hsame i j
    have hlaw := h.law i
    rw [hcalling] at hlaw
    rw [hcalled, hthreads, Function.update_self, hpending, ← hlaw]
    rfl

/-- So each handler is called in order. -/
theorem Fifo.inOrder {script : List (ListOp γ)} (h : Fifo script s) : InOrder script s := by
  have hbefore : s.called <+: sends EventHandlerList.create script := by
    rcases Nat.eq_zero_or_pos n with hzero | hpos
    · rw [h.empty hzero]
      exact List.nil_prefix
    · rw [← h.law ⟨0, hpos⟩, List.append_assoc]
      exact List.prefix_append ..
  intro o
  exact (hbefore.filter _).map _

/-! ## Observers that are sent one event only -/

/-- No call is made twice or made up: those made, held and to come are those sent. -/
def Conserved (script : List (ListOp γ)) (s : ObserverDelivery n γ) : Prop :=
  (s.called : Multiset (Nat × γ)) + ∑ i, (held (s.pool.threads i) : Multiset (Nat × γ)) +
    s.pending = sends EventHandlerList.create script

theorem Conserved.initial (script : List (ListOp γ)) :
    Conserved script (initial script : ObserverDelivery n γ) := by
  unfold Conserved
  rw [pending_initial]
  simp [ObserverDelivery.initial, ThreadPoolEventHandler.create, held]

/-- One thread moves: what it held is exchanged. -/
theorem sum_held_update (threads : Fin n → TaskThread (Nat × γ)) (i : Fin n)
    (t : TaskThread (Nat × γ)) :
    ∑ j, (held (Function.update threads i t j) : Multiset (Nat × γ)) + held (threads i) =
      ∑ j, (held (threads j) : Multiset (Nat × γ)) + held t := by
  rw [← Finset.add_sum_erase _ _ (Finset.mem_univ i),
    ← Finset.add_sum_erase _ (fun j => (held (threads j) : Multiset (Nat × γ))) (Finset.mem_univ i),
    Function.update_self]
  have hothers : ∑ j ∈ Finset.univ.erase i,
      (held (Function.update threads i t j) : Multiset (Nat × γ)) =
      ∑ j ∈ Finset.univ.erase i, (held (threads j) : Multiset (Nat × γ)) := by
    apply Finset.sum_congr rfl
    intro j hj
    rw [Function.update_of_ne (Finset.ne_of_mem_erase hj)]
  rw [hothers]
  abel

/-- No step loses a call or makes one twice. -/
theorem Conserved.step {script : List (ListOp γ)} (h : Conserved script s) (hm : Move s s') :
    Conserved script s' := by
  unfold Conserved at h ⊢
  rw [← h]
  cases hm with
  | owner hcalled hthreads hpending => rw [hcalled, hthreads, hpending]
  | take i task hidle hcalled hthreads hpending =>
    have hsum := sum_held_update s.pool.threads i (.taken task)
    rw [hidle] at hsum
    simp only [held_idle, held_taken, Multiset.coe_nil, add_zero] at hsum
    have hcons : ((task :: s'.pending : List (Nat × γ)) : Multiset (Nat × γ)) =
        ([task] : List (Nat × γ)) + s'.pending := (Multiset.coe_add [task] s'.pending).symm
    rw [hcalled, hthreads, hpending, hsum, hcons]
    abel
  | call i task htaken hcalled hthreads hpending =>
    have hsum := sum_held_update s.pool.threads i (.calling task)
    rw [htaken] at hsum
    simp only [held_taken, held_calling, Multiset.coe_nil, add_zero] at hsum
    rw [hcalled, hthreads, hpending, ← hsum, ← Multiset.coe_add]
    abel
  | finish i task hcalling hcalled hthreads hpending =>
    have hsum := sum_held_update s.pool.threads i .idle
    rw [hcalling] at hsum
    simp only [held_idle, held_calling, Multiset.coe_nil, add_zero] at hsum
    rw [hcalled, hthreads, hpending, hsum]

/-- Among equal events, fewer calls are the first ones. -/
theorem prefix_of_le {xs ys : List γ} (hle : (xs : Multiset γ) ≤ ys)
    (hsame : ∀ v ∈ ys, ∀ w ∈ ys, v = w) : xs <+: ys := by
  rcases ys with _ | ⟨v, rest⟩
  · obtain rfl : xs = [] := (Multiset.coe_eq_zero xs).mp (Multiset.le_zero.mp hle)
    exact List.nil_prefix
  · have hys : v :: rest = List.replicate (v :: rest).length v :=
      List.eq_replicate_of_mem fun w hw => hsame w hw v (by simp)
    have hxs : xs = List.replicate xs.length v :=
      List.eq_replicate_of_mem fun w hw => hsame w (Multiset.mem_of_le hle hw) v (by simp)
    have hlen : xs.length ≤ (v :: rest).length := by
      simpa using Multiset.card_le_card hle
    rw [hxs, hys]
    exact ⟨List.replicate ((v :: rest).length - xs.length) v, by
      rw [List.replicate_append_replicate, Nat.add_sub_cancel' hlen]⟩

theorem mem_callsTo {o : Nat} {v : γ} {l : List (Nat × γ)} : v ∈ callsTo o l ↔ (o, v) ∈ l := by
  simp [callsTo]

/-- When a handler is sent one value only, its calls are in order. -/
theorem Conserved.inOrder {script : List (ListOp γ)} (h : Conserved script s)
    (hsame : ∀ o v w, (o, v) ∈ sends EventHandlerList.create script →
      (o, w) ∈ sends EventHandlerList.create script → v = w) : InOrder script s := by
  intro o
  have hle : (s.called : Multiset (Nat × γ)) ≤ sends EventHandlerList.create script := by
    rw [← h, add_assoc]
    exact Multiset.le_add_right ..
  refine prefix_of_le ?_ fun v hv w hw => hsame o v w (mem_callsTo.mp hv) (mem_callsTo.mp hw)
  exact Multiset.map_le_map (Multiset.filter_le_filter (fun call => call.1 = o) hle)

/-! ## Two threads -/

variable {script : List (ListOp γ)}

/-- The owner posts what is left of a notification. -/
theorem post_all (h : (machine n script).Reachable s) :
    ∃ s', (machine n script).Reachable s' ∧ s'.script = s.script ∧ s'.list = s.list ∧
      s'.posting = [] ∧ s'.pool.tasks = s.pool.tasks ++ s.posting ∧
      s'.pool.threads = s.pool.threads ∧ s'.called = s.called := by
  rcases s with ⟨script', list, posting, pool, called⟩
  induction posting generalizing pool with
  | nil => exact ⟨_, h, rfl, rfl, rfl, by simp, rfl, rfl⟩
  | cons call rest ih =>
    have hposted : (machine n script).Reachable ⟨script', list, rest, pool.addTask call, called⟩ :=
      h.step (l := .owner) rfl
    obtain ⟨s', hreach, hscript, hlist, hposting, htasks, hthreads, hcalled⟩ := ih _ hposted
    refine ⟨s', hreach, hscript, hlist, hposting, ?_, hthreads, hcalled⟩
    simpa [ThreadPoolEventHandler.addTask] using htasks

/-- The owner gets through its script before a thread of the pool moves. -/
theorem own_all (h : (machine n script).Reachable s) :
    ∃ s', (machine n script).Reachable s' ∧ s'.pool.tasks = s.pending ∧
      s'.pool.threads = s.pool.threads ∧ s'.called = s.called := by
  obtain ⟨s₁, hreach, hscript, hlist, hposting, htasks, hthreads, hcalled⟩ := post_all h
  have hpending : s₁.pending = s.pending := by
    simp [pending, hscript, hlist, hposting, htasks]
  clear h
  rw [← hpending, ← hthreads, ← hcalled]
  clear hpending hthreads hcalled hscript hlist htasks
  rcases s₁ with ⟨script₁, list, posting, pool, called⟩
  obtain rfl : posting = [] := hposting
  induction script₁ generalizing list pool with
  | nil => exact ⟨_, hreach, by simp [pending, sends], rfl, rfl⟩
  | cons op rest ih =>
    have hbegun : (machine n script).Reachable
        ⟨rest, op.apply list, op.posts list, pool, called⟩ := hreach.step (l := .owner) rfl
    obtain ⟨s₂, hreach₂, hscript₂, hlist₂, hposting₂, htasks₂, hthreads₂, hcalled₂⟩ :=
      post_all hbegun
    rcases s₂ with ⟨script₂, list₂, posting₂, pool₂, called₂⟩
    dsimp only at hscript₂ hlist₂ hposting₂ htasks₂ hthreads₂ hcalled₂
    subst hscript₂ hlist₂ hposting₂ hcalled₂
    obtain ⟨s₃, hreach₃, htasks₃, hthreads₃, hcalled₃⟩ := ih _ _ hreach₂
    refine ⟨s₃, hreach₃, ?_, hthreads₃.trans hthreads₂, hcalled₃⟩
    rw [htasks₃]
    simp [pending, sends, htasks₂]

/-- An idle thread serves the first tasks of the queue. -/
theorem serve (i : Fin n) {front rest : List (Nat × γ)} (h : (machine n script).Reachable s)
    (hidle : s.pool.threads i = .idle) (htasks : s.pool.tasks = front ++ rest) :
    ∃ s', (machine n script).Reachable s' ∧ s'.called = s.called ++ front ∧
      s'.pool.tasks = rest ∧ s'.pool.threads = s.pool.threads := by
  rcases s with ⟨script', list, posting, ⟨tasks, threads⟩, called⟩
  obtain rfl : tasks = front ++ rest := htasks
  induction front generalizing called with
  | nil => exact ⟨_, h, by simp, rfl, rfl⟩
  | cons task front ih =>
    have hidle : threads i = .idle := hidle
    have htaken : (machine n script).Reachable
        ⟨script', list, posting, ⟨front ++ rest, Function.update threads i (.taken task)⟩, called⟩ := by
      apply h.step (l := .take i)
      simp [machine, step, hidle, ThreadPoolEventHandler.setThread]
    have hcalled : (machine n script).Reachable
        ⟨script', list, posting, ⟨front ++ rest, Function.update threads i (.calling task)⟩,
          called ++ [task]⟩ := by
      apply htaken.step (l := .call i)
      simp [machine, step, ThreadPoolEventHandler.setThread]
    have hfinished : (machine n script).Reachable
        ⟨script', list, posting, ⟨front ++ rest, threads⟩, called ++ [task]⟩ := by
      apply hcalled.step (l := .finish i)
      simp [machine, step, ThreadPoolEventHandler.setThread, ← hidle]
    obtain ⟨s', hreach, hcalls, htasks, hthreads⟩ := ih _ hfinished hidle
    exact ⟨s', hreach, by simpa using hcalls, htasks, hthreads⟩

theorem callsTo_append (o : Nat) (xs ys : List (Nat × γ)) :
    callsTo o (xs ++ ys) = callsTo o xs ++ callsTo o ys := by
  simp [callsTo]

theorem callsTo_cons_self (o : Nat) (v : γ) (l : List (Nat × γ)) :
    callsTo o ((o, v) :: l) = v :: callsTo o l := by
  simp [callsTo]

/-- A list that starts with its last element shifted in has no other element. -/
theorem eq_of_rotated {a b : γ} {mid : List γ} (h : mid ++ [b] = a :: mid) : a = b := by
  induction mid generalizing a with
  | nil => simpa using h.symm
  | cons x mid ih =>
    obtain ⟨rfl, hrest⟩ := List.cons.inj h
    exact ih hrest

/-- Two different elements of a list, the first before the second. -/
theorem exists_split {x y : Nat × γ} {l : List (Nat × γ)} (hx : x ∈ l) (hy : y ∈ l) (hne : x ≠ y) :
    ∃ front mid back, l = front ++ x :: (mid ++ y :: back) ∨ l = front ++ y :: (mid ++ x :: back) := by
  obtain ⟨front, back, rfl⟩ := List.append_of_mem hx
  rcases List.mem_append.mp hy with hy | hy
  · obtain ⟨front', mid, rfl⟩ := List.append_of_mem hy
    exact ⟨front', mid, back, .inr (by simp)⟩
  · obtain ⟨mid, back', rfl⟩ := List.append_of_mem ((List.mem_cons.mp hy).resolve_left (Ne.symm hne))
    exact ⟨front, mid, back', .inl rfl⟩

/-- One thread takes the first of two different events and is overtaken by another one, which makes
all the calls up to the second. -/
theorem exists_overtaken {i j : Fin n} (hij : i ≠ j) {o : Nat} {a b : γ} (hab : a ≠ b)
    {front mid back : List (Nat × γ)}
    (hsplit : sends EventHandlerList.create script = front ++ (o, a) :: (mid ++ (o, b) :: back)) :
    ∃ s, (machine n script).Reachable s ∧ ¬InOrder script s := by
  have hstart : (machine n script).Reachable (initial script) := ⟨[], .init⟩
  obtain ⟨s₁, hreach₁, htasks₁, hthreads₁, hcalled₁⟩ := own_all hstart
  rw [pending_initial, hsplit] at htasks₁
  have hidle₁ : ∀ k, s₁.pool.threads k = .idle := fun k => by rw [hthreads₁]; rfl
  obtain ⟨s₂, hreach₂, hcalled₂, htasks₂, hthreads₂⟩ := serve j hreach₁ (hidle₁ j) htasks₁
  have hidle₂ : ∀ k, s₂.pool.threads k = .idle := fun k => by rw [hthreads₂]; exact hidle₁ k
  have htaken : (machine n script).Reachable
      { s₂ with pool := ⟨mid ++ (o, b) :: back, Function.update s₂.pool.threads i (.taken (o, a))⟩ } := by
    apply hreach₂.step (l := .take i)
    simp [machine, step, hidle₂, htasks₂, ThreadPoolEventHandler.setThread]
  have hidle₃ : Function.update s₂.pool.threads i (.taken (o, a)) j = .idle := by
    rw [Function.update_of_ne (Ne.symm hij)]
    exact hidle₂ j
  obtain ⟨s₃, hreach₃, hcalled₃, -, -⟩ := serve j htaken hidle₃
    (show mid ++ (o, b) :: back = (mid ++ [(o, b)]) ++ back by simp)
  refine ⟨s₃, hreach₃, fun horder => hab ?_⟩
  have hbefore := horder o
  rw [hcalled₃, hcalled₂, hcalled₁, hsplit] at hbefore
  have hempty : (initial script : ObserverDelivery n γ).called = [] := rfl
  rw [hempty, List.nil_append] at hbefore
  simp only [callsTo_append, callsTo_cons_self, List.prefix_append_right_inj] at hbefore
  have hfirst : a :: callsTo o mid <+: a :: (callsTo o mid ++ b :: callsTo o back) :=
    (List.prefix_cons_inj a).mpr (List.prefix_append ..)
  have hshorter := List.prefix_of_prefix_length_le hbefore hfirst (by simp [callsTo])
  exact eq_of_rotated (hshorter.eq_of_length (by simp [callsTo]))

/-- For every pool and everything its owner does with the list: the observers are called in order
in every run exactly when the pool has at most one thread or no observer is sent two different
events. -/
theorem called_in_order_iff (n : Nat) (script : List (ListOp γ)) :
    (∀ s, (machine n script).Reachable s → InOrder script s) ↔
      n ≤ 1 ∨ ∀ o v w, (o, v) ∈ sends EventHandlerList.create script →
        (o, w) ∈ sends EventHandlerList.create script → v = w := by
  constructor
  · intro hall
    by_contra hcond
    obtain ⟨hn, hdiffer⟩ := not_or.mp hcond
    push Not at hdiffer
    obtain ⟨o, v, w, hv, hw, hne⟩ := hdiffer
    have hthreads : (⟨0, by omega⟩ : Fin n) ≠ ⟨1, by omega⟩ := by simp
    obtain ⟨front, mid, back, hsplit | hsplit⟩ :=
      exists_split hv hw fun heq => hne (Prod.mk.inj heq).2
    · obtain ⟨s, hreach, hout⟩ := exists_overtaken hthreads hne hsplit
      exact hout (hall s hreach)
    · obtain ⟨s, hreach, hout⟩ := exists_overtaken hthreads (Ne.symm hne) hsplit
      exact hout (hall s hreach)
  · rintro (hn | hsame) s hreach
    · have hfifo : Fifo script s := hreach.invariant (Fifo.initial script)
        fun s l s' hi hs => hi.step hn (move_of_step hs)
      exact hfifo.inOrder
    · have hinit : Conserved script (machine n script).init := Conserved.initial script
      have hconserved : Conserved script s := hreach.invariant hinit
        fun s l s' hi hs => hi.step (move_of_step hs)
      exact hconserved.inOrder hsame

/-- Two threads, one observer and two changes of the reader's state. -/
theorem states_out_of_order :
    ¬∀ (n : Nat) (script : List (ListOp ReaderState)) (s : ObserverDelivery n ReaderState),
      (machine n script).Reachable s → InOrder script s := by
  intro hall
  have hsplit : sends EventHandlerList.create
      [.register 0, .notify ReaderState.reading, .notify ReaderState.endOfFile] =
      [] ++ (0, .reading) :: ([] ++ (0, .endOfFile) :: []) := by decide
  obtain ⟨s, hreach, hout⟩ := exists_overtaken (i := (0 : Fin 2)) (j := 1) (by decide)
    (by decide) hsplit
  exact hout (hall 2 _ s hreach)

/-! ## What the reader sends -/

/-- A change of state sends the state to the state observers. -/
theorem setReaderState_sends {δ κ : Type} (state : ReaderState) (r : ReaderFF δ κ) :
    (ReaderFF.setReaderState state : Proc Fault (ReaderFF δ κ) Unit) r =
      (.ok (), { r with
        state := state
        sentStates := r.sentStates ++ sends r.readerObservers [.notify state] }) := by
  simp [ReaderFF.setReaderState, Proc.modify, sends, ListOp.posts]

/-- A frame that is to be handled is sent to the frame observers. -/
theorem handleFrame_sends {δ κ : Type} (frame : Frame) (r : ReaderFF δ κ)
    (h : r.needHandleFrame = true) :
    (r.handleFrame frame).sentFrames =
      r.sentFrames ++ sends r.frameObservers [.notify frame] := by
  simp [ReaderFF.handleFrame, h, sends, ListOp.posts]

end ObserverDelivery

end Seekira.Model
