import Mathlib.Data.List.Perm.Basic
import Seekira.Model.FaceMemory

/-!
# The order of the persons

The matcher compares a face with one person after the other and stops at the first verdict other
than `NotMatched`.  A person whose verdict is `Possible` keeps the face from one that matches and
comes later, so the order of the persons decides exactly when both verdicts occur.
-/

set_option autoImplicit false

namespace Seekira.Model

variable {φ ρ α α' β : Type} [DecidableEq φ]

/-! ## Faces in memory -/

namespace FaceMemory

/-- An update changes the face that it is made to. -/
theorem read_update (m : FaceMemory φ ρ) (f : Face ρ → Face ρ) (p q : FacePtr φ) :
    (m.update f p).read q = if q = p then (m.read q).map f else m.read q := by
  cases p with
  | parent p =>
    cases q with
    | parent q =>
      by_cases hq : q = p
      · subst hq
        simp [update, read]
      · simp [update, read, hq]
    | own n => simp [update, read]
  | own k =>
    cases q with
    | parent q => simp [update, read]
    | own n =>
      by_cases hn : n = k
      · subst hn
        simp [update, read]
      · simp [update, read, hn, Ne.symm hn]

theorem read_update_self {m : FaceMemory φ ρ} {f : Face ρ → Face ρ} {p : FacePtr φ} {v : Face ρ}
    (hread : m.read p = some v) : (m.update f p).read p = some (f v) := by
  rw [read_update, if_pos rfl, hread, Option.map_some]

omit [DecidableEq φ] in
/-- What the pointers lead to is all there is. -/
theorem ext_read {m m' : FaceMemory φ ρ} (h : ∀ p, m.read p = m'.read p) : m = m' := by
  obtain ⟨faces, own⟩ := m
  obtain ⟨faces', own'⟩ := m'
  have hfaces : faces = faces' := by
    funext p
    exact Option.some.inj (h (.parent p))
  have hown : own = own' := by
    apply List.ext_getElem?
    intro n
    exact h (.own n)
  rw [hfaces, hown]

/-- Two updates of a face are one. -/
theorem update_update (m : FaceMemory φ ρ) (f g : Face ρ → Face ρ) (p : FacePtr φ) :
    (m.update f p).update g p = m.update (g ∘ f) p := by
  apply ext_read
  intro q
  simp only [read_update]
  split
  · rw [Option.map_map]
  · rfl

/-- A change is known by what it makes of the face that is there. -/
theorem update_congr {m : FaceMemory φ ρ} {f g : Face ρ → Face ρ} {p : FacePtr φ} {v : Face ρ}
    (hread : m.read p = some v) (hfg : f v = g v) : m.update f p = m.update g p := by
  apply ext_read
  intro q
  rw [read_update, read_update]
  split
  · rename_i hq
    rw [hq, hread, Option.map_some, Option.map_some, hfg]
  · rfl

theorem update_id (m : FaceMemory φ ρ) (p : FacePtr φ) : m.update id p = m := by
  apply ext_read
  intro q
  rw [read_update, Option.map_id, id_eq, ite_self]

end FaceMemory

/-! ## Sequences -/

namespace FaceProg

/-- Behind a program that returned, the next one goes on. -/
theorem exec_bind_ok {p : FaceProg φ ρ α} {k : α → FaceProg φ ρ α'} {m m' : FaceMemory φ ρ} {a : α}
    (h : p.exec m = some (.ok a, m')) : (p >>= k).exec m = (k a).exec m' := by
  change (p.bind k).exec m = (k a).exec m'
  induction p generalizing m with
  | ret b =>
    cases h
    rfl
  | throw e => cases h
  | get ptr next ih =>
    cases hread : m.read ptr with
    | none => simp [exec, hread] at h
    | some v =>
      simp only [exec, hread, Option.bind_some] at h
      simp only [FaceProg.bind, exec, hread, Option.bind_some]
      exact ih v h
  | update ptr f next ih => exact ih h
  | create face next ih => exact ih _ h

/-- Programs that only look at faces, one for each element. -/
theorem exec_mapM {γ : Type} {f : γ → FaceProg φ ρ α} {g : γ → α} {m : FaceMemory φ ρ}
    (h : ∀ a, (f a).exec m = some (.ok (g a), m)) (as : List γ) :
    (as.mapM f).exec m = some (.ok (as.map g), m) := by
  have hloop (as : List γ) (done : List α) :
      (List.mapM.loop f as done).exec m = some (.ok (done.reverse ++ as.map g), m) := by
    induction as generalizing done with
    | nil => simp [List.mapM.loop, exec, pure]
    | cons a rest ih =>
      rw [List.mapM.loop, exec_bind_ok (h a), ih]
      simp
  exact hloop as []

end FaceProg

open FaceProg

/-! ## One person -/

/-- A face with another status. -/
def Face.mark (status : FaceMatchStatus) (v : Face ρ) : Face ρ := { v with matchStatus := status }

/-- The verdict of a person with the given known faces on a face. -/
def personVerdict (engine : Face ρ → Face ρ → FaceMatchStatus) (v : Face ρ)
    (person : List (Face ρ)) : FaceMatchStatus :=
  matchVerdict (person.map fun known => engine known (v.mark .undefined))

variable {engine : Face ρ → Face ρ → FaceMatchStatus} {m : FaceMemory φ ρ} {face : FacePtr φ}
  {v : Face ρ}

/-- `compare` returns the verdict and leaves it in the face. -/
theorem compare_exec (hread : m.read face = some v) (person : List (Face ρ)) :
    (PersonHolder.compare engine person face).exec m =
      some (.ok (personVerdict engine v person),
        m.update (Face.mark (personVerdict engine v person)) face) := by
  have hcleared : (m.update (Face.mark .undefined) face).read face = some (v.mark .undefined) :=
    FaceMemory.read_update_self hread
  have hresults := exec_mapM (m := m.update (Face.mark .undefined) face)
    (f := fun known => FaceProg.get face fun v => .ret (engine known v))
    (g := fun known => engine known (v.mark .undefined))
    (fun known => by simp [exec, hcleared]) person
  have hset : (setMatchStatus face FaceMatchStatus.undefined).exec m =
      some (.ok (), m.update (Face.mark .undefined) face) := rfl
  unfold PersonHolder.compare
  rw [exec_bind_ok hset, exec_bind_ok hresults]
  have hverdict : (setMatchStatus face (personVerdict engine v person)).exec
      (m.update (Face.mark .undefined) face) =
        some (.ok (), m.update (Face.mark (personVerdict engine v person)) face) := by
    change some (Except.ok (), (m.update (Face.mark .undefined) face).update _ face) = _
    rw [FaceMemory.update_update]
    rfl
  exact exec_bind_ok hverdict

/-! ## All persons -/

/-- The status that the loop leaves when the persons' verdicts are these. -/
def decision : List FaceMatchStatus → FaceMatchStatus → FaceMatchStatus
  | [], before => before
  | verdict :: rest, _ => if verdict ≠ .notMatched then verdict else decision rest .notMatched

/-- The face after the loop over the persons. -/
def settled (engine : Face ρ → Face ρ → FaceMatchStatus) (persons : List (List (Face ρ)))
    (v : Face ρ) : Face ρ :=
  v.mark (decision (persons.map (personVerdict engine v)) v.matchStatus)

theorem decision_decision (verdicts : List FaceMatchStatus) (before : FaceMatchStatus) :
    decision verdicts (decision verdicts before) = decision verdicts before := by
  cases verdicts with
  | nil => rfl
  | cons verdict rest => rfl

/-- The faces of another status get the same verdicts. -/
theorem settled_settled (persons : List (List (Face ρ))) (v : Face ρ) :
    settled engine persons (settled engine persons v) = settled engine persons v := by
  change v.mark (decision (persons.map (personVerdict engine v))
    (decision (persons.map (personVerdict engine v)) v.matchStatus)) = _
  rw [decision_decision]
  rfl

/-- The matching sets the status that the persons settle. -/
theorem matchPersons_exec (hread : m.read face = some v) (persons : List (List (Face ρ))) :
    (matchPersons engine face persons).exec m =
      some (.ok (), m.update (settled engine persons) face) := by
  induction persons generalizing m v with
  | nil =>
    have hsame : m.update (settled engine []) face = m :=
      (FaceMemory.update_congr hread rfl).trans (m.update_id face)
    rw [hsame]
    rfl
  | cons person rest ih =>
    unfold matchPersons
    rw [exec_bind_ok (compare_exec hread person)]
    have hsettled : settled engine (person :: rest) v =
        if personVerdict engine v person ≠ .notMatched then v.mark (personVerdict engine v person)
        else settled engine rest (v.mark .notMatched) := by
      unfold settled
      rw [List.map_cons, decision]
      split
      · rfl
      · rfl
    split
    · rename_i hhit
      rw [if_pos hhit] at hsettled
      change some (Except.ok (), (m.update (Face.mark _) face).update (Face.mark _) face) = _
      rw [FaceMemory.update_update, FaceMemory.update_congr hread]
      exact hsettled.symm
    · rename_i hmiss
      rw [if_neg hmiss] at hsettled
      have hverdict : personVerdict engine v person = .notMatched := not_not.mp hmiss
      have hmarked : (m.update (Face.mark .notMatched) face).read face =
          some (v.mark .notMatched) := FaceMemory.read_update_self hread
      rw [hverdict, ih hmarked, FaceMemory.update_update, FaceMemory.update_congr hread]
      exact hsettled.symm

/-! ## All faces -/

/-- What the loop over the faces makes of each of them; a face that the list holds twice is treated
twice, to the same end. -/
theorem forM_matchPersons_exec (persons : List (List (Face ρ))) (ptrs : List (FacePtr φ))
    (hptrs : ∀ p ∈ ptrs, (m.read p).isSome) :
    ∃ m', (ptrs.forM fun face => matchPersons engine face persons).exec m = some (.ok (), m') ∧
      ∀ q, m'.read q = if q ∈ ptrs then (m.read q).map (settled engine persons) else m.read q := by
  induction ptrs generalizing m with
  | nil => exact ⟨m, rfl, by simp⟩
  | cons p rest ih =>
    obtain ⟨v, hread⟩ := Option.isSome_iff_exists.mp (hptrs p List.mem_cons_self)
    have hrest : ∀ q ∈ rest, ((m.update (settled engine persons) p).read q).isSome := by
      intro q hq
      have hsome := hptrs q (List.mem_cons_of_mem _ hq)
      rw [FaceMemory.read_update]
      split
      · rw [Option.isSome_map]
        exact hsome
      · exact hsome
    obtain ⟨m', hexec, hm'⟩ := ih hrest
    refine ⟨m', (exec_bind_ok (matchPersons_exec hread persons)).trans hexec, ?_⟩
    intro q
    rw [hm', FaceMemory.read_update]
    by_cases hqp : q = p
    · subst hqp
      by_cases hq : q ∈ rest
      · simp [hq, hread, settled_settled]
      · simp [hq]
    · simp [hqp]

/-- The status of a face after the matcher. -/
def statusAfter (engine : Face ρ → Face ρ → FaceMatchStatus) (persons : List (List (Face ρ)))
    (d : PipelineData β (FacePtr φ)) (m : FaceMemory φ ρ) (face : FacePtr φ) :
    Option FaceMatchStatus :=
  ((FaceMatcherPipelineNode.process engine false persons d).exec m).bind fun r =>
    (r.2.read face).map Face.matchStatus

/-- The status of a face after the matcher is the one that is decided for it. -/
theorem statusAfter_eq {d : PipelineData β (FacePtr φ)}
    (hptrs : ∀ p ∈ detectedFaces d, (m.read p).isSome) (hface : face ∈ detectedFaces d)
    (hread : m.read face = some v) (persons : List (List (Face ρ))) :
    statusAfter engine persons d m face =
      some (decision (persons.map (personVerdict engine v)) v.matchStatus) := by
  obtain ⟨m', hexec, hm'⟩ : ∃ m', ((detectedFaces d).forM fun face =>
      matchPersons engine face persons).exec m = some (.ok (), m') ∧
      ∀ q, m'.read q = if q ∈ detectedFaces d then (m.read q).map (settled engine persons)
        else m.read q := forM_matchPersons_exec persons _ hptrs
  have hprocess : (FaceMatcherPipelineNode.process engine false persons d).exec m =
      some (.ok d, m') := exec_bind_ok hexec
  unfold statusAfter
  rw [hprocess, Option.bind_some, hm', if_pos hface, hread]
  rfl

/-! ## Persons in another order -/

/-- The first verdict other than `NotMatched` decides. -/
theorem decision_eq (verdicts : List FaceMatchStatus) (before : FaceMatchStatus) :
    decision verdicts before =
      (verdicts.find? fun s => s ≠ .notMatched).getD
        (if verdicts = [] then before else .notMatched) := by
  induction verdicts generalizing before with
  | nil => rfl
  | cons verdict rest ih =>
    unfold decision
    by_cases hverdict : verdict = .notMatched
    · rw [if_neg (not_not.mpr hverdict), List.find?_cons_of_neg (by simpa using hverdict), ih]
      simp
    · rw [if_pos hverdict, List.find?_cons_of_pos (by simpa using hverdict)]
      rfl

/-- A verdict is never undefined. -/
theorem matchVerdict_ne_undefined (results : List FaceMatchStatus) :
    matchVerdict results ≠ .undefined := by
  unfold matchVerdict
  by_cases hvalid : results.count .matched = 0
  · by_cases hprob : results.count .possible = 0
    · simp [hvalid, hprob]
    · simp [hvalid, hprob]
  · simp only [hvalid, if_false]
    split
    · simp
    · simp

/-- A verdict that occurs, and next to which only `NotMatched` does, decides. -/
theorem decision_eq_of_only {verdicts : List FaceMatchStatus} {s : FaceMatchStatus}
    (hs : s ≠ .notMatched) (hmem : s ∈ verdicts) (honly : ∀ t ∈ verdicts, t ≠ .notMatched → t = s)
    (before : FaceMatchStatus) : decision verdicts before = s := by
  rw [decision_eq]
  cases hfind : verdicts.find? fun s => s ≠ .notMatched with
  | none =>
    have hmiss := List.find?_eq_none.mp hfind s hmem
    simp [hs] at hmiss
  | some t =>
    have hhit : t ≠ .notMatched := by simpa using List.find?_some hfind
    rw [Option.getD_some]
    exact honly t (List.mem_of_find?_eq_some hfind) hhit

/-- When nobody matches, the decision is that nobody does. -/
theorem decision_eq_of_none {verdicts : List FaceMatchStatus}
    (hnone : ∀ t ∈ verdicts, t = .notMatched) (before : FaceMatchStatus) :
    decision verdicts before = if verdicts = [] then before else .notMatched := by
  have hfind : (verdicts.find? fun s => s ≠ .notMatched) = none := by
    apply List.find?_eq_none.mpr
    intro t ht
    simp [hnone t ht]
  rw [decision_eq, hfind, Option.getD_none]

/-- The verdicts do not occur both. -/
theorem decision_perm {verdicts verdicts' : List FaceMatchStatus} (hperm : verdicts'.Perm verdicts)
    (hdefined : FaceMatchStatus.undefined ∉ verdicts)
    (hboth : ¬(.possible ∈ verdicts ∧ .matched ∈ verdicts)) (before : FaceMatchStatus) :
    decision verdicts' before = decision verdicts before := by
  have hcases (t : FaceMatchStatus) (ht : t ∈ verdicts) :
      t = .notMatched ∨ t = .possible ∨ t = .matched := by
    cases t with
    | undefined => exact absurd ht hdefined
    | notMatched => exact .inl rfl
    | possible => exact .inr (.inl rfl)
    | matched => exact .inr (.inr rfl)
  by_cases hsome : ∃ s ∈ verdicts, s ≠ .notMatched
  · obtain ⟨s, hs, hhit⟩ := hsome
    have honly (t : FaceMatchStatus) (ht : t ∈ verdicts) (hthit : t ≠ .notMatched) : t = s := by
      rcases hcases t ht with rfl | rfl | rfl
      · exact absurd rfl hthit
      · rcases hcases s hs with rfl | rfl | rfl
        · exact absurd rfl hhit
        · rfl
        · exact absurd ⟨ht, hs⟩ hboth
      · rcases hcases s hs with rfl | rfl | rfl
        · exact absurd rfl hhit
        · exact absurd ⟨hs, ht⟩ hboth
        · rfl
    rw [decision_eq_of_only hhit hs honly,
      decision_eq_of_only hhit (hperm.mem_iff.mpr hs) fun t ht => honly t (hperm.mem_iff.mp ht)]
  · have hnone (t : FaceMatchStatus) (ht : t ∈ verdicts) : t = .notMatched := by
      by_contra hhit
      exact hsome ⟨t, ht, hhit⟩
    have hempty : verdicts' = [] ↔ verdicts = [] := by
      rw [← List.length_eq_zero_iff, ← List.length_eq_zero_iff, hperm.length_eq]
    rw [decision_eq_of_none hnone,
      decision_eq_of_none fun t ht => hnone t (hperm.mem_iff.mp ht)]
    simp only [hempty]

/-- The status of a face does not depend on the order of the persons, and one that matches is
enough. -/
structure OrderFree (engine : Face ρ → Face ρ → FaceMatchStatus) (persons : List (List (Face ρ)))
    (d : PipelineData β (FacePtr φ)) (m : FaceMemory φ ρ) (face : FacePtr φ) (v : Face ρ) : Prop where
  matched : (∃ person ∈ persons, personVerdict engine v person = .matched) →
    statusAfter engine persons d m face = some .matched
  permuted : ∀ persons', persons'.Perm persons →
    statusAfter engine persons' d m face = statusAfter engine persons d m face

/-- A face gets the verdict of the first person, in the configured order, whose verdict is not
`NotMatched`.  The order makes no difference exactly when the verdicts `Possible` and `Matched` do
not both occur. -/
theorem status_after_matcher {d : PipelineData β (FacePtr φ)}
    (hptrs : ∀ p ∈ detectedFaces d, (m.read p).isSome) (hface : face ∈ detectedFaces d)
    (hread : m.read face = some v) (persons : List (List (Face ρ))) :
    statusAfter engine persons d m face =
        some (((persons.map (personVerdict engine v)).find? fun s => s ≠ .notMatched).getD
          (if persons = [] then v.matchStatus else .notMatched)) ∧
      (OrderFree engine persons d m face v ↔
        ¬(.possible ∈ persons.map (personVerdict engine v) ∧
          .matched ∈ persons.map (personVerdict engine v))) := by
  have hstatus (persons : List (List (Face ρ))) :
      statusAfter engine persons d m face =
        some (decision (persons.map (personVerdict engine v)) v.matchStatus) :=
    statusAfter_eq hptrs hface hread persons
  refine ⟨?_, ?_, ?_⟩
  · rw [hstatus, decision_eq]
    simp only [List.map_eq_nil_iff]
  · rintro horder ⟨hpossible, hmatched⟩
    obtain ⟨person, hperson, hverdict⟩ := List.mem_map.mp hpossible
    obtain ⟨person', hperson', hverdict'⟩ := List.mem_map.mp hmatched
    obtain ⟨front, back, rfl⟩ := List.append_of_mem hperson
    have hfirst := horder.permuted (person :: (front ++ back)) List.perm_middle.symm
    rw [horder.matched ⟨person', hperson', hverdict'⟩, hstatus, List.map_cons, hverdict] at hfirst
    cases hfirst
  · intro hboth
    have hdefined : FaceMatchStatus.undefined ∉ persons.map (personVerdict engine v) := by
      intro hundefined
      obtain ⟨person, -, hverdict⟩ := List.mem_map.mp hundefined
      exact matchVerdict_ne_undefined _ hverdict
    refine ⟨?_, ?_⟩
    · rintro ⟨person, hperson, hverdict⟩
      have hmem : .matched ∈ persons.map (personVerdict engine v) :=
        List.mem_map.mpr ⟨person, hperson, hverdict⟩
      rw [hstatus, decision_eq_of_only (by decide) hmem]
      intro t ht hhit
      cases t with
      | undefined => exact absurd ht hdefined
      | notMatched => exact absurd rfl hhit
      | possible => exact absurd ⟨ht, hmem⟩ hboth
      | matched => rfl
    · intro persons' hperm
      rw [hstatus, hstatus, decision_perm (hperm.map _) hdefined hboth]

/-! ### Two persons -/

/-- One face was found. -/
def foundFace : PipelineData Unit (FacePtr Unit) :=
  ⟨(), ⟨[("face_detection_result", ⟨⟨[("faces", [.parent ()])]⟩⟩)]⟩⟩

def foundMemory : FaceMemory Unit Nat := ⟨fun _ => ⟨7, .undefined⟩, []⟩

/-- Faces with the same data match, others possibly do. -/
def closeEngine (known face : Face Nat) : FaceMatchStatus :=
  if known.recognizerData = face.recognizerData then .matched else .possible

/-- The second person has the face. -/
def closeFirst : List (List (Face Nat)) := [[⟨6, .undefined⟩], [⟨7, .undefined⟩]]

theorem foundMemory_valid : ∀ p ∈ detectedFaces foundFace, (foundMemory.read p).isSome := by
  intro p hp
  obtain rfl : p = .parent () := by
    simpa [detectedFaces, foundFace, MetaStorage.getAttachment] using hp
  rfl

/-- The first person's `Possible` hides that the second one matches. -/
theorem possible_hides_matched :
    ¬∀ (engine : Face Nat → Face Nat → FaceMatchStatus) (persons : List (List (Face Nat)))
      (d : PipelineData Unit (FacePtr Unit)) (m : FaceMemory Unit Nat) (face : FacePtr Unit)
      (v : Face Nat), (∀ p ∈ detectedFaces d, (m.read p).isSome) → face ∈ detectedFaces d →
        m.read face = some v → OrderFree engine persons d m face v := by
  intro hclaim
  have horder := hclaim closeEngine closeFirst foundFace foundMemory (.parent ()) ⟨7, .undefined⟩
    foundMemory_valid (by decide) rfl
  have hmatched := horder.matched ⟨[⟨7, .undefined⟩], by decide, by decide⟩
  revert hmatched
  decide

/-- A person who may match stands before one who does. -/
theorem status_after_matcher_closeFirst :
    statusAfter closeEngine closeFirst foundFace foundMemory (.parent ()) = some .possible ∧
      ¬OrderFree closeEngine closeFirst foundFace foundMemory (.parent ()) ⟨7, .undefined⟩ := by
  have hmem : FacePtr.parent () ∈ detectedFaces foundFace := by decide
  have hread : foundMemory.read (.parent ()) = some ⟨7, .undefined⟩ := rfl
  obtain ⟨hstatus, horder⟩ := @status_after_matcher Unit Nat Unit _ closeEngine foundMemory
    (.parent ()) ⟨7, .undefined⟩ foundFace foundMemory_valid hmem hread closeFirst
  refine ⟨hstatus.trans (by decide), ?_⟩
  rw [horder, not_not]
  decide

/-! ## Below a fork -/

section BelowFork

variable {ι : Type} [DecidableEq ι]

/-- The accesses of branch `b` alone lead from `s` to the end of its program, with these faces. -/
def EndsAlone (b : ι) (s : ForkedBranches ι φ ρ β) (d : PipelineData β (FacePtr φ))
    (m : FaceMemory φ ρ) : Prop :=
  ∃ n s', (List.replicate n b).foldlM ForkedBranches.step s = some s' ∧ s'.faces = m.faces ∧
    s'.own b = m.own ∧ s'.progs b = .ret d

/-- A branch that ends alone after a step ended alone before it. -/
theorem EndsAlone.of_step {b : ι} {s s' : ForkedBranches ι φ ρ β} {d : PipelineData β (FacePtr φ)}
    {m : FaceMemory φ ρ} (hstep : s.step b = some s') (h : EndsAlone b s' d m) :
    EndsAlone b s d m := by
  obtain ⟨n, s'', hrun, hend⟩ := h
  refine ⟨n + 1, s'', ?_, hend⟩
  rw [List.replicate_succ, List.foldlM_cons, hstep]
  exact hrun

/-- A branch that nobody interrupts leaves the faces that its program leaves. -/
theorem exec_below_fork (b : ι) {prog : FaceProg φ ρ (PipelineData β (FacePtr φ))}
    {m m' : FaceMemory φ ρ} {d : PipelineData β (FacePtr φ)} (h : prog.exec m = some (.ok d, m'))
    {s : ForkedBranches ι φ ρ β} (hfaces : s.faces = m.faces) (hown : s.own b = m.own)
    (hprog : s.progs b = prog) : EndsAlone b s d m' := by
  induction prog generalizing m s with
  | ret b' =>
    cases h
    exact ⟨0, s, rfl, hfaces, hown, hprog⟩
  | throw e => cases h
  | get p k ih =>
    have hsame : s.read b p = m.read p := by
      cases p with
      | parent p => simp only [ForkedBranches.read, FaceMemory.read, hfaces]
      | own n => simp only [ForkedBranches.read, FaceMemory.read, hown]
    cases hread : m.read p with
    | none => simp [exec, hread] at h
    | some v =>
      simp only [exec, hread, Option.bind_some] at h
      have hstep : s.step b = some (s.setProg b (k v)) := by
        simp [ForkedBranches.step, hprog, hsame, hread]
      exact .of_step hstep (ih v h hfaces hown (by simp [ForkedBranches.setProg]))
  | update p f k ih =>
    cases p with
    | parent p =>
      have hstep : s.step b = some
          { s.setProg b k with faces := Function.update s.faces p (f (s.faces p)) } := by
        simp [ForkedBranches.step, hprog]
      exact .of_step hstep (ih h (by simp [FaceMemory.update, hfaces]) hown
        (by simp [ForkedBranches.setProg]))
    | own n =>
      have hstep : s.step b = some ((s.setProg b k).setOwn b ((s.own b).modify n f)) := by
        simp [ForkedBranches.step, hprog]
      exact .of_step hstep (ih h hfaces
        (by simp [ForkedBranches.setOwn, FaceMemory.update, hown])
        (by simp [ForkedBranches.setProg, ForkedBranches.setOwn]))
  | create face k ih =>
    have hstep : s.step b = some
        ((s.setProg b (k (.own (s.own b).length))).setOwn b (s.own b ++ [face])) := by
      simp [ForkedBranches.step, hprog]
    have hexec : (k (.own (s.own b).length)).exec { m with own := m.own ++ [face] } =
        some (.ok d, m') := by
      rw [hown]
      exact h
    exact .of_step hstep (ih _ hexec hfaces (by simp [ForkedBranches.setOwn, hown])
      (by simp [ForkedBranches.setProg, ForkedBranches.setOwn]))

end BelowFork

end Seekira.Model
