import Mathlib.Data.List.Nodup
import Mathlib.Tactic.Ring
import Seekira.Library.Proc
import Seekira.Model.PersonHolder

/-!
# The check of the loaded faces

The bound of the outer loop is the number of faces less one, of type `size_t`: with no faces at all
it is the largest number of that type, and the check spins through as many empty rounds.  With
faces it compares all pairs, as long as the engine does not throw.
-/

set_option autoImplicit false

namespace Seekira.Model.PersonHolder

open Library

variable {image ρ : Type} {source : FaceSource image ρ} {faces : List (Face ρ)}

/-! ## Loading -/

/-- An entry that is an image with one face. -/
def hasOneFace (source : FaceSource image ρ) (entry : DirectoryEntry) : Bool :=
  !entry.isDirectory &&
    ((source.openFile entry.path).bind source.detect).toOption.any fun faces => faces.length = 1

/-- As many faces are loaded as images have one. -/
theorem length_loadFaces {entries : List DirectoryEntry}
    (h : loadFaces source entries = .ok faces) :
    faces.length = (entries.filter (hasOneFace source)).length := by
  induction entries generalizing faces with
  | nil =>
    cases h
    rfl
  | cons entry rest ih =>
    unfold loadFaces at h
    cases hdir : entry.isDirectory with
    | true =>
      rw [List.filter_cons_of_neg (by simp [hasOneFace, hdir])]
      rw [hdir] at h
      exact ih h
    | false =>
      rw [hdir] at h
      obtain ⟨frame, hframe, h⟩ := Proc.except_bind_inv h
      obtain ⟨found, hfound, h⟩ := Proc.except_bind_inv h
      have hdetect : (source.openFile entry.path).bind source.detect = .ok found := by
        rw [hframe]
        exact hfound
      have hone : hasOneFace source entry = decide (found.length = 1) := by
        simp [hasOneFace, hdir, hdetect, Except.toOption]
      cases found with
      | nil =>
        rw [List.filter_cons_of_neg (by simp [hone])]
        exact ih h
      | cons face others =>
        cases others with
        | nil =>
          obtain ⟨recognized, -, h⟩ := Proc.except_bind_inv h
          obtain ⟨loaded, hloaded, h⟩ := Proc.except_bind_inv h
          cases h
          rw [List.filter_cons_of_pos (by simp [hone]), List.length_cons, List.length_cons,
            ih hloaded]
        | cons other others =>
          rw [List.filter_cons_of_neg (by simp [hone])]
          exact ih h

/-! ## Rounds -/

theorem sizeT_natCast {n : Nat} (h : n < 2 ^ 64) : sizeT n = n := by
  unfold sizeT
  omega

/-- The pairs that the loops compare from the `i`-th round of the outer one on, in `rounds` rounds. -/
def pairsFrom (n i rounds : Nat) : List (Nat × Nat) :=
  (List.range' i rounds).flatMap fun i => (List.range' (i + 1) (n - (i + 1))).map fun j => (i, j)

/-- The engine compares each two of the faces. -/
abbrev ComparesEach (source : FaceSource image ρ) (faces : List (Face ρ)) : Prop :=
  faces.Pairwise fun face other => ∃ status, source.compare face other = .ok status

/-- A round of the inner loop whose comparison returns. -/
theorem checkRound_inner (hcompares : ComparesEach source faces) (hsize : faces.length < 2 ^ 64)
    {i j : Nat} (hij : i < j) (hj : j < faces.length) (compared : List (Nat × Nat)) :
    checkRound source faces (.inner i j compared) =
      .again (.inner i (j + 1) (compared ++ [(i, j)])) := by
  have hnext : sizeT ((j : Int) + 1) = j + 1 := sizeT_natCast (n := j + 1) (by omega)
  obtain ⟨status, hstatus⟩ := List.pairwise_iff_getElem.mp hcompares i j (by omega) hj hij
  rw [checkRound, if_pos hj, List.getElem?_eq_getElem (show i < faces.length by omega),
    List.getElem?_eq_getElem hj]
  dsimp only
  rw [hstatus, hnext]

/-- The inner loop compares the `i`-th face with those that are left. -/
theorem inner_leaves (hcompares : ComparesEach source faces) (hsize : faces.length < 2 ^ 64)
    {i : Nat} (hi : i + 1 < 2 ^ 64) {rounds : Nat} {result : CheckEnd} (m : Nat) {j : Nat}
    (hij : i < j) (hm : m = faces.length - j) {compared : List (Nat × Nat)}
    (h : Leaves (checkRound source faces) rounds
      (.outer (i + 1) (compared ++ (List.range' j m).map fun j => (i, j))) result) :
    Leaves (checkRound source faces) (m + 1 + rounds) (.inner i j compared) result := by
  induction m generalizing j compared with
  | zero =>
    have hround : checkRound source faces (.inner i j compared) =
        .again (.outer (i + 1) compared) := by
      have hnext : sizeT ((i : Int) + 1) = i + 1 := sizeT_natCast (n := i + 1) hi
      rw [checkRound, if_neg (by omega), hnext]
    rw [Nat.zero_add, Nat.add_comm]
    exact .next hround (by simpa using h)
  | succ m ih =>
    have hround := checkRound_inner hcompares hsize hij (j := j) (by omega) compared
    have hrest : Leaves (checkRound source faces) (m + 1 + rounds)
        (.inner i (j + 1) (compared ++ [(i, j)])) result :=
      ih (by omega) (by omega) (by simpa [List.range'_succ] using h)
    rw [show m + 1 + 1 + rounds = (m + 1 + rounds) + 1 by omega]
    exact .next hround hrest

/-- The outer loop goes through the rounds that its bound leaves. -/
theorem outer_leaves (hcompares : ComparesEach source faces) (hsize : faces.length < 2 ^ 64)
    (m : Nat) {i : Nat} (hi : i + m = sizeT (faces.length - 1)) (compared : List (Nat × Nat)) :
    Leaves (checkRound source faces) (2 * m + (pairsFrom faces.length i m).length + 1)
      (.outer i compared) (.finished (compared ++ pairsFrom faces.length i m)) := by
  have hbound : sizeT ((faces.length : Int) - 1) < 2 ^ 64 := by
    unfold sizeT
    omega
  induction m generalizing i compared with
  | zero =>
    refine .last ?_
    rw [checkRound, if_neg (by omega)]
    simp [pairsFrom]
  | succ m ih =>
    have hround : checkRound source faces (.outer i compared) =
        .again (.inner i (i + 1) compared) := by
      have hnext : sizeT ((i : Int) + 1) = i + 1 := sizeT_natCast (n := i + 1) (by omega)
      rw [checkRound, if_pos (by omega), hnext]
    have hrest := ih (i := i + 1) (by omega)
      (compared ++ (List.range' (i + 1) (faces.length - (i + 1))).map fun j => (i, j))
    have hinner := inner_leaves hcompares hsize (by omega) _ (Nat.lt_succ_self i) rfl hrest
    have hpairs : pairsFrom faces.length i (m + 1) =
        (List.range' (i + 1) (faces.length - (i + 1))).map (fun j => (i, j)) ++
          pairsFrom faces.length (i + 1) m := by
      simp [pairsFrom, List.range'_succ]
    have hcount : 2 * (m + 1) + (pairsFrom faces.length i (m + 1)).length + 1 =
        faces.length - (i + 1) + 1 +
          (2 * m + (pairsFrom faces.length (i + 1) m).length + 1) + 1 := by
      rw [hpairs, List.length_append, List.length_map, List.length_range']
      omega
    rw [hcount, hpairs, ← List.append_assoc]
    exact .next hround hinner

/-! ## Pairs -/

/-- The pairs are those of an earlier and a later face. -/
theorem mem_pairsFrom {n m i j : Nat} :
    (i, j) ∈ pairsFrom n 0 m ↔ i < m ∧ i < j ∧ j < n := by
  simp only [pairsFrom, List.mem_flatMap, List.mem_map, List.mem_range'_1, Prod.mk.injEq]
  constructor
  · rintro ⟨i, hi, j, hj, rfl, rfl⟩
    omega
  · rintro ⟨hi, hij, hj⟩
    exact ⟨i, by omega, j, by omega, rfl, rfl⟩

/-- No pair comes twice. -/
theorem nodup_pairsFrom (n i m : Nat) : (pairsFrom n i m).Nodup := by
  apply List.nodup_flatMap.mpr
  constructor
  · intro i _
    have hinj : Function.Injective fun j : Nat => (i, j) := fun j j' hj => (Prod.mk.inj hj).2
    exact (List.nodup_range' 1).map hinj
  · refine (List.nodup_range' 1).imp ?_
    intro i i' hne p hp hp'
    obtain ⟨j, -, rfl⟩ := List.mem_map.mp hp
    obtain ⟨j', -, hj'⟩ := List.mem_map.mp hp'
    exact hne (Prod.mk.inj hj').1.symm

/-- The rounds of the inner loop get shorter by one. -/
theorem length_pairsFrom {n : Nat} (m : Nat) {i : Nat} (hn : n = i + m + 1) :
    2 * (pairsFrom n i m).length = m * (m + 1) := by
  induction m generalizing i with
  | zero => rfl
  | succ m ih =>
    have hrest := ih (i := i + 1) (by omega)
    have hpairs : (pairsFrom n i (m + 1)).length = m + 1 + (pairsFrom n (i + 1) m).length := by
      simp only [pairsFrom, List.range'_succ, List.flatMap_cons, List.length_append,
        List.length_map, List.length_range']
      omega
    rw [hpairs, Nat.mul_add, hrest]
    ring

theorem length_pairsFrom_zero (i m : Nat) : (pairsFrom 0 i m).length = 0 := by
  simp [pairsFrom]

/-! ## What every check keeps -/

/-- The engine made something of each of the pairs. -/
def AreCompared (source : FaceSource image ρ) (faces : List (Face ρ))
    (compared : List (Nat × Nat)) : Prop :=
  ∀ i j, (i, j) ∈ compared → ∃ face other status, faces[i]? = some face ∧
    faces[j]? = some other ∧ source.compare face other = .ok status

/-- The inner loop goes on for a face that was loaded. -/
def CheckStage.Sound (source : FaceSource image ρ) (faces : List (Face ρ)) : CheckStage → Prop
  | .outer _ compared => AreCompared source faces compared
  | .inner i _ compared => (faces = [] ∨ i < faces.length) ∧ AreCompared source faces compared

/-- The check did not reach for a face that was not loaded. -/
def CheckEnd.Sound (source : FaceSource image ρ) (faces : List (Face ρ)) : CheckEnd → Prop
  | .finished compared => AreCompared source faces compared
  | .thrown _ => True
  | .outOfRange => False

/-- One comparison more was made of two loaded faces. -/
theorem AreCompared.concat {compared : List (Nat × Nat)} (h : AreCompared source faces compared)
    {i j : Nat} {face other : Face ρ} {status : FaceMatchStatus} (hface : faces[i]? = some face)
    (hother : faces[j]? = some other) (hstatus : source.compare face other = .ok status) :
    AreCompared source faces (compared ++ [(i, j)]) := by
  intro i' j' hmem
  rcases List.mem_append.mp hmem with hmem | hmem
  · exact h i' j' hmem
  · obtain ⟨rfl, rfl⟩ := Prod.mk.inj (List.mem_singleton.mp hmem)
    exact ⟨face, other, status, hface, hother, hstatus⟩

/-- A round keeps what holds of the stages, and leaves with what holds of the ends. -/
theorem sound_round {stage : CheckStage} (h : stage.Sound source faces) :
    match checkRound source faces stage with
    | .again stage' => stage'.Sound source faces
    | .leave result => result.Sound source faces := by
  cases stage with
  | outer i compared =>
    simp only [checkRound]
    split
    · rename_i hround
      split at hround
      · rename_i hi
        obtain rfl := Round.again.inj hround
        refine ⟨?_, h⟩
        rcases faces with _ | ⟨face, rest⟩
        · exact .inl rfl
        · refine .inr ?_
          unfold sizeT at hi
          rw [List.length_cons] at hi ⊢
          omega
      · cases hround
    · rename_i hround
      split at hround
      · cases hround
      · obtain rfl := Round.leave.inj hround
        exact h
  | inner i j compared =>
    obtain ⟨hloaded, hcompared⟩ := h
    simp only [checkRound]
    by_cases hj : j < faces.length
    · have hi : i < faces.length := by
        rcases hloaded with rfl | hi
        · cases hj
        · exact hi
      rw [if_pos hj, List.getElem?_eq_getElem hi, List.getElem?_eq_getElem hj]
      dsimp only
      cases hstatus : source.compare faces[i] faces[j] with
      | error e => exact trivial
      | ok status =>
        exact ⟨.inr hi, hcompared.concat (List.getElem?_eq_getElem hi)
          (List.getElem?_eq_getElem hj) hstatus⟩
    · rw [if_neg hj]
      exact hcompared

/-- However the check ends, it has compared loaded faces. -/
theorem sound_of_leaves {rounds : Nat} {result : CheckEnd}
    (h : Leaves (checkRound source faces) rounds (.outer 0 []) result) :
    result.Sound source faces := by
  refine h.post (I := CheckStage.Sound source faces) (Q := CheckEnd.Sound source faces)
    (fun stage stage' hsound hround => ?_) (fun stage result hsound hround => ?_) ?_
  · have hnext := sound_round hsound
    rwa [hround] at hnext
  · have hend := sound_round hsound
    rwa [hround] at hend
  · intro i j hmem
    cases hmem

/-! ## The check as a whole -/

/-- The check of the faces ends, in no more rounds than its comparisons and two tests for each face
take; it compares each of them once with each that comes after it, and nothing else. -/
def ComparesAllPairs (source : FaceSource image ρ) (faces : List (Face ρ)) : Prop :=
  ∃ rounds compared,
    Leaves (checkRound source faces) rounds (.outer 0 []) (.finished compared) ∧
      rounds ≤ compared.length + 2 * faces.length + 1 ∧
      compared.Nodup ∧ compared.length = faces.length * (faces.length - 1) / 2 ∧
      ∀ i j, (i, j) ∈ compared ↔ i < j ∧ j < faces.length

/-- With no faces the check takes as many empty rounds as the bound has. -/
theorem check_of_no_faces (source : FaceSource image ρ) :
    Leaves (checkRound source []) (2 * (2 ^ 64 - 1) + 1) (.outer 0 []) (.finished []) := by
  have hbound : 0 + (2 ^ 64 - 1) = sizeT (([] : List (Face ρ)).length - 1) := by
    rw [List.length_nil]
    decide
  have hnil : ComparesEach source [] := .nil
  have hleaves := outer_leaves hnil (by simp) (2 ^ 64 - 1) hbound []
  have hnone : pairsFrom 0 0 (2 ^ 64 - 1) = [] :=
    List.length_eq_zero_iff.mp (length_pairsFrom_zero 0 _)
  rw [List.length_nil, hnone] at hleaves
  exact hleaves

/-- The rounds that are left, counted from above. -/
def CheckStage.variant (n : Nat) : CheckStage → Nat
  | .outer i _ => (n - 1 - i) * (n + 1)
  | .inner i j _ => (n - 1 - (i + 1)) * (n + 1) + (n - j) + 1

/-- The loops stand within their bounds. -/
def CheckStage.InBounds (n : Nat) : CheckStage → Prop
  | .outer i _ => i ≤ n - 1
  | .inner i j _ => i < n - 1 ∧ j ≤ n

/-- A round keeps the bounds of the loops and leaves fewer rounds. -/
theorem variant_round (hne : faces ≠ []) (hsize : faces.length < 2 ^ 64) {stage stage' : CheckStage}
    (h : stage.InBounds faces.length) (hround : checkRound source faces stage = .again stage') :
    stage'.InBounds faces.length ∧ stage'.variant faces.length < stage.variant faces.length := by
  have hpos : 0 < faces.length := List.length_pos_iff.mpr hne
  cases stage with
  | outer i compared =>
    have hbound : sizeT ((faces.length : Int) - 1) = faces.length - 1 := by
      unfold sizeT
      omega
    have hnext : sizeT ((i : Int) + 1) = i + 1 :=
      sizeT_natCast (n := i + 1) (by simp only [CheckStage.InBounds] at h; omega)
    simp only [checkRound, hbound, hnext] at hround
    split at hround
    · rename_i hi
      obtain rfl := Round.again.inj hround
      refine ⟨⟨hi, by omega⟩, ?_⟩
      have hleft : faces.length - 1 - i = faces.length - 1 - (i + 1) + 1 := by omega
      simp only [CheckStage.variant]
      rw [hleft, Nat.add_mul]
      omega
    · cases hround
  | inner i j compared =>
    obtain ⟨hi, hj⟩ := h
    have hnext (k : Nat) (hk : k < faces.length) : sizeT ((k : Int) + 1) = k + 1 :=
      sizeT_natCast (n := k + 1) (by omega)
    simp only [checkRound] at hround
    split at hround
    · rename_i hlt
      split at hround
      · split at hround
        · obtain rfl := Round.again.inj hround
          rw [hnext j hlt]
          refine ⟨⟨hi, hlt⟩, ?_⟩
          simp only [CheckStage.variant]
          omega
        · cases hround
      · cases hround
    · obtain rfl := Round.again.inj hround
      rw [hnext i (by omega)]
      refine ⟨hi, ?_⟩
      simp only [CheckStage.variant]
      omega

/-- With faces the check leaves, at the latest after as many rounds as the square of their number,
whatever the engine does. -/
theorem check_leaves_within (source : FaceSource image ρ) (hne : faces ≠ [])
    (hsize : faces.length < 2 ^ 64) :
    ∃ rounds result, rounds ≤ faces.length * faces.length ∧
      Leaves (checkRound source faces) rounds (.outer 0 []) result := by
  have hstart : (CheckStage.outer 0 []).InBounds faces.length := Nat.zero_le _
  have hstep : ∀ stage stage', stage.InBounds faces.length →
      checkRound source faces stage = .again stage' →
      stage'.InBounds faces.length ∧
        stage'.variant faces.length < stage.variant faces.length :=
    fun _ _ => variant_round hne hsize
  obtain ⟨rounds, result, hleaves⟩ := exists_leaves hstep hstart
  refine ⟨rounds, result, ?_, hleaves⟩
  have hle := hleaves.rounds_le hstep hstart
  obtain ⟨n, hn⟩ := Nat.exists_eq_add_of_lt (List.length_pos_iff.mpr hne)
  have hsquare : faces.length * faces.length = n * (n + 2) + 1 := by
    rw [hn]
    ring
  simp only [CheckStage.variant, hn] at hle
  rw [hsquare]
  simpa using hle

/-- With faces, and an engine that compares them, the check compares all pairs. -/
theorem comparesAllPairs_of_faces (hne : faces ≠ []) (hcompares : ComparesEach source faces)
    (hsize : faces.length < 2 ^ 64) : ComparesAllPairs source faces := by
  have hleaves := outer_leaves hcompares hsize (sizeT (faces.length - 1)) (i := 0) (by omega) []
  rw [List.nil_append] at hleaves
  have hpos : 0 < faces.length := List.length_pos_iff.mpr hne
  have hbound : sizeT ((faces.length : Int) - 1) = faces.length - 1 := by
    unfold sizeT
    omega
  rw [hbound] at hleaves
  refine ⟨_, _, hleaves, by omega, nodup_pairsFrom _ _ _, ?_, ?_⟩
  · have hpairs := length_pairsFrom (faces.length - 1) (n := faces.length) (i := 0) (by omega)
    rw [Nat.sub_add_cancel hpos] at hpairs
    rw [Nat.mul_comm, ← hpairs]
    omega
  · intro i j
    rw [mem_pairsFrom]
    omega

/-- A directory gives as many faces as it has images with one.  The check compares all their pairs
exactly when there is such an image and the engine throws on none of the pairs. -/
theorem check_compares_all_pairs_iff {path : String} {entries : List DirectoryEntry}
    (hentries : source.directory path = some entries)
    (hload : loadFromDir source path = .ok faces) (hsize : faces.length < 2 ^ 64) :
    faces.length = (entries.filter (hasOneFace source)).length ∧
      (ComparesAllPairs source faces ↔
        (∃ entry ∈ entries, hasOneFace source entry = true) ∧ ComparesEach source faces) := by
  have hloaded : loadFaces source entries = .ok faces := by
    unfold loadFromDir at hload
    rwa [hentries] at hload
  have hlength := length_loadFaces hloaded
  have hone : (∃ entry ∈ entries, hasOneFace source entry = true) ↔ faces ≠ [] := by
    rw [← List.length_pos_iff, hlength, List.length_pos_iff_exists_mem]
    simp [List.mem_filter]
  refine ⟨hlength, ?_⟩
  rw [hone]
  constructor
  · rintro ⟨rounds, compared, hleaves, hrounds, -, -, hmem⟩
    constructor
    · rintro rfl
      obtain ⟨hn, hcompared⟩ := hleaves.unique (check_of_no_faces source)
      obtain rfl := CheckEnd.finished.inj hcompared
      simp only [List.length_nil] at hrounds
      omega
    · apply List.pairwise_iff_getElem.mpr
      intro i j hi hj hij
      obtain ⟨face, other, status, hface, hother, hstatus⟩ :=
        sound_of_leaves hleaves i j ((hmem i j).mpr ⟨hij, hj⟩)
      rw [List.getElem?_eq_getElem hi] at hface
      rw [List.getElem?_eq_getElem hj] at hother
      exact ⟨status, by rw [Option.some.inj hface, Option.some.inj hother]; exact hstatus⟩
  · rintro ⟨hne, hcompares⟩
    exact comparesAllPairs_of_faces hne hcompares hsize

/-- Directories with two pictures of a face, one of a landscape and another directory, and with the
landscape alone. -/
def twoPictures : FaceSource String Nat where
  directory path :=
    if path = "person" then
      some [⟨"old", true⟩, ⟨"a", false⟩, ⟨"sea", false⟩, ⟨"b", false⟩]
    else if path = "old" then some [⟨"sea", false⟩]
    else none
  openFile path := .ok path
  detect frame := .ok (if frame = "sea" then [] else [⟨frame.length, .undefined⟩])
  recognize face := .ok face
  compare _ _ := .ok .matched

/-- A directory with two pictures of a face. -/
theorem check_compares_all_pairs_iff_twoPictures :
    ComparesAllPairs twoPictures [(⟨1, .undefined⟩ : Face Nat), ⟨1, .undefined⟩] := by
  have hload : loadFromDir twoPictures "person" = .ok [⟨1, .undefined⟩, ⟨1, .undefined⟩] := by
    decide
  have hentries : twoPictures.directory "person" =
      some [⟨"old", true⟩, ⟨"a", false⟩, ⟨"sea", false⟩, ⟨"b", false⟩] := rfl
  obtain ⟨-, hiff⟩ := check_compares_all_pairs_iff hentries hload (by decide)
  refine hiff.mpr ⟨⟨⟨"a", false⟩, by decide, by decide⟩, ?_⟩
  exact List.pairwise_of_forall fun _ _ => ⟨.matched, rfl⟩

/-- No picture in the directory has a face: the check does not end in time. -/
theorem check_of_landscape :
    loadFromDir twoPictures "old" = .ok [] ∧ ¬ComparesAllPairs twoPictures [] := by
  refine ⟨by decide, ?_⟩
  rintro ⟨rounds, compared, hleaves, hrounds, -⟩
  obtain ⟨hn, hcompared⟩ := hleaves.unique (check_of_no_faces twoPictures)
  obtain rfl := CheckEnd.finished.inj hcompared
  simp only [List.length_nil] at hrounds
  omega

end Seekira.Model.PersonHolder
