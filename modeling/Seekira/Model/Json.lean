import Mathlib.Algebra.Order.Field.Rat
import Mathlib.Tactic.Common

/-!
# JSON values

The functions of `json_utils` over Poco's objects.  A value carries its C++ type: a read of the same
type gives it back, and what Poco makes of a value of another type is a parameter.  Numbers are
integers and rationals.
-/

set_option autoImplicit false

namespace Seekira.Model

/-- SOURCE: core/base/types/point2d.hpp:9-23; point2d.cpp:9 -/
structure Point2D where
  x : Int := -2147483648
  y : Int := -2147483648
  deriving DecidableEq, Repr

/-- `Poco::Dynamic::Var`, with the types that are put into one.
SOURCE: core/base/json/json_types.hpp:9-18 -/
inductive VarJSON where
  | empty
  | string (value : String)
  | bool (value : Bool)
  | int (value : Int)
  | int64 (value : Int)
  | uint64 (value : Nat)
  | double (value : ℚ)
  | point2D (value : Point2D)
  | object (values : List (String × VarJSON))
  | array (items : List VarJSON)

/-- An object that a non-null pointer leads to; where a key occurs again, its first value counts. -/
abbrev ObjectJSON := List (String × VarJSON)

abbrev ArrayJSON := List VarJSON

/-- What Poco makes of a value of another type, and the texts of its exceptions. -/
structure Poco where
  toString : VarJSON → Except String String
  toInt : VarJSON → Except String Int
  toInt64 : VarJSON → Except String Int
  toUInt64 : VarJSON → Except String Nat
  toDouble : VarJSON → Except String ℚ
  invalidAccess : String
  badCast : String

/-- A C++ type as `Var` knows it. -/
structure HeldType (α : Type) where
  hold : α → VarJSON
  /-- the value, where it has this very type -/
  extract : VarJSON → Option α
  /-- what a value of another type is converted to -/
  other : Poco → VarJSON → Except String α
  extract_hold : ∀ value, extract (hold value) = some value

namespace HeldType

attribute [simp] extract_hold

def string : HeldType String where
  hold := .string
  extract | .string value => some value | _ => none
  other := Poco.toString
  extract_hold _ := rfl

def int : HeldType Int where
  hold := .int
  extract | .int value => some value | _ => none
  other := Poco.toInt
  extract_hold _ := rfl

/-- `TimeType` and the `rep` of `Seconds`. -/
def timeType : HeldType Int where
  hold := .int64
  extract | .int64 value => some value | _ => none
  other := Poco.toInt64
  extract_hold _ := rfl

def sizeT : HeldType Nat where
  hold := .uint64
  extract | .uint64 value => some value | _ => none
  other := Poco.toUInt64
  extract_hold _ := rfl

def double : HeldType ℚ where
  hold := .double
  extract | .double value => some value | _ => none
  other := Poco.toDouble
  extract_hold _ := rfl

def point2D : HeldType Point2D where
  hold := .point2D
  extract | .point2D value => some value | _ => none
  other p _ := .error p.badCast
  extract_hold _ := rfl

def object : HeldType ObjectJSON where
  hold := .object
  extract | .object values => some values | _ => none
  other p _ := .error p.badCast
  extract_hold _ := rfl

def array : HeldType ArrayJSON where
  hold := .array
  extract | .array items => some items | _ => none
  other p _ := .error p.badCast
  extract_hold _ := rfl

end HeldType

/-- What is thrown while a value is read. -/
inductive LoadError where
  | missingKey (key : String)
  | unreadable (what key : String)
  | missingObject (key : String)
  | unreadableItem (what : String)
  deriving DecidableEq, Repr

/-- SOURCE: core/base/json/json_utils.hpp:64, 72, 156; json_utils.cpp:27 -/
def LoadError.text : LoadError → String
  | .missingKey key =>
    "Assertion `container->has(key)` failed. Explanation: Key '" ++ key ++ "' doesn't exist"
  | .unreadable what key => "POCO's getValue failed with '" ++ what ++ "' for key: " ++ key
  | .missingObject key => "Assertion `object` failed. Explanation: " ++
    "Container passed doesn't have an object for key '" ++ key ++ "'"
  | .unreadableItem what => "Iterating over a json array failed with '" ++ what ++ "'"

namespace Json

variable {α : Type}

/-! ## Writing -/

/-- SOURCE: core/base/json/json_utils.hpp:31-36 -/
def set (t : HeldType α) (container : ObjectJSON) (key : String) (value : α) : ObjectJSON :=
  (key, t.hold value) :: container.filter fun entry => entry.1 ≠ key

/-- SOURCE: core/base/json/json_utils.hpp:41-48 -/
def setOpt (t : HeldType α) (container : ObjectJSON) (key : String) : Option α → ObjectJSON
  | none => container
  | some value => set t container key value

/-- SOURCE: core/base/json/json_utils.hpp:50-55 -/
def add (t : HeldType α) (container : ArrayJSON) (value : α) : ArrayJSON :=
  container ++ [t.hold value]

/-! ## Reading -/

/-- `Var::convert`. -/
def convert (p : Poco) (t : HeldType α) (value : VarJSON) : Except String α :=
  match t.extract value, value with
  | some found, _ => .ok found
  | none, .empty => .error p.invalidAccess
  | none, _ => t.other p value

/-- SOURCE: core/base/json/json_utils.hpp:60-74 -/
def get (p : Poco) (t : HeldType α) (container : ObjectJSON) (key : String) :
    Except LoadError α :=
  match container.lookup key with
  | none => .error (.missingKey key)
  | some value => (convert p t value).mapError fun what => .unreadable what key

/-- `get` with a default, which stands in for a value that cannot be read.
SOURCE: core/base/json/json_utils.hpp:79-84 -/
def getDefault (p : Poco) (t : HeldType α) (container : ObjectJSON) (key : String) (default : α) :
    α :=
  match container.lookup key with
  | none => default
  | some value => (convert p t value).toOption.getD default

/-- SOURCE: core/base/json/json_utils.hpp:90-102 -/
def getOpt (p : Poco) (t : HeldType α) (container : ObjectJSON) (key : String) : Option α :=
  (container.lookup key).bind fun value => (convert p t value).toOption

/-- SOURCE: core/base/json/json_utils.cpp:19 -/
def optObject (container : ObjectJSON) (key : String) : Option ObjectJSON :=
  (container.lookup key).bind HeldType.object.extract

/-- SOURCE: core/base/json/json_utils.cpp:21 -/
def optArray (container : ObjectJSON) (key : String) : Option ArrayJSON :=
  (container.lookup key).bind HeldType.array.extract

/-- SOURCE: core/base/json/json_utils.cpp:23-29 -/
def getObject (container : ObjectJSON) (key : String) : Except LoadError ObjectJSON :=
  match optObject container key with
  | none => .error (.missingObject key)
  | some object => .ok object

/-- What `for_each_in_array` makes of an item before it calls the function with it.
SOURCE: core/base/json/json_utils.hpp:148-157 -/
def item (p : Poco) (t : HeldType α) (value : VarJSON) : Except LoadError α :=
  match t.extract value, value with
  | some found, _ => .ok found
  | none, .empty => .error (.unreadableItem p.invalidAccess)
  | none, _ => .error (.unreadableItem p.badCast)

/-! ## Errors -/

/-- What is thrown for a key names it. -/
theorem get_error {p : Poco} {t : HeldType α} {container : ObjectJSON} {key : String} {e : LoadError}
    (h : get p t container key = .error e) : ∃ front back, e.text = front ++ key ++ back := by
  unfold get at h
  split at h
  · cases h
    exact ⟨_, _, rfl⟩
  · rename_i value _
    cases hvalue : convert p t value with
    | ok found =>
      rw [hvalue] at h
      cases h
    | error what =>
      rw [hvalue] at h
      cases h
      exact ⟨_, "", (String.append_empty).symm⟩

/-- The error names the key that was asked for. -/
theorem getObject_error {container : ObjectJSON} {key : String} {e : LoadError}
    (h : getObject container key = .error e) : ∃ front back, e.text = front ++ key ++ back := by
  unfold getObject at h
  split at h
  · cases h
    refine ⟨"Assertion `object` failed. Explanation: " ++
      "Container passed doesn't have an object for key '", "'", ?_⟩
    rfl
  · cases h

/-! ## Reading what was written -/

@[simp] theorem lookup_set (t : HeldType α) (container : ObjectJSON) (key key' : String)
    (value : α) : (set t container key value).lookup key' =
      if key' = key then some (t.hold value) else container.lookup key' := by
  unfold set
  by_cases hkey : key' = key
  · subst hkey
    rw [if_pos rfl, List.lookup_cons_self]
  · have hskip (entries : ObjectJSON) (value : VarJSON) :
        ((key, value) :: entries).lookup key' = entries.lookup key' := by
      have hne : (key' == key) = false := by simpa using hkey
      rw [List.lookup_cons, hne]
    rw [if_neg hkey, hskip]
    induction container with
    | nil => rfl
    | cons entry rest ih =>
      obtain ⟨other, held⟩ := entry
      by_cases hother : other = key
      · subst hother
        rw [List.filter_cons_of_neg (by simp), ih, hskip]
      · rw [List.filter_cons_of_pos (by simpa using hother), List.lookup_cons, List.lookup_cons, ih]

@[simp] theorem lookup_setOpt (t : HeldType α) (container : ObjectJSON) (key key' : String)
    (value : Option α) : (setOpt t container key value).lookup key' =
      if key' = key then (value.map t.hold).or (container.lookup key')
      else container.lookup key' := by
  cases value with
  | none => simp [setOpt]
  | some value =>
    simp only [setOpt, lookup_set, Option.map_some, Option.some_or]

@[simp] theorem convert_hold (p : Poco) (t : HeldType α) (value : α) :
    convert p t (t.hold value) = .ok value := by
  unfold convert
  rw [t.extract_hold]

/-- What is present was written, and is found. -/
@[simp] theorem bind_extract (t : HeldType α) (value : Option α) :
    (value.map t.hold).bind t.extract = value := by
  cases value with
  | none => rfl
  | some value => exact t.extract_hold value

@[simp] theorem bind_convert (p : Poco) (t : HeldType α) (value : Option α) :
    ((value.map t.hold).bind fun held => (convert p t held).toOption) = value := by
  cases value with
  | none => rfl
  | some value =>
    rw [Option.map_some, Option.bind_some, convert_hold]
    rfl

@[simp] theorem get_set (p : Poco) (t : HeldType α) (container : ObjectJSON) (key : String)
    (value : α) : get p t (set t container key value) key = .ok value := by
  unfold get
  rw [lookup_set, if_pos rfl]
  simp only [convert_hold]
  rfl

@[simp] theorem get_set_of_ne {β : Type} (p : Poco) (t : HeldType α) (t' : HeldType β)
    (container : ObjectJSON) {key key' : String} (hkey : key' ≠ key) (value : β) :
    get p t (set t' container key value) key' = get p t container key' := by
  unfold get
  rw [lookup_set, if_neg hkey]

@[simp] theorem item_hold (p : Poco) (t : HeldType α) (value : α) :
    item p t (t.hold value) = .ok value := by
  unfold item
  rw [t.extract_hold]

end Json

end Seekira.Model
