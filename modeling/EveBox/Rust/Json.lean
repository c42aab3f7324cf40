import EveBox.Rust.Text
import Mathlib.Data.Rat.Defs

/-!
# JSON values

`serde_json::Value`, as far as the models use it. `value[key] = v` panics where the value is neither an
object nor null; the operation is `none` then.
-/

namespace EveBox.Rust

/-- `serde_json::Number`: a float has its value and its text. -/
inductive Number
  | int (n : ℤ)
  | float (value : ℚ) (text : String)
deriving DecidableEq, Repr

/-- `Number::to_string`. -/
def Number.text : Number → String
  | .int n => toString n
  | .float _ text => text

/-- `serde_json::Value`. The fields of an object are in the order of their keys. -/
inductive Json
  | null
  | bool (b : Bool)
  | number (n : Number)
  | string (s : String)
  | array (elems : List Json)
  | object (fields : List (String × Json))
deriving Repr

namespace Json

/-! ## Equality -/

mutual

def beq : Json → Json → Bool
  | null, null => true
  | bool a, bool b => a == b
  | number a, number b => a == b
  | string a, string b => a == b
  | array a, array b => beqList a b
  | object a, object b => beqFields a b
  | _, _ => false

def beqList : List Json → List Json → Bool
  | [], [] => true
  | a :: as, b :: bs => beq a b && beqList as bs
  | _, _ => false

def beqFields : List (String × Json) → List (String × Json) → Bool
  | [], [] => true
  | (k, a) :: as, (l, b) :: bs => k == l && beq a b && beqFields as bs
  | _, _ => false

end

mutual

theorem beq_iff : ∀ a b : Json, beq a b = true ↔ a = b
  | null, b => by cases b <;> simp [beq]
  | bool a, b => by cases b <;> simp [beq]
  | number a, b => by cases b <;> simp [beq]
  | string a, b => by cases b <;> simp [beq]
  | array a, b => by
      cases b with
      | array b => simp [beq, beqList_iff a b]
      | _ => simp [beq]
  | object a, b => by
      cases b with
      | object b => simp [beq, beqFields_iff a b]
      | _ => simp [beq]

theorem beqList_iff : ∀ a b : List Json, beqList a b = true ↔ a = b
  | [], b => by cases b <;> simp [beqList]
  | a :: as, b => by
      cases b with
      | nil => simp [beqList]
      | cons b bs => simp [beqList, beq_iff a b, beqList_iff as bs]

theorem beqFields_iff : ∀ a b : List (String × Json), beqFields a b = true ↔ a = b
  | [], b => by cases b <;> simp [beqFields]
  | (k, a) :: as, b => by
      cases b with
      | nil => simp [beqFields]
      | cons b bs =>
          obtain ⟨l, b⟩ := b
          simp [beqFields, beq_iff a b, beqFields_iff as bs]

end

instance : DecidableEq Json := fun a b => decidable_of_iff (beq a b = true) (beq_iff a b)

/-! ## Access -/

/-- `value[key]`. -/
def get (key : String) : Json → Json
  | object fields => (fields.lookup key).getD null
  | _ => null

/-- The value below some keys. -/
def getPath (path : List String) (value : Json) : Json := path.foldl (fun value key => value.get key) value

/-- `Value::as_array`. -/
def asArray : Json → Option (List Json)
  | array elems => some elems
  | _ => none

/-- `Value::is_object`. -/
def isObject : Json → Bool
  | object _ => true
  | _ => false

/-- `Value::is_null`. -/
def isNull : Json → Bool
  | null => true
  | _ => false

/-- `Value::as_str`. -/
def asStr : Json → Option String
  | string s => some s
  | _ => none

/-- `Value::as_u64`. -/
def asU64 : Json → Option ℕ
  | number (.int n) => u64TryFrom n
  | _ => none

/-- `Map::insert`. -/
def insertField (key : String) (value : Json) : List (String × Json) → List (String × Json)
  | [] => [(key, value)]
  | (k, v) :: fields =>
      if k = key then (key, value) :: fields
      else if key < k then (key, value) :: (k, v) :: fields
      else (k, v) :: insertField key value fields

/-- `value[k₁][k₂]… = v`: what is null on the way becomes an object. -/
def setPath : Json → List String → Json → Option Json
  | _, [], value => some value
  | null, key :: keys, value => (setPath null keys value).map fun inner => object [(key, inner)]
  | object fields, key :: keys, value =>
      (setPath ((fields.lookup key).getD null) keys value).map fun inner =>
        object (insertField key inner fields)
  | _, _ :: _, _ => none
termination_by structural _ path => path

/-- `value[key] = v`. -/
def set (j : Json) (key : String) (value : Json) : Option Json := j.setPath [key] value

section

variable {key : String} {value : Json} {fields : List (String × Json)}

theorem lookup_insertField_self : (insertField key value fields).lookup key = some value := by
  induction fields with
  | nil => simp [insertField]
  | cons field fields ih =>
      obtain ⟨k, v⟩ := field
      unfold insertField
      split
      · simp
      · rename_i hk
        split
        · simp
        · rw [List.lookup_cons, beq_false_of_ne (Ne.symm hk)]
          exact ih

theorem lookup_insertField_ne {key' : String} (h : key' ≠ key) :
    (insertField key value fields).lookup key' = fields.lookup key' := by
  induction fields with
  | nil => simp [insertField, List.lookup_cons, beq_false_of_ne h]
  | cons field fields ih =>
      obtain ⟨k, v⟩ := field
      unfold insertField
      split
      · rename_i hk
        subst hk
        rw [List.lookup_cons, List.lookup_cons, beq_false_of_ne h]
      · split
        · rw [List.lookup_cons, beq_false_of_ne h]
        · rw [List.lookup_cons, List.lookup_cons, ih]

/-- Setting what is below a field leaves the other fields alone. -/
theorem get_setPath_ne {j j' : Json} {key' : String} {keys : List String}
    (h : j.setPath (key :: keys) value = some j') (hne : key' ≠ key) : j'.get key' = j.get key' := by
  cases j with
  | null =>
      obtain ⟨inner, -, rfl⟩ := Option.map_eq_some_iff.mp h
      simp [get, List.lookup_cons, beq_false_of_ne hne]
  | object fields =>
      obtain ⟨inner, -, rfl⟩ := Option.map_eq_some_iff.mp h
      exact congrArg (·.getD null) (lookup_insertField_ne hne)
  | _ => cases h

/-- What is below a field after something has been set there. -/
theorem get_setPath_self {j j' : Json} {keys : List String} (h : j.setPath (key :: keys) value = some j') :
    (j.get key).setPath keys value = some (j'.get key) := by
  cases j with
  | null =>
      obtain ⟨inner, hinner, rfl⟩ := Option.map_eq_some_iff.mp h
      simpa [get] using hinner
  | object fields =>
      obtain ⟨inner, hinner, rfl⟩ := Option.map_eq_some_iff.mp h
      have hget : (object (insertField key inner fields)).get key = inner :=
        congrArg (·.getD null) lookup_insertField_self
      rw [hget]
      exact hinner
  | _ => cases h

theorem get_set_self {j j' : Json} (h : j.set key value = some j') : j'.get key = value :=
  (Option.some.inj (get_setPath_self h)).symm

theorem getPath_cons {j : Json} {keys : List String} : j.getPath (key :: keys) = (j.get key).getPath keys := rfl

theorem getPath_setPath {path : List String} {j j' : Json} (h : j.setPath path value = some j') :
    j'.getPath path = value := by
  induction path generalizing j j' with
  | nil => exact (Option.some.inj h).symm
  | cons key keys ih => exact ih (get_setPath_self h)

/-- Something can be set below a field of an object or of null. -/
theorem exists_setPath {j inner : Json} {keys : List String} (hj : j = null ∨ j.isObject)
    (h : (j.get key).setPath keys value = some inner) : ∃ j', j.setPath (key :: keys) value = some j' := by
  rcases hj with rfl | hj
  · exact ⟨_, Option.map_eq_some_iff.mpr ⟨inner, h, rfl⟩⟩
  · cases j with
    | object fields => exact ⟨_, Option.map_eq_some_iff.mpr ⟨inner, h, rfl⟩⟩
    | _ => cases hj

theorem exists_set_of_isObject {j : Json} (h : j.isObject) : ∃ j', j.set key value = some j' :=
  exists_setPath (.inr h) rfl

theorem isObject_of_get_ne {j : Json} (h : j.get key ≠ null) : j.isObject := by
  cases j with
  | object fields => rfl
  | _ => exact absurd rfl h

theorem isObject_setPath {j j' : Json} {keys : List String} (h : j.setPath (key :: keys) value = some j') :
    j'.isObject := by
  cases j with
  | null =>
      obtain ⟨inner, -, rfl⟩ := Option.map_eq_some_iff.mp h
      rfl
  | object fields =>
      obtain ⟨inner, -, rfl⟩ := Option.map_eq_some_iff.mp h
      rfl
  | _ => cases h

end

/-! ## Texts -/

/-- A character of a string, as `serde_json` writes it. -/
def escapeChar (c : Char) : List Char :=
  if c = '"' then ['\\', '"']
  else if c = '\\' then ['\\', '\\']
  else if c = '\n' then ['\\', 'n']
  else if c = '\r' then ['\\', 'r']
  else if c = '\t' then ['\\', 't']
  else if c.toNat = 8 then ['\\', 'b']
  else if c.toNat = 12 then ['\\', 'f']
  else if c.toNat < 32 then
    ['\\', 'u', '0', '0', Nat.digitChar (c.toNat / 16), Nat.digitChar (c.toNat % 16)]
  else [c]

/-- A string, as `serde_json` writes it. -/
def quote (s : String) : List Char := '"' :: s.toList.flatMap escapeChar ++ ['"']

mutual

def chars : Json → List Char
  | null => "null".toList
  | bool b => if b then "true".toList else "false".toList
  | number n => n.text.toList
  | string s => quote s
  | array elems => '[' :: charsList elems ++ [']']
  | object fields => '{' :: charsFields fields ++ ['}']

def charsList : List Json → List Char
  | [] => []
  | [e] => chars e
  | e :: es => chars e ++ ',' :: charsList es

def charsFields : List (String × Json) → List Char
  | [] => []
  | [(k, v)] => quote k ++ ':' :: chars v
  | (k, v) :: fields => quote k ++ ':' :: chars v ++ ',' :: charsFields fields

end

/-- `Value::to_string`. -/
def text (j : Json) : String := String.ofList j.chars

end Json

end EveBox.Rust
