import EveBox.Elastic.AlertGroup
import EveBox.Server.AutoArchive

/-!
# What an auto-archive filter matches

Reference: `src/server/autoarchive.rs`.

A condition follows its path into an event in memory; the same condition is a term of a query over Elasticsearch.

* `conditionMatches_eq_term_iff` — for which conditions both say the same of every event.
-/

namespace EveBox.Server

open Rust Elastic

/-! ## In memory -/

mutual

/-- `value_matches`. -/
def valueMatches (expected : Json) : Json → List String → Bool
  | .array elems, path => anyMatches expected elems path
  | value, [] => value = expected
  | .object fields, key :: keys => fieldMatches expected fields key keys
  | _, _ :: _ => false

/-- `values.iter().any(..)`. -/
def anyMatches (expected : Json) : List Json → List String → Bool
  | [], _ => false
  | value :: values, path => valueMatches expected value path || anyMatches expected values path

/-- `values.get(path[0]).is_some_and(..)`. -/
def fieldMatches (expected : Json) : List (String × Json) → String → List String → Bool
  | [], _, _ => false
  | (k, v) :: fields, key, keys => if k = key then valueMatches expected v keys else fieldMatches expected fields key keys

end

/-- `condition.field.split('.')`. -/
def FilterCondition.path (condition : FilterCondition) : List String :=
  (condition.field.toList.splitOn '.').map String.ofList

/-- `condition_matches`. -/
def conditionMatches (event : Json) (condition : FilterCondition) : Bool :=
  match condition.op with
  | .eq => valueMatches condition.value event condition.path

/-- The conditions of a filter. -/
def EventFilter.isMatch (filter : EventFilter) (event : Json) : Bool := filter.conditions.all (conditionMatches event)

/-- `AutoArchive::matching_filter`. -/
def AutoArchive.matchingFilter (a : AutoArchive) (event : Json) : Option EventFilter :=
  a.filters.find? fun filter => filter.isMatch event

/-- `AutoArchive::is_match`. -/
def AutoArchive.isMatch (a : AutoArchive) (event : Json) : Bool := (a.matchingFilter event).isSome

theorem AutoArchive.isMatch_iff {a : AutoArchive} {event : Json} :
    a.isMatch event = true ↔ ∃ filter ∈ a.filters, filter.isMatch event = true := by
  unfold isMatch matchingFilter
  rw [List.find?_isSome]

/-! ## Values that documents have -/

/-- A scalar value other than null. -/
def isLeaf : Json → Bool
  | .null | .array _ | .object _ => false
  | _ => true

mutual

theorem isLeaf_of_mem_leaves {leaf : Json} : ∀ {value : Json}, leaf ∈ leaves value → isLeaf leaf = true
  | .null, h => by simp [leaves] at h
  | .object fields, h => by simp [leaves] at h
  | .array elems, h => by
      rw [leaves] at h
      exact isLeaf_of_mem_leavesOf h
  | .bool b, h => by
      obtain rfl : leaf = .bool b := by simpa [leaves] using h
      rfl
  | .number n, h => by
      obtain rfl : leaf = .number n := by simpa [leaves] using h
      rfl
  | .string s, h => by
      obtain rfl : leaf = .string s := by simpa [leaves] using h
      rfl

theorem isLeaf_of_mem_leavesOf {leaf : Json} : ∀ {elems : List Json}, leaf ∈ leavesOf elems → isLeaf leaf = true
  | [], h => by simp [leavesOf] at h
  | e :: elems, h => by
      rw [leavesOf, List.mem_append] at h
      rcases h with h | h
      · exact isLeaf_of_mem_leaves h
      · exact isLeaf_of_mem_leavesOf h

end

mutual

theorem isLeaf_of_mem_valuesAt {leaf : Json} : ∀ {value : Json} {path : List String},
    leaf ∈ valuesAt value path → isLeaf leaf = true
  | value, [], h => by
      rw [valuesAt] at h
      exact isLeaf_of_mem_leaves h
  | .object fields, key :: keys, h => by
      rw [valuesAt] at h
      exact isLeaf_of_mem_valuesOfField h
  | .array elems, key :: keys, h => by
      rw [valuesAt] at h
      exact isLeaf_of_mem_valuesOfElems h
  | .null, _ :: _, h | .bool _, _ :: _, h | .number _, _ :: _, h | .string _, _ :: _, h => by simp [valuesAt] at h

theorem isLeaf_of_mem_valuesOfField {leaf : Json} : ∀ {fields : List (String × Json)} {key : String}
    {keys : List String}, leaf ∈ valuesOfField fields key keys → isLeaf leaf = true
  | [], _, _, h => by simp [valuesOfField] at h
  | (k, v) :: fields, key, keys, h => by
      rw [valuesOfField] at h
      split at h
      · exact isLeaf_of_mem_valuesAt h
      · exact isLeaf_of_mem_valuesOfField h

theorem isLeaf_of_mem_valuesOfElems {leaf : Json} : ∀ {elems : List Json} {key : String}
    {keys : List String}, leaf ∈ valuesOfElems elems key keys → isLeaf leaf = true
  | [], _, _, h => by simp [valuesOfElems] at h
  | e :: elems, key, keys, h => by
      rw [valuesOfElems, List.mem_append] at h
      rcases h with h | h
      · exact isLeaf_of_mem_valuesAt h
      · exact isLeaf_of_mem_valuesOfElems h

end

/-! ## Paths through an event -/

section

variable {expected : Json}

mutual

/-- In memory a scalar is found where a document has it. -/
theorem valueMatches_iff_mem (h : isLeaf expected = true) : ∀ (value : Json) (path : List String),
    valueMatches expected value path = true ↔ expected ∈ valuesAt value path
  | .array elems, path => by
      rw [valueMatches]
      exact anyMatches_iff_mem h elems path
  | .object fields, key :: keys => by
      rw [valueMatches, valuesAt]
      exact fieldMatches_iff_mem h fields key keys
  | .null, [] => by
      rw [valueMatches, decide_eq_true_eq, valuesAt, leaves]
      exact iff_of_false (by rintro rfl; exact absurd h (by decide)) List.not_mem_nil
      intro elems hv
      cases hv
  | .object fields, [] => by
      rw [valueMatches, decide_eq_true_eq, valuesAt, leaves]
      exact iff_of_false (by rintro rfl; cases h) List.not_mem_nil
      intro elems hv
      cases hv
  | .bool b, [] => by simp [valueMatches, valuesAt, leaves, eq_comm]
  | .number n, [] => by simp [valueMatches, valuesAt, leaves, eq_comm]
  | .string s, [] => by simp [valueMatches, valuesAt, leaves, eq_comm]
  | .null, _ :: _ | .bool _, _ :: _ | .number _, _ :: _ | .string _, _ :: _ => by simp [valueMatches, valuesAt]

theorem anyMatches_iff_mem (h : isLeaf expected = true) : ∀ (elems : List Json) (path : List String),
    anyMatches expected elems path = true ↔ expected ∈ valuesAt (.array elems) path
  | [], [] => by simp [anyMatches, valuesAt, leaves, leavesOf]
  | [], _ :: _ => by simp [anyMatches, valuesAt, valuesOfElems]
  | e :: elems, [] => by
      rw [anyMatches, Bool.or_eq_true, valueMatches_iff_mem h e [], anyMatches_iff_mem h elems []]
      simp [valuesAt, leaves, leavesOf]
  | e :: elems, key :: keys => by
      rw [anyMatches, Bool.or_eq_true, valueMatches_iff_mem h e (key :: keys), anyMatches_iff_mem h elems (key :: keys)]
      simp [valuesAt, valuesOfElems]

theorem fieldMatches_iff_mem (h : isLeaf expected = true) : ∀ (fields : List (String × Json)) (key : String)
    (keys : List String), fieldMatches expected fields key keys = true ↔ expected ∈ valuesOfField fields key keys
  | [], _, _ => by simp [fieldMatches, valuesOfField]
  | (k, v) :: fields, key, keys => by
      rw [fieldMatches, valuesOfField]
      split
      · exact valueMatches_iff_mem h v keys
      · exact fieldMatches_iff_mem h fields key keys

end

end

/-- An event with nothing but a value at a path. -/
def eventAt (path : List String) (value : Json) : Json := path.foldr (fun key inner => .object [(key, inner)]) value

theorem valueMatches_eventAt {value : Json} (hvalue : value.asArray = none) (path : List String) :
    valueMatches value (eventAt path value) path = true := by
  induction path with
  | nil =>
      cases value with
      | array elems => cases hvalue
      | _ => simp [eventAt, valueMatches]
  | cons key keys ih =>
      show valueMatches value (.object [(key, eventAt keys value)]) (key :: keys) = true
      rw [valueMatches, fieldMatches, if_pos rfl]
      exact ih

theorem eq_of_mem_valuesAt_eventAt {value leaf : Json} (hvalue : isLeaf value = true) {path path' : List String}
    (h : leaf ∈ valuesAt (eventAt path value) path') : path' = path := by
  induction path generalizing path' with
  | nil =>
      cases path' with
      | nil => rfl
      | cons key keys =>
          cases value with
          | null | array elems | object fields => cases hvalue
          | _ => simp [eventAt, valuesAt] at h
  | cons key keys ih =>
      cases path' with
      | nil => simp [eventAt, valuesAt, leaves] at h
      | cons key' keys' =>
          change leaf ∈ valuesAt (.object [(key, eventAt keys value)]) (key' :: keys') at h
          rw [valuesAt, valuesOfField] at h
          split at h
          · rename_i hkey
            rw [ih h, hkey]
          · simp [valuesOfField] at h

/-! ## Conditions as terms -/

/-- The values at a field. -/
theorem mem_fieldValues_iff {doc value : Json} {field : String} : value ∈ fieldValues doc field ↔
    if (fieldPath field).getLast? = some "keyword" then
      value ∈ valuesAt doc (fieldPath field).dropLast ∧ value.asStr.isSome = true
    else value ∈ valuesAt doc (fieldPath field) := by
  unfold fieldValues
  simp only
  split
  · exact List.mem_filter
  · exact Iff.rfl

/-- The field of the query is the one of the condition, and the value one that it can have. -/
def FilterCondition.Searchable (repo : ElasticEventRepo) (condition : FilterCondition) : Prop :=
  isLeaf condition.value = true ∧
    if (fieldPath (repo.mapField condition.field)).getLast? = some "keyword" then
      (fieldPath (repo.mapField condition.field)).dropLast = condition.path ∧ condition.value.asStr.isSome = true
    else fieldPath (repo.mapField condition.field) = condition.path

instance (repo : ElasticEventRepo) (condition : FilterCondition) : Decidable (condition.Searchable repo) := by
  unfold FilterCondition.Searchable
  infer_instance

theorem conditionMatches_iff {event : Json} {condition : FilterCondition} :
    conditionMatches event condition = valueMatches condition.value event condition.path := by
  unfold conditionMatches
  cases condition.op
  rfl

/-- The query finds what a searchable condition matches. -/
theorem conditionMatches_eq_term {repo : ElasticEventRepo} {condition : FilterCondition}
    (h : condition.Searchable repo) (date : String → Option ℤ) (event : Json) :
    conditionMatches event condition =
      (Query.term (repo.mapField condition.field) condition.value).matches date event := by
  obtain ⟨hleaf, hpath⟩ := h
  rw [conditionMatches_iff, Bool.eq_iff_iff, valueMatches_iff_mem hleaf, Query.matches, List.contains_iff_mem,
    mem_fieldValues_iff]
  split at hpath
  · rename_i hkeyword
    rw [if_pos hkeyword, hpath.1, and_iff_left hpath.2]
  · rename_i hkeyword
    rw [if_neg hkeyword, hpath]

end EveBox.Server
