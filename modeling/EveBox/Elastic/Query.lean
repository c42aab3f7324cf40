import EveBox.Rust.Json

/-!
# The queries of Elasticsearch

The part of the query language that the operations on groups use, as its documentation has it: a document has a
list of values at a field, with arrays opened; a term is one of them, and a field exists if there is one. A name
that ends in `.keyword` means the strings at the field before it. `date` is how a mapping of type `date` reads a
text.
-/

namespace EveBox.Elastic

open Rust

/-! ## Values of a document -/

mutual

/-- The scalar values that a value holds. -/
def leaves : Json → List Json
  | .null => []
  | .object _ => []
  | .array elems => leavesOf elems
  | value => [value]

def leavesOf : List Json → List Json
  | [] => []
  | e :: elems => leaves e ++ leavesOf elems

end

mutual

/-- The values below some keys. -/
def valuesAt : Json → List String → List Json
  | value, [] => leaves value
  | .object fields, key :: keys => valuesOfField fields key keys
  | .array elems, key :: keys => valuesOfElems elems key keys
  | _, _ :: _ => []

def valuesOfField : List (String × Json) → String → List String → List Json
  | [], _, _ => []
  | (k, v) :: fields, key, keys => if k = key then valuesAt v keys else valuesOfField fields key keys

def valuesOfElems : List Json → String → List String → List Json
  | [], _, _ => []
  | e :: elems, key, keys => valuesAt e (key :: keys) ++ valuesOfElems elems key keys

end

/-- The keys of a field. -/
def fieldPath (field : String) : List String := (field.toList.splitOn '.').map String.ofList

/-- The values at a field. -/
def fieldValues (doc : Json) (field : String) : List Json :=
  let path := fieldPath field
  if path.getLast? = some "keyword" then (valuesAt doc path.dropLast).filter fun value => value.asStr.isSome
  else valuesAt doc path

/-! ## Queries -/

/-- A clause of a query. -/
inductive Query
  | exists_ (field : String)
  | term (field : String) (value : Json)
  | range (field : String) (gte lte : String)
  /-- `{"bool": {"must_not": query}}`. -/
  | mustNot (query : Query)
deriving DecidableEq, Repr

/-- `{"bool": {"filter": [..], "must_not": [..]}}`. -/
structure BoolQuery where
  filter : List Query
  mustNot : List Query
deriving DecidableEq, Repr

section

variable (date : String → Option ℤ)

/-- A value of a date field is in a range. -/
def dateInRange (gte lte : String) (value : Json) : Bool :=
  match value.asStr.bind date, date gte, date lte with
  | some time, some low, some high => low ≤ time && time ≤ high
  | _, _, _ => false

/-- Whether a document matches a clause. A range whose ends are not dates fails the request, so that nothing
matches. -/
def Query.matches (doc : Json) : Query → Bool
  | exists_ field => fieldValues doc field ≠ []
  | term field value => (fieldValues doc field).contains value
  | range field gte lte => (fieldValues doc field).any (dateInRange date gte lte)
  | mustNot query => !query.matches doc

/-- Whether a document matches a query. -/
def BoolQuery.matches (query : BoolQuery) (doc : Json) : Bool :=
  query.filter.all (·.matches date doc) && query.mustNot.all (!·.matches date doc)

/-- `_update_by_query`, with the number of the documents; no other request changes them meanwhile. It is `none` if the
script fails on a document, where the request is given up. -/
def updateByQuery (docs : List Json) (query : BoolQuery) (script : Json → Option Json) : Option (ℕ × List Json) :=
  (docs.mapM fun doc => if query.matches date doc then script doc else some doc).map fun docs' =>
    (docs.countP (query.matches date), docs')

end

end EveBox.Elastic
