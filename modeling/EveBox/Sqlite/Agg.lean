import EveBox.Lib.Frequency
import EveBox.Sqlite.Search

/-!
# The aggregations over SQLite

Reference: `src/sqlite/eventrepo/agg.rs`.

The order of rows with equal counts is up to SQLite in `agg` and to a `HashMap` in `agg_stream`, so what these return is
a relation.
-/

namespace EveBox.Sqlite

open Rust Eve Repo SqlText

open EventQueryBuilder (startsWith)

/-! ## Statements -/

/-- The name of a DNS request, in the first of its queries or by itself. -/
def coa : SqlText := lit "coalesce(source->>'dns'->>'queries'->>0->>'rrname', source->>'dns'->>'rrname')"

/-- `json_extract` of a field. -/
def extractSql (field : String) : SqlText := lit "json_extract(events.source, '$." ++ user field.toList ++ lit "')"

/-- The columns of the rows in `agg`. -/
def aggColumns (field : String) : List SqlText :=
  if field = "dns.rrname" then [lit "count(" ++ coa ++ lit ") as count", coa ++ lit " as agg"]
  else [lit "count(" ++ extractSql field ++ lit ") as count", lit "CAST(" ++ extractSql field ++ lit " AS TEXT) as agg"]

/-- The columns of the rows in `agg_stream`. -/
def aggStreamColumns (field : String) : List SqlText :=
  [lit "timestamp",
    if field = "dns.rrname" then coa ++ lit " as agg" else lit "CAST(" ++ extractSql field ++ lit " AS TEXT) as agg"]

/-- The kind of event that a field is of, if its name says it. -/
def eventTypeOf (field : String) : Option String :=
  if startsWith field "alert." then some "alert" else if startsWith field "dns." then some "dns" else none

/-- Some internal optimizing: the clause of the kind of event. -/
def EventQueryBuilder.whereKind (b : EventQueryBuilder) (field : String) : EventQueryBuilder :=
  match eventTypeOf field with
  | some eventType => b.pushWhere (lit "json_extract(events.source, '$.event_type') = '" ++ lit eventType ++ lit "'")
  | none => b

/-- The builder in `agg`, before `build`. -/
def aggBuilder (fts : Bool) (field : String) (size : ℕ) (order : String) (query : List QueryElement) :
    Option EventQueryBuilder :=
  let b : EventQueryBuilder :=
    { fts, select := aggColumns field, tables := [lit "events"], groupBy := [lit "agg"],
      orderBy := some (lit "count", user order.toList), limit := asI64 size }
  (b.whereKind field).applyQueryString query

/-- The builder in `agg_stream`, before `build`. -/
def aggStreamBuilder (fts : Bool) (field : String) (query : List QueryElement) : Option EventQueryBuilder :=
  let b : EventQueryBuilder :=
    { fts, select := aggStreamColumns field, tables := [lit "events"], orderBy := some (lit "timestamp", lit "desc") }
  ((b.pushWhere (lit "agg IS NOT NULL")).applyQueryString query).map fun b => b.whereKind field

/-- The builder in `get_event_types`, before `build`. -/
def eventTypesBuilder (fts : Bool) (query : List QueryElement) : Option EventQueryBuilder :=
  let b : EventQueryBuilder :=
    { fts, select := [lit "distinct json_extract(events.source, '$.event_type')"], tables := [lit "events"] }
  b.applyQueryString query

/-! ## What they mean -/

/-- The functions of SQLite that the aggregations use, too. -/
structure AggEngine extends Engine where
  /-- `->>` with a number: an element of an array. -/
  element : SqlValue → ℕ → SqlValue
  /-- `CAST(… AS TEXT)` of a value that is not null. -/
  cast : SqlValue → String
  /-- Whether an order is ascending, by the text that is put behind `order by count`. -/
  ascending : String → Bool

namespace AggEngine

variable (engine : AggEngine)

/-- `CAST(… AS TEXT)`. -/
def castText (value : SqlValue) : SqlValue := if value = .null then .null else .text (engine.cast value)

/-- `coalesce`. -/
def coalesce (a b : SqlValue) : SqlValue := if a = .null then b else a

/-- The name of a DNS request. -/
def rrname (e : EventRow) : SqlValue :=
  let dns := engine.member (.text e.source.text) "dns"
  coalesce (engine.member (engine.element (engine.member dns "queries") 0) "rrname") (engine.member dns "rrname")

/-- What is counted. -/
def counted (field : String) (e : EventRow) : SqlValue :=
  if field = "dns.rrname" then engine.rrname e else engine.extract e.source field

/-- The value that is called `agg`. -/
def shown (field : String) (e : EventRow) : SqlValue :=
  if field = "dns.rrname" then engine.rrname e else engine.castText (engine.extract e.source field)

end AggEngine

/-- What the statements say of events. There are no joins in them. -/
def aggSearch (fts : Bool) (field : String) (query : List QueryElement) : Option Search :=
  let kind := (eventTypeOf field).toList.map fun s => Condition.compare .eq (.extract (lit "event_type")) (.literal s)
  (query.mapM (term fts)).map fun terms =>
    ⟨[], kind ++ terms.flatMap (·.conditions), terms.flatMap (·.phrases)⟩

/-- The statement of `agg`, if it runs. -/
def aggStatement (engine : AggEngine) (fts : Bool) (field : String) (size : ℕ) (order : String)
    (query : List QueryElement) : Option Search := do
  let b ← aggBuilder fts field size order query
  let s ← aggSearch fts field query
  if SqlTokens.enclosed field.toList && s.conditions.all Condition.encloses && engine.runs b.build then some s else none

/-- The statement of `agg_stream`, if it runs. -/
def aggStreamStatement (engine : AggEngine) (fts : Bool) (field : String) (query : List QueryElement) : Option Search := do
  let b ← aggStreamBuilder fts field query
  let s ← aggSearch fts field query
  if SqlTokens.enclosed field.toList && s.conditions.all Condition.encloses && engine.runs b.build then some s else none

/-! ### `agg` -/

/-- A row of `agg`: what it counts and what it shows. -/
structure AggRow where
  counted : SqlValue
  shown : SqlValue
deriving DecidableEq

/-- `group by agg`, with the count of each group. -/
def groups (rows : List AggRow) : List (SqlValue × ℕ) :=
  (rows.map (·.shown.norm)).dedup.map fun value =>
    (value, (rows.filter fun row => row.shown.norm = value).countP fun row => row.counted ≠ .null)

/-- `limit`, which is left out if it is not positive. -/
def limited {α : Type*} (limit : ℤ) (rows : List α) : List α := if 0 < limit then rows.take limit.toNat else rows

/-- The loop over the rows in `agg`; `none` is an error. -/
def readGroups : List (SqlValue × ℕ) → Option (List (String × ℕ))
  | [] => some []
  | (value, count) :: rest =>
      if 0 < count then do
        let key ← value.getString
        let rows ← readGroups rest
        some ((key, count) :: rows)
      else readGroups rest

/-- What `agg` returns of the rows of its statement; `none` is an error. -/
def Aggregates (engine : AggEngine) (size : ℕ) (order : String) (rows : List AggRow)
    (result : Option (List (String × ℕ))) : Prop :=
  ∃ sorted, sorted.Perm (groups rows) ∧ Frequency.Arranged (engine.ascending order) sorted ∧
    result = readGroups (limited (asI64 size) sorted)

/-! ### `agg_stream` -/

/-- What happens behind a row: nothing, an update is sent, or there is nobody any more to send it to. -/
inductive Tick
  | early
  | sent
  | refused
deriving DecidableEq, Repr

/-- The loop over the rows in `agg_stream`: the table of counts, or nothing if the client is gone; `none` is an error. -/
def countRows : List (String × ℕ) → List (SqlValue × Tick) → Option (Option (List (String × ℕ)))
  | results, [] => some (some results)
  | results, (value, tick) :: rest => do
      let key ← value.getString
      if tick = .refused then some none else countRows (Frequency.bump results key) rest

/-- What `agg_stream` returns of the rows of its statement; `none` is an error. -/
def Streams (size : ℕ) (order : String) (rows : List (SqlValue × Tick)) (result : Option (List (String × ℕ))) : Prop :=
  match countRows [] rows with
  | none => result = none
  | some none => result = some []
  | some (some results) => ∃ sorted, sorted.Perm results ∧ Frequency.Arranged (order = "asc") sorted ∧
      result = some (sorted.take size)

/-! ### Over a store -/

section

variable (engine : AggEngine) (s : Search) (field : String) (store : List EventRow)

/-- The events of the statement. -/
def matching : List EventRow := store.filter (s.selects engine.toEngine)

/-- The rows of `agg`. -/
def aggRows : List AggRow := (matching engine s store).map fun e => ⟨engine.counted field e, engine.shown field e⟩

/-- The rows of `agg_stream`, the latest first. -/
structure StreamRows (rows : List (SqlValue × Tick)) : Prop where
  events : ∃ events : List EventRow, events.Perm ((matching engine s store).filter fun e => engine.shown field e ≠ .null) ∧
    events.Pairwise (fun a b => b.timestamp ≤ a.timestamp) ∧ rows.map (·.1) = events.map (engine.shown field)
  /-- The run is not given up. -/
  toEnd : ∀ row ∈ rows, row.2 ≠ .refused

/-- The values of the field that are there. -/
def fieldValues : List SqlValue := ((matching engine s store).map (engine.shown field)).filter (· ≠ .null)

end

/-- The rows of the most frequent values, or, ascending, of the least frequent ones. -/
def TopRows (order : String) (size : ℕ) (values : List SqlValue) (rows : List (String × ℕ)) : Prop :=
  Frequency.IsFrequent (order = "asc") size values (rows.map fun row => (.text row.1, row.2))

/-- Whatever `agg` and `agg_stream` return, it is the rows of the most, or least, frequent values. -/
def AggregationsAgree (engine : AggEngine) (s s' : Search) (field : String) (size : ℕ) (order : String)
    (store : List EventRow) : Prop :=
  (∀ result, Aggregates engine size order (aggRows engine s field store) result →
    ∃ rows, result = some rows ∧ TopRows order size (fieldValues engine s field store) rows) ∧
  ∀ stream result, StreamRows engine s' field store stream → Streams size order stream result →
    ∃ rows, result = some rows ∧ TopRows order size (fieldValues engine s field store) rows

/-- When they do. -/
structure Agreeable (ascending : Bool) (order : String) (size : ℕ) (shown : List SqlValue) : Prop where
  texts : ∀ value ∈ shown, value ≠ .null → ∃ text, value = .text text
  /-- SQLite reads the order as `agg_stream` does, or there is but one count. -/
  direction : ascending = decide (order = "asc") ∨
    ∀ v ∈ shown.filter (· ≠ .null), ∀ w ∈ shown.filter (· ≠ .null),
      (shown.filter (· ≠ .null)).count v = (shown.filter (· ≠ .null)).count w
  /-- With a limit, the events without the field do not take the place of a value; without one, there are not more
  values than asked for. -/
  limit : if 0 < asI64 size then ascending = true → .null ∈ shown → (shown.filter (· ≠ .null)).dedup.length < size
    else (shown.filter (· ≠ .null)).dedup.length ≤ size

end EveBox.Sqlite
