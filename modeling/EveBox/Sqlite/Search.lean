import EveBox.Lib.Kleene
import EveBox.Sqlite.AlertGroup
import EveBox.Sqlite.Builder

/-!
# The search for events over SQLite

Reference: `src/sqlite/eventrepo/events.rs` and, of `src/eventrepo/mod.rs`, `EventQueryParams`.

The statement of a search is there twice: as the text that the builder makes, and as the conditions that SQLite
reads in this text. The functions of SQLite are the parameter `Engine`; that conditions over missing values are
neither true nor false is not.
-/

namespace EveBox.Sqlite

open Rust Eve Repo SqlText

/-- `EventQueryParams`. -/
structure EventQueryParams where
  order : Option String := none
  fromTime : Option DateTime := none
  toTime : Option DateTime := none
  eventType : Option String := none
  sensor : Option String := none
  size : Option ℕ := none
  queryString : List QueryElement
deriving DecidableEq, Repr

/-! ## The text -/

namespace EventQueryBuilder

/-- `if let Some(event_type)`. -/
def whereEventType (b : EventQueryBuilder) : Option String → EventQueryBuilder
  | some eventType => b.whereArg "json_extract(events.source, '$.event_type') = " (.text eventType)
  | none => b

/-- `if let Some(sensor)`. -/
def whereSensor (b : EventQueryBuilder) : Option String → EventQueryBuilder
  | some sensor =>
      if sensor = "(no-name)" then b.pushWhere (lit "json_extract(events.source, '$.host') IS NULL")
      else b.wherejs "host" "=" (.text sensor)
  | none => b

/-- `if let Some(dt)`. -/
def whereTime (f : EventQueryBuilder → DateTime → Option EventQueryBuilder) (b : EventQueryBuilder) :
    Option DateTime → Option EventQueryBuilder
  | some ts => f b ts
  | none => some b

end EventQueryBuilder

/-- The columns of the rows. -/
def eventColumns : List SqlText :=
  ["DISTINCT(events.rowid) AS id", "events.archived AS archived", "events.escalated AS escalated",
    "events.source AS source"].map lit

/-- The builder in `events`, before `build`. -/
def eventsBuilder (fts : Bool) (q : EventQueryParams) : Option EventQueryBuilder := do
  let b : EventQueryBuilder := { fts, select := eventColumns, tables := [lit "events"] }
  let b := b.leftJoinFromQueryString q.queryString
  let b := { b with limit := asI64 (q.size.getD 500) }
  let b := (b.whereEventType q.eventType).whereSensor q.sensor
  let b ← b.whereTime EventQueryBuilder.timestampLte q.toTime
  let b ← b.whereTime EventQueryBuilder.timestampGte q.fromTime
  let b ← b.applyQueryString q.queryString
  some { b with orderBy := some (lit "events.timestamp", (q.order.map fun o => user o.toList).getD (lit "DESC")) }

/-! ## What is read in it -/

/-- The columns that conditions name. -/
inductive Column
  | source
  | timestamp
  | archived
  | escalated
  /-- `_dns_queries.value`. -/
  | query
  /-- `_dns_answers.value`. -/
  | answer
deriving DecidableEq, Repr

inductive Operand
  | column (name : Column)
  /-- `json_extract(events.source, '$.…')`. -/
  | extract (path : SqlText)
  /-- `… ->> '…'`. -/
  | member (of : Operand) (name : SqlText)
  | literal (s : String)
  | arg (value : Arg)
deriving DecidableEq, Repr

inductive Comparison
  | eq
  | ne
  | ge
  | gt
  | le
  | lt
deriving DecidableEq, Repr

inductive Condition
  | compare (op : Comparison) (a b : Operand)
  | like (a b : Operand)
  | notLike (a b : Operand)
  | glob (a b : Operand)
  | isNull (a : Operand)
  | or (a b : Condition)
deriving DecidableEq, Repr

/-- The tables that are joined. -/
inductive Join
  | queries
  | answers
deriving DecidableEq, Repr

/-- What the statement of a search says of events. -/
structure Search where
  joins : List Join := []
  conditions : List Condition := []
  phrases : List String := []
deriving DecidableEq, Repr

/-! ### As text -/

def Column.sql : Column → String
  | .source => "events.source"
  | .timestamp => "timestamp"
  | .archived => "events.archived"
  | .escalated => "events.escalated"
  | .query => "_dns_queries.value"
  | .answer => "_dns_answers.value"

def Operand.sql : Operand → SqlText
  | .column name => lit name.sql
  | .extract path => lit "json_extract(events.source, '$." ++ path ++ lit "')"
  | .member a name => a.sql ++ lit "->>'" ++ name ++ lit "'"
  | .literal s => lit "'" ++ lit s ++ lit "'"
  | .arg value => slot value

def Comparison.sql : Comparison → String
  | .eq => " = "
  | .ne => " != "
  | .ge => " >= "
  | .gt => " > "
  | .le => " <= "
  | .lt => " < "

def Condition.sql : Condition → SqlText
  | .compare op a b => a.sql ++ lit op.sql ++ b.sql
  | .like a b => a.sql ++ lit " LIKE " ++ b.sql
  | .notLike a b => a.sql ++ lit " NOT LIKE " ++ b.sql
  | .glob a b => a.sql ++ lit " GLOB " ++ b.sql
  | .isNull a => a.sql ++ lit " IS NULL"
  | .or a b => lit "(" ++ a.sql ++ lit " OR " ++ b.sql ++ lit ")"

def Operand.args : Operand → List Arg
  | .member a _ => a.args
  | .arg value => [value]
  | _ => []

/-- The arguments, from left to right. -/
def Condition.args : Condition → List Arg
  | .compare _ a b | .like a b | .notLike a b | .glob a b => a.args ++ b.args
  | .isNull a => a.args
  | .or a b => a.args ++ b.args

def Join.sql : Join → SqlText
  | .queries => lit "LEFT JOIN json_each(events.source, '$.dns.queries') AS _dns_queries"
  | .answers => lit "LEFT JOIN json_each(events.source, '$.dns.answers') AS _dns_answers"

/-- The builder holds the text of the search. -/
structure EventQueryBuilder.Spells (b : EventQueryBuilder) (s : Search) : Prop where
  leftJoin : b.leftJoin = s.joins.map Join.sql
  wheres : b.wheres = s.conditions.map Condition.sql
  args : b.args = s.conditions.flatMap Condition.args
  ftsPhrases : b.ftsPhrases = s.phrases.map fun p => "\x22" ++ p ++ "\x22"

/-- The names stay within the quotes around them, so that nothing else is read in their place. -/
def Operand.encloses : Operand → Bool
  | .extract path => SqlTokens.enclosed (SqlTokens.chars path)
  | .member a name => a.encloses && SqlTokens.enclosed (SqlTokens.chars name)
  | _ => true

def Condition.encloses : Condition → Bool
  | .compare _ a b | .like a b | .notLike a b | .glob a b => a.encloses && b.encloses
  | .isNull a => a.encloses
  | .or a b => a.encloses && b.encloses

/-! ### What it means -/

/-- The functions of SQLite. -/
structure Engine where
  /-- `json_extract`, of a path without its `$.`. -/
  extract : Json → String → SqlValue
  /-- `->>`. -/
  member : SqlValue → String → SqlValue
  /-- The values of `json_each`. -/
  each : Json → String → List SqlValue
  /-- `LIKE` over values that are not null. -/
  like : SqlValue → SqlValue → Bool
  /-- `GLOB` over values that are not null. -/
  glob : SqlValue → SqlValue → Bool
  /-- The rows of the full-text index that some phrases find together. -/
  finds : List String → ℕ → Bool
  /-- A statement is prepared and run without an error. -/
  runs : SqlText × List Arg → Bool

/-- What the conditions are about. -/
structure Row where
  event : EventRow
  query : SqlValue
  answer : SqlValue
deriving DecidableEq

def Arg.value : Arg → SqlValue
  | .int n => .int n
  | .text s => .text s

/-- Whether `a < b` is true of values that are not null: numbers come before texts. -/
def SqlValue.lt : SqlValue → SqlValue → Bool
  | .int a, .int b => a < b
  | .int a, .real b => (a : ℚ) < b
  | .real a, .int b => a < (b : ℚ)
  | .real a, .real b => a < b
  | .text a, .text b => a < b
  | .int _, .text _ => true
  | .real _, .text _ => true
  | _, _ => false

def Comparison.compare : Comparison → SqlValue → SqlValue → Bool
  | .eq, a, b => a.eq b
  | .ne, a, b => !a.eq b
  | .ge, a, b => !a.lt b
  | .gt, a, b => b.lt a
  | .le, a, b => !b.lt a
  | .lt, a, b => a.lt b

def Row.column (r : Row) : Column → SqlValue
  | .source => .text r.event.source.text
  | .timestamp => .int r.event.timestamp
  | .archived => .int (if r.event.archived then 1 else 0)
  | .escalated => .int (if r.event.escalated then 1 else 0)
  | .query => r.query
  | .answer => r.answer

/-- The name or path that a text spells. -/
def nameOf (text : SqlText) : String := String.ofList (SqlTokens.chars text)

def SqlValue.isNull (value : SqlValue) : Bool := value = .null

section

variable (engine : Engine)

def Operand.eval (r : Row) : Operand → SqlValue
  | .column name => r.column name
  | .extract path => engine.extract r.event.source (nameOf path)
  | .member a name => engine.member (a.eval r) (nameOf name)
  | .literal s => .text s
  | .arg value => value.value

/-- A condition over a row is unknown where a value is missing. -/
def Condition.eval (r : Row) : Condition → Kleene
  | .compare op a b => .ofOperands SqlValue.isNull op.compare (a.eval engine r) (b.eval engine r)
  | .like a b => .ofOperands SqlValue.isNull engine.like (a.eval engine r) (b.eval engine r)
  | .notLike a b => Kleene.not (.ofOperands SqlValue.isNull engine.like (a.eval engine r) (b.eval engine r))
  | .glob a b => .ofOperands SqlValue.isNull engine.glob (a.eval engine r) (b.eval engine r)
  | .isNull a => some (a.eval engine r).isNull
  | .or a b => .or (a.eval r) (b.eval r)

/-- What `json_each` makes a table of. -/
def Join.path : Join → String
  | .queries => "dns.queries"
  | .answers => "dns.answers"

/-- The values of a table that is joined: one that is null if there are none. -/
def Join.values (e : EventRow) (j : Join) : List SqlValue :=
  if engine.each e.source j.path = [] then [.null] else engine.each e.source j.path

namespace Search

/-- The values of a table, joined or not. -/
def values (s : Search) (e : EventRow) (j : Join) : List SqlValue := if j ∈ s.joins then j.values engine e else [.null]

/-- The rows that the joins make of an event. -/
def rows (s : Search) (e : EventRow) : List Row :=
  (s.values engine e .queries).flatMap fun query => (s.values engine e .answers).map fun answer => ⟨e, query, answer⟩

/-- The conditions let a row through. -/
def passes (s : Search) (r : Row) : Bool := s.conditions.all fun c => (c.eval engine r).holds

/-- The full-text index has the event, if it is asked. -/
def found (s : Search) (e : EventRow) : Bool := s.phrases.isEmpty || engine.finds s.phrases e.rowid

/-- The events that the search gives. -/
def selects (s : Search) (e : EventRow) : Bool := s.found engine e && (s.rows engine e).any (s.passes engine)

end Search

end

/-! ## The search of a query -/

open EventQueryBuilder (startsWith resolveKey)

/-- What an element adds to a search. -/
structure Term where
  join : Option Join := none
  conditions : List Condition := []
  phrases : List String := []
deriving DecidableEq, Repr

namespace Search

def addJoin (joins : List Join) : Option Join → List Join
  | some j => if j ∈ joins then joins else joins ++ [j]
  | none => joins

def add (s : Search) (t : Term) : Search :=
  ⟨addJoin s.joins t.join, s.conditions ++ t.conditions, s.phrases ++ t.phrases⟩

end Search

/-- The event as it is in the table. -/
def sourceColumn : Operand := .column .source

/-- The comparison of a time. -/
def timeCondition (op : Comparison) (ts : DateTime) : Option Condition :=
  ts.toNanos.map fun nanos => .compare op (.column .timestamp) (.arg (.int nanos))

/-- A text anywhere in the event. -/
def anywhereTerm (fts negated : Bool) (s : String) : Term :=
  let pattern : Operand := .arg (.text ("%" ++ s ++ "%"))
  if negated then { conditions := [.notLike sourceColumn pattern] }
  else if fts then { phrases := [s] }
  else { conditions := [.like sourceColumn pattern] }

def isPort (k : String) : Bool := k = "src_port" ∨ k = "dest_port"

/-- The place of a key in the event. -/
def fieldOf (k : String) : Operand := if isPort k then .member sourceColumn (user k.toList) else .extract (user k.toList)

/-- The field below `events.source->>'dns'`. -/
def dnsField (name : String) : Operand := .member (.member sourceColumn (lit "dns")) (lit name)

/-- The field of a joined value that a key names behind its second point. -/
def joinedField (column : Column) (k : String) : Operand :=
  ((k.toList.splitOn '.').drop 2).foldl (fun a name => .member a (user name)) (.column column)

/-- The condition of the keys that are not looked up by their path. -/
def ownCondition (k v : String) : Option Condition :=
  let is (a : Operand) (s : String) : Condition := .compare .eq a (.literal s)
  if k = "dns.type" ∧ (v = "query" ∨ v = "request") then
    some (.or (is (dnsField "type") "query") (is (dnsField "type") "request"))
  else if k = "dns.type" ∧ (v = "response" ∨ v = "answer") then
    some (.or (is (dnsField "type") "answer") (is (dnsField "type") "response"))
  else if k = "dns.rrname" ∨ k = "dns.queries.rrname" then
    some (.or (.compare .eq (dnsField "rrname") (.arg (.text v)))
      (.compare .eq (.member (.column .query) (lit "rrname")) (.arg (.text v))))
  else if startsWith k "dns.queries." then some (.compare .eq (joinedField .query k) (.arg (.text v)))
  else if startsWith k "dns.answers." then some (.compare .eq (joinedField .answer k) (.arg (.text v)))
  else if startsWith k "dns.authorities" then
    some (.glob (dnsField "authorities") (.arg (.text ("*" ++ v ++ "*"))))
  else if startsWith k "dns.additionals" then
    some (.glob (dnsField "additionals") (.arg (.text ("*" ++ v ++ "*"))))
  else none

/-- The keys whose values the full-text index is asked for, too. -/
def isAccelerated (k : String) : Bool := k = "community_id" ∨ k = "timestamp" ∨ startsWith k "dhcp"

/-- The condition that the field of a key has a value, or another one. -/
def fieldCondition (op : Comparison) (k v : String) : Condition :=
  .compare op (fieldOf k) (.arg (EventQueryBuilder.valueArg v))

/-- What a key and a value add, but for the join. -/
def keyTerm (fts negated : Bool) (k v : String) : Term :=
  if k = "@ip" ∨ k = "@mac" then anywhereTerm fts negated v
  else if negated then { conditions := [fieldCondition .ne k v] }
  else
    { conditions := [(ownCondition k v).getD (fieldCondition .eq k v)],
      phrases := if fts && isAccelerated k then [v] else [] }

/-- The join that a key asks for, negated or not. -/
def joinOf (k : String) : Option Join :=
  if k = "dns.rrname" ∨ startsWith k "dns.queries" then some .queries
  else if startsWith k "dns.answers." then some .answers
  else none

/-- The flag of an event. -/
def flagCondition (name : Column) (negated : Bool) : Condition :=
  .compare .eq (.column name) (.arg (.int (if negated then 0 else 1)))

/-- What an element adds. -/
def term (fts : Bool) (e : QueryElement) : Option Term :=
  match e.value with
  | .string s => some (anywhereTerm fts e.negated s)
  | .keyValue k v => some { keyTerm fts e.negated (resolveKey k) v with join := joinOf k }
  | .fromTime ts => (timeCondition .ge ts).map fun c => { conditions := [c] }
  | .toTime ts => (timeCondition .le ts).map fun c => { conditions := [c] }
  | .after ts => (timeCondition .gt ts).map fun c => { conditions := [c] }
  | .before ts => (timeCondition .lt ts).map fun c => { conditions := [c] }
  | .archived => some { conditions := [flagCondition .archived e.negated] }
  | .escalated => some { conditions := [flagCondition .escalated e.negated] }

/-- The conditions that do not come from the query string. -/
def baseConditions (q : EventQueryParams) : Option (List Condition) := do
  let before ← q.toTime.toList.mapM (timeCondition .le)
  let since ← q.fromTime.toList.mapM (timeCondition .ge)
  let eventType := q.eventType.toList.map fun s =>
    Condition.compare .eq (.extract (lit "event_type")) (.arg (.text s))
  let sensor := q.sensor.toList.map fun s =>
    if s = "(no-name)" then Condition.isNull (.extract (lit "host"))
    else .compare .eq (.extract (lit "host")) (.arg (.text s))
  some (eventType ++ sensor ++ before ++ since)

/-- The search of a query. -/
def search (fts : Bool) (q : EventQueryParams) : Option Search := do
  let conditions ← baseConditions q
  let terms ← q.queryString.mapM (term fts)
  some (terms.foldl Search.add { conditions })

/-- `events`, if it gives events and no error. Of its order and limit nothing is said. -/
def events (engine : Engine) (fts : Bool) (q : EventQueryParams) : Option Search := do
  let b ← eventsBuilder fts q
  let s ← search fts q
  if s.conditions.all Condition.encloses && engine.runs b.build then some s else none

/-! ## A term and its negation -/

/-- The element with the other sign. -/
def negation (t : QueryElement) : QueryElement := { t with negated := !t.negated }

/-- The query with an element added. -/
def EventQueryParams.adding (q : EventQueryParams) (t : QueryElement) : EventQueryParams :=
  { q with queryString := q.queryString ++ [t] }

section

variable (engine : Engine)

/-- Each event that a search gives is given by just one of two others. -/
def Partitions (store : List EventRow) (s yes no : Search) : Prop :=
  ∀ e ∈ store, s.selects engine e = true → Xor (yes.selects engine e = true) (no.selects engine e = true)

/-- The value of the field of a key. -/
def fieldValue (e : EventRow) (k : String) : SqlValue :=
  if isPort k then engine.member (.text e.source.text) k else engine.extract e.source k

/-- Whether `LIKE` finds a text in an event. -/
def textual (e : EventRow) (text : String) : Bool :=
  engine.like (.text e.source.text) (.text ("%" ++ text ++ "%"))

variable (fts : Bool) (s : Search)

/-- Whether a text and its negation share out an event: the index, if there is one, must have the text just where
`LIKE` finds it. -/
def TextSplits (text : String) (e : EventRow) : Prop :=
  fts = true → (engine.finds (s.phrases ++ [text]) e.rowid = true ↔ textual engine e text = true)

/-- Whether the field of a key and its negation share out an event: it must be there, and the index, if it is
asked, must have the value where the field has it. -/
def FieldSplits (k v : String) (e : EventRow) : Prop :=
  fieldValue engine e k ≠ .null ∧
    (fts = true → isAccelerated k = true →
      (fieldValue engine e k).eq (EventQueryBuilder.valueArg v).value = true →
      engine.finds (s.phrases ++ [v]) e.rowid = true)

/-- Whether a condition of its own and the negation, which is about the path of the key, share out an event. -/
def OwnSplits (c : Condition) (key v : String) (e : EventRow) : Prop :=
  (∃ r ∈ ({ s with joins := Search.addJoin s.joins (joinOf key) } : Search).rows engine e,
      s.passes engine r = true ∧ (c.eval engine r).holds = true) ↔
    fieldValue engine e (resolveKey key) = .null ∨
      (fieldValue engine e (resolveKey key)).eq (EventQueryBuilder.valueArg v).value = true

/-- Whether a term and its negation share out an event that a search gives. -/
def Splits (value : QueryValue) (e : EventRow) : Prop :=
  match value with
  | .string text => TextSplits engine fts s text e
  | .keyValue key v =>
      if resolveKey key = "@ip" ∨ resolveKey key = "@mac" then TextSplits engine fts s v e
      else match ownCondition (resolveKey key) v with
        | some c => OwnSplits engine s c key v e
        | none => FieldSplits engine fts s (resolveKey key) v e
  | .archived | .escalated => True
  -- a time has no negation
  | .fromTime _ | .toTime _ | .after _ | .before _ => False

end

end EveBox.Sqlite
