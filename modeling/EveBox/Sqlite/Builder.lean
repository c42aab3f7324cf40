import EveBox.Lib.SqlTokens
import EveBox.Repo.QueryParser

/-!
# The builder of the queries over SQLite

Reference: `src/sqlite/builder.rs`, and the callers in `src/sqlite/eventrepo/` and `src/server/api/count.rs`.

The characters of a statement remember where they come from: from the builder, from the text of a user, or, for a `?`,
which argument it stands for. The code has the characters alone.
-/

namespace EveBox.Sqlite

open Rust Eve Repo

/-- A value of `SqliteArguments`. -/
inductive Arg
  | int (n : ℤ)
  | text (s : String)
deriving DecidableEq, Repr

/-- Where a character of a statement comes from. -/
inductive Origin
  | builder
  | user
  | slot (arg : Arg)
deriving DecidableEq, Repr

abbrev SqlText := SqlTokens.Text Origin

namespace SqlText

/-- Text of the builder. -/
def lit (s : String) : SqlText := s.toList.map (⟨·, .builder⟩)

/-- Text of a user. -/
def user (s : List Char) : SqlText := s.map (⟨·, .user⟩)

/-- The place of an argument. -/
def slot (arg : Arg) : SqlText := [⟨'?', .slot arg⟩]

/-- `join`. -/
def join (sep : String) : List SqlText → SqlText
  | [] => []
  | piece :: pieces => piece ++ pieces.flatMap (lit sep ++ ·)

end SqlText

open SqlText

/-- `EventQueryBuilder`. -/
structure EventQueryBuilder where
  fts : Bool
  select : List SqlText := []
  tables : List SqlText := []
  leftJoin : List SqlText := []
  wheres : List SqlText := []
  groupBy : List SqlText := []
  orderBy : Option (SqlText × SqlText) := none
  limit : ℤ := 0
  ftsPhrases : List String := []
  args : List Arg := []
deriving DecidableEq, Repr

namespace EventQueryBuilder

/-! ## Clauses -/

/-- `push_where`. -/
def pushWhere (b : EventQueryBuilder) (col : SqlText) : EventQueryBuilder := { b with wheres := b.wheres ++ [col] }

/-- `push_arg`. -/
def pushArg (b : EventQueryBuilder) (value : Arg) : EventQueryBuilder := { b with args := b.args ++ [value] }

/-- `push_fts`. -/
def pushFts (b : EventQueryBuilder) (value : String) : EventQueryBuilder :=
  { b with ftsPhrases := b.ftsPhrases ++ ["\x22" ++ value ++ "\x22"] }

/-- `add_left_join`. -/
def addLeftJoin (b : EventQueryBuilder) (sql : SqlText) : EventQueryBuilder :=
  if sql ∈ b.leftJoin then b else { b with leftJoin := b.leftJoin ++ [sql] }

/-- `where … ?`: a clause with one argument. -/
def whereArg (b : EventQueryBuilder) (col : String) (arg : Arg) : EventQueryBuilder :=
  (b.pushWhere (lit col ++ slot arg)).pushArg arg

/-- `wherejs`. -/
def wherejs (b : EventQueryBuilder) (field : String) (op : String) (arg : Arg) : EventQueryBuilder :=
  (b.pushWhere (lit "json_extract(events.source, '$." ++ lit field ++ lit "') " ++ lit op ++ lit " " ++ slot arg)).pushArg arg

/-- The argument of a value: a number, if it reads as one. -/
def valueArg (value : String) : Arg :=
  match parseI64 value.toList with
  | some i => .int i
  | none => .text value

/-- `where_source_json_extract`. -/
def whereSourceJsonExtract (b : EventQueryBuilder) (field op value : String) : EventQueryBuilder :=
  (b.pushWhere (lit "json_extract(events.source, '$." ++ user field.toList ++ lit "') " ++ lit op ++ lit " " ++
    slot (valueArg value))).pushArg (valueArg value)

/-- `where_source_json`. -/
def whereSourceJson (b : EventQueryBuilder) (field op value : String) : EventQueryBuilder :=
  (b.pushWhere (lit "events.source->>'" ++ user field.toList ++ lit "' " ++ lit op ++ lit " " ++
    slot (valueArg value))).pushArg (valueArg value)

/-- A comparison of a time. -/
def whereTimestamp (b : EventQueryBuilder) (col : String) (ts : DateTime) : Option EventQueryBuilder :=
  ts.toNanos.map fun nanos => b.whereArg col (.int nanos)

/-- `timestamp_gte`. -/
def timestampGte (b : EventQueryBuilder) (ts : DateTime) : Option EventQueryBuilder :=
  b.whereTimestamp "timestamp >= " ts

/-- `timestamp_gt`. -/
def timestampGt (b : EventQueryBuilder) (ts : DateTime) : Option EventQueryBuilder :=
  b.whereTimestamp "timestamp > " ts

/-- `timestamp_lte`. -/
def timestampLte (b : EventQueryBuilder) (ts : DateTime) : Option EventQueryBuilder :=
  b.whereTimestamp "timestamp <= " ts

/-- `timestamp_lt`. -/
def timestampLt (b : EventQueryBuilder) (ts : DateTime) : Option EventQueryBuilder :=
  b.whereTimestamp "timestamp < " ts

/-! ## Query strings -/

/-- `str::starts_with`. -/
def startsWith (s start : String) : Bool := start.toList.isPrefixOf s.toList

/-- The join that an element asks for. -/
def elementJoin (e : QueryElement) : Option String :=
  match e.value with
  | .keyValue k _ =>
      if k = "dns.rrname" ∨ startsWith k "dns.queries" then
        some "LEFT JOIN json_each(events.source, '$.dns.queries') AS _dns_queries"
      else if startsWith k "dns.answers." then
        some "LEFT JOIN json_each(events.source, '$.dns.answers') AS _dns_answers"
      else none
  | _ => none

/-- `left_join_from_query_string`. -/
def leftJoinFromQueryString (b : EventQueryBuilder) (q : List QueryElement) : EventQueryBuilder :=
  q.foldl (fun b e => match elementJoin e with
    | some sql => b.addLeftJoin (lit sql)
    | none => b) b

/-- A text anywhere in the event. -/
def whereAnywhere (b : EventQueryBuilder) (negated : Bool) (s : String) : EventQueryBuilder :=
  if negated then b.whereArg "events.source NOT LIKE " (.text ("%" ++ s ++ "%"))
  else if b.fts then b.pushFts s
  else b.whereArg "events.source LIKE " (.text ("%" ++ s ++ "%"))

/-- The short-hand fields. -/
def resolveKey (k : String) : String :=
  if k = "@sid" then "alert.signature_id" else if k = "@sig" then "alert.signature" else k

/-- The fields whose values the full-text index is asked for, too. -/
def accelerate (b : EventQueryBuilder) (k v : String) : EventQueryBuilder :=
  if b.fts then
    if k = "community_id" ∨ k = "timestamp" then b.pushFts v
    else if startsWith k "dhcp" then b.pushFts v
    else b
  else b

/-- The names of a path behind its second point, each in quotes. -/
def pathBehind (k : String) : SqlText :=
  join "->>" (((k.toList.splitOn '.').drop 2).map fun p => lit "'" ++ user p ++ lit "'")

/-- The clause of a key that is not negated and has no clause of its own kind before. -/
def whereKey (b : EventQueryBuilder) (k v : String) : EventQueryBuilder :=
  if k = "dns.type" ∧ (v = "query" ∨ v = "request") then
    b.pushWhere (lit "(events.source->>'dns'->>'type' = 'query' OR events.source->>'dns'->>'type' = 'request')")
  else if k = "dns.type" ∧ (v = "response" ∨ v = "answer") then
    b.pushWhere (lit "(events.source->>'dns'->>'type' = 'answer' OR events.source->>'dns'->>'type' = 'response')")
  else if k = "dns.rrname" ∨ k = "dns.queries.rrname" then
    ((b.pushWhere (lit "(events.source->>'dns'->>'rrname' = " ++ slot (.text v) ++
      lit " OR _dns_queries.value->>'rrname' = " ++ slot (.text v) ++ lit ")")).pushArg (.text v)).pushArg (.text v)
  else if startsWith k "dns.queries." then
    (b.pushWhere (lit "_dns_queries.value->>" ++ pathBehind k ++ lit " = " ++ slot (.text v))).pushArg (.text v)
  else if startsWith k "dns.answers." then
    (b.pushWhere (lit "_dns_answers.value->>" ++ pathBehind k ++ lit " = " ++ slot (.text v))).pushArg (.text v)
  else if startsWith k "dns.authorities" then
    b.whereArg "events.source->>'dns'->>'authorities' GLOB " (.text ("*" ++ v ++ "*"))
  else if startsWith k "dns.additionals" then
    b.whereArg "events.source->>'dns'->>'additionals' GLOB " (.text ("*" ++ v ++ "*"))
  else b.whereSourceJsonExtract k "=" v

/-- A key and a value in `apply_query_string`. -/
def applyKeyValue (b : EventQueryBuilder) (negated : Bool) (key v : String) : EventQueryBuilder :=
  let k := resolveKey key
  if k = "@ip" ∨ k = "@mac" then b.whereAnywhere negated v
  else if k = "src_port" ∨ k = "dest_port" then
    if negated then b.whereSourceJson k "!=" v else (b.whereSourceJson k "=" v).accelerate k v
  else if negated then b.whereSourceJsonExtract k "!=" v
  else (b.whereKey k v).accelerate k v

/-- An element in `apply_query_string`. A time that has no nanoseconds is `none`: the code panics. -/
def applyElement (b : EventQueryBuilder) (e : QueryElement) : Option EventQueryBuilder :=
  match e.value with
  | .string s => some (b.whereAnywhere e.negated s)
  | .keyValue k v => some (b.applyKeyValue e.negated k v)
  | .fromTime ts => b.timestampGte ts
  | .toTime ts => b.timestampLte ts
  | .after ts => b.timestampGt ts
  | .before ts => b.timestampLt ts
  | .archived => some (b.whereArg "events.archived = " (.int (if e.negated then 0 else 1)))
  | .escalated => some (b.whereArg "events.escalated = " (.int (if e.negated then 0 else 1)))

/-- `apply_query_string`. -/
def applyQueryString (b : EventQueryBuilder) (q : List QueryElement) : Option EventQueryBuilder := q.foldlM applyElement b

/-! ## The statement -/

/-- `build`: the phrases of the full-text index become one clause. -/
def withPhrases (b : EventQueryBuilder) : EventQueryBuilder :=
  if b.ftsPhrases = [] then b
  else
    let query := .text (" AND ".intercalate b.ftsPhrases)
    (b.pushWhere (lit "events.rowid in (select rowid from fts where fts match " ++ slot query ++ lit ")")).pushArg query

/-- A part of the statement that is there if it has pieces. -/
def part (keyword sep : String) (pieces : List SqlText) : SqlText :=
  if pieces = [] then [] else lit keyword ++ join sep pieces

/-- The text of the statement. -/
def sql (b : EventQueryBuilder) : SqlText :=
  lit "select " ++ join ", " b.select ++ lit " from " ++ join ", " b.tables ++ b.leftJoin.flatMap (lit " " ++ ·) ++
    part " where " " and " b.wheres ++ part " group by " ", " b.groupBy ++
    (match b.orderBy with
      | some (field, order) => lit " order by " ++ field ++ lit " " ++ order
      | none => []) ++
    (if 0 < b.limit then lit " limit " ++ lit (toString b.limit) else [])

/-- `build`. -/
def build (b : EventQueryBuilder) : SqlText × List Arg := (b.withPhrases.sql, b.withPhrases.args)

end EventQueryBuilder

end EveBox.Sqlite
