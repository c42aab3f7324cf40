import EveBox.Eve.Event
import EveBox.Lib.Grouping
import EveBox.Sqlite.Value
import Mathlib.Data.List.Sort

/-!
# The inbox over SQLite

Reference: `src/sqlite/eventrepo/alerts.rs`.

`alerts_with_timeout` reads the selected rows newest first and puts them together under a key of its own;
`alerts_group_by` leaves the grouping to SQLite. Both build the same conditions from the same options, so that
both are given the rows that are selected. `took`, `ecs` and the set of sensors are left out.
-/

namespace EveBox.Sqlite

open Rust Eve

/-! ## What is asked and what is answered -/

/-- `AlertQueryOptions`. The query string is here as the conditions that its elements put on a row. -/
structure AlertQueryOptions where
  timestampGte : Option DateTime
  query : EventRow → Bool
  tags : List String
  sensor : Option String

/-- `AggAlertMetadata`. -/
structure AggAlertMetadata where
  count : ℕ
  escalatedCount : ℕ
  minTimestamp : DateTime
  maxTimestamp : DateTime
deriving DecidableEq, Repr

/-- `AggAlert`. -/
structure AggAlert where
  id : String
  source : Json
  metadata : AggAlertMetadata
deriving DecidableEq, Repr

/-- `AlertsResult`. -/
structure AlertsResult where
  events : List AggAlert
  timedOut : Bool
  minTimestamp : Option DateTime
  maxTimestamp : Option DateTime
deriving DecidableEq, Repr

/-- How the queries fail: a column that does not decode, a timestamp that does not parse, and an `unwrap` of
what is not there. -/
inductive AlertsError
  | column (name : String)
  | timestamp
  | panicked
deriving DecidableEq, Repr

/-- `row.try_get(name)?`. -/
def tryGet {α : Type} (name : String) : Option α → Except AlertsError α
  | some value => .ok value
  | none => .error (.column name)

/-! ## The rows that are selected -/

/-- `json_extract(events.source, '$.event_type') = 'alert'`. -/
def EventRow.isAlert (row : EventRow) : Bool := (row.extract ["event_type"]).eq (.text "alert")

/-- The condition of a tag. -/
def EventRow.hasTag (row : EventRow) (tag : String) : Bool :=
  if tag = "evebox.archived" then row.archived
  else if tag = "-evebox.archived" then !row.archived
  else if tag = "evebox.escalated" then row.escalated
  else true

/-- The condition of the sensor. -/
def EventRow.hasSensor (row : EventRow) : Option String → Bool
  | none => true
  | some sensor =>
      if sensor = "(no-name)" then row.extract ["host"] = .null else (row.extract ["host"]).eq (.text sensor)

/-- The nanoseconds of the earliest time; `none` if it has none, where the code panics. -/
def earliestNanos : Option DateTime → Option (Option ℤ)
  | none => some none
  | some ts => ts.toNanos.map some

/-- The conditions of the query. -/
def EventRow.meets (options : AlertQueryOptions) (earliest : Option ℤ) (row : EventRow) : Bool :=
  row.isAlert && options.tags.all row.hasTag && row.hasSensor options.sensor &&
    earliest.all (· ≤ row.timestamp) && options.query row

/-- The rows that meet the conditions. -/
def alertRows (options : AlertQueryOptions) (events : List EventRow) : Option (List EventRow) :=
  (earliestNanos options.timestampGte).map fun earliest => events.filter fun row => row.meets options earliest

/-! ## `alerts_with_timeout` -/

/-- The columns that make up the key. -/
structure KeyColumns where
  signatureId : ℕ
  srcIp : String
  destIp : String
deriving DecidableEq, Repr

/-- The key of an event. -/
def KeyColumns.key (c : KeyColumns) : String := toString c.signatureId ++ c.srcIp ++ c.destIp

/-- The columns of the key are read. -/
def keyColumns (row : EventRow) : Except AlertsError KeyColumns := do
  let signatureId ← tryGet "alert.signature_id" (row.extract ["alert", "signature_id"]).getU64
  let srcIp ← tryGet "src_ip" (row.extract ["src_ip"]).getString
  let destIp ← tryGet "dest_ip" (row.extract ["dest_ip"]).getString
  .ok { signatureId, srcIp, destIp }

section

/- `fromStr` is `serde_json::from_str`. -/
variable (lib : TimeLib) (fromStr : String → Option Json)

/-- The tags of a new entry. -/
def entryTags (row : EventRow) : Json :=
  match (row.extract ["tags"]).getJson fromStr with
  | .null => .array (if row.archived then [.string "evebox.archived"] else [])
  | .array tags =>
      .array (if row.archived && !tags.contains (.string "evebox.archived")
        then tags ++ [.string "evebox.archived"] else tags)
  | tags => tags

/-- A new entry. -/
def newAlert (row : EventRow) (c : KeyColumns) : Except AlertsError AggAlert := do
  let host := ((row.extract ["host"]).getOptionString).getD none
  let quic := (row.extract ["quic"]).getJson fromStr
  let httpHostname ← tryGet "http.hostname" (row.extract ["http", "hostname"]).getOptionString
  let tls := (row.extract ["tls"]).getJson fromStr
  let dns := (row.extract ["dns"]).getJson fromStr
  let signature ← tryGet "alert.signature" (row.extract ["alert", "signature"]).getString
  let severity ← tryGet "alert.severity" (row.extract ["alert", "severity"]).getU64
  let action ← tryGet "alert.action" (row.extract ["alert", "action"]).getString
  let appProto ← tryGet "app_proto" (row.extract ["app_proto"]).getString
  let fields := [
    ("alert", Json.object [
      ("action", .string action), ("severity", .number (.int severity)),
      ("signature", .string signature), ("signature_id", .number (.int c.signatureId))]),
    ("app_proto", .string appProto), ("dest_ip", .string c.destIp), ("dns", dns),
    ("host", match host with | some host => .string host | none => .null),
    ("quic", quic), ("src_ip", .string c.srcIp), ("tags", entryTags fromStr row),
    ("timestamp", .string ((DateTime.fromNanos row.timestamp).toEve lib)), ("tls", tls)]
  .ok {
    id := toString row.rowid
    source := .object (match httpHostname with
      | some name => Json.insertField "http" (.object [("hostname", .string name)]) fields
      | none => fields)
    metadata := {
      count := 1
      escalatedCount := if row.escalated then 1 else 0
      minTimestamp := .fromNanos row.timestamp
      maxTimestamp := .fromNanos row.timestamp } }

/-- A further event of an entry. -/
def AggAlert.add (alert : AggAlert) (row : EventRow) : AggAlert :=
  { alert with metadata := { alert.metadata with
      count := alert.metadata.count + 1
      escalatedCount := alert.metadata.escalatedCount + if row.escalated then 1 else 0
      minTimestamp := .fromNanos row.timestamp } }

/-- An event is put under its key. The map keeps the order in which keys came. -/
def putAlert (events : List (String × AggAlert)) (row : EventRow) (c : KeyColumns) :
    Except AlertsError (List (String × AggAlert)) :=
  if c.key ∈ events.map (·.1) then
    .ok (events.map fun entry => if entry.1 = c.key then (entry.1, entry.2.add row) else entry)
  else do
    let alert ← newAlert lib fromStr row c
    .ok (events ++ [(c.key, alert)])

/-- What the loop carries along; `abortAt` is there once the time is up. -/
structure AlertLoop where
  events : List (String × AggAlert)
  abortAt : Option ℤ
  minTimestamp : Option ℤ
  maxTimestamp : Option ℤ
deriving DecidableEq, Repr

/-- The start of the second of a time in nanoseconds. -/
def startOfSecond (nanos : ℤ) : ℤ := nanos - nanos % 1000000000

/-- The loop over the rows; `late count` says whether the time is up after the row number `count`. -/
def alertLoop (late : ℕ → Bool) : ℕ → AlertLoop → List EventRow → Except AlertsError AlertLoop
  | _, st, [] => .ok st
  | count, st, row :: rows => do
      let c ← keyColumns row
      -- the second in which the time was up is read to its end
      if st.abortAt.any (row.timestamp < ·) then .ok st
      else
        let events ← putAlert lib fromStr st.events row c
        alertLoop late (count + 1) {
          events
          abortAt := if late count then some (startOfSecond row.timestamp) else st.abortAt
          minTimestamp := some row.timestamp
          maxTimestamp := some (st.maxTimestamp.getD row.timestamp) } rows

/-- `alerts_with_timeout`, given the selected rows, newest first. -/
def alertsWithTimeout (late : ℕ → Bool) (rows : List EventRow) : Except AlertsError AlertsResult := do
  let st ← alertLoop lib fromStr late 0 ⟨[], none, none, none⟩ rows
  .ok {
    events := st.events.map (·.2)
    timedOut := st.abortAt.isSome
    minTimestamp := st.minTimestamp.map .fromNanos
    maxTimestamp := st.maxTimestamp.map .fromNanos }

end

/-! ## `alerts_group_by` -/

/-- What `GROUP BY` goes by. -/
def groupKey (row : EventRow) : SqlValue × SqlValue × SqlValue :=
  ((row.extract ["alert", "signature_id"]).norm, (row.extract ["src_ip"]).norm, (row.extract ["dest_ip"]).norm)

/-- The groups. -/
def groupBy (rows : List EventRow) : List (List EventRow) := Grouping.classes groupKey rows

/-- A row of the subquery. -/
structure GroupRow where
  rowid : ℕ
  count : ℕ
  mints : Option ℤ
  maxts : Option ℤ
  escalatedCount : ℕ
deriving DecidableEq, Repr

/-- The row of a group. SQLite takes the bare column `rowid` from one of the rows with the lowest or with the
highest timestamp; `bare` says from which. -/
def groupRow (bare : List EventRow → EventRow) (group : List EventRow) : GroupRow where
  rowid := (bare group).rowid
  count := group.countP fun row => row.extract ["alert", "signature_id"] ≠ .null
  mints := (group.map (·.timestamp)).min?
  maxts := (group.map (·.timestamp)).max?
  escalatedCount := group.countP (·.escalated)

/-- The inner join of the table with the groups. -/
def joinGroups (bare : List EventRow → EventRow) (events rows : List EventRow) : List (EventRow × GroupRow) :=
  (groupBy rows).flatMap fun group =>
    let b := groupRow bare group
    (events.filter fun a => a.rowid = b.rowid && some a.timestamp = b.maxts).map fun a => (a, b)

/-- A source whose tags are null gets a list of them. -/
def sourceWithTags (source : Json) : Except AlertsError Json :=
  if source.get "tags" = .null then
    match source.set "tags" (.array []) with
    | some parsed => .ok parsed
    | none => .error .panicked
  else .ok source

/-- `alert_row_mapper`. -/
def alertRowMapper (lib : TimeLib) (row : EventRow × GroupRow) : Except AlertsError AggAlert := do
  let (a, b) := row
  let parsed ← sourceWithTags a.source
  let tags := match parsed.get "tags" with
    | .array tags => .array (if a.archived then tags ++ [.string "evebox.archived"] else tags)
    | tags => tags
  let timestamp ← match (parsed.get "timestamp").asStr with
    | some timestamp => .ok timestamp
    | none => .error .panicked
  let maxTs ← match parseDateTime lib timestamp none with
    | some ts => .ok ts
    | none => .error .timestamp
  let fields := [
    ("alert", Json.object [
      ("action", (parsed.get "alert").get "action"), ("severity", (parsed.get "alert").get "severity"),
      ("signature", (parsed.get "alert").get "signature"),
      ("signature_id", (parsed.get "alert").get "signature_id")]),
    ("app_proto", parsed.get "app_proto"), ("dest_ip", parsed.get "dest_ip"), ("dns", parsed.get "dns"),
    ("host", parsed.get "host"), ("src_ip", parsed.get "src_ip"), ("tags", tags),
    ("timestamp", parsed.get "timestamp"), ("tls", parsed.get "tls")]
  .ok {
    id := toString b.rowid
    source := .object (match (parsed.get "http").get "hostname" with
      | .string name => Json.insertField "http" (.object [("hostname", .string name)]) fields
      | _ => fields)
    metadata := {
      count := b.count
      escalatedCount := b.escalatedCount
      minTimestamp := .fromNanos (b.mints.getD 0)
      maxTimestamp := maxTs } }

/-- A bound is replaced by a time that is later; this is how the code tracks both ends of the range. -/
def laterOf (bound : Option DateTime) (ts : DateTime) : Option DateTime :=
  match bound with
  | some bound => some (if bound.nanos < ts.nanos then ts else bound)
  | none => some ts

/-- `alerts_group_by`, given the table and the selected rows. -/
def alertsGroupBy (lib : TimeLib) (bare : List EventRow → EventRow) (events rows : List EventRow) :
    Except AlertsError AlertsResult := do
  let joined := (joinGroups bare events rows).insertionSort fun a b => b.1.timestamp ≤ a.1.timestamp
  let results ← joined.mapM (alertRowMapper lib)
  .ok {
    events := results
    timedOut := false
    minTimestamp := results.foldl (fun bound row => laterOf bound row.metadata.minTimestamp) none
    maxTimestamp := results.foldl (fun bound row => laterOf bound row.metadata.maxTimestamp) none }

end EveBox.Sqlite
