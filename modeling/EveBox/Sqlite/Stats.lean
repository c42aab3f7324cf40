import EveBox.Sqlite.Histogram
import EveBox.Lib.SortedMap
import Mathlib.Algebra.Ring.Int.Defs

/-!
# The differences of a counter over SQLite

Reference: `src/sqlite/eventrepo/stats.rs`.

Of a row there is what the statements read of it. The texts of the timestamps are made from the seconds that the points
have here.
-/

namespace EveBox.Sqlite

open Eve

/-! ## Rows -/

/-- A number that a counter has: not negative, and an `i64`. -/
abbrev Counter := Fin (2 ^ 63)

/-- What the statements read of an event. -/
structure StatsRow where
  timestamp : ℤ
  eventType : Option String
  host : Option String
  /-- `json_extract`, of a path. -/
  counter : String → Option Counter

/-- What the driver makes of a `NULL` that is read as an `i64`: zero, or an error. -/
structure Driver where
  readNull : Option ℤ
  eq_zero : ∀ n ∈ readNull, n = 0

/-- What is read as an `i64`. -/
def Driver.read (driver : Driver) : Option Counter → Option ℤ
  | some n => some n.val
  | none => driver.readNull

structure StatsAggQueryParams where
  field : String
  sensorName : Option String
  startTime : DateTime
  endTime : DateTime

namespace StatsAggQueryParams

variable (p : StatsAggQueryParams)

def path : String := "$." ++ p.field

def interval : ℕ := histogramInterval ((p.endTime.nanos - p.startTime.nanos).tdiv 1000000000)

end StatsAggQueryParams

/-- The conditions that all statements have. -/
def StatsRow.within (row : StatsRow) (startTime endTime : ℤ) : Bool :=
  row.eventType = some "stats" && startTime ≤ row.timestamp && row.timestamp ≤ endTime

/-- The condition on the sensor. -/
def StatsRow.hasSensor (row : StatsRow) : Option String → Bool
  | none => true
  | some sensor => if sensor = "(no-name)" then row.host = none else row.host = some sensor

/-- `MAX(json_extract(events.source, ?))`, for each `a` and in the order of them. -/
def bucketMaxima (interval : ℕ) (path : String) (rows : List StatsRow) : SortedMap ℤ (Option Counter) :=
  .ofKeys (rows.map fun row => bucket interval row.timestamp) fun a =>
    ((rows.filter fun row => bucket interval row.timestamp = a).filterMap (·.counter path)).max?

/-! ## One sensor -/

/-- `get_stats`. -/
def getStats (driver : Driver) (p : StatsAggQueryParams) (store : List StatsRow) : Option (List (ℤ × ℤ)) := do
  let startTime ← p.startTime.toNanos
  let endTime ← p.endTime.toNanos
  let rows := store.filter fun row => row.within startTime endTime && row.hasSensor p.sensorName
  (bucketMaxima p.interval p.path rows).entries.mapM fun e => (driver.read e.2).map (e.1, ·)

/-- A point of a series. -/
structure Point where
  timestamp : ℤ
  value : ℤ
deriving DecidableEq, Repr

/-- What a counter has been increased by: one that is less than before has begun anew. -/
def increase (previous value : ℤ) : ℤ := if previous ≤ value then value - previous else value

/-- The loop over the rows: each but the first, with the one before it. -/
def diffRows (rows : List (ℤ × ℤ)) : List Point :=
  rows.zipWith (fun previous e => ⟨e.1, increase previous.2 e.2⟩) rows.tail

/-- `stats_agg_diff`. -/
def statsAggDiff (driver : Driver) (p : StatsAggQueryParams) (store : List StatsRow) : Option (List Point) :=
  (getStats driver p store).map diffRows

/-! ## All sensors -/

/-- The sensors of the rows, in order: `NULL` comes first. -/
def sensorsOf (rows : List StatsRow) : List (Option String) :=
  (if rows.any (·.host.isNone) then [none] else []) ++
    ((rows.filterMap (·.host)).dedup.insertionSort (· ≤ ·)).map some

/-- A row of the statement: a sensor, a time, and the maximum. -/
structure SensorRow where
  sensor : Option String
  timestamp : ℤ
  value : Option Counter

/-- The statement: a row for each sensor and each time, in this order. -/
def sensorRows (interval : ℕ) (path : String) (rows : List StatsRow) : List SensorRow :=
  (sensorsOf rows).flatMap fun sensor =>
    (bucketMaxima interval path (rows.filter fun row => row.host = sensor)).entries.map fun e => ⟨sensor, e.1, e.2⟩

def SensorRow.name (row : SensorRow) : String := row.sensor.getD "(no-name)"

/-- `value.unwrap_or(0)`. -/
def orZero (value : Option Counter) : ℤ := value.elim 0 fun n => n.val

/-- `sensor_data` and `previous_values`. -/
structure SensorTables where
  data : String → Option (List Point)
  previous : String → Option ℤ

def SensorTables.empty : SensorTables := ⟨fun _ => none, fun _ => none⟩

/-- The body of the loop over the rows. -/
def SensorTables.add (t : SensorTables) (row : SensorRow) : SensorTables where
  data := match t.previous row.name with
    | some previous =>
        Function.update t.data row.name
          (some ((t.data row.name).getD [] ++ [⟨row.timestamp, increase previous (orZero row.value)⟩]))
    | none => t.data
  previous := Function.update t.previous row.name (some (orZero row.value))

/-- `stats_agg_diff_by_sensor`. -/
def statsAggDiffBySensor (p : StatsAggQueryParams) (store : List StatsRow) : Option (String → Option (List Point)) := do
  let startTime ← p.startTime.toNanos
  let endTime ← p.endTime.toNanos
  let rows := store.filter fun row => row.within startTime endTime
  some ((sensorRows p.interval p.path rows).foldl SensorTables.add .empty).data

/-! ## What is asked of it -/

/-- The rows of a sensor, in the time of the parameters. -/
def StatsAggQueryParams.rowsOf (p : StatsAggQueryParams) (sensor : String) (store : List StatsRow) : List StatsRow :=
  store.filter fun row => row.within p.startTime.nanos p.endTime.nanos && row.hasSensor (some sensor)

/-- The counter never decreases. -/
def NeverDecreases (path : String) (rows : List StatsRow) : Prop :=
  ∀ a ∈ rows, ∀ b ∈ rows, a.timestamp < b.timestamp → ∀ m ∈ a.counter path, ∀ n ∈ b.counter path, m ≤ n

/-- The maxima of the buckets that have the counter. -/
def recorded (interval : ℕ) (path : String) (rows : List StatsRow) : List (ℤ × ℤ) :=
  (bucketMaxima interval path rows).entries.filterMap fun e => e.2.map fun (n : Counter) => (e.1, (n.val : ℤ))

/-- The differences of successive values. -/
def differences (values : List (ℤ × ℤ)) : List Point :=
  values.zipWith (fun previous e => ⟨e.1, e.2 - previous.2⟩) values.tail

/-- What is recorded is what the series has the differences of. -/
structure IsIncrease (values : List (ℤ × ℤ)) (series : List Point) : Prop where
  differences : series = differences values
  total : ∀ first ∈ values.head?, ∀ last ∈ values.getLast?, (series.map (·.value)).sum = last.2 - first.2

/-- Both ways give a sensor the same series, and that of its increase if the counter never decreases. -/
def SameSeries (driver : Driver) (p : StatsAggQueryParams) (sensor : String) (store : List StatsRow) : Prop :=
  ∃ series data, statsAggDiff driver { p with sensorName := some sensor } store = some series ∧
    statsAggDiffBySensor p store = some data ∧ (data sensor).getD [] = series ∧
    (NeverDecreases p.path (p.rowsOf sensor store) →
      IsIncrease (recorded p.interval p.path (p.rowsOf sensor store)) series)

/-- The rows are all in one bucket. -/
def OneBucket (interval : ℕ) (rows : List StatsRow) : Prop :=
  ∀ a ∈ rows, ∀ b ∈ rows, bucket interval a.timestamp = bucket interval b.timestamp

/-- Each bucket has the counter in it. -/
def EachCounted (interval : ℕ) (path : String) (rows : List StatsRow) : Prop :=
  ∀ a ∈ rows, ∃ b ∈ rows, bucket interval b.timestamp = bucket interval a.timestamp ∧ (b.counter path).isSome = true

/-- The rows whose host has the name of the sensor without one. -/
def StatsAggQueryParams.misnamed (p : StatsAggQueryParams) (store : List StatsRow) : List StatsRow :=
  store.filter fun row => row.within p.startTime.nanos p.endTime.nanos && row.host = some "(no-name)"

/-- The times are those of an `i64`; a bucket without the counter is not taken for one with a zero; and no host has the
name of the sensor without one. -/
structure Comparable (driver : Driver) (p : StatsAggQueryParams) (sensor : String) (store : List StatsRow) : Prop where
  start : p.startTime.toNanos.isSome = true
  stop : p.endTime.toNanos.isSome = true
  refused : driver.readNull = none → EachCounted p.interval p.path (p.rowsOf sensor store)
  counted : NeverDecreases p.path (p.rowsOf sensor store) →
    EachCounted p.interval p.path (p.rowsOf sensor store) ∨ OneBucket p.interval (p.rowsOf sensor store)
  named : sensor = "(no-name)" → p.misnamed store = [] ∨
    p.rowsOf sensor store = [] ∧ OneBucket p.interval (p.misnamed store)

end EveBox.Sqlite
