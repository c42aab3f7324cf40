import EveBox.Sqlite.Search

/-!
# The histogram of times over SQLite

Reference: `src/sqlite/eventrepo/stats.rs` and, of `src/util/mod.rs`, `histogram_interval`.

Where the code divides by zero, overflows, panics or fails there is no result.
-/

namespace EveBox.Sqlite

open Rust Eve Repo SqlText

/-! ## The statement -/

/-- The start of the interval that an event falls into. -/
def bucketSql (interval : ℕ) : SqlText :=
  lit "timestamp / 1000000000 / " ++ lit (toString interval) ++ lit " * " ++ lit (toString interval)

/-- The builder in `histogram_time`, before `build`. -/
def histogramBuilder (fts : Bool) (interval : ℕ) (query : List QueryElement) : Option EventQueryBuilder :=
  let b : EventQueryBuilder :=
    { fts, select := [bucketSql interval, lit "count(" ++ bucketSql interval ++ lit ")"], tables := [lit "events"],
      groupBy := [bucketSql interval], orderBy := some (lit "timestamp", lit "asc") }
  b.applyQueryString query

/-- What the statement says of events. There are no joins in it. -/
def histogramSearch (fts : Bool) (query : List QueryElement) : Option Search :=
  (query.mapM (term fts)).map fun terms => ⟨[], terms.flatMap (·.conditions), terms.flatMap (·.phrases)⟩

/-- The statement of `histogram_time`, if it runs. -/
def histogramStatement (engine : Engine) (fts : Bool) (interval : ℕ) (query : List QueryElement) : Option Search := do
  let b ← histogramBuilder fts interval query
  let s ← histogramSearch fts query
  if s.conditions.all Condition.encloses && engine.runs b.build then some s else none

/-! ## Times -/

/-- The first second of `chrono`. -/
def firstSecond : ℤ := -8334601228800

/-- The last second of `chrono`. -/
def lastSecond : ℤ := 8210266876799

/-- `DateTime::from_seconds`. -/
def fromSeconds (seconds : ℤ) : Option DateTime :=
  if firstSecond ≤ seconds ∧ seconds ≤ lastSecond then some (.fromNanos (seconds * 1000000000)) else none

/-- `DateTime::to_seconds`. -/
def secondsOf (ts : DateTime) : ℤ := ts.nanos / 1000000000

/-- `as u64`. -/
def asU64 (n : ℤ) : ℕ := (n % 2 ^ 64).toNat

/-- `+` of `i64`. -/
def addI64 (a b : ℤ) : Option ℤ := if -2 ^ 63 ≤ a + b ∧ a + b < 2 ^ 63 then some (a + b) else none

/-- `histogram_interval`. -/
def histogramInterval (range : ℤ) : ℕ :=
  if range ≤ 60 then 1
  else if range ≤ 3600 then 60
  else if range ≤ 3600 * 3 then 60 * 2
  else if range ≤ 3600 * 6 then 60 * 3
  else if range ≤ 3600 * 12 then 60 * 5
  else if range ≤ 3600 * 24 then 60 * 15
  else if range ≤ 3600 * 24 * 3 then 3600
  else if range ≤ 3600 * 24 * 7 then 3600 * 3
  else if range ≤ 3600 * 24 * 14 then 3600 * 12
  else 3600 * 24

/-! ## Rows -/

/-- The start of the interval that an event falls into: SQLite divides towards zero. -/
def bucket (interval : ℕ) (timestamp : ℤ) : ℤ := (timestamp.tdiv 1000000000).tdiv interval * interval

/-- The rows of the statement: an interval from `2 ^ 63` on is a real number in it, and so are the starts, which are not
read as `i64`. -/
def bucketRows (interval : ℕ) (timestamps : List ℤ) : Option (List (ℤ × ℕ)) :=
  if interval < 2 ^ 63 then
    some (((timestamps.map (bucket interval)).dedup.mergeSort (· ≤ ·)).map fun time =>
      (time, (timestamps.map (bucket interval)).count time))
  else if timestamps = [] then some [] else none

/-! ## Filling -/

/-- `Element`. -/
structure Element where
  time : ℤ
  count : ℕ
  debug : String
deriving DecidableEq, Repr

section

variable (lib : TimeLib)

/-- The element of a time in seconds. -/
def element (seconds : ℤ) (count : ℕ) : Option Element :=
  (fromSeconds seconds).map fun dt => ⟨seconds * 1000, count, dt.toEve lib⟩

/-- More passes than `chrono` has seconds. -/
def passes : ℕ := 16544868105601

/-- `while next_time < …`: the elements, and the time behind them. -/
def fill (step stop : ℤ) : ℕ → ℤ → Option (List Element × ℤ)
  | 0, _ => none
  | fuel + 1, next =>
      if next < stop then do
        let e ← element lib next 0
        let next' ← addI64 next step
        let rest ← fill step stop fuel next'
        some (e :: rest.1, rest.2)
      else some ([], next)

/-- The loop over the rows. -/
def walk (step : ℤ) : List (ℤ × ℕ) → ℤ → Option (List Element × ℤ)
  | [], next => some ([], next)
  | (time, count) :: rows, next => do
      let e ← element lib time count
      let zeros ← fill lib step time passes next
      let next' ← addI64 zeros.2 step
      let rest ← walk step rows next'
      some (zeros.1 ++ e :: rest.1, rest.2)

/-- The elements from the rows and the two ends. -/
def histogram (step start last : ℤ) (rows : List (ℤ × ℕ)) : Option (List Element) := do
  let filled ← walk lib step rows start
  let zeros ← fill lib step (last + 1) passes filled.2
  some (filled.1 ++ zeros.1)

/-- The first `@from` of a query. -/
def firstFrom (query : List QueryElement) : Option DateTime :=
  query.findSome? fun e => match e.value with
    | .fromTime ts => some ts
    | _ => none

/-- The earliest time: that of the query, or of the events. -/
def earliestOf (query : List QueryElement) (store : List EventRow) : Option DateTime :=
  (firstFrom query).or ((store.map (·.timestamp)).min?.map DateTime.fromNanos)

/-- The interval that is asked for, or one that goes with the time. -/
def intervalOf (interval : Option ℕ) (now : ℤ) (earliest : DateTime) : ℕ :=
  interval.getD (histogramInterval (now - secondsOf earliest))

/-- `last_time`. -/
def lastTime (interval : ℕ) (now : ℤ) : ℤ := now.tdiv (asI64 interval) * asI64 interval

/-- The first `next_time`. -/
def startTime (interval : ℕ) (earliest : DateTime) : ℤ := asI64 (asU64 (secondsOf earliest) / interval * interval)

/-- `histogram_time`, at a time in seconds. -/
def histogramTime (engine : Engine) (fts : Bool) (now : ℤ) (interval : Option ℕ) (query : List QueryElement)
    (store : List EventRow) : Option (List Element) :=
  match earliestOf query store with
  | none => some []
  | some earliest =>
      let interval := intervalOf interval now earliest
      if interval = 0 then none
      else do
        let s ← histogramStatement engine fts interval query
        let rows ← bucketRows interval ((store.filter (s.selects engine)).map (·.timestamp))
        histogram lib (asI64 interval) (startTime interval earliest) (lastTime interval now) rows

end

/-! ## What is asked of it -/

/-- The elements are a histogram of the timestamps: one element for each interval, from the first to the last, with the
count of the events that SQLite puts into it. -/
structure IsHistogram (interval : ℕ) (earliest now : ℤ) (timestamps : List ℤ) (elements : List Element) : Prop where
  steps : elements.IsChain fun (a b : Element) => b.time = a.time + 1000 * (interval : ℤ)
  covers : ∀ t : ℤ, (interval : ℤ) ∣ t → earliest / interval * interval ≤ t → t ≤ now / interval * interval →
    1000 * t ∈ elements.map (·.time)
  counts : ∀ e ∈ elements, e.count = timestamps.countP fun ts => 1000 * bucket interval ts = e.time
  keeps : ∀ ts ∈ timestamps, 1000 * bucket interval ts ∈ elements.map (·.time)
  total : (elements.map (·.count)).sum = timestamps.length

/-- `histogram_time` gives a histogram of the events that the query selects. -/
def GivesHistogram (lib : TimeLib) (engine : Engine) (fts : Bool) (now : ℤ) (interval : Option ℕ)
    (query : List QueryElement) (store : List EventRow) : Prop :=
  ∃ elements s earliest, histogramTime lib engine fts now interval query store = some elements ∧
    earliestOf query store = some earliest ∧
    histogramStatement engine fts (intervalOf interval now earliest) query = some s ∧
    IsHistogram (intervalOf interval now earliest) (secondsOf earliest) now
      ((store.filter (s.selects engine)).map (·.timestamp)) elements

/-- The interval that is used, and the time that it begins with. -/
structure Regular (engine : Engine) (fts : Bool) (interval : ℕ) (query : List QueryElement) (earliest : DateTime) : Prop where
  runs : (histogramStatement engine fts interval query).isSome = true
  pos : 0 < interval
  small : interval < 2 ^ 63
  /-- Before 1970, an interval fits into the numbers of `u64`, and its start into the times of `chrono`. -/
  fits : 0 ≤ secondsOf earliest ∨
    interval ∣ 2 ^ 64 ∧ firstSecond ≤ secondsOf earliest / interval * interval

end EveBox.Sqlite
