import EveBox.Lib.Calendar
import EveBox.Lib.FixedPattern
import EveBox.Rust.Numbers
import EveBox.Sink.Elastic
import EveBox.Sqlite.AlertGroup

/-!
# The retention of indices

Reference: `src/elastic/retention.rs`, and `select_index` and `submit` of `src/elastic/importer.rs`.

The dates of an event and of an index are days of the calendar; times are nanoseconds since the epoch.
-/

namespace EveBox.Elastic

open Rust Eve Sink Calendar
open Sqlite (asI64)

/-! ## Dates of events -/

/-- The nanoseconds of a day. -/
def dayNanos : ℤ := 86400 * 1000000000

/-- The time of an event: the offset is one of `FixedOffset`, less than a day. -/
structure EventTime extends DateTime where
  west : -86400 < offset
  east : offset < 86400

/-- The day of an event where it has been recorded. -/
def EventTime.localDay (ts : EventTime) : ℤ := (ts.nanos + ts.offset * 1000000000) / dayNanos

def EventTime.localDate (ts : EventTime) : Date := dateOf ts.localDay

/-- A number with at least some digits. -/
def pad (width n : ℕ) : List Char := List.replicate (width - (Nat.toDigits 10 n).length) '0' ++ Nat.toDigits 10 n

/-- `%Y`: a year that has not four digits comes with its sign. -/
def yearText (year : ℤ) : List Char :=
  if 0 ≤ year ∧ year ≤ 9999 then pad 4 year.natAbs
  else if year < 0 then '-' :: pad 4 year.natAbs
  else '+' :: pad 4 year.natAbs

/-- `%Y.%m.%d`. -/
def dateText (d : Date) : List Char :=
  yearText d.year ++ '.' :: (pad 2 d.month.natAbs ++ '.' :: pad 2 d.day.natAbs)

/-- What the code uses of `chrono` and `regex`. -/
structure DateLib where
  time : TimeLib
  digits : DigitClass
  /-- The date that is formatted is that of the place of the event. -/
  ymd : ∀ ts : EventTime, ts.yyyymmdd time "." = String.ofList (dateText ts.localDate)

/-- The index that `submit` selects for an event in dated mode. -/
def DateLib.index (lib : DateLib) (base : String) (opensearch : Bool) (eventType : Option String) (ts : EventTime) :
    String :=
  selectIndex base false opensearch eventType (ts.yyyymmdd lib.time ".")

/-! ## Dates of indices -/

/-- `(\d{4})\.(\d{2})\.(\d{2})`. -/
def datePattern (digits : DigitClass) : List (Char → Bool) :=
  [digits.isDigit, digits.isDigit, digits.isDigit, digits.isDigit, (· = '.'),
    digits.isDigit, digits.isDigit, (· = '.'), digits.isDigit, digits.isDigit]

/-- The date of a text that matches: the digits are parsed as numbers, and `with_ymd_and_hms` gives the date if there is
one. -/
def readDate (found : List Char) : Option Date := do
  let year ← parseUnsigned (2 ^ 31 - 1) (found.take 4)
  let month ← parseUnsigned (2 ^ 32 - 1) ((found.drop 5).take 2)
  let day ← parseUnsigned (2 ^ 32 - 1) ((found.drop 8).take 2)
  let date : Date := ⟨year, month, day⟩
  if date.Exists then some date else none

/-- `parse_index_date`. -/
def parseIndexDate (digits : DigitClass) (name : String) : Option Date :=
  (FixedPattern.find (datePattern digits) name.toList).bind readDate

/-! ## Deletion -/

/-- `signed_duration_since(date).num_days()`. -/
def age (now : ℤ) (date : Date) : ℤ := ((now - date.days * dayNanos).tdiv 1000000000).tdiv 86400

/-- An index that is older than some days. -/
def outdated (digits : DigitClass) (days : ℕ) (name : String) (now : ℤ) : Bool :=
  (parseIndexDate digits name).any fun date => asI64 days < age now date

/-- `do_delete_indices`: the names come with the time at which each is looked at. The result is the indices that the
client has been asked to delete, and the count; `delete` says what becomes of the request, if there is a response. -/
def doDeleteIndices (digits : DigitClass) (delete : String → Option Bool) (days : ℕ) (force : Bool) :
    List (String × ℤ) → List String × ℕ
  | [] => ([], 0)
  | (name, now) :: indices =>
      let (deleted, count) := doDeleteIndices digits delete days force indices
      if outdated digits days name now then
        if force then (name :: deleted, if delete name = some true then count + 1 else count)
        else (deleted, count + 1)
      else (deleted, count)

/-! ## What is asked of it -/

/-- The date of the index is read back from its name, and the index is kept while the event is younger than some days. -/
structure Retained (lib : DateLib) (base : String) (opensearch : Bool) (eventType : Option String) (ts : EventTime)
    (days : Fin (2 ^ 64)) : Prop where
  readBack : parseIndexDate lib.digits (lib.index base opensearch eventType ts) = some ts.localDate
  kept : ∀ delete force (indices : List (String × ℤ)),
    (∀ e ∈ indices, e.1 = lib.index base opensearch eventType ts → e.2 - ts.nanos < days * dayNanos) →
    lib.index base opensearch eventType ts ∉ (doDeleteIndices lib.digits delete days force indices).1

/-- The date has four digits of the year, the first date that is found in the base is the same, the event is not behind
the day of UTC that has its date, and the days are those of an `i64`. -/
structure Datable (lib : DateLib) (base : String) (ts : EventTime) (days : Fin (2 ^ 64)) : Prop where
  year : 0 ≤ ts.localDate.year ∧ ts.localDate.year ≤ 9999
  base : ∀ found, FixedPattern.find (datePattern lib.digits) base.toList = some found →
    readDate found = some ts.localDate
  day : ts.nanos ≤ (ts.localDay + 1) * dayNanos
  days : days.val < 2 ^ 63

end EveBox.Elastic
