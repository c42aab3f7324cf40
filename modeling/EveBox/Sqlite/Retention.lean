import EveBox.Sqlite.AlertGroup
import Mathlib.Data.List.Sort

/-!
# Retention

Reference: `src/sqlite/retention.rs`, `src/elastic/retention.rs`, and of `src/util/mod.rs` `parse_humansize`.

The arithmetic is that of a release build, where products wrap around.
-/

namespace EveBox.Sqlite

open Rust Eve

/-! ## Values -/

/-- A `u64` or `usize`. -/
abbrev U64 := Fin (2 ^ 64)

/-- `EnabledWithValue`. -/
structure EnabledWithValue where
  enabled : Bool
  value : U64
deriving DecidableEq, Repr

/-- How a computation with a value ends. -/
inductive Outcome
  | ok (n : ℤ)
  | rejected
  | panicked
deriving DecidableEq, Repr

/-- The number that decimal digits spell. -/
def parseNumber (text : List Char) : Option ℕ :=
  let digits := match text with
    | '+' :: digits => digits
    | digits => digits
  if digits = [] ∨ ¬ digits.all Char.isDigit then none
  else some (digits.foldl (fun n c => 10 * n + (c.toNat - '0'.toNat)) 0)

/-- `str::parse::<usize>`. -/
def parseUsize (text : List Char) : Option ℕ := (parseNumber text).filter (· < 2 ^ 64)

/-- `usize::checked_mul`. -/
def checkedMul (a b : ℕ) : Option ℕ := if a * b < 2 ^ 64 then some (a * b) else none

/-- The unit of a size. -/
def sizeUnit (unit : List Char) : Option ℕ :=
  if unit = "GB".toList then some 1000000000 else if unit = "MB".toList then some 1000000 else none

/-- The groups of `^(\d+)\s*(.*)$`. -/
def sizeParts (isDigit : Char → Bool) (input : List Char) : Option (List Char × List Char) :=
  let value := input.takeWhile isDigit
  let unit := (input.dropWhile isDigit).dropWhile isWhitespace
  if value = [] ∨ '\n' ∈ unit then none else some (value, unit)

/-- `parse_humansize`; `isDigit` is `\d` of a regular expression. -/
def parseHumansize (isDigit : Char → Bool) (input : List Char) : Option ℕ :=
  match parseUsize input with
  | some size => some size
  | none => do
      let (value, unit) ← sizeParts isDigit input
      let value ← parseUsize value
      let factor ← sizeUnit unit
      checkedMul value factor

/-- `config.value as usize * 1000000000`. -/
def gigabytes (value : U64) : ℕ := value.val * 1000000000 % 2 ^ 64

/-- `get_size`, from `database.retention.size` and the settings. -/
def getSize (isDigit : Char → Bool) (size : Option String) (setting : Option EnabledWithValue) : ℕ :=
  match size.bind fun text => parseHumansize isDigit text.toList with
  | some size => size
  | none =>
      match setting with
      | some config => if config.enabled then gigabytes config.value else 0
      | none => 0

/-- `get_days`, from `database.retention.days`, `database.retention-period` and the settings. -/
def getDays (days period : Option U64) (setting : Option EnabledWithValue) : Option U64 :=
  match days.or period with
  | some days => if 0 < days.val then some days else none
  | none =>
      match setting with
      | some config => if config.enabled then some config.value else some 7
      | none => some 7

/-! ## Cut-offs -/

/-- The seconds of the longest `chrono::Duration`. -/
def maxSeconds : ℤ := 9223372036854775

/-- The nanoseconds of the first instant of `chrono`. -/
def firstInstant : ℤ := -8334601228800 * 1000000000

/-- `now.sub(Duration::from_secs(seconds))`; `none` where it panics. -/
def subSeconds (now : DateTime) (seconds : ℕ) : Option DateTime :=
  if maxSeconds < seconds then none
  else
    let nanos := now.nanos - seconds * 1000000000
    if firstInstant ≤ nanos then some { now with nanos } else none

/-- The bound of the statements: `sub` and `to_nanos`. -/
def cutoff (now : DateTime) (seconds : ℕ) : Outcome :=
  match (subSeconds now seconds).bind DateTime.toNanos with
  | some nanos => .ok nanos
  | none => .panicked

/-- The bound in `delete_older_than`. -/
def olderThan (now : DateTime) (days : U64) : Outcome := cutoff now (days.val * 86400 % 2 ^ 64)

/-- The bound in `auto_archive`. -/
def archivedBefore (now : DateTime) (value : U64) : Outcome := cutoff now (86400 * value.val % 2 ^ 64)

/-- `days as i64`, in `do_delete_indices`: an index goes if it is older. -/
def indexDays (days : U64) : ℤ := asI64 days.val

/-- The bound in `auto_archive` of `src/elastic/retention.rs`. -/
def elasticArchivedBefore (now : DateTime) (value : U64) : Outcome :=
  let days := asI64 value.val
  if maxSeconds < days.natAbs * 86400 then .panicked
  -- a negative duration is none of the standard library
  else if days < 0 then .rejected
  else
    let nanos := now.nanos - days * 86400 * 1000000000
    if firstInstant ≤ nanos then .ok nanos else .panicked

/-! ## `delete_to_size` -/

/-- The table: the row identifier is the primary key. -/
structure EventTable where
  rows : List EventRow
  nodup : (rows.map (·.rowid)).Nodup

namespace EventTable

/-- The rows that may be deleted. -/
def deletable (t : EventTable) : List EventRow := t.rows.filter fun row => !row.escalated

/-- `SELECT rowid FROM events WHERE escalated = 0 ORDER BY timestamp ASC LIMIT ?`. -/
def oldest (t : EventTable) (limit : ℕ) : List ℕ :=
  ((t.deletable.insertionSort fun a b => a.timestamp ≤ b.timestamp).take limit).map (·.rowid)

/-- `DELETE FROM events WHERE rowid IN ..`. -/
def delete (t : EventTable) (rowids : List ℕ) : EventTable where
  rows := t.rows.filter fun row => row.rowid ∉ rowids
  nodup := t.nodup.sublist (List.filter_sublist.map _)

/-- `delete_oldest_events_n`: what is left, and the number of rows that are deleted. -/
def deleteOldestEventsN (t : EventTable) (limit : ℕ) : EventTable × ℕ :=
  let next := t.delete (t.oldest limit)
  (next, t.rows.length - next.rows.length)

end EventTable

/-- What `delete_to_size` finds outside: the size of the file with the events that it holds, and in which rounds
the size cannot be read or the statement fails. -/
structure Disk where
  size : List EventRow → ℕ
  sizeFails : ℕ → Bool
  deleteFails : ℕ → Bool
  /-- Deleting rows never makes the file larger. -/
  size_le : ∀ {a b : List EventRow}, a.Sublist b → size a ≤ size b

/-- What a round of the loop does. -/
inductive Round
  | failed
  /-- The file is small enough. -/
  | small
  | deleted (next : EventTable) (n : ℕ)

/-- A round of the loop in `delete_to_size`. -/
def deleteRound (disk : Disk) (bytes i : ℕ) (t : EventTable) : Round :=
  if disk.sizeFails i then .failed
  else if disk.size t.rows < bytes then .small
  else if disk.deleteFails i then .failed
  else .deleted (t.deleteOldestEventsN 1000).1 (t.deleteOldestEventsN 1000).2

/-- How the loop ends: the number of rows that are deleted and the table, or an error. -/
abbrev Deletion := Option (ℕ × EventTable)

/-- The loop, for as many rounds as there is fuel. -/
def deleteToSizeLoop (disk : Disk) (bytes : ℕ) : ℕ → ℕ → EventTable → ℕ → Option Deletion
  | 0, _, _, _ => none
  | fuel + 1, i, t, deleted =>
      match deleteRound disk bytes i t with
      | .failed => some none
      | .small => some (some (deleted, t))
      | .deleted next n => deleteToSizeLoop disk bytes fuel (i + 1) next (deleted + n)

/-- `delete_to_size`. -/
def deleteToSize (disk : Disk) (bytes fuel : ℕ) (t : EventTable) : Option Deletion :=
  deleteToSizeLoop disk bytes fuel 0 t 0

end EveBox.Sqlite
