import EveBox.Rust.Json

/-!
# The SQLite store

Reference: `resources/sqlite/migrations`.

A column that holds JSON is kept as its value, and a column that holds 0 or 1 as a `Bool`.
-/

namespace EveBox.Sqlite

open Rust

/-- A row of the table `events`. -/
structure EventRow where
  rowid : ℕ
  /-- Nanoseconds since the epoch. -/
  timestamp : ℤ
  archived : Bool
  escalated : Bool
  source : Json
  sourceValues : String
  history : List Json
deriving DecidableEq, Repr

/-- A row of the full text index `fts`. -/
structure FtsRow where
  rowid : ℕ
  timestamp : ℤ
  sourceValues : String
deriving DecidableEq, Repr

/-- The tables; there may be no full text index. -/
structure Store where
  events : List EventRow
  fts : Option (List FtsRow)
deriving DecidableEq, Repr

namespace Store

/-- The row identifier that the next row gets. -/
def nextRowid (s : Store) : ℕ := (s.events.map (·.rowid)).foldl max 0 + 1

end Store

end EveBox.Sqlite
