import Mathlib.Data.List.Sort
import EveBox.Sink.Sqlite

/-!
# The full text index

Reference: `src/sqlite/util.rs`, `src/sqlite/importer.rs`, `src/sqlite/retention.rs` and the endpoints of
`src/server/api/sqlite.rs`.

The index is a table of its own that the importer fills, a trigger empties and a rebuild creates anew. A
transaction that fails leaves the database as it was. Each step of one may fail: a number says how many of them
succeed before that.
-/

namespace EveBox.Sqlite

open Rust Sink

/-- The tables and the trigger `events_ad_trigger`. -/
structure Database where
  store : Store
  trigger : Bool
deriving DecidableEq

/-- Why a statement fails. -/
inductive FtsError
  | fault
  | tableExists
  | triggerExists
  | noSuchTable
  | noSuchTrigger
  /-- The index is told to delete what it does not have. -/
  | malformed
deriving DecidableEq, Repr

/-- How many more steps succeed, if one is to fail. -/
abbrev Budget := Option ℕ

/-- A step that fails when its time has come. -/
def attempt : Budget → Except FtsError Budget
  | none => .ok none
  | some 0 => .error .fault
  | some (n + 1) => .ok (some n)

/-- An error of a statement, where it has one. -/
def require (p : Bool) (err : FtsError) : Except FtsError Unit := if p then .ok () else .error err

/-- The entry of a row in the index. -/
def EventRow.ftsRow (e : EventRow) : FtsRow := ⟨e.rowid, e.timestamp, e.sourceValues⟩

/-! ## Creating and dropping the index -/

/-- `fts_create`. -/
def ftsCreate (db : Database) (budget : Budget) : Except FtsError (Database × Budget) := do
  let budget ← attempt budget
  require db.store.fts.isNone .tableExists
  let db := { db with store := { db.store with fts := some [] } }
  let budget ← attempt budget
  require (!db.trigger) .triggerExists
  .ok ({ db with trigger := true }, budget)

/-- The statements for a row: `UPDATE events` and `INSERT INTO fts`. -/
def reindexUpdate (db : Database) (row : EventRow) (flat : String) : Database :=
  { db with store := { db.store with
    events := db.store.events.map fun e => if e.rowid = row.rowid then { e with sourceValues := flat } else e } }

def reindexInsert (db : Database) (row : EventRow) (flat : String) : Except FtsError Database :=
  match db.store.fts with
  | some fts => .ok { db with store := { db.store with fts := some (fts ++ [⟨row.rowid, row.timestamp, flat⟩]) } }
  | none => .error .noSuchTable

/-- The inner loop of `reindex_fts`. -/
def reindexRows : List EventRow → Database → Budget → Except FtsError (Database × Budget)
  | [], db, budget => .ok (db, budget)
  | row :: rows, db, budget => do
      -- the source of the row is parsed
      let budget ← attempt budget
      let flat := extractValues row.source
      let budget ← attempt budget
      let db := reindexUpdate db row flat
      let budget ← attempt budget
      let db ← reindexInsert db row flat
      reindexRows rows db budget

/-- `SELECT … WHERE rowid >= ? ORDER BY rowid ASC LIMIT 10000`: a table has its rows in that order. -/
def reindexSelect (db : Database) (nextId : ℕ) : List EventRow :=
  (db.store.events.filter fun e => nextId ≤ e.rowid).take 10000

/-- The loop of `reindex_fts`, as often as there can be rows left. -/
def reindexLoop : ℕ → ℕ → Database → Budget → Except FtsError (Database × Budget)
  | 0, _, _, _ => .error .fault
  | n + 1, nextId, db, budget => do
      let budget ← attempt budget
      match (reindexSelect db nextId).getLast? with
      | none => .ok (db, budget)
      | some last => do
          let (db, budget) ← reindexRows (reindexSelect db nextId) db budget
          reindexLoop n (last.rowid + 1) db budget

/-- `reindex_fts`. -/
def reindexFts (db : Database) (budget : Budget) : Except FtsError (Database × Budget) :=
  reindexLoop (db.store.events.length + 1) 0 db budget

/-- `fts_enable`. -/
def ftsEnable (db : Database) (budget : Budget) : Except FtsError (Database × Budget) := do
  let budget ← attempt budget
  if db.store.fts.isSome then .ok (db, budget)
  else do
    let (db, budget) ← ftsCreate db budget
    reindexFts db budget

/-- `fts_disable`. -/
def ftsDisable (db : Database) (budget : Budget) : Except FtsError (Database × Budget) := do
  let budget ← attempt budget
  require db.store.fts.isSome .noSuchTable
  let db := { db with store := { db.store with fts := none } }
  let budget ← attempt budget
  require db.trigger .noSuchTrigger
  .ok ({ db with trigger := false }, budget)

/-- An endpoint: `BEGIN`, a function in the transaction, and `COMMIT`. -/
def endpoint (f : Database → Budget → Except FtsError (Database × Budget)) (db : Database) (budget : Budget) :
    Except FtsError Database := do
  let budget ← attempt budget
  let (db, budget) ← f db budget
  let _ ← attempt budget
  .ok db

/-! ## Retention -/

/-- The trigger, for a row that is deleted. -/
def fireTrigger (db : Database) (row : EventRow) : Except FtsError Database :=
  if db.trigger then
    match db.store.fts with
    | none => .error .noSuchTable
    | some fts =>
        if row.ftsRow ∈ fts then
          .ok { db with store := { db.store with fts := some (fts.filter fun r => r ≠ row.ftsRow) } }
        else .error .malformed
  else .ok db

/-- `DELETE FROM events`, row by row. -/
def deleteRows : List EventRow → Database → Except FtsError Database
  | [], db => .ok db
  | row :: rows, db => do
      let db ← fireTrigger
        { db with store := { db.store with events := db.store.events.filter fun e => e.rowid ≠ row.rowid } } row
      deleteRows rows db

/-- The rows that the subquery of a deletion selects. -/
def selectOldest (p : EventRow → Bool) (limit : ℕ) (db : Database) : List EventRow :=
  ((db.store.events.filter p).insertionSort fun e f => e.timestamp ≤ f.timestamp).take limit

/-- `delete_older_than`. -/
def deleteOlderThan (olderThan : ℤ) (limit : ℕ) (db : Database) (budget : Budget) : Except FtsError Database := do
  let _ ← attempt budget
  deleteRows (selectOldest (fun e => e.timestamp < olderThan && !e.escalated) limit db) db

/-- `delete_oldest_events_n`. -/
def deleteOldestEventsN (limit : ℕ) (db : Database) (budget : Budget) : Except FtsError Database := do
  let _ ← attempt budget
  deleteRows (selectOldest (fun e => !e.escalated) limit db) db

/-! ## Runs -/

/-- What is done with the database, and where it fails. -/
inductive FtsOp
  | commit (queue : List PreparedEvent) (fault : Option SqlError)
  | deleteOlderThan (olderThan : ℤ) (limit : ℕ) (budget : Budget)
  | deleteOldest (limit : ℕ) (budget : Budget)
  | enable (budget : Budget)
  | disable (budget : Budget)

/-- What is left of a transaction. -/
def Database.after {ε : Type} (db : Database) : Except ε Database → Database
  | .ok db' => db'
  | .error _ => db

/-- The transaction of the importer. -/
def importerCommit (queue : List PreparedEvent) (fault : Option SqlError) (db : Database) :
    Except SqlError Database :=
  (transaction fault db.store queue).map fun store => { db with store }

/-- One operation. -/
def Database.apply (db : Database) : FtsOp → Database
  | .commit queue fault => db.after (importerCommit queue fault db)
  | .deleteOlderThan olderThan limit budget => db.after (Sqlite.deleteOlderThan olderThan limit db budget)
  | .deleteOldest limit budget => db.after (deleteOldestEventsN limit db budget)
  | .enable budget => db.after (endpoint ftsEnable db budget)
  | .disable budget => db.after (endpoint ftsDisable db budget)

/-- Some operations, one after the other. -/
def Database.applyAll (db : Database) (ops : List FtsOp) : Database := ops.foldl Database.apply db

/-- A database to begin with. -/
inductive Database.Initial
  /-- One that `init_event_db` has created. -/
  | fresh
  /-- One with events and without an index. -/
  | unindexed (events : List EventRow) (sorted : events.Pairwise fun e f => e.rowid < f.rowid)

/-- The database. -/
def Database.Initial.database : Database.Initial → Database
  | fresh => ⟨⟨[], some []⟩, true⟩
  | unindexed events _ => ⟨⟨events, none⟩, false⟩

end EveBox.Sqlite
