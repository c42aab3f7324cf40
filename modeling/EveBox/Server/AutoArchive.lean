import Mathlib.Data.List.Nodup
import EveBox.Lib.Transition
import EveBox.Rust.Json

/-!
# Auto-archive filters

Reference: `src/server/autoarchive.rs`, and `add_filter` and `delete_filter` of `src/server/api/admin.rs`.

Filters are rows of a table and members of a set in memory. Each request changes both, in steps of its own.
Of the database the following is taken: changes of a transaction are seen once it has committed, one transaction
writes at a time, and a transaction that has read cannot write after another one has committed.
-/

namespace EveBox.Server

open Rust

/-! ## Filters -/

/-- `FilterAction`. -/
inductive FilterAction
  | archive
deriving DecidableEq, Repr

/-- `FilterOperator`. -/
inductive FilterOperator
  | eq
deriving DecidableEq, Repr

/-- `FilterCondition`. -/
structure FilterCondition where
  field : String
  op : FilterOperator
  value : Json
deriving DecidableEq

/-- `EventFilter`. -/
structure EventFilter where
  action : FilterAction
  conditions : List FilterCondition
deriving DecidableEq

/-- `FilterEntry`, the form of a request. -/
structure FilterEntry where
  sensor : Option String
  srcIp : Option String
  destIp : Option String
  dnsRrname : Option String
  tlsSni : Option String
  signatureId : ℤ
  comment : Option String

/-- `push_string`. -/
def pushString (field : String) (value : Option String) : List FilterCondition :=
  (value.map fun value => ⟨field, .eq, .string value⟩).toList

/-- `EventFilter::from(&entry)`. -/
def EventFilter.ofEntry (entry : FilterEntry) : EventFilter where
  action := .archive
  conditions :=
    pushString "host" entry.sensor ++ pushString "src_ip" entry.srcIp ++ pushString "dest_ip" entry.destIp ++
      pushString "dns.queries.rrname" entry.dnsRrname ++ pushString "tls.sni" entry.tlsSni ++
      [⟨"alert.signature_id", .eq, .number (.int entry.signatureId)⟩]

/-- `AutoArchive`. -/
structure AutoArchive where
  filters : List EventFilter
deriving DecidableEq

/-- `AutoArchive::default`. -/
def AutoArchive.new : AutoArchive := ⟨[]⟩

/-- `AutoArchive::add`. -/
def AutoArchive.add (a : AutoArchive) (filter : EventFilter) : AutoArchive :=
  if filter.conditions ≠ [] ∧ filter ∉ a.filters then ⟨a.filters ++ [filter]⟩ else a

/-- `AutoArchive::contains`. -/
def AutoArchive.contains (a : AutoArchive) (filter : EventFilter) : Bool := filter ∈ a.filters

/-- `AutoArchive::remove`. -/
def AutoArchive.remove (a : AutoArchive) (filter : EventFilter) : AutoArchive :=
  ⟨a.filters.filter fun candidate => candidate ≠ filter⟩

/-! ## The table -/

/-- `FilterRow`. -/
structure FilterRow where
  id : ℕ
  filter : EventFilter
  comment : Option String
deriving DecidableEq

/-- The table `filters`: its rows, and the largest number it has given. -/
structure FiltersTable where
  rows : List FilterRow
  sequence : ℕ
  nodup : (rows.map FilterRow.id).Nodup
  le_sequence : ∀ row ∈ rows, row.id ≤ sequence

/-- `SELECT * FROM filters WHERE id = ?`. -/
def FiltersTable.select (t : FiltersTable) (id : ℕ) : Option FilterRow := t.rows.find? fun row => row.id = id

/-- `INSERT INTO filters`. -/
def FiltersTable.insert (t : FiltersTable) (filter : EventFilter) (comment : Option String) : FiltersTable where
  rows := t.rows ++ [⟨t.sequence + 1, filter, comment⟩]
  sequence := t.sequence + 1
  nodup := by
    rw [List.map_append, List.map_singleton]
    refine List.nodup_append.2 ⟨t.nodup, List.nodup_singleton _, fun id hid id' hid' => ?_⟩
    obtain ⟨row, hrow, rfl⟩ := List.mem_map.1 hid
    have hle := t.le_sequence row hrow
    rw [List.mem_singleton.1 hid']
    exact Nat.ne_of_lt (Nat.lt_succ_of_le hle)
  le_sequence row hrow := by
    rcases List.mem_append.1 hrow with hrow | hrow
    · exact Nat.le_succ_of_le (t.le_sequence row hrow)
    · rw [List.mem_singleton.1 hrow]

/-- `DELETE FROM filters WHERE id = ?`. -/
def FiltersTable.delete (t : FiltersTable) (id : ℕ) : FiltersTable where
  rows := t.rows.filter fun row => row.id ≠ id
  sequence := t.sequence
  nodup := t.nodup.sublist (List.filter_sublist.map _)
  le_sequence row hrow := t.le_sequence row (List.mem_of_mem_filter hrow)

/-- The filters that `build_context` loads. -/
def FiltersTable.load (t : FiltersTable) : AutoArchive := t.rows.foldl (fun a row => a.add row.filter) .new

/-! ## Requests -/

/-- How far `add_filter` has come. -/
inductive AddPhase
  | arrived
  /-- The transaction has begun. -/
  | begun
  /-- The filter was not in memory. -/
  | checked
  /-- The row is part of the transaction. -/
  | inserted
  /-- The transaction has committed. -/
  | committed
  | finished
deriving DecidableEq, Repr

/-- How far `delete_filter` has come. -/
inductive DeletePhase
  | arrived
  /-- The transaction has begun. -/
  | begun
  /-- The row was found, in a version of the database. -/
  | selected (version : ℕ) (row : FilterRow)
  /-- Without the row, in the transaction. -/
  | deleted (row : FilterRow)
  /-- What is left is the set in memory. -/
  | removing (row : FilterRow)
  | finished
deriving DecidableEq

/-- A request. -/
inductive Request
  | add (filter : EventFilter) (comment : Option String) (phase : AddPhase)
  | delete (id : ℕ) (phase : DeletePhase)
deriving DecidableEq

/-- A request that has been answered. -/
def Request.isFinished : Request → Bool
  | add _ _ phase => phase = .finished
  | delete _ phase => phase = .finished

/-- The configuration database and the filters in memory, with the requests that have come. -/
structure Admin where
  table : FiltersTable
  /-- The number of transactions that have committed. -/
  version : ℕ
  /-- The request whose transaction writes. -/
  writer : Option ℕ
  live : AutoArchive
  requests : List Request

/-- A server that has just started. -/
def Admin.start (table : FiltersTable) : Admin := ⟨table, 0, none, table.load, []⟩

/-- What can happen. -/
inductive AdminOp
  | addFilter (entry : FilterEntry)
  | deleteFilter (id : ℕ)
  /-- A request takes its next step. A database operation succeeds or fails. -/
  | turn (i : ℕ) (ok : Bool)
  /-- A transaction on other tables commits. -/
  | otherCommit

namespace Admin

/-- A request has come to its next phase. -/
def move (s : Admin) (i : ℕ) (r : Request) : Admin := { s with requests := s.requests.set i r }

/-- The next step of `add_filter`. -/
def addTurn (s : Admin) (i : ℕ) (filter : EventFilter) (comment : Option String) :
    AddPhase → Bool → Option Admin
  | .arrived, true => some (s.move i (.add filter comment .begun))
  | .arrived, false => some (s.move i (.add filter comment .finished))
  | .begun, true =>
      if s.live.contains filter then some (s.move i (.add filter comment .finished))
      else some (s.move i (.add filter comment .checked))
  | .checked, true =>
      if s.writer = none then some { s.move i (.add filter comment .inserted) with writer := some i } else none
  | .checked, false => some (s.move i (.add filter comment .finished))
  | .inserted, true =>
      some { s.move i (.add filter comment .committed) with
        table := s.table.insert filter comment, version := s.version + 1, writer := none }
  | .inserted, false => some { s.move i (.add filter comment .finished) with writer := none }
  | .committed, true => some { s.move i (.add filter comment .finished) with live := s.live.add filter }
  | _, _ => none

/-- The next step of `delete_filter`. -/
def deleteTurn (s : Admin) (i id : ℕ) : DeletePhase → Bool → Option Admin
  | .arrived, true => some (s.move i (.delete id .begun))
  | .arrived, false => some (s.move i (.delete id .finished))
  | .begun, true =>
      match s.table.select id with
      | some row => some (s.move i (.delete id (.selected s.version row)))
      | none => some (s.move i (.delete id .finished))
  | .begun, false => some (s.move i (.delete id .finished))
  | .selected version row, true =>
      if s.writer = none ∧ version = s.version then
        some { s.move i (.delete id (.deleted row)) with writer := some i }
      else none
  -- without `is_ok` the transaction is given up, and the set in memory comes next
  | .selected _ row, false => some (s.move i (.delete id (.removing row)))
  | .deleted row, true =>
      some { s.move i (.delete id (.removing row)) with
        table := s.table.delete id, version := s.version + 1, writer := none }
  | .deleted _, false => some { s.move i (.delete id .finished) with writer := none }
  | .removing row, true => some { s.move i (.delete id .finished) with live := s.live.remove row.filter }
  | _, _ => none

/-- One step. -/
def step (s : Admin) : AdminOp → Option Admin
  | .addFilter entry =>
      some { s with requests := s.requests ++ [.add (.ofEntry entry) entry.comment .arrived] }
  | .deleteFilter id => some { s with requests := s.requests ++ [.delete id .arrived] }
  | .turn i ok =>
      match s.requests[i]? with
      | some (.add filter comment phase) => s.addTurn i filter comment phase ok
      | some (.delete id phase) => s.deleteTurn i id phase ok
      | none => none
  | .otherCommit => if s.writer = none then some { s with version := s.version + 1 } else none

/-- Every request has been answered. -/
def Quiet (s : Admin) : Prop := ∀ r ∈ s.requests, r.isFinished = true

/-- The filters in memory are those of the table. -/
def Agrees (s : Admin) : Prop := ∀ filter, filter ∈ s.live.filters ↔ filter ∈ s.table.load.filters

end Admin

end EveBox.Server
