import EveBox.Eve.Event
import EveBox.Sqlite.Store

/-!
# The SQLite sink

Reference: `src/sqlite/importer.rs`. The metrics are left out.
-/

namespace EveBox.Sink

open Rust Eve Sqlite

/-! ## Preparing an event -/

/-- `reformat_timestamp`. -/
def reformatTimestamp (lib : TimeLib) (ts : String) : String :=
  match parseDateTime lib ts none with
  | some dt => dt.toRfc3339Utc lib
  | none => ts

/-- A branch of `reformat_timestamps`. -/
def reformatAt (lib : TimeLib) (path : List String) (eve : Json) : Option Json :=
  match eve.getPath path with
  | .string ts => eve.setPath path (.string (reformatTimestamp lib ts))
  | _ => some eve

/-- `reformat_timestamps`. -/
def reformatTimestamps (lib : TimeLib) (eve : Json) : Option Json := do
  let eve ← reformatAt lib ["timestamp"] eve
  let eve ← reformatAt lib ["flow", "start"] eve
  reformatAt lib ["flow", "end"] eve

/-- A text is put behind the others. -/
def pushText (output text : String) : String :=
  (if output = "" then output else output ++ " ") ++ text

/-- The words of `extract_printable_words`: `word` is the one that has been begun. -/
def printableWordsFrom (word : List Char) : List Char → List (List Char)
  | [] => [word]
  | c :: cs =>
      if c.isAlphanum then printableWordsFrom (word ++ [c]) cs else word :: printableWordsFrom [] cs

/-- `extract_printable_words`. -/
def extractPrintableWords (input output : String) : String :=
  ((printableWordsFrom [] input.toList).filter (2 ≤ ·.length)).foldl
    (fun output word => pushText output (String.ofList word)) output

/-- The fields whose text is only extracted word by word. -/
def isPrintableField (path : List String) : Bool :=
  path = ["payload_printable"] || path = ["http", "http_response_body_printable"]

/-- The fields that are not extracted, wherever they are. -/
def isSkippedKey (key : String) : Bool := key = "packet" || key = "payload" || key = "rule"

/-- The fields that are not extracted. -/
def isSkippedPath (path : List String) : Bool :=
  path = ["http", "http_response_body"] || path = ["evebox", "history"]

mutual

/-- `inner` of `extract_values`. -/
def extractInner (path : List String) (output : String) : Json → String
  | .null | .bool _ => output
  | .number n => pushText output n.text
  | .string s => if isPrintableField path then extractPrintableWords s output else pushText output s
  | .array elems => extractElems path output elems
  | .object fields => extractFields path output fields

def extractElems (path : List String) (output : String) : List Json → String
  | [] => output
  | e :: elems => extractElems path (extractInner path output e) elems

def extractFields (path : List String) (output : String) : List (String × Json) → String
  | [] => output
  | (k, v) :: fields =>
      extractFields path
        (if isSkippedKey k || isSkippedPath (path ++ [k]) then output
          else extractInner (path ++ [k]) output v) fields

end

/-- `extract_values`. -/
def extractValues (input : Json) : String := extractInner [] "" input

/-- `IndexError`. -/
inductive IndexError
  | timestampMissing
deriving DecidableEq, Repr

/-- `PreparedEvent`. -/
structure PreparedEvent where
  ts : ℤ
  archived : Bool
  history : List Json
  sourceValues : String
  event : Json
deriving DecidableEq, Repr

/-- `SqliteEventSink`, but for what its clones share. -/
structure SqliteEventSink where
  queue : List PreparedEvent
deriving DecidableEq, Repr

namespace SqliteEventSink

/-- `SqliteEventSink::new`. -/
def new : SqliteEventSink := ⟨[]⟩

/-- `SqliteEventSink::prep`. -/
def prep (lib : TimeLib) (event : Json) : Option (Except IndexError PreparedEvent) :=
  match datetime lib event with
  | none => some (.error .timestampMissing)
  | some ts => do
      let event ← reformatTimestamps lib event
      let nanos ← ts.toNanos
      some (.ok {
        ts := nanos
        archived := hasTag event "evebox.archived"
        history := (event.getPath ["evebox", "history"]).asArray.getD []
        sourceValues := extractValues event
        event })

/-- `SqliteEventSink::submit`. -/
def submit (lib : TimeLib) (s : SqliteEventSink) (event : Json) :
    Option (Except IndexError Bool × SqliteEventSink) :=
  (prep lib event).map fun
    | .error err => (.error err, s)
    | .ok prepared => (.ok false, ⟨s.queue ++ [prepared]⟩)

/-- `SqliteEventSink::pending`. -/
def pending (s : SqliteEventSink) : ℕ := s.queue.length

end SqliteEventSink

/-! ## The transaction -/

/-- Where a transaction fails. -/
inductive SqlStage
  | begin
  | hasTable
  | insert (count : ℕ)
  | insertFts (count : ℕ)
  | commit
deriving DecidableEq, Repr

/-- An error of the database; `locked` is what `is_locked` says. -/
structure SqlError where
  stage : SqlStage
  locked : Bool
deriving DecidableEq, Repr

/-- Whether the fault is at this stage. -/
def failsAt (fault : Option SqlError) (stage : SqlStage) : Option SqlError :=
  fault.filter (·.stage = stage)

/-- The row of an event. -/
def PreparedEvent.row (e : PreparedEvent) (rowid : ℕ) : EventRow where
  rowid
  timestamp := e.ts
  archived := e.archived
  escalated := false
  source := e.event
  sourceValues := e.sourceValues
  history := e.history

/-- The statements for an event. -/
def insertEvent (db : Store) (e : PreparedEvent) : Store :=
  let rowid := db.nextRowid
  { events := db.events ++ [e.row rowid]
    fts := db.fts.map fun fts => fts ++ [⟨rowid, e.ts, e.sourceValues⟩] }

/-- The loop of `commit_with_sqlx`, from the event number `count` on. -/
def insertAll (fault : Option SqlError) : ℕ → Store → List PreparedEvent → Except SqlError Store
  | _, db, [] => .ok db
  | count, db, e :: queue =>
      match failsAt fault (.insert count) with
      | some err => .error err
      | none =>
          match if db.fts.isSome then failsAt fault (.insertFts count) else none with
          | some err => .error err
          | none => insertAll fault (count + 1) (insertEvent db e) queue

/-- The transaction of `commit_with_sqlx`. One that fails is rolled back. -/
def transaction (fault : Option SqlError) (db : Store) (queue : List PreparedEvent) : Except SqlError Store :=
  match failsAt fault .begin with
  | some err => .error err
  | none =>
      match failsAt fault .hasTable with
      | some err => .error err
      | none =>
          match insertAll fault 0 db queue with
          | .error err => .error err
          | .ok db =>
              match failsAt fault .commit with
              | some err => .error err
              | none => .ok db

namespace SqliteEventSink

/-- `SqliteEventSink::commit_with_sqlx`. -/
def commitWithSqlx (s : SqliteEventSink) (db : Store) (fault : Option SqlError) :
    Except SqlError ℕ × SqliteEventSink × Store :=
  match transaction fault db s.queue with
  | .error err => (.error err, s, db)
  | .ok db => (.ok s.queue.length, ⟨[]⟩, db)

/-- `SqliteEventSink::commit`, after `tries` attempts. `faults` is what befalls the next ones; it is `none` if
that does not end the loop, or goes beyond its end. -/
def commitFrom (s : SqliteEventSink) (db : Store) : ℕ → List (Option SqlError) →
    Option (Except SqlError ℕ × SqliteEventSink × Store)
  | _, [] => none
  | tries, fault :: faults =>
      match s.commitWithSqlx db fault with
      | (.error err, _, _) =>
          if err.locked && tries + 1 < 35 then commitFrom s db (tries + 1) faults
          else if faults = [] then some (.error err, s, db)
          else none
      | result => if faults = [] then some result else none

/-- `SqliteEventSink::commit`. -/
def commit (s : SqliteEventSink) (db : Store) (faults : List (Option SqlError)) :
    Option (Except SqlError ℕ × SqliteEventSink × Store) :=
  s.commitFrom db 0 faults

end SqliteEventSink

end EveBox.Sink
