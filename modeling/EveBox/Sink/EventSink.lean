import EveBox.Sink.Agent
import EveBox.Sink.Sqlite

/-!
# Event sinks

Reference: `src/importer.rs`.
-/

namespace EveBox.Sink

open Rust Eve Sqlite

/-- `EventSink`. -/
inductive EventSink
  | eveBox (importer : EveBoxEventSink)
  | elastic (importer : ElasticEventSink)
  | sqlite (importer : SqliteEventSink)
deriving DecidableEq, Repr

/-- What befalls a commit: an HTTP request, or the transactions of the database. -/
inductive CommitOutcome
  | http (reply : Reply)
  | sql (faults : List (Option SqlError))
deriving DecidableEq, Repr

/-- The errors of a commit. -/
inductive SinkError
  | http (err : CommitError)
  | sql (err : SqlError)
deriving DecidableEq, Repr

namespace EventSink

/-- `EventSink::submit`; `ulid` is the identifier that an event gets for Elasticsearch. -/
def submit (lib : TimeLib) (sink : EventSink) (event : Json) (ulid : String) :
    Option (Except IndexError Bool × EventSink) :=
  match sink with
  | eveBox importer => let (full, importer) := importer.submit event; some (.ok full, eveBox importer)
  | elastic importer => (importer.submit lib event ulid).map fun (full, importer) => (.ok full, elastic importer)
  | sqlite importer => (importer.submit lib event).map fun (result, importer) => (result, sqlite importer)

/-- `EventSink::pending`. -/
def pending : EventSink → ℕ
  | eveBox importer => importer.pending
  | elastic importer => importer.pending
  | sqlite importer => importer.pending

/-- `EventSink::commit`, with the database of the SQLite sink. -/
def commit (sink : EventSink) (db : Store) (outcome : CommitOutcome) :
    Option (Except SinkError ℕ × EventSink × Store) :=
  match sink, outcome with
  | eveBox importer, .http reply =>
      let (result, importer) := importer.commit reply
      some (result.mapError .http, eveBox importer, db)
  | elastic importer, .http reply =>
      let (result, importer) := importer.commit reply
      some (result.mapError .http, elastic importer, db)
  | sqlite importer, .sql faults =>
      (importer.commit db faults).map fun (result, importer, db) =>
        (result.mapError .sql, sqlite importer, db)
  | _, _ => none

end EventSink

end EveBox.Sink
