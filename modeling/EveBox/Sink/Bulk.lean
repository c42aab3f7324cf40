import EveBox.Sink.BatchTheorems
import Mathlib.Data.List.AList

/-!
# Bulk requests against Elasticsearch

Reference: `Processor::commit` of `src/eve/processor.rs`, over the sink of `src/elastic/importer.rs`.

The server is a map from identifiers to documents. A bulk request asks it to create documents: what it holds
already it does not create again, and it may reject others.
-/

namespace EveBox.Sink

open Rust Eve

/-- The documents of the server. -/
abbrev Documents := AList fun _ : String => Json

/-! ## The server -/

/-- The events of a request, with their identifiers. -/
def bulkEvents : List BulkLine → List (String × Json)
  | .header _ id :: .event value :: lines => (id, value) :: bulkEvents lines
  | .empty :: lines => bulkEvents lines
  | _ => []

/-- What becomes of an item of a request. -/
inductive ItemResult
  | created
  | conflict
  | rejected
deriving DecidableEq, Repr

/-- An item of the response. -/
def ItemResult.json (id : String) : ItemResult → Json
  | created => .object [("create", .object [("_id", .string id), ("status", .number (.int 201))])]
  | conflict => .object [("create", .object [("_id", .string id),
      ("error", .object [("reason", .string "version conflict, document already exists"),
        ("type", .string "version_conflict_engine_exception")]), ("status", .number (.int 409))])]
  | rejected => .object [("create", .object [("_id", .string id),
      ("error", .object [("reason", .string "rejected execution"),
        ("type", .string "es_rejected_execution_exception")]), ("status", .number (.int 429))])]

/-- The server creates the document, or does not: the identifiers in `rejects` are those it would reject. -/
def createItem (rejects : List String) (docs : Documents) (e : String × Json) : ItemResult × Documents :=
  if (docs.lookup e.1).isSome then (.conflict, docs)
  else if e.1 ∈ rejects then (.rejected, docs)
  else (.created, docs.insert e.1 e.2)

/-- The server applies the items of a request. -/
def applyBulk (rejects : List String) : Documents → List (String × Json) →
    List (String × ItemResult) × Documents
  | docs, [] => ([], docs)
  | docs, e :: events =>
      let (result, docs) := createItem rejects docs e
      let (results, docs) := applyBulk rejects docs events
      ((e.1, result) :: results, docs)

/-- The response. -/
def bulkAnswer (results : List (String × ItemResult)) : Json :=
  .object [("errors", .bool (results.any (·.2 ≠ .created))),
    ("items", .array (results.map fun r => r.2.json r.1)), ("took", .number (.int 1))]

/-! ## Attempts -/

/-- What becomes of an attempt to commit. -/
inductive Attempt
  /-- It does not reach the server. -/
  | lost
  /-- The server, or a proxy, refuses it with an HTTP error status. -/
  | refused (status : ℕ) (body : String) (json : Option Json)
  /-- The server applies it, but for what it rejects; the response may be lost. -/
  | applied (rejects : List String) (answered : Bool)
deriving DecidableEq

/-- What the server holds after the attempt, and what the sink gets. -/
def Attempt.run (docs : Documents) (events : List (String × Json)) : Attempt → Documents × Reply
  | lost => (docs, .failed)
  | refused status body json => (docs, .answered status body json)
  | applied rejects answered =>
      let (results, docs) := applyBulk rejects docs events
      let answer := bulkAnswer results
      (docs, if answered then .answered 200 answer.text (some answer) else .failed)

/-! ## The processor -/

/-- The sink, the server, and whether the processor is in the loop of its `commit`. -/
structure BulkSystem where
  sink : ElasticEventSink
  docs : Documents
  committing : Bool

inductive BulkOp
  | submit (event : Json) (ulid : String)
  /-- The processor commits. -/
  | flush
  | attempt (attempt : Attempt)
deriving DecidableEq

namespace BulkSystem

/-- A new sink, and a server. -/
def new (index : String) (noIndexSuffix opensearch : Bool) (docs : Documents) : BulkSystem :=
  ⟨.new index noIndexSuffix opensearch, docs, false⟩

/-- The events of the queue. -/
def queued (s : BulkSystem) : List (String × Json) := bulkEvents s.sink.queue

/-- An attempt of `Processor::commit`: the loop ends when the sink's commit does not fail. -/
def attempt (s : BulkSystem) (a : Attempt) : BulkSystem :=
  let (docs, reply) := a.run s.docs (bulkEvents s.sink.request)
  match s.sink.commit reply with
  | (.ok _, sink) => ⟨sink, docs, false⟩
  | (.error _, sink) => ⟨sink, docs, true⟩

def step (lib : TimeLib) (s : BulkSystem) : BulkOp → Option BulkSystem
  | .submit event ulid =>
      if s.committing then none
      else (s.sink.submit lib event ulid).map fun (_, sink) => { s with sink }
  | .flush => if s.committing then none else some { s with committing := true }
  | .attempt a => if s.committing then some (s.attempt a) else none

end BulkSystem

end EveBox.Sink
