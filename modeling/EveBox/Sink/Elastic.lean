import EveBox.Eve.Event

/-!
# The Elasticsearch sink

Reference: `src/elastic/importer.rs`, and `BulkResponse` of `src/elastic/client.rs`.
-/

namespace EveBox.Sink

open Rust Eve

/-! ## Responses -/

/-- `BulkResponse`, but for the fields that nothing reads. -/
structure BulkResponse where
  errors : Option Bool
  items : Option (List Json)
  error : Option Json

namespace BulkResponse

/-- A field of an object as `serde` reads it: missing, it is null, and it must not be there twice. -/
def field (fields : List (String × Json)) (key : String) : Option Json :=
  match fields.filter (·.1 = key) with
  | [] => some .null
  | [(_, value)] => some value
  | _ => none

/-- `Option<bool>`. -/
def optionalBool : Json → Option (Option Bool)
  | .null => some none
  | .bool b => some (some b)
  | _ => none

/-- `Option<Vec<Value>>`. -/
def optionalArray : Json → Option (Option (List Json))
  | .null => some none
  | .array elems => some (some elems)
  | _ => none

/-- `Option<Value>`. -/
def optionalValue : Json → Option Json
  | .null => none
  | value => some value

/-- `serde_json::from_str::<BulkResponse>`, of a text that is JSON. -/
def fromJson : Json → Option BulkResponse
  | .object fields => do
      let errors ← optionalBool (← field fields "errors")
      let items ← optionalArray (← field fields "items")
      let error ← field fields "error"
      some ⟨errors, items, optionalValue error⟩
  | _ => none

/-- `BulkResponse::has_error`. -/
def hasError (r : BulkResponse) : Bool :=
  match r.errors with
  | some errors => errors
  | none => r.error.isSome

/-- `BulkResponse::first_error`. -/
def firstError (r : BulkResponse) : Option String :=
  if !r.hasError then none
  else
    match r.error with
    | some error => some error.text
    | none => (r.items.getD []).findSome? fun item => (item.getPath ["index", "error", "reason"]).asStr

end BulkResponse

/-- What becomes of an HTTP request. -/
inductive Reply
  /-- There is no response, or its body cannot be read. -/
  | failed
  /-- The status of the response, its body, and the body as JSON. -/
  | answered (status : ℕ) (body : String) (json : Option Json)
deriving DecidableEq, Repr

/-! ## The sink -/

/-- The lines of a bulk request: `text` is what the code puts into the queue. -/
inductive BulkLine
  | header (index id : String)
  | event (value : Json)
  | empty
deriving DecidableEq, Repr

/-- The line in the request. -/
def BulkLine.text : BulkLine → String
  | header index id =>
      (Json.object [("create", .object [("_id", .string id), ("_index", .string index)])]).text
  | event value => value.text
  | empty => ""

/-- `ElasticEventSink`. -/
structure ElasticEventSink where
  index : String
  queue : List BulkLine
  noIndexSuffix : Bool
  opensearch : Bool
deriving DecidableEq, Repr

/-- `select_index`. -/
def selectIndex (base : String) (noIndexSuffix opensearch : Bool) (eventType : Option String)
    (date : String) : String :=
  if noIndexSuffix then base
  else if opensearch && eventType = some "stats" then base ++ "-stats-" ++ date
  else base ++ "-" ++ date

/-- The errors of a commit. -/
inductive CommitError
  /-- The request has failed, or its response is not what is expected. -/
  | client
  /-- A message. -/
  | message (text : String)
  /-- `Server returned status code`. -/
  | status (status : ℕ)
deriving DecidableEq, Repr

namespace ElasticEventSink

/-- `ElasticEventSink::new`. -/
def new (index : String) (noIndexSuffix opensearch : Bool) : ElasticEventSink :=
  ⟨index, [], noIndexSuffix, opensearch⟩

/-- `ElasticEventSink::pending`. -/
def pending (s : ElasticEventSink) : ℕ := s.queue.length / 2

/-- The two lines of an event: `ulid` is the identifier that the event gets. -/
def prepare (lib : TimeLib) (s : ElasticEventSink) (event : Json) (ulid : String) :
    Option (BulkLine × BulkLine) := do
  let ts ← datetime lib event
  let index := selectIndex s.index s.noIndexSuffix s.opensearch (event.get "event_type").asStr
    (ts.yyyymmdd lib ".")
  let event ← event.set "@timestamp" (.string (ts.toElastic lib))
  some (.header index ulid, .event event)

/-- `ElasticEventSink::submit`. -/
def submit (lib : TimeLib) (s : ElasticEventSink) (event : Json) (ulid : String) :
    Option (Bool × ElasticEventSink) :=
  (s.prepare lib event ulid).map fun lines => (false, { s with queue := s.queue ++ [lines.1, lines.2] })

/-- The lines of the request of a commit, each ended by a newline. -/
def request (s : ElasticEventSink) : List BulkLine := s.queue ++ [.empty]

/-- The body of the request. -/
def body (s : ElasticEventSink) : String := "\n".intercalate (s.request.map (·.text)) ++ "\n"

/-- `ElasticEventSink::commit`. -/
def commit (s : ElasticEventSink) (reply : Reply) : Except CommitError ℕ × ElasticEventSink :=
  let n := s.pending
  let s := { s with queue := s.request }
  match reply with
  | .failed => (.error .client, s)
  | .answered _ body json =>
      match json.bind BulkResponse.fromJson with
      | none => (.error .client, s)
      | some response =>
          if response.hasError then
            (.error (.message ("elasticsearch commit error: " ++ response.firstError.getD body)), s)
          else (.ok n, { s with queue := [] })

end ElasticEventSink

end EveBox.Sink
