import EveBox.Eve.Filters
import EveBox.Lib.Lines
import EveBox.Rust.JsonText
import EveBox.Rust.Utf8
import EveBox.Sink.BatchTheorems

/-!
# Submitting events

Reference: `src/server/api/submit.rs`, with `src/agent/importer.rs` and `src/server/main.rs`.

An agent posts the events in its queue, and the server stores them in one transaction. A request may be lost, or its
answer; and an agent that has given up on one may meet it again, as the server comes to it later.
-/

namespace EveBox.Server

open Rust Eve Sink Sqlite

/-! ## The endpoint -/

/-- `DefaultBodyLimit`. -/
def bodyLimit : ℕ := 1024 * 1024 * 32

/-- What the endpoint has beside the request: whether an event is auto-archived, the entry of the history for a cause,
and the identifiers that events get for Elasticsearch. -/
structure SubmitContext where
  isMatch : Json → Bool
  entry : String → Json
  ulid : ℕ → String

/-- `context.filters`. -/
def SubmitContext.filters (context : SubmitContext) : List EveFilter := withDefaults [.autoArchive context.isMatch]

/-- What the loop of `handler` has done so far. -/
structure Received where
  importer : EventSink
  count : ℕ
  firehose : List Json

/-- An answer: its status, and the JSON of its body, if it has one. -/
structure SubmitResponse where
  status : ℕ
  body : Option Json
deriving DecidableEq, Repr

section

variable (lib : TimeLib) (readNumber : List Char → Option Number) (context : SubmitContext)

/-- An event of a request. An error of the importer is logged. -/
def Received.take (r : Received) (event : Json) : Option Received := do
  let event ← runFilters context.entry context.filters event
  let (_, importer) ← r.importer.submit lib event (context.ulid r.count)
  some { importer, count := r.count + 1, firehose := r.firehose ++ [event] }

/-- The loop of `handler`. A line that is no JSON is passed over, and one that is not UTF-8 ends the loop. -/
def Received.read (r : Received) : List Bytes → Option Received
  | [] => some r
  | line :: lines =>
      match utf8Decode line with
      | none => some r
      | some text =>
          match Json.fromStr readNumber text with
          | none => r.read lines
          | some event => (r.take lib context event).bind fun r => r.read lines

/-- `handler`, up to the commit. -/
def receive (importer : EventSink) (body : Bytes) : Option Received :=
  (⟨importer, 0, []⟩ : Received).read lib readNumber context (Lines.pieces newline body)

/-- The body of an answer. -/
def countJson (n : ℕ) : Json := .object [("Count", .number (.int n))]

/-- The rest of `handler`. -/
def Received.respond (r : Received) (db : Store) (outcome : CommitOutcome) : Option (SubmitResponse × Store) :=
  if r.count = 0 then some (⟨200, some (countJson 0)⟩, db)
  else
    (r.importer.commit db outcome).map fun
      | (.ok n, _, db) => (⟨200, some (countJson n)⟩, db)
      | (.error _, _, db) => (⟨500, none⟩, db)

end

/-- What the agent makes of an answer. -/
def SubmitResponse.reply (response : SubmitResponse) : Reply :=
  .answered response.status (response.body.elim "" Json.text) response.body

/-! ## An agent and its server -/

/-- A request on its way. -/
inductive SubmitRequest
  | sent (body : Bytes)
  | answered (response : SubmitResponse)
  /-- It is lost, or its answer has been taken. -/
  | gone
deriving DecidableEq, Repr

/-- An agent, its requests, and the database of the server. -/
structure Submission where
  agent : EveBoxEventSink
  /-- The number of the request that the agent waits for. -/
  waiting : Option ℕ
  requests : List SubmitRequest
  db : Store
  /-- All the events that have been submitted to the agent. -/
  submitted : List Json

/-- Nothing has been submitted yet. -/
def Submission.new (db : Store) : Submission := ⟨.new, none, [], db, []⟩

/-- What may happen. -/
inductive SubmissionOp
  /-- `EveBoxEventSink::submit`. -/
  | submit (event : Json)
  /-- `EveBoxEventSink::commit` sends its request. -/
  | post
  /-- The server takes a request, with what befalls the transactions of its commit. -/
  | handle (i : ℕ) (context : SubmitContext) (faults : List (Option SqlError))
  /-- A request is lost, or its answer. -/
  | lose (i : ℕ)
  /-- The agent has its answer. -/
  | answer
  /-- The agent gives up on its request. -/
  | giveUp
  /-- An event of another writer is stored. -/
  | insert (prepared : PreparedEvent)

namespace Submission

variable (lib : TimeLib) (readNumber : List Char → Option Number)

/-- The bytes of the request of an agent. -/
def requestOf (agent : EveBoxEventSink) : Bytes := utf8Encode agent.body.toList

/-- One step. -/
def step (s : Submission) : SubmissionOp → Option Submission
  | .submit event =>
      if s.waiting.isSome then none
      else some { s with agent := (s.agent.submit event).2, submitted := s.submitted ++ [event] }
  | .post =>
      if s.waiting.isSome then none
      else some { s with requests := s.requests ++ [.sent (requestOf s.agent)], waiting := some s.requests.length }
  | .handle i context faults =>
      match s.requests[i]? with
      | some (.sent body) =>
          -- a body that is too long does not get to the handler
          if bodyLimit < body.length then some { s with requests := s.requests.set i (.answered ⟨413, none⟩) }
          else
            match receive lib readNumber context (.sqlite .new) body with
            -- a filter has panicked, and the connection is closed
            | none => some { s with requests := s.requests.set i .gone }
            | some r => (r.respond s.db (.sql faults)).map fun (response, db) =>
                { s with requests := s.requests.set i (.answered response), db }
      | _ => none
  | .lose i =>
      match s.requests[i]? with
      | some (.sent _) | some (.answered _) => some { s with requests := s.requests.set i .gone }
      | _ => none
  | .answer =>
      s.waiting.bind fun i =>
        match s.requests[i]? with
        | some (.answered response) => some { s with
            agent := (s.agent.commit response.reply).2
            waiting := none
            requests := s.requests.set i .gone }
        | _ => none
  | .giveUp => s.waiting.map fun _ => { s with agent := (s.agent.commit .failed).2, waiting := none }
  | .insert prepared => some { s with db := insertEvent s.db prepared }

end Submission

end EveBox.Server
