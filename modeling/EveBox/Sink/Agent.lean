import EveBox.Sink.Elastic

/-!
# The sink of an agent

Reference: `src/agent/importer.rs`.
-/

namespace EveBox.Sink

open Rust

/-- `LIMIT`. -/
def sizeLimit : ℕ := 1024 * 1024 * 16

/-- `EveBoxEventSink`. -/
structure EveBoxEventSink where
  queue : List String
  size : ℕ
deriving DecidableEq, Repr

namespace EveBoxEventSink

/-- `EveBoxEventSink::new`. -/
def new : EveBoxEventSink := ⟨[], 0⟩

/-- `EveBoxEventSink::submit`. -/
def submit (s : EveBoxEventSink) (event : Json) : Bool × EveBoxEventSink :=
  let asString := event.text
  let size := s.size + asString.utf8ByteSize
  (sizeLimit < size, ⟨s.queue ++ [asString], size⟩)

/-- `EveBoxEventSink::pending`. -/
def pending (s : EveBoxEventSink) : ℕ := s.queue.length

/-- `EveBoxEventSink::truncate`. -/
def truncate (_ : EveBoxEventSink) : EveBoxEventSink := ⟨[], 0⟩

/-- The body of the request of a commit. -/
def body (s : EveBoxEventSink) : String := "\n".intercalate s.queue

/-- The error of a response that is not a success. -/
def responseError (status : ℕ) (body : String) (json : Option Json) : CommitError :=
  if body ≠ "" then
    match (json.map (·.get "error")).bind Json.asStr with
    | some error => .message error
    | none => .message body
  else .status status

/-- `EveBoxEventSink::commit`. -/
def commit (s : EveBoxEventSink) (reply : Reply) : Except CommitError ℕ × EveBoxEventSink :=
  let n := s.queue.length
  match reply with
  | .failed => (.error .client, s)
  | .answered status body json =>
      if status ≠ 200 then (.error (responseError status body json), s)
      else (.ok n, s.truncate)

end EveBoxEventSink

end EveBox.Sink
