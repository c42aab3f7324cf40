import EveBox.Server.Tasks

/-!
# The upload handler

Reference: `upload_pcap` and `receive_upload` of `src/server/api/agent.rs`, for the request that an agent
posts with the token of its job.

The request body arrives on a `Wire`: its bytes, in whatever pieces, and how it ends. The idle deadline may
pass at any time, and the handler's future is dropped when the connection is lost.
-/

namespace EveBox.Server

open Rust

/-- `UploadFailure`. -/
inductive UploadFailure
  | agentError
  | agentStalled
  | clientClosed
  | clientStalled
  | tooLarge
deriving DecidableEq, Repr

namespace UploadFailure

/-- `UploadFailure::reason`. -/
def reason : UploadFailure → String
  | .agentError => "agent-error"
  | .agentStalled => "agent-stalled"
  | .clientClosed => "client-closed"
  | .clientStalled => "client-stalled"
  | .tooLarge => "too-large"

/-- `UploadFailure::status`. -/
def status : UploadFailure → ℕ
  | .agentError => 400
  | .agentStalled | .clientStalled => 408
  | .clientClosed => 410
  | .tooLarge => 413

/-- `UploadFailure::message`. -/
def message : UploadFailure → String
  | .agentError => "pcap upload body failed"
  | .agentStalled => "pcap upload stalled"
  | .clientClosed => "pcap request is no longer accepting upload data"
  | .clientStalled => "pcap upload consumer stalled"
  | .tooLarge => "pcap upload exceeds the job limit"

end UploadFailure

/-- How a request body ends. -/
inductive WireEnd
  | clean
  | error
deriving DecidableEq, Repr

/-- A request body under way: the bytes not read yet, and its end, once there is one. -/
structure Wire where
  bytes : Bytes
  ended : Option WireEnd
deriving DecidableEq, Repr

/-- A response: its status and its text. -/
structure UploadReply where
  status : ℕ
  text : String
deriving DecidableEq, Repr

/-- `unknown_upload`. -/
def unknownUpload : UploadReply := ⟨410, "unknown or expired pcap job"⟩

/-- The response to a finished upload. -/
def UploadReply.ofResult : Except UploadFailure Unit → UploadReply
  | .ok () => ⟨200, ""⟩
  | .error failure => ⟨failure.status, failure.message⟩

/-- Where the handler is. -/
inductive UploadCall
  /-- The request has not come. -/
  | absent
  /-- In `begin_upload`, waiting for the lock. -/
  | beginning
  /-- In `begin_upload`, with the body sender. -/
  | taken
  /-- Waiting for the next frame of the body. -/
  | reading
  /-- Waiting for room for a chunk. -/
  | sending (chunk : Bytes)
  /-- The sink is closed, and its end still to be published; without a result there is no response. -/
  | finishing (result : Option (Except UploadFailure Unit))
  | replied (reply : UploadReply)
  /-- The connection is gone. -/
  | gone

/-- The agent is told that the upload has succeeded. -/
def UploadCall.succeeded : UploadCall → Bool
  | .replied reply => 200 ≤ reply.status && reply.status < 300
  | _ => false

/-- What can happen to the handler. -/
inductive UploadOp
  | request
  /-- The job is not registered any more. -/
  | refuse
  | take
  | publish
  /-- The next frame has `n` bytes. -/
  | read (n : ℕ)
  /-- The end of the body. -/
  | bodyEnd
  | send
  /-- The idle deadline. -/
  | stalled
  /-- The handler's future is dropped. -/
  | drop
  | settle
deriving DecidableEq, Repr

/-- The handler is through with the body, and closes its sink. -/
def finishUpload (job : Job) (result : Option (Except UploadFailure Unit)) : Option (UploadCall × Job) :=
  let how : SinkEnd :=
    match result with
    | some (.ok ()) => .complete
    | some (.error failure) => .fail failure.reason
    | none => .drop
  (job.sinkFinish 0 how).map fun job => (.finishing result, job)

/-- One step of the handler, on what it has read so far and the job it uploads for. -/
def uploadStep (call : UploadCall) (wire : Wire) (job : Job) :
    UploadOp → Option (UploadCall × Wire × Job)
  | .request =>
      match call with
      | .absent => some (.beginning, wire, job.beginUpload job.token)
      | _ => none
  | .refuse =>
      match call with
      | .absent => some (.replied unknownUpload, wire, job)
      | _ => none
  | .take =>
      match call with
      | .beginning =>
          (job.takeSender 0).map fun job' =>
            (if job'.locked then .taken else .replied unknownUpload, wire, job')
      | _ => none
  | .publish =>
      match call with
      | .taken => (job.publishStreaming).map fun job => (.reading, wire, job)
      | _ => none
  | .read n =>
      match call with
      | .reading =>
          let chunk := wire.bytes.take n
          if chunk = [] then none
          else some (.sending chunk, { wire with bytes := wire.bytes.drop n }, job)
      | _ => none
  | .bodyEnd =>
      match call, wire.bytes, wire.ended with
      | .reading, [], some .clean =>
          (finishUpload job (some (.ok ()))).map fun (call, job) => (call, wire, job)
      | .reading, _, some .error =>
          (finishUpload job (some (.error .agentError))).map fun (call, job) => (call, wire, job)
      | _, _, _ => none
  | .send =>
      match call with
      | .sending chunk =>
          match job.sinkSend 0 chunk with
          | some (.ok (), job) => some (.reading, wire, job)
          | some (.error .tooLarge, job) =>
              (finishUpload job (some (.error .tooLarge))).map fun (call, job) => (call, wire, job)
          | some (.error .receiverClosed, job) =>
              (finishUpload job (some (.error .clientClosed))).map fun (call, job) => (call, wire, job)
          | none => none
      | _ => none
  | .stalled =>
      match call with
      | .reading =>
          (finishUpload job (some (.error .agentStalled))).map fun (call, job) => (call, wire, job)
      | .sending _ =>
          (finishUpload job (some (.error .clientStalled))).map fun (call, job) => (call, wire, job)
      | _ => none
  | .drop =>
      match call with
      | .reading | .sending _ => (finishUpload job none).map fun (call, job) => (call, wire, job)
      | _ => none
  | .settle =>
      match call with
      | .finishing result =>
          (job.sinkPublish 0).map fun job =>
            let call : UploadCall :=
              match result with
              | some result => .replied (.ofResult result)
              | none => .gone
            (call, wire, job)
      | _ => none

end EveBox.Server
