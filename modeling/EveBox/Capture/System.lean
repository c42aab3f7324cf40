import EveBox.Agent.Job
import EveBox.Server.Stream
import EveBox.Server.Upload

/-!
# A remote capture

A capture job has two ends: the agent's `AgentJob`, and the server's `StreamState` with its `Job` and the
handler of the agent's upload. They share the request body of the upload, its response, and one result
message. `Capture` puts the two together.

Of HTTP the following is assumed: the bytes of the body arrive in order; the handler sees the end of the
body only where the agent's body has ended, with the whole body before it, and otherwise an error, at any
time; and the agent sees a success only where the handler has replied with one.
-/

namespace EveBox

open Rust Pcap Agent Server

/-- What the body yields goes onto the wire, up to its end. -/
def Server.Wire.push (w : Wire) (p : BodyPoll) : Wire :=
  if w.ended.isSome then w
  else
    match p with
    | .chunk chunk => { w with bytes := w.bytes ++ chunk }
    | .error => { w with ended := some .error }
    | .eof => { w with ended := some .clean }

/-- A capture job and its two ends. -/
structure Capture where
  agent : AgentJob
  wire : Wire
  call : UploadCall
  stream : StreamState
  /-- The agent has sent its terminal result. -/
  reported : Bool

/-- A job that has been dispatched to its agent, and accepted there. -/
def Capture.new (script : Script) (startUs endUs : ℕ) (token agent : String)
    (generation maxBytes : ℕ) : Capture where
  agent := .new script startUs endUs
  wire := ⟨[], none⟩
  call := .absent
  stream := .new (.new token agent generation maxBytes)
  reported := false

/-- What can happen to a capture job. -/
inductive CaptureOp
  | agent (op : AgentOp)
  /-- The HTTP request polls the body. -/
  | pollBody
  /-- The connection of the HTTP request breaks. -/
  | lost
  /-- The HTTP request ends at the agent. -/
  | uploadEnd (join : UploadJoin)
  | upload (op : UploadOp)
  /-- The result message reaches the server, on some connection. -/
  | report (connection : AgentConnectionId)
  | stream (op : StreamOp)
deriving DecidableEq, Repr

/-- The steps of a job that are neither the handler's nor the delivery of a result. -/
def internal : JobOp → Bool
  | .acceptResult _ | .sendResult _ | .failPending _ => true
  | _ => false

namespace Capture

/-- The job of the capture becomes `job`. -/
def withJob (s : Capture) (job : Server.Job) : Capture := { s with stream := { s.stream with job } }

/-- A step of the handler. There is none before the agent has posted its upload. -/
def uploadStep (s : Capture) (op : UploadOp) : Option Capture :=
  if s.agent.body.isNone then none
  else
    (Server.uploadStep s.call s.wire s.stream.job op).map fun (call, wire, job) =>
      { s with call, wire }.withJob job

/-- The result message, if there is one, reaches `deliver_result`. -/
def report (s : Capture) (connection : AgentConnectionId) : Option Capture :=
  match s.agent.phase with
  | .done result =>
      if s.reported then none
      else
        let job := s.stream.job
        some ({ s with reported := true }.withJob
          (job.deliverResult ⟨connection, job.token, result⟩))
  | _ => none

/-- A step of the request, or of the control channel's own calls. -/
def streamStep (s : Capture) (op : StreamOp) : Option Capture :=
  let allowed : Bool :=
    match op with
    | .job op => internal op
    | _ => true
  if allowed then (s.stream.step op).map fun stream => { s with stream } else none

def step (s : Capture) : CaptureOp → Option Capture
  | .agent op => (s.agent.step op).map fun agent => { s with agent }
  | .pollBody =>
      s.agent.pollBody.map fun (p, agent) => { s with agent, wire := s.wire.push p }
  | .lost => some { s with wire := ⟨[], some .error⟩ }
  | .uploadEnd join =>
      if join.succeeded && !s.call.succeeded then none
      else (s.agent.uploadEnd join).map fun agent => { s with agent }
  | .upload op => s.uploadStep op
  | .report connection => s.report connection
  | .stream op => s.streamStep op

end Capture

end EveBox
