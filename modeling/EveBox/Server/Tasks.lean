import EveBox.Agent.Protocol
import EveBox.Lib.Transition
import EveBox.Rust.Prelude
import EveBox.Server.Agents

/-!
# In-flight remote capture jobs

Reference: `src/server/pcap/tasks.rs`.

The calls of several parties run at once, so every call is cut where it lets go of a lock or waits for
one. A `Job` is one `Task` together with the other ends of its channels and the calls under way on it;
the `Registry` is the table of jobs.
-/

namespace EveBox.Server

open Rust Agent Transition

/-- `BODY_CHANNEL_CAPACITY`. -/
def bodyChannelCapacity : ℕ := 8

/-- `UploadState`. -/
inductive UploadState
  | pending
  | streaming
  | complete (bytes : ℕ)
  | failed (reason : String) (bytes : ℕ)
deriving DecidableEq, Repr

/-- `UploadSendError`. -/
inductive UploadSendError
  | receiverClosed
  | tooLarge
deriving DecidableEq, Repr

/-- `token_matches`. -/
def tokenMatches (expected presented : String) : Bool :=
  let expected := expected.toByteArray.data.toList
  let presented := presented.toByteArray.data.toList
  if expected.length ≠ presented.length then false
  else (expected.zip presented).foldl (fun difference p => difference ||| (p.1 ^^^ p.2)) 0 = 0

/-! ## One job -/

/-- A result message of an agent: the connection it came in on, the token it carries, the result. -/
structure Delivery where
  connection : AgentConnectionId
  token : String
  result : PcapResult
deriving DecidableEq, Repr

/-- The result explicitly promises a separate upload. -/
def promisesUpload (result : PcapResult) : Bool :=
  result.code = .complete && result.upload = .complete

/-- `UploadSink`: whether it still owns the body sender, the bytes it has forwarded, and the state its end
is about to publish. -/
structure UploadSink where
  tx : Bool
  bytes : ℕ
  ending : Option UploadState
deriving DecidableEq, Repr

/-- How an upload ends: by `complete`, by `fail`, or by a drop. -/
inductive SinkEnd
  | complete
  | fail (reason : String)
  | drop
deriving DecidableEq, Repr

/-- The state published at the end of an upload. -/
def SinkEnd.state (bytes : ℕ) : SinkEnd → UploadState
  | .complete => .complete bytes
  | .fail reason => .failed reason bytes
  | .drop => .failed "agent-upload-ended" bytes

/-- The steps of a job worth remembering. -/
inductive Event
  /-- `begin_upload` took the body sender, on this token. -/
  | uploadStarted (token : String)
  /-- `deliver_result` passed the body lock. -/
  | resultAccepted (delivery : Delivery)
  /-- `deliver_result` put the result into the one-shot. -/
  | resultSent (delivery : Delivery)
  /-- `fail_pending` handled the job. -/
  | disconnected (connection : AgentConnectionId)
  /-- `fail_pending` put the disconnect error into the one-shot. -/
  | disconnectSent (connection : AgentConnectionId)
deriving DecidableEq, Repr

/-- A `Task` and what surrounds it. `forwarded` and `log` are ghosts. -/
structure Job where
  token : String
  agent : String
  generation : ℕ
  maxBytes : ℕ
  /-- The body sender is still in the task. -/
  bodyTx : Bool
  /-- The value of the upload watch. -/
  upload : UploadState
  /-- The one-shot sender is still in the task. -/
  resultTx : Bool
  uploading : Bool
  uploadAllowed : Bool
  /-- The lock on `body_tx` is held, by a `begin_upload` that has taken the sender. -/
  locked : Bool
  /-- The `begin_upload` calls waiting for the lock, by the token they presented. -/
  beginning : List String
  /-- The `deliver_result` calls waiting for the lock. -/
  delivering : List Delivery
  /-- The `deliver_result` calls past the lock. -/
  accepted : List Delivery
  /-- The sinks handed out. -/
  sinks : List UploadSink
  body : Channel Bytes
  /-- The value in the result one-shot. -/
  result : Option PcapResult
  /-- Every chunk the body channel has taken. -/
  forwarded : List Bytes
  log : List Event
deriving DecidableEq, Repr

/-- The job `register` makes. -/
def Job.new (token agent : String) (generation maxBytes : ℕ) : Job :=
  { token, agent, generation, maxBytes
    bodyTx := true
    upload := .pending
    resultTx := true
    uploading := false
    uploadAllowed := true
    locked := false
    beginning := []
    delivering := []
    accepted := []
    sinks := []
    body := .new Bytes bodyChannelCapacity
    result := none
    forwarded := []
    log := [] }

/-- The connection a job was dispatched on. -/
def Job.connection (j : Job) : AgentConnectionId := ⟨j.agent, j.generation⟩

/-- What `fail_pending` sends. -/
def disconnectError : PcapResult := ⟨.error, .failed, some "agent disconnected", none⟩

/-- `begin_upload` after its lookup: the token check. -/
def Job.beginUpload (j : Job) (token : String) : Job :=
  if tokenMatches j.token token then { j with beginning := j.beginning ++ [token] } else j

/-- `begin_upload` gets the lock: it takes the body sender, if it may and the sender is there. -/
def Job.takeSender (j : Job) (i : ℕ) : Option Job :=
  if j.locked then none
  else
    (j.beginning[i]?).map fun token =>
      let j := { j with beginning := j.beginning.eraseIdx i }
      if !j.uploadAllowed then j
      else if !j.bodyTx then j
      else { j with
        bodyTx := false
        uploading := true
        locked := true
        log := j.log ++ [.uploadStarted token] }

/-- `begin_upload` publishes `Streaming`, lets go of the lock and hands out the sink. -/
def Job.publishStreaming (j : Job) : Option Job :=
  if j.locked then
    some { j with upload := .streaming, locked := false, sinks := j.sinks ++ [⟨true, 0, none⟩] }
  else none

/-- `UploadSink::send`; `none` while the body channel is full. -/
def Job.sinkSend (j : Job) (i : ℕ) (chunk : Bytes) :
    Option (Except UploadSendError Unit × Job) :=
  match j.sinks[i]? with
  | none => none
  | some sink =>
      if !sink.tx then none
      else
        match checkedAdd sink.bytes chunk.length with
        | none => some (.error .tooLarge, j)
        | some total =>
            if j.maxBytes < total then some (.error .tooLarge, j)
            else
              match j.body.trySend chunk with
              | (.error .full, _) => none
              | (.error .closed, _) => some (.error .receiverClosed, j)
              | (.ok (), body) =>
                  some (.ok (), { j with
                    body := body
                    forwarded := j.forwarded ++ [chunk]
                    sinks := j.sinks.set i { sink with bytes := total } })

/-- `complete`, `fail` or `drop` of a sink closes the body channel first. -/
def Job.sinkFinish (j : Job) (i : ℕ) (how : SinkEnd) : Option Job :=
  match j.sinks[i]? with
  | none => none
  | some sink =>
      if sink.tx then
        some { j with sinks := j.sinks.set i ⟨false, sink.bytes, some (how.state sink.bytes)⟩ }
      else none

/-- Then it publishes the end of the upload. -/
def Job.sinkPublish (j : Job) (i : ℕ) : Option Job :=
  match j.sinks[i]? with
  | none => none
  | some sink =>
      sink.ending.map fun state =>
        { j with upload := state, sinks := j.sinks.set i { sink with ending := none } }

/-- `deliver_result` after its lookup: the checks against the exact connection and the token. -/
def Job.deliverResult (j : Job) (d : Delivery) : Job :=
  if j.agent ≠ d.connection.name ∨ j.generation ≠ d.connection.generation ∨
      !tokenMatches j.token d.token then j
  else { j with delivering := j.delivering ++ [d] }

/-- `deliver_result` gets the lock: a result that promises no upload forbids one. -/
def Job.acceptResult (j : Job) (i : ℕ) : Option Job :=
  if j.locked then none
  else
    (j.delivering[i]?).map fun d =>
      { j with
        delivering := j.delivering.eraseIdx i
        accepted := j.accepted ++ [d]
        uploadAllowed := j.uploadAllowed && promisesUpload d.result
        log := j.log ++ [.resultAccepted d] }

/-- `deliver_result` sends the result, if nothing has been sent yet. -/
def Job.sendResult (j : Job) (i : ℕ) : Option Job :=
  (j.accepted[i]?).map fun d =>
    let j := { j with accepted := j.accepted.eraseIdx i }
    if j.resultTx then
      { j with resultTx := false, result := some d.result, log := j.log ++ [.resultSent d] }
    else j

/-- `fail_pending` on one task. -/
def Job.failPending (j : Job) (connection : AgentConnectionId) : Option Job :=
  if j.agent ≠ connection.name ∨ j.generation ≠ connection.generation then some j
  else if j.locked then none
  else
    let j := { j with uploadAllowed := false, log := j.log ++ [Event.disconnected connection] }
    if j.resultTx then
      some { j with
        resultTx := false
        result := some disconnectError
        log := j.log ++ [Event.disconnectSent connection] }
    else some j

/-- The steps of a job. -/
inductive JobOp
  | beginUpload (token : String)
  | takeSender (i : ℕ)
  | publishStreaming
  | sinkSend (i : ℕ) (chunk : Bytes)
  | sinkFinish (i : ℕ) (how : SinkEnd)
  | sinkPublish (i : ℕ)
  | deliverResult (delivery : Delivery)
  | acceptResult (i : ℕ)
  | sendResult (i : ℕ)
  | failPending (connection : AgentConnectionId)
  /-- The request takes the next chunk off the body channel. -/
  | receive
  /-- The request drops the receiver of the body channel. -/
  | close
deriving DecidableEq, Repr

def Job.step (j : Job) : JobOp → Option Job
  | .beginUpload token => some (j.beginUpload token)
  | .takeSender i => j.takeSender i
  | .publishStreaming => j.publishStreaming
  | .sinkSend i chunk => (j.sinkSend i chunk).map Prod.snd
  | .sinkFinish i how => j.sinkFinish i how
  | .sinkPublish i => j.sinkPublish i
  | .deliverResult d => some (j.deliverResult d)
  | .acceptResult i => j.acceptResult i
  | .sendResult i => j.sendResult i
  | .failPending connection => j.failPending connection
  | .receive => some { j with body := { j.body with queue := j.body.queue.tail } }
  | .close => some { j with body := { j.body with closed := true } }

/-- The steps that begin a call, and so go through the table. -/
def JobOp.isCall : JobOp → Bool
  | .beginUpload _ => true
  | .deliverResult _ => true
  | .failPending _ => true
  | _ => false

/-! ## The registry -/

/-- `Registry`. The jobs are numbered in the order of their registration, and the table points at them.
A sweep is a `fail_pending` under way, with the tasks it has still to visit; it holds the table's read
lock. -/
structure Registry where
  jobs : List Job
  tasks : AList fun _ : String => ℕ
  sweeps : List (AgentConnectionId × List ℕ)

/-- `Registry::default`. -/
def Registry.new : Registry := ⟨[], ∅, []⟩

/-- Let job `r` take a step. -/
def Registry.jobStep (s : Registry) (r : ℕ) (op : JobOp) : Option Registry :=
  match s.jobs[r]? with
  | none => none
  | some j => (j.step op).map fun j => { s with jobs := s.jobs.set r j }

/-- A call on the job registered under `id`; without such a job nothing happens. -/
def Registry.call (s : Registry) (id : String) (op : JobOp) : Option Registry :=
  match s.tasks.lookup id with
  | none => some s
  | some r => s.jobStep r op

/-- `Registry::register`, once it has the write lock. -/
def Registry.register (s : Registry) (id token agent : String) (generation maxBytes : ℕ) : Registry :=
  if (s.tasks.lookup id).isSome then s
  else
    { s with
      jobs := s.jobs ++ [.new token agent generation maxBytes]
      tasks := s.tasks.insert id s.jobs.length }

/-- `Registry::remove`, once it has the write lock. -/
def Registry.remove (s : Registry) (id token : String) : Registry :=
  let matching := (s.tasks.lookup id).any fun r =>
    (s.jobs[r]?).any fun task => tokenMatches task.token token
  if matching then { s with tasks := s.tasks.erase id } else s

/-- What can happen to the registry. -/
inductive RegistryOp
  | register (id token agent : String) (generation maxBytes : ℕ)
  | remove (id token : String)
  | beginUpload (id token : String)
  | result (id : String) (delivery : Delivery)
  /-- A disconnect begins its sweep over the tasks. -/
  | disconnected (connection : AgentConnectionId)
  /-- Sweep `i` visits the `k`-th of its tasks still to visit. -/
  | sweep (i k : ℕ)
  /-- Sweep `i` has visited all tasks. -/
  | sweepEnd (i : ℕ)
  /-- Job `r` takes a step of a call under way. -/
  | job (r : ℕ) (op : JobOp)
deriving DecidableEq, Repr

def Registry.step (s : Registry) : RegistryOp → Option Registry
  | .register id token agent generation maxBytes =>
      -- the write lock waits for the sweeps
      if s.sweeps = [] then some (s.register id token agent generation maxBytes) else none
  | .remove id token => if s.sweeps = [] then some (s.remove id token) else none
  | .beginUpload id token => s.call id (.beginUpload token)
  | .result id delivery => s.call id (.deliverResult delivery)
  | .disconnected connection =>
      some { s with sweeps := s.sweeps ++ [(connection, s.tasks.entries.map Sigma.snd)] }
  | .sweep i k =>
      match s.sweeps[i]? with
      | none => none
      | some (connection, refs) =>
          match refs[k]? with
          | none => none
          | some r =>
              (s.jobStep r (.failPending connection)).map fun s =>
                { s with sweeps := s.sweeps.set i (connection, refs.eraseIdx k) }
  | .sweepEnd i =>
      match s.sweeps[i]? with
      | some (_, []) => some { s with sweeps := s.sweeps.eraseIdx i }
      | _ => none
  | .job r op => if op.isCall then none else s.jobStep r op

end EveBox.Server
