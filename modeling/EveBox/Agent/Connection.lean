import EveBox.Agent.Job
import EveBox.Lib.Transition
import EveBox.Server.Agents

/-!
# The control connection of the agent

Reference: `run_connection`, `ControlState`, `handle_message`, `start_job` and `terminal_after_worker`, of
`src/agent/channel.rs`.

The tasks are the loop of the connection and, for every request it has started, the three tasks of
`AgentJob` and a supervisor. A step is what one of them does up to where it next waits, and the order of
the steps is left open. What a fetch will do, if it is launched, comes with the request as its `Script`.
-/

namespace EveBox.Agent

open Rust Pcap

/-- `MAX_ACTIVE_JOBS`. -/
def maxActiveJobs : ℕ := 16

/-- `RESULT_CHANNEL_CAPACITY`. -/
def resultChannelCapacity : ℕ := 8

/-- `ServerMessage`. -/
inductive ServerMessage
  | hello (serverVersion : String) (capabilities : List String)
  | pcapRequest (id token : String) (startUs endUs : ℕ)
  | cancel (id token : String)
  | unknown
deriving DecidableEq, Repr

/-- `AgentMessage::PcapResult`. -/
structure AgentMessage where
  id : String
  token : String
  result : PcapResult
deriving DecidableEq, Repr

/-! ## The handshake -/

/-- `ControlState`. -/
inductive ControlState
  | awaitingHello
  | ready (pcap : Bool)
deriving DecidableEq, Repr

/-- `ControlState::accept`. -/
def ControlState.accept : ControlState → ServerMessage → Bool × ControlState
  | .awaitingHello, .hello _ capabilities => (true, .ready (capabilities.any (· = Server.capabilityPcap)))
  | .ready pcap, .hello _ _ => (false, .ready pcap)
  | control, .unknown => (true, control)
  | .awaitingHello, _ => (false, .awaitingHello)
  | .ready false, .pcapRequest _ _ _ _ => (false, .ready false)
  | .ready pcap, _ => (true, .ready pcap)

/-! ## The jobs -/

/-- `ActiveJob`. The token is that of the job with this number. -/
structure ActiveJob where
  token : String
  job : ℕ
deriving DecidableEq, Repr

/-- The supervisor of a job, from the spawn in `start_job`. -/
inductive Supervisor
  /-- In `terminal_after_worker`. -/
  | waiting
  /-- In `result_tx.send`; the job is out of the table. -/
  | sending (result : PcapResult)
  | sent
  /-- The receiver was gone. -/
  | discarded
deriving DecidableEq, Repr

/-- A request that has been started. -/
structure Job where
  id : String
  token : String
  agent : AgentJob
  supervisor : Supervisor

/-- `run_connection`. `handed` are the results that the supervisors have handed over, with the number of
their job; it is a ghost. -/
structure Connection where
  control : ControlState
  /-- Every job that has been started, the oldest first. -/
  jobs : List Job
  /-- The table of the active jobs. -/
  active : AList fun _ : String => ActiveJob
  results : Channel AgentMessage
  handed : List (ℕ × AgentMessage)

namespace Connection

/-- A connection before its first message. -/
def new : Connection where
  control := .awaitingHello
  jobs := []
  active := ∅
  results := .new AgentMessage resultChannelCapacity
  handed := []

/-- `active.len()`. -/
def activeLen (c : Connection) : ℕ := c.active.entries.length

/-- A blocking task of this connection is there. -/
def extracting (c : Connection) : Bool := c.jobs.any (·.agent.producer.alive)

/-- Something happens to the job with number `i`. -/
def update (c : Connection) (i : ℕ) (f : Job → Job) : Connection :=
  { c with jobs := c.jobs.modify i f }

/-- `job.cancel.cancel()`. -/
def cancelJob (c : Connection) (job : ℕ) : Connection :=
  c.update job fun r => { r with agent := r.agent.cancelled }

/-! ## Messages of the server -/

/-- `StartJob`. -/
inductive StartJob
  | started
  | duplicate
  | conflict
  | atCapacity
deriving DecidableEq, Repr

/-- `start_job`. -/
def startJob (c : Connection) (id token : String) (startUs endUs : ℕ) (script : Script) :
    StartJob × Connection :=
  match c.active.lookup id with
  | some existing => if existing.token = token then (.duplicate, c) else (.conflict, c)
  | none =>
      if maxActiveJobs ≤ c.activeLen then (.atCapacity, c)
      else
        (.started, { c with
          active := c.active.insert id ⟨token, c.jobs.length⟩
          jobs := c.jobs ++ [⟨id, token, .new script startUs endUs, .waiting⟩] })

/-- `MessageOutcome`. -/
inductive MessageOutcome
  | continue
  | fatal
deriving DecidableEq, Repr

/-- `handle_message`, after `accept`. -/
def dispatch (c : Connection) (message : ServerMessage) (script : Script) :
    MessageOutcome × Connection :=
  match message with
  | .hello _ _ => (.continue, c)
  | .pcapRequest id token startUs endUs =>
      match c.startJob id token startUs endUs script with
      | (.started, c) | (.duplicate, c) => (.continue, c)
      | (.conflict, c) | (.atCapacity, c) => (.fatal, c)
  | .cancel id token =>
      match c.active.lookup id with
      | some job => if job.token = token then (.continue, c.cancelJob job.job) else (.continue, c)
      | none => (.continue, c)
  | .unknown => (.continue, c)

/-- `handle_message`; a text that `decode_server_message` refuses is no message. -/
def handleMessage (c : Connection) (message : Option ServerMessage) (script : Script) :
    MessageOutcome × Connection :=
  match message with
  | none => (.fatal, c)
  | some message =>
      match c.control.accept message with
      | (false, control) => (.fatal, { c with control })
      | (true, control) => ({ c with control } : Connection).dispatch message script

/-- The end of `run_connection`: the active jobs are cancelled, and the receiver is dropped. -/
def close (c : Connection) : Connection :=
  let c := c.active.entries.foldl (fun c entry => c.cancelJob entry.2.job) c
  { c with results := { c.results with queue := [], closed := true } }

/-- The loop takes a text frame. -/
def receive (c : Connection) (message : Option ServerMessage) (script : Script) :
    Option Connection :=
  if c.results.closed then none
  else
    match c.handleMessage message script with
    | (.continue, c) => some c
    | (.fatal, c) => some c.close

/-- The loop takes a result and writes it; the write may fail. -/
def writeResult (c : Connection) (written : Bool) : Option Connection :=
  if c.results.closed then none
  else
    match c.results.queue with
    | [] => none
    | _ :: queue =>
        let c := { c with results := { c.results with queue } }
        some (if written then c else c.close)

/-- The loop ends by itself: the stream ends or fails, a control frame cannot be written, or the server is
silent for too long. -/
def lost (c : Connection) : Option Connection := if c.results.closed then none else some c.close

/-! ## Workers and supervisors -/

/-- A step of a job's fetch or worker. The token is not the worker's to cancel, and there is one permit for
the fetches. -/
def work (c : Connection) (i : ℕ) (op : AgentOp) : Option Connection :=
  if op = .cancel ∨ op = .start true ∧ c.extracting then none
  else do
    let r ← c.jobs[i]?
    let agent ← r.agent.step op
    return c.update i fun r => { r with agent }

/-- The HTTP request of a job polls its body. -/
def poll (c : Connection) (i : ℕ) : Option Connection := do
  let r ← c.jobs[i]?
  let (_, agent) ← r.agent.pollBody
  return c.update i fun r => { r with agent }

/-- The HTTP request of a job ends. -/
def uploadEnd (c : Connection) (i : ℕ) (join : UploadJoin) : Option Connection := do
  let r ← c.jobs[i]?
  let agent ← r.agent.uploadEnd join
  return c.update i fun r => { r with agent }

/-- `terminal_after_worker` returns, and the supervisor takes the job out of the table. -/
def terminal (c : Connection) (i : ℕ) : Option Connection := do
  let r ← c.jobs[i]?
  match r.supervisor, r.agent.phase with
  | .waiting, .done result =>
      let active :=
        if (c.active.lookup r.id).any (·.token = r.token) then c.active.erase r.id else c.active
      return { c with active }.update i fun r => { r with supervisor := .sending result }
  | _, _ => none

/-- `result_tx.send`. -/
def send (c : Connection) (i : ℕ) : Option Connection := do
  let r ← c.jobs[i]?
  match r.supervisor with
  | .sending result =>
      let message : AgentMessage := ⟨r.id, r.token, result⟩
      match c.results.trySend message with
      | (.ok (), results) =>
          return { c with results, handed := c.handed ++ [(i, message)] }.update i
            fun r => { r with supervisor := .sent }
      | (.error .closed, _) => return c.update i fun r => { r with supervisor := .discarded }
      | (.error .full, _) => none
  | _ => none

end Connection

/-- What can happen to a connection and its jobs. -/
inductive ConnectionOp
  | receive (message : Option ServerMessage) (script : Script)
  | writeResult (written : Bool)
  | lost
  | work (i : ℕ) (op : AgentOp)
  | poll (i : ℕ)
  | uploadEnd (i : ℕ) (join : UploadJoin)
  | terminal (i : ℕ)
  | send (i : ℕ)

def Connection.step (c : Connection) : ConnectionOp → Option Connection
  | .receive message script => c.receive message script
  | .writeResult written => c.writeResult written
  | .lost => c.lost
  | .work i op => c.work i op
  | .poll i => c.poll i
  | .uploadEnd i join => c.uploadEnd i join
  | .terminal i => c.terminal i
  | .send i => c.send i

end EveBox.Agent
