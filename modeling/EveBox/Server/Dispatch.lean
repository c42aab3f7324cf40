import EveBox.Server.Tasks

/-!
# Dispatching capture jobs to agents

Reference: `stream_agent` and `RemoteTaskGuard` of `src/server/api/pcap.rs`, and the end of the
connection loop of `src/server/api/agent.rs`.

A dispatcher registers its job, then asks the agent registry to send the request, and takes its job out
of the table when it is done with it. A connection that ends leaves the agent registry first and fails its
jobs next. The two registries have locks of their own, so all of these are separate steps.
-/

namespace EveBox.Server

open Rust Agent

/-- How far a dispatcher has come. -/
inductive DispatchPhase
  | registered
  /-- `try_send_current` took the request. -/
  | dispatched
  /-- `try_send_current` refused it. -/
  | refused
deriving DecidableEq, Repr

/-- A dispatcher whose job has been registered. -/
structure Dispatch where
  entry : AgentEntry
  id : String
  token : String
  /-- The number of its job. -/
  job : ℕ
  phase : DispatchPhase
  /-- Its `RemoteTaskGuard` has been dropped: nobody waits for the job any more. -/
  withdrawn : Bool
deriving DecidableEq, Repr

/-- The two registries and the parties that use them. -/
structure ServerContext (μ : Type*) where
  agents : AgentsState μ
  tasks : Registry
  dispatches : List Dispatch
  /-- The connections whose handler is between `remove` and `disconnected`. -/
  removing : List AgentConnectionId
  /-- The connections whose teardown has finished. -/
  gone : List AgentConnectionId

variable {μ : Type*}

/-- A server that has just started. -/
def ServerContext.new (μ : Type*) : ServerContext μ := ⟨.new μ, .new, [], [], []⟩

/-- The operations on the agent registry that are not part of a teardown. -/
def AgentsOp.isTeardown : AgentsOp μ → Bool
  | .remove _ => true
  | _ => false

/-- The operations on the jobs that uploads, result messages and disconnects under way take. -/
def RegistryOp.isService : RegistryOp → Bool
  | .beginUpload _ _ => true
  | .result _ _ => true
  | .sweep _ _ => true
  | .job _ _ => true
  | _ => false

/-- What can happen. Entries, dispatchers, connections and sweeps are named by their position. -/
inductive ServerOp (μ : Type*)
  | agents (op : AgentsOp μ)
  | service (op : RegistryOp)
  /-- A dispatcher registers its job for an entry. -/
  | register (entry : ℕ) (id token : String) (maxBytes : ℕ)
  /-- The dispatcher asks for its request to be sent. -/
  | dispatch (i : ℕ) (message : μ)
  /-- The dispatcher's guard is dropped, still armed with its `Cancel` message or not. -/
  | withdraw (i : ℕ) (cancel : Option μ)
  /-- The handler of an entry's connection removes the entry. -/
  | remove (entry : ℕ)
  /-- Then it reports the disconnect. -/
  | disconnected (k : ℕ)
  /-- The disconnect has been reported to every job, and the teardown is over. -/
  | finish (i : ℕ)

/-- `Registry::register` and the guard made for the job; without a guard on a duplicate id. -/
def ServerContext.register (s : ServerContext μ) (entry : AgentEntry) (id token : String)
    (maxBytes : ℕ) : Option (ServerContext μ) :=
  (s.tasks.step (.register id token entry.name entry.generation maxBytes)).map fun tasks =>
    if (s.tasks.tasks.lookup id).isSome then { s with tasks }
    else { s with
      tasks
      dispatches := s.dispatches ++ [⟨entry, id, token, s.tasks.jobs.length, .registered, false⟩] }

/-- `try_send_current`, called by dispatcher `i`. -/
def ServerContext.dispatch (s : ServerContext μ) (i : ℕ) (d : Dispatch) (message : μ) :
    ServerContext μ :=
  match s.agents.registry.trySendCurrent d.entry message with
  | (.ok (), registry) =>
      { s with
        agents := { s.agents with registry }
        dispatches := s.dispatches.set i { d with phase := .dispatched } }
  | (.error _, registry) =>
      { s with
        agents := { s.agents with registry }
        dispatches := s.dispatches.set i { d with phase := .refused } }

/-- `RemoteTaskGuard::drop`. -/
def ServerContext.withdraw (s : ServerContext μ) (i : ℕ) (d : Dispatch) (cancel : Option μ) :
    Option (ServerContext μ) :=
  let registry := match cancel with
    | some message => (s.agents.registry.trySend d.entry message).2
    | none => s.agents.registry
  (s.tasks.step (.remove d.id d.token)).map fun tasks =>
    { s with
      agents := { s.agents with registry }
      tasks
      dispatches := s.dispatches.set i { d with withdrawn := true } }

def ServerContext.step (s : ServerContext μ) : ServerOp μ → Option (ServerContext μ)
  | .agents op =>
      if op.isTeardown then none else (s.agents.step op).map fun agents => { s with agents }
  | .service op =>
      if op.isService then (s.tasks.step op).map fun tasks => { s with tasks } else none
  | .register i id token maxBytes =>
      (s.agents.handed[i]?).bind fun entry => s.register entry id token maxBytes
  | .dispatch i message =>
      match s.dispatches[i]? with
      | none => none
      | some d => if d.phase = .registered ∧ !d.withdrawn then some (s.dispatch i d message) else none
  | .withdraw i cancel =>
      match s.dispatches[i]? with
      | none => none
      | some d => if d.withdrawn then none else s.withdraw i d cancel
  | .remove i =>
      (s.agents.handed[i]?).bind fun entry =>
        (s.agents.step (.remove entry.connectionId)).map fun agents =>
          { s with agents, removing := entry.connectionId :: s.removing }
  | .disconnected k =>
      (s.removing[k]?).bind fun connection =>
        (s.tasks.step (.disconnected connection)).map fun tasks =>
          { s with tasks, removing := s.removing.eraseIdx k }
  | .finish i =>
      (s.tasks.sweeps[i]?).bind fun sweep =>
        (s.tasks.step (.sweepEnd i)).map fun tasks => { s with tasks, gone := sweep.1 :: s.gone }

end EveBox.Server
