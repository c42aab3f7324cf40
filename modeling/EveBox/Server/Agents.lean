import EveBox.Lib.Transition
import EveBox.Rust.Prelude
import Mathlib.Data.Finset.Insert
import Mathlib.Data.List.AList

/-!
# Connected agents

Reference: `src/server/agents.rs`, and `ResolvedPcapSource` of `src/server/pcap/mod.rs`.

What entries share through `Arc` lives in the registry: the semaphores of the PCAP lanes and the outbound
channels are lists an entry points into, and a shutdown token is known by its entry's generation. The
registry only passes `ServerMessage`s on, so their type is a parameter.
-/

namespace EveBox.Server

open Rust

/-- `OUTBOUND_CAPACITY`. -/
def outboundCapacity : ℕ := 32

/-- `LOCAL_PCAP_SOURCE_NAME`. -/
def localPcapSourceName : String := "(server)"

/-- `CAPABILITY_PCAP`. -/
def capabilityPcap : String := "pcap"

/-- `AgentConnectionId`. -/
structure AgentConnectionId where
  name : String
  generation : ℕ
deriving DecidableEq, Repr

/-- `AgentKeyIdentity`. -/
structure AgentKeyIdentity where
  id : ℤ
  name : String
deriving DecidableEq, Repr

/-- `RegistrationRefused`. -/
inductive RegistrationRefused
  | nameHeldByOtherKey
  | revokedKey
deriving DecidableEq, Repr

/-- `AgentHandshake`. -/
structure AgentHandshake where
  name : String
  hostname : String
  version : String
  capabilities : List String
deriving DecidableEq, Repr

/-- `AgentEntry`, as far as routing and dispatch read it. -/
structure AgentEntry where
  name : String
  hostname : String
  version : String
  capabilities : List String
  generation : ℕ
  key : Option AgentKeyIdentity
  /-- The number of the outbound channel. -/
  outbound : ℕ
  /-- The number of the lane's semaphore. -/
  pcapBusy : ℕ
deriving DecidableEq, Repr

/-- `AgentEntry::connection_id`. -/
def AgentEntry.connectionId (e : AgentEntry) : AgentConnectionId := ⟨e.name, e.generation⟩

/-- `AgentEntry::supports`. -/
def AgentEntry.supports (e : AgentEntry) (capability : String) : Bool :=
  e.capabilities.any (· = capability)

/-- The entry was registered with the key `keyId`. -/
def AgentEntry.usesKey (e : AgentEntry) (keyId : ℤ) : Bool := e.key.any (·.id = keyId)

/-- `AgentRegistry`, with the objects its entries share. -/
structure AgentRegistry (μ : Type*) where
  agents : AList fun _ : String => AgentEntry
  revokedKeyIds : Finset ℤ
  nextGeneration : ℕ
  /-- The generations whose shutdown token is cancelled. -/
  shutdown : Finset ℕ
  /-- The permits each lane has left. -/
  semaphores : List ℕ
  channels : List (Channel μ)

variable {μ : Type*}

/-- `AgentRegistry::new`. -/
def AgentRegistry.new (μ : Type*) : AgentRegistry μ := ⟨∅, ∅, 1, ∅, [], []⟩

/-- Two key identities that can be compared and differ. -/
def keysDiffer : Option AgentKeyIdentity → Option AgentKeyIdentity → Bool
  | some held, some claimed => held.id ≠ claimed.id
  | _, _ => false

/-- The lane of a new entry: the one of the entry it replaces, or a fresh semaphore of one permit. -/
def AgentRegistry.lane (r : AgentRegistry μ) (previous : Option AgentEntry) : ℕ × List ℕ :=
  match previous with
  | some previous => (previous.pcapBusy, r.semaphores)
  | none => (r.semaphores.length, r.semaphores ++ [1])

/-- `AgentRegistry::register`. -/
def AgentRegistry.register (r : AgentRegistry μ) (handshake : AgentHandshake)
    (key : Option AgentKeyIdentity) (outbound : ℕ) :
    Except RegistrationRefused AgentEntry × AgentRegistry μ :=
  let previous := r.agents.lookup handshake.name
  if key.any (·.id ∈ r.revokedKeyIds) then (.error .revokedKey, r)
  else if previous.any (fun previous => keysDiffer previous.key key) then
    (.error .nameHeldByOtherKey, r)
  else
    let (pcapBusy, semaphores) := r.lane previous
    let entry : AgentEntry :=
      { name := handshake.name
        hostname := handshake.hostname
        version := handshake.version
        capabilities := handshake.capabilities
        generation := r.nextGeneration
        key := key
        outbound := outbound
        pcapBusy := pcapBusy }
    (.ok entry, { r with
      agents := r.agents.insert entry.name entry
      nextGeneration := r.nextGeneration + 1
      shutdown := match previous with
        | some previous => insert previous.generation r.shutdown
        | none => r.shutdown
      semaphores := semaphores })

/-- `AgentRegistry::remove`. -/
def AgentRegistry.remove (r : AgentRegistry μ) (connection : AgentConnectionId) :
    Bool × AgentRegistry μ :=
  let isCurrent := (r.agents.lookup connection.name).any (·.generation = connection.generation)
  if isCurrent then (true, { r with agents := r.agents.erase connection.name }) else (false, r)

/-- `AgentRegistry::revoke_key`. -/
def AgentRegistry.revokeKey (r : AgentRegistry μ) (keyId : ℤ) : Bool × AgentRegistry μ :=
  let revokedKeyIds := insert keyId r.revokedKeyIds
  match (r.agents.entries.map Sigma.snd).find? (·.usesKey keyId) with
  | some entry =>
      (true, { r with revokedKeyIds, shutdown := insert entry.generation r.shutdown })
  | none => (false, { r with revokedKeyIds })

/-- `AgentEntry::try_send`: queue a message on the entry's own channel. -/
def AgentRegistry.trySend (r : AgentRegistry μ) (entry : AgentEntry) (message : μ) :
    Except TrySendError Unit × AgentRegistry μ :=
  match r.channels[entry.outbound]? with
  | none => (.error .closed, r)
  | some channel =>
      match channel.trySend message with
      | (result, channel) => (result, { r with channels := r.channels.set entry.outbound channel })

/-- `AgentRegistry::try_send_current`. -/
def AgentRegistry.trySendCurrent (r : AgentRegistry μ) (entry : AgentEntry) (message : μ) :
    Except TrySendError Unit × AgentRegistry μ :=
  if (r.agents.lookup entry.name).any (·.generation = entry.generation) then r.trySend entry message
  else (.error .closed, r)

/-- `AgentRegistry::pcap_agent`. -/
def AgentRegistry.pcapAgent (r : AgentRegistry μ) (name : String) : Option AgentEntry :=
  if name = localPcapSourceName then none
  else (r.agents.lookup name).filter (·.supports capabilityPcap)

/-- `ResolvedPcapSource::try_acquire` on an agent: take the permit of its lane. -/
def AgentRegistry.tryAcquire (r : AgentRegistry μ) (entry : AgentEntry) : Option (AgentRegistry μ) :=
  match r.semaphores[entry.pcapBusy]? with
  | some (permits + 1) => some { r with semaphores := r.semaphores.set entry.pcapBusy permits }
  | _ => none

/-- Dropping the `OwnedSemaphorePermit` of an entry's lane. -/
def AgentRegistry.release (r : AgentRegistry μ) (entry : AgentEntry) : AgentRegistry μ :=
  { r with semaphores := r.semaphores.modify entry.pcapBusy (· + 1) }

/-! ## Runs of the registry -/

/-- The registry and what its callers hold: the entries `register` has returned (never dropped here),
the sources resolved for a request that has not asked for its permit yet, and the permits outstanding,
each with the entry it was taken through. `removed` is a ghost: the generations `remove` has removed. -/
structure AgentsState (μ : Type*) where
  registry : AgentRegistry μ
  handed : List AgentEntry
  sources : List AgentEntry
  permits : List AgentEntry
  removed : List ℕ

/-- The state of a server that has just started. -/
def AgentsState.new (μ : Type*) : AgentsState μ := ⟨.new μ, [], [], [], []⟩

/-- What can happen to the registry. Entries, sources and permits are named by their position. -/
inductive AgentsOp (μ : Type*)
  | register (handshake : AgentHandshake) (key : Option AgentKeyIdentity)
  | remove (connection : AgentConnectionId)
  | revokeKey (keyId : ℤ)
  | trySendCurrent (entry : ℕ) (message : μ)
  /-- The connection task takes the next message off its channel. -/
  | receive (channel : ℕ)
  /-- The connection task drops the receiver of its channel. -/
  | close (channel : ℕ)
  | resolve (name : String)
  | tryAcquire (source : ℕ)
  | release (permit : ℕ)

/-- One operation. The channel a connection registers with is made for it. -/
def AgentsState.step (s : AgentsState μ) : AgentsOp μ → Option (AgentsState μ)
  | .register handshake key =>
      let r := { s.registry with
        channels := s.registry.channels ++ [Channel.new μ outboundCapacity] }
      match r.register handshake key s.registry.channels.length with
      | (.ok entry, r) => some { s with registry := r, handed := s.handed ++ [entry] }
      | (.error _, r) => some { s with registry := r }
  | .remove connection =>
      match s.registry.remove connection with
      | (true, r) => some { s with registry := r, removed := connection.generation :: s.removed }
      | (false, r) => some { s with registry := r }
  | .revokeKey keyId => some { s with registry := (s.registry.revokeKey keyId).2 }
  | .trySendCurrent i message =>
      (s.handed[i]?).map fun entry =>
        { s with registry := (s.registry.trySendCurrent entry message).2 }
  | .receive i =>
      some { s with registry := { s.registry with
        channels := s.registry.channels.modify i fun c => { c with queue := c.queue.tail } } }
  | .close i =>
      some { s with registry := { s.registry with
        channels := s.registry.channels.modify i fun c => { c with closed := true } } }
  | .resolve name =>
      match s.registry.pcapAgent name with
      | some entry => some { s with sources := s.sources ++ [entry] }
      | none => some s
  | .tryAcquire i =>
      (s.sources[i]?).map fun entry =>
        let s := { s with sources := s.sources.eraseIdx i }
        match s.registry.tryAcquire entry with
        | some r => { s with registry := r, permits := s.permits ++ [entry] }
        | none => s
  | .release i =>
      (s.permits[i]?).map fun entry =>
        { s with registry := s.registry.release entry, permits := s.permits.eraseIdx i }

end EveBox.Server
