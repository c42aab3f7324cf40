import EveBox.Server.AgentKeys
import EveBox.Server.Routing

/-!
# Saving the routing table

Reference: `post_routing` of `src/server/api/pcap.rs`, `kv_set_config` of `src/server/api/admin.rs` and of
`src/sqlite/configdb.rs`, and `src/server/main.rs`.

Handlers are cut where they wait, and are dropped when their client goes away. A statement that has been begun is
executed at some time even so.
-/

namespace EveBox.Server

open Rust

/-! ## What is saved -/

/-- `ROUTING_MAX_RULES`. -/
def routingMaxRules : ℕ := 256

/-- `ROUTING_MAX_NAME`. -/
def routingMaxName : ℕ := maxAgentNameBytes

/-- The text of the error for a name that is too long. -/
def nameTooLong : String := s!"sensor and source names are limited to {routingMaxName} bytes"

/-- The name as it is saved. -/
def trimName (name : String) : String := String.ofList (trim name.toList)

/-- A round of the loop over the rules in `post_routing`. -/
def PcapRoutingRule.clean (rule : PcapRoutingRule) : Except String PcapRoutingRule :=
  let sensor := trimName rule.sensor
  let source := trimName rule.source
  if sensor = "" ∨ source = "" then .error "every routing rule requires a sensor and a source"
  else if routingMaxName < sensor.utf8ByteSize ∨ routingMaxName < source.utf8ByteSize then .error nameTooLong
  else .ok ⟨sensor, source⟩

/-- The default source in `post_routing`. -/
def cleanDefault : Option String → Except String (Option String)
  | none => .ok none
  | some name =>
      let name := trimName name
      if name = "" then .error "the default source must not be empty"
      else if routingMaxName < name.utf8ByteSize then .error nameTooLong
      else .ok (some name)

/-- The table that `post_routing` saves. -/
def PcapRouting.clean (routing : PcapRouting) : Except String PcapRouting :=
  if routingMaxRules < routing.rules.length then
    .error s!"the routing table is limited to {routingMaxRules} rules"
  else
    match routing.rules.mapM PcapRoutingRule.clean, cleanDefault routing.default with
    | .error err, _ => .error err
    | .ok _, .error err => .error err
    | .ok rules, .ok default => .ok ⟨rules, default⟩

/-! ## How it is stored -/

/-- `serde_json::to_value`, of a rule. -/
def PcapRoutingRule.toJson (rule : PcapRoutingRule) : Json :=
  .object [("sensor", .string rule.sensor), ("source", .string rule.source)]

/-- `serde_json::to_value`, of a table. -/
def PcapRouting.toJson (routing : PcapRouting) : Json :=
  .object [("default", routing.default.elim .null .string), ("rules", .array (routing.rules.map (·.toJson)))]

/-- A field that is a text; one that is not there is empty. -/
def readName : Option Json → Option String
  | none => some ""
  | some (.string s) => some s
  | some _ => none

/-- `serde_json::from_value`, of a rule: an object, or an array of the fields in their order. -/
def PcapRoutingRule.fromJson : Json → Option PcapRoutingRule
  | .object fields => do
      let sensor ← readName (fields.lookup "sensor")
      let source ← readName (fields.lookup "source")
      some ⟨sensor, source⟩
  | .array elems => do
      let sensor ← readName elems[0]?
      let source ← readName elems[1]?
      if elems.length ≤ 2 then some ⟨sensor, source⟩ else none
  | _ => none

/-- The rules of a table. -/
def readRules : Option Json → Option (List PcapRoutingRule)
  | none => some []
  | some (.array elems) => elems.mapM PcapRoutingRule.fromJson
  | some _ => none

/-- The default source of a table. -/
def readDefault : Option Json → Option (Option String)
  | none | some .null => some none
  | some (.string s) => some (some s)
  | some _ => none

/-- `serde_json::from_value`, of a table. -/
def PcapRouting.fromJson : Json → Option PcapRouting
  | .object fields => do
      let rules ← readRules (fields.lookup "rules")
      let default ← readDefault (fields.lookup "default")
      some ⟨rules, default⟩
  | .array elems => do
      let rules ← readRules elems[0]?
      let default ← readDefault elems[1]?
      if elems.length ≤ 2 then some ⟨rules, default⟩ else none
  | _ => none

/-! ## Runs -/

/-- Where a handler of `post_routing` is. -/
inductive RoutingTask
  /-- It waits for the lock. -/
  | waiting (routing : PcapRouting)
  /-- It has the lock, and waits for its statement. -/
  | saving (routing : PcapRouting)
  /-- The statement has been executed. -/
  | stored (routing : PcapRouting)
deriving DecidableEq, Repr

/-- The server, as far as the routing table goes. -/
structure RoutingServer where
  /-- The table `kv`. -/
  kv : String → Option Json
  /-- The table in force: `PcapService::routing`. -/
  live : PcapRouting
  /-- The handler that has `routing_save`. -/
  lock : Option ℕ
  tasks : ℕ → Option RoutingTask
  /-- Statements of handlers that have been dropped. -/
  late : List PcapRouting
  /-- Whether the stored table is one that no handler has put in force or will. -/
  torn : Bool

/-- What may happen. -/
inductive RoutingOp
  /-- `post_routing` gets a table. -/
  | post (i : ℕ) (routing : PcapRouting)
  | acquire (i : ℕ)
  /-- A statement is executed, or fails. -/
  | execute (i : ℕ) (ok : Bool)
  /-- The handler puts its table in force. -/
  | apply (i : ℕ)
  /-- The client of a handler goes away. -/
  | drop (i : ℕ)
  /-- A statement of a handler that has been dropped is executed. -/
  | executeLate (k : ℕ)
  /-- `kv_set_config`, over the other endpoint. -/
  | setConfig (key : String) (value : Json)
  /-- The server starts again, and reads the table or fails to. -/
  | restart (ok : Bool)

namespace RoutingServer

/-- The key of the table in `kv`. -/
def routingKey : String := "config.pcap.routing"

/-- The table that a server starts with. -/
def load (kv : String → Option Json) : PcapRouting := ((kv routingKey).bind PcapRouting.fromJson).getD ⟨[], none⟩

/-- A server that has started. -/
def start (kv : String → Option Json) : RoutingServer := ⟨kv, load kv, none, fun _ => none, [], false⟩

/-- `ConfigDb::kv_set_config`, of a table. -/
def store (s : RoutingServer) (routing : PcapRouting) : RoutingServer :=
  { s with kv := Function.update s.kv routingKey (some routing.toJson) }

/-- A handler is at some place, or has ended. -/
def goTo (s : RoutingServer) (i : ℕ) (task : Option RoutingTask) : RoutingServer :=
  { s with tasks := Function.update s.tasks i task }

/-- One step. -/
def step (s : RoutingServer) : RoutingOp → Option RoutingServer
  | .post i routing =>
      if (s.tasks i).isSome then none
      else
        match routing.clean with
        | .error _ => some s
        | .ok routing => some (s.goTo i (some (.waiting routing)))
  | .acquire i =>
      match s.tasks i, s.lock with
      | some (.waiting routing), none => some { s.goTo i (some (.saving routing)) with lock := some i }
      | _, _ => none
  | .execute i ok =>
      match s.tasks i with
      | some (.saving routing) =>
          if ok then some { (s.goTo i (some (.stored routing))).store routing with torn := false }
          else some { s.goTo i none with lock := none }
      | _ => none
  | .apply i =>
      match s.tasks i with
      | some (.stored routing) => some { s.goTo i none with lock := none, live := routing }
      | _ => none
  | .drop i =>
      match s.tasks i with
      | some (.waiting _) => some (s.goTo i none)
      -- the lock is given back, but the database has the statement
      | some (.saving routing) => some { s.goTo i none with lock := none, late := s.late ++ [routing] }
      | some (.stored _) => some { s.goTo i none with lock := none, torn := true }
      | none => none
  | .executeLate k =>
      s.late[k]?.map fun routing => { s.store routing with late := s.late.eraseIdx k, torn := true }
  | .setConfig key value =>
      -- the table has an endpoint of its own
      if key = routingKey then some s else some { s with kv := Function.update s.kv key (some value) }
  | .restart ok =>
      some { start s.kv with
        live := if ok then load s.kv else ⟨[], none⟩
        torn := !ok }

end RoutingServer

end EveBox.Server
