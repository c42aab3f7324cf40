import EveBox.Rust.Text
import EveBox.Server.Agents

/-!
# Agent keys

Reference: the agent keys of `src/sqlite/configdb.rs` and of `src/server/api/admin.rs`, `authenticate_agent`,
`websocket`, `parse_handshake` and `connection` of `src/server/api/agent.rs`, and `src/cli/config/agents.rs`.

Handlers are cut where they wait. What passes over a connection is left open, and so is when it ends; the other
operations on the registry may come at any time.
-/

namespace EveBox.Server

open Rust

variable {μ : Type*}

/-! ## The table -/

/-- `AGENT_KEY_PREFIX`. -/
def agentKeyPrefix : String := "eba_"

/-- `MAX_AGENT_NAME_BYTES`. -/
def maxAgentNameBytes : ℕ := 16 * 1024

/-- `AgentKey`. -/
structure AgentKey where
  id : ℤ
  name : String
  key : String
  createdAt : ℤ
  lastSeen : Option ℤ
deriving DecidableEq, Repr

/-- `AgentKeyIdentity` of a row. -/
def AgentKey.identity (row : AgentKey) : AgentKeyIdentity := ⟨row.id, row.name⟩

/-- The table `agent_keys`. `sequence` is the id that was given last: ids are not given again. -/
structure AgentKeysTable where
  rows : List AgentKey
  sequence : ℤ
  id_nodup : (rows.map (·.id)).Nodup
  name_nodup : (rows.map (·.name)).Nodup
  key_nodup : (rows.map (·.key)).Nodup
  le_sequence : ∀ row ∈ rows, row.id ≤ sequence
deriving DecidableEq

/-- The variants of `ConfigDbError` for agent keys. -/
inductive AgentKeyError
  | emptyAgentName
  | agentNameTooLong (limit : ℕ)
  | agentNameReserved (name : String)
  | agentKeyNameInUse (name : String)
deriving DecidableEq, Repr

namespace AgentKeysTable

theorem nodup_append {β : Type*} {f : AgentKey → β} {rows : List AgentKey} {row : AgentKey}
    (hnodup : (rows.map f).Nodup) (h : f row ∉ rows.map f) : ((rows ++ [row]).map f).Nodup := by
  rw [List.map_append, List.map_singleton]
  exact List.nodup_append.2 ⟨hnodup, List.nodup_singleton _, fun a ha b hb => by
    rintro rfl
    exact h (List.mem_singleton.1 hb ▸ ha)⟩

/-- No row has the id that is given next. -/
theorem next_notMem (t : AgentKeysTable) : t.sequence + 1 ∉ t.rows.map (·.id) := by
  intro h
  obtain ⟨row, hrow, hid⟩ := List.mem_map.1 h
  have hle := t.le_sequence row hrow
  omega

/-- `INSERT INTO agent_keys`. -/
def insert (t : AgentKeysTable) (name key : String) (now : ℤ) : Option AgentKeysTable :=
  if h : name ∉ t.rows.map (·.name) ∧ key ∉ t.rows.map (·.key) then
    some { rows := t.rows ++ [⟨t.sequence + 1, name, key, now, none⟩]
           sequence := t.sequence + 1
           id_nodup := nodup_append t.id_nodup t.next_notMem
           name_nodup := nodup_append t.name_nodup h.1
           key_nodup := nodup_append t.key_nodup h.2
           le_sequence := fun row hrow => by
            rcases List.mem_append.1 hrow with hrow | hrow
            · have hle := t.le_sequence row hrow
              omega
            · rw [List.mem_singleton.1 hrow] }
  else none

/-- `ConfigDb::add_agent_key`; `key` is what `generate_agent_key` makes. -/
def addAgentKey (t : AgentKeysTable) (name key : String) (now : ℤ) : Except AgentKeyError AgentKeysTable :=
  let name := String.ofList (trim name.toList)
  if name = "" then .error .emptyAgentName
  else if name.utf8ByteSize > maxAgentNameBytes then .error (.agentNameTooLong maxAgentNameBytes)
  else if name = localPcapSourceName then .error (.agentNameReserved name)
  else
    match t.insert name key now with
    | some t => .ok t
    | none => .error (.agentKeyNameInUse name)

/-- `ConfigDb::verify_agent_key`. -/
def verifyAgentKey (t : AgentKeysTable) (key : String) : Option AgentKey :=
  if agentKeyPrefix.toList.isPrefixOf key.toList then t.rows.find? (·.key = key) else none

/-- `ConfigDb::get_agent_key_by_id`. -/
def getAgentKeyById (t : AgentKeysTable) (id : ℤ) : Option AgentKey := t.rows.find? (·.id = id)

/-- `DELETE FROM agent_keys`, of the rows that `keep` does not hold of. -/
def delete (t : AgentKeysTable) (keep : AgentKey → Bool) : AgentKeysTable where
  rows := t.rows.filter keep
  sequence := t.sequence
  id_nodup := t.id_nodup.sublist (List.filter_sublist.map _)
  name_nodup := t.name_nodup.sublist (List.filter_sublist.map _)
  key_nodup := t.key_nodup.sublist (List.filter_sublist.map _)
  le_sequence row hrow := t.le_sequence row (List.mem_of_mem_filter hrow)

/-- `ConfigDb::remove_agent_key`. -/
def removeAgentKey (t : AgentKeysTable) (name : String) : AgentKeysTable := t.delete (·.name ≠ name)

/-- `ConfigDb::remove_agent_key_by_id`. -/
def removeAgentKeyById (t : AgentKeysTable) (id : ℤ) : AgentKeysTable := t.delete (·.id ≠ id)

/-- The row with the id `id` was seen at `now`. -/
def touchRow (id now : ℤ) (row : AgentKey) : AgentKey :=
  if row.id = id then { row with lastSeen := some now } else row

theorem map_touchRow {β : Type*} (f : AgentKey → β) (h : ∀ row lastSeen, f { row with lastSeen } = f row)
    (rows : List AgentKey) (id now : ℤ) : (rows.map (touchRow id now)).map f = rows.map f := by
  rw [List.map_map]
  refine List.map_congr_left fun row _ => ?_
  show f (touchRow id now row) = f row
  unfold touchRow
  split
  · exact h row _
  · rfl

/-- `ConfigDb::touch_agent_key`. -/
def touchAgentKey (t : AgentKeysTable) (id now : ℤ) : AgentKeysTable where
  rows := t.rows.map (touchRow id now)
  sequence := t.sequence
  id_nodup := (map_touchRow (·.id) (fun _ _ => rfl) t.rows id now).symm ▸ t.id_nodup
  name_nodup := (map_touchRow (·.name) (fun _ _ => rfl) t.rows id now).symm ▸ t.name_nodup
  key_nodup := (map_touchRow (·.key) (fun _ _ => rfl) t.rows id now).symm ▸ t.key_nodup
  le_sequence row hrow := by
    obtain ⟨row', hrow', rfl⟩ := List.mem_map.1 hrow
    have hle := t.le_sequence row' hrow'
    unfold touchRow
    split <;> exact hle

end AgentKeysTable

/-! ## The handshake -/

/-- The header `x-evebox-agent`. -/
inductive AgentHeader
  | missing
  | tooLarge
  | notAscii
  | notJson
  | handshake (handshake : AgentHandshake)
deriving DecidableEq, Repr

/-- Nothing is left of a text without the whitespace around it. -/
def isBlank (text : String) : Bool := (trim text.toList).isEmpty

/-- `parse_handshake`. -/
def parseHandshake : AgentHeader → Except String AgentHandshake
  | .missing => .error "missing x-evebox-agent header"
  | .tooLarge => .error "x-evebox-agent header is too large"
  | .notAscii => .error "x-evebox-agent header is not valid ASCII"
  | .notJson => .error "x-evebox-agent header is not valid JSON"
  | .handshake handshake =>
      if isBlank handshake.name ∨ isBlank handshake.hostname ∨ isBlank handshake.version then
        .error "x-evebox-agent name, hostname, and version must not be empty"
      else if handshake.name.utf8ByteSize > maxAgentNameBytes then .error "x-evebox-agent name is too large"
      else .ok handshake

/-- What `websocket` reads of an upgrade request; `bearer` is the token of a well-formed bearer authorization. -/
structure UpgradeRequest where
  bearer : Option String
  offersSubprotocol : Bool
  header : AgentHeader
deriving DecidableEq, Repr

/-- `websocket`, after `authenticate_agent`: the status of a refusal, or the handshake. -/
def checkUpgrade (request : UpgradeRequest) (key : Option AgentKeyIdentity) : Except ℕ AgentHandshake :=
  if ¬ request.offersSubprotocol then .error 400
  else
    match parseHandshake request.header with
    | .error _ => .error 400
    | .ok handshake => if key.any (·.name ≠ handshake.name) then .error 403 else .ok handshake

/-! ## The server -/

/-- How far a connection has come. -/
inductive AgentConn
  | arrived (request : UpgradeRequest)
  /-- The key was found, and is being touched. -/
  | verified (request : UpgradeRequest) (key : AgentKeyIdentity)
  /-- The hello is being sent. -/
  | greeting (handshake : AgentHandshake) (key : Option AgentKeyIdentity)
  | running (entry : AgentEntry)
  /-- The loop has ended. -/
  | ending (entry : AgentEntry)
  /-- The registry has let go of the connection. -/
  | removed (entry : AgentEntry)
deriving DecidableEq, Repr

/-- How far `delete_agent_key` has come. -/
inductive KeyDelete
  | arrived (id : ℤ)
  /-- There is a row with the id. -/
  | selected (id : ℤ)
  /-- The row is gone. -/
  | deleted (id : ℤ)
deriving DecidableEq, Repr

/-- The registry, the table of keys, and who works on them. `answered` is a ghost: the ids whose deletion was
answered as done. -/
structure KeyServer (μ : Type*) where
  table : AgentKeysTable
  agents : AgentsState μ
  conns : ℕ → Option AgentConn
  deletes : ℕ → Option KeyDelete
  answered : List ℤ

/-- What can happen. -/
inductive KeysOp (μ : Type*)
  /-- From the admin API or from the command line. -/
  | addKey (name key : String) (now : ℤ)
  /-- From the command line. -/
  | removeKey (name : String)
  | upgrade (i : ℕ) (request : UpgradeRequest)
  /-- The handler `i` of a connection goes on: `ok` tells whether the statement or the send succeeds. -/
  | turn (i : ℕ) (ok : Bool) (now : ℤ)
  /-- The client of an upgrade has gone. -/
  | drop (i : ℕ)
  | delete (i : ℕ) (id : ℤ)
  | deleteTurn (i : ℕ) (ok : Bool)
  /-- The client of a deletion has gone. -/
  | dropDelete (i : ℕ)
  /-- Somebody else uses the registry. -/
  | other (op : AgentsOp μ)
  | restart

/-- An operation of neither a connection nor a deletion. -/
def AgentsOp.isOther : AgentsOp μ → Bool
  | .register _ _ => false
  | .remove _ => false
  | .revokeKey _ => false
  | _ => true

namespace KeyServer

/-- A server that has just started. -/
def start (μ : Type*) (table : AgentKeysTable) : KeyServer μ := ⟨table, .new μ, fun _ => none, fun _ => none, []⟩

/-- The connection `i` goes on with `conn`, or is over. -/
def setConn (s : KeyServer μ) (i : ℕ) (conn : Option AgentConn) : KeyServer μ :=
  { s with conns := Function.update s.conns i conn }

/-- The deletion `i` goes on with `delete`, or is over. -/
def setDelete (s : KeyServer μ) (i : ℕ) (delete : Option KeyDelete) : KeyServer μ :=
  { s with deletes := Function.update s.deletes i delete }

/-- `authenticate_agent`, up to `touch_agent_key`, and without a key what comes after it. -/
def authenticate (s : KeyServer μ) (allowUnauthenticated : Bool) (i : ℕ) (ok : Bool) (request : UpgradeRequest) :
    KeyServer μ :=
  match request.bearer with
  | none =>
      if allowUnauthenticated then
        match checkUpgrade request none with
        | .ok handshake => s.setConn i (some (.greeting handshake none))
        | .error _ => s.setConn i none
      else s.setConn i none
  | some token =>
      match if ok then s.table.verifyAgentKey token else none with
      | some row => s.setConn i (some (.verified request row.identity))
      | none => s.setConn i none

/-- `AgentRegistry::register` in `connection`, with a channel made for it. -/
def register (s : KeyServer μ) (i : ℕ) (handshake : AgentHandshake) (key : Option AgentKeyIdentity) :
    Option (KeyServer μ) :=
  (s.agents.step (.register handshake key)).map fun agents =>
    { s with agents }.setConn i (agents.handed[s.agents.handed.length]?.map .running)

/-- The next step of a connection. -/
def connTurn (s : KeyServer μ) (allowUnauthenticated : Bool) (i : ℕ) (ok : Bool) (now : ℤ) :
    AgentConn → Option (KeyServer μ)
  | .arrived request => some (s.authenticate allowUnauthenticated i ok request)
  | .verified request key =>
      let s := if ok then { s with table := s.table.touchAgentKey key.id now } else s
      match checkUpgrade request (some key) with
      | .ok handshake => some (s.setConn i (some (.greeting handshake (some key))))
      | .error _ => some (s.setConn i none)
  | .greeting handshake key => if ok then s.register i handshake key else some (s.setConn i none)
  | .running entry => some (s.setConn i (some (.ending entry)))
  | .ending entry =>
      (s.agents.step (.remove entry.connectionId)).map fun agents =>
        { s with agents }.setConn i (some (.removed entry))
  | .removed entry =>
      match entry.key with
      | some key =>
          some ((if ok then { s with table := s.table.touchAgentKey key.id now } else s).setConn i none)
      | none => some (s.setConn i none)

/-- The next step of `delete_agent_key`. -/
def nextDelete (s : KeyServer μ) (i : ℕ) (ok : Bool) : KeyDelete → Option (KeyServer μ)
  | .arrived id =>
      match if ok then s.table.getAgentKeyById id else none with
      | some _ => some (s.setDelete i (some (.selected id)))
      | none => some (s.setDelete i none)
  | .selected id =>
      if ok then some ({ s with table := s.table.removeAgentKeyById id }.setDelete i (some (.deleted id)))
      else some (s.setDelete i none)
  | .deleted id =>
      (s.agents.step (.revokeKey id)).map fun agents =>
        { s with agents, answered := id :: s.answered }.setDelete i none

/-- A connection that has not been upgraded yet. -/
def isUpgrade : AgentConn → Bool
  | .arrived _ => true
  | .verified _ _ => true
  | _ => false

/-- One step; the table is unchanged where a key is not added. -/
def step (allowUnauthenticated : Bool) (s : KeyServer μ) : KeysOp μ → Option (KeyServer μ)
  | .addKey name key now =>
      match s.table.addAgentKey name key now with
      | .ok table => some { s with table }
      | .error _ => some s
  | .removeKey name => some { s with table := s.table.removeAgentKey name }
  | .upgrade i request => if s.conns i = none then some (s.setConn i (some (.arrived request))) else none
  | .turn i ok now => (s.conns i).bind (s.connTurn allowUnauthenticated i ok now)
  | .drop i => if (s.conns i).any isUpgrade then some (s.setConn i none) else none
  | .delete i id => if s.deletes i = none then some (s.setDelete i (some (.arrived id))) else none
  | .deleteTurn i ok => (s.deletes i).bind (s.nextDelete i ok)
  | .dropDelete i => some (s.setDelete i none)
  | .other op => if op.isOther then (s.agents.step op).map fun agents => { s with agents } else none
  | .restart => some { s with agents := .new μ, conns := fun _ => none, deletes := fun _ => none }

end KeyServer

end EveBox.Server
