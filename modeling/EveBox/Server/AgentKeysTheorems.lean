import EveBox.Server.AgentKeys
import EveBox.Server.AgentsTheorems

/-!
# What an agent key gives

* `KeysInv.step` — the table of keys, the connections and the registry agree about keys.
* `keys_law` — in every state of every run an agent is connected under the name its key was made for, no key of the
  table is revoked, and a key whose deletion was answered is used by no agent that is not being disconnected.
* `removed_key_registers_no_more` — once a key is out of the table and in no handshake, it registers nobody.
-/

namespace EveBox.Server

open Rust Transition

variable {μ : Type*}

/-! ## The registry -/

/-- The registry has lost entries at most. -/
structure Shrinks (s s' : AgentsState μ) : Prop where
  lookup : ∀ name e, s'.registry.agents.lookup name = some e → s.registry.agents.lookup name = some e
  revoked : s'.registry.revokedKeyIds = s.registry.revokedKeyIds
  shutdown : s.registry.shutdown ⊆ s'.registry.shutdown
  handed : s'.handed = s.handed

theorem SameTable.shrinks {s s' : AgentsState μ} (h : SameTable s s') : Shrinks s s' where
  lookup name e he := h.agents ▸ he
  revoked := h.revokedKeyIds
  shutdown := by rw [h.shutdown]
  handed := h.handed

theorem AgentsState.shrinks_of_step {s s' : AgentsState μ} {a : AgentsOp μ}
    (hregister : ∀ handshake key, a ≠ .register handshake key) (hrevoke : ∀ keyId, a ≠ .revokeKey keyId)
    (h : s.step a = some s') : Shrinks s s' := by
  obtain ⟨handshake, key, _, _, _, rfl, _⟩ | ⟨connection, e, -, -, -, rfl⟩ | ⟨keyId, rfl, -⟩ | ⟨-, hsame⟩ :=
    AgentsState.step_cases h
  · exact absurd rfl (hregister handshake key)
  · exact ⟨fun name f hf => (lookup_erase_cases hf).2, rfl, Finset.Subset.refl _, rfl⟩
  · exact absurd rfl (hrevoke keyId)
  · exact hsame.shrinks

theorem AgentsState.register_cases {s s' : AgentsState μ} {handshake : AgentHandshake}
    {key : Option AgentKeyIdentity} (h : s.step (.register handshake key) = some s') :
    Shrinks s s' ∨ ∃ e, e.key = key ∧ (∀ k, key = some k → k.id ∉ s.registry.revokedKeyIds) ∧
      s'.registry.agents = s.registry.agents.insert handshake.name e ∧
      s'.registry.revokedKeyIds = s.registry.revokedKeyIds ∧ s.registry.shutdown ⊆ s'.registry.shutdown ∧
      s'.handed = s.handed ++ [e] := by
  obtain ⟨handshake', key', _, r, e, ha, reg, hagents, -, hrevoked, hshutdown, hhanded, -⟩ |
    ⟨connection, e, ha, -⟩ | ⟨keyId, ha, -⟩ | ⟨-, hsame⟩ := AgentsState.step_cases h
  · cases ha
    refine .inr ⟨e, reg.key, fun k hk => hrevoked ▸ reg.not_revoked k hk, ?_, ?_, ?_, hhanded⟩
    · rw [reg.agents, hagents]
    · rw [reg.revokedKeyIds, hrevoked]
    · exact hshutdown ▸ reg.shutdown_mono
  · cases ha
  · cases ha
  · exact .inl hsame.shrinks

theorem AgentsState.revokeKey_cases {s s' : AgentsState μ} {keyId : ℤ} (h : s.step (.revokeKey keyId) = some s') :
    s'.registry.agents = s.registry.agents ∧ s'.registry.revokedKeyIds = insert keyId s.registry.revokedKeyIds ∧
      s.registry.shutdown ⊆ s'.registry.shutdown ∧ s'.handed = s.handed := by
  obtain rfl := Option.some.inj h
  obtain ⟨hagents, -, hrevoked, hmono⟩ := s.registry.revokeKey_agents keyId
  exact ⟨hagents, hrevoked, hmono, rfl⟩

/-- Nothing stands in the way of a key that is not revoked, for a name that no other key holds. -/
theorem AgentRegistry.register_of_free {r : AgentRegistry μ} {handshake : AgentHandshake} {key : AgentKeyIdentity}
    (outbound : ℕ) (hrevoked : key.id ∉ r.revokedKeyIds)
    (hheld : ∀ held, r.agents.lookup handshake.name = some held → keysDiffer held.key (some key) = false) :
    ∃ e r', r.register handshake (some key) outbound = (.ok e, r') := by
  have hfree : ((r.agents.lookup handshake.name).any fun previous => keysDiffer previous.key (some key)) = false := by
    cases hlookup : r.agents.lookup handshake.name with
    | none => rfl
    | some held => exact hheld held hlookup
  unfold register
  simp only [hfree, Option.any_some, hrevoked, decide_false, Bool.false_eq_true, if_false]
  exact ⟨_, _, rfl⟩

theorem AgentEntry.usesKey_iff {e : AgentEntry} {keyId : ℤ} :
    e.usesKey keyId = true ↔ ∃ key, e.key = some key ∧ key.id = keyId := by
  unfold AgentEntry.usesKey
  cases e.key with
  | none => simp
  | some key => simp

/-- Key ids that are used stand for the same names. -/
theorem KeyInv.congr {keyName keyName' : ℤ → String} {s : AgentsState μ} (h : KeyInv keyName s)
    (heq : ∀ name e keyId, s.registry.agents.lookup name = some e → e.usesKey keyId → keyName' keyId = keyName keyId) :
    KeyInv keyName' s where
  keyed name e keyId he huses := (heq name e keyId he huses).trans (h.keyed name e keyId he huses)
  revoked := h.revoked

/-! ## The table -/

namespace AgentKeysTable

theorem addAgentKey_ok {t t' : AgentKeysTable} {name key : String} {now : ℤ}
    (h : t.addAgentKey name key now = .ok t') :
    t'.rows = t.rows ++ [⟨t.sequence + 1, String.ofList (trim name.toList), key, now, none⟩] ∧
      t'.sequence = t.sequence + 1 := by
  unfold addAgentKey at h
  simp only at h
  split at h
  · cases h
  split at h
  · cases h
  split at h
  · cases h
  split at h
  · rename_i table hinsert
    cases h
    unfold insert at hinsert
    split at hinsert
    · cases hinsert
      exact ⟨rfl, rfl⟩
    · cases hinsert
  · cases h

theorem verifyAgentKey_mem {t : AgentKeysTable} {key : String} {row : AgentKey}
    (h : t.verifyAgentKey key = some row) : row ∈ t.rows ∧ row.key = key := by
  unfold verifyAgentKey at h
  split at h
  · exact ⟨List.mem_of_find?_eq_some h, by simpa using List.find?_some h⟩
  · cases h

theorem getAgentKeyById_mem {t : AgentKeysTable} {id : ℤ} {row : AgentKey} (h : t.getAgentKeyById id = some row) :
    row ∈ t.rows ∧ row.id = id :=
  ⟨List.mem_of_find?_eq_some h, by simpa using List.find?_some h⟩

@[simp] theorem touchRow_id (id now : ℤ) (row : AgentKey) : (touchRow id now row).id = row.id := by
  unfold touchRow
  split <;> rfl

@[simp] theorem touchRow_name (id now : ℤ) (row : AgentKey) : (touchRow id now row).name = row.name := by
  unfold touchRow
  split <;> rfl

end AgentKeysTable

/-! ## Keys that are gone -/

/-- The key that a connection is about to register with. -/
def AgentConn.key : AgentConn → Option AgentKeyIdentity
  | .verified _ key => some key
  | .greeting _ key => key
  | _ => none

/-- The key is out of the table for ever, and nobody registers with it any more. -/
structure KeyServer.Closed (s : KeyServer μ) (id : ℤ) : Prop where
  issued : id ≤ s.table.sequence
  rows : ∀ row ∈ s.table.rows, row.id ≠ id
  closed : id ∈ s.agents.registry.revokedKeyIds ∨
    ∀ i conn key, s.conns i = some conn → conn.key = some key → key.id ≠ id

/-- No agent has got the key `id` on the way from `s` to `s'`. -/
structure KeyServer.NoNew (id : ℤ) (s s' : KeyServer μ) : Prop where
  handed : ∀ e ∈ s'.agents.handed, e.usesKey id → e ∈ s.agents.handed
  entries : ∀ name e, s'.agents.registry.agents.lookup name = some e → e.usesKey id →
    s.agents.registry.agents.lookup name = some e ∧ s.agents.registry.shutdown ⊆ s'.agents.registry.shutdown

namespace KeyServer

theorem NoNew.refl (id : ℤ) (s : KeyServer μ) : NoNew id s s :=
  ⟨fun _ he _ => he, fun _ _ he _ => ⟨he, Finset.Subset.refl _⟩⟩

theorem NoNew.trans {id : ℤ} {s t u : KeyServer μ} (h : NoNew id s t) (h' : NoNew id t u) : NoNew id s u where
  handed e he huses := h.handed e (h'.handed e he huses) huses
  entries name _ he huses := by
    obtain ⟨ht, hmono⟩ := h'.entries name _ he huses
    obtain ⟨hs, hmono'⟩ := h.entries name _ ht huses
    exact ⟨hs, hmono'.trans hmono⟩

theorem NoNew.of_agents {id : ℤ} {s s' : KeyServer μ} (h : s'.agents = s.agents) : NoNew id s s' := by
  constructor
  · rw [h]
    exact (NoNew.refl id s).handed
  · rw [h]
    exact (NoNew.refl id s).entries

theorem NoNew.of_shrinks {id : ℤ} {s s' : KeyServer μ} (h : Shrinks s.agents s'.agents) : NoNew id s s' where
  handed _ he _ := h.handed ▸ he
  entries name e he _ := ⟨h.lookup name e he, h.shutdown⟩

/-- The handler of a connection goes on with a key of the table, or with the key it had. -/
def HasKey (s : KeyServer μ) (i : ℕ) (conn : Option AgentConn) : Prop :=
  ∀ c key, conn = some c → c.key = some key →
    (∃ row ∈ s.table.rows, row.identity = key) ∨ ∃ c', s.conns i = some c' ∧ c'.key = some key

theorem setConn_cases {s : KeyServer μ} {i j : ℕ} {conn : Option AgentConn} {c : AgentConn}
    (h : (s.setConn i conn).conns j = some c) : j = i ∧ conn = some c ∨ s.conns j = some c := by
  simp only [setConn, Function.update_apply] at h
  split at h
  · exact .inl ⟨‹_›, h⟩
  · exact .inr h

theorem setDelete_cases {s : KeyServer μ} {i j : ℕ} {delete : Option KeyDelete} {d : KeyDelete}
    (h : (s.setDelete i delete).deletes j = some d) : j = i ∧ delete = some d ∨ s.deletes j = some d := by
  simp only [setDelete, Function.update_apply] at h
  split at h
  · exact .inl ⟨‹_›, h⟩
  · exact .inr h

namespace Closed

variable {s : KeyServer μ} {id : ℤ}

theorem setConn (h : s.Closed id) {i : ℕ} {conn : Option AgentConn} (hkey : s.HasKey i conn) :
    (s.setConn i conn).Closed id where
  issued := h.issued
  rows := h.rows
  closed := by
    refine h.closed.imp_right fun hconns j c key hj hc heq => ?_
    rcases setConn_cases hj with ⟨-, rfl⟩ | hj
    · rcases hkey c key rfl hc with ⟨row, hrow, rfl⟩ | ⟨c', hc', hkey'⟩
      · exact h.rows row hrow heq
      · exact hconns i c' key hc' hkey' heq
    · exact hconns j c key hj hc heq

/-- Another table, with no id less than before and no row for `id`. -/
theorem withTable (h : s.Closed id) {table : AgentKeysTable} (hsequence : s.table.sequence ≤ table.sequence)
    (hrows : ∀ row ∈ table.rows, row.id ≠ id) : Closed { s with table } id where
  issued := le_trans h.issued hsequence
  rows := hrows
  closed := h.closed

theorem touch (h : s.Closed id) (id' now : ℤ) : Closed { s with table := s.table.touchAgentKey id' now } id := by
  refine h.withTable (Int.le_refl _) fun row hrow => ?_
  obtain ⟨row', hrow', rfl⟩ := List.mem_map.1 hrow
  rw [AgentKeysTable.touchRow_id]
  exact h.rows row' hrow'

theorem withAgents (h : s.Closed id) {agents : AgentsState μ}
    (hrevoked : s.agents.registry.revokedKeyIds ⊆ agents.registry.revokedKeyIds) : Closed { s with agents } id where
  issued := h.issued
  rows := h.rows
  closed := h.closed.imp_left fun h => hrevoked h

end Closed

theorem hasKey_none (s : KeyServer μ) (i : ℕ) : s.HasKey i none := fun _ _ h => by cases h

/-- A connection without a key to register with. -/
theorem hasKey_of_none (s : KeyServer μ) (i : ℕ) {c : AgentConn} (h : c.key = none) : s.HasKey i (some c) := by
  rintro _ key ⟨⟩ hkey
  rw [h] at hkey
  cases hkey

theorem checkUpgrade_ok {request : UpgradeRequest} {key : Option AgentKeyIdentity} {handshake : AgentHandshake}
    (h : checkUpgrade request key = .ok handshake) : ∀ k, key = some k → k.name = handshake.name := by
  unfold checkUpgrade at h
  split at h
  · cases h
  split at h
  · cases h
  split at h
  · cases h
  · rename_i hsame
    cases h
    rintro k rfl
    simpa using hsame

/-- A connection whose turn is a step towards its registration keeps what a closed key is. -/
theorem Closed.authenticate {s : KeyServer μ} {id : ℤ} (h : s.Closed id) (allow : Bool) (i : ℕ) (ok : Bool)
    (request : UpgradeRequest) : (s.authenticate allow i ok request).Closed id := by
  unfold KeyServer.authenticate
  split
  · split
    · split
      · exact h.setConn (s.hasKey_of_none i rfl)
      · exact h.setConn (s.hasKey_none i)
    · exact h.setConn (s.hasKey_none i)
  · split
    · rename_i token htoken row hrow
      refine h.setConn ?_
      rintro _ key ⟨⟩ hkey
      split at hrow
      · exact .inl ⟨row, (AgentKeysTable.verifyAgentKey_mem hrow).1, Option.some.inj hkey⟩
      · cases hrow
    · exact h.setConn (s.hasKey_none i)

theorem authenticate_agents (s : KeyServer μ) (allow : Bool) (i : ℕ) (ok : Bool) (request : UpgradeRequest) :
    (s.authenticate allow i ok request).agents = s.agents := by
  unfold authenticate
  split
  · split
    · split <;> rfl
    · rfl
  · split <;> rfl

/-- A registration with another key than `id`, or with none. -/
theorem Closed.register {s s' : KeyServer μ} {id : ℤ} (h : s.Closed id) {i : ℕ} {handshake : AgentHandshake}
    {key : Option AgentKeyIdentity} (hconn : s.conns i = some (.greeting handshake key))
    (hregister : s.register i handshake key = some s') : s'.Closed id ∧ NoNew id s s' := by
  obtain ⟨agents, hagents, rfl⟩ := Option.map_eq_some_iff.1 hregister
  have hnone : HasKey { s with agents } i (agents.handed[s.agents.handed.length]?.map .running) := by
    intro c k hc hk
    obtain ⟨e, -, rfl⟩ := Option.map_eq_some_iff.1 hc
    cases hk
  rcases AgentsState.register_cases hagents with hshrinks | ⟨e, hkey, hfree, htable, hrevoked, hmono, hhanded⟩
  · exact ⟨(h.withAgents (by rw [hshrinks.revoked])).setConn hnone, .of_shrinks hshrinks⟩
  · refine ⟨(h.withAgents (by rw [hrevoked])).setConn hnone, ?_⟩
    have hother : ¬ e.usesKey id := by
      intro huses
      obtain ⟨k, hk, rfl⟩ := AgentEntry.usesKey_iff.1 huses
      rw [hkey] at hk
      rcases h.closed with hmem | hconns
      · exact hfree k hk hmem
      · exact hconns i _ k hconn hk rfl
    constructor
    · intro f hf huses
      rcases List.mem_append.1 (hhanded ▸ hf) with hf | hf
      · exact hf
      · rw [List.mem_singleton.1 hf] at huses
        exact absurd huses hother
    · intro name f hf huses
      rw [show (KeyServer.setConn { s with agents } i _).agents = agents from rfl, htable] at hf
      rcases lookup_insert_cases hf with ⟨-, rfl⟩ | ⟨-, hf⟩
      · exact absurd huses hother
      · exact ⟨hf, hmono⟩

theorem Closed.connTurn {s s' : KeyServer μ} {id : ℤ} (h : s.Closed id) {allow : Bool} {i : ℕ} {ok : Bool} {now : ℤ}
    {conn : AgentConn} (hconn : s.conns i = some conn) (hturn : s.connTurn allow i ok now conn = some s') :
    s'.Closed id ∧ NoNew id s s' := by
  cases conn with
  | arrived request =>
      obtain rfl := Option.some.inj hturn
      exact ⟨h.authenticate allow i ok request, .of_agents (s.authenticate_agents allow i ok request)⟩
  | verified request key =>
      have htouched : Closed (if ok then { s with table := s.table.touchAgentKey key.id now } else s) id := by
        split
        · exact h.touch key.id now
        · exact h
      have hconns : (if ok then { s with table := s.table.touchAgentKey key.id now } else s).conns i =
          some (.verified request key) := by
        split <;> exact hconn
      have hagents : (if ok then { s with table := s.table.touchAgentKey key.id now } else s).agents = s.agents := by
        split <;> rfl
      simp only [KeyServer.connTurn] at hturn
      split at hturn
      · obtain rfl := Option.some.inj hturn
        refine ⟨htouched.setConn ?_, .of_agents hagents⟩
        rintro _ k ⟨⟩ hk
        exact .inr ⟨_, hconns, hk⟩
      · obtain rfl := Option.some.inj hturn
        exact ⟨htouched.setConn (hasKey_none _ i), .of_agents hagents⟩
  | greeting handshake key =>
      simp only [KeyServer.connTurn] at hturn
      split at hturn
      · exact h.register hconn hturn
      · obtain rfl := Option.some.inj hturn
        exact ⟨h.setConn (s.hasKey_none i), .of_agents rfl⟩
  | running entry =>
      obtain rfl := Option.some.inj hturn
      exact ⟨h.setConn (s.hasKey_of_none i rfl), .of_agents rfl⟩
  | ending entry =>
      obtain ⟨agents, hagents, rfl⟩ := Option.map_eq_some_iff.1 hturn
      have hshrinks : Shrinks s.agents agents :=
        AgentsState.shrinks_of_step (fun _ _ h => by cases h) (fun _ h => by cases h) hagents
      exact ⟨(h.withAgents (by rw [hshrinks.revoked])).setConn (hasKey_of_none _ i rfl), .of_shrinks hshrinks⟩
  | removed entry =>
      simp only [KeyServer.connTurn] at hturn
      split at hturn
      · rename_i key hkey
        obtain rfl := Option.some.inj hturn
        refine ⟨Closed.setConn ?_ (hasKey_none _ i), ?_⟩
        · split
          · exact h.touch key.id now
          · exact h
        · split <;> exact .of_agents rfl
      · obtain rfl := Option.some.inj hturn
        exact ⟨h.setConn (s.hasKey_none i), .of_agents rfl⟩

theorem Closed.setDelete {s : KeyServer μ} {id : ℤ} (h : s.Closed id) (i : ℕ) (delete : Option KeyDelete) :
    (s.setDelete i delete).Closed id :=
  ⟨h.issued, h.rows, h.closed⟩

theorem Closed.deleteRows {s : KeyServer μ} {id : ℤ} (h : s.Closed id) (keep : AgentKey → Bool) :
    Closed { s with table := s.table.delete keep } id :=
  h.withTable (Int.le_refl _) fun row hrow => h.rows row (List.mem_of_mem_filter hrow)

theorem Closed.nextDelete {s s' : KeyServer μ} {id : ℤ} (h : s.Closed id) {i : ℕ} {ok : Bool} {delete : KeyDelete}
    (hnext : s.nextDelete i ok delete = some s') : s'.Closed id ∧ NoNew id s s' := by
  cases delete with
  | arrived id' =>
      simp only [KeyServer.nextDelete] at hnext
      split at hnext <;> obtain rfl := Option.some.inj hnext <;> exact ⟨h.setDelete i _, .of_agents rfl⟩
  | selected id' =>
      simp only [KeyServer.nextDelete] at hnext
      split at hnext
      · obtain rfl := Option.some.inj hnext
        exact ⟨(h.deleteRows _).setDelete i _, .of_agents rfl⟩
      · obtain rfl := Option.some.inj hnext
        exact ⟨h.setDelete i _, .of_agents rfl⟩
  | deleted id' =>
      simp only [KeyServer.nextDelete] at hnext
      obtain ⟨agents, hagents, rfl⟩ := Option.map_eq_some_iff.1 hnext
      obtain ⟨htable, hrevoked, hmono, hhanded⟩ := AgentsState.revokeKey_cases hagents
      have hclosed : Closed { s with agents } id := h.withAgents (hrevoked ▸ Finset.subset_insert _ _)
      refine ⟨⟨hclosed.issued, hclosed.rows, hclosed.closed⟩, ?_, ?_⟩
      · exact fun e he _ => hhanded ▸ he
      · exact fun name e he _ => ⟨htable ▸ he, hmono⟩

theorem Closed.step {s s' : KeyServer μ} {id : ℤ} (h : s.Closed id) {allow : Bool} {a : KeysOp μ}
    (hstep : KeyServer.step allow s a = some s') : s'.Closed id ∧ NoNew id s s' := by
  cases a with
  | addKey name key now =>
      simp only [KeyServer.step] at hstep
      split at hstep
      · rename_i table hadd
        obtain rfl := Option.some.inj hstep
        obtain ⟨hrows, hsequence⟩ := AgentKeysTable.addAgentKey_ok hadd
        refine ⟨h.withTable (by omega) fun row hrow => ?_, .of_agents rfl⟩
        rcases List.mem_append.1 (hrows ▸ hrow) with hrow | hrow
        · exact h.rows row hrow
        · rw [List.mem_singleton.1 hrow]
          have hissued := h.issued
          show s.table.sequence + 1 ≠ id
          omega
      · obtain rfl := Option.some.inj hstep
        exact ⟨h, .refl id s⟩
  | removeKey name =>
      obtain rfl := Option.some.inj hstep
      exact ⟨h.deleteRows _, .of_agents rfl⟩
  | upgrade i request =>
      simp only [KeyServer.step] at hstep
      split at hstep
      · obtain rfl := Option.some.inj hstep
        exact ⟨h.setConn (s.hasKey_of_none i rfl), .of_agents rfl⟩
      · cases hstep
  | turn i ok now =>
      obtain ⟨conn, hconn, hturn⟩ := Option.bind_eq_some_iff.1 hstep
      exact h.connTurn hconn hturn
  | drop i =>
      simp only [KeyServer.step] at hstep
      split at hstep
      · obtain rfl := Option.some.inj hstep
        exact ⟨h.setConn (s.hasKey_none i), .of_agents rfl⟩
      · cases hstep
  | delete i id' =>
      simp only [KeyServer.step] at hstep
      split at hstep
      · obtain rfl := Option.some.inj hstep
        exact ⟨h.setDelete i _, .of_agents rfl⟩
      · cases hstep
  | deleteTurn i ok =>
      obtain ⟨delete, -, hnext⟩ := Option.bind_eq_some_iff.1 hstep
      exact h.nextDelete hnext
  | dropDelete i =>
      obtain rfl := Option.some.inj hstep
      exact ⟨h.setDelete i _, .of_agents rfl⟩
  | other op =>
      simp only [KeyServer.step] at hstep
      split at hstep
      · rename_i hother
        obtain ⟨agents, hagents, rfl⟩ := Option.map_eq_some_iff.1 hstep
        have hshrinks : Shrinks s.agents agents := by
          refine AgentsState.shrinks_of_step ?_ ?_ hagents
          · rintro handshake key rfl
            cases hother
          · rintro keyId rfl
            cases hother
        exact ⟨h.withAgents (by rw [hshrinks.revoked]), .of_shrinks hshrinks⟩
      · cases hstep
  | restart =>
      obtain rfl := Option.some.inj hstep
      refine ⟨⟨h.issued, h.rows, .inr fun i conn key hi => ?_⟩, ⟨fun e he => ?_, fun name e he => ?_⟩⟩
      · cases hi
      · cases he
      · cases he

/-- Once a key is out of the table and no connection is about to register with it, in every continuation no agent
gets it any more; those that have it keep it until they are disconnected. -/
theorem removed_key_registers_no_more {allow : Bool} {s s' : KeyServer μ} {id : ℤ} (h : s.Closed id)
    {as : List (KeysOp μ)} (hrun : exec (KeyServer.step allow) s as = some s') : s'.Closed id ∧ NoNew id s s' :=
  invariant (P := fun t => t.Closed id ∧ NoNew id s t)
    (fun _ _ _ ht hstep => ⟨(ht.1.step hstep).1, ht.2.trans (ht.1.step hstep).2⟩) ⟨h, .refl id s⟩ hrun

end KeyServer

/-! ## The invariant -/

/-- What holds in every state. `keyName` tells the name that each id was given for. -/
structure KeysInv (keyName : ℤ → String) (s : KeyServer μ) : Prop where
  keys : KeyInv keyName s.agents
  rows : ∀ row ∈ s.table.rows, keyName row.id = row.name
  conns : ∀ i conn key, s.conns i = some conn → conn.key = some key →
    keyName key.id = key.name ∧ key.id ≤ s.table.sequence
  greeting : ∀ i handshake key, s.conns i = some (.greeting handshake (some key)) → key.name = handshake.name
  entries : ∀ name e key, s.agents.registry.agents.lookup name = some e → e.key = some key →
    key.name = name ∧ key.id ≤ s.table.sequence
  revoked : ∀ id ∈ s.agents.registry.revokedKeyIds, id ≤ s.table.sequence ∧ ∀ row ∈ s.table.rows, row.id ≠ id
  selected : ∀ i id, s.deletes i = some (.selected id) → id ≤ s.table.sequence
  deleted : ∀ i id, s.deletes i = some (.deleted id) → id ≤ s.table.sequence ∧ ∀ row ∈ s.table.rows, row.id ≠ id

namespace KeysInv

open KeyServer

variable {keyName : ℤ → String} {s : KeyServer μ}

theorem setConn (inv : KeysInv keyName s) {i : ℕ} {conn : Option AgentConn} (hkey : s.HasKey i conn)
    (hgreeting : ∀ handshake key, conn = some (.greeting handshake (some key)) → key.name = handshake.name) :
    KeysInv keyName (s.setConn i conn) where
  keys := inv.keys
  rows := inv.rows
  conns j c key hj hc := by
    rcases setConn_cases hj with ⟨-, rfl⟩ | hj
    · rcases hkey c key rfl hc with ⟨row, hrow, rfl⟩ | ⟨c', hc', hkey'⟩
      · exact ⟨inv.rows row hrow, s.table.le_sequence row hrow⟩
      · exact inv.conns i c' key hc' hkey'
    · exact inv.conns j c key hj hc
  greeting j handshake key hj := by
    rcases setConn_cases hj with ⟨-, hconn⟩ | hj
    · exact hgreeting handshake key hconn
    · exact inv.greeting j handshake key hj
  entries := inv.entries
  revoked := inv.revoked
  selected := inv.selected
  deleted := inv.deleted

/-- A connection that has no key to register with. -/
theorem setConn_of_none (inv : KeysInv keyName s) (i : ℕ) {conn : Option AgentConn}
    (h : ∀ c, conn = some c → c.key = none) : KeysInv keyName (s.setConn i conn) := by
  refine inv.setConn (fun c key hc hkey => ?_) (fun handshake key hc => ?_)
  · rw [h c hc] at hkey
    cases hkey
  · cases h _ hc

/-- Another table, with no row that was not there. -/
theorem withTable (inv : KeysInv keyName s) {table : AgentKeysTable} (hsequence : table.sequence = s.table.sequence)
    (hrows : ∀ row ∈ table.rows, ∃ row' ∈ s.table.rows, row'.identity = row.identity) :
    KeysInv keyName { s with table } := by
  have hid : ∀ {id}, (∀ row ∈ s.table.rows, row.id ≠ id) → ∀ row ∈ table.rows, row.id ≠ id := by
    intro id h row hrow heq
    obtain ⟨row', hrow', hsame⟩ := hrows row hrow
    exact h row' hrow' ((congrArg AgentKeyIdentity.id hsame).trans heq)
  constructor
  · exact inv.keys
  · intro row hrow
    obtain ⟨row', hrow', hsame⟩ := hrows row hrow
    have hname := inv.rows row' hrow'
    rw [show row'.id = row.id from congrArg AgentKeyIdentity.id hsame,
      show row'.name = row.name from congrArg AgentKeyIdentity.name hsame] at hname
    exact hname
  · exact fun i conn key hi hkey => hsequence ▸ inv.conns i conn key hi hkey
  · exact inv.greeting
  · exact fun name e key he hkey => hsequence ▸ inv.entries name e key he hkey
  · exact fun id hid' => ⟨hsequence ▸ (inv.revoked id hid').1, hid (inv.revoked id hid').2⟩
  · exact fun i id hi => hsequence ▸ inv.selected i id hi
  · exact fun i id hi => ⟨hsequence ▸ (inv.deleted i id hi).1, hid (inv.deleted i id hi).2⟩

theorem touch (inv : KeysInv keyName s) (id now : ℤ) :
    KeysInv keyName { s with table := s.table.touchAgentKey id now } := by
  refine inv.withTable rfl fun row hrow => ?_
  obtain ⟨row', hrow', rfl⟩ := List.mem_map.1 hrow
  refine ⟨row', hrow', ?_⟩
  unfold AgentKey.identity
  rw [AgentKeysTable.touchRow_id, AgentKeysTable.touchRow_name]

theorem deleteRows (inv : KeysInv keyName s) (keep : AgentKey → Bool) :
    KeysInv keyName { s with table := s.table.delete keep } :=
  inv.withTable rfl fun row hrow => ⟨row, List.mem_of_mem_filter hrow, rfl⟩

/-- A key is added; its id was given to nobody before. -/
theorem addKey (inv : KeysInv keyName s) {table : AgentKeysTable} {name key : String} {now : ℤ}
    (h : s.table.addAgentKey name key now = .ok table) :
    ∃ keyName', KeysInv keyName' { s with table } := by
  obtain ⟨hrows, hsequence⟩ := AgentKeysTable.addAgentKey_ok h
  have hid : ∀ {id}, id ≤ s.table.sequence ∧ (∀ row ∈ s.table.rows, row.id ≠ id) →
      id ≤ table.sequence ∧ ∀ row ∈ table.rows, row.id ≠ id := by
    rintro id ⟨hle, hne⟩
    refine ⟨by omega, fun row hrow => ?_⟩
    rcases List.mem_append.1 (hrows ▸ hrow) with hrow | hrow
    · exact hne row hrow
    · rw [List.mem_singleton.1 hrow]
      show s.table.sequence + 1 ≠ id
      omega
  have hold : ∀ {id}, id ≤ s.table.sequence →
      Function.update keyName (s.table.sequence + 1) (String.ofList (trim name.toList)) id = keyName id := by
    intro id hle
    exact Function.update_of_ne (by omega) _ _
  refine ⟨Function.update keyName (s.table.sequence + 1) (String.ofList (trim name.toList)), ?_⟩
  constructor
  · refine inv.keys.congr fun name' e keyId he huses => ?_
    obtain ⟨k, hk, rfl⟩ := AgentEntry.usesKey_iff.1 huses
    exact hold (inv.entries name' e k he hk).2
  · intro row hrow
    rcases List.mem_append.1 (hrows ▸ hrow) with hrow | hrow
    · rw [hold (s.table.le_sequence row hrow)]
      exact inv.rows row hrow
    · rw [List.mem_singleton.1 hrow]
      exact Function.update_self ..
  · intro i conn k hi hk
    obtain ⟨hname, hle⟩ := inv.conns i conn k hi hk
    exact ⟨(hold hle).trans hname, by show k.id ≤ table.sequence; omega⟩
  · exact inv.greeting
  · intro name' e k he hk
    obtain ⟨hname, hle⟩ := inv.entries name' e k he hk
    exact ⟨hname, by show k.id ≤ table.sequence; omega⟩
  · exact fun id hmem => hid (inv.revoked id hmem)
  · intro i id hi
    have hle := inv.selected i id hi
    show id ≤ table.sequence
    omega
  · exact fun i id hi => hid (inv.deleted i id hi)

/-- The registry has lost entries. -/
theorem shrink (inv : KeysInv keyName s) {agents : AgentsState μ} (h : Shrinks s.agents agents) {a : AgentsOp μ}
    (hauth : Authenticated keyName a) (hstep : s.agents.step a = some agents) : KeysInv keyName { s with agents } where
  keys := inv.keys.step hauth hstep
  rows := inv.rows
  conns := inv.conns
  greeting := inv.greeting
  entries name e key he := inv.entries name e key (h.lookup name e he)
  revoked id hid := inv.revoked id (h.revoked ▸ hid)
  selected := inv.selected
  deleted := inv.deleted

theorem register (inv : KeysInv keyName s) {i : ℕ} {handshake : AgentHandshake} {key : Option AgentKeyIdentity}
    (hconn : s.conns i = some (.greeting handshake key)) {s' : KeyServer μ}
    (hregister : s.register i handshake key = some s') : KeysInv keyName s' := by
  obtain ⟨agents, hagents, rfl⟩ := Option.map_eq_some_iff.1 hregister
  have hauth : Authenticated (μ := μ) keyName (.register handshake key) := by
    cases key with
    | none => trivial
    | some k => exact ⟨inv.greeting i handshake k hconn, (inv.conns i _ k hconn rfl).1⟩
  refine KeysInv.setConn_of_none ?_ i ?_
  · rcases AgentsState.register_cases hagents with hshrinks | ⟨e, hkey, -, htable, hrevoked, -, -⟩
    · exact inv.shrink hshrinks hauth hagents
    · refine ⟨inv.keys.step hauth hagents, inv.rows, inv.conns, inv.greeting, ?_, ?_, inv.selected, inv.deleted⟩
      · intro name f k hf hk
        rw [htable] at hf
        rcases lookup_insert_cases hf with ⟨rfl, rfl⟩ | ⟨-, hf⟩
        · rw [hkey] at hk
          subst hk
          exact ⟨inv.greeting i handshake k hconn, (inv.conns i _ k hconn rfl).2⟩
        · exact inv.entries name f k hf hk
      · exact fun id hid => inv.revoked id (hrevoked ▸ hid)
  · intro c hc
    obtain ⟨e, -, rfl⟩ := Option.map_eq_some_iff.1 hc
    rfl

theorem authenticate (inv : KeysInv keyName s) (allow : Bool) (i : ℕ) (ok : Bool) (request : UpgradeRequest) :
    KeysInv keyName (s.authenticate allow i ok request) := by
  unfold KeyServer.authenticate
  split
  · split
    · split
      · exact inv.setConn_of_none i fun c hc => by cases hc; rfl
      · exact inv.setConn_of_none i fun c hc => by cases hc
    · exact inv.setConn_of_none i fun c hc => by cases hc
  · split
    · rename_i token htoken row hrow
      refine inv.setConn ?_ (fun handshake key hc => by cases hc)
      rintro _ key ⟨⟩ hkey
      split at hrow
      · exact .inl ⟨row, (AgentKeysTable.verifyAgentKey_mem hrow).1, Option.some.inj hkey⟩
      · cases hrow
    · exact inv.setConn_of_none i fun c hc => by cases hc

theorem connTurn (inv : KeysInv keyName s) {allow : Bool} {i : ℕ} {ok : Bool} {now : ℤ} {conn : AgentConn}
    {s' : KeyServer μ} (hconn : s.conns i = some conn) (hturn : s.connTurn allow i ok now conn = some s') :
    KeysInv keyName s' := by
  cases conn with
  | arrived request =>
      obtain rfl := Option.some.inj hturn
      exact inv.authenticate allow i ok request
  | verified request key =>
      have htouched : KeysInv keyName (if ok then { s with table := s.table.touchAgentKey key.id now } else s) := by
        split
        · exact inv.touch key.id now
        · exact inv
      have hconns : (if ok then { s with table := s.table.touchAgentKey key.id now } else s).conns i =
          some (.verified request key) := by
        split <;> exact hconn
      simp only [KeyServer.connTurn] at hturn
      split at hturn
      · rename_i handshake hcheck
        obtain rfl := Option.some.inj hturn
        refine htouched.setConn ?_ ?_
        · rintro _ k ⟨⟩ hk
          exact .inr ⟨_, hconns, hk⟩
        · rintro handshake' k ⟨⟩
          exact checkUpgrade_ok hcheck _ rfl
      · obtain rfl := Option.some.inj hturn
        exact htouched.setConn_of_none i fun c hc => by cases hc
  | greeting handshake key =>
      simp only [KeyServer.connTurn] at hturn
      split at hturn
      · exact inv.register hconn hturn
      · obtain rfl := Option.some.inj hturn
        exact inv.setConn_of_none i fun c hc => by cases hc
  | running entry =>
      obtain rfl := Option.some.inj hturn
      exact inv.setConn_of_none i fun c hc => by cases hc; rfl
  | ending entry =>
      obtain ⟨agents, hagents, rfl⟩ := Option.map_eq_some_iff.1 hturn
      have hshrinks : Shrinks s.agents agents :=
        AgentsState.shrinks_of_step (fun _ _ h => by cases h) (fun _ h => by cases h) hagents
      exact (inv.shrink hshrinks (a := .remove entry.connectionId) trivial hagents).setConn_of_none i
        fun c hc => by cases hc; rfl
  | removed entry =>
      simp only [KeyServer.connTurn] at hturn
      split at hturn
      · rename_i key hkey
        obtain rfl := Option.some.inj hturn
        refine KeysInv.setConn_of_none ?_ i fun c hc => by cases hc
        split
        · exact inv.touch key.id now
        · exact inv
      · obtain rfl := Option.some.inj hturn
        exact inv.setConn_of_none i fun c hc => by cases hc

theorem setDelete (inv : KeysInv keyName s) (i : ℕ) {delete : Option KeyDelete}
    (hselected : ∀ id, delete = some (.selected id) → id ≤ s.table.sequence)
    (hdeleted : ∀ id, delete = some (.deleted id) → id ≤ s.table.sequence ∧ ∀ row ∈ s.table.rows, row.id ≠ id) :
    KeysInv keyName (s.setDelete i delete) where
  keys := inv.keys
  rows := inv.rows
  conns := inv.conns
  greeting := inv.greeting
  entries := inv.entries
  revoked := inv.revoked
  selected j id hj := by
    rcases setDelete_cases hj with ⟨-, h⟩ | hj
    · exact hselected id h
    · exact inv.selected j id hj
  deleted j id hj := by
    rcases setDelete_cases hj with ⟨-, h⟩ | hj
    · exact hdeleted id h
    · exact inv.deleted j id hj

theorem nextDelete (inv : KeysInv keyName s) {i : ℕ} {ok : Bool} {delete : KeyDelete} {s' : KeyServer μ}
    (hdelete : s.deletes i = some delete) (hnext : s.nextDelete i ok delete = some s') : KeysInv keyName s' := by
  cases delete with
  | arrived id =>
      simp only [KeyServer.nextDelete] at hnext
      split at hnext
      · rename_i row hrow
        obtain rfl := Option.some.inj hnext
        refine inv.setDelete i ?_ (fun id' h => by cases h)
        rintro id' ⟨⟩
        split at hrow
        · obtain ⟨hmem, rfl⟩ := AgentKeysTable.getAgentKeyById_mem hrow
          exact s.table.le_sequence row hmem
        · cases hrow
      · obtain rfl := Option.some.inj hnext
        exact inv.setDelete i (fun id' h => by cases h) (fun id' h => by cases h)
  | selected id =>
      simp only [KeyServer.nextDelete] at hnext
      split at hnext
      · obtain rfl := Option.some.inj hnext
        refine KeysInv.setDelete (inv.deleteRows _) i (fun id' h => by cases h) ?_
        rintro id' ⟨⟩
        exact ⟨inv.selected i id hdelete, fun row hrow => of_decide_eq_true (List.mem_filter.1 hrow).2⟩
      · obtain rfl := Option.some.inj hnext
        exact inv.setDelete i (fun id' h => by cases h) (fun id' h => by cases h)
  | deleted id =>
      simp only [KeyServer.nextDelete] at hnext
      obtain ⟨agents, hagents, rfl⟩ := Option.map_eq_some_iff.1 hnext
      obtain ⟨htable, hrevoked, -, -⟩ := AgentsState.revokeKey_cases hagents
      refine KeysInv.setDelete ?_ i (fun id' h => by cases h) (fun id' h => by cases h)
      refine ⟨inv.keys.step (a := .revokeKey id) trivial hagents, inv.rows, inv.conns, inv.greeting, ?_, ?_, inv.selected, inv.deleted⟩
      · intro name e k he
        exact inv.entries name e k (htable ▸ he)
      · intro id' hid'
        rcases Finset.mem_insert.1 (hrevoked ▸ hid') with rfl | hid'
        · exact inv.deleted i id' hdelete
        · exact inv.revoked id' hid'

theorem step (inv : KeysInv keyName s) {allow : Bool} {a : KeysOp μ} {s' : KeyServer μ}
    (hstep : KeyServer.step allow s a = some s') : ∃ keyName', KeysInv keyName' s' := by
  cases a with
  | addKey name key now =>
      simp only [KeyServer.step] at hstep
      split at hstep
      · rename_i table hadd
        obtain rfl := Option.some.inj hstep
        exact inv.addKey hadd
      · obtain rfl := Option.some.inj hstep
        exact ⟨keyName, inv⟩
  | removeKey name =>
      obtain rfl := Option.some.inj hstep
      exact ⟨keyName, inv.deleteRows _⟩
  | upgrade i request =>
      simp only [KeyServer.step] at hstep
      split at hstep
      · obtain rfl := Option.some.inj hstep
        exact ⟨keyName, inv.setConn_of_none i fun c hc => by cases hc; rfl⟩
      · cases hstep
  | turn i ok now =>
      obtain ⟨conn, hconn, hturn⟩ := Option.bind_eq_some_iff.1 hstep
      exact ⟨keyName, inv.connTurn hconn hturn⟩
  | drop i =>
      simp only [KeyServer.step] at hstep
      split at hstep
      · obtain rfl := Option.some.inj hstep
        exact ⟨keyName, inv.setConn_of_none i fun c hc => by cases hc⟩
      · cases hstep
  | delete i id =>
      simp only [KeyServer.step] at hstep
      split at hstep
      · obtain rfl := Option.some.inj hstep
        exact ⟨keyName, inv.setDelete i (fun id' h => by cases h) (fun id' h => by cases h)⟩
      · cases hstep
  | deleteTurn i ok =>
      obtain ⟨delete, hdelete, hnext⟩ := Option.bind_eq_some_iff.1 hstep
      exact ⟨keyName, inv.nextDelete hdelete hnext⟩
  | dropDelete i =>
      obtain rfl := Option.some.inj hstep
      exact ⟨keyName, inv.setDelete i (fun id' h => by cases h) (fun id' h => by cases h)⟩
  | other op =>
      simp only [KeyServer.step] at hstep
      split at hstep
      · rename_i hother
        obtain ⟨agents, hagents, rfl⟩ := Option.map_eq_some_iff.1 hstep
        have hregister : ∀ handshake key, op ≠ .register handshake key := by
          rintro handshake key rfl
          cases hother
        have hrevoke : ∀ keyId, op ≠ .revokeKey keyId := by
          rintro keyId rfl
          cases hother
        have hauth : Authenticated keyName op := by
          cases op with
          | register handshake key => exact absurd rfl (hregister handshake key)
          | _ => trivial
        exact ⟨keyName, inv.shrink (AgentsState.shrinks_of_step hregister hrevoke hagents) hauth hagents⟩
      · cases hstep
  | restart =>
      obtain rfl := Option.some.inj hstep
      refine ⟨keyName, .new keyName, inv.rows, fun i c k hi => ?_, fun i h k hi => ?_, fun name e k he => ?_,
        fun id hid => ?_, fun i id hi => ?_, fun i id hi => ?_⟩
      · cases hi
      · cases hi
      · cases he
      · cases hid
      · cases hi
      · cases hi

end KeysInv

/-! ## Deletions -/

/-- A deletion is answered when it has revoked its key. -/
theorem KeyServer.answered_cases {s s' : KeyServer μ} {allow : Bool} {a : KeysOp μ}
    (hstep : KeyServer.step allow s a = some s') :
    s'.answered = s.answered ∨ ∃ i id agents, s.deletes i = some (.deleted id) ∧
      s.agents.step (.revokeKey id) = some agents ∧
      s' = KeyServer.setDelete { s with agents, answered := id :: s.answered } i none := by
  cases a with
  | deleteTurn i ok =>
      obtain ⟨delete, hdelete, hnext⟩ := Option.bind_eq_some_iff.1 hstep
      cases delete with
      | arrived id =>
          simp only [nextDelete] at hnext
          split at hnext <;> obtain rfl := Option.some.inj hnext <;> exact .inl rfl
      | selected id =>
          simp only [nextDelete] at hnext
          split at hnext <;> obtain rfl := Option.some.inj hnext <;> exact .inl rfl
      | deleted id =>
          simp only [nextDelete] at hnext
          obtain ⟨agents, hagents, rfl⟩ := Option.map_eq_some_iff.1 hnext
          exact .inr ⟨i, id, agents, hdelete, hagents, rfl⟩
  | turn i ok now =>
      obtain ⟨conn, -, hturn⟩ := Option.bind_eq_some_iff.1 hstep
      left
      cases conn with
      | arrived request =>
          obtain rfl := Option.some.inj hturn
          unfold authenticate
          split
          · split
            · split <;> rfl
            · rfl
          · split <;> rfl
      | verified request key =>
          simp only [connTurn] at hturn
          split at hturn <;> obtain rfl := Option.some.inj hturn <;> simp only [setConn] <;> split <;> rfl
      | greeting handshake key =>
          simp only [connTurn] at hturn
          split at hturn
          · obtain ⟨agents, -, rfl⟩ := Option.map_eq_some_iff.1 hturn
            rfl
          · obtain rfl := Option.some.inj hturn
            rfl
      | running entry =>
          obtain rfl := Option.some.inj hturn
          rfl
      | ending entry =>
          obtain ⟨agents, -, rfl⟩ := Option.map_eq_some_iff.1 hturn
          rfl
      | removed entry =>
          simp only [connTurn] at hturn
          split at hturn
          · obtain rfl := Option.some.inj hturn
            simp only [setConn]
            split <;> rfl
          · obtain rfl := Option.some.inj hturn
            rfl
  | addKey name key now =>
      simp only [step] at hstep
      split at hstep <;> obtain rfl := Option.some.inj hstep <;> exact .inl rfl
  | removeKey name =>
      obtain rfl := Option.some.inj hstep
      exact .inl rfl
  | upgrade i request =>
      simp only [step] at hstep
      split at hstep
      · obtain rfl := Option.some.inj hstep
        exact .inl rfl
      · cases hstep
  | drop i =>
      simp only [step] at hstep
      split at hstep
      · obtain rfl := Option.some.inj hstep
        exact .inl rfl
      · cases hstep
  | delete i id =>
      simp only [step] at hstep
      split at hstep
      · obtain rfl := Option.some.inj hstep
        exact .inl rfl
      · cases hstep
  | dropDelete i =>
      obtain rfl := Option.some.inj hstep
      exact .inl rfl
  | other op =>
      simp only [step] at hstep
      split at hstep
      · obtain ⟨agents, -, rfl⟩ := Option.map_eq_some_iff.1 hstep
        exact .inl rfl
      · cases hstep
  | restart =>
      obtain rfl := Option.some.inj hstep
      exact .inl rfl

/-- A key whose deletion was answered is closed, and its agents are being disconnected. -/
def KeyServer.Answered (s : KeyServer μ) (id : ℤ) : Prop :=
  s.Closed id ∧ ∀ name e, s.agents.registry.agents.lookup name = some e → e.usesKey id →
    e.generation ∈ s.agents.registry.shutdown

theorem KeyServer.Answered.step {s s' : KeyServer μ} {id : ℤ} (h : s.Answered id) {allow : Bool} {a : KeysOp μ}
    (hstep : KeyServer.step allow s a = some s') : s'.Answered id := by
  obtain ⟨hclosed, hnew⟩ := h.1.step hstep
  refine ⟨hclosed, fun name e he huses => ?_⟩
  obtain ⟨hold, hmono⟩ := hnew.entries name e he huses
  exact hmono (h.2 name e hold huses)

/-- What keys give, in any state. -/
structure KeysLaw (s : KeyServer μ) : Prop where
  /-- An agent with a key is connected under the name of the key, which is the one of its row while it has one. -/
  named : ∀ name e key, s.agents.registry.agents.lookup name = some e → e.key = some key →
    key.name = name ∧ ∀ row ∈ s.table.rows, row.id = key.id → row.name = name
  /-- A key is used by one agent. -/
  one_per_key : ∀ name name' e e' keyId, s.agents.registry.agents.lookup name = some e →
    s.agents.registry.agents.lookup name' = some e' → e.usesKey keyId → e'.usesKey keyId → e = e'
  /-- No key of the table is revoked. -/
  live : ∀ row ∈ s.table.rows, row.id ∉ s.agents.registry.revokedKeyIds
  /-- An agent whose key is revoked is being disconnected. -/
  cancelled : ∀ name e keyId, s.agents.registry.agents.lookup name = some e → e.usesKey keyId →
    keyId ∈ s.agents.registry.revokedKeyIds → e.generation ∈ s.agents.registry.shutdown
  /-- With a key of the table its agent can register, unless its name is held with another key. -/
  registers : ∀ row ∈ s.table.rows, ∀ handshake outbound, handshake.name = row.name →
    (∀ held, s.agents.registry.agents.lookup row.name = some held → keysDiffer held.key (some row.identity) = false) →
    ∃ e r, s.agents.registry.register handshake (some row.identity) outbound = (.ok e, r)
  /-- A key whose deletion was answered is gone for ever, also after a restart. -/
  answered : ∀ id ∈ s.answered, s.Answered id

/-- In every state of every run keys give what they should, whatever the order of upgrades, registrations, ends of
connections, keys added and removed, dropped handlers and restarts. -/
theorem keys_law {allow : Bool} {table : AgentKeysTable} {as : List (KeysOp μ)} {s : KeyServer μ}
    (h : exec (KeyServer.step allow) (.start μ table) as = some s) : KeysLaw s := by
  have hstart : ∃ keyName, KeysInv keyName (KeyServer.start μ table) := by
    refine ⟨fun id => ((table.getAgentKeyById id).map (·.name)).getD "", .new _, fun row hrow => ?_, fun i c k hi => ?_,
      fun i h k hi => ?_, fun name e k he => ?_, fun id hid => ?_, fun i id hi => ?_, fun i id hi => ?_⟩
    · obtain ⟨row', hrow'⟩ : ∃ row', table.getAgentKeyById row.id = some row' := by
        refine Option.isSome_iff_exists.1 (List.find?_isSome.2 ⟨row, hrow, ?_⟩)
        exact decide_eq_true rfl
      obtain ⟨hmem, hid⟩ := AgentKeysTable.getAgentKeyById_mem hrow'
      rw [hrow', Option.map_some, Option.getD_some, List.inj_on_of_nodup_map table.id_nodup hmem hrow hid]
    · cases hi
    · cases hi
    · cases he
    · cases hid
    · cases hi
    · cases hi
  obtain ⟨⟨keyName, inv⟩, hanswered⟩ :
      (∃ keyName, KeysInv keyName s) ∧ ∀ id ∈ s.answered, s.Answered id := by
    refine invariant (P := fun t => (∃ keyName, KeysInv keyName t) ∧ ∀ id ∈ t.answered, t.Answered id) ?_
      ⟨hstart, fun id hid => by cases hid⟩ h
    rintro t a t' ⟨⟨keyName, inv⟩, hanswered⟩ hstep
    obtain ⟨keyName', inv'⟩ := inv.step hstep
    refine ⟨⟨keyName', inv'⟩, fun id hid => ?_⟩
    rcases KeyServer.answered_cases hstep with hsame | ⟨i, id', agents, hdelete, hagents, rfl⟩
    · exact (hanswered id (hsame ▸ hid)).step hstep
    · rcases List.mem_cons.1 hid with rfl | hid
      · have hmem : id ∈ agents.registry.revokedKeyIds := by
          rw [(AgentsState.revokeKey_cases hagents).2.1]
          exact Finset.mem_insert_self _ _
        exact ⟨⟨(inv'.revoked id hmem).1, (inv'.revoked id hmem).2, .inl hmem⟩,
          fun name e he huses => inv'.keys.revoked name e id he huses hmem⟩
      · exact (hanswered id hid).step hstep
  refine ⟨fun name e key he hkey => ?_, fun name name' e e' keyId he he' huses huses' => ?_, fun row hrow hmem => ?_,
    fun name e keyId he huses hmem => ?_, fun row hrow handshake outbound hname hheld => ?_, hanswered⟩
  · obtain ⟨hname, -⟩ := inv.entries name e key he hkey
    refine ⟨hname, fun row hrow hid => ?_⟩
    rw [← inv.rows row hrow, hid]
    exact inv.keys.keyed name e key.id he (AgentEntry.usesKey_iff.2 ⟨key, hkey, rfl⟩)
  · have hname : name = name' :=
      (inv.keys.keyed name e keyId he huses).symm.trans (inv.keys.keyed name' e' keyId he' huses')
    subst hname
    exact Option.some.inj (he.symm.trans he')
  · exact (inv.revoked row.id hmem).2 row hrow rfl
  · exact inv.keys.revoked name e keyId he huses hmem
  · refine AgentRegistry.register_of_free outbound ?_ fun held hlookup => hheld held (hname ▸ hlookup)
    exact fun hmem => (inv.revoked row.id hmem).2 row hrow rfl

/-- No keys yet. -/
def noKeys : AgentKeysTable where
  rows := []
  sequence := 0
  id_nodup := by decide
  name_nodup := by decide
  key_nodup := by decide
  le_sequence := by decide

def sensorUpgrade : UpgradeRequest := ⟨some "eba_key", true, .handshake ⟨"sensor", "host", "1", ["pcap"]⟩⟩

/-- A sensor connects with a new key, and the key is deleted while the sensor tries to connect once more. -/
def deletedKey : List (KeysOp ℕ) :=
  [.addKey " sensor" "eba_key" 1700000000, .upgrade 0 sensorUpgrade, .turn 0 true 1700000001, .turn 0 true 1700000001,
    .turn 0 true 1700000001, .upgrade 1 sensorUpgrade, .turn 1 true 1700000002, .turn 1 true 1700000002, .delete 0 1,
    .deleteTurn 0 true, .deleteTurn 0 true, .deleteTurn 0 true, .turn 1 true 1700000003]

theorem keys_law_deletedKey :
    ∃ s, exec (KeyServer.step false) (.start ℕ noKeys) deletedKey = some s ∧ s.answered = [1] ∧ KeysLaw s := by
  have hanswered : (exec (KeyServer.step false) (.start ℕ noKeys) deletedKey).map (·.answered) = some [1] := by
    decide +kernel
  obtain ⟨s, hs, hanswered⟩ := Option.map_eq_some_iff.1 hanswered
  exact ⟨s, hs, hanswered, keys_law hs⟩

/-- The keys after one has been removed. -/
def removedKey : AgentKeysTable := { noKeys with sequence := 1, le_sequence := by decide }

theorem removed_key_registers_no_more_upgrade :
    ∃ s, exec (KeyServer.step false) (.start ℕ removedKey) [.upgrade 0 sensorUpgrade, .turn 0 true 1700000000] = some s ∧
      s.Closed 1 ∧ KeyServer.NoNew 1 (.start ℕ removedKey) s := by
  have hrun : (exec (KeyServer.step false) (.start ℕ removedKey)
      [.upgrade 0 sensorUpgrade, .turn 0 true 1700000000]).isSome = true := by
    decide +kernel
  obtain ⟨s, hs⟩ := Option.isSome_iff_exists.1 hrun
  refine ⟨s, hs, KeyServer.removed_key_registers_no_more ⟨by decide, by decide, .inr fun i conn key hi => ?_⟩ hs⟩
  cases hi

end EveBox.Server
