import EveBox.Server.Agents

/-!
# What the agent registry keeps

`TableInv` ties names, generations and shutdown tokens together, `KeyInv` the keys and the revoked ones;
every operation keeps them, and `agents_law` reads the registry's promises off them.
-/

namespace EveBox.Server

open Rust Transition

variable {μ : Type*}

/-! ## What each operation does -/

/-- What a successful `register` does. -/
structure Registered (r : AgentRegistry μ) (handshake : AgentHandshake)
    (key : Option AgentKeyIdentity) (outbound : ℕ) (e : AgentEntry) (r' : AgentRegistry μ) : Prop where
  not_revoked : ∀ k, key = some k → k.id ∉ r.revokedKeyIds
  same_key : ∀ p, r.agents.lookup handshake.name = some p → keysDiffer p.key key = false
  name : e.name = handshake.name
  generation : e.generation = r.nextGeneration
  key : e.key = key
  outbound : e.outbound = outbound
  lane : (e.pcapBusy, r'.semaphores) = r.lane (r.agents.lookup handshake.name)
  agents : r'.agents = r.agents.insert handshake.name e
  nextGeneration : r'.nextGeneration = r.nextGeneration + 1
  revokedKeyIds : r'.revokedKeyIds = r.revokedKeyIds
  shutdown_mono : r.shutdown ⊆ r'.shutdown
  replaced : ∀ p, r.agents.lookup handshake.name = some p → p.generation ∈ r'.shutdown
  channels : r'.channels = r.channels

theorem AgentRegistry.register_ok {r r' : AgentRegistry μ} {handshake : AgentHandshake}
    {key : Option AgentKeyIdentity} {outbound : ℕ} {e : AgentEntry}
    (h : r.register handshake key outbound = (.ok e, r')) :
    Registered r handshake key outbound e r' := by
  unfold register at h
  simp only at h
  split at h
  · cases h
  · rename_i hrevoked
    split at h
    · cases h
    · rename_i hdiffer
      simp only [Prod.mk.injEq, Except.ok.injEq] at h
      obtain ⟨rfl, rfl⟩ := h
      refine ⟨?_, ?_, rfl, rfl, rfl, rfl, rfl, rfl, rfl, rfl, ?_, ?_, rfl⟩
      · intro k hk hmem
        exact hrevoked (by simp [hk, hmem])
      · intro p hp
        simpa [hp] using hdiffer
      · cases r.agents.lookup handshake.name with
        | none => exact Finset.Subset.refl _
        | some p => exact Finset.subset_insert _ _
      · intro p hp
        simp [hp]

theorem AgentRegistry.register_error {r r' : AgentRegistry μ} {handshake : AgentHandshake}
    {key : Option AgentKeyIdentity} {outbound : ℕ} {err : RegistrationRefused}
    (h : r.register handshake key outbound = (.error err, r')) : r' = r := by
  unfold register at h
  simp only at h
  split at h
  · cases h
    rfl
  · split at h
    · cases h
      rfl
    · cases h

/-- A revoked key is refused. -/
theorem AgentRegistry.register_of_revoked {r : AgentRegistry μ} (handshake : AgentHandshake)
    {key : AgentKeyIdentity} (outbound : ℕ) (h : key.id ∈ r.revokedKeyIds) :
    r.register handshake (some key) outbound = (.error .revokedKey, r) := by
  unfold register
  simp [h]

/-- A name held under another key is refused. -/
theorem AgentRegistry.register_of_other_key {r : AgentRegistry μ} {handshake : AgentHandshake}
    {key : AgentKeyIdentity} (outbound : ℕ) {held : AgentEntry} {heldKey : AgentKeyIdentity}
    (hheld : r.agents.lookup handshake.name = some held) (hkey : held.key = some heldKey)
    (hne : heldKey.id ≠ key.id) :
    ∃ err, r.register handshake (some key) outbound = (.error err, r) := by
  unfold register
  by_cases hrevoked : key.id ∈ r.revokedKeyIds
  · exact ⟨.revokedKey, by simp [hrevoked]⟩
  · exact ⟨.nameHeldByOtherKey, by simp [hrevoked, hheld, hkey, keysDiffer, hne]⟩

/-- `remove` of a generation that is not the current one does nothing. -/
theorem AgentRegistry.remove_of_stale {r : AgentRegistry μ} {connection : AgentConnectionId}
    (h : ∀ e, r.agents.lookup connection.name = some e → e.generation ≠ connection.generation) :
    r.remove connection = (false, r) := by
  unfold remove
  cases hlookup : r.agents.lookup connection.name with
  | none => simp
  | some e => simp [h e hlookup]

theorem AgentRegistry.remove_true {r r' : AgentRegistry μ} {connection : AgentConnectionId}
    (h : r.remove connection = (true, r')) :
    (∃ e, r.agents.lookup connection.name = some e ∧ e.generation = connection.generation) ∧
      r' = { r with agents := r.agents.erase connection.name } := by
  unfold remove at h
  simp only at h
  split at h
  · rename_i hcurrent
    cases h
    refine ⟨?_, rfl⟩
    cases hlookup : r.agents.lookup connection.name with
    | none => simp [hlookup] at hcurrent
    | some e => exact ⟨e, rfl, by simpa [hlookup] using hcurrent⟩
  · cases h

theorem AgentRegistry.remove_false {r r' : AgentRegistry μ} {connection : AgentConnectionId}
    (h : r.remove connection = (false, r')) : r' = r := by
  unfold remove at h
  simp only at h
  split at h
  · cases h
  · cases h
    rfl

/-- `revoke_key` touches the revoked keys and the shutdown tokens only. -/
theorem AgentRegistry.revokeKey_agents (r : AgentRegistry μ) (keyId : ℤ) :
    (r.revokeKey keyId).2.agents = r.agents ∧
      (r.revokeKey keyId).2.nextGeneration = r.nextGeneration ∧
      (r.revokeKey keyId).2.revokedKeyIds = insert keyId r.revokedKeyIds ∧
      r.shutdown ⊆ (r.revokeKey keyId).2.shutdown := by
  unfold revokeKey
  simp only
  split
  · exact ⟨rfl, rfl, rfl, Finset.subset_insert _ _⟩
  · exact ⟨rfl, rfl, rfl, Finset.Subset.refl _⟩

/-- `revoke_key` cancels an entry with that key, if there is one. -/
theorem AgentRegistry.revokeKey_shutdown {r : AgentRegistry μ} {keyId : ℤ} {name : String}
    {e : AgentEntry} (he : r.agents.lookup name = some e) (hkey : e.usesKey keyId = true) :
    ∃ name' e', r.agents.lookup name' = some e' ∧ e'.usesKey keyId = true ∧
      e'.generation ∈ (r.revokeKey keyId).2.shutdown := by
  have hmem : e ∈ r.agents.entries.map Sigma.snd :=
    List.mem_map.mpr ⟨⟨name, e⟩, AList.mem_lookup_iff.mp he, rfl⟩
  unfold revokeKey
  simp only
  cases hfind : (r.agents.entries.map Sigma.snd).find? (·.usesKey keyId) with
  | none => exact absurd hkey (List.find?_eq_none.mp hfind e hmem)
  | some e' =>
      obtain ⟨⟨name', e''⟩, hentry, rfl⟩ := List.mem_map.mp (List.mem_of_find?_eq_some hfind)
      have hkey' := List.find?_some hfind
      exact ⟨name', e'', AList.mem_lookup_iff.mpr hentry, hkey', Finset.mem_insert_self _ _⟩

/-- A message that `try_send_current` accepts goes to the channel of the entry itself, which holds the
name under the same generation. -/
theorem AgentRegistry.trySendCurrent_ok {r r' : AgentRegistry μ} {entry : AgentEntry} {message : μ}
    (h : r.trySendCurrent entry message = (.ok (), r')) :
    (∃ e, r.agents.lookup entry.name = some e ∧ e.generation = entry.generation) ∧
      ∃ c, r.channels[entry.outbound]? = some c ∧
        r' = { r with channels := r.channels.set entry.outbound (c.push message) } := by
  unfold trySendCurrent at h
  split at h
  · rename_i hcurrent
    refine ⟨?_, ?_⟩
    · cases hlookup : r.agents.lookup entry.name with
      | none => simp [hlookup] at hcurrent
      | some e => exact ⟨e, rfl, by simpa [hlookup] using hcurrent⟩
    · unfold trySend at h
      split at h
      · cases h
      · rename_i c hc
        split at h
        rename_i result c' hsend
        cases h
        obtain ⟨-, rfl⟩ := Channel.trySend_ok hsend
        exact ⟨c, hc, rfl⟩
  · cases h

/-- `try_send` changes nothing but channels. -/
theorem AgentRegistry.trySend_channels (r : AgentRegistry μ) (entry : AgentEntry) (message : μ) :
    ∃ channels, (r.trySend entry message).2 = { r with channels := channels } := by
  unfold trySend
  split
  · exact ⟨_, rfl⟩
  · split
    exact ⟨_, rfl⟩

/-- `try_send_current` changes nothing but channels. -/
theorem AgentRegistry.trySendCurrent_channels (r : AgentRegistry μ) (entry : AgentEntry)
    (message : μ) :
    ∃ channels, (r.trySendCurrent entry message).2 = { r with channels := channels } := by
  unfold trySendCurrent
  split
  · exact r.trySend_channels entry message
  · exact ⟨_, rfl⟩

/-! ## The table -/

/-- Two states whose tables, tokens and handed-out entries agree. -/
structure SameTable (s s' : AgentsState μ) : Prop where
  agents : s'.registry.agents = s.registry.agents
  nextGeneration : s'.registry.nextGeneration = s.registry.nextGeneration
  revokedKeyIds : s'.registry.revokedKeyIds = s.registry.revokedKeyIds
  shutdown : s'.registry.shutdown = s.registry.shutdown
  handed : s'.handed = s.handed
  removed : s'.removed = s.removed

/-- What a step does to the table: it is a registration, a removal of a current generation, a
revocation, or none of these. -/
theorem AgentsState.step_cases {s s' : AgentsState μ} {a : AgentsOp μ} (h : s.step a = some s') :
    (∃ handshake key outbound r e, a = .register handshake key ∧
        Registered r handshake key outbound e s'.registry ∧ r.agents = s.registry.agents ∧
        r.nextGeneration = s.registry.nextGeneration ∧
        r.revokedKeyIds = s.registry.revokedKeyIds ∧ r.shutdown = s.registry.shutdown ∧
        s'.handed = s.handed ++ [e] ∧ s'.removed = s.removed) ∨
      (∃ connection e, a = .remove connection ∧
        s.registry.agents.lookup connection.name = some e ∧ e.generation = connection.generation ∧
        s' = { s with
          registry := { s.registry with agents := s.registry.agents.erase connection.name }
          removed := connection.generation :: s.removed }) ∨
      (∃ keyId, a = .revokeKey keyId ∧
        s' = { s with registry := (s.registry.revokeKey keyId).2 }) ∨
      (∀ keyId, a ≠ .revokeKey keyId) ∧ SameTable s s' := by
  cases a with
  | register handshake key =>
      simp only [step] at h
      split at h
      · rename_i e r hregister
        cases h
        exact Or.inl ⟨handshake, key, _, _, e, rfl, AgentRegistry.register_ok hregister, rfl, rfl,
          rfl, rfl, rfl, rfl⟩
      · rename_i err r hregister
        cases h
        rw [AgentRegistry.register_error hregister]
        exact Or.inr (Or.inr (Or.inr ⟨nofun, rfl, rfl, rfl, rfl, rfl, rfl⟩))
  | remove connection =>
      simp only [step] at h
      split at h
      · rename_i r hremove
        cases h
        obtain ⟨⟨e, he, hgen⟩, rfl⟩ := AgentRegistry.remove_true hremove
        exact Or.inr (Or.inl ⟨connection, e, rfl, he, hgen, rfl⟩)
      · rename_i r hremove
        cases h
        rw [AgentRegistry.remove_false hremove]
        exact Or.inr (Or.inr (Or.inr ⟨nofun, rfl, rfl, rfl, rfl, rfl, rfl⟩))
  | revokeKey keyId =>
      cases h
      exact Or.inr (Or.inr (Or.inl ⟨keyId, rfl, rfl⟩))
  | trySendCurrent i message =>
      refine Or.inr (Or.inr (Or.inr ⟨nofun, ?_⟩))
      simp only [step, Option.map_eq_some_iff] at h
      obtain ⟨entry, -, rfl⟩ := h
      obtain ⟨channels, hsend⟩ := s.registry.trySendCurrent_channels entry message
      rw [hsend]
      exact ⟨rfl, rfl, rfl, rfl, rfl, rfl⟩
  | receive i =>
      cases h
      exact Or.inr (Or.inr (Or.inr ⟨nofun, rfl, rfl, rfl, rfl, rfl, rfl⟩))
  | close i =>
      cases h
      exact Or.inr (Or.inr (Or.inr ⟨nofun, rfl, rfl, rfl, rfl, rfl, rfl⟩))
  | resolve name =>
      refine Or.inr (Or.inr (Or.inr ⟨nofun, ?_⟩))
      simp only [step] at h
      split at h <;> cases h <;> exact ⟨rfl, rfl, rfl, rfl, rfl, rfl⟩
  | tryAcquire i =>
      refine Or.inr (Or.inr (Or.inr ⟨nofun, ?_⟩))
      simp only [step, Option.map_eq_some_iff] at h
      obtain ⟨entry, -, rfl⟩ := h
      split
      · rename_i r hacquire
        unfold AgentRegistry.tryAcquire at hacquire
        split at hacquire
        · cases hacquire
          exact ⟨rfl, rfl, rfl, rfl, rfl, rfl⟩
        · cases hacquire
      · exact ⟨rfl, rfl, rfl, rfl, rfl, rfl⟩
  | release i =>
      refine Or.inr (Or.inr (Or.inr ⟨nofun, ?_⟩))
      simp only [step, Option.map_eq_some_iff] at h
      obtain ⟨entry, -, rfl⟩ := h
      exact ⟨rfl, rfl, rfl, rfl, rfl, rfl⟩

/-- What the handshake guarantees of a registration: a key is presented for its own name, and a key id
stands for one name for ever. -/
def Authenticated (keyName : ℤ → String) : AgentsOp μ → Prop
  | .register handshake (some key) => key.name = handshake.name ∧ keyName key.id = key.name
  | _ => True

/-- The invariant of the table. -/
structure TableInv (s : AgentsState μ) : Prop where
  names : ∀ (name : String) (e : AgentEntry), s.registry.agents.lookup name = some e → e.name = name
  bound : ∀ e ∈ s.handed, e.generation < s.registry.nextGeneration
  increasing : s.handed.Pairwise fun e f => e.generation < f.generation
  current : ∀ (name : String) (e : AgentEntry), s.registry.agents.lookup name = some e → e ∈ s.handed
  gone : ∀ e ∈ s.handed, s.registry.agents.lookup e.name = some e ∨
    e.generation ∈ s.registry.shutdown ∨ e.generation ∈ s.removed

/-- The invariant of the keys: a key id is used under one name only, and a revoked key by no entry that
is still running. -/
structure KeyInv (keyName : ℤ → String) (s : AgentsState μ) : Prop where
  keyed : ∀ (name : String) (e : AgentEntry) (keyId : ℤ),
    s.registry.agents.lookup name = some e → e.usesKey keyId → keyName keyId = name
  revoked : ∀ (name : String) (e : AgentEntry) (keyId : ℤ),
    s.registry.agents.lookup name = some e → e.usesKey keyId →
      keyId ∈ s.registry.revokedKeyIds → e.generation ∈ s.registry.shutdown

theorem TableInv.new : TableInv (AgentsState.new μ) := by
  constructor <;> simp [AgentsState.new, AgentRegistry.new]

theorem KeyInv.new (keyName : ℤ → String) : KeyInv keyName (AgentsState.new μ) := by
  constructor <;> simp [AgentsState.new, AgentRegistry.new]

/-- The table after an insertion. -/
theorem lookup_insert_cases {agents : AList fun _ : String => AgentEntry} {n name : String}
    {e f : AgentEntry} (h : (agents.insert n e).lookup name = some f) :
    (name = n ∧ f = e) ∨ (name ≠ n ∧ agents.lookup name = some f) := by
  by_cases hname : name = n
  · subst hname
    rw [AList.lookup_insert, Option.some.injEq] at h
    exact Or.inl ⟨rfl, h.symm⟩
  · rw [AList.lookup_insert_ne hname] at h
    exact Or.inr ⟨hname, h⟩

/-- The table after a removal. -/
theorem lookup_erase_cases {agents : AList fun _ : String => AgentEntry} {n name : String}
    {f : AgentEntry} (h : (agents.erase n).lookup name = some f) :
    name ≠ n ∧ agents.lookup name = some f := by
  by_cases hname : name = n
  · subst hname
    rw [AList.lookup_erase] at h
    cases h
  · rw [AList.lookup_erase_ne hname] at h
    exact ⟨hname, h⟩

/-- Every operation keeps the table's invariant. -/
theorem TableInv.step {s s' : AgentsState μ} (inv : TableInv s) {a : AgentsOp μ}
    (h : s.step a = some s') : TableInv s' := by
  obtain ⟨handshake, key, outbound, r, e, -, reg, hagents, hnext, -, hshutdown, hhanded,
      hremoved⟩ | ⟨connection, e, -, he, hgen, rfl⟩ | ⟨keyId, -, rfl⟩ | ⟨-, hsame⟩ :=
    AgentsState.step_cases h
  · have htable : s'.registry.agents = s.registry.agents.insert handshake.name e := by
      rw [reg.agents, hagents]
    have hmono : s.registry.shutdown ⊆ s'.registry.shutdown := hshutdown ▸ reg.shutdown_mono
    have hgen : e.generation = s.registry.nextGeneration := reg.generation.trans hnext
    constructor
    · intro name f hf
      rw [htable] at hf
      rcases lookup_insert_cases hf with ⟨rfl, rfl⟩ | ⟨-, hf⟩
      · exact reg.name
      · exact inv.names name f hf
    · intro f hf
      rw [hhanded, List.mem_append, List.mem_singleton] at hf
      rw [reg.nextGeneration, hnext]
      rcases hf with hf | rfl
      · exact Nat.lt_succ_of_lt (inv.bound f hf)
      · omega
    · rw [hhanded, List.pairwise_append]
      refine ⟨inv.increasing, List.pairwise_singleton _ _, ?_⟩
      intro f hf g hg
      obtain rfl := List.mem_singleton.mp hg
      rw [hgen]
      exact inv.bound f hf
    · intro name f hf
      rw [htable] at hf
      rw [hhanded, List.mem_append, List.mem_singleton]
      rcases lookup_insert_cases hf with ⟨-, rfl⟩ | ⟨-, hf⟩
      · exact Or.inr rfl
      · exact Or.inl (inv.current name f hf)
    · -- the only entry that leaves the table is the one replaced, and its token is cancelled
      intro f hf
      rw [htable, hremoved]
      rw [hhanded, List.mem_append, List.mem_singleton] at hf
      rcases hf with hf | rfl
      · rcases inv.gone f hf with hcur | hdown | hrem
        · by_cases hname : f.name = handshake.name
          · refine Or.inr (Or.inl (reg.replaced f ?_))
            rw [hagents, ← hname]
            exact hcur
          · exact Or.inl (by rw [AList.lookup_insert_ne hname]; exact hcur)
        · exact Or.inr (Or.inl (hmono hdown))
        · exact Or.inr (Or.inr hrem)
      · exact Or.inl (by rw [reg.name, AList.lookup_insert])
  · refine ⟨fun name f hf => inv.names name f (lookup_erase_cases hf).2, inv.bound, inv.increasing,
      fun name f hf => inv.current name f (lookup_erase_cases hf).2, ?_⟩
    intro f hf
    rcases inv.gone f hf with hcur | hdown | hrem
    · by_cases hname : f.name = connection.name
      · refine Or.inr (Or.inr ?_)
        obtain rfl : f = e := by
          rw [hname, he] at hcur
          exact (Option.some.inj hcur).symm
        exact hgen ▸ List.mem_cons_self
      · exact Or.inl (by rw [AList.lookup_erase_ne hname]; exact hcur)
    · exact Or.inr (Or.inl hdown)
    · exact Or.inr (Or.inr (List.mem_cons_of_mem _ hrem))
  · obtain ⟨hagents, hnext, -, hmono⟩ := s.registry.revokeKey_agents keyId
    refine ⟨?_, ?_, inv.increasing, ?_, ?_⟩
    · rw [hagents]
      exact inv.names
    · rw [hnext]
      exact inv.bound
    · rw [hagents]
      exact inv.current
    · rw [hagents]
      intro f hf
      exact (inv.gone f hf).imp_right (Or.imp_left fun h => hmono h)
  · constructor
    · rw [hsame.agents]
      exact inv.names
    · rw [hsame.handed, hsame.nextGeneration]
      exact inv.bound
    · rw [hsame.handed]
      exact inv.increasing
    · rw [hsame.agents, hsame.handed]
      exact inv.current
    · rw [hsame.agents, hsame.handed, hsame.shutdown, hsame.removed]
      exact inv.gone

/-- Every operation whose registrations are authenticated keeps the keys' invariant. -/
theorem KeyInv.step {keyName : ℤ → String} {s s' : AgentsState μ} (inv : KeyInv keyName s)
    {a : AgentsOp μ} (hauth : Authenticated keyName a) (h : s.step a = some s') :
    KeyInv keyName s' := by
  obtain ⟨handshake, key, outbound, r, e, rfl, reg, hagents, -, hrevoked, hshutdown, -, -⟩ |
      ⟨connection, e, -, -, -, rfl⟩ | ⟨keyId, -, rfl⟩ | ⟨-, hsame⟩ := AgentsState.step_cases h
  · have htable : s'.registry.agents = s.registry.agents.insert handshake.name e := by
      rw [reg.agents, hagents]
    have hmono : s.registry.shutdown ⊆ s'.registry.shutdown := hshutdown ▸ reg.shutdown_mono
    have hkey : ∀ keyId, e.usesKey keyId → ∃ k, key = some k ∧ k.id = keyId := by
      intro keyId huses
      rw [AgentEntry.usesKey, reg.key] at huses
      cases key with
      | none => simp at huses
      | some k => exact ⟨k, rfl, by simpa using huses⟩
    constructor
    · intro name f keyId hf huses
      rw [htable] at hf
      rcases lookup_insert_cases hf with ⟨rfl, rfl⟩ | ⟨-, hf⟩
      · obtain ⟨k, rfl, rfl⟩ := hkey keyId huses
        exact hauth.2.trans hauth.1
      · exact inv.keyed name f keyId hf huses
    · intro name f keyId hf huses hmem
      rw [htable] at hf
      rw [reg.revokedKeyIds, hrevoked] at hmem
      rcases lookup_insert_cases hf with ⟨rfl, rfl⟩ | ⟨-, hf⟩
      · obtain ⟨k, rfl, rfl⟩ := hkey keyId huses
        exact absurd (hrevoked ▸ hmem) (reg.not_revoked k rfl)
      · exact hmono (inv.revoked name f keyId hf huses hmem)
  · exact ⟨fun name f keyId hf => inv.keyed name f keyId (lookup_erase_cases hf).2,
      fun name f keyId hf => inv.revoked name f keyId (lookup_erase_cases hf).2⟩
  · obtain ⟨hagents, -, hrevoked, hmono⟩ := s.registry.revokeKey_agents keyId
    constructor
    · rw [hagents]
      exact inv.keyed
    · intro name f keyId' hf huses hmem
      rw [hagents] at hf
      rw [hrevoked, Finset.mem_insert] at hmem
      rcases hmem with rfl | hmem
      · -- the entry cancelled is under the same name, since a key id stands for one name
        obtain ⟨name', f', hf', huses', hdown⟩ := AgentRegistry.revokeKey_shutdown hf huses
        have hname : name' = name :=
          (inv.keyed name' f' keyId' hf' huses').symm.trans (inv.keyed name f keyId' hf huses)
        rw [hname, hf, Option.some.injEq] at hf'
        rw [hf']
        exact hdown
      · exact hmono (inv.revoked name f keyId' hf huses hmem)
  · constructor
    · rw [hsame.agents]
      exact inv.keyed
    · rw [hsame.agents, hsame.revokedKeyIds, hsame.shutdown]
      exact inv.revoked

/-! ## What the registry promises -/

/-- No two entries handed out carry the same generation. -/
theorem TableInv.eq_of_generation {s : AgentsState μ} (inv : TableInv s) {e f : AgentEntry} (he : e ∈ s.handed) (hf : f ∈ s.handed)
    (h : e.generation = f.generation) : e = f := by
  have hnodup : (s.handed.map AgentEntry.generation).Nodup :=
    List.pairwise_map.mpr (inv.increasing.imp Nat.ne_of_lt)
  exact List.inj_on_of_nodup_map hnodup he hf h

/-- Revoked keys stay revoked. -/
theorem revokedKeyIds_mono {s s' : AgentsState μ} {as : List (AgentsOp μ)}
    (h : exec AgentsState.step s as = some s') :
    s.registry.revokedKeyIds ⊆ s'.registry.revokedKeyIds := by
  refine related (R := fun s s' : AgentsState μ =>
      s.registry.revokedKeyIds ⊆ s'.registry.revokedKeyIds)
    (fun _ => Finset.Subset.refl _) (fun _ _ _ => Finset.Subset.trans) ?_ h
  intro s a s' h
  obtain ⟨_, _, _, r, _, -, reg, -, -, hrevoked, -⟩ | ⟨_, _, -, -, -, rfl⟩ | ⟨keyId, -, rfl⟩ |
    ⟨-, hsame⟩ := AgentsState.step_cases h
  · rw [reg.revokedKeyIds, hrevoked]
  · exact Finset.Subset.refl _
  · rw [(s.registry.revokeKey_agents keyId).2.2.1]
    exact Finset.subset_insert _ _
  · rw [hsame.revokedKeyIds]

theorem mem_revokedKeyIds {s s' : AgentsState μ} {as : List (AgentsOp μ)} {keyId : ℤ}
    (hmem : .revokeKey keyId ∈ as) (h : exec AgentsState.step s as = some s') :
    keyId ∈ s'.registry.revokedKeyIds := by
  obtain ⟨bs, cs, t, t', -, -, hstep, hcs⟩ := exec_of_mem hmem h
  refine revokedKeyIds_mono hcs ?_
  cases hstep
  rw [(t.registry.revokeKey_agents keyId).2.2.1]
  exact Finset.mem_insert_self _ _

/-- What the registry promises after the operations `as`. -/
structure AgentsLaw (as : List (AgentsOp μ)) (s : AgentsState μ) : Prop where
  /-- There is at most one entry for a name. -/
  one_per_name : ∀ n m e f, s.registry.agents.lookup n = some e →
    s.registry.agents.lookup m = some f → e.name = f.name → e = f
  /-- The generations given out are strictly increasing. -/
  increasing : s.handed.Pairwise fun e f => e.generation < f.generation
  /-- Removing a generation that is not current removes nothing. -/
  stale_remove : ∀ connection e, s.registry.agents.lookup connection.name = some e →
    e.generation ≠ connection.generation → (s.registry.remove connection).2 = s.registry
  /-- An entry that is replaced is cancelled. -/
  replace_cancels : ∀ handshake key outbound e p r', s.registry.agents.lookup handshake.name = some p →
    s.registry.register handshake key outbound = (.ok e, r') → p.generation ∈ r'.shutdown
  /-- An entry that has left the table other than by its own removal stays cancelled. -/
  replaced_cancelled : ∀ e ∈ s.handed, s.registry.agents.lookup e.name = some e ∨
    e.generation ∈ s.registry.shutdown ∨ e.generation ∈ s.removed
  /-- A name held under one key is refused to another. -/
  held_name : ∀ handshake key outbound held heldKey,
    s.registry.agents.lookup handshake.name = some held → held.key = some heldKey →
      heldKey.id ≠ key.id →
        ∃ err, s.registry.register handshake (some key) outbound = (.error err, s.registry)
  /-- No entry of a revoked key is left running. -/
  revoked_cancelled : ∀ keyId, .revokeKey keyId ∈ as → ∀ name e,
    s.registry.agents.lookup name = some e → e.usesKey keyId → e.generation ∈ s.registry.shutdown
  /-- A revoked key registers no more. -/
  revoked_refused : ∀ keyId, .revokeKey keyId ∈ as → ∀ handshake key outbound, key.id = keyId →
    s.registry.register handshake (some key) outbound = (.error .revokedKey, s.registry)
  /-- A message is sent to the entry that was asked for, while it is the current one. -/
  sends_to_current : ∀ e ∈ s.handed, ∀ message r',
    s.registry.trySendCurrent e message = (.ok (), r') →
      s.registry.agents.lookup e.name = some e ∧
        ∃ c, s.registry.channels[e.outbound]? = some c ∧
          r' = { s.registry with channels := s.registry.channels.set e.outbound (c.push message) }

/-- After any operations the registry keeps its promises. -/
theorem agents_law (keyName : ℤ → String) {as : List (AgentsOp μ)} {s : AgentsState μ}
    (hauth : ∀ a ∈ as, Authenticated keyName a)
    (h : exec AgentsState.step (.new μ) as = some s) : AgentsLaw as s := by
  have inv : TableInv s := invariant (fun _ _ _ inv h => inv.step h) .new h
  have keys : KeyInv keyName s :=
    invariant_along (fun _ _ _ keys hauth h => keys.step hauth h) (.new keyName)
      (along_of_forall hauth _) h
  constructor
  · intro n m e f he hf hname
    rw [inv.names n e he, inv.names m f hf] at hname
    rw [hname, hf, Option.some.injEq] at he
    exact he.symm
  · exact inv.increasing
  · intro connection e he hne
    rw [AgentRegistry.remove_of_stale]
    intro f hf
    rw [he, Option.some.injEq] at hf
    exact hf ▸ hne
  · intro handshake key outbound e p r' hp hregister
    exact (AgentRegistry.register_ok hregister).replaced p hp
  · exact inv.gone
  · intro handshake key outbound held heldKey hheld hkey hne
    exact AgentRegistry.register_of_other_key outbound hheld hkey hne
  · intro keyId hmem name e he huses
    exact keys.revoked name e keyId he huses (mem_revokedKeyIds hmem h)
  · rintro keyId hmem handshake key outbound rfl
    exact AgentRegistry.register_of_revoked handshake outbound (mem_revokedKeyIds hmem h)
  · intro e he message r' hsend
    obtain ⟨⟨f, hf, hgen⟩, hchannel⟩ := AgentRegistry.trySendCurrent_ok hsend
    rw [inv.eq_of_generation (inv.current _ f hf) he hgen] at hf
    exact ⟨hf, hchannel⟩

/-- A sensor connects, its key is revoked, and it tries to come back. -/
def revokedReconnect : List (AgentsOp ℕ) :=
  [.register ⟨"sensor", "host", "1", ["pcap"]⟩ (some ⟨7, "sensor"⟩), .revokeKey 7,
    .register ⟨"sensor", "host", "1", ["pcap"]⟩ (some ⟨7, "sensor"⟩)]

theorem agents_law_revokedReconnect :
    ∃ s, exec AgentsState.step (.new ℕ) revokedReconnect = some s ∧ AgentsLaw revokedReconnect s := by
  refine ⟨_, rfl, agents_law (fun _ => "sensor") ?_ rfl⟩
  intro a ha
  simp only [revokedReconnect, List.mem_cons, List.not_mem_nil, or_false] at ha
  rcases ha with rfl | rfl | rfl
  · exact ⟨rfl, rfl⟩
  · trivial
  · exact ⟨rfl, rfl⟩

end EveBox.Server
