import EveBox.Server.AgentsTheorems
import EveBox.Server.Dispatch
import EveBox.Server.TasksTheorems

/-!
# No stranded job

The disconnect of a connection sweeps the table after the connection has left the agent registry. So a
request that was accepted had its job in the table before that sweep began, and the sweep answers it;
a dispatcher that comes later is refused. `DispatchInv` says this of every state, and `dispatch_law` of
every run.
-/

namespace EveBox.Server

open Rust Agent Transition

variable {μ : Type*}

/-! ## What a step leaves of the jobs -/

/-- What no step changes of a job: its token, its connection, and that its result slot is consumed. -/
structure JobKept (j j' : Job) : Prop where
  token : j'.token = j.token
  connection : j'.connection = j.connection
  consumed : j.resultTx = false → j'.resultTx = false

theorem JobKept.refl (j : Job) : JobKept j j := ⟨rfl, rfl, id⟩

theorem Job.step_kept {j j' : Job} {op : JobOp} (h : j.step op = some j') : JobKept j j' := by
  cases op with
  | beginUpload token =>
      obtain rfl := Option.some.inj h
      rcases j.beginUpload_cases token with heq | ⟨-, heq⟩ <;> rw [heq] <;> exact ⟨rfl, rfl, id⟩
  | takeSender i =>
      obtain ⟨-, _, -, rfl | ⟨-, -, rfl⟩⟩ := Job.takeSender_some h <;> exact ⟨rfl, rfl, id⟩
  | publishStreaming =>
      obtain ⟨-, rfl⟩ := Job.publishStreaming_some h
      exact ⟨rfl, rfl, id⟩
  | sinkSend i chunk =>
      obtain ⟨⟨r, j''⟩, hsend, rfl⟩ := Option.map_eq_some_iff.mp h
      obtain ⟨-, -, rfl⟩ | ⟨-, sink, -, -, -, -, rfl⟩ := Job.sinkSend_some hsend <;>
        exact ⟨rfl, rfl, id⟩
  | sinkFinish i how =>
      obtain ⟨sink, -, -, rfl⟩ := Job.sinkFinish_some h
      exact ⟨rfl, rfl, id⟩
  | sinkPublish i =>
      obtain ⟨sink, state, -, -, rfl⟩ := Job.sinkPublish_some h
      exact ⟨rfl, rfl, id⟩
  | deliverResult d =>
      obtain rfl := Option.some.inj h
      rcases j.deliverResult_cases d with heq | ⟨-, heq⟩ <;> rw [heq] <;> exact ⟨rfl, rfl, id⟩
  | acceptResult i =>
      obtain ⟨-, d, -, rfl⟩ := Job.acceptResult_some h
      exact ⟨rfl, rfl, id⟩
  | sendResult i =>
      obtain ⟨d, -, ⟨-, rfl⟩ | ⟨-, rfl⟩⟩ := Job.sendResult_some h
      · exact ⟨rfl, rfl, id⟩
      · exact ⟨rfl, rfl, fun _ => rfl⟩
  | failPending connection =>
      obtain ⟨-, rfl⟩ | ⟨-, -, ⟨-, rfl⟩ | ⟨-, rfl⟩⟩ := Job.failPending_some h
      · exact ⟨rfl, rfl, id⟩
      · exact ⟨rfl, rfl, id⟩
      · exact ⟨rfl, rfl, fun _ => rfl⟩
  | receive =>
      obtain rfl := Option.some.inj h
      exact ⟨rfl, rfl, id⟩
  | close =>
      obtain rfl := Option.some.inj h
      exact ⟨rfl, rfl, id⟩

/-- A disconnect that handles a job of its connection consumes the result slot. -/
theorem Job.failPending_consumed {j j' : Job} {connection : AgentConnectionId}
    (h : j.failPending connection = some j') (hconnection : j.connection = connection) :
    j'.resultTx = false := by
  obtain ⟨hne, -⟩ | ⟨-, -, ⟨htx, rfl⟩ | ⟨-, rfl⟩⟩ := Job.failPending_some h
  · exact absurd hconnection.symm hne
  · exact htx
  · rfl

/-- Every job of `s` is still there in `s'`. -/
def JobsKept (s s' : Registry) : Prop :=
  ∀ (r : ℕ) (j : Job), s.jobs[r]? = some j → ∃ j', s'.jobs[r]? = some j' ∧ JobKept j j'

theorem JobsKept.of_eq {s s' : Registry} (h : s'.jobs = s.jobs) : JobsKept s s' :=
  fun _ j hj => ⟨j, by rw [h]; exact hj, .refl j⟩

theorem Registry.jobStep_some {s s' : Registry} {r : ℕ} {op : JobOp} (h : s.jobStep r op = some s') :
    ∃ j j', s.jobs[r]? = some j ∧ j.step op = some j' ∧ s' = { s with jobs := s.jobs.set r j' } := by
  unfold jobStep at h
  split at h
  · cases h
  · rename_i j hj
    obtain ⟨j', hstep, rfl⟩ := Option.map_eq_some_iff.mp h
    exact ⟨j, j', hj, hstep, rfl⟩

theorem Registry.jobStep_kept {s s' : Registry} {r : ℕ} {op : JobOp} (h : s.jobStep r op = some s') :
    JobsKept s s' ∧ s'.tasks = s.tasks ∧ s'.sweeps = s.sweeps := by
  obtain ⟨j, j', hj, hstep, rfl⟩ := Registry.jobStep_some h
  refine ⟨?_, rfl, rfl⟩
  intro k i hi
  by_cases hk : k = r
  · subst hk
    obtain rfl := Option.some.inj (hj.symm.trans hi)
    have hlt : k < s.jobs.length := (List.getElem?_eq_some_iff.mp hj).1
    exact ⟨j', List.getElem?_set_self hlt, Job.step_kept hstep⟩
  · exact ⟨i, by rw [List.getElem?_set_ne (Ne.symm hk)]; exact hi, .refl i⟩

/-- What a sweep has still to visit, or has answered. -/
def SweepKept (s s' : Registry) : Prop :=
  ∀ (c : AgentConnectionId) (refs' : List ℕ), (c, refs') ∈ s'.sweeps →
    ∃ refs, (c, refs) ∈ s.sweeps ∧ ∀ r ∈ refs, r ∈ refs' ∨
      ∀ j', s'.jobs[r]? = some j' → j'.connection = c → j'.resultTx = false

theorem SweepKept.of_eq {s s' : Registry} (h : s'.sweeps = s.sweeps) : SweepKept s s' :=
  fun _ refs hrefs => ⟨refs, h ▸ hrefs, fun _ hr => Or.inl hr⟩

/-- An upload, a result message or a disconnect under way changes jobs only, and visits jobs one by
one. -/
theorem Registry.step_service {s s' : Registry} {op : RegistryOp} (hop : op.isService = true)
    (h : s.step op = some s') : JobsKept s s' ∧ s'.tasks = s.tasks ∧ SweepKept s s' := by
  have hjob : ∀ {r op}, s.jobStep r op = some s' →
      JobsKept s s' ∧ s'.tasks = s.tasks ∧ SweepKept s s' := fun h =>
    have ⟨hjobs, htasks, hsweeps⟩ := Registry.jobStep_kept h
    ⟨hjobs, htasks, .of_eq hsweeps⟩
  have hcall : ∀ {id op}, s.call id op = some s' →
      JobsKept s s' ∧ s'.tasks = s.tasks ∧ SweepKept s s' := by
    intro id op h
    unfold Registry.call at h
    split at h
    · obtain rfl := Option.some.inj h
      exact ⟨.of_eq rfl, rfl, .of_eq rfl⟩
    · exact hjob h
  cases op with
  | beginUpload id token => exact hcall h
  | result id delivery => exact hcall h
  | job r op =>
      simp only [Registry.step] at h
      split at h
      · cases h
      · exact hjob h
  | sweep i k =>
      simp only [Registry.step] at h
      split at h
      · cases h
      · rename_i c refs hsweep
        split at h
        · cases h
        · rename_i r hr
          obtain ⟨s₁, hstep, rfl⟩ := Option.map_eq_some_iff.mp h
          refine ⟨(Registry.jobStep_kept hstep).1, (Registry.jobStep_kept hstep).2.1, ?_⟩
          obtain ⟨j, j₁, hj, hfail, rfl⟩ := Registry.jobStep_some hstep
          intro c' refs' hmem
          rcases List.mem_or_eq_of_mem_set hmem with hmem | heq
          · exact ⟨refs', hmem, fun _ hr => Or.inl hr⟩
          · cases heq
            refine ⟨refs, List.mem_of_getElem? hsweep, ?_⟩
            intro q hq
            by_cases hqr : q = r
            · -- the job visited
              subst hqr
              refine Or.inr ?_
              intro j' hj' hconnection
              have hlt : q < s.jobs.length := (List.getElem?_eq_some_iff.mp hj).1
              simp only [List.getElem?_set_self hlt, Option.some.injEq] at hj'
              subst hj'
              have hkept : JobKept j j₁ := Job.step_kept hfail
              exact Job.failPending_consumed hfail (hkept.connection.symm.trans hconnection)
            · obtain ⟨n, hn⟩ := List.mem_iff_getElem?.mp hq
              refine Or.inl (List.mem_eraseIdx_iff_getElem?.mpr ⟨n, ?_, hn⟩)
              rintro rfl
              exact hqr (Option.some.inj (hn.symm.trans hr))
  | register _ _ _ _ _ => cases hop
  | remove _ _ => cases hop
  | disconnected _ => cases hop
  | sweepEnd _ => cases hop

/-! ## Connections that have left the table -/

/-- The connection is not the current one of its name, and never will be again. -/
structure Left (s : AgentsState μ) (c : AgentConnectionId) : Prop where
  bound : c.generation < s.registry.nextGeneration
  stale : ∀ e, s.registry.agents.lookup c.name = some e → e.generation ≠ c.generation

theorem Left.step {s s' : AgentsState μ} {c : AgentConnectionId} (left : Left s c) {a : AgentsOp μ}
    (h : s.step a = some s') : Left s' c := by
  obtain ⟨handshake, key, outbound, r, e, -, reg, hagents, hnext, -⟩ | ⟨connection, e, -, -, -, rfl⟩ |
    ⟨keyId, -, rfl⟩ | ⟨-, hsame⟩ := AgentsState.step_cases h
  · constructor
    · rw [reg.nextGeneration, hnext]
      exact Nat.lt_succ_of_lt left.bound
    · intro f hf
      rw [reg.agents, hagents] at hf
      rcases lookup_insert_cases hf with ⟨-, rfl⟩ | ⟨-, hf⟩
      · have hgen : f.generation = s.registry.nextGeneration := reg.generation.trans hnext
        have hbound := left.bound
        omega
      · exact left.stale f hf
  · exact ⟨left.bound, fun f hf => left.stale f (lookup_erase_cases hf).2⟩
  · obtain ⟨hagents, hnext, -⟩ := s.registry.revokeKey_agents keyId
    constructor
    · rw [hnext]
      exact left.bound
    · rw [hagents]
      exact left.stale
  · constructor
    · rw [hsame.nextGeneration]
      exact left.bound
    · rw [hsame.agents]
      exact left.stale

/-- `remove` makes the connection leave. -/
theorem Left.of_remove {s s' : AgentsState μ} (inv : TableInv s) {e : AgentEntry}
    (he : e ∈ s.handed) (h : s.step (.remove e.connectionId) = some s') :
    Left s' e.connectionId := by
  have hbound : e.generation < s.registry.nextGeneration := inv.bound e he
  simp only [AgentsState.step] at h
  split at h
  · rename_i r hremove
    cases h
    obtain ⟨-, rfl⟩ := AgentRegistry.remove_true hremove
    exact ⟨hbound, fun f hf => absurd rfl (lookup_erase_cases hf).1⟩
  · rename_i r hremove
    cases h
    rw [AgentRegistry.remove_false hremove]
    refine ⟨hbound, ?_⟩
    intro f hf hgen
    unfold AgentRegistry.remove at hremove
    simp [hf, hgen] at hremove

/-- A request for a connection that has left is refused. -/
theorem Left.refused {s : AgentsState μ} {e : AgentEntry} (left : Left s e.connectionId) (message : μ) :
    s.registry.trySendCurrent e message = (.error .closed, s.registry) := by
  unfold AgentRegistry.trySendCurrent
  rw [if_neg]
  cases hlookup : s.registry.agents.lookup e.name with
  | none => simp
  | some f =>
      have hstale : f.generation ≠ e.generation := left.stale f hlookup
      simpa using hstale

/-! ## Dispatchers -/

/-- The result slot of job `r` is consumed. -/
def Answered (s : Registry) (r : ℕ) : Prop := ∃ j, s.jobs[r]? = some j ∧ j.resultTx = false

theorem Answered.kept {s s' : Registry} (hkept : JobsKept s s') {r : ℕ} (h : Answered s r) :
    Answered s' r := by
  obtain ⟨j, hj, hconsumed⟩ := h
  obtain ⟨j', hj', kept⟩ := hkept r j hj
  exact ⟨j', hj', kept.consumed hconsumed⟩

/-- The request has been sent, and its dispatcher still waits. -/
def Dispatch.awaits (d : Dispatch) : Prop := d.phase = .dispatched ∧ d.withdrawn = false

/-- The invariant of the two registries together. -/
structure DispatchInv (s : ServerContext μ) : Prop where
  table : TableInv s.agents
  /-- A connection in teardown has left the agent registry. -/
  removing : ∀ c ∈ s.removing, Left s.agents c
  sweeping : ∀ c refs, (c, refs) ∈ s.tasks.sweeps → Left s.agents c
  gone : ∀ c ∈ s.gone, Left s.agents c
  /-- The table of jobs points at jobs. -/
  bound : ∀ id r, s.tasks.tasks.lookup id = some r → r < s.tasks.jobs.length
  /-- A dispatcher's job is bound to its entry's connection. -/
  owns : ∀ d ∈ s.dispatches, ∃ j, s.tasks.jobs[d.job]? = some j ∧
    j.connection = d.entry.connectionId ∧ j.token = d.token
  /-- No two dispatchers share a job. -/
  distinct : (s.dispatches.map Dispatch.job).Nodup
  /-- The job is in the table under the dispatcher's id until the dispatcher withdraws. -/
  listed : ∀ d ∈ s.dispatches, ∀ id,
    s.tasks.tasks.lookup id = some d.job ↔ d.withdrawn = false ∧ id = d.id
  /-- A sweep has the jobs of its connection still to visit, or has answered them. -/
  swept : ∀ d ∈ s.dispatches, d.awaits → ∀ refs, (d.entry.connectionId, refs) ∈ s.tasks.sweeps →
    d.job ∈ refs ∨ Answered s.tasks d.job
  /-- Once a connection is gone, its jobs have been answered. -/
  answered : ∀ d ∈ s.dispatches, d.awaits → d.entry.connectionId ∈ s.gone → Answered s.tasks d.job

theorem DispatchInv.new : DispatchInv (ServerContext.new μ) where
  table := .new
  removing := by simp [ServerContext.new]
  sweeping := by simp [ServerContext.new, Registry.new]
  gone := by simp [ServerContext.new]
  bound := by simp [ServerContext.new, Registry.new]
  owns := by simp [ServerContext.new]
  distinct := by simp [ServerContext.new]
  listed := by simp [ServerContext.new]
  swept := by simp [ServerContext.new]
  answered := by simp [ServerContext.new]

section

variable {s : ServerContext μ}

/-- A step of the agent registry alone. -/
theorem DispatchInv.agents (inv : DispatchInv s) {a : AgentsOp μ} {agents : AgentsState μ}
    (h : s.agents.step a = some agents) : DispatchInv { s with agents } where
  table := inv.table.step h
  removing c hc := (inv.removing c hc).step h
  sweeping c refs hc := (inv.sweeping c refs hc).step h
  gone c hc := (inv.gone c hc).step h
  bound := inv.bound
  owns := inv.owns
  distinct := inv.distinct
  listed := inv.listed
  swept := inv.swept
  answered := inv.answered

/-- A step of uploads, results or sweeps. -/
theorem DispatchInv.service (inv : DispatchInv s) {op : RegistryOp} {tasks : Registry}
    (hop : op.isService = true) (h : s.tasks.step op = some tasks) :
    DispatchInv { s with tasks } := by
  obtain ⟨hjobs, htasks, hsweeps⟩ := Registry.step_service hop h
  constructor
  · exact inv.table
  · exact inv.removing
  · intro c refs' hc
    obtain ⟨refs, hrefs, -⟩ := hsweeps c refs' hc
    exact inv.sweeping c refs hrefs
  · exact inv.gone
  · intro id r hr
    have hlt : r < s.tasks.jobs.length := inv.bound id r (by rw [← htasks]; exact hr)
    obtain ⟨j', hj', -⟩ := hjobs r s.tasks.jobs[r] (List.getElem?_eq_getElem hlt)
    exact (List.getElem?_eq_some_iff.mp hj').1
  · intro d hd
    obtain ⟨j, hj, hconnection, htoken⟩ := inv.owns d hd
    obtain ⟨j', hj', kept⟩ := hjobs d.job j hj
    exact ⟨j', hj', kept.connection.trans hconnection, kept.token.trans htoken⟩
  · exact inv.distinct
  · intro d hd id
    show tasks.tasks.lookup id = some d.job ↔ _
    rw [htasks]
    exact inv.listed d hd id
  · intro d hd hawaits refs' hrefs'
    obtain ⟨refs, hrefs, hvisited⟩ := hsweeps _ refs' hrefs'
    rcases inv.swept d hd hawaits refs hrefs with hmem | hanswered
    · rcases hvisited d.job hmem with hmem | hvisited
      · exact Or.inl hmem
      · obtain ⟨j, hj, hconnection, -⟩ := inv.owns d hd
        obtain ⟨j', hj', kept⟩ := hjobs d.job j hj
        exact Or.inr ⟨j', hj', hvisited j' hj' (kept.connection.trans hconnection)⟩
    · exact Or.inr (hanswered.kept hjobs)
  · intro d hd hawaits hgone
    exact (inv.answered d hd hawaits hgone).kept hjobs

/-- A dispatcher registers its job. -/
theorem DispatchInv.register (inv : DispatchInv s) {entry : AgentEntry} {id token : String}
    {maxBytes : ℕ} {s' : ServerContext μ} (h : s.register entry id token maxBytes = some s') :
    DispatchInv s' := by
  obtain ⟨tasks, htasks, rfl⟩ := Option.map_eq_some_iff.mp h
  simp only [Registry.step] at htasks
  split at htasks
  swap
  · cases htasks
  obtain rfl := Option.some.inj htasks
  unfold Registry.register
  split
  · exact inv
  · rename_i hsweeps hfree
    have hfree : s.tasks.tasks.lookup id = none := by simpa using hfree
    have hjobs : ∀ {r : ℕ} {j j' : Job}, s.tasks.jobs[r]? = some j →
        (s.tasks.jobs ++ [j'])[r]? = some j := by
      intro r j j' hj
      rw [List.getElem?_append_left (List.getElem?_eq_some_iff.mp hj).1]
      exact hj
    have hjob : ∀ d ∈ s.dispatches, d.job < s.tasks.jobs.length := by
      intro d hd
      obtain ⟨j, hj, -⟩ := inv.owns d hd
      exact (List.getElem?_eq_some_iff.mp hj).1
    constructor
    · exact inv.table
    · exact inv.removing
    · exact inv.sweeping
    · exact inv.gone
    · intro i r hr
      rw [List.length_append, List.length_singleton]
      by_cases hi : i = id
      · subst hi
        simp only [AList.lookup_insert, Option.some.injEq] at hr
        omega
      · simp only [AList.lookup_insert_ne hi] at hr
        exact Nat.lt_succ_of_lt (inv.bound i r hr)
    · intro d hd
      rcases List.mem_append.mp hd with hd | hd
      · obtain ⟨j, hj, howns⟩ := inv.owns d hd
        exact ⟨j, hjobs hj, howns⟩
      · obtain rfl := List.mem_singleton.mp hd
        exact ⟨_, List.getElem?_concat_length, rfl, rfl⟩
    · rw [List.map_append, List.map_singleton, List.nodup_append]
      refine ⟨inv.distinct, List.nodup_singleton _, ?_⟩
      intro r hr r' hr'
      obtain ⟨d, hd, rfl⟩ := List.mem_map.mp hr
      rw [List.mem_singleton.mp hr']
      exact Nat.ne_of_lt (hjob d hd)
    · intro d hd i
      show AList.lookup i (s.tasks.tasks.insert id s.tasks.jobs.length) = some d.job ↔ _
      rcases List.mem_append.mp hd with hold | hnew
      · by_cases hi : i = id
        · subst hi
          rw [AList.lookup_insert, ← inv.listed d hold i, hfree, Option.some.injEq]
          exact iff_of_false (Nat.ne_of_gt (hjob d hold)) (by rintro ⟨-, ⟨⟩⟩)
        · rw [AList.lookup_insert_ne hi]
          exact inv.listed d hold i
      · obtain rfl := List.mem_singleton.mp hnew
        by_cases hi : i = id
        · subst hi
          simp
        · rw [AList.lookup_insert_ne hi]
          refine iff_of_false ?_ (fun h => hi h.2)
          intro hr
          exact Nat.lt_irrefl _ (inv.bound i _ hr)
    · intro d hd hawaits refs hrefs
      simp only [hsweeps, List.not_mem_nil] at hrefs
    · intro d hd hawaits hgone
      rcases List.mem_append.mp hd with hd | hd
      · obtain ⟨j, hj, hconsumed⟩ := inv.answered d hd hawaits hgone
        exact ⟨j, hjobs hj, hconsumed⟩
      · obtain rfl := List.mem_singleton.mp hd
        cases hawaits.1

/-- A member of a list with one item replaced: it is the new item, or an old one of another key. -/
theorem mem_set_cases {d d' x : Dispatch} {ds : List Dispatch} {i : ℕ} (hi : ds[i]? = some d)
    (hnodup : (ds.map Dispatch.job).Nodup) (hx : x ∈ ds.set i d') :
    x = d' ∨ x ∈ ds ∧ x.job ≠ d.job := by
  obtain ⟨k, hk⟩ := List.mem_iff_getElem?.mp hx
  have hlt : i < ds.length := (List.getElem?_eq_some_iff.mp hi).1
  by_cases hki : k = i
  · subst hki
    rw [List.getElem?_set_self hlt] at hk
    exact Or.inl (Option.some.inj hk).symm
  · rw [List.getElem?_set_ne (Ne.symm hki)] at hk
    refine Or.inr ⟨List.mem_of_getElem? hk, ?_⟩
    intro heq
    have hmap : (ds.map Dispatch.job)[k]? = (ds.map Dispatch.job)[i]? := by
      rw [List.getElem?_map, List.getElem?_map, hk, hi, Option.map_some, Option.map_some, heq]
    have hklt : k < (ds.map Dispatch.job).length := by
      rw [List.length_map]
      exact (List.getElem?_eq_some_iff.mp hk).1
    exact hki ((List.getElem?_inj hklt hnodup).mp hmap)

theorem map_job_set {d d' : Dispatch} {ds : List Dispatch} {i : ℕ} (hi : ds[i]? = some d)
    (hjob : d'.job = d.job) : (ds.set i d').map Dispatch.job = ds.map Dispatch.job := by
  obtain ⟨hlt, rfl⟩ := List.getElem?_eq_some_iff.mp hi
  have hlt' : i < (ds.map Dispatch.job).length := by rwa [List.length_map]
  rw [List.map_set, hjob, ← List.getElem_map Dispatch.job (h := hlt'), List.set_getElem_self]

/-- The invariant does not look at the outbound channels. -/
theorem DispatchInv.channels (inv : DispatchInv s) (channels : List (Channel μ)) :
    DispatchInv { s with agents := { s.agents with registry := { s.agents.registry with channels } } }
    where
  table := ⟨inv.table.names, inv.table.bound, inv.table.increasing, inv.table.current, inv.table.gone⟩
  removing c hc := ⟨(inv.removing c hc).bound, (inv.removing c hc).stale⟩
  sweeping c refs hc := ⟨(inv.sweeping c refs hc).bound, (inv.sweeping c refs hc).stale⟩
  gone c hc := ⟨(inv.gone c hc).bound, (inv.gone c hc).stale⟩
  bound := inv.bound
  owns := inv.owns
  distinct := inv.distinct
  listed := inv.listed
  swept := inv.swept
  answered := inv.answered

/-- A dispatcher learns whether its request was sent; it was not if the connection has left. -/
theorem DispatchInv.setPhase (inv : DispatchInv s) {i : ℕ} {d : Dispatch} {phase : DispatchPhase}
    (hd : s.dispatches[i]? = some d)
    (hphase : phase = .dispatched → ¬ Left s.agents d.entry.connectionId) :
    DispatchInv { s with dispatches := s.dispatches.set i { d with phase } } := by
  have hmem : d ∈ s.dispatches := List.mem_of_getElem? hd
  constructor
  · exact inv.table
  · exact inv.removing
  · exact inv.sweeping
  · exact inv.gone
  · exact inv.bound
  · intro f hf
    rcases List.mem_or_eq_of_mem_set hf with hf | rfl
    · exact inv.owns f hf
    · exact inv.owns d hmem
  · show (List.map _ (s.dispatches.set i _)).Nodup
    rw [map_job_set hd]
    · exact inv.distinct
    · rfl
  · intro f hf
    rcases List.mem_or_eq_of_mem_set hf with hf | rfl
    · exact inv.listed f hf
    · exact inv.listed d hmem
  · intro f hf hawaits refs hrefs
    rcases List.mem_or_eq_of_mem_set hf with hf | rfl
    · exact inv.swept f hf hawaits refs hrefs
    · exact absurd (inv.sweeping _ refs hrefs) (hphase hawaits.1)
  · intro f hf hawaits hgone
    rcases List.mem_or_eq_of_mem_set hf with hf | rfl
    · exact inv.answered f hf hawaits hgone
    · exact absurd (inv.gone _ hgone) (hphase hawaits.1)

theorem DispatchInv.dispatch (inv : DispatchInv s) {i : ℕ} {d : Dispatch} (message : μ)
    (hd : s.dispatches[i]? = some d) : DispatchInv (s.dispatch i d message) := by
  obtain ⟨channels, hchannels⟩ := s.agents.registry.trySendCurrent_channels d.entry message
  unfold ServerContext.dispatch
  split
  · rename_i registry hsend
    rw [hsend] at hchannels
    subst hchannels
    refine (inv.channels channels).setPhase hd ?_
    intro _ left
    -- the entry was the current one of its name
    obtain ⟨⟨e, he, hgen⟩, -⟩ := AgentRegistry.trySendCurrent_ok hsend
    exact left.stale e he hgen
  · rename_i err registry hsend
    rw [hsend] at hchannels
    subst hchannels
    exact (inv.channels channels).setPhase hd nofun

/-- A dispatcher withdraws its job. -/
theorem DispatchInv.removeJob (inv : DispatchInv s) {i : ℕ} {d : Dispatch}
    (hd : s.dispatches[i]? = some d) (hwithdrawn : d.withdrawn = false) {tasks : Registry}
    (h : s.tasks.step (.remove d.id d.token) = some tasks) :
    DispatchInv { s with tasks, dispatches := s.dispatches.set i { d with withdrawn := true } } := by
  have hmem : d ∈ s.dispatches := List.mem_of_getElem? hd
  have hlisted : s.tasks.tasks.lookup d.id = some d.job := (inv.listed d hmem d.id).mpr ⟨hwithdrawn, rfl⟩
  obtain ⟨j, hj, -, htoken⟩ := inv.owns d hmem
  -- the guard's id and token name the dispatcher's own job
  have htasks : tasks = { s.tasks with tasks := s.tasks.tasks.erase d.id } ∧ s.tasks.sweeps = [] := by
    simp only [Registry.step] at h
    split at h
    · rename_i hsweeps
      refine ⟨?_, hsweeps⟩
      obtain rfl := Option.some.inj h
      have hmatch : tokenMatches j.token d.token = true := (tokenMatches_iff _ _).mpr htoken
      simp [Registry.remove, hlisted, hj, hmatch]
    · cases h
  obtain ⟨rfl, hsweeps⟩ := htasks
  constructor
  · exact inv.table
  · exact inv.removing
  · exact inv.sweeping
  · exact inv.gone
  · intro id r hr
    by_cases hid : id = d.id
    · subst hid
      simp only [AList.lookup_erase] at hr
      cases hr
    · simp only [AList.lookup_erase_ne hid] at hr
      exact inv.bound id r hr
  · intro f hf
    rcases List.mem_or_eq_of_mem_set hf with hf | rfl
    · exact inv.owns f hf
    · exact inv.owns d hmem
  · show (List.map _ (s.dispatches.set i _)).Nodup
    rw [map_job_set hd]
    · exact inv.distinct
    · rfl
  · intro f hf id
    show (s.tasks.tasks.erase d.id).lookup id = some f.job ↔ _
    by_cases hid : id = d.id
    · subst hid
      rw [AList.lookup_erase]
      refine iff_of_false (by rintro ⟨⟩) ?_
      rintro ⟨hactive, hid⟩
      rcases mem_set_cases hd inv.distinct hf with rfl | ⟨hf, hne⟩
      · cases hactive
      · have hlookup := (inv.listed f hf d.id).mpr ⟨hactive, hid⟩
        exact hne (Option.some.inj (hlookup.symm.trans hlisted))
    · rw [AList.lookup_erase_ne hid]
      rcases mem_set_cases hd inv.distinct hf with rfl | ⟨hf, -⟩
      · rw [inv.listed d hmem id]
        exact iff_of_false (fun h => hid h.2) (by rintro ⟨⟨⟩, -⟩)
      · exact inv.listed f hf id
  · intro f hf hawaits refs hrefs
    simp only [hsweeps, List.not_mem_nil] at hrefs
  · intro f hf hawaits hgone
    rcases mem_set_cases hd inv.distinct hf with rfl | ⟨hf, -⟩
    · cases hawaits.2
    · exact inv.answered f hf hawaits hgone

theorem DispatchInv.withdraw (inv : DispatchInv s) {i : ℕ} {d : Dispatch} {cancel : Option μ}
    (hd : s.dispatches[i]? = some d) (hwithdrawn : d.withdrawn = false) {s' : ServerContext μ}
    (h : s.withdraw i d cancel = some s') : DispatchInv s' := by
  obtain ⟨tasks, htasks, rfl⟩ := Option.map_eq_some_iff.mp h
  cases cancel with
  | none => exact inv.removeJob hd hwithdrawn htasks
  | some message =>
      obtain ⟨channels, hchannels⟩ := s.agents.registry.trySend_channels d.entry message
      have inv' := (inv.channels channels).removeJob hd hwithdrawn htasks
      rw [← hchannels] at inv'
      exact inv'

/-- A connection leaves the agent registry. -/
theorem DispatchInv.remove (inv : DispatchInv s) {e : AgentEntry} (he : e ∈ s.agents.handed)
    {agents : AgentsState μ} (h : s.agents.step (.remove e.connectionId) = some agents) :
    DispatchInv { s with agents, removing := e.connectionId :: s.removing } := by
  have inv' := inv.agents h
  refine ⟨inv'.table, ?_, inv'.sweeping, inv'.gone, inv.bound, inv.owns, inv.distinct, inv.listed,
    inv.swept, inv.answered⟩
  intro c hc
  rcases List.mem_cons.mp hc with rfl | hc
  · exact Left.of_remove inv.table he h
  · exact inv'.removing c hc

/-- Its disconnect begins to sweep the table, with every job that is registered. -/
theorem DispatchInv.disconnected (inv : DispatchInv s) {k : ℕ} {c : AgentConnectionId}
    (hk : s.removing[k]? = some c) {tasks : Registry}
    (h : s.tasks.step (.disconnected c) = some tasks) :
    DispatchInv { s with tasks, removing := s.removing.eraseIdx k } := by
  obtain rfl := Option.some.inj h
  constructor
  · exact inv.table
  · exact fun c hc => inv.removing c (List.mem_of_mem_eraseIdx hc)
  · intro c' refs hc
    rcases List.mem_append.mp hc with hc | hc
    · exact inv.sweeping c' refs hc
    · cases List.mem_singleton.mp hc
      exact inv.removing c (List.mem_of_getElem? hk)
  · exact inv.gone
  · exact inv.bound
  · exact inv.owns
  · exact inv.distinct
  · exact inv.listed
  · intro d hd hawaits refs hrefs
    rcases List.mem_append.mp hrefs with hrefs | hrefs
    · exact inv.swept d hd hawaits refs hrefs
    · obtain ⟨-, rfl⟩ := Prod.mk.inj (List.mem_singleton.mp hrefs)
      have hlisted : s.tasks.tasks.lookup d.id = some d.job :=
        (inv.listed d hd d.id).mpr ⟨hawaits.2, rfl⟩
      exact Or.inl (List.mem_map.mpr ⟨⟨d.id, d.job⟩, AList.mem_lookup_iff.mp hlisted, rfl⟩)
  · exact inv.answered

/-- A sweep that has visited everything ends the teardown. -/
theorem DispatchInv.finish (inv : DispatchInv s) {i : ℕ} {sweep : AgentConnectionId × List ℕ}
    (hi : s.tasks.sweeps[i]? = some sweep) {tasks : Registry}
    (h : s.tasks.step (.sweepEnd i) = some tasks) :
    DispatchInv { s with tasks, gone := sweep.1 :: s.gone } := by
  obtain ⟨c, refs⟩ := sweep
  have hmem : (c, refs) ∈ s.tasks.sweeps := List.mem_of_getElem? hi
  have htasks : refs = [] ∧ tasks = { s.tasks with sweeps := s.tasks.sweeps.eraseIdx i } := by
    simp only [Registry.step, hi] at h
    split at h
    · rename_i heq
      cases heq
      exact ⟨rfl, (Option.some.inj h).symm⟩
    · cases h
  obtain ⟨rfl, rfl⟩ := htasks
  constructor
  · exact inv.table
  · exact inv.removing
  · exact fun c refs hc => inv.sweeping c refs (List.mem_of_mem_eraseIdx hc)
  · intro c' hc'
    rcases List.mem_cons.mp hc' with rfl | hc'
    · exact inv.sweeping _ [] hmem
    · exact inv.gone c' hc'
  · exact inv.bound
  · exact inv.owns
  · exact inv.distinct
  · exact inv.listed
  · exact fun d hd hawaits refs hrefs => inv.swept d hd hawaits refs (List.mem_of_mem_eraseIdx hrefs)
  · intro d hd hawaits hgone
    rcases List.mem_cons.mp hgone with rfl | hgone
    · rcases inv.swept d hd hawaits [] hmem with hvisit | hanswered
      · cases hvisit
      · exact hanswered
    · exact inv.answered d hd hawaits hgone

end

/-- Every step keeps the invariant. -/
theorem DispatchInv.step {s s' : ServerContext μ} (inv : DispatchInv s) {op : ServerOp μ}
    (h : s.step op = some s') : DispatchInv s' := by
  cases op with
  | agents op =>
      simp only [ServerContext.step] at h
      split at h
      · cases h
      · obtain ⟨agents, hstep, rfl⟩ := Option.map_eq_some_iff.mp h
        exact inv.agents hstep
  | service op =>
      simp only [ServerContext.step] at h
      split at h
      · rename_i hop
        obtain ⟨tasks, hstep, rfl⟩ := Option.map_eq_some_iff.mp h
        exact inv.service hop hstep
      · cases h
  | register i id token maxBytes =>
      obtain ⟨entry, -, h⟩ := Option.bind_eq_some_iff.mp h
      exact inv.register h
  | dispatch i message =>
      simp only [ServerContext.step] at h
      split at h
      · cases h
      · rename_i d hd
        split at h
        · obtain rfl := Option.some.inj h
          exact inv.dispatch message hd
        · cases h
  | withdraw i cancel =>
      simp only [ServerContext.step] at h
      split at h
      · cases h
      · rename_i d hd
        split at h
        · cases h
        · rename_i hwithdrawn
          exact inv.withdraw hd (Bool.not_eq_true _ ▸ hwithdrawn) h
  | remove i =>
      obtain ⟨entry, hentry, h⟩ := Option.bind_eq_some_iff.mp h
      obtain ⟨agents, hstep, rfl⟩ := Option.map_eq_some_iff.mp h
      exact inv.remove (List.mem_of_getElem? hentry) hstep
  | disconnected k =>
      obtain ⟨c, hk, h⟩ := Option.bind_eq_some_iff.mp h
      obtain ⟨tasks, hstep, rfl⟩ := Option.map_eq_some_iff.mp h
      exact inv.disconnected hk hstep
  | finish i =>
      obtain ⟨sweep, hi, h⟩ := Option.bind_eq_some_iff.mp h
      obtain ⟨tasks, hstep, rfl⟩ := Option.map_eq_some_iff.mp h
      exact inv.finish hi hstep

/-- What the two registries together promise. -/
structure DispatchLaw (s : ServerContext μ) : Prop where
  /-- From the removal of its connection on, a dispatcher is refused. -/
  refused : ∀ d ∈ s.dispatches, (d.entry.connectionId ∈ s.removing ∨
      (∃ refs, (d.entry.connectionId, refs) ∈ s.tasks.sweeps) ∨ d.entry.connectionId ∈ s.gone) →
    ∀ message, s.agents.registry.trySendCurrent d.entry message = (.error .closed, s.agents.registry)
  /-- Once the teardown has finished, every request that was sent on the connection and that has not
  been given up has its result slot consumed. -/
  answered : ∀ d ∈ s.dispatches, d.phase = .dispatched → d.withdrawn = false →
    d.entry.connectionId ∈ s.gone → ∃ j, s.tasks.jobs[d.job]? = some j ∧ j.resultTx = false
  /-- No job is left registered, undelivered and dispatched to a connection that is gone. -/
  none_stranded : ∀ d ∈ s.dispatches, d.phase = .dispatched → d.entry.connectionId ∈ s.gone →
    ∀ id j, s.tasks.tasks.lookup id = some d.job → s.tasks.jobs[d.job]? = some j →
      j.resultTx = false

/-- After any interleaving of dispatchers, teardowns, reconnects, uploads and results, the registries
keep their promises. -/
theorem dispatch_law {ops : List (ServerOp μ)} {s : ServerContext μ}
    (h : exec ServerContext.step (.new μ) ops = some s) : DispatchLaw s := by
  have inv : DispatchInv s := invariant (fun _ _ _ inv h => DispatchInv.step inv h) .new h
  constructor
  · intro d hd hleft message
    refine Left.refused ?_ message
    rcases hleft with hremoving | ⟨refs, hsweeping⟩ | hgone
    · exact inv.removing _ hremoving
    · exact inv.sweeping _ refs hsweeping
    · exact inv.gone _ hgone
  · exact fun d hd hphase hwithdrawn hgone => inv.answered d hd ⟨hphase, hwithdrawn⟩ hgone
  · intro d hd hphase hgone id j hlookup hj
    have hwithdrawn : d.withdrawn = false := ((inv.listed d hd id).mp hlookup).1
    obtain ⟨j', hj', hconsumed⟩ := inv.answered d hd ⟨hphase, hwithdrawn⟩ hgone
    rw [hj, Option.some.injEq] at hj'
    exact hj' ▸ hconsumed

/-- A request is sent, and its connection torn down while a replacement registers. -/
def replacedInDispatch : List (ServerOp ℕ) :=
  [.agents (.register ⟨"sensor", "host", "1", ["pcap"]⟩ none), .register 0 "job" "secret" 8,
    .dispatch 0 5, .agents (.register ⟨"sensor", "host", "1", ["pcap"]⟩ none), .remove 0,
    .disconnected 0, .service (.sweep 0 0), .finish 0]

theorem dispatch_law_replacedInDispatch :
    ∃ s, exec ServerContext.step (.new ℕ) replacedInDispatch = some s ∧
      s.dispatches.map (fun d => (d.phase, d.withdrawn)) = [(.dispatched, false)] ∧
      s.gone = [⟨"sensor", 1⟩] ∧ DispatchLaw s := by
  have hrun : (exec ServerContext.step (.new ℕ) replacedInDispatch).map
      (fun s => (s.dispatches.map (fun d => (d.phase, d.withdrawn)), s.gone)) =
        some ([(.dispatched, false)], [⟨"sensor", 1⟩]) := by decide +kernel
  obtain ⟨s, hs, hstate⟩ := Option.map_eq_some_iff.mp hrun
  exact ⟨s, hs, (Prod.mk.inj hstate).1, (Prod.mk.inj hstate).2, dispatch_law hs⟩

end EveBox.Server
