import EveBox.Agent.Connection
import EveBox.Agent.JobProgress

/-!
# One result for every request

`ConnectionInv` ties the table of the active jobs, the supervisors and the results together; every step
keeps it. `Connection.step_rank` and `Connection.exists_step` say that without new messages the steps come
to an end, and where: when every request has its result.
-/

namespace EveBox.Agent

open Rust Pcap Transition

/-! ## The invariant -/

/-- What holds of a job, by where its supervisor is. -/
def Connection.SupervisorInv (c : Connection) (i : ℕ) (r : Job) : Prop :=
  match r.supervisor with
  | .waiting => c.active.lookup r.id = some ⟨r.token, i⟩
  | .sending result => r.agent.phase = .done result
  | .sent => ∃ result, r.agent.phase = .done result ∧ (i, ⟨r.id, r.token, result⟩) ∈ c.handed
  | .discarded => c.results.closed = true

/-- The invariant of a connection. -/
structure ConnectionInv (c : Connection) : Prop where
  agent : ∀ (i : ℕ) (r : Job), c.jobs[i]? = some r → AgentInv r.agent ∧ r.agent.Launched
  supervisor : ∀ (i : ℕ) (r : Job), c.jobs[i]? = some r → c.SupervisorInv i r
  /-- The table lists the jobs whose supervisor waits, and no others. -/
  entry : ∀ id e, c.active.lookup id = some e →
    ∃ r, c.jobs[e.job]? = some r ∧ r.id = id ∧ r.token = e.token ∧ r.supervisor = .waiting
  capacity : c.activeLen ≤ maxActiveJobs
  handed : ∀ i m, (i, m) ∈ c.handed → ∃ r, c.jobs[i]? = some r ∧ r.supervisor = .sent
  once : (c.handed.map Prod.fst).Nodup
  ready : c.jobs ≠ [] → c.control = .ready true
  room : c.results.capacity = resultChannelCapacity

namespace Connection

variable {c c' : Connection}

theorem update_jobs (c : Connection) (i : ℕ) (f : Job → Job) (k : ℕ) :
    (c.update i f).jobs[k]? = if i = k then c.jobs[k]?.map f else c.jobs[k]? := by
  rw [update, List.getElem?_modify]
  split
  · rfl
  · simp

/-- A job after an update: the one that has been updated, or another one. -/
theorem update_some {i k : ℕ} {f : Job → Job} {r : Job} (h : (c.update i f).jobs[k]? = some r) :
    (i = k ∧ ∃ r', c.jobs[i]? = some r' ∧ r = f r') ∨ (i ≠ k ∧ c.jobs[k]? = some r) := by
  rw [update_jobs] at h
  split at h
  · rename_i hik
    obtain ⟨r', hr', rfl⟩ := Option.map_eq_some_iff.mp h
    exact Or.inl ⟨hik, r', hik ▸ hr', rfl⟩
  · rename_i hik
    exact Or.inr ⟨hik, h⟩

theorem update_self {i : ℕ} {f : Job → Job} {r : Job} (h : c.jobs[i]? = some r) :
    (c.update i f).jobs[i]? = some (f r) := by
  rw [update_jobs, if_pos rfl, h]
  rfl

theorem update_ne {i k : ℕ} {f : Job → Job} (h : i ≠ k) :
    (c.update i f).jobs[k]? = c.jobs[k]? := by
  rw [update_jobs, if_neg h]

theorem update_ne_nil {i : ℕ} {f : Job → Job} (h : (c.update i f).jobs ≠ []) : c.jobs ≠ [] := by
  intro hnil
  apply h
  rw [update, hnil, List.modify_nil]

end Connection

section

variable {c c' : Connection}

theorem ConnectionInv.new : ConnectionInv .new where
  agent i r h := by cases h
  supervisor i r h := by cases h
  entry id e h := by
    have hempty : Connection.new.active.lookup id = none := AList.lookup_empty id
    rw [hempty] at h
    cases h
  capacity := Nat.zero_le _
  handed i m h := by cases h
  once := List.nodup_nil
  ready h := absurd rfl h
  room := rfl

/-- A step of one of the tasks of a job, its supervisor apart. -/
theorem ConnectionInv.update_agent (inv : ConnectionInv c) {i : ℕ} {f : AgentJob → AgentJob}
    (hf : ∀ r, c.jobs[i]? = some r → AgentInv (f r.agent) ∧ (f r.agent).Launched ∧
      ∀ result, r.agent.phase = .done result → (f r.agent).phase = .done result) :
    ConnectionInv (c.update i fun r => { r with agent := f r.agent }) where
  agent k r hr := by
    rcases c.update_some hr with ⟨rfl, r', hr', rfl⟩ | ⟨-, hr⟩
    · exact ⟨(hf r' hr').1, (hf r' hr').2.1⟩
    · exact inv.agent k r hr
  supervisor k r hr := by
    rcases c.update_some hr with ⟨rfl, r', hr', rfl⟩ | ⟨-, hr⟩
    · have hdone := (hf r' hr').2.2
      have hold := inv.supervisor i r' hr'
      unfold Connection.SupervisorInv at hold ⊢
      dsimp only
      split at hold
      · exact hold
      · exact hdone _ hold
      · obtain ⟨result, hphase, hmem⟩ := hold
        exact ⟨result, hdone _ hphase, hmem⟩
      · exact hold
    · exact inv.supervisor k r hr
  entry id e he := by
    obtain ⟨r, hr, hid, htoken, hwaiting⟩ := inv.entry id e he
    by_cases hi : i = e.job
    · subst hi
      exact ⟨_, c.update_self hr, hid, htoken, hwaiting⟩
    · exact ⟨r, (c.update_ne hi).trans hr, hid, htoken, hwaiting⟩
  capacity := inv.capacity
  handed k m hm := by
    obtain ⟨r, hr, hsent⟩ := inv.handed k m hm
    by_cases hi : i = k
    · subst hi
      exact ⟨_, c.update_self hr, hsent⟩
    · exact ⟨r, (c.update_ne hi).trans hr, hsent⟩
  once := inv.once
  ready h := inv.ready (c.update_ne_nil h)
  room := inv.room

theorem ConnectionInv.cancelJob (inv : ConnectionInv c) (i : ℕ) : ConnectionInv (c.cancelJob i) := by
  apply inv.update_agent (f := AgentJob.cancelled)
  intro r hr
  obtain ⟨hagent, hlaunched⟩ := inv.agent i r hr
  exact ⟨hagent.cancelled, hlaunched.congr rfl rfl, fun _ => id⟩

/-- The connection is gone: its jobs are cancelled, and no result is taken any more. -/
theorem ConnectionInv.close (inv : ConnectionInv c) : ConnectionInv c.close := by
  have hcancel : ∀ (entries : List (Sigma fun _ : String => ActiveJob)) {c : Connection},
      ConnectionInv c →
      ConnectionInv (entries.foldl (fun c entry => c.cancelJob entry.2.job) c) := by
    intro entries
    induction entries with
    | nil => exact id
    | cons entry entries ih => exact fun inv => ih (inv.cancelJob _)
  have inv := hcancel c.active.entries inv
  refine ⟨inv.agent, ?_, inv.entry, inv.capacity, inv.handed, inv.once, inv.ready, inv.room⟩
  intro i r hr
  have hold := inv.supervisor i r hr
  unfold Connection.SupervisorInv at hold ⊢
  split at hold
  · exact hold
  · exact hold
  · exact hold
  · rfl

/-! ## Messages -/

theorem ControlState.accept_ready {control : ControlState} {message : ServerMessage}
    (h : control = .ready true) : (control.accept message).2 = .ready true := by
  subst h
  cases message <;> rfl

/-- A request is accepted after a hello with the capability only. -/
theorem ControlState.accept_request {control : ControlState} {id token : String} {startUs endUs : ℕ}
    (h : (control.accept (.pcapRequest id token startUs endUs)).1 = true) : control = .ready true := by
  cases control with
  | awaitingHello => cases h
  | ready pcap =>
      cases pcap
      · cases h
      · rfl

/-- Only the first hello changes what the connection accepts. -/
theorem ControlState.accept_cases (control : ControlState) (message : ServerMessage) :
    (control.accept message).2 = control ∨ ∃ version capabilities,
      message = .hello version capabilities ∧
        (control.accept message).2 = .ready (capabilities.any (· = Server.capabilityPcap)) := by
  cases control with
  | awaitingHello =>
      cases message with
      | hello version capabilities => exact Or.inr ⟨version, capabilities, rfl, rfl⟩
      | pcapRequest id token startUs endUs => exact Or.inl rfl
      | cancel id token => exact Or.inl rfl
      | unknown => exact Or.inl rfl
  | ready pcap =>
      left
      cases message with
      | hello version capabilities => rfl
      | pcapRequest id token startUs endUs => cases pcap <;> rfl
      | cancel id token => cases pcap <;> rfl
      | unknown => rfl

theorem ConnectionInv.startJob (inv : ConnectionInv c) (hready : c.control = .ready true)
    (id token : String) (startUs endUs : ℕ) (script : Script) :
    ConnectionInv (c.startJob id token startUs endUs script).2 := by
  unfold Connection.startJob
  split
  · split <;> exact inv
  · rename_i hfree
    split
    · exact inv
    · rename_i hlen
      have hnew : ∀ i r, (c.jobs ++ [⟨id, token, .new script startUs endUs, .waiting⟩])[i]? = some r →
          c.jobs[i]? = some r ∨
            i = c.jobs.length ∧ r = ⟨id, token, .new script startUs endUs, .waiting⟩ := by
        intro i r hr
        rw [List.getElem?_append] at hr
        split at hr
        · exact Or.inl hr
        · rw [List.getElem?_singleton] at hr
          split at hr
          · exact Or.inr ⟨by omega, (Option.some.inj hr).symm⟩
          · cases hr
      have hold : ∀ {i : ℕ} {r : Job}, c.jobs[i]? = some r →
          (c.jobs ++ [⟨id, token, .new script startUs endUs, .waiting⟩])[i]? = some r := by
        intro i r hr
        rw [List.getElem?_append_left (List.getElem?_eq_some_iff.mp hr).1, hr]
      have hne : ∀ {id' e}, c.active.lookup id' = some e → id' ≠ id := by
        rintro id' e he rfl
        rw [hfree] at he
        cases he
      constructor
      · intro i r hr
        rcases hnew i r hr with hr | ⟨-, rfl⟩
        · exact inv.agent i r hr
        · exact ⟨.new script startUs endUs, .new script startUs endUs⟩
      · intro i r hr
        rcases hnew i r hr with hr | ⟨rfl, rfl⟩
        · have hsup := inv.supervisor i r hr
          unfold Connection.SupervisorInv at hsup ⊢
          split at hsup
          · dsimp only
            rw [AList.lookup_insert_ne (hne hsup), hsup]
          · exact hsup
          · exact hsup
          · exact hsup
        · exact AList.lookup_insert _
      · intro id' e he
        by_cases hid : id' = id
        · rw [hid, AList.lookup_insert] at he
          obtain rfl := Option.some.inj he
          refine ⟨⟨id, token, .new script startUs endUs, .waiting⟩, ?_, hid.symm, rfl, rfl⟩
          rw [List.getElem?_append_right (Nat.le_refl _), Nat.sub_self]
          rfl
        · rw [AList.lookup_insert_ne hid] at he
          obtain ⟨r, hr, hrest⟩ := inv.entry id' e he
          exact ⟨r, hold hr, hrest⟩
      · have hfree' : id ∉ c.active := by
          intro hmem
          rw [← AList.lookup_isSome, hfree] at hmem
          cases hmem
        unfold Connection.activeLen at hlen ⊢
        rw [AList.entries_insert_of_notMem hfree', List.length_cons]
        omega
      · intro i m hm
        obtain ⟨r, hr, hsent⟩ := inv.handed i m hm
        exact ⟨r, hold hr, hsent⟩
      · exact inv.once
      · intro _
        exact hready
      · exact inv.room

theorem ConnectionInv.dispatch (inv : ConnectionInv c) {message : ServerMessage}
    (hready : ∀ id token startUs endUs, message = .pcapRequest id token startUs endUs →
      c.control = .ready true) (script : Script) :
    ConnectionInv (c.dispatch message script).2 := by
  cases message with
  | hello version capabilities => exact inv
  | pcapRequest id token startUs endUs =>
      have hinv := inv.startJob (hready _ _ _ _ rfl) id token startUs endUs script
      unfold Connection.dispatch
      dsimp only
      split <;> rename_i hstart <;> rw [hstart] at hinv <;> exact hinv
  | cancel id token =>
      unfold Connection.dispatch
      dsimp only
      split
      · split
        · exact inv.cancelJob _
        · exact inv
      · exact inv
  | unknown => exact inv

theorem ConnectionInv.handleMessage (inv : ConnectionInv c) (message : Option ServerMessage)
    (script : Script) : ConnectionInv (c.handleMessage message script).2 := by
  cases message with
  | none => exact inv
  | some message =>
      have hcontrol : ConnectionInv { c with control := (c.control.accept message).2 } :=
        ⟨inv.agent, inv.supervisor, inv.entry, inv.capacity, inv.handed, inv.once,
          fun h => ControlState.accept_ready (inv.ready h), inv.room⟩
      unfold Connection.handleMessage
      dsimp only
      split
      · rename_i haccept
        rw [haccept] at hcontrol
        exact hcontrol
      · rename_i haccept
        rw [haccept] at hcontrol
        apply hcontrol.dispatch
        rintro id token startUs endUs rfl
        have hready := ControlState.accept_request (congrArg Prod.fst haccept)
        have hcontrol : (c.control.accept (.pcapRequest id token startUs endUs)).2 = .ready true :=
          ControlState.accept_ready hready
        rw [haccept] at hcontrol
        exact hcontrol

theorem ConnectionInv.receive (inv : ConnectionInv c) {message : Option ServerMessage} {script : Script}
    (h : c.receive message script = some c') : ConnectionInv c' := by
  have hinv := inv.handleMessage message script
  unfold Connection.receive at h
  split at h
  · cases h
  · split at h <;> rename_i hmessage <;> rw [hmessage] at hinv <;> obtain rfl := Option.some.inj h
    · exact hinv
    · exact hinv.close

/-! ## The other steps -/

theorem ConnectionInv.writeResult (inv : ConnectionInv c) {written : Bool}
    (h : c.writeResult written = some c') : ConnectionInv c' := by
  unfold Connection.writeResult at h
  split at h
  · cases h
  · split at h
    · cases h
    · rename_i queue hqueue
      have hinv : ConnectionInv { c with results := { c.results with queue } } :=
        ⟨inv.agent, inv.supervisor, inv.entry, inv.capacity, inv.handed, inv.once, inv.ready, inv.room⟩
      obtain rfl := Option.some.inj h
      split
      · exact hinv
      · exact hinv.close

theorem ConnectionInv.lost (inv : ConnectionInv c) (h : c.lost = some c') : ConnectionInv c' := by
  unfold Connection.lost at h
  split at h
  · cases h
  · obtain rfl := Option.some.inj h
    exact inv.close

/-- What the worker of a job does, in the connection. -/
theorem Connection.work_some {i : ℕ} {op : AgentOp} (h : c.work i op = some c') :
    op ≠ .cancel ∧ ∃ r agent, c.jobs[i]? = some r ∧ r.agent.step op = some agent ∧
      c' = c.update i fun r => { r with agent } := by
  unfold Connection.work at h
  split at h
  · cases h
  · rename_i hop
    obtain ⟨r, hr, h⟩ := Option.bind_eq_some_iff.mp h
    obtain ⟨agent, hagent, h⟩ := Option.bind_eq_some_iff.mp h
    obtain rfl := Option.some.inj h
    exact ⟨fun hcancel => hop (Or.inl hcancel), r, agent, hr, hagent, rfl⟩

theorem Connection.poll_some {i : ℕ} (h : c.poll i = some c') :
    ∃ r p agent, c.jobs[i]? = some r ∧ r.agent.pollBody = some (p, agent) ∧
      c' = c.update i fun r => { r with agent } := by
  obtain ⟨r, hr, h⟩ := Option.bind_eq_some_iff.mp h
  obtain ⟨⟨p, agent⟩, hagent, h⟩ := Option.bind_eq_some_iff.mp h
  obtain rfl := Option.some.inj h
  exact ⟨r, p, agent, hr, hagent, rfl⟩

theorem Connection.uploadEnd_some {i : ℕ} {join : UploadJoin} (h : c.uploadEnd i join = some c') :
    ∃ r agent, c.jobs[i]? = some r ∧ r.agent.uploadEnd join = some agent ∧
      c' = c.update i fun r => { r with agent } := by
  obtain ⟨r, hr, h⟩ := Option.bind_eq_some_iff.mp h
  obtain ⟨agent, hagent, h⟩ := Option.bind_eq_some_iff.mp h
  obtain rfl := Option.some.inj h
  exact ⟨r, agent, hr, hagent, rfl⟩

/-- What a supervisor does when its worker is done. -/
theorem Connection.terminal_some {i : ℕ} (h : c.terminal i = some c') :
    ∃ r result, c.jobs[i]? = some r ∧ r.supervisor = .waiting ∧ r.agent.phase = .done result ∧
      c' = ({ c with active :=
          if (c.active.lookup r.id).any (·.token = r.token) then c.active.erase r.id else c.active } :
        Connection).update i fun r => { r with supervisor := .sending result } := by
  obtain ⟨r, hr, h⟩ := Option.bind_eq_some_iff.mp h
  dsimp only at h
  split at h
  · rename_i result hwaiting hdone
    obtain rfl := Option.some.inj h
    exact ⟨r, result, hr, hwaiting, hdone, rfl⟩
  · cases h

/-- What a supervisor does with its result. -/
theorem Connection.send_some {i : ℕ} (h : c.send i = some c') :
    ∃ r result, c.jobs[i]? = some r ∧ r.supervisor = .sending result ∧
      (c' = ({ c with
            results := c.results.push ⟨r.id, r.token, result⟩
            handed := c.handed ++ [(i, ⟨r.id, r.token, result⟩)] } : Connection).update i
          (fun r => { r with supervisor := .sent }) ∨
        c.results.closed = true ∧ c' = c.update i fun r => { r with supervisor := .discarded }) := by
  obtain ⟨r, hr, h⟩ := Option.bind_eq_some_iff.mp h
  dsimp only at h
  split at h
  · rename_i result hsending
    refine ⟨r, result, hr, hsending, ?_⟩
    unfold Channel.trySend at h
    by_cases hclosed : c.results.closed = true
    · rw [if_pos hclosed] at h
      obtain rfl := Option.some.inj h
      exact Or.inr ⟨hclosed, rfl⟩
    · rw [if_neg hclosed] at h
      split at h <;> rename_i htry <;> split at htry <;> cases htry
      · obtain rfl := Option.some.inj h
        exact Or.inl rfl
      · cases h
  · cases h

theorem ConnectionInv.agent_update (inv : ConnectionInv c) {i : ℕ} {r : Job} {agent : AgentJob}
    (hr : c.jobs[i]? = some r) (hagent : AgentInv agent) (hlaunched : agent.Launched)
    (hdone : ∀ result, r.agent.phase = .done result → agent.phase = .done result) :
    ConnectionInv (c.update i fun r => { r with agent }) := by
  apply inv.update_agent (f := fun _ => agent)
  intro r' hr'
  rw [hr] at hr'
  obtain rfl := Option.some.inj hr'
  exact ⟨hagent, hlaunched, hdone⟩

theorem ConnectionInv.work (inv : ConnectionInv c) {i : ℕ} {op : AgentOp}
    (h : c.work i op = some c') : ConnectionInv c' := by
  obtain ⟨-, r, agent, hr, hstep, rfl⟩ := Connection.work_some h
  obtain ⟨hagent, hlaunched⟩ := inv.agent i r hr
  exact inv.agent_update hr (hagent.step hstep) (hlaunched.step hagent hstep)
    (AgentJob.step_frame hstep).1.done

theorem ConnectionInv.poll (inv : ConnectionInv c) {i : ℕ} (h : c.poll i = some c') :
    ConnectionInv c' := by
  obtain ⟨r, p, agent, hr, hpoll, rfl⟩ := Connection.poll_some h
  obtain ⟨hagent, hlaunched⟩ := inv.agent i r hr
  obtain ⟨hphase, hproducer⟩ : agent.phase = r.agent.phase ∧ agent.producer = r.agent.producer := by
    obtain ⟨body, -, ⟨-, -, rfl⟩ | ⟨-, -, rfl⟩ | ⟨-, -, -, -, -, rfl⟩ | ⟨_, _, _, -, -, -, -, rfl⟩⟩ :=
      AgentJob.pollBody_some hpoll
    all_goals exact ⟨rfl, rfl⟩
  refine inv.agent_update hr (hagent.pollBody hpoll) (hlaunched.congr hphase hproducer) ?_
  intro result hdone
  rw [hphase, hdone]

theorem ConnectionInv.uploadEnd (inv : ConnectionInv c) {i : ℕ} {join : UploadJoin}
    (h : c.uploadEnd i join = some c') : ConnectionInv c' := by
  obtain ⟨r, agent, hr, hend, rfl⟩ := Connection.uploadEnd_some h
  obtain ⟨hagent, hlaunched⟩ := inv.agent i r hr
  obtain ⟨hphase, hproducer⟩ : agent.phase = r.agent.phase ∧ agent.producer = r.agent.producer := by
    unfold AgentJob.uploadEnd at hend
    split at hend
    · obtain rfl := Option.some.inj hend
      exact ⟨rfl, rfl⟩
    · cases hend
  refine inv.agent_update hr (hagent.uploadEnd hend) (hlaunched.congr hphase hproducer) ?_
  intro result hdone
  rw [hphase, hdone]

theorem ConnectionInv.terminal (inv : ConnectionInv c) {i : ℕ} (h : c.terminal i = some c') :
    ConnectionInv c' := by
  obtain ⟨r, result, hr, hwaiting, hdone, rfl⟩ := Connection.terminal_some h
  have hlisted : c.active.lookup r.id = some ⟨r.token, i⟩ := by
    have hsup := inv.supervisor i r hr
    rw [Connection.SupervisorInv, hwaiting] at hsup
    exact hsup
  -- the entry under the id is the job's own
  rw [hlisted, Option.any_some, if_pos (decide_eq_true rfl)]
  have hother : ∀ {k : ℕ} {r' : Job}, i ≠ k → c.jobs[k]? = some r' →
      c.active.lookup r'.id = some ⟨r'.token, k⟩ → r'.id ≠ r.id := by
    intro k r' hk hr' hlookup hid
    rw [hid, hlisted] at hlookup
    exact hk (congrArg ActiveJob.job (Option.some.inj hlookup))
  constructor
  · intro k r' hr'
    rcases Connection.update_some hr' with ⟨rfl, r'', hr'', rfl⟩ | ⟨-, hr'⟩
    · exact inv.agent i r'' hr''
    · exact inv.agent k r' hr'
  · intro k r' hr'
    rcases Connection.update_some hr' with ⟨rfl, r'', hr'', rfl⟩ | ⟨hk, hr'⟩
    · obtain rfl := Option.some.inj (hr.symm.trans hr'')
      exact hdone
    · have hsup := inv.supervisor k r' hr'
      unfold Connection.SupervisorInv at hsup ⊢
      split at hsup
      · show (c.active.erase r.id).lookup r'.id = _
        rw [AList.lookup_erase_ne (hother hk hr' hsup), hsup]
      · exact hsup
      · exact hsup
      · exact hsup
  · intro id e he
    replace he : (c.active.erase r.id).lookup id = some e := he
    have hid : id ≠ r.id := by
      rintro rfl
      rw [AList.lookup_erase] at he
      cases he
    have hold : c.active.lookup id = some e := (AList.lookup_erase_ne hid).symm.trans he
    obtain ⟨r', hr', hid', htoken, hwaiting'⟩ := inv.entry id e hold
    have hi : i ≠ e.job := by
      rintro rfl
      obtain rfl := Option.some.inj (hr.symm.trans hr')
      exact hid hid'.symm
    exact ⟨r', (Connection.update_ne hi).trans hr', hid', htoken, hwaiting'⟩
  · refine Nat.le_trans ?_ inv.capacity
    exact (List.kerase_sublist r.id c.active.entries).length_le
  · intro k m hm
    obtain ⟨r', hr', hsent⟩ := inv.handed k m hm
    have hi : i ≠ k := by
      rintro rfl
      obtain rfl := Option.some.inj (hr.symm.trans hr')
      rw [hwaiting] at hsent
      cases hsent
    exact ⟨r', (Connection.update_ne hi).trans hr', hsent⟩
  · exact inv.once
  · intro hne
    exact inv.ready (Connection.update_ne_nil hne)
  · exact inv.room

theorem ConnectionInv.send (inv : ConnectionInv c) {i : ℕ} (h : c.send i = some c') :
    ConnectionInv c' := by
  obtain ⟨r, result, hr, hsending, hcase⟩ := Connection.send_some h
  have hdone : r.agent.phase = .done result := by
    have hsup := inv.supervisor i r hr
    rw [Connection.SupervisorInv, hsending] at hsup
    exact hsup
  -- the table does not list the job, and no result of it has been handed over
  have hentry : ∀ {id e}, c.active.lookup id = some e → i ≠ e.job := by
    rintro id e he rfl
    obtain ⟨r', hr', -, -, hwaiting⟩ := inv.entry id e he
    obtain rfl := Option.some.inj (hr.symm.trans hr')
    rw [hsending] at hwaiting
    cases hwaiting
  have hfirst : ∀ {k m}, (k, m) ∈ c.handed → i ≠ k := by
    rintro k m hm rfl
    obtain ⟨r', hr', hsent⟩ := inv.handed i m hm
    obtain rfl := Option.some.inj (hr.symm.trans hr')
    rw [hsending] at hsent
    cases hsent
  rcases hcase with rfl | ⟨hclosed, rfl⟩
  · constructor
    · intro k r' hr'
      rcases Connection.update_some hr' with ⟨rfl, r'', hr'', rfl⟩ | ⟨-, hr'⟩
      · exact inv.agent i r'' hr''
      · exact inv.agent k r' hr'
    · intro k r' hr'
      rcases Connection.update_some hr' with ⟨rfl, r'', hr'', rfl⟩ | ⟨-, hr'⟩
      · obtain rfl := Option.some.inj (hr.symm.trans hr'')
        exact ⟨result, hdone, List.mem_append_right _ (List.mem_singleton_self _)⟩
      · have hsup := inv.supervisor k r' hr'
        unfold Connection.SupervisorInv at hsup ⊢
        split at hsup
        · exact hsup
        · exact hsup
        · obtain ⟨result', hdone', hmem⟩ := hsup
          exact ⟨result', hdone', List.mem_append_left _ hmem⟩
        · exact hsup
    · intro id e he
      obtain ⟨r', hr', hrest⟩ := inv.entry id e he
      exact ⟨r', (Connection.update_ne (hentry he)).trans hr', hrest⟩
    · exact inv.capacity
    · intro k m hm
      rcases List.mem_append.mp hm with hm | hm
      · obtain ⟨r', hr', hsent⟩ := inv.handed k m hm
        exact ⟨r', (Connection.update_ne (hfirst hm)).trans hr', hsent⟩
      · cases List.mem_singleton.mp hm
        exact ⟨_, Connection.update_self hr, rfl⟩
    · show ((c.handed ++ _).map Prod.fst).Nodup
      rw [List.map_append, List.nodup_append]
      refine ⟨inv.once, List.nodup_singleton _, ?_⟩
      intro k hk k' hk' heq
      obtain ⟨⟨_, m⟩, hm, rfl⟩ := List.mem_map.mp hk
      obtain rfl := List.mem_singleton.mp hk'
      exact hfirst hm heq.symm
    · intro hne
      exact inv.ready (Connection.update_ne_nil hne)
    · exact inv.room
  · constructor
    · intro k r' hr'
      rcases Connection.update_some hr' with ⟨rfl, r'', hr'', rfl⟩ | ⟨-, hr'⟩
      · exact inv.agent i r'' hr''
      · exact inv.agent k r' hr'
    · intro k r' hr'
      rcases Connection.update_some hr' with ⟨rfl, r'', hr'', rfl⟩ | ⟨-, hr'⟩
      · exact hclosed
      · exact inv.supervisor k r' hr'
    · intro id e he
      obtain ⟨r', hr', hrest⟩ := inv.entry id e he
      exact ⟨r', (Connection.update_ne (hentry he)).trans hr', hrest⟩
    · exact inv.capacity
    · intro k m hm
      obtain ⟨r', hr', hsent⟩ := inv.handed k m hm
      exact ⟨r', (Connection.update_ne (hfirst hm)).trans hr', hsent⟩
    · exact inv.once
    · intro hne
      exact inv.ready (Connection.update_ne_nil hne)
    · exact inv.room

/-- Every step keeps the invariant. -/
theorem ConnectionInv.step (inv : ConnectionInv c) {op : ConnectionOp} (h : c.step op = some c') :
    ConnectionInv c' := by
  cases op with
  | receive message script => exact inv.receive h
  | writeResult written => exact inv.writeResult h
  | lost => exact inv.lost h
  | work i op => exact inv.work h
  | poll i => exact inv.poll h
  | uploadEnd i join => exact inv.uploadEnd h
  | terminal i => exact inv.terminal h
  | send i => exact inv.send h

/-! ## The steps come to an end -/

/-- What a supervisor has still to do. -/
def Supervisor.rank : Supervisor → ℕ
  | .waiting => 3
  | .sending _ => 2
  | .sent | .discarded => 0

namespace Connection

/-- A bound on the steps of a job and its supervisor. -/
def jobRank (r : Job) : ℕ := r.agent.rank + r.supervisor.rank

/-- A bound on the steps that can happen to the connection, apart from messages. -/
def rank (c : Connection) : ℕ :=
  (c.jobs.map jobRank).sum + c.results.queue.length + (if c.results.closed then 0 else 1)

/-- The sum of the jobs' ranks, after an update. -/
theorem update_rank {i : ℕ} {f : Job → Job} {r : Job} (h : c.jobs[i]? = some r) :
    ((c.update i f).jobs.map jobRank).sum + jobRank r =
      (c.jobs.map jobRank).sum + jobRank (f r) := by
  obtain ⟨hi, hr⟩ := List.getElem?_eq_some_iff.mp h
  have hsplit : c.jobs = c.jobs.take i ++ r :: c.jobs.drop (i + 1) := by
    rw [← hr, ← List.drop_eq_getElem_cons hi, List.take_append_drop]
  have hmodify : (c.update i f).jobs = c.jobs.take i ++ f r :: c.jobs.drop (i + 1) := by
    rw [update, List.modify_eq_take_cons_drop hi, hr]
  rw [hmodify]
  conv_rhs => rw [hsplit]
  simp only [List.map_append, List.map_cons, List.sum_append, List.sum_cons]
  omega

theorem cancelJob_rank (c : Connection) (i : ℕ) : (c.cancelJob i).rank = c.rank := by
  have hrank : (c.cancelJob i).jobs.map jobRank = c.jobs.map jobRank := by
    apply List.ext_getElem?
    intro k
    rw [List.getElem?_map, List.getElem?_map, cancelJob, update_jobs]
    split
    · rw [Option.map_map]
      rfl
    · rfl
  show ((c.cancelJob i).jobs.map jobRank).sum + _ + _ = _
  rw [hrank]
  rfl

theorem close_rank (h : c.results.closed = false) : c.close.rank < c.rank := by
  have hcancel : ∀ (entries : List (Sigma fun _ : String => ActiveJob)) (c : Connection),
      (entries.foldl (fun c entry => c.cancelJob entry.2.job) c).rank = c.rank ∧
        (entries.foldl (fun c entry => c.cancelJob entry.2.job) c).results = c.results := by
    intro entries
    induction entries with
    | nil => exact fun c => ⟨rfl, rfl⟩
    | cons entry entries ih =>
        intro c
        obtain ⟨hrank, hresults⟩ := ih (c.cancelJob entry.2.job)
        exact ⟨hrank.trans (cancelJob_rank c _), hresults⟩
  obtain ⟨hrank, hresults⟩ := hcancel c.active.entries c
  rw [← hrank]
  unfold close rank
  dsimp only
  rw [hresults, h]
  simp only [if_true, if_false, Bool.false_eq_true, List.length_nil]
  omega

/-- Every step that is no message brings the connection nearer to where nothing happens, or changes
nothing. -/
theorem step_rank (inv : ConnectionInv c) {op : ConnectionOp}
    (hop : ∀ message script, op ≠ .receive message script) (h : c.step op = some c') :
    c' = c ∨ c'.rank < c.rank := by
  -- a step of a job's own tasks
  have hagent : ∀ {i : ℕ} {r : Job} {agent : AgentJob}, c.jobs[i]? = some r →
      agent.rank < r.agent.rank → (c.update i fun r => { r with agent }).rank < c.rank := by
    intro i r agent hr hrank
    have hsum := update_rank (f := fun r => { r with agent }) hr
    rw [jobRank, jobRank] at hsum
    show _ + c.results.queue.length + (if c.results.closed then 0 else 1) < c.rank
    unfold rank
    dsimp only at hsum
    omega
  cases op with
  | receive message script => exact absurd rfl (hop message script)
  | writeResult written =>
      right
      simp only [Connection.step, writeResult] at h
      split at h
      · cases h
      · rename_i hopen
        rw [Bool.not_eq_true] at hopen
        split at h
        · cases h
        · rename_i queue hqueue
          obtain rfl := Option.some.inj h
          have hpop : ({ c with results := { c.results with queue } } : Connection).rank < c.rank := by
            unfold rank
            rw [hqueue, List.length_cons]
            dsimp only
            omega
          split
          · exact hpop
          · exact Nat.lt_trans (close_rank hopen) hpop
  | lost =>
      right
      simp only [Connection.step, lost] at h
      split at h
      · cases h
      · rename_i hopen
        obtain rfl := Option.some.inj h
        exact close_rank (Bool.not_eq_true _ ▸ hopen)
  | work i op =>
      obtain ⟨hcancel, r, agent, hr, hstep, rfl⟩ := work_some h
      exact Or.inr (hagent hr (AgentJob.step_rank (inv.agent i r hr).1 hcancel hstep))
  | poll i =>
      obtain ⟨r, p, agent, hr, hpoll, rfl⟩ := poll_some h
      rcases AgentJob.pollBody_rank hpoll with rfl | hrank
      · left
        have hjobs : c.jobs.modify i (fun r' => { r' with agent := r.agent }) = c.jobs := by
          apply List.ext_getElem?
          intro k
          rw [List.getElem?_modify]
          split
          · rename_i hik
            rw [← hik, hr]
            rfl
          · simp
        rw [update, hjobs]
      · exact Or.inr (hagent hr hrank)
  | uploadEnd i join =>
      obtain ⟨r, agent, hr, hend, rfl⟩ := uploadEnd_some h
      exact Or.inr (hagent hr (AgentJob.uploadEnd_rank hend))
  | terminal i =>
      right
      obtain ⟨r, result, hr, hwaiting, -, rfl⟩ := terminal_some h
      have hsum := update_rank (f := fun r => { r with supervisor := .sending result }) hr
      simp only [jobRank, hwaiting, Supervisor.rank] at hsum
      show _ + c.results.queue.length + (if c.results.closed then 0 else 1) < c.rank
      unfold rank
      change (List.map jobRank (c.update i _).jobs).sum + _ + _ < _
      omega
  | send i =>
      right
      obtain ⟨r, result, hr, hsending, hcase⟩ := send_some h
      rcases hcase with rfl | ⟨-, rfl⟩
      · have hsum := update_rank (f := fun r => { r with supervisor := .sent }) hr
        simp only [jobRank, hsending, Supervisor.rank] at hsum
        show (List.map jobRank (c.update i _).jobs).sum + (c.results.queue ++ [_]).length + _ < c.rank
        rw [List.length_append, List.length_singleton]
        unfold rank
        show _ + _ + (if c.results.closed then 0 else 1) < _
        omega
      · have hsum := update_rank (f := fun r => { r with supervisor := .discarded }) hr
        simp only [jobRank, hsending, Supervisor.rank] at hsum
        show (List.map jobRank (c.update i _).jobs).sum + _ + (if c.results.closed then 0 else 1) < c.rank
        unfold rank
        show _ + c.results.queue.length + _ < _
        omega

/-- What workers, supervisors and the loop do by themselves. -/
def ownStep : ConnectionOp → Bool
  | .work _ op => AgentJob.ofWorker op
  | .terminal _ | .send _ | .writeResult true => true
  | _ => false

/-- While the connection is there and no blocking task is, something can be done for every job that has not
handed its result over. -/
theorem exists_step (inv : ConnectionInv c) (hopen : c.results.closed = false)
    (hidle : c.extracting = false) {i : ℕ} {r : Job} (hr : c.jobs[i]? = some r)
    (hsent : r.supervisor ≠ .sent) : ∃ op, ownStep op = true ∧ (c.step op).isSome = true := by
  have hsup := inv.supervisor i r hr
  rw [SupervisorInv] at hsup
  cases hcase : r.supervisor with
  | waiting =>
      obtain ⟨hagent, hlaunched⟩ := inv.agent i r hr
      by_cases hdone : ∃ result, r.agent.phase = .done result
      · obtain ⟨result, hdone⟩ := hdone
        refine ⟨.terminal i, rfl, ?_⟩
        simp [Connection.step, terminal, hr, hcase, hdone]
      · have halive : r.agent.producer.alive = false := by
          rw [← Bool.not_eq_true]
          intro halive
          have hany : c.extracting = true :=
            List.any_eq_true.mpr ⟨r, List.mem_of_getElem? hr, halive⟩
          rw [hidle] at hany
          cases hany
        obtain ⟨op, agent, hop, hstep⟩ := AgentJob.exists_step hagent hlaunched halive (not_exists.mp hdone)
        refine ⟨.work i op, hop, ?_⟩
        have hcancel : op ≠ .cancel := by
          rintro rfl
          cases hop
        simp [Connection.step, work, hr, hstep, hcancel, hidle]
  | sending result =>
      cases hqueue : c.results.queue with
      | nil =>
          refine ⟨.send i, rfl, ?_⟩
          have htry : ∀ message, c.results.trySend message = (.ok (), c.results.push message) := by
            intro message
            rw [Channel.trySend, if_neg (by rw [hopen]; nofun), if_pos]
            rw [hqueue, inv.room]
            exact Nat.zero_lt_succ _
          simp [Connection.step, Connection.send, hr, hcase, htry]
      | cons message queue =>
          refine ⟨.writeResult true, rfl, ?_⟩
          simp [Connection.step, writeResult, hopen, hqueue]
  | sent => exact absurd hcase hsent
  | discarded =>
      rw [hcase] at hsup
      rw [hopen] at hsup
      cases hsup

/-! ## The handshake -/

theorem close_control (c : Connection) : c.close.control = c.control := by
  have hcancel : ∀ (entries : List (Sigma fun _ : String => ActiveJob)) (c : Connection),
      (entries.foldl (fun c entry => c.cancelJob entry.2.job) c).control = c.control := by
    intro entries
    induction entries with
    | nil => exact fun c => rfl
    | cons entry entries ih => exact fun c => ih (c.cancelJob entry.2.job)
  exact hcancel c.active.entries c

theorem dispatch_control (c : Connection) (message : ServerMessage) (script : Script) :
    (c.dispatch message script).2.control = c.control := by
  cases message with
  | hello version capabilities => rfl
  | pcapRequest id token startUs endUs =>
      have hstart : (c.startJob id token startUs endUs script).2.control = c.control := by
        unfold startJob
        split
        · split <;> rfl
        · split <;> rfl
      unfold dispatch
      dsimp only
      split <;> rename_i hcase <;> rw [hcase] at hstart <;> exact hstart
  | cancel id token =>
      unfold dispatch
      dsimp only
      split
      · split <;> rfl
      · rfl
  | unknown => rfl

theorem step_control {op : ConnectionOp} (h : c.step op = some c') :
    c'.control = c.control ∨ ∃ version capabilities script,
      op = .receive (some (.hello version capabilities)) script ∧
        c'.control = .ready (capabilities.any (· = Server.capabilityPcap)) := by
  cases op with
  | receive message script =>
      simp only [Connection.step, receive] at h
      split at h
      · cases h
      · have hcontrol : c'.control = (c.handleMessage message script).2.control := by
          split at h <;> rename_i hcase <;> rw [hcase] <;> obtain rfl := Option.some.inj h
          · rfl
          · exact close_control _
        rw [hcontrol]
        cases message with
        | none => exact Or.inl rfl
        | some message =>
            have haccept : (c.handleMessage (some message) script).2.control =
                (c.control.accept message).2 := by
              unfold handleMessage
              dsimp only
              split <;> rename_i hcase <;> rw [hcase]
              exact dispatch_control _ _ _
            rw [haccept]
            rcases ControlState.accept_cases c.control message with h | ⟨version, capabilities, rfl, h⟩
            · exact Or.inl h
            · exact Or.inr ⟨version, capabilities, script, rfl, h⟩
  | writeResult written =>
      simp only [Connection.step, writeResult] at h
      split at h
      · cases h
      · split at h
        · cases h
        · obtain rfl := Option.some.inj h
          left
          split
          · rfl
          · exact close_control _
  | lost =>
      simp only [Connection.step, lost] at h
      split at h
      · cases h
      · obtain rfl := Option.some.inj h
        exact Or.inl (close_control c)
  | work i op =>
      obtain ⟨-, r, agent, -, -, rfl⟩ := work_some h
      exact Or.inl rfl
  | poll i =>
      obtain ⟨r, p, agent, -, -, rfl⟩ := poll_some h
      exact Or.inl rfl
  | uploadEnd i join =>
      obtain ⟨r, agent, -, -, rfl⟩ := uploadEnd_some h
      exact Or.inl rfl
  | terminal i =>
      obtain ⟨r, result, -, -, -, rfl⟩ := terminal_some h
      exact Or.inl rfl
  | send i =>
      obtain ⟨r, result, -, -, rfl | ⟨-, rfl⟩⟩ := send_some h
      · exact Or.inl rfl
      · exact Or.inl rfl

/-- A connection that takes requests has had a hello with the capability. -/
theorem hello_of_ready {ops : List ConnectionOp} (h : exec Connection.step c ops = some c')
    (hready : c'.control = .ready true) : c.control = .ready true ∨
      ∃ version capabilities script,
        ConnectionOp.receive (some (.hello version capabilities)) script ∈ ops ∧
          Server.capabilityPcap ∈ capabilities := by
  induction ops generalizing c with
  | nil =>
      obtain rfl := Option.some.inj h
      exact Or.inl hready
  | cons op ops ih =>
      obtain ⟨d, hstep, h⟩ := exec_cons_eq_some.mp h
      rcases ih h with hd | ⟨version, capabilities, script, hmem, hcap⟩
      · rcases step_control hstep with hcontrol | ⟨version, capabilities, script, rfl, hcontrol⟩
        · exact Or.inl (hcontrol.symm.trans hd)
        · rw [hd] at hcontrol
          have hany : capabilities.any (· = Server.capabilityPcap) = true := by
            injection hcontrol with hcontrol
            exact hcontrol.symm
          obtain ⟨capability, hmem, heq⟩ := List.any_eq_true.mp hany
          refine Or.inr ⟨version, capabilities, script, List.mem_cons_self, ?_⟩
          rw [← of_decide_eq_true heq]
          exact hmem
      · exact Or.inr ⟨version, capabilities, script, List.mem_cons_of_mem _ hmem, hcap⟩

/-! ## The law of the job loop -/

/-- What the job loop keeps, in the state `c` after the run `ops`. -/
structure Law (ops : List ConnectionOp) (c : Connection) : Prop where
  capacity : c.activeLen ≤ maxActiveJobs
  /-- A result carries the id and the token of its request. The worker has made it, its blocking task is
  gone, and the job is out of the table. -/
  handed : ∀ i m, (i, m) ∈ c.handed → ∃ (r : Job) (result : PcapResult), c.jobs[i]? = some r ∧
    m = ⟨r.id, r.token, result⟩ ∧ r.agent.phase = .done result ∧ r.agent.producer.alive = false ∧
      ∀ e, c.active.lookup r.id = some e → e.job ≠ i
  once : (c.handed.map Prod.fst).Nodup
  /-- While the connection is there, a request without a result is on its way to one. -/
  kept : c.results.closed = false → ∀ (i : ℕ) (r : Job), c.jobs[i]? = some r →
    (∃ m, (i, m) ∈ c.handed) ∨ c.active.lookup r.id = some ⟨r.token, i⟩ ∨
      ∃ result, r.supervisor = .sending result
  /-- Without messages, there is an end to the steps that change something. -/
  stops : ∀ op c', (∀ message script, op ≠ .receive message script) → c.step op = some c' →
    c' = c ∨ c'.rank < c.rank
  /-- At the end, and with no blocking task left, every request has exactly one result. -/
  answered : c.results.closed = false → c.extracting = false →
    (∀ op, ownStep op = true → c.step op = none) →
      ∀ i, i < c.jobs.length → ∃! m, (i, m) ∈ c.handed
  /-- A repeat of an active request starts nothing and changes nothing. -/
  duplicate : c.results.closed = false → ∀ id e, c.active.lookup id = some e →
    ∀ startUs endUs script,
      c.step (.receive (some (.pcapRequest id e.token startUs endUs)) script) = some c
  /-- An active id with another token ends the connection. -/
  conflict : ∀ id e, c.active.lookup id = some e → ∀ token, token ≠ e.token →
    ∀ startUs endUs script,
      c.handleMessage (some (.pcapRequest id token startUs endUs)) script = (.fatal, c)
  /-- A cancel with a wrong token has no effect. -/
  wrongToken : c.results.closed = false → ∀ id e, c.active.lookup id = some e →
    ∀ token, token ≠ e.token → ∀ script,
      c.step (.receive (some (.cancel id token)) script) = some c
  /-- Without the capability, a request ends the connection. -/
  unready : c.control ≠ .ready true → ∀ id token startUs endUs script,
    c.handleMessage (some (.pcapRequest id token startUs endUs)) script = (.fatal, c)
  /-- The capability comes from a hello. -/
  hello : c.control = .ready true → ∃ version capabilities script,
    ConnectionOp.receive (some (.hello version capabilities)) script ∈ ops ∧
      Server.capabilityPcap ∈ capabilities

theorem handleMessage_unready (h : c.control ≠ .ready true) (id token : String) (startUs endUs : ℕ)
    (script : Script) :
    c.handleMessage (some (.pcapRequest id token startUs endUs)) script = (.fatal, c) := by
  obtain ⟨control, jobs, active, results, handed⟩ := c
  cases control with
  | awaitingHello => rfl
  | ready pcap =>
      cases pcap
      · rfl
      · exact absurd rfl h

theorem handleMessage_request (h : c.control = .ready true) (id token : String) (startUs endUs : ℕ)
    (script : Script) : c.handleMessage (some (.pcapRequest id token startUs endUs)) script =
      c.dispatch (.pcapRequest id token startUs endUs) script := by
  obtain ⟨control, jobs, active, results, handed⟩ := c
  dsimp only at h
  subst h
  rfl

theorem handleMessage_cancel (h : c.control = .ready true) (id token : String) (script : Script) :
    c.handleMessage (some (.cancel id token)) script = c.dispatch (.cancel id token) script := by
  obtain ⟨control, jobs, active, results, handed⟩ := c
  dsimp only at h
  subst h
  rfl

end Connection

/-- A connection with an active job takes requests. -/
theorem ConnectionInv.ready_of_active (inv : ConnectionInv c) {id : String} {e : ActiveJob}
    (he : c.active.lookup id = some e) : c.control = .ready true := by
  obtain ⟨r, hr, -⟩ := inv.entry id e he
  apply inv.ready
  intro hnil
  rw [hnil] at hr
  cases hr

/-- A supervisor that has handed its result over has handed over this one. -/
theorem ConnectionInv.handed_unique (inv : ConnectionInv c) {i : ℕ} {m m' : AgentMessage}
    (hm : (i, m) ∈ c.handed) (hm' : (i, m') ∈ c.handed) : m = m' := by
  have hinj := List.inj_on_of_nodup_map inv.once hm hm' rfl
  exact congrArg Prod.snd hinj

theorem ConnectionInv.of_exec {ops : List ConnectionOp}
    (h : exec Connection.step .new ops = some c) : ConnectionInv c :=
  invariant (P := ConnectionInv) (fun _ _ _ inv hstep => inv.step hstep) .new h

/-- The law of the job loop: for every order of messages, of the steps of the workers, of their failures
and of cancellations. -/
theorem connection_law {ops : List ConnectionOp} (h : exec Connection.step .new ops = some c) :
    c.Law ops := by
  have inv := ConnectionInv.of_exec h
  constructor
  · exact inv.capacity
  · intro i m hm
    obtain ⟨r, hr, hsent⟩ := inv.handed i m hm
    have hsup := inv.supervisor i r hr
    rw [Connection.SupervisorInv, hsent] at hsup
    obtain ⟨result, hdone, hmem⟩ := hsup
    refine ⟨r, result, hr, inv.handed_unique hm hmem, hdone, ?_, ?_⟩
    · have hlaunched := (inv.agent i r hr).2
      rw [AgentJob.Launched, hdone] at hlaunched
      exact hlaunched
    · rintro e he rfl
      obtain ⟨r', hr', -, -, hwaiting⟩ := inv.entry r.id e he
      obtain rfl := Option.some.inj (hr.symm.trans hr')
      rw [hsent] at hwaiting
      cases hwaiting
  · exact inv.once
  · intro hopen i r hr
    have hsup := inv.supervisor i r hr
    unfold Connection.SupervisorInv at hsup
    split at hsup
    · exact Or.inr (Or.inl hsup)
    · rename_i result hsending
      exact Or.inr (Or.inr ⟨result, hsending⟩)
    · obtain ⟨result, -, hmem⟩ := hsup
      exact Or.inl ⟨_, hmem⟩
    · rw [hopen] at hsup
      cases hsup
  · intro op c' hop hstep
    exact Connection.step_rank inv hop hstep
  · intro hopen hidle hstuck i hi
    have hr := List.getElem?_eq_getElem hi
    by_cases hsent : c.jobs[i].supervisor = .sent
    · have hsup := inv.supervisor i _ hr
      rw [Connection.SupervisorInv, hsent] at hsup
      obtain ⟨result, -, hmem⟩ := hsup
      exact ⟨_, hmem, fun m hm => inv.handed_unique hm hmem⟩
    · obtain ⟨op, hop, hstep⟩ := Connection.exists_step inv hopen hidle hr hsent
      rw [hstuck op hop] at hstep
      cases hstep
  · intro hopen id e he startUs endUs script
    show c.receive _ _ = _
    rw [Connection.receive, Connection.handleMessage_request (inv.ready_of_active he)]
    simp [hopen, Connection.dispatch, Connection.startJob, he]
  · intro id e he token htoken startUs endUs script
    rw [Connection.handleMessage_request (inv.ready_of_active he)]
    simp [Connection.dispatch, Connection.startJob, he, htoken.symm]
  · intro hopen id e he token htoken script
    show c.receive _ _ = _
    rw [Connection.receive, Connection.handleMessage_cancel (inv.ready_of_active he)]
    simp [hopen, Connection.dispatch, he, htoken.symm]
  · intro hready id token startUs endUs script
    exact Connection.handleMessage_unready hready id token startUs endUs script
  · intro hready
    rcases Connection.hello_of_ready h hready with hnew | hello
    · cases hnew
    · exact hello

/-- A fetch that finds no files. -/
def noFiles : Script where
  chunks := []
  result := .error .noCandidateFiles
  cancelled := false
  nonempty := no_chunks
  bytes _ h := by cases h
  truncated _ h := by cases h
  noMatch _ _ _ := rfl
  noCandidateFiles _ _ := rfl

/-- The worker fails while its fetch is under way; the request comes twice. -/
def panicRun : List ConnectionOp :=
  [.receive (some (.hello "0.27.0" ["pcap"])) noFiles,
    .receive (some (.pcapRequest "job" "token" 0 1)) noFiles,
    .work 0 (.start true), .work 0 (.fail "panic"),
    .receive (some (.pcapRequest "job" "token" 0 1)) noFiles,
    .work 0 .fetchEnd, .work 0 .settle, .terminal 0, .send 0]

theorem connection_law_panicRun : ∃ c, exec Connection.step .new panicRun = some c ∧
    c.handed = [(0, ⟨"job", "token", .error "PCAP worker failed: panic"⟩)] ∧ c.Law panicRun := by
  have hrun : (exec Connection.step .new panicRun).map (·.handed) =
      some [(0, ⟨"job", "token", .error "PCAP worker failed: panic"⟩)] := by
    decide +kernel
  obtain ⟨c, hc, hhanded⟩ := Option.map_eq_some_iff.mp hrun
  exact ⟨c, hc, hhanded, connection_law hc⟩

end

end EveBox.Agent
