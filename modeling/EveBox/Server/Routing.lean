import EveBox.Rust.Json
import EveBox.Server.AgentsTheorems
import Mathlib.Data.List.Sort
import Mathlib.Data.String.Basic

/-!
# Routing of capture requests

Reference: `src/server/pcap/mod.rs`, and `pcap_agents` of `src/server/agents.rs`.

The local capture input is a value of a type of its own, since routing does not look into it.
-/

namespace EveBox.Server

open Rust Transition

/-! ## The registry and the table -/

/-- `AgentRegistry::pcap_agents`. -/
def AgentRegistry.pcapAgents {μ : Type*} (r : AgentRegistry μ) : List AgentEntry :=
  ((r.agents.entries.map Sigma.snd).filter fun entry =>
    entry.supports capabilityPcap && entry.name ≠ localPcapSourceName).insertionSort fun a b => a.name ≤ b.name

/-- `PcapRoutingRule`. -/
structure PcapRoutingRule where
  sensor : String
  source : String
deriving DecidableEq, Repr

/-- `PcapRouting`. -/
structure PcapRouting where
  rules : List PcapRoutingRule
  default : Option String
deriving DecidableEq, Repr

/-- `PcapRouting::is_empty`. -/
def PcapRouting.isEmpty (r : PcapRouting) : Bool := r.rules.isEmpty && r.default.isNone

/-- `ResolvedPcapSource`. -/
inductive ResolvedPcapSource (τ : Type*)
  | localSpool (source : τ)
  | agent (entry : AgentEntry)
deriving DecidableEq, Repr

/-- `ResolvedPcapSource::name`. -/
def ResolvedPcapSource.name {τ : Type*} : ResolvedPcapSource τ → String
  | .localSpool _ => localPcapSourceName
  | .agent entry => entry.name

/-- `RouteError`. -/
inductive RouteError
  | noSource (name : Option String)
  | ambiguous (names : List String)
  | noRule (identity : Option String)
deriving DecidableEq, Repr

/-- `PcapService`, as far as routing reads it. -/
structure PcapService (τ : Type*) where
  source : Option τ
  routing : PcapRouting

/-! ## The event -/

/-- `sensor_identity`. -/
def sensorIdentity (source : Json) : Option String :=
  (source.get "host").asStr <|> (source.getPath ["agent", "name"]).asStr <|> (source.getPath ["host", "name"]).asStr

/-- `stamped_agent_id`. -/
def stampedAgentId (source : Json) : Option String := (source.getPath ["evebox", "agent", "id"]).asStr

/-- `agent_hostname`. -/
def agentHostname (source : Json) : Option String := (source.getPath ["evebox", "agent", "hostname"]).asStr

/-! ## Routing -/

section

variable {μ τ : Type*} (svc : PcapService τ) (agents : AgentRegistry μ)

/-- `PcapService::local_source`. -/
def PcapService.localSource : Option (ResolvedPcapSource τ) := svc.source.map .localSpool

/-- `PcapService::source_by_name`. -/
def PcapService.sourceByName (name : String) : Option (ResolvedPcapSource τ) :=
  if name = localPcapSourceName then svc.localSource else (agents.pcapAgent name).map .agent

/-- The source of a name, which has to be there. -/
def PcapService.named (name : String) : Except RouteError (ResolvedPcapSource τ) :=
  match svc.sourceByName agents name with
  | some source => .ok source
  | none => .error (.noSource (some name))

/-- What the table says: the source of the first rule of the sensor, else the default. -/
def PcapRouting.target (routing : PcapRouting) (identity : Option String) : Option String :=
  ((routing.rules.find? fun rule => identity = some rule.sensor).map (·.source)).or routing.default

/-- The names of some sources, sorted. -/
def sortedNames (sources : List (ResolvedPcapSource τ)) : List String :=
  (sources.map ResolvedPcapSource.name).insertionSort (· ≤ ·)

/-- The one source there is. -/
def theOne (sources : List (ResolvedPcapSource τ)) (missing : Option String) :
    Except RouteError (ResolvedPcapSource τ) :=
  match sources with
  | [] => .error (.noSource missing)
  | [source] => .ok source
  | sources => .error (.ambiguous (sortedNames sources))

/-- The agents of a host. -/
def hostAgents (hostname : String) : List (ResolvedPcapSource τ) :=
  (agents.pcapAgents.filter fun entry => entry.hostname = hostname).map .agent

/-- All sources: the local one, and the agents. -/
def PcapService.allSources : List (ResolvedPcapSource τ) :=
  svc.localSource.toList ++ agents.pcapAgents.map .agent

/-- `resolve_source`, without a table. -/
def PcapService.resolveImplicit (event : Option Json) : Except RouteError (ResolvedPcapSource τ) :=
  let identity := event.bind sensorIdentity
  match identity.bind agents.pcapAgent with
  | some entry => .ok (.agent entry)
  | none =>
      match event.bind stampedAgentId with
      | some id =>
          match agents.pcapAgent id with
          | some entry => .ok (.agent entry)
          | none => .error (.noSource (some id))
      | none =>
          match event.bind agentHostname with
          | some hostname => theOne (hostAgents agents hostname) (identity.or (some hostname))
          | none =>
              match event.bind fun _ => svc.localSource with
              | some source => .ok source
              | none =>
                  match identity with
                  | some name => .error (.noSource (some name))
                  | none => theOne (svc.allSources agents) none

/-- `PcapService::resolve_source`. -/
def PcapService.resolveSource (event : Option Json) (explicit : Option String) :
    Except RouteError (ResolvedPcapSource τ) :=
  match explicit with
  | some name => svc.named agents name
  | none =>
      if svc.routing.isEmpty then svc.resolveImplicit agents event
      else
        match svc.routing.target (event.bind sensorIdentity) with
        | some name => svc.named agents name
        | none => .error (.noRule (event.bind sensorIdentity))

/-! ## The routing law -/

/-- What tells a source is used up: there is neither an explicit name nor a table, and no agent of the sensor's name or
of a stamped id. -/
def Undecided (event : Option Json) (explicit : Option String) : Prop :=
  explicit = none ∧ svc.routing.isEmpty = true ∧ (event.bind sensorIdentity).bind agents.pcapAgent = none ∧
    event.bind stampedAgentId = none

/-- The sources that remain where nothing tells one: the agents of the stamped host; for a request without an event, or
an event without an identity that is not for the local spool, all there are. -/
def candidates (event : Option Json) : List (ResolvedPcapSource τ) :=
  match event.bind agentHostname with
  | some hostname => hostAgents agents hostname
  | none =>
      if event.isSome ∧ (svc.source.isSome ∨ (event.bind sensorIdentity).isSome) then []
      else svc.allSources agents

/-- The promises of the routing. -/
structure RoutingLaw (event : Option Json) (explicit : Option String)
    (result : Except RouteError (ResolvedPcapSource τ)) : Prop where
  /-- An explicit name always wins. -/
  named : ∀ name, explicit = some name → result = svc.named agents name
  /-- In a table the first rule of the sensor decides. -/
  rule : ∀ before rule after, explicit = none → svc.routing.rules = before ++ rule :: after →
    event.bind sensorIdentity = some rule.sensor → (∀ r ∈ before, r.sensor ≠ rule.sensor) →
    result = svc.named agents rule.source
  /-- Without a rule for the sensor it is the default of the table that decides, and nothing else does. -/
  default : explicit = none → svc.routing.isEmpty = false →
    (∀ r ∈ svc.routing.rules, event.bind sensorIdentity ≠ some r.sensor) →
    result = match svc.routing.default with
      | some name => svc.named agents name
      | none => .error (.noRule (event.bind sensorIdentity))
  /-- Without a table, a stamped event is not served by the local spool, and by another agent only if the sensor has
  its name. -/
  stamped : explicit = none → svc.routing.isEmpty = true →
    (event.bind stampedAgentId).isSome ∨ (event.bind agentHostname).isSome → ∀ source, result = .ok source →
    ∃ entry, source = .agent entry ∧ (event.bind sensorIdentity = some entry.name ∨
      event.bind stampedAgentId = some entry.name ∨
      event.bind stampedAgentId = none ∧ event.bind agentHostname = some entry.hostname)
  /-- An agent that is chosen is connected, serves captures and does not have the reserved name. -/
  eligible : ∀ entry, result = .ok (.agent entry) → agents.agents.lookup entry.name = some entry ∧
    entry.supports capabilityPcap = true ∧ entry.name ≠ localPcapSourceName
  /-- The choice is ambiguous exactly if several candidates remain, and these are listed. -/
  ambiguous : ∀ names, result = .error (.ambiguous names) ↔
    Undecided svc agents event explicit ∧ 2 ≤ (candidates svc agents event).length ∧
      names = sortedNames (candidates svc agents event)

end

section

variable {μ τ : Type*} {svc : PcapService τ} {agents : AgentRegistry μ} {event : Option Json}
variable {explicit : Option String} {source : ResolvedPcapSource τ} {entry : AgentEntry} {name : String}

/-- Names and entries agree, as in every registry that is reached. -/
def Keyed (agents : AgentRegistry μ) : Prop := ∀ name e, agents.agents.lookup name = some e → e.name = name

/-- The agent is connected, serves captures and does not have the reserved name. -/
def Eligible (agents : AgentRegistry μ) (entry : AgentEntry) : Prop :=
  agents.agents.lookup entry.name = some entry ∧ entry.supports capabilityPcap = true ∧
    entry.name ≠ localPcapSourceName

theorem pcapAgent_some (hkeyed : Keyed agents) (h : agents.pcapAgent name = some entry) :
    entry.name = name ∧ Eligible agents entry := by
  unfold AgentRegistry.pcapAgent at h
  split at h
  · cases h
  · rename_i hname
    obtain ⟨hlookup, hsupports⟩ := Option.filter_eq_some_iff.mp h
    have heq := hkeyed name entry hlookup
    exact ⟨heq, heq.symm ▸ hlookup, hsupports, heq.symm ▸ hname⟩

theorem mem_pcapAgents (hkeyed : Keyed agents) (h : entry ∈ agents.pcapAgents) : Eligible agents entry := by
  unfold AgentRegistry.pcapAgents at h
  rw [List.mem_insertionSort, List.mem_filter, List.mem_map, Bool.and_eq_true, decide_eq_true_eq] at h
  obtain ⟨⟨⟨name, e⟩, hmem, rfl⟩, hsupports, hname⟩ := h
  have hlookup : agents.agents.lookup name = some e := AList.mem_lookup_iff.mpr hmem
  have heq := hkeyed name e hlookup
  exact ⟨heq.symm ▸ hlookup, hsupports, hname⟩

theorem named_agent (hkeyed : Keyed agents) (h : svc.named agents name = .ok (.agent entry)) :
    Eligible agents entry := by
  unfold PcapService.named PcapService.sourceByName at h
  split at h
  · rename_i source hsource
    obtain rfl := Except.ok.inj h
    split at hsource
    · obtain ⟨_, -, hlocal⟩ := Option.map_eq_some_iff.mp hsource
      cases hlocal
    · obtain ⟨e, he, heq⟩ := Option.map_eq_some_iff.mp hsource
      cases heq
      exact (pcapAgent_some hkeyed he).2
  · cases h

theorem named_not_ambiguous (names : List String) : svc.named agents name ≠ .error (.ambiguous names) := by
  unfold PcapService.named
  split <;> simp

theorem theOne_ok {sources : List (ResolvedPcapSource τ)} {missing : Option String}
    (h : theOne sources missing = .ok source) : source ∈ sources := by
  unfold theOne at h
  split at h
  · cases h
  · obtain rfl := Except.ok.inj h
    exact List.mem_singleton_self _
  · cases h

theorem theOne_ambiguous_iff {sources : List (ResolvedPcapSource τ)} {missing : Option String} {names : List String} :
    theOne sources missing = .error (.ambiguous names) ↔ 2 ≤ sources.length ∧ names = sortedNames sources := by
  unfold theOne
  split
  · simp
  · simp
  · rename_i hnil hone
    have hlength : 2 ≤ sources.length := by
      match sources with
      | [] => exact absurd rfl hnil
      | [s] => exact absurd rfl (hone s)
      | _ :: _ :: _ => simp
    simp [hlength, eq_comm]

theorem mem_hostAgents {hostname : String} (hkeyed : Keyed agents) (h : source ∈ hostAgents agents hostname) :
    ∃ entry, source = .agent entry ∧ entry.hostname = hostname ∧ Eligible agents entry := by
  obtain ⟨entry, hentry, rfl⟩ := List.mem_map.mp h
  obtain ⟨hmem, hhost⟩ := List.mem_filter.mp hentry
  exact ⟨entry, rfl, of_decide_eq_true hhost, mem_pcapAgents hkeyed hmem⟩

/-- Where the agent of the sensor, of the stamp or of the host comes from. -/
theorem resolveImplicit_ok (hkeyed : Keyed agents) (h : svc.resolveImplicit agents event = .ok source) :
    (∃ entry, source = .agent entry ∧ Eligible agents entry ∧ (event.bind sensorIdentity = some entry.name ∨
      event.bind stampedAgentId = some entry.name ∨
      event.bind stampedAgentId = none ∧ event.bind agentHostname = some entry.hostname)) ∨
    event.bind stampedAgentId = none ∧ event.bind agentHostname = none ∧
      (source ∈ svc.localSource ∨ source ∈ svc.allSources agents) := by
  unfold PcapService.resolveImplicit at h
  dsimp only at h
  split at h
  · rename_i entry hentry
    obtain rfl := Except.ok.inj h
    obtain ⟨name, hname, hagent⟩ := Option.bind_eq_some_iff.mp hentry
    obtain ⟨heq, heligible⟩ := pcapAgent_some hkeyed hagent
    exact .inl ⟨entry, rfl, heligible, .inl (heq.symm ▸ hname)⟩
  · split at h
    · rename_i id hid
      split at h
      · rename_i entry hagent
        obtain rfl := Except.ok.inj h
        obtain ⟨heq, heligible⟩ := pcapAgent_some hkeyed hagent
        exact .inl ⟨entry, rfl, heligible, .inr (.inl (heq.symm ▸ hid))⟩
      · cases h
    · rename_i hid
      split at h
      · rename_i hostname hhost
        obtain ⟨entry, rfl, heq, heligible⟩ := mem_hostAgents hkeyed (theOne_ok h)
        exact .inl ⟨entry, rfl, heligible, .inr (.inr ⟨hid, heq.symm ▸ hhost⟩)⟩
      · rename_i hhost
        refine .inr ⟨hid, hhost, ?_⟩
        split at h
        · rename_i s hs
          obtain rfl := Except.ok.inj h
          obtain ⟨_, -, hlocal⟩ := Option.bind_eq_some_iff.mp hs
          exact .inl hlocal
        · split at h
          · cases h
          · exact .inr (theOne_ok h)

theorem eligible_of_mem_allSources (hkeyed : Keyed agents)
    (h : (.agent entry : ResolvedPcapSource τ) ∈ svc.allSources agents) : Eligible agents entry := by
  unfold PcapService.allSources PcapService.localSource at h
  rcases List.mem_append.mp h with hlocal | hagent
  · obtain ⟨_, -, heq⟩ := Option.map_eq_some_iff.mp (Option.mem_toList.mp hlocal)
    cases heq
  · obtain ⟨e, he, heq⟩ := List.mem_map.mp hagent
    cases heq
    exact mem_pcapAgents hkeyed he

/-- Without a table the choice is ambiguous exactly if several candidates remain. -/
theorem resolveImplicit_ambiguous_iff (names : List String) :
    svc.resolveImplicit agents event = .error (.ambiguous names) ↔
      ((event.bind sensorIdentity).bind agents.pcapAgent = none ∧ event.bind stampedAgentId = none) ∧
        2 ≤ (candidates svc agents event).length ∧ names = sortedNames (candidates svc agents event) := by
  unfold PcapService.resolveImplicit
  dsimp only
  split
  · rename_i entry hentry
    simp [hentry]
  · rename_i hidentity
    split
    · rename_i id hid
      simp only [hid, reduceCtorEq, and_false, false_and, iff_false]
      split <;> simp
    · rename_i hid
      simp only [hidentity, hid, and_self, true_and]
      unfold candidates
      split
      · exact theOne_ambiguous_iff
      · split
        · rename_i s hs
          obtain ⟨e, he, hlocal⟩ := Option.bind_eq_some_iff.mp hs
          obtain ⟨t, ht, -⟩ := Option.map_eq_some_iff.mp hlocal
          simp [he, ht]
        · rename_i hs
          split
          · rename_i name hname
            have hevent : event.isSome := by
              obtain ⟨e, he, -⟩ := Option.bind_eq_some_iff.mp hname
              simp [he]
            simp [hname, hevent]
          · rename_i hname
            have hno : ¬ (event.isSome ∧ (svc.source.isSome ∨ (event.bind sensorIdentity).isSome)) := by
              rintro ⟨hevent, hsource | hidentity'⟩
              · obtain ⟨e, he⟩ := Option.isSome_iff_exists.mp hevent
                obtain ⟨t, ht⟩ := Option.isSome_iff_exists.mp hsource
                simp [he, PcapService.localSource, ht] at hs
              · simp [hname] at hidentity'
            rw [if_neg hno]
            exact theOne_ambiguous_iff

theorem target_of_first {routing : PcapRouting} {before after : List PcapRoutingRule} {rule : PcapRoutingRule}
    (hrules : routing.rules = before ++ rule :: after) (hbefore : ∀ r ∈ before, r.sensor ≠ rule.sensor) :
    routing.target (some rule.sensor) = some rule.source := by
  have hnone : before.find? (fun r => some rule.sensor = some r.sensor) = none := by
    rw [List.find?_eq_none]
    intro r hr heq
    exact hbefore r hr (Option.some.inj (of_decide_eq_true heq)).symm
  have hfirst : (routing.rules.find? fun r => some rule.sensor = some r.sensor) = some rule := by
    rw [hrules, List.find?_append, hnone]
    simp
  rw [PcapRouting.target, hfirst]
  rfl

/-- Whatever agents have come and gone, the routing keeps its promises. -/
theorem resolveSource_law {as : List (AgentsOp μ)} {s : AgentsState μ}
    (h : exec AgentsState.step (.new μ) as = some s) (svc : PcapService τ) (event : Option Json)
    (explicit : Option String) :
    RoutingLaw svc s.registry event explicit (svc.resolveSource s.registry event explicit) := by
  have hkeyed : Keyed s.registry :=
    (invariant (fun _ _ _ inv h => TableInv.step inv h) .new h : TableInv s).names
  constructor
  · rintro name rfl
    rfl
  · rintro before rule after rfl hrules hidentity hbefore
    have hne : svc.routing.isEmpty = false := by simp [PcapRouting.isEmpty, hrules]
    simp only [PcapService.resolveSource, hne, hidentity, target_of_first hrules hbefore]
    rfl
  · rintro rfl hne hrules
    have htarget : svc.routing.target (event.bind sensorIdentity) = svc.routing.default := by
      have hnone : (svc.routing.rules.find? fun rule => event.bind sensorIdentity = some rule.sensor) = none := by
        rw [List.find?_eq_none]
        intro r hr heq
        exact hrules r hr (of_decide_eq_true heq)
      simp [PcapRouting.target, hnone]
    simp only [PcapService.resolveSource, hne, htarget]
    rfl
  · rintro rfl hempty hstamp source hsource
    simp only [PcapService.resolveSource, hempty, if_true] at hsource
    rcases resolveImplicit_ok hkeyed hsource with ⟨entry, rfl, -, hwhy⟩ | ⟨hid, hhost, -⟩
    · exact ⟨entry, rfl, hwhy⟩
    · simp [hid, hhost] at hstamp
  · intro entry hentry
    unfold PcapService.resolveSource at hentry
    split at hentry
    · exact named_agent hkeyed hentry
    · split at hentry
      · rcases resolveImplicit_ok hkeyed hentry with ⟨e, heq, heligible, -⟩ | ⟨-, -, hlocal | hall⟩
        · cases heq
          exact heligible
        · obtain ⟨_, -, heq⟩ := Option.map_eq_some_iff.mp hlocal
          cases heq
        · exact eligible_of_mem_allSources hkeyed hall
      · split at hentry
        · exact named_agent hkeyed hentry
        · cases hentry
  · intro names
    unfold PcapService.resolveSource Undecided
    split
    · simp [named_not_ambiguous]
    · split
      · rename_i hempty
        rw [resolveImplicit_ambiguous_iff]
        simp [hempty]
      · rename_i hempty
        rw [iff_false_right fun hcand => hempty hcand.1.2.1]
        split
        · exact named_not_ambiguous names
        · simp

/-- Two agents of one host. -/
def sampleAgents : List (AgentsOp ℕ) := [
  .register ⟨"sensor-a", "host", "1", ["pcap"]⟩ none, .register ⟨"sensor-b", "host", "1", ["pcap"]⟩ none]

theorem resolveSource_law_sampleAgents : ∃ s, exec AgentsState.step (.new ℕ) sampleAgents = some s ∧
    RoutingLaw (⟨some 0, [], none⟩ : PcapService ℕ) s.registry none none
      (PcapService.resolveSource ⟨some 0, [], none⟩ s.registry none none) := by
  have hsome : (exec AgentsState.step (.new ℕ) sampleAgents).isSome = true := by decide +kernel
  obtain ⟨s, hs⟩ := Option.isSome_iff_exists.mp hsome
  exact ⟨s, hs, resolveSource_law hs _ none none⟩

end

end EveBox.Server
