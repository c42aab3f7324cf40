import EveBox.Eve.Event

/-!
# The filters of events

Reference: `src/eve/filters.rs`, and `add_geoip_to_eve` of `src/geoip.rs`.

A filter that panics is `none`. What a filter asks others for is its parameter: the cities of addresses, the rules, and
whether an automatic filter matches.
-/

namespace EveBox.Eve

open Rust

/-- The filters. -/
inductive EveFilter
  | ensure
  | alertMetadataEveBoxAction
  /-- `lookup` is the city of an address, if there is one. -/
  | geoIp (lookup : String → Option Json)
  | addAgentFilename (filename : String)
  | addAgentHostname (hostname : String)
  | addAgentId (agentId : String)
  | addField (field : String) (value : Json)
  | addRule (findBySid : ℕ → Option String)
  | autoArchive (isMatch : Json → Bool)

section

/- `entry` is the entry of the history for a cause. -/
variable (entry : String → Json)

/-- `mark_auto_archived`. -/
def markAutoArchived (event : Json) (cause : String) : Option Json := do
  let event ← ensureHasTags event
  let event ← ensureHasEvebox event
  let event ← ensureHasHistory event
  let tags ← (event.get "tags").asArray
  let event ← event.set "tags" (.array (tags ++ [.string "evebox.archived", .string "evebox.auto-archived"]))
  let history ← (event.getPath ["evebox", "history"]).asArray
  event.setPath ["evebox", "history"] (.array (history ++ [entry cause]))

/-- `EnsureFilter`. -/
def ensure (event : Json) : Option Json := do
  let event ← ensureHasHistory event
  let event ← ensureHasTags event
  ensureHasEvebox event

/-- A city is added for the address in a field. -/
def addCity (lookup : String → Option Json) (field target : String) (event : Json) : Option Json :=
  match (event.get field).asStr.bind lookup with
  | some city => event.set target city
  | none => some event

/-- `add_geoip_to_eve`. -/
def addGeoIpToEve (lookup : String → Option Json) (event : Json) : Option Json := do
  let event ← addCity lookup "dest_ip" "geoip_destination" event
  addCity lookup "src_ip" "geoip_source" event

/-- `AddAgentFilenameFilter`, `AddAgentHostnameFilter` and `AddAgentIdFilter`. -/
def addAgent (key value : String) (event : Json) : Option Json := event.setPath ["evebox", "agent", key] (.string value)

/-- `AddRuleFilter`. -/
def addRule (findBySid : ℕ → Option String) (event : Json) : Option Json :=
  if (event.getPath ["alert", "rule"]).asStr.isSome then some event
  else
    match (event.getPath ["alert", "signature_id"]).asU64.bind findBySid with
    | some rule => event.setPath ["alert", "rule"] (.string rule)
    | none => some event

/-- `AlertMetadataEveBoxActionFilter`. -/
def alertMetadataEveBoxAction (event : Json) : Option Json :=
  if hasTag event "evebox.archived" then some event
  else
    match (event.getPath ["alert", "metadata", "evebox-action"]).asArray with
    | some action => if action.contains (.string "archive") then markAutoArchived entry event "metadata" else some event
    | none => some event

/-- `AutoArchiveFilter`. -/
def autoArchive (isMatch : Json → Bool) (event : Json) : Option Json :=
  if event.get "event_type" ≠ .string "alert" ∨ hasTag event "evebox.archived" then some event
  else if isMatch event then markAutoArchived entry event "filter"
  else some event

/-- `EveFilterTrait::run`. -/
def EveFilter.run (filter : EveFilter) (event : Json) : Option Json :=
  match filter with
  | ensure => Eve.ensure event
  | alertMetadataEveBoxAction => Eve.alertMetadataEveBoxAction entry event
  | geoIp lookup => addGeoIpToEve lookup event
  | addAgentFilename filename => addAgent "filename" filename event
  | addAgentHostname hostname => addAgent "hostname" hostname event
  | addAgentId agentId => addAgent "id" agentId event
  | addField field value => event.set field value
  | addRule findBySid => Eve.addRule findBySid event
  | autoArchive isMatch => Eve.autoArchive entry isMatch event

/-- `EveFilterChain::run`. -/
def runFilters (filters : List EveFilter) (event : Json) : Option Json :=
  filters.foldlM (fun event filter => filter.run entry event) event

end

/-- `EveFilterChain::with_defaults`, and the filters that are added to it. -/
def withDefaults (more : List EveFilter) : List EveFilter := .ensure :: .alertMetadataEveBoxAction :: more

end EveBox.Eve
