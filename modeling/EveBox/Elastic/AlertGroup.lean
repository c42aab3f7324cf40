import EveBox.Elastic.Query
import EveBox.Repo.AlertGroup

/-!
# Groups of alerts over Elasticsearch

Reference: `src/elastic/eventrepo/mod.rs`. A query is built as the clauses of its JSON, and the painless scripts are
functions on the source of a document.
-/

namespace EveBox.Elastic

open Rust Eve Repo

/-- `ElasticEventRepo`, as far as the queries depend on it. -/
structure ElasticEventRepo where
  ecs : Bool
deriving DecidableEq, Repr

namespace ElasticEventRepo

/-- The shorthands of `map_field`. -/
def resolveShorthand (name : String) : String :=
  if name = "@sid" then "alert.signature_id" else if name = "@sig" then "alert.signature" else name

/-- `map_field` for ECS. -/
def mapEcsField : String → String
  | "dest_ip" => "destination.address"
  | "dest_port" => "destination.port"
  | "dns.rcode" => "dns.response_code"
  | "dns.rrname" => "dns.question.name"
  | "dns.rrtype" => "dns.question.type"
  | "dns.type" => "dns.type"
  | "host" => "agent.name"
  | "proto" => "network.transport"
  | "src_ip" => "source.address"
  | "src_port" => "source.port"
  | "timestamp" => "@timestamp"
  | name => if "suricata".toList.isPrefixOf name.toList then name else "suricata.eve." ++ name

/-- The fields whose keyword variant is asked for under their own name. -/
def keywordFields : List String := [
  "alert.category", "alert.signature", "anomaly.app_proto", "anomaly.event", "anomaly.layer", "anomaly.type",
  "app_proto", "community_id", "dest_ip", "dhcp.assigned_ip", "dhcp.client_mac", "dns.type", "dns.rcode",
  "dns.rdata", "dns.queries.rrname", "dns.rrtype", "event_type", "host", "http.hostname", "http.http_user_agent",
  "proto", "src_ip", "ssh.client.software_version", "ssh.server.software_version", "quic.sni", "quic.ja4",
  "tls.issuerdn", "tls.sni", "tls.subject", "tls.ja4", "traffic.id", "traffic.label", "mdns.answers.rrname",
  "mdns.queries.rrname"]

/-- `map_field`. -/
def mapField (repo : ElasticEventRepo) (name : String) : String :=
  let name := resolveShorthand name
  if repo.ecs then mapEcsField name
  else if name = "dns.rrname" then "dns.queries.rrname.keyword"
  else if name ∈ keywordFields then name ++ ".keyword"
  else name

/-! ## The query -/

/-- The clause of an address, and what goes to `must_not` for it. -/
def addressClauses (field exists_ : String) : Option String → List Query × List Query
  | some ip => ([.term field (.string ip)], [])
  | none => ([], [.exists_ exists_])

/-- The clause of a sensor. -/
def sensorClauses (repo : ElasticEventRepo) : Option String → List Query
  | some sensor =>
      if sensor = "(no-name)" then [.mustNot (.exists_ (repo.mapField "host"))]
      else [.term (repo.mapField "host") (.string sensor)]
  | none => []

/-- `build_alert_group_filter`: the filter, and what is put into `must_not`. -/
def buildAlertGroupFilter (repo : ElasticEventRepo) (request : AlertGroupSpec) : List Query × List Query :=
  let src := addressClauses (repo.mapField "src_ip") "src_ip" request.srcIp
  let dest := addressClauses (repo.mapField "dest_ip") "dest_ip" request.destIp
  ([.exists_ (repo.mapField "event_type"), .term (repo.mapField "event_type") (.string "alert"),
      .range (repo.mapField "timestamp") request.minTimestamp request.maxTimestamp] ++
    src.1 ++ dest.1 ++
    [.term (repo.mapField "alert.signature_id") (.number (.int request.signatureId))] ++
    (request.dnsRrname.toList.map fun rrname => .term (repo.mapField "dns.queries.rrname") (.string rrname)) ++
    (request.tlsSni.toList.map fun sni => .term (repo.mapField "tls.sni") (.string sni)) ++
    repo.sensorClauses request.sensor,
  src.2 ++ dest.2)

/-! ## The scripts -/

/-- What is null in a source is set to something empty. -/
def ensureAt (source : Json) (path : List String) (empty : Json) : Option Json :=
  if source.getPath path = .null then source.setPath path empty else some source

/-- What both scripts do last: the action is added to the history. -/
def addHistory (action source : Json) : Option Json := do
  let source ← ensureAt source ["evebox"] (.object [])
  let source ← ensureAt source ["evebox", "history"] (.array [])
  let history ← (source.getPath ["evebox", "history"]).asArray
  source.setPath ["evebox", "history"] (.array (history ++ [action]))

/-- The tags that are not there are added to a list. -/
def addMissing (tags : List String) (list : List Json) : List Json :=
  tags.foldl (fun list tag => if list.contains (.string tag) then list else list ++ [.string tag]) list

/-- The script of `add_tags_by_query`. -/
def addTagsScript (tags : List String) (action source : Json) : Option Json := do
  let source ← ensureAt source ["tags"] (.array [])
  let list ← (source.get "tags").asArray
  let source ← source.set "tags" (.array (addMissing tags list))
  addHistory action source

/-- The tags are removed, if there are any. -/
def clearTags (tags : List String) (source : Json) : Option Json :=
  if source.get "tags" = .null then some source
  else (source.get "tags").asArray.bind fun list =>
    source.set "tags" (.array (list.filter fun entry => !tags.any fun tag => entry = .string tag))

/-- The script of `remove_tags_by_query`. -/
def removeTagsScript (tags : List String) (action source : Json) : Option Json := do
  let source ← clearTags tags source
  addHistory action source

/-! ## The operations -/

section

variable (date : String → Option ℤ) (repo : ElasticEventRepo) (docs : List Json) (alertGroup : AlertGroupSpec)

/-- `add_tags_by_alert_group`. -/
def addTagsByAlertGroup (tags : List String) (action : Json) : Option (ℕ × List Json) :=
  let (filter, mustNot) := repo.buildAlertGroupFilter alertGroup
  updateByQuery date docs ⟨filter, (tags.map fun tag => .term "tags" (.string tag)) ++ mustNot⟩
    (addTagsScript tags action)

/-- `remove_tags_by_alert_group`. -/
def removeTagsByAlertGroup (tags : List String) (action : Json) : Option (ℕ × List Json) :=
  let (filters, mustNot) := repo.buildAlertGroupFilter alertGroup
  updateByQuery date docs ⟨filters ++ tags.map fun tag => .term "tags" (.string tag), mustNot⟩
    (removeTagsScript tags action)

/-- `TAGS_ARCHIVED`. -/
def tagsArchived : List String := ["evebox.archived"]

/-- `TAGS_ESCALATED`. -/
def tagsEscalated : List String := ["evebox.escalated"]

variable (lib : TimeLib) (now : DateTime)

/-- `archive_by_alert_group`. -/
def archiveByAlertGroup : Option (ℕ × List Json) :=
  repo.addTagsByAlertGroup date docs alertGroup tagsArchived (historyEntry lib .archived now none)

/-- `escalate_by_alert_group`; `username` is that of the session. -/
def escalateByAlertGroup (username : Option String) : Option (ℕ × List Json) :=
  repo.addTagsByAlertGroup date docs alertGroup tagsEscalated (historyEntry lib .escalated now username)

/-- `deescalate_by_alert_group`. -/
def deescalateByAlertGroup : Option (List Json) :=
  (repo.removeTagsByAlertGroup date docs alertGroup tagsEscalated (historyEntry lib .deescalated now none)).map (·.2)

end

end ElasticEventRepo

end EveBox.Elastic
