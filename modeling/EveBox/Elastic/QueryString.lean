import EveBox.Elastic.AlertGroup
import EveBox.Lib.BoolClauses
import EveBox.Repo.QueryParser

/-!
# Query strings over Elasticsearch

Reference: `src/elastic/eventrepo/mod.rs`, `events.rs` and `alerts.rs`, and `src/elastic/request.rs`. The clauses of the
elements go to three lists, which the callers put into one bool query each in its own way.
-/

namespace EveBox.Elastic

open Rust Eve Repo

/-! ## Clauses -/

/-- A clause without clauses of its own. What it says of a document is Elasticsearch's. -/
inductive Leaf
  /-- `{"query_string": {"default_operator": "AND", "query": query, "lenient": true}}`. -/
  | queryString (query : String)
  /-- `{"multi_match": {"query": query, "type": "most_fields"}}`. -/
  | multiMatch (query : String)
  | term (field value : String)
  | exists_ (field : String)
  /-- `{"range": {field: {op: value}}}`. -/
  | range (field op value : String)
deriving DecidableEq, Repr

/-- A clause as the elements of a query need it. -/
inductive Clause
  | leaf (leaf : Leaf)
  /-- `{"bool": {"should": leaves}}`. -/
  | should (leaves : List Leaf)
  /-- `{"bool": {"must_not": leaf}}`. -/
  | mustNot (leaf : Leaf)
deriving DecidableEq, Repr

/-- Whether a document matches a clause; `holds` says which leaves it matches. -/
def Clause.matches (holds : Leaf → Bool) : Clause → Bool
  | leaf l => holds l
  | should leaves => (⟨[], [], leaves, none⟩ : BoolClauses Leaf).accepts holds
  | mustNot l => (⟨[], [l], [], none⟩ : BoolClauses Leaf).accepts holds

/-- A backslash before every `c`. -/
def escapeChar (c : Char) (text : List Char) : List Char := text.flatMap fun d => if d = c then ['\\', d] else [d]

/-- The escaping of `query_string_query`. -/
def escapeQuery (text : List Char) : List Char :=
  ['\\', ':', '!', '/', '(', ')', '[', ']', '<', '>'].foldl (fun text c => escapeChar c text) text

/-- `query_string_query`. -/
def queryStringQuery (queryString : String) : Leaf := .queryString (String.ofList (escapeQuery queryString.toList))

/-- The three vectors that `apply_query_string` fills. -/
structure Clauses where
  filter : List Clause := []
  should : List Clause := []
  mustNot : List Clause := []
deriving DecidableEq, Repr

namespace Clauses

def pushFilter (clauses : Clauses) (c : Clause) : Clauses := { clauses with filter := clauses.filter ++ [c] }

def pushMustNot (clauses : Clauses) (c : Clause) : Clauses := { clauses with mustNot := clauses.mustNot ++ [c] }

/-- The clause of an element that may be negated. -/
def push (clauses : Clauses) (negated : Bool) (c : Clause) : Clauses :=
  if negated then clauses.pushMustNot c else clauses.pushFilter c

/-- The query of the callers that ask for one of the `should` clauses, where there are some. -/
def withShould (clauses : Clauses) : BoolClauses Clause :=
  if clauses.should.isEmpty then ⟨clauses.filter, clauses.mustNot, [], none⟩
  else ⟨clauses.filter, clauses.mustNot, clauses.should, some 1⟩

end Clauses

namespace ElasticEventRepo

/-! ## Elements -/

section

variable (repo : ElasticEventRepo) (lib : TimeLib)

/-- The fields of `@ip`. -/
def ipFields : List String := [
  "src_ip", "dest_ip", "dhcp.assigned_ip", "dhcp.client_ip", "dhcp.next_server_ip", "dhcp.routers",
  "dhcp.relay_ip", "dhcp.subnet_mask"]

/-- The term clauses of `@ip`. -/
def ipTerms (v : String) : List Leaf := ipFields.map fun field => .term (repo.mapField field) v

/-- The clause of a key that is handled like no other. -/
def keyClause (k v : String) : Clause :=
  let mappedField := repo.mapField k
  if mappedField = "dns.queries.rrname.keyword" then
    .should [.term "dns.queries.rrname.keyword" v, .term "dns.rrname.keyword" v]
  else .leaf (.term mappedField v)

/-- The clause of `dns.type`. -/
def dnsTypeClause (k v : String) : Clause :=
  if v = "query" ∨ v = "request" then
    .should [.term (repo.mapField k) "query", .term (repo.mapField k) "request"]
  else if v = "answer" ∨ v = "response" then
    .should [.term (repo.mapField k) "answer", .term (repo.mapField k) "response"]
  else .leaf (.term (repo.mapField k) v)

/-- `apply_query_string` on a key and a value. -/
def applyKeyValue (negated : Bool) (k v : String) (clauses : Clauses) : Clauses :=
  if k = "@mac" then clauses.pushFilter (.leaf (.multiMatch v))
  else if k = "@ip" then
    if negated then { clauses with mustNot := clauses.mustNot ++ (repo.ipTerms v).map .leaf }
    else { clauses with should := clauses.should ++ (repo.ipTerms v).map .leaf }
  else if k = "dns.type" then clauses.push negated (repo.dnsTypeClause k v)
  else if k = "host" then
    if v = "(no-name)" then
      clauses.pushFilter
        (if negated then .leaf (.exists_ (repo.mapField "host")) else .mustNot (.exists_ (repo.mapField "host")))
    else clauses.push negated (.leaf (.term (repo.mapField "host") v))
  else clauses.push negated (repo.keyClause k v)

/-- The clause of a time, `timestamp_gte_filter` and its like. -/
def timestampFilter (op : String) (ts : DateTime) : Clause := .leaf (.range "@timestamp" op (ts.toElastic lib))

/-- The term of a tag. -/
def tagTerm (tag : String) : Clause := .leaf (.term "tags" tag)

/-- The turn of `apply_query_string` for an element. -/
def applyElement (clauses : Clauses) (el : QueryElement) : Clauses :=
  match el.value with
  | .string v => clauses.push el.negated (.leaf (queryStringQuery v))
  | .keyValue k v => repo.applyKeyValue el.negated k v clauses
  | .fromTime ts => clauses.pushFilter (timestampFilter lib "gte" ts)
  | .toTime ts => clauses.pushFilter (timestampFilter lib "lte" ts)
  | .after ts => clauses.pushFilter (timestampFilter lib "gt" ts)
  | .before ts => clauses.pushFilter (timestampFilter lib "lt" ts)
  | .archived => clauses.push el.negated (tagTerm "evebox.archived")
  | .escalated => clauses.push el.negated (tagTerm "evebox.escalated")

/-- `apply_query_string`. -/
def applyQueryString (q : List QueryElement) (clauses : Clauses) : Clauses := q.foldl (repo.applyElement lib) clauses

/-! ## Callers -/

/-- The clause of a sensor. -/
def sensorFilter : Option String → List Clause
  | some sensor =>
      if sensor = "(no-name)" then [.mustNot (.exists_ (repo.mapField "host"))]
      else [.leaf (.term (repo.mapField "host") sensor)]
  | none => []

/-- `EventQueryParams`, without the query string and what is not about matching. -/
structure EventQueryParams where
  fromTime : Option DateTime
  toTime : Option DateTime
  eventType : Option String
  sensor : Option String
deriving DecidableEq, Repr

/-- The query of `events`. -/
def eventsQuery (params : EventQueryParams) (q : List QueryElement) : BoolClauses Clause :=
  let filters := [.leaf (.exists_ (repo.mapField "event_type"))] ++
    (params.eventType.toList.map fun eventType => .leaf (.term (repo.mapField "event_type") eventType)) ++
    repo.sensorFilter params.sensor
  let clauses := repo.applyQueryString lib q { filter := filters }
  Clauses.withShould { clauses with
    filter := clauses.filter ++ (params.fromTime.toList.map (timestampFilter lib "gte")) ++
      params.toTime.toList.map (timestampFilter lib "lte") }

/-- The query of `agg`. -/
def aggQuery (q : List QueryElement) : BoolClauses Clause :=
  Clauses.withShould
    ((repo.applyQueryString lib q {}).pushFilter (.leaf (.exists_ (repo.mapField "event_type"))))

/-- The query of `histogram_time`. -/
def histogramTimeQuery (q : List QueryElement) : BoolClauses Clause :=
  let clauses := repo.applyQueryString lib q { filter := [.leaf (.exists_ (repo.mapField "event_type"))] }
  ⟨clauses.filter, clauses.mustNot, [], none⟩

/-- `AlertQueryOptions`, without the timeout. -/
structure AlertQueryOptions where
  timestampGte : Option DateTime
  queryString : Option String
  tags : List String
  sensor : Option String
deriving DecidableEq, Repr

/-- `str::strip_prefix` with a minus sign. -/
def stripMinus (tag : String) : Option String :=
  match tag.toList with
  | '-' :: tag => some (String.ofList tag)
  | _ => none

/-- The clause of a tag of the options. -/
def pushTag (clauses : Clauses) (tag : String) : Clauses :=
  match stripMinus tag with
  | some tag => clauses.pushMustNot (tagTerm tag)
  | none => clauses.pushFilter (tagTerm tag)

/-- An element that sets the least timestamp. -/
def isFrom (el : QueryElement) : Bool :=
  match el.value with
  | .fromTime _ => true
  | _ => false

/-- The query of `build_inbox_query` for the elements of the query string. -/
def inboxQuery (options : AlertQueryOptions) (q : List QueryElement) : BoolClauses Clause :=
  let clauses := repo.applyQueryString lib q {}
  let clauses := { clauses with
    filter := clauses.filter ++ [.leaf (.exists_ (repo.mapField "event_type")),
        .leaf (.term (repo.mapField "event_type") "alert")] ++ repo.sensorFilter options.sensor ++
      if q.any isFrom then [] else options.timestampGte.toList.map (timestampFilter lib "gte") }
  Clauses.withShould (options.tags.foldl pushTag clauses)

/-- `build_inbox_query`. A query string that is not one counts for none. -/
def buildInboxQuery (options : AlertQueryOptions) : BoolClauses Clause :=
  match options.queryString with
  | none => repo.inboxQuery lib options []
  | some q =>
      match parse lib none q with
      | .ok elements => repo.inboxQuery lib options elements
      | .error _ => repo.inboxQuery lib options []

end

end ElasticEventRepo

end EveBox.Elastic
