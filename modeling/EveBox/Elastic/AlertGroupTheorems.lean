import EveBox.Elastic.ScriptTheorems
import EveBox.Rust.Result

/-!
# The rule of membership over Elasticsearch

The query of an operation is compared with the rule on every document. They differ where an address is not given.
-/

namespace EveBox.Elastic

open Rust Eve Repo ElasticEventRepo

/-! ## The rule -/

/-- A document has a term. -/
def hasTerm (doc : Json) (field : String) (value : Json) : Bool := (fieldValues doc field).contains value

/-- A document has no value at a field, or the empty string. -/
def hasNoText (doc : Json) (field : String) : Bool := fieldValues doc field = [] || hasTerm doc field (.string "")

/-- What Elasticsearch can tell of an event. -/
def view (repo : ElasticEventRepo) (doc : Json) : AlertView where
  isAlert := hasTerm doc (repo.mapField "event_type") (.string "alert")
  hasSignatureId n := hasTerm doc (repo.mapField "alert.signature_id") (.number (.int n))
  hasSrcIp ip := hasTerm doc (repo.mapField "src_ip") (.string ip)
  noSrcIp := hasNoText doc (repo.mapField "src_ip")
  hasDestIp ip := hasTerm doc (repo.mapField "dest_ip") (.string ip)
  noDestIp := hasNoText doc (repo.mapField "dest_ip")
  hasSensor sensor := if sensor = "(no-name)" then fieldValues doc (repo.mapField "host") = []
    else hasTerm doc (repo.mapField "host") (.string sensor)
  hasDnsRrname rrname := hasTerm doc (repo.mapField "dns.queries.rrname") (.string rrname)
  hasTlsSni sni := hasTerm doc (repo.mapField "tls.sni") (.string sni)
  archived := hasTerm doc "tags" (.string "evebox.archived")
  escalated := hasTerm doc "tags" (.string "evebox.escalated")

/-- The tag that stands for the state. -/
def stateTag : GroupOperation → String
  | .archive => "evebox.archived"
  | .escalate => "evebox.escalated"
  | .deescalate => "evebox.escalated"

/-- Who the history names. -/
def historyUser (username : Option String) : GroupOperation → Option String
  | .archive => none
  | .escalate => username
  | .deescalate => none

section

variable (date : String → Option ℤ) (repo : ElasticEventRepo) (op : GroupOperation) (spec : AlertGroupSpec)
variable (lib : TimeLib) (now : DateTime) (username : Option String)

/-- The document is in the time range of the group. -/
def inRange (doc : Json) : Bool :=
  (Query.range (repo.mapField "timestamp") spec.minTimestamp spec.maxTimestamp).matches date doc

/-- The documents that the rule selects for an operation. -/
def ruleSelects (doc : Json) : Bool :=
  (view repo doc).member spec && (view repo doc).open op && inRange date repo spec doc

/-- An operation of the code. -/
def runGroupOperation (docs : List Json) : Option (List Json) :=
  match op with
  | .archive => (repo.archiveByAlertGroup date docs spec lib now).map (·.2)
  | .escalate => (repo.escalateByAlertGroup date docs spec lib now username).map (·.2)
  | .deescalate => repo.deescalateByAlertGroup date docs spec lib now

/-- The entry that an operation leaves in the history. -/
def operationEntry : Json := historyEntry lib op.history now (historyUser username op)

/-- An operation follows the rule: each document that the rule selects gets the state and one entry more in its
history, and every other one stays as it is. It is given up only where one of those is malformed. -/
def Follows (docs : List Json) : Prop :=
  (runGroupOperation date repo op spec lib now username docs = none →
    ∃ doc ∈ docs, ruleSelects date repo op spec doc ∧ ¬ Scriptable doc) ∧
  ∀ docs', runGroupOperation date repo op spec lib now username docs = some docs' →
    List.Forall₂ (fun doc doc' =>
      (ruleSelects date repo op spec doc → Changed (stateTag op) (op ≠ .deescalate)
        (operationEntry op lib now username) doc doc') ∧
      (¬ ruleSelects date repo op spec doc → doc' = doc)) docs docs'

/-- The query of an operation. -/
def opQuery : BoolQuery :=
  let clauses := repo.buildAlertGroupFilter spec
  let tag := Query.term "tags" (.string (stateTag op))
  if op = .deescalate then ⟨clauses.1 ++ [tag], clauses.2⟩ else ⟨clauses.1, tag :: clauses.2⟩

/-- The script of an operation. -/
def opScript : Json → Option Json :=
  if op = .deescalate then removeTagsScript [stateTag op] (operationEntry op lib now username)
  else addTagsScript [stateTag op] (operationEntry op lib now username)

end

section

variable {date : String → Option ℤ} {repo : ElasticEventRepo} {op : GroupOperation} {spec : AlertGroupSpec}
variable {lib : TimeLib} {now : DateTime} {username : Option String} {doc doc' : Json} {docs : List Json}

theorem runGroupOperation_eq : runGroupOperation date repo op spec lib now username docs =
    docs.mapM fun doc => if (opQuery repo op spec).matches date doc then opScript op lib now username doc else some doc := by
  cases op <;>
    simp only [runGroupOperation, archiveByAlertGroup, escalateByAlertGroup, deescalateByAlertGroup,
      addTagsByAlertGroup, removeTagsByAlertGroup, updateByQuery, Option.map_map] <;>
    exact congrFun Option.map_id _

theorem opScript_spec (h : opScript op lib now username doc = some doc') :
    Changed (stateTag op) (op ≠ .deescalate) (operationEntry op lib now username) doc doc' := by
  unfold opScript at h
  split at h
  · rename_i hop
    simp only [hop, ne_eq, not_true_eq_false, decide_false]
    exact removeTagsScript_spec (hop ▸ h)
  · rename_i hop
    simp only [hop, ne_eq, not_false_eq_true, decide_true]
    exact addTagsScript_spec h

theorem exists_opScript (h : Scriptable doc) : ∃ doc', opScript op lib now username doc = some doc' := by
  unfold opScript
  split
  · exact exists_removeTagsScript h
  · exact exists_addTagsScript h

theorem Changed.ne {tag : String} {isSet : Bool} {entry : Json} (h : Changed tag isSet entry doc doc') : doc' ≠ doc :=
  fun heq => by
    have hlength := congrArg List.length h.history
    rw [heq, List.length_append] at hlength
    simp at hlength

/-- Whether an operation follows the rule on all documents is whether its query is the rule. -/
theorem follows_iff_matches : (∀ docs, Follows date repo op spec lib now username docs) ↔
    ∀ doc, (opQuery repo op spec).matches date doc = ruleSelects date repo op spec doc := by
  constructor
  · intro h doc
    obtain ⟨hnone, hsome⟩ := h [doc]
    rw [runGroupOperation_eq] at hnone hsome
    cases hmatch : (opQuery repo op spec).matches date doc with
    | true =>
        cases hscript : opScript op lib now username doc with
        | none =>
            obtain ⟨other, hother, hrule, -⟩ := hnone (by simp [hmatch, hscript])
            rw [List.mem_singleton.mp hother] at hrule
            exact hrule.symm
        | some doc' =>
            have hall := hsome [doc'] (mapM_eq_some.mpr (.cons (by simp [hmatch, hscript]) .nil))
            obtain ⟨-, hunchanged⟩ := (List.forall₂_cons.mp hall).1
            by_contra hrule
            exact (opScript_spec hscript).ne (hunchanged fun h => hrule h.symm)
    | false =>
        have hall := hsome [doc] (mapM_eq_some.mpr (.cons (by simp [hmatch]) .nil))
        obtain ⟨hchanged, -⟩ := (List.forall₂_cons.mp hall).1
        by_contra hrule
        exact (hchanged ((Bool.eq_true_of_not_eq_false fun h => hrule h.symm))).ne rfl
  · intro h docs
    rw [Follows, runGroupOperation_eq]
    constructor
    · intro hnone
      obtain ⟨doc, hdoc, hfail⟩ := exists_of_mapM_eq_none hnone
      split at hfail
      · rename_i hmatch
        refine ⟨doc, hdoc, (h doc).symm.trans hmatch, fun hscriptable => ?_⟩
        obtain ⟨doc', hdoc'⟩ := exists_opScript hscriptable
        rw [hdoc'] at hfail
        cases hfail
      · cases hfail
    · intro docs' hrun
      refine (mapM_eq_some.mp hrun).imp fun doc doc' hdoc => ?_
      rw [h doc] at hdoc
      constructor
      · intro hrule
        rw [if_pos hrule] at hdoc
        exact opScript_spec hdoc
      · intro hrule
        rw [if_neg hrule] at hdoc
        exact (Option.some.inj hdoc).symm

/-! ## The query -/

/-- The clauses of an address. -/
def addressMatches (date : String → Option ℤ) (doc : Json) (field existing : String) (ip : Option String) : Bool :=
  (addressClauses field existing ip).1.all (·.matches date doc) &&
    (addressClauses field existing ip).2.all (!·.matches date doc)

theorem sensorClauses_matches (sensor : Option String) :
    (repo.sensorClauses sensor).all (·.matches date doc) = sensor.all (view repo doc).hasSensor := by
  cases sensor with
  | none => rfl
  | some s => by_cases hs : s = "(no-name)" <;> simp [sensorClauses, hs, view, Query.matches, hasTerm]

theorem all_map_toList (given : Option String) (field : String) :
    ((given.toList.map fun s => Query.term field (.string s)).all fun clause => clause.matches date doc) =
      given.all fun s => hasTerm doc field (.string s) := by
  cases given <;> simp [Query.matches, hasTerm]

/-- The clauses that `build_alert_group_filter` makes. -/
theorem buildAlertGroupFilter_matches : (repo.buildAlertGroupFilter spec).1.all (·.matches date doc) = true ∧
    (repo.buildAlertGroupFilter spec).2.all (!·.matches date doc) = true ↔
    (view repo doc).isAlert ∧ (view repo doc).hasSignatureId spec.signatureId ∧
    addressMatches date doc (repo.mapField "src_ip") "src_ip" spec.srcIp ∧
    addressMatches date doc (repo.mapField "dest_ip") "dest_ip" spec.destIp ∧
    spec.sensor.all (view repo doc).hasSensor ∧ spec.dnsRrname.all (view repo doc).hasDnsRrname ∧
    spec.tlsSni.all (view repo doc).hasTlsSni ∧ inRange date repo spec doc := by
  have hexists : (view repo doc).isAlert = true →
      (Query.exists_ (repo.mapField "event_type")).matches date doc = true := by
    intro halert
    have hmem := List.contains_iff_mem.mp halert
    exact decide_eq_true (List.ne_nil_of_mem hmem)
  unfold buildAlertGroupFilter addressMatches inRange
  simp only [List.all_append, List.all_cons, List.all_nil, sensorClauses_matches, all_map_toList,
    Bool.and_eq_true, Bool.and_true]
  constructor
  · rintro ⟨⟨⟨⟨⟨⟨⟨⟨-, halert, hrange⟩, hsrc⟩, hdest⟩, hid⟩, hdns⟩, hsni⟩, hsensor⟩, hsrc', hdest'⟩
    exact ⟨halert, hid, ⟨hsrc, hsrc'⟩, ⟨hdest, hdest'⟩, hsensor, hdns, hsni, hrange⟩
  · rintro ⟨halert, hid, ⟨hsrc, hsrc'⟩, ⟨hdest, hdest'⟩, hsensor, hdns, hsni, hrange⟩
    exact ⟨⟨⟨⟨⟨⟨⟨⟨hexists halert, halert, hrange⟩, hsrc⟩, hdest⟩, hid⟩, hdns⟩, hsni⟩, hsensor⟩, hsrc', hdest'⟩

/-- The documents that an operation selects. -/
theorem opQuery_matches : (opQuery repo op spec).matches date doc ↔ (view repo doc).open op ∧
    (view repo doc).isAlert ∧ (view repo doc).hasSignatureId spec.signatureId ∧
    addressMatches date doc (repo.mapField "src_ip") "src_ip" spec.srcIp ∧
    addressMatches date doc (repo.mapField "dest_ip") "dest_ip" spec.destIp ∧
    spec.sensor.all (view repo doc).hasSensor ∧ spec.dnsRrname.all (view repo doc).hasDnsRrname ∧
    spec.tlsSni.all (view repo doc).hasTlsSni ∧ inRange date repo spec doc := by
  have hopen : (view repo doc).open op = (if op = .deescalate then
      (Query.term "tags" (.string (stateTag op))).matches date doc
      else !(Query.term "tags" (.string (stateTag op))).matches date doc) := by
    cases op <;> rfl
  rw [← buildAlertGroupFilter_matches, hopen]
  unfold opQuery BoolQuery.matches
  split
  · simp only [List.all_append, List.all_cons, List.all_nil, Bool.and_true, Bool.and_eq_true]
    exact ⟨fun ⟨⟨hfilter, htag⟩, hnot⟩ => ⟨htag, hfilter, hnot⟩, fun ⟨htag, hfilter, hnot⟩ => ⟨⟨hfilter, htag⟩, hnot⟩⟩
  · simp only [List.all_cons, Bool.and_eq_true]
    rw [and_left_comm]

theorem ruleSelects_iff : ruleSelects date repo op spec doc ↔ (view repo doc).open op ∧
    (view repo doc).isAlert ∧ (view repo doc).hasSignatureId spec.signatureId ∧
    hasAddress (view repo doc).hasSrcIp (view repo doc).noSrcIp spec.srcIp ∧
    hasAddress (view repo doc).hasDestIp (view repo doc).noDestIp spec.destIp ∧
    spec.sensor.all (view repo doc).hasSensor ∧ spec.dnsRrname.all (view repo doc).hasDnsRrname ∧
    spec.tlsSni.all (view repo doc).hasTlsSni ∧ inRange date repo spec doc := by
  unfold ruleSelects AlertView.member
  simp only [Bool.and_eq_true, and_assoc]
  constructor
  · rintro ⟨halert, hid, hsrc, hdest, hsensor, hdns, hsni, hopen, hrange⟩
    exact ⟨hopen, halert, hid, hsrc, hdest, hsensor, hdns, hsni, hrange⟩
  · rintro ⟨hopen, halert, hid, hsrc, hdest, hsensor, hdns, hsni, hrange⟩
    exact ⟨halert, hid, hsrc, hdest, hsensor, hdns, hsni, hopen, hrange⟩

/-- An address that is given is asked for as the rule does. -/
theorem addressMatches_of_given {field existing : String} {ip : Option String} (h : Given ip) :
    addressMatches date doc field existing ip =
      hasAddress (fun s => hasTerm doc field (.string s)) (hasNoText doc field) ip := by
  obtain ⟨s, rfl, hs⟩ := h
  rw [hasAddress_of_given hs]
  simp [addressMatches, addressClauses, Query.matches, hasTerm]

/-- Where both addresses are given, the code selects by the rule. -/
theorem matches_of_given (hsrc : Given spec.srcIp) (hdest : Given spec.destIp) (doc : Json) :
    (opQuery repo op spec).matches date doc = ruleSelects date repo op spec doc := by
  refine Bool.eq_iff_iff.mpr ?_
  rw [opQuery_matches, ruleSelects_iff, addressMatches_of_given hsrc, addressMatches_of_given hdest]
  rfl

end

/-! ## Documents that show the difference -/

/-- The fields of a document of a group. -/
structure DocFields where
  signatureId : ℕ
  srcIp : Option String
  destIp : Option String
  host : Option String
  rrname : Option String
  sni : Option String

/-- A field that may be missing. -/
def textField : Option String → Json
  | some s => .string s
  | none => .null

/-- A document of Suricata's own format, or of ECS. -/
def docOf (ecs : Bool) (f : DocFields) (timestamp : String) (tags : List Json) : Json :=
  if ecs then .object [
    ("@timestamp", .string timestamp), ("agent", .object [("name", textField f.host)]),
    ("destination", .object [("address", textField f.destIp)]), ("source", .object [("address", textField f.srcIp)]),
    ("suricata", .object [("eve", .object [
      ("alert", .object [("signature_id", .number (.int f.signatureId))]),
      ("dns", .object [("queries", .array [.object [("rrname", textField f.rrname)]])]),
      ("event_type", .string "alert"), ("tls", .object [("sni", textField f.sni)])])]),
    ("tags", .array tags)]
  else .object [
    ("alert", .object [("signature_id", .number (.int f.signatureId))]), ("dest_ip", textField f.destIp),
    ("dns", .object [("queries", .array [.object [("rrname", textField f.rrname)]])]),
    ("event_type", .string "alert"), ("host", textField f.host), ("src_ip", textField f.srcIp),
    ("tags", .array tags), ("timestamp", .string timestamp), ("tls", .object [("sni", textField f.sni)])]

theorem leaves_textField (given : Option String) : leaves (textField given) = given.toList.map .string := by
  cases given <;> rfl

/-- Where the mapped fields are. -/
theorem fieldPath_mapField (ecs : Bool) :
    fieldPath ((⟨ecs⟩ : ElasticEventRepo).mapField "event_type") =
      (if ecs then ["suricata", "eve", "event_type"] else ["event_type", "keyword"]) ∧
    fieldPath ((⟨ecs⟩ : ElasticEventRepo).mapField "alert.signature_id") =
      (if ecs then ["suricata", "eve", "alert", "signature_id"] else ["alert", "signature_id"]) ∧
    fieldPath ((⟨ecs⟩ : ElasticEventRepo).mapField "src_ip") =
      (if ecs then ["source", "address"] else ["src_ip", "keyword"]) ∧
    fieldPath ((⟨ecs⟩ : ElasticEventRepo).mapField "dest_ip") =
      (if ecs then ["destination", "address"] else ["dest_ip", "keyword"]) ∧
    fieldPath ((⟨ecs⟩ : ElasticEventRepo).mapField "host") =
      (if ecs then ["agent", "name"] else ["host", "keyword"]) ∧
    fieldPath ((⟨ecs⟩ : ElasticEventRepo).mapField "dns.queries.rrname") =
      (if ecs then ["suricata", "eve", "dns", "queries", "rrname"] else ["dns", "queries", "rrname", "keyword"]) ∧
    fieldPath ((⟨ecs⟩ : ElasticEventRepo).mapField "tls.sni") =
      (if ecs then ["suricata", "eve", "tls", "sni"] else ["tls", "sni", "keyword"]) ∧
    fieldPath ((⟨ecs⟩ : ElasticEventRepo).mapField "timestamp") = (if ecs then ["@timestamp"] else ["timestamp"]) := by
  cases ecs <;> decide

section

variable (ecs : Bool) (f : DocFields) (timestamp : String) (tags : List Json)

/-- The values of such a document at the mapped fields. -/
theorem docOf_mapped :
    fieldValues (docOf ecs f timestamp tags) ((⟨ecs⟩ : ElasticEventRepo).mapField "event_type") = [.string "alert"] ∧
    fieldValues (docOf ecs f timestamp tags) ((⟨ecs⟩ : ElasticEventRepo).mapField "alert.signature_id") =
      [.number (.int f.signatureId)] ∧
    fieldValues (docOf ecs f timestamp tags) ((⟨ecs⟩ : ElasticEventRepo).mapField "src_ip") =
      f.srcIp.toList.map .string ∧
    fieldValues (docOf ecs f timestamp tags) ((⟨ecs⟩ : ElasticEventRepo).mapField "dest_ip") =
      f.destIp.toList.map .string ∧
    fieldValues (docOf ecs f timestamp tags) ((⟨ecs⟩ : ElasticEventRepo).mapField "host") =
      f.host.toList.map .string ∧
    fieldValues (docOf ecs f timestamp tags) ((⟨ecs⟩ : ElasticEventRepo).mapField "dns.queries.rrname") =
      f.rrname.toList.map .string ∧
    fieldValues (docOf ecs f timestamp tags) ((⟨ecs⟩ : ElasticEventRepo).mapField "tls.sni") =
      f.sni.toList.map .string ∧
    fieldValues (docOf ecs f timestamp tags) ((⟨ecs⟩ : ElasticEventRepo).mapField "timestamp") =
      [.string timestamp] := by
  obtain ⟨htype, hid, hsrc, hdest, hhost, hdns, hsni, htime⟩ := fieldPath_mapField ecs
  unfold fieldValues
  rw [htype, hid, hsrc, hdest, hhost, hdns, hsni, htime]
  cases ecs <;>
    simp [docOf, valuesAt, valuesOfField, valuesOfElems, leaves, leaves_textField, Json.asStr]

/-- The values at the fields that are not mapped. -/
theorem docOf_unmapped :
    fieldValues (docOf ecs f timestamp tags) "src_ip" = (if ecs then [] else f.srcIp.toList.map .string) ∧
    fieldValues (docOf ecs f timestamp tags) "dest_ip" = (if ecs then [] else f.destIp.toList.map .string) ∧
    fieldValues (docOf ecs f timestamp tags) "tags" = leavesOf tags := by
  have hsrc : fieldPath "src_ip" = ["src_ip"] := by decide
  have hdest : fieldPath "dest_ip" = ["dest_ip"] := by decide
  have htags : fieldPath "tags" = ["tags"] := by decide
  unfold fieldValues
  rw [hsrc, hdest, htags]
  cases ecs <;> simp [docOf, valuesAt, valuesOfField, leaves, leaves_textField]

end

/-- The fields of a document of a group, with addresses of its own. -/
def docFields (spec : AlertGroupSpec) (src dest : Option String) : DocFields where
  signatureId := spec.signatureId
  srcIp := src
  destIp := dest
  host := if spec.sensor = some "(no-name)" then none else spec.sensor
  rrname := spec.dnsRrname
  sni := spec.tlsSni

/-- The tags of a document that an operation is for. -/
def openTags (op : GroupOperation) : List Json := if op = .deescalate then [.string "evebox.escalated"] else []

/-- A document of a group at the beginning of its range. -/
def groupDoc (ecs : Bool) (op : GroupOperation) (spec : AlertGroupSpec) (src dest : Option String) : Json :=
  docOf ecs (docFields spec src dest) spec.minTimestamp (openTags op)

/-- The address of a document, by the rule. -/
def addressRule (field ip : Option String) : Bool :=
  hasAddress (fun s => field = some s) (field = none || field = some "") ip

/-- The address of a document, by the query. -/
def addressQuery (ecs : Bool) (field : Option String) : Option String → Bool
  | some s => field = some s
  | none => ecs || field = none

section

variable {date : String → Option ℤ} {ecs : Bool} {op : GroupOperation} {spec : AlertGroupSpec}
variable {src dest : Option String}

theorem contains_toList (given : Option String) (s : String) :
    (given.toList.map Json.string).contains (.string s) = decide (given = some s) := by
  cases given with
  | none => rfl
  | some t => simp [eq_comm]

theorem toList_eq_nil (given : Option String) : decide (given.toList.map Json.string = []) = decide (given = none) := by
  cases given <;> simp

/-- The addresses of such a document, as the query and as the rule read them. -/
theorem groupDoc_values :
    fieldValues (groupDoc ecs op spec src dest) ((⟨ecs⟩ : ElasticEventRepo).mapField "src_ip") =
      src.toList.map .string ∧
    fieldValues (groupDoc ecs op spec src dest) ((⟨ecs⟩ : ElasticEventRepo).mapField "dest_ip") =
      dest.toList.map .string ∧
    fieldValues (groupDoc ecs op spec src dest) "src_ip" = (if ecs then [] else src.toList.map .string) ∧
    fieldValues (groupDoc ecs op spec src dest) "dest_ip" = (if ecs then [] else dest.toList.map .string) := by
  obtain ⟨-, -, hsrc, hdest, -⟩ := docOf_mapped ecs (docFields spec src dest) spec.minTimestamp (openTags op)
  obtain ⟨hsrc', hdest', -⟩ := docOf_unmapped ecs (docFields spec src dest) spec.minTimestamp (openTags op)
  exact ⟨hsrc, hdest, hsrc', hdest'⟩

/-- An address as the query asks for it. -/
theorem addressMatches_eq {doc : Json} {field existing : String} {value : Option String}
    (hfield : fieldValues doc field = value.toList.map .string)
    (hexisting : fieldValues doc existing = if ecs then [] else value.toList.map .string) (ip : Option String) :
    addressMatches date doc field existing ip = addressQuery ecs value ip := by
  cases ip with
  | none =>
      have hmatches : addressMatches date doc field existing none = !decide (fieldValues doc existing ≠ []) := by
        simp [addressMatches, addressClauses, Query.matches]
      rw [hmatches, hexisting]
      cases ecs <;> cases value <;> rfl
  | some s => simp [addressMatches, addressClauses, Query.matches, hfield, addressQuery]

/-- An address as the rule reads it. -/
theorem hasAddress_eq {doc : Json} {field : String} {value : Option String}
    (hfield : fieldValues doc field = value.toList.map .string) (ip : Option String) :
    hasAddress (fun s => hasTerm doc field (.string s)) (hasNoText doc field) ip = addressRule value ip := by
  simp only [hasNoText, hasTerm, hfield, contains_toList, toList_eq_nil, addressRule]

theorem groupDoc_address :
    (hasAddress (view ⟨ecs⟩ (groupDoc ecs op spec src dest)).hasSrcIp (view ⟨ecs⟩ (groupDoc ecs op spec src dest)).noSrcIp
      spec.srcIp = addressRule src spec.srcIp ∧
    hasAddress (view ⟨ecs⟩ (groupDoc ecs op spec src dest)).hasDestIp
      (view ⟨ecs⟩ (groupDoc ecs op spec src dest)).noDestIp spec.destIp = addressRule dest spec.destIp) ∧
    addressMatches date (groupDoc ecs op spec src dest) ((⟨ecs⟩ : ElasticEventRepo).mapField "src_ip") "src_ip"
      spec.srcIp = addressQuery ecs src spec.srcIp ∧
    addressMatches date (groupDoc ecs op spec src dest) ((⟨ecs⟩ : ElasticEventRepo).mapField "dest_ip") "dest_ip"
      spec.destIp = addressQuery ecs dest spec.destIp := by
  obtain ⟨hsrc, hdest, hsrc', hdest'⟩ := @groupDoc_values ecs op spec src dest
  exact ⟨⟨hasAddress_eq hsrc _, hasAddress_eq hdest _⟩, addressMatches_eq hsrc hsrc' _, addressMatches_eq hdest hdest' _⟩

/-- But for its addresses, such a document is one of the group. -/
theorem groupDoc_rest {low high : ℤ} (hlow : date spec.minTimestamp = some low)
    (hhigh : date spec.maxTimestamp = some high) (hle : low ≤ high) :
    (view ⟨ecs⟩ (groupDoc ecs op spec src dest)).open op = true ∧
    (view ⟨ecs⟩ (groupDoc ecs op spec src dest)).isAlert = true ∧
    (view ⟨ecs⟩ (groupDoc ecs op spec src dest)).hasSignatureId spec.signatureId = true ∧
    spec.sensor.all (view ⟨ecs⟩ (groupDoc ecs op spec src dest)).hasSensor = true ∧
    spec.dnsRrname.all (view ⟨ecs⟩ (groupDoc ecs op spec src dest)).hasDnsRrname = true ∧
    spec.tlsSni.all (view ⟨ecs⟩ (groupDoc ecs op spec src dest)).hasTlsSni = true ∧
    inRange date ⟨ecs⟩ spec (groupDoc ecs op spec src dest) = true := by
  obtain ⟨htype, hid, -, -, hhost, hdns, hsni, htime⟩ :=
    docOf_mapped ecs (docFields spec src dest) spec.minTimestamp (openTags op)
  obtain ⟨-, -, htags⟩ := docOf_unmapped ecs (docFields spec src dest) spec.minTimestamp (openTags op)
  refine ⟨?_, ?_, ?_, ?_, ?_, ?_, ?_⟩
  · simp only [AlertView.open, view, hasTerm, groupDoc, htags]
    cases op <;> simp [openTags, leavesOf, leaves]
  · simp only [view, hasTerm, groupDoc, htype]
    simp
  · simp only [view, hasTerm, groupDoc, hid]
    simp [docFields]
  · simp only [view, hasTerm, groupDoc, hhost, contains_toList, toList_eq_nil]
    unfold docFields
    cases hsensor : spec.sensor with
    | none => rfl
    | some s => by_cases hs : s = "(no-name)" <;> simp [hs]
  · simp only [view, hasTerm, groupDoc, hdns, contains_toList]
    unfold docFields
    cases spec.dnsRrname <;> simp
  · simp only [view, hasTerm, groupDoc, hsni, contains_toList]
    unfold docFields
    cases spec.tlsSni <;> simp
  · simp only [inRange, Query.matches, groupDoc, htime]
    simp [dateInRange, Json.asStr, hlow, hhigh, hle]

/-- By the rule an address is that of its own group, and so it is by the query. -/
theorem address_self (ecs : Bool) (ip : Option String) : addressRule ip ip = true ∧ addressQuery ecs ip ip = true := by
  cases ip with
  | none => simp [addressRule, hasAddress, addressQuery]
  | some s => by_cases hs : s = "" <;> simp [addressRule, hasAddress, addressQuery, hs]

/-- Only for an address that is given the query is the rule. -/
theorem given_of_address (h : ∀ field, addressRule field src = addressQuery ecs field src) : Given src := by
  by_contra hgiven
  cases hsrc : src with
  | none =>
      cases ecs
      · have := h (some "")
        simp [hsrc, addressRule, hasAddress, addressQuery] at this
      · have := h (some "x")
        simp [hsrc, addressRule, hasAddress, addressQuery] at this
  | some s =>
      have hs : s = "" := not_not.mp fun hs => hgiven ⟨s, hsrc, hs⟩
      have := h none
      simp [hsrc, hs, addressRule, hasAddress, addressQuery] at this

/-- Where the code selects by the rule, both addresses are given, unless no time is in the range. -/
theorem given_of_matches {low high : ℤ} (hlow : date spec.minTimestamp = some low)
    (hhigh : date spec.maxTimestamp = some high) (hle : low ≤ high)
    (h : ∀ doc, (opQuery ⟨ecs⟩ op spec).matches date doc = ruleSelects date ⟨ecs⟩ op spec doc) :
    Given spec.srcIp ∧ Given spec.destIp := by
  have hboth : ∀ src dest, (addressQuery ecs src spec.srcIp = true ∧ addressQuery ecs dest spec.destIp = true) ↔
      (addressRule src spec.srcIp = true ∧ addressRule dest spec.destIp = true) := by
    intro src dest
    have hdoc := Bool.eq_iff_iff.mp (h (groupDoc ecs op spec src dest))
    obtain ⟨hopen, halert, hid, hsensor, hdns, hsni, hrange⟩ :=
      @groupDoc_rest date ecs op spec src dest low high hlow hhigh hle
    obtain ⟨⟨hsrc, hdest⟩, hsrc', hdest'⟩ := @groupDoc_address date ecs op spec src dest
    rw [opQuery_matches, ruleSelects_iff, hsrc, hdest, hsrc', hdest'] at hdoc
    simpa only [hopen, halert, hid, hsensor, hdns, hsni, hrange, true_and, and_true] using hdoc
  constructor
  · refine @given_of_address ecs _ fun field => Bool.eq_iff_iff.mpr ?_
    have := hboth field spec.destIp
    rw [(address_self ecs spec.destIp).1, (address_self ecs spec.destIp).2] at this
    simpa using this.symm
  · refine @given_of_address ecs _ fun field => Bool.eq_iff_iff.mpr ?_
    have := hboth spec.srcIp field
    rw [(address_self ecs spec.srcIp).1, (address_self ecs spec.srcIp).2] at this
    simpa using this.symm

/-- An operation follows the rule on all documents exactly if both addresses are given, or the range has no
time. -/
theorem runGroupOperation_follows_iff (repo : ElasticEventRepo) (lib : TimeLib) (now : DateTime)
    (username : Option String) : (∀ docs, Follows date repo op spec lib now username docs) ↔
      ∀ low high, date spec.minTimestamp = some low → date spec.maxTimestamp = some high → low ≤ high →
        Given spec.srcIp ∧ Given spec.destIp := by
  rw [follows_iff_matches]
  constructor
  · intro h low high hlow hhigh hle
    exact given_of_matches hlow hhigh hle h
  · intro h doc
    by_cases hrange : inRange date repo spec doc = true
    · obtain ⟨low, high, hlow, hhigh, hle⟩ : ∃ low high, date spec.minTimestamp = some low ∧
          date spec.maxTimestamp = some high ∧ low ≤ high := by
        unfold inRange Query.matches at hrange
        obtain ⟨value, -, hvalue⟩ := List.any_eq_true.mp hrange
        unfold dateInRange at hvalue
        split at hvalue
        · rename_i time low high htime hlow hhigh
          simp only [Bool.and_eq_true, decide_eq_true_eq] at hvalue
          exact ⟨low, high, hlow, hhigh, le_trans hvalue.1 hvalue.2⟩
        · cases hvalue
      obtain ⟨hsrc, hdest⟩ := h low high hlow hhigh hle
      exact matches_of_given hsrc hdest doc
    · refine Bool.eq_iff_iff.mpr (iff_of_false (fun hquery => hrange ?_) fun hrule => hrange ?_)
      · exact (opQuery_matches.mp hquery).2.2.2.2.2.2.2.2
      · exact (ruleSelects_iff.mp hrule).2.2.2.2.2.2.2.2

end

end EveBox.Elastic
