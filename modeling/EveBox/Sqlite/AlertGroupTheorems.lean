import EveBox.Sqlite.ArchiveTheorems

/-!
# The rule of membership over SQLite

The two conditions of the updates are compared with the rule on every row. Where they differ, an event made of the
fields of the group shows it.
-/

namespace EveBox.Repo

open Rust

/-! ## An event made of fields -/

/-- The fields that a group tells its events by. -/
structure GroupFields where
  signatureId : Json
  srcIp : Json
  destIp : Json
  host : Json
  rrname : Json
  sni : Json

/-- The address as a field. -/
def textOrNull : Option String → Json
  | some s => .string s
  | none => .null

/-- The host of the events of a sensor. -/
def hostOf (sensor : Option String) : Json := if sensor = some "(no-name)" then .null else textOrNull sensor

/-- A host of no event of the sensor. -/
def otherHost (sensor : Option String) : Json :=
  if sensor = some "(no-name)" then .string "sensor" else .null

/-- The fields of an event of a group. -/
def AlertGroupSpec.fields (spec : AlertGroupSpec) : GroupFields where
  signatureId := .number (.int spec.signatureId)
  srcIp := textOrNull spec.srcIp
  destIp := textOrNull spec.destIp
  host := hostOf spec.sensor
  rrname := textOrNull spec.dnsRrname
  sni := textOrNull spec.tlsSni

/-- An alert of Suricata with these fields. -/
def GroupFields.eve (f : GroupFields) (timestamp : Json) : Json := .object [
  ("alert", .object [("signature_id", f.signatureId)]), ("dest_ip", f.destIp),
  ("dns", .object [("queries", .array [.object [("rrname", f.rrname)]])]),
  ("event_type", .string "alert"), ("host", f.host), ("src_ip", f.srcIp),
  ("timestamp", timestamp), ("tls", .object [("sni", f.sni)])]

theorem GroupFields.eve_getPath (f : GroupFields) (timestamp : Json) :
    (f.eve timestamp).getPath ["event_type"] = .string "alert" ∧
    (f.eve timestamp).getPath ["alert", "signature_id"] = f.signatureId ∧
    (f.eve timestamp).getPath ["src_ip"] = f.srcIp ∧ (f.eve timestamp).getPath ["dest_ip"] = f.destIp ∧
    (f.eve timestamp).getPath ["host"] = f.host ∧ (f.eve timestamp).getPath ["tls", "sni"] = f.sni ∧
    (f.eve timestamp).getPath ["dns", "queries"] = .array [.object [("rrname", f.rrname)]] := by
  simp [GroupFields.eve, Json.getPath, Json.get, List.lookup_cons]

end EveBox.Repo

namespace EveBox.Sqlite

open Rust Eve Repo

/-! ## The rule -/

/-- What SQLite can tell of an event. -/
def EventRow.view (row : EventRow) : AlertView where
  isAlert := row.isAlert
  hasSignatureId n := (row.extract ["alert", "signature_id"]).eq (.ofJson (.number (.int n)))
  hasSrcIp ip := (row.extract ["src_ip"]).eq (.text ip)
  noSrcIp := row.extract ["src_ip"] = .null || (row.extract ["src_ip"]).eq (.text "")
  hasDestIp ip := (row.extract ["dest_ip"]).eq (.text ip)
  noDestIp := row.extract ["dest_ip"] = .null || (row.extract ["dest_ip"]).eq (.text "")
  hasSensor sensor := row.hasSensor (some sensor)
  hasDnsRrname := row.hasRrname
  hasTlsSni sni := (row.extract ["tls", "sni"]).eq (.text sni)
  archived := row.archived
  escalated := row.escalated

/-- The rows that the rule selects for an operation. -/
def EventRow.ruleSelects (row : EventRow) (op : GroupOperation) (spec : AlertGroupSpec) (range : ℤ × ℤ) : Bool :=
  row.view.member spec && row.view.open op && range.1 ≤ row.timestamp && row.timestamp ≤ range.2

/-- The condition of the code for an operation. -/
def EventRow.opSelects (row : EventRow) (spec : AlertGroupSpec) (range : ℤ × ℤ) : GroupOperation → Bool
  | .archive => row.archiveSelects spec range
  | .escalate => row.escalationSelects spec range true
  | .deescalate => row.escalationSelects spec range false

/-- The state that an operation brings about, with one entry more in the history. -/
def EventRow.perform (row : EventRow) (entry : Json) : GroupOperation → EventRow
  | .archive => { row with archived := true, history := row.history ++ [entry] }
  | .escalate => { row with escalated := true, history := row.history ++ [entry] }
  | .deescalate => { row with escalated := false, history := row.history ++ [entry] }

/-- An operation of the code. -/
def runGroupOperation (lib : TimeLib) (now : DateTime) (store : Store) (spec : AlertGroupSpec) :
    GroupOperation → Option (Except AlertsError (ℕ × Store))
  | .archive => archiveByAlertGroup lib now store spec
  | .escalate => setEscalationByAlertGroup lib now store spec true
  | .deescalate => setEscalationByAlertGroup lib now store spec false

/-- What the operation is to do: the events of the group in the range that do not have the state yet get it, with one
entry more in the history each; nothing else changes. -/
def ruleOperation (lib : TimeLib) (now : DateTime) (store : Store) (spec : AlertGroupSpec) (op : GroupOperation) :
    Option (Except AlertsError (ℕ × Store)) :=
  (timeRange lib spec).map fun range => range.map fun range =>
    store.update (fun row => row.ruleSelects op spec range)
      fun row => row.perform (historyEntry lib op.history now none) op

/-- The groups that the code selects by the rule. -/
def Covers (op : GroupOperation) (spec : AlertGroupSpec) : Prop :=
  spec.signatureId < 2 ^ 63 ∧ spec.sensor = none ∧
  (op ≠ .archive → spec.dnsRrname = none ∧ spec.tlsSni = none ∧ Given spec.srcIp ∧ Given spec.destIp)

section

variable {lib : TimeLib} {now : DateTime} {op : GroupOperation} {spec : AlertGroupSpec} {range : ℤ × ℤ}
variable {row : EventRow}

theorem EventRow.perform_ne (row : EventRow) (entry : Json) (op : GroupOperation) : row.perform entry op ≠ row :=
  fun h => by
    have hlength := congrArg (·.history.length) h
    cases op <;> simp [EventRow.perform] at hlength

theorem runGroupOperation_eq (store : Store) : runGroupOperation lib now store spec op =
    (timeRange lib spec).map fun range => range.map fun range =>
      store.update (fun row => row.opSelects spec range op)
        fun row => row.perform (historyEntry lib op.history now none) op := by
  cases op <;> rfl

/-- Whether an operation follows the rule in every store is whether its condition is that of the rule on every
row. -/
theorem follows_iff_selects : (∀ store, runGroupOperation lib now store spec op = ruleOperation lib now store spec op) ↔
    ∀ range, timeRange lib spec = some (.ok range) → ∀ row : EventRow,
      row.opSelects spec range op = row.ruleSelects op spec range := by
  simp only [runGroupOperation_eq, ruleOperation]
  constructor
  · intro hsame range hrange row
    have hstore := hsame ⟨[row], none⟩
    rw [hrange] at hstore
    have hevents := congrArg (·.2.events) (Except.ok.inj (Option.some.inj hstore))
    have hiff := (@update_events_eq_iff ⟨[row], none⟩ _ _ (fun row => row.ruleSelects op spec range = true) _
      fun row => row.perform_ne _ op).mp hevents
    exact Bool.eq_iff_iff.mpr (hiff row (List.mem_singleton_self row))
  · intro hselects store
    cases hrange : timeRange lib spec with
    | none => rfl
    | some result =>
        cases result with
        | error err => rfl
        | ok range =>
            have hfun : (fun row : EventRow => row.opSelects spec range op) = fun row => row.ruleSelects op spec range :=
              funext (hselects range hrange)
            simp only [Option.map_some, Except.map, hfun]

/-! ## Signature ids -/

theorem ofJson_of_lt {n : ℕ} (h : n < 2 ^ 63) : SqlValue.ofJson (.number (.int n)) = .int n := by
  have hn : -2 ^ 63 ≤ (n : ℤ) ∧ (n : ℤ) < 2 ^ 63 := by omega
  rw [SqlValue.ofJson, if_pos hn]

theorem ofJson_of_le {n : ℕ} (h : 2 ^ 63 ≤ n) : SqlValue.ofJson (.number (.int n)) = .real (nearestDouble n) := by
  have hn : ¬ (-2 ^ 63 ≤ (n : ℤ) ∧ (n : ℤ) < 2 ^ 63) := by omega
  rw [SqlValue.ofJson, if_neg hn]

theorem eq_self_of_number (n : ℕ) :
    (SqlValue.ofJson (.number (.int n))).eq (SqlValue.ofJson (.number (.int n))) = true := by
  by_cases h : n < 2 ^ 63
  · rw [ofJson_of_lt h]
    simp [SqlValue.eq]
  · rw [ofJson_of_le (by omega)]
    simp [SqlValue.eq]

theorem asI64_lt (n : ℕ) : asI64 n < 2 ^ 63 := by
  unfold asI64
  split <;> omega

/-- An id from `2 ^ 63` on is taken for another one. -/
theorem eq_asI64_iff (n : ℕ) : (SqlValue.ofJson (.number (.int n))).eq (.int (asI64 n)) = true ↔ n < 2 ^ 63 := by
  by_cases h : n < 2 ^ 63
  · rw [ofJson_of_lt h, asI64_of_lt h]
    exact iff_of_true (by simp [SqlValue.eq]) h
  · rw [ofJson_of_le (by omega)]
    refine iff_of_false ?_ h
    obtain ⟨k, hk, hle⟩ : ∃ k : ℤ, nearestDouble n = (k : ℚ) ∧ 2 ^ 63 ≤ k := by
      refine ⟨_, rfl, ?_⟩
      split <;> omega
    have hlt := asI64_lt n
    rw [hk]
    intro heq
    have heq : (k : ℚ) = (asI64 n : ℚ) := of_decide_eq_true heq
    have := Rat.intCast_inj.mp heq
    omega

/-! ## An alert made of the fields of a group -/

/-- The row of such an alert. -/
def eveRow (f : GroupFields) (timestamp : ℤ) (op : GroupOperation) : EventRow where
  rowid := 1
  timestamp
  archived := false
  escalated := op = .deescalate
  source := f.eve .null
  sourceValues := ""
  history := []

theorem eveRow_view (f : GroupFields) (timestamp : ℤ) (op : GroupOperation) : (eveRow f timestamp op).view = {
    isAlert := true
    hasSignatureId n := (SqlValue.ofJson f.signatureId).eq (.ofJson (.number (.int n)))
    hasSrcIp ip := (SqlValue.ofJson f.srcIp).eq (.text ip)
    noSrcIp := SqlValue.ofJson f.srcIp = .null || (SqlValue.ofJson f.srcIp).eq (.text "")
    hasDestIp ip := (SqlValue.ofJson f.destIp).eq (.text ip)
    noDestIp := SqlValue.ofJson f.destIp = .null || (SqlValue.ofJson f.destIp).eq (.text "")
    hasSensor sensor := if sensor = "(no-name)" then SqlValue.ofJson f.host = .null
      else (SqlValue.ofJson f.host).eq (.text sensor)
    hasDnsRrname rrname := (SqlValue.ofJson f.rrname).eq (.text rrname)
    hasTlsSni sni := (SqlValue.ofJson f.sni).eq (.text sni)
    archived := false
    escalated := op = .deescalate } := by
  obtain ⟨htype, hid, hsrc, hdest, hhost, hsni, hqueries⟩ := f.eve_getPath .null
  have hrrname : (eveRow f timestamp op).hasRrname = fun rrname => (SqlValue.ofJson f.rrname).eq (.text rrname) := by
    funext rrname
    unfold EventRow.hasRrname
    rw [show (eveRow f timestamp op).source.getPath ["dns", "queries"] = _ from hqueries]
    simp [jsonEach, Json.get]
  have halert : (eveRow f timestamp op).isAlert = true := by
    unfold EventRow.isAlert EventRow.extract
    rw [show (eveRow f timestamp op).source.getPath ["event_type"] = _ from htype]
    simp [SqlValue.ofJson, SqlValue.eq]
  simp only [EventRow.view, hrrname, halert]
  simp only [EventRow.hasSensor, EventRow.extract, eveRow, hid, hsrc, hdest, hhost, hsni]

/-! ## The conditions of the code -/

theorem isAddress_getD (value : SqlValue) (ip : Option String) : value.isAddress (ip.getD "") =
    hasAddress (fun ip => value.eq (.text ip)) (value = .null || value.eq (.text "")) ip := by
  cases ip with
  | none => rfl
  | some s =>
      by_cases hs : s = ""
      · subst hs
        rfl
      · simp [SqlValue.isAddress, hasAddress, hs]

/-- An address that is given is compared as the rule does. -/
theorem eq_ofOption_of_given (value : SqlValue) {ip : Option String} (h : Given ip) : value.eq (.ofOption ip) =
    hasAddress (fun ip => value.eq (.text ip)) (value = .null || value.eq (.text "")) ip := by
  obtain ⟨s, rfl, hs⟩ := h
  rw [hasAddress_of_given hs]
  rfl

/-- The condition of `archive_by_alert_group` is that of the rule but for the sensor, and for ids from `2 ^ 63`
on. -/
theorem archiveSelects_iff (row : EventRow) : row.archiveSelects spec range ↔
    row.view.isAlert ∧ row.view.open .archive ∧
    (row.extract ["alert", "signature_id"]).eq (.int (asI64 spec.signatureId)) ∧
    hasAddress row.view.hasSrcIp row.view.noSrcIp spec.srcIp ∧
    hasAddress row.view.hasDestIp row.view.noDestIp spec.destIp ∧
    spec.dnsRrname.all row.view.hasDnsRrname ∧ spec.tlsSni.all row.view.hasTlsSni ∧
    range.1 ≤ row.timestamp ∧ row.timestamp ≤ range.2 := by
  unfold EventRow.archiveSelects
  simp only [isAddress_getD, Bool.and_eq_true, decide_eq_true_eq]
  change _ ↔ row.isAlert = true ∧ (!row.archived) = true ∧ _
  tauto

/-- The condition of `set_escalation_by_alert_group`. -/
theorem escalationSelects_iff (row : EventRow) (escalate : Bool) : row.escalationSelects spec range escalate ↔
    row.view.isAlert ∧ row.view.open (if escalate then .escalate else .deescalate) ∧
    (row.extract ["alert", "signature_id"]).eq (.int (asI64 spec.signatureId)) ∧
    (row.extract ["src_ip"]).eq (.ofOption spec.srcIp) ∧ (row.extract ["dest_ip"]).eq (.ofOption spec.destIp) ∧
    range.1 ≤ row.timestamp ∧ row.timestamp ≤ range.2 := by
  unfold EventRow.escalationSelects
  have hopen : (row.escalated = !escalate) ↔
      row.view.open (if escalate then .escalate else .deescalate) = true := by
    cases escalate <;> simp [AlertView.open, EventRow.view]
  simp only [Bool.and_eq_true, decide_eq_true_eq, hopen]
  change _ ↔ row.isAlert = true ∧ _
  tauto

theorem ruleSelects_iff (row : EventRow) : row.ruleSelects op spec range ↔
    row.view.isAlert ∧ row.view.open op ∧ row.view.hasSignatureId spec.signatureId ∧
    hasAddress row.view.hasSrcIp row.view.noSrcIp spec.srcIp ∧
    hasAddress row.view.hasDestIp row.view.noDestIp spec.destIp ∧
    spec.sensor.all row.view.hasSensor ∧ spec.dnsRrname.all row.view.hasDnsRrname ∧
    spec.tlsSni.all row.view.hasTlsSni ∧ range.1 ≤ row.timestamp ∧ row.timestamp ≤ range.2 := by
  unfold EventRow.ruleSelects AlertView.member
  simp only [Bool.and_eq_true, decide_eq_true_eq]
  tauto

theorem hasSignatureId_of_lt (row : EventRow) (h : spec.signatureId < 2 ^ 63) :
    row.view.hasSignatureId spec.signatureId =
      (row.extract ["alert", "signature_id"]).eq (.int (asI64 spec.signatureId)) := by
  rw [asI64_of_lt h, ← ofJson_of_lt h]
  rfl

theorem archiveSelects_eq_rule (row : EventRow) (hid : spec.signatureId < 2 ^ 63) (hsensor : spec.sensor = none) :
    row.archiveSelects spec range = row.ruleSelects .archive spec range := by
  refine Bool.eq_iff_iff.mpr ?_
  rw [archiveSelects_iff, ruleSelects_iff, hsensor, hasSignatureId_of_lt row hid]
  simp only [Option.all_none, true_and]

theorem escalationSelects_eq_rule (row : EventRow) (escalate : Bool) (hid : spec.signatureId < 2 ^ 63)
    (hsensor : spec.sensor = none) (hdns : spec.dnsRrname = none) (hsni : spec.tlsSni = none)
    (hsrc : Given spec.srcIp) (hdest : Given spec.destIp) : row.escalationSelects spec range escalate =
      row.ruleSelects (if escalate then .escalate else .deescalate) spec range := by
  refine Bool.eq_iff_iff.mpr ?_
  rw [escalationSelects_iff, ruleSelects_iff, hsensor, hdns, hsni, hasSignatureId_of_lt row hid,
    eq_ofOption_of_given _ hsrc, eq_ofOption_of_given _ hdest]
  simp only [Option.all_none, true_and]
  rfl

/-- Where the group is covered, the code selects by the rule. -/
theorem opSelects_of_covers (h : Covers op spec) (row : EventRow) :
    row.opSelects spec range op = row.ruleSelects op spec range := by
  obtain ⟨hid, hsensor, hescalation⟩ := h
  cases op with
  | archive => exact archiveSelects_eq_rule row hid hsensor
  | escalate =>
      obtain ⟨hdns, hsni, hsrc, hdest⟩ := hescalation (by decide)
      exact escalationSelects_eq_rule row true hid hsensor hdns hsni hsrc hdest
  | deescalate =>
      obtain ⟨hdns, hsni, hsrc, hdest⟩ := hescalation (by decide)
      exact escalationSelects_eq_rule row false hid hsensor hdns hsni hsrc hdest

/-! ## Groups that show the difference -/

/-- A field that an event of the group can have as its address. -/
def IsAddressOf (field : Json) (ip : Option String) : Prop := field = textOrNull ip ∨ field = .null ∧ ¬ Given ip

theorem hasAddress_of_isAddressOf {field : Json} {ip : Option String} (h : IsAddressOf field ip) :
    hasAddress (fun s => (SqlValue.ofJson field).eq (.text s))
      (SqlValue.ofJson field = .null || (SqlValue.ofJson field).eq (.text "")) ip = true := by
  rcases h with rfl | ⟨rfl, hip⟩
  · cases ip with
    | none => rfl
    | some s => by_cases hs : s = "" <;> simp [hasAddress, textOrNull, SqlValue.ofJson, SqlValue.eq, hs]
  · rw [hasAddress_of_not_given hip]
    rfl

theorem all_textOrNull (given : Option String) :
    given.all (fun s => (SqlValue.ofJson (textOrNull given)).eq (.text s)) = true := by
  cases given <;> simp [textOrNull, SqlValue.ofJson, SqlValue.eq]

theorem all_hostOf (sensor : Option String) : sensor.all (fun s => if s = "(no-name)" then
    decide (SqlValue.ofJson (hostOf sensor) = .null) else (SqlValue.ofJson (hostOf sensor)).eq (.text s)) = true := by
  cases sensor with
  | none => rfl
  | some s => by_cases hs : s = "(no-name)" <;> simp [hostOf, textOrNull, SqlValue.ofJson, SqlValue.eq, hs]

theorem eveRow_open (f : GroupFields) (timestamp : ℤ) (op : GroupOperation) :
    (eveRow f timestamp op).view.open op = true := by
  cases op <;> rfl

/-- An alert made of the fields of the group is selected by the rule. -/
theorem rule_selects_fields (hrange : range.1 ≤ range.2) {src dest : Json} (hsrc : IsAddressOf src spec.srcIp)
    (hdest : IsAddressOf dest spec.destIp) :
    (eveRow { spec.fields with srcIp := src, destIp := dest } range.1 op).ruleSelects op spec range := by
  rw [ruleSelects_iff, eveRow_open]
  rw [eveRow_view]
  refine ⟨rfl, rfl, ?_, hasAddress_of_isAddressOf hsrc, hasAddress_of_isAddressOf hdest, all_hostOf _,
    all_textOrNull _, all_textOrNull _, le_refl _, hrange⟩
  simp only [AlertGroupSpec.fields, eq_self_of_number]

theorem eveRow_extract (f : GroupFields) (timestamp : ℤ) (op : GroupOperation) :
    (eveRow f timestamp op).extract ["alert", "signature_id"] = .ofJson f.signatureId ∧
    (eveRow f timestamp op).extract ["src_ip"] = .ofJson f.srcIp ∧
    (eveRow f timestamp op).extract ["dest_ip"] = .ofJson f.destIp := by
  obtain ⟨-, hid, hsrc, hdest, -⟩ := f.eve_getPath .null
  exact ⟨congrArg _ hid, congrArg _ hsrc, congrArg _ hdest⟩

theorem escalation_iff (hop : op ≠ .archive) (row : EventRow) : row.opSelects spec range op ↔
    row.view.isAlert ∧ row.view.open op ∧
    (row.extract ["alert", "signature_id"]).eq (.int (asI64 spec.signatureId)) ∧
    (row.extract ["src_ip"]).eq (.ofOption spec.srcIp) ∧ (row.extract ["dest_ip"]).eq (.ofOption spec.destIp) ∧
    range.1 ≤ row.timestamp ∧ row.timestamp ≤ range.2 := by
  cases op with
  | archive => exact absurd rfl hop
  | escalate => exact escalationSelects_iff row true
  | deescalate => exact escalationSelects_iff row false

/-- The code does not look at the sensor. -/
theorem opSelects_host (f : GroupFields) (timestamp : ℤ) (host : Json) :
    (eveRow { f with host } timestamp op).opSelects spec range op =
      (eveRow f timestamp op).opSelects spec range op := by
  refine Bool.eq_iff_iff.mpr ?_
  by_cases hop : op = .archive
  · subst hop
    change EventRow.archiveSelects _ _ _ = true ↔ EventRow.archiveSelects _ _ _ = true
    rw [archiveSelects_iff, archiveSelects_iff, eveRow_open, eveRow_open]
    simp only [eveRow_view, eveRow_extract]
    rfl
  · rw [escalation_iff hop, escalation_iff hop, eveRow_open, eveRow_open]
    simp only [eveRow_view, eveRow_extract]
    rfl

/-- Escalating does not look at the DNS name and the SNI either. -/
theorem escalation_dns_sni (hop : op ≠ .archive) (f : GroupFields) (timestamp : ℤ) (rrname sni : Json) :
    (eveRow { f with rrname, sni } timestamp op).opSelects spec range op =
      (eveRow f timestamp op).opSelects spec range op := by
  refine Bool.eq_iff_iff.mpr ?_
  rw [escalation_iff hop, escalation_iff hop, eveRow_open, eveRow_open]
  simp only [eveRow_view, eveRow_extract]
  rfl

/-- An id from `2 ^ 63` on is not found. -/
theorem signatureId_lt_of_selects {timestamp : ℤ} {src dest : Json}
    (h : (eveRow { spec.fields with srcIp := src, destIp := dest } timestamp op).opSelects spec range op = true) :
    spec.signatureId < 2 ^ 63 := by
  have hid : (SqlValue.ofJson (.number (.int spec.signatureId))).eq (.int (asI64 spec.signatureId)) = true := by
    by_cases hop : op = .archive
    · subst hop
      change EventRow.archiveSelects _ _ _ = true at h
      rw [archiveSelects_iff, (eveRow_extract _ _ _).1] at h
      exact h.2.2.1
    · rw [escalation_iff hop, (eveRow_extract _ _ _).1] at h
      exact h.2.2.1
  exact (eq_asI64_iff _).mp hid

theorem sensor_eq_none (h : ∀ row : EventRow, row.opSelects spec range op = row.ruleSelects op spec range)
    (hfields : (eveRow spec.fields range.1 op).opSelects spec range op = true) : spec.sensor = none := by
  by_contra hsensor
  obtain ⟨s, hs⟩ := Option.ne_none_iff_exists'.mp hsensor
  have hother : (eveRow { spec.fields with host := otherHost spec.sensor } range.1 op).opSelects spec range op = true :=
    (opSelects_host _ _ _).trans hfields
  rw [h, ruleSelects_iff] at hother
  have hhost := hother.2.2.2.2.2.1
  rw [eveRow_view, hs, Option.all_some] at hhost
  by_cases hname : s = "(no-name)"
  · simp [hname, otherHost, SqlValue.ofJson] at hhost
  · simp [hname, otherHost, SqlValue.ofJson, SqlValue.eq] at hhost

theorem dns_and_sni_eq_none (hop : op ≠ .archive)
    (h : ∀ row : EventRow, row.opSelects spec range op = row.ruleSelects op spec range)
    (hfields : (eveRow spec.fields range.1 op).opSelects spec range op = true) :
    spec.dnsRrname = none ∧ spec.tlsSni = none := by
  have hother : (eveRow { spec.fields with rrname := .null, sni := .null } range.1 op).opSelects spec range op = true :=
    (escalation_dns_sni hop _ _ _ _).trans hfields
  rw [h, ruleSelects_iff] at hother
  obtain ⟨-, -, -, -, -, -, hdns, hsni, -⟩ := hother
  rw [eveRow_view] at hdns hsni
  constructor
  · cases hrrname : spec.dnsRrname with
    | none => rfl
    | some s => simp [hrrname, SqlValue.ofJson, SqlValue.eq] at hdns
  · cases hname : spec.tlsSni with
    | none => rfl
    | some s => simp [hname, SqlValue.ofJson, SqlValue.eq] at hsni

/-- Escalating finds no event without the address. -/
theorem given_addresses (hop : op ≠ .archive) (hrange : range.1 ≤ range.2)
    (h : ∀ row : EventRow, row.opSelects spec range op = row.ruleSelects op spec range) :
    Given spec.srcIp ∧ Given spec.destIp := by
  constructor
  · by_contra hsrc
    have hmissing := @rule_selects_fields op spec range hrange .null _ (.inr ⟨rfl, hsrc⟩) (.inl rfl)
    rw [← h, escalation_iff hop, (eveRow_extract _ _ _).2.1] at hmissing
    cases hmissing.2.2.2.1
  · by_contra hdest
    have hmissing := @rule_selects_fields op spec range hrange _ .null (.inl rfl) (.inr ⟨rfl, hdest⟩)
    rw [← h, escalation_iff hop, (eveRow_extract _ _ _).2.2] at hmissing
    cases hmissing.2.2.2.2.1

/-- Where the code selects by the rule, the group is covered, unless no time is in its range. -/
theorem covers_of_opSelects (hrange : range.1 ≤ range.2)
    (h : ∀ row : EventRow, row.opSelects spec range op = row.ruleSelects op spec range) : Covers op spec := by
  have hfields : (eveRow spec.fields range.1 op).opSelects spec range op = true := by
    rw [h]
    exact rule_selects_fields hrange (.inl rfl) (.inl rfl)
  refine ⟨signatureId_lt_of_selects hfields, sensor_eq_none h hfields, fun hop => ?_⟩
  obtain ⟨hdns, hsni⟩ := dns_and_sni_eq_none hop h hfields
  exact ⟨hdns, hsni, given_addresses hop hrange h⟩

/-- No time is in an empty range. -/
theorem opSelects_of_empty (hrange : ¬ range.1 ≤ range.2) (row : EventRow) :
    row.opSelects spec range op = row.ruleSelects op spec range := by
  have hempty : ¬ (range.1 ≤ row.timestamp ∧ row.timestamp ≤ range.2) := by omega
  refine Bool.eq_iff_iff.mpr (iff_of_false (fun hop => hempty ?_) fun hrule => hempty ?_)
  · by_cases harchive : op = .archive
    · subst harchive
      exact (archiveSelects_iff row).mp hop |>.2.2.2.2.2.2.2
    · exact ((escalation_iff harchive row).mp hop).2.2.2.2.2
  · exact ((ruleSelects_iff row).mp hrule).2.2.2.2.2.2.2.2

/-- An operation follows the rule in every store exactly if its group is covered, or its range has no time. -/
theorem runGroupOperation_follows_iff :
    (∀ store, runGroupOperation lib now store spec op = ruleOperation lib now store spec op) ↔
      ∀ range, timeRange lib spec = some (.ok range) → range.1 ≤ range.2 → Covers op spec := by
  rw [follows_iff_selects]
  refine forall₂_congr fun range _ => ?_
  constructor
  · intro h hrange
    exact covers_of_opSelects hrange h
  · intro h row
    by_cases hrange : range.1 ≤ range.2
    · exact opSelects_of_covers (h hrange) row
    · exact opSelects_of_empty hrange row

end

end EveBox.Sqlite
