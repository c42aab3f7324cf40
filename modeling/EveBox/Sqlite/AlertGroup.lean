import EveBox.Repo.AlertGroup
import EveBox.Sqlite.Alerts

/-!
# Groups of alerts over SQLite

Reference: `src/sqlite/eventrepo.rs`.

An `UPDATE` is the condition of its `WHERE` and what it sets in a row. Times of day are given to the
operations.
-/

namespace EveBox.Sqlite

open Rust Eve Repo

/-! ## Conditions -/

/-- `n as i64`. -/
def asI64 (n : ℕ) : ℤ := if n % 2 ^ 64 < 2 ^ 63 then (n % 2 ^ 64 : ℕ) else (n % 2 ^ 64 : ℕ) - 2 ^ 64

theorem asI64_of_lt {n : ℕ} (h : n < 2 ^ 63) : asI64 n = n := by
  have hmod : n % 2 ^ 64 = n := Nat.mod_eq_of_lt (by omega)
  rw [asI64, hmod, if_pos h]

/-- A parameter that may be null. -/
def SqlValue.ofOption : Option String → SqlValue
  | some s => text s
  | none => null

/-- The condition of an address in `archive_by_alert_group`. -/
def SqlValue.isAddress (value : SqlValue) (ip : String) : Bool :=
  if ip = "" then value = .null || value.eq (.text "") else value.eq (.text ip)

/-- The values of `json_each`. -/
def jsonEach : Json → List Json
  | .array elems => elems
  | .object fields => fields.map (·.2)
  | .null => []
  | value => [value]

/-- The condition of a DNS name: one of the queries has it. -/
def EventRow.hasRrname (row : EventRow) (rrname : String) : Bool :=
  (jsonEach (row.source.getPath ["dns", "queries"])).any fun query =>
    (SqlValue.ofJson (query.get "rrname")).eq (.text rrname)

/-- The time range of a group: an error if a time does not parse, `none` if it has no nanoseconds, where the code
panics. -/
def timeRange (lib : TimeLib) (spec : AlertGroupSpec) : Option (Except AlertsError (ℤ × ℤ)) :=
  match parseDateTime lib spec.minTimestamp none with
  | none => some (.error .timestamp)
  | some mints => mints.toNanos.bind fun mints =>
      match parseDateTime lib spec.maxTimestamp none with
      | none => some (.error .timestamp)
      | some maxts => maxts.toNanos.map fun maxts => .ok (mints, maxts)

/-- The condition of `archive_by_alert_group`. -/
def EventRow.archiveSelects (row : EventRow) (spec : AlertGroupSpec) (range : ℤ × ℤ) : Bool :=
  row.isAlert && !row.archived &&
    (row.extract ["alert", "signature_id"]).eq (.int (asI64 spec.signatureId)) &&
    spec.dnsRrname.all row.hasRrname &&
    spec.tlsSni.all (fun sni => (row.extract ["tls", "sni"]).eq (.text sni)) &&
    (row.extract ["src_ip"]).isAddress (spec.srcIp.getD "") &&
    (row.extract ["dest_ip"]).isAddress (spec.destIp.getD "") &&
    range.1 ≤ row.timestamp && row.timestamp ≤ range.2

/-- The condition of `set_escalation_by_alert_group`. -/
def EventRow.escalationSelects (row : EventRow) (spec : AlertGroupSpec) (range : ℤ × ℤ) (escalate : Bool) : Bool :=
  row.isAlert && row.escalated = !escalate &&
    (row.extract ["alert", "signature_id"]).eq (.int (asI64 spec.signatureId)) &&
    (row.extract ["src_ip"]).eq (.ofOption spec.srcIp) &&
    (row.extract ["dest_ip"]).eq (.ofOption spec.destIp) &&
    range.1 ≤ row.timestamp && row.timestamp ≤ range.2

/-! ## Updates -/

/-- An `UPDATE` of the events, with the number of the rows. -/
def Store.update (store : Store) (selects : EventRow → Bool) (set : EventRow → EventRow) : ℕ × Store :=
  (store.events.countP selects,
    { store with events := store.events.map fun row => if selects row then set row else row })

/-- What archiving sets in a row. -/
def EventRow.archive (row : EventRow) (entry : Json) : EventRow :=
  { row with archived := true, history := row.history ++ [entry] }

/-- What escalating and de-escalating set in a row. -/
def EventRow.setEscalated (row : EventRow) (escalate : Bool) (entry : Json) : EventRow :=
  { row with escalated := escalate, history := row.history ++ [entry] }

/-- `archive_by_alert_group`. -/
def archiveByAlertGroup (lib : TimeLib) (now : DateTime) (store : Store) (spec : AlertGroupSpec) :
    Option (Except AlertsError (ℕ × Store)) :=
  (timeRange lib spec).map fun range => range.map fun range =>
    store.update (fun row => row.archiveSelects spec range)
      fun row => row.archive (historyEntry lib .archived now none)

/-- `set_escalation_by_alert_group`. -/
def setEscalationByAlertGroup (lib : TimeLib) (now : DateTime) (store : Store) (spec : AlertGroupSpec)
    (escalate : Bool) : Option (Except AlertsError (ℕ × Store)) :=
  (timeRange lib spec).map fun range => range.map fun range =>
    store.update (fun row => row.escalationSelects spec range escalate)
      fun row => row.setEscalated escalate
        (historyEntry lib (if escalate then .escalated else .deescalated) now none)

/-! ## Rows that an update leaves out -/

section

variable {store : Store} {selects : EventRow → Bool} {set : EventRow → EventRow}

/-- Two updates that set the same, and change what they select, have the same outcome only if they select the
same rows. -/
theorem update_events_eq_iff {selects' : EventRow → Prop} [DecidablePred selects']
    (hset : ∀ row, set row ≠ row) :
    (store.update selects set).2.events = (store.events.map fun row => if selects' row then set row else row) ↔
      ∀ row ∈ store.events, selects row = true ↔ selects' row := by
  unfold Store.update
  rw [List.map_inj_left]
  refine forall₂_congr fun row _ => ?_
  by_cases h : selects row = true <;> by_cases h' : selects' row <;> simp [h, h', hset row, Ne.symm (hset row)]

theorem EventRow.archive_ne (row : EventRow) (entry : Json) : row.archive entry ≠ row := fun h => by
  simpa [EventRow.archive] using congrArg (·.history.length) h

theorem EventRow.setEscalated_ne (row : EventRow) (escalate : Bool) (entry : Json) :
    row.setEscalated escalate entry ≠ row := fun h => by
  simpa [EventRow.setEscalated] using congrArg (·.history.length) h

end

end EveBox.Sqlite
