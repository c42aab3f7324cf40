import EveBox.Repo.Triage
import EveBox.Sqlite.AlertGroup

/-!
# Triage over SQLite

Reference: `src/sqlite/eventrepo.rs` and `src/sqlite/eventrepo/comments.rs`.

An id comes as a text. Where it is compared with a row id as it is, SQLite reads the text as a number, which is
`numeral`; a comment reads it as an `i64` before.
-/

namespace EveBox.Sqlite

open Rust Eve Repo

/-- Why an event is not changed. -/
inductive TriageError
  | notFound
  | parse
deriving DecidableEq, Repr

section

variable (numeral : String → Option ℚ) (lib : TimeLib) (now : DateTime) (store : Store) (id : String)

/-- `rowid = ?`. -/
def EventRow.hasId (row : EventRow) : Bool := numeral id = some (row.rowid : ℚ)

/-- An update of no rows is an error. -/
def updated (result : ℕ × Store) : Except TriageError Store :=
  if result.1 = 0 then .error .notFound else .ok result.2

/-- `archive_event_by_id`. -/
def archiveEventById : Except TriageError Store :=
  updated (store.update (fun row => row.hasId numeral id)
    fun row => row.archive (HistoryEntry.new lib now .archived).toJson)

/-- `set_escalation_for_id`. -/
def setEscalationForId (escalate : Bool) : Except TriageError Store :=
  updated (store.update (fun row => row.hasId numeral id) fun row =>
    row.setEscalated escalate (HistoryEntry.new lib now (if escalate then .escalated else .deescalated)).toJson)

/-- `escalate_event_by_id`. -/
def escalateEventById : Except TriageError Store := setEscalationForId numeral lib now store id true

/-- `deescalate_event_by_id`. -/
def deescalateEventById : Except TriageError Store := setEscalationForId numeral lib now store id false

/-- `comment_event_by_id`. -/
def commentEventById (username : Option String) (comment : String) : Except TriageError Store :=
  match parseI64 id.toList with
  | none => .error .parse
  | some eventId =>
      updated (store.update (fun row => (row.rowid : ℤ) = eventId) fun row =>
        { row with history := row.history ++ [(HistoryEntry.ofComment lib now username comment).toJson] })

/-- What `EventRepo` asks for. -/
def triageById : TriageAction → Except TriageError Store
  | .archive => archiveEventById numeral lib now store id
  | .escalate => escalateEventById numeral lib now store id
  | .deescalate => deescalateEventById numeral lib now store id
  | .comment username text => commentEventById lib now store id username text

/-! ## What is shown of an event -/

/-- A flag of a row is shown as a tag. -/
def showFlag (flag : Bool) (tag : String) (tags : List Json) : List Json :=
  if flag && !tags.contains (.string tag) then tags ++ [.string tag] else tags

/-- There is a list of tags where there was nothing. -/
def nullToTags (parsed : Json) : Option Json :=
  if parsed.get "tags" = .null then parsed.set "tags" (.array []) else some parsed

/-- The flags of a row are shown among the tags. -/
def EventRow.showFlags (row : EventRow) (parsed : Json) : Option Json :=
  match (parsed.get "tags").asArray with
  | some tags => parsed.set "tags" (.array
      (showFlag row.escalated "evebox.escalated" (showFlag row.archived "evebox.archived" tags)))
  | none => some parsed

/-- The response of `get_event_by_id`; it panics where the event is no object. -/
def EventRow.response (row : EventRow) : Option Json := do
  let parsed ← nullToTags row.source
  let parsed ← row.showFlags parsed
  let parsed ← ensureHasHistory parsed
  let parsed ← parsed.setPath ["evebox", "history"] (.array row.history)
  some (.object [("_id", .number (.int row.rowid)), ("_source", parsed)])

/-- `get_event_by_id`: the response, if there is an event, or a panic. -/
def getEventById : Option (Option Json) :=
  match store.events.find? fun row => row.hasId numeral id with
  | none => some none
  | some row => row.response.map some

end

end EveBox.Sqlite
