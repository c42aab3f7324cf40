import EveBox.Repo.AlertGroup

/-!
# Entries of the history

Reference: `HistoryEntry` and `HistoryEntryBuilder` of `src/elastic/mod.rs`.
-/

namespace EveBox.Repo

open Rust Eve

/-- `HistoryEntry`. -/
structure HistoryEntry where
  username : Option String
  timestamp : String
  action : String
  cause : Option String
  comment : Option String
deriving DecidableEq, Repr

/-- A field that is left out where there is no value. -/
def optionalField (key : String) (value : Option String) : List (String × Json) :=
  (value.map fun value => (key, Json.string value)).toList

/-- `HistoryEntry`, as JSON. -/
def HistoryEntry.toJson (entry : HistoryEntry) : Json :=
  .object ([("action", .string entry.action)] ++ optionalField "cause" entry.cause ++
    optionalField "comment" entry.comment ++ [("timestamp", .string entry.timestamp)] ++
    optionalField "username" entry.username)

section

variable (lib : TimeLib) (now : DateTime)

/-- `HistoryEntryBuilder::new`, built as it is. -/
def HistoryEntry.new (action : HistoryType) : HistoryEntry where
  username := none
  timestamp := now.toRfc3339Utc lib
  action := action.text
  cause := none
  comment := none

/-- `HistoryEntryBuilder::new_auto_archived`. -/
def HistoryEntry.autoArchived (cause : String) : HistoryEntry :=
  { HistoryEntry.new lib now .autoArchived with cause := some cause }

/-- `HistoryEntryBuilder::new_comment`, by a user. -/
def HistoryEntry.ofComment (username : Option String) (comment : String) : HistoryEntry :=
  { HistoryEntry.new lib now .comment with username := username, comment := some comment }

/-- The entries of the operations on groups. -/
theorem historyEntry_eq (action : HistoryType) (username : Option String) :
    historyEntry lib action now username = { HistoryEntry.new lib now action with username := username }.toJson := by
  cases username <;> rfl

end

/-- What an entry says that was done. -/
def actionOf (entry : Json) : Json := entry.get "action"

@[simp] theorem actionOf_toJson (entry : HistoryEntry) : actionOf entry.toJson = .string entry.action := rfl

theorem actionOf_historyEntry (lib : TimeLib) (action : HistoryType) (now : DateTime) (username : Option String) :
    actionOf (historyEntry lib action now username) = .string action.text := by
  rw [historyEntry_eq, actionOf_toJson]
  rfl

end EveBox.Repo
