import EveBox.Repo.History

/-!
# Triage

What archiving, escalating and commenting are for, apart from the repository that does it: each event has two flags,
and a history that tells of all that was done to it.

* `Audited.apply` — the flags stay what the history says.
-/

namespace EveBox.Repo

open Rust Eve

/-- What triage knows of an event. -/
structure Triage where
  archived : Bool
  escalated : Bool
  history : List Json
deriving DecidableEq

/-- What is done to an event by its id. -/
inductive TriageAction
  | archive
  | escalate
  | deescalate
  | comment (username : Option String) (text : String)
deriving DecidableEq, Repr

/-- The entry that an action leaves. -/
def TriageAction.entry (lib : TimeLib) (now : DateTime) : TriageAction → HistoryEntry
  | archive => .new lib now .archived
  | escalate => .new lib now .escalated
  | deescalate => .new lib now .deescalated
  | comment username text => .ofComment lib now username text

/-- What an action makes of an event. -/
def Triage.apply (t : Triage) (lib : TimeLib) (now : DateTime) (action : TriageAction) : Triage where
  archived :=
    match action with
    | .archive => true
    | _ => t.archived
  escalated :=
    match action with
    | .escalate => true
    | .deescalate => false
    | _ => t.escalated
  history := t.history ++ [(action.entry lib now).toJson]

@[simp] theorem Triage.apply_history (t : Triage) (lib : TimeLib) (now : DateTime) (action : TriageAction) :
    (t.apply lib now action).history = t.history ++ [(action.entry lib now).toJson] := rfl

/-! ## The history as a log -/

/-- An entry says that the event was archived. -/
def archives (entry : Json) : Bool := actionOf entry = .string "archived"

/-- The flag after what an entry says. -/
def escalates (escalated : Bool) (entry : Json) : Bool :=
  if actionOf entry = .string "escalated" then true
  else if actionOf entry = .string "de-escalated" then false
  else escalated

/-- The flags are what the history tells, from how the event came. -/
def Audited (initial t : Triage) : Prop :=
  ∃ log, t.history = initial.history ++ log ∧ t.archived = (initial.archived || log.any archives) ∧
    t.escalated = log.foldl escalates initial.escalated

theorem Audited.refl (t : Triage) : Audited t t := ⟨[], (List.append_nil _).symm, (Bool.or_false _).symm, rfl⟩

/-- Every action keeps to the log. -/
theorem Audited.apply {initial t : Triage} (h : Audited initial t) (lib : TimeLib) (now : DateTime)
    (action : TriageAction) : Audited initial (t.apply lib now action) := by
  obtain ⟨log, hhistory, harchived, hescalated⟩ := h
  refine ⟨log ++ [(action.entry lib now).toJson], ?_, ?_, ?_⟩
  · rw [Triage.apply_history, hhistory, List.append_assoc]
  · rw [List.any_append, ← Bool.or_assoc, ← harchived]
    cases action <;> simp [Triage.apply, TriageAction.entry, HistoryEntry.new, HistoryEntry.ofComment, archives,
      HistoryType.text]
  · rw [List.foldl_append, ← hescalated]
    cases action <;> simp [Triage.apply, TriageAction.entry, HistoryEntry.new, HistoryEntry.ofComment, escalates,
      HistoryType.text]

end EveBox.Repo
