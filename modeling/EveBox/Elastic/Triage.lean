import EveBox.Elastic.AlertGroup
import EveBox.Repo.Triage

/-!
# Triage over Elasticsearch

Reference: `src/elastic/eventrepo/mod.rs`.

A query for an id finds the documents with this `_id`, and the scripts are those of the operations on groups.
-/

namespace EveBox.Elastic

open Rust Eve Repo

/-- A document with its `_id`. -/
structure IndexedDoc where
  id : String
  source : Json
deriving DecidableEq

namespace ElasticEventRepo

section

variable (lib : TimeLib) (now : DateTime) (docs : List IndexedDoc) (id : String)

/-- `_update_by_query` for an id. It is `none` if the script fails on a document. -/
def updateById (script : Json → Option Json) : Option (ℕ × List IndexedDoc) :=
  (docs.mapM fun doc =>
    if doc.id = id then (script doc.source).map fun source => { doc with source } else some doc).map fun docs' =>
      (docs.countP fun doc => doc.id = id, docs')

/-- `archive_event_by_id`. -/
def archiveEventById : Option (ℕ × List IndexedDoc) :=
  updateById docs id (addTagsScript ["evebox.archived"] (HistoryEntry.new lib now .archived).toJson)

/-- `escalate_event_by_id`. -/
def escalateEventById : Option (ℕ × List IndexedDoc) :=
  updateById docs id (addTagsScript ["evebox.escalated"] (HistoryEntry.new lib now .escalated).toJson)

/-- `deescalate_event_by_id`. -/
def deescalateEventById : Option (List IndexedDoc) :=
  (updateById docs id
    (removeTagsScript ["evebox.escalated"] (HistoryEntry.new lib now .deescalated).toJson)).map Prod.snd

/-- `comment_event_by_id`. -/
def commentEventById (username : Option String) (comment : String) : Option (ℕ × List IndexedDoc) :=
  updateById docs id (addTagsScript [] (HistoryEntry.ofComment lib now username comment).toJson)

/-- What `EventRepo` asks for. -/
def triageById : TriageAction → Option (List IndexedDoc)
  | .archive => (archiveEventById lib now docs id).map Prod.snd
  | .escalate => (escalateEventById lib now docs id).map Prod.snd
  | .deescalate => deescalateEventById lib now docs id
  | .comment username text => (commentEventById lib now docs id username text).map Prod.snd

/-- `get_event_by_id`, without ECS: what is read of the first hit. -/
def getEventById : Option Json :=
  (docs.find? fun doc => doc.id = id).map fun doc => .object [("_id", .string doc.id), ("_source", doc.source)]

end

end ElasticEventRepo

end EveBox.Elastic
