import EveBox.Elastic.AlertGroupTheorems
import EveBox.Eve.Filters
import EveBox.Lib.Transition
import EveBox.Repo.History
import EveBox.Server.FilterMatch

/-!
# Auto-archiving over Elasticsearch

Reference: `src/elastic/autoarchive.rs`, and `alerts` of `src/elastic/eventrepo/alerts.rs` with what it calls of
`src/elastic/eventrepo/mod.rs`.

An event that the server itself takes in meets the filters on its way. For events that others write, each search for
alerts counts what the filters would match; a filter that matches something goes into a queue, and a task runs an update
for it. Other requests change filters and events meanwhile.
-/

namespace EveBox.Elastic

open Rust Eve Repo Server

namespace ElasticEventRepo

/-! ## Queries -/

/-- `TAGS_AUTO_ARCHIVED`. -/
def tagsAutoArchived : List String := ["evebox.archived", "evebox.auto-archived"]

/-- `build_auto_archive_query`. -/
def buildAutoArchiveQuery (repo : ElasticEventRepo) (filter : EventFilter) : BoolQuery where
  filter := [.exists_ (repo.mapField "event_type"), .term (repo.mapField "event_type") (.string "alert")] ++
    filter.conditions.map fun condition =>
      match condition.op with
      | .eq => .term (repo.mapField condition.field) condition.value
  mustNot := tagsAutoArchived.map fun tag => .term "tags" (.string tag)

/-- `add_auto_archive_aggregation`: the queries that are asked for by their names. -/
def autoArchiveAggregation (repo : ElasticEventRepo) (filters : List EventFilter) : List (String × BoolQuery) :=
  filters.zipIdx.map fun (filter, index) => (toString index, repo.buildAutoArchiveQuery filter)

section

variable (date : String → Option ℤ)

/-- `auto_archive_by_filter`. -/
def autoArchiveByFilter (repo : ElasticEventRepo) (docs : List Json) (filter : EventFilter) (lib : TimeLib)
    (now : DateTime) : Option (ℕ × List Json) :=
  updateByQuery date docs (repo.buildAutoArchiveQuery filter)
    (addTagsScript tagsAutoArchived (HistoryEntry.autoArchived lib now "filter-query").toJson)

/-- What Elasticsearch answers to an aggregation of queries: how many of the documents each of them matches. -/
def filtersBuckets (docs : List Json) (queries : List (String × BoolQuery)) : Json :=
  .object (queries.foldl (fun fields (name, query) =>
    Json.insertField name (.object [("doc_count", .number (.int (docs.countP (query.matches date))))]) fields) [])

/-- The part of the aggregations of a search that is for the filters. -/
def aggregations (repo : ElasticEventRepo) (docs : List Json) (filters : List EventFilter) : Json :=
  .object [("auto_archive_filters",
    .object [("buckets", filtersBuckets date docs (repo.autoArchiveAggregation filters))])]

end

/-- The count of the filter with number `index`. -/
def bucketCount (aggregations : Json) (index : ℕ) : ℕ :=
  ((aggregations.getPath ["auto_archive_filters", "buckets", toString index, "doc_count"]).asU64).getD 0

/-- `matching_auto_archive_filters`. -/
def matchingAutoArchiveFilters (aggregations : Json) (filters : List EventFilter) : List EventFilter :=
  filters.zipIdx.filterMap fun (filter, index) => if 0 < bucketCount aggregations index then some filter else none

/-- `record_unique_filter`: what has been recorded afterwards, if the filter is a new one. -/
def recordUniqueFilter (filters : List EventFilter) (filter : EventFilter) : Option (List EventFilter) :=
  if filter ∈ filters then none else some (filters ++ [filter])

/-- The filters that a search for alerts sends to the processor. -/
def queuedFilters (autoArchive : AutoArchive) (matching : List EventFilter) : List EventFilter :=
  matching.foldl (fun queued filter =>
    if autoArchive.contains filter then (recordUniqueFilter queued filter).getD queued else queued) []

end ElasticEventRepo

/-! ## The server -/

open ElasticEventRepo

/-- How far a request for the alerts has come. -/
inductive AlertsRequest
  /-- The filters have been read. -/
  | begun (filters : List EventFilter)
  /-- Elasticsearch has answered. `found` are the places of documents with the filters that match there. -/
  | searched (filters : List EventFilter) (aggregations : Json) (found : List (ℕ × EventFilter))
  | answered
deriving DecidableEq

/-- The documents and the filters, with the requests that have come, and the queue of the processor. Ghosts are
`written`, the documents as they came, `known`, all filters that there have been, and `owed`, what searches have found
by filters that were still there when they were done. -/
structure ArchiveServer where
  docs : List Json
  written : List Json
  /-- Events on their way to Elasticsearch, each behind the event that came. -/
  inFlight : List (Json × Json)
  autoArchive : AutoArchive
  queue : List EventFilter
  requests : List AlertsRequest
  known : List EventFilter
  owed : List (ℕ × EventFilter)

/-- A server that has just started. -/
def ArchiveServer.start (docs : List Json) (autoArchive : AutoArchive) : ArchiveServer where
  docs := docs
  written := docs
  inFlight := []
  autoArchive := autoArchive
  queue := []
  requests := []
  known := autoArchive.filters
  owed := []

/-- What can happen. -/
inductive ArchiveOp
  /-- The server takes an event in, which comes to the filter for auto-archiving. -/
  | submit (event : Json) (now : DateTime)
  /-- The event in flight with number `i` is written. -/
  | bulk (i : ℕ)
  /-- Another program writes a document. -/
  | index (doc : Json)
  | addFilter (entry : FilterEntry)
  | removeFilter (filter : EventFilter)
  /-- A user archives, escalates or de-escalates a group. -/
  | group (op : GroupOperation) (spec : AlertGroupSpec) (username : Option String) (now : DateTime)
  /-- A user asks for the alerts. -/
  | alerts
  /-- Elasticsearch searches for the request with number `i`, for the alerts of `isHit`. -/
  | search (i : ℕ) (isHit : Json → Bool)
  | answer (i : ℕ)
  /-- The processor takes a filter from its queue. -/
  | process (now : DateTime)

/-- The places of hits, with the filters that match there. -/
def foundBy (date : String → Option ℤ) (repo : ElasticEventRepo) (docs : List Json) (isHit : Json → Bool)
    (filters : List EventFilter) : List (ℕ × EventFilter) :=
  docs.zipIdx.flatMap fun (doc, place) =>
    if isHit doc then
      (filters.filter fun filter => (repo.buildAutoArchiveQuery filter).matches date doc).map
        fun filter => (place, filter)
    else []

namespace ArchiveServer

/-- A document is written. There is room for fewer than `2 ^ 64` of them. -/
def write (s : ArchiveServer) (event doc : Json) : Option ArchiveServer :=
  if s.docs.length + 1 < 2 ^ 64 then some { s with docs := s.docs ++ [doc], written := s.written ++ [event] } else none

/-- One step. -/
def step (date : String → Option ℤ) (lib : TimeLib) (repo : ElasticEventRepo) (s : ArchiveServer) :
    ArchiveOp → Option ArchiveServer
  | .submit event now =>
      (Eve.autoArchive (fun cause => (HistoryEntry.autoArchived lib now cause).toJson) s.autoArchive.isMatch event).map
        fun event' => { s with inFlight := s.inFlight ++ [(event, event')] }
  | .bulk i =>
      s.inFlight[i]?.bind fun (event, event') => { s with inFlight := s.inFlight.eraseIdx i }.write event event'
  | .index doc => s.write doc doc
  | .addFilter entry =>
      some { s with autoArchive := s.autoArchive.add (.ofEntry entry), known := .ofEntry entry :: s.known }
  | .removeFilter filter => some { s with autoArchive := s.autoArchive.remove filter }
  | .group op spec username now =>
      (runGroupOperation date repo op spec lib now username s.docs).map fun docs => { s with docs }
  | .alerts => some { s with requests := s.requests ++ [.begun s.autoArchive.filters] }
  | .search i isHit =>
      match s.requests[i]? with
      | some (.begun filters) =>
          some { s with
            requests := s.requests.set i (.searched filters (repo.aggregations date (s.docs.filter isHit) filters)
              (foundBy date repo s.docs isHit filters)) }
      | _ => none
  | .answer i =>
      match s.requests[i]? with
      | some (.searched filters aggregations found) =>
          some { s with
            queue := s.queue ++ queuedFilters s.autoArchive (matchingAutoArchiveFilters aggregations filters)
            requests := s.requests.set i .answered
            owed := s.owed ++ found.filter fun p => s.autoArchive.contains p.2 }
      | _ => none
  | .process now =>
      match s.queue with
      | [] => none
      | filter :: rest =>
          (repo.autoArchiveByFilter date s.docs filter lib now).map fun updated =>
            { s with docs := updated.2, queue := rest }

end ArchiveServer

end EveBox.Elastic
