import EveBox.Lib.Transition
import EveBox.Sink.EventSink
import Mathlib.Data.List.Forall2

/-!
# Batches

A sink takes events and commits them; commits may fail. `batch_law` says for which runs a commit that fails
leaves the sink as it was, and one that succeeds has sent or stored exactly the events that were submitted
since the last one.
-/

namespace EveBox.Sink

open Rust Eve Sqlite Transition

variable {lib : TimeLib}

/-! ## Runs -/

/-- A sink and its database. `submitted` are the events that the sink has taken since the last commit that
succeeded, with their identifiers; it is a ghost. -/
structure Batch where
  sink : EventSink
  db : Store
  submitted : List (Json × String)
deriving DecidableEq

inductive BatchOp
  | submit (event : Json) (ulid : String)
  | commit (outcome : CommitOutcome)
deriving DecidableEq

/-- The sinks that the code makes. -/
inductive SinkConfig
  | eveBox
  | elastic (index : String) (noIndexSuffix opensearch : Bool)
  | sqlite
deriving DecidableEq

/-- A new sink. -/
def EventSink.new : SinkConfig → EventSink
  | .eveBox => eveBox .new
  | .elastic index noIndexSuffix opensearch => elastic (.new index noIndexSuffix opensearch)
  | .sqlite => sqlite .new

namespace Batch

/-- A new sink, over a database. -/
def new (config : SinkConfig) (db : Store) : Batch := ⟨.new config, db, []⟩

def step (lib : TimeLib) (s : Batch) : BatchOp → Option Batch
  | .submit event ulid =>
      (s.sink.submit lib event ulid).map fun (result, sink) =>
        match result with
        | .ok _ => { s with sink, submitted := s.submitted ++ [(event, ulid)] }
        | .error _ => { s with sink }
  | .commit outcome =>
      (s.sink.commit s.db outcome).map fun (result, sink, db) =>
        match result with
        | .ok _ => ⟨sink, db, []⟩
        | .error _ => ⟨sink, db, s.submitted⟩

end Batch

/-! ## The law -/

/-- What the SQLite sink makes of an event. -/
def prepared (lib : TimeLib) (event : Json) : Option PreparedEvent :=
  (SqliteEventSink.prep lib event).bind Except.toOption

/-- What the commit has sent, or what it has stored, are these events and nothing else, in order. -/
def EventSink.Delivers (lib : TimeLib) (db db' : Store) (events : List (Json × String)) : EventSink → Prop
  | eveBox importer => importer.body = "\n".intercalate (events.map (·.1.text))
  | elastic importer => ∃ lines : List (BulkLine × BulkLine),
      List.Forall₂ (fun e l => importer.prepare lib e.1 e.2 = some l) events lines ∧
        importer.request = lines.flatMap (fun l => [l.1, l.2]) ++ [.empty]
  | sqlite _ => ∃ rows : List PreparedEvent,
      List.Forall₂ (fun e row => prepared lib e.1 = some row) events rows ∧ db' = rows.foldl insertEvent db

/-- A commit that fails changes nothing, and one that succeeds delivers what has been submitted. -/
def Batch.CommitLaw (lib : TimeLib) (s : Batch) (sink : EventSink) (db : Store) :
    Except SinkError ℕ → Prop
  | .ok _ => s.sink.Delivers lib s.db db s.submitted
  | .error _ => sink = s.sink ∧ db = s.db

/-- Every commit meets the law. -/
def Batch.Law (lib : TimeLib) (s : Batch) : BatchOp → Prop
  | .submit _ _ => True
  | .commit outcome => ∀ result sink db, s.sink.commit s.db outcome = some (result, sink, db) →
      s.CommitLaw lib sink db result

/-- The reply is read as a success. -/
def Reply.accepted : Reply → Bool
  | failed => false
  | answered _ _ json =>
      match json.bind BulkResponse.fromJson with
      | some response => !response.hasError
      | none => false

/-- The step is no failing commit of an Elasticsearch sink. -/
def Batch.Succeeds (s : Batch) : BatchOp → Prop
  | .commit (.http reply) =>
      match s.sink with
      | .elastic _ => reply.accepted = true
      | _ => True
  | _ => True

/-! ## What the sinks hold -/

/-- The sink holds what has been submitted. -/
def EventSink.Holds (lib : TimeLib) (events : List (Json × String)) : EventSink → Prop
  | eveBox importer => importer.queue = events.map (·.1.text)
  | elastic importer => ∃ lines : List (BulkLine × BulkLine),
      List.Forall₂ (fun e l => importer.prepare lib e.1 e.2 = some l) events lines ∧
        importer.queue = lines.flatMap fun l => [l.1, l.2]
  | sqlite importer => List.Forall₂ (fun e row => prepared lib e.1 = some row) events importer.queue

/-- The invariant of a run without a failing commit of an Elasticsearch sink. -/
def Batch.Holds (lib : TimeLib) (s : Batch) : Prop := s.sink.Holds lib s.submitted

theorem ElasticEventSink.commit_accepted (s : ElasticEventSink) {reply : Reply} (h : reply.accepted = true) :
    s.commit reply = (.ok s.pending, { s with queue := [] }) := by
  unfold Reply.accepted at h
  unfold commit
  split at h
  · cases h
  · split at h
    · rename_i response hresponse
      rw [Bool.not_eq_true'] at h
      dsimp only
      rw [hresponse]
      dsimp only
      rw [if_neg (by rw [h]; exact Bool.false_ne_true)]
    · cases h

theorem ElasticEventSink.commit_refused (s : ElasticEventSink) {reply : Reply} (h : reply.accepted = false) :
    ∃ err, s.commit reply = (.error err, { s with queue := s.request }) := by
  unfold Reply.accepted at h
  unfold commit
  split at h
  · exact ⟨_, rfl⟩
  · split at h
    · rename_i response hresponse
      rw [Bool.not_eq_false'] at h
      dsimp only
      rw [hresponse]
      dsimp only
      rw [if_pos h]
      exact ⟨_, rfl⟩
    · rename_i hresponse
      dsimp only
      rw [hresponse]
      exact ⟨_, rfl⟩

theorem EveBoxEventSink.commit_cases (s : EveBoxEventSink) (reply : Reply) :
    (∃ err, s.commit reply = (.error err, s)) ∨ s.commit reply = (.ok s.queue.length, .new) := by
  unfold commit
  split
  · exact Or.inl ⟨_, rfl⟩
  · split
    · exact Or.inl ⟨_, rfl⟩
    · exact Or.inr rfl

/-- Without faults, all the events are inserted. -/
theorem insertAll_ok {fault : Option SqlError} {queue : List PreparedEvent} {count : ℕ} {db db' : Store}
    (h : insertAll fault count db queue = .ok db') : db' = queue.foldl insertEvent db := by
  induction queue generalizing count db with
  | nil => exact (Except.ok.inj h).symm
  | cons e queue ih =>
      unfold insertAll at h
      split at h
      · cases h
      · split at h
        · cases h
        · exact ih h

theorem transaction_ok {fault : Option SqlError} {queue : List PreparedEvent} {db db' : Store}
    (h : transaction fault db queue = .ok db') : db' = queue.foldl insertEvent db := by
  unfold transaction at h
  split at h
  · cases h
  · split at h
    · cases h
    · split at h
      · cases h
      · rename_i inserted hinserted
        split at h
        · cases h
        · obtain rfl := Except.ok.inj h
          exact insertAll_ok hinserted

/-- What the commit of the SQLite sink comes to, after any number of attempts on a locked database. -/
theorem SqliteEventSink.commitFrom_cases {s s' : SqliteEventSink} {db db' : Store} {tries : ℕ}
    {faults : List (Option SqlError)} {result : Except SqlError ℕ}
    (h : s.commitFrom db tries faults = some (result, s', db')) :
    (∃ err, result = .error err ∧ s' = s ∧ db' = db) ∨
      ∃ n, result = .ok n ∧ s' = ⟨[]⟩ ∧ db' = s.queue.foldl insertEvent db := by
  induction faults generalizing tries with
  | nil => cases h
  | cons fault faults ih =>
      unfold commitFrom commitWithSqlx at h
      cases htransaction : transaction fault db s.queue with
      | error err =>
          rw [htransaction] at h
          dsimp only at h
          split at h
          · exact ih h
          · split at h
            · obtain ⟨rfl, rfl, rfl⟩ := by simpa using h
              exact Or.inl ⟨err, rfl, rfl, rfl⟩
            · cases h
      | ok stored =>
          rw [htransaction] at h
          dsimp only at h
          split at h
          · obtain ⟨rfl, rfl, rfl⟩ := by simpa using h
            exact Or.inr ⟨_, rfl, rfl, transaction_ok htransaction⟩
          · cases h

/-! ## Steps -/

theorem Batch.Holds.submit {s s' : Batch} (hold : s.Holds lib) {event : Json} {ulid : String}
    (h : s.step lib (.submit event ulid) = some s') : s'.Holds lib := by
  obtain ⟨⟨result, sink⟩, hsubmit, h⟩ := Option.map_eq_some_iff.mp h
  obtain ⟨old, db, submitted⟩ := s
  unfold EventSink.submit at hsubmit
  cases old with
  | eveBox importer =>
      obtain ⟨rfl, rfl⟩ := by simpa using hsubmit
      subst h
      show importer.queue ++ [event.text] = (submitted ++ [(event, ulid)]).map (·.1.text)
      rw [List.map_append, ← show importer.queue = _ from hold]
      rfl
  | elastic importer =>
      obtain ⟨⟨full, importer'⟩, hsubmit, hresult⟩ := Option.map_eq_some_iff.mp hsubmit
      obtain ⟨lines, hprepare, hlines⟩ := Option.map_eq_some_iff.mp hsubmit
      obtain ⟨rfl, rfl⟩ := by simpa using hlines
      obtain ⟨rfl, rfl⟩ := by simpa using hresult
      subst h
      obtain ⟨all, hall, hqueue⟩ := hold
      refine ⟨all ++ [lines], ?_, ?_⟩
      · exact List.rel_append hall (.cons hprepare .nil)
      · show importer.queue ++ _ = _
        rw [hqueue, List.flatMap_append]
        rfl
  | sqlite importer =>
      obtain ⟨⟨outcome, importer'⟩, hsubmit, hresult⟩ := Option.map_eq_some_iff.mp hsubmit
      obtain ⟨prep, hprep, houtcome⟩ := Option.map_eq_some_iff.mp hsubmit
      cases prep with
      | error err =>
          obtain ⟨rfl, rfl⟩ := by simpa using houtcome
          obtain ⟨rfl, rfl⟩ := by simpa using hresult
          subst h
          exact hold
      | ok row =>
          obtain ⟨rfl, rfl⟩ := by simpa using houtcome
          obtain ⟨rfl, rfl⟩ := by simpa using hresult
          subst h
          have hrow : prepared lib event = some row := by
            rw [prepared, hprep]
            rfl
          exact List.rel_append hold (.cons hrow .nil)

/-- What a commit comes to, if it is no failing one of an Elasticsearch sink. -/
theorem Batch.Holds.commit {s : Batch} (hold : s.Holds lib) {outcome : CommitOutcome}
    (hok : s.Succeeds (.commit outcome)) {result : Except SinkError ℕ} {sink : EventSink} {db : Store}
    (h : s.sink.commit s.db outcome = some (result, sink, db)) :
    (∃ err, result = .error err ∧ sink = s.sink ∧ db = s.db) ∨
      ∃ n, result = .ok n ∧ s.sink.Delivers lib s.db db s.submitted ∧ sink.Holds lib [] := by
  obtain ⟨old, stored, submitted⟩ := s
  cases old with
  | eveBox importer =>
      cases outcome with
      | sql faults => cases h
      | http reply =>
          have hqueue : importer.queue = submitted.map (·.1.text) := hold
          rcases importer.commit_cases reply with ⟨err, hcommit⟩ | hcommit
          · simp only [EventSink.commit, hcommit] at h
            obtain ⟨rfl, rfl, rfl⟩ := by simpa using h
            exact Or.inl ⟨_, rfl, rfl, rfl⟩
          · simp only [EventSink.commit, hcommit] at h
            obtain ⟨rfl, rfl, rfl⟩ := by simpa using h
            refine Or.inr ⟨_, rfl, ?_, rfl⟩
            show "\n".intercalate importer.queue = _
            rw [hqueue]
  | elastic importer =>
      cases outcome with
      | sql faults => cases h
      | http reply =>
          obtain ⟨lines, hlines, hqueue⟩ := hold
          simp only [EventSink.commit, importer.commit_accepted hok] at h
          obtain ⟨rfl, rfl, rfl⟩ := by simpa using h
          refine Or.inr ⟨_, rfl, ⟨lines, hlines, ?_⟩, [], .nil, rfl⟩
          rw [ElasticEventSink.request, hqueue]
  | sqlite importer =>
      cases outcome with
      | http reply => cases h
      | sql faults =>
          obtain ⟨⟨outcome, importer', db'⟩, hcommit, hresult⟩ := Option.map_eq_some_iff.mp h
          obtain ⟨rfl, rfl, rfl⟩ := by simpa using hresult
          rcases SqliteEventSink.commitFrom_cases hcommit with ⟨err, rfl, rfl, rfl⟩ | ⟨n, rfl, rfl, rfl⟩
          · exact Or.inl ⟨_, rfl, rfl, rfl⟩
          · exact Or.inr ⟨_, rfl, ⟨importer.queue, hold, rfl⟩, .nil⟩

theorem Batch.Holds.step {s s' : Batch} (hold : s.Holds lib) {op : BatchOp} (hok : s.Succeeds op)
    (h : s.step lib op = some s') : s'.Holds lib := by
  cases op with
  | submit event ulid => exact hold.submit h
  | commit outcome =>
      obtain ⟨⟨result, sink, db⟩, hcommit, h⟩ := Option.map_eq_some_iff.mp h
      rcases hold.commit hok hcommit with ⟨err, rfl, rfl, rfl⟩ | ⟨n, rfl, -, hempty⟩
      · subst h
        exact hold
      · subst h
        exact hempty

/-- A commit meets the law exactly when it is no failing one of an Elasticsearch sink. -/
theorem Batch.Holds.succeeds_iff {s : Batch} (hold : s.Holds lib) (op : BatchOp) :
    s.Succeeds op ↔ s.Law lib op := by
  constructor
  · intro hok
    cases op with
    | submit event ulid => trivial
    | commit outcome =>
        intro result sink db hcommit
        rcases hold.commit hok hcommit with ⟨err, rfl, hsame⟩ | ⟨n, rfl, hdelivers, -⟩
        · exact hsame
        · exact hdelivers
  · intro hlaw
    obtain ⟨old, stored, submitted⟩ := s
    cases op with
    | submit event ulid => trivial
    | commit outcome =>
        cases outcome with
        | sql faults => trivial
        | http reply =>
            cases old with
            | eveBox importer => trivial
            | sqlite importer => trivial
            | elastic importer =>
                show reply.accepted = true
                by_contra hrefused
                obtain ⟨err, hcommit⟩ := importer.commit_refused (Bool.eq_false_of_not_eq_true hrefused)
                have hsame : EventSink.elastic { importer with queue := importer.request } =
                    .elastic importer ∧ stored = stored := by
                  apply hlaw (.error (.http err))
                  simp only [EventSink.commit, hcommit]
                  rfl
                -- the queue has got a line more
                have hqueue : importer.queue ++ [.empty] = importer.queue :=
                  congrArg ElasticEventSink.queue (EventSink.elastic.inj hsame.1)
                exact absurd (List.append_right_eq_self.mp hqueue) (List.cons_ne_nil _ _)

theorem Batch.Holds.new (config : SinkConfig) (db : Store) : (Batch.new config db).Holds lib := by
  cases config with
  | eveBox => rfl
  | elastic index noIndexSuffix opensearch => exact ⟨[], .nil, rfl⟩
  | sqlite => exact .nil

/-- In every run of a sink, with any events submitted and any commits failing: all the commits meet the law if
and only if the sink is not that of Elasticsearch, or none of its commits fails. -/
theorem batch_law (lib : TimeLib) (config : SinkConfig) (db : Store) (ops : List BatchOp) :
    Along (Batch.step lib) (Batch.Law lib) (.new config db) ops ↔
      Along (Batch.step lib) Batch.Succeeds (.new config db) ops := by
  have hpre : Along (Batch.step lib) (fun _ _ => True) (.new config db) ops :=
    along_of_forall (fun _ _ => trivial) _
  symm
  refine along_congr (P := Batch.Holds lib) ?_ ?_ (Batch.Holds.new config db) hpre
  · exact fun s op s' hold _ hok hstep => hold.step hok hstep
  · exact fun s op hold _ => hold.succeeds_iff op

/-! ## A commit that fails -/

/-- The time library, on one timestamp. -/
def noonLib : TimeLib where
  parse text := if text = "2026-06-28T12:00:00.000000+0000".toList then some ⟨1782648000000000000, 0⟩ else none
  isDigit := Char.isDigit
  format pattern _ := if pattern = "%Y.%m.%d" then "2026.06.28" else "2026-06-28T12:00:00.000000+0000"
  rfc3339Micros _ := "2026-06-28T12:00:00.000000Z"
  rfc3339Millis _ := "2026-06-28T12:00:00.000Z"

/-- An event at that time. -/
def noonEvent : Json := .object [("timestamp", .string "2026-06-28T12:00:00.000000+0000")]

/-- The event with the field that the Elasticsearch sink adds. -/
def noonDocument : Json :=
  .object [("@timestamp", .string "2026-06-28T12:00:00.000Z"),
    ("timestamp", .string "2026-06-28T12:00:00.000000+0000")]

/-- A failed commit of the Elasticsearch sink leaves a line in the queue, and the next request has it. -/
theorem failedCommit_adds_line :
    ∃ s s', exec (Batch.step noonLib) (.new (.elastic "logstash" false false) ⟨[], none⟩)
        [.submit noonEvent "01"] = some s ∧
      s.step noonLib (.commit (.http .failed)) = some s' ∧ s'.sink ≠ s.sink ∧
      ∃ importer, s'.sink = .elastic importer ∧ importer.request =
        [.header "logstash-2026.06.28" "01", .event noonDocument, .empty, .empty] := by
  have hrun : ((exec (Batch.step noonLib) (.new (.elastic "logstash" false false) ⟨[], none⟩)
      [.submit noonEvent "01"]).bind fun s => (s.step noonLib (.commit (.http .failed))).map fun s' =>
        (decide (s'.sink = s.sink), s'.sink)) =
      some (false, .elastic ⟨"logstash",
        [.header "logstash-2026.06.28" "01", .event noonDocument, .empty], false, false⟩) := by
    decide +kernel
  obtain ⟨s, hs, hrun⟩ := Option.bind_eq_some_iff.mp hrun
  obtain ⟨s', hs', hresult⟩ := Option.map_eq_some_iff.mp hrun
  obtain ⟨hchanged, hsink⟩ := Prod.mk.inj hresult
  exact ⟨s, s', hs, hs', of_decide_eq_false hchanged, _, hsink, rfl⟩

end EveBox.Sink
