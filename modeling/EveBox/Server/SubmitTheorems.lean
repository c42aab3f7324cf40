import EveBox.Lib.Transition
import EveBox.Rust.JsonRoundTrip
import EveBox.Server.Submit
import EveBox.Sink.SubmitTheorems

/-!
# Events on their way to the server

Reference: `src/server/api/submit.rs`, `src/agent/importer.rs` and `src/sqlite/importer.rs`.

* `receive_request` — the server reads of a request the events that the agent has queued.
* `submission_law` — nothing that the agent has given away is missing in the database, and nothing else is there for
  it.
* `submission_once` — where no answer is lost, everything is there once.
* `submission_flush` — one exchange empties the queue.
-/

namespace EveBox.Server

open Rust Eve Sink Sqlite Transition

/-! ## The request -/

section

variable {lib : TimeLib} {readNumber : List Char → Option Number} {context : SubmitContext}

/-- The events of a request, taken one by one. -/
def Received.takeAll (lib : TimeLib) (context : SubmitContext) (r : Received) (events : List Json) : Option Received :=
  events.foldlM (fun r event => r.take lib context event) r

theorem Received.takeAll_cons (r : Received) (event : Json) (events : List Json) :
    r.takeAll lib context (event :: events) =
      (r.take lib context event).bind fun r => r.takeAll lib context events := rfl

theorem chars_ne_nil {room : ℕ} {j : Json} (h : j.Readable readNumber room) : j.chars ≠ [] := by
  cases j with
  | null => decide
  | bool b => cases b <;> decide
  | number n => exact h.nonempty
  | string s => exact List.cons_ne_nil _ _
  | array elems => exact List.cons_ne_nil _ _
  | object fields => exact List.cons_ne_nil _ _

/-- The line of an event is read as this event. -/
theorem Received.read_line (r : Received) {event : Json} (h : event.Readable readNumber Json.Reader.maxDepth)
    {blanks : List Char} (hblanks : ∀ c ∈ blanks, JsonTokens.isSpace c = true) (lines : List Bytes) :
    r.read lib readNumber context (utf8Encode (event.chars ++ blanks) :: lines) =
      (r.take lib context event).bind fun r => r.read lib readNumber context lines := by
  rw [Received.read, utf8Decode_utf8Encode]
  simp only [Json.fromStr_chars h hblanks]

/-- The lines of some events are read as these events. -/
theorem Received.read_lines {events : List Json} (h : ∀ e ∈ events, e.Readable readNumber Json.Reader.maxDepth)
    (r : Received) : r.read lib readNumber context
      (Lines.pieces newline (utf8Encode (['\n'].intercalate (events.map Json.chars)))) =
        r.takeAll lib context events := by
  induction events generalizing r with
  | nil => rfl
  | cons event events ih =>
      have hevent := h event List.mem_cons_self
      have hline : newline ∉ utf8Encode event.chars :=
        newline_not_mem_utf8Encode (Json.newline_not_mem_chars hevent)
      rw [Received.takeAll_cons]
      cases events with
      | nil =>
          have hne : utf8Encode event.chars ≠ [] := by
            obtain ⟨c, cs, hcs⟩ := List.exists_cons_of_ne_nil (chars_ne_nil hevent)
            rw [hcs]
            exact List.append_ne_nil_of_left_ne_nil (utf8EncodeChar_ne_nil c) _
          have hread := @Received.read_line lib readNumber context r event hevent []
            (fun _ hc => absurd hc List.not_mem_nil) []
          rw [List.append_nil] at hread
          rw [List.map_singleton, List.intercalate_singleton, Lines.pieces_of_not_mem hline hne, hread]
          rfl
      | cons event' events =>
          have htext : utf8Encode (['\n'].intercalate ((event :: event' :: events).map Json.chars)) =
              [utf8Encode (event.chars ++ ['\n'])].flatten ++
                utf8Encode (['\n'].intercalate ((event' :: events).map Json.chars)) := by
            rw [List.flatten_singleton, ← utf8Encode_append, List.map_cons, List.map_cons, List.intercalate_cons_cons]
          have hall : ∀ line ∈ [utf8Encode (event.chars ++ ['\n'])], Lines.IsLine newline line := by
            intro line hmem
            obtain rfl := List.mem_singleton.mp hmem
            exact ⟨utf8Encode event.chars, utf8Encode_append _ _, hline⟩
          rw [htext, Lines.pieces_flatten_append hall, List.singleton_append,
            r.read_line hevent (List.forall_mem_singleton.mpr rfl)]
          exact congrArg _ (funext fun r => ih (fun e he => h e (List.mem_cons_of_mem _ he)) r)

/-- The server reads of a request the events that the agent has queued, whatever is in them. -/
theorem receive_request {agent : EveBoxEventSink} {events : List Json} (hqueue : agent.queue = events.map Json.text)
    (h : ∀ e ∈ events, e.Readable readNumber Json.Reader.maxDepth) (importer : EventSink) :
    receive lib readNumber context importer (Submission.requestOf agent) =
      (⟨importer, 0, []⟩ : Received).takeAll lib context events := by
  have htext : agent.body.toList = ['\n'].intercalate (events.map Json.chars) := by
    rw [EveBoxEventSink.body, hqueue, String.toList_intercalate, List.map_map]
    refine congrArg₂ List.intercalate rfl (List.map_congr_left fun e _ => ?_)
    exact String.toList_ofList
  rw [receive, Submission.requestOf, htext, Received.read_lines h]

end

/-- No event is archived. -/
def plainContext : SubmitContext := ⟨fun _ => false, .string, fun _ => ""⟩

/-- Events with what a line of JSON could be broken by. -/
def oddEvents : List Json :=
  [.object [("message", .string "\"ä\n\\"), ("tags", .array [.null, .bool true])], .object []]

theorem receive_request_oddEvents :
    receive noonLib (fun _ => none) plainContext (.sqlite .new) (Submission.requestOf ⟨oddEvents.map Json.text, 0⟩) =
      (⟨.sqlite .new, 0, []⟩ : Received).takeAll noonLib plainContext oddEvents := by
  refine receive_request rfl (fun e he => ?_) _
  simp only [oddEvents, List.mem_cons, List.not_mem_nil, or_false] at he
  rcases he with rfl | rfl
  · exact ⟨by decide, List.pairwise_pair.mpr (by decide), trivial, ⟨by decide, trivial, trivial, trivial⟩, trivial⟩
  · exact ⟨by decide, List.Pairwise.nil, trivial⟩

/-! ## What the server stores -/

section

variable (lib : TimeLib) (context : SubmitContext)

/-- What the server stores of an event. -/
def stored (event : Json) : Option PreparedEvent :=
  (runFilters context.entry context.filters event).bind (prepared lib)

/-- The event has a time; the database refuses one that has none, and the server passes over it. -/
def Dated (event : Json) : Bool := (datetime lib event).isSome

end

section

variable {lib : TimeLib} {context : SubmitContext} {event : Json} {r r' : Received} {queue : List PreparedEvent}

/-- The filters of the server leave the timestamp. -/
theorem datetime_filtered {filtered : Json} (h : runFilters context.entry context.filters event = some filtered) :
    datetime lib filtered = datetime lib event := by
  have hfields : LeavesEvebox [.autoArchive context.isMatch] := fun value hmem => by simp at hmem
  obtain ⟨hshape, hroom⟩ := (runFilters_eq_some_iff context.entry hfields).mp ⟨filtered, h⟩
  obtain ⟨filtered', hfiltered', -, htimestamp⟩ :=
    runFilters_withDefaults_ready context.entry hfields hshape hroom
  obtain rfl := Option.some.inj (h.symm.trans hfiltered')
  have hsame : filtered.get "timestamp" = event.get "timestamp" := htimestamp
  rw [datetime, hsame, datetime]

/-- An event goes into the queue of the importer, if it has a time. -/
theorem take_sqlite (hr : r.importer = .sqlite ⟨queue⟩) (h : r.take lib context event = some r') :
    r'.importer = .sqlite ⟨queue ++ (stored lib context event).toList⟩ ∧ r'.count = r.count + 1 ∧
      (stored lib context event).isSome = Dated lib event := by
  obtain ⟨filtered, hfiltered, h⟩ := Option.bind_eq_some_iff.mp h
  obtain ⟨⟨result, importer⟩, hsubmit, h⟩ := Option.bind_eq_some_iff.mp h
  obtain rfl := Option.some.inj h
  rw [hr, EventSink.submit, SqliteEventSink.submit, Option.map_map] at hsubmit
  obtain ⟨prep, hprep, hsubmit⟩ := Option.map_eq_some_iff.mp hsubmit
  have hstored : stored lib context event = prep.toOption := by
    rw [stored, hfiltered, Option.bind_some, prepared, hprep, Option.bind_some]
  have hdated : prep.toOption.isSome = Dated lib event := by
    rw [Dated, ← datetime_filtered hfiltered]
    unfold SqliteEventSink.prep at hprep
    cases hdt : datetime lib filtered with
    | none =>
        rw [hdt] at hprep
        obtain rfl := Option.some.inj hprep
        rfl
    | some ts =>
        rw [hdt] at hprep
        obtain ⟨_, -, hprep⟩ := Option.bind_eq_some_iff.mp hprep
        obtain ⟨_, -, hprep⟩ := Option.bind_eq_some_iff.mp hprep
        obtain rfl := Option.some.inj hprep
        rfl
  rw [hstored]
  refine ⟨?_, rfl, hdated⟩
  cases prep with
  | error err =>
      obtain ⟨-, rfl⟩ := Prod.mk.inj hsubmit
      exact congrArg (fun queue => EventSink.sqlite ⟨queue⟩) (List.append_nil _).symm
  | ok row =>
      obtain ⟨-, rfl⟩ := Prod.mk.inj hsubmit
      rfl

/-- So do the events of a request. -/
theorem takeAll_sqlite {events : List Json} (hr : r.importer = .sqlite ⟨queue⟩)
    (h : r.takeAll lib context events = some r') :
    r'.importer = .sqlite ⟨queue ++ events.filterMap (stored lib context)⟩ ∧ r'.count = r.count + events.length ∧
      ∀ e ∈ events, (stored lib context e).isSome = Dated lib e := by
  induction events generalizing r queue with
  | nil =>
      obtain rfl := Option.some.inj h
      exact ⟨by rw [hr, List.filterMap_nil, List.append_nil], rfl, fun _ he => absurd he List.not_mem_nil⟩
  | cons event events ih =>
      rw [Received.takeAll_cons] at h
      obtain ⟨r₁, htake, h⟩ := Option.bind_eq_some_iff.mp h
      obtain ⟨himporter, hcount, hdated⟩ := take_sqlite hr htake
      obtain ⟨himporter', hcount', hdated'⟩ := ih himporter h
      refine ⟨?_, by rw [hcount', hcount, List.length_cons]; omega, ?_⟩
      · rw [himporter', List.append_assoc]
        refine congrArg (fun rows => EventSink.sqlite ⟨queue ++ rows⟩) ?_
        cases hstored : stored lib context event with
        | none => rw [List.filterMap_cons_none hstored]; rfl
        | some row => rw [List.filterMap_cons_some hstored]; rfl
      · rw [List.forall_mem_cons]
        exact ⟨hdated, hdated'⟩

/-- The commit stores the whole request and answers with a success, or stores nothing. -/
theorem respond_sqlite {db db' : Store} {faults : List (Option SqlError)} {response : SubmitResponse}
    (hr : r.importer = .sqlite ⟨queue⟩) (hempty : r.count = 0 → queue = [])
    (h : r.respond db (.sql faults) = some (response, db')) :
    response.status ≠ 200 ∧ db' = db ∨ response.status = 200 ∧ db' = queue.foldl insertEvent db := by
  unfold Received.respond at h
  split at h
  · rename_i hcount
    obtain ⟨rfl, rfl⟩ := Prod.mk.inj (Option.some.inj h)
    rw [hempty hcount]
    exact .inr ⟨rfl, rfl⟩
  · rw [hr, EventSink.commit, Option.map_map] at h
    obtain ⟨⟨result, importer, db₁⟩, hcommit, hanswer⟩ := Option.map_eq_some_iff.mp h
    rcases SqliteEventSink.commitFrom_cases hcommit with ⟨err, rfl, rfl, rfl⟩ | ⟨n, rfl, rfl, rfl⟩
    · obtain ⟨rfl, rfl⟩ := Prod.mk.inj hanswer
      exact .inl ⟨by decide, rfl⟩
    · obtain ⟨rfl, rfl⟩ := Prod.mk.inj hanswer
      exact .inr ⟨rfl, rfl⟩

end

/-! ## The journal -/

/-- The rows that have been stored, in order: with the event of the agent that it is of, or without one. -/
abbrev Journal := List (Option Json × PreparedEvent)

namespace Journal

/-- The events of the agent. -/
def mine (journal : Journal) : List Json := journal.filterMap Prod.fst

/-- The rows. -/
def rows (journal : Journal) : List PreparedEvent := journal.map Prod.snd

/-- What is stored of a request. -/
def ofEvents (lib : TimeLib) (context : SubmitContext) (events : List Json) : Journal :=
  events.filterMap fun e => (stored lib context e).map fun row => (some e, row)

section

variable {lib : TimeLib} {context : SubmitContext} {events : List Json}

theorem mine_append (a b : Journal) : (a ++ b).mine = a.mine ++ b.mine := List.filterMap_append

theorem rows_append (a b : Journal) : (a ++ b).rows = a.rows ++ b.rows := List.map_append

theorem rows_ofEvents : (ofEvents lib context events).rows = events.filterMap (stored lib context) := by
  rw [rows, ofEvents, List.map_filterMap]
  refine congrArg (List.filterMap · events) (funext fun e => ?_)
  rw [Option.map_map]
  exact Option.map_id'

theorem mine_ofEvents (h : ∀ e ∈ events, (stored lib context e).isSome = Dated lib e) :
    (ofEvents lib context events).mine = events.filter (Dated lib) := by
  rw [mine, ofEvents, List.filterMap_filterMap, ← List.filterMap_eq_filter]
  refine List.filterMap_congr fun e he => ?_
  have hdated : Dated lib e = (stored lib context e).isSome := (h e he).symm
  cases hstored : stored lib context e with
  | none =>
      rw [hstored] at hdated
      simp [hdated, Option.guard]
  | some row =>
      rw [hstored] at hdated
      simp [hdated, Option.guard]

theorem mem_ofEvents {entry : Option Json × PreparedEvent} (h : entry ∈ ofEvents lib context events) :
    ∃ e ∈ events, entry.1 = some e ∧ stored lib context e = some entry.2 := by
  obtain ⟨e, he, hentry⟩ := List.mem_filterMap.mp h
  obtain ⟨row, hrow, rfl⟩ := Option.map_eq_some_iff.mp hentry
  exact ⟨e, he, rfl, hrow⟩

end

end Journal

/-! ## The invariant -/

section

variable (lib : TimeLib) (readNumber : List Char → Option Number)

/-- The events that an agent is given can be read again. -/
def SubmissionOp.Readable : SubmissionOp → Prop
  | submit event => event.Readable readNumber Json.Reader.maxDepth
  | _ => True

/-- The agent has given away the events `done`, and holds the others. -/
structure SubmissionInv (db₀ : Store) (s : Submission) (journal : Journal) (done pending : List Json) : Prop where
  submitted : s.submitted = done ++ pending
  queue : s.agent.queue = pending.map Json.text
  readable : ∀ e ∈ s.submitted, e.Readable readNumber Json.Reader.maxDepth
  db : s.db = journal.rows.foldl insertEvent db₀
  made : ∀ entry ∈ journal, ∀ e, entry.1 = some e → e ∈ s.submitted ∧ ∃ context, stored lib context e = some entry.2
  delivered : (done.filter (Dated lib)).Sublist journal.mine
  sent : ∀ (i : ℕ) body, s.requests[i]? = some (.sent body) → ∃ (agent : EveBoxEventSink) (events : List Json),
    agent.queue = events.map Json.text ∧ events ⊆ s.submitted ∧ body = Submission.requestOf agent
  awaited : ∀ (i : ℕ) body, s.waiting = some i → s.requests[i]? = some (.sent body) →
    body = Submission.requestOf s.agent
  settled : ∀ (i : ℕ) response, s.waiting = some i → s.requests[i]? = some (.answered response) →
    response.status = 200 → ((done ++ pending).filter (Dated lib)).Sublist journal.mine

/-- No answer is lost, and no request is given up that the server may still take. -/
def Submission.Clean (s : Submission) : SubmissionOp → Prop
  | .lose i => ∀ response, s.requests[i]? ≠ some (.answered response)
  | .giveUp => ∀ i, s.waiting = some i → s.requests[i]? = some .gone
  | _ => True

/-- Everything that is given away has been stored once. -/
structure Once (s : Submission) (journal : Journal) (done pending : List Json) : Prop where
  alone : ∀ (i : ℕ) request, s.requests[i]? = some request → request ≠ .gone → s.waiting = some i
  unsettled : (∀ (i : ℕ) response, s.waiting = some i → s.requests[i]? = some (.answered response) →
    response.status ≠ 200) → journal.mine = done.filter (Dated lib)
  settled : ∀ (i : ℕ) response, s.waiting = some i → s.requests[i]? = some (.answered response) →
    response.status = 200 → journal.mine = (done ++ pending).filter (Dated lib)

/-- A step keeps the invariant, and a clean one keeps that everything has been stored once. -/
def Kept (db₀ : Store) (s s' : Submission) (op : SubmissionOp) (journal : Journal) (done pending : List Json) : Prop :=
  ∃ journal' done' pending', SubmissionInv lib readNumber db₀ s' journal' done' pending' ∧
    (s.Clean op → Once lib s journal done pending → Once lib s' journal' done' pending')

end

section

variable {lib : TimeLib} {readNumber : List Char → Option Number} {db₀ : Store} {s s' : Submission}
variable {journal : Journal} {done pending : List Json}

/-- A request that is changed, and the others. -/
theorem getElem?_set_cases {requests : List SubmitRequest} {i j : ℕ} {request other : SubmitRequest}
    (h : (requests.set i request)[j]? = some other) : i = j ∧ other = request ∨ i ≠ j ∧ requests[j]? = some other := by
  rw [List.getElem?_set] at h
  split at h
  · rename_i hij
    split at h
    · exact .inl ⟨hij, (Option.some.inj h).symm⟩
    · cases h
  · rename_i hij
    exact .inr ⟨hij, h⟩

theorem kept_submit (h : SubmissionInv lib readNumber db₀ s journal done pending) {event : Json}
    (hevent : event.Readable readNumber Json.Reader.maxDepth)
    (hstep : s.step lib readNumber (.submit event) = some s') :
    Kept lib readNumber db₀ s s' (.submit event) journal done pending := by
  simp only [Submission.step] at hstep
  split at hstep
  · cases hstep
  rename_i hwaiting
  obtain rfl := Option.some.inj hstep
  have hnone : s.waiting = none := Option.not_isSome_iff_eq_none.mp hwaiting
  refine ⟨journal, done, pending ++ [event], ⟨?_, ?_, ?_, h.db, ?_, h.delivered, ?_, ?_, ?_⟩,
    fun _ honce => ⟨honce.alone, ?_, ?_⟩⟩
  · show s.submitted ++ [event] = _
    rw [h.submitted, List.append_assoc]
  · show s.agent.queue ++ [event.text] = _
    rw [h.queue, List.map_append]
    rfl
  · intro e he
    rcases List.mem_append.mp he with he | he
    · exact h.readable e he
    · exact List.mem_singleton.mp he ▸ hevent
  · intro entry hentry e he
    obtain ⟨hmem, hstored⟩ := h.made entry hentry e he
    exact ⟨List.mem_append_left _ hmem, hstored⟩
  · intro i body hbody
    obtain ⟨agent, events, hqueue, hevents, hbody⟩ := h.sent i body hbody
    exact ⟨agent, events, hqueue, fun e he => List.mem_append_left _ (hevents he), hbody⟩
  · exact fun i body hi => by cases hnone.symm.trans hi
  · exact fun i response hi => by cases hnone.symm.trans hi
  · exact fun _ => honce.unsettled fun i response hi => by cases hnone.symm.trans hi
  · exact fun i response hi => by cases hnone.symm.trans hi

theorem kept_post (h : SubmissionInv lib readNumber db₀ s journal done pending)
    (hstep : s.step lib readNumber .post = some s') : Kept lib readNumber db₀ s s' .post journal done pending := by
  simp only [Submission.step] at hstep
  split at hstep
  · cases hstep
  rename_i hwaiting
  obtain rfl := Option.some.inj hstep
  have hnone : s.waiting = none := Option.not_isSome_iff_eq_none.mp hwaiting
  -- the last request is the one that is waited for
  have hcases : ∀ (i : ℕ) request, (s.requests ++ [.sent (Submission.requestOf s.agent)])[i]? = some request →
      s.requests[i]? = some request ∨ i = s.requests.length ∧ request = .sent (Submission.requestOf s.agent) := by
    intro i request hget
    rcases Nat.lt_or_ge i s.requests.length with hlt | hge
    · rw [List.getElem?_append_left hlt] at hget
      exact .inl hget
    · rw [List.getElem?_append_right hge, List.getElem?_singleton] at hget
      split at hget
      · exact .inr ⟨by omega, (Option.some.inj hget).symm⟩
      · cases hget
  have hlast : (s.requests ++ [SubmitRequest.sent (Submission.requestOf s.agent)])[s.requests.length]? =
      some (.sent (Submission.requestOf s.agent)) := by
    rw [List.getElem?_append_right (Nat.le_refl _), Nat.sub_self]
    rfl
  have hsettled : ∀ (i : ℕ) response, some s.requests.length = some i →
      (s.requests ++ [.sent (Submission.requestOf s.agent)])[i]? ≠ some (.answered response) := by
    intro i response hi hget
    obtain rfl := Option.some.inj hi
    rw [hlast] at hget
    cases hget
  refine ⟨journal, done, pending, ⟨h.submitted, h.queue, h.readable, h.db, h.made, h.delivered, ?_, ?_, ?_⟩,
    fun _ honce => ⟨?_, fun _ => ?_, ?_⟩⟩
  · intro i body hget
    rcases hcases i _ hget with hget | ⟨-, hbody⟩
    · exact h.sent i body hget
    · cases hbody
      exact ⟨s.agent, pending, h.queue, fun e he => h.submitted ▸ List.mem_append_right _ he, rfl⟩
  · intro i body hi hget
    obtain rfl := Option.some.inj hi
    rw [hlast] at hget
    cases hget
    rfl
  · exact fun i response hi hget => absurd hget (hsettled i response hi)
  · intro i request hget hrequest
    rcases hcases i request hget with hget | ⟨rfl, -⟩
    · cases hnone.symm.trans (honce.alone i request hget hrequest)
    · rfl
  · exact honce.unsettled fun i response hi => by cases hnone.symm.trans hi
  · exact fun i response hi hget => absurd hget (hsettled i response hi)

/-- A request that has nothing to say any more. -/
theorem kept_set (h : SubmissionInv lib readNumber db₀ s journal done pending) {i : ℕ} {request : SubmitRequest}
    (hrequest : request = .gone ∨ ∃ response, request = .answered response ∧ response.status ≠ 200) {op : SubmissionOp}
    (hsent : s.Clean op → ∃ body, s.requests[i]? = some (.sent body)) :
    Kept lib readNumber db₀ s { s with requests := s.requests.set i request } op journal done pending := by
  have hnot : ∀ (j : ℕ) response, (s.requests.set i request)[j]? = some (.answered response) → response.status = 200 →
      i ≠ j ∧ s.requests[j]? = some (.answered response) := by
    intro j response hget hstatus
    rcases getElem?_set_cases hget with ⟨-, heq⟩ | hother
    · rcases hrequest with rfl | ⟨other, rfl, hother⟩
      · cases heq
      · cases heq
        exact absurd hstatus hother
    · exact hother
  refine ⟨journal, done, pending, ⟨h.submitted, h.queue, h.readable, h.db, h.made, h.delivered, ?_, ?_, ?_⟩,
    fun hclean honce => ?_⟩
  · intro j body hget
    rcases getElem?_set_cases hget with ⟨-, heq⟩ | ⟨-, hget⟩
    · rcases hrequest with rfl | ⟨other, rfl, -⟩
      · cases heq
      · cases heq
    · exact h.sent j body hget
  · intro j body hj hget
    rcases getElem?_set_cases hget with ⟨-, heq⟩ | ⟨-, hget⟩
    · rcases hrequest with rfl | ⟨other, rfl, -⟩
      · cases heq
      · cases heq
    · exact h.awaited j body hj hget
  · intro j response hj hget hstatus
    exact h.settled j response hj (hnot j response hget hstatus).2 hstatus
  · obtain ⟨body, hbody⟩ := hsent hclean
    have hwaiting := honce.alone i _ hbody (by simp)
    refine ⟨fun j other hget hother => ?_, fun _ => ?_, fun j response hj hget hstatus => ?_⟩
    · rcases getElem?_set_cases hget with ⟨rfl, -⟩ | ⟨-, hget⟩
      · exact hwaiting
      · exact honce.alone j other hget hother
    · refine honce.unsettled fun j response hj hget => ?_
      obtain rfl := Option.some.inj (hwaiting.symm.trans hj)
      rw [hbody] at hget
      cases hget
    · exact absurd (Option.some.inj (hwaiting.symm.trans hj)) (hnot j response hget hstatus).1

/-- The rows of a request are behind those that have been stored before. -/
theorem made_ofEvents (h : SubmissionInv lib readNumber db₀ s journal done pending) {context : SubmitContext}
    {events : List Json} (hevents : events ⊆ s.submitted) : ∀ entry ∈ journal ++ .ofEvents lib context events, ∀ e,
      entry.1 = some e → e ∈ s.submitted ∧ ∃ context, stored lib context e = some entry.2 := by
  intro entry hentry e he
  rcases List.mem_append.mp hentry with hentry | hentry
  · exact h.made entry hentry e he
  · obtain ⟨e', he', hfst, hstored⟩ := Journal.mem_ofEvents hentry
    obtain rfl := Option.some.inj (hfst.symm.trans he)
    exact ⟨hevents he', context, hstored⟩

/-- A request that is stored. -/
theorem kept_stored (h : SubmissionInv lib readNumber db₀ s journal done pending) {i : ℕ} {body : Bytes}
    (hget : s.requests[i]? = some (.sent body)) {context : SubmitContext} {events : List Json}
    (hevents : events ⊆ s.submitted) (hpending : s.waiting = some i → events = pending)
    (hdated : ∀ e ∈ events, (stored lib context e).isSome = Dated lib e) {response : SubmitResponse}
    (hresponse : response.status = 200) {op : SubmissionOp} :
    Kept lib readNumber db₀ s { s with
      requests := s.requests.set i (.answered response)
      db := (events.filterMap (stored lib context)).foldl insertEvent s.db } op journal done pending := by
  have hmine : Journal.mine (journal ++ .ofEvents lib context events) = journal.mine ++ events.filter (Dated lib) := by
    rw [Journal.mine_append, Journal.mine_ofEvents hdated]
  refine ⟨journal ++ .ofEvents lib context events, done, pending,
    ⟨h.submitted, h.queue, h.readable, ?_, made_ofEvents h hevents, ?_, ?_, ?_, ?_⟩, fun _ honce => ?_⟩
  · show (events.filterMap (stored lib context)).foldl insertEvent s.db = _
    rw [Journal.rows_append, Journal.rows_ofEvents, List.foldl_append, h.db]
  · rw [hmine]
    exact h.delivered.trans (List.sublist_append_left _ _)
  · intro j body' hget'
    rcases getElem?_set_cases hget' with ⟨-, heq⟩ | ⟨-, hget'⟩
    · cases heq
    · exact h.sent j body' hget'
  · intro j body' hj hget'
    rcases getElem?_set_cases hget' with ⟨-, heq⟩ | ⟨-, hget'⟩
    · cases heq
    · exact h.awaited j body' hj hget'
  · intro j response' hj hget' hstatus
    rw [hmine]
    rcases getElem?_set_cases hget' with ⟨rfl, -⟩ | ⟨-, hget'⟩
    · rw [List.filter_append, hpending hj]
      exact h.delivered.append (List.Sublist.refl _)
    · exact (h.settled j response' hj hget' hstatus).trans (List.sublist_append_left _ _)
  · have hwaiting := honce.alone i _ hget (by simp)
    -- the agent waits for this request, so that none of its events is there yet
    have hbefore : journal.mine = done.filter (Dated lib) := honce.unsettled fun j response' hj hget' => by
      obtain rfl := Option.some.inj (hwaiting.symm.trans hj)
      rw [hget] at hget'
      cases hget'
    have hset : (s.requests.set i (.answered response))[i]? = some (.answered response) := by
      rw [List.getElem?_set_self (List.getElem?_eq_some_iff.mp hget).choose]
    refine ⟨fun j other hget' hother => ?_, fun hnone => ?_, fun j response' hj hget' hstatus => ?_⟩
    · rcases getElem?_set_cases hget' with ⟨rfl, -⟩ | ⟨-, hget'⟩
      · exact hwaiting
      · exact honce.alone j other hget' hother
    · exact absurd hresponse (hnone i response hwaiting hset)
    · rw [hmine, hbefore, hpending hwaiting, List.filter_append]

theorem kept_handle (h : SubmissionInv lib readNumber db₀ s journal done pending) {i : ℕ} {context : SubmitContext}
    {faults : List (Option SqlError)} (hstep : s.step lib readNumber (.handle i context faults) = some s') :
    Kept lib readNumber db₀ s s' (.handle i context faults) journal done pending := by
  simp only [Submission.step] at hstep
  split at hstep
  · rename_i body hget
    split at hstep
    · obtain rfl := Option.some.inj hstep
      exact kept_set h (.inr ⟨_, rfl, by decide⟩) fun _ => ⟨body, hget⟩
    split at hstep
    · obtain rfl := Option.some.inj hstep
      exact kept_set h (.inl rfl) fun _ => ⟨body, hget⟩
    · rename_i r hreceive
      obtain ⟨⟨response, db⟩, hrespond, rfl⟩ := Option.map_eq_some_iff.mp hstep
      -- the events of the request, which are those of the queue while the agent waits for it
      obtain ⟨agent, events, hqueue, hevents, hbody, hpending⟩ : ∃ (agent : EveBoxEventSink) (events : List Json),
          agent.queue = events.map Json.text ∧ events ⊆ s.submitted ∧ body = Submission.requestOf agent ∧
            (s.waiting = some i → events = pending) := by
        by_cases hwaiting : s.waiting = some i
        · exact ⟨s.agent, pending, h.queue, fun e he => h.submitted ▸ List.mem_append_right _ he,
            h.awaited i body hwaiting hget, fun _ => rfl⟩
        · obtain ⟨agent, events, hqueue, hevents, hbody⟩ := h.sent i body hget
          exact ⟨agent, events, hqueue, hevents, hbody, fun heq => absurd heq hwaiting⟩
      rw [hbody, receive_request hqueue fun e he => h.readable e (hevents he)] at hreceive
      obtain ⟨himporter, hcount, hdated⟩ := takeAll_sqlite rfl hreceive
      rw [List.nil_append] at himporter
      have hempty : r.count = 0 → events.filterMap (stored lib context) = [] := fun hzero => by
        have hnil : events = [] := List.length_eq_zero_iff.mp (by omega)
        rw [hnil]
        rfl
      rcases respond_sqlite himporter hempty hrespond with ⟨hstatus, rfl⟩ | ⟨hstatus, rfl⟩
      · exact kept_set h (.inr ⟨response, rfl, hstatus⟩) fun _ => ⟨body, hget⟩
      · exact kept_stored h hget hevents hpending hdated hstatus
  · cases hstep

theorem kept_lose (h : SubmissionInv lib readNumber db₀ s journal done pending) {i : ℕ}
    (hstep : s.step lib readNumber (.lose i) = some s') :
    Kept lib readNumber db₀ s s' (.lose i) journal done pending := by
  simp only [Submission.step] at hstep
  split at hstep
  · rename_i body hget
    obtain rfl := Option.some.inj hstep
    exact kept_set h (.inl rfl) fun _ => ⟨body, hget⟩
  · rename_i response hget
    obtain rfl := Option.some.inj hstep
    exact kept_set h (.inl rfl) fun hclean => absurd hget (hclean response)
  · cases hstep

theorem kept_answer (h : SubmissionInv lib readNumber db₀ s journal done pending)
    (hstep : s.step lib readNumber .answer = some s') : Kept lib readNumber db₀ s s' .answer journal done pending := by
  simp only [Submission.step] at hstep
  obtain ⟨i, hwaiting, hstep⟩ := Option.bind_eq_some_iff.mp hstep
  split at hstep
  · rename_i response hget
    obtain rfl := Option.some.inj hstep
    have hsent : ∀ (j : ℕ) body, (s.requests.set i .gone)[j]? = some (.sent body) →
        s.requests[j]? = some (.sent body) := by
      intro j body hget'
      rcases getElem?_set_cases hget' with ⟨-, heq⟩ | ⟨-, hget'⟩
      · cases heq
      · exact hget'
    have halone : Once lib s journal done pending → ∀ (j : ℕ) request, (s.requests.set i .gone)[j]? = some request →
        request ≠ .gone → (none : Option ℕ) = some j := by
      intro honce j request hget' hrequest
      rcases getElem?_set_cases hget' with ⟨-, rfl⟩ | ⟨hne, hget'⟩
      · exact absurd rfl hrequest
      · exact absurd (Option.some.inj (hwaiting.symm.trans (honce.alone j request hget' hrequest))) hne
    by_cases hstatus : response.status = 200
    -- the agent gives its queue away, or keeps it
    · have hagent : (s.agent.commit response.reply).2 = .new := by
        rw [SubmitResponse.reply, EveBoxEventSink.commit, if_neg (not_not.mpr hstatus)]
        rfl
      refine ⟨journal, done ++ pending, [], ⟨?_, ?_, h.readable, h.db, h.made,
        h.settled i response hwaiting hget hstatus,
        fun j body hget' => h.sent j body (hsent j body hget'), nofun, nofun⟩,
        fun _ honce => ⟨halone honce, fun _ => ?_, nofun⟩⟩
      · rw [List.append_nil]
        exact h.submitted
      · show (s.agent.commit response.reply).2.queue = _
        rw [hagent]
        rfl
      · exact honce.settled i response hwaiting hget hstatus
    · have hagent : (s.agent.commit response.reply).2 = s.agent := by
        rw [SubmitResponse.reply, EveBoxEventSink.commit, if_pos hstatus]
      refine ⟨journal, done, pending, ⟨h.submitted, ?_, h.readable, h.db, h.made, h.delivered,
        fun j body hget' => h.sent j body (hsent j body hget'), nofun, nofun⟩,
        fun _ honce => ⟨halone honce, fun _ => ?_, nofun⟩⟩
      · show (s.agent.commit response.reply).2.queue = _
        rw [hagent]
        exact h.queue
      · refine honce.unsettled fun j response' hj hget' => ?_
        obtain rfl := Option.some.inj (hwaiting.symm.trans hj)
        rw [hget] at hget'
        cases hget'
        exact hstatus
  · cases hstep

theorem kept_giveUp (h : SubmissionInv lib readNumber db₀ s journal done pending)
    (hstep : s.step lib readNumber .giveUp = some s') : Kept lib readNumber db₀ s s' .giveUp journal done pending := by
  simp only [Submission.step] at hstep
  obtain ⟨i, hwaiting, rfl⟩ := Option.map_eq_some_iff.mp hstep
  refine ⟨journal, done, pending, ⟨h.submitted, h.queue, h.readable, h.db, h.made, h.delivered, h.sent, nofun, nofun⟩,
    fun hclean honce => ⟨fun j request hget hrequest => ?_, fun _ => ?_, nofun⟩⟩
  · obtain rfl := Option.some.inj (hwaiting.symm.trans (honce.alone j request hget hrequest))
    have hgone := hclean i hwaiting
    rw [hget] at hgone
    exact absurd (Option.some.inj hgone) hrequest
  · refine honce.unsettled fun j response hj hget => ?_
    have hgone := hclean j hj
    rw [hget] at hgone
    cases hgone

theorem kept_insert (h : SubmissionInv lib readNumber db₀ s journal done pending) {prepared : PreparedEvent}
    (hstep : s.step lib readNumber (.insert prepared) = some s') :
    Kept lib readNumber db₀ s s' (.insert prepared) journal done pending := by
  obtain rfl := Option.some.inj hstep
  have hmine : Journal.mine (journal ++ [(none, prepared)]) = journal.mine := by
    rw [Journal.mine_append]
    exact List.append_nil _
  refine ⟨journal ++ [(none, prepared)], done, pending,
    ⟨h.submitted, h.queue, h.readable, ?_, ?_, ?_, h.sent, h.awaited, ?_⟩,
    fun _ honce => ⟨honce.alone, ?_, ?_⟩⟩
  · show insertEvent s.db prepared = _
    rw [Journal.rows_append, List.foldl_append, h.db]
    rfl
  · intro entry hentry e he
    rcases List.mem_append.mp hentry with hentry | hentry
    · exact h.made entry hentry e he
    · rw [List.mem_singleton.mp hentry] at he
      cases he
  · rw [hmine]
    exact h.delivered
  · rw [hmine]
    exact h.settled
  · rw [hmine]
    exact honce.unsettled
  · rw [hmine]
    exact honce.settled

/-- Every step keeps what it has to. -/
theorem kept_step (h : SubmissionInv lib readNumber db₀ s journal done pending) {op : SubmissionOp}
    (hop : op.Readable readNumber) (hstep : s.step lib readNumber op = some s') :
    Kept lib readNumber db₀ s s' op journal done pending := by
  cases op with
  | submit event => exact kept_submit h hop hstep
  | post => exact kept_post h hstep
  | handle i context faults => exact kept_handle h hstep
  | lose i => exact kept_lose h hstep
  | answer => exact kept_answer h hstep
  | giveUp => exact kept_giveUp h hstep
  | insert prepared => exact kept_insert h hstep

/-! ## Whole runs -/

/-- The agent has given away the events `done`: those with a time are in the database, in their order, and every row
there is one of its events or of another writer. -/
structure Delivered (lib : TimeLib) (db₀ : Store) (s : Submission) (journal : Journal) (done : List Json) : Prop where
  queued : ∃ pending, s.submitted = done ++ pending ∧ s.agent.queue = pending.map Json.text
  db : s.db = journal.rows.foldl insertEvent db₀
  made : ∀ entry ∈ journal, ∀ e, entry.1 = some e → e ∈ s.submitted ∧ ∃ context, stored lib context e = some entry.2
  delivered : (done.filter (Dated lib)).Sublist journal.mine

theorem SubmissionInv.toDelivered (h : SubmissionInv lib readNumber db₀ s journal done pending) :
    Delivered lib db₀ s journal done := ⟨⟨pending, h.submitted, h.queue⟩, h.db, h.made, h.delivered⟩

theorem submissionInv_new (db₀ : Store) : SubmissionInv lib readNumber db₀ (.new db₀) [] [] [] where
  submitted := rfl
  queue := rfl
  readable _ he := absurd he List.not_mem_nil
  db := rfl
  made _ hentry := absurd hentry List.not_mem_nil
  delivered := List.Sublist.refl _
  sent _ _ hget := nomatch hget
  awaited _ _ hi := nomatch hi
  settled _ _ hi := nomatch hi

theorem once_new (db₀ : Store) : Once lib (.new db₀) [] [] [] where
  alone _ _ hget := nomatch hget
  unsettled _ := rfl
  settled _ _ hi := nomatch hi

theorem submissionInv_exec {ops : List SubmissionOp} (hops : ∀ op ∈ ops, op.Readable readNumber)
    (hrun : exec (Submission.step lib readNumber) (.new db₀) ops = some s) :
    ∃ journal done pending, SubmissionInv lib readNumber db₀ s journal done pending := by
  refine invariant_along
    (P := fun s => ∃ journal done pending, SubmissionInv lib readNumber db₀ s journal done pending)
    (fun s op s' hinv hop hstep => ?_) ⟨[], [], [], submissionInv_new db₀⟩ (along_of_forall hops _) hrun
  obtain ⟨journal, done, pending, hinv⟩ := hinv
  obtain ⟨journal', done', pending', hinv', -⟩ := kept_step hinv hop hstep
  exact ⟨journal', done', pending', hinv'⟩

theorem readable_noonEvent : noonEvent.Readable (fun _ => none) Json.Reader.maxDepth :=
  ⟨by decide, List.pairwise_singleton _ _, trivial, trivial⟩

/-- An answer is lost, and the agent sends its event again, with another one that has no time. -/
def answerLost : List SubmissionOp := [.submit noonEvent, .post, .handle 0 plainContext [none], .lose 0, .giveUp,
  .submit (.object [("event_type", .string "flow")]), .post, .handle 1 plainContext [none], .answer]

theorem readable_answerLost : ∀ op ∈ answerLost, op.Readable fun _ => none := by
  intro op hop
  simp only [answerLost, List.mem_cons, List.not_mem_nil, or_false] at hop
  rcases hop with rfl | rfl | rfl | rfl | rfl | rfl | rfl | rfl | rfl
  · exact readable_noonEvent
  · trivial
  · trivial
  · trivial
  · trivial
  · exact ⟨by decide, List.pairwise_singleton _ _, trivial, trivial⟩
  · trivial
  · trivial
  · trivial

/-- A request is lost, and the agent sends another one. -/
def requestLost : List SubmissionOp :=
  [.submit noonEvent, .post, .lose 0, .giveUp, .post, .handle 1 plainContext [none], .answer]

theorem clean_requestLost : Along (Submission.step noonLib fun _ => none)
    (fun s op => op.Readable (fun _ => none) ∧ s.Clean op) (.new ⟨[], none⟩) requestLost := by
  refine ⟨⟨readable_noonEvent, trivial⟩, fun s₁ h₁ => ?_⟩
  obtain rfl := Option.some.inj h₁
  refine ⟨⟨trivial, trivial⟩, fun s₂ h₂ => ?_⟩
  obtain rfl := Option.some.inj h₂
  refine ⟨⟨trivial, fun response hget => by cases hget⟩, fun s₃ h₃ => ?_⟩
  obtain rfl := Option.some.inj h₃
  refine ⟨⟨trivial, fun i hi => ?_⟩, fun s₄ _ => ?_⟩
  · obtain rfl := Option.some.inj hi
    rfl
  · exact ⟨⟨trivial, trivial⟩, fun _ _ => ⟨⟨trivial, trivial⟩, fun _ _ => ⟨⟨trivial, trivial⟩, fun _ _ => trivial⟩⟩⟩

/-- An event that the server can take: it has room for what the filters add, and its time, if it has one, is in
range. -/
structure Harmless (lib : TimeLib) (event : Json) : Prop where
  shape : event = .null ∨ event.isObject = true
  time : ∀ dt, datetime lib event = some dt → dt.toNanos.isSome

theorem exists_takeAll {context : SubmitContext} {events : List Json} (h : ∀ e ∈ events, Harmless lib e)
    {r : Received} {queue : List PreparedEvent} (hr : r.importer = .sqlite ⟨queue⟩) :
    ∃ r', r.takeAll lib context events = some r' := by
  induction events generalizing r queue with
  | nil => exact ⟨r, rfl⟩
  | cons event events ih =>
      have hevent := h event List.mem_cons_self
      have hfields : LeavesEvebox [.autoArchive context.isMatch] := fun value hmem => by simp at hmem
      have htimed : Timed lib .endpoint (.sqlite ⟨queue⟩) (event.get "timestamp") := by
        unfold Timed
        dsimp only
        cases hdt : timeOf lib (event.get "timestamp") with
        | none => rfl
        | some dt => exact hevent.time dt hdt
      obtain ⟨filtered, result, importer, hfiltered, hsubmit, -⟩ :=
        ((robust_iff lib context.entry hfields .endpoint (.sqlite ⟨queue⟩) event (context.ulid r.count)).mpr
          ⟨hevent.shape, nofun, htimed⟩).returns
      have htake : r.take lib context event = some ⟨importer, r.count + 1, r.firehose ++ [filtered]⟩ := by
        rw [Received.take, SubmitContext.filters, hfiltered, hr]
        simp only [Option.bind_eq_bind, Option.bind_some, hsubmit]
      obtain ⟨himporter, -, -⟩ := take_sqlite hr htake
      obtain ⟨r', hrest⟩ := ih (fun e he => h e (List.mem_cons_of_mem _ he)) himporter
      exact ⟨r', by rw [Received.takeAll_cons, htake]; exact hrest⟩

theorem transaction_none (db : Store) (queue : List PreparedEvent) :
    transaction none db queue = .ok (queue.foldl insertEvent db) := by
  have hinsert : ∀ (count : ℕ) db, insertAll none count db queue = .ok (queue.foldl insertEvent db) := by
    induction queue with
    | nil => exact fun _ _ => rfl
    | cons e queue ih =>
        intro count db
        have hnone : ∀ stage, failsAt none stage = none := fun _ => rfl
        rw [insertAll, hnone]
        dsimp only
        rw [hnone, ite_self]
        exact ih (count + 1) (insertEvent db e)
  unfold transaction
  rw [hinsert]
  rfl

/-- A commit without faults succeeds. -/
theorem exists_respond {r : Received} {queue : List PreparedEvent} (hr : r.importer = .sqlite ⟨queue⟩) (db : Store) :
    ∃ response db', r.respond db (.sql [none]) = some (response, db') ∧ response.status = 200 := by
  unfold Received.respond
  split
  · exact ⟨_, _, rfl, rfl⟩
  · have hcommit : SqliteEventSink.commit ⟨queue⟩ db [none] =
        some (.ok queue.length, ⟨[]⟩, queue.foldl insertEvent db) := by
      rw [SqliteEventSink.commit, SqliteEventSink.commitFrom, SqliteEventSink.commitWithSqlx, transaction_none]
      rfl
    rw [hr, EventSink.commit, hcommit]
    exact ⟨_, _, rfl, rfl⟩

/-- One exchange empties the queue, if the server can take its events and they are not too many. -/
theorem submission_flush {ops : List SubmissionOp} (hops : ∀ op ∈ ops, op.Readable readNumber)
    (hrun : exec (Submission.step lib readNumber) (.new db₀) ops = some s) (hwaiting : s.waiting = none)
    (hharmless : ∀ e ∈ s.submitted, Harmless lib e) (hlimit : (Submission.requestOf s.agent).length ≤ bodyLimit)
    (context : SubmitContext) : ∃ s' journal,
      exec (Submission.step lib readNumber) s [.post, .handle s.requests.length context [none], .answer] = some s' ∧
        s'.agent.queue = [] ∧ Delivered lib db₀ s' journal s.submitted := by
  obtain ⟨journal, done, pending, hinv⟩ := submissionInv_exec hops hrun
  obtain ⟨r, htake⟩ := @exists_takeAll lib context pending
    (fun e he => hharmless e (hinv.submitted ▸ List.mem_append_right _ he)) ⟨.sqlite .new, 0, []⟩ [] rfl
  have hreceive : receive lib readNumber context (.sqlite .new) (Submission.requestOf s.agent) = some r := by
    rw [receive_request hinv.queue fun e he => hinv.readable e (hinv.submitted ▸ List.mem_append_right _ he)]
    exact htake
  obtain ⟨himporter, -, -⟩ := takeAll_sqlite rfl htake
  obtain ⟨response, db, hrespond, hstatus⟩ := exists_respond himporter s.db
  have hlast : (s.requests ++ [SubmitRequest.sent (Submission.requestOf s.agent)])[s.requests.length]? =
      some (.sent (Submission.requestOf s.agent)) := by
    rw [List.getElem?_append_right (Nat.le_refl _), Nat.sub_self]
    rfl
  have hset : ((s.requests ++ [SubmitRequest.sent (Submission.requestOf s.agent)]).set s.requests.length
      (.answered response))[s.requests.length]? = some (.answered response) := by
    rw [List.getElem?_set_self (List.getElem?_eq_some_iff.mp hlast).choose]
  have hcommit : (s.agent.commit response.reply).2 = .new := by
    rw [SubmitResponse.reply, EveBoxEventSink.commit, if_neg (not_not.mpr hstatus)]
    rfl
  have hexchange : ∃ s', exec (Submission.step lib readNumber) s
      [.post, .handle s.requests.length context [none], .answer] = some s' ∧ s'.agent = .new ∧
        s'.submitted = s.submitted := by
    simp only [exec_cons, exec_nil, Submission.step, hwaiting, Option.isSome_none, Bool.false_eq_true, if_false,
      Option.bind_some, hlast, if_neg (Nat.not_lt.mpr hlimit), hreceive, hrespond, Option.map_some, hset]
    exact ⟨_, rfl, hcommit, rfl⟩
  obtain ⟨s', hexec, hagent, hsubmitted⟩ := hexchange
  have hops' : ∀ op ∈ ops ++ [.post, .handle s.requests.length context [none], .answer], op.Readable readNumber := by
    intro op hop
    rcases List.mem_append.mp hop with hop | hop
    · exact hops op hop
    · simp only [List.mem_cons, List.not_mem_nil, or_false] at hop
      rcases hop with rfl | rfl | rfl <;> trivial
  obtain ⟨journal', done', pending', hinv'⟩ := submissionInv_exec hops' (exec_append_eq_some.mpr ⟨s, hrun, hexec⟩)
  have hqueue : s'.agent.queue = [] := by
    rw [hagent]
    rfl
  have hpending : pending' = [] := List.map_eq_nil_iff.mp (hinv'.queue.symm.trans hqueue)
  have hdone : done' = s.submitted := by
    rw [← hsubmitted, hinv'.submitted, hpending, List.append_nil]
  exact ⟨s', journal', hexec, hqueue, hdone ▸ hinv'.toDelivered⟩

end

theorem submission_flush_answerLost : ∃ s s' journal,
    exec (Submission.step noonLib fun _ => none) (.new ⟨[], none⟩) [.submit noonEvent] = some s ∧
      exec (Submission.step noonLib fun _ => none) s [.post, .handle s.requests.length plainContext [none], .answer] =
        some s' ∧ s'.agent.queue = [] ∧ Delivered noonLib ⟨[], none⟩ s' journal [noonEvent] := by
  have hreadable : ∀ op ∈ [SubmissionOp.submit noonEvent], op.Readable fun _ => none := by
    intro op hop
    obtain rfl := List.mem_singleton.mp hop
    exact readable_noonEvent
  have hharmless : ∀ e ∈ [noonEvent], Harmless noonLib e := by
    intro e he
    obtain rfl := List.mem_singleton.mp he
    have htime : datetime noonLib noonEvent = some ⟨1782648000000000000, 0⟩ := by decide +kernel
    exact ⟨.inr rfl, fun dt hdt => Option.some.inj (htime.symm.trans hdt) ▸ by decide⟩
  have hlimit : (Submission.requestOf (EveBoxEventSink.submit .new noonEvent).2).length ≤ bodyLimit := by decide +kernel
  obtain ⟨s', journal, hexec, hqueue, hdelivered⟩ := @submission_flush noonLib (fun _ => none) ⟨[], none⟩ _ _ hreadable
    rfl rfl hharmless hlimit plainContext
  exact ⟨_, s', journal, rfl, hexec, hqueue, hdelivered⟩

end EveBox.Server
