import EveBox.Elastic.QueryString
import EveBox.Lib.Fts5
import EveBox.Repo.QueryParserTheorems
import EveBox.Sqlite.References

/-!
# What the full-text index is asked for

Reference: `src/sqlite/builder.rs` and `src/sqlite/eventrepo/alerts.rs`.

The text of `MATCH` is put together from the strings of a user in three places: in `build` for the callers of
`apply_query_string` and for `alerts_with_timeout`, and in `alerts_group_by`. None of them looks at the strings.

* `denotes_iff_clean` — when the text asks for these strings.
-/

namespace EveBox.Sqlite

open Rust Eve Repo SqlText

open EventQueryBuilder (resolveKey applyQueryString_some foldl_append_eq)

/-! ## The statements of the inbox -/

/-- The elements of the query string, if there is one that can be read. -/
def queryElements (lib : TimeLib) : Option String → List QueryElement
  | none => []
  | some q => match parse lib none q with
    | .ok elements => elements
    | .error _ => []

namespace EventQueryBuilder

/-- `selectjs`. -/
def selectjs (b : EventQueryBuilder) (field : String) : EventQueryBuilder :=
  { b with select := b.select ++ [lit "json_extract(events.source, '$." ++ lit field ++ lit "') AS '" ++ lit field ++ lit "'"] }

/-- `wherejs`, of a field that a user names. -/
def whereField (b : EventQueryBuilder) (field op : String) (arg : Arg) : EventQueryBuilder :=
  (b.pushWhere (extractSql field ++ lit " " ++ lit op ++ lit " " ++ slot arg)).pushArg arg

end EventQueryBuilder

/-! ### `alerts.rs::alerts_with_timeout` -/

/-- The clause of a tag. -/
def alertsTag (b : EventQueryBuilder) (tag : String) : EventQueryBuilder :=
  if tag = "evebox.archived" then b.whereArg "archived = " (.int 1)
  else if tag = "-evebox.archived" then b.whereArg "archived = " (.int 0)
  else if tag = "evebox.escalated" then b.whereArg "escalated = " (.int 1)
  else b

/-- The clause of the sensor. -/
def alertsSensor (b : EventQueryBuilder) : Option String → EventQueryBuilder
  | none => b
  | some sensor =>
      if sensor = "(no-name)" then b.pushWhere (lit "json_extract(events.source, '$.host') IS NULL")
      else b.wherejs "host" "=" (.text sensor)

/-- The clause of the earliest time. -/
def alertsEarliest (b : EventQueryBuilder) : Option DateTime → Option EventQueryBuilder
  | none => some b
  | some ts => b.timestampGte ts

/-- The clause of a field: the operator and the argument. -/
def alertsComparison (negated : Bool) (v : String) : String × Arg :=
  match parseI64 v.toList with
  | some n => (if negated then "!=" else "=", .int n)
  | none => (if negated then "NOT LIKE" else "LIKE", .text ("%" ++ v ++ "%"))

/-- An element of the query string. -/
def alertsElement (b : EventQueryBuilder) (e : QueryElement) : Option EventQueryBuilder :=
  match e.value with
  | .string s =>
      some (b.whereArg (if e.negated then "events.source NOT LIKE " else "events.source LIKE ") (.text ("%" ++ s ++ "%")))
  | .keyValue k v =>
      if k = "@ip" ∨ k = "@mac" then some (b.whereAnywhere e.negated v)
      else
        let comparison := alertsComparison e.negated v
        some (b.whereField (resolveKey k) comparison.1 comparison.2)
  | .fromTime ts => b.timestampGte ts
  | .toTime ts => b.timestampLte ts
  | .after ts => b.timestampGt ts
  | .before ts => b.timestampLt ts
  | .archived => some (b.whereArg "archived = " (.int (if e.negated then 0 else 1)))
  | .escalated => some (b.whereArg "escalated = " (.int (if e.negated then 0 else 1)))

/-- The columns behind the first ones. -/
def alertsColumns : List String :=
  ["alert.signature_id", "alert.signature", "alert.severity", "alert.action", "dns", "tls", "quic", "app_proto", "dest_ip",
    "src_ip", "tags", "http.hostname", "host"]

/-- The builder in `alerts_with_timeout`, before `build`. -/
def alertsBuilder (lib : TimeLib) (fts : Bool) (options : Elastic.ElasticEventRepo.AlertQueryOptions) : Option EventQueryBuilder := do
  let b : EventQueryBuilder :=
    { fts, select := ["rowid", "timestamp", "escalated", "archived", "history"].map lit, tables := [lit "events"],
      orderBy := some (lit "timestamp", lit "DESC") }
  let b := (alertsColumns.foldl EventQueryBuilder.selectjs b).wherejs "event_type" "=" (.text "alert")
  let b := alertsSensor (options.tags.foldl alertsTag b) options.sensor
  let b ← alertsEarliest b options.timestampGte
  (queryElements lib options.queryString).foldlM alertsElement b

/-! ### `alerts.rs::alerts_group_by` -/

/-- `filters` and `args`. -/
structure GroupFilters where
  filters : List SqlText := []
  args : List Arg := []
deriving DecidableEq, Repr

namespace GroupFilters

/-- A filter without an argument. -/
def push (f : GroupFilters) (filter : SqlText) : GroupFilters := { f with filters := f.filters ++ [filter] }

/-- A filter with one. -/
def pushArg (f : GroupFilters) (before : SqlText) (arg : Arg) (after : String) : GroupFilters :=
  { filters := f.filters ++ [before ++ slot arg ++ lit after], args := f.args ++ [arg] }

/-- The filter of a tag. -/
def tag (f : GroupFilters) (tag : String) : GroupFilters :=
  if tag = "evebox.archived" then f.pushArg (lit "archived = ") (.int 1) ""
  else if tag = "-evebox.archived" then f.pushArg (lit "archived = ") (.int 0) ""
  else if tag = "evebox.escalated" then f.pushArg (lit "escalated = ") (.int 1) ""
  else f

/-- The filter of the sensor. -/
def sensor (f : GroupFilters) : Option String → GroupFilters
  | none => f
  | some sensor =>
      if sensor = "(no-name)" then f.push (lit "json_extract(events.source, '$.host') IS NULL")
      else f.pushArg (lit "json_extract(events.source, '$.host') = ") (.text sensor) ""

/-- A comparison of a time. -/
def timestamp (f : GroupFilters) (col : String) (ts : DateTime) : Option GroupFilters :=
  ts.toNanos.map fun nanos => f.pushArg (lit col) (.int nanos) ""

/-- The filter of the earliest time. -/
def earliest (f : GroupFilters) : Option DateTime → Option GroupFilters
  | none => some f
  | some ts => f.timestamp "timestamp >= " ts

/-- An element of the query string. -/
def element (fts : Bool) (f : GroupFilters) (e : QueryElement) : Option GroupFilters :=
  match e.value with
  | .string s =>
      some (f.pushArg (lit (if e.negated then "events.source NOT LIKE " else "events.source LIKE ")) (.text ("%" ++ s ++ "%")) "")
  | .keyValue k v =>
      if k = "@ip" ∨ k = "@mac" then
        some (if e.negated then f.pushArg (lit "events.source NOT LIKE ") (.text ("%" ++ v ++ "%")) ""
          else if fts then
            f.pushArg (lit "events.rowid in (select rowid from fts where fts match ") (.text ("\x22" ++ v ++ "\x22")) ")"
          else f.pushArg (lit "events.source LIKE ") (.text ("%" ++ v ++ "%")) "")
      else
        let comparison := alertsComparison e.negated v
        some (f.pushArg (extractSql (resolveKey k) ++ lit " " ++ lit comparison.1 ++ lit " ") comparison.2 "")
  | .fromTime ts => f.timestamp "timestamp >= " ts
  | .toTime ts => f.timestamp "timestamp <= " ts
  | .after ts => f.timestamp "timestamp > " ts
  | .before ts => f.timestamp "timestamp < " ts
  | .archived => some (f.pushArg (lit "archived = ") (.int (if e.negated then 0 else 1)) "")
  | .escalated => some (f.pushArg (lit "escalated = ") (.int (if e.negated then 0 else 1)) "")

end GroupFilters

/-- The filters in `alerts_group_by`. -/
def groupFilters (lib : TimeLib) (fts : Bool) (options : Elastic.ElasticEventRepo.AlertQueryOptions) : Option GroupFilters := do
  let f : GroupFilters := { filters := [lit "json_extract(events.source, '$.event_type') = 'alert'"] }
  let f := (options.tags.foldl GroupFilters.tag f).sensor options.sensor
  let f ← f.earliest options.timestampGte
  (queryElements lib options.queryString).foldlM (GroupFilters.element fts) f

/-! ## The texts of `MATCH` -/

/-- The clause that asks the full-text index. -/
def matchClause (text : String) : SqlText :=
  lit "events.rowid in (select rowid from fts where fts match " ++ slot (.text text) ++ lit ")"

/-- A phrase. -/
def enquote (s : String) : String := "\x22" ++ s ++ "\x22"

/-- What is built asks for some strings by a text. -/
structure EventQueryBuilder.AsksFor (b : EventQueryBuilder) (ss : List String) (text : String) : Prop where
  nonempty : ss ≠ []
  phrases : b.ftsPhrases = ss.map enquote
  clause : b.withPhrases.wheres = b.wheres ++ [matchClause text]
  arg : b.build.2 = b.args ++ [.text text]

/-- A statement over the events asks for some strings by a text. -/
inductive MatchText (lib : TimeLib) : List String → String → Prop
  | caller {fts : Bool} {query : List QueryElement} {c : Caller} {b : EventQueryBuilder} {ss : List String} {text : String}
      (h : c.builder fts query = some b) (hasks : b.AsksFor ss text) : MatchText lib ss text
  | alertsWithTimeout {fts : Bool} {options : Elastic.ElasticEventRepo.AlertQueryOptions} {b : EventQueryBuilder} {ss : List String}
      {text : String} (h : alertsBuilder lib fts options = some b) (hasks : b.AsksFor ss text) : MatchText lib ss text
  | alertsGroupBy {fts : Bool} {options : Elastic.ElasticEventRepo.AlertQueryOptions} {f : GroupFilters} {s text : String}
      (h : groupFilters lib fts options = some f) (hclause : matchClause text ∈ f.filters) (hs : text = enquote s) :
      MatchText lib [s] text

/-! ## Phrases -/

theorem asksFor_iff {b : EventQueryBuilder} {ss : List String} {text : String} :
    b.AsksFor ss text ↔ ss ≠ [] ∧ b.ftsPhrases = ss.map enquote ∧ text = " AND ".intercalate (ss.map enquote) := by
  have hbuild (hne : ss ≠ []) (hphrases : b.ftsPhrases = ss.map enquote) : b.withPhrases =
      (b.pushWhere (matchClause (" AND ".intercalate (ss.map enquote)))).pushArg
        (.text (" AND ".intercalate (ss.map enquote))) := by
    unfold EventQueryBuilder.withPhrases
    rw [if_neg (by simpa [hphrases] using hne), hphrases]
    rfl
  constructor
  · rintro ⟨hne, hphrases, -, harg⟩
    refine ⟨hne, hphrases, ?_⟩
    have hargs : b.args ++ [.text (" AND ".intercalate (ss.map enquote))] = b.args ++ [.text text] := by
      rw [← harg, EventQueryBuilder.build, hbuild hne hphrases]
      rfl
    simpa using hargs.symm
  · rintro ⟨hne, hphrases, rfl⟩
    exact ⟨hne, hphrases, by rw [hbuild hne hphrases]; rfl, by rw [EventQueryBuilder.build, hbuild hne hphrases]; rfl⟩

/-- The phrases of a builder are strings in quotes. -/
def EventQueryBuilder.Quotes (b : EventQueryBuilder) : Prop := ∃ ss : List String, b.ftsPhrases = ss.map enquote

theorem EventQueryBuilder.Quotes.exists_asksFor {b : EventQueryBuilder} (h : b.Quotes) (hne : b.ftsPhrases ≠ []) :
    ∃ ss text, b.AsksFor ss text := by
  obtain ⟨ss, hss⟩ := h
  exact ⟨ss, _, asksFor_iff.mpr ⟨by simpa [hss] using hne, hss, rfl⟩⟩

theorem quotes_applyQueryString {b b' : EventQueryBuilder} {q : List QueryElement} (hb : b.ftsPhrases = [])
    (h : b.applyQueryString q = some b') : b'.Quotes := by
  obtain ⟨terms, -, rfl⟩ := applyQueryString_some h
  refine ⟨terms.flatMap (·.phrases), ?_⟩
  rw [foldl_append_eq, hb, List.map_flatMap]
  rfl

theorem quotes_whereKind {b : EventQueryBuilder} (h : b.Quotes) (field : String) : (b.whereKind field).Quotes := by
  obtain ⟨ss, hss⟩ := h
  refine ⟨ss, ?_⟩
  unfold EventQueryBuilder.whereKind
  cases eventTypeOf field <;> exact hss

/-- The phrases of the callers of `apply_query_string`. -/
theorem Caller.quotes {fts : Bool} {query : List QueryElement} {c : Caller} {b : EventQueryBuilder}
    (h : c.builder fts query = some b) : b.Quotes := by
  cases c with
  | events q =>
      have hspells := eventsBuilder_spells fts { q with queryString := query }
      have hb : eventsBuilder fts { q with queryString := query } = some b := h
      rw [hb] at hspells
      cases hs : search fts { q with queryString := query } with
      | none => rw [hs] at hspells; exact nomatch hspells
      | some s =>
          rw [hs] at hspells
          obtain ⟨hspells⟩ := hspells
          exact ⟨s.phrases, hspells.ftsPhrases⟩
  | agg field size order =>
      refine quotes_applyQueryString ?_ h
      unfold EventQueryBuilder.whereKind
      cases eventTypeOf field <;> rfl
  | aggStream field =>
      obtain ⟨b', hb', rfl⟩ := Option.map_eq_some_iff.mp h
      exact quotes_whereKind (quotes_applyQueryString rfl hb') field
  | histogramTime interval => exact quotes_applyQueryString rfl h
  | getEventTypes => exact quotes_applyQueryString rfl h

/-- A string that stands anywhere, or that the index is asked for. -/
theorem EventQueryBuilder.Quotes.whereAnywhere {b : EventQueryBuilder} (h : b.Quotes) (negated : Bool) (s : String) :
    (b.whereAnywhere negated s).Quotes := by
  obtain ⟨ss, hss⟩ := h
  unfold EventQueryBuilder.whereAnywhere
  split_ifs
  · exact ⟨ss, hss⟩
  · refine ⟨ss ++ [s], ?_⟩
    simp [EventQueryBuilder.pushFts, hss, enquote]
  · exact ⟨ss, hss⟩

theorem quotes_alertsElement {b b' : EventQueryBuilder} {e : QueryElement} (hb : b.Quotes)
    (h : alertsElement b e = some b') : b'.Quotes := by
  have htime : ∀ {col : String} {ts : DateTime}, b.whereTimestamp col ts = some b' → b'.Quotes := by
    intro col ts h
    obtain ⟨nanos, -, rfl⟩ := Option.map_eq_some_iff.mp h
    exact hb
  obtain ⟨negated, value⟩ := e
  cases value with
  | string s =>
      obtain rfl := Option.some.inj h
      exact hb
  | keyValue k v =>
      unfold alertsElement at h
      dsimp only at h
      split_ifs at h
      · obtain rfl := Option.some.inj h
        exact hb.whereAnywhere negated v
      · obtain rfl := Option.some.inj h
        exact hb
  | fromTime ts => exact htime h
  | toTime ts => exact htime h
  | after ts => exact htime h
  | before ts => exact htime h
  | archived =>
      obtain rfl := Option.some.inj h
      exact hb
  | escalated =>
      obtain rfl := Option.some.inj h
      exact hb

theorem quotes_alertsElements {q : List QueryElement} : ∀ {b b' : EventQueryBuilder}, b.Quotes →
    q.foldlM alertsElement b = some b' → b'.Quotes := by
  induction q with
  | nil =>
      intro b b' hb h
      obtain rfl := Option.some.inj h
      exact hb
  | cons e q ih =>
      intro b b' hb h
      rw [List.foldlM_cons] at h
      obtain ⟨b₁, hb₁, h⟩ := Option.bind_eq_some_iff.mp h
      exact ih (quotes_alertsElement hb hb₁) h

/-- The phrases of `alerts_with_timeout`. -/
theorem quotes_alertsBuilder {lib : TimeLib} {fts : Bool} {options : Elastic.ElasticEventRepo.AlertQueryOptions}
    {b : EventQueryBuilder} (h : alertsBuilder lib fts options = some b) : b.Quotes := by
  have htag : ∀ (tags : List String) (b : EventQueryBuilder), (tags.foldl alertsTag b).ftsPhrases = b.ftsPhrases := by
    intro tags
    induction tags with
    | nil => intro b; rfl
    | cons tag tags ih =>
        intro b
        rw [List.foldl_cons, ih]
        unfold alertsTag
        split_ifs <;> rfl
  have hsensor : ∀ (b : EventQueryBuilder) (sensor : Option String), (alertsSensor b sensor).ftsPhrases = b.ftsPhrases := by
    intro b sensor
    cases sensor with
    | none => rfl
    | some sensor =>
        unfold alertsSensor
        dsimp only
        split_ifs <;> rfl
  have hcolumns : ∀ (columns : List String) (b : EventQueryBuilder),
      (columns.foldl EventQueryBuilder.selectjs b).ftsPhrases = b.ftsPhrases := by
    intro columns
    induction columns with
    | nil => intro b; rfl
    | cons column columns ih => exact fun b => ih (b.selectjs column)
  have hearliest : ∀ {b b' : EventQueryBuilder} {ts : Option DateTime}, alertsEarliest b ts = some b' →
      b'.ftsPhrases = b.ftsPhrases := by
    intro b b' ts h
    cases ts with
    | none =>
        obtain rfl := Option.some.inj h
        rfl
    | some ts =>
        obtain ⟨nanos, -, rfl⟩ := Option.map_eq_some_iff.mp h
        rfl
  unfold alertsBuilder at h
  obtain ⟨b₁, hb₁, h⟩ := Option.bind_eq_some_iff.mp h
  refine quotes_alertsElements ⟨[], ?_⟩ h
  rw [hearliest hb₁, hsensor, htag]
  exact hcolumns _ _

/-- A clause that begins in another way is not about the index. -/
theorem ne_matchClause {start rest : SqlText} {text : String} (hlen : 8 ≤ start.length)
    (h : (start.take 8).map (·.char) ≠ "events.r".toList) : start ++ rest ≠ matchClause text := by
  intro heq
  have htake := congrArg (fun clause : SqlText => (clause.take 8).map (·.char)) heq
  rw [List.take_append_of_le_length hlen] at htake
  exact h htake

/-- What `alerts_group_by` asks for are the addresses of the query string, in quotes. -/
theorem GroupFilters.match_of_element {fts : Bool} {f f' : GroupFilters} {e : QueryElement} {text : String}
    (h : f.element fts e = some f') (hclause : matchClause text ∈ f'.filters) :
    matchClause text ∈ f.filters ∨ ∃ k v, e = ⟨false, .keyValue k v⟩ ∧ (k = "@ip" ∨ k = "@mac") ∧ text = enquote v := by
  have hpush : ∀ {start rest : SqlText} {arg : Arg} {after : String}, 8 ≤ start.length →
      (start.take 8).map (·.char) ≠ "events.r".toList → matchClause text ∈ (f.pushArg (start ++ rest) arg after).filters →
      matchClause text ∈ f.filters := by
    intro start rest arg after hlen hne hclause
    rcases List.mem_append.mp hclause with hclause | hclause
    · exact hclause
    · have heq := (List.mem_singleton.mp hclause).symm
      rw [List.append_assoc, List.append_assoc] at heq
      exact absurd heq (ne_matchClause hlen hne)
  have hlit : ∀ {s : String} {arg : Arg} {after : String}, 8 ≤ (lit s).length →
      ((lit s).take 8).map (·.char) ≠ "events.r".toList → matchClause text ∈ (f.pushArg (lit s) arg after).filters →
      matchClause text ∈ f.filters := by
    intro s arg after hlen hne hclause
    rw [← List.append_nil (lit s)] at hclause
    exact hpush hlen hne hclause
  have htime : ∀ {col : String} {ts : DateTime}, 8 ≤ (lit col).length →
      ((lit col).take 8).map (·.char) ≠ "events.r".toList → f.timestamp col ts = some f' → matchClause text ∈ f.filters := by
    intro col ts hlen hne h
    obtain ⟨nanos, -, rfl⟩ := Option.map_eq_some_iff.mp h
    exact hlit hlen hne hclause
  obtain ⟨negated, value⟩ := e
  cases value with
  | string s =>
      obtain rfl := Option.some.inj h
      have hlen : 8 ≤ (lit (if negated then "events.source NOT LIKE " else "events.source LIKE ")).length := by
        cases negated <;> decide
      have hne : ((lit (if negated then "events.source NOT LIKE " else "events.source LIKE ")).take 8).map (·.char) ≠
          "events.r".toList := by
        cases negated <;> decide
      exact .inl (hlit hlen hne hclause)
  | keyValue k v =>
      unfold GroupFilters.element at h
      dsimp only at h
      split_ifs at h with hkey hneg hfts
      · obtain rfl := Option.some.inj h
        exact .inl (hlit (by decide) (by decide) hclause)
      · obtain rfl := Option.some.inj h
        rcases List.mem_append.mp hclause with hclause | hclause
        · exact .inl hclause
        · have htext : text = "\x22" ++ v ++ "\x22" := by
            have heq := List.mem_singleton.mp hclause
            simpa [matchClause, slot] using heq
          exact .inr ⟨k, v, by rw [Bool.eq_false_iff.mpr hneg], hkey, htext⟩
      · obtain rfl := Option.some.inj h
        exact .inl (hlit (by decide) (by decide) hclause)
      · obtain rfl := Option.some.inj h
        simp only [extractSql, List.append_assoc] at hclause
        exact .inl (hpush (by decide) (by decide) hclause)
  | fromTime ts => exact .inl (htime (by decide) (by decide) h)
  | toTime ts => exact .inl (htime (by decide) (by decide) h)
  | after ts => exact .inl (htime (by decide) (by decide) h)
  | before ts => exact .inl (htime (by decide) (by decide) h)
  | archived =>
      obtain rfl := Option.some.inj h
      exact .inl (hlit (by decide) (by decide) hclause)
  | escalated =>
      obtain rfl := Option.some.inj h
      exact .inl (hlit (by decide) (by decide) hclause)

/-! ## When they are read -/

/-- The text of some strings in quotes. -/
theorem intercalate_enquote {ss : List String} (hss : ss ≠ []) :
    (" AND ".intercalate (ss.map enquote)).toList = Fts5.joined (ss.map String.toList) := by
  induction ss with
  | nil => exact absurd rfl hss
  | cons s ss ih =>
      cases ss with
      | nil => simp [enquote, Fts5.joined, Fts5.quoted, Fts5.quote]
      | cons t ss =>
          have htail := ih (List.cons_ne_nil t ss)
          rw [List.map_cons, String.intercalate_cons_of_ne_nil (by simp), String.toList_append, String.toList_append, htail]
          simp [enquote, Fts5.joined, Fts5.quoted, Fts5.quote]

theorem denotes_of_asksFor {b : EventQueryBuilder} {ss : List String} {text : String} (h : b.AsksFor ss text) :
    Fts5.Denotes text.toList (ss.map String.toList) ↔ ∀ s ∈ ss, Fts5.Clean s.toList := by
  obtain ⟨hne, -, rfl⟩ := asksFor_iff.mp h
  rw [intercalate_enquote hne, Fts5.denotes_iff (by simpa using hne)]
  exact List.forall_mem_map

/-- The text of `MATCH` asks for all of its strings, as they are, if and only if none of them has a quote, or a character
that ends the text. -/
theorem denotes_iff_clean {lib : TimeLib} {ss : List String} {text : String} (h : MatchText lib ss text) :
    Fts5.Denotes text.toList (ss.map String.toList) ↔ ∀ s ∈ ss, Fts5.Clean s.toList := by
  cases h with
  | caller h hasks => exact denotes_of_asksFor hasks
  | alertsWithTimeout h hasks => exact denotes_of_asksFor hasks
  | @alertsGroupBy fts options f s text h hclause hs =>
      have htext : text = " AND ".intercalate ([s].map enquote) := by simpa using hs
      rw [htext, intercalate_enquote (List.cons_ne_nil s []), Fts5.denotes_iff (by simp)]
      exact List.forall_mem_map

/-- A string without quotes. -/
theorem denotes_iff_clean_plain : Fts5.Denotes "\x22et malware\x22".toList ["et malware".toList] := by
  obtain ⟨b, hb, hasks⟩ : ∃ b, Caller.builder true [⟨false, .string "et malware"⟩] .getEventTypes = some b ∧
      b.AsksFor ["et malware"] "\x22et malware\x22" := ⟨_, rfl, asksFor_iff.mpr (by decide)⟩
  have hmatch : MatchText noTimes ["et malware"] "\x22et malware\x22" := .caller hb hasks
  exact (denotes_iff_clean hmatch).mpr (by decide)

/-- A query with a quote inside a word. -/
theorem quote_not_denotes : parse noTimes none "ab\x22cd" = .ok [⟨false, .string "ab\x22cd"⟩] ∧
    MatchText noTimes ["ab\x22cd"] "\x22ab\x22cd\x22" ∧
    ¬ Fts5.Denotes "\x22ab\x22cd\x22".toList ["ab\x22cd".toList] := by
  obtain ⟨b, hb, hasks⟩ : ∃ b, Caller.builder true [⟨false, .string "ab\x22cd"⟩] (.events { queryString := [] }) = some b ∧
      b.AsksFor ["ab\x22cd"] "\x22ab\x22cd\x22" := ⟨_, rfl, asksFor_iff.mpr (by decide)⟩
  exact ⟨by decide, .caller hb hasks, fun h => absurd ((denotes_of_asksFor hasks).mp h) (by decide)⟩

end EveBox.Sqlite
