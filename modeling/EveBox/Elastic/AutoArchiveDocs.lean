import EveBox.Elastic.AutoArchive
import EveBox.Elastic.ScriptLaws

/-!
# What auto-archiving makes of a document

Reference: `src/elastic/eventrepo/mod.rs` and `src/eve/filters.rs`.

The query of a filter finds the alerts that the filter matches in memory, apart from those with a tag. `DocLaw` says how
a document may differ from the event that came.

* `autoArchiveQuery_matches` — what the query of a filter finds.
* `docLaw_autoArchive` — an event that meets the filters on its way.
* `docLaw_script` — a document that a query has found.
-/

namespace EveBox.Elastic

open Rust Eve Repo Server ElasticEventRepo

/-! ## Well formed documents -/

/-- A document that scripts can run on, with texts for tags. -/
structure WellFormed (doc : Json) : Prop where
  scriptable : Scriptable doc
  tags : ∀ tag ∈ tagsOf doc, ∃ s, tag = .string s

/-- The tag is there. -/
def Tagged (tag : String) (doc : Json) : Prop := Json.string tag ∈ tagsOf doc

instance (tag : String) (doc : Json) : Decidable (Tagged tag doc) := by
  unfold Tagged
  infer_instance

/-- The document is archived, by a user or by a filter. -/
def IsArchived (doc : Json) : Prop := Tagged "evebox.archived" doc ∨ Tagged "evebox.auto-archived" doc

/-- Elasticsearch takes the document for an alert. -/
def IsAlert (doc : Json) : Prop := Json.string "alert" ∈ valuesAt doc ["event_type"]

section

variable {doc event : Json}

/-- A path starts at a field. -/
theorem valuesAt_cons (hdoc : doc.isObject) (key : String) (keys : List String) :
    valuesAt doc (key :: keys) = valuesAt (doc.get key) keys := by
  have hnull : valuesAt .null keys = [] := by cases keys <;> simp [valuesAt, leaves]
  cases doc with
  | object fields =>
      rw [valuesAt, Json.get]
      induction fields with
      | nil => rw [valuesOfField, List.lookup_nil, Option.getD_none, hnull]
      | cons field fields ih =>
          obtain ⟨k, v⟩ := field
          rw [valuesOfField, List.lookup_cons]
          by_cases hk : k = key
          · rw [if_pos hk, beq_iff_eq.mpr hk.symm]
            rfl
          · rw [if_neg hk, beq_false_of_ne (Ne.symm hk)]
            exact ih rfl
  | _ => cases hdoc

theorem leavesOf_strings {elems : List Json} (h : ∀ e ∈ elems, ∃ s, e = .string s) : leavesOf elems = elems := by
  induction elems with
  | nil => rfl
  | cons e elems ih =>
      obtain ⟨s, rfl⟩ := h e List.mem_cons_self
      rw [leavesOf, ih fun e he => h e (List.mem_cons_of_mem _ he)]
      simp [leaves]

/-- A search for a tag. -/
theorem WellFormed.term_tags (h : WellFormed doc) (date : String → Option ℤ) (tag : String) :
    (Query.term "tags" (.string tag)).matches date doc = true ↔ Tagged tag doc := by
  have hpath : fieldPath "tags" = ["tags"] := by decide +kernel
  rw [Query.matches, List.contains_iff_mem, mem_fieldValues_iff, hpath, if_neg (by decide),
    valuesAt_cons h.scriptable.isObject, valuesAt, Tagged]
  rcases h.scriptable.tags with hnull | ⟨elems, helems⟩
  · rw [tagsOf, hnull]
    simp [leaves, Json.asArray]
  · have htags : tagsOf doc = elems := by
      rw [tagsOf, helems]
      rfl
    rw [htags, helems, leaves, leavesOf_strings (htags ▸ h.tags)]

/-- A search for alerts. -/
theorem term_eventType (date : String → Option ℤ) :
    (Query.term ((⟨false⟩ : ElasticEventRepo).mapField "event_type") (.string "alert")).matches date doc = true ↔
      IsAlert doc := by
  rw [Query.matches, List.contains_iff_mem, mem_fieldValues_iff, (fieldPath_mapField false).1, if_pos (by decide)]
  exact and_iff_left rfl

theorem exists_eventType (date : String → Option ℤ) (h : IsAlert doc) :
    (Query.exists_ ((⟨false⟩ : ElasticEventRepo).mapField "event_type")).matches date doc = true := by
  have hterm := (term_eventType date).mpr h
  rw [Query.matches, List.contains_iff_mem] at hterm
  rw [Query.matches, decide_eq_true_eq]
  exact List.ne_nil_of_mem hterm

/-! ## The query of a filter -/

/-- The path of a condition does not go into what the repository changes. -/
def FilterCondition.Outside (condition : FilterCondition) : Prop :=
  ∃ key keys, condition.path = key :: keys ∧ key ≠ "tags" ∧ key ≠ "evebox"

/-- A condition on a text is asked for as a keyword. -/
theorem textCondition (field key : String) (keys : List String)
    (hmap : fieldPath ((⟨false⟩ : ElasticEventRepo).mapField field) = (key :: keys) ++ ["keyword"])
    (hpath : (field.toList.splitOn '.').map String.ofList = key :: keys) (hkey : key ≠ "tags" ∧ key ≠ "evebox")
    (value : Option String) :
    ∀ condition ∈ pushString field value, condition.Searchable ⟨false⟩ ∧ FilterCondition.Outside condition := by
  intro condition h
  rw [pushString, Option.mem_toList, Option.map_eq_some_iff] at h
  obtain ⟨s, -, rfl⟩ := h
  refine ⟨⟨rfl, ?_⟩, key, keys, hpath, hkey⟩
  rw [hmap, List.getLast?_append, List.getLast?_singleton, Option.some_or, if_pos rfl, List.dropLast_concat]
  exact ⟨hpath.symm, rfl⟩

/-- The conditions of a request are searchable, and outside. -/
theorem ofEntry_conditions {entry : FilterEntry} {condition : FilterCondition}
    (h : condition ∈ (EventFilter.ofEntry entry).conditions) :
    condition.Searchable ⟨false⟩ ∧ FilterCondition.Outside condition := by
  simp only [EventFilter.ofEntry, List.mem_append, List.mem_singleton] at h
  rcases h with ((((h | h) | h) | h) | h) | rfl
  · exact textCondition "host" "host" [] (by decide +kernel) (by decide +kernel) (by decide) _ condition h
  · exact textCondition "src_ip" "src_ip" [] (by decide +kernel) (by decide +kernel) (by decide) _ condition h
  · exact textCondition "dest_ip" "dest_ip" [] (by decide +kernel) (by decide +kernel) (by decide) _ condition h
  · exact textCondition "dns.queries.rrname" "dns" ["queries", "rrname"] (by decide +kernel) (by decide +kernel)
      (by decide) _ condition h
  · exact textCondition "tls.sni" "tls" ["sni"] (by decide +kernel) (by decide +kernel) (by decide) _ condition h
  · have hpath : ("alert.signature_id".toList.splitOn '.').map String.ofList = ["alert", "signature_id"] := by
      decide +kernel
    have hmap : fieldPath ((⟨false⟩ : ElasticEventRepo).mapField "alert.signature_id") = ["alert", "signature_id"] := by
      decide +kernel
    refine ⟨⟨rfl, ?_⟩, "alert", ["signature_id"], hpath, by decide⟩
    rw [hmap, if_neg (by decide)]
    exact hpath.symm

/-- The query of a filter finds the alerts that the filter matches in memory, apart from those with a tag. -/
theorem autoArchiveQuery_matches (h : WellFormed doc) (date : String → Option ℤ) (entry : FilterEntry) :
    ((⟨false⟩ : ElasticEventRepo).buildAutoArchiveQuery (.ofEntry entry)).matches date doc = true ↔
      IsAlert doc ∧ (EventFilter.ofEntry entry).isMatch doc = true ∧ ¬ IsArchived doc := by
  have hconditions : ∀ query : FilterCondition → Query, (∀ condition : FilterCondition, query condition =
      .term ((⟨false⟩ : ElasticEventRepo).mapField condition.field) condition.value) →
      ((EventFilter.ofEntry entry).conditions.map query).all (·.matches date doc) =
        (EventFilter.ofEntry entry).isMatch doc := by
    intro query hquery
    rw [List.all_map, EventFilter.isMatch, Bool.eq_iff_iff, List.all_eq_true, List.all_eq_true]
    refine forall₂_congr fun condition hcondition => ?_
    rw [conditionMatches_eq_term (ofEntry_conditions hcondition).1 date doc, Function.comp_apply, hquery]
  rw [BoolQuery.matches, Bool.and_eq_true, buildAutoArchiveQuery, List.all_append, Bool.and_eq_true, hconditions,
    IsArchived, not_or, ← h.term_tags date, ← h.term_tags date]
  · simp only [tagsAutoArchived, List.map_cons, List.map_nil, List.all_cons, List.all_nil, Bool.and_true,
      Bool.and_eq_true, Bool.not_eq_true', Bool.not_eq_true, term_eventType]
    rw [and_iff_right_of_imp (exists_eventType date), and_assoc]
  · intro condition
    cases condition.op
    rfl

/-! ## Documents that change -/

/-- What is archived, and what a filter matches, depends on no field that scripts change. -/
theorem isAlert_congr (hdoc : doc.isObject) (hevent : event.isObject)
    (hfields : ∀ key, key ≠ "tags" → key ≠ "evebox" → doc.get key = event.get key) : IsAlert doc ↔ IsAlert event := by
  rw [IsAlert, IsAlert, valuesAt_cons hdoc, valuesAt_cons hevent, hfields "event_type" (by decide) (by decide)]

theorem isMatch_congr (hdoc : doc.isObject) (hevent : event.isObject)
    (hfields : ∀ key, key ≠ "tags" → key ≠ "evebox" → doc.get key = event.get key) (entry : FilterEntry) :
    (EventFilter.ofEntry entry).isMatch doc = (EventFilter.ofEntry entry).isMatch event := by
  rw [EventFilter.isMatch, EventFilter.isMatch, Bool.eq_iff_iff, List.all_eq_true, List.all_eq_true]
  refine forall₂_congr fun condition hcondition => ?_
  obtain ⟨⟨hleaf, -⟩, key, keys, hpath, htags, hevebox⟩ := ofEntry_conditions hcondition
  rw [conditionMatches_iff, conditionMatches_iff, valueMatches_iff_mem hleaf, valueMatches_iff_mem hleaf, hpath,
    valuesAt_cons hdoc, valuesAt_cons hevent, hfields key htags hevebox]

end

/-- The entries that auto-archiving leaves in a history. -/
def autoEntries (history : List Json) : ℕ := history.countP fun entry => actionOf entry = .string "auto-archived"

/-- How a document may differ from the event that came, with the filters that there have been: fields stay as they are
and the history is added to. Tags for being archived stay. What is auto-archived has one entry for it, and was an alert
that was not archived and that a filter matched. -/
structure DocLaw (known : List EventFilter) (event doc : Json) : Prop where
  isObject : event.isObject
  wellFormed : WellFormed doc
  fields : ∀ key, key ≠ "tags" → key ≠ "evebox" → doc.get key = event.get key
  history : ∃ added, historyOf doc = historyOf event ++ added ∧ autoEntries added ≤ 1 ∧
    (autoEntries added = 1 → Tagged "evebox.auto-archived" doc) ∧
    (Tagged "evebox.auto-archived" doc → ¬ Tagged "evebox.auto-archived" event → autoEntries added = 1)
  archived : Tagged "evebox.archived" event → Tagged "evebox.archived" doc
  autoArchived : Tagged "evebox.auto-archived" event → Tagged "evebox.auto-archived" doc
  cause : Tagged "evebox.auto-archived" doc → ¬ Tagged "evebox.auto-archived" event →
    Tagged "evebox.archived" doc ∧ ¬ Tagged "evebox.archived" event ∧ IsAlert event ∧
      ∃ filter ∈ known, filter.isMatch event = true

section

variable {known known' : List EventFilter} {doc doc' event entry : Json} {tags : List Json}

theorem DocLaw.refl (h : WellFormed event) : DocLaw known event event where
  isObject := h.scriptable.isObject
  wellFormed := h
  fields _ _ _ := rfl
  history := ⟨[], (List.append_nil _).symm, Nat.zero_le _, fun h => absurd h (by decide), fun h h' => absurd h h'⟩
  archived := id
  autoArchived := id
  cause h h' := absurd h h'

theorem DocLaw.mono (h : DocLaw known event doc) (hsub : known ⊆ known') : DocLaw known' event doc :=
  { h with
    cause := fun hdoc hevent => by
      obtain ⟨harchived, hnot, halert, filter, hfilter, hmatch⟩ := h.cause hdoc hevent
      exact ⟨harchived, hnot, halert, filter, hsub hfilter, hmatch⟩ }

/-- A history that has been added to once more. -/
theorem autoEntries_append (added : List Json) (entry : Json) : autoEntries (added ++ [entry]) =
    autoEntries added + if actionOf entry = .string "auto-archived" then 1 else 0 := by
  unfold autoEntries
  rw [List.countP_append, List.countP_singleton]
  simp only [decide_eq_true_eq]

/-- A script that leaves the tags for auto-archiving alone, and does not remove one for being archived. -/
theorem DocLaw.other (h : DocLaw known event doc) (happlied : Applied tags entry doc doc')
    (hentry : actionOf entry ≠ .string "auto-archived") (hstrings : ∀ tag ∈ tags, ∃ s, tag = .string s)
    (harchived : Tagged "evebox.archived" doc → .string "evebox.archived" ∈ tags)
    (hauto : .string "evebox.auto-archived" ∈ tags ↔ Tagged "evebox.auto-archived" doc) : DocLaw known event doc' := by
  obtain ⟨added, hadded, hle, hone, hcount⟩ := h.history
  have hauto' : Tagged "evebox.auto-archived" doc' ↔ Tagged "evebox.auto-archived" doc := by
    rw [Tagged, happlied.tags, hauto]
  have hentries : autoEntries (added ++ [entry]) = autoEntries added := by
    rw [autoEntries_append, if_neg hentry, Nat.add_zero]
  refine ⟨h.isObject, ⟨happlied.scriptable, happlied.tags.symm ▸ hstrings⟩, fun key hkey hkey' => ?_,
    ⟨added ++ [entry], ?_, ?_⟩, fun hevent => ?_, fun hevent => hauto'.mpr (h.autoArchived hevent),
    fun hdoc hevent => ?_⟩
  · rw [happlied.fields key hkey hkey', h.fields key hkey hkey']
  · rw [happlied.history, hadded, List.append_assoc]
  · rw [hentries, hauto']
    exact ⟨hle, hone, hcount⟩
  · rw [Tagged, happlied.tags]
    exact harchived (h.archived hevent)
  · obtain ⟨hdocArchived, hcause⟩ := h.cause (hauto'.mp hdoc) hevent
    refine ⟨?_, hcause⟩
    rw [Tagged, happlied.tags]
    exact harchived hdocArchived

/-- A document is auto-archived, for the first time. -/
theorem DocLaw.auto (h : DocLaw known event doc) (happlied : Applied tags entry doc doc')
    (hentry : actionOf entry = .string "auto-archived")
    (hstrings : ∀ tag ∈ tags, ∃ s, tag = .string s)
    (htags : .string "evebox.archived" ∈ tags ∧ .string "evebox.auto-archived" ∈ tags)
    (hnot : ¬ Tagged "evebox.archived" doc)
    (hfresh : ∀ added, historyOf doc = historyOf event ++ added → autoEntries added = 0)
    (hcause : IsAlert event ∧ ∃ filter ∈ known, filter.isMatch event = true) : DocLaw known event doc' := by
  obtain ⟨added, hadded, -, -, -⟩ := h.history
  have htagged : Tagged "evebox.archived" doc' ∧ Tagged "evebox.auto-archived" doc' := by
    rw [Tagged, Tagged, happlied.tags]
    exact htags
  have hentries : autoEntries (added ++ [entry]) = 1 := by
    rw [autoEntries_append, if_pos hentry, hfresh added hadded]
  refine ⟨h.isObject, ⟨happlied.scriptable, happlied.tags.symm ▸ hstrings⟩, fun key hkey hkey' => ?_,
    ⟨added ++ [entry], ?_, hentries.le, fun _ => htagged.2, fun _ _ => hentries⟩, fun _ => htagged.1,
    fun _ => htagged.2, fun _ _ => ⟨htagged.1, fun hevent => hnot (h.archived hevent), hcause⟩⟩
  · rw [happlied.fields key hkey hkey', h.fields key hkey hkey']
  · rw [happlied.history, hadded, List.append_assoc]

/-- What a script of auto-archiving makes of a document that the query of a filter has found. -/
theorem docLaw_script {request : FilterEntry} {date : String → Option ℤ} {lib : TimeLib} {now : DateTime}
    {cause : String}
    (h : DocLaw known event doc) (hknown : .ofEntry request ∈ known)
    (hmatches : ((⟨false⟩ : ElasticEventRepo).buildAutoArchiveQuery (.ofEntry request)).matches date doc = true)
    (hscript : addTagsScript tagsAutoArchived (HistoryEntry.autoArchived lib now cause).toJson doc = some doc') :
    DocLaw known event doc' ∧ IsArchived doc' := by
  obtain ⟨halert, hmatch, hnot⟩ := (autoArchiveQuery_matches h.wellFormed date request).mp hmatches
  have happlied := addTagsScript_applied hscript
  have hmem : ∀ tag ∈ tagsAutoArchived, Json.string tag ∈ addMissing tagsAutoArchived (tagsOf doc) :=
    fun tag htag => mem_addMissing_iff.mpr (.inr ⟨tag, htag, rfl⟩)
  have hobject := h.wellFormed.scriptable.isObject
  refine ⟨h.auto happlied rfl (fun tag htag => ?_) ⟨hmem _ (by decide), hmem _ (by decide)⟩ (fun h' => hnot (.inl h'))
    (fun added hadded => ?_) ⟨(isAlert_congr hobject h.isObject h.fields).mp halert, _, hknown, ?_⟩, .inl ?_⟩
  · rcases mem_addMissing_iff.mp htag with htag | ⟨t, -, rfl⟩
    · exact h.wellFormed.tags tag htag
    · exact ⟨t, rfl⟩
  · obtain ⟨added', hadded', hle, hone, -⟩ := h.history
    obtain rfl := List.append_cancel_left (hadded.symm.trans hadded')
    by_contra hne
    exact hnot (.inr (hone (by omega)))
  · rw [← isMatch_congr hobject h.isObject h.fields]
    exact hmatch
  · rw [Tagged, happlied.tags]
    exact hmem _ (by decide)

end

/-! ## Events on their way -/

section

variable {event event' : Json}

theorem ensureHasTags_law (hlist : IsListOrNull (event.get "tags")) (h : ensureHasTags event = some event') :
    event'.get "tags" = .array (tagsOf event) ∧ ∀ key, key ≠ "tags" → event'.get key = event.get key := by
  rw [tagsOf]
  unfold ensureHasTags at h
  rcases hlist with hnull | ⟨elems, helems⟩
  · rw [hnull] at h ⊢
    exact ⟨Json.get_set_self h, fun key hkey => Json.get_setPath_ne h hkey⟩
  · rw [helems] at h ⊢
    obtain rfl := Option.some.inj h
    exact ⟨helems, fun _ _ => rfl⟩

theorem ensureHasEvebox_law (hevebox : event.get "evebox" = .null ∨ (event.get "evebox").isObject)
    (h : ensureHasEvebox event = some event') : (∀ key, key ≠ "evebox" → event'.get key = event.get key) ∧
    (event'.get "evebox").isObject ∧ ∀ key, (event'.get "evebox").get key = (event.get "evebox").get key := by
  unfold ensureHasEvebox at h
  rcases hevebox with hnull | hobject
  · rw [hnull] at h ⊢
    have hget := Json.get_set_self h
    refine ⟨fun key hkey => Json.get_setPath_ne h hkey, ?_, fun key => ?_⟩
    · rw [hget]
      rfl
    · rw [hget]
      rfl
  · rw [hobject] at h
    obtain rfl := Option.some.inj h
    exact ⟨fun _ _ => rfl, hobject, fun _ => rfl⟩

theorem ensureHasHistory_law (hevebox : event.get "evebox" = .null ∨ (event.get "evebox").isObject)
    (hhistory : IsListOrNull ((event.get "evebox").get "history")) (h : ensureHasHistory event = some event') :
    (∀ key, key ≠ "evebox" → event'.get key = event.get key) ∧
    (event'.get "evebox").get "history" = .array (historyOf event) ∧
    ∀ key, key ≠ "history" → (event'.get "evebox").get key = (event.get "evebox").get key := by
  obtain ⟨first, hfirst, h⟩ := Option.bind_eq_some_iff.mp h
  obtain ⟨hfields, hfirstObject, hsame⟩ := ensureHasEvebox_law hevebox hfirst
  rw [hsame] at h
  rw [historyOf]
  rcases hhistory with hnull | ⟨elems, helems⟩
  · rw [hnull] at h ⊢
    have hinner := Json.get_setPath_self h
    refine ⟨fun key hkey => ?_, Json.get_set_self hinner, fun key hkey => ?_⟩
    · rw [Json.get_setPath_ne h hkey, hfields key hkey]
    · rw [Json.get_setPath_ne hinner hkey, hsame]
  · rw [helems] at h ⊢
    obtain rfl := Option.some.inj h
    exact ⟨hfields, (hsame "history").trans helems, fun key _ => hsame key⟩

/-- Marking an event does to it what the script does to a document, but for tags that are there already. -/
theorem markAutoArchived_applied {entry : String → Json} {cause : String} (hevent : WellFormed event)
    (h : markAutoArchived entry event cause = some event') :
    Applied (tagsOf event ++ [.string "evebox.archived", .string "evebox.auto-archived"]) (entry cause) event
      event' := by
  obtain ⟨first, hfirst, h⟩ := Option.bind_eq_some_iff.mp h
  obtain ⟨second, hsecond, h⟩ := Option.bind_eq_some_iff.mp h
  obtain ⟨third, hthird, h⟩ := Option.bind_eq_some_iff.mp h
  obtain ⟨tags, htags, h⟩ := Option.bind_eq_some_iff.mp h
  obtain ⟨fourth, hfourth, h⟩ := Option.bind_eq_some_iff.mp h
  obtain ⟨history, hhistory, hlast⟩ := Option.bind_eq_some_iff.mp h
  obtain ⟨hfirstTags, hfirstOther⟩ := ensureHasTags_law hevent.scriptable.tags hfirst
  have hfirstEvebox := hfirstOther "evebox" (by decide)
  obtain ⟨hsecondOther, hsecondObject, hsecondEvebox⟩ :=
    ensureHasEvebox_law (by rw [hfirstEvebox]; exact hevent.scriptable.evebox) hsecond
  have hsecondHistory := hsecondEvebox "history"
  obtain ⟨hthirdOther, hthirdHistory, hthirdEvebox⟩ :=
    ensureHasHistory_law (.inr hsecondObject)
      (by rw [hsecondHistory, hfirstEvebox]; exact hevent.scriptable.history) hthird
  have hthirdTags : third.get "tags" = .array (tagsOf event) := by
    rw [hthirdOther "tags" (by decide), hsecondOther "tags" (by decide), hfirstTags]
  rw [hthirdTags] at htags
  obtain rfl : tagsOf event = tags := Option.some.inj htags
  have hfourthEvebox : fourth.get "evebox" = third.get "evebox" := Json.get_setPath_ne hfourth (by decide)
  have hsecondHistoryOf : historyOf second = historyOf event := by
    rw [historyOf, hsecondHistory, hfirstEvebox, historyOf]
  have hfourthHistory : fourth.getPath ["evebox", "history"] = .array (historyOf event) := by
    show (fourth.get "evebox").get "history" = _
    rw [hfourthEvebox, hthirdHistory, hsecondHistoryOf]
  rw [hfourthHistory] at hhistory
  obtain rfl : historyOf event = history := Option.some.inj hhistory
  have hinner := Json.get_setPath_self hlast
  have hlastTags : event'.get "tags" =
      .array (tagsOf event ++ [.string "evebox.archived", .string "evebox.auto-archived"]) := by
    rw [Json.get_setPath_ne hlast (by decide), Json.get_set_self hfourth]
  have hlastHistory : (event'.get "evebox").get "history" = .array (historyOf event ++ [entry cause]) :=
    Json.get_set_self hinner
  refine ⟨⟨Json.isObject_setPath hlast, .inr ⟨_, hlastTags⟩, .inr (Json.isObject_setPath hinner),
    .inr ⟨_, hlastHistory⟩⟩, ?_, ?_, fun key hkey hkey' => ?_, fun key hkey => ?_⟩
  · rw [tagsOf, hlastTags]
    rfl
  · rw [historyOf, hlastHistory]
    rfl
  · rw [Json.get_setPath_ne hlast hkey', Json.get_setPath_ne hfourth hkey, hthirdOther key hkey', hsecondOther key hkey',
      hfirstOther key hkey]
  · rw [Json.get_setPath_ne hinner hkey, hfourthEvebox, hthirdEvebox key hkey, hsecondEvebox key, hfirstEvebox]

theorem hasTag_iff (h : WellFormed event) (tag : String) : hasTag event tag = true ↔ Tagged tag event := by
  unfold hasTag Tagged tagsOf
  rcases h.scriptable.tags with hnull | ⟨elems, helems⟩
  · rw [hnull]
    simp [Json.asArray]
  · have hstrings : ∀ e ∈ elems, ∃ s, e = .string s := by
      have htags := h.tags
      rw [tagsOf, helems] at htags
      exact htags
    rw [helems]
    simp only [Json.asArray, Option.getD_some, List.any_eq_true, decide_eq_true_eq]
    constructor
    · rintro ⟨e, he, hstr⟩
      obtain ⟨s, rfl⟩ := hstrings e he
      obtain rfl : s = tag := by simpa [Json.asStr] using hstr
      exact he
    · intro hmem
      exact ⟨_, hmem, rfl⟩

/-- What becomes of an event at the filter for auto-archiving. -/
theorem docLaw_autoArchive {known : List EventFilter} {autoArchive : AutoArchive} {lib : TimeLib} {now : DateTime}
    (hevent : WellFormed event) (hknown : autoArchive.filters ⊆ known)
    (h : Eve.autoArchive (fun cause => (HistoryEntry.autoArchived lib now cause).toJson) autoArchive.isMatch event =
      some event') : DocLaw known event event' := by
  unfold Eve.autoArchive at h
  split at h
  · obtain rfl := Option.some.inj h
    exact .refl hevent
  rename_i hcondition
  obtain ⟨htype, hnot⟩ := not_or.mp hcondition
  split at h
  · rename_i hmatch
    obtain ⟨filter, hfilter, hmatch⟩ := AutoArchive.isMatch_iff.mp hmatch
    have happlied := markAutoArchived_applied hevent h
    have halert : IsAlert event := by
      rw [IsAlert, valuesAt_cons hevent.scriptable.isObject, not_not.mp htype]
      simp [valuesAt, leaves]
    refine (DocLaw.refl hevent).auto happlied rfl (fun tag htag => ?_) ⟨by simp, by simp⟩
      (fun htagged => hnot ((hasTag_iff hevent _).mpr htagged)) (fun added hadded => ?_)
      ⟨halert, filter, hknown hfilter, hmatch⟩
    · rcases List.mem_append.mp htag with htag | htag
      · exact hevent.tags tag htag
      · simp only [List.mem_cons, List.not_mem_nil, or_false] at htag
        rcases htag with rfl | rfl <;> exact ⟨_, rfl⟩
    · obtain rfl : added = [] := List.append_right_eq_self.mp hadded.symm
      rfl
  · obtain rfl := Option.some.inj h
    exact .refl hevent

end

end EveBox.Elastic
