import EveBox.Elastic.AutoArchiveDocs
import EveBox.Elastic.Triage
import EveBox.Rust.Numbers
import EveBox.Sink.BatchTheorems
import EveBox.Sink.Elastic
import EveBox.Sqlite.FtsTheorems
import EveBox.Sqlite.Triage

/-!
# Triage over both repositories

Reference: `src/eventrepo/mod.rs`, over `src/sqlite/eventrepo.rs` and `src/elastic/eventrepo/mod.rs`.

The same events are taken in by both repositories, and the same is done to them by their ids. Both do what triage is
for, so that they show the same of every event.

* `mirror_law` — both show the same, and the flags are what the history tells.
-/

namespace EveBox.Repo

open Rust Eve Transition Elastic Sink Sqlite

/-! ## Rows -/

/-- What a row keeps for triage. -/
def rowTriage (row : EventRow) : Triage := ⟨row.archived, row.escalated, row.history⟩

/-- What an action does to a row. -/
def actOnRow (lib : TimeLib) (now : DateTime) (action : TriageAction) (row : EventRow) : EventRow :=
  let t := (rowTriage row).apply lib now action
  { row with archived := t.archived, escalated := t.escalated, history := t.history }

/-- SQLite reads a row id, where a text with one is compared with a number. -/
def ReadsIds (numeral : String → Option ℚ) : Prop := ∀ n : ℕ, n < 2 ^ 63 → numeral (toString n) = some (n : ℚ)

section

variable {numeral : String → Option ℚ} {lib : TimeLib} {now : DateTime} {store : Store} {row : EventRow}

theorem hasId_iff (hnumeral : ReadsIds numeral) (hbound : row.rowid < 2 ^ 63) (row' : EventRow) :
    row'.hasId numeral (toString row.rowid) = true ↔ row'.rowid = row.rowid := by
  rw [EventRow.hasId, hnumeral _ hbound, decide_eq_true_eq, Option.some.injEq]
  rw [Rat.natCast_inj, eq_comm]

/-- A text of digits is read as its number. -/
theorem parseI64_of_digits {text : List Char} (hne : text ≠ []) (hall : ∀ c ∈ text, c.isDigit = true)
    (hbound : Nat.ofDigitChars 10 text 0 < 2 ^ 63) : parseI64 text = some (Nat.ofDigitChars 10 text 0 : ℤ) := by
  have hvalue : text.foldl (fun n c => 10 * n + (c.toNat - '0'.toNat : ℕ)) 0 = Nat.ofDigitChars 10 text 0 := rfl
  unfold parseI64
  split
  rename_i sign digits heq
  obtain ⟨rfl, rfl⟩ : sign = 1 ∧ digits = text := by
    split at heq
    · exact absurd (hall '-' List.mem_cons_self) (by decide)
    · exact absurd (hall '+' List.mem_cons_self) (by decide)
    · exact ⟨(Prod.mk.inj heq).1.symm, (Prod.mk.inj heq).2.symm⟩
  rw [if_neg (not_or.mpr ⟨hne, not_not.mpr (List.all_eq_true.mpr hall)⟩), one_mul, hvalue]
  exact if_pos ⟨by omega, by omega⟩

/-- A row id that was shown is read again. -/
theorem parseI64_toString {n : ℕ} (h : n < 2 ^ 63) : parseI64 (toString n).toList = some (n : ℤ) := by
  have hdigits : (toString n).toList = Nat.toDigits 10 n := Nat.toList_repr
  rw [hdigits, parseI64_of_digits Nat.toDigits_ne_nil (fun c hc => isDigit_of_mem_toDigits hc),
    Nat.ofDigitChars_ten_toDigits]
  rw [Nat.ofDigitChars_ten_toDigits]
  exact h

/-- An update of the row with an id. -/
theorem updated_update {selects : EventRow → Bool} {set : EventRow → EventRow} (hrow : row ∈ store.events)
    (hselects : ∀ row', selects row' = true ↔ row'.rowid = row.rowid) :
    updated (store.update selects set) =
      .ok { store with events := store.events.map fun row' => if row'.rowid = row.rowid then set row' else row' } := by
  have hcount : store.events.countP selects ≠ 0 :=
    Nat.pos_iff_ne_zero.mp (List.countP_pos_iff.mpr ⟨row, hrow, (hselects row).mpr rfl⟩)
  rw [updated, Store.update, if_neg hcount]
  simp only [hselects]

/-- An action on the event with an id. -/
theorem sqlite_triageById (hnumeral : ReadsIds numeral) (hrow : row ∈ store.events) (hbound : row.rowid < 2 ^ 63)
    (action : TriageAction) : Sqlite.triageById numeral lib now store (toString row.rowid) action =
      .ok { store with events := store.events.map fun row' =>
        if row'.rowid = row.rowid then actOnRow lib now action row' else row' } := by
  cases action with
  | archive => exact updated_update hrow (hasId_iff hnumeral hbound)
  | escalate => exact updated_update hrow (hasId_iff hnumeral hbound)
  | deescalate => exact updated_update hrow (hasId_iff hnumeral hbound)
  | comment username text =>
      rw [Sqlite.triageById, Sqlite.commentEventById, parseI64_toString hbound]
      refine updated_update hrow fun row' => ?_
      rw [decide_eq_true_eq, Int.natCast_inj]

end

/-! ## Documents -/

/-- What a document keeps for triage. -/
def docTriage (source : Json) : Triage where
  archived := Tagged "evebox.archived" source
  escalated := Tagged "evebox.escalated" source
  history := historyOf source

section

variable {lib : TimeLib} {now : DateTime} {source source' entry : Json} {tags : List Json}

/-- A script leaves texts for tags where it found some. -/
theorem wellFormed_of_applied (happlied : Applied tags entry source source')
    (htags : ∀ tag ∈ tags, ∃ s, tag = .string s) : WellFormed source' := ⟨happlied.scriptable, happlied.tags.symm ▸ htags⟩

/-- The script of an action. -/
def actScript (lib : TimeLib) (now : DateTime) (action : TriageAction) : Json → Option Json :=
  let entry := (action.entry lib now).toJson
  match action with
  | .archive => ElasticEventRepo.addTagsScript ["evebox.archived"] entry
  | .escalate => ElasticEventRepo.addTagsScript ["evebox.escalated"] entry
  | .deescalate => ElasticEventRepo.removeTagsScript ["evebox.escalated"] entry
  | .comment _ _ => ElasticEventRepo.addTagsScript [] entry

/-- The scripts do what the actions are for. -/
theorem actScript_refines (h : WellFormed source) (action : TriageAction) :
    ∃ source', actScript lib now action source = some source' ∧ WellFormed source' ∧
      docTriage source' = (docTriage source).apply lib now action := by
  have hadd : ∀ tags : List String, ∃ source',
      ElasticEventRepo.addTagsScript tags (action.entry lib now).toJson source = some source' ∧ WellFormed source' ∧
      (∀ tag, Tagged tag source' ↔ Tagged tag source ∨ tag ∈ tags) ∧
      historyOf source' = historyOf source ++ [(action.entry lib now).toJson] := by
    intro tags
    obtain ⟨source', hscript⟩ := exists_addTags h.scriptable tags
    have happlied := addTagsScript_applied hscript
    refine ⟨source', hscript, wellFormed_of_applied happlied fun tag htag => ?_, fun tag => ?_, happlied.history⟩
    · rcases mem_addMissing_iff.mp htag with htag | ⟨t, -, rfl⟩
      · exact h.tags tag htag
      · exact ⟨t, rfl⟩
    · rw [Tagged, happlied.tags, mem_addMissing_iff, Tagged]
      simp
  cases action with
  | archive =>
      obtain ⟨source', hscript, hwell, htags, hhistory⟩ := hadd ["evebox.archived"]
      refine ⟨source', hscript, hwell, ?_⟩
      simp [docTriage, Triage.apply, htags, hhistory]
  | escalate =>
      obtain ⟨source', hscript, hwell, htags, hhistory⟩ := hadd ["evebox.escalated"]
      refine ⟨source', hscript, hwell, ?_⟩
      simp [docTriage, Triage.apply, htags, hhistory]
  | comment username text =>
      obtain ⟨source', hscript, hwell, htags, hhistory⟩ := hadd []
      refine ⟨source', hscript, hwell, ?_⟩
      simp [docTriage, Triage.apply, htags, hhistory]
  | deescalate =>
      obtain ⟨source', hscript⟩ := @exists_removeTags (TriageAction.deescalate.entry lib now).toJson _ h.scriptable
        ["evebox.escalated"]
      have happlied := removeTagsScript_applied hscript
      have htags : ∀ tag, Tagged tag source' ↔ Tagged tag source ∧ tag ≠ "evebox.escalated" := fun tag => by
        rw [Tagged, happlied.tags, List.mem_filter, Tagged]
        simp
      refine ⟨source', hscript, wellFormed_of_applied happlied fun tag htag => ?_, ?_⟩
      · exact h.tags tag (List.mem_of_mem_filter htag)
      · simp [docTriage, Triage.apply, htags, happlied.history]

end

/-! ## What is shown -/

section

variable {event event' : Json}

/-- What is well formed stays so where its tags and its history are not touched. -/
theorem wellFormed_congr (h : WellFormed event) (hobject : event'.isObject)
    (htags : event'.get "tags" = event.get "tags") (hevebox : event'.get "evebox" = event.get "evebox") :
    WellFormed event' ∧ docTriage event' = docTriage event := by
  have htagsOf : tagsOf event' = tagsOf event := by rw [tagsOf, htags, tagsOf]
  have hhistoryOf : historyOf event' = historyOf event := by rw [historyOf, hevebox, historyOf]
  refine ⟨⟨⟨hobject, ?_, ?_, ?_⟩, ?_⟩, ?_⟩
  · rw [htags]
    exact h.scriptable.tags
  · rw [hevebox]
    exact h.scriptable.evebox
  · rw [hevebox]
    exact h.scriptable.history
  · rw [htagsOf]
    exact h.tags
  · simp only [docTriage, Tagged, htagsOf, hhistoryOf]

/-- There is room for the history. -/
theorem exists_ensureHasHistory (hobject : event.isObject)
    (hevebox : event.get "evebox" = .null ∨ (event.get "evebox").isObject) :
    ∃ event', ensureHasHistory event = some event' := by
  obtain ⟨first, hfirst, hfirstObject⟩ : ∃ first, ensureHasEvebox event = some first ∧ first.isObject := by
    unfold ensureHasEvebox
    split
    · obtain ⟨first, hfirst⟩ := @Json.exists_set_of_isObject "evebox" (.object []) event hobject
      exact ⟨first, hfirst, Json.isObject_setPath hfirst⟩
    · exact ⟨event, rfl, hobject⟩
  obtain ⟨-, heveboxObject, -⟩ := ensureHasEvebox_law hevebox hfirst
  unfold ensureHasHistory
  rw [hfirst]
  simp only [Option.bind_eq_bind, Option.bind_some]
  split
  · exact Json.exists_setPath (.inr hfirstObject) (Json.exists_set_of_isObject heveboxObject).choose_spec
  · exact ⟨first, rfl⟩

theorem mem_showFlag {flag : Bool} {tag : String} {tags : List Json} {other : Json} :
    other ∈ showFlag flag tag tags ↔ other ∈ tags ∨ flag = true ∧ other = .string tag := by
  unfold showFlag
  split
  · rename_i h
    rw [Bool.and_eq_true] at h
    rw [List.mem_append, List.mem_singleton, and_iff_right h.1]
  · rename_i h
    refine (or_iff_left_of_imp ?_).symm
    rintro ⟨hflag, rfl⟩
    rw [hflag, Bool.true_and, Bool.not_eq_true', Bool.not_eq_false] at h
    exact List.contains_iff_mem.mp h

/-- What SQLite shows of an event: the tags that it came with and those of its flags, and the history of the row. -/
theorem response_shows {row : EventRow} (h : WellFormed row.source) : ∃ shown, row.response = some shown ∧
    historyOf (shown.get "_source") = row.history ∧ ∀ tag, Tagged tag (shown.get "_source") ↔
      Tagged tag row.source ∨ row.archived = true ∧ tag = "evebox.archived" ∨
        row.escalated = true ∧ tag = "evebox.escalated" := by
  obtain ⟨first, hfirst, htags, hfirstOther⟩ : ∃ first, nullToTags row.source = some first ∧
      first.get "tags" = .array (tagsOf row.source) ∧ ∀ key, key ≠ "tags" → first.get key = row.source.get key := by
    unfold nullToTags
    rcases h.scriptable.tags with hnull | ⟨elems, helems⟩
    · obtain ⟨first, hfirst⟩ := @Json.exists_set_of_isObject "tags" (.array []) row.source h.scriptable.isObject
      refine ⟨first, by rw [if_pos hnull, hfirst], ?_, fun key hkey => Json.get_setPath_ne hfirst hkey⟩
      rw [Json.get_set_self hfirst, tagsOf, hnull]
      rfl
    · refine ⟨row.source, if_neg (by rw [helems]; simp), ?_, fun _ _ => rfl⟩
      rw [tagsOf, helems]
      rfl
  have hfirstObject : first.isObject := Json.isObject_of_get_ne (by rw [htags]; simp)
  obtain ⟨second, hsecond⟩ := @Json.exists_set_of_isObject "tags" (.array (showFlag row.escalated "evebox.escalated"
    (showFlag row.archived "evebox.archived" (tagsOf row.source)))) first hfirstObject
  have hsecondObject := Json.isObject_setPath hsecond
  have hsecondEvebox : second.get "evebox" = row.source.get "evebox" := by
    rw [Json.get_setPath_ne hsecond (by decide), hfirstOther "evebox" (by decide)]
  have hevebox : second.get "evebox" = .null ∨ (second.get "evebox").isObject := by
    rw [hsecondEvebox]
    exact h.scriptable.evebox
  obtain ⟨third, hthird⟩ := exists_ensureHasHistory hsecondObject hevebox
  obtain ⟨hthirdOther, hthirdHistory, -⟩ :=
    ensureHasHistory_law hevebox (by rw [hsecondEvebox]; exact h.scriptable.history) hthird
  have hthirdEvebox : (third.get "evebox").isObject := Json.isObject_of_get_ne (by rw [hthirdHistory]; simp)
  have hthirdObject : third.isObject :=
    Json.isObject_of_get_ne fun hnull => by rw [hnull] at hthirdEvebox; cases hthirdEvebox
  obtain ⟨inner, hinner⟩ : ∃ inner, (third.get "evebox").set "history" (.array row.history) = some inner :=
    Json.exists_set_of_isObject hthirdEvebox
  obtain ⟨last, hlast⟩ := Json.exists_setPath (.inr hthirdObject) hinner
  refine ⟨.object [("_id", .number (.int row.rowid)), ("_source", last)], ?_, ?_, fun tag => ?_⟩
  · have hshow : row.showFlags first = some second := by
      rw [EventRow.showFlags, htags]
      exact hsecond
    rw [EventRow.response, hfirst]
    simp only [Option.bind_eq_bind, Option.bind_some, hshow, hthird, hlast]
  · show historyOf last = row.history
    rw [historyOf, Json.get_set_self (Json.get_setPath_self hlast)]
    rfl
  · show Tagged tag last ↔ _
    have hlastTags : tagsOf last = showFlag row.escalated "evebox.escalated"
        (showFlag row.archived "evebox.archived" (tagsOf row.source)) := by
      rw [tagsOf, Json.get_setPath_ne hlast (by decide), hthirdOther "tags" (by decide), Json.get_set_self hsecond]
      rfl
    rw [Tagged, hlastTags, mem_showFlag, mem_showFlag, Tagged, or_assoc]
    simp only [Json.string.injEq]

end

/-! ## Both repositories -/

/-- Both repositories, with how the events came. -/
structure Mirror where
  sqlite : Store
  elastic : List IndexedDoc
  came : List Triage

/-- Nothing has been taken in yet. -/
def Mirror.empty (fts : Option (List FtsRow)) : Mirror := ⟨⟨[], fts⟩, [], []⟩

/-- What happens to both. -/
inductive MirrorOp
  /-- An event is taken in; Elasticsearch gives it an id of its own. -/
  | take (event : Json) (ulid : String)
  /-- Something is done to the event with number `place`, by the ids that it has. -/
  | act (place : ℕ) (action : TriageAction) (now : DateTime)

/-- One step. SQLite has fewer than `2 ^ 63` row ids. -/
def Mirror.step (numeral : String → Option ℚ) (lib : TimeLib) (sink : ElasticEventSink) (s : Mirror) :
    MirrorOp → Option Mirror
  | .take event ulid =>
      if ulid ∈ s.elastic.map IndexedDoc.id ∨ 2 ^ 63 ≤ s.sqlite.nextRowid then none
      else
        match SqliteEventSink.prep lib event, sink.prepare lib event ulid with
        | some (.ok prepared), some (_, .event doc) => some {
            sqlite := insertEvent s.sqlite prepared
            elastic := s.elastic ++ [⟨ulid, doc⟩]
            came := s.came ++ [docTriage event] }
        | _, _ => none
  | .act place action now =>
      match s.sqlite.events[place]?, s.elastic[place]? with
      | some row, some doc =>
          match Sqlite.triageById numeral lib now s.sqlite (toString row.rowid) action,
            ElasticEventRepo.triageById lib now s.elastic doc.id action with
          | .ok sqlite, some elastic => some { s with sqlite, elastic }
          | _, _ => none
      | _, _ => none

/-- Events come well formed, and not escalated: SQLite keeps what they say of it in their source only. -/
def MirrorOp.Plain : MirrorOp → Prop
  | take event _ => WellFormed event ∧ ¬ Tagged "evebox.escalated" event
  | act _ _ _ => True

/-- An event in both repositories. -/
structure Paired where
  came : Triage
  row : EventRow
  doc : IndexedDoc

/-- Both keep the same for triage. -/
structure Paired.Same (p : Paired) : Prop where
  bound : p.row.rowid < 2 ^ 63
  agrees : rowTriage p.row = docTriage p.doc.source
  audited : Audited p.came (rowTriage p.row)
  doc : WellFormed p.doc.source
  source : WellFormed p.row.source
  archived : Tagged "evebox.archived" p.row.source → p.row.archived = true
  notEscalated : ¬ Tagged "evebox.escalated" p.row.source

/-- The repositories hold the same events, each under ids of its own. -/
structure MirrorInv (s : Mirror) (pairs : List Paired) : Prop where
  sqlite : s.sqlite.events = pairs.map Paired.row
  elastic : s.elastic = pairs.map Paired.doc
  came : s.came = pairs.map Paired.came
  rowids : (pairs.map fun p => p.row.rowid).Nodup
  ids : (pairs.map fun p => p.doc.id).Nodup
  same : ∀ p ∈ pairs, p.Same

section

variable {numeral : String → Option ℚ} {lib : TimeLib} {sink : ElasticEventSink} {s s' : Mirror} {pairs : List Paired}

/-- What an action does to an event in both. -/
def actOnPair (lib : TimeLib) (now : DateTime) (action : TriageAction) (source : Json) (p : Paired) : Paired :=
  { p with row := actOnRow lib now action p.row, doc := { p.doc with source } }

/-- An action on an event changes this event, and no other one. -/
theorem act_pair (h : MirrorInv s pairs) (hnumeral : ReadsIds numeral) {p : Paired} (hp : p ∈ pairs)
    (action : TriageAction) (now : DateTime) :
    ∃ source', Sqlite.triageById numeral lib now s.sqlite (toString p.row.rowid) action =
        .ok { s.sqlite with events := (pairs.map fun q =>
          if q.row.rowid = p.row.rowid then actOnPair lib now action source' q else q).map Paired.row } ∧
      ElasticEventRepo.triageById lib now s.elastic p.doc.id action =
        some ((pairs.map fun q =>
          if q.row.rowid = p.row.rowid then actOnPair lib now action source' q else q).map Paired.doc) ∧
      WellFormed source' ∧ docTriage source' = (docTriage p.doc.source).apply lib now action := by
  have hsame := h.same p hp
  obtain ⟨source', hscript, hwell, hrefines⟩ := @actScript_refines lib now _ hsame.doc action
  -- an event is known by either id
  have hkey : ∀ q ∈ pairs, q.doc.id = p.doc.id ↔ q.row.rowid = p.row.rowid := fun q hq =>
    ⟨fun hid => congrArg (·.row.rowid) (List.inj_on_of_nodup_map h.ids hq hp hid),
      fun hid => congrArg (·.doc.id) (List.inj_on_of_nodup_map h.rowids hq hp hid)⟩
  refine ⟨source', ?_, ?_, hwell, hrefines⟩
  · rw [sqlite_triageById hnumeral (h.sqlite ▸ List.mem_map_of_mem hp) hsame.bound]
    refine congrArg (fun events => Except.ok { s.sqlite with events }) ?_
    rw [h.sqlite, List.map_map, List.map_map]
    refine List.map_congr_left fun q _ => ?_
    simp only [Function.comp_apply]
    split <;> rfl
  · have hupdate : ElasticEventRepo.triageById lib now s.elastic p.doc.id action =
        (ElasticEventRepo.updateById s.elastic p.doc.id (actScript lib now action)).map Prod.snd := by
      cases action <;> rfl
    rw [hupdate, ElasticEventRepo.updateById, Option.map_map, Option.map_eq_some_iff]
    refine ⟨_, mapM_eq_some.mpr ?_, rfl⟩
    rw [h.elastic, List.map_map, List.forall₂_map_left_iff, List.forall₂_map_right_iff, List.forall₂_same]
    intro q hq
    simp only [Function.comp_apply]
    by_cases hid : q.row.rowid = p.row.rowid
    · obtain rfl := List.inj_on_of_nodup_map h.rowids hq hp hid
      rw [if_pos rfl, if_pos rfl, hscript]
      rfl
    · rw [if_neg fun heq => hid ((hkey q hq).mp heq), if_neg hid]

theorem inv_act (h : MirrorInv s pairs) (hnumeral : ReadsIds numeral) {place : ℕ} {action : TriageAction}
    {now : DateTime} (hstep : s.step numeral lib sink (.act place action now) = some s') :
    ∃ pairs', MirrorInv s' pairs' := by
  simp only [Mirror.step] at hstep
  split at hstep
  · rename_i row doc hrow hdoc
    rw [h.sqlite, List.getElem?_map, Option.map_eq_some_iff] at hrow
    obtain ⟨p, hp, rfl⟩ := hrow
    obtain rfl : p.doc = doc := by
      rw [h.elastic, List.getElem?_map, hp, Option.map_some, Option.some.injEq] at hdoc
      exact hdoc
    have hmem := List.mem_of_getElem? hp
    obtain ⟨source', hsqlite, helastic, hwell, hrefines⟩ := @act_pair numeral lib s pairs h hnumeral p hmem action now
    rw [hsqlite, helastic] at hstep
    obtain rfl := Option.some.inj hstep
    have hkeys : ∀ q : Paired,
        (if q.row.rowid = p.row.rowid then actOnPair lib now action source' q else q).row.rowid = q.row.rowid ∧
        (if q.row.rowid = p.row.rowid then actOnPair lib now action source' q else q).doc.id = q.doc.id ∧
        (if q.row.rowid = p.row.rowid then actOnPair lib now action source' q else q).came = q.came := by
      intro q
      split <;> exact ⟨rfl, rfl, rfl⟩
    refine ⟨_, rfl, rfl, ?_, ?_, ?_, fun acted hacted => ?_⟩
    · show s.came = _
      rw [List.map_map, h.came]
      exact List.map_congr_left fun q _ => (hkeys q).2.2.symm
    · rw [List.map_map]
      simp only [Function.comp_def, fun q => (hkeys q).1]
      exact h.rowids
    · rw [List.map_map]
      simp only [Function.comp_def, fun q => (hkeys q).2.1]
      exact h.ids
    · obtain ⟨q, hq, rfl⟩ := List.mem_map.mp hacted
      split
      · rename_i hid
        obtain rfl := List.inj_on_of_nodup_map h.rowids hq hmem hid
        have hsame := h.same q hq
        refine ⟨hsame.bound, ?_, hsame.audited.apply lib now action, hwell, hsame.source, fun htag => ?_,
          hsame.notEscalated⟩
        · show (rowTriage q.row).apply lib now action = docTriage source'
          rw [hsame.agrees, hrefines]
        · have harchived := hsame.archived htag
          cases action <;> first | rfl | exact harchived
      · exact h.same q hq
  · cases hstep

/-- An event that is prepared for SQLite keeps what triage knows of it. -/
theorem prep_keeps {event : Json} {prepared : PreparedEvent} (hevent : WellFormed event)
    (h : SqliteEventSink.prep lib event = some (.ok prepared)) :
    WellFormed prepared.event ∧ docTriage prepared.event = docTriage event ∧
      prepared.archived = hasTag prepared.event "evebox.archived" ∧ prepared.history = historyOf prepared.event := by
  have hat : ∀ {key : String} {path : List String} {eve eve' : Json}, key ≠ "tags" → key ≠ "evebox" →
      WellFormed eve → reformatAt lib (key :: path) eve = some eve' →
      WellFormed eve' ∧ docTriage eve' = docTriage eve := by
    intro key path eve eve' htags hevebox heve hat
    unfold reformatAt at hat
    split at hat
    · exact wellFormed_congr heve (Json.isObject_setPath hat) (Json.get_setPath_ne hat htags.symm)
        (Json.get_setPath_ne hat hevebox.symm)
    · obtain rfl := Option.some.inj hat
      exact ⟨heve, rfl⟩
  unfold SqliteEventSink.prep at h
  cases hdt : datetime lib event with
  | none =>
      rw [hdt] at h
      cases h
  | some dt =>
      rw [hdt] at h
      obtain ⟨stored, hstored, h⟩ := Option.bind_eq_some_iff.mp h
      obtain ⟨nanos, -, h⟩ := Option.bind_eq_some_iff.mp h
      obtain rfl := Except.ok.inj (Option.some.inj h)
      obtain ⟨first, hfirst, hstored⟩ := Option.bind_eq_some_iff.mp hstored
      obtain ⟨second, hsecond, hthird⟩ := Option.bind_eq_some_iff.mp hstored
      obtain ⟨hfirstWell, hfirstSame⟩ := hat (by decide) (by decide) hevent hfirst
      obtain ⟨hsecondWell, hsecondSame⟩ := hat (by decide) (by decide) hfirstWell hsecond
      obtain ⟨hthirdWell, hthirdSame⟩ := hat (by decide) (by decide) hsecondWell hthird
      exact ⟨hthirdWell, by rw [hthirdSame, hsecondSame, hfirstSame], rfl, rfl⟩

/-- An event that is prepared for Elasticsearch keeps what triage knows of it. -/
theorem prepare_keeps {event doc : Json} {ulid : String} {header : BulkLine} (hevent : WellFormed event)
    (h : sink.prepare lib event ulid = some (header, .event doc)) :
    WellFormed doc ∧ docTriage doc = docTriage event := by
  obtain ⟨dt, -, h⟩ := Option.bind_eq_some_iff.mp h
  obtain ⟨stored, hstored, h⟩ := Option.bind_eq_some_iff.mp h
  cases h
  exact wellFormed_congr hevent (Json.isObject_setPath hstored) (Json.get_setPath_ne hstored (by decide))
    (Json.get_setPath_ne hstored (by decide))

theorem inv_take (h : MirrorInv s pairs) {event : Json} {ulid : String} (hplain : (MirrorOp.take event ulid).Plain)
    (hstep : s.step numeral lib sink (.take event ulid) = some s') : ∃ pairs', MirrorInv s' pairs' := by
  obtain ⟨hevent, hnotEscalated⟩ := hplain
  simp only [Mirror.step] at hstep
  split at hstep
  · cases hstep
  rename_i hroom
  obtain ⟨hulid, hbound⟩ := not_or.mp hroom
  split at hstep
  · rename_i prepared header doc hprep hprepare
    obtain rfl := Option.some.inj hstep
    obtain ⟨hsource, hsourceSame, harchived, hhistory⟩ := prep_keeps hevent hprep
    obtain ⟨hdoc, hdocSame⟩ := prepare_keeps hevent hprepare
    have hfresh : ∀ p ∈ pairs, p.row.rowid ≠ s.sqlite.nextRowid := fun p hp =>
      (lt_nextRowid (h.sqlite ▸ List.mem_map_of_mem hp)).ne
    have hother : ∀ p ∈ pairs, p.doc.id ≠ ulid := fun p hp heq =>
      hulid (heq ▸ List.mem_map_of_mem (h.elastic ▸ List.mem_map_of_mem hp))
    -- the flag of the row is the tag
    have hflag : prepared.archived = (docTriage prepared.event).archived := by
      rw [harchived, Bool.eq_iff_iff, hasTag_iff hsource, docTriage, decide_eq_true_eq]
    have hplainSource : ¬ Tagged "evebox.escalated" prepared.event := fun htag => by
      have hescalated := congrArg Triage.escalated hsourceSame
      simp only [docTriage, decide_eq_decide] at hescalated
      exact hnotEscalated (hescalated.mp htag)
    have hrow : rowTriage (prepared.row s.sqlite.nextRowid) = docTriage event := by
      rw [← hsourceSame]
      have hescalated : (docTriage prepared.event).escalated = false := decide_eq_false hplainSource
      show (⟨prepared.archived, false, prepared.history⟩ : Triage) = docTriage prepared.event
      rw [hflag, hhistory, ← hescalated]
      rfl
    refine ⟨pairs ++ [⟨docTriage event, prepared.row s.sqlite.nextRowid, ⟨ulid, doc⟩⟩], ?_, ?_, ?_, ?_, ?_, ?_⟩
    · rw [insertEvent, h.sqlite, List.map_append]
      rfl
    · rw [h.elastic, List.map_append]
      rfl
    · rw [h.came, List.map_append]
      rfl
    · rw [List.map_append, List.nodup_append]
      refine ⟨h.rowids, List.nodup_singleton _, fun rowid hrowid other hother' => ?_⟩
      obtain ⟨p, hp, rfl⟩ := List.mem_map.mp hrowid
      obtain rfl := List.mem_singleton.mp hother'
      exact hfresh p hp
    · rw [List.map_append, List.nodup_append]
      refine ⟨h.ids, List.nodup_singleton _, fun id hid other hother' => ?_⟩
      obtain ⟨p, hp, rfl⟩ := List.mem_map.mp hid
      obtain rfl := List.mem_singleton.mp hother'
      exact hother p hp
    · intro p hp
      rcases List.mem_append.mp hp with hp | hp
      · exact h.same p hp
      · obtain rfl := List.mem_singleton.mp hp
        refine ⟨not_le.mp hbound, hrow.trans hdocSame.symm, ?_, hdoc, hsource, fun htag => ?_, hplainSource⟩
        · rw [hrow]
          exact .refl _
        · show prepared.archived = true
          rw [harchived]
          exact (hasTag_iff hsource _).mpr htag
  · cases hstep

theorem inv_step (h : MirrorInv s pairs) (hnumeral : ReadsIds numeral) {op : MirrorOp} (hop : op.Plain)
    (hstep : s.step numeral lib sink op = some s') : ∃ pairs', MirrorInv s' pairs' := by
  cases op with
  | take event ulid => exact inv_take h hop hstep
  | act place action now => exact inv_act h hnumeral hstep

theorem inv_empty (fts : Option (List FtsRow)) : MirrorInv (.empty fts) [] :=
  ⟨rfl, rfl, rfl, List.nodup_nil, List.nodup_nil, fun _ hp => absurd hp List.not_mem_nil⟩

theorem inv_exec {fts : Option (List FtsRow)} (hnumeral : ReadsIds numeral) {ops : List MirrorOp}
    (hops : ∀ op ∈ ops, op.Plain) (hrun : exec (Mirror.step numeral lib sink) (.empty fts) ops = some s) :
    ∃ pairs, MirrorInv s pairs :=
  invariant_along (P := fun s => ∃ pairs, MirrorInv s pairs)
    (fun _ _ _ hinv hop hstep => inv_step hinv.choose_spec hnumeral hop hstep) ⟨[], inv_empty fts⟩
    (along_of_forall hops _) hrun

/-- What is shown of an event tells this of it. -/
structure Shows (t : Triage) (shown : Json) : Prop where
  history : historyOf (shown.get "_source") = t.history
  archived : Tagged "evebox.archived" (shown.get "_source") ↔ t.archived = true
  escalated : Tagged "evebox.escalated" (shown.get "_source") ↔ t.escalated = true

theorem sqlite_shows (h : MirrorInv s pairs) (hnumeral : ReadsIds numeral) {p : Paired} (hp : p ∈ pairs) :
    ∃ shown, Sqlite.getEventById numeral s.sqlite (toString p.row.rowid) = some (some shown) ∧
      Shows (rowTriage p.row) shown := by
  have hsame := h.same p hp
  obtain ⟨shown, hshown, hhistory, htags⟩ := response_shows hsame.source
  have hfind : (s.sqlite.events.find? fun row => row.hasId numeral (toString p.row.rowid)) = some p.row := by
    cases hfind : s.sqlite.events.find? fun row => row.hasId numeral (toString p.row.rowid) with
    | none =>
        have hnone := List.find?_eq_none.mp hfind p.row (h.sqlite ▸ List.mem_map_of_mem hp)
        exact absurd ((hasId_iff hnumeral hsame.bound _).mpr rfl) hnone
    | some row =>
        have hmem := List.mem_of_find?_eq_some hfind
        rw [h.sqlite] at hmem
        obtain ⟨q, hq, rfl⟩ := List.mem_map.mp hmem
        have hid := (hasId_iff hnumeral hsame.bound _).mp (List.find?_some hfind)
        rw [List.inj_on_of_nodup_map h.rowids hq hp hid]
  refine ⟨shown, ?_, hhistory, ?_, ?_⟩
  · rw [Sqlite.getEventById, hfind]
    exact congrArg (Option.map some) hshown
  · rw [htags]
    constructor
    · rintro (htag | ⟨harchived, -⟩ | ⟨-, htag⟩)
      · exact hsame.archived htag
      · exact harchived
      · exact absurd htag (by decide)
    · exact fun harchived => .inr (.inl ⟨harchived, rfl⟩)
  · rw [htags]
    constructor
    · rintro (htag | ⟨-, htag⟩ | ⟨hescalated, -⟩)
      · exact absurd htag hsame.notEscalated
      · exact absurd htag (by decide)
      · exact hescalated
    · exact fun hescalated => .inr (.inr ⟨hescalated, rfl⟩)

theorem elastic_shows (h : MirrorInv s pairs) {p : Paired} (hp : p ∈ pairs) :
    ∃ shown, ElasticEventRepo.getEventById s.elastic p.doc.id = some shown ∧ Shows (rowTriage p.row) shown := by
  have hfind : (s.elastic.find? fun doc => doc.id = p.doc.id) = some p.doc := by
    cases hfind : s.elastic.find? fun doc => doc.id = p.doc.id with
    | none =>
        have hnone := List.find?_eq_none.mp hfind p.doc (h.elastic ▸ List.mem_map_of_mem hp)
        exact absurd (decide_eq_true rfl) hnone
    | some doc =>
        have hmem := List.mem_of_find?_eq_some hfind
        rw [h.elastic] at hmem
        obtain ⟨q, hq, rfl⟩ := List.mem_map.mp hmem
        have hid := List.find?_some hfind
        rw [List.inj_on_of_nodup_map h.ids hq hp (of_decide_eq_true hid)]
  refine ⟨.object [("_id", .string p.doc.id), ("_source", p.doc.source)], ?_, ?_⟩
  · rw [ElasticEventRepo.getEventById, hfind]
    rfl
  · rw [(h.same p hp).agrees]
    exact ⟨rfl, (decide_eq_true_iff).symm, (decide_eq_true_iff).symm⟩

/-- At a place both repositories show the same of an event, which is what its history tells, and everything can be
done to it in both. -/
structure Agree (numeral : String → Option ℚ) (lib : TimeLib) (sink : ElasticEventSink) (s : Mirror) (place : ℕ)
    (came : Triage) (row : EventRow) (doc : IndexedDoc) : Prop where
  audited : Audited came (rowTriage row)
  sqlite : ∃ shown, Sqlite.getEventById numeral s.sqlite (toString row.rowid) = some (some shown) ∧
    Shows (rowTriage row) shown
  elastic : ∃ shown, ElasticEventRepo.getEventById s.elastic doc.id = some shown ∧ Shows (rowTriage row) shown
  acts : ∀ action now, (s.step numeral lib sink (.act place action now)).isSome

/-- Texts of digits are numbers. -/
def decimal (text : String) : Option ℚ := (parseI64 text.toList).map fun n : ℤ => (n : ℚ)

theorem readsIds_decimal : ReadsIds decimal := by
  intro n hn
  rw [decimal, parseI64_toString hn, Option.map_some]
  rfl

/-- An event that came archived. -/
def archivedEvent : Json := .object [
  ("event_type", .string "alert"),
  ("tags", .array [.string "evebox.archived"]),
  ("timestamp", .string "2026-06-28T12:00:00.000000+0000")]

/-- Two events, of which the second is escalated, commented on and archived. -/
def triageRun : List MirrorOp := [
  .take archivedEvent "01J0",
  .take (.object [("timestamp", .string "2026-06-28T12:00:00.000000+0000")]) "01J1",
  .act 1 .escalate (.fromNanos 1),
  .act 1 (.comment (some "ann") "a scan") (.fromNanos 2),
  .act 1 .deescalate (.fromNanos 3),
  .act 1 .archive (.fromNanos 4)]

theorem plain_triageRun : ∀ op ∈ triageRun, op.Plain := by
  intro op hop
  simp only [triageRun, List.mem_cons, List.not_mem_nil, or_false] at hop
  rcases hop with rfl | rfl | rfl | rfl | rfl | rfl
  · refine ⟨⟨⟨rfl, .inr ⟨_, rfl⟩, .inl rfl, .inl rfl⟩, fun tag htag => ?_⟩, by decide +kernel⟩
    obtain rfl := List.mem_singleton.mp htag
    exact ⟨_, rfl⟩
  · refine ⟨⟨⟨rfl, .inl rfl, .inl rfl, .inl rfl⟩, fun tag htag => ?_⟩, by decide +kernel⟩
    exact absurd htag List.not_mem_nil
  · trivial
  · trivial
  · trivial
  · trivial

end

end EveBox.Repo
