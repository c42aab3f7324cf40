import EveBox.Sqlite.References

/-!
# The aggregations over SQLite: the rows that they return

Reference: `src/sqlite/eventrepo/agg.rs`.

`agg` leaves the groups, their order and the limit to SQLite. `agg_stream` counts in a table and has its own order and
limit. Both return the first rows of an arrangement of the counts.

* `aggBuilder_spells`, `aggStreamBuilder_spells` — the text of a statement is that of the search that is read in it.
* `agree_iff` — when both return the rows of the most, or the least, frequent values.
-/

namespace EveBox.Sqlite

open Rust Eve Repo SqlText Frequency

open EventQueryBuilder (append applyQueryString_eq foldl_append_eq)

/-! ## The text of the statements -/

/-- The condition of the kind of event. -/
def kindConditions (field : String) : List Condition :=
  (eventTypeOf field).toList.map fun s => .compare .eq (.extract (lit "event_type")) (.literal s)

theorem EventQueryBuilder.whereKind_eq (b : EventQueryBuilder) (field : String) :
    b.whereKind field = b.append { conditions := kindConditions field } := by
  unfold EventQueryBuilder.whereKind kindConditions
  cases eventTypeOf field with
  | none => simp [append]
  | some s => exact EventQueryBuilder.pushWhere_eq b rfl rfl

theorem kindConditions_args (field : String) : (kindConditions field).flatMap Condition.args = [] := by
  unfold kindConditions
  cases eventTypeOf field <;> rfl

/-- The text of `agg`. -/
theorem aggBuilder_spells (fts : Bool) (field : String) (size : ℕ) (order : String) (query : List QueryElement) :
    Option.Rel EventQueryBuilder.Spells (aggBuilder fts field size order query) (aggSearch fts field query) := by
  unfold aggBuilder aggSearch
  dsimp only
  rw [applyQueryString_eq, EventQueryBuilder.whereKind_eq]
  dsimp only [append]
  cases query.mapM (term fts) with
  | none => exact .none
  | some terms =>
      rw [Option.map_some, Option.map_some, foldl_append_eq]
      refine .some ⟨rfl, ?_, ?_, ?_⟩
      · rw [List.map_append, List.map_flatMap]
        rfl
      · rw [List.flatMap_append, List.flatMap_assoc]
        rfl
      · rw [List.map_flatMap]
        rfl

/-- The builder holds the text of the search and of one more clause. -/
structure EventQueryBuilder.SpellsStream (b : EventQueryBuilder) (s : Search) : Prop where
  leftJoin : b.leftJoin = s.joins.map Join.sql
  wheres : b.wheres.Perm (lit "agg IS NOT NULL" :: s.conditions.map Condition.sql)
  args : b.args = s.conditions.flatMap Condition.args
  ftsPhrases : b.ftsPhrases = s.phrases.map fun p => "\x22" ++ p ++ "\x22"

/-- The text of `agg_stream`. -/
theorem aggStreamBuilder_spells (fts : Bool) (field : String) (query : List QueryElement) :
    Option.Rel EventQueryBuilder.SpellsStream (aggStreamBuilder fts field query) (aggSearch fts field query) := by
  unfold aggStreamBuilder aggSearch
  dsimp only
  rw [applyQueryString_eq]
  dsimp only [EventQueryBuilder.pushWhere]
  cases query.mapM (term fts) with
  | none => exact .none
  | some terms =>
      rw [Option.map_some, Option.map_some, Option.map_some, foldl_append_eq, EventQueryBuilder.whereKind_eq]
      refine .some ⟨rfl, ?_, ?_, ?_⟩
      · dsimp only [append]
        rw [List.map_append, List.map_flatMap, List.nil_append, List.singleton_append, List.cons_append]
        exact List.Perm.cons _ List.perm_append_comm
      · dsimp only [append]
        have hkind := kindConditions_args field
        rw [List.flatMap_append, List.flatMap_assoc, hkind, List.append_nil]
        unfold kindConditions at hkind
        rw [hkind]
      · dsimp only [append]
        rw [List.map_flatMap]
        simp

/-! ## Values -/

namespace AggEngine

variable (engine : AggEngine)

theorem counted_eq_null_iff (field : String) (e : EventRow) :
    engine.counted field e = .null ↔ engine.shown field e = .null := by
  unfold counted shown
  by_cases hfield : field = "dns.rrname"
  · rw [if_pos hfield, if_pos hfield]
  · rw [if_neg hfield, if_neg hfield, castText]
    by_cases hnull : engine.extract e.source field = .null
    · rw [if_pos hnull]
      simp [hnull]
    · rw [if_neg hnull]
      simp [hnull]

end AggEngine

/-- A key of the rows, as a value of SQLite. -/
def toValue (row : String × ℕ) : SqlValue × ℕ := (.text row.1, row.2)

theorem text_injective : Function.Injective SqlValue.text := fun _ _ h => SqlValue.text.inj h

/-- A value is missing, or it is a text. -/
def IsTextOrNull (value : SqlValue) : Prop := value ≠ .null → ∃ text, value = .text text

theorem norm_of_text {value : SqlValue} (h : IsTextOrNull value) : value.norm = value := by
  by_cases hnull : value = .null
  · rw [hnull]
    rfl
  · obtain ⟨text, rfl⟩ := h hnull
    rfl

/-! ## `agg` -/

section

variable {rows : List AggRow}

/-- The values that are there. -/
def presentValues (values : List SqlValue) : List SqlValue := values.filter (· ≠ .null)

theorem mem_presentValues {values : List SqlValue} {value : SqlValue} :
    value ∈ presentValues values ↔ value ∈ values ∧ value ≠ .null := by
  rw [presentValues, List.mem_filter, decide_eq_true_iff]

theorem count_presentValues {values : List SqlValue} {value : SqlValue} (h : value ≠ .null) :
    (presentValues values).count value = values.count value := List.count_filter (by simpa using h)

/-- The rows count a value where they show one, and show texts. -/
structure TextRows (rows : List AggRow) : Prop where
  counted : ∀ row ∈ rows, row.counted = .null ↔ row.shown = .null
  shown : ∀ row ∈ rows, IsTextOrNull row.shown

/-- A group: a value that is there with its count, or nothing with zero. -/
theorem mem_groups (h : TextRows rows) {group : SqlValue × ℕ} : group ∈ groups rows ↔ group.1 ∈ rows.map (·.shown) ∧
    group.2 = if group.1 = .null then 0 else (rows.map (·.shown)).count group.1 := by
  have hnorm : rows.map (·.shown.norm) = rows.map (·.shown) :=
    List.map_congr_left fun row hrow => norm_of_text (h.shown row hrow)
  have hcount : ∀ value, (rows.filter fun row => row.shown.norm = value).countP (fun row => row.counted ≠ .null) =
      if value = .null then 0 else (rows.map (·.shown)).count value := by
    intro value
    rw [List.countP_filter]
    by_cases hnull : value = .null
    · rw [if_pos hnull, List.countP_eq_zero]
      intro row hrow
      simp only [Bool.and_eq_true, decide_eq_true_eq, not_and, norm_of_text (h.shown row hrow), hnull]
      exact fun hne heq => hne ((h.counted row hrow).mpr heq)
    · rw [if_neg hnull, List.count, List.countP_map]
      refine List.countP_congr fun row hrow => ?_
      simp only [Bool.and_eq_true, decide_eq_true_eq, norm_of_text (h.shown row hrow), (h.counted row hrow), Function.comp_apply,
        beq_iff_eq, ne_eq]
      constructor
      · exact And.right
      · rintro rfl
        exact ⟨hnull, rfl⟩
  obtain ⟨value, n⟩ := group
  simp only [groups, hnorm, List.mem_map, List.mem_dedup, Prod.mk.injEq, hcount]
  constructor
  · rintro ⟨value', ⟨row, hrow, rfl⟩, rfl, rfl⟩
    exact ⟨⟨row, hrow, rfl⟩, rfl⟩
  · rintro ⟨⟨row, hrow, rfl⟩, rfl⟩
    exact ⟨_, ⟨row, hrow, rfl⟩, rfl, rfl⟩

theorem groups_keys_nodup (rows : List AggRow) : ((groups rows).map (·.1)).Nodup := by
  rw [groups, List.map_map]
  exact (List.map_id _).symm ▸ List.nodup_dedup _

/-- The groups that count something are those of the values that are there. -/
theorem groups_present (h : TextRows rows) :
    ((groups rows).filter (0 < ·.2)).Perm (counts (presentValues (rows.map (·.shown)))) := by
  refine perm_counts ((groups_keys_nodup rows).sublist (List.filter_sublist.map _)) fun group => ?_
  rw [List.mem_filter, mem_groups h, mem_presentValues, decide_eq_true_iff]
  by_cases hnull : group.1 = .null
  · rw [if_pos hnull]
    constructor
    · rintro ⟨⟨-, hzero⟩, hpos⟩
      omega
    · exact fun hin => absurd hnull hin.1.2
  · rw [if_neg hnull, count_presentValues hnull]
    constructor
    · exact fun hin => ⟨⟨hin.1.1, hnull⟩, hin.1.2⟩
    · rintro ⟨⟨hin, -⟩, hcount⟩
      have hpos : 0 < (rows.map (·.shown)).count group.1 := List.count_pos_iff.mpr hin
      exact ⟨⟨hin, hcount⟩, by omega⟩

/-- There is a group of nothing if an event has no value. -/
theorem groups_missing (h : TextRows rows) :
    ((groups rows).filter (·.2 = 0)).length = if .null ∈ rows.map (·.shown) then 1 else 0 := by
  have hmem : ∀ group, group ∈ (groups rows).filter (·.2 = 0) ↔ .null ∈ rows.map (·.shown) ∧ group = (.null, 0) := by
    intro group
    rw [List.mem_filter, mem_groups h, decide_eq_true_iff]
    constructor
    · rintro ⟨⟨hin, hcount⟩, hzero⟩
      by_cases hnull : group.1 = .null
      · exact ⟨hnull ▸ hin, Prod.ext hnull hzero⟩
      · rw [if_neg hnull] at hcount
        have hpos : 0 < (rows.map (·.shown)).count group.1 := List.count_pos_iff.mpr hin
        omega
    · rintro ⟨hin, rfl⟩
      exact ⟨⟨hin, rfl⟩, rfl⟩
  have hnodup : ((groups rows).filter (·.2 = 0)).Nodup := (List.Nodup.of_map _ (groups_keys_nodup rows)).filter _
  by_cases hnull : .null ∈ rows.map (·.shown)
  · rw [if_pos hnull]
    have hperm : ((groups rows).filter (·.2 = 0)).Perm [(.null, 0)] :=
      (List.perm_ext_iff_of_nodup hnodup (List.nodup_singleton _)).mpr fun group => by simp [hmem, hnull]
    exact hperm.length_eq
  · rw [if_neg hnull, List.length_eq_zero_iff]
    exact List.eq_nil_iff_forall_not_mem.mpr fun group hin => hnull ((hmem group).mp hin).1

theorem readGroups_of_texts {gs : List (SqlValue × ℕ)} (h : ∀ group ∈ gs, 0 < group.2 → ∃ text, group.1 = .text text) :
    ∃ result, readGroups gs = some result ∧ result.map toValue = gs.filter (0 < ·.2) := by
  induction gs with
  | nil => exact ⟨[], rfl, rfl⟩
  | cons group gs ih =>
      obtain ⟨result, hresult, hrows⟩ := ih fun group hin => h group (List.mem_cons_of_mem _ hin)
      obtain ⟨value, n⟩ := group
      by_cases hpos : 0 < n
      · obtain ⟨text, rfl⟩ := h _ List.mem_cons_self hpos
        refine ⟨(text, n) :: result, ?_, ?_⟩
        · rw [readGroups, if_pos hpos, hresult]
          rfl
        · rw [List.map_cons, hrows, List.filter_cons_of_pos (by simpa using hpos)]
          rfl
      · exact ⟨result, by rw [readGroups, if_neg hpos, hresult], by rw [hrows, List.filter_cons_of_neg (by simpa using hpos)]⟩

/-- How many values `agg` returns at most. -/
def rowLimit (ascending : Bool) (size : ℕ) (shown : List SqlValue) : ℕ :=
  if 0 < asI64 size then (if ascending then (asI64 size).toNat - (if .null ∈ shown then 1 else 0) else (asI64 size).toNat)
  else (presentValues shown).dedup.length

/-- `agg` returns the first rows of an arrangement. -/
theorem aggregates_iff (h : TextRows rows) {engine : AggEngine} {size : ℕ} {order : String}
    {result : Option (List (String × ℕ))} (hresult : Aggregates engine size order rows result) :
    ∃ arranged returned, Arranges (engine.ascending order) (presentValues (rows.map (·.shown))) arranged ∧
      result = some returned ∧
      returned.map toValue = arranged.take (rowLimit (engine.ascending order) size (rows.map (·.shown))) := by
  obtain ⟨sorted, hperm, harranged, rfl⟩ := hresult
  have harranges : Arranges (engine.ascending order) (presentValues (rows.map (·.shown))) (sorted.filter (0 < ·.2)) :=
    ⟨(hperm.filter _).trans (groups_present h), harranged.sublist List.filter_sublist⟩
  have htexts : ∀ group ∈ limited (asI64 size) sorted, 0 < group.2 → ∃ text, group.1 = .text text := by
    intro group hin hpos
    have hsorted : group ∈ sorted := by
      unfold limited at hin
      split_ifs at hin
      · exact List.mem_of_mem_take hin
      · exact hin
    obtain ⟨hgroup, hcount⟩ := (mem_groups h).mp (hperm.mem_iff.mp hsorted)
    obtain ⟨row, hrow, heq⟩ := List.mem_map.mp hgroup
    rw [← heq]
    refine h.shown row hrow fun hnull => ?_
    rw [heq] at hnull
    rw [if_pos hnull] at hcount
    omega
  obtain ⟨returned, hreturned, hrows⟩ := readGroups_of_texts htexts
  refine ⟨sorted.filter (0 < ·.2), returned, harranges, hreturned, ?_⟩
  rw [hrows, limited, rowLimit]
  by_cases hlimit : 0 < asI64 size
  · rw [if_pos hlimit, if_pos hlimit, filter_take harranged, (hperm.filter _).length_eq, groups_missing h]
  · rw [if_neg hlimit, if_neg hlimit, ← harranges.length, List.take_length]

/-- There is something that `agg` returns. -/
theorem exists_aggregates (engine : AggEngine) (size : ℕ) (order : String) (rows : List AggRow) :
    ∃ result, Aggregates engine size order rows result := by
  obtain ⟨sorted, hperm, harranged⟩ := exists_arranged (engine.ascending order) (groups rows)
  exact ⟨_, sorted, hperm, harranged, rfl⟩

end

/-! ## `agg_stream` -/

section

variable {stream : List (SqlValue × Tick)}

/-- A run to the end that meets texts alone makes the table of their counts. -/
theorem countRows_of_texts (hend : ∀ row ∈ stream, row.2 ≠ .refused) :
    ∀ (keys : List String) (results : List (String × ℕ)), stream.map (·.1) = keys.map .text →
      countRows results stream = some (some (keys.foldl bump results)) := by
  induction stream with
  | nil =>
      intro keys results hkeys
      obtain rfl : keys = [] := List.map_eq_nil_iff.mp hkeys.symm
      rfl
  | cons row stream ih =>
      intro keys results hkeys
      obtain ⟨value, tick⟩ := row
      have htick : tick ≠ .refused := hend _ List.mem_cons_self
      cases keys with
      | nil => exact nomatch hkeys
      | cons key keys =>
          obtain ⟨rfl, hrest⟩ := List.cons.inj hkeys
          rw [countRows, SqlValue.getString, Option.bind_eq_bind, Option.bind_some, if_neg htick]
          exact ih (fun row hrow => hend row (List.mem_cons_of_mem _ hrow)) keys _ hrest

/-- A run to the end that makes a table meets texts alone. -/
theorem texts_of_countRows (hend : ∀ row ∈ stream, row.2 ≠ .refused) : ∀ {results : List (String × ℕ)},
    countRows results stream ≠ none → ∀ row ∈ stream, IsTextOrNull row.1 := by
  induction stream with
  | nil => exact fun _ row hrow => absurd hrow List.not_mem_nil
  | cons row stream ih =>
      intro results hsome
      obtain ⟨value, tick⟩ := row
      have htick : tick ≠ .refused := hend _ List.mem_cons_self
      have hvalue : IsTextOrNull value := by
        intro hnull
        cases value with
        | null => exact absurd rfl hnull
        | text text => exact ⟨text, rfl⟩
        | int n => exact absurd rfl hsome
        | real q => exact absurd rfl hsome
      obtain ⟨key, hkey⟩ : ∃ key, value.getString = some key := by
        by_cases hnull : value = .null
        · exact ⟨"", by rw [hnull]; rfl⟩
        · obtain ⟨text, rfl⟩ := hvalue hnull
          exact ⟨text, rfl⟩
      rw [countRows, hkey, Option.bind_eq_bind, Option.bind_some, if_neg htick] at hsome
      intro row hrow
      rcases List.mem_cons.mp hrow with rfl | hrow
      · exact hvalue
      · exact ih (fun row hrow => hend row (List.mem_cons_of_mem _ hrow)) hsome row hrow

end

/-! ## Both -/

section

variable {engine : AggEngine} {s : Search} {field : String} {store : List EventRow} {order : String} {size : ℕ}

theorem aggRows_shown : (aggRows engine s field store).map (·.shown) = (matching engine s store).map (engine.shown field) := by
  rw [aggRows, List.map_map]
  rfl

theorem fieldValues_eq : fieldValues engine s field store = presentValues ((aggRows engine s field store).map (·.shown)) := by
  rw [aggRows_shown]
  rfl

/-- The values of the rows of `agg_stream` are those of the field. -/
theorem StreamRows.perm {stream : List (SqlValue × Tick)} (h : StreamRows engine s field store stream) :
    (stream.map (·.1)).Perm (fieldValues engine s field store) := by
  obtain ⟨events, hperm, -, heq⟩ := h.events
  rw [heq, fieldValues, List.filter_map]
  exact hperm.map _

/-- There is a run of `agg_stream` to its end. -/
theorem exists_streamRows (engine : AggEngine) (s : Search) (field : String) (store : List EventRow) :
    ∃ stream, StreamRows engine s field store stream := by
  let later : EventRow → EventRow → Bool := fun a b => b.timestamp ≤ a.timestamp
  let events := ((matching engine s store).filter fun e => engine.shown field e ≠ .null).mergeSort later
  have htrans : ∀ a b c, later a b = true → later b c = true → later a c = true := fun a b c hab hbc =>
    decide_eq_true (le_trans (of_decide_eq_true hbc) (of_decide_eq_true hab))
  have htotal : ∀ a b, (later a b || later b a) = true := fun a b => by
    simpa [later] using le_total b.timestamp a.timestamp
  have hsorted : events.Pairwise fun a b => later a b = true := List.pairwise_mergeSort htrans htotal _
  refine ⟨events.map fun e => (engine.shown field e, .early), ⟨events, List.mergeSort_perm _ _,
    hsorted.imp of_decide_eq_true, ?_⟩, ?_⟩
  · rw [List.map_map]
    rfl
  · intro row hrow
    obtain ⟨e, -, rfl⟩ := List.mem_map.mp hrow
    exact Tick.noConfusion

theorem exists_keys {values : List SqlValue} (h : ∀ value ∈ values, ∃ text, value = .text text) :
    ∃ keys : List String, values = keys.map .text := by
  induction values with
  | nil => exact ⟨[], rfl⟩
  | cons value values ih =>
      obtain ⟨text, rfl⟩ := h value List.mem_cons_self
      obtain ⟨keys, rfl⟩ := ih fun value hin => h value (List.mem_cons_of_mem _ hin)
      exact ⟨text :: keys, rfl⟩

/-- Over texts, whatever `agg_stream` returns at its end is the rows of the most frequent values. -/
theorem topRows_of_streams {stream : List (SqlValue × Tick)} (hrows : StreamRows engine s field store stream)
    (htexts : ∀ value ∈ fieldValues engine s field store, ∃ text, value = .text text)
    {result : Option (List (String × ℕ))} (h : Streams size order stream result) :
    ∃ rows, result = some rows ∧ TopRows order size (fieldValues engine s field store) rows := by
  have hstream : ∀ value ∈ stream.map (·.1), ∃ text, value = .text text := fun value hin =>
    htexts value (hrows.perm.mem_iff.mp hin)
  obtain ⟨keys, hkeys⟩ := exists_keys hstream
  rw [Streams, countRows_of_texts hrows.toEnd keys [] hkeys] at h
  obtain ⟨sorted, hperm, harranged, rfl⟩ := h
  refine ⟨_, rfl, ?_⟩
  have harranges : Arranges (order = "asc") keys sorted := ⟨hperm.trans (tally_perm keys), harranged⟩
  have htop := (isFrequent_take harranges size).map text_injective
  rw [← hkeys] at htop
  exact (isFrequent_perm hrows.perm).mp htop

/-- If `agg_stream` returns rows, the field has texts alone. -/
theorem texts_of_streams (h : ∀ stream result, StreamRows engine s field store stream → Streams size order stream result →
    ∃ rows, result = some rows ∧ TopRows order size (fieldValues engine s field store) rows) :
    ∀ value ∈ fieldValues engine s field store, ∃ text, value = .text text := by
  obtain ⟨stream, hrows⟩ := exists_streamRows engine s field store
  have hsome : countRows [] stream ≠ none := by
    intro hnone
    have hstreams : Streams size order stream none := by
      rw [Streams, hnone]
    obtain ⟨rows, hrows, -⟩ := h stream none hrows hstreams
    exact nomatch hrows
  intro value hvalue
  obtain ⟨row, hrow, rfl⟩ := List.mem_map.mp (hrows.perm.mem_iff.mpr hvalue)
  exact texts_of_countRows hrows.toEnd hsome row hrow (mem_presentValues.mp hvalue).2

theorem asI64_toNat {n : ℕ} (hn : n < 2 ^ 64) (hpos : 0 < asI64 n) : (asI64 n).toNat = n := by
  unfold asI64 at hpos ⊢
  rw [Nat.mod_eq_of_lt hn] at hpos ⊢
  split_ifs at hpos ⊢ <;> omega

/-- `agg` returns as many rows as it should. -/
theorem rowLimit_iff (hsize : size < 2 ^ 64) (ascending : Bool) (shown : List SqlValue) :
    min (rowLimit ascending size shown) (presentValues shown).dedup.length = min size (presentValues shown).dedup.length ↔
      if 0 < asI64 size then ascending = true → .null ∈ shown → (presentValues shown).dedup.length < size
      else (presentValues shown).dedup.length ≤ size := by
  unfold rowLimit
  by_cases hlimit : 0 < asI64 size
  · have hpos : 0 < size := by
      have := asI64_toNat hsize hlimit
      omega
    rw [if_pos hlimit, if_pos hlimit, asI64_toNat hsize hlimit]
    cases ascending with
    | false => simp
    | true =>
        by_cases hnull : .null ∈ shown
        · simp only [if_true, hnull, forall_const]
          omega
        · simp [hnull]
  · rw [if_neg hlimit, if_neg hlimit, min_self]
    omega

/-- The rows that `agg` returns are right just if it reads the order as it should and returns as many as it should. -/
theorem topRows_of_aggregates_iff (hsize : size < 2 ^ 64)
    (htexts : ∀ value ∈ fieldValues engine s field store, ∃ text, value = .text text) :
    (∀ result, Aggregates engine size order (aggRows engine s field store) result →
      ∃ rows, result = some rows ∧ TopRows order size (fieldValues engine s field store) rows) ↔
      Agreeable (engine.ascending order) order size ((matching engine s store).map (engine.shown field)) := by
  have hrows : TextRows (aggRows engine s field store) := by
    refine ⟨fun row hrow => ?_, fun row hrow hnull => ?_⟩
    · obtain ⟨e, -, rfl⟩ := List.mem_map.mp hrow
      exact engine.counted_eq_null_iff field e
    · refine htexts row.shown ?_
      rw [fieldValues_eq]
      exact mem_presentValues.mpr ⟨List.mem_map_of_mem hrow, hnull⟩
  have hiff : ∀ {arranged : List (SqlValue × ℕ)}, Arranges (engine.ascending order) (fieldValues engine s field store) arranged →
      ∀ {returned : List (String × ℕ)}, returned.map toValue =
        arranged.take (rowLimit (engine.ascending order) size ((matching engine s store).map (engine.shown field))) →
      (TopRows order size (fieldValues engine s field store) returned ↔
        Agreeable (engine.ascending order) order size ((matching engine s store).map (engine.shown field))) := by
    intro arranged harranges returned hreturned
    unfold TopRows
    rw [show (returned.map fun row => (SqlValue.text row.1, row.2)) = returned.map toValue from rfl, hreturned,
      isFrequent_take_iff harranges]
    have hlimit := rowLimit_iff hsize (engine.ascending order) ((matching engine s store).map (engine.shown field))
    constructor
    · rintro ⟨hlength, hdirection⟩
      refine ⟨fun value hin hnull => htexts value (mem_presentValues.mpr ⟨hin, hnull⟩), ?_, hlimit.mp hlength⟩
      rcases hdirection with heq | hnil | heq
      · exact .inl heq
      · -- no row is asked for, or there is no value
        have hzero : min size (fieldValues engine s field store).dedup.length = 0 := by
          rw [← hlength, ← harranges.length, ← List.length_take, hnil, List.length_nil]
        have hnone : (fieldValues engine s field store).dedup.length = 0 := by
          have hbound := hlimit.mp hlength
          by_cases hsize₀ : size = 0
          · rw [hsize₀, if_neg (by decide)] at hbound
            exact Nat.le_zero.mp hbound
          · omega
        have hempty : fieldValues engine s field store = [] :=
          (List.dedup_eq_nil _).mp (List.eq_nil_of_length_eq_zero hnone)
        refine .inr fun v hv => ?_
        change v ∈ fieldValues engine s field store at hv
        rw [hempty] at hv
        exact absurd hv List.not_mem_nil
      · exact .inr heq
    · intro h
      refine ⟨hlimit.mpr h.limit, ?_⟩
      rcases h.direction with heq | heq
      · exact .inl heq
      · exact .inr (.inr heq)
  constructor
  · intro hall
    obtain ⟨result, hresult⟩ := exists_aggregates engine size order (aggRows engine s field store)
    obtain ⟨arranged, returned, harranges, rfl, hreturned⟩ := aggregates_iff hrows hresult
    rw [aggRows_shown] at hreturned
    rw [← fieldValues_eq] at harranges
    obtain ⟨rows, hrows, htop⟩ := hall _ hresult
    obtain rfl := Option.some.inj hrows
    exact (hiff harranges hreturned).mp htop
  · intro hagreeable result hresult
    obtain ⟨arranged, returned, harranges, rfl, hreturned⟩ := aggregates_iff hrows hresult
    rw [aggRows_shown] at hreturned
    rw [← fieldValues_eq] at harranges
    exact ⟨returned, rfl, (hiff harranges hreturned).mpr hagreeable⟩

/-- Both aggregations over the events of one search. -/
theorem aggregationsAgree_iff (hsize : size < 2 ^ 64) : AggregationsAgree engine s s field size order store ↔
    Agreeable (engine.ascending order) order size ((matching engine s store).map (engine.shown field)) := by
  constructor
  · rintro ⟨hagg, hstream⟩
    exact (topRows_of_aggregates_iff hsize (texts_of_streams hstream)).mp hagg
  · intro h
    have htexts : ∀ value ∈ fieldValues engine s field store, ∃ text, value = .text text := fun value hin =>
      h.texts value (mem_presentValues.mp hin).1 (mem_presentValues.mp hin).2
    exact ⟨(topRows_of_aggregates_iff hsize htexts).mpr h, fun _ _ hrows hresult => topRows_of_streams hrows htexts hresult⟩

end

theorem aggSearch_of_aggStatement {engine : AggEngine} {fts : Bool} {field order : String} {size : ℕ}
    {query : List QueryElement} {s : Search} (h : aggStatement engine fts field size order query = some s) :
    aggSearch fts field query = some s := by
  obtain ⟨b, -, h⟩ := Option.bind_eq_some_iff.mp h
  obtain ⟨s', hs', h⟩ := Option.bind_eq_some_iff.mp h
  split_ifs at h
  rw [hs', Option.some.inj h]

theorem aggSearch_of_aggStreamStatement {engine : AggEngine} {fts : Bool} {field : String} {query : List QueryElement}
    {s : Search} (h : aggStreamStatement engine fts field query = some s) : aggSearch fts field query = some s := by
  obtain ⟨b, -, h⟩ := Option.bind_eq_some_iff.mp h
  obtain ⟨s', hs', h⟩ := Option.bind_eq_some_iff.mp h
  split_ifs at h
  rw [hs', Option.some.inj h]

/-- Two such results have the same counts, one by one. -/
theorem TopRows.counts_eq {order : String} {size : ℕ} {values : List SqlValue} {rows rows' : List (String × ℕ)}
    (h : TopRows order size values rows) (h' : TopRows order size values rows') : rows.map (·.2) = rows'.map (·.2) := by
  have heq := IsFrequent.counts_eq h h'
  rw [List.map_map, List.map_map] at heq
  exact heq

/-- `agg` and `agg_stream` both return the rows of the most frequent values, or, ascending, of the least frequent ones, if
and only if the field has texts alone, SQLite reads the order as `agg_stream` does, and the limit falls on values. -/
theorem agree_iff {engine : AggEngine} {fts : Bool} {field order : String} {size : ℕ} {query : List QueryElement}
    {s s' : Search} (hagg : aggStatement engine fts field size order query = some s)
    (hstream : aggStreamStatement engine fts field query = some s') (hsize : size < 2 ^ 64) (store : List EventRow) :
    AggregationsAgree engine s s' field size order store ↔
      Agreeable (engine.ascending order) order size ((matching engine s store).map (engine.shown field)) := by
  obtain rfl : s = s' :=
    Option.some.inj ((aggSearch_of_aggStatement hagg).symm.trans (aggSearch_of_aggStreamStatement hstream))
  exact aggregationsAgree_iff hsize

/-! ### An event without the field -/

/-- An engine that looks fields up. -/
def plainAggEngine : AggEngine :=
  { plainEngine with
    element := fun _ _ => .null
    cast := fun value => match value with
      | .text s => s
      | .int n => toString n
      | _ => ""
    ascending := fun order => order = "asc" }

theorem aggStatement_host (size : ℕ) (order : String) :
    aggStatement plainAggEngine false "http.hostname" size order [] = some {} := by
  have hbuilder : ∃ b, aggBuilder false "http.hostname" size order [] = some b := ⟨_, rfl⟩
  have hsearch : aggSearch false "http.hostname" [] = some {} := by decide +kernel
  obtain ⟨b, hb⟩ := hbuilder
  rw [aggStatement, hb, hsearch]
  rfl

theorem aggStreamStatement_host : aggStreamStatement plainAggEngine false "http.hostname" [] = some {} := by
  decide +kernel

/-- The host names of one event that has one. -/
theorem agree_iff_host : AggregationsAgree plainAggEngine {} {} "http.hostname" 10 "desc" [hostEvent] := by
  refine (agree_iff (aggStatement_host 10 "desc") aggStreamStatement_host (by decide) [hostEvent]).mpr ⟨?_, .inl rfl, ?_⟩
  · have hshown : (matching plainAggEngine {} [hostEvent]).map (plainAggEngine.shown "http.hostname") = [.text "suricata.io"] := by
      decide +kernel
    rw [hshown]
    intro value hvalue _
    exact ⟨_, List.mem_singleton.mp hvalue⟩
  · rw [if_pos (by decide)]
    exact (nomatch ·)

/-- In ascending order, the event without a host name takes the place of the only host name. -/
theorem asc_not_agree : aggStatement plainAggEngine false "http.hostname" 1 "asc" [] = some {} ∧
    aggStreamStatement plainAggEngine false "http.hostname" [] = some {} ∧
    ¬ AggregationsAgree plainAggEngine {} {} "http.hostname" 1 "asc" [plainEvent, hostEvent] := by
  refine ⟨aggStatement_host 1 "asc", aggStreamStatement_host, fun h => ?_⟩
  have hlimit := ((aggregationsAgree_iff (by decide)).mp h).limit
  have hshown : (matching plainAggEngine {} [plainEvent, hostEvent]).map (plainAggEngine.shown "http.hostname") =
      [.null, .text "suricata.io"] := by decide +kernel
  rw [hshown, if_pos (by decide)] at hlimit
  exact absurd (hlimit rfl (by decide)) (by decide)

end EveBox.Sqlite
