import EveBox.Sqlite.Search

/-!
# The search for events: what a term and its negation select

Reference: `src/sqlite/builder.rs` and `src/sqlite/eventrepo/events.rs`.

A term and its negation are read as two conditions of their own. Where the one is the negation of the other, as
for the field of a key, they share the events out, but for those for which the condition is unknown.

* `eventsBuilder_spells` — the text of a statement is that of the search that is read in it.
* `partitions_iff` — when a term and its negation share out the events of a query.
-/

namespace EveBox.Sqlite

open Rust Eve Repo SqlText

/-! ## The text of a search -/

theorem lit_append (a b : String) : lit (a ++ b) = lit a ++ lit b := by
  simp [lit]

/-- The part of a statement that a term adds. -/
def EventQueryBuilder.append (b : EventQueryBuilder) (t : Term) : EventQueryBuilder :=
  { b with
    wheres := b.wheres ++ t.conditions.map Condition.sql
    args := b.args ++ t.conditions.flatMap Condition.args
    ftsPhrases := b.ftsPhrases ++ t.phrases.map fun p => "\x22" ++ p ++ "\x22" }

namespace EventQueryBuilder

variable (b : EventQueryBuilder)

theorem append_condition {c : Condition} {text : SqlText} {args : List Arg} (htext : c.sql = text)
    (hargs : c.args = args) : b.append { conditions := [c] } = { b with wheres := b.wheres ++ [text], args := b.args ++ args } := by
  simp [append, htext, hargs]

theorem append_phrase (v : String) : b.append { phrases := [v] } = b.pushFts v := by
  simp [append, pushFts]

/-- A condition and phrases, one after the other. -/
theorem append_append (t u : Term) :
    (b.append t).append u = b.append { conditions := t.conditions ++ u.conditions, phrases := t.phrases ++ u.phrases } := by
  simp [append]

/-! ### `builder.rs::EventQueryBuilder::apply_query_string` -/

theorem pushWhere_eq {c : Condition} {text : SqlText} (htext : c.sql = text) (hargs : c.args = []) :
    b.pushWhere text = b.append { conditions := [c] } := by
  rw [append_condition b htext hargs, List.append_nil]
  rfl

theorem pushArg_pushWhere_eq {c : Condition} {text : SqlText} {arg : Arg} (htext : c.sql = text) (hargs : c.args = [arg]) :
    (b.pushWhere text).pushArg arg = b.append { conditions := [c] } := by
  rw [append_condition b htext hargs]
  rfl

theorem pushArg_pushArg_eq {c : Condition} {text : SqlText} {arg arg' : Arg} (htext : c.sql = text)
    (hargs : c.args = [arg, arg']) : ((b.pushWhere text).pushArg arg).pushArg arg' = b.append { conditions := [c] } := by
  rw [append_condition b htext hargs]
  simp [pushWhere, pushArg]

theorem whereArg_eq {c : Condition} {col : String} {arg : Arg} (htext : c.sql = lit col ++ slot arg) (hargs : c.args = [arg]) :
    b.whereArg col arg = b.append { conditions := [c] } := by
  rw [append_condition b htext hargs]
  rfl

theorem whereAnywhere_eq (negated : Bool) (s : String) :
    b.whereAnywhere negated s = b.append (anywhereTerm b.fts negated s) := by
  unfold whereAnywhere anywhereTerm
  by_cases hneg : negated = true
  · rw [if_pos hneg, if_pos hneg]
    exact whereArg_eq b rfl rfl
  · rw [if_neg hneg, if_neg hneg]
    by_cases hfts : b.fts = true
    · rw [if_pos hfts, if_pos hfts, append_phrase]
    · rw [if_neg hfts, if_neg hfts]
      exact whereArg_eq b rfl rfl

theorem whereSourceJsonExtract_eq {k op v : String} {c : Comparison} (hk : isPort k = false)
    (hop : lit "') " ++ lit op ++ lit " " = lit "')" ++ lit c.sql) :
    b.whereSourceJsonExtract k op v = b.append { conditions := [fieldCondition c k v] } := by
  have htext : (fieldCondition c k v).sql =
      lit "json_extract(events.source, '$." ++ user k.toList ++ lit "') " ++ lit op ++ lit " " ++ slot (valueArg v) := by
    simp only [fieldCondition, fieldOf, hk, Condition.sql, Operand.sql, List.append_assoc, Bool.false_eq_true, if_false]
    simp only [← List.append_assoc, ← hop]
  have hargs : (fieldCondition c k v).args = [valueArg v] := by
    simp [fieldCondition, fieldOf, hk, Condition.args, Operand.args]
  rw [append_condition b htext hargs]
  rfl

theorem whereSourceJson_eq {k op v : String} {c : Comparison} (hk : isPort k = true)
    (hop : lit "' " ++ lit op ++ lit " " = lit "'" ++ lit c.sql) :
    b.whereSourceJson k op v = b.append { conditions := [fieldCondition c k v] } := by
  have hsource : lit "events.source->>'" = lit "events.source" ++ lit "->>'" := rfl
  have htext : (fieldCondition c k v).sql =
      lit "events.source->>'" ++ user k.toList ++ lit "' " ++ lit op ++ lit " " ++ slot (valueArg v) := by
    simp only [fieldCondition, fieldOf, hk, Condition.sql, Operand.sql, sourceColumn, Column.sql, hsource,
      List.append_assoc, if_true]
    simp only [← List.append_assoc, ← hop]
  have hargs : (fieldCondition c k v).args = [valueArg v] := by
    simp [fieldCondition, fieldOf, hk, Condition.args, Operand.args, sourceColumn]
  rw [append_condition b htext hargs]
  rfl

/-- The names of a path, each behind its arrow. -/
theorem foldl_member_sql (names : List (List Char)) : ∀ a : Operand,
    (names.foldl (fun a name => Operand.member a (user name)) a).sql =
      a.sql ++ names.flatMap fun name => lit "->>'" ++ user name ++ lit "'" := by
  induction names with
  | nil => intro a; simp
  | cons name names ih =>
      intro a
      rw [List.foldl_cons, ih, List.flatMap_cons]
      simp only [Operand.sql, List.append_assoc]

theorem foldl_member_args (names : List (List Char)) : ∀ a : Operand,
    (names.foldl (fun a name => Operand.member a (user name)) a).args = a.args := by
  induction names with
  | nil => exact fun _ => rfl
  | cons name names ih => exact fun a => (ih _).trans rfl

/-- A key that starts with two names has others behind them. -/
theorem names_ne_nil {a b : List Char} {k start : String} (hstart : start.toList = a ++ '.' :: (b ++ ['.'])) (ha : '.' ∉ a)
    (hb : '.' ∉ b) (h : startsWith k start = true) : (k.toList.splitOn '.').drop 2 ≠ [] := by
  obtain ⟨rest, hrest⟩ := List.isPrefixOf_iff_prefix.mp h
  have hk : k.toList = a ++ '.' :: (b ++ '.' :: rest) := by
    rw [← hrest, hstart]
    simp
  rw [hk, List.splitOn_append_cons_self_of_not_mem ha, List.splitOn_append_cons_self_of_not_mem hb]
  simp

theorem joinedField_sql {column : Column} {k : String} (h : (k.toList.splitOn '.').drop 2 ≠ []) :
    (joinedField column k).sql = lit column.sql ++ (lit "->>" ++ pathBehind k) := by
  obtain ⟨name, names, hnames⟩ := List.exists_cons_of_ne_nil h
  have harrow : lit "->>'" = lit "->>" ++ lit "'" := rfl
  rw [joinedField, foldl_member_sql, pathBehind, hnames, List.map_cons, join, List.flatMap_cons, List.flatMap_map]
  simp only [Operand.sql, harrow, List.append_assoc]

theorem joinedField_args (column : Column) (k : String) : (joinedField column k).args = [] := by
  rw [joinedField, foldl_member_args]
  rfl

/-- The condition on a field of a joined value. -/
theorem joined_sql {column : Column} {k v table : String} (h : (k.toList.splitOn '.').drop 2 ≠ [])
    (htable : lit table = lit column.sql ++ lit "->>") :
    (Condition.compare .eq (joinedField column k) (.arg (.text v))).sql =
      lit table ++ pathBehind k ++ lit " = " ++ slot (.text v) := by
  simp only [Condition.sql, joinedField_sql h, Operand.sql, Comparison.sql, htable, List.append_assoc]

theorem joined_args (column : Column) (k v : String) :
    (Condition.compare .eq (joinedField column k) (.arg (.text v))).args = [.text v] := by
  rw [Condition.args, joinedField_args]
  rfl

theorem rrname_sql (v : String) :
    (Condition.or (.compare .eq (dnsField "rrname") (.arg (.text v)))
      (.compare .eq (.member (.column .query) (lit "rrname")) (.arg (.text v)))).sql =
      lit "(events.source->>'dns'->>'rrname' = " ++ slot (.text v) ++ lit " OR _dns_queries.value->>'rrname' = " ++
        slot (.text v) ++ lit ")" := by
  have hfirst : lit "(events.source->>'dns'->>'rrname' = " = lit "(" ++ (dnsField "rrname").sql ++ lit " = " := rfl
  have hsecond : lit " OR _dns_queries.value->>'rrname' = " =
      lit " OR " ++ (Operand.member (.column .query) (lit "rrname")).sql ++ lit " = " := rfl
  simp only [Condition.sql, hfirst, hsecond, Comparison.sql, List.append_assoc]
  rfl

/-- The clause of a key, whatever kind it has. -/
theorem whereKey_eq {k v : String} (hk : isPort k = false) :
    b.whereKey k v = b.append { conditions := [(ownCondition k v).getD (fieldCondition .eq k v)] } := by
  unfold whereKey ownCondition
  split_ifs with h₁ h₂ h₃ h₄ h₅ h₆ h₇
  · exact pushWhere_eq b rfl rfl
  · exact pushWhere_eq b rfl rfl
  · exact pushArg_pushArg_eq b (rrname_sql v) rfl
  · have hstart : "dns.queries.".toList = "dns".toList ++ '.' :: ("queries".toList ++ ['.']) := rfl
    have hnames := names_ne_nil hstart (by decide) (by decide) h₄
    exact pushArg_pushWhere_eq b (joined_sql hnames rfl) (joined_args .query k v)
  · have hstart : "dns.answers.".toList = "dns".toList ++ '.' :: ("answers".toList ++ ['.']) := rfl
    have hnames := names_ne_nil hstart (by decide) (by decide) h₅
    exact pushArg_pushWhere_eq b (joined_sql hnames rfl) (joined_args .answer k v)
  · exact whereArg_eq b rfl rfl
  · exact whereArg_eq b rfl rfl
  · exact whereSourceJsonExtract_eq b hk rfl

theorem ownCondition_of_isPort {k : String} (hk : isPort k = true) (v : String) : ownCondition k v = none := by
  rcases of_decide_eq_true hk with rfl | rfl <;> rfl

theorem accelerate_eq (k v : String) :
    b.accelerate k v = b.append { phrases := if b.fts && isAccelerated k then [v] else [] } := by
  have hnone : b.append {} = b := by simp [append]
  by_cases hfts : b.fts = true
  · by_cases hk : k = "community_id" ∨ k = "timestamp"
    · rw [accelerate, if_pos hfts, if_pos hk, ← append_phrase, if_pos]
      simp only [hfts, isAccelerated, Bool.true_and, decide_eq_true_eq]
      exact hk.imp_right .inl
    · by_cases hdhcp : startsWith k "dhcp" = true
      · rw [accelerate, if_pos hfts, if_neg hk, if_pos hdhcp, ← append_phrase, if_pos]
        simp only [hfts, isAccelerated, Bool.true_and, decide_eq_true_eq]
        exact .inr (.inr hdhcp)
      · rw [accelerate, if_pos hfts, if_neg hk, if_neg hdhcp, if_neg, hnone]
        simp only [isAccelerated, Bool.and_eq_true, decide_eq_true_eq, not_and]
        exact fun _ h => hk (h.imp_right fun h => h.resolve_right hdhcp)
  · rw [accelerate, if_neg hfts, if_neg, hnone]
    simp [hfts]

/-- A clause, and the phrases of its value. -/
theorem accelerate_append (c : Condition) (k v : String) :
    (b.append { conditions := [c] }).accelerate k v =
      b.append { conditions := [c], phrases := if b.fts && isAccelerated k then [v] else [] } := by
  rw [accelerate_eq, append_append]
  rfl

theorem applyKeyValue_eq (negated : Bool) (key v : String) :
    b.applyKeyValue negated key v = b.append (keyTerm b.fts negated (resolveKey key) v) := by
  unfold applyKeyValue keyTerm
  dsimp only
  by_cases haddr : resolveKey key = "@ip" ∨ resolveKey key = "@mac"
  · rw [if_pos haddr, if_pos haddr, whereAnywhere_eq]
  rw [if_neg haddr, if_neg haddr]
  by_cases hport : isPort (resolveKey key) = true
  · rw [if_pos (of_decide_eq_true hport)]
    by_cases hneg : negated = true
    · rw [if_pos hneg, if_pos hneg]
      exact whereSourceJson_eq b hport rfl
    · rw [if_neg hneg, if_neg hneg, ownCondition_of_isPort hport, Option.getD_none, ← accelerate_append]
      exact congrArg (accelerate · (resolveKey key) v) (whereSourceJson_eq b hport rfl)
  · have hfield : isPort (resolveKey key) = false := Bool.eq_false_iff.mpr hport
    rw [if_neg (of_decide_eq_false hfield)]
    by_cases hneg : negated = true
    · rw [if_pos hneg, if_pos hneg]
      exact whereSourceJsonExtract_eq b hfield rfl
    · rw [if_neg hneg, if_neg hneg, whereKey_eq b hfield, accelerate_append]

theorem whereTimestamp_eq {op : Comparison} {col : String} (ts : DateTime) (hcol : lit col = lit "timestamp" ++ lit op.sql) :
    b.whereTimestamp col ts = (timeCondition op ts).map fun c => b.append { conditions := [c] } := by
  have hwhere : ∀ nanos, b.whereArg col (.int nanos) =
      b.append { conditions := [.compare op (.column .timestamp) (.arg (.int nanos))] } := fun nanos =>
    whereArg_eq b (by rw [hcol]; rfl) rfl
  simp only [whereTimestamp, timeCondition, hwhere, Option.map_map]
  rfl

/-- An element adds its term. -/
theorem applyElement_eq (e : QueryElement) : b.applyElement e = (term b.fts e).map b.append := by
  obtain ⟨negated, value⟩ := e
  cases value with
  | string s => exact congrArg some (whereAnywhere_eq b negated s)
  | keyValue k v => exact congrArg some (applyKeyValue_eq b negated k v)
  | fromTime ts =>
      rw [applyElement, term, Option.map_map]
      exact whereTimestamp_eq b ts rfl
  | toTime ts =>
      rw [applyElement, term, Option.map_map]
      exact whereTimestamp_eq b ts rfl
  | after ts =>
      rw [applyElement, term, Option.map_map]
      exact whereTimestamp_eq b ts rfl
  | before ts =>
      rw [applyElement, term, Option.map_map]
      exact whereTimestamp_eq b ts rfl
  | archived => exact congrArg some (whereArg_eq b rfl rfl)
  | escalated => exact congrArg some (whereArg_eq b rfl rfl)

/-- The elements add their terms, one after the other. -/
theorem applyQueryString_eq (q : List QueryElement) : ∀ b : EventQueryBuilder,
    b.applyQueryString q = (q.mapM (term b.fts)).map fun terms => terms.foldl append b := by
  induction q with
  | nil => exact fun _ => rfl
  | cons e q ih =>
      intro b
      rw [applyQueryString, List.foldlM_cons, applyElement_eq, List.mapM_cons]
      cases hterm : term b.fts e with
      | none => rfl
      | some t =>
          have hrest := ih (b.append t)
          rw [applyQueryString] at hrest
          simp only [Option.map_some, Option.bind_eq_bind, Option.bind_some, hrest, Option.pure_def]
          rw [show (b.append t).fts = b.fts from rfl]
          cases q.mapM (term b.fts) <;> rfl

/-! ### `builder.rs::EventQueryBuilder::left_join_from_query_string` -/

/-- The join of an element. -/
def joinOfElement (e : QueryElement) : Option Join :=
  match e.value with
  | .keyValue k _ => joinOf k
  | _ => none

theorem join_of_term {fts : Bool} {e : QueryElement} {t : Term} (h : term fts e = some t) : t.join = joinOfElement e := by
  obtain ⟨negated, value⟩ := e
  have htime : ∀ op ts, (timeCondition op ts).map (fun c => ({ conditions := [c] } : Term)) = some t → t.join = none := by
    intro op ts h
    obtain ⟨c, -, rfl⟩ := Option.map_eq_some_iff.mp h
    rfl
  cases value with
  | string s =>
      obtain rfl := Option.some.inj h
      unfold anywhereTerm
      split_ifs <;> rfl
  | keyValue k v =>
      obtain rfl := Option.some.inj h
      rfl
  | fromTime ts => exact htime _ ts h
  | toTime ts => exact htime _ ts h
  | after ts => exact htime _ ts h
  | before ts => exact htime _ ts h
  | archived =>
      obtain rfl := Option.some.inj h
      rfl
  | escalated =>
      obtain rfl := Option.some.inj h
      rfl

theorem elementJoin_eq (e : QueryElement) : (elementJoin e).map lit = (joinOfElement e).map Join.sql := by
  obtain ⟨negated, value⟩ := e
  cases value with
  | keyValue k v =>
      unfold elementJoin joinOfElement joinOf
      dsimp only
      split_ifs <;> rfl
  | _ => rfl

theorem joinSql_injective : Function.Injective Join.sql := by
  intro i j h
  have hne : Join.sql .queries ≠ Join.sql .answers := by decide
  match i, j with
  | .queries, .queries => rfl
  | .queries, .answers => exact (hne h).elim
  | .answers, .queries => exact (hne h.symm).elim
  | .answers, .answers => rfl

/-- A join is there once. -/
theorem addLeftJoin_sql {js : List Join} (h : b.leftJoin = js.map Join.sql) (j : Join) :
    b.addLeftJoin j.sql = { b with leftJoin := (Search.addJoin js (some j)).map Join.sql } := by
  have hmem : j.sql ∈ b.leftJoin ↔ j ∈ js := by rw [h, List.mem_map_of_injective joinSql_injective]
  unfold addLeftJoin
  dsimp only [Search.addJoin]
  by_cases hj : j ∈ js
  · rw [if_pos (hmem.mpr hj), if_pos hj, ← h]
  · rw [if_neg (fun hin => hj (hmem.mp hin)), if_neg hj, List.map_append, ← h]
    rfl

theorem leftJoinFromQueryString_eq (q : List QueryElement) : ∀ (b : EventQueryBuilder) (js : List Join),
    b.leftJoin = js.map Join.sql →
    b.leftJoinFromQueryString q =
      { b with leftJoin := (q.foldl (fun js e => Search.addJoin js (joinOfElement e)) js).map Join.sql } := by
  induction q with
  | nil =>
      intro b js h
      rw [leftJoinFromQueryString, List.foldl_nil, List.foldl_nil, ← h]
  | cons e q ih =>
      intro b js h
      have heq := elementJoin_eq e
      rw [leftJoinFromQueryString, List.foldl_cons, List.foldl_cons]
      cases hj : joinOfElement e with
      | none =>
          rw [hj, Option.map_none, Option.map_eq_none_iff] at heq
          rw [heq]
          exact ih b js h
      | some j =>
          rw [hj, Option.map_some, Option.map_eq_some_iff] at heq
          obtain ⟨sql, hsql, hlit⟩ := heq
          rw [hsql]
          dsimp only
          rw [hlit, addLeftJoin_sql b h]
          exact ih _ _ rfl

/-! ### `events.rs::SqliteEventRepo::events` -/

theorem whereEventType_eq (eventType : Option String) : b.whereEventType eventType =
    b.append { conditions := eventType.toList.map fun s => .compare .eq (.extract (lit "event_type")) (.arg (.text s)) } := by
  cases eventType with
  | none => simp [whereEventType, append]
  | some s => exact whereArg_eq b rfl rfl

theorem whereSensor_eq (sensor : Option String) : b.whereSensor sensor =
    b.append { conditions := sensor.toList.map fun s =>
      if s = "(no-name)" then .isNull (.extract (lit "host"))
      else .compare .eq (.extract (lit "host")) (.arg (.text s)) } := by
  cases sensor with
  | none => simp [whereSensor, append]
  | some s =>
      rw [whereSensor, Option.toList_some, List.map_singleton]
      by_cases hs : s = "(no-name)"
      · rw [if_pos hs, if_pos hs]
        exact pushWhere_eq b rfl rfl
      · rw [if_neg hs, if_neg hs]
        exact pushArg_pushWhere_eq b rfl rfl

theorem whereTime_eq {f : EventQueryBuilder → DateTime → Option EventQueryBuilder} {op : Comparison}
    (hf : ∀ b ts, f b ts = (timeCondition op ts).map fun c => b.append { conditions := [c] }) (ts : Option DateTime) :
    b.whereTime f ts = (ts.toList.mapM (timeCondition op)).map fun cs => b.append { conditions := cs } := by
  cases ts with
  | none => simp [whereTime, append]
  | some ts =>
      rw [whereTime, hf, Option.toList_some, List.mapM_cons, List.mapM_nil]
      cases timeCondition op ts <;> rfl

/-- The text is that of the search before as long as terms are added to both. -/
theorem foldl_spells {s : Search} (hwheres : b.wheres = s.conditions.map Condition.sql)
    (hargs : b.args = s.conditions.flatMap Condition.args)
    (hphrases : b.ftsPhrases = s.phrases.map fun p => "\x22" ++ p ++ "\x22") (terms : List Term)
    (hjoin : b.leftJoin = (terms.foldl (fun js t => Search.addJoin js t.join) s.joins).map Join.sql) :
    (terms.foldl append b).Spells (terms.foldl Search.add s) := by
  induction terms generalizing b s with
  | nil => exact ⟨hjoin, hwheres, hargs, hphrases⟩
  | cons t terms ih =>
      refine ih (b.append t) ?_ ?_ ?_ hjoin
      · rw [Search.add, List.map_append, ← hwheres]
        rfl
      · rw [Search.add, List.flatMap_append, ← hargs]
        rfl
      · rw [Search.add, List.map_append, ← hphrases]
        rfl

theorem foldl_join {fts : Bool} {q : List QueryElement} {terms : List Term} (h : q.mapM (term fts) = some terms)
    (js : List Join) : terms.foldl (fun js t => Search.addJoin js t.join) js =
      q.foldl (fun js e => Search.addJoin js (joinOfElement e)) js := by
  induction q generalizing terms js with
  | nil =>
      obtain rfl := Option.some.inj h
      rfl
  | cons e q ih =>
      rw [List.mapM_cons] at h
      obtain ⟨t, ht, h⟩ := Option.bind_eq_some_iff.mp h
      obtain ⟨rest, hrest, h⟩ := Option.bind_eq_some_iff.mp h
      obtain rfl := Option.some.inj h
      rw [List.foldl_cons, List.foldl_cons, join_of_term ht, ih hrest]

end EventQueryBuilder

open EventQueryBuilder

/-- The builder makes the text of the search, and fails where there is none. -/
theorem eventsBuilder_spells (fts : Bool) (q : EventQueryParams) :
    Option.Rel EventQueryBuilder.Spells (eventsBuilder fts q) (search fts q) := by
  have hle : ∀ b ts, timestampLte b ts = (timeCondition .le ts).map fun c => b.append { conditions := [c] } :=
    fun b ts => whereTimestamp_eq b ts rfl
  have hge : ∀ b ts, timestampGte b ts = (timeCondition .ge ts).map fun c => b.append { conditions := [c] } :=
    fun b ts => whereTimestamp_eq b ts rfl
  have hjoin := leftJoinFromQueryString_eq q.queryString
    { fts, select := eventColumns, tables := [lit "events"] } [] rfl
  unfold eventsBuilder search baseConditions
  simp only [hjoin, whereEventType_eq, whereSensor_eq, whereTime_eq _ hle,
    whereTime_eq _ hge, applyQueryString_eq]
  cases hto : q.toTime.toList.mapM (timeCondition .le) with
  | none => exact .none
  | some before =>
      cases hsince : q.fromTime.toList.mapM (timeCondition .ge) with
      | none => exact .none
      | some since =>
          simp only [Option.map_some, Option.bind_eq_bind, Option.bind_some, append_append]
          generalize hb : EventQueryBuilder.append _ _ = b
          have hfts : b.fts = fts := by
            rw [← hb]
            rfl
          rw [hfts]
          cases hterms : q.queryString.mapM (term fts) with
          | none => exact .none
          | some terms =>
              have hspells := foldl_spells b (s := { conditions := _ }) (by rw [← hb]; rfl) (by rw [← hb]; rfl)
                (by rw [← hb]; rfl) terms (by rw [← hb, foldl_join hterms]; rfl)
              exact .some ⟨hspells.leftJoin, hspells.wheres, hspells.args, hspells.ftsPhrases⟩

/-! ## Rows and joins -/

section

variable {engine : Engine}

/-- The values that an operand reads. -/
def Operand.uses : Operand → Column → Bool
  | .column name, c => name = c
  | .member a _, c => a.uses c
  | _, _ => false

def Condition.uses : Condition → Column → Bool
  | .compare _ a b, c | .like a b, c | .notLike a b, c | .glob a b, c => a.uses c || b.uses c
  | .isNull a, c => a.uses c
  | .or a b, c => a.uses c || b.uses c

/-- A joined value is read only where its table is joined. -/
structure Condition.Within (c : Condition) (joins : List Join) : Prop where
  query : c.uses .query = true → .queries ∈ joins
  answer : c.uses .answer = true → .answers ∈ joins

/-- Two rows are the same for a condition. -/
structure Row.Agrees (r r' : Row) (uses : Column → Bool) : Prop where
  event : r.event = r'.event
  query : uses .query = true → r.query = r'.query
  answer : uses .answer = true → r.answer = r'.answer

theorem Row.Agrees.mono {r r' : Row} {uses uses' : Column → Bool} (h : r.Agrees r' uses)
    (hle : ∀ c, uses' c = true → uses c = true) : r.Agrees r' uses' :=
  ⟨h.event, fun hu => h.query (hle _ hu), fun hu => h.answer (hle _ hu)⟩

theorem Operand.eval_congr {r r' : Row} (a : Operand) (h : r.Agrees r' a.uses) : a.eval engine r = a.eval engine r' := by
  induction a with
  | column name =>
      cases name with
      | query => exact h.query (by simp [Operand.uses])
      | answer => exact h.answer (by simp [Operand.uses])
      | _ => simp only [Operand.eval, Row.column, h.event]
  | extract path => rw [Operand.eval, Operand.eval, h.event]
  | member a name ih => rw [Operand.eval, Operand.eval, ih (h.mono fun _ hu => hu)]
  | literal s => rfl
  | arg value => rfl

theorem Condition.eval_congr {r r' : Row} (c : Condition) (h : r.Agrees r' c.uses) : c.eval engine r = c.eval engine r' := by
  have hleft : ∀ {a b : Operand}, r.Agrees r' (fun c => a.uses c || b.uses c) → a.eval engine r = a.eval engine r' :=
    fun h => Operand.eval_congr _ (h.mono fun _ hu => by simp [hu])
  have hright : ∀ {a b : Operand}, r.Agrees r' (fun c => a.uses c || b.uses c) → b.eval engine r = b.eval engine r' :=
    fun h => Operand.eval_congr _ (h.mono fun _ hu => by simp [hu])
  induction c with
  | compare op a b => rw [Condition.eval, Condition.eval, hleft h, hright h]
  | like a b => rw [Condition.eval, Condition.eval, hleft h, hright h]
  | notLike a b => rw [Condition.eval, Condition.eval, hleft h, hright h]
  | glob a b => rw [Condition.eval, Condition.eval, hleft h, hright h]
  | isNull a => rw [Condition.eval, Condition.eval, Operand.eval_congr a h]
  | or a b iha ihb =>
      rw [Condition.eval, Condition.eval, iha (h.mono fun _ hu => by simp [Condition.uses, hu]),
        ihb (h.mono fun _ hu => by simp [Condition.uses, hu])]

namespace Search

/-- The conditions of a search read what it joins. -/
def Closed (s : Search) : Prop := ∀ c ∈ s.conditions, c.Within s.joins

theorem mem_addJoin {j : Join} {js : List Join} {o : Option Join} : j ∈ addJoin js o ↔ j ∈ js ∨ o = some j := by
  cases o with
  | none => simp [addJoin]
  | some i =>
      dsimp only [addJoin]
      by_cases hi : i ∈ js
      · rw [if_pos hi]
        grind
      · rw [if_neg hi]
        grind

theorem mem_rows {s : Search} {e : EventRow} {r : Row} : r ∈ s.rows engine e ↔
    r.event = e ∧ r.query ∈ s.values engine e .queries ∧ r.answer ∈ s.values engine e .answers := by
  obtain ⟨event, query, answer⟩ := r
  simp only [rows, List.mem_flatMap, List.mem_map, Row.mk.injEq]
  constructor
  · rintro ⟨q, hq, a, ha, rfl, rfl, rfl⟩
    exact ⟨rfl, hq, ha⟩
  · rintro ⟨rfl, hq, ha⟩
    exact ⟨query, hq, answer, ha, rfl, rfl, rfl⟩

theorem values_ne_nil (s : Search) (e : EventRow) (j : Join) : s.values engine e j ≠ [] := by
  have hjoin : j.values engine e ≠ [] := by
    unfold Join.values
    by_cases hnil : engine.each e.source j.path = []
    · rw [if_pos hnil]
      simp
    · rw [if_neg hnil]
      exact hnil
  unfold values
  by_cases hj : j ∈ s.joins
  · rw [if_pos hj]
    exact hjoin
  · rw [if_neg hj]
    simp

/-- The search with one more table. -/
def joined (s : Search) (j : Option Join) : Search := { s with joins := addJoin s.joins j }

/-- A value of a table, one that a table joined before has kept. -/
theorem exists_value (s : Search) (e : EventRow) (j : Join) (o : Option Join) {value : SqlValue}
    (h : value ∈ s.values engine e j) : ∃ value' ∈ (s.joined o).values engine e j, j ∈ s.joins → value = value' := by
  by_cases hj : j ∈ s.joins
  · refine ⟨value, ?_, fun _ => rfl⟩
    have hjoined : j ∈ (s.joined o).joins := mem_addJoin.mpr (.inl hj)
    rw [values, if_pos hj] at h
    rw [values, if_pos hjoined]
    exact h
  · have hne : (s.joined o).values engine e j ≠ [] := values_ne_nil _ _ _
    obtain ⟨value', hmem⟩ := List.exists_mem_of_ne_nil _ hne
    exact ⟨value', hmem, fun h => absurd h hj⟩

/-- One more table keeps the events that the conditions let through. -/
theorem exists_passes_joined {s : Search} (hs : s.Closed) (e : EventRow) (o : Option Join)
    (h : ∃ r ∈ s.rows engine e, s.passes engine r = true) :
    ∃ r ∈ (s.joined o).rows engine e, s.passes engine r = true := by
  obtain ⟨r, hr, hpasses⟩ := h
  obtain ⟨hevent, hquery, hanswer⟩ := mem_rows.mp hr
  obtain ⟨query, hquery', hq⟩ := exists_value s e .queries o hquery
  obtain ⟨answer, hanswer', ha⟩ := exists_value s e .answers o hanswer
  refine ⟨⟨e, query, answer⟩, mem_rows.mpr ⟨rfl, hquery', hanswer'⟩, ?_⟩
  rw [passes, List.all_eq_true] at hpasses ⊢
  intro c hc
  have hagrees : r.Agrees ⟨e, query, answer⟩ c.uses :=
    ⟨hevent, fun hu => hq ((hs c hc).query hu), fun hu => ha ((hs c hc).answer hu)⟩
  rw [← c.eval_congr hagrees]
  exact hpasses c hc

/-- The rows that a search with a term gives: they pass the conditions of both. -/
theorem selects_add_iff (s : Search) (t : Term) (e : EventRow) : (s.add t).selects engine e = true ↔
    (s.add t).found engine e = true ∧ ∃ r ∈ (s.joined t.join).rows engine e,
      s.passes engine r = true ∧ t.conditions.all (fun c => (c.eval engine r).holds) = true := by
  have hpasses : ∀ r, (s.add t).passes engine r =
      (s.passes engine r && t.conditions.all fun c => (c.eval engine r).holds) := fun r => List.all_append
  simp only [selects, Bool.and_eq_true, List.any_eq_true, hpasses]
  rfl

theorem found_of_selects {s : Search} {e : EventRow} (h : s.selects engine e = true) : s.found engine e = true :=
  (Bool.and_eq_true_iff.mp h).1

theorem found_add_nil {s : Search} {t : Term} {e : EventRow} (ht : t.phrases = []) :
    (s.add t).found engine e = s.found engine e := by
  rw [found, add, ht, List.append_nil]
  rfl

theorem found_add_singleton {s : Search} {t : Term} {e : EventRow} {v : String} (ht : t.phrases = [v]) :
    (s.add t).found engine e = engine.finds (s.phrases ++ [v]) e.rowid := by
  simp [found, add, ht]

/-- Where it is the event alone that decides on the conditions of a term. -/
theorem selects_add_event_iff {s : Search} (hs : s.Closed) {t : Term} {e : EventRow} {P : Prop}
    (he : s.selects engine e = true)
    (hP : ∀ r : Row, r.event = e → (t.conditions.all (fun c => (c.eval engine r).holds) = true ↔ P)) :
    (s.add t).selects engine e = true ↔ (s.add t).found engine e = true ∧ P := by
  have hrow := (List.any_eq_true.mp (Bool.and_eq_true_iff.mp he).2)
  rw [selects_add_iff]
  refine and_congr_right fun _ => ⟨?_, fun hp => ?_⟩
  · rintro ⟨r, hr, -, hterm⟩
    exact (hP r (mem_rows.mp hr).1).mp hterm
  · obtain ⟨r, hr, hpasses⟩ := exists_passes_joined hs e t.join hrow
    exact ⟨r, hr, hpasses, (hP r (mem_rows.mp hr).1).mpr hp⟩

end Search

end

/-! ## Keys -/

/-- Two starts of one text are starts of each other. -/
theorem startsWith_of_length_le {k a b : String} (ha : startsWith k a = true) (hb : startsWith k b = true)
    (hle : a.toList.length ≤ b.toList.length) : startsWith b a = true :=
  List.isPrefixOf_iff_prefix.mpr
    (List.prefix_of_prefix_length_le (List.isPrefixOf_iff_prefix.mp ha) (List.isPrefixOf_iff_prefix.mp hb) hle)

theorem startsWith_trans {k a b : String} (hb : startsWith k b = true) (ha : startsWith b a = true) :
    startsWith k a = true :=
  List.isPrefixOf_iff_prefix.mpr ((List.isPrefixOf_iff_prefix.mp ha).trans (List.isPrefixOf_iff_prefix.mp hb))

theorem dnsField_uses (name : String) {col : Column} (h : col ≠ .source) : (dnsField name).uses col = false :=
  decide_eq_false h.symm

theorem joinedField_uses (column : Column) (k : String) (col : Column) :
    (joinedField column k).uses col = decide (column = col) := by
  have hfold : ∀ (names : List (List Char)) (a : Operand),
      (names.foldl (fun a name => Operand.member a (user name)) a).uses col = a.uses col := by
    intro names
    induction names with
    | nil => exact fun _ => rfl
    | cons name names ih => exact fun a => (ih _).trans rfl
  rw [joinedField, hfold]
  rfl

/-- The keys with a condition of their own, and the joined values that the conditions read. -/
theorem ownCondition_spec {k v : String} {c : Condition} (h : ownCondition k v = some c) : startsWith k "dns." = true ∧
    (c.uses .query = true → joinOf k = some .queries) ∧ (c.uses .answer = true → joinOf k = some .answers) := by
  have hdns : ∀ name {col : Column}, col ≠ .source → (dnsField name).uses col ≠ true := fun name col hcol => by
    simp [dnsField_uses name hcol]
  have harg : ∀ value (col : Column), (Operand.arg value).uses col = false := fun _ _ => rfl
  unfold ownCondition at h
  dsimp only at h
  split_ifs at h with h₁ h₂ h₃ h₄ h₅ h₆ h₇
  · obtain rfl := h₁.1
    obtain rfl := Option.some.inj h
    exact ⟨by decide, fun hu => absurd hu (by decide), fun hu => absurd hu (by decide)⟩
  · obtain rfl := h₂.1
    obtain rfl := Option.some.inj h
    exact ⟨by decide, fun hu => absurd hu (by decide), fun hu => absurd hu (by decide)⟩
  · obtain rfl := Option.some.inj h
    have hanswer : ∀ uses : Bool, uses = false → uses = true → joinOf k = some .answers := by simp_all
    rcases h₃ with rfl | rfl
    · exact ⟨by decide, fun _ => rfl, hanswer _ rfl⟩
    · exact ⟨by decide, fun _ => rfl, hanswer _ rfl⟩
  · obtain rfl := Option.some.inj h
    have hqueries : startsWith k "dns.queries" = true := startsWith_trans h₄ (by decide)
    refine ⟨startsWith_trans h₄ (by decide), fun _ => if_pos (.inr hqueries), fun hu => ?_⟩
    rw [Condition.uses, joinedField_uses, harg] at hu
    exact absurd hu (by decide)
  · obtain rfl := Option.some.inj h
    have hqueries : ¬ startsWith k "dns.queries" = true := fun hq =>
      absurd (startsWith_of_length_le hq h₅ (by decide)) (by decide)
    refine ⟨startsWith_trans h₅ (by decide), fun hu => ?_, fun _ => ?_⟩
    · rw [Condition.uses, joinedField_uses, harg] at hu
      exact absurd hu (by decide)
    · rw [joinOf, if_neg (fun hk => hk.elim (fun hk => h₃ (.inl hk)) hqueries), if_pos h₅]
  · obtain rfl := Option.some.inj h
    refine ⟨startsWith_trans h₆ (by decide), fun hu => ?_, fun hu => ?_⟩
    · rw [Condition.uses, harg, Bool.or_false] at hu
      exact absurd hu (hdns _ (by decide))
    · rw [Condition.uses, harg, Bool.or_false] at hu
      exact absurd hu (hdns _ (by decide))
  · obtain rfl := Option.some.inj h
    refine ⟨startsWith_trans h₇ (by decide), fun hu => ?_, fun hu => ?_⟩
    · rw [Condition.uses, harg, Bool.or_false] at hu
      exact absurd hu (hdns _ (by decide))
    · rw [Condition.uses, harg, Bool.or_false] at hu
      exact absurd hu (hdns _ (by decide))

/-- The keys with a condition of their own are not looked for in the full-text index. -/
theorem isAccelerated_of_ownCondition {k v : String} {c : Condition} (h : ownCondition k v = some c) :
    isAccelerated k = false := by
  have hstart := (ownCondition_spec h).1
  refine decide_eq_false ?_
  rintro (rfl | rfl | hdhcp)
  · exact absurd hstart (by decide)
  · exact absurd hstart (by decide)
  · -- a text does not start in both ways
    have hdhc : startsWith k "dhcp" = true → startsWith k "dns." = true → False := fun h₁ h₂ =>
      absurd (startsWith_of_length_le h₁ h₂ (by decide)) (by decide)
    exact hdhc hdhcp hstart

/-- The short-hand keys have no condition of their own. -/
theorem resolveKey_of_ownCondition {key v : String} {c : Condition} (h : ownCondition (resolveKey key) v = some c) :
    resolveKey key = key := by
  unfold resolveKey at h ⊢
  split_ifs at h ⊢
  · exact absurd (ownCondition_spec h).1 (by decide)
  · exact absurd (ownCondition_spec h).1 (by decide)
  · rfl

theorem fieldCondition_uses (op : Comparison) (k v : String) {col : Column} (h : col ≠ .source) :
    (fieldCondition op k v).uses col = false := by
  have hsource : sourceColumn.uses col = false := decide_eq_false h.symm
  unfold fieldCondition fieldOf
  split_ifs <;> simp [Condition.uses, Operand.uses, hsource]

/-! ## Terms -/

/-- A term reads the values that it joins. -/
theorem term_within {fts : Bool} {e : QueryElement} {t : Term} (h : term fts e = some t) :
    ∀ c ∈ t.conditions, (c.uses .query = true → t.join = some .queries) ∧
      (c.uses .answer = true → t.join = some .answers) := by
  have hnone : ∀ c : Condition, c.uses .query = false → c.uses .answer = false →
      (c.uses .query = true → t.join = some .queries) ∧ (c.uses .answer = true → t.join = some .answers) := by
    intro c hq ha
    rw [hq, ha]
    exact ⟨(nomatch ·), (nomatch ·)⟩
  have htime : ∀ op ts, (timeCondition op ts).map (fun c => ({ conditions := [c] } : Term)) = some t →
      ∀ c ∈ t.conditions, (c.uses .query = true → t.join = some .queries) ∧
        (c.uses .answer = true → t.join = some .answers) := by
    intro op ts h c hc
    obtain ⟨c', hc', rfl⟩ := Option.map_eq_some_iff.mp h
    obtain ⟨nanos, -, rfl⟩ := Option.map_eq_some_iff.mp hc'
    obtain rfl := List.mem_singleton.mp hc
    exact hnone _ rfl rfl
  have htext : ∀ negated s, ∀ c ∈ (anywhereTerm fts negated s).conditions, c.uses .query = false ∧ c.uses .answer = false := by
    intro negated s c hc
    unfold anywhereTerm at hc
    dsimp only at hc
    split_ifs at hc
    · obtain rfl := List.mem_singleton.mp hc
      exact ⟨rfl, rfl⟩
    · exact absurd hc List.not_mem_nil
    · obtain rfl := List.mem_singleton.mp hc
      exact ⟨rfl, rfl⟩
  obtain ⟨negated, value⟩ := e
  cases value with
  | string s =>
      obtain rfl := Option.some.inj h
      exact fun c hc => hnone c (htext _ _ c hc).1 (htext _ _ c hc).2
  | keyValue key v =>
      obtain rfl := Option.some.inj h
      intro c hc
      have hkey : c ∈ (keyTerm fts negated (resolveKey key) v).conditions := hc
      have hfield : ∀ op, c = fieldCondition op (resolveKey key) v → c.uses .query = false ∧ c.uses .answer = false := by
        rintro op rfl
        exact ⟨fieldCondition_uses _ _ _ (by decide), fieldCondition_uses _ _ _ (by decide)⟩
      unfold keyTerm at hkey
      by_cases haddr : resolveKey key = "@ip" ∨ resolveKey key = "@mac"
      · rw [if_pos haddr] at hkey
        exact hnone c (htext _ _ c hkey).1 (htext _ _ c hkey).2
      rw [if_neg haddr] at hkey
      by_cases hneg : negated = true
      · rw [if_pos hneg] at hkey
        have huses := hfield _ (List.mem_singleton.mp hkey)
        exact hnone c huses.1 huses.2
      · rw [if_neg hneg] at hkey
        have hc := List.mem_singleton.mp hkey
        cases hown : ownCondition (resolveKey key) v with
        | none =>
            rw [hown] at hc
            exact hnone c (hfield _ hc).1 (hfield _ hc).2
        | some c' =>
            rw [hown, Option.getD_some] at hc
            have hspec := (ownCondition_spec hown).2
            rw [resolveKey_of_ownCondition hown, ← hc] at hspec
            exact hspec
  | fromTime ts => exact htime _ ts h
  | toTime ts => exact htime _ ts h
  | after ts => exact htime _ ts h
  | before ts => exact htime _ ts h
  | archived =>
      obtain rfl := Option.some.inj h
      intro c hc
      obtain rfl := List.mem_singleton.mp hc
      exact hnone _ rfl rfl
  | escalated =>
      obtain rfl := Option.some.inj h
      intro c hc
      obtain rfl := List.mem_singleton.mp hc
      exact hnone _ rfl rfl

theorem within_add {s : Search} (hs : s.Closed) {t : Term}
    (ht : ∀ c ∈ t.conditions, (c.uses .query = true → t.join = some .queries) ∧
      (c.uses .answer = true → t.join = some .answers)) : (s.add t).Closed := by
  intro c hc
  rcases List.mem_append.mp hc with hc | hc
  · exact ⟨fun hu => Search.mem_addJoin.mpr (.inl ((hs c hc).query hu)),
      fun hu => Search.mem_addJoin.mpr (.inl ((hs c hc).answer hu))⟩
  · exact ⟨fun hu => Search.mem_addJoin.mpr (.inr ((ht c hc).1 hu)),
      fun hu => Search.mem_addJoin.mpr (.inr ((ht c hc).2 hu))⟩

/-- The terms of the elements keep a search closed. -/
theorem closed_foldl {fts : Bool} {q : List QueryElement} {terms : List Term} (h : q.mapM (term fts) = some terms)
    {s : Search} (hs : s.Closed) : (terms.foldl Search.add s).Closed := by
  induction q generalizing terms s with
  | nil =>
      obtain rfl := Option.some.inj h
      exact hs
  | cons e q ih =>
      rw [List.mapM_cons] at h
      obtain ⟨t, ht, h⟩ := Option.bind_eq_some_iff.mp h
      obtain ⟨rest, hrest, h⟩ := Option.bind_eq_some_iff.mp h
      obtain rfl := Option.some.inj h
      exact ih hrest (within_add hs (term_within ht))

/-- The times of a query read no joined value. -/
theorem times_uses {op : Comparison} {ts : Option DateTime} {cs : List Condition}
    (h : ts.toList.mapM (timeCondition op) = some cs) : ∀ c ∈ cs, c.uses .query = false ∧ c.uses .answer = false := by
  cases ts with
  | none =>
      obtain rfl := Option.some.inj h
      exact fun c hc => absurd hc List.not_mem_nil
  | some ts =>
      rw [Option.toList_some, List.mapM_cons, List.mapM_nil] at h
      obtain ⟨c, hc, h⟩ := Option.bind_eq_some_iff.mp h
      obtain rfl := Option.some.inj h
      obtain ⟨nanos, -, rfl⟩ := Option.map_eq_some_iff.mp hc
      intro c hc
      obtain rfl := List.mem_singleton.mp hc
      exact ⟨rfl, rfl⟩

theorem baseConditions_uses {q : EventQueryParams} {cs : List Condition} (h : baseConditions q = some cs) :
    ∀ c ∈ cs, c.uses .query = false ∧ c.uses .answer = false := by
  unfold baseConditions at h
  obtain ⟨before, hbefore, h⟩ := Option.bind_eq_some_iff.mp h
  obtain ⟨since, hsince, h⟩ := Option.bind_eq_some_iff.mp h
  obtain rfl := Option.some.inj h
  intro c hc
  simp only [List.mem_append, List.mem_map] at hc
  rcases hc with ((⟨s, -, rfl⟩ | ⟨s, -, rfl⟩) | hc) | hc
  · exact ⟨rfl, rfl⟩
  · by_cases hs : s = "(no-name)"
    · rw [if_pos hs]
      exact ⟨rfl, rfl⟩
    · rw [if_neg hs]
      exact ⟨rfl, rfl⟩
  · exact times_uses hbefore c hc
  · exact times_uses hsince c hc

/-- What the conditions of a query read is joined. -/
theorem search_closed {fts : Bool} {q : EventQueryParams} {s : Search} (h : search fts q = some s) : s.Closed := by
  obtain ⟨cs, hcs, h⟩ := Option.bind_eq_some_iff.mp h
  obtain ⟨terms, hterms, h⟩ := Option.bind_eq_some_iff.mp h
  obtain rfl := Option.some.inj h
  refine closed_foldl hterms fun c hc => ?_
  have huses := baseConditions_uses hcs c hc
  refine ⟨fun hu => ?_, fun hu => ?_⟩
  · rw [huses.1] at hu
    exact (nomatch hu)
  · rw [huses.2] at hu
    exact (nomatch hu)

/-- One more element adds its term. -/
theorem search_adding {fts : Bool} {q : EventQueryParams} {t : QueryElement} {s s' : Search} (hs : search fts q = some s)
    (hs' : search fts (q.adding t) = some s') : ∃ τ, term fts t = some τ ∧ s' = s.add τ := by
  obtain ⟨cs, hcs, hs⟩ := Option.bind_eq_some_iff.mp hs
  obtain ⟨terms, hterms, hs⟩ := Option.bind_eq_some_iff.mp hs
  obtain rfl := Option.some.inj hs
  obtain ⟨cs', hcs', hs'⟩ := Option.bind_eq_some_iff.mp hs'
  obtain ⟨terms', hterms', hs'⟩ := Option.bind_eq_some_iff.mp hs'
  obtain rfl := Option.some.inj hs'
  obtain rfl := Option.some.inj (hcs.symm.trans hcs')
  rw [EventQueryParams.adding, List.mapM_append, hterms, List.mapM_cons, List.mapM_nil] at hterms'
  obtain ⟨τ, hτ, hterms'⟩ : ∃ τ, term fts t = some τ ∧ terms ++ [τ] = terms' := by
    cases hτ : term fts t with
    | none =>
        rw [hτ] at hterms'
        exact (nomatch hterms')
    | some τ =>
        rw [hτ] at hterms'
        exact ⟨τ, rfl, Option.some.inj hterms'⟩
  refine ⟨τ, hτ, ?_⟩
  rw [← hterms', List.foldl_append]
  rfl

/-! ## Shares -/

section

variable {engine : Engine} {fts : Bool} {s : Search} {e : EventRow}

theorem all_singleton {α : Type*} (p : α → Bool) (a : α) : [a].all p = p a := by simp

/-- A term of one condition that the event alone decides on. -/
theorem selects_condition_iff (hs : s.Closed) (he : s.selects engine e = true) {c : Condition} {o : Option Join} {P : Prop}
    (hP : ∀ r : Row, r.event = e → ((c.eval engine r).holds = true ↔ P)) :
    (s.add { join := o, conditions := [c] }).selects engine e = true ↔ P := by
  have hfound : (s.add { join := o, conditions := [c] }).found engine e = true :=
    (Search.found_add_nil rfl).trans (Search.found_of_selects he)
  rw [Search.selects_add_event_iff hs he (P := P) (fun r hr => by rw [all_singleton]; exact hP r hr), hfound]
  simp

theorem isNull_argValue (a : Arg) : a.value.isNull = false := by
  cases a <;> rfl

/-- A text and its negation. -/
theorem xor_text_iff (hs : s.Closed) (he : s.selects engine e = true) (text : String) (o : Option Join) :
    Xor ((s.add { anywhereTerm fts false text with join := o }).selects engine e = true)
      ((s.add { anywhereTerm fts true text with join := o }).selects engine e = true) ↔
      TextSplits engine fts s text e := by
  have hlike : ∀ r : Row, r.event = e →
      ((Condition.like sourceColumn (.arg (.text ("%" ++ text ++ "%")))).eval engine r).holds = textual engine e text := by
    rintro r rfl
    simp [textual, Condition.eval, Operand.eval, sourceColumn, Row.column, Arg.value, Kleene.ofOperands,
      SqlValue.isNull, Kleene.holds]
  have hnot : ∀ r : Row, r.event = e →
      ((Condition.notLike sourceColumn (.arg (.text ("%" ++ text ++ "%")))).eval engine r).holds = !textual engine e text := by
    rintro r rfl
    simp [textual, Condition.eval, Operand.eval, sourceColumn, Row.column, Arg.value, Kleene.ofOperands, Kleene.not,
      SqlValue.isNull, Kleene.holds]
  have hno : (s.add { anywhereTerm fts true text with join := o }).selects engine e = true ↔ textual engine e text = false :=
    selects_condition_iff hs he fun r hr => by rw [hnot r hr]; simp
  rw [hno]
  unfold TextSplits
  cases fts with
  | true =>
      have hyes : (s.add { anywhereTerm true false text with join := o }).selects engine e = true ↔
          engine.finds (s.phrases ++ [text]) e.rowid = true := by
        rw [Search.selects_add_event_iff hs he (P := True) (fun r _ => by simp [anywhereTerm]),
          Search.found_add_singleton (v := text) rfl]
        simp
      rw [hyes]
      grind
  | false =>
      have hyes : (s.add { anywhereTerm false false text with join := o }).selects engine e = true ↔
          textual engine e text = true :=
        selects_condition_iff hs he fun r hr => by rw [hlike r hr]
      rw [hyes]
      grind

/-- The value of the field of a key, in any row of the event. -/
theorem fieldOf_eval {r : Row} (hr : r.event = e) (k : String) : (fieldOf k).eval engine r = fieldValue engine e k := by
  have hname : nameOf (user k.toList) = k := by
    simp [nameOf, user, SqlTokens.chars, Function.comp_def]
  unfold fieldOf fieldValue
  by_cases hk : isPort k = true
  · rw [if_pos hk, if_pos hk, Operand.eval, hname, ← hr]
    rfl
  · rw [if_neg hk, if_neg hk, Operand.eval, hname, hr]

theorem fieldCondition_holds {r : Row} (hr : r.event = e) (op : Comparison) (k v : String) :
    ((fieldCondition op k v).eval engine r).holds = true ↔ fieldValue engine e k ≠ .null ∧
      op.compare (fieldValue engine e k) (EventQueryBuilder.valueArg v).value = true := by
  have harg : ∀ a : Arg, (Operand.arg a).eval engine r = a.value := fun _ => rfl
  rw [fieldCondition, Condition.eval, Kleene.holds_ofOperands, fieldOf_eval hr, harg, isNull_argValue]
  simp [SqlValue.isNull]

/-- The negation of a key: the field has another value. -/
theorem selects_negated_iff (hs : s.Closed) (he : s.selects engine e = true) (k v : String) (o : Option Join) :
    (s.add { join := o, conditions := [fieldCondition .ne k v] }).selects engine e = true ↔
      fieldValue engine e k ≠ .null ∧
        (fieldValue engine e k).eq (EventQueryBuilder.valueArg v).value = false := by
  refine selects_condition_iff hs he fun r hr => ?_
  rw [fieldCondition_holds hr]
  simp [Comparison.compare]

/-- The field of a key and its negation. -/
theorem xor_field_iff (hs : s.Closed) (he : s.selects engine e = true) (k v : String) (o : Option Join) :
    Xor ((s.add ⟨o, [fieldCondition .eq k v], if fts && isAccelerated k then [v] else []⟩).selects engine e = true)
      ((s.add { join := o, conditions := [fieldCondition .ne k v] }).selects engine e = true) ↔
      FieldSplits engine fts s k v e := by
  have heq : ∀ r : Row, r.event = e → ([fieldCondition .eq k v].all (fun c => (c.eval engine r).holds) = true ↔
      fieldValue engine e k ≠ .null ∧
        (fieldValue engine e k).eq (EventQueryBuilder.valueArg v).value = true) := fun r hr => by
    rw [all_singleton, fieldCondition_holds hr]
    rfl
  rw [selects_negated_iff hs he, Search.selects_add_event_iff hs he heq]
  unfold FieldSplits
  by_cases hfts : (fts && isAccelerated k) = true
  · rw [Search.found_add_singleton (v := v) (if_pos hfts)]
    rw [Bool.and_eq_true] at hfts
    grind
  · rw [Search.found_add_nil (if_neg hfts), Search.found_of_selects he]
    rw [Bool.and_eq_true, not_and] at hfts
    grind

/-- A key with a condition of its own, and its negation. -/
theorem xor_own_iff (hs : s.Closed) (he : s.selects engine e = true) {key v : String} {c : Condition} :
    Xor ((s.add { join := joinOf key, conditions := [c] }).selects engine e = true)
      ((s.add { join := joinOf key, conditions := [fieldCondition .ne (resolveKey key) v] }).selects engine e = true) ↔
      OwnSplits engine s c key v e := by
  rw [selects_negated_iff hs he, Search.selects_add_iff, Search.found_add_nil rfl, Search.found_of_selects he]
  unfold OwnSplits
  simp only [all_singleton, true_and]
  have hjoined : s.joined (joinOf key) = { s with joins := Search.addJoin s.joins (joinOf key) } := rfl
  rw [hjoined]
  grind

/-- A flag and its negation. -/
theorem xor_flag_iff (hs : s.Closed) (he : s.selects engine e = true) {name : Column} (flag : EventRow → Bool)
    (hname : ∀ r : Row, r.column name = .int (if flag r.event then 1 else 0)) :
    Xor ((s.add { conditions := [flagCondition name false] }).selects engine e = true)
      ((s.add { conditions := [flagCondition name true] }).selects engine e = true) := by
  have hflag : ∀ negated, (s.add { conditions := [flagCondition name negated] }).selects engine e = true ↔
      flag e = !negated := by
    refine fun negated => selects_condition_iff hs he fun r hr => ?_
    have hcolumn : (Operand.column name).eval engine r = .int (if flag e then 1 else 0) := by
      rw [Operand.eval, hname, hr]
    have harg : (Operand.arg (.int (if negated then 0 else 1))).eval engine r = .int (if negated then 0 else 1) := rfl
    rw [flagCondition, Condition.eval, hcolumn, harg]
    cases negated <;> cases flag e <;> decide
  rw [hflag, hflag]
  grind

theorem keyTerm_own {fts negated : Bool} {k v : String} {c : Condition} (h : ownCondition k v = some c) :
    keyTerm fts negated k v = { conditions := [if negated then fieldCondition .ne k v else c] } := by
  have haddr : ¬ (k = "@ip" ∨ k = "@mac") := by
    rintro (rfl | rfl)
    · exact absurd (ownCondition_spec h).1 (by decide)
    · exact absurd (ownCondition_spec h).1 (by decide)
  unfold keyTerm
  rw [if_neg haddr, h, isAccelerated_of_ownCondition h, Option.getD_some]
  cases negated <;> simp

/-- Of an element and its negation just one gives an event, where the element shares it out. -/
theorem xor_term_iff (hs : s.Closed) (he : s.selects engine e = true) {value : QueryValue} {τ τ' : Term}
    (hτ : term fts ⟨false, value⟩ = some τ) (hτ' : term fts ⟨true, value⟩ = some τ') :
    Xor ((s.add τ).selects engine e = true) ((s.add τ').selects engine e = true) ↔ Splits engine fts s value e := by
  have htime : ∀ {op ts}, (timeCondition op ts).map (fun c => ({ conditions := [c] } : Term)) = some τ →
      (timeCondition op ts).map (fun c => ({ conditions := [c] } : Term)) = some τ' →
      (Xor ((s.add τ).selects engine e = true) ((s.add τ').selects engine e = true) ↔ False) := by
    intro op ts h h'
    rw [Option.some.inj (h.symm.trans h'), xor_self]
  cases value with
  | string text =>
      obtain rfl := Option.some.inj hτ
      obtain rfl := Option.some.inj hτ'
      have hjoin : ∀ negated, ({ anywhereTerm fts negated text with join := none } : Term) = anywhereTerm fts negated text := by
        intro negated
        unfold anywhereTerm
        split_ifs <;> rfl
      have htext : _ ↔ TextSplits engine fts s text e := xor_text_iff hs he text none
      rw [hjoin, hjoin] at htext
      exact htext
  | keyValue key v =>
      obtain rfl := Option.some.inj hτ
      obtain rfl := Option.some.inj hτ'
      dsimp only [Splits]
      by_cases haddr : resolveKey key = "@ip" ∨ resolveKey key = "@mac"
      · have hterm : ∀ negated, keyTerm fts negated (resolveKey key) v = anywhereTerm fts negated v := fun negated => by
          rw [keyTerm, if_pos haddr]
        rw [if_pos haddr, hterm, hterm]
        exact xor_text_iff hs he v (joinOf key)
      · rw [if_neg haddr]
        cases hown : ownCondition (resolveKey key) v with
        | some c =>
            rw [keyTerm_own hown, keyTerm_own hown]
            exact xor_own_iff hs he
        | none =>
            rw [keyTerm, if_neg haddr, if_neg Bool.false_ne_true, hown, keyTerm, if_neg haddr, if_pos rfl]
            exact xor_field_iff hs he (resolveKey key) v (joinOf key)
  | fromTime ts => exact htime hτ hτ'
  | toTime ts => exact htime hτ hτ'
  | after ts => exact htime hτ hτ'
  | before ts => exact htime hτ hτ'
  | archived =>
      obtain rfl := Option.some.inj hτ
      obtain rfl := Option.some.inj hτ'
      exact iff_of_true (xor_flag_iff hs he EventRow.archived fun _ => rfl) trivial
  | escalated =>
      obtain rfl := Option.some.inj hτ
      obtain rfl := Option.some.inj hτ'
      exact iff_of_true (xor_flag_iff hs he EventRow.escalated fun _ => rfl) trivial

end

/-! ## Partitions -/

theorem search_of_events {engine : Engine} {fts : Bool} {q : EventQueryParams} {s : Search}
    (h : events engine fts q = some s) : search fts q = some s := by
  obtain ⟨b, -, h⟩ := Option.bind_eq_some_iff.mp h
  obtain ⟨s', hs', h⟩ := Option.bind_eq_some_iff.mp h
  split_ifs at h
  rw [hs', Option.some.inj h]

/-- The events of a query are shared out by an element and its negation if and only if the element shares out each of
them. -/
theorem partitions_iff {engine : Engine} {fts : Bool} {q : EventQueryParams} {t : QueryElement} {s yes no : Search}
    (hs : events engine fts q = some s) (hyes : events engine fts (q.adding t) = some yes)
    (hno : events engine fts (q.adding (negation t)) = some no) (store : List EventRow) :
    Partitions engine store s yes no ↔
      ∀ e ∈ store, s.selects engine e = true → Splits engine fts s t.value e := by
  have hsearch := search_of_events hs
  obtain ⟨τ, hτ, rfl⟩ := search_adding hsearch (search_of_events hyes)
  obtain ⟨τ', hτ', rfl⟩ := search_adding hsearch (search_of_events hno)
  have hclosed := search_closed hsearch
  obtain ⟨negated, value⟩ := t
  refine forall₂_congr fun e _ => forall_congr' fun he => ?_
  cases negated with
  | false => exact xor_term_iff hclosed he hτ hτ'
  | true =>
      rw [xor_comm]
      exact xor_term_iff hclosed he hτ' hτ

/-! ### An event without the field of a key -/

/-- An engine that looks fields up, has no index and compares texts as they are. -/
def plainEngine : Engine where
  extract j path := .ofJson (j.getPath ((path.toList.splitOn '.').map String.ofList))
  member _ _ := .null
  each j path := match j.getPath ((path.toList.splitOn '.').map String.ofList) with
    | .array elems => elems.map .ofJson
    | _ => []
  like a b := a = b
  glob a b := a = b
  finds _ _ := false
  runs _ := true

/-- An event that has no host name. -/
def plainEvent : EventRow := ⟨1, 0, false, false, .object [("event_type", .string "flow")], "flow", []⟩

/-- An event of a host. -/
def hostEvent : EventRow :=
  ⟨2, 0, false, false, .object [("http", .object [("hostname", .string "suricata.io")])], "suricata.io", []⟩

/-- `http.hostname:suricata.io`. -/
def hostTerm : QueryElement := ⟨false, .keyValue "http.hostname" "suricata.io"⟩

def hostSearch (op : Comparison) : Search := { conditions := [fieldCondition op "http.hostname" "suricata.io"] }

instance (engine : Engine) (store : List EventRow) (s yes no : Search) : Decidable (Partitions engine store s yes no) := by
  unfold Partitions
  infer_instance

theorem events_nil : events plainEngine false { queryString := [] } = some {} := by decide +kernel

theorem events_host : events plainEngine false (({ queryString := [] } : EventQueryParams).adding hostTerm) =
    some (hostSearch .eq) := by decide +kernel

theorem events_not_host : events plainEngine false (({ queryString := [] } : EventQueryParams).adding (negation hostTerm)) =
    some (hostSearch .ne) := by decide +kernel

/-- A host name and its negation share out the events that have one. -/
theorem partitions_iff_host : Partitions plainEngine [hostEvent] {} (hostSearch .eq) (hostSearch .ne) :=
  (partitions_iff events_nil events_host events_not_host [hostEvent]).mpr fun e he _ => by
    obtain rfl := List.mem_singleton.mp he
    exact ⟨by decide +kernel, fun h => nomatch h⟩

/-- An event without a host name is given by neither of the two. -/
theorem hostname_not_partitions : ∃ s yes no,
    events plainEngine false { queryString := [] } = some s ∧
      events plainEngine false (({ queryString := [] } : EventQueryParams).adding hostTerm) = some yes ∧
      events plainEngine false (({ queryString := [] } : EventQueryParams).adding (negation hostTerm)) = some no ∧
      ¬ Partitions plainEngine [plainEvent] s yes no :=
  ⟨_, _, _, events_nil, events_host, events_not_host, by decide +kernel⟩

end EveBox.Sqlite
