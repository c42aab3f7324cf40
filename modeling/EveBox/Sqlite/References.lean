import EveBox.Rust.Result
import EveBox.Sqlite.Agg
import EveBox.Sqlite.Histogram
import EveBox.Sqlite.SearchTheorems

/-!
# The tables that the clauses of a query refer to

Reference: `src/sqlite/builder.rs`, and its callers in `src/sqlite/eventrepo/`.

The joins of a query string are made apart from its clauses. `events` asks for both; the other callers ask for the
clauses alone.

* `introduces_iff` — when each table that a clause refers to is one of the statement.
-/

namespace EveBox.Sqlite

open Rust Eve Repo SqlText

open EventQueryBuilder (startsWith resolveKey)

/-! ## Names -/

/-- What is being read of a clause: a word, or a text within quotes. -/
inductive Reading
  | outside (word : List Char)
  | quoted
deriving DecidableEq, Repr

namespace Reading

/-- A character, and the name of a table before a point. The text of a user has no part in the names. -/
def step : Reading → SqlTokens.Labelled Origin → Reading × List String
  | .quoted, c => (if c.label = .builder ∧ c.char = SqlTokens.quote then .outside [] else .quoted, [])
  | .outside word, c =>
      if c.label ≠ .builder then (.outside [], [])
      else if c.char = SqlTokens.quote then (.quoted, [])
      else if SqlTokens.isIdChar c.char then (.outside (word ++ [c.char]), [])
      else (.outside [], if c.char = '.' ∧ word ≠ [] then [String.ofList word] else [])

def run : Reading → SqlText → Reading × List String
  | s, [] => (s, [])
  | s, c :: rest => ((run (s.step c).1 rest).1, (s.step c).2 ++ (run (s.step c).1 rest).2)

end Reading

/-- The names of the tables that a clause refers to. -/
def qualifiers (clause : SqlText) : List String := (Reading.run (.outside []) clause).2

/-- The name that a table or a join has in the statement: its last word. -/
def aliasOf (source : SqlText) : String := String.ofList (((SqlTokens.chars source).splitOn ' ').getLast?.getD [])

/-- Each table that a clause refers to is one of the statement. -/
def EventQueryBuilder.Introduces (b : EventQueryBuilder) : Prop :=
  ∀ clause ∈ b.withPhrases.wheres, ∀ name ∈ qualifiers clause,
    name ∈ (b.withPhrases.tables ++ b.withPhrases.leftJoin).map aliasOf

instance (b : EventQueryBuilder) : Decidable b.Introduces := by
  unfold EventQueryBuilder.Introduces
  infer_instance

/-! ## Callers -/

/-- The callers that make a statement of a query. -/
inductive Caller
  | events (q : EventQueryParams)
  | agg (field : String) (size : ℕ) (order : String)
  | aggStream (field : String)
  | histogramTime (interval : ℕ)
  | getEventTypes
deriving DecidableEq, Repr

/-- The builder of a caller, before `build`. -/
def Caller.builder (fts : Bool) (query : List QueryElement) : Caller → Option EventQueryBuilder
  | .events q => eventsBuilder fts { q with queryString := query }
  | .agg field size order => aggBuilder fts field size order query
  | .aggStream field => aggStreamBuilder fts field query
  | .histogramTime interval => histogramBuilder fts interval query
  | .getEventTypes => eventTypesBuilder fts query

/-- Whether a caller makes the joins of a query, too. -/
def Caller.joins : Caller → Bool
  | .events _ => true
  | _ => false

/-- The keys whose clauses are about the values of a join. -/
def keyReadsJoin (k : String) : Bool := k = "dns.rrname" || startsWith k "dns.queries." || startsWith k "dns.answers."

/-- An element whose clause is about the values of a join. -/
def readsJoin (e : QueryElement) : Bool :=
  !e.negated && match e.value with
    | .keyValue k _ => keyReadsJoin k
    | _ => false

/-! ## The names of a condition -/

namespace Reading

theorem run_append (s : Reading) (a b : SqlText) :
    s.run (a ++ b) = (((s.run a).1.run b).1, (s.run a).2 ++ ((s.run a).1.run b).2) := by
  induction a generalizing s with
  | nil => rfl
  | cons c a ih => simp only [List.cons_append, run, ih, List.append_assoc]

/-- A text has no quote of the builder. -/
def Plain (text : SqlText) : Prop := ∀ c ∈ text, ¬ (c.label = .builder ∧ c.char = SqlTokens.quote)

theorem run_quoted {text : SqlText} (h : Plain text) : run .quoted text = (.quoted, []) := by
  induction text with
  | nil => rfl
  | cons c text ih =>
      have hc := h c List.mem_cons_self
      have htext := ih fun c hc => h c (List.mem_cons_of_mem _ hc)
      simp only [run, step, if_neg hc, htext, List.append_nil]

theorem plain_user (s : List Char) : Plain (user s) := by
  intro c hc
  obtain ⟨x, -, rfl⟩ := List.mem_map.mp hc
  exact fun h => nomatch h.1

/-- A text in quotes of the builder has no names. -/
theorem run_literal {before text after : SqlText} {names : List String} (hbefore : run (.outside []) before = (.quoted, names))
    (htext : Plain text) (hafter : run .quoted after = (.outside [], [])) :
    run (.outside []) (before ++ text ++ after) = (.outside [], names) := by
  rw [run_append, run_append, hbefore, run_quoted htext, hafter]
  simp

end Reading

def Column.table : Column → Option String
  | .source => some "events"
  | .timestamp => none
  | .archived => some "events"
  | .escalated => some "events"
  | .query => some "_dns_queries"
  | .answer => some "_dns_answers"

/-- The tables that an operand refers to. -/
def Operand.names : Operand → List String
  | .column name => name.table.toList
  | .extract _ => ["events"]
  | .member a _ => a.names
  | .literal _ => []
  | .arg _ => []

/-- The names that an operand has in quotes stay there. -/
def Operand.Plain : Operand → Prop
  | .extract path => Reading.Plain path
  | .member a name => a.Plain ∧ Reading.Plain name
  | .literal s => Reading.Plain (lit s)
  | _ => True

def Condition.names : Condition → List String
  | .compare _ a b | .like a b | .notLike a b | .glob a b => a.names ++ b.names
  | .isNull a => a.names
  | .or a b => a.names ++ b.names

def Condition.Plain : Condition → Prop
  | .compare _ a b | .like a b | .notLike a b | .glob a b => a.Plain ∧ b.Plain
  | .isNull a => a.Plain
  | .or a b => a.Plain ∧ b.Plain

open Reading in
theorem Operand.run_sql (a : Operand) (h : a.Plain) : ∃ word, run (.outside []) a.sql = (.outside word, a.names) := by
  induction a with
  | column name => cases name <;> exact ⟨_, rfl⟩
  | extract path =>
      have hbefore : run (.outside []) (lit "json_extract(events.source, '$.") = (.quoted, ["events"]) := rfl
      exact ⟨[], run_literal hbefore h rfl⟩
  | member a name ih =>
      obtain ⟨word, hword⟩ := ih h.1
      have harrow : run (.outside word) (lit "->>'") = (.quoted, []) := rfl
      have hbefore : run (.outside []) (a.sql ++ lit "->>'") = (.quoted, a.names) := by
        rw [run_append, hword, harrow, List.append_nil]
      exact ⟨[], run_literal hbefore h.2 rfl⟩
  | literal s =>
      have hbefore : run (.outside []) (lit "'") = (.quoted, []) := rfl
      exact ⟨[], run_literal hbefore h rfl⟩
  | arg value => exact ⟨[], rfl⟩

open Reading in
/-- Two operands, with an operator between them. -/
theorem run_operands {a b : Operand} {op : SqlText} (ha : a.Plain) (hb : b.Plain)
    (hop : ∀ word, run (.outside word) op = (.outside [], [])) :
    ∃ word, run (.outside []) (a.sql ++ op ++ b.sql) = (.outside word, a.names ++ b.names) := by
  obtain ⟨word, hword⟩ := a.run_sql ha
  obtain ⟨word', hword'⟩ := b.run_sql hb
  refine ⟨word', ?_⟩
  rw [run_append, run_append, hword, hop, hword', List.append_nil]

open Reading in
theorem Condition.run_sql (c : Condition) (h : c.Plain) : ∃ word, run (.outside []) c.sql = (.outside word, c.names) := by
  induction c with
  | compare op a b => exact run_operands h.1 h.2 fun word => by cases op <;> rfl
  | like a b => exact run_operands h.1 h.2 fun word => rfl
  | notLike a b => exact run_operands h.1 h.2 fun word => rfl
  | glob a b => exact run_operands h.1 h.2 fun word => rfl
  | isNull a =>
      obtain ⟨word, hword⟩ := a.run_sql h
      have hnull : run (.outside word) (lit " IS NULL") = (.outside "NULL".toList, []) := rfl
      exact ⟨_, by rw [Condition.sql, run_append, hword, hnull, List.append_nil]; rfl⟩
  | or a b iha ihb =>
      obtain ⟨word, hword⟩ := iha h.1
      obtain ⟨word', hword'⟩ := ihb h.2
      have hopen : run (.outside []) (lit "(") = (.outside [], []) := rfl
      have hor : run (.outside word) (lit " OR ") = (.outside [], []) := rfl
      have hclose : run (.outside word') (lit ")") = (.outside [], []) := rfl
      refine ⟨[], ?_⟩
      rw [Condition.sql, run_append, run_append, run_append, run_append, hopen, hword, hor, hword', hclose]
      simp [Condition.names]

theorem qualifiers_sql {c : Condition} (h : c.Plain) : qualifiers c.sql = c.names := by
  obtain ⟨word, hword⟩ := c.run_sql h
  rw [qualifiers, hword]

/-! ### The names of the joins -/

/-- The column of the values of a join. -/
def Join.column : Join → Column
  | .queries => .query
  | .answers => .answer

/-- The name of a join. -/
def Join.name : Join → String
  | .queries => "_dns_queries"
  | .answers => "_dns_answers"

theorem aliasOf_join (j : Join) : aliasOf j.sql = j.name := by
  cases j <;> decide

theorem Operand.mem_names {a : Operand} {name : String} (h : name ∈ a.names) :
    name = "events" ∨ ∃ j : Join, a.uses j.column = true ∧ name = j.name := by
  induction a with
  | column col =>
      cases col with
      | query => exact .inr ⟨.queries, rfl, List.mem_singleton.mp h⟩
      | answer => exact .inr ⟨.answers, rfl, List.mem_singleton.mp h⟩
      | timestamp => exact absurd h List.not_mem_nil
      | _ => exact .inl (List.mem_singleton.mp h)
  | extract path => exact .inl (List.mem_singleton.mp h)
  | member a _ ih => exact ih h
  | literal s => exact absurd h List.not_mem_nil
  | arg value => exact absurd h List.not_mem_nil

theorem Operand.join_mem_names {a : Operand} {j : Join} (h : a.uses j.column = true) : j.name ∈ a.names := by
  induction a with
  | column col =>
      obtain rfl := of_decide_eq_true h
      cases j <;> exact List.mem_singleton_self _
  | member a _ ih => exact ih h
  | _ => exact nomatch h

/-- A condition refers to the events, and to the joins whose values it reads. -/
theorem Condition.mem_names {c : Condition} {name : String} (h : name ∈ c.names) :
    name = "events" ∨ ∃ j : Join, c.uses j.column = true ∧ name = j.name := by
  have hboth : ∀ {a b : Operand}, name ∈ a.names ++ b.names →
      name = "events" ∨ ∃ j : Join, (a.uses j.column || b.uses j.column) = true ∧ name = j.name := by
    intro a b h
    rcases List.mem_append.mp h with h | h
    · exact (Operand.mem_names h).imp_right fun ⟨j, hj, hname⟩ => ⟨j, by rw [hj, Bool.true_or], hname⟩
    · exact (Operand.mem_names h).imp_right fun ⟨j, hj, hname⟩ => ⟨j, by rw [hj, Bool.or_true], hname⟩
  induction c with
  | isNull a => exact Operand.mem_names h
  | or a b iha ihb =>
      rcases List.mem_append.mp h with h | h
      · exact (iha h).imp_right fun ⟨j, hj, hname⟩ => ⟨j, by rw [Condition.uses, hj, Bool.true_or], hname⟩
      · exact (ihb h).imp_right fun ⟨j, hj, hname⟩ => ⟨j, by rw [Condition.uses, hj, Bool.or_true], hname⟩
  | _ => exact hboth h

theorem Condition.join_mem_names {c : Condition} {j : Join} (h : c.uses j.column = true) : j.name ∈ c.names := by
  have hboth : ∀ {a b : Operand}, (a.uses j.column || b.uses j.column) = true → j.name ∈ a.names ++ b.names := by
    intro a b h
    rcases (Bool.or_eq_true _ _).mp h with h | h
    · exact List.mem_append_left _ (Operand.join_mem_names h)
    · exact List.mem_append_right _ (Operand.join_mem_names h)
  induction c with
  | isNull a => exact Operand.join_mem_names h
  | or a b iha ihb =>
      rcases (Bool.or_eq_true _ _).mp h with h | h
      · exact List.mem_append_left _ (iha h)
      · exact List.mem_append_right _ (ihb h)
  | _ => exact hboth h

/-! ## The conditions of an element -/

instance (text : SqlText) : Decidable (Reading.Plain text) := by
  unfold Reading.Plain
  infer_instance

theorem dnsField_plain {name : String} (h : Reading.Plain (lit name)) : (dnsField name).Plain :=
  ⟨⟨trivial, by decide⟩, h⟩

theorem joinedField_plain (column : Column) (k : String) : (joinedField column k).Plain := by
  have hfold : ∀ (names : List (List Char)) (a : Operand), a.Plain →
      (names.foldl (fun a name => Operand.member a (user name)) a).Plain := by
    intro names
    induction names with
    | nil => exact fun _ h => h
    | cons name names ih => exact fun a h => ih _ ⟨h, Reading.plain_user name⟩
  exact hfold _ _ trivial

theorem fieldCondition_plain (op : Comparison) (k v : String) : (fieldCondition op k v).Plain := by
  refine ⟨?_, trivial⟩
  unfold fieldOf
  split_ifs
  · exact ⟨trivial, Reading.plain_user _⟩
  · exact Reading.plain_user _

theorem ownCondition_plain {k v : String} {c : Condition} (h : ownCondition k v = some c) : c.Plain := by
  have hliteral : ∀ {s : String}, Reading.Plain (lit s) → (Operand.literal s).Plain := fun h => h
  unfold ownCondition at h
  dsimp only at h
  split_ifs at h
  · obtain rfl := Option.some.inj h
    exact ⟨⟨dnsField_plain (by decide), hliteral (by decide)⟩, ⟨dnsField_plain (by decide), hliteral (by decide)⟩⟩
  · obtain rfl := Option.some.inj h
    exact ⟨⟨dnsField_plain (by decide), hliteral (by decide)⟩, ⟨dnsField_plain (by decide), hliteral (by decide)⟩⟩
  · obtain rfl := Option.some.inj h
    exact ⟨⟨dnsField_plain (by decide), trivial⟩, ⟨⟨trivial, by decide⟩, trivial⟩⟩
  · obtain rfl := Option.some.inj h
    exact ⟨joinedField_plain _ _, trivial⟩
  · obtain rfl := Option.some.inj h
    exact ⟨joinedField_plain _ _, trivial⟩
  · obtain rfl := Option.some.inj h
    exact ⟨dnsField_plain (by decide), trivial⟩
  · obtain rfl := Option.some.inj h
    exact ⟨dnsField_plain (by decide), trivial⟩

/-- A condition of its own, and the values of joins in it. -/
theorem ownCondition_uses_iff {k v : String} {c : Condition} (h : ownCondition k v = some c) :
    (∃ j : Join, c.uses j.column = true) ↔ keyReadsJoin k = true := by
  have hnone : c.uses .query = false → c.uses .answer = false → keyReadsJoin k = false →
      ((∃ j : Join, c.uses j.column = true) ↔ keyReadsJoin k = true) := by
    intro hq ha hk
    rw [hk]
    refine iff_of_false ?_ Bool.false_ne_true
    rintro ⟨j, hj⟩
    cases j with
    | queries => exact absurd (hq.symm.trans hj) Bool.false_ne_true
    | answers => exact absurd (ha.symm.trans hj) Bool.false_ne_true
  have hsome : ∀ j : Join, c.uses j.column = true → keyReadsJoin k = true →
      ((∃ j : Join, c.uses j.column = true) ↔ keyReadsJoin k = true) := fun j hj hk => iff_of_true ⟨j, hj⟩ hk
  have hfield : ∀ {name : String} {b : Operand} {col : Column}, col ≠ .source → b.uses col = false →
      ((dnsField name).uses col || b.uses col) = false := by
    intro name b col hcol hb
    rw [dnsField_uses name hcol, hb]
    rfl
  unfold ownCondition at h
  dsimp only at h
  split_ifs at h with h₁ h₂ h₃ h₄ h₅ h₆ h₇
  · obtain rfl := Option.some.inj h
    obtain rfl := h₁.1
    exact hnone rfl rfl rfl
  · obtain rfl := Option.some.inj h
    obtain rfl := h₂.1
    exact hnone rfl rfl rfl
  · obtain rfl := Option.some.inj h
    refine hsome .queries rfl ?_
    rcases h₃ with rfl | rfl <;> rfl
  · obtain rfl := Option.some.inj h
    refine hsome .queries ?_ (by rw [keyReadsJoin, h₄, Bool.or_true, Bool.true_or])
    rw [Condition.uses, joinedField_uses]
    rfl
  · obtain rfl := Option.some.inj h
    refine hsome .answers ?_ (by rw [keyReadsJoin, h₅, Bool.or_true])
    rw [Condition.uses, joinedField_uses]
    rfl
  · obtain rfl := Option.some.inj h
    refine hnone (hfield (by decide) rfl) (hfield (by decide) rfl) ?_
    simp [keyReadsJoin, not_or.mp h₃, h₄, h₅]
  · obtain rfl := Option.some.inj h
    refine hnone (hfield (by decide) rfl) (hfield (by decide) rfl) ?_
    simp [keyReadsJoin, not_or.mp h₃, h₄, h₅]

theorem ownCondition_of_keyReadsJoin {k : String} (h : keyReadsJoin k = true) (v : String) :
    ∃ c, ownCondition k v = some c := by
  refine Option.isSome_iff_exists.mp ?_
  simp only [keyReadsJoin, Bool.or_eq_true, decide_eq_true_eq] at h
  unfold ownCondition
  dsimp only
  split_ifs with h₁ h₂ h₃ h₄ h₅
  all_goals try rfl
  exact absurd h (by simp [not_or.mp h₃, h₄, h₅])

/-- A condition of a term: it is about the event alone, or it is a key's own. -/
theorem mem_conditions {fts : Bool} {e : QueryElement} {t : Term} (h : term fts e = some t) {c : Condition}
    (hc : c ∈ t.conditions) : (c.Plain ∧ ∀ j : Join, c.uses j.column = false) ∨
      ∃ k v, e = ⟨false, .keyValue k v⟩ ∧ ownCondition k v = some c := by
  have htime : ∀ op ts, (timeCondition op ts).map (fun c => ({ conditions := [c] } : Term)) = some t →
      c.Plain ∧ ∀ j : Join, c.uses j.column = false := by
    intro op ts h
    obtain ⟨c', hc', rfl⟩ := Option.map_eq_some_iff.mp h
    obtain ⟨nanos, -, rfl⟩ := Option.map_eq_some_iff.mp hc'
    obtain rfl := List.mem_singleton.mp hc
    exact ⟨⟨trivial, trivial⟩, fun j => by cases j <;> rfl⟩
  have htext : ∀ negated s, c ∈ (anywhereTerm fts negated s).conditions → c.Plain ∧ ∀ j : Join, c.uses j.column = false := by
    intro negated s hc
    unfold anywhereTerm at hc
    dsimp only at hc
    split_ifs at hc
    · obtain rfl := List.mem_singleton.mp hc
      exact ⟨⟨trivial, trivial⟩, fun j => by cases j <;> rfl⟩
    · exact absurd hc List.not_mem_nil
    · obtain rfl := List.mem_singleton.mp hc
      exact ⟨⟨trivial, trivial⟩, fun j => by cases j <;> rfl⟩
  have hflag : ∀ name negated, c = flagCondition name negated → name ≠ .query → name ≠ .answer →
      c.Plain ∧ ∀ j : Join, c.uses j.column = false := by
    rintro name negated rfl hq ha
    refine ⟨⟨trivial, trivial⟩, fun j => ?_⟩
    cases j <;> simp [flagCondition, Condition.uses, Operand.uses, Join.column, hq, ha]
  obtain ⟨negated, value⟩ := e
  cases value with
  | string s =>
      obtain rfl := Option.some.inj h
      exact .inl (htext _ _ hc)
  | keyValue key v =>
      obtain rfl := Option.some.inj h
      have hkey : c ∈ (keyTerm fts negated (resolveKey key) v).conditions := hc
      have hfield : ∀ op, c = fieldCondition op (resolveKey key) v → c.Plain ∧ ∀ j : Join, c.uses j.column = false := by
        rintro op rfl
        refine ⟨fieldCondition_plain _ _ _, fun j => fieldCondition_uses _ _ _ ?_⟩
        cases j <;> decide
      unfold keyTerm at hkey
      by_cases haddr : resolveKey key = "@ip" ∨ resolveKey key = "@mac"
      · rw [if_pos haddr] at hkey
        exact .inl (htext _ _ hkey)
      rw [if_neg haddr] at hkey
      cases negated with
      | true => exact .inl (hfield _ (List.mem_singleton.mp hkey))
      | false =>
          have hc := List.mem_singleton.mp hkey
          cases hown : ownCondition (resolveKey key) v with
          | none =>
              rw [hown] at hc
              exact .inl (hfield _ hc)
          | some c' =>
              rw [hown, Option.getD_some] at hc
              rw [resolveKey_of_ownCondition hown, ← hc] at hown
              exact .inr ⟨key, v, rfl, hown⟩
  | fromTime ts => exact .inl (htime _ ts h)
  | toTime ts => exact .inl (htime _ ts h)
  | after ts => exact .inl (htime _ ts h)
  | before ts => exact .inl (htime _ ts h)
  | archived =>
      obtain rfl := Option.some.inj h
      exact .inl (hflag _ _ (List.mem_singleton.mp hc) (by decide) (by decide))
  | escalated =>
      obtain rfl := Option.some.inj h
      exact .inl (hflag _ _ (List.mem_singleton.mp hc) (by decide) (by decide))

theorem term_plain {fts : Bool} {e : QueryElement} {t : Term} (h : term fts e = some t) {c : Condition}
    (hc : c ∈ t.conditions) : c.Plain := by
  rcases mem_conditions h hc with h | ⟨k, v, -, hown⟩
  · exact h.1
  · exact ownCondition_plain hown

/-- The terms that are about the values of a join. -/
theorem term_uses_iff {fts : Bool} {e : QueryElement} {t : Term} (h : term fts e = some t) :
    (∃ c ∈ t.conditions, ∃ j : Join, c.uses j.column = true) ↔ readsJoin e = true := by
  constructor
  · rintro ⟨c, hc, j, hj⟩
    rcases mem_conditions h hc with hevent | ⟨k, v, rfl, hown⟩
    · exact absurd ((hevent.2 j).symm.trans hj) Bool.false_ne_true
    · exact (ownCondition_uses_iff hown).mp ⟨j, hj⟩
  · intro hreads
    obtain ⟨negated, value⟩ := e
    obtain ⟨hneg, hvalue⟩ := Bool.and_eq_true_iff.mp hreads
    obtain rfl : negated = false := by simpa using hneg
    cases value with
    | keyValue k v =>
        have hkey : keyReadsJoin k = true := hvalue
        obtain ⟨c, hown⟩ := ownCondition_of_keyReadsJoin hkey v
        have hresolve : resolveKey k = k := by
          unfold resolveKey
          split_ifs with h₁ h₂
          · rw [h₁] at hkey
            exact absurd hkey (by decide)
          · rw [h₂] at hkey
            exact absurd hkey (by decide)
          · rfl
        obtain rfl := Option.some.inj h
        have hterm : keyTerm fts false (resolveKey k) v = { conditions := [c] } := by rw [hresolve, keyTerm_own hown]; rfl
        obtain ⟨j, hj⟩ := (ownCondition_uses_iff hown).mpr hkey
        refine ⟨c, ?_, j, hj⟩
        show c ∈ (keyTerm fts false (resolveKey k) v).conditions
        rw [hterm]
        exact List.mem_singleton_self c
    | _ => exact nomatch hvalue

/-! ## Statements -/

namespace EventQueryBuilder

/-- The builder with the clauses of some terms. -/
theorem foldl_append_eq (terms : List Term) : ∀ b : EventQueryBuilder, terms.foldl append b =
    { b with
      wheres := b.wheres ++ terms.flatMap fun t => t.conditions.map Condition.sql
      args := b.args ++ terms.flatMap fun t => t.conditions.flatMap Condition.args
      ftsPhrases := b.ftsPhrases ++ terms.flatMap fun t => t.phrases.map fun p => "\x22" ++ p ++ "\x22" } := by
  induction terms with
  | nil => intro b; simp
  | cons t terms ih =>
      intro b
      rw [List.foldl_cons, ih]
      simp [append]

theorem applyQueryString_some {b b' : EventQueryBuilder} {q : List QueryElement} (h : b.applyQueryString q = some b') :
    ∃ terms, q.mapM (term b.fts) = some terms ∧ b' = terms.foldl append b := by
  rw [applyQueryString_eq, Option.map_eq_some_iff] at h
  obtain ⟨terms, hterms, rfl⟩ := h
  exact ⟨terms, hterms, rfl⟩

end EventQueryBuilder

open EventQueryBuilder (applyQueryString_some foldl_append_eq)

/-- A clause that refers to the events alone. -/
def OnlyEvents (clause : SqlText) : Prop := ∀ name ∈ qualifiers clause, name = "events"

instance (clause : SqlText) : Decidable (OnlyEvents clause) := by
  unfold OnlyEvents
  infer_instance

/-- What the statement of a caller has: clauses of its own, those of the terms, and maybe joins. -/
structure Caller.Made (fts : Bool) (query : List QueryElement) (caller : Caller) (b : EventQueryBuilder) (own : List SqlText)
    (terms : List Term) : Prop where
  mapM : query.mapM (term fts) = some terms
  onlyEvents : ∀ clause ∈ own, OnlyEvents clause
  wheres : ∀ clause, clause ∈ b.wheres ↔ clause ∈ own ∨ ∃ t ∈ terms, ∃ c ∈ t.conditions, c.sql = clause
  tables : b.tables = [lit "events"]
  noJoins : caller.joins = false → b.leftJoin = []
  joins : caller.joins = true → ∀ t ∈ terms, ∀ j, t.join = some j → j.sql ∈ b.leftJoin

theorem mem_flatMap_conditions {terms : List Term} {clause : SqlText} :
    clause ∈ (terms.flatMap fun t => t.conditions.map Condition.sql) ↔ ∃ t ∈ terms, ∃ c ∈ t.conditions, c.sql = clause := by
  simp only [List.mem_flatMap, List.mem_map]

/-- A query string that is applied to a builder. -/
theorem made_applyQueryString {fts : Bool} {query : List QueryElement} {caller : Caller} {b b' : EventQueryBuilder}
    (hfts : b.fts = fts) (htables : b.tables = [lit "events"]) (hjoin : b.leftJoin = []) (hcaller : caller.joins = false)
    (hown : ∀ clause ∈ b.wheres, OnlyEvents clause) (h : b.applyQueryString query = some b') :
    ∃ terms, caller.Made fts query b' b.wheres terms := by
  obtain ⟨terms, hterms, rfl⟩ := applyQueryString_some h
  rw [hfts] at hterms
  rw [foldl_append_eq]
  exact ⟨terms, hterms, hown, fun clause => by rw [List.mem_append, mem_flatMap_conditions], htables, fun _ => hjoin,
    fun h => absurd (hcaller.symm.trans h) Bool.false_ne_true⟩

theorem kind_onlyEvents {field eventType : String} (h : eventTypeOf field = some eventType) :
    OnlyEvents (lit "json_extract(events.source, '$.event_type') = '" ++ lit eventType ++ lit "'") := by
  unfold eventTypeOf at h
  split_ifs at h
  · obtain rfl := Option.some.inj h
    exact by decide
  · obtain rfl := Option.some.inj h
    exact by decide

/-- The clause of a kind of event, before those of the terms or behind them. -/
theorem Caller.Made.whereKind {fts : Bool} {query : List QueryElement} {caller : Caller} {b : EventQueryBuilder}
    {own : List SqlText} {terms : List Term} (h : caller.Made fts query b own terms) (field : String) :
    ∃ own', caller.Made fts query (b.whereKind field) own' terms := by
  unfold EventQueryBuilder.whereKind
  cases hkind : eventTypeOf field with
  | none => exact ⟨own, h⟩
  | some eventType =>
      refine ⟨own ++ [lit "json_extract(events.source, '$.event_type') = '" ++ lit eventType ++ lit "'"], h.mapM, ?_, ?_,
        h.tables, h.noJoins, h.joins⟩
      · intro clause hclause
        rcases List.mem_append.mp hclause with hclause | hclause
        · exact h.onlyEvents clause hclause
        · obtain rfl := List.mem_singleton.mp hclause
          exact kind_onlyEvents hkind
      · intro clause
        dsimp only [EventQueryBuilder.pushWhere]
        rw [List.mem_append, List.mem_append, h.wheres, or_right_comm]

theorem onlyEvents_sql {c : Condition} (h : c.Plain) (huses : ∀ j : Join, c.uses j.column = false) : OnlyEvents c.sql := by
  intro name hname
  rw [qualifiers_sql h] at hname
  rcases Condition.mem_names hname with hevents | ⟨j, hj, -⟩
  · exact hevents
  · exact absurd ((huses j).symm.trans hj) Bool.false_ne_true

/-- The conditions that do not come from the query string are about the events alone. -/
theorem baseConditions_onlyEvents {q : EventQueryParams} {cs : List Condition} (h : baseConditions q = some cs) :
    ∀ c ∈ cs, OnlyEvents c.sql := by
  have huses : ∀ c ∈ cs, ∀ j : Join, c.uses j.column = false := by
    intro c hc j
    cases j with
    | queries => exact (baseConditions_uses h c hc).1
    | answers => exact (baseConditions_uses h c hc).2
  have htimes : ∀ {op : Comparison} {ts : Option DateTime} {cs : List Condition},
      ts.toList.mapM (timeCondition op) = some cs → ∀ c ∈ cs, c.Plain := by
    intro op ts cs h c hc
    cases ts with
    | none =>
        obtain rfl := Option.some.inj h
        exact absurd hc List.not_mem_nil
    | some ts =>
        rw [Option.toList_some, List.mapM_cons, List.mapM_nil] at h
        obtain ⟨c', hc', h⟩ := Option.bind_eq_some_iff.mp h
        obtain rfl := Option.some.inj h
        obtain ⟨nanos, -, rfl⟩ := Option.map_eq_some_iff.mp hc'
        obtain rfl := List.mem_singleton.mp hc
        exact ⟨trivial, trivial⟩
  intro c hc
  refine onlyEvents_sql ?_ (huses c hc)
  obtain ⟨before, hbefore, h⟩ := Option.bind_eq_some_iff.mp h
  obtain ⟨since, hsince, h⟩ := Option.bind_eq_some_iff.mp h
  obtain rfl := Option.some.inj h
  have hplain : ∀ s : String, Reading.Plain (lit s) → (Operand.extract (lit s)).Plain := fun _ h => h
  simp only [List.mem_append, List.mem_map] at hc
  rcases hc with ((⟨s, -, rfl⟩ | ⟨s, -, rfl⟩) | hc) | hc
  · exact ⟨hplain _ (by decide), trivial⟩
  · split_ifs
    · exact hplain _ (by decide)
    · exact ⟨hplain _ (by decide), trivial⟩
  · exact htimes hbefore c hc
  · exact htimes hsince c hc

theorem mem_foldl_addJoin {terms : List Term} {j : Join} : ∀ {js : List Join},
    (j ∈ js ∨ ∃ t ∈ terms, t.join = some j) → j ∈ terms.foldl (fun js t => Search.addJoin js t.join) js := by
  induction terms with
  | nil => exact fun h => h.resolve_right fun ⟨_, ht, _⟩ => absurd ht List.not_mem_nil
  | cons t terms ih =>
      intro js h
      refine ih ?_
      rcases h with h | ⟨t', ht', hj⟩
      · exact .inl (Search.mem_addJoin.mpr (.inl h))
      · rcases List.mem_cons.mp ht' with rfl | ht'
        · exact .inl (Search.mem_addJoin.mpr (.inr hj))
        · exact .inr ⟨t', ht', hj⟩

/-- A search with some terms. -/
theorem foldl_add (terms : List Term) : ∀ s : Search, terms.foldl Search.add s =
    ⟨terms.foldl (fun js t => Search.addJoin js t.join) s.joins, s.conditions ++ terms.flatMap (·.conditions),
      s.phrases ++ terms.flatMap (·.phrases)⟩ := by
  induction terms with
  | nil => intro s; simp
  | cons t terms ih =>
      intro s
      rw [List.foldl_cons, ih]
      simp [Search.add]

/-- The tables of the statement of `events`. -/
theorem eventsBuilder_tables {fts : Bool} {q : EventQueryParams} {b : EventQueryBuilder} (h : eventsBuilder fts q = some b) :
    b.tables = [lit "events"] := by
  have htime : ∀ {op : Comparison} {ts : Option DateTime} {f : EventQueryBuilder → DateTime → Option EventQueryBuilder}
      {b b' : EventQueryBuilder}, (∀ b ts, f b ts = (timeCondition op ts).map fun c => b.append { conditions := [c] }) →
      b.whereTime f ts = some b' → b'.tables = b.tables := by
    intro op ts f b b' hf h
    rw [EventQueryBuilder.whereTime_eq b hf, Option.map_eq_some_iff] at h
    obtain ⟨cs, -, rfl⟩ := h
    rfl
  obtain ⟨b₁, hb₁, h⟩ := Option.bind_eq_some_iff.mp h
  obtain ⟨b₂, hb₂, h⟩ := Option.bind_eq_some_iff.mp h
  obtain ⟨b₃, hb₃, h⟩ := Option.bind_eq_some_iff.mp h
  obtain rfl := Option.some.inj h
  have hle : ∀ b ts, EventQueryBuilder.timestampLte b ts = (timeCondition .le ts).map fun c => b.append { conditions := [c] } :=
    fun b ts => EventQueryBuilder.whereTimestamp_eq b ts rfl
  have hge : ∀ b ts, EventQueryBuilder.timestampGte b ts = (timeCondition .ge ts).map fun c => b.append { conditions := [c] } :=
    fun b ts => EventQueryBuilder.whereTimestamp_eq b ts rfl
  have h₁ := htime hle hb₁
  have h₂ := htime hge hb₂
  obtain ⟨terms, -, rfl⟩ := applyQueryString_some hb₃
  rw [foldl_append_eq]
  dsimp only
  rw [h₂, h₁, EventQueryBuilder.whereSensor_eq, EventQueryBuilder.whereEventType_eq,
    EventQueryBuilder.leftJoinFromQueryString_eq _ _ [] rfl]
  rfl

/-- What the statement of any caller has. -/
theorem exists_made {fts : Bool} {query : List QueryElement} {caller : Caller} {b : EventQueryBuilder}
    (h : caller.builder fts query = some b) : ∃ own terms, caller.Made fts query b own terms := by
  cases caller with
  | events q =>
      have hspells := eventsBuilder_spells fts { q with queryString := query }
      have hb : eventsBuilder fts { q with queryString := query } = some b := h
      rw [hb] at hspells
      cases hs : search fts { q with queryString := query } with
      | none => rw [hs] at hspells; exact nomatch hspells
      | some s =>
          rw [hs] at hspells
          obtain ⟨hspells⟩ := hspells
          obtain ⟨cs, hcs, hs⟩ := Option.bind_eq_some_iff.mp hs
          obtain ⟨terms, hterms, hs⟩ := Option.bind_eq_some_iff.mp hs
          obtain rfl := Option.some.inj hs
          have hwheres := hspells.wheres
          have hjoin := hspells.leftJoin
          rw [foldl_add] at hwheres hjoin
          refine ⟨cs.map Condition.sql, terms, hterms, ?_, ?_, eventsBuilder_tables hb, (nomatch ·), ?_⟩
          · intro clause hclause
            obtain ⟨c, hc, rfl⟩ := List.mem_map.mp hclause
            exact baseConditions_onlyEvents hcs c hc
          · intro clause
            rw [hwheres, List.map_append, List.mem_append, List.map_flatMap, mem_flatMap_conditions]
          · intro _ t ht j hj
            rw [hjoin]
            exact List.mem_map_of_mem (mem_foldl_addJoin (.inr ⟨t, ht, hj⟩))
  | agg field size order =>
      have hown : ∀ b : EventQueryBuilder, b.wheres = [] → ∀ clause ∈ (b.whereKind field).wheres, OnlyEvents clause := by
        intro b hb clause hclause
        unfold EventQueryBuilder.whereKind at hclause
        cases hkind : eventTypeOf field with
        | none =>
            rw [hkind] at hclause
            dsimp only at hclause
            rw [hb] at hclause
            exact absurd hclause List.not_mem_nil
        | some eventType =>
            rw [hkind] at hclause
            dsimp only [EventQueryBuilder.pushWhere] at hclause
            rw [hb] at hclause
            obtain rfl := List.mem_singleton.mp hclause
            exact kind_onlyEvents hkind
      have hframe : ∀ b : EventQueryBuilder, (b.whereKind field).fts = b.fts ∧ (b.whereKind field).tables = b.tables ∧
          (b.whereKind field).leftJoin = b.leftJoin := by
        intro b
        unfold EventQueryBuilder.whereKind
        cases eventTypeOf field <;> exact ⟨rfl, rfl, rfl⟩
      exact ⟨_, made_applyQueryString (hframe _).1 (hframe _).2.1 (hframe _).2.2 rfl (hown _ rfl) h⟩
  | aggStream field =>
      obtain ⟨b', hb', rfl⟩ := Option.map_eq_some_iff.mp h
      have hown : ∀ clause ∈ [lit "agg IS NOT NULL"], OnlyEvents clause := by decide
      obtain ⟨terms, hmade⟩ : ∃ terms, (Caller.aggStream field).Made fts query b' _ terms :=
        made_applyQueryString rfl rfl rfl rfl hown hb'
      obtain ⟨own, hmade⟩ := hmade.whereKind field
      exact ⟨own, terms, hmade⟩
  | histogramTime interval => exact ⟨_, made_applyQueryString rfl rfl rfl rfl (fun _ h => absurd h List.not_mem_nil) h⟩
  | getEventTypes => exact ⟨_, made_applyQueryString rfl rfl rfl rfl (fun _ h => absurd h List.not_mem_nil) h⟩

/-- The clauses of the statement, and the one of the phrases. -/
theorem mem_withPhrases {b : EventQueryBuilder} {clause : SqlText} (h : clause ∈ b.withPhrases.wheres) :
    clause ∈ b.wheres ∨ OnlyEvents clause := by
  unfold EventQueryBuilder.withPhrases at h
  split_ifs at h
  · exact .inl h
  · rcases List.mem_append.mp h with h | h
    · exact .inl h
    · obtain rfl := List.mem_singleton.mp h
      have hnames : ∀ arg, qualifiers (lit "events.rowid in (select rowid from fts where fts match " ++ slot arg ++ lit ")") =
          ["events"] := fun _ => rfl
      refine .inr fun name hname => ?_
      rw [hnames] at hname
      exact List.mem_singleton.mp hname

theorem subset_withPhrases (b : EventQueryBuilder) : b.wheres ⊆ b.withPhrases.wheres := by
  unfold EventQueryBuilder.withPhrases
  split_ifs
  · exact fun _ h => h
  · exact fun _ h => List.mem_append_left _ h

theorem sources_withPhrases (b : EventQueryBuilder) :
    b.withPhrases.tables = b.tables ∧ b.withPhrases.leftJoin = b.leftJoin := by
  unfold EventQueryBuilder.withPhrases
  split_ifs <;> exact ⟨rfl, rfl⟩

/-- The tables that the clauses refer to are all those of the statement if and only if the caller makes the joins of the
query, or no element is about the values of one. -/
theorem introduces_iff {fts : Bool} {query : List QueryElement} {caller : Caller} {b : EventQueryBuilder}
    (h : caller.builder fts query = some b) :
    b.Introduces ↔ caller.joins = true ∨ ∀ e ∈ query, readsJoin e = false := by
  obtain ⟨own, terms, hmade⟩ := exists_made h
  have hevents : "events" ∈ (b.withPhrases.tables ++ b.withPhrases.leftJoin).map aliasOf := by
    rw [(sources_withPhrases b).1, hmade.tables]
    exact List.mem_map.mpr ⟨lit "events", List.mem_append_left _ (List.mem_singleton_self _), by decide⟩
  constructor
  · intro hintroduces
    by_cases hjoins : caller.joins = true
    · exact .inl hjoins
    · refine .inr fun e he => Bool.eq_false_iff.mpr fun hreads => ?_
      obtain ⟨t, hterm⟩ := exists_of_mem_of_mapM hmade.mapM he
      have ht := (mem_of_mapM_eq_some hmade.mapM t).mpr ⟨e, he, hterm⟩
      obtain ⟨c, hc, j, hj⟩ := (term_uses_iff hterm).mpr hreads
      have hclause : c.sql ∈ b.wheres := (hmade.wheres _).mpr (.inr ⟨t, ht, c, hc, rfl⟩)
      have hname : j.name ∈ qualifiers c.sql := by
        rw [qualifiers_sql (term_plain hterm hc)]
        exact Condition.join_mem_names hj
      have hmem := hintroduces _ (subset_withPhrases b hclause) _ hname
      rw [(sources_withPhrases b).1, (sources_withPhrases b).2, hmade.tables,
        hmade.noJoins (Bool.eq_false_iff.mpr hjoins)] at hmem
      cases j with
      | queries => exact absurd hmem (by decide)
      | answers => exact absurd hmem (by decide)
  · intro hcond clause hclause name hname
    rcases mem_withPhrases hclause with hclause | honly
    · rcases (hmade.wheres clause).mp hclause with hown | ⟨t, ht, c, hc, rfl⟩
      · rw [hmade.onlyEvents clause hown name hname]
        exact hevents
      · obtain ⟨e, he, hterm⟩ := (mem_of_mapM_eq_some hmade.mapM t).mp ht
        rw [qualifiers_sql (term_plain hterm hc)] at hname
        rcases Condition.mem_names hname with rfl | ⟨j, hj, rfl⟩
        · exact hevents
        · rcases hcond with hjoins | hreads
          · have hjoin : t.join = some j := by
              cases j with
              | queries => exact (term_within hterm c hc).1 hj
              | answers => exact (term_within hterm c hc).2 hj
            rw [(sources_withPhrases b).2]
            exact List.mem_map.mpr ⟨j.sql, List.mem_append_right _ (hmade.joins hjoins t ht j hjoin), aliasOf_join j⟩
          · have htrue := (term_uses_iff hterm).mp ⟨c, hc, j, hj⟩
            exact absurd ((hreads e he).symm.trans htrue) Bool.false_ne_true
    · rw [honly name hname]
      exact hevents

/-- `dns.rrname:suricata.io`. -/
def rrnameQuery : List QueryElement := [⟨false, .keyValue "dns.rrname" "suricata.io"⟩]

/-- The clauses of `events` refer to the tables that it joins. -/
theorem introduces_iff_events : ∃ b, Caller.builder true rrnameQuery (.events { queryString := [] }) = some b ∧ b.Introduces := by
  obtain ⟨b, hb⟩ : ∃ b, Caller.builder true rrnameQuery (.events { queryString := [] }) = some b := ⟨_, rfl⟩
  exact ⟨b, hb, (introduces_iff hb).mpr (.inl rfl)⟩

/-- `agg` has no table for the name of a request. -/
theorem rrname_not_introduces : ∃ b, Caller.builder false rrnameQuery (.agg "dns.rrname" 10 "desc") = some b ∧
    ¬ b.Introduces :=
  ⟨_, rfl, by decide +kernel⟩

end EveBox.Sqlite
