import EveBox.Lib.Unicode61
import EveBox.Sink.Sqlite
import EveBox.Sqlite.MatchText

/-!
# The full-text index in front of the comparisons

Reference: `src/sqlite/builder.rs` and `src/sqlite/importer.rs`.

Some terms of a query ask the full-text index for the value that they compare a field with. The index has the tokens of
what `extract_values` makes of an event; the comparison is about the values of SQLite.

* `prefilter_iff` — when an index finds all events that the comparisons let through.
-/

namespace EveBox.Sqlite

open Rust Eve Repo Sink

open EventQueryBuilder (resolveKey)

open Unicode61 (Tokenizer)

open Unicode61.Tokenizer (Contains)

/-! ## The texts of an event -/

mutual

/-- The texts that `extract_values` finds in a value. -/
def texts (path : List String) : Json → List String
  | .null | .bool _ => []
  | .number n => [n.text]
  | .string s =>
      if isPrintableField path then ((printableWordsFrom [] s.toList).filter (2 ≤ ·.length)).map String.ofList else [s]
  | .array elems => textsElems path elems
  | .object fields => textsFields path fields

def textsElems (path : List String) : List Json → List String
  | [] => []
  | e :: elems => texts path e ++ textsElems path elems

def textsFields (path : List String) : List (String × Json) → List String
  | [] => []
  | (k, v) :: fields =>
      (if isSkippedKey k || isSkippedPath (path ++ [k]) then [] else texts (path ++ [k]) v) ++ textsFields path fields

end

/-! ## Terms and the index -/

/-- A term for which the index is asked in place of a comparison. -/
def isReplaced (e : QueryElement) : Bool :=
  !e.negated && match e.value with
    | .string _ => true
    | .keyValue k _ => k = "@ip" || k = "@mac"
    | _ => false

/-- The value of a term for which the index is asked in front of a comparison. -/
def prefilterValue (e : QueryElement) : List String :=
  match e.value with
  | .keyValue k v => if !e.negated && isAccelerated (resolveKey k) then [v] else []
  | _ => []

/-- The index of a store: `MATCH` finds the rows that have the phrases of a query, and the rows are those that the importer
has written. -/
structure Indexed (engine : Engine) (t : Tokenizer) (store : List EventRow) : Prop where
  finds : ∀ e ∈ store, ∀ ss : List String, Fts5.Denotes (" AND ".intercalate (ss.map enquote)).toList (ss.map String.toList) →
    (engine.finds ss e.rowid = true ↔ ∀ s ∈ ss, Contains (t.tokens e.sourceValues.toList) (t.tokens s.toList))
  sourceValues : ∀ e ∈ store, e.sourceValues = extractValues e.source

/-- An event has the tokens of a value in its texts. -/
def Occurs (t : Tokenizer) (e : EventRow) (v : String) : Prop :=
  Contains ((texts [] e.source).flatMap fun s => t.tokens s.toList) (t.tokens v.toList)

instance (t : Tokenizer) (e : EventRow) (v : String) : Decidable (Occurs t e v) := by
  unfold Occurs
  infer_instance

/-! ## The tokens of an event -/

mutual

theorem extractInner_eq (path : List String) (output : String) : ∀ j : Json,
    extractInner path output j = (texts path j).foldl pushText output
  | .null => rfl
  | .bool _ => rfl
  | .number _ => rfl
  | .string s => by
      rw [extractInner, texts]
      split_ifs
      · rw [List.foldl_map]
        rfl
      · rfl
  | .array elems => extractElems_eq path output elems
  | .object fields => extractFields_eq path output fields

theorem extractElems_eq (path : List String) (output : String) : ∀ elems : List Json,
    extractElems path output elems = (textsElems path elems).foldl pushText output
  | [] => rfl
  | e :: elems => by
      rw [extractElems, textsElems, List.foldl_append, ← extractInner_eq path output e]
      exact extractElems_eq path _ elems

theorem extractFields_eq (path : List String) (output : String) : ∀ fields : List (String × Json),
    extractFields path output fields = (textsFields path fields).foldl pushText output
  | [] => rfl
  | (k, v) :: fields => by
      rw [extractFields, textsFields, List.foldl_append]
      split_ifs
      · exact extractFields_eq path output fields
      · rw [← extractInner_eq (path ++ [k]) output v]
        exact extractFields_eq path _ fields

end

section

variable {t : Tokenizer}

theorem tokens_pushText (ht : t.Separates ' ') (output text : String) :
    t.tokens (pushText output text).toList = t.tokens output.toList ++ t.tokens text.toList := by
  unfold pushText
  split_ifs with h
  · subst h
    rw [String.empty_append]
    rfl
  · have hspace : (output ++ " " ++ text).toList = output.toList ++ ' ' :: text.toList := by simp
    rw [hspace, Unicode61.Tokenizer.tokens_separated ht]

theorem tokens_foldl (ht : t.Separates ' ') : ∀ (ss : List String) (output : String),
    t.tokens (ss.foldl pushText output).toList = t.tokens output.toList ++ ss.flatMap fun s => t.tokens s.toList
  | [], output => by simp
  | s :: ss, output => by
      rw [List.foldl_cons, tokens_foldl ht ss, tokens_pushText ht, List.flatMap_cons, List.append_assoc]

/-- The tokens of what `extract_values` gives are those of the texts, one after the other. -/
theorem tokens_extractValues (ht : t.Separates ' ') (j : Json) :
    t.tokens (extractValues j).toList = (texts [] j).flatMap fun s => t.tokens s.toList := by
  rw [extractValues, extractInner_eq, tokens_foldl ht]
  rfl

/-- A value that is one of the texts is found, if it has a token. -/
theorem occurs_of_mem {e : EventRow} {v : String} (hmem : v ∈ texts [] e.source) (hne : t.tokens v.toList ≠ []) :
    Occurs t e v := by
  have hcontains := Unicode61.Tokenizer.contains_flatMap (List.mem_map_of_mem hmem) hne
  rwa [List.flatMap_map] at hcontains

end

/-! ## The searches with the index and without it -/

theorem resolveKey_address {k : String} (h : resolveKey k = "@ip" ∨ resolveKey k = "@mac") : k = "@ip" ∨ k = "@mac" := by
  unfold resolveKey at h
  split_ifs at h
  · exact absurd h (by decide)
  · exact absurd h (by decide)
  · exact h

/-- With the index, a term has the value in front of the comparison; without it, it has the comparison alone. -/
theorem term_true {el : QueryElement} (h : isReplaced el = false) :
    term true el = (term false el).map fun t => { t with phrases := prefilterValue el } := by
  have htime : ∀ {op : Comparison} {ts : DateTime}, (timeCondition op ts).map (fun c => ({ conditions := [c] } : Term)) =
      ((timeCondition op ts).map fun c => ({ conditions := [c] } : Term)).map fun t => { t with phrases := [] } := by
    intro op ts
    cases timeCondition op ts <;> rfl
  obtain ⟨negated, value⟩ := el
  cases value with
  | string s =>
      obtain rfl : negated = true := by simpa [isReplaced] using h
      rfl
  | keyValue k v =>
      cases negated with
      | true =>
          show some _ = some _
          unfold keyTerm
          by_cases haddr : resolveKey k = "@ip" ∨ resolveKey k = "@mac"
          · rw [if_pos haddr, if_pos haddr]
            rfl
          · rw [if_neg haddr, if_neg haddr]
            rfl
      | false =>
          have hkey : ¬ (resolveKey k = "@ip" ∨ resolveKey k = "@mac") := fun haddr => by
            rcases resolveKey_address haddr with rfl | rfl
            · exact absurd h (by simp [isReplaced])
            · exact absurd h (by simp [isReplaced])
          show some _ = some _
          unfold keyTerm
          rw [if_neg hkey, if_neg hkey]
          rfl
  | fromTime ts => exact htime
  | toTime ts => exact htime
  | after ts => exact htime
  | before ts => exact htime
  | archived => rfl
  | escalated => rfl

theorem term_false_phrases {el : QueryElement} {t : Term} (h : isReplaced el = false) (ht : term false el = some t) :
    t.phrases = [] := by
  have htime : ∀ {op : Comparison} {ts : DateTime}, (timeCondition op ts).map (fun c => ({ conditions := [c] } : Term)) =
      some t → t.phrases = [] := by
    intro op ts ht
    obtain ⟨c, -, rfl⟩ := Option.map_eq_some_iff.mp ht
    rfl
  have hanywhere : ∀ negated s, (anywhereTerm false negated s).phrases = [] := by
    intro negated s
    cases negated <;> rfl
  obtain ⟨negated, value⟩ := el
  cases value with
  | string s =>
      obtain rfl := Option.some.inj ht
      exact hanywhere negated s
  | keyValue k v =>
      obtain rfl := Option.some.inj ht
      show (keyTerm false negated (resolveKey k) v).phrases = []
      unfold keyTerm
      by_cases haddr : resolveKey k = "@ip" ∨ resolveKey k = "@mac"
      · rw [if_pos haddr]
        exact hanywhere negated v
      · rw [if_neg haddr]
        cases negated <;> rfl
  | fromTime ts => exact htime ht
  | toTime ts => exact htime ht
  | after ts => exact htime ht
  | before ts => exact htime ht
  | archived =>
      obtain rfl := Option.some.inj ht
      rfl
  | escalated =>
      obtain rfl := Option.some.inj ht
      rfl

/-- The terms of a query with the index, and without it. -/
theorem mapM_term_true {q : List QueryElement} (hq : ∀ el ∈ q, isReplaced el = false) : ∀ {terms : List Term},
    q.mapM (term false) = some terms → terms.flatMap (·.phrases) = [] ∧ ∃ terms', q.mapM (term true) = some terms' ∧
      terms'.map (·.join) = terms.map (·.join) ∧ terms'.flatMap (·.conditions) = terms.flatMap (·.conditions) ∧
      terms'.flatMap (·.phrases) = q.flatMap prefilterValue := by
  induction q with
  | nil =>
      intro terms h
      obtain rfl := Option.some.inj h
      exact ⟨rfl, [], rfl, rfl, rfl, rfl⟩
  | cons el q ih =>
      intro terms h
      obtain ⟨hel, hq⟩ := List.forall_mem_cons.mp hq
      rw [List.mapM_cons] at h
      obtain ⟨t, ht, h⟩ := Option.bind_eq_some_iff.mp h
      obtain ⟨rest, hrest, h⟩ := Option.bind_eq_some_iff.mp h
      obtain rfl := Option.some.inj h
      obtain ⟨hnone, terms', hterms', hjoins, hconditions, hphrases⟩ := ih hq hrest
      refine ⟨by rw [List.flatMap_cons, term_false_phrases hel ht, hnone]; rfl,
        { t with phrases := prefilterValue el } :: terms', ?_, ?_, ?_, ?_⟩
      · rw [List.mapM_cons, term_true hel, ht, hterms']
        rfl
      · rw [List.map_cons, List.map_cons, hjoins]
      · rw [List.flatMap_cons, List.flatMap_cons, hconditions]
      · rw [List.flatMap_cons, List.flatMap_cons, hphrases]

theorem foldl_addJoin (terms : List Term) : ∀ js : List Join, terms.foldl (fun js t => Search.addJoin js t.join) js =
    (terms.map (·.join)).foldl Search.addJoin js := by
  intro js
  rw [List.foldl_map]

/-- The search with the index is the one without it, and its phrases. -/
theorem search_true {q : EventQueryParams} (hq : ∀ el ∈ q.queryString, isReplaced el = false) {s : Search}
    (h : search false q = some s) :
    s.phrases = [] ∧ search true q = some { s with phrases := q.queryString.flatMap prefilterValue } := by
  obtain ⟨cs, hcs, h⟩ := Option.bind_eq_some_iff.mp h
  obtain ⟨terms, hterms, h⟩ := Option.bind_eq_some_iff.mp h
  obtain rfl := Option.some.inj h
  obtain ⟨hnone, terms', hterms', hjoins, hconditions, hphrases⟩ := mapM_term_true hq hterms
  have hsearch : search true q = some (terms'.foldl Search.add { conditions := cs }) := by
    rw [search, hcs]
    simp only [Option.bind_eq_bind, Option.bind_some, hterms']
  rw [hsearch, foldl_add, foldl_add, foldl_addJoin, foldl_addJoin, hjoins, hconditions, hphrases, hnone]
  exact ⟨rfl, rfl⟩

/-- With the index, a query gives the events that it gives without it if and only if each of these has the tokens of the
values that the index is asked for. -/
theorem prefilter_iff {engine : Engine} {t : Tokenizer} {store : List EventRow} {q : EventQueryParams} {s s' : Search}
    (hindexed : Indexed engine t store) (ht : t.Separates ' ') (hq : ∀ el ∈ q.queryString, isReplaced el = false)
    (hclean : ∀ v ∈ q.queryString.flatMap prefilterValue, Fts5.Clean v.toList)
    (hs : events engine true q = some s) (hs' : events engine false q = some s') :
    (∀ e ∈ store, s.selects engine e = s'.selects engine e) ↔
      ∀ e ∈ store, s'.selects engine e = true → ∀ v ∈ q.queryString.flatMap prefilterValue, Occurs t e v := by
  have hsearch := search_of_events hs
  obtain ⟨hnone, htrue⟩ := search_true hq (search_of_events hs')
  obtain rfl := Option.some.inj (hsearch.symm.trans htrue)
  generalize q.queryString.flatMap prefilterValue = values at *
  have hfound : ∀ e ∈ store, ({ s' with phrases := values } : Search).found engine e = true ↔ ∀ v ∈ values, Occurs t e v := by
    intro e he
    cases values with
    | nil => simp [Search.found]
    | cons v values =>
        have hdenotes : Fts5.Denotes (" AND ".intercalate ((v :: values).map enquote)).toList
            ((v :: values).map String.toList) := by
          rw [intercalate_enquote (List.cons_ne_nil v values), Fts5.denotes_iff (by simp)]
          exact List.forall_mem_map.mpr hclean
        have hfinds := hindexed.finds e he (v :: values) hdenotes
        rw [hindexed.sourceValues e he, tokens_extractValues ht] at hfinds
        exact hfinds
  have hplain : ∀ e, s'.found engine e = true := fun e => by rw [Search.found, hnone]; rfl
  refine forall₂_congr fun e he => ?_
  have hselects : ({ s' with phrases := values } : Search).selects engine e =
      (({ s' with phrases := values } : Search).found engine e && s'.selects engine e) := by
    rw [Search.selects, Search.selects, hplain e, Bool.true_and]
    rfl
  rw [hselects, ← hfound e he]
  cases s'.selects engine e <;> simp

/-- The letters and digits of ASCII. -/
def asciiTokenizer : Tokenizer where
  isToken := Char.isAlphanum
  isDiacritic _ := false
  fold c := [c.toLower]

theorem asciiTokenizer_space : asciiTokenizer.Separates ' ' := by
  unfold Unicode61.Tokenizer.Separates
  decide

/-- A lease of an hour. -/
def leaseEvent : EventRow :=
  ⟨1, 0, false, false, .object [("dhcp", .object [("lease_time", .number (.int 3600))])], "3600", []⟩

/-- The index of a table with this event. -/
def leaseEngine : Engine :=
  { plainEngine with
    finds := fun ss _ => ss.all fun s =>
      decide (Contains (asciiTokenizer.tokens leaseEvent.sourceValues.toList) (asciiTokenizer.tokens s.toList)) }

theorem leaseEngine_indexed : Indexed leaseEngine asciiTokenizer [leaseEvent] := by
  refine ⟨?_, ?_⟩
  · intro e he ss _
    obtain rfl := List.mem_singleton.mp he
    simp only [leaseEngine, List.all_eq_true, decide_eq_true_iff]
  · intro e he
    obtain rfl := List.mem_singleton.mp he
    decide

def leaseQuery (v : String) : EventQueryParams := { queryString := [⟨false, .keyValue "dhcp.lease_time" v⟩] }

theorem events_lease (fts : Bool) : events leaseEngine fts (leaseQuery "3600") =
    some ⟨[], [fieldCondition .eq "dhcp.lease_time" "3600"], if fts then ["3600"] else []⟩ := by
  cases fts <;> decide +kernel

theorem events_leadingZero (fts : Bool) : events leaseEngine fts (leaseQuery "03600") =
    some ⟨[], [fieldCondition .eq "dhcp.lease_time" "03600"], if fts then ["03600"] else []⟩ := by
  cases fts <;> decide +kernel

/-- A number as it is in the event. -/
theorem prefilter_iff_lease :
    (⟨[], [fieldCondition .eq "dhcp.lease_time" "3600"], ["3600"]⟩ : Search).selects leaseEngine leaseEvent =
      (⟨[], [fieldCondition .eq "dhcp.lease_time" "3600"], []⟩ : Search).selects leaseEngine leaseEvent :=
  (prefilter_iff leaseEngine_indexed asciiTokenizer_space (by decide) (by decide) (events_lease true)
    (events_lease false)).mpr (by decide) leaseEvent (List.mem_singleton_self leaseEvent)

/-- A number with a zero in front is compared as a number, but looked up as a text. -/
theorem leadingZero_lost : Indexed leaseEngine asciiTokenizer [leaseEvent] ∧ ∃ s s',
    events leaseEngine true (leaseQuery "03600") = some s ∧ events leaseEngine false (leaseQuery "03600") = some s' ∧
      s.selects leaseEngine leaseEvent = false ∧ s'.selects leaseEngine leaseEvent = true :=
  ⟨leaseEngine_indexed, _, _, events_leadingZero true, events_leadingZero false, by decide +kernel,
    by decide +kernel⟩

end EveBox.Sqlite
