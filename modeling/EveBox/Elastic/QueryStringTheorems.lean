import EveBox.Elastic.QueryString
import EveBox.Rust.Result

/-!
# What a query string asks Elasticsearch for

A query is meant to ask for the documents that satisfy every element. The callers put the clauses together so that this
is what they ask for, but for a negated `@mac`, which is asked for as if it were not negated, for several `@ip`,
of which one is enough, and for the `@ip` of a histogram, which is not asked for: `query_denotes_iff`.
-/

namespace EveBox.Elastic

open Rust Eve Repo

namespace Clauses

def append (clauses clauses' : Clauses) : Clauses where
  filter := clauses.filter ++ clauses'.filter
  should := clauses.should ++ clauses'.should
  mustNot := clauses.mustNot ++ clauses'.mustNot

/-- The clauses without those of `should`. -/
def Rest (holds : Leaf → Bool) (clauses : Clauses) : Prop :=
  (∀ c ∈ clauses.filter, c.matches holds = true) ∧ ∀ c ∈ clauses.mustNot, c.matches holds = false

variable {clauses clauses' : Clauses} {holds : Leaf → Bool}

theorem append_nil (clauses : Clauses) : clauses.append {} = clauses := by
  simp [append]

theorem nil_append (clauses : Clauses) : append {} clauses = clauses := rfl

theorem append_assoc (a b c : Clauses) : (a.append b).append c = a.append (b.append c) := by
  simp [append]

theorem rest_append : (clauses.append clauses').Rest holds ↔ clauses.Rest holds ∧ clauses'.Rest holds := by
  unfold Rest append
  simp only [List.forall_mem_append]
  tauto

theorem pushFilter_eq_append (clauses : Clauses) (c : Clause) :
    clauses.pushFilter c = clauses.append (pushFilter {} c) := by
  simp [pushFilter, append]

theorem push_eq_append (clauses : Clauses) (negated : Bool) (c : Clause) :
    clauses.push negated c = clauses.append (push {} negated c) := by
  cases negated <;> simp [push, pushFilter, pushMustNot, append]

theorem rest_pushFilter (c : Clause) : (pushFilter {} c).Rest holds ↔ c.matches holds = true := by
  simp [Rest, pushFilter]

/-- A clause of an element asks for what the element means. -/
theorem rest_push (negated : Bool) (c : Clause) : (push {} negated c).Rest holds ↔ c.matches holds = !negated := by
  cases negated <;> simp [Rest, push, pushFilter, pushMustNot]

theorem should_push (negated : Bool) (c : Clause) : (push {} negated c).should = [] := by
  cases negated <;> rfl

end Clauses

namespace ElasticEventRepo

section

variable (repo : ElasticEventRepo) (lib : TimeLib) (holds : Leaf → Bool)

/-! ## What an element means -/

/-- Whether a document is one that a value is about. -/
def meaning : QueryValue → Bool
  | .string v => holds (queryStringQuery v)
  | .keyValue k v =>
      if k = "@mac" then holds (.multiMatch v)
      else if k = "@ip" then (repo.ipTerms v).any holds
      else if k = "dns.type" then (repo.dnsTypeClause k v).matches holds
      else if k = "host" then
        if v = "(no-name)" then !holds (.exists_ (repo.mapField "host")) else holds (.term (repo.mapField "host") v)
      else (repo.keyClause k v).matches holds
  | .fromTime ts => (timestampFilter lib "gte" ts).matches holds
  | .toTime ts => (timestampFilter lib "lte" ts).matches holds
  | .after ts => (timestampFilter lib "gt" ts).matches holds
  | .before ts => (timestampFilter lib "lt" ts).matches holds
  | .archived => (tagTerm "evebox.archived").matches holds
  | .escalated => (tagTerm "evebox.escalated").matches holds

/-- A document satisfies an element if it is one that the value is about, and the element is not negated, or if it is
neither. -/
def Satisfies (el : QueryElement) : Prop := repo.meaning lib holds el.value = !el.negated

/-- A value with a key. -/
def hasKey (key : String) : QueryValue → Bool
  | .keyValue k _ => k = key
  | _ => false

/-- A time. -/
def isTime : QueryValue → Bool
  | .fromTime _ | .toTime _ | .after _ | .before _ => true
  | _ => false

def negatedMac (el : QueryElement) : Bool := el.negated && hasKey "@mac" el.value

def positiveIp (el : QueryElement) : Bool := !el.negated && hasKey "@ip" el.value

/-- The clauses of an element. -/
def elementClauses (el : QueryElement) : Clauses := repo.applyElement lib {} el

variable {repo lib holds}

theorem applyKeyValue_eq_append (negated : Bool) (k v : String) (clauses : Clauses) :
    repo.applyKeyValue negated k v clauses = clauses.append (repo.applyKeyValue negated k v {}) := by
  unfold applyKeyValue
  by_cases hmac : k = "@mac"
  · rw [if_pos hmac, if_pos hmac]
    exact Clauses.pushFilter_eq_append _ _
  rw [if_neg hmac, if_neg hmac]
  by_cases hip : k = "@ip"
  · rw [if_pos hip, if_pos hip]
    cases negated <;> simp [Clauses.append]
  rw [if_neg hip, if_neg hip]
  by_cases hdns : k = "dns.type"
  · rw [if_pos hdns, if_pos hdns]
    exact Clauses.push_eq_append _ _ _
  rw [if_neg hdns, if_neg hdns]
  by_cases hhost : k = "host"
  · rw [if_pos hhost, if_pos hhost]
    by_cases hname : v = "(no-name)"
    · rw [if_pos hname, if_pos hname]
      exact Clauses.pushFilter_eq_append _ _
    · rw [if_neg hname, if_neg hname]
      exact Clauses.push_eq_append _ _ _
  · rw [if_neg hhost, if_neg hhost]
    exact Clauses.push_eq_append _ _ _

/-- An element adds its clauses, whatever is there. -/
theorem applyElement_eq_append (clauses : Clauses) (el : QueryElement) :
    repo.applyElement lib clauses el = clauses.append (repo.elementClauses lib el) := by
  unfold elementClauses applyElement
  rcases el with ⟨negated, value⟩
  match value with
  | .string v => exact Clauses.push_eq_append _ _ _
  | .keyValue k v => exact applyKeyValue_eq_append negated k v clauses
  | .fromTime ts => exact Clauses.pushFilter_eq_append _ _
  | .toTime ts => exact Clauses.pushFilter_eq_append _ _
  | .after ts => exact Clauses.pushFilter_eq_append _ _
  | .before ts => exact Clauses.pushFilter_eq_append _ _
  | .archived => exact Clauses.push_eq_append _ _ _
  | .escalated => exact Clauses.push_eq_append _ _ _

theorem applyQueryString_eq_append (q : List QueryElement) (clauses : Clauses) :
    repo.applyQueryString lib q clauses = clauses.append (repo.applyQueryString lib q {}) := by
  unfold applyQueryString
  induction q generalizing clauses with
  | nil => exact (Clauses.append_nil clauses).symm
  | cons el q ih =>
      rw [List.foldl_cons, List.foldl_cons, ih, applyElement_eq_append, ih (repo.applyElement lib {} el),
        Clauses.append_assoc]
      rfl

theorem applyQueryString_cons (el : QueryElement) (q : List QueryElement) :
    repo.applyQueryString lib (el :: q) {} = (repo.elementClauses lib el).append (repo.applyQueryString lib q {}) :=
  applyQueryString_eq_append q (repo.elementClauses lib el)

/-- The clauses of a query but for those of `should` are those of its elements. -/
theorem rest_applyQueryString (q : List QueryElement) :
    (repo.applyQueryString lib q {}).Rest holds ↔ ∀ el ∈ q, (repo.elementClauses lib el).Rest holds := by
  induction q with
  | nil => simp [applyQueryString, Clauses.Rest]
  | cons el q ih => rw [applyQueryString_cons, Clauses.rest_append, ih, List.forall_mem_cons]

theorem mem_should_applyQueryString (q : List QueryElement) (c : Clause) :
    c ∈ (repo.applyQueryString lib q {}).should ↔ ∃ el ∈ q, c ∈ (repo.elementClauses lib el).should := by
  induction q with
  | nil => simp [applyQueryString]
  | cons el q ih => rw [applyQueryString_cons, Clauses.append, List.mem_append, ih, List.exists_mem_cons_iff]

/-! ## The clauses of an element -/

theorem eq_keyValue_of_hasKey {key : String} {value : QueryValue} (h : hasKey key value = true) :
    ∃ v, value = .keyValue key v := by
  unfold hasKey at h
  split at h
  · rename_i k v
    exact ⟨v, by rw [decide_eq_true_eq.mp h]⟩
  · cases h

theorem eq_of_negatedMac {el : QueryElement} (h : negatedMac el = true) :
    ∃ v, el = ⟨true, .keyValue "@mac" v⟩ := by
  obtain ⟨negated, value⟩ := el
  rw [negatedMac, Bool.and_eq_true] at h
  obtain ⟨v, hvalue⟩ := eq_keyValue_of_hasKey h.2
  exact ⟨v, congrArg₂ QueryElement.mk h.1 hvalue⟩

theorem eq_of_positiveIp {el : QueryElement} (h : positiveIp el = true) :
    ∃ v, el = ⟨false, .keyValue "@ip" v⟩ := by
  obtain ⟨negated, value⟩ := el
  rw [positiveIp, Bool.and_eq_true, Bool.not_eq_true'] at h
  obtain ⟨v, hvalue⟩ := eq_keyValue_of_hasKey h.2
  exact ⟨v, congrArg₂ QueryElement.mk h.1 hvalue⟩

/-- A negated `@mac` is asked for as if it were not negated. -/
theorem rest_of_negatedMac {el : QueryElement} (h : negatedMac el = true) :
    (repo.elementClauses lib el).Rest holds ↔ repo.meaning lib holds el.value = true := by
  obtain ⟨v, rfl⟩ := eq_of_negatedMac h
  exact Clauses.rest_pushFilter _

/-- An `@ip` is asked for in `should` only. -/
theorem clauses_of_positiveIp {el : QueryElement} (h : positiveIp el = true) :
    (repo.elementClauses lib el).Rest holds ∧ (repo.elementClauses lib el).should ≠ [] ∧
      ((∃ c ∈ (repo.elementClauses lib el).should, c.matches holds = true) ↔ repo.Satisfies lib holds el) := by
  obtain ⟨v, rfl⟩ := eq_of_positiveIp h
  have hshould : (repo.elementClauses lib ⟨false, .keyValue "@ip" v⟩).should = (repo.ipTerms v).map .leaf := rfl
  have hmeaning : repo.meaning lib holds (.keyValue "@ip" v) = (repo.ipTerms v).any holds := rfl
  refine ⟨⟨nofun, nofun⟩, nofun, ?_⟩
  rw [hshould, Satisfies, hmeaning, Bool.not_false, List.any_eq_true]
  simp only [List.mem_map, exists_exists_and_eq_and]
  rfl

/-- All other elements are asked for as they are meant. -/
theorem clauses_of_plain {el : QueryElement} (hmac : negatedMac el = false) (hip : positiveIp el = false)
    (htime : isTime el.value = true → el.negated = false) :
    (repo.elementClauses lib el).should = [] ∧
      ((repo.elementClauses lib el).Rest holds ↔ repo.Satisfies lib holds el) := by
  obtain ⟨negated, value⟩ := el
  unfold elementClauses applyElement Satisfies
  match value with
  | .string v => exact ⟨Clauses.should_push _ _, Clauses.rest_push _ _⟩
  | .archived => exact ⟨Clauses.should_push _ _, Clauses.rest_push _ _⟩
  | .escalated => exact ⟨Clauses.should_push _ _, Clauses.rest_push _ _⟩
  | .fromTime ts => exact ⟨rfl, by rw [htime rfl]; exact Clauses.rest_pushFilter _⟩
  | .toTime ts => exact ⟨rfl, by rw [htime rfl]; exact Clauses.rest_pushFilter _⟩
  | .after ts => exact ⟨rfl, by rw [htime rfl]; exact Clauses.rest_pushFilter _⟩
  | .before ts => exact ⟨rfl, by rw [htime rfl]; exact Clauses.rest_pushFilter _⟩
  | .keyValue k v =>
      dsimp only [meaning]
      unfold applyKeyValue
      by_cases hk : k = "@mac"
      · rw [if_pos hk, if_pos hk]
        have hpositive : negated = false := by simpa [negatedMac, hasKey, hk] using hmac
        rw [hpositive]
        exact ⟨rfl, Clauses.rest_pushFilter _⟩
      rw [if_neg hk, if_neg hk]
      by_cases hk : k = "@ip"
      · rw [if_pos hk, if_pos hk]
        have hnegated : negated = true := by simpa [positiveIp, hasKey, hk] using hip
        rw [hnegated]
        refine ⟨rfl, ?_⟩
        simp [Clauses.Rest, Clause.matches, List.any_eq_false]
      rw [if_neg hk, if_neg hk]
      by_cases hk : k = "dns.type"
      · rw [if_pos hk, if_pos hk]
        exact ⟨Clauses.should_push _ _, Clauses.rest_push _ _⟩
      rw [if_neg hk, if_neg hk]
      by_cases hk : k = "host"
      · rw [if_pos hk, if_pos hk]
        by_cases hname : v = "(no-name)"
        · rw [if_pos hname, if_pos hname]
          refine ⟨rfl, (Clauses.rest_pushFilter _).trans ?_⟩
          cases negated with
          | true => simp [Clause.matches]
          | false => simp [Clause.matches, BoolClauses.accepts_mustNot]
        · rw [if_neg hname, if_neg hname]
          exact ⟨Clauses.should_push _ _, Clauses.rest_push _ _⟩
      · rw [if_neg hk, if_neg hk]
        exact ⟨Clauses.should_push _ _, Clauses.rest_push _ _⟩

end

/-! ## Callers -/

/-- What puts the clauses of a query string into a query. -/
inductive Caller
  | events (params : EventQueryParams)
  | agg
  | histogramTime
  | inbox (options : AlertQueryOptions)

namespace Caller

section

variable (repo : ElasticEventRepo) (lib : TimeLib)

/-- The query of a caller. -/
def query : Caller → List QueryElement → BoolClauses Clause
  | events params, q => repo.eventsQuery lib params q
  | agg, q => repo.aggQuery lib q
  | histogramTime, q => repo.histogramTimeQuery lib q
  | inbox options, q => repo.inboxQuery lib options q

/-- What a caller asks for besides the elements. A least timestamp of the inbox gives way to one of the elements. -/
def own : Caller → List QueryElement → Clauses
  | events params, _ => {
      filter := [.leaf (.exists_ (repo.mapField "event_type"))] ++
        (params.eventType.toList.map fun eventType => .leaf (.term (repo.mapField "event_type") eventType)) ++
        repo.sensorFilter params.sensor ++ (params.fromTime.toList.map (timestampFilter lib "gte")) ++
        params.toTime.toList.map (timestampFilter lib "lte") }
  | agg, _ => { filter := [.leaf (.exists_ (repo.mapField "event_type"))] }
  | histogramTime, _ => { filter := [.leaf (.exists_ (repo.mapField "event_type"))] }
  | inbox options, q => options.tags.foldl pushTag {
      filter := [.leaf (.exists_ (repo.mapField "event_type")),
        .leaf (.term (repo.mapField "event_type") "alert")] ++ repo.sensorFilter options.sensor ++
        if q.any isFrom then [] else options.timestampGte.toList.map (timestampFilter lib "gte") }

/-- The query denotes what the caller asks for and the conjunction of the elements, whatever the leaves mean. -/
def Denotes (c : Caller) (q : List QueryElement) : Prop :=
  ∀ holds : Leaf → Bool, (c.query repo lib q).accepts (Clause.matches holds) = true ↔
    (c.own repo lib q).Rest holds ∧ ∀ el ∈ q, repo.Satisfies lib holds el

end

/-- How many positive `@ip` the caller can ask for. -/
def ipLimit : Caller → ℕ
  | histogramTime => 0
  | _ => 1

/-- The tags of the options. -/
def tags : Caller → List String
  | inbox options => options.tags
  | _ => []

end Caller

section

variable {repo : ElasticEventRepo} {lib : TimeLib} {holds : Leaf → Bool}

theorem accepts_withShould (clauses : Clauses) :
    clauses.withShould.accepts (Clause.matches holds) = true ↔
      clauses.Rest holds ∧ (clauses.should ≠ [] → ∃ c ∈ clauses.should, c.matches holds = true) := by
  unfold Clauses.withShould
  by_cases hshould : clauses.should = []
  · rw [if_pos (List.isEmpty_iff.mpr hshould), BoolClauses.accepts_of_should_nil rfl rfl]
    exact (and_iff_left fun h => absurd hshould h).symm
  · rw [if_neg (fun h => hshould (List.isEmpty_iff.mp h)), BoolClauses.accepts_of_minimum_one rfl]
    exact and_congr_right fun _ => ⟨fun h _ => h, fun h => h hshould⟩

theorem pushTag_eq_append (clauses : Clauses) (tag : String) :
    pushTag clauses tag = clauses.append (pushTag {} tag) := by
  unfold pushTag
  split
  · simp [Clauses.pushMustNot, Clauses.append]
  · exact Clauses.pushFilter_eq_append _ _

theorem foldl_pushTag (tags : List String) (clauses : Clauses) :
    tags.foldl pushTag clauses = clauses.append (tags.foldl pushTag {}) := by
  induction tags generalizing clauses with
  | nil => exact (Clauses.append_nil clauses).symm
  | cons tag tags ih =>
      rw [List.foldl_cons, List.foldl_cons, ih, pushTag_eq_append, ih (pushTag {} tag), Clauses.append_assoc]

theorem should_foldl_pushTag (tags : List String) : (tags.foldl pushTag {}).should = [] := by
  induction tags with
  | nil => rfl
  | cons tag tags ih =>
      rw [List.foldl_cons, foldl_pushTag, Clauses.append, ih, List.append_nil]
      unfold pushTag
      split <;> rfl

/-- The query of a caller asks for what is its own, for what every element adds, and for one of the `should` clauses
if it takes them and there are some. -/
theorem accepts_query (c : Caller) (q : List QueryElement) :
    (c.query repo lib q).accepts (Clause.matches holds) = true ↔
      ((c.own repo lib q).Rest holds ∧ ∀ el ∈ q, (repo.elementClauses lib el).Rest holds) ∧
      (c.ipLimit = 1 → (∃ el ∈ q, (repo.elementClauses lib el).should ≠ []) →
        ∃ el ∈ q, ∃ cl ∈ (repo.elementClauses lib el).should, cl.matches holds = true) := by
  have hshould : ((repo.applyQueryString lib q {}).should ≠ [] →
      ∃ cl ∈ (repo.applyQueryString lib q {}).should, cl.matches holds = true) ↔
      ((∃ el ∈ q, (repo.elementClauses lib el).should ≠ []) →
        ∃ el ∈ q, ∃ cl ∈ (repo.elementClauses lib el).should, cl.matches holds = true) := by
    have hmem : ∀ cl, cl ∈ (repo.applyQueryString lib q {}).should ↔
        ∃ el ∈ q, cl ∈ (repo.elementClauses lib el).should := mem_should_applyQueryString q
    refine imp_congr ?_ ?_
    · constructor
      · intro hne
        obtain ⟨cl, hcl⟩ := List.exists_mem_of_ne_nil _ hne
        obtain ⟨el, hel, hcl⟩ := (hmem cl).mp hcl
        exact ⟨el, hel, List.ne_nil_of_mem hcl⟩
      · rintro ⟨el, hel, hne⟩
        obtain ⟨cl, hcl⟩ := List.exists_mem_of_ne_nil _ hne
        exact List.ne_nil_of_mem ((hmem cl).mpr ⟨el, hel, hcl⟩)
    · constructor
      · rintro ⟨cl, hcl, hmatches⟩
        obtain ⟨el, hel, hcl⟩ := (hmem cl).mp hcl
        exact ⟨el, hel, cl, hcl, hmatches⟩
      · rintro ⟨el, hel, cl, hcl, hmatches⟩
        exact ⟨cl, (hmem cl).mpr ⟨el, hel, hcl⟩, hmatches⟩
  rw [← rest_applyQueryString, ← hshould]
  match c with
  | .events params =>
      show (repo.eventsQuery lib params q).accepts _ = true ↔ _
      rw [eventsQuery, accepts_withShould, applyQueryString_eq_append]
      refine and_congr ?_ (by simp [Caller.ipLimit, Clauses.append])
      simp only [Clauses.Rest, Clauses.append, Caller.own, List.forall_mem_append]
      tauto
  | .agg =>
      show (repo.aggQuery lib q).accepts _ = true ↔ _
      rw [aggQuery, accepts_withShould]
      refine and_congr ?_ (by simp [Caller.ipLimit, Clauses.pushFilter])
      simp only [Clauses.Rest, Clauses.pushFilter, Caller.own, List.forall_mem_append]
      tauto
  | .histogramTime =>
      show (repo.histogramTimeQuery lib q).accepts _ = true ↔ _
      rw [histogramTimeQuery, BoolClauses.accepts_of_should_nil rfl rfl, applyQueryString_eq_append]
      refine Iff.trans ?_ (and_iff_left (by simp [Caller.ipLimit])).symm
      simp only [BoolClauses.Rest, Clauses.Rest, Clauses.append, Caller.own, List.forall_mem_append]
      tauto
  | .inbox options =>
      have hown : Caller.own repo lib (.inbox options) q = Clauses.append _ _ := foldl_pushTag _ _
      show (repo.inboxQuery lib options q).accepts _ = true ↔ _
      rw [inboxQuery, accepts_withShould, foldl_pushTag, hown, Clauses.rest_append, Clauses.rest_append]
      refine and_congr ?_ (by simp [Caller.ipLimit, Clauses.append, should_foldl_pushTag])
      simp only [Clauses.Rest, List.forall_mem_append]
      generalize options.tags.foldl pushTag {} = pushed
      tauto

end

/-! ## Queries that denote their elements -/

/-- The tag that an element asks about. -/
def tagOf : QueryValue → Option String
  | .archived => some "evebox.archived"
  | .escalated => some "evebox.escalated"
  | _ => none

/-- An element without its text. -/
def kind (el : QueryElement) : QueryElement where
  negated := el.negated
  value := match el.value with
    | .string _ => .string ""
    | .keyValue k _ => .keyValue k ""
    | value => value

namespace Caller

/-- The tags that are asked for. -/
def requiredTags (c : Caller) (q : List QueryElement) : List String :=
  c.tags.filter (fun tag => (stripMinus tag).isNone) ++
    q.filterMap fun el => if el.negated then none else tagOf el.value

/-- The tags that are excluded. -/
def excludedTags (c : Caller) (q : List QueryElement) : List String :=
  c.tags.filterMap stripMinus ++ q.filterMap fun el => if el.negated then tagOf el.value else none

/-- A tag is asked for and excluded. -/
def Contradicts (c : Caller) (q : List QueryElement) : Prop := ∃ tag ∈ c.requiredTags q, tag ∈ c.excludedTags q

/-- No `@mac` is negated, and there are no more positive `@ip` than the caller can ask for. -/
def Handles (c : Caller) (q : List QueryElement) : Prop :=
  (∀ el ∈ q, negatedMac el = false) ∧ q.countP positiveIp ≤ c.ipLimit

end Caller

section

variable {repo : ElasticEventRepo} {lib : TimeLib} {holds : Leaf → Bool}

theorem matches_tagTerm (tag : String) : (tagTerm tag).matches holds = holds (.term "tags" tag) := rfl

/-- The tags of the options: those with a minus sign are excluded, the others asked for. -/
theorem rest_foldl_pushTag (tags : List String) : (tags.foldl pushTag {}).Rest holds ↔
    (∀ tag ∈ tags.filter (fun tag => (stripMinus tag).isNone), holds (.term "tags" tag) = true) ∧
      ∀ tag ∈ tags.filterMap stripMinus, holds (.term "tags" tag) = false := by
  induction tags with
  | nil => simp [Clauses.Rest]
  | cons tag tags ih =>
      rw [List.foldl_cons, foldl_pushTag, Clauses.rest_append, ih, pushTag]
      cases hstrip : stripMinus tag with
      | none =>
          rw [List.filterMap_cons_none hstrip, List.filter_cons_of_pos (by rw [hstrip]; rfl), List.forall_mem_cons,
            and_assoc]
          exact and_congr_left fun _ => Clauses.rest_pushFilter _
      | some excluded =>
          rw [List.filterMap_cons_some hstrip, List.filter_cons_of_neg (by rw [hstrip]; simp), List.forall_mem_cons,
            and_left_comm]
          refine and_congr_right fun _ => and_congr_left fun _ => ?_
          simp [Clauses.Rest, Clauses.pushMustNot, matches_tagTerm]

/-- The tags of the options among what the caller asks for. -/
theorem own_tags {c : Caller} {q : List QueryElement} (h : (c.own repo lib q).Rest holds) :
    (∀ tag ∈ c.tags.filter (fun tag => (stripMinus tag).isNone), holds (.term "tags" tag) = true) ∧
      ∀ tag ∈ c.tags.filterMap stripMinus, holds (.term "tags" tag) = false := by
  match c with
  | .events params => exact ⟨nofun, nofun⟩
  | .agg => exact ⟨nofun, nofun⟩
  | .histogramTime => exact ⟨nofun, nofun⟩
  | .inbox options =>
      have hown : Caller.own repo lib (.inbox options) q = Clauses.append _ _ := foldl_pushTag _ _
      rw [hown, Clauses.rest_append] at h
      exact (rest_foldl_pushTag options.tags).mp h.2

theorem satisfies_of_tagOf {el : QueryElement} {tag : String} (htag : tagOf el.value = some tag)
    (h : repo.Satisfies lib holds el) : holds (.term "tags" tag) = !el.negated := by
  obtain ⟨negated, value⟩ := el
  unfold tagOf at htag
  split at htag
  · rename_i hvalue
    obtain rfl : value = .archived := hvalue
    obtain rfl := Option.some.inj htag
    exact h
  · rename_i hvalue
    obtain rfl : value = .escalated := hvalue
    obtain rfl := Option.some.inj htag
    exact h
  · cases htag

/-- A document with what the caller asks for, which satisfies the elements on tags, has the tags asked for and not those
excluded. -/
theorem not_contradicts {c : Caller} {q : List QueryElement} (hown : (c.own repo lib q).Rest holds)
    (hq : ∀ el ∈ q, tagOf el.value ≠ none → repo.Satisfies lib holds el) : ¬ c.Contradicts q := by
  obtain ⟨hrequired, hexcluded⟩ := own_tags hown
  rintro ⟨tag, htag, htag'⟩
  have hyes : holds (.term "tags" tag) = true := by
    rcases List.mem_append.mp htag with htag | htag
    · exact hrequired tag htag
    · obtain ⟨el, hel, heq⟩ := List.mem_filterMap.mp htag
      split at heq
      · cases heq
      · rename_i hpositive
        rw [satisfies_of_tagOf heq (hq el hel (by rw [heq]; nofun)), Bool.eq_false_iff.mpr hpositive]
        rfl
  have hno : holds (.term "tags" tag) = false := by
    rcases List.mem_append.mp htag' with htag' | htag'
    · exact hexcluded tag htag'
    · obtain ⟨el, hel, heq⟩ := List.mem_filterMap.mp htag'
      split at heq
      · rename_i hnegated
        rw [satisfies_of_tagOf heq (hq el hel (by rw [heq]; nofun)), hnegated]
        rfl
      · cases heq
  rw [hyes] at hno
  cases hno

theorem eq_of_countP_le_one {α : Type*} {p : α → Bool} {l : List α} (h : l.countP p ≤ 1) {a b : α} (ha : a ∈ l)
    (hb : b ∈ l) (hpa : p a = true) (hpb : p b = true) : a = b := by
  rw [List.countP_eq_length_filter] at h
  have ha' : a ∈ l.filter p := List.mem_filter.mpr ⟨ha, hpa⟩
  have hb' : b ∈ l.filter p := List.mem_filter.mpr ⟨hb, hpb⟩
  match hfilter : l.filter p with
  | [] =>
      rw [hfilter] at ha'
      cases ha'
  | [c] =>
      rw [hfilter, List.mem_singleton] at ha' hb'
      rw [ha', hb']
  | c :: d :: rest =>
      rw [hfilter] at h
      simp at h

/-- What a caller can handle it asks for. -/
theorem denotes_of_handles {c : Caller} {q : List QueryElement}
    (htimes : ∀ el ∈ q, isTime el.value = true → el.negated = false) (h : c.Handles q) :
    c.Denotes repo lib q := by
  obtain ⟨hmac, hip⟩ := h
  intro holds
  have hplain : ∀ el ∈ q, positiveIp el = false → (repo.elementClauses lib el).should = [] ∧
      ((repo.elementClauses lib el).Rest holds ↔ repo.Satisfies lib holds el) :=
    fun el hel hother => clauses_of_plain (hmac el hel) hother (htimes el hel)
  have hshould : ∀ el ∈ q, (repo.elementClauses lib el).should ≠ [] → positiveIp el = true := by
    intro el hel hne
    by_contra hother
    exact hne (hplain el hel (Bool.eq_false_iff.mpr hother)).1
  have hips : ∀ el, positiveIp el = true → (repo.elementClauses lib el).Rest holds ∧
      (repo.elementClauses lib el).should ≠ [] ∧
      ((∃ c ∈ (repo.elementClauses lib el).should, c.matches holds = true) ↔ repo.Satisfies lib holds el) :=
    fun el hpositive => clauses_of_positiveIp hpositive
  rw [accepts_query]
  constructor
  · rintro ⟨⟨hown, hrest⟩, hany⟩
    refine ⟨hown, fun el hel => ?_⟩
    by_cases hpositive : positiveIp el = true
    · -- the only `@ip` there is
      obtain ⟨-, hne, hsatisfies⟩ := hips el hpositive
      have hpos : 0 < q.countP positiveIp := List.countP_pos_iff.mpr ⟨el, hel, hpositive⟩
      have hlimit : c.ipLimit = 1 := by
        have hle : c.ipLimit ≤ 1 := by cases c <;> simp [Caller.ipLimit]
        omega
      obtain ⟨el', hel', cl, hcl, hmatches⟩ := hany hlimit ⟨el, hel, hne⟩
      have hpositive' := hshould el' hel' (List.ne_nil_of_mem hcl)
      obtain rfl := eq_of_countP_le_one (hlimit ▸ hip) hel hel' hpositive hpositive'
      exact hsatisfies.mp ⟨cl, hcl, hmatches⟩
    · exact ((hplain el hel (Bool.eq_false_iff.mpr hpositive)).2).mp (hrest el hel)
  · rintro ⟨hown, hsatisfied⟩
    refine ⟨⟨hown, fun el hel => ?_⟩, fun _ ⟨el, hel, hne⟩ => ?_⟩
    · by_cases hpositive : positiveIp el = true
      · exact (hips el hpositive).1
      · exact ((hplain el hel (Bool.eq_false_iff.mpr hpositive)).2).mpr (hsatisfied el hel)
    · have hpositive := hshould el hel hne
      exact ⟨el, hel, (hips el hpositive).2.2.mpr (hsatisfied el hel)⟩

/-- A query that asks for a tag and excludes it matches nothing, as it should. -/
theorem denotes_of_contradicts {c : Caller} {q : List QueryElement} (h : c.Contradicts q) :
    c.Denotes repo lib q := by
  intro holds
  refine iff_of_false ?_ fun ⟨hown, hsatisfied⟩ => not_contradicts hown (fun el hel _ => hsatisfied el hel) h
  rw [accepts_query]
  rintro ⟨⟨hown, hrest⟩, -⟩
  refine not_contradicts hown (fun el hel htag => ?_) h
  have hrest := hrest el hel
  obtain ⟨negated, value⟩ := el
  match value with
  | .archived => exact (clauses_of_plain (by simp [negatedMac, hasKey]) (by simp [positiveIp, hasKey])
      (by simp [isTime])).2.mp hrest
  | .escalated => exact (clauses_of_plain (by simp [negatedMac, hasKey]) (by simp [positiveIp, hasKey])
      (by simp [isTime])).2.mp hrest
  | .string v => exact absurd rfl htag
  | .keyValue k v => exact absurd rfl htag
  | .fromTime ts => exact absurd rfl htag
  | .toTime ts => exact absurd rfl htag
  | .after ts => exact absurd rfl htag
  | .before ts => exact absurd rfl htag

/-! ## Kinds of elements -/

/-- What only looks at the kind of an element says the same of queries with the same kinds. -/
theorem map_eq_of_kinds {β : Type*} {f : QueryElement → β} (hf : ∀ el, f (kind el) = f el)
    {q q' : List QueryElement} (h : q'.map kind = q.map kind) : q'.map f = q.map f := by
  have hkind : ∀ q : List QueryElement, q.map f = (q.map kind).map f := by
    intro q
    rw [List.map_map]
    exact List.map_congr_left fun el _ => (hf el).symm
  rw [hkind, hkind q, h]

theorem kind_withText (el : QueryElement) : (kind el).negated = el.negated ∧ negatedMac (kind el) = negatedMac el ∧
    positiveIp (kind el) = positiveIp el ∧ tagOf (kind el).value = tagOf el.value ∧
    isTime (kind el).value = isTime el.value ∧ isFrom (kind el) = isFrom el := by
  obtain ⟨negated, value⟩ := el
  cases value <;> exact ⟨rfl, rfl, rfl, rfl, rfl, rfl⟩

theorem handles_of_kinds {c : Caller} {q q' : List QueryElement} (hkinds : q'.map kind = q.map kind)
    (h : c.Handles q) : c.Handles q' := by
  obtain ⟨hmac, hip⟩ := h
  have hmacs := map_eq_of_kinds (fun el => (kind_withText el).2.1) hkinds
  have hips := map_eq_of_kinds (fun el => (kind_withText el).2.2.1) hkinds
  have hcount : ∀ q : List QueryElement, q.countP positiveIp = (q.map positiveIp).countP id := by
    intro q
    rw [List.countP_map]
    rfl
  refine ⟨fun el hel => ?_, ?_⟩
  · have hmem : negatedMac el ∈ q.map negatedMac := hmacs ▸ List.mem_map_of_mem hel
    obtain ⟨el', hel', heq⟩ := List.mem_map.mp hmem
    rw [← heq, hmac el' hel']
  · rw [hcount, hips, ← hcount]
    exact hip

theorem filterMap_eq_of_kinds {β : Type*} {f : QueryElement → Option β} (hf : ∀ el, f (kind el) = f el)
    {q q' : List QueryElement} (h : q'.map kind = q.map kind) : q'.filterMap f = q.filterMap f := by
  have hmap : ∀ q : List QueryElement, q.filterMap f = (q.map f).filterMap id := by
    intro q
    rw [List.filterMap_map]
    rfl
  rw [hmap, hmap q, map_eq_of_kinds hf h]

theorem contradicts_of_kinds {c : Caller} {q q' : List QueryElement} (hkinds : q'.map kind = q.map kind)
    (h : c.Contradicts q) : c.Contradicts q' := by
  unfold Caller.Contradicts Caller.requiredTags Caller.excludedTags at h ⊢
  rw [filterMap_eq_of_kinds (fun el => by rw [(kind_withText el).1, (kind_withText el).2.2.2.1]) hkinds,
    filterMap_eq_of_kinds (fun el => by rw [(kind_withText el).1, (kind_withText el).2.2.2.1]) hkinds]
  exact h

theorem times_of_kinds {q q' : List QueryElement} (hkinds : q'.map kind = q.map kind)
    (htimes : ∀ el ∈ q, isTime el.value = true → el.negated = false) :
    ∀ el ∈ q', isTime el.value = true → el.negated = false := by
  intro el hel htime
  have hmap := map_eq_of_kinds (f := fun el => (isTime el.value, el.negated))
    (fun el => by rw [(kind_withText el).1, (kind_withText el).2.2.2.2.1]) hkinds
  have hmem : (isTime el.value, el.negated) ∈ q.map fun el => (isTime el.value, el.negated) :=
    hmap ▸ List.mem_map_of_mem hel
  obtain ⟨el', hel', heq⟩ := List.mem_map.mp hmem
  obtain ⟨htime', hnegated⟩ := Prod.mk.inj heq
  rw [← hnegated]
  exact htimes el' hel' (htime'.trans htime)

/-! ## Queries that do not denote their elements -/

theorem escapeChar_of_not_mem {c : Char} {text : List Char} (h : c ∉ text) : escapeChar c text = text := by
  induction text with
  | nil => rfl
  | cons d text ih =>
      have hne : d ≠ c := fun heq => h (by rw [heq]; exact List.mem_cons_self)
      show (if d = c then ['\\', d] else [d]) ++ escapeChar c text = d :: text
      rw [if_neg hne, ih (fun hmem => h (List.mem_cons_of_mem d hmem))]
      rfl

theorem escapeQuery_replicate (n : ℕ) : escapeQuery (List.replicate n 'x') = List.replicate n 'x' := by
  have hspecials : ∀ specials : List Char, 'x' ∉ specials →
      specials.foldl (fun text c => escapeChar c text) (List.replicate n 'x') = List.replicate n 'x' := by
    intro specials hx
    induction specials with
    | nil => rfl
    | cons c specials ih =>
        have hc : c ∉ List.replicate n 'x' := fun hmem => hx (by
          rw [List.eq_of_mem_replicate hmem]
          exact List.mem_cons_self)
        rw [List.foldl_cons, escapeChar_of_not_mem hc]
        exact ih fun hmem => hx (List.mem_cons_of_mem c hmem)
  exact hspecials _ (by decide)

/-- Two texts that are none of the given ones, and that need no escaping. -/
theorem exists_fresh (used : List String) : ∃ p n : String, p ∉ used ∧ n ∉ used ∧ p ≠ n ∧
    queryStringQuery p ≠ queryStringQuery n := by
  have hbound : ∃ bound, ∀ s ∈ used, s.toList.length ≤ bound := by
    induction used with
    | nil => exact ⟨0, nofun⟩
    | cons s used ih =>
        obtain ⟨bound, hbound⟩ := ih
        refine ⟨max s.toList.length bound, fun t ht => ?_⟩
        rcases List.mem_cons.mp ht with rfl | ht
        · exact le_max_left _ _
        · exact (hbound t ht).trans (le_max_right _ _)
  obtain ⟨bound, hbound⟩ := hbound
  have hlong : ∀ k, bound < k → String.ofList (List.replicate k 'x') ∉ used := by
    intro k hk hmem
    have hle := hbound _ hmem
    rw [String.toList_ofList, List.length_replicate] at hle
    omega
  have hne : String.ofList (List.replicate (bound + 1) 'x') ≠ String.ofList (List.replicate (bound + 2) 'x') := by
    intro heq
    have hlength := congrArg (fun s : String => s.toList.length) heq
    simp at hlength
  refine ⟨_, _, hlong (bound + 1) (by omega), hlong (bound + 2) (by omega), hne, ?_⟩
  unfold queryStringQuery
  rw [String.toList_ofList, String.toList_ofList, escapeQuery_replicate, escapeQuery_replicate]
  exact fun heq => hne (Leaf.queryString.inj heq)

/-- A value with another text. -/
def withText (text : String) : QueryValue → QueryValue
  | .string _ => .string text
  | .keyValue k _ => .keyValue k text
  | value => value

/-- An element with the text `p`, or with the text `n` if it is negated. -/
def fill (p n : String) (el : QueryElement) : QueryElement :=
  ⟨el.negated, withText (if el.negated then n else p) el.value⟩

theorem kind_fill (p n : String) (el : QueryElement) : kind (fill p n el) = kind el := by
  obtain ⟨negated, value⟩ := el
  cases value <;> rfl

/-- A document that has every text but `n`, every tag that is not excluded, and no host field missing. -/
def reading (repo : ElasticEventRepo) (n : String) (excluded : List String) : Leaf → Bool
  | .queryString query => Leaf.queryString query ≠ queryStringQuery n
  | .multiMatch query => query ≠ n
  | .term field value => value ≠ n && !(field = "tags" && value ∈ excluded)
  | .exists_ field => field ≠ repo.mapField "host"
  | .range .. => true

/-- The texts that a caller asks for itself. -/
def Caller.texts : Caller → List String
  | .events params => params.eventType.toList ++ params.sensor.toList
  | .inbox options => "alert" :: options.sensor.toList
  | _ => []

/-- The texts that are handled like no other. -/
def specialTexts : List String := ["query", "request", "answer", "response", "(no-name)"]

section

variable {p n : String} {excluded : List String}

theorem mapField_facts (repo : ElasticEventRepo) : repo.mapField "event_type" ≠ repo.mapField "host" ∧
    repo.mapField "event_type" ≠ "tags" ∧ repo.mapField "host" ≠ "tags" := by
  obtain ⟨ecs⟩ := repo
  cases ecs <;> decide

theorem reading_term_of_ne (repo : ElasticEventRepo) {field value : String} (hn : value ≠ n) (htag : field = "tags" → value ∉ excluded) :
    reading repo n excluded (.term field value) = true := by
  unfold reading
  simp only [ne_eq, hn, not_false_eq_true, decide_true, Bool.true_and, Bool.not_eq_true', Bool.and_eq_false_iff,
    decide_eq_false_iff_not]
  exact (em (field = "tags")).symm.imp_right htag

theorem reading_term_excluded (repo : ElasticEventRepo) {value : String} (hexcluded : value ∈ excluded) :
    reading repo n excluded (.term "tags" value) = false := by
  simp [reading, hexcluded]

/-- The document has the text of a positive element, and not that of a negated one. -/
theorem reading_text (repo : ElasticEventRepo) (negated : Bool) (field : String) (hne : p ≠ n) (hp : p ∉ excluded) :
    reading repo n excluded (.term field (if negated then n else p)) = !negated := by
  cases negated with
  | true => simp [reading]
  | false => exact reading_term_of_ne repo hne fun _ => hp

/-- The document satisfies the elements whose texts have been chosen for it. -/
theorem satisfies_fill {el : QueryElement} (htime : isTime el.value = true → el.negated = false)
    (hne : p ≠ n) (hescape : queryStringQuery p ≠ queryStringQuery n) (hp : p ∉ excluded)
    (hpspecial : p ∉ specialTexts) (hnspecial : n ∉ specialTexts)
    (htags : ∀ tag, tagOf el.value = some tag → tag ≠ n ∧ (tag ∈ excluded ↔ el.negated = true)) :
    repo.Satisfies lib (reading repo n excluded) (fill p n el) := by
  obtain ⟨negated, value⟩ := el
  unfold Satisfies fill
  have htext := fun field => reading_text repo negated field hne hp
  have hspecial : (if negated then n else p) ∉ specialTexts := by
    cases negated with
    | true => exact hnspecial
    | false => exact hpspecial
  have htag : ∀ tag, tagOf value = some tag → reading repo n excluded (.term "tags" tag) = !negated := by
    intro tag htag
    obtain ⟨hn, hiff⟩ := htags tag htag
    cases negated with
    | true => exact reading_term_excluded repo (hiff.mpr rfl)
    | false => exact reading_term_of_ne repo hn fun _ hmem => absurd (hiff.mp hmem) (by simp)
  match value with
  | .string v =>
      show reading repo n excluded (queryStringQuery (if negated then n else p)) = !negated
      cases negated with
      | true => simp [reading, queryStringQuery]
      | false => simpa [reading, queryStringQuery] using hescape
  | .archived => exact htag _ rfl
  | .escalated => exact htag _ rfl
  | .fromTime ts => rw [htime rfl]; rfl
  | .toTime ts => rw [htime rfl]; rfl
  | .after ts => rw [htime rfl]; rfl
  | .before ts => rw [htime rfl]; rfl
  | .keyValue k v =>
      have hmac : reading repo n excluded (.multiMatch (if negated then n else p)) = !negated := by
        cases negated with
        | true => simp [reading]
        | false => simpa [reading] using hne
      dsimp only [withText, meaning]
      generalize (if negated then n else p) = text at htext hspecial hmac ⊢
      have hnot : ∀ special ∈ specialTexts, text ≠ special := fun special hmem heq => hspecial (heq ▸ hmem)
      have hleaf : ∀ field, (Clause.leaf (.term field text)).matches (reading repo n excluded) = !negated := htext
      by_cases hk : k = "@mac"
      · rw [if_pos hk, hmac]
      rw [if_neg hk]
      by_cases hk : k = "@ip"
      · rw [if_pos hk]
        simp [ipTerms, ipFields, htext]
      rw [if_neg hk]
      by_cases hk : k = "dns.type"
      · have hquery : ¬ (text = "query" ∨ text = "request") := by
          rintro (h | h)
          · exact hnot _ (by decide) h
          · exact hnot _ (by decide) h
        have hanswer : ¬ (text = "answer" ∨ text = "response") := by
          rintro (h | h)
          · exact hnot _ (by decide) h
          · exact hnot _ (by decide) h
        rw [if_pos hk, dnsTypeClause, if_neg hquery, if_neg hanswer]
        exact hleaf _
      rw [if_neg hk]
      by_cases hk : k = "host"
      · rw [if_pos hk, if_neg (hnot _ (by decide))]
        exact htext _
      rw [if_neg hk, keyClause]
      split
      · rw [Clause.matches, Bool.eq_iff_iff, BoolClauses.accepts_should]
        simp [htext]
      · exact hleaf _

theorem rest_sensorFilter {sensor : Option String} (hn : n ∉ sensor.toList) :
    ∀ c ∈ repo.sensorFilter sensor, c.matches (reading repo n excluded) = true := by
  intro c hc
  unfold sensorFilter at hc
  split at hc
  · rename_i s
    have hs : s ≠ n := fun heq => hn (by rw [heq]; exact List.mem_singleton.mpr rfl)
    split at hc
    · rw [List.mem_singleton.mp hc, Clause.matches, BoolClauses.accepts_mustNot]
      simp [reading]
    · rw [List.mem_singleton.mp hc]
      exact reading_term_of_ne repo hs fun h => absurd h (mapField_facts repo).2.2
  · cases hc

/-- The document is one that the caller asks for. -/
theorem rest_own {c : Caller} {q : List QueryElement} (hn : n ∉ c.texts)
    (hrequired : ∀ tag ∈ c.tags.filter (fun tag => (stripMinus tag).isNone), tag ≠ n ∧ tag ∉ excluded)
    (hexcluded : ∀ tag ∈ c.tags.filterMap stripMinus, tag ∈ excluded) :
    (c.own repo lib q).Rest (reading repo n excluded) := by
  have hexists : (Clause.leaf (.exists_ (repo.mapField "event_type"))).matches (reading repo n excluded) = true :=
    decide_eq_true (mapField_facts repo).1
  have hterm : ∀ value, value ≠ n →
      (Clause.leaf (.term (repo.mapField "event_type") value)).matches (reading repo n excluded) = true :=
    fun value hvalue => reading_term_of_ne repo hvalue fun h => absurd h (mapField_facts repo).2.1
  have htime : ∀ (op : String) (ts : Option DateTime), ∀ c ∈ ts.toList.map (timestampFilter lib op),
      c.matches (reading repo n excluded) = true := by
    intro op ts c hc
    obtain ⟨t, -, rfl⟩ := List.mem_map.mp hc
    rfl
  match c with
  | .agg => exact ⟨by simpa [Caller.own] using hexists, nofun⟩
  | .histogramTime => exact ⟨by simpa [Caller.own] using hexists, nofun⟩
  | .events params =>
      refine ⟨?_, nofun⟩
      have hn' : n ∉ params.eventType.toList ∧ n ∉ params.sensor.toList := by
        simpa [Caller.texts] using hn
      simp only [Caller.own, List.forall_mem_append]
      refine ⟨⟨⟨⟨by simpa using hexists, ?_⟩, rest_sensorFilter hn'.2⟩, htime _ _⟩, htime _ _⟩
      intro c hc
      obtain ⟨eventType, heventType, rfl⟩ := List.mem_map.mp hc
      exact hterm _ fun heq => hn'.1 (heq ▸ heventType)
  | .inbox options =>
      have hn' : n ≠ "alert" ∧ n ∉ options.sensor.toList := by
        simpa [Caller.texts] using hn
      have hown : Caller.own repo lib (.inbox options) q = Clauses.append _ _ := foldl_pushTag _ _
      rw [hown, Clauses.rest_append, rest_foldl_pushTag]
      refine ⟨⟨?_, nofun⟩, fun tag htag => ?_, fun tag htag => reading_term_excluded repo (hexcluded tag htag)⟩
      · simp only [List.forall_mem_append]
        refine ⟨⟨?_, rest_sensorFilter hn'.2⟩, ?_⟩
        · simpa using ⟨hexists, hterm "alert" (Ne.symm hn'.1)⟩
        · split
          · nofun
          · exact htime _ _
      · exact reading_term_of_ne repo (hrequired tag htag).1 fun _ => (hrequired tag htag).2

end

/-- Where a tag is not asked for and excluded, a query can be filled so that a document has what is asked for, and so
that the one positive `@ip` that the document does not have can be any. -/
theorem exists_reading (repo : ElasticEventRepo) (lib : TimeLib) {c : Caller} {q : List QueryElement}
    (htimes : ∀ el ∈ q, isTime el.value = true → el.negated = false) (hcontradicts : ¬ c.Contradicts q) :
    ∃ (p n : String) (holds : Leaf → Bool), (∀ q', (c.own repo lib q').Rest holds) ∧
      (∀ el ∈ q, repo.Satisfies lib holds (fill p n el)) ∧
      ¬ repo.Satisfies lib holds ⟨false, .keyValue "@ip" n⟩ := by
  obtain ⟨p, n, hp, hn, hne, hescape⟩ :=
    exists_fresh (specialTexts ++ c.texts ++ c.requiredTags q ++ c.excludedTags q)
  simp only [List.mem_append, not_or] at hp hn
  obtain ⟨⟨⟨hpspecial, -⟩, -⟩, hpexcluded⟩ := hp
  obtain ⟨⟨⟨hnspecial, hntexts⟩, hnrequired⟩, hnexcluded⟩ := hn
  refine ⟨p, n, reading repo n (c.excludedTags q), fun q' => ?_, fun el hel => ?_, ?_⟩
  · refine rest_own hntexts (fun tag htag => ?_) fun tag htag => List.mem_append_left _ htag
    have hmem : tag ∈ c.requiredTags q := List.mem_append_left _ htag
    exact ⟨fun heq => hnrequired (heq ▸ hmem), fun hexcluded => hcontradicts ⟨tag, hmem, hexcluded⟩⟩
  · refine satisfies_fill (htimes el hel) hne hescape hpexcluded hpspecial hnspecial fun tag htag => ?_
    by_cases hnegated : el.negated = true
    · have hmem : tag ∈ c.excludedTags q :=
        List.mem_append_right _ (List.mem_filterMap.mpr ⟨el, hel, by rw [if_pos hnegated, htag]⟩)
      exact ⟨fun heq => hnexcluded (heq ▸ hmem), iff_of_true hmem hnegated⟩
    · have hmem : tag ∈ c.requiredTags q :=
        List.mem_append_right _ (List.mem_filterMap.mpr ⟨el, hel, by rw [if_neg hnegated, htag]⟩)
      exact ⟨fun heq => hnrequired (heq ▸ hmem),
        iff_of_false (fun hexcluded => hcontradicts ⟨tag, hmem, hexcluded⟩) hnegated⟩
  · simp [Satisfies, meaning, ipTerms, ipFields, reading]

theorem fill_facts (p n : String) (el : QueryElement) : (fill p n el).negated = el.negated ∧
    negatedMac (fill p n el) = negatedMac el ∧ positiveIp (fill p n el) = positiveIp el ∧
    isTime (fill p n el).value = isTime el.value := by
  obtain ⟨hnegated, hmac, hip, -, htime, -⟩ := kind_withText el
  obtain ⟨hnegated', hmac', hip', -, htime', -⟩ := kind_withText (fill p n el)
  rw [kind_fill] at hnegated' hmac' hip' htime'
  exact ⟨rfl, hmac'.symm.trans hmac, hip'.symm.trans hip, htime'.symm.trans htime⟩

/-- An element that is satisfied is one that its clauses do not rule out, unless it is a negated `@mac`. -/
theorem rest_of_satisfies {el : QueryElement} (hmac : negatedMac el = false)
    (htime : isTime el.value = true → el.negated = false) (h : repo.Satisfies lib holds el) :
    (repo.elementClauses lib el).Rest holds := by
  by_cases hip : positiveIp el = true
  · exact (clauses_of_positiveIp hip).1
  · exact (clauses_of_plain hmac (Bool.eq_false_iff.mpr hip) htime).2.mpr h

/-- A query of a kind that the caller cannot handle. -/
theorem exists_not_denotes (repo : ElasticEventRepo) (lib : TimeLib) {c : Caller} {q : List QueryElement}
    (htimes : ∀ el ∈ q, isTime el.value = true → el.negated = false) (hcontradicts : ¬ c.Contradicts q)
    (hhandles : ¬ c.Handles q) : ∃ q', q'.map kind = q.map kind ∧ ¬ c.Denotes repo lib q' := by
  obtain ⟨p, n, holds, hown, hsatisfies, hip⟩ := exists_reading repo lib htimes hcontradicts
  have hfill : ∀ q : List QueryElement, (q.map (fill p n)).map kind = q.map kind := by
    intro q
    rw [List.map_map]
    exact List.map_congr_left fun el _ => kind_fill p n el
  by_cases hmac : ∀ el ∈ q, negatedMac el = false
  · -- one `@ip` too many, which is the one that the document does not have
    have hcount : c.ipLimit < q.countP positiveIp := Nat.not_le.mp fun hle => hhandles ⟨hmac, hle⟩
    obtain ⟨el, hel, hpositive⟩ := List.countP_pos_iff.mp (Nat.zero_lt_of_lt hcount)
    obtain ⟨v, rfl⟩ := eq_of_positiveIp hpositive
    obtain ⟨before, behind, rfl⟩ := List.append_of_mem hel
    refine ⟨before.map (fill p n) ++ ⟨false, .keyValue "@ip" n⟩ :: behind.map (fill p n), ?_, fun hdenotes => ?_⟩
    · rw [List.map_append, List.map_cons, hfill, hfill, List.map_append, List.map_cons]
      rfl
    · refine hip (((hdenotes holds).mp ?_).2 _ (List.mem_append_right _ List.mem_cons_self))
      have hrest : ∀ el ∈ before ++ ⟨false, .keyValue "@ip" v⟩ :: behind,
          (repo.elementClauses lib (fill p n el)).Rest holds := by
        intro el hel
        obtain ⟨hnegated, hmac', -, htime⟩ := fill_facts p n el
        refine rest_of_satisfies (hmac'.trans (hmac el hel)) ?_ (hsatisfies el hel)
        rw [htime, hnegated]
        exact htimes el hel
      rw [accepts_query]
      refine ⟨⟨hown _, fun el' hel' => ?_⟩, fun hlimit _ => ?_⟩
      · rcases List.mem_append.mp hel' with hel' | hel'
        · obtain ⟨el, hel, rfl⟩ := List.mem_map.mp hel'
          exact hrest el (List.mem_append_left _ hel)
        rcases List.mem_cons.mp hel' with rfl | hel'
        · exact (clauses_of_positiveIp rfl).1
        · obtain ⟨el, hel, rfl⟩ := List.mem_map.mp hel'
          exact hrest el (List.mem_append_right _ (List.mem_cons_of_mem _ hel))
      · -- another `@ip`, which the document has
        have hother : ∃ el ∈ before ++ behind, positiveIp el = true := by
          rw [← List.countP_pos_iff, List.countP_append]
          rw [hlimit, List.countP_append, List.countP_cons_of_pos hpositive] at hcount
          omega
        obtain ⟨el, hel, hpositive'⟩ := hother
        obtain ⟨-, -, hip', -⟩ := fill_facts p n el
        obtain ⟨cl, hcl, hmatches⟩ := (clauses_of_positiveIp (hip'.trans hpositive')).2.2.mpr
          (hsatisfies el (by simp only [List.mem_append, List.mem_cons] at hel ⊢; tauto))
        refine ⟨fill p n el, ?_, cl, hcl, hmatches⟩
        rcases List.mem_append.mp hel with hel | hel
        · exact List.mem_append_left _ (List.mem_map_of_mem hel)
        · exact List.mem_append_right _ (List.mem_cons_of_mem _ (List.mem_map_of_mem hel))
  · push Not at hmac
    obtain ⟨el, hel, hnegated⟩ := hmac
    refine ⟨q.map (fill p n), hfill q, fun hdenotes => ?_⟩
    have haccepts := (hdenotes holds).mpr ⟨hown _, fun el' hel' => ?_⟩
    · obtain ⟨-, hmac', -, -⟩ := fill_facts p n el
      have hrest := ((accepts_query c _).mp haccepts).1.2 _ (List.mem_map_of_mem hel)
      have hasked := (rest_of_negatedMac (hmac'.trans (Bool.of_not_eq_false hnegated))).mp hrest
      have hsatisfied := hsatisfies el hel
      obtain ⟨v, rfl⟩ := eq_of_negatedMac (Bool.of_not_eq_false hnegated)
      rw [Satisfies, hasked] at hsatisfied
      cases hsatisfied
    · obtain ⟨el, hel, rfl⟩ := List.mem_map.mp hel'
      exact hsatisfies el hel

/-- A caller's queries of some kinds of elements denote the conjunction of the elements, whatever the texts and whatever
the leaves mean, exactly if no `@mac` is negated and there are no more positive `@ip` than the caller can ask for,
or a tag is both asked for and excluded. -/
theorem query_denotes_iff (repo : ElasticEventRepo) (lib : TimeLib) (c : Caller) (q : List QueryElement)
    (htimes : ∀ el ∈ q, isTime el.value = true → el.negated = false) :
    (∀ q', q'.map kind = q.map kind → c.Denotes repo lib q') ↔ c.Contradicts q ∨ c.Handles q := by
  constructor
  · intro hdenotes
    by_contra hneither
    obtain ⟨hcontradicts, hhandles⟩ := not_or.mp hneither
    obtain ⟨q', hkinds, hnot⟩ := exists_not_denotes repo lib htimes hcontradicts hhandles
    exact hnot (hdenotes q' hkinds)
  · rintro (hcontradicts | hhandles) q' hkinds
    · exact denotes_of_contradicts (contradicts_of_kinds hkinds hcontradicts)
    · exact denotes_of_handles (times_of_kinds hkinds htimes) (handles_of_kinds hkinds hhandles)

end

section

variable {lib : TimeLib} {tzOffset : Option String}

theorem keyValueElement_times {negated : Bool} {key token : List Char} {el : QueryElement}
    (h : keyValueElement lib tzOffset negated key token = .ok el) :
    isTime el.value = true → el.negated = false := by
  have htime : ∀ (value : DateTime → QueryValue),
      timeElement lib tzOffset (String.ofList token) value = .ok el → el.negated = false := by
    intro value h
    unfold timeElement at h
    split at h
    · rw [← Except.ok.inj h]
    · cases h
  unfold keyValueElement at h
  dsimp only at h
  split at h
  · exact fun _ => htime _ h
  · exact fun _ => htime _ h
  · exact fun _ => htime _ h
  · exact fun _ => htime _ h
  · split at h
    · rw [← Except.ok.inj h]
      nofun
    · split at h
      · rw [← Except.ok.inj h]
        nofun
      · rw [← Except.ok.inj h]
        nofun

/-- The parser negates no time. -/
theorem parse_times {input : String} {q : List QueryElement} (h : parse lib tzOffset input = .ok q) :
    ∀ el ∈ q, isTime el.value = true → el.negated = false := by
  have hloop : ∀ (fuel : ℕ) (ptr : List Char) (negated : Bool) (q : List QueryElement),
      parseLoop lib tzOffset fuel ptr negated = .ok q → ∀ el ∈ q, isTime el.value = true → el.negated = false := by
    intro fuel
    induction fuel with
    | zero =>
        intro ptr negated q h
        obtain rfl : [] = q := Except.ok.inj h
        nofun
    | succ fuel ih =>
        intro ptr negated q h
        unfold parseLoop at h
        split at h
        · obtain rfl : [] = q := Except.ok.inj h
          nofun
        · dsimp only at h
          split at h
          · exact ih _ _ _ h
          · split at h
            · simp only [bind_eq_ok] at h
              obtain ⟨el, hel, els, hels, hq⟩ := h
              obtain rfl : el :: els = q := Except.ok.inj hq
              exact List.forall_mem_cons.mpr ⟨keyValueElement_times hel, ih _ _ _ hels⟩
            · simp only [bind_eq_ok] at h
              obtain ⟨els, hels, hq⟩ := h
              obtain rfl : stringElement _ _ ++ els = q := Except.ok.inj hq
              refine List.forall_mem_append.mpr ⟨fun el hel => ?_, ih _ _ _ hels⟩
              unfold stringElement at hel
              dsimp only at hel
              split at hel
              · cases hel
              · rw [List.mem_singleton.mp hel]
                nofun
  exact hloop _ _ _ _ h

end

/-- A clock for queries without times. -/
def noTimes : TimeLib := ⟨fun _ => none, Char.isDigit, fun _ _ => "", fun _ => "", fun _ => ""⟩

/-- What the leaves say of a document, as far as terms and fields go. -/
def termsOf (doc : Json) : Leaf → Bool
  | .term field value => (fieldValues doc field).contains (.string value)
  | .exists_ field => fieldValues doc field ≠ []
  | _ => false

/-- The events for two addresses: a document with one of them is found. -/
theorem twoIps_not_denotes : ∃ q, parse noTimes none "@ip:10.0.0.1 @ip:10.0.0.2" = .ok q ∧
    ¬ Caller.Denotes ⟨false⟩ noTimes (.events ⟨none, none, none, none⟩) q := by
  refine ⟨[⟨false, .keyValue "@ip" "10.0.0.1"⟩, ⟨false, .keyValue "@ip" "10.0.0.2"⟩], by decide +kernel, fun h => ?_⟩
  have hone := h (termsOf (.object [("event_type", .string "flow"), ("src_ip", .string "10.0.0.1"),
    ("dest_ip", .string "10.0.0.9")]))
  have hfound := (hone.mp (by decide +kernel)).2 ⟨false, .keyValue "@ip" "10.0.0.2"⟩ (by simp)
  revert hfound
  unfold Satisfies
  decide +kernel

/-- An address and a tag that is not there: the events and the histogram. -/
theorem query_denotes_iff_ip :
    (∀ q', q'.map kind = [⟨false, .keyValue "@ip" ""⟩, ⟨true, .archived⟩] →
      Caller.Denotes ⟨false⟩ noTimes (.events ⟨none, none, some "alert", none⟩) q') ∧
    ¬ ∀ q', q'.map kind = [⟨false, .keyValue "@ip" ""⟩, ⟨true, .archived⟩] →
      Caller.Denotes ⟨false⟩ noTimes .histogramTime q' := by
  have htimes : ∀ el ∈ ([⟨false, .keyValue "@ip" ""⟩, ⟨true, .archived⟩] : List QueryElement),
      isTime el.value = true → el.negated = false := by decide
  refine ⟨(query_denotes_iff ⟨false⟩ noTimes (.events ⟨none, none, some "alert", none⟩)
    [⟨false, .keyValue "@ip" ""⟩, ⟨true, .archived⟩] htimes).mpr (Or.inr ⟨by decide, by decide⟩), ?_⟩
  refine fun h => absurd ((query_denotes_iff ⟨false⟩ noTimes .histogramTime
    [⟨false, .keyValue "@ip" ""⟩, ⟨true, .archived⟩] htimes).mp h) ?_
  rintro (⟨tag, htag, hexcluded⟩ | ⟨-, hip⟩)
  · simp [Caller.requiredTags, Caller.tags, tagOf] at htag
  · exact absurd hip (by decide)

end ElasticEventRepo

end EveBox.Elastic
