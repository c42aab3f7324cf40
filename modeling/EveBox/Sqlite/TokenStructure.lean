import EveBox.Lib.SqlParts
import EveBox.Sqlite.References

/-!
# The text of a user in a statement

Reference: `src/sqlite/builder.rs`.

The values of a query are bound to a statement, and the keys are written into it, between quotes. A query has a kind for
each of its elements: the branch of `apply_query_string` that the element takes.
-/

namespace EveBox.Sqlite

open Rust Eve Repo SqlText SqlTokens

open EventQueryBuilder (startsWith resolveKey joinOfElement applyQueryString_some foldl_append_eq
  leftJoinFromQueryString_eq)

/-! ## Kinds -/

/-- The branches of `apply_query_string`. -/
inductive ClauseKind
  | anywhere (negated : Bool)
  | port (negated : Bool)
  | field (negated accelerated : Bool)
  | dnsQuery
  | dnsAnswer
  | rrname
  /-- Behind `dns.queries.`, with so many names. -/
  | queries (names : ℕ)
  | answers (names : ℕ)
  | authorities
  | additionals
  | time (op : Comparison)
  | archived
  | escalated
deriving DecidableEq, Repr

/-- The kind of an element, with the join that it asks for. -/
structure ElementKind where
  clause : ClauseKind
  join : Option Join
deriving DecidableEq, Repr

/-- The names that are read behind the second point of a key. -/
def namesBehind (k : String) : List (List Char) := (k.toList.splitOn '.').drop 2

def keyKind (negated : Bool) (k v : String) : ClauseKind :=
  if k = "@ip" ∨ k = "@mac" then .anywhere negated
  else if k = "src_port" ∨ k = "dest_port" then .port negated
  else if negated then .field true false
  else if k = "dns.type" ∧ (v = "query" ∨ v = "request") then .dnsQuery
  else if k = "dns.type" ∧ (v = "response" ∨ v = "answer") then .dnsAnswer
  else if k = "dns.rrname" ∨ k = "dns.queries.rrname" then .rrname
  else if startsWith k "dns.queries." then .queries (namesBehind k).length
  else if startsWith k "dns.answers." then .answers (namesBehind k).length
  else if startsWith k "dns.authorities" then .authorities
  else if startsWith k "dns.additionals" then .additionals
  else .field false (isAccelerated k)

def clauseKind (e : QueryElement) : ClauseKind :=
  match e.value with
  | .string _ => .anywhere e.negated
  | .keyValue k v => keyKind e.negated (resolveKey k) v
  | .fromTime _ => .time .ge
  | .toTime _ => .time .le
  | .after _ => .time .gt
  | .before _ => .time .lt
  | .archived => .archived
  | .escalated => .escalated

def elementKind (e : QueryElement) : ElementKind := ⟨clauseKind e, joinOfElement e⟩

/-- The texts of a key that are written between quotes. -/
def splicedKey (negated : Bool) (k v : String) : List (List Char) :=
  match keyKind negated k v with
  | .field _ _ | .port _ => [k.toList]
  | .queries _ | .answers _ => namesBehind k
  | _ => []

/-- The texts of an element that are written between quotes. -/
def spliced (e : QueryElement) : List (List Char) :=
  match e.value with
  | .keyValue k v => splicedKey e.negated (resolveKey k) v
  | _ => []

/-! ## Structure -/

/-- The builder's own characters. -/
def Origin.own : Origin → Bool
  | .builder => true
  | _ => false

/-- The tokens, up to the content of string literals. -/
abbrev Shape := List (TokenKind × List Char)

def shapes (text : SqlText) : Shape := (tokens text).map Token.shape

/-- No literal of a statement is closed by the text of a user, and its parameters are its arguments. -/
structure Secure (statement : SqlText × List Arg) : Prop where
  intact : ∀ t ∈ tokens statement.1, t.Intact Origin.own
  parameters : parameters (tokens statement.1) = statement.2.map fun arg => [.slot arg]

/-- A part of a statement, with its arguments and its structure. -/
structure Sound (text : SqlText) (args : List Arg) (shape : Shape) : Prop where
  ends : Ends text
  intact : ∀ t ∈ tokens text, t.Intact Origin.own
  parameters : parameters (tokens text) = args.map fun arg => [.slot arg]
  shape : shapes text = shape

/-- A part without arguments. -/
abbrev Fixed (text : SqlText) : Prop := Sound text [] (shapes text)

/-- What a caller does besides the query: the builder before the query, and the clauses behind it. -/
structure Base where
  builder : EventQueryBuilder
  /-- The clauses before those of the query, each with its arguments. -/
  before : List (SqlText × List Arg)
  after : List SqlText
  /-- Whether the joins of the query are made. -/
  joins : Bool
  wheres : builder.wheres = before.map (·.1)
  args : builder.args = before.flatMap (·.2)
  noJoins : builder.leftJoin = []
  clauses : ∀ clause ∈ before, Sound clause.1 clause.2 (shapes clause.1)
  pieces : ∀ piece ∈ builder.select ++ builder.tables ++ builder.groupBy ++ after, Fixed piece
  order : ∀ piece ∈ builder.orderBy, Fixed piece.1 ∧ Fixed piece.2

/-- The builder with a query. -/
def Base.apply (base : Base) (query : List QueryElement) : Option EventQueryBuilder :=
  let b := if base.joins then base.builder.leftJoinFromQueryString query else base.builder
  (b.applyQueryString query).map fun b => base.after.foldl EventQueryBuilder.pushWhere b

/-- The statement of a query. -/
def Base.statement (base : Base) (query : List QueryElement) : Option (SqlText × List Arg) :=
  (base.apply query).map EventQueryBuilder.build

/-! ## Parts of clauses -/

theorem parameters_append (ts ts' : List (Token Origin)) : parameters (ts ++ ts') = parameters ts ++ parameters ts' := by
  simp [parameters]

theorem Sound.append {a b : SqlText} {args args' : List Arg} {shape shape' : Shape} (ha : Sound a args shape)
    (hb : Sound b args' shape') (h : Breaks (run .start a).1 b) : Sound (a ++ b) (args ++ args') (shape ++ shape') where
  ends := ends_append ha.ends hb.ends h
  intact t ht := by
    rw [tokens_append h] at ht
    exact (List.mem_append.mp ht).elim (ha.intact t) (hb.intact t)
  parameters := by rw [tokens_append h, parameters_append, ha.parameters, hb.parameters, List.map_append]
  shape := by rw [shapes, tokens_append h, List.map_append, ← ha.shape, ← hb.shape, shapes, shapes]

/-- Text of the builder behind which anything may begin. -/
theorem fixed_of_start {text : SqlText} (hstart : (run .start text).1 = .start)
    (hintact : ∀ t ∈ tokens text, t.Intact Origin.own) (hparameters : parameters (tokens text) = []) : Fixed text where
  ends := by
    rw [Ends, hstart]
    exact settled_start
  intact := hintact
  parameters := hparameters
  shape := rfl

/-- Text of the builder that ends with a word. -/
theorem fixed_of_word {text word : SqlText} (hword : (run .start text).1 = .word word)
    (hintact : ∀ t ∈ tokens text, t.Intact Origin.own) (hparameters : parameters (tokens text) = []) : Fixed text where
  ends := by
    rw [Ends, hword]
    exact settled_word word
  intact := hintact
  parameters := hparameters
  shape := rfl

/-- A text of the builder between two others. -/
structure Divides (sep : String) : Prop where
  separator : Separator (lit sep)
  fixed : Fixed (lit sep)

theorem divides_of {sep : String} (hne : lit sep ≠ []) (hseparated : Separated (lit sep))
    (h : (run .start (lit sep)).1 = .start ∧ (∀ t ∈ tokens (lit sep), t.Intact Origin.own) ∧
      parameters (tokens (lit sep)) = []) : Divides sep :=
  ⟨⟨hne, hseparated, h.1⟩, fixed_of_start h.1 h.2.1 h.2.2⟩

/-! ### Literals -/

/-- A text that is written between quotes: a user's, or one of the builder that is fit for it. -/
def Named (text : SqlText) : Prop := (∃ s, text = user s) ∨ (enclosed (chars text) = true ∧ Reading.Plain text)

theorem named_user (s : List Char) : Named (user s) := .inl ⟨s, rfl⟩

theorem Named.plain {text : SqlText} (h : Named text) : Reading.Plain text := by
  rcases h with ⟨s, rfl⟩ | ⟨-, h⟩
  · exact Reading.plain_user s
  · exact h

/-- The quote of the builder. -/
def mark : Labelled Origin := ⟨quote, .builder⟩

theorem chars_append (a b : SqlText) : chars (a ++ b) = chars a ++ chars b := List.map_append

theorem sound_literal (before : SqlText) {text : SqlText} (hbefore : enclosed (chars before) = true) (hplain : Reading.Plain before)
    (htext : Reading.Plain text) (h : enclosed (chars text) = true) :
    Sound (mark :: (before ++ text) ++ [mark]) [] [(.string, [])] := by
  have hinner : enclosed (chars (before ++ text)) = true := by rw [chars_append, enclosed_append _ _ hbefore, h]
  have htokens : tokens (mark :: (before ++ text) ++ [mark]) = [⟨.string, mark :: (before ++ text) ++ [mark]⟩] :=
    tokens_literal rfl rfl hinner
  refine ⟨?_, ?_, ?_, ?_⟩
  · rw [Ends, run_literal rfl rfl hinner]
    exact settled_closing _
  · intro t ht
    rw [htokens] at ht
    obtain rfl := List.mem_singleton.mp ht
    refine ⟨?_, fun _ => ⟨?_, ?_, ?_⟩⟩
    · rintro ⟨⟩
    · rintro c ⟨⟩
      rfl
    · intro c hc
      rw [List.getLast?_concat] at hc
      obtain rfl := Option.some.inj hc
      rfl
    intro c hc hquote
    have hc : c ∈ before ++ text := by simpa using hc
    have hown := (List.mem_append.mp hc).elim (hplain c) (htext c)
    cases hlabel : c.label with
    | builder => exact absurd ⟨hlabel, hquote⟩ hown
    | user => rfl
    | slot arg => rfl
  · rw [htokens]
    rfl
  · rw [shapes, htokens]
    rfl

theorem broken_name {before text : SqlText} (hbefore : enclosed (chars before) = true) (h : Named text)
    (hopen : enclosed (chars text) = false) : Broken Origin.own .start (mark :: (before ++ text) ++ [mark]) := by
  rcases h with ⟨s, rfl⟩ | ⟨h, -⟩
  · refine broken_literal rfl rfl rfl hbefore (fun c hc => ?_) hopen
    obtain ⟨x, -, rfl⟩ := List.mem_map.mp hc
    rfl
  · exact absurd (h.symm.trans hopen) (by decide)

/-! ### Texts that may be taken apart -/

/-- What is written between quotes stays there and the text is sound, or it does not and a literal is taken apart. -/
def Decided (encloses : Bool) (text : SqlText) (args : List Arg) (shape : Shape) : Prop :=
  (encloses = true ∧ Sound text args shape) ∨ (encloses = false ∧ Broken Origin.own .start text)

theorem Sound.decided {text : SqlText} {args : List Arg} {shape : Shape} (h : Sound text args shape) :
    Decided true text args shape :=
  .inl ⟨rfl, h⟩

theorem Decided.sound {text : SqlText} {args : List Arg} {shape : Shape} (h : Decided true text args shape) :
    Sound text args shape := by
  rcases h with ⟨-, h⟩ | ⟨he, -⟩
  · exact h
  · cases he

/-- Behind text of the builder. -/
theorem Decided.after {before text : SqlText} {encloses : Bool} {args : List Arg} {shape : Shape}
    (hstart : (run .start before).1 = .start) (hfixed : Fixed before) (h : Decided encloses text args shape) :
    Decided encloses (before ++ text) args (shapes before ++ shape) := by
  have hbreaks : Breaks (run .start before).1 text := by
    rw [hstart]
    exact breaks_start text
  rcases h with ⟨he, h⟩ | ⟨he, h⟩
  · exact .inl ⟨he, hfixed.append h hbreaks⟩
  · exact .inr ⟨he, broken_append_left h.ne_nil hbreaks h⟩

/-- Two texts, the second of which begins with a separator. -/
theorem Decided.append {a b : SqlText} {e e' : Bool} {args args' : List Arg} {shape shape' : Shape}
    (ha : Decided e a args shape) (hb : Decided e' b args' shape') (hseparated : Separated b) :
    Decided (e && e') (a ++ b) (args ++ args') (shape ++ shape') := by
  rcases ha with ⟨rfl, ha⟩ | ⟨rfl, ha⟩
  · have hbreaks := State.Settled.breaks ha.ends hseparated
    rcases hb with ⟨rfl, hb⟩ | ⟨rfl, hb⟩
    · exact .inl ⟨rfl, ha.append hb hbreaks⟩
    · exact .inr ⟨rfl, broken_append_left hb.ne_nil hbreaks hb⟩
  · exact .inr ⟨Bool.false_and _, broken_append_right ha b⟩

/-- Before text of the builder. -/
theorem Decided.before {text after : SqlText} {encloses : Bool} {args : List Arg} {shape : Shape}
    (h : Decided encloses text args shape) (hseparated : Separated after) (hfixed : Fixed after) :
    Decided encloses (text ++ after) args (shape ++ shapes after) := by
  have hboth := h.append hfixed.decided hseparated
  rw [Bool.and_true, List.append_nil] at hboth
  exact hboth

/-- Two texts around a separator. -/
theorem Decided.around {sep : String} {a b : SqlText} {e e' : Bool} {args args' : List Arg} {shape shape' : Shape}
    (ha : Decided e a args shape) (hsep : Divides sep) (hb : Decided e' b args' shape') :
    Decided (e && e') (a ++ lit sep ++ b) (args ++ args') (shape ++ shapes (lit sep) ++ shape') := by
  rw [List.append_assoc, List.append_assoc]
  exact ha.append (hb.after hsep.separator.ended hsep.fixed) (hsep.separator.separated_append b)

/-! ### Operands -/

/-- The structure of an operand. -/
def Operand.shape : Operand → Shape
  | .column name => shapes (lit name.sql)
  | .extract _ => shapes (lit "json_extract(events.source, ") ++ [(.string, [])] ++ shapes (lit ")")
  | .member a _ => a.shape ++ (shapes (lit "->>") ++ [(.string, [])])
  | .literal _ => [(.string, [])]
  | .arg _ => [(.parameter, ['?'])]

/-- The names of an operand are written between quotes. -/
def Operand.Named : Operand → Prop
  | .extract path => Sqlite.Named path
  | .member a name => a.Named ∧ Sqlite.Named name
  | .literal s => enclosed (chars (lit s)) = true ∧ Reading.Plain (lit s)
  | _ => True

theorem Operand.sql_extract (path : SqlText) : (Operand.extract path).sql =
    lit "json_extract(events.source, " ++ (mark :: (lit "$." ++ path) ++ [mark]) ++ lit ")" := by
  have hopen : lit "json_extract(events.source, '$." = lit "json_extract(events.source, " ++ (mark :: lit "$.") := rfl
  have hclose : lit "')" = [mark] ++ lit ")" := rfl
  simp only [Operand.sql, hopen, hclose, List.append_assoc, List.cons_append]

theorem Operand.sql_member (a : Operand) (name : SqlText) : (Operand.member a name).sql =
    a.sql ++ (lit "->>" ++ (mark :: ([] ++ name) ++ [mark])) := by
  have hopen : lit "->>'" = lit "->>" ++ [mark] := rfl
  have hclose : lit "'" = [mark] := rfl
  simp only [Operand.sql, hopen, hclose, List.append_assoc, List.nil_append, List.cons_append]

theorem sound_slot (arg : Arg) : Sound (slot arg) [arg] [(.parameter, ['?'])] where
  ends := settled_parameter _
  intact t ht := by
    obtain rfl := List.mem_singleton.mp ht
    exact ⟨(nomatch ·), (nomatch ·)⟩
  parameters := rfl
  shape := rfl

theorem sound_column (name : Column) : Sound (lit name.sql) [] (shapes (lit name.sql)) := by
  cases name <;> exact fixed_of_word rfl (by decide) rfl

/-- A literal behind an arrow. -/
theorem Sound.behind_arrow {text : SqlText} {args : List Arg} {shape : Shape} (h : Sound (mark :: text) args shape) :
    Sound (lit "->>" ++ mark :: text) args (shapes (lit "->>") ++ shape) := by
  have hbreaks : Breaks (run .start (lit "->>")).1 (mark :: text) := .inr rfl
  have hintact : ∀ t ∈ tokens (lit "->>"), t.Intact Origin.own := by decide
  refine ⟨?_, fun t ht => ?_, ?_, ?_⟩
  · rw [Ends, state_append (List.cons_ne_nil _ _) hbreaks]
    exact h.ends
  · rw [tokens_append hbreaks] at ht
    exact (List.mem_append.mp ht).elim (hintact t) (h.intact t)
  · rw [tokens_append hbreaks, parameters_append, h.parameters]
    rfl
  · rw [shapes, tokens_append hbreaks, List.map_append, ← h.shape, shapes, shapes]

theorem Operand.decided {a : Operand} (h : a.Named) : Decided a.encloses a.sql a.args a.shape := by
  induction a with
  | column name => exact .inl ⟨rfl, sound_column name⟩
  | arg value => exact .inl ⟨rfl, sound_slot value⟩
  | literal s => exact .inl ⟨rfl, sound_literal [] rfl (by decide) h.2 h.1⟩
  | extract path =>
      have hopen : Fixed (lit "json_extract(events.source, ") := fixed_of_start rfl (by decide) rfl
      have hclose : Fixed (lit ")") := fixed_of_start rfl (by decide) rfl
      have hstart : ∀ text, Breaks (run .start (lit "json_extract(events.source, ")).1 text := breaks_start
      rw [Operand.sql_extract]
      cases henclosed : enclosed (chars path) with
      | true =>
          refine .inl ⟨henclosed, ?_⟩
          have hpath := hopen.append (sound_literal (lit "$.") rfl (by decide) h.plain henclosed) (hstart _)
          exact hpath.append hclose (State.Settled.breaks hpath.ends (by decide))
      | false =>
          refine .inr ⟨henclosed, broken_append_right (broken_append_left (by simp) (hstart _) ?_) _⟩
          exact broken_name rfl h henclosed
  | member a name ih =>
      rw [Operand.sql_member]
      have hseparated : ∀ text, Separated (lit "->>" ++ text) := fun text => by show '-' ∈ breaks; decide
      rcases ih h.1 with ⟨ha, hsound⟩ | ⟨ha, hbroken⟩
      · have hbreaks : ∀ text, Breaks (run .start a.sql).1 (lit "->>" ++ text) := fun text =>
          State.Settled.breaks hsound.ends (hseparated text)
        cases henclosed : enclosed (chars name) with
        | true =>
            refine .inl ⟨by rw [Operand.encloses, ha, henclosed, Bool.and_self], ?_⟩
            have hname := (sound_literal [] rfl (by decide) h.2.plain henclosed).behind_arrow
            have hboth := hsound.append hname (hbreaks _)
            rw [List.append_nil] at hboth
            exact hboth
        | false =>
            refine .inr ⟨by rw [Operand.encloses, henclosed, Bool.and_false], broken_append_left (by simp) (hbreaks _) ?_⟩
            exact broken_append_left (by simp) (.inr rfl) (broken_name rfl h.2 henclosed)
      · exact .inr ⟨by rw [Operand.encloses, ha, Bool.false_and], broken_append_right hbroken _⟩

/-! ### Conditions -/

/-- The structure of a condition. -/
def Condition.shape : Condition → Shape
  | .compare op a b => a.shape ++ shapes (lit op.sql) ++ b.shape
  | .like a b => a.shape ++ shapes (lit " LIKE ") ++ b.shape
  | .notLike a b => a.shape ++ shapes (lit " NOT LIKE ") ++ b.shape
  | .glob a b => a.shape ++ shapes (lit " GLOB ") ++ b.shape
  | .isNull a => a.shape ++ shapes (lit " IS NULL")
  | .or a b => shapes (lit "(") ++ a.shape ++ shapes (lit " OR ") ++ b.shape ++ shapes (lit ")")

def Condition.Named : Condition → Prop
  | .compare _ a b | .like a b | .notLike a b | .glob a b => a.Named ∧ b.Named
  | .isNull a => a.Named
  | .or a b => a.Named ∧ b.Named

theorem divides_comparison (op : Comparison) : Divides op.sql := by
  cases op <;> exact divides_of (by simp [Comparison.sql, lit]) (by decide) (by decide)

theorem Condition.decided {c : Condition} (h : c.Named) : Decided c.encloses c.sql c.args c.shape := by
  induction c with
  | compare op a b => exact (Operand.decided h.1).around (divides_comparison op) (Operand.decided h.2)
  | like a b =>
      have hsep : Divides " LIKE " := divides_of (by simp [lit]) (by decide) (by decide)
      exact (Operand.decided h.1).around hsep (Operand.decided h.2)
  | notLike a b =>
      have hsep : Divides " NOT LIKE " := divides_of (by simp [lit]) (by decide) (by decide)
      exact (Operand.decided h.1).around hsep (Operand.decided h.2)
  | glob a b =>
      have hsep : Divides " GLOB " := divides_of (by simp [lit]) (by decide) (by decide)
      exact (Operand.decided h.1).around hsep (Operand.decided h.2)
  | isNull a =>
      have hnull : Fixed (lit " IS NULL") := fixed_of_word rfl (by decide) rfl
      exact (Operand.decided h).before (by decide) hnull
  | or a b iha ihb =>
      have hsep : Divides " OR " := divides_of (by simp [lit]) (by decide) (by decide)
      have hopen : Fixed (lit "(") := fixed_of_start rfl (by decide) rfl
      have hboth := ((iha h.1).after rfl hopen).around hsep (ihb h.2)
      exact hboth.before (by decide) (fixed_of_start rfl (by decide) rfl)

/-! ## Terms -/

/-- The conditions of an element of the kind that has no text. -/
def ClauseKind.conditions (fts : Bool) : ClauseKind → List Condition
  | .anywhere negated => (anywhereTerm fts negated "").conditions
  | .port negated => [fieldCondition (if negated then .ne else .eq) "src_port" ""]
  | .field negated _ => [fieldCondition (if negated then .ne else .eq) "" ""]
  | .dnsQuery => [.or (.compare .eq (dnsField "type") (.literal "query")) (.compare .eq (dnsField "type") (.literal "request"))]
  | .dnsAnswer => [.or (.compare .eq (dnsField "type") (.literal "answer")) (.compare .eq (dnsField "type") (.literal "response"))]
  | .rrname =>
      [.or (.compare .eq (dnsField "rrname") (.arg (.text "")))
        (.compare .eq (.member (.column .query) (lit "rrname")) (.arg (.text "")))]
  | .queries names =>
      [.compare .eq ((List.replicate names []).foldl (fun a name => .member a (user name)) (.column .query)) (.arg (.text ""))]
  | .answers names =>
      [.compare .eq ((List.replicate names []).foldl (fun a name => .member a (user name)) (.column .answer)) (.arg (.text ""))]
  | .authorities => [.glob (dnsField "authorities") (.arg (.text ""))]
  | .additionals => [.glob (dnsField "additionals") (.arg (.text ""))]
  | .time op => [.compare op (.column .timestamp) (.arg (.int 0))]
  | .archived => [flagCondition .archived false]
  | .escalated => [flagCondition .escalated false]

/-- An element of the kind asks the full-text index. -/
def ClauseKind.asks (fts : Bool) : ClauseKind → Bool
  | .anywhere negated => fts && !negated
  | .field _ accelerated => fts && accelerated
  | _ => false

/-- What a term writes: its kind decides on the structure, and the texts on whether literals stay whole. -/
structure Term.Writes (t : Term) (fts : Bool) (kind : ClauseKind) (texts : List (List Char)) : Prop where
  named : ∀ c ∈ t.conditions, c.Named
  shapes : t.conditions.map Condition.shape = (kind.conditions fts).map Condition.shape
  encloses : t.conditions.all Condition.encloses = texts.all SqlTokens.enclosed
  phrases : t.phrases.isEmpty = !kind.asks fts

/-- A term of one condition that reads no text in quotes but the builder's own. -/
theorem Term.Writes.own {c c' : Condition} {fts : Bool} {kind : ClauseKind} (hnamed : c.Named) (hencloses : c.encloses = true)
    (hkind : kind.conditions fts = [c']) (hshape : c.shape = c'.shape) (hasks : kind.asks fts = false) :
    Term.Writes { conditions := [c] } fts kind [] where
  named := by
    rintro d hd
    obtain rfl := List.mem_singleton.mp hd
    exact hnamed
  shapes := by rw [hkind, List.map_singleton, List.map_singleton, hshape]
  encloses := by rw [all_singleton, hencloses]; rfl
  phrases := by rw [hasks]; rfl

theorem anywhere_writes (fts negated : Bool) (s : String) : (anywhereTerm fts negated s).Writes fts (.anywhere negated) [] := by
  cases negated with
  | true => exact .own ⟨trivial, trivial⟩ rfl rfl rfl (Bool.and_false _)
  | false =>
      cases fts with
      | true => exact ⟨fun _ h => absurd h List.not_mem_nil, rfl, rfl, rfl⟩
      | false => exact .own ⟨trivial, trivial⟩ rfl rfl rfl rfl

theorem Operand.encloses_arg (value : Arg) : (Operand.arg value).encloses = true := rfl

theorem Operand.encloses_column (name : Column) : (Operand.column name).encloses = true := rfl

theorem fieldOf_named (k : String) : (fieldOf k).Named := by
  unfold fieldOf
  split_ifs
  · exact ⟨trivial, named_user _⟩
  · exact named_user _

theorem chars_user (s : List Char) : chars (user s) = s := by
  rw [chars, user, List.map_map]
  exact List.map_id s

theorem fieldOf_encloses (k : String) : (fieldOf k).encloses = SqlTokens.enclosed k.toList := by
  unfold fieldOf
  split_ifs
  · rw [Operand.encloses, chars_user, sourceColumn, Operand.encloses_column, Bool.true_and]
  · rw [Operand.encloses, chars_user]

/-- The names of a joined field: their number decides on its structure. -/
theorem foldl_member_named (names : List (List Char)) : ∀ a : Operand, a.Named →
    let field := names.foldl (fun a name => Operand.member a (user name)) a
    field.Named ∧ field.encloses = (a.encloses && names.all SqlTokens.enclosed) ∧
      field.shape = ((List.replicate names.length []).foldl (fun a name => Operand.member a (user name)) a).shape := by
  have hshape : ∀ (names : List (List Char)) (a b : Operand), a.shape = b.shape →
      (names.foldl (fun a name => Operand.member a (user name)) a).shape =
        ((List.replicate names.length []).foldl (fun a name => Operand.member a (user name)) b).shape := by
    intro names
    induction names with
    | nil => exact fun _ _ h => h
    | cons name names ih => exact fun a b h => ih _ _ (by rw [Operand.shape, Operand.shape, h])
  intro a h
  refine ⟨?_, ?_, hshape names a a rfl⟩
  · induction names generalizing a with
    | nil => exact h
    | cons name names ih => exact ih _ ⟨h, named_user name⟩
  · clear h
    induction names generalizing a with
    | nil => exact (Bool.and_true _).symm
    | cons name names ih => rw [List.foldl_cons, ih, Operand.encloses, chars_user, List.all_cons, Bool.and_assoc]

/-- The clause of a joined field. -/
theorem joined_writes {fts : Bool} {column : Column} {k v : String} {kind : ClauseKind}
    (hkind : kind.conditions fts = [.compare .eq ((List.replicate (namesBehind k).length []).foldl
      (fun a name => .member a (user name)) (.column column)) (.arg (.text ""))]) (hasks : kind.asks fts = false) :
    Term.Writes { conditions := [.compare .eq (joinedField column k) (.arg (.text v))] } fts kind (namesBehind k) := by
  obtain ⟨hnamed, hencloses, hshape⟩ := foldl_member_named (namesBehind k) (.column column) trivial
  refine ⟨?_, ?_, ?_, by rw [hasks]; rfl⟩
  · rintro d hd
    obtain rfl := List.mem_singleton.mp hd
    exact ⟨hnamed, trivial⟩
  · rw [hkind, List.map_singleton, List.map_singleton, Condition.shape, Condition.shape, joinedField, ← namesBehind, hshape]
    rfl
  · rw [all_singleton, Condition.encloses, joinedField, ← namesBehind, hencloses,
      Operand.encloses_arg, Operand.encloses_column, Bool.true_and, Bool.and_true]

/-- The clause of a field. -/
theorem field_writes {fts : Bool} {op : Comparison} {k k' v v' : String} {phrases : List String} {kind : ClauseKind}
    (hport : isPort k = isPort k') (hkind : kind.conditions fts = [fieldCondition op k' v'])
    (hphrases : phrases.isEmpty = !kind.asks fts) :
    Term.Writes { conditions := [fieldCondition op k v], phrases } fts kind [k.toList] := by
  refine ⟨?_, ?_, ?_, hphrases⟩
  · rintro d hd
    obtain rfl := List.mem_singleton.mp hd
    exact ⟨fieldOf_named k, trivial⟩
  · have hshape : (fieldOf k).shape = (fieldOf k').shape := by
      unfold fieldOf
      rw [hport]
      split_ifs <;> rfl
    rw [hkind, List.map_singleton, List.map_singleton, fieldCondition, fieldCondition, Condition.shape, Condition.shape, hshape]
    rfl
  · rw [all_singleton, fieldCondition, Condition.encloses, fieldOf_encloses, Operand.encloses_arg, Bool.and_true,
      all_singleton]

theorem key_writes (fts negated : Bool) (k v : String) :
    (keyTerm fts negated k v).Writes fts (keyKind negated k v) (splicedKey negated k v) := by
  have hliteral : ∀ s : String, enclosed (chars (lit s)) = true → Reading.Plain (lit s) → (Operand.literal s).Named :=
    fun _ h h' => ⟨h, h'⟩
  have hdns : ∀ name : String, enclosed (chars (lit name)) = true → Reading.Plain (lit name) → (dnsField name).Named :=
    fun _ h h' => ⟨⟨trivial, .inr ⟨by decide, by decide⟩⟩, .inr ⟨h, h'⟩⟩
  unfold splicedKey keyKind keyTerm
  by_cases haddress : k = "@ip" ∨ k = "@mac"
  · rw [if_pos haddress, if_pos haddress]
    exact anywhere_writes fts negated v
  rw [if_neg haddress, if_neg haddress]
  by_cases hport : k = "src_port" ∨ k = "dest_port"
  · have hisPort : isPort k = true := decide_eq_true hport
    rw [if_pos hport, EventQueryBuilder.ownCondition_of_isPort hisPort, Option.getD_none]
    have hsame : isPort k = isPort "src_port" := hisPort.trans (by decide)
    have haccelerated : isAccelerated k = false := by rcases hport with rfl | rfl <;> decide
    cases negated with
    | true => exact field_writes hsame rfl rfl
    | false =>
        refine field_writes hsame rfl ?_
        rw [haccelerated, Bool.and_false]
        rfl
  have hblank : isPort k = isPort "" := (decide_eq_false hport).trans (by decide)
  rw [if_neg hport]
  cases negated with
  | true => exact field_writes hblank rfl (by simp [ClauseKind.asks])
  | false =>
      rw [if_neg Bool.false_ne_true, if_neg Bool.false_ne_true]
      cases hown : ownCondition k v with
      | none =>
          have hphrases : (if fts && isAccelerated k then [v] else []).isEmpty = !(fts && isAccelerated k) := by
            split_ifs with h
            · rw [h]
              rfl
            · rw [Bool.eq_false_iff.mpr h]
              rfl
          generalize (if fts && isAccelerated k then [v] else []) = phrases at hphrases
          unfold ownCondition at hown
          dsimp only at hown
          split_ifs at hown ⊢
          exact field_writes hblank rfl hphrases
      | some c =>
          rw [isAccelerated_of_ownCondition hown, Bool.and_false, if_neg Bool.false_ne_true, Option.getD_some]
          unfold ownCondition at hown
          dsimp only at hown
          split_ifs at hown ⊢
          all_goals obtain rfl := Option.some.inj hown
          · exact .own ⟨⟨hdns _ (by decide) (by decide), hliteral _ (by decide) (by decide)⟩,
              ⟨hdns _ (by decide) (by decide), hliteral _ (by decide) (by decide)⟩⟩ (by decide) rfl rfl rfl
          · exact .own ⟨⟨hdns _ (by decide) (by decide), hliteral _ (by decide) (by decide)⟩,
              ⟨hdns _ (by decide) (by decide), hliteral _ (by decide) (by decide)⟩⟩ (by decide) rfl rfl rfl
          · exact .own ⟨⟨hdns _ (by decide) (by decide), trivial⟩, ⟨trivial, .inr ⟨by decide, by decide⟩⟩, trivial⟩
              rfl rfl rfl rfl
          · exact joined_writes rfl rfl
          · exact joined_writes rfl rfl
          · exact .own ⟨hdns _ (by decide) (by decide), trivial⟩ rfl rfl rfl rfl
          · exact .own ⟨hdns _ (by decide) (by decide), trivial⟩ rfl rfl rfl rfl

theorem term_writes {fts : Bool} {e : QueryElement} {t : Term} (h : term fts e = some t) :
    t.Writes fts (clauseKind e) (spliced e) := by
  have htime : ∀ op ts, (timeCondition op ts).map (fun c => ({ conditions := [c] } : Term)) = some t →
      t.Writes fts (.time op) [] := by
    intro op ts h
    obtain ⟨c, hc, rfl⟩ := Option.map_eq_some_iff.mp h
    obtain ⟨nanos, -, rfl⟩ := Option.map_eq_some_iff.mp hc
    exact .own ⟨trivial, trivial⟩ rfl rfl rfl rfl
  obtain ⟨negated, value⟩ := e
  cases value with
  | string s =>
      obtain rfl := Option.some.inj h
      exact anywhere_writes fts negated s
  | keyValue k v =>
      obtain rfl := Option.some.inj h
      obtain ⟨hnamed, hshapes, hencloses, hphrases⟩ := key_writes fts negated (resolveKey k) v
      exact ⟨hnamed, hshapes, hencloses, hphrases⟩
  | fromTime ts => exact htime _ ts h
  | toTime ts => exact htime _ ts h
  | after ts => exact htime _ ts h
  | before ts => exact htime _ ts h
  | archived =>
      obtain rfl := Option.some.inj h
      exact .own ⟨trivial, trivial⟩ rfl rfl rfl rfl
  | escalated =>
      obtain rfl := Option.some.inj h
      exact .own ⟨trivial, trivial⟩ rfl rfl rfl rfl

end EveBox.Sqlite
