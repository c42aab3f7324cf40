import EveBox.Repo.QueryParserTheorems
import EveBox.Rust.Numbers
import EveBox.Sqlite.TokenStructure

/-!
# The tokens of a whole statement

Reference: `src/sqlite/builder.rs`.

* `exists_base` — the statement of a caller is that of what the caller does besides the query, with the query.
* `structure_iff` — when two queries of the same kinds have statements that keep their literals and their arguments
  apart, and that have the same tokens up to the content of the literals.
-/

namespace EveBox.Sqlite

open Rust Eve Repo SqlText SqlTokens

open EventQueryBuilder (applyQueryString_some foldl_append_eq leftJoinFromQueryString_eq part)

/-! ## Parts of the builder -/

theorem Sound.fixed {text : SqlText} {shape : Shape} (h : Sound text [] shape) : Fixed text := ⟨h.ends, h.intact, h.parameters, rfl⟩

theorem fixed_nil : Fixed [] := fixed_of_start rfl (fun _ h => absurd h List.not_mem_nil) rfl

theorem fixed_after {before text : SqlText} (hstart : (run .start before).1 = .start) (hbefore : Fixed before)
    (h : Fixed text) : Fixed (before ++ text) :=
  (h.decided.after hstart hbefore).sound.fixed

theorem fixed_append {a b : SqlText} (ha : Fixed a) (hb : Fixed b) (hseparated : Separated b) : Fixed (a ++ b) :=
  (ha.decided.append hb.decided hseparated).sound.fixed

/-! ### Lists of clauses -/

/-- A clause of a statement, and what it should be. -/
structure Clause where
  encloses : Bool
  text : SqlText
  args : List Arg
  shape : Shape

def Clause.Decided (c : Clause) : Prop := Sqlite.Decided c.encloses c.text c.args c.shape

/-- A clause of the builder alone, with its arguments. -/
def Clause.own (text : SqlText) (args : List Arg) : Clause := ⟨true, text, args, shapes text⟩

def Condition.clause (c : Condition) : Clause := ⟨c.encloses, c.sql, c.args, c.shape⟩

/-- The structure of what is joined. -/
def joinShape (sep : String) : List Shape → Shape
  | [] => []
  | shape :: rest => shape ++ rest.flatMap (shapes (lit sep) ++ ·)

/-- Clauses, each behind a separator. -/
theorem decided_behind {sep : String} (hsep : Divides sep) {clauses : List Clause}
    (h : ∀ c ∈ clauses, c.Decided) :
    Separated ((clauses.map Clause.text).flatMap (lit sep ++ ·)) ∧
      Sqlite.Decided (clauses.all Clause.encloses) ((clauses.map Clause.text).flatMap (lit sep ++ ·))
        (clauses.flatMap Clause.args) ((clauses.map Clause.shape).flatMap (shapes (lit sep) ++ ·)) := by
  induction clauses with
  | nil => exact ⟨trivial, fixed_nil.decided⟩
  | cons c clauses ih =>
      obtain ⟨hseparated, hclauses⟩ := ih fun c hc => h c (List.mem_cons_of_mem _ hc)
      refine ⟨?_, ?_⟩
      · rw [List.map_cons, List.flatMap_cons, List.append_assoc]
        exact hsep.separator.separated_append _
      · exact Decided.append (Decided.after hsep.separator.ended hsep.fixed (h c List.mem_cons_self)) hclauses hseparated

theorem decided_join {sep : String} (hsep : Divides sep) {clauses : List Clause}
    (h : ∀ c ∈ clauses, c.Decided) :
    Sqlite.Decided (clauses.all Clause.encloses) (join sep (clauses.map Clause.text)) (clauses.flatMap Clause.args)
      (joinShape sep (clauses.map Clause.shape)) := by
  cases clauses with
  | nil => exact fixed_nil.decided
  | cons c clauses =>
      obtain ⟨hseparated, hclauses⟩ := decided_behind hsep fun c hc => h c (List.mem_cons_of_mem _ hc)
      exact Decided.append (h c List.mem_cons_self) hclauses hseparated

/-- Pieces of the builder are clauses without arguments. -/
theorem own_decided {pieces : List SqlText} (h : ∀ piece ∈ pieces, Fixed piece) :
    ∀ c ∈ pieces.map (Clause.own · []), c.Decided := by
  intro c hc
  obtain ⟨piece, hpiece, rfl⟩ := List.mem_map.mp hc
  exact (h piece hpiece).decided

theorem own_clauses (pieces : List SqlText) : (pieces.map (Clause.own · [])).all Clause.encloses = true ∧
    (pieces.map (Clause.own · [])).map Clause.text = pieces ∧ (pieces.map (Clause.own · [])).flatMap Clause.args = [] := by
  induction pieces with
  | nil => exact ⟨rfl, rfl, rfl⟩
  | cons piece pieces ih =>
      obtain ⟨hall, htext, hargs⟩ := ih
      refine ⟨?_, ?_, hargs⟩
      · rw [List.map_cons, List.all_cons, hall]
        rfl
      · rw [List.map_cons, List.map_cons, htext]
        rfl

theorem fixed_join {sep : String} (hsep : Divides sep) {pieces : List SqlText}
    (h : ∀ piece ∈ pieces, Fixed piece) : Fixed (join sep pieces) := by
  obtain ⟨hall, htext, hargs⟩ := own_clauses pieces
  have hjoin := decided_join hsep (own_decided h)
  rw [hall, htext, hargs] at hjoin
  exact hjoin.sound.fixed

theorem fixed_behind {sep : String} (hsep : Divides sep) {pieces : List SqlText}
    (h : ∀ piece ∈ pieces, Fixed piece) :
    Separated (pieces.flatMap (lit sep ++ ·)) ∧ Fixed (pieces.flatMap (lit sep ++ ·)) := by
  obtain ⟨hall, htext, hargs⟩ := own_clauses pieces
  obtain ⟨hseparated, hbehind⟩ := decided_behind hsep (own_decided h)
  rw [hall, htext, hargs] at hbehind
  rw [htext] at hseparated
  exact ⟨hseparated, hbehind.sound.fixed⟩

/-! ### Numbers -/

theorem run_number {digits : List Char} (h : ∀ c ∈ digits, c.isDigit = true) : ∀ text : SqlText,
    run (.number text) (digits.map (⟨·, .builder⟩)) = (.number (text ++ digits.map (⟨·, .builder⟩)), []) := by
  induction digits with
  | nil =>
      intro text
      rw [List.map_nil, List.append_nil]
      rfl
  | cons c digits ih =>
      intro text
      have hc := h c List.mem_cons_self
      have hnul : c ≠ nul := by
        rintro rfl
        exact absurd hc (by decide)
      have hid : isIdChar c = true := by simp [isIdChar, Char.isAlphanum, hc]
      have hstep : step (.number text) (⟨c, .builder⟩ : Labelled Origin) = (.number (text ++ [⟨c, .builder⟩]), []) := by
        simp [step, State.goOn, goesOnNumber, hnul, hid]
      rw [List.map_cons, run, hstep, ih fun c hc => h c (List.mem_cons_of_mem _ hc), List.append_assoc]
      rfl

/-- A number of the builder is one token. -/
theorem fixed_digits {digits : List Char} (hne : digits ≠ []) (h : ∀ c ∈ digits, c.isDigit = true) :
    Fixed (digits.map (⟨·, .builder⟩)) := by
  obtain ⟨c, digits, rfl⟩ := List.exists_cons_of_ne_nil hne
  have hc := h c List.mem_cons_self
  have hother : ∀ d : Char, d.isDigit = false → c ≠ d := by
    rintro d hd rfl
    exact absurd (hd.symm.trans hc) Bool.false_ne_true
  have hstep : step (.start : State Origin) ⟨c, .builder⟩ = (.number [⟨c, .builder⟩], []) := by
    have hnul := hother nul (by decide)
    have hspace : isSpace c = false := by simp [isSpace, hother]
    have hquotes : c ∉ [quote, '\x22', '\x60'] := by simp [quote, hother]
    have hparameters : c ∉ ['?', '@', '#', ':', '$'] := by simp [hother]
    have hbracket := hother '[' (by decide)
    simp only [step, if_neg hnul, State.goOn, begin, hspace, if_neg hquotes, if_neg hbracket, if_neg hparameters, hc, if_true,
      Bool.false_eq_true, if_false, State.finish, List.nil_append]
  have hrun : run .start ((c :: digits).map (⟨·, .builder⟩)) =
      ((.number ((c :: digits).map (⟨·, .builder⟩)) : State Origin), []) := by
    rw [List.map_cons, run, hstep, run_number fun c hc => h c (List.mem_cons_of_mem _ hc)]
    rfl
  have htokens : tokens ((c :: digits).map (⟨·, .builder⟩)) =
      [(⟨.number, (c :: digits).map (⟨·, .builder⟩)⟩ : Token Origin)] := by
    rw [tokens, tokensFrom, hrun]
    rfl
  refine ⟨?_, ?_, ?_, rfl⟩
  · rw [Ends, hrun]
    refine settled_number fun d hd => ?_
    obtain ⟨x, hx, rfl⟩ := List.mem_map.mp hd
    exact h x hx
  · intro t ht
    rw [htokens] at ht
    obtain rfl := List.mem_singleton.mp ht
    exact ⟨by rintro ⟨⟩, by rintro ⟨⟩⟩
  · rw [htokens]
    rfl

theorem fixed_toString (n : ℕ) : Fixed (lit (toString n)) := by
  have hdigits : (toString n).toList = Nat.toDigits 10 n := by
    show (Nat.repr n).toList = _
    rw [Nat.repr, String.toList_ofList]
  rw [lit, hdigits]
  exact fixed_digits Nat.toDigits_ne_nil fun c hc => isDigit_of_mem_toDigits hc

theorem fixed_toString_of_pos {n : ℤ} (h : 0 < n) : Fixed (lit (toString n)) := by
  obtain ⟨m, rfl⟩ := Int.eq_ofNat_of_zero_le (Int.le_of_lt h)
  exact fixed_toString m

/-! ## The statement -/

namespace EventQueryBuilder

variable (b : EventQueryBuilder)

/-- The statement before its conditions. -/
def head : SqlText :=
  lit "select " ++ join ", " b.select ++ (lit " from " ++ join ", " b.tables) ++ b.leftJoin.flatMap (lit " " ++ ·)

def order : SqlText :=
  match b.orderBy with
  | some (field, order) => lit " order by " ++ field ++ lit " " ++ order
  | none => []

/-- The statement behind its conditions. -/
def tail : SqlText :=
  part " group by " ", " b.groupBy ++ (b.order ++ if 0 < b.limit then lit " limit " ++ lit (toString b.limit) else [])

theorem sql_eq : b.sql = b.head ++ (part " where " " and " b.wheres ++ b.tail) := by
  unfold sql head tail order
  rcases b.orderBy with _ | ⟨field, order⟩
  · simp only [List.append_assoc]
  · simp only [List.append_assoc]

/-- The builder's own pieces. -/
structure OwnFixed : Prop where
  pieces : ∀ piece ∈ b.select ++ b.tables ++ b.groupBy, Fixed piece
  joins : ∀ piece ∈ b.leftJoin, Fixed piece
  order : ∀ piece ∈ b.orderBy, Fixed piece.1 ∧ Fixed piece.2

/-- A part that is there if it has pieces. -/
def partShape (keyword sep : String) (clauses : List Shape) : Shape :=
  if clauses = [] then [] else shapes (lit keyword) ++ joinShape sep clauses

variable {b}

theorem decided_part {keyword sep : String} (hkeyword : Divides keyword) (hsep : Divides sep) {clauses : List Clause}
    (h : ∀ c ∈ clauses, c.Decided) : Separated (part keyword sep (clauses.map Clause.text)) ∧
      Sqlite.Decided (clauses.all Clause.encloses) (part keyword sep (clauses.map Clause.text)) (clauses.flatMap Clause.args)
        (partShape keyword sep (clauses.map Clause.shape)) := by
  cases clauses with
  | nil => exact ⟨trivial, fixed_nil.decided⟩
  | cons c clauses =>
      exact ⟨hkeyword.separator.separated_append _, (decided_join hsep h).after hkeyword.separator.ended hkeyword.fixed⟩

theorem fixed_head (h : b.OwnFixed) : Fixed b.head := by
  have hcomma : Divides ", " := divides_of (by simp [lit]) (by decide) (by decide)
  have hspace : Divides " " := divides_of (by simp [lit]) (by decide) (by decide)
  have hfrom : Divides " from " := divides_of (by simp [lit]) (by decide) (by decide)
  have hselect : Fixed (lit "select " ++ join ", " b.select) := by
    refine fixed_after rfl (fixed_of_start rfl (by decide) rfl) (fixed_join hcomma fun piece hpiece => ?_)
    exact h.pieces piece (List.mem_append_left _ (List.mem_append_left _ hpiece))
  have htables : Fixed (lit " from " ++ join ", " b.tables) := by
    refine fixed_after hfrom.separator.ended hfrom.fixed (fixed_join hcomma fun piece hpiece => ?_)
    exact h.pieces piece (List.mem_append_left _ (List.mem_append_right _ hpiece))
  obtain ⟨hseparated, hjoins⟩ := fixed_behind hspace h.joins
  exact fixed_append (fixed_append hselect htables (hfrom.separator.separated_append _)) hjoins hseparated

theorem fixed_tail (h : b.OwnFixed) : Separated b.tail ∧ Fixed b.tail := by
  have hcomma : Divides ", " := divides_of (by simp [lit]) (by decide) (by decide)
  have hgroup : Divides " group by " := divides_of (by simp [lit]) (by decide) (by decide)
  have horderBy : Divides " order by " := divides_of (by simp [lit]) (by decide) (by decide)
  have hspace : Divides " " := divides_of (by simp [lit]) (by decide) (by decide)
  have hlimit : Divides " limit " := divides_of (by simp [lit]) (by decide) (by decide)
  have hlast : Separated (if 0 < b.limit then lit " limit " ++ lit (toString b.limit) else []) ∧
      Fixed (if 0 < b.limit then lit " limit " ++ lit (toString b.limit) else []) := by
    split_ifs with hpos
    · exact ⟨hlimit.separator.separated_append _, fixed_after hlimit.separator.ended hlimit.fixed (fixed_toString_of_pos hpos)⟩
    · exact ⟨trivial, fixed_nil⟩
  have horder : Separated b.order ∧ Fixed b.order := by
    unfold order
    cases hpieces : b.orderBy with
    | none => exact ⟨trivial, fixed_nil⟩
    | some pieces =>
        obtain ⟨hfield, hdirection⟩ := h.order pieces hpieces
        dsimp only
        rw [List.append_assoc, List.append_assoc]
        refine ⟨horderBy.separator.separated_append _, fixed_after horderBy.separator.ended horderBy.fixed ?_⟩
        exact fixed_append hfield (fixed_after hspace.separator.ended hspace.fixed hdirection)
          (hspace.separator.separated_append _)
  have hpart : Separated (part " group by " ", " b.groupBy) ∧ Fixed (part " group by " ", " b.groupBy) := by
    unfold part
    split_ifs
    · exact ⟨trivial, fixed_nil⟩
    · refine ⟨hgroup.separator.separated_append _, fixed_after hgroup.separator.ended hgroup.fixed ?_⟩
      exact fixed_join hcomma fun piece hpiece => h.pieces piece (List.mem_append_right _ hpiece)
  have hbehind := horder.1.append hlast.1
  exact ⟨hpart.1.append hbehind, fixed_append hpart.2 (fixed_append horder.2 hlast.2 hlast.1) hbehind⟩

theorem sql_decided (h : b.OwnFixed) {clauses : List Clause} (hclauses : ∀ c ∈ clauses, c.Decided)
    (hwheres : b.wheres = clauses.map Clause.text) :
    Sqlite.Decided (clauses.all Clause.encloses) b.sql (clauses.flatMap Clause.args)
      (shapes b.head ++ (partShape " where " " and " (clauses.map Clause.shape) ++ shapes b.tail)) := by
  have hwhere : Divides " where " := divides_of (by simp [lit]) (by decide) (by decide)
  have hand : Divides " and " := divides_of (by simp [lit]) (by decide) (by decide)
  obtain ⟨hseparated, hpart⟩ := decided_part hwhere hand hclauses
  obtain ⟨htail, hfixed⟩ := fixed_tail h
  rw [← hwheres] at hseparated hpart
  rw [sql_eq]
  have hall := (fixed_head h).decided.append (hpart.before htail hfixed) (hseparated.append htail)
  rw [Bool.true_and, List.nil_append] at hall
  exact hall

end EventQueryBuilder

/-! ## The clauses of a query -/

/-- The conditions of the terms of a query, as its kinds and its texts have it. -/
theorem terms_write {fts : Bool} {query : List QueryElement} {terms : List Term} (h : query.mapM (term fts) = some terms) :
    (∀ c ∈ terms.flatMap (·.conditions), c.Named) ∧
      (terms.flatMap (·.conditions)).map Condition.shape =
        (query.map elementKind).flatMap (fun kind => (kind.clause.conditions fts).map Condition.shape) ∧
      (terms.flatMap (·.conditions)).all Condition.encloses = query.all (fun e => (spliced e).all SqlTokens.enclosed) ∧
      (terms.flatMap (·.phrases)).isEmpty = !(query.map elementKind).any (·.clause.asks fts) := by
  induction query generalizing terms with
  | nil =>
      obtain rfl := Option.some.inj h
      exact ⟨fun _ h => absurd h List.not_mem_nil, rfl, rfl, rfl⟩
  | cons e query ih =>
      rw [List.mapM_cons] at h
      obtain ⟨t, ht, h⟩ := Option.bind_eq_some_iff.mp h
      obtain ⟨rest, hrest, h⟩ := Option.bind_eq_some_iff.mp h
      obtain rfl := Option.some.inj h
      obtain ⟨hnamed, hshapes, hencloses, hphrases⟩ := ih hrest
      have hwrites := term_writes ht
      have hempty : ∀ a b : List String, (a ++ b).isEmpty = (a.isEmpty && b.isEmpty) := fun a b => by cases a <;> rfl
      refine ⟨?_, ?_, ?_, ?_⟩
      · intro c hc
        rw [List.flatMap_cons, List.mem_append] at hc
        exact hc.elim (hwrites.named c) (hnamed c)
      · rw [List.flatMap_cons, List.map_append, hwrites.shapes, hshapes]
        rfl
      · rw [List.flatMap_cons, List.all_append, hwrites.encloses, hencloses, List.all_cons]
      · rw [List.flatMap_cons, hempty, hwrites.phrases, hphrases, List.map_cons, List.any_cons, Bool.not_or]
        rfl

/-- The clause of the phrases. -/
def phraseClause (query : Arg) : Clause :=
  let before := lit "events.rowid in (select rowid from fts where fts match "
  ⟨true, before ++ slot query ++ lit ")", [query], shapes before ++ [(.parameter, ['?'])] ++ shapes (lit ")")⟩

theorem phraseClause_decided (query : Arg) : (phraseClause query).Decided := by
  have hstart : (run .start (lit "events.rowid in (select rowid from fts where fts match ")).1 = .start := by
    decide +kernel
  have hbefore := fixed_of_start hstart (by decide +kernel) (by decide +kernel)
  have hslot := (sound_slot query).decided.after hstart hbefore
  exact hslot.before (by decide) (fixed_of_start rfl (by decide) rfl)

/-- The clauses of the full-text index: one, if there are phrases. -/
def phraseClauses (phrases : List String) : List Clause :=
  if phrases = [] then [] else [phraseClause (.text (" AND ".intercalate phrases))]

namespace EventQueryBuilder

/-- `build` adds the clause of the phrases. -/
theorem withPhrases_wheres (b : EventQueryBuilder) :
    b.withPhrases.wheres = b.wheres ++ (phraseClauses b.ftsPhrases).map Clause.text ∧
      b.withPhrases.args = b.args ++ (phraseClauses b.ftsPhrases).flatMap Clause.args := by
  unfold withPhrases phraseClauses
  split_ifs
  · exact ⟨(List.append_nil _).symm, (List.append_nil _).symm⟩
  · exact ⟨rfl, rfl⟩

/-- The rest of the statement is as it was. -/
theorem withPhrases_frame {b : EventQueryBuilder} (h : b.OwnFixed) :
    b.withPhrases.OwnFixed ∧ b.withPhrases.head = b.head ∧ b.withPhrases.tail = b.tail := by
  unfold withPhrases
  split_ifs
  · exact ⟨h, rfl, rfl⟩
  · exact ⟨⟨h.pieces, h.joins, h.order⟩, rfl, rfl⟩

end EventQueryBuilder

/-- The name of a join is its last word. -/
theorem join_fixed (j : Join) : Fixed j.sql := by
  have hword : (run .start j.sql).1 = .word (lit j.name) := by cases j <;> decide +kernel
  cases j <;> exact fixed_of_word hword (by decide +kernel) (by decide +kernel)

namespace Base

variable (base : Base)

/-- The joins of a query. -/
def joinsOf (kinds : List ElementKind) : List Join :=
  if base.joins then kinds.foldl (fun js kind => Search.addJoin js kind.join) [] else []

/-- The structure of the clauses. -/
def clauseShapes (kinds : List ElementKind) : List Shape :=
  base.before.map (fun clause => shapes clause.1) ++
    kinds.flatMap (fun kind => (kind.clause.conditions base.builder.fts).map Condition.shape) ++ base.after.map shapes ++
      if base.builder.ftsPhrases = [] ∧ kinds.any (·.clause.asks base.builder.fts) = false then []
      else [(phraseClause (.text "")).shape]

/-- The structure of the statement of a query of some kinds. -/
def shape (kinds : List ElementKind) : Shape :=
  let b := { base.builder with leftJoin := (base.joinsOf kinds).map Join.sql }
  shapes b.head ++ (EventQueryBuilder.partShape " where " " and " (base.clauseShapes kinds) ++ shapes b.tail)

variable {base}

theorem joined_eq (query : List QueryElement) :
    (if base.joins then base.builder.leftJoinFromQueryString query else base.builder) =
      { base.builder with leftJoin := (base.joinsOf (query.map elementKind)).map Join.sql } := by
  unfold joinsOf
  rw [List.foldl_map]
  split_ifs
  · exact leftJoinFromQueryString_eq query _ [] base.noJoins
  · show base.builder = { base.builder with leftJoin := [] }
    rw [← base.noJoins]

theorem foldl_pushWhere (clauses : List SqlText) : ∀ b : EventQueryBuilder,
    clauses.foldl EventQueryBuilder.pushWhere b = { b with wheres := b.wheres ++ clauses } := by
  induction clauses with
  | nil =>
      intro b
      rw [List.append_nil]
      rfl
  | cons clause clauses ih =>
      intro b
      rw [List.foldl_cons, ih]
      simp only [EventQueryBuilder.pushWhere, List.append_assoc, List.cons_append, List.nil_append]

/-- The phrases of a statement. -/
def phrasesOf (base : Base) (terms : List Term) : List String :=
  base.builder.ftsPhrases ++ terms.flatMap fun t => t.phrases.map fun p => "\x22" ++ p ++ "\x22"

/-- The clauses of a statement, in their order. -/
def clausesOf (base : Base) (terms : List Term) : List Clause :=
  base.before.map (fun clause => .own clause.1 clause.2) ++ (terms.flatMap (·.conditions)).map Condition.clause ++
    base.after.map (Clause.own · []) ++ phraseClauses (base.phrasesOf terms)

theorem apply_some {query : List QueryElement} {b : EventQueryBuilder} (h : base.apply query = some b) :
    ∃ terms, query.mapM (term base.builder.fts) = some terms ∧ b =
      { base.builder with
        leftJoin := (base.joinsOf (query.map elementKind)).map Join.sql
        wheres := base.before.map (·.1) ++ (terms.flatMap (·.conditions)).map Condition.sql ++ base.after
        args := base.before.flatMap (·.2) ++ (terms.flatMap (·.conditions)).flatMap Condition.args
        ftsPhrases := base.phrasesOf terms } := by
  obtain ⟨b', hb', rfl⟩ := Option.map_eq_some_iff.mp h
  rw [joined_eq] at hb'
  obtain ⟨terms, hterms, rfl⟩ := applyQueryString_some hb'
  refine ⟨terms, hterms, ?_⟩
  rw [foldl_append_eq, foldl_pushWhere, List.map_flatMap, List.flatMap_assoc]
  dsimp only
  rw [base.wheres, base.args]
  rfl


/-- The clauses of a query's statement, as its kinds and its texts have them. -/
theorem clausesOf_spec {query : List QueryElement} {terms : List Term}
    (h : query.mapM (term base.builder.fts) = some terms) : (∀ c ∈ base.clausesOf terms, c.Decided) ∧
      (base.clausesOf terms).map Clause.shape = base.clauseShapes (query.map elementKind) ∧
      (base.clausesOf terms).all Clause.encloses = query.all (fun e => (spliced e).all SqlTokens.enclosed) := by
  obtain ⟨hnamed, hshapes, hencloses, hphrases⟩ := terms_write h
  have hempty : base.phrasesOf terms = [] ↔
      base.builder.ftsPhrases = [] ∧ (query.map elementKind).any (·.clause.asks base.builder.fts) = false := by
    rw [phrasesOf, List.append_eq_nil_iff, ← Bool.not_eq_true', ← hphrases, List.isEmpty_iff, List.flatMap_eq_nil_iff,
      List.flatMap_eq_nil_iff]
    simp only [List.map_eq_nil_iff]
  have hafter : ∀ c ∈ base.after.map (Clause.own · []), c.Decided :=
    own_decided fun piece hpiece => base.pieces piece (List.mem_append_right _ hpiece)
  unfold clausesOf
  refine ⟨?_, ?_, ?_⟩
  · intro c hc
    rcases List.mem_append.mp hc with hc | hc
    · rcases List.mem_append.mp hc with hc | hc
      · rcases List.mem_append.mp hc with hc | hc
        · obtain ⟨clause, hclause, rfl⟩ := List.mem_map.mp hc
          exact (base.clauses clause hclause).decided
        · obtain ⟨condition, hcondition, rfl⟩ := List.mem_map.mp hc
          exact Condition.decided (hnamed condition hcondition)
      · exact hafter c hc
    · unfold phraseClauses at hc
      split_ifs at hc
      · exact absurd hc List.not_mem_nil
      · obtain rfl := List.mem_singleton.mp hc
        exact phraseClause_decided _
  · unfold clauseShapes phraseClauses
    rw [← hshapes, List.map_append, List.map_append, List.map_append, List.map_map, List.map_map, List.map_map]
    by_cases hphrase : base.phrasesOf terms = []
    · rw [if_pos hphrase, if_pos (hempty.mp hphrase)]
      rfl
    · rw [if_neg hphrase, if_neg fun h => hphrase (hempty.mpr h)]
      rfl
  · have hbefore : (base.before.map fun clause => Clause.own clause.1 clause.2).all Clause.encloses = true := by
      rw [List.all_map]
      exact List.all_eq_true.mpr fun _ _ => rfl
    have hphrase : (phraseClauses (base.phrasesOf terms)).all Clause.encloses = true := by
      unfold phraseClauses
      split_ifs <;> rfl
    rw [List.all_append, List.all_append, List.all_append, hbefore, hphrase, (own_clauses base.after).1, List.all_map,
      Bool.true_and, Bool.and_true, Bool.and_true, ← hencloses]
    rfl

/-- The statement of a query. -/
theorem statement_decided {query : List QueryElement} {s : SqlText × List Arg} (h : base.statement query = some s) :
    Sqlite.Decided (query.all fun e => (spliced e).all SqlTokens.enclosed) s.1 s.2 (base.shape (query.map elementKind)) := by
  obtain ⟨b, hb, rfl⟩ := Option.map_eq_some_iff.mp h
  obtain ⟨terms, hterms, rfl⟩ := apply_some hb
  obtain ⟨hclauses, hshapes, hencloses⟩ := clausesOf_spec hterms
  generalize hb' : ({ base.builder with
    leftJoin := (base.joinsOf (query.map elementKind)).map Join.sql
    wheres := base.before.map (·.1) ++ (terms.flatMap (·.conditions)).map Condition.sql ++ base.after
    args := base.before.flatMap (·.2) ++ (terms.flatMap (·.conditions)).flatMap Condition.args
    ftsPhrases := base.phrasesOf terms } : EventQueryBuilder) = b
  have hown : b.OwnFixed := by
    rw [← hb']
    refine ⟨fun piece hpiece => base.pieces piece (List.mem_append_left _ hpiece), fun piece hpiece => ?_, base.order⟩
    obtain ⟨j, -, rfl⟩ := List.mem_map.mp hpiece
    exact join_fixed j
  obtain ⟨hownPhrases, hhead, htail⟩ := EventQueryBuilder.withPhrases_frame hown
  obtain ⟨hwheres, hargs⟩ := b.withPhrases_wheres
  have hclausesText : b.withPhrases.wheres = (base.clausesOf terms).map Clause.text := by
    rw [hwheres, ← hb', clausesOf, List.map_append, List.map_append, List.map_append, List.map_map, List.map_map,
      (own_clauses base.after).2.1]
    rfl
  have hclausesArgs : b.withPhrases.args = (base.clausesOf terms).flatMap Clause.args := by
    rw [hargs, ← hb', clausesOf, List.flatMap_append, List.flatMap_append, List.flatMap_append, List.flatMap_map,
      List.flatMap_map, (own_clauses base.after).2.2, List.append_nil]
    rfl
  have hdecided := EventQueryBuilder.sql_decided hownPhrases hclauses hclausesText
  rw [hencloses, hshapes, hhead, htail, ← hclausesArgs] at hdecided
  rw [shape, EventQueryBuilder.build]
  subst hb'
  exact hdecided

end Base

/-! ## The callers -/

/-- A condition of a caller, as it is. -/
theorem sound_condition {c : Condition} (h : c.Named) (he : c.encloses = true) : Sound c.sql c.args (shapes c.sql) := by
  have hdecided := Condition.decided h
  rw [he] at hdecided
  have hsound := hdecided.sound
  rw [hsound.shape]
  exact hsound

/-- The conditions of `events` besides those of the query. -/
theorem baseConditions_sound {q : EventQueryParams} {cs : List Condition} (h : baseConditions q = some cs) :
    ∀ c ∈ cs, Sound c.sql c.args (shapes c.sql) := by
  have htimes : ∀ {op : Comparison} {ts : Option DateTime} {cs : List Condition},
      ts.toList.mapM (timeCondition op) = some cs → ∀ c ∈ cs, Sound c.sql c.args (shapes c.sql) := by
    intro op ts cs h c hc
    obtain ⟨t, -, ht⟩ := (mem_of_mapM_eq_some h c).mp hc
    obtain ⟨nanos, -, rfl⟩ := Option.map_eq_some_iff.mp ht
    exact sound_condition ⟨trivial, trivial⟩ rfl
  have hname : ∀ s : String, enclosed (chars (lit s)) = true → Reading.Plain (lit s) → (Operand.extract (lit s)).Named :=
    fun _ h h' => .inr ⟨h, h'⟩
  obtain ⟨before, hbefore, h⟩ := Option.bind_eq_some_iff.mp h
  obtain ⟨since, hsince, h⟩ := Option.bind_eq_some_iff.mp h
  obtain rfl := Option.some.inj h
  intro c hc
  simp only [List.mem_append, List.mem_map] at hc
  rcases hc with ((⟨s, -, rfl⟩ | ⟨s, -, rfl⟩) | hc) | hc
  · exact sound_condition ⟨hname _ (by decide) (by decide), trivial⟩ rfl
  · split_ifs
    · exact sound_condition (hname _ (by decide) (by decide)) rfl
    · exact sound_condition ⟨hname _ (by decide) (by decide), trivial⟩ rfl
  · exact htimes hbefore c hc
  · exact htimes hsince c hc

theorem eventColumns_fixed : ∀ piece ∈ eventColumns, Fixed piece := by
  intro piece hpiece
  simp only [eventColumns, List.map_cons, List.map_nil, List.mem_cons, List.not_mem_nil, or_false] at hpiece
  have hword : ∀ text word : String, (run .start (lit text)).1 = .word (lit word) →
      (∀ t ∈ tokens (lit text), t.Intact Origin.own) → parameters (tokens (lit text)) = [] → Fixed (lit text) :=
    fun _ _ => fixed_of_word
  rcases hpiece with rfl | rfl | rfl | rfl
  · exact hword _ "id" (by decide +kernel) (by decide +kernel) (by decide +kernel)
  · exact hword _ "archived" (by decide +kernel) (by decide +kernel) (by decide +kernel)
  · exact hword _ "escalated" (by decide +kernel) (by decide +kernel) (by decide +kernel)
  · exact hword _ "source" (by decide +kernel) (by decide +kernel) (by decide +kernel)

/-- `events` with a query. -/
theorem events_base {fts : Bool} {q : EventQueryParams} (horder : ∀ o ∈ q.order, Fixed (user o.toList)) {cs : List Condition}
    (hcs : baseConditions q = some cs) : ∃ base : Base, base.joins = true ∧
      ∀ query, eventsBuilder fts { q with queryString := query } = base.apply query := by
  have hevents : Fixed (lit "events") := fixed_of_word rfl (by decide) rfl
  have hfield : Fixed (lit "events.timestamp") := fixed_of_word rfl (by decide) rfl
  have hdirection : Fixed (lit "DESC") := fixed_of_word rfl (by decide) rfl
  refine ⟨{
    builder :=
      { fts, select := eventColumns, tables := [lit "events"], limit := asI64 (q.size.getD 500),
        wheres := cs.map Condition.sql, args := cs.flatMap Condition.args,
        orderBy := some (lit "events.timestamp", (q.order.map fun o => user o.toList).getD (lit "DESC")) }
    before := cs.map fun c => (c.sql, c.args)
    after := []
    joins := true
    wheres := by rw [List.map_map]; rfl
    args := by rw [List.flatMap_map]
    noJoins := rfl
    clauses := ?_
    pieces := ?_
    order := ?_ }, rfl, fun query => ?_⟩
  · intro clause hclause
    obtain ⟨c, hc, rfl⟩ := List.mem_map.mp hclause
    exact baseConditions_sound hcs c hc
  · intro piece hpiece
    rw [List.append_nil, List.append_nil] at hpiece
    rcases List.mem_append.mp hpiece with hpiece | hpiece
    · exact eventColumns_fixed piece hpiece
    · obtain rfl := List.mem_singleton.mp hpiece
      exact hevents
  · intro piece hpiece
    obtain rfl := Option.some.inj hpiece
    refine ⟨hfield, ?_⟩
    cases ho : q.order with
    | none => exact hdirection
    | some o => exact horder o ho
  · have hle : ∀ b ts, EventQueryBuilder.timestampLte b ts = (timeCondition .le ts).map fun c => b.append { conditions := [c] } :=
      fun b ts => EventQueryBuilder.whereTimestamp_eq b ts rfl
    have hge : ∀ b ts, EventQueryBuilder.timestampGte b ts = (timeCondition .ge ts).map fun c => b.append { conditions := [c] } :=
      fun b ts => EventQueryBuilder.whereTimestamp_eq b ts rfl
    obtain ⟨before, hbefore, hcs⟩ := Option.bind_eq_some_iff.mp hcs
    obtain ⟨since, hsince, hcs⟩ := Option.bind_eq_some_iff.mp hcs
    obtain rfl := Option.some.inj hcs
    unfold eventsBuilder Base.apply
    dsimp only
    rw [leftJoinFromQueryString_eq query _ [] rfl, if_pos rfl, leftJoinFromQueryString_eq query _ [] rfl,
      EventQueryBuilder.whereEventType_eq, EventQueryBuilder.whereSensor_eq, EventQueryBuilder.whereTime_eq _ hle, hbefore]
    simp only [Option.map_some, Option.bind_eq_bind, Option.bind_some, EventQueryBuilder.whereTime_eq _ hge, hsince,
      EventQueryBuilder.applyQueryString_eq, EventQueryBuilder.append_append]
    generalize hb : EventQueryBuilder.append _ _ = b
    have hfts : b.fts = fts := by
      rw [← hb]
      rfl
    rw [hfts]
    cases query.mapM (term fts) with
    | none => rfl
    | some terms =>
        simp only [Option.map_some, Option.bind_some, foldl_append_eq, ← hb, List.foldl_nil]
        rfl

/-- A caller that does not make the joins, and has no arguments of its own. -/
theorem plain_base {b : EventQueryBuilder} {after : List SqlText} (hjoin : b.leftJoin = []) (hargs : b.args = [])
    (hwheres : ∀ clause ∈ b.wheres, Fixed clause) (hpieces : ∀ piece ∈ b.select ++ b.tables ++ b.groupBy ++ after, Fixed piece)
    (horder : ∀ piece ∈ b.orderBy, Fixed piece.1 ∧ Fixed piece.2) : ∃ base : Base, base.joins = false ∧
      ∀ query, (b.applyQueryString query).map (after.foldl EventQueryBuilder.pushWhere) = base.apply query := by
  refine ⟨{
    builder := b
    before := b.wheres.map fun clause => (clause, [])
    after
    joins := false
    wheres := ?_
    args := ?_
    noJoins := hjoin
    clauses := ?_
    pieces := hpieces
    order := horder }, rfl, fun query => rfl⟩
  · rw [List.map_map]
    exact (List.map_id _).symm
  · rw [hargs, List.flatMap_map]
    exact (List.flatMap_eq_nil_iff.mpr fun _ _ => rfl).symm
  · intro clause hclause
    obtain ⟨text, htext, rfl⟩ := List.mem_map.mp hclause
    exact hwheres text htext

theorem fixed_extractSql {field : String} (h : SqlTokens.enclosed field.toList = true) : Fixed (extractSql field) := by
  have hdecided := Operand.decided (a := .extract (user field.toList)) (named_user _)
  rw [Operand.encloses, chars_user, h] at hdecided
  exact hdecided.sound.fixed

/-- The clause of a kind of event. -/
theorem fixed_kind {field eventType : String} (h : eventTypeOf field = some eventType) :
    Fixed (lit "json_extract(events.source, '$.event_type') = '" ++ lit eventType ++ lit "'") := by
  have hfixed : ∀ s : String, enclosed (chars (lit s)) = true → Reading.Plain (lit s) →
      Fixed (Condition.compare .eq (.extract (lit "event_type")) (.literal s)).sql := by
    intro s hs hplain
    have hnamed : (Condition.compare .eq (.extract (lit "event_type")) (.literal s)).Named :=
      ⟨.inr ⟨by decide, by decide⟩, ⟨hs, hplain⟩⟩
    exact (sound_condition hnamed rfl).fixed
  unfold eventTypeOf at h
  split_ifs at h
  · obtain rfl := Option.some.inj h
    exact hfixed _ (by decide) (by decide)
  · obtain rfl := Option.some.inj h
    exact hfixed _ (by decide) (by decide)

/-- The clauses that `whereKind` adds. -/
def kindClauses (field : String) : List SqlText :=
  (eventTypeOf field).toList.map fun s => lit "json_extract(events.source, '$.event_type') = '" ++ lit s ++ lit "'"

theorem kindClauses_fixed (field : String) : ∀ clause ∈ kindClauses field, Fixed clause := by
  intro clause hclause
  obtain ⟨eventType, hkind, rfl⟩ := List.mem_map.mp hclause
  exact fixed_kind (Option.mem_toList.mp hkind)

theorem whereKind_eq (b : EventQueryBuilder) (field : String) :
    b.whereKind field = { b with wheres := b.wheres ++ kindClauses field } := by
  unfold EventQueryBuilder.whereKind kindClauses
  cases eventTypeOf field with
  | none => simp
  | some eventType => rfl

theorem fixed_coa : Fixed coa ∧ Fixed (coa ++ lit " as agg") ∧ Fixed (lit "count(" ++ coa ++ lit ") as count") := by
  have hcount : Fixed (lit "count(") := fixed_of_start rfl (by decide) rfl
  have hcoa : Fixed coa :=
    fixed_of_start (by decide +kernel) (by decide +kernel) (by decide +kernel)
  exact ⟨hcoa, fixed_append hcoa (fixed_of_word rfl (by decide) rfl) (by decide),
    fixed_append (fixed_after rfl hcount hcoa) (fixed_of_word rfl (by decide) rfl) (by decide)⟩

theorem aggColumns_fixed {field : String} (h : SqlTokens.enclosed field.toList = true) :
    (∀ piece ∈ aggColumns field, Fixed piece) ∧ ∀ piece ∈ aggStreamColumns field, Fixed piece := by
  have hcast : Fixed (lit "CAST(" ++ extractSql field ++ lit " AS TEXT) as agg") :=
    fixed_append (fixed_after rfl (fixed_of_start rfl (by decide) rfl) (fixed_extractSql h))
      (fixed_of_word rfl (by decide) rfl) (by decide)
  have hcount : Fixed (lit "count(" ++ extractSql field ++ lit ") as count") :=
    fixed_append (fixed_after rfl (fixed_of_start rfl (by decide) rfl) (fixed_extractSql h))
      (fixed_of_word rfl (by decide) rfl) (by decide)
  have htimestamp : Fixed (lit "timestamp") := fixed_of_word rfl (by decide) rfl
  unfold aggColumns aggStreamColumns
  constructor
  · split_ifs
    · exact List.forall_mem_cons.mpr ⟨fixed_coa.2.2, List.forall_mem_singleton.mpr fixed_coa.2.1⟩
    · exact List.forall_mem_cons.mpr ⟨hcount, List.forall_mem_singleton.mpr hcast⟩
  · refine List.forall_mem_cons.mpr ⟨htimestamp, List.forall_mem_singleton.mpr ?_⟩
    split_ifs
    · exact fixed_coa.2.1
    · exact hcast

theorem fixed_bucketSql (interval : ℕ) :
    Fixed (bucketSql interval) ∧ Fixed (lit "count(" ++ bucketSql interval ++ lit ")") := by
  have htimes : Divides " * " := divides_of (by simp [lit]) (by decide) (by decide)
  have hseconds : Fixed (lit "timestamp / 1000000000 / ") := fixed_of_start rfl (by decide) rfl
  have hbucket : Fixed (bucketSql interval) := by
    have hfirst := fixed_after rfl hseconds (fixed_toString interval)
    have hboth := hfirst.decided.around htimes (fixed_toString interval).decided
    exact hboth.sound.fixed
  exact ⟨hbucket, fixed_append (fixed_after rfl (fixed_of_start rfl (by decide) rfl) hbucket)
    (fixed_of_start rfl (by decide) rfl) (by decide)⟩

/-- What a caller itself writes of the text of a user stays where it is. -/
def Caller.Plain : Caller → Prop
  | .events q => ∀ o ∈ q.order, Fixed (user o.toList)
  | .agg field _ order => SqlTokens.enclosed field.toList = true ∧ Fixed (user order.toList)
  | .aggStream field => SqlTokens.enclosed field.toList = true
  | _ => True

/-- The statement of a caller is that of what it does besides the query, with the query. -/
theorem exists_base {fts : Bool} {caller : Caller} (hplain : caller.Plain) {query : List QueryElement} {b : EventQueryBuilder}
    (h : caller.builder fts query = some b) :
    ∃ base : Base, base.joins = caller.joins ∧ ∀ query, caller.builder fts query = base.apply query := by
  have hevents : Fixed (lit "events") := fixed_of_word rfl (by decide) rfl
  have hnone : ∀ x : Option EventQueryBuilder, x.map (([] : List SqlText).foldl EventQueryBuilder.pushWhere) = x :=
    fun x => by cases x <;> rfl
  cases caller with
  | events q =>
      have hspells := eventsBuilder_spells fts { q with queryString := query }
      have hb : eventsBuilder fts { q with queryString := query } = some b := h
      rw [hb] at hspells
      cases hcs : baseConditions q with
      | none =>
          have hsearch : search fts { q with queryString := query } = none := by
            unfold search
            rw [show baseConditions { q with queryString := query } = none from hcs]
            rfl
          rw [hsearch] at hspells
          cases hspells
      | some cs => exact events_base hplain hcs
  | agg field size order =>
      obtain ⟨hfield, horder⟩ := hplain
      have hagg : Fixed (lit "agg") := fixed_of_word rfl (by decide) rfl
      have hcount : Fixed (lit "count") := fixed_of_word rfl (by decide) rfl
      have hpieces : ∀ piece ∈ aggColumns field ++ [lit "events"] ++ [lit "agg"] ++ [], Fixed piece := by
        intro piece hpiece
        simp only [List.append_nil, List.mem_append, List.mem_singleton] at hpiece
        rcases hpiece with (hpiece | rfl) | rfl
        · exact (aggColumns_fixed hfield).1 piece hpiece
        · exact hevents
        · exact hagg
      obtain ⟨base, hbase, happly⟩ := @plain_base
        { fts, select := aggColumns field, tables := [lit "events"], wheres := kindClauses field, groupBy := [lit "agg"],
          orderBy := some (lit "count", user order.toList), limit := asI64 size } [] rfl rfl (kindClauses_fixed field) hpieces
        (by rintro piece ⟨⟩; exact ⟨hcount, horder⟩)
      refine ⟨base, hbase, fun query => ?_⟩
      rw [← happly, hnone, Caller.builder, aggBuilder, whereKind_eq]
      rfl
  | aggStream field =>
      have hnull : Fixed (lit "agg IS NOT NULL") := fixed_of_word rfl (by decide) rfl
      have hkind : (fun b : EventQueryBuilder => b.whereKind field) =
          (kindClauses field).foldl EventQueryBuilder.pushWhere := by
        funext b
        rw [whereKind_eq, Base.foldl_pushWhere]
      have hpieces : ∀ piece ∈ aggStreamColumns field ++ [lit "events"] ++ [] ++ kindClauses field, Fixed piece := by
        intro piece hpiece
        simp only [List.append_nil, List.mem_append, List.mem_singleton] at hpiece
        rcases hpiece with (hpiece | rfl) | hpiece
        · exact (aggColumns_fixed hplain).2 piece hpiece
        · exact hevents
        · exact kindClauses_fixed field piece hpiece
      obtain ⟨base, hbase, happly⟩ := @plain_base
        { fts, select := aggStreamColumns field, tables := [lit "events"], wheres := [lit "agg IS NOT NULL"],
          orderBy := some (lit "timestamp", lit "desc") } (kindClauses field) rfl rfl
        (List.forall_mem_singleton.mpr hnull) hpieces
        (by rintro piece ⟨⟩; exact ⟨fixed_of_word rfl (by decide) rfl, fixed_of_word rfl (by decide) rfl⟩)
      refine ⟨base, hbase, fun query => ?_⟩
      rw [← happly, Caller.builder, aggStreamBuilder, hkind]
      rfl
  | histogramTime interval =>
      obtain ⟨hbucket, hcount⟩ := fixed_bucketSql interval
      have hpieces : ∀ piece ∈ [bucketSql interval, lit "count(" ++ bucketSql interval ++ lit ")"] ++ [lit "events"] ++
          [bucketSql interval] ++ [], Fixed piece := by
        intro piece hpiece
        simp only [List.append_nil, List.mem_append, List.mem_cons, List.not_mem_nil, or_false] at hpiece
        rcases hpiece with ((rfl | rfl) | rfl) | rfl
        · exact hbucket
        · exact hcount
        · exact hevents
        · exact hbucket
      obtain ⟨base, hbase, happly⟩ := @plain_base
        { fts, select := [bucketSql interval, lit "count(" ++ bucketSql interval ++ lit ")"], tables := [lit "events"],
          groupBy := [bucketSql interval], orderBy := some (lit "timestamp", lit "asc") } [] rfl rfl
        (fun _ h => absurd h List.not_mem_nil) hpieces
        (by rintro piece ⟨⟩; exact ⟨fixed_of_word rfl (by decide) rfl, fixed_of_word rfl (by decide) rfl⟩)
      refine ⟨base, hbase, fun query => ?_⟩
      rw [← happly, hnone]
      rfl
  | getEventTypes =>
      have hdistinct : Fixed (lit "distinct json_extract(events.source, '$.event_type')") :=
        fixed_of_start (by decide +kernel) (by decide +kernel) (by decide +kernel)
      have hpieces : ∀ piece ∈ [lit "distinct json_extract(events.source, '$.event_type')"] ++ [lit "events"] ++ [] ++ [],
          Fixed piece := by
        intro piece hpiece
        simp only [List.append_nil, List.mem_append, List.mem_singleton] at hpiece
        rcases hpiece with rfl | rfl
        · exact hdistinct
        · exact hevents
      obtain ⟨base, hbase, happly⟩ := @plain_base
        { fts, select := [lit "distinct json_extract(events.source, '$.event_type')"], tables := [lit "events"] } [] rfl rfl
        (fun _ h => absurd h List.not_mem_nil) hpieces (by rintro piece ⟨⟩)
      refine ⟨base, hbase, fun query => ?_⟩
      rw [← happly, hnone]
      rfl

/-! ## Queries of the same kinds -/

/-- The texts that a query writes between quotes stay there. -/
def Enclosed (query : List QueryElement) : Prop := ∀ e ∈ query, ∀ text ∈ spliced e, SqlTokens.enclosed text = true

instance (query : List QueryElement) : Decidable (Enclosed query) := by
  unfold Enclosed
  infer_instance

theorem enclosed_iff (query : List QueryElement) :
    Enclosed query ↔ (query.all fun e => (spliced e).all SqlTokens.enclosed) = true := by
  simp only [Enclosed, List.all_eq_true]

variable {base : Base} {query query' : List QueryElement} {s s' : SqlText × List Arg}

/-- A statement keeps its literals and its arguments apart if and only if the query's texts stay between their quotes. -/
theorem secure_iff (h : base.statement query = some s) : Secure s ↔ Enclosed query := by
  rw [enclosed_iff]
  rcases Base.statement_decided h with ⟨he, hsound⟩ | ⟨he, hbroken⟩
  · exact iff_of_true ⟨hsound.intact, hsound.parameters⟩ he
  · refine iff_of_false (fun hsecure => ?_) (by rw [he]; exact Bool.false_ne_true)
    obtain ⟨t, ht, hintact⟩ := hbroken.exists_not_intact
    exact hintact (hsecure.intact t ht)

theorem shapes_of_enclosed (h : base.statement query = some s) (henclosed : Enclosed query) :
    shapes s.1 = base.shape (query.map elementKind) := by
  have hdecided := Base.statement_decided h
  rw [(enclosed_iff query).mp henclosed] at hdecided
  exact hdecided.sound.shape

/-- Two queries of the same kinds give statements that keep their literals and their arguments apart, and have the same
tokens up to the content of the literals, if and only if the texts of both stay between their quotes. -/
theorem structure_iff (hkinds : query.map elementKind = query'.map elementKind) (h : base.statement query = some s)
    (h' : base.statement query' = some s') :
    (Secure s ∧ Secure s' ∧ shapes s.1 = shapes s'.1) ↔ Enclosed query ∧ Enclosed query' := by
  constructor
  · rintro ⟨hsecure, hsecure', -⟩
    exact ⟨(secure_iff h).mp hsecure, (secure_iff h').mp hsecure'⟩
  · rintro ⟨henclosed, henclosed'⟩
    refine ⟨(secure_iff h).mpr henclosed, (secure_iff h').mpr henclosed', ?_⟩
    rw [shapes_of_enclosed h henclosed, shapes_of_enclosed h' henclosed', hkinds]

/-- The statements of a caller, with two queries of the same kinds. -/
theorem callers_structure_iff {fts : Bool} {caller : Caller} {b b' : EventQueryBuilder} (hplain : caller.Plain)
    (hkinds : query.map elementKind = query'.map elementKind) (h : caller.builder fts query = some b)
    (h' : caller.builder fts query' = some b') :
    (Secure b.build ∧ Secure b'.build ∧ shapes b.build.1 = shapes b'.build.1) ↔ Enclosed query ∧ Enclosed query' := by
  obtain ⟨base, -, happly⟩ := exists_base hplain h
  refine @structure_iff base query query' b.build b'.build hkinds ?_ ?_
  · rw [Base.statement, ← happly, h, Option.map_some]
  · rw [Base.statement, ← happly, h', Option.map_some]

/-- Two fields, without quotes in their names. -/
def namedQueries : List QueryElement × List QueryElement :=
  ([⟨false, .keyValue "http.hostname" "suricata.io"⟩], [⟨false, .keyValue "ab" "c'd"⟩])

theorem callers_structure_iff_named : ∃ b b', Caller.builder true namedQueries.1 (.events { queryString := [] }) = some b ∧
    Caller.builder true namedQueries.2 (.events { queryString := [] }) = some b' ∧
    Secure b.build ∧ Secure b'.build ∧ shapes b.build.1 = shapes b'.build.1 := by
  obtain ⟨b, hb⟩ : ∃ b, Caller.builder true namedQueries.1 (.events { queryString := [] }) = some b := ⟨_, rfl⟩
  obtain ⟨b', hb'⟩ : ∃ b', Caller.builder true namedQueries.2 (.events { queryString := [] }) = some b' := ⟨_, rfl⟩
  have hplain : Caller.Plain (.events { queryString := [] }) := nofun
  exact ⟨b, b', hb, hb', (callers_structure_iff hplain (by decide) hb hb').mpr (by decide)⟩

/-- `a'b:c`, and a field without the quote. -/
def quotedQuery : List QueryElement := [⟨false, .keyValue "a'b" "c"⟩]

/-- The quote of a key ends the literal that the key is written into. -/
theorem quotedKey_not_secure : parse noTimes none "a'b:c" = .ok quotedQuery ∧
    parse noTimes none "ab:c'd" = .ok namedQueries.2 ∧
    quotedQuery.map elementKind = namedQueries.2.map elementKind ∧
    ∃ b b', Caller.builder true quotedQuery (.events { queryString := [] }) = some b ∧
      Caller.builder true namedQueries.2 (.events { queryString := [] }) = some b' ∧
      ¬ Secure b.build ∧ shapes b.build.1 ≠ shapes b'.build.1 := by
  refine ⟨by decide +kernel, by decide +kernel, by decide, _, _, rfl, rfl, ?_, by decide +kernel⟩
  rintro ⟨hintact, -⟩
  revert hintact
  decide +kernel

end EveBox.Sqlite
