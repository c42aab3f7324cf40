import Mathlib.Data.List.Basic

/-!
# The query language of FTS5

The tokens of a query, the grammar over them, and what a query asks for. A query that joins phrases with `AND` asks
for all of them.

* `denotes_iff` — strings that are put into quotes as they are and joined with `AND` are read as these strings if and
  only if none of them has a quote or ends the text.
-/

namespace EveBox.Fts5

/-! ## Tokens -/

inductive Token
  | string (quoted : Bool) (text : List Char)
  | and
  | or
  | not
  | leftParen
  | rightParen
  | leftBrace
  | rightBrace
  | colon
  | comma
  | plus
  | star
  | minus
  | caret
deriving DecidableEq, Repr

def quote : Char := '\x22'

/-- Where a query ends. -/
def nul : Char := '\x00'

def isSpace (c : Char) : Bool := c ∈ [' ', '\t', '\n', '\r']

/-- The characters of a string without quotes. -/
def isBareword (c : Char) : Bool := c.isAlphanum || c = '_' || c = '\x1a' || 0x80 ≤ c.toNat

/-- The tokens of one character. -/
def punctuation (c : Char) : Option Token :=
  [('(', Token.leftParen), (')', .rightParen), ('\x7b', .leftBrace), ('\x7d', .rightBrace), (':', .colon), (',', .comma),
    ('+', .plus), ('*', .star), ('-', .minus), ('^', .caret)].lookup c

/-- The token of a word. -/
def wordToken (word : List Char) : Token :=
  if word = "AND".toList then .and
  else if word = "OR".toList then .or
  else if word = "NOT".toList then .not
  else .string false word

/-- What is being read. -/
inductive State
  | start
  | word (text : List Char)
  | quoted (text : List Char)
  /-- Behind a quote, which a second one would make a part of the string. -/
  | closing (text : List Char)
deriving DecidableEq, Repr

/-- The tokens that are complete where nothing goes on with them. -/
def State.finish : State → Option (List Token)
  | .start => some []
  | .word text => some [wordToken text]
  | .quoted _ => none
  | .closing text => some [.string true text]

/-- The state after a character that goes on with a token. -/
def State.goOn : State → Char → Option State
  | .start, _ => none
  | .word text, c => if isBareword c then some (.word (text ++ [c])) else none
  | .quoted text, c => some (if c = quote then .closing text else .quoted (text ++ [c]))
  | .closing text, c => if c = quote then some (.quoted (text ++ [quote])) else none

/-- The state after the first character of a token, and the token if it is one by itself. -/
def begin (c : Char) : Option (State × List Token) :=
  if isSpace c then some (.start, [])
  else if c = quote then some (.quoted [], [])
  else if isBareword c then some (.word [c], [])
  else (punctuation c).map fun t => (.start, [t])

/-- The tokens of what is left of a query; `none` is an error. -/
def lex : State → List Char → Option (List Token)
  | s, [] => s.finish
  | s, c :: rest =>
      if c = nul then s.finish
      else match s.goOn c with
        | some s' => lex s' rest
        | none => do
            let before ← s.finish
            let first ← begin c
            let others ← lex first.1 rest
            some (before ++ first.2 ++ others)

/-! ## Grammar -/

/-- A string of a phrase, and whether it is the start of a longer one. -/
abbrev Part := List Char × Bool

inductive Query
  /-- Strings one behind the other, maybe at the start of a column. -/
  | phrase (initial : Bool) (parts : List Part)
  | near (phrases : List (List Part)) (distance : Option (List Char))
  | columns (negated : Bool) (names : List (List Char)) (query : Query)
  | and (p q : Query)
  | or (p q : Query)
  | not (p q : Query)

inductive PhraseOf : List Token → List Part → Prop
  | one (quoted : Bool) (s : List Char) : PhraseOf [.string quoted s] [(s, false)]
  | start (quoted : Bool) (s : List Char) : PhraseOf [.string quoted s, .star] [(s, true)]
  | plus {ts : List Token} {parts : List Part} (quoted : Bool) (s : List Char) (h : PhraseOf ts parts) :
      PhraseOf (ts ++ [.plus, .string quoted s]) (parts ++ [(s, false)])
  | plusStart {ts : List Token} {parts : List Part} (quoted : Bool) (s : List Char) (h : PhraseOf ts parts) :
      PhraseOf (ts ++ [.plus, .string quoted s, .star]) (parts ++ [(s, true)])

inductive ColumnsOf : List Token → Bool → List (List Char) → Prop
  | one (quoted : Bool) (s : List Char) : ColumnsOf [.string quoted s] false [s]
  | notOne (quoted : Bool) (s : List Char) : ColumnsOf [.minus, .string quoted s] true [s]
  | set (names : List (Bool × List Char)) (h : names ≠ []) :
      ColumnsOf (.leftBrace :: names.map (fun name => .string name.1 name.2) ++ [.rightBrace]) false (names.map (·.2))
  | notSet (names : List (Bool × List Char)) (h : names ≠ []) :
      ColumnsOf (.minus :: .leftBrace :: names.map (fun name => .string name.1 name.2) ++ [.rightBrace]) true
        (names.map (·.2))

inductive NearOf : List Token → Query → Prop
  | phrase {ts : List Token} {parts : List Part} (h : PhraseOf ts parts) : NearOf ts (.phrase false parts)
  | initial {ts : List Token} {parts : List Part} (h : PhraseOf ts parts) : NearOf (.caret :: ts) (.phrase true parts)
  | near (phrases : List (List Token × List Part)) (hne : phrases ≠ []) (h : ∀ p ∈ phrases, PhraseOf p.1 p.2) :
      NearOf (.string false "NEAR".toList :: .leftParen :: phrases.flatMap (·.1) ++ [.rightParen])
        (.near (phrases.map (·.2)) none)
  | nearWithin (phrases : List (List Token × List Part)) (hne : phrases ≠ []) (h : ∀ p ∈ phrases, PhraseOf p.1 p.2)
      (quoted : Bool) (n : List Char) :
      NearOf (.string false "NEAR".toList :: .leftParen :: phrases.flatMap (·.1) ++ [.comma, .string quoted n, .rightParen])
        (.near (phrases.map (·.2)) (some n))

/-- How tightly a part of a query binds. -/
inductive Level
  | or
  | and
  | not
  | primary
  | list

/-- The tokens are those of a query. -/
inductive Derives : Level → List Token → Query → Prop
  | or {ts us : List Token} {p q : Query} (hp : Derives .or ts p) (hq : Derives .and us q) :
      Derives .or (ts ++ .or :: us) (.or p q)
  | ofAnd {ts : List Token} {q : Query} (h : Derives .and ts q) : Derives .or ts q
  | and {ts us : List Token} {p q : Query} (hp : Derives .and ts p) (hq : Derives .not us q) :
      Derives .and (ts ++ .and :: us) (.and p q)
  | ofNot {ts : List Token} {q : Query} (h : Derives .not ts q) : Derives .and ts q
  | not {ts us : List Token} {p q : Query} (hp : Derives .not ts p) (hq : Derives .primary us q) :
      Derives .not (ts ++ .not :: us) (.not p q)
  | ofPrimary {ts : List Token} {q : Query} (h : Derives .primary ts q) : Derives .not ts q
  | parens {ts : List Token} {q : Query} (h : Derives .or ts q) :
      Derives .primary (.leftParen :: ts ++ [.rightParen]) q
  | columnsParens {cs ts : List Token} {negated : Bool} {names : List (List Char)} {q : Query}
      (hc : ColumnsOf cs negated names) (h : Derives .or ts q) :
      Derives .primary (cs ++ .colon :: .leftParen :: ts ++ [.rightParen]) (.columns negated names q)
  | ofList {ts : List Token} {q : Query} (h : Derives .list ts q) : Derives .primary ts q
  | one {ts : List Token} {q : Query} (h : NearOf ts q) : Derives .list ts q
  | oneColumns {cs ts : List Token} {negated : Bool} {names : List (List Char)} {q : Query}
      (hc : ColumnsOf cs negated names) (h : NearOf ts q) : Derives .list (cs ++ .colon :: ts) (.columns negated names q)
  /-- One behind the other, as with `AND`. -/
  | next {ts us : List Token} {p q : Query} (hp : Derives .list ts p) (hq : NearOf us q) :
      Derives .list (ts ++ us) (.and p q)
  | nextColumns {cs ts us : List Token} {negated : Bool} {names : List (List Char)} {p q : Query}
      (hp : Derives .list ts p) (hc : ColumnsOf cs negated names) (hq : NearOf us q) :
      Derives .list (ts ++ (cs ++ .colon :: us)) (.and p (.columns negated names q))

/-- A text is a query. -/
def Reads (text : List Char) (q : Query) : Prop := ∃ ts, lex .start text = some ts ∧ Derives .or ts q

/-- What a query asks for all together. -/
def Query.conjuncts : Query → List Query
  | .and p q => p.conjuncts ++ q.conjuncts
  | q => [q]

/-- A string as a phrase. -/
def Query.ofString (s : List Char) : Query := .phrase false [(s, false)]

/-- A text is a query for all of some phrases. -/
def Denotes (text : List Char) (ss : List (List Char)) : Prop :=
  ∃ q, Reads text q ∧ q.conjuncts = ss.map Query.ofString

/-! ## Strings in quotes -/

/-- The string in quotes. -/
def quoted (s : List Char) : List Char := quote :: s ++ [quote]

/-- The strings, each in quotes, joined with `AND`. -/
def joined : List (List Char) → List Char
  | [] => []
  | [s] => quoted s
  | s :: ss => quoted s ++ " AND ".toList ++ joined ss

/-- A string that may stand in quotes as it is. -/
def Clean (s : List Char) : Prop := quote ∉ s ∧ nul ∉ s

instance (s : List Char) : Decidable (Clean s) := by
  unfold Clean
  infer_instance

/-- What is read behind a quote: the string, and the text behind it. -/
def readQuoted : List Char → Option (List Char × List Char)
  | [] => none
  | [c] => if c = quote then some ([], []) else none
  | c :: d :: rest =>
      if c = nul then none
      else if c = quote then
        if d = quote then (readQuoted rest).map fun r => (quote :: r.1, r.2) else some ([], d :: rest)
      else (readQuoted (d :: rest)).map fun r => (c :: r.1, r.2)

theorem quote_ne_nul : quote ≠ nul := by decide

/-- The state behind a quote. -/
theorem lex_closing (acc : List Char) {c : Char} (hc : c ≠ quote) (rest : List Char) :
    lex (.closing acc) (c :: rest) = (lex .start (c :: rest)).map (.string true acc :: ·) := by
  have hgo : (State.closing acc).goOn c = none := if_neg hc
  have hstart : State.start.goOn c = none := rfl
  rw [lex, lex]
  by_cases hnul : c = nul
  · rw [if_pos hnul, if_pos hnul]
    rfl
  · rw [if_neg hnul, if_neg hnul, hgo, hstart]
    dsimp only [State.finish]
    cases begin c with
    | none => rfl
    | some first =>
        cases hrest : lex first.1 rest with
        | none => simp [hrest]
        | some ts => simp [hrest]

/-- Within quotes, a string is read, and then the text behind it. -/
theorem lex_quoted : ∀ acc cs : List Char, lex (.quoted acc) cs =
    (readQuoted cs).bind fun r => (lex .start r.2).map (.string true (acc ++ r.1) :: ·)
  | acc, [] => rfl
  | acc, [c] => by
      by_cases hc : c = quote
      · subst hc
        simp [lex, readQuoted, State.goOn, State.finish, quote_ne_nul]
      · by_cases hnul : c = nul
        · subst hnul
          simp [lex, readQuoted, State.finish, hc]
        · simp [lex, readQuoted, State.goOn, State.finish, hc, hnul]
  | acc, c :: d :: rest => by
      by_cases hnul : c = nul
      · simp [lex, readQuoted, State.finish, hnul]
      · by_cases hc : c = quote
        · by_cases hd : d = quote
          · have hrest := lex_quoted (acc ++ [quote]) rest
            have hstep : lex (.quoted acc) (c :: d :: rest) = lex (.quoted (acc ++ [quote])) rest := by
              simp [lex, State.goOn, hc, hd, quote_ne_nul]
            rw [hstep, hrest, readQuoted, if_neg hnul, if_pos hc, if_pos hd]
            cases readQuoted rest with
            | none => rfl
            | some r => simp
          · have hstep : lex (.quoted acc) (c :: d :: rest) = lex (.closing acc) (d :: rest) := by
              rw [lex, if_neg hnul]
              simp [State.goOn, hc]
            rw [hstep, lex_closing acc hd, readQuoted, if_neg hnul, if_pos hc, if_neg hd]
            simp
        · have hrest := lex_quoted (acc ++ [c]) (d :: rest)
          have hstep : lex (.quoted acc) (c :: d :: rest) = lex (.quoted (acc ++ [c])) (d :: rest) := by
            rw [lex, if_neg hnul]
            simp [State.goOn, hc]
          rw [hstep, hrest, readQuoted, if_neg hnul, if_neg hc]
          cases readQuoted (d :: rest) with
          | none => rfl
          | some r => simp

/-- The string as it has to stand in quotes. -/
def doubled (s : List Char) : List Char := s.flatMap fun c => if c = quote then [quote, quote] else [c]

theorem doubled_cons (c : Char) (s : List Char) : doubled (c :: s) = (if c = quote then [quote, quote] else [c]) ++ doubled s :=
  rfl

theorem doubled_of_clean {s : List Char} (h : quote ∉ s) : doubled s = s := by
  induction s with
  | nil => rfl
  | cons c s ih =>
      have hc : c ≠ quote := fun hc => h (hc ▸ List.mem_cons_self)
      rw [doubled_cons, if_neg hc, ih fun hs => h (List.mem_cons_of_mem c hs)]
      rfl

/-- What is read has stood there with each of its quotes twice. -/
theorem readQuoted_some : ∀ (cs : List Char) {r rest : List Char}, readQuoted cs = some (r, rest) →
    cs = doubled r ++ quote :: rest ∧ nul ∉ r
  | [], r, rest, h => nomatch h
  | [c], r, rest, h => by
      rw [readQuoted] at h
      split at h
      next hc =>
        cases h
        exact ⟨by rw [hc]; rfl, by simp⟩
      next => exact nomatch h
  | c :: d :: cs, r, rest, h => by
      rw [readQuoted] at h
      split at h
      next => exact nomatch h
      next hnul =>
        split at h
        next hc =>
          split at h
          next hd =>
            obtain ⟨⟨r', rest'⟩, hr, hr'⟩ := Option.map_eq_some_iff.mp h
            cases hr'
            obtain ⟨hcs, hr⟩ := readQuoted_some cs hr
            refine ⟨?_, by simp [hr, quote_ne_nul.symm]⟩
            rw [doubled_cons, if_pos rfl, hc, hd, hcs]
            rfl
          next hd =>
            cases h
            exact ⟨by rw [hc]; rfl, by simp⟩
        next hc =>
          obtain ⟨⟨r', rest'⟩, hr, hr'⟩ := Option.map_eq_some_iff.mp h
          cases hr'
          obtain ⟨hcs, hr⟩ := readQuoted_some (d :: cs) hr
          refine ⟨?_, by simp [hr, Ne.symm hnul]⟩
          rw [doubled_cons, if_neg hc, hcs]
          rfl

/-- A text that has a quote too many in front is never made up for by a later one. -/
theorem ne_shifted {tail : List Char} (htail : ∀ c ∈ tail.head?, c ≠ quote) (rest : List Char) :
    ∀ (s : List Char) (k : ℕ), s ++ quote :: tail ≠ List.replicate (k + 1) quote ++ doubled s ++ quote :: rest
  | [], k, h => by
      have htail' : tail = List.replicate k quote ++ quote :: rest := by
        simpa [List.replicate_succ, doubled] using h
      cases k with
      | zero => exact htail quote (by rw [htail']; rfl) rfl
      | succ k => exact htail quote (by rw [htail']; rfl) rfl
  | c :: s, k, h => by
      obtain ⟨hc, hs⟩ : c = quote ∧ s ++ quote :: tail = List.replicate k quote ++ doubled (c :: s) ++ quote :: rest := by
        simpa [List.replicate_succ] using h
      have hshift : s ++ quote :: tail = List.replicate (k + 1 + 1) quote ++ doubled s ++ quote :: rest := by
        rw [hs, doubled_cons, if_pos hc, List.replicate_add, List.replicate_add]
        simp
      exact ne_shifted htail rest s (k + 1) hshift

/-- A string in quotes is read as it is if and only if it has no quote, and does not end the text. -/
theorem readQuoted_append_iff {s tail rest : List Char} (htail : ∀ c ∈ tail.head?, c ≠ quote) :
    readQuoted (s ++ quote :: tail) = some (s, rest) ↔ Clean s ∧ rest = tail := by
  constructor
  · intro h
    obtain ⟨hs, hnul⟩ := readQuoted_some _ h
    have hquote : quote ∉ s := by
      intro hmem
      obtain ⟨x, y, rfl, hx⟩ := List.eq_append_cons_of_mem hmem
      have hdoubled : doubled (x ++ quote :: y) = x ++ quote :: quote :: doubled y := by
        have happend : doubled (x ++ quote :: y) = doubled x ++ doubled (quote :: y) := List.flatMap_append
        rw [happend, doubled_of_clean hx, doubled_cons, if_pos rfl]
        rfl
      have hshift : y ++ quote :: tail = List.replicate (0 + 1) quote ++ doubled y ++ quote :: rest := by
        rw [hdoubled] at hs
        simpa using hs
      exact ne_shifted htail rest y 0 hshift
    rw [doubled_of_clean hquote] at hs
    exact ⟨⟨hquote, hnul⟩, by simpa using hs.symm⟩
  · rintro ⟨⟨hquote, hnul⟩, rfl⟩
    induction s with
    | nil =>
        cases rest with
        | nil => rfl
        | cons d rest => simp [readQuoted, quote_ne_nul, htail d rfl]
    | cons c s ih =>
        obtain ⟨hc, hquote⟩ : c ≠ quote ∧ quote ∉ s := by simpa [eq_comm] using hquote
        obtain ⟨hcnul, hnul⟩ : c ≠ nul ∧ nul ∉ s := by simpa [eq_comm] using hnul
        obtain ⟨d, ds, hds⟩ : ∃ d ds, s ++ quote :: rest = d :: ds := List.exists_cons_of_ne_nil (by simp)
        have ih := ih hquote hnul
        rw [List.cons_append, hds, readQuoted, if_neg hcnul, if_neg hc, ← hds, ih]
        rfl

/-! ## The strings of a query -/

/-- The strings among the tokens. -/
def strings (ts : List Token) : List (List Char) :=
  ts.filterMap fun
    | .string _ s => some s
    | _ => none

theorem strings_append (ts us : List Token) : strings (ts ++ us) = strings ts ++ strings us :=
  List.filterMap_append

theorem PhraseOf.ne_nil {ts : List Token} {parts : List Part} (h : PhraseOf ts parts) : parts ≠ [] := by
  cases h <;> simp

/-- A phrase of one string has no other. -/
theorem PhraseOf.strings_eq {ts : List Token} {s : List Char} (h : PhraseOf ts [(s, false)]) : strings ts = [s] := by
  generalize hparts : [(s, false)] = parts at h
  cases h with
  | one b t =>
      cases hparts
      rfl
  | start b t => cases hparts
  | plus b t h => exact absurd (List.append_eq_singleton_iff.mp hparts.symm) (by simp [h.ne_nil])
  | plusStart b t h => exact absurd (List.append_eq_singleton_iff.mp hparts.symm) (by simp [h.ne_nil])

/-- What is no phrase of one string is none of some phrases. -/
theorem absurd_conjunct {q : Query} {ss : List (List Char)} (h : [q] = ss.map Query.ofString)
    (hq : ∀ s, Query.ofString s ≠ q) : False := by
  obtain ⟨s, -, hs⟩ := List.map_eq_singleton_iff.mp h.symm
  exact hq s hs

theorem NearOf.strings_eq {ts : List Token} {q : Query} (h : NearOf ts q) {ss : List (List Char)}
    (hq : q.conjuncts = ss.map Query.ofString) : strings ts = ss := by
  cases h with
  | @phrase ts parts h =>
      obtain ⟨s, rfl, hs⟩ := List.map_eq_singleton_iff.mp hq.symm
      cases hs
      exact h.strings_eq
  | initial h => exact (absurd_conjunct hq fun _ => (nomatch ·)).elim
  | near phrases hne h => exact (absurd_conjunct hq fun _ => (nomatch ·)).elim
  | nearWithin phrases hne h b n => exact (absurd_conjunct hq fun _ => (nomatch ·)).elim

/-- A query for all of some phrases has their strings for its own, in this order. -/
theorem Derives.strings_eq {l : Level} {ts : List Token} {q : Query} (h : Derives l ts q) :
    ∀ {ss : List (List Char)}, q.conjuncts = ss.map Query.ofString → strings ts = ss := by
  induction h with
  | or hp hq ihp ihq =>
      intro ss hss
      exact (absurd_conjunct hss fun _ => (nomatch ·)).elim
  | ofAnd h ih => exact ih
  | @and ts us p q hp hq ihp ihq =>
      intro ss hss
      obtain ⟨ss₁, ss₂, rfl, h₁, h₂⟩ := List.map_eq_append_iff.mp hss.symm
      rw [strings_append, ihp h₁.symm]
      exact congrArg (ss₁ ++ ·) (ihq h₂.symm)
  | ofNot h ih => exact ih
  | not hp hq ihp ihq =>
      intro ss hss
      exact (absurd_conjunct hss fun _ => (nomatch ·)).elim
  | ofPrimary h ih => exact ih
  | @parens ts q h ih =>
      intro ss hss
      have hts : strings (.leftParen :: ts ++ [.rightParen]) = strings ts := by simp [strings]
      rw [hts, ih hss]
  | columnsParens hc h ih =>
      intro ss hss
      exact (absurd_conjunct hss fun _ => (nomatch ·)).elim
  | ofList h ih => exact ih
  | one h =>
      intro ss hss
      exact h.strings_eq hss
  | oneColumns hc h =>
      intro ss hss
      exact (absurd_conjunct hss fun _ => (nomatch ·)).elim
  | @next ts us p q hp hq ih =>
      intro ss hss
      obtain ⟨ss₁, ss₂, rfl, h₁, h₂⟩ := List.map_eq_append_iff.mp hss.symm
      rw [strings_append, ih h₁.symm, hq.strings_eq h₂.symm]
  | @nextColumns cs ts us negated names p q hp hc hq ih =>
      intro ss hss
      obtain ⟨ss₁, ss₂, rfl, h₁, h₂⟩ := List.map_eq_append_iff.mp hss.symm
      exact (absurd_conjunct h₂.symm fun _ => (nomatch ·)).elim

/-! ## Joined strings -/

/-- The tokens of joined strings. -/
def tokensOf : List (List Char) → List Token
  | [] => []
  | [s] => [.string true s]
  | s :: ss => .string true s :: .and :: tokensOf ss

/-- What stands behind a string in quotes. -/
def behind : List (List Char) → List Char
  | [] => []
  | ss => " AND ".toList ++ joined ss

theorem joined_cons (s : List Char) (ss : List (List Char)) : joined (s :: ss) = quote :: (s ++ quote :: behind ss) := by
  cases ss with
  | nil => simp [joined, quoted, behind]
  | cons t ss => simp [joined, quoted, behind]

theorem behind_head (ss : List (List Char)) : ∀ c ∈ (behind ss).head?, c ≠ quote := by
  cases ss with
  | nil => simp [behind]
  | cons s ss =>
      intro c hc
      obtain rfl : ' ' = c := Option.some.inj hc
      decide

/-- A query in quotes, and what is behind them. -/
theorem lex_joined (s : List Char) (ss : List (List Char)) : lex .start (joined (s :: ss)) =
    (readQuoted (s ++ quote :: behind ss)).bind fun r => (lex .start r.2).map (.string true r.1 :: ·) := by
  have hstart : lex .start (quote :: (s ++ quote :: behind ss)) = lex (.quoted []) (s ++ quote :: behind ss) := by
    have hbegin : begin quote = some (.quoted [], []) := by decide
    rw [lex, if_neg quote_ne_nul]
    simp [State.goOn, State.finish, hbegin]
  rw [joined_cons, hstart, lex_quoted]
  rfl

/-- A character that goes on with a token. -/
theorem lex_goOn {s s' : State} {c : Char} (hc : c ≠ nul) (h : s.goOn c = some s') (rest : List Char) :
    lex s (c :: rest) = lex s' rest := by
  rw [lex, if_neg hc, h]

/-- A character that is behind a token. -/
theorem lex_begin {s s' : State} {c : Char} {before ts : List Token} (hc : c ≠ nul) (h : s.goOn c = none)
    (hbefore : s.finish = some before) (hbegin : begin c = some (s', ts)) (rest : List Char) :
    lex s (c :: rest) = (lex s' rest).map (before ++ ts ++ ·) := by
  rw [lex, if_neg hc, h, hbefore, hbegin]
  cases hrest : lex s' rest <;> simp [hrest]

theorem lex_behind (s : List Char) (ss : List (List Char)) :
    lex .start (behind (s :: ss)) = (lex .start (joined (s :: ss))).map (.and :: ·) := by
  have hbehind : behind (s :: ss) = ' ' :: 'A' :: 'N' :: 'D' :: ' ' :: joined (s :: ss) := rfl
  have hspace (rest : List Char) : lex .start (' ' :: rest) = (lex .start rest).map ([] ++ [] ++ ·) :=
    lex_begin (by decide) rfl rfl (by decide) rest
  have hword (rest : List Char) : lex .start ('A' :: rest) = (lex (.word ['A']) rest).map ([] ++ [] ++ ·) :=
    lex_begin (by decide) rfl rfl (by decide) rest
  have hn (rest : List Char) : lex (.word ['A']) ('N' :: rest) = lex (.word ['A', 'N']) rest :=
    lex_goOn (by decide) (by decide) rest
  have hd (rest : List Char) : lex (.word ['A', 'N']) ('D' :: rest) = lex (.word ['A', 'N', 'D']) rest :=
    lex_goOn (by decide) (by decide) rest
  have hand (rest : List Char) : lex (.word ['A', 'N', 'D']) (' ' :: rest) = (lex .start rest).map ([.and] ++ [] ++ ·) :=
    lex_begin (by decide) (by decide) (by decide) (by decide) rest
  rw [hbehind, hspace, hword, hn, hd, hand, Option.map_map, Option.map_map]
  rfl

/-- The tokens of joined strings are their own only where each of them may stand in quotes as it is. -/
theorem clean_of_strings : ∀ {ss : List (List Char)} {ts : List Token}, lex .start (joined ss) = some ts →
    strings ts = ss → ∀ s ∈ ss, Clean s
  | [], _, _, _ => by simp
  | s :: ss, ts, hlex, hss => by
      rw [lex_joined] at hlex
      obtain ⟨⟨r, rest⟩, hr, hrest⟩ := Option.bind_eq_some_iff.mp hlex
      obtain ⟨us, hus, rfl⟩ := Option.map_eq_some_iff.mp hrest
      obtain ⟨rfl, hus'⟩ : r = s ∧ strings us = ss := List.cons.inj hss
      obtain ⟨hclean, rfl⟩ := (readQuoted_append_iff (behind_head ss)).mp hr
      cases ss with
      | nil => simpa using hclean
      | cons t ss =>
          rw [lex_behind] at hus
          obtain ⟨vs, hvs, rfl⟩ := Option.map_eq_some_iff.mp hus
          have htail := clean_of_strings hvs hus'
          exact List.forall_mem_cons.mpr ⟨hclean, htail⟩

theorem lex_of_clean : ∀ {ss : List (List Char)}, (∀ s ∈ ss, Clean s) → lex .start (joined ss) = some (tokensOf ss)
  | [], _ => rfl
  | s :: ss, h => by
      obtain ⟨hclean, hss⟩ := List.forall_mem_cons.mp h
      rw [lex_joined, (readQuoted_append_iff (behind_head ss)).mpr ⟨hclean, rfl⟩]
      cases ss with
      | nil => rfl
      | cons t ss =>
          have htail := lex_of_clean hss
          simp only [Option.bind_some, lex_behind, htail]
          rfl

/-- A query for all of some phrases, and for some more behind them. -/
theorem derives_of_derives (ss : List (List Char)) : ∀ {ts : List Token} {q : Query} {before : List (List Char)},
    Derives .and ts q → q.conjuncts = before.map Query.ofString →
      ∃ q', Derives .and (ts ++ ss.flatMap fun s => [.and, .string true s]) q' ∧
        q'.conjuncts = (before ++ ss).map Query.ofString := by
  induction ss with
  | nil =>
      intro ts q before hq hbefore
      exact ⟨q, by simpa using hq, by simpa using hbefore⟩
  | cons s ss ih =>
      intro ts q before hq hbefore
      have hs : Derives .not [.string true s] (Query.ofString s) := .ofPrimary (.ofList (.one (.phrase (.one true s))))
      have hmore : (Query.and q (Query.ofString s)).conjuncts = (before ++ [s]).map Query.ofString := by
        rw [Query.conjuncts, hbefore, List.map_append]
        rfl
      obtain ⟨q', hq', hss⟩ := ih (.and hq hs) hmore
      exact ⟨q', by simpa using hq', by simpa using hss⟩

theorem tokensOf_cons (s : List Char) (ss : List (List Char)) :
    tokensOf (s :: ss) = .string true s :: ss.flatMap fun s => [.and, .string true s] := by
  induction ss generalizing s with
  | nil => rfl
  | cons t ss ih =>
      rw [tokensOf, ih]
      · rfl
      · simp

/-- Strings in quotes that are joined with `AND` are asked for as they are if and only if none has a quote, or ends the
text. -/
theorem denotes_iff {ss : List (List Char)} (hss : ss ≠ []) : Denotes (joined ss) ss ↔ ∀ s ∈ ss, Clean s := by
  constructor
  · rintro ⟨q, ⟨ts, hts, hq⟩, hconjuncts⟩
    exact clean_of_strings hts (hq.strings_eq hconjuncts)
  · intro h
    obtain ⟨s, rest, rfl⟩ := List.exists_cons_of_ne_nil hss
    have hs : Derives .and [.string true s] (Query.ofString s) :=
      .ofNot (.ofPrimary (.ofList (.one (.phrase (.one true s)))))
    have hconjuncts : (Query.ofString s).conjuncts = [s].map Query.ofString := rfl
    obtain ⟨q, hq, hrest⟩ := derives_of_derives rest hs hconjuncts
    have hlex := lex_of_clean h
    rw [tokensOf_cons] at hlex
    exact ⟨q, ⟨_, hlex, .ofAnd hq⟩, hrest⟩

end EveBox.Fts5
