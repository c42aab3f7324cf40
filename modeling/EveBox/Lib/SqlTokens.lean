import Mathlib.Data.List.Basic

/-!
# The tokens of a statement of SQL

A statement is read character by character. Each character has a label that says where it comes from; the labels
go into the tokens, and no token depends on one.

* `tokens_append` — where a token begins, a statement can be read in two parts.
* `run_literal` — a text that has its quotes doubled stays within the quotes around it.
* `broken_literal` — any other text takes the quotes around it apart, whatever comes behind it.
-/

namespace SqlTokens

/-! ## Texts and tokens -/

/-- A character of a statement, with its label. -/
structure Labelled (α : Type*) where
  char : Char
  label : α
deriving DecidableEq, Repr

abbrev Text (α : Type*) := List (Labelled α)

/-- The text without its labels. -/
def chars {α : Type*} (text : Text α) : List Char := text.map (·.char)

inductive TokenKind
  | word
  | number
  | parameter
  | operator
  | quotedName
  | string
  | blob
  | unclosed
deriving DecidableEq, Repr

structure Token (α : Type*) where
  kind : TokenKind
  text : Text α
deriving DecidableEq, Repr

/-- The quote of the string literals. -/
def quote : Char := '\x27'

/-- Where a statement ends. -/
def nul : Char := '\x00'

def isSpace (c : Char) : Bool := c ∈ [' ', '\t', '\n', '\x0c', '\r']

/-- The characters of identifiers and keywords. -/
def isIdChar (c : Char) : Bool := c.isAlphanum || c = '_' || c = '$' || 0x80 ≤ c.toNat

/-! ## Reading -/

/-- What is being read. -/
inductive State (α : Type*)
  | start
  | word (text : Text α)
  | number (text : Text α)
  | parameter (text : Text α)
  | operator (text : Text α)
  /-- Within quotes. -/
  | quoted (delim : Char) (text : Text α)
  /-- Behind a quote, which a second one would make a part of the text. -/
  | closing (delim : Char) (text : Text α)
  /-- Within delimiters that are not doubled. -/
  | delimited (kind : TokenKind) (close : Char) (text : Text α)
  | complete (kind : TokenKind) (text : Text α)
  | lineComment
  | blockComment (star : Bool)
  | ended
deriving DecidableEq, Repr

section

variable {α : Type*}

/-- The token that is complete where nothing goes on with it. -/
def State.finish : State α → List (Token α)
  | .start => []
  | .word text => [⟨.word, text⟩]
  | .number text => [⟨.number, text⟩]
  | .parameter text => [⟨.parameter, text⟩]
  | .operator text => [⟨.operator, text⟩]
  | .quoted _ text => [⟨.unclosed, text⟩]
  | .closing delim text => [⟨if delim = quote then .string else .quotedName, text⟩]
  | .delimited _ _ text => [⟨.unclosed, text⟩]
  | .complete kind text => [⟨kind, text⟩]
  | .lineComment => []
  | .blockComment _ => []
  | .ended => []

/-- The operators of more than one character. -/
def operators : List (List Char) :=
  ["->", "->>", "<=", "<>", "<<", ">=", ">>", "==", "!=", "||"].map String.toList

/-- A number may go on with a point after digits, and with a sign after the letter of its exponent. -/
def goesOnNumber (number : List Char) (c : Char) : Bool :=
  isIdChar c || (c = '.' && number.all Char.isDigit) ||
    ((c = '+' || c = '-') && (number.getLast? = some 'e' || number.getLast? = some 'E') &&
      !(number.contains 'x' || number.contains 'X'))

/-- The state after a character that goes on with a token. -/
def State.goOn : State α → Labelled α → Option (State α)
  | .start, _ => none
  | .word text, c =>
      if isIdChar c.char then some (.word (text ++ [c]))
      else if c.char = quote ∧ (chars text = ['x'] ∨ chars text = ['X']) then
        some (.delimited .blob quote (text ++ [c]))
      else none
  | .number text, c => if goesOnNumber (chars text) c.char then some (.number (text ++ [c])) else none
  | .parameter text, c =>
      let goesOn := if (text.head?.map (·.char)) = some '?' then c.char.isDigit else isIdChar c.char
      if goesOn then some (.parameter (text ++ [c])) else none
  | .operator text, c =>
      if chars text = ['-'] ∧ c.char = '-' then some .lineComment
      else if chars text = ['/'] ∧ c.char = '*' then some (.blockComment false)
      else if chars text = ['.'] ∧ c.char.isDigit then some (.number (text ++ [c]))
      else if chars text ++ [c.char] ∈ operators then some (.operator (text ++ [c]))
      else none
  | .quoted delim text, c =>
      if c.char = delim then some (.closing delim (text ++ [c])) else some (.quoted delim (text ++ [c]))
  | .closing delim text, c => if c.char = delim then some (.quoted delim (text ++ [c])) else none
  | .delimited kind close text, c =>
      if c.char = close then some (.complete kind (text ++ [c])) else some (.delimited kind close (text ++ [c]))
  | .complete _ _, _ => none
  | .lineComment, c => some (if c.char = '\n' then .start else .lineComment)
  | .blockComment star, c => some (if star ∧ c.char = '/' then .start else .blockComment (c.char = '*'))
  | .ended, _ => some .ended

/-- The state after the first character of a token, and the token if it is one by itself. -/
def begin (c : Labelled α) : State α × List (Token α) :=
  if isSpace c.char then (.start, [])
  else if c.char ∈ [quote, '\x22', '\x60'] then (.quoted c.char [c], [])
  else if c.char = '[' then (.delimited .quotedName ']' [c], [])
  else if c.char ∈ ['?', '@', '#', ':', '$'] then (.parameter [c], [])
  else if c.char.isDigit then (.number [c], [])
  else if isIdChar c.char then (.word [c], [])
  else if c.char ∈ ['-', '<', '>', '=', '!', '|', '/', '.'] then (.operator [c], [])
  else (.start, [⟨.operator, [c]⟩])

/-- One character. -/
def step (s : State α) (c : Labelled α) : State α × List (Token α) :=
  if c.char = nul then (.ended, s.finish)
  else match s.goOn c with
    | some s' => (s', [])
    | none => ((begin c).1, s.finish ++ (begin c).2)

/-- The state after a text, and the tokens that are complete. -/
def run : State α → Text α → State α × List (Token α)
  | s, [] => (s, [])
  | s, c :: rest => ((run (step s c).1 rest).1, (step s c).2 ++ (run (step s c).1 rest).2)

/-- The tokens of what is left of a statement. -/
def tokensFrom (s : State α) (text : Text α) : List (Token α) := (run s text).2 ++ (run s text).1.finish

/-- The tokens of a statement. -/
def tokens (text : Text α) : List (Token α) := tokensFrom .start text

/-- A token but for the content of a literal. -/
def Token.shape (t : Token α) : TokenKind × List Char :=
  (t.kind, if t.kind = .string then [] else chars t.text)

/-- The parameters of a statement, by their labels. -/
def parameters (ts : List (Token α)) : List (List α) :=
  (ts.filter (·.kind = .parameter)).map fun t => t.text.map (·.label)

/-! ## Two parts -/

theorem run_append (s : State α) (a b : Text α) :
    run s (a ++ b) = ((run (run s a).1 b).1, (run s a).2 ++ (run (run s a).1 b).2) := by
  induction a generalizing s with
  | nil => rfl
  | cons c a ih => simp only [List.cons_append, run, ih, List.append_assoc]

theorem tokensFrom_append (s : State α) (a b : Text α) :
    tokensFrom s (a ++ b) = (run s a).2 ++ tokensFrom (run s a).1 b := by
  simp only [tokensFrom, run_append, List.append_assoc]

/-- Nothing goes on with the token before. -/
def Breaks (s : State α) : Text α → Prop
  | [] => True
  | c :: _ => c.char = nul ∨ s.goOn c = none

theorem step_of_breaks {s : State α} {c : Labelled α} {rest : Text α} (h : Breaks s (c :: rest)) :
    step s c = ((step .start c).1, s.finish ++ (step .start c).2) := by
  by_cases hnul : c.char = nul
  · simp [step, hnul, State.finish]
  · have hgo : s.goOn c = none := h.resolve_left hnul
    have hstart : (State.start : State α).goOn c = none := rfl
    simp [step, hnul, hgo, hstart, State.finish]

theorem run_of_breaks {s : State α} {text : Text α} (hne : text ≠ []) (h : Breaks s text) :
    run s text = ((run .start text).1, s.finish ++ (run .start text).2) := by
  obtain ⟨c, rest, rfl⟩ := List.exists_cons_of_ne_nil hne
  simp only [run, step_of_breaks h, List.append_assoc]

/-- Where a token begins, a statement can be read in two parts. -/
theorem tokens_append {a b : Text α} (h : Breaks (run .start a).1 b) : tokens (a ++ b) = tokens a ++ tokens b := by
  unfold tokens
  rw [tokensFrom_append]
  by_cases hb : b = []
  · simp [hb, tokensFrom, run, State.finish]
  · simp only [tokensFrom, run_of_breaks hb h, List.append_assoc]

theorem state_append {a b : Text α} (hb : b ≠ []) (h : Breaks (run .start a).1 b) :
    (run .start (a ++ b)).1 = (run .start b).1 := by
  rw [run_append, run_of_breaks hb h]

/-! ## Literals -/

/-- The text stays within the quotes around it: its quotes are doubled, and it does not end the statement. -/
def enclosed : List Char → Bool
  | [] => true
  | [c] => c ≠ nul && c ≠ quote
  | c :: d :: rest => if c = quote then d = quote && enclosed rest else c ≠ nul && enclosed (d :: rest)

/-- Behind an enclosed text it is the rest that counts. -/
theorem enclosed_append : ∀ a b : List Char, enclosed a = true → enclosed (a ++ b) = enclosed b
  | [], _, _ => rfl
  | [c], b, h => by
      simp only [enclosed, Bool.and_eq_true, decide_eq_true_eq] at h
      cases b with
      | nil => simp [enclosed, h.1, h.2]
      | cons d b => simp [enclosed, h.1, h.2]
  | c :: d :: rest, b, h => by
      by_cases hc : c = quote
      · simp only [enclosed, hc, if_true, Bool.and_eq_true, decide_eq_true_eq] at h
        simp [enclosed, hc, h.1, enclosed_append rest b h.2]
      · simp only [enclosed, hc, if_false, Bool.and_eq_true, decide_eq_true_eq] at h
        have hrest := enclosed_append (d :: rest) b h.2
        simpa [enclosed, hc, h.1] using hrest

theorem quote_ne_nul : quote ≠ nul := by decide

theorem step_quoted {delim : Char} {acc : Text α} {c : Labelled α} (hnul : c.char ≠ nul) (h : c.char ≠ delim) :
    step (.quoted delim acc) c = (.quoted delim (acc ++ [c]), []) := by
  simp [step, hnul, State.goOn, h]

theorem step_quoted_delim {acc : Text α} {c : Labelled α} (h : c.char = quote) :
    step (.quoted quote acc) c = (.closing quote (acc ++ [c]), []) := by
  simp [step, State.goOn, h, quote_ne_nul]

theorem step_closing_delim {acc : Text α} {c : Labelled α} (h : c.char = quote) :
    step (.closing quote acc) c = (.quoted quote (acc ++ [c]), []) := by
  simp [step, State.goOn, h, quote_ne_nul]

theorem run_quoted : ∀ acc text : Text α, enclosed (chars text) = true →
    run (.quoted quote acc) text = (.quoted quote (acc ++ text), [])
  | acc, [], _ => by simp [run]
  | acc, [c], h => by
      simp only [chars, List.map_cons, List.map_nil, enclosed, Bool.and_eq_true, decide_eq_true_eq] at h
      simp [run, step_quoted h.1 h.2]
  | acc, c :: d :: rest, h => by
      simp only [chars, List.map_cons, enclosed] at h
      split at h
      · rename_i hc
        simp only [Bool.and_eq_true, decide_eq_true_eq] at h
        have hrest := run_quoted (acc ++ [c] ++ [d]) rest h.2
        rw [run, step_quoted_delim hc, run, step_closing_delim h.1, hrest]
        simp
      · rename_i hc
        simp only [Bool.and_eq_true, decide_eq_true_eq] at h
        have hrest := run_quoted (acc ++ [c]) (d :: rest) h.2
        rw [run, step_quoted h.1 hc, hrest]
        simp

theorem step_opening {opening : Labelled α} (ho : opening.char = quote) :
    step (.start : State α) opening = (.quoted quote [opening], []) := by
  have hspace : isSpace quote = false := by decide
  simp [step, State.goOn, State.finish, begin, hspace, ho, quote_ne_nul]

/-- A literal is one token. -/
theorem run_literal {opening closing : Labelled α} {text : Text α} (ho : opening.char = quote)
    (hc : closing.char = quote) (h : enclosed (chars text) = true) :
    run .start (opening :: text ++ [closing]) = (.closing quote (opening :: text ++ [closing]), []) := by
  simp only [List.cons_append, run, step_opening ho, run_append, run_quoted [opening] text h, step_quoted_delim hc]
  simp

theorem tokens_literal {opening closing : Labelled α} {text : Text α} (ho : opening.char = quote)
    (hc : closing.char = quote) (h : enclosed (chars text) = true) :
    tokens (opening :: text ++ [closing]) = [⟨.string, opening :: text ++ [closing]⟩] := by
  rw [tokens, tokensFrom, run_literal ho hc h]
  rfl

end

/-! ## Quotes of one's own -/

section

variable {α : Type*} (own : α → Bool)

/-- A literal begins and ends with quotes of one's own, and holds no other one of these. -/
def Token.Intact (t : Token α) : Prop :=
  t.kind ≠ .unclosed ∧ (t.kind = .string → (∀ c ∈ t.text.head?, own c.label = true) ∧
    (∀ c ∈ t.text.getLast?, own c.label = true) ∧
    ∀ c ∈ t.text.tail.dropLast, c.char = quote → own c.label = false)

instance (t : Token α) : Decidable (t.Intact own) := by
  unfold Token.Intact
  infer_instance

/-- However the statement goes on, a literal of it is not intact. -/
def Broken (s : State α) (text : Text α) : Prop := ∀ rest, ∃ t ∈ tokensFrom s (text ++ rest), ¬ t.Intact own

variable {own}

theorem broken_append_left {a b : Text α} (hb : b ≠ []) (h : Breaks (run .start a).1 b)
    (hbroken : Broken own .start b) : Broken own .start (a ++ b) := by
  intro rest
  obtain ⟨t, ht, hintact⟩ := hbroken rest
  refine ⟨t, ?_, hintact⟩
  have hbreaks : Breaks (run .start a).1 (b ++ rest) := by
    obtain ⟨c, tail, rfl⟩ := List.exists_cons_of_ne_nil hb
    exact h
  have htokens := tokens_append hbreaks
  unfold tokens at htokens
  rw [List.append_assoc, htokens]
  exact List.mem_append_right _ ht

theorem broken_append_right {s : State α} {a : Text α} (h : Broken own s a) (b : Text α) :
    Broken own s (a ++ b) := by
  intro rest
  rw [List.append_assoc]
  exact h (b ++ rest)

theorem not_intact_unclosed (text : Text α) : ¬ (⟨.unclosed, text⟩ : Token α).Intact own := fun h => h.1 rfl

theorem not_intact_string {text : Text α} {q : Labelled α} (hq : q.char = quote) (hown : own q.label = true)
    (hmem : q ∈ text.tail.dropLast) : ¬ (⟨.string, text⟩ : Token α).Intact own := fun h => by
  have := (h.2 rfl).2.2 q hmem hq
  rw [hown] at this
  cases this

/-- A quote of one's own that has become a part of a literal. -/
theorem broken_of_inner {q : Labelled α} (hq : q.char = quote) (hown : own q.label = true) (rest : Text α) :
    (∀ acc : Text α, q ∈ acc.tail → ∃ t ∈ tokensFrom (.quoted quote acc) rest, ¬ t.Intact own) ∧
    ∀ acc : Text α, q ∈ acc.tail.dropLast → ∃ t ∈ tokensFrom (.closing quote acc) rest, ¬ t.Intact own := by
  have hstring : ∀ acc : Text α, q ∈ acc.tail.dropLast →
      ∃ t ∈ (State.closing quote acc).finish, ¬ t.Intact own := fun acc hacc =>
    ⟨⟨.string, acc⟩, by simp [State.finish], not_intact_string hq hown hacc⟩
  have htail : ∀ (acc : Text α) c, q ∈ acc.tail → q ∈ (acc ++ [c]).tail.dropLast := by
    intro acc c hacc
    obtain ⟨a, acc, rfl⟩ := List.exists_cons_of_ne_nil (List.ne_nil_of_mem (List.mem_of_mem_tail hacc))
    simpa using hacc
  induction rest with
  | nil => exact ⟨fun acc _ => ⟨⟨.unclosed, acc⟩, by simp [tokensFrom, run, State.finish], not_intact_unclosed _⟩,
      fun acc hacc => by simpa [tokensFrom, run] using hstring acc hacc⟩
  | cons c rest ih =>
      constructor
      · intro acc hacc
        by_cases hnul : c.char = nul
        · exact ⟨⟨.unclosed, acc⟩, by simp [tokensFrom, run, step, hnul, State.finish], not_intact_unclosed _⟩
        · by_cases hc : c.char = quote
          · obtain ⟨t, ht, hbad⟩ := ih.2 (acc ++ [c]) (htail acc c hacc)
            exact ⟨t, by simpa [tokensFrom, run, step_quoted_delim hc] using ht, hbad⟩
          · obtain ⟨t, ht, hbad⟩ := ih.1 (acc ++ [c]) (List.dropLast_subset _ (htail acc c hacc))
            exact ⟨t, by simpa [tokensFrom, run, step_quoted hnul hc] using ht, hbad⟩
      · intro acc hacc
        by_cases hc : c.char = quote
        · have hmem : q ∈ (acc ++ [c]).tail := by
            have := htail acc c (List.dropLast_subset _ hacc)
            exact List.dropLast_subset _ this
          obtain ⟨t, ht, hbad⟩ := ih.1 (acc ++ [c]) hmem
          exact ⟨t, by simpa [tokensFrom, run, step_closing_delim hc] using ht, hbad⟩
        · obtain ⟨t, ht, hbad⟩ := hstring acc hacc
          refine ⟨t, ?_, hbad⟩
          have hbreaks : Breaks (.closing quote acc) (c :: rest) := .inr (by simp [State.goOn, hc])
          rw [tokensFrom, run_of_breaks (List.cons_ne_nil _ _) hbreaks]
          simp [ht]

/-- A text that is not enclosed takes the quotes around it apart. -/
theorem exists_not_intact {closing : Labelled α} (hc : closing.char = quote) (hown : own closing.label = true)
    (rest : Text α) : ∀ acc text : Text α, acc ≠ [] → (∀ c ∈ text, own c.label = false) →
      enclosed (chars text) = false →
      ∃ t ∈ tokensFrom (.quoted quote acc) (text ++ closing :: rest), ¬ t.Intact own
  | _, [], _, _, h => by simp [chars, enclosed] at h
  | acc, [c], hacc, _, h => by
      by_cases hnul : c.char = nul
      · exact ⟨⟨.unclosed, acc⟩, by simp [tokensFrom, run, step, hnul, State.finish], not_intact_unclosed _⟩
      -- The quote behind the text is taken for the second of a pair.
      have hcq : c.char = quote := by simpa [chars, enclosed, hnul] using h
      have hmem : closing ∈ (acc ++ [c] ++ [closing]).tail := by
        obtain ⟨a, acc, rfl⟩ := List.exists_cons_of_ne_nil hacc
        simp
      obtain ⟨t, ht, hbad⟩ := (broken_of_inner hc hown rest).1 _ hmem
      exact ⟨t, by simpa [tokensFrom, run, step_quoted_delim hcq, step_closing_delim hc] using ht, hbad⟩
  | acc, c :: d :: tail, hacc, huser, h => by
      by_cases hcq : c.char = quote
      · by_cases hd : d.char = quote
        · have htail : enclosed (chars tail) = false := by simpa [chars, enclosed, hcq, hd] using h
          obtain ⟨t, ht, hbad⟩ := exists_not_intact hc hown rest (acc ++ [c] ++ [d]) tail (by simp)
            (fun x hx => huser x (by simp [hx])) htail
          exact ⟨t, by simpa [tokensFrom, run, step_quoted_delim hcq, step_closing_delim hd] using ht, hbad⟩
        · -- The literal ends with a quote of the text.
          refine ⟨⟨.string, acc ++ [c]⟩, ?_, fun hintact => ?_⟩
          · have hbreaks : Breaks (.closing quote (acc ++ [c])) (d :: tail ++ closing :: rest) :=
              .inr (by simp [State.goOn, hd])
            have hrun := run_of_breaks (by simp) hbreaks
            rw [List.cons_append, tokensFrom, run, step_quoted_delim hcq, hrun]
            simp [State.finish]
          · have hlast := (hintact.2 rfl).2.1 c (by simp)
            rw [huser c (by simp)] at hlast
            cases hlast
      · by_cases hnul : c.char = nul
        · exact ⟨⟨.unclosed, acc⟩, by simp [tokensFrom, run, step, hnul, State.finish], not_intact_unclosed _⟩
        have htail : enclosed (chars (d :: tail)) = false := by simpa [chars, enclosed, hcq, hnul] using h
        obtain ⟨t, ht, hbad⟩ := exists_not_intact hc hown rest (acc ++ [c]) (d :: tail) (by simp)
          (fun x hx => huser x (List.mem_cons_of_mem _ hx)) htail
        refine ⟨t, ?_, hbad⟩
        rw [tokensFrom] at ht ⊢
        rw [List.cons_append, run, step_quoted hnul hcq]
        simpa using ht

/-- A text that is not enclosed, with the quotes around it. -/
theorem broken_literal {opening closing : Labelled α} {text : Text α} {before : Text α} (ho : opening.char = quote)
    (hc : closing.char = quote) (hown : own closing.label = true) (hbefore : enclosed (chars before) = true)
    (huser : ∀ c ∈ text, own c.label = false) (h : enclosed (chars text) = false) :
    Broken own .start (opening :: before ++ text ++ [closing]) := by
  intro rest
  have hfirst : run (.start : State α) (opening :: before) = (.quoted quote (opening :: before), []) := by
    rw [run, step_opening ho, run_quoted _ _ hbefore]
    rfl
  obtain ⟨t, ht, hbad⟩ := exists_not_intact hc hown rest (opening :: before) text (by simp) huser h
  refine ⟨t, ?_, hbad⟩
  rw [List.append_assoc, List.append_assoc, tokensFrom_append, hfirst]
  simpa using ht

end

end SqlTokens
