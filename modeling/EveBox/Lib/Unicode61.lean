import Mathlib.Data.List.Infix

/-!
# Tokens of a text

A tokenizer takes the longest runs of the characters that belong to tokens, and folds each of them. The tables that it
goes by are a parameter.

* `tokens_separated` — the tokens of two texts with a separator between them are those of each.
* `contains_flatMap` — a text that is one of several is found in all of them together.
-/

namespace EveBox.Unicode61

/-- The tables of a tokenizer. -/
structure Tokenizer where
  /-- A token may begin with the character. -/
  isToken : Char → Bool
  /-- The character goes on with a token, but begins none. -/
  isDiacritic : Char → Bool
  /-- What stands for the character in a token, which may be nothing. -/
  fold : Char → List Char

namespace Tokenizer

variable (t : Tokenizer)

/-- A character that ends a token. -/
def Separates (c : Char) : Prop := t.isToken c = false ∧ t.isDiacritic c = false

/-- The tokens of a text behind the start of one, if there is one. -/
def run : Option (List Char) → List Char → List (List Char)
  | none, [] => []
  | some word, [] => [word]
  | none, c :: cs => if t.isToken c then run (some (t.fold c)) cs else run none cs
  | some word, c :: cs =>
      if t.isToken c || t.isDiacritic c then run (some (word ++ t.fold c)) cs else word :: run none cs

/-- The tokens of a text. -/
def tokens (text : List Char) : List (List Char) := t.run none text

/-- A text has the tokens of a phrase, one behind the other. A phrase without tokens is in no text. -/
def Contains (text phrase : List (List Char)) : Prop := phrase ≠ [] ∧ phrase <:+: text

instance (text phrase : List (List Char)) : Decidable (Contains text phrase) := by
  unfold Contains
  infer_instance

variable {t} {c : Char}

theorem run_separated (hc : t.Separates c) (after : List Char) : ∀ (word : Option (List Char)) (before : List Char),
    t.run word (before ++ c :: after) = t.run word before ++ t.tokens after
  | none, [] => by simp [run, hc.1, tokens]
  | some word, [] => by simp [run, hc.1, hc.2, tokens]
  | none, d :: before => by
      by_cases hd : t.isToken d = true
      · simp only [List.cons_append, run, if_pos hd, run_separated hc after (some (t.fold d)) before]
      · simp only [List.cons_append, run, if_neg hd, run_separated hc after none before]
  | some word, d :: before => by
      by_cases hd : (t.isToken d || t.isDiacritic d) = true
      · simp only [List.cons_append, run, if_pos hd, run_separated hc after (some (word ++ t.fold d)) before]
      · simp only [List.cons_append, run, if_neg hd, run_separated hc after none before]

theorem tokens_separated (hc : t.Separates c) (before after : List Char) :
    t.tokens (before ++ c :: after) = t.tokens before ++ t.tokens after :=
  run_separated hc after none before

/-- A text that is one of several is found among them. -/
theorem contains_flatMap {texts : List (List Char)} {phrase : List Char} (hmem : phrase ∈ texts)
    (hne : t.tokens phrase ≠ []) : Contains (texts.flatMap t.tokens) (t.tokens phrase) := by
  obtain ⟨before, after, rfl⟩ := List.append_of_mem hmem
  refine ⟨hne, before.flatMap t.tokens, after.flatMap t.tokens, ?_⟩
  simp

end Tokenizer

end EveBox.Unicode61
