import EveBox.Lib.SqlTokens

/-!
# Statements that are put together from parts

* `ends_append` — a statement ends where a token may end, if its last part does.
* `Separator.separated_append` — behind what ends so, a separator begins a part.
-/

namespace SqlTokens

section

variable {α : Type*}

/-- The characters that go on with no token that is complete. -/
def breaks : List Char := [' ', ',', ')', '-']

/-- What is being read may end here. -/
def State.Settled (s : State α) : Prop := ∀ c : Labelled α, c.char ∈ breaks → s.goOn c = none

theorem not_isIdChar_of_mem {c : Char} (h : c ∈ breaks) : isIdChar c = false := by
  have hall : ∀ c ∈ breaks, isIdChar c = false := by simp [breaks, isIdChar]
  exact hall c h

theorem ne_quote_of_mem {c : Char} (h : c ∈ breaks) : c ≠ quote := by
  have hall : ∀ c ∈ breaks, c ≠ quote := by simp [breaks, quote]
  exact hall c h

theorem settled_start : (State.start : State α).Settled := fun _ _ => rfl

theorem settled_word (text : Text α) : (State.word text).Settled := fun c hc => by
  have hquote : ¬ (c.char = quote ∧ (chars text = ['x'] ∨ chars text = ['X'])) := fun h => ne_quote_of_mem hc h.1
  simp [State.goOn, not_isIdChar_of_mem hc, hquote]

theorem settled_closing (text : Text α) : (State.closing quote text).Settled := fun c hc => by
  simp [State.goOn, ne_quote_of_mem hc]

theorem settled_parameter (text : Text α) : (State.parameter text).Settled := fun c hc => by
  have hid := not_isIdChar_of_mem hc
  have hdigit : c.char.isDigit = false := by
    simp only [isIdChar, Char.isAlphanum, Bool.or_eq_false_iff] at hid
    exact hid.1.1.1.2
  simp [State.goOn, hid, hdigit]

/-- Digits have no exponent, whose sign would go on. -/
theorem settled_number {text : Text α} (h : ∀ c ∈ text, c.char.isDigit = true) : (State.number text).Settled := fun c hc => by
  have hpoint : c.char ≠ '.' := by
    have hall : ∀ c ∈ breaks, c ≠ '.' := by simp [breaks]
    exact hall c.char hc
  have hlast : ∀ d : Char, d.isDigit = false → (chars text).getLast? ≠ some d := by
    intro d hd hlast
    obtain ⟨x, hx, rfl⟩ := List.mem_map.mp (List.mem_of_getLast? hlast)
    exact absurd (hd.symm.trans (h x hx)) Bool.false_ne_true
  have hsmall := hlast 'e' (by decide)
  have hlarge := hlast 'E' (by decide)
  simp [State.goOn, goesOnNumber, not_isIdChar_of_mem hc, hpoint, hsmall, hlarge]

/-- A text that ends where a token may end. -/
def Ends (text : Text α) : Prop := (run .start text).1.Settled

/-- Nothing goes on with the token before, whatever ends there. -/
def Separated : Text α → Prop
  | [] => True
  | c :: _ => c.char ∈ breaks

instance : ∀ text : Text α, Decidable (Separated text)
  | [] => isTrue trivial
  | c :: _ => inferInstanceAs (Decidable (c.char ∈ breaks))

theorem State.Settled.breaks {s : State α} (hs : s.Settled) {text : Text α} (h : Separated text) : Breaks s text := by
  cases text with
  | nil => trivial
  | cons c text => exact .inr (hs c h)

theorem breaks_start (text : Text α) : Breaks .start text := by
  cases text with
  | nil => trivial
  | cons c text => exact .inr rfl

theorem ends_append {a b : Text α} (ha : Ends a) (hb : Ends b) (h : Breaks (run .start a).1 b) : Ends (a ++ b) := by
  by_cases hne : b = []
  · rw [hne, List.append_nil]
    exact ha
  · rw [Ends, state_append hne h]
    exact hb

theorem Separated.append {a b : Text α} (ha : Separated a) (hb : Separated b) : Separated (a ++ b) := by
  cases a with
  | nil => exact hb
  | cons c a => exact ha

/-- A text that separates those around it. -/
structure Separator (text : Text α) : Prop where
  ne_nil : text ≠ []
  separated : Separated text
  ended : (run .start text).1 = .start

theorem Separator.separated_append {sep : Text α} (h : Separator sep) (text : Text α) : Separated (sep ++ text) := by
  obtain ⟨c, rest, rfl⟩ := List.exists_cons_of_ne_nil h.ne_nil
  exact h.separated

variable {own : α → Bool}

theorem Broken.ne_nil {text : Text α} (h : Broken own .start text) : text ≠ [] := by
  rintro rfl
  obtain ⟨t, ht, -⟩ := h []
  exact absurd ht List.not_mem_nil

/-- What is broken is not intact. -/
theorem Broken.exists_not_intact {text : Text α} (h : Broken own .start text) : ∃ t ∈ tokens text, ¬ t.Intact own := by
  obtain ⟨t, ht, hintact⟩ := h []
  rw [List.append_nil] at ht
  exact ⟨t, ht, hintact⟩

end

end SqlTokens
