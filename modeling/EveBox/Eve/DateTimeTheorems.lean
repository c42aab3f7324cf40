import EveBox.Eve.Event

/-!
# What a time is read as

Reference: `src/datetime.rs`.

The pattern of `parse` has no end, each of its pieces may be missing by itself, and so may each of its separators.

* `reads_iff` — when the whole text says the time that it is read as.
-/

namespace EveBox.Eve

open Rust

/-! ## Texts of a time -/

/-- What may stand in front of the month, the day, the hour, the minute and the second. -/
def separators : List Char := ['-', '-', 'T', ':', ':']

section

variable (isDigit : Char → Bool)

/-- The text of some components, each with two digits, and with its separator or without it. -/
inductive Components : List Char → List Char → List (List Char) → Prop
  | none (seps : List Char) : Components seps [] []
  | given {sep : Char} {seps start text digits : List Char} {more : List (List Char)} (hstart : start = [] ∨ start = [sep])
      (hlen : digits.length = 2) (hdigits : digits.all isDigit = true) (hmore : Components seps text more) :
      Components (sep :: seps) (start ++ digits ++ text) (digits :: more)

/-- `Z`, or a sign and four digits. -/
inductive IsOffset : List Char → Prop
  | utc : IsOffset ['Z']
  | signed {sign : Char} {digits : List Char} (hsign : sign = '+' ∨ sign = '-') (hlen : digits.length = 4)
      (hdigits : digits.all isDigit = true) : IsOffset (sign :: digits)

/-- The pieces of a time. -/
structure Pieces where
  year : List Char
  /-- The month, the day, the hour, the minute and the second, as far as they are given. -/
  components : List (List Char)
  subs : Option (List Char)
  offset : Option (List Char)

namespace Pieces

variable (p : Pieces)

/-- The text of the subseconds and the offset. -/
def tail : List Char := (p.subs.map ('.' :: ·)).getD [] ++ p.offset.getD []

/-- The subseconds and the offset are well formed. -/
structure TailFormed (full : Bool) : Prop where
  subs : ∀ digits ∈ p.subs, digits ≠ [] ∧ digits.all isDigit = true ∧ full = true
  offset : ∀ offset ∈ p.offset, IsOffset isDigit offset

/-- The pieces are all that a text has. There are subseconds only behind a second. -/
structure Spell (input : List Char) : Prop where
  yearLength : p.year.length = 4
  year : p.year.all isDigit = true
  text : ∃ text, Components isDigit separators text p.components ∧ input = p.year ++ text ++ p.tail
  tail : p.TailFormed isDigit (p.components.length = 5)

/-- The time that the pieces say, in full: what is not given is at its least, and the zone is that of the default. -/
def full (defaultTz : String) : List Char :=
  p.year ++ '-' :: p.components[0]?.getD ['0', '1'] ++ '-' :: p.components[1]?.getD ['0', '1'] ++
    'T' :: p.components[2]?.getD ['0', '0'] ++ ':' :: p.components[3]?.getD ['0', '0'] ++
    ':' :: p.components[4]?.getD ['0', '0'] ++ '.' :: p.subs.getD ['0'] ++ p.offset.getD defaultTz.toList

end Pieces

/-! ## Texts that are read to their end -/

/-- There is at most an offset left. -/
def atMostOffset (input : List Char) : Bool := (optionalOffset isDigit input).getD [] = input

/-- The components are there one after the other; behind the last one that may be given are at most subseconds and an
offset, and behind another one at most an offset. -/
def readsOn : List Char → List Char → Bool
  | [], input => atMostOffset isDigit (optionalSubs isDigit input).2
  | sep :: seps, input => match optionalDigits isDigit 2 (optionalChar sep input) with
    | (some _, rest) => readsOn seps rest
    | (none, _) => atMostOffset isDigit input

/-- A year, and what may stand behind it. -/
def readsWhole (input : List Char) : Bool := match optionalDigits isDigit 4 input with
  | (some _, rest) => readsOn isDigit separators rest
  | (none, _) => false

end

/-- The time is said by the whole text. -/
def Reads (lib : TimeLib) (tzOffset : Option String) (input : String) (dt : DateTime) : Prop :=
  ∃ p : Pieces, p.Spell lib.isDigit input.toList ∧ lib.parse (p.full (tzOffset.getD "Z")) = some dt

/-! ## Pieces of the pattern -/

/-- The digits of the pattern are not what it has between them. -/
def PlainDigits (isDigit : Char → Bool) : Prop := ∀ c ∈ ['-', 'T', ':', '.', '+', 'Z'], isDigit c = false

section

variable {isDigit : Char → Bool}

theorem optionalDigits_append {n : ℕ} {digits rest : List Char} (hlen : digits.length = n)
    (hdigits : digits.all isDigit = true) : optionalDigits isDigit n (digits ++ rest) = (some digits, rest) := by
  subst hlen
  simp [optionalDigits, hdigits]

theorem optionalDigits_some {n : ℕ} {input digits rest : List Char} (h : optionalDigits isDigit n input = (some digits, rest)) :
    digits.length = n ∧ digits.all isDigit = true ∧ input = digits ++ rest := by
  unfold optionalDigits at h
  dsimp only at h
  split at h
  next hdigits =>
    obtain ⟨hlen, hall⟩ := Bool.and_eq_true_iff.mp hdigits
    cases h
    exact ⟨by simpa using hlen, hall, (List.take_append_drop n input).symm⟩
  next => exact nomatch h

theorem optionalDigits_none {n : ℕ} {input rest : List Char} (h : optionalDigits isDigit n input = (none, rest)) :
    rest = input := by
  unfold optionalDigits at h
  dsimp only at h
  split at h
  next => exact nomatch h
  next => cases h; rfl

/-- There are no digits where another character is. -/
theorem optionalDigits_cons {n : ℕ} {c : Char} (hc : isDigit c = false) (input : List Char) :
    optionalDigits isDigit (n + 1) (c :: input) = (none, c :: input) := by
  simp [optionalDigits, hc]

theorem optionalChar_eq (c : Char) (input : List Char) :
    ∃ start, (start = [] ∨ start = [c]) ∧ input = start ++ optionalChar c input := by
  cases input with
  | nil => exact ⟨[], .inl rfl, rfl⟩
  | cons d input =>
      by_cases hd : d = c
      · exact ⟨[c], .inr rfl, by simp [optionalChar, hd]⟩
      · exact ⟨[], .inl rfl, by simp [optionalChar, hd]⟩

theorem optionalChar_of_ne {c d : Char} (h : d ≠ c) (input : List Char) : optionalChar c (d :: input) = d :: input :=
  if_neg h

/-- A separator that may be there is taken, where digits are next. -/
theorem optionalChar_start {sep : Char} {start digits rest : List Char} (hsep : isDigit sep = false)
    (hstart : start = [] ∨ start = [sep]) (hne : digits ≠ []) (hdigits : digits.all isDigit = true) :
    optionalChar sep (start ++ digits ++ rest) = digits ++ rest := by
  rcases hstart with rfl | rfl
  · obtain ⟨d, digits, rfl⟩ := List.exists_cons_of_ne_nil hne
    have hd : isDigit d = true := by simpa using (List.all_eq_true.mp hdigits) d List.mem_cons_self
    refine optionalChar_of_ne ?_ _
    rintro rfl
    exact Bool.false_ne_true (hsep.symm.trans hd)
  · simp [optionalChar]

theorem optionalOffset_isOffset {offset : List Char} (h : IsOffset isDigit offset) :
    optionalOffset isDigit offset = some offset := by
  cases h with
  | utc => simp [optionalOffset]
  | @signed sign digits hsign hlen hdigits =>
      have htake : optionalDigits isDigit 4 (digits ++ []) = (some digits, []) := optionalDigits_append hlen hdigits
      rw [List.append_nil] at htake
      simp only [optionalOffset, if_pos hsign, htake, Option.map_some]

theorem isOffset_of_optionalOffset {input offset : List Char} (h : optionalOffset isDigit input = some offset) :
    IsOffset isDigit offset := by
  cases input with
  | nil => exact nomatch h
  | cons c input =>
      unfold optionalOffset at h
      dsimp only at h
      split_ifs at h with hsign hz
      · obtain ⟨digits, hdigits, rfl⟩ := Option.map_eq_some_iff.mp h
        obtain ⟨hlen, hall, -⟩ := optionalDigits_some (Prod.ext hdigits rfl)
        exact .signed hsign hlen hall
      · cases h
        exact .utc

/-- What an offset begins with. -/
theorem IsOffset.cases_head {offset : List Char} (h : IsOffset isDigit offset) :
    ∃ c rest, offset = c :: rest ∧ (c = 'Z' ∨ c = '+' ∨ c = '-') := by
  cases h with
  | utc => exact ⟨'Z', [], rfl, .inl rfl⟩
  | @signed sign digits hsign hlen hdigits => exact ⟨sign, digits, rfl, .inr hsign⟩

theorem atMostOffset_iff {input : List Char} : atMostOffset isDigit input = true ↔
    input = [] ∨ IsOffset isDigit input := by
  unfold atMostOffset
  rw [decide_eq_true_iff]
  constructor
  · intro h
    cases hoffset : optionalOffset isDigit input with
    | none =>
        rw [hoffset] at h
        exact .inl h.symm
    | some offset =>
        rw [hoffset] at h
        obtain rfl : offset = input := h
        exact .inr (isOffset_of_optionalOffset hoffset)
  · rintro (rfl | h)
    · rfl
    · rw [optionalOffset_isOffset h]
      rfl

/-- No subseconds are taken of an offset. -/
theorem optionalSubs_offset {input : List Char} (h : input = [] ∨ IsOffset isDigit input) :
    optionalSubs isDigit input = (none, input) := by
  rcases h with rfl | h
  · rfl
  · obtain ⟨c, rest, rfl, hc⟩ := h.cases_head
    unfold optionalSubs
    split
    next rest' heq =>
      cases heq
      rcases hc with hc | hc | hc <;> exact absurd hc (by decide)
    next => rfl

/-- The subseconds in front of an offset. -/
theorem optionalSubs_digits {digits input : List Char} (hplain : PlainDigits isDigit) (hne : digits ≠ [])
    (hdigits : digits.all isDigit = true) (h : input = [] ∨ IsOffset isDigit input) :
    optionalSubs isDigit ('.' :: digits ++ input) = (some digits, input) := by
  have hinput : input.takeWhile isDigit = [] ∧ input.dropWhile isDigit = input := by
    rcases h with rfl | h
    · exact ⟨rfl, rfl⟩
    · obtain ⟨c, rest, rfl, hc⟩ := h.cases_head
      have hdigit : isDigit c = false := by
        rcases hc with rfl | rfl | rfl
        · exact hplain 'Z' (by decide)
        · exact hplain '+' (by decide)
        · exact hplain '-' (by decide)
      simp [hdigit]
  have hall : ∀ c ∈ digits, isDigit c = true := List.all_eq_true.mp hdigits
  have htake : (digits ++ input).takeWhile isDigit = digits := by
    rw [List.takeWhile_append_of_pos hall, hinput.1, List.append_nil]
  have hdrop : (digits ++ input).dropWhile isDigit = input := by
    rw [List.dropWhile_append_of_pos hall, hinput.2]
  simp only [optionalSubs, List.cons_append, htake, hdrop, if_neg hne]

/-! ## The components -/

/-- What the pattern takes for the components, and what it leaves. -/
def pieces (isDigit : Char → Bool) : List Char → List Char → List (Option (List Char)) × List Char
  | [], input => ([], input)
  | sep :: seps, input =>
      let piece := optionalDigits isDigit 2 (optionalChar sep input)
      let rest := pieces isDigit seps piece.2
      (piece.1 :: rest.1, rest.2)

theorem fixTimestamp_eq {input year rest : List Char} (h : optionalDigits isDigit 4 input = (some year, rest))
    (defaultTz : String) : fixTimestamp isDigit input defaultTz =
      let r := pieces isDigit separators rest
      let subs := optionalSubs isDigit r.2
      some (year ++ '-' :: (r.1[0]?.getD none).getD ['0', '1'] ++ '-' :: (r.1[1]?.getD none).getD ['0', '1'] ++
        'T' :: (r.1[2]?.getD none).getD ['0', '0'] ++ ':' :: (r.1[3]?.getD none).getD ['0', '0'] ++
        ':' :: (r.1[4]?.getD none).getD ['0', '0'] ++
        '.' :: subs.1.getD ['0'] ++ (optionalOffset isDigit subs.2).getD defaultTz.toList) := by
  rcases hmonth : optionalDigits isDigit 2 (optionalChar '-' rest) with ⟨month, r₁⟩
  rcases hday : optionalDigits isDigit 2 (optionalChar '-' r₁) with ⟨day, r₂⟩
  rcases hhour : optionalDigits isDigit 2 (optionalChar 'T' r₂) with ⟨hour, r₃⟩
  rcases hminute : optionalDigits isDigit 2 (optionalChar ':' r₃) with ⟨minute, r₄⟩
  rcases hsecond : optionalDigits isDigit 2 (optionalChar ':' r₄) with ⟨second, r₅⟩
  have hpieces : pieces isDigit separators rest = ([month, day, hour, minute, second], r₅) := by
    simp only [pieces, separators, hmonth, hday, hhour, hminute, hsecond]
  rw [hpieces]
  unfold fixTimestamp
  simp only [h, hmonth, hday, hhour, hminute, hsecond]
  rfl

theorem separators_subset : separators ⊆ ['-', 'T', ':', '.', '+', 'Z'] := by simp [separators]

/-- The separators from one on. -/
theorem separators_suffix {sep : Char} {seps : List Char} (h : sep :: seps <:+ separators) :
    sep ∈ separators ∧ (sep = '-' → seps ≠ []) ∧ (sep ≠ '-' → '-' ∉ seps) ∧ seps <:+ separators := by
  have hseps : (sep = '-' → seps ≠ []) ∧ (sep ≠ '-' → '-' ∉ seps) := by
    simp only [separators, List.suffix_cons_iff, List.cons.injEq, List.suffix_nil, reduceCtorEq, or_false] at h
    rcases h with ⟨rfl, rfl⟩ | ⟨rfl, rfl⟩ | ⟨rfl, rfl⟩ | ⟨rfl, rfl⟩ | ⟨rfl, rfl⟩ <;> decide
  exact ⟨h.subset List.mem_cons_self, hseps.1, hseps.2, (List.suffix_cons sep seps).trans h⟩

theorem four_digits {digits : List Char} (hlen : digits.length = 4) (h : digits.all isDigit = true) :
    ∃ a b c d, digits = [a, b, c, d] ∧ isDigit a = true ∧ isDigit b = true ∧ isDigit c = true ∧ isDigit d = true := by
  match digits, hlen with
  | [a, b, c, d], _ => exact ⟨a, b, c, d, rfl, by simpa using h⟩

theorem readsOn_nil (seps : List Char) : readsOn isDigit seps [] = true := by
  cases seps <;> rfl

/-- An offset is read to its end, be it in place of the components. -/
theorem readsOn_offset {sep : Char} {seps input : List Char} (hplain : PlainDigits isDigit)
    (hsuffix : sep :: seps <:+ separators) (h : input = [] ∨ IsOffset isDigit input) :
    readsOn isDigit (sep :: seps) input = true := by
  obtain ⟨hsep, hminus, -, hseps⟩ := separators_suffix hsuffix
  rw [readsOn]
  split
  next digits rest hdigits =>
    rcases h with rfl | h
    · exact nomatch hdigits
    · cases h with
      | utc =>
          by_cases hz : 'Z' = sep
          · rw [← hz] at hsep
            exact absurd hsep (by decide)
          · rw [optionalChar_of_ne hz, optionalDigits_cons (hplain 'Z' (by decide))] at hdigits
            exact nomatch hdigits
      | @signed sign offset hsign hlen hoffset =>
          by_cases heq : sign = sep
          · subst heq
            have hsign' : sign = '-' := by
              rcases hsign with rfl | rfl
              · exact absurd hsep (by decide)
              · rfl
            obtain ⟨second, others, rfl⟩ := List.exists_cons_of_ne_nil (hminus hsign')
            have hsecond : isDigit second = false := hplain second <|
              separators_subset (separators_suffix hseps).1
            obtain ⟨a, b, c, d, rfl, ha, hb, hc, hd⟩ := four_digits hlen hoffset
            have hrest : rest = [c, d] := by
              simp [optionalChar, optionalDigits, ha, hb] at hdigits
              exact hdigits.2.symm
            have hchar : optionalChar second [c, d] = [c, d] := optionalChar_of_ne (by rintro rfl; simp [hc] at hsecond) _
            rw [hrest, readsOn, hchar]
            simp [optionalDigits, hc, hd, readsOn_nil]
          · have hsignDigit : isDigit sign = false := by
              rcases hsign with rfl | rfl
              · exact hplain '+' (by decide)
              · exact hplain '-' (by decide)
            rw [optionalChar_of_ne heq, optionalDigits_cons hsignDigit] at hdigits
            exact nomatch hdigits
  next => exact atMostOffset_iff.mpr h

/-- A text with nothing but components, subseconds and an offset is read to its end. -/
theorem readsOn_of_components {seps text : List Char} {components : List (List Char)} {p : Pieces}
    (hplain : PlainDigits isDigit) (hsuffix : seps <:+ separators) (h : Components isDigit seps text components)
    (hp : p.TailFormed isDigit (components.length = seps.length)) : readsOn isDigit seps (text ++ p.tail) = true := by
  have hend : p.offset.getD [] = [] ∨ IsOffset isDigit (p.offset.getD []) := by
    cases hoffset : p.offset with
    | none => exact .inl rfl
    | some offset => exact .inr (hp.offset offset hoffset)
  induction h with
  | none seps =>
      rw [List.nil_append, Pieces.tail]
      cases hsubs : p.subs with
      | none =>
          show readsOn isDigit seps (p.offset.getD []) = true
          cases seps with
          | nil =>
              rw [readsOn, optionalSubs_offset hend]
              exact atMostOffset_iff.mpr hend
          | cons sep seps => exact readsOn_offset hplain hsuffix hend
      | some digits =>
          obtain ⟨hne, hdigits, hfull⟩ := hp.subs digits hsubs
          obtain rfl : seps = [] := List.length_eq_zero_iff.mp (of_decide_eq_true hfull).symm
          show readsOn isDigit [] ('.' :: digits ++ p.offset.getD []) = true
          rw [readsOn, optionalSubs_digits hplain hne hdigits hend]
          exact atMostOffset_iff.mpr hend
  | @given sep seps start text digits more hstart hlen hdigits hmore ih =>
      obtain ⟨hsep, -, -, hseps⟩ := separators_suffix hsuffix
      have hsepDigit : isDigit sep = false :=
        hplain sep (separators_subset hsep)
      have hne : digits ≠ [] := List.ne_nil_of_length_pos (by omega)
      have hrest := ih hseps ⟨fun d hd => ⟨(hp.subs d hd).1, (hp.subs d hd).2.1, by simpa using (hp.subs d hd).2.2⟩, hp.offset⟩
      rw [List.append_assoc, readsOn, optionalChar_start hsepDigit hstart hne hdigits, optionalDigits_append hlen hdigits]
      exact hrest

/-- A text that has a time and nothing else is read to its end. -/
theorem readsWhole_of_spell {p : Pieces} {input : List Char} (hplain : PlainDigits isDigit) (h : p.Spell isDigit input) :
    readsWhole isDigit input = true := by
  obtain ⟨text, hcomponents, rfl⟩ := h.text
  rw [readsWhole, List.append_assoc, optionalDigits_append h.yearLength h.year]
  exact readsOn_of_components hplain List.suffix_rfl hcomponents h.tail

/-! ## What is taken of a text that is read to its end -/

/-- The pattern takes nothing where no separator and no digit is. -/
theorem pieces_quiet {c : Char} (hc : isDigit c = false) (rest : List Char) : ∀ {seps : List Char}, c ∉ seps →
    pieces isDigit seps (c :: rest) = (List.replicate seps.length none, c :: rest)
  | [], _ => rfl
  | sep :: seps, h => by
      obtain ⟨hsep, hseps⟩ : c ≠ sep ∧ c ∉ seps := by simpa using h
      simp only [pieces, optionalChar_of_ne hsep, optionalDigits_cons hc, pieces_quiet hc rest hseps]
      rfl

theorem pieces_nil : ∀ seps : List Char, pieces isDigit seps [] = (List.replicate seps.length none, [])
  | [] => rfl
  | sep :: seps => by
      have hpiece : optionalDigits isDigit 2 (optionalChar sep []) = (none, []) := rfl
      simp only [pieces, hpiece, pieces_nil seps]
      rfl

/-- The pattern leaves an offset that it does not take for a component. -/
theorem pieces_offset {sep : Char} {seps input rest : List Char} (hplain : PlainDigits isDigit)
    (hsuffix : sep :: seps <:+ separators) (h : input = [] ∨ IsOffset isDigit input)
    (hpiece : optionalDigits isDigit 2 (optionalChar sep input) = (none, rest)) :
    pieces isDigit (sep :: seps) input = (List.replicate (sep :: seps).length none, input) := by
  obtain ⟨-, -, hminus, -⟩ := separators_suffix hsuffix
  rcases h with rfl | h
  · exact pieces_nil _
  · cases h with
    | utc => exact pieces_quiet (hplain 'Z' (by decide)) [] fun hz => absurd (hsuffix.subset hz) (by decide)
    | @signed sign offset hsign hlen hoffset =>
        rcases hsign with rfl | rfl
        · exact pieces_quiet (hplain '+' (by decide)) offset fun hz => absurd (hsuffix.subset hz) (by decide)
        · have hsep : sep ≠ '-' := by
            rintro rfl
            obtain ⟨a, b, c, d, rfl, ha, hb, -, -⟩ := four_digits hlen hoffset
            simp [optionalChar, optionalDigits, ha, hb] at hpiece
          refine pieces_quiet (hplain '-' (by decide)) offset ?_
          simpa using ⟨hsep.symm, hminus hsep⟩

/-- A component that is given, or none. -/
theorem getD_given (components : List (List Char)) (n i : ℕ) :
    (components.map some ++ List.replicate n none)[i]?.getD none = components[i]? := by
  induction components generalizing i with
  | nil =>
      rw [List.map_nil, List.nil_append, List.getElem?_replicate]
      split <;> rfl
  | cons c components ih =>
      cases i with
      | zero => rfl
      | succ i => exact ih i

theorem components_of_readsOn (hplain : PlainDigits isDigit) : ∀ {seps input : List Char}, seps <:+ separators →
    readsOn isDigit seps input = true → ∃ text components rest, Components isDigit seps text components ∧
      input = text ++ rest ∧ components.length ≤ seps.length ∧
      pieces isDigit seps input = (components.map some ++ List.replicate (seps.length - components.length) none, rest) ∧
      atMostOffset isDigit (optionalSubs isDigit rest).2 = true ∧
      (components.length ≠ seps.length → atMostOffset isDigit rest = true)
  | [], input, _, h => ⟨[], [], input, .none [], rfl, le_rfl, rfl, h, fun hne => absurd rfl hne⟩
  | sep :: seps, input, hsuffix, h => by
      rw [readsOn] at h
      rcases hpiece : optionalDigits isDigit 2 (optionalChar sep input) with ⟨piece, after⟩
      rw [hpiece] at h
      cases piece with
      | none =>
          have hend : atMostOffset isDigit input = true := h
          have hoffset := atMostOffset_iff.mp hend
          refine ⟨[], [], input, .none _, rfl, Nat.zero_le _, pieces_offset hplain hsuffix hoffset hpiece, ?_, fun _ => hend⟩
          rw [optionalSubs_offset hoffset]
          exact hend
      | some digits =>
          obtain ⟨hlen, hdigits, heq⟩ := optionalDigits_some hpiece
          obtain ⟨start, hstart, hinput⟩ := optionalChar_eq sep input
          obtain ⟨text, components, rest, hcomponents, rfl, hle, hpieces, hend, hshort⟩ :=
            components_of_readsOn hplain (separators_suffix hsuffix).2.2.2 h
          refine ⟨start ++ digits ++ text, digits :: components, rest, .given hstart hlen hdigits hcomponents, ?_,
            Nat.succ_le_succ hle, ?_, hend, fun hne => hshort (by simpa using hne)⟩
          · rw [hinput, heq]
            simp
          · simp only [pieces, hpiece, hpieces]
            simp

theorem optionalSubs_eq (input : List Char) :
    input = ((optionalSubs isDigit input).1.map ('.' :: ·)).getD [] ++ (optionalSubs isDigit input).2 := by
  unfold optionalSubs
  split
  next rest =>
    dsimp only
    split_ifs
    · rfl
    · simp
  next => rfl

theorem optionalSubs_some {input digits rest : List Char} (h : optionalSubs isDigit input = (some digits, rest)) :
    digits ≠ [] ∧ digits.all isDigit = true := by
  unfold optionalSubs at h
  split at h
  next input' =>
    dsimp only at h
    split_ifs at h with hnil
    · exact nomatch h
    · obtain ⟨hdigits, -⟩ := Prod.mk.inj h
      obtain rfl := Option.some.inj hdigits
      exact ⟨hnil, List.all_takeWhile⟩
  next => exact nomatch h

/-- A text that is read to its end has nothing but the pieces that the pattern takes. -/
theorem spell_of_readsWhole {input : List Char} (hplain : PlainDigits isDigit) (h : readsWhole isDigit input = true)
    (defaultTz : String) : ∃ p : Pieces, p.Spell isDigit input ∧ fixTimestamp isDigit input defaultTz = some (p.full defaultTz) := by
  rw [readsWhole] at h
  rcases hyear : optionalDigits isDigit 4 input with ⟨year, after⟩
  rw [hyear] at h
  cases year with
  | none => exact absurd h Bool.false_ne_true
  | some year =>
      obtain ⟨hlen, hdigits, rfl⟩ := optionalDigits_some hyear
      obtain ⟨text, components, rest, hcomponents, rfl, hle, hpieces, hend, hshort⟩ :=
        components_of_readsOn hplain List.suffix_rfl h
      refine ⟨⟨year, components, (optionalSubs isDigit rest).1, optionalOffset isDigit (optionalSubs isDigit rest).2⟩,
        ⟨hlen, hdigits, ⟨text, hcomponents, ?_⟩, ?_, ?_⟩, ?_⟩
      · have hoffset : (optionalOffset isDigit (optionalSubs isDigit rest).2).getD [] = (optionalSubs isDigit rest).2 :=
          of_decide_eq_true hend
        rw [Pieces.tail, hoffset, ← optionalSubs_eq, List.append_assoc]
      · intro digits hsubs
        obtain ⟨hne, hall⟩ := optionalSubs_some (Prod.ext hsubs rfl)
        refine ⟨hne, hall, ?_⟩
        by_contra hfull
        have hnone := optionalSubs_offset (atMostOffset_iff.mp (hshort fun hlen => hfull (decide_eq_true hlen)))
        rw [hnone] at hsubs
        exact nomatch hsubs
      · intro offset hoffset
        exact isOffset_of_optionalOffset hoffset
      · rw [fixTimestamp_eq hyear, hpieces]
        simp only [getD_given, Pieces.full]

end

/-- A time is said by the whole text if and only if each component stands behind the one before it, and nothing but an
offset is behind the last of them. -/
theorem reads_iff {lib : TimeLib} {tzOffset : Option String} {input : String} {dt : DateTime}
    (hplain : PlainDigits lib.isDigit) (hchrono : lib.parse input.toList = none)
    (h : parseDateTime lib input tzOffset = some dt) : Reads lib tzOffset input dt ↔ readsWhole lib.isDigit input.toList = true := by
  constructor
  · rintro ⟨p, hp, -⟩
    exact readsWhole_of_spell hplain hp
  · intro hwhole
    obtain ⟨p, hp, hfull⟩ := spell_of_readsWhole hplain hwhole (tzOffset.getD "Z")
    refine ⟨p, hp, ?_⟩
    rw [parseDateTime, hchrono] at h
    dsimp only at h
    rw [hfull] at h
    exact h

/-- A library that reads the start of a year. -/
def yearLib : TimeLib where
  parse s := if s = "2024-01-01T00:00:00.0Z".toList then some ⟨1704067200000000000, 0⟩ else none
  isDigit := Char.isDigit
  format _ _ := ""
  rfc3339Micros _ := ""
  rfc3339Millis _ := ""

theorem plainDigits_isDigit : PlainDigits Char.isDigit := by
  simp only [PlainDigits, List.mem_cons, List.not_mem_nil, or_false, forall_eq_or_imp, forall_eq]
  decide

/-- A year alone. -/
theorem reads_iff_year : Reads yearLib none "2024" ⟨1704067200000000000, 0⟩ :=
  have hread : parseDateTime yearLib "2024" none = some ⟨1704067200000000000, 0⟩ := by decide
  (reads_iff plainDigits_isDigit (by decide) hread).mpr (by decide)

/-- What is behind a year is not looked at. -/
theorem suffix_not_reads : parseDateTime yearLib "2024, or later" none = some ⟨1704067200000000000, 0⟩ ∧
    ¬ Reads yearLib none "2024, or later" ⟨1704067200000000000, 0⟩ := by
  refine ⟨by decide, ?_⟩
  rintro ⟨p, hp, -⟩
  exact absurd (readsWhole_of_spell plainDigits_isDigit hp) (by decide)

end EveBox.Eve
