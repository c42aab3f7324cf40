import Mathlib.Data.List.Basic
import Mathlib.Data.Nat.Notation

/-!
# Tokens of JSON texts

A text is scanned from left to right, one character at a time, into signs, strings and words. A string is read with
its escapes; the escapes of characters outside of the basic multilingual plane are pairs of UTF-16 surrogates, and a
surrogate without its pair is an error.

* `Escapes` — a text that stands for a character within every string.
* `scan_flatMap` — writing such texts for the characters outside of ASCII leaves the tokens of a text.
-/

namespace JsonTokens

/-! ## UTF-16 -/

/-- `0xD800` to `0xDBFF`. -/
def isHigh (n : ℕ) : Bool := 0xD800 ≤ n && n < 0xDC00

/-- `0xDC00` to `0xDFFF`. -/
def isLow (n : ℕ) : Bool := 0xDC00 ≤ n && n < 0xE000

/-- The code point of two surrogates. -/
def combine (high low : ℕ) : ℕ := 0x10000 + (high - 0xD800) * 0x400 + (low - 0xDC00)

/-- The code units of a character. -/
def utf16 (c : Char) : List ℕ :=
  if c.toNat < 0x10000 then [c.toNat]
  else [0xD800 + (c.toNat - 0x10000) / 0x400, 0xDC00 + (c.toNat - 0x10000) % 0x400]

/-- A character is no surrogate, and is below `0x110000`. -/
theorem toNat_valid (c : Char) : c.toNat < 0xD800 ∨ 0xDFFF < c.toNat ∧ c.toNat < 0x110000 := c.valid

/-- A character of the basic multilingual plane is one unit, and no surrogate. -/
theorem utf16_of_lt {c : Char} (h : c.toNat < 0x10000) :
    utf16 c = [c.toNat] ∧ isHigh c.toNat = false ∧ isLow c.toNat = false := by
  refine ⟨if_pos h, ?_, ?_⟩
  all_goals
    have hvalid := toNat_valid c
    simp only [isHigh, isLow, Bool.and_eq_false_iff, decide_eq_false_iff_not]
    omega

/-- Any other is a pair of surrogates. -/
theorem utf16_of_le {c : Char} (h : 0x10000 ≤ c.toNat) :
    ∃ high low, utf16 c = [high, low] ∧ isHigh high = true ∧ isLow low = true ∧ combine high low = c.toNat := by
  have hvalid := toNat_valid c
  obtain ⟨n, hn⟩ := Nat.exists_eq_add_of_le h
  have hlt : n / 0x400 < 0x400 := by omega
  have hmod : n % 0x400 < 0x400 := Nat.mod_lt n (by decide)
  have hdiv := Nat.div_add_mod n 0x400
  refine ⟨0xD800 + n / 0x400, 0xDC00 + n % 0x400, ?_, ?_, ?_, ?_⟩
  · unfold utf16
    rw [if_neg (Nat.not_lt.mpr h), hn, Nat.add_sub_cancel_left]
  · rw [isHigh, Bool.and_eq_true, decide_eq_true_eq, decide_eq_true_eq]
    omega
  · rw [isLow, Bool.and_eq_true, decide_eq_true_eq, decide_eq_true_eq]
    omega
  · unfold combine
    rw [Nat.add_sub_cancel_left, Nat.add_sub_cancel_left, hn]
    omega

theorem isHigh_of_isLow {n : ℕ} (h : isLow n = true) : isHigh n = false := by
  simp only [isHigh, isLow, Bool.and_eq_true, Bool.and_eq_false_iff, decide_eq_true_eq, decide_eq_false_iff_not] at h ⊢
  omega

/-- A unit has sixteen bits. -/
theorem lt_of_mem_utf16 {c : Char} {n : ℕ} (h : n ∈ utf16 c) : n < 0x10000 := by
  have hvalid := toNat_valid c
  unfold utf16 at h
  split at h
  · rw [List.mem_singleton] at h
    omega
  · rw [List.mem_cons, List.mem_singleton] at h
    omega

/-! ## Scanning -/

inductive Token
  | sign (c : Char)
  | string (s : List Char)
  | word (w : List Char)
deriving DecidableEq, Repr

/-- Where the scanner is: in a string behind the characters `s`, or in one of its escapes. -/
inductive Mode
  | between
  | word (w : List Char)
  | string (s : List Char)
  | escape (s : List Char)
  /-- In the digits of an escape, behind some of them; it may be the second of two. -/
  | digits (s : List Char) (high : Option ℕ) (count value : ℕ)
  /-- Behind the first of two. -/
  | pending (s : List Char) (n : ℕ)
  | pendingEscape (s : List Char) (n : ℕ)
deriving DecidableEq, Repr

def isSpace (c : Char) : Bool := c ∈ [' ', '\t', '\n', '\r']

def isSign (c : Char) : Bool := c ∈ ['[', ']', '{', '}', ':', ',']

/-- The characters of numbers and of literals. -/
def isWordChar (c : Char) : Bool := c.isAlphanum || c == '+' || c == '-' || c == '.'

/-- A hexadecimal digit. -/
def hexValue (c : Char) : Option ℕ :=
  if '0' ≤ c ∧ c ≤ '9' then some (c.toNat - '0'.toNat)
  else if 'a' ≤ c ∧ c ≤ 'f' then some (c.toNat - 'a'.toNat + 10)
  else if 'A' ≤ c ∧ c ≤ 'F' then some (c.toNat - 'A'.toNat + 10)
  else none

/-- The escapes of one character. -/
def simpleEscape : Char → Option Char
  | '"' => some '"'
  | '\\' => some '\\'
  | '/' => some '/'
  | 'b' => some (.ofNat 8)
  | 'f' => some (.ofNat 12)
  | 'n' => some '\n'
  | 'r' => some '\r'
  | 't' => some '\t'
  | _ => none

/-- A character between tokens. -/
def start (c : Char) : Option (List Token × Mode) :=
  if isSpace c then some ([], .between)
  else if isSign c then some ([.sign c], .between)
  else if c = '"' then some ([], .string [])
  else if isWordChar c then some ([], .word [c])
  else none

/-- What an escape of a code unit is. -/
def finish (s : List Char) (high : Option ℕ) (n : ℕ) : Option Mode :=
  match high with
  | none =>
      if isLow n then none
      else if isHigh n then some (.pending s n)
      else some (.string (s ++ [.ofNat n]))
  | some high => if isLow n then some (.string (s ++ [.ofNat (combine high n)])) else none

/-- One character: the tokens that it ends, and what comes next. -/
def Mode.step : Mode → Char → Option (List Token × Mode)
  | between, c => start c
  | word w, c =>
      if isWordChar c then some ([], word (w ++ [c]))
      else (start c).map fun next => (.word w :: next.1, next.2)
  | string s, c =>
      if c = '"' then some ([.string s], between)
      else if c = '\\' then some ([], escape s)
      else if c.toNat < 32 then none
      else some ([], string (s ++ [c]))
  | escape s, c =>
      if c = 'u' then some ([], digits s none 0 0)
      else (simpleEscape c).map fun d => ([], string (s ++ [d]))
  | digits s high count value, c =>
      (hexValue c).bind fun d =>
        if count < 3 then some ([], digits s high (count + 1) (16 * value + d))
        else (finish s high (16 * value + d)).map fun next => ([], next)
  | pending s n, c => if c = '\\' then some ([], pendingEscape s n) else none
  | pendingEscape s n, c => if c = 'u' then some ([], digits s (some n) 0 0) else none

/-- The tokens of the rest of a text. -/
def scan : Mode → List Char → Option (List Token)
  | .between, [] => some []
  | .word w, [] => some [.word w]
  | _, [] => none
  | m, c :: rest => (m.step c).bind fun next => (scan next.2 rest).map fun ts => next.1 ++ ts

/-- The tokens of a text. -/
def tokens (text : List Char) : Option (List Token) := scan .between text

/-! ## Rules -/

theorem scan_cons (m : Mode) (c : Char) (rest : List Char) :
    scan m (c :: rest) = (m.step c).bind fun next => (scan next.2 rest).map fun ts => next.1 ++ ts := by
  cases m <;> rfl

/-- A character that ends no token. -/
theorem scan_cons_of_step {m m' : Mode} {c : Char} (h : m.step c = some ([], m')) (rest : List Char) :
    scan m (c :: rest) = scan m' rest := by
  rw [scan_cons, h]
  exact Option.map_id'

/-- Four digits, and the number they are. -/
inductive Hex4 : List Char → ℕ → Prop
  | mk {a b c d : Char} {x y z w : ℕ} (ha : hexValue a = some x) (hb : hexValue b = some y) (hc : hexValue c = some z)
      (hd : hexValue d = some w) : Hex4 [a, b, c, d] (16 * (16 * (16 * x + y) + z) + w)

theorem scan_hex4 {ds : List Char} {n : ℕ} (h : Hex4 ds n) {s : List Char} {high : Option ℕ} {m : Mode}
    (hm : finish s high n = some m) (rest : List Char) : scan (.digits s high 0 0) (ds ++ rest) = scan m rest := by
  obtain ⟨ha, hb, hc, hd⟩ := h
  rename_i a b c d x y z w
  have hfirst : (Mode.digits s high 0 0).step a = some ([], .digits s high 1 x) := by
    simp [Mode.step, ha]
  have hsecond : (Mode.digits s high 1 x).step b = some ([], .digits s high 2 (16 * x + y)) := by
    simp [Mode.step, hb]
  have hthird : (Mode.digits s high 2 (16 * x + y)).step c = some ([], .digits s high 3 (16 * (16 * x + y) + z)) := by
    simp [Mode.step, hc]
  have hlast : (Mode.digits s high 3 (16 * (16 * x + y) + z)).step d = some ([], m) := by
    simp [Mode.step, hd, hm]
  show scan _ (a :: b :: c :: d :: rest) = _
  rw [scan_cons_of_step hfirst, scan_cons_of_step hsecond, scan_cons_of_step hthird, scan_cons_of_step hlast]

/-- A text stands for a character, in every string. -/
def Escapes (text : List Char) (c : Char) : Prop :=
  ∀ s rest, scan (.string s) (text ++ rest) = scan (.string (s ++ [c])) rest

/-- The escape of a code unit. -/
def unitEscape (ds : List Char) : List Char := '\\' :: 'u' :: ds

/-- The escapes of its code units stand for a character. -/
theorem escapes_utf16 {f : ℕ → List Char} (c : Char) (hf : ∀ n ∈ utf16 c, Hex4 (f n) n) :
    Escapes ((utf16 c).flatMap fun n => unitEscape (f n)) c := by
  intro s rest
  have hbegin : ∀ s, (Mode.string s).step '\\' = some ([], .escape s) := fun _ => rfl
  have hfirst : ∀ s, (Mode.escape s).step 'u' = some ([], .digits s none 0 0) := fun _ => rfl
  rcases Nat.lt_or_ge c.toNat 0x10000 with hlt | hge
  · obtain ⟨hunits, hhigh, hlow⟩ := utf16_of_lt hlt
    rw [hunits] at hf ⊢
    have hfinish : finish s none c.toNat = some (.string (s ++ [c])) := by
      unfold finish
      rw [hlow, hhigh, Char.ofNat_toNat]
      rfl
    show scan _ ('\\' :: 'u' :: (f c.toNat ++ [] ++ rest)) = _
    rw [List.append_nil, scan_cons_of_step (hbegin s), scan_cons_of_step (hfirst s),
      scan_hex4 (hf _ (List.mem_singleton_self _)) hfinish]
  · -- the first escape is held back until the second has been read
    obtain ⟨high, low, hunits, hhigh, hlow, hcombine⟩ := utf16_of_le hge
    rw [hunits] at hf ⊢
    have hnot : isLow high = false := by
      cases hcase : isLow high with
      | false => rfl
      | true => exact absurd (hhigh.symm.trans (isHigh_of_isLow hcase)) (by decide)
    have hheld : finish s none high = some (.pending s high) := by
      unfold finish
      rw [hnot, hhigh]
      rfl
    have hfinish : finish s (some high) low = some (.string (s ++ [c])) := by
      show (if isLow low then some (Mode.string (s ++ [Char.ofNat (combine high low)])) else none) = _
      rw [if_pos hlow, hcombine, Char.ofNat_toNat]
    have hagain : (Mode.pending s high).step '\\' = some ([], .pendingEscape s high) := rfl
    have hsecond : (Mode.pendingEscape s high).step 'u' = some ([], .digits s (some high) 0 0) := rfl
    show scan _ ('\\' :: 'u' :: (f high ++ ('\\' :: 'u' :: (f low ++ [])) ++ rest)) = _
    rw [List.append_nil, List.append_assoc, scan_cons_of_step (hbegin s), scan_cons_of_step (hfirst s),
      scan_hex4 (hf high List.mem_cons_self) hheld]
    show scan _ ('\\' :: 'u' :: (f low ++ rest)) = _
    rw [scan_cons_of_step hagain, scan_cons_of_step hsecond,
      scan_hex4 (hf low (List.mem_cons_of_mem _ (List.mem_singleton_self _))) hfinish]

/-! ### ASCII -/

/-- A character that is none of some in ASCII. -/
theorem not_mem_of_le {c : Char} (h : 128 ≤ c.toNat) {cs : List Char} (hcs : ∀ d ∈ cs, d.toNat < 128) : c ∉ cs :=
  fun hc => Nat.not_lt.mpr h (hcs c hc)

theorem isWordChar_of_le {c : Char} (h : 128 ≤ c.toNat) : isWordChar c = false := by
  have hplus : c ≠ '+' := by rintro rfl; exact absurd h (by decide)
  have hminus : c ≠ '-' := by rintro rfl; exact absurd h (by decide)
  have hpoint : c ≠ '.' := by rintro rfl; exact absurd h (by decide)
  have halnum : c.isAlphanum = false := by
    unfold Char.isAlphanum Char.isAlpha Char.isUpper Char.isLower Char.isDigit
    simp [UInt32.le_iff_toNat_le]
    exact ⟨⟨fun _ => by omega, fun _ => by omega⟩, fun _ => by omega⟩
  simp [isWordChar, halnum, hplus, hminus, hpoint]

theorem hexValue_of_le {c : Char} (h : 128 ≤ c.toNat) : hexValue c = none := by
  have hle : ∀ d : Char, d.toNat < 128 → ¬ c ≤ d := fun d hd hcd =>
    Nat.not_lt.mpr (Nat.le_trans h (UInt32.le_iff_toNat_le.mp hcd)) hd
  unfold hexValue
  rw [if_neg fun hdigit => hle '9' (by decide) hdigit.2, if_neg fun hdigit => hle 'f' (by decide) hdigit.2,
    if_neg fun hdigit => hle 'F' (by decide) hdigit.2]

theorem Hex4.ascii {ds : List Char} {n : ℕ} (h : Hex4 ds n) : ∀ d ∈ ds, d.toNat < 128 := by
  have hdigit : ∀ d v, hexValue d = some v → d.toNat < 128 := by
    intro d v hd
    by_contra hge
    rw [hexValue_of_le (Nat.le_of_not_lt hge)] at hd
    cases hd
  obtain ⟨ha, hb, hc, hd⟩ := h
  simp only [List.forall_mem_cons]
  exact ⟨hdigit _ _ ha, hdigit _ _ hb, hdigit _ _ hc, hdigit _ _ hd, List.forall_mem_nil _⟩

theorem simpleEscape_of_le {c : Char} (h : 128 ≤ c.toNat) : simpleEscape c = none := by
  unfold simpleEscape
  split
  all_goals first | rfl | exact absurd h (by decide)

/-- Outside of strings there is nothing but ASCII. -/
theorem start_of_le {c : Char} (h : 128 ≤ c.toNat) : start c = none := by
  have hspace : isSpace c = false := decide_eq_false (not_mem_of_le h (by simp))
  have hsign : isSign c = false := decide_eq_false (not_mem_of_le h (by simp))
  have hquote : c ≠ '"' := by rintro rfl; exact absurd h (by decide)
  unfold start
  rw [hspace, hsign, isWordChar_of_le h, if_neg hquote]
  rfl

/-- A character outside of ASCII is one of a string, and nothing else. -/
theorem step_of_le {m m' : Mode} {c : Char} {ts : List Token} (h : 128 ≤ c.toNat) (hstep : m.step c = some (ts, m')) :
    ∃ s, m = .string s ∧ ts = [] ∧ m' = .string (s ++ [c]) := by
  have hne : ∀ d : Char, d.toNat < 128 → c ≠ d := fun d hd heq => Nat.not_lt.mpr h (heq ▸ hd)
  cases m with
  | between => rw [Mode.step, start_of_le h] at hstep; cases hstep
  | word w => rw [Mode.step, isWordChar_of_le h, start_of_le h] at hstep; cases hstep
  | escape s => rw [Mode.step, if_neg (hne 'u' (by decide)), simpleEscape_of_le h] at hstep; cases hstep
  | digits s high count value => rw [Mode.step, hexValue_of_le h] at hstep; cases hstep
  | pending s n => rw [Mode.step, if_neg (hne '\\' (by decide))] at hstep; cases hstep
  | pendingEscape s n => rw [Mode.step, if_neg (hne 'u' (by decide))] at hstep; cases hstep
  | string s =>
      rw [Mode.step, if_neg (hne '"' (by decide)), if_neg (hne '\\' (by decide)), if_neg (by omega)] at hstep
      cases hstep
      exact ⟨s, rfl, rfl, rfl⟩

/-- A rewriting that leaves ASCII as it is, and writes texts that stand for the other characters, leaves the tokens. The
induction is over the text; the mode says whether a character is one of a string. -/
theorem scan_flatMap {f : Char → List Char} (hascii : ∀ c, c.toNat < 128 → f c = [c])
    (hescapes : ∀ c, 128 ≤ c.toNat → Escapes (f c) c) {m : Mode} {text : List Char} {ts : List Token}
    (h : scan m text = some ts) : scan m (text.flatMap f) = some ts := by
  induction text generalizing m ts with
  | nil => exact h
  | cons c rest ih =>
      rw [scan_cons] at h
      obtain ⟨⟨ended, m'⟩, hstep, h⟩ := Option.bind_eq_some_iff.mp h
      obtain ⟨us, hus, heq⟩ := Option.map_eq_some_iff.mp h
      have hrest := ih hus
      rw [List.flatMap_cons]
      rcases Nat.lt_or_ge c.toNat 128 with hlt | hge
      · rw [hascii c hlt, List.singleton_append, scan_cons, hstep, Option.bind_some, hrest, Option.map_some]
        exact congrArg some heq
      · obtain ⟨s, rfl, rfl, rfl⟩ := step_of_le hge hstep
        rw [hescapes c hge, hrest]
        exact congrArg some heq

/-- So it is for a whole text. -/
theorem tokens_flatMap {f : Char → List Char} (hascii : ∀ c, c.toNat < 128 → f c = [c])
    (hescapes : ∀ c, 128 ≤ c.toNat → Escapes (f c) c) {text : List Char} {ts : List Token} (h : tokens text = some ts) :
    tokens (text.flatMap f) = some ts :=
  scan_flatMap hascii hescapes h

end JsonTokens
