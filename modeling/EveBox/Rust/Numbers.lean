import EveBox.Rust.Text

/-!
# Numbers in texts

How unsigned numbers are read, and the digits of the crate `regex`.
-/

namespace EveBox.Rust

/-- `str::parse` of an unsigned integer type, by its greatest value. -/
def parseUnsigned (max : ℕ) (text : List Char) : Option ℕ :=
  let digits := match text with
    | '+' :: digits => digits
    | digits => digits
  if digits = [] ∨ ¬ digits.all Char.isDigit then none
  else
    let value := Nat.ofDigitChars 10 digits 0
    if value ≤ max then some value else none

/-- `\d` of a regular expression: the decimal digits of all scripts. -/
structure DigitClass where
  isDigit : Char → Bool
  ascii : ∀ c : Char, c.isDigit = true → isDigit c = true
  /-- Of ASCII there are no others. -/
  others : ∀ c : Char, c.toNat < 128 → c.isDigit = false → isDigit c = false

/-- The digits of ASCII. -/
def DigitClass.plain : DigitClass := ⟨Char.isDigit, fun _ h => h, fun _ _ h => h⟩

theorem DigitClass.point (d : DigitClass) : d.isDigit '.' = false := d.others '.' (by decide) (by decide)

theorem isDigit_of_mem_toDigits {n : ℕ} {c : Char} (h : c ∈ Nat.toDigits 10 n) : c.isDigit = true :=
  Nat.isDigit_of_mem_toDigits (by decide) (le_refl 10) h

/-- A text of digits is a number. -/
theorem parseUnsigned_of_digits {max : ℕ} {text : List Char} (hne : text ≠ []) (hall : ∀ c ∈ text, c.isDigit = true) :
    parseUnsigned max text = if Nat.ofDigitChars 10 text 0 ≤ max then some (Nat.ofDigitChars 10 text 0) else none := by
  have hsign : ∀ digits : List Char, (∀ c ∈ digits, c.isDigit = true) →
      (match digits with | '+' :: digits => digits | digits => digits) = digits := by
    intro digits hdigits
    split
    · exact absurd (hdigits '+' List.mem_cons_self) (by decide)
    · rfl
  unfold parseUnsigned
  dsimp only
  rw [hsign text hall, if_neg (not_or.mpr ⟨hne, not_not.mpr (List.all_eq_true.mpr hall)⟩)]

/-- A number is read as it is written. -/
theorem parseUnsigned_toDigits {max n : ℕ} (h : n ≤ max) : parseUnsigned max (Nat.toDigits 10 n) = some n := by
  rw [parseUnsigned_of_digits Nat.toDigits_ne_nil fun c hc => isDigit_of_mem_toDigits hc,
    Nat.ofDigitChars_ten_toDigits, if_pos h]

theorem ofDigitChars_lt {digits : List Char} (h : digits.all Char.isDigit = true) :
    Nat.ofDigitChars 10 digits 0 < 10 ^ digits.length := by
  induction digits with
  | nil => decide
  | cons c digits ih =>
      obtain ⟨hc, hrest⟩ := Bool.and_eq_true_iff.mp h
      have hlt := ih hrest
      have hnine : c.toNat - '0'.toNat ≤ 9 := by
        have hle : c.toNat ≤ 57 := (Char.isDigit_iff_toNat.mp hc).2
        change c.toNat - 48 ≤ 9
        omega
      have hmul := Nat.mul_le_mul_left (10 ^ digits.length) hnine
      rw [Nat.ofDigitChars_cons, Nat.ofDigitChars_eq_ofDigitChars_zero, List.length_cons, Nat.pow_succ, Nat.mul_zero,
        Nat.zero_add]
      omega

/-- A number has no more digits than its text has characters. -/
theorem lt_of_parseUnsigned {max n : ℕ} {text : List Char} (h : parseUnsigned max text = some n) :
    n < 10 ^ text.length := by
  unfold parseUnsigned at h
  dsimp only at h
  split_ifs at h with hdigits hle
  obtain rfl := Option.some.inj h
  obtain ⟨-, hall⟩ := not_or.mp hdigits
  refine lt_of_lt_of_le (ofDigitChars_lt (not_not.mp hall)) (Nat.pow_le_pow_right (by decide) ?_)
  split
  · exact Nat.le_succ _
  · exact le_rfl

end EveBox.Rust
