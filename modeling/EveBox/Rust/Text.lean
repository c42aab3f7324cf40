import EveBox.Rust.Prelude

/-!
# Texts of Rust's standard library

A `str` is a list of characters, as far as the models look into it.
-/

namespace EveBox.Rust

/-- `\n`. -/
def newline : UInt8 := 10

/-- A continuation byte. -/
def isContinuation (b : UInt8) : Bool := 0x80 ≤ b && b ≤ 0xBF

/-- The low bits of a continuation byte. -/
def continuationBits (b : UInt8) : ℕ := b.toNat % 64

/-- The first character of a text in UTF-8, and how many bytes it takes. Overlong forms, surrogates and what
is above U+10FFFF are no characters. -/
def utf8First : Bytes → Option (Char × ℕ)
  | [] => none
  | a :: rest =>
      if a < 0x80 then some (.ofNat a.toNat, 1)
      else
        match rest with
        | [] => none
        | b :: rest =>
            if 0xC2 ≤ a && a ≤ 0xDF then
              if isContinuation b then
                some (.ofNat (a.toNat % 32 * 64 + continuationBits b), 2)
              else none
            else
              match rest with
              | [] => none
              | c :: rest =>
                  if a == 0xE0 && 0xA0 ≤ b && b ≤ 0xBF || 0xE1 ≤ a && a ≤ 0xEC && isContinuation b ||
                      a == 0xED && 0x80 ≤ b && b ≤ 0x9F || 0xEE ≤ a && a ≤ 0xEF && isContinuation b then
                    if isContinuation c then
                      some (.ofNat ((a.toNat % 16 * 64 + continuationBits b) * 64 +
                        continuationBits c), 3)
                    else none
                  else
                    match rest with
                    | [] => none
                    | d :: _ =>
                        if (a == 0xF0 && 0x90 ≤ b && b ≤ 0xBF || 0xF1 ≤ a && a ≤ 0xF3 && isContinuation b ||
                            a == 0xF4 && 0x80 ≤ b && b ≤ 0x8F) && isContinuation c && isContinuation d then
                          some (.ofNat (((a.toNat % 8 * 64 + continuationBits b) * 64 +
                            continuationBits c) * 64 + continuationBits d), 4)
                        else none

/-- `utf8Decode`, for texts of at most `fuel` bytes. -/
def utf8DecodeFuel : ℕ → Bytes → Option (List Char)
  | _, [] => some []
  | 0, _ => none
  | fuel + 1, bytes => do
      let (c, n) ← utf8First bytes
      let rest ← utf8DecodeFuel fuel (bytes.drop n)
      return c :: rest

/-- `std::str::from_utf8`. -/
def utf8Decode (bytes : Bytes) : Option (List Char) := utf8DecodeFuel bytes.length bytes

/-- `char::is_whitespace`: the property `White_Space`. -/
def isWhitespace (c : Char) : Bool :=
  let n := c.toNat
  9 ≤ n && n ≤ 13 || n == 0x20 || n == 0x85 || n == 0xA0 || n == 0x1680 || 0x2000 ≤ n && n ≤ 0x200A ||
    n == 0x2028 || n == 0x2029 || n == 0x202F || n == 0x205F || n == 0x3000

/-- `str::trim`. -/
def trim (text : List Char) : List Char :=
  ((text.dropWhile isWhitespace).reverse.dropWhile isWhitespace).reverse

/-- `str::rsplit_once`, at a character. -/
def rsplitOnce (sep : Char) (text : List Char) : Option (List Char × List Char) :=
  let suffix := (text.reverse.takeWhile (· ≠ sep)).reverse
  if suffix.length = text.length then none
  else some (text.take (text.length - suffix.length - 1), suffix)

/-- `str::parse::<i64>`. -/
def parseI64 (text : List Char) : Option ℤ :=
  let (sign, digits) := match text with
    | '-' :: digits => (-1, digits)
    | '+' :: digits => (1, digits)
    | digits => ((1 : ℤ), digits)
  if digits = [] ∨ ¬ digits.all Char.isDigit then none
  else
    let value := sign * digits.foldl (fun n c => 10 * n + (c.toNat - '0'.toNat : ℕ)) 0
    if -2 ^ 63 ≤ value ∧ value < 2 ^ 63 then some value else none

/-- `str::eq_ignore_ascii_case`. -/
def eqIgnoreAsciiCase (a b : List Char) : Bool := a.map Char.toLower = b.map Char.toLower

end EveBox.Rust
