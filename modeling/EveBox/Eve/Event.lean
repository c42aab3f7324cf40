import EveBox.Rust.Json

/-!
# Events

Reference: `src/datetime.rs` and `src/eve/eve.rs`.

A step of the code that panics is `none`.
-/

namespace EveBox.Eve

open Rust

/-! ## Times -/

/-- `chrono::DateTime<FixedOffset>`: nanoseconds since the epoch, and the seconds that the zone is east of
UTC. -/
structure DateTime where
  nanos : ℤ
  offset : ℤ
deriving DecidableEq, Repr

/-- What the code uses of the crates `chrono` and `regex`. -/
structure TimeLib where
  /-- `str::parse::<chrono::DateTime<FixedOffset>>`. -/
  parse : List Char → Option DateTime
  /-- `\d` of a regular expression. -/
  isDigit : Char → Bool
  /-- `chrono::DateTime::format`. -/
  format : String → DateTime → String
  /-- `to_utc().to_rfc3339_opts(SecondsFormat::Micros, true)`. -/
  rfc3339Micros : DateTime → String
  /-- `to_utc().to_rfc3339_opts(SecondsFormat::Millis, true)`. -/
  rfc3339Millis : DateTime → String

namespace DateTime

/-- `DateTime::to_nanos`. -/
def toNanos (dt : DateTime) : Option ℤ :=
  if -2 ^ 63 ≤ dt.nanos ∧ dt.nanos < 2 ^ 63 then some dt.nanos else none

/-- `DateTime::from_nanos`. -/
def fromNanos (nanos : ℤ) : DateTime := ⟨nanos, 0⟩

/-- `DateTime::to_rfc3339_utc`. -/
def toRfc3339Utc (lib : TimeLib) (dt : DateTime) : String := lib.rfc3339Micros dt

/-- `DateTime::to_eve`. -/
def toEve (lib : TimeLib) (dt : DateTime) : String := lib.format "%Y-%m-%dT%H:%M:%S.%6f%z" dt

/-- `DateTime::to_elastic`. -/
def toElastic (lib : TimeLib) (dt : DateTime) : String := lib.rfc3339Millis dt

/-- `DateTime::yyyymmdd`. -/
def yyyymmdd (lib : TimeLib) (dt : DateTime) (sep : String) : String :=
  lib.format ("%Y" ++ sep ++ "%m" ++ sep ++ "%d") dt

end DateTime

/-- A character of the pattern that may be there. -/
def optionalChar (c : Char) : List Char → List Char
  | d :: input => if d = c then input else d :: input
  | [] => []

/-- `(\d{n})?`, for the digits of `isDigit`. -/
def optionalDigits (isDigit : Char → Bool) (n : ℕ) (input : List Char) : Option (List Char) × List Char :=
  let digits := input.take n
  if digits.length = n && digits.all isDigit then (some digits, input.drop n) else (none, input)

/-- `(([+\-]\d{4})|Z)?`. -/
def optionalOffset (isDigit : Char → Bool) : List Char → Option (List Char)
  | c :: input =>
      if c = '+' ∨ c = '-' then ((optionalDigits isDigit 4 input).1).map (c :: ·)
      else if c = 'Z' then some ['Z']
      else none
  | [] => none

/-- `(\.(\d+))?`. -/
def optionalSubs (isDigit : Char → Bool) (input : List Char) : Option (List Char) × List Char :=
  match input with
  | '.' :: rest =>
      let digits := rest.takeWhile isDigit
      if digits = [] then (none, input) else (some digits, rest.dropWhile isDigit)
  | _ => (none, input)

/-- The text with which `parse` tries again. Each piece of the regular expression is optional, so that what it
takes where it can is what it takes. -/
def fixTimestamp (isDigit : Char → Bool) (input : List Char) (defaultTz : String) : Option (List Char) :=
  match optionalDigits isDigit 4 input with
  | (none, _) => none
  | (some year, input) =>
      let (month, input) := optionalDigits isDigit 2 (optionalChar '-' input)
      let (day, input) := optionalDigits isDigit 2 (optionalChar '-' input)
      let (hour, input) := optionalDigits isDigit 2 (optionalChar 'T' input)
      let (minute, input) := optionalDigits isDigit 2 (optionalChar ':' input)
      let (second, input) := optionalDigits isDigit 2 (optionalChar ':' input)
      let (subs, input) := optionalSubs isDigit input
      let offset := optionalOffset isDigit input
      some (year ++ '-' :: month.getD ['0', '1'] ++ '-' :: day.getD ['0', '1'] ++
        'T' :: hour.getD ['0', '0'] ++ ':' :: minute.getD ['0', '0'] ++ ':' :: second.getD ['0', '0'] ++
        '.' :: subs.getD ['0'] ++ offset.getD defaultTz.toList)

/-- `datetime::parse`. -/
def parseDateTime (lib : TimeLib) (input : String) (tzOffset : Option String) : Option DateTime :=
  match lib.parse input.toList with
  | some dt => some dt
  | none => (fixTimestamp lib.isDigit input.toList (tzOffset.getD "Z")).bind lib.parse

/-! ## Events -/

/-- `Eve::datetime`. -/
def datetime (lib : TimeLib) (event : Json) : Option DateTime :=
  (event.get "timestamp").asStr.bind fun timestamp => parseDateTime lib timestamp none

/-- `has_tag`. -/
def hasTag (event : Json) (tag : String) : Bool :=
  match event.get "tags" with
  | .array tags => tags.any fun t => t.asStr = some tag
  | _ => false

/-- `ensure_has_tags`. -/
def ensureHasTags (event : Json) : Option Json :=
  if (event.get "tags").asArray.isNone then event.set "tags" (.array []) else some event

/-- `ensure_has_evebox`. -/
def ensureHasEvebox (event : Json) : Option Json :=
  if !(event.get "evebox").isObject then event.set "evebox" (.object []) else some event

/-- `ensure_has_history`. -/
def ensureHasHistory (event : Json) : Option Json := do
  let event ← ensureHasEvebox event
  if ((event.get "evebox").get "history").asArray.isNone then
    event.setPath ["evebox", "history"] (.array [])
  else some event

end EveBox.Eve
