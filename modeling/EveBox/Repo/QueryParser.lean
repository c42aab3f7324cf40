import EveBox.Eve.Event
import EveBox.Rust.Text

/-!
# Query strings

Reference: `src/queryparser.rs`.
-/

namespace EveBox.Repo

open Rust Eve

/-- `QueryValue`. -/
inductive QueryValue
  | string (s : String)
  | keyValue (key value : String)
  | fromTime (ts : DateTime)
  | toTime (ts : DateTime)
  | after (ts : DateTime)
  | before (ts : DateTime)
  | archived
  | escalated
deriving DecidableEq, Repr

/-- `QueryElement`. -/
structure QueryElement where
  negated : Bool
  value : QueryValue
deriving DecidableEq, Repr

/-- `QueryStringParseError`. -/
structure QueryStringParseError where
  message : String
deriving DecidableEq, Repr

/-! ## Tokens -/

/-- `nom::character::complete::multispace0`. -/
def multispace0 (input : List Char) : List Char := input.dropWhile fun c => c ∈ [' ', '\t', '\r', '\n']

/-- The loop of `parse_quoted_string`: the text, and what is behind it. -/
def quotedLoop : Bool → List Char → List Char × List Char
  | _, [] => ([], [])
  | true, c :: rest => ((quotedLoop false rest).1, c :: (quotedLoop false rest).2)
  | false, c :: rest =>
      if c = '\\' then quotedLoop true rest
      else if c = '\x22' then (rest, [])
      else ((quotedLoop false rest).1, c :: (quotedLoop false rest).2)

/-- `parse_quoted_string`. -/
def parseQuotedString (input : List Char) : List Char × List Char := quotedLoop false input.tail

/-- A token up to one of some characters: what is left of the input, and the token. -/
def parseUntil (stops : List Char) (input : List Char) : List Char × List Char :=
  match multispace0 input with
  | [] => ([], [])
  | c :: rest =>
      if c = '!' ∨ c = '-' then (rest, [c])
      else if c = '\x22' then parseQuotedString (c :: rest)
      else ((c :: rest).dropWhile (· ∉ stops), (c :: rest).takeWhile (· ∉ stops))

/-- `parse_token`. -/
def parseToken (input : List Char) : List Char × List Char := parseUntil [' ', ':'] input

/-- `parse_value`. -/
def parseValue (input : List Char) : List Char × List Char := parseUntil [' '] input

/-! ## Elements -/

section

variable (lib : TimeLib) (tzOffset : Option String)

/-- The element of a time. -/
def timeElement (token : String) (value : DateTime → QueryValue) : Except QueryStringParseError QueryElement :=
  match parseDateTime lib token tzOffset with
  | some ts => .ok ⟨false, value ts⟩
  | none => .error ⟨"bad time format: invalid format"⟩

/-- The element of a key and a value. -/
def keyValueElement (negated : Bool) (key token : List Char) : Except QueryStringParseError QueryElement :=
  let value := String.ofList token
  match String.ofList key with
  | "@from" => timeElement lib tzOffset value .fromTime
  | "@to" => timeElement lib tzOffset value .toTime
  | "@before" => timeElement lib tzOffset value .before
  | "@after" => timeElement lib tzOffset value .after
  | key =>
      if key = "is" ∧ eqIgnoreAsciiCase token "archived".toList then .ok ⟨negated, .archived⟩
      else if key = "is" ∧ eqIgnoreAsciiCase token "escalated".toList then .ok ⟨negated, .escalated⟩
      else .ok ⟨negated, .keyValue key value⟩

/-- The element of a token without a value, if there is something in it. -/
def stringElement (negated : Bool) (token : List Char) : List QueryElement :=
  let token := trim token
  if token = [] then [] else [⟨negated, .string (String.ofList token)⟩]

/-- The loop of `parse`. Every turn takes something from the input, so that its length is enough. -/
def parseLoop : ℕ → List Char → Bool → Except QueryStringParseError (List QueryElement)
  | 0, _, _ => .ok []
  | fuel + 1, ptr, negated =>
      if ptr = [] then .ok []
      else
        let (ptr, token) := parseToken ptr
        if token = ['-'] ∨ token = ['!'] then parseLoop fuel ptr true
        else if ptr.head? = some ':' then do
          let element ← keyValueElement lib tzOffset negated token (parseValue ptr.tail).2
          let elements ← parseLoop fuel (parseValue ptr.tail).1 false
          return element :: elements
        else do
          let elements ← parseLoop fuel ptr false
          return stringElement negated token ++ elements

/-- `parse`. -/
def parse (input : String) : Except QueryStringParseError (List QueryElement) :=
  parseLoop lib tzOffset input.toList.length input.toList false

end

end EveBox.Repo
