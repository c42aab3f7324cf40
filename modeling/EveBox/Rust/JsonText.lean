import EveBox.Lib.JsonTokens
import EveBox.Rust.Json

/-!
# Reading JSON values

`serde_json::from_str`, into a `Value`. How the text of a number is read is a parameter, and no matter here.
-/

namespace EveBox.Rust

open JsonTokens

namespace Json

/-- An array or an object that has begun: what is in it so far, and the key that waits for its value. -/
inductive Frame
  | array (elems : List Json)
  | object (fields : List (String × Json))
  | field (fields : List (String × Json)) (key : String)

/-- What may come next. -/
inductive Expects
  | value
  /-- A value, or the end of an array. -/
  | element
  /-- A key, or the end of an object. -/
  | member
  | key
  | colon
  /-- A comma, or the end of what has begun last. -/
  | comma
  | nothing (value : Json)

/-- What has begun, the last first, and what may come next. -/
structure Reader where
  frames : List Frame
  expects : Expects

namespace Reader

def new : Reader := ⟨[], .value⟩

/-- `remaining_depth`. -/
def maxDepth : ℕ := 127

/-- A value has been read. -/
def push (frames : List Frame) (value : Json) : Option Reader :=
  match frames with
  | [] => some ⟨[], .nothing value⟩
  | .array elems :: frames => some ⟨.array (elems ++ [value]) :: frames, .comma⟩
  | .field fields key :: frames => some ⟨.object (insertField key value fields) :: frames, .comma⟩
  | .object _ :: _ => none

/-- Something begins, unless too much has begun. -/
def begin (frames : List Frame) (frame : Frame) (expects : Expects) : Option Reader :=
  if frames.length < maxDepth then some ⟨frame :: frames, expects⟩ else none

/-- What has begun last ends. -/
def finish (frames : List Frame) (c : Char) : Option Reader :=
  match frames, c with
  | .array elems :: frames, ']' => push frames (.array elems)
  | .object fields :: frames, '}' => push frames (.object fields)
  | _, _ => none

/-- A literal or a number. -/
def literal (readNumber : List Char → Option Number) (w : List Char) : Option Json :=
  if w = "null".toList then some .null
  else if w = "true".toList then some (.bool true)
  else if w = "false".toList then some (.bool false)
  else (readNumber w).map .number

section

variable (readNumber : List Char → Option Number)

/-- The first token of a value. -/
def value (frames : List Frame) : Token → Option Reader
  | .string s => push frames (.string (String.ofList s))
  | .word w => (literal readNumber w).bind (push frames)
  | .sign '[' => begin frames (.array []) .element
  | .sign '{' => begin frames (.object []) .member
  | .sign _ => none

/-- The key of a field. -/
def key (frames : List Frame) : Token → Option Reader
  | .string s =>
      match frames with
      | .object fields :: frames => some ⟨.field fields (String.ofList s) :: frames, .colon⟩
      | _ => none
  | _ => none

/-- One token. -/
def step (r : Reader) (t : Token) : Option Reader :=
  match r.expects with
  | .value => value readNumber r.frames t
  | .element => if t = .sign ']' then finish r.frames ']' else value readNumber r.frames t
  | .member => if t = .sign '}' then finish r.frames '}' else key r.frames t
  | .key => key r.frames t
  | .colon => if t = .sign ':' then some ⟨r.frames, .value⟩ else none
  | .comma =>
      match t with
      | .sign ',' =>
          match r.frames with
          | .array _ :: _ => some ⟨r.frames, .value⟩
          | .object _ :: _ => some ⟨r.frames, .key⟩
          | _ => none
      | .sign c => finish r.frames c
      | _ => none
  | .nothing _ => none

/-- The value of all tokens. -/
def run (r : Reader) : List Token → Option Json
  | [] =>
      match r.expects with
      | .nothing value => some value
      | _ => none
  | t :: ts => (r.step readNumber t).bind fun r => run r ts

end

end Reader

/-- `serde_json::from_str`. -/
def fromStr (readNumber : List Char → Option Number) (text : List Char) : Option Json :=
  (tokens text).bind (Reader.new.run readNumber)

end Json

example : Json.fromStr (fun _ => none) "[true, \"\\ud83e\\udd80\"]".toList =
    some (.array [.bool true, .string "🦀"]) := by decide +kernel

end EveBox.Rust
