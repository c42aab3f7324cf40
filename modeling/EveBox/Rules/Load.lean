import Mathlib.Logic.Function.Basic
import EveBox.Lib.Lines
import EveBox.Rust.Numbers

/-!
# Loading rules

Reference: `src/rules.rs`.

A file is read by its physical lines. What the scanner makes of a rule is up to its crate.
-/

namespace EveBox.Rules

open Rust

/-! ## Lines -/

/-- The lines that `read_line` gives of a file, one after another. -/
def physicalLines (content : Bytes) : List Bytes :=
  Lines.lines newline content ++ if Lines.tail newline content = [] then [] else [Lines.tail newline content]

/-- `read_next_rule`, behind a part of its line; what is not read comes with the line. -/
def readNextRule (line : List Char) : List Bytes → Except Unit (Option (List Char × List Bytes))
  | [] => .ok none
  | bytes :: input =>
      match utf8Decode bytes with
      | none => .error ()
      | some tmp =>
          let tmp := trim tmp
          if tmp.getLast? = some '\\' then readNextRule (line ++ tmp.dropLast) input
          else .ok (some (line ++ tmp, input))

theorem length_of_readNextRule {line : List Char} {lines : List Bytes} {rule : List Char} {input : List Bytes}
    (h : readNextRule line lines = .ok (some (rule, input))) : input.length < lines.length := by
  induction lines generalizing line with
  | nil => cases h
  | cons bytes lines ih =>
      unfold readNextRule at h
      split at h
      · cases h
      · dsimp only at h
        split_ifs at h
        · exact Nat.lt_succ_of_lt (ih h)
        · cases h
          exact Nat.lt_succ_self _

/-- The lines of the loop in `load_path`. -/
def readRules (lines : List Bytes) : List (List Char) :=
  match h : readNextRule [] lines with
  | .ok (some (rule, input)) =>
      have := length_of_readNextRule h
      rule :: readRules input
  | .ok none => []
  | .error _ => []
termination_by lines.length

/-! ## Rules -/

/-- `RuleScanEvent`. -/
inductive RuleScanEvent
  | option (name : String) (value : Option (List Char))
  | other
deriving DecidableEq, Repr

/-- The events of `RuleScanner`; an error is `none`. -/
abbrev RuleScanner := List Char → List (Option RuleScanEvent)

/-- The loop over the events in `parse_line`. -/
def sidOf : List (Option RuleScanEvent) → Option ℕ
  | [] => none
  | some (.option name (some value)) :: events =>
      if name = "sid" then (parseUnsigned (2 ^ 64 - 1) (trim value)).or (sidOf events) else sidOf events
  | some _ :: events => sidOf events
  | none :: _ => none

/-- The text of a rule, also of one that is disabled. -/
def original : List Char → List Char
  | '#' :: line => line
  | line => line

/-- `parse_line`. -/
def parseLine (scan : RuleScanner) (line : List Char) : Option (ℕ × List Char) :=
  (sidOf (scan (original line))).map (·, original line)

/-! ## The map -/

/-- `Inner`. -/
structure Inner (Path : Type*) where
  map : ℕ → Option (List Char)
  files : Path → Option ℤ

/-- What the rules are read from. A time is that of the last modification, in nanoseconds. -/
structure FileSystem (Path : Type*) where
  glob : String → List Path
  modified : Path → Option ℤ
  content : Path → Option Bytes

/-- `self.map.insert`. -/
def insertRule (map : ℕ → Option (List Char)) (rule : ℕ × List Char) : ℕ → Option (List Char) :=
  Function.update map rule.1 (some rule.2)

/-- The rules that are inserted, of a file. -/
def insertions (scan : RuleScanner) (content : Bytes) : List (ℕ × List Char) :=
  (readRules (physicalLines content)).filterMap (parseLine scan)

namespace Inner

variable {Path : Type*} [DecidableEq Path]

def new : Inner Path := ⟨fun _ => none, fun _ => none⟩

/-- `load_path`. -/
def loadPath (scan : RuleScanner) (fs : FileSystem Path) (inner : Inner Path) (path : Path) : Inner Path :=
  match fs.content path with
  | none => inner
  | some content => { inner with map := (insertions scan content).foldl insertRule inner.map }

/-- A file that `rescan` comes to. -/
def visit (scan : RuleScanner) (fs : FileSystem Path) (inner : Inner Path) (path : Path) : Inner Path :=
  match fs.modified path with
  | none => inner
  | some modified =>
      let mtime := modified / 1000000000
      let prev := inner.files path
      let inner := { inner with files := Function.update inner.files path (some mtime) }
      if prev.all (· < mtime) then inner.loadPath scan fs path else inner

/-- `RuleMap::rescan`. -/
def rescan (scan : RuleScanner) (fs : FileSystem Path) (paths : List String) (inner : Inner Path) : Inner Path :=
  (paths.flatMap fs.glob).foldl (visit scan fs) inner

/-- `load_rules`. -/
def loadRules (scan : RuleScanner) (fs : FileSystem Path) (filenames : List String) : Inner Path :=
  new.rescan scan fs filenames

/-- `RuleMap::find_by_sid`. -/
def findBySid (inner : Inner Path) (sid : ℕ) : Option (List Char) := inner.map sid

end Inner

/-! ## What is asked of it -/

/-- Of a physical line, what belongs to its logical line, if it can be decoded, and whether that goes on. -/
structure PhysicalLine where
  text : Option (List Char)
  continued : Bool
deriving DecidableEq, Repr

/-- The spaces of ASCII. -/
def isSpace (b : UInt8) : Bool := b = 32 || 9 ≤ b && b ≤ 13

/-- A line goes on if there is a backslash at its end. -/
def physicalLine (bytes : Bytes) : PhysicalLine :=
  match utf8Decode bytes with
  | some tmp =>
      if (trim tmp).getLast? = some '\\' then ⟨some (trim tmp).dropLast, true⟩ else ⟨some (trim tmp), false⟩
  | none => ⟨none, (bytes.reverse.dropWhile isSpace).head? = some 92⟩

/-- A logical line; it is not ended if the file ends where it should go on. -/
structure LogicalLine where
  text : Option (List Char)
  ended : Bool
deriving DecidableEq, Repr

def LogicalLine.complete (l : LogicalLine) : Bool := l.text.isSome && l.ended

/-- A piece before a logical line. -/
def LogicalLine.prepend (piece : Option (List Char)) (l : LogicalLine) : LogicalLine :=
  ⟨piece.bind fun a => l.text.map (a ++ ·), l.ended⟩

/-- The physical lines are joined over the backslashes at their ends. -/
def logicalLines : List PhysicalLine → List LogicalLine
  | [] => []
  | l :: lines =>
      if l.continued then
        match logicalLines lines with
        | [] => [⟨l.text, false⟩]
        | next :: rest => next.prepend l.text :: rest
      else ⟨l.text, true⟩ :: logicalLines lines

/-- The logical lines of a file. -/
def linesOf (content : Bytes) : List LogicalLine := logicalLines ((physicalLines content).map physicalLine)

/-- What `parse_line` makes of a logical line. -/
def LogicalLine.rule (scan : RuleScanner) (l : LogicalLine) : Option (ℕ × List Char) := l.text.bind (parseLine scan)

/-- The last of some rules with a sid. -/
def lastRule (rules : List (ℕ × List Char)) (sid : ℕ) : Option (List Char) :=
  ((rules.filter fun rule => rule.1 = sid).getLast?).map (·.2)

section

variable {Path : Type*} [DecidableEq Path] (scan : RuleScanner) (fs : FileSystem Path)

/-- The paths of the rule files, each where it is found first. -/
def rulePaths (filenames : List String) : List Path :=
  ((filenames.flatMap fs.glob).filter fun path => (fs.modified path).isSome).reverse.dedup.reverse

/-- The contents of the rule files that can be opened. -/
def ruleFiles (filenames : List String) : List Bytes := (rulePaths fs filenames).filterMap fs.content

/-- The accepted logical lines of a file. -/
def accepted (content : Bytes) : List (ℕ × List Char) := (linesOf content).filterMap (·.rule scan)

/-- What is loaded of each file are the logical lines that are accepted, and the map has the last of them. -/
structure AllLoaded (filenames : List String) : Prop where
  accounted : ∀ content ∈ ruleFiles fs filenames, insertions scan content = accepted scan content
  last : ∀ sid, (Inner.loadRules scan fs filenames).findBySid sid =
    lastRule ((ruleFiles fs filenames).flatMap (accepted scan)) sid

/-- From the first logical line on that cannot be decoded, or does not end, none is accepted. -/
def AllRead (filenames : List String) : Prop :=
  ∀ content ∈ ruleFiles fs filenames, ∀ l ∈ (linesOf content).dropWhile (·.complete), l.rule scan = none

end

end EveBox.Rules
