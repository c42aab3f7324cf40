import EveBox.Lib.Transition
import EveBox.Rules.Load

/-!
# Watching the rule files

Reference: `watch_rules` of `src/rules.rs`.

A poll is one step. Between polls the files are modified, each to a time that is not before its last.
-/

namespace EveBox.Rules

open Rust Transition

/-! ## The loop -/

section

variable {Path : Type*} [DecidableEq Path]

/-- The state of the loop, with the files as they are. `polled` says that there has been a poll since the last
modification; it is a ghost. -/
structure Watch (Path : Type*) where
  filenames : List String
  fs : FileSystem Path
  inner : Inner Path
  lastModified : ℤ
  polled : Bool

namespace Watch

/-- The files that the patterns give. -/
def paths (s : Watch Path) : List Path := s.filenames.flatMap s.fs.glob

/-- `RuleMap::filenames`. -/
def recorded (s : Watch Path) : List Path := s.paths.filter fun path => (s.inner.files path).isSome

/-- The body of the loop over the files: `reload` and `last_modified`. -/
def check (fs : FileSystem Path) (state : Bool × ℤ) (path : Path) : Bool × ℤ :=
  match fs.modified path with
  | some modified => if state.2 < modified then (true, modified) else state
  | none => state

/-- One pass of the outer loop. -/
def poll (scan : RuleScanner) (s : Watch Path) : Watch Path :=
  let state := s.recorded.foldl (check s.fs) (false, s.lastModified)
  { s with
    inner := if state.1 then s.inner.rescan scan s.fs s.filenames else s.inner
    lastModified := state.2
    polled := true }

/-- The files with one of them rewritten or replaced. -/
def rewrite (fs : FileSystem Path) (path : Path) (content : Bytes) (modified : ℤ) : FileSystem Path :=
  { fs with
    modified := Function.update fs.modified path (some modified)
    content := Function.update fs.content path (some content) }

/-- A file is modified; its time is not earlier than before. -/
def modify (s : Watch Path) (path : Path) (content : Bytes) (modified : ℤ) : Option (Watch Path) :=
  match s.fs.modified path with
  | none => none
  | some previous =>
      if path ∈ s.paths ∧ previous ≤ modified then
        some { s with fs := rewrite s.fs path content modified, polled := false }
      else none

/-- The rules have been loaded, and the loop begins at some time. -/
def start (scan : RuleScanner) (filenames : List String) (fs : FileSystem Path) (now : ℤ) : Watch Path where
  filenames := filenames
  fs := fs
  inner := Inner.loadRules scan fs filenames
  lastModified := now
  polled := true

end Watch

/-- What can happen. -/
inductive WatchOp (Path : Type*)
  | poll
  | modify (path : Path) (content : Bytes) (modified : ℤ)

def Watch.step (scan : RuleScanner) (s : Watch Path) : WatchOp Path → Option (Watch Path)
  | .poll => some (s.poll scan)
  | .modify path content modified => s.modify path content modified

/-! ## What is asked of it -/

section

variable (scan : RuleScanner) (s : Watch Path)

/-- A file has a rule with the sid. -/
def OccursIn (fs : FileSystem Path) (path : Path) (sid : ℕ) : Prop :=
  (fs.modified path).isSome = true ∧ ∃ content, fs.content path = some content ∧ sid ∈ (accepted scan content).map (·.1)

/-- Of the files, only this one has a rule with the sid. -/
def OccursOnly (fs : FileSystem Path) (paths : List Path) (path : Path) (sid : ℕ) : Prop :=
  OccursIn scan fs path sid ∧ ∀ other ∈ paths, OccursIn scan fs other sid → other = path

/-- The rule with the sid that a file has now. -/
def currentRule (fs : FileSystem Path) (path : Path) (sid : ℕ) : Option (List Char) :=
  (fs.content path).bind fun content => lastRule (accepted scan content) sid

/-- The map has the rules that are in no other file as the file has them. -/
def Settled (path : Path) : Prop :=
  ∀ sid, OccursOnly scan s.fs s.paths path sid → s.inner.findBySid sid = currentRule scan s.fs path sid

def UpToDate : Prop := ∀ path ∈ s.paths, Settled scan s path

/-- The next poll loads the file: both for the loop and for the scan its time is new. -/
def Pending (path : Path) : Prop :=
  ∃ modified ∈ s.fs.modified path, s.lastModified < modified ∧ ∀ prev ∈ s.inner.files path, prev < modified / 1000000000

/-- All accepted lines of a content are read. -/
def Readable (content : Bytes) : Prop := ∀ l ∈ (linesOf content).dropWhile (·.complete), l.rule scan = none

/-- A modification that the next poll sees: its time is after the last that the loop has seen, and in a later second than
that in which the file was loaded. A rule that is left in one other file only is one that is loaded, or will be. -/
structure Detectable (path : Path) (content : Bytes) (modified : ℤ) : Prop where
  readable : Readable scan content
  later : s.lastModified < modified
  seconds : ∀ prev ∈ s.inner.files path, prev < modified / 1000000000
  others : ∀ other ∈ s.paths, other ≠ path → ∀ sid,
    OccursOnly scan (Watch.rewrite s.fs path content modified) s.paths other sid →
      s.inner.findBySid sid = currentRule scan s.fs other sid ∨ Pending s other

/-- The condition on a step. -/
def Watch.Detects : WatchOp Path → Prop
  | .poll => True
  | .modify path content modified => Detectable scan s path content modified

end

end

end EveBox.Rules
