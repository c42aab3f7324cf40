import EveBox.Eve.Inputs
import EveBox.Lib.Transition

/-!
# The watcher

Reference: `src/eve/watcher.rs`, with `EveInput` of `src/eve/spool.rs` and the look for the next file of
`src/eve/reader.rs`.

The watcher looks again and again for the files that its patterns find, and starts a reader for each input that it has
not seen. A reader of a spool goes on from file to file, while files are made and removed. No reader has a bookmark of
an earlier run.
-/

namespace EveBox.Eve

open Rust EveInput

/-! ## Checks -/

/-- A path that a pattern has found: its directory as the path has it, and its name there. -/
structure FoundPath where
  parent : String
  name : String
deriving DecidableEq, Repr

namespace FoundPath

/-- The directory of the path. -/
def directory (p : FoundPath) : String := directoryOf p.parent

/-- The key of the input of the path. -/
def key (p : FoundPath) : InputKey := (fromPath p.name).key p.parent

end FoundPath

/-- `EveInput::group`, for the paths of any directories. -/
def groupFound (stop : Bool) (found : List FoundPath) : SortedMap InputKey EveInput :=
  found.foldl (fun inputs p => collect p.parent stop inputs p.name) .empty

/-- What of `EvePatternWatcher` changes, and whether its readers begin at the end. -/
structure EvePatternWatcher where
  stop : Bool
  filenames : List InputKey

/-- A reader that has been started: the key of its input, the file that it has open, and those of its spool that it has
been through. -/
structure StartedReader where
  key : InputKey
  input : EveInput
  visited : List SpoolFile
deriving DecidableEq

namespace EvePatternWatcher

/-- `EvePatternWatcher::start_file`. -/
def startFile (key : InputKey) (input : EveInput) : StartedReader := ⟨key, input, []⟩

/-- A round of the loop in `check`: the watcher, and the readers that it has started. -/
def checkInput (s : EvePatternWatcher × List StartedReader) (entry : InputKey × EveInput) :
    EvePatternWatcher × List StartedReader :=
  if entry.1 ∈ s.1.filenames then s
  else ({ s.1 with filenames := s.1.filenames ++ [entry.1] }, s.2 ++ [startFile entry.1 entry.2])

/-- `EvePatternWatcher::check`. -/
def check (w : EvePatternWatcher) (found : List FoundPath) : EvePatternWatcher × List StartedReader :=
  (groupFound w.stop found).entries.foldl checkInput (w, [])

end EvePatternWatcher

/-! ## Readers -/

namespace StartedReader

/-- The directory of the files of a reader. -/
def directory (r : StartedReader) : String := (ofLex r.key).1

/-- The names of the files that it has opened. -/
def opened (r : StartedReader) : List String := r.visited.map (·.path) ++ [r.input.path]

/-- It goes on to the next file of its spool: `EveReader::next_record` at the end of a file. -/
def next (r : StartedReader) (entries : List String) : Option StartedReader := do
  let f ← r.input.spoolFile
  let g ← f.next entries
  some { r with input := .spool g, visited := r.visited ++ [f] }

/-- It goes to the last file of its spool: `EveReader::goto_end`. -/
def gotoEnd (r : StartedReader) (entries : List String) : Option StartedReader := do
  let f ← r.input.spoolFile
  let g ← f.latest entries
  some { r with input := .spool g }

end StartedReader

/-! ## Runs -/

/-- The watcher and its readers, and the directories. -/
structure WatchState where
  watcher : EvePatternWatcher
  readers : List StartedReader
  /-- The names of the files in a directory. -/
  names : String → List String
  /-- What the patterns have found so far. -/
  found : List FoundPath

/-- A new watcher. -/
def WatchState.new (stop : Bool) (names : String → List String) : WatchState := ⟨⟨stop, []⟩, [], names, []⟩

/-- What may happen. -/
inductive WatchOp
  /-- A file is made. -/
  | create (directory name : String)
  /-- A file is removed. -/
  | remove (directory name : String)
  /-- `EvePatternWatcher::check`, with the paths that the patterns find. -/
  | check (found : List FoundPath)
  /-- A reader goes on to the next file. -/
  | next (i : ℕ)
  /-- A reader that begins at the end goes there. -/
  | gotoEnd (i : ℕ)
deriving DecidableEq, Repr

namespace WatchState

/-- One step. -/
def step (s : WatchState) : WatchOp → Option WatchState
  | .create directory name =>
      if name ∈ s.names directory then none
      else some { s with names := Function.update s.names directory (s.names directory ++ [name]) }
  | .remove directory name =>
      some { s with names := Function.update s.names directory ((s.names directory).filter (· ≠ name)) }
  | .check found =>
      if found.all fun p => p.name ∈ s.names p.directory then
        some { s with
          watcher := (s.watcher.check found).1
          readers := s.readers ++ (s.watcher.check found).2
          found := s.found ++ found }
      else none
  | .next i =>
      s.readers[i]?.bind fun r => (r.next (s.names r.directory)).map fun r => { s with readers := s.readers.set i r }
  | .gotoEnd i =>
      if s.watcher.stop then
        s.readers[i]?.bind fun r =>
          (r.gotoEnd (s.names r.directory)).map fun r => { s with readers := s.readers.set i r }
      else none

end WatchState

end EveBox.Eve
