import EveBox.Eve.Reader
import EveBox.Lib.Transition

/-!
# The EVE processor

Reference: `src/eve/processor.rs` and `src/bookmark.rs`.

A processor runs against the files, which others append to, create and remove at any time; a step is what
the processor does up to where it next looks at the files or waits for the sink. The sink is what the
processor sees of it: the events it holds and, as a ghost, those it has stored.
-/

namespace EveBox.Eve

open Rust

/-- `DEFAULT_BATCH_SIZE`. -/
def defaultBatchSize : ℕ := 100

/-! ## Bookmarks -/

/-- `Bookmark`. -/
structure Bookmark where
  path : String
  offset : ℕ
  size : ℕ
  inode : ℕ
deriving DecidableEq, Repr

/-- `Bookmark::from_metadata`. -/
def Bookmark.fromMetadata (m : EveReader.Metadata) : Bookmark :=
  ⟨m.filename, m.lineno, m.size, m.inode⟩

/-- `Bookmark::is_valid`. -/
def Bookmark.isValid (b : Bookmark) (fs : FileSystem) : Bool :=
  match fs.names.lookup b.path with
  | none => false
  | some inode => b.inode = inode && b.size ≤ (fs.content inode).length

/-- What comes of writing the bookmark file. -/
inductive BookmarkWrite
  /-- Written; these completed files cannot be removed then. -/
  | written (stuck : List String)
  /-- `File::create` has failed. -/
  | refused
  /-- The file has been truncated, but not written. -/
  | torn
deriving DecidableEq, Repr

/-! ## The processor -/

/-- What parsing and filtering make of a line: `serde_json::from_str`, and `EveFilterChain::run`. -/
structure Parsing (V : Type*) where
  fromStr : List Char → Option V
  filters : V → V

/-- Where the processor is. -/
inductive ProcessorPhase
  /-- Before `run`. -/
  | starting
  /-- In the loop of `next_record_inner`. -/
  | reading
  /-- At the end of a file, before the look for the next spool file. -/
  | ended
  /-- `next_record` has returned `Ok(None)`. -/
  | noRecord
  /-- Before `is_file_changed`. -/
  | checking
  /-- Before `reopen`. -/
  | reopening
  /-- In `commit`; `eof` says that no record was the reason. -/
  | committing (eof : Bool)
  /-- `run` has returned. -/
  | stopped
  /-- The sink has refused an event, and the result was unwrapped. -/
  | panicked
deriving DecidableEq, Repr

/-- `Processor`. -/
structure Processor (V : Type*) where
  reader : EveReader
  /-- The events of the sink that are not committed. -/
  queue : List V
  /-- There is a file for the bookmark. -/
  bookmarkFilename : Bool
  «end» : Bool
  oneshot : Bool
  phase : ProcessorPhase

/-- The files, the bookmark if there is a readable one, the processor, and what its sink has stored.
`origin` is where the loop has begun to read, and `passed` are the spool files it has left behind; both are
ghosts. -/
structure System (V : Type*) where
  fs : FileSystem
  bookmark : Option Bookmark
  processor : Processor V
  committed : List V
  origin : Option OpenFile
  passed : List ℕ

namespace System

variable {V : Type*}

/-- A new processor for an input. -/
def new (fs : FileSystem) (bookmark : Option Bookmark) (input : EveInput)
    (bookmarkFilename atEnd oneshot delete : Bool) : System V where
  fs
  bookmark
  processor :=
    { reader := { EveReader.fromInput input with deleteProcessedSpoolFiles := delete }
      queue := []
      bookmarkFilename
      «end» := atEnd
      oneshot
      phase := .starting }
  committed := []
  origin := none
  passed := []

def withReader (s : System V) (reader : EveReader) : System V :=
  { s with processor := { s.processor with reader } }

def withPhase (s : System V) (phase : ProcessorPhase) : System V :=
  { s with processor := { s.processor with phase } }

/-- `Processor::init_from_bookmark`. -/
def initFromBookmark (s : System V) : Bool × EveReader :=
  let reader := s.processor.reader
  match s.processor.bookmarkFilename, s.bookmark with
  | true, some bookmark =>
      if !bookmark.isValid s.fs then (false, reader)
      else
        match reader.selectBookmark bookmark.path with
        | (.error _, reader) => (false, reader)
        | (.ok (), reader) =>
            match reader.gotoLineno s.fs bookmark.offset with
            | (.error _, reader) => (false, reader)
            | (.ok _, reader) => (true, reader)
  | _, _ => (false, reader)

/-- `Processor::run` up to its loop. -/
def start (s : System V) : Option (System V) :=
  match s.processor.phase with
  | .starting =>
      let (valid, reader) := s.initFromBookmark
      let reader := if !valid && s.processor.end then (reader.gotoEnd s.fs).2 else reader
      some { (s.withReader reader).withPhase .reading with origin := reader.reader }
  | _ => none

/-- `EventSink::submit`: whether the sink asks for a commit, if it takes the event. -/
def submit (s : System V) (event : V) (answer : Option Bool) : System V :=
  match answer with
  | none => s.withPhase .panicked
  | some commit =>
      let queue := s.processor.queue ++ [event]
      let phase := if commit || defaultBatchSize ≤ queue.length then .committing false else .reading
      { s with processor := { s.processor with queue, phase } }

/-- A round of the loop of `next_record_inner`, and what the processor does with a record. -/
def poll (parsing : Parsing V) (s : System V) (answer : Option Bool) : Option (System V) :=
  match s.processor.phase with
  | .reading =>
      match s.processor.reader.pollLine parsing.fromStr s.fs false with
      | (.record record, reader) => some ((s.withReader reader).submit (parsing.filters record) answer)
      | (.again, reader) | (.error _, reader) => some (s.withReader reader)
      | (.eof, reader) => some ((s.withReader reader).withPhase .ended)
  | _ => none

/-- The round of `next_record` after the end of a file; the directory may be unreadable. -/
def look (s : System V) (readable : Bool) : Option (System V) :=
  match s.processor.phase with
  | .ended =>
      if s.processor.reader.spool.isSome && !readable then some (s.withPhase .reading)
      else
        match s.processor.reader.advance s.fs with
        | some reader =>
            let passed := s.passed ++ (s.processor.reader.reader.map (·.inode)).toList
            some { (s.withReader reader).withPhase .reading with passed }
        | none => some (s.withPhase .noRecord)
  | _ => none

/-- `Processor::checkpoint`. -/
def checkpoint (s : System V) (write : BookmarkWrite) : System V :=
  match s.processor.bookmarkFilename, s.processor.reader.metadata s.fs with
  | true, some m =>
      match write with
      | .written stuck =>
          let (reader, fs) := s.processor.reader.deleteCompletedSpoolFiles s.fs stuck
          { s.withReader reader with fs, bookmark := some (.fromMetadata m) }
      | .refused => s
      | .torn => { s with bookmark := none }
  | _, _ => s

/-- The processor has handled the end of a round without a record. -/
def afterEof (s : System V) : System V :=
  s.withPhase (if s.processor.oneshot then .stopped else .reading)

/-- `Ok(None)`: either there is something to commit, or the completed files are dealt with. -/
def noRecord (s : System V) (write : BookmarkWrite) : Option (System V) :=
  match s.processor.phase with
  | .noRecord =>
      if s.processor.queue ≠ [] then some (s.withPhase (.committing true))
      else
        let s := if s.processor.reader.hasCompletedSpoolFiles then s.checkpoint write else s
        some (if s.processor.oneshot then s.afterEof else s.withPhase .checking)
  | _ => none

/-- The look for a rotated file. -/
def check (s : System V) : Option (System V) :=
  match s.processor.phase with
  | .checking =>
      if s.processor.reader.isFileChanged s.fs then some (s.withPhase .reopening) else some s.afterEof
  | _ => none

/-- The rotated file is opened; if that fails, there is no open file. -/
def reopen (s : System V) : Option (System V) :=
  match s.processor.phase with
  | .reopening => some (s.withReader (s.processor.reader.reopen s.fs).2).afterEof
  | _ => none

/-- A round of `Processor::commit`: the sink fails and keeps its events, or it stores them. -/
def commit (s : System V) (result : Option BookmarkWrite) : Option (System V) :=
  match s.processor.phase, result with
  | .committing _, none => some s
  | .committing eof, some write =>
      let s := { s with
        committed := s.committed ++ s.processor.queue
        processor := { s.processor with queue := [] } }
      let s := s.checkpoint write
      some (if eof then s.afterEof else s.withPhase .reading)
  | _, _ => none

end System

/-- What can happen: to the files, and in the processor. -/
inductive SystemOp
  | append (inode : ℕ) (bytes : Bytes)
  | create (name : String)
  | remove (name : String)
  | start
  | poll (answer : Option Bool)
  | look (readable : Bool)
  | noRecord (write : BookmarkWrite)
  | check
  | reopen
  | commit (result : Option BookmarkWrite)
deriving DecidableEq, Repr

def System.step {V : Type*} (parsing : Parsing V) (s : System V) : SystemOp → Option (System V)
  | .append inode bytes => some { s with fs := s.fs.append inode bytes }
  | .create name => some { s with fs := s.fs.create name }
  | .remove name => some { s with fs := s.fs.remove name }
  | .start => s.start
  | .poll answer => s.poll parsing answer
  | .look readable => s.look readable
  | .noRecord write => s.noRecord write
  | .check => s.check
  | .reopen => s.reopen
  | .commit result => s.commit result

end EveBox.Eve
