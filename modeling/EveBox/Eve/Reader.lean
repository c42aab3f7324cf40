import EveBox.Eve.Spool
import EveBox.Lib.Lines

/-!
# The EVE reader

Reference: `src/eve/reader.rs`.

The buffer of the `BufReader` is left out: files only grow, so that what is read from the buffer is what the
file holds. `next_record_inner` and `next_record` are cut where they look at the files: `pollLine` is one
round of the loop over the lines, and `advance` the look for the next spool file.
-/

namespace EveBox.Eve

open Rust Lines

/-- `EveReaderError`. -/
inductive EveReaderError
  | parseError (line : ℕ)
  | ioError (err : String)
deriving DecidableEq, Repr

/-- An open file, and the position in it. -/
structure OpenFile where
  inode : ℕ
  pos : ℕ
deriving DecidableEq, Repr

/-- What there is to read from the position on. -/
def FileSystem.rest (fs : FileSystem) (f : OpenFile) : Bytes := (fs.content f.inode).drop f.pos

/-- The file, `n` bytes further. -/
def OpenFile.advance (f : OpenFile) (n : ℕ) : OpenFile := { f with pos := f.pos + n }

/-- `EveReader`. -/
structure EveReader where
  filename : String
  reader : Option OpenFile
  lineno : ℕ
  offset : ℕ
  unterminated : Bool
  spool : Option SpoolFile
  deleteProcessedSpoolFiles : Bool
  completedSpoolFiles : List String
deriving DecidableEq, Repr

namespace EveReader

/-- `EveReader::new`. -/
def new (filename : String) : EveReader where
  filename
  reader := none
  lineno := 0
  offset := 0
  unterminated := false
  spool := none
  deleteProcessedSpoolFiles := false
  completedSpoolFiles := []

/-- `EveReader::from_input`. -/
def fromInput (input : EveInput) : EveReader := { new input.path with spool := input.spoolFile }

/-- `EveReader::open`. -/
def «open» (r : EveReader) (fs : FileSystem) : Except EveReaderError Unit × EveReader :=
  match fs.names.lookup r.filename with
  | none => (.error (.ioError "No such file or directory (os error 2)"), r)
  | some inode => (.ok (), { r with reader := some ⟨inode, 0⟩, lineno := 0, offset := 0 })

/-- `EveReader::reopen`. -/
def reopen (r : EveReader) (fs : FileSystem) : Except EveReaderError Unit × EveReader :=
  match r.open fs with
  | (.error err, r) => (.error err, { r with reader := none, lineno := 0, offset := 0 })
  | (.ok (), r) => (.ok (), r)

/-- `EveReader::next_line`. A line that is no text is gone from the reader all the same; one that has no
end yet is not, unless it is accepted. -/
def nextLine (r : EveReader) (fs : FileSystem) (acceptUnterminated : Bool) :
    Except EveReaderError (Option (List Char)) × EveReader :=
  let r := { r with unterminated := false }
  match r.reader with
  | none => (.ok none, r)
  | some file =>
      let line := first newline (fs.rest file)
      let file' := file.advance line.length
      match utf8Decode line with
      | none => (.error (.ioError "stream did not contain valid UTF-8"), { r with reader := some file' })
      | some text =>
          if line = [] then (.ok none, r)
          else if line.getLast? ≠ some newline then
            if acceptUnterminated then
              (.ok (some (trim text)), { r with
                reader := some file', offset := file'.pos, lineno := r.lineno + 1, unterminated := true })
            else (.ok none, r)
          else
            (.ok (some (trim text)), { r with
              reader := some file', offset := file'.pos, lineno := r.lineno + 1 })

/-- The loop of `goto_lineno`. -/
def skip (fs : FileSystem) : ℕ → EveReader → Except EveReaderError ℕ × EveReader
  | 0, r => (.ok 0, r)
  | lineno + 1, r =>
      match r.nextLine fs false with
      | (.error err, r) => (.error err, r)
      | (.ok none, r) => (.ok 0, r)
      | (.ok (some _), r) =>
          match skip fs lineno r with
          | (.error err, r) => (.error err, r)
          | (.ok count, r) => (.ok (count + 1), r)

/-- `EveReader::goto_lineno`. -/
def gotoLineno (r : EveReader) (fs : FileSystem) (lineno : ℕ) : Except EveReaderError ℕ × EveReader :=
  if r.reader.isNone then
    match r.open fs with
    | (.error err, r) => (.error err, r)
    | (.ok (), r) => skip fs lineno r
  else skip fs lineno r

/-- `EveReader::switch_spool_file`. -/
def switchSpoolFile (r : EveReader) (file : SpoolFile) : EveReader :=
  { r with
    filename := file.path
    reader := none
    lineno := 0
    offset := 0
    unterminated := false
    spool := some file }

/-- The loop of `goto_end`. Each round but the last takes a byte at least, so that there are no more rounds
than bytes. -/
def skipAll (fs : FileSystem) : ℕ → EveReader → Except EveReaderError Unit × EveReader
  | 0, r => (.ok (), r)
  | rounds + 1, r =>
      match r.nextLine fs false with
      | (.error err, r) => (.error err, r)
      | (.ok none, r) => (.ok (), r)
      | (.ok (some _), r) => skipAll fs rounds r

/-- The bytes before the reader. -/
def unread (r : EveReader) (fs : FileSystem) : Bytes := (r.reader.map fs.rest).getD []

/-- `EveReader::goto_end`. -/
def gotoEnd (r : EveReader) (fs : FileSystem) : Except EveReaderError Unit × EveReader :=
  let r := (r.spool.bind (·.latest fs.entries)).elim r r.switchSpoolFile
  if r.reader.isNone then
    match r.open fs with
    | (.error err, r) => (.error err, r)
    | (.ok (), r) => skipAll fs ((r.unread fs).length + 1) r
  else skipAll fs ((r.unread fs).length + 1) r

/-- `EveReader::select_bookmark`. -/
def selectBookmark (r : EveReader) (filename : String) : Except EveReaderError Unit × EveReader :=
  match r.spool with
  | none => (.ok (), r)
  | some current =>
      match SpoolFile.parse filename with
      | none => (.error (.ioError "bookmark does not refer to an EVE spool file"), r)
      | some bookmarked =>
          if bookmarked.key ≠ current.key then
            (.error (.ioError "bookmark refers to a different EVE spool stream"), r)
          else (.ok (), r.switchSpoolFile bookmarked)

/-! ## Records -/

/-- What a round of the loop of `next_record_inner` comes to. -/
inductive Polled (V : Type*)
  | record (record : V)
  /-- A blank line: another round. -/
  | again
  | eof
  | error (err : EveReaderError)

section

variable {V : Type*} (fromStr : List Char → Option V)

/-- The end of a round of the loop of `next_record_inner`, for a static file or for one that grows.
`fromStr` is `serde_json::from_str`. -/
def pollOpen (r : EveReader) (fs : FileSystem) (acceptUnterminated : Bool) : Polled V × EveReader :=
  match r.nextLine fs acceptUnterminated with
  | (.error err, r) => (.error err, r)
  | (.ok none, r) => (.eof, r)
  | (.ok (some []), r) => (.again, r)
  | (.ok (some line), r) =>
      match fromStr line with
      | some record => (.record record, r)
      | none => if r.unterminated then (.eof, r) else (.error (.parseError r.lineno), r)

/-- A round of the loop of `next_record_inner`, after the file has been opened if it was not. -/
def pollLine (r : EveReader) (fs : FileSystem) (acceptUnterminated : Bool) : Polled V × EveReader :=
  if r.reader.isNone then
    match r.open fs with
    | (.error err, r) => (.error err, r)
    | (.ok (), r) => r.pollOpen fromStr fs acceptUnterminated
  else r.pollOpen fromStr fs acceptUnterminated

end

/-- The round of `next_record` after the end of a file: the switch to the next spool file, if there is
one. -/
def advance (r : EveReader) (fs : FileSystem) : Option EveReader :=
  (r.spool.bind (·.next fs.entries)).map fun next =>
    let completed := r.filename
    let r := r.switchSpoolFile next
    if r.deleteProcessedSpoolFiles then
      { r with completedSpoolFiles := r.completedSpoolFiles ++ [completed] }
    else r

/-- `EveReader::has_completed_spool_files`. -/
def hasCompletedSpoolFiles (r : EveReader) : Bool := !r.completedSpoolFiles.isEmpty

/-- `EveReader::delete_completed_spool_files`; the names in `stuck` cannot be removed. -/
def deleteCompletedSpoolFiles (r : EveReader) (fs : FileSystem) (stuck : List String) :
    EveReader × FileSystem :=
  ({ r with completedSpoolFiles := [] },
    (r.completedSpoolFiles.filter (· ∉ stuck)).foldl FileSystem.remove fs)

/-- `Metadata`. -/
structure Metadata where
  filename : String
  lineno : ℕ
  size : ℕ
  inode : ℕ
deriving DecidableEq, Repr

/-- `EveReader::metadata`. -/
def metadata (r : EveReader) (fs : FileSystem) : Option Metadata :=
  r.reader.map fun file => ⟨r.filename, r.lineno, (fs.content file.inode).length, file.inode⟩

/-- `EveReader::is_file_changed`. -/
def isFileChanged (r : EveReader) (fs : FileSystem) : Bool :=
  match r.reader, fs.names.lookup r.filename with
  | none, none => false
  | none, some _ => true
  | some _, none => false
  | some file, some inode => inode ≠ file.inode || (fs.content inode).length < r.offset

end EveReader

end EveBox.Eve
