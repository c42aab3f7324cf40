import EveBox.Rust.Text
import Mathlib.Data.List.AList

/-!
# EVE files and spools

Reference: `src/eve/spool.rs`.

All the files are in one directory, so that a path is the name of a file in it. What is written to a file
stays with its inode; names come and go.
-/

namespace EveBox.Eve

open Rust

/-- The directory, and the contents of every inode there has been. -/
structure FileSystem where
  inodes : List Bytes
  names : AList fun _ : String => ℕ
  /-- Every name is that of a file there has been. -/
  bound : ∀ name j, names.lookup name = some j → j < inodes.length

namespace FileSystem

/-- No files. -/
def empty : FileSystem where
  inodes := []
  names := ∅
  bound name j hj := by
    rw [AList.lookup_empty] at hj
    cases hj

/-- The bytes of an inode. -/
def content (fs : FileSystem) (inode : ℕ) : Bytes := (fs.inodes[inode]?).getD []

/-- Bytes are appended to an inode. -/
def append (fs : FileSystem) (inode : ℕ) (bytes : Bytes) : FileSystem where
  inodes := fs.inodes.modify inode (· ++ bytes)
  names := fs.names
  bound name j hj := by
    rw [List.length_modify]
    exact fs.bound name j hj

/-- A new, empty file under a name. -/
def create (fs : FileSystem) (name : String) : FileSystem where
  inodes := fs.inodes ++ [[]]
  names := fs.names.insert name fs.inodes.length
  bound name' j hj := by
    rw [List.length_append, List.length_singleton]
    by_cases hname : name' = name
    · rw [hname, AList.lookup_insert] at hj
      obtain rfl := Option.some.inj hj
      exact Nat.lt_succ_self _
    · rw [AList.lookup_insert_ne hname] at hj
      exact Nat.lt_succ_of_lt (fs.bound name' j hj)

/-- A name that is there after a removal was there before. -/
theorem lookup_erase {names : AList fun _ : String => ℕ} {name name' : String} {j : ℕ}
    (h : (names.erase name).lookup name' = some j) : name' ≠ name ∧ names.lookup name' = some j := by
  by_cases hname : name' = name
  · rw [hname, AList.lookup_erase] at h
    cases h
  · rw [AList.lookup_erase_ne hname] at h
    exact ⟨hname, h⟩

/-- The name goes: the file is renamed to somewhere else, or removed. -/
def remove (fs : FileSystem) (name : String) : FileSystem where
  inodes := fs.inodes
  names := fs.names.erase name
  bound name' j hj := fs.bound name' j (lookup_erase hj).2

/-- The entries of the directory. -/
def entries (fs : FileSystem) : List String := fs.names.keys

end FileSystem

/-! ## Spool files -/

/-- `TIMESTAMP_LENGTH`. -/
def timestampLength : ℕ := 10

/-- `SpoolFile`. -/
structure SpoolFile where
  path : String
  key : String
  timestamp : ℕ
deriving DecidableEq, Repr

/-- A decimal number. -/
def parseDigits (digits : List Char) : ℕ := digits.foldl (fun n c => n * 10 + (c.toNat - 48)) 0

namespace SpoolFile

/-- `SpoolFile::parse`. -/
def parse (path : String) : Option SpoolFile := do
  let (stem, timestamp) ← rsplitOnce '.' path.toList
  if stem = [] ∨ timestamp.length ≠ timestampLength ∨ !timestamp.all Char.isDigit then none
  else some ⟨path, String.ofList (stem ++ ['.']), parseDigits timestamp⟩

/-- Whether `newer_file` takes the candidate. -/
def isBetter (latest : Bool) (candidate : SpoolFile) (next : Option SpoolFile) : Bool :=
  match next with
  | none => true
  | some current =>
      if latest then current.timestamp < candidate.timestamp
      else candidate.timestamp < current.timestamp

/-- `SpoolFile::newer_file`, over the entries of the directory. -/
def newerFile (self : SpoolFile) (entries : List String) (latest : Bool) : Option SpoolFile :=
  (entries.filterMap parse).foldl (fun next candidate =>
    if candidate.key ≠ self.key ∨ candidate.timestamp ≤ self.timestamp then next
    else if isBetter latest candidate next then some candidate
    else next) none

/-- `SpoolFile::next`. -/
def next (self : SpoolFile) (entries : List String) : Option SpoolFile := self.newerFile entries false

/-- `SpoolFile::latest`. -/
def latest (self : SpoolFile) (entries : List String) : Option SpoolFile := self.newerFile entries true

end SpoolFile

/-- `EveInput`. -/
inductive EveInput
  | file (path : String)
  | spool (file : SpoolFile)
deriving DecidableEq, Repr

namespace EveInput

/-- `EveInput::from_path`. -/
def fromPath (path : String) : EveInput :=
  match SpoolFile.parse path with
  | some f => .spool f
  | none => .file path

/-- `EveInput::path`. -/
def path : EveInput → String
  | .file path => path
  | .spool f => f.path

/-- `EveInput::spool_file`. -/
def spoolFile : EveInput → Option SpoolFile
  | .spool f => some f
  | .file _ => none

end EveInput

end EveBox.Eve
