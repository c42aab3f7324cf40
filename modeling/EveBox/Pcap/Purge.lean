import EveBox.Lib.Transition
import EveBox.Rust.Text
import Mathlib.Data.List.Sort
import Mathlib.Data.String.Basic
import Mathlib.Algebra.Order.Ring.Int

/-!
# Purging capture files

Reference: `src/cli/pcap/purge.rs`.

A round reads the directory, and then removes files one by one; others may change the directory at any time. Sizes
on the command line are read in floating point, and are given here. What is logged is left out.
-/

namespace EveBox.Pcap

open Rust

/-! ## Names -/

/-- `str::split_once`, at a text. -/
def splitOnceAt (pattern : List Char) : List Char → Option (List Char × List Char)
  | [] => none
  | c :: rest =>
      if pattern.isPrefixOf (c :: rest) then some ([], (c :: rest).drop pattern.length)
      else (splitOnceAt pattern rest).map fun (before, after) => (c :: before, after)

/-- One extension of `is_pcap_filename`, at the end of the name or before numbers. -/
def hasCaptureExtension (lowercase ext : List Char) : Bool :=
  ext.isSuffixOf lowercase || (splitOnceAt (ext ++ ['.']) lowercase).any fun (_, suffix) =>
    !suffix.isEmpty && (suffix.splitOn '.').all fun component => component.all Char.isDigit

/-- `is_pcap_filename`. -/
def isPcapFilename (filename : String) : Bool :=
  [".pcap".toList, ".cap".toList].any (hasCaptureExtension (filename.toList.map Char.toLower))

/-! ## The directory -/

/-- The name of an entry; `other` is one that is not UTF-8. -/
inductive EntryName
  | utf8 (name : String)
  | other (bytes : Bytes)
deriving DecidableEq

/-- `EntryName::to_str`. -/
def EntryName.toStr : EntryName → Option String
  | .utf8 name => some name
  | .other _ => none

/-- The type of an entry; symbolic links are not followed. -/
inductive EntryKind
  | file
  | directory
  | other
deriving DecidableEq, Repr

/-- An entry of a directory and its metadata. -/
structure DirEntry where
  name : EntryName
  kind : EntryKind
  size : ℕ
  modified : ℤ
deriving DecidableEq

/-- A directory. -/
structure Directory where
  entries : List DirEntry
  nodup : (entries.map (·.name)).Nodup

/-- `std::fs::remove_file` finds something to remove. -/
def Directory.hasFile (d : Directory) (name : EntryName) : Bool :=
  d.entries.any fun entry => entry.kind ≠ .directory ∧ entry.name = name

/-- `std::fs::remove_file`, if it succeeds. -/
def Directory.removeFile (d : Directory) (name : EntryName) : Directory where
  entries := d.entries.filter fun entry => ¬ (entry.kind ≠ .directory ∧ entry.name = name)
  nodup := d.nodup.sublist (List.filter_sublist.map _)

/-! ## What is deleted -/

/-- `FileInfo`. -/
structure FileInfo where
  path : String
  size : ℕ
  modified : ℤ
deriving DecidableEq

/-- The order of `sort_by`: the newest first. -/
def FileInfo.Before (a b : FileInfo) : Prop := b.modified < a.modified ∨ a.modified = b.modified ∧ a.path ≤ b.path

instance : DecidableRel FileInfo.Before := fun _ _ => inferInstanceAs (Decidable (_ ∨ _))

/-- `--keep-files` or `--max-size`. -/
inductive Retention
  | keepFiles (count : ℕ)
  | maxSize (bytes : ℕ)
deriving DecidableEq, Repr

/-- `PurgeArgs`. -/
structure PurgeArgs where
  retention : Retention
  namePrefix : Option String
  force : Bool
deriving DecidableEq, Repr

/-- The entry as `collect_pcap_files` takes it, or nothing if it passes over it. -/
def PurgeArgs.candidate (args : PurgeArgs) (entry : DirEntry) : Option FileInfo :=
  if entry.kind ≠ .file then none
  else
    match entry.name.toStr with
    | none => none
    | some filename =>
        if ¬ isPcapFilename filename then none
        else if args.namePrefix.any fun p => ¬ p.toList.isPrefixOf filename.toList then none
        else some ⟨filename, entry.size, entry.modified⟩

/-- `collect_pcap_files`. -/
def PurgeArgs.collectPcapFiles (args : PurgeArgs) (d : Directory) : List FileInfo :=
  (d.entries.filterMap args.candidate).insertionSort FileInfo.Before

/-- The loop of `calculate_files_to_delete_by_size`. -/
def keepBySize (maxSizeBytes : ℕ) : ℕ → List FileInfo → ℕ
  | _, [] => 0
  | totalSize, file :: files =>
      let nextSize := saturatingAdd totalSize file.size
      if nextSize > maxSizeBytes then 0 else keepBySize maxSizeBytes nextSize files + 1

/-- How many of the files are kept. -/
def Retention.keepCount (files : List FileInfo) : Retention → ℕ
  | .keepFiles count => count
  | .maxSize bytes => keepBySize bytes 0 files

/-- `calculate_files_to_delete_by_count` and `calculate_files_to_delete_by_size`. -/
def PurgeArgs.filesToDelete (args : PurgeArgs) (files : List FileInfo) : List FileInfo :=
  files.drop (args.retention.keepCount files)

/-! ## Rounds -/

/-- A purge at work: the directory, what is still to be removed in this round, and how many removals have failed. The
rest is a ghost: the directory as this round has seen it, and what has been removed, with the directory that the
round had seen. -/
structure Purge where
  dir : Directory
  queue : List FileInfo
  deleteErrors : ℕ
  seen : Directory
  removed : List (FileInfo × Directory)

/-- What can happen. -/
inductive PurgeOp
  /-- `run_purge_once`, up to `delete_files`; the directory can be read or not. -/
  | collect (ok : Bool)
  /-- The next `remove_file`. -/
  | remove (ok : Bool)
  /-- Others change the directory. -/
  | change (dir : Directory)

/-- One step. -/
def Purge.step (args : PurgeArgs) (s : Purge) : PurgeOp → Option Purge
  | .collect ok =>
      if s.queue ≠ [] then none
      else if ok then
        let files := args.filesToDelete (args.collectPcapFiles s.dir)
        some { s with queue := if args.force then files else [], deleteErrors := 0, seen := s.dir }
      else some s
  | .remove ok =>
      match s.queue with
      | [] => none
      | file :: queue =>
          if ok && s.dir.hasFile (.utf8 file.path) then
            some { s with
              dir := s.dir.removeFile (.utf8 file.path)
              queue := queue
              removed := (file, s.seen) :: s.removed }
          else some { s with queue := queue, deleteErrors := s.deleteErrors + 1 }
  | .change dir => some { s with dir := dir }

/-- A purge that has not begun. -/
def Purge.start (dir : Directory) : Purge := ⟨dir, [], 0, dir, []⟩

end EveBox.Pcap
