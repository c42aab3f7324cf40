import EveBox.Eve.Restart

/-!
# A writer that rotates its file

Reference: `src/eve/reader.rs`, `src/eve/processor.rs` and `src/eve/spool.rs`, with the program that writes the
file beside them.

The writer appends whole lines. It rotates a plain file by renaming it and then making it again, and goes on
appending to the old file in between; in a spool it goes on in a file with a later timestamp.
-/

namespace EveBox.Eve

open Rust Lines Transition

variable {V : Type*} {parsing : Parsing V}

/-! ## The writer -/

/-- A file of the writer, and the name under which it has been made. -/
structure WrittenFile where
  name : String
  inode : ℕ
deriving DecidableEq, Repr

/-- A processor, and the writer: the file that it writes to, and those it has written before, the oldest
first. -/
structure Rotation (V : Type*) where
  system : System V
  older : List WrittenFile
  current : WrittenFile

/-- The second name is that of a later file in the spool of the first. -/
def Later (name name' : String) : Prop :=
  ∃ g ∈ SpoolFile.parse name, ∃ g' ∈ SpoolFile.parse name', g'.key = g.key ∧ g.timestamp < g'.timestamp

instance (name name' : String) : Decidable (Later name name') :=
  inferInstanceAs (Decidable (∃ g ∈ SpoolFile.parse name, ∃ g' ∈ SpoolFile.parse name', _ ∧ _))

/-- What the writer and the processor do. -/
inductive RotationOp
  /-- The writer appends lines. -/
  | append (text : Bytes)
  /-- The plain file is renamed. -/
  | rename
  /-- The plain file is made again. -/
  | create
  /-- The writer goes on in another file of the spool. -/
  | next (name : String)
  | processor (op : SystemOp)
deriving DecidableEq, Repr

/-- The events of the lines in some files. -/
def Parsing.eventsOf (parsing : Parsing V) (fs : FileSystem) (files : List WrittenFile) : List V :=
  files.flatMap fun f => parsing.events (fs.content f.inode)

namespace Rotation

/-- The files of the writer, the oldest first. -/
def files (t : Rotation V) : List WrittenFile := t.older ++ [t.current]

def withFiles (t : Rotation V) (fs : FileSystem) : Rotation V := { t with system := { t.system with fs } }

/-- The writer begins a file. -/
def begin (t : Rotation V) (name : String) : Rotation V where
  system := { t.system with fs := t.system.fs.create name }
  older := t.files
  current := ⟨name, t.system.fs.inodes.length⟩

/-- A writer that has begun its first file, and a new processor for it. -/
def new (fs : FileSystem) (path : String) (bookmarkFilename oneshot delete : Bool) : Rotation V where
  system := .new (fs.create path) none (.fromPath path) bookmarkFilename false oneshot delete
  older := []
  current := ⟨path, fs.inodes.length⟩

def step (parsing : Parsing V) (t : Rotation V) : RotationOp → Option (Rotation V)
  | .append text =>
      if tail newline text = [] then some (t.withFiles (t.system.fs.append t.current.inode text)) else none
  | .rename =>
      if SpoolFile.parse t.current.name = none ∧ t.system.fs.names.lookup t.current.name ≠ none then
        some (t.withFiles (t.system.fs.remove t.current.name))
      else none
  | .create =>
      if SpoolFile.parse t.current.name = none ∧ t.system.fs.names.lookup t.current.name = none then
        some (t.begin t.current.name)
      else none
  | .next name => if Later t.current.name name then some (t.begin name) else none
  | .processor op =>
      if op.ofProcessor then (t.system.step parsing op).map fun system => { t with system } else none

/-- The events of all the lines that have been written. -/
def written (parsing : Parsing V) (t : Rotation V) : List V := parsing.eventsOf t.system.fs t.files

/-- The reader keeps up with the writer: a plain file is only rotated when the reader has it open, and nothing
has been appended to a file since its end was found when the reader leaves it for another one. -/
def Follows (t : Rotation V) : RotationOp → Prop
  | .rename => t.system.processor.reader.reader.map (·.inode) = some t.current.inode
  | .processor (.look readable) => readable = true →
      (t.system.processor.reader.advance t.system.fs).isSome = true →
        t.system.processor.reader.unread t.system.fs = []
  | .processor .reopen => t.system.processor.reader.unread t.system.fs = []
  | _ => True

instance (t : Rotation V) : ∀ op, Decidable (t.Follows op)
  | .rename => inferInstanceAs (Decidable (_ = _))
  | .processor (.look _) => inferInstanceAs (Decidable (_ → _ → _))
  | .processor .reopen => inferInstanceAs (Decidable (_ = _))
  | .append _ | .create | .next _ => isTrue trivial
  | .processor (.append _ _) | .processor (.create _) | .processor (.remove _) | .processor .start
  | .processor (.poll _) | .processor (.noRecord _) | .processor .check | .processor (.commit _) =>
      isTrue trivial

/-- The lines that have been written are delivered once each and in their order: what has been delivered is
the first of them, and it is all of them when there is nothing left of the file that the writer writes to. -/
structure Exact (parsing : Parsing V) (t : Rotation V) : Prop where
  order : t.system.delivered <+: t.written parsing
  complete : t.system.processor.phase ≠ .panicked →
    ∀ file, t.system.processor.reader.reader = some file → file.inode = t.current.inode →
      t.system.fs.rest file = [] → t.system.delivered = t.written parsing

/-- A name is only removed when all the lines of the file have been delivered. -/
def RemovesDelivered (parsing : Parsing V) (t t' : Rotation V) : Prop :=
  ∀ d j, t.system.fs.names.lookup d = some j → t'.system.fs.names.lookup d = none →
    ∃ before after, t.files = before ++ ⟨d, j⟩ :: after ∧
      parsing.eventsOf t.system.fs (before ++ [⟨d, j⟩]) <+: t'.system.delivered

/-- The processor, left alone, can go on until it has delivered all that has been written. -/
def Drains (parsing : Parsing V) (t : Rotation V) : Prop :=
  ∃ (ops : List SystemOp) (t' : Rotation V),
    Along (step parsing) Follows t (ops.map .processor) ∧
      exec (step parsing) t (ops.map .processor) = some t' ∧ t'.system.delivered = t.written parsing

end Rotation

end EveBox.Eve
