import EveBox.Eve.Reader

/-!
# What a round of the reader does

`nextLine_cases` says what `next_line` makes of the bytes before the reader, and `pollOpen_cases` the same of
a round of `next_record_inner`. `EveReader.Ok` ties a reader to the files; all that moves it keeps that.
-/

namespace EveBox.Eve

open Rust Lines

/-! ## Files -/

namespace FileSystem

variable {fs : FileSystem}

theorem content_append_self {i : ℕ} (hi : i < fs.inodes.length) (bytes : Bytes) :
    (fs.append i bytes).content i = fs.content i ++ bytes := by
  simp [content, append, hi]

theorem content_append_ne {i j : ℕ} (h : i ≠ j) (bytes : Bytes) :
    (fs.append i bytes).content j = fs.content j := by
  simp [content, append, h]

/-- A file only grows. -/
theorem content_append_isPrefix (i j : ℕ) (bytes : Bytes) :
    fs.content j <+: (fs.append i bytes).content j := by
  by_cases h : i = j
  · subst h
    by_cases hi : i < fs.inodes.length
    · rw [content_append_self hi]
      exact List.prefix_append _ _
    · simp [content, append, hi]
  · simp only [content_append_ne h, List.prefix_refl]

theorem content_create {name : String} {j : ℕ} : (fs.create name).content j = fs.content j := by
  unfold content create
  dsimp only
  rw [List.getElem?_append]
  split
  · rfl
  · rename_i hj
    rw [List.getElem?_eq_none (Nat.le_of_not_lt hj), List.getElem?_singleton]
    split <;> rfl

/-! ## Removed names -/

/-- A name that is left was there before. -/
theorem lookup_removed {names : List String} {d : String} {j : ℕ}
    (h : (names.foldl remove fs).names.lookup d = some j) : fs.names.lookup d = some j := by
  induction names generalizing fs with
  | nil => exact h
  | cons name names ih => exact (lookup_erase (ih h)).2

/-- Other names are left. -/
theorem lookup_not_removed {names : List String} {d : String} (hd : d ∉ names) :
    (names.foldl remove fs).names.lookup d = fs.names.lookup d := by
  induction names generalizing fs with
  | nil => rfl
  | cons name names ih =>
      rw [List.mem_cons, not_or] at hd
      rw [List.foldl_cons, ih hd.2, remove, AList.lookup_erase_ne hd.1]

theorem inodes_removed (names : List String) (fs : FileSystem) :
    (names.foldl remove fs).inodes = fs.inodes := by
  induction names generalizing fs with
  | nil => rfl
  | cons name names ih => exact ih (fs.remove name)

/-- What has been written stays. -/
theorem content_removed (names : List String) (fs : FileSystem) (j : ℕ) :
    (names.foldl remove fs).content j = fs.content j := by
  rw [content, content, inodes_removed]

end FileSystem

/-! ## Lines -/

/-- The record on a line, if there is one. -/
def lineRecord {V : Type*} (fromStr : List Char → Option V) (line : Bytes) : Option V :=
  (utf8Decode line).bind fun text =>
    match trim text with
    | [] => none
    | line => fromStr line

/-- The line is text. -/
def decodes (line : Bytes) : Bool := (utf8Decode line).isSome

namespace EveReader

variable {fs : FileSystem} {r : EveReader} {file : OpenFile}

/-- The reader has taken the line before it. -/
def afterLine (r : EveReader) (fs : FileSystem) (file : OpenFile) : EveReader :=
  let line := first newline (fs.rest file)
  if decodes line then
    { r with
      unterminated := false
      reader := some (file.advance line.length)
      offset := file.pos + line.length
      lineno := r.lineno + 1 }
  else { r with unterminated := false, reader := some (file.advance line.length) }

/-- What `next_line` does in a file that grows: it waits for the end of the line, or it takes the line, or it
drops what is no text. -/
theorem nextLine_cases (fs : FileSystem) (h : r.reader = some file) :
    (newline ∉ fs.rest file ∧ decodes (fs.rest file) = true ∧
        r.nextLine fs false = (.ok none, { r with unterminated := false })) ∨
      (newline ∉ fs.rest file ∧ decodes (fs.rest file) = false ∧
        ∃ err, r.nextLine fs false = (.error err, r.afterLine fs file)) ∨
      newline ∈ fs.rest file ∧
        ((∃ text, utf8Decode (first newline (fs.rest file)) = some text ∧
            r.nextLine fs false = (.ok (some (trim text)), r.afterLine fs file)) ∨
          decodes (first newline (fs.rest file)) = false ∧
            ∃ err, r.nextLine fs false = (.error err, r.afterLine fs file)) := by
  unfold nextLine afterLine decodes
  dsimp only
  rw [h]
  dsimp only
  by_cases hmem : newline ∈ fs.rest file
  · right; right
    refine ⟨hmem, ?_⟩
    have hline := isLine_first hmem
    have hne : first newline (fs.rest file) ≠ [] := List.ne_nil_of_mem hline.mem
    cases hdecode : utf8Decode (first newline (fs.rest file)) with
    | none => exact Or.inr ⟨rfl, _, rfl⟩
    | some text =>
        refine Or.inl ⟨text, rfl, ?_⟩
        simp only [hne, hline.getLast?, if_false, ne_eq, not_true_eq_false, Option.isSome_some, if_true]
        rfl
  · rw [first_of_not_mem hmem]
    cases hdecode : utf8Decode (fs.rest file) with
    | none => exact Or.inr (Or.inl ⟨hmem, rfl, _, rfl⟩)
    | some text =>
        refine Or.inl ⟨hmem, rfl, ?_⟩
        have hlast : (fs.rest file).getLast? ≠ some newline := by
          intro hlast
          exact hmem (List.mem_of_getLast? hlast)
        dsimp only
        split
        · rfl
        · rw [if_neg Bool.false_ne_true]

/-- What a round over the lines comes to. -/
theorem pollOpen_cases {V : Type*} (fromStr : List Char → Option V) (fs : FileSystem)
    (h : r.reader = some file) :
    (newline ∉ fs.rest file ∧ decodes (fs.rest file) = true ∧
        r.pollOpen fromStr fs false = (.eof, { r with unterminated := false })) ∨
      (newline ∉ fs.rest file ∧ decodes (fs.rest file) = false ∧
        ∃ err, r.pollOpen fromStr fs false = (.error err, r.afterLine fs file)) ∨
      newline ∈ fs.rest file ∧
        ((∃ record, lineRecord fromStr (first newline (fs.rest file)) = some record ∧
            r.pollOpen fromStr fs false = (.record record, r.afterLine fs file)) ∨
          lineRecord fromStr (first newline (fs.rest file)) = none ∧
            (r.pollOpen fromStr fs false = (.again, r.afterLine fs file) ∨
              ∃ err, r.pollOpen fromStr fs false = (.error err, r.afterLine fs file))) := by
  unfold pollOpen
  rcases nextLine_cases fs h with ⟨hmem, hdecode, hnext⟩ | ⟨hmem, hdecode, err, hnext⟩ |
    ⟨hmem, ⟨text, hdecode, hnext⟩ | ⟨hdecode, err, hnext⟩⟩
  · exact Or.inl ⟨hmem, hdecode, by rw [hnext]⟩
  · exact Or.inr (Or.inl ⟨hmem, hdecode, err, by rw [hnext]⟩)
  · right; right
    refine ⟨hmem, ?_⟩
    rw [hnext]
    have hrecord : lineRecord fromStr (first newline (fs.rest file)) =
        match trim text with
        | [] => none
        | line => fromStr line := by
      rw [lineRecord, hdecode]
      rfl
    have hdone : (r.afterLine fs file).unterminated = false := by
      unfold afterLine
      dsimp only
      split <;> rfl
    cases htrim : trim text with
    | nil =>
        rw [htrim] at hrecord
        exact Or.inr ⟨hrecord, Or.inl rfl⟩
    | cons c cs =>
        rw [htrim] at hrecord
        dsimp only at hrecord ⊢
        cases hparse : fromStr (c :: cs) with
        | some record => exact Or.inl ⟨record, hrecord.trans hparse, rfl⟩
        | none =>
            refine Or.inr ⟨hrecord.trans hparse, Or.inr ⟨.parseError (r.afterLine fs file).lineno, ?_⟩⟩
            rw [hdone]
            rfl
  · right; right
    refine ⟨hmem, Or.inr ⟨?_, Or.inr ⟨err, by rw [hnext]⟩⟩⟩
    rw [decodes, Option.isSome_eq_false_iff, Option.isNone_iff_eq_none] at hdecode
    rw [lineRecord, hdecode]
    rfl

/-- The reader, with the file opened if it was not and could be. -/
def opened (r : EveReader) (fs : FileSystem) : EveReader :=
  if r.reader.isNone then (r.open fs).2 else r

/-- A round of the reader is one over an open file, or an error. -/
theorem pollLine_cases {V : Type*} (fromStr : List Char → Option V) (r : EveReader) (fs : FileSystem) :
    ((r.opened fs).reader = none ∧ ∃ err, r.pollLine fromStr fs false = (.error err, r.opened fs)) ∨
      ∃ file, (r.opened fs).reader = some file ∧
        r.pollLine fromStr fs false = (r.opened fs).pollOpen fromStr fs false := by
  unfold opened pollLine
  by_cases hnone : r.reader.isNone = true
  · rw [if_pos hnone, if_pos hnone]
    unfold EveReader.open
    split
    · exact Or.inl ⟨Option.isNone_iff_eq_none.mp hnone, _, rfl⟩
    · exact Or.inr ⟨_, rfl, rfl⟩
  · rw [if_neg hnone, if_neg hnone]
    obtain ⟨file, hfile⟩ := Option.ne_none_iff_exists'.mp (mt Option.isNone_iff_eq_none.mpr hnone)
    exact Or.inr ⟨file, hfile, rfl⟩

/-! ## Readers and files -/

/-- What ties a reader to the files. -/
structure Ok (r : EveReader) (fs : FileSystem) : Prop where
  bounded : ∀ f, r.reader = some f → f.inode < fs.inodes.length ∧ f.pos ≤ (fs.content f.inode).length
  spool : ∀ g, r.spool = some g → SpoolFile.parse r.filename = some g
  /-- A spool file that is open is the one with this name. -/
  bound : r.spool.isSome = true → ∀ f, r.reader = some f → ∀ j,
    fs.names.lookup r.filename = some j → j = f.inode

/-- What the start of the processor leaves of a reader. -/
structure Keeps (fs : FileSystem) (r r' : EveReader) : Prop where
  ok : r.Ok fs → r'.Ok fs
  completed : r'.completedSpoolFiles = r.completedSpoolFiles

theorem Keeps.refl (fs : FileSystem) (r : EveReader) : Keeps fs r r := ⟨id, rfl⟩

theorem Keeps.trans {r' r'' : EveReader} (h : Keeps fs r r') (h' : Keeps fs r' r'') : Keeps fs r r'' :=
  ⟨fun hok => h'.ok (h.ok hok), h'.completed.trans h.completed⟩

theorem parse_path {path : String} {g : SpoolFile} (h : SpoolFile.parse path = some g) : g.path = path := by
  obtain ⟨⟨stem, timestamp⟩, -, h⟩ := Option.bind_eq_some_iff.mp h
  dsimp only at h
  split at h
  · cases h
  · obtain rfl := Option.some.inj h
    rfl

theorem mem_newerFile {self g : SpoolFile} {entries : List String} {latest : Bool}
    (h : self.newerFile entries latest = some g) :
    g ∈ entries.filterMap SpoolFile.parse ∧ g.key = self.key ∧ self.timestamp < g.timestamp := by
  -- what the rounds of the loop keep
  let Newer (next : Option SpoolFile) : Prop := ∀ g, next = some g →
    g ∈ entries.filterMap SpoolFile.parse ∧ g.key = self.key ∧ self.timestamp < g.timestamp
  have hfold : Newer (self.newerFile entries latest) := by
    unfold SpoolFile.newerFile
    refine List.foldlRecOn _ _ (motive := Newer) nofun ?_
    intro next hnext candidate hmem
    split
    · exact hnext
    · rename_i hnew
      rw [not_or, not_not, Nat.not_le] at hnew
      split
      · rintro g ⟨⟩
        exact ⟨hmem, hnew⟩
      · exact hnext
  exact hfold g h

/-- A newer spool file is an entry of the directory, of the same stream. -/
theorem newerFile_parse {self g : SpoolFile} {entries : List String} {latest : Bool}
    (h : self.newerFile entries latest = some g) :
    SpoolFile.parse g.path = some g ∧ g.path ∈ entries ∧ g.key = self.key ∧
      self.timestamp < g.timestamp := by
  obtain ⟨hmem, hrest⟩ := mem_newerFile h
  obtain ⟨path, hpath, hparse⟩ := List.mem_filterMap.mp hmem
  rw [parse_path hparse]
  exact ⟨hparse, hpath, hrest⟩

theorem switchSpoolFile_keeps {g : SpoolFile} (h : SpoolFile.parse g.path = some g) :
    Keeps fs r (r.switchSpoolFile g) := by
  refine ⟨fun _ => ⟨nofun, ?_, nofun⟩, rfl⟩
  rintro g' ⟨⟩
  exact h

theorem open_keeps (fs : FileSystem) (r : EveReader) : Keeps fs r (r.open fs).2 := by
  unfold EveReader.open
  split
  · exact .refl fs r
  · rename_i inode hinode
    refine ⟨fun hok => ⟨?_, hok.spool, ?_⟩, rfl⟩
    · rintro f ⟨⟩
      exact ⟨fs.bound _ _ hinode, Nat.zero_le _⟩
    · rintro - f ⟨⟩ j hj
      exact Option.some.inj (hj.symm.trans hinode)

theorem rest_length_le (fs : FileSystem) (file : OpenFile) :
    (first newline (fs.rest file)).length ≤ (fs.content file.inode).length - file.pos := by
  refine Nat.le_trans (first_isPrefix newline (fs.rest file)).length_le ?_
  rw [FileSystem.rest, List.length_drop]

theorem afterLine_keeps (fs : FileSystem) (h : r.reader = some file) : Keeps fs r (r.afterLine fs file) := by
  have hbounded : r.Ok fs → file.inode < fs.inodes.length ∧
      file.pos + (first newline (fs.rest file)).length ≤ (fs.content file.inode).length := by
    intro hok
    obtain ⟨hinode, hpos⟩ := hok.bounded file h
    have := rest_length_le fs file
    exact ⟨hinode, by omega⟩
  unfold afterLine
  dsimp only
  split
  · refine ⟨fun hok => ⟨?_, hok.spool, ?_⟩, rfl⟩
    · rintro f ⟨⟩
      exact hbounded hok
    · rintro hspool f ⟨⟩ j hj
      exact hok.bound hspool file h j hj
  · refine ⟨fun hok => ⟨?_, hok.spool, ?_⟩, rfl⟩
    · rintro f ⟨⟩
      exact hbounded hok
    · rintro hspool f ⟨⟩ j hj
      exact hok.bound hspool file h j hj

theorem nextLine_keeps (fs : FileSystem) (r : EveReader) : Keeps fs r (r.nextLine fs false).2 := by
  cases h : r.reader with
  | none =>
      have hnext : r.nextLine fs false = (.ok none, { r with unterminated := false }) := by
        unfold nextLine
        dsimp only
        rw [h]
      rw [hnext]
      exact ⟨fun hok => ⟨hok.bounded, hok.spool, hok.bound⟩, rfl⟩
  | some file =>
      have hline := afterLine_keeps fs h
      rcases nextLine_cases fs h with ⟨-, -, hnext⟩ | ⟨-, -, err, hnext⟩ |
        ⟨-, ⟨text, -, hnext⟩ | ⟨-, err, hnext⟩⟩
      · rw [hnext]
        exact ⟨fun hok => ⟨hok.bounded, hok.spool, hok.bound⟩, rfl⟩
      · rw [hnext]
        exact hline
      · rw [hnext]
        exact hline
      · rw [hnext]
        exact hline

/-! ## The start of a processor -/

/-- What the moves of a reader keep: opening a file, reading a line, and going to another spool file. -/
structure Closed (fs : FileSystem) (P : EveReader → Prop) : Prop where
  «open» : ∀ r, P r → P (r.open fs).2
  nextLine : ∀ r, P r → P (r.nextLine fs false).2
  switch : ∀ r g, SpoolFile.parse g.path = some g → P r → P (r.switchSpoolFile g)

section

variable {P : EveReader → Prop}

/-- What `next_line` keeps, `skip` keeps. -/
theorem skip_of_nextLine (hnextLine : ∀ r, P r → P (r.nextLine fs false).2) (lineno : ℕ) (h : P r) :
    P (skip fs lineno r).2 := by
  induction lineno generalizing r with
  | zero => exact h
  | succ lineno ih =>
      have hnext := hnextLine r h
      unfold EveReader.skip
      split <;> rename_i hcase <;> rw [hcase] at hnext
      · exact hnext
      · exact hnext
      · have hrest := ih hnext
        split <;> rename_i hcase' <;> rw [hcase'] at hrest <;> exact hrest

/-- What `next_line` keeps, `skipAll` keeps. -/
theorem skipAll_of_nextLine (hnextLine : ∀ r, P r → P (r.nextLine fs false).2) (rounds : ℕ) (h : P r) :
    P (skipAll fs rounds r).2 := by
  induction rounds generalizing r with
  | zero => exact h
  | succ rounds ih =>
      have hnext := hnextLine r h
      unfold EveReader.skipAll
      split <;> rename_i hcase <;> rw [hcase] at hnext
      · exact hnext
      · exact hnext
      · exact ih hnext

theorem Closed.skip (hP : Closed fs P) (lineno : ℕ) (h : P r) : P (skip fs lineno r).2 :=
  skip_of_nextLine hP.nextLine lineno h

theorem Closed.skipAll (hP : Closed fs P) (rounds : ℕ) (h : P r) : P (skipAll fs rounds r).2 :=
  skipAll_of_nextLine hP.nextLine rounds h

theorem Closed.gotoLineno (hP : Closed fs P) (lineno : ℕ) (h : P r) : P (r.gotoLineno fs lineno).2 := by
  unfold EveReader.gotoLineno
  split
  · have hopen := hP.open r h
    split <;> rename_i hcase <;> rw [hcase] at hopen
    · exact hopen
    · exact hP.skip lineno hopen
  · exact hP.skip lineno h

theorem Closed.gotoEnd (hP : Closed fs P) (h : P r) : P (r.gotoEnd fs).2 := by
  have hswitch : P ((r.spool.bind (·.latest fs.entries)).elim r r.switchSpoolFile) := by
    cases hlatest : r.spool.bind (·.latest fs.entries) with
    | none => exact h
    | some g =>
        obtain ⟨f, -, hg⟩ := Option.bind_eq_some_iff.mp hlatest
        exact hP.switch r g (newerFile_parse hg).1 h
  unfold EveReader.gotoEnd
  dsimp only
  revert hswitch
  generalize (r.spool.bind (·.latest fs.entries)).elim r r.switchSpoolFile = r'
  intro hswitch
  split
  · have hopen := hP.open r' hswitch
    split <;> rename_i hcase <;> rw [hcase] at hopen
    · exact hopen
    · exact hP.skipAll _ hopen
  · exact hP.skipAll _ hswitch

theorem Closed.selectBookmark (hP : Closed fs P) (filename : String) (h : P r) :
    P (r.selectBookmark filename).2 := by
  unfold EveReader.selectBookmark
  split
  · exact h
  · split
    · exact h
    · rename_i bookmarked hparse
      split
      · exact h
      · apply hP.switch r bookmarked ?_ h
        rw [parse_path hparse]
        exact hparse

end

theorem closed_keeps (fs : FileSystem) (r : EveReader) : Closed fs (Keeps fs r) :=
  ⟨fun r' h => h.trans (open_keeps fs r'), fun r' h => h.trans (nextLine_keeps fs r'),
    fun _ _ hparse h => h.trans (switchSpoolFile_keeps hparse)⟩

end EveReader

end EveBox.Eve
