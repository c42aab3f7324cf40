import EveBox.Eve.ProcessorTheorems

/-!
# Restarting from a bookmark

A bookmark counts the lines that the reader has taken as text. `skip` counts them again, but stops at the
first line that is no text; then the processor goes on there, or from the end of the file. `Resumable` says
when it all the same delivers what had not been read. `LinedInv` says what the line number of a bookmark
counts.
-/

namespace EveBox.Eve

open Rust Lines Transition

variable {V : Type*} {parsing : Parsing V}

/-! ## Skipping lines -/

/-- What `skip` leaves of the lines, and whether it gets there. -/
def skipped : ℕ → List Bytes → Bool × List Bytes
  | 0, ls => (true, ls)
  | _ + 1, [] => (true, [])
  | n + 1, line :: ls => if decodes line then skipped n ls else (false, ls)

/-- What `skipAll` leaves of the lines: what follows the first that is no text. -/
def afterError (ls : List Bytes) : List Bytes := (ls.dropWhile decodes).tail

/-- The lines that a restarted processor has before it. -/
def resumeLines (atEnd : Bool) (offset : ℕ) (ls : List Bytes) : List Bytes :=
  let (valid, rest) := skipped offset ls
  if !valid && atEnd then afterError rest else rest

theorem resumeLines_eq (atEnd : Bool) (offset : ℕ) (ls : List Bytes) :
    resumeLines atEnd offset ls =
      if !(skipped offset ls).1 && atEnd then afterError (skipped offset ls).2 else (skipped offset ls).2 :=
  rfl

/-- When a restart delivers exactly what had not been read. Either no text follows the first line that is no
text, among those that had been read; or there is no record among the lines between the place where the
restarted processor begins and the bookmark. -/
def Resumable (parsing : Parsing V) (atEnd : Bool) (read unread : List Bytes) : Prop :=
  let bad := read.dropWhile decodes
  (∀ line ∈ bad, decodes line = false) ∨
    if atEnd then
      if bad.tail.all decodes then ∀ line ∈ unread.takeWhile decodes, parsing.event line = none
      else ∀ line ∈ bad.tail.dropWhile decodes, parsing.event line = none
    else ∀ line ∈ bad, parsing.event line = none

/-- A line that is no text makes no event. -/
theorem Parsing.event_of_not_decodes {line : Bytes} (h : decodes line = false) :
    parsing.event line = none := by
  rw [decodes, Option.isSome_eq_false_iff, Option.isNone_iff_eq_none] at h
  rw [Parsing.event, lineRecord, h]
  rfl

theorem filterMap_eq_nil_of_not_decodes {ls : List Bytes} (h : ∀ line ∈ ls, decodes line = false) :
    ls.filterMap parsing.event = [] :=
  List.filterMap_eq_nil_iff.mpr fun line hline => Parsing.event_of_not_decodes (h line hline)

/-- Lines in front of others add nothing exactly when there is no event among them. -/
theorem filterMap_append_eq_right {ls rest : List Bytes} :
    (ls ++ rest).filterMap parsing.event = rest.filterMap parsing.event ↔
      ∀ line ∈ ls, parsing.event line = none := by
  rw [List.filterMap_append, ← List.filterMap_eq_nil_iff]
  exact ⟨fun h => List.append_left_eq_self.mp h, fun h => by rw [h, List.nil_append]⟩

/-- Over lines that are text, `skip` counts. -/
theorem skipped_append {good : List Bytes} (h : ∀ line ∈ good, decodes line = true) (n : ℕ)
    (ls : List Bytes) : skipped (good.length + n) (good ++ ls) = skipped n ls := by
  induction good with
  | nil => rw [List.length_nil, Nat.zero_add, List.nil_append]
  | cons line good ih =>
      rw [List.forall_mem_cons] at h
      rw [List.length_cons, Nat.add_right_comm, List.cons_append]
      conv_lhs => unfold skipped
      rw [if_pos h.1, ih h.2]

/-- Either all the lines are text, or there is a first that is not. -/
theorem text_or_first_bad (ls : List Bytes) : (∀ line ∈ ls, decodes line = true) ∨
    ∃ good bad rest, ls = good ++ bad :: rest ∧ (∀ line ∈ good, decodes line = true) ∧
      decodes bad = false := by
  induction ls with
  | nil => exact Or.inl fun _ h => absurd h List.not_mem_nil
  | cons line ls ih =>
      by_cases hline : decodes line = true
      · rcases ih with hall | ⟨good, bad, rest, rfl, hgood, hbad⟩
        · exact Or.inl (List.forall_mem_cons.mpr ⟨hline, hall⟩)
        · exact Or.inr ⟨line :: good, bad, rest, rfl, List.forall_mem_cons.mpr ⟨hline, hgood⟩, hbad⟩
      · exact Or.inr ⟨[], line, ls, rfl, fun _ h => absurd h List.not_mem_nil, Bool.eq_false_of_not_eq_true hline⟩

theorem dropWhile_text {ls : List Bytes} (h : ∀ line ∈ ls, decodes line = true) (rest : List Bytes) :
    (ls ++ rest).dropWhile decodes = rest.dropWhile decodes := List.dropWhile_append_of_pos h

theorem dropWhile_all {ls : List Bytes} (h : ∀ line ∈ ls, decodes line = true) :
    ls.dropWhile decodes = [] := by
  have hdrop := dropWhile_text h []
  rw [List.append_nil] at hdrop
  exact hdrop

theorem dropWhile_bad {good rest : List Bytes} {bad : Bytes} (hgood : ∀ line ∈ good, decodes line = true)
    (hbad : decodes bad = false) : (good ++ bad :: rest).dropWhile decodes = bad :: rest := by
  rw [dropWhile_text hgood, List.dropWhile_cons_of_neg (by rw [hbad]; nofun)]

/-- Skipping to the end, over what had been read and what had not. -/
theorem afterError_append_iff {ls unread : List Bytes} :
    (afterError (ls ++ unread)).filterMap parsing.event = unread.filterMap parsing.event ↔
      if ls.all decodes then ∀ line ∈ unread.takeWhile decodes, parsing.event line = none
      else ∀ line ∈ ls.dropWhile decodes, parsing.event line = none := by
  rcases text_or_first_bad ls with hall | ⟨good, bad, rest, rfl, hgood, hbad⟩
  · rw [if_pos (List.all_eq_true.mpr hall), afterError, dropWhile_text hall]
    have htail : (unread.dropWhile decodes).tail.filterMap parsing.event =
        (unread.dropWhile decodes).filterMap parsing.event := by
      rcases text_or_first_bad unread with hall | ⟨good, bad, rest, rfl, hgood, hbad⟩
      · rw [dropWhile_all hall]
        rfl
      · rw [dropWhile_bad hgood hbad, List.filterMap_cons_none (Parsing.event_of_not_decodes hbad)]
        rfl
    have hsplit := @filterMap_append_eq_right V parsing (unread.takeWhile decodes) (unread.dropWhile decodes)
    rw [List.takeWhile_append_dropWhile] at hsplit
    rw [htail, ← hsplit, eq_comm]
  · have hnot : ¬(good ++ bad :: rest).all decodes = true := by
      intro hall
      have := List.all_eq_true.mp hall bad (List.mem_append_right _ List.mem_cons_self)
      rw [hbad] at this
      cases this
    rw [if_neg hnot, afterError, List.append_assoc, List.cons_append, dropWhile_bad hgood hbad,
      dropWhile_bad hgood hbad, List.tail_cons, filterMap_append_eq_right, List.forall_mem_cons]
    exact ⟨fun h => ⟨Parsing.event_of_not_decodes hbad, h⟩, fun h => h.2⟩

/-- Where a restarted processor begins, and what had not been read. -/
theorem resumeLines_iff {atEnd : Bool} {read unread : List Bytes} :
    (resumeLines atEnd (read.countP decodes) (read ++ unread)).filterMap parsing.event =
        unread.filterMap parsing.event ↔ Resumable parsing atEnd read unread := by
  unfold resumeLines Resumable
  rcases text_or_first_bad read with hall | ⟨good, bad, rest, rfl, hgood, hbad⟩
  · rw [List.countP_eq_length.mpr hall, dropWhile_all hall]
    have hskip := skipped_append hall 0 unread
    rw [Nat.add_zero] at hskip
    rw [hskip]
    exact iff_of_true rfl (Or.inl fun _ h => absurd h List.not_mem_nil)
  · have hcount : (good ++ bad :: rest).countP decodes = good.length + rest.countP decodes := by
      rw [List.countP_append, List.countP_eq_length.mpr hgood, List.countP_cons_of_neg (by rw [hbad]; nofun)]
    rw [hcount, List.append_assoc, List.cons_append, skipped_append hgood, dropWhile_bad hgood hbad]
    by_cases hzero : ∀ line ∈ rest, decodes line = false
    · -- `skip` stops before the first line that is no text
      have hbads : ∀ line ∈ bad :: rest, decodes line = false := List.forall_mem_cons.mpr ⟨hbad, hzero⟩
      have hnone : rest.countP decodes = 0 := by
        rw [List.countP_eq_zero]
        intro line hline
        rw [hzero line hline]
        nofun
      rw [hnone, skipped]
      refine iff_of_true ?_ (Or.inl hbads)
      show (bad :: (rest ++ unread)).filterMap parsing.event = _
      rw [← List.cons_append, List.filterMap_append, filterMap_eq_nil_of_not_decodes hbads, List.nil_append]
    · obtain ⟨n, hn⟩ : ∃ n, rest.countP decodes = n + 1 := by
        refine Nat.exists_eq_succ_of_ne_zero fun hnone => hzero ?_
        intro line hline
        exact Bool.eq_false_of_not_eq_true (List.countP_eq_zero.mp hnone line hline)
      have hskip : skipped (rest.countP decodes) (bad :: (rest ++ unread)) = (false, rest ++ unread) := by
        rw [hn, skipped, if_neg (by rw [hbad]; nofun)]
      have hleft : ¬∀ line ∈ bad :: rest, decodes line = false := fun h => hzero (List.forall_mem_cons.mp h).2
      rw [hskip, or_iff_right hleft]
      cases atEnd with
      | true => exact afterError_append_iff
      | false =>
          show (rest ++ unread).filterMap parsing.event = _ ↔ ∀ line ∈ bad :: rest, parsing.event line = none
          rw [filterMap_append_eq_right, List.forall_mem_cons]
          exact ⟨fun h => ⟨Parsing.event_of_not_decodes hbad, h⟩, fun h => h.2⟩

/-! ## Positions between lines -/

/-- The file does not end in a piece of a line that is no text. -/
def FileSystem.Whole (fs : FileSystem) (inode : ℕ) : Prop :=
  decodes (tail newline (fs.content inode)) = true

instance (fs : FileSystem) (inode : ℕ) : Decidable (fs.Whole inode) :=
  inferInstanceAs (Decidable (_ = true))

/-- The reader stands between two lines of its file, and its line number counts the text lines before. -/
def EveReader.Lined (fs : FileSystem) (r : EveReader) : Prop := ∀ f, r.reader = some f →
  f.inode < fs.inodes.length ∧ f.pos ≤ (fs.content f.inode).length ∧
    tail newline ((fs.content f.inode).take f.pos) = [] ∧
      r.lineno = (lines newline ((fs.content f.inode).take f.pos)).countP decodes

section

variable {fs : FileSystem} {r : EveReader} {file : OpenFile}

/-- Before and after a position between two lines. -/
theorem lines_of_boundary {content : Bytes} {pos : ℕ} (h : tail newline (content.take pos) = []) :
    lines newline content = lines newline (content.take pos) ++ lines newline (content.drop pos) ∧
      tail newline content = tail newline (content.drop pos) := by
  have hlines := lines_append_of_tail h (content.drop pos)
  rw [List.take_append_drop] at hlines
  exact hlines

/-- A reader between two lines never meets a piece of a line that is no text. -/
theorem EveReader.Lined.rest_decodes (h : r.Lined fs) (hwhole : fs.Whole file.inode)
    (hfile : r.reader = some file) (hmem : newline ∉ fs.rest file) : decodes (fs.rest file) = true := by
  obtain ⟨-, -, htail, -⟩ := h file hfile
  rw [FileSystem.Whole, (lines_of_boundary htail).2] at hwhole
  rw [FileSystem.rest] at hmem ⊢
  rw [tail_of_not_mem hmem] at hwhole
  exact hwhole

/-- The text up to the end of the next line. -/
theorem take_advance (fs : FileSystem) (file : OpenFile) :
    (fs.content file.inode).take (file.advance (first newline (fs.rest file)).length).pos =
      (fs.content file.inode).take file.pos ++ first newline (fs.rest file) := by
  show (fs.content file.inode).take (file.pos + (first newline (fs.rest file)).length) = _
  rw [List.take_add]
  congr 1
  exact (List.prefix_iff_eq_take.mp (first_isPrefix newline (fs.rest file))).symm

theorem rest_advance (fs : FileSystem) (file : OpenFile) :
    fs.rest (file.advance (first newline (fs.rest file)).length) =
      (fs.rest file).drop (first newline (fs.rest file)).length := by
  show (fs.content file.inode).drop (file.pos + (first newline (fs.rest file)).length) = _
  rw [← List.drop_drop]
  rfl

theorem EveReader.Lined.afterLine (h : r.Lined fs) (hfile : r.reader = some file)
    (hmem : newline ∈ fs.rest file) : (r.afterLine fs file).Lined fs := by
  intro f hf
  rw [EveReader.afterLine_reader] at hf
  obtain rfl := Option.some.inj hf
  obtain ⟨hinode, hpos, htail, hlineno⟩ := h file hfile
  have hline := isLine_first hmem
  have hlength := EveReader.rest_length_le fs file
  have hlines := (hline.lines_append []).1
  rw [List.append_nil, lines_nil] at hlines
  have htake := take_advance fs file
  refine ⟨hinode, ?_, ?_, ?_⟩
  · show file.pos + _ ≤ (fs.content file.inode).length
    omega
  · show tail newline ((fs.content file.inode).take _) = []
    rw [htake]
    exact tail_append_line htail hline
  · show _ = (lines newline ((fs.content file.inode).take _)).countP decodes
    rw [htake, (lines_append_of_tail htail _).1, hlines, List.countP_append, ← hlineno]
    unfold EveReader.afterLine
    dsimp only
    split <;> rename_i hdecodes
    · rw [List.countP_singleton, if_pos hdecodes]
    · rw [List.countP_singleton, if_neg hdecodes]
      rfl

/-- The reader has no open file that ends in a piece of a line that is no text. -/
def EveReader.ReadsText (r : EveReader) (fs : FileSystem) : Prop := ∀ f ∈ r.reader, fs.Whole f.inode

theorem EveReader.ReadsText.afterLine (h : r.ReadsText fs) (hfile : r.reader = some file) :
    (r.afterLine fs file).ReadsText fs := by
  intro f hf
  rw [EveReader.afterLine_reader] at hf
  obtain rfl := Option.some.inj hf
  exact h file hfile

theorem EveReader.Lined.open (h : r.Lined fs) : (r.open fs).2.Lined fs := by
  unfold EveReader.open
  split
  · exact h
  · rename_i inode hinode
    intro f hf
    obtain rfl := Option.some.inj hf
    exact ⟨fs.bound _ _ hinode, Nat.zero_le _, rfl, rfl⟩

theorem EveReader.Lined.of_eq {r' : EveReader} (h : r.Lined fs) (hreader : r'.reader = r.reader)
    (hlineno : r'.lineno = r.lineno) : r'.Lined fs := by
  intro f hf
  rw [hreader] at hf
  rw [hlineno]
  exact h f hf

theorem EveReader.Lined.nextLine (h : r.Lined fs) (htext : r.ReadsText fs) :
    (r.nextLine fs false).2.Lined fs ∧ (r.nextLine fs false).2.ReadsText fs := by
  cases hfile : r.reader with
  | none =>
      have hnext : r.nextLine fs false = (.ok none, { r with unterminated := false }) := by
        unfold EveReader.nextLine
        dsimp only
        rw [hfile]
      rw [hnext]
      exact ⟨h.of_eq rfl rfl, htext⟩
  | some file =>
      rcases EveReader.nextLine_cases fs hfile with ⟨-, -, hnext⟩ | ⟨hmem, htorn, -⟩ |
        ⟨hmem, ⟨text, -, hnext⟩ | ⟨-, err, hnext⟩⟩
      · rw [hnext]
        exact ⟨h.of_eq rfl rfl, htext⟩
      · rw [h.rest_decodes (htext file hfile) hfile hmem] at htorn
        cases htorn
      · rw [hnext]
        exact ⟨h.afterLine hfile hmem, htext.afterLine hfile⟩
      · rw [hnext]
        exact ⟨h.afterLine hfile hmem, htext.afterLine hfile⟩

theorem EveReader.closed_lined (hfs : ∀ name inode, fs.names.lookup name = some inode → fs.Whole inode) :
    EveReader.Closed fs fun r => r.Lined fs ∧ r.ReadsText fs := by
  constructor
  · rintro r ⟨h, htext⟩
    refine ⟨h.open, ?_⟩
    unfold EveReader.open
    split
    · exact htext
    · rename_i inode hinode
      intro f hf
      obtain rfl := Option.some.inj hf
      exact hfs _ _ hinode
  · exact fun r h => h.1.nextLine h.2
  · exact fun r g _ _ => ⟨nofun, nofun⟩

/-- `skip`, on the lines before the reader. -/
theorem EveReader.Lined.skip (n : ℕ) (h : r.Lined fs) (htext : r.ReadsText fs) (hfile : r.reader = some file) :
    ∃ file', (EveReader.skip fs n r).2.reader = some file' ∧ file'.inode = file.inode ∧
      (∀ err, (EveReader.skip fs n r).1 = .error err → (skipped n (lines newline (fs.rest file))).1 = false) ∧
      (∀ count, (EveReader.skip fs n r).1 = .ok count → (skipped n (lines newline (fs.rest file))).1 = true) ∧
      lines newline (fs.rest file') = (skipped n (lines newline (fs.rest file))).2 := by
  induction n generalizing r file with
  | zero => exact ⟨file, hfile, rfl, nofun, fun _ _ => rfl, rfl⟩
  | succ n ih =>
      rcases EveReader.nextLine_cases fs hfile with ⟨hmem, -, hnext⟩ | ⟨hmem, htorn, -⟩ |
        ⟨hmem, ⟨text, hdecode, hnext⟩ | ⟨hdecode, err, hnext⟩⟩
      · rw [EveReader.skip, hnext, lines_of_not_mem hmem]
        exact ⟨file, hfile, rfl, nofun, fun _ _ => rfl, lines_of_not_mem hmem⟩
      · rw [h.rest_decodes (htext file hfile) hfile hmem] at htorn
        cases htorn
      · obtain ⟨file', hfile', hinode, herror, hok, hlines⟩ :=
          ih (h.afterLine hfile hmem) (htext.afterLine hfile) (EveReader.afterLine_reader r fs file)
        have hdecodes : decodes (first newline (fs.rest file)) = true := by
          rw [decodes, hdecode]
          rfl
        rw [rest_advance] at herror hok hlines
        rw [lines_of_mem hmem, skipped, if_pos hdecodes, EveReader.skip, hnext]
        refine ⟨file', ?_, hinode, ?_, ?_, hlines⟩
        · dsimp only
          split <;> rename_i hcase <;> rw [hcase] at hfile' <;> exact hfile'
        · intro err herr
          dsimp only at herr
          split at herr <;> rename_i hcase
          · exact herror _ (by rw [hcase])
          · cases herr
        · intro count hcount
          dsimp only at hcount
          split at hcount <;> rename_i hcase
          · cases hcount
          · exact hok _ (by rw [hcase])
      · rw [lines_of_mem hmem, skipped, if_neg (by rw [hdecode]; nofun), EveReader.skip, hnext]
        refine ⟨_, EveReader.afterLine_reader r fs file, rfl, fun _ _ => rfl, nofun, ?_⟩
        rw [rest_advance]

/-- `skipAll`, on the lines before the reader. -/
theorem EveReader.Lined.skipAll (rounds : ℕ) (h : r.Lined fs) (htext : r.ReadsText fs)
    (hfile : r.reader = some file) (hrounds : (lines newline (fs.rest file)).length < rounds) :
    ∃ file', (EveReader.skipAll fs rounds r).2.reader = some file' ∧ file'.inode = file.inode ∧
      lines newline (fs.rest file') = afterError (lines newline (fs.rest file)) := by
  induction rounds generalizing r file with
  | zero => exact absurd hrounds (Nat.not_lt_zero _)
  | succ rounds ih =>
      rcases EveReader.nextLine_cases fs hfile with ⟨hmem, -, hnext⟩ | ⟨hmem, htorn, -⟩ |
        ⟨hmem, ⟨text, hdecode, hnext⟩ | ⟨hdecode, err, hnext⟩⟩
      · rw [EveReader.skipAll, hnext, lines_of_not_mem hmem]
        exact ⟨file, hfile, rfl, lines_of_not_mem hmem⟩
      · rw [h.rest_decodes (htext file hfile) hfile hmem] at htorn
        cases htorn
      · have hdecodes : decodes (first newline (fs.rest file)) = true := by
          rw [decodes, hdecode]
          rfl
        rw [lines_of_mem hmem, List.length_cons] at hrounds
        obtain ⟨file', hfile', hinode, hlines⟩ :=
          ih (h.afterLine hfile hmem) (htext.afterLine hfile) (EveReader.afterLine_reader r fs file)
            (by rw [rest_advance]; omega)
        rw [rest_advance] at hlines
        rw [lines_of_mem hmem, afterError, List.dropWhile_cons_of_pos hdecodes, EveReader.skipAll, hnext]
        exact ⟨file', hfile', hinode, hlines⟩
      · rw [lines_of_mem hmem, afterError, List.dropWhile_cons_of_neg (by rw [hdecode]; rintro ⟨⟩),
          EveReader.skipAll, hnext]
        refine ⟨_, EveReader.afterLine_reader r fs file, rfl, ?_⟩
        rw [rest_advance]
        rfl

end

/-! ## The run that writes the bookmark -/

section

variable {s s' : System V}

/-- When the reader looks at a file, that does not end in a piece of a line that is no text. -/
def System.ReadsText (s : System V) : SystemOp → Prop
  | .start => ∀ name ∈ s.fs.entries, ∀ inode ∈ s.fs.names.lookup name, s.fs.Whole inode
  | .poll _ => (s.processor.reader.opened s.fs).ReadsText s.fs
  | _ => True

instance (s : System V) : ∀ op, Decidable (s.ReadsText op)
  | .start => inferInstanceAs (Decidable (∀ name ∈ s.fs.entries, ∀ inode ∈ s.fs.names.lookup name, _))
  | .poll _ => inferInstanceAs (Decidable (∀ f ∈ (s.processor.reader.opened s.fs).reader, _))
  | .append _ _ | .create _ | .remove _ | .look _ | .noRecord _ | .check | .reopen | .commit _ => isTrue trivial

theorem System.ReadsText.whole (h : s.ReadsText .start) (name : String) (inode : ℕ)
    (hinode : s.fs.names.lookup name = some inode) : s.fs.Whole inode := by
  refine h name ?_ inode hinode
  rw [FileSystem.entries, ← AList.mem_keys, ← AList.lookup_isSome, hinode]
  rfl

/-- The reader of the processor stands between two lines. -/
def System.Lined (s : System V) : Prop := s.processor.reader.Lined s.fs

/-- Files grow, and there are more of them. -/
theorem EveReader.Lined.grow {fs fs' : FileSystem} {r : EveReader} (h : r.Lined fs)
    (hlength : fs.inodes.length ≤ fs'.inodes.length) (hcontent : ∀ j, fs.content j <+: fs'.content j) :
    r.Lined fs' := by
  intro f hf
  obtain ⟨hinode, hpos, htail, hlineno⟩ := h f hf
  obtain ⟨more, hmore⟩ := hcontent f.inode
  have htake : (fs'.content f.inode).take f.pos = (fs.content f.inode).take f.pos := by
    rw [← hmore, List.take_append_of_le_length hpos]
  rw [htake]
  exact ⟨Nat.lt_of_lt_of_le hinode hlength, Nat.le_trans hpos (hcontent f.inode).length_le, htail, hlineno⟩

theorem System.checkpoint_files (s : System V) (write : BookmarkWrite) :
    (s.checkpoint write).fs.inodes = s.fs.inodes ∧
      (s.checkpoint write).processor.reader.reader = s.processor.reader.reader ∧
      (s.checkpoint write).processor.reader.lineno = s.processor.reader.lineno := by
  unfold System.checkpoint
  split
  · split
    · exact ⟨FileSystem.inodes_removed _ _, rfl, rfl⟩
    · exact ⟨rfl, rfl, rfl⟩
    · exact ⟨rfl, rfl, rfl⟩
  · exact ⟨rfl, rfl, rfl⟩

theorem System.Lined.checkpoint (h : s.Lined) (write : BookmarkWrite) : (s.checkpoint write).Lined := by
  obtain ⟨hinodes, hreader, hlineno⟩ := s.checkpoint_files write
  have hcontent : ∀ j, s.fs.content j = (s.checkpoint write).fs.content j := by
    intro j
    rw [FileSystem.content, FileSystem.content, hinodes]
  apply EveReader.Lined.of_eq ?_ hreader hlineno
  apply EveReader.Lined.grow h
  · rw [hinodes]
  · intro j
    simp only [hcontent, List.prefix_refl]

theorem System.Lined.withPhase (h : s.Lined) (phase : ProcessorPhase) : (s.withPhase phase).Lined := h

theorem System.Lined.afterEof (h : s.Lined) : s.afterEof.Lined := h

theorem System.Lined.start (h : s.Lined) (hfresh : s.processor.phase = .starting → s.processor.reader.reader = none)
    (htext : s.ReadsText .start) (hstart : s.start = some s') : s'.Lined := by
  obtain ⟨hphase, rfl⟩ := System.start_some hstart
  have hclosed := EveReader.closed_lined htext.whole
  refine (hclosed.startReader ⟨h, ?_⟩).1
  intro f hf
  rw [hfresh hphase] at hf
  cases hf

theorem System.Lined.poll (h : s.Lined) {answer : Option Bool} (htext : s.ReadsText (.poll answer))
    (hpoll : s.poll parsing answer = some s') : s'.Lined := by
  have hopened : (s.processor.reader.opened s.fs).Lined s.fs := by
    unfold EveReader.opened
    split
    · exact EveReader.Lined.open h
    · exact h
  unfold System.poll at hpoll
  split at hpoll
  · rcases EveReader.pollLine_cases parsing.fromStr s.processor.reader s.fs with
      ⟨-, err, hline⟩ | ⟨file, hfile, hline⟩
    · rw [hline] at hpoll
      obtain rfl := Option.some.inj hpoll
      exact hopened
    · rw [hline] at hpoll
      rcases EveReader.pollOpen_cases parsing.fromStr s.fs hfile with ⟨-, -, hopen⟩ |
        ⟨hmem, htorn, -⟩ | ⟨hmem, ⟨record, -, hopen⟩ | ⟨-, hopen | ⟨err, hopen⟩⟩⟩
      · rw [hopen] at hpoll
        obtain rfl := Option.some.inj hpoll
        exact hopened.of_eq rfl rfl
      · rw [hopened.rest_decodes (htext file hfile) hfile hmem] at htorn
        cases htorn
      · rw [hopen] at hpoll
        have hafter := hopened.afterLine hfile hmem
        cases answer <;> obtain rfl := Option.some.inj hpoll <;> exact hafter
      · rw [hopen] at hpoll
        obtain rfl := Option.some.inj hpoll
        exact hopened.afterLine hfile hmem
      · rw [hopen] at hpoll
        obtain rfl := Option.some.inj hpoll
        exact hopened.afterLine hfile hmem
  · cases hpoll

theorem System.Lined.look (h : s.Lined) {readable : Bool} (hlook : s.look readable = some s') : s'.Lined := by
  unfold System.look at hlook
  split at hlook
  · split at hlook
    · obtain rfl := Option.some.inj hlook
      exact h
    · split at hlook
      · rename_i reader hadvance
        obtain rfl := Option.some.inj hlook
        obtain ⟨next, -, rfl⟩ := Option.map_eq_some_iff.mp hadvance
        -- the next file is not open yet
        dsimp only
        split <;> exact nofun
      · obtain rfl := Option.some.inj hlook
        exact h
  · cases hlook

theorem System.Lined.noRecord (h : s.Lined) {write : BookmarkWrite} (hnone : s.noRecord write = some s') :
    s'.Lined := by
  unfold System.noRecord at hnone
  split at hnone
  · split at hnone
    · obtain rfl := Option.some.inj hnone
      exact h
    · obtain rfl := Option.some.inj hnone
      have hnext : ∀ t : System V, t.Lined →
          (if t.processor.oneshot then t.afterEof else t.withPhase .checking).Lined := by
        intro t ht
        split
        · exact ht.afterEof
        · exact ht.withPhase .checking
      by_cases hcompleted : s.processor.reader.hasCompletedSpoolFiles = true
      · rw [if_pos hcompleted]
        exact hnext _ (h.checkpoint write)
      · rw [if_neg hcompleted]
        exact hnext s h
  · cases hnone

theorem System.Lined.reopen (h : s.Lined) (hreopen : s.reopen = some s') : s'.Lined := by
  unfold System.reopen at hreopen
  split at hreopen
  · obtain rfl := Option.some.inj hreopen
    have hopen : (s.processor.reader.open s.fs).2.Lined s.fs := EveReader.Lined.open h
    have hreopened : (s.processor.reader.reopen s.fs).2.Lined s.fs := by
      unfold EveReader.reopen
      split <;> rename_i hcase <;> rw [hcase] at hopen
      · exact nofun
      · exact hopen
    exact hreopened
  · cases hreopen

theorem System.Lined.commit (h : s.Lined) {result : Option BookmarkWrite}
    (hcommit : s.commit result = some s') : s'.Lined := by
  unfold System.commit at hcommit
  split at hcommit
  · obtain rfl := Option.some.inj hcommit
    exact h
  · rename_i eof write hphase
    obtain rfl := Option.some.inj hcommit
    have hstore : s.store.Lined := h
    have hafter := hstore.checkpoint write
    show (if eof then (s.store.checkpoint write).afterEof
      else (s.store.checkpoint write).withPhase .reading).Lined
    split
    · exact hafter.afterEof
    · exact hafter.withPhase .reading
  · cases hcommit

/-- A step of the processor leads to its loop, or to where it stops. -/
theorem System.step_ne_starting {op : SystemOp} (hop : op.ofProcessor = true)
    (h : s.step parsing op = some s') : s'.processor.phase ≠ .starting := by
  have hafter : ∀ t : System V, t.afterEof.processor.phase ≠ .starting := by
    intro t
    unfold System.afterEof
    split <;> rintro ⟨⟩
  cases op with
  | append inode bytes => cases hop
  | create name => cases hop
  | remove name => cases hop
  | start =>
      obtain ⟨-, rfl⟩ := System.start_some h
      rintro ⟨⟩
  | poll answer =>
      simp only [System.step, System.poll] at h
      split at h
      · rename_i hphase
        have hsame : ∀ r, (s.withReader r).processor.phase ≠ .starting := by
          intro r
          show s.processor.phase ≠ _
          rw [hphase]
          rintro ⟨⟩
        split at h <;> obtain rfl := Option.some.inj h
        · unfold System.submit
          split
          · rintro ⟨⟩
          · dsimp only
            split <;> rintro ⟨⟩
        · exact hsame _
        · exact hsame _
        · rintro ⟨⟩
      · cases h
  | look readable =>
      simp only [System.step, System.look] at h
      split at h
      · split at h
        · obtain rfl := Option.some.inj h
          rintro ⟨⟩
        · split at h <;> obtain rfl := Option.some.inj h <;> rintro ⟨⟩
      · cases h
  | noRecord write =>
      simp only [System.step, System.noRecord] at h
      split at h
      · split at h <;> obtain rfl := Option.some.inj h
        · rintro ⟨⟩
        · generalize (if s.processor.reader.hasCompletedSpoolFiles then s.checkpoint write else s) = t
          show (if t.processor.oneshot then t.afterEof else t.withPhase .checking).processor.phase ≠ _
          split
          · exact hafter t
          · rintro ⟨⟩
      · cases h
  | check =>
      simp only [System.step, System.check] at h
      split at h
      · split at h <;> obtain rfl := Option.some.inj h
        · rintro ⟨⟩
        · exact hafter _
      · cases h
  | reopen =>
      simp only [System.step, System.reopen] at h
      split at h
      · obtain rfl := Option.some.inj h
        exact hafter _
      · cases h
  | commit result =>
      simp only [System.step, System.commit] at h
      split at h
      · rename_i hphase
        obtain rfl := Option.some.inj h
        rw [hphase]
        rintro ⟨⟩
      · obtain rfl := Option.some.inj h
        split
        · exact hafter _
        · rintro ⟨⟩
      · cases h

/-- The invariant of a run whose reader only meets text. -/
structure LinedInv (s : System V) : Prop where
  lined : s.Lined
  fresh : s.processor.phase = .starting → s.processor.reader.reader = none

theorem LinedInv.step (inv : LinedInv s) {op : SystemOp} (htext : s.ReadsText op)
    (h : s.step parsing op = some s') : LinedInv s' := by
  have hfresh : op.ofProcessor = true →
      s'.processor.phase = .starting → s'.processor.reader.reader = none :=
    fun hop hphase => absurd hphase (System.step_ne_starting hop h)
  cases op with
  | append inode bytes =>
      obtain rfl := Option.some.inj h
      refine ⟨inv.lined.grow ?_ fun j => FileSystem.content_append_isPrefix inode j bytes, inv.fresh⟩
      rw [FileSystem.append, List.length_modify]
  | create name =>
      obtain rfl := Option.some.inj h
      refine ⟨inv.lined.grow ?_ fun j => ?_, inv.fresh⟩
      · rw [FileSystem.create, List.length_append]
        omega
      · simp only [FileSystem.content_create, List.prefix_refl]
  | remove name =>
      obtain rfl := Option.some.inj h
      exact ⟨inv.lined, inv.fresh⟩
  | start => exact ⟨inv.lined.start inv.fresh htext h, hfresh rfl⟩
  | poll answer => exact ⟨inv.lined.poll htext h, hfresh rfl⟩
  | look readable => exact ⟨inv.lined.look h, hfresh rfl⟩
  | noRecord write => exact ⟨inv.lined.noRecord h, hfresh rfl⟩
  | check =>
      refine ⟨?_, hfresh rfl⟩
      simp only [System.step, System.check] at h
      split at h
      · split at h <;> obtain rfl := Option.some.inj h
        · exact inv.lined.withPhase .reopening
        · exact inv.lined.afterEof
      · cases h
  | reopen => exact ⟨inv.lined.reopen h, hfresh rfl⟩
  | commit result => exact ⟨inv.lined.commit h, hfresh rfl⟩

/-- The bookmark that a step writes names the open file. -/
theorem System.bookmark_of_writes {op : SystemOp} (hwrites : s.writesBookmark op = true)
    (h : s.step parsing op = some s') : ∃ file, s'.processor.reader.reader = some file ∧
      s'.bookmark = some ⟨s'.processor.reader.filename, s'.processor.reader.lineno,
        (s'.fs.content file.inode).length, file.inode⟩ := by
  -- the step is a checkpoint, and goes to another phase
  obtain ⟨t, write, phase, hcheckpoints, rfl⟩ : ∃ (t : System V) (write : BookmarkWrite)
      (phase : ProcessorPhase), t.checkpoints write = true ∧ s' = (t.checkpoint write).withPhase phase := by
    unfold System.writesBookmark at hwrites
    split at hwrites
    · rename_i write
      simp only [Bool.and_eq_true, List.isEmpty_iff] at hwrites
      obtain ⟨⟨hqueue, hcompleted⟩, hcheckpoints⟩ := hwrites
      simp only [System.step, System.noRecord] at h
      split at h
      · rw [if_neg (not_not.mpr hqueue), if_pos hcompleted] at h
        obtain rfl := Option.some.inj h
        split
        · exact ⟨s, write, _, hcheckpoints, rfl⟩
        · exact ⟨s, write, _, hcheckpoints, rfl⟩
      · cases h
    · rename_i write
      simp only [System.step, System.commit] at h
      split at h
      · rename_i hnone
        cases hnone
      · rename_i hresult
        obtain rfl := Option.some.inj hresult
        obtain rfl := Option.some.inj h
        split
        · exact ⟨s.store, write, _, hwrites, rfl⟩
        · exact ⟨s.store, write, _, hwrites, rfl⟩
      · cases h
    · cases hwrites
  obtain ⟨-, -, b, hbookmark, hmetadata⟩ := System.checkpoint_written hcheckpoints
  rw [EveReader.metadata, Option.map_map] at hmetadata
  obtain ⟨file, hfile, rfl⟩ := Option.map_eq_some_iff.mp hmetadata
  exact ⟨file, hfile, hbookmark⟩

end

end EveBox.Eve
