import EveBox.Eve.Resume

/-!
# A restarted processor

A processor that starts from a bookmark reads on in the bookmarked file. `resume_iff` says when it delivers
exactly what had not been read when the bookmark was written.
-/

namespace EveBox.Eve

open Rust Lines Transition

variable {V : Type*} {parsing : Parsing V}

/-! ## The files of a restart -/

/-- There is no newer file in the stream of the path, if it is that of a spool file. -/
def FileSystem.Newest (fs : FileSystem) (path : String) : Prop :=
  ∀ g ∈ SpoolFile.parse path, ∀ entry ∈ fs.entries, ∀ g' ∈ SpoolFile.parse entry,
    g'.key = g.key → g'.timestamp ≤ g.timestamp

instance (fs : FileSystem) (path : String) : Decidable (fs.Newest path) :=
  inferInstanceAs (Decidable (∀ g ∈ SpoolFile.parse path, ∀ entry ∈ fs.entries,
    ∀ g' ∈ SpoolFile.parse entry, g'.key = g.key → g'.timestamp ≤ g.timestamp))

/-- The file stays under its name, it is the newest of its stream, and the reader only meets text. -/
def System.Settled (path : String) (inode : ℕ) (s : System V) (op : SystemOp) : Prop :=
  s.fs.names.lookup path = some inode ∧ s.fs.Newest path ∧ s.ReadsText op

instance (path : String) (inode : ℕ) (s : System V) (op : SystemOp) : Decidable (s.Settled path inode op) :=
  inferInstanceAs (Decidable (_ ∧ _ ∧ _))

/-- The restarted processor is for the file, or for the stream of the file. -/
def Selects (input path : String) : Prop :=
  input = path ∨ ∃ g g', SpoolFile.parse input = some g ∧ SpoolFile.parse path = some g' ∧ g'.key = g.key

section

variable {fs : FileSystem} {path : String} {inode : ℕ}

theorem FileSystem.Newest.newerFile (h : fs.Newest path) {g : SpoolFile}
    (hg : SpoolFile.parse path = some g) (latest : Bool) : g.newerFile fs.entries latest = none := by
  cases hnewer : g.newerFile fs.entries latest with
  | none => rfl
  | some g' =>
      obtain ⟨hparse, hentry, hkey, hlt⟩ := EveReader.newerFile_parse hnewer
      have hle := h g hg g'.path hentry g' hparse hkey
      omega

/-! ## The reader of the bookmarked file -/

/-- The reader is that of the bookmarked file. -/
structure EveReader.Reads (r : EveReader) (fs : FileSystem) (path : String) (inode : ℕ) : Prop where
  filename : r.filename = path
  spool : r.spool = SpoolFile.parse path
  completed : r.completedSpoolFiles = []
  offset : r.offset ≤ (fs.content inode).length
  file : ∀ f, r.reader = some f → f.inode = inode

theorem EveReader.Reads.afterLine {r : EveReader} {file : OpenFile} (h : r.Reads fs path inode)
    (hpos : file.pos ≤ (fs.content file.inode).length) (hfile : r.reader = some file) :
    (r.afterLine fs file).Reads fs path inode := by
  have hlength := rest_length_le fs file
  have hinode := h.file file hfile
  unfold EveReader.afterLine
  dsimp only
  split
  · refine ⟨h.filename, h.spool, h.completed, ?_, ?_⟩
    · rw [← hinode]
      show file.pos + _ ≤ _
      omega
    · intro f hf
      obtain rfl := Option.some.inj hf
      exact hinode
  · refine ⟨h.filename, h.spool, h.completed, h.offset, ?_⟩
    intro f hf
    obtain rfl := Option.some.inj hf
    exact hinode

theorem EveReader.Reads.nextLine {r : EveReader} (h : r.Reads fs path inode) (hlined : r.Lined fs)
    (htext : r.ReadsText fs) : (r.nextLine fs false).2.Reads fs path inode := by
  cases hfile : r.reader with
  | none =>
      have hnext : r.nextLine fs false = (.ok none, { r with unterminated := false }) := by
        unfold EveReader.nextLine
        dsimp only
        rw [hfile]
      rw [hnext]
      exact ⟨h.filename, h.spool, h.completed, h.offset, h.file⟩
  | some file =>
      have hafter := h.afterLine (hlined file hfile).2.1 hfile
      rcases EveReader.nextLine_cases fs hfile with ⟨-, -, hnext⟩ | ⟨hmem, htorn, -⟩ |
        ⟨hmem, ⟨text, -, hnext⟩ | ⟨-, err, hnext⟩⟩
      · rw [hnext]
        exact ⟨h.filename, h.spool, h.completed, h.offset, h.file⟩
      · rw [hlined.rest_decodes (htext file hfile) hfile hmem] at htorn
        cases htorn
      · rw [hnext]
        exact hafter
      · rw [hnext]
        exact hafter

/-- What the reader of a restarted processor is, at every point of the start. -/
structure EveReader.Restarts (r : EveReader) (fs : FileSystem) (path : String) (inode : ℕ) : Prop where
  reads : r.Reads fs path inode
  lined : r.Lined fs
  text : r.ReadsText fs

theorem EveReader.Restarts.nextLine {r : EveReader} (h : r.Restarts fs path inode) :
    (r.nextLine fs false).2.Restarts fs path inode :=
  ⟨h.reads.nextLine h.lined h.text, (h.lined.nextLine h.text).1, (h.lined.nextLine h.text).2⟩

theorem EveReader.Restarts.skip {r : EveReader} (h : r.Restarts fs path inode) (lineno : ℕ) :
    (EveReader.skip fs lineno r).2.Restarts fs path inode :=
  EveReader.skip_of_nextLine (P := fun r => r.Restarts fs path inode) (fun _ => EveReader.Restarts.nextLine) lineno h

theorem EveReader.Restarts.skipAll {r : EveReader} (h : r.Restarts fs path inode) (rounds : ℕ) :
    (EveReader.skipAll fs rounds r).2.Restarts fs path inode :=
  EveReader.skipAll_of_nextLine (P := fun r => r.Restarts fs path inode) (fun _ => EveReader.Restarts.nextLine) rounds h

theorem EveReader.Restarts.open {r : EveReader} (h : r.Reads fs path inode)
    (hlookup : fs.names.lookup path = some inode) (htext : fs.Whole inode) :
    r.open fs = (.ok (), { r with reader := some ⟨inode, 0⟩, lineno := 0, offset := 0 }) ∧
      ({ r with reader := some ⟨inode, 0⟩, lineno := 0, offset := 0 } : EveReader).Restarts fs path
        inode := by
  constructor
  · unfold EveReader.open
    rw [h.filename, hlookup]
  · refine ⟨⟨h.filename, h.spool, h.completed, Nat.zero_le _, ?_⟩, ?_, ?_⟩
    · intro f hf
      obtain rfl := Option.some.inj hf
      rfl
    · intro f hf
      obtain rfl := Option.some.inj hf
      exact ⟨fs.bound _ _ hlookup, Nat.zero_le _, rfl, rfl⟩
    · intro f hf
      obtain rfl := Option.some.inj hf
      exact htext

/-- The bookmark selects its file. -/
theorem selectBookmark_ok {input : String} (hselects : Selects input path) (delete : Bool) :
    ∃ r, ({ EveReader.fromInput (.fromPath input) with
        deleteProcessedSpoolFiles := delete } : EveReader).selectBookmark path = (.ok (), r) ∧
      r.reader = none ∧ r.Reads fs path inode := by
  have hswitch : ∀ (r : EveReader) (g : SpoolFile), SpoolFile.parse path = some g →
      r.completedSpoolFiles = [] → (r.switchSpoolFile g).Reads fs path inode := by
    intro r g hg hcompleted
    exact ⟨EveReader.parse_path hg, hg.symm, hcompleted, Nat.zero_le _, nofun⟩
  unfold EveReader.selectBookmark EveReader.fromInput EveInput.fromPath
  rcases hselects with rfl | ⟨g, g', hg, hg', hkey⟩
  · cases hparse : SpoolFile.parse input with
    | none => exact ⟨_, rfl, rfl, rfl, hparse.symm, rfl, Nat.zero_le _, nofun⟩
    | some g =>
        dsimp only [EveInput.spoolFile]
        rw [if_neg (not_not.mpr rfl)]
        exact ⟨_, rfl, rfl, hswitch _ g hparse rfl⟩
  · rw [hg, hg']
    dsimp only [EveInput.spoolFile]
    rw [if_neg (not_not.mpr hkey)]
    exact ⟨_, rfl, rfl, hswitch _ g' hg' rfl⟩

/-- Where the reader of a restarted processor stands when the loop begins. -/
theorem startReader_restarts {input : String} {lineno size : ℕ} {atEnd oneshot delete : Bool}
    (hselects : Selects input path) (hsize : size ≤ (fs.content inode).length)
    (hsettled : System.Settled path inode (System.new fs (some ⟨path, lineno, size, inode⟩)
      (.fromPath input) true atEnd oneshot delete : System V) .start) :
    ∃ file r, (System.new fs (some ⟨path, lineno, size, inode⟩) (.fromPath input) true atEnd oneshot
        delete : System V).startReader = r ∧ r.reader = some file ∧ r.Restarts fs path inode ∧
      lines newline (fs.rest file) = resumeLines atEnd lineno (lines newline (fs.content inode)) := by
  obtain ⟨hlookup, hnewest, htext⟩ := hsettled
  replace hlookup : fs.names.lookup path = some inode := hlookup
  have hwhole : fs.Whole inode := htext.whole path inode hlookup
  obtain ⟨r₁, hselect, hnone, hreads⟩ := @selectBookmark_ok fs path inode input hselects delete
  obtain ⟨hopen, hrestarts⟩ := EveReader.Restarts.open hreads hlookup hwhole
  -- the bookmark is valid, and its file is opened and skipped
  have hvalid : (⟨path, lineno, size, inode⟩ : Bookmark).isValid fs = true := by
    unfold Bookmark.isValid
    dsimp only
    rw [hlookup]
    simpa using hsize
  have hgoto : r₁.gotoLineno fs lineno =
      EveReader.skip fs lineno { r₁ with reader := some ⟨inode, 0⟩, lineno := 0, offset := 0 } := by
    unfold EveReader.gotoLineno
    rw [hnone, hopen]
    rfl
  obtain ⟨file, hfile, hinode, herror, hok, hlines⟩ :=
    EveReader.Lined.skip lineno hrestarts.lined hrestarts.text rfl
  have hskip := hrestarts.skip lineno
  have hinit : (System.new fs (some ⟨path, lineno, size, inode⟩) (.fromPath input) true atEnd oneshot
      delete : System V).initFromBookmark =
        ((r₁.gotoLineno fs lineno).1.isOk, (r₁.gotoLineno fs lineno).2) := by
    unfold System.initFromBookmark System.new
    dsimp only
    rw [hvalid, hselect]
    rcases hresult : r₁.gotoLineno fs lineno with ⟨_ | _, r⟩
    all_goals
      simp only [hresult]
      rfl
  rw [hgoto] at hinit
  have hcontent : fs.rest ⟨inode, 0⟩ = fs.content inode := rfl
  rw [hcontent] at herror hok hlines
  unfold System.startReader
  rw [hinit]
  revert hfile herror hok hlines hskip
  generalize EveReader.skip fs lineno { r₁ with reader := some ⟨inode, 0⟩, lineno := 0, offset := 0 } = result
  obtain ⟨outcome, r⟩ := result
  intro hfile herror hok hlines hskip
  dsimp only at hfile herror hok hlines hskip
  rw [resumeLines_eq]
  cases outcome with
  | ok count =>
      rw [hok count rfl, ← hlines]
      exact ⟨file, r, rfl, hfile, hskip, rfl⟩
  | error err =>
      rw [herror err rfl, ← hlines]
      cases atEnd with
      | false => exact ⟨file, r, rfl, hfile, hskip, rfl⟩
      | true =>
          have hrounds : (lines newline (fs.rest file)).length < (r.unread fs).length + 1 := by
            have hlength := length_lines_le newline (fs.rest file)
            rw [EveReader.unread, hfile, Option.map_some, Option.getD_some]
            omega
          obtain ⟨file', hfile', -, hlines'⟩ :=
            EveReader.Lined.skipAll _ hskip.lined hskip.text hfile hrounds
          have hlatest : r.spool.bind (·.latest fs.entries) = none := by
            rw [hskip.reads.spool]
            cases hparse : SpoolFile.parse path with
            | none => rfl
            | some g => exact FileSystem.Newest.newerFile hnewest hparse true
          have hend : (r.gotoEnd fs).2 = (EveReader.skipAll fs ((r.unread fs).length + 1) r).2 := by
            unfold EveReader.gotoEnd
            rw [hlatest]
            dsimp only [Option.elim]
            rw [hfile]
            rfl
          refine ⟨file', (r.gotoEnd fs).2, rfl, ?_, ?_, ?_⟩
          · rw [hend, hfile']
          · rw [hend]
            exact hskip.skipAll _
          · exact hlines'

end

/-! ## The run of the restarted processor -/

/-- The invariant of the restarted run, which has begun to read at `b`. `text` is what the file held when the
processor was started. -/
structure ResumeInv (parsing : Parsing V) (path : String) (inode b : ℕ) (text : Bytes) (s : System V) :
    Prop where
  phase : s.processor.phase ≠ .starting ∧ s.processor.phase ≠ .reopening
  reads : s.processor.reader.Reads s.fs path inode
  grown : text <+: s.fs.content inode
  read : ∃ file, s.processor.reader.reader = some file ∧ b ≤ file.pos ∧
    file.pos ≤ (s.fs.content inode).length ∧
      tail newline ((s.fs.content inode).take file.pos) = [] ∧
        tail newline (s.fs.between inode b file.pos) = [] ∧
          (s.running → s.delivered = parsing.events (s.fs.between inode b file.pos))

section

variable {s s' : System V} {path : String} {inode b : ℕ} {text : Bytes}

/-- The files change, but for what is in the bookmarked file. -/
theorem ResumeInv.files (inv : ResumeInv parsing path inode b text s) {fs : FileSystem}
    (hcontent : s.fs.content inode <+: fs.content inode) :
    ResumeInv parsing path inode b text { s with fs } := by
  obtain ⟨file, hfile, hb, hpos, htail, hbetween, hdelivered⟩ := inv.read
  have hlength := hcontent.length_le
  refine ⟨inv.phase, ⟨inv.reads.filename, inv.reads.spool, inv.reads.completed, ?_, inv.reads.file⟩,
    inv.grown.trans hcontent, file, hfile, hb, Nat.le_trans hpos hlength, ?_, ?_, ?_⟩
  · exact Nat.le_trans inv.reads.offset hlength
  · obtain ⟨more, hmore⟩ := hcontent
    show tail newline ((fs.content inode).take file.pos) = []
    rw [← hmore, List.take_append_of_le_length hpos]
    exact htail
  · show tail newline (fs.between inode b file.pos) = []
    rw [between_of_isPrefix hcontent hpos]
    exact hbetween
  · show s.running → s.delivered = parsing.events (fs.between inode b file.pos)
    rw [between_of_isPrefix hcontent hpos]
    exact hdelivered

theorem ResumeInv.withPhase (inv : ResumeInv parsing path inode b text s) (hrunning : s.running)
    {phase : ProcessorPhase} (hstarting : phase ≠ .starting) (hreopening : phase ≠ .reopening) :
    ResumeInv parsing path inode b text (s.withPhase phase) := by
  obtain ⟨file, hfile, hb, hpos, htail, hbetween, hdelivered⟩ := inv.read
  exact ⟨⟨hstarting, hreopening⟩, inv.reads, inv.grown, file, hfile, hb, hpos, htail, hbetween,
    fun _ => hdelivered hrunning⟩

theorem ResumeInv.afterEof (inv : ResumeInv parsing path inode b text s) (hrunning : s.running) :
    ResumeInv parsing path inode b text s.afterEof := by
  unfold System.afterEof
  split
  · exact inv.withPhase hrunning nofun nofun
  · exact inv.withPhase hrunning nofun nofun

/-- The position of the reader, with its file. -/
theorem ResumeInv.lined (inv : ResumeInv parsing path inode b text s) {file : OpenFile}
    (hfile : s.processor.reader.reader = some file) : file.inode = inode ∧ b ≤ file.pos ∧
      file.pos ≤ (s.fs.content inode).length ∧ tail newline ((s.fs.content inode).take file.pos) = [] ∧
        tail newline (s.fs.between inode b file.pos) = [] ∧
          (s.running → s.delivered = parsing.events (s.fs.between inode b file.pos)) := by
  obtain ⟨file', hfile', hread⟩ := inv.read
  obtain rfl := Option.some.inj (hfile.symm.trans hfile')
  exact ⟨inv.reads.file file hfile, hread⟩

/-- A line is taken, and its event goes to the sink, or the sink refuses it. -/
theorem ResumeInv.takeLine (inv : ResumeInv parsing path inode b text s) (hrunning : s.running)
    {file : OpenFile} (hfile : s.processor.reader.reader = some file) (hmem : newline ∈ s.fs.rest file)
    {queue : List V} {phase : ProcessorPhase} (hstarting : phase ≠ .starting)
    (hreopening : phase ≠ .reopening) (hqueue : phase ≠ .panicked → queue =
      s.processor.queue ++ (parsing.event (first newline (s.fs.rest file))).toList) :
    ResumeInv parsing path inode b text { s with
      processor := { s.processor with
        reader := s.processor.reader.afterLine s.fs file
        queue
        phase } } := by
  obtain ⟨rfl, hb, hpos, htail, hbetween, hdelivered⟩ := inv.lined hfile
  have hline := isLine_first hmem
  have hlength := EveReader.rest_length_le s.fs file
  have hfirst : (s.fs.rest file).take (first newline (s.fs.rest file)).length =
      first newline (s.fs.rest file) :=
    (List.prefix_iff_eq_take.mp (first_isPrefix newline (s.fs.rest file))).symm
  have hadvance := between_advance s.fs hb (first newline (s.fs.rest file)).length
  rw [hfirst] at hadvance
  refine ⟨⟨hstarting, hreopening⟩, inv.reads.afterLine hpos hfile, inv.grown, _,
    EveReader.afterLine_reader _ _ _, Nat.le_trans hb (Nat.le_add_right _ _), ?_, ?_, ?_, ?_⟩
  · show file.pos + _ ≤ (s.fs.content file.inode).length
    omega
  · have htake := take_advance s.fs file
    show tail newline ((s.fs.content file.inode).take _) = []
    rw [htake]
    exact tail_append_line htail hline
  · show tail newline (s.fs.between file.inode b (file.pos + _)) = []
    rw [hadvance]
    exact tail_append_line hbetween hline
  · intro hafter
    rw [System.delivered] at hdelivered
    show s.committed ++ queue = parsing.events (s.fs.between file.inode b (file.pos + _))
    rw [hadvance, Parsing.events_append_line hbetween hline, hqueue hafter.2, ← hdelivered hrunning,
      List.append_assoc]

theorem ResumeInv.poll (inv : ResumeInv parsing path inode b text s) {answer : Option Bool}
    (hsettled : s.Settled path inode (.poll answer)) (h : s.poll parsing answer = some s') :
    ResumeInv parsing path inode b text s' := by
  unfold System.poll at h
  split at h
  · rename_i hphase
    have hrunning : s.running := by constructor <;> (rw [hphase]; rintro ⟨⟩)
    obtain ⟨file, hfile, -⟩ := inv.read
    obtain ⟨hinode, hb, hpos, htail, hbetween, hdelivered⟩ := inv.lined hfile
    have hopened : s.processor.reader.opened s.fs = s.processor.reader := by
      unfold EveReader.opened
      rw [hfile]
      rfl
    have hpoll : s.processor.reader.pollLine parsing.fromStr s.fs false =
        s.processor.reader.pollOpen parsing.fromStr s.fs false := by
      unfold EveReader.pollLine
      rw [hfile]
      rfl
    have hwhole : s.fs.Whole inode := by
      have htext : (s.processor.reader.opened s.fs).ReadsText s.fs := hsettled.2.2
      rw [hopened] at htext
      rw [← hinode]
      exact htext file hfile
    rw [hpoll] at h
    rcases EveReader.pollOpen_cases parsing.fromStr s.fs hfile with ⟨-, -, hopen⟩ |
      ⟨hmem, htorn, -⟩ | ⟨hmem, ⟨record, hrecord, hopen⟩ | ⟨hrecord, hopen⟩⟩
    · rw [hopen] at h
      obtain rfl := Option.some.inj h
      refine ⟨⟨by rintro ⟨⟩, by rintro ⟨⟩⟩, ⟨inv.reads.filename, inv.reads.spool, inv.reads.completed,
        inv.reads.offset, inv.reads.file⟩, inv.grown, file, hfile, hb, hpos, htail, hbetween, ?_⟩
      exact fun _ => hdelivered hrunning
    · -- the rest of the file would be a piece of a line that is no text
      rw [FileSystem.Whole, (lines_of_boundary htail).2] at hwhole
      rw [FileSystem.rest, hinode] at hmem htorn
      rw [tail_of_not_mem hmem, htorn] at hwhole
      cases hwhole
    · rw [hopen] at h
      have hevent : parsing.event (first newline (s.fs.rest file)) = some (parsing.filters record) := by
        rw [Parsing.event, hrecord]
        rfl
      cases answer with
      | none =>
          obtain rfl := Option.some.inj h
          exact inv.takeLine hrunning hfile hmem (by rintro ⟨⟩) (by rintro ⟨⟩) fun hne => absurd rfl hne
      | some commit =>
          obtain rfl := Option.some.inj h
          unfold System.submit
          dsimp only
          split
          · exact inv.takeLine hrunning hfile hmem (by rintro ⟨⟩) (by rintro ⟨⟩) fun _ => by rw [hevent]; rfl
          · exact inv.takeLine hrunning hfile hmem (by rintro ⟨⟩) (by rintro ⟨⟩) fun _ => by rw [hevent]; rfl
    · have hevent : parsing.event (first newline (s.fs.rest file)) = none := by
        rw [Parsing.event, hrecord]
        rfl
      have hs' : s' = s.withReader (s.processor.reader.afterLine s.fs file) := by
        rcases hopen with hopen | ⟨err, hopen⟩ <;> rw [hopen] at h <;> exact (Option.some.inj h).symm
      have htaken := inv.takeLine hrunning hfile hmem inv.phase.1 inv.phase.2
        (fun _ => by rw [hevent, Option.toList_none, List.append_nil])
      rw [hs']
      exact htaken
  · cases h

theorem ResumeInv.checkpoint (inv : ResumeInv parsing path inode b text s) (write : BookmarkWrite) :
    ResumeInv parsing path inode b text (s.checkpoint write) := by
  unfold System.checkpoint
  split
  · split
    · -- there are no completed files
      rw [EveReader.deleteCompletedSpoolFiles, inv.reads.completed]
      refine ⟨inv.phase, ⟨inv.reads.filename, inv.reads.spool, rfl, inv.reads.offset, inv.reads.file⟩,
        inv.grown, inv.read⟩
    · exact inv
    · exact ⟨inv.phase, inv.reads, inv.grown, inv.read⟩
  · exact inv

theorem ResumeInv.look (inv : ResumeInv parsing path inode b text s) {readable : Bool}
    (hsettled : s.Settled path inode (.look readable)) (h : s.look readable = some s') :
    ResumeInv parsing path inode b text s' := by
  unfold System.look at h
  split at h
  · rename_i hphase
    have hrunning : s.running := by constructor <;> (rw [hphase]; nofun)
    have hadvance : s.processor.reader.advance s.fs = none := by
      unfold EveReader.advance
      rw [inv.reads.spool]
      cases hparse : SpoolFile.parse path with
      | none => rfl
      | some g =>
          rw [Option.bind_some, SpoolFile.next, hsettled.2.1.newerFile hparse false]
          rfl
    rw [hadvance] at h
    split at h <;> obtain rfl := Option.some.inj h
    · exact inv.withPhase hrunning nofun nofun
    · exact inv.withPhase hrunning nofun nofun
  · cases h

theorem ResumeInv.noRecord (inv : ResumeInv parsing path inode b text s) {write : BookmarkWrite}
    (h : s.noRecord write = some s') : ResumeInv parsing path inode b text s' := by
  unfold System.noRecord at h
  split at h
  · rename_i hphase
    have hrunning : s.running := by constructor <;> (rw [hphase]; nofun)
    split at h
    · obtain rfl := Option.some.inj h
      exact inv.withPhase hrunning nofun nofun
    · have hcompleted : s.processor.reader.hasCompletedSpoolFiles = false := by
        rw [EveReader.hasCompletedSpoolFiles, inv.reads.completed]
        rfl
      rw [hcompleted] at h
      obtain rfl := Option.some.inj h
      show ResumeInv _ _ _ _ _ (if s.processor.oneshot then s.afterEof else s.withPhase .checking)
      split
      · exact inv.afterEof hrunning
      · exact inv.withPhase hrunning nofun nofun
  · cases h

theorem ResumeInv.check (inv : ResumeInv parsing path inode b text s)
    (hsettled : s.Settled path inode .check) (h : s.check = some s') :
    ResumeInv parsing path inode b text s' := by
  unfold System.check at h
  split at h
  · rename_i hphase
    have hrunning : s.running := by constructor <;> (rw [hphase]; nofun)
    obtain ⟨file, hfile, -⟩ := inv.read
    have hoffset := inv.reads.offset
    -- the file has not changed
    have hchanged : s.processor.reader.isFileChanged s.fs = false := by
      unfold EveReader.isFileChanged
      rw [inv.reads.filename, hsettled.1, hfile]
      dsimp only
      rw [inv.reads.file file hfile]
      simpa using hoffset
    rw [hchanged] at h
    obtain rfl := Option.some.inj h
    exact inv.afterEof hrunning
  · cases h

theorem ResumeInv.commit (inv : ResumeInv parsing path inode b text s) {result : Option BookmarkWrite}
    (h : s.commit result = some s') : ResumeInv parsing path inode b text s' := by
  unfold System.commit at h
  split at h
  · obtain rfl := Option.some.inj h
    exact inv
  · rename_i eof write hphase
    obtain rfl := Option.some.inj h
    have hstore : ResumeInv parsing path inode b text s.store := by
      obtain ⟨file, hfile, hb, hpos, htail, hbetween, hdelivered⟩ := inv.read
      refine ⟨inv.phase, inv.reads, inv.grown, file, hfile, hb, hpos, htail, hbetween, ?_⟩
      rw [System.store_delivered]
      exact hdelivered
    have hafter := hstore.checkpoint write
    have hrunning : (s.store.checkpoint write).running := by
      unfold System.running
      rw [System.checkpoint_phase]
      constructor <;> (show s.processor.phase ≠ _; rw [hphase]; nofun)
    show ResumeInv parsing path inode b text
      (if eof then (s.store.checkpoint write).afterEof else (s.store.checkpoint write).withPhase .reading)
    split
    · exact hafter.afterEof hrunning
    · exact hafter.withPhase hrunning nofun nofun
  · cases h

theorem ResumeInv.step (inv : ResumeInv parsing path inode b text s) {op : SystemOp}
    (hsettled : s.Settled path inode op) (h : s.step parsing op = some s') :
    ResumeInv parsing path inode b text s' := by
  cases op with
  | append i bytes =>
      obtain rfl := Option.some.inj h
      exact inv.files (FileSystem.content_append_isPrefix i inode bytes)
  | create name =>
      obtain rfl := Option.some.inj h
      apply inv.files
      simp only [FileSystem.content_create, List.prefix_refl]
  | remove name =>
      obtain rfl := Option.some.inj h
      exact inv.files (List.prefix_refl _)
  | start => exact absurd (System.start_some h).1 inv.phase.1
  | poll answer => exact inv.poll hsettled h
  | look readable => exact inv.look hsettled h
  | noRecord write => exact inv.noRecord h
  | check => exact inv.check hsettled h
  | reopen =>
      simp only [System.step, System.reopen] at h
      split at h
      · rename_i hphase
        exact absurd hphase inv.phase.2
      · cases h
  | commit result => exact inv.commit h

end

/-! ## Exactly what had not been read -/

/-- A processor for the input, with the bookmark that is there. -/
def System.restart (s : System V) (fs : FileSystem) (input : String) (atEnd oneshot delete : Bool) :
    System V :=
  .new fs s.bookmark (.fromPath input) true atEnd oneshot delete

/-- Whatever the restarted processor does, it has delivered the events of the file from the position on, up to
those that it has not read yet. -/
def System.Resumes (parsing : Parsing V) (s : System V) (path : String) (inode pos : ℕ) : Prop :=
  ∀ ops t, Along (System.step parsing) (System.Settled path inode) s (.start :: ops) →
    exec (System.step parsing) s (.start :: ops) = some t → t.running →
      t.delivered ++ parsing.events (t.processor.reader.unread t.fs) =
        parsing.events ((t.fs.content inode).drop pos)

/-- What is written later comes after the events of what there is, wherever the reading begins. -/
theorem Parsing.events_drop_append {text : Bytes} {b : ℕ} (hb : b ≤ text.length)
    (htail : tail newline (text.take b) = []) (more : Bytes) :
    parsing.events ((text ++ more).drop b) = parsing.events (text.drop b) ++
      (lines newline (tail newline text ++ more)).filterMap parsing.event := by
  unfold Parsing.events
  rw [List.drop_append_of_le_length hb, lines_append, List.filterMap_append,
    ← (lines_of_boundary htail).2]

section

variable {s s' t : System V} {path : String} {inode b pos : ℕ} {text : Bytes}

theorem ResumeInv.resumes (inv : ResumeInv parsing path inode b text s) (hrunning : s.running)
    (hb : b ≤ text.length) (hpos : pos ≤ text.length) (hbtail : tail newline (text.take b) = [])
    (hptail : tail newline (text.take pos) = [])
    (hevents : parsing.events (text.drop b) = parsing.events (text.drop pos)) :
    s.delivered ++ parsing.events (s.processor.reader.unread s.fs) =
      parsing.events ((s.fs.content inode).drop pos) := by
  obtain ⟨file, hfile, hbfile, -, -, hbetween, hdelivered⟩ := inv.read
  have hinode := inv.reads.file file hfile
  obtain ⟨more, hmore⟩ := inv.grown
  -- all that follows the beginning of the run
  have hall : s.delivered ++ parsing.events (s.processor.reader.unread s.fs) =
      parsing.events ((s.fs.content inode).drop b) := by
    rw [hdelivered hrunning, EveReader.unread, hfile, Option.map_some, Option.getD_some,
      ← hinode, ← between_append_rest s.fs hbfile]
    unfold Parsing.events
    rw [← hinode] at hbetween
    rw [(lines_append_of_tail hbetween _).1, List.filterMap_append]
  rw [hall, ← hmore, Parsing.events_drop_append hb hbtail, Parsing.events_drop_append hpos hptail, hevents]

/-- The state of the restarted processor when its loop begins. -/
theorem ResumeInv.new {r : EveReader} {file : OpenFile} (hreads : r.Restarts s.fs path inode)
    (hfile : r.reader = some file) (hdelivered : s.delivered = []) (origin : Option OpenFile) :
    ResumeInv parsing path inode file.pos (s.fs.content inode)
      { (s.withReader r).withPhase .reading with origin } := by
  obtain ⟨-, hpos, htail, -⟩ := hreads.lined file hfile
  have hinode := hreads.reads.file file hfile
  rw [hinode] at hpos htail
  refine ⟨⟨nofun, nofun⟩, hreads.reads, List.prefix_refl _, file, hfile, Nat.le_refl _, hpos, htail, ?_, ?_⟩
  · show tail newline (s.fs.between inode file.pos file.pos) = []
    rw [FileSystem.between_self]
    rfl
  · intro _
    show s.delivered = parsing.events (s.fs.between inode file.pos file.pos)
    rw [FileSystem.between_self, hdelivered]
    rfl

/-- Whatever the contents of the files, the failed and the stored commits, and the point at which a bookmark is
written and the processor stopped: restarted with that bookmark, it delivers exactly what had not been read if
and only if `Resumable` holds of the lines before and after the position of the bookmark. -/
theorem resume_iff {fs fs' : FileSystem} {bookmark : Option Bookmark} {input input' : String}
    {bookmarkFilename atEnd oneshot delete atEnd' oneshot' delete' : Bool} {ops : List SystemOp}
    {op : SystemOp} {file : OpenFile}
    (htext : Along (System.step parsing) System.ReadsText
      (.new fs bookmark (.fromPath input) bookmarkFilename atEnd oneshot delete) ops)
    (h : exec (System.step parsing)
      (.new fs bookmark (.fromPath input) bookmarkFilename atEnd oneshot delete) ops = some s)
    (hstep : s.step parsing op = some s') (hwrites : s.writesBookmark op = true)
    (hfile : s'.processor.reader.reader = some file)
    (hgrown : s'.fs.content file.inode <+: fs'.content file.inode)
    (hselects : Selects input' s'.processor.reader.filename)
    (hsettled : (s'.restart fs' input' atEnd' oneshot' delete').Settled s'.processor.reader.filename
      file.inode .start) :
    (s'.restart fs' input' atEnd' oneshot' delete').Resumes parsing s'.processor.reader.filename
        file.inode file.pos ↔
      Resumable parsing atEnd' (lines newline ((s'.fs.content file.inode).take file.pos))
        (lines newline ((fs'.content file.inode).drop file.pos)) := by
  -- what the bookmark says
  have inv : LinedInv s := by
    refine invariant_along (P := LinedInv) (fun _ _ _ inv hok hstep => inv.step hok hstep) ?_ htext h
    exact ⟨by rintro _ ⟨⟩, fun _ => rfl⟩
  have hop : s.ReadsText op := by
    unfold System.writesBookmark at hwrites
    split at hwrites
    · trivial
    · trivial
    · cases hwrites
  obtain ⟨hinode, hpos, htail, hlineno⟩ := (inv.step hop hstep).lined file hfile
  obtain ⟨file', hfile', hbookmark⟩ := System.bookmark_of_writes hwrites hstep
  obtain rfl := Option.some.inj (hfile.symm.trans hfile')
  -- where the restarted processor begins
  have htake : (fs'.content file.inode).take file.pos = (s'.fs.content file.inode).take file.pos := by
    obtain ⟨more, hmore⟩ := hgrown
    rw [← hmore, List.take_append_of_le_length hpos]
  rw [hlineno, ← htake] at hbookmark
  rw [← htake] at htail ⊢
  unfold System.restart at hsettled ⊢
  rw [hbookmark] at hsettled ⊢
  obtain ⟨begin, r, hr, hreader, hrestarts, hlines⟩ :=
    startReader_restarts hselects hgrown.length_le hsettled
  obtain ⟨-, hbegin, hbtail, -⟩ := hrestarts.lined begin hreader
  have hbinode := hrestarts.reads.file begin hreader
  rw [hbinode] at hbegin hbtail
  have hpos' := Nat.le_trans hpos hgrown.length_le
  have hsplit := (lines_of_boundary htail).1
  have hevents : parsing.events ((fs'.content file.inode).drop begin.pos) =
        parsing.events ((fs'.content file.inode).drop file.pos) ↔
      Resumable parsing atEnd' (lines newline ((fs'.content file.inode).take file.pos))
        (lines newline ((fs'.content file.inode).drop file.pos)) := by
    rw [FileSystem.rest, hbinode] at hlines
    unfold Parsing.events
    rw [hlines, ← resumeLines_iff, ← hsplit]
  rw [← hevents]
  -- the first step of the restarted processor
  revert hsettled hr
  generalize hrestart : (System.new fs' (some ⟨s'.processor.reader.filename, _, _, file.inode⟩)
    (.fromPath input') true atEnd' oneshot' delete' : System V) = restarted
  intro hsettled hr
  have hfs : restarted.fs = fs' := by rw [← hrestart]; rfl
  have hnone : restarted.delivered = [] := by rw [← hrestart]; rfl
  have hstart : restarted.step parsing .start =
      some { (restarted.withReader r).withPhase .reading with origin := r.reader } := by
    rw [← hr, ← hrestart]
    rfl
  constructor
  · intro hresumes
    have hbegun := hresumes [] _ ⟨hsettled, fun _ _ => trivial⟩
      (exec_cons_eq_some.mpr ⟨_, hstart, rfl⟩) ⟨by rintro ⟨⟩, by rintro ⟨⟩⟩
    change restarted.delivered ++ parsing.events (r.unread restarted.fs) =
      parsing.events ((restarted.fs.content file.inode).drop file.pos) at hbegun
    rw [hnone, hfs, EveReader.unread, hreader, Option.map_some, Option.getD_some, FileSystem.rest,
      hbinode] at hbegun
    exact hbegun
  · intro hsame ops' t halong hexec hrunning
    obtain ⟨t₀, hfirst, hexec⟩ := exec_cons_eq_some.mp hexec
    obtain rfl := Option.some.inj (hstart.symm.trans hfirst)
    rw [← hfs] at hrestarts hsame hbegin hbtail hpos' htail
    have hnew : ResumeInv parsing s'.processor.reader.filename file.inode begin.pos
        (restarted.fs.content file.inode)
        { (restarted.withReader r).withPhase .reading with origin := r.reader } :=
      ResumeInv.new hrestarts hreader hnone r.reader
    have hrun : ResumeInv parsing s'.processor.reader.filename file.inode begin.pos
        (restarted.fs.content file.inode) t :=
      invariant_along (P := ResumeInv parsing s'.processor.reader.filename file.inode begin.pos
        (restarted.fs.content file.inode)) (fun _ _ _ inv hok hstep => inv.step hok hstep) hnew
        (halong.2 _ hstart) hexec
    exact hrun.resumes hrunning hbegin hpos' hbtail htail hsame

/-! ## A line that is no text -/

/-- A line that is no text, and a record. -/
def badLine : FileSystem := (FileSystem.empty.create "eve.json").append 0 [255, 10, 49, 10]

/-- The file is read to its end, and the record is committed. -/
def badLineRun : List SystemOp :=
  [.start, .poll none, .poll (some false), .poll none, .look true, .noRecord .refused]

theorem resume_iff_badLine :
    ∃ (s s' : System (List Char)) (file : OpenFile), exec (System.step anyLine)
        (.new badLine none (.fromPath "eve.json") true false false false) badLineRun = some s ∧
      s.step anyLine (.commit (some (.written []))) = some s' ∧
      s'.processor.reader.reader = some file ∧
      ((s'.restart s'.fs "eve.json" false false false).Resumes anyLine s'.processor.reader.filename
          file.inode file.pos ↔
        Resumable anyLine false (lines newline ((s'.fs.content file.inode).take file.pos))
          (lines newline ((s'.fs.content file.inode).drop file.pos))) := by
  have hrun : ((exec (System.step anyLine)
      (.new badLine none (.fromPath "eve.json") true false false false) badLineRun).bind fun s =>
        (s.step anyLine (.commit (some (.written [])))).bind fun s' =>
          s'.processor.reader.reader.map fun file =>
            (s.writesBookmark (.commit (some (.written []))), s'.processor.reader.filename,
              decide ((s'.restart s'.fs "eve.json" false false false).Settled
                s'.processor.reader.filename file.inode .start))) = some (true, "eve.json", true) := by
    decide +kernel
  obtain ⟨s, hs, hrun⟩ := Option.bind_eq_some_iff.mp hrun
  obtain ⟨s', hs', hrun⟩ := Option.bind_eq_some_iff.mp hrun
  obtain ⟨file, hfile, hresult⟩ := Option.map_eq_some_iff.mp hrun
  obtain ⟨hwrites, hname, hsettled⟩ := by simpa only [Prod.mk.injEq] using hresult
  exact ⟨s, s', file, hs, hs', hfile, resume_iff (by decide +kernel) hs hs' hwrites hfile (List.prefix_refl _)
    (Or.inl hname.symm) (of_decide_eq_true hsettled)⟩

/-- The restarted processor delivers the record again. -/
theorem badLineRun_delivers_again :
    ∃ (s s' : System (List Char)) (file : OpenFile) (t : System (List Char)), exec (System.step anyLine)
        (.new badLine none (.fromPath "eve.json") true false false false) badLineRun = some s ∧
      s.step anyLine (.commit (some (.written []))) = some s' ∧
      s.writesBookmark (.commit (some (.written []))) = true ∧
      s'.committed = [['1']] ∧ s'.processor.reader.reader = some file ∧
      exec (System.step anyLine) (s'.restart s'.fs "eve.json" false false false)
        [.start, .poll (some true), .commit (some (.written []))] = some t ∧
      anyLine.events ((t.fs.content file.inode).drop file.pos) = [] ∧ t.committed = [['1']] := by
  have hrun : ((exec (System.step anyLine)
      (.new badLine none (.fromPath "eve.json") true false false false) badLineRun).bind fun s =>
        (s.step anyLine (.commit (some (.written [])))).bind fun s' =>
          s'.processor.reader.reader.bind fun file =>
            (exec (System.step anyLine) (s'.restart s'.fs "eve.json" false false false)
              [.start, .poll (some true), .commit (some (.written []))]).map fun t =>
                (s.writesBookmark (.commit (some (.written []))), s'.committed,
                  anyLine.events ((t.fs.content file.inode).drop file.pos), t.committed)) =
      some (true, [['1']], [], [['1']]) := by
    decide +kernel
  obtain ⟨s, hs, hrun⟩ := Option.bind_eq_some_iff.mp hrun
  obtain ⟨s', hs', hrun⟩ := Option.bind_eq_some_iff.mp hrun
  obtain ⟨file, hfile, hrun⟩ := Option.bind_eq_some_iff.mp hrun
  obtain ⟨t, ht, hresult⟩ := Option.map_eq_some_iff.mp hrun
  obtain ⟨hwrites, hfirst, hevents, hagain⟩ := by simpa only [Prod.mk.injEq] using hresult
  exact ⟨s, s', file, t, hs, hs', hwrites, hfirst, hfile, ht, hevents, hagain⟩

end

end EveBox.Eve
