import EveBox.Eve.Processor
import EveBox.Eve.ReaderTheorems

/-!
# What lies before a bookmark has been committed

`DeliveryInv` relates the position of the reader, the events of the sink, and the spool files that have been
left behind. Every step keeps it, as long as nothing disturbs the files: `Undisturbed` says what that means.
`checkpoint_law` reads off what holds when a bookmark is written and spool files are removed.
-/

namespace EveBox.Eve

open Rust Lines Transition

variable {V : Type*} {parsing : Parsing V}

/-! ## Events -/

/-- The event that the processor makes of a line, if it makes one. -/
def Parsing.event (parsing : Parsing V) (line : Bytes) : Option V :=
  (lineRecord parsing.fromStr line).map parsing.filters

/-- The events that the processor makes of a text. -/
def Parsing.events (parsing : Parsing V) (text : Bytes) : List V :=
  (lines newline text).filterMap parsing.event

/-- A line more, after complete lines. -/
theorem Parsing.events_append_line {text line : Bytes} (htext : tail newline text = [])
    (hline : IsLine newline line) :
    parsing.events (text ++ line) = parsing.events text ++ (parsing.event line).toList := by
  unfold Parsing.events
  rw [(lines_append_of_tail htext line).1, List.filterMap_append]
  have hlines := (hline.lines_append []).1
  rw [List.append_nil, lines_nil] at hlines
  rw [hlines]
  cases h : parsing.event line with
  | none => simp [h]
  | some event => simp [h]

/-- An unfinished line makes no event. -/
theorem Parsing.events_append_tail {text rest : Bytes} (htext : tail newline text = [])
    (hrest : newline ∉ rest) : parsing.events (text ++ rest) = parsing.events text := by
  unfold Parsing.events
  rw [(lines_append_of_tail htext rest).1, lines_of_not_mem hrest, List.append_nil]

/-- A line more ends the text again. -/
theorem tail_append_line {text line : Bytes} (htext : tail newline text = [])
    (hline : IsLine newline line) : tail newline (text ++ line) = [] := by
  rw [(lines_append_of_tail htext line).2]
  have htail := (hline.lines_append []).2
  rw [List.append_nil] at htail
  exact htail

/-! ## Pieces of files -/

/-- The bytes of a file between two positions. -/
def FileSystem.between (fs : FileSystem) (inode b pos : ℕ) : Bytes :=
  ((fs.content inode).drop b).take (pos - b)

@[simp] theorem FileSystem.between_self (fs : FileSystem) (inode b : ℕ) : fs.between inode b b = [] := by
  rw [between, Nat.sub_self, List.take_zero]

/-- What has been written stays. -/
theorem between_of_isPrefix {fs fs' : FileSystem} {inode b pos : ℕ}
    (h : fs.content inode <+: fs'.content inode) (hpos : pos ≤ (fs.content inode).length) :
    fs'.between inode b pos = fs.between inode b pos := by
  obtain ⟨more, hmore⟩ := h
  unfold FileSystem.between
  rw [← hmore]
  by_cases hb : b ≤ (fs.content inode).length
  · rw [List.drop_append_of_le_length hb, List.take_append_of_le_length]
    rw [List.length_drop]
    omega
  · rw [show pos - b = 0 by omega, List.take_zero, List.take_zero]

/-- The piece up to further on in the file. -/
theorem between_advance (fs : FileSystem) {file : OpenFile} {b : ℕ} (hb : b ≤ file.pos) (n : ℕ) :
    fs.between file.inode b (file.pos + n) =
      fs.between file.inode b file.pos ++ (fs.rest file).take n := by
  unfold FileSystem.between FileSystem.rest
  have hpos : file.pos + n - b = (file.pos - b) + n := by omega
  rw [hpos, List.take_add, List.drop_drop, show b + (file.pos - b) = file.pos by omega]

theorem between_append_rest (fs : FileSystem) {file : OpenFile} {b : ℕ} (hb : b ≤ file.pos) :
    fs.between file.inode b file.pos ++ fs.rest file = (fs.content file.inode).drop b := by
  unfold FileSystem.between FileSystem.rest
  conv_rhs => rw [← List.take_append_drop (file.pos - b) ((fs.content file.inode).drop b)]
  rw [List.drop_drop, show b + (file.pos - b) = file.pos by omega]

/-! ## The invariant -/

namespace System

/-- All the events that the sink has taken. -/
def delivered (s : System V) : List V := s.committed ++ s.processor.queue

/-- The run has begun to read the file at this position. -/
def Begins (s : System V) (inode b : ℕ) : Prop := b = 0 ∨ s.origin = some ⟨inode, b⟩

/-- The loop runs. -/
def running (s : System V) : Prop := s.processor.phase ≠ .starting ∧ s.processor.phase ≠ .panicked

/-- Nothing disturbs the reader: it never polls a last line that is cut inside a character, nothing is
appended to a spool file of which it has found the end, and no name of such a file is used again. -/
def Undisturbed (s : System V) : SystemOp → Prop
  | .append inode _ => inode ∉ s.passed ∧
      (s.processor.phase = .ended → s.processor.reader.spool.isSome = true →
        ∀ file ∈ s.processor.reader.reader, file.inode ≠ inode)
  | .create name => name ∉ s.processor.reader.completedSpoolFiles ∧
      (s.processor.reader.spool.isSome = true → name ≠ s.processor.reader.filename)
  | .poll _ => ∀ file ∈ (s.processor.reader.opened s.fs).reader,
      newline ∉ s.fs.rest file → decodes (s.fs.rest file) = true
  | _ => True

instance (s : System V) : ∀ op, Decidable (s.Undisturbed op)
  | .append _ _ => inferInstanceAs (Decidable (_ ∧ _))
  | .create _ => inferInstanceAs (Decidable (_ ∧ _))
  | .poll _ => inferInstanceAs (Decidable (∀ file ∈ (s.processor.reader.opened s.fs).reader, _))
  | .remove _ | .start | .look _ | .noRecord _ | .check | .reopen | .commit _ => isTrue trivial

end System

/-- The invariant of a run. -/
structure DeliveryInv (parsing : Parsing V) (s : System V) : Prop where
  reader : s.processor.reader.Ok s.fs
  fresh : s.processor.phase = .starting →
    s.passed = [] ∧ s.processor.reader.completedSpoolFiles = []
  /-- What has been read of the open file has been delivered last. -/
  segment : s.running → ∀ file, s.processor.reader.reader = some file →
    ∃ b, s.Begins file.inode b ∧ b ≤ file.pos ∧
      tail newline (s.fs.between file.inode b file.pos) = [] ∧
        parsing.events (s.fs.between file.inode b file.pos) <:+ s.delivered
  ended : s.processor.phase = .ended → ∃ file, s.processor.reader.reader = some file ∧
    (s.processor.reader.spool.isSome = true → newline ∉ s.fs.rest file)
  /-- All of a file that has been left behind has been delivered. -/
  passed : ∀ j ∈ s.passed, j < s.fs.inodes.length ∧
    ∃ b, s.Begins j b ∧ parsing.events ((s.fs.content j).drop b) <:+: s.delivered
  completed : ∀ d ∈ s.processor.reader.completedSpoolFiles,
    (∀ j, s.fs.names.lookup d = some j → j ∈ s.passed) ∧
      ∃ g current, SpoolFile.parse d = some g ∧ s.processor.reader.spool = some current ∧
        g.timestamp < current.timestamp

section

variable {s s' : System V}

/-! ## The files change -/

/-- A change of the files that leaves what has been written, and gives the spool file that is open and the
completed files no other file. -/
theorem DeliveryInv.files (inv : DeliveryInv parsing s) {fs : FileSystem}
    (hlength : s.fs.inodes.length ≤ fs.inodes.length)
    (hcontent : ∀ j, s.fs.content j <+: fs.content j)
    (hpassed : ∀ j ∈ s.passed, fs.content j = s.fs.content j)
    (hended : s.processor.phase = .ended → s.processor.reader.spool.isSome = true →
      ∀ file, s.processor.reader.reader = some file → fs.rest file = s.fs.rest file)
    (hname : s.processor.reader.spool.isSome = true → ∀ j,
      fs.names.lookup s.processor.reader.filename = some j →
        s.fs.names.lookup s.processor.reader.filename = some j)
    (hcompleted : ∀ d ∈ s.processor.reader.completedSpoolFiles, ∀ j,
      fs.names.lookup d = some j → s.fs.names.lookup d = some j) :
    DeliveryInv parsing { s with fs } where
  reader := by
    refine ⟨?_, inv.reader.spool, ?_⟩
    · intro f hf
      obtain ⟨hinode, hpos⟩ := inv.reader.bounded f hf
      have hgrown := (hcontent f.inode).length_le
      exact ⟨Nat.lt_of_lt_of_le hinode hlength, Nat.le_trans hpos hgrown⟩
    · intro hspool f hf j hj
      exact inv.reader.bound hspool f hf j (hname hspool j hj)
  fresh := inv.fresh
  segment hrunning file hfile := by
    obtain ⟨b, hbegins, hb, htail, hevents⟩ := inv.segment hrunning file hfile
    refine ⟨b, hbegins, hb, ?_⟩
    rw [between_of_isPrefix (hcontent file.inode) (inv.reader.bounded file hfile).2]
    exact ⟨htail, hevents⟩
  ended hphase := by
    obtain ⟨file, hfile, hrest⟩ := inv.ended hphase
    refine ⟨file, hfile, ?_⟩
    intro hspool
    rw [hended hphase hspool file hfile]
    exact hrest hspool
  passed j hj := by
    obtain ⟨hlt, hpassed'⟩ := inv.passed j hj
    refine ⟨Nat.lt_of_lt_of_le hlt hlength, ?_⟩
    rw [hpassed j hj]
    exact hpassed'
  completed d hd := by
    obtain ⟨hlookup, hold⟩ := inv.completed d hd
    exact ⟨fun j hj => hlookup j (hcompleted d hd j hj), hold⟩

theorem DeliveryInv.append (inv : DeliveryInv parsing s) {inode : ℕ} {bytes : Bytes}
    (hok : s.Undisturbed (.append inode bytes)) :
    DeliveryInv parsing { s with fs := s.fs.append inode bytes } := by
  obtain ⟨hpassed, hended⟩ := hok
  apply inv.files
  · rw [FileSystem.append, List.length_modify]
  · exact fun j => FileSystem.content_append_isPrefix inode j bytes
  · intro j hj
    apply FileSystem.content_append_ne
    rintro rfl
    exact hpassed hj
  · intro hphase hspool file hfile
    unfold FileSystem.rest
    rw [FileSystem.content_append_ne (hended hphase hspool file hfile).symm]
  · exact fun _ _ => id
  · exact fun _ _ _ => id

theorem DeliveryInv.create (inv : DeliveryInv parsing s) {name : String}
    (hok : s.Undisturbed (.create name)) :
    DeliveryInv parsing { s with fs := s.fs.create name } := by
  obtain ⟨hcompleted, hname⟩ := hok
  have hother : ∀ {d j}, d ≠ name → (s.fs.create name).names.lookup d = some j →
      s.fs.names.lookup d = some j := by
    intro d j hd hj
    rw [FileSystem.create, AList.lookup_insert_ne hd] at hj
    exact hj
  apply inv.files
  · rw [FileSystem.create, List.length_append]
    omega
  · intro j
    simp only [FileSystem.content_create, List.prefix_refl]
  · intro j _
    exact FileSystem.content_create
  · intro _ _ file _
    unfold FileSystem.rest
    rw [FileSystem.content_create]
  · intro hspool j hj
    exact hother (hname hspool).symm hj
  · intro d hd j hj
    apply hother ?_ hj
    rintro rfl
    exact hcompleted hd

/-- Names are removed: by others, or with the completed files. -/
theorem DeliveryInv.remove (inv : DeliveryInv parsing s) (name : String) :
    DeliveryInv parsing { s with fs := s.fs.remove name } := by
  apply inv.files
  · exact Nat.le_refl _
  · exact fun j => List.prefix_refl _
  · exact fun _ _ => rfl
  · exact fun _ _ _ _ => rfl
  · exact fun _ j hj => (FileSystem.lookup_erase hj).2
  · exact fun d _ j hj => (FileSystem.lookup_erase hj).2

/-! ## The processor moves on -/

/-- Where the processor goes next, when it is not at the end of a file. -/
theorem DeliveryInv.withPhase (inv : DeliveryInv parsing s) (hrunning : s.running)
    {phase : ProcessorPhase} (hstarting : phase ≠ .starting) (hended : phase ≠ .ended) :
    DeliveryInv parsing (s.withPhase phase) where
  reader := inv.reader
  fresh h := absurd h hstarting
  segment _ := inv.segment hrunning
  ended h := absurd h hended
  passed := inv.passed
  completed := inv.completed

theorem DeliveryInv.afterEof (inv : DeliveryInv parsing s) (hrunning : s.running) :
    DeliveryInv parsing s.afterEof := by
  unfold System.afterEof
  split
  · exact inv.withPhase hrunning nofun nofun
  · exact inv.withPhase hrunning nofun nofun

/-- The reader has another file open, from its beginning, or none. -/
theorem DeliveryInv.reposition (inv : DeliveryInv parsing s) (hended : s.processor.phase ≠ .ended)
    {r : EveReader} (hr : EveReader.Keeps s.fs s.processor.reader r)
    (hspool : r.spool = s.processor.reader.spool)
    (hstart : ∀ file, r.reader = some file → s.processor.reader.reader ≠ some file → file.pos = 0) :
    DeliveryInv parsing (s.withReader r) where
  reader := hr.ok inv.reader
  fresh h := by
    obtain ⟨hpassed, hcompleted⟩ := inv.fresh h
    exact ⟨hpassed, hr.completed.trans hcompleted⟩
  segment hrunning file hfile := by
    by_cases hsame : s.processor.reader.reader = some file
    · exact inv.segment hrunning file hsame
    · refine ⟨0, Or.inl rfl, Nat.zero_le _, ?_⟩
      rw [hstart file hfile hsame, FileSystem.between_self]
      exact ⟨rfl, List.nil_suffix⟩
  ended h := absurd h hended
  passed := inv.passed
  completed d hd := by
    rw [System.withReader, hr.completed] at hd
    obtain ⟨hlookup, g, current, hparse, hcurrent, hlt⟩ := inv.completed d hd
    exact ⟨hlookup, g, current, hparse, hspool.trans hcurrent, hlt⟩

/-! ## A line is read -/

theorem DeliveryInv.opened (inv : DeliveryInv parsing s) (hended : s.processor.phase ≠ .ended) :
    DeliveryInv parsing (s.withReader (s.processor.reader.opened s.fs)) := by
  have hopen : EveReader.Keeps s.fs s.processor.reader (s.processor.reader.opened s.fs) := by
    unfold EveReader.opened
    split
    · exact EveReader.open_keeps _ _
    · exact .refl _ _
  apply inv.reposition hended hopen
  · unfold EveReader.opened EveReader.open
    split
    · split <;> rfl
    · rfl
  · intro file hfile hnew
    unfold EveReader.opened EveReader.open at hfile
    split at hfile
    · split at hfile
      · exact absurd hfile hnew
      · obtain rfl := Option.some.inj hfile
        rfl
    · exact absurd hfile hnew

theorem EveReader.afterLine_reader (r : EveReader) (fs : FileSystem) (file : OpenFile) :
    (r.afterLine fs file).reader = some (file.advance (first newline (fs.rest file)).length) := by
  unfold EveReader.afterLine
  dsimp only
  split <;> rfl

theorem EveReader.afterLine_spool (r : EveReader) (fs : FileSystem) (file : OpenFile) :
    (r.afterLine fs file).spool = r.spool := by
  unfold EveReader.afterLine
  dsimp only
  split <;> rfl

/-- A line is taken, and its event goes to the sink. -/
theorem DeliveryInv.takeLine (inv : DeliveryInv parsing s) (hrunning : s.running)
    {file : OpenFile} (hfile : s.processor.reader.reader = some file) (hmem : newline ∈ s.fs.rest file)
    (phase : ProcessorPhase) (hstarting : phase ≠ .starting) (hended : phase ≠ .ended) :
    DeliveryInv parsing { s with
      processor := { s.processor with
        reader := s.processor.reader.afterLine s.fs file
        queue := s.processor.queue ++ (parsing.event (first newline (s.fs.rest file))).toList
        phase } } := by
  have hkeeps := EveReader.afterLine_keeps s.fs hfile
  have hline := isLine_first hmem
  have hdelivered : ∀ queue, s.committed ++ (s.processor.queue ++ queue) = s.delivered ++ queue :=
    fun queue => (List.append_assoc _ _ _).symm
  refine ⟨hkeeps.ok inv.reader, fun h => absurd h hstarting, ?_, fun h => absurd h hended,
    ?_, ?_⟩
  · rintro - file' hfile'
    rw [EveReader.afterLine_reader] at hfile'
    obtain rfl := Option.some.inj hfile'
    obtain ⟨b, hbegins, hb, htail, older, hevents⟩ := inv.segment hrunning file hfile
    have hfirst : (s.fs.rest file).take (first newline (s.fs.rest file)).length =
        first newline (s.fs.rest file) :=
      (List.prefix_iff_eq_take.mp (first_isPrefix newline (s.fs.rest file))).symm
    have hbetween := between_advance s.fs hb (first newline (s.fs.rest file)).length
    rw [hfirst] at hbetween
    refine ⟨b, hbegins, Nat.le_trans hb (Nat.le_add_right _ _), ?_, ?_⟩
    · show tail newline (s.fs.between file.inode b (file.pos + _)) = []
      rw [hbetween, tail_append_line htail hline]
    · show parsing.events (s.fs.between file.inode b (file.pos + _)) <:+ s.committed ++ (_ ++ _)
      rw [hbetween, Parsing.events_append_line htail hline, hdelivered, ← hevents, List.append_assoc]
      exact List.suffix_append _ _
  · intro j hj
    obtain ⟨hlt, b, hbegins, hevents⟩ := inv.passed j hj
    refine ⟨hlt, b, hbegins, ?_⟩
    show _ <:+: s.committed ++ (_ ++ _)
    rw [hdelivered]
    exact hevents.trans (List.prefix_append _ _).isInfix
  · intro d hd
    rw [hkeeps.completed] at hd
    obtain ⟨hlookup, g, current, hparse, hcurrent, hlt⟩ := inv.completed d hd
    exact ⟨hlookup, g, current, hparse, (EveReader.afterLine_spool _ _ _).trans hcurrent, hlt⟩

/-- The sink has refused an event: nothing more will be delivered. -/
theorem DeliveryInv.panicked (inv : DeliveryInv parsing s) {r : EveReader}
    (hr : EveReader.Keeps s.fs s.processor.reader r) (hspool : r.spool = s.processor.reader.spool) :
    DeliveryInv parsing ((s.withReader r).withPhase .panicked) where
  reader := hr.ok inv.reader
  fresh h := by cases h
  segment h := absurd rfl h.2
  ended h := by cases h
  passed := inv.passed
  completed d hd := by
    rw [System.withPhase, System.withReader, hr.completed] at hd
    obtain ⟨hlookup, g, current, hparse, hcurrent, hlt⟩ := inv.completed d hd
    exact ⟨hlookup, g, current, hparse, hspool.trans hcurrent, hlt⟩

theorem DeliveryInv.poll (inv : DeliveryInv parsing s) {answer : Option Bool}
    (hok : s.Undisturbed (.poll answer)) (h : s.poll parsing answer = some s') :
    DeliveryInv parsing s' := by
  unfold System.poll at h
  split at h
  · rename_i hphase
    have hopened := inv.opened (by rw [hphase]; nofun)
    have hrunning : (s.withReader (s.processor.reader.opened s.fs)).running := by
      constructor <;> (show s.processor.phase ≠ _; rw [hphase]; nofun)
    rcases EveReader.pollLine_cases parsing.fromStr s.processor.reader s.fs with
      ⟨-, err, hpoll⟩ | ⟨file, hfile, hpoll⟩
    · rw [hpoll] at h
      obtain rfl := Option.some.inj h
      exact hopened
    · -- the reader with its open file, in the place of the old one
      rw [hpoll] at h
      have hcases := EveReader.pollOpen_cases parsing.fromStr s.fs hfile
      rcases hcases with ⟨hmem, -, hopen⟩ | ⟨hmem, htorn, -⟩ | ⟨hmem, ⟨record, hrecord, hopen⟩ |
        ⟨hrecord, hopen⟩⟩
      · rw [hopen] at h
        obtain rfl := Option.some.inj h
        refine ⟨?_, nofun, fun _ => hopened.segment hrunning, fun _ => ⟨file, hfile, fun _ => hmem⟩,
          inv.passed, hopened.completed⟩
        exact ⟨hopened.reader.bounded, hopened.reader.spool, hopened.reader.bound⟩
      · rw [hok file hfile hmem] at htorn
        cases htorn
      · rw [hopen] at h
        have hevent : parsing.event (first newline (s.fs.rest file)) = some (parsing.filters record) := by
          rw [Parsing.event, hrecord]
          rfl
        cases answer with
        | none =>
            obtain rfl := Option.some.inj h
            exact hopened.panicked (EveReader.afterLine_keeps s.fs hfile)
              (EveReader.afterLine_spool _ _ _)
        | some commit =>
            obtain rfl := Option.some.inj h
            have htaken := hopened.takeLine hrunning hfile hmem
            rw [show (s.withReader (s.processor.reader.opened s.fs)).fs = s.fs from rfl, hevent] at htaken
            unfold System.submit
            dsimp only
            split
            · exact htaken (.committing false) nofun nofun
            · exact htaken .reading nofun nofun
      · have hevent : parsing.event (first newline (s.fs.rest file)) = none := by
          rw [Parsing.event, hrecord]
          rfl
        have htaken := hopened.takeLine hrunning hfile hmem .reading nofun nofun
        rw [show (s.withReader (s.processor.reader.opened s.fs)).fs = s.fs from rfl, hevent,
          Option.toList_none, List.append_nil] at htaken
        have hs' : s' = s.withReader ((s.processor.reader.opened s.fs).afterLine s.fs file) := by
          rcases hopen with hopen | ⟨err, hopen⟩ <;> rw [hopen] at h <;> exact (Option.some.inj h).symm
        rw [hs', System.withReader]
        rw [← hphase] at htaken
        exact htaken
  · cases h

/-! ## The end of a file -/

theorem DeliveryInv.look (inv : DeliveryInv parsing s) {readable : Bool}
    (h : s.look readable = some s') : DeliveryInv parsing s' := by
  unfold System.look at h
  split at h
  · rename_i hphase
    have hrunning : s.running := by constructor <;> (rw [hphase]; nofun)
    split at h
    · obtain rfl := Option.some.inj h
      exact inv.withPhase hrunning nofun nofun
    · split at h
      · rename_i reader hadvance
        obtain rfl := Option.some.inj h
        obtain ⟨next, hnext, rfl⟩ := Option.map_eq_some_iff.mp hadvance
        obtain ⟨current, hcurrent, hnewer⟩ := Option.bind_eq_some_iff.mp hnext
        obtain ⟨hparse, -, -, hlater⟩ := EveReader.newerFile_parse hnewer
        obtain ⟨file, hfile, hrest⟩ := inv.ended hphase
        have hspool : s.processor.reader.spool.isSome = true := by rw [hcurrent]; rfl
        -- all of the file has been delivered
        have hread : file.inode < s.fs.inodes.length ∧ ∃ b, s.Begins file.inode b ∧
            parsing.events ((s.fs.content file.inode).drop b) <:+: s.delivered := by
          obtain ⟨b, hbegins, hb, htail, hevents⟩ := inv.segment hrunning file hfile
          refine ⟨(inv.reader.bounded file hfile).1, b, hbegins, ?_⟩
          rw [← between_append_rest s.fs hb, Parsing.events_append_tail htail (hrest hspool)]
          exact hevents.isInfix
        have hpassed : ∀ j ∈ s.passed ++ (s.processor.reader.reader.map (·.inode)).toList,
            j < s.fs.inodes.length ∧ ∃ b, s.Begins j b ∧
              parsing.events ((s.fs.content j).drop b) <:+: s.delivered := by
          intro j hj
          rcases List.mem_append.mp hj with hj | hj
          · exact inv.passed j hj
          · rw [hfile] at hj
            obtain rfl := List.mem_singleton.mp hj
            exact hread
        have hcompleted : ∀ d ∈ s.processor.reader.completedSpoolFiles ++ [s.processor.reader.filename],
            (∀ j, s.fs.names.lookup d = some j →
              j ∈ s.passed ++ (s.processor.reader.reader.map (·.inode)).toList) ∧
            ∃ g current, SpoolFile.parse d = some g ∧ some next = some current ∧
              g.timestamp < current.timestamp := by
          intro d hd
          rcases List.mem_append.mp hd with hd | hd
          · obtain ⟨hlookup, g, current', hg, hcurrent', hlt⟩ := inv.completed d hd
            obtain rfl := Option.some.inj (hcurrent.symm.trans hcurrent')
            exact ⟨fun j hj => List.mem_append_left _ (hlookup j hj), g, next, hg, rfl,
              Nat.lt_trans hlt hlater⟩
          · obtain rfl := List.mem_singleton.mp hd
            refine ⟨?_, current, next, inv.reader.spool current hcurrent, rfl, hlater⟩
            intro j hj
            rw [hfile, inv.reader.bound hspool file hfile j hj]
            exact List.mem_append_right _ (List.mem_singleton_self _)
        have hok : (s.processor.reader.switchSpoolFile next).Ok s.fs :=
          (EveReader.switchSpoolFile_keeps hparse).ok inv.reader
        dsimp only
        split
        · exact ⟨⟨nofun, hok.spool, nofun⟩, nofun, fun _ => nofun, nofun, hpassed, hcompleted⟩
        · exact ⟨⟨nofun, hok.spool, nofun⟩, nofun, fun _ => nofun, nofun, hpassed,
            fun d hd => hcompleted d (List.mem_append_left _ hd)⟩
      · obtain rfl := Option.some.inj h
        exact inv.withPhase hrunning nofun nofun
  · cases h

theorem DeliveryInv.check (inv : DeliveryInv parsing s) (h : s.check = some s') :
    DeliveryInv parsing s' := by
  unfold System.check at h
  split at h
  · rename_i hphase
    have hrunning : s.running := by constructor <;> (rw [hphase]; nofun)
    split at h <;> obtain rfl := Option.some.inj h
    · exact inv.withPhase hrunning nofun nofun
    · exact inv.afterEof hrunning
  · cases h

theorem DeliveryInv.reopen (inv : DeliveryInv parsing s) (h : s.reopen = some s') :
    DeliveryInv parsing s' := by
  unfold System.reopen at h
  split at h
  · rename_i hphase
    obtain rfl := Option.some.inj h
    have hrunning : s.running := by constructor <;> (rw [hphase]; nofun)
    have hreopened : DeliveryInv parsing (s.withReader (s.processor.reader.reopen s.fs).2) := by
      have hopen := EveReader.open_keeps s.fs s.processor.reader
      apply inv.reposition (by rw [hphase]; nofun)
      · unfold EveReader.reopen
        split <;> rename_i hcase <;> rw [hcase] at hopen
        · exact ⟨fun hok => ⟨nofun, (hopen.ok hok).spool, nofun⟩, hopen.completed⟩
        · exact hopen
      · unfold EveReader.reopen EveReader.open
        split <;> rename_i hcase <;> split at hcase <;> cases hcase <;> rfl
      · intro file hfile _
        unfold EveReader.reopen EveReader.open at hfile
        split at hfile <;> rename_i hcase <;> split at hcase <;> cases hcase
        · cases hfile
        · obtain rfl := Option.some.inj hfile
          rfl
    exact hreopened.afterEof hrunning
  · cases h

/-! ## Bookmarks -/

/-- The completed files are removed. -/
theorem DeliveryInv.delete (inv : DeliveryInv parsing s) (names : List String) :
    DeliveryInv parsing { s with fs := names.foldl FileSystem.remove s.fs } := by
  induction names generalizing s with
  | nil => exact inv
  | cons name names ih => exact ih (inv.remove name)

theorem DeliveryInv.checkpoint (inv : DeliveryInv parsing s) (write : BookmarkWrite) :
    DeliveryInv parsing (s.checkpoint write) := by
  unfold System.checkpoint
  split
  · split
    · rename_i stuck
      have hdeleted := inv.delete (s.processor.reader.completedSpoolFiles.filter (· ∉ stuck))
      exact ⟨⟨hdeleted.reader.bounded, hdeleted.reader.spool, hdeleted.reader.bound⟩,
        fun h => ⟨(inv.fresh h).1, rfl⟩, hdeleted.segment, hdeleted.ended, hdeleted.passed, nofun⟩
    · exact inv
    · exact ⟨inv.reader, inv.fresh, inv.segment, inv.ended, inv.passed, inv.completed⟩
  · exact inv

theorem System.checkpoint_phase (s : System V) (write : BookmarkWrite) :
    (s.checkpoint write).processor.phase = s.processor.phase := by
  unfold System.checkpoint
  split
  · split <;> rfl
  · rfl

theorem DeliveryInv.noRecord (inv : DeliveryInv parsing s) {write : BookmarkWrite}
    (h : s.noRecord write = some s') : DeliveryInv parsing s' := by
  unfold System.noRecord at h
  split at h
  · rename_i hphase
    have hrunning : s.running := by constructor <;> (rw [hphase]; nofun)
    split at h
    · obtain rfl := Option.some.inj h
      exact inv.withPhase hrunning nofun nofun
    · obtain rfl := Option.some.inj h
      have hnext : ∀ t : System V, DeliveryInv parsing t → t.running → DeliveryInv parsing
          (if t.processor.oneshot then t.afterEof else t.withPhase .checking) := by
        intro t ht hrunning
        split
        · exact ht.afterEof hrunning
        · exact ht.withPhase hrunning nofun nofun
      by_cases hcompleted : s.processor.reader.hasCompletedSpoolFiles = true
      · rw [if_pos hcompleted]
        apply hnext _ (inv.checkpoint write)
        unfold System.running
        rw [System.checkpoint_phase]
        exact hrunning
      · rw [if_neg hcompleted]
        exact hnext s inv hrunning
  · cases h

/-- The sink stores its events. -/
def System.store (s : System V) : System V :=
  { s with
    committed := s.committed ++ s.processor.queue
    processor := { s.processor with queue := [] } }

theorem System.store_delivered (s : System V) : s.store.delivered = s.delivered :=
  List.append_nil _

theorem DeliveryInv.store (inv : DeliveryInv parsing s) : DeliveryInv parsing s.store := by
  refine ⟨inv.reader, inv.fresh, ?_, inv.ended, ?_, inv.completed⟩
  · rw [System.store_delivered]
    exact inv.segment
  · rw [System.store_delivered]
    exact inv.passed

theorem DeliveryInv.commit (inv : DeliveryInv parsing s) {result : Option BookmarkWrite}
    (h : s.commit result = some s') : DeliveryInv parsing s' := by
  unfold System.commit at h
  split at h
  · obtain rfl := Option.some.inj h
    exact inv
  · rename_i eof write hphase
    obtain rfl := Option.some.inj h
    have hafter : DeliveryInv parsing (s.store.checkpoint write) := inv.store.checkpoint write
    have hrunning : (s.store.checkpoint write).running := by
      unfold System.running
      rw [System.checkpoint_phase]
      constructor <;> (show s.processor.phase ≠ _; rw [hphase]; nofun)
    show DeliveryInv parsing
      (if eof then (s.store.checkpoint write).afterEof else (s.store.checkpoint write).withPhase .reading)
    split
    · exact hafter.afterEof hrunning
    · exact hafter.withPhase hrunning nofun nofun
  · cases h

/-! ## The start -/

/-- What the moves of a reader keep, the start of the processor keeps. -/
theorem EveReader.Closed.initFromBookmark {P : EveReader → Prop} (hP : EveReader.Closed s.fs P)
    (h : P s.processor.reader) : P s.initFromBookmark.2 := by
  unfold System.initFromBookmark
  dsimp only
  split
  · split
    · exact h
    · rename_i bookmark _ _ _
      have hselect := hP.selectBookmark bookmark.path h
      split <;> rename_i hcase <;> rw [hcase] at hselect
      · exact hselect
      · have hskip := hP.gotoLineno bookmark.offset hselect
        split <;> rename_i hcase' <;> rw [hcase'] at hskip <;> exact hskip
  · exact h

/-- The reader with which the loop starts. -/
def System.startReader (s : System V) : EveReader :=
  if !s.initFromBookmark.1 && s.processor.end then (s.initFromBookmark.2.gotoEnd s.fs).2
  else s.initFromBookmark.2

theorem EveReader.Closed.startReader {P : EveReader → Prop} (hP : EveReader.Closed s.fs P)
    (h : P s.processor.reader) : P s.startReader := by
  unfold System.startReader
  split
  · exact hP.gotoEnd (hP.initFromBookmark h)
  · exact hP.initFromBookmark h

theorem System.start_some (h : s.start = some s') : s.processor.phase = .starting ∧
    s' = { (s.withReader s.startReader).withPhase .reading with origin := s.startReader.reader } := by
  unfold System.start at h
  split at h
  · rename_i hphase
    exact ⟨hphase, (Option.some.inj h).symm⟩
  · cases h

theorem DeliveryInv.start (inv : DeliveryInv parsing s) (h : s.start = some s') :
    DeliveryInv parsing s' := by
  obtain ⟨hphase, rfl⟩ := System.start_some h
  obtain ⟨hpassed, hcompleted⟩ := inv.fresh hphase
  have hkeeps : EveReader.Keeps s.fs s.processor.reader s.startReader :=
    (EveReader.closed_keeps s.fs s.processor.reader).startReader (.refl _ _)
  refine ⟨hkeeps.ok inv.reader, nofun, ?_, nofun, ?_, ?_⟩
  · -- the run begins where the reader stands
    intro _ file hfile
    refine ⟨file.pos, Or.inr hfile, Nat.le_refl _, ?_⟩
    rw [FileSystem.between_self]
    exact ⟨rfl, List.nil_suffix⟩
  · intro j hj
    replace hj : j ∈ s.passed := hj
    rw [hpassed] at hj
    cases hj
  · intro d hd
    replace hd : d ∈ s.startReader.completedSpoolFiles := hd
    rw [hkeeps.completed, hcompleted] at hd
    cases hd

/-- Every step that nothing disturbs keeps the invariant. -/
theorem DeliveryInv.step (inv : DeliveryInv parsing s) {op : SystemOp} (hok : s.Undisturbed op)
    (h : s.step parsing op = some s') : DeliveryInv parsing s' := by
  cases op with
  | append inode bytes =>
      obtain rfl := Option.some.inj h
      exact inv.append hok
  | create name =>
      obtain rfl := Option.some.inj h
      exact inv.create hok
  | remove name =>
      obtain rfl := Option.some.inj h
      exact inv.remove name
  | start => exact inv.start h
  | poll answer => exact inv.poll hok h
  | look readable => exact inv.look h
  | noRecord write => exact inv.noRecord h
  | check => exact inv.check h
  | reopen => exact inv.reopen h
  | commit result => exact inv.commit h

theorem EveInput.fromPath_parse {path : String} {g : SpoolFile}
    (h : (EveInput.fromPath path).spoolFile = some g) :
    SpoolFile.parse (EveInput.fromPath path).path = some g := by
  unfold EveInput.fromPath at h ⊢
  split at h
  · rename_i f hparse
    obtain rfl := Option.some.inj h
    show SpoolFile.parse f.path = some f
    rw [EveReader.parse_path hparse, hparse]
  · cases h

theorem DeliveryInv.new (fs : FileSystem) (bookmark : Option Bookmark) (path : String)
    (bookmarkFilename atEnd oneshot delete : Bool) :
    DeliveryInv parsing
      (.new fs bookmark (.fromPath path) bookmarkFilename atEnd oneshot delete) where
  reader := ⟨nofun, fun _ => EveInput.fromPath_parse, fun _ => nofun⟩
  fresh _ := ⟨rfl, rfl⟩
  segment h := absurd rfl h.1
  ended := nofun
  passed := nofun
  completed := nofun

/-! ## Checkpoints -/

/-- The checkpoint writes the bookmark. -/
def System.checkpoints (s : System V) : BookmarkWrite → Bool
  | .written _ => s.processor.bookmarkFilename && s.processor.reader.reader.isSome
  | _ => false

/-- The step writes the bookmark. -/
def System.writesBookmark (s : System V) : SystemOp → Bool
  | .noRecord write => s.processor.queue.isEmpty && s.processor.reader.hasCompletedSpoolFiles &&
      s.checkpoints write
  | .commit (some write) => s.checkpoints write
  | _ => false

/-- The step is one of the processor's. -/
def SystemOp.ofProcessor : SystemOp → Bool
  | .append _ _ | .create _ | .remove _ => false
  | _ => true

theorem System.checkpoint_written {write : BookmarkWrite} (h : s.checkpoints write = true) :
    (s.checkpoint write).processor.queue = s.processor.queue ∧
      (s.checkpoint write).processor.reader.filename = s.processor.reader.filename ∧
      ∃ b, (s.checkpoint write).bookmark = some b ∧
        ((s.checkpoint write).processor.reader.metadata (s.checkpoint write).fs).map .fromMetadata =
          some b := by
  unfold System.checkpoints at h
  split at h
  · rename_i stuck
    rw [Bool.and_eq_true, Option.isSome_iff_exists] at h
    obtain ⟨hfile, file, hreader⟩ := h
    unfold System.checkpoint EveReader.metadata
    simp only [hfile, hreader, Option.map_some, EveReader.deleteCompletedSpoolFiles, System.withReader,
      FileSystem.content_removed]
    exact ⟨trivial, trivial, _, rfl, rfl⟩
  · cases h

/-- A name that the checkpoint removes is that of a completed file, and the bookmark is written. -/
theorem System.checkpoint_removes {write : BookmarkWrite} {d : String} {j : ℕ}
    (hd : s.fs.names.lookup d = some j) (h : (s.checkpoint write).fs.names.lookup d = none) :
    s.checkpoints write = true ∧ d ∈ s.processor.reader.completedSpoolFiles := by
  have hmem : ∀ names : List String, (names.foldl FileSystem.remove s.fs).names.lookup d = none →
      d ∈ names := by
    intro names hnone
    by_contra hnot
    rw [FileSystem.lookup_not_removed hnot, hd] at hnone
    cases hnone
  unfold System.checkpoint at h
  split at h
  · rename_i m hfile hm
    split at h
    · refine ⟨?_, (List.mem_filter.mp (hmem _ h)).1⟩
      obtain ⟨file, hreader, -⟩ := Option.map_eq_some_iff.mp hm
      rw [System.checkpoints, hfile, hreader]
      rfl
    · rw [hd] at h
      cases h
    · rw [show ({ s with bookmark := none } : System V).fs = s.fs from rfl, hd] at h
      cases h
  · rw [hd] at h
    cases h

/-- What a written bookmark stands for: nothing is pending, and what the run has read has been committed, of
the open file up to the position that the bookmark records, and of the spool files before it to the end. -/
structure System.Committed (parsing : Parsing V) (s : System V) : Prop where
  pending : s.processor.queue = []
  position : ∃ file b, s.processor.reader.reader = some file ∧
    s.bookmark = some ⟨s.processor.reader.filename, s.processor.reader.lineno,
      (s.fs.content file.inode).length, file.inode⟩ ∧
    s.Begins file.inode b ∧ b ≤ file.pos ∧
      parsing.events (s.fs.between file.inode b file.pos) <:+ s.committed
  passed : ∀ j ∈ s.passed, ∃ b, s.Begins j b ∧
    parsing.events ((s.fs.content j).drop b) <:+: s.committed

theorem DeliveryInv.committed (inv : DeliveryInv parsing s) (hrunning : s.running)
    (hqueue : s.processor.queue = [])
    (hbookmark : ∃ b, s.bookmark = some b ∧
      (s.processor.reader.metadata s.fs).map .fromMetadata = some b) : s.Committed parsing := by
  have hdelivered : s.delivered = s.committed := by
    rw [System.delivered, hqueue, List.append_nil]
  refine ⟨hqueue, ?_, ?_⟩
  · obtain ⟨b, hbookmark, hmetadata⟩ := hbookmark
    rw [EveReader.metadata, Option.map_map] at hmetadata
    obtain ⟨file, hfile, rfl⟩ := Option.map_eq_some_iff.mp hmetadata
    obtain ⟨b, hbegins, hb, -, hevents⟩ := inv.segment hrunning file hfile
    rw [hdelivered] at hevents
    exact ⟨file, b, hfile, hbookmark, hbegins, hb, hevents⟩
  · intro j hj
    obtain ⟨-, hread⟩ := inv.passed j hj
    rw [hdelivered] at hread
    exact hread

/-- The name of a completed file is not that of the open one. -/
theorem DeliveryInv.ne_filename (inv : DeliveryInv parsing s) {d : String}
    (hd : d ∈ s.processor.reader.completedSpoolFiles) : d ≠ s.processor.reader.filename := by
  rintro rfl
  obtain ⟨-, g, current, hparse, hcurrent, hlt⟩ := inv.completed _ hd
  rw [inv.reader.spool current hcurrent] at hparse
  obtain rfl := Option.some.inj hparse
  exact Nat.lt_irrefl _ hlt

theorem System.Committed.withPhase (h : s.Committed parsing) (phase : ProcessorPhase) :
    (s.withPhase phase).Committed parsing := ⟨h.pending, h.position, h.passed⟩

theorem System.checkpoint_origin (s : System V) (write : BookmarkWrite) :
    (s.checkpoint write).passed = s.passed := by
  unfold System.checkpoint
  split
  · split <;> rfl
  · rfl

/-- What a checkpoint of a state without pending events stands for. -/
theorem DeliveryInv.checkpoint_committed (inv : DeliveryInv parsing s) (hrunning : s.running)
    (hqueue : s.processor.queue = []) {write : BookmarkWrite} (h : s.checkpoints write = true) :
    (s.checkpoint write).Committed parsing := by
  obtain ⟨hsame, -, hbookmark⟩ := System.checkpoint_written h
  apply (inv.checkpoint write).committed
  · unfold System.running
    rw [System.checkpoint_phase]
    exact hrunning
  · rw [hsame, hqueue]
  · exact hbookmark

/-- What a removed spool file stands for: the bookmark has just been written, and it names another file; the
removed file has been read to its end. -/
theorem DeliveryInv.checkpoint_removed (inv : DeliveryInv parsing s) {write : BookmarkWrite}
    {d : String} {j : ℕ} (hd : s.fs.names.lookup d = some j)
    (h : (s.checkpoint write).fs.names.lookup d = none) :
    s.checkpoints write = true ∧ j ∈ (s.checkpoint write).passed ∧
      d ≠ (s.checkpoint write).processor.reader.filename := by
  obtain ⟨hwrites, hmem⟩ := System.checkpoint_removes hd h
  obtain ⟨-, hname, -⟩ := System.checkpoint_written hwrites
  rw [System.checkpoint_origin, hname]
  exact ⟨hwrites, (inv.completed d hmem).1 j hd, inv.ne_filename hmem⟩

/-- What a step of the processor does to the bookmark and to the directory. -/
structure CheckpointLaw (parsing : Parsing V) (s : System V) (op : SystemOp) (s' : System V) : Prop where
  written : s.writesBookmark op = true → s'.Committed parsing
  removed : op.ofProcessor = true → ∀ d j, s.fs.names.lookup d = some j →
    s'.fs.names.lookup d = none →
      s.writesBookmark op = true ∧ j ∈ s'.passed ∧ d ≠ s'.processor.reader.filename

/-- A step that leaves the files and writes no bookmark. -/
theorem CheckpointLaw.of_files {op : SystemOp} (hop : s.writesBookmark op = false)
    (hfs : op.ofProcessor = true → s'.fs = s.fs) : CheckpointLaw parsing s op s' := by
  refine ⟨fun h => ?_, fun hp d j hd h => ?_⟩
  · rw [hop] at h
    cases h
  · rw [hfs hp, hd] at h
    cases h

/-- A step of the processor leaves the files, or it is a checkpoint without pending events. -/
theorem System.step_checkpoint {op : SystemOp} (hop : op.ofProcessor = true)
    (h : s.step parsing op = some s') :
    (s'.fs = s.fs ∧ s.writesBookmark op = false) ∨
      s.running ∧ ∃ (u : System V) (write : BookmarkWrite) (phase : ProcessorPhase),
        (u = s ∧ s.processor.queue = [] ∨ u = s.store) ∧ s' = (u.checkpoint write).withPhase phase ∧
          s.writesBookmark op = u.checkpoints write := by
  cases op with
  | append inode bytes => cases hop
  | create name => cases hop
  | remove name => cases hop
  | start =>
      left
      obtain ⟨-, rfl⟩ := System.start_some h
      exact ⟨rfl, rfl⟩
  | poll answer =>
      left
      refine ⟨?_, rfl⟩
      simp only [System.step, System.poll] at h
      split at h
      · split at h <;> obtain rfl := Option.some.inj h
        · cases answer <;> rfl
        · rfl
        · rfl
        · rfl
      · cases h
  | look readable =>
      left
      refine ⟨?_, rfl⟩
      simp only [System.step, System.look] at h
      split at h
      · split at h
        · obtain rfl := Option.some.inj h
          rfl
        · split at h <;> obtain rfl := Option.some.inj h <;> rfl
      · cases h
  | check =>
      left
      refine ⟨?_, rfl⟩
      simp only [System.step, System.check] at h
      split at h
      · split at h <;> obtain rfl := Option.some.inj h <;> rfl
      · cases h
  | reopen =>
      left
      refine ⟨?_, rfl⟩
      simp only [System.step, System.reopen] at h
      split at h
      · obtain rfl := Option.some.inj h
        rfl
      · cases h
  | noRecord write =>
      simp only [System.step, System.noRecord] at h
      split at h
      · rename_i hphase
        have hrunning : s.running := by constructor <;> (rw [hphase]; rintro ⟨⟩)
        split at h
        · rename_i hqueue
          obtain rfl := Option.some.inj h
          left
          refine ⟨rfl, ?_⟩
          simp [System.writesBookmark, hqueue]
        · rename_i hqueue
          rw [not_not] at hqueue
          by_cases hcompleted : s.processor.reader.hasCompletedSpoolFiles = true
          · right
            rw [if_pos hcompleted] at h
            -- the checkpoint, with another phase
            obtain ⟨phase, rfl⟩ : ∃ phase, s' = (s.checkpoint write).withPhase phase := by
              split at h <;> obtain rfl := Option.some.inj h
              · exact ⟨_, rfl⟩
              · exact ⟨_, rfl⟩
            refine ⟨hrunning, s, write, phase, Or.inl ⟨rfl, hqueue⟩, rfl, ?_⟩
            simp [System.writesBookmark, hqueue, hcompleted]
          · left
            rw [if_neg hcompleted] at h
            refine ⟨?_, by simp [System.writesBookmark, hcompleted]⟩
            split at h <;> obtain rfl := Option.some.inj h <;> rfl
      · cases h
  | commit result =>
      simp only [System.step, System.commit] at h
      split at h
      · left
        obtain rfl := Option.some.inj h
        exact ⟨rfl, rfl⟩
      · rename_i eof write hphase
        right
        have hrunning : s.running := by constructor <;> (rw [hphase]; rintro ⟨⟩)
        obtain ⟨phase, rfl⟩ : ∃ phase, s' = (s.store.checkpoint write).withPhase phase := by
          obtain rfl := Option.some.inj h
          split
          · exact ⟨_, rfl⟩
          · exact ⟨_, rfl⟩
        exact ⟨hrunning, s.store, write, phase, Or.inr rfl, rfl, rfl⟩
      · cases h

theorem DeliveryInv.step_law (inv : DeliveryInv parsing s) {op : SystemOp}
    (h : s.step parsing op = some s') : CheckpointLaw parsing s op s' := by
  by_cases hop : op.ofProcessor = true
  · rcases System.step_checkpoint hop h with ⟨hfs, hwrites⟩ | ⟨hrunning, u, write, phase, hu, rfl, hwrites⟩
    · exact .of_files hwrites fun _ => hfs
    · -- the state that the checkpoint starts from
      obtain ⟨invu, hqueue, hrunningu, hfs⟩ : DeliveryInv parsing u ∧ u.processor.queue = [] ∧ u.running ∧
          u.fs = s.fs := by
        rcases hu with ⟨rfl, hqueue⟩ | rfl
        · exact ⟨inv, hqueue, hrunning, rfl⟩
        · exact ⟨inv.store, rfl, hrunning, rfl⟩
      refine ⟨fun hw => ?_, fun _ d j hd hnone => ?_⟩
      · rw [hwrites] at hw
        exact (invu.checkpoint_committed hrunningu hqueue hw).withPhase phase
      · rw [hwrites]
        rw [← hfs] at hd
        exact invu.checkpoint_removed hd hnone
  · apply CheckpointLaw.of_files
    · cases op <;> first | rfl | exact absurd rfl hop
    · exact fun hp => absurd hp hop

/-- In every run that nothing disturbs, with any pattern of failed commits and of ends of files: what has
been read by this run is committed whenever a bookmark is written, and whenever a spool file is removed. -/
theorem checkpoint_law {fs : FileSystem} {bookmark : Option Bookmark} {path : String}
    {bookmarkFilename atEnd oneshot delete : Bool} {ops : List SystemOp} {op : SystemOp}
    (hok : Along (System.step parsing) System.Undisturbed
      (.new fs bookmark (.fromPath path) bookmarkFilename atEnd oneshot delete) ops)
    (h : exec (System.step parsing)
      (.new fs bookmark (.fromPath path) bookmarkFilename atEnd oneshot delete) ops = some s)
    (hstep : s.step parsing op = some s') : CheckpointLaw parsing s op s' := by
  have inv : DeliveryInv parsing s :=
    invariant_along (P := DeliveryInv parsing) (fun _ _ _ inv hok hstep => inv.step hok hstep)
      (.new fs bookmark path bookmarkFilename atEnd oneshot delete) hok h
  exact inv.step_law hstep

/-! ## Runs -/

/-- Every line that is not blank is a record. -/
def anyLine : Parsing (List Char) := ⟨some, id⟩

/-- Two spool files, with a record in each. -/
def twoSpoolFiles : FileSystem :=
  (((FileSystem.empty.create "eve.json.1700000001").append 0 [49, 10]).create
    "eve.json.1700000002").append 1 [50, 10]

/-- The first file is read, then the second; the commit fails once. -/
def spoolRun : List SystemOp :=
  [.start, .poll (some false), .poll none, .look true, .poll (some false), .poll none, .look true,
    .noRecord .refused, .commit none]

theorem checkpoint_law_spoolRun :
    ∃ s s', exec (System.step anyLine)
        (.new twoSpoolFiles none (.fromPath "eve.json.1700000001") true false false true) spoolRun = some s ∧
      s.step anyLine (.commit (some (.written []))) = some s' ∧
      s'.committed = [['1'], ['2']] ∧ s'.fs.entries = ["eve.json.1700000002"] ∧
      CheckpointLaw anyLine s (.commit (some (.written []))) s' := by
  have hrun : ((exec (System.step anyLine)
      (.new twoSpoolFiles none (.fromPath "eve.json.1700000001") true false false true) spoolRun).bind
        fun s => (s.step anyLine (.commit (some (.written [])))).map fun s' =>
          (s'.committed, s'.fs.entries)) = some ([['1'], ['2']], ["eve.json.1700000002"]) := by
    decide +kernel
  obtain ⟨s, hs, hrun⟩ := Option.bind_eq_some_iff.mp hrun
  obtain ⟨s', hs', hresult⟩ := Option.map_eq_some_iff.mp hrun
  obtain ⟨hcommitted, hentries⟩ := Prod.mk.inj hresult
  exact ⟨s, s', hs, hs', hcommitted, hentries, checkpoint_law (by decide +kernel) hs hs'⟩

/-- A processor that starts at the end of the file has not delivered what lies before. -/
def tailRun : List SystemOp := [.start, .append 0 [50, 10], .poll (some true)]

theorem tailRun_skips :
    ∃ s s' file, exec (System.step anyLine)
        (.new ((FileSystem.empty.create "eve.json").append 0 [49, 10]) none (.fromPath "eve.json") true true
          false false) tailRun = some s ∧
      s.step anyLine (.commit (some (.written []))) = some s' ∧
      s.writesBookmark (.commit (some (.written []))) = true ∧
      s'.processor.reader.reader = some file ∧
      ['1'] ∈ anyLine.events (s'.fs.between file.inode 0 file.pos) ∧ ['1'] ∉ s'.committed := by
  have hrun : ((exec (System.step anyLine)
      (.new ((FileSystem.empty.create "eve.json").append 0 [49, 10]) none (.fromPath "eve.json") true true
        false false) tailRun).bind fun s => (s.step anyLine (.commit (some (.written [])))).bind fun s' =>
          s'.processor.reader.reader.map fun file =>
            (s.writesBookmark (.commit (some (.written []))),
              anyLine.events (s'.fs.between file.inode 0 file.pos), s'.committed)) =
      some (true, [['1'], ['2']], [['2']]) := by
    decide +kernel
  obtain ⟨s, hs, hrun⟩ := Option.bind_eq_some_iff.mp hrun
  obtain ⟨s', hs', hrun⟩ := Option.bind_eq_some_iff.mp hrun
  obtain ⟨file, hfile, hresult⟩ := Option.map_eq_some_iff.mp hrun
  obtain ⟨hwrites, hevents, hcommitted⟩ := by simpa only [Prod.mk.injEq] using hresult
  refine ⟨s, s', file, hs, hs', hwrites, hfile, ?_, ?_⟩
  · rw [hevents]
    decide
  · rw [hcommitted]
    decide

end

end EveBox.Eve
