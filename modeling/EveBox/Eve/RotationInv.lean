import EveBox.Eve.Rotation

/-!
# The reader among the files of a writer

`RotationInv` says where the reader stands among the files of the writer, and that everything up to there has
been delivered. What the writer does keeps it, a rotation as long as the reader has the file open.
-/

namespace EveBox.Eve

open Rust Lines Transition

variable {V : Type*} {parsing : Parsing V}

/-! ## Names -/

theorem Later.trans {a b c : String} (h : Later a b) (h' : Later b c) : Later a c := by
  obtain ⟨g, hg, g', hg', hkey, hlt⟩ := h
  obtain ⟨k, hk, k', hk', hkey', hlt'⟩ := h'
  obtain rfl := Option.some.inj (hg'.symm.trans hk)
  exact ⟨g, hg, k', hk', hkey'.trans hkey, Nat.lt_trans hlt hlt'⟩

theorem Later.ne {a b : String} (h : Later a b) : a ≠ b := by
  rintro rfl
  obtain ⟨g, hg, g', hg', -, hlt⟩ := h
  obtain rfl := Option.some.inj (hg.symm.trans hg')
  exact Nat.lt_irrefl _ hlt

theorem Later.parse_left {a b : String} (h : Later a b) : SpoolFile.parse a ≠ none := by
  obtain ⟨g, hg, -⟩ := h
  rw [Option.mem_def.mp hg]
  exact Option.some_ne_none g

theorem Later.parse_right {a b : String} (h : Later a b) : SpoolFile.parse b ≠ none := by
  obtain ⟨-, -, g', hg', -⟩ := h
  rw [Option.mem_def.mp hg']
  exact Option.some_ne_none g'

/-- The next spool file is the first of those that are later. -/
theorem exists_next_le {self g' : SpoolFile} {entries : List String}
    (hmem : g' ∈ entries.filterMap SpoolFile.parse) (hkey : g'.key = self.key)
    (hlt : self.timestamp < g'.timestamp) :
    ∃ g, self.next entries = some g ∧ g.timestamp ≤ g'.timestamp := by
  -- the loop has found a file that is not later than this one
  let Found (next : Option SpoolFile) : Prop := ∃ g, next = some g ∧ g.timestamp ≤ g'.timestamp
  have hfound : Found (self.next entries) := by
    obtain ⟨before, after, hsplit⟩ := List.append_of_mem hmem
    unfold SpoolFile.next SpoolFile.newerFile
    rw [hsplit, List.foldl_append, List.foldl_cons]
    refine List.foldlRecOn _ _ (motive := Found) ?_ ?_
    · rw [if_neg (by rw [not_or, not_not, Nat.not_le]; exact ⟨hkey, hlt⟩)]
      split
      · exact ⟨g', rfl, Nat.le_refl _⟩
      · rename_i hbetter
        unfold SpoolFile.isBetter at hbetter
        split at hbetter
        · exact absurd rfl hbetter
        · rename_i current hcurrent
          refine ⟨current, hcurrent, ?_⟩
          simpa using hbetter
    · rintro next ⟨current, rfl, hle⟩ candidate -
      split
      · exact ⟨current, rfl, hle⟩
      · split
        · rename_i hbetter
          have hearlier : candidate.timestamp < current.timestamp := by
            simpa [SpoolFile.isBetter] using hbetter
          exact ⟨candidate, rfl, by omega⟩
        · exact ⟨current, rfl, hle⟩
  exact hfound

theorem mem_entries {fs : FileSystem} {d : String} {j : ℕ} (h : fs.names.lookup d = some j) :
    d ∈ fs.entries := by
  have hmem : d ∈ fs.names := AList.lookup_isSome.mp (by rw [h]; rfl)
  exact AList.mem_keys.mp hmem

theorem exists_lookup {fs : FileSystem} {d : String} (h : d ∈ fs.entries) :
    ∃ j, fs.names.lookup d = some j :=
  Option.isSome_iff_exists.mp (AList.lookup_isSome.mpr (AList.mem_keys.mpr h))

/-! ## The reader among the files of the writer -/

/-- The reader stands in a file of the writer, or has still to open it. -/
structure EveReader.Stands (r : EveReader) (fs : FileSystem) (f : WrittenFile) (pos : ℕ) : Prop where
  filename : r.filename = f.name
  reader : r.reader = some ⟨f.inode, pos⟩ ∨ r.reader = none ∧ pos = 0
  bounded : pos ≤ (fs.content f.inode).length
  offset : r.offset ≤ pos
  line : tail newline ((fs.content f.inode).take pos) = []

/-- The writer has written whole lines, each of its files in an inode of its own. -/
structure Rotation.Chain (fs : FileSystem) (files : List WrittenFile) : Prop where
  whole : ∀ f ∈ files, tail newline (fs.content f.inode) = []
  bound : ∀ f ∈ files, f.inode < fs.inodes.length
  nodup : (files.map (·.inode)).Nodup

/-- The name of a plain file: that of the file of the reader, of none while the file is rotated, or of the
file after it. -/
inductive Rotation.Link (fs : FileSystem) (r : EveReader) (f : WrittenFile) : List WrittenFile → Prop
  | linked : fs.names.lookup f.name = some f.inode → Link fs r f []
  | unlinked : fs.names.lookup f.name = none → r.reader ≠ none → Link fs r f []
  | rotated (f' : WrittenFile) : fs.names.lookup f.name = some f'.inode → r.reader ≠ none → Link fs r f [f']

theorem Rotation.Link.mono {fs fs' : FileSystem} {r r' : EveReader} {f : WrittenFile}
    {after : List WrittenFile} (h : Rotation.Link fs r f after) (hnames : fs'.names = fs.names)
    (hopen : r.reader ≠ none → r'.reader ≠ none) : Rotation.Link fs' r' f after := by
  cases h with
  | linked hlookup => exact .linked (hnames ▸ hlookup)
  | unlinked hlookup hreader => exact .unlinked (hnames ▸ hlookup) (hopen hreader)
  | rotated f' hlookup hreader => exact .rotated f' (hnames ▸ hlookup) (hopen hreader)

/-- The reader of a plain file. -/
structure Rotation.Plain (fs : FileSystem) (r : EveReader) (phase : ProcessorPhase) (f : WrittenFile)
    (after : List WrittenFile) : Prop where
  parse : SpoolFile.parse f.name = none
  spool : r.spool = none
  completed : r.completedSpoolFiles = []
  names : ∀ f' ∈ after, f'.name = f.name
  link : Rotation.Link fs r f after
  reopening : phase = .reopening → after ≠ []

/-- The reader of a spool: before it are the files that it may have deleted, and after it those that it will
find. -/
structure Rotation.Spool (fs : FileSystem) (r : EveReader) (phase : ProcessorPhase)
    (before : List WrittenFile) (f : WrittenFile) (after : List WrittenFile) : Prop where
  parse : SpoolFile.parse f.name ≠ none
  spool : r.spool = SpoolFile.parse f.name
  later : (before ++ f :: after).Pairwise fun f f' => Later f.name f'.name
  there : ∀ f' ∈ f :: after, fs.names.lookup f'.name = some f'.inode
  known : ∀ f' ∈ before, ∀ j, fs.names.lookup f'.name = some j → j = f'.inode
  all : ∀ entry ∈ fs.entries, Later f.name entry → ∃ f' ∈ after, f'.name = entry
  completed : ∀ d ∈ r.completedSpoolFiles, ∃ f' ∈ before, f'.name = d
  reopening : phase ≠ .reopening

/-- The events of the lines up to the reader. -/
def Parsing.upTo (parsing : Parsing V) (fs : FileSystem) (before : List WrittenFile) (f : WrittenFile)
    (pos : ℕ) : List V :=
  parsing.eventsOf fs before ++ parsing.events ((fs.content f.inode).take pos)

/-- The place of the reader, up to which everything has been delivered; if the sink has refused an event, not
that one. -/
structure Rotation.Placed (parsing : Parsing V) (t : Rotation V) (before : List WrittenFile)
    (f : WrittenFile) (pos : ℕ) (after : List WrittenFile) : Prop where
  files : t.files = before ++ f :: after
  stands : t.system.processor.reader.Stands t.system.fs f pos
  order : t.system.delivered <+: parsing.upTo t.system.fs before f pos
  delivered : t.system.processor.phase ≠ .panicked →
    t.system.delivered = parsing.upTo t.system.fs before f pos
  link : Rotation.Plain t.system.fs t.system.processor.reader t.system.processor.phase f after ∨
    Rotation.Spool t.system.fs t.system.processor.reader t.system.processor.phase before f after

/-- The processor has found the end of a file, and has not begun anew. -/
def ProcessorPhase.atEnd : ProcessorPhase → Bool
  | .ended | .noRecord | .checking => true
  | _ => false

/-- The invariant of a run. -/
structure RotationInv (parsing : Parsing V) (t : Rotation V) : Prop where
  chain : Rotation.Chain t.system.fs t.files
  fresh : t.system.processor.phase = .starting →
    t.system.bookmark = none ∧ t.system.processor.end = false
  opened : t.system.processor.phase.atEnd = true → t.system.processor.reader.reader ≠ none
  placed : ∃ before f pos after, t.Placed parsing before f pos after

section

variable {t : Rotation V} {before after : List WrittenFile} {f : WrittenFile} {pos : ℕ}

/-! ## Events -/

theorem Parsing.eventsOf_append (parsing : Parsing V) (fs : FileSystem) (files files' : List WrittenFile) :
    parsing.eventsOf fs (files ++ files') = parsing.eventsOf fs files ++ parsing.eventsOf fs files' :=
  List.flatMap_append

theorem Parsing.eventsOf_cons (parsing : Parsing V) (fs : FileSystem) (f : WrittenFile)
    (files : List WrittenFile) :
    parsing.eventsOf fs (f :: files) = parsing.events (fs.content f.inode) ++ parsing.eventsOf fs files := rfl

theorem Parsing.eventsOf_congr {fs fs' : FileSystem} {files : List WrittenFile}
    (h : ∀ f ∈ files, fs'.content f.inode = fs.content f.inode) :
    parsing.eventsOf fs' files = parsing.eventsOf fs files := by
  unfold Parsing.eventsOf
  rw [List.flatMap_def, List.flatMap_def]
  congr 1
  apply List.map_congr_left
  intro f hf
  rw [h f hf]

/-- The lines of a text are those up to the end of one of them, and those after it. -/
theorem Parsing.events_take_drop {text : Bytes} (h : tail newline (text.take pos) = []) :
    parsing.events text = parsing.events (text.take pos) ++ parsing.events (text.drop pos) := by
  unfold Parsing.events
  rw [(lines_of_boundary h).1, List.filterMap_append]

/-- The reader at the end of a file is before the next one. -/
theorem Parsing.upTo_end (parsing : Parsing V) {fs : FileSystem}
    (hend : (fs.content f.inode).drop pos = []) :
    parsing.upTo fs before f pos = parsing.eventsOf fs (before ++ [f]) := by
  have htake : (fs.content f.inode).take pos = fs.content f.inode := by
    conv_rhs => rw [← List.take_append_drop pos (fs.content f.inode), hend, List.append_nil]
  rw [Parsing.upTo, htake, Parsing.eventsOf_append, Parsing.eventsOf_cons]
  exact congrArg _ (List.append_nil _).symm

theorem Parsing.upTo_zero (parsing : Parsing V) (fs : FileSystem) :
    parsing.upTo fs before f 0 = parsing.eventsOf fs before :=
  List.append_nil _

namespace Rotation

/-- What has been written is what lies before the reader, the rest of its file, and the files after it. -/
theorem Placed.written (h : t.Placed parsing before f pos after) :
    t.written parsing = parsing.upTo t.system.fs before f pos ++
      (parsing.events ((t.system.fs.content f.inode).drop pos) ++ parsing.eventsOf t.system.fs after) := by
  rw [Rotation.written, h.files, Parsing.eventsOf_append, Parsing.eventsOf_cons,
    Parsing.events_take_drop h.stands.line, Parsing.upTo, List.append_assoc, List.append_assoc]

theorem Placed.current_mem (h : t.Placed parsing before f pos after) : t.current ∈ f :: after := by
  have hlast : (before ++ f :: after).getLast? = some t.current := by
    rw [← h.files, Rotation.files]
    exact List.getLast?_concat
  rw [List.getLast?_append_of_ne_nil _ (List.cons_ne_nil _ _)] at hlast
  exact List.mem_of_getLast? hlast

/-- Two of the files are not the same inode. -/
theorem Placed.inode_ne (h : t.Placed parsing before f pos after) (hchain : Chain t.system.fs t.files)
    {f' : WrittenFile} (hf' : f' ∈ before) {f'' : WrittenFile} (hf'' : f'' ∈ f :: after) :
    f'.inode ≠ f''.inode := by
  have hnodup := hchain.nodup
  rw [h.files, List.map_append, List.nodup_append] at hnodup
  exact hnodup.2.2 _ (List.mem_map_of_mem hf') _ (List.mem_map_of_mem hf'')

theorem Placed.after_eq_nil (h : t.Placed parsing before f pos after) (hchain : Chain t.system.fs t.files)
    (hinode : f.inode = t.current.inode) : after = [] := by
  rcases List.eq_nil_or_concat after with rfl | ⟨init, last, rfl⟩
  · rfl
  · have hnodup := hchain.nodup
    have hcurrent : t.current = last := by
      have hlast : (before ++ f :: (init.concat last)).getLast? = some t.current := by
        rw [← h.files, Rotation.files]
        exact List.getLast?_concat
      rw [List.concat_eq_append, ← List.cons_append, ← List.append_assoc, List.getLast?_concat] at hlast
      exact (Option.some.inj hlast).symm
    rw [h.files, List.map_append, List.map_cons, List.concat_eq_append] at hnodup
    have hne := (List.nodup_cons.mp (List.nodup_append.mp hnodup).2.1).1
    refine absurd ?_ hne
    rw [hinode, hcurrent]
    exact List.mem_map_of_mem (List.mem_append_right _ (List.mem_singleton_self _))

/-- What the place of the reader means for the lines. -/
theorem Placed.exact (h : t.Placed parsing before f pos after) (hchain : Chain t.system.fs t.files) :
    t.Exact parsing := by
  refine ⟨?_, ?_⟩
  · rw [h.written]
    exact h.order.trans (List.prefix_append _ _)
  · intro hphase file hfile hinode hrest
    obtain rfl : file = ⟨f.inode, pos⟩ := by
      rcases h.stands.reader with hreader | ⟨hreader, -⟩
      · exact Option.some.inj (hfile.symm.trans hreader)
      · rw [hreader] at hfile
        cases hfile
    obtain rfl := h.after_eq_nil hchain hinode
    rw [h.written, h.delivered hphase, show (t.system.fs.content f.inode).drop pos = [] from hrest]
    exact (List.append_nil _).symm

/-! ## The writer -/

/-- Files grow, and those before the reader stay as they are. -/
theorem Placed.grow (h : t.Placed parsing before f pos after) {fs : FileSystem} {t' : Rotation V}
    {after' : List WrittenFile} (hsystem : t'.system = { t.system with fs })
    (hfiles : t'.files = before ++ f :: after')
    (hcontent : ∀ j, t.system.fs.content j <+: fs.content j)
    (hbefore : ∀ f' ∈ before, fs.content f'.inode = t.system.fs.content f'.inode)
    (hlink : Plain fs t.system.processor.reader t.system.processor.phase f after' ∨
      Spool fs t.system.processor.reader t.system.processor.phase before f after') :
    t'.Placed parsing before f pos after' := by
  have htake : (fs.content f.inode).take pos = (t.system.fs.content f.inode).take pos := by
    obtain ⟨more, hmore⟩ := hcontent f.inode
    rw [← hmore, List.take_append_of_le_length h.stands.bounded]
  have hupTo : parsing.upTo fs before f pos = parsing.upTo t.system.fs before f pos := by
    rw [Parsing.upTo, Parsing.upTo, Parsing.eventsOf_congr hbefore, htake]
  refine ⟨hfiles, ?_, ?_, ?_, ?_⟩ <;> rw [hsystem]
  · refine ⟨h.stands.filename, h.stands.reader, ?_, h.stands.offset, ?_⟩
    · exact Nat.le_trans h.stands.bounded (hcontent f.inode).length_le
    · show tail newline ((fs.content f.inode).take pos) = []
      rw [htake]
      exact h.stands.line
  · show t.system.delivered <+: parsing.upTo fs before f pos
    rw [hupTo]
    exact h.order
  · show t.system.processor.phase ≠ .panicked → t.system.delivered = parsing.upTo fs before f pos
    rw [hupTo]
    exact h.delivered
  · exact hlink

theorem Chain.append {fs : FileSystem} {files : List WrittenFile} (h : Chain fs files) {text : Bytes}
    (htext : tail newline text = []) (i : ℕ) : Chain (fs.append i text) files := by
  refine ⟨?_, ?_, h.nodup⟩
  · intro f hf
    by_cases hi : i = f.inode
    · rw [hi, FileSystem.content_append_self (h.bound f hf), (lines_append_of_tail (h.whole f hf) text).2]
      exact htext
    · rw [FileSystem.content_append_ne hi]
      exact h.whole f hf
  · intro f hf
    rw [FileSystem.append, List.length_modify]
    exact h.bound f hf

end Rotation

theorem RotationInv.append (inv : RotationInv parsing t) {text : Bytes} (htext : tail newline text = []) :
    RotationInv parsing (t.withFiles (t.system.fs.append t.current.inode text)) := by
  obtain ⟨before, f, pos, after, h⟩ := inv.placed
  refine ⟨inv.chain.append htext _, inv.fresh, inv.opened, before, f, pos, after, ?_⟩
  refine h.grow rfl h.files (fun j => FileSystem.content_append_isPrefix _ j text) ?_ ?_
  · intro f' hf'
    exact FileSystem.content_append_ne (h.inode_ne inv.chain hf' h.current_mem).symm text
  · -- the names are the same
    rcases h.link with hplain | hspool
    · left
      exact ⟨hplain.parse, hplain.spool, hplain.completed, hplain.names, hplain.link.mono rfl id,
        hplain.reopening⟩
    · right
      exact ⟨hspool.parse, hspool.spool, hspool.later, hspool.there, hspool.known, hspool.all,
        hspool.completed, hspool.reopening⟩

/-- The file that the writer writes to is the last one of its kind. -/
theorem Rotation.Placed.name_current (h : t.Placed parsing before f pos after)
    (hparse : SpoolFile.parse t.current.name = none) :
    Rotation.Plain t.system.fs t.system.processor.reader t.system.processor.phase f after ∧
      t.current.name = f.name := by
  rcases h.link with hplain | hspool
  · refine ⟨hplain, ?_⟩
    rcases List.mem_cons.mp h.current_mem with hcurrent | hcurrent
    · rw [hcurrent]
    · exact hplain.names _ hcurrent
  · exfalso
    rcases List.mem_cons.mp h.current_mem with hcurrent | hcurrent
    · rw [hcurrent] at hparse
      exact hspool.parse hparse
    · have hlater := (List.pairwise_cons.mp (List.pairwise_append.mp hspool.later).2.1).1 _ hcurrent
      exact hlater.parse_right hparse

theorem RotationInv.rename (inv : RotationInv parsing t) (hparse : SpoolFile.parse t.current.name = none)
    (hopen : t.system.processor.reader.reader.map (·.inode) = some t.current.inode) :
    RotationInv parsing (t.withFiles (t.system.fs.remove t.current.name)) := by
  obtain ⟨before, f, pos, after, h⟩ := inv.placed
  obtain ⟨hplain, hname⟩ := h.name_current hparse
  refine ⟨⟨inv.chain.whole, inv.chain.bound, inv.chain.nodup⟩, inv.fresh, inv.opened, before, f, pos, after,
    ?_⟩
  refine h.grow rfl h.files (fun j => List.prefix_refl _) (fun _ _ => rfl) (Or.inl ?_)
  have hreader : t.system.processor.reader.reader = some ⟨f.inode, pos⟩ := by
    rcases h.stands.reader with hreader | ⟨hreader, -⟩
    · exact hreader
    · rw [hreader] at hopen
      cases hopen
  have hinode : f.inode = t.current.inode := by
    rw [hreader] at hopen
    exact Option.some.inj hopen
  obtain rfl := h.after_eq_nil inv.chain hinode
  refine ⟨hplain.parse, hplain.spool, hplain.completed, hplain.names, .unlinked ?_ ?_, hplain.reopening⟩
  · rw [hname]
    exact AList.lookup_erase _ _
  · rw [hreader]
    exact Option.some_ne_none _

theorem Rotation.Chain.begin (h : Rotation.Chain t.system.fs t.files) (name : String) :
    Rotation.Chain (t.begin name).system.fs (t.begin name).files := by
  have hcontent : ∀ j, (t.system.fs.create name).content j = t.system.fs.content j :=
    fun j => FileSystem.content_create
  refine ⟨?_, ?_, ?_⟩
  · intro f hf
    show tail newline ((t.system.fs.create name).content f.inode) = []
    rw [hcontent]
    rcases List.mem_append.mp hf with hf | hf
    · exact h.whole f hf
    · obtain rfl := List.mem_singleton.mp hf
      show tail newline ((t.system.fs.inodes[t.system.fs.inodes.length]?).getD []) = []
      rw [List.getElem?_eq_none (Nat.le_refl _)]
      rfl
  · intro f hf
    show f.inode < (t.system.fs.inodes ++ [[]]).length
    rw [List.length_append, List.length_singleton]
    rcases List.mem_append.mp hf with hf | hf
    · exact Nat.lt_succ_of_lt (h.bound f hf)
    · obtain rfl := List.mem_singleton.mp hf
      exact Nat.lt_succ_self _
  · show ((t.files ++ [(⟨name, t.system.fs.inodes.length⟩ : WrittenFile)]).map (·.inode)).Nodup
    rw [List.map_append, List.nodup_append]
    refine ⟨h.nodup, List.nodup_singleton _, ?_⟩
    intro i hi j hj
    obtain ⟨f, hf, rfl⟩ := List.mem_map.mp hi
    obtain rfl := List.mem_singleton.mp hj
    exact Nat.ne_of_lt (h.bound f hf)

/-- The writer goes on in another file. -/
theorem RotationInv.begin (inv : RotationInv parsing t) {name : String}
    (h : t.Placed parsing before f pos after)
    (hlink : Rotation.Plain (t.system.fs.create name) t.system.processor.reader t.system.processor.phase f
        (after ++ [⟨name, t.system.fs.inodes.length⟩]) ∨
      Rotation.Spool (t.system.fs.create name) t.system.processor.reader t.system.processor.phase before f
        (after ++ [⟨name, t.system.fs.inodes.length⟩])) :
    RotationInv parsing (t.begin name) := by
  refine ⟨inv.chain.begin name, inv.fresh, inv.opened, before, f, pos,
    after ++ [⟨name, t.system.fs.inodes.length⟩], ?_⟩
  refine h.grow rfl ?_ ?_ (fun _ _ => FileSystem.content_create) hlink
  · show t.files ++ [_] = _
    rw [h.files, List.append_assoc]
    rfl
  · intro j
    simp only [FileSystem.content_create, List.prefix_refl]

theorem RotationInv.create (inv : RotationInv parsing t) (hparse : SpoolFile.parse t.current.name = none)
    (hlookup : t.system.fs.names.lookup t.current.name = none) :
    RotationInv parsing (t.begin t.current.name) := by
  obtain ⟨before, f, pos, after, h⟩ := inv.placed
  obtain ⟨hplain, hname⟩ := h.name_current hparse
  rw [hname] at hlookup
  refine inv.begin h (Or.inl ?_)
  rcases hplain.link with hlinked | ⟨-, hreader⟩ | ⟨f', hrotated, -⟩
  · rw [hlinked] at hlookup
    cases hlookup
  · refine ⟨hplain.parse, hplain.spool, hplain.completed, ?_, .rotated _ ?_ hreader,
      fun _ => List.cons_ne_nil _ _⟩
    · intro f' hf'
      obtain rfl := List.mem_singleton.mp hf'
      exact hname
    · rw [hname]
      exact AList.lookup_insert _
  · rw [hrotated] at hlookup
    cases hlookup

theorem RotationInv.next (inv : RotationInv parsing t) {name : String} (hlater : Later t.current.name name) :
    RotationInv parsing (t.begin name) := by
  obtain ⟨before, f, pos, after, h⟩ := inv.placed
  have hspool : Rotation.Spool t.system.fs t.system.processor.reader t.system.processor.phase before f
      after := by
    rcases h.link with hplain | hspool
    · exfalso
      apply hlater.parse_left
      rcases List.mem_cons.mp h.current_mem with hcurrent | hcurrent
      · rw [hcurrent]
        exact hplain.parse
      · rw [hplain.names _ hcurrent]
        exact hplain.parse
    · exact hspool
  -- the new file is later than all of them
  have hnew : ∀ f' ∈ before ++ f :: after, Later f'.name name := by
    have hpairs := hspool.later
    rw [← h.files, Rotation.files, List.pairwise_append] at hpairs
    rw [← h.files, Rotation.files]
    intro f' hf'
    rcases List.mem_append.mp hf' with hf' | hf'
    · exact (hpairs.2.2 f' hf' t.current (List.mem_singleton_self _)).trans hlater
    · obtain rfl := List.mem_singleton.mp hf'
      exact hlater
  refine inv.begin h
    (Or.inr ⟨hspool.parse, hspool.spool, ?_, ?_, ?_, ?_, hspool.completed, hspool.reopening⟩)
  · rw [← List.cons_append, ← List.append_assoc, List.pairwise_append]
    refine ⟨hspool.later, List.pairwise_singleton _ _, ?_⟩
    intro f' hf' f'' hf''
    obtain rfl := List.mem_singleton.mp hf''
    exact hnew f' hf'
  · intro f' hf'
    rw [← List.cons_append] at hf'
    rcases List.mem_append.mp hf' with hf' | hf'
    · show (t.system.fs.names.insert name _).lookup f'.name = _
      rw [AList.lookup_insert_ne (hnew f' (List.mem_append_right _ hf')).ne]
      exact hspool.there f' hf'
    · obtain rfl := List.mem_singleton.mp hf'
      exact AList.lookup_insert _
  · intro f' hf' j hj
    apply hspool.known f' hf' j
    rw [← hj]
    exact (AList.lookup_insert_ne (hnew f' (List.mem_append_left _ hf')).ne).symm
  · intro entry hentry hentry'
    replace hentry : entry ∈ (t.system.fs.names.insert name t.system.fs.inodes.length).keys := hentry
    rw [AList.keys_insert] at hentry
    rcases List.mem_cons.mp hentry with rfl | hentry
    · exact ⟨_, List.mem_append_right _ (List.mem_singleton_self _), rfl⟩
    · obtain ⟨f', hf', hname⟩ := hspool.all entry (List.mem_of_mem_erase hentry) hentry'
      exact ⟨f', List.mem_append_left _ hf', hname⟩

/-! ## The reader -/

section

variable {r : EveReader} {fs : FileSystem}

/-- The reader opens the file. -/
theorem EveReader.Stands.opened (h : r.Stands fs f pos)
    (hlookup : r.reader = none → fs.names.lookup f.name = some f.inode) :
    (r.opened fs).Stands fs f pos ∧ (r.opened fs).reader = some ⟨f.inode, pos⟩ ∧
      (r.opened fs).spool = r.spool ∧ (r.opened fs).completedSpoolFiles = r.completedSpoolFiles := by
  rcases h.reader with hreader | ⟨hreader, hpos⟩
  · have hopened : r.opened fs = r := by
      rw [EveReader.opened, hreader]
      rfl
    rw [hopened]
    exact ⟨h, hreader, rfl, rfl⟩
  · have hopened : r.opened fs = { r with reader := some ⟨f.inode, 0⟩, lineno := 0, offset := 0 } := by
      rw [EveReader.opened, hreader, EveReader.open, h.filename, hlookup hreader]
      rfl
    rw [hopened, hpos]
    refine ⟨⟨h.filename, Or.inl rfl, Nat.zero_le _, Nat.le_refl _, ?_⟩, rfl, rfl, rfl⟩
    rw [List.take_zero]
    rfl

/-- The reader takes a line. -/
theorem EveReader.Stands.afterLine (h : r.Stands fs f pos) (hmem : newline ∈ fs.rest ⟨f.inode, pos⟩) :
    (r.afterLine fs ⟨f.inode, pos⟩).Stands fs f
      (pos + (first newline (fs.rest ⟨f.inode, pos⟩)).length) := by
  have hlength := EveReader.rest_length_le fs ⟨f.inode, pos⟩
  have hbounded := h.bounded
  refine ⟨?_, Or.inl (EveReader.afterLine_reader r fs _), ?_, ?_, ?_⟩
  · unfold EveReader.afterLine
    dsimp only
    split <;> exact h.filename
  · dsimp only at hlength
    omega
  · unfold EveReader.afterLine
    dsimp only
    split
    · exact Nat.le_refl _
    · exact Nat.le_trans h.offset (Nat.le_add_right _ _)
  · have htake := take_advance fs ⟨f.inode, pos⟩
    dsimp only [OpenFile.advance] at htake
    rw [htake]
    exact tail_append_line h.line (isLine_first hmem)

/-- Without a line before it, the reader is at the end of the file. -/
theorem EveReader.Stands.rest_eq_nil (h : r.Stands fs f pos)
    (hwhole : tail newline (fs.content f.inode) = []) (hmem : newline ∉ fs.rest ⟨f.inode, pos⟩) :
    fs.rest ⟨f.inode, pos⟩ = [] := by
  rw [(lines_of_boundary h.line).2] at hwhole
  rw [FileSystem.rest] at hmem ⊢
  rw [tail_of_not_mem hmem] at hwhole
  exact hwhole

theorem Parsing.upTo_line (parsing : Parsing V) (hline : tail newline ((fs.content f.inode).take pos) = [])
    (hmem : newline ∈ fs.rest ⟨f.inode, pos⟩) :
    parsing.upTo fs before f (pos + (first newline (fs.rest ⟨f.inode, pos⟩)).length) =
      parsing.upTo fs before f pos ++ (parsing.event (first newline (fs.rest ⟨f.inode, pos⟩))).toList := by
  have htake := take_advance fs ⟨f.inode, pos⟩
  dsimp only [OpenFile.advance] at htake
  rw [Parsing.upTo, Parsing.upTo, htake, Parsing.events_append_line hline (isLine_first hmem),
    List.append_assoc]

end

/-- A file that is not open is there. -/
theorem Rotation.Placed.lookup (h : t.Placed parsing before f pos after)
    (hreader : t.system.processor.reader.reader = none) :
    t.system.fs.names.lookup f.name = some f.inode := by
  rcases h.link with hplain | hspool
  · rcases hplain.link with hlookup | ⟨-, hopen⟩ | ⟨-, -, hopen⟩
    · exact hlookup
    · exact absurd hreader hopen
    · exact absurd hreader hopen
  · exact hspool.there f List.mem_cons_self

end

end EveBox.Eve
