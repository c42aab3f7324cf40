import EveBox.Eve.RotationInv

/-!
# The processor beside a writer that rotates

Every step of the processor keeps `RotationInv`, as long as nothing has been appended to a file since its end
was found when the reader leaves it.
-/

namespace EveBox.Eve

open Rust Lines Transition

variable {V : Type*} {parsing : Parsing V} {t : Rotation V} {before after : List WrittenFile} {f : WrittenFile}
  {pos : ℕ}

/-! ## The processor -/

/-- The reader stays in its file. -/
theorem RotationInv.within (inv : RotationInv parsing t) (h : t.Placed parsing before f pos after)
    {s : System V} {pos' : ℕ} (hfs : s.fs = t.system.fs)
    (hstands : s.processor.reader.Stands t.system.fs f pos')
    (hspool : s.processor.reader.spool = t.system.processor.reader.spool)
    (hcompleted : s.processor.reader.completedSpoolFiles =
      t.system.processor.reader.completedSpoolFiles)
    (hopen : t.system.processor.reader.reader ≠ none → s.processor.reader.reader ≠ none)
    (hend : s.processor.phase.atEnd = true → s.processor.reader.reader ≠ none)
    (hstarting : s.processor.phase ≠ .starting) (hreopening : s.processor.phase ≠ .reopening)
    (horder : s.delivered <+: parsing.upTo t.system.fs before f pos')
    (hdelivered : s.processor.phase ≠ .panicked →
      s.delivered = parsing.upTo t.system.fs before f pos') :
    RotationInv parsing { t with system := s } := by
  refine ⟨?_, fun hphase => absurd hphase hstarting, hend, before, f, pos', after, h.files, ?_, ?_, ?_, ?_⟩
  · show Rotation.Chain s.fs t.files
    rw [hfs]
    exact inv.chain
  · show s.processor.reader.Stands s.fs f pos'
    rw [hfs]
    exact hstands
  · show s.delivered <+: parsing.upTo s.fs before f pos'
    rw [hfs]
    exact horder
  · show s.processor.phase ≠ .panicked → s.delivered = parsing.upTo s.fs before f pos'
    rw [hfs]
    exact hdelivered
  · show Rotation.Plain s.fs s.processor.reader s.processor.phase f after ∨
      Rotation.Spool s.fs s.processor.reader s.processor.phase before f after
    rw [hfs]
    rcases h.link with hplain | hin
    · left
      exact ⟨hplain.parse, hspool.trans hplain.spool, hcompleted.trans hplain.completed, hplain.names,
        hplain.link.mono rfl hopen, fun hphase => absurd hphase hreopening⟩
    · right
      refine ⟨hin.parse, hspool.trans hin.spool, hin.later, hin.there, hin.known, hin.all, ?_, hreopening⟩
      rw [hcompleted]
      exact hin.completed

/-- The processor goes somewhere else, and nothing happens to the reader and the events. -/
theorem RotationInv.move (inv : RotationInv parsing t) {s : System V} (hfs : s.fs = t.system.fs)
    (hreader : s.processor.reader = t.system.processor.reader)
    (hdelivered : s.delivered = t.system.delivered) (hpanicked : t.system.processor.phase ≠ .panicked)
    (hend : s.processor.phase.atEnd = true → t.system.processor.reader.reader ≠ none)
    (hstarting : s.processor.phase ≠ .starting) (hreopening : s.processor.phase ≠ .reopening) :
    RotationInv parsing { t with system := s } := by
  obtain ⟨before, f, pos, after, h⟩ := inv.placed
  apply inv.within h hfs
  · rw [hreader]
    exact h.stands
  · rw [hreader]
  · rw [hreader]
  · rw [hreader]
    exact id
  · rw [hreader]
    exact hend
  · exact hstarting
  · exact hreopening
  · rw [hdelivered]
    exact h.order
  · intro _
    rw [hdelivered]
    exact h.delivered hpanicked

theorem RotationInv.withPhase (inv : RotationInv parsing t) (hrunning : t.system.processor.phase ≠ .panicked)
    {phase : ProcessorPhase} (hend : phase.atEnd = true → t.system.processor.reader.reader ≠ none)
    (hstarting : phase ≠ .starting) (hreopening : phase ≠ .reopening) :
    RotationInv parsing { t with system := t.system.withPhase phase } := by
  apply inv.move
  · rfl
  · rfl
  · rfl
  · exact hrunning
  · exact hend
  · exact hstarting
  · exact hreopening

theorem RotationInv.start (inv : RotationInv parsing t) {s : System V} (h : t.system.start = some s) :
    RotationInv parsing { t with system := s } := by
  obtain ⟨hphase, rfl⟩ := System.start_some h
  obtain ⟨hbookmark, hend⟩ := inv.fresh hphase
  have hinit : t.system.initFromBookmark = (false, t.system.processor.reader) := by
    unfold System.initFromBookmark
    dsimp only
    rw [hbookmark]
    cases t.system.processor.bookmarkFilename <;> rfl
  have hreader : t.system.startReader = t.system.processor.reader := by
    rw [System.startReader, hinit, hend]
    rfl
  rw [hreader]
  apply inv.move
  · rfl
  · rfl
  · rfl
  · rw [hphase]
    rintro ⟨⟩
  · rintro ⟨⟩
  · rintro ⟨⟩
  · rintro ⟨⟩

theorem RotationInv.poll (inv : RotationInv parsing t) {answer : Option Bool} {s : System V}
    (hpoll : t.system.poll parsing answer = some s) : RotationInv parsing { t with system := s } := by
  unfold System.poll at hpoll
  split at hpoll
  · rename_i hphase
    obtain ⟨before, f, pos, after, h⟩ := inv.placed
    have hrunning : t.system.processor.phase ≠ .panicked := by
      rw [hphase]
      rintro ⟨⟩
    obtain ⟨hstands, hreader, hspool, hcompleted⟩ := h.stands.opened h.lookup
    rcases EveReader.pollLine_cases parsing.fromStr t.system.processor.reader t.system.fs with
      ⟨hnone, -⟩ | ⟨file, hfile, hopen⟩
    · rw [hreader] at hnone
      cases hnone
    · obtain rfl := Option.some.inj (hfile.symm.trans hreader)
      rw [hopen] at hpoll
      -- the reader has taken the line before it
      have hafter : ∀ s : System V, newline ∈ t.system.fs.rest ⟨f.inode, pos⟩ → s.fs = t.system.fs →
          s.processor.reader = (t.system.processor.reader.opened t.system.fs).afterLine t.system.fs
            ⟨f.inode, pos⟩ →
          s.processor.phase ≠ .starting → s.processor.phase ≠ .reopening →
          (s.delivered <+: t.system.delivered ++
            (parsing.event (first newline (t.system.fs.rest ⟨f.inode, pos⟩))).toList) →
          (s.processor.phase ≠ .panicked → s.delivered = t.system.delivered ++
            (parsing.event (first newline (t.system.fs.rest ⟨f.inode, pos⟩))).toList) →
          RotationInv parsing { t with system := s } := by
        intro s hmem hfs hline hstarting hreopening horder hdelivered
        have hupTo : parsing.upTo t.system.fs before f
            (pos + (first newline (t.system.fs.rest ⟨f.inode, pos⟩)).length) =
              t.system.delivered ++
                (parsing.event (first newline (t.system.fs.rest ⟨f.inode, pos⟩))).toList := by
          rw [parsing.upTo_line h.stands.line hmem, h.delivered hrunning]
        apply inv.within h hfs
        · rw [hline]
          exact hstands.afterLine hmem
        · rw [hline, EveReader.afterLine_spool, hspool]
        · rw [hline, (EveReader.afterLine_keeps _ hreader).completed, hcompleted]
        · rw [hline, EveReader.afterLine_reader]
          exact fun _ => Option.some_ne_none _
        · rw [hline, EveReader.afterLine_reader]
          exact fun _ => Option.some_ne_none _
        · exact hstarting
        · exact hreopening
        · rw [hupTo]
          exact horder
        · rw [hupTo]
          exact hdelivered
      rcases EveReader.pollOpen_cases parsing.fromStr t.system.fs hreader with
        ⟨-, -, hcase⟩ | ⟨hmem, htorn, -⟩ | ⟨hmem, ⟨record, hrecord, hcase⟩ | ⟨hrecord, hcase⟩⟩
      · rw [hcase] at hpoll
        obtain rfl := Option.some.inj hpoll
        have hsome : (t.system.processor.reader.opened t.system.fs).reader ≠ none := by
          rw [hreader]
          exact Option.some_ne_none _
        apply inv.within h
        · rfl
        · exact ⟨hstands.filename, hstands.reader, hstands.bounded, hstands.offset, hstands.line⟩
        · exact hspool
        · exact hcompleted
        · exact fun _ => hsome
        · exact fun _ => hsome
        · rintro ⟨⟩
        · rintro ⟨⟩
        · exact h.order
        · exact fun _ => h.delivered hrunning
      · -- there are only whole lines
        have hf : f ∈ t.files := by
          rw [h.files]
          exact List.mem_append_right _ List.mem_cons_self
        rw [h.stands.rest_eq_nil (inv.chain.whole f hf) hmem] at htorn
        cases htorn
      · rw [hcase] at hpoll
        have hevent : parsing.event (first newline (t.system.fs.rest ⟨f.inode, pos⟩)) =
            some (parsing.filters record) := by
          rw [Parsing.event, hrecord]
          rfl
        cases answer with
        | none =>
            obtain rfl := Option.some.inj hpoll
            apply hafter _ hmem
            · rfl
            · rfl
            · rintro ⟨⟩
            · rintro ⟨⟩
            · exact List.prefix_append _ _
            · exact fun hpanicked => absurd rfl hpanicked
        | some commit =>
            obtain rfl := Option.some.inj hpoll
            have hdelivered : ∀ phase, System.delivered { t.system with
                processor := { t.system.processor with
                  reader := (t.system.processor.reader.opened t.system.fs).afterLine t.system.fs ⟨f.inode, pos⟩
                  queue := t.system.processor.queue ++ [parsing.filters record]
                  phase } } = t.system.delivered ++
                (parsing.event (first newline (t.system.fs.rest ⟨f.inode, pos⟩))).toList := by
              intro phase
              rw [hevent]
              exact (List.append_assoc _ _ _).symm
            unfold System.submit
            dsimp only
            split
            · apply hafter _ hmem
              · rfl
              · rfl
              · rintro ⟨⟩
              · rintro ⟨⟩
              · exact ⟨[], (List.append_nil _).trans (hdelivered _)⟩
              · exact fun _ => hdelivered _
            · apply hafter _ hmem
              · rfl
              · rfl
              · rintro ⟨⟩
              · rintro ⟨⟩
              · exact ⟨[], (List.append_nil _).trans (hdelivered _)⟩
              · exact fun _ => hdelivered _
      · have hevent : parsing.event (first newline (t.system.fs.rest ⟨f.inode, pos⟩)) = none := by
          rw [Parsing.event, hrecord]
          rfl
        have hs : s = t.system.withReader ((t.system.processor.reader.opened t.system.fs).afterLine
            t.system.fs ⟨f.inode, pos⟩) := by
          rcases hcase with hcase | ⟨err, hcase⟩ <;> rw [hcase] at hpoll <;>
            exact (Option.some.inj hpoll).symm
        subst hs
        have hsame : ∀ phase, phase ≠ .reading → (t.system.withReader
            ((t.system.processor.reader.opened t.system.fs).afterLine t.system.fs
              ⟨f.inode, pos⟩)).processor.phase ≠ phase := by
          intro phase hne heq
          exact hne (heq.symm.trans hphase)
        apply hafter _ hmem
        · rfl
        · rfl
        · exact hsame _ (by rintro ⟨⟩)
        · exact hsame _ (by rintro ⟨⟩)
        · exact List.prefix_append _ _
        · intro _
          rw [hevent]
          exact (List.append_nil _).symm
  · cases hpoll

/-- The next file of the spool is the one that the writer has written after that of the reader. -/
theorem Rotation.Spool.next {fs : FileSystem} {r : EveReader} {phase : ProcessorPhase}
    (h : Rotation.Spool fs r phase before f after) {next : SpoolFile}
    (hnext : r.spool.bind (·.next fs.entries) = some next) :
    ∃ f' after', after = f' :: after' ∧ next.path = f'.name ∧ SpoolFile.parse f'.name = some next := by
  obtain ⟨g, hg, hnewer⟩ := Option.bind_eq_some_iff.mp hnext
  rw [h.spool] at hg
  obtain ⟨hparse, hentry, hkey, hlt⟩ := EveReader.newerFile_parse hnewer
  obtain ⟨found, hfound, hname⟩ := h.all next.path hentry ⟨g, hg, next, hparse, hkey, hlt⟩
  obtain ⟨-, hfiles, -⟩ := List.pairwise_append.mp h.later
  cases after with
  | nil => cases hfound
  | cons f' after' =>
      rcases List.mem_cons.mp hfound with rfl | hfound
      · refine ⟨found, after', rfl, hname.symm, ?_⟩
        rw [hname]
        exact hparse
      · -- the first of the files after the reader is earlier
        obtain ⟨hfirst, hrest⟩ := List.pairwise_cons.mp hfiles
        obtain ⟨k, hk, k', hk', hkey', hlt'⟩ := hfirst f' List.mem_cons_self
        obtain rfl := Option.some.inj (hg.symm.trans hk)
        obtain ⟨l, hl, l', hl', -, hlt''⟩ := (List.pairwise_cons.mp hrest).1 found hfound
        obtain rfl := Option.some.inj (hk'.symm.trans hl)
        rw [hname] at hl'
        obtain rfl := Option.some.inj (hparse.symm.trans hl')
        have hmem : f'.name ∈ fs.entries :=
          mem_entries (h.there f' (List.mem_cons_of_mem _ List.mem_cons_self))
        obtain ⟨least, hleast, hle⟩ :=
          exists_next_le (List.mem_filterMap.mpr ⟨f'.name, hmem, hk'⟩) hkey' hlt'
        obtain rfl := Option.some.inj (hnewer.symm.trans hleast)
        omega

/-- The reader finds a file of the spool that is after its own. -/
theorem Rotation.Spool.exists_next {fs : FileSystem} {r : EveReader} {phase : ProcessorPhase}
    {f' : WrittenFile} (h : Rotation.Spool fs r phase before f (f' :: after)) :
    ∃ next, r.spool.bind (·.next fs.entries) = some next := by
  obtain ⟨g, hg, g', hg', hkey, hlt⟩ :=
    (List.pairwise_cons.mp (List.pairwise_append.mp h.later).2.1).1 f' List.mem_cons_self
  have hmem : f'.name ∈ fs.entries := mem_entries (h.there f' (List.mem_cons_of_mem _ List.mem_cons_self))
  obtain ⟨next, hnext, -⟩ := exists_next_le (List.mem_filterMap.mpr ⟨f'.name, hmem, hg'⟩) hkey hlt
  refine ⟨next, ?_⟩
  rw [h.spool, Option.mem_def.mp hg]
  exact hnext

/-- The reader leaves its file at the end. -/
theorem Rotation.Placed.upTo_next (h : t.Placed parsing before f pos after)
    (hreader : t.system.processor.reader.reader ≠ none)
    (hunread : t.system.processor.reader.unread t.system.fs = []) (f' : WrittenFile) :
    parsing.upTo t.system.fs before f pos = parsing.upTo t.system.fs (before ++ [f]) f' 0 := by
  have hopen : t.system.processor.reader.reader = some ⟨f.inode, pos⟩ := by
    rcases h.stands.reader with hopen | ⟨hnone, -⟩
    · exact hopen
    · exact absurd hnone hreader
  rw [EveReader.unread, hopen] at hunread
  rw [Parsing.upTo_zero]
  exact parsing.upTo_end hunread

theorem RotationInv.look (inv : RotationInv parsing t) {readable : Bool} {s : System V}
    (hfollows : t.Follows (.processor (.look readable))) (hlook : t.system.look readable = some s) :
    RotationInv parsing { t with system := s } := by
  unfold System.look at hlook
  split at hlook
  · rename_i hphase
    have hrunning : t.system.processor.phase ≠ .panicked := by
      rw [hphase]
      rintro ⟨⟩
    have hopened : t.system.processor.reader.reader ≠ none := by
      apply inv.opened
      rw [hphase]
      rfl
    split at hlook
    · obtain rfl := Option.some.inj hlook
      exact inv.withPhase hrunning (fun _ => hopened) (by rintro ⟨⟩) (by rintro ⟨⟩)
    · rename_i hreadable
      split at hlook
      · rename_i reader hadvance
        obtain rfl := Option.some.inj hlook
        obtain ⟨before, f, pos, after, h⟩ := inv.placed
        have hsome : (t.system.processor.reader.advance t.system.fs).isSome = true := by
          rw [hadvance]
          rfl
        obtain ⟨next, hnext, rfl⟩ := Option.map_eq_some_iff.mp hadvance
        have hspool : Rotation.Spool t.system.fs t.system.processor.reader t.system.processor.phase before f
            after := by
          rcases h.link with hplain | hspool
          · rw [hplain.spool] at hnext
            cases hnext
          · exact hspool
        have hunread : t.system.processor.reader.unread t.system.fs = [] := by
          apply hfollows ?_ hsome
          rw [hspool.spool, Bool.and_eq_true, not_and] at hreadable
          simpa [Option.isSome_iff_ne_none, hspool.parse] using hreadable
        obtain ⟨f', after', rfl, hpath, hparse⟩ := hspool.next hnext
        have hupTo := h.upTo_next hopened hunread f'
        have hfirst :=
          (List.pairwise_cons.mp (List.pairwise_append.mp hspool.later).2.1).1 f' List.mem_cons_self
        refine ⟨inv.chain, by rintro ⟨⟩, by rintro ⟨⟩, before ++ [f], f', 0, after', ?_, ?_, ?_, ?_,
          Or.inr ?_⟩
        · rw [List.append_assoc]
          exact h.files
        · refine ⟨?_, Or.inr ⟨?_, rfl⟩, Nat.zero_le _, ?_, ?_⟩
          · dsimp only
            split <;> exact hpath
          · dsimp only
            split <;> rfl
          · dsimp only
            split <;> exact Nat.le_refl _
          · rw [List.take_zero]
            rfl
        · show t.system.delivered <+: parsing.upTo t.system.fs _ _ _
          rw [← hupTo]
          exact h.order
        · intro _
          show t.system.delivered = parsing.upTo t.system.fs _ _ _
          rw [← hupTo]
          exact h.delivered hrunning
        · refine ⟨hfirst.parse_right, ?_, ?_, ?_, ?_, ?_, ?_, by rintro ⟨⟩⟩
          · rw [hparse]
            dsimp only
            split <;> rfl
          · rw [List.append_assoc]
            exact hspool.later
          · exact fun f'' hf'' => hspool.there f'' (List.mem_cons_of_mem _ hf'')
          · intro f'' hf'' j hj
            rcases List.mem_append.mp hf'' with hf'' | hf''
            · exact hspool.known f'' hf'' j hj
            · obtain rfl := List.mem_singleton.mp hf''
              exact Option.some.inj (hj.symm.trans (hspool.there f'' List.mem_cons_self))
          · intro entry hentry hlater
            obtain ⟨f'', hf'', hname⟩ := hspool.all entry hentry (hfirst.trans hlater)
            rcases List.mem_cons.mp hf'' with rfl | hf''
            · exact absurd hname hlater.ne
            · exact ⟨f'', hf'', hname⟩
          · have hbefore : ∀ d ∈ t.system.processor.reader.completedSpoolFiles,
                ∃ f'' ∈ before ++ [f], f''.name = d := by
              intro d hd
              obtain ⟨f'', hf'', hname⟩ := hspool.completed d hd
              exact ⟨f'', List.mem_append_left _ hf'', hname⟩
            dsimp only
            split
            · intro d hd
              rcases List.mem_append.mp hd with hd | hd
              · exact hbefore d hd
              · obtain rfl := List.mem_singleton.mp hd
                exact ⟨f, List.mem_append_right _ (List.mem_singleton_self _), h.stands.filename.symm⟩
            · exact hbefore
      · obtain rfl := Option.some.inj hlook
        exact inv.withPhase hrunning (fun _ => hopened) (by rintro ⟨⟩) (by rintro ⟨⟩)
  · cases hlook

theorem RotationInv.afterEof (inv : RotationInv parsing t) (hrunning : t.system.processor.phase ≠ .panicked) :
    RotationInv parsing { t with system := t.system.afterEof } := by
  unfold System.afterEof
  apply inv.withPhase hrunning
  · split <;> rintro ⟨⟩
  · split <;> rintro ⟨⟩
  · split <;> rintro ⟨⟩

theorem RotationInv.check (inv : RotationInv parsing t) {s : System V} (hcheck : t.system.check = some s) :
    RotationInv parsing { t with system := s } := by
  unfold System.check at hcheck
  split at hcheck
  · rename_i hphase
    have hrunning : t.system.processor.phase ≠ .panicked := by
      rw [hphase]
      rintro ⟨⟩
    have hopened : t.system.processor.reader.reader ≠ none := by
      apply inv.opened
      rw [hphase]
      rfl
    split at hcheck
    · rename_i hchanged
      obtain rfl := Option.some.inj hcheck
      obtain ⟨before, f, pos, after, h⟩ := inv.placed
      have hopen : t.system.processor.reader.reader = some ⟨f.inode, pos⟩ := by
        rcases h.stands.reader with hopen | ⟨hnone, -⟩
        · exact hopen
        · exact absurd hnone hopened
      -- the file that the reader has open is not the one under the name
      have hlookup : t.system.fs.names.lookup f.name ≠ some f.inode := by
        intro hlookup
        have hoffset := Nat.le_trans h.stands.offset h.stands.bounded
        rw [EveReader.isFileChanged, hopen, h.stands.filename, hlookup] at hchanged
        simp at hchanged
        omega
      have hnone : t.system.fs.names.lookup f.name ≠ none := by
        intro hlookup
        rw [EveReader.isFileChanged, hopen, h.stands.filename, hlookup] at hchanged
        cases hchanged
      refine ⟨inv.chain, by rintro ⟨⟩, by rintro ⟨⟩, before, f, pos, after, h.files, h.stands, h.order,
        fun _ => h.delivered hrunning, ?_⟩
      rcases h.link with hplain | hspool
      · left
        refine ⟨hplain.parse, hplain.spool, hplain.completed, hplain.names, hplain.link, ?_⟩
        rintro - rfl
        cases hplain.link with
        | linked h => exact hlookup h
        | unlinked h _ => exact hnone h
      · exact absurd (hspool.there f List.mem_cons_self) hlookup
    · obtain rfl := Option.some.inj hcheck
      exact inv.afterEof hrunning
  · cases hcheck

theorem RotationInv.reopen (inv : RotationInv parsing t) {s : System V}
    (hfollows : t.Follows (.processor .reopen)) (hreopen : t.system.reopen = some s) :
    RotationInv parsing { t with system := s } := by
  unfold System.reopen at hreopen
  split at hreopen
  · rename_i hphase
    obtain rfl := Option.some.inj hreopen
    obtain ⟨before, f, pos, after, h⟩ := inv.placed
    have hrunning : t.system.processor.phase ≠ .panicked := by
      rw [hphase]
      rintro ⟨⟩
    rcases h.link with hplain | hspool
    · cases hplain.link with
      | linked _ => exact absurd rfl (hplain.reopening hphase)
      | unlinked _ _ => exact absurd rfl (hplain.reopening hphase)
      | rotated f' hlookup hreader =>
          have hupTo := h.upTo_next hreader hfollows f'
          have hname : f'.name = f.name := hplain.names f' (List.mem_singleton_self _)
          have hopen : (t.system.processor.reader.reopen t.system.fs).2 =
              { t.system.processor.reader with reader := some ⟨f'.inode, 0⟩, lineno := 0, offset := 0 } := by
            rw [← h.stands.filename] at hlookup
            rw [EveReader.reopen, EveReader.open, hlookup]
          have hend : ∀ phase : ProcessorPhase,
              phase = (if t.system.processor.oneshot then .stopped else .reading) →
              phase ≠ .starting ∧ phase.atEnd = false ∧ phase ≠ .reopening := by
            rintro phase rfl
            split
            · exact ⟨by rintro ⟨⟩, rfl, by rintro ⟨⟩⟩
            · exact ⟨by rintro ⟨⟩, rfl, by rintro ⟨⟩⟩
          obtain ⟨hstarting, hatEnd, hreopening⟩ := hend _ rfl
          rw [hopen]
          refine ⟨inv.chain, fun hs => absurd hs hstarting, ?_, before ++ [f], f', 0, [], ?_, ?_, ?_, ?_,
            Or.inl ?_⟩
          · intro hs
            exact absurd (hs.symm.trans hatEnd) (by decide)
          · rw [List.append_assoc]
            exact h.files
          · refine ⟨h.stands.filename.trans hname.symm, Or.inl rfl, Nat.zero_le _, Nat.le_refl _, ?_⟩
            rw [List.take_zero]
            rfl
          · show t.system.delivered <+: parsing.upTo t.system.fs _ _ _
            rw [← hupTo]
            exact h.order
          · intro _
            show t.system.delivered = parsing.upTo t.system.fs _ _ _
            rw [← hupTo]
            exact h.delivered hrunning
          · refine ⟨?_, hplain.spool, hplain.completed, by rintro _ ⟨⟩, .linked ?_,
              fun hs => absurd hs hreopening⟩
            · rw [hname]
              exact hplain.parse
            · rw [hname]
              exact hlookup
    · exact absurd hphase hspool.reopening
  · cases hreopen

/-! ## Checkpoints -/

/-- Some of the completed files are deleted. -/
theorem RotationInv.delete (inv : RotationInv parsing t) {names : List String}
    (hnames : ∀ d ∈ names, d ∈ t.system.processor.reader.completedSpoolFiles)
    {bookmark : Option Bookmark} (hstarting : t.system.processor.phase ≠ .starting) :
    RotationInv parsing { t with system := { t.system.withReader
      { t.system.processor.reader with completedSpoolFiles := [] } with
        fs := names.foldl FileSystem.remove t.system.fs
        bookmark } } := by
  obtain ⟨before, f, pos, after, h⟩ := inv.placed
  have hinodes := FileSystem.inodes_removed names t.system.fs
  have hcontent := FileSystem.content_removed names t.system.fs
  have hupTo : parsing.upTo (names.foldl FileSystem.remove t.system.fs) before f pos =
      parsing.upTo t.system.fs before f pos := by
    rw [Parsing.upTo, Parsing.upTo, Parsing.eventsOf_congr fun f' _ => hcontent f'.inode, hcontent]
  refine ⟨⟨?_, ?_, inv.chain.nodup⟩, fun hphase => absurd hphase hstarting, inv.opened, before, f, pos, after,
    h.files, ⟨h.stands.filename, h.stands.reader, ?_, h.stands.offset, ?_⟩, ?_, ?_, ?_⟩
  · intro f' hf'
    show tail newline ((names.foldl FileSystem.remove t.system.fs).content f'.inode) = []
    rw [hcontent]
    exact inv.chain.whole f' hf'
  · intro f' hf'
    show f'.inode < (names.foldl FileSystem.remove t.system.fs).inodes.length
    rw [hinodes]
    exact inv.chain.bound f' hf'
  · show pos ≤ ((names.foldl FileSystem.remove t.system.fs).content f.inode).length
    rw [hcontent]
    exact h.stands.bounded
  · show tail newline (((names.foldl FileSystem.remove t.system.fs).content f.inode).take pos) = []
    rw [hcontent]
    exact h.stands.line
  · show t.system.delivered <+: parsing.upTo (names.foldl FileSystem.remove t.system.fs) before f pos
    rw [hupTo]
    exact h.order
  · show t.system.processor.phase ≠ .panicked →
      t.system.delivered = parsing.upTo (names.foldl FileSystem.remove t.system.fs) before f pos
    rw [hupTo]
    exact h.delivered
  · rcases h.link with hplain | hspool
    · left
      have hnone : names = [] := by
        rw [hplain.completed] at hnames
        exact List.eq_nil_iff_forall_not_mem.mpr fun d hd => List.not_mem_nil (hnames d hd)
      subst hnone
      exact ⟨hplain.parse, hplain.spool, rfl, hplain.names, hplain.link.mono rfl id, hplain.reopening⟩
    · right
      refine ⟨hspool.parse, hspool.spool, hspool.later, ?_, ?_, ?_, by rintro _ ⟨⟩, hspool.reopening⟩
      · intro f' hf'
        -- the files that have been left behind have other names
        have hkept : f'.name ∉ names := by
          intro hmem
          obtain ⟨f'', hf'', hname⟩ := hspool.completed f'.name (hnames _ hmem)
          exact ((List.pairwise_append.mp hspool.later).2.2 f'' hf'' f' hf').ne hname
        show (names.foldl FileSystem.remove t.system.fs).names.lookup f'.name = some f'.inode
        rw [FileSystem.lookup_not_removed hkept]
        exact hspool.there f' hf'
      · exact fun f' hf' j hj => hspool.known f' hf' j (FileSystem.lookup_removed hj)
      · intro entry hentry hlater
        obtain ⟨j, hj⟩ := exists_lookup hentry
        exact hspool.all entry (mem_entries (FileSystem.lookup_removed hj)) hlater

theorem RotationInv.checkpoint (inv : RotationInv parsing t)
    (hstarting : t.system.processor.phase ≠ .starting) (write : BookmarkWrite) :
    RotationInv parsing { t with system := t.system.checkpoint write } := by
  unfold System.checkpoint
  split
  · split
    · exact inv.delete (fun d hd => (List.mem_filter.mp hd).1) hstarting
    · exact inv
    · obtain ⟨before, f, pos, after, h⟩ := inv.placed
      exact ⟨inv.chain, fun hphase => absurd hphase hstarting, inv.opened, before, f, pos, after, h.files,
        h.stands, h.order, h.delivered, h.link⟩
  · exact inv

theorem RotationInv.noRecord (inv : RotationInv parsing t) {write : BookmarkWrite} {s : System V}
    (hnone : t.system.noRecord write = some s) : RotationInv parsing { t with system := s } := by
  unfold System.noRecord at hnone
  split at hnone
  · rename_i hphase
    have hrunning : t.system.processor.phase ≠ .panicked := by
      rw [hphase]
      rintro ⟨⟩
    have hstarting : t.system.processor.phase ≠ .starting := by
      rw [hphase]
      rintro ⟨⟩
    split at hnone
    · obtain rfl := Option.some.inj hnone
      exact inv.withPhase hrunning (by rintro ⟨⟩) (by rintro ⟨⟩) (by rintro ⟨⟩)
    · obtain rfl := Option.some.inj hnone
      have hnext : ∀ u : System V, u.processor.phase = .noRecord →
          RotationInv parsing { t with system := u } → RotationInv parsing
            { t with system := if u.processor.oneshot then u.afterEof else u.withPhase .checking } := by
        intro u hu inv'
        have hrunning' : u.processor.phase ≠ .panicked := by
          rw [hu]
          rintro ⟨⟩
        split
        · exact inv'.afterEof hrunning'
        · apply inv'.withPhase hrunning'
          · intro _
            apply inv'.opened
            show u.processor.phase.atEnd = true
            rw [hu]
            rfl
          · rintro ⟨⟩
          · rintro ⟨⟩
      by_cases hcompleted : t.system.processor.reader.hasCompletedSpoolFiles = true
      · rw [if_pos hcompleted]
        exact hnext _ ((System.checkpoint_phase _ _).trans hphase) (inv.checkpoint hstarting write)
      · rw [if_neg hcompleted]
        exact hnext _ hphase inv
  · cases hnone

theorem RotationInv.store (inv : RotationInv parsing t) :
    RotationInv parsing { t with system := t.system.store } := by
  obtain ⟨before, f, pos, after, h⟩ := inv.placed
  refine ⟨inv.chain, inv.fresh, inv.opened, before, f, pos, after, h.files, h.stands, ?_, ?_, h.link⟩
  · show t.system.store.delivered <+: _
    rw [System.store_delivered]
    exact h.order
  · show t.system.processor.phase ≠ .panicked → t.system.store.delivered = _
    rw [System.store_delivered]
    exact h.delivered

theorem RotationInv.commit (inv : RotationInv parsing t) {result : Option BookmarkWrite} {s : System V}
    (hcommit : t.system.commit result = some s) : RotationInv parsing { t with system := s } := by
  unfold System.commit at hcommit
  split at hcommit
  · obtain rfl := Option.some.inj hcommit
    exact inv
  · rename_i eof write hphase
    obtain rfl := Option.some.inj hcommit
    have hstarting : t.system.processor.phase ≠ .starting := by
      rw [hphase]
      rintro ⟨⟩
    have hafter : RotationInv parsing { t with system := t.system.store.checkpoint write } :=
      inv.store.checkpoint hstarting write
    have hrunning : (t.system.store.checkpoint write).processor.phase ≠ .panicked := by
      rw [System.checkpoint_phase]
      show t.system.processor.phase ≠ _
      rw [hphase]
      rintro ⟨⟩
    show RotationInv parsing { t with system :=
      if eof then (t.system.store.checkpoint write).afterEof
      else (t.system.store.checkpoint write).withPhase .reading }
    split
    · exact hafter.afterEof hrunning
    · exact hafter.withPhase hrunning (by rintro ⟨⟩) (by rintro ⟨⟩) (by rintro ⟨⟩)
  · cases hcommit

/-! ## Runs -/

theorem RotationInv.step (inv : RotationInv parsing t) {op : RotationOp} {t' : Rotation V}
    (hfollows : t.Follows op) (hstep : t.step parsing op = some t') : RotationInv parsing t' := by
  cases op with
  | append text =>
      simp only [Rotation.step] at hstep
      split at hstep
      · rename_i htext
        obtain rfl := Option.some.inj hstep
        exact inv.append htext
      · cases hstep
  | rename =>
      simp only [Rotation.step] at hstep
      split at hstep
      · rename_i hplain
        obtain rfl := Option.some.inj hstep
        exact inv.rename hplain.1 hfollows
      · cases hstep
  | create =>
      simp only [Rotation.step] at hstep
      split at hstep
      · rename_i hplain
        obtain rfl := Option.some.inj hstep
        exact inv.create hplain.1 hplain.2
      · cases hstep
  | next name =>
      simp only [Rotation.step] at hstep
      split at hstep
      · rename_i hlater
        obtain rfl := Option.some.inj hstep
        exact inv.next hlater
      · cases hstep
  | processor op =>
      simp only [Rotation.step] at hstep
      split at hstep
      · rename_i hop
        obtain ⟨s, hs, rfl⟩ := Option.map_eq_some_iff.mp hstep
        cases op with
        | append inode bytes => cases hop
        | create name => cases hop
        | remove name => cases hop
        | start => exact inv.start hs
        | poll answer => exact inv.poll hs
        | look readable => exact inv.look hfollows hs
        | noRecord write => exact inv.noRecord hs
        | check => exact inv.check hs
        | reopen => exact inv.reopen hfollows hs
        | commit result => exact inv.commit hs
      · cases hstep

theorem RotationInv.new {fs : FileSystem} {path : String} (bookmarkFilename oneshot delete : Bool)
    (hnewest : (fs.create path).Newest path) :
    RotationInv parsing (.new fs path bookmarkFilename oneshot delete) := by
  have hempty : (fs.create path).content fs.inodes.length = [] := by
    rw [FileSystem.content_create, FileSystem.content, List.getElem?_eq_none (Nat.le_refl _)]
    rfl
  have hlookup : (fs.create path).names.lookup path = some fs.inodes.length := AList.lookup_insert _
  have hinput : (EveInput.fromPath path).path = path ∧
      (EveInput.fromPath path).spoolFile = SpoolFile.parse path := by
    unfold EveInput.fromPath
    split
    · rename_i g hparse
      exact ⟨EveReader.parse_path hparse, hparse.symm⟩
    · rename_i hparse
      exact ⟨rfl, hparse.symm⟩
  obtain ⟨hpath, hspool⟩ := hinput
  refine ⟨⟨?_, ?_, ?_⟩, fun _ => ⟨rfl, rfl⟩, by rintro ⟨⟩, [], ⟨path, fs.inodes.length⟩, 0, [], rfl, ?_, ?_,
    ?_, ?_⟩
  · intro f hf
    obtain rfl := List.mem_singleton.mp hf
    show tail newline ((fs.create path).content fs.inodes.length) = []
    rw [hempty]
    rfl
  · intro f hf
    obtain rfl := List.mem_singleton.mp hf
    show fs.inodes.length < (fs.inodes ++ [[]]).length
    rw [List.length_append]
    exact Nat.lt_succ_self _
  · exact List.nodup_singleton _
  · refine ⟨hpath, Or.inr ⟨rfl, rfl⟩, Nat.zero_le _, Nat.le_refl _, ?_⟩
    rw [List.take_zero]
    rfl
  · exact List.nil_prefix
  · intro _
    rw [Parsing.upTo_zero]
    rfl
  · by_cases hparse : SpoolFile.parse path = none
    · exact Or.inl ⟨hparse, hspool.trans hparse, rfl, by rintro _ ⟨⟩, .linked hlookup, by rintro ⟨⟩⟩
    · refine Or.inr ⟨hparse, hspool, List.pairwise_singleton _ _, ?_, by rintro _ ⟨⟩, ?_, by rintro _ ⟨⟩,
        by rintro ⟨⟩⟩
      · intro f' hf'
        obtain rfl := List.mem_singleton.mp hf'
        exact hlookup
      · rintro entry hentry ⟨g, hg, g', hg', hkey, hlt⟩
        have hle := hnewest g hg entry hentry g' hg' hkey
        omega

end EveBox.Eve
