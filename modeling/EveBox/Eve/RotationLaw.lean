import EveBox.Eve.RotationTheorems

/-!
# What a rotation loses

The reader decides at the end of a file that it is done with it, and leaves the file at a later step.
`rotation_law` says that lines are delivered exactly once, and files deleted only then, when nothing is
appended in between.
-/

namespace EveBox.Eve

open Rust Lines Transition

variable {V : Type*} {parsing : Parsing V} {t : Rotation V} {before after : List WrittenFile} {f : WrittenFile}
  {pos : ℕ}

/-! ## Deleted files -/

theorem Rotation.Placed.removes (h : t.Placed parsing before f pos after)
    (hrunning : t.system.processor.phase ≠ .panicked) {d : String} {j : ℕ}
    (hd : d ∈ t.system.processor.reader.completedSpoolFiles)
    (hj : t.system.fs.names.lookup d = some j) :
    ∃ before after, t.files = before ++ ⟨d, j⟩ :: after ∧
      parsing.eventsOf t.system.fs (before ++ [⟨d, j⟩]) <+: t.system.delivered := by
  rcases h.link with hplain | hspool
  · rw [hplain.completed] at hd
    cases hd
  · obtain ⟨f', hf', rfl⟩ := hspool.completed d hd
    obtain rfl := hspool.known f' hf' j hj
    obtain ⟨older, newer, rfl⟩ := List.append_of_mem hf'
    refine ⟨older, newer ++ f :: after, ?_, ?_⟩
    · rw [h.files, List.append_assoc]
      rfl
    · rw [h.delivered hrunning, Parsing.upTo]
      apply List.IsPrefix.trans ?_ (List.prefix_append _ _)
      rw [show older ++ f' :: newer = (older ++ [f']) ++ newer by rw [List.append_assoc]; rfl,
        Parsing.eventsOf_append parsing _ (older ++ [f'])]
      exact List.prefix_append _ _

theorem System.checkpoint_delivered (s : System V) (write : BookmarkWrite) :
    (s.checkpoint write).delivered = s.delivered := by
  unfold System.checkpoint
  split
  · split <;> rfl
  · rfl

/-- A step of the processor that removes a name is a checkpoint, and delivers nothing. -/
theorem System.step_removes {s s' : System V} {op : SystemOp} (hop : op.ofProcessor = true)
    (h : s.step parsing op = some s') {d : String} {j : ℕ} (hj : s.fs.names.lookup d = some j)
    (hnone : s'.fs.names.lookup d = none) :
    s.processor.phase ≠ .panicked ∧ s'.delivered = s.delivered ∧
      d ∈ s.processor.reader.completedSpoolFiles := by
  rcases System.step_checkpoint hop h with ⟨hfs, -⟩ | ⟨hrunning, u, write, phase, hu, rfl, -⟩
  · rw [hfs, hj] at hnone
    cases hnone
  · refine ⟨hrunning.2, ?_⟩
    have hdelivered := u.checkpoint_delivered write
    rcases hu with ⟨rfl, -⟩ | rfl
    · exact ⟨hdelivered, (System.checkpoint_removes hj hnone).2⟩
    · exact ⟨hdelivered.trans s.store_delivered, (System.checkpoint_removes (s := s.store) hj hnone).2⟩

theorem RotationInv.removesDelivered (inv : RotationInv parsing t) {op : SystemOp} {t' : Rotation V}
    (hstep : t.step parsing (.processor op) = some t') : t.RemovesDelivered parsing t' := by
  simp only [Rotation.step] at hstep
  split at hstep
  · rename_i hop
    obtain ⟨s, hs, rfl⟩ := Option.map_eq_some_iff.mp hstep
    intro d j hj hnone
    obtain ⟨hrunning, hdelivered, hcompleted⟩ := System.step_removes hop hs hj hnone
    obtain ⟨before, f, pos, after, h⟩ := inv.placed
    rw [hdelivered]
    exact h.removes hrunning hcompleted hj
  · cases hstep

/-! ## Progress -/

/-- A place in a list of files with inodes of their own. -/
theorem WrittenFile.split_unique {before' after' : List WrittenFile} {f' : WrittenFile}
    (h : before ++ f :: after = before' ++ f' :: after')
    (hnodup : ((before ++ f :: after).map (·.inode)).Nodup) (hinode : f.inode = f'.inode) :
    before = before' ∧ f = f' ∧ after = after' := by
  have hmem : f' ∈ before ++ f :: after := by
    rw [h]
    exact List.mem_append_right _ List.mem_cons_self
  obtain rfl : f = f' :=
    List.inj_on_of_nodup_map hnodup (List.mem_append_right _ List.mem_cons_self) hmem hinode
  have hnot := (List.nodup_cons.mp (List.nodup_middle.mp hnodup.of_map)).1
  rw [List.mem_append, not_or] at hnot
  exact (List.append_cons_inj_of_notMem hnot.1 hnot.2).mp h

/-- The file that the reader has open is its place. -/
theorem RotationInv.placed_of_open (inv : RotationInv parsing t) (hfiles : t.files = before ++ f :: after)
    (hreader : t.system.processor.reader.reader = some ⟨f.inode, pos⟩) :
    t.Placed parsing before f pos after := by
  obtain ⟨before', f', pos', after', h⟩ := inv.placed
  have hopen : (⟨f'.inode, pos'⟩ : OpenFile) = ⟨f.inode, pos⟩ := by
    rcases h.stands.reader with hopen | ⟨hnone, -⟩
    · exact Option.some.inj (hopen.symm.trans hreader)
    · rw [hreader] at hnone
      cases hnone
  obtain ⟨hinode, rfl⟩ := OpenFile.mk.inj hopen
  have hnodup := inv.chain.nodup
  rw [h.files] at hnodup hfiles
  obtain ⟨rfl, rfl, rfl⟩ := WrittenFile.split_unique hfiles hnodup hinode
  exact h

/-- The file that the reader is about to open is its place. -/
theorem RotationInv.placed_of_name (inv : RotationInv parsing t) (hfiles : t.files = before ++ f :: after)
    (hreader : t.system.processor.reader.reader = none)
    (hlookup : t.system.fs.names.lookup t.system.processor.reader.filename = some f.inode) :
    t.Placed parsing before f 0 after := by
  obtain ⟨before', f', pos', after', h⟩ := inv.placed
  have hinode : f'.inode = f.inode := by
    rw [h.stands.filename, h.lookup hreader] at hlookup
    exact Option.some.inj hlookup
  obtain rfl : pos' = 0 := by
    rcases h.stands.reader with hopen | ⟨-, hpos⟩
    · rw [hreader] at hopen
      cases hopen
    · exact hpos
  have hnodup := inv.chain.nodup
  rw [h.files] at hnodup hfiles
  obtain ⟨rfl, rfl, rfl⟩ := WrittenFile.split_unique hfiles hnodup hinode
  exact h

/-- A step that leaves the files. -/
theorem Rotation.Drains.of_step (op : SystemOp) (hop : op.ofProcessor = true) {s : System V}
    (hstep : t.system.step parsing op = some s) (hfs : s.fs = t.system.fs)
    (hfollows : t.Follows (.processor op)) (h : Rotation.Drains parsing { t with system := s }) :
    t.Drains parsing := by
  have hfirst : t.step parsing (.processor op) = some { t with system := s } := by
    simp only [Rotation.step, hop, if_true, hstep, Option.map_some]
  have hwritten : Rotation.written parsing { t with system := s } = t.written parsing := by
    show parsing.eventsOf s.fs t.files = _
    rw [hfs]
    rfl
  obtain ⟨ops, t', halong, hexec, hdelivered⟩ := h
  refine ⟨op :: ops, t', ⟨hfollows, fun u hu => ?_⟩, ?_, hdelivered.trans hwritten⟩
  · obtain rfl := Option.some.inj (hfirst.symm.trans hu)
    exact halong
  · rw [List.map_cons, exec_cons, hfirst]
    exact hexec

theorem System.checkpoint_refused (s : System V) : s.checkpoint .refused = s := by
  unfold System.checkpoint
  split <;> rfl

/-- A commit that the sink answers. -/
theorem System.commit_refused {s : System V} {eof : Bool} (hphase : s.processor.phase = .committing eof)
    (honeshot : s.processor.oneshot = false) :
    s.commit (some .refused) = some (s.store.withPhase .reading) := by
  unfold System.commit
  rw [hphase]
  show some (if eof then (s.store.checkpoint .refused).afterEof
    else (s.store.checkpoint .refused).withPhase .reading) = _
  rw [System.checkpoint_refused]
  cases eof with
  | false => rfl
  | true =>
      show some (s.store.withPhase (if s.processor.oneshot then .stopped else .reading)) = _
      rw [honeshot]
      rfl

theorem System.look_next {s : System V} (hphase : s.processor.phase = .ended) {reader : EveReader}
    (hadvance : s.processor.reader.advance s.fs = some reader) :
    ∃ passed, s.look true = some { (s.withReader reader).withPhase .reading with passed } := by
  unfold System.look
  rw [hphase]
  dsimp only
  rw [Bool.not_true, Bool.and_false, if_neg Bool.false_ne_true, hadvance]
  exact ⟨_, rfl⟩

theorem System.look_none {s : System V} (hphase : s.processor.phase = .ended)
    (hadvance : s.processor.reader.advance s.fs = none) : s.look true = some (s.withPhase .noRecord) := by
  unfold System.look
  rw [hphase]
  dsimp only
  rw [Bool.not_true, Bool.and_false, if_neg Bool.false_ne_true, hadvance]

theorem System.noRecord_committing {s : System V} (hphase : s.processor.phase = .noRecord)
    (hqueue : s.processor.queue ≠ []) : s.noRecord .refused = some (s.withPhase (.committing true)) := by
  unfold System.noRecord
  rw [hphase]
  dsimp only
  rw [if_pos hqueue]

theorem System.noRecord_checking {s : System V} (hphase : s.processor.phase = .noRecord)
    (hqueue : s.processor.queue = []) (hcompleted : s.processor.reader.hasCompletedSpoolFiles = false)
    (honeshot : s.processor.oneshot = false) : s.noRecord .refused = some (s.withPhase .checking) := by
  unfold System.noRecord
  rw [hphase]
  dsimp only
  rw [if_neg (not_not.mpr hqueue), hcompleted, if_neg Bool.false_ne_true, honeshot, if_neg Bool.false_ne_true]

theorem System.check_changed {s : System V} (hphase : s.processor.phase = .checking)
    (hchanged : s.processor.reader.isFileChanged s.fs = true) : s.check = some (s.withPhase .reopening) := by
  unfold System.check
  rw [hphase]
  dsimp only
  rw [if_pos hchanged]

/-- The file under the name is opened. -/
theorem System.reopen_some {s : System V} (hphase : s.processor.phase = .reopening)
    (honeshot : s.processor.oneshot = false) {inode : ℕ}
    (hlookup : s.fs.names.lookup s.processor.reader.filename = some inode) :
    s.reopen = some ((s.withReader
      { s.processor.reader with reader := some ⟨inode, 0⟩, lineno := 0, offset := 0 }).withPhase .reading) := by
  have hreopen : (s.processor.reader.reopen s.fs).2 =
      { s.processor.reader with reader := some ⟨inode, 0⟩, lineno := 0, offset := 0 } := by
    rw [EveReader.reopen, EveReader.open, hlookup]
  unfold System.reopen
  rw [hphase, hreopen]
  show some (System.withPhase _ (if s.processor.oneshot then .stopped else .reading)) = _
  rw [honeshot]
  rfl

/-- The reader goes on with the line before it. -/
theorem System.poll_line {s : System V} (hphase : s.processor.phase = .reading) {file : OpenFile}
    (hopened : (s.processor.reader.opened s.fs).reader = some file) (hmem : newline ∈ s.fs.rest file) :
    ∃ s', s.poll parsing (some false) = some s' ∧
      (s'.processor.phase = .reading ∨ s'.processor.phase = .committing false) ∧ s'.fs = s.fs ∧
      s'.processor.oneshot = s.processor.oneshot ∧
      s'.processor.reader.reader = some (file.advance (first newline (s.fs.rest file)).length) := by
  unfold System.poll
  rw [hphase]
  dsimp only
  rcases EveReader.pollLine_cases parsing.fromStr s.processor.reader s.fs with
    ⟨hnone, -⟩ | ⟨file', hfile', hpoll⟩
  · rw [hopened] at hnone
    cases hnone
  · obtain rfl := Option.some.inj (hopened.symm.trans hfile')
    rw [hpoll]
    have hafter := EveReader.afterLine_reader (s.processor.reader.opened s.fs) s.fs file
    rcases EveReader.pollOpen_cases parsing.fromStr s.fs hopened with
      ⟨hnot, -⟩ | ⟨hnot, -⟩ | ⟨-, ⟨record, -, hcase⟩ | ⟨-, hcase | ⟨err, hcase⟩⟩⟩
    · exact absurd hmem hnot
    · exact absurd hmem hnot
    · rw [hcase]
      refine ⟨_, rfl, ?_, rfl, rfl, hafter⟩
      unfold System.submit
      dsimp only
      split
      · exact Or.inr rfl
      · exact Or.inl rfl
    · rw [hcase]
      exact ⟨_, rfl, Or.inl hphase, rfl, rfl, hafter⟩
    · rw [hcase]
      exact ⟨_, rfl, Or.inl hphase, rfl, rfl, hafter⟩

/-- The reader finds the end of its file. -/
theorem System.poll_end (parsing : Parsing V) {s : System V} (hphase : s.processor.phase = .reading)
    {file : OpenFile} (hopened : (s.processor.reader.opened s.fs).reader = some file) (hrest : s.fs.rest file = []) :
    ∃ r : EveReader, s.poll parsing (some false) = some ((s.withReader r).withPhase .ended) ∧
      r.reader = some file ∧ r.filename = (s.processor.reader.opened s.fs).filename ∧
      r.spool = (s.processor.reader.opened s.fs).spool ∧
      r.completedSpoolFiles = (s.processor.reader.opened s.fs).completedSpoolFiles := by
  unfold System.poll
  rw [hphase]
  dsimp only
  rcases EveReader.pollLine_cases parsing.fromStr s.processor.reader s.fs with
    ⟨hnone, -⟩ | ⟨file', hfile', hpoll⟩
  · rw [hopened] at hnone
    cases hnone
  · obtain rfl := Option.some.inj (hopened.symm.trans hfile')
    rw [hpoll]
    rcases EveReader.pollOpen_cases parsing.fromStr s.fs hopened with
      ⟨-, -, hcase⟩ | ⟨-, htorn, -⟩ | ⟨hmem, -⟩
    · rw [hcase]
      exact ⟨_, rfl, hopened, rfl, rfl, rfl⟩
    · rw [hrest] at htorn
      cases htorn
    · rw [hrest] at hmem
      cases hmem

/-- What the reader has not read yet, with a step more for each file to come. -/
def Rotation.ahead (fs : FileSystem) (f : WrittenFile) (pos : ℕ) (after : List WrittenFile) : ℕ :=
  ((fs.content f.inode).drop pos).length + (after.map fun f => (fs.content f.inode).length + 1).sum

theorem Rotation.ahead_next {fs : FileSystem} {f' : WrittenFile} :
    Rotation.ahead fs f' 0 after < Rotation.ahead fs f pos (f' :: after) := by
  unfold Rotation.ahead
  rw [List.map_cons, List.sum_cons, List.drop_zero]
  omega

theorem Rotation.ahead_line {fs : FileSystem} (hmem : newline ∈ fs.rest ⟨f.inode, pos⟩) :
    Rotation.ahead fs f (pos + (first newline (fs.rest ⟨f.inode, pos⟩)).length) after <
      Rotation.ahead fs f pos after := by
  have hne : first newline (fs.rest ⟨f.inode, pos⟩) ≠ [] := List.ne_nil_of_mem (isLine_first hmem).mem
  have hpos := List.length_pos_iff.mpr hne
  have hrest : 0 < ((fs.content f.inode).drop pos).length := List.length_pos_of_mem hmem
  unfold Rotation.ahead
  rw [List.length_drop] at hrest ⊢
  rw [List.length_drop]
  omega

/-- A plain file that has been rotated: the reader at its end, with nothing to commit, goes on to the file
after it. -/
theorem RotationInv.drains_rotated (inv : RotationInv parsing t) {f' : WrittenFile}
    (h : t.Placed parsing before f pos [f'])
    (hplain : Rotation.Plain t.system.fs t.system.processor.reader t.system.processor.phase f [f'])
    (hphase : t.system.processor.phase = .reading) (honeshot : t.system.processor.oneshot = false)
    (hqueue : t.system.processor.queue = []) (hrest : t.system.fs.rest ⟨f.inode, pos⟩ = [])
    (hnext : ∀ s : System V, RotationInv parsing { t with system := s } → s.processor.phase = .reading →
      s.processor.oneshot = false → s.fs = t.system.fs →
      Rotation.Placed parsing { t with system := s } (before ++ [f]) f' 0 [] →
      Rotation.Drains parsing { t with system := s }) : t.Drains parsing := by
  obtain ⟨hlookup, hreader⟩ : t.system.fs.names.lookup f.name = some f'.inode ∧
      t.system.processor.reader.reader ≠ none := by
    cases hplain.link with
    | rotated f' hlookup hreader => exact ⟨hlookup, hreader⟩
  obtain ⟨hstands, hopened, hspool, hcompleted⟩ := h.stands.opened h.lookup
  obtain ⟨r, hpoll, hr, hname, hrspool, hrcompleted⟩ := System.poll_end parsing hphase hopened hrest
  have hunread : r.unread t.system.fs = [] := by
    rw [EveReader.unread, hr]
    exact hrest
  have hadvance : r.advance t.system.fs = none := by
    rw [EveReader.advance, hrspool, hspool, hplain.spool]
    rfl
  have hcompleted' : r.hasCompletedSpoolFiles = false := by
    rw [EveReader.hasCompletedSpoolFiles, hrcompleted, hcompleted, hplain.completed]
    rfl
  have hne : f'.inode ≠ f.inode := by
    have hnodup := inv.chain.nodup
    rw [h.files, List.map_append] at hnodup
    have hnot := (List.nodup_cons.mp (List.nodup_append.mp hnodup).2.1).1
    intro heq
    exact hnot (List.mem_singleton.mpr heq.symm)
  have hrname : r.filename = f.name := hname.trans hstands.filename
  have hchanged : r.isFileChanged t.system.fs = true := by
    rw [EveReader.isFileChanged, hr, hrname, hlookup]
    simp [hne]
  -- the end, the look for a spool file, the end of the round, the look for a change, and the new file
  let s₁ := (t.system.withReader r).withPhase .ended
  have hlook : s₁.look true = some (s₁.withPhase .noRecord) := System.look_none rfl hadvance
  have hnone : (s₁.withPhase .noRecord).noRecord .refused = some (s₁.withPhase .checking) :=
    System.noRecord_checking rfl hqueue hcompleted' honeshot
  have hcheck : (s₁.withPhase .checking).check = some (s₁.withPhase .reopening) :=
    System.check_changed rfl hchanged
  have hreopen := System.reopen_some (s := s₁.withPhase .reopening) rfl honeshot
    (show t.system.fs.names.lookup r.filename = some f'.inode by rw [hrname, hlookup])
  have inv₁ := inv.poll hpoll
  have inv₂ := inv₁.look (fun _ _ => hunread) hlook
  have inv₃ := inv₂.noRecord hnone
  have inv₄ := inv₃.check hcheck
  have inv₅ := inv₄.reopen hunread hreopen
  refine .of_step (.poll (some false)) rfl hpoll rfl trivial ?_
  refine .of_step (.look true) rfl hlook rfl (fun _ _ => hunread) ?_
  refine .of_step (.noRecord .refused) rfl hnone rfl trivial ?_
  refine .of_step .check rfl hcheck rfl trivial ?_
  refine .of_step .reopen rfl hreopen rfl hunread ?_
  refine hnext _ inv₅ rfl honeshot rfl (inv₅.placed_of_open ?_ rfl)
  rw [List.append_assoc]
  exact h.files

/-- A reader that reads delivers everything in the end: by induction on what is ahead of it. -/
theorem RotationInv.drains {n : ℕ} (inv : RotationInv parsing t)
    (hphase : t.system.processor.phase = .reading) (honeshot : t.system.processor.oneshot = false)
    (h : t.Placed parsing before f pos after) (hn : Rotation.ahead t.system.fs f pos after = n) :
    t.Drains parsing := by
  induction n using Nat.strong_induction_on generalizing t before f pos after with
  | _ n ih =>
    obtain ⟨hstands, hopened, hrspool, hrcompleted⟩ := h.stands.opened h.lookup
    have hf : f ∈ t.files := by
      rw [h.files]
      exact List.mem_append_right _ List.mem_cons_self
    by_cases hmem : newline ∈ t.system.fs.rest ⟨f.inode, pos⟩
    · -- after a line the reader is in the same file
      have hread : ∀ s : System V, RotationInv parsing { t with system := s } → s.processor.phase = .reading →
          s.processor.oneshot = false → s.fs = t.system.fs →
          s.processor.reader.reader =
            some ⟨f.inode, pos + (first newline (t.system.fs.rest ⟨f.inode, pos⟩)).length⟩ →
          Rotation.Drains parsing { t with system := s } := by
        intro s inv' hphase' honeshot' hfs hreader
        apply ih _ ?_ inv' hphase' honeshot' (inv'.placed_of_open h.files hreader) rfl
        show Rotation.ahead s.fs f _ after < n
        rw [hfs, ← hn]
        exact Rotation.ahead_line hmem
      obtain ⟨s, hpoll, hphase', hfs, honeshot', hreader⟩ := System.poll_line hphase hopened hmem
      rw [honeshot] at honeshot'
      have inv' := inv.poll hpoll
      refine .of_step (.poll (some false)) rfl hpoll hfs trivial ?_
      rcases hphase' with hreading | hcommitting
      · exact hread s inv' hreading honeshot' hfs hreader
      · have hcommit := System.commit_refused hcommitting honeshot'
        refine .of_step (.commit (some .refused)) rfl hcommit rfl trivial ?_
        exact hread (s.store.withPhase .reading) (inv'.commit hcommit) rfl honeshot' hfs hreader
    · have hrest := h.stands.rest_eq_nil (inv.chain.whole f hf) hmem
      -- the next file
      have hnext : ∀ (f' : WrittenFile) (after' : List WrittenFile), after = f' :: after' → ∀ s : System V,
          RotationInv parsing { t with system := s } → s.processor.phase = .reading →
          s.processor.oneshot = false → s.fs = t.system.fs →
          Rotation.Placed parsing { t with system := s } (before ++ [f]) f' 0 after' →
          Rotation.Drains parsing { t with system := s } := by
        rintro f' after' rfl s inv' hphase' honeshot' hfs hplaced
        apply ih _ ?_ inv' hphase' honeshot' hplaced rfl
        show Rotation.ahead s.fs f' 0 after' < n
        rw [hfs, ← hn]
        exact Rotation.ahead_next
      cases after with
      | nil =>
          have hrunning : t.system.processor.phase ≠ .panicked := by
            rw [hphase]
            rintro ⟨⟩
          refine ⟨[], t, trivial, rfl, ?_⟩
          rw [h.written, h.delivered hrunning,
            show (t.system.fs.content f.inode).drop pos = [] from hrest]
          exact (List.append_nil _).symm
      | cons f' after' =>
          obtain ⟨r, hpoll, hr, hname, hspool, -⟩ := System.poll_end parsing hphase hopened hrest
          have inv₁ := inv.poll hpoll
          have hunread : r.unread t.system.fs = [] := by
            rw [EveReader.unread, hr]
            exact hrest
          rcases h.link with hplain | hin
          · obtain rfl : after' = [] := by
              cases hplain.link
              rfl
            by_cases hqueue : t.system.processor.queue = []
            · exact inv.drains_rotated h hplain hphase honeshot hqueue hrest (hnext f' [] rfl)
            · -- what is pending is committed first
              have hadvance : r.advance t.system.fs = none := by
                rw [EveReader.advance, hspool, hrspool, hplain.spool]
                rfl
              let s₁ := (t.system.withReader r).withPhase .ended
              have hlook : s₁.look true = some (s₁.withPhase .noRecord) := System.look_none rfl hadvance
              have hnone : (s₁.withPhase .noRecord).noRecord .refused =
                  some (s₁.withPhase (.committing true)) :=
                System.noRecord_committing rfl hqueue
              have hcommit := System.commit_refused (s := s₁.withPhase (.committing true)) rfl honeshot
              have inv₂ := inv₁.look (fun _ _ => hunread) hlook
              have inv₃ := inv₂.noRecord hnone
              have inv₄ := inv₃.commit hcommit
              refine .of_step (.poll (some false)) rfl hpoll rfl trivial ?_
              refine .of_step (.look true) rfl hlook rfl (fun _ _ => hunread) ?_
              refine .of_step (.noRecord .refused) rfl hnone rfl trivial ?_
              refine .of_step (.commit (some .refused)) rfl hcommit rfl trivial ?_
              have hplaced := inv₄.placed_of_open h.files hr
              rcases hplaced.link with hplain' | hin
              · exact inv₄.drains_rotated hplaced hplain' rfl honeshot rfl hrest (hnext f' [] rfl)
              · exact absurd hplain.parse hin.parse
          · obtain ⟨next, hsome⟩ := hin.exists_next
            obtain ⟨f'', after'', hafter, hpath, -⟩ := hin.next hsome
            obtain ⟨rfl, rfl⟩ := List.cons.inj hafter
            have hadvance : ∃ reader, r.advance t.system.fs = some reader ∧ reader.reader = none ∧
                reader.filename = f'.name := by
              rw [EveReader.advance, hspool, hrspool, hsome]
              refine ⟨_, rfl, ?_, ?_⟩
              · dsimp only
                split <;> rfl
              · dsimp only
                split <;> exact hpath
            obtain ⟨reader, hadvance, hreader, hfilename⟩ := hadvance
            obtain ⟨passed, hlook⟩ :=
              System.look_next (s := (t.system.withReader r).withPhase .ended) rfl hadvance
            have inv₂ := inv₁.look (fun _ _ => hunread) hlook
            refine .of_step (.poll (some false)) rfl hpoll rfl trivial ?_
            refine .of_step (.look true) rfl hlook rfl (fun _ _ => hunread) ?_
            refine hnext f' after' rfl _ inv₂ rfl honeshot rfl (inv₂.placed_of_name ?_ hreader ?_)
            · rw [List.append_assoc]
              exact h.files
            · show t.system.fs.names.lookup reader.filename = some f'.inode
              rw [hfilename]
              exact hin.there f' (List.mem_cons_of_mem _ List.mem_cons_self)

/-- In every run of the writer and the processor in which the reader keeps up: the lines are delivered once
each and in their order, no file is deleted that has a line which is not delivered, and a reader that reads
can go on to the end of what has been written. -/
theorem rotation_law {fs : FileSystem} {path : String} {bookmarkFilename oneshot delete : Bool}
    {ops : List RotationOp} (hnewest : (fs.create path).Newest path)
    (hfollows : Along (Rotation.step parsing) Rotation.Follows
      (.new fs path bookmarkFilename oneshot delete) ops)
    (hrun : exec (Rotation.step parsing) (.new fs path bookmarkFilename oneshot delete) ops = some t) :
    t.Exact parsing ∧
      (∀ op t', t.step parsing (.processor op) = some t' → t.RemovesDelivered parsing t') ∧
        (t.system.processor.phase = .reading → t.system.processor.oneshot = false → t.Drains parsing) := by
  have inv : RotationInv parsing t :=
    invariant_along (P := RotationInv parsing) (fun _ _ _ inv hok hstep => inv.step hok hstep)
      (.new bookmarkFilename oneshot delete hnewest) hfollows hrun
  obtain ⟨before, f, pos, after, h⟩ := inv.placed
  exact ⟨h.exact inv.chain, fun _ _ hstep => inv.removesDelivered hstep,
    fun hphase honeshot => inv.drains hphase honeshot h rfl⟩

/-- A file is rotated while it still has a line before the reader, and gets another one until it is made
again. -/
def followedRun : List RotationOp :=
  [.processor .start, .append [49, 10], .processor (.poll (some false)), .append [50, 10], .rename,
    .append [51, 10], .processor (.poll (some false)), .create, .append [52, 10],
    .processor (.poll (some false)), .processor (.poll none), .processor (.look true),
    .processor (.noRecord .refused), .processor (.commit (some .refused)), .processor (.poll none),
    .processor (.look true), .processor (.noRecord .refused), .processor .check, .processor .reopen,
    .processor (.poll (some false))]

theorem rotation_law_followedRun :
    ∃ t, exec (Rotation.step anyLine) (.new .empty "eve.json" true false false) followedRun = some t ∧
      t.system.delivered = [['1'], ['2'], ['3'], ['4']] ∧
      t.Exact anyLine ∧
        (∀ op t', t.step anyLine (.processor op) = some t' → t.RemovesDelivered anyLine t') ∧
          (t.system.processor.phase = .reading → t.system.processor.oneshot = false → t.Drains anyLine) := by
  have hrun : (exec (Rotation.step anyLine) (.new .empty "eve.json" true false false) followedRun).map
      (fun t => t.system.delivered) = some [['1'], ['2'], ['3'], ['4']] := by
    decide +kernel
  obtain ⟨t, ht, hdelivered⟩ := Option.map_eq_some_iff.mp hrun
  exact ⟨t, ht, hdelivered, rotation_law (by decide +kernel) (by decide +kernel) ht⟩

/-- The plain file gets a line after its end has been found, and is rotated. -/
def missedRun : List RotationOp :=
  [.processor .start, .append [49, 10], .processor (.poll (some true)), .processor (.commit (some .refused)),
    .processor (.poll none), .processor (.look true), .processor (.noRecord .refused), .append [50, 10],
    .rename, .create, .append [51, 10], .processor .check, .processor .reopen,
    .processor (.poll (some true))]

/-- The spool file gets a line after its end has been found, and the writer goes on in the next one. -/
def missedSpoolRun : List RotationOp :=
  [.processor .start, .append [49, 10], .processor (.poll (some false)), .processor (.poll none),
    .append [50, 10], .next "eve.json.1700000002", .append [51, 10], .processor (.look true),
    .processor (.poll (some true))]

/-- The second line is never delivered, and its spool file is deleted. -/
theorem missedRun_loses :
    (∃ t, exec (Rotation.step anyLine) (.new .empty "eve.json" true false false) missedRun = some t ∧
      ¬ t.Exact anyLine) ∧
    ∃ t t', exec (Rotation.step anyLine) (.new .empty "eve.json.1700000001" true false true) missedSpoolRun =
        some t ∧
      t.step anyLine (.processor (.commit (some (.written [])))) = some t' ∧
      ¬ t'.Exact anyLine ∧ ¬ t.RemovesDelivered anyLine t' := by
  constructor
  · have hrun : (exec (Rotation.step anyLine) (.new .empty "eve.json" true false false) missedRun).map
        (fun t => (t.system.delivered, t.written anyLine)) =
        some ([['1'], ['3']], [['1'], ['2'], ['3']]) := by
      decide +kernel
    obtain ⟨t, ht, hresult⟩ := Option.map_eq_some_iff.mp hrun
    obtain ⟨hdelivered, hwritten⟩ := Prod.mk.inj hresult
    refine ⟨t, ht, fun hexact => ?_⟩
    have horder := hexact.order
    rw [hdelivered, hwritten] at horder
    revert horder
    decide
  · have hrun : ((exec (Rotation.step anyLine) (.new .empty "eve.json.1700000001" true false true)
        missedSpoolRun).bind fun t => (t.step anyLine (.processor (.commit (some (.written []))))).map fun t' =>
          ((t'.system.delivered, t'.written anyLine), anyLine.events (t.system.fs.content 0),
            (id (t.system.fs.names.lookup "eve.json.1700000001") : Option ℕ),
            (id (t'.system.fs.names.lookup "eve.json.1700000001") : Option ℕ))) =
        some (([['1'], ['3']], [['1'], ['2'], ['3']]), [['1'], ['2']], some 0, none) := by
      decide +kernel
    obtain ⟨t, ht, hrun⟩ := Option.bind_eq_some_iff.mp hrun
    obtain ⟨t', ht', hresult⟩ := Option.map_eq_some_iff.mp hrun
    obtain ⟨⟨hdelivered, hwritten⟩, hevents, hlookup, hnone⟩ := by
      simpa only [Prod.mk.injEq, id] using hresult
    refine ⟨t, t', ht, ht', fun hexact => ?_, fun hremoves => ?_⟩
    · have horder := hexact.order
      rw [hdelivered, hwritten] at horder
      revert horder
      decide
    · obtain ⟨before, after, -, hprefix⟩ := hremoves _ _ hlookup hnone
      have hline : ['2'] ∈ anyLine.eventsOf t.system.fs (before ++ [⟨"eve.json.1700000001", 0⟩]) := by
        rw [Parsing.eventsOf_append, Parsing.eventsOf_cons, hevents]
        exact List.mem_append_right _ (List.mem_append_left _ (by decide))
      have hmem := hprefix.subset hline
      rw [hdelivered] at hmem
      revert hmem
      decide

end EveBox.Eve
