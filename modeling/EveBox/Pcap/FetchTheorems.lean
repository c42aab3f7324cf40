import EveBox.Lib.KWayMerge
import EveBox.Pcap.Fetch

/-!
# What the fetch writes

With nothing to stop it (`Quiet`), the merge of `fetch` refines `KWayMerge.merge` over the matching
packets of each file: `mergeLoop_sim`. The abstract merge then says which packets are written, and in
which order: `fetchMerge_written`.
-/

namespace EveBox.Pcap

open Rust KWayMerge

/-! ## The packets that match -/

/-- The packets of a record list that pass the gate and the program, as pending packets. -/
def matching (m : Matcher) (linktype : Linktype) (program : Option BpfProgram) (pkts : List Packet) :
    List PendingPacket :=
  (pkts.filter (m.accepts program)).map (.of linktype)

/-- The matching packets of a file. A file that cannot be opened, or for whose link type the filter
does not compile, has none. -/
def fileMatching {Path : Type*} (lib : Libpcap Path) (m : Matcher) (path : Path) :
    List PendingPacket :=
  match lib.fromFile path with
  | .error _ => []
  | .ok file =>
      match (compileFilter lib m file.linktype {}).1 with
      | none => []
      | some program => matching m file.linktype program file.records

/-- The matching packets of a group of files, in file-then-record order. -/
def groupMatching {Path : Type*} (lib : Libpcap Path) (m : Matcher) (files : List Path) :
    List PendingPacket :=
  files.flatMap (fileMatching lib m)

/-- Which program a filter compiles to does not depend on what was compiled before. -/
theorem compileFilter_fst {Path : Type*} (lib : Libpcap Path) (m : Matcher) (linktype : Linktype)
    (tracker : BpfExprTracker) :
    (compileFilter lib m linktype tracker).1 = (compileFilter lib m linktype {}).1 := by
  unfold compileFilter
  split
  · split <;> rfl
  · split
    · split
      · rfl
      · split <;> rfl
    · rfl

theorem matching_cons (m : Matcher) (linktype : Linktype) (program : Option BpfProgram)
    (pkt : Packet) (pkts : List Packet) :
    matching m linktype program (pkt :: pkts) =
      if m.accepts program pkt then .of linktype pkt :: matching m linktype program pkts
      else matching m linktype program pkts := by
  unfold matching
  rw [List.filter_cons]
  split <;> rfl

theorem linktype_of_mem_matching {m : Matcher} {linktype : Linktype} {program : Option BpfProgram}
    {pkts : List Packet} {p : PendingPacket} (h : p ∈ matching m linktype program pkts) :
    p.linktype = linktype := by
  simp only [matching, List.mem_map] at h
  obtain ⟨pkt, -, rfl⟩ := h
  rfl

/-- A matching packet of a file carries the file's link type. -/
theorem linktype_of_mem_fileMatching {Path : Type*} {lib : Libpcap Path} {m : Matcher} {path : Path}
    {p : PendingPacket} (h : p ∈ fileMatching lib m path) :
    ∃ file, lib.fromFile path = .ok file ∧ p.linktype = file.linktype := by
  unfold fileMatching at h
  split at h
  · cases h
  · rename_i file hfile
    split at h
    · cases h
    · exact ⟨file, hfile, linktype_of_mem_matching h⟩

theorem homogeneous_fileMatching {Path : Type*} (lib : Libpcap Path) (m : Matcher) (path : Path) :
    Homogeneous PendingPacket.linktype (fileMatching lib m path) := by
  intro x hx y hy
  obtain ⟨file, hfile, hxl⟩ := linktype_of_mem_fileMatching hx
  obtain ⟨file', hfile', hyl⟩ := linktype_of_mem_fileMatching hy
  rw [hfile, Except.ok.injEq] at hfile'
  rw [hxl, hyl, hfile']

/-! ## Nothing stops the fetch -/

/-- No byte cap, no deadline, and no cancellation. -/
structure Quiet (env : Env) (limits : Limits) : Prop where
  maxBytes : limits.maxBytes = u64Max
  deadline : limits.deadline = none
  cancelled : ∀ n, env.cancelled n = false

/-- The packets of a ghost trace as the writer gets them. -/
def written (trace : List (ℕ × PendingPacket)) : List (Linktype × Packet) :=
  trace.map fun w => (w.2.linktype, ⟨w.2.header, w.2.data⟩)

/-- The shared arguments while nothing stops the fetch and `trace` has been written. -/
structure Idle {ω : Type*} [Write ω] (sink : Sink ω) (before : List UInt8)
    (trace : List (ℕ × PendingPacket)) (sh : Shared ω) : Prop where
  stopped : sh.ctl.stopped = none
  deadline : sh.ctl.deadline = none
  wrote : sh.writer.Wrote sink before (written trace)
  packets : sh.stats.packets = trace.length
  truncated : sh.stats.truncated = false

section

variable {Path ω : Type*} [ToString Path] [Write ω] {env : Env} {lib : Libpcap Path} {m : Matcher}
  {limits : Limits} {sink : Sink ω} {before : List UInt8} {trace : List (ℕ × PendingPacket)}

theorem maybeFlush_quiet (env : Env) {sh : Shared ω} (hidle : Idle sink before trace sh) :
    ∃ sh', maybeFlush env sh = (.ok (), sh') ∧ Idle sink before trace sh' := by
  obtain ⟨w, hflush, hwrote⟩ := hidle.wrote.flush
  unfold maybeFlush
  rw [hflush]
  split
  · exact ⟨_, rfl, hidle.stopped, hidle.deadline, hwrote, hidle.packets, hidle.truncated⟩
  · exact ⟨_, rfl, hidle.stopped, hidle.deadline, hidle.wrote, hidle.packets, hidle.truncated⟩

theorem refillTurn_quiet (quiet : Quiet env limits) {sh : Shared ω}
    (hidle : Idle sink before trace sh) :
    ∃ sh', refillTurn env sh = (.ok true, sh') ∧ Idle sink before trace sh' := by
  have hlive : sh.ctl.live env = (true, { sh.ctl with polls := sh.ctl.polls + 1 }) := by
    simp [Control.live, hidle.stopped, hidle.deadline, quiet.cancelled]
  have hidle₁ : Idle sink before trace { sh with ctl := { sh.ctl with polls := sh.ctl.polls + 1 } } :=
    ⟨hidle.stopped, hidle.deadline, hidle.wrote, hidle.packets, hidle.truncated⟩
  obtain ⟨sh', hflush, hidle'⟩ := maybeFlush_quiet env hidle₁
  refine ⟨sh', ?_, hidle'⟩
  unfold refillTurn
  rw [hlive]
  dsimp only
  rw [hflush]

omit [ToString Path] in
/-- What a scan finds: the first matching record, or the end of the capture. -/
theorem scanOpen_quiet (quiet : Quiet env limits) (o : OpenCapture Path) (rest : List Packet)
    {sh : Shared ω} (hidle : Idle sink before trace sh) :
    ∃ sh', Idle sink before trace sh' ∧
      ((matching m o.linktype o.filterProgram rest = [] ∧
          scanOpen env m o rest sh = (.ok .ended, sh')) ∨
        ∃ p o', scanOpen env m o rest sh = (.ok (.found p o'), sh') ∧
          matching m o.linktype o.filterProgram rest =
            p :: matching m o'.linktype o'.filterProgram o'.rest) := by
  induction rest generalizing sh with
  | nil =>
      obtain ⟨sh', hturn, hidle₁⟩ := refillTurn_quiet quiet hidle
      refine ⟨sh', hidle₁, Or.inl ⟨rfl, ?_⟩⟩
      unfold scanOpen
      rw [hturn]
  | cons pkt rest ih =>
      obtain ⟨sh₁, hturn, hidle₁⟩ := refillTurn_quiet quiet hidle
      rw [matching_cons]
      unfold scanOpen
      rw [hturn]
      simp only
      by_cases hacc : m.accepts o.filterProgram pkt = true
      · rw [if_pos hacc, if_pos hacc]
        exact ⟨sh₁, hidle₁, Or.inr ⟨_, _, rfl, rfl⟩⟩
      · rw [if_neg hacc, if_neg hacc]
        obtain ⟨sh₂, hidle₂, h⟩ := ih hidle₁
        exact ⟨sh₂, hidle₂, h⟩

/-! ## Cursors refine block queues -/

/-- The cursor of the abstract merge that a group cursor stands for: files without a matching packet
leave no block. -/
def GroupCursor.abs (lib : Libpcap Path) (m : Matcher) (c : GroupCursor Path) :
    KWayMerge.Cursor PendingPacket where
  pending := c.pending
  block := (c.opened.map fun o => matching m o.linktype o.filterProgram o.rest).getD []
  later := (c.files.map (fileMatching lib m)).filter (· ≠ [])

/-- No file of the list runs into descriptor exhaustion. -/
def Openable (lib : Libpcap Path) (files : List Path) : Prop :=
  ∀ path ∈ files, ∀ err, lib.fromFile path = .error err → fdExhausted err = false

/-- Opening a file gives a capture with the file's matching packets, or skips a file without any. -/
theorem openGroupFile_quiet {path : Path} (hfd : ∀ err, lib.fromFile path = .error err →
    fdExhausted err = false) {sh : Shared ω} (hidle : Idle sink before trace sh) :
    ∃ sh', Idle sink before trace sh' ∧
      ((fileMatching lib m path = [] ∧ openGroupFile lib m path sh = (.ok none, sh')) ∨
        ∃ o, openGroupFile lib m path sh = (.ok (some o), sh') ∧
          fileMatching lib m path = matching m o.linktype o.filterProgram o.rest) := by
  unfold openGroupFile fileMatching
  cases hfile : lib.fromFile path with
  | error err =>
      dsimp only
      rw [if_neg (by simp [hfd err hfile])]
      refine ⟨_, ?_, Or.inl ⟨rfl, rfl⟩⟩
      exact ⟨hidle.stopped, hidle.deadline, hidle.wrote, hidle.packets, hidle.truncated⟩
  | ok file =>
      dsimp only
      rw [← compileFilter_fst lib m file.linktype sh.bpfExprTracker]
      obtain ⟨program, tracker⟩ := compileFilter lib m file.linktype sh.bpfExprTracker
      cases program with
      | none =>
          refine ⟨_, ?_, Or.inl ⟨rfl, rfl⟩⟩
          exact ⟨hidle.stopped, hidle.deadline, hidle.wrote, hidle.packets, hidle.truncated⟩
      | some program =>
          refine ⟨_, ?_, Or.inr ⟨_, rfl, rfl⟩⟩
          exact ⟨hidle.stopped, hidle.deadline, hidle.wrote, hidle.packets, hidle.truncated⟩

theorem refillFiles_quiet (quiet : Quiet env limits) {files : List Path}
    (hfd : Openable lib files) {sh : Shared ω} (hidle : Idle sink before trace sh) :
    ∃ c sh', refillFiles env lib m files sh = (.ok c, sh') ∧ Idle sink before trace sh' ∧
      c.abs lib m = Cursor.fill [] ((files.map (fileMatching lib m)).filter (· ≠ [])) ∧
      c.files ⊆ files := by
  induction files generalizing sh with
  | nil =>
      obtain ⟨sh', hturn, hidle₁⟩ := refillTurn_quiet quiet hidle
      refine ⟨⟨[], none, none⟩, sh', ?_, hidle₁, rfl, List.Subset.refl _⟩
      unfold refillFiles
      rw [hturn]
  | cons path files ih =>
      have hfd' : Openable lib files := fun p hp => hfd p (List.mem_cons_of_mem _ hp)
      obtain ⟨sh₁, hturn, hidle₁⟩ := refillTurn_quiet quiet hidle
      unfold refillFiles
      rw [hturn]
      simp only [List.map_cons]
      obtain ⟨sh₂, hidle₂, ⟨hnil, hopen⟩ | ⟨o, hopen, hfile⟩⟩ :=
        openGroupFile_quiet (m := m) (hfd path List.mem_cons_self) hidle₁
      · -- the file is skipped
        rw [hopen]
        obtain ⟨c, sh₃, hrefill, hidle₃, habs, hsub⟩ := ih hfd' hidle₂
        refine ⟨c, sh₃, hrefill, hidle₃, ?_,
          List.Subset.trans hsub (by simp)⟩
        rw [habs, hnil]
        simp
      · rw [hopen]
        simp only
        obtain ⟨sh₃, hidle₃, ⟨hnil, hscan⟩ | ⟨p, o', hscan, hfound⟩⟩ :=
          scanOpen_quiet (m := m) quiet o o.rest hidle₂
        · -- the file holds no matching packet
          rw [hscan]
          obtain ⟨c, sh₄, hrefill, hidle₄, habs, hsub⟩ := ih hfd' hidle₃
          refine ⟨c, sh₄, hrefill, hidle₄, ?_,
            List.Subset.trans hsub (by simp)⟩
          rw [habs, hfile, hnil]
          simp
        · rw [hscan]
          refine ⟨_, sh₃, rfl, hidle₃, ?_, by simp⟩
          rw [hfile, hfound]
          simp [GroupCursor.abs, Cursor.fill]

/-- A refill moves the abstract cursor on to its next packet. -/
theorem GroupCursor.refill_quiet (quiet : Quiet env limits) {c : GroupCursor Path}
    (hfd : Openable lib c.files) {sh : Shared ω} (hidle : Idle sink before trace sh) :
    ∃ c' sh', c.refill env lib m sh = (.ok c', sh') ∧ Idle sink before trace sh' ∧
      c'.abs lib m = Cursor.fill (c.abs lib m).block (c.abs lib m).later ∧ c'.files ⊆ c.files := by
  unfold refill
  cases ho : c.opened with
  | none =>
      obtain ⟨c', sh', hrefill, hidle₁, habs, hsub⟩ := refillFiles_quiet (m := m) quiet hfd hidle
      refine ⟨c', sh', hrefill, hidle₁, ?_, hsub⟩
      rw [habs]
      simp [abs, ho]
  | some o =>
      simp only
      obtain ⟨sh₁, hidle₁, ⟨hnil, hscan⟩ | ⟨p, o', hscan, hfound⟩⟩ :=
        scanOpen_quiet (m := m) quiet o o.rest hidle
      · rw [hscan]
        obtain ⟨c', sh₂, hrefill, hidle₂, habs, hsub⟩ :=
          refillFiles_quiet (m := m) quiet hfd hidle₁
        refine ⟨c', sh₂, hrefill, hidle₂, ?_, hsub⟩
        rw [habs]
        simp [abs, ho, hnil]
      · rw [hscan]
        refine ⟨_, sh₁, rfl, hidle₁, ?_, List.Subset.refl _⟩
        simp [abs, ho, hfound, Cursor.fill]

/-! ## The merge loop refines the merge -/

/-- The heap's entry of a cursor that has a pending packet is popped when it is least. -/
theorem min?_eq_of_perm {a b : List (ℕ ×ₗ ℕ)} (h : a.Perm b) : a.min? = b.min? := by
  cases hb : b.min? with
  | none =>
      rw [List.min?_eq_none_iff] at hb ⊢
      exact (hb ▸ h).eq_nil
  | some k =>
      rw [List.min?_eq_some_iff] at hb ⊢
      exact ⟨h.mem_iff.mpr hb.1, fun j hj => hb.2 j (h.mem_iff.mp hj)⟩

/-- The merge state stands for the state `a` of the abstract merge. -/
structure Sim (lib : Libpcap Path) (m : Matcher) (sink : Sink ω) (before : List UInt8)
    (st : MergeState Path ω) (a : KWayMerge.State PendingPacket Linktype) : Prop where
  cursors : a.cursors = st.cursors.map (GroupCursor.abs lib m)
  tag : a.tag = st.outputLinktype
  out : a.out = st.written
  heap : st.heap.Perm (candidates PendingPacket.tsMicros a.cursors)
  idle : Idle sink before st.written st.shared
  openable : ∀ c ∈ st.cursors, Openable lib c.files

/-- Refilling cursor `i`, whose entry has left the heap, gives it its next packet. -/
theorem refillAndPush_sim (m : Matcher) (quiet : Quiet env limits) (st : MergeState Path ω) {i : ℕ}
    {c : GroupCursor Path} (d : GroupCursor Path) {p : PendingPacket} (hc : st.cursors[i]? = some c)
    (hp : c.pending = some p) (hfiles : d.files = c.files)
    (hheap : st.heap.Perm ((candidates PendingPacket.tsMicros
      (st.cursors.map (GroupCursor.abs lib m))).erase (toLex (p.tsMicros, i))))
    (hidle : Idle sink before st.written st.shared)
    (hopen : ∀ c ∈ st.cursors, Openable lib c.files) :
    ∃ st', refillAndPush env lib m i d st = (.next, st') ∧
      Sim lib m sink before st'
        ⟨(st.cursors.map (GroupCursor.abs lib m)).set i
          (Cursor.fill (d.abs lib m).block (d.abs lib m).later), st.outputLinktype, st.written⟩ := by
  have hfd : Openable lib d.files := hfiles ▸ hopen c (List.mem_of_getElem? hc)
  obtain ⟨d', sh', hrefill, hidle', habs, hsub⟩ := GroupCursor.refill_quiet (m := m) quiet hfd hidle
  unfold refillAndPush
  rw [hrefill]
  refine ⟨_, rfl, ?_⟩
  constructor
  · rw [← habs, List.map_set]
  · rfl
  · rfl
  · have hget : (st.cursors.map (GroupCursor.abs lib m))[i]? = some (c.abs lib m) := by simp [hc]
    have hset := candidates_set PendingPacket.tsMicros (d := d'.abs lib m) hget hp
    rw [← habs]
    refine List.Perm.trans ?_ hset.symm
    cases hpend : d'.pending with
    | none => simpa [GroupCursor.abs, hpend] using hheap
    | some q => simpa [GroupCursor.abs, hpend] using hheap
  · exact hidle'
  · intro e he
    rcases List.mem_or_eq_of_mem_set he with he | rfl
    · exact hopen e he
    · exact fun path hpath => hfd path (hsub hpath)

omit [ToString Path] in
/-- Without a cap a popped packet is written. -/
theorem writePending_quiet (quiet : Quiet env limits) (i : ℕ) (p : PendingPacket)
    {st : MergeState Path ω} (hidle : Idle sink before st.written st.shared) :
    ∃ sh', writePending limits i p st = (.next, { st with
        shared := sh'
        outputLinktype := st.outputLinktype.or (some p.linktype)
        written := st.written ++ [(i, p)] }) ∧
      Idle sink before (st.written ++ [(i, p)]) sh' := by
  obtain ⟨w, hwrite, hwrote⟩ := hidle.wrote.writePacket p.linktype ⟨p.header, p.data⟩
  have hcap : ¬ limits.maxBytes <
      saturatingAdd st.shared.stats.bytes (st.shared.writer.nextWriteSize p.data.length) := by
    rw [quiet.maxBytes]
    exact Nat.not_lt.mpr (saturatingAdd_le _ _)
  unfold writePending
  simp only [if_neg hcap, hwrite]
  refine ⟨_, rfl, hidle.stopped, hidle.deadline, ?_, ?_, hidle.truncated⟩
  · simpa [written] using hwrote
  · simp [hidle.packets]

/-- What the loop does with a popped packet is what the abstract merge does with a least head. -/
theorem handlePopped_sim (m : Matcher) (quiet : Quiet env limits) (st : MergeState Path ω) {i : ℕ}
    {c : GroupCursor Path} {p : PendingPacket} (hc : st.cursors[i]? = some c)
    (hp : c.pending = some p)
    (hheap : st.heap.Perm ((candidates PendingPacket.tsMicros
      (st.cursors.map (GroupCursor.abs lib m))).erase (toLex (p.tsMicros, i))))
    (hidle : Idle sink before st.written st.shared)
    (hopen : ∀ c ∈ st.cursors, Openable lib c.files) :
    ∃ st', handlePopped env lib m limits i st = (.next, st') ∧
      Sim lib m sink before st' (take PendingPacket.linktype
        ⟨st.cursors.map (GroupCursor.abs lib m), st.outputLinktype, st.written⟩ i (c.abs lib m) p) := by
  unfold handlePopped
  simp only [hc, hp]
  by_cases hskip : st.outputLinktype.any (· ≠ p.linktype)
  · -- a packet of another link type: it is dropped with the rest of its file
    rw [if_pos hskip]
    obtain ⟨t, ht, hne⟩ : ∃ t, st.outputLinktype = some t ∧ t ≠ p.linktype := by
      cases ht : st.outputLinktype with
      | none => simp [ht] at hskip
      | some t => exact ⟨t, rfl, by simpa [ht] using hskip⟩
    obtain ⟨st', hrefill, hsim⟩ := refillAndPush_sim m quiet st
      ({ c with pending := none }).skipCurrentFile hc hp rfl hheap hidle hopen
    refine ⟨st', hrefill, ?_⟩
    simpa [take, ht, Ne.symm hne, Cursor.skip, GroupCursor.abs, GroupCursor.skipCurrentFile]
      using hsim
  · rw [if_neg hskip]
    have htag : st.outputLinktype.or (some p.linktype) = some p.linktype := by
      cases ht : st.outputLinktype with
      | none => rfl
      | some t => simpa [ht] using hskip
    obtain ⟨sh', hwrite, hidle'⟩ := writePending_quiet quiet i p hidle
    rw [hwrite]
    obtain ⟨st', hrefill, hsim⟩ := refillAndPush_sim m quiet
      { st with
        shared := sh'
        outputLinktype := st.outputLinktype.or (some p.linktype)
        written := st.written ++ [(i, p)] }
      { c with pending := none } hc hp rfl hheap hidle' hopen
    refine ⟨st', hrefill, ?_⟩
    have htake : take PendingPacket.linktype
        ⟨st.cursors.map (GroupCursor.abs lib m), st.outputLinktype, st.written⟩ i (c.abs lib m) p =
        ⟨(st.cursors.map (GroupCursor.abs lib m)).set i (c.abs lib m).advance, some p.linktype,
          st.written ++ [(i, p)]⟩ := by
      cases ht : st.outputLinktype with
      | none => rfl
      | some t =>
          obtain rfl : t = p.linktype := by simpa [ht] using htag
          simp [take]
    rw [htake, ← htag]
    exact hsim

/-- One turn of the merge loop is one turn of the abstract merge. -/
theorem mergeTurn_sim (quiet : Quiet env limits) {st : MergeState Path ω}
    {a : KWayMerge.State PendingPacket Linktype} (sim : Sim lib m sink before st a) :
    (step PendingPacket.tsMicros PendingPacket.linktype a = none ∧
        mergeTurn env lib m limits st = (.break, st)) ∨
      ∃ st' a', step PendingPacket.tsMicros PendingPacket.linktype a = some a' ∧
        mergeTurn env lib m limits st = (.next, st') ∧ Sim lib m sink before st' a' := by
  have hmin := min?_eq_of_perm sim.heap
  cases hk : (candidates PendingPacket.tsMicros a.cursors).min? with
  | none =>
      left
      refine ⟨step_of_min?_none _ _ hk, ?_⟩
      simp [mergeTurn, heapPop, hmin.trans hk]
  | some k =>
      right
      obtain ⟨i, ac, p, hac, hp, rfl, hstep⟩ := step_of_min?_some _ PendingPacket.linktype hk
      rw [sim.cursors, List.getElem?_map, Option.map_eq_some_iff] at hac
      obtain ⟨c, hc, rfl⟩ := hac
      obtain ⟨sh₁, hturn, hidle₁⟩ := refillTurn_quiet quiet sim.idle
      have hpop : heapPop st.heap =
          some (toLex (p.tsMicros, i), st.heap.erase (toLex (p.tsMicros, i))) := by
        simp [heapPop, hmin.trans hk]
      obtain ⟨st', hpopped, hsim⟩ := handlePopped_sim m quiet
        { st with heap := st.heap.erase (toLex (p.tsMicros, i)), shared := sh₁ }
        hc hp (sim.cursors ▸ sim.heap.erase _) hidle₁ sim.openable
      refine ⟨st', _, hstep, ?_, ?_⟩
      · unfold mergeTurn
        simp only [hpop, hturn, ofLex_toLex]
        exact hpopped
      · have ha : a = ⟨st.cursors.map (GroupCursor.abs lib m), st.outputLinktype, st.written⟩ := by
          rw [← sim.cursors, ← sim.tag, ← sim.out]
        rw [ha]
        exact hsim

/-- Run to its end, the merge loop is left with no packet to come, in the state the abstract merge ends
in. -/
theorem mergeLoop_sim (quiet : Quiet env limits) {st : MergeState Path ω}
    {a : KWayMerge.State PendingPacket Linktype} (sim : Sim lib m sink before st a) :
    ∃ st', mergeLoop env lib m limits st = (none, st') ∧
      Sim lib m sink before st' (merge PendingPacket.tsMicros PendingPacket.linktype a) := by
  induction a using merge.induct PendingPacket.tsMicros PendingPacket.linktype
    generalizing st with
  | case1 a hnone =>
      rw [merge_of_step_none _ _ hnone]
      obtain ⟨-, hturn⟩ | ⟨st', a', hsome, -, -⟩ := mergeTurn_sim quiet sim
      · refine ⟨st, ?_, sim⟩
        rw [mergeLoop]
        split <;> simp_all
      · rw [hnone] at hsome
        cases hsome
  | case2 a a' hsome ih =>
      rw [merge_of_step_some _ _ hsome]
      obtain ⟨hnone, -⟩ | ⟨st', b, hb, hturn, sim'⟩ := mergeTurn_sim quiet sim
      · rw [hsome] at hnone
        cases hnone
      · obtain rfl : a' = b := by simpa [hsome] using hb
        obtain ⟨st'', hloop, sim''⟩ := ih sim'
        refine ⟨st'', ?_, sim''⟩
        rw [← hloop, mergeLoop]
        split <;> simp_all

/-! ## What is written -/

/-- The block queues of the groups: the matching packets of each file that has some. -/
def queues (lib : Libpcap Path) (m : Matcher) (groups : List (List Path)) :
    List (List (List PendingPacket)) :=
  groups.map fun files => (files.map (fileMatching lib m)).filter (· ≠ [])

omit [ToString Path] in
theorem items_queues (lib : Libpcap Path) (m : Matcher) (groups : List (List Path)) (i : ℕ) :
    items (queues lib m groups) i = groupMatching lib m (groups[i]?.getD []) := by
  unfold items queues groupMatching
  rw [List.getElem?_map]
  cases groups[i]? with
  | none => simp
  | some files =>
      rw [Option.map_some, Option.getD_some, Option.getD_some, List.flatMap_def]
      exact List.flatten_filter_ne_nil

omit [ToString Path] in
theorem homogeneous_queues (lib : Libpcap Path) (m : Matcher) (groups : List (List Path)) :
    ∀ q ∈ queues lib m groups, ∀ b ∈ q, Homogeneous PendingPacket.linktype b := by
  intro q hq b hb
  simp only [queues, List.mem_map] at hq
  obtain ⟨files, -, rfl⟩ := hq
  rw [List.mem_filter, List.mem_map] at hb
  obtain ⟨⟨path, -, rfl⟩, -⟩ := hb
  exact homogeneous_fileMatching lib m path

/-- Opening the cursors one after the other gives the start of the abstract merge. -/
theorem openCursors_sim (quiet : Quiet env limits) {groups before' : List (List Path)}
    {st : MergeState Path ω} (hopen : ∀ files ∈ groups, Openable lib files)
    (sim : Sim lib m sink before st (State.init (queues lib m before'))) :
    ∃ st', openCursors env lib m before'.length groups st = (.ok (), st') ∧
      Sim lib m sink before st' (State.init (queues lib m (before' ++ groups))) := by
  induction groups generalizing before' st with
  | nil =>
      rw [List.append_nil]
      exact ⟨st, rfl, sim⟩
  | cons files groups ih =>
      have hfiles : Openable lib files := hopen files List.mem_cons_self
      have hgroups : ∀ fs ∈ groups, Openable lib fs :=
        fun fs hfs => hopen fs (List.mem_cons_of_mem _ hfs)
      obtain ⟨c, sh', hrefill, hidle, habs, hsub⟩ :=
        GroupCursor.refill_quiet (c := .new files) (m := m) quiet hfiles sim.idle
      have hsnoc : State.init (queues lib m (before' ++ [files])) =
          (⟨(State.init (queues lib m before') : KWayMerge.State PendingPacket Linktype).cursors ++
            [c.abs lib m], none, []⟩ : KWayMerge.State PendingPacket Linktype) := by
        rw [habs]
        simp [State.init, queues, GroupCursor.new, GroupCursor.abs]
      unfold openCursors
      rw [hrefill]
      dsimp only
      rw [show before' ++ files :: groups = (before' ++ [files]) ++ groups by simp]
      rw [show before'.length + 1 = (before' ++ [files]).length by simp]
      refine ih hgroups ?_
      rw [hsnoc]
      constructor
      · dsimp only
        rw [sim.cursors, List.map_append, List.map_singleton]
      · exact sim.tag
      · exact sim.out
      · -- the new cursor's entry is numbered by the cursors before it
        have hlen : (State.init (queues lib m before') :
            KWayMerge.State PendingPacket Linktype).cursors.length = before'.length := by
          simp [State.init, queues]
        have hheap := sim.heap
        unfold candidates at hheap ⊢
        dsimp only
        rw [candidatesFrom_append, hlen, Nat.zero_add]
        refine List.Perm.trans ?_ List.perm_append_comm
        cases hpend : c.pending with
        | none => simpa [candidatesFrom, GroupCursor.abs, hpend] using hheap
        | some p => simpa [candidatesFrom, GroupCursor.abs, hpend] using hheap
      · exact hidle
      · intro e he
        rcases List.mem_append.mp he with he | he
        · exact sim.openable e he
        · obtain rfl : e = c := by simpa using he
          exact fun path hpath => hfiles path (hsub hpath)

/-- A fetch that nothing stops ends in the state the abstract merge ends in. -/
theorem fetchMerge_sim (quiet : Quiet env limits) (sink : Sink ω) (m : Matcher)
    {groups : List (List Path)} (hopen : ∀ files ∈ groups, Openable lib files) (out : ω) :
    ∃ st, fetchMerge env lib m limits groups out = ((finish m st.shared).mapError .error, st) ∧
      Sim lib m sink (sink.contents out) st
        (merge PendingPacket.tsMicros PendingPacket.linktype (State.init (queues lib m groups))) := by
  have hstart : Sim lib m sink (sink.contents out) (.start limits out)
      (State.init (queues lib m ([] : List (List Path)))) :=
    ⟨rfl, rfl, rfl, List.Perm.refl _, ⟨rfl, quiet.deadline, .new sink out, rfl, rfl⟩, by
      simp [MergeState.start]⟩
  obtain ⟨st, hopened, sim⟩ := openCursors_sim quiet hopen hstart
  obtain ⟨st', hloop, sim'⟩ := mergeLoop_sim quiet sim
  refine ⟨st', ?_, sim'⟩
  unfold fetchMerge
  rw [List.length_nil] at hopened
  simp only [hopened, hloop]

/-- What the fetch writes when nothing stops it. `trace` lists the packets written, each with the number
of its group: they are the capture put out; the part of each group is its matching packets of the first
written packet's link type, in order; and time-ordered groups give a time-ordered output. -/
theorem fetchMerge_written (quiet : Quiet env limits) (sink : Sink ω) (m : Matcher)
    {groups : List (List Path)} (hopen : ∀ files ∈ groups, Openable lib files) (out : ω) :
    ∃ result st, fetchMerge env lib m limits groups out = (result, st) ∧
      sink.contents st.shared.writer.out = sink.contents out ++ captureBytes (written st.written) ∧
      (∀ w ∈ st.written, w.1 < groups.length) ∧
      (∀ i, projection i st.written = (groupMatching lib m (groups[i]?.getD [])).filter
        (keep PendingPacket.linktype (st.written.head?.map fun w => w.2.linktype))) ∧
      ((∀ files ∈ groups, (groupMatching lib m files).Pairwise fun p q => p.tsMicros ≤ q.tsMicros) →
        st.written.Pairwise fun v w => toLex (v.2.tsMicros, v.1) ≤ toLex (w.2.tsMicros, w.1)) ∧
      (st.written ≠ [] → ∃ stats, result = .ok stats ∧ stats.packets = st.written.length ∧
        stats.truncated = false) := by
  obtain ⟨st, hfetch, sim⟩ := fetchMerge_sim quiet sink m hopen out
  have htag := homogeneous_queues lib m groups
  obtain ⟨inv, -⟩ := Inv.merge PendingPacket.tsMicros htag
  refine ⟨_, st, hfetch, sim.idle.wrote.contents, ?_, ?_, ?_, ?_⟩
  · intro w hw
    rw [← sim.out] at hw
    simpa [queues] using inv.index w hw
  · intro i
    have hproj := projection_merge PendingPacket.tsMicros htag i
    rwa [sim.out, items_queues] at hproj
  · intro hsorted
    have hpairwise := pairwise_merge PendingPacket.tsMicros htag (fun i => ?_)
    · rwa [sim.out] at hpairwise
    · rw [items_queues]
      cases hi : groups[i]? with
      | none => exact List.Pairwise.nil
      | some files => exact hsorted files (List.mem_of_getElem? hi)
  · intro hne
    have hpackets : st.shared.stats.packets ≠ 0 := by
      rw [sim.idle.packets]
      exact fun h => hne (List.eq_nil_of_length_eq_zero h)
    refine ⟨st.shared.stats, ?_, sim.idle.packets, sim.idle.truncated⟩
    unfold finish
    rw [sim.idle.stopped]
    dsimp only
    rw [if_neg (fun h => hpackets h.1)]
    rfl

omit [ToString Path] [Write ω] in
/-- Groups without a matching packet give an empty merge. -/
theorem merge_queues_eq_nil {lib : Libpcap Path} {m : Matcher} {groups : List (List Path)}
    (h : ∀ i : ℕ, groupMatching lib m (groups[i]?.getD []) = []) :
    (merge PendingPacket.tsMicros PendingPacket.linktype
      (State.init (queues lib m groups))).out = [] := by
  rw [List.eq_nil_iff_forall_not_mem]
  intro w hw
  have hproj := projection_merge PendingPacket.tsMicros (homogeneous_queues lib m groups) w.1
  rw [items_queues, h, List.filter_nil, projection, List.map_eq_nil_iff,
    List.filter_eq_nil_iff] at hproj
  exact hproj w hw (by simp)

/-- What a fetch that nothing stops writes depends on the groups' matching packets only. -/
theorem fetch_written (quiet : Quiet env limits) (sink : Sink ω) {request : PcapRequest}
    (hlimits : request.limits = limits) {groups : List (List Path)}
    (hopen : ∀ files ∈ groups, Openable lib files) (out : ω) :
    (fetch env lib (.ok groups) request out).2.written =
      match flowExpressions lib request with
      | .error _ => []
      | .ok flow => (merge PendingPacket.tsMicros PendingPacket.linktype
          (State.init (queues lib (request.matcher flow) groups))).out := by
  unfold fetch
  cases flowExpressions lib request with
  | error err => rfl
  | ok flow =>
      dsimp only
      by_cases hempty : groups.all (·.isEmpty) = true
      · rw [if_pos hempty, merge_queues_eq_nil]
        · rfl
        · intro i
          cases hi : groups[i]? with
          | none => rfl
          | some files =>
              have hfiles := List.all_eq_true.mp hempty files (List.mem_of_getElem? hi)
              rw [List.isEmpty_iff] at hfiles
              rw [Option.getD_some, hfiles]
              rfl
      · rw [if_neg hempty, hlimits]
        obtain ⟨st, hfetch, sim⟩ := fetchMerge_sim quiet sink (request.matcher flow) hopen out
        rw [hfetch, sim.out]

end

/-- A network that never stops a fetch. -/
def Env.quiet : Env := ⟨fun _ => false, fun _ => 0, fun _ => false⟩

/-- Three one-packet captures, at seconds 1, 2 and 3; the second has another link type. -/
def threeCaptures : Libpcap ℕ where
  fromFile n := .ok ⟨if n = 1 then ⟨101⟩ else .ethernet, [⟨⟨n + 1, 0, 1, 1⟩, [0]⟩]⟩
  compile _ _ := .ok fun _ _ => true

/-- Two groups over the three captures: what is written is time-ordered. -/
theorem fetchMerge_written_threeCaptures :
    ∃ result st, fetchMerge .quiet threeCaptures ⟨none, none, false, 0, u64Max⟩ .default
        [[1, 2], [0]] ([] : List UInt8) = (result, st) ∧
      st.written.Pairwise fun v w => toLex (v.2.tsMicros, v.1) ≤ toLex (w.2.tsMicros, w.1) := by
  have hopen : ∀ files ∈ ([[1, 2], [0]] : List (List ℕ)), Openable threeCaptures files := by
    intro files _ path _ err h
    cases h
  have quiet : Quiet .quiet .default := ⟨rfl, rfl, fun _ => rfl⟩
  obtain ⟨result, st, h, -, -, -, hsorted, -⟩ := fetchMerge_written quiet Sink.vec _ hopen []
  exact ⟨result, st, h, hsorted (by decide)⟩

end EveBox.Pcap
