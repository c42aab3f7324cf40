import EveBox.Pcap.FetchTheorems
import EveBox.Pcap.Outcome
import Mathlib.Algebra.Order.BigOperators.Group.List
import Mathlib.Algebra.Order.Group.Nat
import Mathlib.Data.List.Perm.Subperm

/-!
# The accounts of the fetch

Reference: `src/pcap/fetch.rs` and `src/pcap/writer.rs`.

However a fetch is stopped, its counters say what it wrote, and its outcome says why it ended:
`fetch_accounting`. Two accounts are kept over the merge loop. The `Ledger` is about what has been
written, the `Stock` about the packets and the files still to come.
-/

namespace EveBox.Pcap

open Rust

/-! ## What is counted -/

/-- The length of a packet's record: its header and the captured data. -/
def PendingPacket.recordSize (p : PendingPacket) : ℕ := pcapRecordHeaderSize + p.data.length

/-- The length of the stream of the written packets: no header before the first of them. -/
def streamLength (trace : List (ℕ × PendingPacket)) : ℕ :=
  if trace.isEmpty then 0 else fileHeaderLen + (trace.map fun w => w.2.recordSize).sum

theorem captureBytes_written_length (trace : List (ℕ × PendingPacket)) :
    (captureBytes (written trace)).length = streamLength trace := by
  have hrecord : ∀ p : PendingPacket, (packetRecord ⟨p.header, p.data⟩).length = p.recordSize :=
    fun p => createRecordRaw_length _ _ _ _
  have hrecords : ∀ trace : List (ℕ × PendingPacket),
      ((written trace).flatMap fun p => packetRecord p.2).length =
        (trace.map fun w => w.2.recordSize).sum := by
    intro trace
    induction trace with
    | nil => rfl
    | cons w trace ih =>
        simp only [written, List.map_cons, List.flatMap_cons, List.length_append, List.sum_cons] at ih ⊢
        rw [ih, hrecord]
  cases trace with
  | nil => rfl
  | cons w trace =>
      show (createHeader _ ++ (written (w :: trace)).flatMap fun p => packetRecord p.2).length = _
      rw [List.length_append, createHeader_length, hrecords]
      rfl

theorem streamLength_append_singleton (trace : List (ℕ × PendingPacket)) (w : ℕ × PendingPacket) :
    streamLength (trace ++ [w]) =
      streamLength trace + w.2.recordSize + if trace.isEmpty then fileHeaderLen else 0 := by
  unfold streamLength
  rw [List.map_append, List.sum_append, List.map_singleton, List.sum_singleton]
  match trace with
  | [] =>
      show fileHeaderLen + (0 + w.2.recordSize) = 0 + w.2.recordSize + fileHeaderLen
      omega
  | v :: trace =>
      show fileHeaderLen + (_ + w.2.recordSize) = fileHeaderLen + _ + w.2.recordSize + 0
      omega

section

variable {Path : Type*}

/-- Whether a candidate file can be opened. -/
def opens (lib : Libpcap Path) (path : Path) : Bool := (lib.fromFile path).isOk

/-- What compiling the request's expression for a file says: nothing for a file that cannot be opened, or
where there is no expression. -/
def expressionCompiles (lib : Libpcap Path) (m : Matcher) (path : Path) : Option Bool :=
  match m.expression, lib.fromFile path with
  | some expression, .ok file => some (lib.compile file.linktype expression).isOk
  | _, _ => none

/-- The matching packets an open capture has still to yield. -/
def OpenCapture.matching (m : Matcher) (c : OpenCapture Path) : List PendingPacket :=
  Pcap.matching m c.linktype c.filterProgram c.rest

/-- The matching packets of a cursor: the pending one, those of its open capture, those of its files. -/
def GroupCursor.toCome (lib : Libpcap Path) (m : Matcher) (c : GroupCursor Path) : List PendingPacket :=
  c.pending.toList ++ ((c.opened.map (OpenCapture.matching m)).getD [] ++ groupMatching lib m c.files)

/-- The matching packets behind the end of a scan. -/
def Scan.toCome (m : Matcher) : Scan Path → List PendingPacket
  | .found pending c => pending :: c.matching m
  | .ended => []
  | .stopped c => c.matching m

end

/-! ## What a scan leaves alone -/

section

variable {Path ω : Type*} [ToString Path] [Write ω]

/-- Between `sh` and `sh'` the files `paths` have been tried, and nothing has been written. -/
structure Scanned (o : Output ω) (lib : Libpcap Path) (m : Matcher) (paths : List Path)
    (sh sh' : Shared ω) : Prop where
  stopped : sh.ctl.stopped.isSome = true → sh'.ctl.stopped = sh.ctl.stopped
  output : o.intact sh'.writer.out →
    o.intact sh.writer.out ∧ o.contents sh'.writer.out = o.contents sh.writer.out
  writerBytes : sh'.writer.bytes = sh.writer.bytes
  headerWritten : sh'.writer.headerWritten = sh.writer.headerWritten
  bytes : sh'.stats.bytes = sh.stats.bytes
  packets : sh'.stats.packets = sh.stats.packets
  truncated : sh'.stats.truncated = sh.stats.truncated
  filesScanned : sh'.stats.filesScanned = sh.stats.filesScanned + paths.countP (opens lib)
  compiledAny : sh'.bpfExprTracker.compiledAny =
    (sh.bpfExprTracker.compiledAny || paths.any (expressionCompiles lib m · = some true))
  firstError : sh'.bpfExprTracker.firstError.isSome =
    (sh.bpfExprTracker.firstError.isSome || paths.any (expressionCompiles lib m · = some false))

variable {o : Output ω} {lib : Libpcap Path} {m : Matcher} {env : Env} {sh sh' sh'' : Shared ω}

omit [ToString Path] in
theorem Scanned.refl (o : Output ω) (lib : Libpcap Path) (m : Matcher) (sh : Shared ω) :
    Scanned o lib m [] sh sh where
  stopped _ := rfl
  output h := ⟨h, rfl⟩
  writerBytes := rfl
  headerWritten := rfl
  bytes := rfl
  packets := rfl
  truncated := rfl
  filesScanned := rfl
  compiledAny := (Bool.or_false _).symm
  firstError := (Bool.or_false _).symm

omit [ToString Path] in
theorem Scanned.trans {paths paths' : List Path} (h : Scanned o lib m paths sh sh')
    (h' : Scanned o lib m paths' sh' sh'') : Scanned o lib m (paths ++ paths') sh sh'' where
  stopped hs := by
    have hs' := h.stopped hs
    rw [← hs']
    exact h'.stopped (hs' ▸ hs)
  output hi := by
    obtain ⟨hi', hc'⟩ := h'.output hi
    obtain ⟨hi'', hc⟩ := h.output hi'
    exact ⟨hi'', hc'.trans hc⟩
  writerBytes := h'.writerBytes.trans h.writerBytes
  headerWritten := h'.headerWritten.trans h.headerWritten
  bytes := h'.bytes.trans h.bytes
  packets := h'.packets.trans h.packets
  truncated := h'.truncated.trans h.truncated
  filesScanned := by rw [h'.filesScanned, h.filesScanned, List.countP_append, Nat.add_assoc]
  compiledAny := by rw [h'.compiledAny, h.compiledAny, List.any_append, Bool.or_assoc]
  firstError := by rw [h'.firstError, h.firstError, List.any_append, Bool.or_assoc]

omit [ToString Path] in
theorem Scanned.live (lib : Libpcap Path) (m : Matcher) (hlive : sh.ctl.live env = (b, ctl)) :
    Scanned o lib m [] sh { sh with ctl := ctl } ∧ ctl.stopped.isSome = !b := by
  have hsame : (sh.ctl.stopped.isSome = true → ctl.stopped = sh.ctl.stopped) →
      Scanned o lib m [] sh { sh with ctl := ctl } := fun h => { Scanned.refl o lib m sh with stopped := h }
  unfold Control.live at hlive
  split at hlive
  · rename_i hstopped
    obtain ⟨rfl, rfl⟩ := Prod.mk.inj hlive
    exact ⟨hsame fun _ => rfl, hstopped⟩
  · rename_i hstopped
    have hgoing : sh.ctl.stopped.isSome = false := Bool.eq_false_iff.mpr hstopped
    split at hlive
    · obtain ⟨rfl, rfl⟩ := Prod.mk.inj hlive
      exact ⟨hsame fun h => absurd h hstopped, rfl⟩
    · split at hlive
      · split at hlive
        · obtain ⟨rfl, rfl⟩ := Prod.mk.inj hlive
          exact ⟨hsame fun h => absurd h hstopped, rfl⟩
        · obtain ⟨rfl, rfl⟩ := Prod.mk.inj hlive
          exact ⟨hsame fun _ => rfl, hgoing⟩
      · obtain ⟨rfl, rfl⟩ := Prod.mk.inj hlive
        exact ⟨hsame fun _ => rfl, hgoing⟩

omit [ToString Path] in
theorem Scanned.maybeFlush (lib : Libpcap Path) (m : Matcher) (hflush : maybeFlush env sh = (.ok (), sh')) :
    Scanned o lib m [] sh sh' ∧ sh'.ctl = sh.ctl := by
  unfold Pcap.maybeFlush at hflush
  split at hflush
  · split at hflush
    rename_i r writer hwriter
    obtain ⟨rfl, rfl⟩ := Prod.mk.inj hflush
    unfold PcapWriter.flush at hwriter
    split at hwriter
    rename_i r' out hout
    obtain ⟨rfl, rfl⟩ := Prod.mk.inj hwriter
    exact ⟨{ Scanned.refl o lib m sh with output := o.flush _ _ hout }, rfl⟩
  · obtain ⟨-, rfl⟩ := Prod.mk.inj hflush
    exact ⟨{ Scanned.refl o lib m sh with }, rfl⟩

omit [ToString Path] in
/-- A turn is taken exactly when the fetch has not been stopped. -/
theorem Scanned.refillTurn (lib : Libpcap Path) (m : Matcher) {b : Bool} (hturn : refillTurn env sh = (.ok b, sh')) :
    Scanned o lib m [] sh sh' ∧ sh'.ctl.stopped.isSome = !b := by
  unfold Pcap.refillTurn at hturn
  split at hturn
  · rename_i ctl hlive
    cases hturn
    exact Scanned.live lib m hlive
  · rename_i ctl hlive
    split at hturn
    · cases hturn
    · rename_i sh₁ hflush
      cases hturn
      obtain ⟨hlived, hgoing⟩ := Scanned.live (o := o) lib m hlive
      obtain ⟨hflushed, hctl⟩ := Scanned.maybeFlush (o := o) lib m hflush
      exact ⟨hlived.trans hflushed, by rw [hctl, hgoing]⟩

/-! ## What a refill finds -/

omit [ToString Path] [Write ω] in
/-- Compiling the filter for a file tells the tracker what the expression's compilation says. -/
theorem compileFilter_tracker {path : Path} {file : CaptureFile} (hfile : lib.fromFile path = .ok file)
    (tracker : BpfExprTracker) :
    (compileFilter lib m file.linktype tracker).2.compiledAny =
        (tracker.compiledAny || [path].any (expressionCompiles lib m · = some true)) ∧
      (compileFilter lib m file.linktype tracker).2.firstError.isSome =
        (tracker.firstError.isSome || [path].any (expressionCompiles lib m · = some false)) := by
  unfold compileFilter
  rw [List.any_cons, List.any_nil, List.any_cons, List.any_nil, expressionCompiles, hfile]
  split
  · rename_i expression hexpression
    rw [hexpression]
    split
    · rename_i program hcompile
      simp [hcompile, BpfExprTracker.compiled, Except.isOk, Except.toBool]
    · rename_i err hcompile
      obtain ⟨compiledAny, firstError⟩ := tracker
      match firstError with
      | none => simp [BpfExprTracker.failed, hcompile, Except.isOk, Except.toBool]
      | some first => simp [BpfExprTracker.failed, hcompile, Except.isOk, Except.toBool]
  · rename_i hexpression
    rw [hexpression]
    split
    · split
      · simp
      · split <;> simp
    · simp

/-- Trying a file counts it, and leaves its matching packets in the capture that is opened. -/
theorem Scanned.openGroupFile {path : Path} {r : Option (OpenCapture Path)}
    (hopen : openGroupFile lib m path sh = (.ok r, sh')) :
    Scanned o lib m [path] sh sh' ∧ (r.map (OpenCapture.matching m)).getD [] = fileMatching lib m path := by
  unfold Pcap.openGroupFile at hopen
  unfold fileMatching
  rcases hfile : lib.fromFile path with err | file
  · rw [hfile] at hopen
    dsimp only at hopen
    split at hopen
    · cases hopen
    · cases hopen
      refine ⟨{ Scanned.refl o lib m sh with filesScanned := ?_, compiledAny := ?_, firstError := ?_ }, rfl⟩
      · simp [opens, hfile, Except.isOk, Except.toBool]
      · simp [expressionCompiles, hfile]
      · simp [expressionCompiles, hfile]
  · rw [hfile] at hopen
    dsimp only at hopen ⊢
    have hscanned : sh.stats.filesScanned + 1 = sh.stats.filesScanned + [path].countP (opens lib) := by
      simp [opens, hfile, Except.isOk, Except.toBool]
    rw [← compileFilter_fst lib m file.linktype sh.bpfExprTracker]
    obtain ⟨hcompiled, hfirst⟩ := compileFilter_tracker (m := m) hfile sh.bpfExprTracker
    split at hopen
    · rename_i tracker hcompile
      cases hopen
      rw [hcompile] at hcompiled hfirst ⊢
      exact ⟨{ Scanned.refl o lib m sh with
        filesScanned := hscanned, compiledAny := hcompiled, firstError := hfirst }, rfl⟩
    · rename_i program tracker hcompile
      cases hopen
      rw [hcompile] at hcompiled hfirst ⊢
      exact ⟨{ Scanned.refl o lib m sh with
        filesScanned := hscanned, compiledAny := hcompiled, firstError := hfirst }, rfl⟩

omit [ToString Path] in
/-- A scan that returns has passed over records that do not match. -/
theorem Scanned.scanOpen (lib : Libpcap Path) {c : OpenCapture Path} {rest : List Packet} {r : Scan Path}
    (hscan : scanOpen env m c rest sh = (.ok r, sh')) :
    Scanned o lib m [] sh sh' ∧ r.toCome m = Pcap.matching m c.linktype c.filterProgram rest ∧
      ∀ c', r = .stopped c' → sh'.ctl.stopped.isSome = true := by
  induction rest generalizing sh with
  | nil =>
      unfold Pcap.scanOpen at hscan
      split at hscan
      · cases hscan
      · rename_i hturn
        cases hscan
        obtain ⟨hscanned, hstopped⟩ := Scanned.refillTurn lib m hturn
        exact ⟨hscanned, rfl, fun _ _ => hstopped⟩
      · rename_i hturn
        cases hscan
        exact ⟨(Scanned.refillTurn lib m hturn).1, rfl, nofun⟩
  | cons pkt rest ih =>
      unfold Pcap.scanOpen at hscan
      split at hscan
      · cases hscan
      · rename_i hturn
        cases hscan
        obtain ⟨hscanned, hstopped⟩ := Scanned.refillTurn lib m hturn
        exact ⟨hscanned, rfl, fun _ _ => hstopped⟩
      · rename_i hturn
        have hscanned := (Scanned.refillTurn (o := o) lib m hturn).1
        rw [matching_cons]
        dsimp only at hscan
        split at hscan
        · rename_i haccepts
          cases hscan
          rw [if_pos haccepts]
          exact ⟨hscanned, rfl, nofun⟩
        · rename_i haccepts
          obtain ⟨hscanned', htoCome, hstopped⟩ := ih hscan
          rw [if_neg haccepts]
          exact ⟨hscanned.trans hscanned', htoCome, hstopped⟩

/-- What a refill leaves of a cursor that had the files `files` and the matching packets `packets` before it:
the packets are still there, and the cursor is without a pending packet only if it has come to its end or the
fetch has been stopped. -/
structure Refilled (o : Output ω) (lib : Libpcap Path) (m : Matcher) (files : List Path)
    (packets : List PendingPacket) (c : GroupCursor Path) (sh sh' : Shared ω) : Prop where
  tried : ∃ paths, files = paths ++ c.files ∧ Scanned o lib m paths sh sh'
  toCome : c.toCome lib m = packets
  drained : c.pending = none → sh'.ctl.stopped.isSome = true ∨ c.toCome lib m = [] ∧ c.files = []

omit [ToString Path] in
theorem Refilled.after {files : List Path} {paths : List Path} {packets : List PendingPacket}
    {c : GroupCursor Path} (hscanned : Scanned o lib m paths sh sh')
    (h : Refilled o lib m files packets c sh' sh'') :
    Refilled o lib m (paths ++ files) packets c sh sh'' := by
  obtain ⟨paths', hfiles, hscanned'⟩ := h.tried
  exact ⟨⟨paths ++ paths', by rw [hfiles, List.append_assoc], hscanned.trans hscanned'⟩, h.toCome, h.drained⟩

theorem Refilled.refillFiles {files : List Path} {c : GroupCursor Path}
    (hrefill : refillFiles env lib m files sh = (.ok c, sh')) :
    Refilled o lib m files (groupMatching lib m files) c sh sh' := by
  induction files generalizing sh with
  | nil =>
      unfold Pcap.refillFiles at hrefill
      split at hrefill
      · cases hrefill
      · rename_i hturn
        cases hrefill
        exact ⟨⟨[], rfl, (Scanned.refillTurn lib m hturn).1⟩, rfl, fun _ => Or.inr ⟨rfl, rfl⟩⟩
      · rename_i hturn
        cases hrefill
        exact ⟨⟨[], rfl, (Scanned.refillTurn lib m hturn).1⟩, rfl, fun _ => Or.inr ⟨rfl, rfl⟩⟩
  | cons path files ih =>
      unfold Pcap.refillFiles at hrefill
      split at hrefill
      · cases hrefill
      · rename_i hturn
        cases hrefill
        obtain ⟨hscanned, hstopped⟩ := Scanned.refillTurn (o := o) lib m hturn
        exact ⟨⟨[], rfl, hscanned⟩, rfl, fun _ => Or.inl hstopped⟩
      · rename_i hturn
        have hscanned := (Scanned.refillTurn (o := o) lib m hturn).1
        dsimp only at hrefill
        have hgroup : groupMatching lib m (path :: files) =
            fileMatching lib m path ++ groupMatching lib m files := List.flatMap_cons
        split at hrefill
        · cases hrefill
        · rename_i hopen
          obtain ⟨hopened, hmatching⟩ := Scanned.openGroupFile (o := o) hopen
          have hskip : fileMatching lib m path = [] := hmatching.symm
          rw [hgroup, hskip]
          exact Refilled.after (hscanned.trans hopened) (ih hrefill)
        · rename_i c' sh₂ hopen
          obtain ⟨hopened, hmatching⟩ := Scanned.openGroupFile (o := o) hopen
          have hfile : c'.matching m = fileMatching lib m path := hmatching
          split at hrefill
          · cases hrefill
          · rename_i hscan
            obtain ⟨hscanned', htoCome, -⟩ := Scanned.scanOpen (o := o) lib hscan
            have hnone : fileMatching lib m path = [] := hfile.symm.trans htoCome.symm
            rw [hgroup, hnone]
            exact Refilled.after ((hscanned.trans hopened).trans hscanned') (ih hrefill)
          · rename_i hscan
            cases hrefill
            obtain ⟨hscanned', htoCome, -⟩ := Scanned.scanOpen (o := o) lib hscan
            refine ⟨⟨[path], rfl, (hscanned.trans hopened).trans hscanned'⟩, ?_, by rintro ⟨⟩⟩
            rw [hgroup, ← hfile, OpenCapture.matching, ← htoCome]
            rfl
          · rename_i hscan
            cases hrefill
            obtain ⟨hscanned', htoCome, hstopped⟩ := Scanned.scanOpen (o := o) lib hscan
            refine ⟨⟨[path], rfl, (hscanned.trans hopened).trans hscanned'⟩, ?_,
              fun _ => Or.inl (hstopped _ rfl)⟩
            rw [hgroup, ← hfile, OpenCapture.matching, ← htoCome]
            rfl

/-- A refill keeps what is to come of a cursor whose pending packet has been taken. -/
theorem GroupCursor.refill_refilled {c c' : GroupCursor Path} (hpending : c.pending = none)
    (hrefill : c.refill env lib m sh = (.ok c', sh')) :
    Refilled o lib m c.files (c.toCome lib m) c' sh sh' := by
  unfold refill at hrefill
  unfold toCome
  rw [hpending]
  split at hrefill
  · rename_i hopened
    rw [hopened]
    exact Refilled.refillFiles hrefill
  · rename_i c₀ hopened
    rw [hopened]
    dsimp only [Option.map_some, Option.getD_some, Option.toList_none, List.nil_append]
    split at hrefill
    · cases hrefill
    · rename_i hscan
      obtain ⟨hscanned, htoCome, -⟩ := Scanned.scanOpen (o := o) lib hscan
      have hnone : c₀.matching m = [] := htoCome.symm
      rw [hnone]
      exact Refilled.after hscanned (Refilled.refillFiles hrefill)
    · rename_i hscan
      cases hrefill
      obtain ⟨hscanned, htoCome, -⟩ := Scanned.scanOpen (o := o) lib hscan
      refine ⟨⟨[], rfl, hscanned⟩, ?_, nofun⟩
      rw [OpenCapture.matching, ← htoCome]
      rfl
    · rename_i hscan
      cases hrefill
      obtain ⟨hscanned, htoCome, hstopped⟩ := Scanned.scanOpen (o := o) lib hscan
      refine ⟨⟨[], rfl, hscanned⟩, ?_, fun _ => Or.inl (hstopped _ rfl)⟩
      rw [OpenCapture.matching, ← htoCome]
      rfl

/-! ## The ledger -/

/-- What has been written, in the order of `trace`, against the counters. -/
structure Ledger (o : Output ω) (limits : Limits) (before : List UInt8) (trace : List (ℕ × PendingPacket))
    (linktype : Option Linktype) (sh : Shared ω) : Prop where
  output : o.intact sh.writer.out → o.contents sh.writer.out = before ++ captureBytes (written trace)
  writerBytes : sh.writer.bytes = streamLength trace
  headerWritten : sh.writer.headerWritten = !trace.isEmpty
  bytes : sh.stats.bytes = streamLength trace
  packets : sh.stats.packets = trace.length
  linktype : linktype = trace.head?.map fun w => w.2.linktype
  cap : limits.maxBytes < u64Max → streamLength trace ≤ limits.maxBytes

variable {limits : Limits} {before : List UInt8} {trace : List (ℕ × PendingPacket)}
  {linktype : Option Linktype}

omit [ToString Path] in
theorem Ledger.scanned {paths : List Path} (h : Ledger o limits before trace linktype sh)
    (hscanned : Scanned o lib m paths sh sh') : Ledger o limits before trace linktype sh' where
  output hintact := by
    obtain ⟨hintact', hcontents⟩ := hscanned.output hintact
    exact hcontents.trans (h.output hintact')
  writerBytes := hscanned.writerBytes.trans h.writerBytes
  headerWritten := hscanned.headerWritten.trans h.headerWritten
  bytes := hscanned.bytes.trans h.bytes
  packets := hscanned.packets.trans h.packets
  linktype := h.linktype
  cap := h.cap

omit [ToString Path] in
/-- The size the writer announces is what the next packet adds to the stream. -/
theorem Ledger.nextWriteSize (h : Ledger o limits before trace linktype sh) (i : ℕ) (p : PendingPacket) :
    streamLength trace + sh.writer.nextWriteSize p.data.length = streamLength (trace ++ [(i, p)]) := by
  rw [streamLength_append_singleton, PcapWriter.nextWriteSize, h.headerWritten, PendingPacket.recordSize]
  cases trace with
  | nil => exact (Nat.add_assoc _ _ _).symm
  | cons v trace => rfl

omit [ToString Path] in
theorem writePacket_output {w w' : PcapWriter ω} {p : PendingPacket}
    (hwrite : w.writePacket p.linktype ⟨p.header, p.data⟩ = (.ok (), w')) (hintact : o.intact w'.out) :
    o.intact w.out ∧ o.contents w'.out = o.contents w.out ++
      ((if w.headerWritten then [] else createHeader (asU32 p.linktype.dlt)) ++ packetRecord ⟨p.header, p.data⟩) := by
  unfold PcapWriter.writePacket at hwrite
  split at hwrite
  · cases hwrite
  · rename_i w₁ hheader
    dsimp only at hwrite
    split at hwrite
    · cases hwrite
    · rename_i out hrecord
      cases hwrite
      obtain ⟨hintact₁, hcontents⟩ := o.writeAll _ _ _ hrecord hintact
      unfold PcapWriter.writeHeader at hheader
      split at hheader
      · rename_i hw
        cases hheader
        rw [if_pos hw]
        exact ⟨hintact₁, hcontents⟩
      · rename_i hw
        dsimp only at hheader
        split at hheader
        · cases hheader
        · rename_i out₀ hwrite₀
          cases hheader
          obtain ⟨hintact₀, hcontents₀⟩ := o.writeAll _ _ _ hwrite₀ hintact₁
          rw [if_neg hw]
          refine ⟨hintact₀, hcontents.trans ?_⟩
          dsimp only
          rw [hcontents₀, List.append_assoc]
          rfl

omit [ToString Path] in
theorem captureBytes_written_append (trace : List (ℕ × PendingPacket)) (i : ℕ) (p : PendingPacket) :
    captureBytes (written (trace ++ [(i, p)])) = captureBytes (written trace) ++
      ((if !trace.isEmpty then [] else createHeader (asU32 p.linktype.dlt)) ++
        packetRecord ⟨p.header, p.data⟩) := by
  have hwritten : written (trace ++ [(i, p)]) = written trace ++ [(p.linktype, ⟨p.header, p.data⟩)] := by
    rw [written, List.map_append, List.map_singleton, written]
  rw [hwritten]
  by_cases htrace : trace = []
  · have hnil : captureBytes (written []) = [] := rfl
    rw [htrace, hnil, if_neg (by simp), List.nil_append, written, List.map_nil, List.nil_append,
      captureBytes_singleton]
  · have hne : written trace ≠ [] := by simpa [written] using htrace
    rw [captureBytes_append_singleton hne, if_pos (by simpa using htrace), List.nil_append]

omit [ToString Path] in
/-- A failing write is the output's failure. -/
theorem writePacket_error {w w' : PcapWriter ω} {linktype : Linktype} {pkt : Packet} {e : IoError}
    (hwrite : w.writePacket linktype pkt = (.error e, w')) : OutputFails ω := by
  unfold PcapWriter.writePacket at hwrite
  split at hwrite
  · rename_i e' w₁ hheader
    unfold PcapWriter.writeHeader at hheader
    split at hheader
    · cases hheader
    · dsimp only at hheader
      split at hheader
      · rename_i e'' out hcall
        exact ⟨w.out, e'', Or.inl ⟨_, congrArg Prod.fst hcall⟩⟩
      · cases hheader
  · rename_i w₁ hheader
    dsimp only at hwrite
    split at hwrite
    · rename_i e' out hcall
      exact ⟨w₁.out, e', Or.inl ⟨_, congrArg Prod.fst hcall⟩⟩
    · cases hwrite

omit [ToString Path] in
/-- The write of a popped packet: the packet is entered into the ledger, the output fails, or the record would
pass the cap. -/
theorem Ledger.writePending {i : ℕ} {p : PendingPacket} {st st' : MergeState Path ω} {turn : Turn}
    (h : Ledger o limits before st.written st.outputLinktype st.shared)
    (hlinktype : ∀ t ∈ st.outputLinktype, t = p.linktype)
    (hwrite : writePending limits i p st = (turn, st')) :
    (turn = .next ∧ (∃ w, st' = { st with
        shared := { st.shared with
          writer := w
          stats := { st.shared.stats with bytes := w.bytes, packets := st.shared.stats.packets + 1 } }
        outputLinktype := some p.linktype
        written := st.written ++ [(i, p)] }) ∧
      Ledger o limits before st'.written st'.outputLinktype st'.shared) ∨
    ((∃ e, turn = .fault (.error (.io e))) ∧ OutputFails ω ∧ st'.written = st.written) ∨
    (turn = .return { st.shared.stats with truncated := true } ∧
      limits.maxBytes < streamLength (st.written ++ [(i, p)]) ∧
      st' = { st with shared := { st.shared with stats := { st.shared.stats with truncated := true } } }) := by
  unfold Pcap.writePending at hwrite
  dsimp only at hwrite
  have hsize := h.nextWriteSize i p
  split at hwrite
  · rename_i hcap
    cases hwrite
    refine Or.inr (Or.inr ⟨rfl, ?_, rfl⟩)
    rw [← hsize, ← h.bytes]
    exact Nat.lt_of_lt_of_le hcap (Nat.min_le_left _ _)
  · rename_i hcap
    split at hwrite
    · rename_i e w hpacket
      cases hwrite
      exact Or.inr (Or.inl ⟨⟨e, rfl⟩, writePacket_error hpacket, rfl⟩)
    · rename_i w hpacket
      cases hwrite
      obtain ⟨hbytes, hheader⟩ := PcapWriter.writePacket_ok hpacket
      have hlength : w.bytes = streamLength (st.written ++ [(i, p)]) := by
        rw [hbytes, h.writerBytes]
        exact hsize
      have hfixed : st.outputLinktype.or (some p.linktype) = some p.linktype := by
        cases htag : st.outputLinktype with
        | none => rfl
        | some t => rw [hlinktype t htag]; rfl
      refine Or.inl ⟨rfl, ⟨w, by rw [hfixed]⟩, ?_, hlength, ?_, hlength, ?_, ?_, ?_⟩
      · intro hintact
        obtain ⟨hintact₀, hcontents⟩ := writePacket_output hpacket hintact
        refine hcontents.trans ?_
        rw [h.output hintact₀, h.headerWritten, captureBytes_written_append, List.append_assoc]
      · rw [hheader]
        simp
      · simp [h.packets]
      · rw [hfixed]
        match hwritten : st.written with
        | [] => rfl
        | v :: trace =>
            have htag := h.linktype
            rw [hwritten] at htag
            have hv := hlinktype v.2.linktype htag
            rw [List.cons_append, List.head?_cons, Option.map_some, hv]
      · intro hmax
        rw [← hsize]
        have hle := Nat.not_lt.mp hcap
        rw [h.bytes, saturatingAdd] at hle
        omega

end

/-! ## The stock -/

section

variable {α β : Type*}

/-- What one element of a list holds is part of what the whole list holds. -/
theorem flatMap_set_perm (f : α → List β) {l : List α} {i : ℕ} {a b : α} {held : List β}
    (ha : l[i]? = some a) (hf : (f a).Perm (held ++ f b)) :
    (held ++ (l.set i b).flatMap f).Perm (l.flatMap f) := by
  induction l generalizing i with
  | nil => simp at ha
  | cons c l ih =>
      match i with
      | 0 =>
          obtain rfl : c = a := by simpa using ha
          rw [List.set_cons_zero, List.flatMap_cons, List.flatMap_cons, ← List.append_assoc]
          exact hf.symm.append_right _
      | i + 1 =>
          have hrest := ih (i := i) (by simpa using ha)
          rw [List.set_cons_succ, List.flatMap_cons, List.flatMap_cons]
          refine List.Perm.trans ?_ (hrest.append_left (f c))
          rw [← List.append_assoc, ← List.append_assoc]
          exact List.perm_append_comm.append_right _

theorem flatMap_set_congr (f : α → List β) (l : List α) (i : ℕ) {a b : α} (h : f a = f b) :
    (l.set i a).flatMap f = (l.set i b).flatMap f := by
  rw [List.flatMap_def, List.flatMap_def, List.map_set, List.map_set, h]

end

section

variable {Path ω : Type*} [ToString Path] [Write ω]

/-- The files `paths` are those that have been tried so far. -/
structure Counted (lib : Libpcap Path) (m : Matcher) (paths : List Path) (sh : Shared ω) : Prop where
  filesScanned : sh.stats.filesScanned = paths.countP (opens lib)
  compiledAny : sh.bpfExprTracker.compiledAny = paths.any (expressionCompiles lib m · = some true)
  firstError : sh.bpfExprTracker.firstError.isSome = paths.any (expressionCompiles lib m · = some false)

/-- The packets written and those to come are matching packets of the groups. -/
def Supplied (lib : Libpcap Path) (m : Matcher) (groups : List (List Path)) (trace : List (ℕ × PendingPacket))
    (cursors : List (GroupCursor Path)) : Prop :=
  (trace.map Prod.snd ++ cursors.flatMap (GroupCursor.toCome lib m)).Subperm
    (groups.flatMap (groupMatching lib m))

/-- What the merge has still to do. `popped` is the entry that has left the heap though its packet is still
pending. -/
structure Stock (lib : Libpcap Path) (m : Matcher) (groups : List (List Path))
    (popped : Option (ℕ ×ₗ ℕ)) (st : MergeState Path ω) : Prop where
  files : ∃ paths, Counted lib m paths st.shared ∧
    (paths ++ st.cursors.flatMap GroupCursor.files).Perm groups.flatten
  drained : ∀ c ∈ st.cursors, c.pending = none →
    st.shared.ctl.stopped.isSome = true ∨ c.toCome lib m = [] ∧ c.files = []
  heap : (popped.toList ++ st.heap).Perm
    (KWayMerge.candidates PendingPacket.tsMicros (st.cursors.map (GroupCursor.abs lib m)))
  truncated : st.shared.stats.truncated = false

variable {o : Output ω} {lib : Libpcap Path} {m : Matcher} {env : Env} {sh sh' : Shared ω}
  {groups : List (List Path)} {popped : Option (ℕ ×ₗ ℕ)} {limits : Limits} {before : List UInt8}

omit [ToString Path] in
theorem Counted.scanned {paths paths' : List Path} (h : Counted lib m paths sh)
    (hscanned : Scanned o lib m paths' sh sh') : Counted lib m (paths ++ paths') sh' where
  filesScanned := by rw [hscanned.filesScanned, h.filesScanned, List.countP_append]
  compiledAny := by rw [hscanned.compiledAny, h.compiledAny, List.any_append]
  firstError := by rw [hscanned.firstError, h.firstError, List.any_append]

omit [ToString Path] in
/-- A turn's head leaves the stock as it is. -/
theorem Stock.scanned {st : MergeState Path ω} (h : Stock lib m groups popped st)
    (hscanned : Scanned o lib m [] st.shared sh') {heap : List (ℕ ×ₗ ℕ)} {popped' : Option (ℕ ×ₗ ℕ)}
    (hheap : (popped'.toList ++ heap).Perm (popped.toList ++ st.heap)) :
    Stock lib m groups popped' { st with heap := heap, shared := sh' } where
  files := by
    obtain ⟨paths, hcounted, hperm⟩ := h.files
    have hcounted' := hcounted.scanned hscanned
    rw [List.append_nil] at hcounted'
    exact ⟨paths, hcounted', hperm⟩
  drained c hc hpending := by
    rcases h.drained c hc hpending with hstopped | hdrained
    · exact Or.inl (by rw [hscanned.stopped hstopped, hstopped])
    · exact Or.inr hdrained
  heap := hheap.trans h.heap
  truncated := hscanned.truncated.trans h.truncated

omit [ToString Path] [Write ω] in
/-- The popped entry is that of a cursor with a pending packet, and the least of all such entries. -/
theorem Stock.of_pop {st : MergeState Path ω} {k : ℕ ×ₗ ℕ} {heap : List (ℕ ×ₗ ℕ)}
    (h : Stock lib m groups none st) (hpop : heapPop st.heap = some (k, heap)) :
    (k :: heap).Perm st.heap ∧
    ∃ i c p, st.cursors[i]? = some c ∧ c.pending = some p ∧ k = toLex (p.tsMicros, i) ∧
      ∀ j d q, st.cursors[j]? = some d → d.pending = some q → k ≤ toLex (q.tsMicros, j) := by
  obtain ⟨k', hmin, hk'⟩ := Option.map_eq_some_iff.mp hpop
  obtain ⟨rfl, rfl⟩ := Prod.mk.inj hk'
  obtain ⟨hmem, hle⟩ := List.min?_eq_some_iff.mp hmin
  have hheap := h.heap
  have hentry : ∀ j d q, st.cursors[j]? = some d → d.pending = some q → toLex (q.tsMicros, j) ∈ st.heap := by
    intro j d q hd hq
    refine hheap.mem_iff.mpr ((KWayMerge.mem_candidatesFrom _ _ _ _).mpr ⟨j, d.abs lib m, q, ?_, hq, ?_⟩)
    · rw [List.getElem?_map, hd]
      rfl
    · rw [Nat.zero_add]
  obtain ⟨i, a, p, ha, hp, hk⟩ := (KWayMerge.mem_candidatesFrom _ _ _ _).mp (hheap.mem_iff.mp hmem)
  rw [List.getElem?_map, Option.map_eq_some_iff] at ha
  obtain ⟨c, hc, rfl⟩ := ha
  rw [Nat.zero_add] at hk
  exact ⟨(List.perm_cons_erase hmem).symm, i, c, p, hc, hp, hk,
    fun j d q hd hq => hle _ (hentry j d q hd hq)⟩

/-- Refilling the popped cursor leaves its packets in the stock. `cursor` is the popped cursor `c` after its
packet has been taken, and perhaps its file skipped. -/
theorem Stock.refillAndPush {st st' : MergeState Path ω} {i : ℕ} {c cursor : GroupCursor Path}
    {p : PendingPacket} {turn : Turn} (hc : st.cursors[i]? = some c) (hp : c.pending = some p)
    (hpending : cursor.pending = none) (hfiles : cursor.files = c.files)
    (h : Stock lib m groups (some (toLex (p.tsMicros, i))) st)
    (hsupplied : Supplied lib m groups st.written (st.cursors.set i cursor))
    (hledger : Ledger o limits before st.written st.outputLinktype st.shared)
    (hrefill : refillAndPush env lib m i cursor st = (turn, st')) :
    (turn = .next ∧ Stock lib m groups none st' ∧ Supplied lib m groups st'.written st'.cursors ∧
      Ledger o limits before st'.written st'.outputLinktype st'.shared) ∨
    ((∃ e, turn = .fault (.error (.io e))) ∧ IoCause ω lib groups.flatten ∧ st'.written = st.written) := by
  obtain ⟨paths, hcounted, hperm⟩ := h.files
  unfold Pcap.refillAndPush at hrefill
  split at hrefill
  · rename_i err sh hcursor
    cases hrefill
    obtain ⟨e, rfl, hcause⟩ := GroupCursor.refill_error hcursor
    refine Or.inr ⟨⟨e, rfl⟩, hcause.mono ?_, rfl⟩
    rw [hfiles]
    intro path hpath
    refine hperm.subset (List.mem_append_right _ (List.mem_flatMap.mpr ⟨c, ?_, hpath⟩))
    exact List.mem_of_getElem? hc
  · rename_i c' sh hcursor
    cases hrefill
    have hrefilled := GroupCursor.refill_refilled (o := o) hpending hcursor
    obtain ⟨paths', hsplit, hscanned⟩ := hrefilled.tried
    have hsupplied' : Supplied lib m groups st.written (st.cursors.set i c') := by
      unfold Supplied
      rw [flatMap_set_congr _ st.cursors i hrefilled.toCome]
      exact hsupplied
    refine Or.inl ⟨rfl, ⟨?_, ?_, ?_, ?_⟩, hsupplied', hledger.scanned hscanned⟩
    · refine ⟨paths ++ paths', hcounted.scanned hscanned, ?_⟩
      have hset := flatMap_set_perm GroupCursor.files (b := c') hc (List.Perm.of_eq (hfiles ▸ hsplit))
      rw [List.append_assoc]
      exact (hset.append_left paths).trans hperm
    · intro d hd hnone
      rcases List.mem_or_eq_of_mem_set hd with hd | rfl
      · rcases h.drained d hd hnone with hstopped | hdrained
        · exact Or.inl (by rw [hscanned.stopped hstopped, hstopped])
        · exact Or.inr hdrained
      · exact hrefilled.drained hnone
    · have hget : (st.cursors.map (GroupCursor.abs lib m))[i]? = some (c.abs lib m) := by
        rw [List.getElem?_map, hc]
        rfl
      have hset := KWayMerge.candidates_set PendingPacket.tsMicros (d := c'.abs lib m) hget hp
      have hheap := h.heap.erase (toLex (p.tsMicros, i))
      rw [Option.toList_some, List.singleton_append, List.erase_cons_head] at hheap
      rw [Option.toList_none, List.nil_append]
      dsimp only
      rw [List.map_set]
      refine List.Perm.trans ?_ hset.symm
      cases hnext : c'.pending with
      | none => simpa [GroupCursor.abs, hnext] using hheap
      | some q => simpa [GroupCursor.abs, hnext] using hheap
    · exact hscanned.truncated.trans h.truncated

/-- The merge is at a matching packet, the least of the pending ones and of the output's link type, whose record
would pass the cap. -/
def CapMet (lib : Libpcap Path) (m : Matcher) (limits : Limits) (groups : List (List Path))
    (st : MergeState Path ω) : Prop :=
  ∃ i c p, st.cursors[i]? = some c ∧ c.pending = some p ∧
    (p :: st.written.map Prod.snd).Subperm (groups.flatMap (groupMatching lib m)) ∧
    (∀ j d q, st.cursors[j]? = some d → d.pending = some q → toLex (p.tsMicros, i) ≤ toLex (q.tsMicros, j)) ∧
    (∀ w ∈ st.written.head?, w.2.linktype = p.linktype) ∧
    limits.maxBytes < streamLength (st.written ++ [(i, p)])

/-- How a turn of the merge loop can end. -/
inductive TurnAccount (o : Output ω) (lib : Libpcap Path) (m : Matcher) (limits : Limits)
    (groups : List (List Path)) (before : List UInt8) : Turn → MergeState Path ω → Prop
  | next (st : MergeState Path ω) (hledger : Ledger o limits before st.written st.outputLinktype st.shared)
      (hsupplied : Supplied lib m groups st.written st.cursors) (hstock : Stock lib m groups none st) :
      TurnAccount o lib m limits groups before .next st
  /-- No packet is pending. -/
  | drained (st : MergeState Path ω) (hledger : Ledger o limits before st.written st.outputLinktype st.shared)
      (hsupplied : Supplied lib m groups st.written st.cursors) (hstock : Stock lib m groups none st)
      (hheap : st.heap = []) :
      TurnAccount o lib m limits groups before .break st
  /-- The fetch has been stopped. -/
  | stopped (st : MergeState Path ω) (hledger : Ledger o limits before st.written st.outputLinktype st.shared)
      (hsupplied : Supplied lib m groups st.written st.cursors)
      (htruncated : st.shared.stats.truncated = false) (hstopped : st.shared.ctl.stopped.isSome = true) :
      TurnAccount o lib m limits groups before .break st
  /-- The next record would pass the cap. -/
  | cut (st : MergeState Path ω) (hledger : Ledger o limits before st.written st.outputLinktype st.shared)
      (hsupplied : Supplied lib m groups st.written st.cursors)
      (htruncated : st.shared.stats.truncated = true) (hstopped : st.shared.ctl.stopped = none)
      (hcap : CapMet lib m limits groups st) :
      TurnAccount o lib m limits groups before (.return st.shared.stats) st
  | io (e : IoError) (st : MergeState Path ω)
      (hcap : limits.maxBytes < u64Max → streamLength st.written ≤ limits.maxBytes)
      (hsupplied : Supplied lib m groups st.written []) (hcause : IoCause ω lib groups.flatten) :
      TurnAccount o lib m limits groups before (.fault (.error (.io e))) st

omit [ToString Path] [Write ω] in
theorem Supplied.written {trace : List (ℕ × PendingPacket)} {cursors : List (GroupCursor Path)}
    (h : Supplied lib m groups trace cursors) : Supplied lib m groups trace [] := by
  unfold Supplied at h ⊢
  rw [List.flatMap_nil, List.append_nil]
  exact (List.sublist_append_left _ _).subperm.trans h

theorem TurnAccount.refillAndPush {st st' : MergeState Path ω} {i : ℕ} {c cursor : GroupCursor Path}
    {p : PendingPacket} {turn : Turn} (hc : st.cursors[i]? = some c) (hp : c.pending = some p)
    (hpending : cursor.pending = none) (hfiles : cursor.files = c.files)
    (h : Stock lib m groups (some (toLex (p.tsMicros, i))) st)
    (hsupplied : Supplied lib m groups st.written (st.cursors.set i cursor))
    (hledger : Ledger o limits before st.written st.outputLinktype st.shared)
    (hrefill : refillAndPush env lib m i cursor st = (turn, st')) :
    TurnAccount o lib m limits groups before turn st' := by
  rcases Stock.refillAndPush hc hp hpending hfiles h hsupplied hledger hrefill with
    ⟨rfl, hstock', hsupplied', hledger'⟩ | ⟨⟨e, rfl⟩, hcause, hwritten⟩
  · exact .next st' hledger' hsupplied' hstock'
  · refine .io e st' ?_ ?_ hcause
    · rw [hwritten]
      exact hledger.cap
    · rw [hwritten]
      exact hsupplied.written

omit [ToString Path] in
/-- What is to come of a cursor whose packet has been taken. -/
theorem GroupCursor.toCome_of_pending (lib : Libpcap Path) (m : Matcher) {c : GroupCursor Path}
    {p : PendingPacket} (hp : c.pending = some p) :
    c.toCome lib m = [p] ++ ({ c with pending := none } : GroupCursor Path).toCome lib m := by
  unfold toCome
  rw [hp]
  rfl

omit [ToString Path] in
/-- What is to come of a cursor whose file is skipped. -/
theorem GroupCursor.toCome_of_skip (lib : Libpcap Path) (m : Matcher) {c : GroupCursor Path}
    {p : PendingPacket} (hp : c.pending = some p) :
    c.toCome lib m = (p :: (c.opened.map (OpenCapture.matching m)).getD []) ++
      ({ c with pending := none } : GroupCursor Path).skipCurrentFile.toCome lib m := by
  unfold toCome
  rw [hp]
  rfl

omit [ToString Path] [Write ω] in
/-- Taking what a cursor holds from the front leaves the rest supplied. -/
theorem Supplied.set {trace : List (ℕ × PendingPacket)} {cursors : List (GroupCursor Path)} {i : ℕ}
    {c d : GroupCursor Path} {held : List PendingPacket} (h : Supplied lib m groups trace cursors)
    (hc : cursors[i]? = some c) (htoCome : c.toCome lib m = held ++ d.toCome lib m) :
    (trace.map Prod.snd ++ (held ++ (cursors.set i d).flatMap (GroupCursor.toCome lib m))).Subperm
      (groups.flatMap (groupMatching lib m)) := by
  have hset := flatMap_set_perm (GroupCursor.toCome lib m) hc (List.Perm.of_eq htoCome)
  exact (hset.append_left _).subperm.trans h

/-- The packet that is popped is either dropped with its file, or written, or the fetch ends here. -/
theorem TurnAccount.handlePopped {st st' : MergeState Path ω} {i : ℕ} {c : GroupCursor Path}
    {p : PendingPacket} {turn : Turn} (hc : st.cursors[i]? = some c) (hp : c.pending = some p)
    (hleast : ∀ j d q, st.cursors[j]? = some d → d.pending = some q →
      toLex (p.tsMicros, i) ≤ toLex (q.tsMicros, j))
    (h : Stock lib m groups (some (toLex (p.tsMicros, i))) st)
    (hsupplied : Supplied lib m groups st.written st.cursors)
    (hledger : Ledger o limits before st.written st.outputLinktype st.shared)
    (hlive : st.shared.ctl.stopped = none)
    (hpopped : handlePopped env lib m limits i st = (turn, st')) :
    TurnAccount o lib m limits groups before turn st' := by
  have htake := hsupplied.set hc (GroupCursor.toCome_of_pending lib m hp)
  unfold Pcap.handlePopped at hpopped
  simp only [hc, hp] at hpopped
  split at hpopped
  · have hskip : Supplied lib m groups st.written
        (st.cursors.set i ({ c with pending := none } : GroupCursor Path).skipCurrentFile) := by
      refine List.Subperm.trans ?_ (hsupplied.set hc (GroupCursor.toCome_of_skip lib m hp))
      exact ((List.sublist_append_right _ _).append_left _).subperm
    have hfiles : ({ c with pending := none } : GroupCursor Path).skipCurrentFile.files = c.files := rfl
    exact TurnAccount.refillAndPush hc hp rfl hfiles h hskip hledger hpopped
  · rename_i hsame
    have hlinktype : ∀ t ∈ st.outputLinktype, t = p.linktype := by
      intro t ht
      rw [Option.mem_def] at ht
      simpa [ht] using hsame
    cases hwrite : writePending limits i p st with
    | mk turn₁ st₁ =>
      rw [hwrite] at hpopped
      rcases hledger.writePending hlinktype hwrite with
        ⟨rfl, ⟨w, hst₁⟩, hledger₁⟩ | ⟨⟨e, rfl⟩, hfails, hwritten₁⟩ | ⟨rfl, hcap, rfl⟩
      · -- the packet goes from the cursor to the trace
        have htaken : Supplied lib m groups st₁.written (st₁.cursors.set i { c with pending := none }) := by
          rw [hst₁, Supplied, List.map_append, List.map_singleton, List.append_assoc]
          exact htake
        have hstock₁ : Stock lib m groups (some (toLex (p.tsMicros, i))) st₁ := by
          obtain ⟨paths, hcounted, hperm⟩ := h.files
          rw [hst₁]
          exact ⟨⟨paths, ⟨hcounted.filesScanned, hcounted.compiledAny, hcounted.firstError⟩, hperm⟩,
            h.drained, h.heap, h.truncated⟩
        have hc₁ : st₁.cursors[i]? = some c := by
          rw [hst₁]
          exact hc
        have hfiles : ({ c with pending := none } : GroupCursor Path).files = c.files := rfl
        exact TurnAccount.refillAndPush hc₁ hp rfl hfiles hstock₁ htaken hledger₁ hpopped
      · cases hpopped
        refine .io e _ ?_ ?_ (Or.inl hfails)
        · rw [hwritten₁]
          exact hledger.cap
        · rw [hwritten₁]
          exact hsupplied.written
      · cases hpopped
        refine .cut { st with shared := { st.shared with stats := { st.shared.stats with truncated := true } } }
          ⟨hledger.output, hledger.writerBytes, hledger.headerWritten, hledger.bytes,
          hledger.packets, hledger.linktype, hledger.cap⟩ hsupplied rfl hlive
          ⟨i, c, p, hc, hp, ?_, hleast, ?_, hcap⟩
        · rw [← List.append_assoc] at htake
          refine List.Subperm.trans ?_ ((List.sublist_append_left _ _).subperm.trans htake)
          exact (List.perm_append_singleton p _).symm.subperm
        · intro v hv
          refine hlinktype _ ?_
          rw [hledger.linktype, hv]
          rfl

theorem TurnAccount.mergeTurn {st st' : MergeState Path ω} {turn : Turn}
    (h : Stock lib m groups none st) (hsupplied : Supplied lib m groups st.written st.cursors)
    (hledger : Ledger o limits before st.written st.outputLinktype st.shared)
    (hturn : mergeTurn env lib m limits st = (turn, st')) :
    TurnAccount o lib m limits groups before turn st' := by
  unfold Pcap.mergeTurn at hturn
  split at hturn
  · rename_i hpop
    cases hturn
    refine .drained st hledger hsupplied h ?_
    rwa [heapPop, Option.map_eq_none_iff, List.min?_eq_none_iff] at hpop
  · rename_i k heap hpop
    obtain ⟨hperm, i, c, p, hc, hp, rfl, hleast⟩ := h.of_pop hpop
    split at hturn
    · rename_i hhead
      cases hturn
      obtain ⟨e, rfl, hfails⟩ := refillTurn_error hhead
      exact .io e _ hledger.cap hsupplied.written (Or.inl hfails)
    · rename_i sh hhead
      cases hturn
      obtain ⟨hscanned, hstopped⟩ := Scanned.refillTurn (o := o) lib m hhead
      exact .stopped { st with heap := heap, shared := sh } (hledger.scanned hscanned) hsupplied
        (hscanned.truncated.trans h.truncated) hstopped
    · rename_i sh hhead
      obtain ⟨hscanned, hgoing⟩ := Scanned.refillTurn (o := o) lib m hhead
      have hstock : Stock lib m groups (some (toLex (p.tsMicros, i))) { st with heap := heap, shared := sh } :=
        h.scanned hscanned hperm
      have hlive : sh.ctl.stopped = none := Option.isSome_eq_false_iff.mp hgoing |> Option.isNone_iff_eq_none.mp
      refine TurnAccount.handlePopped ?_ hp ?_ hstock ?_ ?_ hlive hturn
      · exact hc
      · exact hleast
      · exact hsupplied
      · exact hledger.scanned hscanned

/-- How the merge can end: as a turn that leaves the loop. -/
theorem TurnAccount.mergeLoop {st st' : MergeState Path ω} {r : Option (Except Fault FetchStats)}
    (h : Stock lib m groups none st) (hsupplied : Supplied lib m groups st.written st.cursors)
    (hledger : Ledger o limits before st.written st.outputLinktype st.shared)
    (hloop : mergeLoop env lib m limits st = (r, st')) :
    (r = none ∧ TurnAccount o lib m limits groups before .break st') ∨
    (∃ stats, r = some (.ok stats) ∧ TurnAccount o lib m limits groups before (.return stats) st') ∨
    ∃ fault, r = some (.error fault) ∧ TurnAccount o lib m limits groups before (.fault fault) st' := by
  rw [Pcap.mergeLoop] at hloop
  split at hloop
  · rename_i st₁ hturn
    have hlt := mergeTurn_weight hturn
    cases TurnAccount.mergeTurn h hsupplied hledger hturn with
    | next _ hledger₁ hsupplied₁ hstock₁ => exact TurnAccount.mergeLoop hstock₁ hsupplied₁ hledger₁ hloop
  · rename_i st₁ hturn
    cases hloop
    exact Or.inl ⟨rfl, TurnAccount.mergeTurn h hsupplied hledger hturn⟩
  · rename_i stats st₁ hturn
    cases hloop
    exact Or.inr (Or.inl ⟨stats, rfl, TurnAccount.mergeTurn h hsupplied hledger hturn⟩)
  · rename_i fault st₁ hturn
    cases hloop
    exact Or.inr (Or.inr ⟨fault, rfl, TurnAccount.mergeTurn h hsupplied hledger hturn⟩)
termination_by cursorsWeight lib st.cursors

/-! ## The accounts of a whole fetch -/

omit [ToString Path] [Write ω] in
theorem Stock.start (lib : Libpcap Path) (m : Matcher) (limits : Limits) (out : ω) :
    Stock lib m [] none (MergeState.start limits out : MergeState Path ω) where
  files := ⟨[], ⟨rfl, rfl, rfl⟩, List.Perm.refl _⟩
  drained := nofun
  heap := List.Perm.refl _
  truncated := rfl

omit [ToString Path] in
theorem Ledger.start (o : Output ω) (limits : Limits) (out : ω) :
    Ledger o limits (o.contents out) [] none (MergeState.start limits out : MergeState Path ω).shared where
  output _ := (List.append_nil _).symm
  writerBytes := rfl
  headerWritten := rfl
  bytes := rfl
  packets := rfl
  linktype := rfl
  cap _ := Nat.zero_le _

omit [ToString Path] in
/-- A refilled cursor brings the files and the packets of its group into the stock. -/
theorem Stock.push {done : List (List Path)} {files : List Path} {packets : List PendingPacket}
    {st : MergeState Path ω} {c : GroupCursor Path} {heap : List (ℕ ×ₗ ℕ)} (h : Stock lib m done none st)
    (hrefilled : Refilled o lib m files packets c st.shared sh)
    (hheap : heap = (c.pending.map fun p => toLex (p.tsMicros, st.cursors.length)).toList ++ st.heap) :
    Stock lib m (done ++ [files]) none { st with cursors := st.cursors ++ [c], heap := heap, shared := sh } := by
  obtain ⟨paths', hsplit, hscanned⟩ := hrefilled.tried
  obtain ⟨paths, hcounted, hperm⟩ := h.files
  refine ⟨⟨paths ++ paths', hcounted.scanned hscanned, ?_⟩, ?_, ?_, hscanned.truncated.trans h.truncated⟩
  · rw [List.flatMap_append, List.flatMap_singleton, List.flatten_append, List.flatten_singleton, hsplit,
      List.append_assoc]
    refine List.Perm.trans ?_ (hperm.append_right _)
    rw [List.append_assoc]
    refine List.Perm.append_left _ ?_
    rw [← List.append_assoc, ← List.append_assoc]
    exact List.perm_append_comm.append_right _
  · intro d hd hnone
    rcases List.mem_append.mp hd with hd | hd
    · rcases h.drained d hd hnone with hstopped | hdrained
      · exact Or.inl (by rw [hscanned.stopped hstopped, hstopped])
      · exact Or.inr hdrained
    · obtain rfl : d = c := by simpa using hd
      exact hrefilled.drained hnone
  · have hold := h.heap
    unfold KWayMerge.candidates at hold ⊢
    rw [List.map_append, KWayMerge.candidatesFrom_append, List.length_map, Nat.zero_add, hheap]
    rw [Option.toList_none, List.nil_append] at hold ⊢
    refine List.Perm.trans List.perm_append_comm (hold.append (List.Perm.of_eq ?_))
    rw [List.map_singleton, KWayMerge.candidatesFrom, KWayMerge.candidatesFrom, List.append_nil]
    rfl

omit [ToString Path] [Write ω] in
theorem Supplied.push {done : List (List Path)} {files : List Path} {trace : List (ℕ × PendingPacket)}
    {cursors : List (GroupCursor Path)} {c : GroupCursor Path} (h : Supplied lib m done trace cursors)
    (htoCome : c.toCome lib m = groupMatching lib m files) :
    Supplied lib m (done ++ [files]) trace (cursors ++ [c]) := by
  unfold Supplied at h ⊢
  rw [List.flatMap_append, List.flatMap_singleton, List.flatMap_append, List.flatMap_singleton, htoCome,
    ← List.append_assoc]
  exact (List.subperm_append_right _).mpr h

/-- Opening the cursors takes the groups into the stock, one after the other. -/
theorem Stock.openCursors {done : List (List Path)} {st st' : MergeState Path ω} {r : Except FetchError Unit}
    (h : Stock lib m done none st) (hsupplied : Supplied lib m done st.written st.cursors)
    (hledger : Ledger o limits before st.written st.outputLinktype st.shared)
    (hopen : openCursors env lib m st.cursors.length groups st = (r, st')) :
    st'.written = st.written ∧ (r = .ok () → Stock lib m (done ++ groups) none st' ∧
      Supplied lib m (done ++ groups) st'.written st'.cursors ∧
      Ledger o limits before st'.written st'.outputLinktype st'.shared) := by
  induction groups generalizing done st with
  | nil =>
      cases hopen
      rw [List.append_nil]
      exact ⟨rfl, fun _ => ⟨h, hsupplied, hledger⟩⟩
  | cons files groups ih =>
      unfold Pcap.openCursors at hopen
      split at hopen
      · cases hopen
        exact ⟨rfl, nofun⟩
      · rename_i c sh hcursor
        have hrefilled : Refilled o lib m files (groupMatching lib m files) c st.shared sh :=
          GroupCursor.refill_refilled (c := .new files) rfl hcursor
        obtain ⟨paths, -, hscanned⟩ := hrefilled.tried
        have hnext : ∃ st₁ : MergeState Path ω, st₁ = { st with
            cursors := st.cursors ++ [c]
            heap := (c.pending.map fun p => toLex (p.tsMicros, st.cursors.length)).toList ++ st.heap
            shared := sh } := ⟨_, rfl⟩
        obtain ⟨st₁, hst₁⟩ := hnext
        have hstock : Stock lib m (done ++ [files]) none st₁ := hst₁ ▸ h.push hrefilled rfl
        have hsupplied₁ : Supplied lib m (done ++ [files]) st₁.written st₁.cursors :=
          hst₁ ▸ hsupplied.push hrefilled.toCome
        have hledger₁ : Ledger o limits before st₁.written st₁.outputLinktype st₁.shared :=
          hst₁ ▸ hledger.scanned hscanned
        have hwritten : st₁.written = st.written := by rw [hst₁]
        rw [show done ++ files :: groups = done ++ [files] ++ groups by simp, ← hwritten]
        refine ih hstock hsupplied₁ hledger₁ ?_
        rw [← hopen, hst₁, List.length_append, List.length_singleton]
        cases c.pending with
        | none => rfl
        | some p => rfl

omit [ToString Path] [Write ω] in
/-- When nothing is pending and the fetch has not been stopped, every file has been tried. -/
theorem Stock.counted {st : MergeState Path ω} (h : Stock lib m groups none st) (hheap : st.heap = [])
    (hlive : st.shared.ctl.stopped = none) :
    (∀ (i : ℕ) (c : GroupCursor Path), st.cursors[i]? = some c → c.pending = none) ∧
      ∃ paths, Counted lib m paths st.shared ∧ paths.Perm groups.flatten := by
  have hpending : ∀ (i : ℕ) (c : GroupCursor Path), st.cursors[i]? = some c → c.pending = none := by
    intro i c hc
    refine Option.eq_none_iff_forall_ne_some.mpr fun p hp => ?_
    have hmem : toLex (p.tsMicros, i) ∈ none.toList ++ st.heap := by
      refine h.heap.mem_iff.mpr ((KWayMerge.mem_candidatesFrom _ _ _ _).mpr ⟨i, c.abs lib m, p, ?_, hp, ?_⟩)
      · rw [List.getElem?_map, hc]
        rfl
      · rw [Nat.zero_add]
    rw [hheap] at hmem
    cases hmem
  refine ⟨hpending, ?_⟩
  obtain ⟨paths, hcounted, hperm⟩ := h.files
  have hdone : st.cursors.flatMap GroupCursor.files = [] := by
    refine List.flatMap_eq_nil_iff.mpr fun c hc => ?_
    obtain ⟨i, hi⟩ := List.getElem?_of_mem hc
    rcases h.drained c hc (hpending i c hi) with hstopped | ⟨-, hfiles⟩
    · rw [hlive] at hstopped
      cases hstopped
    · exact hfiles
  rw [hdone, List.append_nil] at hperm
  exact ⟨paths, hcounted, hperm⟩

/-- The fetch did not end with an I/O error. -/
def Reported (result : Except Fault FetchStats) : Prop := ∀ e, result ≠ .error (.error (.io e))

/-- The fetch ended without an I/O error, without truncation and without cancellation. -/
structure Completed (result : Except Fault FetchStats) (st : MergeState Path ω) : Prop where
  reported : Reported result
  cancelled : st.shared.ctl.stopped ≠ some .cancelled
  truncated : ∀ stats, result = .ok stats → stats.truncated = false

/-- The accounts of a fetch over the candidate files `groups`. -/
structure Accounting (o : Output ω) (lib : Libpcap Path) (m : Matcher) (limits : Limits)
    (groups : List (List Path)) (before : List UInt8) (result : Except Fault FetchStats)
    (st : MergeState Path ω) : Prop where
  panic : ∀ message, result ≠ .error (.panic message)
  /-- Only a failing output or a lack of descriptors makes the fetch fail. -/
  io : ∀ e, result = .error (.error (.io e)) → IoCause ω lib groups.flatten
  counts : ∀ stats, result = .ok stats →
    stats.bytes = streamLength st.written ∧ stats.packets = st.written.length
  /-- The output has grown by the stream of the written packets: by nothing when there are none. -/
  output : Reported result → o.intact st.shared.writer.out → ∃ stream,
    o.contents st.shared.writer.out = before ++ stream ∧ stream = captureBytes (written st.written) ∧
      stream.length = streamLength st.written
  matching : ∀ w ∈ st.written, w.2 ∈ groups.flatMap (groupMatching lib m)
  /-- The cap `u64Max` is one that no 64-bit count exceeds. -/
  cap : streamLength st.written ≤ limits.maxBytes ∨ u64Max ≤ limits.maxBytes ∧
    u64Max < fileHeaderLen + ((groups.flatMap (groupMatching lib m)).map PendingPacket.recordSize).sum
  truncated : Reported result → ((∃ stats, result = .ok stats ∧ stats.truncated = true) ↔
    st.shared.ctl.stopped = some .deadline ∨ st.shared.ctl.stopped = none ∧ CapMet lib m limits groups st)
  noMatch : Completed result st → ((∃ stats, result = .error (.error (.noMatch stats))) ↔
    (∃ path ∈ groups.flatten, opens lib path = true) ∧ st.written = [] ∧
      (m.expression = none ∨ ∃ path ∈ groups.flatten, expressionCompiles lib m path = some true))
  noCandidateFiles : Completed result st → (result = .error (.error .noCandidateFiles) ↔
    ∀ path ∈ groups.flatten, opens lib path = false)
  format : Completed result st → ((∃ message, result = .error (.error (.format message))) ↔
    (∀ path ∈ groups.flatten, expressionCompiles lib m path ≠ some true) ∧
      ∃ path ∈ groups.flatten, expressionCompiles lib m path = some false)

omit [ToString Path] [Write ω] in
/-- The stream of supplied packets is no longer than that of all matching packets. -/
theorem Supplied.streamLength_le {trace : List (ℕ × PendingPacket)} (h : Supplied lib m groups trace []) :
    streamLength trace ≤ fileHeaderLen +
      ((groups.flatMap (groupMatching lib m)).map PendingPacket.recordSize).sum := by
  obtain ⟨packets, hperm, hsub⟩ := h
  rw [List.flatMap_nil, List.append_nil] at hperm
  have hsum : (trace.map fun w => w.2.recordSize).sum = (packets.map PendingPacket.recordSize).sum := by
    rw [(hperm.map PendingPacket.recordSize).sum_eq, List.map_map]
    rfl
  have hle := (hsub.map PendingPacket.recordSize).sum_le_sum (fun _ _ => Nat.zero_le _)
  unfold streamLength
  split
  · exact Nat.zero_le _
  · rw [hsum]
    exact Nat.add_le_add_left hle _

omit [ToString Path] [Write ω] in
theorem Supplied.cap {trace : List (ℕ × PendingPacket)} (h : Supplied lib m groups trace [])
    (hcap : limits.maxBytes < u64Max → streamLength trace ≤ limits.maxBytes) :
    streamLength trace ≤ limits.maxBytes ∨ u64Max ≤ limits.maxBytes ∧
      u64Max < fileHeaderLen + ((groups.flatMap (groupMatching lib m)).map PendingPacket.recordSize).sum := by
  by_cases hlt : limits.maxBytes < u64Max
  · exact Or.inl (hcap hlt)
  · have hle := Nat.not_lt.mp hlt
    by_cases hfits : streamLength trace ≤ u64Max
    · exact Or.inl (Nat.le_trans hfits hle)
    · exact Or.inr ⟨hle, Nat.lt_of_lt_of_le (Nat.not_le.mp hfits) h.streamLength_le⟩

omit [ToString Path] [Write ω] in
theorem Supplied.mem {trace : List (ℕ × PendingPacket)} (h : Supplied lib m groups trace [])
    {w : ℕ × PendingPacket} (hw : w ∈ trace) : w.2 ∈ groups.flatMap (groupMatching lib m) :=
  h.subset (List.mem_append_left _ (List.mem_map_of_mem hw))

omit [ToString Path] in
/-- A fetch that ends with an I/O error. -/
theorem Accounting.of_io {e : IoError} {st : MergeState Path ω}
    (hcap : limits.maxBytes < u64Max → streamLength st.written ≤ limits.maxBytes)
    (hsupplied : Supplied lib m groups st.written []) (hcause : IoCause ω lib groups.flatten) :
    Accounting o lib m limits groups before (.error (.error (.io e))) st where
  panic := nofun
  io _ _ := hcause
  counts := nofun
  output hreported := absurd rfl (hreported e)
  matching _ := hsupplied.mem
  cap := hsupplied.cap hcap
  truncated hreported := absurd rfl (hreported e)
  noMatch hcompleted := absurd rfl (hcompleted.reported e)
  noCandidateFiles hcompleted := absurd rfl (hcompleted.reported e)
  format hcompleted := absurd rfl (hcompleted.reported e)

omit [ToString Path] in
theorem Ledger.stream {st : MergeState Path ω} {linktype : Option Linktype}
    (h : Ledger o limits before st.written linktype st.shared) (hintact : o.intact st.shared.writer.out) :
    ∃ stream, o.contents st.shared.writer.out = before ++ stream ∧ stream = captureBytes (written st.written) ∧
      stream.length = streamLength st.written :=
  ⟨_, h.output hintact, rfl, captureBytes_written_length _⟩

omit [ToString Path] in
/-- A fetch that returns statistics although it has been truncated or cancelled. -/
theorem Accounting.of_stopped {st : MergeState Path ω} {stats : FetchStats}
    (hledger : Ledger o limits before st.written st.outputLinktype st.shared)
    (hsupplied : Supplied lib m groups st.written [])
    (hbytes : stats.bytes = st.shared.stats.bytes) (hpackets : stats.packets = st.shared.stats.packets)
    (htruncated : stats.truncated = true ↔
      st.shared.ctl.stopped = some .deadline ∨ st.shared.ctl.stopped = none ∧ CapMet lib m limits groups st)
    (hcompleted : st.shared.ctl.stopped ≠ some .cancelled → stats.truncated = true) :
    Accounting o lib m limits groups before (.ok stats) st where
  panic := nofun
  io := nofun
  counts stats' hstats := by
    obtain rfl : stats = stats' := Except.ok.inj hstats
    exact ⟨hbytes.trans hledger.bytes, hpackets.trans hledger.packets⟩
  output _ := hledger.stream
  matching _ := hsupplied.mem
  cap := hsupplied.cap hledger.cap
  truncated _ := by
    refine Iff.trans ⟨?_, fun h => ⟨stats, rfl, h⟩⟩ htruncated
    rintro ⟨stats', hstats, h⟩
    obtain rfl : stats = stats' := Except.ok.inj hstats
    exact h
  noMatch h := by
    have hfalse := h.truncated stats rfl
    rw [hcompleted h.cancelled] at hfalse
    cases hfalse
  noCandidateFiles h := by
    have hfalse := h.truncated stats rfl
    rw [hcompleted h.cancelled] at hfalse
    cases hfalse
  format h := by
    have hfalse := h.truncated stats rfl
    rw [hcompleted h.cancelled] at hfalse
    cases hfalse

omit [ToString Path] in
/-- A matching packet is from a file that was opened, and for which the expression compiled. -/
theorem exists_file_of_matching {p : PendingPacket} (h : p ∈ groups.flatMap (groupMatching lib m)) :
    ∃ path ∈ groups.flatten, opens lib path = true ∧
      (m.expression = none ∨ expressionCompiles lib m path = some true) := by
  obtain ⟨files, hfiles, hp⟩ := List.mem_flatMap.mp h
  obtain ⟨path, hpath, hp⟩ := List.mem_flatMap.mp hp
  refine ⟨path, List.mem_flatten.mpr ⟨files, hfiles, hpath⟩, ?_⟩
  unfold fileMatching at hp
  unfold opens expressionCompiles
  split at hp
  · cases hp
  · rename_i file hfile
    rw [hfile]
    refine ⟨rfl, ?_⟩
    cases hexpression : m.expression with
    | none => exact Or.inl rfl
    | some expression =>
        right
        unfold compileFilter at hp
        cases hcompile : lib.compile file.linktype expression with
        | error err =>
            simp only [hexpression, hcompile] at hp
            cases hp
        | ok program =>
            dsimp only
            rw [hcompile]
            rfl

omit [ToString Path] in
theorem expressionCompiles_eq_some {path : Path} {b : Bool} (h : expressionCompiles lib m path = some b) :
    m.expression.isSome = true ∧ opens lib path = true := by
  unfold expressionCompiles at h
  unfold opens
  split at h
  · rename_i expression file hexpression hfile
    rw [hexpression, hfile]
    exact ⟨rfl, rfl⟩
  · cases h

omit [ToString Path] in
theorem exists_expressionCompiles {path : Path} (hgiven : m.expression ≠ none) (hopen : opens lib path = true) :
    ∃ b, expressionCompiles lib m path = some b := by
  obtain ⟨expression, hexpression⟩ := Option.ne_none_iff_exists'.mp hgiven
  unfold opens at hopen
  unfold expressionCompiles
  cases hfile : lib.fromFile path with
  | error err =>
      rw [hfile] at hopen
      cases hopen
  | ok file =>
      rw [hexpression]
      exact ⟨_, rfl⟩

omit [ToString Path] [Write ω] in
/-- What the counters say when every file has been tried. -/
theorem Counted.all {paths : List Path} (h : Counted lib m paths sh) (hperm : paths.Perm groups.flatten) :
    (sh.stats.filesScanned = 0 ↔ ∀ path ∈ groups.flatten, opens lib path = false) ∧
    (sh.bpfExprTracker.compiledAny = true ↔
      ∃ path ∈ groups.flatten, expressionCompiles lib m path = some true) ∧
    (sh.bpfExprTracker.firstError.isSome = true ↔
      ∃ path ∈ groups.flatten, expressionCompiles lib m path = some false) := by
  refine ⟨?_, ?_, ?_⟩
  · rw [h.filesScanned, hperm.countP_eq, List.countP_eq_zero]
    simp only [Bool.not_eq_true]
  · rw [h.compiledAny, List.any_eq_true]
    simp only [decide_eq_true_eq, hperm.mem_iff]
  · rw [h.firstError, List.any_eq_true]
    simp only [decide_eq_true_eq, hperm.mem_iff]

omit [ToString Path] in
/-- A fetch that has come to the end of every cursor. -/
theorem Accounting.of_completed {st : MergeState Path ω} {result : Except Fault FetchStats}
    (hledger : Ledger o limits before st.written st.outputLinktype st.shared)
    (hsupplied : Supplied lib m groups st.written [])
    (hcap : ¬ (st.shared.ctl.stopped = some .deadline ∨
      st.shared.ctl.stopped = none ∧ CapMet lib m limits groups st))
    (htruncated : st.shared.stats.truncated = false)
    (hresult : (result = .ok st.shared.stats) ∨ ∃ err, result = .error (.error err) ∧ ∀ e, err ≠ .io e)
    (hnoMatch : (∃ stats, result = .error (.error (.noMatch stats))) ↔
      (∃ path ∈ groups.flatten, opens lib path = true) ∧ st.written = [] ∧
        (m.expression = none ∨ ∃ path ∈ groups.flatten, expressionCompiles lib m path = some true))
    (hnoCandidateFiles : result = .error (.error .noCandidateFiles) ↔
      ∀ path ∈ groups.flatten, opens lib path = false)
    (hformat : (∃ message, result = .error (.error (.format message))) ↔
      (∀ path ∈ groups.flatten, expressionCompiles lib m path ≠ some true) ∧
        ∃ path ∈ groups.flatten, expressionCompiles lib m path = some false) :
    Accounting o lib m limits groups before result st := by
  have hstats : ∀ stats, result = .ok stats → stats = st.shared.stats := by
    intro stats hstats
    rcases hresult with hok | ⟨err, herr, -⟩
    · exact Except.ok.inj (hstats.symm.trans hok)
    · cases hstats.symm.trans herr
  refine ⟨?_, ?_, ?_, fun _ => hledger.stream, fun _ => hsupplied.mem, hsupplied.cap hledger.cap, ?_,
    fun _ => hnoMatch, fun _ => hnoCandidateFiles, fun _ => hformat⟩
  · intro message hpanic
    rcases hresult with hok | ⟨err, herr, -⟩
    · cases hpanic.symm.trans hok
    · cases hpanic.symm.trans herr
  · intro e hio
    rcases hresult with hok | ⟨err, herr, hne⟩
    · cases hio.symm.trans hok
    · cases hio.symm.trans herr
      exact absurd rfl (hne e)
  · intro stats hok
    rw [hstats stats hok]
    exact ⟨hledger.bytes, hledger.packets⟩
  · refine fun _ => iff_of_false ?_ hcap
    rintro ⟨stats, hok, htrue⟩
    rw [hstats stats hok, htruncated] at htrue
    cases htrue

omit [ToString Path] in
/-- The end of `fetch` after a merge that has come to the end of every cursor. -/
theorem Accounting.of_drained {st : MergeState Path ω}
    (hledger : Ledger o limits before st.written st.outputLinktype st.shared)
    (hsupplied : Supplied lib m groups st.written []) (hlive : st.shared.ctl.stopped = none)
    (hpending : ∀ (i : ℕ) (c : GroupCursor Path), st.cursors[i]? = some c → c.pending = none)
    (htruncated : st.shared.stats.truncated = false) {paths : List Path}
    (hcounted : Counted lib m paths st.shared) (hperm : paths.Perm groups.flatten) :
    Accounting o lib m limits groups before ((finish m st.shared).mapError .error) st := by
  obtain ⟨hscanned, hcompiled, hrejected⟩ := hcounted.all hperm
  have hcap : ¬ (st.shared.ctl.stopped = some .deadline ∨
      st.shared.ctl.stopped = none ∧ CapMet lib m limits groups st) := by
    rintro (hdeadline | ⟨-, i, c, p, hc, hp, -⟩)
    · rw [hlive] at hdeadline
      cases hdeadline
    · rw [hpending i c hc] at hp
      cases hp
  unfold finish
  rw [hlive]
  dsimp only
  by_cases hempty : st.written = []
  · have hpackets : st.shared.stats.packets = 0 ∧ st.shared.stats.truncated = false := by
      rw [hledger.packets, hempty]
      exact ⟨rfl, htruncated⟩
    rw [if_pos hpackets]
    -- a file for which the expression does not compile is one that was opened
    have hopened : ∀ {b : Bool}, (∃ path ∈ groups.flatten, expressionCompiles lib m path = some b) →
        m.expression.isSome = true ∧ ∃ path ∈ groups.flatten, opens lib path = true := by
      rintro b ⟨path, hpath, hb⟩
      exact ⟨(expressionCompiles_eq_some hb).1, path, hpath, (expressionCompiles_eq_some hb).2⟩
    split
    · rename_i err hnone hfirst
      rw [Bool.and_eq_true, Bool.not_eq_true', ← Bool.not_eq_true, hcompiled] at hnone
      have hsome := hrejected.mp (by rw [hfirst]; rfl)
      refine .of_completed hledger hsupplied hcap htruncated (Or.inr ⟨_, rfl, nofun⟩) ?_ ?_ ?_
      · refine iff_of_false (by rintro ⟨stats, ⟨⟩⟩) ?_
        rintro ⟨-, -, habsent | hcompiles⟩
        · rw [habsent] at hnone
          exact absurd hnone.1 (by simp)
        · exact hnone.2 hcompiles
      · refine iff_of_false nofun fun hclosed => ?_
        obtain ⟨-, path, hpath, hopen⟩ := hopened hsome
        rw [hclosed path hpath] at hopen
        cases hopen
      · exact iff_of_true ⟨err, rfl⟩ ⟨fun path hpath hcompiles => hnone.2 ⟨path, hpath, hcompiles⟩, hsome⟩
    · rename_i hother
      have hformat : ¬ ((∀ path ∈ groups.flatten, expressionCompiles lib m path ≠ some true) ∧
          ∃ path ∈ groups.flatten, expressionCompiles lib m path = some false) := by
        rintro ⟨hnever, hsome⟩
        obtain ⟨err, herr⟩ := Option.isSome_iff_exists.mp (hrejected.mpr hsome)
        refine hother err ?_ herr
        rw [Bool.and_eq_true, Bool.not_eq_true', ← Bool.not_eq_true, hcompiled]
        exact ⟨(hopened hsome).1, fun ⟨path, hpath, hcompiles⟩ => hnever path hpath hcompiles⟩
      split
      · rename_i hzero
        have hclosed := hscanned.mp hzero
        refine .of_completed hledger hsupplied hcap htruncated (Or.inr ⟨_, rfl, nofun⟩) ?_
          (iff_of_true rfl hclosed) (iff_of_false (by rintro ⟨message, ⟨⟩⟩) hformat)
        refine iff_of_false (by rintro ⟨stats, ⟨⟩⟩) ?_
        rintro ⟨⟨path, hpath, hopen⟩, -⟩
        rw [hclosed path hpath] at hopen
        cases hopen
      · rename_i hzero
        have hopen : ∃ path ∈ groups.flatten, opens lib path = true := by
          by_contra hnone
          refine hzero (hscanned.mpr fun path hpath => ?_)
          exact Bool.eq_false_iff.mpr fun hopen => hnone ⟨path, hpath, hopen⟩
        refine .of_completed hledger hsupplied hcap htruncated (Or.inr ⟨_, rfl, nofun⟩)
          (iff_of_true ⟨_, rfl⟩ ⟨hopen, hempty, ?_⟩) ?_ (iff_of_false (by rintro ⟨message, ⟨⟩⟩) hformat)
        · -- an expression that compiled for no opened file would be a format error
          by_cases habsent : m.expression = none
          · exact Or.inl habsent
          · right
            by_contra hnever
            obtain ⟨path, hpath, hopen⟩ := hopen
            obtain ⟨b, hb⟩ := exists_expressionCompiles habsent hopen
            cases b with
            | true => exact hnever ⟨path, hpath, hb⟩
            | false => exact hformat ⟨fun path' hpath' h => hnever ⟨path', hpath', h⟩, path, hpath, hb⟩
        · refine iff_of_false nofun fun hclosed => ?_
          obtain ⟨path, hpath, hopen⟩ := hopen
          rw [hclosed path hpath] at hopen
          cases hopen
  · obtain ⟨w, trace, hw⟩ := List.exists_cons_of_ne_nil hempty
    obtain ⟨path, hpath, hopens, hcompiles⟩ := exists_file_of_matching
      (hsupplied.mem (w := w) (by rw [hw]; exact List.mem_cons_self))
    have hpackets : ¬ (st.shared.stats.packets = 0 ∧ st.shared.stats.truncated = false) := by
      rw [hledger.packets, hw]
      simp
    rw [if_neg hpackets]
    refine .of_completed hledger hsupplied hcap htruncated (Or.inl rfl) ?_ ?_ ?_
    · exact iff_of_false (by rintro ⟨stats, ⟨⟩⟩) fun h => hempty h.2.1
    · refine iff_of_false nofun fun hclosed => ?_
      rw [hclosed path hpath] at hopens
      cases hopens
    · refine iff_of_false (by rintro ⟨message, ⟨⟩⟩) ?_
      rintro ⟨hnever, path', -, hrejects⟩
      rcases hcompiles with habsent | hcompiles
      · have hgiven := (expressionCompiles_eq_some hrejects).1
        rw [habsent] at hgiven
        cases hgiven
      · exact hnever path hpath hcompiles

omit [ToString Path] in
/-- The end of `fetch` after the merge loop has been left. -/
theorem Accounting.of_break {st : MergeState Path ω}
    (h : TurnAccount o lib m limits groups before .break st) :
    Accounting o lib m limits groups before ((finish m st.shared).mapError .error) st := by
  have hstopped : ∀ stop, st.shared.ctl.stopped = some stop →
      Ledger o limits before st.written st.outputLinktype st.shared → Supplied lib m groups st.written [] →
      st.shared.stats.truncated = false →
      Accounting o lib m limits groups before ((finish m st.shared).mapError .error) st := by
    intro stop hstop hledger hsupplied htruncated
    unfold finish
    rw [hstop]
    match stop with
    | .cancelled =>
        refine .of_stopped hledger hsupplied rfl rfl ?_ fun h => absurd hstop h
        rw [htruncated, hstop]
        simp
    | .deadline =>
        show Accounting o lib m limits groups before (.ok { st.shared.stats with truncated := true }) st
        refine .of_stopped hledger hsupplied rfl rfl ?_ fun _ => rfl
        rw [hstop]
        simp
  cases h with
  | drained _ hledger hsupplied hstock hheap =>
      cases hstop : st.shared.ctl.stopped with
      | some stop => exact hstopped stop hstop hledger hsupplied.written hstock.truncated
      | none =>
          obtain ⟨hpending, paths, hcounted, hperm⟩ := hstock.counted hheap hstop
          exact .of_drained hledger hsupplied.written hstop hpending hstock.truncated hcounted hperm
  | stopped _ hledger hsupplied htruncated hstop =>
      obtain ⟨stop, hstop⟩ := Option.isSome_iff_exists.mp hstop
      exact hstopped stop hstop hledger hsupplied.written htruncated

theorem fetchMerge_accounting (o : Output ω) (env : Env) (lib : Libpcap Path) (m : Matcher) (limits : Limits)
    (groups : List (List Path)) (out : ω) :
    Accounting o lib m limits groups (o.contents out) (fetchMerge env lib m limits groups out).1
      (fetchMerge env lib m limits groups out).2 := by
  have hsupplied : Supplied lib m [] (MergeState.start limits out : MergeState Path ω).written
      (MergeState.start limits out : MergeState Path ω).cursors := List.Subperm.refl _
  unfold fetchMerge
  split
  · rename_i err st hopen
    obtain ⟨e, rfl, hcause⟩ := openCursors_error hopen
    obtain ⟨hwritten, -⟩ := Stock.openCursors (.start lib m limits out) hsupplied (.start o limits out) hopen
    refine .of_io ?_ ?_ hcause
    · rw [hwritten]
      exact fun _ => Nat.zero_le _
    · rw [hwritten]
      exact List.nil_subperm
  · rename_i st hopen
    obtain ⟨-, hopened⟩ := Stock.openCursors (.start lib m limits out) hsupplied (.start o limits out) hopen
    obtain ⟨hstock, hsupplied', hledger⟩ := hopened rfl
    split
    · rename_i result st' hloop
      rcases TurnAccount.mergeLoop hstock hsupplied' hledger hloop with
        ⟨hnone, -⟩ | ⟨stats, hreturn, hturn⟩ | ⟨fault, hfault, hturn⟩
      · cases hnone
      · obtain rfl := Option.some.inj hreturn
        cases hturn with
        | cut _ hledger' hsupplied₁ htruncated hstop hcap =>
            refine .of_stopped hledger' hsupplied₁.written rfl rfl ?_ fun _ => htruncated
            exact iff_of_true htruncated (Or.inr ⟨hstop, hcap⟩)
      · obtain rfl := Option.some.inj hfault
        cases hturn with
        | io e _ hcap hsupplied₁ hcause => exact .of_io hcap hsupplied₁ hcause
    · rename_i st' hloop
      rcases TurnAccount.mergeLoop hstock hsupplied' hledger hloop with
        ⟨-, hturn⟩ | ⟨stats, hreturn, -⟩ | ⟨fault, hfault, -⟩
      · exact .of_break hturn
      · cases hreturn
      · cases hfault

/-- The accounts of a fetch whose flow filter, if it has one, compiles for Ethernet. -/
theorem fetch_accounting (o : Output ω) (env : Env) (lib : Libpcap Path) (request : PcapRequest)
    (groups : List (List Path)) (out : ω) {flow : Option (String × String)}
    (hflow : flowExpressions lib request = .ok flow) :
    Accounting o lib (request.matcher flow) request.limits groups (o.contents out)
      (fetch env lib (.ok groups) request out).1 (fetch env lib (.ok groups) request out).2 := by
  unfold fetch
  rw [hflow]
  dsimp only
  split
  · rename_i hempty
    have hnone : groups.flatten = [] := by
      refine List.flatten_eq_nil_iff.mpr fun files hfiles => ?_
      exact List.isEmpty_iff.mp (List.all_eq_true.mp hempty files hfiles)
    have hnever : ∀ P : Path → Prop, ¬ ∃ path ∈ groups.flatten, P path := by
      rintro P ⟨path, hpath, -⟩
      rw [hnone] at hpath
      cases hpath
    have hcap : ¬ ((MergeState.start request.limits out : MergeState Path ω).shared.ctl.stopped =
        some .deadline ∨ (MergeState.start request.limits out : MergeState Path ω).shared.ctl.stopped = none ∧
          CapMet lib (request.matcher flow) request.limits groups (.start request.limits out)) := by
      rintro (hdeadline | ⟨-, i, c, p, hc, -⟩)
      · cases hdeadline
      · cases hc
    refine .of_completed (.start o request.limits out) List.nil_subperm hcap rfl (Or.inr ⟨_, rfl, nofun⟩) ?_ ?_ ?_
    · exact iff_of_false (by rintro ⟨stats, ⟨⟩⟩) fun h => hnever _ h.1
    · refine iff_of_true rfl fun path hpath => ?_
      rw [hnone] at hpath
      cases hpath
    · exact iff_of_false (by rintro ⟨message, ⟨⟩⟩) fun h => hnever _ h.2
  · exact fetchMerge_accounting o env lib _ _ _ out

end

/-- Captures of one packet of one byte, too short for any flow filter. -/
def shortCaptures : Libpcap ℕ where
  fromFile n := .ok ⟨.ethernet, [⟨⟨n + 1, 0, 1, 1⟩, [0]⟩]⟩
  compile _ _ := .ok fun _ data => decide (34 ≤ data.length)

/-- A flow between two hosts, over two groups and with a cap of 30 bytes. -/
theorem fetch_accounting_shortCaptures :
    let request : PcapRequest := ⟨some (.flow "host 10.16.1.11 and host 10.16.1.12"), none, some 5000000, ⟨30, none⟩⟩
    let m := request.matcher (some (vlanWrapped "host 10.16.1.11 and host 10.16.1.12",
      "host 10.16.1.11 and host 10.16.1.12"))
    Accounting Sink.vec.output shortCaptures m ⟨30, none⟩ [[0, 2], [1]] []
      (fetch .quiet shortCaptures (.ok [[0, 2], [1]]) request ([] : List UInt8)).1
      (fetch .quiet shortCaptures (.ok [[0, 2], [1]]) request ([] : List UInt8)).2 :=
  fetch_accounting Sink.vec.output .quiet shortCaptures _ [[0, 2], [1]] [] rfl

end EveBox.Pcap
