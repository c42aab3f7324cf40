import EveBox.Pcap.Fetch

/-!
# What the fetch reports

However the fetch ends, its report agrees with its output: `fetch_outcome`. The byte count of a result is
the number of bytes written, an empty result says why it is empty, and an error that stands for an empty
result comes without output. `Tracked` is kept by every step that lets the fetch go on.
-/

namespace EveBox.Pcap

open Rust

section

variable {ω : Type*} [Write ω] (o : Output ω)

/-- A packet that is written is appended to the output. -/
theorem PcapWriter.writePacket_appends {w w' : PcapWriter ω} {linktype : Linktype} {pkt : Packet}
    (h : w.writePacket linktype pkt = (.ok (), w')) (hintact : o.intact w'.out) :
    o.intact w.out ∧ ∃ bytes, bytes ≠ [] ∧ o.contents w'.out = o.contents w.out ++ bytes ∧
      w'.bytes = w.bytes + bytes.length := by
  unfold writePacket at h
  split at h
  · cases h
  · rename_i w₁ hheader
    dsimp only at h
    split at h
    · cases h
    · rename_i out hwrite
      cases h
      obtain ⟨hintact₁, hcontents⟩ := o.writeAll _ _ _ hwrite hintact
      have hrecord := createRecordRaw_length (asU32 pkt.header.tvSec) (asU32 pkt.header.tvUsec)
        pkt.header.len pkt.data
      have hne : createRecordRaw (asU32 pkt.header.tvSec) (asU32 pkt.header.tvUsec) pkt.header.len
          pkt.data ≠ [] := by
        intro hnil
        rw [hnil, List.length_nil, pcapRecordHeaderSize] at hrecord
        omega
      unfold writeHeader at hheader
      split at hheader
      · cases hheader
        exact ⟨hintact₁, _, hne, hcontents, rfl⟩
      · dsimp only at hheader
        split at hheader
        · cases hheader
        · rename_i out₀ hwrite₀
          cases hheader
          obtain ⟨hintact₀, hcontents₀⟩ := o.writeAll _ _ _ hwrite₀ hintact₁
          refine ⟨hintact₀, createHeader (asU32 linktype.dlt) ++ createRecordRaw _ _ _ _,
            List.append_ne_nil_of_right_ne_nil _ hne, ?_, ?_⟩
          · rw [hcontents, hcontents₀, List.append_assoc]
          · rw [List.length_append]
            dsimp only
            omega

/-- The statistics agree with what has been written behind `before`. -/
structure Tracked (before : List UInt8) (sh : Shared ω) : Prop where
  wrote : o.intact sh.writer.out → ∃ w, o.contents sh.writer.out = before ++ w ∧
    w.length = sh.writer.bytes
  bytes : sh.stats.bytes = sh.writer.bytes
  packets : sh.stats.packets = 0 ↔ sh.writer.bytes = 0
  truncated : sh.stats.truncated = false

variable {o} {before : List UInt8} {sh sh' : Shared ω}

/-- What the tracking looks at. -/
theorem Tracked.congr (h : Tracked o before sh) (hwriter : sh'.writer = sh.writer)
    (hbytes : sh'.stats.bytes = sh.stats.bytes) (hpackets : sh'.stats.packets = sh.stats.packets)
    (htruncated : sh'.stats.truncated = sh.stats.truncated) : Tracked o before sh' where
  wrote := by
    rw [hwriter]
    exact h.wrote
  bytes := by rw [hbytes, hwriter, h.bytes]
  packets := by rw [hpackets, hwriter, h.packets]
  truncated := htruncated.trans h.truncated

theorem maybeFlush_tracked {env : Env} (h : Tracked o before sh)
    (hflush : maybeFlush env sh = (.ok (), sh')) : Tracked o before sh' := by
  unfold maybeFlush at hflush
  split at hflush
  · split at hflush
    rename_i r writer hwriter
    cases hflush
    unfold PcapWriter.flush at hwriter
    split at hwriter
    rename_i r' out hout
    cases hwriter
    refine ⟨?_, h.bytes, h.packets, h.truncated⟩
    intro hintact
    obtain ⟨hintact₀, hcontents⟩ := o.flush _ _ hout hintact
    obtain ⟨w, hw, hlength⟩ := h.wrote hintact₀
    exact ⟨w, hcontents.trans hw, hlength⟩
  · cases hflush
    exact h.congr rfl rfl rfl rfl

theorem refillTurn_tracked {env : Env} {b : Bool} (h : Tracked o before sh)
    (hturn : refillTurn env sh = (.ok b, sh')) : Tracked o before sh' := by
  unfold refillTurn at hturn
  split at hturn
  · cases hturn
    exact h.congr rfl rfl rfl rfl
  · rename_i ctl hlive
    split at hturn
    · cases hturn
    · rename_i sh₁ hflush
      cases hturn
      have h₁ : Tracked o before { sh with ctl := ctl } := h.congr rfl rfl rfl rfl
      exact maybeFlush_tracked h₁ hflush

/-- Some call on the output fails. -/
def OutputFails (ω : Type*) [Write ω] : Prop :=
  ∃ (out : ω) (e : IoError), (∃ bytes, (Write.writeAll bytes out).1 = .error e) ∨
    (Write.flush out).1 = .error e

theorem refillTurn_error {env : Env} {err : FetchError} (h : refillTurn env sh = (.error err, sh')) :
    ∃ e, err = .io e ∧ OutputFails ω := by
  unfold refillTurn at h
  split at h
  · cases h
  · rename_i ctl hlive
    split at h
    · rename_i e sh₁ hflush
      cases h
      unfold maybeFlush at hflush
      split at hflush
      · split at hflush
        rename_i r writer hwriter
        cases hflush
        refine ⟨_, rfl, sh.writer.out, e, Or.inr ?_⟩
        exact congrArg Prod.fst hwriter
      · cases hflush
    · cases h

end

section

variable {Path ω : Type*} [ToString Path]

/-- Opening a file touches neither the writer nor the counts of what is written. -/
theorem openGroupFile_ok {lib : Libpcap Path} {m : Matcher} {path : Path} {sh sh' : Shared ω}
    {r : Option (OpenCapture Path)} (h : openGroupFile lib m path sh = (.ok r, sh')) :
    sh'.writer = sh.writer ∧ sh'.stats.bytes = sh.stats.bytes ∧
      sh'.stats.packets = sh.stats.packets ∧ sh'.stats.truncated = sh.stats.truncated := by
  unfold openGroupFile at h
  split at h
  · split at h <;> cases h
    exact ⟨rfl, rfl, rfl, rfl⟩
  · dsimp only at h
    split at h <;> cases h <;> exact ⟨rfl, rfl, rfl, rfl⟩

/-- Opening the file runs into descriptor exhaustion. -/
def Exhausts (lib : Libpcap Path) (path : Path) : Prop :=
  ∃ err, lib.fromFile path = .error err ∧ fdExhausted err = true

/-- What can make a fetch over the files fail: an output that fails, or a lack of descriptors. -/
def IoCause (ω : Type*) [Write ω] (lib : Libpcap Path) (files : List Path) : Prop :=
  OutputFails ω ∨ ∃ path ∈ files, Exhausts lib path

omit [ToString Path] in
theorem IoCause.mono [Write ω] {lib : Libpcap Path} {files files' : List Path}
    (h : IoCause ω lib files) (hsub : files ⊆ files') : IoCause ω lib files' := by
  rcases h with hfails | ⟨path, hpath, hexhausts⟩
  · exact Or.inl hfails
  · exact Or.inr ⟨path, hsub hpath, hexhausts⟩

omit [ToString Path] in
theorem IoCause.output [Write ω] {lib : Libpcap Path} {files : List Path} {err : FetchError}
    (h : ∃ e, err = .io e ∧ OutputFails ω) : ∃ e, err = .io e ∧ IoCause ω lib files := by
  obtain ⟨e, herr, hfails⟩ := h
  exact ⟨e, herr, Or.inl hfails⟩

theorem openGroupFile_error {lib : Libpcap Path} {m : Matcher} {path : Path} {sh sh' : Shared ω}
    {err : FetchError} (h : openGroupFile lib m path sh = (.error err, sh')) :
    ∃ e, err = .io e ∧ Exhausts lib path := by
  unfold openGroupFile at h
  split at h
  · rename_i e hfile
    split at h
    · rename_i hfd
      cases h
      exact ⟨_, rfl, e, hfile, hfd⟩
    · cases h
  · dsimp only at h
    split at h <;> cases h

variable [Write ω] {o : Output ω} {before : List UInt8} {env : Env} {lib : Libpcap Path} {m : Matcher}

omit [ToString Path] in
theorem scanOpen_tracked {c : OpenCapture Path} {rest : List Packet} {sh sh' : Shared ω}
    {r : Scan Path} (h : Tracked o before sh) (hscan : scanOpen env m c rest sh = (.ok r, sh')) :
    Tracked o before sh' := by
  induction rest generalizing sh with
  | nil =>
      unfold scanOpen at hscan
      split at hscan
      · cases hscan
      · rename_i sh₁ hturn
        cases hscan
        exact refillTurn_tracked h hturn
      · rename_i sh₁ hturn
        cases hscan
        exact refillTurn_tracked h hturn
  | cons pkt rest ih =>
      unfold scanOpen at hscan
      split at hscan
      · cases hscan
      · rename_i sh₁ hturn
        cases hscan
        exact refillTurn_tracked h hturn
      · rename_i sh₁ hturn
        have h₁ : Tracked o before sh₁ := refillTurn_tracked h hturn
        dsimp only at hscan
        split at hscan
        · cases hscan
          exact h₁
        · exact ih h₁ hscan

omit [ToString Path] in
theorem scanOpen_error {c : OpenCapture Path} {rest : List Packet} {sh sh' : Shared ω}
    {err : FetchError} (hscan : scanOpen env m c rest sh = (.error err, sh')) :
    ∃ e, err = .io e ∧ OutputFails ω := by
  induction rest generalizing sh with
  | nil =>
      unfold scanOpen at hscan
      split at hscan
      · rename_i err' sh₁ hturn
        cases hscan
        exact refillTurn_error hturn
      · cases hscan
      · cases hscan
  | cons pkt rest ih =>
      unfold scanOpen at hscan
      split at hscan
      · rename_i err' sh₁ hturn
        cases hscan
        exact refillTurn_error hturn
      · cases hscan
      · dsimp only at hscan
        split at hscan
        · cases hscan
        · exact ih hscan

theorem refillFiles_tracked {files : List Path} {sh sh' : Shared ω} {c : GroupCursor Path}
    (h : Tracked o before sh) (hrefill : refillFiles env lib m files sh = (.ok c, sh')) :
    Tracked o before sh' := by
  induction files generalizing sh with
  | nil =>
      unfold refillFiles at hrefill
      split at hrefill
      · cases hrefill
      · rename_i sh₁ hturn
        cases hrefill
        exact refillTurn_tracked h hturn
      · rename_i sh₁ hturn
        cases hrefill
        exact refillTurn_tracked h hturn
  | cons path files ih =>
      unfold refillFiles at hrefill
      split at hrefill
      · cases hrefill
      · rename_i sh₁ hturn
        cases hrefill
        exact refillTurn_tracked h hturn
      · rename_i sh₁ hturn
        have h₁ : Tracked o before sh₁ := refillTurn_tracked h hturn
        dsimp only at hrefill
        split at hrefill
        · cases hrefill
        · rename_i sh₂ hopen
          obtain ⟨hw, hb, hp, ht⟩ := openGroupFile_ok hopen
          exact ih (h₁.congr hw hb hp ht) hrefill
        · rename_i c' sh₂ hopen
          obtain ⟨hw, hb, hp, ht⟩ := openGroupFile_ok hopen
          have h₂ : Tracked o before sh₂ := h₁.congr hw hb hp ht
          split at hrefill
          · cases hrefill
          · rename_i sh₃ hscan
            exact ih (scanOpen_tracked h₂ hscan) hrefill
          · rename_i hscan
            cases hrefill
            exact scanOpen_tracked h₂ hscan
          · rename_i hscan
            cases hrefill
            exact scanOpen_tracked h₂ hscan

theorem refillFiles_error {files : List Path} {sh sh' : Shared ω} {err : FetchError}
    (hrefill : refillFiles env lib m files sh = (.error err, sh')) :
    ∃ e, err = .io e ∧ IoCause ω lib files := by
  induction files generalizing sh with
  | nil =>
      unfold refillFiles at hrefill
      split at hrefill
      · rename_i hturn
        cases hrefill
        exact IoCause.output (refillTurn_error hturn)
      · cases hrefill
      · cases hrefill
  | cons path files ih =>
      have hlater : ∀ {sh₁ : Shared ω}, refillFiles env lib m files sh₁ = (.error err, sh') →
          ∃ e, err = .io e ∧ IoCause ω lib (path :: files) := by
        intro sh₁ hrefill₁
        obtain ⟨e, rfl, hcause⟩ := ih hrefill₁
        exact ⟨e, rfl, hcause.mono (List.subset_cons_self _ _)⟩
      unfold refillFiles at hrefill
      split at hrefill
      · rename_i hturn
        cases hrefill
        exact IoCause.output (refillTurn_error hturn)
      · cases hrefill
      · dsimp only at hrefill
        split at hrefill
        · rename_i hopen
          cases hrefill
          obtain ⟨e, rfl, hexhausts⟩ := openGroupFile_error hopen
          exact ⟨e, rfl, Or.inr ⟨path, List.mem_cons_self, hexhausts⟩⟩
        · exact hlater hrefill
        · split at hrefill
          · rename_i hscan
            cases hrefill
            exact IoCause.output (scanOpen_error hscan)
          · exact hlater hrefill
          · cases hrefill
          · cases hrefill

/-- A refill that returns keeps the tracking. -/
theorem GroupCursor.refill_tracked {c c' : GroupCursor Path} {sh sh' : Shared ω}
    (h : Tracked o before sh) (hrefill : c.refill env lib m sh = (.ok c', sh')) :
    Tracked o before sh' := by
  unfold refill at hrefill
  split at hrefill
  · exact refillFiles_tracked h hrefill
  · split at hrefill
    · cases hrefill
    · rename_i sh₁ hscan
      exact refillFiles_tracked (scanOpen_tracked h hscan) hrefill
    · rename_i hscan
      cases hrefill
      exact scanOpen_tracked h hscan
    · rename_i hscan
      cases hrefill
      exact scanOpen_tracked h hscan

/-- A refill that fails does so with an I/O error. -/
theorem GroupCursor.refill_error {c : GroupCursor Path} {sh sh' : Shared ω} {err : FetchError}
    (hrefill : c.refill env lib m sh = (.error err, sh')) :
    ∃ e, err = .io e ∧ IoCause ω lib c.files := by
  unfold refill at hrefill
  split at hrefill
  · exact refillFiles_error hrefill
  · split at hrefill
    · rename_i hscan
      cases hrefill
      exact IoCause.output (scanOpen_error hscan)
    · exact refillFiles_error hrefill
    · cases hrefill
    · cases hrefill

/-! ## The merge -/

theorem refillAndPush_tracked {index : ℕ} {cursor : GroupCursor Path} {st st' : MergeState Path ω}
    (h : Tracked o before st.shared)
    (hrefill : refillAndPush env lib m index cursor st = (.next, st')) :
    Tracked o before st'.shared := by
  unfold refillAndPush at hrefill
  split at hrefill
  · cases hrefill
  · rename_i hcursor
    cases hrefill
    exact GroupCursor.refill_tracked h hcursor

/-- How the refill of a popped cursor can leave the loop. -/
theorem refillAndPush_turn {index : ℕ} {cursor : GroupCursor Path} {st st' : MergeState Path ω}
    {turn : Turn} (hrefill : refillAndPush env lib m index cursor st = (turn, st')) :
    turn = .next ∨ ∃ e, turn = .fault (.error (.io e)) := by
  unfold refillAndPush at hrefill
  split at hrefill
  · rename_i hcursor
    cases hrefill
    obtain ⟨e, rfl, -⟩ := GroupCursor.refill_error hcursor
    exact Or.inr ⟨e, rfl⟩
  · cases hrefill
    exact Or.inl rfl

variable {limits : Limits}

omit [ToString Path] in
theorem writePending_tracked {index : ℕ} {packet : PendingPacket} {st st' : MergeState Path ω}
    (h : Tracked o before st.shared) (hwrite : writePending limits index packet st = (.next, st')) :
    Tracked o before st'.shared := by
  unfold writePending at hwrite
  dsimp only at hwrite
  split at hwrite
  · cases hwrite
  · split at hwrite
    · cases hwrite
    · rename_i writer hpacket
      cases hwrite
      have hpos : 0 < st.shared.writer.nextWriteSize packet.data.length := by
        unfold PcapWriter.nextWriteSize pcapRecordHeaderSize
        split <;> omega
      have hbytes := (PcapWriter.writePacket_ok hpacket).1
      refine ⟨?_, rfl, ?_, h.truncated⟩
      · intro hintact
        obtain ⟨hintact₀, bytes, -, hcontents, hlength⟩ :=
          PcapWriter.writePacket_appends o hpacket hintact
        obtain ⟨w, hw, hwlength⟩ := h.wrote hintact₀
        refine ⟨w ++ bytes, ?_, ?_⟩
        · dsimp only
          rw [hcontents, hw, List.append_assoc]
        · dsimp only
          rw [List.length_append, hwlength, hlength]
      · show st.shared.stats.packets + 1 = 0 ↔ writer.bytes = 0
        have hne : writer.bytes ≠ 0 := by
          rw [hbytes]
          exact Nat.ne_of_gt (Nat.add_pos_right _ hpos)
        exact iff_of_false (Nat.succ_ne_zero _) hne

omit [ToString Path] in
/-- How the write of a popped packet can leave the loop. -/
theorem writePending_turn {index : ℕ} {packet : PendingPacket} {st st' : MergeState Path ω}
    {turn : Turn} (hwrite : writePending limits index packet st = (turn, st')) :
    turn = .next ∨ (∃ e, turn = .fault (.error (.io e))) ∨
      ∃ stats, turn = .return stats ∧ stats = { st.shared.stats with truncated := true } ∧
        st'.shared.writer = st.shared.writer ∧ st'.shared.stats = stats := by
  unfold writePending at hwrite
  dsimp only at hwrite
  split at hwrite
  · cases hwrite
    exact Or.inr (Or.inr ⟨_, rfl, rfl, rfl, rfl⟩)
  · split at hwrite
    · cases hwrite
      exact Or.inr (Or.inl ⟨_, rfl⟩)
    · cases hwrite
      exact Or.inl rfl

/-- What a turn of the merge loop leaves: the tracking, an I/O error, a panic, or the result of a capture
cut short. -/
inductive TurnOutcome (o : Output ω) (before : List UInt8) : Turn → MergeState Path ω → Prop
  | next (st : MergeState Path ω) (h : Tracked o before st.shared) : TurnOutcome o before .next st
  | break (st : MergeState Path ω) (h : Tracked o before st.shared) : TurnOutcome o before .break st
  | io (e : IoError) (st : MergeState Path ω) : TurnOutcome o before (.fault (.error (.io e))) st
  | panic (message : String) (st : MergeState Path ω) :
      TurnOutcome o before (.fault (.panic message)) st
  | cut (stats : FetchStats) (st : MergeState Path ω) (htruncated : stats.truncated = true)
      (hbytes : stats.bytes = st.shared.writer.bytes)
      (hwrote : o.intact st.shared.writer.out →
        ∃ w, o.contents st.shared.writer.out = before ++ w ∧ w.length = st.shared.writer.bytes) :
      TurnOutcome o before (.return stats) st

theorem refillAndPush_outcome {index : ℕ} {cursor : GroupCursor Path} {st st' : MergeState Path ω}
    {turn : Turn} (h : Tracked o before st.shared)
    (hrefill : refillAndPush env lib m index cursor st = (turn, st')) :
    TurnOutcome o before turn st' := by
  rcases refillAndPush_turn hrefill with rfl | ⟨e, rfl⟩
  · exact .next st' (refillAndPush_tracked h hrefill)
  · exact .io e st'

theorem handlePopped_outcome {index : ℕ} {st st' : MergeState Path ω} {turn : Turn}
    (h : Tracked o before st.shared) (hpopped : handlePopped env lib m limits index st = (turn, st')) :
    TurnOutcome o before turn st' := by
  unfold handlePopped at hpopped
  split at hpopped
  · cases hpopped
    exact .panic _ _
  · split at hpopped
    · cases hpopped
      exact .panic _ _
    · dsimp only at hpopped
      split at hpopped
      · exact refillAndPush_outcome h hpopped
      · split at hpopped
        · rename_i st₁ hwrite
          exact refillAndPush_outcome (writePending_tracked h hwrite) hpopped
        · rename_i hne
          rcases writePending_turn hpopped with rfl | ⟨e, rfl⟩ | ⟨stats, rfl, rfl, hwriter, -⟩
          · exact absurd hpopped (hne st')
          · exact .io e st'
          · refine .cut _ st' rfl ?_ ?_
            · rw [hwriter]
              exact h.bytes
            · rw [hwriter]
              exact h.wrote

theorem mergeTurn_outcome {st st' : MergeState Path ω} {turn : Turn} (h : Tracked o before st.shared)
    (hturn : mergeTurn env lib m limits st = (turn, st')) : TurnOutcome o before turn st' := by
  unfold mergeTurn at hturn
  split at hturn
  · cases hturn
    exact .break _ h
  · split at hturn
    · rename_i hrefill
      cases hturn
      obtain ⟨e, rfl, -⟩ := refillTurn_error hrefill
      exact .io e _
    · rename_i sh hrefill
      cases hturn
      have h₁ : Tracked o before sh := refillTurn_tracked h hrefill
      exact .break _ h₁
    · rename_i sh hrefill
      have h₁ : Tracked o before sh := refillTurn_tracked h hrefill
      exact handlePopped_outcome h₁ hturn

/-- How the whole fetch can end. -/
inductive Outcome (o : Output ω) (before : List UInt8) :
    Except Fault FetchStats → Shared ω → Prop
  /-- With a result. -/
  | ok (stats : FetchStats) (sh : Shared ω)
      (hwrote : o.intact sh.writer.out →
        ∃ w, o.contents sh.writer.out = before ++ w ∧ stats.bytes = w.length)
      (hempty : stats.bytes = 0 → stats.truncated = true ∨ sh.ctl.stopped = some .cancelled) :
      Outcome o before (.ok stats) sh
  /-- With an error that says that there is nothing to write. -/
  | empty (err : FetchError) (sh : Shared ω)
      (hwrote : o.intact sh.writer.out → o.contents sh.writer.out = before) :
      Outcome o before (.error (.error err)) sh
  /-- With an I/O error. -/
  | io (e : IoError) (sh : Shared ω) : Outcome o before (.error (.error (.io e))) sh
  | panic (message : String) (sh : Shared ω) : Outcome o before (.error (.panic message)) sh

/-- The end of `fetch`. -/
theorem finish_outcome {sh : Shared ω} (h : Tracked o before sh) :
    Outcome o before ((finish m sh).mapError .error) sh := by
  have hok : ∀ stats : FetchStats, stats.bytes = sh.stats.bytes →
      (stats.bytes = 0 → stats.truncated = true ∨ sh.ctl.stopped = some .cancelled) →
        Outcome o before (.ok stats) sh := by
    intro stats hbytes hempty
    refine .ok stats sh ?_ hempty
    intro hintact
    obtain ⟨w, hw, hlength⟩ := h.wrote hintact
    exact ⟨w, hw, by rw [hbytes, h.bytes, hlength]⟩
  have hempty : ∀ err, sh.stats.packets = 0 → Outcome o before (.error (.error err)) sh := by
    intro err hpackets
    refine .empty err sh ?_
    intro hintact
    obtain ⟨w, hw, hlength⟩ := h.wrote hintact
    rw [h.packets.mp hpackets, List.length_eq_zero_iff] at hlength
    rw [hw, hlength, List.append_nil]
  unfold finish
  split
  · rename_i hstopped
    exact hok _ rfl fun _ => Or.inr hstopped
  · exact hok { sh.stats with truncated := true } rfl fun _ => Or.inl rfl
  · split
    · rename_i hpackets
      split
      · exact hempty _ hpackets.1
      · split
        · exact hempty _ hpackets.1
        · exact hempty _ hpackets.1
    · rename_i hpackets
      refine hok _ rfl ?_
      intro hbytes
      have hzero : sh.stats.packets = 0 := h.packets.mpr (h.bytes ▸ hbytes)
      exact absurd ⟨hzero, h.truncated⟩ hpackets

/-- The merge loop, and the end of `fetch` after a `break`. -/
theorem mergeLoop_outcome {st st' : MergeState Path ω} {r : Option (Except Fault FetchStats)}
    (h : Tracked o before st.shared) (hloop : mergeLoop env lib m limits st = (r, st')) :
    (r = none ∧ Tracked o before st'.shared) ∨ ∃ e, r = some e ∧ Outcome o before e st'.shared := by
  rw [mergeLoop] at hloop
  split at hloop
  · rename_i st₁ hturn
    have hlt := mergeTurn_weight hturn
    cases mergeTurn_outcome h hturn with
    | next _ h₁ => exact mergeLoop_outcome h₁ hloop
  · rename_i st₁ hturn
    cases hloop
    cases mergeTurn_outcome h hturn with
    | «break» _ h₁ => exact Or.inl ⟨rfl, h₁⟩
  · rename_i stats st₁ hturn
    cases hloop
    cases mergeTurn_outcome h hturn with
    | cut _ _ htruncated hbytes hwrote =>
        refine Or.inr ⟨_, rfl, .ok stats _ ?_ fun _ => Or.inl htruncated⟩
        intro hintact
        obtain ⟨w, hw, hlength⟩ := hwrote hintact
        exact ⟨w, hw, by rw [hbytes, hlength]⟩
  · rename_i fault st₁ hturn
    cases hloop
    cases mergeTurn_outcome h hturn with
    | io e _ => exact Or.inr ⟨_, rfl, .io e _⟩
    | panic message _ => exact Or.inr ⟨_, rfl, .panic message _⟩
termination_by cursorsWeight lib st.cursors

theorem openCursors_tracked {groups : List (List Path)} {index : ℕ} {st st' : MergeState Path ω}
    (h : Tracked o before st.shared) (hopen : openCursors env lib m index groups st = (.ok (), st')) :
    Tracked o before st'.shared := by
  induction groups generalizing index st with
  | nil =>
      cases hopen
      exact h
  | cons files groups ih =>
      unfold openCursors at hopen
      split at hopen
      · cases hopen
      · rename_i cursor sh hrefill
        have h₁ : Tracked o before sh := GroupCursor.refill_tracked h hrefill
        exact ih h₁ hopen

theorem openCursors_error {groups : List (List Path)} {index : ℕ} {st st' : MergeState Path ω}
    {err : FetchError} (hopen : openCursors env lib m index groups st = (.error err, st')) :
    ∃ e, err = .io e ∧ IoCause ω lib groups.flatten := by
  induction groups generalizing index st with
  | nil => cases hopen
  | cons files groups ih =>
      rw [List.flatten_cons]
      unfold openCursors at hopen
      split at hopen
      · rename_i hrefill
        cases hopen
        obtain ⟨e, rfl, hcause⟩ := GroupCursor.refill_error hrefill
        exact ⟨e, rfl, hcause.mono (List.subset_append_left _ _)⟩
      · obtain ⟨e, rfl, hcause⟩ := ih hopen
        exact ⟨e, rfl, hcause.mono (List.subset_append_right _ _)⟩

omit [ToString Path] in
/-- When the fetch starts, nothing has been written. -/
theorem Tracked.start (o : Output ω) (limits : Limits) (out : ω) :
    Tracked o (o.contents out) (MergeState.start limits out : MergeState Path ω).shared where
  wrote _ := ⟨[], (List.append_nil _).symm, rfl⟩
  bytes := rfl
  packets := Iff.rfl
  truncated := rfl

/-- However the fetch ends, its report agrees with its output. -/
theorem fetch_outcome (o : Output ω) (candidates : Except IoError (List (List Path)))
    (request : PcapRequest) (out : ω) :
    Outcome o (o.contents out) (fetch env lib candidates request out).1
      (fetch env lib candidates request out).2.shared := by
  have hstart : ∀ err, Outcome o (o.contents out) (.error (.error err))
      (MergeState.start request.limits out : MergeState Path ω).shared :=
    fun err => .empty err _ fun _ => rfl
  unfold fetch
  split
  · exact hstart _
  · split
    · exact hstart _
    · split
      · exact hstart _
      · rename_i flow groups hnonempty
        have h₀ : Tracked o (o.contents out)
            (MergeState.start request.limits out : MergeState Path ω).shared :=
          .start o request.limits out
        unfold fetchMerge
        split
        · rename_i err st hopen
          obtain ⟨e, rfl, -⟩ := openCursors_error hopen
          exact .io e _
        · rename_i st hopen
          have h₁ := openCursors_tracked h₀ hopen
          split
          · rename_i r st' hloop
            rcases mergeLoop_outcome h₁ hloop with ⟨hnone, -⟩ | ⟨r', hr', houtcome⟩
            · cases hnone
            · cases hr'
              exact houtcome
          · rename_i st' hloop
            rcases mergeLoop_outcome h₁ hloop with ⟨-, h₂⟩ | ⟨r', hr', -⟩
            · exact finish_outcome h₂
            · cases hr'

end

end EveBox.Pcap
