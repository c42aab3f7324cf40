import EveBox.Pcap.Writer
import Mathlib.Data.List.Infix
import Mathlib.Data.Prod.Lex

/-!
# The blocking fetch

Reference: `src/pcap/fetch.rs` and `src/pcap/request.rs`.

The capture library and the file system are the parameter `Libpcap`: what opening a path yields, and
which programs a filter text compiles to. Time and cancellation are the parameter `Env`: what the
`n`-th look at the cancellation token, at the scan clock and at the flush timer sees.

The fetch walks lists of files, so every loop here is structural except the merge loop, which ends
because each turn uses up one matching packet.
-/

namespace EveBox.Pcap

open Rust

/-! ## Requests, statistics, errors -/

/-- `PcapFilter`. A flow selector enters the fetch only through its rendering, `selector.to_bpf()`. -/
inductive PcapFilter
  | expression (text : String)
  | flow (bpf : String)
deriving DecidableEq, Repr

/-- `Limits`. The flush interval is part of `Env.flushDue`. -/
structure Limits where
  maxBytes : ℕ
  deadline : Option ℕ
deriving DecidableEq, Repr

/-- `Limits::default`. -/
def Limits.default : Limits := ⟨u64Max, none⟩

/-- `PcapRequest`: the filter, the inclusive window in unix microseconds, the limits. -/
structure PcapRequest where
  filter : Option PcapFilter
  start : Option ℕ
  stop : Option ℕ
  limits : Limits
deriving DecidableEq, Repr

/-- `FetchStats`. -/
structure FetchStats where
  packets : ℕ := 0
  bytes : ℕ := 0
  filesScanned : ℕ := 0
  filesVanished : ℕ := 0
  truncated : Bool := false
  linktype : Option ℤ := none
deriving DecidableEq, Repr

/-- `FetchError`. -/
inductive FetchError
  | noCandidateFiles
  | noMatch (stats : FetchStats)
  | format (message : String)
  | io (err : IoError)
deriving DecidableEq, Repr

/-- How a call ends other than by returning its value: with an error, or with a panic. -/
inductive Fault
  | error (err : FetchError)
  | panic (message : String)
deriving DecidableEq, Repr

/-! ## Capture files -/

/-- A compiled BPF program as `bpf_matches` uses it. -/
abbrev BpfProgram := PacketHeader → List UInt8 → Bool

/-- A capture file: its link type and the records `next_packet` yields before its first error. -/
structure CaptureFile where
  linktype : Linktype
  records : List Packet

/-- Why a capture could not be opened. -/
structure OpenError where
  osError : Option ℕ
  message : String
deriving DecidableEq, Repr

/-- `fd_exhausted`: EMFILE or ENFILE, as an errno or as libpcap's text. -/
def fdExhausted (err : OpenError) : Bool :=
  err.osError = some 24 || err.osError = some 23 ||
    decide ("too many open files".toList <:+: err.message.toLower.toList)

/-- The capture library over a file system: `Capture::from_file` and `Capture::compile`. -/
structure Libpcap (Path : Type*) where
  fromFile : Path → Except OpenError CaptureFile
  compile : Linktype → String → Except String BpfProgram

/-- What the outside shows to the fetch. -/
structure Env where
  cancelled : ℕ → Bool
  /-- `started.elapsed().saturating_sub(write_credit)`: scan time, write and flush time credited back. -/
  scanTime : ℕ → ℕ
  flushDue : ℕ → Bool

/-! ## Stopping -/

/-- `Stop`. -/
inductive Stop
  | cancelled
  | deadline
deriving DecidableEq, Repr

/-- `Control`, with the number of looks taken so far in place of the clock. -/
structure Control where
  deadline : Option ℕ
  stopped : Option Stop
  polls : ℕ
deriving DecidableEq, Repr

/-- `Control::live`: false once the fetch should stop. -/
def Control.live (env : Env) (ctl : Control) : Bool × Control :=
  if ctl.stopped.isSome then (false, ctl)
  else if env.cancelled ctl.polls then
    (false, { ctl with stopped := some .cancelled, polls := ctl.polls + 1 })
  else
    match ctl.deadline with
    | some deadline =>
        if deadline ≤ env.scanTime ctl.polls then
          (false, { ctl with stopped := some .deadline, polls := ctl.polls + 1 })
        else (true, { ctl with polls := ctl.polls + 1 })
    | none => (true, { ctl with polls := ctl.polls + 1 })

/-- `BpfExprTracker`. -/
structure BpfExprTracker where
  compiledAny : Bool := false
  firstError : Option String := none
deriving DecidableEq, Repr

/-- `BpfExprTracker::compiled`. -/
def BpfExprTracker.compiled (t : BpfExprTracker) : BpfExprTracker := { t with compiledAny := true }

/-- `BpfExprTracker::failed`. -/
def BpfExprTracker.failed (t : BpfExprTracker) (err : String) : BpfExprTracker :=
  if t.firstError.isNone then { t with firstError := some err } else t

/-- What every cursor's refill shares: the `&mut` arguments of `GroupCursor::refill`. -/
structure Shared (ω : Type*) where
  ctl : Control
  bpfExprTracker : BpfExprTracker
  stats : FetchStats
  writer : PcapWriter ω
  /-- The number of times the flush timer has been looked at. -/
  flushes : ℕ

section

variable {ω : Type*} [Write ω]

/-- `Flusher::maybe_flush`. -/
def maybeFlush (env : Env) (sh : Shared ω) : Except IoError Unit × Shared ω :=
  if env.flushDue sh.flushes then
    match sh.writer.flush with
    | (r, writer) => (r, { sh with writer := writer, flushes := sh.flushes + 1 })
  else (.ok (), { sh with flushes := sh.flushes + 1 })

end

/-! ## Matching -/

/-- `Matcher`. -/
structure Matcher where
  expression : Option String
  flowExpressions : Option (String × String)
  gate : Bool
  start : ℕ
  stop : ℕ
deriving DecidableEq, Repr

/-- `ts_micros`: the heap key, saturated for timestamps that are not representable. -/
def tsMicros (header : PacketHeader) : ℕ :=
  let secs := (u64TryFrom header.tvSec).getD 0
  let micros := (u64TryFrom header.tvUsec).getD 0
  saturatingAdd (saturatingMul secs 1000000) micros

/-- The timestamp the gate of `refill` compares, where it is representable. -/
def gateMicros (header : PacketHeader) : Option ℕ := do
  let secs ← u64TryFrom header.tvSec
  let micros ← u64TryFrom header.tvUsec
  let timestamp ← checkedMul secs 1000000
  checkedAdd timestamp micros

/-- The gate of `refill`: without a window every packet passes. -/
def Matcher.inWindow (m : Matcher) (header : PacketHeader) : Bool :=
  if m.gate then
    match gateMicros header with
    | none => false
    | some timestamp => !decide (timestamp < m.start) && !decide (m.stop < timestamp)
  else true

/-- `PendingPacket`. -/
structure PendingPacket where
  tsMicros : ℕ
  header : PacketHeader
  data : List UInt8
  linktype : Linktype
deriving DecidableEq, Repr

/-- The pending packet `refill` makes of a record. -/
def PendingPacket.of (linktype : Linktype) (pkt : Packet) : PendingPacket :=
  { tsMicros := Pcap.tsMicros pkt.header, header := pkt.header, data := pkt.data, linktype }

/-- `OpenCapture`; `rest` is what `next_packet` has still to yield. -/
structure OpenCapture (Path : Type*) where
  rest : List Packet
  linktype : Linktype
  filterProgram : Option BpfProgram
  path : Path

/-- The two tests a record must pass in `refill`: the time gate, then the filter. -/
def Matcher.accepts (m : Matcher) (program : Option BpfProgram) (pkt : Packet) : Bool :=
  m.inWindow pkt.header &&
    match program with
    | some program => program pkt.header pkt.data
    | none => true

/-- The filter part of `open_group_file`: the program to apply to the file's packets, or `none` when
the file is to be skipped. -/
def compileFilter {Path : Type*} (lib : Libpcap Path) (m : Matcher) (linktype : Linktype)
    (tracker : BpfExprTracker) : Option (Option BpfProgram) × BpfExprTracker :=
  match m.expression with
  | some expression =>
      match lib.compile linktype expression with
      | .ok program => (some (some program), tracker.compiled)
      | .error err => (none, tracker.failed err)
  | none =>
      match m.flowExpressions with
      | some (wrapped, base) =>
          match lib.compile linktype wrapped with
          | .ok program => (some (some program), tracker)
          | .error _ =>
              match lib.compile linktype base with
              | .ok program => (some (some program), tracker)
              | .error _ => (none, tracker)
      | none => (some none, tracker)

section

variable {Path ω : Type*} [ToString Path]

/-- `open_group_file`. -/
def openGroupFile (lib : Libpcap Path) (m : Matcher) (path : Path) (sh : Shared ω) :
    Except FetchError (Option (OpenCapture Path)) × Shared ω :=
  match lib.fromFile path with
  | .error err =>
      if fdExhausted err then
        (.error (.io ⟨.other, s!"{path}: {err.message}"⟩), sh)
      else
        (.ok none, { sh with stats := { sh.stats with filesVanished := sh.stats.filesVanished + 1 } })
  | .ok file =>
      let stats := { sh.stats with
        filesScanned := sh.stats.filesScanned + 1
        linktype := sh.stats.linktype.or (some file.linktype.dlt) }
      match compileFilter lib m file.linktype sh.bpfExprTracker with
      | (none, tracker) => (.ok none, { sh with stats := stats, bpfExprTracker := tracker })
      | (some program, tracker) =>
          (.ok (some ⟨file.records, file.linktype, program, path⟩),
            { sh with stats := stats, bpfExprTracker := tracker })

/-! ## Cursors -/

/-- `GroupCursor`. -/
structure GroupCursor (Path : Type*) where
  files : List Path
  opened : Option (OpenCapture Path)
  pending : Option PendingPacket

/-- `GroupCursor::new`. -/
def GroupCursor.new (files : List Path) : GroupCursor Path := ⟨files, none, none⟩

/-- `GroupCursor::skip_current_file`. -/
def GroupCursor.skipCurrentFile (c : GroupCursor Path) : GroupCursor Path := { c with opened := none }

variable [Write ω]

/-- The head of every turn of `refill`'s loop: the liveness check, then the periodic flush. `false`
means that the loop returns. -/
def refillTurn (env : Env) (sh : Shared ω) : Except FetchError Bool × Shared ω :=
  match sh.ctl.live env with
  | (false, ctl) => (.ok false, { sh with ctl := ctl })
  | (true, ctl) =>
      match maybeFlush env { sh with ctl := ctl } with
      | (.error err, sh) => (.error (.io err), sh)
      | (.ok (), sh) => (.ok true, sh)

/-- How the turns on one open capture end. -/
inductive Scan (Path : Type*)
  /-- A record matched; the capture stays open behind it. -/
  | found (pending : PendingPacket) (opened : OpenCapture Path)
  /-- The capture yielded an error, its regular end included. -/
  | ended
  /-- The loop returns with the capture open. -/
  | stopped (opened : OpenCapture Path)

/-- The turns of `refill`'s loop on an open capture whose records still to come are `rest`. -/
def scanOpen (env : Env) (m : Matcher) (o : OpenCapture Path) :
    List Packet → Shared ω → Except FetchError (Scan Path) × Shared ω
  | rest, sh =>
    match refillTurn env sh with
    | (.error err, sh) => (.error err, sh)
    | (.ok false, sh) => (.ok (.stopped { o with rest := rest }), sh)
    | (.ok true, sh) =>
        match rest with
        | [] => (.ok .ended, sh)
        | pkt :: rest =>
            if m.accepts o.filterProgram pkt then
              (.ok (.found (.of o.linktype pkt) { o with rest := rest }), sh)
            else scanOpen env m o rest sh

/-- The turns of `refill`'s loop from a point where no capture is open and `files` are to come. -/
def refillFiles (env : Env) (lib : Libpcap Path) (m : Matcher) :
    List Path → Shared ω → Except FetchError (GroupCursor Path) × Shared ω
  | files, sh =>
    match refillTurn env sh with
    | (.error err, sh) => (.error err, sh)
    | (.ok false, sh) => (.ok ⟨files, none, none⟩, sh)
    | (.ok true, sh) =>
        match files with
        | [] => (.ok ⟨[], none, none⟩, sh)
        | path :: files =>
            match openGroupFile lib m path sh with
            | (.error err, sh) => (.error err, sh)
            | (.ok none, sh) => refillFiles env lib m files sh
            | (.ok (some o), sh) =>
                match scanOpen env m o o.rest sh with
                | (.error err, sh) => (.error err, sh)
                | (.ok .ended, sh) => refillFiles env lib m files sh
                | (.ok (.found pending o), sh) => (.ok ⟨files, some o, some pending⟩, sh)
                | (.ok (.stopped o), sh) => (.ok ⟨files, some o, none⟩, sh)

/-- `GroupCursor::refill`, on a cursor whose pending packet has been taken. -/
def GroupCursor.refill (env : Env) (lib : Libpcap Path) (m : Matcher) (c : GroupCursor Path)
    (sh : Shared ω) : Except FetchError (GroupCursor Path) × Shared ω :=
  match c.opened with
  | none => refillFiles env lib m c.files sh
  | some o =>
      match scanOpen env m o o.rest sh with
      | (.error err, sh) => (.error err, sh)
      | (.ok .ended, sh) => refillFiles env lib m c.files sh
      | (.ok (.found pending o), sh) => (.ok ⟨c.files, some o, some pending⟩, sh)
      | (.ok (.stopped o), sh) => (.ok ⟨c.files, some o, none⟩, sh)

/-! ## The merge -/

/-- `BinaryHeap<Reverse<(u64, usize)>>::pop`: the least entry, and the heap without it. -/
def heapPop (heap : List (ℕ ×ₗ ℕ)) : Option ((ℕ ×ₗ ℕ) × List (ℕ ×ₗ ℕ)) :=
  heap.min?.map fun k => (k, heap.erase k)

/-- The local variables of `fetch` from the merge on. `written` is a ghost: the packets handed to the
writer so far, each with the cursor it came from. -/
structure MergeState (Path ω : Type*) where
  cursors : List (GroupCursor Path)
  heap : List (ℕ ×ₗ ℕ)
  outputLinktype : Option Linktype
  shared : Shared ω
  written : List (ℕ × PendingPacket)

/-- How a turn of the merge loop leaves the loop, or does not. -/
inductive Turn
  | next
  | break
  | return (stats : FetchStats)
  | fault (fault : Fault)

/-- Refill cursor `index` and push its new pending packet. -/
def refillAndPush (env : Env) (lib : Libpcap Path) (m : Matcher) (index : ℕ)
    (cursor : GroupCursor Path) (st : MergeState Path ω) : Turn × MergeState Path ω :=
  match cursor.refill env lib m st.shared with
  | (.error err, sh) => (.fault (.error err), { st with shared := sh })
  | (.ok cursor, sh) =>
      let heap := match cursor.pending with
        | some pending => toLex (pending.tsMicros, index) :: st.heap
        | none => st.heap
      (.next, { st with cursors := st.cursors.set index cursor, heap := heap, shared := sh })

/-- The write of a popped packet: the byte cap, then the record. -/
def writePending (limits : Limits) (index : ℕ) (packet : PendingPacket) (st : MergeState Path ω) :
    Turn × MergeState Path ω :=
  let sh := st.shared
  if limits.maxBytes < saturatingAdd sh.stats.bytes (sh.writer.nextWriteSize packet.data.length) then
    let stats := { sh.stats with truncated := true }
    (.return stats, { st with shared := { sh with stats := stats } })
  else
    match sh.writer.writePacket packet.linktype ⟨packet.header, packet.data⟩ with
    | (.error err, writer) =>
        (.fault (.error (.io err)), { st with shared := { sh with writer := writer } })
    | (.ok (), writer) =>
        let stats := { sh.stats with bytes := writer.bytes, packets := sh.stats.packets + 1 }
        (.next, { st with
          shared := { sh with writer := writer, stats := stats }
          outputLinktype := st.outputLinktype.or (some packet.linktype)
          written := st.written ++ [(index, packet)] })

/-- The body of the merge loop after `pop`, `live` and the flush: handle the popped cursor's packet. -/
def handlePopped (env : Env) (lib : Libpcap Path) (m : Matcher) (limits : Limits) (index : ℕ)
    (st : MergeState Path ω) : Turn × MergeState Path ω :=
  match st.cursors[index]? with
  | none => (.fault (.panic "index out of bounds"), st)
  | some cursor =>
      match cursor.pending with
      | none => (.fault (.panic "popped cursor has a pending packet"), st)
      | some packet =>
          let cursor := { cursor with pending := none }
          if st.outputLinktype.any (· ≠ packet.linktype) then
            -- the pending packet always comes from the cursor's current file
            refillAndPush env lib m index cursor.skipCurrentFile st
          else
            match writePending limits index packet st with
            | (.next, st) => refillAndPush env lib m index cursor st
            | other => other

/-- One turn of the merge loop. -/
def mergeTurn (env : Env) (lib : Libpcap Path) (m : Matcher) (limits : Limits)
    (st : MergeState Path ω) : Turn × MergeState Path ω :=
  match heapPop st.heap with
  | none => (.break, st)
  | some (k, heap) =>
      match refillTurn env st.shared with
      | (.error err, sh) => (.fault (.error err), { st with heap := heap, shared := sh })
      | (.ok false, sh) => (.break, { st with heap := heap, shared := sh })
      | (.ok true, sh) =>
          handlePopped env lib m limits (ofLex k).2 { st with heap := heap, shared := sh }

/-- The number of records of a file, as far as it can be opened. -/
def fileLength (lib : Libpcap Path) (path : Path) : ℕ :=
  match lib.fromFile path with
  | .ok file => file.records.length
  | .error _ => 0

/-- The records a cursor has still to read, in its open capture and in the files to come. -/
def GroupCursor.unread (lib : Libpcap Path) (c : GroupCursor Path) : ℕ :=
  (c.opened.map fun o => o.rest.length).getD 0 + (c.files.map (fileLength lib)).sum

/-- The packets a cursor has still to hand over: its pending packet and those it has still to read. -/
def GroupCursor.weight (lib : Libpcap Path) (c : GroupCursor Path) : ℕ :=
  c.pending.toList.length + c.unread lib

omit [ToString Path] in
/-- What a scan that returns has used up. -/
theorem scanOpen_length {env : Env} {m : Matcher} {o : OpenCapture Path} {rest : List Packet}
    {sh sh' : Shared ω} {r : Scan Path} (h : scanOpen env m o rest sh = (.ok r, sh')) :
    match r with
    | .found _ o' => o'.rest.length + 1 ≤ rest.length
    | .ended => True
    | .stopped o' => o'.rest.length ≤ rest.length := by
  induction rest generalizing sh with
  | nil =>
      unfold scanOpen at h
      split at h
      · cases h
      · cases h; exact le_refl _
      · cases h; trivial
  | cons pkt rest ih =>
      unfold scanOpen at h
      split at h
      · cases h
      · cases h; exact le_refl _
      · simp only at h
        split at h
        · cases h; simp
        · have := ih h
          cases r with
          | found p o' => simp only [List.length_cons] at this ⊢; omega
          | ended => trivial
          | stopped o' => simp only [List.length_cons] at this ⊢; omega

omit [Write ω] in
theorem openGroupFile_length {lib : Libpcap Path} {m : Matcher} {path : Path} {sh sh' : Shared ω}
    {o : OpenCapture Path} (h : openGroupFile lib m path sh = (.ok (some o), sh')) :
    o.rest.length = fileLength lib path := by
  unfold openGroupFile at h
  unfold fileLength
  split at h
  · split at h <;> cases h
  · rename_i file hfile
    simp only at h
    split at h
    · cases h
    · cases h; simp [hfile]

theorem refillFiles_weight {env : Env} {lib : Libpcap Path} {m : Matcher} {files : List Path}
    {sh sh' : Shared ω} {c : GroupCursor Path} (h : refillFiles env lib m files sh = (.ok c, sh')) :
    c.weight lib ≤ (files.map (fileLength lib)).sum := by
  induction files generalizing sh with
  | nil =>
      unfold refillFiles at h
      split at h
      · cases h
      · cases h; simp [GroupCursor.weight, GroupCursor.unread]
      · cases h; simp [GroupCursor.weight, GroupCursor.unread]
  | cons path files ih =>
      unfold refillFiles at h
      split at h
      · cases h
      · cases h; simp [GroupCursor.weight, GroupCursor.unread]
      · simp only at h
        simp only [List.map_cons, List.sum_cons]
        split at h
        · cases h
        · exact le_trans (ih h) (Nat.le_add_left _ _)
        · rename_i o sh₁ hopen
          have hlen := openGroupFile_length hopen
          split at h
          · cases h
          · exact le_trans (ih h) (Nat.le_add_left _ _)
          · rename_i hscan
            cases h
            have := scanOpen_length hscan
            simp only [GroupCursor.weight, GroupCursor.unread, Option.toList_some, List.length_singleton,
              Option.map_some, Option.getD_some]
            omega
          · rename_i hscan
            cases h
            have := scanOpen_length hscan
            simp only [GroupCursor.weight, GroupCursor.unread, Option.toList_none, List.length_nil, Option.map_some,
              Option.getD_some]
            omega

/-- A refill makes at most one unread packet pending. -/
theorem GroupCursor.refill_weight {env : Env} {lib : Libpcap Path} {m : Matcher}
    {c c' : GroupCursor Path} {sh sh' : Shared ω} (h : c.refill env lib m sh = (.ok c', sh')) :
    c'.weight lib ≤ c.unread lib := by
  unfold refill at h
  unfold unread
  split at h
  · rename_i ho
    simpa [ho] using refillFiles_weight h
  · rename_i o ho
    simp only [ho, Option.map_some, Option.getD_some]
    split at h
    · cases h
    · exact le_trans (refillFiles_weight h) (Nat.le_add_left _ _)
    · rename_i hscan
      cases h
      have := scanOpen_length hscan
      simp only [GroupCursor.weight, GroupCursor.unread, Option.toList_some, List.length_singleton,
        Option.map_some, Option.getD_some]
      omega
    · rename_i hscan
      cases h
      have := scanOpen_length hscan
      simp only [GroupCursor.weight, GroupCursor.unread, Option.toList_none, List.length_nil, Option.map_some,
        Option.getD_some]
      omega

/-- The measure of the merge loop. -/
def cursorsWeight (lib : Libpcap Path) (cursors : List (GroupCursor Path)) : ℕ :=
  (cursors.map (GroupCursor.weight lib)).sum

omit [ToString Path] in
theorem cursorsWeight_set {lib : Libpcap Path} {cursors : List (GroupCursor Path)} {i : ℕ}
    {c d : GroupCursor Path} (hc : cursors[i]? = some c) (hlt : d.weight lib < c.weight lib) :
    cursorsWeight lib (cursors.set i d) < cursorsWeight lib cursors := by
  induction cursors generalizing i with
  | nil => simp at hc
  | cons e cursors ih =>
      match i with
      | 0 =>
          obtain rfl : e = c := by simpa using hc
          simp only [cursorsWeight, List.set_cons_zero, List.map_cons, List.sum_cons]
          omega
      | i + 1 =>
          have := ih (i := i) (by simpa using hc)
          simp only [cursorsWeight, List.set_cons_succ, List.map_cons, List.sum_cons] at this ⊢
          omega

theorem refillAndPush_next {env : Env} {lib : Libpcap Path} {m : Matcher} {index : ℕ}
    {cursor : GroupCursor Path} {st st' : MergeState Path ω}
    (h : refillAndPush env lib m index cursor st = (.next, st')) :
    ∃ c', st'.cursors = st.cursors.set index c' ∧ c'.weight lib ≤ cursor.unread lib := by
  unfold refillAndPush at h
  split at h
  · cases h
  · rename_i c' sh hrefill
    cases h
    exact ⟨c', rfl, GroupCursor.refill_weight hrefill⟩

omit [ToString Path] in
theorem writePending_next {limits : Limits} {index : ℕ} {packet : PendingPacket}
    {st st' : MergeState Path ω} (h : writePending limits index packet st = (.next, st')) :
    st'.cursors = st.cursors := by
  unfold writePending at h
  simp only at h
  split at h
  · cases h
  · split at h
    · cases h
    · cases h; rfl

/-- Every turn after which the loop goes on uses up a packet. -/
theorem mergeTurn_weight {env : Env} {lib : Libpcap Path} {m : Matcher} {limits : Limits}
    {st st' : MergeState Path ω} (h : mergeTurn env lib m limits st = (.next, st')) :
    cursorsWeight lib st'.cursors < cursorsWeight lib st.cursors := by
  unfold mergeTurn at h
  split at h
  · cases h
  · split at h
    · cases h
    · cases h
    · unfold handlePopped at h
      split at h
      · cases h
      · rename_i cursor hcursor
        split at h
        · cases h
        · rename_i packet hpacket
          have hunread : ∀ c' : GroupCursor Path, c'.weight lib ≤ cursor.unread lib →
              c'.weight lib < cursor.weight lib := by
            intro c' hc'
            simp only [GroupCursor.weight, hpacket, Option.toList_some, List.length_singleton]
              at hc' ⊢
            omega
          simp only at h
          split at h
          · obtain ⟨c', hset, hc'⟩ := refillAndPush_next h
            rw [hset]
            refine cursorsWeight_set hcursor (hunread c' (le_trans hc' ?_))
            simp [GroupCursor.unread, GroupCursor.skipCurrentFile]
          · split at h
            · rename_i st₁ hwrite
              obtain ⟨c', hset, hc'⟩ := refillAndPush_next h
              rw [hset, writePending_next hwrite]
              exact cursorsWeight_set hcursor (hunread c' hc')
            · rename_i hne
              exact absurd h (hne st')

/-- The merge loop. The first component says how it was left; leaving it by `break` is `none`. -/
def mergeLoop (env : Env) (lib : Libpcap Path) (m : Matcher) (limits : Limits)
    (st : MergeState Path ω) : Option (Except Fault FetchStats) × MergeState Path ω :=
  match _h : mergeTurn env lib m limits st with
  | (.next, st) => mergeLoop env lib m limits st
  | (.break, st) => (none, st)
  | (.return stats, st) => (some (.ok stats), st)
  | (.fault fault, st) => (some (.error fault), st)
termination_by cursorsWeight lib st.cursors
decreasing_by exact mergeTurn_weight _h

/-- The loop that gives every group its cursor, numbered from `index` on, and fills the heap. -/
def openCursors (env : Env) (lib : Libpcap Path) (m : Matcher) (index : ℕ) :
    List (List Path) → MergeState Path ω → Except FetchError Unit × MergeState Path ω
  | [], st => (.ok (), st)
  | files :: groups, st =>
      match (GroupCursor.new files).refill env lib m st.shared with
      | (.error err, sh) => (.error err, { st with shared := sh })
      | (.ok cursor, sh) =>
          let heap := match cursor.pending with
            | some pending => toLex (pending.tsMicros, index) :: st.heap
            | none => st.heap
          openCursors env lib m (index + 1) groups
            { st with cursors := st.cursors ++ [cursor], heap := heap, shared := sh }

/-- The end of `fetch`, after the merge loop. -/
def finish (m : Matcher) (sh : Shared ω) : Except FetchError FetchStats :=
  match sh.ctl.stopped with
  | some .cancelled => .ok sh.stats
  | some .deadline => .ok { sh.stats with truncated := true }
  | none =>
      if sh.stats.packets = 0 ∧ sh.stats.truncated = false then
        match m.expression.isSome && !sh.bpfExprTracker.compiledAny, sh.bpfExprTracker.firstError with
        | true, some err => .error (.format err)
        | _, _ =>
            if sh.stats.filesScanned = 0 then .error .noCandidateFiles
            else .error (.noMatch sh.stats)
      else .ok sh.stats

/-- The state in which the merge starts. -/
def MergeState.start (limits : Limits) (out : ω) : MergeState Path ω :=
  { cursors := []
    heap := []
    outputLinktype := none
    shared :=
      { ctl := ⟨limits.deadline, none, 0⟩
        bpfExprTracker := {}
        stats := {}
        writer := .new out
        flushes := 0 }
    written := [] }

/-- The K-way merge of `fetch` over the candidate files of each group: the result, and the state in
which it leaves the writer. -/
def fetchMerge (env : Env) (lib : Libpcap Path) (m : Matcher) (limits : Limits)
    (groups : List (List Path)) (out : ω) : Except Fault FetchStats × MergeState Path ω :=
  match openCursors env lib m 0 groups (.start limits out) with
  | (.error err, st) => (.error (.error err), st)
  | (.ok (), st) =>
      match mergeLoop env lib m limits st with
      | (some result, st) => (result, st)
      | (none, st) => ((finish m st.shared).mapError .error, st)

/-- `vlan_wrapped`. -/
def vlanWrapped (expr : String) : String := s!"({expr}) or (vlan and ({expr}))"

/-- The wrapped and the base rendering of a flow filter; a rendering that does not compile for Ethernet
is a format error before any file is touched. -/
def flowExpressions (lib : Libpcap Path) (request : PcapRequest) :
    Except FetchError (Option (String × String)) :=
  match request.filter with
  | some (.flow base) =>
      match lib.compile .ethernet (vlanWrapped base) with
      | .ok _ => .ok (some (vlanWrapped base, base))
      | .error err => .error (.format err)
  | _ => .ok none

/-- The `Matcher` of a request. -/
def PcapRequest.matcher (request : PcapRequest) (flow : Option (String × String)) : Matcher :=
  { expression := match request.filter with
      | some (.expression text) => some text
      | _ => none
    flowExpressions := flow
    gate := request.start.isSome || request.stop.isSome
    start := request.start.getD 0
    stop := request.stop.getD u64Max }

/-- `fetch`, with the candidate files of the source as an argument. -/
def fetch (env : Env) (lib : Libpcap Path) (candidates : Except IoError (List (List Path)))
    (request : PcapRequest) (out : ω) : Except Fault FetchStats × MergeState Path ω :=
  match flowExpressions lib request with
  | .error err => (.error (.error err), .start request.limits out)
  | .ok flow =>
      match candidates with
      | .error err => (.error (.error (.io err)), .start request.limits out)
      | .ok groups =>
          if groups.all (·.isEmpty) then
            (.error (.error .noCandidateFiles), .start request.limits out)
          else fetchMerge env lib (request.matcher flow) request.limits groups out

end

end EveBox.Pcap
