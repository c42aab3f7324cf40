import EveBox.Pcap.FetchTheorems
import EveBox.Pcap.Spool

/-!
# What pruning loses

A file is named by the second of its first packet, and its last packet can be as late as the second the
next file is named by. `load_files` drops a file when the next one is named before the window starts, so
the packets that can be lost are those in the very second the next file is named by:
`fetchSpool_lossless_iff`.
-/

namespace EveBox.Pcap

open Rust KWayMerge

section

variable {Path : Type*}

/-- The records of a file, as far as it can be opened. -/
def fileRecords (lib : Libpcap Path) (path : Path) : List Packet :=
  match lib.fromFile path with
  | .ok file => file.records
  | .error _ => []

/-- The file has a packet with the timestamp `time`, in unix microseconds. -/
def HasPacketAt (lib : Libpcap Path) (path : Path) (time : ℕ) : Prop :=
  ∃ pkt ∈ fileRecords lib path, gateMicros pkt.header = some time

theorem hasPacketAt_iff {lib : Libpcap Path} {path : Path} {time : ℕ} :
    HasPacketAt lib path time ↔
      some time ∈ (fileRecords lib path).map fun pkt => gateMicros pkt.header := by
  simp [HasPacketAt]

/-- The file after `f` in `files` is `g`. -/
def Follows (files : List (ℕ × Path)) (f g : ℕ × Path) : Prop := [f, g] <:+: files

/-- A rotation sequence as the sensor leaves it: distinct files, each with packets from the second it is
named by up to the second the next file is named by. -/
structure Rotated (lib : Libpcap Path) (files : List (ℕ × Path)) : Prop where
  nodup : files.Nodup
  from_second : ∀ f ∈ files, ∀ time, HasPacketAt lib f.2 time → f.1 ≤ time / 1000000
  to_second : ∀ f g, Follows files f g → ∀ time, HasPacketAt lib f.2 time → time / 1000000 ≤ g.1

theorem Follows.mem_left {files : List (ℕ × Path)} {f g : ℕ × Path} (h : Follows files f g) :
    f ∈ files := h.subset (by simp)

theorem Follows.cons {files : List (ℕ × Path)} {e f g : ℕ × Path} (h : Follows files f g) :
    Follows (e :: files) f g := List.IsInfix.trans h (List.suffix_cons e files).isInfix

theorem follows_cons_cons {files : List (ℕ × Path)} {e f g : ℕ × Path} :
    Follows (e :: files) f g ↔ (e = f ∧ files.head? = some g) ∨ Follows files f g := by
  unfold Follows
  rw [List.infix_cons_iff]
  refine or_congr ?_ Iff.rfl
  rw [List.cons_prefix_cons]
  cases files with
  | nil => simp
  | cons d files => simp [eq_comm]

theorem HasPacketAt.le {lib : Libpcap Path} {path : Path} {time : ℕ} (h : HasPacketAt lib path time) :
    time ≤ u64Max := by
  obtain ⟨pkt, -, htime⟩ := h
  simp only [gateMicros, checkedMul, checkedAdd, Option.bind_eq_bind, Option.bind_eq_some_iff] at htime
  obtain ⟨secs, -, micros, -, timestamp, -, hadd⟩ := htime
  split at hadd
  · cases hadd
    assumption
  · cases hadd

/-! ## Which files are dropped -/

/-- The test of the `retain` in `load_files`, on a file and the one after it. -/
def Dropped (startTime endTime : ℕ) (e : ℕ × Path) (next : Option (ℕ × Path)) : Prop :=
  endTime < saturatingMul e.1 1000000 ∨
    ∃ g, next = some g ∧ saturatingMul g.1 1000000 < startTime

theorem pruneFiles_cons_of_dropped {startTime endTime : ℕ} {e : ℕ × Path} {rest : List (ℕ × Path)}
    (h : Dropped startTime endTime e rest.head?) :
    pruneFiles startTime endTime (e :: rest) = pruneFiles startTime endTime rest := by
  rw [pruneFiles]
  rcases h with h | ⟨g, hg, h⟩
  · exact if_pos h
  · simp only [hg, if_pos h, ite_self]

theorem pruneFiles_cons_of_not_dropped {startTime endTime : ℕ} {e : ℕ × Path}
    {rest : List (ℕ × Path)} (h : ¬ Dropped startTime endTime e rest.head?) :
    pruneFiles startTime endTime (e :: rest) = e :: pruneFiles startTime endTime rest := by
  rw [Dropped, not_or] at h
  rw [pruneFiles, if_neg h.1]
  cases hnext : rest.head? with
  | none => rfl
  | some g => exact if_neg fun hlt => h.2 ⟨g, hnext, hlt⟩

theorem pruneFiles_sublist (startTime endTime : ℕ) (files : List (ℕ × Path)) :
    (pruneFiles startTime endTime files).Sublist files := by
  induction files with
  | nil => exact List.Sublist.refl _
  | cons e rest ih =>
      by_cases h : Dropped startTime endTime e rest.head?
      · rw [pruneFiles_cons_of_dropped h]
        exact ih.cons e
      · rw [pruneFiles_cons_of_not_dropped h]
        exact ih.cons_cons e

/-- `load_files` drops a file that starts after the window, or whose successor starts before it. -/
theorem not_mem_pruneFiles_iff {startTime endTime : ℕ} {files : List (ℕ × Path)}
    (hnodup : files.Nodup) {f : ℕ × Path} (hf : f ∈ files) :
    f ∉ pruneFiles startTime endTime files ↔
      endTime < saturatingMul f.1 1000000 ∨
        ∃ g, Follows files f g ∧ saturatingMul g.1 1000000 < startTime := by
  induction files with
  | nil => cases hf
  | cons e rest ih =>
      obtain ⟨he, hrest⟩ := List.nodup_cons.mp hnodup
      have he' : e ∉ pruneFiles startTime endTime rest :=
        fun h => he ((pruneFiles_sublist _ _ _).subset h)
      by_cases hfe : f = e
      · -- the head: its successor is the head of the rest, and it does not occur again
        subst hfe
        have hfollows : ∀ g, Follows (f :: rest) f g ↔ rest.head? = some g := by
          intro g
          rw [follows_cons_cons]
          refine ⟨?_, fun h => Or.inl ⟨rfl, h⟩⟩
          rintro (⟨-, h⟩ | h)
          · exact h
          · exact absurd h.mem_left he
        simp only [hfollows]
        by_cases h : Dropped startTime endTime f rest.head?
        · rw [pruneFiles_cons_of_dropped h]
          exact iff_of_true he' h
        · rw [pruneFiles_cons_of_not_dropped h]
          exact iff_of_false (fun hnot => hnot List.mem_cons_self) h
      · have hmem : f ∈ rest := (List.mem_cons.mp hf).resolve_left hfe
        have hfollows : ∀ g, Follows (e :: rest) f g ↔ Follows rest f g := by
          intro g
          rw [follows_cons_cons]
          exact or_iff_right fun h => hfe h.1.symm
        simp only [hfollows]
        rw [← ih hrest hmem]
        by_cases h : Dropped startTime endTime e rest.head?
        · rw [pruneFiles_cons_of_dropped h]
        · rw [pruneFiles_cons_of_not_dropped h, List.mem_cons, not_or]
          exact and_iff_right hfe

/-- Dropping files without a matching packet leaves the blocks of the merge as they are. -/
theorem filter_map_pruneFiles {lib : Libpcap Path} {m : Matcher} {startTime endTime : ℕ}
    {files : List (ℕ × Path)} (hnodup : files.Nodup)
    (h : ∀ f ∈ files, f ∉ pruneFiles startTime endTime files → fileMatching lib m f.2 = []) :
    (((pruneFiles startTime endTime files).map (·.2)).map (fileMatching lib m)).filter (· ≠ []) =
      ((files.map (·.2)).map (fileMatching lib m)).filter (· ≠ []) := by
  induction files with
  | nil => rfl
  | cons e rest ih =>
      obtain ⟨he, hrest⟩ := List.nodup_cons.mp hnodup
      have he' : e ∉ pruneFiles startTime endTime rest :=
        fun h => he ((pruneFiles_sublist _ _ _).subset h)
      by_cases hdrop : Dropped startTime endTime e rest.head?
      · rw [pruneFiles_cons_of_dropped hdrop] at h ⊢
        have hnil : fileMatching lib m e.2 = [] := h e List.mem_cons_self he'
        rw [ih hrest fun f hf => h f (List.mem_cons_of_mem _ hf)]
        simp [hnil]
      · rw [pruneFiles_cons_of_not_dropped hdrop] at h ⊢
        have hrec := ih hrest fun f hf hnot => h f (List.mem_cons_of_mem _ hf) (by
          rw [List.mem_cons, not_or]
          exact ⟨fun hfe => he (hfe ▸ hf), hnot⟩)
        simp only [List.map_cons, List.filter_cons, hrec]

end

/-! ## The pruned fetch -/

section

variable {Path : Type*} [LinearOrder Path]

/-- Some packet of the file lies in the window of the request. -/
def InWindow (lib : Libpcap Path) (request : PcapRequest) (path : Path) (time : ℕ) : Prop :=
  HasPacketAt lib path time ∧ request.startMicros ≤ time ∧ time ≤ request.stopMicros

/-- No packet of the window lies in a second that the next file is named by and that begins more than
the margin before the window. -/
def Spared (lib : Libpcap Path) (spool : SpoolConfig) (request : PcapRequest)
    (files : List (ℕ × Path)) : Prop :=
  ∀ f g, Follows (sortFiles files) f g → ∀ time, InWindow lib request f.2 time →
    time / 1000000 = g.1 → request.startMicros ≤ g.1 * 1000000 + spool.margin

/-- A dropped file with a packet in the window is one whose successor is named by that packet's
second. -/
theorem dropped_iff {lib : Libpcap Path} {spool : SpoolConfig} {request : PcapRequest}
    {files : List (ℕ × Path)} (hrot : Rotated lib (sortFiles files)) {f : ℕ × Path}
    (hf : f ∈ sortFiles files) {time : ℕ} (htime : InWindow lib request f.2 time) :
    f ∉ prunedFiles spool request.startMicros request.stopMicros files ↔
      ∃ g, Follows (sortFiles files) f g ∧ time / 1000000 = g.1 ∧
        g.1 * 1000000 + spool.margin < request.startMicros := by
  obtain ⟨hpkt, hstart, hstop⟩ := htime
  have hmax : time ≤ u64Max := hpkt.le
  have hfrom := hrot.from_second f hf time hpkt
  unfold prunedFiles
  rw [not_mem_pruneFiles_iff hrot.nodup hf]
  unfold saturatingMul saturatingAdd
  constructor
  · rintro (hlate | ⟨g, hg, hearly⟩)
    · -- the packet is not before its file's second, so the file does not start after the window
      omega
    · have hto := hrot.to_second f g hg time hpkt
      exact ⟨g, hg, by omega, by omega⟩
  · rintro ⟨g, hg, -, hearly⟩
    exact Or.inr ⟨g, hg, by omega⟩

omit [LinearOrder Path] in
/-- Every packet a matcher of the request accepts lies in the request's window, if there is one. -/
theorem inWindow_of_accepts {lib : Libpcap Path} {request : PcapRequest}
    {flow : Option (String × String)} (hgate : (request.matcher flow).gate = true)
    {program : Option BpfProgram} {path : Path} {pkt : Packet} (hpkt : pkt ∈ fileRecords lib path)
    (hacc : (request.matcher flow).accepts program pkt = true) :
    ∃ time, InWindow lib request path time := by
  have hwindow : (request.matcher flow).inWindow pkt.header = true :=
    (Bool.and_eq_true_iff.mp hacc).1
  rw [Matcher.inWindow, if_pos hgate] at hwindow
  cases htime : gateMicros pkt.header with
  | none => simp [htime] at hwindow
  | some time =>
      simp only [htime, Bool.and_eq_true, Bool.not_eq_true', decide_eq_false_iff_not,
        Nat.not_lt] at hwindow
      exact ⟨time, ⟨pkt, hpkt, htime⟩, hwindow⟩

/-- Without a window `load_files` drops nothing. -/
theorem prunedFiles_of_no_gate {spool : SpoolConfig} {request : PcapRequest}
    {flow : Option (String × String)} (hgate : (request.matcher flow).gate = false)
    {files : List (ℕ × Path)} (hnodup : (sortFiles files).Nodup) {f : ℕ × Path}
    (hf : f ∈ sortFiles files) :
    f ∈ prunedFiles spool request.startMicros request.stopMicros files := by
  obtain ⟨hstart, hstop⟩ : request.start = none ∧ request.stop = none := by
    simpa [PcapRequest.matcher] using hgate
  by_contra hnot
  rw [prunedFiles, not_mem_pruneFiles_iff hnodup hf] at hnot
  simp only [PcapRequest.startMicros, PcapRequest.stopMicros, hstart, hstop, Option.getD_none,
    Nat.zero_sub, Nat.not_lt_zero, and_false, exists_false, or_false] at hnot
  have hle := saturatingMul_le f.1 1000000
  unfold saturatingAdd at hnot
  omega

/-- A file that is dropped without a packet in the window has no matching packet. -/
theorem fileMatching_of_dropped {lib : Libpcap Path} {spool : SpoolConfig} {request : PcapRequest}
    {flow : Option (String × String)} {files : List (ℕ × Path)}
    (hnodup : (sortFiles files).Nodup) {f : ℕ × Path} (hf : f ∈ sortFiles files)
    (hdrop : f ∉ prunedFiles spool request.startMicros request.stopMicros files)
    (hnone : ∀ time, ¬ InWindow lib request f.2 time) :
    fileMatching lib (request.matcher flow) f.2 = [] := by
  have hgate : (request.matcher flow).gate = true := by
    by_contra hgate
    exact hdrop (prunedFiles_of_no_gate (Bool.not_eq_true _ ▸ hgate) hnodup hf)
  unfold fileMatching
  cases hfile : lib.fromFile f.2 with
  | error err => rfl
  | ok file =>
      dsimp only
      split
      · rfl
      · rw [matching, List.map_eq_nil_iff, List.filter_eq_nil_iff]
        intro pkt hpkt hacc
        have hrecords : pkt ∈ fileRecords lib f.2 := by simpa [fileRecords, hfile] using hpkt
        obtain ⟨time, htime⟩ := inWindow_of_accepts hgate hrecords hacc
        exact hnone time htime

/-- The groups of sorted files do not depend on whether the files are mapped before or after the groups
are put in order. -/
theorem groupsOf_map (sorted : SortedFiles Path) (p : List (ℕ × Path) → List (ℕ × Path)) :
    groupsOf (sorted.map fun g => (g.1, p g.2)) =
      (sorted.insertionSort fun a b => a.1 ≤ b.1).map fun g => (p g.2).map (·.2) := by
  unfold groupsOf
  rw [← List.map_insertionSort (r := fun a b => a.1 ≤ b.1) (s := fun a b => a.1 ≤ b.1)
    (fun g => (g.1, p g.2)) sorted (fun _ _ _ _ => Iff.rfl), List.map_map]
  rfl

variable [ToString Path] {ω : Type*} [Write ω] {env : Env} {lib : Libpcap Path}
  {spool : SpoolConfig} {request : PcapRequest} {sorted : SortedFiles Path}
  {walked : Except IoError (List Path)} {out : ω}

/-- The pruning of `load_files` loses nothing: no dropped file holds a packet of the window, and the
fetch writes the same packets as over all the files. -/
structure Lossless (env : Env) (lib : Libpcap Path) (spool : SpoolConfig) (request : PcapRequest)
    (sorted : SortedFiles Path) (walked : Except IoError (List Path)) (out : ω) : Prop where
  kept : ∀ g ∈ sorted, ∀ f ∈ g.2, ∀ time, InWindow lib request f.2 time →
    f ∈ prunedFiles spool request.startMicros request.stopMicros g.2
  same : (fetchSpool env lib spool (.ok (some sorted)) walked request out).2.written =
    (fetch env lib (.ok (groupsOf (sorted.map fun g => (g.1, sortFiles g.2)))) request
      out).2.written

omit [ToString Path] in
/-- The files of the groups are among the files found. -/
theorem openable_groupsOf_map (hopen : ∀ g ∈ sorted, ∀ f ∈ g.2, Openable lib [f.2])
    {p : List (ℕ × Path) → List (ℕ × Path)} (hp : ∀ files, p files ⊆ files) :
    ∀ files ∈ groupsOf (sorted.map fun g => (g.1, p g.2)), Openable lib files := by
  intro files hfiles path hpath err herr
  rw [groupsOf_map, List.mem_map] at hfiles
  obtain ⟨g, hg, rfl⟩ := hfiles
  obtain ⟨f, hf, rfl⟩ := List.mem_map.mp hpath
  exact hopen g ((List.mem_insertionSort _).mp hg) f (hp g.2 hf) f.2 (by simp) err herr

omit [ToString Path] in
theorem queues_prunedFiles {flow : Option (String × String)}
    (hnodup : ∀ g ∈ sorted, (sortFiles g.2).Nodup)
    (kept : ∀ g ∈ sorted, ∀ f ∈ g.2, ∀ time, InWindow lib request f.2 time →
      f ∈ prunedFiles spool request.startMicros request.stopMicros g.2) :
    queues lib (request.matcher flow) (groupsOf (sorted.map fun g =>
        (g.1, prunedFiles spool request.startMicros request.stopMicros g.2))) =
      queues lib (request.matcher flow) (groupsOf (sorted.map fun g => (g.1, sortFiles g.2))) := by
  rw [groupsOf_map, groupsOf_map]
  unfold queues
  rw [List.map_map, List.map_map]
  apply List.map_congr_left
  intro g hg
  have hg : g ∈ sorted := (List.mem_insertionSort _).mp hg
  refine filter_map_pruneFiles (hnodup g hg) ?_
  intro f hf hdrop
  refine fileMatching_of_dropped (hnodup g hg) hf hdrop ?_
  intro time htime
  exact hdrop (kept g hg f ((List.mem_insertionSort _).mp hf) time htime)

/-- Keeping every file with a packet in the window is enough for the fetch to write the same. -/
theorem Lossless.of_kept (quiet : Quiet env request.limits) (sink : Sink ω)
    (hopen : ∀ g ∈ sorted, ∀ f ∈ g.2, Openable lib [f.2])
    (hnodup : ∀ g ∈ sorted, (sortFiles g.2).Nodup)
    (kept : ∀ g ∈ sorted, ∀ f ∈ g.2, ∀ time, InWindow lib request f.2 time →
      f ∈ prunedFiles spool request.startMicros request.stopMicros g.2) :
    Lossless env lib spool request sorted walked out := by
  refine ⟨kept, ?_⟩
  have hsort : ∀ files : List (ℕ × Path), sortFiles files ⊆ files :=
    fun files f hf => (List.mem_insertionSort _).mp hf
  have hprune : ∀ files : List (ℕ × Path),
      prunedFiles spool request.startMicros request.stopMicros files ⊆ files :=
    fun files => List.Subset.trans (pruneFiles_sublist _ _ _).subset (hsort files)
  unfold fetchSpool
  simp only [loadFiles, candidateGroups]
  rw [fetch_written quiet sink rfl (openable_groupsOf_map hopen hprune),
    fetch_written quiet sink rfl (openable_groupsOf_map hopen hsort)]
  cases flowExpressions lib request with
  | error err => rfl
  | ok flow => simp only [queues_prunedFiles hnodup kept]

/-- Pruning loses nothing exactly when no packet of the window lies in a second that its file's successor
is named by and that begins more than the margin before the window. -/
theorem fetchSpool_lossless_iff (quiet : Quiet env request.limits) (sink : Sink ω)
    (hopen : ∀ g ∈ sorted, ∀ f ∈ g.2, Openable lib [f.2])
    (hrot : ∀ g ∈ sorted, Rotated lib (sortFiles g.2)) :
    Lossless env lib spool request sorted walked out ↔
      ∀ g ∈ sorted, Spared lib spool request g.2 := by
  constructor
  · intro lossless g hg f next hfollows time htime hsecond
    by_contra hlt
    have hf : f ∈ sortFiles g.2 := hfollows.mem_left
    have hf' : f ∈ g.2 := (List.mem_insertionSort _).mp hf
    exact (dropped_iff (hrot g hg) hf htime).mpr ⟨next, hfollows, hsecond, Nat.not_le.mp hlt⟩
      (lossless.kept g hg f hf' time htime)
  · intro hspared
    refine Lossless.of_kept quiet sink hopen (fun g hg => (hrot g hg).nodup) ?_
    intro g hg f hf time htime
    by_contra hdrop
    have hf' : f ∈ sortFiles g.2 := (List.mem_insertionSort _).mpr hf
    obtain ⟨next, hfollows, hsecond, hlt⟩ := (dropped_iff (hrot g hg) hf' htime).mp hdrop
    exact Nat.not_le.mpr hlt (hspared g hg f next hfollows time htime hsecond)

omit [ToString Path] in
/-- A margin that reaches back to the start of the window's first second spares every packet. -/
theorem Spared.of_margin {files : List (ℕ × Path)}
    (h : request.startMicros % 1000000 ≤ spool.margin) : Spared lib spool request files := by
  rintro f g - time ⟨-, hstart, -⟩ hsecond
  omega

end

/-! ## The margin of the command line -/

/-- A packet captured at a second and microsecond. -/
def packetAt (sec usec : ℤ) : Packet := ⟨⟨sec, usec, 1, 1⟩, [0]⟩

/-- Two rotated captures: the first one's last packet is from the second the next one is named by. -/
def twoRotated : Libpcap ℕ where
  fromFile n := .ok ⟨.ethernet,
    if n = 0 then [packetAt 1700000000 100000, packetAt 1700000001 600000]
    else [packetAt 1700000001 700000]⟩
  compile _ _ := .ok fun _ _ => true

/-- The two captures as `collect_files` finds them. -/
def twoFiles : List (ℕ × ℕ) := [(1700000000, 0), (1700000001, 1)]

/-- A window that starts in the middle of a second. -/
def halfSecond : PcapRequest :=
  ⟨none, some 1700000001500000, some 1700000002000000, .default⟩

theorem twoRotated_rotated : Rotated twoRotated (sortFiles twoFiles) := by
  have hsort : sortFiles twoFiles = twoFiles := by decide
  have hfirst : ∀ time, HasPacketAt twoRotated 0 time →
      time = 1700000000100000 ∨ time = 1700000001600000 := by
    intro time htime
    rw [hasPacketAt_iff, show (fileRecords twoRotated 0).map (fun pkt => gateMicros pkt.header) =
      [some 1700000000100000, some 1700000001600000] by decide +kernel] at htime
    simpa using htime
  have hsecond : ∀ time, HasPacketAt twoRotated 1 time → time = 1700000001700000 := by
    intro time htime
    rw [hasPacketAt_iff, show (fileRecords twoRotated 1).map (fun pkt => gateMicros pkt.header) =
      [some 1700000001700000] by decide +kernel] at htime
    simpa using htime
  rw [hsort]
  refine ⟨by decide, ?_, ?_⟩
  · intro f hf time htime
    have hf : f = (1700000000, 0) ∨ f = (1700000001, 1) := by simpa [twoFiles] using hf
    rcases hf with rfl | rfl
    · rcases hfirst time htime with rfl | rfl <;> decide +kernel
    · obtain rfl := hsecond time htime
      decide +kernel
  · intro f g hfg time htime
    have hfg : (1700000000, 0) = f ∧ (1700000001, 1) = g := by
      rw [twoFiles, follows_cons_cons, follows_cons_cons] at hfg
      simpa [Follows] using hfg
    obtain ⟨rfl, rfl⟩ := hfg
    rcases hfirst time htime with rfl | rfl <;> decide +kernel

/-- With no margin the last packet of the first capture is lost, though it lies in the window. -/
theorem twoRotated_not_lossless :
    Rotated twoRotated (sortFiles twoFiles) ∧
      ¬ Lossless .quiet twoRotated ⟨0⟩ halfSecond [(toLex (0, toLex ("log", 1)), twoFiles)] (.ok [])
        ([] : List UInt8) := by
  refine ⟨twoRotated_rotated, fun lossless => ?_⟩
  have hwindow : InWindow twoRotated halfSecond 0 1700000001600000 :=
    ⟨hasPacketAt_iff.mpr (by decide +kernel), by decide +kernel, by decide +kernel⟩
  have hkept := lossless.kept _ List.mem_cons_self (1700000000, 0) List.mem_cons_self _ hwindow
  revert hkept
  decide +kernel

/-- With a margin of a second nothing is lost. -/
theorem twoRotated_lossless_of_margin :
    Lossless .quiet twoRotated ⟨1000000⟩ halfSecond [(toLex (0, toLex ("log", 1)), twoFiles)]
      (.ok []) ([] : List UInt8) := by
  have quiet : Quiet .quiet halfSecond.limits := ⟨rfl, rfl, fun _ => rfl⟩
  refine (fetchSpool_lossless_iff quiet Sink.vec ?_ ?_).mpr ?_
  · rintro g - f - path - err h
    cases h
  · intro g hg
    obtain rfl : g = (toLex (0, toLex ("log", 1)), twoFiles) := by simpa using hg
    exact twoRotated_rotated
  · intro g _
    exact Spared.of_margin (by decide +kernel)

end EveBox.Pcap
