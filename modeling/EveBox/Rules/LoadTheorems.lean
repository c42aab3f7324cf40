import Mathlib.Data.List.Dedup
import Mathlib.Data.List.Induction
import EveBox.Rules.Load

/-!
# Which rules are loaded

* `readRules_eq` — the loop reads the logical lines up to the first that is not complete.
* `allLoaded_iff` — when no accepted line is lost.
-/

namespace EveBox.Rules

open Rust

/-! ## Reading -/

section

variable {lines : List Bytes}

/-- What a physical line adds, and whether it goes on. -/
theorem readNextRule_cons (line : List Char) (bytes : Bytes) (lines : List Bytes) :
    readNextRule line (bytes :: lines) = match (physicalLine bytes).text with
      | none => .error ()
      | some tmp =>
          if (physicalLine bytes).continued then readNextRule (line ++ tmp) lines else .ok (some (line ++ tmp, lines)) := by
  rw [readNextRule, physicalLine]
  cases utf8Decode bytes with
  | none => rfl
  | some tmp =>
      by_cases hlast : (trim tmp).getLast? = some '\\'
      · simp only [if_pos hlast]
        rfl
      · simp only [if_neg hlast]
        rfl

/-- A complete logical line is read. -/
theorem readNextRule_of_complete (line : List Char) {l : LogicalLine} {rest : List LogicalLine}
    (h : logicalLines (lines.map physicalLine) = l :: rest) (hcomplete : l.complete = true) :
    ∃ text input, l.text = some text ∧ readNextRule line lines = .ok (some (line ++ text, input)) ∧
      logicalLines (input.map physicalLine) = rest := by
  induction lines generalizing line l with
  | nil => cases h
  | cons bytes lines ih =>
      rw [readNextRule_cons]
      rw [List.map_cons, logicalLines] at h
      split_ifs at h ⊢ with hcontinued
      · cases hnext : logicalLines (lines.map physicalLine) with
        | nil =>
            rw [hnext] at h
            obtain ⟨rfl, -⟩ := List.cons.inj h
            rw [LogicalLine.complete, Bool.and_false] at hcomplete
            cases hcomplete
        | cons next rest' =>
            rw [hnext] at h
            obtain ⟨rfl, rfl⟩ := List.cons.inj h
            obtain ⟨hsome, hended⟩ := Bool.and_eq_true_iff.mp hcomplete
            obtain ⟨text, htext⟩ := Option.isSome_iff_exists.mp hsome
            obtain ⟨piece, hpiece, hbind⟩ := Option.bind_eq_some_iff.mp htext
            obtain ⟨tail, htail, rfl⟩ := Option.map_eq_some_iff.mp hbind
            have hnext' : next.complete = true := by
              rw [LogicalLine.complete, htail, Option.isSome_some, Bool.true_and]
              exact hended
            obtain ⟨text', input, htext', hread, hrest⟩ := ih (line ++ piece) hnext hnext'
            obtain rfl : tail = text' := Option.some.inj (htail.symm.trans htext')
            refine ⟨_, input, htext, ?_, hrest⟩
            rw [hpiece, ← List.append_assoc]
            exact hread
      · obtain ⟨rfl, rfl⟩ := List.cons.inj h
        obtain ⟨text, htext⟩ := Option.isSome_iff_exists.mp (Bool.and_eq_true_iff.mp hcomplete).1
        have hpiece : (physicalLine bytes).text = some text := htext
        refine ⟨text, lines, htext, ?_, rfl⟩
        rw [hpiece]

/-- A logical line that is not complete is not read. -/
theorem readNextRule_of_not_complete (line : List Char) {l : LogicalLine} {rest : List LogicalLine}
    (h : logicalLines (lines.map physicalLine) = l :: rest) (hcomplete : l.complete = false) (rule : List Char)
    (input : List Bytes) : readNextRule line lines ≠ .ok (some (rule, input)) := by
  induction lines generalizing line l with
  | nil => cases h
  | cons bytes lines ih =>
      intro hread
      rw [readNextRule_cons] at hread
      rw [List.map_cons, logicalLines] at h
      split at hread
      · cases hread
      · rename_i piece hpiece
        split_ifs at h hread with hcontinued
        · cases hnext : logicalLines (lines.map physicalLine) with
          | nil =>
              cases lines with
              | nil => cases hread
              | cons bytes' lines =>
                  rw [List.map_cons, logicalLines] at hnext
                  split_ifs at hnext
                  split at hnext <;> cases hnext
          | cons next rest' =>
              rw [hnext] at h
              obtain ⟨rfl, rfl⟩ := List.cons.inj h
              have hnext' : next.complete = false := by
                rw [LogicalLine.complete, LogicalLine.prepend, hpiece, Option.bind_some, Option.isSome_map] at hcomplete
                exact hcomplete
              exact ih (line ++ piece) hnext hnext' hread
        · obtain ⟨rfl, rfl⟩ := List.cons.inj h
          rw [LogicalLine.complete, hpiece] at hcomplete
          cases hcomplete

/-- The loop reads the logical lines up to the first that is not complete. -/
theorem readRules_eq (lines : List Bytes) : readRules lines =
    ((logicalLines (lines.map physicalLine)).takeWhile (·.complete)).filterMap (·.text) := by
  rw [readRules]
  cases hlogical : logicalLines (lines.map physicalLine) with
  | nil =>
      cases lines with
      | nil => rfl
      | cons bytes lines =>
          rw [List.map_cons, logicalLines] at hlogical
          split_ifs at hlogical
          split at hlogical <;> cases hlogical
  | cons l rest =>
      cases hcomplete : l.complete with
      | true =>
          obtain ⟨text, input, htext, hread, hrest⟩ := readNextRule_of_complete [] hlogical hcomplete
          have hless := length_of_readNextRule hread
          rw [List.takeWhile_cons_of_pos hcomplete, List.filterMap_cons_some htext, ← hrest, ← readRules_eq input]
          split
          · rename_i rule input' hread'
            obtain ⟨rfl, rfl⟩ := Prod.mk.inj (Option.some.inj (Except.ok.inj (hread.symm.trans hread')))
            rfl
          · rename_i hread'
            cases hread.symm.trans hread'
          · rename_i hread'
            cases hread.symm.trans hread'
      | false =>
          have hnot := readNextRule_of_not_complete [] hlogical hcomplete
          rw [List.takeWhile_cons_of_neg (by rw [hcomplete]; decide)]
          split
          · rename_i rule input hread
            exact absurd hread (hnot rule input)
          · rfl
          · rfl
termination_by lines.length

end

/-! ## The map -/

theorem lastRule_cons (rule : ℕ × List Char) (rules : List (ℕ × List Char)) (sid : ℕ) :
    lastRule (rule :: rules) sid = (lastRule rules sid).or (if rule.1 = sid then some rule.2 else none) := by
  unfold lastRule
  by_cases hsid : rule.1 = sid
  · rw [List.filter_cons_of_pos (by simpa using hsid), List.getLast?_cons, if_pos hsid]
    cases (rules.filter fun r => r.1 = sid).getLast? <;> rfl
  · rw [List.filter_cons_of_neg (by simpa using hsid), if_neg hsid, Option.or_none]

/-- A map has the last rule that has been inserted. -/
theorem foldl_insertRule (rules : List (ℕ × List Char)) (map : ℕ → Option (List Char)) (sid : ℕ) :
    rules.foldl insertRule map sid = (lastRule rules sid).or (map sid) := by
  induction rules generalizing map with
  | nil => rfl
  | cons rule rules ih =>
      rw [List.foldl_cons, ih, lastRule_cons, Option.or_assoc]
      congr 1
      unfold insertRule
      by_cases hsid : rule.1 = sid
      · subst hsid
        rw [Function.update_self, if_pos rfl, Option.some_or]
      · rw [Function.update_of_ne (Ne.symm hsid), if_neg hsid, Option.none_or]

section

variable {Path : Type*} [DecidableEq Path] (scan : RuleScanner) (fs : FileSystem Path)

/-- Paths, each where it comes first. -/
def firsts (paths : List Path) : List Path := (paths.filter fun path => (fs.modified path).isSome).reverse.dedup.reverse

theorem firsts_concat {path : Path} {modified : ℤ} (hmodified : fs.modified path = some modified) (paths : List Path) :
    firsts fs (paths ++ [path]) = if path ∈ paths then firsts fs paths else firsts fs paths ++ [path] := by
  unfold firsts
  rw [List.filter_append, List.filter_cons_of_pos (by rw [hmodified]; rfl), List.filter_nil, List.reverse_append,
    List.reverse_singleton, List.singleton_append]
  have hmem : path ∈ (paths.filter fun path => (fs.modified path).isSome).reverse ↔ path ∈ paths := by
    rw [List.mem_reverse, List.mem_filter, hmodified]
    exact and_iff_left rfl
  split_ifs with h
  · rw [List.dedup_cons_of_mem (hmem.mpr h)]
  · rw [List.dedup_cons_of_notMem (fun hin => h (hmem.mp hin)), List.reverse_cons]

/-- The first scan: each file is loaded where it comes first, with its time. -/
theorem foldl_visit_new (paths : List Path) : paths.foldl (Inner.visit scan fs) Inner.new =
    ⟨(((firsts fs paths).filterMap fs.content).flatMap (insertions scan)).foldl insertRule fun _ => none,
      fun path => if path ∈ paths then (fs.modified path).map (· / 1000000000) else none⟩ := by
  induction paths using List.reverseRecOn with
  | nil => rfl
  | append_singleton paths path ih =>
      rw [List.foldl_append, List.foldl_cons, List.foldl_nil, ih, Inner.visit]
      cases hmodified : fs.modified path with
      | none =>
          have hfirsts : firsts fs (paths ++ [path]) = firsts fs paths := by
            rw [firsts, List.filter_append, List.filter_cons_of_neg (by rw [hmodified]; decide), List.filter_nil,
              List.append_nil, firsts]
          dsimp only
          rw [hfirsts, Inner.mk.injEq]
          refine ⟨rfl, funext fun other => ?_⟩
          by_cases hother : other = path
          · subst hother
            simp [hmodified]
          · simp [hother]
      | some modified =>
          have hfiles : (Function.update (fun other => if other ∈ paths then (fs.modified other).map (· / 1000000000) else none)
              path (some (modified / 1000000000))) =
              fun other => if other ∈ paths ++ [path] then (fs.modified other).map (· / 1000000000) else none := by
            funext other
            by_cases hother : other = path
            · subst hother
              simp [hmodified]
            · simp [hother]
          dsimp only
          rw [hfiles, firsts_concat fs hmodified]
          by_cases hmem : path ∈ paths
          · have hsame : ¬(some (modified / 1000000000)).all (fun prev => decide (prev < modified / 1000000000)) = true := by
              simp
            rw [if_pos hmem, if_pos hmem, hmodified, Option.map_some, if_neg hsame]
          · rw [if_neg hmem, if_neg hmem, Option.all_none, if_pos rfl, Inner.loadPath, List.filterMap_append, List.flatMap_append,
              List.foldl_append]
            cases hcontent : fs.content path with
            | none => simp [hcontent]
            | some content => simp [hcontent]

theorem loadRules_map (filenames : List String) : (Inner.loadRules scan fs filenames).map =
    ((ruleFiles fs filenames).flatMap (insertions scan)).foldl insertRule fun _ => none := by
  rw [Inner.loadRules, Inner.rescan, foldl_visit_new]
  rfl

variable {scan fs}

/-- What is inserted of a file is what is accepted of the lines before the first that is not complete. -/
theorem insertions_eq (content : Bytes) :
    insertions scan content = ((linesOf content).takeWhile (·.complete)).filterMap (·.rule scan) := by
  rw [insertions, readRules_eq, List.filterMap_filterMap]
  rfl

theorem insertions_eq_accepted (content : Bytes) : insertions scan content = accepted scan content ↔
    ∀ l ∈ (linesOf content).dropWhile (·.complete), l.rule scan = none := by
  have hsplit : accepted scan content = insertions scan content ++
      ((linesOf content).dropWhile (·.complete)).filterMap (·.rule scan) := by
    rw [insertions_eq, ← List.filterMap_append, List.takeWhile_append_dropWhile]
    rfl
  rw [hsplit, eq_comm, List.append_right_eq_self, List.filterMap_eq_nil_iff]

/-- Every accepted logical line is loaded if and only if none comes at or behind one that cannot be decoded or has no
end. -/
theorem allLoaded_iff (scan : RuleScanner) (fs : FileSystem Path) (filenames : List String) :
    AllLoaded scan fs filenames ↔ AllRead scan fs filenames := by
  constructor
  · intro h content hcontent
    exact (insertions_eq_accepted content).mp (h.accounted content hcontent)
  · intro h
    have haccounted : ∀ content ∈ ruleFiles fs filenames, insertions scan content = accepted scan content :=
      fun content hcontent => (insertions_eq_accepted content).mpr (h content hcontent)
    refine ⟨haccounted, fun sid => ?_⟩
    have hflat : (ruleFiles fs filenames).flatMap (insertions scan) = (ruleFiles fs filenames).flatMap (accepted scan) :=
      List.flatMap_congr haccounted
    rw [Inner.findBySid, loadRules_map, foldl_insertRule, hflat, Option.or_none]

/-- One file with some content. -/
def FileSystem.single (content : Bytes) : FileSystem Unit := ⟨fun _ => [()], fun _ => some 0, fun _ => some content⟩

/-- A line that begins with an `a` is a rule with the sid 1. -/
def oneSid : RuleScanner := fun line => if line.head? = some 'a' then [some (.option "sid" (some ['1']))] else []

/-- A rule behind a line that is not UTF-8. -/
theorem undecodable_not_allLoaded : ¬AllLoaded oneSid (.single [0xFF, 10, 97, 10]) ["x"] := by
  intro h
  have hlost := (insertions_eq_accepted [0xFF, 10, 97, 10]).mp (h.accounted [0xFF, 10, 97, 10] (by decide))
  exact absurd (hlost ⟨some ['a'], true⟩ (by decide)) (by decide)

/-- A rule whose line should go on where the file ends. -/
example : (linesOf [97, 92]).dropWhile (·.complete) = [⟨some ['a'], false⟩] := by decide

end

end EveBox.Rules
