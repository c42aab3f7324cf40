import EveBox.Rules.LoadTheorems
import EveBox.Rules.Watch

/-!
# When the rules follow their files

* `settled_of_rescan` — what a scan does for a file.
* `upToDate_of_detects` — runs in which every modification can be detected.
-/

namespace EveBox.Rules

open Rust Transition

section

variable {Path : Type*} [DecidableEq Path] {scan : RuleScanner}

/-! ## A scan -/

section

variable {fs : FileSystem Path} {inner : Inner Path} {path other : Path} {sid : ℕ}

theorem lastRule_of_not_mem {rules : List (ℕ × List Char)} (h : sid ∉ rules.map (·.1)) : lastRule rules sid = none := by
  have hnil : (rules.filter fun rule => rule.1 = sid) = [] :=
    List.filter_eq_nil_iff.mpr fun rule hrule heq => h (List.mem_map.mpr ⟨rule, hrule, of_decide_eq_true heq⟩)
  rw [lastRule, hnil]
  rfl

theorem lastRule_isSome {rules : List (ℕ × List Char)} (h : sid ∈ rules.map (·.1)) : (lastRule rules sid).isSome = true := by
  obtain ⟨rule, hrule, rfl⟩ := List.mem_map.mp h
  have hmem : rule ∈ rules.filter fun r => r.1 = rule.1 := List.mem_filter.mpr ⟨hrule, decide_eq_true rfl⟩
  rw [lastRule, Option.isSome_map, Option.isSome_iff_ne_none, Ne, List.getLast?_eq_none_iff]
  exact List.ne_nil_of_mem hmem

/-- The accepted lines of every file are read. -/
def AllReadable (scan : RuleScanner) (fs : FileSystem Path) : Prop :=
  ∀ path content, fs.content path = some content → Readable scan content

omit [DecidableEq Path] in
/-- A file without the sid leaves its rule as it is. -/
theorem loadPath_other (hread : AllReadable scan fs) (hmodified : (fs.modified other).isSome = true)
    (h : ¬OccursIn scan fs other sid) : (inner.loadPath scan fs other).map sid = inner.map sid := by
  unfold Inner.loadPath
  split
  · rfl
  · rename_i content hcontent
    have hnot : sid ∉ (accepted scan content).map (·.1) := fun hmem => h ⟨hmodified, content, hcontent, hmem⟩
    dsimp only
    rw [(insertions_eq_accepted content).mpr (hread other content hcontent), foldl_insertRule, lastRule_of_not_mem hnot,
      Option.none_or]

omit [DecidableEq Path] in
/-- A file with the sid gives its last rule. -/
theorem loadPath_self (hread : AllReadable scan fs) (h : OccursIn scan fs path sid) :
    (inner.loadPath scan fs path).map sid = currentRule scan fs path sid := by
  obtain ⟨-, content, hcontent, hmem⟩ := h
  obtain ⟨rule, hrule⟩ := Option.isSome_iff_exists.mp (lastRule_isSome hmem)
  rw [Inner.loadPath, hcontent, currentRule, hcontent, Option.bind_some]
  dsimp only
  rw [(insertions_eq_accepted content).mpr (hread path content hcontent), foldl_insertRule, hrule, Option.some_or]

theorem visit_files (inner : Inner Path) (path other : Path) :
    (inner.visit scan fs path).files other = if other = path ∧ (fs.modified path).isSome = true then
      (fs.modified path).map (· / 1000000000) else inner.files other := by
  have hload : ∀ inner : Inner Path, (inner.loadPath scan fs path).files = inner.files := fun inner => by
    unfold Inner.loadPath
    split <;> rfl
  unfold Inner.visit
  cases hmodified : fs.modified path with
  | none => simp
  | some modified =>
      dsimp only
      rw [apply_ite Inner.files, hload, ite_self]
      by_cases hother : other = path
      · subst hother
        simp
      · simp [hother]

theorem visit_other (hread : AllReadable scan fs) (h : ¬OccursIn scan fs other sid) :
    (inner.visit scan fs other).map sid = inner.map sid := by
  unfold Inner.visit
  cases hmodified : fs.modified other with
  | none => rfl
  | some modified =>
      dsimp only
      split
      · exact loadPath_other hread (by rw [hmodified]; rfl) h
      · rfl

theorem visit_self (hread : AllReadable scan fs) (h : OccursIn scan fs path sid) {modified : ℤ}
    (hmodified : fs.modified path = some modified) :
    (inner.visit scan fs path).map sid = if (inner.files path).all (· < modified / 1000000000) then
      currentRule scan fs path sid else inner.map sid := by
  unfold Inner.visit
  rw [hmodified]
  dsimp only
  split
  · exact loadPath_self hread h
  · rfl

/-- A scan gives the sid the rule of the only file that has it, unless it is there, if the file is new or its time is. -/
theorem foldl_visit (hread : AllReadable scan fs) {paths all : List Path} (hall : ∀ p ∈ paths, p ∈ all)
    (honly : OccursOnly scan fs all path sid) {modified : ℤ} (hmodified : fs.modified path = some modified) (inner : Inner Path)
    (h : inner.map sid = currentRule scan fs path sid ∨
      path ∈ paths ∧ ∀ prev ∈ inner.files path, prev < modified / 1000000000) :
    (paths.foldl (Inner.visit scan fs) inner).map sid = currentRule scan fs path sid := by
  induction paths generalizing inner with
  | nil => exact h.resolve_right fun hmem => List.not_mem_nil hmem.1
  | cons first paths ih =>
      rw [List.foldl_cons]
      refine ih (fun p hp => hall p (List.mem_cons_of_mem _ hp)) (inner.visit scan fs first) ?_
      by_cases hfirst : first = path
      · subst hfirst
        left
        rw [visit_self hread honly.1 hmodified]
        split_ifs with hnew
        · rfl
        · refine h.resolve_right fun hmem => hnew ?_
          cases hfiles : inner.files first with
          | none => rfl
          | some prev => exact decide_eq_true (hmem.2 prev hfiles)
      · have hnot : ¬OccursIn scan fs first sid := fun hin => hfirst (honly.2 first (hall first List.mem_cons_self) hin)
        rw [visit_other hread hnot, visit_files, if_neg fun hpath => hfirst hpath.1.symm]
        exact h.imp_right fun ⟨hmem, hprev⟩ => ⟨(List.mem_cons.mp hmem).resolve_left (Ne.symm hfirst), hprev⟩

/-- A file that is recorded stays so, and all that are scanned are. -/
theorem foldl_visit_files (paths : List Path) (inner : Inner Path) (hmodified : (fs.modified path).isSome = true)
    (h : path ∈ paths ∨ (inner.files path).isSome = true) :
    ((paths.foldl (Inner.visit scan fs) inner).files path).isSome = true := by
  induction paths generalizing inner with
  | nil => exact h.resolve_left List.not_mem_nil
  | cons first paths ih =>
      rw [List.foldl_cons]
      refine ih (inner.visit scan fs first) ?_
      by_cases hfirst : first = path
      · subst hfirst
        right
        rw [visit_files, if_pos ⟨rfl, hmodified⟩, Option.isSome_map]
        exact hmodified
      · rw [visit_files, if_neg fun hpath => hfirst hpath.1.symm]
        exact h.imp_left fun hmem => (List.mem_cons.mp hmem).resolve_left (Ne.symm hfirst)

end

/-! ## A pass of the loop -/

section

variable {s s' : Watch Path}

omit [DecidableEq Path] in
/-- The loop reloads if a file has a time after the last. -/
theorem foldl_check (fs : FileSystem Path) (paths : List Path) (state : Bool × ℤ) :
    (paths.foldl (Watch.check fs) state).1 = true ↔
      state.1 = true ∨ ∃ path ∈ paths, ∃ modified ∈ fs.modified path, state.2 < modified := by
  induction paths generalizing state with
  | nil => simp
  | cons path paths ih =>
      rw [List.foldl_cons, ih]
      unfold Watch.check
      cases hmodified : fs.modified path with
      | none => simp [hmodified]
      | some modified =>
          dsimp only
          split_ifs with hlt
          · simp [hmodified, hlt]
          · simp [hmodified, hlt]

/-- What holds between the steps. -/
structure WatchInv (scan : RuleScanner) (s : Watch Path) : Prop where
  recorded : ∀ path ∈ s.paths, (s.fs.modified path).isSome = true → (s.inner.files path).isSome = true
  readable : AllReadable scan s.fs
  settled : ∀ path ∈ s.paths, ∀ sid, OccursOnly scan s.fs s.paths path sid →
    s.inner.findBySid sid = currentRule scan s.fs path sid ∨ Pending s path
  polled : s.polled = true → UpToDate scan s

theorem WatchInv.start (scan : RuleScanner) (filenames : List String) {fs : FileSystem Path} (now : ℤ)
    (hread : AllReadable scan fs) : WatchInv scan (.start scan filenames fs now) := by
  have hsettled : UpToDate scan (.start scan filenames fs now) := by
    intro path hpath sid honly
    obtain ⟨modified, hmodified⟩ := Option.isSome_iff_exists.mp honly.1.1
    exact foldl_visit hread (fun p hp => hp) honly hmodified Inner.new (.inr ⟨hpath, nofun⟩)
  exact {
    recorded := fun path hpath hmodified => foldl_visit_files _ Inner.new hmodified (.inl hpath)
    readable := hread
    settled := fun path hpath sid honly => .inl (hsettled path hpath sid honly)
    polled := fun _ => hsettled }

/-- A poll loads what is pending. -/
theorem WatchInv.poll (h : WatchInv scan s) : WatchInv scan (s.poll scan) := by
  have hreload : ∀ path ∈ s.paths, Pending s path →
      (s.recorded.foldl (Watch.check s.fs) (false, s.lastModified)).1 = true := by
    rintro path hpath ⟨modified, hmodified, hlt, -⟩
    have hsome : (s.fs.modified path).isSome = true := Option.isSome_iff_exists.mpr ⟨modified, hmodified⟩
    exact (foldl_check _ _ _).mpr
      (.inr ⟨path, List.mem_filter.mpr ⟨hpath, h.recorded path hpath hsome⟩, modified, hmodified, hlt⟩)
  have hsettled : UpToDate scan (s.poll scan) := by
    intro path hpath sid honly
    have hbefore := h.settled path hpath sid honly
    change (if _ then _ else _ : Inner Path).map sid = _
    split_ifs with hif
    · obtain ⟨modified, hmodified⟩ := Option.isSome_iff_exists.mp honly.1.1
      refine foldl_visit h.readable (fun p hp => hp) honly hmodified s.inner (hbefore.imp_right ?_)
      rintro ⟨modified', hmodified', -, hprev⟩
      obtain rfl : modified = modified' := Option.some.inj (hmodified.symm.trans hmodified')
      exact ⟨hpath, hprev⟩
    · exact hbefore.resolve_right fun hpending => hif (hreload path hpath hpending)
  exact {
    recorded := by
      intro path hpath hmodified
      change ((if _ then _ else _ : Inner Path).files path).isSome = true
      split_ifs
      · exact foldl_visit_files _ s.inner hmodified (.inl hpath)
      · exact h.recorded path hpath hmodified
    readable := h.readable
    settled := fun path hpath sid honly => .inl (hsettled path hpath sid honly)
    polled := fun _ => hsettled }

/-- A modification that can be detected makes its file pending. -/
theorem WatchInv.modify {path : Path} {content : Bytes} {modified : ℤ} (h : WatchInv scan s)
    (hdetect : Detectable scan s path content modified) (hstep : s.modify path content modified = some s') :
    WatchInv scan s' := by
  unfold Watch.modify at hstep
  split at hstep
  · cases hstep
  · rename_i previous hprevious
    split_ifs at hstep with hmodify
    obtain rfl := Option.some.inj hstep
    have hsame : ∀ other, other ≠ path →
        (Watch.rewrite s.fs path content modified).modified other = s.fs.modified other ∧
          (Watch.rewrite s.fs path content modified).content other = s.fs.content other := fun other hother =>
      ⟨Function.update_of_ne hother _ _, Function.update_of_ne hother _ _⟩
    have hself : (Watch.rewrite s.fs path content modified).modified path = some modified := Function.update_self _ _ _
    exact {
      recorded := by
        intro other hother hmodified
        by_cases hpath : other = path
        · subst hpath
          exact h.recorded other hother (by rw [hprevious]; rfl)
        · refine h.recorded other hother ?_
          rw [← (hsame other hpath).1]
          exact hmodified
      readable := by
        intro other content' hcontent'
        by_cases hpath : other = path
        · subst hpath
          have hnew : (Watch.rewrite s.fs other content modified).content other = some content := Function.update_self _ _ _
          obtain rfl : content = content' := Option.some.inj (hnew.symm.trans hcontent')
          exact hdetect.readable
        · exact h.readable other content' ((hsame other hpath).2.symm.trans hcontent')
      settled := by
        intro other hother sid honly
        by_cases hpath : other = path
        · subst hpath
          exact .inr ⟨modified, hself, hdetect.later, hdetect.seconds⟩
        · rcases hdetect.others other hother hpath sid honly with hcurrent | ⟨modified', hmodified', hpending⟩
          · left
            change s.inner.findBySid sid = _
            rw [hcurrent, currentRule, currentRule, (hsame other hpath).2]
          · exact .inr ⟨modified', (hsame other hpath).1.trans hmodified', hpending⟩
      polled := nofun }

theorem WatchInv.step (s : Watch Path) (op : WatchOp Path) (s' : Watch Path) (h : WatchInv scan s)
    (hdetect : s.Detects scan op) (hstep : s.step scan op = some s') : WatchInv scan s' := by
  cases op with
  | poll =>
      obtain rfl := Option.some.inj hstep
      exact h.poll
  | modify path content modified => exact h.modify hdetect hstep

/-- In every run whose modifications can be detected, the rules that are in one file only are what the file has, once there
has been a poll. -/
theorem upToDate_of_detects (scan : RuleScanner) (filenames : List String) (fs : FileSystem Path) (now : ℤ)
    (ops : List (WatchOp Path)) (s : Watch Path) (hread : AllReadable scan fs)
    (hdetect : Along (Watch.step scan) (fun s op => s.Detects scan op) (.start scan filenames fs now) ops)
    (h : exec (Watch.step scan) (.start scan filenames fs now) ops = some s) (hpolled : s.polled = true) :
    UpToDate scan s :=
  (invariant_along WatchInv.step (WatchInv.start scan filenames now hread) hdetect h).polled hpolled

/-- A rule of the sid 1, and a later one. -/
def firstContent : Bytes := [97, 98, 10]

def secondContent : Bytes := [97, 99, 10]

/-- One file, that is rewritten twice within a second, with a poll behind each. -/
def twiceInASecond : List (WatchOp Unit) :=
  [.modify () firstContent 10000000000, .poll, .modify () secondContent 10500000000, .poll]

/-- The first of two modifications within a second is what is loaded. -/
theorem twiceInASecond_not_upToDate : ∃ s, exec (Watch.step oneSid) (.start oneSid ["x"] (.single []) 0) twiceInASecond =
    some s ∧ s.polled = true ∧ ¬UpToDate oneSid s := by
  refine ⟨_, rfl, rfl, fun h => ?_⟩
  have honly := h () List.mem_cons_self 1 ⟨⟨rfl, secondContent, rfl, by decide⟩, fun _ _ _ => rfl⟩
  have hinserted : insertions oneSid firstContent = [(1, ['a', 'b'])] := (insertions_eq firstContent).trans (by decide)
  have hmap := honly.symm.trans (congrFun (congrArg (fun rules => rules.foldl insertRule
    (Inner.loadRules oneSid (.single []) ["x"]).map) hinserted) 1)
  have hcurrent : lastRule (accepted oneSid secondContent) 1 = some ['a', 'c'] := by decide
  exact absurd (hcurrent.symm.trans hmap) (by simp [insertRule])

/-- A file that is rewritten once. -/
theorem upToDate_once : ∃ s, exec (Watch.step oneSid) (.start oneSid ["x"] (.single []) 0)
    [.modify () firstContent 10000000000, .poll] = some s ∧ UpToDate oneSid s := by
  refine ⟨_, rfl, upToDate_of_detects oneSid ["x"] (.single []) 0 [.modify () firstContent 10000000000, .poll] _ ?_ ?_ rfl rfl⟩
  · rintro path content ⟨⟩
    unfold Readable
    decide
  · refine ⟨?_, fun _ _ => ⟨trivial, fun _ _ => trivial⟩⟩
    exact {
      readable := by
        unfold Readable
        decide
      later := by decide
      seconds := by
        rintro prev ⟨⟩
        decide
      others := fun _ _ hother => absurd rfl hother }

end

end

end EveBox.Rules
