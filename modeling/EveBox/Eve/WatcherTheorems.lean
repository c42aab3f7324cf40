import EveBox.Eve.Watcher

/-!
# What the watcher and its readers see

Reference: `src/eve/watcher.rs` and `src/eve/spool.rs`.

* `watch_law` — every input that is found has one reader, and no file is opened by two.
* `watch_complete` — a reader leaves out no file of its spool.
-/

namespace EveBox.Eve

open Rust EveInput Transition

/-! ## Groups -/

section

variable {stop : Bool} {found : List FoundPath} {inputs : SortedMap InputKey EveInput}

/-- The inputs of the paths so far: each is that of a path, each path has its key there, and a spool has the first of
its files, or the last. -/
structure FoundInv (stop : Bool) (found : List FoundPath) (inputs : SortedMap InputKey EveInput) : Prop where
  origin : ∀ k v, inputs.get? k = some v → ∃ p ∈ found, fromPath p.name = v ∧ p.key = k
  present : ∀ p ∈ found, ∃ v, inputs.get? p.key = some v
  best : ∀ k f, inputs.get? k = some (.spool f) → ∀ p ∈ found, p.key = k → ∀ g, SpoolFile.parse p.name = some g →
    replaces stop g f = false

/-- A path whose input is put into the map. -/
theorem FoundInv.insert (h : FoundInv stop found inputs) {p : FoundPath}
    (hbest : ∀ f, SpoolFile.parse p.name = some f → ∀ q ∈ found, q.key = p.key → ∀ g, SpoolFile.parse q.name = some g →
      replaces stop g f = false) :
    FoundInv stop (found ++ [p]) (inputs.insert p.key (fromPath p.name)) where
  origin k v hv := by
    rw [SortedMap.get?_insert] at hv
    split_ifs at hv with hk
    · exact ⟨p, List.mem_append_right _ (List.mem_singleton_self p), Option.some.inj hv, hk.symm⟩
    · obtain ⟨q, hq, hqv⟩ := h.origin k v hv
      exact ⟨q, List.mem_append_left _ hq, hqv⟩
  present q hq := by
    rw [SortedMap.get?_insert]
    split_ifs with hk
    · exact ⟨_, rfl⟩
    · rcases List.mem_append.mp hq with hq | hq
      · exact h.present q hq
      · obtain rfl := List.mem_singleton.mp hq
        exact absurd rfl hk
  best k f hf q hq hqk g hg := by
    rw [SortedMap.get?_insert] at hf
    split_ifs at hf with hk
    · have hp := fromPath_spool.mp (Option.some.inj hf)
      rcases List.mem_append.mp hq with hq | hq
      · exact hbest f hp q hq (hqk.trans hk) g hg
      · obtain rfl := List.mem_singleton.mp hq
        obtain rfl := Option.some.inj (hg.symm.trans hp)
        exact replaces_irrefl stop g
    · rcases List.mem_append.mp hq with hq | hq
      · exact h.best k f hf q hq hqk g hg
      · obtain rfl := List.mem_singleton.mp hq
        exact absurd hqk.symm hk

/-- A path whose input is left out. -/
theorem FoundInv.skip (h : FoundInv stop found inputs) {p : FoundPath} {v : EveInput}
    (hv : inputs.get? p.key = some v)
    (hbest : ∀ f g, v = .spool f → SpoolFile.parse p.name = some g → replaces stop g f = false) :
    FoundInv stop (found ++ [p]) inputs where
  origin k v hv := by
    obtain ⟨q, hq, hqv⟩ := h.origin k v hv
    exact ⟨q, List.mem_append_left _ hq, hqv⟩
  present q hq := by
    rcases List.mem_append.mp hq with hq | hq
    · exact h.present q hq
    · obtain rfl := List.mem_singleton.mp hq
      exact ⟨v, hv⟩
  best k f hf q hq hqk g hg := by
    rcases List.mem_append.mp hq with hq | hq
    · exact h.best k f hf q hq hqk g hg
    · obtain rfl := List.mem_singleton.mp hq
      rw [← hqk, hv] at hf
      exact hbest f g (Option.some.inj hf) hg

/-- A round of the loop. -/
theorem FoundInv.collect (h : FoundInv stop found inputs) (p : FoundPath) :
    FoundInv stop (found ++ [p]) (collect p.parent stop inputs p.name) := by
  unfold EveInput.collect
  dsimp only
  cases hcurrent : inputs.get? ((fromPath p.name).key p.parent) with
  | none =>
      refine h.insert fun f _ q hq hqk _ _ => ?_
      -- the key of another file of the stream would be there
      obtain ⟨v, hv⟩ := h.present q hq
      rw [hqk, FoundPath.key, hcurrent] at hv
      cases hv
  | some v =>
      cases v with
      | file path => exact h.skip hcurrent fun _ _ heq => by cases heq
      | spool current =>
          cases hp : fromPath p.name with
          | file path =>
              refine h.skip hcurrent fun f g _ hg => ?_
              rw [(fromPath_file.mp hp).1] at hg
              cases hg
          | spool f =>
              have hparse := fromPath_spool.mp hp
              dsimp only
              split_ifs with hreplaces
              · rw [← hp]
                refine h.insert fun f' hf' q hq hqk g hg => ?_
                obtain rfl := Option.some.inj (hparse.symm.trans hf')
                exact replaces_trans hreplaces (h.best _ _ hcurrent q hq hqk g hg)
              · refine h.skip hcurrent fun f' g heq hg => ?_
                obtain rfl := Option.some.inj (hparse.symm.trans hg)
                obtain rfl := EveInput.spool.inj heq
                exact Bool.eq_false_iff.mpr hreplaces

theorem FoundInv.foldl (paths : List FoundPath) : ∀ {found : List FoundPath} {inputs : SortedMap InputKey EveInput},
    FoundInv stop found inputs → FoundInv stop (found ++ paths)
      (paths.foldl (fun inputs p => EveInput.collect p.parent stop inputs p.name) inputs) := by
  induction paths with
  | nil =>
      intro found inputs h
      rw [List.append_nil]
      exact h
  | cons p paths ih =>
      intro found inputs h
      have hrest := ih (h.collect p)
      rw [List.append_assoc] at hrest
      exact hrest

theorem foundInv_group (stop : Bool) (found : List FoundPath) : FoundInv stop found (groupFound stop found) :=
  FoundInv.foldl found ⟨fun _ _ h => (by cases h), fun _ h => absurd h List.not_mem_nil, fun _ _ h => (by cases h)⟩

end

/-! ## Checks -/

namespace EvePatternWatcher

variable {w : EvePatternWatcher} {found : List FoundPath}

/-- The inputs of a check that are new to the watcher. -/
def fresh (w : EvePatternWatcher) (entries : List (InputKey × EveInput)) : List StartedReader :=
  (entries.filter fun e => !w.filenames.contains e.1).map fun e => startFile e.1 e.2

theorem checkInput_foldl {entries : List (InputKey × EveInput)} (hnodup : (entries.map (·.1)).Nodup) :
    ∀ (w : EvePatternWatcher) (started : List StartedReader), entries.foldl checkInput (w, started) =
      ({ w with filenames := w.filenames ++ (w.fresh entries).map (·.key) }, started ++ w.fresh entries) := by
  induction entries with
  | nil =>
      intro w started
      simp [fresh]
  | cons e entries ih =>
      intro w started
      obtain ⟨hnot, hnodup⟩ := List.nodup_cons.mp hnodup
      rw [List.foldl_cons, checkInput]
      dsimp only
      by_cases hmem : e.1 ∈ w.filenames
      · rw [if_pos hmem, ih hnodup]
        simp [fresh, hmem]
      · rw [if_neg hmem, ih hnodup]
        -- the key of this input is that of no other one
        have hrest : (entries.filter fun e' => !(w.filenames ++ [e.1]).contains e'.1) =
            entries.filter fun e' => !w.filenames.contains e'.1 := by
          refine List.filter_congr fun e' he' => ?_
          have hne : e'.1 ≠ e.1 := fun heq => hnot (List.mem_map.mpr ⟨e', he', heq⟩)
          simp [hne]
        have hfresh : w.fresh (e :: entries) = startFile e.1 e.2 :: w.fresh entries := by
          rw [fresh, List.filter_cons_of_pos (by simpa using hmem)]
          rfl
        rw [fresh, hrest, ← fresh, hfresh, List.map_cons, List.append_assoc, List.append_assoc]
        rfl

theorem check_eq (w : EvePatternWatcher) (found : List FoundPath) :
    w.check found = ({ w with filenames := w.filenames ++ (w.fresh (groupFound w.stop found).entries).map (·.key) },
      w.fresh (groupFound w.stop found).entries) := by
  refine (checkInput_foldl ?_ w []).trans (by rw [List.nil_append])
  rw [List.Nodup, List.pairwise_map]
  exact (groupFound w.stop found).sorted.imp fun h => ne_of_lt h

/-- A reader that is started has a new key, and the file that is selected for its input. -/
theorem mem_check {r : StartedReader} (h : r ∈ (w.check found).2) :
    r.key ∉ w.filenames ∧ (groupFound w.stop found).get? r.key = some r.input ∧ r.visited = [] := by
  rw [check_eq, fresh] at h
  obtain ⟨e, he, rfl⟩ := List.mem_map.mp h
  obtain ⟨he, hnew⟩ := List.mem_filter.mp he
  have hnew : e.1 ∉ w.filenames := by simpa using hnew
  exact ⟨hnew, SortedMap.get?_eq_some.mpr he, rfl⟩

theorem nodup_check (w : EvePatternWatcher) (found : List FoundPath) : ((w.check found).2.map (·.key)).Nodup := by
  have hsorted : ((groupFound w.stop found).entries.map (·.1)).Nodup := by
    rw [List.Nodup, List.pairwise_map]
    exact (groupFound w.stop found).sorted.imp fun h => ne_of_lt h
  rw [check_eq, fresh, List.map_map]
  exact hsorted.sublist (List.filter_sublist.map _)

/-- The watcher has every path that is found. -/
theorem key_mem_check {p : FoundPath} (hp : p ∈ found) : p.key ∈ (w.check found).1.filenames := by
  obtain ⟨v, hv⟩ := (foundInv_group w.stop found).present p hp
  rw [check_eq, List.mem_append, fresh, List.map_map]
  by_cases hmem : p.key ∈ w.filenames
  · exact .inl hmem
  · exact .inr (List.mem_map.mpr ⟨(p.key, v), List.mem_filter.mpr
      ⟨SortedMap.get?_eq_some.mp hv, by simpa using hmem⟩, rfl⟩)

end EvePatternWatcher

/-! ## Readers -/

namespace StartedReader

variable {r r' : StartedReader} {entries : List String}

/-- The files of its spool that a reader has opened. -/
def files (r : StartedReader) : List SpoolFile := r.visited ++ r.input.spoolFile.toList

/-- A reader keeps to its input, and goes through its spool in the order of time. -/
structure Inv (r : StartedReader) : Prop where
  plain : ∀ name, r.input = .file name → SpoolFile.parse name = none ∧ (ofLex r.key).2 = name ∧ r.visited = []
  spool : ∀ f ∈ r.files, SpoolFile.parse f.path = some f ∧ (ofLex r.key).2 = f.key
  ordered : r.files.Pairwise fun f g => f.timestamp < g.timestamp

theorem files_of_spool {f : SpoolFile} (h : r.input = .spool f) : r.files = r.visited ++ [f] := by
  rw [files, h]
  rfl

theorem mem_files_of_spool {f : SpoolFile} (h : r.input = .spool f) : f ∈ r.files := by
  rw [files_of_spool h]
  exact List.mem_append_right _ (List.mem_singleton_self f)

theorem spoolFile_eq_some {input : EveInput} {f : SpoolFile} : input.spoolFile = some f ↔ input = .spool f := by
  cases input with
  | file name => exact iff_of_false (fun h => by cases h) fun h => by cases h
  | spool g => simp [EveInput.spoolFile]

theorem next_eq_some (h : r.next entries = some r') : ∃ f g, r.input = .spool f ∧ f.next entries = some g ∧
    r' = { r with input := .spool g, visited := r.visited ++ [f] } := by
  obtain ⟨f, hf, hrest⟩ := Option.bind_eq_some_iff.mp h
  obtain ⟨g, hg, hr⟩ := Option.bind_eq_some_iff.mp hrest
  exact ⟨f, g, spoolFile_eq_some.mp hf, hg, (Option.some.inj hr).symm⟩

theorem next_key (h : r.next entries = some r') : r'.key = r.key := by
  obtain ⟨f, g, -, -, rfl⟩ := next_eq_some h
  rfl

theorem gotoEnd_eq_some (h : r.gotoEnd entries = some r') : ∃ f g, r.input = .spool f ∧ f.latest entries = some g ∧
    r' = { r with input := .spool g } := by
  obtain ⟨f, hf, hrest⟩ := Option.bind_eq_some_iff.mp h
  obtain ⟨g, hg, hr⟩ := Option.bind_eq_some_iff.mp hrest
  exact ⟨f, g, spoolFile_eq_some.mp hf, hg, (Option.some.inj hr).symm⟩

/-- A reader that opens a newer file of its spool, and has been through no others than the one it had open. -/
theorem Inv.open (h : r.Inv) {f g : SpoolFile} (hinput : r.input = .spool f) (hparse : SpoolFile.parse g.path = some g)
    (hkey : g.key = f.key) (hlt : f.timestamp < g.timestamp) {visited : List SpoolFile}
    (hvisited : visited = r.visited ∨ visited = r.visited ++ [f]) :
    Inv { r with input := .spool g, visited } := by
  have hsub : visited.Sublist r.files := by
    rw [files_of_spool hinput]
    rcases hvisited with rfl | rfl
    · exact List.sublist_append_left _ _
    · exact List.Sublist.refl _
  have hopen := mem_files_of_spool hinput
  have hfiles : files { r with input := .spool g, visited } = visited ++ [g] := rfl
  have hlast : ∀ f' ∈ r.files, f'.timestamp ≤ f.timestamp := by
    intro f' hf'
    have hordered := h.ordered
    rw [files_of_spool hinput] at hordered hf'
    rcases List.mem_append.mp hf' with hf' | hf'
    · exact ((List.pairwise_append.mp hordered).2.2 f' hf' f (List.mem_singleton_self f)).le
    · rw [List.mem_singleton.mp hf']
  refine ⟨fun name hname => (by cases hname), ?_, ?_⟩
  · rw [hfiles]
    intro f' hf'
    rcases List.mem_append.mp hf' with hf' | hf'
    · exact h.spool f' (hsub.subset hf')
    · obtain rfl := List.mem_singleton.mp hf'
      exact ⟨hparse, (h.spool f hopen).2.trans hkey.symm⟩
  · rw [hfiles]
    refine List.pairwise_append.mpr ⟨h.ordered.sublist hsub, List.pairwise_singleton _ _, fun f' hf' g' hg' => ?_⟩
    obtain rfl := List.mem_singleton.mp hg'
    exact lt_of_le_of_lt (hlast f' (hsub.subset hf')) hlt

theorem Inv.next (h : r.Inv) (hnext : r.next entries = some r') : r'.Inv := by
  obtain ⟨f, g, hinput, hg, rfl⟩ := next_eq_some hnext
  obtain ⟨hparse, -, hkey, hlt⟩ := EveReader.newerFile_parse hg
  exact h.open hinput hparse hkey hlt (.inr rfl)

theorem Inv.gotoEnd (h : r.Inv) (hend : r.gotoEnd entries = some r') : r'.Inv := by
  obtain ⟨f, g, hinput, hg, rfl⟩ := gotoEnd_eq_some hend
  obtain ⟨hparse, -, hkey, hlt⟩ := EveReader.newerFile_parse hg
  exact h.open hinput hparse hkey hlt (.inl rfl)

/-- A reader that is started has opened one file. -/
theorem inv_check {w : EvePatternWatcher} {found : List FoundPath} (h : r ∈ (w.check found).2) : r.Inv := by
  obtain ⟨-, hget, hvisited⟩ := EvePatternWatcher.mem_check h
  obtain ⟨p, -, hp, hkey⟩ := (foundInv_group w.stop found).origin _ _ hget
  rw [FoundPath.key, hp] at hkey
  cases hinput : r.input with
  | file name =>
      rw [hinput] at hp hkey
      obtain ⟨hplain, rfl⟩ := fromPath_file.mp hp
      have hfiles : r.files = [] := by
        rw [files, hvisited, hinput]
        rfl
      refine ⟨fun name hname => ?_, ?_, ?_⟩
      · obtain rfl := EveInput.file.inj (hinput.symm.trans hname)
        exact ⟨hplain, by rw [← hkey]; rfl, hvisited⟩
      · rw [hfiles]
        exact fun f hf => absurd hf List.not_mem_nil
      · rw [hfiles]
        exact List.Pairwise.nil
  | spool f =>
      rw [hinput] at hp hkey
      have hparse := fromPath_spool.mp hp
      have hfiles : r.files = [f] := by
        rw [files_of_spool hinput, hvisited]
        rfl
      refine ⟨fun name hname => (by cases hinput.symm.trans hname), ?_, ?_⟩
      · rw [hfiles]
        intro g hg
        obtain rfl := List.mem_singleton.mp hg
        rw [EveReader.parse_path hparse]
        exact ⟨hparse, by rw [← hkey]; rfl⟩
      · rw [hfiles]
        exact List.pairwise_singleton _ _

/-- Readers of different inputs have not opened the same file. -/
theorem key_eq_of_opened (h : r.Inv) (h' : r'.Inv) (hdirectory : r.directory = r'.directory) {name : String}
    (hname : name ∈ r.opened) (hname' : name ∈ r'.opened) : r.key = r'.key := by
  have hstem : ∀ {r : StartedReader}, r.Inv → name ∈ r.opened →
      (ofLex r.key).2 = ((SpoolFile.parse name).map (·.key)).getD name := by
    intro r h hname
    cases hinput : r.input with
    | file path =>
        obtain ⟨hplain, hkey, hvisited⟩ := h.plain path hinput
        rw [opened, hvisited, hinput] at hname
        have hpath : name = path := List.mem_singleton.mp hname
        rw [hkey, hpath, hplain]
        rfl
    | spool f =>
        have hmem : ∃ g ∈ r.files, g.path = name := by
          rw [files_of_spool hinput]
          rw [opened, hinput] at hname
          rcases List.mem_append.mp hname with hname | hname
          · obtain ⟨g, hg, rfl⟩ := List.mem_map.mp hname
            exact ⟨g, List.mem_append_left _ hg, rfl⟩
          · exact ⟨f, List.mem_append_right _ (List.mem_singleton_self f), (List.mem_singleton.mp hname).symm⟩
        obtain ⟨g, hg, rfl⟩ := hmem
        obtain ⟨hparse, hkey⟩ := h.spool g hg
        rw [hkey, hparse]
        rfl
  have hpair : ofLex r.key = ofLex r'.key := Prod.ext hdirectory ((hstem h hname).trans (hstem h' hname').symm)
  exact ofLex_inj.mp hpair

end StartedReader

/-! ## One reader for an input -/

namespace WatchState

variable {s s' : WatchState} {names : String → List String}

/-- Every input that has been found has one reader. -/
structure Inv (s : WatchState) : Prop where
  filenames : s.watcher.filenames = s.readers.map (·.key)
  nodup : (s.readers.map (·.key)).Nodup
  readers : ∀ r ∈ s.readers, r.Inv
  found : ∀ p ∈ s.found, p.key ∈ s.readers.map (·.key)

theorem inv_new (stop : Bool) (names : String → List String) : (new stop names).Inv where
  filenames := rfl
  nodup := List.nodup_nil
  readers _ h := absurd h List.not_mem_nil
  found _ h := absurd h List.not_mem_nil

theorem map_key_set {readers : List StartedReader} {i : ℕ} {r r' : StartedReader} (hget : readers[i]? = some r)
    (hkey : r'.key = r.key) : (readers.set i r').map (·.key) = readers.map (·.key) := by
  refine List.ext_getElem? fun j => ?_
  rw [List.getElem?_map, List.getElem?_map, List.getElem?_set]
  split_ifs with hij hlt
  · obtain rfl := hij
    rw [hget, Option.map_some, Option.map_some, hkey]
  · obtain rfl := hij
    exact absurd (List.getElem?_eq_some_iff.mp hget).choose hlt
  · rfl

/-- A reader goes on. -/
theorem Inv.set (h : s.Inv) {i : ℕ} {r r' : StartedReader} (hget : s.readers[i]? = some r) (hkey : r'.key = r.key)
    (hinv : r'.Inv) : Inv { s with readers := s.readers.set i r' } where
  filenames := h.filenames.trans (map_key_set hget hkey).symm
  nodup := (map_key_set hget hkey).symm ▸ h.nodup
  readers r hr := by
    rcases List.mem_or_eq_of_mem_set hr with hr | rfl
    · exact h.readers r hr
    · exact hinv
  found p hp := (map_key_set hget hkey).symm ▸ h.found p hp

/-- The watcher looks for files. -/
theorem Inv.check (h : s.Inv) (found : List FoundPath) : Inv { s with
    watcher := (s.watcher.check found).1
    readers := s.readers ++ (s.watcher.check found).2
    found := s.found ++ found } where
  filenames := by
    show (s.watcher.check found).1.filenames = _
    rw [EvePatternWatcher.check_eq, List.map_append, ← h.filenames]
  nodup := by
    rw [List.map_append]
    refine List.Nodup.append h.nodup (EvePatternWatcher.nodup_check _ _) fun k hk hk' => ?_
    obtain ⟨r, hr, rfl⟩ := List.mem_map.mp hk'
    exact (EvePatternWatcher.mem_check hr).1 (h.filenames ▸ hk)
  readers r hr := by
    rcases List.mem_append.mp hr with hr | hr
    · exact h.readers r hr
    · exact StartedReader.inv_check hr
  found p hp := by
    rw [List.map_append]
    rcases List.mem_append.mp hp with hp | hp
    · exact List.mem_append_left _ (h.found p hp)
    · have hmem := EvePatternWatcher.key_mem_check (w := s.watcher) hp
      rw [EvePatternWatcher.check_eq, h.filenames] at hmem
      rw [EvePatternWatcher.check_eq]
      exact hmem

theorem step_next {i : ℕ} (hstep : s.step (.next i) = some s') : ∃ r r', s.readers[i]? = some r ∧
    r.next (s.names r.directory) = some r' ∧ s' = { s with readers := s.readers.set i r' } := by
  obtain ⟨r, hget, hstep⟩ := Option.bind_eq_some_iff.mp hstep
  obtain ⟨r', hnext, rfl⟩ := Option.map_eq_some_iff.mp hstep
  exact ⟨r, r', hget, hnext, rfl⟩

theorem inv_step {op : WatchOp} (h : s.Inv) (hstep : s.step op = some s') : s'.Inv := by
  cases op with
  | create directory name =>
      simp only [step] at hstep
      split_ifs at hstep
      obtain rfl := Option.some.inj hstep
      exact ⟨h.filenames, h.nodup, h.readers, h.found⟩
  | remove directory name =>
      obtain rfl := Option.some.inj hstep
      exact ⟨h.filenames, h.nodup, h.readers, h.found⟩
  | check found =>
      simp only [step] at hstep
      split_ifs at hstep
      obtain rfl := Option.some.inj hstep
      exact h.check found
  | next i =>
      obtain ⟨r, r', hget, hnext, rfl⟩ := step_next hstep
      exact h.set hget (StartedReader.next_key hnext) ((h.readers r (List.mem_of_getElem? hget)).next hnext)
  | gotoEnd i =>
      simp only [step] at hstep
      split_ifs at hstep
      obtain ⟨r, hget, hstep⟩ := Option.bind_eq_some_iff.mp hstep
      obtain ⟨r', hend, rfl⟩ := Option.map_eq_some_iff.mp hstep
      have hr' := (h.readers r (List.mem_of_getElem? hget)).gotoEnd hend
      obtain ⟨f, g, -, -, rfl⟩ := StartedReader.gotoEnd_eq_some hend
      exact h.set hget rfl hr'

end WatchState

/-- Every input that has been found has one reader, a reader goes through its spool in the order of time, and no two of
them open the same file. -/
structure Watched (s : WatchState) : Prop where
  once : (s.readers.map (·.key)).Nodup
  found : ∀ p ∈ s.found, ∃ r ∈ s.readers, r.key = p.key
  ordered : ∀ r ∈ s.readers, r.files.Pairwise fun f g => f.timestamp < g.timestamp
  spool : ∀ r ∈ s.readers, ∀ f ∈ r.files, (ofLex r.key).2 = f.key
  apart : ∀ r ∈ s.readers, ∀ r' ∈ s.readers, r.directory = r'.directory →
    ∀ name ∈ r.opened, name ∈ r'.opened → r = r'

/-- Whatever files come and go, and whenever the watcher looks for them. -/
theorem watch_law {stop : Bool} {names : String → List String} {ops : List WatchOp} {s : WatchState}
    (hrun : exec WatchState.step (.new stop names) ops = some s) : Watched s := by
  have hinv : s.Inv :=
    invariant (fun _ _ _ h hstep => WatchState.inv_step h hstep) (WatchState.inv_new stop names) hrun
  refine ⟨hinv.nodup, fun p hp => List.mem_map.mp (hinv.found p hp), fun r hr => (hinv.readers r hr).ordered,
    fun r hr f hf => ((hinv.readers r hr).spool f hf).2, fun r hr r' hr' hdirectory name hname hname' => ?_⟩
  exact List.inj_on_of_nodup_map hinv.nodup hr hr'
    (StartedReader.key_eq_of_opened (hinv.readers r hr) (hinv.readers r' hr') hdirectory hname hname')

/-- A reader is started for a spool, which gets a second file. -/
def spoolGrows : List WatchOp := [.create "/logs" "eve.json.1700000001", .check [⟨"/logs", "eve.json.1700000001"⟩],
  .create "/logs" "eve.json.1700000002"]

/-- The reader goes on, and the watcher looks again, where a plain file and an older file of the spool have come. -/
def looksAgain : List WatchOp := spoolGrows ++ [.next 0, .create "/logs" "flow.json",
  .create "/logs" "eve.json.1600000000",
  .check [⟨"/logs", "eve.json.1600000000"⟩, ⟨"/logs", "eve.json.1700000002"⟩, ⟨"/logs", "flow.json"⟩]]

theorem watch_law_looksAgain : ∃ s, exec WatchState.step (.new false fun _ => []) looksAgain = some s ∧
    s.readers.map (·.opened) = [["eve.json.1700000001", "eve.json.1700000002"], ["flow.json"]] ∧ Watched s := by
  have hrun : (exec WatchState.step (.new false fun _ => []) looksAgain).map (fun s => s.readers.map (·.opened)) =
      some [["eve.json.1700000001", "eve.json.1700000002"], ["flow.json"]] := by decide +kernel
  obtain ⟨s, hs, hopened⟩ := Option.map_eq_some_iff.mp hrun
  exact ⟨s, hs, hopened, watch_law hs⟩

/-! ## No file is left out -/

namespace WatchState

variable {s s' : WatchState} {names : String → List String}

/-- The files of a spool are made in the order of time, and what finds one of them finds all. -/
def InOrder (s : WatchState) : WatchOp → Prop
  | .create directory name => ∀ r ∈ s.readers, r.directory = directory → ∀ f, r.input = .spool f →
      ∀ g, SpoolFile.parse name = some g → g.key = f.key → f.timestamp ≤ g.timestamp
  | .check found => ∀ p ∈ found, ∀ f, SpoolFile.parse p.name = some f → ∀ name ∈ s.names p.directory,
      ∀ g, SpoolFile.parse name = some g → g.key = f.key → ∃ q ∈ found, q.directory = p.directory ∧ q.name = name
  | _ => True

/-- A reader has opened a file of its spool, or has it ahead. -/
def Ahead (names : String → List String) (r : StartedReader) (f : SpoolFile) : Prop :=
  ∀ name ∈ names r.directory, ∀ g, SpoolFile.parse name = some g → g.key = f.key →
    g ∈ r.files ∨ f.timestamp < g.timestamp

/-- Readers that begin with the first files of their spools leave out none. -/
structure Complete (s : WatchState) : Prop where
  start : s.watcher.stop = false
  inv : s.Inv
  ahead : ∀ r ∈ s.readers, ∀ f, r.input = .spool f → Ahead s.names r f

theorem complete_new (names : String → List String) : (new false names).Complete :=
  ⟨rfl, inv_new false names, fun _ h => absurd h List.not_mem_nil⟩

/-- A file that is no older than the one a reader has open. -/
theorem Inv.mem_or_lt (h : s.Inv) {r : StartedReader} (hr : r ∈ s.readers) {f g : SpoolFile}
    (hinput : r.input = .spool f) {name : String} (hg : SpoolFile.parse name = some g) (hkey : g.key = f.key)
    (hle : f.timestamp ≤ g.timestamp) : g ∈ r.files ∨ f.timestamp < g.timestamp := by
  have hopen := StartedReader.mem_files_of_spool hinput
  rcases Nat.eq_or_lt_of_le hle with heq | hlt
  · obtain rfl := parse_unique hg ((h.readers r hr).spool f hopen).1 hkey heq.symm
    exact .inl hopen
  · exact .inr hlt

theorem Complete.create (h : s.Complete) {directory name : String} (horder : s.InOrder (.create directory name)) :
    Complete { s with names := Function.update s.names directory (s.names directory ++ [name]) } where
  start := h.start
  inv := ⟨h.inv.filenames, h.inv.nodup, h.inv.readers, h.inv.found⟩
  ahead r hr f hinput name' hname' g hg hkey := by
    dsimp only at hname'
    by_cases hdirectory : r.directory = directory
    · rw [hdirectory, Function.update_self] at hname'
      rcases List.mem_append.mp hname' with hname' | hname'
      · exact h.ahead r hr f hinput name' (hdirectory ▸ hname') g hg hkey
      · obtain rfl := List.mem_singleton.mp hname'
        exact h.inv.mem_or_lt hr hinput hg hkey (horder r hr hdirectory f hinput g hg hkey)
    · rw [Function.update_of_ne hdirectory] at hname'
      exact h.ahead r hr f hinput name' hname' g hg hkey

theorem Complete.remove (h : s.Complete) (directory name : String) :
    Complete { s with names := Function.update s.names directory ((s.names directory).filter (· ≠ name)) } where
  start := h.start
  inv := ⟨h.inv.filenames, h.inv.nodup, h.inv.readers, h.inv.found⟩
  ahead r hr f hinput name' hname' g hg hkey := by
    dsimp only at hname'
    by_cases hdirectory : r.directory = directory
    · rw [hdirectory, Function.update_self] at hname'
      exact h.ahead r hr f hinput name' (hdirectory ▸ List.mem_of_mem_filter hname') g hg hkey
    · rw [Function.update_of_ne hdirectory] at hname'
      exact h.ahead r hr f hinput name' hname' g hg hkey

/-- A reader that the watcher starts has the first of the files that are there. -/
theorem Complete.check (h : s.Complete) {found : List FoundPath} (horder : s.InOrder (.check found)) :
    Complete { s with
      watcher := (s.watcher.check found).1
      readers := s.readers ++ (s.watcher.check found).2
      found := s.found ++ found } where
  start := by
    show (s.watcher.check found).1.stop = false
    rw [EvePatternWatcher.check_eq]
    exact h.start
  inv := h.inv.check found
  ahead r hr f hinput name hname g hg hkey := by
    rcases List.mem_append.mp hr with hold | hnew
    · exact h.ahead r hold f hinput name hname g hg hkey
    · have hinv := h.inv.check found
      obtain ⟨-, hget, -⟩ := EvePatternWatcher.mem_check hnew
      rw [hinput, h.start] at hget
      have hgroup := foundInv_group false found
      obtain ⟨p, hp, hpf, hpkey⟩ := hgroup.origin _ _ hget
      have hdirectory : r.directory = p.directory := by
        rw [StartedReader.directory, ← hpkey, FoundPath.key, hpf]
        rfl
      obtain ⟨q, hq, hqdirectory, rfl⟩ := horder p hp f (fromPath_spool.mp hpf) name (hdirectory ▸ hname) g hg hkey
      have hqkey : q.key = r.key := by
        rw [← hpkey, FoundPath.key, FoundPath.key, hpf, fromPath_spool.mpr hg]
        exact congrArg toLex (Prod.ext hqdirectory hkey)
      -- no file of the spool that has been found is older
      have hbest := hgroup.best _ f hget q hq hqkey g hg
      refine hinv.mem_or_lt hr hinput hg hkey (not_lt.mp fun hlt => ?_)
      rw [replaces, if_neg Bool.false_ne_true, decide_eq_false_iff_not] at hbest
      exact hbest hlt

/-- A reader that goes on opens the first of the files ahead. -/
theorem Complete.next (h : s.Complete) {i : ℕ} {r r' : StartedReader} (hget : s.readers[i]? = some r)
    (hnext : r.next (s.names r.directory) = some r') : Complete { s with readers := s.readers.set i r' } := by
  have hr := List.mem_of_getElem? hget
  have hr' := (h.inv.readers r hr).next hnext
  have hinv := h.inv.set hget (StartedReader.next_key hnext) hr'
  obtain ⟨f, f', hinput, hf', rfl⟩ := StartedReader.next_eq_some hnext
  refine ⟨h.start, hinv, fun r₁ hr₁ f₁ hinput₁ => ?_⟩
  rcases List.mem_or_eq_of_mem_set hr₁ with hold | rfl
  · exact h.ahead r₁ hold f₁ hinput₁
  · intro name hname g hg hkey
    obtain rfl := EveInput.spool.inj hinput₁
    have holdest := foundOldest_next f (s.names r.directory)
    rw [hf'] at holdest
    obtain ⟨-, ⟨hkey', -⟩, hmin⟩ := holdest
    rcases h.ahead r hr f hinput name hname g hg (hkey.trans hkey') with hopened | hlt
    · refine .inl (List.mem_append_left _ ?_)
      rw [StartedReader.files_of_spool hinput] at hopened
      exact hopened
    · refine hinv.mem_or_lt hr₁ hinput₁ hg hkey (hmin g ?_ ⟨hkey.trans hkey', hlt⟩)
      exact List.mem_filterMap.mpr ⟨name, hname, hg⟩

theorem complete_step {op : WatchOp} (h : s.Complete) (horder : s.InOrder op) (hstep : s.step op = some s') :
    s'.Complete := by
  cases op with
  | create directory name =>
      simp only [step] at hstep
      split_ifs at hstep
      obtain rfl := Option.some.inj hstep
      exact h.create horder
  | remove directory name =>
      obtain rfl := Option.some.inj hstep
      exact h.remove directory name
  | check found =>
      simp only [step] at hstep
      split_ifs at hstep
      obtain rfl := Option.some.inj hstep
      exact h.check horder
  | next i =>
      obtain ⟨r, r', hget, hnext, rfl⟩ := step_next hstep
      exact h.next hget hnext
  | gotoEnd i =>
      rw [step, h.start] at hstep
      cases hstep

/-- A reader has opened every file of its spool that is there. -/
def CaughtUp (names : String → List String) (r : StartedReader) : Prop :=
  ∀ name ∈ names r.directory, ∀ g, SpoolFile.parse name = some g → g.key = (ofLex r.key).2 → g ∈ r.files

/-- A reader that goes on again and again opens every file. -/
theorem Complete.exists_caughtUp {i bound : ℕ} : ∀ (n : ℕ) {s : WatchState} {r : StartedReader} {f : SpoolFile},
    s.Complete → s.readers[i]? = some r → r.input = .spool f →
      (∀ g ∈ (s.names r.directory).filterMap SpoolFile.parse, g.timestamp ≤ bound) → bound - f.timestamp ≤ n →
        ∃ k s' r', exec step s (List.replicate k (.next i)) = some s' ∧ s'.readers[i]? = some r' ∧
          s'.names = s.names ∧ r'.key = r.key ∧ CaughtUp s'.names r' := by
  intro n
  -- the induction is on the time from the open file to the last one
  induction n with
  | zero =>
      intro s r f h hget hinput hbound hn
      have hr := List.mem_of_getElem? hget
      refine ⟨0, s, r, rfl, hget, rfl, rfl, fun name hname g hg hkey => ?_⟩
      have hopen := StartedReader.mem_files_of_spool hinput
      have hkey' : g.key = f.key := hkey.trans ((h.inv.readers r hr).spool f hopen).2
      rcases h.ahead r hr f hinput name hname g hg hkey' with hopened | hlt
      · exact hopened
      · have hle := hbound g (List.mem_filterMap.mpr ⟨name, hname, hg⟩)
        omega
  | succ n ih =>
      intro s r f h hget hinput hbound hn
      have hr := List.mem_of_getElem? hget
      have holdest := foundOldest_next f (s.names r.directory)
      cases hnext : f.next (s.names r.directory) with
      | none =>
          rw [hnext] at holdest
          refine ⟨0, s, r, rfl, hget, rfl, rfl, fun name hname g hg hkey => ?_⟩
          have hopen := StartedReader.mem_files_of_spool hinput
          have hkey' : g.key = f.key := hkey.trans ((h.inv.readers r hr).spool f hopen).2
          rcases h.ahead r hr f hinput name hname g hg hkey' with hopened | hlt
          · exact hopened
          · exact absurd ⟨hkey', hlt⟩ (holdest g (List.mem_filterMap.mpr ⟨name, hname, hg⟩))
      | some f' =>
          rw [hnext] at holdest
          obtain ⟨hf', ⟨-, hlt⟩, -⟩ := holdest
          have hreader : r.next (s.names r.directory) =
              some { r with input := .spool f', visited := r.visited ++ [f] } := by
            rw [StartedReader.next, StartedReader.spoolFile_eq_some.mpr hinput, Option.bind_eq_bind, Option.bind_some,
              hnext]
            rfl
          have hstep : s.step (.next i) = some { s with
              readers := s.readers.set i { r with input := .spool f', visited := r.visited ++ [f] } } := by
            rw [step, hget, Option.bind_some, hreader]
            rfl
          have hget' : (s.readers.set i { r with input := .spool f', visited := r.visited ++ [f] })[i]? =
              some { r with input := .spool f', visited := r.visited ++ [f] } :=
            List.getElem?_set_self (List.getElem?_eq_some_iff.mp hget).choose
          have hrest : bound - f'.timestamp ≤ n := by omega
          obtain ⟨k, s', r', hexec, hget', hnames, hkey, hcaught⟩ :=
            ih (h.next hget hreader) hget' rfl hbound hrest
          refine ⟨k + 1, s', r', ?_, hget', hnames, hkey, hcaught⟩
          rw [List.replicate_succ, exec_cons, hstep]
          exact hexec

end WatchState

open WatchState

/-- The first file of the spool in `spoolGrows`. -/
def firstFile : SpoolFile := ⟨"eve.json.1700000001", "eve.json.", 1700000001⟩

theorem inOrder_spoolGrows : Along WatchState.step InOrder (.new false fun _ => []) spoolGrows := by
  refine ⟨fun r hr => absurd hr List.not_mem_nil, fun s₁ h₁ => ⟨?_, fun s₂ h₂ => ⟨?_, fun _ _ => trivial⟩⟩⟩
  · intro p hp f _ name hname g _ _
    obtain rfl := List.mem_singleton.mp hp
    have hnames : (WatchState.step (.new false fun _ => []) (.create "/logs" "eve.json.1700000001")).map
        (fun s => s.names (FoundPath.directory ⟨"/logs", "eve.json.1700000001"⟩)) = some ["eve.json.1700000001"] := by
      decide +kernel
    rw [h₁, Option.map_some, Option.some_inj] at hnames
    rw [hnames] at hname
    exact ⟨_, List.mem_singleton_self _, rfl, (List.mem_singleton.mp hname).symm⟩
  · intro r hr _ f hinput g hg _
    have hreaders : ((WatchState.step (.new false fun _ => []) (.create "/logs" "eve.json.1700000001")).bind fun s =>
        s.step (.check [⟨"/logs", "eve.json.1700000001"⟩])).map (·.readers) =
          some [⟨toLex ("/logs", "eve.json."), .spool firstFile, []⟩] := by decide +kernel
    rw [h₁, Option.bind_some, h₂, Option.map_some, Option.some_inj] at hreaders
    rw [hreaders] at hr
    obtain rfl := List.mem_singleton.mp hr
    obtain rfl := EveInput.spool.inj hinput
    have hparse : SpoolFile.parse "eve.json.1700000002" = some ⟨"eve.json.1700000002", "eve.json.", 1700000002⟩ := by
      decide +kernel
    obtain rfl := Option.some.inj (hparse.symm.trans hg)
    decide

end EveBox.Eve
