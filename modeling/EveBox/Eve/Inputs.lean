import EveBox.Eve.ReaderTheorems
import EveBox.Lib.SortedMap
import Mathlib.Algebra.Order.BigOperators.Group.List
import Mathlib.Data.Prod.Lex
import Mathlib.Data.String.Basic

/-!
# Inputs

Reference: `EveInput` of `src/eve/spool.rs`.

The paths are those of files in one directory: what is before the name is the same in all of them, and may be
nothing at all. A name that is not UTF-8 is like any other one that is no spool file's.

* `GroupInv.collect` — what a round of `group` keeps.
* `exists_visits` — the files that are visited one after the other.
-/

namespace EveBox.Eve

open Rust

/-- A directory and a name in it. -/
abbrev InputKey := String ×ₗ String

/-- The directory of a spool file: what its path has, or the current one. -/
def directoryOf (parent : String) : String := if parent = "" then "." else parent

namespace EveInput

/-- `EveInput::key`. -/
def key (parent : String) : EveInput → InputKey
  | .file path => toLex (parent, path)
  | .spool f => toLex (directoryOf parent, f.key)

/-- Whether a spool file takes the place of another one. -/
def replaces (stop : Bool) (candidate current : SpoolFile) : Bool :=
  if stop then current.timestamp < candidate.timestamp else candidate.timestamp < current.timestamp

/-- A round of the loop in `group`. -/
def collect (parent : String) (stop : Bool) (inputs : SortedMap InputKey EveInput) (path : String) :
    SortedMap InputKey EveInput :=
  let candidate := fromPath path
  let key := candidate.key parent
  match inputs.get? key with
  | none => inputs.insert key candidate
  | some current =>
      match current, candidate with
      | .spool current, .spool f => if replaces stop f current then inputs.insert key candidate else inputs
      | _, _ => inputs

/-- `EveInput::group`. -/
def group (parent : String) (paths : List String) (stop : Bool) : List EveInput :=
  (paths.foldl (collect parent stop) .empty).values

end EveInput

open EveInput

/-! ## What is said of inputs -/

/-- A file that is none of a spool has the name by which a stream is known. -/
def Collides (parent : String) (paths : List String) : Prop :=
  parent ≠ "" ∧ ∃ p ∈ paths, SpoolFile.parse p = none ∧ ∃ s ∈ paths, ∃ f, SpoolFile.parse s = some f ∧ f.key = p

/-- The inputs are the same whatever the order of the paths, and no file that is none of a spool is left out. -/
def Grouped (parent : String) (paths : List String) (stop : Bool) : Prop :=
  ∀ paths', paths'.Perm paths → group parent paths' stop = group parent paths stop ∧
    ∀ p ∈ paths, SpoolFile.parse p = none → .file p ∈ group parent paths' stop

/-- The files that `next` visits from one on, up to the last. -/
inductive Visits (entries : List String) : SpoolFile → List SpoolFile → Prop
  | last {f : SpoolFile} (h : f.next entries = none) : Visits entries f [f]
  | next {f g : SpoolFile} {visited : List SpoolFile} (h : f.next entries = some g) (rest : Visits entries g visited) :
      Visits entries f (f :: visited)

/-- The spool files of a stream. -/
def InStream (entries : List String) (f g : SpoolFile) : Prop := g ∈ entries.filterMap SpoolFile.parse ∧ g.key = f.key

/-- From the file that is selected for a stream, every file of it is visited once, in the order of time. -/
def Chained (parent : String) (entries : List String) : Prop :=
  ∀ f, .spool f ∈ group parent entries false → ∃ visited, Visits entries f visited ∧
    visited.Pairwise (fun a b => a.timestamp < b.timestamp) ∧ ∀ g, g ∈ visited ↔ InStream entries f g

/-! ## Names -/

theorem fromPath_spool {p : String} {f : SpoolFile} : fromPath p = .spool f ↔ SpoolFile.parse p = some f := by
  unfold fromPath
  cases SpoolFile.parse p <;> simp

theorem fromPath_file {p q : String} : fromPath p = .file q ↔ SpoolFile.parse p = none ∧ p = q := by
  unfold fromPath
  cases SpoolFile.parse p <;> simp

/-- Digits are known by their number. -/
theorem digits_unique : ∀ {a b : List Char} {m n : ℕ}, a.length = b.length → a.all Char.isDigit = true →
    b.all Char.isDigit = true →
      a.foldl (fun n c => n * 10 + (c.toNat - 48)) m = b.foldl (fun n c => n * 10 + (c.toNat - 48)) n → a = b ∧ m = n
  | [], [], _, _, _, _, _, h => ⟨rfl, h⟩
  | c :: a, d :: b, m, n, hlength, ha, hb, h => by
      simp only [List.all_cons, Bool.and_eq_true] at ha hb
      obtain ⟨rfl, hvalue⟩ := digits_unique (Nat.succ.inj hlength) ha.2 hb.2 h
      have hrange : ∀ {c : Char}, c.isDigit = true → 48 ≤ c.toNat ∧ c.toNat ≤ 57 := by
        intro c hc
        simp only [Char.isDigit, Bool.and_eq_true, decide_eq_true_eq] at hc
        exact hc
      obtain ⟨hc, hc'⟩ := hrange ha.1
      obtain ⟨hd, hd'⟩ := hrange hb.1
      have hvalue : m * 10 + (c.toNat - 48) = n * 10 + (d.toNat - 48) := hvalue
      have hchar : c.toNat = d.toNat := by omega
      refine ⟨by rw [Char.toNat_inj.mp hchar], by omega⟩

theorem rsplitOnce_eq_some {sep : Char} {text stem suffix : List Char} (h : rsplitOnce sep text = some (stem, suffix)) :
    text = stem ++ sep :: suffix := by
  unfold rsplitOnce at h
  dsimp only at h
  split_ifs at h with hlength
  obtain ⟨rfl, rfl⟩ := Prod.mk.inj (Option.some.inj h)
  have hsplit := List.takeWhile_append_dropWhile (p := (· ≠ sep)) (l := text.reverse)
  cases hdrop : text.reverse.dropWhile (· ≠ sep) with
  | nil =>
      rw [hdrop, List.append_nil] at hsplit
      rw [hsplit, List.reverse_reverse] at hlength
      exact absurd rfl hlength
  | cons c rest =>
      have hc : c = sep := by
        have := List.head?_dropWhile_not (· ≠ sep) text.reverse
        rw [hdrop] at this
        simpa using this
      have htext : text = rest.reverse ++ sep :: (text.reverse.takeWhile (· ≠ sep)).reverse := by
        have hreverse := congrArg List.reverse hsplit
        rw [hdrop, hc, List.reverse_reverse] at hreverse
        exact hreverse.symm.trans (by simp)
      have hstem : text.take (text.length - (text.reverse.takeWhile (· ≠ sep)).reverse.length - 1) = rest.reverse := by
        have hlen := congrArg List.length htext
        rw [List.length_append, List.length_cons] at hlen
        have hat : text.length - (text.reverse.takeWhile (· ≠ sep)).reverse.length - 1 = rest.reverse.length := by omega
        rw [hat]
        nth_rewrite 1 [htext]
        exact List.take_left
      rw [hstem]
      exact htext

/-- A spool file is known by its stream and its time. -/
theorem parse_unique {p q : String} {f g : SpoolFile} (hf : SpoolFile.parse p = some f) (hg : SpoolFile.parse q = some g)
    (hkey : f.key = g.key) (hts : f.timestamp = g.timestamp) : f = g := by
  obtain ⟨⟨stem, digits⟩, hsplit, hf⟩ := Option.bind_eq_some_iff.mp hf
  obtain ⟨⟨stem', digits'⟩, hsplit', hg⟩ := Option.bind_eq_some_iff.mp hg
  dsimp only at hf hg
  split_ifs at hf with hcond
  split_ifs at hg with hcond'
  obtain rfl := Option.some.inj hf
  obtain rfl := Option.some.inj hg
  simp only [not_or, not_not, Bool.not_eq_true', Bool.not_eq_false] at hcond hcond'
  have hstem : stem = stem' := by simpa using String.ofList_injective hkey
  obtain ⟨hdigits, -⟩ := digits_unique (hcond.2.1.trans hcond'.2.1.symm) hcond.2.2 hcond'.2.2 hts
  have hpath : p = q := by
    refine String.toList_injective ?_
    rw [rsplitOnce_eq_some hsplit, rsplitOnce_eq_some hsplit', hstem, hdigits]
  rw [SpoolFile.mk.injEq]
  exact ⟨hpath, hkey, hts⟩

/-! ## Groups -/

section

variable {parent : String} {stop : Bool} {seen : List String} {inputs : SortedMap InputKey EveInput}

theorem key_spool {f g : SpoolFile} : (EveInput.spool f).key parent = (EveInput.spool g).key parent ↔ f.key = g.key := by
  simp [EveInput.key]

theorem replaces_irrefl (stop : Bool) (f : SpoolFile) : replaces stop f f = false := by
  cases stop <;> simp [replaces]

/-- What is no better than a file is no better than one that takes its place. -/
theorem replaces_trans {f g h : SpoolFile} (hfg : replaces stop f g = true) (hhg : replaces stop h g = false) :
    replaces stop h f = false := by
  cases stop <;> simp [replaces] at hfg hhg ⊢ <;> omega

/-- The inputs of the paths so far: each has come from a path, each path has its key there, and a spool has the first
of its files, or the last. -/
structure GroupInv (parent : String) (stop : Bool) (seen : List String) (inputs : SortedMap InputKey EveInput) : Prop where
  origin : ∀ k v, inputs.get? k = some v → (∃ p ∈ seen, fromPath p = v) ∧ v.key parent = k
  present : ∀ p ∈ seen, ∃ v, inputs.get? ((fromPath p).key parent) = some v
  best : ∀ k f, inputs.get? k = some (.spool f) → ∀ p ∈ seen, ∀ g, SpoolFile.parse p = some g → g.key = f.key →
    replaces stop g f = false

theorem GroupInv.empty : GroupInv parent stop [] .empty where
  origin _ _ h := nomatch h
  present _ h := absurd h List.not_mem_nil
  best _ _ h := nomatch h

/-- A path whose input is put into the map. -/
theorem GroupInv.insert (h : GroupInv parent stop seen inputs) {p : String}
    (hbest : ∀ f, SpoolFile.parse p = some f → ∀ q ∈ seen, ∀ g, SpoolFile.parse q = some g → g.key = f.key →
      replaces stop g f = false) :
    GroupInv parent stop (seen ++ [p]) (inputs.insert ((fromPath p).key parent) (fromPath p)) where
  origin k v hv := by
    rw [SortedMap.get?_insert] at hv
    split_ifs at hv with hk
    · obtain rfl := Option.some.inj hv
      exact ⟨⟨p, List.mem_append_right _ (List.mem_singleton_self p), rfl⟩, hk.symm⟩
    · obtain ⟨⟨q, hq, hqv⟩, hkey⟩ := h.origin k v hv
      exact ⟨⟨q, List.mem_append_left _ hq, hqv⟩, hkey⟩
  present q hq := by
    rw [SortedMap.get?_insert]
    split_ifs with hk
    · exact ⟨_, rfl⟩
    · rcases List.mem_append.mp hq with hq | hq
      · exact h.present q hq
      · obtain rfl := List.mem_singleton.mp hq
        exact absurd rfl hk
  best k f hf q hq g hg hkey := by
    rw [SortedMap.get?_insert] at hf
    split_ifs at hf with hk
    · have hp := fromPath_spool.mp (Option.some.inj hf)
      rcases List.mem_append.mp hq with hq | hq
      · exact hbest f hp q hq g hg hkey
      · obtain rfl := List.mem_singleton.mp hq
        obtain rfl := Option.some.inj (hg.symm.trans hp)
        exact replaces_irrefl stop g
    · rcases List.mem_append.mp hq with hq | hq
      · exact h.best k f hf q hq g hg hkey
      · obtain rfl := List.mem_singleton.mp hq
        have hkey' : (EveInput.spool g).key parent = (EveInput.spool f).key parent := key_spool.mpr hkey
        rw [(h.origin k _ hf).2, ← fromPath_spool.mpr hg] at hkey'
        exact absurd hkey'.symm hk

/-- A path whose input is left out. -/
theorem GroupInv.skip (h : GroupInv parent stop seen inputs) {p : String} {v : EveInput}
    (hv : inputs.get? ((fromPath p).key parent) = some v)
    (hbest : ∀ f g, v = .spool f → SpoolFile.parse p = some g → replaces stop g f = false) :
    GroupInv parent stop (seen ++ [p]) inputs where
  origin k v hv := by
    obtain ⟨⟨q, hq, hqv⟩, hkey⟩ := h.origin k v hv
    exact ⟨⟨q, List.mem_append_left _ hq, hqv⟩, hkey⟩
  present q hq := by
    rcases List.mem_append.mp hq with hq | hq
    · exact h.present q hq
    · obtain rfl := List.mem_singleton.mp hq
      exact ⟨v, hv⟩
  best k f hf q hq g hg hkey := by
    rcases List.mem_append.mp hq with hq | hq
    · exact h.best k f hf q hq g hg hkey
    · obtain rfl := List.mem_singleton.mp hq
      have hkey' : (EveInput.spool g).key parent = (EveInput.spool f).key parent := key_spool.mpr hkey
      rw [(h.origin k _ hf).2, ← fromPath_spool.mpr hg] at hkey'
      rw [← hkey', hv] at hf
      exact hbest f g (Option.some.inj hf) hg

/-- A round of the loop. -/
theorem GroupInv.collect (h : GroupInv parent stop seen inputs) (p : String) :
    GroupInv parent stop (seen ++ [p]) (collect parent stop inputs p) := by
  unfold EveInput.collect
  dsimp only
  cases hcurrent : inputs.get? ((fromPath p).key parent) with
  | none =>
      refine h.insert fun f hf q hq g hg hkey => ?_
      -- the key of another file of the stream would be there
      have hkey' : (EveInput.spool g).key parent = (EveInput.spool f).key parent := key_spool.mpr hkey
      rw [← fromPath_spool.mpr hg, ← fromPath_spool.mpr hf] at hkey'
      obtain ⟨v, hv⟩ := h.present q hq
      rw [hkey', hcurrent] at hv
      cases hv
  | some v =>
      cases v with
      | file path => exact h.skip hcurrent fun _ _ heq => nomatch heq
      | spool current =>
          cases hp : fromPath p with
          | file path =>
              refine h.skip hcurrent fun f g _ hg => ?_
              rw [(fromPath_file.mp hp).1] at hg
              cases hg
          | spool f =>
              have hparse := fromPath_spool.mp hp
              dsimp only
              split_ifs with hreplaces
              · rw [← hp]
                refine h.insert fun f' hf' q hq g hg hkey => ?_
                obtain rfl := Option.some.inj (hparse.symm.trans hf')
                have hcurrentKey := (h.origin _ _ hcurrent).2
                rw [hp, key_spool] at hcurrentKey
                exact replaces_trans hreplaces (h.best _ _ hcurrent q hq g hg (hkey.trans hcurrentKey.symm))
              · refine h.skip hcurrent fun f' g heq hg => ?_
                obtain rfl := Option.some.inj (hparse.symm.trans hg)
                obtain rfl := EveInput.spool.inj heq
                exact Bool.eq_false_iff.mpr hreplaces

theorem GroupInv.foldl (paths : List String) : ∀ {seen : List String} {inputs : SortedMap InputKey EveInput},
    GroupInv parent stop seen inputs → GroupInv parent stop (seen ++ paths) (paths.foldl (EveInput.collect parent stop) inputs) := by
  induction paths with
  | nil =>
      intro seen inputs h
      rw [List.append_nil]
      exact h
  | cons p paths ih =>
      intro seen inputs h
      have hrest := ih (h.collect p)
      rw [List.append_assoc] at hrest
      exact hrest

theorem grouping (parent : String) (stop : Bool) (paths : List String) :
    GroupInv parent stop paths (paths.foldl (collect parent stop) .empty) :=
  GroupInv.foldl paths GroupInv.empty

theorem directoryOf_eq_iff : directoryOf parent = parent ↔ parent ≠ "" := by
  unfold directoryOf
  split_ifs with h
  · rw [h]
    decide
  · exact iff_of_true rfl h

/-- Where no file has the name of a stream, every file that is none of a spool is there. -/
theorem GroupInv.get?_file (h : GroupInv parent stop seen inputs) (hapart : ¬ Collides parent seen) {p : String}
    (hp : p ∈ seen) (hplain : SpoolFile.parse p = none) : inputs.get? ((EveInput.file p).key parent) = some (.file p) := by
  obtain ⟨v, hv⟩ := h.present p hp
  rw [fromPath_file.mpr ⟨hplain, rfl⟩] at hv
  rw [hv]
  obtain ⟨⟨q, hq, hqv⟩, hkey⟩ := h.origin _ _ hv
  cases v with
  | file path =>
      have hpath : path = p := by simpa [EveInput.key] using hkey
      rw [hpath]
  | spool f =>
      have hpair : directoryOf parent = parent ∧ f.key = p := by simpa [EveInput.key] using hkey
      exact absurd ⟨directoryOf_eq_iff.mp hpair.1, p, hp, hplain, q, hq, f, fromPath_spool.mp hqv, hpair.2⟩ hapart

/-- There, too, every spool has the file that no other one of it replaces. -/
theorem GroupInv.get?_spool (h : GroupInv parent stop seen inputs) (hapart : ¬ Collides parent seen) {p : String}
    {f : SpoolFile} (hp : p ∈ seen) (hf : SpoolFile.parse p = some f)
    (hbest : ∀ q ∈ seen, ∀ g, SpoolFile.parse q = some g → g.key = f.key → replaces stop g f = false) :
    inputs.get? ((EveInput.spool f).key parent) = some (.spool f) := by
  obtain ⟨v, hv⟩ := h.present p hp
  rw [fromPath_spool.mpr hf] at hv
  rw [hv]
  obtain ⟨⟨q, hq, hqv⟩, hkey⟩ := h.origin _ _ hv
  cases v with
  | file path =>
      obtain ⟨hplain, rfl⟩ := fromPath_file.mp hqv
      have hpair : parent = directoryOf parent ∧ q = f.key := by simpa [EveInput.key] using hkey
      exact absurd ⟨directoryOf_eq_iff.mp hpair.1.symm, q, hq, hplain, p, hp, f, hf, hpair.2.symm⟩ hapart
  | spool g =>
      have hg := fromPath_spool.mp hqv
      have hgkey := key_spool.mp hkey
      have hgf := hbest q hq g hg hgkey
      have hfg := h.best _ _ hv p hp f hf hgkey.symm
      have hts : g.timestamp = f.timestamp := by
        cases stop <;> simp [replaces] at hgf hfg <;> omega
      rw [parse_unique hg hf hgkey hts]

/-- The inputs are those of the set of paths. -/
theorem group_eq {paths paths' : List String} (hapart : ¬ Collides parent paths) (hmem : ∀ p, p ∈ paths' ↔ p ∈ paths) :
    group parent paths' stop = group parent paths stop := by
  have hapart' : ¬ Collides parent paths' := by
    simpa only [Collides, hmem] using hapart
  have hone : ∀ {seen seen' : List String} {inputs inputs' : SortedMap InputKey EveInput}, ¬ Collides parent seen' →
      (∀ p, p ∈ seen ↔ p ∈ seen') → GroupInv parent stop seen inputs → GroupInv parent stop seen' inputs' →
        ∀ k v, inputs.get? k = some v → inputs'.get? k = some v := by
    intro seen seen' inputs inputs' hapart hmem h h' k v hv
    obtain ⟨⟨p, hp, hpv⟩, rfl⟩ := h.origin k v hv
    cases v with
    | file path =>
        obtain ⟨hplain, rfl⟩ := fromPath_file.mp hpv
        exact h'.get?_file hapart ((hmem p).mp hp) hplain
    | spool f =>
        refine h'.get?_spool hapart ((hmem p).mp hp) (fromPath_spool.mp hpv) fun q hq => ?_
        exact h.best _ f hv q ((hmem q).mpr hq)
  have hmaps : paths'.foldl (EveInput.collect parent stop) .empty = paths.foldl (EveInput.collect parent stop) .empty := by
    refine SortedMap.ext_get? fun k => Option.ext fun v => ⟨?_, ?_⟩
    · exact hone hapart hmem (grouping parent stop paths') (grouping parent stop paths) k v
    · exact hone hapart' (fun p => (hmem p).symm) (grouping parent stop paths) (grouping parent stop paths') k v
  unfold EveInput.group
  rw [hmaps]

theorem grouped_of_apart {paths : List String} (hapart : ¬ Collides parent paths) : Grouped parent paths stop := by
  intro paths' hperm
  have hmem : ∀ p, p ∈ paths' ↔ p ∈ paths := fun p => hperm.mem_iff
  have hsame : group parent paths' stop = group parent paths stop := group_eq hapart hmem
  refine ⟨hsame, fun p hp hplain => ?_⟩
  rw [hsame]
  exact SortedMap.mem_values.mpr ⟨_, (grouping parent stop paths).get?_file hapart hp hplain⟩

/-- A spool stays where it is. -/
theorem collect_spool {k : InputKey} (h : ∃ f, inputs.get? k = some (.spool f)) (p : String) :
    ∃ f, (collect parent stop inputs p).get? k = some (.spool f) := by
  obtain ⟨f, hf⟩ := h
  unfold EveInput.collect
  dsimp only
  cases hcurrent : inputs.get? ((fromPath p).key parent) with
  | none =>
      refine ⟨f, ?_⟩
      rw [SortedMap.get?_insert, if_neg, hf]
      rintro rfl
      rw [hcurrent] at hf
      cases hf
  | some v =>
      cases v with
      | file path => exact ⟨f, hf⟩
      | spool current =>
          cases hp : fromPath p with
          | file path => exact ⟨f, hf⟩
          | spool g =>
              dsimp only
              split_ifs
              · rw [SortedMap.get?_insert]
                split_ifs
                · exact ⟨g, rfl⟩
                · exact ⟨f, hf⟩
              · exact ⟨f, hf⟩

theorem foldl_spool {k : InputKey} (paths : List String) : ∀ {inputs : SortedMap InputKey EveInput},
    (∃ f, inputs.get? k = some (.spool f)) → ∃ f, (paths.foldl (collect parent stop) inputs).get? k = some (.spool f) := by
  induction paths with
  | nil => exact fun h => h
  | cons p paths ih => exact fun h => ih (collect_spool h p)

/-- Where a file has the name of a stream, it is left out if a file of the stream comes first. -/
theorem not_grouped_of_collides {paths : List String} (h : Collides parent paths) : ¬ Grouped parent paths stop := by
  obtain ⟨hparent, p, hp, hplain, s, hs, f, hf, hkey⟩ := h
  intro hgrouped
  have hperm : (s :: paths.erase s).Perm paths := (List.perm_cons_erase hs).symm
  have hmem := (hgrouped _ hperm).2 p hp hplain
  obtain ⟨k, hk⟩ := SortedMap.mem_values.mp hmem
  have hkeyed := ((grouping parent stop (s :: paths.erase s)).origin k _ hk).2
  have hsame : (EveInput.file p).key parent = (EveInput.spool f).key parent := by
    rw [EveInput.key, EveInput.key, directoryOf_eq_iff.mpr hparent, hkey]
  have hfirst : ∃ g, (collect parent stop .empty s).get? k = some (.spool g) := by
    refine ⟨f, ?_⟩
    rw [← hkeyed, hsame]
    simp [EveInput.collect, SortedMap.get?_empty, SortedMap.get?_insert, fromPath_spool.mpr hf]
  obtain ⟨g, hg⟩ := foldl_spool (paths.erase s) hfirst
  rw [List.foldl_cons, hg] at hk
  cases hk

end

/-! ## Streams -/

section

variable {entries : List String}

/-- A file that `next` may give. -/
def IsNewer (f g : SpoolFile) : Prop := g.key = f.key ∧ f.timestamp < g.timestamp

/-- What the loop of `next` has found among some files: none, or the oldest of those that are newer. -/
def FoundOldest (f : SpoolFile) (files : List SpoolFile) : Option SpoolFile → Prop
  | none => ∀ g ∈ files, ¬ IsNewer f g
  | some g => g ∈ files ∧ IsNewer f g ∧ ∀ h ∈ files, IsNewer f h → g.timestamp ≤ h.timestamp

theorem foundOldest_next (f : SpoolFile) (entries : List String) :
    FoundOldest f (entries.filterMap SpoolFile.parse) (f.next entries) := by
  have hfold : ∀ (files : List SpoolFile) {seen : List SpoolFile} {next : Option SpoolFile}, FoundOldest f seen next →
      FoundOldest f (seen ++ files) (files.foldl (fun next candidate =>
        if candidate.key ≠ f.key ∨ candidate.timestamp ≤ f.timestamp then next
        else if SpoolFile.isBetter false candidate next then some candidate
        else next) next) := by
    intro files
    induction files with
    | nil =>
        intro seen next h
        rw [List.append_nil]
        exact h
    | cons c files ih =>
        intro seen next h
        have hround : FoundOldest f (seen ++ [c]) (if c.key ≠ f.key ∨ c.timestamp ≤ f.timestamp then next
            else if SpoolFile.isBetter false c next then some c else next) := by
          have hnewer : ¬ (c.key ≠ f.key ∨ c.timestamp ≤ f.timestamp) ↔ IsNewer f c := by
            rw [not_or, not_not, not_le, IsNewer]
          split_ifs with hold hbetter
          · have hc : ¬ IsNewer f c := fun h => hnewer.mpr h hold
            cases next with
            | none => simpa [FoundOldest, or_imp, forall_and] using ⟨h, hc⟩
            | some g =>
                obtain ⟨hg, hgn, hmin⟩ := h
                refine ⟨List.mem_append_left _ hg, hgn, fun x hx hxn => ?_⟩
                rcases List.mem_append.mp hx with hx | hx
                · exact hmin x hx hxn
                · obtain rfl := List.mem_singleton.mp hx
                  exact absurd hxn hc
          · refine ⟨List.mem_append_right _ (List.mem_singleton_self c), hnewer.mp hold, fun x hx hxn => ?_⟩
            rcases List.mem_append.mp hx with hx | hx
            · cases next with
              | none => exact absurd hxn (h x hx)
              | some g =>
                  have hlt : c.timestamp < g.timestamp := by simpa [SpoolFile.isBetter] using hbetter
                  exact hlt.le.trans (h.2.2 x hx hxn)
            · obtain rfl := List.mem_singleton.mp hx
              exact le_refl _
          · cases next with
            | none => exact absurd rfl hbetter
            | some g =>
                have hle : g.timestamp ≤ c.timestamp := by simpa [SpoolFile.isBetter] using hbetter
                refine ⟨List.mem_append_left _ h.1, h.2.1, fun x hx hxn => ?_⟩
                rcases List.mem_append.mp hx with hx | hx
                · exact h.2.2 x hx hxn
                · obtain rfl := List.mem_singleton.mp hx
                  exact hle
        have hrest := ih hround
        rw [List.append_assoc] at hrest
        exact hrest
  have hnone : FoundOldest f [] none := fun _ h => absurd h List.not_mem_nil
  exact hfold _ hnone

/-- The files of the stream from one on, one after the other. -/
theorem exists_visits {bound : ℕ} (hbound : ∀ g ∈ entries.filterMap SpoolFile.parse, g.timestamp ≤ bound) :
    ∀ (n : ℕ) (f : SpoolFile), f ∈ entries.filterMap SpoolFile.parse → bound - f.timestamp ≤ n →
      ∃ visited, Visits entries f visited ∧ visited.Pairwise (fun a b => a.timestamp < b.timestamp) ∧
        ∀ g, g ∈ visited ↔ InStream entries f g ∧ f.timestamp ≤ g.timestamp := by
  intro n
  induction n with
  | zero =>
      intro f hf hn
      have hlast := foundOldest_next f entries
      cases hnext : f.next entries with
      | some g =>
          rw [hnext] at hlast
          have hle := hbound g hlast.1
          have hlt := hlast.2.1.2
          omega
      | none =>
          rw [hnext] at hlast
          refine ⟨[f], .last hnext, List.pairwise_singleton _ _, fun g => ?_⟩
          rw [List.mem_singleton]
          constructor
          · rintro rfl
            exact ⟨⟨hf, rfl⟩, le_refl _⟩
          · rintro ⟨⟨hg, hkey⟩, hle⟩
            have hts : g.timestamp = f.timestamp := le_antisymm (not_lt.mp fun hlt => hlast g hg ⟨hkey, hlt⟩) hle
            obtain ⟨p, -, hp⟩ := List.mem_filterMap.mp hg
            obtain ⟨q, -, hq⟩ := List.mem_filterMap.mp hf
            exact parse_unique hp hq hkey hts
  | succ n ih =>
      intro f hf hn
      have hfound := foundOldest_next f entries
      have hsame : ∀ g, InStream entries f g → g.timestamp = f.timestamp → g = f := by
        rintro g ⟨hg, hkey⟩ hts
        obtain ⟨p, -, hp⟩ := List.mem_filterMap.mp hg
        obtain ⟨q, -, hq⟩ := List.mem_filterMap.mp hf
        exact parse_unique hp hq hkey hts
      cases hnext : f.next entries with
      | none =>
          rw [hnext] at hfound
          refine ⟨[f], .last hnext, List.pairwise_singleton _ _, fun g => ?_⟩
          rw [List.mem_singleton]
          constructor
          · rintro rfl
            exact ⟨⟨hf, rfl⟩, le_refl _⟩
          · rintro ⟨hg, hle⟩
            exact hsame g hg (le_antisymm (not_lt.mp fun hlt => hfound g hg.1 ⟨hg.2, hlt⟩) hle)
      | some g =>
          rw [hnext] at hfound
          obtain ⟨hg, ⟨hkey, hlt⟩, hmin⟩ := hfound
          obtain ⟨visited, hvisits, hsorted, hmem⟩ := ih g hg (by have := hbound g hg; omega)
          refine ⟨f :: visited, .next hnext hvisits, List.pairwise_cons.mpr ⟨fun h hh => ?_, hsorted⟩, fun h => ?_⟩
          · exact lt_of_lt_of_le hlt ((hmem h).mp hh).2
          · rw [List.mem_cons, hmem]
            constructor
            · rintro (rfl | ⟨⟨hh, hhkey⟩, hle⟩)
              · exact ⟨⟨hf, rfl⟩, le_refl _⟩
              · exact ⟨⟨hh, hhkey.trans hkey⟩, hlt.le.trans hle⟩
            · rintro ⟨⟨hh, hhkey⟩, hle⟩
              rcases eq_or_lt_of_le hle with heq | hlt'
              · exact .inl (hsame h ⟨hh, hhkey⟩ heq.symm)
              · exact .inr ⟨⟨hh, hhkey.trans hkey.symm⟩, hmin h hh ⟨hhkey, hlt'⟩⟩

/-- A stream begins with its oldest file, so that every file of it is visited. -/
theorem chained (parent : String) (entries : List String) : Chained parent entries := by
  intro f hf
  obtain ⟨k, hk⟩ := SortedMap.mem_values.mp hf
  have hgrouping := grouping parent false entries
  obtain ⟨⟨p, hp, hpf⟩, -⟩ := hgrouping.origin k _ hk
  have hmem : f ∈ entries.filterMap SpoolFile.parse := List.mem_filterMap.mpr ⟨p, hp, fromPath_spool.mp hpf⟩
  have hbound : ∀ g ∈ entries.filterMap SpoolFile.parse,
      g.timestamp ≤ ((entries.filterMap SpoolFile.parse).map (·.timestamp)).sum := fun g hg =>
    List.single_le_sum (fun _ _ => Nat.zero_le _) _ (List.mem_map_of_mem hg)
  obtain ⟨visited, hvisits, hsorted, hvisited⟩ := exists_visits hbound _ f hmem (le_refl _)
  refine ⟨visited, hvisits, hsorted, fun g => ?_⟩
  rw [hvisited]
  refine ⟨And.left, fun hg => ⟨hg, ?_⟩⟩
  obtain ⟨q, hq, hqg⟩ := List.mem_filterMap.mp hg.1
  have holder := hgrouping.best k f hk q hq g hqg hg.2
  simpa [replaces] using holder

end

/-! ## Inputs and streams -/

/-- The inputs are the same in every order of the paths, no file is left out, and every stream is visited as a whole, if
and only if no file that is none of a spool has the name of a stream. -/
theorem inputs_law_iff (parent : String) (entries : List String) (stop : Bool) :
    (Grouped parent entries stop ∧ Chained parent entries) ↔ ¬ Collides parent entries :=
  ⟨fun h hcollides => not_grouped_of_collides hcollides h.1, fun h => ⟨grouped_of_apart h, chained parent entries⟩⟩

/-- A file of a stream, and one with the name of the stream. -/
def pointFiles : List String := ["eve.json.1700000001", "eve.json."]

/-- The file `eve.json.` is left out where a file of the stream comes first. -/
theorem pointFiles_not_grouped : ¬ (Grouped "/logs" pointFiles false ∧ Chained "/logs" pointFiles) := by
  have hcollides : Collides "/logs" pointFiles :=
    ⟨by decide, "eve.json.", by decide, by decide, "eve.json.1700000001", by decide, _, rfl, by decide⟩
  exact fun h => not_grouped_of_collides hcollides h.1

end EveBox.Eve
