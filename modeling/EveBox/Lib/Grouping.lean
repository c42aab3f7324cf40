import Mathlib.Data.List.Dedup
import Mathlib.Data.List.Perm.Basic

/-!
# Putting the elements of a list together by a key

Two ways to do it: one pass that keeps a table of entries in the order in which their keys came, and the
classes of the list. An entry begins with the first element of its key, which may fail, and takes in the others
one by one.
-/

namespace EveBox.Grouping

variable {α κ β ε : Type*} [DecidableEq κ]

/-! ## The classes of a list -/

/-- The elements of each key. -/
def classes (key : α → κ) (as : List α) : List (List α) :=
  (as.map key).dedup.map fun k => as.filter fun a => key a = k

section

variable {key : α → κ} {as : List α}

theorem mem_classes {group : List α} :
    group ∈ classes key as ↔ ∃ a ∈ as, group = as.filter fun b => key b = key a := by
  simp only [classes, List.mem_map, List.mem_dedup]
  constructor
  · rintro ⟨k, ⟨a, ha, rfl⟩, rfl⟩
    exact ⟨a, ha, rfl⟩
  · rintro ⟨a, ha, rfl⟩
    exact ⟨key a, ⟨a, ha, rfl⟩, rfl⟩

/-- What a class has in it determines its key, so that values that are different for different keys are different
for different classes. -/
theorem nodup_map_classes {γ : Type*} {f : List α → γ}
    (h : ∀ a ∈ as, ∀ b ∈ as,
      f (as.filter fun x => key x = key a) = f (as.filter fun x => key x = key b) → key a = key b) :
    ((classes key as).map f).Nodup := by
  rw [classes, List.map_map]
  refine List.Nodup.map_on ?_ (List.nodup_dedup _)
  intro k hk k' hk' heq
  obtain ⟨a, ha, rfl⟩ := List.mem_map.mp (List.mem_dedup.mp hk)
  obtain ⟨b, hb, rfl⟩ := List.mem_map.mp (List.mem_dedup.mp hk')
  exact h a ha b hb heq

end

/-! ## One pass -/

section

variable (key : α → κ) (start : α → Except ε β) (add : β → α → β)

/-- An element is put into its entry. -/
def put (table : List (κ × β)) (a : α) : Except ε (List (κ × β)) :=
  if key a ∈ table.map (·.1) then
    .ok (table.map fun entry => if entry.1 = key a then (entry.1, add entry.2 a) else entry)
  else (start a).map fun b => table ++ [(key a, b)]

/-- The elements of a list are put into their entries. -/
def collect : List (κ × β) → List α → Except ε (List (κ × β))
  | table, [] => .ok table
  | table, a :: as => (put key start add table a).bind fun table => collect table as

/-- The table holds what has been `seen`: one entry for each key, made of the elements of that key. -/
structure Collected (seen : List α) (table : List (κ × β)) : Prop where
  nodup : (table.map (·.1)).Nodup
  mem_keys : ∀ k, k ∈ table.map (·.1) ↔ ∃ a ∈ seen, key a = k
  entry : ∀ k b, (k, b) ∈ table → ∃ a rest first,
    (seen.filter fun x => key x = k) = a :: rest ∧ start a = .ok first ∧ b = rest.foldl add first

end

section

variable {key : α → κ} {start : α → Except ε β} {add : β → α → β}
variable {seen as : List α} {table table' : List (κ × β)} {a : α}

theorem Collected.nil : Collected key start add [] ([] : List (κ × β)) :=
  ⟨List.nodup_nil, by simp, by simp⟩

/-- Each entry has an element. -/
theorem Collected.exists_of_mem (h : Collected key start add seen table) {k : κ} {b : β}
    (hb : (k, b) ∈ table) : ∃ a ∈ seen, key a = k :=
  (h.mem_keys k).mp (List.mem_map_of_mem hb)

/-- Each element has an entry. -/
theorem Collected.exists_entry (h : Collected key start add seen table) (ha : a ∈ seen) :
    ∃ b, (key a, b) ∈ table := by
  obtain ⟨⟨k, b⟩, hb, hk⟩ := List.mem_map.mp ((h.mem_keys (key a)).mpr ⟨a, ha, rfl⟩)
  obtain rfl : k = key a := hk
  exact ⟨b, hb⟩

theorem put_of_mem (hmem : key a ∈ table.map (·.1)) : put key start add table a =
    .ok (table.map fun entry => if entry.1 = key a then (entry.1, add entry.2 a) else entry) := by
  rw [put, if_pos hmem]

theorem put_of_not_mem (hmem : key a ∉ table.map (·.1)) : put key start add table a =
    (start a).map fun b => table ++ [(key a, b)] := by
  rw [put, if_neg hmem]

/-- An element whose key has an entry is added to it. -/
theorem Collected.put_of_mem (h : Collected key start add seen table) (hmem : key a ∈ table.map (·.1)) :
    Collected key start add (seen ++ [a])
      (table.map fun entry => if entry.1 = key a then (entry.1, add entry.2 a) else entry) := by
  have hkeys : (table.map fun entry => if entry.1 = key a then (entry.1, add entry.2 a) else entry).map (·.1)
      = table.map (·.1) := by
    rw [List.map_map]
    refine List.map_congr_left fun entry _ => ?_
    simp only [Function.comp_apply]
    split <;> rfl
  refine ⟨hkeys ▸ h.nodup, fun k => ?_, ?_⟩
  · rw [hkeys, h.mem_keys k]
    obtain ⟨a', ha', hka'⟩ := (h.mem_keys (key a)).mp hmem
    constructor
    · rintro ⟨b, hb, rfl⟩
      exact ⟨b, List.mem_append_left _ hb, rfl⟩
    · rintro ⟨b, hb, rfl⟩
      rcases List.mem_append.mp hb with hb | hb
      · exact ⟨b, hb, rfl⟩
      · obtain rfl := List.mem_singleton.mp hb
        exact ⟨a', ha', hka'⟩
  · intro k b hb
    obtain ⟨⟨k₀, b₀⟩, hb₀, heq⟩ := List.mem_map.mp hb
    obtain ⟨x, rest, first, hfilter, hstart, rfl⟩ := h.entry k₀ b₀ hb₀
    by_cases hk : k₀ = key a
    · obtain ⟨rfl, rfl⟩ := by simpa only [if_pos hk, Prod.mk.injEq] using heq
      refine ⟨x, rest ++ [a], first, ?_, hstart, by rw [List.foldl_append]; rfl⟩
      rw [List.filter_append, hfilter, List.filter_singleton, hk]
      simp
    · obtain ⟨rfl, rfl⟩ := by simpa only [if_neg hk, Prod.mk.injEq] using heq
      refine ⟨x, rest, first, ?_, hstart, rfl⟩
      rw [List.filter_append, hfilter, List.filter_singleton]
      simp [Ne.symm hk]

/-- An element whose key has no entry begins one. -/
theorem Collected.put_of_not_mem (h : Collected key start add seen table) (hmem : key a ∉ table.map (·.1))
    {b : β} (hstart : start a = .ok b) : Collected key start add (seen ++ [a]) (table ++ [(key a, b)]) := by
  have hnew : (seen.filter fun x => key x = key a) = [] := by
    rw [List.filter_eq_nil_iff]
    intro x hx hkey
    exact hmem ((h.mem_keys _).mpr ⟨x, hx, of_decide_eq_true hkey⟩)
  refine ⟨?_, fun k => ?_, ?_⟩
  · rw [List.map_append, List.nodup_append]
    refine ⟨h.nodup, by simp, ?_⟩
    intro k hk k' hk' heq
    obtain rfl : k' = key a := by simpa using hk'
    exact hmem (heq ▸ hk)
  · rw [List.map_append, List.mem_append, h.mem_keys k]
    constructor
    · rintro (⟨x, hx, rfl⟩ | hk)
      · exact ⟨x, List.mem_append_left _ hx, rfl⟩
      · obtain rfl : k = key a := by simpa using hk
        exact ⟨a, by simp, rfl⟩
    · rintro ⟨x, hx, rfl⟩
      rcases List.mem_append.mp hx with hx | hx
      · exact .inl ⟨x, hx, rfl⟩
      · obtain rfl := List.mem_singleton.mp hx
        exact .inr (by simp)
  · intro k c hc
    rcases List.mem_append.mp hc with hc | hc
    · obtain ⟨x, rest, first, hfilter, hx, rfl⟩ := h.entry k c hc
      have hne : key a ≠ k := fun heq => hmem (heq ▸ List.mem_map_of_mem hc)
      refine ⟨x, rest, first, ?_, hx, rfl⟩
      rw [List.filter_append, hfilter, List.filter_singleton]
      simp [hne]
    · obtain ⟨rfl, rfl⟩ : k = key a ∧ c = b := by simpa using hc
      refine ⟨a, [], c, ?_, hstart, rfl⟩
      rw [List.filter_append, hnew, List.filter_singleton]
      simp

/-- One element: the table goes on holding what has been seen. -/
theorem Collected.put (h : Collected key start add seen table)
    (hput : put key start add table a = .ok table') : Collected key start add (seen ++ [a]) table' := by
  by_cases hmem : key a ∈ table.map (·.1)
  · rw [Grouping.put_of_mem hmem] at hput
    obtain rfl := Except.ok.inj hput
    exact h.put_of_mem hmem
  · rw [Grouping.put_of_not_mem hmem] at hput
    cases hstart : start a with
    | error err =>
        rw [hstart] at hput
        cases hput
    | ok b =>
        rw [hstart] at hput
        obtain rfl := Except.ok.inj hput
        exact h.put_of_not_mem hmem hstart

/-- An element is put somewhere unless it would have to begin an entry and cannot. -/
theorem Collected.exists_put_iff (h : Collected key start add seen table) :
    (∃ table', Grouping.put key start add table a = .ok table') ↔
      ((∀ b ∈ seen, key b ≠ key a) → ∃ b, start a = .ok b) := by
  by_cases hmem : key a ∈ table.map (·.1)
  · obtain ⟨b, hb, hkey⟩ := (h.mem_keys _).mp hmem
    exact ⟨fun _ hnew => absurd hkey (hnew b hb), fun _ => ⟨_, Grouping.put_of_mem hmem⟩⟩
  · have hnew : ∀ b ∈ seen, key b ≠ key a := fun b hb hkey => hmem ((h.mem_keys _).mpr ⟨b, hb, hkey⟩)
    rw [Grouping.put_of_not_mem hmem]
    cases hstart : start a with
    | error err => simpa [Except.map] using hnew
    | ok b => exact ⟨fun _ _ => ⟨b, rfl⟩, fun _ => ⟨_, rfl⟩⟩

/-- Any number of elements: the table goes on holding what has been seen. -/
theorem Collected.collect (h : Collected key start add seen table)
    (hrun : collect key start add table as = .ok table') : Collected key start add (seen ++ as) table' := by
  induction as generalizing seen table with
  | nil =>
      obtain rfl := Except.ok.inj hrun
      rwa [List.append_nil]
  | cons a as ih =>
      cases hput : Grouping.put key start add table a with
      | error err =>
          rw [Grouping.collect, hput] at hrun
          cases hrun
      | ok next =>
          rw [Grouping.collect, hput] at hrun
          have := ih (h.put hput) hrun
          rwa [List.append_assoc] at this

/-- All elements are put somewhere unless one would have to begin an entry and cannot. -/
theorem Collected.exists_collect_iff (h : Collected key start add seen table) :
    (∃ table', Grouping.collect key start add table as = .ok table') ↔
      ∀ before a after, as = before ++ a :: after → (∀ b ∈ seen ++ before, key b ≠ key a) →
        ∃ b, start a = .ok b := by
  induction as generalizing seen table with
  | nil =>
      refine ⟨fun _ before a after heq => ?_, fun _ => ⟨table, rfl⟩⟩
      simp at heq
  | cons a as ih =>
      constructor
      · rintro ⟨table', hrun⟩ before x after heq hnew
        obtain ⟨next, hput⟩ : ∃ next, Grouping.put key start add table a = .ok next := by
          cases hput : Grouping.put key start add table a with
          | error err =>
              rw [Grouping.collect, hput] at hrun
              cases hrun
          | ok next => exact ⟨next, rfl⟩
        rw [Grouping.collect, hput] at hrun
        cases before with
        | nil =>
            obtain ⟨rfl, rfl⟩ : a = x ∧ as = after := by simpa using heq
            exact h.exists_put_iff.mp ⟨next, hput⟩ (by simpa using hnew)
        | cons y before =>
            obtain ⟨rfl, rfl⟩ : a = y ∧ as = before ++ x :: after := by simpa using heq
            refine (ih (h.put hput)).mp ⟨table', hrun⟩ before x after rfl ?_
            simpa using hnew
      · intro hstart
        obtain ⟨next, hput⟩ := h.exists_put_iff.mpr fun hnew => hstart [] a as rfl (by simpa using hnew)
        obtain ⟨table', hrun⟩ := (ih (h.put hput)).mpr fun before x after heq hnew =>
          hstart (a :: before) x after (by rw [heq]; rfl) (by simpa using hnew)
        refine ⟨table', ?_⟩
        rw [Grouping.collect, hput]
        exact hrun

/-- The entries of two keys are found at one place only if the keys are equal. -/
theorem findIdx?_eq_iff {k k' : κ} (hk : k ∈ table.map (·.1)) :
    (table.findIdx? fun entry => entry.1 = k) = (table.findIdx? fun entry => entry.1 = k') ↔ k = k' := by
  refine ⟨fun heq => ?_, fun heq => heq ▸ rfl⟩
  obtain ⟨entry, hentry, rfl⟩ := List.mem_map.mp hk
  have hsome : (table.findIdx? fun e => e.1 = entry.1).isSome := by
    rw [List.findIdx?_isSome, List.any_eq_true]
    exact ⟨entry, hentry, by simp⟩
  obtain ⟨i, hi⟩ := Option.isSome_iff_exists.mp hsome
  obtain ⟨hlt, hfst, -⟩ := List.findIdx?_eq_some_iff_getElem.mp hi
  obtain ⟨_, hsnd, -⟩ := List.findIdx?_eq_some_iff_getElem.mp (heq ▸ hi)
  exact (of_decide_eq_true hfst).symm.trans (of_decide_eq_true hsnd)

end

end EveBox.Grouping
