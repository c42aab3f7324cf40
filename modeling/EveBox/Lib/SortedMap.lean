import Mathlib.Data.List.Dedup
import Mathlib.Data.List.Sort

/-!
# Maps whose keys are in order

* `get?_insert` — what a map has after an insertion.
* `ext_get?` — a map is known by what it has.
* `mem_ofKeys` — the map of a function on keys that come in any order.
-/

/-- A map, by its entries in the order of their keys. -/
structure SortedMap (κ β : Type*) [LinearOrder κ] where
  entries : List (κ × β)
  sorted : entries.Pairwise fun a b => a.1 < b.1

namespace SortedMap

section

variable {κ β : Type*} [LinearOrder κ]

def empty : SortedMap κ β := ⟨[], List.Pairwise.nil⟩

/-- The entry is put where its key belongs, in place of one with the same key. -/
def insertEntry (k : κ) (v : β) : List (κ × β) → List (κ × β)
  | [] => [(k, v)]
  | e :: rest =>
      if k < e.1 then (k, v) :: e :: rest
      else if k = e.1 then (k, v) :: rest
      else e :: insertEntry k v rest

theorem mem_insertEntry {k : κ} {v : β} {entries : List (κ × β)} {e : κ × β} (h : e ∈ insertEntry k v entries) :
    e = (k, v) ∨ e ∈ entries := by
  induction entries with
  | nil => exact .inl (List.mem_singleton.mp h)
  | cons e' rest ih =>
      unfold insertEntry at h
      split_ifs at h
      · exact List.mem_cons.mp h
      · exact (List.mem_cons.mp h).imp_right (List.mem_cons_of_mem _)
      · rcases List.mem_cons.mp h with rfl | h
        · exact .inr List.mem_cons_self
        · exact (ih h).imp_right (List.mem_cons_of_mem _)

theorem sorted_insertEntry (k : κ) (v : β) {entries : List (κ × β)} (h : entries.Pairwise fun a b => a.1 < b.1) :
    (insertEntry k v entries).Pairwise fun a b => a.1 < b.1 := by
  induction entries with
  | nil => exact List.pairwise_singleton _ _
  | cons e rest ih =>
      obtain ⟨hhead, hrest⟩ := List.pairwise_cons.mp h
      unfold insertEntry
      split_ifs with hlt heq
      · refine List.pairwise_cons.mpr ⟨fun e' he' => ?_, h⟩
        rcases List.mem_cons.mp he' with rfl | he'
        · exact hlt
        · exact lt_trans hlt (hhead e' he')
      · subst heq
        exact List.pairwise_cons.mpr ⟨hhead, hrest⟩
      · refine List.pairwise_cons.mpr ⟨fun e' he' => ?_, ih hrest⟩
        rcases mem_insertEntry he' with rfl | he'
        · exact lt_of_le_of_ne (not_lt.mp hlt) fun h => heq h.symm
        · exact hhead e' he'

/-- The map with an entry. -/
def insert (m : SortedMap κ β) (k : κ) (v : β) : SortedMap κ β :=
  ⟨insertEntry k v m.entries, sorted_insertEntry k v m.sorted⟩

/-- What the map has for a key. -/
def get? (m : SortedMap κ β) (k : κ) : Option β := (m.entries.find? fun e => e.1 = k).map (·.2)

/-- The values, in the order of their keys. -/
def values (m : SortedMap κ β) : List β := m.entries.map (·.2)

variable {m m' : SortedMap κ β}

/-- Of two entries with the same key there is only one. -/
theorem eq_of_mem {e e' : κ × β} (he : e ∈ m.entries) (he' : e' ∈ m.entries) (h : e.1 = e'.1) : e = e' := by
  have hnodup : (m.entries.map (·.1)).Nodup := by
    rw [List.nodup_iff_pairwise_ne, List.pairwise_map]
    exact m.sorted.imp fun h => h.ne
  exact List.inj_on_of_nodup_map hnodup he he' h

theorem get?_eq_some {k : κ} {v : β} : m.get? k = some v ↔ (k, v) ∈ m.entries := by
  rw [get?, Option.map_eq_some_iff]
  constructor
  · rintro ⟨e, he, rfl⟩
    have hk : e.1 = k := by simpa using List.find?_some he
    rw [← hk]
    exact List.mem_of_find?_eq_some he
  · intro hmem
    refine ⟨(k, v), ?_, rfl⟩
    cases hfind : m.entries.find? fun e => e.1 = k with
    | none => exact absurd (List.find?_eq_none.mp hfind _ hmem) (by simp)
    | some e =>
        have hk : e.1 = k := by simpa using List.find?_some hfind
        rw [eq_of_mem (List.mem_of_find?_eq_some hfind) hmem hk]

theorem get?_empty (k : κ) : (empty : SortedMap κ β).get? k = none := rfl

theorem mem_insertEntry_iff {k : κ} {v : β} {entries : List (κ × β)} (h : entries.Pairwise fun a b => a.1 < b.1)
    {e : κ × β} : e ∈ insertEntry k v entries ↔ e = (k, v) ∨ e ∈ entries ∧ e.1 ≠ k := by
  induction entries with
  | nil => simp [insertEntry]
  | cons e' rest ih =>
      obtain ⟨hhead, hrest⟩ := List.pairwise_cons.mp h
      unfold insertEntry
      split_ifs with hlt heq
      · have hall : ∀ e ∈ e' :: rest, e.1 ≠ k := by
          intro e he
          rcases List.mem_cons.mp he with rfl | he
          · exact hlt.ne'
          · exact (lt_trans hlt (hhead e he)).ne'
        rw [List.mem_cons]
        exact or_congr_right ⟨fun he => ⟨he, hall e he⟩, And.left⟩
      · subst heq
        rw [List.mem_cons, List.mem_cons]
        refine or_congr_right ⟨fun he => ⟨.inr he, (hhead e he).ne'⟩, ?_⟩
        rintro ⟨rfl | he, hne⟩
        · exact absurd rfl hne
        · exact he
      · rw [List.mem_cons, List.mem_cons, ih hrest]
        constructor
        · rintro (rfl | rfl | ⟨he, hne⟩)
          · exact .inr ⟨.inl rfl, fun h => heq h.symm⟩
          · exact .inl rfl
          · exact .inr ⟨.inr he, hne⟩
        · rintro (rfl | ⟨rfl | he, hne⟩)
          · exact .inr (.inl rfl)
          · exact .inl rfl
          · exact .inr (.inr ⟨he, hne⟩)

/-- What a map has after an insertion. -/
theorem get?_insert (m : SortedMap κ β) (k : κ) (v : β) (k' : κ) :
    (m.insert k v).get? k' = if k' = k then some v else m.get? k' := by
  refine Option.ext fun w => ?_
  have hinsert : (k', w) ∈ (m.insert k v).entries ↔ (k', w) = (k, v) ∨ (k', w) ∈ m.entries ∧ k' ≠ k :=
    mem_insertEntry_iff m.sorted
  rw [get?_eq_some, hinsert, Prod.mk.injEq]
  by_cases hk : k' = k
  · simp [hk, eq_comm]
  · simp [hk, get?_eq_some]

/-- A map is known by what it has. -/
theorem ext_get? (h : ∀ k, m.get? k = m'.get? k) : m = m' := by
  have hirrefl : Std.Irrefl fun a b : κ × β => a.1 < b.1 := ⟨fun a => lt_irrefl a.1⟩
  have hantisymm : Std.Antisymm fun a b : κ × β => a.1 < b.1 := ⟨fun a b hab hba => absurd hab (lt_asymm hba)⟩
  have hmem : ∀ e, e ∈ m.entries ↔ e ∈ m'.entries := fun e => by
    rw [← get?_eq_some, ← get?_eq_some, h]
  have hentries := m.sorted.eq_of_mem_iff m'.sorted hmem
  cases m
  cases m'
  simpa using hentries

/-- The map of a function, on keys that come in any order and any number of times. -/
def ofKeys (keys : List κ) (f : κ → β) : SortedMap κ β where
  entries := (keys.dedup.insertionSort (· ≤ ·)).map fun k => (k, f k)
  sorted := by
    have hle : (keys.dedup.insertionSort (· ≤ ·)).Pairwise (· ≤ ·) := List.pairwise_insertionSort _ _
    have hne : (keys.dedup.insertionSort (· ≤ ·)).Nodup :=
      (List.perm_insertionSort _ _).nodup_iff.mpr (List.nodup_dedup keys)
    rw [List.pairwise_map]
    exact (hle.and hne).imp fun h => lt_of_le_of_ne h.1 h.2

theorem mem_ofKeys {keys : List κ} {f : κ → β} {e : κ × β} :
    e ∈ (ofKeys keys f).entries ↔ e.1 ∈ keys ∧ e.2 = f e.1 := by
  have hkeys : ∀ k, k ∈ keys.dedup.insertionSort (· ≤ ·) ↔ k ∈ keys := fun k => by
    rw [(List.perm_insertionSort _ _).mem_iff, List.mem_dedup]
  simp only [ofKeys, List.mem_map]
  constructor
  · rintro ⟨k, hk, rfl⟩
    exact ⟨(hkeys k).mp hk, rfl⟩
  · rintro ⟨hk, hf⟩
    exact ⟨e.1, (hkeys e.1).mpr hk, by rw [← hf]⟩

theorem mem_values {v : β} : v ∈ m.values ↔ ∃ k, m.get? k = some v := by
  simp only [values, List.mem_map, get?_eq_some]
  constructor
  · rintro ⟨e, he, rfl⟩
    exact ⟨e.1, he⟩
  · rintro ⟨k, he⟩
    exact ⟨(k, v), he, rfl⟩

end

end SortedMap
