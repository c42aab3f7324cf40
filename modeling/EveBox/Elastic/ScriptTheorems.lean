import EveBox.Elastic.AlertGroup

/-!
# What the scripts change

A script runs through on a source whose tags and history are lists, if they are there. It adds one entry to the
history, sets or clears its tag and leaves everything else as it is.
-/

namespace EveBox.Elastic

open Rust Repo ElasticEventRepo

/-! ## Well formed sources -/

/-- The tags of a source. -/
def tagsOf (source : Json) : List Json := (source.get "tags").asArray.getD []

/-- The history of a source. -/
def historyOf (source : Json) : List Json := ((source.get "evebox").get "history").asArray.getD []

/-- Missing, or a list. -/
def IsListOrNull (value : Json) : Prop := value = .null ∨ ∃ elems, value = .array elems

/-- The scripts run through on the source. -/
structure Scriptable (source : Json) : Prop where
  isObject : source.isObject
  tags : IsListOrNull (source.get "tags")
  evebox : source.get "evebox" = .null ∨ (source.get "evebox").isObject
  history : IsListOrNull ((source.get "evebox").get "history")

/-- A source has been changed by an operation: its tag is set or cleared, and the history has one entry more. -/
structure Changed (tag : String) (isSet : Bool) (entry source source' : Json) : Prop where
  history : historyOf source' = historyOf source ++ [entry]
  isTagged : Json.string tag ∈ tagsOf source' ↔ isSet = true
  tags : ∀ other : Json, other ≠ .string tag → (other ∈ tagsOf source' ↔ other ∈ tagsOf source)
  fields : ∀ key, key ≠ "tags" → key ≠ "evebox" → source'.get key = source.get key
  evebox : ∀ key, key ≠ "history" → (source'.get "evebox").get key = (source.get "evebox").get key

/-! ## What is ensured -/

section

variable {source source' empty : Json} {key : String} {keys : List String}

theorem ensureAt_get_ne (h : ensureAt source (key :: keys) empty = some source') {other : String}
    (hother : other ≠ key) : source'.get other = source.get other := by
  unfold ensureAt at h
  split at h
  · exact Json.get_setPath_ne h hother
  · rw [Option.some.inj h]

theorem ensureAt_getPath (h : ensureAt source (key :: keys) empty = some source') :
    source'.getPath (key :: keys) =
      if source.getPath (key :: keys) = .null then empty else source.getPath (key :: keys) := by
  unfold ensureAt at h
  split at h
  · rename_i hnull
    rw [if_pos hnull, Json.getPath_setPath h]
  · rename_i hne
    rw [if_neg hne, Option.some.inj h]

/-- An object stays one, and what can be set in it can be ensured in it. -/
theorem exists_ensureAt (hobject : source.isObject)
    (hset : ∃ source', source.setPath (key :: keys) empty = some source') :
    ∃ source', ensureAt source (key :: keys) empty = some source' ∧ source'.isObject := by
  unfold ensureAt
  split
  · obtain ⟨source', hsource'⟩ := hset
    exact ⟨source', hsource', Json.isObject_setPath hsource'⟩
  · exact ⟨source, rfl, hobject⟩

end

/-! ## The history -/

section

variable {entry source source' : Json}

theorem IsListOrNull.exists_asArray {value : Json} (h : IsListOrNull value) :
    ∃ elems, (if value = .null then .array [] else value) = Json.array elems ∧ value.asArray.getD [] = elems := by
  rcases h with rfl | ⟨elems, rfl⟩
  · exact ⟨[], rfl, rfl⟩
  · exact ⟨elems, rfl, rfl⟩

/-- Adding to the history. -/
theorem addHistory_spec (h : addHistory entry source = some source') :
    historyOf source' = historyOf source ++ [entry] ∧
    (∀ key, key ≠ "evebox" → source'.get key = source.get key) ∧
    ∀ key, key ≠ "history" → (source'.get "evebox").get key = (source.get "evebox").get key := by
  obtain ⟨first, hfirst, h⟩ := Option.bind_eq_some_iff.mp h
  obtain ⟨second, hsecond, h⟩ := Option.bind_eq_some_iff.mp h
  obtain ⟨history, hhistory, hlast⟩ := Option.bind_eq_some_iff.mp h
  -- null and an empty object have the same fields
  have hevebox : ∀ key, (first.get "evebox").get key = (source.get "evebox").get key := by
    intro key
    have hget : first.get "evebox" = if source.get "evebox" = .null then .object [] else source.get "evebox" :=
      ensureAt_getPath hfirst
    rw [hget]
    split
    · rename_i hnull
      rw [hnull]
      rfl
    · rfl
  have hsecondOther : ∀ key, key ≠ "history" → (second.get "evebox").get key = (first.get "evebox").get key := by
    intro key hkey
    unfold ensureAt at hsecond
    split at hsecond
    · exact Json.get_setPath_ne (Json.get_setPath_self hsecond) hkey
    · rw [Option.some.inj hsecond]
  have hsame : history = historyOf source := by
    have hget : (second.get "evebox").get "history" =
        if (first.get "evebox").get "history" = .null then .array [] else (first.get "evebox").get "history" :=
      ensureAt_getPath hsecond
    change ((second.get "evebox").get "history").asArray = some history at hhistory
    rw [hget, hevebox] at hhistory
    rw [historyOf]
    split at hhistory
    · rename_i hnull
      rw [hnull, ← Option.some.inj hhistory]
      rfl
    · rw [hhistory]
      rfl
  have hinner := Json.get_setPath_self hlast
  refine ⟨?_, fun key hkey => ?_, fun key hkey => ?_⟩
  · rw [historyOf, Json.get_set_self hinner, hsame]
    rfl
  · rw [Json.get_setPath_ne hlast hkey, ensureAt_get_ne hsecond hkey, ensureAt_get_ne hfirst hkey]
  · rw [Json.get_setPath_ne hinner hkey, hsecondOther key hkey, hevebox]

/-- It runs through on what is well formed. -/
theorem exists_addHistory (hobject : source.isObject)
    (hevebox : source.get "evebox" = .null ∨ (source.get "evebox").isObject)
    (hhistory : IsListOrNull ((source.get "evebox").get "history")) :
    ∃ source', addHistory entry source = some source' := by
  obtain ⟨first, hfirst, hfirstObject⟩ : ∃ first, ensureAt source ["evebox"] (.object []) = some first ∧ first.isObject :=
    exists_ensureAt hobject (Json.exists_set_of_isObject hobject)
  have hget : first.get "evebox" = if source.get "evebox" = .null then .object [] else source.get "evebox" :=
    ensureAt_getPath hfirst
  obtain ⟨heveboxObject, hlist⟩ : (first.get "evebox").isObject ∧ IsListOrNull ((first.get "evebox").get "history") := by
    rw [hget]
    split
    · exact ⟨rfl, .inl rfl⟩
    · rename_i hne
      exact ⟨hevebox.resolve_left hne, hhistory⟩
  obtain ⟨inner, hinner⟩ : ∃ inner, (first.get "evebox").set "history" (.array []) = some inner :=
    Json.exists_set_of_isObject heveboxObject
  obtain ⟨second, hsecond, hsecondObject⟩ := exists_ensureAt hfirstObject (Json.exists_setPath (.inr hfirstObject) hinner)
  obtain ⟨elems, helems, -⟩ := hlist.exists_asArray
  have hhistory : second.getPath ["evebox", "history"] = .array elems := by
    rw [ensureAt_getPath hsecond]
    exact helems
  obtain ⟨last, hlast⟩ : ∃ last, (second.get "evebox").set "history" (.array (elems ++ [entry])) = some last := by
    have hne : (second.get "evebox").get "history" ≠ .null := by
      rw [show (second.get "evebox").get "history" = .array elems from hhistory]
      simp
    exact Json.exists_set_of_isObject (Json.isObject_of_get_ne hne)
  obtain ⟨source', hsource'⟩ := Json.exists_setPath (.inr hsecondObject) hlast
  refine ⟨source', Option.bind_eq_some_iff.mpr ⟨first, hfirst, Option.bind_eq_some_iff.mpr ⟨second, hsecond, ?_⟩⟩⟩
  rw [hhistory]
  exact hsource'

end

/-! ## The tags -/

section

variable {tag : String} {entry source source' : Json}

theorem mem_addMissing {list : List Json} {other : Json} :
    other ∈ addMissing [tag] list ↔ other ∈ list ∨ other = .string tag := by
  unfold addMissing
  simp only [List.foldl_cons, List.foldl_nil]
  split
  · rename_i hmem
    constructor
    · exact .inl
    · rintro (hother | rfl)
      · exact hother
      · exact List.contains_iff_mem.mp hmem
  · rw [List.mem_append, List.mem_singleton]

/-- The script that adds a tag. -/
theorem addTagsScript_spec (h : addTagsScript [tag] entry source = some source') :
    Changed tag true entry source source' := by
  obtain ⟨first, hfirst, h⟩ := Option.bind_eq_some_iff.mp h
  obtain ⟨list, hlist, h⟩ := Option.bind_eq_some_iff.mp h
  obtain ⟨second, hsecond, hlast⟩ := Option.bind_eq_some_iff.mp h
  obtain ⟨hhistory, hfields, hevebox⟩ := addHistory_spec hlast
  have hsame : list = tagsOf source := by
    have hget : first.get "tags" = if source.get "tags" = .null then .array [] else source.get "tags" :=
      ensureAt_getPath hfirst
    rw [hget] at hlist
    rw [tagsOf]
    split at hlist
    · rename_i hnull
      rw [hnull, ← Option.some.inj hlist]
      rfl
    · rw [hlist]
      rfl
  have hother : ∀ key, key ≠ "tags" → second.get key = source.get key := fun key hkey => by
    rw [Json.get_setPath_ne hsecond hkey, ensureAt_get_ne hfirst hkey]
  have htags : tagsOf source' = addMissing [tag] (tagsOf source) := by
    rw [tagsOf, hfields "tags" (by decide), Json.get_set_self hsecond, hsame]
    rfl
  refine ⟨?_, ?_, fun other hne => ?_, fun key hkey hkey' => ?_, fun key hkey => ?_⟩
  · rw [hhistory, historyOf, hother "evebox" (by decide), historyOf]
  · rw [htags, mem_addMissing]
    simp
  · rw [htags, mem_addMissing, or_iff_left hne]
  · rw [hfields key hkey', hother key hkey]
  · rw [hevebox key hkey, hother "evebox" (by decide)]

theorem clearTags_spec {first : Json} (h : clearTags [tag] source = some first) :
    tagsOf first = (tagsOf source).filter (fun entry => entry ≠ .string tag) ∧
    ∀ key, key ≠ "tags" → first.get key = source.get key := by
  unfold clearTags at h
  split at h
  · rename_i hnull
    obtain rfl := Option.some.inj h
    refine ⟨?_, fun key _ => rfl⟩
    rw [tagsOf, hnull]
    rfl
  · obtain ⟨list, hlist, hset⟩ := Option.bind_eq_some_iff.mp h
    refine ⟨?_, fun key hkey => Json.get_setPath_ne hset hkey⟩
    rw [tagsOf, Json.get_set_self hset, tagsOf, hlist]
    refine List.filter_congr fun entry _ => ?_
    simp

/-- The script that removes a tag. -/
theorem removeTagsScript_spec (h : removeTagsScript [tag] entry source = some source') :
    Changed tag false entry source source' := by
  obtain ⟨first, hfirst, hlast⟩ := Option.bind_eq_some_iff.mp h
  obtain ⟨hhistory, hfields, hevebox⟩ := addHistory_spec hlast
  obtain ⟨htagsFirst, hother⟩ := clearTags_spec hfirst
  have htags : tagsOf source' = (tagsOf source).filter fun entry => entry ≠ .string tag := by
    rw [← htagsFirst, tagsOf, hfields "tags" (by decide), tagsOf]
  refine ⟨?_, ?_, fun other hne => ?_, fun key hkey hkey' => ?_, fun key hkey => ?_⟩
  · rw [hhistory, historyOf, hother "evebox" (by decide), historyOf]
  · rw [htags, List.mem_filter]
    simp
  · rw [htags, List.mem_filter, decide_eq_true_eq]
    exact and_iff_left hne
  · rw [hfields key hkey', hother key hkey]
  · rw [hevebox key hkey, hother "evebox" (by decide)]

/-- Both scripts run through on what is well formed. -/
theorem exists_addTagsScript (h : Scriptable source) : ∃ source', addTagsScript [tag] entry source = some source' := by
  obtain ⟨first, hfirst, hobject⟩ : ∃ first, ensureAt source ["tags"] (.array []) = some first ∧ first.isObject :=
    exists_ensureAt h.isObject (Json.exists_set_of_isObject h.isObject)
  have hget : first.get "tags" = if source.get "tags" = .null then .array [] else source.get "tags" :=
    ensureAt_getPath hfirst
  obtain ⟨list, hlist, -⟩ := h.tags.exists_asArray
  obtain ⟨second, hsecond⟩ : ∃ second, first.set "tags" (.array (addMissing [tag] list)) = some second :=
    Json.exists_set_of_isObject hobject
  have hevebox : second.get "evebox" = source.get "evebox" := by
    rw [Json.get_setPath_ne hsecond (by decide), ensureAt_get_ne hfirst (by decide)]
  obtain ⟨source', hsource'⟩ := @exists_addHistory entry second (Json.isObject_setPath hsecond)
    (hevebox ▸ h.evebox) (hevebox ▸ h.history)
  refine ⟨source', Option.bind_eq_some_iff.mpr ⟨first, hfirst, Option.bind_eq_some_iff.mpr ⟨list, ?_,
    Option.bind_eq_some_iff.mpr ⟨second, hsecond, hsource'⟩⟩⟩⟩
  rw [hget, hlist]
  rfl

theorem exists_removeTagsScript (h : Scriptable source) :
    ∃ source', removeTagsScript [tag] entry source = some source' := by
  obtain ⟨first, hfirst, hobject⟩ : ∃ first, clearTags [tag] source = some first ∧ first.isObject := by
    unfold clearTags
    split
    · exact ⟨source, rfl, h.isObject⟩
    · rename_i hne
      obtain ⟨list, hlist⟩ := h.tags.resolve_left hne
      rw [hlist]
      obtain ⟨first, hfirst⟩ : ∃ first, source.set "tags" (.array (list.filter fun entry =>
          !([tag].any fun tag => entry = .string tag))) = some first := Json.exists_set_of_isObject h.isObject
      exact ⟨first, hfirst, Json.isObject_setPath hfirst⟩
  have hevebox := (clearTags_spec hfirst).2 "evebox" (by decide)
  obtain ⟨source', hsource'⟩ := @exists_addHistory entry first hobject (hevebox ▸ h.evebox) (hevebox ▸ h.history)
  exact ⟨source', Option.bind_eq_some_iff.mpr ⟨first, hfirst, hsource'⟩⟩

end

end EveBox.Elastic
