import EveBox.Elastic.ScriptTheorems

/-!
# Sources that scripts have run on

The scripts add any number of tags, or remove them. What they leave is well formed again, so that the next script runs
through on it as well.

* `addTagsScript_applied`, `removeTagsScript_applied` — what the scripts make of the tags and of the history.
* `exists_addTags`, `exists_removeTags` — they run through on what is well formed.
-/

namespace EveBox.Elastic

open Rust Repo ElasticEventRepo

/-- A script has run on a source: it has these tags now, and one entry of the history more. -/
structure Applied (tags : List Json) (entry source source' : Json) : Prop where
  scriptable : Scriptable source'
  tags : tagsOf source' = tags
  history : historyOf source' = historyOf source ++ [entry]
  fields : ∀ key, key ≠ "tags" → key ≠ "evebox" → source'.get key = source.get key
  evebox : ∀ key, key ≠ "history" → (source'.get "evebox").get key = (source.get "evebox").get key

section

variable {tags : List String} {entry source source' : Json}

/-- Where the history is added to there is a list of entries. -/
theorem addHistory_shape (h : addHistory entry source = some source') : source'.isObject ∧
    (source'.get "evebox").isObject ∧ ∃ elems, (source'.get "evebox").get "history" = .array elems := by
  obtain ⟨first, hfirst, h⟩ := Option.bind_eq_some_iff.mp h
  obtain ⟨second, hsecond, h⟩ := Option.bind_eq_some_iff.mp h
  obtain ⟨history, hhistory, hlast⟩ := Option.bind_eq_some_iff.mp h
  have hinner := Json.get_setPath_self hlast
  exact ⟨Json.isObject_setPath hlast, Json.isObject_setPath hinner, _, Json.get_set_self hinner⟩

/-- A source whose tags are well formed, after the history has been added to. -/
theorem applied_of_addHistory {first : Json} (h : addHistory entry first = some source')
    (htags : IsListOrNull (first.get "tags"))
    (hother : ∀ key, key ≠ "tags" → first.get key = source.get key) :
    Applied (tagsOf first) entry source source' := by
  obtain ⟨hhistory, hfields, hevebox⟩ := addHistory_spec h
  obtain ⟨hobject, heveboxObject, elems, helems⟩ := addHistory_shape h
  have htags' : source'.get "tags" = first.get "tags" := hfields "tags" (by decide)
  refine ⟨⟨hobject, ?_, .inr heveboxObject, .inr ⟨elems, helems⟩⟩, ?_, ?_, fun key hkey hkey' => ?_, fun key hkey => ?_⟩
  · rw [htags']
    exact htags
  · rw [tagsOf, htags', tagsOf]
  · rw [hhistory, historyOf, hother "evebox" (by decide), historyOf]
  · rw [hfields key hkey', hother key hkey]
  · rw [hevebox key hkey, hother "evebox" (by decide)]

/-- The script that adds tags. -/
theorem addTagsScript_applied (h : addTagsScript tags entry source = some source') :
    Applied (addMissing tags (tagsOf source)) entry source source' := by
  obtain ⟨first, hfirst, h⟩ := Option.bind_eq_some_iff.mp h
  obtain ⟨list, hlist, h⟩ := Option.bind_eq_some_iff.mp h
  obtain ⟨second, hsecond, hlast⟩ := Option.bind_eq_some_iff.mp h
  have hsame : list = tagsOf source := by
    have hget : first.get "tags" = if source.get "tags" = .null then .array [] else source.get "tags" :=
      ensureAt_getPath hfirst
    rw [hget] at hlist
    rw [tagsOf]
    split at hlist
    · rename_i hnull
      rw [hnull, ← Option.some.inj hlist]
      rfl
    · rw [hlist]
      rfl
  have htags : second.get "tags" = .array (addMissing tags (tagsOf source)) := by
    rw [Json.get_set_self hsecond, hsame]
  have hother : ∀ key, key ≠ "tags" → second.get key = source.get key := fun key hkey => by
    rw [Json.get_setPath_ne hsecond hkey, ensureAt_get_ne hfirst hkey]
  have hlaw := applied_of_addHistory hlast (.inr ⟨_, htags⟩) hother
  rw [tagsOf, htags] at hlaw
  exact hlaw

/-- The tags are taken out of a list, or there is none. -/
theorem clearTags_law {first : Json} (h : clearTags tags source = some first) :
    IsListOrNull (first.get "tags") ∧
    tagsOf first = (tagsOf source).filter (fun tag => !tags.any fun t => tag = .string t) ∧
    ∀ key, key ≠ "tags" → first.get key = source.get key := by
  unfold clearTags at h
  split at h
  · rename_i hnull
    obtain rfl := Option.some.inj h
    refine ⟨.inl hnull, ?_, fun key _ => rfl⟩
    rw [tagsOf, hnull]
    rfl
  · obtain ⟨list, hlist, hset⟩ := Option.bind_eq_some_iff.mp h
    refine ⟨.inr ⟨_, Json.get_set_self hset⟩, ?_, fun key hkey => Json.get_setPath_ne hset hkey⟩
    rw [tagsOf, Json.get_set_self hset, tagsOf, hlist]
    rfl

/-- The script that removes tags. -/
theorem removeTagsScript_applied (h : removeTagsScript tags entry source = some source') :
    Applied ((tagsOf source).filter fun tag => !tags.any fun t => tag = .string t) entry source source' := by
  obtain ⟨first, hfirst, hlast⟩ := Option.bind_eq_some_iff.mp h
  obtain ⟨hlist, htags, hother⟩ := clearTags_law hfirst
  have hlaw := applied_of_addHistory hlast hlist hother
  rw [htags] at hlaw
  exact hlaw

/-- Both scripts run through on what is well formed. -/
theorem exists_addTags (h : Scriptable source) (tags : List String) :
    ∃ source', addTagsScript tags entry source = some source' := by
  obtain ⟨first, hfirst, hobject⟩ : ∃ first, ensureAt source ["tags"] (.array []) = some first ∧ first.isObject :=
    exists_ensureAt h.isObject (Json.exists_set_of_isObject h.isObject)
  have hget : first.get "tags" = if source.get "tags" = .null then .array [] else source.get "tags" :=
    ensureAt_getPath hfirst
  obtain ⟨list, hlist, -⟩ := h.tags.exists_asArray
  obtain ⟨second, hsecond⟩ : ∃ second, first.set "tags" (.array (addMissing tags list)) = some second :=
    Json.exists_set_of_isObject hobject
  have hevebox : second.get "evebox" = source.get "evebox" := by
    rw [Json.get_setPath_ne hsecond (by decide), ensureAt_get_ne hfirst (by decide)]
  obtain ⟨source', hsource'⟩ := @exists_addHistory entry second (Json.isObject_setPath hsecond)
    (by rw [hevebox]; exact h.evebox) (by rw [hevebox]; exact h.history)
  refine ⟨source', Option.bind_eq_some_iff.mpr ⟨first, hfirst, Option.bind_eq_some_iff.mpr ⟨list, ?_, ?_⟩⟩⟩
  · rw [hget, hlist]
    rfl
  · exact Option.bind_eq_some_iff.mpr ⟨second, hsecond, hsource'⟩

theorem exists_removeTags (h : Scriptable source) (tags : List String) :
    ∃ source', removeTagsScript tags entry source = some source' := by
  obtain ⟨first, hfirst, hobject, hevebox⟩ : ∃ first, clearTags tags source = some first ∧ first.isObject ∧
      first.get "evebox" = source.get "evebox" := by
    unfold clearTags
    split
    · exact ⟨source, rfl, h.isObject, rfl⟩
    · rename_i hne
      obtain ⟨list, hlist⟩ := h.tags.resolve_left hne
      rw [hlist]
      obtain ⟨first, hfirst⟩ := @Json.exists_set_of_isObject "tags"
        (.array (list.filter fun tag => !tags.any fun t => tag = .string t)) source h.isObject
      exact ⟨first, hfirst, Json.isObject_setPath hfirst, Json.get_setPath_ne hfirst (by decide)⟩
  obtain ⟨source', hsource'⟩ := @exists_addHistory entry first hobject
    (by rw [hevebox]; exact h.evebox) (by rw [hevebox]; exact h.history)
  exact ⟨source', Option.bind_eq_some_iff.mpr ⟨first, hfirst, hsource'⟩⟩

end

/-! ## Tags that are added and removed -/

theorem mem_addMissing_iff {tags : List String} {list : List Json} {tag : Json} :
    tag ∈ addMissing tags list ↔ tag ∈ list ∨ ∃ t ∈ tags, tag = .string t := by
  induction tags generalizing list with
  | nil => simp [addMissing]
  | cons t tags ih =>
      have hcons : addMissing (t :: tags) list = addMissing tags (addMissing [t] list) := rfl
      rw [hcons, ih, mem_addMissing]
      simp only [List.mem_cons, exists_eq_or_imp, or_assoc]

end EveBox.Elastic
