import EveBox.Eve.Filters

/-!
# What the filters need of an event

Reference: `src/eve/filters.rs`.

Only an object or null has room for what the first filter adds. From there on it is the place of the agent alone that a
filter can fail at.

* `runFilters_eq_some_iff` — when the filters let an event through.
-/

namespace EveBox.Eve

open Rust

/-! ## Fields that are kept -/

/-- An event as the first filter leaves it. -/
structure Ready (event : Json) : Prop where
  isObject : event.isObject = true
  evebox : (event.get "evebox").isObject = true

/-- There is room for the agent: its place is free or an object, or what is around it is put in anew. -/
def HasRoom (event : Json) : Prop :=
  (event.get "evebox").isObject = false ∨ (event.get "evebox").get "agent" = .null ∨
    ((event.get "evebox").get "agent").isObject = true

instance (event : Json) : Decidable (HasRoom event) := by
  unfold HasRoom
  infer_instance

/-- What the filters after the first do not touch. -/
structure Keeps (event event' : Json) : Prop where
  ready : Ready event'
  agent : (event'.get "evebox").get "agent" = (event.get "evebox").get "agent"
  timestamp : event'.get "timestamp" = event.get "timestamp"

theorem Ready.keeps {event : Json} (h : Ready event) : Keeps event event := ⟨h, rfl, rfl⟩

theorem Keeps.trans {e₁ e₂ e₃ : Json} (h : Keeps e₁ e₂) (h' : Keeps e₂ e₃) : Keeps e₁ e₃ :=
  ⟨h'.ready, h'.agent.trans h.agent, h'.timestamp.trans h.timestamp⟩

theorem Keeps.hasRoom_iff {event event' : Json} (hready : Ready event) (h : Keeps event event') :
    HasRoom event' ↔ HasRoom event := by
  unfold HasRoom
  rw [h.agent, hready.evebox, h.ready.evebox]

/-- Another field is set. -/
theorem keeps_setPath {event value inner : Json} {key : String} {keys : List String} (h : Ready event)
    (hevebox : "evebox" ≠ key) (htimestamp : "timestamp" ≠ key) (hinner : (event.get key).setPath keys value = some inner) :
    ∃ event', event.setPath (key :: keys) value = some event' ∧ Keeps event event' := by
  obtain ⟨event', hset⟩ := Json.exists_setPath (.inr h.isObject) hinner
  have hget := Json.get_setPath_ne hset hevebox
  refine ⟨event', hset, ⟨Json.isObject_setPath hset, ?_⟩, ?_, Json.get_setPath_ne hset htimestamp⟩
  · rw [hget]
    exact h.evebox
  · rw [hget]

/-- The history is set. -/
theorem keeps_setHistory {event : Json} (h : Ready event) (value : Json) :
    ∃ event', event.setPath ["evebox", "history"] value = some event' ∧ Keeps event event' := by
  obtain ⟨inner, hinner⟩ : ∃ inner, (event.get "evebox").set "history" value = some inner :=
    Json.exists_set_of_isObject h.evebox
  obtain ⟨event', hset⟩ := Json.exists_setPath (.inr h.isObject) hinner
  have hself := Json.get_setPath_self hset
  refine ⟨event', hset, ⟨Json.isObject_setPath hset, Json.isObject_setPath hself⟩, ?_, ?_⟩
  · exact Json.get_setPath_ne hself (by decide)
  · exact Json.get_setPath_ne hset (by decide)

/-! ## The functions of the filters -/

theorem keeps_ensureHasTags {event : Json} (h : Ready event) : ∃ event' tags,
    ensureHasTags event = some event' ∧ Keeps event event' ∧ event'.get "tags" = .array tags ∧
      event'.get "evebox" = event.get "evebox" := by
  unfold ensureHasTags
  cases htags : (event.get "tags").asArray with
  | none =>
      obtain ⟨event', hset, hkeeps⟩ : ∃ event', event.set "tags" (.array []) = some event' ∧ Keeps event event' :=
        keeps_setPath h (by decide) (by decide) rfl
      exact ⟨event', [], hset, hkeeps, Json.get_set_self hset, Json.get_setPath_ne hset (by decide)⟩
  | some tags =>
      refine ⟨event, tags, rfl, h.keeps, ?_, rfl⟩
      cases hget : event.get "tags" with
      | array elems =>
          rw [hget] at htags
          rw [Option.some.inj htags]
      | _ =>
          rw [hget] at htags
          exact nomatch htags

theorem ensureHasEvebox_of_ready {event : Json} (h : Ready event) : ensureHasEvebox event = some event := by
  unfold ensureHasEvebox
  rw [h.evebox]
  rfl

theorem keeps_ensureHasHistory {event : Json} (h : Ready event) : ∃ event' history,
    ensureHasHistory event = some event' ∧ Keeps event event' ∧ (event'.get "evebox").get "history" = .array history ∧
      event'.get "tags" = event.get "tags" := by
  unfold ensureHasHistory
  rw [ensureHasEvebox_of_ready h]
  simp only [Option.bind_eq_bind, Option.bind_some]
  cases hhistory : ((event.get "evebox").get "history").asArray with
  | none =>
      obtain ⟨event', hset, hkeeps⟩ := keeps_setHistory h (.array [])
      exact ⟨event', [], hset, hkeeps, Json.getPath_setPath hset, Json.get_setPath_ne hset (by decide)⟩
  | some history =>
      refine ⟨event, history, rfl, h.keeps, ?_, rfl⟩
      cases hget : (event.get "evebox").get "history" with
      | array elems =>
          rw [hget] at hhistory
          rw [Option.some.inj hhistory]
      | _ =>
          rw [hget] at hhistory
          exact nomatch hhistory

/-- Marking an event never fails where there is an object for it. -/
theorem keeps_markAutoArchived (entry : String → Json) {event : Json} (h : Ready event) (cause : String) :
    ∃ event', markAutoArchived entry event cause = some event' ∧ Keeps event event' := by
  obtain ⟨e₁, tags, htags, hkeeps₁, hget₁, -⟩ := keeps_ensureHasTags h
  obtain ⟨e₂, history, hhistory, hkeeps₂, hget₂, htags₂⟩ := keeps_ensureHasHistory hkeeps₁.ready
  obtain ⟨e₃, hset₃, hkeeps₃⟩ : ∃ e₃, e₂.set "tags" (.array (tags ++ [Json.string "evebox.archived",
      Json.string "evebox.auto-archived"])) = some e₃ ∧ Keeps e₂ e₃ :=
    keeps_setPath hkeeps₂.ready (by decide) (by decide) rfl
  obtain ⟨e₄, hset₄, hkeeps₄⟩ := keeps_setHistory hkeeps₃.ready (.array (history ++ [entry cause]))
  have hevebox₃ : e₃.get "evebox" = e₂.get "evebox" := Json.get_setPath_ne hset₃ (by decide)
  have hhistory₃ : (e₃.getPath ["evebox", "history"]).asArray = some history := by
    show ((e₃.get "evebox").get "history").asArray = some history
    rw [hevebox₃, hget₂]
    rfl
  have htags₂' : (e₂.get "tags").asArray = some tags := by
    rw [htags₂, hget₁]
    rfl
  refine ⟨e₄, ?_, ((hkeeps₁.trans hkeeps₂).trans hkeeps₃).trans hkeeps₄⟩
  unfold markAutoArchived
  simp only [htags, ensureHasEvebox_of_ready hkeeps₁.ready, hhistory, htags₂', hset₃, hhistory₃, hset₄,
    Option.bind_eq_bind, Option.bind_some]

theorem keeps_addCity (lookup : String → Option Json) {event : Json} (h : Ready event) {field target : String}
    (hevebox : "evebox" ≠ target) (htimestamp : "timestamp" ≠ target) :
    ∃ event', addCity lookup field target event = some event' ∧ Keeps event event' := by
  unfold addCity
  cases (event.get field).asStr.bind lookup with
  | none => exact ⟨event, rfl, h.keeps⟩
  | some city => exact keeps_setPath h hevebox htimestamp rfl

theorem keeps_addGeoIpToEve (lookup : String → Option Json) {event : Json} (h : Ready event) :
    ∃ event', addGeoIpToEve lookup event = some event' ∧ Keeps event event' := by
  obtain ⟨e₁, he₁, hkeeps₁⟩ : ∃ e₁, addCity lookup "dest_ip" "geoip_destination" event = some e₁ ∧ Keeps event e₁ :=
    keeps_addCity lookup h (by decide) (by decide)
  obtain ⟨e₂, he₂, hkeeps₂⟩ : ∃ e₂, addCity lookup "src_ip" "geoip_source" e₁ = some e₂ ∧ Keeps e₁ e₂ :=
    keeps_addCity lookup hkeeps₁.ready (by decide) (by decide)
  refine ⟨e₂, ?_, hkeeps₁.trans hkeeps₂⟩
  rw [addGeoIpToEve, he₁]
  exact he₂

/-- A rule is only looked up for an alert that is an object. -/
theorem keeps_addRule (findBySid : ℕ → Option String) {event : Json} (h : Ready event) :
    ∃ event', addRule findBySid event = some event' ∧ Keeps event event' := by
  unfold addRule
  split_ifs
  · exact ⟨event, rfl, h.keeps⟩
  · cases hrule : (event.getPath ["alert", "signature_id"]).asU64.bind findBySid with
    | none => exact ⟨event, rfl, h.keeps⟩
    | some rule =>
        have halert : (event.get "alert").isObject = true := by
          obtain ⟨sid, hsid, -⟩ := Option.bind_eq_some_iff.mp hrule
          have hsome : (event.get "alert").get "signature_id" ≠ .null := by
            intro hnull
            have hpath : event.getPath ["alert", "signature_id"] = .null := hnull
            rw [hpath] at hsid
            exact nomatch hsid
          exact Json.isObject_of_get_ne hsome
        obtain ⟨inner, hinner⟩ : ∃ inner, (event.get "alert").set "rule" (.string rule) = some inner :=
          Json.exists_set_of_isObject halert
        exact keeps_setPath h (by decide) (by decide) hinner

theorem keeps_alertMetadataEveBoxAction (entry : String → Json) {event : Json} (h : Ready event) :
    ∃ event', alertMetadataEveBoxAction entry event = some event' ∧ Keeps event event' := by
  unfold alertMetadataEveBoxAction
  split_ifs
  · exact ⟨event, rfl, h.keeps⟩
  · cases (event.getPath ["alert", "metadata", "evebox-action"]).asArray with
    | none => exact ⟨event, rfl, h.keeps⟩
    | some action =>
        dsimp only
        split_ifs
        · exact keeps_markAutoArchived entry h "metadata"
        · exact ⟨event, rfl, h.keeps⟩

theorem keeps_autoArchive (entry : String → Json) (isMatch : Json → Bool) {event : Json} (h : Ready event) :
    ∃ event', autoArchive entry isMatch event = some event' ∧ Keeps event event' := by
  unfold autoArchive
  split_ifs
  · exact ⟨event, rfl, h.keeps⟩
  · exact keeps_markAutoArchived entry h "filter"
  · exact ⟨event, rfl, h.keeps⟩

/-- The first filter, over what is left of it. -/
theorem keeps_ensure {event : Json} (h : Ready event) : ∃ event', ensure event = some event' ∧ Keeps event event' := by
  obtain ⟨e₁, history, he₁, hkeeps₁, -, -⟩ := keeps_ensureHasHistory h
  obtain ⟨e₂, tags, he₂, hkeeps₂, -, -⟩ := keeps_ensureHasTags hkeeps₁.ready
  refine ⟨e₂, ?_, hkeeps₁.trans hkeeps₂⟩
  rw [ensure, he₁]
  simp only [Option.bind_eq_bind, Option.bind_some, he₂]
  exact ensureHasEvebox_of_ready hkeeps₂.ready

/-! ## The place of the agent -/

/-- The agent is put into an event if and only if there is room for it. -/
theorem addAgent_iff {event : Json} (h : Ready event) (key value : String) :
    (∃ event', addAgent key value event = some event') ↔ HasRoom event := by
  unfold addAgent HasRoom
  rw [h.evebox]
  constructor
  · rintro ⟨event', hset⟩
    have hagent := Json.get_setPath_self (Json.get_setPath_self hset)
    right
    cases hget : (event.get "evebox").get "agent" with
    | null => exact .inl rfl
    | object fields => exact .inr rfl
    | _ =>
        rw [hget] at hagent
        exact nomatch hagent
  · rintro (hevebox | hagent)
    · exact nomatch hevebox
    · obtain ⟨inner, hinner⟩ : ∃ inner, ((event.get "evebox").get "agent").setPath [key] (.string value) = some inner :=
        Json.exists_setPath hagent rfl
      obtain ⟨evebox, hevebox⟩ := Json.exists_setPath (.inr h.evebox) hinner
      exact Json.exists_setPath (.inr h.isObject) hevebox

/-- The event with an agent. -/
theorem addAgent_some {event event' : Json} {key value : String} (h : addAgent key value event = some event') :
    Ready event' ∧ HasRoom event' ∧ event'.get "timestamp" = event.get "timestamp" := by
  have hevebox := Json.get_setPath_self h
  have hagent := Json.get_setPath_self hevebox
  exact ⟨⟨Json.isObject_setPath h, Json.isObject_setPath hevebox⟩, .inr (.inr (Json.isObject_setPath hagent)),
    Json.get_setPath_ne h (by decide)⟩

/-! ## Chains of filters -/

namespace EveFilter

/-- The filter puts something of the agent into an event. -/
def addsAgent : EveFilter → Bool
  | addAgentFilename _ | addAgentHostname _ | addAgentId _ => true
  | _ => false

/-- The timestamp behind the filter. -/
def stamp : EveFilter → Json → Json
  | addField field value, timestamp => if field = "timestamp" then value else timestamp
  | _, timestamp => timestamp

end EveFilter

/-- The timestamp behind some filters. -/
def stampAfter (filters : List EveFilter) (timestamp : Json) : Json :=
  filters.foldl (fun timestamp filter => filter.stamp timestamp) timestamp

/-- No field that is added takes the place of what the first filter adds. -/
def LeavesEvebox (filters : List EveFilter) : Prop := ∀ value, EveFilter.addField "evebox" value ∉ filters

theorem LeavesEvebox.of_cons {filter : EveFilter} {filters : List EveFilter} (h : LeavesEvebox (filter :: filters)) :
    (∀ value, filter ≠ .addField "evebox" value) ∧ LeavesEvebox filters :=
  ⟨fun value heq => h value (heq ▸ List.mem_cons_self), fun value hmem => h value (List.mem_cons_of_mem _ hmem)⟩

section

variable (entry : String → Json) {event : Json}

/-- One filter, where there is room for what it adds. -/
theorem run_ready {filter : EveFilter} (h : Ready event) (hfilter : ∀ value, filter ≠ .addField "evebox" value)
    (hroom : filter.addsAgent = true → HasRoom event) : ∃ event', filter.run entry event = some event' ∧ Ready event' ∧
      (HasRoom event' ↔ HasRoom event) ∧ event'.get "timestamp" = filter.stamp (event.get "timestamp") := by
  have hkeeps {f : Json → Option Json} (hf : ∃ event', f event = some event' ∧ Keeps event event') : ∃ event',
      f event = some event' ∧ Ready event' ∧ (HasRoom event' ↔ HasRoom event) ∧
        event'.get "timestamp" = event.get "timestamp" := by
    obtain ⟨event', hsome, hkeeps⟩ := hf
    exact ⟨event', hsome, hkeeps.ready, hkeeps.hasRoom_iff h, hkeeps.timestamp⟩
  have hagent (key value : String) (hroom : HasRoom event) : ∃ event', addAgent key value event = some event' ∧
      Ready event' ∧ (HasRoom event' ↔ HasRoom event) ∧ event'.get "timestamp" = event.get "timestamp" := by
    obtain ⟨event', hsome⟩ := (addAgent_iff h key value).mpr hroom
    obtain ⟨hready, hroom', htimestamp⟩ := addAgent_some hsome
    exact ⟨event', hsome, hready, iff_of_true hroom' hroom, htimestamp⟩
  cases filter with
  | ensure => exact hkeeps (keeps_ensure h)
  | alertMetadataEveBoxAction => exact hkeeps (keeps_alertMetadataEveBoxAction entry h)
  | geoIp lookup => exact hkeeps (keeps_addGeoIpToEve lookup h)
  | addAgentFilename filename => exact hagent "filename" filename (hroom rfl)
  | addAgentHostname hostname => exact hagent "hostname" hostname (hroom rfl)
  | addAgentId agentId => exact hagent "id" agentId (hroom rfl)
  | addField field value =>
      have hevebox : "evebox" ≠ field := fun heq => hfilter value (by rw [heq])
      obtain ⟨event', hset⟩ : ∃ event', event.set field value = some event' := Json.exists_set_of_isObject h.isObject
      have hget : event'.get "evebox" = event.get "evebox" := Json.get_setPath_ne hset hevebox
      refine ⟨event', hset, ⟨Json.isObject_setPath hset, by rw [hget]; exact h.evebox⟩, by unfold HasRoom; rw [hget], ?_⟩
      by_cases hfield : field = "timestamp"
      · subst hfield
        exact Json.get_set_self hset
      · rw [EveFilter.stamp, if_neg hfield]
        exact Json.get_setPath_ne hset (Ne.symm hfield)
  | addRule findBySid => exact hkeeps (keeps_addRule findBySid h)
  | autoArchive isMatch => exact hkeeps (keeps_autoArchive entry isMatch h)

theorem run_noRoom {filter : EveFilter} (h : Ready event) (hfilter : filter.addsAgent = true) (hroom : ¬ HasRoom event) :
    filter.run entry event = none := by
  have hagent (key value : String) : addAgent key value event = none := by
    rw [← Option.not_isSome_iff_eq_none, Option.isSome_iff_exists]
    exact fun hsome => hroom ((addAgent_iff h key value).mp hsome)
  cases filter with
  | addAgentFilename filename => exact hagent "filename" filename
  | addAgentHostname hostname => exact hagent "hostname" hostname
  | addAgentId agentId => exact hagent "id" agentId
  | _ => exact nomatch hfilter

/-- A chain lets an event through if there is room for the agent wherever the chain adds one. -/
theorem runFilters_ready : ∀ {filters : List EveFilter} {event : Json}, Ready event → LeavesEvebox filters →
    (filters.any EveFilter.addsAgent = true → HasRoom event) → ∃ event', runFilters entry filters event = some event' ∧
      Ready event' ∧ event'.get "timestamp" = stampAfter filters (event.get "timestamp")
  | [], event, h, _, _ => ⟨event, rfl, h, rfl⟩
  | filter :: filters, event, h, hfields, hroom => by
      obtain ⟨hfilter, hfields⟩ := hfields.of_cons
      obtain ⟨e₁, he₁, hready₁, hroom₁, htimestamp₁⟩ := run_ready entry h hfilter fun hadds => hroom (by simp [hadds])
      obtain ⟨e₂, he₂, hready₂, htimestamp₂⟩ := runFilters_ready hready₁ hfields fun hany =>
        hroom₁.mpr (hroom (by simp [hany]))
      refine ⟨e₂, ?_, hready₂, by rw [htimestamp₂, htimestamp₁]; rfl⟩
      rw [runFilters, List.foldlM_cons, he₁]
      exact he₂

theorem runFilters_noRoom : ∀ {filters : List EveFilter} {event : Json}, Ready event → LeavesEvebox filters →
    filters.any EveFilter.addsAgent = true → ¬ HasRoom event → runFilters entry filters event = none
  | filter :: filters, event, h, hfields, hany, hroom => by
      obtain ⟨hfilter, hfields⟩ := hfields.of_cons
      rw [runFilters, List.foldlM_cons]
      cases hadds : filter.addsAgent with
      | true =>
          rw [run_noRoom entry h hadds hroom]
          rfl
      | false =>
          obtain ⟨e₁, he₁, hready₁, hroom₁, -⟩ := run_ready entry h hfilter fun htrue => nomatch hadds.symm.trans htrue
          rw [he₁]
          rw [List.any_cons, hadds, Bool.false_or] at hany
          exact runFilters_noRoom hready₁ hfields hany fun hroom' => hroom (hroom₁.mp hroom')

omit entry in
/-- The place of what EveBox adds. -/
theorem ensureHasEvebox_ready (h : event = .null ∨ event.isObject = true) : ∃ event', ensureHasEvebox event = some event' ∧
    Ready event' ∧ (HasRoom event' ↔ HasRoom event) ∧ event'.get "timestamp" = event.get "timestamp" := by
  unfold ensureHasEvebox
  cases hevebox : (event.get "evebox").isObject with
  | true =>
      have hobject : event.isObject = true := by
        rcases h with rfl | h
        · exact nomatch hevebox
        · exact h
      exact ⟨event, rfl, ⟨hobject, hevebox⟩, Iff.rfl, rfl⟩
  | false =>
      obtain ⟨event', hset⟩ : ∃ event', event.set "evebox" (.object []) = some event' := Json.exists_setPath h rfl
      have hself := Json.get_set_self hset
      refine ⟨event', hset, ⟨Json.isObject_setPath hset, by rw [hself]; rfl⟩, ?_, Json.get_setPath_ne hset (by decide)⟩
      refine iff_of_true (.inr (.inl ?_)) (.inl hevebox)
      rw [hself]
      rfl

omit entry in
/-- What the first filter makes of an event. -/
theorem ensure_ready (h : event = .null ∨ event.isObject = true) : ∃ event', ensure event = some event' ∧ Ready event' ∧
    (HasRoom event' ↔ HasRoom event) ∧ event'.get "timestamp" = event.get "timestamp" := by
  obtain ⟨e₁, he₁, hready₁, hroom₁, htimestamp₁⟩ := ensureHasEvebox_ready h
  obtain ⟨e₂, he₂, hkeeps₂⟩ := keeps_ensure hready₁
  refine ⟨e₂, ?_, hkeeps₂.ready, (hkeeps₂.hasRoom_iff hready₁).trans hroom₁, hkeeps₂.timestamp.trans htimestamp₁⟩
  rw [← he₂, ensure, ensure, ensureHasHistory, ensureHasHistory, he₁, ensureHasEvebox_of_ready hready₁]

omit entry in
theorem ensure_none (h : ¬ (event = .null ∨ event.isObject = true)) : ensure event = none := by
  cases event with
  | null => exact absurd (.inl rfl) h
  | object fields => exact absurd (.inr rfl) h
  | _ => rfl

theorem runFilters_withDefaults {more : List EveFilter} {event' : Json} (h : ensure event = some event') :
    runFilters entry (withDefaults more) event = runFilters entry (.alertMetadataEveBoxAction :: more) event' := by
  have hrun : EveFilter.ensure.run entry event = some event' := h
  rw [runFilters, withDefaults, List.foldlM_cons, hrun]
  rfl

/-- What the default chain, with more filters, makes of an event. -/
theorem runFilters_withDefaults_ready {more : List EveFilter} (hfields : LeavesEvebox more)
    (h : event = .null ∨ event.isObject = true) (hroom : more.any EveFilter.addsAgent = true → HasRoom event) :
    ∃ event', runFilters entry (withDefaults more) event = some event' ∧ Ready event' ∧
      event'.get "timestamp" = stampAfter more (event.get "timestamp") := by
  obtain ⟨e₁, he₁, hready₁, hroom₁, htimestamp₁⟩ := ensure_ready h
  have hmore : LeavesEvebox (.alertMetadataEveBoxAction :: more) := fun value hmem =>
    hfields value ((List.mem_cons.mp hmem).resolve_left nofun)
  obtain ⟨e₂, he₂, hready₂, htimestamp₂⟩ := runFilters_ready entry hready₁ hmore fun hany => hroom₁.mpr (hroom hany)
  exact ⟨e₂, (runFilters_withDefaults entry he₁).trans he₂, hready₂, by rw [htimestamp₂, htimestamp₁]; rfl⟩

/-- The default chain, with more filters, lets an event through if and only if it is null or an object, and has room for
the agent if one is added. -/
theorem runFilters_eq_some_iff {more : List EveFilter} (hfields : LeavesEvebox more) :
    (∃ event', runFilters entry (withDefaults more) event = some event') ↔
      (event = .null ∨ event.isObject = true) ∧ (more.any EveFilter.addsAgent = true → HasRoom event) := by
  constructor
  · rintro ⟨event', hsome⟩
    have hshape : event = .null ∨ event.isObject = true := by
      by_contra hshape
      rw [runFilters, withDefaults, List.foldlM_cons] at hsome
      have hnone : EveFilter.ensure.run entry event = none := ensure_none hshape
      rw [hnone] at hsome
      exact nomatch hsome
    refine ⟨hshape, fun hany => ?_⟩
    by_contra hroom
    obtain ⟨e₁, he₁, hready₁, hroom₁, -⟩ := ensure_ready hshape
    have hmore : LeavesEvebox (.alertMetadataEveBoxAction :: more) := fun value hmem =>
      hfields value ((List.mem_cons.mp hmem).resolve_left nofun)
    have hnone := runFilters_noRoom entry hready₁ hmore hany fun hroom' => hroom (hroom₁.mp hroom')
    rw [runFilters_withDefaults entry he₁, hnone] at hsome
    exact nomatch hsome
  · rintro ⟨hshape, hroom⟩
    obtain ⟨event', hsome, -, -⟩ := runFilters_withDefaults_ready entry hfields hshape hroom
    exact ⟨event', hsome⟩

end

end EveBox.Eve
