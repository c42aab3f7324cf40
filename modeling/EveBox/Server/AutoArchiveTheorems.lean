import EveBox.Server.AutoArchive

/-!
# Auto-archive filters in memory and in the table

Reference: `src/server/autoarchive.rs`, and `add_filter` and `delete_filter` of `src/server/api/admin.rs`.

While requests are under way the two sets differ by the filters that a request has written to the table and not
yet to memory. `Synced` says so of a state; it is kept by every step but the two updates of memory, and by these
where they find in the table what they expect there.
-/

namespace EveBox.Server

open Transition

/-! ## Filters -/

theorem AutoArchive.mem_add {a : AutoArchive} {f g : EventFilter} :
    f ∈ (a.add g).filters ↔ f ∈ a.filters ∨ f = g ∧ g.conditions ≠ [] := by
  unfold add
  by_cases h : g.conditions ≠ [] ∧ g ∉ a.filters
  · rw [if_pos h, List.mem_append, List.mem_singleton]
    exact or_congr_right ⟨fun heq => ⟨heq, h.1⟩, And.left⟩
  · rw [if_neg h]
    refine ⟨.inl, fun hmem => ?_⟩
    rcases hmem with hmem | ⟨rfl, hload⟩
    · exact hmem
    · by_contra hnot
      exact h ⟨hload, hnot⟩

theorem AutoArchive.mem_remove {a : AutoArchive} {f g : EventFilter} :
    f ∈ (a.remove g).filters ↔ f ∈ a.filters ∧ f ≠ g := by
  rw [remove, List.mem_filter, decide_eq_true_iff]

/-- What is loaded of a table: its filters that have conditions. -/
theorem FiltersTable.mem_load {t : FiltersTable} {f : EventFilter} :
    f ∈ t.load.filters ↔ f.conditions ≠ [] ∧ ∃ row ∈ t.rows, row.filter = f := by
  have hfold : ∀ (rows : List FilterRow) (a : AutoArchive),
      f ∈ (rows.foldl (fun a row => a.add row.filter) a).filters ↔
        f ∈ a.filters ∨ f.conditions ≠ [] ∧ ∃ row ∈ rows, row.filter = f := by
    intro rows
    induction rows with
    | nil => simp
    | cons row rows ih =>
      intro a
      rw [List.foldl_cons, ih, AutoArchive.mem_add, or_assoc]
      apply or_congr_right
      constructor
      · rintro (⟨rfl, hload⟩ | ⟨hload, row', hrow', rfl⟩)
        · exact ⟨hload, row, List.mem_cons_self, rfl⟩
        · exact ⟨hload, row', List.mem_cons_of_mem row hrow', rfl⟩
      · rintro ⟨hload, row', hrow', rfl⟩
        rcases List.mem_cons.1 hrow' with rfl | hrow'
        · exact .inl ⟨rfl, hload⟩
        · exact .inr ⟨hload, row', hrow', rfl⟩
  rw [load, hfold]
  exact or_iff_right List.not_mem_nil

/-- The number of a row is its own. -/
theorem FiltersTable.eq_of_id {t : FiltersTable} {row row' : FilterRow} (h : row ∈ t.rows) (h' : row' ∈ t.rows)
    (hid : row.id = row'.id) : row = row' :=
  List.inj_on_of_nodup_map t.nodup h h' hid

theorem FiltersTable.select_eq_some {t : FiltersTable} {id : ℕ} {row : FilterRow} (h : t.select id = some row) :
    row ∈ t.rows ∧ row.id = id := by
  unfold select at h
  exact ⟨List.mem_of_find?_eq_some h, by simpa using List.find?_some h⟩

/-! ## Requests under way -/

/-- A row with this filter has been committed, and memory comes next. -/
def Request.isAdding (f : EventFilter) : Request → Bool
  | add g _ .committed => g = f
  | _ => false

/-- The filter is about to be removed from memory. -/
def Request.isRemoving (f : EventFilter) : Request → Bool
  | delete _ (.removing row) => row.filter = f
  | _ => false

namespace Admin

def Stored (s : Admin) (f : EventFilter) : Prop := ∃ row ∈ s.table.rows, row.filter = f

def Adding (s : Admin) (f : EventFilter) : Prop := ∃ r ∈ s.requests, r.isAdding f = true

def Removing (s : Admin) (f : EventFilter) : Prop := ∃ r ∈ s.requests, r.isRemoving f = true

instance (s : Admin) (f : EventFilter) : Decidable (s.Stored f) := inferInstanceAs (Decidable (∃ row ∈ _, _))

instance (s : Admin) (f : EventFilter) : Decidable (s.Adding f) := inferInstanceAs (Decidable (∃ r ∈ _, _))

instance (s : Admin) (f : EventFilter) : Decidable (s.Removing f) := inferInstanceAs (Decidable (∃ r ∈ _, _))

/-- An update of memory is in step with the table: what is added is stored there, and what is removed is not,
unless a request that is about to update memory as well puts it right. -/
def InStep (s : Admin) : AdminOp → Prop
  | .turn i true =>
      match s.requests[i]? with
      | some (.add f _ .committed) => f.conditions = [] ∨ s.Stored f ∨ s.Removing f
      | some (.delete _ (.removing row)) =>
          row.filter.conditions = [] ∨ ¬ s.Stored row.filter ∨ s.Adding row.filter
      | _ => True
  | _ => True

/-- Memory and the table differ by what the requests under way are about to update. -/
structure Synced (s : Admin) : Prop where
  loadable : ∀ f ∈ s.live.filters, f.conditions ≠ []
  stored : ∀ f ∈ s.live.filters, s.Stored f ∨ s.Removing f
  live : ∀ f, f.conditions ≠ [] → s.Stored f → f ∈ s.live.filters ∨ s.Adding f

/-! ## Isolation -/

/-- What a transaction under way relies on. -/
def Held (table : FiltersTable) (version : ℕ) (writer : Option ℕ) (i : ℕ) : Request → Prop
  | .add _ _ .inserted => writer = some i
  | .delete id (.selected v row) => v ≤ version ∧ (v = version → row ∈ table.rows ∧ row.id = id)
  | .delete id (.deleted row) => writer = some i ∧ row ∈ table.rows ∧ row.id = id
  | _ => True

/-- Every transaction under way has what it relies on. -/
def Isolated (s : Admin) : Prop := ∀ i r, s.requests[i]? = some r → Held s.table s.version s.writer i r

/-- A request that does not write is not disturbed by the others. -/
theorem Held.other {table table' : FiltersTable} {version version' : ℕ} {writer writer' : Option ℕ} {j : ℕ}
    {r : Request} (h : Held table version writer j r) (hwriter : writer ≠ some j)
    (hcommit : version' = version ∧ table' = table ∨ version' = version + 1) :
    Held table' version' writer' j r := by
  rcases r with ⟨f, c, phase⟩ | ⟨id, phase⟩
  · rcases phase with _ | _ | _ | _ | _ | _
    · trivial
    · trivial
    · trivial
    · exact absurd h hwriter
    · trivial
    · trivial
  · rcases phase with _ | _ | ⟨v, row⟩ | row | row | _
    · trivial
    · trivial
    · obtain ⟨hle, hcurrent⟩ := h
      rcases hcommit with ⟨rfl, rfl⟩ | rfl
      · exact ⟨hle, hcurrent⟩
      · exact ⟨Nat.le_succ_of_le hle, fun heq => absurd heq (by omega)⟩
    · exact absurd h.1 hwriter
    · trivial
    · trivial

/-- One request comes to its next phase, and the others are not disturbed. -/
theorem Isolated.set {s s' : Admin} {i : ℕ} {r' : Request} (h : s.Isolated)
    (hrequests : s'.requests = s.requests.set i r') (hself : Held s'.table s'.version s'.writer i r')
    (hothers : ∀ j ≠ i, ∀ r, Held s.table s.version s.writer j r → Held s'.table s'.version s'.writer j r) :
    s'.Isolated := by
  intro j r hj
  rw [hrequests] at hj
  by_cases hij : i = j
  · subst hij
    have hlt : i < s.requests.length := by
      have hlt := (List.getElem?_eq_some_iff.1 hj).1
      rwa [List.length_set] at hlt
    rw [List.getElem?_set_self hlt] at hj
    obtain rfl := Option.some.inj hj
    exact hself
  · rw [List.getElem?_set_ne hij] at hj
    exact hothers j (Ne.symm hij) r (h j r hj)

/-! ## Steps -/

variable {s s' : Admin} {i : ℕ} {r r' : Request} {f : EventFilter}

/-- A request that is not about to update memory can be replaced without a loss. -/
theorem exists_set {P : Request → Prop} (hi : s.requests[i]? = some r) (hr : ¬ P r)
    (h : ∃ r ∈ s.requests, P r) : ∃ r ∈ s.requests.set i r', P r := by
  obtain ⟨r₀, hmem, hP⟩ := h
  obtain ⟨j, hj⟩ := List.mem_iff_getElem?.1 hmem
  have hij : i ≠ j := by
    rintro rfl
    rw [hi] at hj
    exact hr (Option.some.inj hj ▸ hP)
  refine ⟨r₀, List.mem_iff_getElem?.2 ⟨j, ?_⟩, hP⟩
  rw [List.getElem?_set_ne hij]
  exact hj

/-- A request that updates nothing comes to its next phase. -/
theorem Synced.move (h : s.Synced) (hi : s.requests[i]? = some r) (hadding : ∀ f, ¬ r.isAdding f = true)
    (hremoving : ∀ f, ¬ r.isRemoving f = true) (hrequests : s'.requests = s.requests.set i r')
    (htable : s'.table = s.table) (hlive : s'.live = s.live) : s'.Synced := by
  have hkeeps : ∀ f, s.Removing f → s'.Removing f := by
    intro f hf
    unfold Removing
    rw [hrequests]
    exact exists_set hi (hremoving f) hf
  have hkeepsAdding : ∀ f, s.Adding f → s'.Adding f := by
    intro f hf
    unfold Adding
    rw [hrequests]
    exact exists_set hi (hadding f) hf
  have hstored : ∀ f, s'.Stored f ↔ s.Stored f := by
    intro f
    unfold Stored
    rw [htable]
  refine ⟨fun f hf => ?_, fun f hf => ?_, fun f hload hf => ?_⟩
  · rw [hlive] at hf
    exact h.loadable f hf
  · rw [hlive] at hf
    rcases h.stored f hf with hs | hr
    · exact .inl ((hstored f).2 hs)
    · exact .inr (hkeeps f hr)
  · rw [hlive]
    rcases h.live f hload ((hstored f).1 hf) with hl | ha
    · exact .inl hl
    · exact .inr (hkeepsAdding f ha)

/-- A new row is committed, and its filter comes into memory next. -/
theorem Synced.insert (h : s.Synced) {g : EventFilter} {comment : Option String}
    (hi : s.requests[i]? = some (.add g comment .inserted)) :
    Synced { s.move i (.add g comment .committed) with
      table := s.table.insert g comment, version := s.version + 1, writer := none } := by
  have hlt : i < s.requests.length := (List.getElem?_eq_some_iff.1 hi).1
  refine ⟨h.loadable, fun f hf => ?_, fun f hload hf => ?_⟩
  · rcases h.stored f hf with ⟨row, hrow, heq⟩ | hr
    · exact .inl ⟨row, List.mem_append_left _ hrow, heq⟩
    · exact .inr (exists_set hi Bool.false_ne_true hr)
  · obtain ⟨row, hrow, rfl⟩ := hf
    rcases List.mem_append.1 hrow with hrow | hrow
    · rcases h.live row.filter hload ⟨row, hrow, rfl⟩ with hl | ha
      · exact .inl hl
      · exact .inr (exists_set hi Bool.false_ne_true ha)
    · rw [List.mem_singleton.1 hrow]
      exact .inr ⟨_, List.mem_set hlt _, decide_eq_true rfl⟩

/-- A row is gone, and its filter leaves memory next. -/
theorem Synced.delete (h : s.Synced) {id : ℕ} {row : FilterRow}
    (hi : s.requests[i]? = some (.delete id (.deleted row))) (hrow : row ∈ s.table.rows) (hid : row.id = id) :
    Synced { s.move i (.delete id (.removing row)) with
      table := s.table.delete id, version := s.version + 1, writer := none } := by
  have hlt : i < s.requests.length := (List.getElem?_eq_some_iff.1 hi).1
  refine ⟨h.loadable, fun f hf => ?_, fun f hload hf => ?_⟩
  · rcases h.stored f hf with ⟨row', hrow', heq⟩ | hr
    · by_cases hsame : row'.id = id
      · obtain rfl := FiltersTable.eq_of_id hrow hrow' (hid.trans hsame.symm)
        exact .inr ⟨_, List.mem_set hlt _, decide_eq_true heq⟩
      · exact .inl ⟨row', List.mem_filter.2 ⟨hrow', decide_eq_true hsame⟩, heq⟩
    · exact .inr (exists_set hi Bool.false_ne_true hr)
  · obtain ⟨row', hrow', heq⟩ := hf
    rcases h.live f hload ⟨row', List.mem_of_mem_filter hrow', heq⟩ with hl | ha
    · exact .inl hl
    · exact .inr (exists_set hi Bool.false_ne_true ha)

/-- A filter comes into memory. -/
theorem Synced.add (h : s.Synced) {g : EventFilter} {comment : Option String}
    (hi : s.requests[i]? = some (.add g comment .committed))
    (hstep : g.conditions = [] ∨ s.Stored g ∨ s.Removing g) :
    Synced { s.move i (.add g comment .finished) with live := s.live.add g } := by
  have hremoving : ∀ f, s.Removing f → ∃ r ∈ s.requests.set i (.add g comment .finished), r.isRemoving f = true :=
    fun f hf => exists_set hi Bool.false_ne_true hf
  refine ⟨fun f hf => ?_, fun f hf => ?_, fun f hload hf => ?_⟩
  · rcases AutoArchive.mem_add.1 hf with hf | ⟨rfl, hload⟩
    · exact h.loadable f hf
    · exact hload
  · rcases AutoArchive.mem_add.1 hf with hf | ⟨rfl, hload⟩
    · exact (h.stored f hf).imp_right (hremoving f)
    · rcases hstep with hempty | hs | hr
      · exact absurd hempty hload
      · exact .inl hs
      · exact .inr (hremoving f hr)
  · by_cases hsame : f = g
    · exact .inl (AutoArchive.mem_add.2 (.inr ⟨hsame, hsame ▸ hload⟩))
    · rcases h.live f hload hf with hl | ha
      · exact .inl (AutoArchive.mem_add.2 (.inl hl))
      · exact .inr (exists_set hi (fun heq => hsame (of_decide_eq_true heq).symm) ha)

/-- A filter leaves memory. -/
theorem Synced.remove (h : s.Synced) {id : ℕ} {row : FilterRow}
    (hi : s.requests[i]? = some (.delete id (.removing row)))
    (hstep : row.filter.conditions = [] ∨ ¬ s.Stored row.filter ∨ s.Adding row.filter) :
    Synced { s.move i (.delete id .finished) with live := s.live.remove row.filter } := by
  refine ⟨fun f hf => ?_, fun f hf => ?_, fun f hload hf => ?_⟩
  · exact h.loadable f (AutoArchive.mem_remove.1 hf).1
  · obtain ⟨hf, hne⟩ := AutoArchive.mem_remove.1 hf
    rcases h.stored f hf with hs | hr
    · exact .inl hs
    · exact .inr (exists_set hi (fun heq => hne (of_decide_eq_true heq).symm) hr)
  · have hadding : s.Adding f → ∃ r ∈ s.requests.set i (.delete id .finished), r.isAdding f = true :=
      exists_set hi Bool.false_ne_true
    by_cases hsame : f = row.filter
    · subst hsame
      rcases hstep with hempty | hnot | ha
      · exact absurd hempty hload
      · exact absurd hf hnot
      · exact .inr (hadding ha)
    · rcases h.live f hload hf with hl | ha
      · exact .inl (AutoArchive.mem_remove.2 ⟨hl, hsame⟩)
      · exact .inr (hadding ha)

/-- A request that arrives changes nothing yet. -/
theorem Synced.arrive (h : s.Synced) (r : Request) : Synced { s with requests := s.requests ++ [r] } := by
  refine ⟨h.loadable, fun f hf => ?_, fun f hload hf => ?_⟩
  · rcases h.stored f hf with hs | ⟨r', hmem, hr'⟩
    · exact .inl hs
    · exact .inr ⟨r', List.mem_append_left _ hmem, hr'⟩
  · rcases h.live f hload hf with hl | ⟨r', hmem, hr'⟩
    · exact .inl hl
    · exact .inr ⟨r', List.mem_append_left _ hmem, hr'⟩

theorem Isolated.arrive (h : s.Isolated) (hr : Held s.table s.version s.writer s.requests.length r) :
    Isolated { s with requests := s.requests ++ [r] } := by
  intro j r' hj
  by_cases hlt : j < s.requests.length
  · rw [List.getElem?_append_left hlt] at hj
    exact h j r' hj
  · rw [List.getElem?_append_right (by omega)] at hj
    have hzero := (List.getElem?_eq_some_iff.1 hj).1
    rw [List.length_singleton] at hzero
    obtain rfl : j = s.requests.length := by omega
    rw [Nat.sub_self, List.getElem?_cons_zero] at hj
    obtain rfl := Option.some.inj hj
    exact hr

/-- A request comes to a phase in which it relies on nothing that the others change. -/
theorem Isolated.move (h : s.Isolated) (hr : Held s.table s.version s.writer i r') : (s.move i r').Isolated :=
  h.set rfl hr fun _ _ _ hheld => hheld

/-- A request takes the lock, or gives it up. -/
theorem Isolated.lock (h : s.Isolated) (hrequests : s'.requests = s.requests.set i r')
    (htable : s'.table = s.table) (hversion : s'.version = s.version)
    (hwriter : s.writer = none ∨ s.writer = some i) (hr : Held s'.table s'.version s'.writer i r') : s'.Isolated := by
  refine h.set hrequests hr fun j hj r hheld => hheld.other ?_ (.inl ⟨hversion, htable⟩)
  rcases hwriter with hnone | hsome
  · rw [hnone]
    exact Option.some_ne_none j |>.symm
  · rw [hsome]
    exact fun heq => hj (Option.some.inj heq).symm

/-- A request commits. -/
theorem Isolated.commit (h : s.Isolated) (hrequests : s'.requests = s.requests.set i r')
    (hversion : s'.version = s.version + 1) (hwriter : s.writer = some i)
    (hr : Held s'.table s'.version s'.writer i r') : s'.Isolated := by
  refine h.set hrequests hr fun j hj r hheld => hheld.other ?_ (.inr hversion)
  rw [hwriter]
  exact fun heq => hj (Option.some.inj heq).symm

theorem addTurn_isolated {comment : Option String} {phase : AddPhase} {ok : Bool} (h : s.Isolated)
    (hi : s.requests[i]? = some (.add f comment phase)) (hstep : s.addTurn i f comment phase ok = some s') :
    s'.Isolated := by
  rcases phase with _ | _ | _ | _ | _ | _
  case arrived =>
    rcases ok with _ | _ <;> obtain rfl := Option.some.inj hstep
    · exact h.move trivial
    · exact h.move trivial
  case begun =>
    rcases ok with _ | _
    · exact nomatch hstep
    · rw [addTurn] at hstep
      split at hstep <;> obtain rfl := Option.some.inj hstep
      · exact h.move trivial
      · exact h.move trivial
  case checked =>
    rcases ok with _ | _
    · obtain rfl := Option.some.inj hstep
      exact h.move trivial
    · rw [addTurn] at hstep
      split at hstep
      · obtain rfl := Option.some.inj hstep
        rename_i hnone
        exact h.lock rfl rfl rfl (.inl hnone) rfl
      · exact nomatch hstep
  case inserted =>
    have hwriter : s.writer = some i := h i _ hi
    rcases ok with _ | _ <;> obtain rfl := Option.some.inj hstep
    · exact h.lock rfl rfl rfl (.inr hwriter) trivial
    · exact h.commit rfl rfl hwriter trivial
  case committed =>
    rcases ok with _ | _
    · exact nomatch hstep
    · obtain rfl := Option.some.inj hstep
      exact h.set rfl trivial fun _ _ _ hheld => hheld
  case finished => rcases ok with _ | _ <;> exact nomatch hstep

theorem deleteTurn_isolated {id : ℕ} {phase : DeletePhase} {ok : Bool} (h : s.Isolated)
    (hi : s.requests[i]? = some (.delete id phase)) (hstep : s.deleteTurn i id phase ok = some s') :
    s'.Isolated := by
  rcases phase with _ | _ | ⟨v, row⟩ | row | row | _
  case arrived =>
    rcases ok with _ | _ <;> obtain rfl := Option.some.inj hstep
    · exact h.move trivial
    · exact h.move trivial
  case begun =>
    rcases ok with _ | _
    · obtain rfl := Option.some.inj hstep
      exact h.move trivial
    · rw [deleteTurn] at hstep
      split at hstep <;> obtain rfl := Option.some.inj hstep
      · rename_i row hrow
        exact h.move ⟨le_refl _, fun _ => FiltersTable.select_eq_some hrow⟩
      · exact h.move trivial
  case selected =>
    rcases ok with _ | _
    · obtain rfl := Option.some.inj hstep
      exact h.move trivial
    · rw [deleteTurn] at hstep
      split at hstep
      · obtain rfl := Option.some.inj hstep
        rename_i hcurrent
        have hheld : v ≤ s.version ∧ (v = s.version → row ∈ s.table.rows ∧ row.id = id) := h i _ hi
        exact h.lock rfl rfl rfl (.inl hcurrent.1) ⟨rfl, hheld.2 hcurrent.2⟩
      · exact nomatch hstep
  case deleted =>
    have hheld : s.writer = some i ∧ row ∈ s.table.rows ∧ row.id = id := h i _ hi
    rcases ok with _ | _ <;> obtain rfl := Option.some.inj hstep
    · exact h.lock rfl rfl rfl (.inr hheld.1) trivial
    · exact h.commit rfl rfl hheld.1 trivial
  case removing =>
    rcases ok with _ | _
    · exact nomatch hstep
    · obtain rfl := Option.some.inj hstep
      exact h.set rfl trivial fun _ _ _ hheld => hheld
  case finished => rcases ok with _ | _ <;> exact nomatch hstep

/-- Every step keeps the transactions apart. -/
theorem Isolated.step {op : AdminOp} (h : s.Isolated) (hstep : s.step op = some s') : s'.Isolated := by
  rcases op with entry | id | ⟨i, ok⟩ | _
  · obtain rfl := Option.some.inj hstep
    exact h.arrive trivial
  · obtain rfl := Option.some.inj hstep
    exact h.arrive trivial
  · rw [Admin.step] at hstep
    split at hstep
    · rename_i hi
      exact addTurn_isolated h hi hstep
    · rename_i hi
      exact deleteTurn_isolated h hi hstep
    · exact nomatch hstep
  · rw [Admin.step] at hstep
    split at hstep
    · obtain rfl := Option.some.inj hstep
      rename_i hnone
      refine fun j r hj => (h j r hj).other ?_ (.inr rfl)
      rw [hnone]
      exact Option.some_ne_none j |>.symm
    · exact nomatch hstep

theorem addTurn_synced {comment : Option String} {phase : AddPhase} {ok : Bool} (h : s.Synced)
    (hi : s.requests[i]? = some (.add f comment phase)) (hok : s.InStep (.turn i ok))
    (hstep : s.addTurn i f comment phase ok = some s') : s'.Synced := by
  have hnever : ∀ g, ¬ (Request.add f comment phase).isRemoving g = true := fun g => Bool.false_ne_true
  rcases phase with _ | _ | _ | _ | _ | _
  case arrived =>
    rcases ok with _ | _ <;> obtain rfl := Option.some.inj hstep
    · exact h.move hi (fun g => Bool.false_ne_true) hnever rfl rfl rfl
    · exact h.move hi (fun g => Bool.false_ne_true) hnever rfl rfl rfl
  case begun =>
    rcases ok with _ | _
    · exact nomatch hstep
    · rw [addTurn] at hstep
      split at hstep <;> obtain rfl := Option.some.inj hstep
      · exact h.move hi (fun g => Bool.false_ne_true) hnever rfl rfl rfl
      · exact h.move hi (fun g => Bool.false_ne_true) hnever rfl rfl rfl
  case checked =>
    rcases ok with _ | _
    · obtain rfl := Option.some.inj hstep
      exact h.move hi (fun g => Bool.false_ne_true) hnever rfl rfl rfl
    · rw [addTurn] at hstep
      split at hstep
      · obtain rfl := Option.some.inj hstep
        exact h.move hi (fun g => Bool.false_ne_true) hnever rfl rfl rfl
      · exact nomatch hstep
  case inserted =>
    rcases ok with _ | _ <;> obtain rfl := Option.some.inj hstep
    · exact h.move hi (fun g => Bool.false_ne_true) hnever rfl rfl rfl
    · exact h.insert hi
  case committed =>
    rcases ok with _ | _
    · exact nomatch hstep
    · obtain rfl := Option.some.inj hstep
      rw [InStep, hi] at hok
      exact h.add hi hok
  case finished => rcases ok with _ | _ <;> exact nomatch hstep

theorem deleteTurn_synced {id : ℕ} {phase : DeletePhase} {ok : Bool} (h : s.Synced) (hisolated : s.Isolated)
    (hi : s.requests[i]? = some (.delete id phase)) (hok : s.InStep (.turn i ok))
    (hstep : s.deleteTurn i id phase ok = some s') : s'.Synced := by
  have hnever : ∀ g, ¬ (Request.delete id phase).isAdding g = true := fun g => Bool.false_ne_true
  rcases phase with _ | _ | ⟨v, row⟩ | row | row | _
  case arrived =>
    rcases ok with _ | _ <;> obtain rfl := Option.some.inj hstep
    · exact h.move hi hnever (fun g => Bool.false_ne_true) rfl rfl rfl
    · exact h.move hi hnever (fun g => Bool.false_ne_true) rfl rfl rfl
  case begun =>
    rcases ok with _ | _
    · obtain rfl := Option.some.inj hstep
      exact h.move hi hnever (fun g => Bool.false_ne_true) rfl rfl rfl
    · rw [deleteTurn] at hstep
      split at hstep <;> obtain rfl := Option.some.inj hstep
      · exact h.move hi hnever (fun g => Bool.false_ne_true) rfl rfl rfl
      · exact h.move hi hnever (fun g => Bool.false_ne_true) rfl rfl rfl
  case selected =>
    rcases ok with _ | _
    · obtain rfl := Option.some.inj hstep
      exact h.move hi hnever (fun g => Bool.false_ne_true) rfl rfl rfl
    · rw [deleteTurn] at hstep
      split at hstep
      · obtain rfl := Option.some.inj hstep
        exact h.move hi hnever (fun g => Bool.false_ne_true) rfl rfl rfl
      · exact nomatch hstep
  case deleted =>
    have hheld : s.writer = some i ∧ row ∈ s.table.rows ∧ row.id = id := hisolated i _ hi
    rcases ok with _ | _ <;> obtain rfl := Option.some.inj hstep
    · exact h.move hi hnever (fun g => Bool.false_ne_true) rfl rfl rfl
    · exact h.delete hi hheld.2.1 hheld.2.2
  case removing =>
    rcases ok with _ | _
    · exact nomatch hstep
    · obtain rfl := Option.some.inj hstep
      rw [InStep, hi] at hok
      exact h.remove hi hok
  case finished => rcases ok with _ | _ <;> exact nomatch hstep

/-- A step keeps memory and the table together when its update of memory is in step. -/
theorem Synced.step {op : AdminOp} (h : s.Synced) (hisolated : s.Isolated) (hok : s.InStep op)
    (hstep : s.step op = some s') : s'.Synced := by
  rcases op with entry | id | ⟨i, ok⟩ | _
  · obtain rfl := Option.some.inj hstep
    exact h.arrive _
  · obtain rfl := Option.some.inj hstep
    exact h.arrive _
  · rw [Admin.step] at hstep
    split at hstep
    · rename_i hi
      exact addTurn_synced h hi hok hstep
    · rename_i hi
      exact deleteTurn_synced h hisolated hi hok hstep
    · exact nomatch hstep
  · rw [Admin.step] at hstep
    split at hstep
    · obtain rfl := Option.some.inj hstep
      exact ⟨h.loadable, h.stored, h.live⟩
    · exact nomatch hstep

/-- A request under way was so before another one came to a phase in which it is not. -/
theorem exists_of_set {P : Request → Prop} (hr' : ¬ P r') (h : ∃ r ∈ s.requests.set i r', P r) :
    ∃ r ∈ s.requests, P r := by
  obtain ⟨r₀, hmem, hP⟩ := h
  rcases List.mem_or_eq_of_mem_set hmem with hmem | rfl
  · exact ⟨r₀, hmem, hP⟩
  · exact absurd hP hr'

/-- Nothing less will do: an update that is not in step sets memory and the table apart. -/
theorem Synced.inStep {op : AdminOp} (hstep : s.step op = some s') (h : s'.Synced) : s.InStep op := by
  rcases op with _ | _ | ⟨i, _ | _⟩ | _
  · trivial
  · trivial
  · trivial
  · rw [Admin.step] at hstep
    unfold InStep
    dsimp only
    split
    · rename_i f c hi
      rw [hi] at hstep
      obtain rfl := Option.some.inj hstep
      by_cases hload : f.conditions = []
      · exact .inl hload
      · have hlive : f ∈ (s.live.add f).filters := AutoArchive.mem_add.2 (.inr ⟨rfl, hload⟩)
        have hfinished : ¬ (Request.add f c .finished).isRemoving f = true := Bool.false_ne_true
        exact .inr ((h.stored f hlive).imp_right (exists_of_set hfinished))
    · rename_i id row hi
      rw [hi] at hstep
      obtain rfl := Option.some.inj hstep
      by_cases hload : row.filter.conditions = []
      · exact .inl hload
      by_cases hstored : s.Stored row.filter
      · rcases h.live row.filter hload hstored with hlive | hadding
        · exact absurd rfl (AutoArchive.mem_remove.1 hlive).2
        · have hfinished : ¬ (Request.delete id .finished).isAdding row.filter = true := Bool.false_ne_true
          exact .inr (.inr (exists_of_set hfinished hadding))
      · exact .inr (.inl hstored)
    · trivial
  · trivial

/-! ## Runs -/

theorem Synced.start (table : FiltersTable) : (Admin.start table).Synced := by
  refine ⟨fun f hf => (FiltersTable.mem_load.1 hf).1, fun f hf => ?_, fun f hload hf => ?_⟩
  · exact .inl (FiltersTable.mem_load.1 hf).2
  · exact .inl (FiltersTable.mem_load.2 ⟨hload, hf⟩)

/-- Once every request has been answered there is no difference. -/
theorem Synced.agrees (h : s.Synced) (hquiet : s.Quiet) : s.Agrees := by
  have hremoving : ∀ f, ¬ s.Removing f := by
    rintro f ⟨r, hmem, hr⟩
    have hfinished := hquiet r hmem
    rcases r with ⟨g, c, phase⟩ | ⟨id, phase⟩
    · exact nomatch hr
    · obtain rfl : phase = .finished := of_decide_eq_true hfinished
      exact nomatch hr
  have hadding : ∀ f, ¬ s.Adding f := by
    rintro f ⟨r, hmem, hr⟩
    have hfinished := hquiet r hmem
    rcases r with ⟨g, c, phase⟩ | ⟨id, phase⟩
    · obtain rfl : phase = .finished := of_decide_eq_true hfinished
      exact nomatch hr
    · exact nomatch hr
  intro f
  rw [FiltersTable.mem_load]
  constructor
  · exact fun hf => ⟨h.loadable f hf, (h.stored f hf).resolve_right (hremoving f)⟩
  · exact fun hf => (h.live f hf.1 hf.2).resolve_right (hadding f)

end Admin

/-- An empty table. -/
def FiltersTable.empty : FiltersTable := ⟨[], 0, List.nodup_nil, nofun⟩

/-- A filter on a signature. -/
def signatureEntry : FilterEntry := ⟨none, none, none, none, none, 2021915, none⟩

/-- A filter is added and then deleted, while another table is written in between. -/
def addDeleteRun : List AdminOp :=
  [.addFilter signatureEntry, .turn 0 true, .turn 0 true, .turn 0 true, .turn 0 true, .turn 0 true, .otherCommit,
    .deleteFilter 1, .turn 1 true, .turn 1 true, .turn 1 true, .turn 1 true, .turn 1 true]

instance (s : Admin) (op : AdminOp) : Decidable (s.InStep op) := by
  unfold Admin.InStep
  rcases op with _ | _ | ⟨i, _ | _⟩ | _
  · exact isTrue trivial
  · exact isTrue trivial
  · exact isTrue trivial
  · dsimp only
    split <;> infer_instance
  · exact isTrue trivial

instance (s : Admin) : Decidable s.Quiet := inferInstanceAs (Decidable (∀ r ∈ s.requests, _))

/-- The same, but the other table is written between the two statements of the deletion: the second one fails. -/
def failedDeleteRun : List AdminOp :=
  [.addFilter signatureEntry, .turn 0 true, .turn 0 true, .turn 0 true, .turn 0 true, .turn 0 true,
    .deleteFilter 1, .turn 1 true, .turn 1 true, .otherCommit, .turn 1 false, .turn 1 true]

end EveBox.Server
