import EveBox.Rust.Result
import EveBox.Sink.BatchTheorems
import EveBox.Sqlite.Fts

/-!
# The full text index is that of the events

Reference: `src/sqlite/util.rs`, `src/sqlite/importer.rs`, `src/sqlite/retention.rs` and the endpoints of
`src/server/api/sqlite.rs`.
-/

namespace EveBox.Sqlite

open Rust Sink

/-- The rows of a table in the order of their numbers. -/
def Ordered (events : List EventRow) : Prop := events.Pairwise fun e f => e.rowid < f.rowid

/-- The index is that of the rows, and the trigger is there with the index. -/
structure Database.Indexed (db : Database) : Prop where
  ordered : Ordered db.store.events
  exact : ∀ fts, db.store.fts = some fts → fts = db.store.events.map EventRow.ftsRow
  trigger : db.trigger = db.store.fts.isSome

theorem Ordered.eq_of_rowid {events : List EventRow} (h : Ordered events) {e f : EventRow} (he : e ∈ events)
    (hf : f ∈ events) (heq : e.rowid = f.rowid) : e = f := by
  induction events with
  | nil => exact absurd he List.not_mem_nil
  | cons g events ih =>
    obtain ⟨hfirst, hrest⟩ := List.pairwise_cons.1 h
    rcases List.mem_cons.1 he with rfl | he'
    · rcases List.mem_cons.1 hf with rfl | hf'
      · rfl
      · have hlt := hfirst f hf'
        omega
    · rcases List.mem_cons.1 hf with rfl | hf'
      · have hlt := hfirst e he'
        omega
      · exact ih hrest he' hf'

/-! ## The importer -/

theorem lt_nextRowid {db : Store} {e : EventRow} (he : e ∈ db.events) : e.rowid < db.nextRowid := by
  have hmax : ∀ (ns : List ℕ) (m : ℕ), m ≤ ns.foldl max m ∧ ∀ n ∈ ns, n ≤ ns.foldl max m := by
    intro ns
    induction ns with
    | nil => exact fun m => ⟨le_refl m, nofun⟩
    | cons n ns ih =>
      intro m
      obtain ⟨hle, hall⟩ := ih (max m n)
      refine ⟨(le_max_left m n).trans hle, fun k hk => ?_⟩
      rcases List.mem_cons.1 hk with rfl | hk
      · exact (le_max_right m k).trans hle
      · exact hall k hk
  have hle := (hmax (db.events.map (·.rowid)) 0).2 e.rowid (List.mem_map_of_mem he)
  exact Nat.lt_succ_of_le hle

theorem Indexed.insertEvent {store : Store} {trigger : Bool} (h : Database.Indexed ⟨store, trigger⟩)
    (e : PreparedEvent) : Database.Indexed ⟨insertEvent store e, trigger⟩ := by
  refine ⟨?_, fun fts hfts => ?_, ?_⟩
  · refine List.pairwise_append.2 ⟨h.ordered, List.pairwise_singleton _ _, fun a ha b hb => ?_⟩
    rw [List.mem_singleton.1 hb]
    exact lt_nextRowid ha
  · obtain ⟨old, hold, rfl⟩ := Option.map_eq_some_iff.1 hfts
    show old ++ _ = (store.events ++ [e.row store.nextRowid]).map EventRow.ftsRow
    rw [List.map_append, h.exact old hold]
    rfl
  · show trigger = (store.fts.map _).isSome
    rw [Option.isSome_map]
    exact h.trigger

theorem Indexed.foldl_insertEvent {trigger : Bool} (queue : List PreparedEvent) {store : Store}
    (h : Database.Indexed ⟨store, trigger⟩) :
    Database.Indexed ⟨queue.foldl Sink.insertEvent store, trigger⟩ := by
  induction queue generalizing store with
  | nil => exact h
  | cons e queue ih => exact ih (Indexed.insertEvent h e)

theorem Indexed.importerCommit {db db' : Database} (h : db.Indexed) {queue : List PreparedEvent}
    {fault : Option SqlError} (hcommit : importerCommit queue fault db = .ok db') : db'.Indexed := by
  unfold Sqlite.importerCommit at hcommit
  rcases htx : transaction fault db.store queue with err | store
  · rw [htx] at hcommit
    exact nomatch hcommit
  · rw [htx] at hcommit
    obtain rfl := Except.ok.inj hcommit
    obtain rfl := transaction_ok htx
    exact Indexed.foldl_insertEvent queue h

/-- Without a fault a batch is committed. -/
theorem exists_importerCommit (db : Database) (queue : List PreparedEvent) :
    ∃ db', importerCommit queue none db = .ok db' := by
  have hinsert : ∀ (queue : List PreparedEvent) (count : ℕ) (store : Store),
      ∃ store', insertAll none count store queue = .ok store' := by
    intro queue
    induction queue with
    | nil => exact fun count store => ⟨store, rfl⟩
    | cons e queue ih =>
      intro count store
      obtain ⟨store', hstore⟩ := ih (count + 1) (insertEvent store e)
      refine ⟨store', ?_⟩
      rw [insertAll, ← hstore]
      rcases store.fts.isSome <;> rfl
  obtain ⟨store', hstore⟩ := hinsert queue 0 db.store
  refine ⟨{ db with store := store' }, ?_⟩
  have htx : transaction none db.store queue = .ok store' := by
    unfold transaction
    simp only [failsAt, Option.filter_none, hstore]
  rw [importerCommit, htx]
  rfl

/-! ## Retention -/

/-- A row leaves the table and, with the trigger, the index. -/
theorem Indexed.deleteRow {db : Database} (h : db.Indexed) {row : EventRow} (hrow : row ∈ db.store.events) :
    ∃ db', fireTrigger { db with store := { db.store with
        events := db.store.events.filter fun e => e.rowid ≠ row.rowid } } row = .ok db' ∧
      db'.Indexed ∧ db'.store.events = db.store.events.filter fun e => e.rowid ≠ row.rowid := by
  obtain ⟨⟨events, fts⟩, trigger⟩ := db
  have hordered : Ordered (events.filter fun e => e.rowid ≠ row.rowid) := h.ordered.filter _
  have htrigger : trigger = fts.isSome := h.trigger
  rcases fts with _ | fts
  · obtain rfl : trigger = false := htrigger
    exact ⟨_, rfl, ⟨hordered, nofun, rfl⟩, rfl⟩
  · obtain rfl : trigger = true := htrigger
    obtain rfl : fts = events.map EventRow.ftsRow := h.exact fts rfl
    have hmem : row.ftsRow ∈ events.map EventRow.ftsRow := List.mem_map_of_mem hrow
    refine ⟨_, if_pos hmem, ⟨hordered, fun fts hfts => ?_, rfl⟩, rfl⟩
    rw [← Option.some.inj hfts, List.filter_map]
    refine congrArg (List.map EventRow.ftsRow) (List.filter_congr fun e he => ?_)
    -- an entry of the index tells the row that it is of
    by_cases hid : e.rowid = row.rowid
    · obtain rfl := h.ordered.eq_of_rowid he hrow hid
      simp
    · have hne : e.ftsRow ≠ row.ftsRow := fun heq => hid (congrArg FtsRow.rowid heq)
      simp [hid, hne]

theorem Indexed.deleteRows {rows : List EventRow} (hnodup : rows.Nodup) {db : Database} (h : db.Indexed)
    (hrows : ∀ row ∈ rows, row ∈ db.store.events) : ∃ db', deleteRows rows db = .ok db' ∧ db'.Indexed := by
  induction rows generalizing db with
  | nil => exact ⟨db, rfl, h⟩
  | cons row rows ih =>
    obtain ⟨hnot, hnodup⟩ := List.nodup_cons.1 hnodup
    have hrow := hrows row List.mem_cons_self
    obtain ⟨db₁, hfire, hindexed, hevents⟩ := Indexed.deleteRow h hrow
    have hrest : ∀ r ∈ rows, r ∈ db₁.store.events := by
      intro r hr
      have hmem := hrows r (List.mem_cons_of_mem row hr)
      rw [hevents, List.mem_filter, decide_eq_true_iff]
      refine ⟨hmem, fun heq => hnot ?_⟩
      rw [← h.ordered.eq_of_rowid hmem hrow heq]
      exact hr
    obtain ⟨db', hdelete, hindexed'⟩ := ih hnodup hindexed hrest
    refine ⟨db', ?_, hindexed'⟩
    rw [Sqlite.deleteRows, hfire]
    exact hdelete

theorem Ordered.nodup {events : List EventRow} (h : Ordered events) : events.Nodup :=
  List.Pairwise.imp (fun hlt heq => absurd (congrArg EventRow.rowid heq) (Nat.ne_of_lt hlt)) h

/-- What a deletion selects is in the table, each row once. -/
theorem Indexed.selectOldest {db : Database} (h : db.Indexed) (p : EventRow → Bool) (limit : ℕ) :
    (selectOldest p limit db).Nodup ∧ ∀ row ∈ selectOldest p limit db, row ∈ db.store.events := by
  have hperm := List.perm_insertionSort (fun e f : EventRow => e.timestamp ≤ f.timestamp) (db.store.events.filter p)
  constructor
  · refine (hperm.nodup_iff.2 (h.ordered.nodup.filter p)).sublist (List.take_sublist _ _)
  · intro row hrow
    exact List.mem_of_mem_filter (hperm.mem_iff.1 (List.mem_of_mem_take hrow))

/-- Without a fault a deletion succeeds. -/
theorem Indexed.deletion {db : Database} (h : db.Indexed) (p : EventRow → Bool) (limit : ℕ) :
    ∃ db', Sqlite.deleteRows (Sqlite.selectOldest p limit db) db = .ok db' ∧ db'.Indexed := by
  obtain ⟨hnodup, hmem⟩ := Indexed.selectOldest h p limit
  exact Indexed.deleteRows hnodup h hmem

/-! ## Rebuilding the index -/

theorem attempt_none : attempt none = .ok none := rfl

/-- The row with the text that the rebuild gives it. -/
def EventRow.reindexed (row : EventRow) : EventRow := { row with sourceValues := extractValues row.source }

/-- A rebuild has come so far: the index has the rows in front. -/
structure Rebuilding (db : Database) (done todo : List EventRow) : Prop where
  events : db.store.events = done ++ todo
  ordered : Ordered (done ++ todo)
  fts : db.store.fts = some (done.map EventRow.ftsRow)
  trigger : db.trigger = true

/-- The update of a row leaves the others. -/
theorem map_update {done todo : List EventRow} {row : EventRow} (h : Ordered (done ++ row :: todo)) (flat : String) :
    (done ++ row :: todo).map (fun e => if e.rowid = row.rowid then { e with sourceValues := flat } else e) =
      done ++ { row with sourceValues := flat } :: todo := by
  obtain ⟨-, hrest, hdone⟩ := List.pairwise_append.1 h
  have hfirst := (List.pairwise_cons.1 hrest).1
  have hleft : ∀ e ∈ done, (if e.rowid = row.rowid then { e with sourceValues := flat } else e) = e := by
    intro e he
    have hlt := hdone e he row List.mem_cons_self
    exact if_neg (by omega)
  have hright : ∀ e ∈ todo, (if e.rowid = row.rowid then { e with sourceValues := flat } else e) = e := by
    intro e he
    have hlt := hfirst e he
    exact if_neg (by omega)
  rw [List.map_append, List.map_cons, if_pos rfl, List.map_congr_left hleft, List.map_congr_left hright,
    List.map_id', List.map_id']

/-- The order of rows is that of their numbers. -/
theorem Ordered.congr {events events' : List EventRow} (h : Ordered events)
    (hids : events'.map EventRow.rowid = events.map EventRow.rowid) : Ordered events' := by
  unfold Ordered at h ⊢
  rw [← List.pairwise_map (f := EventRow.rowid)] at h ⊢
  rw [hids]
  exact h

/-- One row is indexed, with a fault or without. -/
theorem Rebuilding.row {db : Database} {done todo : List EventRow} {row : EventRow}
    (h : Rebuilding db done (row :: todo)) :
    ∃ db', reindexInsert (reindexUpdate db row (extractValues row.source)) row (extractValues row.source) = .ok db' ∧
      Rebuilding db' (done ++ [row.reindexed]) todo := by
  obtain ⟨⟨events, fts⟩, trigger⟩ := db
  obtain rfl : events = done ++ row :: todo := h.events
  obtain rfl : fts = some (done.map EventRow.ftsRow) := h.fts
  refine ⟨_, rfl, ?_, ?_, ?_, h.trigger⟩
  · rw [List.append_assoc]
    exact map_update h.ordered _
  · refine h.ordered.congr ?_
    simp [EventRow.reindexed]
  · rw [List.map_append]
    rfl

theorem Rebuilding.rows {rows : List EventRow} {db db' : Database} {done todo : List EventRow}
    {budget budget' : Budget} (h : Rebuilding db done (rows ++ todo))
    (hrows : reindexRows rows db budget = .ok (db', budget')) :
    Rebuilding db' (done ++ rows.map EventRow.reindexed) todo := by
  induction rows generalizing db done budget with
  | nil =>
    obtain ⟨rfl, -⟩ := Prod.mk.inj (Except.ok.inj hrows)
    rw [List.map_nil, List.append_nil]
    exact h
  | cons row rows ih =>
    simp only [reindexRows, bind_eq_ok] at hrows
    obtain ⟨-, -, -, -, budget₃, -, db₁, hdb₁, hrest⟩ := hrows
    obtain ⟨db₂, hinsert, hrebuilding⟩ := Rebuilding.row h
    obtain rfl := Except.ok.inj (hinsert.symm.trans hdb₁)
    have hdone := ih hrebuilding hrest
    rwa [List.append_assoc] at hdone

/-- Without a fault all rows are indexed. -/
theorem Rebuilding.exists_rows {rows : List EventRow} {db : Database} {done todo : List EventRow}
    (h : Rebuilding db done (rows ++ todo)) : ∃ db', reindexRows rows db none = .ok (db', none) := by
  induction rows generalizing db done with
  | nil => exact ⟨db, rfl⟩
  | cons row rows ih =>
    obtain ⟨db₁, hinsert, hrebuilding⟩ := Rebuilding.row h
    obtain ⟨db', hrest⟩ := ih hrebuilding
    refine ⟨db', ?_⟩
    simp only [reindexRows, attempt_none, bind_eq_ok]
    exact ⟨none, rfl, none, rfl, none, rfl, db₁, hinsert, hrest⟩

/-- What is selected from the next number on: the first rows that are left. -/
theorem Rebuilding.select {db : Database} {done todo : List EventRow} (h : Rebuilding db done todo) {nextId : ℕ}
    (hdone : ∀ e ∈ done, e.rowid < nextId) (htodo : ∀ e ∈ todo, nextId ≤ e.rowid) :
    reindexSelect db nextId = todo.take 10000 := by
  rw [reindexSelect, h.events, List.filter_append, List.filter_eq_nil_iff.2, List.filter_eq_self.2, List.nil_append]
  · exact fun e he => decide_eq_true (htodo e he)
  · intro e he
    have hlt := hdone e he
    rw [decide_eq_true_iff]
    omega

/-- The rows of a turn, its last one, and those that are left. -/
theorem turn_split {todo : List EventRow} {last : EventRow} (hlast : (todo.take 10000).getLast? = some last)
    (hordered : Ordered todo) :
    (∀ e ∈ todo.take 10000, e.rowid < last.rowid + 1) ∧ (∀ e ∈ todo.drop 10000, last.rowid + 1 ≤ e.rowid) ∧
      (todo.drop 10000).length < todo.length := by
  have hsplit : Ordered (todo.take 10000 ++ todo.drop 10000) := by
    rw [List.take_append_drop]
    exact hordered
  obtain ⟨htake, -, hacross⟩ := List.pairwise_append.1 hsplit
  have hmem : last ∈ todo.take 10000 := List.mem_of_getLast? hlast
  refine ⟨fun e he => ?_, fun e he => hacross last hmem e he, ?_⟩
  · obtain ⟨init, hinit⟩ := List.getLast?_eq_some_iff.1 hlast
    rw [hinit] at he htake
    rcases List.mem_append.1 he with he | he
    · have hlt := (List.pairwise_append.1 htake).2.2 e he last (List.mem_singleton.2 rfl)
      omega
    · rw [List.mem_singleton.1 he]
      omega
  · have hpos := List.length_pos_of_mem hmem
    rw [List.length_take] at hpos
    rw [List.length_drop]
    omega

/-- What the loop comes to: every row is in the index. -/
theorem Rebuilding.loop {n nextId : ℕ} {db db' : Database} {done todo : List EventRow} {budget budget' : Budget}
    (h : Rebuilding db done todo) (hdone : ∀ e ∈ done, e.rowid < nextId) (htodo : ∀ e ∈ todo, nextId ≤ e.rowid)
    (hloop : reindexLoop n nextId db budget = .ok (db', budget')) : db'.Indexed := by
  induction n generalizing nextId db done todo budget with
  | zero => exact nomatch hloop
  | succ n ih =>
    rw [reindexLoop, bind_eq_ok] at hloop
    obtain ⟨budget₁, -, hloop⟩ := hloop
    have hselect := Rebuilding.select h hdone htodo
    rw [hselect] at hloop
    rcases hlast : (todo.take 10000).getLast? with _ | last
    · rw [hlast] at hloop
      obtain ⟨rfl, -⟩ := Prod.mk.inj (Except.ok.inj hloop)
      obtain rfl : todo = [] := by
        rw [List.getLast?_eq_none_iff, List.take_eq_nil_iff] at hlast
        exact hlast.resolve_left (by decide)
      have hevents := h.events
      have hordered := h.ordered
      rw [List.append_nil] at hevents hordered
      refine ⟨?_, fun fts hfts => ?_, ?_⟩
      · rw [hevents]
        exact hordered
      · rw [hevents]
        exact Option.some.inj (hfts.symm.trans h.fts)
      · rw [h.trigger, h.fts]
        rfl
    · rw [hlast] at hloop
      simp only [bind_eq_ok, Prod.exists] at hloop
      obtain ⟨db₁, budget₂, hrows, hrest⟩ := hloop
      have hordered : Ordered todo := (List.pairwise_append.1 h.ordered).2.1
      obtain ⟨htake, hdrop, -⟩ := turn_split hlast hordered
      have hsplit : Rebuilding db done (todo.take 10000 ++ todo.drop 10000) := by
        rw [List.take_append_drop]
        exact h
      refine ih (Rebuilding.rows hsplit hrows) (fun e he => ?_) hdrop hrest
      rcases List.mem_append.1 he with he | he
      · have hmem : last ∈ todo := List.mem_of_mem_take (List.mem_of_getLast? hlast)
        have hlt := hdone e he
        have hle := htodo last hmem
        omega
      · obtain ⟨row, hrow, rfl⟩ := List.mem_map.1 he
        exact htake row hrow

/-- Without a fault the loop comes to its end. -/
theorem Rebuilding.exists_loop {n nextId : ℕ} {db : Database} {done todo : List EventRow}
    (h : Rebuilding db done todo) (hdone : ∀ e ∈ done, e.rowid < nextId) (htodo : ∀ e ∈ todo, nextId ≤ e.rowid)
    (hn : todo.length < n) : ∃ db', reindexLoop n nextId db none = .ok (db', none) := by
  induction n generalizing nextId db done todo with
  | zero => exact absurd hn (Nat.not_lt_zero _)
  | succ n ih =>
    have hselect := Rebuilding.select h hdone htodo
    rcases hlast : (todo.take 10000).getLast? with _ | last
    · refine ⟨db, ?_⟩
      rw [reindexLoop, bind_eq_ok]
      refine ⟨none, rfl, ?_⟩
      rw [hselect, hlast]
    · have hordered : Ordered todo := (List.pairwise_append.1 h.ordered).2.1
      obtain ⟨htake, hdrop, hlength⟩ := turn_split hlast hordered
      have hsplit : Rebuilding db done (todo.take 10000 ++ todo.drop 10000) := by
        rw [List.take_append_drop]
        exact h
      obtain ⟨db₁, hrows⟩ := Rebuilding.exists_rows hsplit
      have hafter : ∀ e ∈ done ++ (todo.take 10000).map EventRow.reindexed, e.rowid < last.rowid + 1 := by
        intro e he
        rcases List.mem_append.1 he with he | he
        · have hmem : last ∈ todo := List.mem_of_mem_take (List.mem_of_getLast? hlast)
          have hlt := hdone e he
          have hle := htodo last hmem
          omega
        · obtain ⟨row, hrow, rfl⟩ := List.mem_map.1 he
          exact htake row hrow
      obtain ⟨db', hrest⟩ := ih (Rebuilding.rows hsplit hrows) hafter hdrop (by omega)
      refine ⟨db', ?_⟩
      rw [reindexLoop, bind_eq_ok]
      refine ⟨none, rfl, ?_⟩
      rw [hselect, hlast]
      simp only [bind_eq_ok, Prod.exists]
      exact ⟨db₁, none, hrows, hrest⟩

/-! ## Enabling and disabling -/

theorem require_eq_ok {p : Bool} {err : FtsError} {u : Unit} : require p err = .ok u ↔ p = true := by
  rcases p
  · exact ⟨(nomatch ·), (nomatch ·)⟩
  · exact ⟨fun _ => rfl, fun _ => rfl⟩

/-- A new index is that of no rows yet. -/
theorem Indexed.ftsCreate {db db' : Database} {budget budget' : Budget} (h : db.Indexed)
    (hcreate : ftsCreate db budget = .ok (db', budget')) : Rebuilding db' [] db.store.events := by
  simp only [Sqlite.ftsCreate, bind_eq_ok, require_eq_ok] at hcreate
  obtain ⟨-, -, -, -, budget₂, -, -, -, hdb⟩ := hcreate
  obtain ⟨rfl, -⟩ := Prod.mk.inj (Except.ok.inj hdb)
  exact ⟨rfl, h.ordered, rfl, rfl⟩

theorem Indexed.ftsEnable {db db' : Database} {budget budget' : Budget} (h : db.Indexed)
    (henable : ftsEnable db budget = .ok (db', budget')) : db'.Indexed := by
  rw [Sqlite.ftsEnable, bind_eq_ok] at henable
  obtain ⟨budget₁, -, henable⟩ := henable
  split at henable
  · obtain ⟨rfl, -⟩ := Prod.mk.inj (Except.ok.inj henable)
    exact h
  · simp only [bind_eq_ok, Prod.exists] at henable
    obtain ⟨db₁, budget₂, hcreate, hreindex⟩ := henable
    exact Rebuilding.loop (Indexed.ftsCreate h hcreate) nofun (fun _ _ => Nat.zero_le _) hreindex

theorem Indexed.ftsDisable {db db' : Database} {budget budget' : Budget} (h : db.Indexed)
    (hdisable : ftsDisable db budget = .ok (db', budget')) : db'.Indexed := by
  simp only [Sqlite.ftsDisable, bind_eq_ok, require_eq_ok] at hdisable
  obtain ⟨-, -, -, -, budget₂, -, -, -, hdb⟩ := hdisable
  obtain ⟨rfl, -⟩ := Prod.mk.inj (Except.ok.inj hdb)
  exact ⟨h.ordered, nofun, rfl⟩

/-- Without a fault the index is enabled. -/
theorem Indexed.exists_ftsEnable {db : Database} (h : db.Indexed) : ∃ db', Sqlite.ftsEnable db none = .ok (db', none) := by
  rcases hfts : db.store.fts with _ | fts
  · have htrigger : db.trigger = false := by
      rw [h.trigger, hfts]
      rfl
    have hcreate : Sqlite.ftsCreate db none = .ok (⟨⟨db.store.events, some []⟩, true⟩, none) := by
      simp only [Sqlite.ftsCreate, attempt_none, bind_eq_ok, require_eq_ok]
      exact ⟨none, rfl, (), by rw [hfts]; rfl, none, rfl, (), by rw [htrigger]; rfl, rfl⟩
    obtain ⟨db', hloop⟩ := Rebuilding.exists_loop (Indexed.ftsCreate h hcreate) nofun (fun _ _ => Nat.zero_le _)
      (Nat.lt_succ_self _)
    refine ⟨db', ?_⟩
    rw [Sqlite.ftsEnable, bind_eq_ok]
    refine ⟨none, rfl, ?_⟩
    rw [hfts, if_neg (show ¬ (none : Option (List FtsRow)).isSome = true from Bool.false_ne_true), bind_eq_ok]
    exact ⟨_, hcreate, hloop⟩
  · refine ⟨db, ?_⟩
    rw [Sqlite.ftsEnable, bind_eq_ok]
    refine ⟨none, rfl, ?_⟩
    rw [hfts, if_pos (show (some fts).isSome = true from rfl)]

/-- An endpoint keeps what its function keeps. -/
theorem endpoint_ok {f : Database → Budget → Except FtsError (Database × Budget)} {db db' : Database} {budget : Budget}
    (h : endpoint f db budget = .ok db') : ∃ budget₁ budget₂, f db budget₁ = .ok (db', budget₂) := by
  simp only [endpoint, bind_eq_ok, Prod.exists] at h
  obtain ⟨budget₁, -, db₁, budget₂, hf, -, -, hdb⟩ := h
  obtain rfl := Except.ok.inj hdb
  exact ⟨budget₁, budget₂, hf⟩

/-! ## Runs -/

theorem Indexed.after {ε : Type} {db : Database} (h : db.Indexed) {result : Except ε Database}
    (hok : ∀ db', result = .ok db' → db'.Indexed) : (db.after result).Indexed := by
  rcases result with err | db'
  · exact h
  · exact hok db' rfl

/-- Every operation keeps the index that of the rows, wherever it fails. -/
theorem Indexed.apply {db : Database} (h : db.Indexed) (op : FtsOp) : (db.apply op).Indexed := by
  have hdelete : ∀ (p : EventRow → Bool) (limit : ℕ) (db' : Database),
      Sqlite.deleteRows (Sqlite.selectOldest p limit db) db = .ok db' → db'.Indexed := by
    intro p limit db' hdb
    obtain ⟨db₁, hok, hindexed⟩ := Indexed.deletion h p limit
    obtain rfl := Except.ok.inj (hok.symm.trans hdb)
    exact hindexed
  rcases op with ⟨queue, fault⟩ | ⟨olderThan, limit, budget⟩ | ⟨limit, budget⟩ | budget | budget
  · exact Indexed.after h fun db' hdb => Indexed.importerCommit h hdb
  · refine Indexed.after h fun db' hdb => ?_
    obtain ⟨-, -, hdb⟩ := bind_eq_ok.1 hdb
    exact hdelete _ _ db' hdb
  · refine Indexed.after h fun db' hdb => ?_
    obtain ⟨-, -, hdb⟩ := bind_eq_ok.1 hdb
    exact hdelete _ _ db' hdb
  · refine Indexed.after h fun db' hdb => ?_
    obtain ⟨budget₁, budget₂, henable⟩ := endpoint_ok hdb
    exact Indexed.ftsEnable h henable
  · refine Indexed.after h fun db' hdb => ?_
    obtain ⟨budget₁, budget₂, hdisable⟩ := endpoint_ok hdb
    exact Indexed.ftsDisable h hdisable

theorem Indexed.applyAll (ops : List FtsOp) {db : Database} (h : db.Indexed) : (db.applyAll ops).Indexed := by
  induction ops generalizing db with
  | nil => exact h
  | cons op ops ih => exact ih (Indexed.apply h op)

theorem Indexed.initial : ∀ start : Database.Initial, start.database.Indexed
  | .fresh => ⟨List.Pairwise.nil, fun _ h => (Option.some.inj h).symm, rfl⟩
  | .unindexed _ sorted => ⟨sorted, nofun, rfl⟩

/-- What the index holds: numbers of rows and their texts. -/
def FtsRow.content (r : FtsRow) : ℕ × String := (r.rowid, r.sourceValues)

/-- After any operations, failed ones among them: an index holds the numbers and texts of the rows, the trigger is
there exactly when the index is, and an import, a deletion and enabling the index succeed when no fault comes. -/
theorem fts_law (start : Database.Initial) (ops : List FtsOp) :
    (∀ fts, (start.database.applyAll ops).store.fts = some fts →
      fts.map FtsRow.content =
        (start.database.applyAll ops).store.events.map fun e => (e.rowid, e.sourceValues)) ∧
    ((start.database.applyAll ops).trigger = true ↔ (start.database.applyAll ops).store.fts.isSome = true) ∧
    (∀ queue, ∃ db, importerCommit queue none (start.database.applyAll ops) = .ok db) ∧
    (∀ olderThan limit, ∃ db, deleteOlderThan olderThan limit (start.database.applyAll ops) none = .ok db) ∧
    (∀ limit, ∃ db, deleteOldestEventsN limit (start.database.applyAll ops) none = .ok db) ∧
    ∃ db, endpoint ftsEnable (start.database.applyAll ops) none = .ok db := by
  have h := Indexed.applyAll ops (Indexed.initial start)
  generalize start.database.applyAll ops = db at h ⊢
  refine ⟨fun fts hfts => ?_, ?_, exists_importerCommit db, fun olderThan limit => ?_, fun limit => ?_, ?_⟩
  · rw [h.exact fts hfts, List.map_map]
    rfl
  · rw [h.trigger]
  · obtain ⟨db', hdb, -⟩ := Indexed.deletion h (fun e => e.timestamp < olderThan && !e.escalated) limit
    exact ⟨db', hdb⟩
  · obtain ⟨db', hdb, -⟩ := Indexed.deletion h (fun e => !e.escalated) limit
    exact ⟨db', hdb⟩
  · obtain ⟨db', hdb⟩ := Indexed.exists_ftsEnable h
    refine ⟨db', ?_⟩
    simp only [endpoint, attempt_none, bind_eq_ok, Prod.exists]
    exact ⟨none, rfl, db', none, hdb, none, rfl, rfl⟩

end EveBox.Sqlite
