import EveBox.Rust.Result
import EveBox.Sink.Sqlite
import EveBox.Sqlite.Alerts

/-!
# The two ways to the inbox

The loop of `alerts_with_timeout` is one pass of `Grouping.collect` under its own key, `alerts_group_by` takes
the classes of what SQLite groups by. They agree where the keys tell the rows apart as SQLite does.
-/

namespace EveBox.Sqlite

open Rust Eve Grouping

/-! ## Decoded values -/

namespace SqlValue

variable {value : SqlValue}

theorem norm_of_getU64 {n : ℕ} (h : value.getU64 = some n) : value.norm = value := by
  cases value with
  | real q => simp [getU64] at h
  | _ => rfl

theorem norm_of_getString {s : String} (h : value.getString = some s) : value.norm = value := by
  cases value with
  | real q => simp [getString] at h
  | _ => rfl

theorem eq_null_of_norm (h : value.norm = null) : value = null := by
  cases value with
  | real q =>
      by_cases hq : q.den = 1 ∧ -2 ^ 63 ≤ q.num ∧ q.num < 2 ^ 63
      · rw [norm, if_pos hq] at h
        cases h
      · rw [norm, if_neg hq] at h
        cases h
  | _ => exact h

/-- An integer of the database is one of `i64`. -/
theorem ofJson_eq_int {j : Json} {n : ℤ} (h : ofJson j = int n) : -2 ^ 63 ≤ n ∧ n < 2 ^ 63 := by
  cases j with
  | bool b => cases b <;> simp [ofJson] at h <;> omega
  | number num =>
      cases num with
      | int m =>
          by_cases hm : -2 ^ 63 ≤ m ∧ m < 2 ^ 63
          · rw [ofJson, if_pos hm] at h
            obtain rfl := SqlValue.int.inj h
            exact hm
          · rw [ofJson, if_neg hm] at h
            cases h
      | float value text => cases h
  | _ => cases h

theorem getU64_ofJson_lt {j : Json} {n : ℕ} (h : (ofJson j).getU64 = some n) : n < 2 ^ 63 := by
  cases hj : ofJson j with
  | null =>
      rw [hj] at h
      obtain rfl := Option.some.inj h
      omega
  | int m =>
      have hm := ofJson_eq_int hj
      rw [hj, getU64, u64TryFrom] at h
      split at h
      · obtain rfl := Option.some.inj h
        omega
      · cases h
  | real q =>
      rw [hj] at h
      cases h
  | text s =>
      rw [hj] at h
      cases h

theorem getU64_ofJson_int {n : ℕ} (h : n < 2 ^ 63) : (ofJson (.number (.int n))).getU64 = some n := by
  have hn : -2 ^ 63 ≤ (n : ℤ) ∧ (n : ℤ) < 2 ^ 63 := by omega
  have hle : (n : ℤ) ≤ u64Max := by
    unfold u64Max
    omega
  rw [ofJson, if_pos hn, getU64, u64TryFrom, if_pos ⟨by omega, hle⟩, Int.toNat_natCast]

end SqlValue

theorem tryGet_bind_eq_ok {α β : Type} {name : String} {value : Option α} {f : α → Except AlertsError β} {b : β} :
    (tryGet name value >>= f) = .ok b ↔ ∃ a, value = some a ∧ f a = .ok b := by
  cases value <;> simp [tryGet, bind, Except.bind]

/-! ## The columns of the key -/

/-- The id and the addresses of a source, as they decode. What is missing is as what is empty. -/
def shownColumns (source : Json) : Option ℕ × Option String × Option String :=
  ((SqlValue.ofJson (source.getPath ["alert", "signature_id"])).getU64,
    (SqlValue.ofJson (source.getPath ["src_ip"])).getString,
    (SqlValue.ofJson (source.getPath ["dest_ip"])).getString)

/-- What there is to see of a group: its id, its addresses and its count. -/
def AggAlert.shown (alert : AggAlert) : (Option ℕ × Option String × Option String) × ℕ :=
  (shownColumns alert.source, alert.metadata.count)

/-- Columns that have decoded, as they are shown. -/
def KeyColumns.shown (c : KeyColumns) : Option ℕ × Option String × Option String :=
  (some c.signatureId, some c.srcIp, some c.destIp)

/-- The key of a row, if its columns decode. -/
def EventRow.key (row : EventRow) : String :=
  match keyColumns row with
  | .ok c => c.key
  | .error _ => ""

section

variable {row row' : EventRow} {c c' : KeyColumns}

theorem KeyColumns.shown_inj (h : c.shown = c'.shown) : c = c' := by
  cases c
  cases c'
  simpa [shown] using h

theorem keyColumns_eq_ok : keyColumns row = .ok c ↔ shownColumns row.source = c.shown := by
  obtain ⟨id, src, dest⟩ := c
  unfold keyColumns shownColumns KeyColumns.shown EventRow.extract
  simp only [tryGet_bind_eq_ok, Except.ok.injEq, KeyColumns.mk.injEq, Prod.mk.injEq]
  constructor
  · rintro ⟨_, hid, _, hsrc, _, hdest, rfl, rfl, rfl⟩
    exact ⟨hid, hsrc, hdest⟩
  · rintro ⟨hid, hsrc, hdest⟩
    exact ⟨_, hid, _, hsrc, _, hdest, rfl, rfl, rfl⟩

theorem EventRow.key_eq (h : keyColumns row = .ok c) : row.key = c.key := by
  rw [EventRow.key, h]

theorem keyColumns_decode (h : keyColumns row = .ok c) :
    (row.extract ["alert", "signature_id"]).getU64 = some c.signatureId ∧
    (row.extract ["src_ip"]).getString = some c.srcIp ∧ (row.extract ["dest_ip"]).getString = some c.destIp := by
  obtain ⟨hid, hrest⟩ := Prod.mk.inj (keyColumns_eq_ok.mp h)
  exact ⟨hid, Prod.mk.inj hrest⟩

theorem keyColumns_signatureId_lt (h : keyColumns row = .ok c) : c.signatureId < 2 ^ 63 :=
  SqlValue.getU64_ofJson_lt (keyColumns_decode h).1

/-- What decodes is grouped by as it is. -/
theorem groupKey_eq (h : keyColumns row = .ok c) : groupKey row =
    (row.extract ["alert", "signature_id"], row.extract ["src_ip"], row.extract ["dest_ip"]) := by
  obtain ⟨hid, hsrc, hdest⟩ := keyColumns_decode h
  exact congrArg₂ Prod.mk (SqlValue.norm_of_getU64 hid)
    (congrArg₂ Prod.mk (SqlValue.norm_of_getString hsrc) (SqlValue.norm_of_getString hdest))

/-- Rows that SQLite puts together have the same columns. -/
theorem keyColumns_eq_of_groupKey (hc : keyColumns row = .ok c) (hc' : keyColumns row' = .ok c')
    (h : groupKey row = groupKey row') : c = c' := by
  rw [groupKey_eq hc, groupKey_eq hc'] at h
  obtain ⟨hid, hsrc, hdest⟩ := by simpa only [Prod.mk.injEq] using h
  apply KeyColumns.shown_inj
  rw [← keyColumns_eq_ok.mp hc, ← keyColumns_eq_ok.mp hc']
  exact congrArg₂ Prod.mk (congrArg SqlValue.getU64 hid)
    (congrArg₂ Prod.mk (congrArg SqlValue.getString hsrc) (congrArg SqlValue.getString hdest))

end

/-! ## New entries -/

/-- The columns that a new entry needs decode. -/
def EventRow.EntryDecodes (row : EventRow) : Prop :=
  (row.extract ["http", "hostname"]).getOptionString.isSome ∧
  (row.extract ["alert", "signature"]).getString.isSome ∧
  (row.extract ["alert", "severity"]).getU64.isSome ∧
  (row.extract ["alert", "action"]).getString.isSome ∧
  (row.extract ["app_proto"]).getString.isSome

instance (row : EventRow) : Decidable row.EntryDecodes := by
  unfold EventRow.EntryDecodes
  infer_instance

section

variable {lib : TimeLib} {fromStr : String → Option Json} {row : EventRow} {c : KeyColumns} {alert : AggAlert}

theorem exists_newAlert_iff : (∃ alert, newAlert lib fromStr row c = .ok alert) ↔ row.EntryDecodes := by
  unfold newAlert EventRow.EntryDecodes
  simp only [tryGet_bind_eq_ok, Option.isSome_iff_exists]
  constructor
  · rintro ⟨alert, _, hhost, _, hsig, _, hsev, _, hact, _, hproto, _⟩
    exact ⟨⟨_, hhost⟩, ⟨_, hsig⟩, ⟨_, hsev⟩, ⟨_, hact⟩, ⟨_, hproto⟩⟩
  · rintro ⟨⟨_, hhost⟩, ⟨_, hsig⟩, ⟨_, hsev⟩, ⟨_, hact⟩, ⟨_, hproto⟩⟩
    exact ⟨_, _, hhost, _, hsig, _, hsev, _, hact, _, hproto, rfl⟩

/-- A new entry has the columns of its row, and counts it. -/
theorem newAlert_eq_ok (h : newAlert lib fromStr row c = .ok alert) :
    alert.source.getPath ["alert", "signature_id"] = .number (.int c.signatureId) ∧
    alert.source.getPath ["src_ip"] = .string c.srcIp ∧
    alert.source.getPath ["dest_ip"] = .string c.destIp ∧
    alert.metadata = ⟨1, if row.escalated then 1 else 0, .fromNanos row.timestamp, .fromNanos row.timestamp⟩ := by
  unfold newAlert at h
  simp only [tryGet_bind_eq_ok] at h
  obtain ⟨hostname, -, _, -, _, -, _, -, _, -, h⟩ := h
  obtain rfl := Except.ok.inj h
  cases hostname <;> exact ⟨rfl, rfl, rfl, rfl⟩

end

/-! ## The loop -/

section

variable (lib : TimeLib) (fromStr : String → Option Json)

/-- The entry that a row begins. -/
def startAlert (row : EventRow) : Except AlertsError AggAlert := (keyColumns row).bind (newAlert lib fromStr row)

/-- The table of the loop after some rows. -/
abbrev CollectedAlerts (rows : List EventRow) (events : List (String × AggAlert)) : Prop :=
  Collected EventRow.key (startAlert lib fromStr) AggAlert.add rows events

end

/-- Each row can be read: the columns of the key decode, and with a new key the columns of an entry do. -/
structure Readable (rows : List EventRow) : Prop where
  key : ∀ row ∈ rows, ∃ c, keyColumns row = .ok c
  entry : ∀ before row after, rows = before ++ row :: after → (∀ b ∈ before, b.key ≠ row.key) → row.EntryDecodes

section

variable {lib : TimeLib} {fromStr : String → Option Json} {late : ℕ → Bool} {rows : List EventRow}
variable {events : List (String × AggAlert)} {count : ℕ} {st st' : AlertLoop}

theorem putAlert_eq {row : EventRow} {c : KeyColumns} (hc : keyColumns row = .ok c) :
    putAlert lib fromStr events row c = put EventRow.key (startAlert lib fromStr) AggAlert.add events row := by
  unfold putAlert put startAlert
  rw [EventRow.key_eq hc, hc]
  split
  · rfl
  · change _ = Except.map _ (newAlert lib fromStr row c)
    cases newAlert lib fromStr row c <;> rfl

/-- A loop that is never late collects all rows. -/
theorem alertLoop_eq_ok (hlate : ∀ i, i < count + rows.length → late i = false) (hst : st.abortAt = none)
    (h : alertLoop lib fromStr late count st rows = .ok st') :
    (∀ row ∈ rows, ∃ c, keyColumns row = .ok c) ∧ st'.abortAt = none ∧
    collect EventRow.key (startAlert lib fromStr) AggAlert.add st.events rows = .ok st'.events := by
  induction rows generalizing count st with
  | nil =>
      obtain rfl := Except.ok.inj h
      exact ⟨by simp, hst, rfl⟩
  | cons row rows ih =>
      rw [List.length_cons] at hlate
      rw [alertLoop, hst] at h
      cases hc : keyColumns row with
      | error err =>
          rw [hc] at h
          cases h
      | ok c =>
          simp only [hc, bind, Except.bind, Option.any_none, Bool.false_eq_true, if_false, putAlert_eq hc,
            hlate count (by omega)] at h
          cases hput : put EventRow.key (startAlert lib fromStr) AggAlert.add st.events row with
          | error err =>
              rw [hput] at h
              cases h
          | ok events =>
              rw [hput] at h
              obtain ⟨hkeys, habort, hcollect⟩ := ih (fun i hi => hlate i (by omega)) rfl h
              refine ⟨?_, habort, ?_⟩
              · rintro r (_ | ⟨_, hr⟩)
                · exact ⟨c, hc⟩
                · exact hkeys r hr
              · rw [collect, hput]
                exact hcollect

/-- Where all rows can be collected, a loop that is never late comes to its end. -/
theorem exists_alertLoop (hlate : ∀ i, i < count + rows.length → late i = false) (hst : st.abortAt = none)
    (hkeys : ∀ row ∈ rows, ∃ c, keyColumns row = .ok c)
    (h : collect EventRow.key (startAlert lib fromStr) AggAlert.add st.events rows = .ok events) :
    ∃ st', alertLoop lib fromStr late count st rows = .ok st' := by
  induction rows generalizing count st with
  | nil => exact ⟨st, rfl⟩
  | cons row rows ih =>
      rw [List.length_cons] at hlate
      obtain ⟨c, hc⟩ := hkeys row (by simp)
      simp only [alertLoop, hst, hc, bind, Except.bind, Option.any_none, Bool.false_eq_true, if_false,
        putAlert_eq hc, hlate count (by omega)]
      rw [collect] at h
      cases hput : put EventRow.key (startAlert lib fromStr) AggAlert.add st.events row with
      | error err =>
          rw [hput] at h
          cases h
      | ok events =>
          rw [hput] at h
          exact ih (fun i hi => hlate i (by omega)) rfl (fun r hr => hkeys r (List.mem_cons_of_mem _ hr)) h

theorem exists_startAlert_iff {row : EventRow} (h : ∃ c, keyColumns row = .ok c) :
    (∃ alert, startAlert lib fromStr row = .ok alert) ↔ row.EntryDecodes := by
  obtain ⟨c, hc⟩ := h
  rw [startAlert, hc]
  exact exists_newAlert_iff

/-- The loop, when it is never late: it comes to its end exactly if each row can be read. -/
theorem exists_alertLoop_iff (hlate : ∀ i, i < rows.length → late i = false) :
    (∃ st, alertLoop lib fromStr late 0 ⟨[], none, none, none⟩ rows = .ok st) ↔ Readable rows := by
  have hnil : CollectedAlerts lib fromStr [] [] := .nil
  rw [← Nat.zero_add rows.length] at hlate
  constructor
  · rintro ⟨st, hst⟩
    obtain ⟨hkeys, -, hcollect⟩ := alertLoop_eq_ok hlate rfl hst
    refine ⟨hkeys, fun before row after heq hnew => ?_⟩
    exact (exists_startAlert_iff (hkeys row (by rw [heq]; simp))).mp
      (hnil.exists_collect_iff.mp ⟨_, hcollect⟩ before row after heq hnew)
  · intro hread
    obtain ⟨events, hcollect⟩ := hnil.exists_collect_iff.mpr fun before row after heq hnew =>
      (exists_startAlert_iff (hread.key row (by rw [heq]; simp))).mpr (hread.entry before row after heq hnew)
    exact exists_alertLoop hlate rfl hread.key hcollect

/-- The loop, when it is never late: all rows are collected, and the time was never up. -/
theorem alertLoop_collected (hlate : ∀ i, i < rows.length → late i = false)
    (h : alertLoop lib fromStr late 0 ⟨[], none, none, none⟩ rows = .ok st) :
    st.abortAt = none ∧ CollectedAlerts lib fromStr rows st.events := by
  rw [← Nat.zero_add rows.length] at hlate
  obtain ⟨-, habort, hcollect⟩ := alertLoop_eq_ok hlate rfl h
  exact ⟨habort, Collected.nil.collect hcollect⟩

end

/-! ## The entries -/

/-- What the entry of some rows of one key is. -/
structure EntryOf (alert : AggAlert) (row : EventRow) (rest : List EventRow) (c : KeyColumns) : Prop where
  columns : keyColumns row = .ok c
  signatureId : alert.source.getPath ["alert", "signature_id"] = .number (.int c.signatureId)
  srcIp : alert.source.getPath ["src_ip"] = .string c.srcIp
  destIp : alert.source.getPath ["dest_ip"] = .string c.destIp
  count : alert.metadata.count = (row :: rest).length
  minTimestamp : alert.metadata.minTimestamp = .fromNanos (rest.getLastD row).timestamp
  maxTimestamp : alert.metadata.maxTimestamp = .fromNanos row.timestamp

section

variable {lib : TimeLib} {fromStr : String → Option Json} {rows : List EventRow}
variable {events : List (String × AggAlert)} {k : String} {alert first : AggAlert} {row : EventRow}
variable {rest : List EventRow} {c : KeyColumns}

theorem EntryOf.start (h : startAlert lib fromStr row = .ok alert) : ∃ c, EntryOf alert row [] c := by
  unfold startAlert at h
  cases hc : keyColumns row with
  | error err =>
      rw [hc] at h
      cases h
  | ok c =>
      rw [hc] at h
      obtain ⟨hid, hsrc, hdest, hmeta⟩ := newAlert_eq_ok h
      exact ⟨c, hc, hid, hsrc, hdest, by rw [hmeta]; rfl, by rw [hmeta]; rfl, by rw [hmeta]⟩

theorem EntryOf.add (h : EntryOf alert row rest c) (next : EventRow) :
    EntryOf (alert.add next) row (rest ++ [next]) c where
  columns := h.columns
  signatureId := h.signatureId
  srcIp := h.srcIp
  destIp := h.destIp
  count := by
    change alert.metadata.count + 1 = _
    rw [h.count]
    simp
  minTimestamp := by
    rw [List.getLastD_concat]
    rfl
  maxTimestamp := h.maxTimestamp

theorem EntryOf.foldl (h : EntryOf alert row rest c) (more : List EventRow) :
    EntryOf (more.foldl AggAlert.add alert) row (rest ++ more) c := by
  induction more generalizing alert rest with
  | nil => rwa [List.append_nil]
  | cons next more ih => simpa using ih (h.add next)

/-- Each entry of the loop is one of all rows of its key. -/
theorem exists_entryOf (h : CollectedAlerts lib fromStr rows events) (hb : (k, alert) ∈ events) :
    ∃ row rest c, (rows.filter fun r => r.key = k) = row :: rest ∧ EntryOf alert row rest c := by
  obtain ⟨row, rest, first, hfilter, hstart, rfl⟩ := h.entry k alert hb
  obtain ⟨c, hfirst⟩ := EntryOf.start hstart
  exact ⟨row, rest, c, hfilter, hfirst.foldl rest⟩

theorem EntryOf.shown (h : EntryOf alert row rest c) : alert.shown = (c.shown, (row :: rest).length) := by
  have hlt := keyColumns_signatureId_lt h.columns
  refine Prod.ext ?_ h.count
  simp only [AggAlert.shown, shownColumns, KeyColumns.shown, h.signatureId, h.srcIp, h.destIp,
    SqlValue.getU64_ofJson_int hlt]
  rfl

end

/-! ## The groups of SQLite -/

section

variable {lib : TimeLib} {bare : List EventRow → EventRow} {events rows : List EventRow}

/-- The group is in the join: the row that its bare column comes from is one of its newest. -/
def Kept (bare : List EventRow → EventRow) (group : List EventRow) : Prop :=
  ∀ row ∈ group, row.timestamp ≤ (bare group).timestamp

instance (group : List EventRow) : Decidable (Kept bare group) := List.decidableBAll _ _

/-- A row is found by its identifier alone. -/
theorem filter_rowid (hrowid : (events.map (·.rowid)).Nodup) {row : EventRow} (hrow : row ∈ events)
    (p : EventRow → Bool) :
    (events.filter fun a => decide (a.rowid = row.rowid) && p a) = if p row then [row] else [] := by
  have hsplit : (events.filter fun a => a.rowid = row.rowid) = [row] := by
    rw [List.filter_eq_cons_iff]
    obtain ⟨before, after, rfl⟩ := List.append_of_mem hrow
    rw [List.map_append, List.map_cons, List.nodup_middle, List.nodup_cons] at hrowid
    have hother : ∀ a ∈ before ++ after, a.rowid ≠ row.rowid := fun a ha heq =>
      hrowid.1 (by rw [← List.map_append, ← heq]; exact List.mem_map_of_mem ha)
    refine ⟨before, after, rfl, ?_, by simp, ?_⟩
    · intro a ha
      simpa using hother a (List.mem_append_left _ ha)
    · rw [List.filter_eq_nil_iff]
      intro a ha
      simpa using hother a (List.mem_append_right _ ha)
  have hand : (events.filter fun a => decide (a.rowid = row.rowid) && p a) =
      (events.filter fun a => a.rowid = row.rowid).filter p := by
    rw [List.filter_filter]
    exact List.filter_congr fun a _ => Bool.and_comm _ _
  rw [hand, hsplit, List.filter_singleton]
  cases p row <;> rfl

theorem mem_group {group : List EventRow} (hgroup : group ∈ groupBy rows) {row : EventRow} (hrow : row ∈ group) :
    row ∈ rows := by
  obtain ⟨a, -, rfl⟩ := mem_classes.mp hgroup
  exact (List.mem_filter.mp hrow).1

/-- The join has one row for each group that is kept. -/
theorem joinGroups_eq (hrowid : (events.map (·.rowid)).Nodup) (hrows : ∀ row ∈ rows, row ∈ events)
    (hbare : ∀ group ∈ groupBy rows, bare group ∈ group) :
    joinGroups bare events rows =
      ((groupBy rows).filter fun group => Kept bare group).map fun group => (bare group, groupRow bare group) := by
  unfold joinGroups
  generalize hgroups : groupBy rows = groups
  have hsub : ∀ group ∈ groups, group ∈ groupBy rows := fun group h => hgroups ▸ h
  clear hgroups
  induction groups with
  | nil => rfl
  | cons group groups ih =>
      have hmem : bare group ∈ group := hbare group (hsub group (by simp))
      have hkept : some (bare group).timestamp = (group.map (·.timestamp)).max? ↔ Kept bare group := by
        rw [eq_comm, List.max?_eq_some_iff]
        simp only [Kept, List.forall_mem_map]
        exact and_iff_right (List.mem_map_of_mem hmem)
      have hrow : bare group ∈ events := hrows _ (mem_group (hsub group (by simp)) hmem)
      rw [List.flatMap_cons, ih fun g hg => hsub g (List.mem_cons_of_mem _ hg), List.filter_cons]
      have hfilter : (events.filter fun a => a.rowid = (groupRow bare group).rowid &&
          some a.timestamp = (groupRow bare group).maxts) =
          if decide (some (bare group).timestamp = (group.map (·.timestamp)).max?) then [bare group] else [] :=
        filter_rowid hrowid hrow fun a => some a.timestamp = (group.map (·.timestamp)).max?
      dsimp only
      rw [hfilter]
      by_cases hk : Kept bare group
      · rw [if_pos (decide_eq_true (hkept.mpr hk))]
        simp [hk]
      · rw [if_neg fun h => hk (hkept.mp (of_decide_eq_true h))]
        simp [hk]

/-- The event has a timestamp that parses. -/
def EventRow.Stamped (lib : TimeLib) (row : EventRow) : Prop := (datetime lib row.source).isSome

theorem reformatAt_timestamp {path : List String} {key : String} {eve eve' : Json}
    (h : Sink.reformatAt lib (key :: path) eve = some eve') (hkey : "timestamp" ≠ key) :
    eve'.get "timestamp" = eve.get "timestamp" := by
  unfold Sink.reformatAt at h
  split at h
  · exact Json.get_setPath_ne h hkey
  · rw [Option.some.inj h]

/-- The sink writes such rows, if the library reads what it writes. -/
theorem prep_stamped (hlib : ∀ dt, (lib.parse (lib.rfc3339Micros dt).toList).isSome) {event : Json}
    {prepared : Sink.PreparedEvent} (h : Sink.SqliteEventSink.prep lib event = some (.ok prepared)) (rowid : ℕ) :
    (prepared.row rowid).Stamped lib := by
  unfold Sink.SqliteEventSink.prep at h
  cases hdt : datetime lib event with
  | none =>
      rw [hdt] at h
      cases h
  | some dt =>
      rw [hdt] at h
      obtain ⟨stored, hstored, h⟩ := Option.bind_eq_some_iff.mp h
      obtain ⟨nanos, -, h⟩ := Option.bind_eq_some_iff.mp h
      obtain rfl := Except.ok.inj (Option.some.inj h)
      obtain ⟨timestamp, htimestamp, hparse⟩ := Option.bind_eq_some_iff.mp hdt
      obtain ⟨first, hfirst, hstored⟩ := Option.bind_eq_some_iff.mp hstored
      obtain ⟨second, hsecond, hthird⟩ := Option.bind_eq_some_iff.mp hstored
      have hstring : event.get "timestamp" = .string timestamp := by
        cases hget : event.get "timestamp" with
        | string s =>
            rw [hget] at htimestamp
            rw [Option.some.inj htimestamp]
        | _ =>
            rw [hget] at htimestamp
            cases htimestamp
      have hset : event.set "timestamp" (.string (Sink.reformatTimestamp lib timestamp)) = some first := by
        unfold Sink.reformatAt at hfirst
        rw [show event.getPath ["timestamp"] = .string timestamp from hstring] at hfirst
        exact hfirst
      have hfinal : stored.get "timestamp" = .string (lib.rfc3339Micros dt) := by
        rw [reformatAt_timestamp hthird (by decide), reformatAt_timestamp hsecond (by decide),
          Json.get_set_self hset, Sink.reformatTimestamp, hparse]
        rfl
      obtain ⟨dt', hdt'⟩ := Option.isSome_iff_exists.mp (hlib dt)
      refine Option.isSome_iff_exists.mpr ⟨dt', Option.bind_eq_some_iff.mpr ⟨lib.rfc3339Micros dt, ?_, ?_⟩⟩
      · exact congrArg Json.asStr hfinal
      · rw [parseDateTime, hdt']

theorem sourceWithTags_get {source parsed : Json} (h : sourceWithTags source = .ok parsed) {key : String}
    (hkey : key ≠ "tags") : parsed.get key = source.get key := by
  unfold sourceWithTags at h
  split at h
  · cases hset : source.set "tags" (.array []) with
    | none =>
        rw [hset] at h
        cases h
    | some tagged =>
        rw [hset] at h
        obtain rfl := Except.ok.inj h
        exact Json.get_setPath_ne hset hkey
  · rw [Except.ok.inj h]

theorem exists_sourceWithTags {source : Json} (h : source.isObject) :
    ∃ parsed, sourceWithTags source = .ok parsed := by
  obtain ⟨tagged, htagged⟩ : ∃ tagged, source.set "tags" (.array []) = some tagged :=
    Json.exists_set_of_isObject h
  unfold sourceWithTags
  rw [htagged]
  split <;> exact ⟨_, rfl⟩

/-- A row of the join is shown with the columns of its event and the count of its group. -/
theorem alertRowMapper_shown {a : EventRow} {b : GroupRow} {alert : AggAlert}
    (h : alertRowMapper lib (a, b) = .ok alert) : alert.shown = (shownColumns a.source, b.count) := by
  unfold alertRowMapper at h
  cases hparsed : sourceWithTags a.source with
  | error err =>
      simp only [hparsed] at h
      cases h
  | ok parsed =>
      have hget : ∀ key, key ≠ "tags" → parsed.get key = a.source.get key := fun key hkey =>
        sourceWithTags_get hparsed hkey
      cases htimestamp : (parsed.get "timestamp").asStr with
      | none =>
          simp only [hparsed, bind, Except.bind, htimestamp] at h
          cases h
      | some timestamp =>
          cases hparse : parseDateTime lib timestamp none with
          | none =>
              simp only [hparsed, bind, Except.bind, htimestamp, hparse] at h
              cases h
          | some ts =>
              simp only [hparsed, bind, Except.bind, htimestamp, hparse] at h
              obtain rfl := Except.ok.inj h
              refine Prod.ext ?_ rfl
              simp only [AggAlert.shown, shownColumns, Json.getPath, List.foldl, ← hget "alert" (by decide),
                ← hget "src_ip" (by decide), ← hget "dest_ip" (by decide)]
              generalize parsed.get "alert" = columns, parsed.get "src_ip" = src, parsed.get "dest_ip" = dest
              cases (parsed.get "http").get "hostname" <;> rfl

theorem exists_alertRowMapper {a : EventRow} {b : GroupRow} (hobject : a.source.isObject)
    (hstamped : a.Stamped lib) : ∃ alert, alertRowMapper lib (a, b) = .ok alert := by
  obtain ⟨parsed, hparsed⟩ := exists_sourceWithTags hobject
  obtain ⟨dt, hdt⟩ := Option.isSome_iff_exists.mp hstamped
  obtain ⟨timestamp, htimestamp, hparse⟩ := Option.bind_eq_some_iff.mp hdt
  have hget : parsed.get "timestamp" = a.source.get "timestamp" := sourceWithTags_get hparsed (by decide)
  unfold alertRowMapper
  simp only [hparsed, bind, Except.bind, hget, htimestamp, hparse]
  exact ⟨_, rfl⟩

theorem isObject_of_isAlert {row : EventRow} (h : row.isAlert) : row.source.isObject := by
  unfold EventRow.isAlert EventRow.extract at h
  cases hsource : row.source with
  | object fields => rfl
  | _ => simp [hsource, Json.getPath, Json.get, SqlValue.ofJson, SqlValue.eq] at h

/-- `alerts_group_by` shows each group that is kept. -/
theorem alertsGroupBy_shown (hrowid : (events.map (·.rowid)).Nodup) (hrows : ∀ row ∈ rows, row ∈ events)
    (hbare : ∀ group ∈ groupBy rows, bare group ∈ group) {legacy : AlertsResult}
    (h : alertsGroupBy lib bare events rows = .ok legacy) :
    (legacy.events.map AggAlert.shown).Perm
      (((groupBy rows).filter fun group => Kept bare group).map fun group =>
        (shownColumns (bare group).source, (groupRow bare group).count)) := by
  obtain ⟨results, hresults, hlegacy⟩ := bind_eq_ok.mp h
  obtain rfl := Except.ok.inj hlegacy
  have hshown : results.map AggAlert.shown = _ :=
    @map_eq_of_mapM _ _ _ _ _ _ _ _ (fun row => (shownColumns row.1.source, row.2.count)) hresults
      fun row alert => alertRowMapper_shown
  rw [joinGroups_eq hrowid hrows hbare] at hshown
  have hsorted := List.Perm.map (fun row : EventRow × GroupRow => (shownColumns row.1.source, row.2.count))
    (List.perm_insertionSort (fun a b => b.1.timestamp ≤ a.1.timestamp)
      (((groupBy rows).filter fun group => Kept bare group).map fun group => (bare group, groupRow bare group)))
  rw [← hshown, List.map_map] at hsorted
  exact hsorted

/-- `alerts_group_by` answers for rows that the sink has written. -/
theorem exists_alertsGroupBy (hrowid : (events.map (·.rowid)).Nodup) (hrows : ∀ row ∈ rows, row ∈ events)
    (hbare : ∀ group ∈ groupBy rows, bare group ∈ group) (halert : ∀ row ∈ rows, row.isAlert)
    (hstamped : ∀ row ∈ rows, row.Stamped lib) : ∃ legacy, alertsGroupBy lib bare events rows = .ok legacy := by
  obtain ⟨results, hresults⟩ : ∃ results, ((joinGroups bare events rows).insertionSort
      fun a b => b.1.timestamp ≤ a.1.timestamp).mapM (alertRowMapper lib) = .ok results := by
    refine exists_mapM fun row hrow => ?_
    rw [List.mem_insertionSort, joinGroups_eq hrowid hrows hbare] at hrow
    obtain ⟨group, hgroup, rfl⟩ := List.mem_map.mp hrow
    have hgroup := (List.mem_filter.mp hgroup).1
    have hmem := mem_group hgroup (hbare group hgroup)
    exact exists_alertRowMapper (isObject_of_isAlert (halert _ hmem)) (hstamped _ hmem)
  exact ⟨_, bind_eq_ok.mpr ⟨results, hresults, rfl⟩⟩

end

/-! ## Both ways -/

/-- The rows that a query of the inbox gives, when it does not time out. -/
structure AlertQuery (late : ℕ → Bool) (options : AlertQueryOptions) (events selected rows : List EventRow) :
    Prop where
  select : alertRows options events = some selected
  /-- The rows are read newest first; the order of those of one time is open. -/
  perm : rows.Perm selected
  newest : rows.Pairwise fun a b => b.timestamp ≤ a.timestamp
  inTime : ∀ i, i < rows.length → late i = false

/-- What is given when the inbox is asked for in both ways. -/
structure Inbox (lib : TimeLib) (bare : List EventRow → EventRow) (late : ℕ → Bool) (options : AlertQueryOptions)
    (events selected rows : List EventRow) : Prop extends AlertQuery late options events selected rows where
  /-- The row identifier is the primary key. -/
  rowid : (events.map (·.rowid)).Nodup
  /-- A bare column is that of a row of the group. -/
  bare : ∀ group, group ≠ [] → bare group ∈ group
  stamped : ∀ row ∈ events, row.Stamped lib

/-- The place of the entry of a row. -/
def AlertLoop.placeOf (st : AlertLoop) (row : EventRow) : Option ℕ :=
  st.events.findIdx? fun entry => entry.1 = row.key

/-- Both ways put together the same rows, and show the same groups. -/
def AlertsAgree (lib : TimeLib) (fromStr : String → Option Json) (bare : List EventRow → EventRow)
    (late : ℕ → Bool) (events selected rows : List EventRow) : Prop :=
  ∃ st result legacy,
    alertLoop lib fromStr late 0 ⟨[], none, none, none⟩ rows = .ok st ∧
    alertsWithTimeout lib fromStr late rows = .ok result ∧ result.timedOut = false ∧
    alertsGroupBy lib bare events selected = .ok legacy ∧
    (∀ a ∈ rows, ∀ b ∈ rows, st.placeOf a = st.placeOf b ↔ groupKey a = groupKey b) ∧
    (result.events.map AggAlert.shown).Perm (legacy.events.map AggAlert.shown)

/-- Rows that have one key have the same id and addresses. -/
def KeysApart (rows : List EventRow) : Prop :=
  ∀ a ∈ rows, ∀ b ∈ rows, a.key = b.key → groupKey a = groupKey b

section

variable {lib : TimeLib} {fromStr : String → Option Json} {rows : List EventRow}
variable {events : List (String × AggAlert)} {k : String} {alert : AggAlert}

/-- An entry is shown with the columns of any of its rows, if the keys are apart. -/
theorem shown_entry (h : CollectedAlerts lib fromStr rows events) (hread : Readable rows) (hapart : KeysApart rows)
    (hb : (k, alert) ∈ events) {row : EventRow} (hrow : row ∈ rows) (hkey : row.key = k) :
    alert.shown = (shownColumns row.source, rows.countP fun r => r.key = k) := by
  obtain ⟨first, rest, c, hfilter, hentry⟩ := exists_entryOf h hb
  have hfirst : first ∈ rows.filter fun r => r.key = k := by
    rw [hfilter]
    exact List.mem_cons_self
  obtain ⟨hmem, hfirst⟩ := List.mem_filter.mp hfirst
  obtain ⟨c', hc'⟩ := hread.key row hrow
  have hgroup := hapart first hmem row hrow ((of_decide_eq_true hfirst).trans hkey.symm)
  rw [hentry.shown, List.countP_eq_length_filter, hfilter, keyColumns_eq_ok.mp hc',
    keyColumns_eq_of_groupKey hentry.columns hc' hgroup]

/-- The key, as it can be told from what is shown. -/
def shownKey (shown : (Option ℕ × Option String × Option String) × ℕ) : String :=
  toString (shown.1.1.getD 0) ++ shown.1.2.1.getD "" ++ shown.1.2.2.getD ""

theorem shownKey_eq {row : EventRow} {c : KeyColumns} (hc : keyColumns row = .ok c) (n : ℕ) :
    shownKey (shownColumns row.source, n) = row.key := by
  rw [keyColumns_eq_ok.mp hc, EventRow.key_eq hc]
  rfl

/-- No two entries are shown alike. -/
theorem nodup_shown (h : CollectedAlerts lib fromStr rows events) :
    (events.map fun entry => entry.2.shown).Nodup := by
  refine List.Nodup.of_map shownKey ?_
  have hkeys : (events.map fun entry => entry.2.shown).map shownKey = events.map (·.1) := by
    rw [List.map_map]
    refine List.map_congr_left fun entry hentry => ?_
    obtain ⟨first, rest, c, hfilter, hshown⟩ := exists_entryOf h (show (entry.1, entry.2) ∈ events from hentry)
    have hfirst : first ∈ rows.filter fun r => r.key = entry.1 := by
      rw [hfilter]
      exact List.mem_cons_self
    rw [Function.comp_apply, hshown.shown, ← keyColumns_eq_ok.mp hshown.columns, shownKey_eq hshown.columns]
    exact of_decide_eq_true (List.mem_filter.mp hfirst).2
  rw [hkeys]
  exact h.nodup

end

theorem AlertQuery.mem_iff {late : ℕ → Bool} {options : AlertQueryOptions} {events selected rows : List EventRow}
    (h : AlertQuery late options events selected rows) : ∃ earliest, earliestNanos options.timestampGte = some earliest ∧
      ∀ row, row ∈ rows ↔ row ∈ events ∧ row.meets options earliest := by
  obtain ⟨earliest, hearliest, hselected⟩ := Option.map_eq_some_iff.mp h.select
  refine ⟨earliest, hearliest, fun row => ?_⟩
  rw [h.perm.mem_iff, ← hselected, List.mem_filter]

namespace Inbox

variable {lib : TimeLib} {fromStr : String → Option Json} {bare : List EventRow → EventRow} {late : ℕ → Bool}
variable {options : AlertQueryOptions} {events selected rows : List EventRow} {st : AlertLoop}

theorem mem_selected (h : Inbox lib bare late options events selected rows) {row : EventRow}
    (hrow : row ∈ selected) : row ∈ events ∧ row.isAlert := by
  obtain ⟨earliest, -, hmem⟩ := h.toAlertQuery.mem_iff
  obtain ⟨hevents, hmet⟩ := (hmem row).mp (h.perm.mem_iff.mpr hrow)
  simp only [EventRow.meets, Bool.and_eq_true] at hmet
  exact ⟨hevents, hmet.1.1.1.1⟩

theorem bare_mem (h : Inbox lib bare late options events selected rows) {group : List EventRow}
    (hgroup : group ∈ groupBy selected) : bare group ∈ group := by
  obtain ⟨a, ha, rfl⟩ := mem_classes.mp hgroup
  exact h.bare _ (List.ne_nil_of_mem (List.mem_filter.mpr ⟨ha, by simp⟩))

/-- The row of a bare column is one of the rows of the group. -/
theorem bare_spec (h : Inbox lib bare late options events selected rows) {row : EventRow} (hrow : row ∈ selected) :
    bare (selected.filter fun r => groupKey r = groupKey row) ∈ selected ∧
      groupKey (bare (selected.filter fun r => groupKey r = groupKey row)) = groupKey row := by
  have hmem := h.bare_mem (mem_classes.mpr ⟨row, hrow, rfl⟩)
  obtain ⟨hmem, hkey⟩ := List.mem_filter.mp hmem
  exact ⟨hmem, of_decide_eq_true hkey⟩

/-- The query is answered both ways, unless a row cannot be read. -/
theorem exists_answers (h : Inbox lib bare late options events selected rows) (hread : Readable rows) :
    ∃ st result legacy, alertLoop lib fromStr late 0 ⟨[], none, none, none⟩ rows = .ok st ∧
      alertsWithTimeout lib fromStr late rows = .ok result ∧ result.timedOut = false ∧
      alertsGroupBy lib bare events selected = .ok legacy := by
  obtain ⟨st, hst⟩ : ∃ st, alertLoop lib fromStr late 0 ⟨[], none, none, none⟩ rows = .ok st :=
    (exists_alertLoop_iff h.inTime).mpr hread
  obtain ⟨legacy, hlegacy⟩ := exists_alertsGroupBy h.rowid (fun row hrow => (h.mem_selected hrow).1)
    (fun group hgroup => h.bare_mem hgroup) (fun row hrow => (h.mem_selected hrow).2)
    fun row hrow => h.stamped row (h.mem_selected hrow).1
  obtain ⟨habort, -⟩ := alertLoop_collected h.inTime hst
  exact ⟨st, _, legacy, hst, bind_eq_ok.mpr ⟨st, hst, rfl⟩, by simp [habort], hlegacy⟩

/-- What `alerts_with_timeout` shows. -/
theorem shown_eq {result : AlertsResult} (hst : alertLoop lib fromStr late 0 ⟨[], none, none, none⟩ rows = .ok st)
    (hresult : alertsWithTimeout lib fromStr late rows = .ok result) :
    result.events.map AggAlert.shown = st.events.map fun entry => entry.2.shown := by
  obtain ⟨st', hst', hresult⟩ := bind_eq_ok.mp hresult
  obtain rfl := Except.ok.inj (hst.symm.trans hst')
  obtain rfl := Except.ok.inj hresult
  rw [List.map_map]
  rfl

/-- Rows are put into one entry exactly if their keys are equal. -/
theorem placeOf_eq_iff (h : Inbox lib bare late options events selected rows)
    (hst : alertLoop lib fromStr late 0 ⟨[], none, none, none⟩ rows = .ok st) {a b : EventRow} (ha : a ∈ rows) :
    st.placeOf a = st.placeOf b ↔ a.key = b.key :=
  findIdx?_eq_iff (((alertLoop_collected h.inTime hst).2.mem_keys a.key).mpr ⟨a, ha, rfl⟩)

theorem keysApart_iff (h : Inbox lib bare late options events selected rows) (hread : Readable rows)
    (hst : alertLoop lib fromStr late 0 ⟨[], none, none, none⟩ rows = .ok st) :
    (∀ a ∈ rows, ∀ b ∈ rows, st.placeOf a = st.placeOf b ↔ groupKey a = groupKey b) ↔ KeysApart rows := by
  constructor
  · intro hplace a ha b hb hkey
    exact (hplace a ha b hb).mp ((h.placeOf_eq_iff hst ha).mpr hkey)
  · intro hapart a ha b hb
    rw [h.placeOf_eq_iff hst ha]
    refine ⟨hapart a ha b hb, fun hgroup => ?_⟩
    obtain ⟨c, hc⟩ := hread.key a ha
    obtain ⟨c', hc'⟩ := hread.key b hb
    rw [EventRow.key_eq hc, EventRow.key_eq hc', keyColumns_eq_of_groupKey hc hc' hgroup]

/-- There are as many entries as groups, if the keys are apart. -/
theorem length_groups (h : Inbox lib bare late options events selected rows) (hapart : KeysApart rows)
    (hread : Readable rows) (hst : alertLoop lib fromStr late 0 ⟨[], none, none, none⟩ rows = .ok st) :
    (groupBy selected).length = st.events.length := by
  have hcollected := (alertLoop_collected h.inTime hst).2
  have hkey : ∀ a ∈ selected,
      (bare (selected.filter fun r => groupKey r = groupKey a)).key = a.key := by
    intro a ha
    obtain ⟨hmem, hgroup⟩ := h.bare_spec ha
    obtain ⟨c, hc⟩ := hread.key _ (h.perm.mem_iff.mpr hmem)
    obtain ⟨c', hc'⟩ := hread.key a (h.perm.mem_iff.mpr ha)
    rw [EventRow.key_eq hc, EventRow.key_eq hc', keyColumns_eq_of_groupKey hc hc' hgroup]
  have hnodup : ((groupBy selected).map fun group => (bare group).key).Nodup := by
    refine nodup_map_classes fun a ha b hb heq => ?_
    rw [hkey a ha, hkey b hb] at heq
    exact hapart a (h.perm.mem_iff.mpr ha) b (h.perm.mem_iff.mpr hb) heq
  have hperm : ((groupBy selected).map fun group => (bare group).key).Perm (st.events.map (·.1)) := by
    rw [List.perm_ext_iff_of_nodup hnodup hcollected.nodup]
    intro key
    rw [hcollected.mem_keys key, List.mem_map]
    constructor
    · rintro ⟨group, hgroup, rfl⟩
      obtain ⟨a, ha, rfl⟩ := mem_classes.mp hgroup
      exact ⟨a, h.perm.mem_iff.mpr ha, (hkey a ha).symm⟩
    · rintro ⟨a, ha, rfl⟩
      exact ⟨_, mem_classes.mpr ⟨a, h.perm.mem_iff.mp ha, rfl⟩, hkey a (h.perm.mem_iff.mp ha)⟩
  simpa using hperm.length_eq

/-- What is shown of the group of a row, if each of its rows has a signature id. -/
theorem group_shown (h : Inbox lib bare late options events selected rows) (hread : Readable rows)
    (hapart : KeysApart rows) (hcounted : ∀ row ∈ rows, row.extract ["alert", "signature_id"] ≠ .null)
    {row : EventRow} (hrow : row ∈ rows) :
    (shownColumns (bare (selected.filter fun r => groupKey r = groupKey row)).source,
      (groupRow bare (selected.filter fun r => groupKey r = groupKey row)).count) =
    (shownColumns row.source, rows.countP fun r => r.key = row.key) := by
  obtain ⟨hbare, hgroup⟩ := h.bare_spec (h.perm.mem_iff.mp hrow)
  obtain ⟨c, hc⟩ := hread.key _ (h.perm.mem_iff.mpr hbare)
  obtain ⟨c', hc'⟩ := hread.key row hrow
  refine congrArg₂ Prod.mk ?_ ?_
  · rw [keyColumns_eq_ok.mp hc, keyColumns_eq_ok.mp hc', keyColumns_eq_of_groupKey hc hc' hgroup]
  · rw [h.perm.countP_eq]
    simp only [groupRow, List.countP_filter]
    refine List.countP_congr fun r hr => ?_
    have hr := h.perm.mem_iff.mpr hr
    obtain ⟨c'', hc''⟩ := hread.key r hr
    have hkey : groupKey r = groupKey row ↔ r.key = row.key := by
      refine ⟨fun heq => ?_, hapart r hr row hrow⟩
      rw [EventRow.key_eq hc'', EventRow.key_eq hc', keyColumns_eq_of_groupKey hc'' hc' heq]
    simp [hcounted r hr, hkey]

/-- Where no signature id is missing, the entries are shown as the groups are. -/
theorem shown_perm (h : Inbox lib bare late options events selected rows) (hread : Readable rows)
    (hapart : KeysApart rows) (hcounted : ∀ row ∈ rows, row.extract ["alert", "signature_id"] ≠ .null)
    (hst : alertLoop lib fromStr late 0 ⟨[], none, none, none⟩ rows = .ok st) :
    (st.events.map fun entry => entry.2.shown).Perm
      ((groupBy selected).map fun group => (shownColumns (bare group).source, (groupRow bare group).count)) := by
  have hcollected := (alertLoop_collected h.inTime hst).2
  have hgroup : ∀ row ∈ selected, _ := fun row hrow =>
    h.group_shown hread hapart hcounted (h.perm.mem_iff.mpr hrow)
  have hnodup : ((groupBy selected).map fun group =>
      (shownColumns (bare group).source, (groupRow bare group).count)).Nodup := by
    refine nodup_map_classes fun a ha b hb heq => ?_
    rw [hgroup a ha, hgroup b hb] at heq
    obtain ⟨c, hc⟩ := hread.key a (h.perm.mem_iff.mpr ha)
    obtain ⟨c', hc'⟩ := hread.key b (h.perm.mem_iff.mpr hb)
    refine hapart a (h.perm.mem_iff.mpr ha) b (h.perm.mem_iff.mpr hb) ?_
    rw [← shownKey_eq hc, heq, shownKey_eq hc']
  rw [List.perm_ext_iff_of_nodup (nodup_shown hcollected) hnodup]
  intro shown
  rw [List.mem_map, List.mem_map]
  constructor
  · rintro ⟨⟨k, alert⟩, hentry, rfl⟩
    obtain ⟨row, hrow, rfl⟩ := hcollected.exists_of_mem hentry
    refine ⟨_, mem_classes.mpr ⟨row, h.perm.mem_iff.mp hrow, rfl⟩, ?_⟩
    rw [h.group_shown hread hapart hcounted hrow, shown_entry hcollected hread hapart hentry hrow rfl]
  · rintro ⟨group, hmem, rfl⟩
    obtain ⟨row, hrow, rfl⟩ := mem_classes.mp hmem
    obtain ⟨alert, hentry⟩ := hcollected.exists_entry (h.perm.mem_iff.mpr hrow)
    refine ⟨_, hentry, ?_⟩
    rw [hgroup row hrow, shown_entry hcollected hread hapart hentry (h.perm.mem_iff.mpr hrow) rfl]

/-- Where the same groups are shown, all groups are kept and no signature id is missing. -/
theorem kept_and_counted (h : Inbox lib bare late options events selected rows) (hread : Readable rows)
    (hapart : KeysApart rows) (hst : alertLoop lib fromStr late 0 ⟨[], none, none, none⟩ rows = .ok st)
    (hperm : (st.events.map fun entry => entry.2.shown).Perm
      (((groupBy selected).filter fun group => Kept bare group).map fun group =>
        (shownColumns (bare group).source, (groupRow bare group).count))) :
    (∀ group ∈ groupBy selected, Kept bare group) ∧
    ∀ row ∈ rows, row.extract ["alert", "signature_id"] ≠ .null := by
  have hcollected := (alertLoop_collected h.inTime hst).2
  have hkept : ∀ group ∈ groupBy selected, Kept bare group := by
    have hlength := hperm.length_eq
    rw [List.length_map, List.length_map, ← h.length_groups hapart hread hst] at hlength
    intro group hgroup
    exact of_decide_eq_true (List.length_filter_eq_length_iff.mp hlength.symm group hgroup)
  refine ⟨hkept, fun row hrow hnull => ?_⟩
  have hgroup : (selected.filter fun r => groupKey r = groupKey row) ∈ groupBy selected :=
    mem_classes.mpr ⟨row, h.perm.mem_iff.mp hrow, rfl⟩
  obtain ⟨⟨k, alert⟩, hentry, hshown⟩ := List.mem_map.mp (hperm.mem_iff.mpr
    (List.mem_map_of_mem (List.mem_filter.mpr ⟨hgroup, decide_eq_true (hkept _ hgroup)⟩)))
  obtain ⟨first, rest, c, -, hspec⟩ := exists_entryOf hcollected hentry
  have hcount : (groupRow bare (selected.filter fun r => groupKey r = groupKey row)).count ≠ 0 := by
    rw [← (Prod.mk.inj hshown).2, hspec.count]
    simp
  apply hcount
  rw [groupRow, List.countP_eq_zero]
  intro r hr
  have hnorm := (Prod.mk.inj (of_decide_eq_true (List.mem_filter.mp hr).2)).1
  rw [hnull] at hnorm
  simpa using SqlValue.eq_null_of_norm hnorm

end Inbox

/-- The two ways to the inbox agree exactly if each alert can be read and has a signature id, no two alerts with
different ids or addresses read the same when these are written one behind the other, and the bare column of
each group is that of one of its newest rows. -/
theorem alertsAgree_iff {lib : TimeLib} {fromStr : String → Option Json} {bare : List EventRow → EventRow}
    {late : ℕ → Bool} {options : AlertQueryOptions} {events selected rows : List EventRow}
    (h : Inbox lib bare late options events selected rows) :
    AlertsAgree lib fromStr bare late events selected rows ↔
      Readable rows ∧ KeysApart rows ∧ (∀ row ∈ rows, row.extract ["alert", "signature_id"] ≠ .null) ∧
      ∀ group ∈ groupBy selected, Kept bare group := by
  have hshown : ∀ {legacy}, alertsGroupBy lib bare events selected = .ok legacy → _ := fun hlegacy =>
    alertsGroupBy_shown h.rowid (fun row hrow => (h.mem_selected hrow).1) (fun group hgroup => h.bare_mem hgroup)
      hlegacy
  constructor
  · rintro ⟨st, result, legacy, hst, hresult, -, hlegacy, hplace, hperm⟩
    have hread := (exists_alertLoop_iff h.inTime).mp ⟨st, hst⟩
    have hapart := (h.keysApart_iff hread hst).mp hplace
    rw [Inbox.shown_eq hst hresult] at hperm
    obtain ⟨hkept, hcounted⟩ := h.kept_and_counted hread hapart hst (hperm.trans (hshown hlegacy))
    exact ⟨hread, hapart, hcounted, hkept⟩
  · rintro ⟨hread, hapart, hcounted, hkept⟩
    obtain ⟨st, result, legacy, hst, hresult, htimed, hlegacy⟩ := @Inbox.exists_answers _ fromStr _ _ _ _ _ _ h hread
    refine ⟨st, result, legacy, hst, hresult, htimed, hlegacy, (h.keysApart_iff hread hst).mpr hapart, ?_⟩
    rw [Inbox.shown_eq hst hresult]
    refine (h.shown_perm hread hapart hcounted hst).trans ?_
    have hall : ((groupBy selected).filter fun group => Kept bare group) = groupBy selected :=
      List.filter_eq_self.mpr fun group hgroup => decide_eq_true (hkept group hgroup)
    rw [← hall]
    exact (hshown hlegacy).symm

/-! ### A key of two alerts -/

/-- The time library, on some times of a table. -/
def tableLib (times : List (String × ℤ)) : TimeLib where
  parse text := (times.lookup (String.ofList text)).map fun nanos => ⟨nanos, 0⟩
  isDigit := Char.isDigit
  format _ dt := ((times.find? fun time => time.2 = dt.nanos / 1000 * 1000).map (·.1)).getD ""
  rfc3339Micros _ := ""
  rfc3339Millis _ := ""

/-- Two times, a second apart. -/
def sampleLib : TimeLib := tableLib [
  ("2026-06-28T12:00:00.000000+0000", 1782648000000000000),
  ("2026-06-28T12:00:01.000000+0000", 1782648001000000000)]

/-- An alert. -/
def sampleAlert (signatureId : ℤ) (srcIp destIp timestamp : String) : Json := .object [
  ("alert", .object [("action", .string "allowed"), ("severity", .number (.int 1)),
    ("signature", .string "ET SCAN"), ("signature_id", .number (.int signatureId))]),
  ("app_proto", .string "http"), ("dest_ip", .string destIp), ("event_type", .string "alert"),
  ("src_ip", .string srcIp), ("timestamp", .string timestamp)]

/-- The alert in the table. -/
def sampleRow (rowid : ℕ) (timestamp : ℤ) (source : Json) : EventRow where
  rowid
  timestamp
  archived := false
  escalated := false
  source
  sourceValues := ""
  history := []

/-- Two alerts with ids and addresses of their own. -/
def collidingRows : List EventRow := [
  sampleRow 2 1782648001000000000 (sampleAlert 11 "2.0.0.1" "10.0.0.9" "2026-06-28T12:00:01.000000+0000"),
  sampleRow 1 1782648000000000000 (sampleAlert 1 "12.0.0.1" "10.0.0.9" "2026-06-28T12:00:00.000000+0000")]

/-- The inbox without conditions. -/
def allAlerts : AlertQueryOptions := ⟨none, fun _ => true, [], none⟩

/-- The first row of a group. -/
def firstRow (group : List EventRow) : EventRow := group.headD (sampleRow 0 0 .null)

theorem firstRow_mem (group : List EventRow) (h : group ≠ []) : firstRow group ∈ group := by
  cases group with
  | nil => exact absurd rfl h
  | cons row rest => exact List.mem_cons_self

theorem collidingRows_inbox :
    Inbox sampleLib firstRow (fun _ => false) allAlerts collidingRows collidingRows collidingRows where
  select := by decide +kernel
  perm := .refl _
  newest := by decide +kernel
  inTime := fun _ _ => rfl
  rowid := by decide +kernel
  bare := firstRow_mem
  stamped := by
    have hall : ∀ row ∈ collidingRows, (datetime sampleLib row.source).isSome := by decide +kernel
    exact hall

/-- Two alerts that differ in id and source address are counted as one group by `alerts_with_timeout` and as two
by `alerts_group_by`: `1` and `12.0.0.1` read as `11` and `2.0.0.1` do. -/
theorem collidingRows_disagree :
    (∃ result legacy, alertsWithTimeout sampleLib (fun _ => none) (fun _ => false) collidingRows = .ok result ∧
      alertsGroupBy sampleLib firstRow collidingRows collidingRows = .ok legacy ∧
      result.events.map AggAlert.shown = [((some 11, some "2.0.0.1", some "10.0.0.9"), 2)] ∧
      legacy.events.map AggAlert.shown = [((some 11, some "2.0.0.1", some "10.0.0.9"), 1),
        ((some 1, some "12.0.0.1", some "10.0.0.9"), 1)]) ∧
    ¬ AlertsAgree sampleLib (fun _ => none) firstRow (fun _ => false) collidingRows collidingRows collidingRows := by
  have hresult : (alertsWithTimeout sampleLib (fun _ => none) (fun _ => false) collidingRows).map
      (·.events.map AggAlert.shown) = .ok [((some 11, some "2.0.0.1", some "10.0.0.9"), 2)] := by
    decide +kernel
  have hlegacy : (alertsGroupBy sampleLib firstRow collidingRows collidingRows).map
      (·.events.map AggAlert.shown) = .ok [((some 11, some "2.0.0.1", some "10.0.0.9"), 1),
        ((some 1, some "12.0.0.1", some "10.0.0.9"), 1)] := by
    decide +kernel
  constructor
  · cases hr : alertsWithTimeout sampleLib (fun _ => none) (fun _ => false) collidingRows with
    | error err =>
        rw [hr] at hresult
        cases hresult
    | ok result =>
        cases hl : alertsGroupBy sampleLib firstRow collidingRows collidingRows with
        | error err =>
            rw [hl] at hlegacy
            cases hlegacy
        | ok legacy =>
            rw [hr] at hresult
            rw [hl] at hlegacy
            exact ⟨result, legacy, rfl, rfl, Except.ok.inj hresult, Except.ok.inj hlegacy⟩
  · rintro ⟨st, result, legacy, hst, -, -, -, hplace, -⟩
    have hread := (exists_alertLoop_iff collidingRows_inbox.inTime).mp ⟨st, hst⟩
    have hapart := (collidingRows_inbox.keysApart_iff hread hst).mp hplace
    revert hapart
    unfold KeysApart
    decide +kernel

theorem alertsAgree_iff_collidingRows :
    AlertsAgree sampleLib (fun _ => none) firstRow (fun _ => false) collidingRows collidingRows collidingRows ↔
      Readable collidingRows ∧ KeysApart collidingRows ∧
      (∀ row ∈ collidingRows, row.extract ["alert", "signature_id"] ≠ .null) ∧
      ∀ group ∈ groupBy collidingRows, Kept firstRow group :=
  alertsAgree_iff collidingRows_inbox

end EveBox.Sqlite
