import EveBox.Sqlite.AlertGroup
import EveBox.Sqlite.AlertsTheorems
import Mathlib.Data.List.Pairwise

/-!
# Archiving a group of the inbox

The request that a group of the inbox makes of itself names its id, its addresses and the ends of its time range
as they are written out. It archives the alerts that were counted if these agree with it, and if the range that is
read back has the newest of them in it.
-/

namespace EveBox.Sqlite

open Rust Eve Grouping Repo

/-! ## Conditions on decoded values -/

namespace SqlValue

variable {value : SqlValue}

theorem eq_int_iff {n m : ℕ} (h : value.getU64 = some n) : value.eq (.int m) = true ↔ value ≠ null ∧ n = m := by
  cases value with
  | null => simp [eq]
  | int k =>
      rw [getU64, u64TryFrom] at h
      by_cases hk : 0 ≤ k ∧ k ≤ u64Max
      · rw [if_pos hk] at h
        obtain rfl := Option.some.inj h
        simp only [eq, decide_eq_true_eq, ne_eq, reduceCtorEq, not_false_eq_true, true_and]
        omega
      · rw [if_neg hk] at h
        cases h
  | real q => cases h
  | text s => cases h

theorem isAddress_iff {s ip : String} (h : value.getString = some s) : value.isAddress ip = true ↔ s = ip := by
  cases value with
  | null =>
      obtain rfl := Option.some.inj h
      by_cases hip : ip = "" <;> simp [isAddress, eq, hip, eq_comm]
  | int k => cases h
  | real q => cases h
  | text s' =>
      obtain rfl := Option.some.inj h
      by_cases hip : ip = "" <;> simp [isAddress, eq, hip]

end SqlValue

/-- The id and the addresses of a row are those of a group, as `archive_by_alert_group` asks for them. -/
def EventRow.InGroup (row : EventRow) (c : KeyColumns) : Prop :=
  (row.extract ["alert", "signature_id"]).eq (.int c.signatureId) ∧
  (row.extract ["src_ip"]).isAddress c.srcIp ∧ (row.extract ["dest_ip"]).isAddress c.destIp

/-- A row that decodes is in a group exactly if it has its columns and has a signature id. -/
theorem inGroup_iff {row : EventRow} {c c' : KeyColumns} (h : keyColumns row = .ok c) :
    row.InGroup c' ↔ row.extract ["alert", "signature_id"] ≠ .null ∧ c = c' := by
  obtain ⟨hid, hsrc, hdest⟩ := keyColumns_decode h
  rw [EventRow.InGroup, SqlValue.eq_int_iff hid, SqlValue.isAddress_iff hsrc, SqlValue.isAddress_iff hdest]
  obtain ⟨id, src, dest⟩ := c
  obtain ⟨id', src', dest'⟩ := c'
  rw [KeyColumns.mk.injEq]
  exact and_assoc

/-! ## The request of a group -/

/-- The inbox: the events that are not archived, from a time on if one is given. -/
def inboxOptions (timestampGte : Option DateTime) : AlertQueryOptions :=
  ⟨timestampGte, fun _ => true, ["-evebox.archived"], none⟩

/-- The request that archives a group, made of what is shown of it. -/
def AggAlert.groupSpec (lib : TimeLib) (alert : AggAlert) : AlertGroupSpec where
  signatureId := (alert.source.getPath ["alert", "signature_id"]).asU64.getD 0
  srcIp := (alert.source.getPath ["src_ip"]).asStr
  destIp := (alert.source.getPath ["dest_ip"]).asStr
  sensor := none
  dnsRrname := none
  tlsSni := none
  minTimestamp := alert.metadata.minTimestamp.toEve lib
  maxTimestamp := alert.metadata.maxTimestamp.toEve lib

/-- The microsecond that a time in nanoseconds is in. -/
def floorMicros (nanos : ℤ) : ℤ := nanos / 1000 * 1000

/-- Archiving the group archives the rows that were counted in it, and no others. -/
def ArchivesCounted (lib : TimeLib) (now : DateTime) (store : Store) (rows : List EventRow) (key : String)
    (alert : AggAlert) : Prop :=
  ∃ n store', archiveByAlertGroup lib now store (alert.groupSpec lib) = some (.ok (n, store')) ∧
    n = alert.metadata.count ∧
    store'.events = store.events.map fun row =>
      if row ∈ rows ∧ row.key = key then row.archive (historyEntry lib .archived now none) else row

/-- What makes a group one that archives what was counted. -/
structure Archivable (timestampGte : Option DateTime) (events rows : List EventRow) (key : String) : Prop where
  /-- The rows have a signature id, and one id and one pair of addresses. -/
  uniform : ∀ a ∈ rows, a.key = key → ∀ b ∈ rows, b.key = key →
    a.extract ["alert", "signature_id"] ≠ .null ∧ keyColumns a = keyColumns b
  /-- The newest rows are at a whole microsecond. -/
  whole : ∀ a ∈ rows, a.key = key → (∀ b ∈ rows, b.key = key → b.timestamp ≤ a.timestamp) →
    floorMicros a.timestamp = a.timestamp
  /-- The microsecond of each row begins within the range of `i64`. -/
  inRange : ∀ a ∈ rows, a.key = key → -2 ^ 63 ≤ floorMicros a.timestamp
  /-- No alert of the group was left out for its time, and is in the microsecond of one that was not. -/
  bounded : ∀ a ∈ rows, a.key = key → ∀ c, keyColumns a = .ok c → ∀ b ∈ events, b.isAlert → b.archived = false →
    b.InGroup c → floorMicros a.timestamp ≤ b.timestamp → timestampGte.all (·.nanos ≤ b.timestamp)

/-- The times of these rows are those of the database, and are written out to the microsecond. -/
structure Times (lib : TimeLib) (rows : List EventRow) : Prop where
  below : ∀ row ∈ rows, row.timestamp < 2 ^ 63
  parse : ∀ row ∈ rows, ∃ offset,
    parseDateTime lib ((DateTime.fromNanos row.timestamp).toEve lib) none = some ⟨floorMicros row.timestamp, offset⟩

theorem floorMicros_le (nanos : ℤ) : floorMicros nanos ≤ nanos := by
  unfold floorMicros
  omega

theorem floorMicros_mono {a b : ℤ} (h : a ≤ b) : floorMicros a ≤ floorMicros b := by
  unfold floorMicros
  omega

section

variable {lib : TimeLib} {now : DateTime} {fromStr : String → Option Json} {store : Store}
variable {rows : List EventRow} {key : String} {alert : AggAlert} {first : EventRow} {rest : List EventRow}
variable {c : KeyColumns}

/-- The newest and the oldest row of a group are the ends of its list. -/
theorem ends_of_newest (hnewest : rows.Pairwise fun a b => b.timestamp ≤ a.timestamp)
    (hfilter : (rows.filter fun r => r.key = key) = first :: rest) :
    (∀ r, r ∈ rows → r.key = key → (rest.getLastD first).timestamp ≤ r.timestamp ∧ r.timestamp ≤ first.timestamp) ∧
    (first ∈ rows ∧ first.key = key) ∧ rest.getLastD first ∈ rows ∧ (rest.getLastD first).key = key := by
  have hmem : ∀ r, r ∈ first :: rest ↔ r ∈ rows ∧ r.key = key := by
    intro r
    rw [← hfilter, List.mem_filter, decide_eq_true_eq]
  have hsorted : (first :: rest).Pairwise fun a b => b.timestamp ≤ a.timestamp := by
    rw [← hfilter]
    exact hnewest.filter _
  have hlast : rest.getLastD first = (first :: rest).getLast (List.cons_ne_nil _ _) := by
    rw [List.getLast_eq_getLastD]
  refine ⟨fun r hr hkey => ?_, (hmem first).mp List.mem_cons_self, (hmem _).mp (hlast ▸ List.getLast_mem _)⟩
  have hr := (hmem r).mpr ⟨hr, hkey⟩
  constructor
  · rw [hlast]
    have : Std.Refl fun a b : EventRow => b.timestamp ≤ a.timestamp := ⟨fun a => le_refl _⟩
    exact hsorted.rel_getLast hr
  · rcases List.eq_or_mem_of_mem_cons hr with rfl | hr'
    · exact le_refl _
    · exact List.rel_of_pairwise_cons hsorted hr'

/-- The request of an entry. -/
theorem EntryOf.groupSpec_eq (h : EntryOf alert first rest c) : alert.groupSpec lib = {
    signatureId := c.signatureId, srcIp := some c.srcIp, destIp := some c.destIp
    sensor := none, dnsRrname := none, tlsSni := none
    minTimestamp := (DateTime.fromNanos (rest.getLastD first).timestamp).toEve lib
    maxTimestamp := (DateTime.fromNanos first.timestamp).toEve lib } := by
  have hlt := keyColumns_signatureId_lt h.columns
  have hid : u64TryFrom c.signatureId = some c.signatureId := by
    unfold u64TryFrom u64Max
    rw [if_pos (by omega), Int.toNat_natCast]
  rw [AggAlert.groupSpec, h.signatureId, h.srcIp, h.destIp, h.minTimestamp, h.maxTimestamp]
  simp [Json.asU64, Json.asStr, hid]

/-- The range of that request, if its first microsecond begins within the range of `i64`. -/
theorem EntryOf.timeRange_eq (h : EntryOf alert first rest c) (htimes : Times lib rows) (hfirst : first ∈ rows)
    (hlast : rest.getLastD first ∈ rows) (hle : (rest.getLastD first).timestamp ≤ first.timestamp) :
    timeRange lib (alert.groupSpec lib) =
      if -2 ^ 63 ≤ floorMicros (rest.getLastD first).timestamp then
        some (.ok (floorMicros (rest.getLastD first).timestamp, floorMicros first.timestamp))
      else none := by
  obtain ⟨offset, hmax⟩ := htimes.parse first hfirst
  obtain ⟨offset', hmin⟩ := htimes.parse _ hlast
  have hbelow := htimes.below first hfirst
  have hbelow' := htimes.below _ hlast
  have hfloor := floorMicros_le first.timestamp
  have hfloor' := floorMicros_le (rest.getLastD first).timestamp
  have hmono := floorMicros_mono hle
  rw [h.groupSpec_eq, timeRange, hmin]
  dsimp only
  rw [DateTime.toNanos]
  dsimp only
  by_cases hrange : -2 ^ 63 ≤ floorMicros (rest.getLastD first).timestamp
  · rw [if_pos ⟨hrange, by omega⟩, if_pos hrange, Option.bind_some, hmax]
    dsimp only
    rw [DateTime.toNanos, if_pos ⟨by dsimp only; omega, by dsimp only; omega⟩]
    rfl
  · rw [if_neg fun hboth => hrange hboth.1, if_neg hrange]
    rfl

/-- What the request selects. -/
theorem EntryOf.archiveSelects_iff (h : EntryOf alert first rest c) (range : ℤ × ℤ) (row : EventRow) :
    row.archiveSelects (alert.groupSpec lib) range ↔
      row.isAlert ∧ row.archived = false ∧ row.InGroup c ∧ range.1 ≤ row.timestamp ∧ row.timestamp ≤ range.2 := by
  rw [h.groupSpec_eq, EventRow.archiveSelects, EventRow.InGroup, asI64_of_lt (keyColumns_signatureId_lt h.columns)]
  simp only [Bool.and_eq_true, Bool.not_eq_true', Option.all_none, Option.getD_some, decide_eq_true_eq]
  tauto

/-- Whether a group archives what was counted is whether its request can be made and selects what was counted. -/
theorem EntryOf.archives_iff (h : EntryOf alert first rest c) (htimes : Times lib rows)
    (hnewest : rows.Pairwise fun a b => b.timestamp ≤ a.timestamp)
    (hfilter : (rows.filter fun r => r.key = key) = first :: rest)
    (hcount : (store.events.countP fun row => decide (row ∈ rows ∧ row.key = key)) = (first :: rest).length) :
    ArchivesCounted lib now store rows key alert ↔
      -2 ^ 63 ≤ floorMicros (rest.getLastD first).timestamp ∧
      ∀ row ∈ store.events,
        (row.isAlert ∧ row.archived = false ∧ row.InGroup c ∧
          floorMicros (rest.getLastD first).timestamp ≤ row.timestamp ∧ row.timestamp ≤ floorMicros first.timestamp) ↔
        row ∈ rows ∧ row.key = key := by
  obtain ⟨hends, ⟨hfirst, hkey⟩, hlast, -⟩ := ends_of_newest hnewest hfilter
  have hrange := h.timeRange_eq htimes hfirst hlast (hends first hfirst hkey).1
  have hselect : ∀ row ∈ store.events, _ := fun row _ =>
    @EntryOf.archiveSelects_iff lib _ _ _ _ h
      (floorMicros (rest.getLastD first).timestamp, floorMicros first.timestamp) row
  unfold ArchivesCounted archiveByAlertGroup
  rw [hrange]
  by_cases hle : -2 ^ 63 ≤ floorMicros (rest.getLastD first).timestamp
  · rw [if_pos hle]
    constructor
    · rintro ⟨n, store', hrun, -, hstore⟩
      obtain ⟨rfl, rfl⟩ := Prod.mk.inj (Except.ok.inj (Option.some.inj hrun))
      have hsame := (update_events_eq_iff fun row => row.archive_ne _).mp hstore
      exact ⟨hle, fun row hrow => (hselect row hrow).symm.trans (hsame row hrow)⟩
    · rintro ⟨-, hsame⟩
      have hsame : ∀ row ∈ store.events, _ := fun row hrow => (hselect row hrow).trans (hsame row hrow)
      refine ⟨_, _, rfl, ?_, (update_events_eq_iff fun row => row.archive_ne _).mpr hsame⟩
      rw [h.count, ← hcount]
      exact List.countP_congr fun row hrow => (hsame row hrow).trans decide_eq_true_iff.symm
  · rw [if_neg hle]
    constructor
    · rintro ⟨n, store', hrun, -⟩
      cases hrun
    · rintro ⟨habove, -⟩
      exact absurd habove hle

end

/-! ## Every group of the inbox -/

theorem earliest_all {timestampGte : Option DateTime} {earliest : Option ℤ}
    (h : earliestNanos timestampGte = some earliest) (t : ℤ) :
    earliest.all (· ≤ t) = timestampGte.all (·.nanos ≤ t) := by
  cases timestampGte with
  | none =>
      obtain rfl := Option.some.inj h
      rfl
  | some ts =>
      obtain ⟨nanos, hnanos, rfl⟩ := Option.map_eq_some_iff.mp h
      rw [DateTime.toNanos] at hnanos
      split at hnanos
      · obtain rfl := Option.some.inj hnanos
        rfl
      · cases hnanos

section

variable {lib : TimeLib} {fromStr : String → Option Json} {late : ℕ → Bool} {timestampGte : Option DateTime}
variable {store : Store} {selected rows : List EventRow} {st : AlertLoop} {key : String} {alert : AggAlert}

/-- The rows of the inbox. -/
theorem mem_inbox_iff (h : AlertQuery late (inboxOptions timestampGte) store.events selected rows) (row : EventRow) :
    row ∈ rows ↔ row ∈ store.events ∧ row.isAlert ∧ row.archived = false ∧
      timestampGte.all (·.nanos ≤ row.timestamp) := by
  obtain ⟨earliest, hearliest, hmem⟩ := h.mem_iff
  have hearliest : earliestNanos timestampGte = some earliest := hearliest
  rw [hmem row, ← earliest_all hearliest row.timestamp]
  simp [inboxOptions, EventRow.meets, EventRow.hasTag, EventRow.hasSensor, and_assoc]

theorem countP_inbox (h : AlertQuery late (inboxOptions timestampGte) store.events selected rows) (key : String) :
    (store.events.countP fun row => decide (row ∈ rows ∧ row.key = key)) =
      (rows.filter fun r => r.key = key).length := by
  obtain ⟨earliest, hearliest, hselected⟩ := Option.map_eq_some_iff.mp h.select
  rw [← List.countP_eq_length_filter, h.perm.countP_eq, ← hselected, List.countP_filter]
  refine List.countP_congr fun row hrow => ?_
  have hmem : row ∈ rows ↔ row.meets (inboxOptions timestampGte) earliest = true := by
    rw [h.perm.mem_iff, ← hselected, List.mem_filter]
    exact and_iff_right hrow
  simp [hmem, and_comm]

/-- A group of the inbox archives exactly the alerts that were counted in it, if and only if these have one
signature id and one pair of addresses, the newest of them are at a whole microsecond, its oldest microsecond begins
within the range of `i64`, and no alert of the group from that microsecond was left out. -/
theorem archivesCounted_iff (now : DateTime)
    (h : AlertQuery late (inboxOptions timestampGte) store.events selected rows) (htimes : Times lib rows)
    (hst : alertLoop lib fromStr late 0 ⟨[], none, none, none⟩ rows = .ok st) (hentry : (key, alert) ∈ st.events) :
    ArchivesCounted lib now store rows key alert ↔ Archivable timestampGte store.events rows key := by
  have hread := (exists_alertLoop_iff h.inTime).mp ⟨st, hst⟩
  obtain ⟨first, rest, c, hfilter, hgroup⟩ := exists_entryOf (alertLoop_collected h.inTime hst).2 hentry
  obtain ⟨hends, ⟨hfirst, hfirstKey⟩, hlast, hlastKey⟩ := ends_of_newest h.newest hfilter
  rw [hgroup.archives_iff htimes h.newest hfilter ((countP_inbox h key).trans (congrArg _ hfilter))]
  constructor
  · rintro ⟨hrange, hsame⟩
    have hin : ∀ row ∈ rows, row.key = key → row.InGroup c ∧ row.timestamp ≤ floorMicros first.timestamp := by
      intro row hrow hkey
      obtain ⟨-, -, hgroup, -, hle⟩ := (hsame row ((mem_inbox_iff h row).mp hrow).1).mpr ⟨hrow, hkey⟩
      exact ⟨hgroup, hle⟩
    have hcolumns : ∀ row ∈ rows, row.key = key →
        row.extract ["alert", "signature_id"] ≠ .null ∧ keyColumns row = .ok c := by
      intro row hrow hkey
      obtain ⟨c', hc'⟩ := hread.key row hrow
      obtain ⟨hid, rfl⟩ := (inGroup_iff hc').mp (hin row hrow hkey).1
      exact ⟨hid, hc'⟩
    have hwhole : floorMicros first.timestamp = first.timestamp :=
      le_antisymm (floorMicros_le _) (hin first hfirst hfirstKey).2
    refine ⟨?_, ?_, ?_, ?_⟩
    · intro a ha hka b hb hkb
      exact ⟨(hcolumns a ha hka).1, (hcolumns a ha hka).2.trans (hcolumns b hb hkb).2.symm⟩
    · intro a ha hka hmax
      have heq : a.timestamp = first.timestamp := le_antisymm (hends a ha hka).2 (hmax first hfirst hfirstKey)
      rw [heq, hwhole]
    · intro a ha hka
      exact le_trans hrange (floorMicros_mono (hends a ha hka).1)
    · intro a ha hka c' hc' b hb halert harchived hb' hle
      obtain rfl := Except.ok.inj ((hcolumns a ha hka).2.symm.trans hc')
      have hlow := le_trans (floorMicros_mono (hends a ha hka).1) hle
      by_cases hhigh : b.timestamp ≤ floorMicros first.timestamp
      · have hb := ((hsame b hb).mp ⟨halert, harchived, hb', hlow, hhigh⟩).1
        exact ((mem_inbox_iff h b).mp hb).2.2.2
      · -- newer than the newest row that was counted
        have hgte := ((mem_inbox_iff h first).mp hfirst).2.2.2
        simp only [Option.all_eq_true, decide_eq_true_eq] at hgte ⊢
        intro ts hts
        have := hgte ts hts
        omega
  · intro hcond
    have hwhole : floorMicros first.timestamp = first.timestamp :=
      hcond.whole first hfirst hfirstKey fun b hb hkb => (hends b hb hkb).2
    refine ⟨hcond.inRange _ hlast hlastKey, fun row hrow => ?_⟩
    constructor
    · rintro ⟨halert, harchived, hin, hlow, -⟩
      have hlastColumns := (hcond.uniform _ hlast hlastKey first hfirst hfirstKey).2.trans hgroup.columns
      have hgte := hcond.bounded _ hlast hlastKey c hlastColumns row hrow halert harchived hin hlow
      have hmem := (mem_inbox_iff h row).mpr ⟨hrow, halert, harchived, hgte⟩
      obtain ⟨c', hc'⟩ := hread.key row hmem
      obtain ⟨-, rfl⟩ := (inGroup_iff hc').mp hin
      rw [EventRow.key_eq hc', ← EventRow.key_eq hgroup.columns]
      exact ⟨hmem, hfirstKey⟩
    · rintro ⟨hmem, hkey⟩
      obtain ⟨-, halert, harchived, -⟩ := (mem_inbox_iff h row).mp hmem
      obtain ⟨hid, hcolumns⟩ := hcond.uniform row hmem hkey first hfirst hfirstKey
      have hc' := hcolumns.trans hgroup.columns
      refine ⟨halert, harchived, (inGroup_iff hc').mpr ⟨hid, rfl⟩, ?_, ?_⟩
      · exact le_trans (floorMicros_le _) (hends row hmem hkey).1
      · rw [hwhole]
        exact (hends row hmem hkey).2

end

/-! ### Groups that archive something else -/

/-- The time of the requests. -/
def sampleNow : DateTime := ⟨1782648001000000000, 0⟩

/-- An alert between two microseconds. -/
def nanoRows : List EventRow := [
  sampleRow 1 1782648000000000500 (sampleAlert 1 "12.0.0.1" "10.0.0.9" "2026-06-28T12:00:00.000000+0000")]

theorem collidingRows_query :
    AlertQuery (fun _ => false) (inboxOptions none) collidingRows collidingRows collidingRows where
  select := by decide +kernel
  perm := .refl _
  newest := by decide +kernel
  inTime := fun _ _ => rfl

theorem nanoRows_query : AlertQuery (fun _ => false) (inboxOptions none) nanoRows nanoRows nanoRows where
  select := by decide +kernel
  perm := .refl _
  newest := by decide +kernel
  inTime := fun _ _ => rfl

theorem collidingRows_times : Times sampleLib collidingRows where
  below := by decide +kernel
  parse := by
    have hall : ∀ row ∈ collidingRows, parseDateTime sampleLib ((DateTime.fromNanos row.timestamp).toEve sampleLib)
        none = some ⟨floorMicros row.timestamp, 0⟩ := by decide +kernel
    exact fun row hrow => ⟨0, hall row hrow⟩

theorem not_archivesCounted {lib : TimeLib} {now : DateTime} {store : Store} {rows : List EventRow} {key : String}
    {alert : AggAlert} {n : ℕ}
    (h : (archiveByAlertGroup lib now store (alert.groupSpec lib)).map (·.map (·.1)) = some (.ok n))
    (hn : n ≠ alert.metadata.count) : ¬ ArchivesCounted lib now store rows key alert := by
  rintro ⟨n', store', hrun, rfl, -⟩
  rw [hrun] at h
  exact hn (Except.ok.inj (Option.some.inj h)).symm

/-- What the one group of some rows counts, and what it archives. -/
def countedAndArchived (rows : List EventRow) : Except AlertsError (List (String × ℕ × Option (Except AlertsError ℕ))) :=
  (alertLoop sampleLib (fun _ => none) (fun _ => false) 0 ⟨[], none, none, none⟩ rows).map fun st =>
    st.events.map fun entry => (entry.1, entry.2.metadata.count,
      (archiveByAlertGroup sampleLib sampleNow ⟨rows, none⟩ (entry.2.groupSpec sampleLib)).map (·.map (·.1)))

theorem exists_not_archivesCounted {rows : List EventRow} {key : String} {count n : ℕ}
    (h : countedAndArchived rows = .ok [(key, count, some (.ok n))]) (hn : n ≠ count) : ∃ st alert,
      alertLoop sampleLib (fun _ => none) (fun _ => false) 0 ⟨[], none, none, none⟩ rows = .ok st ∧
      (key, alert) ∈ st.events ∧ ¬ ArchivesCounted sampleLib sampleNow ⟨rows, none⟩ rows key alert := by
  unfold countedAndArchived at h
  cases hst : alertLoop sampleLib (fun _ => none) (fun _ => false) 0 ⟨[], none, none, none⟩ rows with
  | error err =>
      rw [hst] at h
      cases h
  | ok st =>
      rw [hst] at h
      have hevents := Except.ok.inj h
      obtain ⟨⟨k, alert⟩, hentry⟩ : ∃ entry, st.events = [entry] :=
        List.length_eq_one_iff.mp (by simpa using congrArg List.length hevents)
      simp only [hentry, List.map_singleton] at hevents
      obtain ⟨rfl, rfl, harchived⟩ := by simpa only [List.cons.injEq, Prod.mk.injEq, and_true] using hevents
      exact ⟨st, alert, rfl, by rw [hentry]; exact List.mem_singleton_self _, not_archivesCounted harchived hn⟩

/-- The group of two alerts whose keys read the same counts two and archives one; an alert between two microseconds
is not archived at all. -/
theorem groups_archive_less :
    (AlertQuery (fun _ => false) (inboxOptions none) collidingRows collidingRows collidingRows ∧ ∃ st alert,
      alertLoop sampleLib (fun _ => none) (fun _ => false) 0 ⟨[], none, none, none⟩ collidingRows = .ok st ∧
      ("112.0.0.110.0.0.9", alert) ∈ st.events ∧
      ¬ ArchivesCounted sampleLib sampleNow ⟨collidingRows, none⟩ collidingRows "112.0.0.110.0.0.9" alert) ∧
    AlertQuery (fun _ => false) (inboxOptions none) nanoRows nanoRows nanoRows ∧ ∃ st alert,
      alertLoop sampleLib (fun _ => none) (fun _ => false) 0 ⟨[], none, none, none⟩ nanoRows = .ok st ∧
      ("112.0.0.110.0.0.9", alert) ∈ st.events ∧
      ¬ ArchivesCounted sampleLib sampleNow ⟨nanoRows, none⟩ nanoRows "112.0.0.110.0.0.9" alert := by
  have hcolliding : countedAndArchived collidingRows = .ok [("112.0.0.110.0.0.9", 2, some (.ok 1))] := by
    decide +kernel
  have hnano : countedAndArchived nanoRows = .ok [("112.0.0.110.0.0.9", 1, some (.ok 0))] := by
    decide +kernel
  exact ⟨⟨collidingRows_query, exists_not_archivesCounted hcolliding (by decide)⟩,
    nanoRows_query, exists_not_archivesCounted hnano (by decide)⟩

theorem archivesCounted_iff_collidingRows : ∃ st alert,
    alertLoop sampleLib (fun _ => none) (fun _ => false) 0 ⟨[], none, none, none⟩ collidingRows = .ok st ∧
    ("112.0.0.110.0.0.9", alert) ∈ st.events ∧
    (ArchivesCounted sampleLib sampleNow ⟨collidingRows, none⟩ collidingRows "112.0.0.110.0.0.9" alert ↔
      Archivable none collidingRows collidingRows "112.0.0.110.0.0.9") := by
  obtain ⟨st, alert, hst, hentry, -⟩ := exists_not_archivesCounted
    (show countedAndArchived collidingRows = .ok [("112.0.0.110.0.0.9", 2, some (.ok 1))] by decide +kernel)
    (by decide)
  exact ⟨st, alert, hst, hentry, @archivesCounted_iff _ _ _ _ ⟨collidingRows, none⟩ _ _ _ _ _ sampleNow
    collidingRows_query collidingRows_times hst hentry⟩

end EveBox.Sqlite
