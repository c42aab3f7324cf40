import EveBox.Sqlite.AlertsTheorems

/-!
# The inbox over SQLite: rows and bounds

Reference: `src/sqlite/eventrepo/alerts.rs`.

Where the time is up, the loop goes on to the end of the second that it is in. What it answers is what it would
answer in time, from the rows before.

* `alertsWithTimeout_rows` — the rows that count are those from a second on.
-/

namespace EveBox.Sqlite

open Rust Eve Grouping

/-! ## Where the loop ends -/

/-- Rows in descending order of time. -/
abbrev Newest (rows : List EventRow) : Prop := rows.Pairwise fun a b => b.timestamp ≤ a.timestamp

theorem startOfSecond_le (nanos : ℤ) : startOfSecond nanos ≤ nanos := by
  unfold startOfSecond
  omega

/-- A whole second. -/
theorem startOfSecond_emod (nanos : ℤ) : startOfSecond nanos % 1000000000 = 0 := by
  unfold startOfSecond
  omega

/-- The times of a second all have its start. -/
theorem startOfSecond_eq {a b : ℤ} (hle : b ≤ a) (hstart : startOfSecond a ≤ b) : startOfSecond b = startOfSecond a := by
  unfold startOfSecond at *
  omega

section

variable {lib : TimeLib} {fromStr : String → Option Json} {late : ℕ → Bool} {rows : List EventRow}
variable {count : ℕ} {st st' : AlertLoop}

/-- What two loops have in common if only one of them is late. -/
structure AlertLoop.Same (st st' : AlertLoop) : Prop where
  events : st.events = st'.events
  minTimestamp : st.minTimestamp = st'.minTimestamp
  maxTimestamp : st.maxTimestamp = st'.maxTimestamp

/-- A loop that is late does to the rows of its second what a loop in time does. -/
theorem alertLoop_late {s : ℤ} {loop : AlertLoop} (hsame : st.Same loop) (hst : st.abortAt = some s)
    (hloop : loop.abortAt = none) (hnewest : Newest rows) (hsecond : ∀ row ∈ rows, startOfSecond row.timestamp ≤ s)
    (hs : s % 1000000000 = 0) (h : alertLoop lib fromStr late count st rows = .ok st') :
    ∃ loop', alertLoop lib fromStr (fun _ => false) count loop (rows.filter (s ≤ ·.timestamp)) = .ok loop' ∧
      st'.Same loop' := by
  induction rows generalizing count st loop with
  | nil =>
      obtain rfl := Except.ok.inj h
      exact ⟨loop, rfl, hsame⟩
  | cons row rows ih =>
      obtain ⟨c, hc, h⟩ := bind_eq_ok.mp h
      rw [show st.abortAt.any (row.timestamp < ·) = decide (row.timestamp < s) by rw [hst]; rfl] at h
      by_cases hrow : s ≤ row.timestamp
      · rw [if_neg (by simpa using hrow)] at h
        obtain ⟨events, hput, h⟩ := bind_eq_ok.mp h
        have hstart : startOfSecond row.timestamp = s := by
          have hle := hsecond row (by simp)
          unfold startOfSecond at hle ⊢
          omega
        have habort : (if late count then some (startOfSecond row.timestamp) else some s) = some s := by
          rw [hstart, ite_self]
        rw [List.filter_cons_of_pos (by simpa using hrow)]
        have hput' : putAlert lib fromStr loop.events row c = .ok events := by rw [← hsame.events, hput]
        have hnext : AlertLoop.Same
            ⟨events, if late count then some (startOfSecond row.timestamp) else some s, some row.timestamp,
              some (st.maxTimestamp.getD row.timestamp)⟩
            ⟨events, none, some row.timestamp, some (loop.maxTimestamp.getD row.timestamp)⟩ :=
          ⟨rfl, rfl, by rw [hsame.maxTimestamp]⟩
        rw [hst] at h
        obtain ⟨loop', hrun, hsame'⟩ := ih hnext habort rfl hnewest.of_cons
          (fun r hr => hsecond r (List.mem_cons_of_mem _ hr)) h
        refine ⟨loop', ?_, hsame'⟩
        rw [alertLoop, hloop]
        refine bind_eq_ok.mpr ⟨c, hc, ?_⟩
        rw [Option.any_none, if_neg Bool.false_ne_true]
        exact bind_eq_ok.mpr ⟨events, hput', hrun⟩
      · -- all rows that are left are of the time before
        rw [if_pos (by simpa using hrow)] at h
        obtain rfl := Except.ok.inj h
        have hnil : (row :: rows).filter (s ≤ ·.timestamp) = [] := by
          rw [List.filter_eq_nil_iff]
          intro r hr
          have hle : r.timestamp ≤ row.timestamp := by
            rcases List.mem_cons.mp hr with rfl | hr
            · exact le_refl _
            · exact (List.pairwise_cons.mp hnewest).1 r hr
          simp only [decide_eq_true_eq]
          omega
        rw [hnil]
        exact ⟨loop, rfl, hsame⟩

/-- Until it is late, a loop does what a loop in time does; then it goes on to the end of the second. -/
theorem alertLoop_rows (hst : st.abortAt = none) (hnewest : Newest rows)
    (h : alertLoop lib fromStr late count st rows = .ok st') : ∃ done loop,
    ((done = rows ∧ ∀ i < rows.length, late (count + i) = false) ∨
      ∃ i, ∃ hi : i < rows.length, (late (count + i) = true ∧ ∀ j < i, late (count + j) = false) ∧
        done = rows.filter (startOfSecond rows[i].timestamp ≤ ·.timestamp)) ∧
      alertLoop lib fromStr (fun _ => false) count st done = .ok loop ∧ st'.Same loop := by
  induction rows generalizing count st with
  | nil =>
      obtain rfl := Except.ok.inj h
      exact ⟨[], st, .inl ⟨rfl, by simp⟩, rfl, ⟨rfl, rfl, rfl⟩⟩
  | cons row rows ih =>
      obtain ⟨c, hc, h⟩ := bind_eq_ok.mp h
      rw [hst, Option.any_none, if_neg Bool.false_ne_true] at h
      obtain ⟨events, hput, h⟩ := bind_eq_ok.mp h
      -- the loop in time begins with this row
      have hcons : ∀ {done loop}, alertLoop lib fromStr (fun _ => false) (count + 1)
          ⟨events, none, some row.timestamp, some (st.maxTimestamp.getD row.timestamp)⟩ done = .ok loop →
          alertLoop lib fromStr (fun _ => false) count st (row :: done) = .ok loop := by
        intro done loop hrun
        rw [alertLoop, hst]
        refine bind_eq_ok.mpr ⟨c, hc, ?_⟩
        rw [Option.any_none, if_neg Bool.false_ne_true]
        exact bind_eq_ok.mpr ⟨events, hput, hrun⟩
      cases hlate : late count with
      | true =>
          rw [hlate, if_pos rfl] at h
          have hsecond : ∀ r ∈ rows, startOfSecond r.timestamp ≤ startOfSecond row.timestamp := fun r hr => by
            have hle := (List.pairwise_cons.mp hnewest).1 r hr
            unfold startOfSecond
            omega
          have hsame : AlertLoop.Same
              ⟨events, some (startOfSecond row.timestamp), some row.timestamp, some (st.maxTimestamp.getD row.timestamp)⟩
              ⟨events, none, some row.timestamp, some (st.maxTimestamp.getD row.timestamp)⟩ := ⟨rfl, rfl, rfl⟩
          obtain ⟨loop, hrun, hsame'⟩ := alertLoop_late hsame rfl rfl hnewest.of_cons hsecond
            (startOfSecond_emod _) h
          refine ⟨_, loop, .inr ⟨0, by simp, ⟨hlate, by simp⟩, ?_⟩, hcons hrun, hsame'⟩
          rw [List.getElem_cons_zero, List.filter_cons_of_pos (by simpa using startOfSecond_le row.timestamp)]
      | false =>
          rw [hlate, if_neg Bool.false_ne_true] at h
          obtain ⟨done, loop, hdone, hrun, hsame⟩ := ih rfl hnewest.of_cons h
          refine ⟨row :: done, loop, ?_, hcons hrun, hsame⟩
          rcases hdone with ⟨rfl, hnever⟩ | ⟨i, hi, ⟨hexpired, hfirst⟩, rfl⟩
          · refine .inl ⟨rfl, fun i hi => ?_⟩
            cases i with
            | zero => exact hlate
            | succ i =>
                have := hnever i (by simpa using hi)
                rwa [show count + (i + 1) = count + 1 + i by omega]
          · refine .inr ⟨i + 1, by simpa using hi, ⟨?_, fun j hj => ?_⟩, ?_⟩
            · rwa [show count + (i + 1) = count + 1 + i by omega]
            · cases j with
              | zero => exact hlate
              | succ j =>
                  have := hfirst j (by omega)
                  rwa [show count + (j + 1) = count + 1 + j by omega]
            · have hle : rows[i].timestamp ≤ row.timestamp := (List.pairwise_cons.mp hnewest).1 _ (List.getElem_mem hi)
              have hstart := startOfSecond_le rows[i].timestamp
              rw [List.getElem_cons_succ, List.filter_cons_of_pos]
              simp only [decide_eq_true_eq]
              omega

/-- The bounds of a loop in time are the first and the last row. -/
theorem alertLoop_bounds (hst : st.abortAt = none)
    (h : alertLoop lib fromStr (fun _ => false) count st rows = .ok st') :
    st'.minTimestamp = (rows.getLast?.map (·.timestamp)).or st.minTimestamp ∧
      st'.maxTimestamp = st.maxTimestamp.or (rows.head?.map (·.timestamp)) := by
  induction rows generalizing count st with
  | nil =>
      obtain rfl := Except.ok.inj h
      simp
  | cons row rows ih =>
      obtain ⟨c, hc, h⟩ := bind_eq_ok.mp h
      rw [hst, Option.any_none, if_neg Bool.false_ne_true] at h
      obtain ⟨events, hput, h⟩ := bind_eq_ok.mp h
      obtain ⟨hmin, hmax⟩ := ih rfl h
      rw [hmin, hmax]
      constructor
      · rw [List.getLast?_cons]
        cases rows.getLast? <;> rfl
      · cases st.maxTimestamp <;> rfl

end

/-! ## What is answered -/

/-- The counts and times of the rows of a group. -/
def metadataOf (group : List EventRow) : AggAlertMetadata where
  count := group.length
  escalatedCount := group.countP (·.escalated)
  minTimestamp := .fromNanos ((group.map (·.timestamp)).min?.getD 0)
  maxTimestamp := .fromNanos ((group.map (·.timestamp)).max?.getD 0)

/-- The answer is about some rows, all of them and no others. -/
structure Reports (result : AlertsResult) (rows : List EventRow) : Prop where
  minTimestamp : result.minTimestamp = (rows.map (·.timestamp)).min?.map .fromNanos
  maxTimestamp : result.maxTimestamp = (rows.map (·.timestamp)).max?.map .fromNanos
  /-- There is an entry for each key, with the counts and times of the rows of this key. -/
  entries : ∃ entries : List (String × AggAlert), result.events = entries.map (·.2) ∧ (entries.map (·.1)).Nodup ∧
    (∀ k, k ∈ entries.map (·.1) ↔ ∃ row ∈ rows, row.key = k) ∧
    ∀ k alert, (k, alert) ∈ entries → alert.metadata = metadataOf (rows.filter fun row => row.key = k)

section

variable {lib : TimeLib} {fromStr : String → Option Json} {late : ℕ → Bool} {rows : List EventRow}

theorem Newest.max? (h : Newest rows) : (rows.map (·.timestamp)).max? = rows.head?.map (·.timestamp) := by
  cases rows with
  | nil => rfl
  | cons row rows =>
      rw [List.head?_cons, Option.map_some, List.max?_eq_some_iff]
      refine ⟨by simp, List.forall_mem_map.mpr fun r hr => ?_⟩
      rcases List.mem_cons.mp hr with rfl | hr
      · exact le_refl _
      · exact (List.pairwise_cons.mp h).1 r hr

theorem Newest.min? (h : Newest rows) : (rows.map (·.timestamp)).min? = rows.getLast?.map (·.timestamp) := by
  cases hlast : rows.getLast? with
  | none =>
      rw [List.getLast?_eq_none_iff.mp hlast]
      rfl
  | some last =>
      obtain ⟨before, rfl⟩ := List.getLast?_eq_some_iff.mp hlast
      rw [Option.map_some, List.min?_eq_some_iff]
      refine ⟨by simp, List.forall_mem_map.mpr fun r hr => ?_⟩
      rcases List.mem_append.mp hr with hr | hr
      · exact (List.pairwise_append.mp h).2.2 r hr last (by simp)
      · rw [List.mem_singleton.mp hr]

theorem escalatedCount_foldl (rest : List EventRow) : ∀ alert : AggAlert,
    (rest.foldl AggAlert.add alert).metadata.escalatedCount =
      alert.metadata.escalatedCount + rest.countP (·.escalated) := by
  induction rest with
  | nil => exact fun _ => rfl
  | cons row rest ih =>
      intro alert
      rw [List.foldl_cons, ih, List.countP_cons]
      simp only [AggAlert.add]
      omega

/-- An entry has the counts and times of the rows of its key. -/
theorem metadata_of_mem {events : List (String × AggAlert)} (h : CollectedAlerts lib fromStr rows events)
    (hnewest : Newest rows) {k : String} {alert : AggAlert} (hmem : (k, alert) ∈ events) :
    alert.metadata = metadataOf (rows.filter fun row => row.key = k) := by
  obtain ⟨row, rest, first, hgroup, hstart, halert⟩ := h.entry k alert hmem
  have hsorted : Newest (row :: rest) := hgroup ▸ hnewest.sublist List.filter_sublist
  obtain ⟨c, hentry⟩ := EntryOf.start hstart
  have hlast := hentry.foldl rest
  have hescalated := escalatedCount_foldl rest first
  rw [← halert, List.nil_append] at hlast
  rw [← halert] at hescalated
  have hfirst : first.metadata.escalatedCount = if row.escalated then 1 else 0 := by
    obtain ⟨c', -, hnew⟩ := bind_eq_ok.mp hstart
    rw [(newAlert_eq_ok hnew).2.2.2]
  have hmeta : alert.metadata = ⟨alert.metadata.count, alert.metadata.escalatedCount, alert.metadata.minTimestamp,
    alert.metadata.maxTimestamp⟩ := rfl
  rw [hmeta, hgroup, metadataOf, hsorted.min?, hsorted.max?, hlast.count, hlast.minTimestamp, hlast.maxTimestamp,
    hescalated, hfirst, List.countP_cons, List.getLast?_cons, List.getLastD_eq_getLast?]
  simp [Nat.add_comm]

/-- A loop in time answers about all rows. -/
theorem reports_of_inTime {st : AlertLoop} (hnewest : Newest rows)
    (h : alertLoop lib fromStr (fun _ => false) 0 ⟨[], none, none, none⟩ rows = .ok st) (timedOut : Bool) :
    Reports ⟨st.events.map (·.2), timedOut, st.minTimestamp.map .fromNanos, st.maxTimestamp.map .fromNanos⟩ rows := by
  obtain ⟨hmin, hmax⟩ := alertLoop_bounds rfl h
  obtain ⟨-, hcollected⟩ := alertLoop_collected (fun _ _ => rfl) h
  refine ⟨?_, ?_, st.events, rfl, hcollected.nodup, hcollected.mem_keys, fun k alert hmem =>
    metadata_of_mem hcollected hnewest hmem⟩
  · rw [hmin, hnewest.min?, Option.or_none]
  · rw [hmax, hnewest.max?, Option.none_or]

/-- The rows that count are all rows, or those from the second on in which the timer is first seen expired. -/
theorem alertsWithTimeout_rows {result : AlertsResult} (hnewest : Newest rows)
    (h : alertsWithTimeout lib fromStr late rows = .ok result) : ∃ done, Reports result done ∧
      ((done = rows ∧ ∀ i < rows.length, late i = false) ∨
        ∃ i, ∃ hi : i < rows.length, (late i = true ∧ ∀ j < i, late j = false) ∧
          done = rows.filter (startOfSecond rows[i].timestamp ≤ ·.timestamp)) := by
  obtain ⟨st, hst, hresult⟩ := bind_eq_ok.mp h
  obtain rfl := Except.ok.inj hresult
  obtain ⟨done, loop, hdone, hrun, hsame⟩ := alertLoop_rows rfl hnewest hst
  simp only [Nat.zero_add] at hdone
  refine ⟨done, ?_, hdone⟩
  have hsorted : Newest done := by
    rcases hdone with ⟨rfl, -⟩ | ⟨i, hi, -, rfl⟩
    · exact hnewest
    · exact hnewest.sublist List.filter_sublist
  rw [hsame.events, hsame.minTimestamp, hsame.maxTimestamp]
  exact reports_of_inTime hsorted hrun _

end

/-- Two alerts of a second and one of the second before. -/
def secondRows : List EventRow := [
  sampleRow 3 1782648001000000500 (sampleAlert 1 "10.0.0.1" "10.0.0.9" "2026-06-28T12:00:01.000000+0000"),
  sampleRow 2 1782648001000000000 (sampleAlert 1 "10.0.0.1" "10.0.0.9" "2026-06-28T12:00:01.000000+0000"),
  sampleRow 1 1782648000000000000 (sampleAlert 2 "10.0.0.2" "10.0.0.9" "2026-06-28T12:00:00.000000+0000")]

theorem alertsWithTimeout_rows_second : ∃ result,
    alertsWithTimeout sampleLib (fun _ => none) (· = 0) secondRows = .ok result ∧ ∃ done, Reports result done ∧
      ((done = secondRows ∧ ∀ i < secondRows.length, decide (i = 0) = false) ∨
        ∃ i, ∃ hi : i < secondRows.length, (decide (i = 0) = true ∧ ∀ j < i, decide (j = 0) = false) ∧
          done = secondRows.filter (startOfSecond secondRows[i].timestamp ≤ ·.timestamp)) := by
  have hnewest : Newest secondRows := by decide +kernel
  have hlength : (alertsWithTimeout sampleLib (fun _ => none) (· = 0) secondRows).map (·.events.length) = .ok 1 := by
    decide +kernel
  cases hresult : alertsWithTimeout sampleLib (fun _ => none) (· = 0) secondRows with
  | error err =>
      rw [hresult] at hlength
      cases hlength
  | ok result => exact ⟨result, rfl, alertsWithTimeout_rows hnewest hresult⟩

end EveBox.Sqlite
