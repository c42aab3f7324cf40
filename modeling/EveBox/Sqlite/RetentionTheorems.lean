import EveBox.Sqlite.Retention

/-!
# Retention: that the loop ends, and that values mean what they say

Reference: `src/sqlite/retention.rs` and `src/elastic/retention.rs`.

* `deleteToSize_settles_iff` — when the loop of `delete_to_size` ends.
* `exact_iff` — which values are turned into the bound that they stand for.
-/

namespace EveBox.Sqlite

open Rust Eve

/-! ## A deletion -/

namespace EventTable

variable {t : EventTable} {limit : ℕ}

theorem mem_oldest_of {rowid : ℕ} (h : rowid ∈ t.oldest limit) : ∃ row ∈ t.deletable, row.rowid = rowid := by
  obtain ⟨row, hrow, hid⟩ := List.mem_map.mp h
  exact ⟨row, (List.mem_insertionSort _).mp (List.mem_of_mem_take hrow), hid⟩

/-- Where a row may be deleted, one is. -/
theorem exists_mem_oldest (hlimit : 0 < limit) (h : t.deletable ≠ []) : ∃ row ∈ t.deletable, row.rowid ∈ t.oldest limit := by
  have hlength : 0 < (t.deletable.insertionSort fun a b => a.timestamp ≤ b.timestamp).length := by
    rw [List.length_insertionSort]
    exact List.length_pos_iff.mpr h
  obtain ⟨row, rest, hsorted⟩ := List.exists_cons_of_length_pos hlength
  obtain ⟨n, rfl⟩ := Nat.exists_eq_succ_of_ne_zero (Nat.pos_iff_ne_zero.mp hlimit)
  refine ⟨row, (List.mem_insertionSort _).mp (hsorted ▸ List.mem_cons_self), ?_⟩
  rw [oldest, hsorted, List.take_succ_cons]
  exact List.mem_cons_self

theorem oldest_of_deletable_nil (h : t.deletable = []) : t.oldest limit = [] := by
  rw [oldest, h]
  simp

theorem delete_rows_sublist (t : EventTable) (rowids : List ℕ) : (t.delete rowids).rows.Sublist t.rows :=
  List.filter_sublist

/-- What is escalated stays. -/
theorem escalated_delete (t : EventTable) (limit : ℕ) :
    (t.delete (t.oldest limit)).rows.filter (·.escalated) = t.rows.filter (·.escalated) := by
  rw [delete, List.filter_filter]
  refine List.filter_congr fun row hrow => ?_
  cases hescalated : row.escalated with
  | false => rfl
  | true =>
      have hkept : row.rowid ∉ t.oldest limit := fun hmem => by
        obtain ⟨other, hother, hid⟩ := mem_oldest_of hmem
        obtain ⟨hin, hordinary⟩ := List.mem_filter.mp hother
        have hsame := List.inj_on_of_nodup_map t.nodup hin hrow hid
        rw [hsame, hescalated] at hordinary
        cases hordinary
      simp [hkept]

/-- Rows are deleted as long as some may be. -/
theorem deleteOldestEventsN_pos_iff (hlimit : 0 < limit) : 0 < (t.deleteOldestEventsN limit).2 ↔ t.deletable ≠ [] := by
  have hle := (t.delete_rows_sublist (t.oldest limit)).length_le
  constructor
  · intro hpos hnil
    rw [deleteOldestEventsN, oldest_of_deletable_nil hnil, delete] at hpos
    simp at hpos
  · intro hne
    obtain ⟨row, hrow, hmem⟩ := exists_mem_oldest hlimit hne
    have hlt : (t.delete (t.oldest limit)).rows.length < t.rows.length :=
      List.length_filter_lt_length_iff_exists.mpr ⟨row, (List.mem_filter.mp hrow).1, by simpa using hmem⟩
    rw [deleteOldestEventsN]
    dsimp only
    omega

/-- Each such deletion leaves fewer rows to delete. -/
theorem deletable_lt (hlimit : 0 < limit) (h : t.deletable ≠ []) :
    (t.deleteOldestEventsN limit).1.deletable.length < t.deletable.length := by
  obtain ⟨row, hrow, hmem⟩ := exists_mem_oldest hlimit h
  have heq : (t.deleteOldestEventsN limit).1.deletable = t.deletable.filter fun row => row.rowid ∉ t.oldest limit := by
    rw [deleteOldestEventsN, deletable, deletable, delete, List.filter_filter, List.filter_filter]
    exact List.filter_congr fun row _ => Bool.and_comm _ _
  rw [heq]
  exact List.length_filter_lt_length_iff_exists.mpr ⟨row, hrow, by simpa using hmem⟩

/-- A table without rows to delete has the escalated ones alone. -/
theorem rows_of_deletable_nil (h : t.deletable = []) : t.rows = t.rows.filter (·.escalated) := by
  refine (List.filter_eq_self.mpr fun row hrow => ?_).symm
  have hordinary := List.filter_eq_nil_iff.mp h row hrow
  simpa using hordinary

/-- The table after some deletions. -/
def after (t : EventTable) : ℕ → EventTable
  | 0 => t
  | i + 1 => ((t.after i).deleteOldestEventsN 1000).1

theorem escalated_after (t : EventTable) (i : ℕ) : (t.after i).rows.filter (·.escalated) = t.rows.filter (·.escalated) := by
  induction i with
  | zero => rfl
  | succ i ih => rw [after, deleteOldestEventsN, escalated_delete, ih]

end EventTable

/-! ## The loop -/

section

variable {disk : Disk} {bytes i : ℕ} {t : EventTable}

/-- The loop comes to a round. -/
def Reached (disk : Disk) (bytes : ℕ) (t : EventTable) (i : ℕ) : Prop :=
  ∀ j < i, ∃ next n, deleteRound disk bytes j (t.after j) = .deleted next n

/-- What a round that goes on has done. -/
theorem deleteRound_deleted {next : EventTable} {n : ℕ} (h : deleteRound disk bytes i t = .deleted next n) :
    disk.sizeFails i = false ∧ ¬ disk.size t.rows < bytes ∧ disk.deleteFails i = false ∧
      next = (t.deleteOldestEventsN 1000).1 ∧ n = (t.deleteOldestEventsN 1000).2 := by
  unfold deleteRound at h
  split_ifs at h with hsize hsmall hdelete
  obtain ⟨rfl, rfl⟩ := Round.deleted.inj h
  exact ⟨Bool.eq_false_iff.mpr hsize, hsmall, Bool.eq_false_iff.mpr hdelete, rfl, rfl⟩

/-- A round that goes on, or the last one. -/
theorem deleteRound_cases (disk : Disk) (bytes i : ℕ) (t : EventTable) :
    (deleteRound disk bytes i t = .failed ∧ (disk.sizeFails i || disk.deleteFails i) = true) ∨
    (deleteRound disk bytes i t = .small ∧ disk.size t.rows < bytes) ∨
    (deleteRound disk bytes i t = .deleted (t.deleteOldestEventsN 1000).1 (t.deleteOldestEventsN 1000).2 ∧
      disk.sizeFails i = false ∧ ¬ disk.size t.rows < bytes ∧ disk.deleteFails i = false) := by
  unfold deleteRound
  split_ifs with hsize hsmall hdelete
  · exact .inl ⟨rfl, by simp [hsize]⟩
  · exact .inr (.inl ⟨rfl, hsmall⟩)
  · exact .inl ⟨rfl, by simp [hdelete]⟩
  · exact .inr (.inr ⟨rfl, Bool.eq_false_iff.mpr hsize, hsmall, Bool.eq_false_iff.mpr hdelete⟩)

/-- The loop ends in the first round that does not go on. -/
theorem loop_eq_some_iff {fuel deleted : ℕ} {out : Deletion} :
    deleteToSizeLoop disk bytes fuel i (t.after i) deleted = some out →
      ∃ k, i ≤ k ∧ (∀ j, i ≤ j → j < k → ∃ next n, deleteRound disk bytes j (t.after j) = .deleted next n) ∧
        ((deleteRound disk bytes k (t.after k) = .failed ∧ out = none) ∨
          deleteRound disk bytes k (t.after k) = .small ∧ ∃ n, out = some (n, t.after k)) := by
  induction fuel generalizing i deleted with
  | zero => exact fun h => nomatch h
  | succ fuel ih =>
      intro h
      rw [deleteToSizeLoop] at h
      rcases deleteRound_cases disk bytes i (t.after i) with ⟨hround, -⟩ | ⟨hround, -⟩ | ⟨hround, -⟩
      · rw [hround] at h
        exact ⟨i, le_refl i, fun j hj hlt => by omega, .inl ⟨hround, (Option.some.inj h).symm⟩⟩
      · rw [hround] at h
        exact ⟨i, le_refl i, fun j hj hlt => by omega, .inr ⟨hround, deleted, (Option.some.inj h).symm⟩⟩
      · rw [hround] at h
        obtain ⟨k, hk, hgo, hend⟩ := ih (i := i + 1) h
        refine ⟨k, by omega, fun j hj hlt => ?_, hend⟩
        rcases Nat.eq_or_lt_of_le hj with rfl | hj
        · exact ⟨_, _, hround⟩
        · exact hgo j hj hlt

/-- With fuel up to that round, the loop ends. -/
theorem exists_loop (d : ℕ) : ∀ i deleted,
    (∀ j, i ≤ j → j < i + d → ∃ next n, deleteRound disk bytes j (t.after j) = .deleted next n) →
    (∀ next n, deleteRound disk bytes (i + d) (t.after (i + d)) ≠ .deleted next n) →
    ∃ out, deleteToSizeLoop disk bytes (d + 1) i (t.after i) deleted = some out := by
  induction d with
  | zero =>
      intro i deleted _ hend
      rw [deleteToSizeLoop]
      rcases deleteRound_cases disk bytes i (t.after i) with ⟨hround, -⟩ | ⟨hround, -⟩ | ⟨hround, -⟩
      · exact ⟨_, by rw [hround]⟩
      · exact ⟨_, by rw [hround]⟩
      · exact absurd hround (hend _ _)
  | succ d ih =>
      intro i deleted hgo hend
      obtain ⟨next, n, hround⟩ := hgo i (le_refl i) (by omega)
      have hnext := (deleteRound_deleted hround).2.2.2.1
      rw [deleteToSizeLoop, hround, hnext]
      have hsum : i + 1 + d = i + (d + 1) := by omega
      exact ih (i + 1) (deleted + n) (fun j hj hlt => hgo j (by omega) (by omega)) (hsum ▸ hend)

/-- What is promised of the loop. -/
structure Settles (disk : Disk) (bytes : ℕ) (t : EventTable) : Prop where
  ends : ∃ fuel out, deleteToSize disk bytes fuel t = some out
  /-- A round that is not the last deletes something. -/
  progress : ∀ i, Reached disk bytes t i → ∀ next n, deleteRound disk bytes i (t.after i) = .deleted next n → 0 < n
  result : ∀ fuel n left, deleteToSize disk bytes fuel t = some (some (n, left)) →
    disk.size left.rows < bytes ∨ left.deletable = []

/-- The loop does not go on for ever while each round deletes something. -/
theorem exists_last (hprogress : ∀ i, Reached disk bytes t i → ∀ next n,
    deleteRound disk bytes i (t.after i) = .deleted next n → (t.after i).deletable ≠ []) :
    ∃ i, Reached disk bytes t i ∧ ∀ next n, deleteRound disk bytes i (t.after i) ≠ .deleted next n := by
  by_contra hnever
  push Not at hnever
  have hreached : ∀ i, Reached disk bytes t i := by
    intro i
    induction i with
    | zero => exact fun j hj => absurd hj (Nat.not_lt_zero j)
    | succ i ih =>
        intro j hj
        rcases Nat.lt_succ_iff_lt_or_eq.mp hj with hj | rfl
        · exact ih j hj
        · exact hnever j ih
  have hfewer : ∀ i, (t.after i).deletable.length + i ≤ t.deletable.length := by
    intro i
    induction i with
    | zero => exact le_refl _
    | succ i ih =>
        obtain ⟨next, n, hround⟩ := hnever i (hreached i)
        have hlt : ((t.after i).deleteOldestEventsN 1000).1.deletable.length < (t.after i).deletable.length :=
          EventTable.deletable_lt (by omega) (hprogress i (hreached i) next n hround)
        rw [EventTable.after]
        omega
  have := hfewer (t.deletable.length + 1)
  omega

/-- The loop ends, deletes something in each round before and leaves the file small enough, if and only if the file
with the escalated events alone is, or a round fails before there is nothing left to delete. -/
theorem deleteToSize_settles_iff (disk : Disk) (bytes : ℕ) (t : EventTable) : Settles disk bytes t ↔
    disk.size (t.rows.filter (·.escalated)) < bytes ∨
      ∃ i, (disk.sizeFails i || disk.deleteFails i) = true ∧ ∀ j < i, (t.after j).deletable ≠ [] := by
  have hpos : ∀ {t : EventTable} {next n i}, deleteRound disk bytes i t = .deleted next n →
      (0 < n ↔ t.deletable ≠ []) := fun h => by
    obtain ⟨-, -, -, -, rfl⟩ := deleteRound_deleted h
    exact EventTable.deleteOldestEventsN_pos_iff (by omega)
  constructor
  · intro h
    obtain ⟨fuel, out, hout⟩ := h.ends
    obtain ⟨k, -, hgo, hend⟩ := loop_eq_some_iff (t := t) (i := 0) hout
    have hreached : Reached disk bytes t k := fun j hj => hgo j (Nat.zero_le j) hj
    rcases deleteRound_cases disk bytes k (t.after k) with ⟨-, hfails⟩ | ⟨-, hsmall⟩ | ⟨hround, -⟩
    · refine .inr ⟨k, hfails, fun j hj => ?_⟩
      obtain ⟨next, n, hround⟩ := hreached j hj
      exact (hpos hround).mp (h.progress j (fun l hl => hreached l (by omega)) next n hround)
    · refine .inl (lt_of_le_of_lt ?_ hsmall)
      rw [← EventTable.escalated_after t k]
      exact disk.size_le List.filter_sublist
    · rcases hend with ⟨hfailed, -⟩ | ⟨hsmall, -⟩
      · rw [hfailed] at hround
        cases hround
      · rw [hsmall] at hround
        cases hround
  · intro h
    have hprogress : ∀ i, Reached disk bytes t i → ∀ next n,
        deleteRound disk bytes i (t.after i) = .deleted next n → (t.after i).deletable ≠ [] := by
      intro i hreached next n hround hnil
      obtain ⟨hsize, hlarge, hdelete, -⟩ := deleteRound_deleted hround
      rcases h with hsmall | ⟨k, hfails, hbefore⟩
      · rw [EventTable.rows_of_deletable_nil hnil, EventTable.escalated_after] at hlarge
        exact hlarge hsmall
      · -- the failing round would have been the last one
        rcases Nat.lt_trichotomy k i with hlt | rfl | hlt
        · obtain ⟨next', n', hround'⟩ := hreached k hlt
          obtain ⟨hsize', -, hdelete', -⟩ := deleteRound_deleted hround'
          rw [hsize', hdelete'] at hfails
          cases hfails
        · rw [hsize, hdelete] at hfails
          cases hfails
        · exact hbefore i hlt hnil
    obtain ⟨k, hreached, hlast⟩ := exists_last hprogress
    refine ⟨?_, fun i hi next n hround => (hpos hround).mpr (hprogress i hi next n hround), ?_⟩
    · have hzero : 0 + k = k := Nat.zero_add k
      obtain ⟨out, hout⟩ := exists_loop (t := t) k 0 0 (fun j _ hj => hreached j (by omega)) (hzero.symm ▸ hlast)
      exact ⟨k + 1, out, hout⟩
    · intro fuel n left hout
      obtain ⟨j, -, -, hend⟩ := loop_eq_some_iff (t := t) (i := 0) hout
      rcases hend with ⟨-, hnone⟩ | ⟨hround, m, hsome⟩
      · cases hnone
      · obtain ⟨-, rfl⟩ := Prod.mk.inj (Option.some.inj hsome)
        rcases deleteRound_cases disk bytes j (t.after j) with ⟨hfailed, -⟩ | ⟨-, hsmall⟩ | ⟨hdeleted, -⟩
        · rw [hfailed] at hround
          cases hround
        · exact .inl hsmall
        · rw [hdeleted] at hround
          cases hround

end

/-! ### A table of escalated events -/

/-- A file of a page that nothing makes smaller. -/
def pageDisk : Disk where
  size _ := 4096
  sizeFails _ := false
  deleteFails _ := false
  size_le _ := le_refl _

/-- A table with one escalated event. -/
def escalatedTable : EventTable where
  rows := [⟨1, 0, false, true, .object [], "", []⟩]
  nodup := List.nodup_singleton _

/-- The loop goes on without anything to delete. -/
theorem escalatedTable_not_settles : ¬ Settles pageDisk 1000 escalatedTable := by
  intro h
  have hround : deleteRound pageDisk 1000 0 (escalatedTable.after 0) =
      .deleted (escalatedTable.deleteOldestEventsN 1000).1 (escalatedTable.deleteOldestEventsN 1000).2 := rfl
  have hpos := h.progress 0 (fun j hj => absurd hj (Nat.not_lt_zero j)) _ _ hround
  exact absurd hpos (by decide +kernel)

/-! ## Values -/

/-- A value of the configuration file or the settings. -/
inductive Setting
  /-- `database.retention.size`. -/
  | size (text : String)
  /-- `config.retention.size`. -/
  | gigabytes (value : U64)
  /-- `database.retention.days`, `database.retention-period` and `config.retention`. -/
  | days (value : U64)
  /-- `config.autoarchive`. -/
  | archiveDays (value : U64)
  /-- `config.retention`, of the indices of Elasticsearch. -/
  | indexDays (value : U64)
  /-- `config.autoarchive`, over Elasticsearch. -/
  | elasticArchiveDays (value : U64)
deriving DecidableEq, Repr

/-- The bytes that a size stands for. -/
def sizeDenoted (isDigit : Char → Bool) (input : List Char) : Option ℕ :=
  match parseNumber input with
  | some size => some size
  | none => do
      let (value, unit) ← sizeParts isDigit input
      let value ← parseNumber value
      let factor ← sizeUnit unit
      some (value * factor)

section

variable (isDigit : Char → Bool) (now : DateTime)

/-- The bound that a value stands for: bytes, an instant in nanoseconds or, for indices, an age in days. -/
def Setting.denotes : Setting → Option ℤ
  | .size text => (sizeDenoted isDigit text.toList).map (↑)
  | .gigabytes value => some (value.val * 1000000000 : ℕ)
  | .days value | .archiveDays value | .elasticArchiveDays value => some (now.nanos - value.val * 86400 * 1000000000)
  | .indexDays value => some value.val

/-- The bound that the code computes. -/
def Setting.computes : Setting → Outcome
  | .size text => ((parseHumansize isDigit text.toList).map fun size : ℕ => Outcome.ok (size : ℤ)).getD .rejected
  | .gigabytes value => .ok (Sqlite.gigabytes value)
  | .days value => olderThan now value
  | .archiveDays value => archivedBefore now value
  | .indexDays value => .ok (Sqlite.indexDays value)
  | .elasticArchiveDays value => elasticArchivedBefore now value

/-- The code computes the bound that the value stands for, or rejects the value. -/
def Setting.Exact (s : Setting) : Prop :=
  match s.computes isDigit now with
  | .ok n => s.denotes isDigit now = some n
  | .rejected => True
  | .panicked => False

/-- The value is within the bounds of the arithmetic. -/
def Setting.Fits : Setting → Prop
  | .size _ => True
  | .gigabytes value => value.val * 1000000000 < 2 ^ 64
  | .days value | .archiveDays value => -2 ^ 63 ≤ now.nanos - value.val * 86400 * 1000000000
  | .indexDays value => value.val < 2 ^ 63
  | .elasticArchiveDays value =>
      firstInstant ≤ now.nanos - value.val * 86400 * 1000000000 ∨ 2 ^ 64 - 106751991167 ≤ value.val

end

section

variable {isDigit : Char → Bool} {now : DateTime}

theorem parseUsize_of_some {text : List Char} {n : ℕ} (h : parseUsize text = some n) : parseNumber text = some n :=
  (Option.filter_eq_some_iff.mp h).1

/-- A text with a unit is not a number as a whole. -/
theorem parseNumber_of_unit {input value unit : List Char} {factor : ℕ} (hparts : sizeParts isDigit input = some (value, unit))
    (hfactor : sizeUnit unit = some factor) : parseNumber input = none := by
  have hletter : 'B' ∈ unit := by
    unfold sizeUnit at hfactor
    split_ifs at hfactor with hgiga hmega
    · rw [hgiga]
      decide
    · rw [hmega]
      decide
  have hinput : 'B' ∈ input := by
    unfold sizeParts at hparts
    dsimp only at hparts
    split_ifs at hparts
    obtain ⟨-, rfl⟩ := Prod.mk.inj (Option.some.inj hparts)
    exact (List.dropWhile_sublist _).subset ((List.dropWhile_sublist _).subset hletter)
  unfold parseNumber
  dsimp only
  refine if_pos (.inr fun hall => ?_)
  have hdigit : ∀ digits : List Char, 'B' ∈ digits → digits.all Char.isDigit = true → False := fun digits hmem hall =>
    absurd (List.all_eq_true.mp hall _ hmem) (by decide)
  split at hall
  · refine hdigit _ ?_ hall
    exact (List.mem_cons.mp hinput).resolve_left (by decide)
  · exact hdigit _ hinput hall

/-- A size that is accepted is the one that the text stands for. -/
theorem sizeDenoted_of_parseHumansize {input : List Char} {n : ℕ} (h : parseHumansize isDigit input = some n) :
    sizeDenoted isDigit input = some n := by
  unfold parseHumansize at h
  cases hsize : parseUsize input with
  | some size =>
      rw [hsize] at h
      rw [sizeDenoted, parseUsize_of_some hsize]
      exact h
  | none =>
      rw [hsize] at h
      obtain ⟨⟨value, unit⟩, hparts, h⟩ := Option.bind_eq_some_iff.mp h
      obtain ⟨number, hnumber, h⟩ := Option.bind_eq_some_iff.mp h
      obtain ⟨factor, hfactor, h⟩ := Option.bind_eq_some_iff.mp h
      -- a text that is a number as a whole has no unit
      have hnone : parseNumber input = none := parseNumber_of_unit hparts hfactor
      rw [sizeDenoted, hnone]
      refine Option.bind_eq_some_iff.mpr ⟨(value, unit), hparts, Option.bind_eq_some_iff.mpr
        ⟨number, parseUsize_of_some hnumber, Option.bind_eq_some_iff.mpr ⟨factor, hfactor, ?_⟩⟩⟩
      unfold checkedMul at h
      split_ifs at h
      exact h

/-- The bound of the statements is exact if and only if it has nanoseconds. -/
theorem cutoff_exact_iff {days seconds : ℕ} (hnow : -2 ^ 63 ≤ now.nanos ∧ now.nanos < 2 ^ 63)
    (hseconds : seconds = days * 86400 % 2 ^ 64) :
    cutoff now seconds = .ok (now.nanos - days * 86400 * 1000000000) ↔
      -2 ^ 63 ≤ now.nanos - days * 86400 * 1000000000 := by
  have hresult : ∀ n, cutoff now seconds = .ok n ↔
      ¬ maxSeconds < seconds ∧ firstInstant ≤ now.nanos - seconds * 1000000000 ∧
        (-2 ^ 63 ≤ now.nanos - seconds * 1000000000 ∧ now.nanos - seconds * 1000000000 < 2 ^ 63) ∧
        n = now.nanos - seconds * 1000000000 := by
    intro n
    unfold cutoff subSeconds
    by_cases hmax : maxSeconds < (seconds : ℤ)
    · simp [hmax]
    · by_cases hfirst : firstInstant ≤ now.nanos - seconds * 1000000000
      · by_cases hnanos : -2 ^ 63 ≤ now.nanos - seconds * 1000000000 ∧ now.nanos - seconds * 1000000000 < 2 ^ 63
        · simp only [hmax, hfirst, if_true, if_false, Option.bind_some, DateTime.toNanos, if_pos hnanos, Outcome.ok.injEq]
          grind
        · simp only [hmax, hfirst, if_true, if_false, Option.bind_some, DateTime.toNanos, if_neg hnanos]
          grind
      · simp only [hmax, hfirst, if_false, Option.bind_none]
        grind
  rw [hresult]
  unfold maxSeconds firstInstant
  constructor
  · rintro ⟨-, -, hbounds, heq⟩
    omega
  · intro hlow
    have hseconds' : seconds = days * 86400 := by omega
    omega

theorem cutoff_ne_rejected (now : DateTime) (seconds : ℕ) : cutoff now seconds ≠ .rejected := by
  unfold cutoff
  cases (subSeconds now seconds).bind DateTime.toNanos <;> simp

/-- A bound of days is exact if and only if it is computed as such. -/
theorem exact_cutoff_iff {s : Setting} {seconds : ℕ} {n : ℤ} (hcomputes : s.computes isDigit now = cutoff now seconds)
    (hdenotes : s.denotes isDigit now = some n) : s.Exact isDigit now ↔ cutoff now seconds = .ok n := by
  unfold Setting.Exact
  rw [hcomputes, hdenotes]
  cases h : cutoff now seconds with
  | ok m =>
      simp only [Option.some.injEq, Outcome.ok.injEq]
      exact eq_comm
  | rejected => exact absurd h (cutoff_ne_rejected now seconds)
  | panicked => simp

theorem asI64_eq (value : U64) :
    asI64 value.val = if value.val < 2 ^ 63 then (value.val : ℤ) else (value.val : ℤ) - 2 ^ 64 := by
  have hlt := value.isLt
  unfold asI64
  rw [Nat.mod_eq_of_lt hlt]

/-- A value of Elasticsearch is exact, or becomes a negative number of days that is rejected. -/
theorem elastic_exact_iff (hnow : -2 ^ 63 ≤ now.nanos ∧ now.nanos < 2 ^ 63) (value : U64) :
    (Setting.elasticArchiveDays value).Exact isDigit now ↔ (Setting.elasticArchiveDays value).Fits now := by
  have hlt := value.isLt
  have hcomputes : (Setting.elasticArchiveDays value).computes isDigit now = elasticArchivedBefore now value := rfl
  unfold Setting.Exact
  rw [hcomputes]
  unfold elasticArchivedBefore Setting.Fits
  dsimp only
  rw [asI64_eq]
  unfold maxSeconds firstInstant
  by_cases hsmall : value.val < 2 ^ 63
  · rw [if_pos hsmall, Int.natAbs_natCast]
    by_cases hmax : (9223372036854775 : ℤ) < (value.val : ℤ) * 86400
    · rw [if_pos hmax]
      refine iff_of_false (fun h => h) ?_
      omega
    · rw [if_neg hmax, if_neg (by omega)]
      by_cases hfirst : -8334601228800 * 1000000000 ≤ now.nanos - (value.val : ℤ) * 86400 * 1000000000
      · rw [if_pos hfirst]
        exact iff_of_true rfl (.inl hfirst)
      · rw [if_neg hfirst]
        refine iff_of_false (fun h => h) ?_
        omega
  · rw [if_neg hsmall]
    have habs : (((value.val : ℤ) - 2 ^ 64).natAbs : ℤ) = 2 ^ 64 - value.val := by omega
    rw [habs]
    by_cases hmax : (9223372036854775 : ℤ) < (2 ^ 64 - (value.val : ℤ)) * 86400
    · rw [if_pos hmax]
      refine iff_of_false (fun h => h) ?_
      omega
    · rw [if_neg hmax, if_pos (by omega)]
      refine iff_of_true trivial (.inr ?_)
      omega

/-- A value is turned into the bound that it stands for, or rejected, if and only if it is within the bounds of the
arithmetic. -/
theorem exact_iff (hnow : -2 ^ 63 ≤ now.nanos ∧ now.nanos < 2 ^ 63) (s : Setting) : s.Exact isDigit now ↔ s.Fits now := by
  cases s with
  | size text =>
      refine iff_of_true ?_ trivial
      have hcomputes : (Setting.size text).computes isDigit now =
          ((parseHumansize isDigit text.toList).map fun size : ℕ => Outcome.ok (size : ℤ)).getD .rejected := rfl
      unfold Setting.Exact
      rw [hcomputes]
      cases hsize : parseHumansize isDigit text.toList with
      | none => exact trivial
      | some n =>
          change (sizeDenoted isDigit text.toList).map (fun n : ℕ => (n : ℤ)) = some (n : ℤ)
          rw [sizeDenoted_of_parseHumansize hsize]
          rfl
  | gigabytes value =>
      change some ((value.val * 1000000000 : ℕ) : ℤ) = some ((value.val * 1000000000 % 2 ^ 64 : ℕ) : ℤ) ↔
        value.val * 1000000000 < 2 ^ 64
      rw [Option.some.injEq]
      omega
  | days value => rw [exact_cutoff_iff rfl rfl, cutoff_exact_iff hnow rfl, Setting.Fits]
  | archiveDays value => rw [exact_cutoff_iff rfl rfl, cutoff_exact_iff hnow (by rw [Nat.mul_comm]), Setting.Fits]
  | indexDays value =>
      have hlt := value.isLt
      change some (value.val : ℤ) = some (asI64 value.val) ↔ value.val < 2 ^ 63
      rw [Option.some.injEq, asI64_eq]
      split_ifs <;> omega
  | elasticArchiveDays value => exact elastic_exact_iff hnow value

/-- The limit of the task is none, or one of a value. -/
theorem getSize_computes (isDigit : Char → Bool) (now : DateTime) (size : Option String)
    (setting : Option EnabledWithValue) : getSize isDigit size setting = 0 ∨
      ∃ s : Setting, s.computes isDigit now = .ok (getSize isDigit size setting) := by
  unfold getSize
  cases hsize : size.bind fun text => parseHumansize isDigit text.toList with
  | some n =>
      obtain ⟨text, -, htext⟩ := Option.bind_eq_some_iff.mp hsize
      refine .inr ⟨.size text, ?_⟩
      rw [Setting.computes, htext]
      rfl
  | none =>
      cases setting with
      | none => exact .inl rfl
      | some config =>
          by_cases henabled : config.enabled = true
          · refine .inr ⟨.gigabytes config.value, ?_⟩
            rw [Setting.computes]
            dsimp only
            rw [if_pos henabled]
          · exact .inl (if_neg henabled)

/-- A noon in summer. -/
def noon : DateTime := ⟨1782648000000000000, 0⟩

theorem exact_iff_days : (Setting.days 365).Exact Char.isDigit noon ↔ (Setting.days 365).Fits noon :=
  exact_iff (by decide) (.days 365)

/-- With 200000 days the cut-off has no nanoseconds, and with 18446744074 gigabytes the limit is a small one. -/
theorem not_exact : ¬ (Setting.days 200000).Exact Char.isDigit noon ∧
    ¬ (Setting.gigabytes 18446744074).Exact Char.isDigit noon ∧
    Sqlite.gigabytes 18446744074 = 290448384 := by
  refine ⟨?_, ?_, by decide +kernel⟩
  · have hpanics : (Setting.days 200000).computes Char.isDigit noon = .panicked := by decide +kernel
    unfold Setting.Exact
    rw [hpanics]
    exact fun h => h
  · change ¬ (some ((18446744074 * 1000000000 : ℕ) : ℤ) = some ((18446744074 * 1000000000 % 2 ^ 64 : ℕ) : ℤ))
    decide

end

end EveBox.Sqlite
