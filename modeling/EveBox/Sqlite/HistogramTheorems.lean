import EveBox.Sqlite.Histogram
import EveBox.Sqlite.References
import Mathlib.Algebra.Order.Ring.Int
import Mathlib.Tactic.Linarith
import Mathlib.Tactic.Ring

/-!
# The histogram of times over SQLite: what it covers

Reference: `src/sqlite/eventrepo/stats.rs`.

The rows of SQLite and the times of the loop meet where both are multiples of the interval. Before 1970 the loop begins
with a multiple of it only if the interval divides `2 ^ 64`.

* `histogram_eq` — the loops make one element for each time of a grid.
* `givesHistogram_iff` — when the histogram covers the time and loses no event.
-/

namespace EveBox.Sqlite

open Rust Eve Repo SqlText

/-! ## The loops -/

/-- The times from one on. -/
def grid (first step : ℤ) (n : ℕ) : List ℤ := (List.range n).map fun k : ℕ => first + step * k

theorem grid_succ (first step : ℤ) (n : ℕ) : grid first step (n + 1) = first :: grid (first + step) step n := by
  rw [grid, List.range_succ_eq_map, List.map_cons, List.map_map, grid]
  refine congrArg₂ _ (by simp) (List.map_congr_left fun k _ => ?_)
  simp only [Function.comp_apply, Nat.cast_succ]
  ring

theorem grid_append (first step : ℤ) (m n : ℕ) :
    grid first step (m + n) = grid first step m ++ grid (first + step * m) step n := by
  rw [grid, List.range_add, List.map_append, List.map_map, grid, grid]
  refine congrArg _ (List.map_congr_left fun k _ => ?_)
  simp only [Function.comp_apply, Nat.cast_add]
  ring

theorem mem_grid {first step t : ℤ} {n : ℕ} : t ∈ grid first step n ↔ ∃ k : ℕ, k < n ∧ first + step * k = t := by
  simp only [grid, List.mem_map, List.mem_range]

section

variable {lib : TimeLib} {step stop : ℤ}

/-- The element of a time that `chrono` has. -/
def Element.at (lib : TimeLib) (t : ℤ) (count : ℕ) : Element :=
  ⟨t * 1000, count, (DateTime.fromNanos (t * 1000000000)).toEve lib⟩

/-- A second that `chrono` has. -/
def InChrono (t : ℤ) : Prop := firstSecond ≤ t ∧ t ≤ lastSecond

theorem element_eq {t : ℤ} (h : InChrono t) (count : ℕ) : element lib t count = some (.at lib t count) := by
  have hrange : firstSecond ≤ t ∧ t ≤ lastSecond := h
  rw [element, fromSeconds, if_pos hrange]
  rfl

theorem element_some {t : ℤ} {count : ℕ} {e : Element} (h : element lib t count = some e) :
    InChrono t ∧ e = .at lib t count := by
  obtain ⟨dt, hdt, rfl⟩ := Option.map_eq_some_iff.mp h
  unfold fromSeconds at hdt
  split_ifs at hdt with ht
  obtain rfl := Option.some.inj hdt
  exact ⟨ht, rfl⟩

theorem addI64_eq {a b : ℤ} (h : -2 ^ 63 ≤ a + b) (h' : a + b < 2 ^ 63) : addI64 a b = some (a + b) := if_pos ⟨h, h'⟩

/-- The loop fills in zeros up to a time, if `chrono` has these times. -/
theorem fill_eq (hstep : 0 < step) (n : ℕ) : ∀ {fuel : ℕ} {next : ℤ}, n < fuel → stop ≤ next + step * n →
    (∀ k < n, InChrono (next + step * (k : ℕ)) ∧ next + step * (k : ℕ) < stop) → next + step * n < 2 ^ 63 →
    fill lib step stop fuel next = some ((grid next step n).map fun t => .at lib t 0, next + step * n) := by
  induction n with
  | zero =>
      intro fuel next hfuel hstop _ _
      obtain ⟨fuel, rfl⟩ := Nat.exists_eq_add_one_of_ne_zero (Nat.ne_of_gt hfuel)
      have hnot : ¬ next < stop := by simpa using hstop
      rw [fill, if_neg hnot]
      simp [grid]
  | succ n ih =>
      intro fuel next hfuel hstop hgrid hbound
      obtain ⟨fuel, rfl⟩ := Nat.exists_eq_add_one_of_ne_zero (Nat.ne_of_gt (Nat.zero_lt_of_lt hfuel))
      have hnext := hgrid 0 (Nat.succ_pos n)
      simp only [Nat.cast_zero, mul_zero, add_zero] at hnext
      push_cast at hstop hbound
      have hstep' : step ≤ step * (n + 1) := le_mul_of_one_le_right hstep.le (by omega)
      have hfirst : firstSecond ≤ next := hnext.1.1
      unfold firstSecond at hfirst
      rw [fill, if_pos hnext.2, element_eq hnext.1, addI64_eq (by omega) (by omega)]
      have heq : next + step * (n + 1) = next + step + step * n := by ring
      have hrest : fill lib step stop fuel (next + step) =
          some ((grid (next + step) step n).map fun t => .at lib t 0, next + step + step * n) :=
        ih (by omega) (by omega) (fun k hk => ?_) (by omega)
      · simp only [Option.bind_eq_bind, Option.bind_some, hrest, grid_succ, List.map_cons, Nat.cast_add, Nat.cast_one, heq]
      · have hk' := hgrid (k + 1) (by omega)
        rw [show next + step * ((k + 1 : ℕ) : ℤ) = next + step + step * k by push_cast; ring] at hk'
        exact hk'

/-- As many times as `chrono` has. -/
theorem lt_passes {next : ℤ} {n : ℕ} (hstep : 0 < step) (h : ∀ k < n, InChrono (next + step * (k : ℕ))) : n < passes := by
  unfold passes
  rcases Nat.eq_zero_or_pos n with rfl | hpos
  · decide
  · have hfirst := (h 0 hpos).1
    have hlast := (h (n - 1) (by omega)).2
    have hle : ((n - 1 : ℕ) : ℤ) ≤ step * ((n - 1 : ℕ) : ℤ) := le_mul_of_one_le_left (by omega) hstep
    unfold firstSecond at hfirst
    unfold lastSecond at hlast
    simp only [Nat.cast_zero, mul_zero, add_zero] at hfirst
    omega

/-- The count of a time. -/
def countAt (rows : List (ℤ × ℕ)) (t : ℤ) : ℕ := (rows.lookup t).getD 0

variable (lib) in
/-- The loop over rows that lie on the grid. -/
theorem walk_eq (hstep : 0 < step) {rows : List (ℤ × ℕ)} (hsorted : rows.Pairwise fun a b => a.1 < b.1)
    (hrange : ∀ row ∈ rows, row.1 ≤ lastSecond ∧ row.1 + step < 2 ^ 63) :
    ∀ {next : ℤ}, firstSecond ≤ next → (∀ row ∈ rows, ∃ k : ℕ, row.1 = next + step * k) →
    ∃ n : ℕ, walk lib step rows next = some ((grid next step n).map fun t => .at lib t (countAt rows t), next + step * n) ∧
      (∀ row ∈ rows, ∃ k : ℕ, k < n ∧ row.1 = next + step * k) ∧
      (n = 0 ∨ ∃ row ∈ rows, next + step * n = row.1 + step) := by
  induction rows with
  | nil =>
      intro next _ _
      exact ⟨0, by simp [walk, grid], fun row hrow => absurd hrow List.not_mem_nil, .inl rfl⟩
  | cons row rows ih =>
      intro next hnext hgrid
      obtain ⟨time, count⟩ := row
      obtain ⟨htime, hrows⟩ := List.pairwise_cons.mp hsorted
      obtain ⟨hlast, hbound⟩ := hrange _ List.mem_cons_self
      obtain ⟨k, hk⟩ := hgrid _ List.mem_cons_self
      dsimp only at htime hlast hbound hk
      have hchrono : ∀ j ≤ k, InChrono (next + step * (j : ℕ)) := by
        intro j hj
        have hle : step * (j : ℤ) ≤ step * k := mul_le_mul_of_nonneg_left (by exact_mod_cast hj) hstep.le
        have hpos : 0 ≤ step * (j : ℤ) := mul_nonneg hstep.le (by omega)
        exact ⟨by omega, by omega⟩
      have hbefore : ∀ j < k, next + step * (j : ℕ) < time := by
        intro j hj
        rw [hk]
        have hlt : step * (j : ℤ) < step * k := mul_lt_mul_of_pos_left (by exact_mod_cast hj) hstep
        omega
      have hpos : 0 ≤ step * (k : ℤ) := mul_nonneg hstep.le (by omega)
      have hzeros : fill lib step time passes next =
          some ((grid next step k).map fun t => .at lib t 0, next + step * k) := fill_eq hstep k
        (lt_passes hstep fun j hj => hchrono j hj.le) (by omega) (fun j hj => ⟨hchrono j hj.le, hbefore j hj⟩) (by omega)
      have hthis : InChrono time := hk ▸ hchrono k le_rfl
      unfold firstSecond at hnext
      have hadd : addI64 (next + step * k) step = some (next + step * k + step) := addI64_eq (by omega) (by omega)
      have hnext' : firstSecond ≤ next + step * k + step := by
        unfold firstSecond
        omega
      have hgrid' : ∀ row ∈ rows, ∃ j : ℕ, row.1 = next + step * k + step + step * j := by
        intro row hrow
        obtain ⟨j, hj⟩ := hgrid row (List.mem_cons_of_mem _ hrow)
        have hlt : k < j := by
          have hlt := htime row hrow
          rw [hj, hk] at hlt
          have := lt_of_mul_lt_mul_left (by omega : step * (k : ℤ) < step * j) hstep.le
          exact_mod_cast this
        refine ⟨j - (k + 1), ?_⟩
        rw [hj, Nat.cast_sub (by omega)]
        push_cast
        ring
      obtain ⟨n, hwalk, hmem, hfinal⟩ := ih hrows (fun row hrow => hrange row (List.mem_cons_of_mem _ hrow)) hnext' hgrid'
      refine ⟨k + 1 + n, ?_, ?_, .inr ?_⟩
      · have hnew : ∀ t ∈ grid next step k, countAt ((time, count) :: rows) t = 0 := by
          intro t ht
          obtain ⟨j, hj, rfl⟩ := mem_grid.mp ht
          have hnone : ((time, count) :: rows).lookup (next + step * j) = none := by
            rw [List.lookup_eq_none_iff]
            intro row hrow
            have hlt := hbefore j hj
            rcases List.mem_cons.mp hrow with rfl | hrow
            · simpa using ne_of_lt hlt
            · simpa using ne_of_lt (hlt.trans (htime row hrow))
          rw [countAt, hnone, Option.getD_none]
        have hthere : countAt ((time, count) :: rows) time = count := by simp [countAt]
        have hrest : ∀ t ∈ grid (next + step * k + step) step n, countAt ((time, count) :: rows) t = countAt rows t := by
          intro t ht
          obtain ⟨j, -, rfl⟩ := mem_grid.mp ht
          have hne : (next + step * k + step + step * j == time) = false := by
            have hnonneg : 0 ≤ step * (j : ℤ) := mul_nonneg hstep.le (by omega)
            simp only [beq_eq_false_iff_ne]
            omega
          rw [countAt, countAt, List.lookup_cons, hne]
        rw [walk, element_eq hthis, hzeros]
        have hend : next + step * k + step + step * n = next + step * ((k + 1 + n : ℕ) : ℤ) := by
          push_cast
          ring
        have hmiddle : next + step * ((k + 1 : ℕ) : ℤ) = next + step * k + step := by
          push_cast
          ring
        simp only [Option.bind_eq_bind, Option.bind_some, hadd, hwalk, hend]
        rw [grid_append, grid_append, hmiddle, List.map_append, List.map_append, List.append_assoc,
          List.map_congr_left fun t ht => congrArg (Element.at lib t) (hnew t ht),
          List.map_congr_left fun t ht => congrArg (Element.at lib t) (hrest t ht)]
        simp [grid, ← hk, hthere]
      · intro row hrow
        rcases List.mem_cons.mp hrow with rfl | hrow
        · exact ⟨k, by omega, hk⟩
        · obtain ⟨j, hj, hrow⟩ := hmem row hrow
          refine ⟨k + 1 + j, by omega, ?_⟩
          rw [hrow]
          push_cast
          ring
      · rcases hfinal with rfl | ⟨row, hrow, hfinal⟩
        · refine ⟨_, List.mem_cons_self, ?_⟩
          rw [hk]
          push_cast
          ring
        · refine ⟨row, List.mem_cons_of_mem _ hrow, ?_⟩
          rw [← hfinal]
          push_cast
          ring

variable (lib) in
/-- The loops make one element for each time of a grid: from the first to the last one, and to the last row. -/
theorem histogram_eq (hstep : 0 < step) {rows : List (ℤ × ℕ)} {start last : ℤ}
    (hsorted : rows.Pairwise fun a b => a.1 < b.1)
    (hrange : ∀ row ∈ rows, row.1 ≤ lastSecond ∧ row.1 + step < 2 ^ 63) (hstart : firstSecond ≤ start)
    (hstart' : start < 2 ^ 63) (hgrid : ∀ row ∈ rows, ∃ k : ℕ, row.1 = start + step * k) (hlast : last ≤ lastSecond) (hbound : last + step < 2 ^ 63)
    (haligned : ∃ j : ℤ, last = start + step * j) :
    ∃ n : ℕ, histogram lib step start last rows = some ((grid start step n).map fun t => .at lib t (countAt rows t)) ∧
      (∀ row ∈ rows, row.1 ∈ grid start step n) ∧ ∀ k : ℕ, start + step * k ≤ last → k < n := by
  obtain ⟨n, hwalk, hmem, hfinal⟩ := walk_eq lib hstep hsorted hrange hstart hgrid
  obtain ⟨j, hj⟩ := haligned
  have hpos : ∀ k : ℕ, 0 ≤ step * (k : ℤ) := fun k => mul_nonneg hstep.le (by omega)
  -- the times that are left
  obtain ⟨m, hm, hleft⟩ : ∃ m : ℕ, last < start + step * ((n + m : ℕ) : ℤ) ∧
      ∀ k < m, start + step * ((n + k : ℕ) : ℤ) ≤ last := by
    refine ⟨(j + 1 - n).toNat, ?_, fun k hk => ?_⟩
    · have hle : j + 1 ≤ ((n + (j + 1 - n).toNat : ℕ) : ℤ) := by omega
      have := mul_le_mul_of_nonneg_left hle hstep.le
      rw [hj]
      linarith
    · have hle : ((n + k : ℕ) : ℤ) ≤ j := by omega
      have := mul_le_mul_of_nonneg_left hle hstep.le
      rw [hj]
      linarith
  have htime : ∀ k : ℕ, start + step * n + step * (k : ℤ) = start + step * ((n + k : ℕ) : ℤ) := fun k => by
    push_cast
    ring
  have hchrono : ∀ k < m, InChrono (start + step * n + step * (k : ℤ)) := by
    intro k hk
    rw [htime]
    exact ⟨by have := hpos (n + k); omega, (hleft k hk).trans hlast⟩
  have hend : start + step * n + step * (m : ℤ) < 2 ^ 63 := by
    rcases Nat.eq_zero_or_pos m with rfl | hmpos
    · rcases hfinal with rfl | ⟨row, hrow, hfinal⟩
      · simpa using hstart'
      · have := (hrange row hrow).2
        simp only [Nat.cast_zero, mul_zero, add_zero]
        omega
    · have := hleft (m - 1) (by omega)
      have heq : start + step * n + step * (m : ℤ) = start + step * ((n + (m - 1) : ℕ) : ℤ) + step := by
        rw [htime, show n + m = n + (m - 1) + 1 by omega]
        push_cast
        ring
      omega
  have hfill : fill lib step (last + 1) passes (start + step * n) =
      some ((grid (start + step * n) step m).map fun t => .at lib t 0, start + step * n + step * m) :=
    fill_eq hstep m (lt_passes hstep hchrono) (by rw [htime]; omega) (fun k hk => ⟨hchrono k hk, by rw [htime]; have := hleft k hk; omega⟩) hend
  refine ⟨n + m, ?_, ?_, ?_⟩
  · rw [histogram, hwalk]
    simp only [Option.bind_eq_bind, Option.bind_some, hfill]
    have hzero : ∀ t ∈ grid (start + step * n) step m, Element.at lib t 0 = Element.at lib t (countAt rows t) := by
      intro t ht
      obtain ⟨k, -, rfl⟩ := mem_grid.mp ht
      have hnone : rows.lookup (start + step * n + step * k) = none := by
        rw [List.lookup_eq_none_iff]
        intro row hrow
        obtain ⟨i, hi, hrow⟩ := hmem row hrow
        have hlt : step * (i : ℤ) < step * ((n + k : ℕ) : ℤ) :=
          mul_lt_mul_of_pos_left (by exact_mod_cast (by omega : i < n + k)) hstep
        have hne : start + step * n + step * k ≠ row.1 := by
          rw [htime, hrow]
          omega
        exact bne_iff_ne.mpr hne
      rw [countAt, hnone, Option.getD_none]
    rw [grid_append, List.map_append, List.map_congr_left hzero]
  · intro row hrow
    obtain ⟨k, hk, hrow⟩ := hmem row hrow
    exact mem_grid.mpr ⟨k, by omega, hrow.symm⟩
  · intro k hk
    by_contra hnot
    have hle : step * ((n + m : ℕ) : ℤ) ≤ step * (k : ℤ) :=
      mul_le_mul_of_nonneg_left (by exact_mod_cast Nat.le_of_not_lt hnot) hstep.le
    omega

end

/-! ## The rows -/

/-- The rows of the statement, in their order. -/
structure BucketRows (interval : ℕ) (timestamps : List ℤ) (rows : List (ℤ × ℕ)) : Prop where
  sorted : rows.Pairwise fun a b => a.1 < b.1
  mem : ∀ t, t ∈ rows.map (·.1) ↔ ∃ ts ∈ timestamps, bucket interval ts = t
  count : ∀ t, countAt rows t = timestamps.countP fun ts => bucket interval ts = t

theorem bucketRows_spec {interval : ℕ} (h : interval < 2 ^ 63) (timestamps : List ℤ) :
    ∃ rows, bucketRows interval timestamps = some rows ∧ BucketRows interval timestamps rows := by
  refine ⟨_, if_pos h, ?_, fun t => ?_, fun t => ?_⟩
  · rw [List.pairwise_map]
    have hle : ∀ a b c : ℤ, decide (a ≤ b) = true → decide (b ≤ c) = true → decide (a ≤ c) = true := fun a b c hab hbc =>
      decide_eq_true ((of_decide_eq_true hab).trans (of_decide_eq_true hbc))
    have hsorted := List.pairwise_mergeSort hle (fun a b => by simpa using le_total a b)
      (timestamps.map (bucket interval)).dedup
    have hnodup : ((timestamps.map (bucket interval)).dedup.mergeSort (· ≤ ·)).Nodup :=
      (List.mergeSort_perm _ _).nodup_iff.mpr (List.nodup_dedup _)
    exact (hsorted.and hnodup).imp fun hab => lt_of_le_of_ne (of_decide_eq_true hab.1) hab.2
  · rw [List.map_map]
    simp only [List.mem_map, Function.comp_apply, exists_eq_right, List.mem_mergeSort, List.mem_dedup]
  · have hcount : (timestamps.map (bucket interval)).count t = timestamps.countP fun ts => bucket interval ts = t := by
      rw [List.count, List.countP_map]
      exact List.countP_congr fun ts _ => by simp
    rw [countAt]
    by_cases ht : t ∈ timestamps.map (bucket interval)
    · rw [List.lookup_graph _ (by simpa using ht), Option.getD_some, hcount]
    · have hnone : (((timestamps.map (bucket interval)).dedup.mergeSort (· ≤ ·)).map fun time =>
          (time, (timestamps.map (bucket interval)).count time)).lookup t = none := by
        rw [List.lookup_eq_none_iff]
        intro row hrow
        obtain ⟨time, htime, rfl⟩ := List.mem_map.mp hrow
        refine bne_iff_ne.mpr ?_
        rintro rfl
        exact ht (by simpa using htime)
      rw [hnone, Option.getD_none, ← hcount, List.count_eq_zero_of_not_mem ht]

/-! ## The grid -/

theorem nodup_grid {step : ℤ} (hstep : 0 < step) (first : ℤ) (n : ℕ) : (grid first step n).Nodup := by
  refine List.Nodup.map_on (fun j _ k _ h => ?_) List.nodup_range
  have heq : step * (j : ℤ) = step * k := by omega
  exact_mod_cast mul_left_cancel₀ hstep.ne' heq

/-- Elements on a grid that has the times of all events are a histogram. -/
theorem isHistogram_grid {lib : TimeLib} {interval : ℕ} (hpos : 0 < interval) {start earliest now : ℤ} {n : ℕ}
    {timestamps : List ℤ} (hstart : start = earliest / interval * interval)
    (hmem : ∀ ts ∈ timestamps, bucket interval ts ∈ grid start interval n)
    (hlast : ∀ k : ℕ, start + interval * k ≤ now / interval * interval → k < n) :
    IsHistogram interval earliest now timestamps ((grid start interval n).map fun t =>
      .at lib t (timestamps.countP fun ts => bucket interval ts = t)) := by
  have hstep : (0 : ℤ) < interval := by omega
  have htimes : ∀ f : ℤ → ℕ, ((grid start interval n).map fun t => Element.at lib t (f t)).map (·.time) =
      (grid start interval n).map fun t => t * 1000 := fun f => by
    rw [List.map_map]
    rfl
  refine ⟨?_, ?_, ?_, ?_, ?_⟩
  · rw [List.isChain_iff_getElem]
    intro k hk
    simp only [grid, List.getElem_map, List.getElem_range, Element.at, Nat.cast_add, Nat.cast_one]
    ring
  · rintro t ⟨c, rfl⟩ hfrom hto
    rw [htimes]
    refine List.mem_map.mpr ⟨(interval : ℤ) * c, mem_grid.mpr ⟨(c - earliest / interval).toNat, ?_, ?_⟩, by ring⟩
    all_goals
      have hle : earliest / interval ≤ c := by
        rw [mul_comm] at hfrom
        exact le_of_mul_le_mul_left hfrom hstep
      have heq : start + interval * (((c - earliest / interval).toNat : ℕ) : ℤ) = interval * c := by
        rw [Int.toNat_of_nonneg (sub_nonneg.mpr hle), hstart]
        ring
    · exact hlast _ (by rw [heq]; exact hto)
    · exact heq
  · intro e he
    obtain ⟨t, -, rfl⟩ := List.mem_map.mp he
    refine List.countP_congr fun ts _ => ?_
    have heq : bucket interval ts = t ↔ 1000 * bucket interval ts = t * 1000 := by omega
    rw [decide_eq_true_iff, decide_eq_true_iff]
    exact heq
  · intro ts hts
    rw [htimes]
    exact List.mem_map.mpr ⟨_, hmem ts hts, mul_comm _ _⟩
  · rw [List.map_map]
    exact Frequency.sum_countP (nodup_grid hstep start n) hmem

/-! ## Times of a query -/

theorem toNanos_some {ts : DateTime} {nanos : ℤ} (h : ts.toNanos = some nanos) :
    ts.nanos = nanos ∧ -2 ^ 63 ≤ nanos ∧ nanos < 2 ^ 63 := by
  unfold DateTime.toNanos at h
  split_ifs at h with hrange
  obtain rfl := Option.some.inj h
  exact ⟨rfl, hrange⟩

section

variable {engine : Engine} {fts : Bool} {interval : ℕ} {query : List QueryElement} {store : List EventRow}
variable {s : Search} {earliest : DateTime}

theorem histogramSearch_of_statement (h : histogramStatement engine fts interval query = some s) :
    histogramSearch fts query = some s := by
  obtain ⟨b, -, h⟩ := Option.bind_eq_some_iff.mp h
  obtain ⟨s', hs', h⟩ := Option.bind_eq_some_iff.mp h
  split_ifs at h
  rw [hs', Option.some.inj h]

variable (engine) in
/-- The events of a statement are not before its `@from`, which has nanoseconds. -/
theorem from_le (h : histogramSearch fts query = some s) {ts : DateTime} (hts : firstFrom query = some ts) :
    (-2 ^ 63 ≤ ts.nanos ∧ ts.nanos < 2 ^ 63) ∧ ∀ e : EventRow, s.selects engine e = true → ts.nanos ≤ e.timestamp := by
  obtain ⟨terms, hterms, rfl⟩ := Option.map_eq_some_iff.mp h
  obtain ⟨e, he, hvalue⟩ := List.exists_of_findSome?_eq_some hts
  obtain ⟨t, hterm⟩ := exists_of_mem_of_mapM hterms he
  have ht := (mem_of_mapM_eq_some hterms t).mpr ⟨e, he, hterm⟩
  obtain ⟨negated, value⟩ := e
  cases value with
  | fromTime ts' =>
      obtain rfl : ts' = ts := Option.some.inj hvalue
      obtain ⟨c, hc, rfl⟩ := Option.map_eq_some_iff.mp hterm
      obtain ⟨nanos, hnanos, rfl⟩ := Option.map_eq_some_iff.mp hc
      obtain ⟨heq, hrange⟩ := toNanos_some hnanos
      refine ⟨heq ▸ hrange, fun e hselects => ?_⟩
      obtain ⟨r, hr, hpasses⟩ := List.any_eq_true.mp (Bool.and_eq_true_iff.mp hselects).2
      have hcondition := List.all_eq_true.mp hpasses (.compare .ge (.column .timestamp) (.arg (.int nanos)))
        (List.mem_flatMap.mpr ⟨_, ht, List.mem_singleton_self _⟩)
      obtain rfl := (Search.mem_rows.mp hr).1
      rw [Condition.eval, Kleene.holds_ofOperands] at hcondition
      have hge : (!decide (r.event.timestamp < nanos)) = true := hcondition.2.2
      rw [heq]
      simpa using hge
  | _ => cases hvalue

variable (engine) in
/-- The events of a statement are not before the earliest time, which is one of `i64`. -/
theorem earliest_le (h : histogramSearch fts query = some s) (hrange : ∀ e ∈ store, -2 ^ 63 ≤ e.timestamp ∧ e.timestamp < 2 ^ 63)
    (he : earliestOf query store = some earliest) : (-2 ^ 63 ≤ earliest.nanos ∧ earliest.nanos < 2 ^ 63) ∧
      ∀ ts ∈ (store.filter (s.selects engine)).map (·.timestamp), earliest.nanos ≤ ts := by
  unfold earliestOf at he
  cases hfrom : firstFrom query with
  | some ts =>
      rw [hfrom, Option.some_or] at he
      obtain rfl := Option.some.inj he
      obtain ⟨hnanos, hle⟩ := from_le engine h hfrom
      refine ⟨hnanos, fun t ht => ?_⟩
      obtain ⟨e, he, rfl⟩ := List.mem_map.mp ht
      exact hle e (List.mem_filter.mp he).2
  | none =>
      rw [hfrom, Option.none_or] at he
      obtain ⟨ts, hts, rfl⟩ := Option.map_eq_some_iff.mp he
      obtain ⟨hmem, hle⟩ := List.min?_eq_some_iff.mp hts
      obtain ⟨e, hin, rfl⟩ := List.mem_map.mp hmem
      refine ⟨hrange e hin, fun t ht => ?_⟩
      obtain ⟨e', he', rfl⟩ := List.mem_map.mp ht
      exact hle _ (List.mem_map_of_mem (List.mem_filter.mp he').1)

end

/-! ## Divisions -/

theorem tdiv_cases (a b : ℤ) : 0 ≤ a ∧ a.tdiv b = a / b ∨ a < 0 ∧ a.tdiv b = -(-a / b) := by
  rcases le_or_gt 0 a with ha | ha
  · exact .inl ⟨ha, Int.tdiv_eq_ediv_of_nonneg ha⟩
  · refine .inr ⟨ha, ?_⟩
    have h : (-a).tdiv b = -a / b := Int.tdiv_eq_ediv_of_nonneg (by omega)
    rw [Int.neg_tdiv] at h
    omega

/-- A bucket lies between zero and the second of its events. -/
theorem bucket_bounds {interval : ℕ} (hpos : 0 < interval) (ts : ℤ) :
    (0 ≤ ts.tdiv 1000000000 ∧ 0 ≤ bucket interval ts ∧ bucket interval ts ≤ ts.tdiv 1000000000) ∨
      (ts.tdiv 1000000000 < 0 ∧ ts.tdiv 1000000000 ≤ bucket interval ts ∧ bucket interval ts ≤ 0) := by
  have hpos' : (0 : ℤ) < interval := by exact_mod_cast hpos
  unfold bucket
  generalize ts.tdiv 1000000000 = second
  rcases tdiv_cases second interval with ⟨hsecond, heq⟩ | ⟨hsecond, heq⟩
  · rw [heq]
    exact .inl ⟨hsecond, mul_nonneg (Int.ediv_nonneg hsecond hpos'.le) hpos'.le, Int.ediv_mul_le _ hpos'.ne'⟩
  · have hle := Int.ediv_mul_le (-second) hpos'.ne'
    have hnonneg := mul_nonneg (Int.ediv_nonneg (by omega : 0 ≤ -second) hpos'.le) hpos'.le
    rw [heq, neg_mul]
    exact .inr ⟨hsecond, by omega, by omega⟩

theorem second_bounds {ts : ℤ} (h : -2 ^ 63 ≤ ts ∧ ts < 2 ^ 63) :
    -9223372036 ≤ ts.tdiv 1000000000 ∧ ts.tdiv 1000000000 ≤ 9223372036 := by
  rcases tdiv_cases ts 1000000000 with ⟨hts, heq⟩ | ⟨hts, heq⟩ <;> rw [heq] <;> omega

/-- The second of an event is not before that of an earlier time. -/
theorem second_le {nanos ts : ℤ} (h : nanos ≤ ts) : nanos / 1000000000 ≤ ts.tdiv 1000000000 := by
  rcases tdiv_cases ts 1000000000 with ⟨hts, heq⟩ | ⟨hts, heq⟩ <;> rw [heq] <;> omega

/-- The multiples of the interval up to a second. -/
theorem floor_le_bucket {interval : ℕ} (hpos : 0 < interval) {nanos ts : ℤ} (h : nanos ≤ ts) :
    nanos / 1000000000 / interval * interval ≤ bucket interval ts := by
  have hpos' : (0 : ℤ) < interval := by exact_mod_cast hpos
  have hsecond := second_le h
  rcases tdiv_cases (ts.tdiv 1000000000) interval with ⟨hnonneg, heq⟩ | ⟨hneg, -⟩
  · unfold bucket
    rw [heq]
    exact mul_le_mul_of_nonneg_right (Int.ediv_le_ediv hpos' hsecond) hpos'.le
  · have hle := Int.ediv_mul_le (nanos / 1000000000) hpos'.ne'
    rcases bucket_bounds hpos ts with hb | hb
    · omega
    · omega

/-- A multiple of an interval that is a time of `chrono` leaves place for one more interval. -/
theorem multiple_add_lt {interval : ℕ} (h : interval < 2 ^ 63) {q : ℤ} (hq : q * interval ≤ lastSecond) :
    q * interval + interval < 2 ^ 63 := by
  unfold lastSecond at hq
  rcases le_or_gt q 0 with hneg | hpos
  · have := mul_nonpos_of_nonpos_of_nonneg hneg (by omega : (0 : ℤ) ≤ interval)
    omega
  · have := le_mul_of_one_le_left (by omega : (0 : ℤ) ≤ interval) (by omega : 1 ≤ q)
    omega

theorem asI64_of_ge {n : ℕ} (h : 2 ^ 63 ≤ n) (h' : n < 2 ^ 64) : asI64 n = n - 2 ^ 64 := by
  unfold asI64
  rw [Nat.mod_eq_of_lt h', if_neg (by omega)]

theorem lastTime_eq {interval : ℕ} (h : interval < 2 ^ 63) {now : ℤ} (hnow : 0 ≤ now) :
    lastTime interval now = now / interval * interval := by
  rw [lastTime, asI64_of_lt h, Int.tdiv_eq_ediv_of_nonneg hnow]

section

variable {interval : ℕ} {earliest : DateTime}

theorem asU64_cast (n : ℤ) : ((asU64 n : ℕ) : ℤ) = n % 2 ^ 64 := by
  unfold asU64
  omega

theorem startTime_of_nonneg (h : 0 ≤ secondsOf earliest) (h' : secondsOf earliest < 2 ^ 63) :
    startTime interval earliest = secondsOf earliest / interval * interval := by
  have hcast := asU64_cast (secondsOf earliest)
  have hle : asU64 (secondsOf earliest) / interval * interval ≤ asU64 (secondsOf earliest) := Nat.div_mul_le_self _ _
  rw [startTime, asI64_of_lt (by omega)]
  push_cast
  rw [hcast, Int.emod_eq_of_lt h (by omega)]

/-- Before 1970 the time is `2 ^ 64` more than it should be. -/
theorem startTime_of_neg (h : secondsOf earliest < 0) (h' : -2 ^ 63 ≤ secondsOf earliest)
    (hge : 2 ^ 63 ≤ asU64 (secondsOf earliest) / interval * interval) :
    startTime interval earliest = (secondsOf earliest + 2 ^ 64) / interval * interval - 2 ^ 64 := by
  have hcast := asU64_cast (secondsOf earliest)
  have hle : asU64 (secondsOf earliest) / interval * interval ≤ asU64 (secondsOf earliest) := Nat.div_mul_le_self _ _
  have hmod : secondsOf earliest % 2 ^ 64 = secondsOf earliest + 2 ^ 64 := by omega
  rw [startTime, asI64_of_ge hge (by omega)]
  rw [Nat.cast_mul, Int.natCast_ediv, hcast, hmod]

/-- An interval that is not too long has such a time. -/
theorem le_asU64_div (hpos : 0 < interval) (h : secondsOf earliest < 0)
    (h' : -9223372037 ≤ secondsOf earliest) (hsmall : interval < 2 ^ 62) :
    2 ^ 63 ≤ asU64 (secondsOf earliest) / interval * interval := by
  have hcast := asU64_cast (secondsOf earliest)
  have hmod := Nat.div_add_mod' (asU64 (secondsOf earliest)) interval
  have hlt := Nat.mod_lt (asU64 (secondsOf earliest)) hpos
  omega

theorem startTime_of_dvd (hpos : (interval : ℤ) ≠ 0) (hdvd : interval ∣ 2 ^ 64) (h : secondsOf earliest < 0)
    (h' : -2 ^ 63 ≤ secondsOf earliest) (hge : 2 ^ 63 ≤ asU64 (secondsOf earliest) / interval * interval) :
    startTime interval earliest = secondsOf earliest / interval * interval := by
  rw [startTime_of_neg h h' hge]
  obtain ⟨m, hm⟩ := hdvd
  have hcast : (2 : ℤ) ^ 64 = interval * m := by exact_mod_cast hm
  rw [hcast, Int.add_mul_ediv_left _ _ hpos]
  ring

end

/-! ## When it is a histogram -/

section

variable {lib : TimeLib} {engine : Engine} {fts : Bool} {now : ℤ} {interval : Option ℕ} {query : List QueryElement}
variable {store : List EventRow} {earliest : DateTime}

variable (lib) in
theorem histogramTime_eq (he : earliestOf query store = some earliest) (hpos : 0 < intervalOf interval now earliest) {s : Search}
    (hs : histogramStatement engine fts (intervalOf interval now earliest) query = some s) :
    histogramTime lib engine fts now interval query store =
      (bucketRows (intervalOf interval now earliest) ((store.filter (s.selects engine)).map (·.timestamp))).bind
        (histogram lib (asI64 (intervalOf interval now earliest)) (startTime (intervalOf interval now earliest) earliest)
          (lastTime (intervalOf interval now earliest) now)) := by
  unfold histogramTime
  rw [he]
  dsimp only
  rw [if_neg hpos.ne', hs]
  rfl

/-- The times that an interval begins with. -/
theorem startTime_eq {i : ℕ} (hreg : Regular engine fts i query earliest)
    (hnanos : -2 ^ 63 ≤ earliest.nanos ∧ earliest.nanos < 2 ^ 63) :
    startTime i earliest = secondsOf earliest / i * i ∧ firstSecond ≤ secondsOf earliest / i * i := by
  have hsecond : -9223372037 ≤ secondsOf earliest ∧ secondsOf earliest ≤ 9223372036 := by
    unfold secondsOf
    omega
  have hpos := hreg.pos
  have hpos' : (0 : ℤ) < i := by exact_mod_cast hpos
  rcases le_or_gt 0 (secondsOf earliest) with hnonneg | hneg
  · refine ⟨startTime_of_nonneg hnonneg (by omega), ?_⟩
    have := mul_nonneg (Int.ediv_nonneg hnonneg hpos'.le) hpos'.le
    unfold firstSecond
    omega
  · obtain ⟨hdvd, hfirst⟩ := hreg.fits.resolve_left (by omega)
    refine ⟨startTime_of_dvd hpos'.ne' hdvd hneg (by omega) (le_asU64_div hpos hneg (by omega) ?_), hfirst⟩
    -- the multiple before zero is one of `chrono`
    have hquot : secondsOf earliest / i ≤ -1 := by
      have := Int.ediv_neg_of_neg_of_pos hneg hpos'
      omega
    have hle := mul_le_mul_of_nonneg_right hquot hpos'.le
    unfold firstSecond at hfirst
    omega

theorem givesHistogram_of_regular (hrange : ∀ e ∈ store, -2 ^ 63 ≤ e.timestamp ∧ e.timestamp < 2 ^ 63)
    (hnow : 0 ≤ now ∧ now ≤ lastSecond) (he : earliestOf query store = some earliest)
    (hreg : Regular engine fts (intervalOf interval now earliest) query earliest) :
    GivesHistogram lib engine fts now interval query store := by
  obtain ⟨s, hs⟩ := Option.isSome_iff_exists.mp hreg.runs
  have hpos := hreg.pos
  have hsmall := hreg.small
  obtain ⟨hnanos, hle⟩ := earliest_le engine (histogramSearch_of_statement hs) hrange he
  obtain ⟨hstart, hfirst⟩ := startTime_eq hreg hnanos
  have heq := histogramTime_eq lib he hpos hs
  have hlast := lastTime_eq hsmall hnow.1
  rw [asI64_of_lt hsmall, hstart, hlast] at heq
  generalize hi : intervalOf interval now earliest = i at *
  have hpos' : (0 : ℤ) < i := by exact_mod_cast hpos
  obtain ⟨rows, hrows, hspec⟩ := bucketRows_spec hsmall ((store.filter (s.selects engine)).map (·.timestamp))
  -- the rows lie on the grid
  have hrow : ∀ row ∈ rows, (row.1 ≤ lastSecond ∧ row.1 + i < 2 ^ 63) ∧
      ∃ k : ℕ, row.1 = secondsOf earliest / i * i + i * k := by
    intro row hin
    obtain ⟨ts, hts, hbucket⟩ := (hspec.mem row.1).mp (List.mem_map_of_mem hin)
    obtain ⟨e, hin, rfl⟩ := List.mem_map.mp hts
    have hsecond := second_bounds (hrange e (List.mem_filter.mp hin).1)
    have hbounds := bucket_bounds hpos e.timestamp
    have hge := floor_le_bucket hpos (hle _ hts)
    have hmul : bucket i e.timestamp = (e.timestamp.tdiv 1000000000).tdiv i * i := rfl
    rw [← hbucket]
    have hlastSecond : bucket i e.timestamp ≤ lastSecond := by
      unfold lastSecond
      omega
    refine ⟨⟨hlastSecond, multiple_add_lt hsmall hlastSecond⟩,
      ((e.timestamp.tdiv 1000000000).tdiv i - secondsOf earliest / i).toNat, ?_⟩
    have hnonneg : secondsOf earliest / i ≤ (e.timestamp.tdiv 1000000000).tdiv i := by
      refine le_of_mul_le_mul_right ?_ hpos'
      rw [← hmul]
      exact hge
    rw [Int.toNat_of_nonneg (sub_nonneg.mpr hnonneg), hmul]
    ring
  have hlastNow : now / i * i ≤ lastSecond := (Int.ediv_mul_le _ hpos'.ne').trans hnow.2
  have hstart' : secondsOf earliest / i * i < 2 ^ 63 := by
    have := Int.ediv_mul_le (secondsOf earliest) hpos'.ne'
    have : secondsOf earliest ≤ 9223372036 := by
      unfold secondsOf
      omega
    omega
  obtain ⟨n, hhistogram, hmem, hcovers⟩ := histogram_eq lib hpos' hspec.sorted (fun row hin => (hrow row hin).1)
    hfirst hstart' (fun row hin => (hrow row hin).2) hlastNow (multiple_add_lt hsmall hlastNow)
    ⟨now / i - secondsOf earliest / i, by ring⟩
  rw [hrows, Option.bind_some, hhistogram] at heq
  refine ⟨_, s, earliest, heq, he, by rw [hi]; exact hs, ?_⟩
  rw [hi, List.map_congr_left fun t _ => congrArg (Element.at lib t) (hspec.count t)]
  refine isHistogram_grid hpos rfl (fun ts hts => ?_) hcovers
  obtain ⟨row, hrow, heq⟩ := List.mem_map.mp ((hspec.mem _).mpr ⟨ts, hts, rfl⟩)
  rw [← heq]
  exact hmem row hrow

/-! ### Otherwise -/

theorem inChrono_of_mem_fill {step stop : ℤ} : ∀ {fuel : ℕ} {next : ℤ} {elements : List Element} {final : ℤ},
    fill lib step stop fuel next = some (elements, final) → ∀ e ∈ elements, ∃ t, InChrono t ∧ e.time = t * 1000
  | 0, _, _, _, h => nomatch h
  | fuel + 1, next, elements, final, h => by
      rw [fill] at h
      split_ifs at h with hlt
      · obtain ⟨e, he, h⟩ := Option.bind_eq_some_iff.mp h
        obtain ⟨next', -, h⟩ := Option.bind_eq_some_iff.mp h
        obtain ⟨rest, hrest, h⟩ := Option.bind_eq_some_iff.mp h
        obtain ⟨rfl, rfl⟩ := Prod.mk.inj (Option.some.inj h)
        obtain ⟨ht, rfl⟩ := element_some he
        intro x hx
        rcases List.mem_cons.mp hx with rfl | hx
        · exact ⟨next, ht, rfl⟩
        · exact inChrono_of_mem_fill hrest x hx
      · obtain ⟨rfl, rfl⟩ := Prod.mk.inj (Option.some.inj h)
        exact fun e he => absurd he List.not_mem_nil

theorem inChrono_of_mem_walk {step : ℤ} {rows : List (ℤ × ℕ)} : ∀ {next : ℤ} {elements : List Element} {final : ℤ},
    walk lib step rows next = some (elements, final) → ∀ e ∈ elements, ∃ t, InChrono t ∧ e.time = t * 1000 := by
  induction rows with
  | nil =>
      intro next elements final h
      obtain ⟨rfl, rfl⟩ := Prod.mk.inj (Option.some.inj h)
      exact fun e he => absurd he List.not_mem_nil
  | cons row rows ih =>
      intro next elements final h
      obtain ⟨time, count⟩ := row
      obtain ⟨e, he, h⟩ := Option.bind_eq_some_iff.mp h
      obtain ⟨zeros, hzeros, h⟩ := Option.bind_eq_some_iff.mp h
      obtain ⟨next', -, h⟩ := Option.bind_eq_some_iff.mp h
      obtain ⟨rest, hrest, h⟩ := Option.bind_eq_some_iff.mp h
      obtain ⟨rfl, rfl⟩ := Prod.mk.inj (Option.some.inj h)
      obtain ⟨ht, rfl⟩ := element_some he
      intro x hx
      rcases List.mem_append.mp hx with hx | hx
      · exact inChrono_of_mem_fill hzeros x hx
      · rcases List.mem_cons.mp hx with rfl | hx
        · exact ⟨time, ht, rfl⟩
        · exact ih hrest x hx

/-- The times of the elements are times of `chrono`. -/
theorem inChrono_of_mem_histogram {step start last : ℤ} {rows : List (ℤ × ℕ)} {elements : List Element}
    (h : histogram lib step start last rows = some elements) : ∀ e ∈ elements, ∃ t, InChrono t ∧ e.time = t * 1000 := by
  obtain ⟨filled, hfilled, h⟩ := Option.bind_eq_some_iff.mp h
  obtain ⟨zeros, hzeros, h⟩ := Option.bind_eq_some_iff.mp h
  obtain rfl := Option.some.inj h
  intro e he
  rcases List.mem_append.mp he with he | he
  · exact inChrono_of_mem_walk hfilled e he
  · exact inChrono_of_mem_fill hzeros e he

/-- A loop that goes down does not end. -/
theorem fill_of_neg {step stop : ℤ} (hstep : step < 0) : ∀ (fuel : ℕ) {next : ℤ}, next < stop →
    fill lib step stop fuel next = none
  | 0, _, _ => rfl
  | fuel + 1, next, h => by
      rw [fill, if_pos h]
      cases helement : element lib next 0 with
      | none => rfl
      | some e =>
          cases hadd : addI64 next step with
          | none => rfl
          | some next' =>
              have hnext : next' = next + step := by
                unfold addI64 at hadd
                split_ifs at hadd
                exact (Option.some.inj hadd).symm
              rw [Option.bind_eq_bind, Option.bind_some, Option.bind_eq_bind, Option.bind_some,
                fill_of_neg hstep fuel (by omega)]
              rfl

/-- A loop that begins before its end begins with an element of its time. -/
theorem head_of_fill {step stop next : ℤ} {fuel : ℕ} {elements : List Element} {final : ℤ} (hlt : next < stop)
    (h : fill lib step stop fuel next = some (elements, final)) : ∃ rest, elements = .at lib next 0 :: rest := by
  cases fuel with
  | zero => exact nomatch h
  | succ fuel =>
      rw [fill, if_pos hlt] at h
      obtain ⟨e, he, h⟩ := Option.bind_eq_some_iff.mp h
      obtain ⟨next', -, h⟩ := Option.bind_eq_some_iff.mp h
      obtain ⟨rest, -, h⟩ := Option.bind_eq_some_iff.mp h
      obtain ⟨rfl, rfl⟩ := Prod.mk.inj (Option.some.inj h)
      exact ⟨rest.1, by rw [(element_some he).2]⟩

/-- Before all rows and the end, the first element has the time that the loops begin with. -/
theorem head_of_histogram {step start last : ℤ} {rows : List (ℤ × ℕ)} {elements : List Element}
    (hrows : ∀ row ∈ rows, start < row.1) (hlast : start ≤ last)
    (h : histogram lib step start last rows = some elements) : ∃ rest, elements = .at lib start 0 :: rest := by
  obtain ⟨filled, hfilled, h⟩ := Option.bind_eq_some_iff.mp h
  obtain ⟨zeros, hzeros, h⟩ := Option.bind_eq_some_iff.mp h
  obtain rfl := Option.some.inj h
  cases rows with
  | nil =>
      obtain rfl := Option.some.inj hfilled
      obtain ⟨rest, hrest⟩ := head_of_fill (by omega) hzeros
      exact ⟨rest, hrest⟩
  | cons row rows =>
      obtain ⟨time, count⟩ := row
      obtain ⟨e, -, hfilled⟩ := Option.bind_eq_some_iff.mp hfilled
      obtain ⟨first, hfirst, hfilled⟩ := Option.bind_eq_some_iff.mp hfilled
      obtain ⟨next', -, hfilled⟩ := Option.bind_eq_some_iff.mp hfilled
      obtain ⟨rest, -, hfilled⟩ := Option.bind_eq_some_iff.mp hfilled
      obtain rfl := Option.some.inj hfilled
      obtain ⟨rest', hrest'⟩ := head_of_fill (hrows _ List.mem_cons_self) hfirst
      dsimp only
      rw [hrest']
      exact ⟨_, rfl⟩

/-- The times of a histogram are a multiple of the interval apart. -/
theorem dvd_of_steps {d : ℤ} {e : Element} {elements : List Element}
    (h : (e :: elements).IsChain fun a b => b.time = a.time + d) : ∀ x ∈ e :: elements, d ∣ x.time - e.time := by
  induction elements generalizing e with
  | nil =>
      intro x hx
      obtain rfl := List.mem_singleton.mp hx
      rw [sub_self]
      exact dvd_zero d
  | cons e' elements ih =>
      obtain ⟨hstep, hrest⟩ := List.isChain_cons_cons.mp h
      intro x hx
      rcases List.mem_cons.mp hx with rfl | hx
      · rw [sub_self]
        exact dvd_zero d
      · obtain ⟨c, hc⟩ := ih hrest x hx
        exact ⟨c + 1, by rw [mul_add, ← hc, hstep]; ring⟩

/-- An interval from `2 ^ 63` on is negative for the loops, which go down. -/
theorem small_of_histogramTime (he : earliestOf query store = some earliest) (hint : intervalOf interval now earliest < 2 ^ 64)
    (hpos : 0 < intervalOf interval now earliest) (hnow : 0 ≤ now) {s : Search}
    (hs : histogramStatement engine fts (intervalOf interval now earliest) query = some s) {elements : List Element}
    (h : histogramTime lib engine fts now interval query store = some elements) : intervalOf interval now earliest < 2 ^ 63 := by
  by_contra hlarge
  rw [histogramTime_eq lib he hpos hs, bucketRows, if_neg hlarge] at h
  generalize intervalOf interval now earliest = i at *
  split_ifs at h with hnil
  · have hstep : asI64 i < 0 := by
      rw [asI64_of_ge (by omega) hint]
      omega
    have hlast : 0 ≤ lastTime i now := by
      obtain ⟨d, hd⟩ : ∃ d : ℤ, asI64 i = -d := ⟨-asI64 i, (neg_neg _).symm⟩
      rw [lastTime, hd, Int.tdiv_neg, Int.tdiv_eq_ediv_of_nonneg hnow, neg_mul_neg]
      exact mul_nonneg (Int.ediv_nonneg hnow (by omega)) (by omega)
    have hstart : startTime i earliest ≤ 0 := by
      have hcast := asU64_cast (secondsOf earliest)
      have hquot : asU64 (secondsOf earliest) / i ≤ 1 := by
        rw [Nat.div_le_iff_le_mul_add_pred hpos]
        omega
      unfold startTime
      rcases Nat.le_one_iff_eq_zero_or_eq_one.mp hquot with hq | hq
      · rw [hq, zero_mul]
        decide
      · rw [hq, one_mul]
        exact hstep.le
    obtain ⟨filled, hfilled, h⟩ := Option.bind_eq_some_iff.mp h
    obtain rfl := Option.some.inj hfilled
    obtain ⟨zeros, hzeros, -⟩ := Option.bind_eq_some_iff.mp h
    rw [fill_of_neg hstep passes (by dsimp only; omega)] at hzeros
    exact nomatch hzeros
  · exact nomatch h

/-- Before 1970 the first time is covered only if it is where the loops begin. -/
theorem fits_of_histogram {i : ℕ} (hpos : 0 < i) (hnow : 0 ≤ now) {timestamps : List ℤ}
    (hnanos : -2 ^ 63 ≤ earliest.nanos ∧ earliest.nanos < 2 ^ 63) (hle : ∀ ts ∈ timestamps, earliest.nanos ≤ ts)
    {rows : List (ℤ × ℕ)} (hrows : BucketRows i timestamps rows) {elements : List Element}
    (h : histogram lib i (startTime i earliest) (now / i * i) rows = some elements)
    (hhist : IsHistogram i (secondsOf earliest) now timestamps elements) :
    0 ≤ secondsOf earliest ∨ i ∣ 2 ^ 64 ∧ firstSecond ≤ secondsOf earliest / i * i := by
  rcases le_or_gt 0 (secondsOf earliest) with hnonneg | hneg
  · exact .inl hnonneg
  have hpos' : (0 : ℤ) < i := by exact_mod_cast hpos
  have hsecond : -9223372037 ≤ secondsOf earliest := by
    unfold secondsOf
    omega
  have hfloor := Int.ediv_mul_le (secondsOf earliest) hpos'.ne'
  have hnowNonneg := mul_nonneg (Int.ediv_nonneg hnow hpos'.le) hpos'.le
  -- the multiple before the first time is covered, so `chrono` has it
  have hcovered := hhist.covers (secondsOf earliest / i * i) (dvd_mul_left _ _) le_rfl (by omega)
  obtain ⟨e, hin, htime⟩ := List.mem_map.mp hcovered
  obtain ⟨t, ht, hetime⟩ := inChrono_of_mem_histogram h e hin
  have hfirst : firstSecond ≤ secondsOf earliest / i * i := by
    have := ht.1
    omega
  refine .inr ⟨?_, hfirst⟩
  have hquot : secondsOf earliest / i ≤ -1 := by
    have := Int.ediv_neg_of_neg_of_pos hneg hpos'
    omega
  have hle' := mul_le_mul_of_nonneg_right hquot hpos'.le
  have hge : 2 ^ 63 ≤ asU64 (secondsOf earliest) / i * i := by
    refine le_asU64_div hpos hneg hsecond ?_
    unfold firstSecond at hfirst
    omega
  have hstart := startTime_of_neg hneg (by omega) hge
  have hstartLe : startTime i earliest ≤ secondsOf earliest := by
    have := Int.ediv_mul_le (secondsOf earliest + 2 ^ 64) hpos'.ne'
    omega
  by_contra hdvd
  have hdvd_of : ∀ q : ℤ, startTime i earliest = q * i → i ∣ 2 ^ 64 := by
    intro q hq
    have hpow : (secondsOf earliest + 2 ^ 64) / i * i - q * i = 2 ^ 64 := by omega
    have heq : ((2 ^ 64 : ℕ) : ℤ) = i * ((secondsOf earliest + 2 ^ 64) / i - q) := by
      rw [mul_comm, sub_mul, hpow]
      rfl
    exact Int.natCast_dvd_natCast.mp ⟨_, heq⟩
  obtain ⟨rest, rfl⟩ : ∃ rest, elements = .at lib (startTime i earliest) 0 :: rest := by
    refine head_of_histogram (fun row hrow => ?_) (by omega) h
    obtain ⟨ts, hts, hbucket⟩ := (hrows.mem row.1).mp (List.mem_map_of_mem hrow)
    rw [← hbucket]
    -- a row in its place is one of the first second, which is a multiple of the interval
    by_contra hnot
    have hbounds := bucket_bounds hpos ts
    have hsecondLe : secondsOf earliest ≤ ts.tdiv 1000000000 := second_le (hle ts hts)
    have hmul : bucket i ts = (ts.tdiv 1000000000).tdiv i * i := rfl
    have hbucketLe : bucket i ts ≤ secondsOf earliest / i * i := by
      have hq : (ts.tdiv 1000000000).tdiv i ≤ secondsOf earliest / i := by
        rw [Int.le_ediv_iff_mul_le hpos', ← hmul]
        omega
      rw [hmul]
      exact mul_le_mul_of_nonneg_right hq hpos'.le
    exact hdvd (hdvd_of (secondsOf earliest / i) (by omega))
  obtain ⟨c, hc⟩ := dvd_of_steps hhist.steps e hin
  refine hdvd (hdvd_of (secondsOf earliest / i - c) ?_)
  have hhead : (Element.at lib (startTime i earliest) 0).time = startTime i earliest * 1000 := rfl
  rw [hhead] at hc
  have hthousand : 1000 * (startTime i earliest - (secondsOf earliest / i - c) * i) = 0 := by
    rw [sub_mul]
    linarith
  omega

theorem regular_of_givesHistogram (hrange : ∀ e ∈ store, -2 ^ 63 ≤ e.timestamp ∧ e.timestamp < 2 ^ 63)
    (hnow : 0 ≤ now ∧ now ≤ lastSecond) (hint : ∀ i ∈ interval, i < 2 ^ 64)
    (h : GivesHistogram lib engine fts now interval query store) :
    ∃ earliest, earliestOf query store = some earliest ∧
      Regular engine fts (intervalOf interval now earliest) query earliest := by
  obtain ⟨elements, s, earliest, helements, he, hs, hhist⟩ := h
  refine ⟨earliest, he, ?_⟩
  have hpos : 0 < intervalOf interval now earliest := by
    by_contra hzero
    unfold histogramTime at helements
    rw [he] at helements
    dsimp only at helements
    rw [if_pos (by omega)] at helements
    exact nomatch helements
  have hint' : intervalOf interval now earliest < 2 ^ 64 := by
    unfold intervalOf
    cases interval with
    | some i => exact hint i rfl
    | none =>
        rw [Option.getD_none]
        unfold histogramInterval
        split_ifs <;> decide
  obtain ⟨hnanos, hle⟩ := earliest_le engine (histogramSearch_of_statement hs) hrange he
  have hsmall := small_of_histogramTime he hint' hpos hnow.1 hs helements
  rw [histogramTime_eq lib he hpos hs, asI64_of_lt hsmall, lastTime_eq hsmall hnow.1] at helements
  obtain ⟨rows, hrows, hspec⟩ := bucketRows_spec hsmall ((store.filter (s.selects engine)).map (·.timestamp))
  rw [hrows, Option.bind_some] at helements
  exact ⟨by rw [hs]; rfl, hpos, hsmall, fits_of_histogram hpos hnow.1 hnanos hle hspec helements hhist⟩

/-- `histogram_time` gives a histogram of the events that a query selects if and only if the statement runs, the interval
is one of `i64` that is not zero, and before 1970 it divides `2 ^ 64`. -/
theorem givesHistogram_iff (hrange : ∀ e ∈ store, -2 ^ 63 ≤ e.timestamp ∧ e.timestamp < 2 ^ 63)
    (hnow : 0 ≤ now ∧ now ≤ lastSecond) (hint : ∀ i ∈ interval, i < 2 ^ 64) :
    GivesHistogram lib engine fts now interval query store ↔
      ∃ earliest, earliestOf query store = some earliest ∧
        Regular engine fts (intervalOf interval now earliest) query earliest := by
  constructor
  · exact regular_of_givesHistogram hrange hnow hint
  · rintro ⟨earliest, he, hreg⟩
    exact givesHistogram_of_regular hrange hnow he hreg

end

/-! ### An interval of half a second -/

/-- A library that writes and reads no time. -/
def plainLib : TimeLib := ⟨fun _ => none, Char.isDigit, fun _ _ => "", fun _ => "", fun _ => ""⟩

theorem plain_timestamps : ∀ e ∈ [hostEvent], -2 ^ 63 ≤ e.timestamp ∧ e.timestamp < 2 ^ 63 := by
  intro e he
  obtain rfl := List.mem_singleton.mp he
  exact ⟨by decide, by decide⟩

/-- The minutes up to a time. -/
theorem givesHistogram_iff_minutes : GivesHistogram plainLib plainEngine false 1000000 (some 60) [] [hostEvent] :=
  (givesHistogram_iff plain_timestamps (by decide) (by decide)).mpr
    ⟨.fromNanos 0, rfl, by decide +kernel, by decide, by decide, .inl (by decide)⟩

/-- Half a second is no second: there is nothing to divide by. -/
theorem zero_not_givesHistogram : histogramTime plainLib plainEngine false 1000000 (some 0) [] [hostEvent] = none ∧
    ¬ GivesHistogram plainLib plainEngine false 1000000 (some 0) [] [hostEvent] := by
  refine ⟨rfl, fun h => ?_⟩
  obtain ⟨earliest, -, hreg⟩ := regular_of_givesHistogram plain_timestamps (by decide) (by decide) h
  exact absurd hreg.pos (lt_irrefl 0)

end EveBox.Sqlite
