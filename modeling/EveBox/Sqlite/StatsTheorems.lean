import EveBox.Sqlite.HistogramTheorems
import EveBox.Sqlite.Stats

/-!
# What the differences of a counter are

* `sameSeries_iff` — when both ways give a sensor the same series, that of its increase.

Both ways are the same loop over the maxima of a sensor (`seriesFrom`): `diffRows_eq` of the one, `getD_data_foldl` of the
other.
-/

namespace EveBox.Sqlite

open Eve

/-! ## The loops -/

/-- The series of a sensor, behind a value that it had. -/
def seriesFrom : Option ℤ → List (ℤ × ℤ) → List Point
  | _, [] => []
  | none, e :: rest => seriesFrom (some e.2) rest
  | some previous, e :: rest => ⟨e.1, increase previous e.2⟩ :: seriesFrom (some e.2) rest

theorem diffRows_cons (e : ℤ × ℤ) (rest : List (ℤ × ℤ)) : diffRows (e :: rest) = seriesFrom (some e.2) rest := by
  induction rest generalizing e with
  | nil => rfl
  | cons e' rest ih =>
      rw [seriesFrom, ← ih e']
      rfl

theorem diffRows_eq (rows : List (ℤ × ℤ)) : diffRows rows = seriesFrom none rows := by
  cases rows with
  | nil => rfl
  | cons e rest => exact diffRows_cons e rest

theorem length_diffRows (rows : List (ℤ × ℤ)) : (diffRows rows).length = rows.length - 1 := by
  simp [diffRows]

/-- A row of the loop, without its sensor. -/
def SensorRow.entry (row : SensorRow) : ℤ × ℤ := (row.timestamp, orZero row.value)

/-- What the loop puts into the series of a sensor depends on the rows of that sensor only. -/
theorem getD_data_foldl (sensor : String) (rows : List SensorRow) (t : SensorTables) :
    ((rows.foldl SensorTables.add t).data sensor).getD [] =
      (t.data sensor).getD [] ++
        seriesFrom (t.previous sensor) ((rows.filter fun row => row.name = sensor).map (·.entry)) := by
  induction rows generalizing t with
  | nil => simp [seriesFrom]
  | cons row rows ih =>
      rw [List.foldl_cons, ih]
      by_cases hname : row.name = sensor
      · subst hname
        cases hprevious : t.previous row.name with
        | none => simp [SensorTables.add, hprevious, seriesFrom, SensorRow.entry]
        | some previous => simp [SensorTables.add, hprevious, seriesFrom, SensorRow.entry]
      · have hdata : (t.add row).data sensor = t.data sensor := by
          unfold SensorTables.add
          cases t.previous row.name with
          | none => rfl
          | some previous => exact Function.update_of_ne (Ne.symm hname) _ _
        have hprevious : (t.add row).previous sensor = t.previous sensor :=
          Function.update_of_ne (Ne.symm hname) _ _
        rw [hdata, hprevious, List.filter_cons_of_neg (by simpa using hname)]

/-! ## The maxima -/

section

variable {interval : ℕ} {path : String} {rows : List StatsRow}

/-- The maxima as the loops take them. -/
def values (entries : List (ℤ × Option Counter)) : List (ℤ × ℤ) := entries.map fun e => (e.1, orZero e.2)

theorem mem_bucketMaxima {e : ℤ × Option Counter} :
    e ∈ (bucketMaxima interval path rows).entries ↔ (∃ row ∈ rows, bucket interval row.timestamp = e.1) ∧
      e.2 = ((rows.filter fun row => bucket interval row.timestamp = e.1).filterMap (·.counter path)).max? := by
  rw [bucketMaxima, SortedMap.mem_ofKeys, List.mem_map]

theorem bucket_mono (interval : ℕ) {a b : ℤ} (h : a ≤ b) : bucket interval a ≤ bucket interval b := by
  have hseconds : a.tdiv 1000000000 ≤ b.tdiv 1000000000 := Int.tdiv_le_tdiv (by decide) h
  have hdiv : (a.tdiv 1000000000).tdiv interval ≤ (b.tdiv 1000000000).tdiv interval := by
    rcases Nat.eq_zero_or_pos interval with rfl | hpos
    · simp
    · exact Int.tdiv_le_tdiv (Int.natCast_pos.mpr hpos) hseconds
  exact Int.mul_le_mul_of_nonneg_right hdiv (Int.natCast_nonneg interval)

/-- The maximum of a bucket is what one of its rows has. -/
theorem exists_of_max {a : ℤ} {n : Counter}
    (h : ((rows.filter fun row => bucket interval row.timestamp = a).filterMap (·.counter path)).max? = some n) :
    ∃ row ∈ rows, bucket interval row.timestamp = a ∧ row.counter path = some n := by
  obtain ⟨row, hrow, hcounter⟩ := List.mem_filterMap.mp (List.max?_mem h)
  obtain ⟨hmem, hbucket⟩ := List.mem_filter.mp hrow
  exact ⟨row, hmem, of_decide_eq_true hbucket, hcounter⟩

theorem exists_entry (interval : ℕ) (path : String) {row : StatsRow} (h : row ∈ rows) :
    ∃ e ∈ (bucketMaxima interval path rows).entries, e.1 = bucket interval row.timestamp :=
  ⟨(bucket interval row.timestamp,
    ((rows.filter fun r => bucket interval r.timestamp = bucket interval row.timestamp).filterMap
      (·.counter path)).max?), mem_bucketMaxima.mpr ⟨⟨row, h, rfl⟩, rfl⟩, rfl⟩

theorem bucketMaxima_eq_nil : (bucketMaxima interval path rows).entries = [] ↔ rows = [] := by
  constructor
  · intro hnil
    refine List.eq_nil_iff_forall_not_mem.mpr fun row hrow => ?_
    obtain ⟨e, he, -⟩ := exists_entry interval path hrow
    rw [hnil] at he
    exact List.not_mem_nil he
  · rintro rfl
    rfl

theorem eachCounted_iff : EachCounted interval path rows ↔
    ∀ e ∈ (bucketMaxima interval path rows).entries, e.2.isSome = true := by
  constructor
  · intro h e he
    obtain ⟨⟨a, ha, hbucket⟩, hmax⟩ := mem_bucketMaxima.mp he
    obtain ⟨b, hb, hsame, hcounter⟩ := h a ha
    obtain ⟨n, hn⟩ := Option.isSome_iff_exists.mp hcounter
    have hmem : n ∈ (rows.filter fun row => bucket interval row.timestamp = e.1).filterMap (·.counter path) :=
      List.mem_filterMap.mpr ⟨b, List.mem_filter.mpr ⟨hb, by simp [hsame, hbucket]⟩, hn⟩
    rw [hmax, Option.isSome_iff_ne_none, Ne, List.max?_eq_none_iff]
    exact List.ne_nil_of_mem hmem
  · intro h a ha
    obtain ⟨e, he, hkey⟩ := exists_entry interval path ha
    obtain ⟨n, hn⟩ := Option.isSome_iff_exists.mp (h e he)
    obtain ⟨b, hb, hbucket, hcounter⟩ := exists_of_max ((mem_bucketMaxima.mp he).2.symm.trans hn)
    exact ⟨b, hb, hbucket.trans hkey, by rw [hcounter]; rfl⟩

theorem oneBucket_iff (path : String) : OneBucket interval rows ↔ (bucketMaxima interval path rows).entries.length ≤ 1 := by
  constructor
  · intro h
    have hsame : ∀ e ∈ (bucketMaxima interval path rows).entries, ∀ e' ∈ (bucketMaxima interval path rows).entries,
        e.1 = e'.1 := by
      intro e he e' he'
      obtain ⟨⟨a, ha, hkey⟩, -⟩ := mem_bucketMaxima.mp he
      obtain ⟨⟨b, hb, hkey'⟩, -⟩ := mem_bucketMaxima.mp he'
      rw [← hkey, ← hkey', h a ha b hb]
    have hsorted := (bucketMaxima interval path rows).sorted
    match hentries : (bucketMaxima interval path rows).entries with
    | [] => exact Nat.zero_le 1
    | [_] => exact Nat.le_refl 1
    | e :: e' :: _ =>
        rw [hentries] at hsorted hsame
        have hlt : e.1 < e'.1 := (List.pairwise_cons.mp hsorted).1 e' List.mem_cons_self
        exact absurd (hsame e List.mem_cons_self e' (List.mem_cons_of_mem _ List.mem_cons_self)) hlt.ne
  · intro h a ha b hb
    obtain ⟨e, he, hkey⟩ := exists_entry interval path ha
    obtain ⟨e', he', hkey'⟩ := exists_entry interval path hb
    rw [← hkey, ← hkey']
    match hentries : (bucketMaxima interval path rows).entries with
    | [] => exact absurd (hentries ▸ he) List.not_mem_nil
    | [x] =>
        rw [hentries, List.mem_singleton] at he he'
        rw [he, he']
    | _ :: _ :: _ =>
        rw [hentries, List.length_cons, List.length_cons] at h
        omega

/-- Where the counter never decreases, neither do the maxima. -/
theorem NeverDecreases.recorded (h : NeverDecreases path rows) :
    (recorded interval path rows).Pairwise fun a b => a.2 ≤ b.2 := by
  rw [EveBox.Sqlite.recorded, List.pairwise_filterMap]
  refine (bucketMaxima interval path rows).sorted.imp_of_mem ?_
  intro e e' he he' hlt v hv v' hv'
  obtain ⟨m, hm, rfl⟩ := Option.map_eq_some_iff.mp hv
  obtain ⟨n, hn, rfl⟩ := Option.map_eq_some_iff.mp hv'
  obtain ⟨a, ha, hbucket, hcounter⟩ := exists_of_max ((mem_bucketMaxima.mp he).2.symm.trans hm)
  obtain ⟨b, hb, hbucket', hcounter'⟩ := exists_of_max ((mem_bucketMaxima.mp he').2.symm.trans hn)
  have hbefore : a.timestamp < b.timestamp := by
    refine lt_of_not_ge fun hle => not_lt_of_ge (bucket_mono interval hle) ?_
    rw [hbucket, hbucket']
    exact hlt
  exact Int.ofNat_le.mpr (h a ha b hb hbefore m hcounter n hcounter')

theorem recorded_eq_values (h : ∀ e ∈ (bucketMaxima interval path rows).entries, e.2.isSome = true) :
    recorded interval path rows = values (bucketMaxima interval path rows).entries := by
  rw [recorded, values, ← List.filterMap_eq_map]
  refine List.filterMap_congr fun e he => ?_
  obtain ⟨n, hn⟩ := Option.isSome_iff_exists.mp (h e he)
  simp [hn, orZero]

theorem length_recorded_lt (h : ¬∀ e ∈ (bucketMaxima interval path rows).entries, e.2.isSome = true) :
    (recorded interval path rows).length < (bucketMaxima interval path rows).entries.length := by
  rw [recorded, List.length_filterMap_lt_length_iff_exists]
  push Not at h
  obtain ⟨e, he, hnone⟩ := h
  refine ⟨e, he, ?_⟩
  rw [Option.not_isSome_iff_eq_none.mp hnone]
  rfl

end

/-! ## The increase -/

theorem length_differences (rows : List (ℤ × ℤ)) : (differences rows).length = rows.length - 1 := by
  simp [differences]

/-- Without a decrease, the loop gives the differences. -/
theorem diffRows_of_pairwise {rows : List (ℤ × ℤ)} (h : rows.Pairwise fun a b => a.2 ≤ b.2) :
    diffRows rows = differences rows := by
  induction rows with
  | nil => rfl
  | cons e rest ih =>
      obtain ⟨hhead, hrest⟩ := List.pairwise_cons.mp h
      match rest with
      | [] => rfl
      | e' :: rest' =>
          have hle : increase e.2 e'.2 = e'.2 - e.2 := if_pos (hhead e' List.mem_cons_self)
          have hcons : diffRows (e :: e' :: rest') = ⟨e'.1, increase e.2 e'.2⟩ :: diffRows (e' :: rest') := rfl
          rw [hcons, hle, ih hrest]
          rfl

/-- The differences add up to what is between the ends. -/
theorem sum_differences (e : ℤ × ℤ) (rest : List (ℤ × ℤ)) :
    ((differences (e :: rest)).map (·.value)).sum = ((e :: rest).getLast (List.cons_ne_nil e rest)).2 - e.2 := by
  induction rest generalizing e with
  | nil => exact (Int.sub_self e.2).symm
  | cons e' rest ih =>
      have hcons : differences (e :: e' :: rest) = ⟨e'.1, e'.2 - e.2⟩ :: differences (e' :: rest) := rfl
      rw [hcons, List.map_cons, List.sum_cons, ih, List.getLast_cons (List.cons_ne_nil e' rest)]
      dsimp only
      omega

theorem isIncrease_differences (values : List (ℤ × ℤ)) : IsIncrease values (differences values) where
  differences := rfl
  total first hfirst last hlast := by
    cases values with
    | nil => cases hfirst
    | cons e rest =>
        obtain rfl : e = first := Option.some.inj hfirst
        rw [List.getLast?_eq_some_getLast (List.cons_ne_nil e rest), Option.mem_some_iff] at hlast
        rw [sum_differences, hlast]

/-! ## The rows of a sensor -/

section

variable {α β : Type*} [DecidableEq α]

theorem flatMap_if_eq {as : List α} (h : as.Nodup) (a : α) (f : α → List β) :
    (as.flatMap fun b => if b = a then f b else []) = if a ∈ as then f a else [] := by
  induction as with
  | nil => rfl
  | cons b as ih =>
      obtain ⟨hnot, hnodup⟩ := List.nodup_cons.mp h
      rw [List.flatMap_cons, ih hnodup]
      by_cases hb : b = a
      · subst hb
        simp [hnot]
      · simp [hb, Ne.symm hb]

end

section

variable (interval : ℕ) (path : String) (rows : List StatsRow)

/-- The rows of the statement for a sensor. -/
def block (sensor : Option String) : List SensorRow :=
  (bucketMaxima interval path (rows.filter fun row => row.host = sensor)).entries.map fun e => ⟨sensor, e.1, e.2⟩

theorem map_entry_block (sensor : Option String) : (block interval path rows sensor).map (·.entry) =
    values (bucketMaxima interval path (rows.filter fun row => row.host = sensor)).entries := by
  rw [block, List.map_map]
  rfl

theorem block_eq_nil {sensor : Option String} (h : ∀ row ∈ rows, row.host ≠ sensor) :
    block interval path rows sensor = [] := by
  have hnil : (rows.filter fun row => row.host = sensor) = [] :=
    List.filter_eq_nil_iff.mpr fun row hrow => by simpa using h row hrow
  rw [block, hnil]
  rfl

theorem filter_block (name : String) (sensor : Option String) :
    (block interval path rows sensor).filter (fun row => row.name = name) =
      if sensor.getD "(no-name)" = name then block interval path rows sensor else [] := by
  split_ifs with hname
  · refine List.filter_eq_self.mpr fun row hrow => ?_
    obtain ⟨e, -, rfl⟩ := List.mem_map.mp hrow
    exact decide_eq_true hname
  · refine List.filter_eq_nil_iff.mpr fun row hrow => ?_
    obtain ⟨e, -, rfl⟩ := List.mem_map.mp hrow
    exact fun h => hname (of_decide_eq_true h)

/-- What goes under a name: the rows of the sensor without one, if that is its name, and those of the sensor that has
it. -/
theorem filter_sensorRows (name : String) :
    (sensorRows interval path rows).filter (fun row => row.name = name) =
      (if "(no-name)" = name then block interval path rows none else []) ++ block interval path rows (some name) := by
  have hrows : sensorRows interval path rows = (sensorsOf rows).flatMap (block interval path rows) := rfl
  rw [hrows, List.filter_flatMap]
  simp only [filter_block]
  rw [sensorsOf, List.flatMap_append]
  congr 1
  · by_cases hany : rows.any (·.host.isNone) = true
    · simp [hany]
    · have hnone : block interval path rows none = [] := by
        refine block_eq_nil interval path rows fun row hrow hhost => hany (List.any_eq_true.mpr ⟨row, hrow, ?_⟩)
        rw [hhost]
        rfl
      simp [hany, hnone]
  · rw [List.flatMap_map]
    have hnodup : ((rows.filterMap (·.host)).dedup.insertionSort (· ≤ ·)).Nodup :=
      (List.perm_insertionSort _ _).nodup_iff.mpr (List.nodup_dedup _)
    have hone := flatMap_if_eq hnodup name fun n => block interval path rows (some n)
    simp only [Option.getD_some]
    rw [hone]
    split_ifs with hmem
    · rfl
    · refine (block_eq_nil interval path rows fun row hrow hhost => hmem ?_).symm
      rw [(List.perm_insertionSort _ _).mem_iff, List.mem_dedup, List.mem_filterMap]
      exact ⟨row, hrow, hhost⟩

end

/-! ## Both ways -/

section

variable {driver : Driver} {p : StatsAggQueryParams} {sensor : String} {store : List StatsRow}

/-- A loop that may fail, each of whose steps fails or gives what a function does. -/
theorem mapM_eq_some_iff {α β : Type*} {f : α → Option β} {g : α → β} {P : α → Prop}
    (h : ∀ a b, f a = some b ↔ P a ∧ b = g a) {as : List α} {bs : List β} :
    as.mapM f = some bs ↔ (∀ a ∈ as, P a) ∧ bs = as.map g := by
  induction as generalizing bs with
  | nil => simp [eq_comm]
  | cons a as ih =>
      rw [List.mapM_cons, Option.bind_eq_bind, Option.bind_eq_some_iff]
      simp only [Option.bind_eq_bind, Option.bind_eq_some_iff, h, ih, List.forall_mem_cons, Option.pure_def,
        Option.some.injEq, List.map_cons]
      constructor
      · rintro ⟨_, ⟨ha, rfl⟩, _, ⟨has, rfl⟩, rfl⟩
        exact ⟨⟨ha, has⟩, rfl⟩
      · rintro ⟨⟨ha, has⟩, rfl⟩
        exact ⟨_, ⟨ha, rfl⟩, _, ⟨has, rfl⟩, rfl⟩

/-- A maximum is read unless it is refused. -/
theorem read_eq_some_iff {value : Option Counter} {n : ℤ} :
    driver.read value = some n ↔ (driver.readNull = none → value.isSome = true) ∧ n = orZero value := by
  cases value with
  | some m => simp [Driver.read, orZero, eq_comm]
  | none =>
      unfold Driver.read
      cases hnull : driver.readNull with
      | none => simp
      | some m =>
          obtain rfl : m = 0 := driver.eq_zero m hnull
          simp [orZero, eq_comm]

theorem mapM_read {entries : List (ℤ × Option Counter)} {rows : List (ℤ × ℤ)} :
    entries.mapM (fun e => (driver.read e.2).map (e.1, ·)) = some rows ↔
      (∀ e ∈ entries, driver.readNull = none → e.2.isSome = true) ∧ rows = values entries := by
  refine mapM_eq_some_iff fun e b => ?_
  rw [Option.map_eq_some_iff]
  simp only [read_eq_some_iff]
  constructor
  · rintro ⟨n, ⟨hread, rfl⟩, rfl⟩
    exact ⟨hread, rfl⟩
  · rintro ⟨hread, rfl⟩
    exact ⟨_, ⟨hread, rfl⟩, rfl⟩

/-- The maxima of the sensor. -/
def StatsAggQueryParams.maxima (p : StatsAggQueryParams) (rows : List StatsRow) : List (ℤ × Option Counter) :=
  (bucketMaxima p.interval p.path rows).entries

theorem toNanos_isSome {ts : DateTime} (h : ts.toNanos.isSome = true) : ts.toNanos = some ts.nanos := by
  obtain ⟨nanos, hnanos⟩ := Option.isSome_iff_exists.mp h
  rw [hnanos, (toNanos_some hnanos).1]

theorem statsAggDiff_eq (hstart : p.startTime.toNanos.isSome = true) (hstop : p.endTime.toNanos.isSome = true)
    {series : List Point} : statsAggDiff driver { p with sensorName := some sensor } store = some series ↔
      (∀ e ∈ p.maxima (p.rowsOf sensor store), driver.readNull = none → e.2.isSome = true) ∧
        series = seriesFrom none (values (p.maxima (p.rowsOf sensor store))) := by
  have hget : getStats driver { p with sensorName := some sensor } store =
      (p.maxima (p.rowsOf sensor store)).mapM fun e => (driver.read e.2).map (e.1, ·) := by
    simp only [getStats, toNanos_isSome hstart, toNanos_isSome hstop, Option.bind_eq_bind, Option.bind_some]
    rfl
  rw [statsAggDiff, hget, Option.map_eq_some_iff]
  simp only [mapM_read, diffRows_eq]
  constructor
  · rintro ⟨rows, ⟨hread, rfl⟩, rfl⟩
    exact ⟨hread, rfl⟩
  · rintro ⟨hread, rfl⟩
    exact ⟨_, ⟨hread, rfl⟩, rfl⟩

/-- The rows that go under the name of the sensor besides its own. -/
def StatsAggQueryParams.strangers (p : StatsAggQueryParams) (sensor : String) (store : List StatsRow) : List StatsRow :=
  if sensor = "(no-name)" then p.misnamed store else []

/-- The rows of all sensors in the time of the parameters. -/
def StatsAggQueryParams.allRows (p : StatsAggQueryParams) (store : List StatsRow) : List StatsRow :=
  store.filter fun row => row.within p.startTime.nanos p.endTime.nanos

theorem allRows_filter_named (hname : sensor ≠ "(no-name)") :
    ((p.allRows store).filter fun row => row.host = some sensor) = p.rowsOf sensor store := by
  rw [StatsAggQueryParams.allRows, List.filter_filter]
  refine List.filter_congr fun row _ => ?_
  rw [StatsRow.hasSensor, if_neg hname, Bool.and_comm]

theorem allRows_filter_unnamed :
    ((p.allRows store).filter fun row => row.host = none) = p.rowsOf "(no-name)" store := by
  rw [StatsAggQueryParams.allRows, List.filter_filter]
  refine List.filter_congr fun row _ => ?_
  rw [StatsRow.hasSensor, if_pos rfl, Bool.and_comm]

theorem allRows_filter_misnamed :
    ((p.allRows store).filter fun row => row.host = some "(no-name)") = p.misnamed store := by
  rw [StatsAggQueryParams.allRows, List.filter_filter]
  exact List.filter_congr fun row _ => Bool.and_comm _ _

theorem statsAggDiffBySensor_eq (sensor : String) (store : List StatsRow) (hstart : p.startTime.toNanos.isSome = true)
    (hstop : p.endTime.toNanos.isSome = true) :
    ∃ data, statsAggDiffBySensor p store = some data ∧ (data sensor).getD [] = seriesFrom none
      (values (p.maxima (p.rowsOf sensor store)) ++ values (p.maxima (p.strangers sensor store))) := by
  have hdata : statsAggDiffBySensor p store =
      some ((sensorRows p.interval p.path (p.allRows store)).foldl SensorTables.add .empty).data := by
    simp only [statsAggDiffBySensor, toNanos_isSome hstart, toNanos_isSome hstop, Option.bind_eq_bind,
      Option.bind_some]
    rfl
  refine ⟨_, hdata, ?_⟩
  have hempty : (SensorTables.empty.data sensor).getD [] = [] := rfl
  have hprevious : SensorTables.empty.previous sensor = none := rfl
  rw [getD_data_foldl, filter_sensorRows, List.map_append, map_entry_block, hempty, hprevious, List.nil_append]
  by_cases hname : sensor = "(no-name)"
  · subst hname
    rw [if_pos rfl, map_entry_block, allRows_filter_unnamed, allRows_filter_misnamed, StatsAggQueryParams.strangers,
      if_pos rfl]
    rfl
  · have hnil : values (p.maxima []) = [] := rfl
    rw [if_neg (Ne.symm hname), allRows_filter_named hname, StatsAggQueryParams.strangers, if_neg hname, hnil,
      List.append_nil]
    rfl

/-- Rows behind those of the sensor change its series, but for one row alone. -/
theorem seriesFrom_append_iff (as bs : List (ℤ × ℤ)) :
    seriesFrom none (as ++ bs) = seriesFrom none as ↔ bs = [] ∨ as = [] ∧ bs.length ≤ 1 := by
  constructor
  · intro heq
    have hlength := congrArg List.length heq
    rw [← diffRows_eq, ← diffRows_eq, length_diffRows, length_diffRows, List.length_append] at hlength
    rcases Nat.eq_zero_or_pos bs.length with hzero | hpos
    · exact .inl (List.length_eq_zero_iff.mp hzero)
    · exact .inr ⟨List.length_eq_zero_iff.mp (by omega), by omega⟩
  · rintro (rfl | ⟨rfl, hle⟩)
    · rw [List.append_nil]
    · match bs with
      | [] => rfl
      | [_] => rfl

/-- The series is that of what is recorded if and only if there is nothing else, or only one bucket. -/
theorem isIncrease_iff {rows : List StatsRow} (hmono : NeverDecreases p.path rows) :
    IsIncrease (recorded p.interval p.path rows) (seriesFrom none (values (p.maxima rows))) ↔
      EachCounted p.interval p.path rows ∨ OneBucket p.interval rows := by
  rw [eachCounted_iff, oneBucket_iff p.path]
  by_cases hall : ∀ e ∈ p.maxima rows, e.2.isSome = true
  · have hpairwise : (values (p.maxima rows)).Pairwise fun a b => a.2 ≤ b.2 :=
      recorded_eq_values hall ▸ hmono.recorded
    refine iff_of_true ?_ (.inl hall)
    rw [recorded_eq_values hall, ← diffRows_eq, ← StatsAggQueryParams.maxima, diffRows_of_pairwise hpairwise]
    exact isIncrease_differences _
  · have hlt := length_recorded_lt hall
    have hlength : (values (p.maxima rows)).length = (bucketMaxima p.interval p.path rows).entries.length :=
      List.length_map _
    constructor
    · intro hincrease
      have heq := congrArg List.length hincrease.differences
      rw [← diffRows_eq, length_diffRows, length_differences, hlength] at heq
      exact .inr (by omega)
    · rintro (hcounted | hone)
      · exact absurd hcounted hall
      · have hrecorded : recorded p.interval p.path rows = [] := List.length_eq_zero_iff.mp (by omega)
        have hseries : seriesFrom none (values (p.maxima rows)) = [] := by
          rw [← diffRows_eq, ← List.length_eq_zero_iff, length_diffRows]
          omega
        rw [hrecorded, hseries]
        exact isIncrease_differences []

/-- Both ways give the same series, that of the increase, on exactly the comparable stores. -/
theorem sameSeries_iff (driver : Driver) (p : StatsAggQueryParams) (sensor : String) (store : List StatsRow) :
    SameSeries driver p sensor store ↔ Comparable driver p sensor store := by
  by_cases hstart : p.startTime.toNanos.isSome = true
  swap
  · refine iff_of_false ?_ fun h => hstart h.start
    rintro ⟨series, data, -, hdata, -⟩
    rw [statsAggDiffBySensor, Option.not_isSome_iff_eq_none.mp hstart] at hdata
    cases hdata
  by_cases hstop : p.endTime.toNanos.isSome = true
  swap
  · refine iff_of_false ?_ fun h => hstop h.stop
    rintro ⟨series, data, -, hdata, -⟩
    rw [statsAggDiffBySensor, Option.not_isSome_iff_eq_none.mp hstop, toNanos_isSome hstart] at hdata
    cases hdata
  obtain ⟨data, hdata, hseries⟩ := statsAggDiffBySensor_eq sensor store hstart hstop
  have hnamed : seriesFrom none
      (values (p.maxima (p.rowsOf sensor store)) ++ values (p.maxima (p.strangers sensor store))) =
        seriesFrom none (values (p.maxima (p.rowsOf sensor store))) ↔
      (sensor = "(no-name)" → p.misnamed store = [] ∨
        p.rowsOf sensor store = [] ∧ OneBucket p.interval (p.misnamed store)) := by
    rw [seriesFrom_append_iff, values, values, List.map_eq_nil_iff, List.map_eq_nil_iff, List.length_map,
      StatsAggQueryParams.maxima, StatsAggQueryParams.maxima, bucketMaxima_eq_nil, bucketMaxima_eq_nil,
      ← oneBucket_iff p.path, StatsAggQueryParams.strangers]
    split_ifs with hname
    · simp [hname]
    · simp [hname]
  constructor
  · rintro ⟨series, data', hdiff, hdata', hsame, hincrease⟩
    obtain rfl : data = data' := Option.some.inj (hdata.symm.trans hdata')
    obtain ⟨hread, rfl⟩ := (statsAggDiff_eq hstart hstop).mp hdiff
    exact {
      start := hstart
      stop := hstop
      refused := fun hnull => eachCounted_iff.mpr fun e he => hread e he hnull
      counted := fun hmono => (isIncrease_iff hmono).mp (hincrease hmono)
      named := hnamed.mp (hseries.symm.trans hsame) }
  · intro h
    refine ⟨_, data, (statsAggDiff_eq hstart hstop).mpr ⟨fun e he hnull => ?_, rfl⟩, hdata,
      hseries.trans (hnamed.mpr h.named), fun hmono => (isIncrease_iff hmono).mpr (h.counted hmono)⟩
    exact eachCounted_iff.mp (h.refused hnull) e he

/-- Two values of a counter with a bucket between them that lacks it. -/
def interrupted : List StatsRow :=
  [⟨0, some "stats", some "s", fun _ => some 5⟩, ⟨60000000000, some "stats", some "s", fun _ => none⟩,
    ⟨120000000000, some "stats", some "s", fun _ => some 7⟩]

def tenMinutes : StatsAggQueryParams := ⟨"uptime", none, ⟨0, 0⟩, ⟨600000000000, 0⟩⟩

/-- A bucket without the counter is one with a zero, and the next is all increase: 5, nothing and 7 have the
differences 0 and 7. -/
theorem interrupted_not_sameSeries : ¬SameSeries ⟨some 0, by simp⟩ tenMinutes "s" interrupted := by
  rintro ⟨series, data, hdiff, -, -, hincrease⟩
  have hseries : series = [⟨60, 0⟩, ⟨120, 7⟩] := (Option.some.inj hdiff).symm.trans (by decide)
  have hcounter : ∀ row ∈ interrupted, ∀ n ∈ row.counter tenMinutes.path,
      row.timestamp = 0 ∧ n = 5 ∨ row.timestamp = 120000000000 ∧ n = 7 := by
    intro row hrow n hn
    simp only [interrupted, List.mem_cons, List.not_mem_nil, or_false] at hrow
    rcases hrow with rfl | rfl | rfl
    · exact .inl ⟨rfl, (Option.some.inj hn).symm⟩
    · cases hn
    · exact .inr ⟨rfl, (Option.some.inj hn).symm⟩
  have hmono : NeverDecreases tenMinutes.path interrupted := by
    intro a ha b hb hlt m hm n hn
    rcases hcounter a ha m hm with ⟨hat, rfl⟩ | ⟨hat, rfl⟩ <;> rcases hcounter b hb n hn with ⟨hbt, rfl⟩ | ⟨hbt, rfl⟩
    · exact le_rfl
    · decide
    · omega
    · exact le_rfl
  have hdifferences := (hincrease fun a ha b hb =>
    hmono a (List.mem_filter.mp ha).1 b (List.mem_filter.mp hb).1).differences
  rw [hseries] at hdifferences
  exact absurd hdifferences (by decide)

end

end EveBox.Sqlite
