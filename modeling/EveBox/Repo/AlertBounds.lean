import EveBox.Sqlite.AlertTimeout

/-!
# The time range of the inbox

Reference: `src/sqlite/eventrepo/alerts.rs` and `src/elastic/eventrepo/alerts.rs`.

Three folds give the range of the alerts that are shown: `alerts_with_timeout` takes it from the rows,
`alerts_group_by` and Elasticsearch from the groups.

* `boundsAgree_iff` — when the three ranges are those of the alerts.
-/

namespace EveBox.Repo

open Rust Eve Sqlite Grouping

/-- A bound is replaced by a time that is earlier. -/
def earlierOf (bound : Option DateTime) (ts : DateTime) : Option DateTime :=
  match bound with
  | some bound => some (if ts.nanos < bound.nanos then ts else bound)
  | none => some ts

/-- The times of the oldest and of the newest event of a bucket. -/
structure Bucket where
  minTimestamp : DateTime
  maxTimestamp : DateTime
deriving DecidableEq, Repr

/-- The bounds in `ElasticEventRepo::alerts`: a bucket counts, also if it is not shown for being archived. -/
def elasticBounds (buckets : List Bucket) : Option DateTime × Option DateTime :=
  buckets.foldl (fun bounds bucket => (earlierOf bounds.1 bucket.minTimestamp, laterOf bounds.2 bucket.maxTimestamp))
    (none, none)

/-! ## Folds -/

/-- A time that is chosen again and again is chosen among all of the times. -/
theorem foldl_chosen {choose : Option DateTime → DateTime → Option DateTime} {op : ℤ → ℤ → ℤ}
    (hchoose : ∀ ts next, ∃ ts', choose (some ts) next = some ts' ∧ ts'.nanos = op ts.nanos next.nanos) (times : List DateTime) :
    ∀ ts, (times.foldl choose (some ts)).map (·.nanos) = some ((times.map (·.nanos)).foldl op ts.nanos) := by
  induction times with
  | nil => exact fun _ => rfl
  | cons next times ih =>
      intro ts
      obtain ⟨ts', hts', hnanos⟩ := hchoose ts next
      rw [List.foldl_cons, hts', ih, hnanos]
      rfl

theorem foldl_laterOf (times : List DateTime) :
    (times.foldl laterOf none).map (·.nanos) = (times.map (·.nanos)).max? := by
  have hlater : ∀ ts next, ∃ ts', laterOf (some ts) next = some ts' ∧ ts'.nanos = max ts.nanos next.nanos := by
    intro ts next
    refine ⟨_, rfl, ?_⟩
    split_ifs <;> omega
  cases times with
  | nil => rfl
  | cons ts times => exact foldl_chosen hlater times ts

theorem foldl_earlierOf (times : List DateTime) :
    (times.foldl earlierOf none).map (·.nanos) = (times.map (·.nanos)).min? := by
  have hearlier : ∀ ts next, ∃ ts', earlierOf (some ts) next = some ts' ∧ ts'.nanos = min ts.nanos next.nanos := by
    intro ts next
    refine ⟨_, rfl, ?_⟩
    split_ifs <;> omega
  cases times with
  | nil => rfl
  | cons ts times => exact foldl_chosen hearlier times ts

theorem elasticBounds_eq (buckets : List Bucket) : elasticBounds buckets =
    ((buckets.map (·.minTimestamp)).foldl earlierOf none, (buckets.map (·.maxTimestamp)).foldl laterOf none) := by
  have hpair : ∀ (buckets : List Bucket) (bounds : Option DateTime × Option DateTime),
      buckets.foldl (fun bounds bucket =>
        (earlierOf bounds.1 bucket.minTimestamp, laterOf bounds.2 bucket.maxTimestamp)) bounds =
      ((buckets.map (·.minTimestamp)).foldl earlierOf bounds.1, (buckets.map (·.maxTimestamp)).foldl laterOf bounds.2) := by
    intro buckets
    induction buckets with
    | nil => exact fun _ => rfl
    | cons bucket buckets ih => exact fun bounds => ih _
  exact hpair buckets (none, none)

/-- An extreme of a list is that of the extremes of its parts. -/
theorem extreme_flatten {pick : List ℤ → Option ℤ} (before : ℤ → ℤ → Prop)
    (hpick : ∀ l m, pick l = some m ↔ m ∈ l ∧ ∀ b ∈ l, before m b) (hnone : ∀ l, pick l = none ↔ l = [])
    (hantisymm : ∀ a b, before a b → before b a → a = b) (groups : List (List ℤ)) (h : ∀ group ∈ groups, group ≠ []) :
    pick (groups.map fun group => (pick group).getD 0) = pick groups.flatten := by
  cases hflat : pick groups.flatten with
  | none =>
      have hnil : groups = [] := by
        rcases groups with _ | ⟨group, groups⟩
        · rfl
        · have hempty := (hnone _).mp hflat
          simp [h group (by simp)] at hempty
      rw [hnil, List.map_nil, hnone]
  | some extreme =>
      obtain ⟨hmem, hbefore⟩ := (hpick _ _).mp hflat
      obtain ⟨group, hgroup, hin⟩ := List.mem_flatten.mp hmem
      have hof : ∀ g ∈ groups, ∃ m, pick g = some m ∧ m ∈ g := fun g hg => by
        obtain ⟨m, hm⟩ := Option.ne_none_iff_exists'.mp (mt (hnone g).mp (h g hg))
        exact ⟨m, hm, ((hpick _ _).mp hm).1⟩
      rw [hpick]
      constructor
      · obtain ⟨m, hm, hmg⟩ := hof group hgroup
        have heq : m = extreme := hantisymm _ _ (((hpick _ _).mp hm).2 extreme hin)
          (hbefore m (List.mem_flatten.mpr ⟨group, hgroup, hmg⟩))
        exact List.mem_map.mpr ⟨group, hgroup, by rw [hm, Option.getD_some, heq]⟩
      · refine List.forall_mem_map.mpr fun g hg => ?_
        obtain ⟨m, hm, hmg⟩ := hof g hg
        rw [hm, Option.getD_some]
        exact hbefore m (List.mem_flatten.mpr ⟨g, hg, hmg⟩)

theorem min?_flatten {groups : List (List ℤ)} (h : ∀ group ∈ groups, group ≠ []) :
    (groups.map fun group => group.min?.getD 0).min? = groups.flatten.min? :=
  extreme_flatten (· ≤ ·) (fun _ _ => List.min?_eq_some_iff) (fun _ => List.min?_eq_none_iff)
    (fun _ _ hab hba => le_antisymm hab hba) groups h

theorem max?_flatten {groups : List (List ℤ)} (h : ∀ group ∈ groups, group ≠ []) :
    (groups.map fun group => group.max?.getD 0).max? = groups.flatten.max? :=
  extreme_flatten (fun a b => b ≤ a) (fun _ _ => List.max?_eq_some_iff) (fun _ => List.max?_eq_none_iff)
    (fun _ _ hab hba => le_antisymm hba hab) groups h

/-- The order of a list does not matter for its extremes. -/
theorem max?_perm {l l' : List ℤ} (h : l.Perm l') : l.max? = l'.max? := by
  cases hmax : l'.max? with
  | none =>
      rw [List.max?_eq_none_iff] at hmax ⊢
      rw [hmax] at h
      exact h.eq_nil
  | some m =>
      rw [List.max?_eq_some_iff] at hmax ⊢
      exact ⟨h.mem_iff.mpr hmax.1, fun b hb => hmax.2 b (h.mem_iff.mp hb)⟩

theorem min?_perm {l l' : List ℤ} (h : l.Perm l') : l.min? = l'.min? := by
  cases hmin : l'.min? with
  | none =>
      rw [List.min?_eq_none_iff] at hmin ⊢
      rw [hmin] at h
      exact h.eq_nil
  | some m =>
      rw [List.min?_eq_some_iff] at hmin ⊢
      exact ⟨h.mem_iff.mpr hmin.1, fun b hb => hmin.2 b (h.mem_iff.mp hb)⟩

/-! ## The groups of SQLite -/

/-- The time of a row, as the answer gets it. -/
def stampOf (lib : TimeLib) (row : EventRow) : ℤ := ((datetime lib row.source).map (·.nanos)).getD 0

/-- The times of rows. -/
def timesOf (rows : List EventRow) : List ℤ := rows.map (·.timestamp)

section

variable {lib : TimeLib} {bare : List EventRow → EventRow} {events rows : List EventRow}

/-- The times of a row of the join. -/
theorem alertRowMapper_times {a : EventRow} {b : GroupRow} {alert : AggAlert}
    (h : alertRowMapper lib (a, b) = .ok alert) :
    (alert.metadata.minTimestamp.nanos, alert.metadata.maxTimestamp.nanos) = (b.mints.getD 0, stampOf lib a) := by
  unfold alertRowMapper at h
  obtain ⟨parsed, hparsed, h⟩ := bind_eq_ok.mp h
  have hget : parsed.get "timestamp" = a.source.get "timestamp" := sourceWithTags_get hparsed (by decide)
  cases htimestamp : (parsed.get "timestamp").asStr with
  | none =>
      simp only [htimestamp] at h
      cases h
  | some timestamp =>
      cases hparse : parseDateTime lib timestamp none with
      | none =>
          simp only [bind, Except.bind, htimestamp, hparse] at h
          cases h
      | some ts =>
          simp only [bind, Except.bind, htimestamp, hparse] at h
          obtain rfl := Except.ok.inj h
          rw [hget] at htimestamp
          have hstamp : datetime lib a.source = some ts := Option.bind_eq_some_iff.mpr ⟨timestamp, htimestamp, hparse⟩
          simp [stampOf, hstamp, DateTime.fromNanos]

/-- The groups that are in the answer. -/
def keptGroups (bare : List EventRow → EventRow) (rows : List EventRow) : List (List EventRow) :=
  (groupBy rows).filter fun group => Kept bare group

/-- `alerts_group_by` gives a group its oldest time and the time that its newest event tells. -/
theorem alertsGroupBy_times (hrowid : (events.map (·.rowid)).Nodup) (hrows : ∀ row ∈ rows, row ∈ events)
    (hbare : ∀ group ∈ groupBy rows, bare group ∈ group) {legacy : AlertsResult}
    (h : alertsGroupBy lib bare events rows = .ok legacy) :
    (legacy.events.map fun alert => (alert.metadata.minTimestamp.nanos, alert.metadata.maxTimestamp.nanos)).Perm
      ((keptGroups bare rows).map fun group => ((timesOf group).min?.getD 0, stampOf lib (bare group))) := by
  obtain ⟨results, hresults, hlegacy⟩ := bind_eq_ok.mp h
  obtain rfl := Except.ok.inj hlegacy
  have htimes : results.map (fun alert => (alert.metadata.minTimestamp.nanos, alert.metadata.maxTimestamp.nanos)) = _ :=
    @map_eq_of_mapM _ _ _ _ _ _ _ _ (fun row => (row.2.mints.getD 0, stampOf lib row.1)) hresults
      fun row alert => alertRowMapper_times
  rw [joinGroups_eq hrowid hrows hbare] at htimes
  have hsorted := List.Perm.map (fun row : EventRow × GroupRow => (row.2.mints.getD 0, stampOf lib row.1))
    (List.perm_insertionSort (fun a b => b.1.timestamp ≤ a.1.timestamp)
      (((groupBy rows).filter fun group => Kept bare group).map fun group => (bare group, groupRow bare group)))
  rw [← htimes, List.map_map] at hsorted
  exact hsorted

end

/-! ## The three ranges -/

/-- The range is that of the groups that are returned. -/
structure Bounds (result : AlertsResult) : Prop where
  least : result.minTimestamp.map (·.nanos) = (result.events.map (·.metadata.minTimestamp.nanos)).min?
  greatest : result.maxTimestamp.map (·.nanos) = (result.events.map (·.metadata.maxTimestamp.nanos)).max?

/-- The buckets of some events: each event is in one of them. -/
def BucketsOf (rows : List EventRow) (buckets : List Bucket) : Prop :=
  ∃ groups : List (List EventRow), groups.flatten.Perm rows ∧ (∀ group ∈ groups, group ≠ []) ∧
    buckets.map (fun bucket => (bucket.minTimestamp.nanos, bucket.maxTimestamp.nanos)) =
      groups.map fun group => ((timesOf group).min?.getD 0, (timesOf group).max?.getD 0)

/-- The range of two times is the same. -/
def SameRange (a b : Option DateTime × Option DateTime) : Prop :=
  a.1.map (·.nanos) = b.1.map (·.nanos) ∧ a.2.map (·.nanos) = b.2.map (·.nanos)

/-- `alerts_group_by` gives the range of its groups, and the two others give the same. -/
def BoundsAgree (lib : TimeLib) (fromStr : String → Option Json) (bare : List EventRow → EventRow) (late : ℕ → Bool)
    (events selected rows : List EventRow) (buckets : List Bucket) : Prop :=
  ∃ result legacy, alertsWithTimeout lib fromStr late rows = .ok result ∧
    alertsGroupBy lib bare events selected = .ok legacy ∧ Bounds legacy ∧
    SameRange (result.minTimestamp, result.maxTimestamp) (legacy.minTimestamp, legacy.maxTimestamp) ∧
    SameRange (elasticBounds buckets) (legacy.minTimestamp, legacy.maxTimestamp)

section

variable {lib : TimeLib} {fromStr : String → Option Json} {bare : List EventRow → EventRow} {late : ℕ → Bool}
variable {options : AlertQueryOptions} {events selected rows : List EventRow} {buckets : List Bucket}

/-- The range that Elasticsearch gives is that of the events. -/
theorem elasticBounds_range (h : BucketsOf rows buckets) :
    (elasticBounds buckets).1.map (·.nanos) = (timesOf rows).min? ∧
      (elasticBounds buckets).2.map (·.nanos) = (timesOf rows).max? := by
  obtain ⟨groups, hperm, hne, hbuckets⟩ := h
  have htimes : (groups.map timesOf).flatten.Perm (timesOf rows) := by
    have hmap := hperm.map (·.timestamp)
    rwa [List.map_flatten] at hmap
  have hne' : ∀ times ∈ groups.map timesOf, times ≠ [] := List.forall_mem_map.mpr fun group hgroup => by
    simpa [timesOf] using hne group hgroup
  have hmin : buckets.map (fun bucket => bucket.minTimestamp.nanos) =
      (groups.map timesOf).map fun times => times.min?.getD 0 := by
    have := congrArg (List.map Prod.fst) hbuckets
    simpa [List.map_map, Function.comp_def] using this
  have hmax : buckets.map (fun bucket => bucket.maxTimestamp.nanos) =
      (groups.map timesOf).map fun times => times.max?.getD 0 := by
    have := congrArg (List.map Prod.snd) hbuckets
    simpa [List.map_map, Function.comp_def] using this
  rw [elasticBounds_eq]
  dsimp only
  rw [foldl_earlierOf, foldl_laterOf, List.map_map, List.map_map]
  constructor
  · rw [← min?_perm htimes, ← min?_flatten hne', ← hmin]
    rfl
  · rw [← max?_perm htimes, ← max?_flatten hne', ← hmax]
    rfl

/-- The range that `alerts_with_timeout` gives in time is that of the rows. -/
theorem alertsWithTimeout_range {result : AlertsResult} (hnewest : Newest rows)
    (hlate : ∀ i < rows.length, late i = false) (h : alertsWithTimeout lib fromStr late rows = .ok result) :
    result.minTimestamp.map (·.nanos) = (timesOf rows).min? ∧ result.maxTimestamp.map (·.nanos) = (timesOf rows).max? := by
  obtain ⟨st, hst, hresult⟩ := bind_eq_ok.mp h
  obtain rfl := Except.ok.inj hresult
  obtain ⟨done, loop, hdone, hrun, hsame⟩ := alertLoop_rows rfl hnewest hst
  obtain rfl : done = rows := by
    rcases hdone with ⟨rfl, -⟩ | ⟨i, hi, ⟨hexpired, -⟩, -⟩
    · rfl
    · rw [Nat.zero_add, hlate i hi] at hexpired
      cases hexpired
  have hreports := reports_of_inTime hnewest hrun false
  have hmin := congrArg (Option.map (·.nanos)) hreports.minTimestamp
  have hmax := congrArg (Option.map (·.nanos)) hreports.maxTimestamp
  have hid : (DateTime.nanos ∘ DateTime.fromNanos) = id := rfl
  rw [hsame.minTimestamp, hsame.maxTimestamp]
  simp only [Option.map_map, hid, Option.map_id, id_eq] at hmin hmax ⊢
  exact ⟨hmin, hmax⟩

/-- The range that `alerts_group_by` gives: the latest beginning of a group, and the latest end. -/
theorem alertsGroupBy_range (h : Inbox lib bare late options events selected rows) {legacy : AlertsResult}
    (hlegacy : alertsGroupBy lib bare events selected = .ok legacy) :
    (legacy.minTimestamp.map (·.nanos) = ((keptGroups bare selected).map fun group => (timesOf group).min?.getD 0).max? ∧
      legacy.maxTimestamp.map (·.nanos) = ((keptGroups bare selected).map fun group => stampOf lib (bare group)).max?) ∧
    (legacy.events.map (·.metadata.minTimestamp.nanos)).min? =
      ((keptGroups bare selected).map fun group => (timesOf group).min?.getD 0).min? ∧
    legacy.maxTimestamp.map (·.nanos) = (legacy.events.map (·.metadata.maxTimestamp.nanos)).max? := by
  have htimes := alertsGroupBy_times h.rowid (fun row hrow => (h.mem_selected hrow).1)
    (fun group hgroup => h.bare_mem hgroup) hlegacy
  have hmin := htimes.map Prod.fst
  have hmax := htimes.map Prod.snd
  simp only [List.map_map, Function.comp_def] at hmin hmax
  obtain ⟨results, -, hanswer⟩ := bind_eq_ok.mp hlegacy
  obtain rfl := Except.ok.inj hanswer
  have hfold : ∀ f : AggAlert → DateTime, (results.foldl (fun bound row => laterOf bound (f row)) none).map (·.nanos) =
      (results.map fun row => (f row).nanos).max? := fun f => by
    have := foldl_laterOf (results.map f)
    rwa [List.foldl_map, List.map_map] at this
  refine ⟨⟨?_, ?_⟩, min?_perm hmin, hfold _⟩
  · rw [← max?_perm hmin]
    exact hfold _
  · rw [← max?_perm hmax]
    exact hfold _

/-- A list whose extremes are the same has one value. -/
theorem max?_eq_min?_iff {l : List ℤ} : l.max? = l.min? ↔ ∀ a ∈ l, some a = l.min? := by
  cases hmin : l.min? with
  | none =>
      rw [List.min?_eq_none_iff.mp hmin]
      simp
  | some m =>
      obtain ⟨hm, hle⟩ := List.min?_eq_some_iff.mp hmin
      constructor
      · intro hmax a ha
        rw [le_antisymm ((List.max?_eq_some_iff.mp hmax).2 a ha) (hle a ha)]
      · exact fun hall => List.max?_eq_some_iff.mpr ⟨hm, fun a ha => (Option.some.inj (hall a ha)).le⟩

/-- The ranges are those of the alerts and agree if and only if the rows can be read, each group that is returned
begins with the oldest alert, and one of their newest events tells the time of the newest alert. -/
theorem boundsAgree_iff (h : Inbox lib bare late options events selected rows) (hbuckets : BucketsOf rows buckets) :
    BoundsAgree lib fromStr bare late events selected rows buckets ↔
      Readable rows ∧
      (∀ group ∈ keptGroups bare selected, (timesOf group).min? = (timesOf rows).min?) ∧
      ((keptGroups bare selected).map fun group => stampOf lib (bare group)).max? = (timesOf rows).max? := by
  have hgroup : ∀ group ∈ keptGroups bare selected, (timesOf group).min? = some ((timesOf group).min?.getD 0) := by
    intro group hkept
    obtain ⟨a, ha, rfl⟩ := mem_classes.mp (List.mem_filter.mp hkept).1
    have hmem : a ∈ selected.filter fun row => groupKey row = groupKey a := List.mem_filter.mpr ⟨ha, by simp⟩
    obtain ⟨m, hm⟩ := Option.ne_none_iff_exists'.mp (mt List.min?_eq_none_iff.mp
      (List.ne_nil_of_mem (List.mem_map_of_mem (f := (·.timestamp)) hmem)))
    rw [timesOf, hm, Option.getD_some]
  obtain ⟨hemin, hemax⟩ := elasticBounds_range hbuckets
  constructor
  · rintro ⟨result, legacy, hresult, hlegacy, hbounds, hsame, -⟩
    obtain ⟨⟨hmin, hmax⟩, hleast, -⟩ := alertsGroupBy_range h hlegacy
    obtain ⟨hrmin, hrmax⟩ := alertsWithTimeout_range h.newest h.inTime hresult
    obtain ⟨st, hst, -⟩ := bind_eq_ok.mp hresult
    refine ⟨(exists_alertLoop_iff h.inTime).mp ⟨st, hst⟩, fun group hkept => ?_, ?_⟩
    · have hall := max?_eq_min?_iff.mp (hmin.symm.trans (hbounds.least.trans hleast))
      rw [hgroup group hkept, hall _ (List.mem_map_of_mem (f := fun group => (timesOf group).min?.getD 0) hkept),
        ← hleast, ← hbounds.least, ← hsame.1, hrmin]
    · rw [← hmax, ← hsame.2, hrmax]
  · rintro ⟨hread, hbegin, hend⟩
    obtain ⟨st, result, legacy, -, hresult, -, hlegacy⟩ := h.exists_answers hread
    obtain ⟨⟨hmin, hmax⟩, hleast, hgreatest⟩ := alertsGroupBy_range h hlegacy
    obtain ⟨hrmin, hrmax⟩ := alertsWithTimeout_range h.newest h.inTime hresult
    have hall : ∀ a ∈ (keptGroups bare selected).map fun group => (timesOf group).min?.getD 0,
        some a = (timesOf rows).min? := by
      refine List.forall_mem_map.mpr fun group hkept => ?_
      rw [← hgroup group hkept, hbegin group hkept]
    have hlow : ((keptGroups bare selected).map fun group => (timesOf group).min?.getD 0).min? =
        (timesOf rows).min? := by
      cases hkept : keptGroups bare selected with
      | nil =>
          rw [hkept, List.map_nil] at hend
          have hnil : timesOf rows = [] := List.max?_eq_none_iff.mp hend.symm
          rw [hnil]
          rfl
      | cons group groups =>
          obtain ⟨m, hm⟩ := Option.ne_none_iff_exists'.mp (mt List.min?_eq_none_iff.mp
            (List.cons_ne_nil ((timesOf group).min?.getD 0) (groups.map fun group => (timesOf group).min?.getD 0)))
          rw [List.map_cons, hm]
          rw [hkept] at hall
          exact hall m (List.min?_eq_some_iff.mp hm).1
    have hhigh : ((keptGroups bare selected).map fun group => (timesOf group).min?.getD 0).max? =
        (timesOf rows).min? := by
      rw [← hlow]
      exact max?_eq_min?_iff.mpr fun a ha => by rw [hall a ha, hlow]
    refine ⟨result, legacy, hresult, hlegacy, ⟨?_, hgreatest⟩, ⟨?_, ?_⟩, ?_, ?_⟩
    · rw [hmin, hleast, hlow, hhigh]
    · rw [hrmin, hmin, hhigh]
    · rw [hrmax, hmax, hend]
    · rw [hemin, hmin, hhigh]
    · rw [hemax, hmax, hend]

end

/-! ### Two groups -/

/-- Two alerts that are a second apart, each a bucket of its own. -/
def collidingBuckets : List Bucket :=
  [⟨⟨1782648001000000000, 0⟩, ⟨1782648001000000000, 0⟩⟩, ⟨⟨1782648000000000000, 0⟩, ⟨1782648000000000000, 0⟩⟩]

theorem collidingBuckets_of : BucketsOf collidingRows collidingBuckets :=
  ⟨collidingRows.map fun row => [row], .refl _, by decide +kernel, by decide +kernel⟩

theorem boundsAgree_iff_colliding :
    BoundsAgree sampleLib (fun _ => none) firstRow (fun _ => false) collidingRows collidingRows collidingRows
        collidingBuckets ↔
      Readable collidingRows ∧
      (∀ group ∈ keptGroups firstRow collidingRows, (timesOf group).min? = (timesOf collidingRows).min?) ∧
      ((keptGroups firstRow collidingRows).map fun group => stampOf sampleLib (firstRow group)).max? =
        (timesOf collidingRows).max? :=
  boundsAgree_iff collidingRows_inbox collidingBuckets_of

/-- The range of two groups begins with the later of them. -/
theorem collidingRows_bounds : ¬ BoundsAgree sampleLib (fun _ => none) firstRow (fun _ => false) collidingRows
    collidingRows collidingRows collidingBuckets := by
  rintro ⟨result, legacy, -, hlegacy, hbounds, -⟩
  have hrange : (alertsGroupBy sampleLib firstRow collidingRows collidingRows).map (fun legacy =>
      (legacy.minTimestamp.map (·.nanos), (legacy.events.map (·.metadata.minTimestamp.nanos)).min?)) =
      .ok (some 1782648001000000000, some 1782648000000000000) := by decide +kernel
  rw [hlegacy] at hrange
  have hpair := Prod.mk.inj (Except.ok.inj hrange)
  have hleast := hbounds.least
  rw [hpair.1, hpair.2] at hleast
  exact absurd hleast (by decide)

end EveBox.Repo
