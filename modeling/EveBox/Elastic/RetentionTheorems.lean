import EveBox.Elastic.Retention

/-!
# What the names of indices keep of the dates of events

* `parseIndexDate_index` — what is read back from the name of an index.
* `retained_iff` — when it is the date of the event, and the event is kept.
-/

namespace EveBox.Elastic

open Rust Eve Sink Calendar
open Sqlite (asI64 asI64_of_lt)

/-! ## Numbers of a width -/

section

variable {width n max : ℕ}

theorem isDigit_of_mem_pad {c : Char} (h : c ∈ pad width n) : c.isDigit = true := by
  rcases List.mem_append.mp h with hc | hc
  · rw [(List.mem_replicate.mp hc).2]
    decide
  · exact isDigit_of_mem_toDigits hc

theorem length_pad (hwidth : 0 < width) (h : n < 10 ^ width) : (pad width n).length = width := by
  have hle := (Nat.length_toDigits_le_iff (by decide) hwidth).mpr h
  rw [pad, List.length_append, List.length_replicate]
  omega

theorem parseUnsigned_pad (h : n ≤ max) : parseUnsigned max (pad width n) = some n := by
  have hne : pad width n ≠ [] := List.append_ne_nil_of_right_ne_nil _ Nat.toDigits_ne_nil
  have hvalue : Nat.ofDigitChars 10 (pad width n) 0 = n := by
    rw [pad, Nat.ofDigitChars_append, Nat.ofDigitChars_replicate_zero, Nat.mul_zero, Nat.ofDigitChars_ten_toDigits]
  rw [parseUnsigned_of_digits hne fun c hc => isDigit_of_mem_pad hc, hvalue, if_pos h]

end

/-! ## The text of a date -/

section

variable {digits : DigitClass}

theorem break_datePattern (digits : DigitClass) : ∀ p ∈ datePattern digits, p '-' = false := by
  have hdash : digits.isDigit '-' = false := digits.others '-' (by decide) (by decide)
  intro p hp
  simp only [datePattern, List.mem_cons, List.not_mem_nil, or_false] at hp
  rcases hp with rfl | rfl | rfl | rfl | rfl | rfl | rfl | rfl | rfl | rfl
  all_goals first | exact hdash | rfl

/-- A run of characters that the pattern repeats. -/
theorem matchesAt_replicate_append {p : Char → Bool} {ps : List (Char → Bool)} {as bs : List Char}
    (h : ∀ a ∈ as, p a = true) :
    FixedPattern.matchesAt (List.replicate as.length p ++ ps) (as ++ bs) = FixedPattern.matchesAt ps bs := by
  induction as with
  | nil => rfl
  | cons a as ih =>
      rw [List.length_cons, List.replicate_succ, List.cons_append, List.cons_append, FixedPattern.matchesAt,
        h a List.mem_cons_self, Bool.true_and, ih fun b hb => h b (List.mem_cons_of_mem _ hb)]

/-- The parts of a text that matches. -/
structure DateParts (d : Date) : Prop where
  year : (pad 4 d.year.natAbs).length = 4
  month : (pad 2 d.month.natAbs).length = 2
  day : (pad 2 d.day.natAbs).length = 2

theorem dateParts {d : Date} (h : d.Exists) (hyear : 0 ≤ d.year ∧ d.year ≤ 9999) : DateParts d := by
  obtain ⟨hpos, hle, hday, hlength⟩ := h
  have hday31 : d.day ≤ 31 := by
    unfold monthLength at hlength
    split_ifs at hlength <;> omega
  exact ⟨length_pad (by decide) (by omega), length_pad (by decide) (by omega), length_pad (by decide) (by omega)⟩

theorem find_dateText {d : Date} (h : d.Exists) (hyear : 0 ≤ d.year ∧ d.year ≤ 9999) :
    FixedPattern.find (datePattern digits) (dateText d) = some (dateText d) := by
  obtain ⟨hlength4, hlength2, hlength2'⟩ := dateParts h hyear
  have hdigit : ∀ width n, ∀ c ∈ pad width n, digits.isDigit c = true := fun width n c hc =>
    digits.ascii c (isDigit_of_mem_pad hc)
  have htext : dateText d = pad 4 d.year.natAbs ++ '.' :: (pad 2 d.month.natAbs ++ '.' :: pad 2 d.day.natAbs) := by
    rw [dateText, yearText, if_pos hyear]
  have hpattern : datePattern digits = List.replicate (pad 4 d.year.natAbs).length digits.isDigit ++ (fun c => decide (c = '.')) ::
      (List.replicate (pad 2 d.month.natAbs).length digits.isDigit ++ (fun c => decide (c = '.')) ::
        (List.replicate (pad 2 d.day.natAbs).length digits.isDigit ++ [])) := by
    rw [hlength4, hlength2, hlength2']
    rfl
  have hmatches : FixedPattern.matchesAt (datePattern digits) (dateText d) = true := by
    rw [hpattern, htext, matchesAt_replicate_append (hdigit _ _), FixedPattern.matchesAt,
      matchesAt_replicate_append (hdigit _ _), FixedPattern.matchesAt]
    have hlast : FixedPattern.matchesAt (List.replicate (pad 2 d.day.natAbs).length digits.isDigit ++ [])
        (pad 2 d.day.natAbs ++ []) = FixedPattern.matchesAt [] [] := matchesAt_replicate_append (hdigit 2 d.day.natAbs)
    rw [List.append_nil (pad 2 d.day.natAbs)] at hlast
    rw [hlast]
    rfl
  have hlength : (dateText d).length ≤ (datePattern digits).length := by
    rw [htext, List.length_append, List.length_cons, List.length_append, List.length_cons, hlength4, hlength2, hlength2']
    exact le_rfl
  rw [FixedPattern.find_of_matchesAt hmatches, List.take_of_length_le hlength]

theorem readDate_dateText {d : Date} (h : d.Exists) (hyear : 0 ≤ d.year ∧ d.year ≤ 9999) :
    readDate (dateText d) = some d := by
  obtain ⟨hlength4, hlength2, hlength2'⟩ := dateParts h hyear
  have htext : dateText d = pad 4 d.year.natAbs ++ '.' :: (pad 2 d.month.natAbs ++ '.' :: pad 2 d.day.natAbs) := by
    rw [dateText, yearText, if_pos hyear]
  have hyears : (dateText d).take 4 = pad 4 d.year.natAbs := by
    rw [htext]
    exact List.take_left' hlength4
  have hmonths : (dateText d).drop 5 = pad 2 d.month.natAbs ++ '.' :: pad 2 d.day.natAbs := by
    rw [htext, List.append_cons]
    exact List.drop_left' (by simp [hlength4])
  have hdays : (dateText d).drop 8 = pad 2 d.day.natAbs := by
    have hdrop : (dateText d).drop 8 = ((dateText d).drop 5).drop 3 := by rw [List.drop_drop]
    rw [hdrop, hmonths, List.append_cons]
    exact List.drop_left' (by simp [hlength2])
  have hdate : (⟨(d.year.natAbs : ℤ), (d.month.natAbs : ℤ), (d.day.natAbs : ℤ)⟩ : Date) = d := by
    have hmonth := h.month_pos
    have hday := h.day_pos
    have hy : (d.year.natAbs : ℤ) = d.year := Int.natAbs_of_nonneg hyear.1
    have hm : (d.month.natAbs : ℤ) = d.month := Int.natAbs_of_nonneg (by omega)
    have hd : (d.day.natAbs : ℤ) = d.day := Int.natAbs_of_nonneg (by omega)
    rw [hy, hm, hd]
  have hbounds : d.year.natAbs ≤ 2 ^ 31 - 1 ∧ d.month.natAbs ≤ 2 ^ 32 - 1 ∧ d.day.natAbs ≤ 2 ^ 32 - 1 := by
    have hmonth := h.month_le
    have hpos := h.month_pos
    have hday := h.day_pos
    have hlength := h.day_le
    unfold monthLength at hlength
    split_ifs at hlength <;> omega
  unfold readDate
  rw [hyears, hmonths, hdays, List.take_left' hlength2, List.take_of_length_le hlength2'.le, parseUnsigned_pad hbounds.1, parseUnsigned_pad hbounds.2.1,
    parseUnsigned_pad hbounds.2.2]
  simp only [Option.bind_eq_bind, Option.bind_some, hdate, if_pos h]

/-- The year of a date that is read has four digits at most. -/
theorem year_of_readDate {found : List Char} {d : Date} (h : readDate found = some d) : 0 ≤ d.year ∧ d.year ≤ 9999 := by
  unfold readDate at h
  obtain ⟨year, hyear, h⟩ := Option.bind_eq_some_iff.mp h
  obtain ⟨month, -, h⟩ := Option.bind_eq_some_iff.mp h
  obtain ⟨day, -, h⟩ := Option.bind_eq_some_iff.mp h
  dsimp only at h
  split_ifs at h
  obtain rfl := Option.some.inj h
  have hlt := lt_of_parseUnsigned hyear
  have hle : 10 ^ (found.take 4).length ≤ 10 ^ 4 := Nat.pow_le_pow_right (by decide) (List.length_take_le _ _)
  dsimp only
  omega

end

/-! ## The name of an index -/

section

variable {lib : DateLib} {base : String} {opensearch : Bool} {eventType : Option String} {ts : EventTime}
  {days : Fin (2 ^ 64)}

theorem find_index : FixedPattern.find (datePattern lib.digits) (lib.index base opensearch eventType ts).toList =
    (FixedPattern.find (datePattern lib.digits) base.toList).or
      (FixedPattern.find (datePattern lib.digits) (dateText ts.localDate)) := by
  have hne : datePattern lib.digits ≠ [] := List.cons_ne_nil _ _
  have hbreak := break_datePattern lib.digits
  have hstats : FixedPattern.find (datePattern lib.digits) ['s', 't', 'a', 't', 's'] = none :=
    FixedPattern.find_of_length_lt (show 5 < 10 by decide)
  unfold DateLib.index selectIndex
  rw [lib.ymd, if_neg (by decide)]
  split_ifs
  · have htext : (base ++ "-stats-" ++ String.ofList (dateText ts.localDate)).toList =
        base.toList ++ '-' :: (['s', 't', 'a', 't', 's'] ++ '-' :: dateText ts.localDate) := by
      simp [String.toList_append]
    rw [htext, FixedPattern.find_append_of_break hbreak hne, FixedPattern.find_append_of_break hbreak hne, hstats,
      Option.none_or]
  · have htext : (base ++ "-" ++ String.ofList (dateText ts.localDate)).toList =
        base.toList ++ '-' :: dateText ts.localDate := by
      simp [String.toList_append]
    rw [htext, FixedPattern.find_append_of_break hbreak hne]

/-- The date of an index is the first that is found in its base, or else that of the event. -/
theorem parseIndexDate_index : parseIndexDate lib.digits (lib.index base opensearch eventType ts) = some ts.localDate ↔
    (0 ≤ ts.localDate.year ∧ ts.localDate.year ≤ 9999) ∧
      ∀ found, FixedPattern.find (datePattern lib.digits) base.toList = some found →
        readDate found = some ts.localDate := by
  rw [parseIndexDate, find_index]
  constructor
  · intro h
    obtain ⟨found, hfound, hread⟩ := Option.bind_eq_some_iff.mp h
    refine ⟨year_of_readDate hread, fun found' hfound' => ?_⟩
    rw [hfound', Option.some_or] at hfound
    obtain rfl := Option.some.inj hfound
    exact hread
  · rintro ⟨hyear, hbase⟩
    cases hfind : FixedPattern.find (datePattern lib.digits) base.toList with
    | some found => exact hbase found hfind
    | none =>
        have hdate : ts.localDate.Exists := exists_dateOf _
        rw [Option.none_or, find_dateText hdate hyear]
        exact readDate_dateText hdate hyear

/-! ## The age of an index -/

theorem age_eq {now : ℤ} {date : Date} (h : date.days * dayNanos ≤ now) :
    age now date = (now - date.days * dayNanos) / dayNanos := by
  have hpos : 0 ≤ now - date.days * dayNanos := Int.sub_nonneg_of_le h
  rw [age, Int.tdiv_eq_ediv_of_nonneg hpos, Int.tdiv_eq_ediv_of_nonneg (Int.ediv_nonneg hpos (by decide))]
  unfold dayNanos
  omega

theorem age_nonpos {now : ℤ} {date : Date} (h : now < date.days * dayNanos) : age now date ≤ 0 := by
  have hpos : 0 ≤ -(now - date.days * dayNanos) := by omega
  have hdays := Int.tdiv_nonneg (Int.tdiv_nonneg hpos (b := 1000000000) (by decide)) (b := 86400) (by decide)
  rw [Int.neg_tdiv, Int.neg_tdiv] at hdays
  exact Int.nonpos_of_neg_nonneg hdays

/-- What is asked to be deleted is outdated. -/
theorem exists_outdated {digits : DigitClass} {delete : String → Option Bool} {n : ℕ} {force : Bool} {name : String}
    {indices : List (String × ℤ)} (h : name ∈ (doDeleteIndices digits delete n force indices).1) :
    ∃ now, (name, now) ∈ indices ∧ outdated digits n name now = true := by
  induction indices with
  | nil => cases h
  | cons e indices ih =>
      obtain ⟨name', now⟩ := e
      have hrest : name ∈ (doDeleteIndices digits delete n force indices).1 →
          ∃ now', (name, now') ∈ (name', now) :: indices ∧ outdated digits n name now' = true := fun hmem => by
        obtain ⟨now', hnow', hout⟩ := ih hmem
        exact ⟨now', List.mem_cons_of_mem _ hnow', hout⟩
      unfold doDeleteIndices at h
      dsimp only at h
      split at h
      · rename_i hout
        split at h
        · rcases List.mem_cons.mp h with rfl | hmem
          · exact ⟨now, List.mem_cons_self, hout⟩
          · exact hrest hmem
        · exact hrest h
      · exact hrest h

/-- The index of an event that is read back is kept if and only if the event is not behind its day, and the days are
those of an `i64`. -/
theorem kept_iff (hread : parseIndexDate lib.digits (lib.index base opensearch eventType ts) = some ts.localDate) :
    (∀ delete force (indices : List (String × ℤ)),
      (∀ e ∈ indices, e.1 = lib.index base opensearch eventType ts → e.2 - ts.nanos < days * dayNanos) →
      lib.index base opensearch eventType ts ∉ (doDeleteIndices lib.digits delete days force indices).1) ↔
    ts.nanos ≤ (ts.localDay + 1) * dayNanos ∧ days.val < 2 ^ 63 := by
  have hdays : ts.localDate.days = ts.localDay := days_dateOf _
  have houtdated : ∀ now, outdated lib.digits days (lib.index base opensearch eventType ts) now = true ↔
      asI64 days < age now ts.localDate := fun now => by
    rw [outdated, hread, Option.any_some, decide_eq_true_iff]
  constructor
  · intro h
    have hnot : ∀ now, now - ts.nanos < days * dayNanos → ¬asI64 days < age now ts.localDate := by
      intro now hyoung hage
      refine h (fun _ => none) true [(lib.index base opensearch eventType ts, now)] ?_ ?_
      · intro e he _
        obtain rfl := List.mem_singleton.mp he
        exact hyoung
      · unfold doDeleteIndices
        rw [(houtdated now).mpr hage]
        exact List.mem_cons_self
    have hlt := days.isLt
    have hwest := ts.west
    have heast := ts.east
    have hlocal : ts.localDay * dayNanos ≤ ts.nanos + ts.offset * 1000000000 :=
      Int.ediv_mul_le _ (by decide)
    have hsmall : days.val < 2 ^ 63 := by
      by_contra hlarge
      -- the number of days has become negative, and the first moment of the day is too old already
      refine hnot (ts.localDay * dayNanos) ?_ ?_
      · unfold dayNanos at hlocal ⊢
        omega
      · rw [age_eq (by rw [hdays]), hdays, Int.sub_self, asI64]
        rw [Nat.mod_eq_of_lt hlt, if_neg hlarge]
        have hzero : (0 : ℤ) / dayNanos = 0 := rfl
        rw [hzero]
        omega
    refine ⟨?_, hsmall⟩
    by_contra hlate
    refine hnot ((ts.localDay + days + 1) * dayNanos) ?_ ?_
    · unfold dayNanos at hlate ⊢
      omega
    · have hge : ts.localDate.days * dayNanos ≤ (ts.localDay + days + 1) * dayNanos := by
        rw [hdays]
        unfold dayNanos
        omega
      have hdiff : (ts.localDay + days + 1) * dayNanos - ts.localDay * dayNanos = (days + 1) * dayNanos := by
        unfold dayNanos
        omega
      rw [age_eq hge, hdays, hdiff, asI64_of_lt hsmall, Int.mul_ediv_cancel _ (by decide)]
      omega
  · rintro ⟨hday, hsmall⟩ delete force indices hyoung hmem
    obtain ⟨now, hnow, hout⟩ := exists_outdated hmem
    have hlt := hyoung _ hnow rfl
    have hage := (houtdated now).mp hout
    rw [asI64_of_lt hsmall] at hage
    dsimp only at hlt
    rcases lt_or_ge now (ts.localDate.days * dayNanos) with hbefore | hafter
    · have hnonpos := age_nonpos hbefore
      omega
    · rw [age_eq hafter, hdays] at hage
      have hle : (days + 1) * dayNanos ≤ now - ts.localDay * dayNanos := by
        have hmul := Int.ediv_mul_le (now - ts.localDay * dayNanos) (b := dayNanos) (by decide)
        unfold dayNanos at hmul hage ⊢
        omega
      unfold dayNanos at hle hday hlt
      omega

/-- The date of an event is read back from the name of its index, and the index is kept while the event is young, for
exactly the datable events. -/
theorem retained_iff (lib : DateLib) (base : String) (opensearch : Bool) (eventType : Option String) (ts : EventTime)
    (days : Fin (2 ^ 64)) : Retained lib base opensearch eventType ts days ↔ Datable lib base ts days := by
  constructor
  · intro h
    obtain ⟨hyear, hbase⟩ := parseIndexDate_index.mp h.readBack
    obtain ⟨hday, hdays⟩ := (kept_iff h.readBack).mp h.kept
    exact ⟨hyear, hbase, hday, hdays⟩
  · intro h
    have hread : parseIndexDate lib.digits (lib.index base opensearch eventType ts) = some ts.localDate :=
      parseIndexDate_index.mpr ⟨h.year, h.base⟩
    exact ⟨hread, (kept_iff hread).mpr ⟨h.day, h.days⟩⟩

/-- The dates of the calendar, and the digits of ASCII. -/
def DateLib.plain : DateLib where
  time :=
    { parse := fun _ => none
      isDigit := Char.isDigit
      format := fun _ dt => String.ofList (dateText (dateOf ((dt.nanos + dt.offset * 1000000000) / dayNanos)))
      rfc3339Micros := fun _ => ""
      rfc3339Millis := fun _ => "" }
  digits := .plain
  ymd _ := rfl

/-- 2026-01-01T22:00:00-0600. -/
def newYear : EventTime where
  nanos := (20455 * 86400 + 4 * 3600) * 1000000000
  offset := -21600
  west := by decide
  east := by decide

/-- On 2026-01-09 at midnight the event is not seven days old, and the index of 2026-01-01 is eight days old. -/
theorem newYear_not_retained : ¬Retained .plain "logstash" false none newYear 7 := by
  intro h
  have hindex : DateLib.plain.index "logstash" false none newYear = "logstash-2026.01.01" := by decide
  have hkept := h.kept (fun _ => none) true [("logstash-2026.01.01", 20462 * 86400 * 1000000000)]
  rw [hindex] at hkept
  refine hkept ?_ (by decide)
  intro e he _
  obtain rfl := List.mem_singleton.mp he
  decide

end

end EveBox.Elastic
