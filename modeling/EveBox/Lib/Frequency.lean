import EveBox.Lib.Grouping
import Mathlib.Algebra.BigOperators.Group.List.Basic
import Mathlib.Algebra.GroupWithZero.Nat
import Mathlib.Data.List.Count
import Mathlib.Data.List.Sort

/-!
# The most and the least frequent values of a list

The values of a list, each with its count, in an order of the counts; values of one count stand in any order.

* `tally_perm` — one pass that keeps a table counts the values.
* `isFrequent_take` — the first rows of any arrangement are those of the most, or the least, frequent values.
* `isFrequent_take_iff` — when the first rows of an arrangement, maybe of the other order, are.
-/

namespace EveBox.Frequency

variable {κ : Type*}

/-- The one count may stand before the other. -/
def Before (ascending : Bool) (m n : ℕ) : Prop := if ascending then m ≤ n else n ≤ m

instance (ascending : Bool) : DecidableRel (Before ascending) := fun m n => by
  unfold Before
  infer_instance

/-- The values of a list, each with its count. -/
def counts [DecidableEq κ] (vs : List κ) : List (κ × ℕ) := vs.dedup.map fun v => (v, vs.count v)

/-- The rows are in the order of their counts. -/
def Arranged (ascending : Bool) (rows : List (κ × ℕ)) : Prop := rows.Pairwise fun a b => Before ascending a.2 b.2

/-- The rows of the `size` most frequent values of a list, or, ascending, of the least frequent ones. -/
structure IsFrequent [DecidableEq κ] (ascending : Bool) (size : ℕ) (vs : List κ) (rows : List (κ × ℕ)) : Prop where
  length : rows.length = min size vs.dedup.length
  nodup : (rows.map (·.1)).Nodup
  exact : ∀ row ∈ rows, row.1 ∈ vs ∧ row.2 = vs.count row.1
  arranged : Arranged ascending rows
  others : ∀ v ∈ vs, v ∉ rows.map (·.1) → ∀ row ∈ rows, Before ascending row.2 (vs.count v)

/-! ## Orders -/

section

variable {ascending : Bool} {l m n : ℕ}

theorem Before.refl (ascending : Bool) (n : ℕ) : Before ascending n n := by
  cases ascending <;> exact le_refl n

theorem Before.trans (h : Before ascending l m) (h' : Before ascending m n) : Before ascending l n := by
  cases ascending
  · exact le_trans (α := ℕ) h' h
  · exact le_trans (α := ℕ) h h'

theorem Before.total (ascending : Bool) (m n : ℕ) : Before ascending m n ∨ Before ascending n m := by
  cases ascending
  · exact le_total n m
  · exact le_total m n

theorem Before.antisymm (h : Before ascending m n) (h' : Before ascending n m) : m = n := by
  cases ascending
  · exact le_antisymm (α := ℕ) h' h
  · exact le_antisymm (α := ℕ) h h'

/-- What stands before in both orders is the same. -/
theorem Before.eq_of_ne {ascending' : Bool} (hne : ascending' ≠ ascending) (h : Before ascending m n)
    (h' : Before ascending' m n) : m = n := by
  cases ascending <;> cases ascending' <;> simp_all [Before] <;> omega

end

/-- The values can be arranged. -/
theorem exists_arranged (ascending : Bool) (rows : List (κ × ℕ)) : ∃ sorted, sorted.Perm rows ∧ Arranged ascending sorted := by
  refine ⟨rows.mergeSort fun a b => Before ascending a.2 b.2, List.mergeSort_perm _ _, ?_⟩
  have hsorted : (rows.mergeSort fun a b => Before ascending a.2 b.2).Pairwise fun a b =>
      decide (Before ascending a.2 b.2) = true :=
    List.pairwise_mergeSort (fun a b c hab hbc => decide_eq_true ((of_decide_eq_true hab).trans (of_decide_eq_true hbc)))
      (fun a b => by simpa using Before.total ascending a.2 b.2) rows
  exact hsorted.imp of_decide_eq_true

/-! ## Counts of nothing -/

/-- Counts of nothing stand at the one end. -/
theorem Arranged.eq_append {ascending : Bool} {rows : List (κ × ℕ)} (h : Arranged ascending rows) :
    rows = if ascending then rows.filter (·.2 = 0) ++ rows.filter (0 < ·.2)
      else rows.filter (0 < ·.2) ++ rows.filter (·.2 = 0) := by
  induction rows with
  | nil => cases ascending <;> rfl
  | cons row rows ih =>
      obtain ⟨hrow, hrows⟩ := List.pairwise_cons.mp h
      have ih := ih hrows
      cases ascending with
      | true =>
          rw [if_pos rfl] at ih ⊢
          by_cases hzero : row.2 = 0
          · rw [List.filter_cons_of_pos (by simpa using hzero), List.filter_cons_of_neg (by simpa using hzero),
              List.cons_append, ← ih]
          · have hnil : rows.filter (·.2 = 0) = [] := by
              refine List.filter_eq_nil_iff.mpr fun row' hrow' => ?_
              have hle : row.2 ≤ row'.2 := hrow row' hrow'
              simp only [decide_eq_true_eq]
              omega
            rw [hnil, List.nil_append] at ih
            rw [List.filter_cons_of_neg (by simpa using hzero), List.filter_cons_of_pos (by simpa using Nat.pos_of_ne_zero hzero),
              hnil, List.nil_append, ← ih]
      | false =>
          rw [if_neg Bool.false_ne_true] at ih ⊢
          by_cases hzero : row.2 = 0
          · have hnil : rows.filter (0 < ·.2) = [] := by
              refine List.filter_eq_nil_iff.mpr fun row' hrow' => ?_
              have hle : row'.2 ≤ row.2 := hrow row' hrow'
              simp only [decide_eq_true_eq]
              omega
            rw [hnil, List.nil_append] at ih
            rw [List.filter_cons_of_neg (by simp [hzero]), List.filter_cons_of_pos (by simpa using hzero), hnil,
              List.nil_append, ← ih]
          · rw [List.filter_cons_of_pos (by simpa using Nat.pos_of_ne_zero hzero), List.filter_cons_of_neg (by simpa using hzero),
              List.cons_append, ← ih]

/-- Of the first rows, those that count something: rows that count nothing come before them in ascending order. -/
theorem filter_take {ascending : Bool} {rows : List (κ × ℕ)} (h : Arranged ascending rows) (n : ℕ) : (rows.take n).filter (0 < ·.2) =
    (rows.filter (0 < ·.2)).take (if ascending then n - (rows.filter (·.2 = 0)).length else n) := by
  have hpos : ∀ k, ((rows.filter (0 < ·.2)).take k).filter (0 < ·.2) = (rows.filter (0 < ·.2)).take k := fun k =>
    List.filter_eq_self.mpr fun row hrow => (List.mem_filter.mp (List.mem_of_mem_take hrow)).2
  have hzero : ∀ k, ((rows.filter (·.2 = 0)).take k).filter (0 < ·.2) = [] := fun k =>
    List.filter_eq_nil_iff.mpr fun row hrow => by
      have := (List.mem_filter.mp (List.mem_of_mem_take hrow)).2
      simp only [decide_eq_true_eq] at this ⊢
      omega
  have heq := h.eq_append
  cases ascending with
  | true =>
      rw [if_pos rfl] at heq ⊢
      conv_lhs => rw [heq]
      rw [List.take_append, List.filter_append, hzero, hpos, List.nil_append]
  | false =>
      rw [if_neg Bool.false_ne_true] at heq ⊢
      conv_lhs => rw [heq]
      rw [List.take_append, List.filter_append, hpos, hzero, List.append_nil]

/-! ## Counts -/

variable [DecidableEq κ] {vs : List κ} {rows : List (κ × ℕ)}

theorem mem_counts {row : κ × ℕ} : row ∈ counts vs ↔ row.1 ∈ vs ∧ row.2 = vs.count row.1 := by
  obtain ⟨v, n⟩ := row
  simp only [counts, List.mem_map, List.mem_dedup, Prod.mk.injEq]
  constructor
  · rintro ⟨v', hv', rfl, rfl⟩
    exact ⟨hv', rfl⟩
  · rintro ⟨hv, rfl⟩
    exact ⟨v, hv, rfl, rfl⟩

theorem counts_keys (vs : List κ) : (counts vs).map (·.1) = vs.dedup := by
  rw [counts, List.map_map]
  exact List.map_id _

theorem counts_keys_nodup (vs : List κ) : ((counts vs).map (·.1)).Nodup := by
  rw [counts_keys]
  exact vs.nodup_dedup

theorem length_counts (vs : List κ) : (counts vs).length = vs.dedup.length := List.length_map _

/-- Rows that are those of the values are their counts, in some order. -/
theorem perm_counts (hnodup : (rows.map (·.1)).Nodup) (hmem : ∀ row, row ∈ rows ↔ row.1 ∈ vs ∧ row.2 = vs.count row.1) :
    rows.Perm (counts vs) := by
  rw [List.perm_ext_iff_of_nodup (List.Nodup.of_map _ hnodup) (List.Nodup.of_map _ (counts_keys_nodup vs))]
  exact fun row => (hmem row).trans mem_counts.symm

/-! ## One pass -/

/-- One more value in a table of counts. -/
def bump (table : List (κ × ℕ)) (v : κ) : List (κ × ℕ) :=
  if v ∈ table.map (·.1) then table.map fun entry => if entry.1 = v then (entry.1, entry.2 + 1) else entry
  else table ++ [(v, 1)]

/-- The table that one pass makes. -/
def tally (vs : List κ) : List (κ × ℕ) := vs.foldl bump []

/-- A table of counts is one of entries that begin with one and go on by one. -/
theorem put_eq_bump (table : List (κ × ℕ)) (v : κ) :
    Grouping.put id (fun _ => (.ok 1 : Except Unit ℕ)) (fun n _ => n + 1) table v = .ok (bump table v) := by
  unfold Grouping.put bump
  simp only [id_eq]
  split_ifs <;> rfl

theorem collected_foldl {seen : List κ} {table : List (κ × ℕ)}
    (h : Grouping.Collected id (fun _ => (.ok 1 : Except Unit ℕ)) (fun n _ => n + 1) seen table) (vs : List κ) :
    Grouping.Collected id (fun _ => (.ok 1 : Except Unit ℕ)) (fun n _ => n + 1) (seen ++ vs) (vs.foldl bump table) := by
  induction vs generalizing seen table with
  | nil => rwa [List.append_nil]
  | cons v vs ih =>
      rw [List.append_cons, List.foldl_cons]
      refine ih ?_
      unfold bump
      by_cases hmem : v ∈ table.map (·.1)
      · rw [if_pos hmem]
        exact h.put_of_mem hmem
      · rw [if_neg hmem]
        exact h.put_of_not_mem hmem rfl

/-- One pass counts the values. -/
theorem tally_perm (vs : List κ) : (tally vs).Perm (counts vs) := by
  have h := collected_foldl Grouping.Collected.nil vs
  rw [List.nil_append] at h
  have hcount : ∀ v n, (v, n) ∈ vs.foldl bump [] → v ∈ vs ∧ n = vs.count v := by
    intro v n hmem
    obtain ⟨a, rest, first, hfilter, hstart, rfl⟩ := h.entry v n hmem
    obtain rfl : 1 = first := Except.ok.inj hstart
    have hlength : ∀ (rest : List κ) (n : ℕ), rest.foldl (fun n _ => n + 1) n = n + rest.length := by
      intro rest
      induction rest with
      | nil => exact fun _ => rfl
      | cons _ rest ih => intro n; rw [List.foldl_cons, ih, List.length_cons]; omega
    have hvs : a ∈ vs ∧ a = v := by
      have := List.mem_cons_self (a := a) (l := rest)
      rw [← hfilter, List.mem_filter] at this
      exact ⟨this.1, of_decide_eq_true this.2⟩
    refine ⟨hvs.2 ▸ hvs.1, ?_⟩
    have hfilter' : (vs.filter fun x => x == v).length = rest.length + 1 := by
      have : (vs.filter fun x => x == v) = a :: rest := by
        rw [← hfilter]
        exact List.filter_congr fun x _ => by simp [beq_eq_decide]
      rw [this, List.length_cons]
    rw [hlength, List.count_eq_length_filter, hfilter', Nat.add_comm]
  refine perm_counts h.nodup fun row => ⟨fun hmem => hcount row.1 row.2 hmem, ?_⟩
  rintro ⟨hv, hn⟩
  obtain ⟨n, hmem⟩ := h.exists_entry hv
  obtain rfl : n = row.2 := (hcount _ _ hmem).2.trans hn.symm
  exact hmem

/-! ## First rows -/

/-- An arrangement of the counts. -/
def Arranges (ascending : Bool) (vs : List κ) (sorted : List (κ × ℕ)) : Prop :=
  sorted.Perm (counts vs) ∧ Arranged ascending sorted

section

variable {ascending ascending' : Bool} {size m : ℕ} {sorted : List (κ × ℕ)}

theorem Arranges.length (h : Arranges ascending vs sorted) : sorted.length = vs.dedup.length := by
  rw [h.1.length_eq, length_counts]

theorem Arranges.mem_iff (h : Arranges ascending vs sorted) {row : κ × ℕ} :
    row ∈ sorted ↔ row.1 ∈ vs ∧ row.2 = vs.count row.1 := h.1.mem_iff.trans mem_counts

/-- The first rows of an arrangement. -/
theorem isFrequent_take (h : Arranges ascending vs sorted) (size : ℕ) :
    IsFrequent ascending size vs (sorted.take size) := by
  have hkeys : (sorted.map (·.1)).Nodup := (h.1.map _).nodup_iff.mpr (counts_keys_nodup vs)
  refine ⟨by rw [List.length_take, h.length], ?_, ?_, h.2.sublist (List.take_sublist _ _), ?_⟩
  · exact hkeys.sublist ((List.take_sublist _ _).map _)
  · exact fun row hrow => h.mem_iff.mp (List.mem_of_mem_take hrow)
  · intro v hv hnot row hrow
    have hmem : (v, vs.count v) ∈ sorted := h.mem_iff.mpr ⟨hv, rfl⟩
    have harranged := h.2
    rw [← List.take_append_drop size sorted] at hmem harranged
    rcases List.mem_append.mp hmem with hmem | hmem
    · exact absurd (List.mem_map_of_mem hmem) hnot
    · exact (List.pairwise_append.mp harranged).2.2 _ hrow _ hmem

/-- The first row has the first of all counts. -/
theorem IsFrequent.before_of_head {row : κ × ℕ} (h : IsFrequent ascending size vs (row :: rows)) :
    ∀ v ∈ vs, Before ascending row.2 (vs.count v) := by
  intro v hv
  by_cases hmem : v ∈ (row :: rows).map (·.1)
  · obtain ⟨row', hrow', rfl⟩ := List.mem_map.mp hmem
    rw [← (h.exact row' hrow').2]
    rcases List.mem_cons.mp hrow' with rfl | hrow'
    · exact Before.refl _ _
    · exact (List.pairwise_cons.mp h.arranged).1 row' hrow'
  · exact h.others v hv hmem row List.mem_cons_self

/-- Rows of values that all have one count are in any order. -/
theorem IsFrequent.of_count_eq (h : IsFrequent ascending size vs rows) (heq : ∀ v ∈ vs, ∀ w ∈ vs, vs.count v = vs.count w) :
    IsFrequent ascending' size vs rows := by
  refine ⟨h.length, h.nodup, h.exact, ?_, ?_⟩
  · refine List.Pairwise.imp_of_mem ?_ h.arranged
    intro a b ha hb _
    rw [(h.exact a ha).2, (h.exact b hb).2, heq _ (h.exact a ha).1 _ (h.exact b hb).1]
    exact Before.refl _ _
  · intro v hv _ row hrow
    rw [(h.exact row hrow).2, heq _ (h.exact row hrow).1 _ hv]
    exact Before.refl _ _

theorem IsFrequent.resize (h : IsFrequent ascending m vs rows) (hsize : min m vs.dedup.length = min size vs.dedup.length) :
    IsFrequent ascending size vs rows := ⟨h.length.trans hsize, h.nodup, h.exact, h.arranged, h.others⟩

/-- The first rows of an arrangement are those of the most frequent values if and only if there are as many, and the
arrangement is in the same order, unless the order makes no difference. -/
theorem isFrequent_take_iff (h : Arranges ascending' vs sorted) :
    IsFrequent ascending size vs (sorted.take m) ↔ min m vs.dedup.length = min size vs.dedup.length ∧
      (ascending' = ascending ∨ sorted.take m = [] ∨ ∀ v ∈ vs, ∀ w ∈ vs, vs.count v = vs.count w) := by
  have hfirst := isFrequent_take h m
  constructor
  · intro hfrequent
    refine ⟨hfirst.length.symm.trans hfrequent.length, ?_⟩
    by_cases hne : ascending' = ascending
    · exact .inl hne
    cases hrows : sorted.take m with
    | nil => exact .inr (.inl rfl)
    | cons row rows =>
        rw [hrows] at hfirst hfrequent
        have heq : ∀ v ∈ vs, row.2 = vs.count v := fun v hv =>
          Before.eq_of_ne hne (hfrequent.before_of_head v hv) (hfirst.before_of_head v hv)
        exact .inr (.inr fun v hv w hw => (heq v hv).symm.trans (heq w hw))
  · rintro ⟨hsize, rfl | hnil | heq⟩
    · exact hfirst.resize hsize
    · rw [hnil] at hfirst ⊢
      exact ⟨hfirst.length.trans hsize, hfirst.nodup, hfirst.exact, List.Pairwise.nil, fun _ _ _ _ hrow => nomatch hrow⟩
    · exact (hfirst.of_count_eq heq).resize hsize

/-- Such rows are the first ones of an arrangement. -/
theorem IsFrequent.exists_arranges (h : IsFrequent ascending size vs rows) :
    ∃ sorted, Arranges ascending vs sorted ∧ rows = sorted.take size := by
  obtain ⟨others, hperm, hothers⟩ :=
    exists_arranged ascending ((counts vs).filter fun row => row.1 ∉ rows.map (·.1))
  have hmem : ∀ row, row ∈ others ↔ (row.1 ∈ vs ∧ row.2 = vs.count row.1) ∧ row.1 ∉ rows.map (·.1) := by
    intro row
    rw [hperm.mem_iff, List.mem_filter, mem_counts, decide_eq_true_iff]
  have hkeys : (others.map (·.1)).Nodup :=
    (hperm.map _).nodup_iff.mpr ((counts_keys_nodup vs).sublist (List.filter_sublist.map _))
  have harranges : Arranges ascending vs (rows ++ others) := by
    constructor
    · refine perm_counts ?_ fun row => ⟨fun hrow => ?_, fun hrow => ?_⟩
      · rw [List.map_append, List.nodup_append]
        refine ⟨h.nodup, hkeys, ?_⟩
        rintro v hv w hw rfl
        obtain ⟨row, hrow, rfl⟩ := List.mem_map.mp hw
        exact ((hmem row).mp hrow).2 hv
      · rcases List.mem_append.mp hrow with hrow | hrow
        · exact h.exact row hrow
        · exact ((hmem row).mp hrow).1
      · by_cases hin : row.1 ∈ rows.map (·.1)
        · obtain ⟨row', hrow', heq⟩ := List.mem_map.mp hin
          have hrow'' : row' = row := Prod.ext heq (by rw [(h.exact row' hrow').2, hrow.2, heq])
          exact List.mem_append_left _ (hrow'' ▸ hrow')
        · exact List.mem_append_right _ ((hmem row).mpr ⟨hrow, hin⟩)
    · refine List.pairwise_append.mpr ⟨h.arranged, hothers, fun row hrow row' hrow' => ?_⟩
      have hrow' := (hmem row').mp hrow'
      rw [hrow'.1.2]
      exact h.others row'.1 hrow'.1.1 hrow'.2 row hrow
  refine ⟨rows ++ others, harranges, ?_⟩
  rcases le_total size vs.dedup.length with hle | hle
  · rw [List.take_append_of_le_length (by rw [h.length]; omega), List.take_of_length_le (by rw [h.length]; omega)]
  · have hlength := harranges.length
    rw [List.take_of_length_le (by omega)]
    have hnil : others = [] := List.eq_nil_of_length_eq_zero (by rw [List.length_append, h.length] at hlength; omega)
    rw [hnil, List.append_nil]

/-- Two such lists of rows have the same counts, and differ in the order of equal counts at most. -/
theorem IsFrequent.counts_eq {rows' : List (κ × ℕ)} (h : IsFrequent ascending size vs rows)
    (h' : IsFrequent ascending size vs rows') : rows.map (·.2) = rows'.map (·.2) := by
  obtain ⟨sorted, harranges, rfl⟩ := h.exists_arranges
  obtain ⟨sorted', harranges', rfl⟩ := h'.exists_arranges
  have hperm : (sorted.map (·.2)).Perm (sorted'.map (·.2)) := (harranges.1.trans harranges'.1.symm).map _
  have hantisymm : ∀ m n, m ∈ sorted.map (·.2) → n ∈ sorted'.map (·.2) → Before ascending m n → Before ascending n m → m = n :=
    fun _ _ _ _ hmn hnm => hmn.antisymm hnm
  have heq : sorted.map (·.2) = sorted'.map (·.2) :=
    hperm.eq_of_pairwise hantisymm (List.pairwise_map.mpr harranges.2) (List.pairwise_map.mpr harranges'.2)
  rw [List.map_take, List.map_take, heq]

/-! ## Other values -/

theorem isFrequent_perm {vs' : List κ} (h : vs.Perm vs') :
    IsFrequent ascending size vs rows ↔ IsFrequent ascending size vs' rows := by
  have hone : ∀ {vs vs' : List κ}, vs.Perm vs' → IsFrequent ascending size vs rows → IsFrequent ascending size vs' rows := by
    intro vs vs' h hrows
    have hcount : ∀ v, vs.count v = vs'.count v := fun v => h.count_eq v
    refine ⟨by rw [hrows.length, h.dedup.length_eq], hrows.nodup, fun row hrow => ?_, hrows.arranged, fun v hv hnot row hrow => ?_⟩
    · rw [← h.mem_iff, ← hcount]
      exact hrows.exact row hrow
    · rw [← hcount]
      exact hrows.others v (h.mem_iff.mpr hv) hnot row hrow
  exact ⟨hone h, hone h.symm⟩

/-- The values by other names. -/
theorem IsFrequent.map {κ' : Type*} [DecidableEq κ'] {f : κ → κ'} (hf : Function.Injective f)
    (h : IsFrequent ascending size vs rows) :
    IsFrequent ascending size (vs.map f) (rows.map fun row => (f row.1, row.2)) := by
  have hkeys : (rows.map fun row => (f row.1, row.2)).map (·.1) = (rows.map (·.1)).map f := by
    rw [List.map_map, List.map_map]
    rfl
  refine ⟨?_, ?_, ?_, ?_, ?_⟩
  · rw [List.length_map, h.length, List.dedup_map_of_injective hf, List.length_map]
  · rw [hkeys]
    exact h.nodup.map hf
  · intro row hrow
    obtain ⟨row', hrow', rfl⟩ := List.mem_map.mp hrow
    have hexact := h.exact row' hrow'
    exact ⟨List.mem_map_of_mem hexact.1, by rw [List.count_map_of_injective _ _ hf]; exact hexact.2⟩
  · exact List.pairwise_map.mpr h.arranged
  · intro v hv hnot row hrow
    obtain ⟨v', hv', rfl⟩ := List.mem_map.mp hv
    obtain ⟨row', hrow', rfl⟩ := List.mem_map.mp hrow
    rw [List.count_map_of_injective _ _ hf]
    rw [hkeys, List.mem_map_of_injective hf] at hnot
    exact h.others v' hv' hnot row' hrow'

end

/-! ## Shares -/

theorem sum_ite_eq (a : κ) (keys : List κ) : (keys.map fun k => if a = k then 1 else 0).sum = keys.count a := by
  induction keys with
  | nil => rfl
  | cons k keys ih =>
      rw [List.map_cons, List.sum_cons, ih, Nat.add_comm]
      by_cases hk : a = k
      · rw [if_pos hk, hk, List.count_cons_self]
      · rw [if_neg hk, List.count_cons_of_ne (Ne.symm hk), Nat.add_zero]

/-- The elements of a list are shared out by their keys. -/
theorem sum_countP {α : Type*} {key : α → κ} {keys : List κ} (hnodup : keys.Nodup) {as : List α}
    (h : ∀ a ∈ as, key a ∈ keys) : (keys.map fun k => as.countP fun a => key a = k).sum = as.length := by
  induction as with
  | nil => simp
  | cons a as ih =>
      have hone : keys.count (key a) = 1 := List.count_eq_one_of_mem hnodup (h a List.mem_cons_self)
      have hrest := ih fun a ha => h a (List.mem_cons_of_mem _ ha)
      simp only [List.countP_cons, decide_eq_true_eq, List.sum_map_add, hrest, sum_ite_eq, hone, List.length_cons]

end EveBox.Frequency
