import EveBox.Sqlite.Alerts

/-!
# The newest DHCP events of the clients

Reference: `src/sqlite/eventrepo/dhcp.rs`.

The order of the events is up to SQLite.
-/

namespace EveBox.Sqlite

open Rust Eve

/-- The types of messages that are asked for: those of `dhcp_request` and `dhcp_ack`. -/
inductive DhcpType
  | request
  | ack
deriving DecidableEq, Repr

def DhcpType.text : DhcpType → String
  | request => "request"
  | ack => "ack"

def EventRow.isDhcp (row : EventRow) : Bool := (row.extract ["event_type"]).eq (.text "dhcp")

def EventRow.clientMac (row : EventRow) : SqlValue := row.extract ["dhcp", "client_mac"]

/-- What is asked for. -/
structure DhcpQuery where
  dhcpType : DhcpType
  sensor : Option String
  earliest : Option ℤ
deriving DecidableEq, Repr

/-- `%where%`. -/
def DhcpQuery.selects (q : DhcpQuery) (row : EventRow) : Bool :=
  row.isDhcp && (row.extract ["dhcp", "dhcp_type"]).eq (.text q.dhcpType.text) &&
    q.earliest.all (fun earliest => earliest ≤ row.timestamp) && row.hasSensor q.sensor

/-- A row of the subquery: the greatest time of a client. -/
structure ClientRow where
  timestamp : ℤ
  clientMac : SqlValue
deriving DecidableEq

/-- The subquery: a row for each client. -/
def clientRows (rows : List EventRow) : List ClientRow :=
  (rows.map (·.clientMac.norm)).dedup.map fun mac =>
    ⟨(((rows.filter fun row => row.clientMac.norm = mac).map (·.timestamp)).max?).getD 0, mac⟩

/-- The rows that the join gives. -/
def DhcpQuery.rows (q : DhcpQuery) (store : Store) : List EventRow :=
  (store.events.flatMap fun t1 =>
    ((clientRows (store.events.filter q.selects)).filter fun t2 =>
      t1.timestamp = t2.timestamp ∧ t1.clientMac.eq t2.clientMac = true).map fun _ => t1).filter (·.isDhcp)

/-- `dhcp`. -/
def dhcp (store : Store) (earliest : Option DateTime) (dhcpType : DhcpType) (sensor : Option String) : Option (List Json) :=
  (earliestNanos earliest).map fun earliest => (DhcpQuery.rows ⟨dhcpType, sensor, earliest⟩ store).map (·.source)

/-! ## What the query is for -/

/-- A row that is selected, and that is the newest of these of its client. -/
def DhcpQuery.Newest (q : DhcpQuery) (store : Store) (row : EventRow) : Prop :=
  q.selects row = true ∧ ∀ row' ∈ store.events, q.selects row' = true → row'.clientMac.eq row.clientMac = true →
    row'.timestamp ≤ row.timestamp

/-- The query gives the newest event of each client, and nothing else. -/
def DhcpQuery.NewestOfEach (q : DhcpQuery) (store : Store) : Prop :=
  (∀ row ∈ q.rows store, q.Newest store row) ∧
    ∀ row ∈ store.events, q.selects row = true → row.clientMac ≠ .null →
      (q.rows store).countP (fun r => r.clientMac.eq row.clientMac) = 1

/-- The time of a client's newest event is that of no other DHCP event of the client, of whatever type and sensor. -/
def DhcpQuery.Untied (q : DhcpQuery) (store : Store) : Prop :=
  ∀ row ∈ store.events, row.clientMac ≠ .null → q.Newest store row →
    store.events.countP (fun r => r.isDhcp && r.clientMac.eq row.clientMac && r.timestamp = row.timestamp) = 1

/-! ## Equal values -/

/-- A value that a column can have. -/
def SqlValue.InRange : SqlValue → Prop
  | .int n => -2 ^ 63 ≤ n ∧ n < 2 ^ 63
  | _ => True

theorem inRange_ofJson (j : Json) : (SqlValue.ofJson j).InRange := by
  cases j with
  | number n =>
      cases n with
      | int n =>
          have hint : SqlValue.ofJson (.number (.int n)) =
              if -2 ^ 63 ≤ n ∧ n < 2 ^ 63 then .int n else .real (nearestDouble n) := rfl
          rw [hint]
          split_ifs with h
          · exact h
          · trivial
      | float value text => trivial
  | bool b => cases b <;> exact ⟨by decide, by decide⟩
  | _ => trivial

theorem norm_int (n : ℤ) : SqlValue.norm (.int n) = .int n := rfl

theorem norm_real (q : ℚ) :
    SqlValue.norm (.real q) = if q.den = 1 ∧ -2 ^ 63 ≤ q.num ∧ q.num < 2 ^ 63 then .int q.num else .real q := rfl

/-- Values are equal where `GROUP BY` puts them together, unless they are null. -/
theorem eq_iff_norm {a b : SqlValue} (ha : a.InRange) (hb : b.InRange) :
    a.eq b = true ↔ a ≠ .null ∧ a.norm = b.norm := by
  have hreal : ∀ (n : ℤ) (q : ℚ), -2 ^ 63 ≤ n ∧ n < 2 ^ 63 →
      ((n : ℚ) = q ↔ SqlValue.int n = SqlValue.norm (.real q)) := by
    intro n q hn
    rw [norm_real]
    constructor
    · rintro rfl
      have hcond : (n : ℚ).den = 1 ∧ -2 ^ 63 ≤ (n : ℚ).num ∧ (n : ℚ).num < 2 ^ 63 := by
        rw [Rat.num_intCast]
        exact ⟨Rat.den_intCast n, hn⟩
      rw [if_pos hcond, Rat.num_intCast]
    · intro h
      split_ifs at h with hq
      rw [SqlValue.int.inj h]
      exact (Rat.den_eq_one_iff q).mp hq.1
  cases a with
  | null => simp [SqlValue.eq]
  | int n =>
      cases b with
      | null => simp [SqlValue.eq, SqlValue.norm]
      | int m => simp [SqlValue.eq, SqlValue.norm]
      | real q =>
          have hiff := hreal n q ha
          simpa [SqlValue.eq, norm_int] using hiff
      | text s => simp [SqlValue.eq, SqlValue.norm]
  | real q =>
      cases b with
      | null =>
          simp only [SqlValue.eq, norm_real]
          split_ifs <;> simp [SqlValue.norm]
      | int m =>
          have hiff := hreal m q hb
          simpa [SqlValue.eq, norm_int, eq_comm] using hiff
      | real r =>
          have hself : ∀ x : ℚ, x.den = 1 → (x.num : ℚ) = x := fun x hx => (Rat.den_eq_one_iff x).mp hx
          simp only [SqlValue.eq, norm_real, decide_eq_true_eq, ne_eq, reduceCtorEq, not_false_eq_true, true_and]
          split_ifs with hq hr hr
          · rw [SqlValue.int.injEq]
            exact ⟨congrArg Rat.num, fun h => by rw [← hself q hq.1, ← hself r hr.1, h]⟩
          · refine iff_of_false ?_ (by simp)
            rintro rfl
            exact hr hq
          · refine iff_of_false ?_ (by simp)
            rintro rfl
            exact hq hr
          · rw [SqlValue.real.injEq]
      | text s =>
          simp only [SqlValue.eq, norm_real]
          split_ifs <;> simp [SqlValue.norm]
  | text s =>
      cases b with
      | null => simp [SqlValue.eq, SqlValue.norm]
      | int m => simp [SqlValue.eq, SqlValue.norm]
      | real q =>
          simp only [SqlValue.eq, norm_real]
          split_ifs <;> simp [SqlValue.norm]
      | text t => simp [SqlValue.eq, SqlValue.norm]

theorem inRange_norm {a : SqlValue} (h : a.InRange) : a.norm.InRange := by
  cases a with
  | real q =>
      rw [norm_real]
      split_ifs with hq
      · exact hq.2
      · trivial
  | _ => exact h

theorem norm_norm (a : SqlValue) : a.norm.norm = a.norm := by
  cases a with
  | real q =>
      rw [norm_real]
      split_ifs with hq
      · rfl
      · rw [norm_real, if_neg hq]
  | _ => rfl

theorem norm_eq_null {a : SqlValue} : a.norm = .null ↔ a = .null := by
  cases a with
  | real q =>
      rw [norm_real]
      split_ifs <;> simp
  | _ => simp [SqlValue.norm]

/-! ## The join -/

section

variable {q : DhcpQuery} {store : Store} {row row' : EventRow}

theorem clientMac_eq : row.clientMac.eq row'.clientMac = true ↔ row.clientMac ≠ .null ∧ row.clientMac.norm = row'.clientMac.norm :=
  eq_iff_norm (inRange_ofJson _) (inRange_ofJson _)

theorem clientMac_eq_norm :
    row.clientMac.eq row'.clientMac.norm = true ↔ row.clientMac ≠ .null ∧ row.clientMac.norm = row'.clientMac.norm := by
  have hiff := eq_iff_norm (inRange_ofJson (row.source.getPath ["dhcp", "client_mac"]))
    (inRange_norm (inRange_ofJson (row'.source.getPath ["dhcp", "client_mac"])))
  rw [norm_norm] at hiff
  exact hiff

/-- The row of a client has the greatest time of its rows. -/
theorem mem_clientRows {rows : List EventRow} {t : ClientRow} : t ∈ clientRows rows ↔
    ∃ row ∈ rows, t = ⟨row.timestamp, row.clientMac.norm⟩ ∧
      ∀ row' ∈ rows, row'.clientMac.norm = row.clientMac.norm → row'.timestamp ≤ row.timestamp := by
  have hmax : ∀ mac, (∃ row ∈ rows, row.clientMac.norm = mac) → ∃ row ∈ rows, row.clientMac.norm = mac ∧
      (((rows.filter fun row => row.clientMac.norm = mac).map (·.timestamp)).max?).getD 0 = row.timestamp ∧
      ∀ row' ∈ rows, row'.clientMac.norm = mac → row'.timestamp ≤ row.timestamp := by
    rintro mac ⟨row, hrow, hmac⟩
    have hmem : row ∈ rows.filter fun row => row.clientMac.norm = mac := List.mem_filter.mpr ⟨hrow, by simpa using hmac⟩
    cases hmax : ((rows.filter fun row => row.clientMac.norm = mac).map (·.timestamp)).max? with
    | none =>
        rw [List.max?_eq_none_iff, List.map_eq_nil_iff] at hmax
        rw [hmax] at hmem
        exact absurd hmem List.not_mem_nil
    | some top =>
        obtain ⟨htop, hle⟩ := List.max?_eq_some_iff.mp hmax
        obtain ⟨newest, hnewest, rfl⟩ := List.mem_map.mp htop
        obtain ⟨hin, hmac'⟩ := List.mem_filter.mp hnewest
        refine ⟨newest, hin, by simpa using hmac', rfl, fun row' hrow' hmac'' => ?_⟩
        exact hle _ (List.mem_map_of_mem (List.mem_filter.mpr ⟨hrow', by simpa using hmac''⟩))
  unfold clientRows
  rw [List.mem_map]
  constructor
  · rintro ⟨mac, hmac, rfl⟩
    obtain ⟨row, hrow, rfl⟩ := List.mem_map.mp (List.mem_dedup.mp hmac)
    obtain ⟨top, htop, hmac', htime, hle⟩ := hmax _ ⟨row, hrow, rfl⟩
    exact ⟨top, htop, by rw [htime, hmac'], fun row' hrow' hsame => hle row' hrow' (hsame.trans hmac')⟩
  · rintro ⟨row, hrow, rfl, hle⟩
    refine ⟨row.clientMac.norm, List.mem_dedup.mpr (List.mem_map_of_mem hrow), ?_⟩
    obtain ⟨top, htop, hmac', htime, hle'⟩ := hmax _ ⟨row, hrow, rfl⟩
    rw [htime, le_antisymm (hle top htop hmac') (hle' row hrow rfl)]

theorem nodup_clientRows (rows : List EventRow) : ((clientRows rows).map (·.clientMac)).Nodup := by
  unfold clientRows
  rw [List.map_map]
  have hid : ((fun t : ClientRow => t.clientMac) ∘ fun mac : SqlValue =>
      (⟨(((rows.filter fun row => row.clientMac.norm = mac).map (·.timestamp)).max?).getD 0, mac⟩ : ClientRow)) = id := rfl
  rw [hid, List.map_id]
  exact List.nodup_dedup _

/-- A row that has the time of a client's newest selected event, and its client. -/
def DhcpQuery.Joined (q : DhcpQuery) (store : Store) (row : EventRow) : Prop :=
  ∃ top ∈ store.events, q.Newest store top ∧ row.clientMac.eq top.clientMac = true ∧ row.timestamp = top.timestamp

theorem joined_iff : q.Joined store row ↔ ∃ t ∈ clientRows (store.events.filter q.selects),
    row.timestamp = t.timestamp ∧ row.clientMac.eq t.clientMac = true := by
  constructor
  · rintro ⟨top, htop, ⟨hselects, hle⟩, hmac, htime⟩
    obtain ⟨hnull, hnorm⟩ := clientMac_eq.mp hmac
    refine ⟨⟨top.timestamp, top.clientMac.norm⟩, mem_clientRows.mpr ⟨top, List.mem_filter.mpr ⟨htop, hselects⟩, rfl, ?_⟩, htime,
      clientMac_eq_norm.mpr ⟨hnull, hnorm⟩⟩
    intro row' hrow' hsame
    obtain ⟨hin, hselects'⟩ := List.mem_filter.mp hrow'
    refine hle row' hin hselects' (clientMac_eq.mpr ⟨fun hnull' => hnull ?_, hsame⟩)
    rw [← norm_eq_null, hnorm, ← hsame, norm_eq_null]
    exact hnull'
  · rintro ⟨t, ht, htime, hmac⟩
    obtain ⟨top, htop, rfl, hle⟩ := mem_clientRows.mp ht
    obtain ⟨hin, hselects⟩ := List.mem_filter.mp htop
    refine ⟨top, hin, ⟨hselects, fun row' hrow' hselects' hmac' => ?_⟩, clientMac_eq.mpr (clientMac_eq_norm.mp hmac), htime⟩
    exact hle row' (List.mem_filter.mpr ⟨hrow', hselects'⟩) (clientMac_eq.mp hmac').2

instance (q : DhcpQuery) (store : Store) (row : EventRow) : Decidable (q.Joined store row) :=
  decidable_of_iff _ joined_iff.symm

theorem eq_singleton {α : Type*} {l : List α} {a : α} (hnodup : l.Nodup) (ha : a ∈ l) (hall : ∀ b ∈ l, b = a) : l = [a] := by
  match l with
  | [] => exact absurd ha List.not_mem_nil
  | [b] => rw [hall b List.mem_cons_self]
  | b :: c :: rest =>
      have hb := hall b List.mem_cons_self
      have hc := hall c (List.mem_cons_of_mem _ List.mem_cons_self)
      have hmem : b ∈ c :: rest := by
        rw [hb, hc]
        exact List.mem_cons_self
      exact absurd hmem (List.nodup_cons.mp hnodup).1

theorem flatMap_ite {α : Type*} (p : α → Prop) [DecidablePred p] (l : List α) :
    (l.flatMap fun a => if p a then [a] else []) = l.filter fun a => p a := by
  induction l with
  | nil => rfl
  | cons a l ih =>
      rw [List.flatMap_cons, ih, List.filter_cons]
      by_cases h : p a <;> simp [h]

/-- No row is given twice: the rows are those of the table that are joined. -/
theorem rows_eq (q : DhcpQuery) (store : Store) :
    q.rows store = store.events.filter fun row => row.isDhcp && decide (q.Joined store row) := by
  have hone : ∀ t1 : EventRow, (((clientRows (store.events.filter q.selects)).filter fun t2 =>
      t1.timestamp = t2.timestamp ∧ t1.clientMac.eq t2.clientMac = true).map fun _ => t1) =
        if q.Joined store t1 then [t1] else [] := by
    intro t1
    split_ifs with hjoined
    · obtain ⟨t, ht, hmatch⟩ := joined_iff.mp hjoined
      have hnorm : ∀ t ∈ clientRows (store.events.filter q.selects), t1.clientMac.eq t.clientMac = true →
          t.clientMac = t1.clientMac.norm := by
        intro t ht hmac
        obtain ⟨top, -, rfl, -⟩ := mem_clientRows.mp ht
        exact (clientMac_eq_norm.mp hmac).2.symm
      have hmem : t ∈ (clientRows (store.events.filter q.selects)).filter fun t2 =>
          t1.timestamp = t2.timestamp ∧ t1.clientMac.eq t2.clientMac = true :=
        List.mem_filter.mpr ⟨ht, by simpa using hmatch⟩
      rw [eq_singleton ((nodup_clientRows _).of_map.filter _) hmem]
      · rfl
      · intro t' ht'
        obtain ⟨hin, hmatch'⟩ := List.mem_filter.mp ht'
        refine List.inj_on_of_nodup_map (nodup_clientRows _) hin ht ?_
        rw [hnorm t' hin (by simpa using (of_decide_eq_true hmatch').2), hnorm t ht hmatch.2]
    · rw [List.map_eq_nil_iff, List.filter_eq_nil_iff]
      intro t ht hmatch
      exact hjoined (joined_iff.mpr ⟨t, ht, by simpa using hmatch⟩)
  unfold DhcpQuery.rows
  simp only [hone]
  rw [flatMap_ite, List.filter_filter]

theorem DhcpQuery.Newest.joined (h : q.Newest store row) (hrow : row ∈ store.events) (hnull : row.clientMac ≠ .null) :
    q.Joined store row :=
  ⟨row, hrow, h, clientMac_eq.mpr ⟨hnull, rfl⟩, rfl⟩

/-- A client of which an event is selected has a newest one. -/
theorem exists_newest (hrow : row ∈ store.events) (hselects : q.selects row = true) (hnull : row.clientMac ≠ .null) :
    ∃ top ∈ store.events, q.Newest store top ∧ top.clientMac.eq row.clientMac = true := by
  have hmem : row ∈ store.events.filter q.selects := List.mem_filter.mpr ⟨hrow, hselects⟩
  have hclient : ∃ t ∈ clientRows (store.events.filter q.selects), t.clientMac = row.clientMac.norm := by
    unfold clientRows
    exact ⟨_, List.mem_map_of_mem (List.mem_dedup.mpr (List.mem_map_of_mem hmem)), rfl⟩
  obtain ⟨t, ht, hmac⟩ := hclient
  obtain ⟨top, htop, rfl, hle⟩ := mem_clientRows.mp ht
  obtain ⟨hin, htopSelects⟩ := List.mem_filter.mp htop
  have hsame : top.clientMac.norm = row.clientMac.norm := hmac
  have htopNull : top.clientMac ≠ .null := fun h => hnull <| by
    rw [← norm_eq_null, ← hsame, norm_eq_null]
    exact h
  refine ⟨top, hin, ⟨htopSelects, fun row' hrow' hselects' hmac' => ?_⟩, clientMac_eq.mpr ⟨htopNull, hsame⟩⟩
  exact hle row' (List.mem_filter.mpr ⟨hrow', hselects'⟩) (clientMac_eq.mp hmac').2

/-- The rows of a client that the query gives: those with the time of its newest event. -/
theorem countP_rows {top : EventRow} (htop : top ∈ store.events) (hnewest : q.Newest store top) (hnull : top.clientMac ≠ .null) :
    (q.rows store).countP (fun r => r.clientMac.eq top.clientMac) =
      store.events.countP fun r => r.isDhcp && r.clientMac.eq top.clientMac && r.timestamp = top.timestamp := by
  rw [rows_eq, List.countP_filter]
  refine List.countP_congr fun r _ => ?_
  simp only [Bool.and_eq_true, decide_eq_true_eq]
  constructor
  · rintro ⟨hmac, hdhcp, top', htop', hnewest', hmac', htime⟩
    refine ⟨⟨hdhcp, hmac⟩, ?_⟩
    have hsame := (clientMac_eq.mp hmac').2.symm.trans (clientMac_eq.mp hmac).2
    have hnull' : top'.clientMac ≠ .null := fun h => hnull <| by
      rw [← norm_eq_null, ← hsame, norm_eq_null]
      exact h
    rw [htime]
    exact le_antisymm (hnewest.2 top' htop' hnewest'.1 (clientMac_eq.mpr ⟨hnull', hsame⟩))
      (hnewest'.2 top htop hnewest.1 (clientMac_eq.mpr ⟨hnull, hsame.symm⟩))
  · rintro ⟨⟨hdhcp, hmac⟩, htime⟩
    exact ⟨hmac, hdhcp, top, htop, hnewest, hmac, htime⟩

theorem countP_client_congr {row' : EventRow} (h : row.clientMac.norm = row'.clientMac.norm) (rows : List EventRow) :
    rows.countP (fun r => r.clientMac.eq row.clientMac) = rows.countP fun r => r.clientMac.eq row'.clientMac := by
  refine List.countP_congr fun r _ => ?_
  rw [clientMac_eq, clientMac_eq, h]

/-- The query gives the newest event of each client if and only if the time of a client's newest event is that of no
other DHCP event of it. -/
theorem newestOfEach_iff (q : DhcpQuery) (store : Store) : q.NewestOfEach store ↔ q.Untied store := by
  constructor
  · rintro ⟨-, hone⟩ top htop hnull hnewest
    rw [← countP_rows htop hnewest hnull]
    exact hone top htop hnewest.1 hnull
  · intro huntied
    constructor
    · intro row hrow
      rw [rows_eq, List.mem_filter] at hrow
      obtain ⟨hin, hcond⟩ := hrow
      simp only [Bool.and_eq_true, decide_eq_true_eq] at hcond
      obtain ⟨hdhcp, top, htop, hnewest, hmac, htime⟩ := hcond
      obtain ⟨hnull, hsame⟩ := clientMac_eq.mp hmac
      have hnull' : top.clientMac ≠ .null := fun h => hnull <| by
        rw [← norm_eq_null, hsame, norm_eq_null]
        exact h
      -- the row is the only one of the client at that time, and so is its newest event
      have hcount := huntied top htop hnull' hnewest
      have hrowHas : (row.isDhcp && row.clientMac.eq top.clientMac && decide (row.timestamp = top.timestamp)) = true := by
        simp [hdhcp, hmac, htime]
      have htopDhcp : top.isDhcp = true := by
        have := hnewest.1
        simp only [DhcpQuery.selects, Bool.and_eq_true] at this
        exact this.1.1.1
      have htopHas : (top.isDhcp && top.clientMac.eq top.clientMac && decide (top.timestamp = top.timestamp)) = true := by
        simp [htopDhcp, clientMac_eq.mpr ⟨hnull', rfl⟩]
      obtain ⟨only, honly⟩ := List.length_eq_one_iff.mp (List.countP_eq_length_filter.symm.trans hcount)
      have hrowOnly : row = only := List.mem_singleton.mp (honly ▸ List.mem_filter.mpr ⟨hin, hrowHas⟩)
      have htopOnly : top = only := List.mem_singleton.mp (honly ▸ List.mem_filter.mpr ⟨htop, htopHas⟩)
      rw [hrowOnly, ← htopOnly]
      exact hnewest
    · intro row hrow hselects hnull
      obtain ⟨top, htop, hnewest, hmac⟩ := exists_newest hrow hselects hnull
      obtain ⟨htopNull, hsame⟩ := clientMac_eq.mp hmac
      rw [countP_client_congr hsame.symm, countP_rows htop hnewest htopNull]
      exact huntied top htop htopNull hnewest

/-- The events that the query gives are those of its rows. -/
theorem dhcp_eq (store : Store) {earliest : Option DateTime} {nanos : Option ℤ} (h : earliestNanos earliest = some nanos)
    (dhcpType : DhcpType) (sensor : Option String) :
    dhcp store earliest dhcpType sensor = some ((DhcpQuery.rows ⟨dhcpType, sensor, nanos⟩ store).map (·.source)) := by
  rw [dhcp, h]
  rfl

end

/-- An event of a client with a type. -/
def dhcpEvent (rowid : ℕ) (dhcpType : String) : EventRow where
  rowid := rowid
  timestamp := 1700000000000000000
  archived := false
  escalated := false
  source := .object [("dhcp", .object [("client_mac", .string "00:16:3e:00:00:01"), ("dhcp_type", .string dhcpType)]),
    ("event_type", .string "dhcp")]
  sourceValues := ""
  history := []

/-- A request and its acknowledgement at the same time. -/
def requestAndAck : Store := ⟨[dhcpEvent 1 "request", dhcpEvent 2 "ack"], none⟩

/-- The acknowledgement is given for a request. -/
theorem requestAndAck_not_newest : ¬ DhcpQuery.NewestOfEach ⟨.request, none, none⟩ requestAndAck := by
  intro h
  have hmem : dhcpEvent 2 "ack" ∈ DhcpQuery.rows ⟨.request, none, none⟩ requestAndAck := by decide +kernel
  have hselects : DhcpQuery.selects ⟨.request, none, none⟩ (dhcpEvent 2 "ack") = false := by decide +kernel
  have hnewest := (h.1 _ hmem).1
  rw [hselects] at hnewest
  exact Bool.false_ne_true hnewest

end EveBox.Sqlite
