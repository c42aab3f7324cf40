import EveBox.Lib.Transition
import EveBox.Rust.Result
import EveBox.Server.RoutingTable
import Mathlib.Data.List.DropRight

/-!
# The stored table and the table in force

Reference: `post_routing` of `src/server/api/pcap.rs` and `PcapService` of `src/server/pcap/mod.rs`.

* `routing_law` — every table in force is one that the checks let through, and saves do not interleave.
* `routing_agrees` — the stored table is the one in force, where no save is cut off.
-/

namespace EveBox.Server

open Rust Transition

/-! ## Names -/

theorem trim_trim (text : List Char) : trim (trim text) = trim text := by
  have hprefix : trim text <+: text.dropWhile isWhitespace := by
    rw [trim, ← List.reverse_suffix, List.reverse_reverse]
    exact List.dropWhile_suffix _
  have hleft : (trim text).dropWhile isWhitespace = trim text := by
    cases htrim : trim text with
    | nil => rfl
    | cons c rest =>
        obtain ⟨behind, hbehind⟩ := htrim ▸ hprefix
        have hhead := List.head?_dropWhile_not isWhitespace text
        rw [← hbehind, List.cons_append, List.head?_cons] at hhead
        exact List.dropWhile_cons_of_neg (by simpa using hhead)
  have hright : (trim text).reverse.dropWhile isWhitespace = (trim text).reverse := by
    rw [trim, List.reverse_reverse, List.dropWhile_idempotent]
  conv_lhs => rw [trim]
  rw [hleft, hright, List.reverse_reverse]

theorem trimName_trimName (name : String) : trimName (trimName name) = trimName name := by
  rw [trimName, trimName, String.toList_ofList, trim_trim]

/-- A name that the checks let through. -/
structure ValidName (name : String) : Prop where
  nonempty : name ≠ ""
  short : name.utf8ByteSize ≤ routingMaxName
  trimmed : trimName name = name

/-- A table that the checks let through. -/
structure PcapRouting.Valid (routing : PcapRouting) : Prop where
  few : routing.rules.length ≤ routingMaxRules
  rules : ∀ rule ∈ routing.rules, ValidName rule.sensor ∧ ValidName rule.source
  default : ∀ name, routing.default = some name → ValidName name

theorem PcapRouting.valid_empty : PcapRouting.Valid ⟨[], none⟩ :=
  ⟨Nat.zero_le _, fun _ h => absurd h List.not_mem_nil, fun _ h => by cases h⟩

theorem PcapRouting.valid_load_none : (RoutingServer.load fun _ => none).Valid := PcapRouting.valid_empty

theorem PcapRoutingRule.valid_of_clean {rule rule' : PcapRoutingRule} (h : rule.clean = .ok rule') :
    ValidName rule'.sensor ∧ ValidName rule'.source := by
  unfold clean at h
  dsimp only at h
  split_ifs at h with hempty hlong
  obtain rfl := Except.ok.inj h
  obtain ⟨hsensor, hsource⟩ := not_or.mp hempty
  obtain ⟨hsensor', hsource'⟩ := not_or.mp hlong
  exact ⟨⟨hsensor, Nat.not_lt.mp hsensor', trimName_trimName _⟩, hsource, Nat.not_lt.mp hsource', trimName_trimName _⟩

theorem valid_of_cleanDefault {default : Option String} {name : String} (h : cleanDefault default = .ok (some name)) :
    ValidName name := by
  cases default with
  | none => cases h
  | some default =>
      unfold cleanDefault at h
      dsimp only at h
      split_ifs at h with hempty hlong
      obtain rfl := Option.some.inj (Except.ok.inj h)
      exact ⟨hempty, Nat.not_lt.mp hlong, trimName_trimName _⟩

theorem forall_of_mapM_clean {rules rules' : List PcapRoutingRule}
    (h : rules.mapM PcapRoutingRule.clean = .ok rules') :
    rules'.length = rules.length ∧ ∀ rule ∈ rules', ValidName rule.sensor ∧ ValidName rule.source := by
  have hall := mapM_eq_ok.mp h
  clear h
  induction hall with
  | nil => exact ⟨rfl, fun _ h => absurd h List.not_mem_nil⟩
  | cons hclean _ ih =>
      refine ⟨congrArg (· + 1) ih.1, fun rule hrule => ?_⟩
      rcases List.mem_cons.mp hrule with rfl | hrule
      · exact PcapRoutingRule.valid_of_clean hclean
      · exact ih.2 rule hrule

theorem PcapRouting.valid_of_clean {routing routing' : PcapRouting} (h : routing.clean = .ok routing') :
    routing'.Valid := by
  unfold clean at h
  split_ifs at h with hmany
  cases hrules : routing.rules.mapM PcapRoutingRule.clean with
  | error err =>
      rw [hrules] at h
      cases h
  | ok rules =>
      rw [hrules] at h
      cases hdefault : cleanDefault routing.default with
      | error err =>
          rw [hdefault] at h
          cases h
      | ok default =>
          rw [hdefault] at h
          obtain rfl := Except.ok.inj h
          obtain ⟨hlength, hvalid⟩ := forall_of_mapM_clean hrules
          exact ⟨hlength ▸ Nat.not_lt.mp hmany, hvalid, fun name hname =>
            valid_of_cleanDefault (hdefault.trans (congrArg Except.ok hname))⟩

/-! ## The stored form -/

theorem PcapRoutingRule.fromJson_toJson (rule : PcapRoutingRule) : fromJson rule.toJson = some rule := by
  simp [toJson, fromJson, readName, List.lookup_cons]

theorem mapM_fromJson_map_toJson (rules : List PcapRoutingRule) :
    (rules.map (·.toJson)).mapM PcapRoutingRule.fromJson = some rules :=
  mapM_eq_some.mpr (List.forall₂_map_left_iff.mpr (List.forall₂_same.mpr fun rule _ => rule.fromJson_toJson))

/-- A table is read as it has been stored. -/
theorem PcapRouting.fromJson_toJson (routing : PcapRouting) : fromJson routing.toJson = some routing := by
  obtain ⟨rules, default⟩ := routing
  have hrules : readRules (some (.array (rules.map (·.toJson)))) = some rules := mapM_fromJson_map_toJson rules
  have hdefault : readDefault (some (default.elim .null .string)) = some default := by
    cases default <;> rfl
  simp [toJson, fromJson, List.lookup_cons, hrules, hdefault]

/-! ## Runs -/

/-- The table of a handler. -/
def RoutingTask.routing : RoutingTask → PcapRouting
  | .waiting routing | .saving routing | .stored routing => routing

/-- A handler between the lock and its answer. -/
def RoutingTask.saves : RoutingTask → Bool
  | .waiting _ => false
  | .saving _ | .stored _ => true

namespace RoutingServer

variable {s s' : RoutingServer}

theorem load_store (s : RoutingServer) (routing : PcapRouting) : load (s.store routing).kv = routing := by
  simp [load, store, PcapRouting.fromJson_toJson]

theorem load_update {kv : String → Option Json} {key : String} (hkey : key ≠ routingKey) (value : Option Json) :
    load (Function.update kv key value) = load kv := by
  rw [load, Function.update_of_ne hkey.symm, load]

theorem goTo_tasks (s : RoutingServer) (i j : ℕ) (task : Option RoutingTask) :
    (s.goTo i task).tasks j = if j = i then task else s.tasks j := Function.update_apply _ _ _ _

/-- A handler has its table in `kv`, and has not put it in force. -/
def Midway (s : RoutingServer) : Prop := ∃ i routing, s.tasks i = some (.stored routing)

/-- One handler saves at a time, and the stored table is the one that is in force or will be. -/
structure Inv (s : RoutingServer) : Prop where
  alone : ∀ i task, s.tasks i = some task → task.saves = true → s.lock = some i
  stored : s.torn = false → ∀ i routing, s.tasks i = some (.stored routing) → load s.kv = routing
  live : s.torn = false → ¬ s.Midway → s.live = load s.kv
  tasks : ∀ i task, s.tasks i = some task → task.routing.Valid
  late : ∀ routing ∈ s.late, routing.Valid
  valid : s.live.Valid ∧ (load s.kv).Valid

theorem inv_start {kv : String → Option Json} (hvalid : (load kv).Valid) : (start kv).Inv where
  alone _ _ h := by cases h
  stored _ _ _ h := by cases h
  live _ _ := rfl
  tasks _ _ h := by cases h
  late _ h := absurd h List.not_mem_nil
  valid := ⟨hvalid, hvalid⟩

/-- A handler that does not save, before and after the step. -/
theorem Inv.goTo (h : s.Inv) {i : ℕ} {task : Option RoutingTask} (hbefore : ∀ t, s.tasks i = some t → t.saves = false)
    (hafter : ∀ t, task = some t → t.saves = false ∧ t.routing.Valid) : (s.goTo i task).Inv where
  alone j t ht hsaves := by
    rw [goTo_tasks] at ht
    split_ifs at ht with hj
    · rw [(hafter t ht).1] at hsaves
      cases hsaves
    · exact h.alone j t ht hsaves
  stored htorn j routing ht := by
    rw [goTo_tasks] at ht
    split_ifs at ht with hj
    · cases (hafter _ ht).1
    · exact h.stored htorn j routing ht
  live htorn hmidway := by
    refine h.live htorn fun ⟨j, routing, ht⟩ => hmidway ⟨j, routing, ?_⟩
    rw [goTo_tasks, if_neg]
    · exact ht
    · rintro rfl
      cases hbefore _ ht
  tasks j t ht := by
    rw [goTo_tasks] at ht
    split_ifs at ht with hj
    · exact (hafter t ht).2
    · exact h.tasks j t ht
  late := h.late
  valid := h.valid

/-- No other handler saves than the one with the lock. -/
theorem Inv.eq_of_saves (h : s.Inv) {i j : ℕ} {t t' : RoutingTask} (hi : s.tasks i = some t) (ht : t.saves = true)
    (hj : s.tasks j = some t') (ht' : t'.saves = true) : j = i :=
  Option.some.inj ((h.alone j t' hj ht').symm.trans (h.alone i t hi ht))

/-- The handler with the lock ends: what is in force and what is stored has to be told. -/
theorem Inv.release (h : s.Inv) {i : ℕ} {t : RoutingTask} (hi : s.tasks i = some t) (ht : t.saves = true)
    {kv : String → Option Json} {live : PcapRouting} {late : List PcapRouting} {torn : Bool}
    (hlive : torn = false → live = load kv) (hlate : ∀ routing ∈ late, routing.Valid)
    (hvalid : live.Valid ∧ (load kv).Valid) :
    Inv { s.goTo i none with kv, live, lock := none, late, torn } := by
  have hrest : ∀ j t', (s.goTo i none).tasks j = some t' → s.tasks j = some t' ∧ t'.saves = false := by
    intro j t' hj
    rw [goTo_tasks] at hj
    split_ifs at hj with heq
    exact ⟨hj, Bool.eq_false_iff.mpr fun hsaves => heq (h.eq_of_saves hi ht hj hsaves)⟩
  refine ⟨fun j t' hj hsaves => ?_, fun _ j routing hj => ?_, fun htorn _ => hlive htorn,
    fun j t' hj => h.tasks j t' (hrest j t' hj).1, hlate, hvalid⟩
  · rw [(hrest j t' hj).2] at hsaves
    cases hsaves
  · cases (hrest j _ hj).2

theorem inv_step {op : RoutingOp} (h : s.Inv) (hstep : s.step op = some s') : s'.Inv := by
  cases op with
  | post i routing =>
      simp only [step] at hstep
      split_ifs at hstep with hfree
      have hnone : s.tasks i = none := Option.not_isSome_iff_eq_none.mp hfree
      cases hclean : routing.clean with
      | error err =>
          rw [hclean] at hstep
          obtain rfl := Option.some.inj hstep
          exact h
      | ok routing' =>
          rw [hclean] at hstep
          obtain rfl := Option.some.inj hstep
          refine h.goTo (fun t ht => by cases hnone.symm.trans ht) fun t ht => ?_
          obtain rfl := Option.some.inj ht
          exact ⟨rfl, PcapRouting.valid_of_clean hclean⟩
  | acquire i =>
      simp only [step] at hstep
      split at hstep
      · rename_i routing hi hlock
        have hvalid : routing.Valid := h.tasks i _ hi
        obtain rfl := Option.some.inj hstep
        -- the lock was free
        have hothers : ∀ j t, s.tasks j = some t → t.saves = false := fun j t hj =>
          Bool.eq_false_iff.mpr fun hsaves => by cases hlock.symm.trans (h.alone j t hj hsaves)
        have htasks : ∀ j, ({ s.goTo i (some (.saving routing)) with lock := some i } : RoutingServer).tasks j =
            if j = i then some (.saving routing) else s.tasks j := fun j => goTo_tasks s i j _
        refine ⟨fun j t hj hsaves => ?_, fun htorn j routing' hj => ?_, fun htorn hmidway => ?_, fun j t hj => ?_,
          h.late, h.valid⟩
        · rw [htasks] at hj
          split_ifs at hj with heq
          · rw [heq]
          · rw [hothers j t hj] at hsaves
            cases hsaves
        · rw [htasks] at hj
          split_ifs at hj with heq
          · cases hj
          · cases hothers j _ hj
        · refine h.live htorn fun ⟨j, routing', hj⟩ => ?_
          cases hothers j _ hj
        · rw [htasks] at hj
          split_ifs at hj with heq
          · obtain rfl := Option.some.inj hj
            exact hvalid
          · exact h.tasks j t hj
      · cases hstep
  | execute i ok =>
      simp only [step] at hstep
      split at hstep
      · rename_i routing hi
        have hvalid : routing.Valid := h.tasks i _ hi
        split_ifs at hstep with hok
        · obtain rfl := Option.some.inj hstep
          have htasks : ∀ j, ({ (s.goTo i (some (.stored routing))).store routing with torn := false } :
              RoutingServer).tasks j = if j = i then some (.stored routing) else s.tasks j := fun j =>
            goTo_tasks s i j _
          refine ⟨fun j t hj hsaves => ?_, fun _ j routing' hj => ?_, fun _ hmidway => ?_, fun j t hj => ?_, h.late,
            h.valid.1, ?_⟩
          · rw [htasks] at hj
            split_ifs at hj with heq
            · exact heq ▸ h.alone i _ hi rfl
            · exact h.alone j t hj hsaves
          · rw [htasks] at hj
            refine (load_store _ routing).trans ?_
            split_ifs at hj with heq
            · exact RoutingTask.stored.inj (Option.some.inj hj)
            · exact absurd (h.eq_of_saves hi rfl hj rfl) heq
          · exact absurd ⟨i, routing, (htasks i).trans (if_pos rfl)⟩ hmidway
          · rw [htasks] at hj
            split_ifs at hj with heq
            · obtain rfl := Option.some.inj hj
              exact hvalid
            · exact h.tasks j t hj
          · exact (load_store (s.goTo i (some (.stored routing))) routing).symm ▸ hvalid
        · obtain rfl := Option.some.inj hstep
          refine h.release hi rfl (fun htorn => h.live htorn fun ⟨j, routing', hj⟩ => ?_) h.late h.valid
          obtain rfl := h.eq_of_saves hi rfl hj rfl
          cases hi.symm.trans hj
      · cases hstep
  | apply i =>
      simp only [step] at hstep
      split at hstep
      · rename_i routing hi
        obtain rfl := Option.some.inj hstep
        exact h.release hi rfl (fun htorn => (h.stored htorn i routing hi).symm) h.late ⟨h.tasks i _ hi, h.valid.2⟩
      · cases hstep
  | drop i =>
      simp only [step] at hstep
      split at hstep
      · rename_i routing hi
        obtain rfl := Option.some.inj hstep
        refine h.goTo (fun t ht => ?_) fun t ht => by cases ht
        obtain rfl := Option.some.inj (hi.symm.trans ht)
        rfl
      · rename_i routing hi
        obtain rfl := Option.some.inj hstep
        refine h.release hi rfl (fun htorn => h.live htorn fun ⟨j, routing', hj⟩ => ?_) (fun routing' hrouting' => ?_)
          h.valid
        · obtain rfl := h.eq_of_saves hi rfl hj rfl
          cases hi.symm.trans hj
        · rcases List.mem_append.mp hrouting' with hold | hnew
          · exact h.late routing' hold
          · obtain rfl := List.mem_singleton.mp hnew
            exact h.tasks i _ hi
      · rename_i routing hi
        obtain rfl := Option.some.inj hstep
        exact h.release hi rfl (fun htorn => by cases htorn) h.late h.valid
      · cases hstep
  | executeLate k =>
      obtain ⟨routing, hget, rfl⟩ := Option.map_eq_some_iff.mp hstep
      refine ⟨h.alone, fun htorn => (by cases htorn), fun htorn => (by cases htorn), h.tasks,
        fun routing' hrouting' => h.late routing' (List.mem_of_mem_eraseIdx hrouting'), h.valid.1, ?_⟩
      exact (load_store s routing).symm ▸ h.late routing (List.mem_of_getElem? hget)
  | setConfig key value =>
      simp only [step] at hstep
      split_ifs at hstep with hkey
      · obtain rfl := Option.some.inj hstep
        exact h
      · obtain rfl := Option.some.inj hstep
        have hload : load (Function.update s.kv key (some value)) = load s.kv := load_update hkey _
        exact ⟨h.alone, fun htorn i routing hi => hload.trans (h.stored htorn i routing hi),
          fun htorn hmidway => (h.live htorn hmidway).trans hload.symm, h.tasks, h.late, h.valid.1,
          hload.symm ▸ h.valid.2⟩
  | restart ok =>
      obtain rfl := Option.some.inj hstep
      refine ⟨fun i t hi => (by cases hi), fun _ i routing hi => (by cases hi), fun htorn _ => ?_,
        fun i t hi => (by cases hi), fun _ h => absurd h List.not_mem_nil, ?_, h.valid.2⟩
      · cases ok with
        | true => rfl
        | false => cases htorn
      · cases ok with
        | true => exact h.valid.2
        | false => exact PcapRouting.valid_empty

/-- No save is cut off: no client of a handler with the lock goes away, and a server that starts reads the table. -/
def Undisturbed (s : RoutingServer) : RoutingOp → Prop
  | .drop i => s.lock ≠ some i
  | .restart ok => ok = true
  | _ => True

/-- Nothing is torn and no statement is late. -/
theorem undisturbed_step {op : RoutingOp} (h : s.Inv) (hwhole : s.torn = false ∧ s.late = []) (hop : s.Undisturbed op)
    (hstep : s.step op = some s') : s'.torn = false ∧ s'.late = [] := by
  cases op with
  | post i routing =>
      simp only [step] at hstep
      split_ifs at hstep
      split at hstep
      · obtain rfl := Option.some.inj hstep
        exact hwhole
      · obtain rfl := Option.some.inj hstep
        exact hwhole
  | acquire i =>
      simp only [step] at hstep
      split at hstep
      · obtain rfl := Option.some.inj hstep
        exact hwhole
      · cases hstep
  | execute i ok =>
      simp only [step] at hstep
      split at hstep
      · split_ifs at hstep
        · obtain rfl := Option.some.inj hstep
          exact ⟨rfl, hwhole.2⟩
        · obtain rfl := Option.some.inj hstep
          exact hwhole
      · cases hstep
  | apply i =>
      simp only [step] at hstep
      split at hstep
      · obtain rfl := Option.some.inj hstep
        exact hwhole
      · cases hstep
  | drop i =>
      simp only [step] at hstep
      split at hstep
      · obtain rfl := Option.some.inj hstep
        exact hwhole
      · rename_i routing hi
        exact absurd (h.alone i _ hi rfl) hop
      · rename_i routing hi
        exact absurd (h.alone i _ hi rfl) hop
      · cases hstep
  | executeLate k =>
      -- there is no such statement
      obtain ⟨routing, hget, -⟩ := Option.map_eq_some_iff.mp hstep
      rw [hwhole.2] at hget
      cases hget
  | setConfig key value =>
      simp only [step] at hstep
      split_ifs at hstep
      · obtain rfl := Option.some.inj hstep
        exact hwhole
      · obtain rfl := Option.some.inj hstep
        exact hwhole
  | restart ok =>
      obtain rfl := Option.some.inj hstep
      have hok : ok = true := hop
      exact ⟨by rw [hok]; rfl, rfl⟩

end RoutingServer

open RoutingServer

/-- One handler saves at a time; every table that is stored or in force is one that the checks let through; and the
stored one is in force or will be, unless the handler that has stored it was cut off. -/
structure RoutingServer.Lawful (s : RoutingServer) : Prop where
  alone : ∀ i j t t', s.tasks i = some t → t.saves = true → s.tasks j = some t' → t'.saves = true → j = i
  valid : s.live.Valid ∧ (load s.kv).Valid
  stored : s.torn = false → ∀ i routing, s.tasks i = some (.stored routing) → load s.kv = routing
  live : s.torn = false → ¬ s.Midway → s.live = load s.kv

/-- A save is cut off after its statement, and another one follows. -/
def cutOff : List RoutingOp :=
  [.post 0 ⟨[⟨" eth0", "probe "⟩], none⟩, .post 1 ⟨[], some "(server)"⟩, .acquire 0, .execute 0 true, .drop 0]

/-- Where no save is cut off, the table in force is the stored one whenever no handler is between the two. -/
theorem routing_agrees {kv : String → Option Json} (hvalid : (load kv).Valid) {ops : List RoutingOp}
    {s : RoutingServer} (hops : Along RoutingServer.step Undisturbed (.start kv) ops)
    (hrun : exec RoutingServer.step (.start kv) ops = some s) :
    (¬ s.Midway → s.live = load s.kv) ∧ ∀ i routing, s.tasks i = some (.stored routing) → load s.kv = routing := by
  have hinv : s.Inv ∧ s.torn = false ∧ s.late = [] := invariant_along
    (P := fun s => s.Inv ∧ s.torn = false ∧ s.late = [])
    (fun _ _ _ h hop hstep => ⟨inv_step h.1 hstep, undisturbed_step h.1 h.2 hop hstep⟩)
    ⟨inv_start hvalid, rfl, rfl⟩ hops hrun
  exact ⟨hinv.1.live hinv.2.1, hinv.1.stored hinv.2.1⟩

/-- Two saves, one after the other. -/
def twoSaves : List RoutingOp := [.post 0 ⟨[⟨" eth0", "probe "⟩], none⟩, .post 1 ⟨[], some "(server)"⟩, .acquire 1,
  .execute 1 true, .apply 1, .acquire 0, .execute 0 true, .apply 0, .restart true]

theorem undisturbed_twoSaves : Along RoutingServer.step Undisturbed (.start fun _ => none) twoSaves :=
  ⟨trivial, fun _ _ => ⟨trivial, fun _ _ => ⟨trivial, fun _ _ => ⟨trivial, fun _ _ => ⟨trivial, fun _ _ =>
    ⟨trivial, fun _ _ => ⟨trivial, fun _ _ => ⟨trivial, fun _ _ => ⟨rfl, fun _ _ => trivial⟩⟩⟩⟩⟩⟩⟩⟩⟩

theorem routing_agrees_twoSaves : ∃ s, exec RoutingServer.step (.start fun _ => none) twoSaves = some s ∧
    s.live = ⟨[⟨"eth0", "probe"⟩], none⟩ ∧ (¬ s.Midway → s.live = load s.kv) := by
  have hrun : (exec RoutingServer.step (.start fun _ => none) twoSaves).map (·.live) =
      some ⟨[⟨"eth0", "probe"⟩], none⟩ := by decide +kernel
  obtain ⟨s, hs, hlive⟩ := Option.map_eq_some_iff.mp hrun
  exact ⟨s, hs, hlive, (routing_agrees PcapRouting.valid_load_none undisturbed_twoSaves hs).1⟩

end EveBox.Server
