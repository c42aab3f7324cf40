import EveBox.Sink.Bulk

/-!
# What becomes of a queued event

The identifier of an event is fixed when it is submitted, so that the server can tell an event that it holds.
`bulk_law` says for which runs the sink never drops an event that is not stored, and a commit ends as soon as
the server accepts what it does not hold.
-/

namespace EveBox.Sink

open Rust Eve Transition

variable {lib : TimeLib}

/-! ## Requests -/

/-- Each header is followed by its event. -/
def Complete : List BulkLine → Prop
  | [] => True
  | .header _ _ :: .event _ :: lines => Complete lines
  | .empty :: lines => Complete lines
  | _ => False

theorem complete_append {lines more : List BulkLine} (h : Complete lines) (hmore : Complete more) :
    Complete (lines ++ more) ∧ bulkEvents (lines ++ more) = bulkEvents lines ++ bulkEvents more := by
  induction lines using Complete.induct with
  | case1 => exact ⟨hmore, rfl⟩
  | case2 index id value lines ih =>
      obtain ⟨hcomplete, hevents⟩ := ih h
      refine ⟨hcomplete, ?_⟩
      show (id, value) :: bulkEvents (lines ++ more) = (id, value) :: (bulkEvents lines ++ bulkEvents more)
      rw [hevents]
  | case3 lines ih => exact ih h
  | case4 lines hnil hheader hempty =>
      unfold Complete at h
      split at h
      · exact absurd rfl hnil
      · exact absurd rfl (hheader _ _ _ _)
      · exact absurd rfl (hempty _)
      · cases h

theorem createItem_lookup (rejects : List String) (docs : Documents) (e : String × Json) :
    (∀ id, id ≠ e.1 → (createItem rejects docs e).2.lookup id = docs.lookup id) ∧
      ((createItem rejects docs e).2.lookup e.1 =
        if (docs.lookup e.1).isSome then docs.lookup e.1 else if e.1 ∈ rejects then none else some e.2) ∧
      ((createItem rejects docs e).1 = .created ↔ docs.lookup e.1 = none ∧ e.1 ∉ rejects) := by
  unfold createItem
  by_cases hheld : (docs.lookup e.1).isSome = true
  · rw [if_pos hheld, if_pos hheld]
    refine ⟨fun _ _ => rfl, rfl, nofun, fun h => ?_⟩
    rw [h.1] at hheld
    cases hheld
  · rw [if_neg hheld, if_neg hheld]
    rw [Option.not_isSome_iff_eq_none] at hheld
    by_cases hreject : e.1 ∈ rejects
    · rw [if_pos hreject, if_pos hreject]
      exact ⟨fun _ _ => rfl, hheld, nofun, fun h => absurd hreject h.2⟩
    · rw [if_neg hreject, if_neg hreject]
      refine ⟨fun id hid => AList.lookup_insert_ne hid, AList.lookup_insert _, ?_⟩
      exact ⟨fun _ => ⟨hheld, hreject⟩, fun _ => rfl⟩

/-- What the server holds after a request: what it held before, and what it did not hold and accepts. -/
theorem applyBulk_lookup {rejects : List String} {docs : Documents} {events : List (String × Json)}
    (hnodup : (events.map Prod.fst).Nodup) :
    (∀ id, id ∉ events.map Prod.fst → (applyBulk rejects docs events).2.lookup id = docs.lookup id) ∧
      (∀ e ∈ events, (applyBulk rejects docs events).2.lookup e.1 =
        if (docs.lookup e.1).isSome then docs.lookup e.1 else if e.1 ∈ rejects then none else some e.2) ∧
      ((applyBulk rejects docs events).1.any (·.2 ≠ .created) = false ↔
        ∀ e ∈ events, docs.lookup e.1 = none ∧ e.1 ∉ rejects) := by
  induction events generalizing docs with
  | nil => exact ⟨fun _ _ => rfl, fun _ h => absurd h List.not_mem_nil, fun _ _ h => absurd h List.not_mem_nil,
      fun _ => rfl⟩
  | cons e events ih =>
      rw [List.map_cons, List.nodup_cons] at hnodup
      obtain ⟨hother, hself, hcreated⟩ := createItem_lookup rejects docs e
      obtain ⟨hrest, hevents, hresults⟩ := @ih (createItem rejects docs e).2 hnodup.2
      -- the identifiers of the other events are others
      have hne : ∀ e' ∈ events, e'.1 ≠ e.1 := by
        rintro e' he' heq
        apply hnodup.1
        rw [← heq]
        exact List.mem_map_of_mem he'
      have hheld : ∀ e' ∈ events, (createItem rejects docs e).2.lookup e'.1 = docs.lookup e'.1 :=
        fun e' he' => hother e'.1 (hne e' he')
      refine ⟨?_, ?_, ?_⟩
      · intro id hid
        rw [List.map_cons, List.mem_cons, not_or] at hid
        exact (hrest id hid.2).trans (hother id hid.1)
      · intro e' he'
        rcases List.mem_cons.mp he' with rfl | he'
        · exact (hrest _ hnodup.1).trans hself
        · show (applyBulk rejects (createItem rejects docs e).2 events).2.lookup e'.1 = _
          rw [hevents e' he', hheld e' he']
      · have hcons : (applyBulk rejects docs (e :: events)).1 = (e.1, (createItem rejects docs e).1) ::
            (applyBulk rejects (createItem rejects docs e).2 events).1 := rfl
        rw [hcons, List.any_cons, Bool.or_eq_false_iff, hresults, decide_eq_false_iff_not, not_not, hcreated,
          List.forall_mem_cons]
        refine and_congr_right fun _ => forall₂_congr fun e' he' => ?_
        rw [hheld e' he']

/-- How the sink reads the response of the server. -/
theorem bulkAnswer_accepted (status : ℕ) (body : String) (results : List (String × ItemResult)) :
    (Reply.answered status body (some (bulkAnswer results))).accepted =
      !results.any (·.2 ≠ .created) := rfl

/-! ## The law -/

/-- The server accepts every event of the queue that it does not hold. -/
def BulkSystem.Accepts (s : BulkSystem) (rejects : List String) : Prop :=
  ∀ e ∈ s.queued, s.docs.lookup e.1 = none → e.1 ∉ rejects

/-- What a step must do: it drops no event that is not stored, and a commit that is applied and answered by a
server that accepts what it does not hold ends, with every queued event stored. -/
structure BulkSystem.StepLaw (s : BulkSystem) (op : BulkOp) (s' : BulkSystem) : Prop where
  kept : ∀ e ∈ s.queued, e ∈ s'.queued ∨ s'.docs.lookup e.1 = some e.2
  ends : ∀ rejects, op = .attempt (.applied rejects true) → s.Accepts rejects →
    s'.committing = false ∧ s'.queued = [] ∧ ∀ e ∈ s.queued, s'.docs.lookup e.1 = some e.2

/-- A step of a run obeys the law. -/
def BulkSystem.Law (lib : TimeLib) (s : BulkSystem) (op : BulkOp) : Prop :=
  ∀ s', s.step lib op = some s' → s.StepLaw op s'

/-- When a step obeys the law: a refusal is not read as a success, unless all that is queued is stored; and the
server holds nothing that is queued when it would end the commit. -/
def BulkSystem.Cond (s : BulkSystem) : BulkOp → Prop
  | .attempt (.refused status body json) => s.committing = true →
      (Reply.answered status body json).accepted = true → ∀ e ∈ s.queued, s.docs.lookup e.1 = some e.2
  | .attempt (.applied rejects true) => s.committing = true → s.Accepts rejects →
      ∀ e ∈ s.queued, s.docs.lookup e.1 = none
  | _ => True

/-- An event gets an identifier that neither the server nor the queue has. -/
def BulkSystem.Fresh (s : BulkSystem) : BulkOp → Prop
  | .submit _ ulid => s.docs.lookup ulid = none ∧ ulid ∉ s.queued.map Prod.fst
  | _ => True

instance (s : BulkSystem) : ∀ op, Decidable (s.Fresh op)
  | .submit _ _ => inferInstanceAs (Decidable (_ ∧ _))
  | .flush | .attempt _ => isTrue trivial

/-- The invariant of a run. -/
structure BulkInv (s : BulkSystem) : Prop where
  complete : Complete s.sink.queue
  nodup : (s.queued.map Prod.fst).Nodup
  /-- What the server holds of the queue is what is queued. -/
  held : ∀ e ∈ s.queued, s.docs.lookup e.1 = none ∨ s.docs.lookup e.1 = some e.2

section

variable {s s' : BulkSystem}

theorem BulkInv.request (inv : BulkInv s) :
    Complete s.sink.request ∧ bulkEvents s.sink.request = s.queued := by
  obtain ⟨hcomplete, hevents⟩ := @complete_append s.sink.queue [.empty] inv.complete trivial
  refine ⟨hcomplete, hevents.trans ?_⟩
  exact List.append_nil _

/-- What an attempt comes to. -/
theorem BulkInv.attempt_cases (inv : BulkInv s) (a : Attempt) :
    ((a.run s.docs s.queued).2.accepted = true ∧
        s.attempt a = ⟨{ s.sink with queue := [] }, (a.run s.docs s.queued).1, false⟩) ∨
      (a.run s.docs s.queued).2.accepted = false ∧
        s.attempt a = ⟨{ s.sink with queue := s.sink.request }, (a.run s.docs s.queued).1, true⟩ := by
  unfold BulkSystem.attempt
  rw [inv.request.2]
  by_cases haccepted : (a.run s.docs s.queued).2.accepted = true
  · refine Or.inl ⟨haccepted, ?_⟩
    dsimp only
    rw [s.sink.commit_accepted haccepted]
  · rw [Bool.not_eq_true] at haccepted
    obtain ⟨err, hcommit⟩ := s.sink.commit_refused haccepted
    refine Or.inr ⟨haccepted, ?_⟩
    dsimp only
    rw [hcommit]

/-- What an attempt leaves of what the server holds, and of what is queued. -/
theorem BulkInv.attempt_docs (inv : BulkInv s) (a : Attempt) :
    ∀ e ∈ s.queued, (a.run s.docs s.queued).1.lookup e.1 = none ∨
      (a.run s.docs s.queued).1.lookup e.1 = some e.2 := by
  intro e he
  cases a with
  | lost => exact inv.held e he
  | refused status body json => exact inv.held e he
  | applied rejects answered =>
      have hlookup := (@applyBulk_lookup rejects s.docs s.queued inv.nodup).2.1 e he
      show (applyBulk rejects s.docs s.queued).2.lookup e.1 = none ∨
        (applyBulk rejects s.docs s.queued).2.lookup e.1 = some e.2
      rw [hlookup]
      split
      · exact inv.held e he
      · split
        · exact Or.inl rfl
        · exact Or.inr rfl

theorem BulkInv.attempt (inv : BulkInv s) (a : Attempt) : BulkInv (s.attempt a) := by
  have hdocs := inv.attempt_docs a
  rcases inv.attempt_cases a with ⟨-, hattempt⟩ | ⟨-, hattempt⟩
  · rw [hattempt]
    exact ⟨trivial, List.nodup_nil, fun _ h => absurd h List.not_mem_nil⟩
  · rw [hattempt]
    obtain ⟨hcomplete, hevents⟩ := inv.request
    refine ⟨hcomplete, ?_, ?_⟩
    · show ((bulkEvents s.sink.request).map Prod.fst).Nodup
      rw [hevents]
      exact inv.nodup
    · show ∀ e ∈ bulkEvents s.sink.request, _
      rw [hevents]
      exact hdocs

theorem BulkInv.submit (inv : BulkInv s) {event : Json} {ulid : String} (hfresh : s.Fresh (.submit event ulid))
    (h : s.step lib (.submit event ulid) = some s') :
    BulkInv s' ∧ s'.docs = s.docs ∧ ∃ value, s'.queued = s.queued ++ [(ulid, value)] := by
  simp only [BulkSystem.step] at h
  split at h
  · cases h
  · obtain ⟨⟨full, sink⟩, hsubmit, hs'⟩ := Option.map_eq_some_iff.mp h
    obtain ⟨⟨header, line⟩, hprepare, hlines⟩ := Option.map_eq_some_iff.mp hsubmit
    obtain ⟨rfl, rfl⟩ := Prod.mk.inj hlines
    obtain ⟨index, value, rfl, rfl⟩ : ∃ index value, header = .header index ulid ∧ line = .event value := by
      unfold ElasticEventSink.prepare at hprepare
      obtain ⟨ts, -, hprepare⟩ := Option.bind_eq_some_iff.mp hprepare
      obtain ⟨value, -, hprepare⟩ := Option.bind_eq_some_iff.mp hprepare
      obtain ⟨rfl, rfl⟩ := Prod.mk.inj (Option.some.inj hprepare)
      exact ⟨_, _, rfl, rfl⟩
    subst hs'
    have hmore : Complete [.header index ulid, .event value] := trivial
    obtain ⟨hcomplete, hevents⟩ := complete_append inv.complete hmore
    have hqueued : bulkEvents (s.sink.queue ++ [.header index ulid, .event value]) =
        s.queued ++ [(ulid, value)] := hevents
    refine ⟨⟨hcomplete, ?_, ?_⟩, rfl, value, hqueued⟩
    · show ((bulkEvents (s.sink.queue ++ _)).map Prod.fst).Nodup
      rw [hqueued, List.map_append, List.nodup_append]
      refine ⟨inv.nodup, List.nodup_singleton _, ?_⟩
      rintro id hid id' hid' rfl
      obtain rfl := List.mem_singleton.mp hid'
      exact hfresh.2 hid
    · show ∀ e ∈ bulkEvents (s.sink.queue ++ _), _
      rw [hqueued]
      intro e he
      rcases List.mem_append.mp he with he | he
      · exact inv.held e he
      · obtain rfl := List.mem_singleton.mp he
        exact Or.inl hfresh.1

theorem BulkInv.step (inv : BulkInv s) {op : BulkOp} (hfresh : s.Fresh op) (h : s.step lib op = some s') :
    BulkInv s' := by
  cases op with
  | submit event ulid => exact (inv.submit hfresh h).1
  | flush =>
      simp only [BulkSystem.step] at h
      split at h
      · cases h
      · obtain rfl := Option.some.inj h
        exact ⟨inv.complete, inv.nodup, inv.held⟩
  | attempt a =>
      simp only [BulkSystem.step] at h
      split at h
      · obtain rfl := Option.some.inj h
        exact inv.attempt a
      · cases h

/-- When an attempt drops no event that is not stored. -/
theorem BulkInv.kept_iff (inv : BulkInv s) (a : Attempt) :
    (∀ e ∈ s.queued, e ∈ (s.attempt a).queued ∨ (s.attempt a).docs.lookup e.1 = some e.2) ↔
      ((a.run s.docs s.queued).2.accepted = true →
        ∀ e ∈ s.queued, (a.run s.docs s.queued).1.lookup e.1 = some e.2) := by
  rcases inv.attempt_cases a with ⟨haccepted, hattempt⟩ | ⟨hrefused, hattempt⟩
  · rw [hattempt, haccepted]
    constructor
    · intro hkept _ e he
      rcases hkept e he with hqueued | hstored
      · exact absurd hqueued List.not_mem_nil
      · exact hstored
    · exact fun hstored e he => Or.inr (hstored rfl e he)
  · rw [hattempt, hrefused]
    refine iff_of_true (fun e he => Or.inl ?_) nofun
    show e ∈ bulkEvents s.sink.request
    rw [inv.request.2]
    exact he

/-- The server holds nothing that is queued, and accepts all of it, exactly when its answer is accepted. -/
theorem BulkInv.applied_accepted_iff (inv : BulkInv s) (rejects : List String) :
    ((Attempt.applied rejects true).run s.docs s.queued).2.accepted = true ↔
      ∀ e ∈ s.queued, s.docs.lookup e.1 = none ∧ e.1 ∉ rejects := by
  have hresults := (@applyBulk_lookup rejects s.docs s.queued inv.nodup).2.2
  rw [← hresults]
  show (Reply.answered 200 _ (some (bulkAnswer (applyBulk rejects s.docs s.queued).1))).accepted = true ↔ _
  rw [bulkAnswer_accepted, Bool.not_eq_true']

/-- What is accepted is stored. -/
theorem BulkInv.applied_stored (inv : BulkInv s) {rejects : List String}
    (h : ∀ e ∈ s.queued, s.docs.lookup e.1 = none ∧ e.1 ∉ rejects) (answered : Bool) :
    ∀ e ∈ s.queued, ((Attempt.applied rejects answered).run s.docs s.queued).1.lookup e.1 = some e.2 := by
  intro e he
  have hlookup := (@applyBulk_lookup rejects s.docs s.queued inv.nodup).2.1 e he
  obtain ⟨hnone, hreject⟩ := h e he
  rw [hnone, if_neg (by rw [Option.isSome_none]; exact Bool.false_ne_true), if_neg hreject] at hlookup
  exact hlookup

/-- An attempt obeys the law exactly under the condition. -/
theorem BulkInv.attempt_law_iff (inv : BulkInv s) (hcommitting : s.committing = true) (a : Attempt) :
    s.StepLaw (.attempt a) (s.attempt a) ↔ s.Cond (.attempt a) := by
  have hkept := inv.kept_iff a
  constructor
  · rintro ⟨hlaw, hends⟩
    cases a with
    | lost => trivial
    | refused status body json =>
        intro _ haccepted
        exact hkept.mp hlaw haccepted
    | applied rejects answered =>
        cases answered with
        | false => trivial
        | true =>
            intro _ haccepts e he
            obtain ⟨hdone, -, -⟩ := hends rejects rfl haccepts
            rcases inv.attempt_cases (.applied rejects true) with ⟨haccepted, -⟩ | ⟨-, hattempt⟩
            · exact ((inv.applied_accepted_iff rejects).mp haccepted e he).1
            · rw [hattempt] at hdone
              cases hdone
  · intro hcond
    cases a with
    | lost =>
        refine ⟨hkept.mpr nofun, ?_⟩
        intro rejects hop
        cases hop
    | refused status body json =>
        refine ⟨hkept.mpr (hcond hcommitting), ?_⟩
        intro rejects hop
        cases hop
    | applied rejects answered =>
        have hstored : ((Attempt.applied rejects answered).run s.docs s.queued).2.accepted = true →
            ∀ e ∈ s.queued, s.docs.lookup e.1 = none ∧ e.1 ∉ rejects := by
          intro haccepted
          cases answered with
          | false => cases haccepted
          | true => exact (inv.applied_accepted_iff rejects).mp haccepted
        refine ⟨hkept.mpr fun haccepted => inv.applied_stored (hstored haccepted) answered, ?_⟩
        intro rejects' hop haccepts
        obtain ⟨rfl, rfl⟩ := Attempt.applied.inj (BulkOp.attempt.inj hop)
        have hnone := hcond hcommitting haccepts
        have hall : ∀ e ∈ s.queued, s.docs.lookup e.1 = none ∧ e.1 ∉ rejects :=
          fun e he => ⟨hnone e he, haccepts e he (hnone e he)⟩
        rcases inv.attempt_cases (.applied rejects true) with ⟨-, hattempt⟩ | ⟨hrefused, -⟩
        · rw [hattempt]
          exact ⟨rfl, rfl, inv.applied_stored hall true⟩
        · rw [(inv.applied_accepted_iff rejects).mpr hall] at hrefused
          cases hrefused

/-- A step obeys the law exactly under the condition. -/
theorem BulkInv.law_iff (inv : BulkInv s) {op : BulkOp} (hfresh : s.Fresh op) :
    s.Law lib op ↔ s.Cond op := by
  cases op with
  | submit event ulid =>
      refine iff_of_true ?_ trivial
      intro s' h
      obtain ⟨-, -, value, hqueued⟩ := inv.submit hfresh h
      refine ⟨fun e he => Or.inl ?_, fun _ hop => by cases hop⟩
      rw [hqueued]
      exact List.mem_append_left _ he
  | flush =>
      refine iff_of_true ?_ trivial
      intro s' h
      simp only [BulkSystem.step] at h
      split at h
      · cases h
      · obtain rfl := Option.some.inj h
        exact ⟨fun e he => Or.inl he, fun _ hop => by cases hop⟩
  | attempt a =>
      unfold BulkSystem.Law
      simp only [BulkSystem.step]
      by_cases hcommitting : s.committing = true
      · rw [if_pos hcommitting, ← inv.attempt_law_iff hcommitting a]
        constructor
        · exact fun hlaw => hlaw _ rfl
        · rintro hlaw s' hs'
          obtain rfl := Option.some.inj hs'
          exact hlaw
      · rw [if_neg hcommitting]
        refine iff_of_true nofun ?_
        unfold BulkSystem.Cond
        split
        · exact fun h => absurd h hcommitting
        · exact fun h => absurd h hcommitting
        · trivial

end

/-- In every run of the sink and the processor against any server, with any submits and any attempts: every
step obeys the law if and only if every step meets the condition. -/
theorem bulk_law (index : String) (noIndexSuffix opensearch : Bool) (docs : Documents) {ops : List BulkOp}
    (hfresh : Along (BulkSystem.step lib) BulkSystem.Fresh (.new index noIndexSuffix opensearch docs) ops) :
    Along (BulkSystem.step lib) (BulkSystem.Law lib) (.new index noIndexSuffix opensearch docs) ops ↔
      Along (BulkSystem.step lib) BulkSystem.Cond (.new index noIndexSuffix opensearch docs) ops := by
  refine along_congr (P := BulkInv) ?_ ?_ ?_ hfresh
  · exact fun s op s' inv hfresh _ hstep => inv.step hfresh hstep
  · exact fun s op inv hfresh => inv.law_iff hfresh
  · exact ⟨trivial, List.nodup_nil, fun _ h => absurd h List.not_mem_nil⟩

/-! ## A lost answer, and a refusal -/

/-- A request is applied and its response lost; the next one is applied and answered. -/
def lostAnswerRun : List BulkOp :=
  [.submit noonEvent "01", .flush, .attempt (.applied [] false), .attempt (.applied [] true)]

/-- A proxy refuses the request with an empty object. -/
def refusedRun : List BulkOp :=
  [.submit noonEvent "01", .flush, .attempt (.refused 502 "\x7b\x7d" (some (.object [])))]

theorem bulk_law_lostAnswerRun :
    Along (BulkSystem.step noonLib) (BulkSystem.Law noonLib) (.new "logstash" false false ∅) lostAnswerRun ↔
      Along (BulkSystem.step noonLib) BulkSystem.Cond (.new "logstash" false false ∅) lostAnswerRun :=
  bulk_law "logstash" false false ∅ (by decide +kernel)

/-- After the lost answer the commit does not end, although the event is stored; after the refusal the event is
neither queued nor stored. -/
theorem lostAnswer_and_refusal :
    (∃ s, exec (BulkSystem.step noonLib) (.new "logstash" false false ∅) lostAnswerRun = some s ∧
      s.committing = true ∧ s.queued = [("01", noonDocument)] ∧ s.docs.lookup "01" = some noonDocument) ∧
      ∃ s, exec (BulkSystem.step noonLib) (.new "logstash" false false ∅) refusedRun = some s ∧
        s.queued = [] ∧ s.docs.lookup "01" = none := by
  have hlost : (exec (BulkSystem.step noonLib) (.new "logstash" false false ∅) lostAnswerRun).map (fun s =>
      (s.committing, s.queued, s.docs.lookup "01")) = some (true, [("01", noonDocument)], some noonDocument) := by
    decide +kernel
  have hrefused : (exec (BulkSystem.step noonLib) (.new "logstash" false false ∅) refusedRun).map (fun s =>
      (s.queued, s.docs.lookup "01")) = some ([], none) := by
    decide +kernel
  obtain ⟨s, hs, hresult⟩ := Option.map_eq_some_iff.mp hlost
  obtain ⟨t, ht, hdropped⟩ := Option.map_eq_some_iff.mp hrefused
  obtain ⟨hcommitting, hqueued, hstored⟩ := by simpa only [Prod.mk.injEq] using hresult
  obtain ⟨hempty, hnone⟩ := Prod.mk.inj hdropped
  exact ⟨⟨s, hs, hcommitting, hqueued, hstored⟩, t, ht, hempty, hnone⟩

end EveBox.Sink
