import EveBox.Eve.FiltersTheorems
import EveBox.Sink.BatchTheorems

/-!
# Events that are filtered and submitted

Reference: `Processor::run` of `src/eve/processor.rs`, and `handler` of `src/server/api/submit.rs`.

* `robust_iff` — when an event is taken in without a panic, and the next one is read.
-/

namespace EveBox.Sink

open Rust Eve Sqlite

/-! ## The callers -/

/-- Who submits an event. -/
inductive Submitter
  | processor
  | endpoint
deriving DecidableEq, Repr

section

variable (lib : TimeLib) (entry : String → Json)

/-- An event in `Processor::run`, or in the loop of the endpoint. The one unwraps the result, the other logs an error. -/
def Submitter.turn (who : Submitter) (filters : List EveFilter) (sink : EventSink) (event : Json) (ulid : String) :
    Option EventSink := do
  let event ← runFilters entry filters event
  let (result, sink) ← sink.submit lib event ulid
  match who, result with
  | _, .ok _ => some sink
  | .endpoint, .error _ => some sink
  | .processor, .error _ => none

/-- An event is taken in: nothing panics, an error leaves the sink as it was, and the next event is read. -/
structure Robust (who : Submitter) (filters : List EveFilter) (sink : EventSink) (event : Json) (ulid : String) : Prop where
  returns : ∃ filtered result sink', runFilters entry filters event = some filtered ∧
    sink.submit lib filtered ulid = some (result, sink') ∧ ∀ err, result = .error err → sink' = sink
  carriesOn : (who.turn lib entry filters sink event ulid).isSome

/-- The time of a timestamp. -/
def timeOf (timestamp : Json) : Option DateTime := timestamp.asStr.bind fun ts => parseDateTime lib ts none

/-- A timestamp that a sink can take, for a caller. -/
def Timed (who : Submitter) (sink : EventSink) (timestamp : Json) : Prop :=
  match sink with
  | .eveBox _ => True
  | .elastic _ => (timeOf lib timestamp).isSome
  | .sqlite _ => match timeOf lib timestamp with
    | none => who = .endpoint
    | some ts => ts.toNanos.isSome

instance (who : Submitter) (sink : EventSink) (timestamp : Json) : Decidable (Timed lib who sink timestamp) := by
  unfold Timed
  split
  · infer_instance
  · infer_instance
  · split <;> infer_instance

/-! ## The sinks -/

omit entry in
theorem getPath_null : ∀ path : List String, Json.null.getPath path = .null
  | [] => rfl
  | _ :: path => getPath_null path

omit lib entry in
/-- Where there is a text, another one can be put. -/
theorem exists_setPath_of_string {value : Json} : ∀ {path : List String} {j : Json} {s : String}, j.getPath path = .string s →
    ∃ j', j.setPath path value = some j'
  | [], _, _, _ => ⟨value, rfl⟩
  | key :: path, j, s, h => by
      rw [Json.getPath_cons] at h
      obtain ⟨inner, hinner⟩ := exists_setPath_of_string h
      have hget : j.get key ≠ .null := by
        intro hnull
        rw [hnull, getPath_null] at h
        exact nomatch h
      exact Json.exists_setPath (.inr (Json.isObject_of_get_ne hget)) hinner

omit entry in
theorem exists_reformatAt (path : List String) (eve : Json) : ∃ eve', reformatAt lib path eve = some eve' := by
  unfold reformatAt
  cases hpath : eve.getPath path with
  | string ts => exact exists_setPath_of_string hpath
  | _ => exact ⟨eve, rfl⟩

omit entry in
theorem exists_reformatTimestamps (eve : Json) : ∃ eve', reformatTimestamps lib eve = some eve' := by
  obtain ⟨e₁, he₁⟩ := exists_reformatAt lib ["timestamp"] eve
  obtain ⟨e₂, he₂⟩ := exists_reformatAt lib ["flow", "start"] e₁
  obtain ⟨e₃, he₃⟩ := exists_reformatAt lib ["flow", "end"] e₂
  refine ⟨e₃, ?_⟩
  rw [reformatTimestamps, he₁]
  simp only [Option.bind_eq_bind, Option.bind_some, he₂, he₃]

omit entry in
/-- What a sink does with an event that is an object. -/
theorem submit_iff (who : Submitter) (sink : EventSink) {event : Json} (h : event.isObject = true) (ulid : String) :
    (∃ result sink', sink.submit lib event ulid = some (result, sink') ∧ (∀ err, result = .error err → sink' = sink) ∧
      (who = .processor → ∃ full, result = .ok full)) ↔ Timed lib who sink (event.get "timestamp") := by
  have htime : datetime lib event = timeOf lib (event.get "timestamp") := rfl
  have hok (full : Bool) (sink sink' : EventSink) :
      (∀ err : IndexError, (.ok full : Except IndexError Bool) = .error err → sink' = sink) ∧
        (who = .processor → ∃ full', (.ok full : Except IndexError Bool) = .ok full') :=
    ⟨fun _ herr => (nomatch herr), fun _ => ⟨full, rfl⟩⟩
  cases sink with
  | eveBox importer => exact iff_of_true ⟨_, _, rfl, hok _ _ _⟩ trivial
  | elastic importer =>
      unfold EventSink.submit Timed ElasticEventSink.submit ElasticEventSink.prepare
      rw [htime]
      dsimp only
      cases timeOf lib (event.get "timestamp") with
      | none => exact iff_of_false (fun ⟨_, _, hsome, _⟩ => nomatch hsome) (by simp)
      | some ts =>
          obtain ⟨event', hset⟩ : ∃ event', event.set "@timestamp" (.string (ts.toElastic lib)) = some event' :=
            Json.exists_set_of_isObject h
          simp only [Option.bind_eq_bind, Option.bind_some, hset, Option.map_some]
          exact iff_of_true ⟨_, _, rfl, hok _ _ _⟩ (by simp)
  | sqlite importer =>
      unfold EventSink.submit Timed SqliteEventSink.submit SqliteEventSink.prep
      rw [htime]
      dsimp only
      cases timeOf lib (event.get "timestamp") with
      | none =>
          dsimp only [Option.map_some]
          constructor
          · rintro ⟨result, sink', hsome, -, hok⟩
            obtain ⟨rfl, rfl⟩ := Prod.mk.inj (Option.some.inj hsome)
            cases who with
            | endpoint => rfl
            | processor =>
                obtain ⟨full, herr⟩ := hok rfl
                exact nomatch herr
          · rintro rfl
            exact ⟨_, _, rfl, fun _ _ => rfl, nofun⟩
      | some ts =>
          obtain ⟨event', hreformat⟩ := exists_reformatTimestamps lib event
          simp only [Option.bind_eq_bind, hreformat, Option.bind_some]
          cases ts.toNanos with
          | none => exact iff_of_false (fun ⟨_, _, hsome, _⟩ => nomatch hsome) (by simp)
          | some nanos =>
              simp only [Option.bind_some, Option.map_some]
              exact iff_of_true ⟨_, _, rfl, hok _ _ _⟩ (by simp)

/-- An event that the filters let through is taken in if and only if the sink takes it. -/
theorem robust_iff_submit (who : Submitter) (filters : List EveFilter) (sink : EventSink) (event : Json) (ulid : String) :
    Robust lib entry who filters sink event ulid ↔ ∃ filtered, runFilters entry filters event = some filtered ∧
      ∃ result sink', sink.submit lib filtered ulid = some (result, sink') ∧ (∀ err, result = .error err → sink' = sink) ∧
        (who = .processor → ∃ full, result = .ok full) := by
  constructor
  · rintro ⟨⟨filtered, result, sink', hfiltered, hsubmit, hsame⟩, hcarriesOn⟩
    refine ⟨filtered, hfiltered, result, sink', hsubmit, hsame, ?_⟩
    rintro rfl
    unfold Submitter.turn at hcarriesOn
    simp only [hfiltered, hsubmit, Option.bind_eq_bind, Option.bind_some] at hcarriesOn
    cases result with
    | ok full => exact ⟨full, rfl⟩
    | error err => exact nomatch hcarriesOn
  · rintro ⟨filtered, hfiltered, result, sink', hsubmit, hsame, hok⟩
    refine ⟨⟨filtered, result, sink', hfiltered, hsubmit, hsame⟩, ?_⟩
    unfold Submitter.turn
    simp only [hfiltered, hsubmit, Option.bind_eq_bind, Option.bind_some]
    cases result with
    | ok full => rfl
    | error err =>
        cases who with
        | endpoint => rfl
        | processor =>
            obtain ⟨full, herr⟩ := hok rfl
            exact nomatch herr

/-- An event is taken in if and only if it is null or an object, has room for the agent where one is added, and has a
timestamp that the sink and the caller can do with. -/
theorem robust_iff {more : List EveFilter} (hfields : LeavesEvebox more) (who : Submitter) (sink : EventSink) (event : Json)
    (ulid : String) : Robust lib entry who (withDefaults more) sink event ulid ↔
      (event = .null ∨ event.isObject = true) ∧ (more.any EveFilter.addsAgent = true → HasRoom event) ∧
        Timed lib who sink (stampAfter more (event.get "timestamp")) := by
  rw [robust_iff_submit]
  constructor
  · rintro ⟨filtered, hfiltered, htaken⟩
    obtain ⟨hshape, hroom⟩ := (runFilters_eq_some_iff entry hfields).mp ⟨filtered, hfiltered⟩
    obtain ⟨filtered', hfiltered', hready, htimestamp⟩ := runFilters_withDefaults_ready entry hfields hshape hroom
    obtain rfl := Option.some.inj (hfiltered.symm.trans hfiltered')
    refine ⟨hshape, hroom, ?_⟩
    rw [← htimestamp]
    exact (submit_iff lib who sink hready.isObject ulid).mp htaken
  · rintro ⟨hshape, hroom, htimed⟩
    obtain ⟨filtered, hfiltered, hready, htimestamp⟩ := runFilters_withDefaults_ready entry hfields hshape hroom
    rw [← htimestamp] at htimed
    exact ⟨filtered, hfiltered, (submit_iff lib who sink hready.isObject ulid).mpr htimed⟩

end

/-- An event of noon. -/
theorem robust_iff_noon : Robust noonLib .string .processor (withDefaults [.addAgentId "edge-a"]) (.sqlite .new) noonEvent "" := by
  have hfields : LeavesEvebox [.addAgentId "edge-a"] := fun value hmem => by simp at hmem
  exact (robust_iff noonLib .string hfields .processor (.sqlite .new) noonEvent "").mpr
    ⟨.inr rfl, fun _ => by decide, by decide +kernel⟩

/-- A line that is an array is a panic of the first filter, and an event without a time one of the caller. -/
theorem array_not_robust : ¬ Robust noonLib .string .endpoint (withDefaults []) (.sqlite .new) (.array []) "" ∧
    ¬ Robust noonLib .string .processor (withDefaults []) (.sqlite .new) (.object []) "" := by
  constructor
  · rintro ⟨⟨filtered, -, -, hfiltered, -⟩, -⟩
    have hnone : runFilters .string (withDefaults []) (.array []) = none := rfl
    rw [hnone] at hfiltered
    exact nomatch hfiltered
  · rintro ⟨-, hcarriesOn⟩
    exact absurd hcarriesOn (by decide +kernel)

end EveBox.Sink
