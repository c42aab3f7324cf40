import Mathlib.Data.List.Basic
import Mathlib.Tactic.Common

/-!
# Bool queries

The compound query of a search engine: clauses that must all match, clauses none of which may match, and clauses
of which a number must match. Without a given number that is one where nothing else is asked for, and else none.
-/

/-- `{"bool": {"filter": [..], "must_not": [..], "should": [..], "minimum_should_match": ..}}` over clauses `α`. -/
structure BoolClauses (α : Type*) where
  filter : List α
  mustNot : List α
  should : List α
  minimumShouldMatch : Option ℕ
deriving DecidableEq, Repr

namespace BoolClauses

variable {α : Type*} (p : α → Bool) (q : BoolClauses α)

/-- How many of the `should` clauses must match. -/
def minimum : ℕ :=
  q.minimumShouldMatch.getD (if q.filter.isEmpty && !q.should.isEmpty then 1 else 0)

/-- Whether what the clauses are about matches, where `p` says so of a clause. -/
def accepts : Bool :=
  q.filter.all p && q.mustNot.all (!p ·) && decide (q.minimum ≤ q.should.countP p)

/-- The clauses without those of `should`. -/
def Rest : Prop := (∀ c ∈ q.filter, p c = true) ∧ ∀ c ∈ q.mustNot, p c = false

variable {p q}

theorem accepts_iff : q.accepts p = true ↔ q.Rest p ∧ q.minimum ≤ q.should.countP p := by
  simp [BoolClauses.accepts, Rest, and_assoc]

/-- Without `should` clauses and a number of them, only the rest counts. -/
theorem accepts_of_should_nil (hshould : q.should = []) (hminimum : q.minimumShouldMatch = none) :
    q.accepts p = true ↔ q.Rest p := by
  rw [accepts_iff, minimum, hshould, hminimum]
  simp

/-- With the number one, some `should` clause has to match. -/
theorem accepts_of_minimum_one (hminimum : q.minimumShouldMatch = some 1) :
    q.accepts p = true ↔ q.Rest p ∧ ∃ c ∈ q.should, p c = true := by
  rw [accepts_iff, minimum, hminimum, Option.getD_some]
  refine and_congr_right fun _ => ?_
  rw [← List.countP_pos_iff]
  exact Iff.rfl

/-- Only `should` clauses: one of them has to match. -/
theorem accepts_should (should : List α) :
    (⟨[], [], should, none⟩ : BoolClauses α).accepts p = true ↔ should = [] ∨ ∃ c ∈ should, p c = true := by
  rw [accepts_iff, minimum]
  match should with
  | [] => simp [Rest]
  | c :: should =>
      have hone : (1 ≤ (c :: should).countP p) ↔ ∃ d ∈ c :: should, p d = true := List.countP_pos_iff
      simp only [Option.getD_none, List.isEmpty_nil, List.isEmpty_cons, Bool.not_false, Bool.and_self, if_true,
        hone]
      simp [Rest]

/-- Only a `must_not` clause: it must not match. -/
theorem accepts_mustNot (c : α) : (⟨[], [c], [], none⟩ : BoolClauses α).accepts p = !p c := by
  cases h : p c <;> simp [BoolClauses.accepts, minimum, h]

end BoolClauses
