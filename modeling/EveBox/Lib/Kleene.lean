import Mathlib.Logic.Basic
import Mathlib.Tactic.Common

/-!
# Three-valued logic

The logic of conditions that may be unknown, as those of SQL over values that may be null. A condition lets
through what it is true of, so what is unknown is let through neither by a condition nor by its negation.

* `xor_not_iff` — just one of a condition and its negation is true if and only if the condition is known.
-/

/-- True, false or, as `none`, unknown. -/
abbrev Kleene := Option Bool

namespace Kleene

/-- Unknown where an operand is missing, and else as the function says. -/
def ofOperands {α : Type*} (missing : α → Bool) (f : α → α → Bool) (a b : α) : Kleene :=
  if missing a || missing b then none else some (f a b)

def not : Kleene → Kleene
  | some b => some (!b)
  | none => none

def or : Kleene → Kleene → Kleene
  | some true, _ => some true
  | _, some true => some true
  | some false, some false => some false
  | _, _ => none

/-- Whether the condition is true. -/
def holds (a : Kleene) : Bool := a = some true

theorem holds_not_iff (a : Kleene) : a.not.holds = true ↔ a = some false := by
  rcases a with _ | _ | _ <;> decide

/-- One of two is true if and only if one of them lets through. -/
theorem holds_or (a b : Kleene) : (or a b).holds = (a.holds || b.holds) := by
  rcases a with _ | _ | _ <;> rcases b with _ | _ | _ <;> decide

/-- Of a condition and its negation just one is true, unless the condition is unknown. -/
theorem xor_not_iff (a : Kleene) : Xor (a.holds = true) (a.not.holds = true) ↔ a ≠ none := by
  rcases a with _ | _ | _ <;> simp [holds, not, Xor]

section

variable {α : Type*} {missing : α → Bool} {f : α → α → Bool} {a b : α}

theorem ofOperands_ne_none_iff : ofOperands missing f a b ≠ none ↔ missing a = false ∧ missing b = false := by
  unfold ofOperands
  by_cases h : (missing a || missing b) = true
  · rw [if_pos h]
    simp only [ne_eq, not_true_eq_false, false_iff]
    grind
  · rw [if_neg h]
    simp only [ne_eq, reduceCtorEq, not_false_eq_true, true_iff]
    grind

theorem holds_ofOperands :
    (ofOperands missing f a b).holds = true ↔ missing a = false ∧ missing b = false ∧ f a b = true := by
  unfold ofOperands
  by_cases h : (missing a || missing b) = true
  · rw [if_pos h]
    simp only [holds, reduceCtorEq, decide_false, Bool.false_eq_true, false_iff]
    grind
  · rw [if_neg h]
    simp only [holds, Option.some.injEq, decide_eq_true_eq]
    grind

end

end Kleene
