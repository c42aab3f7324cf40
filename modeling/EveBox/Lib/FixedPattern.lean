import Mathlib.Data.List.Basic

/-!
# Patterns of a fixed length

A pattern says of each of its characters what it may be, and is searched for from the left.

* `find_append_of_break` — behind a character that the pattern does not have, the search begins anew.
-/

namespace FixedPattern

variable {α : Type*}

/-- The pattern matches at the beginning. -/
def matchesAt : List (α → Bool) → List α → Bool
  | [], _ => true
  | _ :: _, [] => false
  | p :: ps, a :: as => p a && matchesAt ps as

/-- The first match. -/
def find (ps : List (α → Bool)) : List α → Option (List α)
  | [] => if matchesAt ps [] then some [] else none
  | a :: as => if matchesAt ps (a :: as) then some ((a :: as).take ps.length) else find ps as

variable {ps : List (α → Bool)} {as bs : List α}

theorem length_le_of_matchesAt (h : matchesAt ps as = true) : ps.length ≤ as.length := by
  induction ps generalizing as with
  | nil => exact Nat.zero_le _
  | cons p ps ih =>
      cases as with
      | nil => cases h
      | cons a as => exact Nat.succ_le_succ (ih (Bool.and_eq_true_iff.mp h).2)

theorem find_of_matchesAt (h : matchesAt ps as = true) : find ps as = some (as.take ps.length) := by
  cases as with
  | nil => rw [find, if_pos h, List.take_nil]
  | cons a as => rw [find, if_pos h]

theorem find_of_length_lt (h : as.length < ps.length) : find ps as = none := by
  have hnot : ∀ bs : List α, bs.length < ps.length → ¬matchesAt ps bs = true := fun bs hlt hmatches =>
    absurd (length_le_of_matchesAt hmatches) (Nat.not_le_of_lt hlt)
  induction as with
  | nil => rw [find, if_neg (hnot [] h)]
  | cons a as ih => rw [find, if_neg (hnot (a :: as) h), ih (Nat.lt_of_succ_lt h)]

/-- What is found matches. -/
theorem matchesAt_of_find {found : List α} (h : find ps as = some found) :
    matchesAt ps found = true ∧ found.length = ps.length := by
  have htake : ∀ bs : List α, matchesAt ps bs = true →
      matchesAt ps (bs.take ps.length) = true ∧ (bs.take ps.length).length = ps.length := by
    intro bs hbs
    refine ⟨?_, List.length_take_of_le (length_le_of_matchesAt hbs)⟩
    clear h
    induction ps generalizing bs with
    | nil => rfl
    | cons p ps ih =>
        cases bs with
        | nil => cases hbs
        | cons b bs =>
            obtain ⟨hp, hps⟩ := Bool.and_eq_true_iff.mp hbs
            exact Bool.and_eq_true_iff.mpr ⟨hp, ih bs hps⟩
  induction as with
  | nil =>
      unfold find at h
      split_ifs at h with hmatches
      obtain rfl := Option.some.inj h
      simpa using htake [] hmatches
  | cons a as ih =>
      unfold find at h
      split_ifs at h with hmatches
      · obtain rfl := Option.some.inj h
        exact htake (a :: as) hmatches
      · exact ih h

section

variable {b : α} (hb : ∀ p ∈ ps, p b = false)

include hb

/-- No match goes over a character that the pattern does not have. -/
theorem matchesAt_append_of_break : matchesAt ps (as ++ b :: bs) = matchesAt ps as := by
  induction ps generalizing as with
  | nil => rw [matchesAt, matchesAt]
  | cons p ps ih =>
      cases as with
      | nil => rw [List.nil_append, matchesAt, matchesAt, hb p List.mem_cons_self, Bool.false_and]
      | cons a as => rw [List.cons_append, matchesAt, matchesAt, ih fun q hq => hb q (List.mem_cons_of_mem _ hq)]

/-- Behind a character that the pattern does not have, the search begins anew. -/
theorem find_append_of_break (hne : ps ≠ []) : find ps (as ++ b :: bs) = (find ps as).or (find ps bs) := by
  have hnil : matchesAt ps ([] : List α) = false := by
    cases ps with
    | nil => exact absurd rfl hne
    | cons p ps => rfl
  induction as with
  | nil =>
      have hbreak : matchesAt ps (b :: bs) = false := (matchesAt_append_of_break hb).trans hnil
      rw [List.nil_append, find, find, hbreak, hnil]
      rfl
  | cons a as ih =>
      have hsame : matchesAt ps (a :: as ++ b :: bs) = matchesAt ps (a :: as) := matchesAt_append_of_break hb
      rw [List.cons_append] at hsame ⊢
      rw [find, find, hsame]
      split_ifs with hmatches
      · have hle := length_le_of_matchesAt hmatches
        rw [Option.some_or, ← List.cons_append, List.take_append_of_le_length hle]
      · exact ih

end

end FixedPattern
