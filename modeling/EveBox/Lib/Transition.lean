import Mathlib.Logic.Basic
import Mathlib.Data.List.Basic
import Mathlib.Data.Option.Basic

/-!
# Runs of a partial step function

A system is a partial function `step : σ → α → Option σ`: the action says which of the things that can
happen does happen, and `none` that it cannot happen in this state. A run is a list of actions.

* `invariant` — what every step keeps, every run keeps.
* `invariant_along` — the same for runs whose steps all meet a condition.
* `along_congr` — two conditions that agree in every state of a run hold of the same runs.
* `related` — a reflexive and transitive relation that every step is in, every run is in.
-/

namespace Transition

variable {σ α : Type*}

/-- Run the actions in order. -/
def exec (step : σ → α → Option σ) : σ → List α → Option σ
  | s, [] => some s
  | s, a :: as => (step s a).bind fun s' => exec step s' as

/-- Every step of the run meets the condition `ok`, in the state it starts from. -/
def Along (step : σ → α → Option σ) (ok : σ → α → Prop) : σ → List α → Prop
  | _, [] => True
  | s, a :: as => ok s a ∧ ∀ s', step s a = some s' → Along step ok s' as

variable {step : σ → α → Option σ}

/-- A condition on the actions alone, met by every action of the run. -/
theorem along_of_forall {ok : α → Prop} {as : List α} (h : ∀ a ∈ as, ok a) (s : σ) :
    Along step (fun _ a => ok a) s as := by
  induction as generalizing s with
  | nil => trivial
  | cons a as ih =>
      exact ⟨h a List.mem_cons_self, fun s' _ => ih (fun b hb => h b (List.mem_cons_of_mem _ hb)) s'⟩

/-- Whether a run meets a condition can be computed along the run. -/
instance decidableAlong {ok : σ → α → Prop} [∀ s a, Decidable (ok s a)] :
    ∀ (s : σ) (as : List α), Decidable (Along step ok s as)
  | _, [] => isTrue trivial
  | s, a :: as =>
      have : Decidable (∀ s', step s a = some s' → Along step ok s' as) :=
        match step s a with
        | none => isTrue nofun
        | some t =>
            match decidableAlong t as with
            | isTrue ht => isTrue fun _ hs' => Option.some.inj hs' ▸ ht
            | isFalse hf => isFalse fun hall => hf (hall t rfl)
      inferInstanceAs (Decidable (ok s a ∧ ∀ s', step s a = some s' → Along step ok s' as))

@[simp] theorem exec_nil (s : σ) : exec step s [] = some s := rfl

theorem exec_cons (s : σ) (a : α) (as : List α) :
    exec step s (a :: as) = (step s a).bind fun s' => exec step s' as := rfl

/-- A run that starts with a step. -/
theorem exec_cons_eq_some {s s' : σ} {a : α} {as : List α} :
    exec step s (a :: as) = some s' ↔ ∃ t, step s a = some t ∧ exec step t as = some s' := by
  rw [exec_cons, Option.bind_eq_some_iff]

theorem exec_append (s : σ) (as bs : List α) :
    exec step s (as ++ bs) = (exec step s as).bind fun t => exec step t bs := by
  induction as generalizing s with
  | nil => rfl
  | cons a as ih =>
      rw [List.cons_append, exec_cons, exec_cons, Option.bind_assoc]
      refine congrArg (step s a).bind ?_
      funext t
      exact ih t

/-- A run in two parts. -/
theorem exec_append_eq_some {s s' : σ} {as bs : List α} :
    exec step s (as ++ bs) = some s' ↔ ∃ t, exec step s as = some t ∧ exec step t bs = some s' := by
  rw [exec_append, Option.bind_eq_some_iff]

/-- A run through an action: what comes before it, the step, and what comes after. -/
theorem exec_of_mem {s s' : σ} {as : List α} {a : α} (ha : a ∈ as) (h : exec step s as = some s') :
    ∃ bs cs t t', as = bs ++ a :: cs ∧ exec step s bs = some t ∧ step t a = some t' ∧
      exec step t' cs = some s' := by
  obtain ⟨bs, cs, rfl⟩ := List.append_of_mem ha
  obtain ⟨t, hbs, h⟩ := exec_append_eq_some.mp h
  obtain ⟨t', hstep, hcs⟩ := exec_cons_eq_some.mp h
  exact ⟨bs, cs, t, t', rfl, hbs, hstep, hcs⟩

/-- A property that every step keeps holds after every run from a state where it holds. -/
theorem invariant {P : σ → Prop} (hstep : ∀ s a s', P s → step s a = some s' → P s') {s s' : σ}
    {as : List α} (hs : P s) (h : exec step s as = some s') : P s' := by
  induction as generalizing s with
  | nil =>
      obtain rfl : s = s' := by simpa using h
      exact hs
  | cons a as ih =>
      obtain ⟨t, ht, h⟩ := exec_cons_eq_some.mp h
      exact ih (hstep s a t hs ht) h

/-- A property that every step meeting `ok` keeps holds after every run whose steps all meet `ok`. -/
theorem invariant_along {P : σ → Prop} {ok : σ → α → Prop}
    (hstep : ∀ s a s', P s → ok s a → step s a = some s' → P s') {s s' : σ} {as : List α} (hs : P s)
    (hok : Along step ok s as) (h : exec step s as = some s') : P s' := by
  induction as generalizing s with
  | nil =>
      obtain rfl : s = s' := by simpa using h
      exact hs
  | cons a as ih =>
      obtain ⟨t, ht, h⟩ := exec_cons_eq_some.mp h
      exact ih (hstep s a t hs hok.1 ht) (hok.2 t ht) h

/-- Two conditions that say the same in every state with the property `P`, in a run whose steps meet `pre`, if
every step that meets the first as well keeps `P`. -/
theorem along_congr {P : σ → Prop} {pre ok ok' : σ → α → Prop}
    (hstep : ∀ s a s', P s → pre s a → ok s a → step s a = some s' → P s')
    (hiff : ∀ s a, P s → pre s a → (ok s a ↔ ok' s a)) {s : σ} {as : List α} (hs : P s)
    (hpre : Along step pre s as) : Along step ok s as ↔ Along step ok' s as := by
  induction as generalizing s with
  | nil => exact Iff.rfl
  | cons a as ih =>
      obtain ⟨hpre, hrest⟩ := hpre
      constructor
      · rintro ⟨hok, hall⟩
        refine ⟨(hiff s a hs hpre).mp hok, fun s' hs' => ?_⟩
        exact (ih (hstep s a s' hs hpre hok hs') (hrest s' hs')).mp (hall s' hs')
      · rintro ⟨hok', hall⟩
        have hok := (hiff s a hs hpre).mpr hok'
        refine ⟨hok, fun s' hs' => ?_⟩
        exact (ih (hstep s a s' hs hpre hok hs') (hrest s' hs')).mpr (hall s' hs')

/-- A reflexive and transitive relation between the states before and after every step relates the
states before and after every run. -/
theorem related {R : σ → σ → Prop} (hrefl : ∀ s, R s s) (htrans : ∀ s t u, R s t → R t u → R s u)
    (hstep : ∀ s a s', step s a = some s' → R s s') {s s' : σ} {as : List α}
    (h : exec step s as = some s') : R s s' :=
  invariant (P := fun t => R s t) (fun t a t' ht hstep' => htrans s t t' ht (hstep t a t' hstep'))
    (hrefl s) h

end Transition
