import Mathlib.Data.List.Forall2

/-!
# Results

A `?` of the source is a bind of `Except`; a loop that pushes what a fallible step gives is `List.mapM`.
-/

namespace EveBox.Rust

variable {α β ε : Type}

theorem bind_eq_ok {x : Except ε α} {f : α → Except ε β} {b : β} :
    (x >>= f) = .ok b ↔ ∃ a, x = .ok a ∧ f a = .ok b := by
  cases x <;> simp [bind, Except.bind]

theorem map_eq_ok {x : Except ε α} {f : α → β} {b : β} : x.map f = .ok b ↔ ∃ a, x = .ok a ∧ f a = b := by
  cases x <;> simp [Except.map]

theorem mapM_eq_ok {f : α → Except ε β} {as : List α} {bs : List β} :
    as.mapM f = .ok bs ↔ List.Forall₂ (fun a b => f a = .ok b) as bs := by
  induction as generalizing bs with
  | nil => cases bs <;> simp [pure, Except.pure]
  | cons a as ih =>
      rw [List.mapM_cons]
      simp only [bind_eq_ok, ih]
      constructor
      · rintro ⟨b, hb, rest, hrest, heq⟩
        obtain rfl := Except.ok.inj heq
        exact .cons hb hrest
      · intro hall
        obtain ⟨b, rest, hb, hrest, rfl⟩ := List.forall₂_cons_left_iff.mp hall
        exact ⟨b, hb, rest, hrest, rfl⟩

theorem exists_mapM {f : α → Except ε β} {as : List α} (h : ∀ a ∈ as, ∃ b, f a = .ok b) :
    ∃ bs, as.mapM f = .ok bs := by
  induction as with
  | nil => exact ⟨[], rfl⟩
  | cons a as ih =>
      obtain ⟨b, hb⟩ := h a (by simp)
      obtain ⟨bs, hbs⟩ := ih fun x hx => h x (List.mem_cons_of_mem _ hx)
      exact ⟨b :: bs, mapM_eq_ok.mpr (.cons hb (mapM_eq_ok.mp hbs))⟩

/-- What is told of the results is told of what they are made from. -/
theorem map_eq_of_mapM {γ : Type} {f : α → Except ε β} {as : List α} {bs : List β} {g : β → γ} {g' : α → γ}
    (h : as.mapM f = .ok bs) (hg : ∀ a b, f a = .ok b → g b = g' a) : bs.map g = as.map g' := by
  have hall := mapM_eq_ok.mp h
  clear h
  induction hall with
  | nil => rfl
  | cons hab _ ih => rw [List.map_cons, List.map_cons, hg _ _ hab, ih]

/-- The same for `Option`. -/
theorem mapM_eq_some {f : α → Option β} {as : List α} {bs : List β} :
    as.mapM f = some bs ↔ List.Forall₂ (fun a b => f a = some b) as bs := by
  induction as generalizing bs with
  | nil => cases bs <;> simp
  | cons a as ih =>
      rw [List.mapM_cons]
      simp only [Option.bind_eq_bind, Option.bind_eq_some_iff, ih]
      constructor
      · rintro ⟨b, hb, rest, hrest, heq⟩
        obtain rfl := Option.some.inj heq
        exact .cons hb hrest
      · intro hall
        obtain ⟨b, rest, hb, hrest, rfl⟩ := List.forall₂_cons_left_iff.mp hall
        exact ⟨b, hb, rest, hrest, rfl⟩

/-- The results are those of the elements. -/
theorem mem_of_mapM_eq_some {f : α → Option β} {as : List α} {bs : List β} (h : as.mapM f = some bs) (b : β) :
    b ∈ bs ↔ ∃ a ∈ as, f a = some b := by
  induction mapM_eq_some.mp h with
  | nil => simp
  | @cons a b' as bs hab hall ih =>
      rw [List.mem_cons, ih (mapM_eq_some.mpr hall)]
      constructor
      · rintro (rfl | ⟨a', ha', hb⟩)
        · exact ⟨a, List.mem_cons_self, hab⟩
        · exact ⟨a', List.mem_cons_of_mem _ ha', hb⟩
      · rintro ⟨a', ha', hb⟩
        rcases List.mem_cons.mp ha' with rfl | ha'
        · exact .inl (Option.some.inj (hb.symm.trans hab))
        · exact .inr ⟨a', ha', hb⟩

theorem exists_of_mem_of_mapM {f : α → Option β} {as : List α} {bs : List β} (h : as.mapM f = some bs) {a : α}
    (ha : a ∈ as) : ∃ b, f a = some b := by
  induction mapM_eq_some.mp h with
  | nil => exact absurd ha List.not_mem_nil
  | cons hab hall ih =>
      rcases List.mem_cons.mp ha with rfl | ha
      · exact ⟨_, hab⟩
      · exact ih (mapM_eq_some.mpr hall) ha

theorem exists_of_mapM_eq_none {f : α → Option β} {as : List α} (h : as.mapM f = none) :
    ∃ a ∈ as, f a = none := by
  by_contra hall
  push Not at hall
  have hsome : ∀ as' : List α, (∀ a ∈ as', f a ≠ none) → ∃ bs, as'.mapM f = some bs := by
    intro as' has'
    induction as' with
    | nil => exact ⟨[], rfl⟩
    | cons a as' ih =>
        obtain ⟨b, hb⟩ := Option.ne_none_iff_exists'.mp (has' a List.mem_cons_self)
        obtain ⟨bs, hbs⟩ := ih fun x hx => has' x (List.mem_cons_of_mem _ hx)
        exact ⟨b :: bs, mapM_eq_some.mpr (.cons hb (mapM_eq_some.mp hbs))⟩
  obtain ⟨bs, hbs⟩ := hsome as hall
  rw [h] at hbs
  cases hbs

end EveBox.Rust
