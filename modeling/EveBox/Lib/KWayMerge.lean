import Mathlib.Algebra.GroupWithZero.Nat
import Mathlib.Data.Prod.Lex
import Mathlib.Data.List.Basic
import Mathlib.Order.Basic

/-!
# Merging block queues by their least head

A *block queue* is a list of blocks, each a list of items read front to back. `merge` repeatedly takes
the queue whose head has the least `(key, index)`. The first item taken fixes the output's tag; an item
of another tag is dropped together with what is left of its block.

* `projection_merge` — the output restricted to one queue is that queue's items of the output's tag.
* `pairwise_merge` — if every queue is non-decreasing in the key, the output is sorted by `(key, index)`.
-/

namespace KWayMerge

variable {α κ τ : Type*}

/-- One queue with its head taken out: the head, the rest of the head's block, and the later blocks. -/
structure Cursor (α : Type*) where
  pending : Option α
  block : List α
  later : List (List α)

/-- Take the head of the first non-empty block. -/
def Cursor.fill : List α → List (List α) → Cursor α
  | x :: block, later => ⟨some x, block, later⟩
  | [], [] => ⟨none, [], []⟩
  | [], block :: later => Cursor.fill block later

/-- Move on to the next item of the queue. -/
def Cursor.advance (c : Cursor α) : Cursor α := Cursor.fill c.block c.later

/-- Drop the rest of the head's block, then move on. -/
def Cursor.skip (c : Cursor α) : Cursor α := Cursor.fill [] c.later

/-- Everything the queue still holds, head first. -/
def Cursor.remaining (c : Cursor α) : List α := c.pending.toList ++ (c.block ++ c.later.flatten)

/-- A cursor without a head has nothing left. -/
def Cursor.Drained (c : Cursor α) : Prop := c.pending = none → c.remaining = []

theorem Cursor.remaining_fill (block : List α) (later : List (List α)) :
    (Cursor.fill block later).remaining = block ++ later.flatten := by
  induction later generalizing block with
  | nil => cases block <;> simp [Cursor.fill, Cursor.remaining]
  | cons b later ih =>
      cases block with
      | nil => simp [Cursor.fill, ih]
      | cons x xs => simp [Cursor.fill, Cursor.remaining]

theorem Cursor.drained_fill (block : List α) (later : List (List α)) :
    (Cursor.fill block later).Drained := by
  induction later generalizing block with
  | nil => cases block <;> simp [Cursor.fill, Cursor.Drained, Cursor.remaining]
  | cons b later ih =>
      cases block with
      | nil => exact ih b
      | cons x xs => simp [Cursor.fill, Cursor.Drained]

/-- Empty blocks do not matter to `fill`. -/
theorem Cursor.fill_nil_cons (block : List α) (later : List (List α)) :
    Cursor.fill [] (block :: later) = Cursor.fill block later := rfl

/-- The blocks of a queue carry one tag each: two items of one block have the same tag. -/
def Homogeneous (tag : α → τ) (block : List α) : Prop := ∀ x ∈ block, ∀ y ∈ block, tag x = tag y

/-- The head and the rest of its block carry one tag, and so does each later block. -/
structure Cursor.Tagged (tag : α → τ) (c : Cursor α) : Prop where
  block : ∀ p, c.pending = some p → ∀ x ∈ c.block, tag x = tag p
  later : ∀ b ∈ c.later, Homogeneous tag b

theorem Cursor.tagged_fill {tag : α → τ} {block : List α} {later : List (List α)}
    (hblock : Homogeneous tag block) (hlater : ∀ b ∈ later, Homogeneous tag b) :
    (Cursor.fill block later).Tagged tag := by
  induction later generalizing block with
  | nil =>
      cases block with
      | nil => exact ⟨by simp [Cursor.fill], by simp [Cursor.fill]⟩
      | cons x xs =>
          refine ⟨?_, by simp [Cursor.fill]⟩
          rintro p hp y hy
          obtain rfl : x = p := by simpa [Cursor.fill] using hp
          exact hblock y (List.mem_cons_of_mem _ hy) x List.mem_cons_self
  | cons b later ih =>
      cases block with
      | nil => exact ih (hlater b (by simp)) fun b' hb' => hlater b' (by simp [hb'])
      | cons x xs =>
          refine ⟨?_, hlater⟩
          rintro p hp y hy
          obtain rfl : x = p := by simpa [Cursor.fill] using hp
          exact hblock y (List.mem_cons_of_mem _ hy) x List.mem_cons_self

/-- The block a cursor is in is homogeneous once the head is gone. -/
theorem Cursor.Tagged.homogeneous_block {tag : α → τ} {c : Cursor α} (h : c.Tagged tag) {p : α}
    (hp : c.pending = some p) : Homogeneous tag c.block :=
  fun x hx y hy => (h.block p hp x hx).trans (h.block p hp y hy).symm

/-! ## The merge loop -/

/-- The merge loop's state: the queues, the output's tag once fixed, and the output. -/
structure State (α τ : Type*) where
  cursors : List (Cursor α)
  tag : Option τ
  out : List (ℕ × α)

/-- The `(key, index)` of every queue that has a head, for the queues numbered from `n` on. -/
def candidatesFrom (key : α → κ) (n : ℕ) : List (Cursor α) → List (κ ×ₗ ℕ)
  | [] => []
  | c :: cs => (c.pending.map fun p => toLex (key p, n)).toList ++ candidatesFrom key (n + 1) cs

/-- The `(key, index)` of every queue that has a head. -/
def candidates (key : α → κ) (cs : List (Cursor α)) : List (κ ×ₗ ℕ) := candidatesFrom key 0 cs

theorem mem_candidatesFrom (key : α → κ) (n : ℕ) (cs : List (Cursor α)) (k : κ ×ₗ ℕ) :
    k ∈ candidatesFrom key n cs ↔
      ∃ i c p, cs[i]? = some c ∧ c.pending = some p ∧ k = toLex (key p, n + i) := by
  induction cs generalizing n with
  | nil => simp [candidatesFrom]
  | cons d cs ih =>
      simp only [candidatesFrom, List.mem_append, ih, Option.mem_toList, Option.map_eq_some_iff]
      constructor
      · rintro (⟨p, hp, rfl⟩ | ⟨i, c, p, hc, hp, rfl⟩)
        · exact ⟨0, d, p, rfl, hp, rfl⟩
        · exact ⟨i + 1, c, p, by simpa using hc, hp, by rw [show n + 1 + i = n + (i + 1) by omega]⟩
      · rintro ⟨i, c, p, hc, hp, rfl⟩
        match i with
        | 0 =>
            obtain rfl : d = c := by simpa using hc
            exact Or.inl ⟨p, hp, rfl⟩
        | i + 1 =>
            refine Or.inr ⟨i, c, p, by simpa using hc, hp, ?_⟩
            rw [show n + 1 + i = n + (i + 1) by omega]

/-- A candidate is the `(key, index)` of a queue's head. -/
theorem mem_candidates (key : α → κ) (cs : List (Cursor α)) (k : κ ×ₗ ℕ) :
    k ∈ candidates key cs ↔
      ∃ i c p, cs[i]? = some c ∧ c.pending = some p ∧ k = toLex (key p, i) := by
  simp [candidates, mem_candidatesFrom]

theorem candidatesFrom_append (key : α → κ) (n : ℕ) (cs ds : List (Cursor α)) :
    candidatesFrom key n (cs ++ ds) =
      candidatesFrom key n cs ++ candidatesFrom key (n + cs.length) ds := by
  induction cs generalizing n with
  | nil => simp [candidatesFrom]
  | cons c cs ih =>
      simp only [List.cons_append, candidatesFrom, ih, List.append_assoc, List.length_cons]
      rw [show n + 1 + cs.length = n + (cs.length + 1) by omega]

theorem candidatesFrom_set [DecidableEq κ] (key : α → κ) (n : ℕ) {cs : List (Cursor α)} {i : ℕ}
    {c d : Cursor α} {p : α} (hc : cs[i]? = some c) (hp : c.pending = some p) :
    (candidatesFrom key n (cs.set i d)).Perm
      ((d.pending.map fun q => toLex (key q, n + i)).toList ++
        (candidatesFrom key n cs).erase (toLex (key p, n + i))) := by
  induction cs generalizing n i with
  | nil => simp at hc
  | cons e cs ih =>
      match i with
      | 0 =>
          obtain rfl : e = c := by simpa using hc
          simp [candidatesFrom, hp]
      | i + 1 =>
          have hrec := ih (n + 1) (i := i) (by simpa using hc)
          rw [show n + 1 + i = n + (i + 1) by omega] at hrec
          -- the entry of queue `i + 1` is not the one of the first queue
          have hne : toLex (key p, n + (i + 1)) ∉
              (e.pending.map fun q => toLex (key q, n)).toList := by
            intro hmem
            rw [Option.mem_toList, Option.map_eq_some_iff] at hmem
            obtain ⟨q, -, hq⟩ := hmem
            have := congrArg (fun k => (ofLex k).2) hq
            simp at this
          rw [List.set_cons_succ, candidatesFrom, candidatesFrom, List.erase_append_right _ hne]
          refine (hrec.append_left _).trans ?_
          rw [← List.append_assoc, ← List.append_assoc]
          exact List.perm_append_comm.append_right _

/-- Replacing queue `i` by `d` replaces its candidate by `d`'s. -/
theorem candidates_set [DecidableEq κ] (key : α → κ) {cs : List (Cursor α)} {i : ℕ}
    {c d : Cursor α} {p : α} (hc : cs[i]? = some c) (hp : c.pending = some p) :
    (candidates key (cs.set i d)).Perm
      ((d.pending.map fun q => toLex (key q, i)).toList ++
        (candidates key cs).erase (toLex (key p, i))) := by
  simpa [candidates] using candidatesFrom_set key 0 (d := d) hc hp

/-- The number of items the queues still hold. -/
def weight (cs : List (Cursor α)) : ℕ := (cs.map fun c => c.remaining.length).sum

theorem weight_set {cs : List (Cursor α)} {i : ℕ} {c d : Cursor α} (hc : cs[i]? = some c)
    (hlt : d.remaining.length < c.remaining.length) : weight (cs.set i d) < weight cs := by
  induction cs generalizing i with
  | nil => simp at hc
  | cons e cs ih =>
      match i with
      | 0 =>
          obtain rfl : e = c := by simpa using hc
          simp only [weight, List.set_cons_zero, List.map_cons, List.sum_cons]
          omega
      | i + 1 =>
          have := ih (i := i) (by simpa using hc)
          simp only [weight, List.set_cons_succ, List.map_cons, List.sum_cons] at this ⊢
          omega

theorem Cursor.remaining_of_pending {c : Cursor α} {p : α} (hp : c.pending = some p) :
    c.remaining = p :: (c.block ++ c.later.flatten) := by
  simp [Cursor.remaining, hp]

theorem Cursor.remaining_advance (c : Cursor α) : c.advance.remaining = c.block ++ c.later.flatten :=
  Cursor.remaining_fill _ _

theorem Cursor.remaining_skip (c : Cursor α) : c.skip.remaining = c.later.flatten := by
  rw [Cursor.skip, Cursor.remaining_fill, List.nil_append]

section Loop

variable [LinearOrder κ] [DecidableEq τ] (key : α → κ) (tag : α → τ)

/-- Handle the head `p` of queue `i`: write it, or skip its block when the tag does not agree. -/
def take (s : State α τ) (i : ℕ) (c : Cursor α) (p : α) : State α τ :=
  match s.tag with
  | some t =>
      if tag p ≠ t then { s with cursors := s.cursors.set i c.skip }
      else { s with cursors := s.cursors.set i c.advance, out := s.out ++ [(i, p)] }
  | none =>
      { cursors := s.cursors.set i c.advance, tag := some (tag p), out := s.out ++ [(i, p)] }

/-- One turn of the merge loop: handle the least head, or stop when no queue has one. -/
def step (s : State α τ) : Option (State α τ) :=
  match (candidates key s.cursors).min? with
  | none => none
  | some k =>
      match s.cursors[(ofLex k).2]? with
      | none => none
      | some c =>
          match c.pending with
          | none => none
          | some p => some (take tag s (ofLex k).2 c p)

theorem step_of_min?_none {s : State α τ} (h : (candidates key s.cursors).min? = none) :
    step key tag s = none := by
  unfold step
  rw [h]

/-- The least candidate is the head the turn handles. -/
theorem step_of_min?_some {s : State α τ} {k : κ ×ₗ ℕ}
    (h : (candidates key s.cursors).min? = some k) :
    ∃ i c p, s.cursors[i]? = some c ∧ c.pending = some p ∧ k = toLex (key p, i) ∧
      step key tag s = some (take tag s i c p) := by
  obtain ⟨i, c, p, hc, hp, rfl⟩ := (mem_candidates key _ _).mp (List.min?_eq_some_iff.mp h).1
  refine ⟨i, c, p, hc, hp, rfl, ?_⟩
  unfold step
  simp only [h, ofLex_toLex, hc, hp]

/-- What one turn does: it handles the head of a queue whose `(key, index)` is least among all heads. -/
theorem step_cases {s s' : State α τ} (h : step key tag s = some s') :
    ∃ i c p, s.cursors[i]? = some c ∧ c.pending = some p ∧ s' = take tag s i c p ∧
      ∀ j d q, s.cursors[j]? = some d → d.pending = some q →
        toLex (key p, i) ≤ toLex (key q, j) := by
  cases hk : (candidates key s.cursors).min? with
  | none =>
      rw [step_of_min?_none key tag hk] at h
      cases h
  | some k =>
      obtain ⟨i, c, p, hc, hp, rfl, hstep⟩ := step_of_min?_some key tag hk
      rw [hstep, Option.some.injEq] at h
      refine ⟨i, c, p, hc, hp, h.symm, ?_⟩
      intro j d q hd hq
      exact (List.min?_eq_some_iff.mp hk).2 _ ((mem_candidates key _ _).mpr ⟨j, d, q, hd, hq, rfl⟩)

/-- The loop stops only when no queue has a head. -/
theorem pending_of_step_eq_none {s : State α τ} (h : step key tag s = none) {i : ℕ} {c : Cursor α}
    (hc : s.cursors[i]? = some c) : c.pending = none := by
  cases hk : (candidates key s.cursors).min? with
  | none =>
      rw [List.min?_eq_none_iff] at hk
      by_contra hne
      obtain ⟨p, hp⟩ := Option.ne_none_iff_exists'.mp hne
      have hmem := (mem_candidates key _ _).mpr ⟨i, c, p, hc, hp, rfl⟩
      rw [hk] at hmem
      exact absurd hmem List.not_mem_nil
  | some k =>
      obtain ⟨j, d, q, -, -, -, hstep⟩ := step_of_min?_some key tag hk
      rw [hstep] at h
      cases h

/-- Every turn uses up at least one item. -/
theorem weight_step {s s' : State α τ} (h : step key tag s = some s') :
    weight s'.cursors < weight s.cursors := by
  obtain ⟨i, c, p, hc, hp, rfl, -⟩ := step_cases key tag h
  have hadv : c.advance.remaining.length < c.remaining.length := by
    rw [Cursor.remaining_advance, Cursor.remaining_of_pending hp]
    simp
  have hskip : c.skip.remaining.length < c.remaining.length := by
    rw [Cursor.remaining_skip, Cursor.remaining_of_pending hp]
    simp only [List.length_cons, List.length_append]
    omega
  unfold take
  split
  · split
    · exact weight_set hc hskip
    · exact weight_set hc hadv
  · exact weight_set hc hadv

/-- Run the loop until no queue has a head. -/
def merge (s : State α τ) : State α τ :=
  match _h : step key tag s with
  | none => s
  | some s' => merge s'
termination_by weight s.cursors
decreasing_by exact weight_step key tag _h

theorem merge_of_step_none {s : State α τ} (h : step key tag s = none) : merge key tag s = s := by
  rw [merge]
  split
  · rfl
  · rename_i hs; rw [h] at hs; cases hs

theorem merge_of_step_some {s s' : State α τ} (h : step key tag s = some s') :
    merge key tag s = merge key tag s' := by
  rw [merge]
  split
  · rename_i hs; rw [h] at hs; cases hs
  · rename_i hs; rw [h] at hs; cases hs; rfl

/-- What every turn preserves holds of the final state, where moreover no queue has a head. -/
theorem merge_induction {P : State α τ → Prop}
    (hstep : ∀ s s', P s → step key tag s = some s' → P s') (s : State α τ) (hs : P s) :
    P (merge key tag s) ∧ step key tag (merge key tag s) = none := by
  induction s using merge.induct key tag with
  | case1 s h => rw [merge_of_step_none key tag h]; exact ⟨hs, h⟩
  | case2 s s' h ih => rw [merge_of_step_some key tag h]; exact ih (hstep s s' hs h)

end Loop

/-! ## What the merge writes -/

/-- The part of an indexed output that comes from queue `i`. -/
def projection (i : ℕ) (out : List (ℕ × α)) : List α := (out.filter (·.1 = i)).map (·.2)

@[simp] theorem projection_nil (i : ℕ) : projection i ([] : List (ℕ × α)) = [] := rfl

@[simp] theorem projection_append (i : ℕ) (a b : List (ℕ × α)) :
    projection i (a ++ b) = projection i a ++ projection i b := by
  simp [projection]

@[simp] theorem projection_singleton_self (i : ℕ) (p : α) : projection i [(i, p)] = [p] := by
  simp [projection]

theorem projection_singleton_of_ne {i j : ℕ} (h : j ≠ i) (p : α) : projection i [(j, p)] = [] := by
  simp [projection, h]

/-- The items a merge of output tag `t` keeps; before a tag is fixed, all of them. -/
def keep [DecidableEq τ] (tag : α → τ) : Option τ → α → Bool
  | none, _ => true
  | some t, x => tag x = t

@[simp] theorem filter_keep_none [DecidableEq τ] (tag : α → τ) (xs : List α) :
    xs.filter (keep tag none) = xs := by
  simp [keep]

/-- The items of queue `i`, in order. -/
def items (queues : List (List (List α))) (i : ℕ) : List α := (queues[i]?.getD []).flatten

/-- The loop's start: every queue with its first item taken out. -/
def State.init (queues : List (List (List α))) : State α τ :=
  ⟨queues.map (Cursor.fill []), none, []⟩

theorem State.init_cursor {queues : List (List (List α))} {i : ℕ} {c : Cursor α}
    (hc : (State.init queues : State α τ).cursors[i]? = some c) :
    ∃ q, queues[i]? = some q ∧ c = Cursor.fill [] q := by
  simp only [State.init, List.getElem?_map, Option.map_eq_some_iff] at hc
  obtain ⟨q, hq, rfl⟩ := hc
  exact ⟨q, hq, rfl⟩

section Invariant

variable {tag : α → τ}

theorem Cursor.tagged_advance {c : Cursor α} {p : α} (h : c.Tagged tag) (hp : c.pending = some p) :
    c.advance.Tagged tag :=
  Cursor.tagged_fill (h.homogeneous_block hp) h.later

theorem Cursor.tagged_skip {c : Cursor α} (h : c.Tagged tag) : c.skip.Tagged tag :=
  Cursor.tagged_fill (by simp [Homogeneous]) h.later

variable [DecidableEq τ]

/-- The invariant of the merge loop. The last field is the conservation law: what queue `i` has written
and what it still holds make up its items, up to the items of other tags. -/
structure Inv (tag : α → τ) (queues : List (List (List α))) (s : State α τ) : Prop where
  length : s.cursors.length = queues.length
  index : ∀ w ∈ s.out, w.1 < queues.length
  drained : ∀ (i : ℕ) (c : Cursor α), s.cursors[i]? = some c → c.Drained
  tagged : ∀ (i : ℕ) (c : Cursor α), s.cursors[i]? = some c → c.Tagged tag
  sublist : ∀ (i : ℕ) (c : Cursor α), s.cursors[i]? = some c →
    c.remaining.Sublist (items queues i)
  head : s.tag = s.out.head?.map fun w => tag w.2
  conserved : ∀ (i : ℕ) (c : Cursor α), s.cursors[i]? = some c →
    projection i s.out ++ c.remaining.filter (keep tag s.tag) = (items queues i).filter (keep tag s.tag)

theorem Inv.init {queues : List (List (List α))}
    (htag : ∀ q ∈ queues, ∀ b ∈ q, Homogeneous tag b) : Inv tag queues (State.init queues) where
  length := by simp [State.init]
  index := by simp [State.init]
  drained := by
    intro i c hc
    obtain ⟨q, -, rfl⟩ := State.init_cursor hc
    exact Cursor.drained_fill [] q
  tagged := by
    intro i c hc
    obtain ⟨q, hq, rfl⟩ := State.init_cursor hc
    exact Cursor.tagged_fill (by simp [Homogeneous]) (htag q (List.mem_of_getElem? hq))
  sublist := by
    intro i c hc
    obtain ⟨q, hq, rfl⟩ := State.init_cursor hc
    rw [Cursor.remaining_fill]
    simp [items, hq]
  head := rfl
  conserved := by
    intro i c hc
    obtain ⟨q, hq, rfl⟩ := State.init_cursor hc
    rw [Cursor.remaining_fill]
    simp [items, hq, State.init]

/-- The state in which queue `i` has moved on to `d` and the rest is as before. -/
theorem getElem?_set_cases {cs : List (Cursor α)} {i j : ℕ} {d e : Cursor α}
    (h : (cs.set i d)[j]? = some e) : (j = i ∧ e = d) ∨ (j ≠ i ∧ cs[j]? = some e) := by
  rw [List.getElem?_set] at h
  split at h
  · rename_i hij
    subst hij
    split at h
    · exact Or.inl ⟨rfl, (Option.some.inj h).symm⟩
    · cases h
  · rename_i hij
    exact Or.inr ⟨fun h' => hij h'.symm, h⟩

/-- Skipping a block of another tag loses no item of the output's tag. -/
theorem Cursor.filter_remaining_skip {c : Cursor α} {p : α} {t : τ} (h : c.Tagged tag)
    (hp : c.pending = some p) (ht : tag p ≠ t) :
    c.skip.remaining.filter (keep tag (some t)) = c.remaining.filter (keep tag (some t)) := by
  have hblock : c.block.filter (keep tag (some t)) = [] := by
    rw [List.filter_eq_nil_iff]
    intro x hx
    simp [keep, h.block p hp x hx, ht]
  rw [Cursor.remaining_skip, Cursor.remaining_of_pending hp, List.filter_cons, List.filter_append,
    hblock]
  simp [keep, ht]

/-- Skipping keeps the invariant. -/
theorem Inv.skip {queues : List (List (List α))} {s : State α τ} (inv : Inv tag queues s) {i : ℕ}
    {c : Cursor α} {p : α} {t : τ} (hc : s.cursors[i]? = some c) (hp : c.pending = some p)
    (hs : s.tag = some t) (ht : tag p ≠ t) :
    Inv tag queues { s with cursors := s.cursors.set i c.skip } where
  length := by simpa using inv.length
  index := inv.index
  drained := by
    intro j e he
    obtain ⟨rfl, rfl⟩ | ⟨-, he⟩ := getElem?_set_cases he
    · exact Cursor.drained_fill _ _
    · exact inv.drained j e he
  tagged := by
    intro j e he
    obtain ⟨rfl, rfl⟩ | ⟨-, he⟩ := getElem?_set_cases he
    · exact Cursor.tagged_skip (inv.tagged _ c hc)
    · exact inv.tagged j e he
  sublist := by
    intro j e he
    obtain ⟨rfl, rfl⟩ | ⟨-, he⟩ := getElem?_set_cases he
    · refine List.Sublist.trans ?_ (inv.sublist _ c hc)
      rw [Cursor.remaining_skip, Cursor.remaining_of_pending hp]
      exact ((List.sublist_append_right _ _).cons p)
    · exact inv.sublist j e he
  head := inv.head
  conserved := by
    intro j e he
    obtain ⟨rfl, rfl⟩ | ⟨-, he⟩ := getElem?_set_cases he
    · have h := inv.conserved _ c hc
      simp only [hs] at h ⊢
      rw [Cursor.filter_remaining_skip (inv.tagged _ c hc) hp ht, h]
    · exact inv.conserved j e he

/-- Writing a head of the output's tag (or the first head of all) keeps the invariant. -/
theorem Inv.write {queues : List (List (List α))} {s : State α τ} (inv : Inv tag queues s) {i : ℕ}
    {c : Cursor α} {p : α} (hc : s.cursors[i]? = some c) (hp : c.pending = some p)
    (ht : s.tag = none ∨ s.tag = some (tag p)) :
    Inv tag queues { cursors := s.cursors.set i c.advance, tag := some (tag p),
                     out := s.out ++ [(i, p)] } where
  length := by simpa using inv.length
  index := by
    intro w hw
    rcases List.mem_append.mp hw with hw | hw
    · exact inv.index w hw
    · obtain rfl : w = (i, p) := by simpa using hw
      rw [← inv.length]
      exact (List.getElem?_eq_some_iff.mp hc).1
  drained := by
    intro j e he
    obtain ⟨rfl, rfl⟩ | ⟨-, he⟩ := getElem?_set_cases he
    · exact Cursor.drained_fill _ _
    · exact inv.drained j e he
  tagged := by
    intro j e he
    obtain ⟨rfl, rfl⟩ | ⟨-, he⟩ := getElem?_set_cases he
    · exact Cursor.tagged_advance (inv.tagged _ c hc) hp
    · exact inv.tagged j e he
  sublist := by
    intro j e he
    obtain ⟨rfl, rfl⟩ | ⟨-, he⟩ := getElem?_set_cases he
    · refine List.Sublist.trans ?_ (inv.sublist _ c hc)
      rw [Cursor.remaining_advance, Cursor.remaining_of_pending hp]
      exact List.sublist_cons_self _ _
    · exact inv.sublist j e he
  head := by
    have hhead := inv.head
    cases hout : s.out with
    | nil => simp
    | cons w out =>
        rw [hout] at hhead
        rcases ht with ht | ht <;> rw [ht] at hhead <;> simp_all
  conserved := by
    intro j e he
    -- before a tag is fixed nothing is written, and every queue still holds all its items
    have hkeep : ∀ k d, s.cursors[k]? = some d →
        projection k s.out ++ d.remaining.filter (keep tag (some (tag p))) =
          (items queues k).filter (keep tag (some (tag p))) := by
      intro k d hd
      have h := inv.conserved k d hd
      rcases ht with ht | ht
      · have hout : s.out = [] := by
          have hhead := inv.head
          rw [ht, eq_comm, Option.map_eq_none_iff] at hhead
          exact List.head?_eq_none_iff.mp hhead
        rw [ht, hout] at h
        simp only [filter_keep_none, projection_nil, List.nil_append] at h
        rw [hout, projection_nil, List.nil_append, h]
      · rwa [ht] at h
    obtain ⟨rfl, rfl⟩ | ⟨hji, he⟩ := getElem?_set_cases he
    · rw [← hkeep _ c hc, Cursor.remaining_advance, Cursor.remaining_of_pending hp]
      simp [keep]
    · rw [projection_append, projection_singleton_of_ne (Ne.symm hji), List.append_nil]
      exact hkeep j e he

theorem Inv.take {queues : List (List (List α))} {s : State α τ} (inv : Inv tag queues s) {i : ℕ}
    {c : Cursor α} {p : α} (hc : s.cursors[i]? = some c) (hp : c.pending = some p) :
    Inv tag queues (take tag s i c p) := by
  cases hs : s.tag with
  | none =>
      simp only [KWayMerge.take, hs]
      exact inv.write hc hp (Or.inl hs)
  | some t =>
      by_cases ht : tag p = t
      · subst ht
        have hwrite := inv.write hc hp (Or.inr hs)
        simpa only [KWayMerge.take, hs, ne_eq, not_true_eq_false, if_false] using hwrite
      · have hskip := inv.skip hc hp hs ht
        simpa only [KWayMerge.take, hs, ne_eq, ht, not_false_eq_true, if_true] using hskip

variable [LinearOrder κ] (key : α → κ)

theorem Inv.step {queues : List (List (List α))} {s s' : State α τ} (inv : Inv tag queues s)
    (h : step key tag s = some s') : Inv tag queues s' := by
  obtain ⟨i, c, p, hc, hp, rfl, -⟩ := step_cases key tag h
  exact inv.take hc hp

/-- The invariant holds of the merge's result, and every queue is used up there. -/
theorem Inv.merge {queues : List (List (List α))}
    (htag : ∀ q ∈ queues, ∀ b ∈ q, Homogeneous tag b) :
    Inv tag queues (merge key tag (State.init queues)) ∧
      ∀ (i : ℕ) (c : Cursor α),
        (KWayMerge.merge key tag (State.init queues)).cursors[i]? = some c → c.remaining = [] := by
  obtain ⟨inv, hnone⟩ := merge_induction key tag (P := Inv tag queues)
    (fun _ _ inv h => inv.step key h) (State.init queues) (Inv.init htag)
  refine ⟨inv, ?_⟩
  intro i c hc
  exact inv.drained i c hc (pending_of_step_eq_none key tag hnone hc)

/-- Without loss or duplication: the output's part from queue `i` is the list of that queue's items that
carry the tag of the first item written; and if nothing is written, there was nothing to write. -/
theorem projection_merge {queues : List (List (List α))}
    (htag : ∀ q ∈ queues, ∀ b ∈ q, Homogeneous tag b) (i : ℕ) :
    projection i (merge key tag (State.init queues)).out =
      (items queues i).filter
        (keep tag ((merge key tag (State.init queues)).out.head?.map fun w => tag w.2)) := by
  obtain ⟨inv, hempty⟩ := Inv.merge key htag
  rw [← inv.head]
  by_cases hi : i < (merge key tag (State.init queues)).cursors.length
  · have hc := List.getElem?_eq_getElem hi
    have h := inv.conserved i _ hc
    rwa [hempty i _ hc, List.filter_nil, List.append_nil] at h
  · have hq : queues[i]? = none := by
      rw [List.getElem?_eq_none_iff]
      have := inv.length
      omega
    have hout : projection i (merge key tag (State.init queues)).out = [] := by
      rw [projection, List.map_eq_nil_iff, List.filter_eq_nil_iff]
      intro w hw hwi
      have := inv.index w hw
      rw [List.getElem?_eq_none_iff] at hq
      simp only [decide_eq_true_eq] at hwi
      omega
    rw [hout]
    simp [items, hq]

/-! ## Order -/

/-- The output is sorted by `(key, index)`, and nothing a queue still holds comes before it. -/
structure Sorted (key : α → κ) (s : State α τ) : Prop where
  out : s.out.Pairwise fun v w => toLex (key v.2, v.1) ≤ toLex (key w.2, w.1)
  ahead : ∀ w ∈ s.out, ∀ (i : ℕ) (c : Cursor α), s.cursors[i]? = some c →
    ∀ x ∈ c.remaining, toLex (key w.2, w.1) ≤ toLex (key x, i)

/-- The `(key, index)` order is the key's order within one queue. -/
theorem toLex_le_toLex_of_le {a b : κ} (i : ℕ) (h : a ≤ b) : toLex (a, i) ≤ toLex (b, i) := by
  rw [Prod.Lex.toLex_le_toLex]
  rcases h.lt_or_eq with h | h
  · exact Or.inl h
  · exact Or.inr ⟨h, le_refl i⟩

theorem Sorted.step {queues : List (List (List α))} {s s' : State α τ} (inv : Inv tag queues s)
    (hkey : ∀ i, (items queues i).Pairwise fun x y => key x ≤ key y) (sorted : Sorted key s)
    (h : KWayMerge.step key tag s = some s') : Sorted key s' := by
  obtain ⟨i, c, p, hc, hp, rfl, hmin⟩ := step_cases key tag h
  -- the head that was taken comes before everything any queue holds
  have hhead : ∀ (j : ℕ) (d : Cursor α), s.cursors[j]? = some d → ∀ x ∈ d.remaining,
      toLex (key p, i) ≤ toLex (key x, j) := by
    intro j d hd x hx
    cases hq : d.pending with
    | none =>
        rw [inv.drained j d hd hq] at hx
        cases hx
    | some q =>
        refine le_trans (hmin j d q hd hq) (toLex_le_toLex_of_le j ?_)
        rw [Cursor.remaining_of_pending hq] at hx
        rcases List.mem_cons.mp hx with rfl | hx
        · exact le_refl _
        · have hsub := inv.sublist j d hd
          rw [Cursor.remaining_of_pending hq] at hsub
          exact (List.pairwise_cons.mp ((hkey j).sublist hsub)).1 x hx
  -- a queue that moves on holds a part of what it held
  have hmoved : ∀ (d : Cursor α), (∀ x ∈ d.remaining, x ∈ c.remaining) →
      ∀ (j : ℕ) (e : Cursor α), (s.cursors.set i d)[j]? = some e → ∀ x ∈ e.remaining,
        ∃ f, s.cursors[j]? = some f ∧ x ∈ f.remaining := by
    intro d hd j e he x hx
    obtain ⟨rfl, rfl⟩ | ⟨-, he⟩ := getElem?_set_cases he
    · exact ⟨c, hc, hd x hx⟩
    · exact ⟨e, he, hx⟩
  have hadvance : ∀ x ∈ c.advance.remaining, x ∈ c.remaining := by
    intro x hx
    rw [Cursor.remaining_advance] at hx
    rw [Cursor.remaining_of_pending hp]
    exact List.mem_cons_of_mem _ hx
  have hskip : ∀ x ∈ c.skip.remaining, x ∈ c.remaining := by
    intro x hx
    rw [Cursor.remaining_skip] at hx
    rw [Cursor.remaining_of_pending hp]
    exact List.mem_cons_of_mem _ (List.mem_append_right _ hx)
  have hwrite : ∀ t : Option τ,
      Sorted key { cursors := s.cursors.set i c.advance, tag := t, out := s.out ++ [(i, p)] } := by
    intro t
    constructor
    · rw [List.pairwise_append]
      refine ⟨sorted.out, List.pairwise_singleton _ _, ?_⟩
      intro v hv w hw
      obtain rfl : w = (i, p) := by simpa using hw
      refine sorted.ahead v hv i c hc p ?_
      rw [Cursor.remaining_of_pending hp]
      exact List.mem_cons_self
    · intro w hw j e he x hx
      obtain ⟨f, hf, hx⟩ := hmoved _ hadvance j e he x hx
      rcases List.mem_append.mp hw with hw | hw
      · exact sorted.ahead w hw j f hf x hx
      · obtain rfl : w = (i, p) := by simpa using hw
        exact hhead j f hf x hx
  unfold KWayMerge.take
  split
  · split
    · refine ⟨sorted.out, ?_⟩
      intro w hw j e he x hx
      obtain ⟨f, hf, hx⟩ := hmoved _ hskip j e he x hx
      exact sorted.ahead w hw j f hf x hx
    · exact hwrite _
  · exact hwrite _

/-- If every queue is non-decreasing in the key, the merge's output is sorted by `(key, index)`. -/
theorem pairwise_merge {queues : List (List (List α))}
    (htag : ∀ q ∈ queues, ∀ b ∈ q, Homogeneous tag b)
    (hkey : ∀ i, (items queues i).Pairwise fun x y => key x ≤ key y) :
    (merge key tag (State.init queues)).out.Pairwise fun v w =>
      toLex (key v.2, v.1) ≤ toLex (key w.2, w.1) := by
  refine (merge_induction key tag (P := fun s => Inv tag queues s ∧ Sorted key s) ?_
    (State.init queues) ⟨Inv.init htag, ?_⟩).1.2.out
  · rintro s s' ⟨inv, sorted⟩ h
    exact ⟨inv.step key h, Sorted.step key inv hkey sorted h⟩
  · exact ⟨by simp [State.init], by simp [State.init]⟩

end Invariant

end KWayMerge
