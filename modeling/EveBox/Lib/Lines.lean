import Mathlib.Data.List.Basic

/-!
# Terminated lines

A text is a list of symbols, and `sep` ends a line. `Lines.lines` are the lines that are ended, each with its
separator, `Lines.tail` is what follows the last of them, and `Lines.pieces` are both. A reader that stands at the end of a line has
the rest of the text before it, and takes `Lines.first` of it.
-/

namespace Lines

variable {α : Type*}

/-- The text is one terminated line. -/
def IsLine (sep : α) (text : List α) : Prop := ∃ body, text = body ++ [sep] ∧ sep ∉ body

/-- A terminated line ends with the separator. -/
theorem IsLine.getLast? {sep : α} {text : List α} (h : IsLine sep text) : text.getLast? = some sep := by
  obtain ⟨body, rfl, -⟩ := h
  exact List.getLast?_concat

theorem IsLine.mem {sep : α} {text : List α} (h : IsLine sep text) : sep ∈ text := by
  obtain ⟨body, rfl, -⟩ := h
  exact List.mem_append_right _ (List.mem_singleton_self _)

variable [DecidableEq α]

/-- The lines of a text, the first of which starts with `acc`. -/
def linesFrom (sep : α) (acc : List α) : List α → List (List α)
  | [] => []
  | a :: as => if a = sep then (acc ++ [a]) :: linesFrom sep [] as else linesFrom sep (acc ++ [a]) as

/-- The terminated lines of a text, with their separators. -/
def lines (sep : α) (text : List α) : List (List α) := linesFrom sep [] text

/-- What follows the last separator, or everything after `acc`. -/
def tailFrom (sep : α) (acc : List α) : List α → List α
  | [] => acc
  | a :: as => if a = sep then tailFrom sep [] as else tailFrom sep (acc ++ [a]) as

/-- The line at the end that is not terminated. -/
def tail (sep : α) (text : List α) : List α := tailFrom sep [] text

/-- The lines of a text, and the tail if there is one. -/
def pieces (sep : α) (text : List α) : List (List α) :=
  lines sep text ++ if tail sep text = [] then [] else [tail sep text]

/-- The text up to the first separator and with it, or all of it. -/
def first (sep : α) : List α → List α
  | [] => []
  | a :: as => if a = sep then [a] else a :: first sep as

variable {sep : α}

@[simp] theorem lines_nil : lines sep [] = [] := rfl

@[simp] theorem tail_nil : tail sep [] = [] := rfl

theorem first_isPrefix (sep : α) (text : List α) : first sep text <+: text := by
  induction text with
  | nil => exact List.prefix_refl _
  | cons a as ih =>
      unfold first
      split
      · exact ⟨as, rfl⟩
      · exact List.cons_prefix_cons.mpr ⟨rfl, ih⟩

theorem first_append_drop (sep : α) (text : List α) :
    first sep text ++ text.drop (first sep text).length = text := by
  conv_rhs => rw [← List.take_append_drop (first sep text).length text]
  rw [← List.prefix_iff_eq_take.mp (first_isPrefix sep text)]

theorem first_eq_nil {text : List α} : first sep text = [] ↔ text = [] := by
  cases text with
  | nil => exact Iff.rfl
  | cons a as =>
      refine iff_of_false ?_ (List.cons_ne_nil _ _)
      unfold first
      split <;> exact List.cons_ne_nil _ _

/-- Without a separator there is no line. -/
theorem linesFrom_of_not_mem {acc text : List α} (h : sep ∉ text) :
    linesFrom sep acc text = [] ∧ tailFrom sep acc text = acc ++ text := by
  induction text generalizing acc with
  | nil => exact ⟨rfl, (List.append_nil acc).symm⟩
  | cons a as ih =>
      rw [List.mem_cons, not_or] at h
      obtain ⟨hlines, htail⟩ := @ih (acc ++ [a]) h.2
      unfold linesFrom tailFrom
      rw [if_neg (Ne.symm h.1), if_neg (Ne.symm h.1), hlines, htail]
      exact ⟨rfl, by simp⟩

theorem lines_of_not_mem {text : List α} (h : sep ∉ text) : lines sep text = [] :=
  (linesFrom_of_not_mem h).1

theorem tail_of_not_mem {text : List α} (h : sep ∉ text) : tail sep text = text :=
  (linesFrom_of_not_mem h).2

theorem first_of_not_mem {text : List α} (h : sep ∉ text) : first sep text = text := by
  induction text with
  | nil => rfl
  | cons a as ih =>
      rw [List.mem_cons, not_or] at h
      unfold first
      rw [if_neg (Ne.symm h.1), ih h.2]

/-- With a separator, the first line is what a reader takes. -/
theorem linesFrom_of_mem {acc text : List α} (h : sep ∈ text) :
    linesFrom sep acc text =
        (acc ++ first sep text) :: lines sep (text.drop (first sep text).length) ∧
      tailFrom sep acc text = tail sep (text.drop (first sep text).length) := by
  induction text generalizing acc with
  | nil => cases h
  | cons a as ih =>
      unfold linesFrom tailFrom first
      split
      · exact ⟨rfl, rfl⟩
      · rename_i ha
        have has : sep ∈ as := by
          rcases List.mem_cons.mp h with rfl | has
          · exact absurd rfl ha
          · exact has
        obtain ⟨hlines, htail⟩ := @ih (acc ++ [a]) has
        rw [hlines, htail, List.append_assoc]
        exact ⟨rfl, rfl⟩

theorem lines_of_mem {text : List α} (h : sep ∈ text) :
    lines sep text = first sep text :: lines sep (text.drop (first sep text).length) :=
  (linesFrom_of_mem h).1

theorem tail_of_mem {text : List α} (h : sep ∈ text) :
    tail sep text = tail sep (text.drop (first sep text).length) :=
  (linesFrom_of_mem h).2

theorem isLine_first {text : List α} (h : sep ∈ text) : IsLine sep (first sep text) := by
  induction text with
  | nil => cases h
  | cons a as ih =>
      unfold first
      split
      · rename_i ha
        exact ⟨[], by rw [ha]; rfl, List.not_mem_nil⟩
      · rename_i ha
        have has : sep ∈ as := by
          rcases List.mem_cons.mp h with rfl | has
          · exact absurd rfl ha
          · exact has
        obtain ⟨body, hbody, hsep⟩ := ih has
        refine ⟨a :: body, by rw [hbody]; rfl, ?_⟩
        rw [List.mem_cons, not_or]
        exact ⟨Ne.symm ha, hsep⟩

theorem IsLine.first_append {line : List α} (h : IsLine sep line) (rest : List α) :
    first sep (line ++ rest) = line := by
  obtain ⟨body, rfl, hsep⟩ := h
  induction body with
  | nil =>
      show first sep (sep :: rest) = [sep]
      unfold first
      rw [if_pos rfl]
  | cons a as ih =>
      rw [List.mem_cons, not_or] at hsep
      rw [List.cons_append, List.cons_append]
      unfold first
      rw [if_neg (Ne.symm hsep.1), ih hsep.2]

/-- A line at the front of a text is its first line. -/
theorem IsLine.lines_append {line : List α} (h : IsLine sep line) (rest : List α) :
    lines sep (line ++ rest) = line :: lines sep rest ∧ tail sep (line ++ rest) = tail sep rest := by
  have hmem : sep ∈ line ++ rest := List.mem_append_left _ h.mem
  have hdrop : (line ++ rest).drop (first sep (line ++ rest)).length = rest := by
    rw [h.first_append, List.drop_left]
  rw [lines_of_mem hmem, tail_of_mem hmem, hdrop, h.first_append]
  exact ⟨rfl, rfl⟩

/-- Lines at the front of a text are its first lines. -/
theorem lines_flatten_append {ls : List (List α)} (h : ∀ line ∈ ls, IsLine sep line) (rest : List α) :
    lines sep (ls.flatten ++ rest) = ls ++ lines sep rest ∧
      tail sep (ls.flatten ++ rest) = tail sep rest := by
  induction ls with
  | nil => exact ⟨rfl, rfl⟩
  | cons line ls ih =>
      obtain ⟨hlines, htail⟩ := ih fun l hl => h l (List.mem_cons_of_mem _ hl)
      rw [List.flatten_cons, List.append_assoc]
      obtain ⟨hlines', htail'⟩ := (h line List.mem_cons_self).lines_append (ls.flatten ++ rest)
      rw [hlines', htail', hlines, htail]
      exact ⟨rfl, rfl⟩

theorem lines_flatten {ls : List (List α)} (h : ∀ line ∈ ls, IsLine sep line) :
    lines sep ls.flatten = ls := by
  have hlines := (lines_flatten_append h []).1
  rw [List.append_nil, lines_nil, List.append_nil] at hlines
  exact hlines

/-- A text is its lines and its tail. -/
theorem exists_lines (sep : α) (text : List α) : ∃ (ls : List (List α)) (rest : List α),
    text = ls.flatten ++ rest ∧ (∀ line ∈ ls, IsLine sep line) ∧ sep ∉ rest := by
  induction text with
  | nil => exact ⟨[], [], rfl, fun _ h => absurd h List.not_mem_nil, List.not_mem_nil⟩
  | cons a as ih =>
      obtain ⟨ls, rest, rfl, hls, hrest⟩ := ih
      by_cases ha : a = sep
      · refine ⟨[a] :: ls, rest, rfl, ?_, hrest⟩
        rw [List.forall_mem_cons]
        exact ⟨⟨[], by rw [ha]; rfl, List.not_mem_nil⟩, hls⟩
      · cases ls with
        | nil =>
            refine ⟨[], a :: rest, rfl, hls, ?_⟩
            rw [List.mem_cons, not_or]
            exact ⟨Ne.symm ha, hrest⟩
        | cons line ls =>
            -- the symbol belongs to the first line
            obtain ⟨⟨body, rfl, hbody⟩, hls'⟩ := List.forall_mem_cons.mp hls
            refine ⟨(a :: (body ++ [sep])) :: ls, rest, rfl, ?_, hrest⟩
            rw [List.forall_mem_cons]
            refine ⟨⟨a :: body, rfl, ?_⟩, hls'⟩
            rw [List.mem_cons, not_or]
            exact ⟨Ne.symm ha, hbody⟩

theorem isLine_of_mem_lines {text line : List α} (h : line ∈ lines sep text) : IsLine sep line := by
  obtain ⟨ls, rest, rfl, hls, hrest⟩ := exists_lines sep text
  rw [(lines_flatten_append hls rest).1, lines_of_not_mem hrest, List.append_nil] at h
  exact hls line h

theorem flatten_lines_append_tail (sep : α) (text : List α) :
    (lines sep text).flatten ++ tail sep text = text := by
  obtain ⟨ls, rest, rfl, hls, hrest⟩ := exists_lines sep text
  obtain ⟨hlines, htail⟩ := lines_flatten_append hls rest
  rw [hlines, htail, lines_of_not_mem hrest, tail_of_not_mem hrest, List.append_nil]

theorem flatten_pieces (sep : α) (text : List α) : (pieces sep text).flatten = text := by
  have hsplit := flatten_lines_append_tail sep text
  unfold pieces
  split
  · rename_i hnil
    rw [hnil, List.append_nil] at hsplit
    rw [List.append_nil, hsplit]
  · rw [List.flatten_append, List.flatten_singleton, hsplit]

/-- Lines at the front of a text are its first pieces. -/
theorem pieces_flatten_append {ls : List (List α)} (h : ∀ line ∈ ls, IsLine sep line) (rest : List α) :
    pieces sep (ls.flatten ++ rest) = ls ++ pieces sep rest := by
  obtain ⟨hlines, htail⟩ := lines_flatten_append h rest
  unfold pieces
  rw [hlines, htail, List.append_assoc]

theorem pieces_of_not_mem {text : List α} (h : sep ∉ text) (hne : text ≠ []) : pieces sep text = [text] := by
  unfold pieces
  rw [lines_of_not_mem h, tail_of_not_mem h, if_neg hne]
  rfl

/-- The first line is the first piece. -/
theorem pieces_of_mem {text : List α} (h : sep ∈ text) :
    pieces sep text = first sep text :: pieces sep (text.drop (first sep text).length) := by
  unfold pieces
  rw [lines_of_mem h, tail_of_mem h]
  rfl

/-- The first piece goes on when there is more of it. -/
theorem pieces_append_cons {text : List α} (h : sep ∉ text) (hne : text ≠ []) (more : List α) :
    ∃ last rest, pieces sep (text ++ more) = (text ++ last) :: rest := by
  by_cases hmore : sep ∈ more
  · have hline : IsLine sep (text ++ first sep more) := by
      obtain ⟨body, hbody, hsep⟩ := isLine_first hmore
      refine ⟨text ++ body, by rw [hbody, List.append_assoc], ?_⟩
      rw [List.mem_append, not_or]
      exact ⟨h, hsep⟩
    refine ⟨first sep more, pieces sep (more.drop (first sep more).length), ?_⟩
    have hall : ∀ line ∈ [text ++ first sep more], IsLine sep line := fun line hl => List.mem_singleton.mp hl ▸ hline
    have hpieces := pieces_flatten_append hall (more.drop (first sep more).length)
    rw [List.flatten_singleton, List.append_assoc, first_append_drop] at hpieces
    exact hpieces
  · refine ⟨more, [], pieces_of_not_mem ?_ fun heq => hne (List.append_eq_nil_iff.mp heq).1⟩
    rw [List.mem_append, not_or]
    exact ⟨h, hmore⟩

/-- More text continues the tail. -/
theorem lines_append (sep : α) (text more : List α) :
    lines sep (text ++ more) = lines sep text ++ lines sep (tail sep text ++ more) := by
  conv_lhs => rw [← flatten_lines_append_tail sep text, List.append_assoc]
  exact (lines_flatten_append (fun _ => isLine_of_mem_lines) _).1

/-- Text after complete lines. -/
theorem lines_append_of_tail {text : List α} (h : tail sep text = []) (more : List α) :
    lines sep (text ++ more) = lines sep text ++ lines sep more ∧
      tail sep (text ++ more) = tail sep more := by
  have hsplit := flatten_lines_append_tail sep text
  rw [h, List.append_nil] at hsplit
  have hall : ∀ line ∈ lines sep text, IsLine sep line := fun _ => isLine_of_mem_lines
  have hlines := lines_flatten_append hall more
  rw [hsplit] at hlines
  exact hlines

theorem length_lines_le (sep : α) (text : List α) : (lines sep text).length ≤ text.length := by
  have hfrom : ∀ acc : List α, (linesFrom sep acc text).length ≤ text.length := by
    induction text with
    | nil => exact fun _ => Nat.le_refl _
    | cons a as ih =>
        intro acc
        unfold linesFrom
        split
        · exact Nat.succ_le_succ (ih [])
        · exact Nat.le_succ_of_le (ih _)
  exact hfrom []

end Lines
