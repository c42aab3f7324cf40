import EveBox.Repo.QueryParser

/-!
# Query strings that are read back

Reference: `src/queryparser.rs`, and `quote_value` of `src/cli/test.rs`.

A list of elements is written with the quotes and escapes of the language. The parser reads each element back, but for
texts that it trims and texts that it takes for a sign.
-/

namespace EveBox.Repo

open Rust Eve

/-! ## Writing -/

/-- `quote_value`. -/
def quoteValue (s : String) : List Char :=
  '\x22' :: (s.toList.flatMap fun c => if c = '\\' ∨ c = '\x22' then ['\\', c] else [c]) ++ ['\x22']

/-- The text of a term. -/
def QueryValue.render : QueryValue → List Char
  | .string s => quoteValue s
  | .keyValue k v => quoteValue k ++ ':' :: quoteValue v
  | _ => []

/-- The text of an element. -/
def QueryElement.render (e : QueryElement) : List Char :=
  if e.negated then '-' :: e.value.render else e.value.render

/-- The query string of some elements. -/
def renderQuery (es : List QueryElement) : List Char := [' '].intercalate (es.map QueryElement.render)

/-- The keys that are not fields. -/
def reservedKeys : List String := ["@from", "@to", "@before", "@after", "is"]

/-- A text, or a key and its value, with something in them. -/
def QueryElement.IsTerm (e : QueryElement) : Prop :=
  match e.value with
  | .string s => s ≠ ""
  | .keyValue k v => k ≠ "" ∧ v ≠ "" ∧ k ∉ reservedKeys
  | _ => False

/-- The parser takes the text for a sign. -/
def IsSign (s : String) : Prop := s = "-" ∨ s = "!"

instance (s : String) : Decidable (IsSign s) := by
  unfold IsSign
  infer_instance

/-- The texts that the parser keeps. -/
def QueryElement.IsKept (e : QueryElement) : Prop :=
  match e.value with
  | .string s => trim s.toList = s.toList ∧ ¬ IsSign s
  | .keyValue k _ => ¬ IsSign k
  | _ => True

/-! ## Reading tokens -/

theorem quotedLoop_escape (s rest : List Char) :
    quotedLoop false ((s.flatMap fun c => if c = '\\' ∨ c = '\x22' then ['\\', c] else [c]) ++ '\x22' :: rest) =
      (rest, s) := by
  induction s with
  | nil => rfl
  | cons c s ih =>
      by_cases hc : c = '\\' ∨ c = '\x22'
      · simp [List.flatMap_cons, hc, quotedLoop, ih]
      · have hback : c ≠ '\\' := fun h => hc (.inl h)
        have hquote : c ≠ '\x22' := fun h => hc (.inr h)
        simp [List.flatMap_cons, quotedLoop, hback, hquote, ih]

theorem parseUntil_quoteValue {stops input rest : List Char} {s : String}
    (h : multispace0 input = quoteValue s ++ rest) : parseUntil stops input = (rest, s.toList) := by
  have hloop := quotedLoop_escape s.toList rest
  unfold parseUntil
  rw [h]
  simp only [quoteValue, List.cons_append, List.append_assoc, List.nil_append]
  simp [parseQuotedString, hloop]

theorem multispace0_quoteValue (s : String) (rest : List Char) :
    multispace0 (quoteValue s ++ rest) = quoteValue s ++ rest := by
  simp [quoteValue, multispace0]

/-! ## Turns of the loop -/

section

variable (lib : TimeLib) (tzOffset : Option String)

/-- What the parser makes of an input, given turns enough. -/
def Parses (input : List Char) (negated : Bool) (es : List QueryElement) : Prop :=
  ∀ fuel, input.length ≤ fuel → parseLoop lib tzOffset fuel input negated = .ok es

variable {lib tzOffset}

theorem Parses.nil (negated : Bool) : Parses lib tzOffset [] negated [] := by
  intro fuel _
  cases fuel <;> rfl

theorem exists_turn {input : List Char} {fuel : ℕ} (hne : input ≠ []) (h : input.length ≤ fuel) :
    ∃ n, fuel = n + 1 ∧ input.length ≤ n + 1 := by
  have hpos := List.length_pos_iff.mpr hne
  exact ⟨fuel - 1, by omega, by omega⟩

/-- A token that is read as a sign negates what comes next. -/
theorem Parses.sign {input rest token : List Char} {negated : Bool} {es : List QueryElement}
    (htoken : parseToken input = (rest, token)) (hsign : token = ['-'] ∨ token = ['!'])
    (hrest : rest.length < input.length) (h : Parses lib tzOffset rest true es) :
    Parses lib tzOffset input negated es := by
  intro fuel hfuel
  have hne : input ≠ [] := fun h => by simp [h] at hrest
  obtain ⟨n, rfl, hn⟩ := exists_turn hne hfuel
  rw [parseLoop, if_neg hne, htoken]
  simp only [hsign, if_true]
  exact h n (by omega)

/-- A token without a value. -/
theorem Parses.string {input rest token : List Char} {negated : Bool} {es : List QueryElement}
    (htoken : parseToken input = (rest, token)) (hsign : ¬ (token = ['-'] ∨ token = ['!']))
    (hcolon : rest.head? ≠ some ':') (hrest : rest.length < input.length) (h : Parses lib tzOffset rest false es) :
    Parses lib tzOffset input negated (stringElement negated token ++ es) := by
  intro fuel hfuel
  have hne : input ≠ [] := fun h => by simp [h] at hrest
  obtain ⟨n, rfl, hn⟩ := exists_turn hne hfuel
  rw [parseLoop, if_neg hne, htoken]
  simp only [hsign, hcolon, if_false]
  rw [h n (by omega)]
  rfl

/-- A token with a value. -/
theorem Parses.keyValue {input rest rest' key token : List Char} {negated : Bool} {e : QueryElement}
    {es : List QueryElement} (hkey : parseToken input = (':' :: rest, key))
    (hsign : ¬ (key = ['-'] ∨ key = ['!'])) (hvalue : parseValue rest = (rest', token))
    (helement : keyValueElement lib tzOffset negated key token = .ok e) (hrest : rest'.length < input.length)
    (h : Parses lib tzOffset rest' false es) : Parses lib tzOffset input negated (e :: es) := by
  intro fuel hfuel
  have hne : input ≠ [] := fun h => by simp [h] at hrest
  obtain ⟨n, rfl, hn⟩ := exists_turn hne hfuel
  rw [parseLoop, if_neg hne, hkey]
  simp only [hsign, if_false, List.head?_cons, if_true, List.tail_cons, hvalue, helement]
  rw [h n (by omega)]
  rfl

/-! ## What is read of an element -/

/-- What the parser reads of an element, and whether it takes the next one for negated. -/
def QueryElement.reads (e : QueryElement) (negated : Bool) : List QueryElement × Bool :=
  match e.value with
  | .string s => if IsSign s then ([], true) else (stringElement (negated || e.negated) s.toList, false)
  | .keyValue k v =>
      if IsSign k then ([⟨true, .keyValue "" v⟩], false) else ([⟨negated || e.negated, .keyValue k v⟩], false)
  | _ => ([], negated)

/-- What the parser reads of some elements. -/
def readsAll : Bool → List QueryElement → List QueryElement
  | _, [] => []
  | negated, e :: es => (e.reads negated).1 ++ readsAll (e.reads negated).2 es

theorem isSign_iff (s : String) : s.toList = ['-'] ∨ s.toList = ['!'] ↔ IsSign s := by
  have hto : ∀ t : String, s.toList = t.toList ↔ s = t := fun t => String.toList_inj
  exact or_congr (hto "-") (hto "!")

theorem keyValueElement_of_not_reserved {negated : Bool} {k v : String} (h : k ∉ reservedKeys) :
    keyValueElement lib tzOffset negated k.toList v.toList = .ok ⟨negated, .keyValue k v⟩ := by
  simp only [reservedKeys, List.mem_cons, List.not_mem_nil, or_false, not_or] at h
  obtain ⟨hfrom, hto, hbefore, hafter, his⟩ := h
  unfold keyValueElement
  simp only [String.ofList_toList]
  split <;> simp_all

/-- The term of an element, behind its sign. -/
theorem Parses.value {e : QueryElement} {input rest : List Char} {negated : Bool} {es : List QueryElement}
    (he : e.IsTerm) (hinput : multispace0 input = e.value.render ++ rest)
    (hlength : (e.value.render ++ rest).length ≤ input.length) (hrest : rest.head? ≠ some ':')
    (h : Parses lib tzOffset rest (e.reads negated).2 es) (hnegated : e.negated = true → negated = true) :
    Parses lib tzOffset input negated ((e.reads negated).1 ++ es) := by
  have hor : (negated || e.negated) = negated := by
    cases hn : e.negated with
    | false => simp
    | true => simp [hnegated hn]
  unfold QueryElement.IsTerm at he
  unfold QueryElement.reads at h ⊢
  cases hvalue : e.value with
  | string s =>
      rw [hvalue] at hinput hlength
      have htoken : parseToken input = (rest, s.toList) := parseUntil_quoteValue hinput
      have hshort : rest.length < input.length := by
        simp [QueryValue.render, quoteValue] at hlength
        omega
      by_cases hs : IsSign s
      · simp only [hvalue, hs, if_true] at h ⊢
        exact .sign htoken ((isSign_iff s).mpr hs) hshort h
      · simp only [hvalue, hs, if_false, hor] at h ⊢
        exact .string htoken (fun hsign => hs ((isSign_iff s).mp hsign)) hrest hshort h
  | keyValue k v =>
      rw [hvalue] at hinput hlength he
      simp only [QueryValue.render, List.append_assoc, List.cons_append] at hinput
      have htoken : parseToken input = (':' :: (quoteValue v ++ rest), k.toList) := parseUntil_quoteValue hinput
      have hv : parseValue (quoteValue v ++ rest) = (rest, v.toList) :=
        parseUntil_quoteValue (multispace0_quoteValue v rest)
      have hlengths : (quoteValue k).length + (quoteValue v).length + 1 + rest.length ≤ input.length := by
        simp only [QueryValue.render, List.length_append, List.length_cons] at hlength
        omega
      have hkpos : 0 < (quoteValue k).length := by simp [quoteValue]
      by_cases hk : IsSign k
      · simp only [hvalue, hk, if_true] at h ⊢
        have hcolon : parseToken (':' :: (quoteValue v ++ rest)) = (':' :: (quoteValue v ++ rest), []) := by
          simp [parseToken, parseUntil, multispace0]
        have helement : keyValueElement lib tzOffset true [] v.toList = .ok ⟨true, .keyValue "" v⟩ :=
          @keyValueElement_of_not_reserved lib tzOffset true "" v (by decide)
        refine .sign htoken ((isSign_iff k).mpr hk) (by simp; omega) ?_
        exact .keyValue hcolon (by simp) hv helement (by simp only [List.length_cons, List.length_append]; omega) h
      · simp only [hvalue, hk, if_false, hor] at h ⊢
        exact .keyValue htoken (fun hsign => hk ((isSign_iff k).mp hsign)) hv
          (keyValueElement_of_not_reserved he.2.2) (by omega) h
  | fromTime _ => simp [hvalue] at he
  | toTime _ => simp [hvalue] at he
  | after _ => simp [hvalue] at he
  | before _ => simp [hvalue] at he
  | archived => simp [hvalue] at he
  | escalated => simp [hvalue] at he

/-- The terms as they stand in a query string, each but the first behind a space. -/
def renderTail (es : List QueryElement) : List Char := es.flatMap fun e => ' ' :: e.render

theorem renderQuery_cons (e : QueryElement) (es : List QueryElement) :
    renderQuery (e :: es) = e.render ++ renderTail es := by
  unfold renderQuery renderTail
  induction es generalizing e with
  | nil => simp [List.intercalate]
  | cons e' es ih =>
      have := ih e'
      simp only [List.map_cons, List.intercalate_cons_cons] at this ⊢
      simp [this]

theorem renderTail_head (es : List QueryElement) : (renderTail es).head? ≠ some ':' := by
  cases es <;> simp [renderTail]

theorem reads_sign {e : QueryElement} (negated : Bool) (h : e.negated = true) : e.reads true = e.reads negated ∨
    (e.value = .archived ∨ e.value = .escalated ∨ ∃ ts, e.value = .fromTime ts ∨ e.value = .toTime ts ∨
      e.value = .after ts ∨ e.value = .before ts) := by
  unfold QueryElement.reads
  cases e.value <;> simp [h]

/-- An element, with spaces before it. -/
theorem Parses.element {e : QueryElement} {before rest : List Char} {negated : Bool} {es : List QueryElement}
    (he : e.IsTerm) (hbefore : before = [] ∨ before = [' ']) (hrest : rest.head? ≠ some ':')
    (h : Parses lib tzOffset rest (e.reads negated).2 es) :
    Parses lib tzOffset (before ++ (e.render ++ rest)) negated ((e.reads negated).1 ++ es) := by
  have hspace : ∀ text, multispace0 (before ++ text) = multispace0 text := by
    rcases hbefore with rfl | rfl
    · exact fun _ => rfl
    · exact fun _ => by simp [multispace0]
  have hrender : multispace0 (e.value.render ++ rest) = e.value.render ++ rest := by
    unfold QueryElement.IsTerm at he
    cases hvalue : e.value with
    | string s => exact multispace0_quoteValue s rest
    | keyValue k v =>
        simp only [QueryValue.render, List.append_assoc]
        exact multispace0_quoteValue k _
    | _ => simp [hvalue] at he
  by_cases hn : e.negated = true
  · have hreads : e.reads true = e.reads negated := by
      refine (reads_sign negated hn).resolve_right fun hother => ?_
      unfold QueryElement.IsTerm at he
      rcases hother with hv | hv | ⟨ts, hv | hv | hv | hv⟩ <;> simp [hv] at he
    have htoken : parseToken (before ++ (e.render ++ rest)) = (e.value.render ++ rest, ['-']) := by
      unfold parseToken parseUntil
      rw [hspace]
      simp [QueryElement.render, hn, multispace0]
    have hterm : Parses lib tzOffset (e.value.render ++ rest) true ((e.reads true).1 ++ es) :=
      .value he hrender le_rfl hrest (hreads ▸ h) fun _ => rfl
    rw [hreads] at hterm
    refine .sign htoken (.inl rfl) ?_ hterm
    simp [QueryElement.render, hn]
    omega
  · refine .value he ?_ ?_ hrest h fun h => absurd h hn
    · rw [hspace]
      simpa [QueryElement.render, hn] using hrender
    · simp [QueryElement.render, hn]

/-- The elements behind a space each. -/
theorem Parses.tail {es : List QueryElement} (hes : ∀ e ∈ es, e.IsTerm) (negated : Bool) :
    Parses lib tzOffset (renderTail es) negated (readsAll negated es) := by
  induction es generalizing negated with
  | nil => exact .nil negated
  | cons e es ih =>
      have htail := ih (fun e' he' => hes e' (List.mem_cons_of_mem _ he')) (e.reads negated).2
      have helement := @Parses.element lib tzOffset e [' '] (renderTail es) negated _
        (hes e List.mem_cons_self) (.inr rfl) (renderTail_head es) htail
      simpa [renderTail, readsAll] using helement

/-- What the parser reads of a query string that was written for some elements. -/
theorem parse_renderQuery {es : List QueryElement} (hes : ∀ e ∈ es, e.IsTerm) :
    parse lib tzOffset (String.ofList (renderQuery es)) = .ok (readsAll false es) := by
  have hparses : Parses lib tzOffset (renderQuery es) false (readsAll false es) := by
    cases es with
    | nil => exact .nil false
    | cons e es =>
        rw [renderQuery_cons]
        have htail := @Parses.tail lib tzOffset es (fun e' he' => hes e' (List.mem_cons_of_mem _ he'))
          (e.reads false).2
        have helement := @Parses.element lib tzOffset e [] (renderTail es) false _
          (hes e List.mem_cons_self) (.inl rfl) (renderTail_head es) htail
        simpa [readsAll] using helement
  unfold parse
  rw [String.toList_ofList]
  exact hparses _ le_rfl

end

/-! ## What is read back -/

theorem stringElement_eq (negated : Bool) (token : List Char) : stringElement negated token =
    if trim token = [] then [] else [⟨negated, .string (String.ofList (trim token))⟩] := rfl

/-- No element is read as two. -/
theorem QueryElement.length_reads_le (e : QueryElement) (negated : Bool) : (e.reads negated).1.length ≤ 1 := by
  unfold QueryElement.reads
  split
  · split
    · exact Nat.zero_le _
    · rw [stringElement_eq]
      split <;> simp
  · split <;> simp
  · exact Nat.zero_le _

theorem length_readsAll_le (negated : Bool) (es : List QueryElement) : (readsAll negated es).length ≤ es.length := by
  induction es generalizing negated with
  | nil => exact le_rfl
  | cons e es ih =>
      have hfirst := e.length_reads_le negated
      have hrest := ih (e.reads negated).2
      simp only [readsAll, List.length_append, List.length_cons]
      omega

theorem ofList_eq_empty {s : String} (h : s ≠ "") : s.toList ≠ [] := fun hnil =>
  h (String.toList_inj.mp (hnil.trans String.toList_empty.symm))

/-- A kept element is read as it is. -/
theorem QueryElement.reads_of_isKept {e : QueryElement} (he : e.IsTerm) (h : e.IsKept) :
    e.reads false = ([e], false) := by
  obtain ⟨negated, value⟩ := e
  unfold QueryElement.IsTerm at he
  unfold QueryElement.IsKept at h
  unfold QueryElement.reads
  cases value with
  | string s =>
      have hne := ofList_eq_empty he
      simp only at h
      simp [h.2, stringElement, h.1, hne, String.ofList_toList]
  | keyValue k v =>
      simp only at h
      simp [h]
  | _ => simp at he

/-- Only a kept element is read as it is. -/
theorem QueryElement.isKept_of_reads {e : QueryElement} {negated : Bool} (h : (e.reads negated).1 = [e]) :
    e.IsKept ∧ (e.reads negated).2 = false := by
  obtain ⟨n, value⟩ := e
  unfold QueryElement.reads at h ⊢
  unfold QueryElement.IsKept
  cases value with
  | string s =>
      by_cases hs : IsSign s
      · simp [hs] at h
      · simp only [hs, if_false, not_false_eq_true, and_true] at h ⊢
        rw [stringElement_eq] at h
        split at h
        · cases h
        · simp only [List.cons.injEq, QueryElement.mk.injEq, QueryValue.string.injEq, and_true] at h
          have htrim := congrArg String.toList h.2
          rwa [String.toList_ofList] at htrim
  | keyValue k v =>
      by_cases hk : IsSign k
      · have hempty : "" ≠ k := fun h => by
          subst h
          exact absurd hk (by decide)
        simp [hk] at h
        exact absurd h.2.symm hempty
      · simp [hk]
  | _ => simp at h

theorem readsAll_eq_iff {es : List QueryElement} (hes : ∀ e ∈ es, e.IsTerm) :
    readsAll false es = es ↔ ∀ e ∈ es, e.IsKept := by
  constructor
  · suffices hkept : ∀ negated, readsAll negated es = es → ∀ e ∈ es, e.IsKept from hkept false
    intro negated h
    induction es generalizing negated with
    | nil => simp
    | cons e es ih =>
        have hlength := congrArg List.length h
        have hfirst := e.length_reads_le negated
        have hrest := length_readsAll_le (e.reads negated).2 es
        simp only [readsAll, List.length_append, List.length_cons] at hlength h
        obtain ⟨x, hx⟩ := List.length_eq_one_iff.mp (show (e.reads negated).1.length = 1 by omega)
        rw [hx] at h
        obtain ⟨rfl, htail⟩ := List.cons_eq_cons.mp h
        obtain ⟨hkept, -⟩ := QueryElement.isKept_of_reads hx
        exact List.forall_mem_cons.mpr ⟨hkept, ih (fun e' he' => hes e' (List.mem_cons_of_mem _ he')) _ htail⟩
  · intro h
    induction es with
    | nil => rfl
    | cons e es ih =>
        obtain ⟨hfirst, hrest⟩ := List.forall_mem_cons.mp h
        obtain ⟨hterm, hterms⟩ := List.forall_mem_cons.mp hes
        rw [readsAll, QueryElement.reads_of_isKept hterm hfirst, ih hterms hrest]
        rfl

/-- A query string written for some elements is read back as these exactly if no text of them begins or ends with
white space, and no text and no key is a sign. -/
theorem parse_renderQuery_eq_iff (lib : TimeLib) (tzOffset : Option String) (es : List QueryElement)
    (hes : ∀ e ∈ es, e.IsTerm) :
    parse lib tzOffset (String.ofList (renderQuery es)) = .ok es ↔ ∀ e ∈ es, e.IsKept := by
  rw [parse_renderQuery hes, Except.ok.injEq, readsAll_eq_iff hes]

/-! ### Terms that are not read back -/

/-- A time library without times. -/
def noTimes : TimeLib := ⟨fun _ => none, Char.isDigit, fun _ _ => "", fun _ => "", fun _ => ""⟩

/-- Of three terms, the spaces of the first are lost, and the second negates the third. -/
theorem terms_not_read_back :
    let es := [⟨false, .string " a "⟩, ⟨false, .string "-"⟩, ⟨false, .keyValue "b" "c"⟩]
    (∀ e ∈ es, e.IsTerm) ∧ parse noTimes none (String.ofList (renderQuery es)) ≠ .ok es := by
  refine ⟨by simp [QueryElement.IsTerm, reservedKeys], ?_⟩
  decide +kernel

theorem terms_read_back :
    let es := [⟨true, .string "a \x22b"⟩, ⟨false, .keyValue "c:-" " d\\ "⟩]
    (∀ e ∈ es, e.IsTerm) ∧ (parse noTimes none (String.ofList (renderQuery es)) = .ok es ↔ ∀ e ∈ es, e.IsKept) := by
  have hterms : ∀ e ∈ [⟨true, .string "a \x22b"⟩, ⟨false, .keyValue "c:-" " d\\ "⟩], QueryElement.IsTerm e := by
    simp [QueryElement.IsTerm, reservedKeys]
  exact ⟨hterms, parse_renderQuery_eq_iff noTimes none _ hterms⟩

end EveBox.Repo
