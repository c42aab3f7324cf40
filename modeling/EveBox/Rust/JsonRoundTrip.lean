import EveBox.Rust.JsonText
import Mathlib.Data.Nat.Init

/-!
# JSON values that are written and read again

`Value::to_string`, and `serde_json::from_str` of its text.

* `tokens_chars` — the tokens of the text of a value.
* `fromStr_chars` — a value is read from its text, with whatever blanks behind it.
-/

namespace EveBox.Rust.Json

open JsonTokens

/-! ## Values that can be read again -/

section

variable (readNumber : List Char → Option Number)

/-- The text of a number is read as this number. -/
structure ReadsBack (n : Number) : Prop where
  nonempty : n.text.toList ≠ []
  chars : ∀ c ∈ n.text.toList, isWordChar c = true
  value : Reader.literal readNumber n.text.toList = some (.number n)

mutual

/-- The value is read again, where there is room for so many levels: its numbers are, and its objects have their keys
in order. -/
def Readable : ℕ → Json → Prop
  | _, null => True
  | _, bool _ => True
  | _, number n => ReadsBack readNumber n
  | _, string _ => True
  | room, array elems => 0 < room ∧ ReadableElems (room - 1) elems
  | room, object fields => 0 < room ∧ fields.Pairwise (fun a b => a.1 < b.1) ∧ ReadableFields (room - 1) fields

def ReadableElems : ℕ → List Json → Prop
  | _, [] => True
  | room, e :: es => Readable room e ∧ ReadableElems room es

def ReadableFields : ℕ → List (String × Json) → Prop
  | _, [] => True
  | room, (_, v) :: fields => Readable room v ∧ ReadableFields room fields

end

end

mutual

/-- The tokens of the text of a value. -/
def tokensOf : Json → List Token
  | null => [.word "null".toList]
  | bool b => [.word (if b then "true".toList else "false".toList)]
  | number n => [.word n.text.toList]
  | string s => [.string s.toList]
  | array elems => .sign '[' :: tokensOfElems elems ++ [.sign ']']
  | object fields => .sign '{' :: tokensOfFields fields ++ [.sign '}']

def tokensOfElems : List Json → List Token
  | [] => []
  | [e] => tokensOf e
  | e :: es => tokensOf e ++ .sign ',' :: tokensOfElems es

def tokensOfFields : List (String × Json) → List Token
  | [] => []
  | [(k, v)] => .string k.toList :: .sign ':' :: tokensOf v
  | (k, v) :: fields => .string k.toList :: .sign ':' :: tokensOf v ++ .sign ',' :: tokensOfFields fields

end

/-! ## Scanning what has been written -/

/-- Every character is written so that it is read in every string. -/
theorem escapes_escapeChar (c : Char) : Escapes (escapeChar c) c := by
  intro s rest
  have hsimple : ∀ d, simpleEscape d = some c → d ≠ 'u' →
      scan (.string s) (['\\', d] ++ rest) = scan (.string (s ++ [c])) rest := by
    intro d hd hne
    have hbegin : (Mode.string s).step '\\' = some ([], .escape s) := rfl
    have hend : (Mode.escape s).step d = some ([], .string (s ++ [c])) := by
      rw [Mode.step, if_neg hne, hd]
      rfl
    show scan _ ('\\' :: d :: rest) = _
    rw [scan_cons_of_step hbegin, scan_cons_of_step hend]
  have hcode : ∀ n, c.toNat = n → c = .ofNat n := fun n hn => by rw [← hn, Char.ofNat_toNat]
  unfold escapeChar
  split
  · rename_i h
    exact hsimple '"' (by rw [h]; rfl) (by decide)
  split
  · rename_i h
    exact hsimple '\\' (by rw [h]; rfl) (by decide)
  split
  · rename_i h
    exact hsimple 'n' (by rw [h]; rfl) (by decide)
  split
  · rename_i h
    exact hsimple 'r' (by rw [h]; rfl) (by decide)
  split
  · rename_i h
    exact hsimple 't' (by rw [h]; rfl) (by decide)
  split
  · rename_i h
    exact hsimple 'b' (by rw [hcode 8 h]; rfl) (by decide)
  split
  · rename_i h
    exact hsimple 'f' (by rw [hcode 12 h]; rfl) (by decide)
  split
  · rename_i hlt
    have hdigit : ∀ d < 16, hexValue (Nat.digitChar d) = some d := by decide
    have hzero : hexValue '0' = some 0 := rfl
    have hhex := Hex4.mk hzero hzero (hdigit (c.toNat / 16) (by omega)) (hdigit (c.toNat % 16) (by omega))
    rw [show 16 * (16 * (16 * 0 + 0) + c.toNat / 16) + c.toNat % 16 = c.toNat by omega] at hhex
    have hfinish : finish s none c.toNat = some (.string (s ++ [c])) := by
      have hlow : isLow c.toNat = false := by
        rw [isLow, Bool.and_eq_false_iff, decide_eq_false_iff_not]
        omega
      have hhigh : isHigh c.toNat = false := by
        rw [isHigh, Bool.and_eq_false_iff, decide_eq_false_iff_not]
        omega
      unfold finish
      rw [hlow, hhigh, Char.ofNat_toNat]
      rfl
    have hbegin : (Mode.string s).step '\\' = some ([], .escape s) := rfl
    have hfirst : (Mode.escape s).step 'u' = some ([], .digits s none 0 0) := rfl
    have hscan := scan_hex4 hhex hfinish rest
    show scan _ ('\\' :: 'u' :: _) = _
    rw [scan_cons_of_step hbegin, scan_cons_of_step hfirst]
    exact hscan
  · rename_i hquote hbackslash _ _ _ _ _ hge
    refine scan_cons_of_step ?_ rest
    rw [Mode.step, if_neg hquote, if_neg hbackslash, if_neg hge]

theorem scan_quote (s : String) (rest : List Char) :
    scan .between (quote s ++ rest) = (scan .between rest).map fun ts => .string s.toList :: ts := by
  have hchars : ∀ (cs before : List Char) rest,
      scan (.string before) (cs.flatMap escapeChar ++ rest) = scan (.string (before ++ cs)) rest := by
    intro cs
    induction cs with
    | nil => exact fun before rest => by rw [List.append_nil]; rfl
    | cons c cs ih =>
        intro before rest
        rw [List.flatMap_cons, List.append_assoc, escapes_escapeChar c, ih, List.append_assoc]
        rfl
  have hbegin : Mode.between.step '"' = some ([], .string []) := rfl
  show scan _ ('"' :: (s.toList.flatMap escapeChar ++ ['"']) ++ rest) = _
  rw [List.cons_append, List.append_assoc, scan_cons_of_step hbegin, hchars, List.nil_append]
  show scan _ ('"' :: rest) = _
  rw [scan_cons]
  rfl

/-- What comes next does not go on with a word. -/
def EndsWord (rest : List Char) : Prop := ∀ c ∈ rest.head?, isWordChar c = false

theorem endsWord_cons {c : Char} (h : isWordChar c = false) (rest : List Char) : EndsWord (c :: rest) :=
  fun _ hd => Option.some.inj hd ▸ h

theorem start_of_isWordChar {c : Char} (h : isWordChar c = true) : start c = some ([], .word [c]) := by
  have hne : ∀ d, isWordChar d = false → c ≠ d := fun d hd heq => by
    rw [heq, hd] at h
    cases h
  have hspace : isSpace c = false := by
    rw [isSpace, decide_eq_false_iff_not]
    simp [hne ' ' rfl, hne '\t' rfl, hne '\n' rfl, hne '\r' rfl]
  have hsign : isSign c = false := by
    rw [isSign, decide_eq_false_iff_not]
    simp [hne '[' rfl, hne ']' rfl, hne '{' rfl, hne '}' rfl, hne ':' rfl, hne ',' rfl]
  unfold start
  rw [hspace, hsign, if_neg (hne '"' rfl), h]
  rfl

theorem scan_word {w : List Char} (hne : w ≠ []) (hw : ∀ c ∈ w, isWordChar c = true) {rest : List Char}
    (hrest : EndsWord rest) : scan .between (w ++ rest) = (scan .between rest).map fun ts => .word w :: ts := by
  have hchars : ∀ (cs before : List Char), (∀ c ∈ cs, isWordChar c = true) →
      scan (.word before) (cs ++ rest) = scan (.word (before ++ cs)) rest := by
    intro cs
    induction cs with
    | nil => exact fun before _ => by rw [List.append_nil]; rfl
    | cons c cs ih =>
        intro before hcs
        have hstep : (Mode.word before).step c = some ([], .word (before ++ [c])) := by
          rw [Mode.step, if_pos (hcs c List.mem_cons_self)]
        rw [List.cons_append, scan_cons_of_step hstep, ih _ fun d hd => hcs d (List.mem_cons_of_mem _ hd),
          List.append_assoc]
        rfl
  cases w with
  | nil => exact absurd rfl hne
  | cons c w =>
      have hbegin : Mode.between.step c = some ([], .word [c]) := start_of_isWordChar (hw c List.mem_cons_self)
      rw [List.cons_append, scan_cons_of_step hbegin, hchars w _ fun d hd => hw d (List.mem_cons_of_mem _ hd)]
      cases rest with
      | nil => rfl
      | cons d rest =>
          have hd : isWordChar d = false := hrest d rfl
          have hstep : (Mode.word (c :: w)).step d = (start d).map fun next => (.word (c :: w) :: next.1, next.2) := by
            rw [Mode.step, hd]
            rfl
          rw [scan_cons, scan_cons]
          show ((Mode.word (c :: w)).step d).bind _ = ((start d).bind _).map _
          rw [hstep]
          cases start d with
          | none => rfl
          | some next =>
              simp only [Option.map_some, Option.bind_some, Option.map_map]
              rfl

theorem scan_sign {c : Char} (hsign : isSign c = true) (hspace : isSpace c = false) (rest : List Char) :
    scan .between (c :: rest) = (scan .between rest).map fun ts => .sign c :: ts := by
  have hstep : Mode.between.step c = some ([.sign c], .between) := by
    show start c = _
    rw [start, hspace, hsign]
    rfl
  rw [scan_cons, hstep]
  rfl

theorem newline_not_mem_quote (s : String) : '\n' ∉ quote s := by
  have hchar : ∀ c : Char, '\n' ∉ escapeChar c := by
    intro c
    unfold escapeChar
    split
    · decide
    split
    · decide
    split
    · decide
    split
    · decide
    split
    · decide
    split
    · decide
    split
    · decide
    split
    · have hdigit : ∀ d < 16, Nat.digitChar d ≠ '\n' := by decide
      have hlow := hdigit (c.toNat % 16) (by omega)
      have hhigh := hdigit (c.toNat / 16) (by omega)
      simp [hlow.symm, hhigh.symm]
    · rename_i hne _ _ _ _ _
      simpa using Ne.symm hne
  simp [quote, List.mem_flatMap, hchar]

section

variable {readNumber : List Char → Option Number}

mutual

/-- The text of a value has the tokens of the value, and the rest goes on from there. -/
theorem scan_chars : ∀ {room : ℕ} {j : Json}, Readable readNumber room j → ∀ {rest : List Char}, EndsWord rest →
    scan .between (j.chars ++ rest) = (scan .between rest).map fun ts => j.tokensOf ++ ts
  | _, null, _, _, hrest => scan_word (by decide) (List.all_eq_true.mp rfl) hrest
  | _, bool b, _, _, hrest => by
      cases b
      · exact scan_word (by decide) (List.all_eq_true.mp rfl) hrest
      · exact scan_word (by decide) (List.all_eq_true.mp rfl) hrest
  | _, number _, h, _, hrest => scan_word h.nonempty h.chars hrest
  | _, string s, _, rest, _ => scan_quote s rest
  | _, array elems, h, rest, _ => by
      show scan _ ('[' :: (charsList elems ++ [']']) ++ rest) = _
      rw [List.cons_append, List.append_assoc, scan_sign rfl rfl, List.singleton_append,
        scan_charsList h.2 (endsWord_cons rfl rest), scan_sign rfl rfl, Option.map_map, Option.map_map]
      refine congrArg (Option.map · _) (funext fun ts => ?_)
      simp [tokensOf]
  | _, object fields, h, rest, _ => by
      show scan _ ('{' :: (charsFields fields ++ ['}']) ++ rest) = _
      rw [List.cons_append, List.append_assoc, scan_sign rfl rfl, List.singleton_append,
        scan_charsFields h.2.2 (endsWord_cons rfl rest), scan_sign rfl rfl, Option.map_map, Option.map_map]
      refine congrArg (Option.map · _) (funext fun ts => ?_)
      simp [tokensOf]

theorem scan_charsList : ∀ {room : ℕ} {elems : List Json}, ReadableElems readNumber room elems →
    ∀ {rest : List Char}, EndsWord rest →
    scan .between (charsList elems ++ rest) = (scan .between rest).map fun ts => tokensOfElems elems ++ ts
  | _, [], _, rest, _ => by simp [charsList, tokensOfElems]
  | _, [e], h, _, hrest => scan_chars h.1 hrest
  | _, e :: e' :: es, h, rest, hrest => by
      show scan _ (e.chars ++ ',' :: charsList (e' :: es) ++ rest) = _
      rw [List.append_assoc, List.cons_append, scan_chars h.1 (endsWord_cons rfl _), scan_sign rfl rfl,
        scan_charsList h.2 hrest, Option.map_map, Option.map_map]
      refine congrArg (Option.map · _) (funext fun ts => ?_)
      simp [tokensOfElems]

theorem scan_charsFields : ∀ {room : ℕ} {fields : List (String × Json)}, ReadableFields readNumber room fields →
    ∀ {rest : List Char}, EndsWord rest →
    scan .between (charsFields fields ++ rest) = (scan .between rest).map fun ts => tokensOfFields fields ++ ts
  | _, [], _, rest, _ => by simp [charsFields, tokensOfFields]
  | _, [(k, v)], h, rest, hrest => by
      show scan _ (quote k ++ ':' :: v.chars ++ rest) = _
      rw [List.append_assoc, List.cons_append, scan_quote, scan_sign rfl rfl, scan_chars h.1 hrest, Option.map_map,
        Option.map_map]
      refine congrArg (Option.map · _) (funext fun ts => ?_)
      simp [tokensOfFields]
  | _, (k, v) :: field :: fields, h, rest, hrest => by
      show scan _ (quote k ++ ':' :: v.chars ++ ',' :: charsFields (field :: fields) ++ rest) = _
      rw [List.append_assoc, List.append_assoc, List.cons_append, List.cons_append, scan_quote, scan_sign rfl rfl,
        scan_chars h.1 (endsWord_cons rfl _), scan_sign rfl rfl, scan_charsFields h.2 hrest, Option.map_map,
        Option.map_map, Option.map_map, Option.map_map]
      refine congrArg (Option.map · _) (funext fun ts => ?_)
      simp [tokensOfFields]

end

/-! ## Reading the tokens -/

/-- A text of tokens begins with none that ends an array. -/
theorem exists_tokensOf (j : Json) : ∃ t ts, j.tokensOf = t :: ts ∧ t ≠ .sign ']' := by
  cases j with
  | array elems => exact ⟨_, _, rfl, by decide⟩
  | object fields => exact ⟨_, _, rfl, by decide⟩
  | _ => exact ⟨_, _, rfl, nofun⟩

theorem run_cons (r : Reader) (t : Token) (ts : List Token) :
    r.run readNumber (t :: ts) = (r.step readNumber t).bind fun r => r.run readNumber ts := rfl

/-- The first element of an array is read as any other value. -/
theorem run_element (frames : List Frame) (j : Json) (ts : List Token) :
    Reader.run readNumber ⟨frames, .element⟩ (j.tokensOf ++ ts) =
      Reader.run readNumber ⟨frames, .value⟩ (j.tokensOf ++ ts) := by
  obtain ⟨t, us, htokens, hne⟩ := exists_tokensOf j
  rw [htokens, List.cons_append, run_cons, run_cons]
  refine congrArg (Option.bind · _) ?_
  exact if_neg hne

theorem tokensOfElems_cons (e : Json) : ∀ es : List Json, ∃ us, tokensOfElems (e :: es) = e.tokensOf ++ us
  | [] => ⟨[], (List.append_nil _).symm⟩
  | _ :: _ => ⟨_, rfl⟩

/-- A field of an object, up to what comes behind its value. -/
theorem run_field (acc : List (String × Json)) (frames : List Frame) {expects : Expects}
    (hexpects : expects = .member ∨ expects = .key) (k : String) (ts : List Token) :
    Reader.run readNumber ⟨.object acc :: frames, expects⟩ (.string k.toList :: .sign ':' :: ts) =
      Reader.run readNumber ⟨.field acc k :: frames, .value⟩ ts := by
  have hkey : Reader.step readNumber ⟨.object acc :: frames, expects⟩ (.string k.toList) =
      some ⟨.field acc k :: frames, .colon⟩ := by
    have hstring : Reader.key (.object acc :: frames) (.string k.toList) = some ⟨.field acc k :: frames, .colon⟩ := by
      rw [Reader.key, String.ofList_toList]
    rcases hexpects with rfl | rfl
    · exact hstring
    · exact hstring
  rw [run_cons, hkey, Option.bind_some, run_cons]
  rfl

/-- A key behind all the others is put behind them. -/
theorem insertField_of_lt {key : String} {value : Json} {fields : List (String × Json)}
    (h : ∀ field ∈ fields, field.1 < key) : insertField key value fields = fields ++ [(key, value)] := by
  induction fields with
  | nil => rfl
  | cons field fields ih =>
      have hlt := h field List.mem_cons_self
      have hne : field.1 ≠ key := fun heq => String.lt_irrefl key (heq ▸ hlt)
      rw [insertField, if_neg hne, if_neg (String.lt_asymm hlt), ih fun f hf => h f (List.mem_cons_of_mem _ hf)]
      rfl

mutual

/-- The tokens of a value are read as this value, wherever one may stand. -/
theorem run_tokensOf : ∀ {room : ℕ} {j : Json}, Readable readNumber room j → ∀ {frames : List Frame},
    frames.length + room ≤ Reader.maxDepth → ∀ ts : List Token,
    Reader.run readNumber ⟨frames, .value⟩ (j.tokensOf ++ ts) =
      (Reader.push frames j).bind fun r => r.run readNumber ts
  | _, null, _, _, _, ts => by
      rw [tokensOf, List.singleton_append, run_cons]
      rfl
  | _, bool b, _, _, _, ts => by
      rw [tokensOf, List.singleton_append, run_cons]
      cases b <;> rfl
  | _, number n, h, _, _, ts => by
      rw [tokensOf, List.singleton_append, run_cons]
      show ((Reader.literal readNumber n.text.toList).bind _).bind _ = _
      rw [h.value]
      rfl
  | _, string s, _, _, _, ts => by
      rw [tokensOf, List.singleton_append, run_cons]
      show (Reader.push _ (.string (String.ofList s.toList))).bind _ = _
      rw [String.ofList_toList]
  | room, array elems, h, frames, hroom, ts => by
      obtain ⟨hpos, helems⟩ := h
      have hbegin : Reader.step readNumber ⟨frames, .value⟩ (.sign '[') = some ⟨.array [] :: frames, .element⟩ :=
        if_pos (show frames.length < Reader.maxDepth by omega)
      rw [tokensOf, List.cons_append, List.cons_append, List.append_assoc, List.singleton_append, run_cons, hbegin,
        Option.bind_some]
      cases elems with
      | nil => rfl
      | cons e es =>
          have hroom' : frames.length + 1 + (room - 1) ≤ Reader.maxDepth := by omega
          obtain ⟨us, hus⟩ := tokensOfElems_cons e es
          rw [hus, List.append_assoc, run_element, ← List.append_assoc, ← hus]
          exact run_tokensOfElems helems hroom' ts
  | room, object fields, h, frames, hroom, ts => by
      obtain ⟨hpos, hsorted, hfields⟩ := h
      have hbegin : Reader.step readNumber ⟨frames, .value⟩ (.sign '{') = some ⟨.object [] :: frames, .member⟩ :=
        if_pos (show frames.length < Reader.maxDepth by omega)
      rw [tokensOf, List.cons_append, List.cons_append, List.append_assoc, List.singleton_append, run_cons, hbegin,
        Option.bind_some]
      cases fields with
      | nil => rfl
      | cons field fields =>
          have hroom' : frames.length + 1 + (room - 1) ≤ Reader.maxDepth := by omega
          exact run_tokensOfFields hfields hsorted hroom' (.inl rfl) ts

theorem run_tokensOfElems : ∀ {room : ℕ} {e : Json} {es : List Json}, ReadableElems readNumber room (e :: es) →
    ∀ {acc : List Json} {frames : List Frame}, frames.length + 1 + room ≤ Reader.maxDepth →
    ∀ ts : List Token,
      Reader.run readNumber ⟨.array acc :: frames, .value⟩ (tokensOfElems (e :: es) ++ .sign ']' :: ts) =
      (Reader.push frames (.array (acc ++ e :: es))).bind fun r => r.run readNumber ts
  | room, e, [], h, acc, frames, hroom, ts => by
      have hroom' : (Frame.array acc :: frames).length + room ≤ Reader.maxDepth := hroom
      rw [tokensOfElems, run_tokensOf h.1 hroom']
      rfl
  | room, e, e' :: es, h, acc, frames, hroom, ts => by
      have hrest : Reader.run readNumber ⟨.array (acc ++ [e]) :: frames, .value⟩
          (tokensOfElems (e' :: es) ++ .sign ']' :: ts) =
            (Reader.push frames (.array (acc ++ [e] ++ e' :: es))).bind fun r => r.run readNumber ts :=
        run_tokensOfElems h.2 hroom ts
      rw [List.append_assoc, List.singleton_append] at hrest
      show Reader.run readNumber _ (e.tokensOf ++ .sign ',' :: tokensOfElems (e' :: es) ++ .sign ']' :: ts) = _
      have hroom' : (Frame.array acc :: frames).length + room ≤ Reader.maxDepth := hroom
      rw [List.append_assoc, run_tokensOf h.1 hroom']
      exact hrest

theorem run_tokensOfFields : ∀ {room : ℕ} {field : String × Json} {fields : List (String × Json)},
    ReadableFields readNumber room (field :: fields) → ∀ {acc : List (String × Json)},
    (acc ++ field :: fields).Pairwise (fun a b => a.1 < b.1) → ∀ {frames : List Frame},
    frames.length + 1 + room ≤ Reader.maxDepth → ∀ {expects : Expects}, expects = .member ∨ expects = .key →
    ∀ ts : List Token,
    Reader.run readNumber ⟨.object acc :: frames, expects⟩ (tokensOfFields (field :: fields) ++ .sign '}' :: ts) =
      (Reader.push frames (.object (acc ++ field :: fields))).bind fun r => r.run readNumber ts
  | room, (k, v), [], h, acc, hsorted, frames, hroom, _, hexpects, ts => by
      have hroom' : (Frame.field acc k :: frames).length + room ≤ Reader.maxDepth := hroom
      have hbehind : insertField k v acc = acc ++ [(k, v)] :=
        insertField_of_lt fun field hfield => (List.pairwise_append.mp hsorted).2.2 field hfield _ List.mem_cons_self
      show Reader.run readNumber _ (.string k.toList :: .sign ':' :: (v.tokensOf ++ .sign '}' :: ts)) = _
      rw [run_field acc frames hexpects, run_tokensOf h.1 hroom', ← hbehind]
      rfl
  | room, (k, v), field :: fields, h, acc, hsorted, frames, hroom, _, hexpects, ts => by
      have hroom' : (Frame.field acc k :: frames).length + room ≤ Reader.maxDepth := hroom
      have hbehind : insertField k v acc = acc ++ [(k, v)] :=
        insertField_of_lt fun field hfield => (List.pairwise_append.mp hsorted).2.2 field hfield _ List.mem_cons_self
      have hsorted' : (acc ++ [(k, v)] ++ field :: fields).Pairwise fun a b => a.1 < b.1 := by
        rw [List.append_assoc]
        exact hsorted
      have hrest : Reader.run readNumber ⟨.object (acc ++ [(k, v)]) :: frames, .key⟩
          (tokensOfFields (field :: fields) ++ .sign '}' :: ts) =
            (Reader.push frames (.object (acc ++ [(k, v)] ++ field :: fields))).bind fun r => r.run readNumber ts :=
        run_tokensOfFields h.2 hsorted' hroom (.inr rfl) ts
      rw [List.append_assoc, List.singleton_append] at hrest
      show Reader.run readNumber _ (.string k.toList :: .sign ':' ::
        (v.tokensOf ++ .sign ',' :: tokensOfFields (field :: fields) ++ .sign '}' :: ts)) = _
      rw [run_field acc frames hexpects, List.append_assoc, run_tokensOf h.1 hroom', ← hrest, ← hbehind]
      rfl

end

/-! ## Reading the text -/

/-- A value is read from its text, with blanks behind it. -/
theorem fromStr_chars {j : Json} (h : Readable readNumber Reader.maxDepth j) {blanks : List Char}
    (hblanks : ∀ c ∈ blanks, isSpace c = true) : fromStr readNumber (j.chars ++ blanks) = some j := by
  have hscan : scan .between blanks = some [] := by
    induction blanks with
    | nil => rfl
    | cons c blanks ih =>
        have hstep : Mode.between.step c = some ([], .between) := if_pos (hblanks c List.mem_cons_self)
        rw [scan_cons_of_step hstep, ih fun d hd => hblanks d (List.mem_cons_of_mem _ hd)]
  have hends : EndsWord blanks := by
    intro c hc
    have hspace := hblanks c (List.mem_of_head? hc)
    rw [isSpace, decide_eq_true_eq] at hspace
    simp only [List.mem_cons, List.not_mem_nil, or_false] at hspace
    rcases hspace with rfl | rfl | rfl | rfl <;> rfl
  rw [fromStr, tokens, scan_chars h hends, hscan, Option.map_some, Option.bind_some,
    show Reader.new = ⟨[], .value⟩ from rfl, run_tokensOf h (Nat.le_of_eq (Nat.zero_add _))]
  rfl

mutual

/-- The text of a value is one line. -/
theorem newline_not_mem_chars : ∀ {room : ℕ} {j : Json}, Readable readNumber room j → '\n' ∉ j.chars
  | _, null, _ => by decide
  | _, bool b, _ => by cases b <;> decide
  | _, number n, h => fun hmem => absurd (h.chars _ hmem) (by decide)
  | _, string s, _ => newline_not_mem_quote s
  | _, array elems, h => by
      have helems := newline_not_mem_charsList h.2
      simp [chars, helems]
  | _, object fields, h => by
      have hfields := newline_not_mem_charsFields h.2.2
      simp [chars, hfields]

theorem newline_not_mem_charsList : ∀ {room : ℕ} {elems : List Json}, ReadableElems readNumber room elems →
    '\n' ∉ charsList elems
  | _, [], _ => List.not_mem_nil
  | _, [e], h => newline_not_mem_chars h.1
  | _, e :: e' :: es, h => by
      have hfirst := newline_not_mem_chars h.1
      have hrest := newline_not_mem_charsList h.2
      show '\n' ∉ e.chars ++ ',' :: charsList (e' :: es)
      simp [hfirst, hrest]

theorem newline_not_mem_charsFields : ∀ {room : ℕ} {fields : List (String × Json)},
    ReadableFields readNumber room fields → '\n' ∉ charsFields fields
  | _, [], _ => List.not_mem_nil
  | _, [(k, v)], h => by
      have hkey := newline_not_mem_quote k
      have hvalue := newline_not_mem_chars h.1
      show '\n' ∉ quote k ++ ':' :: v.chars
      simp [hkey, hvalue]
  | _, (k, v) :: field :: fields, h => by
      have hkey := newline_not_mem_quote k
      have hvalue := newline_not_mem_chars h.1
      have hrest := newline_not_mem_charsFields h.2
      show '\n' ∉ quote k ++ ':' :: v.chars ++ ',' :: charsFields (field :: fields)
      simp [hkey, hvalue, hrest]

end

end

end EveBox.Rust.Json
