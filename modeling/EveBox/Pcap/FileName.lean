import EveBox.Rust.Numbers

/-!
# The names of spool files

Reference: `parse_filename` of `src/pcap/spool.rs`.

A name is a list of characters; one that is not UTF-8 gives nothing.
-/

namespace EveBox.Pcap

open Rust

/-- `MIN_ROTATION_TIMESTAMP`. -/
def minRotationTimestamp : ℕ := 946684800

/-- `MAX_ROTATION_TIMESTAMP`. -/
def maxRotationTimestamp : ℕ := 4102444800

/-- `strip_suffix_ignore_case`. -/
def stripSuffixIgnoreCase (name suffix : List Char) : Option (List Char) :=
  if name.length < suffix.length then none
  else
    let n := name.length - suffix.length
    if eqIgnoreAsciiCase (name.drop n) suffix then some (name.take n) else none

/-- `strip_capture_ext`. -/
def stripCaptureExt (filename : List Char) : List Char :=
  match stripSuffixIgnoreCase filename ".pcap".toList with
  | some stripped => stripped
  | none => (stripSuffixIgnoreCase filename ".cap".toList).getD filename

section

variable (d : DigitClass)

/-- `(\d+)`. No pattern goes on with a digit behind it, so it takes all that there are. -/
def digits (input : List Char) : Option (List Char × List Char) :=
  if input.takeWhile d.isDigit = [] then none else some (input.takeWhile d.isDigit, input.dropWhile d.isDigit)

/-- `\.(\d+)(\.(\d+))?$`. -/
def rotationFields : List Char → Option (List Char × Option (List Char))
  | '.' :: input =>
      match digits d input with
      | some (a, []) => some (a, none)
      | some (a, '.' :: input) =>
          match digits d input with
          | some (b, []) => some (a, some b)
          | _ => none
      | _ => none
  | _ => none

/-- `^(.*?)\.(\d+)(\.(\d+))?$`: the shortest text before the numbers. -/
def suricataWithThreadId : List Char → Option (List Char × List Char × Option (List Char))
  | [] => none
  | c :: input =>
      match rotationFields d (c :: input) with
      | some (a, b) => some ([], a, b)
      | none =>
          if c = '\n' then none
          else (suricataWithThreadId input).map fun (basename, a, b) => (c :: basename, a, b)

/-- `(MIN_ROTATION_TIMESTAMP..=MAX_ROTATION_TIMESTAMP).contains(&ts)`. -/
def isRotationTimestamp (ts : ℕ) : Bool := minRotationTimestamp ≤ ts ∧ ts ≤ maxRotationTimestamp

/-- The digit-run fallback: the first digits of the name are the timestamp. -/
def simpleTimestamp (filename : List Char) : Option (String × ℕ × ℕ) := do
  let before := filename.takeWhile fun c => !d.isDigit c
  let (timestamp, after) ← digits d (filename.dropWhile fun c => !d.isDigit c)
  let ts ← parseUnsigned u64Max timestamp
  if isRotationTimestamp ts then some (String.ofList (before ++ after), 0, ts) else none

/-- `parse_filename`: base name, thread id and timestamp. -/
def parseFilename (filename : List Char) : Option (String × ℕ × ℕ) :=
  match suricataWithThreadId d (stripCaptureExt filename) with
  | some (basename, a, b) => do
      let a ← parseUnsigned u64Max a
      let b ← match b with
        | some b => parseUnsigned u64Max b
        | none => some 0
      let (id, ts) := if b < a then (b, a) else (a, b)
      if isRotationTimestamp ts then some (String.ofList basename, id, ts) else none
  | none => simpleTimestamp d filename

end

/-! ## Rotated files -/

/-- A file of a rotation: its base name, thread id and timestamp. -/
structure Rotation where
  base : List Char
  id : ℕ
  ts : ℕ
  oneLine : '\n' ∉ base
  inRange : minRotationTimestamp ≤ ts ∧ ts ≤ maxRotationTimestamp
  id_lt : id < ts

/-- What may be behind the numbers. -/
structure Extension where
  text : List Char
  known : text = [] ∨ eqIgnoreAsciiCase text ".pcap".toList = true ∨ eqIgnoreAsciiCase text ".cap".toList = true

/-- The numbers of a rotation, each behind a point. -/
def fields (a b : ℕ) : List Char := '.' :: Nat.toDigits 10 a ++ '.' :: Nat.toDigits 10 b

/-- The name of a rotated file, with its numbers in one order or the other. -/
def Rotation.name (r : Rotation) (swapped : Bool) (ext : Extension) : List Char :=
  r.base ++ (if swapped then fields r.ts r.id else fields r.id r.ts) ++ ext.text

/-- What `load_files` puts together: the base name and the thread id. -/
def groupOf (parsed : String × ℕ × ℕ) : String × ℕ := (parsed.1, parsed.2.1)

/-! ## The split -/

theorem digits_toDigits (d : DigitClass) (n : ℕ) {rest : List Char} (h : ∀ c ∈ rest.head?, d.isDigit c = false) :
    digits d (Nat.toDigits 10 n ++ rest) = some (Nat.toDigits 10 n, rest) := by
  have hall : ∀ c ∈ Nat.toDigits 10 n, d.isDigit c = true := fun c hc => d.ascii c (isDigit_of_mem_toDigits hc)
  have hrest : rest.takeWhile d.isDigit = [] ∧ rest.dropWhile d.isDigit = rest := by
    cases rest with
    | nil => exact ⟨rfl, rfl⟩
    | cons c rest => simp [h c rfl]
  rw [digits, List.takeWhile_append_of_pos hall, List.dropWhile_append_of_pos hall, hrest.1, hrest.2, List.append_nil,
    if_neg Nat.toDigits_ne_nil]

theorem rotationFields_fields (d : DigitClass) (a b : ℕ) :
    rotationFields d (fields a b) = some (Nat.toDigits 10 a, some (Nat.toDigits 10 b)) := by
  have hfirst : digits d (Nat.toDigits 10 a ++ '.' :: Nat.toDigits 10 b) = some (Nat.toDigits 10 a, '.' :: Nat.toDigits 10 b) := by
    refine digits_toDigits d a ?_
    rintro c ⟨⟩
    exact d.point
  have hsecond : digits d (Nat.toDigits 10 b ++ []) = some (Nat.toDigits 10 b, []) := digits_toDigits d b (by simp)
  rw [List.append_nil] at hsecond
  simp only [fields, List.cons_append, rotationFields, hfirst, hsecond]

/-- Digits have no point among them. -/
theorem count_of_digits {d : DigitClass} {input a rest : List Char} (h : digits d input = some (a, rest)) :
    input.count '.' = rest.count '.' := by
  unfold digits at h
  split_ifs at h
  obtain ⟨-, rfl⟩ := Prod.mk.inj (Option.some.inj h)
  have hnone : (input.takeWhile d.isDigit).count '.' = 0 :=
    List.count_eq_zero.mpr fun hmem => by
      have htrue := List.all_eq_true.mp List.all_takeWhile _ hmem
      rw [d.point] at htrue
      exact absurd htrue Bool.false_ne_true
  have hsplit : (input.takeWhile d.isDigit ++ input.dropWhile d.isDigit).count '.' = input.count '.' := by
    rw [List.takeWhile_append_dropWhile]
  rw [← hsplit, List.count_append, hnone, Nat.zero_add]

/-- The numbers have at most two points, and begin with one. -/
theorem rotationFields_points {d : DigitClass} {input : List Char} {r} (h : rotationFields d input = some r) :
    input.count '.' ≤ 2 ∧ input.head? = some '.' := by
  unfold rotationFields at h
  split at h
  · rename_i input
    refine ⟨?_, rfl⟩
    rw [List.count_cons_self]
    split at h
    · rename_i a hdigits
      rw [count_of_digits hdigits]
      simp
    · rename_i a rest hdigits
      rw [count_of_digits hdigits, List.count_cons_self]
      split at h
      · rename_i b hdigits'
        rw [count_of_digits hdigits']
        simp
      · cases h
    · cases h
  · cases h

theorem count_fields (a b : ℕ) : (fields a b).count '.' = 2 := by
  have hnone : ∀ n, (Nat.toDigits 10 n).count '.' = 0 := fun n => List.count_eq_zero.mpr fun hmem =>
    absurd (isDigit_of_mem_toDigits hmem) (by decide)
  simp [fields, hnone]

/-- The shortest text before the numbers is the base name, whatever numbers there are in it. -/
theorem suricataWithThreadId_fields (d : DigitClass) (a b : ℕ) {base : List Char} (h : '\n' ∉ base) :
    suricataWithThreadId d (base ++ fields a b) = some (base, Nat.toDigits 10 a, some (Nat.toDigits 10 b)) := by
  induction base with
  | nil =>
      have hfields := rotationFields_fields d a b
      rw [List.nil_append]
      unfold fields at hfields ⊢
      rw [List.cons_append] at hfields ⊢
      rw [suricataWithThreadId, hfields]
  | cons c base ih =>
      have hbase : '\n' ∉ base := fun hmem => h (List.mem_cons_of_mem _ hmem)
      have hline : c ≠ '\n' := fun heq => h (heq ▸ List.mem_cons_self)
      have hnone : rotationFields d (c :: (base ++ fields a b)) = none := by
        refine Option.eq_none_iff_forall_ne_some.mpr fun r hr => ?_
        obtain ⟨hcount, hhead⟩ := rotationFields_points hr
        obtain rfl : c = '.' := Option.some.inj hhead
        rw [List.count_cons_self, List.count_append, count_fields] at hcount
        omega
      rw [List.cons_append, suricataWithThreadId, hnone]
      simp only [hline, if_false, ih hbase, Option.map_some]

/-! ## The extension -/

theorem toLower_of_isDigit {c : Char} (h : c.isDigit = true) : c.toLower = c := by
  have hbounds : c.val ≤ '9'.val := by
    simp only [Char.isDigit, Bool.and_eq_true, decide_eq_true_eq] at h
    exact h.2
  have hlow : ¬ ('A'.val ≤ c.val ∧ c.val ≤ 'Z'.val) := fun hupper =>
    absurd (UInt32.le_trans hupper.1 hbounds) (by decide)
  unfold Char.toLower
  exact dif_neg hlow

theorem length_of_eqIgnoreAsciiCase {a b : List Char} (h : eqIgnoreAsciiCase a b = true) : a.length = b.length := by
  have hmap : a.map Char.toLower = b.map Char.toLower := of_decide_eq_true h
  simpa using congrArg List.length hmap

/-- An extension that is there is stripped. -/
theorem stripSuffixIgnoreCase_append (name : List Char) {ext suffix : List Char} (h : eqIgnoreAsciiCase ext suffix = true) :
    stripSuffixIgnoreCase (name ++ ext) suffix = some name := by
  have hlength := length_of_eqIgnoreAsciiCase h
  have hle : ¬ (name ++ ext).length < suffix.length := by
    rw [List.length_append]
    omega
  have hat : (name ++ ext).length - suffix.length = name.length := by
    rw [List.length_append]
    omega
  unfold stripSuffixIgnoreCase
  dsimp only
  rw [if_neg hle, hat, List.drop_left, if_pos h, List.take_left]

/-- A digit is no part of an extension: one that would begin with it, or end with it, is not there. -/
theorem stripSuffixIgnoreCase_digit {name : List Char} {c : Char} (hc : c.isDigit = true) {ext suffix rest : List Char} {s : Char}
    (hsuffix : suffix = rest ++ s :: ext) (hs : s.toLower ≠ c) {text : List Char} (htext : text.length = ext.length) :
    stripSuffixIgnoreCase (name ++ c :: text) suffix = none := by
  unfold stripSuffixIgnoreCase
  dsimp only
  split_ifs with hlength heq
  · rfl
  · have hmap : ((name ++ c :: text).drop ((name ++ c :: text).length - suffix.length)).map Char.toLower =
        suffix.map Char.toLower := of_decide_eq_true heq
    have hat := congrArg (fun l => l[rest.length]?) hmap
    have hindex : (name ++ c :: text).length - suffix.length + rest.length = name.length := by
      rw [List.length_append, List.length_cons, hsuffix, List.length_append, List.length_cons] at hlength ⊢
      omega
    simp only [List.getElem?_map, List.getElem?_drop, hindex] at hat
    rw [hsuffix] at hat
    simp only [List.getElem?_append_right (le_refl _), Nat.sub_self, List.getElem?_cons_zero, Option.map_some,
      Option.some.injEq, toLower_of_isDigit hc] at hat
    exact absurd hat.symm hs
  · rfl

theorem exists_digit_fields (base : List Char) (a b : ℕ) :
    ∃ init c, base ++ fields a b = init ++ [c] ∧ c.isDigit = true := by
  have hne := Nat.toDigits_ne_nil (n := b) (b := 10)
  refine ⟨base ++ '.' :: Nat.toDigits 10 a ++ '.' :: (Nat.toDigits 10 b).dropLast, (Nat.toDigits 10 b).getLast hne, ?_,
    isDigit_of_mem_toDigits (List.getLast_mem hne)⟩
  simp [fields, List.dropLast_concat_getLast]

/-- An extension is all that is stripped of the name of a rotated file. -/
theorem stripCaptureExt_append (base : List Char) (a b : ℕ) (ext : Extension) :
    stripCaptureExt (base ++ fields a b ++ ext.text) = base ++ fields a b := by
  obtain ⟨init, c, hname, hc⟩ := exists_digit_fields base a b
  have hne : ∀ s : Char, s.isDigit = false → s ≠ c := by
    rintro s hs rfl
    exact absurd hc (by rw [hs]; decide)
  rcases ext.known with hnone | hpcap | hcap
  · have hp : stripSuffixIgnoreCase (init ++ [c]) ".pcap".toList = none :=
      stripSuffixIgnoreCase_digit hc (show ".pcap".toList = ".pca".toList ++ 'p' :: [] from rfl) (hne _ (by decide)) rfl
    have hq : stripSuffixIgnoreCase (init ++ [c]) ".cap".toList = none :=
      stripSuffixIgnoreCase_digit hc (show ".cap".toList = ".ca".toList ++ 'p' :: [] from rfl) (hne _ (by decide)) rfl
    rw [hnone, List.append_nil, stripCaptureExt, hname, hp, hq]
    rfl
  · rw [stripCaptureExt, stripSuffixIgnoreCase_append _ hpcap]
  · have hlength : ext.text.length = "cap".toList.length + 1 := length_of_eqIgnoreAsciiCase hcap
    have hp : stripSuffixIgnoreCase (init ++ c :: ext.text) ".pcap".toList = none :=
      stripSuffixIgnoreCase_digit hc (show ".pcap".toList = [] ++ '.' :: "pcap".toList from rfl) (hne _ (by decide)) hlength
    have hname' : base ++ fields a b ++ ext.text = init ++ c :: ext.text := by rw [hname]; simp
    rw [stripCaptureExt, hname', hp, ← hname', stripSuffixIgnoreCase_append _ hcap]
    rfl

/-! ## What is read of a name -/

/-- Numbers in either order: the greater one is the timestamp. -/
theorem parseFilename_fields (d : DigitClass) {base : List Char} (hbase : '\n' ∉ base) {a b : ℕ} (ha : a ≤ u64Max)
    (hb : b ≤ u64Max) (ext : Extension) : parseFilename d (base ++ fields a b ++ ext.text) =
      if isRotationTimestamp (max a b) then some (String.ofList base, min a b, max a b) else none := by
  unfold parseFilename
  rw [stripCaptureExt_append, suricataWithThreadId_fields d a b hbase]
  simp only [parseUnsigned_toDigits ha, parseUnsigned_toDigits hb, Option.bind_eq_bind, Option.bind_some]
  by_cases hlt : b < a
  · rw [if_pos hlt, max_eq_left hlt.le, min_eq_right hlt.le]
  · rw [if_neg hlt, max_eq_right (not_lt.mp hlt), min_eq_left (not_lt.mp hlt)]

theorem Rotation.parseFilename_name (d : DigitClass) (r : Rotation) (swapped : Bool) (ext : Extension) :
    parseFilename d (r.name swapped ext) = some (String.ofList r.base, r.id, r.ts) := by
  have hts : r.ts ≤ u64Max := le_trans r.inRange.2 (by decide)
  have hid : r.id ≤ u64Max := le_trans r.id_lt.le hts
  have hrange : isRotationTimestamp r.ts = true := decide_eq_true r.inRange
  unfold Rotation.name
  cases swapped with
  | false =>
      rw [if_neg Bool.false_ne_true, parseFilename_fields d r.oneLine hid hts, max_eq_right r.id_lt.le,
        min_eq_left r.id_lt.le, if_pos hrange]
  | true =>
      rw [if_pos rfl, parseFilename_fields d r.oneLine hts hid, max_eq_left r.id_lt.le, min_eq_right r.id_lt.le,
        if_pos hrange]

/-- The name of a rotated file gives its base name, thread id and timestamp, so that files of different rotations are
never put together. -/
theorem parseFilename_law (d : DigitClass) (r : Rotation) (swapped : Bool) (ext : Extension) :
    parseFilename d (r.name swapped ext) = some (String.ofList r.base, r.id, r.ts) ∧
      ∀ (r' : Rotation) (swapped' : Bool) (ext' : Extension),
        (parseFilename d (r'.name swapped' ext')).map groupOf = (parseFilename d (r.name swapped ext)).map groupOf →
          r'.base = r.base ∧ r'.id = r.id := by
  refine ⟨r.parseFilename_name d swapped ext, fun r' swapped' ext' h => ?_⟩
  rw [r.parseFilename_name, r'.parseFilename_name, Option.map_some, Option.map_some] at h
  obtain ⟨hbase, hid⟩ := Prod.mk.inj (Option.some.inj h)
  exact ⟨String.ofList_injective hbase, hid⟩

example : parseFilename .plain "10.0.0.1.pcap.1.1649915733".toList = some ("10.0.0.1.pcap", 1, 1649915733) := by
  decide +kernel

end EveBox.Pcap
