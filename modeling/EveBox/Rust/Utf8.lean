import EveBox.Rust.Text
import Mathlib.Data.List.Basic

/-!
# Texts in UTF-8

The bytes of a `String`.

* `utf8Decode_utf8Encode` — a text is read from its bytes.
* `utf8Encode_append` and `newline_not_mem_utf8Encode` — its lines are those of its bytes.
-/

namespace EveBox.Rust

/-- The bytes of a character. -/
def utf8EncodeChar (c : Char) : Bytes :=
  let n := c.toNat
  if n < 0x80 then [.ofNat n]
  else if n < 0x800 then [.ofNat (0xC0 + n / 64), .ofNat (0x80 + n % 64)]
  else if n < 0x10000 then [.ofNat (0xE0 + n / 4096), .ofNat (0x80 + n / 64 % 64), .ofNat (0x80 + n % 64)]
  else [.ofNat (0xF0 + n / 262144), .ofNat (0x80 + n / 4096 % 64), .ofNat (0x80 + n / 64 % 64), .ofNat (0x80 + n % 64)]

/-- `str::as_bytes`. -/
def utf8Encode (text : List Char) : Bytes := text.flatMap utf8EncodeChar

theorem utf8Encode_append (a b : List Char) : utf8Encode (a ++ b) = utf8Encode a ++ utf8Encode b :=
  List.flatMap_append

/-! ## A character -/

theorem toNat_byte {n : ℕ} (h : n < 256) : (UInt8.ofNat n).toNat = n := by
  rw [UInt8.toNat_ofNat', Nat.mod_eq_of_lt h]

/-- A byte that goes on with a character. -/
theorem continuation_byte {n : ℕ} (h : n < 64) :
    isContinuation (.ofNat (0x80 + n)) = true ∧ continuationBits (.ofNat (0x80 + n)) = n := by
  have hbyte := @toNat_byte (0x80 + n) (by omega)
  refine ⟨?_, ?_⟩
  · rw [isContinuation, Bool.and_eq_true, decide_eq_true_eq, decide_eq_true_eq, UInt8.le_iff_toNat_le,
      UInt8.le_iff_toNat_le, hbyte]
    exact ⟨Nat.le_add_right _ _, show 0x80 + n ≤ 0xBF by omega⟩
  · rw [continuationBits, hbyte]
    omega

/-- The first character of a text is read from its bytes. -/
theorem utf8First_utf8EncodeChar (c : Char) (rest : Bytes) :
    utf8First (utf8EncodeChar c ++ rest) = some (c, (utf8EncodeChar c).length) := by
  have hvalid : c.toNat < 0xD800 ∨ 0xDFFF < c.toNat ∧ c.toNat < 0x110000 := c.valid
  have hchar : ∀ n, n = c.toNat → Char.ofNat n = c := fun n hn => by rw [hn, Char.ofNat_toNat]
  unfold utf8EncodeChar
  dsimp only
  split
  · rename_i hone
    have hbyte := @toNat_byte c.toNat (by omega)
    have hlt : UInt8.ofNat c.toNat < 0x80 := by
      rw [UInt8.lt_iff_toNat_lt, hbyte]
      exact hone
    rw [List.singleton_append]
    unfold utf8First
    dsimp only
    rw [if_pos hlt, hbyte, Char.ofNat_toNat]
    rfl
  split
  · rename_i hone htwo
    have ha := @toNat_byte (0xC0 + c.toNat / 64) (by omega)
    have hb := @continuation_byte (c.toNat % 64) (by omega)
    have hge : ¬ UInt8.ofNat (0xC0 + c.toNat / 64) < 0x80 := by
      rw [UInt8.lt_iff_toNat_lt, ha]
      exact show ¬ 0xC0 + c.toNat / 64 < 0x80 by omega
    have hfirst : (0xC2 ≤ UInt8.ofNat (0xC0 + c.toNat / 64) && UInt8.ofNat (0xC0 + c.toNat / 64) ≤ 0xDF) = true := by
      rw [Bool.and_eq_true, decide_eq_true_eq, decide_eq_true_eq, UInt8.le_iff_toNat_le, UInt8.le_iff_toNat_le, ha]
      exact show 0xC2 ≤ 0xC0 + c.toNat / 64 ∧ 0xC0 + c.toNat / 64 ≤ 0xDF by omega
    show utf8First (_ :: _ :: rest) = _
    unfold utf8First
    dsimp only
    rw [if_neg hge, if_pos hfirst, if_pos hb.1, ha, hb.2, hchar _ (by omega)]
    rfl
  split
  · rename_i hone htwo hthree
    have ha := @toNat_byte (0xE0 + c.toNat / 4096) (by omega)
    have hb := @toNat_byte (0x80 + c.toNat / 64 % 64) (by omega)
    have hbits := @continuation_byte (c.toNat / 64 % 64) (by omega)
    have hc := @continuation_byte (c.toNat % 64) (by omega)
    have hdiv : c.toNat / 64 / 64 = c.toNat / 4096 := Nat.div_div_eq_div_mul _ _ _
    have hge : ¬ UInt8.ofNat (0xE0 + c.toNat / 4096) < 0x80 := by
      rw [UInt8.lt_iff_toNat_lt, ha]
      exact show ¬ 0xE0 + c.toNat / 4096 < 0x80 by omega
    have hnot : ¬ (0xC2 ≤ UInt8.ofNat (0xE0 + c.toNat / 4096) &&
        UInt8.ofNat (0xE0 + c.toNat / 4096) ≤ 0xDF) = true := by
      rw [Bool.and_eq_true, decide_eq_true_eq, decide_eq_true_eq, UInt8.le_iff_toNat_le, UInt8.le_iff_toNat_le, ha]
      exact show ¬ (0xC2 ≤ 0xE0 + c.toNat / 4096 ∧ 0xE0 + c.toNat / 4096 ≤ 0xDF) by omega
    show utf8First (_ :: _ :: _ :: rest) = _
    unfold utf8First
    dsimp only
    rw [if_neg hge, if_neg hnot, if_pos, if_pos hc.1, ha, hbits.2, hc.2, hchar _ (by omega)]
    · rfl
    · simp only [hbits.1, Bool.or_eq_true, Bool.and_eq_true, decide_eq_true_eq, beq_iff_eq, ← UInt8.toNat_inj,
        UInt8.le_iff_toNat_le, ha, hb, UInt8.reduceToNat, and_true]
      omega
  · rename_i hone htwo hthree
    have ha := @toNat_byte (0xF0 + c.toNat / 262144) (by omega)
    have hb := @toNat_byte (0x80 + c.toNat / 4096 % 64) (by omega)
    have hbits := @continuation_byte (c.toNat / 4096 % 64) (by omega)
    have hc := @continuation_byte (c.toNat / 64 % 64) (by omega)
    have hd := @continuation_byte (c.toNat % 64) (by omega)
    have hdiv : c.toNat / 64 / 64 = c.toNat / 4096 := Nat.div_div_eq_div_mul _ _ _
    have hdiv' : c.toNat / 4096 / 64 = c.toNat / 262144 := Nat.div_div_eq_div_mul _ _ _
    have hge : ¬ UInt8.ofNat (0xF0 + c.toNat / 262144) < 0x80 := by
      rw [UInt8.lt_iff_toNat_lt, ha]
      exact show ¬ 0xF0 + c.toNat / 262144 < 0x80 by omega
    have hnot : ¬ (0xC2 ≤ UInt8.ofNat (0xF0 + c.toNat / 262144) &&
        UInt8.ofNat (0xF0 + c.toNat / 262144) ≤ 0xDF) = true := by
      rw [Bool.and_eq_true, decide_eq_true_eq, decide_eq_true_eq, UInt8.le_iff_toNat_le, UInt8.le_iff_toNat_le, ha]
      exact show ¬ (0xC2 ≤ 0xF0 + c.toNat / 262144 ∧ 0xF0 + c.toNat / 262144 ≤ 0xDF) by omega
    show utf8First (_ :: _ :: _ :: _ :: rest) = _
    unfold utf8First
    dsimp only
    rw [if_neg hge, if_neg hnot, if_neg, if_pos, ha, hbits.2, hc.2, hd.2, hchar _ (by omega)]
    · rfl
    · simp only [hbits.1, hc.1, hd.1, Bool.or_eq_true, Bool.and_eq_true, decide_eq_true_eq, beq_iff_eq,
        ← UInt8.toNat_inj, UInt8.le_iff_toNat_le, ha, hb, UInt8.reduceToNat, and_true]
      omega
    · simp only [hbits.1, Bool.or_eq_true, Bool.and_eq_true, decide_eq_true_eq, beq_iff_eq, ← UInt8.toNat_inj,
        UInt8.le_iff_toNat_le, ha, hb, UInt8.reduceToNat, and_true]
      omega

theorem utf8EncodeChar_ne_nil (c : Char) : utf8EncodeChar c ≠ [] := by
  unfold utf8EncodeChar
  dsimp only
  split
  · exact List.cons_ne_nil _ _
  split
  · exact List.cons_ne_nil _ _
  split <;> exact List.cons_ne_nil _ _

/-! ## A text -/

theorem utf8Decode_utf8Encode (text : List Char) : utf8Decode (utf8Encode text) = some text := by
  have hfuel : ∀ fuel, (utf8Encode text).length ≤ fuel → utf8DecodeFuel fuel (utf8Encode text) = some text := by
    induction text with
    | nil => exact fun fuel _ => by cases fuel <;> rfl
    | cons c text ih =>
        intro fuel hle
        have hcons : utf8Encode (c :: text) = utf8EncodeChar c ++ utf8Encode text := rfl
        rw [hcons] at hle ⊢
        have hpos : 0 < (utf8EncodeChar c).length := List.length_pos_of_ne_nil (utf8EncodeChar_ne_nil c)
        rw [List.length_append] at hle
        obtain ⟨fuel, rfl⟩ := Nat.exists_eq_add_of_le' (show 1 ≤ fuel by omega)
        have hne : utf8EncodeChar c ++ utf8Encode text ≠ [] :=
          List.append_ne_nil_of_left_ne_nil (utf8EncodeChar_ne_nil c) _
        rw [utf8DecodeFuel, utf8First_utf8EncodeChar, Option.bind_eq_bind, Option.bind_some]
        · dsimp only
          rw [List.drop_left, ih fuel (by omega)]
          rfl
        · exact hne
  exact hfuel _ le_rfl

/-- A byte of a newline is one of a newline. -/
theorem newline_not_mem_utf8Encode {text : List Char} (h : '\n' ∉ text) : newline ∉ utf8Encode text := by
  intro hmem
  obtain ⟨c, hc, hbyte⟩ := List.mem_flatMap.mp hmem
  have hne : c.toNat ≠ 10 := by
    intro hten
    have hnewline : c = '\n' := by rw [← Char.ofNat_toNat c, hten]
    exact h (hnewline ▸ hc)
  have hvalid : c.toNat < 0xD800 ∨ 0xDFFF < c.toNat ∧ c.toNat < 0x110000 := c.valid
  have hother : ∀ n, n < 256 → n ≠ 10 → newline ≠ UInt8.ofNat n := fun n hn hten heq => by
    have heq' := congrArg UInt8.toNat heq
    rw [toNat_byte hn] at heq'
    exact hten heq'.symm
  unfold utf8EncodeChar at hbyte
  dsimp only at hbyte
  split at hbyte
  · exact hother _ (by omega) hne (List.mem_singleton.mp hbyte)
  split at hbyte
  · simp only [List.mem_cons, List.not_mem_nil, or_false] at hbyte
    rcases hbyte with hbyte | hbyte <;> exact hother _ (by omega) (by omega) hbyte
  split at hbyte
  · simp only [List.mem_cons, List.not_mem_nil, or_false] at hbyte
    rcases hbyte with hbyte | hbyte | hbyte <;> exact hother _ (by omega) (by omega) hbyte
  · simp only [List.mem_cons, List.not_mem_nil, or_false] at hbyte
    rcases hbyte with hbyte | hbyte | hbyte | hbyte <;> exact hother _ (by omega) (by omega) hbyte

end EveBox.Rust
