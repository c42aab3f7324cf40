import EveBox.Lib.JsonTokens
import EveBox.Rust.JsonText

/-!
# JSON in an HTTP header

Reference: `ascii_json` of `src/agent/channel.rs`.
-/

namespace EveBox.Agent

open Rust JsonTokens

/-- `{unit:04x}`. -/
def format04x (unit : ℕ) : List Char := (Nat.toDigits 16 unit).leftpad 4 '0'

/-- `ascii_json`. -/
def asciiJson (json : List Char) : List Char :=
  json.flatMap fun character =>
    if character.toNat < 128 then [character]
    else (utf16 character).flatMap fun unit => '\\' :: 'u' :: format04x unit

example : asciiJson "\"höst-🦀\"".toList = "\"h\\u00f6st-\\ud83e\\udd80\"".toList := by decide +kernel

/-- A text of nothing but ASCII. -/
def IsAscii (text : List Char) : Prop := ∀ c ∈ text, c.toNat < 128

/-! ## The digits of a code unit -/

theorem hexValue_digitChar : ∀ d < 16, hexValue (Nat.digitChar d) = some d := by decide

/-- Four digits are written of a number of sixteen bits. -/
theorem format04x_eq {n : ℕ} (h : n < 0x10000) : format04x n =
    [Nat.digitChar (n / 4096), Nat.digitChar (n / 256 % 16), Nat.digitChar (n / 16 % 16), Nat.digitChar (n % 16)] := by
  have hstep : ∀ m, 16 ≤ m → Nat.toDigits 16 m = Nat.toDigits 16 (m / 16) ++ [Nat.digitChar (m % 16)] :=
    fun m hm => Nat.toDigits_of_base_le (by decide) hm
  have hlast : ∀ m < 16, Nat.toDigits 16 m = [Nat.digitChar m] := fun m hm => Nat.toDigits_of_lt_base hm
  have hzero : Nat.digitChar 0 = '0' := rfl
  have hsecond : n / 16 / 16 = n / 256 := Nat.div_div_eq_div_mul n 16 16
  have hfirst : n / 256 / 16 = n / 4096 := Nat.div_div_eq_div_mul n 256 16
  unfold format04x
  by_cases h16 : n < 16
  · have hdigits : n / 4096 = 0 ∧ n / 256 % 16 = 0 ∧ n / 16 % 16 = 0 ∧ n % 16 = n := by omega
    rw [hlast n h16, hdigits.1, hdigits.2.1, hdigits.2.2.1, hdigits.2.2.2, hzero]
    rfl
  by_cases h256 : n < 256
  · have hdigits : n / 4096 = 0 ∧ n / 256 % 16 = 0 ∧ n / 16 % 16 = n / 16 := by omega
    rw [hstep n (by omega), hlast (n / 16) (by omega), hdigits.1, hdigits.2.1, hdigits.2.2, hzero]
    rfl
  by_cases h4096 : n < 4096
  · have hdigits : n / 4096 = 0 ∧ n / 256 % 16 = n / 256 := by omega
    rw [hstep n (by omega), hstep (n / 16) (by omega), hsecond, hlast (n / 256) (by omega), hdigits.1, hdigits.2, hzero]
    rfl
  · rw [hstep n (by omega), hstep (n / 16) (by omega), hsecond, hstep (n / 256) (by omega), hfirst,
      hlast (n / 4096) (by omega)]
    rfl

theorem hex4_format04x {n : ℕ} (h : n < 0x10000) : Hex4 (format04x n) n := by
  have hvalue : 16 * (16 * (16 * (n / 4096) + n / 256 % 16) + n / 16 % 16) + n % 16 = n := by omega
  have hdigits := Hex4.mk (hexValue_digitChar (n / 4096) (by omega)) (hexValue_digitChar (n / 256 % 16) (by omega))
    (hexValue_digitChar (n / 16 % 16) (by omega)) (hexValue_digitChar (n % 16) (by omega))
  rw [hvalue] at hdigits
  rw [format04x_eq h]
  exact hdigits

/-! ## The text -/

/-- What is written for a character outside of ASCII. -/
theorem escapes_character (c : Char) : Escapes ((utf16 c).flatMap fun unit => '\\' :: 'u' :: format04x unit) c :=
  escapes_utf16 c fun _ hn => hex4_format04x (lt_of_mem_utf16 hn)

theorem isAscii_asciiJson (json : List Char) : IsAscii (asciiJson json) := by
  intro d hd
  obtain ⟨c, -, hd⟩ := List.mem_flatMap.mp hd
  split at hd
  · rename_i hascii
    exact List.mem_singleton.mp hd ▸ hascii
  · obtain ⟨n, hn, hd⟩ := List.mem_flatMap.mp hd
    rcases List.mem_cons.mp hd with rfl | hd
    · decide
    rcases List.mem_cons.mp hd with rfl | hd
    · decide
    · exact (hex4_format04x (lt_of_mem_utf16 hn)).ascii d hd

/-- The text is ASCII, and has the same tokens, so it has the same value. -/
theorem asciiJson_law (readNumber : List Char → Option Number) (json : List Char) :
    IsAscii (asciiJson json) ∧
      ∀ value, Json.fromStr readNumber json = some value → Json.fromStr readNumber (asciiJson json) = some value := by
  refine ⟨isAscii_asciiJson json, fun value h => ?_⟩
  obtain ⟨ts, htokens, hvalue⟩ := Option.bind_eq_some_iff.mp h
  have hascii : tokens (asciiJson json) = some ts :=
    tokens_flatMap (fun c hc => if_pos hc) (fun c hc => if_neg (Nat.not_lt.mpr hc) ▸ escapes_character c) htokens
  exact Option.bind_eq_some_iff.mpr ⟨ts, hascii, hvalue⟩

/-- A string with a character that is two code units, behind an escape and a pair of escapes. -/
theorem asciiJson_law_crab : Json.fromStr (fun _ => none) (asciiJson "[\"\\u00e9\\ud83e\\udd80\\\\🦀\"]".toList) =
    some (.array [.string "é🦀\\🦀"]) :=
  (asciiJson_law _ _).2 _ (by decide +kernel)

-- The converse fails: a text that is no JSON may become one.
example : Json.fromStr (fun _ => none) "\"\\é\"".toList = none ∧
    Json.fromStr (fun _ => none) (asciiJson "\"\\é\"".toList) = some (.string "\\u00e9") := by decide +kernel

end EveBox.Agent
