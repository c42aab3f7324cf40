import Mathlib

/-!
# Sums in one's complement

The checksum of the internet protocols: words of sixteen bits are added with the carry brought around, and what
is sent is the complement of the sum, in the place of a field that was zero while the words were added. A
receiver adds all words, the field among them, and expects all ones.
-/

namespace OnesComplement

/-- The largest word. -/
def ones : ℕ := 0xffff

/-- Adds a word, with the carry brought around. -/
def add (sum word : ℕ) : ℕ := if ones < sum + word then sum + word - ones else sum + word

/-- Adds some words. -/
def addWords (sum : ℕ) (words : List ℕ) : ℕ := words.foldl add sum

/-- The words of some bytes, with a byte of zeros behind an odd number of them. -/
def words : List UInt8 → List ℕ
  | a :: b :: rest => (a.toNat * 256 + b.toNat) :: words rest
  | [a] => [a.toNat * 256]
  | [] => []

/-- The complement of the sum of some words, added from all ones on. -/
def checksum (ws : List ℕ) : ℕ := ones - addWords ones ws

/-- A receiver adds the words of these bytes to all ones. -/
def Verifies (bytes : List UInt8) : Prop := addWords 0 (words bytes) = ones

instance (bytes : List UInt8) : Decidable (Verifies bytes) := inferInstanceAs (Decidable (_ = _))

/-! ## Sums -/

theorem add_le {sum word : ℕ} (hsum : sum ≤ ones) (hword : word ≤ ones) : add sum word ≤ ones := by
  unfold add
  split <;> omega

theorem add_mod (sum word : ℕ) : add sum word % ones = (sum + word) % ones := by
  unfold add ones
  split <;> omega

/-- A carry leaves a word that is not zero. -/
theorem add_eq_zero {sum word : ℕ} : add sum word = 0 ↔ sum = 0 ∧ word = 0 := by
  unfold add
  split <;> omega

theorem addWords_le {ws : List ℕ} (hws : ∀ w ∈ ws, w ≤ ones) {sum : ℕ} (hsum : sum ≤ ones) :
    addWords sum ws ≤ ones := by
  induction ws generalizing sum with
  | nil => exact hsum
  | cons w ws ih =>
    apply ih (fun v hv => hws v (List.mem_cons_of_mem w hv))
    exact add_le hsum (hws w List.mem_cons_self)

theorem addWords_mod (ws : List ℕ) (sum : ℕ) : addWords sum ws % ones = (sum + ws.sum) % ones := by
  induction ws generalizing sum with
  | nil => rfl
  | cons w ws ih =>
    show addWords (add sum w) ws % ones = (sum + (w :: ws).sum) % ones
    rw [ih, List.sum_cons, ← Nat.add_assoc, Nat.add_mod, add_mod, ← Nat.add_mod]

theorem addWords_eq_zero (ws : List ℕ) (sum : ℕ) : addWords sum ws = 0 ↔ sum = 0 ∧ ws.sum = 0 := by
  induction ws generalizing sum with
  | nil => exact ⟨fun h => ⟨h, rfl⟩, fun h => h.1⟩
  | cons w ws ih =>
    show addWords (add sum w) ws = 0 ↔ sum = 0 ∧ (w :: ws).sum = 0
    rw [ih, add_eq_zero, List.sum_cons]
    omega

theorem checksum_le (ws : List ℕ) : checksum ws ≤ ones := Nat.sub_le _ _

/-- The checksum makes up what the words lack. -/
theorem checksum_mod {ws : List ℕ} (hws : ∀ w ∈ ws, w ≤ ones) : (ws.sum + checksum ws) % ones = 0 := by
  have hle := addWords_le hws (le_refl ones)
  have hmod := addWords_mod ws ones
  unfold checksum
  unfold ones at hle hmod ⊢
  omega

/-! ## Words -/

theorem words_le : ∀ bytes : List UInt8, ∀ w ∈ words bytes, w ≤ ones
  | [] => fun w hw => absurd hw List.not_mem_nil
  | [a] => by
    intro w hw
    have ha := a.toNat_lt
    rw [show w = a.toNat * 256 from List.mem_singleton.1 hw]
    unfold ones
    omega
  | a :: b :: rest => by
    intro w hw
    have ha := a.toNat_lt
    have hb := b.toNat_lt
    rcases List.mem_cons.1 hw with rfl | hw
    · unfold ones
      omega
    · exact words_le rest w hw

/-- A part of whole words can be taken apart. -/
theorem words_append : ∀ {bytes : List UInt8}, 2 ∣ bytes.length → ∀ rest : List UInt8,
    words (bytes ++ rest) = words bytes ++ words rest
  | [], _, rest => rfl
  | [a], h, rest => absurd h (show ¬ 2 ∣ 1 by decide)
  | a :: b :: bytes, h, rest => by
    have hlen : (a :: b :: bytes).length = bytes.length + 2 := rfl
    have heven : 2 ∣ bytes.length := by omega
    show _ :: words (bytes ++ rest) = (_ :: words bytes) ++ words rest
    rw [words_append heven rest, List.cons_append]

/-- The word of two bytes that a number is written in. -/
theorem words_pair {x : ℕ} (h : x ≤ ones) : words [UInt8.ofNat (x / 256), UInt8.ofNat x] = [x] := by
  have hhigh : (UInt8.ofNat (x / 256)).toNat = x / 256 % 2 ^ 8 := UInt8.toNat_ofNat'
  have hlow : (UInt8.ofNat x).toNat = x % 2 ^ 8 := UInt8.toNat_ofNat'
  show [(UInt8.ofNat (x / 256)).toNat * 256 + (UInt8.ofNat x).toNat] = [x]
  rw [hhigh, hlow]
  unfold ones at h
  congr 1
  omega

/-- Bytes verify when the field that was zero holds their checksum, unless all of them are zero. -/
theorem verifies_of_checksum {before after : List UInt8} (heven : 2 ∣ before.length)
    (hne : (words (before ++ [0, 0] ++ after)).sum ≠ 0) :
    Verifies (before ++ [UInt8.ofNat (checksum (words (before ++ [0, 0] ++ after)) / 256),
      UInt8.ofNat (checksum (words (before ++ [0, 0] ++ after)))] ++ after) := by
  have hwords : ∀ field : List UInt8, 2 ∣ field.length →
      (words (before ++ field ++ after)).sum = (words before).sum + (words field).sum + (words after).sum := by
    intro field hfield
    have hlen : 2 ∣ (before ++ field).length := by rw [List.length_append]; omega
    rw [words_append hlen, words_append heven, List.sum_append, List.sum_append]
  have hmod := checksum_mod (words_le (before ++ [0, 0] ++ after))
  have hpair := words_pair (checksum_le (words (before ++ [0, 0] ++ after)))
  generalize hc : checksum (words (before ++ [0, 0] ++ after)) = c at hmod hpair ⊢
  have hzero := hwords [0, 0] (by decide)
  have hfield := hwords [UInt8.ofNat (c / 256), UInt8.ofNat c] (by decide : 2 ∣ 2)
  rw [hpair, List.sum_singleton] at hfield
  rw [show (words ([0, 0] : List UInt8)).sum = 0 from rfl] at hzero
  unfold Verifies
  generalize before ++ [UInt8.ofNat (c / 256), UInt8.ofNat c] ++ after = bytes at hfield ⊢
  -- the sum is a multiple of all ones that is not zero, and no greater than all ones
  have hle : addWords 0 (words bytes) ≤ ones := addWords_le (words_le bytes) (Nat.zero_le _)
  have hsum := addWords_mod (words bytes) 0
  have hnonzero : addWords 0 (words bytes) ≠ 0 := by
    intro h
    have hall := ((addWords_eq_zero (words bytes) 0).1 h).2
    omega
  have hmultiple : addWords 0 (words bytes) % ones = 0 := by
    have hsame : 0 + (words bytes).sum = (words (before ++ [0, 0] ++ after)).sum + c := by omega
    rw [hsum, hsame, hmod]
  unfold ones at hle hmultiple ⊢
  omega

end OnesComplement
