import Mathlib.Algebra.Group.Int.Defs
import Mathlib.Algebra.GroupWithZero.Nat
import Mathlib.Data.Nat.Basic
import Mathlib.Order.MinMax

/-!
# The parts of Rust's standard library that the models use

Unsigned machine integers are natural numbers; the operations that can leave the range of `u64` are
spelled out here. `std::io::Write` is a class over the state of the output.
-/

namespace EveBox.Rust

/-- `u64::MAX`. -/
def u64Max : ℕ := 2 ^ 64 - 1

/-- `u64::try_from` on a signed integer. -/
def u64TryFrom (x : ℤ) : Option ℕ := if 0 ≤ x ∧ x ≤ u64Max then some x.toNat else none

/-- `u64::saturating_add`. -/
def saturatingAdd (a b : ℕ) : ℕ := min (a + b) u64Max

/-- `u64::saturating_mul`. -/
def saturatingMul (a b : ℕ) : ℕ := min (a * b) u64Max

/-- `u64::checked_add`. -/
def checkedAdd (a b : ℕ) : Option ℕ := if a + b ≤ u64Max then some (a + b) else none

/-- `u64::checked_mul`. -/
def checkedMul (a b : ℕ) : Option ℕ := if a * b ≤ u64Max then some (a * b) else none

theorem saturatingAdd_le (a b : ℕ) : saturatingAdd a b ≤ u64Max := min_le_right _ _

theorem saturatingMul_le (a b : ℕ) : saturatingMul a b ≤ u64Max := min_le_right _ _

theorem checkedAdd_eq_some {a b total : ℕ} (h : checkedAdd a b = some total) : total = a + b := by
  unfold checkedAdd at h
  split at h
  · exact (Option.some.inj h).symm
  · cases h

/-- `std::io::ErrorKind`, as far as the code tells kinds apart. -/
inductive ErrorKind
  | brokenPipe
  | interrupted
  | invalidData
  | notFound
  | timedOut
  | other
deriving DecidableEq, Repr

/-- `std::io::Error`: its kind and its text. -/
structure IoError where
  kind : ErrorKind
  message : String
deriving DecidableEq, Repr

/-- `Bytes`. -/
abbrev Bytes := List UInt8

theorem no_chunks : ∀ chunk ∈ ([] : List Bytes), chunk ≠ [] := List.forall_mem_nil _

/-- The sum of the lengths of some chunks. -/
def totalLength (chunks : List Bytes) : ℕ := (chunks.map List.length).sum

theorem totalLength_append (a b : List Bytes) :
    totalLength (a ++ b) = totalLength a + totalLength b := by
  simp [totalLength]

theorem totalLength_eq_flatten (chunks : List Bytes) : totalLength chunks = chunks.flatten.length := by
  rw [totalLength, List.length_flatten]

/-- `std::io::Write` over an output whose state is `ω`. A failed call may still have changed the
output. -/
class Write (ω : Type*) where
  writeAll : List UInt8 → ω → Except IoError Unit × ω
  flush : ω → Except IoError Unit × ω

/-- `Vec<u8>` as an output: it takes every byte and never fails. -/
instance : Write (List UInt8) where
  writeAll bytes out := (.ok (), out ++ bytes)
  flush out := (.ok (), out)

/-- An output that takes every byte it is given and never fails. -/
structure Sink (ω : Type*) [Write ω] where
  /-- The bytes the output has taken. -/
  contents : ω → List UInt8
  writeAll : ∀ (bytes : List UInt8) (out : ω), ∃ out',
    Write.writeAll bytes out = (.ok (), out') ∧ contents out' = contents out ++ bytes
  flush : ∀ out : ω, ∃ out', Write.flush out = (.ok (), out') ∧ contents out' = contents out

/-- `Vec<u8>` as a sink. -/
def Sink.vec : Sink (List UInt8) where
  contents := id
  writeAll _ _ := ⟨_, rfl, rfl⟩
  flush _ := ⟨_, rfl, rfl⟩

/-- An output that may fail. A call that succeeds has appended its bytes, as long as the output is intact
afterwards. -/
structure Output (ω : Type*) [Write ω] where
  /-- The bytes the output has taken. -/
  contents : ω → List UInt8
  /-- No bytes have been lost. -/
  intact : ω → Prop
  writeAll : ∀ (bytes : List UInt8) (out out' : ω), Write.writeAll bytes out = (.ok (), out') →
    intact out' → intact out ∧ contents out' = contents out ++ bytes
  flush : ∀ out out' : ω, Write.flush out = (.ok (), out') →
    intact out' → intact out ∧ contents out' = contents out

/-- A sink is an output that stays intact. -/
def Sink.output {ω : Type*} [Write ω] (sink : Sink ω) : Output ω where
  contents := sink.contents
  intact _ := True
  writeAll bytes out out' h _ := by
    obtain ⟨out₁, hwrite, hcontents⟩ := sink.writeAll bytes out
    obtain ⟨-, rfl⟩ := Prod.mk.inj (hwrite.symm.trans h)
    exact ⟨trivial, hcontents⟩
  flush out out' h _ := by
    obtain ⟨out₁, hflush, hcontents⟩ := sink.flush out
    obtain ⟨-, rfl⟩ := Prod.mk.inj (hflush.symm.trans h)
    exact ⟨trivial, hcontents⟩

/-! ## Channels -/

/-- `tokio::sync::mpsc::error::TrySendError`, without the message it hands back. -/
inductive TrySendError
  | full
  | closed
deriving DecidableEq, Repr

/-- A bounded `tokio::sync::mpsc` channel: what is queued in it, and whether its receiver is gone. -/
structure Channel (μ : Type*) where
  queue : List μ
  capacity : ℕ
  closed : Bool
deriving DecidableEq, Repr

/-- `mpsc::channel`. -/
def Channel.new (μ : Type*) (capacity : ℕ) : Channel μ := ⟨[], capacity, false⟩

/-- The channel with one more message queued. -/
def Channel.push {μ : Type*} (c : Channel μ) (message : μ) : Channel μ :=
  { c with queue := c.queue ++ [message] }

/-- `Sender::try_send`. -/
def Channel.trySend {μ : Type*} (c : Channel μ) (message : μ) :
    Except TrySendError Unit × Channel μ :=
  if c.closed then (.error .closed, c)
  else if c.queue.length < c.capacity then (.ok (), c.push message)
  else (.error .full, c)

theorem Channel.trySend_ok {μ : Type*} {c c' : Channel μ} {message : μ}
    (h : c.trySend message = (.ok (), c')) :
    c.closed = false ∧ c' = c.push message := by
  unfold trySend at h
  split at h
  · cases h
  · rename_i hclosed
    split at h
    · cases h
      exact ⟨Bool.not_eq_true _ ▸ hclosed, rfl⟩
    · cases h

end EveBox.Rust
