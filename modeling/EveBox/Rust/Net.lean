import Mathlib

/-!
# Internet addresses

What the source uses of `std::net`: addresses, how they are written and how they are read.
-/

namespace EveBox.Rust

/-- `std::net::Ipv4Addr`, by its octets. -/
structure Ipv4Addr where
  a : UInt8
  b : UInt8
  c : UInt8
  d : UInt8
deriving DecidableEq, Repr

/-- `Ipv4Addr::octets`. -/
def Ipv4Addr.octets (addr : Ipv4Addr) : List UInt8 := [addr.a, addr.b, addr.c, addr.d]

/-- `std::net::Ipv6Addr`, by its segments. -/
structure Ipv6Addr where
  segments : Vector UInt16 8
deriving DecidableEq, Repr

/-- `std::net::IpAddr`. -/
inductive IpAddr
  | v4 (addr : Ipv4Addr)
  | v6 (addr : Ipv6Addr)
deriving DecidableEq, Repr

/-- `IpAddr::is_ipv4`. -/
def IpAddr.isIpv4 : IpAddr → Bool
  | v4 _ => true
  | v6 _ => false

/-- `IpAddr::is_ipv6`. -/
def IpAddr.isIpv6 (addr : IpAddr) : Bool := !addr.isIpv4

/-! ## Writing -/

/-- A number in decimal digits. -/
def decimal (n : ℕ) : List Char := Nat.toDigits 10 n

/-- Some numbers in hexadecimal digits, with colons between them. -/
def colonHex (segments : List UInt16) : List Char :=
  [':'].intercalate (segments.map fun s => Nat.toDigits 16 s.toNat)

/-- `Ipv4Addr::fmt`. -/
def Ipv4Addr.fmt (addr : Ipv4Addr) : List Char :=
  ['.'].intercalate (addr.octets.map fun octet => decimal octet.toNat)

/-- The run of zeros that is shortened: where it begins and how long it is. -/
structure Span where
  start : ℕ
  len : ℕ
deriving DecidableEq, Repr

/-- The loop of `Ipv6Addr::fmt` over the segments: the current run of zeros and the longest one. -/
def longestZeros : ℕ → List UInt16 → Span → Span → Span
  | _, [], _, longest => longest
  | i, segment :: segments, current, longest =>
      if segment = 0 then
        let current : Span := ⟨if current.len = 0 then i else current.start, current.len + 1⟩
        longestZeros (i + 1) segments current (if longest.len < current.len then current else longest)
      else longestZeros (i + 1) segments ⟨0, 0⟩ longest

/-- `Ipv6Addr::fmt`. -/
def Ipv6Addr.fmt (addr : Ipv6Addr) : List Char :=
  match addr.segments.toList with
  | [0, 0, 0, 0, 0, 0xffff, hi, lo] =>
      "::ffff:".toList ++
        Ipv4Addr.fmt ⟨UInt8.ofNat (hi.toNat / 256), hi.toUInt8, UInt8.ofNat (lo.toNat / 256), lo.toUInt8⟩
  | segments =>
      let zeroes := longestZeros 0 segments ⟨0, 0⟩ ⟨0, 0⟩
      if 1 < zeroes.len then
        colonHex (segments.take zeroes.start) ++ "::".toList ++ colonHex (segments.drop (zeroes.start + zeroes.len))
      else colonHex segments

/-- `IpAddr::fmt`. -/
def IpAddr.fmt : IpAddr → List Char
  | v4 addr => addr.fmt
  | v6 addr => addr.fmt

/-! ## Reading -/

/-- `char::to_digit`. -/
def toDigit (radix : ℕ) (c : Char) : Option ℕ :=
  (if '0' ≤ c ∧ c ≤ '9' then some (c.toNat - '0'.toNat)
  else if 'a' ≤ c ∧ c ≤ 'z' then some (c.toNat - 'a'.toNat + 10)
  else if 'A' ≤ c ∧ c ≤ 'Z' then some (c.toNat - 'A'.toNat + 10)
  else none).filter (· < radix)

/-- `Parser::read_number`, for a number below a bound. -/
def readNumber (radix maxDigits bound : ℕ) (allowZeroes : Bool) (input : List Char) : Option (ℕ × List Char) :=
  let digits := (input.takeWhile fun c => (toDigit radix c).isSome).filterMap (toDigit radix)
  let value := digits.foldl (fun n digit => radix * n + digit) 0
  if digits = [] ∨ maxDigits < digits.length then none
  else if allowZeroes = false ∧ digits.head? = some 0 ∧ 1 < digits.length then none
  else if value < bound then some (value, input.drop digits.length)
  else none

/-- `Parser::read_given_char`. -/
def readGivenChar (target : Char) : List Char → Option (List Char)
  | c :: rest => if c = target then some rest else none
  | [] => none

/-- `Parser::read_separator`. -/
def readSeparator {α : Type} (sep : Char) (i : ℕ) (inner : List Char → Option (α × List Char))
    (input : List Char) : Option (α × List Char) :=
  if 0 < i then (readGivenChar sep input).bind inner else inner input

/-- `Parser::read_ipv4_addr`. -/
def readIpv4Addr (input : List Char) : Option (Ipv4Addr × List Char) := do
  let octet := readNumber 10 3 256 false
  let (a, input) ← readSeparator '.' 0 octet input
  let (b, input) ← readSeparator '.' 1 octet input
  let (c, input) ← readSeparator '.' 2 octet input
  let (d, input) ← readSeparator '.' 3 octet input
  some (⟨UInt8.ofNat a, UInt8.ofNat b, UInt8.ofNat c, UInt8.ofNat d⟩, input)

/-- `read_groups` of `Parser::read_ipv6_addr`, with as many groups left to read from group `i` on: the groups,
and whether an IPv4 address ended them. -/
def readGroups : ℕ → ℕ → List Char → List ℕ × Bool × List Char
  | 0, _, input => ([], false, input)
  | n + 1, i, input =>
      match if 0 < n then readSeparator ':' i readIpv4Addr input else none with
      | some (v4, rest) => ([v4.a.toNat * 256 + v4.b.toNat, v4.c.toNat * 256 + v4.d.toNat], true, rest)
      | none =>
          match readSeparator ':' i (readNumber 16 4 65536 true) input with
          | some (group, rest) =>
              let (groups, ipv4, rest) := readGroups n (i + 1) rest
              (group :: groups, ipv4, rest)
          | none => ([], false, input)

/-- The address of eight groups. -/
def Ipv6Addr.ofGroups (groups : List ℕ) : Ipv6Addr := ⟨Vector.ofFn fun i => UInt16.ofNat (groups.getD i 0)⟩

/-- `Parser::read_ipv6_addr`. -/
def readIpv6Addr (input : List Char) : Option (Ipv6Addr × List Char) :=
  let (head, headIpv4, input) := readGroups 8 0 input
  if head.length = 8 then some (Ipv6Addr.ofGroups head, input)
  else if headIpv4 then none
  else do
    let input ← readGivenChar ':' input
    let input ← readGivenChar ':' input
    let (tail, _, input) := readGroups (8 - (head.length + 1)) 0 input
    some (Ipv6Addr.ofGroups (head ++ List.replicate (8 - head.length - tail.length) 0 ++ tail), input)

/-- `Parser::read_ip_addr`. -/
def readIpAddr (input : List Char) : Option (IpAddr × List Char) :=
  match readIpv4Addr input with
  | some (addr, rest) => some (.v4 addr, rest)
  | none => (readIpv6Addr input).map fun (addr, rest) => (.v6 addr, rest)

/-- `str::parse::<IpAddr>`, up to the end of the text. -/
def IpAddr.parse (text : String) : Except String IpAddr :=
  match readIpAddr text.toList with
  | some (addr, []) => .ok addr
  | _ => .error "invalid IP address syntax"

example : IpAddr.parse "10.1.1.5" = .ok (.v4 ⟨10, 1, 1, 5⟩) := by decide +kernel

example : (IpAddr.parse "2001:db8::1").map IpAddr.fmt = .ok "2001:db8::1".toList := by decide +kernel

end EveBox.Rust
