import EveBox.Lib.Bpf
import EveBox.Rust.Net

/-!
# The filter of a flow

Reference: `src/pcap/filter.rs`.
-/

namespace EveBox.Pcap

open Rust

instance : ToString IpAddr := ⟨fun addr => String.ofList addr.fmt⟩

def ipprotoIcmp : UInt8 := 1
def ipprotoTcp : UInt8 := 6
def ipprotoUdp : UInt8 := 17
def ipprotoIcmpv6 : UInt8 := 58
def ipprotoSctp : UInt8 := 132

/-- `FlowSelector`. -/
structure FlowSelector where
  proto : UInt8
  a : IpAddr × Option UInt16
  b : IpAddr × Option UInt16
deriving DecidableEq, Repr

/-- The keyword of a protocol with ports. -/
def keyword (n : UInt8) : Option String :=
  if n = ipprotoTcp then some "tcp"
  else if n = ipprotoUdp then some "udp"
  else if n = ipprotoSctp then some "sctp"
  else none

/-- The clause for the fragments that are not the first. -/
def fragmentClause (n : UInt8) (a b : IpAddr) : Option String :=
  if a.isIpv4 ∧ b.isIpv4 then
    some s!"(ip proto {n.toNat} and host {a} and host {b} and (ip[6:2] & 0x1fff != 0))"
  else none

/-- `with_fragments`. -/
def withFragments (fragments : Option String) (expr : String) : String :=
  match fragments with
  | some fragments => s!"{expr} or {fragments}"
  | none => expr

/-- `FlowSelector::to_bpf`. -/
def FlowSelector.toBpf (s : FlowSelector) : String :=
  let (a, x) := s.a
  let (b, y) := s.b
  let n := s.proto
  let kw := keyword n
  let fragments := fragmentClause n a b
  match kw, x, y with
  | some kw, some x, some y =>
      withFragments fragments <|
        s!"({kw} and src host {a} and dst host {b} and src port {x.toNat} and dst port {y.toNat}) or " ++
          s!"({kw} and src host {b} and dst host {a} and src port {y.toNat} and dst port {x.toNat})"
  | some kw, some p, none | some kw, none, some p =>
      withFragments fragments s!"({kw} and host {a} and host {b} and port {p.toNat})"
  | some kw, none, none => s!"{kw} and host {a} and host {b}"
  | none, _, _ =>
      if n = ipprotoIcmp ∧ a.isIpv6 = false then s!"icmp and host {a} and host {b}"
      else if n = ipprotoIcmpv6 ∧ a.isIpv6 = true then s!"icmp6 and host {a} and host {b}"
      else if a.isIpv6 = false then s!"ip proto {n.toNat} and host {a} and host {b}"
      else s!"ip6 proto {n.toNat} and host {a} and host {b}"

example : (FlowSelector.toBpf ⟨17, (.v4 ⟨10, 1, 1, 5⟩, none), (.v4 ⟨192, 0, 2, 10⟩, some 53)⟩) =
    "(udp and host 10.1.1.5 and host 192.0.2.10 and port 53) or " ++
      "(ip proto 17 and host 10.1.1.5 and host 192.0.2.10 and (ip[6:2] & 0x1fff != 0))" := by decide +kernel

/-! ## What a filter is for -/

/-- How a filter names hosts: by some reading of addresses. -/
def hosts (read : List Char → Option IpAddr) : Bpf.Hosts IpAddr := ⟨IpAddr.isIpv4, read⟩

section

variable {read : List Char → Option IpAddr}

/-- A packet that goes from one host to another. -/
def Goes (p : Bpf.Packet (hosts read)) (a b : IpAddr) : Prop := p.src = a ∧ p.dst = b

/-- A fragment that is not the first, of two hosts with addresses of the fourth version. -/
def Continues (p : Bpf.Packet (hosts read)) (a b : IpAddr) : Prop :=
  a.isIpv4 ∧ b.isIpv4 ∧ (Goes p a b ∨ Goes p b a) ∧ p.fragment &&& Bpf.offsetMask ≠ 0

/-- The packets that a flow selects: those between its hosts, in either direction, with the ports that are given;
without ports, the later fragments. -/
def FlowSelector.SelectsPacket (s : FlowSelector) (p : Bpf.Packet (hosts read)) : Prop :=
  p.proto = s.proto.toNat ∧
    match s.a, s.b with
    | (a, some x), (b, some y) =>
        Goes p a b ∧ p.ports = some (x.toNat, y.toNat) ∨ Goes p b a ∧ p.ports = some (y.toNat, x.toNat) ∨
          Continues p a b
    | (a, some n), (b, none) | (a, none), (b, some n) =>
        (Goes p a b ∨ Goes p b a) ∧ (∃ ports, p.ports = some ports ∧ (ports.1 = n.toNat ∨ ports.2 = n.toNat)) ∨
          Continues p a b
    | (a, none), (b, none) => Goes p a b ∨ Goes p b a

/-- The frames that a flow selects. -/
def FlowSelector.Selects (s : FlowSelector) : Bpf.Frame (hosts read) → Prop
  | .ip p => s.SelectsPacket p
  | _ => False

/-- The frames that the filter of a flow accepts. -/
def FlowSelector.Accepts (s : FlowSelector) (frame : Bpf.Frame (hosts read)) : Prop :=
  ∃ e, Bpf.parse (hosts read) s.toBpf.toList = some e ∧ e.Accepts frame

end

/-- The addresses of a flow are read as they are written. -/
structure FlowSelector.ReadBack (s : FlowSelector) (read : List Char → Option IpAddr) : Prop where
  a : read s.a.1.fmt = some s.a.1
  b : read s.b.1.fmt = some s.b.1

/-- A flow with its ends the other way around. -/
def FlowSelector.swap (s : FlowSelector) : FlowSelector := ⟨s.proto, s.b, s.a⟩

/-- The filter of a flow says all that the flow says. -/
structure FlowSelector.Exact (s : FlowSelector) : Prop where
  /-- The hosts are different, or the filter binds each host to a side of the packet. -/
  apart : s.a.1 ≠ s.b.1 ∨
    (keyword s.proto).isSome ∧ s.a.2.isSome ∧ s.b.2.isSome ∧ s.a.1.isIpv6 = true
  /-- Ports are given for a protocol that has them, unless no packet is between the hosts. -/
  ports : (keyword s.proto).isSome ∨ (s.a.2 = none ∧ s.b.2 = none) ∨ s.a.1.isIpv4 ≠ s.b.1.isIpv4

end EveBox.Pcap
