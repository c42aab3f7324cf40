import EveBox.Lib.OnesComplement
import EveBox.Rust.Json
import EveBox.Rust.Net

/-!
# Packets made of payloads

Reference: the packet building part of `src/util/pcap.rs`.

Machine arithmetic is that of a release build, where `+` and `-` on `u16` wrap.
-/

namespace EveBox.Pcap

open Rust OnesComplement

/-! ## The builders -/

/-- `Protocol`. -/
inductive Protocol
  | tcp
  | udp
deriving DecidableEq, Repr

/-- `Protocol::from_name`. -/
def Protocol.fromName (proto : String) : Option Protocol :=
  match proto.toLower with
  | "tcp" => some tcp
  | "udp" => some udp
  | _ => none

/-- `u8::from(Protocol)`. -/
def Protocol.toU8 : Protocol → UInt8
  | tcp => 6
  | udp => 17

/-- `x as u16`. -/
def asU16 (x : ℕ) : ℕ := x % 2 ^ 16

/-- `+` on `u16`. -/
def wrappingAdd16 (a b : ℕ) : ℕ := (a + b) % 2 ^ 16

/-- `-` on `u16`. -/
def wrappingSub16 (a b : ℕ) : ℕ := (a + 2 ^ 16 - b) % 2 ^ 16

/-- `BytesMut::put_u16`. -/
def u16Be (x : ℕ) : List UInt8 := [UInt8.ofNat (x / 256), UInt8.ofNat x]

/-- `BytesMut::put_u32`. -/
def u32Be (x : ℕ) : List UInt8 :=
  [UInt8.ofNat (x / 2 ^ 24), UInt8.ofNat (x / 2 ^ 16), UInt8.ofNat (x / 2 ^ 8), UInt8.ofNat x]

/-- `UdpBuilder`. -/
structure UdpBuilder where
  sourcePort : ℕ
  destinationPort : ℕ
  payload : List UInt8

/-- `UdpBuilder::build`. -/
def UdpBuilder.build (b : UdpBuilder) : List UInt8 :=
  u16Be b.sourcePort ++ u16Be b.destinationPort ++ u16Be (wrappingAdd16 8 (asU16 b.payload.length)) ++ u16Be 0 ++
    b.payload

/-- `TcpBuilder`. -/
structure TcpBuilder where
  sourcePort : ℕ
  destinationPort : ℕ
  payload : List UInt8

/-- `TcpBuilder::build`. -/
def TcpBuilder.build (b : TcpBuilder) : List UInt8 :=
  let flags := 5 * 2 ^ 12
  u16Be b.sourcePort ++ u16Be b.destinationPort ++ u32Be 0 ++ u32Be 0 ++ u16Be flags ++ u16Be 1024 ++ u16Be 0 ++
    u16Be 0 ++ b.payload

/-- `Ip4Builder`. -/
structure Ip4Builder where
  sourceAddr : Ipv4Addr
  destAddr : Ipv4Addr
  protocol : Protocol
  ttl : ℕ
  payload : List UInt8

/-- `Ip4Builder::new`. -/
def Ip4Builder.new : Ip4Builder := ⟨⟨0, 0, 0, 0⟩, ⟨0, 0, 0, 0⟩, .udp, 255, []⟩

/-- `ip_checksum`. -/
def ipChecksum (input : List UInt8) : ℕ := checksum (words (input.take 20))

/-- The pseudo header that `tcpudp_checksum` puts in front. -/
def pseudo (input : List UInt8) (proto : Protocol) : List UInt8 :=
  (input.drop 12).take 8 ++ [0, proto.toU8] ++ u16Be (wrappingSub16 (asU16 input.length) 20)

/-- `tcpudp_checksum`: the words of the pseudo header, then those of the rest. -/
def tcpudpChecksum (input : List UInt8) (proto : Protocol) : ℕ :=
  checksum (words (pseudo input proto) ++ words (input.drop 20))

/-- `out[i] = (x >> 8) as u8` and `out[i + 1] = x as u8`. -/
def putU16At (out : List UInt8) (i x : ℕ) : List UInt8 := (out.set i (UInt8.ofNat (x / 256))).set (i + 1) (UInt8.ofNat x)

/-- The header of `Ip4Builder::build`, with no checksum yet. -/
def Ip4Builder.header (b : Ip4Builder) : List UInt8 :=
  u16Be 0x4500 ++ u16Be (wrappingAdd16 20 (asU16 b.payload.length)) ++ u32Be 0 ++
    [UInt8.ofNat b.ttl, b.protocol.toU8] ++ u16Be 0x0000 ++ b.sourceAddr.octets ++ b.destAddr.octets

/-- `Ip4Builder::build`. -/
def Ip4Builder.build (b : Ip4Builder) : List UInt8 :=
  let out := b.header ++ b.payload
  let out := putU16At out 10 (ipChecksum out)
  match b.protocol with
  | .udp => putU16At out 26 (tcpudpChecksum out .udp)
  | .tcp => putU16At out 36 (tcpudpChecksum out .tcp)

/-! ## Events -/

/-- `BASE64_STANDARD.decode`, of the crate `base64`. -/
structure Base64 where
  decode : String → Except String (List UInt8)

/-- `Option::ok_or_else`. -/
def okOr {α : Type} (err : String) : Option α → Except String α
  | some a => .ok a
  | none => .error err

/-- A port as an event has it. -/
def port (event : Json) (key err : String) : Except String ℕ := okOr err (event.get key).asU64

/-- `packet_from_payload`. -/
def packetFromPayload (lib : Base64) (event : Json) : Except String (List UInt8) := do
  let payload ← okOr "no payload field" (event.get "payload").asStr
  let payload ← lib.decode payload
  let name ← okOr "no proto field" (event.get "proto").asStr
  let proto ← okOr ("invalid protocol " ++ name) (Protocol.fromName name)
  let srcIp ← okOr "no src_ip field" (event.get "src_ip").asStr
  let srcIp ← IpAddr.parse srcIp
  let destIp ← okOr "no dest_ip field" (event.get "dest_ip").asStr
  let destIp ← IpAddr.parse destIp
  match proto with
  | .tcp =>
      let srcPort ← port event "src_port" "invalid source port"
      let destPort ← port event "dest_port" "invalid destination port"
      match srcIp, destIp with
      | .v4 src, .v4 dst =>
          let tcp := TcpBuilder.build ⟨asU16 srcPort, asU16 destPort, payload⟩
          .ok { Ip4Builder.new with sourceAddr := src, destAddr := dst, protocol := proto, payload := tcp }.build
      | .v6 _, _ | _, .v6 _ => .error "ipv6 not supported"
  | .udp =>
      let srcPort ← port event "src_port" "invalid source port"
      let destPort ← port event "dest_port" "invalid destination port"
      match srcIp, destIp with
      | .v4 src, .v4 dst =>
          let udp := UdpBuilder.build ⟨asU16 srcPort, asU16 destPort, payload⟩
          .ok { Ip4Builder.new with sourceAddr := src, destAddr := dst, protocol := proto, payload := udp }.build
      | .v6 _, _ | _, .v6 _ => .error "ipv6 not supported"

/-! ## What an event says, and what a packet says -/

/-- The flow and the payload of an event. -/
structure Exchange where
  protocol : Protocol
  src : Ipv4Addr
  dst : Ipv4Addr
  srcPort : ℕ
  destPort : ℕ
  payload : List UInt8

/-- The fields of an event are those of an exchange over IPv4. -/
structure Exchange.ReadFrom (x : Exchange) (lib : Base64) (event : Json) : Prop where
  payload : ∃ text, (event.get "payload").asStr = some text ∧ lib.decode text = .ok x.payload
  protocol : ∃ name, (event.get "proto").asStr = some name ∧ Protocol.fromName name = some x.protocol
  src : ∃ text, (event.get "src_ip").asStr = some text ∧ IpAddr.parse text = .ok (.v4 x.src)
  dst : ∃ text, (event.get "dest_ip").asStr = some text ∧ IpAddr.parse text = .ok (.v4 x.dst)
  srcPort : (event.get "src_port").asU64 = some x.srcPort
  destPort : (event.get "dest_port").asU64 = some x.destPort

/-- The length of the header in front of the payload. -/
def Protocol.headerLen : Protocol → ℕ
  | tcp => 20
  | udp => 8

/-- The number in two bytes of a packet. -/
def u16At (packet : List UInt8) (i : ℕ) : ℕ := (packet.getD i 0).toNat * 256 + (packet.getD (i + 1) 0).toNat

/-- A packet that is well formed and carries an exchange. -/
structure Exchange.Carried (x : Exchange) (packet : List UInt8) : Prop where
  version : packet.getD 0 0 = 0x45
  totalLength : u16At packet 2 = packet.length
  protocol : packet.getD 9 0 = x.protocol.toU8
  headerChecksum : Verifies (packet.take 20)
  checksum : Verifies ((packet.drop 12).take 8 ++ [0, packet.getD 9 0] ++ u16Be (packet.length - 20) ++ packet.drop 20)
  udpLength : x.protocol = .udp → u16At packet 24 = packet.length - 20
  src : (packet.drop 12).take 4 = x.src.octets
  dst : (packet.drop 16).take 4 = x.dst.octets
  srcPort : u16At packet 20 = x.srcPort
  destPort : u16At packet 22 = x.destPort
  payload : packet.drop (20 + x.protocol.headerLen) = x.payload

/-- What the event says is carried by the packet. -/
def WellFormed (lib : Base64) (event : Json) (packet : List UInt8) : Prop :=
  ∃ x : Exchange, x.ReadFrom lib event ∧ x.Carried packet

/-- The ports and the length of an exchange fit the fields of a packet. -/
structure Exchange.Fits (x : Exchange) : Prop where
  srcPort : x.srcPort < 2 ^ 16
  destPort : x.destPort < 2 ^ 16
  length : 20 + x.protocol.headerLen + x.payload.length < 2 ^ 16

end EveBox.Pcap
