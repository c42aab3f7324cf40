import EveBox.Eve.Event
import EveBox.Pcap.Fetch
import EveBox.Pcap.FlowFilter
import EveBox.Rust.Numbers

/-!
# From an event to a request

Reference: `src/pcap/timeframe.rs`, and `to_micros` and the default mode of `build_request` of `src/server/api/pcap.rs`.
-/

namespace EveBox.Pcap

open Rust Eve

/-! ## Times -/

/-- What the code uses of `chrono::DateTime` besides. Durations are in seconds. -/
structure Chrono extends TimeLib where
  checkedAddSigned : DateTime → ℤ → Option DateTime
  lt : DateTime → DateTime → Bool

/-- What is documented of it: a time before or after another is so by its timestamp, and the microseconds of every time
fit into an `i64`. -/
structure Chrono.Documented (lib : Chrono) : Prop where
  back : ∀ dt secs dt', secs ≤ 0 → lib.checkedAddSigned dt secs = some dt' → dt'.nanos ≤ dt.nanos
  forth : ∀ dt secs dt', 0 ≤ secs → lib.checkedAddSigned dt secs = some dt' → dt.nanos ≤ dt'.nanos
  range : ∀ dt secs dt', lib.checkedAddSigned dt secs = some dt' → dt'.nanos / 1000 < 2 ^ 63

/-- The errors. -/
inductive EventError
  | badTimestamp (input : String)
  /-- "event has no timestamp" -/
  | noTimestamp
  /-- "timestamp out of range" -/
  | outOfRange
  /-- "capture window ends before it starts" -/
  | endsBeforeStart
  /-- "unsupported protocol: {proto}" -/
  | unsupportedProtocol (proto : List Char)
  /-- "event has no {field}" -/
  | missing (field : String)
  /-- "event has invalid {field}" -/
  | invalid (field : String)
  | badAddress (message : String)
  /-- "mixed address families: {src_ip} and {dest_ip}" -/
  | mixedFamilies (src dest : IpAddr)
deriving DecidableEq

/-- How a call ends other than by returning its value. -/
inductive EventFault
  | error (err : EventError)
  | panic (message : String)
deriving DecidableEq

/-- `ok_or_else`. -/
def orFault {α : Type} (value : Option α) (err : EventError) : Except EventFault α :=
  match value with
  | some a => .ok a
  | none => .error (.error err)

/-- `Window`. -/
structure Window where
  start : DateTime
  stop : DateTime
deriving DecidableEq, Repr

section

variable (lib : Chrono)

/-- `parse_ts`. -/
def parseTs (input : String) : Except EventFault DateTime :=
  orFault (parseDateTime lib.toTimeLib input none) (.badTimestamp input)

/-- `event_timestamp`. -/
def eventTimestamp (event : Json) : Except EventFault DateTime := do
  let timestamp ← orFault (event.get "timestamp").asStr .noTimestamp
  parseTs lib timestamp

/-- `checked`. -/
def checked (dt : DateTime) (secs : ℤ) : Except EventFault DateTime :=
  orFault (lib.checkedAddSigned dt secs) .outOfRange

/-- `window`. -/
def window (start stop : DateTime) : Except EventFault Window :=
  if lib.lt stop start then .error (.error .endsBeforeStart) else .ok ⟨start, stop⟩

/-- The type of an event. -/
def eventType (event : Json) : String := (event.get "event_type").asStr.getD ""

/-- Where the times of its flow are. -/
def flowOf (event : Json) : Json := if eventType event = "netflow" then event.get "netflow" else event.get "flow"

/-- A record that is written about a flow. -/
def isFlowRecord (event : Json) : Bool := eventType event = "flow" || eventType event = "netflow"

/-- `map(parse_ts).transpose()`. -/
def parseOptional : Option String → Except EventFault (Option DateTime)
  | some text => (parseTs lib text).map some
  | none => .ok none

/-- The end of the window of a flow that starts at some time. -/
def flowStop (flow : Json) (flowStart : DateTime) : Except EventFault DateTime :=
  match (flow.get "end").asStr with
  | some flowEnd => do
      let flowEnd ← parseTs lib flowEnd
      checked lib flowEnd 1
  | none => checked lib flowStart 60

/-- `derive_window`. -/
def deriveWindow (event : Json) : Except EventFault Window := do
  let flowStart ← parseOptional lib ((flowOf event).get "start").asStr
  match flowStart, isFlowRecord event with
  | some flowStart, true => do
      let stop ← flowStop lib (flowOf event) flowStart
      let start ← checked lib flowStart (-1)
      window lib start stop
  | some flowStart, false => do
      let timestamp ← eventTimestamp lib event
      let start ← checked lib flowStart (-1)
      let stop ← checked lib timestamp 60
      window lib start stop
  | none, _ => do
      let timestamp ← eventTimestamp lib event
      let start ← checked lib timestamp (-60)
      let stop ← checked lib timestamp 60
      window lib start stop

end

/-! ## The flow -/

/-- `normalize_proto`. -/
def normalizeProto (proto : String) (v6 : Bool) : Except EventFault UInt8 :=
  let proto := trim proto.toList
  match parseUnsigned 255 proto with
  | some number => .ok (UInt8.ofNat number)
  | none =>
      match String.ofList (proto.map Char.toLower) with
      | "tcp" => .ok 6
      | "udp" => .ok 17
      | "sctp" => .ok 132
      | "gre" => .ok 47
      | "esp" => .ok 50
      | "ah" => .ok 51
      | "ipip" => .ok 4
      | "ipv6" => .ok 41
      | "icmp" => .ok (if v6 then 58 else 1)
      | "ipv6-icmp" => .ok 58
      | "icmpv6" => .ok 58
      | _ => .error (.error (.unsupportedProtocol proto))

/-- `PORT_PROTOCOLS`. -/
def portProtocols : List UInt8 := [6, 17, 132]

/-- `event_port`. A field that is missing is null as well. -/
def eventPort (event : Json) (field : String) : Except EventFault (Option UInt16) :=
  match event.get field with
  | .null => .ok none
  | value =>
      match value.asU64 with
      | some port => if port < 2 ^ 16 then .ok (some (UInt16.ofNat port)) else .error (.error (.invalid field))
      | none => .error (.error (.invalid field))

/-- An address of an event. -/
def eventAddress (event : Json) (field : String) : Except EventFault IpAddr := do
  let text ← orFault (event.get field).asStr (.missing field)
  match IpAddr.parse text with
  | .ok addr => .ok addr
  | .error message => .error (.error (.badAddress message))

/-- `selector_from_event`. -/
def selectorFromEvent (event : Json) : Except EventFault FlowSelector := do
  let srcIp ← eventAddress event "src_ip"
  let destIp ← eventAddress event "dest_ip"
  if srcIp.isIpv4 ≠ destIp.isIpv4 then .error (.error (.mixedFamilies srcIp destIp))
  else do
    let proto ← orFault (event.get "proto").asStr (.missing "proto")
    let proto ← normalizeProto proto srcIp.isIpv6
    if proto ∈ portProtocols then do
      let srcPort ← eventPort event "src_port"
      let destPort ← eventPort event "dest_port"
      .ok ⟨proto, (srcIp, srcPort), (destIp, destPort)⟩
    else .ok ⟨proto, (srcIp, none), (destIp, none)⟩

/-! ## The request -/

/-- `to_micros`, by `timestamp_micros`. -/
def toMicros (dt : DateTime) : ℕ := (u64TryFrom (dt.nanos / 1000)).getD 0

/-- The request of a window and a flow. -/
def eventRequest (w : Window) (s : FlowSelector) (limits : Limits) : PcapRequest where
  filter := some (.flow s.toBpf)
  start := some (toMicros w.start)
  stop := some (toMicros w.stop)
  limits := limits

/-! ## What is asked of it -/

/-- The names of protocols, and their numbers. -/
def protocolNames : List (String × ℕ) :=
  [("tcp", 6), ("udp", 17), ("sctp", 132), ("gre", 47), ("esp", 50), ("ah", 51), ("ipip", 4), ("ipv6", 41),
    ("ipv6-icmp", 58), ("icmpv6", 58)]

/-- A text names a protocol, by its number or its name: `icmp` is another protocol in the sixth version of IP. -/
def NamesProtocol (text : String) (v6 : Bool) (n : ℕ) : Prop :=
  let name := trim text.toList
  match parseUnsigned 255 name with
  | some number => n = number
  | none =>
      let name := String.ofList (name.map Char.toLower)
      (name, n) ∈ protocolNames ∨ name = "icmp" ∧ n = if v6 then 58 else 1

section

variable {read : List Char → Option IpAddr}

/-- A packet goes from one end of a flow to the other; of the ports, those that are reported are given. -/
structure Directed (p : Bpf.Packet (hosts read)) (src dest : IpAddr × Option ℕ) : Prop where
  goes : Goes p src.1 dest.1
  srcPort : p.proto ∈ Bpf.portProtocols → ∀ n ∈ src.2, ∃ ports ∈ p.ports, ports.1 = n
  destPort : p.proto ∈ Bpf.portProtocols → ∀ n ∈ dest.2, ∃ ports ∈ p.ports, ports.2 = n

/-- A packet of the flow of an event, in either direction. -/
def OfFlow (event : Json) (p : Bpf.Packet (hosts read)) : Prop :=
  ∃ src dest, eventAddress event "src_ip" = .ok src ∧ eventAddress event "dest_ip" = .ok dest ∧
    (∃ proto ∈ (event.get "proto").asStr, NamesProtocol proto src.isIpv6 p.proto) ∧
    (Directed p (src, (event.get "src_port").asU64) (dest, (event.get "dest_port").asU64) ∨
      Directed p (dest, (event.get "dest_port").asU64) (src, (event.get "src_port").asU64))

end

section

variable (lib : Chrono)

/-- A time that an event gives as a text. -/
def GivesTime (event : Json) (field : String) (dt : DateTime) : Prop :=
  ∃ text ∈ (event.get field).asStr, parseDateTime lib.toTimeLib text none = some dt

/-- A time of capture, in nanoseconds, that belongs to an event: in the flow, as far as its times are known, or in the
minute around the event. -/
def During (event : Json) (t : ℤ) : Prop :=
  match ((flowOf event).get "start").asStr with
  | some _ =>
      ∃ start, GivesTime lib (flowOf event) "start" start ∧ start.nanos ≤ t ∧
        if isFlowRecord event then
          match ((flowOf event).get "end").asStr with
          | some _ => ∃ stop, GivesTime lib (flowOf event) "end" stop ∧ t ≤ stop.nanos
          | none => ∃ later ∈ lib.checkedAddSigned start 60, t ≤ later.nanos
        else ∃ timestamp, GivesTime lib event "timestamp" timestamp ∧ t ≤ timestamp.nanos
  | none =>
      ∃ timestamp, GivesTime lib event "timestamp" timestamp ∧
        ∃ before ∈ lib.checkedAddSigned timestamp (-60), ∃ later ∈ lib.checkedAddSigned timestamp 60,
          before.nanos ≤ t ∧ t ≤ later.nanos

/-- The header of a packet that is captured at a time, in microseconds, that is not before 1970. -/
structure CapturedAt (header : PacketHeader) (t : ℤ) : Prop where
  time : header.tvSec * 1000000 + header.tvUsec = t
  micros : 0 ≤ header.tvUsec ∧ header.tvUsec < 1000000
  epoch : 0 ≤ t

/-- The request that is made of an event accepts the packets of its flow: they pass the gate, and the filter. -/
def RequestAccepts (read : List Char → Option IpAddr) (event : Json) : Prop :=
  ∀ w s, deriveWindow lib event = .ok w → selectorFromEvent event = .ok s → s.ReadBack read →
    ∀ (limits : Limits) (flow : Option (String × String)) (p : Bpf.Packet (hosts read)) (header : PacketHeader) (t : ℤ),
      OfFlow event p → CapturedAt header t → During lib event (t * 1000) →
        ((eventRequest w s limits).matcher flow).inWindow header = true ∧ s.Accepts (.ip p)

/-- An event of which no request can be made is an error. -/
def NeverPanics (event : Json) : Prop :=
  ∀ message, deriveWindow lib event ≠ .error (.panic message) ∧ selectorFromEvent event ≠ .error (.panic message)

end

end EveBox.Pcap
