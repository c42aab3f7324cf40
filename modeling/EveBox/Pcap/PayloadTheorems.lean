import EveBox.Pcap.Payload
import EveBox.Rust.Result

/-!
# The packets made of payloads

Reference: the packet building part of `src/util/pcap.rs`.
-/

namespace EveBox.Pcap

open Rust OnesComplement

/-! ## The parts of a packet -/

section

variable (x : Exchange)

/-- The bytes of the segment in front of its checksum. -/
def Exchange.segmentStart : List UInt8 :=
  u16Be (asU16 x.srcPort) ++ u16Be (asU16 x.destPort) ++
    match x.protocol with
    | .tcp => u32Be 0 ++ u32Be 0 ++ u16Be (5 * 2 ^ 12) ++ u16Be 1024
    | .udp => u16Be (wrappingAdd16 8 (asU16 x.payload.length))

/-- The bytes of the segment behind its checksum. -/
def Exchange.segmentEnd : List UInt8 :=
  match x.protocol with
  | .tcp => u16Be 0 ++ x.payload
  | .udp => x.payload

/-- The segment that the builder of the protocol makes. -/
def Exchange.segment : List UInt8 :=
  match x.protocol with
  | .tcp => TcpBuilder.build ⟨asU16 x.srcPort, asU16 x.destPort, x.payload⟩
  | .udp => UdpBuilder.build ⟨asU16 x.srcPort, asU16 x.destPort, x.payload⟩

/-- The packet of an exchange. -/
def Exchange.packet : List UInt8 :=
  Ip4Builder.build
    { Ip4Builder.new with sourceAddr := x.src, destAddr := x.dst, protocol := x.protocol, payload := x.segment }

/-- The bytes of the header in front of its checksum. -/
def Exchange.headerStart : List UInt8 :=
  u16Be 0x4500 ++ u16Be (wrappingAdd16 20 (asU16 x.segment.length)) ++ u32Be 0 ++ [255, x.protocol.toU8]

/-- The bytes of the header behind its checksum. -/
def Exchange.addresses : List UInt8 := x.src.octets ++ x.dst.octets

/-- The pseudo header with the length that the builder puts there. -/
def Exchange.pseudoHeader : List UInt8 :=
  x.addresses ++ [0, x.protocol.toU8] ++ u16Be (wrappingSub16 (asU16 (x.segment.length + 20)) 20)

/-- The checksum of the header. -/
def Exchange.headerSum : ℕ := checksum (words (x.headerStart ++ [0, 0] ++ x.addresses))

/-- The checksum of the segment. -/
def Exchange.segmentSum : ℕ :=
  checksum (words (x.pseudoHeader ++ x.segmentStart ++ [0, 0] ++ x.segmentEnd))

theorem Exchange.segment_eq : x.segment = x.segmentStart ++ [0, 0] ++ x.segmentEnd := by
  rcases x with ⟨_ | _, src, dst, srcPort, destPort, payload⟩ <;> rfl

theorem Exchange.segment_length : x.segment.length = x.protocol.headerLen + x.payload.length := by
  rcases x with ⟨_ | _, src, dst, srcPort, destPort, payload⟩
  · exact Nat.add_comm payload.length 20
  · exact Nat.add_comm payload.length 8

/-- The packet, with each checksum in the place of its zeros. -/
theorem Exchange.packet_eq :
    x.packet = (x.headerStart ++ u16Be x.headerSum ++ x.addresses) ++
      (x.segmentStart ++ u16Be x.segmentSum ++ x.segmentEnd) := by
  have hsum : x.segmentSum = checksum (words x.pseudoHeader ++ words x.segment) := by
    have heven : 2 ∣ x.pseudoHeader.length := show 2 ∣ 12 by decide
    rw [segmentSum, segment_eq, List.append_assoc, List.append_assoc, words_append heven, List.append_assoc]
  rw [hsum]
  rcases x with ⟨_ | _, src, dst, srcPort, destPort, payload⟩ <;> rfl

theorem Exchange.packet_length : x.packet.length = 20 + x.protocol.headerLen + x.payload.length := by
  rw [packet_eq]
  rcases x with ⟨_ | _, src, dst, srcPort, destPort, payload⟩
  · exact Nat.add_comm payload.length 40
  · exact Nat.add_comm payload.length 28

/-! ## The fields of a packet -/

/-- A number of sixteen bits is read as it was written, a larger one without its upper part. -/
theorem u16At_of_bytes {packet : List UInt8} {i : ℕ} (n : ℕ) (hhigh : packet.getD i 0 = UInt8.ofNat (n / 256))
    (hlow : packet.getD (i + 1) 0 = UInt8.ofNat n) : u16At packet i = n % 2 ^ 16 := by
  have hofHigh : (UInt8.ofNat (n / 256)).toNat = n / 256 % 2 ^ 8 := UInt8.toNat_ofNat'
  have hofLow : (UInt8.ofNat n).toNat = n % 2 ^ 8 := UInt8.toNat_ofNat'
  unfold u16At
  rw [hhigh, hlow, hofHigh, hofLow]
  omega

theorem Exchange.u16At_totalLength : u16At x.packet 2 = (20 + x.segment.length) % 2 ^ 16 := by
  rw [packet_eq, u16At_of_bytes (wrappingAdd16 20 (asU16 x.segment.length)) rfl rfl]
  unfold wrappingAdd16 asU16
  omega

theorem Exchange.u16At_srcPort : u16At x.packet 20 = x.srcPort % 2 ^ 16 := by
  rw [packet_eq, u16At_of_bytes (asU16 x.srcPort) rfl rfl]
  exact Nat.mod_mod _ _

theorem Exchange.u16At_destPort : u16At x.packet 22 = x.destPort % 2 ^ 16 := by
  rw [packet_eq, u16At_of_bytes (asU16 x.destPort) rfl rfl]
  exact Nat.mod_mod _ _

theorem Exchange.u16At_udpLength (h : x.protocol = .udp) : u16At x.packet 24 = (8 + x.payload.length) % 2 ^ 16 := by
  rcases x with ⟨_ | _, src, dst, srcPort, destPort, payload⟩
  · exact absurd h (show Protocol.tcp ≠ .udp by decide)
  rw [packet_eq, u16At_of_bytes (wrappingAdd16 8 (asU16 payload.length)) rfl rfl]
  unfold wrappingAdd16 asU16
  show (8 + payload.length % 2 ^ 16) % 2 ^ 16 % 2 ^ 16 = (8 + payload.length) % 2 ^ 16
  omega

theorem Exchange.drop_payload : x.packet.drop (20 + x.protocol.headerLen) = x.payload := by
  rw [packet_eq]
  rcases x with ⟨_ | _, src, dst, srcPort, destPort, payload⟩ <;> rfl

theorem Exchange.drop_segment : x.packet.drop 20 = x.segmentStart ++ u16Be x.segmentSum ++ x.segmentEnd := by
  rw [packet_eq]
  rfl

theorem Exchange.take_header : x.packet.take 20 = x.headerStart ++ u16Be x.headerSum ++ x.addresses := by
  rw [packet_eq]
  rfl

/-! ## The checksums of a packet -/

theorem Exchange.header_verifies : Verifies (x.packet.take 20) := by
  have heven : 2 ∣ x.headerStart.length := show 2 ∣ 10 by decide
  have hne : (words (x.headerStart ++ [0, 0] ++ x.addresses)).sum ≠ 0 := by
    -- the first word says version and header length
    have hwords := words_append (show 2 ∣ (u16Be 0x4500).length by decide)
      (u16Be (wrappingAdd16 20 (asU16 x.segment.length)) ++ (u32Be 0 ++ ([255, x.protocol.toU8] ++
        ([0, 0] ++ x.addresses))))
    simp only [headerStart, List.append_assoc]
    rw [hwords, List.sum_append, show (words (u16Be 0x4500)).sum = 0x4500 from rfl]
    omega
  rw [take_header]
  exact verifies_of_checksum heven hne

theorem Exchange.segment_verifies : Verifies (x.pseudoHeader ++ x.packet.drop 20) := by
  have heven : 2 ∣ (x.pseudoHeader ++ x.segmentStart).length := by
    rcases x with ⟨_ | _, src, dst, srcPort, destPort, payload⟩
    · exact show 2 ∣ 28 by decide
    · exact show 2 ∣ 18 by decide
  have hne : (words (x.pseudoHeader ++ x.segmentStart ++ [0, 0] ++ x.segmentEnd)).sum ≠ 0 := by
    have hwords := words_append (show 2 ∣ x.addresses.length from show 2 ∣ 8 by decide)
      ([0, x.protocol.toU8] ++ (u16Be (wrappingSub16 (asU16 (x.segment.length + 20)) 20) ++ (x.segmentStart ++
        ([0, 0] ++ x.segmentEnd))))
    simp only [pseudoHeader, List.append_assoc]
    rw [hwords, List.sum_append]
    -- the protocol is not zero
    have hproto : 0 < x.protocol.toU8.toNat := by rcases x.protocol with _ | _ <;> decide
    show _ + (0 * 256 + x.protocol.toU8.toNat + _) ≠ 0
    omega
  rw [drop_segment, ← List.append_assoc, ← List.append_assoc]
  exact verifies_of_checksum heven hne

/-! ## When a packet is well formed -/

/-- The pseudo header of a packet has the length of the segment when it fits the field. -/
theorem Exchange.pseudoHeader_eq (hfits : x.packet.length < 2 ^ 16) :
    (x.packet.drop 12).take 8 ++ [0, x.packet.getD 9 0] ++ u16Be (x.packet.length - 20) = x.pseudoHeader := by
  have hlen : wrappingSub16 (asU16 (x.segment.length + 20)) 20 = x.packet.length - 20 := by
    rw [packet_length] at hfits ⊢
    rw [segment_length]
    unfold wrappingSub16 asU16
    omega
  rw [pseudoHeader, hlen]
  generalize x.packet.length - 20 = n
  rw [packet_eq]
  rfl

theorem Exchange.carried_iff : x.Carried x.packet ↔ x.Fits := by
  have hlen := x.packet_length
  have hsegment := x.segment_length
  have htotal := x.u16At_totalLength
  have hsrc := x.u16At_srcPort
  have hdst := x.u16At_destPort
  constructor
  · intro h
    have htotalLength := h.totalLength
    have hsrcPort := h.srcPort
    have hdestPort := h.destPort
    exact ⟨by omega, by omega, by omega⟩
  · rintro ⟨hsrcPort, hdestPort, hlength⟩
    have hpseudo := x.pseudoHeader_eq (by omega)
    refine
      { version := ?_
        totalLength := by omega
        protocol := ?_
        headerChecksum := x.header_verifies
        checksum := by rw [hpseudo]; exact x.segment_verifies
        udpLength := fun h => ?_
        src := ?_
        dst := ?_
        srcPort := by omega
        destPort := by omega
        payload := x.drop_payload }
    · rw [packet_eq]; rfl
    · rw [packet_eq]; rfl
    · have hudp := x.u16At_udpLength h
      rw [h, show Protocol.udp.headerLen = 8 from rfl] at hlen hlength
      omega
    · rw [packet_eq]; rfl
    · rw [packet_eq]; rfl

end

/-! ## The packet of an event -/

variable {lib : Base64} {event : Json}

theorem okOr_eq_ok {α : Type} {err : String} {o : Option α} {a : α} : okOr err o = .ok a ↔ o = some a := by
  rcases o with _ | b
  · exact ⟨(nomatch ·), (nomatch ·)⟩
  · exact ⟨fun h => congrArg some (Except.ok.inj h), fun h => congrArg Except.ok (Option.some.inj h)⟩

/-- A packet is made of an event exactly when its fields are those of an exchange, and it is the exchange's. -/
theorem packetFromPayload_eq_ok {packet : List UInt8} :
    packetFromPayload lib event = .ok packet ↔ ∃ x : Exchange, x.ReadFrom lib event ∧ x.packet = packet := by
  constructor
  · intro h
    simp only [packetFromPayload, port, bind_eq_ok, okOr_eq_ok] at h
    obtain ⟨text, htext, payload, hpayload, name, hname, proto, hproto, srcText, hsrcText, srcIp, hsrcIp, dstText,
      hdstText, destIp, hdestIp, h⟩ := h
    rcases proto with _ | _
    all_goals
      simp only [bind_eq_ok, okOr_eq_ok] at h
      obtain ⟨srcPort, hsrcPort, destPort, hdestPort, h⟩ := h
      rcases srcIp with src | src
      · rcases destIp with dst | dst
        · exact ⟨⟨_, src, dst, srcPort, destPort, payload⟩, ⟨⟨text, htext, hpayload⟩, ⟨name, hname, hproto⟩,
            ⟨srcText, hsrcText, hsrcIp⟩, ⟨dstText, hdstText, hdestIp⟩, hsrcPort, hdestPort⟩, Except.ok.inj h⟩
        · exact nomatch h
      · exact nomatch h
  · rintro ⟨⟨proto, src, dst, srcPort, destPort, payload⟩, ⟨⟨text, htext, hpayload⟩, ⟨name, hname, hproto⟩,
      ⟨srcText, hsrcText, hsrcIp⟩, ⟨dstText, hdstText, hdestIp⟩, hsrcPort, hdestPort⟩, rfl⟩
    simp only [packetFromPayload, port, bind_eq_ok, okOr_eq_ok]
    refine ⟨text, htext, payload, hpayload, name, hname, proto, hproto, srcText, hsrcText, _, hsrcIp, dstText,
      hdstText, _, hdestIp, ?_⟩
    rcases proto with _ | _
    all_goals
      simp only [bind_eq_ok, okOr_eq_ok]
      exact ⟨srcPort, hsrcPort, destPort, hdestPort, rfl⟩

/-- An event is read in one way. -/
theorem Exchange.ReadFrom.unique {x y : Exchange} (hx : x.ReadFrom lib event) (hy : y.ReadFrom lib event) : x = y := by
  obtain ⟨⟨_, ht, hp⟩, ⟨_, hn, hq⟩, ⟨_, hs, hps⟩, ⟨_, hd, hpd⟩, hsp, hdp⟩ := hx
  obtain ⟨⟨_, ht', hp'⟩, ⟨_, hn', hq'⟩, ⟨_, hs', hps'⟩, ⟨_, hd', hpd'⟩, hsp', hdp'⟩ := hy
  obtain rfl := Option.some.inj (ht.symm.trans ht')
  obtain rfl := Option.some.inj (hn.symm.trans hn')
  obtain rfl := Option.some.inj (hs.symm.trans hs')
  obtain rfl := Option.some.inj (hd.symm.trans hd')
  have hpayload := Except.ok.inj (hp.symm.trans hp')
  have hproto := Option.some.inj (hq.symm.trans hq')
  have hsrc := IpAddr.v4.inj (Except.ok.inj (hps.symm.trans hps'))
  have hdst := IpAddr.v4.inj (Except.ok.inj (hpd.symm.trans hpd'))
  have hsrcPort := Option.some.inj (hsp.symm.trans hsp')
  have hdestPort := Option.some.inj (hdp.symm.trans hdp')
  rcases x with ⟨proto, src, dst, srcPort, destPort, payload⟩
  rcases y with ⟨proto', src', dst', srcPort', destPort', payload'⟩
  simp only at hpayload hproto hsrc hdst hsrcPort hdestPort
  rw [hpayload, hproto, hsrc, hdst, hsrcPort, hdestPort]

/-- What is made of an event is well formed and carries what the event says, exactly when the ports of the event
and the length of its packet are numbers of sixteen bits. -/
theorem packetFromPayload_wellFormed_iff (lib : Base64) (event : Json) :
    (∀ packet, packetFromPayload lib event = .ok packet → WellFormed lib event packet) ↔
      ∀ x : Exchange, x.ReadFrom lib event → x.Fits := by
  constructor
  · intro h x hx
    obtain ⟨y, hy, hcarried⟩ := h x.packet (packetFromPayload_eq_ok.2 ⟨x, hx, rfl⟩)
    rw [hy.unique hx] at hcarried
    exact x.carried_iff.1 hcarried
  · intro h packet hpacket
    obtain ⟨x, hx, rfl⟩ := packetFromPayload_eq_ok.1 hpacket
    exact ⟨x, hx, x.carried_iff.2 (h x hx)⟩

/-- An event with some payload text. -/
def payloadEvent (text : String) : Json :=
  .object [("dest_ip", .string "10.16.1.10"), ("dest_port", .number (.int 801)), ("payload", .string text),
    ("proto", .string "TCP"), ("src_ip", .string "10.16.1.4"), ("src_port", .number (.int 2049))]

theorem payloadEvent_readFrom {text : String} {data : List UInt8} (h : lib.decode text = .ok data) :
    Exchange.ReadFrom ⟨.tcp, ⟨10, 16, 1, 4⟩, ⟨10, 16, 1, 10⟩, 2049, 801, data⟩ lib (payloadEvent text) where
  payload := ⟨text, rfl, h⟩
  protocol := ⟨"TCP", rfl, show Protocol.fromName "TCP" = some .tcp by decide +kernel⟩
  src := ⟨"10.16.1.4", rfl, show IpAddr.parse "10.16.1.4" = .ok (.v4 ⟨10, 16, 1, 4⟩) by decide +kernel⟩
  dst := ⟨"10.16.1.10", rfl, show IpAddr.parse "10.16.1.10" = .ok (.v4 ⟨10, 16, 1, 10⟩) by decide +kernel⟩
  srcPort := rfl
  destPort := rfl

/-- A payload that is too long for the length field. -/
theorem payloadEvent_not_wellFormed {text : String} {data : List UInt8} (h : lib.decode text = .ok data)
    (hlength : 65496 ≤ data.length) :
    ¬ ∀ packet, packetFromPayload lib (payloadEvent text) = .ok packet →
      WellFormed lib (payloadEvent text) packet := by
  intro hall
  have hx := payloadEvent_readFrom h
  obtain ⟨y, hy, hcarried⟩ := hall _ (packetFromPayload_eq_ok.2 ⟨_, hx, rfl⟩)
  rw [hy.unique hx, Exchange.carried_iff] at hcarried
  have hlt : 20 + 20 + data.length < 2 ^ 16 := hcarried.length
  omega

/-- A decoder that knows one text. -/
def Base64.only (text : String) (data : List UInt8) : Base64 where
  decode t := if t = text then .ok data else .error "Invalid padding"

theorem Base64.decode_only (text : String) (data : List UInt8) : (Base64.only text data).decode text = .ok data :=
  if_pos rfl

/-- 65496 bytes of zeros. -/
def zeros : List UInt8 := List.replicate 65496 0

/-- Their text in base 64. -/
def zerosText : String := String.ofList (List.replicate 87328 'A')

/-- The packet of an event with this payload has 65536 bytes, and its length field says zero. -/
theorem zeros_not_wellFormed :
    ¬ ∀ packet, packetFromPayload (.only zerosText zeros) (payloadEvent zerosText) = .ok packet →
      WellFormed (.only zerosText zeros) (payloadEvent zerosText) packet := by
  have hlength : zeros.length = 65496 := by
    unfold zeros
    rw [List.length_replicate]
  exact payloadEvent_not_wellFormed (Base64.decode_only zerosText zeros) (le_of_eq hlength.symm)

end EveBox.Pcap
