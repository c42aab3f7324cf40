import EveBox.Eve.Event
import EveBox.Pcap.Writer

/-!
# Captures that are read back

Reference: `src/pcap/writer.rs` and the file generation part of `src/util/pcap.rs`.

A reader of the classic little-endian format, and what it makes of the bytes of both writers.
-/

namespace EveBox.Pcap

open Rust Eve

/-! ## The reader -/

/-- A record of a capture. -/
structure Record where
  tsSec : ℕ
  tsUsec : ℕ
  origLen : ℕ
  data : List UInt8
deriving DecidableEq, Repr

def readU16 : List UInt8 → Option (ℕ × List UInt8)
  | a :: b :: rest => some (a.toNat + 2 ^ 8 * b.toNat, rest)
  | _ => none

def readU32 : List UInt8 → Option (ℕ × List UInt8)
  | a :: b :: c :: d :: rest => some (a.toNat + 2 ^ 8 * b.toNat + 2 ^ 16 * c.toNat + 2 ^ 24 * d.toNat, rest)
  | _ => none

/-- The file header: the link type. -/
def readHeader (bytes : List UInt8) : Option (ℕ × List UInt8) := do
  let (fileMagic, bytes) ← readU32 bytes
  let (major, bytes) ← readU16 bytes
  let (minor, bytes) ← readU16 bytes
  let (_, bytes) ← readU32 bytes
  let (_, bytes) ← readU32 bytes
  let (_, bytes) ← readU32 bytes
  let (linktype, bytes) ← readU32 bytes
  if fileMagic = magic ∧ major = versionMajor ∧ minor = versionMinor then some (linktype, bytes) else none

/-- A record, with as many bytes of data as its header says. -/
def readRecord (bytes : List UInt8) : Option (Record × List UInt8) := do
  let (tsSec, bytes) ← readU32 bytes
  let (tsUsec, bytes) ← readU32 bytes
  let (inclLen, bytes) ← readU32 bytes
  let (origLen, bytes) ← readU32 bytes
  if inclLen ≤ bytes.length then some (⟨tsSec, tsUsec, origLen, bytes.take inclLen⟩, bytes.drop inclLen) else none

/-- The records up to the end, each of which takes bytes. -/
def readRecords : ℕ → List UInt8 → Option (List Record)
  | _, [] => some []
  | 0, _ :: _ => none
  | fuel + 1, bytes => do
      let (record, bytes) ← readRecord bytes
      let records ← readRecords fuel bytes
      return record :: records

/-- A capture: the link type and the records, and nothing behind these. -/
def readPcap (bytes : List UInt8) : Option (ℕ × List Record) := do
  let (linktype, bytes) ← readHeader bytes
  let records ← readRecords bytes.length bytes
  return (linktype, records)

/-! ## The writers -/

/-- `DateTime::to_seconds`. -/
def toSeconds (ts : DateTime) : ℤ := ts.nanos / 1000000000

/-- `DateTime::micros_part`. -/
def microsPart (ts : DateTime) : ℤ := ts.nanos % 1000000000 / 1000

/-- `create_record`. -/
def createRecord (ts : DateTime) (packet : List UInt8) : List UInt8 :=
  createRecordRaw (asU32 (toSeconds ts)) (asU32 (microsPart ts)) (asU32 packet.length) packet

/-- `create`. -/
def create (linktype : ℕ) (ts : DateTime) (packet : List UInt8) : List UInt8 :=
  createHeader linktype ++ createRecord ts packet

/-- Some packets of one link type, written in turn. -/
def writePackets {ω : Type*} [Write ω] (linktype : Linktype) :
    List Packet → PcapWriter ω → Except IoError Unit × PcapWriter ω
  | [], w => (.ok (), w)
  | pkt :: pkts, w =>
      match w.writePacket linktype pkt with
      | (.error err, w) => (.error err, w)
      | (.ok (), w) => writePackets linktype pkts w

/-- The record of a packet. -/
def Packet.record (pkt : Packet) : Record :=
  ⟨pkt.header.tvSec.toNat, pkt.header.tvUsec.toNat, pkt.header.len, pkt.data⟩

/-- What the packet says fits the fields of the format. -/
structure Packet.Fits (pkt : Packet) : Prop where
  sec : 0 ≤ pkt.header.tvSec ∧ pkt.header.tvSec < 2 ^ 32
  usec : 0 ≤ pkt.header.tvUsec ∧ pkt.header.tvUsec < 2 ^ 32
  len : pkt.header.len < 2 ^ 32
  data : pkt.data.length < 2 ^ 32

/-! ## Reading what has been written -/

theorem readU16_u16Le {x : ℕ} (h : x < 2 ^ 16) (rest : List UInt8) : readU16 (u16Le x ++ rest) = some (x, rest) := by
  have hlow : (UInt8.ofNat x).toNat = x % 2 ^ 8 := UInt8.toNat_ofNat'
  have hhigh : (UInt8.ofNat (x / 2 ^ 8)).toNat = x / 2 ^ 8 % 2 ^ 8 := UInt8.toNat_ofNat'
  simp only [u16Le, List.cons_append, List.nil_append, readU16, hlow, hhigh]
  congr 2
  omega

theorem readU32_u32Le {x : ℕ} (h : x < 2 ^ 32) (rest : List UInt8) : readU32 (u32Le x ++ rest) = some (x, rest) := by
  have hbyte : ∀ y : ℕ, (UInt8.ofNat y).toNat = y % 2 ^ 8 := fun y => UInt8.toNat_ofNat'
  simp only [u32Le, List.cons_append, List.nil_append, readU32, hbyte]
  congr 2
  omega

theorem asU32_lt (x : ℤ) : asU32 x < 2 ^ 32 := by
  unfold asU32
  omega

theorem asU32_of_fits {x : ℤ} (h : 0 ≤ x ∧ x < 2 ^ 32) : asU32 x = x.toNat := by
  unfold asU32
  omega

theorem asU32_length {data : List UInt8} (h : data.length < 2 ^ 32) : asU32 data.length = data.length := by
  unfold asU32
  omega

theorem readHeader_createHeader {linktype : ℕ} (h : linktype < 2 ^ 32) (rest : List UInt8) :
    readHeader (createHeader linktype ++ rest) = some (linktype, rest) := by
  have hmagic : magic < 2 ^ 32 := by decide
  have hmajor : versionMajor < 2 ^ 16 := by decide
  have hminor : versionMinor < 2 ^ 16 := by decide
  simp only [readHeader, createHeader, createHeaderWithSnaplen, List.append_assoc, readU32_u32Le hmagic,
    readU16_u16Le hmajor, readU16_u16Le hminor, readU32_u32Le (show 0 < 2 ^ 32 by omega),
    readU32_u32Le (show 0xFFFFFFFF < 2 ^ 32 by omega), readU32_u32Le h, Option.bind_eq_bind, Option.bind_some]
  exact if_pos (And.intro trivial ⟨trivial, trivial⟩)

theorem readRecord_createRecordRaw {sec usec orig : ℕ} {data : List UInt8} (hsec : sec < 2 ^ 32)
    (husec : usec < 2 ^ 32) (horig : orig < 2 ^ 32) (rest : List UInt8) :
    readRecord (createRecordRaw sec usec orig data ++ rest) =
      some (⟨sec, usec, orig, (data ++ rest).take (asU32 data.length)⟩, (data ++ rest).drop (asU32 data.length)) := by
  have hle : asU32 data.length ≤ (data ++ rest).length := by
    rw [List.length_append]
    unfold asU32
    omega
  simp only [readRecord, createRecordRaw, List.append_assoc, readU32_u32Le hsec, readU32_u32Le husec,
    readU32_u32Le (asU32_lt _), readU32_u32Le horig, Option.bind_eq_bind, Option.bind_some, if_pos hle]

/-- The record of a packet that fits is read as the packet. -/
theorem readRecord_packetRecord {pkt : Packet} (h : pkt.Fits) (rest : List UInt8) :
    readRecord (packetRecord pkt ++ rest) = some (pkt.record, rest) := by
  unfold packetRecord
  rw [readRecord_createRecordRaw (asU32_lt _) (asU32_lt _) h.len, asU32_length h.data, asU32_of_fits h.sec,
    asU32_of_fits h.usec, List.take_left, List.drop_left]
  rfl

theorem packetRecord_length (pkt : Packet) :
    (packetRecord pkt).length = pcapRecordHeaderSize + pkt.data.length := createRecordRaw_length _ _ _ _

theorem readRecords_cons (fuel : ℕ) (b : UInt8) (bytes : List UInt8) :
    readRecords (fuel + 1) (b :: bytes) = (readRecord (b :: bytes)).bind fun read =>
      (readRecords fuel read.2).map (read.1 :: ·) := by
  rw [readRecords]
  · cases readRecord (b :: bytes) with
    | none => rfl
    | some read =>
        simp only [Option.bind_eq_bind, Option.bind_some]
        cases readRecords fuel read.2 <;> rfl
  · exact fun h => List.cons_ne_nil _ _ h

theorem readRecords_packetRecords {pkts : List Packet} (h : ∀ pkt ∈ pkts, pkt.Fits) {fuel : ℕ}
    (hfuel : (pkts.flatMap packetRecord).length ≤ fuel) :
    readRecords fuel (pkts.flatMap packetRecord) = some (pkts.map Packet.record) := by
  induction pkts generalizing fuel with
  | nil => cases fuel <;> rfl
  | cons pkt pkts ih =>
      obtain ⟨hpkt, hpkts⟩ := List.forall_mem_cons.mp h
      have hlength := packetRecord_length pkt
      rw [List.flatMap_cons, List.length_append] at hfuel
      have hpos : pcapRecordHeaderSize = 16 := rfl
      obtain ⟨n, rfl⟩ : ∃ n, fuel = n + 1 := ⟨fuel - 1, by omega⟩
      have hrest := ih hpkts (show (pkts.flatMap packetRecord).length ≤ n by omega)
      have hne : packetRecord pkt ++ pkts.flatMap packetRecord ≠ [] := by
        apply List.append_ne_nil_of_left_ne_nil
        apply List.ne_nil_of_length_pos
        omega
      obtain ⟨b, bytes, hbytes⟩ := List.exists_cons_of_ne_nil hne
      have hrecord := readRecord_packetRecord hpkt (pkts.flatMap packetRecord)
      rw [List.flatMap_cons]
      rw [hbytes] at hrecord ⊢
      rw [readRecords_cons, hrecord]
      simp [hrest]

/-- A capture is read as its link type and its packets. -/
theorem readPcap_captureBytes {linktype : Linktype} {pkts : List Packet} (hne : pkts ≠ [])
    (h : ∀ pkt ∈ pkts, pkt.Fits) :
    readPcap (captureBytes (pkts.map fun pkt => (linktype, pkt))) =
      some (asU32 linktype.dlt, pkts.map Packet.record) := by
  have hbytes : captureBytes (pkts.map fun pkt => (linktype, pkt)) =
      createHeader (asU32 linktype.dlt) ++ pkts.flatMap packetRecord := by
    obtain ⟨pkt, rest, rfl⟩ := List.exists_cons_of_ne_nil hne
    simp [captureBytes, List.flatMap_map]
  have hrecords := readRecords_packetRecords h le_rfl
  rw [hbytes, readPcap, readHeader_createHeader (asU32_lt _)]
  simp only [Option.bind_eq_bind, Option.bind_some, hrecords]
  rfl

/-- Writing packets to a sink appends them to the capture. -/
theorem PcapWriter.Wrote.writePackets {ω : Type*} [Write ω] {sink : Sink ω} {before : List UInt8}
    {done : List (Linktype × Packet)} {w : PcapWriter ω} (h : w.Wrote sink before done) (linktype : Linktype)
    (pkts : List Packet) : ∃ w', Pcap.writePackets linktype pkts w = (.ok (), w') ∧
      w'.Wrote sink before (done ++ pkts.map fun pkt => (linktype, pkt)) := by
  induction pkts generalizing done w with
  | nil => exact ⟨w, rfl, by simpa using h⟩
  | cons pkt pkts ih =>
      obtain ⟨w₁, hwrite, hwrote⟩ := h.writePacket linktype pkt
      obtain ⟨w₂, hrest, hwrote'⟩ := ih hwrote
      refine ⟨w₂, ?_, by simpa using hwrote'⟩
      simp only [Pcap.writePackets, hwrite, hrest]

/-- The capture in memory is that of a packet. -/
theorem create_eq (linktype : Linktype) (ts : DateTime) (packet : List UInt8) :
    create (asU32 linktype.dlt) ts packet =
      captureBytes [(linktype, ⟨⟨toSeconds ts, microsPart ts, packet.length, asU32 packet.length⟩, packet⟩)] := by
  simp [create, createRecord, captureBytes, packetRecord]

/-- The link type of the number in a file header. -/
def linktypeOf (network : ℕ) : Linktype := ⟨if network < 2 ^ 31 then network else network - 2 ^ 32⟩

theorem linktypeOf_asU32 {linktype : Linktype} (h : -2 ^ 31 ≤ linktype.dlt ∧ linktype.dlt < 2 ^ 31) :
    linktypeOf (asU32 linktype.dlt) = linktype := by
  obtain ⟨dlt⟩ := linktype
  unfold linktypeOf asU32
  simp only [Linktype.mk.injEq] at h ⊢
  split <;> omega

theorem microsPart_fits (ts : DateTime) : 0 ≤ microsPart ts ∧ microsPart ts < 2 ^ 32 := by
  unfold microsPart
  omega

/-- What both writers write is read back: the link type, and each packet. -/
theorem pcap_readBack {ω : Type*} [Write ω] (sink : Sink ω) (out : ω) (linktype : Linktype)
    (hlinktype : -2 ^ 31 ≤ linktype.dlt ∧ linktype.dlt < 2 ^ 31) :
    (∀ pkts : List Packet, pkts ≠ [] → (∀ pkt ∈ pkts, pkt.Fits) → ∃ w bytes,
      writePackets linktype pkts (.new out) = (.ok (), w) ∧ sink.contents w.out = sink.contents out ++ bytes ∧
      (readPcap bytes).map (fun capture => (linktypeOf capture.1, capture.2)) =
        some (linktype, pkts.map Packet.record)) ∧
    ∀ (ts : DateTime) (packet : List UInt8), 0 ≤ toSeconds ts ∧ toSeconds ts < 2 ^ 32 → packet.length < 2 ^ 32 →
      (readPcap (create (asU32 linktype.dlt) ts packet)).map (fun capture => (linktypeOf capture.1, capture.2)) =
        some (linktype, [⟨(toSeconds ts).toNat, (microsPart ts).toNat, packet.length, packet⟩]) := by
  constructor
  · intro pkts hne hfits
    obtain ⟨w, hwrite, hwrote⟩ := (PcapWriter.Wrote.new sink out).writePackets linktype pkts
    refine ⟨w, _, hwrite, hwrote.contents, ?_⟩
    rw [List.nil_append, readPcap_captureBytes hne hfits, Option.map_some, linktypeOf_asU32 hlinktype]
  · intro ts packet hsec hlength
    have hpkt : Packet.Fits ⟨⟨toSeconds ts, microsPart ts, packet.length, asU32 packet.length⟩, packet⟩ :=
      ⟨hsec, microsPart_fits ts, asU32_lt packet.length, hlength⟩
    have hread := @readPcap_captureBytes linktype [_] (List.cons_ne_nil _ _) (List.forall_mem_singleton.mpr hpkt)
    rw [create_eq]
    simp only [List.map_singleton] at hread
    rw [hread, Option.map_some, linktypeOf_asU32 hlinktype]
    simp [Packet.record, asU32_length hlength]

theorem pcap_readBack_vec : (readPcap (create (asU32 101) ⟨1700000000123456000, 0⟩ [1, 2, 3])).map
      (fun capture => (linktypeOf capture.1, capture.2)) = some (⟨101⟩, [⟨1700000000, 123456, 3, [1, 2, 3]⟩]) :=
  (pcap_readBack Sink.vec [] ⟨101⟩ (by decide)).2 ⟨1700000000123456000, 0⟩ [1, 2, 3] (by decide) (by decide)

theorem head?_readRecords {fuel : ℕ} {bytes rest : List UInt8} {records : List Record} {record : Record}
    (hne : bytes ≠ []) (hrecord : readRecord bytes = some (record, rest))
    (h : readRecords fuel bytes = some records) : records.head? = some record := by
  obtain ⟨b, bytes, rfl⟩ := List.exists_cons_of_ne_nil hne
  cases fuel with
  | zero => cases h
  | succ n =>
      rw [readRecords_cons, hrecord, Option.bind_some] at h
      obtain ⟨rest, -, rfl⟩ := Option.map_eq_some_iff.mp h
      rfl

/-- A packet that the length field cannot tell is read without its data. -/
theorem create_not_readBack {data : List UInt8} (h : data.length = 2 ^ 32) :
    (readPcap (create 1 ⟨0, 0⟩ data)).map (·.2) ≠ some [⟨0, 0, data.length, data⟩] := by
  intro hread
  obtain ⟨⟨network, records⟩, hpcap, hrecords⟩ := Option.map_eq_some_iff.mp hread
  have hzero : asU32 data.length = 0 := by
    rw [h]
    decide
  have hrecord := @readRecord_createRecordRaw 0 0 0 data (by omega) (by omega) (by omega) []
  rw [hzero, List.take_zero, List.drop_zero, List.append_nil, List.append_nil] at hrecord
  have hcreate : createRecord ⟨0, 0⟩ data = createRecordRaw 0 0 0 data := by
    rw [createRecord, hzero]
    rfl
  rw [create, readPcap, readHeader_createHeader (by omega), hcreate] at hpcap
  simp only [Option.bind_eq_bind, Option.bind_some] at hpcap
  obtain ⟨read, hread', heq⟩ := Option.bind_eq_some_iff.mp hpcap
  obtain ⟨-, rfl⟩ := Prod.mk.inj (Option.some.inj heq)
  have hne : createRecordRaw 0 0 0 data ≠ [] := by
    apply List.ne_nil_of_length_pos
    rw [createRecordRaw_length]
    omega
  have hhead := head?_readRecords hne hrecord hread'
  simp only at hrecords
  rw [hrecords] at hhead
  have horig : data.length = 0 := congrArg Record.origLen (Option.some.inj hhead)
  omega

/-- Of no packet nothing is written, and the link type is lost. A packet of `2 ^ 32` bytes is not read back. -/
theorem pcap_not_readBack :
    (writePackets Linktype.ethernet [] (.new ([] : List UInt8))).2.out = [] ∧ readPcap [] = none ∧
    ∃ data : List UInt8, data.length = 2 ^ 32 ∧
      (readPcap (create 1 ⟨0, 0⟩ data)).map (·.2) ≠ some [⟨0, 0, data.length, data⟩] :=
  ⟨rfl, rfl, _, List.length_replicate, create_not_readBack (@List.length_replicate _ (2 ^ 32) 0)⟩

end EveBox.Pcap
