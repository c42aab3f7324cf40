import EveBox.Rust.Prelude

/-!
# The streaming pcap writer

Reference: `src/pcap/writer.rs` and the file generation part of `src/util/pcap.rs`.
-/

namespace EveBox.Pcap

open Rust

/-- `pcap::Linktype`, the DLT number. -/
structure Linktype where
  dlt : ℤ
deriving DecidableEq, Repr

/-- `pcap::Linktype::ETHERNET`. -/
def Linktype.ethernet : Linktype := ⟨1⟩

/-- `pcap::PacketHeader`: the capture time as a `timeval`, the captured and the original length. -/
structure PacketHeader where
  tvSec : ℤ
  tvUsec : ℤ
  caplen : ℕ
  len : ℕ
deriving DecidableEq, Repr

/-- `pcap::Packet`. -/
structure Packet where
  header : PacketHeader
  data : List UInt8
deriving DecidableEq, Repr

def magic : ℕ := 0xa1b2c3d4
def versionMajor : ℕ := 2
def versionMinor : ℕ := 4
def fileHeaderLen : ℕ := 24
def pcapRecordHeaderSize : ℕ := 16

/-- `x as u32`, for a signed or an unsigned source. -/
def asU32 (x : ℤ) : ℕ := (x % 2 ^ 32).toNat

/-- `BytesMut::put_u16_le`. -/
def u16Le (x : ℕ) : List UInt8 := [UInt8.ofNat x, UInt8.ofNat (x / 2 ^ 8)]

/-- `BytesMut::put_u32_le`. -/
def u32Le (x : ℕ) : List UInt8 :=
  [UInt8.ofNat x, UInt8.ofNat (x / 2 ^ 8), UInt8.ofNat (x / 2 ^ 16), UInt8.ofNat (x / 2 ^ 24)]

/-- `create_header_with_snaplen`. -/
def createHeaderWithSnaplen (linktype snaplen : ℕ) : List UInt8 :=
  u32Le magic ++ u16Le versionMajor ++ u16Le versionMinor ++ u32Le 0 ++ u32Le 0 ++ u32Le snaplen ++
    u32Le linktype

/-- `create_header`. -/
def createHeader (linktype : ℕ) : List UInt8 := createHeaderWithSnaplen linktype 0xFFFFFFFF

/-- `create_record_raw`. -/
def createRecordRaw (tsSec tsUsec origLen : ℕ) (data : List UInt8) : List UInt8 :=
  u32Le tsSec ++ u32Le tsUsec ++ u32Le (asU32 data.length) ++ u32Le origLen ++ data

theorem createHeader_length (linktype : ℕ) : (createHeader linktype).length = fileHeaderLen := rfl

theorem createRecordRaw_length (tsSec tsUsec origLen : ℕ) (data : List UInt8) :
    (createRecordRaw tsSec tsUsec origLen data).length = pcapRecordHeaderSize + data.length := by
  simp [createRecordRaw, u32Le, pcapRecordHeaderSize]
  omega

/-- `PcapWriter`: the output, the bytes handed to it, and whether the file header is among them. -/
structure PcapWriter (ω : Type*) where
  out : ω
  bytes : ℕ
  headerWritten : Bool

variable {ω : Type*} [Write ω]

/-- `PcapWriter::new`. -/
def PcapWriter.new (out : ω) : PcapWriter ω := ⟨out, 0, false⟩

/-- `PcapWriter::next_write_size`. -/
def PcapWriter.nextWriteSize (w : PcapWriter ω) (dataLen : ℕ) : ℕ :=
  if w.headerWritten then pcapRecordHeaderSize + dataLen
  else pcapRecordHeaderSize + dataLen + fileHeaderLen

/-- The lazy part of `PcapWriter::write_packet`: the file header, before the first record. -/
def PcapWriter.writeHeader (w : PcapWriter ω) (linktype : Linktype) :
    Except IoError Unit × PcapWriter ω :=
  if w.headerWritten then (.ok (), w)
  else
    let header := createHeader (asU32 linktype.dlt)
    match Write.writeAll header w.out with
    | (.error err, out) => (.error err, { w with out := out })
    | (.ok (), out) =>
        (.ok (), { out := out, bytes := w.bytes + header.length, headerWritten := true })

/-- `PcapWriter::write_packet`. -/
def PcapWriter.writePacket (w : PcapWriter ω) (linktype : Linktype) (pkt : Packet) :
    Except IoError Unit × PcapWriter ω :=
  match w.writeHeader linktype with
  | (.error err, w) => (.error err, w)
  | (.ok (), w) =>
      let record := createRecordRaw (asU32 pkt.header.tvSec) (asU32 pkt.header.tvUsec)
        pkt.header.len pkt.data
      match Write.writeAll record w.out with
      | (.error err, out) => (.error err, { w with out := out })
      | (.ok (), out) => (.ok (), { w with out := out, bytes := w.bytes + record.length })

/-- `PcapWriter::flush`. -/
def PcapWriter.flush (w : PcapWriter ω) : Except IoError Unit × PcapWriter ω :=
  match Write.flush w.out with
  | (r, out) => (r, { w with out := out })

/-- A packet that is written adds `next_write_size` to the byte count. -/
theorem PcapWriter.writePacket_ok {w w' : PcapWriter ω} {linktype : Linktype} {pkt : Packet}
    (h : w.writePacket linktype pkt = (.ok (), w')) :
    w'.bytes = w.bytes + w.nextWriteSize pkt.data.length ∧ w'.headerWritten = true := by
  unfold writePacket at h
  split at h
  · cases h
  · rename_i w₁ hheader
    have hw₁ : w₁.headerWritten = true ∧
        w₁.bytes = w.bytes + if w.headerWritten then 0 else fileHeaderLen := by
      unfold writeHeader at hheader
      split at hheader
      · rename_i hw
        cases hheader
        simp [hw]
      · rename_i hw
        simp only at hheader
        split at hheader
        · cases hheader
        · cases hheader
          simp [hw, createHeader_length]
    simp only at h
    split at h
    · cases h
    · cases h
      refine ⟨?_, hw₁.1⟩
      simp only [hw₁.2, createRecordRaw_length, nextWriteSize]
      split <;> omega

/-! ## The bytes of a capture -/

/-- The record `write_packet` writes for a packet. -/
def packetRecord (pkt : Packet) : List UInt8 :=
  createRecordRaw (asU32 pkt.header.tvSec) (asU32 pkt.header.tvUsec) pkt.header.len pkt.data

/-- What a writer puts out for a list of packets: nothing for none, else the file header of the first
packet's link type and a record for each packet. -/
def captureBytes : List (Linktype × Packet) → List UInt8
  | [] => []
  | (linktype, pkt) :: pkts =>
      createHeader (asU32 linktype.dlt) ++
        ((linktype, pkt) :: pkts).flatMap fun p => packetRecord p.2

theorem captureBytes_singleton (linktype : Linktype) (pkt : Packet) :
    captureBytes [(linktype, pkt)] = createHeader (asU32 linktype.dlt) ++ packetRecord pkt := by
  rw [captureBytes, List.flatMap_cons, List.flatMap_nil, List.append_nil]

theorem captureBytes_append_singleton {pkts : List (Linktype × Packet)} (h : pkts ≠ [])
    (p : Linktype × Packet) : captureBytes (pkts ++ [p]) = captureBytes pkts ++ packetRecord p.2 := by
  cases pkts with
  | nil => exact absurd rfl h
  | cons q pkts => simp [captureBytes]

/-- The writer has put out the capture of `pkts`, behind what was in the output before. -/
structure PcapWriter.Wrote (sink : Sink ω) (before : List UInt8) (pkts : List (Linktype × Packet))
    (w : PcapWriter ω) : Prop where
  contents : sink.contents w.out = before ++ captureBytes pkts
  bytes : w.bytes = (captureBytes pkts).length
  header : w.headerWritten = !pkts.isEmpty

theorem PcapWriter.Wrote.new (sink : Sink ω) (out : ω) :
    (PcapWriter.new out).Wrote sink (sink.contents out) [] :=
  ⟨by simp [PcapWriter.new, captureBytes], rfl, rfl⟩

/-- Flushing a sink writes nothing. -/
theorem PcapWriter.Wrote.flush {sink : Sink ω} {before : List UInt8}
    {pkts : List (Linktype × Packet)} {w : PcapWriter ω} (h : w.Wrote sink before pkts) :
    ∃ w', w.flush = (.ok (), w') ∧ w'.Wrote sink before pkts := by
  obtain ⟨out, hflush, hcontents⟩ := sink.flush w.out
  refine ⟨{ w with out := out }, ?_, hcontents.trans h.contents, h.bytes, h.header⟩
  rw [PcapWriter.flush, hflush]

/-- Writing a packet to a sink appends it to the capture. -/
theorem PcapWriter.Wrote.writePacket {sink : Sink ω} {before : List UInt8}
    {pkts : List (Linktype × Packet)} {w : PcapWriter ω} (h : w.Wrote sink before pkts)
    (linktype : Linktype) (pkt : Packet) :
    ∃ w', w.writePacket linktype pkt = (.ok (), w') ∧
      w'.Wrote sink before (pkts ++ [(linktype, pkt)]) := by
  cases hpkts : pkts with
  | nil =>
      subst hpkts
      have hheader : w.headerWritten = false := h.header
      obtain ⟨out₁, hwrite₁, hcontents₁⟩ :=
        sink.writeAll (createHeader (asU32 linktype.dlt)) w.out
      obtain ⟨out₂, hwrite₂, hcontents₂⟩ := sink.writeAll (packetRecord pkt) out₁
      unfold packetRecord at hwrite₂
      refine ⟨{ out := out₂, headerWritten := true, bytes := w.bytes +
          (createHeader (asU32 linktype.dlt)).length + (packetRecord pkt).length }, ?_, ?_⟩
      · simp only [PcapWriter.writePacket, writeHeader, hheader, Bool.false_eq_true, if_false,
          hwrite₁, hwrite₂, packetRecord]
      · refine ⟨?_, ?_, rfl⟩
        · rw [hcontents₂, hcontents₁, h.contents]
          simp [captureBytes]
        · simp [captureBytes, h.bytes]
  | cons p pkts' =>
      have hne : pkts ≠ [] := by simp [hpkts]
      have hheader : w.headerWritten = true := by simp [h.header, hpkts]
      obtain ⟨out, hwrite, hcontents⟩ := sink.writeAll (packetRecord pkt) w.out
      unfold packetRecord at hwrite
      rw [← hpkts]
      refine ⟨{ w with out := out, bytes := w.bytes + (packetRecord pkt).length }, ?_, ?_⟩
      · simp only [PcapWriter.writePacket, writeHeader, hheader, if_true, hwrite, packetRecord]
      · refine ⟨?_, ?_, by simp [hheader]⟩
        · rw [hcontents, h.contents, captureBytes_append_singleton hne, List.append_assoc]
        · rw [captureBytes_append_singleton hne, List.length_append, ← h.bytes]

end EveBox.Pcap
