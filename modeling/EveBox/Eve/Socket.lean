import EveBox.Lib.Lines
import EveBox.Lib.Transition
import EveBox.Rust.Text

/-!
# EVE records from a stream socket

Reference: `SocketIngress`, `SocketProcessor::process_record`, `run_stream` and `read_stream` of `src/eve/socket.rs`.

The connections come one after another; the processor takes the records at the other end of the queue. A `read_until` that
the interval cancels leaves the bytes it has consumed in the buffer. The counters, of 64 bits, are natural numbers.
-/

namespace EveBox.Eve

open Rust Transition

/-- `MAX_RECORD_SIZE`. -/
def maxRecordSize : ℕ := 8 * 1024 * 1024

/-- `INPUT_QUEUE_RECORD_CAPACITY`. -/
def inputQueueRecordCapacity : ℕ := 4096

/-- `INPUT_QUEUE_BYTE_CAPACITY`. -/
def inputQueueByteCapacity : ℕ := 16 * 1024 * 1024

/-- `u8::is_ascii_whitespace`. -/
def isAsciiWhitespace (b : UInt8) : Bool := b == 0x20 || b == 0x09 || b == 0x0A || b == 0x0C || b == 0x0D

/-- Nothing but whitespace. -/
def isBlank (bytes : Bytes) : Bool := bytes.all isAsciiWhitespace

/-! ## The queue -/

/-- A record in the queue, with the permits of the byte budget that it holds. -/
structure QueuedRecord where
  record : ℕ
  bytes : Bytes
  bytePermit : ℕ
deriving DecidableEq

structure SocketIngress where
  sender : Channel QueuedRecord
  byteBudget : ℕ
  errors : ℕ
  queueDrops : ℕ

namespace SocketIngress

def new : SocketIngress where
  sender := .new QueuedRecord inputQueueRecordCapacity
  byteBudget := inputQueueByteCapacity
  errors := 0
  queueDrops := 0

def noteError (i : SocketIngress) : SocketIngress := { i with errors := i.errors + 1 }

def noteQueueDrop (i : SocketIngress) : SocketIngress := { i with queueDrops := i.queueDrops + 1 }

/-- Queue a record, or count it as dropped; `false` if the processor is gone. -/
def enqueue (i : SocketIngress) (record : ℕ) (bytes : Bytes) : Bool × SocketIngress :=
  if isBlank bytes then (true, i)
  else
    let bytePermit := bytes.length % 2 ^ 32
    if i.byteBudget < bytePermit then (true, i.noteQueueDrop)
    else
      match i.sender.trySend ⟨record, bytes, bytePermit⟩ with
      | (.ok (), sender) => (true, { i with sender := sender, byteBudget := i.byteBudget - bytePermit })
      -- the permit is dropped
      | (.error .full, _) => (true, i.noteQueueDrop)
      | (.error .closed, _) => (false, i)

end SocketIngress

/-! ## A connection -/

/-- Why a connection has ended. -/
inductive StreamEnd
  | endOfStream
  | oversized
  | failed
  | processorGone
deriving DecidableEq

/-- `read_stream`. The peer has sent `arrived`, of which `unread` has not been consumed, and sends no more after it has
hung up; the pending `read_until` has consumed something if it is `fresh`. The `candidates` are what has been passed to
`enqueue`; these, `arrived`, and how much had been queued and dropped `before` the connection, are ghosts. -/
structure ReadStream where
  arrived : Bytes
  unread : Bytes
  hungUp : Bool
  buffer : Bytes
  fresh : Bool
  record : ℕ
  ended : Option StreamEnd
  candidates : List Bytes
  queuedBefore : ℕ
  dropsBefore : ℕ

/-- The socket: its ingress, the connection, and the record that the processor parses. What has `left` the queue is a
ghost. -/
structure StreamSocket where
  ingress : SocketIngress
  stream : ReadStream
  parsing : Option QueuedRecord
  left : List QueuedRecord

namespace ReadStream

def new (queuedBefore dropsBefore : ℕ) : ReadStream where
  arrived := []
  unread := []
  hungUp := false
  buffer := []
  fresh := false
  record := 0
  ended := none
  candidates := []
  queuedBefore := queuedBefore
  dropsBefore := dropsBefore

/-- Bytes move from the stream to the buffer. -/
def consume (r : ReadStream) (n : ℕ) : ReadStream :=
  { r with unread := r.unread.drop n, buffer := r.buffer ++ r.unread.take n, fresh := true }

/-- The buffer is the next record. -/
def count (r : ReadStream) : ReadStream :=
  { r with record := r.record + 1, candidates := r.candidates ++ [r.buffer] }

end ReadStream

namespace StreamSocket

def new : StreamSocket := ⟨.new, .new 0 0, none, []⟩

variable (s : StreamSocket)

/-- All records that have been queued. -/
def queued : List QueuedRecord := s.left ++ s.ingress.sender.queue

/-- The connection is closed at a record that is too long. -/
def closeOversized : StreamSocket :=
  { s with ingress := s.ingress.noteError, stream := { s.stream with ended := some .oversized } }

/-- The buffer is passed to `enqueue`; then the connection goes on as `next`. -/
def enqueue (next : ReadStream → ReadStream) : StreamSocket :=
  let stream := s.stream.count
  let result := s.ingress.enqueue stream.record stream.buffer
  { s with
    ingress := result.2
    stream := if result.1 then next stream else { stream with ended := some .processorGone } }

/-- `read_until` has returned `Ok(0)`. -/
def readNothing : StreamSocket :=
  if s.stream.buffer ≠ [] then
    if s.stream.buffer.length > maxRecordSize then s.closeOversized
    else s.enqueue fun r => { r with ended := some .endOfStream }
  else { s with stream := { s.stream with ended := some .endOfStream } }

/-- `read_until` has returned `Ok(_)`, with a newline or at the end of the stream. -/
def readRecord : StreamSocket :=
  if s.stream.buffer.length > maxRecordSize then s.closeOversized
  else s.enqueue fun r => { r with buffer := [], fresh := false }

/-! ## The steps -/

/-- The peer sends some bytes. -/
def arrive (bytes : Bytes) : Option StreamSocket :=
  if s.stream.ended = none ∧ s.stream.hungUp = false then
    some { s with
      stream := { s.stream with arrived := s.stream.arrived ++ bytes, unread := s.stream.unread ++ bytes } }
  else none

def hangUp : Option StreamSocket :=
  if s.stream.ended = none then some { s with stream := { s.stream with hungUp := true } } else none

/-- A pending `read_until` consumes bytes up to no newline. -/
def readPart (n : ℕ) : Option StreamSocket :=
  if s.stream.ended = none ∧ 0 < n ∧ n ≤ s.stream.unread.length ∧ newline ∉ s.stream.unread.take n then
    some { s with stream := s.stream.consume n }
  else none

/-- A `read_until` returns at a newline. -/
def readLine : Option StreamSocket :=
  if s.stream.ended = none ∧ newline ∈ s.stream.unread then
    some { s with stream := s.stream.consume (Lines.first newline s.stream.unread).length }.readRecord
  else none

/-- A `read_until` returns at the end of the stream: with what it has consumed, or with nothing. -/
def readEnd : Option StreamSocket :=
  if s.stream.ended = none ∧ s.stream.hungUp = true ∧ s.stream.unread = [] then
    some (if s.stream.fresh then s.readRecord else s.readNothing)
  else none

/-- A `read_until` fails. -/
def readError : Option StreamSocket :=
  if s.stream.ended = none then
    some { s with ingress := s.ingress.noteError, stream := { s.stream with ended := some .failed } }
  else none

/-- The interval ticks, and the pending `read_until` is cancelled. -/
def tick : Option StreamSocket :=
  if s.stream.ended = none then
    if s.stream.buffer.length > maxRecordSize then some s.closeOversized
    else some { s with stream := { s.stream with fresh := false } }
  else none

/-- `run_stream` accepts the next connection. -/
def accept : Option StreamSocket :=
  match s.stream.ended with
  | none | some .processorGone => none
  | some _ => some { s with stream := .new s.queued.length s.ingress.queueDrops }

/-- The processor receives a record. -/
def receive : Option StreamSocket :=
  match s.parsing, s.ingress.sender.queue with
  | none, q :: queue =>
      some { s with
        ingress := { s.ingress with sender := { s.ingress.sender with queue := queue } }
        parsing := some q
        left := s.left ++ [q] }
  | _, _ => none

/-- `process_record` has parsed the record, and drops its permit. -/
def release : Option StreamSocket :=
  s.parsing.map fun q =>
    { s with ingress := { s.ingress with byteBudget := s.ingress.byteBudget + q.bytePermit }, parsing := none }

/-- The permits that records hold. -/
def heldPermits : ℕ :=
  (s.ingress.sender.queue.map (·.bytePermit)).sum + (s.parsing.toList.map (·.bytePermit)).sum

/-- The processor is dropped, with its receiver and the records that are queued. -/
def dropProcessor : StreamSocket :=
  { s with
    ingress :=
      { s.ingress with
        sender := { s.ingress.sender with queue := [], closed := true }
        byteBudget := s.ingress.byteBudget + s.heldPermits }
    parsing := none
    left := s.left ++ s.ingress.sender.queue }

end StreamSocket

/-- What can happen. -/
inductive StreamOp
  | arrive (bytes : Bytes)
  | hangUp
  | readPart (n : ℕ)
  | readLine
  | readEnd
  | readError
  | tick
  | accept
  | receive
  | release
  | dropProcessor

def StreamSocket.step (s : StreamSocket) : StreamOp → Option StreamSocket
  | .arrive bytes => s.arrive bytes
  | .hangUp => s.hangUp
  | .readPart n => s.readPart n
  | .readLine => s.readLine
  | .readEnd => s.readEnd
  | .readError => s.readError
  | .tick => s.tick
  | .accept => s.accept
  | .receive => s.receive
  | .release => s.release
  | .dropProcessor => some s.dropProcessor

/-! ## What is asked of it -/

/-- A piece that is not too long. -/
def fits (piece : Bytes) : Bool := piece.length ≤ maxRecordSize

/-- The records, numbered from 1, that are not blank. -/
def toQueue (records : List Bytes) : List (Bytes × ℕ) := (records.zipIdx 1).filter fun c => !isBlank c.1

namespace StreamSocket

variable (s : StreamSocket)

/-- The candidates that `enqueue` has decided on: the last one is not if it found the processor gone. -/
def decided : List Bytes :=
  if s.stream.ended = some .processorGone then s.stream.candidates.dropLast else s.stream.candidates

/-- The records of the connection that have been queued, each with its number. -/
def ownQueued : List (Bytes × ℕ) := (s.queued.drop s.stream.queuedBefore).map fun q => (q.bytes, q.record)

/-- What holds in every state. The candidates are the pieces of the stream, each with its newline, as far as these are not
too long; of those that are not blank, some are queued, in order, and the others counted as dropped. -/
structure Lawful : Prop where
  candidates : s.stream.candidates <+: (Lines.pieces newline s.stream.arrived).takeWhile fits
  reading : s.stream.ended = none → s.stream.candidates.flatten ++ s.stream.buffer ++ s.stream.unread = s.stream.arrived
  endOfStream : s.stream.ended = some .endOfStream → s.stream.candidates = Lines.pieces newline s.stream.arrived
  oversized : s.stream.ended = some .oversized →
    s.stream.candidates = (Lines.pieces newline s.stream.arrived).takeWhile fits ∧
      ∃ piece ∈ Lines.pieces newline s.stream.arrived, fits piece = false
  queued : s.ownQueued.Sublist (toQueue s.decided)
  dropped : s.ingress.queueDrops + s.ownQueued.length = s.stream.dropsBefore + (toQueue s.decided).length
  records : s.ingress.sender.queue.length ≤ inputQueueRecordCapacity
  bytes : totalLength (s.ingress.sender.queue.map (·.bytes)) ≤ inputQueueByteCapacity
  returned : s.ingress.sender.queue = [] → s.parsing = none → s.ingress.byteBudget = inputQueueByteCapacity

/-- No connection stays open with too long a buffer when a read returns or the interval ticks. -/
def ClosesOversized : Prop :=
  ∀ op ∈ [StreamOp.readLine, .readEnd, .tick], ∀ s', s.step op = some s' → s'.stream.ended = none →
    fits s'.stream.buffer = true

/-- The processor can drain the queue, and then has returned all permits. -/
def Drains : Prop :=
  ∃ ops s', (∀ op ∈ ops, op = .receive ∨ op = .release) ∧ exec step s ops = some s' ∧
    s'.ingress.sender.queue = [] ∧ s'.ingress.byteBudget = inputQueueByteCapacity

end StreamSocket

end EveBox.Eve
