import EveBox.Agent.Job
import EveBox.Lib.Transition

/-!
# From the writes of a fetch to the body of its upload

Reference: `ChannelWriter`, `UploadBodyStream` and what `run_job` does between them, of `src/agent/channel.rs`.

No attempt to send fails, and nothing is cancelled: a call waits until the channel has room for its chunks. The calls go
through the `ChannelWriter`; of one call after another, its chunks are sent, received and polled in any order that the
channel allows.
-/

namespace EveBox.Agent

open Rust Transition

/-! ## The calls -/

/-- What a fetch does with its writer. -/
inductive WriterCall
  | write (data : Bytes)
  | flush
deriving DecidableEq, Repr

namespace WriterCall

/-- The bytes that are written. -/
def data : WriterCall → Bytes
  | write data => data
  | flush => []

/-- All bytes that some calls write. -/
def written (calls : List WriterCall) : Bytes := (calls.map data).flatten

/-- The first write that is not empty. -/
def firstWrite (calls : List WriterCall) : Option Bytes := (calls.map data).find? (· ≠ [])

end WriterCall

/-- The writer, the next attempts of which succeed. -/
def ChannelWriter.unhindered (w : ChannelWriter) (attempts : ℕ) : ChannelWriter :=
  { w with sends := List.replicate attempts .sent }

/-- A call: a write makes no more attempts than it has bytes. -/
def WriterCall.run : WriterCall → ChannelWriter → Except IoError Unit × ChannelWriter
  | .write data, w => (w.unhindered data.length).write data
  | .flush, w => (w.unhindered 1).push

/-! ## The upload -/

/-- Where the fetch is: `finish` flushes the writer, and then drops it. -/
inductive FetchPhase
  | calling
  | finishing
  | dropped
deriving DecidableEq, Repr

/-- The state of an upload. `made` are the calls that have been made, `outgoing` the chunks that the call under way has
still to send, and `yielded` those that the body has given; the first and the last are ghosts. -/
structure Upload where
  phase : FetchPhase
  calls : List WriterCall
  made : List WriterCall
  writer : ChannelWriter
  outgoing : List Bytes
  channel : Channel Bytes
  body : Option UploadBody
  yielded : List Bytes

namespace Upload

/-- An upload of what some calls write. -/
def new (calls : List WriterCall) : Upload where
  phase := .calling
  calls := calls
  made := []
  writer := .new []
  outgoing := []
  channel := .new Bytes uploadChannelCapacity
  body := none
  yielded := []

/-- A call, up to the chunks that it sends. -/
def make (u : Upload) (c : WriterCall) : Option Upload :=
  match c.run u.writer with
  | (.ok (), writer) => some { u with writer, outgoing := writer.sent.drop u.writer.sent.length }
  | (.error _, _) => none

/-- The next call, once the one before has returned. -/
def call (u : Upload) : Option Upload :=
  match u.phase, u.outgoing, u.calls with
  | .calling, [], c :: calls => (u.make c).map fun u => { u with calls, made := u.made ++ [c] }
  | _, _, _ => none

/-- `finish`: what is left in the buffer is flushed. -/
def finish (u : Upload) : Option Upload :=
  match u.phase, u.outgoing, u.calls with
  | .calling, [], [] => (u.make .flush).map fun u => { u with phase := .finishing }
  | _, _, _ => none

/-- The writer is dropped, and with it the sender of the channel. -/
def drop (u : Upload) : Option Upload :=
  match u.phase, u.outgoing with
  | .finishing, [] => some { u with phase := .dropped }
  | _, _ => none

/-- An attempt to send that succeeds. -/
def send (u : Upload) : Option Upload :=
  match u.outgoing with
  | chunk :: outgoing =>
      match u.channel.trySend chunk with
      | (.ok (), channel) => some { u with channel, outgoing }
      | (.error _, _) => none
  | [] => none

/-- The worker receives the first chunk, and makes the body. -/
def first (u : Upload) : Option Upload :=
  match u.body, u.channel.queue with
  | none, chunk :: queue => some { u with channel := { u.channel with queue }, body := some (.new chunk) }
  | _, _ => none

/-- The body gives a chunk. -/
def give (u : Upload) (body : UploadBody) (chunk : Bytes) : Upload :=
  { u with body := some (body.record chunk), yielded := u.yielded ++ [chunk] }

/-- A poll of the body that is not pending: `UploadBodyStream::poll_next`. -/
def poll (u : Upload) : Option Upload :=
  match u.body with
  | none => none
  | some body =>
      if body.stopped then some u
      else
        match body.first with
        | some chunk => some (u.give { body with first := none } chunk)
        | none =>
            match u.channel.queue with
            | chunk :: queue => some ({ u with channel := { u.channel with queue } }.give body chunk)
            | [] => if u.phase = .dropped then some { u with body := some (body.stop .eof) } else none

end Upload

/-- What can happen to an upload. -/
inductive TransferOp
  | call
  | finish
  | drop
  | send
  | first
  | poll
deriving DecidableEq, Repr

def Upload.step (u : Upload) : TransferOp → Option Upload
  | .call => u.call
  | .finish => u.finish
  | .drop => u.drop
  | .send => u.send
  | .first => u.first
  | .poll => u.poll

/-! ## What is asked of it -/

namespace Upload

/-- The chunk that the body has to give first. -/
def held (u : Upload) : List Bytes := (u.body.bind (·.first)).toList

/-- The chunks that have been forwarded. -/
def forwarded (u : Upload) : List Bytes := u.yielded ++ u.held ++ u.channel.queue

/-- The end of the stream has been reported. -/
def Eof (u : Upload) : Prop := ∃ body, u.body = some body ∧ body.stopped = true

/-- Nothing is left to be done. Without a chunk there is no body. -/
def Complete (u : Upload) : Prop := u.phase = .dropped ∧ u.forwarded = u.yielded ∧ (u.body = none ∨ u.Eof)

/-- The calls that are made in an upload give the chunks of its body. -/
structure Lawful (calls : List WriterCall) (u : Upload) : Prop where
  /-- The chunks come in order, and none is lost or given twice. -/
  order : u.forwarded.flatten ++ u.outgoing.flatten ++ u.writer.buffer ++ WriterCall.written u.calls =
    WriterCall.written calls
  eof : u.Eof → u.yielded.flatten = WriterCall.written calls
  complete : u.Complete → u.yielded.flatten = WriterCall.written calls
  chunks : ∀ chunk ∈ u.yielded, chunk ≠ [] ∧ chunk.length ≤ chunkSize
  /-- What a chunk holds of the first write has been forwarded when the call returns. -/
  first : u.outgoing = [] → ∀ data, WriterCall.firstWrite u.made = some data →
    u.forwarded.head? = some (data.take chunkSize)
  /-- Between calls, less than a chunk is held back. -/
  room : u.writer.buffer.length < chunkSize
  /-- A call returns, whatever it writes. -/
  returns : ∀ c : WriterCall, (c.run u.writer).1 = .ok ()
  progress : ∀ body, u.body = some body →
    if body.stopped then body.progress = .eof
    else if u.yielded = [] then body.progress = .pending
    else body.progress = .bytes (min (totalLength u.yielded) u64Max)
  /-- The upload can go on to its end. -/
  ends : ∃ ops u', exec step u ops = some u' ∧ u'.Complete

end Upload

end EveBox.Agent
