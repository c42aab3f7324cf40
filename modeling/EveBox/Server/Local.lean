import EveBox.Lib.Transition
import EveBox.Server.LocalWriter
import EveBox.Server.Stream

/-!
# The response of a local capture

Reference: `stream_local`, `await_outcome`, `finish_producer`, `empty_response` and `body_stream`, of
`src/server/api/pcap.rs`.

The blocking producer goes through its `Script` and ends with a terminal frame; the request waits for the
first frame and then hands the channel to a body stream, which the client polls; a supervisor waits for the
producer and logs the outcome. The timers and the client may act at any time. Permits, the in-flight
gauge, the headers other than the truncation mark, and the mark of a buffered `POST` are left out.
-/

namespace EveBox.Server.Local

open Rust Pcap Agent Server

/-- `CancelCause`. -/
inductive CancelCause
  | none
  | timeout
  | client
deriving DecidableEq, Repr

/-- `CancelReason::set`: the first cause stays. -/
def CancelCause.set (old new : CancelCause) : CancelCause := if old = .none then new else old

/-- What the supervisor logs. -/
inductive LogOutcome
  | success (stats : FetchStats)
  | wedged
  | joinError (err : String)
  | timeout
  /-- The client has closed the response. -/
  | aborted
  | clientStalled
  | clientClosed
  | noCandidateFiles
  | noMatch (stats : FetchStats)
  | format (message : String)
  | io (err : IoError)
deriving DecidableEq, Repr

/-- A response other than a streamed body. -/
inductive Answer
  | error (status : ℕ) (code message : String)
  /-- The empty capture file of a native download. -/
  | emptyPcap
  | empty (truncated : Bool)
  | single (chunk : Bytes) (truncated : Bool)
deriving DecidableEq, Repr

/-- The blocking producer: the chunks it has still to send, or the terminal frame. -/
inductive Producer
  | running (rest : List Bytes)
  | finishing
  | ended (joined : FetchJoin)
deriving DecidableEq, Repr

/-- Where the request is. -/
inductive LocalPhase
  /-- Waiting for the first frame. -/
  | waiting
  /-- The first chunk has come, and the next frame has not been looked for yet. -/
  | first (chunk : Bytes)
  | streaming
  | answered (answer : Answer)
  /-- The request was dropped before its response. -/
  | abandoned
deriving DecidableEq, Repr

/-- A local capture. `doneQueued` says that the terminal frame has been queued; `received` are the chunks
taken off the channel, and `polled` is what the client has been given. All three are ghosts. -/
structure LocalState where
  script : Script
  native : Bool
  producer : Producer
  frames : Channel Frame
  doneQueued : Bool
  cancel : Bool
  reason : CancelCause
  phase : LocalPhase
  queued : List Bytes
  finished : Bool
  disarmed : Bool
  dropped : Bool
  /-- What the supervisor has logged. -/
  logged : Option LogOutcome
  received : List Bytes
  polled : List BodyItem

/-- A request that has just spawned its producer. -/
def LocalState.new (script : Script) (native : Bool) : LocalState :=
  { script, native
    producer := .running script.chunks
    frames := .new Frame 16
    doneQueued := false
    cancel := false
    reason := .none
    phase := .waiting
    queued := []
    finished := false
    disarmed := false
    dropped := false
    logged := none
    received := []
    polled := [] }

/-- `producer_end`. -/
def producerEnd : Except FetchError FetchStats → ProducerEnd
  | .ok stats => .complete stats.truncated
  | .error .noCandidateFiles => .noCandidateFiles
  | .error (.noMatch _) => .noMatch
  | .error (.format message) => .format message
  | .error (.io _) => .io

/-- The result of `run_extraction`, unless it panics. -/
def FetchJoin.result? : FetchJoin → Option (Except FetchError FetchStats)
  | .ok stats => some (.ok stats)
  | .error err => some (.error err)
  | .panicked _ => none

/-- `client_gone`. -/
def clientGone : Except FetchError FetchStats → Bool
  | .error (.io err) => err.kind = .timedOut || err.kind = .brokenPipe
  | _ => false

/-- The end of `finish_producer` where the terminal frame could not be queued: a success is none. -/
def downgrade (result : Except FetchError FetchStats) (outcome : SendOutcome) : FetchJoin :=
  match result with
  | .ok _ => .error (.io outcome.error)
  | .error err => .error err

/-- `empty_response`. -/
def emptyResponse (ended : ProducerEnd) (native : Bool) : Answer :=
  match ended with
  | .format message => .error 502 "format" message
  | .io => .error 502 "io" "pcap extraction failed"
  | ended =>
      if native then .emptyPcap
      else
        match ended with
        | .complete truncated => .empty truncated
        | .noCandidateFiles =>
            .error 404 "no-candidate-files" "no pcap files cover the requested time window"
        | _ => .error 404 "no-match" "no packets matched the event's flow"

/-- The response where the terminal frame is right behind the only chunk. -/
def singleResponse (chunk : Bytes) : ProducerEnd → Answer
  | .format message => .error 502 "format" message
  | .io => .error 502 "io" "pcap extraction failed"
  | .complete truncated => .single chunk truncated
  | _ => .single chunk false

/-- What the supervisor logs of a producer that has been joined. -/
def logOutcome (reason : CancelCause) (cancelled : Bool) : FetchJoin → LogOutcome
  | .panicked err => .joinError err
  | .ok stats =>
      match reason with
      | .timeout => .timeout
      | .client => .aborted
      | .none => if cancelled then .aborted else .success stats
  | .error err =>
      if reason = .timeout then .timeout
      else
        match err with
        | .io err =>
            if err.kind = .timedOut then .clientStalled
            else if err.kind = .brokenPipe then .clientClosed
            else .io err
        | .noCandidateFiles => .noCandidateFiles
        | .noMatch stats => .noMatch stats
        | .format message => .format message

namespace LocalState

/-- The response is made, and the request lets go of the channel. -/
def answer (s : LocalState) (answer : Answer) : LocalState :=
  { s with phase := .answered answer, frames := { s.frames with closed := true } }

/-- The cause, and then the cancellation. -/
def cancelFor (s : LocalState) (cause : CancelCause) : LocalState :=
  { s with reason := s.reason.set cause, cancel := true }

/-- The producer sends its next chunk. -/
def produce (s : LocalState) : Option LocalState :=
  match s.producer with
  | .running (chunk :: rest) =>
      match s.frames.trySend (.data chunk) with
      | (.ok (), frames) => some { s with producer := .running rest, frames }
      | (.error _, _) => none
  | _ => none

/-- The extraction ends. It cannot have stopped on a token that is not cancelled. -/
def extractionEnd (s : LocalState) : Option LocalState :=
  match s.producer with
  | .running [] =>
      if s.script.cancelled && !s.cancel then none
      else
        match FetchJoin.result? s.script.result with
        | none => some { s with producer := .ended s.script.result }
        | some result =>
            if clientGone result then some { s with producer := .ended s.script.result }
            else some { s with producer := .finishing }
  | _ => none

/-- The terminal frame is sent. -/
def sendDone (s : LocalState) : Option LocalState :=
  match s.producer, FetchJoin.result? s.script.result with
  | .finishing, some result =>
      match s.frames.trySend (.done (producerEnd result)) with
      | (.ok (), frames) =>
          some { s with producer := .ended s.script.result, frames, doneQueued := true }
      | (.error .closed, _) => some { s with producer := .ended (downgrade result .closed) }
      | (.error .full, _) =>
          if s.cancel then some { s with producer := .ended (downgrade result .cancelled) } else none
  | _, _ => none

/-- The stall timer of the terminal frame. -/
def doneStalled (s : LocalState) : Option LocalState :=
  match s.producer, FetchJoin.result? s.script.result with
  | .finishing, some result =>
      match s.frames.trySend (.done (producerEnd result)) with
      | (.error .full, _) => some { s with producer := .ended (downgrade result .stalled) }
      | _ => none
  | _, _ => none

/-- The producer is gone, and its end of the channel with it. -/
def producerGone (s : LocalState) : Bool :=
  match s.producer with
  | .ended _ => true
  | _ => false

/-- A chunk is taken off the channel. -/
def receive (s : LocalState) (chunk : Bytes) (queue : List Frame) : LocalState :=
  { s with frames := { s.frames with queue }, received := s.received ++ [chunk] }

/-- `rx.recv()` for the first frame. -/
def recv (s : LocalState) : Option LocalState :=
  match s.phase, s.frames.queue with
  | .waiting, .data chunk :: queue =>
      some { s.receive chunk queue with phase := .first chunk }
  | .waiting, .done ended :: queue =>
      some ({ s with frames := { s.frames with queue } }.answer (emptyResponse ended s.native))
  | .waiting, [] =>
      if s.producerGone then some (s.answer (.error 500 "internal" "pcap extraction failed"))
      else none
  | _, _ => none

/-- The deadline of the first frame. -/
def timeout (s : LocalState) : Option LocalState :=
  match s.phase with
  | .waiting =>
      some ((s.cancelFor .timeout).answer
        (.error 504 "timeout" "pcap extraction did not produce output in time"))
  | _ => none

/-- `rx.try_recv()` behind the first chunk. -/
def tryRecv (s : LocalState) : Option LocalState :=
  match s.phase, s.frames.queue with
  | .first chunk, .done ended :: queue =>
      some ({ s with frames := { s.frames with queue } }.answer (singleResponse chunk ended))
  | .first chunk, .data next :: queue =>
      some { s.receive next queue with phase := .streaming, queued := [chunk, next] }
  | .first chunk, [] => some { s with phase := .streaming, queued := [chunk] }
  | _, _ => none

/-- A poll of the body stream. -/
def poll (s : LocalState) : Option LocalState :=
  if s.phase ≠ .streaming || s.dropped then none
  else
    match s.queued with
    | chunk :: queued => some { s with queued, polled := s.polled ++ [.data chunk] }
    | [] =>
        if s.finished then some { s with polled := s.polled ++ [.eof] }
        else
          match s.frames.queue with
          | .data chunk :: queue =>
              some { s.receive chunk queue with polled := s.polled ++ [.data chunk] }
          | .done ended :: queue =>
              some { s with
                frames := { s.frames with queue }
                disarmed := true
                finished := true
                polled := s.polled ++ [ended.item] }
          | [] =>
              if s.producerGone then
                some { s with
                  disarmed := true
                  finished := true
                  polled := s.polled ++ [.error "pcap extraction ended unexpectedly"] }
              else none

/-- The client drops the request or the body; an armed guard cancels. -/
def drop (s : LocalState) : Option LocalState :=
  match s.phase with
  | .waiting =>
      some { s.cancelFor .client with
        phase := .abandoned
        frames := { s.frames with closed := true } }
  | .streaming =>
      if s.dropped then none
      else
        let s := { s with dropped := true, frames := { s.frames with closed := true } }
        some (if s.disarmed then s else s.cancelFor .client)
  | _ => none

/-- The supervisor joins the producer. -/
def join (s : LocalState) : Option LocalState :=
  match s.logged, s.producer with
  | none, .ended joined => some { s with logged := some (logOutcome s.reason s.cancel joined) }
  | _, _ => none

/-- The supervisor gives the producer up: its grace has passed, or the idle bound. -/
def wedge (s : LocalState) : Option LocalState :=
  match s.logged with
  | none => some { s with logged := some .wedged }
  | some _ => none

end LocalState

/-- What can happen to a local capture. -/
inductive LocalOp
  | produce
  | extractionEnd
  | sendDone
  | doneStalled
  | recv
  | timeout
  | tryRecv
  | poll
  | drop
  | join
  | wedge
deriving DecidableEq, Repr

def LocalState.step (s : LocalState) : LocalOp → Option LocalState
  | .produce => s.produce
  | .extractionEnd => s.extractionEnd
  | .sendDone => s.sendDone
  | .doneStalled => s.doneStalled
  | .recv => s.recv
  | .timeout => s.timeout
  | .tryRecv => s.tryRecv
  | .poll => s.poll
  | .drop => s.drop
  | .join => s.join
  | .wedge => s.wedge

end EveBox.Server.Local
