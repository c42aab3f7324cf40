import EveBox.Server.Classify

/-!
# The response of a remote capture job

Reference: `stream_agent` from the wait for the first byte on, its supervisor task, and `body_stream`,
of `src/server/api/pcap.rs`.

The request owns the receivers of a job. It first waits for a chunk or for a terminal answer; with a chunk
it starts a supervisor, which forwards chunks as frames and decides how the body ends, and a body stream,
which the browser polls. The timers and the browser may act at any time. Headers, audit records, the
permits and the truncation mark of a native download are left out.
-/

namespace EveBox.Server

open Rust Agent

/-- `ProducerEnd`. -/
inductive ProducerEnd
  | complete (truncated : Bool)
  | noCandidateFiles
  | noMatch
  | format (message : String)
  | io
deriving DecidableEq, Repr

/-- `Frame`. -/
inductive Frame
  | data (chunk : Bytes)
  | done (ended : ProducerEnd)
deriving DecidableEq, Repr

/-- `RemoteFirst`, as far as it is answered without a body. -/
inductive RemoteFirst
  | terminal (outcome : RemoteOutcome) (stats : Option WireStats)
  | uploadFailed (reason : String)
  | timeout
deriving DecidableEq, Repr

/-- The local variables of the wait for the first byte. -/
structure Prestream where
  terminal : Option PcapResult
  bodyOpen : Bool
  resultOpen : Bool
deriving DecidableEq, Repr

/-- The local variables of the supervisor. -/
structure Supervisor where
  bytes : ℕ
  /-- Its snapshot of the upload watch. -/
  upload : UploadState
  result : Option PcapResult
  bodyOpen : Bool
  resultOpen : Bool
deriving DecidableEq, Repr

/-- The class and the text of a failure, for the log. -/
abbrev Failure := String × String

/-- Where the request is. -/
inductive StreamPhase
  /-- At the top of the first loop. -/
  | prestream (p : Prestream)
  /-- In the `select!` of the first loop. -/
  | awaiting (p : Prestream)
  /-- The first chunk has come. -/
  | first (chunk : Bytes) (p : Prestream)
  /-- The response has no body. -/
  | answered (first : RemoteFirst)
  /-- The request was dropped before its response. -/
  | abandoned
  /-- At the top of the supervisor's loop. -/
  | turn (sup : Supervisor)
  /-- In the supervisor's `select!`. -/
  | selecting (sup : Supervisor)
  /-- Waiting for room for a data frame. -/
  | sending (sup : Supervisor) (chunk : Bytes) (total : ℕ)
  /-- Waiting for room for the terminal frame. -/
  | ending (ended : ProducerEnd) (failure : Failure)
  /-- The supervisor is gone, and its end of the frame channel with it. -/
  | finished
deriving DecidableEq, Repr

/-- What a poll of the body stream gives: a chunk, an error, or the end of the stream. -/
inductive BodyItem
  | data (chunk : Bytes)
  | error (message : String)
  | eof
deriving DecidableEq, Repr

/-- What a terminal frame gives the browser. -/
def ProducerEnd.item : ProducerEnd → BodyItem
  | .format _ | .io => .error "pcap extraction failed"
  | _ => .eof

/-- A request, its job and its response body. `received`, `verdict` and `polled` are ghosts: the chunks
taken off the body channel, the last outcome of `classify_result` other than `Wait`, and what the browser
has been given. -/
structure StreamState where
  job : Job
  phase : StreamPhase
  /-- `BodyState::queued`. -/
  queued : List Bytes
  /-- `BodyState::finished`. -/
  finished : Bool
  frames : Channel Frame
  /-- The disconnect guard is disarmed. -/
  disarmed : Bool
  /-- The request's cancellation token. -/
  cancelled : Bool
  /-- The browser has dropped the body. -/
  dropped : Bool
  received : List Bytes
  verdict : Option RemoteOutcome
  polled : List BodyItem
deriving DecidableEq, Repr

/-- The request for `job`, once it has been dispatched. -/
def StreamState.new (job : Job) : StreamState :=
  { job
    phase := .prestream ⟨none, true, true⟩
    queued := []
    finished := false
    frames := .new Frame 2
    disarmed := false
    cancelled := false
    dropped := false
    received := []
    verdict := none
    polled := [] }

/-- Some sender of the body channel is left: in the task, with `begin_upload`, or in a sink. -/
def Job.bodySenders (j : Job) : Bool := j.bodyTx || j.locked || j.sinks.any (·.tx)

/-- The job after its receivers are dropped. -/
def Job.hangUp (j : Job) : Job := { j with body := { j.body with closed := true } }

/-- What the request substitutes for the result when the one-shot closes without one. -/
def resultChannelClosed : PcapResult := ⟨.error, .failed, some "agent result channel closed", none⟩

namespace StreamState

/-- The response without a body. -/
def answer (s : StreamState) (first : RemoteFirst) : StreamState :=
  { s with job := s.job.hangUp, phase := .answered first }

/-- A turn of the first loop, up to its `select!`. -/
def prestreamTurn (s : StreamState) (p : Prestream) : StreamState :=
  match s.job.upload with
  | .failed reason _ => s.answer (.uploadFailed reason)
  | upload =>
      match p.terminal with
      | none => { s with phase := .awaiting p }
      | some result =>
          match classifyResult result upload p.bodyOpen 0 with
          | .wait => { s with phase := .awaiting p }
          | outcome => { s with verdict := some outcome }.answer (.terminal outcome result.stats)

/-- Start the supervisor and the body. -/
def spawn (s : StreamState) (chunk : Bytes) (p : Prestream) : StreamState :=
  { s with
    phase := .turn ⟨chunk.length, s.job.upload, p.terminal, p.bodyOpen, p.resultOpen⟩
    queued := [chunk] }

/-- How the supervisor ends on an outcome; it does not on `Wait`. -/
def supervisorEnd : RemoteOutcome → Option (ProducerEnd × Failure)
  | .wait => none
  | .complete stats =>
      some (.complete stats.truncated, "agent-error", "remote pcap stream ended unexpectedly")
  | .noCandidateFiles | .noMatch =>
      some (.io, "agent-protocol", "empty result arrived after an upload had started")
  | .cancelled message =>
      some (.io, "agent-cancelled", message.getD "pcap agent cancelled the request")
  | .error message => some (.io, "agent-error", message)
  | .protocol detail => some (.io, "agent-protocol", detail)

/-- A turn of the supervisor's loop, up to its `select!`. -/
def supervisorTurn (s : StreamState) (sup : Supervisor) : StreamState :=
  match sup.upload with
  | .failed reason _ => { s with phase := .ending .io ("agent-upload-error", reason) }
  | upload =>
      match sup.result with
      | none => { s with phase := .selecting sup }
      | some result =>
          let outcome := classifyResult result upload sup.bodyOpen sup.bytes
          match supervisorEnd outcome with
          | none => { s with phase := .selecting sup }
          | some (ended, failure) =>
              { s with phase := .ending ended failure, verdict := some outcome }

/-- Take the next chunk off the body channel. -/
def receive (s : StreamState) (chunk : Bytes) : StreamState :=
  { s with
    job := { s.job with body := { s.job.body with queue := s.job.body.queue.tail } }
    received := s.received ++ [chunk] }

/-- `body_rx.recv()`: a chunk, or the end once the channel is empty and has no sender. -/
def chunk (s : StreamState) : Option StreamState :=
  match s.phase, s.job.body.queue with
  | .awaiting p, chunk :: _ =>
      if p.bodyOpen then some { s.receive chunk with phase := .first chunk p } else none
  | .awaiting p, [] =>
      if p.bodyOpen && !s.job.bodySenders then
        some { s with phase := .prestream { p with bodyOpen := false } }
      else none
  | .selecting sup, chunk :: _ =>
      if !sup.bodyOpen then none
      else
        match checkedAdd sup.bytes chunk.length with
        | none =>
            some { s.receive chunk with
              phase := .ending .io ("agent-protocol", "pcap upload byte count overflowed") }
        | some total =>
            if s.job.maxBytes < total then
              some { s.receive chunk with
                phase := .ending .io
                  ("agent-protocol", "pcap upload exceeded its dispatched byte limit") }
            else some { s.receive chunk with phase := .sending sup chunk total }
  | .selecting sup, [] =>
      if sup.bodyOpen && !s.job.bodySenders then
        some { s with phase := .turn { sup with bodyOpen := false } }
      else none
  | _, _ => none

/-- `upload_rx.changed()`. -/
def uploadChanged (s : StreamState) : Option StreamState :=
  match s.phase with
  | .awaiting p => some { s with phase := .prestream p }
  | .selecting sup => some { s with phase := .turn { sup with upload := s.job.upload } }
  | _ => none

/-- `upload_rx.changed()` finds every sender of the watch gone. -/
def uploadClosed (s : StreamState) : Option StreamState :=
  match s.phase with
  | .awaiting _ => some (s.answer (.uploadFailed "upload-state-closed"))
  | .selecting sup =>
      let sup := { sup with upload := .failed "upload-state-closed" sup.bytes }
      some { s with phase := .turn sup }
  | _ => none

/-- `result_rx`. -/
def result (s : StreamState) : Option StreamState :=
  match s.phase, s.job.result with
  | .awaiting p, some result =>
      if p.resultOpen then
        let p := { p with terminal := some result, resultOpen := false }
        some { s with phase := .prestream p }
      else none
  | .selecting sup, some result =>
      if sup.resultOpen then
        let sup := { sup with result := some result, resultOpen := false }
        some { s with phase := .turn sup }
      else none
  | _, _ => none

/-- `result_rx` finds its sender gone without a result. -/
def resultClosed (s : StreamState) : Option StreamState :=
  match s.phase, s.job.result with
  | .awaiting p, none =>
      if p.resultOpen then
        let p := { p with terminal := some resultChannelClosed, resultOpen := false }
        some { s with phase := .prestream p }
      else none
  | .selecting sup, none =>
      if sup.resultOpen then
        some { s with phase := .ending .io ("agent-error", "agent result channel closed") }
      else none
  | _, _ => none

/-- `supervisor_cancel.cancelled()`. -/
def supervisorCancelled (s : StreamState) : Option StreamState :=
  match s.phase with
  | .selecting _ =>
      if s.cancelled then
        some { s with phase := .ending .io ("client-closed", "browser cancelled the pcap response") }
      else none
  | _ => none

/-- The request timeout, or the supervisor's stall timeout. -/
def timeout (s : StreamState) : Option StreamState :=
  match s.phase with
  | .awaiting _ => some (s.answer .timeout)
  | .selecting sup =>
      let failure : Failure :=
        if !sup.bodyOpen && sup.result.isNone && (sup.upload matches .complete _) then
          ("agent-result-timeout", "pcap agent omitted its terminal result after upload EOF")
        else ("agent-stalled", "pcap agent made no upload or result progress")
      some { s with phase := .ending .io failure }
  | .sending _ _ _ =>
      some { s with phase := .ending .io ("client-stalled", "browser did not drain pcap output") }
  | .ending _ _ => some { s with job := s.job.hangUp, phase := .finished }
  | _ => none

/-- `frame_tx.send` resolves. -/
def sent (s : StreamState) : Option StreamState :=
  match s.phase with
  | .sending sup chunk total =>
      match s.frames.trySend (.data chunk) with
      | (.ok (), frames) => some { s with frames, phase := .turn { sup with bytes := total } }
      | (.error .closed, _) =>
          some { s with phase := .ending .io ("client-closed", "browser response body closed") }
      | (.error .full, _) => none
  | .ending ended _ =>
      match s.frames.trySend (.done ended) with
      | (.ok (), frames) => some { s with frames, job := s.job.hangUp, phase := .finished }
      | (.error .closed, _) => some { s with job := s.job.hangUp, phase := .finished }
      | (.error .full, _) => none
  | _ => none

/-- The response has a body. -/
def started (s : StreamState) : Bool :=
  match s.phase with
  | .turn _ | .selecting _ | .sending _ _ _ | .ending _ _ | .finished => true
  | _ => false

/-- The supervisor runs. -/
def supervised (s : StreamState) : Bool := s.started && s.phase ≠ .finished

/-- A panic of the supervisor. -/
def panicked (s : StreamState) : Option StreamState :=
  if s.supervised then some { s with job := s.job.hangUp, phase := .finished } else none

/-- A poll of the body stream. -/
def poll (s : StreamState) : Option StreamState :=
  if !s.started || s.dropped then none
  else
    match s.queued with
    | chunk :: queued => some { s with queued, polled := s.polled ++ [.data chunk] }
    | [] =>
        if s.finished then some { s with polled := s.polled ++ [.eof] }
        else
          match s.frames.queue with
          | .data chunk :: queue =>
              some { s with
                frames := { s.frames with queue }
                polled := s.polled ++ [.data chunk] }
          | .done ended :: queue =>
              some { s with
                frames := { s.frames with queue }
                disarmed := true
                finished := true
                polled := s.polled ++ [ended.item] }
          | [] =>
              if s.phase = .finished then
                some { s with
                  disarmed := true
                  finished := true
                  polled := s.polled ++ [.error "pcap extraction ended unexpectedly"] }
              else none

/-- The browser drops the request or the body; an armed guard cancels. -/
def drop (s : StreamState) : Option StreamState :=
  if s.started then
    if s.dropped then none
    else some { s with
      dropped := true
      frames := { s.frames with closed := true }
      cancelled := s.cancelled || !s.disarmed }
  else
    match s.phase with
    | .answered _ | .abandoned => none
    | _ => some { s with job := s.job.hangUp, phase := .abandoned, cancelled := true }

end StreamState

/-- What can happen to a request. -/
inductive StreamOp
  /-- The agent's calls, and the disconnect of its connection. -/
  | job (op : JobOp)
  | turn
  | spawn
  | chunk
  | uploadChanged
  | uploadClosed
  | result
  | resultClosed
  | cancelled
  | timeout
  | sent
  | panicked
  | poll
  | drop
deriving DecidableEq, Repr

/-- The steps of a job that are the request's own. -/
def JobOp.isRequest : JobOp → Bool
  | .receive | .close => true
  | _ => false

def StreamState.step (s : StreamState) : StreamOp → Option StreamState
  | .job op => if op.isRequest then none else (s.job.step op).map fun job => { s with job }
  | .turn =>
      match s.phase with
      | .prestream p => some (s.prestreamTurn p)
      | .turn sup => some (s.supervisorTurn sup)
      | _ => none
  | .spawn =>
      match s.phase with
      | .first chunk p => some (s.spawn chunk p)
      | _ => none
  | .chunk => s.chunk
  | .uploadChanged => s.uploadChanged
  | .uploadClosed => s.uploadClosed
  | .result => s.result
  | .resultClosed => s.resultClosed
  | .cancelled => s.supervisorCancelled
  | .timeout => s.timeout
  | .sent => s.sent
  | .panicked => s.panicked
  | .poll => s.poll
  | .drop => s.drop

end EveBox.Server
