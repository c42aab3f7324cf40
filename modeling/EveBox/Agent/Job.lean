import EveBox.Agent.ChannelWriter
import EveBox.Agent.Protocol

/-!
# A capture job of the agent

Reference: `run_job`, `UploadBodyStream`, `terminal_from_fetch` and `terminal_after_worker`, of
`src/agent/channel.rs`.

Three tasks work on a job: the fetch, which goes through its `Script`; the HTTP request, which polls the
body; and the worker, which waits for both and makes the terminal result. A step is what one of them does
up to where it next waits. Timers may fire at any time, and the worker may fail at any time.
-/

namespace EveBox.Agent

open Rust Pcap

/-- `WireStats::from`. -/
def WireStats.ofFetch (stats : FetchStats) : WireStats where
  packets := stats.packets
  bytes := stats.bytes
  filesScanned := stats.filesScanned
  filesVanished := stats.filesVanished
  truncated := stats.truncated

/-! ## Terminal results -/

/-- `UploadJoinResult`; a status comes with its text. -/
inductive UploadJoin
  | response (status : ℕ) (text : String)
  | error (err : String)
  | failed (err : String)
deriving DecidableEq, Repr

/-- `upload_succeeded`. -/
def UploadJoin.succeeded : UploadJoin → Bool
  | .response status _ => 200 ≤ status && status < 300
  | _ => false

/-- `classify_upload`. -/
def classifyUpload (result : UploadJoin) : PcapUploadStatus × Option String :=
  if result.succeeded then (.complete, none)
  else
    match result with
    | .response _ text => (.failed, some s!"PCAP upload rejected with {text}")
    | .error err => (.failed, some s!"PCAP upload failed: {err}")
    | .failed err => (.failed, some s!"PCAP upload task failed: {err}")

/-- The statistics that `terminal_from_fetch` reports in any case. -/
def FetchJoin.stats : FetchJoin → Option WireStats
  | .ok stats | .error (.noMatch stats) => some (.ofFetch stats)
  | .error .noCandidateFiles => some {}
  | _ => none

/-- `terminal_from_fetch`. -/
def terminalFromFetch (result : FetchJoin) (cancelled : Bool) (upload : PcapUploadStatus)
    (uploadError : Option String) : PcapResult :=
  if cancelled then .cancelled upload result.stats
  else
    match uploadError with
    | some message => ⟨.error, upload, some message, result.stats⟩
    | none =>
        match result with
        | .ok stats => ⟨.complete, upload, none, some (.ofFetch stats)⟩
        | .error .noCandidateFiles => ⟨.noCandidateFiles, upload, none, some {}⟩
        | .error (.noMatch stats) => ⟨.noMatch, upload, none, some (.ofFetch stats)⟩
        | .error (.format message) => ⟨.error, upload, some message, none⟩
        | .error (.io err) => ⟨.error, upload, some err.message, none⟩
        | .panicked err => ⟨.error, upload, some s!"PCAP extraction task failed: {err}", none⟩

/-! ## The body of the upload -/

/-- `UploadBodyProgress`. -/
inductive UploadBodyProgress
  | pending
  | bytes (n : ℕ)
  | eof
  | cancelled
deriving DecidableEq, Repr

/-- `UploadBodyStream`, without its channel and its token. `changed` says that the worker has not seen the
progress yet. -/
structure UploadBody where
  first : Option Bytes
  bytes : ℕ
  stopped : Bool
  progress : UploadBodyProgress
  changed : Bool
deriving DecidableEq, Repr

namespace UploadBody

/-- `UploadBodyStream::new`. -/
def new (first : Bytes) : UploadBody := ⟨some first, 0, false, .pending, false⟩

/-- `progress.send_replace`. -/
def report (b : UploadBody) (progress : UploadBodyProgress) : UploadBody :=
  { b with progress, changed := true }

/-- `UploadBodyStream::record`. -/
def record (b : UploadBody) (chunk : Bytes) : UploadBody :=
  let bytes := saturatingAdd b.bytes chunk.length
  { b with bytes }.report (.bytes bytes)

/-- The body ends. -/
def stop (b : UploadBody) (progress : UploadBodyProgress) : UploadBody :=
  { b with stopped := true }.report progress

end UploadBody

/-- What a poll of the body gives. -/
inductive BodyPoll
  | chunk (chunk : Bytes)
  | error
  | eof
deriving DecidableEq, Repr

/-! ## The job -/

/-- The blocking task: the chunks it has still to hand over. -/
inductive Producer
  | idle
  | running (rest : List Bytes)
  | ended
deriving DecidableEq, Repr

/-- The task is there, and so is its end of the channel. -/
def Producer.alive : Producer → Bool
  | .running _ => true
  | _ => false

/-- The task of the HTTP request. -/
inductive UploadTask
  | absent
  | running
  | ended (join : UploadJoin)
  | aborted
deriving DecidableEq, Repr

/-- The local variables of the worker's loop. -/
structure UploadLoop where
  fetched : Option FetchJoin
  uploaded : Option UploadJoin
  bodyEof : Bool
  progressOpen : Bool
deriving DecidableEq, Repr

/-- Where the worker is. -/
inductive JobPhase
  /-- Before the fetch. -/
  | starting
  /-- In the `select!` for the first chunk. -/
  | waitingFirst
  /-- In the loop. -/
  | uploading (u : UploadLoop)
  /-- Waiting for the fetch, with what there is to say of the upload. -/
  | stopping (upload : PcapUploadStatus) (uploadError : Option String) (fetched : Option FetchJoin)
  /-- Failed; its supervisor waits for the fetch. -/
  | failed (err : String)
  | done (result : PcapResult)
deriving DecidableEq, Repr

/-- A job. `yielded` are the chunks the body has yielded, and `workerFailed` says that the worker has
failed; both are ghosts. -/
structure AgentJob where
  script : Script
  startUs : ℕ
  endUs : ℕ
  phase : JobPhase
  producer : Producer
  chunks : Channel Bytes
  body : Option UploadBody
  upload : UploadTask
  cancel : Bool
  /-- The child token of the fetch and of the body. -/
  fetchControl : Bool
  yielded : List Bytes
  workerFailed : Bool

/-- A job that has been accepted. -/
def AgentJob.new (script : Script) (startUs endUs : ℕ) : AgentJob :=
  { script, startUs, endUs
    phase := .starting
    producer := .idle
    chunks := .new Bytes uploadChannelCapacity
    body := none
    upload := .absent
    cancel := false
    fetchControl := false
    yielded := []
    workerFailed := false }

namespace AgentJob

/-- The worker has its result. -/
def finish (j : AgentJob) (result : PcapResult) : AgentJob := { j with phase := .done result }

/-- The receiver of the channel is dropped. -/
def dropReceiver (j : AgentJob) : AgentJob := { j with chunks := { j.chunks with closed := true } }

/-- `upload.abort()`. -/
def abortUpload (j : AgentJob) : AgentJob :=
  if j.upload = .running then { j with upload := .aborted }.dropReceiver else j

/-- `fetch_control.cancel()`, and the wait for the fetch. -/
def stopFetch (j : AgentJob) (upload : PcapUploadStatus) (uploadError : Option String)
    (fetched : Option FetchJoin) : AgentJob :=
  { j with fetchControl := true, phase := .stopping upload uploadError fetched }

/-- `run_job` up to the first wait for a chunk; `permit` says that there is one. -/
def start (j : AgentJob) (permit : Bool) : Option AgentJob :=
  match j.phase with
  | .starting =>
      if j.endUs < j.startUs then some (j.finish (.error "PCAP request start is after end"))
      else if j.cancel then some (j.finish (.cancelled .none none))
      else if !permit then some (j.finish (.error "PCAP extraction worker stopped"))
      else some { j with phase := .waitingFirst, producer := .running j.script.chunks }
  | _ => none

/-- The fetch hands over its next chunk. -/
def produce (j : AgentJob) : Option AgentJob :=
  match j.producer with
  | .running (chunk :: rest) =>
      match j.chunks.trySend chunk with
      | (.ok (), chunks) => some { j with producer := .running rest, chunks }
      | (.error _, _) => none
  | _ => none

/-- The fetch ends. It cannot have seen a token cancelled that is not. -/
def fetchEnd (j : AgentJob) : Option AgentJob :=
  match j.producer with
  | .running [] =>
      if j.script.cancelled && !j.fetchControl then none else some { j with producer := .ended }
  | _ => none

/-- The token of the job is cancelled, and the child token with it. -/
def cancelled (j : AgentJob) : AgentJob := { j with cancel := true, fetchControl := true }

/-- `cancel.cancelled()` in a `select!`. -/
def cancelSeen (j : AgentJob) : Option AgentJob :=
  if !j.cancel then none
  else
    match j.phase with
    | .waitingFirst => some (j.dropReceiver.stopFetch .none none none)
    | .uploading u =>
        if u.fetched.isSome && u.uploaded.isSome then none
        else some (j.abortUpload.stopFetch .failed none u.fetched)
    | _ => none

/-- `rx.recv()` for the first chunk. -/
def first (j : AgentJob) : Option AgentJob :=
  match j.phase, j.chunks.queue with
  | .waitingFirst, chunk :: queue =>
      some { j with
        phase := .uploading ⟨none, none, false, true⟩
        chunks := { j.chunks with queue }
        body := some (.new chunk)
        upload := .running }
  | .waitingFirst, [] =>
      if j.producer.alive then none
      else some { j.dropReceiver with phase := .stopping .none none none }
  | _, _ => none

/-- The loop sees the end of the fetch. -/
def fetched (j : AgentJob) : Option AgentJob :=
  match j.phase, j.producer with
  | .uploading ⟨none, uploaded, bodyEof, progressOpen⟩, .ended =>
      some { j with phase := .uploading ⟨some j.script.result, uploaded, bodyEof, progressOpen⟩ }
  | _, _ => none

/-- The loop sees the end of the upload. -/
def uploaded (j : AgentJob) : Option AgentJob :=
  match j.phase, j.upload with
  | .uploading ⟨fetched, none, bodyEof, progressOpen⟩, .ended join =>
      if join.succeeded then
        some { j with phase := .uploading ⟨fetched, some join, bodyEof, progressOpen⟩ }
      else
        some (j.stopFetch .failed (some ((classifyUpload join).2.getD "PCAP upload failed")) fetched)
  | _, _ => none

/-- `body_progress.changed()`. -/
def progress (j : AgentJob) : Option AgentJob :=
  match j.phase, j.body with
  | .uploading ⟨fetched, none, bodyEof, true⟩, some body =>
      if body.changed then
        let bodyEof := bodyEof || body.progress = .eof
        some { j with
          phase := .uploading ⟨fetched, none, bodyEof, true⟩
          body := some { body with changed := false } }
      else if j.upload = .running then none
      else some { j with phase := .uploading ⟨fetched, none, bodyEof, false⟩ }
  | _, _ => none

/-- The upload deadline. -/
def stalled (j : AgentJob) : Option AgentJob :=
  match j.phase with
  | .uploading ⟨fetched, none, bodyEof, _⟩ =>
      let message :=
        if bodyEof then "PCAP upload response timed out after body EOF (60s)"
        else "PCAP upload made no progress for 60s"
      some (j.abortUpload.stopFetch .failed (some message) fetched)
  | _ => none

/-- The join of the fetch, once there is one. -/
def fetchJoin (j : AgentJob) : Option FetchJoin → Option FetchJoin
  | some fetched => some fetched
  | none => if j.producer = .ended then some j.script.result else none

/-- The terminal result. -/
def settle (j : AgentJob) : Option AgentJob :=
  match j.phase with
  | .uploading ⟨some fetched, some uploaded, _, _⟩ =>
      let (upload, uploadError) := classifyUpload uploaded
      some (j.finish (terminalFromFetch fetched j.cancel upload uploadError))
  | .stopping upload uploadError fetched =>
      (j.fetchJoin fetched).map fun fetched =>
        j.finish (terminalFromFetch fetched j.cancel upload uploadError)
  | .failed err =>
      if j.producer.alive then none
      else some (j.finish (.error s!"PCAP worker failed: {err}"))
  | _ => none

/-- The worker runs. -/
def working (j : AgentJob) : Bool :=
  match j.phase with
  | .failed _ | .done _ => false
  | _ => true

/-- The worker fails. An upload goes on by itself. -/
def fail (j : AgentJob) (err : String) : Option AgentJob :=
  if !j.working then none
  else
    let j := { j with phase := .failed err, workerFailed := true }
    if j.body.isNone then some j.dropReceiver else some j

/-- The HTTP request ends. -/
def uploadEnd (j : AgentJob) (join : UploadJoin) : Option AgentJob :=
  if j.upload = .running then some { j with upload := .ended join }.dropReceiver else none

/-- The HTTP request polls the body: `UploadBodyStream::poll_next`. -/
def pollBody (j : AgentJob) : Option (BodyPoll × AgentJob) :=
  match j.upload, j.body with
  | .running, some body =>
      if body.stopped then some (.eof, j)
      else if j.fetchControl then some (.error, { j with body := some (body.stop .cancelled) })
      else
        match body.first with
        | some chunk =>
            let body := { body with first := none }.record chunk
            some (.chunk chunk, { j with body := some body, yielded := j.yielded ++ [chunk] })
        | none =>
            match j.chunks.queue with
            | chunk :: queue =>
                some (.chunk chunk, { j with
                  body := some (body.record chunk)
                  chunks := { j.chunks with queue }
                  yielded := j.yielded ++ [chunk] })
            | [] =>
                if j.producer.alive then none
                else some (.eof, { j with body := some (body.stop .eof) })
  | _, _ => none

end AgentJob

/-- What can happen to a job, apart from its HTTP request. -/
inductive AgentOp
  | start (permit : Bool)
  | produce
  | fetchEnd
  | cancel
  | cancelSeen
  | first
  | fetched
  | uploaded
  | progress
  | stalled
  | settle
  | fail (err : String)
deriving DecidableEq, Repr

def AgentJob.step (j : AgentJob) : AgentOp → Option AgentJob
  | .start permit => j.start permit
  | .produce => j.produce
  | .fetchEnd => j.fetchEnd
  | .cancel => some j.cancelled
  | .cancelSeen => j.cancelSeen
  | .first => j.first
  | .fetched => j.fetched
  | .uploaded => j.uploaded
  | .progress => j.progress
  | .stalled => j.stalled
  | .settle => j.settle
  | .fail err => j.fail err

end EveBox.Agent
