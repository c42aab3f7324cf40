import EveBox.Server.Stream
import EveBox.Server.TasksTheorems

/-!
# A clean end is a complete capture

`StreamInv` follows every chunk from the body channel over the frames to the browser, and what the body
stream has still to say. The terminal frame is clean only on the verdict `Complete`, by which time every
chunk has been received: `body_law`.
-/

namespace EveBox.Server

open Rust Agent Transition

/-! ## What the agent's steps leave of a job -/

/-- What a request can rely on while the agent goes on with a job. -/
structure Job.Kept (j j' : Job) : Prop where
  maxBytes : j'.maxBytes = j.maxBytes
  /-- Chunks are appended to the body channel as they are forwarded. -/
  conserved : ∀ received, j.forwarded = received ++ j.body.queue →
    j'.forwarded = received ++ j'.body.queue
  /-- Without a sender no chunk comes any more. -/
  closed : j.bodySenders = false →
    j'.bodySenders = false ∧ j'.forwarded = j.forwarded ∧ j'.body.queue = j.body.queue
  complete : ∀ n, j.upload = .complete n → j'.upload = .complete n
  result : ∀ r, j.result = some r → j'.result = some r

theorem Job.Kept.of_eq {j j' : Job} (hmax : j'.maxBytes = j.maxBytes)
    (hforwarded : j'.forwarded = j.forwarded) (hqueue : j'.body.queue = j.body.queue)
    (hbodyTx : j'.bodyTx = j.bodyTx) (hlocked : j'.locked = j.locked) (hsinks : j'.sinks = j.sinks)
    (hupload : j'.upload = j.upload) (hresult : j'.result = j.result) : j.Kept j' where
  maxBytes := hmax
  conserved received h := by rw [hforwarded, hqueue, h]
  closed h := ⟨by rw [bodySenders, hbodyTx, hlocked, hsinks]; exact h, hforwarded, hqueue⟩
  complete n h := hupload.trans h
  result r h := hresult.trans h

theorem Job.bodySenders_eq_false {j : Job} :
    j.bodySenders = false ↔ j.bodyTx = false ∧ j.locked = false ∧ ∀ sink ∈ j.sinks, sink.tx = false := by
  simp [bodySenders, and_assoc]

/-- A sink whose sender is still there. -/
theorem Job.bodySenders_of_sink {j : Job} {i : ℕ} {sink : UploadSink} (hsink : j.sinks[i]? = some sink)
    (htx : sink.tx = true) : j.bodySenders = true := by
  rw [← Bool.not_eq_false]
  intro hclosed
  have := (Job.bodySenders_eq_false.mp hclosed).2.2 sink (List.mem_of_getElem? hsink)
  rw [htx] at this
  cases this

/-- A published end of the upload is the last. -/
theorem UploadPhase.complete_last {j : Job} (phase : UploadPhase j) {n : ℕ}
    (h : j.upload = .complete n) :
    j.bodyTx = false ∧ j.locked = false ∧ ∀ sink ∈ j.sinks, sink.tx = false ∧ sink.ending = none := by
  cases phase with
  | idle h₁ h₂ h₃ => simp [h₃] at h
  | taken h₁ h₂ h₃ => simp [h₃] at h
  | streaming sink h₁ h₂ h₃ h₄ h₅ h₆ => simp [h₆] at h
  | closed sink how h₁ h₂ h₃ h₄ h₅ h₆ => simp [h₆] at h
  | ended sink how h₁ h₂ h₃ h₄ h₅ h₆ h₇ h₈ =>
      refine ⟨h₁, h₂, ?_⟩
      intro sink' hsink'
      rw [h₃, List.mem_singleton] at hsink'
      rw [hsink']
      exact ⟨h₇, h₈⟩

/-- Once a chunk has been forwarded, the upload watch no longer says `Pending`. -/
theorem UploadPhase.upload_ne_pending {j : Job} (phase : UploadPhase j) (h : j.forwarded ≠ []) :
    j.upload ≠ .pending := by
  cases phase with
  | idle h₁ h₂ h₃ h₄ h₅ => exact absurd h₅ h
  | taken h₁ h₂ h₃ h₄ h₅ => exact absurd h₅ h
  | streaming sink h₁ h₂ h₃ h₄ h₅ h₆ => simp [h₆]
  | closed sink how h₁ h₂ h₃ h₄ h₅ h₆ => simp [h₆]
  | ended sink how h₁ h₂ h₃ h₄ h₅ h₆ =>
      rw [h₆]
      cases how <;> simp [SinkEnd.state]

theorem Job.step_keeps {j j' : Job} (inv : JobInv j) {op : JobOp} (hop : op.isRequest = false)
    (h : j.step op = some j') : j.Kept j' := by
  have hsent : ∀ {r}, j.resultTx = true → j.result ≠ some r := by
    intro r htx hr
    obtain ⟨e, he, hsent⟩ := inv.results.result r hr
    have hzero := inv.results.sent
    rw [if_pos htx] at hzero
    have hnone := List.countP_eq_zero.mp hzero e he
    simp [hsent] at hnone
  cases op with
  | beginUpload token =>
      obtain rfl := Option.some.inj h
      rcases j.beginUpload_cases token with heq | ⟨-, heq⟩ <;> rw [heq] <;>
        exact .of_eq rfl rfl rfl rfl rfl rfl rfl rfl
  | takeSender i =>
      obtain ⟨-, _, -, rfl | ⟨-, hbodyTx, rfl⟩⟩ := Job.takeSender_some h
      · exact .of_eq rfl rfl rfl rfl rfl rfl rfl rfl
      · refine ⟨rfl, fun _ h => h, ?_, fun _ h => h, fun _ h => h⟩
        intro hclosed
        rw [(Job.bodySenders_eq_false.mp hclosed).1] at hbodyTx
        cases hbodyTx
  | publishStreaming =>
      obtain ⟨hlocked, rfl⟩ := Job.publishStreaming_some h
      refine ⟨rfl, fun _ h => h, ?_, ?_, fun _ h => h⟩
      · intro hclosed
        rw [(Job.bodySenders_eq_false.mp hclosed).2.1] at hlocked
        cases hlocked
      · intro n hn
        rw [(inv.phase.complete_last hn).2.1] at hlocked
        cases hlocked
  | sinkSend i chunk =>
      obtain ⟨⟨r, j''⟩, hsend, rfl⟩ := Option.map_eq_some_iff.mp h
      obtain ⟨-, -, rfl⟩ | ⟨-, sink, hsink, htx, -, -, rfl⟩ := Job.sinkSend_some hsend
      · exact .of_eq rfl rfl rfl rfl rfl rfl rfl rfl
      · refine ⟨rfl, ?_, ?_, fun _ h => h, fun _ h => h⟩
        · intro received hreceived
          show j.forwarded ++ [chunk] = received ++ (j.body.queue ++ [chunk])
          rw [hreceived, List.append_assoc]
        · intro hclosed
          rw [Job.bodySenders_of_sink hsink htx] at hclosed
          cases hclosed
  | sinkFinish i how =>
      obtain ⟨sink, hsink, htx, rfl⟩ := Job.sinkFinish_some h
      refine ⟨rfl, fun _ h => h, ?_, fun _ h => h, fun _ h => h⟩
      intro hclosed
      rw [Job.bodySenders_of_sink hsink htx] at hclosed
      cases hclosed
  | sinkPublish i =>
      obtain ⟨sink, state, hsink, hending, rfl⟩ := Job.sinkPublish_some h
      refine ⟨rfl, fun _ h => h, ?_, ?_, fun _ h => h⟩
      · intro hclosed
        obtain ⟨hbodyTx, hlocked, hsinks⟩ := Job.bodySenders_eq_false.mp hclosed
        refine ⟨Job.bodySenders_eq_false.mpr ⟨hbodyTx, hlocked, ?_⟩, rfl, rfl⟩
        intro sink' hsink'
        rcases List.mem_or_eq_of_mem_set hsink' with hsink' | rfl
        · exact hsinks sink' hsink'
        · exact hsinks sink (List.mem_of_getElem? hsink)
      · intro n hn
        rw [((inv.phase.complete_last hn).2.2 sink (List.mem_of_getElem? hsink)).2] at hending
        cases hending
  | deliverResult d =>
      obtain rfl := Option.some.inj h
      rcases j.deliverResult_cases d with heq | ⟨-, heq⟩ <;> rw [heq] <;>
        exact .of_eq rfl rfl rfl rfl rfl rfl rfl rfl
  | acceptResult i =>
      obtain ⟨-, d, -, rfl⟩ := Job.acceptResult_some h
      exact .of_eq rfl rfl rfl rfl rfl rfl rfl rfl
  | sendResult i =>
      obtain ⟨d, -, ⟨-, rfl⟩ | ⟨htx, rfl⟩⟩ := Job.sendResult_some h
      · exact .of_eq rfl rfl rfl rfl rfl rfl rfl rfl
      · exact ⟨rfl, fun _ h => h, fun h => ⟨h, rfl, rfl⟩, fun _ h => h, fun r hr => absurd hr (hsent htx)⟩
  | failPending connection =>
      obtain ⟨-, rfl⟩ | ⟨-, -, ⟨-, rfl⟩ | ⟨htx, rfl⟩⟩ := Job.failPending_some h
      · exact .of_eq rfl rfl rfl rfl rfl rfl rfl rfl
      · exact .of_eq rfl rfl rfl rfl rfl rfl rfl rfl
      · exact ⟨rfl, fun _ h => h, fun h => ⟨h, rfl, rfl⟩, fun _ h => h, fun r hr => absurd hr (hsent htx)⟩
  | receive => cases hop
  | close => cases hop

/-! ## The invariant of a request -/

/-- The chunk of a frame. -/
def Frame.chunk? : Frame → Option Bytes
  | .data chunk => some chunk
  | .done _ => none

/-- The chunk of an item. -/
def BodyItem.chunk? : BodyItem → Option Bytes
  | .data chunk => some chunk
  | _ => none

@[simp] theorem ProducerEnd.item_chunk? (ended : ProducerEnd) : ended.item.chunk? = none := by
  cases ended <;> rfl

namespace StreamState

/-- The chunks the browser has been given. -/
def delivered (s : StreamState) : List Bytes := s.polled.filterMap BodyItem.chunk?

/-- The chunks on their way to it. -/
def inFlight (s : StreamState) : List Bytes := s.queued ++ s.frames.queue.filterMap Frame.chunk?

/-- The body has ended, with no error before its end. -/
def EndedCleanly (s : StreamState) : Prop := .eof ∈ s.polled ∧ ∀ message, .error message ∉ s.polled

/-- The browser has been given an error. -/
def EndedInError (s : StreamState) : Prop := ∃ message, .error message ∈ s.polled

end StreamState

/-- The wait for the first byte: nothing has been taken off the body channel. -/
structure PrestreamInv (s : StreamState) (p : Prestream) : Prop where
  received : s.received = []
  verdict : s.verdict = none
  closed : p.bodyOpen = false → s.job.body.queue = [] ∧ s.job.bodySenders = false
  terminal : ∀ r, p.terminal = some r → s.job.result = some r ∨ r = resultChannelClosed

/-- The supervisor has passed on exactly `chunks`. -/
structure SupervisorInv (s : StreamState) (sup : Supervisor) (chunks : List Bytes) : Prop where
  received : s.received ≠ []
  passed : s.delivered ++ s.inFlight = chunks
  bytes : sup.bytes = totalLength chunks
  verdict : s.verdict = none
  upload : sup.upload ≠ .pending
  complete : ∀ n, sup.upload = .complete n → s.job.upload = .complete n
  closed : sup.bodyOpen = false → s.job.body.queue = [] ∧ s.job.bodySenders = false
  result : ∀ r, sup.result = some r → s.job.result = some r ∨ r = resultChannelClosed

/-- A terminal frame that is clean comes with the verdict, and with every chunk received. -/
def CleanEnd (s : StreamState) (ended : ProducerEnd) : Prop :=
  ∃ stats, ended = .complete stats.truncated ∧ s.verdict = some (.complete stats) ∧
    s.delivered ++ s.inFlight = s.received

/-- What holds where the request is. -/
def PhaseInv (s : StreamState) : Prop :=
  match s.phase with
  | .prestream p | .awaiting p => PrestreamInv s p
  | .first chunk p => s.received = [chunk] ∧ s.verdict = none ∧ p.bodyOpen = true ∧
      ∀ r, p.terminal = some r → s.job.result = some r ∨ r = resultChannelClosed
  | .turn sup | .selecting sup => SupervisorInv s sup s.received
  | .sending sup chunk total => ∃ chunks, s.received = chunks ++ [chunk] ∧
      total = sup.bytes + chunk.length ∧ sup.bodyOpen = true ∧ SupervisorInv s sup chunks
  | .ending ended _ => ended = .io ∨ CleanEnd s ended
  | .answered _ | .abandoned | .finished => True

/-- What the body stream has said and has still to say. -/
inductive BodyInv (s : StreamState) : Prop
  /-- There is no body. -/
  | unstarted (started : s.started = false) (finished : s.finished = false) (polled : s.polled = [])
      (queued : s.queued = []) (queue : s.frames.queue = [])
  /-- No terminal frame has been sent. -/
  | running (chunks frames : List Bytes) (started : s.started = true) (finished : s.finished = false)
      (polled : s.polled = chunks.map .data) (queue : s.frames.queue = frames.map .data)
  /-- The terminal frame is on its way. -/
  | ending (chunks frames : List Bytes) (ended : ProducerEnd) (phase : s.phase = .finished)
      (finished : s.finished = false) (polled : s.polled = chunks.map .data)
      (queue : s.frames.queue = frames.map .data ++ [.done ended])
      (clean : ended = .io ∨ CleanEnd s ended)
  | clean (chunks : List Bytes) (n : ℕ) (stats : WireStats) (phase : s.phase = .finished)
      (finished : s.finished = true) (queued : s.queued = [])
      (polled : s.polled = chunks.map .data ++ List.replicate (n + 1) .eof)
      (verdict : s.verdict = some (.complete stats)) (received : s.received = chunks)
  | dirty (chunks : List Bytes) (n : ℕ) (message : String) (phase : s.phase = .finished)
      (finished : s.finished = true) (queued : s.queued = [])
      (polled : s.polled = chunks.map .data ++ .error message :: List.replicate n .eof)

/-- What the verdict `Complete` means: the job is over, and every chunk has been received. -/
structure Settled (s : StreamState) (stats : WireStats) : Prop where
  upload : s.job.upload = .complete stats.bytes
  bytes : stats.bytes = totalLength s.received
  queue : s.job.body.queue = []
  closed : s.job.bodySenders = false
  result : ∃ r, s.job.result = some r ∧
    classifyResult r s.job.upload false (totalLength s.received) = .complete stats

/-- The invariant of a request. -/
structure StreamInv (s : StreamState) : Prop where
  job : JobInv s.job
  conserved : s.job.forwarded = s.received ++ s.job.body.queue
  phase : PhaseInv s
  body : BodyInv s
  verdict : s.started = true → ∀ stats, s.verdict = some (.complete stats) → Settled s stats

/-! ## Steps that leave the request where it is -/

section

variable {s s' : StreamState}

theorem PrestreamInv.congr {p : Prestream} (inv : PrestreamInv s p) (hjob : s.job.Kept s'.job)
    (hreceived : s'.received = s.received) (hverdict : s'.verdict = s.verdict) :
    PrestreamInv s' p where
  received := hreceived.trans inv.received
  verdict := hverdict.trans inv.verdict
  closed hopen := by
    obtain ⟨hqueue, hclosed⟩ := inv.closed hopen
    obtain ⟨hclosed', -, hqueue'⟩ := hjob.closed hclosed
    exact ⟨hqueue'.trans hqueue, hclosed'⟩
  terminal r hr := (inv.terminal r hr).imp_left (hjob.result r)

theorem SupervisorInv.congr {sup : Supervisor} {chunks : List Bytes}
    (inv : SupervisorInv s sup chunks) (hjob : s.job.Kept s'.job)
    (hreceived : s'.received = s.received) (hverdict : s'.verdict = s.verdict)
    (hpassed : s'.delivered ++ s'.inFlight = s.delivered ++ s.inFlight) :
    SupervisorInv s' sup chunks where
  received := hreceived ▸ inv.received
  passed := hpassed.trans inv.passed
  bytes := inv.bytes
  verdict := hverdict.trans inv.verdict
  upload := inv.upload
  complete n hn := hjob.complete n (inv.complete n hn)
  closed hopen := by
    obtain ⟨hqueue, hclosed⟩ := inv.closed hopen
    obtain ⟨hclosed', -, hqueue'⟩ := hjob.closed hclosed
    exact ⟨hqueue'.trans hqueue, hclosed'⟩
  result r hr := (inv.result r hr).imp_left (hjob.result r)

theorem CleanEnd.congr {ended : ProducerEnd} (h : CleanEnd s ended)
    (hreceived : s'.received = s.received) (hverdict : s'.verdict = s.verdict)
    (hpassed : s'.delivered ++ s'.inFlight = s.delivered ++ s.inFlight) : CleanEnd s' ended := by
  obtain ⟨stats, hended, hstats, hall⟩ := h
  exact ⟨stats, hended, hverdict.trans hstats, by rw [hpassed, hreceived, hall]⟩

theorem PhaseInv.congr (inv : PhaseInv s) (hjob : s.job.Kept s'.job) (hphase : s'.phase = s.phase)
    (hreceived : s'.received = s.received) (hverdict : s'.verdict = s.verdict)
    (hpassed : s'.delivered ++ s'.inFlight = s.delivered ++ s.inFlight) : PhaseInv s' := by
  unfold PhaseInv at inv ⊢
  rw [hphase]
  cases hcase : s.phase with
  | prestream p =>
      rw [hcase] at inv
      exact PrestreamInv.congr inv hjob hreceived hverdict
  | awaiting p =>
      rw [hcase] at inv
      exact PrestreamInv.congr inv hjob hreceived hverdict
  | first chunk p =>
      rw [hcase] at inv
      obtain ⟨hfirst, hnone, hopen, hterminal⟩ := inv
      exact ⟨hreceived.trans hfirst, hverdict.trans hnone, hopen,
        fun r hr => (hterminal r hr).imp_left (hjob.result r)⟩
  | answered first => trivial
  | abandoned => trivial
  | turn sup =>
      rw [hcase] at inv
      show SupervisorInv s' sup s'.received
      rw [hreceived]
      exact SupervisorInv.congr inv hjob hreceived hverdict hpassed
  | selecting sup =>
      rw [hcase] at inv
      show SupervisorInv s' sup s'.received
      rw [hreceived]
      exact SupervisorInv.congr inv hjob hreceived hverdict hpassed
  | sending sup chunk total =>
      rw [hcase] at inv
      obtain ⟨chunks, hchunks, htotal, hopen, inv⟩ := inv
      exact ⟨chunks, hreceived.trans hchunks, htotal, hopen, inv.congr hjob hreceived hverdict hpassed⟩
  | ending ended failure =>
      rw [hcase] at inv
      exact Or.imp_right (fun h => CleanEnd.congr h hreceived hverdict hpassed) inv
  | finished => trivial

theorem Settled.congr {stats : WireStats} (settled : Settled s stats) (hjob : s.job.Kept s'.job)
    (hreceived : s'.received = s.received) : Settled s' stats := by
  obtain ⟨hclosed', -, hqueue'⟩ := hjob.closed settled.closed
  have hupload : s'.job.upload = .complete stats.bytes := hjob.complete _ settled.upload
  refine ⟨hupload, by rw [hreceived]; exact settled.bytes, hqueue'.trans settled.queue, hclosed', ?_⟩
  obtain ⟨r, hr, hclassify⟩ := settled.result
  rw [settled.upload] at hclassify
  refine ⟨r, hjob.result r hr, ?_⟩
  rw [hupload, hreceived]
  exact hclassify

/-- A step of the agent. -/
theorem StreamInv.job_step (inv : StreamInv s) {op : JobOp} {job : Job}
    (hop : op.isRequest = false) (h : s.job.step op = some job) : StreamInv { s with job } := by
  have hjob : s.job.Kept job := Job.step_keeps inv.job hop h
  refine ⟨inv.job.step h, hjob.conserved _ inv.conserved,
    inv.phase.congr hjob rfl rfl rfl rfl, ?_, ?_⟩
  · cases inv.body with
    | unstarted h₁ h₂ h₃ h₄ h₅ => exact .unstarted h₁ h₂ h₃ h₄ h₅
    | running chunks frames h₁ h₂ h₃ h₄ => exact .running chunks frames h₁ h₂ h₃ h₄
    | ending chunks frames ended h₁ h₂ h₃ h₄ h₅ => exact .ending chunks frames ended h₁ h₂ h₃ h₄ h₅
    | clean chunks n stats h₁ h₂ h₃ h₄ h₅ h₆ => exact .clean chunks n stats h₁ h₂ h₃ h₄ h₅ h₆
    | dirty chunks n message h₁ h₂ h₃ h₄ => exact .dirty chunks n message h₁ h₂ h₃ h₄
  · intro hstarted stats hstats
    exact (inv.verdict hstarted stats hstats).congr hjob rfl

/-! ## Steps of the request -/

theorem StreamState.started_of_finished (h : s.phase = .finished) : s.started = true := by
  rw [StreamState.started, h]

/-- Before the response has a body, nothing has been sent. -/
theorem BodyInv.of_unstarted (inv : BodyInv s) (hstarted : s.started = false) :
    s.finished = false ∧ s.polled = [] ∧ s.queued = [] ∧ s.frames.queue = [] := by
  cases inv with
  | unstarted h₁ h₂ h₃ h₄ h₅ => exact ⟨h₂, h₃, h₄, h₅⟩
  | running chunks frames h₁ => simp [h₁] at hstarted
  | ending chunks frames ended h₁ => simp [StreamState.started_of_finished h₁] at hstarted
  | clean chunks n stats h₁ => simp [StreamState.started_of_finished h₁] at hstarted
  | dirty chunks n message h₁ => simp [StreamState.started_of_finished h₁] at hstarted

/-- While the supervisor runs, there is no terminal frame. -/
theorem BodyInv.of_supervised (inv : BodyInv s) (hstarted : s.started = true)
    (hrunning : s.phase ≠ .finished) : ∃ chunks frames : List Bytes, s.finished = false ∧
      s.polled = chunks.map .data ∧ s.frames.queue = frames.map .data := by
  cases inv with
  | unstarted h₁ => simp [h₁] at hstarted
  | running chunks frames h₁ h₂ h₃ h₄ => exact ⟨chunks, frames, h₂, h₃, h₄⟩
  | ending chunks frames ended h₁ => exact absurd h₁ hrunning
  | clean chunks n stats h₁ => exact absurd h₁ hrunning
  | dirty chunks n message h₁ => exact absurd h₁ hrunning

/-- A step of the first loop that goes on. -/
theorem StreamInv.wait (inv : StreamInv s) (hstarted : s.started = false) {phase : StreamPhase}
    (hstarted' : ({ s with phase } : StreamState).started = false) (hphase : PhaseInv { s with phase }) :
    StreamInv { s with phase } := by
  obtain ⟨hfinished, hpolled, hqueued, hqueue⟩ := inv.body.of_unstarted hstarted
  refine ⟨inv.job, inv.conserved, hphase, .unstarted hstarted' hfinished hpolled hqueued hqueue, ?_⟩
  intro h
  rw [hstarted'] at h
  cases h

/-- A step that leaves the first loop without a body. -/
theorem StreamInv.leave (inv : StreamInv s) (hstarted : s.started = false) {phase : StreamPhase}
    (hleft : phase = .abandoned ∨ ∃ first, phase = .answered first) (cancelled : Bool)
    (verdict : Option RemoteOutcome) :
    StreamInv { s with job := s.job.hangUp, phase, cancelled, verdict } := by
  obtain ⟨hfinished, hpolled, hqueued, hqueue⟩ := inv.body.of_unstarted hstarted
  have hclosed : s.job.step .close = some s.job.hangUp := rfl
  have hstarted' : ({ s with
      job := s.job.hangUp, phase, cancelled, verdict } : StreamState).started = false := by
    rcases hleft with rfl | ⟨first, rfl⟩ <;> rfl
  refine ⟨inv.job.step hclosed, inv.conserved, ?_, .unstarted hstarted' hfinished hpolled hqueued hqueue,
    ?_⟩
  · rcases hleft with rfl | ⟨first, rfl⟩ <;> trivial
  · intro h
    rw [hstarted'] at h
    cases h

/-- A step of the supervisor that goes on. -/
theorem StreamInv.move (inv : StreamInv s) (hstarted : s.started = true)
    (hrunning : s.phase ≠ .finished) {phase : StreamPhase} {verdict : Option RemoteOutcome}
    (hstarted' : ({ s with phase, verdict } : StreamState).started = true)
    (hphase : PhaseInv { s with phase, verdict })
    (hverdict : ∀ stats, verdict = some (.complete stats) → Settled { s with phase, verdict } stats) :
    StreamInv { s with phase, verdict } := by
  obtain ⟨chunks, frames, hfinished, hpolled, hqueue⟩ := inv.body.of_supervised hstarted hrunning
  exact ⟨inv.job, inv.conserved, hphase, .running chunks frames hstarted' hfinished hpolled hqueue,
    fun _ => hverdict⟩

/-- The supervisor ends without a terminal frame. -/
theorem StreamInv.finish (inv : StreamInv s) (hstarted : s.started = true)
    (hrunning : s.phase ≠ .finished) :
    StreamInv { s with job := s.job.hangUp, phase := .finished } := by
  obtain ⟨chunks, frames, hfinished, hpolled, hqueue⟩ := inv.body.of_supervised hstarted hrunning
  have hclosed : s.job.step .close = some s.job.hangUp := rfl
  refine ⟨inv.job.step hclosed, inv.conserved, trivial,
    .running chunks frames rfl hfinished hpolled hqueue, ?_⟩
  intro _ stats hstats
  obtain ⟨h₁, h₂, h₃, h₄, h₅⟩ := inv.verdict hstarted stats hstats
  exact ⟨h₁, h₂, h₃, h₄, h₅⟩

/-- The supervisor ends with its terminal frame. -/
theorem StreamInv.finish_done (inv : StreamInv s) {ended : ProducerEnd} {failure : Failure}
    (hphase : s.phase = .ending ended failure) :
    StreamInv { s with
      frames := s.frames.push (.done ended), job := s.job.hangUp, phase := .finished } := by
  have hstarted : s.started = true := by rw [StreamState.started, hphase]
  have hrunning : s.phase ≠ .finished := by rw [hphase]; nofun
  obtain ⟨chunks, frames, hfinished, hpolled, hqueue⟩ := inv.body.of_supervised hstarted hrunning
  have hclosed : s.job.step .close = some s.job.hangUp := rfl
  have hend : ended = .io ∨ CleanEnd s ended := by
    have hinv := inv.phase
    rw [PhaseInv, hphase] at hinv
    exact hinv
  refine ⟨inv.job.step hclosed, inv.conserved, trivial, ?_, ?_⟩
  · refine .ending chunks frames ended rfl hfinished hpolled ?_ ?_
    · show s.frames.queue ++ [.done ended] = _
      rw [hqueue]
    · refine hend.imp_right fun hclean => hclean.congr rfl rfl ?_
      show s.delivered ++ (s.queued ++ (s.frames.queue ++ [Frame.done ended]).filterMap _) = _
      rw [List.filterMap_append, StreamState.inFlight]
      simp [Frame.chunk?]
  · intro _ stats hstats
    obtain ⟨h₁, h₂, h₃, h₄, h₅⟩ := inv.verdict hstarted stats hstats
    exact ⟨h₁, h₂, h₃, h₄, h₅⟩

/-- A turn of the first loop. -/
theorem StreamInv.prestreamTurn (inv : StreamInv s) {p : Prestream} (hphase : s.phase = .prestream p) :
    StreamInv (s.prestreamTurn p) := by
  have hstarted : s.started = false := by rw [StreamState.started, hphase]
  have hinv : PrestreamInv s p := by
    have hinv := inv.phase
    rw [PhaseInv, hphase] at hinv
    exact hinv
  have hwait : StreamInv { s with phase := .awaiting p } :=
    inv.wait hstarted rfl ⟨hinv.received, hinv.verdict, hinv.closed, hinv.terminal⟩
  unfold StreamState.prestreamTurn
  split
  · exact inv.leave hstarted (Or.inr ⟨_, rfl⟩) s.cancelled s.verdict
  · split
    · exact hwait
    · split
      · exact hwait
      · exact inv.leave hstarted (Or.inr ⟨_, rfl⟩) s.cancelled _

/-- What the phase says while the supervisor is at the top of its loop or in its `select!`. -/
theorem StreamInv.supervisor (inv : StreamInv s) {sup : Supervisor}
    (hphase : s.phase = .turn sup ∨ s.phase = .selecting sup) : SupervisorInv s sup s.received := by
  have hinv := inv.phase
  rcases hphase with hphase | hphase <;> rw [PhaseInv, hphase] at hinv <;> exact hinv

/-- The first chunk starts the supervisor and the body. -/
theorem StreamInv.spawn (inv : StreamInv s) {chunk : Bytes} {p : Prestream}
    (hphase : s.phase = .first chunk p) : StreamInv (s.spawn chunk p) := by
  have hstarted : s.started = false := by rw [StreamState.started, hphase]
  obtain ⟨hfinished, hpolled, hqueued, hqueue⟩ := inv.body.of_unstarted hstarted
  have hinv := inv.phase
  rw [PhaseInv, hphase] at hinv
  obtain ⟨hreceived, hnone, hopen, hterminal⟩ := hinv
  have hforwarded : s.job.forwarded ≠ [] := by
    rw [inv.conserved, hreceived]
    exact List.cons_ne_nil _ _
  refine ⟨inv.job, inv.conserved, ?_, .running [] [] rfl hfinished ?_ ?_, ?_⟩
  · show SupervisorInv (s.spawn chunk p) ⟨chunk.length, s.job.upload, _, _, _⟩ s.received
    constructor
    · exact hreceived ▸ List.cons_ne_nil _ _
    · simp [StreamState.spawn, StreamState.delivered, StreamState.inFlight, hpolled, hqueue, hreceived]
    · simp [hreceived, totalLength]
    · exact hnone
    · exact inv.job.phase.upload_ne_pending hforwarded
    · exact fun n hn => hn
    · intro hclosed
      rw [hopen] at hclosed
      cases hclosed
    · exact hterminal
  · simpa [StreamState.spawn] using hpolled
  · simpa [StreamState.spawn] using hqueue
  · intro _ stats hstats
    rw [show (s.spawn chunk p).verdict = s.verdict from rfl, hnone] at hstats
    cases hstats

/-- On the verdict `Complete` every chunk has been received, and the counts agree. -/
theorem SupervisorInv.settled {sup : Supervisor} {result : PcapResult} {stats : WireStats}
    (inv : SupervisorInv s sup s.received) (hresult : sup.result = some result)
    (h : classifyResult result sup.upload sup.bodyOpen sup.bytes = .complete stats) :
    Settled s stats := by
  obtain ⟨hcode, -, ⟨-, hpending, -⟩ | ⟨-, hupload, hclosed, hbytes⟩⟩ := classifyResult_complete h
  · exact absurd hpending inv.upload
  · have hjob : s.job.upload = .complete stats.bytes := by
      rw [hbytes]
      exact inv.complete _ hupload
    refine ⟨hjob, hbytes.trans inv.bytes, (inv.closed hclosed).1, (inv.closed hclosed).2, result, ?_, ?_⟩
    · rcases inv.result result hresult with hresult | rfl
      · exact hresult
      · cases hcode
    · rw [hjob, ← inv.bytes, hbytes, ← hupload, ← hclosed]
      exact h

/-- A clean terminal frame is sent on the verdict `Complete` only. -/
theorem StreamState.supervisorEnd_cases {outcome : RemoteOutcome} {ended : ProducerEnd}
    {failure : Failure} (h : StreamState.supervisorEnd outcome = some (ended, failure)) :
    ended = .io ∧ (∀ stats, outcome ≠ .complete stats) ∨
      ∃ stats, outcome = .complete stats ∧ ended = .complete stats.truncated := by
  cases outcome with
  | wait => cases h
  | complete stats =>
      cases h
      exact Or.inr ⟨stats, rfl, rfl⟩
  | noCandidateFiles => cases h; exact Or.inl ⟨rfl, nofun⟩
  | noMatch => cases h; exact Or.inl ⟨rfl, nofun⟩
  | cancelled message => cases h; exact Or.inl ⟨rfl, nofun⟩
  | error message => cases h; exact Or.inl ⟨rfl, nofun⟩
  | protocol detail => cases h; exact Or.inl ⟨rfl, nofun⟩

/-- A turn of the supervisor's loop. -/
theorem StreamInv.supervisorTurn (inv : StreamInv s) {sup : Supervisor}
    (hphase : s.phase = .turn sup) : StreamInv (s.supervisorTurn sup) := by
  have hstarted : s.started = true := by rw [StreamState.started, hphase]
  have hrunning : s.phase ≠ .finished := by rw [hphase]; nofun
  have hsup : SupervisorInv s sup s.received := inv.supervisor (Or.inl hphase)
  have hnone : ∀ stats, s.verdict ≠ some (.complete stats) := by
    intro stats hstats
    rw [hsup.verdict] at hstats
    cases hstats
  have hselect : StreamInv { s with phase := .selecting sup } :=
    inv.move hstarted hrunning rfl
      ⟨hsup.received, hsup.passed, hsup.bytes, hsup.verdict, hsup.upload, hsup.complete, hsup.closed, hsup.result⟩
      (fun stats hstats => absurd hstats (hnone stats))
  unfold StreamState.supervisorTurn
  split
  · exact inv.move hstarted hrunning rfl (Or.inl rfl) (fun stats hstats => absurd hstats (hnone stats))
  · split
    · exact hselect
    · rename_i result hresult
      dsimp only
      split
      · exact hselect
      · rename_i ended failure hend
        rcases StreamState.supervisorEnd_cases hend with ⟨rfl, hne⟩ | ⟨stats, hcomplete, rfl⟩
        · refine inv.move hstarted hrunning rfl (Or.inl rfl) ?_
          intro stats hstats
          exact absurd (Option.some.inj hstats) (hne stats)
        · refine inv.move hstarted hrunning rfl
            (Or.inr ⟨stats, rfl, congrArg some hcomplete, hsup.passed⟩) ?_
          intro stats' hstats'
          obtain ⟨h₁, h₂, h₃, h₄, h₅⟩ := hsup.settled hresult (Option.some.inj hstats')
          exact ⟨h₁, h₂, h₃, h₄, h₅⟩

/-- The supervisor gives up. -/
theorem StreamInv.fail (inv : StreamInv s) (hstarted : s.started = true)
    (hrunning : s.phase ≠ .finished) (hnone : s.verdict = none) (failure : Failure) :
    StreamInv { s with phase := .ending .io failure } := by
  refine inv.move hstarted hrunning rfl (Or.inl rfl) ?_
  intro stats hstats
  rw [hnone] at hstats
  cases hstats

/-- The supervisor goes back to the top of its loop. -/
theorem StreamInv.turn (inv : StreamInv s) (hstarted : s.started = true)
    (hrunning : s.phase ≠ .finished) {sup : Supervisor} (hsup : SupervisorInv s sup s.received) :
    StreamInv { s with phase := .turn sup } := by
  refine inv.move hstarted hrunning rfl
    ⟨hsup.received, hsup.passed, hsup.bytes, hsup.verdict, hsup.upload, hsup.complete, hsup.closed, hsup.result⟩ ?_
  intro stats hstats
  rw [hsup.verdict] at hstats
  cases hstats

theorem StreamInv.uploadChanged (inv : StreamInv s) (h : s.uploadChanged = some s') :
    StreamInv s' := by
  unfold StreamState.uploadChanged at h
  split at h
  · rename_i p hphase
    obtain rfl := Option.some.inj h
    have hinv := inv.phase
    rw [PhaseInv, hphase] at hinv
    exact inv.wait (by rw [StreamState.started, hphase]) rfl
      ⟨hinv.received, hinv.verdict, hinv.closed, hinv.terminal⟩
  · rename_i sup hphase
    obtain rfl := Option.some.inj h
    have hsup : SupervisorInv s sup s.received := inv.supervisor (Or.inr hphase)
    refine inv.turn (by rw [StreamState.started, hphase]) (by rw [hphase]; nofun) ?_
    refine ⟨hsup.received, hsup.passed, hsup.bytes, hsup.verdict, ?_, fun n hn => hn, hsup.closed,
      hsup.result⟩
    refine inv.job.phase.upload_ne_pending ?_
    rw [inv.conserved]
    exact fun h => hsup.received (List.append_eq_nil_iff.mp h).1
  · cases h

theorem StreamInv.uploadClosed (inv : StreamInv s) (h : s.uploadClosed = some s') : StreamInv s' := by
  unfold StreamState.uploadClosed at h
  split at h
  · rename_i p hphase
    obtain rfl := Option.some.inj h
    exact inv.leave (by rw [StreamState.started, hphase]) (Or.inr ⟨_, rfl⟩) s.cancelled s.verdict
  · rename_i sup hphase
    obtain rfl := Option.some.inj h
    have hsup : SupervisorInv s sup s.received := inv.supervisor (Or.inr hphase)
    exact inv.turn (by rw [StreamState.started, hphase]) (by rw [hphase]; nofun)
      ⟨hsup.received, hsup.passed, hsup.bytes, hsup.verdict, nofun, nofun, hsup.closed, hsup.result⟩
  · cases h

theorem StreamInv.result (inv : StreamInv s) (h : s.result = some s') : StreamInv s' := by
  unfold StreamState.result at h
  split at h
  · rename_i p result hphase hresult
    split at h
    · obtain rfl := Option.some.inj h
      have hinv := inv.phase
      rw [PhaseInv, hphase] at hinv
      refine inv.wait (by rw [StreamState.started, hphase]) rfl
        ⟨hinv.received, hinv.verdict, hinv.closed, ?_⟩
      rintro r ⟨⟩
      exact Or.inl hresult
    · cases h
  · rename_i sup result hphase hresult
    split at h
    · obtain rfl := Option.some.inj h
      have hsup : SupervisorInv s sup s.received := inv.supervisor (Or.inr hphase)
      refine inv.turn (by rw [StreamState.started, hphase]) (by rw [hphase]; nofun)
        ⟨hsup.received, hsup.passed, hsup.bytes, hsup.verdict, hsup.upload, hsup.complete, hsup.closed, ?_⟩
      rintro r ⟨⟩
      exact Or.inl hresult
    · cases h
  · cases h

theorem StreamInv.resultClosed (inv : StreamInv s) (h : s.resultClosed = some s') : StreamInv s' := by
  unfold StreamState.resultClosed at h
  split at h
  · rename_i p hphase hresult
    split at h
    · obtain rfl := Option.some.inj h
      have hinv := inv.phase
      rw [PhaseInv, hphase] at hinv
      refine inv.wait (by rw [StreamState.started, hphase]) rfl
        ⟨hinv.received, hinv.verdict, hinv.closed, ?_⟩
      rintro r ⟨⟩
      exact Or.inr rfl
    · cases h
  · rename_i sup hphase hresult
    split at h
    · obtain rfl := Option.some.inj h
      exact inv.fail (by rw [StreamState.started, hphase]) (by rw [hphase]; nofun)
        (inv.supervisor (Or.inr hphase)).verdict _
    · cases h
  · cases h

theorem StreamInv.supervisorCancelled (inv : StreamInv s) (h : s.supervisorCancelled = some s') :
    StreamInv s' := by
  unfold StreamState.supervisorCancelled at h
  split at h
  · rename_i sup hphase
    split at h
    · obtain rfl := Option.some.inj h
      exact inv.fail (by rw [StreamState.started, hphase]) (by rw [hphase]; nofun)
        (inv.supervisor (Or.inr hphase)).verdict _
    · cases h
  · cases h

/-- What the phase says while the supervisor waits for room for a chunk. -/
theorem StreamInv.sending (inv : StreamInv s) {sup : Supervisor} {chunk : Bytes} {total : ℕ}
    (hphase : s.phase = .sending sup chunk total) :
    ∃ chunks, s.received = chunks ++ [chunk] ∧ total = sup.bytes + chunk.length ∧
      sup.bodyOpen = true ∧ SupervisorInv s sup chunks := by
  have hinv := inv.phase
  rw [PhaseInv, hphase] at hinv
  exact hinv

theorem StreamInv.timeout (inv : StreamInv s) (h : s.timeout = some s') : StreamInv s' := by
  unfold StreamState.timeout at h
  split at h
  · rename_i p hphase
    obtain rfl := Option.some.inj h
    exact inv.leave (by rw [StreamState.started, hphase]) (Or.inr ⟨_, rfl⟩) s.cancelled s.verdict
  · rename_i sup hphase
    obtain rfl := Option.some.inj h
    exact inv.fail (by rw [StreamState.started, hphase]) (by rw [hphase]; nofun)
      (inv.supervisor (Or.inr hphase)).verdict _
  · rename_i sup chunk total hphase
    obtain rfl := Option.some.inj h
    obtain ⟨chunks, -, -, -, hsup⟩ := inv.sending hphase
    exact inv.fail (by rw [StreamState.started, hphase]) (by rw [hphase]; nofun) hsup.verdict _
  · rename_i ended failure hphase
    obtain rfl := Option.some.inj h
    exact inv.finish (by rw [StreamState.started, hphase]) (by rw [hphase]; nofun)
  · cases h

/-- A frame goes to the browser. -/
theorem StreamInv.sent (inv : StreamInv s) (h : s.sent = some s') : StreamInv s' := by
  unfold StreamState.sent at h
  split at h
  · rename_i sup chunk total hphase
    have hstarted : s.started = true := by rw [StreamState.started, hphase]
    have hrunning : s.phase ≠ .finished := by rw [hphase]; rintro ⟨⟩
    obtain ⟨chunks, hreceived, htotal, hopen, hsup⟩ := inv.sending hphase
    split at h
    · rename_i frames hsend
      obtain rfl := Option.some.inj h
      obtain ⟨-, rfl⟩ := Channel.trySend_ok hsend
      obtain ⟨polled, queue, hfinished, hpolled, hqueue⟩ := inv.body.of_supervised hstarted hrunning
      refine ⟨inv.job, inv.conserved, ?_, .running polled (queue ++ [chunk]) rfl hfinished hpolled ?_, ?_⟩
      · refine ⟨hsup.received, ?_, ?_, hsup.verdict, hsup.upload, hsup.complete, ?_, hsup.result⟩
        · show s.delivered ++ (s.queued ++ (s.frames.queue ++ [Frame.data chunk]).filterMap _) =
            s.received
          rw [hreceived, ← hsup.passed, List.filterMap_append, StreamState.inFlight]
          simp [Frame.chunk?]
        · show total = totalLength s.received
          rw [htotal, hreceived, totalLength_append, hsup.bytes]
          simp [totalLength]
        · intro hclosed
          rw [hopen] at hclosed
          cases hclosed
      · show s.frames.queue ++ [.data chunk] = _
        rw [hqueue, List.map_append, List.map_singleton]
      · intro _ stats hstats
        rw [show s.verdict = none from hsup.verdict] at hstats
        cases hstats
    · obtain rfl := Option.some.inj h
      exact inv.fail hstarted hrunning hsup.verdict _
    · cases h
  · rename_i ended failure hphase
    split at h
    · rename_i frames hsend
      obtain rfl := Option.some.inj h
      obtain ⟨-, rfl⟩ := Channel.trySend_ok hsend
      exact inv.finish_done hphase
    · obtain rfl := Option.some.inj h
      exact inv.finish (by rw [StreamState.started, hphase]) (by rw [hphase]; rintro ⟨⟩)
    · cases h
  · cases h

theorem StreamInv.panicked (inv : StreamInv s) (h : s.panicked = some s') : StreamInv s' := by
  unfold StreamState.panicked at h
  split at h
  · rename_i hsupervised
    obtain rfl := Option.some.inj h
    simp only [StreamState.supervised, ne_eq, decide_not, Bool.and_eq_true, Bool.not_eq_true',
      decide_eq_false_iff_not] at hsupervised
    exact inv.finish hsupervised.1 hsupervised.2
  · cases h

/-- The browser drops the request or the body. -/
theorem StreamInv.drop (inv : StreamInv s) (h : s.drop = some s') : StreamInv s' := by
  unfold StreamState.drop at h
  split at h
  · rename_i hstarted
    split at h
    · cases h
    · obtain rfl := Option.some.inj h
      have hjob : s.job.Kept s.job := .of_eq rfl rfl rfl rfl rfl rfl rfl rfl
      refine ⟨inv.job, inv.conserved, inv.phase.congr hjob rfl rfl rfl rfl, ?_, ?_⟩
      · cases inv.body with
        | unstarted h₁ => simp [h₁] at hstarted
        | running chunks frames h₁ h₂ h₃ h₄ => exact .running chunks frames h₁ h₂ h₃ h₄
        | ending chunks frames ended h₁ h₂ h₃ h₄ h₅ => exact .ending chunks frames ended h₁ h₂ h₃ h₄ h₅
        | clean chunks n stats h₁ h₂ h₃ h₄ h₅ h₆ => exact .clean chunks n stats h₁ h₂ h₃ h₄ h₅ h₆
        | dirty chunks n message h₁ h₂ h₃ h₄ => exact .dirty chunks n message h₁ h₂ h₃ h₄
      · intro _ stats hstats
        exact (inv.verdict hstarted stats hstats).congr hjob rfl
  · rename_i hstarted
    have hstarted : s.started = false := Bool.not_eq_true _ ▸ hstarted
    split at h
    · cases h
    · cases h
    · obtain rfl := Option.some.inj h
      exact inv.leave hstarted (Or.inl rfl) true s.verdict

/-- A chunk is taken off the body channel, or its end is seen. -/
theorem StreamInv.chunk (inv : StreamInv s) (h : s.chunk = some s') : StreamInv s' := by
  have hjob : ∀ chunk queue, s.job.body.queue = chunk :: queue →
      JobInv (s.receive chunk).job ∧
        (s.receive chunk).job.forwarded = (s.receive chunk).received ++ (s.receive chunk).job.body.queue := by
    intro chunk queue hqueue
    have hstep : s.job.step .receive = some (s.receive chunk).job := rfl
    refine ⟨inv.job.step hstep, ?_⟩
    show s.job.forwarded = (s.received ++ [chunk]) ++ s.job.body.queue.tail
    rw [inv.conserved, hqueue, List.tail_cons, List.append_assoc, List.singleton_append]
  unfold StreamState.chunk at h
  split at h
  · rename_i p chunk queue hphase hqueue
    split at h
    · rename_i hopen
      obtain rfl := Option.some.inj h
      have hstarted : s.started = false := by rw [StreamState.started, hphase]
      obtain ⟨hfinished, hpolled, hqueued, hframes⟩ := inv.body.of_unstarted hstarted
      have hinv := inv.phase
      rw [PhaseInv, hphase] at hinv
      refine ⟨(hjob chunk queue hqueue).1, (hjob chunk queue hqueue).2, ?_,
        .unstarted rfl hfinished hpolled hqueued hframes, nofun⟩
      refine ⟨?_, hinv.verdict, hopen, hinv.terminal⟩
      show s.received ++ [chunk] = [chunk]
      rw [hinv.received, List.nil_append]
    · cases h
  · rename_i p hphase hqueue
    split at h
    · rename_i hclosed
      obtain rfl := Option.some.inj h
      have hinv := inv.phase
      rw [PhaseInv, hphase] at hinv
      rw [Bool.and_eq_true, Bool.not_eq_true'] at hclosed
      exact inv.wait (by rw [StreamState.started, hphase]) rfl
        ⟨hinv.received, hinv.verdict, fun _ => ⟨hqueue, hclosed.2⟩, hinv.terminal⟩
    · cases h
  · rename_i sup chunk queue hphase hqueue
    have hstarted : s.started = true := by rw [StreamState.started, hphase]
    have hrunning : s.phase ≠ .finished := by rw [hphase]; nofun
    have hsup : SupervisorInv s sup s.received := inv.supervisor (Or.inr hphase)
    obtain ⟨polled, frames, hfinished, hpolled, hframes⟩ := inv.body.of_supervised hstarted hrunning
    -- the chunk received goes on, or the supervisor ends
    have hgo : ∀ phase : StreamPhase, ({ s.receive chunk with phase } : StreamState).started = true →
        PhaseInv { s.receive chunk with phase } → StreamInv { s.receive chunk with phase } := by
      intro phase hstarted' hphase'
      refine ⟨(hjob chunk queue hqueue).1, (hjob chunk queue hqueue).2, hphase',
        .running polled frames hstarted' hfinished hpolled hframes, ?_⟩
      intro _ stats hstats
      rw [show ({ s.receive chunk with phase } : StreamState).verdict = none from hsup.verdict] at hstats
      cases hstats
    split at h
    · cases h
    · rename_i hopen
      have hopen : sup.bodyOpen = true := by simpa using hopen
      split at h
      · obtain rfl := Option.some.inj h
        exact hgo _ rfl (Or.inl rfl)
      · rename_i total htotal
        split at h
        · obtain rfl := Option.some.inj h
          exact hgo _ rfl (Or.inl rfl)
        · obtain rfl := Option.some.inj h
          refine hgo _ rfl ⟨s.received, rfl, checkedAdd_eq_some htotal, hopen, ?_⟩
          refine ⟨?_, hsup.passed, hsup.bytes, hsup.verdict, hsup.upload, hsup.complete, ?_, hsup.result⟩
          · exact List.append_ne_nil_of_right_ne_nil _ (List.cons_ne_nil _ _)
          · intro hclosed
            rw [hopen] at hclosed
            cases hclosed
  · rename_i sup hphase hqueue
    split at h
    · rename_i hclosed
      obtain rfl := Option.some.inj h
      rw [Bool.and_eq_true, Bool.not_eq_true'] at hclosed
      have hsup : SupervisorInv s sup s.received := inv.supervisor (Or.inr hphase)
      exact inv.turn (by rw [StreamState.started, hphase]) (by rw [hphase]; nofun)
        ⟨hsup.received, hsup.passed, hsup.bytes, hsup.verdict, hsup.upload, hsup.complete,
          fun _ => ⟨hqueue, hclosed.2⟩, hsup.result⟩
    · cases h
  · cases h

/-- A poll moves at most one chunk to the browser, and touches nothing else. -/
theorem StreamState.poll_frame (h : s.poll = some s') :
    s.started = true ∧ s'.job = s.job ∧ s'.phase = s.phase ∧ s'.received = s.received ∧
      s'.verdict = s.verdict ∧ s'.delivered ++ s'.inFlight = s.delivered ++ s.inFlight := by
  unfold StreamState.poll at h
  split at h
  · cases h
  · rename_i hopen
    simp only [Bool.or_eq_true, Bool.not_eq_true', not_or, Bool.not_eq_false, Bool.not_eq_true] at hopen
    refine ⟨hopen.1, ?_⟩
    split at h
    · rename_i chunk queued hqueued
      obtain rfl := Option.some.inj h
      refine ⟨rfl, rfl, rfl, rfl, ?_⟩
      simp [StreamState.delivered, StreamState.inFlight, hqueued, BodyItem.chunk?]
    · rename_i hqueued
      split at h
      · obtain rfl := Option.some.inj h
        refine ⟨rfl, rfl, rfl, rfl, ?_⟩
        simp [StreamState.delivered, StreamState.inFlight, BodyItem.chunk?]
      · split at h
        · rename_i chunk queue hqueue
          obtain rfl := Option.some.inj h
          refine ⟨rfl, rfl, rfl, rfl, ?_⟩
          simp [StreamState.delivered, StreamState.inFlight, hqueued, hqueue, BodyItem.chunk?,
            Frame.chunk?]
        · rename_i ended queue hqueue
          obtain rfl := Option.some.inj h
          refine ⟨rfl, rfl, rfl, rfl, ?_⟩
          simp [StreamState.delivered, StreamState.inFlight, hqueued, hqueue, List.filterMap_cons,
            Frame.chunk?]
        · split at h
          · obtain rfl := Option.some.inj h
            refine ⟨rfl, rfl, rfl, rfl, ?_⟩
            simp [StreamState.delivered, StreamState.inFlight, BodyItem.chunk?]
          · cases h

theorem filterMap_chunk?_map (chunks : List Bytes) :
    (chunks.map BodyItem.data).filterMap BodyItem.chunk? = chunks := by
  rw [List.filterMap_map]
  exact List.filterMap_some

/-- A poll of a body that has ended. -/
theorem StreamState.poll_finished (hqueued : s.queued = []) (hfinished : s.finished = true)
    (h : s.poll = some s') :
    s'.finished = true ∧ s'.queued = [] ∧ s'.polled = s.polled ++ [.eof] := by
  unfold StreamState.poll at h
  rw [hqueued, hfinished] at h
  split at h
  · cases h
  · obtain rfl := Option.some.inj h
    exact ⟨rfl, rfl, rfl⟩

/-- A poll of a body with something still to come. -/
theorem StreamState.poll_queue (hqueued : s.queued = []) (hfinished : s.finished = false)
    (h : s.poll = some s') :
    (∃ chunk queue, s.frames.queue = .data chunk :: queue ∧ s'.queued = [] ∧ s'.finished = false ∧
        s'.frames.queue = queue ∧ s'.polled = s.polled ++ [.data chunk]) ∨
      (∃ ended queue, s.frames.queue = .done ended :: queue ∧ s'.queued = [] ∧ s'.finished = true ∧
        s'.polled = s.polled ++ [ended.item]) ∨
      (s.frames.queue = [] ∧ s.phase = .finished ∧ s'.queued = [] ∧ s'.finished = true ∧
        s'.polled = s.polled ++ [.error "pcap extraction ended unexpectedly"]) := by
  unfold StreamState.poll at h
  rw [hqueued, hfinished] at h
  split at h
  · cases h
  · simp only [Bool.false_eq_true, if_false] at h
    split at h
    · rename_i chunk queue hqueue
      obtain rfl := Option.some.inj h
      exact Or.inl ⟨chunk, queue, hqueue, rfl, rfl, rfl, rfl⟩
    · rename_i ended queue hqueue
      obtain rfl := Option.some.inj h
      exact Or.inr (Or.inl ⟨ended, queue, hqueue, rfl, rfl, rfl⟩)
    · rename_i hqueue
      split at h
      · rename_i hphase
        obtain rfl := Option.some.inj h
        exact Or.inr (Or.inr ⟨hqueue, hphase, rfl, rfl, rfl⟩)
      · cases h

/-- A poll of the body. -/
theorem BodyInv.poll (inv : BodyInv s) (h : s.poll = some s') : BodyInv s' := by
  obtain ⟨hstarted, -, hphase, hreceived, hverdict, hpassed⟩ := StreamState.poll_frame h
  have hstarted' : s'.started = true := by rw [StreamState.started, hphase]; exact hstarted
  -- a chunk that was queued before the frames
  have hqueued : ∀ chunk queued, s.queued = chunk :: queued →
      s'.finished = s.finished ∧ s'.frames = s.frames ∧ s'.polled = s.polled ++ [.data chunk] := by
    intro chunk queued hqueued
    unfold StreamState.poll at h
    rw [hqueued] at h
    split at h
    · cases h
    · obtain rfl := Option.some.inj h
      exact ⟨rfl, rfl, rfl⟩
  cases inv with
  | unstarted h₁ => simp [h₁] at hstarted
  | running chunks frames h₁ h₂ h₃ h₄ =>
      cases hcase : s.queued with
      | cons chunk queued =>
          obtain ⟨hfinished, hframes, hpolled⟩ := hqueued chunk queued hcase
          exact .running (chunks ++ [chunk]) frames hstarted' (hfinished.trans h₂)
            (by rw [hpolled, h₃, List.map_append, List.map_singleton]) (by rw [hframes, h₄])
      | nil =>
          rcases StreamState.poll_queue hcase h₂ h with ⟨chunk, queue, hqueue, -, hfinished, hrest, hpolled⟩ |
            ⟨ended, queue, hqueue, -, -, -⟩ | ⟨-, hfin, hempty, hfinished, hpolled⟩
          · rw [hqueue] at h₄
            obtain ⟨frame, frames', rfl, hframe, hmap⟩ := List.map_eq_cons_iff.mp h₄.symm
            cases hframe
            exact .running (chunks ++ [chunk]) frames' hstarted' hfinished
              (by rw [hpolled, h₃, List.map_append, List.map_singleton]) (by rw [hrest, hmap])
          · rw [hqueue] at h₄
            obtain ⟨frame, frames', -, hframe, -⟩ := List.map_eq_cons_iff.mp h₄.symm
            cases hframe
          · exact .dirty chunks 0 _ (hphase.trans hfin) hfinished hempty (by rw [hpolled, h₃]; rfl)
  | ending chunks frames ended h₁ h₂ h₃ h₄ h₅ =>
      have hclean : ended = .io ∨ CleanEnd s' ended :=
        h₅.imp_right fun hclean => hclean.congr hreceived hverdict hpassed
      cases hcase : s.queued with
      | cons chunk queued =>
          obtain ⟨hfinished, hframes, hpolled⟩ := hqueued chunk queued hcase
          exact .ending (chunks ++ [chunk]) frames ended (hphase.trans h₁) (hfinished.trans h₂)
            (by rw [hpolled, h₃, List.map_append, List.map_singleton]) (by rw [hframes, h₄]) hclean
      | nil =>
          rcases StreamState.poll_queue hcase h₂ h with ⟨chunk, queue, hqueue, -, hfinished, hrest, hpolled⟩ |
            ⟨ended', queue, hqueue, hempty, hfinished, hpolled⟩ | ⟨hqueue, -, -, -, -⟩
          · rw [hqueue] at h₄
            cases frames with
            | nil => cases h₄
            | cons frame frames' =>
                obtain ⟨hframe, hmap⟩ := List.cons.inj h₄
                cases hframe
                exact .ending (chunks ++ [chunk]) frames' ended (hphase.trans h₁) hfinished
                  (by rw [hpolled, h₃, List.map_append, List.map_singleton]) (hrest.trans hmap) hclean
          · rw [hqueue] at h₄
            cases frames with
            | cons frame frames' => cases (List.cons.inj h₄).1
            | nil =>
                cases h₄
                rcases h₅ with rfl | ⟨stats, rfl, hstats, hall⟩
                · exact .dirty chunks 0 _ (hphase.trans h₁) hfinished hempty (by rw [hpolled, h₃]; rfl)
                · refine .clean chunks 0 stats (hphase.trans h₁) hfinished hempty (by rw [hpolled, h₃]; rfl)
                    (hverdict.trans hstats) ?_
                  -- nothing is left in flight
                  rw [hreceived, ← hall, StreamState.delivered, StreamState.inFlight, h₃, hcase, hqueue,
                    filterMap_chunk?_map]
                  simp [Frame.chunk?]
          · rw [hqueue] at h₄
            simp at h₄
  | clean chunks n stats h₁ h₂ h₃ h₄ h₅ h₆ =>
      have hs' := StreamState.poll_finished h₃ h₂ h
      refine .clean chunks (n + 1) stats (hphase.trans h₁) hs'.1 hs'.2.1 ?_ (hverdict.trans h₅)
        (hreceived.trans h₆)
      rw [hs'.2.2, h₄, List.append_assoc, ← List.replicate_succ']
  | dirty chunks n message h₁ h₂ h₃ h₄ =>
      have hs' := StreamState.poll_finished h₃ h₂ h
      refine .dirty chunks (n + 1) message (hphase.trans h₁) hs'.1 hs'.2.1 ?_
      rw [hs'.2.2, h₄, List.append_assoc, List.cons_append, ← List.replicate_succ']

theorem StreamInv.poll (inv : StreamInv s) (h : s.poll = some s') : StreamInv s' := by
  obtain ⟨hstarted, hjob, hphase, hreceived, hverdict, hpassed⟩ := StreamState.poll_frame h
  have hkept : s.job.Kept s'.job := by
    rw [hjob]
    exact .of_eq rfl rfl rfl rfl rfl rfl rfl rfl
  refine ⟨hjob ▸ inv.job, by rw [hjob, hreceived, inv.conserved],
    inv.phase.congr hkept hphase hreceived hverdict hpassed, inv.body.poll h, ?_⟩
  intro _ stats hstats
  rw [hverdict] at hstats
  exact (inv.verdict hstarted stats hstats).congr hkept hreceived

end

theorem StreamInv.new (token agent : String) (generation maxBytes : ℕ) :
    StreamInv (.new (.new token agent generation maxBytes)) where
  job := .new token agent generation maxBytes
  conserved := rfl
  phase := ⟨rfl, rfl, nofun, nofun⟩
  body := .unstarted rfl rfl rfl rfl rfl
  verdict := nofun

/-- Every step keeps the invariant. -/
theorem StreamInv.step {s s' : StreamState} (inv : StreamInv s) {op : StreamOp}
    (h : s.step op = some s') : StreamInv s' := by
  cases op with
  | job op =>
      simp only [StreamState.step] at h
      split at h
      · cases h
      · rename_i hop
        obtain ⟨job, hstep, rfl⟩ := Option.map_eq_some_iff.mp h
        exact inv.job_step (Bool.not_eq_true _ ▸ hop) hstep
  | turn =>
      simp only [StreamState.step] at h
      split at h
      · rename_i p hphase
        obtain rfl := Option.some.inj h
        exact inv.prestreamTurn hphase
      · rename_i sup hphase
        obtain rfl := Option.some.inj h
        exact inv.supervisorTurn hphase
      · cases h
  | spawn =>
      simp only [StreamState.step] at h
      split at h
      · rename_i chunk p hphase
        obtain rfl := Option.some.inj h
        exact inv.spawn hphase
      · cases h
  | chunk => exact inv.chunk h
  | uploadChanged => exact inv.uploadChanged h
  | uploadClosed => exact inv.uploadClosed h
  | result => exact inv.result h
  | resultClosed => exact inv.resultClosed h
  | cancelled => exact inv.supervisorCancelled h
  | timeout => exact inv.timeout h
  | sent => exact inv.sent h
  | panicked => exact inv.panicked h
  | poll => exact inv.poll h
  | drop => exact inv.drop h

/-! ## The body comes to an end -/

/-- A step of the timers, of the supervisor's own loop or of the browser's polling. -/
def StreamOp.isDrive : StreamOp → Bool
  | .turn | .timeout | .poll => true
  | _ => false

/-- The timers, the supervisor and the polls alone lead from one state to the other. -/
def Drives (s s' : StreamState) : Prop :=
  ∃ ops, (∀ op ∈ ops, StreamOp.isDrive op = true) ∧ exec StreamState.step s ops = some s'

theorem Drives.refl (s : StreamState) : Drives s s := ⟨[], by simp, rfl⟩

theorem Drives.head {s t s' : StreamState} {op : StreamOp} (hop : op.isDrive = true)
    (h : s.step op = some t) (hdrives : Drives t s') : Drives s s' := by
  obtain ⟨ops, hops, hexec⟩ := hdrives
  exact ⟨op :: ops, List.forall_mem_cons.mpr ⟨hop, hops⟩, exec_cons_eq_some.mpr ⟨t, h, hexec⟩⟩

theorem Drives.trans {s t s' : StreamState} (h : Drives s t) (h' : Drives t s') : Drives s s' := by
  obtain ⟨ops, hops, hexec⟩ := h
  obtain ⟨ops', hops', hexec'⟩ := h'
  refine ⟨ops ++ ops', ?_, exec_append_eq_some.mpr ⟨t, hexec, hexec'⟩⟩
  intro op hop
  exact (List.mem_append.mp hop).elim (hops op) (hops' op)

/-- A timer ends the wait for the terminal frame. -/
theorem StreamState.ending_settles {s : StreamState} {ended : ProducerEnd} {failure : Failure}
    (hphase : s.phase = .ending ended failure) :
    Drives s { s with job := s.job.hangUp, phase := .finished } := by
  have hdrive : StreamOp.isDrive .timeout = true := rfl
  refine Drives.head hdrive ?_ (.refl _)
  simp only [StreamState.step, StreamState.timeout, hphase]

/-- The timers end the supervisor. -/
theorem StreamState.settles {s : StreamState} (hstarted : s.started = true) :
    ∃ s', Drives s s' ∧ s'.phase = .finished ∧ s'.dropped = s.dropped := by
  have hselecting : ∀ {t : StreamState} {sup}, t.phase = .selecting sup →
      ∃ s', Drives t s' ∧ s'.phase = .finished ∧ s'.dropped = t.dropped := by
    intro t sup hphase
    have htimeout : ∃ failure,
        t.step .timeout = some { t with phase := .ending .io failure } := by
      simp only [StreamState.step, StreamState.timeout, hphase]
      exact ⟨_, rfl⟩
    obtain ⟨failure, htimeout⟩ := htimeout
    exact ⟨_, .head rfl htimeout (StreamState.ending_settles rfl), rfl, rfl⟩
  cases hphase : s.phase with
  | turn sup =>
      have hturn : s.step .turn = some (s.supervisorTurn sup) := by
        simp only [StreamState.step, hphase]
      have hnext : (s.supervisorTurn sup).dropped = s.dropped ∧
          ((s.supervisorTurn sup).phase = .selecting sup ∨
            ∃ ended failure, (s.supervisorTurn sup).phase = .ending ended failure) := by
        unfold StreamState.supervisorTurn
        split
        · exact ⟨rfl, Or.inr ⟨_, _, rfl⟩⟩
        · split
          · exact ⟨rfl, Or.inl rfl⟩
          · dsimp only
            split
            · exact ⟨rfl, Or.inl rfl⟩
            · exact ⟨rfl, Or.inr ⟨_, _, rfl⟩⟩
      obtain ⟨hdropped, hsel | ⟨ended, failure, hend⟩⟩ := hnext
      · obtain ⟨s', hdrives, hfinished, hdropped'⟩ := hselecting hsel
        exact ⟨s', .head rfl hturn hdrives, hfinished, hdropped'.trans hdropped⟩
      · exact ⟨_, .head rfl hturn (StreamState.ending_settles hend), rfl, hdropped⟩
  | selecting sup => exact hselecting hphase
  | sending sup chunk total =>
      have htimeout : ∃ failure,
          s.step .timeout = some { s with phase := .ending .io failure } := by
        simp only [StreamState.step, StreamState.timeout, hphase]
        exact ⟨_, rfl⟩
      obtain ⟨failure, htimeout⟩ := htimeout
      exact ⟨_, .head rfl htimeout (StreamState.ending_settles rfl), rfl, rfl⟩
  | ending ended failure => exact ⟨_, StreamState.ending_settles hphase, rfl, rfl⟩
  | finished => exact ⟨s, .refl s, hphase, rfl⟩
  | prestream p => rw [StreamState.started, hphase] at hstarted; cases hstarted
  | awaiting p => rw [StreamState.started, hphase] at hstarted; cases hstarted
  | first chunk p => rw [StreamState.started, hphase] at hstarted; cases hstarted
  | answered first => rw [StreamState.started, hphase] at hstarted; cases hstarted
  | abandoned => rw [StreamState.started, hphase] at hstarted; cases hstarted

/-- What is still queued for the browser. -/
def StreamState.backlog (s : StreamState) : ℕ := s.queued.length + s.frames.queue.length

/-- Once the supervisor is gone, a poll ends the body or takes something off the queues. -/
theorem StreamState.poll_progress {s : StreamState} (hphase : s.phase = .finished)
    (hdropped : s.dropped = false) : ∃ s', s.step .poll = some s' ∧ s'.phase = .finished ∧
      s'.dropped = false ∧ (s'.finished = true ∨ s'.backlog < s.backlog) := by
  have hopen : (!s.started || s.dropped) = false := by
    rw [StreamState.started_of_finished hphase, hdropped]
    rfl
  simp only [StreamState.step, StreamState.poll, hopen, Bool.false_eq_true, if_false]
  cases hqueued : s.queued with
  | cons chunk queued =>
      refine ⟨_, rfl, hphase, hdropped, Or.inr ?_⟩
      simp only [StreamState.backlog, hqueued, List.length_cons]
      omega
  | nil =>
      by_cases hfinished : s.finished = true
      · simp only [hfinished, if_true]
        exact ⟨_, rfl, hphase, hdropped, Or.inl rfl⟩
      · simp only [hfinished]
        cases hqueue : s.frames.queue with
        | nil =>
            simp only [hphase, if_true]
            exact ⟨_, rfl, rfl, hdropped, Or.inl rfl⟩
        | cons frame queue =>
            cases frame with
            | data chunk =>
                refine ⟨_, rfl, hphase, hdropped, Or.inr ?_⟩
                simp only [StreamState.backlog, hqueued, hqueue, List.length_cons]
                omega
            | done ended => exact ⟨_, rfl, hphase, hdropped, Or.inl rfl⟩

/-- Once the supervisor is gone, polling ends the body. -/
theorem StreamState.polls_end {s : StreamState} (hphase : s.phase = .finished)
    (hdropped : s.dropped = false) : ∃ s', Drives s s' ∧ s'.finished = true := by
  obtain ⟨t, hpoll, hphase', hdropped', hfinished | hlt⟩ :=
    StreamState.poll_progress hphase hdropped
  · exact ⟨t, .head rfl hpoll (.refl t), hfinished⟩
  · obtain ⟨s', hdrives, hfinished⟩ := StreamState.polls_end hphase' hdropped'
    exact ⟨s', .head rfl hpoll hdrives, hfinished⟩
termination_by s.backlog

/-! ## What the browser can rely on -/

/-- What the response of a remote capture job promises. -/
structure BodyLaw (s : StreamState) : Prop where
  /-- A body that ends cleanly is complete: `classify_result` has returned `Complete` for the job, the
  browser has been given every chunk forwarded, in order, and their bytes are the statistics' count. -/
  clean : s.EndedCleanly → ∃ result stats, s.job.result = some result ∧
    classifyResult result s.job.upload false (totalLength s.delivered) = .complete stats ∧
    s.verdict = some (.complete stats) ∧ s.delivered = s.job.forwarded ∧
    totalLength s.delivered = stats.bytes ∧ s.job.upload = .complete stats.bytes
  /-- Every end is a clean one or an error. -/
  ended : s.finished = true → s.EndedCleanly ∨ s.EndedInError
  /-- On any other outcome the end is an error. -/
  error : s.finished = true → (∀ stats, s.verdict ≠ some (.complete stats)) → s.EndedInError
  /-- The end of the stream is not given before. -/
  eof : .eof ∈ s.polled → s.finished = true
  /-- The timers and the polls bring a body that is not dropped to its end. -/
  ends : s.started = true → s.dropped = false → ∃ s', Drives s s' ∧ s'.finished = true

theorem StreamInv.law {s : StreamState} (inv : StreamInv s) : BodyLaw s := by
  have hends : s.started = true → s.dropped = false → ∃ s', Drives s s' ∧ s'.finished = true := by
    intro hstarted hdropped
    obtain ⟨t, hdrives, hphase, hdropped'⟩ := StreamState.settles hstarted
    obtain ⟨s', hdrives', hfinished⟩ := StreamState.polls_end hphase (hdropped'.trans hdropped)
    exact ⟨s', hdrives.trans hdrives', hfinished⟩
  cases inv.body with
  | unstarted h₁ h₂ h₃ h₄ h₅ =>
      constructor
      · rintro ⟨heof, -⟩
        simp [h₃] at heof
      · simp [h₂]
      · simp [h₂]
      · simp [h₃]
      · exact hends
  | running chunks frames h₁ h₂ h₃ h₄ =>
      constructor
      · rintro ⟨heof, -⟩
        simp [h₃] at heof
      · simp [h₂]
      · simp [h₂]
      · simp [h₃]
      · exact hends
  | ending chunks frames ended h₁ h₂ h₃ h₄ h₅ =>
      constructor
      · rintro ⟨heof, -⟩
        simp [h₃] at heof
      · simp [h₂]
      · simp [h₂]
      · simp [h₃]
      · exact hends
  | clean chunks n stats h₁ h₂ h₃ h₄ h₅ h₆ =>
      have hdelivered : s.delivered = s.received := by
        rw [StreamState.delivered, h₄, List.filterMap_append, filterMap_chunk?_map, h₆]
        simp [List.filterMap_replicate, BodyItem.chunk?]
      constructor
      · intro _
        have settled := inv.verdict (StreamState.started_of_finished h₁) stats h₅
        obtain ⟨result, hresult, hclassify⟩ := settled.result
        rw [hdelivered]
        refine ⟨result, stats, hresult, hclassify, h₅, ?_, settled.bytes.symm, settled.upload⟩
        rw [inv.conserved, settled.queue, List.append_nil]
      · intro _
        refine Or.inl ⟨by simp [h₄], ?_⟩
        intro message hmessage
        simp [h₄] at hmessage
      · exact fun _ hne => absurd h₅ (hne stats)
      · exact fun _ => h₂
      · exact hends
  | dirty chunks n message h₁ h₂ h₃ h₄ =>
      have herror : s.EndedInError := ⟨message, by simp [h₄]⟩
      constructor
      · exact fun hclean => absurd herror.choose_spec (hclean.2 _)
      · exact fun _ => Or.inr herror
      · exact fun _ _ => herror
      · exact fun _ => h₂
      · exact hends

/-- In every run of a request its response keeps its promises. -/
theorem body_law {token agent : String} {generation maxBytes : ℕ} {ops : List StreamOp}
    {s : StreamState}
    (h : exec StreamState.step (.new (.new token agent generation maxBytes)) ops = some s) :
    BodyLaw s := by
  have inv : StreamInv s :=
    invariant (fun _ _ _ inv h => StreamInv.step inv h) (.new token agent generation maxBytes) h
  exact inv.law

/-- A capture of two bytes, with its result ahead of the end of the upload. -/
def completeDownload : List StreamOp :=
  [.turn, .job (.beginUpload "secret"), .job (.takeSender 0), .job .publishStreaming,
    .job (.sinkSend 0 [1, 2]), .chunk, .spawn,
    .job (.deliverResult ⟨⟨"sensor", 7⟩, "secret", ⟨.complete, .complete, none, some ⟨1, 2, 1, 0, false⟩⟩⟩),
    .job (.acceptResult 0), .job (.sendResult 0), .turn, .result, .turn,
    .job (.sinkFinish 0 .complete), .chunk, .turn, .job (.sinkPublish 0), .uploadChanged, .turn, .sent,
    .poll, .poll]

theorem body_law_completeDownload :
    ∃ s, exec StreamState.step (.new (.new "secret" "sensor" 7 8)) completeDownload = some s ∧
      s.polled = [.data [1, 2], .eof] ∧ BodyLaw s := by
  have hrun : (exec StreamState.step (.new (.new "secret" "sensor" 7 8)) completeDownload).map
      (·.polled) = some [.data [1, 2], .eof] := by decide +kernel
  obtain ⟨s, hs, hpolled⟩ := Option.map_eq_some_iff.mp hrun
  exact ⟨s, hs, hpolled, body_law hs⟩

end EveBox.Server
