import EveBox.Agent.JobTheorems
import EveBox.Capture.System
import EveBox.Server.StreamTheorems

/-!
# The two ends agree

`CaptureInv` follows the bytes from the agent's body over the wire and the handler into the job, and the
result from the agent's worker into the one-shot. Every step meeting `Capture.Healthy` keeps it, so no run
of such steps classifies the agent's result as a fault of the protocol, and a result that counts as
complete has the byte count of both ends: `capture_law`.

The condition is needed: a worker that fails reports that there was no upload, whether there was one or not.
-/

namespace EveBox

open Rust Pcap Agent Server Transition

/-! ## What the request classifies -/

section

variable {s s' : StreamState}

/-- What `classify_result` has been given where it has returned `outcome`. -/
def Judged (s : StreamState) (outcome : RemoteOutcome) : Prop :=
  ∃ result upload bodyOpen,
    outcome = classifyResult result upload bodyOpen (totalLength s.received) ∧
    (s.job.result = some result ∨ result = resultChannelClosed) ∧
    (s.job.upload = .pending → upload = .pending) ∧
    (∀ n, upload = .complete n → s.job.upload = .complete n) ∧
    (bodyOpen = false → s.job.body.queue = [] ∧ s.job.bodySenders = false)

/-- A step that neither classifies a result nor takes a chunk. -/
structure Quiet (s s' : StreamState) : Prop where
  verdict : s'.verdict = s.verdict
  received : s'.received = s.received
  job : ∃ body, s'.job = { s.job with body }

theorem quiet_uploadChanged (h : s.uploadChanged = some s') : Quiet s s' := by
  unfold StreamState.uploadChanged at h
  split at h
  · obtain rfl := Option.some.inj h
    exact ⟨rfl, rfl, _, rfl⟩
  · obtain rfl := Option.some.inj h
    exact ⟨rfl, rfl, _, rfl⟩
  · cases h

theorem quiet_uploadClosed (h : s.uploadClosed = some s') : Quiet s s' := by
  unfold StreamState.uploadClosed at h
  split at h
  · obtain rfl := Option.some.inj h
    exact ⟨rfl, rfl, _, rfl⟩
  · obtain rfl := Option.some.inj h
    exact ⟨rfl, rfl, _, rfl⟩
  · cases h

theorem quiet_result (h : s.result = some s') : Quiet s s' := by
  unfold StreamState.result at h
  split at h
  · split at h
    · obtain rfl := Option.some.inj h
      exact ⟨rfl, rfl, _, rfl⟩
    · cases h
  · split at h
    · obtain rfl := Option.some.inj h
      exact ⟨rfl, rfl, _, rfl⟩
    · cases h
  · cases h

theorem quiet_resultClosed (h : s.resultClosed = some s') : Quiet s s' := by
  unfold StreamState.resultClosed at h
  split at h
  · split at h
    · obtain rfl := Option.some.inj h
      exact ⟨rfl, rfl, _, rfl⟩
    · cases h
  · split at h
    · obtain rfl := Option.some.inj h
      exact ⟨rfl, rfl, _, rfl⟩
    · cases h
  · cases h

theorem quiet_supervisorCancelled (h : s.supervisorCancelled = some s') : Quiet s s' := by
  unfold StreamState.supervisorCancelled at h
  split at h
  · split at h
    · obtain rfl := Option.some.inj h
      exact ⟨rfl, rfl, _, rfl⟩
    · cases h
  · cases h

theorem quiet_timeout (h : s.timeout = some s') : Quiet s s' := by
  unfold StreamState.timeout at h
  split at h
  · obtain rfl := Option.some.inj h
    exact ⟨rfl, rfl, _, rfl⟩
  · obtain rfl := Option.some.inj h
    exact ⟨rfl, rfl, _, rfl⟩
  · obtain rfl := Option.some.inj h
    exact ⟨rfl, rfl, _, rfl⟩
  · obtain rfl := Option.some.inj h
    exact ⟨rfl, rfl, _, rfl⟩
  · cases h

theorem quiet_sent (h : s.sent = some s') : Quiet s s' := by
  unfold StreamState.sent at h
  split at h
  all_goals try cases h
  all_goals
    split at h
    · obtain rfl := Option.some.inj h
      exact ⟨rfl, rfl, _, rfl⟩
    · obtain rfl := Option.some.inj h
      exact ⟨rfl, rfl, _, rfl⟩
    · cases h

theorem quiet_panicked (h : s.panicked = some s') : Quiet s s' := by
  unfold StreamState.panicked at h
  split at h
  · obtain rfl := Option.some.inj h
    exact ⟨rfl, rfl, _, rfl⟩
  · cases h

theorem quiet_drop (h : s.drop = some s') : Quiet s s' := by
  unfold StreamState.drop at h
  split at h
  · split at h
    · cases h
    · obtain rfl := Option.some.inj h
      exact ⟨rfl, rfl, _, rfl⟩
  · split at h
    · cases h
    · cases h
    · obtain rfl := Option.some.inj h
      exact ⟨rfl, rfl, _, rfl⟩

/-- What the request has been given stays what it is once there is a verdict. -/
structure Later (s s' : StreamState) : Prop where
  received : s.verdict ≠ none → s'.received = s.received
  verdict : s'.verdict = s.verdict ∨ s.verdict = none ∧ s'.received = s.received ∧
    ∃ outcome, s'.verdict = some outcome ∧ Judged s outcome
  job : ∃ body, s'.job = { s.job with body }

theorem Quiet.later (h : Quiet s s') : Later s s' := ⟨fun _ => h.received, Or.inl h.verdict, h.job⟩

/-- While the request takes chunks, there is no verdict. -/
theorem later_chunk (inv : StreamInv s) (h : s.chunk = some s') : Later s s' := by
  have hprestream : ∀ {p}, s.phase = .awaiting p → s.verdict = none := by
    intro p hphase
    have hinv := inv.phase
    rw [PhaseInv, hphase] at hinv
    exact hinv.verdict
  have hsupervisor : ∀ {sup}, s.phase = .selecting sup → s.verdict = none :=
    fun hphase => (inv.supervisor (Or.inr hphase)).verdict
  unfold StreamState.chunk at h
  split at h
  · rename_i hphase _
    split at h
    · obtain rfl := Option.some.inj h
      exact ⟨fun hne => absurd (hprestream hphase) hne, Or.inl rfl, _, rfl⟩
    · cases h
  · split at h
    · obtain rfl := Option.some.inj h
      exact Quiet.later ⟨rfl, rfl, _, rfl⟩
    · cases h
  · rename_i hphase _
    have hnone := hsupervisor hphase
    split at h
    · cases h
    · split at h
      · obtain rfl := Option.some.inj h
        exact ⟨fun hne => absurd hnone hne, Or.inl rfl, _, rfl⟩
      · split at h
        · obtain rfl := Option.some.inj h
          exact ⟨fun hne => absurd hnone hne, Or.inl rfl, _, rfl⟩
        · obtain rfl := Option.some.inj h
          exact ⟨fun hne => absurd hnone hne, Or.inl rfl, _, rfl⟩
  · split at h
    · obtain rfl := Option.some.inj h
      exact Quiet.later ⟨rfl, rfl, _, rfl⟩
    · cases h
  · cases h

/-- The first loop classifies the job's result against the upload watch. -/
theorem later_prestreamTurn (inv : StreamInv s) {p : Prestream} (hphase : s.phase = .prestream p) :
    Later s (s.prestreamTurn p) := by
  have hinv : PrestreamInv s p := by
    have hinv := inv.phase
    rw [PhaseInv, hphase] at hinv
    exact hinv
  have hstreamed : totalLength s.received = 0 := by rw [hinv.received]; rfl
  unfold StreamState.prestreamTurn
  split
  · exact Quiet.later ⟨rfl, rfl, _, rfl⟩
  · split
    · exact Quiet.later ⟨rfl, rfl, _, rfl⟩
    · rename_i result hterminal
      split
      · exact Quiet.later ⟨rfl, rfl, _, rfl⟩
      · refine ⟨fun hne => absurd hinv.verdict hne, Or.inr ⟨hinv.verdict, rfl, _, rfl, ?_⟩, _, rfl⟩
        refine ⟨result, s.job.upload, p.bodyOpen, ?_, hinv.terminal result hterminal, id, fun _ => id,
          hinv.closed⟩
        rw [hstreamed]

/-- The supervisor classifies the job's result against its snapshot of the upload watch. -/
theorem later_supervisorTurn (inv : StreamInv s) {sup : Server.Supervisor} (hphase : s.phase = .turn sup) :
    Later s (s.supervisorTurn sup) := by
  have hsup : SupervisorInv s sup s.received := inv.supervisor (Or.inl hphase)
  have hforwarded : s.job.forwarded ≠ [] := by
    rw [inv.conserved]
    exact List.append_ne_nil_of_left_ne_nil hsup.received _
  unfold StreamState.supervisorTurn
  split
  · exact Quiet.later ⟨rfl, rfl, _, rfl⟩
  · split
    · exact Quiet.later ⟨rfl, rfl, _, rfl⟩
    · rename_i result hresult
      dsimp only
      split
      · exact Quiet.later ⟨rfl, rfl, _, rfl⟩
      · refine ⟨fun hne => absurd hsup.verdict hne, Or.inr ⟨hsup.verdict, rfl, _, rfl, ?_⟩, _, rfl⟩
        refine ⟨result, sup.upload, sup.bodyOpen, ?_, hsup.result result hresult, ?_, hsup.complete,
          hsup.closed⟩
        · rw [← hsup.bytes]
        · -- chunks have been received, so the upload has begun
          exact fun hpending => absurd hpending (inv.job.phase.upload_ne_pending hforwarded)

/-- A step of the request. -/
theorem Server.StreamInv.later (inv : StreamInv s) {op : StreamOp} (hop : ∀ jop, op ≠ .job jop)
    (h : s.step op = some s') : Later s s' := by
  cases op with
  | job jop => exact absurd rfl (hop jop)
  | turn =>
      simp only [StreamState.step] at h
      split at h
      · rename_i p hphase
        obtain rfl := Option.some.inj h
        exact later_prestreamTurn inv hphase
      · rename_i sup hphase
        obtain rfl := Option.some.inj h
        exact later_supervisorTurn inv hphase
      · cases h
  | spawn =>
      simp only [StreamState.step] at h
      split at h
      · obtain rfl := Option.some.inj h
        exact Quiet.later ⟨rfl, rfl, _, rfl⟩
      · cases h
  | chunk => exact later_chunk inv h
  | uploadChanged => exact (quiet_uploadChanged h).later
  | uploadClosed => exact (quiet_uploadClosed h).later
  | result => exact (quiet_result h).later
  | resultClosed => exact (quiet_resultClosed h).later
  | cancelled => exact (quiet_supervisorCancelled h).later
  | timeout => exact (quiet_timeout h).later
  | sent => exact (quiet_sent h).later
  | panicked => exact (quiet_panicked h).later
  | poll =>
      obtain ⟨-, hjob, -, hreceived, hverdict, -⟩ := StreamState.poll_frame h
      exact Quiet.later ⟨hverdict, hreceived, s.job.body, hjob⟩
  | drop => exact (quiet_drop h).later

end

/-! ## The handler -/

/-- What a step of the handler does: to itself, to the wire and to the job. -/
inductive UploadEffect (wire : Wire) (job : Server.Job) : UploadCall → UploadCall → Wire → Server.Job → Prop
  | request : UploadEffect wire job .absent .beginning wire (job.beginUpload job.token)
  | refuse : UploadEffect wire job .absent (.replied unknownUpload) wire job
  | take (call' : UploadCall) (job' : Server.Job) (h : job.takeSender 0 = some job')
      (hcall : call' = .taken ∨ call' = .replied unknownUpload) :
      UploadEffect wire job .beginning call' wire job'
  | publish (job' : Server.Job) (h : job.publishStreaming = some job') :
      UploadEffect wire job .taken .reading wire job'
  | read (chunk bytes : Bytes) (h : wire.bytes = chunk ++ bytes) :
      UploadEffect wire job .reading (.sending chunk) { wire with bytes } job
  | complete (job' : Server.Job) (hbytes : wire.bytes = []) (hended : wire.ended = some .clean)
      (h : job.sinkFinish 0 .complete = some job') :
      UploadEffect wire job .reading (.finishing (some (.ok ()))) wire job'
  | send (chunk : Bytes) (job' : Server.Job) (h : job.sinkSend 0 chunk = some (.ok (), job')) :
      UploadEffect wire job (.sending chunk) .reading wire job'
  | fail (call : UploadCall) (result : Option (Except UploadFailure Unit)) (how : SinkEnd) (job' : Server.Job)
      (hcall : call = .reading ∨ ∃ chunk, call = .sending chunk)
      (hresult : result ≠ some (.ok ())) (h : job.sinkFinish 0 how = some job') :
      UploadEffect wire job call (.finishing result) wire job'
  | reply (result : Except UploadFailure Unit) (job' : Server.Job) (h : job.sinkPublish 0 = some job') :
      UploadEffect wire job (.finishing (some result)) (.replied (.ofResult result)) wire job'
  | leave (job' : Server.Job) (h : job.sinkPublish 0 = some job') :
      UploadEffect wire job (.finishing none) .gone wire job'

section

variable {call call' : UploadCall} {wire wire' : Wire} {job job' : Server.Job}

/-- A step that closes the sink without success. -/
theorem UploadEffect.of_finish {result : Option (Except UploadFailure Unit)}
    (h : ((finishUpload job result).map fun (call, job) => (call, wire, job)) =
      some (call', wire', job')) (hresult : result ≠ some (.ok ()))
    (hcall : call = .reading ∨ ∃ chunk, call = .sending chunk) :
    UploadEffect wire job call call' wire' job' := by
  obtain ⟨⟨call₁, job₁⟩, hfinish, heq⟩ := Option.map_eq_some_iff.mp h
  obtain ⟨job₂, hjob, heq'⟩ := Option.map_eq_some_iff.mp hfinish
  cases heq'
  cases heq
  exact .fail _ result _ _ hcall hresult hjob

theorem uploadStep_effect {op : UploadOp} (h : uploadStep call wire job op = some (call', wire', job')) :
    UploadEffect wire job call call' wire' job' := by
  unfold uploadStep at h
  split at h
  · split at h
    · cases h
      exact .request
    · cases h
  · split at h
    · cases h
      exact .refuse
    · cases h
  · split at h
    · obtain ⟨job₁, hjob, heq⟩ := Option.map_eq_some_iff.mp h
      cases heq
      refine .take _ _ hjob ?_
      split
      · exact Or.inl rfl
      · exact Or.inr rfl
    · cases h
  · split at h
    · obtain ⟨job₁, hjob, heq⟩ := Option.map_eq_some_iff.mp h
      cases heq
      exact .publish _ hjob
    · cases h
  · split at h
    · dsimp only at h
      split at h
      · cases h
      · cases h
        exact .read _ _ (List.take_append_drop _ _).symm
    · cases h
  · split at h
    · rename_i hbytes hended
      obtain ⟨⟨call₁, job₁⟩, hfinish, heq⟩ := Option.map_eq_some_iff.mp h
      obtain ⟨job₂, hjob, heq'⟩ := Option.map_eq_some_iff.mp hfinish
      cases heq'
      cases heq
      exact .complete _ hbytes hended hjob
    · exact .of_finish h nofun (Or.inl rfl)
    · cases h
  · split at h
    · rename_i chunk
      split at h
      · rename_i job₁ hsend
        cases h
        exact .send _ _ hsend
      · rename_i job₁ hsend
        have hsame : job₁ = job := by
          rcases Server.Job.sinkSend_some hsend with ⟨-, -, hjob⟩ | ⟨hok, -⟩
          · exact hjob
          · cases hok
        subst hsame
        exact .of_finish h nofun (Or.inr ⟨chunk, rfl⟩)
      · rename_i job₁ hsend
        have hsame : job₁ = job := by
          rcases Server.Job.sinkSend_some hsend with ⟨-, -, hjob⟩ | ⟨hok, -⟩
          · exact hjob
          · cases hok
        subst hsame
        exact .of_finish h nofun (Or.inr ⟨chunk, rfl⟩)
      · cases h
    · cases h
  · split at h
    · exact .of_finish h nofun (Or.inl rfl)
    · exact .of_finish h nofun (Or.inr ⟨_, rfl⟩)
    · cases h
  · split at h
    · exact .of_finish h nofun (Or.inl rfl)
    · exact .of_finish h nofun (Or.inr ⟨_, rfl⟩)
    · cases h
  · split at h
    · rename_i result
      obtain ⟨job₁, hjob, heq⟩ := Option.map_eq_some_iff.mp h
      cases heq
      cases result with
      | none => exact .leave _ hjob
      | some result => exact .reply _ _ hjob
    · cases h

/-- What the handler leaves of a job: the results, and the chunks it does not send. -/
structure UploadFrame (call : UploadCall) (job job' : Server.Job) : Prop where
  delivering : job'.delivering = job.delivering
  accepted : job'.accepted = job.accepted
  result : job'.result = job.result
  forwarded : (∀ chunk, call ≠ .sending chunk) → job'.forwarded = job.forwarded
  bodyTx : job'.bodyTx = job.bodyTx ∨ call = .beginning ∧ job.uploadAllowed = true

/-- A step of the handler is one of the job, or none. -/
theorem UploadEffect.frame (h : UploadEffect wire job call call' wire' job') :
    UploadFrame call job job' ∧
      (job' = job ∨ ∃ op : JobOp, op.isRequest = false ∧ job.step op = some job') := by
  cases h with
  | request =>
      refine ⟨?_, Or.inr ⟨.beginUpload job.token, rfl, rfl⟩⟩
      rcases job.beginUpload_cases job.token with heq | ⟨-, heq⟩ <;> rw [heq]
      · exact ⟨rfl, rfl, rfl, fun _ => rfl, Or.inl rfl⟩
      · exact ⟨rfl, rfl, rfl, fun _ => rfl, Or.inl rfl⟩
  | refuse => exact ⟨⟨rfl, rfl, rfl, fun _ => rfl, Or.inl rfl⟩, Or.inl rfl⟩
  | take _ _ h =>
      refine ⟨?_, Or.inr ⟨.takeSender 0, rfl, h⟩⟩
      obtain ⟨-, token, -, rfl | ⟨hallowed, -, rfl⟩⟩ := Server.Job.takeSender_some h
      · exact ⟨rfl, rfl, rfl, fun _ => rfl, Or.inl rfl⟩
      · exact ⟨rfl, rfl, rfl, fun _ => rfl, Or.inr ⟨rfl, hallowed⟩⟩
  | publish _ h =>
      refine ⟨?_, Or.inr ⟨.publishStreaming, rfl, h⟩⟩
      obtain ⟨-, rfl⟩ := Server.Job.publishStreaming_some h
      exact ⟨rfl, rfl, rfl, fun _ => rfl, Or.inl rfl⟩
  | read => exact ⟨⟨rfl, rfl, rfl, fun _ => rfl, Or.inl rfl⟩, Or.inl rfl⟩
  | complete _ _ _ h =>
      refine ⟨?_, Or.inr ⟨.sinkFinish 0 .complete, rfl, h⟩⟩
      obtain ⟨sink, -, -, rfl⟩ := Server.Job.sinkFinish_some h
      exact ⟨rfl, rfl, rfl, fun _ => rfl, Or.inl rfl⟩
  | send chunk _ h =>
      refine ⟨?_, Or.inr ⟨.sinkSend 0 chunk, rfl, by rw [Server.Job.step, h]; rfl⟩⟩
      obtain ⟨err, hr, -⟩ | ⟨-, sink, -, -, -, -, rfl⟩ := Server.Job.sinkSend_some h
      · cases hr
      · exact ⟨rfl, rfl, rfl, fun hne => absurd rfl (hne chunk), Or.inl rfl⟩
  | fail _ _ how _ _ _ h =>
      refine ⟨?_, Or.inr ⟨.sinkFinish 0 how, rfl, h⟩⟩
      obtain ⟨sink, -, -, rfl⟩ := Server.Job.sinkFinish_some h
      exact ⟨rfl, rfl, rfl, fun _ => rfl, Or.inl rfl⟩
  | reply _ _ h =>
      refine ⟨?_, Or.inr ⟨.sinkPublish 0, rfl, h⟩⟩
      obtain ⟨sink, state, -, -, rfl⟩ := Server.Job.sinkPublish_some h
      exact ⟨rfl, rfl, rfl, fun _ => rfl, Or.inl rfl⟩
  | leave _ h =>
      refine ⟨?_, Or.inr ⟨.sinkPublish 0, rfl, h⟩⟩
      obtain ⟨sink, state, -, -, rfl⟩ := Server.Job.sinkPublish_some h
      exact ⟨rfl, rfl, rfl, fun _ => rfl, Or.inl rfl⟩

end

/-! ## The invariant -/

namespace Server.UploadCall

/-- The chunk that the handler has in hand, while it still reads. -/
def held : UploadCall → Option Bytes
  | .absent | .beginning | .taken | .reading => some []
  | .sending chunk => some chunk
  | .finishing _ | .replied _ | .gone => none

/-- The handler has seen the end of the body. -/
def completed : UploadCall → Bool
  | .finishing (some (.ok ())) => true
  | call => call.succeeded

end Server.UploadCall

section

variable {call call' : UploadCall} {wire wire' : Wire} {job job' : Server.Job} {yielded : List Bytes}
  {all : List Bytes}

theorem UploadEffect.ended (h : UploadEffect wire job call call' wire' job') :
    wire'.ended = wire.ended := by
  cases h <;> rfl

/-- The handler takes bytes off the wire and forwards them, in order. -/
theorem UploadEffect.flow (h : UploadEffect wire job call call' wire' job')
    (hflow : ∀ held, call.held = some held → yielded.flatten = job.forwarded.flatten ++ held ++ wire.bytes) :
    ∀ held, call'.held = some held →
      yielded.flatten = job'.forwarded.flatten ++ held ++ wire'.bytes := by
  intro held hheld
  have frame := h.frame.1
  cases h with
  | request =>
      rw [frame.forwarded nofun]
      exact hflow held hheld
  | refuse => cases hheld
  | take _ _ _ hcall =>
      rw [frame.forwarded nofun]
      rcases hcall with rfl | rfl
      · exact hflow held hheld
      · cases hheld
  | publish =>
      rw [frame.forwarded nofun]
      exact hflow held hheld
  | read chunk bytes hbytes =>
      obtain rfl : chunk = held := Option.some.inj hheld
      rw [hflow [] rfl, hbytes, List.append_nil, List.append_assoc]
  | complete => cases hheld
  | send chunk _ hsend =>
      obtain rfl : [] = held := Option.some.inj hheld
      obtain ⟨err, hr, -⟩ | ⟨-, sink, -, -, -, -, rfl⟩ := Server.Job.sinkSend_some hsend
      · cases hr
      · rw [hflow chunk rfl]
        simp only [List.flatten_append, List.flatten_singleton, List.append_nil, List.append_assoc]
  | fail => cases hheld
  | reply => cases hheld
  | leave => cases hheld

/-- The handler has seen the end of the body only where it has forwarded all of it. -/
theorem UploadEffect.completed (h : UploadEffect wire job call call' wire' job')
    (hflow : ∀ held, call.held = some held → wire.ended ≠ some .error →
      yielded.flatten = job.forwarded.flatten ++ held ++ wire.bytes)
    (hclean : wire.ended = some .clean → yielded = all)
    (hcompleted : call.completed = true → yielded = all ∧ job.forwarded.flatten = all.flatten)
    (hc : call'.completed = true) : yielded = all ∧ job'.forwarded.flatten = all.flatten := by
  have frame := h.frame.1
  cases h with
  | request => cases hc
  | refuse => cases hc
  | take _ _ _ hcall => rcases hcall with rfl | rfl <;> cases hc
  | publish => cases hc
  | read => cases hc
  | complete _ hbytes hended _ =>
      have hall := hclean hended
      have hsame := hflow [] rfl (by rw [hended]; nofun)
      rw [hbytes, List.append_nil, List.append_nil, hall] at hsame
      exact ⟨hall, by rw [frame.forwarded nofun, hsame]⟩
  | send => cases hc
  | fail _ result _ _ _ hresult _ =>
      refine absurd ?_ hresult
      unfold UploadCall.completed at hc
      split at hc
      · rename_i heq
        exact UploadCall.finishing.inj heq
      · cases hc
  | reply result _ _ =>
      rw [frame.forwarded nofun]
      refine hcompleted ?_
      cases result with
      | ok u => rfl
      | error failure => cases failure <;> cases hc
  | leave => cases hc

/-- Once the handler has seen the end of the body, it replies with a success. -/
theorem UploadEffect.keeps_completed (h : UploadEffect wire job call call' wire' job')
    (hc : call.completed = true) : call'.completed = true := by
  cases h with
  | request => cases hc
  | refuse => cases hc
  | take => cases hc
  | publish => cases hc
  | read => cases hc
  | complete => cases hc
  | send => cases hc
  | fail _ _ _ _ hcall =>
      rcases hcall with rfl | ⟨chunk, rfl⟩
      · cases hc
      · cases hc
  | reply result _ _ =>
      cases result with
      | ok u => rfl
      | error failure => cases hc
  | leave => cases hc

/-- Only a `take` gives the body sender away. -/
theorem UploadEffect.bodyTx {op : UploadOp} (h : uploadStep call wire job op = some (call', wire', job')) :
    job'.bodyTx = job.bodyTx ∨ op = .take ∧ job.uploadAllowed = true := by
  rcases (uploadStep_effect h).frame.1.bodyTx with heq | ⟨rfl, hallowed⟩
  · exact Or.inl heq
  · refine Or.inr ⟨?_, hallowed⟩
    cases op with
    | take => rfl
    | _ => simp [uploadStep] at h

end

/-- What an outcome says of the two ends. -/
structure Agreed (s : Capture) (outcome : RemoteOutcome) : Prop where
  protocol : ∀ detail, outcome ≠ .protocol detail
  complete : ∀ stats, outcome = .complete stats → s.agent.yielded = s.agent.script.chunks ∧
    s.stream.received.flatten = s.agent.script.chunks.flatten ∧
    stats.bytes = totalLength s.agent.script.chunks

/-- The invariant of a capture. -/
structure CaptureInv (s : Capture) : Prop where
  agent : AgentInv s.agent
  stream : StreamInv s.stream
  /-- Bytes the body has yielded are forwarded, in the handler's hand, or on the wire. -/
  wire : ∀ held, s.call.held = some held → s.wire.ended ≠ some .error →
    s.agent.yielded.flatten = s.stream.job.forwarded.flatten ++ held ++ s.wire.bytes
  running : s.wire.ended = none → ∀ body, s.agent.body = some body → body.stopped = false
  clean : s.wire.ended = some .clean → s.agent.yielded = s.agent.script.chunks
  completed : s.call.completed = true → s.agent.yielded = s.agent.script.chunks ∧
    s.stream.job.forwarded.flatten = s.agent.script.chunks.flatten
  success : ∀ join, s.agent.upload = .ended join → join.succeeded = true → s.call.completed = true
  /-- Where the agent denies the upload, the server has not begun it. -/
  denied : s.agent.body = none ∨ s.agent.workerFailed = true → s.stream.job.bodyTx = true
  deliveries : ∀ d, d ∈ s.stream.job.delivering ∨ d ∈ s.stream.job.accepted →
    s.agent.phase = .done d.result
  result : ∀ r, s.stream.job.result = some r → s.agent.phase = .done r ∨ r = disconnectError
  verdict : ∀ outcome, s.stream.verdict = some outcome → Agreed s outcome

/-- A failure of the worker comes before the server has begun the upload, and the server does not begin the
upload of a worker that has failed. -/
def Capture.Healthy (s : Capture) : CaptureOp → Prop
  | .agent (.fail _) => s.stream.job.bodyTx = true
  | .upload .take => s.agent.workerFailed = false ∨ s.stream.job.uploadAllowed = false
  | _ => True

instance (s : Capture) (op : CaptureOp) : Decidable (s.Healthy op) :=
  match op with
  | .agent (.fail _) => inferInstanceAs (Decidable (_ = _))
  | .upload .take => inferInstanceAs (Decidable (_ ∨ _))
  | .agent (.start _) | .agent .produce | .agent .fetchEnd | .agent .cancel | .agent .cancelSeen
  | .agent .first | .agent .fetched | .agent .uploaded | .agent .progress | .agent .stalled
  | .agent .settle | .pollBody | .lost | .uploadEnd _ | .upload .request | .upload .refuse
  | .upload .publish | .upload (.read _) | .upload .bodyEnd | .upload .send | .upload .stalled
  | .upload .drop | .upload .settle | .report _ | .stream _ => isTrue trivial

theorem Server.UploadPhase.idle_of_bodyTx {j : Server.Job} (phase : UploadPhase j) (h : j.bodyTx = true) :
    j.upload = .pending ∧ j.forwarded = [] := by
  cases phase with
  | idle h₁ h₂ h₃ h₄ h₅ => exact ⟨h₃, h₅⟩
  | taken h₁ => simp [h₁] at h
  | streaming sink h₁ => simp [h₁] at h
  | closed sink how h₁ => simp [h₁] at h
  | ended sink how h₁ => simp [h₁] at h

section

variable {s s' : Capture}

theorem Agreed.congr {outcome : RemoteOutcome} (h : Agreed s outcome)
    (hscript : s'.agent.script = s.agent.script)
    (hyielded : s.agent.yielded = s.agent.script.chunks → s'.agent.yielded = s.agent.yielded)
    (hreceived : s'.stream.received = s.stream.received) : Agreed s' outcome where
  protocol := h.protocol
  complete stats hstats := by
    obtain ⟨hall, hbytes, hcount⟩ := h.complete stats hstats
    rw [hscript, hreceived]
    exact ⟨(hyielded hall).trans hall, hbytes, hcount⟩

/-- Where the agent denies the upload, the server has seen nothing of it. -/
theorem CaptureInv.unseen (inv : CaptureInv s)
    (h : s.agent.body = none ∨ s.agent.workerFailed = true) :
    s.stream.job.upload = .pending ∧ s.stream.received = [] := by
  obtain ⟨hupload, hforwarded⟩ := inv.stream.job.phase.idle_of_bodyTx (inv.denied h)
  have hconserved := inv.stream.conserved
  rw [hforwarded] at hconserved
  exact ⟨hupload, (List.append_eq_nil_iff.mp hconserved.symm).1⟩

/-- A body without chunks has yielded none. -/
theorem Agent.AgentInv.yielded_eq_nil {j : AgentJob} (inv : AgentInv j) (h : j.script.chunks = []) :
    j.yielded = [] := by
  have hflow := inv.flow
  rw [h, List.append_assoc, List.append_assoc] at hflow
  exact (List.append_eq_nil_iff.mp hflow.symm).1

/-- A body that has yielded everything has no chunk left. -/
theorem Agent.AgentJob.left_of_chunk (j : AgentJob) (inv : AgentInv j) {body body' : UploadBody}
    {chunk : Bytes} {queue : List Bytes} (hbody : j.body = some body)
    (hchunk : body.first.toList ++ j.chunks.queue = chunk :: (body'.first.toList ++ queue)) :
    j.yielded ≠ j.script.chunks := by
  intro hall
  have hflow := inv.flow
  rw [← hall, AgentJob.held, hbody] at hflow
  dsimp only at hflow
  rw [List.append_assoc j.yielded, hchunk] at hflow
  have hlength := congrArg List.length hflow
  simp only [List.length_append, List.length_cons] at hlength
  omega

/-- The fetch is over and its channel empty, so nothing is left to yield. -/
theorem Agent.AgentJob.drained (j : AgentJob) (inv : AgentInv j) {body : UploadBody}
    (hbody : j.body = some body) (hfirst : body.first = none) (hqueue : j.chunks.queue = [])
    (halive : j.producer.alive = false) : j.yielded = j.script.chunks := by
  have hposted : j.body ≠ none := by rw [hbody]; nofun
  have hrest : j.rest = [] := by
    cases hproducer : j.producer with
    | idle => exact absurd hproducer (inv.posted hposted).1
    | running rest => simp [hproducer, Producer.alive] at halive
    | ended => rw [AgentJob.rest, hproducer]
  have hflow := inv.flow
  rw [hrest, hqueue, AgentJob.held, hbody] at hflow
  dsimp only at hflow
  rw [hfirst] at hflow
  simpa using hflow.symm

/-- The agent's own result, against what the server has seen. -/
theorem CaptureInv.agreed_done (inv : CaptureInv s) {r : PcapResult} (hdone : s.agent.phase = .done r)
    {upload : UploadState} {bodyOpen : Bool} {streamed : ℕ}
    (hstreamed : streamed = totalLength s.stream.received)
    (hpending : s.stream.job.upload = .pending → upload = .pending)
    (hcomplete : ∀ n, upload = .complete n → s.stream.job.upload = .complete n)
    (hclosed : bodyOpen = false → s.stream.job.body.queue = [] ∧ s.stream.job.bodySenders = false) :
    Agreed s (classifyResult r upload bodyOpen streamed) := by
  have hsound : s.agent.Sound r := by
    have hphase := inv.agent.phase
    rw [AgentJob.PhaseInv, hdone] at hphase
    exact hphase
  -- a result that denies the upload meets a server that has not seen one
  have hdenied : r.upload = .none → upload = .pending ∧ streamed = 0 := by
    intro hnone
    have hor : s.agent.body = none ∨ s.agent.workerFailed = true := by
      by_cases hworker : s.agent.workerFailed = true
      · exact Or.inr hworker
      · exact Or.inl (hsound.denies hnone (Bool.not_eq_true _ ▸ hworker))
    obtain ⟨hupload, hreceived⟩ := inv.unseen hor
    refine ⟨hpending hupload, ?_⟩
    rw [hstreamed, hreceived]
    rfl
  -- a result that confirms the upload meets one with all chunks
  have hconfirmed : r.upload = .complete → bodyOpen = false → s.agent.yielded = s.agent.script.chunks ∧
      s.stream.received.flatten = s.agent.script.chunks.flatten := by
    intro hupload hopen
    obtain ⟨join, hjoin, hsucceeded⟩ := hsound.complete hupload
    obtain ⟨hyielded, hforwarded⟩ := inv.completed (inv.success join hjoin hsucceeded)
    refine ⟨hyielded, ?_⟩
    rw [← hforwarded, inv.stream.conserved, (hclosed hopen).1, List.append_nil]
  constructor
  · intro detail h
    rcases classifyResult_protocol h with ⟨hcode, hfailed, hstats⟩ | ⟨hcode, hor⟩ | ⟨-, hnone, hne⟩
    · obtain ⟨-, stats, hr, hbytes, hempty⟩ := hsound.counted hcode
      rcases hstats stats hr with ⟨hnone, hor⟩ | ⟨hupload, hopen, uploaded, hstate, hor⟩
      · obtain ⟨hchunks, htruncated⟩ := hempty hnone
        obtain ⟨hp, hz⟩ := hdenied hnone
        rw [hchunks] at hbytes
        rcases hor with hor | hor | hor | hor
        · exact hor hp
        · exact hor hz
        · exact hor hbytes
        · rw [htruncated] at hor
          cases hor
      · have hall := (hconfirmed hupload hopen).2
        have hlength : streamed = totalLength s.agent.script.chunks := by
          rw [hstreamed, totalLength_eq_flatten, totalLength_eq_flatten, hall]
        have huploaded : uploaded = streamed := by
          rw [inv.stream.job.phase.complete_bytes (hcomplete uploaded hstate), hstreamed,
            inv.stream.conserved, (hclosed hopen).1, List.append_nil]
        rcases hor with hor | hor
        · exact hor huploaded
        · exact hor (hbytes.trans hlength.symm)
    · have hnone := (hsound.empty hcode).2
      obtain ⟨hp, hz⟩ := hdenied hnone
      rcases hor with hor | hor | hor
      · exact hor hnone
      · exact hor hp
      · exact hor hz
    · exact hne (hdenied hnone).1
  · intro stats h
    obtain ⟨hcode, hr, hcase⟩ := classifyResult_complete h
    obtain ⟨-, stats', hr', hbytes, hempty⟩ := hsound.counted hcode
    obtain rfl : stats' = stats := Option.some.inj (hr'.symm.trans hr)
    rcases hcase with ⟨hnone, -, -, -⟩ | ⟨hupload, -, hopen, -⟩
    · have hchunks := (hempty hnone).1
      have hzero := (hdenied hnone).2
      have hreceived : s.stream.received.flatten = [] := by
        rw [← List.length_eq_zero_iff, ← totalLength_eq_flatten, ← hstreamed]
        exact hzero
      refine ⟨?_, ?_, hbytes⟩
      · rw [inv.agent.yielded_eq_nil hchunks, hchunks]
      · rw [hreceived, hchunks]
        rfl
    · obtain ⟨hyielded, hall⟩ := hconfirmed hupload hopen
      exact ⟨hyielded, hall, hbytes⟩

/-- What the request classifies agrees with both ends. -/
theorem CaptureInv.agreed (inv : CaptureInv s) {outcome : RemoteOutcome}
    (h : Judged s.stream outcome) : Agreed s outcome := by
  obtain ⟨r, upload, bodyOpen, rfl, hresult, hpending, hcomplete, hclosed⟩ := h
  -- the server's own results are errors of an upload that has failed
  have hown : r.code = .error → r.upload = .failed → Agreed s
      (classifyResult r upload bodyOpen (totalLength s.stream.received)) := by
    intro hcode hupload
    constructor
    · intro detail h
      rcases classifyResult_protocol h with ⟨hc, -⟩ | ⟨hc | hc, -⟩ | ⟨-, hnone, -⟩
      · rw [hcode] at hc
        cases hc
      · rw [hcode] at hc
        cases hc
      · rw [hcode] at hc
        cases hc
      · rw [hupload] at hnone
        cases hnone
    · intro stats h
      rw [(classifyResult_complete h).1] at hcode
      cases hcode
  rcases hresult with hresult | rfl
  · rcases inv.result r hresult with hdone | rfl
    · exact inv.agreed_done hdone rfl hpending hcomplete hclosed
    · exact hown rfl rfl
  · exact hown rfl rfl

/-! ## Steps -/

/-- A step of the agent that yields nothing. -/
theorem CaptureInv.agent_step (inv : CaptureInv s) {agent : AgentJob} (hagent : AgentInv agent)
    (frame : AgentFrame s.agent agent)
    (hworker : agent.workerFailed = true → s.agent.workerFailed = true ∨ s.stream.job.bodyTx = true)
    (hsuccess : ∀ join, agent.upload = .ended join → join.succeeded = true →
      s.call.completed = true) : CaptureInv { s with agent } where
  agent := hagent
  stream := inv.stream
  wire := by
    show ∀ held, s.call.held = some held → _ → agent.yielded.flatten = _
    rw [frame.yielded]
    exact inv.wire
  running hended body hbody := by
    rw [← Bool.not_eq_true]
    intro hstopped
    obtain ⟨body', hbody', hstopped'⟩ := frame.stopped body hbody hstopped
    rw [inv.running hended body' hbody'] at hstopped'
    cases hstopped'
  clean := by
    show _ → agent.yielded = agent.script.chunks
    rw [frame.yielded, frame.script]
    exact inv.clean
  completed := by
    show _ → agent.yielded = agent.script.chunks ∧ _ = agent.script.chunks.flatten
    rw [frame.yielded, frame.script]
    exact inv.completed
  success := hsuccess
  denied h := by
    rcases h with h | h
    · exact inv.denied (Or.inl (frame.body h))
    · exact (hworker h).elim (fun h => inv.denied (Or.inr h)) id
  deliveries d hd := frame.done _ (inv.deliveries d hd)
  result r hr := (inv.result r hr).imp_left (frame.done r)
  verdict outcome h := (inv.verdict outcome h).congr frame.script (fun _ => frame.yielded) rfl

/-- The end of the HTTP request is a step that yields nothing. -/
theorem uploadEnd_frame {j j' : AgentJob} {join : UploadJoin} (h : j.uploadEnd join = some j') :
    j'.script = j.script ∧ j'.yielded = j.yielded ∧ j'.body = j.body ∧ j'.phase = j.phase ∧
      j'.workerFailed = j.workerFailed ∧ j'.upload = .ended join := by
  unfold AgentJob.uploadEnd at h
  split at h
  · obtain rfl := Option.some.inj h
    exact ⟨rfl, rfl, rfl, rfl, rfl, rfl⟩
  · cases h

theorem CaptureInv.uploadEnd (inv : CaptureInv s) {join : UploadJoin}
    (h : s.step (.uploadEnd join) = some s') : CaptureInv s' := by
  simp only [Capture.step] at h
  split at h
  · cases h
  · rename_i hjoin
    obtain ⟨agent, hend, rfl⟩ := Option.map_eq_some_iff.mp h
    obtain ⟨hscript, hyielded, hbody, hphase, hworker, hupload⟩ := uploadEnd_frame hend
    have hcompleted : join.succeeded = true → s.call.completed = true := by
      intro hsucceeded
      have hcall : s.call.succeeded = true := by simpa [hsucceeded] using hjoin
      cases hcase : s.call <;> rw [hcase] at hcall <;> first | exact hcall | cases hcall
    refine ⟨inv.agent.uploadEnd hend, inv.stream, ?_, ?_, ?_, ?_, ?_, ?_, ?_, ?_, ?_⟩
    · show ∀ held, s.call.held = some held → _ → agent.yielded.flatten = _
      rw [hyielded]
      exact inv.wire
    · show _ → ∀ body, agent.body = some body → _
      rw [hbody]
      exact inv.running
    · show _ → agent.yielded = agent.script.chunks
      rw [hyielded, hscript]
      exact inv.clean
    · show _ → agent.yielded = agent.script.chunks ∧ _ = agent.script.chunks.flatten
      rw [hyielded, hscript]
      exact inv.completed
    · intro join' hjoin' hsucceeded
      obtain rfl : join = join' := UploadTask.ended.inj (hupload.symm.trans hjoin')
      exact hcompleted hsucceeded
    · show agent.body = none ∨ agent.workerFailed = true → _
      rw [hbody, hworker]
      exact inv.denied
    · exact fun d hd => hphase.trans (inv.deliveries d hd)
    · exact fun r hr => (inv.result r hr).imp_left hphase.trans
    · exact fun outcome h => (inv.verdict outcome h).congr hscript (fun _ => hyielded) rfl

theorem Server.Wire.push_of_ended {w : Wire} {e : WireEnd} (h : w.ended = some e) (p : BodyPoll) :
    w.push p = w := by
  unfold push
  rw [h]
  rfl

theorem Server.Wire.push_of_open {w : Wire} (h : w.ended = none) (p : BodyPoll) :
    w.push p = match p with
      | .chunk chunk => { w with bytes := w.bytes ++ chunk }
      | .error => { w with ended := some .error }
      | .eof => { w with ended := some .clean } := by
  unfold push
  rw [h]
  rfl

/-- A poll of the body, which leaves the worker alone. -/
theorem CaptureInv.poll_step (inv : CaptureInv s) {body : UploadBody} {chunks : Channel Bytes}
    {yielded : List Bytes} {wire : Wire}
    (hagent : AgentInv { s.agent with body := some body, chunks, yielded })
    (hyielded : s.agent.yielded = s.agent.script.chunks → yielded = s.agent.yielded)
    (hwire : ∀ held, s.call.held = some held → wire.ended ≠ some .error →
      yielded.flatten = s.stream.job.forwarded.flatten ++ held ++ wire.bytes)
    (hrunning : wire.ended = none → body.stopped = false)
    (hclean : wire.ended = some .clean → yielded = s.agent.script.chunks) :
    CaptureInv { s with agent := { s.agent with body := some body, chunks, yielded }, wire } where
  agent := hagent
  stream := inv.stream
  wire := hwire
  running hended _ hbody' := Option.some.inj hbody' ▸ hrunning hended
  clean := hclean
  completed h := ⟨(hyielded (inv.completed h).1).trans (inv.completed h).1, (inv.completed h).2⟩
  success := inv.success
  denied h := inv.denied (Or.inr (h.resolve_left nofun))
  deliveries := inv.deliveries
  result := inv.result
  verdict o h := (inv.verdict o h).congr rfl hyielded rfl

/-- What the body yields is on the wire. -/
theorem CaptureInv.pollBody (inv : CaptureInv s) (h : s.step .pollBody = some s') : CaptureInv s' := by
  obtain ⟨⟨p, agent⟩, hpoll, rfl⟩ := Option.map_eq_some_iff.mp h
  have hagent := inv.agent.pollBody hpoll
  obtain ⟨body, hbody, hcase⟩ := AgentJob.pollBody_some hpoll
  have hposted : s.agent.body ≠ none := by rw [hbody]; nofun
  show CaptureInv { s with agent, wire := s.wire.push p }
  cases hended : s.wire.ended with
  | some e =>
      -- the wire has ended, so it takes nothing any more
      rw [Server.Wire.push_of_ended hended]
      have hopen : s.wire.ended ≠ none := by rw [hended]; nofun
      rcases hcase with ⟨-, -, rfl⟩ | ⟨-, -, rfl⟩ | ⟨-, -, -, -, -, rfl⟩ |
        ⟨chunk, body', chunks, -, -, -, hchunk, rfl⟩
      · exact inv
      · exact inv.poll_step hagent (fun _ => rfl) inv.wire (fun h => absurd h hopen) inv.clean
      · exact inv.poll_step hagent (fun _ => rfl) inv.wire (fun h => absurd h hopen) inv.clean
      · have hleft := s.agent.left_of_chunk inv.agent hbody hchunk
        refine inv.poll_step hagent (fun h => absurd h hleft) ?_ (fun h => absurd h hopen)
          (fun h => absurd (inv.clean h) hleft)
        intro held _ herror
        cases e with
        | clean => exact absurd (inv.clean hended) hleft
        | error => exact absurd hended herror
  | none =>
      have hclean : s.wire.ended ≠ some .error := by rw [hended]; nofun
      rw [Server.Wire.push_of_open hended]
      rcases hcase with ⟨-, hstopped, -⟩ | ⟨rfl, hstopped, rfl⟩ |
        ⟨rfl, hstopped, hfirst, hqueue, halive, rfl⟩ |
        ⟨chunk, body', chunks, rfl, hstopped, hstopped', hchunk, rfl⟩
      · -- a stopped body has already ended on the wire
        rw [inv.running hended body hbody] at hstopped
        cases hstopped
      · exact inv.poll_step hagent (fun _ => rfl) (fun _ _ h => absurd rfl h) nofun nofun
      · exact inv.poll_step hagent (fun _ => rfl) (fun held hheld _ => inv.wire held hheld hclean)
          nofun (fun _ => s.agent.drained inv.agent hbody hfirst hqueue halive)
      · have hleft := s.agent.left_of_chunk inv.agent hbody hchunk
        refine inv.poll_step hagent (fun h => absurd h hleft) ?_ (fun _ => hstopped') ?_
        · intro held hheld _
          show (s.agent.yielded ++ [chunk]).flatten = _ ++ (s.wire.bytes ++ chunk)
          rw [List.flatten_append, List.flatten_singleton, inv.wire held hheld hclean, List.append_assoc]
        · intro h
          rw [show s.wire.ended = some .clean from h] at hended
          cases hended

/-- A step of the handler, which moves bytes from the wire into the job. -/
theorem CaptureInv.uploadStep (inv : CaptureInv s) {op : UploadOp}
    (hok : s.Healthy (.upload op)) (h : s.uploadStep op = some s') : CaptureInv s' := by
  unfold Capture.uploadStep at h
  split at h
  · cases h
  · rename_i hposted
    rw [Option.isNone_iff_eq_none] at hposted
    obtain ⟨⟨call, wire, job⟩, hstep, rfl⟩ := Option.map_eq_some_iff.mp h
    have heffect := uploadStep_effect hstep
    obtain ⟨frame, hjob⟩ := heffect.frame
    have hstream : StreamInv { s.stream with job } := by
      rcases hjob with rfl | ⟨jop, hjop, hjstep⟩
      · exact inv.stream
      · exact inv.stream.job_step hjop hjstep
    have hdenied : s.agent.body = none ∨ s.agent.workerFailed = true → job.bodyTx = true := by
      intro hor
      rcases UploadEffect.bodyTx hstep with heq | ⟨rfl, hallowed⟩
      · exact heq.trans (inv.denied hor)
      · -- only a healthy agent's upload is begun
        have hworker := hor.resolve_left hposted
        rcases hok with hok | hok
        · rw [hworker] at hok
          cases hok
        · rw [hallowed] at hok
          cases hok
    have hends := heffect.ended
    refine ⟨inv.agent, hstream, ?_, ?_, ?_, heffect.completed inv.wire inv.clean inv.completed, ?_, hdenied,
      ?_, ?_, ?_⟩
    · intro held hheld hended
      exact heffect.flow (fun held hheld => inv.wire held hheld (hends ▸ hended)) held hheld
    · intro hended
      exact inv.running (hends.symm.trans hended)
    · intro hended
      exact inv.clean (hends.symm.trans hended)
    · exact fun join hjoin hsucceeded => heffect.keeps_completed (inv.success join hjoin hsucceeded)
    · intro d hd
      refine inv.deliveries d ?_
      rw [← frame.delivering, ← frame.accepted]
      exact hd
    · intro r hr
      exact inv.result r (frame.result.symm.trans hr)
    · exact fun o h => (inv.verdict o h).congr rfl (fun _ => rfl) rfl

/-- A step that leaves the upload's part of the job, and the chunks received, as they are. -/
theorem CaptureInv.job_step (inv : CaptureInv s) {job : Server.Job} {reported : Bool}
    (hstream : StreamInv { s.stream with job })
    (hforwarded : job.forwarded = s.stream.job.forwarded) (hbodyTx : job.bodyTx = s.stream.job.bodyTx)
    (hdeliveries : ∀ d, d ∈ job.delivering ∨ d ∈ job.accepted → s.agent.phase = .done d.result)
    (hresult : ∀ r, job.result = some r → s.agent.phase = .done r ∨ r = disconnectError) :
    CaptureInv ({ s with reported }.withJob job) where
  agent := inv.agent
  stream := hstream
  wire := by
    show ∀ held, _ → _ → _ = job.forwarded.flatten ++ held ++ _
    rw [hforwarded]
    exact inv.wire
  running := inv.running
  clean := inv.clean
  completed := by
    show _ → _ ∧ job.forwarded.flatten = _
    rw [hforwarded]
    exact inv.completed
  success := inv.success
  denied h := hbodyTx.trans (inv.denied h)
  deliveries := hdeliveries
  result := hresult
  verdict o h := (inv.verdict o h).congr rfl (fun _ => rfl) rfl

/-- The result message carries the agent's own result. -/
theorem CaptureInv.report (inv : CaptureInv s) {connection : AgentConnectionId}
    (h : s.report connection = some s') : CaptureInv s' := by
  unfold Capture.report at h
  split at h
  · rename_i result hdone
    split at h
    · cases h
    · obtain rfl := Option.some.inj h
      have hstream := inv.stream.job_step
        (show JobOp.isRequest (.deliverResult ⟨connection, s.stream.job.token, result⟩) = false from rfl) rfl
      rcases s.stream.job.deliverResult_cases ⟨connection, s.stream.job.token, result⟩ with
        heq | ⟨-, heq⟩ <;> rw [heq] at hstream ⊢
      · exact inv.job_step hstream rfl rfl inv.deliveries inv.result
      · refine inv.job_step hstream rfl rfl ?_ inv.result
        rintro d (hd | hd)
        · rcases List.mem_append.mp hd with hd | hd
          · exact inv.deliveries d (Or.inl hd)
          · rw [List.mem_singleton.mp hd]
            exact hdone
        · exact inv.deliveries d (Or.inr hd)
  · cases h

/-- The control channel's calls pass on results that have been delivered. -/
theorem CaptureInv.internal (inv : CaptureInv s) {op : JobOp} {job : Server.Job} (hop : internal op = true)
    (h : s.stream.job.step op = some job) : CaptureInv (s.withJob job) := by
  have hstream : op.isRequest = false → StreamInv { s.stream with job } :=
    fun hrequest => inv.stream.job_step hrequest h
  have hreported : CaptureInv ({ s with reported := s.reported }.withJob job) := by
    cases op with
    | acceptResult i =>
        obtain ⟨-, d, hd, rfl⟩ := Server.Job.acceptResult_some h
        refine inv.job_step (hstream rfl) rfl rfl ?_ inv.result
        rintro d' (hd' | hd')
        · exact inv.deliveries d' (Or.inl (List.mem_of_mem_eraseIdx hd'))
        · rcases List.mem_append.mp hd' with hd' | hd'
          · exact inv.deliveries d' (Or.inr hd')
          · rw [List.mem_singleton.mp hd']
            exact inv.deliveries d (Or.inl (List.mem_of_getElem? hd))
    | sendResult i =>
        have hstream := hstream rfl
        obtain ⟨d, hd, ⟨-, rfl⟩ | ⟨-, rfl⟩⟩ := Server.Job.sendResult_some h
        · exact inv.job_step hstream rfl rfl
            (fun d' hd' => inv.deliveries d' (hd'.imp_right List.mem_of_mem_eraseIdx)) inv.result
        · refine inv.job_step hstream rfl rfl
            (fun d' hd' => inv.deliveries d' (hd'.imp_right List.mem_of_mem_eraseIdx)) ?_
          rintro r ⟨⟩
          exact Or.inl (inv.deliveries d (Or.inr (List.mem_of_getElem? hd)))
    | failPending connection =>
        have hstream := hstream rfl
        obtain ⟨-, rfl⟩ | ⟨-, -, ⟨-, rfl⟩ | ⟨-, rfl⟩⟩ := Server.Job.failPending_some h
        · exact inv.job_step hstream rfl rfl inv.deliveries inv.result
        · exact inv.job_step hstream rfl rfl inv.deliveries inv.result
        · refine inv.job_step hstream rfl rfl inv.deliveries ?_
          rintro r ⟨⟩
          exact Or.inr rfl
    | _ => cases hop
  exact hreported

/-- A step of the request. -/
theorem CaptureInv.streamStep (inv : CaptureInv s) {op : StreamOp} (h : s.streamStep op = some s') :
    CaptureInv s' := by
  unfold Capture.streamStep at h
  by_cases hjob : ∃ jop, op = .job jop
  · obtain ⟨jop, rfl⟩ := hjob
    dsimp only at h
    split at h
    · rename_i hallowed
      obtain ⟨stream, hstep, rfl⟩ := Option.map_eq_some_iff.mp h
      simp only [StreamState.step] at hstep
      split at hstep
      · cases hstep
      · obtain ⟨job, hjstep, rfl⟩ := Option.map_eq_some_iff.mp hstep
        exact inv.internal hallowed hjstep
    · cases h
  · have hop : ∀ jop, op ≠ .job jop := fun jop heq => hjob ⟨jop, heq⟩
    have hmap : (s.stream.step op).map (fun stream => { s with stream }) = some s' := by
      cases op with
      | job jop => exact absurd rfl (hop jop)
      | _ => exact h
    obtain ⟨stream, hstep, rfl⟩ := Option.map_eq_some_iff.mp hmap
    obtain ⟨hreceived, hverdict, body, hbody⟩ := inv.stream.later hop hstep
    refine ⟨inv.agent, inv.stream.step hstep, ?_, inv.running, inv.clean, ?_, inv.success, ?_, ?_, ?_, ?_⟩
    · show ∀ held, _ → _ → _ = stream.job.forwarded.flatten ++ held ++ _
      rw [hbody]
      exact inv.wire
    · show _ → _ ∧ stream.job.forwarded.flatten = _
      rw [hbody]
      exact inv.completed
    · show _ → stream.job.bodyTx = true
      rw [hbody]
      exact inv.denied
    · show ∀ d, d ∈ stream.job.delivering ∨ d ∈ stream.job.accepted → _
      rw [hbody]
      exact inv.deliveries
    · show ∀ r, stream.job.result = some r → _
      rw [hbody]
      exact inv.result
    · intro outcome ho
      rcases hverdict with heq | ⟨-, hsame, outcome', ho', hjudged⟩
      · have hold : s.stream.verdict = some outcome := heq.symm.trans ho
        refine (inv.verdict outcome hold).congr rfl (fun _ => rfl) (hreceived ?_)
        rw [hold]
        rintro ⟨⟩
      · obtain rfl : outcome' = outcome := Option.some.inj (ho'.symm.trans ho)
        exact (inv.agreed hjudged).congr rfl (fun _ => rfl) hsame

/-- Every healthy step keeps the invariant. -/
theorem CaptureInv.step (inv : CaptureInv s) {op : CaptureOp} (hok : s.Healthy op)
    (h : s.step op = some s') : CaptureInv s' := by
  cases op with
  | agent op =>
      obtain ⟨agent, hstep, rfl⟩ := Option.map_eq_some_iff.mp h
      obtain ⟨frame, hworker⟩ := AgentJob.step_frame hstep
      refine inv.agent_step (inv.agent.step hstep) frame ?_ ?_
      · intro hfailed
        rcases hworker with heq | ⟨err, rfl⟩
        · exact Or.inl (heq.symm.trans hfailed)
        · exact Or.inr hok
      · exact fun join hjoin => inv.success join (frame.upload join hjoin)
  | pollBody => exact inv.pollBody h
  | lost =>
      obtain rfl := Option.some.inj h
      exact ⟨inv.agent, inv.stream, fun _ _ h => absurd rfl h, nofun, nofun, inv.completed, inv.success,
        inv.denied, inv.deliveries, inv.result, fun o h => (inv.verdict o h).congr rfl (fun _ => rfl) rfl⟩
  | uploadEnd join => exact inv.uploadEnd h
  | upload op => exact inv.uploadStep hok h
  | report connection => exact inv.report h
  | stream op => exact inv.streamStep h

theorem CaptureInv.new (script : Script) (startUs endUs : ℕ) (token agent : String)
    (generation maxBytes : ℕ) :
    CaptureInv (.new script startUs endUs token agent generation maxBytes) where
  agent := .new script startUs endUs
  stream := .new token agent generation maxBytes
  wire held hheld _ := by
    obtain rfl : [] = held := Option.some.inj hheld
    rfl
  running _ _ h := by cases h
  clean h := by cases h
  completed h := by cases h
  success _ h := by cases h
  denied _ := rfl
  deliveries d hd := by rcases hd with hd | hd <;> cases hd
  result _ h := by cases h
  verdict _ h := by cases h

end

/-! ## What the two ends agree on -/

/-- In a healthy run, however the fetch ends, the agent's terminal result is never a fault of the protocol,
and where it counts as complete the bytes streamed, the bytes uploaded and the bytes reported are the same. -/
theorem capture_law {script : Script} {startUs endUs generation maxBytes : ℕ} {token agent : String}
    {ops : List CaptureOp} {s : Capture}
    (h : exec Capture.step (.new script startUs endUs token agent generation maxBytes) ops = some s)
    (hok : Along Capture.step Capture.Healthy
      (.new script startUs endUs token agent generation maxBytes) ops) :
    (∀ detail, s.stream.verdict ≠ some (.protocol detail)) ∧
      ∀ stats, s.stream.verdict = some (.complete stats) →
        s.stream.received.flatten = s.agent.yielded.flatten ∧
          stats.bytes = totalLength s.stream.received ∧ stats.bytes = totalLength s.agent.yielded := by
  have inv : CaptureInv s :=
    invariant_along (fun _ _ _ inv hok h => CaptureInv.step inv hok h)
      (.new script startUs endUs token agent generation maxBytes) hok h
  refine ⟨fun detail hverdict => (inv.verdict _ hverdict).protocol detail rfl, ?_⟩
  intro stats hverdict
  obtain ⟨hyielded, hreceived, hbytes⟩ := (inv.verdict _ hverdict).complete stats rfl
  have hcount : stats.bytes = totalLength s.stream.received := by
    rw [hbytes, totalLength_eq_flatten, totalLength_eq_flatten, hreceived]
  exact ⟨by rw [hyielded, hreceived], hcount, by rw [hyielded, hbytes]⟩

/-- A fetch that hands over two bytes. -/
def twoBytes : Script where
  chunks := [[1, 2]]
  result := .ok { packets := 1, bytes := 2, filesScanned := 1 }
  cancelled := false
  nonempty := by decide
  bytes stats h _ := by
    obtain rfl := FetchJoin.ok.inj h
    rfl
  truncated _ _ _ h := by cases h
  noMatch _ h _ := by cases h
  noCandidateFiles h _ := by cases h

/-- The upload begins, and its chunk reaches the server. -/
def uploadBegins : List CaptureOp :=
  [.stream .turn, .agent (.start true), .agent .produce, .agent .first, .pollBody, .upload .request,
    .upload .take, .upload .publish, .upload (.read 2), .upload .send]

/-- The upload ends well, and the result follows. -/
def uploadEnds : List CaptureOp :=
  [.agent .fetchEnd, .pollBody, .upload .bodyEnd, .upload .settle, .uploadEnd (.response 200 "200 OK"),
    .agent .fetched, .agent .uploaded, .agent .settle, .report ⟨"sensor", 7⟩,
    .stream (.job (.acceptResult 0)), .stream (.job (.sendResult 0)), .stream .chunk, .stream .spawn,
    .stream .turn, .stream .result, .stream .turn, .stream .chunk, .stream .turn]

theorem capture_law_twoBytes :
    ∃ s stats, exec Capture.step (.new twoBytes 0 9 "secret" "sensor" 7 8)
        (uploadBegins ++ uploadEnds) = some s ∧
      s.stream.verdict = some (.complete stats) ∧ stats.bytes = totalLength s.stream.received := by
  have hrun : (exec Capture.step (.new twoBytes 0 9 "secret" "sensor" 7 8)
      (uploadBegins ++ uploadEnds)).map (·.stream.verdict) = some (some (.complete ⟨1, 2, 1, 0, false⟩)) := by
    decide +kernel
  obtain ⟨s, hs, hverdict⟩ := Option.map_eq_some_iff.mp hrun
  have hok : Along Capture.step Capture.Healthy (.new twoBytes 0 9 "secret" "sensor" 7 8)
      (uploadBegins ++ uploadEnds) := by
    decide +kernel
  exact ⟨s, _, hs, hverdict, ((capture_law hs hok).2 _ hverdict).2.1⟩

/-- The worker fails once its upload has begun: the result denies the upload that the server has seen. -/
theorem workerFailure_protocol :
    ∃ s, exec Capture.step (.new twoBytes 0 9 "secret" "sensor" 7 8)
        (uploadBegins ++ [.agent .fetchEnd, .agent (.fail "task panicked"), .agent .settle,
          .report ⟨"sensor", 7⟩, .stream (.job (.acceptResult 0)), .stream (.job (.sendResult 0)),
          .stream .chunk, .stream .spawn, .stream .turn, .stream .result, .stream .turn]) = some s ∧
      s.stream.verdict = some (.protocol "terminal result denies the observed upload") := by
  have hrun : (exec Capture.step (.new twoBytes 0 9 "secret" "sensor" 7 8)
      (uploadBegins ++ [.agent .fetchEnd, .agent (.fail "task panicked"), .agent .settle,
        .report ⟨"sensor", 7⟩, .stream (.job (.acceptResult 0)), .stream (.job (.sendResult 0)),
        .stream .chunk, .stream .spawn, .stream .turn, .stream .result, .stream .turn])).map
      (·.stream.verdict) = some (some (.protocol "terminal result denies the observed upload")) := by
    decide +kernel
  exact Option.map_eq_some_iff.mp hrun

end EveBox
