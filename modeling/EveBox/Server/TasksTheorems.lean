import EveBox.Server.Tasks

/-!
# Single delivery

`UploadInv` follows the one body sender from the task to the sink and to the published end of the upload;
`ResultInv` follows the one result sender and the order of the job's events. Every step of a job keeps
both, so every job of every run of the registry keeps the promises of `JobLaw`: `registry_law`.
-/

namespace EveBox.Server

open Rust Agent Transition

/-! ## Tokens -/

theorem foldl_or_eq_zero_iff (ps : List (UInt8 × UInt8)) (acc : UInt8) :
    ps.foldl (fun difference p => difference ||| (p.1 ^^^ p.2)) acc = 0 ↔
      acc = 0 ∧ ∀ p ∈ ps, p.1 = p.2 := by
  induction ps generalizing acc with
  | nil => simp
  | cons p ps ih =>
      rw [List.foldl_cons, ih, UInt8.or_eq_zero_iff, UInt8.xor_eq_zero_iff, List.forall_mem_cons,
        and_assoc]

theorem eq_of_zip {a b : List UInt8} (hlen : a.length = b.length) (h : ∀ p ∈ a.zip b, p.1 = p.2) :
    a = b := by
  induction a generalizing b with
  | nil => exact (List.eq_nil_of_length_eq_zero hlen.symm).symm
  | cons x a ih =>
      cases b with
      | nil => simp at hlen
      | cons y b =>
          rw [List.zip_cons_cons, List.forall_mem_cons] at h
          rw [show x = y from h.1, ih (by simpa using hlen) h.2]

/-- The constant-time comparison is equality. -/
theorem tokenMatches_iff (expected presented : String) :
    tokenMatches expected presented = true ↔ expected = presented := by
  have hbytes : expected.toByteArray.data.toList = presented.toByteArray.data.toList ↔
      expected = presented := by
    rw [Array.toList_inj, ← ByteArray.ext_iff, String.toByteArray_inj]
  unfold tokenMatches
  rw [← hbytes]
  simp only
  split
  · rename_i hlen
    exact iff_of_false (by simp) fun h => hlen (by rw [h])
  · rename_i hlen
    rw [decide_eq_true_eq, foldl_or_eq_zero_iff]
    refine ⟨fun h => eq_of_zip (not_not.mp hlen) h.2, ?_⟩
    intro h
    rw [h]
    refine ⟨rfl, ?_⟩
    intro p hp
    obtain ⟨i, hi, rfl⟩ := List.mem_iff_getElem.mp hp
    rw [List.getElem_zip]

/-! ## What each step of a job does -/

section

variable {j j' : Job}

theorem Job.beginUpload_cases (j : Job) (token : String) :
    j.beginUpload token = j ∨
      token = j.token ∧ j.beginUpload token = { j with beginning := j.beginning ++ [token] } := by
  unfold beginUpload
  by_cases h : tokenMatches j.token token = true
  · rw [if_pos h]
    exact Or.inr ⟨((tokenMatches_iff _ _).mp h).symm, rfl⟩
  · rw [if_neg h]
    exact Or.inl rfl

theorem Job.takeSender_some {i : ℕ} (h : j.takeSender i = some j') :
    j.locked = false ∧ ∃ token, j.beginning[i]? = some token ∧
      (j' = { j with beginning := j.beginning.eraseIdx i } ∨
        j.uploadAllowed = true ∧ j.bodyTx = true ∧
          j' = { j with
            beginning := j.beginning.eraseIdx i
            bodyTx := false
            uploading := true
            locked := true
            log := j.log ++ [.uploadStarted token] }) := by
  unfold takeSender at h
  split at h
  · cases h
  · rename_i hlocked
    obtain ⟨token, htoken, rfl⟩ := Option.map_eq_some_iff.mp h
    refine ⟨Bool.not_eq_true _ ▸ hlocked, token, htoken, ?_⟩
    dsimp only
    by_cases hallowed : j.uploadAllowed = true
    · by_cases hbody : j.bodyTx = true
      · exact Or.inr ⟨hallowed, hbody, by simp [hallowed, hbody]⟩
      · exact Or.inl (by simp [hallowed, hbody])
    · exact Or.inl (by simp [hallowed])

theorem Job.publishStreaming_some (h : j.publishStreaming = some j') :
    j.locked = true ∧ j' = { j with
      upload := .streaming, locked := false, sinks := j.sinks ++ [⟨true, 0, none⟩] } := by
  unfold publishStreaming at h
  split at h
  · rename_i hlocked
    exact ⟨hlocked, (Option.some.inj h).symm⟩
  · cases h

/-- `UploadSink::send` either changes nothing or forwards a chunk that fits the limit. -/
theorem Job.sinkSend_some {i : ℕ} {chunk : Bytes} {r : Except UploadSendError Unit}
    (h : j.sinkSend i chunk = some (r, j')) :
    (∃ err, r = .error err ∧ j' = j) ∨
      r = .ok () ∧ ∃ sink, j.sinks[i]? = some sink ∧ sink.tx = true ∧ j.body.closed = false ∧
        sink.bytes + chunk.length ≤ j.maxBytes ∧ j' = { j with
          body := j.body.push chunk
          forwarded := j.forwarded ++ [chunk]
          sinks := j.sinks.set i { sink with bytes := sink.bytes + chunk.length } } := by
  unfold sinkSend at h
  split at h
  · cases h
  · rename_i sink hsink
    split at h
    · cases h
    · rename_i htx
      split at h
      · cases h
        exact Or.inl ⟨_, rfl, rfl⟩
      · rename_i total htotal
        have htotal' : total = sink.bytes + chunk.length := checkedAdd_eq_some htotal
        split at h
        · cases h
          exact Or.inl ⟨_, rfl, rfl⟩
        · rename_i hmax
          split at h
          · cases h
          · cases h
            exact Or.inl ⟨_, rfl, rfl⟩
          · rename_i body hsend
            cases h
            obtain ⟨hclosed, rfl⟩ := Channel.trySend_ok hsend
            refine Or.inr ⟨rfl, sink, hsink, by simpa using htx, hclosed, ?_, ?_⟩
            · omega
            · rw [htotal']

theorem Job.sinkFinish_some {i : ℕ} {how : SinkEnd} (h : j.sinkFinish i how = some j') :
    ∃ sink, j.sinks[i]? = some sink ∧ sink.tx = true ∧
      j' = { j with sinks := j.sinks.set i ⟨false, sink.bytes, some (how.state sink.bytes)⟩ } := by
  unfold sinkFinish at h
  split at h
  · cases h
  · rename_i sink hsink
    split at h
    · rename_i htx
      exact ⟨sink, hsink, htx, (Option.some.inj h).symm⟩
    · cases h

theorem Job.sinkPublish_some {i : ℕ} (h : j.sinkPublish i = some j') :
    ∃ sink state, j.sinks[i]? = some sink ∧ sink.ending = some state ∧
      j' = { j with upload := state, sinks := j.sinks.set i { sink with ending := none } } := by
  unfold sinkPublish at h
  split at h
  · cases h
  · rename_i sink hsink
    obtain ⟨state, hstate, rfl⟩ := Option.map_eq_some_iff.mp h
    exact ⟨sink, state, hsink, hstate, rfl⟩

theorem Job.deliverResult_cases (j : Job) (d : Delivery) :
    j.deliverResult d = j ∨
      (d.connection = j.connection ∧ d.token = j.token) ∧
        j.deliverResult d = { j with delivering := j.delivering ++ [d] } := by
  unfold deliverResult
  split
  · exact Or.inl rfl
  · rename_i h
    simp only [not_or, not_not, Bool.not_eq_true', Bool.not_eq_false, tokenMatches_iff] at h
    obtain ⟨hagent, hgeneration, htoken⟩ := h
    refine Or.inr ⟨⟨?_, htoken.symm⟩, rfl⟩
    rw [connection, hagent, hgeneration]

theorem Job.acceptResult_some {i : ℕ} (h : j.acceptResult i = some j') :
    j.locked = false ∧ ∃ d, j.delivering[i]? = some d ∧ j' = { j with
      delivering := j.delivering.eraseIdx i
      accepted := j.accepted ++ [d]
      uploadAllowed := j.uploadAllowed && promisesUpload d.result
      log := j.log ++ [.resultAccepted d] } := by
  unfold acceptResult at h
  split at h
  · cases h
  · rename_i hlocked
    obtain ⟨d, hd, rfl⟩ := Option.map_eq_some_iff.mp h
    exact ⟨Bool.not_eq_true _ ▸ hlocked, d, hd, rfl⟩

theorem Job.sendResult_some {i : ℕ} (h : j.sendResult i = some j') :
    ∃ d, j.accepted[i]? = some d ∧
      (j.resultTx = false ∧ j' = { j with accepted := j.accepted.eraseIdx i } ∨
        j.resultTx = true ∧ j' = { j with
          accepted := j.accepted.eraseIdx i
          resultTx := false
          result := some d.result
          log := j.log ++ [.resultSent d] }) := by
  obtain ⟨d, hd, rfl⟩ := Option.map_eq_some_iff.mp h
  refine ⟨d, hd, ?_⟩
  dsimp only
  by_cases htx : j.resultTx = true
  · exact Or.inr ⟨htx, by rw [if_pos htx]⟩
  · exact Or.inl ⟨Bool.not_eq_true _ ▸ htx, by rw [if_neg htx]⟩

theorem Job.failPending_some {connection : AgentConnectionId}
    (h : j.failPending connection = some j') :
    (connection ≠ j.connection ∧ j' = j) ∨
      connection = j.connection ∧ j.locked = false ∧
        (j.resultTx = false ∧ j' = { j with
            uploadAllowed := false, log := j.log ++ [.disconnected connection] } ∨
          j.resultTx = true ∧ j' = { j with
            uploadAllowed := false
            resultTx := false
            result := some disconnectError
            log := j.log ++ [.disconnected connection] ++ [.disconnectSent connection] }) := by
  unfold failPending at h
  split at h
  · rename_i hne
    refine Or.inl ⟨?_, (Option.some.inj h).symm⟩
    rintro rfl
    exact hne.elim (fun h => h rfl) (fun h => h rfl)
  · rename_i heq
    simp only [not_or, not_not] at heq
    split at h
    · cases h
    · rename_i hlocked
      refine Or.inr ⟨?_, Bool.not_eq_true _ ▸ hlocked, ?_⟩
      · rw [Job.connection, heq.1, heq.2]
      · dsimp only at h
        split at h
        · rename_i htx
          exact Or.inr ⟨htx, (Option.some.inj h).symm⟩
        · rename_i htx
          exact Or.inl ⟨Bool.not_eq_true _ ▸ htx, (Option.some.inj h).symm⟩

end

/-! ## The upload -/

/-- The event is the start of an upload. -/
def Event.isStart : Event → Bool
  | .uploadStarted _ => true
  | _ => false

/-- Where the body sender is. -/
inductive UploadPhase (j : Job) : Prop
  /-- In the task. -/
  | idle (bodyTx : j.bodyTx = true) (locked : j.locked = false) (upload : j.upload = .pending)
      (sinks : j.sinks = []) (forwarded : j.forwarded = [])
      (log : j.log.countP Event.isStart = 0)
  /-- With a `begin_upload` that has not published `Streaming` yet. -/
  | taken (bodyTx : j.bodyTx = false) (locked : j.locked = true) (upload : j.upload = .pending)
      (sinks : j.sinks = []) (forwarded : j.forwarded = [])
      (log : j.log.countP Event.isStart = 1)
  /-- With the sink, which still streams. -/
  | streaming (sink : UploadSink) (bodyTx : j.bodyTx = false) (locked : j.locked = false)
      (sinks : j.sinks = [sink]) (bytes : sink.bytes = totalLength j.forwarded)
      (bounded : sink.bytes ≤ j.maxBytes) (upload : j.upload = .streaming) (tx : sink.tx = true)
      (ending : sink.ending = none) (log : j.log.countP Event.isStart = 1)
  /-- Dropped, with the end of the upload still to be published. -/
  | closed (sink : UploadSink) (how : SinkEnd) (bodyTx : j.bodyTx = false)
      (locked : j.locked = false) (sinks : j.sinks = [sink])
      (bytes : sink.bytes = totalLength j.forwarded) (bounded : sink.bytes ≤ j.maxBytes)
      (upload : j.upload = .streaming) (tx : sink.tx = false)
      (ending : sink.ending = some (how.state sink.bytes)) (log : j.log.countP Event.isStart = 1)
  /-- Dropped, with the end of the upload published. -/
  | ended (sink : UploadSink) (how : SinkEnd) (bodyTx : j.bodyTx = false)
      (locked : j.locked = false) (sinks : j.sinks = [sink])
      (bytes : sink.bytes = totalLength j.forwarded) (bounded : sink.bytes ≤ j.maxBytes)
      (upload : j.upload = how.state sink.bytes) (tx : sink.tx = false)
      (ending : sink.ending = none) (log : j.log.countP Event.isStart = 1)

/-- The phase depends on the upload's part of the job only. -/
theorem UploadPhase.congr {j j' : Job} (phase : UploadPhase j) (hbodyTx : j'.bodyTx = j.bodyTx)
    (hlocked : j'.locked = j.locked) (hupload : j'.upload = j.upload) (hsinks : j'.sinks = j.sinks)
    (hforwarded : j'.forwarded = j.forwarded) (hmax : j'.maxBytes = j.maxBytes)
    (hlog : j'.log.countP Event.isStart = j.log.countP Event.isStart) : UploadPhase j' := by
  cases phase with
  | idle h₁ h₂ h₃ h₄ h₅ h₆ =>
      exact .idle (hbodyTx.trans h₁) (hlocked.trans h₂) (hupload.trans h₃) (hsinks.trans h₄)
        (hforwarded.trans h₅) (hlog.trans h₆)
  | taken h₁ h₂ h₃ h₄ h₅ h₆ =>
      exact .taken (hbodyTx.trans h₁) (hlocked.trans h₂) (hupload.trans h₃) (hsinks.trans h₄)
        (hforwarded.trans h₅) (hlog.trans h₆)
  | streaming sink h₁ h₂ h₃ h₄ h₅ h₆ h₇ h₈ h₉ =>
      exact .streaming sink (hbodyTx.trans h₁) (hlocked.trans h₂) (hsinks.trans h₃)
        (by rw [hforwarded, h₄]) (by rw [hmax]; exact h₅) (hupload.trans h₆) h₇ h₈ (hlog.trans h₉)
  | closed sink how h₁ h₂ h₃ h₄ h₅ h₆ h₇ h₈ h₉ =>
      exact .closed sink how (hbodyTx.trans h₁) (hlocked.trans h₂) (hsinks.trans h₃)
        (by rw [hforwarded, h₄]) (by rw [hmax]; exact h₅) (hupload.trans h₆) h₇ h₈ (hlog.trans h₉)
  | ended sink how h₁ h₂ h₃ h₄ h₅ h₆ h₇ h₈ h₉ =>
      exact .ended sink how (hbodyTx.trans h₁) (hlocked.trans h₂) (hsinks.trans h₃)
        (by rw [hforwarded, h₄]) (by rw [hmax]; exact h₅) (hupload.trans h₆) h₇ h₈ (hlog.trans h₉)

/-- The sink of a one-element list. -/
theorem sink_of_getElem? {sinks : List UploadSink} {sink sink' : UploadSink} {i : ℕ}
    (hsinks : sinks = [sink]) (h : sinks[i]? = some sink') : i = 0 ∧ sink' = sink := by
  rw [hsinks, List.getElem?_singleton] at h
  split at h
  · exact ⟨by assumption, (Option.some.inj h).symm⟩
  · cases h

/-- Every step of a job moves the body sender along its phases. -/
theorem UploadPhase.step {j j' : Job} (phase : UploadPhase j) {op : JobOp} (h : j.step op = some j') :
    UploadPhase j' := by
  cases op with
  | beginUpload token =>
      obtain rfl := Option.some.inj h
      rcases j.beginUpload_cases token with heq | ⟨-, heq⟩
      · rw [heq]
        exact phase
      · rw [heq]
        exact phase.congr rfl rfl rfl rfl rfl rfl rfl
  | takeSender i =>
      obtain ⟨hlocked, token, -, rfl | ⟨-, hbodyTx, rfl⟩⟩ := Job.takeSender_some h
      · exact phase.congr rfl rfl rfl rfl rfl rfl rfl
      · cases phase with
        | idle h₁ h₂ h₃ h₄ h₅ h₆ =>
            refine .taken rfl rfl h₃ h₄ h₅ ?_
            rw [List.countP_append, h₆]
            rfl
        | taken h₁ => simp [h₁] at hbodyTx
        | streaming sink h₁ => simp [h₁] at hbodyTx
        | closed sink how h₁ => simp [h₁] at hbodyTx
        | ended sink how h₁ => simp [h₁] at hbodyTx
  | publishStreaming =>
      obtain ⟨hlocked, rfl⟩ := Job.publishStreaming_some h
      cases phase with
      | taken h₁ h₂ h₃ h₄ h₅ h₆ =>
          refine .streaming ⟨true, 0, none⟩ h₁ rfl (by simp [h₄]) ?_ (Nat.zero_le _) rfl rfl rfl h₆
          simp [h₅, totalLength]
      | idle h₁ h₂ => simp [h₂] at hlocked
      | streaming sink h₁ h₂ => simp [h₂] at hlocked
      | closed sink how h₁ h₂ => simp [h₂] at hlocked
      | ended sink how h₁ h₂ => simp [h₂] at hlocked
  | sinkSend i chunk =>
      obtain ⟨⟨r, j''⟩, hsend, rfl⟩ := Option.map_eq_some_iff.mp h
      obtain ⟨-, -, rfl⟩ | ⟨-, sink', hsink, htx, -, hmax, rfl⟩ := Job.sinkSend_some hsend
      · exact phase
      · cases phase with
        | streaming sink h₁ h₂ h₃ h₄ h₅ h₆ h₇ h₈ h₉ =>
            obtain ⟨rfl, rfl⟩ := sink_of_getElem? h₃ hsink
            refine .streaming ⟨sink'.tx, sink'.bytes + chunk.length, sink'.ending⟩ h₁ h₂ (by simp [h₃])
              ?_ hmax h₆ h₇ h₈ h₉
            simp [h₄, totalLength]
        | idle h₁ h₂ h₃ h₄ => simp [h₄] at hsink
        | taken h₁ h₂ h₃ h₄ => simp [h₄] at hsink
        | closed sink how h₁ h₂ h₃ h₄ h₅ h₆ h₇ =>
            obtain ⟨rfl, rfl⟩ := sink_of_getElem? h₃ hsink
            simp [h₇] at htx
        | ended sink how h₁ h₂ h₃ h₄ h₅ h₆ h₇ =>
            obtain ⟨rfl, rfl⟩ := sink_of_getElem? h₃ hsink
            simp [h₇] at htx
  | sinkFinish i how =>
      obtain ⟨sink', hsink, htx, rfl⟩ := Job.sinkFinish_some h
      cases phase with
      | streaming sink h₁ h₂ h₃ h₄ h₅ h₆ h₇ h₈ h₉ =>
          obtain ⟨rfl, rfl⟩ := sink_of_getElem? h₃ hsink
          exact .closed ⟨false, sink'.bytes, some (how.state sink'.bytes)⟩ how h₁ h₂ (by simp [h₃]) h₄
            h₅ h₆ rfl rfl h₉
      | idle h₁ h₂ h₃ h₄ => simp [h₄] at hsink
      | taken h₁ h₂ h₃ h₄ => simp [h₄] at hsink
      | closed sink how h₁ h₂ h₃ h₄ h₅ h₆ h₇ =>
          obtain ⟨rfl, rfl⟩ := sink_of_getElem? h₃ hsink
          simp [h₇] at htx
      | ended sink how h₁ h₂ h₃ h₄ h₅ h₆ h₇ =>
          obtain ⟨rfl, rfl⟩ := sink_of_getElem? h₃ hsink
          simp [h₇] at htx
  | sinkPublish i =>
      obtain ⟨sink', state, hsink, hending, rfl⟩ := Job.sinkPublish_some h
      cases phase with
      | closed sink how h₁ h₂ h₃ h₄ h₅ h₆ h₇ h₈ h₉ =>
          obtain ⟨rfl, rfl⟩ := sink_of_getElem? h₃ hsink
          obtain rfl : how.state sink'.bytes = state := by simpa [h₈] using hending
          exact .ended ⟨sink'.tx, sink'.bytes, none⟩ how h₁ h₂ (by simp [h₃]) h₄ h₅ rfl h₇ rfl h₉
      | idle h₁ h₂ h₃ h₄ => simp [h₄] at hsink
      | taken h₁ h₂ h₃ h₄ => simp [h₄] at hsink
      | streaming sink h₁ h₂ h₃ h₄ h₅ h₆ h₇ h₈ =>
          obtain ⟨rfl, rfl⟩ := sink_of_getElem? h₃ hsink
          simp [h₈] at hending
      | ended sink how h₁ h₂ h₃ h₄ h₅ h₆ h₇ h₈ =>
          obtain ⟨rfl, rfl⟩ := sink_of_getElem? h₃ hsink
          simp [h₈] at hending
  | deliverResult d =>
      obtain rfl := Option.some.inj h
      rcases j.deliverResult_cases d with heq | ⟨-, heq⟩
      · rw [heq]
        exact phase
      · rw [heq]
        exact phase.congr rfl rfl rfl rfl rfl rfl rfl
  | acceptResult i =>
      obtain ⟨-, d, -, rfl⟩ := Job.acceptResult_some h
      exact phase.congr rfl rfl rfl rfl rfl rfl (by rw [List.countP_append]; rfl)
  | sendResult i =>
      obtain ⟨d, -, ⟨-, rfl⟩ | ⟨-, rfl⟩⟩ := Job.sendResult_some h
      · exact phase.congr rfl rfl rfl rfl rfl rfl rfl
      · exact phase.congr rfl rfl rfl rfl rfl rfl (by rw [List.countP_append]; rfl)
  | failPending connection =>
      obtain ⟨-, rfl⟩ | ⟨-, -, ⟨-, rfl⟩ | ⟨-, rfl⟩⟩ := Job.failPending_some h
      · exact phase
      · exact phase.congr rfl rfl rfl rfl rfl rfl (by rw [List.countP_append]; rfl)
      · exact phase.congr rfl rfl rfl rfl rfl rfl
          (by rw [List.countP_append, List.countP_append]; rfl)
  | receive =>
      obtain rfl := Option.some.inj h
      exact phase.congr rfl rfl rfl rfl rfl rfl rfl
  | close =>
      obtain rfl := Option.some.inj h
      exact phase.congr rfl rfl rfl rfl rfl rfl rfl

/-- While the lock is free and the watch says `Pending`, no upload has started. -/
theorem UploadPhase.not_started {j : Job} (phase : UploadPhase j) (hlocked : j.locked = false)
    (hupload : j.upload = .pending) : ∀ e ∈ j.log, ¬ e.isStart = true := by
  cases phase with
  | idle h₁ h₂ h₃ h₄ h₅ h₆ => exact List.countP_eq_zero.mp h₆
  | taken h₁ h₂ => simp [h₂] at hlocked
  | streaming sink h₁ h₂ h₃ h₄ h₅ h₆ => simp [h₆] at hupload
  | closed sink how h₁ h₂ h₃ h₄ h₅ h₆ => simp [h₆] at hupload
  | ended sink how h₁ h₂ h₃ h₄ h₅ h₆ =>
      rw [h₆] at hupload
      cases how <;> cases hupload

/-! ## The result -/

/-- The result an event puts into the one-shot. -/
def Event.sent : Event → Option PcapResult
  | .resultSent d => some d.result
  | .disconnectSent _ => some disconnectError
  | _ => none

/-- The event forbids an upload from starting. -/
def Event.blocks : Event → Bool
  | .resultAccepted d => !promisesUpload d.result
  | .disconnected _ => true
  | _ => false

/-- The event accepts the outcome of the job, under the body lock. -/
def Event.accepts : Event → Bool
  | .resultAccepted _ => true
  | .disconnected _ => true
  | _ => false

/-- The event belongs to the token and to the connection of the job. -/
def Event.BoundTo (token : String) (connection : AgentConnectionId) : Event → Prop
  | .uploadStarted t => t = token
  | .resultAccepted d => d.connection = connection ∧ d.token = token
  | .resultSent d => d.connection = connection ∧ d.token = token
  | .disconnected c => c = connection
  | .disconnectSent c => c = connection

/-- The invariant of the result's delivery. -/
structure ResultInv (j : Job) : Prop where
  waiting : ∀ t ∈ j.beginning, t = j.token
  calls : ∀ d ∈ j.delivering ++ j.accepted, d.connection = j.connection ∧ d.token = j.token
  bound : ∀ e ∈ j.log, e.BoundTo j.token j.connection
  sent : j.log.countP (·.sent.isSome) = if j.resultTx then 0 else 1
  result : ∀ r, j.result = some r → ∃ e ∈ j.log, e.sent = some r
  blocked : (∃ e ∈ j.log, e.blocks = true) → j.uploadAllowed = false
  noLate : j.log.Pairwise fun e f => e.blocks = true → ¬ f.isStart = true
  order : j.upload = .pending → j.log.Pairwise fun e f => e.isStart = true → ¬ f.accepts = true

/-- A step that leaves the log and what it speaks of alone. -/
theorem ResultInv.congr {j j' : Job} (inv : ResultInv j) (htoken : j'.token = j.token)
    (hconnection : j'.connection = j.connection) (hlog : j'.log = j.log)
    (hresultTx : j'.resultTx = j.resultTx) (hresult : j'.result = j.result)
    (hallowed : j'.uploadAllowed = j.uploadAllowed)
    (hupload : j'.upload = .pending → j.upload = .pending)
    (hwaiting : ∀ t ∈ j'.beginning, t = j.token)
    (hcalls : ∀ d ∈ j'.delivering ++ j'.accepted, d.connection = j.connection ∧ d.token = j.token) :
    ResultInv j' := by
  constructor
  · rw [htoken]
    exact hwaiting
  · rw [htoken, hconnection]
    exact hcalls
  · rw [hlog, htoken, hconnection]
    exact inv.bound
  · rw [hlog, hresultTx]
    exact inv.sent
  · rw [hlog, hresult]
    exact inv.result
  · rw [hlog, hallowed]
    exact inv.blocked
  · rw [hlog]
    exact inv.noLate
  · rw [hlog]
    exact fun h => inv.order (hupload h)

/-- What an event leaves in the one-shot. -/
def Sends (j j' : Job) (e : Event) : Prop :=
  (e.sent = none ∧ j'.resultTx = j.resultTx ∧ j'.result = j.result) ∨
    (j.resultTx = true ∧ j'.resultTx = false ∧ ∃ r, e.sent = some r ∧ j'.result = some r)

/-- A step that appends an event to the log. -/
theorem ResultInv.push {j j' : Job} (inv : ResultInv j) {e : Event} (hlog : j'.log = j.log ++ [e])
    (htoken : j'.token = j.token) (hconnection : j'.connection = j.connection)
    (hwaiting : ∀ t ∈ j'.beginning, t = j.token)
    (hcalls : ∀ d ∈ j'.delivering ++ j'.accepted, d.connection = j.connection ∧ d.token = j.token)
    (hbound : e.BoundTo j.token j.connection) (hsends : Sends j j' e)
    (hstart : e.isStart = true → j.uploadAllowed = true)
    (hblocked : e.blocks = true ∨ j.uploadAllowed = false → j'.uploadAllowed = false)
    (hupload : j'.upload = .pending →
      j.upload = .pending ∧ (e.accepts = true → ∀ f ∈ j.log, ¬ f.isStart = true)) :
    ResultInv j' := by
  constructor
  · rw [htoken]
    exact hwaiting
  · rw [htoken, hconnection]
    exact hcalls
  · rw [hlog, htoken, hconnection]
    intro f hf
    rcases List.mem_append.mp hf with hf | hf
    · exact inv.bound f hf
    · obtain rfl := List.mem_singleton.mp hf
      exact hbound
  · rw [hlog, List.countP_append, List.countP_singleton, inv.sent]
    obtain ⟨hnone, hresultTx, -⟩ | ⟨hresultTx, hresultTx', r, hsome, -⟩ := hsends
    · simp [hnone, hresultTx]
    · simp [hsome, hresultTx, hresultTx']
  · intro r hr
    rw [hlog]
    obtain ⟨-, -, hresult⟩ | ⟨-, -, r', hsome, hresult⟩ := hsends
    · obtain ⟨f, hf, hfr⟩ := inv.result r (hresult ▸ hr)
      exact ⟨f, List.mem_append_left _ hf, hfr⟩
    · obtain rfl : r' = r := by simpa [hresult] using hr
      exact ⟨e, by simp, hsome⟩
  · rintro ⟨f, hf, hblocks⟩
    rw [hlog] at hf
    apply hblocked
    rcases List.mem_append.mp hf with hf | hf
    · exact Or.inr (inv.blocked ⟨f, hf, hblocks⟩)
    · obtain rfl := List.mem_singleton.mp hf
      exact Or.inl hblocks
  · rw [hlog, List.pairwise_append]
    refine ⟨inv.noLate, List.pairwise_singleton _ _, ?_⟩
    intro f hf g hg hblocks hisStart
    obtain rfl := List.mem_singleton.mp hg
    -- an upload starts only while uploads are allowed, and a blocking event forbids them
    have hallowed := hstart hisStart
    rw [inv.blocked ⟨f, hf, hblocks⟩] at hallowed
    cases hallowed
  · intro hpending
    obtain ⟨hpending, haccepts⟩ := hupload hpending
    rw [hlog, List.pairwise_append]
    refine ⟨inv.order hpending, List.pairwise_singleton _ _, ?_⟩
    intro f hf g hg hisStart hacc
    obtain rfl := List.mem_singleton.mp hg
    exact haccepts hacc f hf hisStart

/-- No end of an upload is published as `Pending`. -/
theorem UploadPhase.publish_ne_pending {j : Job} (phase : UploadPhase j) {i : ℕ} {sink : UploadSink}
    {state : UploadState} (hsink : j.sinks[i]? = some sink) (hending : sink.ending = some state) :
    state ≠ .pending := by
  cases phase with
  | closed sink' how h₁ h₂ h₃ h₄ h₅ h₆ h₇ h₈ =>
      obtain ⟨-, rfl⟩ := sink_of_getElem? h₃ hsink
      rw [h₈] at hending
      cases how <;> cases hending <;> simp [SinkEnd.state]
  | idle h₁ h₂ h₃ h₄ => simp [h₄] at hsink
  | taken h₁ h₂ h₃ h₄ => simp [h₄] at hsink
  | streaming sink' h₁ h₂ h₃ h₄ h₅ h₆ h₇ h₈ =>
      obtain ⟨-, rfl⟩ := sink_of_getElem? h₃ hsink
      simp [h₈] at hending
  | ended sink' how h₁ h₂ h₃ h₄ h₅ h₆ h₇ h₈ =>
      obtain ⟨-, rfl⟩ := sink_of_getElem? h₃ hsink
      simp [h₈] at hending

/-- A call that leaves its queue, and one that moves on to the next. -/
theorem forall_mem_eraseIdx {α : Type*} {P : α → Prop} {l : List α} (h : ∀ a ∈ l, P a) (i : ℕ) :
    ∀ a ∈ l.eraseIdx i, P a :=
  fun a ha => h a (List.mem_of_mem_eraseIdx ha)

/-- Every step of a job keeps the result's invariant. -/
theorem ResultInv.step {j j' : Job} (inv : ResultInv j) (phase : UploadPhase j) {op : JobOp}
    (h : j.step op = some j') : ResultInv j' := by
  have hdelivering : ∀ d ∈ j.delivering, d.connection = j.connection ∧ d.token = j.token :=
    fun d hd => inv.calls d (List.mem_append_left _ hd)
  have haccepted : ∀ d ∈ j.accepted, d.connection = j.connection ∧ d.token = j.token :=
    fun d hd => inv.calls d (List.mem_append_right _ hd)
  cases op with
  | beginUpload token =>
      obtain rfl := Option.some.inj h
      rcases j.beginUpload_cases token with heq | ⟨htoken, heq⟩
      · rw [heq]
        exact inv
      · rw [heq]
        refine inv.congr rfl rfl rfl rfl rfl rfl id ?_ inv.calls
        intro t ht
        rcases List.mem_append.mp ht with ht | ht
        · exact inv.waiting t ht
        · exact (List.mem_singleton.mp ht).trans htoken
  | takeSender i =>
      obtain ⟨-, token, htoken, rfl | ⟨hallowed, -, rfl⟩⟩ := Job.takeSender_some h
      · exact inv.congr rfl rfl rfl rfl rfl rfl id (forall_mem_eraseIdx inv.waiting i) inv.calls
      · refine inv.push (e := .uploadStarted token) rfl rfl rfl (forall_mem_eraseIdx inv.waiting i)
          inv.calls (inv.waiting token (List.mem_of_getElem? htoken)) (Or.inl ⟨rfl, rfl, rfl⟩)
          (fun _ => hallowed) ?_ (fun h => ⟨h, nofun⟩)
        rintro (h | h)
        · cases h
        · exact h
  | publishStreaming =>
      obtain ⟨-, rfl⟩ := Job.publishStreaming_some h
      exact inv.congr rfl rfl rfl rfl rfl rfl nofun inv.waiting inv.calls
  | sinkSend i chunk =>
      obtain ⟨⟨r, j''⟩, hsend, rfl⟩ := Option.map_eq_some_iff.mp h
      obtain ⟨-, -, rfl⟩ | ⟨-, sink, -, -, -, -, rfl⟩ := Job.sinkSend_some hsend
      · exact inv
      · exact inv.congr rfl rfl rfl rfl rfl rfl id inv.waiting inv.calls
  | sinkFinish i how =>
      obtain ⟨sink, -, -, rfl⟩ := Job.sinkFinish_some h
      exact inv.congr rfl rfl rfl rfl rfl rfl id inv.waiting inv.calls
  | sinkPublish i =>
      obtain ⟨sink, state, hsink, hending, rfl⟩ := Job.sinkPublish_some h
      exact inv.congr rfl rfl rfl rfl rfl rfl
        (fun hpending => absurd hpending (phase.publish_ne_pending hsink hending))
        inv.waiting inv.calls
  | deliverResult d =>
      obtain rfl := Option.some.inj h
      rcases j.deliverResult_cases d with heq | ⟨hbound, heq⟩
      · rw [heq]
        exact inv
      · rw [heq]
        refine inv.congr rfl rfl rfl rfl rfl rfl id inv.waiting ?_
        intro d' hd'
        simp only [List.mem_append, List.mem_singleton] at hd'
        rcases hd' with (hd' | rfl) | hd'
        · exact hdelivering d' hd'
        · exact hbound
        · exact haccepted d' hd'
  | acceptResult i =>
      obtain ⟨hlocked, d, hd, rfl⟩ := Job.acceptResult_some h
      have hbound := hdelivering d (List.mem_of_getElem? hd)
      refine inv.push (e := .resultAccepted d) rfl rfl rfl inv.waiting ?_ hbound
        (Or.inl ⟨rfl, rfl, rfl⟩) nofun ?_ ?_
      · intro d' hd'
        simp only [List.mem_append, List.mem_singleton] at hd'
        rcases hd' with hd' | hd' | rfl
        · exact hdelivering d' (List.mem_of_mem_eraseIdx hd')
        · exact haccepted d' hd'
        · exact hbound
      · rintro (h | h)
        · simp [show promisesUpload d.result = false by simpa [Event.blocks] using h]
        · simp [h]
      · exact fun hpending => ⟨hpending, fun _ => phase.not_started hlocked hpending⟩
  | sendResult i =>
      obtain ⟨d, hd, ⟨-, rfl⟩ | ⟨htx, rfl⟩⟩ := Job.sendResult_some h
      · refine inv.congr rfl rfl rfl rfl rfl rfl id inv.waiting ?_
        intro d' hd'
        rcases List.mem_append.mp hd' with hd' | hd'
        · exact hdelivering d' hd'
        · exact haccepted d' (List.mem_of_mem_eraseIdx hd')
      · refine inv.push (e := .resultSent d) rfl rfl rfl inv.waiting ?_
          (haccepted d (List.mem_of_getElem? hd)) (Or.inr ⟨htx, rfl, _, rfl, rfl⟩) nofun ?_
          (fun h => ⟨h, nofun⟩)
        · intro d' hd'
          rcases List.mem_append.mp hd' with hd' | hd'
          · exact hdelivering d' hd'
          · exact haccepted d' (List.mem_of_mem_eraseIdx hd')
        · rintro (h | h)
          · cases h
          · exact h
  | failPending connection =>
      obtain ⟨-, rfl⟩ | ⟨rfl, hlocked, ⟨htx, rfl⟩ | ⟨htx, rfl⟩⟩ := Job.failPending_some h
      · exact inv
      · exact inv.push (e := .disconnected j.connection) rfl rfl rfl inv.waiting inv.calls rfl
          (Or.inl ⟨rfl, rfl, rfl⟩) nofun (fun _ => rfl)
          (fun hpending => ⟨hpending, fun _ => phase.not_started hlocked hpending⟩)
      · -- first the upload is forbidden, then the error is sent
        have inv₁ : ResultInv { j with
            uploadAllowed := false, log := j.log ++ [.disconnected j.connection] } :=
          inv.push (e := .disconnected j.connection) rfl rfl rfl inv.waiting inv.calls rfl
            (Or.inl ⟨rfl, rfl, rfl⟩) nofun (fun _ => rfl)
            (fun hpending => ⟨hpending, fun _ => phase.not_started hlocked hpending⟩)
        exact inv₁.push (e := .disconnectSent j.connection) rfl rfl rfl inv₁.waiting inv₁.calls rfl
          (Or.inr ⟨htx, rfl, _, rfl, rfl⟩) nofun (fun _ => rfl) (fun h => ⟨h, nofun⟩)
  | receive =>
      obtain rfl := Option.some.inj h
      exact inv.congr rfl rfl rfl rfl rfl rfl id inv.waiting inv.calls
  | close =>
      obtain rfl := Option.some.inj h
      exact inv.congr rfl rfl rfl rfl rfl rfl id inv.waiting inv.calls

/-- The invariant of a job. -/
structure JobInv (j : Job) : Prop where
  phase : UploadPhase j
  results : ResultInv j

theorem JobInv.new (token agent : String) (generation maxBytes : ℕ) :
    JobInv (.new token agent generation maxBytes) where
  phase := .idle rfl rfl rfl rfl rfl rfl
  results := by constructor <;> simp [Job.new]

theorem JobInv.step {j j' : Job} (inv : JobInv j) {op : JobOp} (h : j.step op = some j') :
    JobInv j' :=
  ⟨inv.phase.step h, inv.results.step inv.phase h⟩

/-! ## Runs of the registry -/

/-- Every job of the registry keeps its invariant. -/
def RegistryInv (s : Registry) : Prop := ∀ j ∈ s.jobs, JobInv j

theorem RegistryInv.jobStep {s s' : Registry} (inv : RegistryInv s) {r : ℕ} {op : JobOp}
    (h : s.jobStep r op = some s') : RegistryInv s' := by
  unfold Registry.jobStep at h
  split at h
  · cases h
  · rename_i j hj
    obtain ⟨j', hstep, rfl⟩ := Option.map_eq_some_iff.mp h
    intro k hk
    rcases List.mem_or_eq_of_mem_set hk with hk | rfl
    · exact inv k hk
    · exact (inv j (List.mem_of_getElem? hj)).step hstep

theorem RegistryInv.call {s s' : Registry} (inv : RegistryInv s) {id : String} {op : JobOp}
    (h : s.call id op = some s') : RegistryInv s' := by
  unfold Registry.call at h
  split at h
  · obtain rfl := Option.some.inj h
    exact inv
  · exact inv.jobStep h

theorem RegistryInv.step {s s' : Registry} (inv : RegistryInv s) {op : RegistryOp}
    (h : s.step op = some s') : RegistryInv s' := by
  cases op with
  | register id token agent generation maxBytes =>
      simp only [Registry.step] at h
      split at h
      · obtain rfl := Option.some.inj h
        unfold Registry.register
        split
        · exact inv
        · intro j hj
          rcases List.mem_append.mp hj with hj | hj
          · exact inv j hj
          · obtain rfl := List.mem_singleton.mp hj
            exact .new token agent generation maxBytes
      · cases h
  | remove id token =>
      simp only [Registry.step] at h
      split at h
      · obtain rfl := Option.some.inj h
        unfold Registry.remove
        dsimp only
        split <;> exact inv
      · cases h
  | beginUpload id token => exact inv.call h
  | result id delivery => exact inv.call h
  | disconnected connection =>
      obtain rfl := Option.some.inj h
      exact inv
  | sweep i k =>
      simp only [Registry.step] at h
      split at h
      · cases h
      · split at h
        · cases h
        · obtain ⟨s₁, hstep, rfl⟩ := Option.map_eq_some_iff.mp h
          have inv₁ : RegistryInv s₁ := inv.jobStep hstep
          exact inv₁
  | sweepEnd i =>
      simp only [Registry.step] at h
      split at h
      · obtain rfl := Option.some.inj h
        exact inv
      · cases h
  | job r op =>
      simp only [Registry.step] at h
      split at h
      · cases h
      · exact inv.jobStep h

/-- What the registry promises of a job. The log lists the job's events in the order in which they
happened. -/
structure JobLaw (j : Job) : Prop where
  /-- At most one sink is ever handed out. -/
  one_sink : j.sinks.length ≤ 1
  /-- A sink is handed out for the token of the job. -/
  sink_started : j.sinks ≠ [] → .uploadStarted j.token ∈ j.log
  sink_token : ∀ token, .uploadStarted token ∈ j.log → token = j.token
  /-- At most one result is delivered. -/
  one_result : j.log.countP (·.sent.isSome) ≤ 1
  /-- It came in on the job's connection with the job's token, or it is that connection's disconnect
  error. -/
  result_sender : ∀ r, j.result = some r →
    (∃ d, .resultSent d ∈ j.log ∧ d.result = r ∧ d.connection = j.connection ∧ d.token = j.token) ∨
      .disconnectSent j.connection ∈ j.log ∧ r = disconnectError
  /-- No upload starts after a result that promises none, nor after a disconnect that found the job. -/
  no_late_upload : j.log.Pairwise fun e f => e.blocks = true → ¬ f.isStart = true
  /-- While the upload watch says `Pending`, nothing has been accepted after the start of an upload. -/
  no_stale_pending : j.upload = .pending →
    j.log.Pairwise fun e f => e.isStart = true → ¬ f.accepts = true
  /-- The bytes forwarded never exceed the job's limit. -/
  bounded : totalLength j.forwarded ≤ j.maxBytes
  /-- A complete upload reports the bytes forwarded. -/
  complete_bytes : ∀ n, j.upload = .complete n → n = totalLength j.forwarded

theorem UploadPhase.sinks_length {j : Job} (phase : UploadPhase j) :
    j.sinks.length ≤ j.log.countP Event.isStart ∧ j.log.countP Event.isStart ≤ 1 := by
  cases phase with
  | idle h₁ h₂ h₃ h₄ h₅ h₆ => simp [h₄, h₆]
  | taken h₁ h₂ h₃ h₄ h₅ h₆ => simp [h₄, h₆]
  | streaming sink h₁ h₂ h₃ h₄ h₅ h₆ h₇ h₈ h₉ => simp [h₃, h₉]
  | closed sink how h₁ h₂ h₃ h₄ h₅ h₆ h₇ h₈ h₉ => simp [h₃, h₉]
  | ended sink how h₁ h₂ h₃ h₄ h₅ h₆ h₇ h₈ h₉ => simp [h₃, h₉]

theorem UploadPhase.bounded {j : Job} (phase : UploadPhase j) :
    totalLength j.forwarded ≤ j.maxBytes := by
  cases phase with
  | idle h₁ h₂ h₃ h₄ h₅ => simp [h₅, totalLength]
  | taken h₁ h₂ h₃ h₄ h₅ => simp [h₅, totalLength]
  | streaming sink h₁ h₂ h₃ h₄ h₅ => exact h₄ ▸ h₅
  | closed sink how h₁ h₂ h₃ h₄ h₅ => exact h₄ ▸ h₅
  | ended sink how h₁ h₂ h₃ h₄ h₅ => exact h₄ ▸ h₅

/-- Only the clean end of the sink is published as `Complete`. -/
theorem UploadPhase.complete_bytes {j : Job} (phase : UploadPhase j) {n : ℕ}
    (h : j.upload = .complete n) : n = totalLength j.forwarded := by
  cases phase with
  | idle h₁ h₂ h₃ => simp [h₃] at h
  | taken h₁ h₂ h₃ => simp [h₃] at h
  | streaming sink h₁ h₂ h₃ h₄ h₅ h₆ => simp [h₆] at h
  | closed sink how h₁ h₂ h₃ h₄ h₅ h₆ => simp [h₆] at h
  | ended sink how h₁ h₂ h₃ h₄ h₅ h₆ =>
      rw [h₆] at h
      cases how with
      | complete =>
          cases h
          exact h₄
      | fail reason => cases h
      | drop => cases h

/-- The promises follow from the invariant. -/
theorem JobInv.law {j : Job} (inv : JobInv j) : JobLaw j := by
  obtain ⟨hsinks, hone⟩ := inv.phase.sinks_length
  have htoken : ∀ token, .uploadStarted token ∈ j.log → token = j.token :=
    fun token h => inv.results.bound _ h
  constructor
  · omega
  · intro hne
    have hpos : 0 < j.log.countP Event.isStart :=
      Nat.lt_of_lt_of_le (List.length_pos_of_ne_nil hne) hsinks
    obtain ⟨e, he, hstart⟩ := List.countP_pos_iff.mp hpos
    cases e with
    | uploadStarted token => exact htoken token he ▸ he
    | resultAccepted d => cases hstart
    | resultSent d => cases hstart
    | disconnected c => cases hstart
    | disconnectSent c => cases hstart
  · exact htoken
  · rw [inv.results.sent]
    split <;> omega
  · intro r hr
    obtain ⟨e, he, hsent⟩ := inv.results.result r hr
    have hbound := inv.results.bound e he
    cases e with
    | resultSent d => exact Or.inl ⟨d, he, Option.some.inj hsent, hbound.1, hbound.2⟩
    | disconnectSent c =>
        obtain rfl : c = j.connection := hbound
        exact Or.inr ⟨he, (Option.some.inj hsent).symm⟩
    | uploadStarted token => cases hsent
    | resultAccepted d => cases hsent
    | disconnected c => cases hsent
  · exact inv.results.noLate
  · exact inv.results.order
  · exact inv.phase.bounded
  · exact fun n h => inv.phase.complete_bytes h

/-- In every run of the registry, every job keeps the promises. -/
theorem registry_law {ops : List RegistryOp} {s : Registry}
    (h : exec Registry.step .new ops = some s) : ∀ j ∈ s.jobs, JobLaw j := by
  have inv : RegistryInv s :=
    invariant (fun _ _ _ inv h => RegistryInv.step inv h) (by simp [RegistryInv, Registry.new]) h
  exact fun j hj => (inv j hj).law

/-- An upload of two bytes, with the result sent in between. -/
def uploadRun : List RegistryOp :=
  [.register "job" "secret" "sensor" 7 8, .beginUpload "job" "secret", .job 0 (.takeSender 0),
    .result "job" ⟨⟨"sensor", 7⟩, "secret", ⟨.complete, .complete, none, some {}⟩⟩,
    .job 0 .publishStreaming, .job 0 (.sinkSend 0 [1, 2]), .job 0 (.acceptResult 0),
    .job 0 (.sendResult 0), .job 0 (.sinkFinish 0 .complete), .job 0 (.sinkPublish 0)]

theorem registry_law_uploadRun :
    ∃ s, exec Registry.step .new uploadRun = some s ∧ s.jobs.length = 1 ∧
      ∀ j ∈ s.jobs, JobLaw j := by
  have hrun : (exec Registry.step .new uploadRun).map (·.jobs.length) = some 1 := by decide +kernel
  obtain ⟨s, hs, hlength⟩ := Option.map_eq_some_iff.mp hrun
  exact ⟨s, hs, hlength, registry_law hs⟩

/-- The connection's disconnect, swept to its end, and then an upload of a job registered for it. -/
def disconnectFirst : List RegistryOp :=
  [.disconnected ⟨"sensor", 7⟩, .sweepEnd 0, .register "job" "secret" "sensor" 7 8,
    .beginUpload "job" "secret", .job 0 (.takeSender 0), .job 0 .publishStreaming]

/-- A disconnect does not keep an upload of a job registered later from starting. -/
theorem disconnectFirst_uploads :
    ∃ s, exec Registry.step .new disconnectFirst = some s ∧
      ∃ j ∈ s.jobs, j.connection = ⟨"sensor", 7⟩ ∧ .uploadStarted "secret" ∈ j.log ∧
        j.sinks.length = 1 := by
  have hrun : (exec Registry.step .new disconnectFirst).map (fun s => s.jobs.map fun j =>
      (j.connection, j.log, j.sinks.length)) =
        some [(⟨"sensor", 7⟩, [.uploadStarted "secret"], 1)] := by decide +kernel
  obtain ⟨s, hs, hjobs⟩ := Option.map_eq_some_iff.mp hrun
  obtain ⟨j, hj, hjob⟩ : ∃ j ∈ s.jobs, (j.connection, j.log, j.sinks.length) =
      (⟨"sensor", 7⟩, [.uploadStarted "secret"], 1) := by
    rw [← List.mem_map, hjobs]
    exact List.mem_cons_self
  simp only [Prod.mk.injEq] at hjob
  exact ⟨s, hs, j, hj, hjob.1, by rw [hjob.2.1]; exact List.mem_cons_self, hjob.2.2⟩

end EveBox.Server
