import EveBox.Agent.JobTheorems

/-!
# A job of the agent comes to its end

* `AgentJob.Launched` — a worker that waits for its fetch has one, and a worker that is done has none left.
* `AgentJob.step_rank` — every step of a job but a cancellation brings it nearer to its end.
* `AgentJob.exists_step` — without a blocking task, a worker that is not done can make a step.
-/

namespace EveBox.Agent

open Rust Pcap

namespace AgentJob

variable {j j' : AgentJob}

/-! ## The fetch of a worker -/

/-- Whether there is a fetch, by where the worker is. -/
def Launched (j : AgentJob) : Prop :=
  match j.phase with
  | .starting | .failed _ => True
  | .waitingFirst | .uploading _ | .stopping _ _ _ => j.producer ≠ .idle
  | .done _ => j.producer.alive = false

theorem Launched.new (script : Script) (startUs endUs : ℕ) : (new script startUs endUs).Launched :=
  trivial

/-- A step that changes neither where the worker is nor its fetch. -/
theorem Launched.congr (h : j.Launched) (hphase : j'.phase = j.phase)
    (hproducer : j'.producer = j.producer) : j'.Launched := by
  unfold Launched at h ⊢
  rw [hphase, hproducer]
  exact h

/-- A fetch that has been joined is at its end. -/
theorem Fetched.not_alive {fetched : Option FetchJoin} (h : j.Fetched fetched) {f : FetchJoin}
    (hf : fetched = some f) : j.producer.alive = false := by
  rw [(h f hf).2]
  rfl

/-- A worker is done only when its blocking task is gone. -/
theorem Launched.settle (inv : AgentInv j) (h : j.settle = some j') : j'.Launched := by
  have hinv := inv.phase
  unfold AgentJob.settle at h
  split at h
  · rename_i hphase
    rw [PhaseInv, hphase] at hinv
    obtain rfl := Option.some.inj h
    exact hinv.2.2.1.not_alive rfl
  · rename_i hphase
    rw [PhaseInv, hphase] at hinv
    obtain ⟨f, hf, rfl⟩ := Option.map_eq_some_iff.mp h
    show j.producer.alive = false
    unfold fetchJoin at hf
    split at hf
    · exact hinv.1.not_alive rfl
    · split at hf
      · rename_i hended
        rw [hended]
        rfl
      · cases hf
  · split at h
    · cases h
    · rename_i halive
      obtain rfl := Option.some.inj h
      exact Bool.eq_false_of_not_eq_true halive
  · cases h

/-- Every step of a job keeps the fetch of its worker. -/
theorem Launched.step (hl : j.Launched) (inv : AgentInv j) {op : AgentOp}
    (h : j.step op = some j') : j'.Launched := by
  have hinv := inv.phase
  cases op with
  | start permit =>
      simp only [AgentJob.step, AgentJob.start] at h
      split at h
      · rename_i hphase
        rw [PhaseInv, hphase] at hinv
        have hidle : j.producer.alive = false := by rw [hinv.2.1]; rfl
        split at h
        · obtain rfl := Option.some.inj h
          exact hidle
        · split at h
          · obtain rfl := Option.some.inj h
            exact hidle
          · split at h <;> obtain rfl := Option.some.inj h
            · exact hidle
            · exact Producer.noConfusion
      · cases h
  | produce =>
      simp only [AgentJob.step, AgentJob.produce] at h
      split at h
      · rename_i hproducer
        split at h
        · obtain rfl := Option.some.inj h
          unfold Launched at hl ⊢
          dsimp only
          split
          · trivial
          · trivial
          · rintro ⟨⟩
          · rintro ⟨⟩
          · rintro ⟨⟩
          · rename_i hphase
            rw [hphase, hproducer] at hl
            cases hl
        · cases h
      · cases h
  | fetchEnd =>
      simp only [AgentJob.step, AgentJob.fetchEnd] at h
      split at h
      · split at h
        · cases h
        · obtain rfl := Option.some.inj h
          unfold Launched
          dsimp only
          split
          · trivial
          · trivial
          · rintro ⟨⟩
          · rintro ⟨⟩
          · rintro ⟨⟩
          · rfl
      · cases h
  | cancel =>
      obtain rfl := Option.some.inj h
      exact hl.congr rfl rfl
  | cancelSeen =>
      simp only [AgentJob.step, AgentJob.cancelSeen] at h
      split at h
      · cases h
      · split at h
        · rename_i hphase
          obtain rfl := Option.some.inj h
          rw [Launched, hphase] at hl
          exact hl
        · rename_i hphase
          rw [Launched, hphase] at hl
          split at h
          · cases h
          · obtain rfl := Option.some.inj h
            show j.abortUpload.producer ≠ _
            unfold abortUpload
            split <;> exact hl
        · cases h
  | first =>
      simp only [AgentJob.step, AgentJob.first] at h
      split at h
      · rename_i hphase _
        rw [Launched, hphase] at hl
        obtain rfl := Option.some.inj h
        exact hl
      · rename_i hphase _
        rw [Launched, hphase] at hl
        split at h
        · cases h
        · obtain rfl := Option.some.inj h
          exact hl
      · cases h
  | fetched =>
      simp only [AgentJob.step, AgentJob.fetched] at h
      split at h
      · rename_i hproducer
        obtain rfl := Option.some.inj h
        show j.producer ≠ _
        rw [hproducer]
        rintro ⟨⟩
      · cases h
  | uploaded =>
      simp only [AgentJob.step, AgentJob.uploaded] at h
      split at h
      · rename_i hphase _
        rw [Launched, hphase] at hl
        split at h <;> obtain rfl := Option.some.inj h <;> exact hl
      · cases h
  | progress =>
      simp only [AgentJob.step, AgentJob.progress] at h
      split at h
      · rename_i hphase _
        rw [Launched, hphase] at hl
        split at h
        · obtain rfl := Option.some.inj h
          exact hl
        · split at h
          · cases h
          · obtain rfl := Option.some.inj h
            exact hl
      · cases h
  | stalled =>
      simp only [AgentJob.step, AgentJob.stalled] at h
      split at h
      · rename_i hphase
        rw [Launched, hphase] at hl
        obtain rfl := Option.some.inj h
        show j.abortUpload.producer ≠ _
        unfold abortUpload
        split <;> exact hl
      · cases h
  | settle => exact .settle inv h
  | fail err =>
      simp only [AgentJob.step, AgentJob.fail] at h
      split at h
      · cases h
      · split at h <;> obtain rfl := Option.some.inj h <;> trivial

/-! ## How far a job is from its end -/

end AgentJob

/-- The steps that the worker has still to make, at most. -/
def JobPhase.rank : JobPhase → ℕ
  | .starting => 8
  | .waitingFirst => 7
  | .uploading u =>
      3 + (if u.fetched.isNone then 1 else 0) + (if u.uploaded.isNone then 1 else 0) +
        (if u.progressOpen then 1 else 0)
  | .stopping _ _ _ => 2
  | .failed _ => 1
  | .done _ => 0

/-- The fetch has still to hand over this many chunks, and to end. -/
def Producer.rank (script : Script) : Producer → ℕ
  | .idle => 3 * script.chunks.length + 1
  | .running rest => 3 * rest.length + 1
  | .ended => 0

/-- A body has still to be ended, and its progress to be seen. -/
def UploadBody.rank (b : UploadBody) : ℕ :=
  2 * b.first.toList.length + (if b.stopped then 0 else 2) + (if b.changed then 1 else 0)

def UploadTask.rank : UploadTask → ℕ
  | .absent | .running => 1
  | _ => 0

namespace AgentJob

/-- A bound on the steps that can happen to a job, apart from cancellations. -/
def rank (j : AgentJob) : ℕ :=
  j.phase.rank + j.producer.rank j.script + 2 * j.chunks.queue.length + (j.body.elim 2 (·.rank)) +
    j.upload.rank

variable {j j' : AgentJob}

theorem rank_uploading_pos (u : UploadLoop) : 3 ≤ (JobPhase.uploading u).rank := by
  simp only [JobPhase.rank]
  omega

/-- The rank, when only the worker's phase changes. -/
theorem rank_move {phase : JobPhase} (h : phase.rank < j.phase.rank) :
    ({ j with phase } : AgentJob).rank < j.rank := by
  simp only [rank]
  omega

/-- An upload that is given up brings the worker to `stopping`. -/
theorem abortUpload_rank (j : AgentJob) (upload : PcapUploadStatus) (uploadError : Option String)
    (fetched : Option FetchJoin) :
    (j.abortUpload.stopFetch upload uploadError fetched).rank + j.phase.rank ≤ j.rank + 2 := by
  unfold abortUpload
  split
  · rename_i hupload
    simp only [rank, stopFetch, dropReceiver, hupload, UploadTask.rank, JobPhase.rank]
    omega
  · simp only [rank, stopFetch, JobPhase.rank]
    omega

/-- Every step of a job but a cancellation brings it nearer to its end. -/
theorem step_rank (inv : AgentInv j) {op : AgentOp} (hop : op ≠ .cancel)
    (h : j.step op = some j') : j'.rank < j.rank := by
  cases op with
  | start permit =>
      simp only [AgentJob.step, AgentJob.start] at h
      split at h
      · rename_i hphase
        have hdone : ∀ r, (j.finish r).rank < j.rank := by
          intro r
          apply rank_move
          simp only [hphase, JobPhase.rank]
          omega
        split at h
        · obtain rfl := Option.some.inj h
          exact hdone _
        · split at h
          · obtain rfl := Option.some.inj h
            exact hdone _
          · split at h <;> obtain rfl := Option.some.inj h
            · exact hdone _
            · have hinv := inv.phase
              rw [PhaseInv, hphase] at hinv
              simp only [rank, hphase, hinv.2.1, JobPhase.rank, Producer.rank]
              omega
      · cases h
  | produce =>
      simp only [AgentJob.step, AgentJob.produce] at h
      split at h
      · rename_i hproducer
        split at h
        · rename_i hsend
          obtain ⟨-, rfl⟩ := Channel.trySend_ok hsend
          obtain rfl := Option.some.inj h
          simp only [rank, hproducer, Producer.rank, Channel.push, List.length_append,
            List.length_cons, List.length_nil]
          omega
        · cases h
      · cases h
  | fetchEnd =>
      simp only [AgentJob.step, AgentJob.fetchEnd] at h
      split at h
      · rename_i hproducer
        split at h
        · cases h
        · obtain rfl := Option.some.inj h
          simp only [rank, hproducer, Producer.rank]
          omega
      · cases h
  | cancel => exact absurd rfl hop
  | cancelSeen =>
      simp only [AgentJob.step, AgentJob.cancelSeen] at h
      split at h
      · cases h
      · split at h
        · rename_i hphase
          obtain rfl := Option.some.inj h
          simp only [rank, stopFetch, dropReceiver, hphase, JobPhase.rank]
          omega
        · rename_i u hphase
          split at h
          · cases h
          · obtain rfl := Option.some.inj h
            have habort := j.abortUpload_rank .failed none u.fetched
            have hpos := rank_uploading_pos u
            rw [hphase] at habort
            omega
        · cases h
  | first =>
      simp only [AgentJob.step, AgentJob.first] at h
      split at h
      · rename_i hphase hqueue
        have hinv := inv.phase
        rw [PhaseInv, hphase] at hinv
        obtain rfl := Option.some.inj h
        have habsent := (inv.unposted hinv.1).2
        simp only [rank, hphase, hqueue, hinv.1, habsent, JobPhase.rank, UploadBody.new, UploadBody.rank,
          UploadTask.rank, Option.elim, Option.toList, List.length_cons, List.length_nil]
        simp
        omega
      · rename_i hphase _
        split at h
        · cases h
        · obtain rfl := Option.some.inj h
          simp only [rank, dropReceiver, hphase, JobPhase.rank]
          omega
      · cases h
  | fetched =>
      simp only [AgentJob.step, AgentJob.fetched] at h
      split at h
      · rename_i hphase _
        obtain rfl := Option.some.inj h
        apply rank_move
        simp [hphase, JobPhase.rank]
      · cases h
  | uploaded =>
      simp only [AgentJob.step, AgentJob.uploaded] at h
      split at h
      · rename_i hphase _
        split at h <;> obtain rfl := Option.some.inj h
        · apply rank_move
          simp [hphase, JobPhase.rank]
        · simp only [rank, stopFetch, hphase, JobPhase.rank]
          simp
          omega
      · cases h
  | progress =>
      simp only [AgentJob.step, AgentJob.progress] at h
      split at h
      · rename_i hphase hbody
        split at h
        · rename_i hchanged
          obtain rfl := Option.some.inj h
          simp only [rank, hphase, hbody, Option.elim, UploadBody.rank, hchanged, JobPhase.rank]
          simp
        · split at h
          · cases h
          · obtain rfl := Option.some.inj h
            apply rank_move
            simp [hphase, JobPhase.rank]
      · cases h
  | stalled =>
      simp only [AgentJob.step, AgentJob.stalled] at h
      split at h
      · rename_i fetched bodyEof progressOpen hphase
        obtain rfl := Option.some.inj h
        have habort := abortUpload_rank j .failed
          (some (if bodyEof then "PCAP upload response timed out after body EOF (60s)"
            else "PCAP upload made no progress for 60s")) fetched
        have hpos := rank_uploading_pos ⟨fetched, none, bodyEof, progressOpen⟩
        rw [hphase] at habort
        omega
      · cases h
  | settle =>
      simp only [AgentJob.step, AgentJob.settle] at h
      split at h
      · rename_i hphase
        obtain rfl := Option.some.inj h
        apply rank_move
        simp only [hphase, JobPhase.rank]
        omega
      · rename_i hphase
        obtain ⟨f, -, rfl⟩ := Option.map_eq_some_iff.mp h
        apply rank_move
        simp [hphase, JobPhase.rank]
      · rename_i hphase
        split at h
        · cases h
        · obtain rfl := Option.some.inj h
          apply rank_move
          simp [hphase, JobPhase.rank]
      · cases h
  | fail err =>
      simp only [AgentJob.step, AgentJob.fail] at h
      split at h
      · cases h
      · rename_i hworking
        have hphase : (JobPhase.failed err).rank < j.phase.rank := by
          unfold working at hworking
          split at hworking <;> rename_i hphase
          · simp at hworking
          · simp at hworking
          · cases hcase : j.phase <;> simp_all [JobPhase.rank]
            omega
        split at h <;> obtain rfl := Option.some.inj h
        · exact rank_move hphase
        · exact rank_move hphase

/-- The same of a poll of the body, unless the body has ended before. -/
theorem pollBody_rank {p : BodyPoll} (h : j.pollBody = some (p, j')) : j' = j ∨ j'.rank < j.rank := by
  obtain ⟨body, hbody, hcase⟩ := pollBody_some h
  rcases hcase with ⟨-, -, rfl⟩ | ⟨-, hstopped, rfl⟩ | ⟨-, hstopped, -, -, -, rfl⟩ |
    ⟨chunk, body', chunks, -, hstopped, hstopped', hchunk, rfl⟩
  · exact Or.inl rfl
  · right
    simp only [rank, hbody, Option.elim, UploadBody.rank, UploadBody.stop, UploadBody.report, hstopped]
    simp
    omega
  · right
    simp only [rank, hbody, Option.elim, UploadBody.rank, UploadBody.stop, UploadBody.report, hstopped]
    simp
    omega
  · right
    have hlength := congrArg List.length hchunk
    rw [List.length_append, List.length_cons, List.length_append] at hlength
    have hchanged : (if body'.changed then 1 else 0) ≤ 1 := by split <;> omega
    simp only [rank, hbody, Option.elim, UploadBody.rank, hstopped, hstopped']
    omega

theorem uploadEnd_rank {join : UploadJoin} (h : j.uploadEnd join = some j') : j'.rank < j.rank := by
  unfold uploadEnd at h
  split at h
  · rename_i hrunning
    obtain rfl := Option.some.inj h
    simp only [rank, dropReceiver, hrunning, UploadTask.rank]
    omega
  · cases h

/-! ## No job gets stuck -/

/-- The steps that the worker makes by itself. -/
def ofWorker : AgentOp → Bool
  | .produce | .fetchEnd | .cancel | .fail _ => false
  | _ => true

/-- Without a blocking task, a worker that is not done can make a step. -/
theorem exists_step (inv : AgentInv j) (hl : j.Launched) (halive : j.producer.alive = false)
    (hdone : ∀ r, j.phase ≠ .done r) : ∃ op j', ofWorker op = true ∧ j.step op = some j' := by
  have hinv := inv.phase
  -- where the worker waits for its fetch, the fetch is over
  have hended : j.producer ≠ .idle → j.producer = .ended := by
    intro hidle
    cases hproducer : j.producer with
    | idle => exact absurd hproducer hidle
    | running rest =>
        rw [hproducer] at halive
        cases halive
    | ended => rfl
  rw [PhaseInv] at hinv
  rw [Launched] at hl
  cases hphase : j.phase with
  | starting =>
      refine ⟨.start true, ?_⟩
      simp only [AgentJob.step, start, hphase]
      split
      · exact ⟨_, rfl, rfl⟩
      · split
        · exact ⟨_, rfl, rfl⟩
        · exact ⟨_, rfl, rfl⟩
  | waitingFirst =>
      refine ⟨.first, ?_⟩
      simp only [AgentJob.step, first, hphase]
      cases j.chunks.queue with
      | nil => exact ⟨_, rfl, by rw [halive]; rfl⟩
      | cons chunk queue => exact ⟨_, rfl, rfl⟩
  | uploading u =>
      rw [hphase] at hl
      obtain ⟨fetched, uploaded, bodyEof, progressOpen⟩ := u
      cases fetched with
      | none => exact ⟨.fetched, _, rfl, by simp only [AgentJob.step, AgentJob.fetched, hphase, hended hl]; rfl⟩
      | some f =>
          cases uploaded with
          | none => exact ⟨.stalled, _, rfl, by simp only [AgentJob.step, stalled, hphase]; rfl⟩
          | some join => exact ⟨.settle, _, rfl, by simp only [AgentJob.step, settle, hphase]; rfl⟩
  | stopping upload uploadError fetched =>
      rw [hphase] at hl
      refine ⟨.settle, ?_⟩
      simp only [AgentJob.step, settle, hphase, fetchJoin]
      cases fetched with
      | none =>
          rw [if_pos (hended hl)]
          exact ⟨_, rfl, rfl⟩
      | some f => exact ⟨_, rfl, rfl⟩
  | failed err =>
      refine ⟨.settle, ?_⟩
      simp only [AgentJob.step, settle, hphase, halive]
      exact ⟨_, rfl, rfl⟩
  | done r => exact absurd hphase (hdone r)

end AgentJob

end EveBox.Agent
