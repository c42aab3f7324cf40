import EveBox.Agent.Job

/-!
# What the terminal result of an agent says

`AgentInv` follows the chunks from the script through the channel and the body, and the worker up to its
result. Every step keeps it. `Sound` is what it gives for the result: it denies the upload only if there
was none, it confirms the upload only after a success, and its count is the script's.
-/

namespace EveBox.Agent

open Rust Pcap

/-! ## Terminal results -/

section

variable {result : FetchJoin} {cancelled : Bool} {upload : PcapUploadStatus}
  {uploadError : Option String}

@[simp] theorem terminalFromFetch_upload :
    (terminalFromFetch result cancelled upload uploadError).upload = upload := by
  unfold terminalFromFetch
  split
  · rfl
  · split
    · rfl
    · split <;> rfl

/-- A complete result reports the fetch's own. -/
theorem terminalFromFetch_complete
    (h : (terminalFromFetch result cancelled upload uploadError).code = .complete) :
    cancelled = false ∧ uploadError = none ∧ ∃ stats, result = .ok stats ∧
      (terminalFromFetch result cancelled upload uploadError).stats = some (.ofFetch stats) := by
  unfold terminalFromFetch at h ⊢
  split at h
  · cases h
  · rename_i hcancelled
    rw [if_neg hcancelled]
    split at h
    · cases h
    · refine ⟨Bool.not_eq_true _ ▸ hcancelled, rfl, ?_⟩
      split at h
      all_goals try cases h
      exact ⟨_, rfl, rfl⟩

/-- An empty result comes from a fetch that has found nothing. -/
theorem terminalFromFetch_empty
    (h : (terminalFromFetch result cancelled upload uploadError).code = .noCandidateFiles ∨
      (terminalFromFetch result cancelled upload uploadError).code = .noMatch) :
    cancelled = false ∧ uploadError = none ∧
      (result = .error .noCandidateFiles ∨ ∃ stats, result = .error (.noMatch stats)) := by
  unfold terminalFromFetch at h
  split at h
  · rcases h with h | h <;> cases h
  · rename_i hcancelled
    split at h
    · rcases h with h | h <;> cases h
    · refine ⟨Bool.not_eq_true _ ▸ hcancelled, rfl, ?_⟩
      split at h
      all_goals try rcases h with h | h <;> cases h
      · exact Or.inl rfl
      · exact Or.inr ⟨_, rfl⟩

theorem classifyUpload_of_succeeded {join : UploadJoin} (h : join.succeeded = true) :
    classifyUpload join = (.complete, none) := by
  unfold classifyUpload
  rw [if_pos h]

end

/-! ## The invariant -/

namespace AgentJob

/-- The chunks that the fetch has still to hand over. -/
def rest (j : AgentJob) : List Bytes :=
  match j.producer with
  | .idle => j.script.chunks
  | .running rest => rest
  | .ended => []

/-- The chunk that the body still holds back. -/
def held (j : AgentJob) : List Bytes :=
  match j.body with
  | none => []
  | some body => body.first.toList

/-- What a terminal result says is so. -/
structure Sound (j : AgentJob) (r : PcapResult) : Prop where
  denies : r.upload = .none → j.workerFailed = false → j.body = none
  complete : r.upload = .complete → ∃ join, j.upload = .ended join ∧ join.succeeded = true
  counted : r.code = .complete → r.upload ≠ .failed ∧ ∃ stats, r.stats = some stats ∧
    stats.bytes = totalLength j.script.chunks ∧
    (r.upload = .none → j.script.chunks = [] ∧ stats.truncated = true)
  empty : r.code = .noCandidateFiles ∨ r.code = .noMatch → j.body = none ∧ r.upload = .none

/-- A recorded join of the fetch. -/
def Fetched (j : AgentJob) (fetched : Option FetchJoin) : Prop :=
  ∀ f, fetched = some f → f = j.script.result ∧ j.producer = .ended

/-- What holds where the worker is. -/
def PhaseInv (j : AgentJob) : Prop :=
  match j.phase with
  | .starting => j.body = none ∧ j.producer = .idle ∧ j.fetchControl = j.cancel
  | .waitingFirst => j.body = none ∧ j.producer ≠ .idle ∧ j.fetchControl = j.cancel
  | .uploading u => j.body ≠ none ∧ j.fetchControl = j.cancel ∧ j.Fetched u.fetched ∧
      ∀ join, u.uploaded = some join → j.upload = .ended join ∧ join.succeeded = true
  | .stopping upload uploadError fetched => j.Fetched fetched ∧
      (upload = .none ∧ uploadError = none ∧ j.body = none ∧
          (j.cancel = true ∨ j.script.chunks = [] ∧ j.producer = .ended ∧ j.fetchControl = j.cancel) ∨
        upload = .failed ∧ (j.cancel = true ∨ uploadError.isSome = true))
  | .failed _ => j.workerFailed = true
  | .done r => j.Sound r

end AgentJob

/-- The invariant of a job. -/
structure AgentInv (j : AgentJob) : Prop where
  /-- No chunk is lost or made up on the way from the fetch to the body's consumer. -/
  flow : j.script.chunks = j.yielded ++ j.held ++ j.chunks.queue ++ j.rest
  unposted : j.body = none → j.yielded = [] ∧ j.upload = .absent
  posted : j.body ≠ none → j.producer ≠ .idle ∧ j.script.chunks ≠ []
  control : j.cancel = true → j.fetchControl = true
  ended : j.producer = .ended → j.script.cancelled = true → j.fetchControl = true
  phase : j.PhaseInv

namespace AgentJob

variable {j j' : AgentJob}

/-- What a result says stays so. -/
theorem Sound.congr {r : PcapResult} (h : j.Sound r) (hscript : j'.script = j.script)
    (hfailed : j'.workerFailed = j.workerFailed) (hbody : j.body = none → j'.body = none)
    (hupload : ∀ join, j.upload = .ended join → j'.upload = .ended join) : j'.Sound r where
  denies hnone hworker := hbody (h.denies hnone (hfailed ▸ hworker))
  complete hcomplete := by
    obtain ⟨join, hjoin, hsucceeded⟩ := h.complete hcomplete
    exact ⟨join, hupload join hjoin, hsucceeded⟩
  counted hcode := by
    rw [hscript]
    exact h.counted hcode
  empty hcode := ⟨hbody (h.empty hcode).1, (h.empty hcode).2⟩

/-- A result that the worker makes without a fetch. -/
theorem Sound.of_unposted {r : PcapResult} (hbody : j.body = none) (hupload : r.upload = .none)
    (hcode : r.code = .cancelled ∨ r.code = .error) : j.Sound r where
  denies _ _ := hbody
  complete h := by
    rw [hupload] at h
    cases h
  counted h := by
    rcases hcode with hcode | hcode <;> rw [hcode] at h <;> cases h
  empty _ := ⟨hbody, hupload⟩

end AgentJob

section

variable {j j' : AgentJob}

theorem AgentInv.new (script : Script) (startUs endUs : ℕ) : AgentInv (.new script startUs endUs) where
  flow := rfl
  unposted _ := ⟨rfl, rfl⟩
  posted h := absurd rfl h
  control h := h
  ended h := by cases h
  phase := ⟨rfl, rfl, rfl⟩

/-- A fetch that no cancellation has touched. -/
theorem AgentInv.untouched (inv : AgentInv j) (hended : j.producer = .ended)
    (hcontrol : j.fetchControl = false) : j.script.cancelled = false := by
  rw [← Bool.not_eq_true]
  intro hcancelled
  rw [inv.ended hended hcancelled] at hcontrol
  cases hcontrol

/-- The result that the worker makes of a fetch. -/
theorem AgentInv.sound (inv : AgentInv j) {upload : PcapUploadStatus} {uploadError : Option String}
    (hended : j.producer = .ended) (hnone : upload = .none → j.body = none)
    (hcomplete : upload = .complete → ∃ join, j.upload = .ended join ∧ join.succeeded = true)
    -- a result that is neither cancelled nor an upload error
    (hclean : j.cancel = false → uploadError = none → upload ≠ .failed ∧ j.fetchControl = false ∧
      (upload = .none → j.script.chunks = []) ∧ (upload = .complete → j.body ≠ none)) :
    j.Sound (terminalFromFetch j.script.result j.cancel upload uploadError) := by
  constructor
  · intro h _
    rw [terminalFromFetch_upload] at h
    exact hnone h
  · intro h
    rw [terminalFromFetch_upload] at h
    exact hcomplete h
  · intro h
    obtain ⟨hcancel, herror, stats, hresult, hstats⟩ := terminalFromFetch_complete h
    obtain ⟨hfailed, hcontrol, hempty, -⟩ := hclean hcancel herror
    have huntouched := inv.untouched hended hcontrol
    rw [terminalFromFetch_upload]
    refine ⟨hfailed, _, hstats, j.script.bytes stats hresult huntouched, ?_⟩
    intro h
    exact ⟨hempty h, j.script.truncated stats hresult huntouched (hempty h)⟩
  · intro h
    obtain ⟨hcancel, herror, hresult⟩ := terminalFromFetch_empty h
    obtain ⟨hfailed, hcontrol, -, hposted⟩ := hclean hcancel herror
    have huntouched := inv.untouched hended hcontrol
    have hchunks : j.script.chunks = [] := by
      rcases hresult with hresult | ⟨stats, hresult⟩
      · exact j.script.noCandidateFiles hresult huntouched
      · exact j.script.noMatch stats hresult huntouched
    -- a fetch without chunks has no upload
    have hbody : j.body = none := by
      by_contra hbody
      exact (inv.posted hbody).2 hchunks
    rw [terminalFromFetch_upload]
    refine ⟨hbody, ?_⟩
    cases upload with
    | none => rfl
    | complete => exact absurd hbody (hposted rfl)
    | failed => exact absurd rfl hfailed

/-! ## Steps -/

/-- A step of the worker alone. -/
theorem AgentInv.move (inv : AgentInv j) {phase : JobPhase}
    (hphase : ({ j with phase } : AgentJob).PhaseInv) : AgentInv { j with phase } :=
  ⟨inv.flow, inv.unposted, inv.posted, inv.control, inv.ended, hphase⟩

/-- The worker is done. -/
theorem AgentInv.finish (inv : AgentInv j) {r : PcapResult} (h : j.Sound r) : AgentInv (j.finish r) :=
  inv.move (h.congr rfl rfl id fun _ => id)

theorem AgentInv.start (inv : AgentInv j) {permit : Bool} (h : j.start permit = some j') :
    AgentInv j' := by
  have hinv := inv.phase
  unfold AgentJob.start at h
  split at h
  · rename_i hphase
    rw [AgentJob.PhaseInv, hphase] at hinv
    obtain ⟨hbody, hproducer, hcontrol⟩ := hinv
    split at h
    · obtain rfl := Option.some.inj h
      exact inv.finish (.of_unposted hbody rfl (Or.inr rfl))
    · split at h
      · obtain rfl := Option.some.inj h
        exact inv.finish (.of_unposted hbody rfl (Or.inl rfl))
      · split at h
        · obtain rfl := Option.some.inj h
          exact inv.finish (.of_unposted hbody rfl (Or.inr rfl))
        · obtain rfl := Option.some.inj h
          refine ⟨?_, inv.unposted, fun h => absurd hbody h, inv.control, nofun, hbody, nofun, hcontrol⟩
          have hflow := inv.flow
          rw [AgentJob.rest, hproducer] at hflow
          exact hflow
  · cases h

theorem AgentInv.produce (inv : AgentInv j) (h : j.produce = some j') : AgentInv j' := by
  unfold AgentJob.produce at h
  split at h
  · rename_i chunk rest hproducer
    split at h
    · rename_i chunks hsend
      obtain rfl := Option.some.inj h
      obtain ⟨-, rfl⟩ := Channel.trySend_ok hsend
      have hidle : j.producer ≠ .idle := by rw [hproducer]; nofun
      have hended : j.producer ≠ .ended := by rw [hproducer]; nofun
      refine ⟨?_, inv.unposted, fun h => ⟨nofun, (inv.posted h).2⟩, inv.control, nofun, ?_⟩
      · have hflow := inv.flow
        rw [AgentJob.rest, hproducer] at hflow
        rw [hflow]
        show _ = j.yielded ++ j.held ++ (j.chunks.queue ++ [chunk]) ++ rest
        simp only [List.append_assoc, List.singleton_append]
      · have hinv := inv.phase
        unfold AgentJob.PhaseInv at hinv ⊢
        dsimp only
        split at hinv
        · exact absurd hinv.2.1 hidle
        · exact ⟨hinv.1, nofun, hinv.2.2⟩
        · obtain ⟨hbody, hcontrol, hfetched, huploaded⟩ := hinv
          exact ⟨hbody, hcontrol, fun f hf => absurd (hfetched f hf).2 hended, huploaded⟩
        · obtain ⟨hfetched, hinv⟩ := hinv
          refine ⟨fun f hf => absurd (hfetched f hf).2 hended, ?_⟩
          refine hinv.imp_left ?_
          rintro ⟨hupload, herror, hbody, hcancel | ⟨-, hend, -⟩⟩
          · exact ⟨hupload, herror, hbody, Or.inl hcancel⟩
          · exact absurd hend hended
        · exact hinv
        · exact hinv.congr rfl rfl id fun _ => id
    · cases h
  · cases h

/-- A step of the fetch's end, or of the tokens, leaves what the worker knows. -/
theorem AgentJob.PhaseInv.congr (inv : j.PhaseInv) (hphase : j'.phase = j.phase)
    (hscript : j'.script = j.script) (hfailed : j'.workerFailed = j.workerFailed)
    (hbody : j'.body = none ↔ j.body = none)
    (hupload : ∀ join, j.upload = .ended join → j'.upload = .ended join)
    (hidle : j'.producer = .idle ↔ j.producer = .idle)
    (hended : j.producer = .ended → j'.producer = .ended)
    (hcancel : j.cancel = true → j'.cancel = true)
    (hcontrol : j.fetchControl = j.cancel → j'.fetchControl = j'.cancel) : j'.PhaseInv := by
  have hfetched : ∀ {fetched}, j.Fetched fetched → j'.Fetched fetched := by
    intro fetched hfetched f hf
    obtain ⟨hresult, hproducer⟩ := hfetched f hf
    exact ⟨by rw [hscript, hresult], hended hproducer⟩
  unfold AgentJob.PhaseInv at inv ⊢
  rw [hphase]
  split at inv
  · exact ⟨hbody.mpr inv.1, hidle.mpr inv.2.1, hcontrol inv.2.2⟩
  · exact ⟨hbody.mpr inv.1, fun h => inv.2.1 (hidle.mp h), hcontrol inv.2.2⟩
  · obtain ⟨h₁, h₂, h₃, h₄⟩ := inv
    exact ⟨fun h => h₁ (hbody.mp h), hcontrol h₂, hfetched h₃,
      fun join hjoin => ⟨hupload join (h₄ join hjoin).1, (h₄ join hjoin).2⟩⟩
  · obtain ⟨h₁, h₂⟩ := inv
    refine ⟨hfetched h₁, ?_⟩
    rcases h₂ with ⟨hnone, herror, hb, hend⟩ | ⟨hfailed, hend⟩
    · refine Or.inl ⟨hnone, herror, hbody.mpr hb, ?_⟩
      rcases hend with hend | ⟨hchunks, hproducer, hc⟩
      · exact Or.inl (hcancel hend)
      · exact Or.inr ⟨by rw [hscript, hchunks], hended hproducer, hcontrol hc⟩
    · exact Or.inr ⟨hfailed, hend.imp_left hcancel⟩
  · exact hfailed.trans inv
  · exact inv.congr hscript hfailed hbody.mpr hupload

theorem AgentInv.fetchEnd (inv : AgentInv j) (h : j.fetchEnd = some j') : AgentInv j' := by
  unfold AgentJob.fetchEnd at h
  split at h
  · rename_i hproducer
    split at h
    · cases h
    · rename_i hcancelled
      obtain rfl := Option.some.inj h
      refine ⟨?_, inv.unposted, fun h => ⟨nofun, (inv.posted h).2⟩, inv.control, ?_, ?_⟩
      · have hflow := inv.flow
        rw [AgentJob.rest, hproducer] at hflow
        exact hflow
      · intro _ hscript
        dsimp only at hscript ⊢
        rw [hscript] at hcancelled
        simpa using hcancelled
      · refine inv.phase.congr rfl rfl rfl Iff.rfl (fun _ => id) ?_ ?_ id id
        · rw [hproducer]
          exact iff_of_false nofun nofun
        · rw [hproducer]
          nofun
  · cases h

theorem AgentInv.cancelled (inv : AgentInv j) : AgentInv j.cancelled :=
  ⟨inv.flow, inv.unposted, inv.posted, fun _ => rfl, fun _ _ => rfl,
    inv.phase.congr rfl rfl rfl Iff.rfl (fun _ => id) Iff.rfl id (fun _ => rfl) fun _ => rfl⟩

/-- The request is aborted; what has been posted stays posted. -/
theorem AgentInv.abort (inv : AgentInv j) {upload : PcapUploadStatus} {uploadError : Option String}
    {fetched : Option FetchJoin} (hbody : j.body ≠ none) (hfetched : j.Fetched fetched)
    (hupload : upload = .failed) (hend : j.cancel = true ∨ uploadError.isSome = true) :
    AgentInv (j.abortUpload.stopFetch upload uploadError fetched) := by
  unfold AgentJob.abortUpload
  split
  · exact ⟨inv.flow, fun h => absurd h hbody, inv.posted, fun _ => rfl, fun _ _ => rfl, hfetched,
      Or.inr ⟨hupload, hend⟩⟩
  · exact ⟨inv.flow, inv.unposted, inv.posted, fun _ => rfl, fun _ _ => rfl, hfetched,
      Or.inr ⟨hupload, hend⟩⟩

theorem AgentInv.cancelSeen (inv : AgentInv j) (h : j.cancelSeen = some j') : AgentInv j' := by
  have hinv := inv.phase
  unfold AgentJob.cancelSeen at h
  split at h
  · cases h
  · rename_i hcancel
    rw [Bool.not_eq_true', Bool.not_eq_false] at hcancel
    split at h
    · rename_i hphase
      obtain rfl := Option.some.inj h
      rw [AgentJob.PhaseInv, hphase] at hinv
      exact ⟨inv.flow, inv.unposted, inv.posted, fun _ => rfl, fun _ _ => rfl, nofun,
        Or.inl ⟨rfl, rfl, hinv.1, Or.inl hcancel⟩⟩
    · rename_i u hphase
      rw [AgentJob.PhaseInv, hphase] at hinv
      split at h
      · cases h
      · obtain rfl := Option.some.inj h
        exact inv.abort hinv.1 hinv.2.2.1 rfl (Or.inl hcancel)
    · cases h

theorem AgentInv.first (inv : AgentInv j) (h : j.first = some j') : AgentInv j' := by
  have hinv := inv.phase
  have hflow := inv.flow
  unfold AgentJob.first at h
  split at h
  · rename_i chunk queue hphase hqueue
    obtain rfl := Option.some.inj h
    rw [AgentJob.PhaseInv, hphase] at hinv
    obtain ⟨hbody, hproducer, hcontrol⟩ := hinv
    rw [AgentJob.held, hbody, hqueue] at hflow
    have hchunks : j.script.chunks ≠ [] := by
      rw [hflow]
      simp
    refine ⟨?_, nofun, fun _ => ⟨hproducer, hchunks⟩, inv.control, inv.ended, nofun, hcontrol, nofun, nofun⟩
    show j.script.chunks = j.yielded ++ [chunk] ++ queue ++ j.rest
    rw [hflow]
    simp only [List.append_assoc, List.nil_append, List.cons_append]
  · rename_i hphase hqueue
    split at h
    · cases h
    · rename_i halive
      obtain rfl := Option.some.inj h
      rw [AgentJob.PhaseInv, hphase] at hinv
      obtain ⟨hbody, hproducer, hcontrol⟩ := hinv
      have hended : j.producer = .ended := by
        cases hcase : j.producer with
        | idle => exact absurd hcase hproducer
        | running rest => simp [hcase, Producer.alive] at halive
        | ended => rfl
      have hchunks : j.script.chunks = [] := by
        rw [hflow, (inv.unposted hbody).1, AgentJob.held, hbody, hqueue, AgentJob.rest, hended]
        rfl
      exact ⟨inv.flow, inv.unposted, inv.posted, inv.control, inv.ended, nofun,
        Or.inl ⟨rfl, rfl, hbody, Or.inr ⟨hchunks, hended, hcontrol⟩⟩⟩
  · cases h

theorem AgentInv.fetched (inv : AgentInv j) (h : j.fetched = some j') : AgentInv j' := by
  have hinv := inv.phase
  unfold AgentJob.fetched at h
  split at h
  · rename_i uploaded bodyEof progressOpen hphase hproducer
    obtain rfl := Option.some.inj h
    rw [AgentJob.PhaseInv, hphase] at hinv
    obtain ⟨hbody, hcontrol, -, huploaded⟩ := hinv
    refine inv.move ⟨hbody, hcontrol, ?_, huploaded⟩
    rintro f ⟨⟩
    exact ⟨rfl, hproducer⟩
  · cases h

theorem AgentInv.uploaded (inv : AgentInv j) (h : j.uploaded = some j') : AgentInv j' := by
  have hinv := inv.phase
  unfold AgentJob.uploaded at h
  split at h
  · rename_i fetched bodyEof progressOpen join hphase hjoin
    rw [AgentJob.PhaseInv, hphase] at hinv
    obtain ⟨hbody, hcontrol, hfetched, -⟩ := hinv
    split at h
    · rename_i hsucceeded
      obtain rfl := Option.some.inj h
      refine inv.move ⟨hbody, hcontrol, hfetched, ?_⟩
      rintro join' ⟨⟩
      exact ⟨hjoin, hsucceeded⟩
    · obtain rfl := Option.some.inj h
      exact ⟨inv.flow, inv.unposted, inv.posted, fun _ => rfl, fun _ _ => rfl, hfetched,
        Or.inr ⟨rfl, Or.inr rfl⟩⟩
  · cases h

theorem AgentInv.progress (inv : AgentInv j) (h : j.progress = some j') : AgentInv j' := by
  have hinv := inv.phase
  have hflow := inv.flow
  unfold AgentJob.progress at h
  split at h
  · rename_i fetched bodyEof body hphase hbody
    rw [AgentJob.PhaseInv, hphase] at hinv
    obtain ⟨hposted, hcontrol, hfetched, -⟩ := hinv
    split at h
    · obtain rfl := Option.some.inj h
      rw [AgentJob.held, hbody] at hflow
      exact ⟨hflow, nofun, fun _ => inv.posted hposted, inv.control, inv.ended, nofun, hcontrol, hfetched,
        nofun⟩
    · split at h
      · cases h
      · obtain rfl := Option.some.inj h
        exact inv.move ⟨hposted, hcontrol, hfetched, nofun⟩
  · cases h

theorem AgentInv.stalled (inv : AgentInv j) (h : j.stalled = some j') : AgentInv j' := by
  have hinv := inv.phase
  unfold AgentJob.stalled at h
  split at h
  · rename_i fetched bodyEof progressOpen hphase
    rw [AgentJob.PhaseInv, hphase] at hinv
    obtain rfl := Option.some.inj h
    exact inv.abort hinv.1 hinv.2.2.1 rfl (Or.inr rfl)
  · cases h

theorem AgentInv.settle (inv : AgentInv j) (h : j.settle = some j') : AgentInv j' := by
  have hinv := inv.phase
  unfold AgentJob.settle at h
  split at h
  · rename_i fetched uploaded bodyEof progressOpen hphase
    rw [AgentJob.PhaseInv, hphase] at hinv
    obtain ⟨hbody, hcontrol, hfetched, huploaded⟩ := hinv
    obtain ⟨rfl, hended⟩ := hfetched fetched rfl
    obtain ⟨hjoin, hsucceeded⟩ := huploaded uploaded rfl
    rw [classifyUpload_of_succeeded hsucceeded] at h
    obtain rfl := Option.some.inj h
    refine inv.finish (inv.sound hended nofun (fun _ => ⟨uploaded, hjoin, hsucceeded⟩) ?_)
    intro hcancel _
    exact ⟨nofun, hcontrol.trans hcancel, nofun, fun _ => hbody⟩
  · rename_i upload uploadError fetched hphase
    rw [AgentJob.PhaseInv, hphase] at hinv
    obtain ⟨hfetched, hstop⟩ := hinv
    obtain ⟨f, hf, rfl⟩ := Option.map_eq_some_iff.mp h
    have hjoin : f = j.script.result ∧ j.producer = .ended := by
      unfold AgentJob.fetchJoin at hf
      split at hf
      · obtain rfl := Option.some.inj hf
        exact hfetched _ rfl
      · split at hf
        · rename_i hended
          exact ⟨(Option.some.inj hf).symm, hended⟩
        · cases hf
    obtain ⟨rfl, hended⟩ := hjoin
    refine inv.finish (inv.sound hended ?_ ?_ ?_)
    · rintro rfl
      rcases hstop with ⟨-, -, hbody, -⟩ | ⟨hfailed, -⟩
      · exact hbody
      · cases hfailed
    · rintro rfl
      rcases hstop with ⟨hnone, -⟩ | ⟨hfailed, -⟩
      · cases hnone
      · cases hfailed
    · intro hcancel herror
      rcases hstop with ⟨rfl, -, -, hend | ⟨hchunks, -, hcontrol⟩⟩ | ⟨-, hend | hend⟩
      · rw [hcancel] at hend
        cases hend
      · exact ⟨nofun, hcontrol.trans hcancel, fun _ => hchunks, nofun⟩
      · rw [hcancel] at hend
        cases hend
      · rw [herror] at hend
        cases hend
  · rename_i err hphase
    rw [AgentJob.PhaseInv, hphase] at hinv
    split at h
    · cases h
    · obtain rfl := Option.some.inj h
      refine inv.finish ⟨?_, nofun, nofun, ?_⟩
      · intro _ hworker
        rw [hinv] at hworker
        cases hworker
      · rintro (hcode | hcode) <;> cases hcode
  · cases h

theorem AgentInv.fail (inv : AgentInv j) {err : String} (h : j.fail err = some j') : AgentInv j' := by
  unfold AgentJob.fail at h
  split at h
  · cases h
  · dsimp only at h
    split at h
    · obtain rfl := Option.some.inj h
      exact ⟨inv.flow, inv.unposted, inv.posted, inv.control, inv.ended, rfl⟩
    · obtain rfl := Option.some.inj h
      exact ⟨inv.flow, inv.unposted, inv.posted, inv.control, inv.ended, rfl⟩

/-- Every step of a job keeps the invariant. -/
theorem AgentInv.step (inv : AgentInv j) {op : AgentOp} (h : j.step op = some j') : AgentInv j' := by
  cases op with
  | start permit => exact inv.start h
  | produce => exact inv.produce h
  | fetchEnd => exact inv.fetchEnd h
  | cancel =>
      obtain rfl := Option.some.inj h
      exact inv.cancelled
  | cancelSeen => exact inv.cancelSeen h
  | first => exact inv.first h
  | fetched => exact inv.fetched h
  | uploaded => exact inv.uploaded h
  | progress => exact inv.progress h
  | stalled => exact inv.stalled h
  | settle => exact inv.settle h
  | fail err => exact inv.fail h

/-- What a step of the fetch or of the worker leaves of a job. -/
structure AgentFrame (j j' : AgentJob) : Prop where
  script : j'.script = j.script
  yielded : j'.yielded = j.yielded
  body : j'.body = none → j.body = none
  stopped : ∀ body', j'.body = some body' → body'.stopped = true →
    ∃ body, j.body = some body ∧ body.stopped = true
  upload : ∀ join, j'.upload = .ended join → j.upload = .ended join
  done : ∀ r, j.phase = .done r → j'.phase = .done r

/-- A step that touches the worker's phase, the fetch and the tokens only. -/
theorem AgentFrame.of_eq (hscript : j'.script = j.script) (hyielded : j'.yielded = j.yielded)
    (hbody : j'.body = j.body) (hupload : ∀ join, j'.upload = .ended join → j.upload = .ended join)
    (hdone : ∀ r, j.phase = .done r → j'.phase = .done r) : AgentFrame j j' where
  script := hscript
  yielded := hyielded
  body h := hbody ▸ h
  stopped body' h hstopped := ⟨body', hbody ▸ h, hstopped⟩
  upload := hupload
  done := hdone

theorem AgentJob.abortUpload_frame (j : AgentJob) : AgentFrame j j.abortUpload := by
  unfold AgentJob.abortUpload
  split
  · exact .of_eq rfl rfl rfl nofun fun _ => id
  · exact .of_eq rfl rfl rfl (fun _ => id) fun _ => id

/-- Every step of the fetch or of the worker, up to a failure of the worker. -/
theorem AgentJob.step_frame {op : AgentOp} (h : j.step op = some j') :
    AgentFrame j j' ∧ (j'.workerFailed = j.workerFailed ∨ ∃ err, op = .fail err) := by
  cases op with
  | start permit =>
      simp only [AgentJob.step, AgentJob.start] at h
      split at h
      · rename_i hphase
        have hdone : ∀ {r} {phase : JobPhase}, j.phase = .done r → phase = .done r := by
          intro r phase hr
          rw [hphase] at hr
          cases hr
        refine ⟨?_, Or.inl ?_⟩
        · split at h
          · obtain rfl := Option.some.inj h
            exact .of_eq rfl rfl rfl (fun _ => id) fun _ => hdone
          · split at h
            · obtain rfl := Option.some.inj h
              exact .of_eq rfl rfl rfl (fun _ => id) fun _ => hdone
            · split at h <;> obtain rfl := Option.some.inj h
              · exact .of_eq rfl rfl rfl (fun _ => id) fun _ => hdone
              · exact .of_eq rfl rfl rfl (fun _ => id) fun _ => hdone
        · split at h
          · obtain rfl := Option.some.inj h
            rfl
          · split at h
            · obtain rfl := Option.some.inj h
              rfl
            · split at h <;> obtain rfl := Option.some.inj h <;> rfl
      · cases h
  | produce =>
      simp only [AgentJob.step, AgentJob.produce] at h
      split at h
      · split at h
        · obtain rfl := Option.some.inj h
          exact ⟨.of_eq rfl rfl rfl (fun _ => id) fun _ => id, Or.inl rfl⟩
        · cases h
      · cases h
  | fetchEnd =>
      simp only [AgentJob.step, AgentJob.fetchEnd] at h
      split at h
      · split at h
        · cases h
        · obtain rfl := Option.some.inj h
          exact ⟨.of_eq rfl rfl rfl (fun _ => id) fun _ => id, Or.inl rfl⟩
      · cases h
  | cancel =>
      obtain rfl := Option.some.inj h
      exact ⟨.of_eq rfl rfl rfl (fun _ => id) fun _ => id, Or.inl rfl⟩
  | cancelSeen =>
      simp only [AgentJob.step, AgentJob.cancelSeen] at h
      split at h
      · cases h
      · split at h
        · rename_i hphase
          obtain rfl := Option.some.inj h
          refine ⟨.of_eq rfl rfl rfl (fun _ => id) ?_, Or.inl rfl⟩
          intro r hr
          rw [hphase] at hr
          cases hr
        · rename_i hphase
          split at h
          · cases h
          · obtain rfl := Option.some.inj h
            have frame := j.abortUpload_frame
            refine ⟨⟨frame.script, frame.yielded, frame.body, frame.stopped, frame.upload, ?_⟩, Or.inl ?_⟩
            · intro r hr
              rw [hphase] at hr
              cases hr
            · rw [AgentJob.stopFetch, AgentJob.abortUpload]
              split <;> rfl
        · cases h
  | first =>
      simp only [AgentJob.step, AgentJob.first] at h
      split at h
      · rename_i hphase hqueue
        obtain rfl := Option.some.inj h
        refine ⟨⟨rfl, rfl, nofun, ?_, nofun, ?_⟩, Or.inl rfl⟩
        · rintro body' ⟨⟩ hstopped
          cases hstopped
        · intro r hr
          rw [hphase] at hr
          cases hr
      · rename_i hphase hqueue
        split at h
        · cases h
        · obtain rfl := Option.some.inj h
          refine ⟨.of_eq rfl rfl rfl (fun _ => id) ?_, Or.inl rfl⟩
          intro r hr
          rw [hphase] at hr
          cases hr
      · cases h
  | fetched =>
      simp only [AgentJob.step, AgentJob.fetched] at h
      split at h
      · rename_i hphase _
        obtain rfl := Option.some.inj h
        refine ⟨.of_eq rfl rfl rfl (fun _ => id) ?_, Or.inl rfl⟩
        intro r hr
        rw [hphase] at hr
        cases hr
      · cases h
  | uploaded =>
      simp only [AgentJob.step, AgentJob.uploaded] at h
      split at h
      · rename_i hphase _
        have hdone : ∀ {r} {phase : JobPhase}, j.phase = .done r → phase = .done r := by
          intro r phase hr
          rw [hphase] at hr
          cases hr
        split at h <;> obtain rfl := Option.some.inj h
        · exact ⟨.of_eq rfl rfl rfl (fun _ => id) fun _ => hdone, Or.inl rfl⟩
        · exact ⟨.of_eq rfl rfl rfl (fun _ => id) fun _ => hdone, Or.inl rfl⟩
      · cases h
  | progress =>
      simp only [AgentJob.step, AgentJob.progress] at h
      split at h
      · rename_i body hphase hbody
        have hdone : ∀ {r} {phase : JobPhase}, j.phase = .done r → phase = .done r := by
          intro r phase hr
          rw [hphase] at hr
          cases hr
        split at h
        · obtain rfl := Option.some.inj h
          refine ⟨⟨rfl, rfl, nofun, ?_, fun _ => id, fun _ => hdone⟩, Or.inl rfl⟩
          rintro body' ⟨⟩ hstopped
          exact ⟨body, hbody, hstopped⟩
        · split at h
          · cases h
          · obtain rfl := Option.some.inj h
            exact ⟨.of_eq rfl rfl rfl (fun _ => id) fun _ => hdone, Or.inl rfl⟩
      · cases h
  | stalled =>
      simp only [AgentJob.step, AgentJob.stalled] at h
      split at h
      · rename_i hphase
        obtain rfl := Option.some.inj h
        have frame := j.abortUpload_frame
        refine ⟨⟨frame.script, frame.yielded, frame.body, frame.stopped, frame.upload, ?_⟩, Or.inl ?_⟩
        · intro r hr
          rw [hphase] at hr
          cases hr
        · rw [AgentJob.stopFetch, AgentJob.abortUpload]
          split <;> rfl
      · cases h
  | settle =>
      simp only [AgentJob.step, AgentJob.settle] at h
      have hfinish : ∀ {r : PcapResult}, (∀ r', j.phase ≠ .done r') → j.finish r = j' →
          AgentFrame j j' ∧ (j'.workerFailed = j.workerFailed ∨ ∃ err, AgentOp.settle = .fail err) := by
        rintro r hphase rfl
        exact ⟨.of_eq rfl rfl rfl (fun _ => id) fun r' hr => absurd hr (hphase r'), Or.inl rfl⟩
      split at h
      · rename_i hphase
        exact hfinish (fun r hr => by rw [hphase] at hr; cases hr) (Option.some.inj h)
      · rename_i hphase
        obtain ⟨f, -, hj'⟩ := Option.map_eq_some_iff.mp h
        exact hfinish (fun r hr => by rw [hphase] at hr; cases hr) hj'
      · rename_i hphase
        split at h
        · cases h
        · exact hfinish (fun r hr => by rw [hphase] at hr; cases hr) (Option.some.inj h)
      · cases h
  | fail err =>
      refine ⟨?_, Or.inr ⟨err, rfl⟩⟩
      simp only [AgentJob.step, AgentJob.fail] at h
      split at h
      · cases h
      · rename_i hworking
        have hdone : ∀ {r} {phase : JobPhase}, j.phase = .done r → phase = .done r := by
          intro r phase hr
          simp [AgentJob.working, hr] at hworking
        split at h <;> obtain rfl := Option.some.inj h
        · exact .of_eq rfl rfl rfl (fun _ => id) fun _ => hdone
        · exact .of_eq rfl rfl rfl (fun _ => id) fun _ => hdone

/-! ## Steps of the request -/

theorem AgentInv.uploadEnd (inv : AgentInv j) {join : UploadJoin} (h : j.uploadEnd join = some j') :
    AgentInv j' := by
  unfold AgentJob.uploadEnd at h
  split at h
  · rename_i hrunning
    obtain rfl := Option.some.inj h
    have hposted : j.body ≠ none := by
      intro hbody
      rw [(inv.unposted hbody).2] at hrunning
      cases hrunning
    refine ⟨inv.flow, fun h => absurd h hposted, inv.posted, inv.control, inv.ended, ?_⟩
    refine inv.phase.congr rfl rfl rfl Iff.rfl ?_ Iff.rfl id id id
    intro join' hjoin'
    rw [hrunning] at hjoin'
    cases hjoin'
  · cases h

/-- What a poll of the body does. -/
theorem AgentJob.pollBody_some {p : BodyPoll} (h : j.pollBody = some (p, j')) :
    ∃ body, j.body = some body ∧
      (p = .eof ∧ body.stopped = true ∧ j' = j ∨
        p = .error ∧ body.stopped = false ∧ j' = { j with body := some (body.stop .cancelled) } ∨
        p = .eof ∧ body.stopped = false ∧ body.first = none ∧ j.chunks.queue = [] ∧
          j.producer.alive = false ∧ j' = { j with body := some (body.stop .eof) } ∨
        ∃ chunk body' chunks, p = .chunk chunk ∧ body.stopped = false ∧ body'.stopped = false ∧
          body.first.toList ++ j.chunks.queue = chunk :: (body'.first.toList ++ chunks.queue) ∧
          j' = { j with body := some body', chunks, yielded := j.yielded ++ [chunk] }) := by
  unfold AgentJob.pollBody at h
  split at h
  · rename_i body hupload hbody
    refine ⟨body, hbody, ?_⟩
    split at h
    · rename_i hstopped
      cases h
      exact Or.inl ⟨rfl, hstopped, rfl⟩
    · rename_i hstopped
      rw [Bool.not_eq_true] at hstopped
      split at h
      · cases h
        exact Or.inr (Or.inl ⟨rfl, hstopped, rfl⟩)
      · split at h
        · rename_i chunk hfirst
          cases h
          let body' : UploadBody := { body with first := none }.record chunk
          refine Or.inr (Or.inr (Or.inr ⟨chunk, body', j.chunks, rfl, hstopped, hstopped, ?_, rfl⟩))
          rw [hfirst]
          rfl
        · rename_i hfirst
          split at h
          · rename_i chunk queue hqueue
            cases h
            refine Or.inr (Or.inr (Or.inr
              ⟨chunk, body.record chunk, _, rfl, hstopped, hstopped, ?_, rfl⟩))
            show body.first.toList ++ _ = chunk :: (body.first.toList ++ queue)
            rw [hfirst, hqueue]
            rfl
          · rename_i hqueue
            split at h
            · cases h
            · rename_i halive
              cases h
              exact Or.inr (Or.inr (Or.inl
                ⟨rfl, hstopped, hfirst, hqueue, Bool.not_eq_true _ ▸ halive, rfl⟩))
  · cases h

theorem AgentInv.pollBody (inv : AgentInv j) {p : BodyPoll} (h : j.pollBody = some (p, j')) :
    AgentInv j' := by
  obtain ⟨body, hbody, hcase⟩ := AgentJob.pollBody_some h
  have hposted : j.body ≠ none := by rw [hbody]; nofun
  have hflow := inv.flow
  rw [AgentJob.held, hbody] at hflow
  have hphase : ∀ (body' : UploadBody) chunks yielded,
      ({ j with body := some body', chunks, yielded } : AgentJob).PhaseInv := by
    intro body' chunks yielded
    exact inv.phase.congr rfl rfl rfl (iff_of_false nofun hposted) (fun _ => id) Iff.rfl id id id
  rcases hcase with ⟨-, -, rfl⟩ | ⟨-, -, rfl⟩ | ⟨-, -, -, -, -, rfl⟩ |
    ⟨chunk, body', chunks, -, -, -, hchunk, rfl⟩
  · exact inv
  · exact ⟨hflow, nofun, fun _ => inv.posted hposted, inv.control, inv.ended, hphase _ _ _⟩
  · exact ⟨hflow, nofun, fun _ => inv.posted hposted, inv.control, inv.ended, hphase _ _ _⟩
  · refine ⟨?_, nofun, fun _ => inv.posted hposted, inv.control, inv.ended, hphase _ _ _⟩
    show j.script.chunks = j.yielded ++ [chunk] ++ body'.first.toList ++ chunks.queue ++ j.rest
    dsimp only at hflow
    rw [hflow, List.append_assoc j.yielded, hchunk]
    simp only [List.append_assoc, List.cons_append, List.nil_append]

end

end EveBox.Agent
