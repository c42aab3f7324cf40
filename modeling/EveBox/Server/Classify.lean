import EveBox.Server.Tasks

/-!
# What a terminal result means

Reference: `classify_result` of `src/server/pcap/tasks.rs`.

`classifyResult_complete` says what a result is that counts as `Complete`, and `classifyResult_protocol`
what one is that counts as a fault of the protocol.
-/

namespace EveBox.Server

open Agent

/-- `RemoteOutcome`. -/
inductive RemoteOutcome
  | wait
  | complete (stats : WireStats)
  | noCandidateFiles
  | noMatch
  | cancelled (message : Option String)
  | error (message : String)
  | protocol (detail : String)
deriving DecidableEq, Repr

/-- `matches!(upload, UploadState::Failed { .. })`. -/
def UploadState.isFailed : UploadState → Bool
  | .failed _ _ => true
  | _ => false

/-- `classify_result`. -/
def classifyResult (result : PcapResult) (upload : UploadState) (bodyOpen : Bool) (streamed : ℕ) :
    RemoteOutcome :=
  match result.code with
  | .complete =>
      if result.upload = .failed ∨ upload.isFailed then
        .error (result.message.getD "pcap upload failed")
      else
        match result.stats with
        | none => .protocol "complete result omitted extraction statistics"
        | some stats =>
            match result.upload with
            | .none =>
                if upload ≠ .pending ∨ streamed ≠ 0 then
                  .protocol "complete result did not confirm its upload"
                else if stats.bytes ≠ 0 ∨ !stats.truncated then
                  .protocol "complete result without an upload was not an empty truncation"
                else .complete stats
            | .complete =>
                match upload with
                | .complete uploaded =>
                    if bodyOpen then .wait
                    else if uploaded ≠ streamed ∨ stats.bytes ≠ streamed then
                      .protocol
                        s!"byte counts disagree: streamed={streamed} uploaded={uploaded} reported={stats.bytes}"
                    else .complete stats
                | _ => .wait
            -- handled above
            | .failed => .error (result.message.getD "pcap upload failed")
  | .noCandidateFiles | .noMatch =>
      if result.upload ≠ .none ∨ upload ≠ .pending ∨ streamed ≠ 0 then
        .protocol "empty result arrived after an upload had started"
      else if result.code = .noCandidateFiles then .noCandidateFiles
      else .noMatch
  | .cancelled | .error =>
      if result.upload = .none ∧ upload ≠ .pending then
        .protocol "terminal result denies the observed upload"
      else if result.code = .cancelled then .cancelled result.message
      else .error (result.message.getD "pcap agent extraction failed")

/-- A complete result agrees with the upload: either there was none, and nothing was captured, or every
byte count is the number of bytes streamed. -/
theorem classifyResult_complete {result : PcapResult} {upload : UploadState} {bodyOpen : Bool}
    {streamed : ℕ} {stats : WireStats}
    (h : classifyResult result upload bodyOpen streamed = .complete stats) :
    result.code = .complete ∧ result.stats = some stats ∧
      (result.upload = .none ∧ upload = .pending ∧ streamed = 0 ∧ stats.bytes = 0 ∨
        result.upload = .complete ∧ upload = .complete streamed ∧ bodyOpen = false ∧
          stats.bytes = streamed) := by
  unfold classifyResult at h
  split at h
  · rename_i hcode
    refine ⟨hcode, ?_⟩
    split at h
    · cases h
    · split at h
      · cases h
      · rename_i stats' hstats
        split at h
        · rename_i hupload
          split at h
          · cases h
          · rename_i hpending
            split at h
            · cases h
            · rename_i hempty
              cases h
              rw [not_or, not_not, not_not] at hpending
              rw [not_or, not_not] at hempty
              exact ⟨hstats, Or.inl ⟨hupload, hpending.1, hpending.2, hempty.1⟩⟩
        · rename_i hupload
          split at h
          · split at h
            · cases h
            · rename_i hopen
              split at h
              · cases h
              · rename_i hbytes
                cases h
                rw [not_or, not_not, not_not] at hbytes
                obtain ⟨rfl, hbytes⟩ := hbytes
                exact ⟨hstats, Or.inr ⟨hupload, rfl, Bool.not_eq_true _ ▸ hopen, hbytes⟩⟩
          · cases h
        · cases h
  · split at h <;> cases h
  · split at h
    · cases h
    · split at h <;> cases h
  · split at h <;> cases h
  · split at h
    · cases h
    · split at h <;> cases h

/-- What a result is that breaks the protocol: its statistics, its word on the upload or its byte counts
contradict what the server has seen. -/
theorem classifyResult_protocol {result : PcapResult} {upload : UploadState} {bodyOpen : Bool}
    {streamed : ℕ} {detail : String}
    (h : classifyResult result upload bodyOpen streamed = .protocol detail) :
    (result.code = .complete ∧ result.upload ≠ .failed ∧
      ∀ stats, result.stats = some stats →
        result.upload = .none ∧
            (upload ≠ .pending ∨ streamed ≠ 0 ∨ stats.bytes ≠ 0 ∨ stats.truncated = false) ∨
          result.upload = .complete ∧ bodyOpen = false ∧ ∃ uploaded, upload = .complete uploaded ∧
            (uploaded ≠ streamed ∨ stats.bytes ≠ streamed)) ∨
    ((result.code = .noCandidateFiles ∨ result.code = .noMatch) ∧
      (result.upload ≠ .none ∨ upload ≠ .pending ∨ streamed ≠ 0)) ∨
    ((result.code = .cancelled ∨ result.code = .error) ∧ result.upload = .none ∧ upload ≠ .pending) := by
  unfold classifyResult at h
  split at h
  · rename_i hcode
    refine Or.inl ⟨hcode, ?_⟩
    split at h
    · cases h
    · rename_i hfailed
      rw [not_or] at hfailed
      refine ⟨hfailed.1, ?_⟩
      intro stats hstats
      rw [hstats] at h
      dsimp only at h
      split at h
      · rename_i hupload
        refine Or.inl ⟨hupload, ?_⟩
        split at h
        · rename_i hobserved
          rcases hobserved with hobserved | hobserved
          · exact Or.inl hobserved
          · exact Or.inr (Or.inl hobserved)
        · split at h
          · rename_i hempty
            rcases hempty with hempty | hempty
            · exact Or.inr (Or.inr (Or.inl hempty))
            · exact Or.inr (Or.inr (Or.inr (by simpa using hempty)))
          · cases h
      · rename_i hupload
        refine Or.inr ⟨hupload, ?_⟩
        split at h
        · rename_i uploaded
          split at h
          · cases h
          · rename_i hopen
            split at h
            · rename_i hbytes
              exact ⟨Bool.not_eq_true _ ▸ hopen, uploaded, rfl, hbytes⟩
            · cases h
        · cases h
      · cases h
  · rename_i hcode
    refine Or.inr (Or.inl ⟨Or.inl hcode, ?_⟩)
    split at h
    · assumption
    · cases h
  · rename_i hcode
    refine Or.inr (Or.inl ⟨Or.inr hcode, ?_⟩)
    split at h
    · assumption
    · split at h <;> cases h
  · rename_i hcode
    refine Or.inr (Or.inr ⟨Or.inl hcode, ?_⟩)
    split at h
    · assumption
    · cases h
  · rename_i hcode
    refine Or.inr (Or.inr ⟨Or.inr hcode, ?_⟩)
    split at h
    · assumption
    · split at h <;> cases h

end EveBox.Server
